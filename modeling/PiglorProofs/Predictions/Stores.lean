/-
The two prediction ledgers (`plugins/ledger`: store, toml_store, event_store): the port they share, the store
of one file for each prediction and each resolution, and the store of signed Events. Files, Events and their
encodings are taken as faithful; a generated id comes with its call.
-/
import PiglorProofs.Lib.Runs
import PiglorProofs.Predictions.Fold

namespace Piglor.Predictions

open Checked (refuseIf)

/-! ## The port -/

structure ResolveStatus where
  foundPrediction : Bool
  alreadyResolved : Bool

/-- A ledger adapter on states `σ`; `register` gets the id it generates. -/
structure LedgerStore (σ : Type) where
  load : σ → String → Except LedgerError Ledger
  register : σ → Ulid → NewPrediction → Except LedgerError (σ × String)
  findResolveStatus : σ → String → ResolveStatus
  persistResolve : σ → LedgerOutcome → σ

section Port

variable {σ : Type} (lib : Libraries) (port : LedgerStore σ)

/-- The port's own `resolve`, over the adapter's lookup and write. -/
def LedgerStore.resolve (s : σ) (outcome : LedgerOutcome) : Except LedgerError σ := do
  validateOutcome lib outcome
  let status := port.findResolveStatus s outcome.predictionId
  refuseIf (¬ status.foundPrediction = true) (.unknownPrediction outcome.predictionId)
  refuseIf (status.alreadyResolved = true) (.alreadyResolved outcome.predictionId)
  .ok (port.persistResolve s outcome)

inductive LedgerCall where
  | register (generated : Ulid) (new : NewPrediction)
  | resolve (outcome : LedgerOutcome)

inductive LedgerReply where
  | registered (result : Except LedgerError String)
  | resolved (result : Except LedgerError Unit)
deriving DecidableEq

/-- A failed call leaves the store as it is. -/
def LedgerStore.exec (s : σ) : LedgerCall → σ × LedgerReply
  | .register generated new => match port.register s generated new with
    | .ok (s', predictionId) => (s', .registered (.ok predictionId))
    | .error e => (s, .registered (.error e))
  | .resolve outcome => match port.resolve lib s outcome with
    | .ok s' => (s', .resolved (.ok ()))
    | .error e => (s, .resolved (.error e))

end Port

/-- Set the outcome of the first prediction it names. -/
def attach : List Pair → LedgerOutcome → Except LedgerError (List Pair)
  | [], outcome => .error (.orphanResolution outcome.predictionId)
  | pair :: pairs, outcome =>
    if pair.1.predictionId = outcome.predictionId then .ok ((pair.1, some outcome) :: pairs)
    else (attach pairs outcome).map (pair :: ·)

/-! ## Files -/

/-- A file of a directory: its stem and its content. -/
structure TomlFile (α : Type) where
  stem : String
  value : α

def TomlFile.name {α : Type} (file : TomlFile α) : String := file.stem ++ ".toml"

/-- The files of a directory, in the order of their names. -/
abbrev TomlDir (α : Type) := List (TomlFile α)

def TomlDir.write {α : Type} (dir : TomlDir α) (stem : String) (value : α) : TomlDir α :=
  Ascending.insert TomlFile.name ⟨stem, value⟩ dir

def TomlDir.contains {α : Type} (dir : TomlDir α) (stem : String) : Bool := dir.any fun file => file.name == stem ++ ".toml"

structure TomlLedgerStore where
  predictions : TomlDir LedgerPrediction
  resolutions : TomlDir LedgerOutcome

namespace TomlLedgerStore

variable (lib : Libraries)

def readPrediction (file : TomlFile LedgerPrediction) : Except LedgerError Pair := do
  refuseIf (file.stem ≠ file.value.predictionId) (.invalidPrediction ("filename stem " ++ lib.debug file.stem
    ++ " does not match prediction_id " ++ lib.debug file.value.predictionId))
  .ok (file.value, none)

def readResolution (pairs : List Pair) (file : TomlFile LedgerOutcome) : Except LedgerError (List Pair) := do
  refuseIf (file.stem ≠ file.value.predictionId) (.invalidResolution ("filename stem " ++ lib.debug file.stem
    ++ " does not match prediction_id " ++ lib.debug file.value.predictionId))
  attach pairs file.value

def load (store : TomlLedgerStore) (today : String) : Except LedgerError Ledger := do
  let predictions ← store.predictions.mapM (readPrediction lib)
  let pairs ← store.resolutions.foldlM (readResolution lib) predictions
  fromPairs lib pairs today

def register (store : TomlLedgerStore) (generated : Ulid) (new : NewPrediction) :
    Except LedgerError (TomlLedgerStore × String) := do
  new.validate lib
  let prediction := new.intoPrediction (lib.ulidText generated)
  .ok ({ store with predictions := store.predictions.write prediction.predictionId prediction }, prediction.predictionId)

def findResolveStatus (store : TomlLedgerStore) (predictionId : String) : ResolveStatus :=
  ⟨store.predictions.contains predictionId, store.resolutions.contains predictionId⟩

def persistResolve (store : TomlLedgerStore) (outcome : LedgerOutcome) : TomlLedgerStore :=
  { store with resolutions := store.resolutions.write outcome.predictionId outcome }

def port : LedgerStore TomlLedgerStore := ⟨load lib, register lib, findResolveStatus, persistResolve⟩

def empty : TomlLedgerStore := ⟨[], []⟩

end TomlLedgerStore

/-! ## Events -/

inductive LedgerEvent where
  | prediction (payload : LedgerPrediction)
  | outcome (payload : LedgerOutcome)
  | other (eventType : String)

def LedgerEvent.prediction? : LedgerEvent → Option LedgerPrediction
  | .prediction payload => some payload
  | _ => none

def LedgerEvent.outcome? : LedgerEvent → Option LedgerOutcome
  | .outcome payload => some payload
  | _ => none

structure EventLedgerStore where
  events : List LedgerEvent

namespace EventLedgerStore

variable (lib : Libraries)

def foldLedgerEvent (pairs : List Pair) : LedgerEvent → Except LedgerError (List Pair)
  | .prediction payload => .ok (pairs ++ [(payload, none)])
  | .outcome payload => attach pairs payload
  | .other _ => .ok pairs

def load (store : EventLedgerStore) (today : String) : Except LedgerError Ledger := do
  let pairs ← store.events.foldlM foldLedgerEvent []
  fromPairs lib pairs today

def register (store : EventLedgerStore) (generated : Ulid) (new : NewPrediction) :
    Except LedgerError (EventLedgerStore × String) := do
  new.validate lib
  let prediction := new.intoPrediction (lib.ulidText generated)
  .ok (⟨store.events ++ [.prediction prediction]⟩, prediction.predictionId)

def findResolveStatus (store : EventLedgerStore) (predictionId : String) : ResolveStatus :=
  ⟨(store.events.filterMap LedgerEvent.prediction?).any fun p => p.predictionId == predictionId,
    (store.events.filterMap LedgerEvent.outcome?).any fun o => o.predictionId == predictionId⟩

def persistResolve (store : EventLedgerStore) (outcome : LedgerOutcome) : EventLedgerStore :=
  ⟨store.events ++ [.outcome outcome]⟩

def port : LedgerStore EventLedgerStore := ⟨load lib, register lib, findResolveStatus, persistResolve⟩

end EventLedgerStore

end Piglor.Predictions
