/-
The prediction ledger (`plugins/ledger`: payload, store, ledger, entry): predictions and outcomes with
their validation, and the fold of their pairs into a sorted ledger.
-/
import Mathlib.Data.Sum.Order
import PiglorProofs.Authority.Evaluation

namespace Piglor.Predictions

open List

open Authority (textBytes)
open Checked (refuseIf)

/-! ## Libraries -/

/-- A parsed URL, as far as the ledger reads it. -/
structure Url where
  scheme : String
  hostStr : Option String
  username : String
  password : Option String
  port : Option Nat
  query : Option String
  fragment : Option String
  path : String
  asStr : String

/-- What the ledger takes from other crates: `Url::parse`, whether `Ulid::from_string` succeeds, the
`{:?}` form of a text and a ULID's text form. A URL is spelled with its scheme and a colon first, and a generated ULID parses. -/
structure Libraries where
  parseUrl : String → Option Url
  isUlid : String → Bool
  debug : String → String
  ulidText : Ulid → String
  asStr_scheme : ∀ {link url}, parseUrl link = some url → ∃ rest, url.asStr = url.scheme ++ ":" ++ rest
  isUlid_ulidText : ∀ id, isUlid (ulidText id) = true

/-- The bits of an `f64`. -/
abbrev F64 := BitVec 64

/-- `f64::is_finite`: the exponent is not all ones. -/
def F64.isFinite (x : F64) : Bool := x.toNat / 2 ^ 52 % 2 ^ 11 != 2 ^ 11 - 1

/-- `(0.0..=1.0).contains`, for a finite value; `-0.0` is in the range. -/
def F64.inUnitInterval (x : F64) : Bool := decide (x.toNat ≤ 0x3ff0000000000000) || x.toNat == 2 ^ 63

/-! ## Payloads -/

structure LedgerPrediction where
  predictionId : String
  title : String
  statement : String
  predictedOutcome : String
  confidence : F64
  scenario : Option String
  madeAt : String
  resolveBy : String
  osfLink : String

structure LedgerOutcome where
  predictionId : String
  outcome : Bool
  resolvedAt : String

structure NewPrediction where
  title : String
  statement : String
  predictedOutcome : String
  confidence : F64
  scenario : Option String
  madeAt : String
  resolveBy : String
  osfLink : String

/-- The errors a faithful backend leaves. -/
inductive LedgerError where
  | invalidPrediction (reason : String)
  | invalidResolution (reason : String)
  | invalidToday (today : String)
  | orphanResolution (predictionId : String)
  | unknownPrediction (predictionId : String)
  | alreadyResolved (predictionId : String)
deriving DecidableEq

def NewPrediction.intoPrediction (new : NewPrediction) (predictionId : String) : LedgerPrediction :=
  ⟨predictionId, new.title, new.statement, new.predictedOutcome, new.confidence, new.scenario, new.madeAt, new.resolveBy,
    new.osfLink⟩

/-! ## Dates -/

def isDigit (byte : UInt8) : Bool := decide (48 ≤ byte) && decide (byte ≤ 57)

/-- `str::parse::<u8>`: digits after an optional plus sign. -/
def parseU8 (bytes : List UInt8) : Option Nat :=
  let digits : List UInt8 := match bytes with
    | 43 :: rest => rest
    | _ => bytes
  let value : Nat := digits.foldl (fun n byte => 10 * n + (byte.toNat - 48)) 0
  if digits.isEmpty || !digits.all isDigit || decide (255 < value) then none else some value

def slice (low high : Nat) (bytes : List UInt8) : List UInt8 := (bytes.take high).drop low

/-- Days of each month from 1 on; leap years are ignored. -/
def daysInMonth : List Nat := [0, 31, 28, 31, 30, 31, 30, 31, 31, 30, 31, 30, 31]

def isValidDate (bytes : List UInt8) : Bool :=
  if bytes.length ≠ 10 ∨ bytes[4]? ≠ some 45 ∨ bytes[7]? ≠ some 45 then false
  else if !(bytes.take 4).all isDigit then false
  else match parseU8 (slice 5 7 bytes), parseU8 (slice 8 10 bytes) with
    | some month, some day =>
      decide (1 ≤ month ∧ month ≤ 12) && decide (1 ≤ day) && decide (day ≤ daysInMonth.getD month 0)
    | _, _ => false

def isValidDatetime (bytes : List UInt8) : Bool :=
  if bytes.length ≠ 20 ∨ bytes[10]? ≠ some 84 ∨ bytes[13]? ≠ some 58 ∨ bytes[16]? ≠ some 58 ∨ bytes[19]? ≠ some 90 then false
  else if !isValidDate (bytes.take 10) then false
  else match parseU8 (slice 11 13 bytes), parseU8 (slice 14 16 bytes), parseU8 (slice 17 19 bytes) with
    | some hour, some minute, some second => decide (hour < 24) && decide (minute < 60) && decide (second < 60)
    | _, _, _ => false

/-! ## Validation -/

/-- `char::is_whitespace`. -/
def isWhitespace (c : Char) : Bool :=
  let n := c.toNat
  (decide (9 ≤ n) && decide (n ≤ 13)) || n == 0x20 || n == 0x85 || n == 0xa0 || n == 0x1680
    || (decide (0x2000 ≤ n) && decide (n ≤ 0x200a)) || n == 0x2028 || n == 0x2029 || n == 0x202f || n == 0x205f || n == 0x3000

/-- `trim().is_empty()`. -/
def isBlank (text : String) : Bool := text.toList.all isWhitespace

section Validation

variable (lib : Libraries)

/-- A canonical `https://osf.io/<resource>` link, with or without a trailing slash. -/
def isValidOsfLink (link : String) : Bool :=
  match lib.parseUrl link with
  | none => false
  | some url =>
    if url.scheme ≠ "https" then false
    else if url.hostStr ≠ some "osf.io" then false
    else if url.username ≠ "" ∨ url.password.isSome = true then false
    else if url.port.isSome then false
    else if url.query.isSome || url.fragment.isSome then false
    else
      let resourcePath := url.path.toList.drop 1
      let resource := if resourcePath.getLast? = some '/' then resourcePath.dropLast else resourcePath
      if resource.isEmpty || resource.contains '/' then false
      else if !resource.all (fun c => c.isAlphanum || c == '-') then false
      else url.asStr == link

def validateFields (title statement predictedOutcome : String) (confidence : F64) (madeAt resolveBy : String) :
    Except LedgerError Unit := do
  refuseIf (isBlank title = true) (.invalidPrediction "title must not be empty")
  refuseIf (isBlank statement = true) (.invalidPrediction "statement must not be empty")
  refuseIf (isBlank predictedOutcome = true) (.invalidPrediction "predicted_outcome must not be empty")
  refuseIf (¬ (confidence.isFinite && confidence.inUnitInterval) = true)
    (.invalidPrediction "confidence must be a finite value in [0.0, 1.0]")
  refuseIf (¬ isValidDatetime (textBytes madeAt) = true) (.invalidPrediction
    ("made_at must be an RFC-3339 UTC datetime (YYYY-MM-DDTHH:MM:SSZ), got " ++ lib.debug madeAt))
  refuseIf (¬ isValidDate (textBytes resolveBy) = true) (.invalidPrediction
    ("resolve_by must be an RFC-3339 date (YYYY-MM-DD), got " ++ lib.debug resolveBy))
  refuseIf (textBytes resolveBy < (textBytes madeAt).take 10) (.invalidPrediction "made_at must be on or before resolve_by")

def NewPrediction.validate (new : NewPrediction) : Except LedgerError Unit := do
  validateFields lib new.title new.statement new.predictedOutcome new.confidence new.madeAt new.resolveBy
  refuseIf (¬ isValidOsfLink lib new.osfLink = true)
    (.invalidPrediction "osf_link must be a canonical HTTPS URL on osf.io (ADR-017)")

def validatePrediction (p : LedgerPrediction) : Except LedgerError Unit := do
  refuseIf (¬ lib.isUlid p.predictionId = true) (.invalidPrediction
    ("prediction_id must be a ULID, got " ++ lib.debug p.predictionId))
  validateFields lib p.title p.statement p.predictedOutcome p.confidence p.madeAt p.resolveBy

def validateOutcome (o : LedgerOutcome) : Except LedgerError Unit := do
  refuseIf (¬ lib.isUlid o.predictionId = true) (.invalidResolution
    ("prediction_id must be a ULID, got " ++ lib.debug o.predictionId))
  refuseIf (¬ isValidDatetime (textBytes o.resolvedAt) = true) (.invalidResolution
    ("resolved_at must be an RFC-3339 UTC datetime (YYYY-MM-DDTHH:MM:SSZ), got " ++ lib.debug o.resolvedAt))

end Validation

/-! ## The fold -/

inductive Status where
  | pending
  | overdue
  | resolved
deriving DecidableEq

structure LedgerEntry where
  prediction : LedgerPrediction
  resolution : Option LedgerOutcome
  status : Status

inductive LedgerWarning where
  | missingOsfLink (predictionId : String)
  | unsafeOsfLink (predictionId : String)
deriving DecidableEq

structure Ledger where
  entries : List LedgerEntry
  warnings : List LedgerWarning

/-- A prediction with its outcome, once it has one. -/
abbrev Pair := LedgerPrediction × Option LedgerOutcome

/-- The unresolved first, by deadline; then the resolved, latest first; ties by id. -/
def compareEntries (a b : LedgerEntry) : Ordering :=
  match a.status, b.status with
  | .resolved, .resolved =>
    let aAt := (a.resolution.map LedgerOutcome.resolvedAt).getD ""
    let bAt := (b.resolution.map LedgerOutcome.resolvedAt).getD ""
    (cmp bAt aAt).then (cmp a.prediction.predictionId b.prediction.predictionId)
  | .resolved, _ => .gt
  | _, .resolved => .lt
  | _, _ =>
    (cmp a.prediction.resolveBy b.prediction.resolveBy).then (cmp a.prediction.predictionId b.prediction.predictionId)

def statusAt (today : String) (pair : Pair) : Status :=
  if pair.2.isSome then .resolved else if pair.1.resolveBy < today then .overdue else .pending

/-- The outcome of a pair, when it has one, is valid and its own. -/
def validateResolution (lib : Libraries) (pair : Pair) : Except LedgerError Unit :=
  match pair.2 with
  | none => .ok ()
  | some outcome => do
    validateOutcome lib outcome
    refuseIf (outcome.predictionId ≠ pair.1.predictionId) (.invalidResolution ("outcome prediction_id "
      ++ lib.debug outcome.predictionId ++ " does not match prediction " ++ lib.debug pair.1.predictionId))

/-- One pair of the fold: an entry, or the warning it is excluded with. -/
def foldPair (lib : Libraries) (today : String) (pair : Pair) : Except LedgerError (LedgerEntry ⊕ LedgerWarning) := do
  validatePrediction lib pair.1
  validateResolution lib pair
  if isBlank pair.1.osfLink then .ok (.inr (.missingOsfLink pair.1.predictionId))
  else if !isValidOsfLink lib pair.1.osfLink then .ok (.inr (.unsafeOsfLink pair.1.predictionId))
  else .ok (.inl ⟨pair.1, pair.2, statusAt today pair⟩)

def fromPairs (lib : Libraries) (pairs : List Pair) (today : String) : Except LedgerError Ledger := do
  refuseIf (¬ isValidDate (textBytes today) = true) (.invalidToday today)
  let folded ← pairs.mapM (foldPair lib today)
  .ok ⟨(folded.filterMap Sum.getLeft?).insertionSort fun a b => compareEntries a b ≠ .gt, folded.filterMap Sum.getRight?⟩

/-! ## The ledger of sound pairs -/

def LedgerEntry.sortKey (entry : LedgerEntry) : (String ×ₗ String) ⊕ₗ (Stringᵒᵈ ×ₗ String) :=
  if entry.status = .resolved then
    toLex (.inr (toLex (.toDual ((entry.resolution.map LedgerOutcome.resolvedAt).getD ""), entry.prediction.predictionId)))
  else toLex (.inl (toLex (entry.prediction.resolveBy, entry.prediction.predictionId)))

theorem then_cmp_ne_gt {α β : Type} [LinearOrder α] [LinearOrder β] {a a' : α} {b b' : β} :
    (cmp a a').then (cmp b b') ≠ .gt ↔ toLex (a, b) ≤ toLex (a', b') := by
  rw [Prod.Lex.toLex_le_toLex]
  rcases lt_trichotomy a a' with h | rfl | h
  · rw [(cmp_eq_lt_iff _ _).mpr h]
    exact iff_of_true Ordering.noConfusion (.inl h)
  · rw [cmp_self_eq_eq]
    show cmp b b' ≠ .gt ↔ _
    rw [Ne, cmp_eq_gt_iff, not_lt]
    simp
  · rw [(cmp_eq_gt_iff _ _).mpr h]
    refine iff_of_false (fun hne => hne rfl) ?_
    rintro (hlt | ⟨rfl, -⟩)
    · exact hlt.not_gt h
    · exact lt_irrefl _ h

variable {a b : LedgerEntry}

theorem compareEntries_ne_gt : compareEntries a b ≠ .gt ↔ a.sortKey ≤ b.sortKey := by
  obtain ⟨p, o, s⟩ := a
  obtain ⟨p', o', s'⟩ := b
  cases s <;> cases s'
  case resolved.resolved =>
    refine then_cmp_ne_gt.trans (.trans ?_ Sum.Lex.inr_le_inr_iff.symm)
    rw [Prod.Lex.toLex_le_toLex, Prod.Lex.toLex_le_toLex]
    exact or_congr_right (and_congr_left' eq_comm)
  case resolved.pending | resolved.overdue => exact iff_of_false (fun h => h rfl) Sum.Lex.not_inr_le_inl
  case pending.resolved | overdue.resolved => exact iff_of_true Ordering.noConfusion (Sum.Lex.inl_le_inr _ _)
  all_goals exact then_cmp_ne_gt.trans Sum.Lex.inl_le_inl_iff.symm

theorem LedgerEntry.predictionId_of_sortKey (h : a.sortKey = b.sortKey) :
    a.prediction.predictionId = b.prediction.predictionId := by
  unfold sortKey at h
  split at h <;> split at h <;> simp at h
  · exact h.2
  · exact h.2

/-- Entries of different predictions have one order, whichever order they are sorted from. -/
theorem insertionSort_perm {entries entries' : List LedgerEntry} (hperm : entries.Perm entries')
    (hids : (entries.map fun e => e.prediction.predictionId).Nodup) :
    (entries.insertionSort fun a b => compareEntries a b ≠ .gt) =
    entries'.insertionSort fun a b => compareEntries a b ≠ .gt := by
  have htrans : IsTrans LedgerEntry fun a b => compareEntries a b ≠ .gt :=
    ⟨fun a b c hab hbc => compareEntries_ne_gt.mpr ((compareEntries_ne_gt.mp hab).trans (compareEntries_ne_gt.mp hbc))⟩
  have htotal : Std.Total fun a b : LedgerEntry => compareEntries a b ≠ .gt :=
    ⟨fun a b => (le_total a.sortKey b.sortKey).imp compareEntries_ne_gt.mpr compareEntries_ne_gt.mpr⟩
  have hsort := perm_insertionSort (fun a b => compareEntries a b ≠ .gt) entries
  have hsort' := perm_insertionSort (fun a b => compareEntries a b ≠ .gt) entries'
  refine Perm.eq_of_pairwise ?_ (pairwise_insertionSort _ _) (pairwise_insertionSort _ _)
    (hsort.trans (hperm.trans hsort'.symm))
  intro a b ha hb hab hba
  have hkey : a.sortKey = b.sortKey := le_antisymm (compareEntries_ne_gt.mp hab) (compareEntries_ne_gt.mp hba)
  have hid := LedgerEntry.predictionId_of_sortKey hkey
  exact inj_on_of_nodup_map hids (hsort.mem_iff.mp ha) (hperm.mem_iff.mpr (hsort'.mem_iff.mp hb)) hid

/-- A pair the ledger displays. -/
structure Sound (lib : Libraries) (pair : Pair) : Prop where
  prediction : validatePrediction lib pair.1 = .ok ()
  resolution : validateResolution lib pair = .ok ()
  link : isValidOsfLink lib pair.1.osfLink = true

def entryAt (today : String) (pair : Pair) : LedgerEntry := ⟨pair.1, pair.2, statusAt today pair⟩

variable {lib : Libraries} {pairs pairs' : List Pair} {today : String}

theorem not_isBlank_of_isValidOsfLink {link : String} (h : isValidOsfLink lib link = true) : isBlank link = false := by
  unfold isValidOsfLink at h
  split at h
  · cases h
  next url hurl =>
    obtain ⟨rest, hspelled⟩ := lib.asStr_scheme hurl
    simp only [ite_eq_iff, Bool.false_eq_true, and_false, false_or, beq_iff_eq, not_not] at h
    obtain ⟨hscheme, -, -, -, -, -, -, hlink⟩ := h
    rw [← hlink, hspelled, hscheme]
    simp [isBlank, isWhitespace]

theorem Sound.foldPair {pair : Pair} (h : Sound lib pair) : foldPair lib today pair = .ok (.inl (entryAt today pair)) := by
  simp [Predictions.foldPair, h.prediction, h.resolution, not_isBlank_of_isValidOsfLink h.link, h.link, entryAt]

theorem fromPairs_of_sound (hsound : ∀ pair ∈ pairs, Sound lib pair) (htoday : isValidDate (textBytes today) = true) :
    fromPairs lib pairs today =
      .ok ⟨(pairs.map (entryAt today)).insertionSort fun a b => compareEntries a b ≠ .gt, []⟩ := by
  have hmap : pairs.mapM (foldPair lib today) = .ok (pairs.map fun pair => .inl (entryAt today pair)) := by
    rw [Checked.mapM_eq_ok, forall₂_map_right_iff, forall₂_same]
    exact fun pair hpair => (hsound pair hpair).foldPair
  simp [fromPairs, htoday, hmap, Checked.refuseIf, filterMap_map, Function.comp_def]

theorem fromPairs_of_not_isValidDate (htoday : ¬ isValidDate (textBytes today) = true) :
    fromPairs lib pairs today = .error (.invalidToday today) := by
  simp [fromPairs, htoday, Checked.refuseIf]

/-- The ledger of sound pairs with different ids is the same in whichever order they are folded. -/
theorem fromPairs_perm (hsound : ∀ pair ∈ pairs, Sound lib pair)
    (hids : (pairs.map fun pair => pair.1.predictionId).Nodup) (hperm : pairs.Perm pairs') :
    fromPairs lib pairs today = fromPairs lib pairs' today := by
  by_cases htoday : isValidDate (textBytes today) = true
  · rw [fromPairs_of_sound hsound htoday,
      fromPairs_of_sound (fun pair hpair => hsound pair (hperm.mem_iff.mpr hpair)) htoday]
    rw [insertionSort_perm (hperm.map _)]
    simpa [Function.comp_def, entryAt] using hids
  · rw [fromPairs_of_not_isValidDate htoday, fromPairs_of_not_isValidDate htoday]

theorem mem_entries_of_sound (hsound : ∀ pair ∈ pairs, Sound lib pair) {ledger : Ledger}
    (h : fromPairs lib pairs today = .ok ledger) {entry : LedgerEntry} :
    entry ∈ ledger.entries ↔ ∃ pair ∈ pairs, entryAt today pair = entry := by
  have htoday : isValidDate (textBytes today) = true := by
    by_contra hnot
    rw [fromPairs_of_not_isValidDate hnot] at h
    cases h
  rw [fromPairs_of_sound hsound htoday] at h
  cases h
  rw [(perm_insertionSort _ _).mem_iff, mem_map]

end Piglor.Predictions
