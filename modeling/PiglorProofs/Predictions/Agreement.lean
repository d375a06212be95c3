/-
Both prediction ledgers refine the book, so over every sequence of calls whose generated ids differ they
answer alike and load equal ledgers, and the first outcome of a prediction stays.
-/
import PiglorProofs.Predictions.Book

namespace Piglor.Predictions

open Runs List EventLedgerStore TomlLedgerStore Book
open Authority (textBytes)
open Checked (refuseIf refuseIf_eq_ok)

variable {lib : Libraries}

/-! ## Files -/

/-- A directory with one file for each of the given values, named by its id. -/
structure Filed {α : Type} (idOf : α → String) (dir : TomlDir α) (values : List α) : Prop where
  ascending : Ascending.Strict TomlFile.name dir
  mem_iff : ∀ file, file ∈ dir ↔ file.value ∈ values ∧ file.stem = idOf file.value

namespace Filed

variable {α : Type} {idOf : α → String} {dir : TomlDir α} {values : List α} {stem : String}

theorem stem_inj {stem' : String} (h : stem ++ ".toml" = stem' ++ ".toml") : stem = stem' :=
  (String.append_left_inj _).mp h

theorem contains (h : Filed idOf dir values) (k : String) : dir.contains k = decide (k ∈ values.map idOf) := by
  rw [TomlDir.contains, Bool.eq_iff_iff, any_eq_true, decide_eq_true_iff, mem_map]
  constructor
  · rintro ⟨file, hfile, hname⟩
    obtain ⟨hvalue, hstem⟩ := (h.mem_iff file).mp hfile
    exact ⟨file.value, hvalue, hstem.symm.trans (stem_inj (beq_iff_eq.mp hname))⟩
  · rintro ⟨value, hvalue, rfl⟩
    exact ⟨⟨idOf value, value⟩, (h.mem_iff _).mpr ⟨hvalue, rfl⟩, beq_self_eq_true _⟩

theorem write (h : Filed idOf dir values) {value : α} (hstem : stem = idOf value)
    (hnew : stem ∉ values.map idOf) : Filed idOf (dir.write stem value) (values ++ [value]) := by
  subst hstem
  refine ⟨h.ascending.insert, fun file => ?_⟩
  rw [mem_append, mem_singleton]
  constructor
  · intro hfile
    rcases Ascending.mem_of_mem_insert hfile with rfl | hfile
    · exact ⟨.inr rfl, rfl⟩
    · obtain ⟨hvalue, hstem⟩ := (h.mem_iff file).mp hfile
      exact ⟨.inl hvalue, hstem⟩
  · rintro ⟨hvalue | hvalue, hstem⟩
    · refine Ascending.mem_insert_of_mem ((h.mem_iff file).mpr ⟨hvalue, hstem⟩) fun hname => absurd ?_ hnew
      exact mem_map.mpr ⟨file.value, hvalue, hstem.symm.trans (stem_inj hname).symm⟩
    · obtain ⟨stem, value'⟩ := file
      dsimp only at hvalue hstem
      subst hvalue hstem
      exact Ascending.mem_insert_self

theorem perm (h : Filed idOf dir values) (hdistinct : (values.map idOf).Nodup) : (dir.map TomlFile.value).Perm values := by
  have hinj : ∀ file ∈ dir, ∀ file' ∈ dir, file.value = file'.value → file = file' := by
    rintro ⟨stem, value⟩ hfile ⟨stem', value'⟩ hfile' rfl
    have hstem := ((h.mem_iff _).mp hfile).2
    have hstem' := ((h.mem_iff _).mp hfile').2
    exact congrArg (TomlFile.mk · _) (hstem.trans hstem'.symm)
  refine (perm_ext_iff_of_nodup (h.ascending.nodup.map_on hinj) hdistinct.of_map).mpr fun value => ?_
  rw [mem_map]
  constructor
  · rintro ⟨file, hfile, rfl⟩
    exact ((h.mem_iff file).mp hfile).1
  · intro hvalue
    exact ⟨⟨idOf value, value⟩, (h.mem_iff _).mpr ⟨hvalue, rfl⟩, rfl⟩

end Filed

variable {b : Book lib} {new : NewPrediction} {generated : Ulid}

namespace TomlLedgerStore

/-- The files of a book. -/
structure Holds (store : TomlLedgerStore) (b : Book lib) : Prop where
  predictions : Filed LedgerPrediction.predictionId store.predictions b.predictions
  resolutions : Filed LedgerOutcome.predictionId store.resolutions b.outcomes

variable {store : TomlLedgerStore}

theorem mapM_readPrediction (h : store.Holds b) :
    store.predictions.mapM (readPrediction lib) = .ok ((store.predictions.map TomlFile.value).map (pairIn [])) := by
  rw [Checked.mapM_eq_ok, map_map, forall₂_map_right_iff, forall₂_same]
  intro file hfile
  have hstem := ((h.predictions.mem_iff file).mp hfile).2
  simp [readPrediction, refuseIf, hstem, pairIn]

theorem foldlM_readResolution (h : store.Holds b) (pairs : List Pair) :
    store.resolutions.foldlM (readResolution lib) pairs = (store.resolutions.map TomlFile.value).foldlM attach pairs := by
  rw [foldlM_map]
  refine Checked.foldlM_congr _ _ fun file hfile pairs => ?_
  have hstem := ((h.resolutions.mem_iff file).mp hfile).2
  simp [readResolution, refuseIf, hstem]

theorem load_eq (h : store.Holds b) (today : String) : store.load lib today = fromPairs lib b.pairs today := by
  have hpredictions := h.predictions.perm b.distinct
  have hresolutions := h.resolutions.perm b.once
  have hfold : (store.resolutions.map TomlFile.value).foldlM attach
      ((store.predictions.map TomlFile.value).map (pairIn [])) =
      .ok ((store.predictions.map TomlFile.value).map (pairIn (store.resolutions.map TomlFile.value))) := by
    refine foldlM_attach ?_ ?_ fun o ho => ?_
    · exact (hpredictions.map _).nodup_iff.mpr b.distinct
    · exact (hresolutions.map _).nodup_iff.mpr b.once
    · exact (hpredictions.map _).mem_iff.mpr (b.answers o (hresolutions.mem_iff.mp ho))
  rw [load, mapM_readPrediction h, Checked.ok_bind, foldlM_readResolution h, hfold, Checked.ok_bind,
    ← pairIn_perm b.once hresolutions.symm]
  exact (fromPairs_perm b.sound b.pairs_distinct (hpredictions.map _).symm).symm

theorem register_of_valid (hvalid : new.validate lib = .ok ()) :
    store.register lib generated new =
      .ok (⟨store.predictions.write (lib.ulidText generated) (new.intoPrediction (lib.ulidText generated)), store.resolutions⟩,
        lib.ulidText generated) := by
  rw [register, hvalid]
  rfl

theorem refines : Refines lib (port lib) Holds where
  load := load_eq
  status h k := congrArg₂ ResolveStatus.mk (h.predictions.contains k) (h.resolutions.contains k)
  refused hvalid := by simp [port, register, hvalid]
  registered h hvalid hfresh := ⟨_, register_of_valid hvalid, h.predictions.write rfl hfresh, h.resolutions⟩
  persisted h hawaits := ⟨h.predictions, h.resolutions.write rfl hawaits.unresolved⟩

theorem holds_empty : Holds empty (Book.empty : Book lib) :=
  ⟨⟨.nil, fun file => by simp [empty, Book.empty]⟩, ⟨.nil, fun file => by simp [empty, Book.empty]⟩⟩

end TomlLedgerStore

/-! ## Events -/

namespace EventLedgerStore

/-- The Events of a book. -/
structure Holds (store : EventLedgerStore) (b : Book lib) : Prop where
  predictions : store.events.filterMap LedgerEvent.prediction? = b.predictions
  outcomes : store.events.filterMap LedgerEvent.outcome? = b.outcomes
  folded : store.events.foldlM foldLedgerEvent [] = .ok b.pairs

variable {store : EventLedgerStore}

theorem any_eq_decide {α : Type} (idOf : α → String) (values : List α) (k : String) :
    (values.any fun value => idOf value == k) = decide (k ∈ values.map idOf) := by
  rw [Bool.eq_iff_iff]
  simp

theorem register_of_valid (hvalid : new.validate lib = .ok ()) :
    store.register lib generated new =
      .ok (⟨store.events ++ [.prediction (new.intoPrediction (lib.ulidText generated))]⟩, lib.ulidText generated) := by
  rw [register, hvalid]
  rfl

theorem refines : Refines lib (port lib) Holds where
  load h today := by simp [port, load, h.folded]
  status h k := by
    simp only [port, findResolveStatus, h.predictions, h.outcomes, any_eq_decide]
    rfl
  refused hvalid := by simp [port, register, hvalid]
  registered {store b generated new} h hvalid hfresh := by
    refine ⟨_, register_of_valid hvalid, ?_, ?_, ?_⟩
    · simp [h.predictions, LedgerEvent.prediction?, add]
    · simp [h.outcomes, LedgerEvent.outcome?, add]
    · rw [b.pairs_add, Checked.foldlM_append_eq_ok]
      exact ⟨_, h.folded, rfl⟩
  persisted {store b o} h hawaits := by
    refine ⟨?_, ?_, ?_⟩
    · simp [port, persistResolve, h.predictions, LedgerEvent.prediction?, settle]
    · simp [port, persistResolve, h.outcomes, LedgerEvent.outcome?, settle]
    · have hattach : attach b.pairs o = .ok (b.settle o hawaits).pairs :=
        attach_pairIn hawaits.unresolved b.distinct hawaits.found
      refine Checked.foldlM_append_eq_ok.mpr ⟨_, h.folded, ?_⟩
      rw [foldlM_cons, foldLedgerEvent, hattach]
      rfl

theorem holds_empty (others : List String) : Holds ⟨others.map .other⟩ (empty : Book lib) := by
  refine ⟨?_, ?_, ?_⟩
  · simp [filterMap_map, Function.comp_def, LedgerEvent.prediction?, Book.empty]
  · simp [filterMap_map, Function.comp_def, LedgerEvent.outcome?, Book.empty]
  · induction others with
    | nil => rfl
    | cons kind others ih => exact ih

end EventLedgerStore

/-! ## Agreement -/

section Agreement

variable {σ : Type} (port : LedgerStore σ)

/-- Every ledger loaded from a state has an outcome as the resolution of its prediction. -/
def Shows (s : σ) (o : LedgerOutcome) : Prop :=
  ∀ today, isValidDate (textBytes today) = true → ∃ ledger, port.load s today = .ok ledger ∧
    (∃ entry ∈ ledger.entries, entry.prediction.predictionId = o.predictionId) ∧
    ∀ entry ∈ ledger.entries, entry.prediction.predictionId = o.predictionId → entry.resolution = some o

/-- A call that resolves a prediction. -/
def Records (e : Runs.Entry σ LedgerCall LedgerReply) (o : LedgerOutcome) : Prop :=
  e.call = .resolve o ∧ e.reply = .resolved (.ok ())

/-- From the call that records it on, an outcome is the one the ledgers show, and every further outcome for
its prediction is refused: as already resolved when it is well formed, as invalid otherwise. -/
structure KeepsOutcomes (lib : Libraries) (log : List (Runs.Entry σ LedgerCall LedgerReply)) : Prop where
  shown : ∀ e ∈ log, ∀ o, Records e o → Shows port e.after o
  kept : log.Pairwise fun e f => ∀ o, Records e o → Shows port f.after o ∧
    ∀ o', f.call = .resolve o' → o'.predictionId = o.predictionId →
      f.reply = .resolved (validateOutcome lib o' >>= fun _ => .error (.alreadyResolved o'.predictionId))

variable {port} {Holds : σ → Book lib → Prop} {calls : List LedgerCall} {o : LedgerOutcome} {start : σ}

theorem Refines.simulates (h : Refines lib port Holds) (hstart : Holds start b) (hfresh : b.Fresh calls) :
    Forall₂ (Simulates Holds) (log (port.exec lib) start calls) (log Book.exec b calls) := by
  refine simulation (P := Fresh) ?_ hstart hfresh
  intro s b call rest hs hfresh
  exact h.exec hs hfresh

theorem Refines.shows (h : Refines lib port Holds) {s : σ} (hs : Holds s b) (ho : o ∈ b.outcomes) : Shows port s o := by
  intro today htoday
  have hload := (h.load hs today).trans (fromPairs_of_sound b.sound htoday)
  exact ⟨_, hload, b.resolution_of_mem ho ((h.load hs today).symm.trans hload)⟩

theorem mem_outcomes_of_records {e : Entry (Book lib) LedgerCall LedgerReply}
    (hexec : exec e.before e.call = (e.after, e.reply)) (h : Records e o) : o ∈ e.after.outcomes := by
  obtain ⟨before, call, reply, after⟩ := e
  obtain ⟨rfl, rfl⟩ := h
  obtain ⟨hnext, hreply⟩ := Prod.mk.inj hexec
  have hawaits : before.Awaits o := before.checkResolve_eq_ok.mp (LedgerReply.resolved.inj hreply)
  rw [← hnext, before.next_resolve hawaits]
  exact mem_append_right _ mem_cons_self

/-- What the calls on a book keep, a store that refines it keeps. -/
theorem Refines.keepsOutcomes (h : Refines lib port Holds)
    (hsim : Forall₂ (Simulates Holds) (log (port.exec lib) start calls) (log Book.exec b calls)) :
    KeepsOutcomes port lib (log (port.exec lib) start calls) := by
  have hpairs : (log Book.exec b calls).Pairwise fun e f =>
      e.after.outcomes ⊆ f.before.outcomes ∧ e.after.outcomes ⊆ f.after.outcomes :=
    (related (I := fun _ : Book lib => True) (R := fun b b' : Book lib => b.outcomes ⊆ b'.outcomes)
      (fun _ => Subset.refl _) Subset.trans (fun b call _ => ⟨trivial, b.outcomes_next call⟩) trivial).2.1
  refine ⟨fun e he o hrecords => ?_, pairwise_of_forall₂ ?_ hsim (Pairwise.and_mem.mp hpairs)⟩
  · obtain ⟨e', he', hS⟩ := exists_of_forall₂ hsim he
    have hrecords' : Records e' o := ⟨hS.call ▸ hrecords.1, hS.reply ▸ hrecords.2⟩
    exact h.shows hS.after (mem_outcomes_of_records (exec_of_mem_log he') hrecords')
  · rintro e f e' f' hS hS' ⟨he', hf', hbefore, hafter⟩ o hrecords
    have hrecords' : Records e' o := ⟨hS.call ▸ hrecords.1, hS.reply ▸ hrecords.2⟩
    have ho := mem_outcomes_of_records (exec_of_mem_log he') hrecords'
    refine ⟨h.shows hS'.after (hafter ho), fun o' hcall hid => ?_⟩
    have hreply : f'.before.reply f'.call = f'.reply := congrArg Prod.snd (exec_of_mem_log hf')
    have hresolved : o'.predictionId ∈ f'.before.resolved := mem_map.mpr ⟨o, hbefore ho, hid.symm⟩
    rw [hS'.reply, ← hreply, ← hS'.call, hcall, reply, f'.before.checkResolve_again hresolved]

end Agreement

variable (lib)

def tomlLog (calls : List LedgerCall) : List (Runs.Entry TomlLedgerStore LedgerCall LedgerReply) :=
  Runs.log ((TomlLedgerStore.port lib).exec lib) .empty calls

/-- A Timeline that starts with Events of other types. -/
def eventLog (others : List String) (calls : List LedgerCall) : List (Runs.Entry EventLedgerStore LedgerCall LedgerReply) :=
  Runs.log ((EventLedgerStore.port lib).exec lib) ⟨others.map .other⟩ calls

/-- Over calls whose generated ids differ, both ledgers answer alike, load equal ledgers after every call and
keep the first outcome of every prediction. -/
theorem prediction_ledgers_agree (others : List String) (calls : List LedgerCall)
    (hdrawn : (calls.filterMap (Book.drawn lib)).Nodup) :
    List.Forall₂ (fun toml event => toml.call = event.call ∧ toml.reply = event.reply ∧
      ∀ today, toml.after.load lib today = event.after.load lib today) (tomlLog lib calls) (eventLog lib others calls) ∧
    KeepsOutcomes (TomlLedgerStore.port lib) lib (tomlLog lib calls) ∧
    KeepsOutcomes (EventLedgerStore.port lib) lib (eventLog lib others calls) := by
  have hfresh : (Book.empty : Book lib).Fresh calls := ⟨hdrawn, fun _ _ => not_mem_nil⟩
  have htoml := refines.simulates holds_empty hfresh
  have hevent := refines.simulates (holds_empty others) hfresh
  refine ⟨?_, refines.keepsOutcomes htoml, refines.keepsOutcomes hevent⟩
  refine forall₂_of_common (fun toml event b hS hS' => ?_) htoml hevent
  refine ⟨hS.call.trans hS'.call.symm, hS.reply.trans hS'.reply.symm, fun today => ?_⟩
  exact (refines.load hS.after today).trans (refines.load hS'.after today).symm

/-! ## Two runs -/

/-- Libraries that know one OSF page and print the ids below ten. -/
def osfLibraries : Libraries where
  parseUrl link := if link = "https://osf.io/ab12c"
    then some ⟨"https", some "osf.io", "", none, none, none, none, "/ab12c", "https://osf.io/ab12c"⟩ else none
  isUlid _ := true
  debug text := "\"" ++ text ++ "\""
  ulidText id := "0000000000000000000000000" ++ toString id.toNat
  asStr_scheme {link url} h := by
    split at h
    · cases h
      exact ⟨"//osf.io/ab12c", rfl⟩
    · cases h
  isUlid_ulidText _ := rfl

def rain : NewPrediction :=
  ⟨"Rain", "It rains in May", "rain", 0x3fe0000000000000, none, "2026-04-01T08:00:00Z", "2026-05-31", "https://osf.io/ab12c"⟩

def snow : NewPrediction :=
  ⟨"Snow", "It snows in May", "snow", 0x3fc0000000000000, none, "2026-04-02T08:00:00Z", "2026-05-31", "https://osf.io/ab12c"⟩

/-- An outcome for the prediction with the first id. -/
def rained (resolvedAt : String) : LedgerOutcome := ⟨osfLibraries.ulidText 1, true, resolvedAt⟩

/-- A malformed outcome for a resolved prediction is refused as invalid, and two predictions under one
generated id are one file and two Events. -/
theorem rain_resolved_twice_and_id_repeated :
    (tomlLog osfLibraries [.register 1 rain, .resolve (rained "2026-05-09T18:00:00Z"), .resolve (rained "in May")]).map
      Runs.Entry.reply = [.registered (.ok (osfLibraries.ulidText 1)), .resolved (.ok ()),
        .resolved (.error (.invalidResolution
          "resolved_at must be an RFC-3339 UTC datetime (YYYY-MM-DDTHH:MM:SSZ), got \"in May\""))] ∧
    (tomlLog osfLibraries [.register 1 rain, .register 1 snow]).map (fun e =>
      (e.after.load osfLibraries "2026-06-01").map fun ledger => ledger.entries.length) = [.ok 1, .ok 1] ∧
    (eventLog osfLibraries [] [.register 1 rain, .register 1 snow]).map (fun e =>
      (e.after.load osfLibraries "2026-06-01").map fun ledger => ledger.entries.length) = [.ok 1, .ok 2] := by
  decide +kernel

theorem rain_resolved_on_both :
    List.Forall₂ (fun toml event => toml.call = event.call ∧ toml.reply = event.reply ∧
      ∀ today, toml.after.load osfLibraries today = event.after.load osfLibraries today)
      (tomlLog osfLibraries [.register 1 rain, .resolve (rained "2026-05-09T18:00:00Z")])
      (eventLog osfLibraries ["agent.step"] [.register 1 rain, .resolve (rained "2026-05-09T18:00:00Z")]) ∧
    KeepsOutcomes (TomlLedgerStore.port osfLibraries) osfLibraries
      (tomlLog osfLibraries [.register 1 rain, .resolve (rained "2026-05-09T18:00:00Z")]) ∧
    KeepsOutcomes (EventLedgerStore.port osfLibraries) osfLibraries
      (eventLog osfLibraries ["agent.step"] [.register 1 rain, .resolve (rained "2026-05-09T18:00:00Z")]) :=
  prediction_ledgers_agree osfLibraries ["agent.step"] _ (by decide +kernel)

end Piglor.Predictions
