/-
What both prediction ledgers keep: a book of predictions with different ids, each with at most one outcome.
Both adapters refine it as long as no generated id repeats, so they answer alike and load equal ledgers.
-/
import PiglorProofs.Predictions.Stores

namespace Piglor.Predictions

open Checked List LedgerOutcome
open Authority (textBytes)

/-! ## The book -/

/-- Valid predictions with different ids and the outcomes of some of them, in the order they came. -/
structure Book (lib : Libraries) where
  predictions : List LedgerPrediction
  outcomes : List LedgerOutcome
  distinct : (predictions.map LedgerPrediction.predictionId).Nodup
  once : (outcomes.map LedgerOutcome.predictionId).Nodup
  answers : ∀ o ∈ outcomes, o.predictionId ∈ predictions.map LedgerPrediction.predictionId
  valid : ∀ p ∈ predictions, validatePrediction lib p = .ok () ∧ isValidOsfLink lib p.osfLink = true
  validOutcomes : ∀ o ∈ outcomes, validateOutcome lib o = .ok ()

/-- A prediction with its outcome among the given ones. -/
def pairIn (outcomes : List LedgerOutcome) (p : LedgerPrediction) : Pair :=
  (p, outcomes.find? fun o => o.predictionId == p.predictionId)

variable {lib : Libraries}

namespace Book

variable (b : Book lib)

def ids : List String := b.predictions.map LedgerPrediction.predictionId

def resolved : List String := b.outcomes.map LedgerOutcome.predictionId

def pairs : List Pair := b.predictions.map (pairIn b.outcomes)

def empty : Book lib :=
  ⟨[], [], .nil, .nil, fun _ h => absurd h List.not_mem_nil, fun _ h => absurd h List.not_mem_nil,
    fun _ h => absurd h List.not_mem_nil⟩

/-- A prediction the book can take. -/
structure Admits (p : LedgerPrediction) : Prop where
  prediction : validatePrediction lib p = .ok ()
  link : isValidOsfLink lib p.osfLink = true
  fresh : p.predictionId ∉ b.ids

/-- An outcome the book can take. -/
structure Awaits (o : LedgerOutcome) : Prop where
  outcome : validateOutcome lib o = .ok ()
  found : o.predictionId ∈ b.ids
  unresolved : o.predictionId ∉ b.resolved

def add (p : LedgerPrediction) (h : b.Admits p) : Book lib where
  predictions := b.predictions ++ [p]
  outcomes := b.outcomes
  distinct := by
    rw [List.map_append]
    exact b.distinct.append (List.nodup_singleton _) (List.disjoint_singleton.mpr h.fresh)
  once := b.once
  answers o ho := by
    rw [List.map_append]
    exact List.mem_append_left _ (b.answers o ho)
  valid q hq := by
    rcases List.mem_append.mp hq with hq | hq
    · exact b.valid q hq
    · rw [List.mem_singleton.mp hq]
      exact ⟨h.prediction, h.link⟩
  validOutcomes := b.validOutcomes

def settle (o : LedgerOutcome) (h : b.Awaits o) : Book lib where
  predictions := b.predictions
  outcomes := b.outcomes ++ [o]
  distinct := b.distinct
  once := by
    rw [List.map_append]
    exact b.once.append (List.nodup_singleton _) (List.disjoint_singleton.mpr h.unresolved)
  answers o' ho' := by
    rcases List.mem_append.mp ho' with ho' | ho'
    · exact b.answers o' ho'
    · rw [List.mem_singleton.mp ho']
      exact h.found
  valid := b.valid
  validOutcomes o' ho' := by
    rcases List.mem_append.mp ho' with ho' | ho'
    · exact b.validOutcomes o' ho'
    · rw [List.mem_singleton.mp ho']
      exact h.outcome

theorem resolved_subset {k : String} (h : k ∈ b.resolved) : k ∈ b.ids := by
  obtain ⟨o, ho, rfl⟩ := mem_map.mp h
  exact b.answers o ho

end Book

section Pairs

variable {outcomes outcomes' : List LedgerOutcome} {p : LedgerPrediction} {o : LedgerOutcome}

theorem find?_eq_some_iff (honce : (outcomes.map predictionId).Nodup) {k : String} :
    outcomes.find? (fun o => o.predictionId == k) = some o ↔ o ∈ outcomes ∧ o.predictionId = k := by
  constructor
  · intro h
    exact ⟨mem_of_find?_eq_some h, by simpa using find?_some h⟩
  · rintro ⟨ho, rfl⟩
    have hsome : (outcomes.find? fun o' => o'.predictionId == o.predictionId).isSome := by
      rw [find?_isSome]
      exact ⟨o, ho, beq_self_eq_true _⟩
    obtain ⟨o', ho'⟩ := Option.isSome_iff_exists.mp hsome
    have hid : o'.predictionId = o.predictionId := by simpa using find?_some ho'
    rw [ho', inj_on_of_nodup_map honce (mem_of_find?_eq_some ho') ho hid]

theorem pairIn_perm (honce : (outcomes.map predictionId).Nodup) (hperm : outcomes.Perm outcomes') :
    pairIn outcomes = pairIn outcomes' := by
  have honce' := (hperm.map predictionId).nodup_iff.mp honce
  funext p
  refine congrArg (Prod.mk p) (Option.ext fun o => ?_)
  rw [find?_eq_some_iff honce, find?_eq_some_iff honce', hperm.mem_iff]

@[simp] theorem pairIn_fst : (pairIn outcomes p).1 = p := rfl

theorem pairIn_append_of_ne (h : p.predictionId ≠ o.predictionId) : pairIn (outcomes ++ [o]) p = pairIn outcomes p := by
  simp [pairIn, find?_append, h.symm]

theorem pairIn_append_of_eq (h : p.predictionId = o.predictionId)
    (hopen : o.predictionId ∉ outcomes.map predictionId) :
    pairIn (outcomes ++ [o]) p = (p, some o) := by
  have hnone : outcomes.find? (fun o' => o'.predictionId == p.predictionId) = none := by
    rw [find?_eq_none]
    intro o' ho' hid
    exact hopen (mem_map.mpr ⟨o', ho', (beq_iff_eq.mp hid).trans h⟩)
  rw [pairIn, find?_append, hnone]
  simp [h]

/-- Attaching the outcome of a prediction that has none. -/
theorem attach_pairIn (hopen : o.predictionId ∉ outcomes.map predictionId) :
    ∀ {predictions : List LedgerPrediction},
    (predictions.map LedgerPrediction.predictionId).Nodup → o.predictionId ∈ predictions.map LedgerPrediction.predictionId →
    attach (predictions.map (pairIn outcomes)) o = .ok (predictions.map (pairIn (outcomes ++ [o])))
  | [], _, hfound => absurd hfound not_mem_nil
  | p :: predictions, hdistinct, hfound => by
    obtain ⟨hp, hdistinct⟩ := nodup_cons.mp hdistinct
    rw [map_cons, map_cons, attach, pairIn_fst]
    by_cases hid : p.predictionId = o.predictionId
    · -- no later prediction has this id
      have hrest : predictions.map (pairIn outcomes) = predictions.map (pairIn (outcomes ++ [o])) := by
        refine map_congr_left fun q hq => (pairIn_append_of_ne fun hqo => hp ?_).symm
        exact mem_map.mpr ⟨q, hq, hqo.trans hid.symm⟩
      rw [if_pos hid, pairIn_append_of_eq hid hopen, hrest]
    · have hfound' : o.predictionId ∈ predictions.map LedgerPrediction.predictionId :=
        (mem_cons.mp hfound).resolve_left fun h => hid h.symm
      rw [if_neg hid, attach_pairIn hopen hdistinct hfound', pairIn_append_of_ne hid]
      rfl

/-- Attaching outcomes one after another. -/
theorem foldlM_attach {predictions : List LedgerPrediction}
    (hdistinct : (predictions.map LedgerPrediction.predictionId).Nodup) :
    ∀ {later done : List LedgerOutcome}, ((done ++ later).map predictionId).Nodup →
    (∀ o ∈ later, o.predictionId ∈ predictions.map LedgerPrediction.predictionId) →
    later.foldlM attach (predictions.map (pairIn done)) = .ok (predictions.map (pairIn (done ++ later)))
  | [], done, _, _ => by
    rw [append_nil]
    rfl
  | o :: later, done, honce, hfound => by
    have hopen : o.predictionId ∉ done.map predictionId := by
      rw [map_append, map_cons] at honce
      exact fun hmem => (nodup_append.mp honce).2.2 _ hmem _ mem_cons_self rfl
    rw [append_cons] at honce ⊢
    rw [foldlM_cons, attach_pairIn hopen hdistinct (hfound o mem_cons_self)]
    exact foldlM_attach hdistinct honce fun o' ho' => hfound o' (mem_cons_of_mem o ho')

end Pairs

namespace Book

variable (b : Book lib)

theorem sound : ∀ pair ∈ b.pairs, Sound lib pair := by
  intro pair hpair
  obtain ⟨p, hp, rfl⟩ := mem_map.mp hpair
  refine ⟨(b.valid p hp).1, ?_, (b.valid p hp).2⟩
  unfold validateResolution
  split
  · rfl
  next o ho =>
    obtain ⟨hmem, hid⟩ := (find?_eq_some_iff b.once).mp ho
    rw [b.validOutcomes o hmem, ok_bind, refuseIf_eq_ok, not_not]
    exact hid

theorem pairs_distinct : (b.pairs.map fun pair => pair.1.predictionId).Nodup := by
  rw [pairs, map_map]
  exact b.distinct

/-- A prediction the book takes has no outcome yet. -/
theorem pairs_add {p : LedgerPrediction} (h : b.Admits p) : (b.add p h).pairs = b.pairs ++ [(p, none)] := by
  have hnone : b.outcomes.find? (fun o => o.predictionId == p.predictionId) = none := by
    rw [find?_eq_none]
    intro o ho hid
    exact h.fresh (beq_iff_eq.mp hid ▸ b.answers o ho)
  rw [pairs, add, map_append, map_singleton, pairIn, hnone]
  rfl

variable {o : LedgerOutcome}

/-- A recorded outcome is the one every ledger of the book shows. -/
theorem resolution_of_mem (ho : o ∈ b.outcomes) {today : String} {ledger : Ledger}
    (h : fromPairs lib b.pairs today = .ok ledger) :
    (∃ entry ∈ ledger.entries, entry.prediction.predictionId = o.predictionId) ∧
      ∀ entry ∈ ledger.entries, entry.prediction.predictionId = o.predictionId → entry.resolution = some o := by
  constructor
  · obtain ⟨p, hp, hid⟩ := mem_map.mp (b.answers o ho)
    exact ⟨_, (mem_entries_of_sound b.sound h).mpr ⟨_, mem_map_of_mem hp, rfl⟩, hid⟩
  · intro entry hentry hid
    obtain ⟨pair, hpair, rfl⟩ := (mem_entries_of_sound b.sound h).mp hentry
    obtain ⟨p, -, rfl⟩ := mem_map.mp hpair
    exact (find?_eq_some_iff b.once).mpr ⟨ho, hid.symm⟩

/-! ## Calls on the book -/

variable (lib) in
/-- The id a call generates: an invalid prediction is refused before. -/
def drawn : LedgerCall → Option String
  | .register generated new => if new.validate lib = .ok () then some (lib.ulidText generated) else none
  | .resolve _ => none

theorem admits_of_validate {new : NewPrediction} {generated : Ulid} (hvalid : new.validate lib = .ok ())
    (hfresh : lib.ulidText generated ∉ b.ids) : b.Admits (new.intoPrediction (lib.ulidText generated)) := by
  obtain ⟨⟨⟩, hfields, hlink⟩ := bind_eq_ok.mp hvalid
  rw [refuseIf_eq_ok, not_not] at hlink
  refine ⟨?_, hlink, hfresh⟩
  simp [validatePrediction, NewPrediction.intoPrediction, refuseIf, lib.isUlid_ulidText, hfields]

open scoped Classical in
noncomputable def next : LedgerCall → Book lib
  | .register generated new =>
    if h : b.Admits (new.intoPrediction (lib.ulidText generated)) ∧ new.validate lib = .ok () then b.add _ h.1 else b
  | .resolve o => if h : b.Awaits o then b.settle o h else b

def checkResolve (o : LedgerOutcome) : Except LedgerError Unit := do
  validateOutcome lib o
  refuseIf (o.predictionId ∉ b.ids) (.unknownPrediction o.predictionId)
  refuseIf (o.predictionId ∈ b.resolved) (.alreadyResolved o.predictionId)

/-- What a call answers. -/
def reply : LedgerCall → LedgerReply
  | .register generated new => .registered ((new.validate lib).map fun _ => lib.ulidText generated)
  | .resolve o => .resolved (b.checkResolve o)

noncomputable def exec (b : Book lib) (call : LedgerCall) : Book lib × LedgerReply := (b.next call, b.reply call)

/-- The calls ahead generate different ids, none of them in the book. -/
structure Fresh (b : Book lib) (calls : List LedgerCall) : Prop where
  distinct : (calls.filterMap (drawn lib)).Nodup
  unused : ∀ k ∈ calls.filterMap (drawn lib), k ∉ b.ids

theorem next_register {generated : Ulid} {new : NewPrediction} (hvalid : new.validate lib = .ok ())
    (hfresh : lib.ulidText generated ∉ b.ids) :
    b.next (.register generated new) = b.add _ (b.admits_of_validate hvalid hfresh) :=
  dif_pos ⟨b.admits_of_validate hvalid hfresh, hvalid⟩

theorem next_resolve (h : b.Awaits o) : b.next (.resolve o) = b.settle o h := dif_pos h

/-- What a call can do to a book. -/
theorem next_cases (call : LedgerCall) :
    (∃ p h, drawn lib call = some p.predictionId ∧ b.next call = b.add p h) ∨ (∃ o h, b.next call = b.settle o h) ∨
      b.next call = b := by
  cases call with
  | register generated new =>
    by_cases h : b.Admits (new.intoPrediction (lib.ulidText generated)) ∧ new.validate lib = .ok ()
    · exact .inl ⟨_, h.1, if_pos h.2, dif_pos h⟩
    · exact .inr (.inr (dif_neg h))
  | resolve o =>
    by_cases h : b.Awaits o
    · exact .inr (.inl ⟨o, h, dif_pos h⟩)
    · exact .inr (.inr (dif_neg h))

/-- The outcomes of a book stay. -/
theorem outcomes_next (call : LedgerCall) : b.outcomes ⊆ (b.next call).outcomes := by
  rcases b.next_cases call with ⟨p, h, -, hnext⟩ | ⟨o, h, hnext⟩ | hnext
  · rw [hnext]
    exact Subset.refl _
  · rw [hnext]
    exact subset_append_left _ _
  · rw [hnext]
    exact Subset.refl _

theorem checkResolve_eq_ok : b.checkResolve o = .ok () ↔ b.Awaits o := by
  unfold checkResolve
  constructor
  · intro h
    obtain ⟨⟨⟩, hvalid, h⟩ := bind_eq_ok.mp h
    obtain ⟨⟨⟩, hfound, hopen⟩ := bind_eq_ok.mp h
    exact ⟨hvalid, not_not.mp (refuseIf_eq_ok.mp hfound), refuseIf_eq_ok.mp hopen⟩
  · rintro ⟨hvalid, hfound, hopen⟩
    rw [hvalid, ok_bind, refuseIf_eq_ok.mpr (not_not.mpr hfound), ok_bind, refuseIf_eq_ok.mpr hopen]

/-- A further outcome for a resolved prediction is refused, as malformed or because there is one. -/
theorem checkResolve_again (h : o.predictionId ∈ b.resolved) :
    b.checkResolve o = validateOutcome lib o >>= fun _ => .error (.alreadyResolved o.predictionId) := by
  simp [checkResolve, refuseIf, b.resolved_subset h, h]

theorem Fresh.next {b : Book lib} {call : LedgerCall} {rest : List LedgerCall} (h : b.Fresh (call :: rest)) :
    (b.next call).Fresh rest := by
  have hids : ∀ k ∈ (b.next call).ids, k ∈ b.ids ∨ drawn lib call = some k := by
    intro k hk
    rcases b.next_cases call with ⟨p, hadmits, hdrawn, hnext⟩ | ⟨o, hawaits, hnext⟩ | hnext
    · rw [hnext, ids, add, map_append, mem_append] at hk
      refine hk.imp_right fun hk => ?_
      rw [hdrawn, mem_singleton.mp hk]
    · rw [hnext] at hk
      exact .inl hk
    · rw [hnext] at hk
      exact .inl hk
  cases hdrawn : drawn lib call with
  | none =>
    have hcons : (call :: rest).filterMap (drawn lib) = rest.filterMap (drawn lib) := filterMap_cons_none hdrawn
    refine ⟨hcons ▸ h.distinct, fun k hk hmem => ?_⟩
    rcases hids k hmem with hmem | hmem
    · exact h.unused k (hcons ▸ hk) hmem
    · simp [hdrawn] at hmem
  | some id =>
    have hcons : (call :: rest).filterMap (drawn lib) = id :: rest.filterMap (drawn lib) := filterMap_cons_some hdrawn
    obtain ⟨hid, hdistinct⟩ := nodup_cons.mp (hcons ▸ h.distinct)
    refine ⟨hdistinct, fun k hk hmem => ?_⟩
    rcases hids k hmem with hmem | hmem
    · exact h.unused k (hcons ▸ mem_cons_of_mem id hk) hmem
    · rw [hdrawn, Option.some.injEq] at hmem
      exact hid (hmem ▸ hk)

end Book

/-! ## Refinement -/

/-- A store refines the book when it loads and looks up what the book says, and its writes are the book's. -/
structure Refines {σ : Type} (lib : Libraries) (port : LedgerStore σ) (Holds : σ → Book lib → Prop) : Prop where
  load : ∀ {s b}, Holds s b → ∀ today, port.load s today = fromPairs lib b.pairs today
  status : ∀ {s b}, Holds s b → ∀ k, port.findResolveStatus s k = ⟨decide (k ∈ b.ids), decide (k ∈ b.resolved)⟩
  refused : ∀ {s generated new e}, new.validate lib = .error e → port.register s generated new = .error e
  registered : ∀ {s b generated new}, Holds s b → (hvalid : new.validate lib = .ok ()) →
    (hfresh : lib.ulidText generated ∉ b.ids) →
    ∃ s', port.register s generated new = .ok (s', lib.ulidText generated) ∧
      Holds s' (b.add _ (b.admits_of_validate hvalid hfresh))
  persisted : ∀ {s b o}, Holds s b → (h : b.Awaits o) → Holds (port.persistResolve s o) (b.settle o h)

namespace Refines

variable {σ : Type} {port : LedgerStore σ} {Holds : σ → Book lib → Prop} {s : σ} {b : Book lib}
  (h : Refines lib port Holds)

include h

theorem exec_register (hs : Holds s b) {generated : Ulid} {new : NewPrediction}
    (hfresh : new.validate lib = .ok () → lib.ulidText generated ∉ b.ids) :
    (port.exec lib s (.register generated new)).2 = b.reply (.register generated new) ∧
      Holds (port.exec lib s (.register generated new)).1 (b.next (.register generated new)) := by
  unfold LedgerStore.exec
  rcases unit_ok_or_error (new.validate lib) with hvalid | ⟨e, hvalid⟩
  · obtain ⟨s', hregister, hs'⟩ := h.registered hs hvalid (hfresh hvalid)
    simp only [hregister, Book.reply, hvalid, b.next_register hvalid (hfresh hvalid)]
    exact ⟨rfl, hs'⟩
  · have hnext : b.next (.register generated new) = b := dif_neg fun hnot => by simp [hvalid] at hnot
    simp only [h.refused hvalid, Book.reply, hvalid, hnext]
    exact ⟨rfl, hs⟩

theorem resolve_eq (hs : Holds s b) (o : LedgerOutcome) :
    port.resolve lib s o = b.checkResolve o >>= fun _ => .ok (port.persistResolve s o) := by
  simp [LedgerStore.resolve, Book.checkResolve, h.status hs, refuseIf]

theorem exec_resolve (hs : Holds s b) (o : LedgerOutcome) :
    (port.exec lib s (.resolve o)).2 = b.reply (.resolve o) ∧
      Holds (port.exec lib s (.resolve o)).1 (b.next (.resolve o)) := by
  unfold LedgerStore.exec Book.reply
  rcases unit_ok_or_error (b.checkResolve o) with hok | ⟨e, herror⟩
  · have hawaits := b.checkResolve_eq_ok.mp hok
    simp only [h.resolve_eq hs, hok, ok_bind, b.next_resolve hawaits]
    exact ⟨trivial, h.persisted hs hawaits⟩
  · have hnext : b.next (.resolve o) = b := dif_neg fun hawaits => by
      rw [b.checkResolve_eq_ok.mpr hawaits] at herror
      cases herror
    simp only [h.resolve_eq hs, herror, error_bind, hnext]
    exact ⟨trivial, hs⟩

theorem exec (hs : Holds s b) {call : LedgerCall} {rest : List LedgerCall}
    (hfresh : b.Fresh (call :: rest)) :
    (port.exec lib s call).2 = (b.exec call).2 ∧ Holds (port.exec lib s call).1 (b.exec call).1 ∧
    (b.exec call).1.Fresh rest := by
  have hstep : (port.exec lib s call).2 = b.reply call ∧ Holds (port.exec lib s call).1 (b.next call) := by
    cases call with
    | register generated new =>
      refine h.exec_register hs fun hvalid => hfresh.unused _ (mem_filterMap.mpr ⟨_, mem_cons_self, ?_⟩)
      exact if_pos hvalid
    | resolve o => exact h.exec_resolve hs o
  exact ⟨hstep.1, hstep.2, hfresh.next⟩

end Refines

end Piglor.Predictions
