/-
Committed batches (pos-core store.rs, pos-store lib.rs): the checks every import runs before a
store applies Events that already have identities. An accepted batch continues the Timeline's
local sequence, repeats no EventId and takes none in use, carries the payload hashes of its
payloads, and leaves with the origin of the Timeline that owns it.
-/
import PiglorProofs.Store.State
import PiglorProofs.Lib.Numbered

namespace Piglor

open Checked MemoryStore List

/-- The owner/role/epoch binding of a committed Event's signature. -/
def validateEventSignature (event : Event) : CoreResult Unit :=
  match event.signature, event.signatureIdentity with
  | none, none => .ok ()
  | some _, none => .error (.storage "signed event must carry an owner/role/epoch identity")
  | some _, some identity =>
    if identity.epoch = 0 ∨ identity.role ≠ .timelineIntegritySigning then
      .error (.storage "signed event must carry a TimelineIntegritySigning owner/role/epoch identity")
    else .ok ()
  | none, some _ => .error (.storage "signed event must carry a signature for its owner/role/epoch identity")

/-- The checks of one Event of the sorted batch. -/
def validateCommittedEvent (idIsTaken : EventId → Bool) (hasher : Hasher) (expected : Seq) (seen : List EventId)
    (event : Event) : CoreResult Unit := do
  validateEventSignature event
  if event.seq = 0 then .error (.storage "committed event seq must be >= 1")
  else if event.seq ≠ expected then
    .error (.storage ("committed event seq " ++ toString event.seq ++ " is not contiguous (expected " ++
      toString expected ++ ")"))
  else if event.id ∈ seen ∨ idIsTaken event.id then
    .error (.storage ("duplicate EventId on committed import: " ++ event.id.display))
  else if hasher.hashPayload event.payload ≠ event.payloadHash then
    .error (.storage "payload_hash mismatch on committed import")
  else .ok ()

def validateCommittedLoop (idIsTaken : EventId → Bool) (hasher : Hasher) :
    Seq → List EventId → List Event → CoreResult Unit
  | _, _, [] => .ok ()
  | expected, seen, event :: rest => do
    validateCommittedEvent idIsTaken hasher expected seen event
    validateCommittedLoop idIsTaken hasher (expected + 1) (event.id :: seen) rest

/-- Sort the batch by sequence (stably) and check every Event. -/
def validateCommittedBatch (head : Seq) (events : List Event) (idIsTaken : EventId → Bool) (hasher : Hasher) :
    CoreResult (List Event) := do
  let ordered := events.insertionSort fun a b => a.seq ≤ b.seq
  validateCommittedLoop idIsTaken hasher (head + 1) [] ordered
  .ok ordered

/-- A supplied origin must be the owning Timeline's; an absent one becomes it. -/
def finalizeCommittedOrigin (timeline : TimelineId) (inheritedPrefix : Nat) (event : Event) :
    CoreResult Event := do
  let logicalSeq ← checkedLogicalHead inheritedPrefix event.seq
  let expected : EventOriginV1 := ⟨timeline, logicalSeq⟩
  if event.origin.any (fun origin => decide (origin ≠ expected)) then
    .error (.storage "committed Event origin does not match its owning Timeline")
  else .ok { event with origin := some expected }

def finalizeCommittedOrigins (timeline : TimelineId) (inheritedPrefix : Nat) :
    List Event → CoreResult (List Event)
  | [] => .ok []
  | event :: rest => do
    let event ← finalizeCommittedOrigin timeline inheritedPrefix event
    let rest ← finalizeCommittedOrigins timeline inheritedPrefix rest
    .ok (event :: rest)

/-- The Event's signature fields agree and its payload hash is its payload's. -/
structure Event.Sealed (hasher : Hasher) (e : Event) : Prop where
  signature : validateEventSignature e = .ok ()
  payloadHash : hasher.hashPayload e.payload = e.payloadHash

/-- What an Event must have to be imported, apart from its place in the batch. -/
structure Committable (idIsTaken : EventId → Bool) (hasher : Hasher) (e : Event) : Prop extends e.Sealed hasher where
  unused : idIsTaken e.id = false

variable {idIsTaken : EventId → Bool} {hasher : Hasher} {timeline : TimelineId} {inheritedPrefix : Nat} {e : Event}

theorem validateCommittedEvent_eq_ok {k : Nat} {seen : List EventId} : validateCommittedEvent idIsTaken hasher
    (k + 1) seen e = .ok () ↔
      e.seq = k + 1 ∧ e.id ∉ seen ∧ Committable idIsTaken hasher e := by
  unfold validateCommittedEvent
  constructor
  · intro h
    obtain ⟨⟨⟩, hsignature, h⟩ := bind_eq_ok.mp h
    split at h
    · cases h
    split at h
    · cases h
    split at h
    · cases h
    split_ifs at h
    rename_i hseq hid hpayload
    rw [not_or, Bool.not_eq_true] at hid
    exact ⟨not_not.mp hseq, hid.1, ⟨hsignature, not_not.mp hpayload⟩, hid.2⟩
  · rintro ⟨hseq, hseen, ⟨hsignature, hpayload⟩, hunused⟩
    rw [hsignature, ok_bind, if_neg (hseq ▸ Nat.succ_ne_zero k), if_neg (not_not_intro hseq), if_neg (by simp [hseen, hunused]),
      if_neg (not_not_intro hpayload)]

/-- The sorted batch passes when it continues the sequence and its ids are its own. -/
theorem validateCommittedLoop_eq_ok : ∀ {k : Nat} {seen : List EventId} {es : List Event},
    validateCommittedLoop idIsTaken hasher (k + 1) seen es = .ok () ↔
      NumberedFrom Event.seq k es ∧ (es.map Event.id).Nodup ∧ (∀ e ∈ es, e.id ∉ seen) ∧
        ∀ e ∈ es, Committable idIsTaken hasher e
  | _, _, [] => by simp [validateCommittedLoop, NumberedFrom]
  | k, seen, e :: es => by
    have ih : validateCommittedLoop idIsTaken hasher (k + 1 + 1) (e.id :: seen) es = .ok () ↔ _ :=
      validateCommittedLoop_eq_ok
    constructor
    · intro h
      obtain ⟨⟨⟩, he, hrest⟩ := bind_eq_ok.mp h
      obtain ⟨hseq, hseen, hvalid⟩ := validateCommittedEvent_eq_ok.mp he
      obtain ⟨hnum, hnodup, hother, hall⟩ := ih.mp hrest
      refine ⟨⟨hseq, hnum⟩, nodup_cons.mpr ⟨?_, hnodup⟩, ?_, forall_mem_cons.mpr ⟨hvalid, hall⟩⟩
      · intro hmem
        obtain ⟨f, hf, hfe⟩ := mem_map.mp hmem
        exact hother f hf (hfe ▸ mem_cons_self)
      · exact forall_mem_cons.mpr ⟨hseen, fun f hf hmem => hother f hf (mem_cons_of_mem _ hmem)⟩
    · rintro ⟨⟨hseq, hnum⟩, hnodup, hseen, hall⟩
      rw [forall_mem_cons] at hseen hall
      rw [map_cons, nodup_cons] at hnodup
      refine bind_eq_ok.mpr ⟨⟨⟩, validateCommittedEvent_eq_ok.mpr ⟨hseq, hseen.1, hall.1⟩, ih.mpr ⟨hnum, hnodup.2, ?_, hall.2⟩⟩
      intro f hf hmem
      rcases mem_cons.mp hmem with hfe | hmem
      · exact hnodup.1 (hfe ▸ mem_map_of_mem hf)
      · exact hseen.2 f hf hmem

/-- A batch passes when some order of it continues the sequence; that order is what the check returns. -/
theorem validateCommittedBatch_eq_ok {head : Seq} {events ordered : List Event} :
    validateCommittedBatch head events idIsTaken hasher = .ok ordered ↔
      ordered.Perm events ∧ NumberedFrom Event.seq head ordered ∧ (events.map Event.id).Nodup ∧
        ∀ e ∈ events, Committable idIsTaken hasher e := by
  have hsort := perm_insertionSort (fun a b : Event => a.seq ≤ b.seq) events
  constructor
  · intro h
    obtain ⟨⟨⟩, hloop, h⟩ := bind_eq_ok.mp h
    cases h
    obtain ⟨hnum, hnodup, -, hall⟩ := validateCommittedLoop_eq_ok.mp hloop
    exact ⟨hsort, hnum, (hsort.map Event.id).nodup_iff.mp hnodup, fun e he => hall e (hsort.mem_iff.mpr he)⟩
  · rintro ⟨hperm, hnum, hnodup, hall⟩
    have hordered := hnum.insertionSort_eq hperm.symm
    refine bind_eq_ok.mpr ⟨⟨⟩, validateCommittedLoop_eq_ok.mpr ⟨?_, ?_, by simp, ?_⟩, by rw [hordered]⟩
    · rw [hordered]
      exact hnum
    · exact (hsort.map Event.id).nodup_iff.mpr hnodup
    · exact fun e he => hall e (hsort.mem_iff.mp he)

/-- The Event with the origin its owning Timeline gives it. -/
def Event.ownedBy (timeline : TimelineId) (inheritedPrefix : Nat) (e : Event) : Event :=
  { e with origin := some ⟨timeline, inheritedPrefix + e.seq⟩ }

/-- The Event has room for its logical sequence, and no origin but its owning Timeline's. -/
def Event.OwnableBy (timeline : TimelineId) (inheritedPrefix : Nat) (e : Event) : Prop :=
  inheritedPrefix + e.seq ≤ u64Max ∧ ∀ origin ∈ e.origin, origin = ⟨timeline, inheritedPrefix + e.seq⟩

theorem finalizeCommittedOrigin_eq_ok {f : Event} : finalizeCommittedOrigin timeline inheritedPrefix e = .ok f ↔
      f = e.ownedBy timeline inheritedPrefix ∧ e.OwnableBy timeline inheritedPrefix := by
  constructor
  · intro h
    obtain ⟨n, hn, h⟩ := bind_eq_ok.mp h
    obtain ⟨hfit, rfl⟩ := checkedLogicalHead_eq_ok.mp hn
    dsimp only at h
    split_ifs at h
    rename_i horigin
    cases h
    refine ⟨rfl, hfit, ?_⟩
    intro origin horig
    by_contra hne
    exact horigin (Option.any_eq_true _ _ |>.mpr ⟨origin, horig, by simpa using hne⟩)
  · rintro ⟨rfl, hfit, horigin⟩
    refine bind_eq_ok.mpr ⟨_, checkedLogicalHead_eq_ok.mpr ⟨hfit, rfl⟩, ?_⟩
    rw [if_neg]
    · rfl
    · intro hany
      obtain ⟨origin, horig, hne⟩ := (Option.any_eq_true _ _).mp hany
      exact of_decide_eq_true hne (horigin origin horig)

/-- Finalizing changes only the origins, which become the Timeline's own. -/
theorem finalizeCommittedOrigins_eq_ok :
    ∀ {es fs : List Event}, finalizeCommittedOrigins timeline inheritedPrefix es = .ok fs ↔
    fs = es.map (Event.ownedBy timeline inheritedPrefix) ∧ ∀ e ∈ es, e.OwnableBy timeline inheritedPrefix
  | [], fs => by simp [finalizeCommittedOrigins, eq_comm]
  | e :: es, fs => by
    constructor
    · intro h
      obtain ⟨e', he, h⟩ := bind_eq_ok.mp h
      obtain ⟨rest, hrest, h⟩ := bind_eq_ok.mp h
      cases h
      obtain ⟨rfl, hown⟩ := finalizeCommittedOrigin_eq_ok.mp he
      obtain ⟨rfl, hall⟩ := finalizeCommittedOrigins_eq_ok.mp hrest
      exact ⟨rfl, forall_mem_cons.mpr ⟨hown, hall⟩⟩
    · rintro ⟨rfl, hall⟩
      rw [forall_mem_cons] at hall
      exact bind_eq_ok.mpr ⟨_, finalizeCommittedOrigin_eq_ok.mpr ⟨rfl, hall.1⟩,
        bind_eq_ok.mpr ⟨_, finalizeCommittedOrigins_eq_ok.mpr ⟨rfl, hall.2⟩, rfl⟩⟩

end Piglor
