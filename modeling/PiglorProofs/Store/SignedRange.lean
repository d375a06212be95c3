/-
Signed ranges against a trusted store (timeline_range.rs). A verifier is given Events that claim to
be a range of a Timeline, public keys it trusts, and possibly a head: it checks every signature,
that the Events are numbered without gaps, that each names its owner in the trusted lineage, and
that the store holds exactly these Events. The claim it then makes is exact: it is not `Rejected`
for the store's own records of the range and for nothing else.
-/
import PiglorProofs.Store.Lineage

namespace Piglor

open CowForest Checked List MemoryStore
open KeyRegistry (KeyRegistryStateV1)

inductive TimelineEventVerificationV1 where
  | verified
  | invalid
  | missingRequiredContext
deriving DecidableEq

/-- What the signed Events prove about the requested range. -/
inductive TimelineSignedRangeClaimV1 where
  | rejected
  | contiguousOnly
  | completeBounded
  | completeThroughHead
deriving DecidableEq

structure TimelineSignedRangeReportV1 where
  perEvent : List TimelineEventVerificationV1
  rangeClaim : TimelineSignedRangeClaimV1
deriving DecidableEq

/-- The cryptography of the verifier: which keys parse, and the verification of one Event under the
registry and the trust anchor of its signer. -/
structure RangeVerifier where
  isVerifyingKey : PublicKey → Bool
  verifyCommittedTimelineEventV1 : Event → Option KeyRegistryStateV1 → Option (KeyIdentityV1 × PublicKey) →
    TimelineEventVerificationV1

/-! ## Model -/

/-- Number the Events from `expected` on, without a repeated id; the counter is not advanced past the
last Event. -/
def contiguousFrom : Nat → Finset EventId → List Event → Bool
  | _, _, [] => true
  | expected, ids, [event] => decide (event.seq = expected) && decide (event.id ∉ ids)
  | expected, ids, event :: rest =>
    decide (event.seq = expected) && decide (event.id ∉ ids) &&
      match checkedAdd expected 1 with
      | some next => contiguousFrom next (insert event.id ids) rest
      | none => false

def recordsAreContiguous (events : List Event) (range : SeqRange) : Bool :=
  match events.getLast? with
  | none => false
  | some last => range.hi.all (fun hi => hi == last.seq) && contiguousFrom (max range.lo 1) ∅ events

namespace RangeVerifier

variable (verifier : RangeVerifier)

/-- One trust anchor: a Timeline signing identity with a key that parses, not seen before. -/
def collectAnchor (anchors : Table KeyIdentityV1 PublicKey) (anchor : KeyIdentityV1 × PublicKey) :
    CoreResult (Table KeyIdentityV1 PublicKey) :=
  if anchor.1.role ≠ .timelineIntegritySigning ∨ anchor.1.epoch = 0 ∨ verifier.isVerifyingKey anchor.2 = false ∨
      (anchors.lookup anchor.1).isSome then .error .signatureVerificationFailed
  else .ok (anchors.insert anchor.1 anchor.2)

/-- The claim about Events that are the store's own records. -/
def rangeClaim (events : List Event) (range : SeqRange) (trustedHead : Seq) (logicalHead : Nat) :
    TimelineSignedRangeClaimV1 :=
  if logicalHead ≠ trustedHead ∨ events.getLast?.any (fun e => decide (e.seq > trustedHead)) then .rejected
  else if events.getLast?.any (fun e => decide (e.seq = trustedHead)) then .completeThroughHead
  else if range.hi.isSome then .completeBounded
  else .rejected

def verifySignedTimelineRangeV1 (s : MemoryStore) (timeline : TimelineId) (range : SeqRange) (events : List Event)
    (trustAnchors : List (KeyIdentityV1 × PublicKey)) (trustedHead : Option Seq) :
    CoreResult TimelineSignedRangeReportV1 := do
  let anchors ← trustAnchors.foldlM verifier.collectAnchor ∅
  let perEvent := events.map fun event =>
    verifier.verifyCommittedTimelineEventV1 event s.keyRegistry
      (event.signatureIdentity.bind fun identity => (anchors.lookup identity).map fun key => (identity, key))
  if !perEvent.all (fun result => decide (result = .verified)) || !recordsAreContiguous events range then
    .ok ⟨perEvent, .rejected⟩
  else do
    let some lineage ← s.trustedLineage timeline | .ok ⟨perEvent, .rejected⟩
    if !events.all (fun event => originMatchesLineage event lineage) then .ok ⟨perEvent, .rejected⟩
    else do
      let stored ← s.read timeline range
      if stored ≠ events then .ok ⟨perEvent, .rejected⟩
      else match trustedHead with
        | none => .ok ⟨perEvent, .contiguousOnly⟩
        | some head => do
          let logicalHead ← s.logicalHead timeline
          .ok ⟨perEvent, rangeClaim events range head logicalHead⟩

/-! ## Trust anchors -/

/-- Trust anchors a verifier takes: Timeline signing identities, each once, with keys that parse. -/
structure ValidAnchors (anchors : List (KeyIdentityV1 × PublicKey)) : Prop where
  signing : ∀ a ∈ anchors, a.1.role = .timelineIntegritySigning ∧ a.1.epoch ≠ 0 ∧ verifier.isVerifyingKey a.2 = true
  distinct : (anchors.map Prod.fst).Nodup

/-- The trusted key of an Event's signer. -/
def anchorOf (anchors : List (KeyIdentityV1 × PublicKey)) (event : Event) : Option (KeyIdentityV1 × PublicKey) :=
  event.signatureIdentity.bind fun identity => anchors.find? fun a => decide (a.1 = identity)

/-- The Event passes its own verification. -/
def Verifies (s : MemoryStore) (anchors : List (KeyIdentityV1 × PublicKey)) (event : Event) : Prop :=
  verifier.verifyCommittedTimelineEventV1 event s.keyRegistry (anchorOf anchors event) = .verified

instance (s : MemoryStore) (anchors : List (KeyIdentityV1 × PublicKey)) (event : Event) :
    Decidable (verifier.Verifies s anchors event) := inferInstanceAs (Decidable (_ = _))

variable {verifier} {anchors : List (KeyIdentityV1 × PublicKey)}

theorem ValidAnchors.of_cons {a : KeyIdentityV1 × PublicKey}
    (h : verifier.ValidAnchors (a :: anchors)) : verifier.ValidAnchors anchors :=
  ⟨fun b hb => h.signing b (mem_cons_of_mem _ hb), (nodup_cons.mp h.distinct).2⟩

theorem ValidAnchors.collect : ∀ {anchors : List (KeyIdentityV1 × PublicKey)} (table : Table KeyIdentityV1 PublicKey),
    verifier.ValidAnchors anchors → (∀ a ∈ anchors, table.lookup a.1 = none) →
    ∃ table', anchors.foldlM verifier.collectAnchor table = .ok table' ∧
      ∀ identity, table'.lookup identity = ((anchors.find? fun a => decide (a.1 = identity)).map Prod.snd).or
        (table.lookup identity)
  | [], table, _, _ => ⟨table, rfl, fun _ => rfl⟩
  | a :: anchors, table, h, hnew => by
    obtain ⟨hrole, hepoch, hkey⟩ := h.signing a mem_cons_self
    have hstep : verifier.collectAnchor table a = .ok (table.insert a.1 a.2) := by
      rw [collectAnchor, if_neg]
      simp [hrole, hepoch, hkey, hnew a mem_cons_self]
    have hfresh : ∀ b ∈ anchors, (table.insert a.1 a.2).lookup b.1 = none := by
      intro b hb
      have hne : b.1 ≠ a.1 := fun heq =>
        (nodup_cons.mp h.distinct).1 (heq ▸ mem_map_of_mem (f := Prod.fst) hb)
      rw [Finmap.lookup_insert_of_ne _ hne, hnew b (mem_cons_of_mem _ hb)]
    obtain ⟨table', htable', hlookup⟩ := ValidAnchors.collect _ h.of_cons hfresh
    refine ⟨table', by rw [foldlM_cons, hstep, ok_bind, htable'], fun identity => ?_⟩
    rw [hlookup identity]
    by_cases hid : a.1 = identity
    · -- no later anchor has this identity
      have hnone : anchors.find? (fun b => decide (b.1 = identity)) = none := by
        rw [find?_eq_none]
        intro b hb
        simp only [decide_eq_true_eq]
        intro heq
        exact (nodup_cons.mp h.distinct).1 (hid ▸ heq ▸ mem_map_of_mem (f := Prod.fst) hb)
      rw [hnone, find?_cons_of_pos (by simpa using hid), ← hid, Finmap.lookup_insert]
      rfl
    · rw [find?_cons_of_neg (by simpa using hid), Finmap.lookup_insert_of_ne _ (Ne.symm hid)]

theorem ValidAnchors.lookup (h : verifier.ValidAnchors anchors) :
    ∃ table, anchors.foldlM verifier.collectAnchor ∅ = .ok table ∧ ∀ event : Event,
      (event.signatureIdentity.bind fun identity => (table.lookup identity).map fun key => (identity, key)) =
        anchorOf anchors event := by
  obtain ⟨table, htable, hlookup⟩ := h.collect ∅ fun _ _ => rfl
  refine ⟨table, htable, fun event => ?_⟩
  congr 1
  funext identity
  rw [hlookup identity]
  rcases hfind : anchors.find? (fun a => decide (a.1 = identity)) with _ | a
  · rw [hfind]
    rfl
  · have hid : a.1 = identity := by simpa using find?_some hfind
    subst hid
    rw [hfind]
    rfl

end RangeVerifier

/-! ## Contiguous records -/

theorem contiguousFrom_of_numbered : ∀ {k : Nat} {events : List Event} {ids : Finset EventId},
    NumberedFrom Event.seq k events → (events.map Event.id).Nodup → (∀ e ∈ events, e.id ∉ ids) →
    k + events.length ≤ u64Max → contiguousFrom (k + 1) ids events = true
  | _, [], _, _, _, _, _ => rfl
  | k, [e], ids, hnum, _, hnew, _ => by
    simp [contiguousFrom, hnum.1, hnew e mem_cons_self]
  | k, e :: f :: events, ids, hnum, hnodup, hnew, hfits => by
    have hnext : checkedAdd (k + 1) 1 = some (k + 1 + 1) := by
      rw [checkedAdd, if_pos]
      simp only [length_cons] at hfits
      omega
    have hrest : contiguousFrom (k + 1 + 1) (insert e.id ids) (f :: events) = true := by
      refine contiguousFrom_of_numbered hnum.2 (nodup_cons.mp hnodup).2 ?_ (by simp only [length_cons] at hfits ⊢; omega)
      intro g hg
      rw [Finset.mem_insert, not_or]
      exact ⟨fun heq => (nodup_cons.mp hnodup).1 (heq ▸ mem_map_of_mem hg), hnew g (mem_cons_of_mem _ hg)⟩
    rw [contiguousFrom, hnext]
    simp [hnum.1, hnew e mem_cons_self, hrest]
    intro h
    cases h

/-- The last Event stands at the end of a bounded range. -/
def EndsAt (events : List Event) (range : SeqRange) : Prop :=
  ∀ last hi, events.getLast? = some last → range.hi = some hi → last.seq = hi

theorem recordsAreContiguous_ends {events : List Event} {range : SeqRange} (h : recordsAreContiguous events range = true) :
    events ≠ [] ∧ EndsAt events range := by
  unfold recordsAreContiguous at h
  split at h
  · cases h
  rename_i last hlast
  refine ⟨(by rintro rfl; cases hlast), fun last' hi hlast' hhi => ?_⟩
  rw [hlast] at hlast'
  cases hlast'
  rw [hhi, Option.all_some, Bool.and_eq_true, beq_iff_eq] at h
  exact h.1.symm

/-- A selected range of a history is numbered from the first sequence the verifier expects. -/
theorem numbered_range {hist : List Event} {range : SeqRange}
    (hne : (logicalEvents hist).filter (fun e => range.contains e.seq) ≠ []) : ∃ k : Nat, max range.lo 1 = k + 1 ∧
    NumberedFrom Event.seq k ((logicalEvents hist).filter fun e => range.contains e.seq) := by
  have hnum : NumberedFrom Event.seq 0 (logicalEvents hist) := numbered_logicalEventsFrom 0 hist
  obtain ⟨k, hk⟩ : ∃ k : Nat, max range.lo 1 = k + 1 := Nat.exists_eq_succ_of_ne_zero (by simp)
  have hcontains : ∀ e ∈ logicalEvents hist, range.contains e.seq =
    (decide (k < e.seq) && range.hi.all fun hi => decide (e.seq ≤ hi)) := by
    intro e he
    have hpos : 1 ≤ e.seq := (hnum.bounds he).1
    have hlo : range.lo ≤ e.seq ↔ k < e.seq := by
      rw [Nat.lt_iff_add_one_le, ← hk]
      exact ⟨fun h => Nat.max_le.mpr ⟨h, hpos⟩, fun h => (Nat.max_le.mp h).1⟩
    rw [SeqRange.contains, decide_eq_decide.mpr hlo]
  obtain ⟨n, hn⟩ : ∃ n, (logicalEvents hist).filter (fun e => range.contains e.seq) = ((logicalEvents hist).take n).drop k := by
    rw [filter_congr hcontains]
    rcases range.hi with _ | hi
    · refine ⟨(logicalEvents hist).length, ?_⟩
      rw [take_length, ← hnum.filter_ge k]
      simp
    · exact ⟨hi, hnum.filter_range⟩
  refine ⟨k, hk, ?_⟩
  rw [hn] at hne ⊢
  have hlt : k < ((logicalEvents hist).take n).length := by
    by_contra hge
    exact hne (drop_eq_nil_of_le (Nat.not_lt.mp hge))
  have hdrop := (hnum.take n).drop (Nat.le_of_lt hlt)
  rwa [Nat.zero_add] at hdrop

namespace MemoryStore

variable {s : MemoryStore} {F : CowForest TimelineId Event} {t : TimelineId} {range : SeqRange}
  {events hist : List Event}

/-- The store's own records of a range pass the check. -/
theorem Refines.recordsAreContiguous (hr : s.Refines F) (hids : s.UniqueIds) (hh : F.History t hist)
    (hevents : events = (logicalEvents hist).filter fun e => range.contains e.seq) (hne : events ≠ [])
    (hends : EndsAt events range) : recordsAreContiguous events range = true := by
  obtain ⟨last, hlast⟩ := Option.ne_none_iff_exists'.mp fun h => hne (getLast?_eq_none_iff.mp h)
  obtain ⟨k, hk, hnum⟩ := numbered_range (hevents ▸ hne)
  rw [← hevents] at hnum
  have hnodup : (events.map Event.id).Nodup := by
    have hall := hids.history hr hh
    rw [← map_logicalEventsFrom (f := Event.id) (fun _ _ => rfl) 0 hist] at hall
    rw [hevents]
    exact hall.sublist (filter_sublist.map _)
  have hsub : ∀ e ∈ events, e ∈ logicalEvents hist := by
    rw [hevents]
    exact fun e he => mem_of_mem_filter he
  have hfits : k + events.length ≤ u64Max := by
    -- the last Event is one of the history, which fits
    obtain ⟨st, hst⟩ := history_lookup hr hh
    have hlen := (hr.length_history hst hh).2
    have hpos : 0 < events.length := length_pos_of_ne_nil hne
    have hseq := hnum.apply (events.length - 1) (by omega)
    have hmem := hsub _ (getElem_mem (by omega : events.length - 1 < events.length))
    have hbound := ((numbered_logicalEventsFrom 0 hist).bounds hmem).2
    rw [length_logicalEventsFrom, hseq] at hbound
    omega
  rw [Piglor.recordsAreContiguous, hlast]
  simp only [hk, contiguousFrom_of_numbered hnum hnodup (fun _ _ => Finset.notMem_empty _) hfits, Bool.and_true]
  rcases hhi : range.hi with _ | hi
  · rfl
  · rw [Option.all_some, beq_iff_eq]
    exact (hends last hi hlast hhi).symm

/-- A readable Timeline has a logical head that no Event of a range exceeds, and answers every range. -/
theorem Refines.read_range (hr : s.Refines F) {all : List Event} (hread : s.read t .all = .ok all) :
    F.Sound t ∧ ∃ hist, F.History t hist ∧ s.logicalHead t = .ok hist.length ∧
      ∀ range, s.read t range = .ok ((logicalEvents hist).filter fun e => range.contains e.seq) := by
  obtain ⟨hadmits, hvisible, hlineage, hsound, hist, hh, -⟩ := hr.read_all hread
  refine ⟨hsound, hist, hh, logicalHead_eq_ok.mpr ⟨hadmits, hvisible, hr.head hsound hh⟩, fun range => ?_⟩
  exact read_eq_ok.mpr ⟨hadmits, hvisible, hlineage, hr.collect hsound hh range⟩

theorem Refines.unmarked_of_trusted (hr : s.Refines F) {L : List (Segment TimelineId Event)} (hL : Spine F.log t L)
    {lineage : List TimelineMeta} (h : s.trustedLineage t = .ok (some lineage)) : s.Unmarked t := by
  intro c hc
  obtain ⟨x, hx, rfl⟩ := mem_map.mp (hc.mem (hr.spine hL))
  exact (trustedLineageLoop_some (hr.spine hL) _ _ _ _ h).2 x hx

end MemoryStore

/-! ## The verifier -/

namespace RangeVerifier

variable {verifier : RangeVerifier} {s : MemoryStore} {t : TimelineId} {range : SeqRange} {events : List Event}
  {anchors : List (KeyIdentityV1 × PublicKey)} {trustedHead : Option Seq}

/-- The Events are the store's own verified records of the range, up to its end, and the head is the store's. -/
structure Accepts (verifier : RangeVerifier) (s : MemoryStore) (t : TimelineId) (range : SeqRange) (events : List Event)
    (anchors : List (KeyIdentityV1 × PublicKey)) (trustedHead : Option Seq) : Prop where
  nonempty : events ≠ []
  verified : ∀ e ∈ events, verifier.Verifies s anchors e
  stored : s.read t range = .ok events
  ends : EndsAt events range
  head : ∀ head, trustedHead = some head → s.logicalHead t = .ok head ∧
    (range.hi.isSome ∨ ∃ last, events.getLast? = some last ∧ last.seq = head)

/-- What the verifier claims of the store's own records. -/
def claimOf (events : List Event) (range : SeqRange) (logicalHead : Nat) : Option Seq → TimelineSignedRangeClaimV1
  | none => .contiguousOnly
  | some head => rangeClaim events range head logicalHead

/-- The checks before the head. -/
structure Checks (verifier : RangeVerifier) (s : MemoryStore) (t : TimelineId) (range : SeqRange) (events : List Event)
    (anchors : List (KeyIdentityV1 × PublicKey)) : Prop where
  verified : ∀ e ∈ events, verifier.Verifies s anchors e
  contiguous : recordsAreContiguous events range = true
  stored : s.read t range = .ok events
  lineage : ∃ lineage, s.trustedLineage t = .ok (some lineage) ∧ ∀ e ∈ events, originMatchesLineage e lineage = true

theorem all_verified {table : Table KeyIdentityV1 PublicKey} (hanchor : ∀ event : Event,
      (event.signatureIdentity.bind fun identity => (table.lookup identity).map fun key => (identity, key)) =
        anchorOf anchors event) :
    (events.map fun event => verifier.verifyCommittedTimelineEventV1 event s.keyRegistry
      (event.signatureIdentity.bind fun identity => (table.lookup identity).map fun key => (identity, key))).all
        (fun result => decide (result = .verified)) = true ↔ ∀ e ∈ events, verifier.Verifies s anchors e := by
  simp [hanchor, Verifies]

variable {n : Nat}

theorem Checks.report (h : verifier.Checks s t range events anchors) (hanchors : verifier.ValidAnchors anchors)
    (hhead : s.logicalHead t = .ok n) (trustedHead : Option Seq) : ∃ report,
      verifier.verifySignedTimelineRangeV1 s t range events anchors trustedHead = .ok report ∧
      report.rangeClaim = claimOf events range n trustedHead := by
  obtain ⟨table, htable, hanchor⟩ := hanchors.lookup
  obtain ⟨lineage, hlineage, hmatch⟩ := h.lineage
  have hmatches : events.all (fun event => originMatchesLineage event lineage) = true := all_eq_true.mpr hmatch
  rw [verifySignedTimelineRangeV1, htable, ok_bind]
  simp only [(all_verified hanchor).mpr h.verified, h.contiguous, hlineage, hmatches, h.stored, ok_bind, Bool.not_true,
    Bool.or_self, Bool.false_eq_true, if_false, ne_eq, not_true_eq_false]
  cases trustedHead with
  | none => exact ⟨_, rfl, rfl⟩
  | some head =>
    rw [hhead]
    exact ⟨_, rfl, rfl⟩

/-- Every other report is a rejection. -/
theorem checks_of_report (hanchors : verifier.ValidAnchors anchors) {report : TimelineSignedRangeReportV1}
    (h : verifier.verifySignedTimelineRangeV1 s t range events anchors trustedHead = .ok report)
    (hclaim : report.rangeClaim ≠ .rejected) : verifier.Checks s t range events anchors := by
  obtain ⟨table, htable, hanchor⟩ := hanchors.lookup
  rw [verifySignedTimelineRangeV1, htable, ok_bind] at h
  dsimp only at h
  split at h
  · cases h
    exact absurd rfl hclaim
  rename_i hfirst
  simp only [Bool.or_eq_true, not_or, Bool.not_eq_true', Bool.not_eq_false] at hfirst
  obtain ⟨found, hfound, h⟩ := bind_eq_ok.mp h
  split at h
  swap
  · cases h
    exact absurd rfl hclaim
  rename_i lineage
  split at h
  · cases h
    exact absurd rfl hclaim
  rename_i hmatch
  obtain ⟨stored, hstored, h⟩ := bind_eq_ok.mp h
  split at h
  · cases h
    exact absurd rfl hclaim
  rename_i hsame
  refine ⟨(all_verified hanchor).mp hfirst.1, hfirst.2, by rw [hstored, not_not.mp hsame], lineage, hfound, ?_⟩
  simpa using hmatch

/-! ## Exactness -/

section Head

variable {last : Event} {head n : Nat} (hlast : events.getLast? = some last)

include hlast

variable (hle : last.seq ≤ n)

include hle

/-- The claim under a head, for records that end at or before the store's head. -/
theorem rangeClaim_eq :
    rangeClaim events range head n =
      if n = head ∧ last.seq = head then .completeThroughHead
      else if n = head ∧ range.hi.isSome then .completeBounded
      else .rejected := by
  unfold rangeClaim
  simp only [hlast, Option.any_some, decide_eq_true_eq]
  by_cases hhead : n = head
  · subst hhead
    rw [if_neg (not_or_intro (not_not_intro rfl) (Nat.not_lt.mpr hle))]
    simp
  · rw [if_pos (.inl hhead), if_neg (fun h => hhead h.1), if_neg (fun h => hhead h.1)]

theorem rangeClaim_ne_rejected :
    rangeClaim events range head n ≠ .rejected ↔ n = head ∧ (range.hi.isSome ∨ last.seq = head) := by
  rw [rangeClaim_eq hlast hle]
  by_cases hhead : n = head <;> by_cases hend : last.seq = head <;> by_cases hhi : range.hi.isSome <;>
    simp [hhead, hend, hhi]

theorem rangeClaim_through :
    rangeClaim events range head n = .completeThroughHead ↔ n = head ∧ last.seq = head := by
  rw [rangeClaim_eq hlast hle]
  by_cases hhead : n = head <;> by_cases hend : last.seq = head <;> by_cases hhi : range.hi.isSome <;>
    simp [hhead, hend, hhi]

theorem rangeClaim_bounded :
    rangeClaim events range head n = .completeBounded ↔ n = head ∧ range.hi.isSome ∧ last.seq ≠ head := by
  rw [rangeClaim_eq hlast hle]
  by_cases hhead : n = head <;> by_cases hend : last.seq = head <;> by_cases hhi : range.hi.isSome <;>
    simp [hhead, hend, hhi]

end Head

/-- A report exists whose claim satisfies `P`. -/
def Claims (verifier : RangeVerifier) (s : MemoryStore) (t : TimelineId) (range : SeqRange) (events : List Event)
    (anchors : List (KeyIdentityV1 × PublicKey)) (trustedHead : Option Seq) (P : TimelineSignedRangeClaimV1 → Prop) : Prop :=
  ∃ report, verifier.verifySignedTimelineRangeV1 s t range events anchors trustedHead = .ok report ∧ P report.rangeClaim

variable {all : List Event}

/-- The checks pass exactly for the store's own verified records of the range, under an unmarked lineage. -/
theorem checks_iff (hs : s.Reachable Sane) (hread : s.read t .all = .ok all) :
    verifier.Checks s t range events anchors ↔ (events ≠ [] ∧ (∀ e ∈ events, verifier.Verifies s anchors e) ∧
      s.read t range = .ok events ∧ EndsAt events range) ∧ s.Unmarked t := by
  obtain ⟨F, hw⟩ := hs.fresh.wf
  obtain ⟨⟨L, hL, -⟩, hist, hh, -, hranges⟩ := hw.read_range hread
  constructor
  · intro h
    obtain ⟨hne, hends⟩ := recordsAreContiguous_ends h.contiguous
    obtain ⟨lineage, hlineage, -⟩ := h.lineage
    exact ⟨⟨hne, h.verified, h.stored, hends⟩, hw.unmarked_of_trusted hL hlineage⟩
  · rintro ⟨⟨hne, hverified, hstored, hends⟩, hmarks⟩
    have hevents : events = (logicalEvents hist).filter fun e => range.contains e.seq := by
      rw [hranges range, Except.ok.injEq] at hstored
      exact hstored.symm
    refine ⟨hverified, hw.recordsAreContiguous hs.uniqueIds hh hevents hne hends, hstored, s.lineageOf L,
      hw.trustedLineage_eq hL (hw.read_all hread).2.2.1 hmarks, fun e he => ?_⟩
    exact hw.matches_lineageOf hh hL (mem_of_mem_filter (hevents ▸ he))

theorem claims_iff (hanchors : verifier.ValidAnchors anchors) (hhead : s.logicalHead t = .ok n)
    {P : TimelineSignedRangeClaimV1 → Prop} (hP : ¬ P .rejected) :
    verifier.Claims s t range events anchors trustedHead P ↔
      verifier.Checks s t range events anchors ∧ P (claimOf events range n trustedHead) := by
  constructor
  · rintro ⟨report, hreport, hclaim⟩
    have hchecks := checks_of_report hanchors hreport fun h => hP (h ▸ hclaim)
    obtain ⟨report', hreport', hclaim'⟩ := hchecks.report hanchors hhead trustedHead
    rw [hreport] at hreport'
    cases hreport'
    exact ⟨hchecks, hclaim' ▸ hclaim⟩
  · rintro ⟨hchecks, hclaim⟩
    obtain ⟨report, hreport, hreport'⟩ := hchecks.report hanchors hhead trustedHead
    exact ⟨report, hreport, hreport' ▸ hclaim⟩

section

variable (hs : s.Reachable MemoryStore.Sane)

include hs

theorem accepts_iff (hread : s.read t .all = .ok all)
    (hhead : s.logicalHead t = .ok n) : verifier.Accepts s t range events anchors trustedHead ∧ s.Unmarked t ↔
      verifier.Checks s t range events anchors ∧ ∀ head, trustedHead = some head →
        n = head ∧ (range.hi.isSome ∨ ∃ last, events.getLast? = some last ∧ last.seq = head) := by
  rw [checks_iff hs hread]
  constructor
  · rintro ⟨h, hmarks⟩
    refine ⟨⟨⟨h.nonempty, h.verified, h.stored, h.ends⟩, hmarks⟩, fun head heq => ?_⟩
    obtain ⟨hhead', hend⟩ := h.head head heq
    rw [hhead, Except.ok.injEq] at hhead'
    exact ⟨hhead', hend⟩
  · rintro ⟨⟨⟨hne, hverified, hstored, hends⟩, hmarks⟩, h⟩
    refine ⟨⟨hne, hverified, hstored, hends, fun head heq => ?_⟩, hmarks⟩
    obtain ⟨rfl, hend⟩ := h head heq
    exact ⟨hhead, hend⟩

/-- A readable Timeline has a head, and checked records end at or before it. -/
theorem head_of_read (hread : s.read t .all = .ok all) :
    ∃ n, s.logicalHead t = .ok n ∧ (verifier.Checks s t range events anchors →
      ∃ last, events.getLast? = some last ∧ last.seq ≤ n) := by
  obtain ⟨F, hw⟩ := hs.fresh.wf
  obtain ⟨-, hist, -, hhead, hranges⟩ := hw.read_range hread
  refine ⟨hist.length, hhead, fun h => ?_⟩
  obtain ⟨hne, -⟩ := recordsAreContiguous_ends h.contiguous
  have hstored := h.stored
  rw [hranges range, Except.ok.injEq] at hstored
  refine ⟨events.getLast hne, getLast?_eq_some_getLast hne, ?_⟩
  have hmem : events.getLast hne ∈ logicalEvents hist :=
    mem_of_mem_filter (p := fun e => range.contains e.seq) (hstored ▸ getLast_mem hne)
  have hbound := ((numbered_logicalEventsFrom 0 hist).bounds hmem).2
  rwa [length_logicalEventsFrom, Nat.zero_add] at hbound

theorem reports_of_unmarked (hread : s.read t .all = .ok all)
    (hanchors : verifier.ValidAnchors anchors) (hmarks : s.Unmarked t) :
    ∃ report, verifier.verifySignedTimelineRangeV1 s t range events anchors trustedHead = .ok report := by
  obtain ⟨F, hw⟩ := hs.fresh.wf
  obtain ⟨⟨L, hL, -⟩, hist, hh, hhead, hranges⟩ := hw.read_range hread
  obtain ⟨table, htable, -⟩ := hanchors.lookup
  rw [verifySignedTimelineRangeV1, htable, ok_bind, hw.trustedLineage_eq hL (hw.read_all hread).2.2.1 hmarks, hranges,
    hhead]
  simp only [ok_bind]
  split
  · exact ⟨_, rfl⟩
  split
  · exact ⟨_, rfl⟩
  split
  · exact ⟨_, rfl⟩
  cases trustedHead with
  | none => exact ⟨_, rfl⟩
  | some head => exact ⟨_, rfl⟩

end

/-- The verifier accepts exactly the store's own contiguous records. For a readable Timeline and
valid trust anchors, some claim other than `Rejected` is made if and only if the Events are the
store's verified records of the range up to its end, the trusted head is the store's and is reached
when the range is open, and no Timeline of the lineage is marked; the claim is complete through the
head exactly when the records end there, and complete within bounds exactly when they end below. -/
theorem signed_range_exact (hs : s.Reachable MemoryStore.Sane) {all : List Event} (hread : s.read t .all = .ok all)
    (hanchors : verifier.ValidAnchors anchors) :
    (verifier.Claims s t range events anchors trustedHead (· ≠ .rejected) ↔
      verifier.Accepts s t range events anchors trustedHead ∧ s.Unmarked t) ∧
    (verifier.Claims s t range events anchors trustedHead (· = .completeThroughHead) ↔
      (verifier.Accepts s t range events anchors trustedHead ∧ s.Unmarked t) ∧
        ∃ last, events.getLast? = some last ∧ trustedHead = some last.seq) ∧
    (verifier.Claims s t range events anchors trustedHead (· = .completeBounded) ↔
      (verifier.Accepts s t range events anchors trustedHead ∧ s.Unmarked t) ∧
        ∃ last head, events.getLast? = some last ∧ trustedHead = some head ∧ last.seq < head) ∧
    (s.Unmarked t → ∃ report, verifier.verifySignedTimelineRangeV1 s t range events anchors trustedHead = .ok report) := by
  obtain ⟨n, hhead, hends⟩ : ∃ n, s.logicalHead t = .ok n ∧ (verifier.Checks s t range events anchors →
      ∃ last, events.getLast? = some last ∧ last.seq ≤ n) := head_of_read hs hread
  rw [accepts_iff hs hread hhead, claims_iff hanchors hhead (by decide), claims_iff hanchors hhead (by decide),
    claims_iff hanchors hhead (by decide)]
  refine ⟨?_, ?_, ?_, reports_of_unmarked hs hread hanchors⟩
  · refine and_congr_right fun hchecks => ?_
    obtain ⟨last, hlast, hle⟩ := hends hchecks
    cases trustedHead with
    | none => simp [claimOf]
    | some head => simp [claimOf, rangeClaim_ne_rejected hlast hle, hlast]
  · rw [and_assoc]
    refine and_congr_right fun hchecks => ?_
    obtain ⟨last, hlast, hle⟩ := hends hchecks
    cases trustedHead with
    | none => simp [claimOf]
    | some head =>
      simp only [claimOf, rangeClaim_through hlast hle, hlast, Option.some.injEq, forall_eq', exists_eq_left']
      constructor
      · rintro ⟨rfl, hend⟩
        exact ⟨⟨rfl, .inr hend⟩, hend.symm⟩
      · rintro ⟨⟨rfl, -⟩, hend⟩
        exact ⟨rfl, hend.symm⟩
  · rw [and_assoc]
    refine and_congr_right fun hchecks => ?_
    obtain ⟨last, hlast, hle⟩ := hends hchecks
    cases trustedHead with
    | none => simp [claimOf]
    | some head =>
      simp only [claimOf, rangeClaim_bounded hlast hle, hlast, Option.some.injEq, forall_eq', exists_eq_left']
      constructor
      · rintro ⟨rfl, hhi, hne⟩
        exact ⟨⟨rfl, .inl hhi⟩, last, n, rfl, rfl, Nat.lt_of_le_of_ne hle hne⟩
      · rintro ⟨⟨rfl, hhi | hend⟩, _, _, rfl, rfl, hlt⟩
        · exact ⟨rfl, hhi, Nat.ne_of_lt hlt⟩
        · exact absurd hend (Nat.ne_of_lt hlt)

/-- A verifier that accepts every signature. -/
def trusting : RangeVerifier := ⟨fun _ => true, fun _ _ _ => .verified⟩

theorem trusting_validAnchors : trusting.ValidAnchors [] := ⟨by simp, nodup_nil⟩

/-- The branch's one inherited Event is complete through the head. -/
theorem forkedOnce_through_head : ∃ e, MemoryStore.forkedOnce.read ⟨2⟩ .all = .ok [e] ∧
    trusting.Claims MemoryStore.forkedOnce ⟨2⟩ .all [e] [] (some 1) (· = .completeThroughHead) := by
  obtain ⟨e, hread⟩ : ∃ e, forkedOnce.read ⟨2⟩ .all = .ok [e] := ⟨_, rfl⟩
  have hseq : e.seq = 1 := by cases hread; rfl
  have hmarks : forkedOnce.Unmarked ⟨2⟩ := by
    intro c _
    rw [show forkedOnce.geographicTimelines = ∅ by decide]
    exact Finset.notMem_empty c
  have haccepts : trusting.Accepts forkedOnce ⟨2⟩ .all [e] [] (some 1) := by
    refine ⟨cons_ne_nil _ _, fun _ _ => rfl, hread, by rintro _ _ _ ⟨⟩, ?_⟩
    rintro head ⟨⟩
    exact ⟨by decide, .inr ⟨e, rfl, hseq⟩⟩
  exact ⟨e, hread, (signed_range_exact forkedOnce_sane hread trusting_validAnchors).2.1.mpr
    ⟨⟨haccepts, hmarks⟩, e, rfl, congrArg some hseq.symm⟩⟩

/-- The branch's root is marked after the fork. -/
def markedRoot : MemoryStore :=
  MemoryStore.forkedOnce.run [.host ⟨{⟨1⟩}, some .newTestOpen, false, none, false, none, fun _ => .error .unresolved, ∅, ∅⟩]

/-- The branch is still read, but the lineage through the hidden root is not trusted: the store's own
record of it is not accepted. -/
theorem markedRoot_not_accepted : markedRoot.Reachable MemoryStore.Sane ∧ ∃ e, markedRoot.read ⟨2⟩ .all = .ok [e] ∧
    trusting.ValidAnchors [] ∧ trusting.Accepts markedRoot ⟨2⟩ .all [e] [] none ∧
    trusting.verifySignedTimelineRangeV1 markedRoot ⟨2⟩ .all [e] [] none = .error (.timelineNotFound ⟨1⟩) := by
  obtain ⟨e, hread⟩ : ∃ e, markedRoot.read ⟨2⟩ .all = .ok [e] := ⟨_, rfl⟩
  refine ⟨forkedOnce_sane.run (by decide), e, hread, trusting_validAnchors, ?_, ?_⟩
  · exact ⟨cons_ne_nil _ _, fun _ _ => rfl, hread, by rintro _ _ _ ⟨⟩, by rintro _ ⟨⟩⟩
  · cases hread
    decide

end RangeVerifier

end Piglor
