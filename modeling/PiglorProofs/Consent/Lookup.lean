/-
Which session a consent lookup judges. The check of an Event takes the first unfenced session of the subject
that an iteration meets, and the location check the first session of the subject at all; each then judges that
one alone.
-/
import PiglorProofs.Consent.Authority
import PiglorProofs.Lib.FirstMatch

namespace Piglor.Consent

/-- The token covers Events of a type: its modality and its export, fork and retention flags. -/
def ConsentCapabilityToken.Covers (token : ConsentCapabilityToken) (kind : Kind) : Prop :=
  (requiredModalityForEvent kind ≠ 0 →
    token.modalities &&& requiredModalityForEvent kind = requiredModalityForEvent kind) ∧
  (requiredModalityForEvent kind = modalityExport → token.exportPermitted = true) ∧
  (startsWith kind "timeline.fork." = true → token.forkPermitted = true) ∧
  (startsWith kind "retention." = true → token.retentionDays ≠ 0)

/-- A session that admits an Event of a type at a head and a time. -/
structure ActiveConsent.Grants (active : ActiveConsent) (kind : Kind) (head now : Nat) : Prop where
  unfenced : head < active.token.fenceSeq
  unexpired : active.expirySecs = 0 ∨ now < active.expirySecs
  covers : active.token.Covers kind

/-- A session that admits location evidence at a head and a time. -/
structure ActiveConsent.GrantsLocation (active : ActiveConsent) (head now : Nat) : Prop where
  unfenced : head < active.token.fenceSeq
  unexpired : active.expirySecs = 0 ∨ now < active.expirySecs
  location : active.token.modalities &&& modalityLocation = modalityLocation
  resolution : active.token.minGeoResolution ≤ geoLocationV1Resolution

namespace ConsentAuthority

/-- Every session stands under its token's key. -/
def Keyed (authority : ConsentAuthority) : Prop :=
  ∀ key active, authority.active.lookup key = some active → active.token.key = key

def rows (authority : ConsentAuthority) : Multiset (SessionKey × ActiveConsent) :=
  authority.active.entries.map fun row => (row.1, row.2)

def Session (authority : ConsentAuthority) (timeline : TimelineId) (subject : EntityId)
    (row : SessionKey × ActiveConsent) : Prop :=
  row ∈ authority.rows ∧ row.1.timeline = timeline ∧ row.1.subject = subject

def HasSession (authority : ConsentAuthority) (timeline : TimelineId) (subject : EntityId)
    (good : ActiveConsent → Prop) : Prop :=
  ∃ row, authority.Session timeline subject row ∧ good row.2

/-- One good session makes every current session of the subject on the Timeline good. -/
def Uniform (authority : ConsentAuthority) (timeline : TimelineId) (subject : EntityId)
    (current good : ActiveConsent → Prop) : Prop :=
  authority.HasSession timeline subject good → ∀ row, authority.Session timeline subject row → current row.2 → good row.2

end ConsentAuthority

open ConsentAuthority

variable {authority : ConsentAuthority} {timeline : TimelineId} {subject : EntityId} {kind : Kind} {head now : Nat}
  {row : SessionKey × ActiveConsent}

theorem mem_rows : row ∈ authority.rows ↔ authority.active.lookup row.1 = some row.2 := by
  rw [rows, Multiset.mem_map, Finmap.lookup_eq_some_iff]
  constructor
  · rintro ⟨entry, hmem, rfl⟩
    exact hmem
  · intro hmem
    exact ⟨_, hmem, rfl⟩

variable {iteration : List (SessionKey × ActiveConsent)}

theorem isIteration_iff :
    isIteration authority.active iteration = true ↔ (iteration : Multiset _) = authority.rows := by
  rw [isIteration, decide_eq_true_iff, rows]
  constructor
  · intro h
    rw [← h]
    simp [Function.comp_def]
  · intro h
    rw [← Multiset.map_coe, h]
    simp

/-! ## One session judged -/

variable {token : ConsentCapabilityToken}

theorem checkPolicy_eq_ok {active : ActiveConsent} : checkPolicy kind now active = .ok token ↔
      (active.expirySecs = 0 ∨ now < active.expirySecs) ∧ active.token.Covers kind ∧ active.token = token := by
  rw [checkPolicy, ← isExpired_eq_false, ConsentCapabilityToken.Covers]
  simp only [Checked.guard_eq_ok, Except.ok.injEq, Bool.not_eq_true, not_and, Bool.not_eq_false, not_not]
  tauto

theorem authorizeEventType_geo_eq_ok :
    token.authorizeEventType "geo.location" = .ok () ↔ token.modalities &&& modalityLocation = modalityLocation := by
  have hrequired : requiredModalityForEvent "geo.location" = modalityLocation := by decide +kernel
  have hfork : startsWith "geo.location" "timeline.fork." = false := by decide +kernel
  have hretention : startsWith "geo.location" "retention." = false := by decide +kernel
  simp only [ConsentCapabilityToken.authorizeEventType, hrequired, hfork, hretention, Checked.guard_eq_ok]
  simp [show modalityLocation ≠ 0 by decide, show modalityLocation ≠ modalityExport by decide]

theorem authorizeGeoResolution_eq_ok {resolution : UInt8} :
    token.authorizeGeoResolution resolution = .ok () ↔ token.minGeoResolution ≤ resolution := by
  rw [ConsentCapabilityToken.authorizeGeoResolution, Checked.guard_eq_ok, UInt8.not_lt]
  exact and_iff_left rfl

/-- The location check accepts when the session it meets first admits location. -/
theorem validateLocation_eq_ok (h : isIteration authority.active iteration = true) :
    authority.validateLocationSubjectOnTimeline iteration timeline subject head now = .ok () ↔
      ∃ row, iteration.find? (fun row => decide (row.1.timeline = timeline) && decide (row.1.subject = subject)) =
        some row ∧ row.2.GrantsLocation head now := by
  rw [validateLocationSubjectOnTimeline, validateLocationSubjectInSessions]
  rcases hfound : iteration.find? _ with _ | ⟨key, active⟩
  · simp
  · have hsession := mem_iteration h (List.mem_of_find?_eq_some hfound)
    simp only [Checked.bind_eq_ok, Unique.exists_iff, PUnit.default_eq_unit, validateFromSessions_eq_ok, hsession,
      authorizeEventType_geo_eq_ok, authorizeGeoResolution_eq_ok, isExpired_eq_false, Option.some.injEq, exists_eq_left',
      true_and]
    constructor
    · rintro ⟨⟨hunfenced, hunexpired⟩, hlocation, hresolution⟩
      exact ⟨hunfenced, hunexpired, hlocation, hresolution⟩
    · rintro ⟨hunfenced, hunexpired, hlocation, hresolution⟩
      exact ⟨⟨hunfenced, hunexpired⟩, hlocation, hresolution⟩

/-- The check of an Event accepts when the unfenced session it meets first admits the Event, with that session's token. -/
theorem checkConsent_eq_ok (hkind : isConsentEventType kind = false) :
    checkConsent iteration timeline subject kind head now = .ok token ↔
      ∃ row, iteration.find? (fun row => decide (row.2.token.timelineId = timeline) &&
        decide (row.2.token.subjectId = subject) && row.2.token.isValidAt head) = some row ∧
        row.2.Grants kind head now ∧ row.2.token = token := by
  rw [checkConsent, hkind, if_neg (by decide), List.find?_map]
  dsimp only [Function.comp_def]
  rcases hfound : iteration.find? _ with _ | ⟨key, active⟩
  · simp
  · have hunfenced : head < active.token.fenceSeq :=
      of_decide_eq_true (Bool.and_eq_true _ _ ▸ List.find?_some hfound).2
    simp only [Option.map_some, checkPolicy_eq_ok, Option.some.injEq, exists_eq_left']
    constructor
    · rintro ⟨hunexpired, hcovers, htoken⟩
      exact ⟨⟨hunfenced, hunexpired, hcovers⟩, htoken⟩
    · rintro ⟨⟨-, hunexpired, hcovers⟩, htoken⟩
      exact ⟨hunexpired, hcovers, htoken⟩

/-! ## The set of grants and the order -/

/-- A lookup over the current sessions of one subject on one Timeline answers by the set of them exactly when it is uniform. -/
theorem lookup_decided_iff {p : SessionKey × ActiveConsent → Bool} {current good : ActiveConsent → Prop}
    (hmatch : ∀ row ∈ authority.rows,
      p row = true ↔ row.1.timeline = timeline ∧ row.1.subject = subject ∧ current row.2)
    (hgood : ∀ active, good active → current active) :
    (∀ iteration, isIteration authority.active iteration = true →
      ((∃ row, iteration.find? p = some row ∧ good row.2) ↔ authority.HasSession timeline subject good)) ↔
    authority.Uniform timeline subject current good := by
  have hfound : ∀ row, (fun row => authority.Session timeline subject row ∧ good row.2) row →
      row ∈ authority.rows ∧ p row = true :=
    fun row h => ⟨h.1.1, (hmatch row h.1.1).mpr ⟨h.1.2.1, h.1.2.2, hgood _ h.2⟩⟩
  refine Iff.trans (forall_congr' fun iteration => ?_)
    ((FirstMatch.decided_iff hfound).trans (imp_congr_right fun _ => ?_))
  · rw [isIteration_iff]
    refine imp_congr_right fun hrows => iff_congr (exists_congr fun row => and_congr_right fun hrow => ?_) Iff.rfl
    have hmem : row ∈ authority.rows := hrows ▸ List.mem_of_find?_eq_some hrow
    obtain ⟨htimeline, hsubject, -⟩ := (hmatch row hmem).mp (List.find?_some hrow)
    exact (and_iff_right ⟨hmem, htimeline, hsubject⟩).symm
  · constructor
    · rintro hall row ⟨hrow, htimeline, hsubject⟩ hcurrent
      exact (hall row hrow ((hmatch row hrow).mpr ⟨htimeline, hsubject, hcurrent⟩)).2
    · intro hall row hrow hp
      obtain ⟨htimeline, hsubject, hcurrent⟩ := (hmatch row hrow).mp hp
      exact ⟨⟨hrow, htimeline, hsubject⟩, hall row ⟨hrow, htimeline, hsubject⟩ hcurrent⟩

theorem checkConsent_match_iff (hkeys : authority.Keyed) (hrow : row ∈ authority.rows) :
    (decide (row.2.token.timelineId = timeline) && decide (row.2.token.subjectId = subject) &&
      row.2.token.isValidAt head) = true ↔
      row.1.timeline = timeline ∧ row.1.subject = subject ∧ head < row.2.token.fenceSeq := by
  rw [← hkeys _ _ (mem_rows.mp hrow)]
  simp [ConsentCapabilityToken.isValidAt, ConsentCapabilityToken.key, and_assoc]

/-- What the lookups decide. A returned token is always a granting session's. The answer is that of the set of grants in
every iteration order exactly when one granting session makes every unfenced session of the subject granting; for location,
every session of the subject. -/
theorem consent_lookup_decided_iff (authority : ConsentAuthority) (hkeys : authority.Keyed) (timeline : TimelineId)
    (subject : EntityId) (head now : Nat) :
    (∀ kind, isConsentEventType kind = false →
      (∀ iteration token, isIteration authority.active iteration = true →
        checkConsent iteration timeline subject kind head now = .ok token →
        authority.HasSession timeline subject fun active => active.Grants kind head now ∧ active.token = token) ∧
      ((∀ iteration, isIteration authority.active iteration = true →
        ((∃ token, checkConsent iteration timeline subject kind head now = .ok token) ↔
          authority.HasSession timeline subject fun active => active.Grants kind head now)) ↔
        authority.Uniform timeline subject (fun active => head < active.token.fenceSeq)
          fun active => active.Grants kind head now)) ∧
    ((∀ iteration, isIteration authority.active iteration = true →
      (authority.validateLocationSubjectOnTimeline iteration timeline subject head now = .ok () ↔
        authority.HasSession timeline subject fun active => active.GrantsLocation head now)) ↔
      authority.Uniform timeline subject (fun _ => True) fun active => active.GrantsLocation head now) := by
  refine ⟨fun kind hkind => ⟨fun iteration token hiteration hok => ?_, ?_⟩, ?_⟩
  · obtain ⟨row, hrow, hgrants⟩ := (checkConsent_eq_ok hkind).mp hok
    have hmem : row ∈ authority.rows := isIteration_iff.mp hiteration ▸ List.mem_of_find?_eq_some hrow
    have hmatch := List.find?_some hrow
    obtain ⟨htimeline, hsubject, -⟩ := (checkConsent_match_iff hkeys hmem).mp hmatch
    exact ⟨row, ⟨hmem, htimeline, hsubject⟩, hgrants⟩
  · rw [← lookup_decided_iff (fun _ => checkConsent_match_iff hkeys) fun _ => ActiveConsent.Grants.unfenced]
    refine forall₂_congr fun iteration _ => iff_congr ?_ Iff.rfl
    simp only [checkConsent_eq_ok hkind]
    constructor
    · rintro ⟨token, row, hrow, hgrants, -⟩
      exact ⟨row, hrow, hgrants⟩
    · rintro ⟨row, hrow, hgrants⟩
      exact ⟨_, row, hrow, hgrants, rfl⟩
  · rw [← lookup_decided_iff (p := fun row => decide (row.1.timeline = timeline) && decide (row.1.subject = subject))
      (by simp) fun _ _ => trivial]
    exact forall₂_congr fun iteration hiteration => iff_congr (validateLocation_eq_ok hiteration) Iff.rfl

/-! ## An order that decides -/

theorem keyed_new (authorityId : Nat) : (new authorityId).Keyed := by
  intro key active h
  simp [new] at h

theorem ConsentAuthority.Keyed.recordGrant (h : authority.Keyed) (grant : ConsentGrantedV1) :
    (authority.recordGrantOnTimeline timeline grant).2.Keyed :=
  Table.forall_insert rfl h

def shortGrant : ConsentGrantedV1 := ⟨⟨5⟩, ⟨6⟩, modalityLocation, 0, false, false, 0, 10, 1⟩

def longGrant : ConsentGrantedV1 := ⟨⟨5⟩, ⟨7⟩, modalityLocation, 0, false, false, 0, 0, 2⟩

/-- Two grants of one subject on one Timeline, of which the first runs out at second 10. -/
def twoGrants : ConsentAuthority :=
  (((ConsentAuthority.new 1).recordGrantOnTimeline ⟨1⟩ shortGrant).2.recordGrantOnTimeline ⟨1⟩ longGrant).2

def sessionOf (grant : ConsentGrantedV1) : SessionKey × ActiveConsent :=
  (grant.key ⟨1⟩, ⟨(ConsentAuthority.new 1).tokenOf ⟨1⟩ grant, grant.expirySecs⟩)

theorem longGrant_grants : twoGrants.HasSession ⟨1⟩ ⟨5⟩ fun active => active.Grants "geo.location" 50 20 :=
  ⟨sessionOf longGrant, ⟨mem_rows.mpr rfl, rfl, rfl⟩, by decide +kernel, by decide +kernel, by decide +kernel,
    by decide +kernel, by decide +kernel, by decide +kernel⟩

/-- At second 20 one session still grants, and both lookups accept or refuse by the order of the table. -/
theorem order_decides :
    ((twoGrants.HasSession ⟨1⟩ ⟨5⟩ fun active => active.Grants "geo.location" 50 20) ∧
      twoGrants.HasSession ⟨1⟩ ⟨5⟩ fun active => active.GrantsLocation 50 20) ∧
    (isIteration twoGrants.active [sessionOf longGrant, sessionOf shortGrant] = true ∧
      checkConsent [sessionOf longGrant, sessionOf shortGrant] ⟨1⟩ ⟨5⟩ "geo.location" 50 20 =
        .ok (sessionOf longGrant).2.token ∧
      twoGrants.validateLocationSubjectOnTimeline [sessionOf longGrant, sessionOf shortGrant] ⟨1⟩ ⟨5⟩ 50 20 = .ok ()) ∧
    isIteration twoGrants.active [sessionOf shortGrant, sessionOf longGrant] = true ∧
      checkConsent [sessionOf shortGrant, sessionOf longGrant] ⟨1⟩ ⟨5⟩ "geo.location" 50 20 = .error .expired ∧
      twoGrants.validateLocationSubjectOnTimeline [sessionOf shortGrant, sessionOf longGrant] ⟨1⟩ ⟨5⟩ 50 20 =
        .error .expired := by
  refine ⟨⟨longGrant_grants, sessionOf longGrant, ⟨mem_rows.mpr rfl, rfl, rfl⟩, ?_⟩, ?_⟩
  · exact ⟨by decide +kernel, by decide +kernel, by decide +kernel, by decide +kernel⟩
  · decide +kernel

theorem twoGrants_undecided : isConsentEventType "geo.location" = false ∧ twoGrants.Keyed ∧
    ¬ ∀ iteration, isIteration twoGrants.active iteration = true →
      ((∃ token, checkConsent iteration ⟨1⟩ ⟨5⟩ "geo.location" 50 20 = .ok token) ↔
        twoGrants.HasSession ⟨1⟩ ⟨5⟩ fun active => active.Grants "geo.location" 50 20) := by
  have hkind : isConsentEventType "geo.location" = false := by decide +kernel
  have hkeys : twoGrants.Keyed := ((keyed_new 1).recordGrant shortGrant).recordGrant longGrant
  refine ⟨hkind, hkeys, fun hdecided => ?_⟩
  have huniform := ((consent_lookup_decided_iff twoGrants hkeys ⟨1⟩ ⟨5⟩ 50 20).1 "geo.location" hkind).2.mp hdecided
  have hshort := huniform longGrant_grants (sessionOf shortGrant) ⟨mem_rows.mpr rfl, rfl, rfl⟩ (by decide +kernel)
  exact absurd hshort.unexpired (by decide +kernel)

end Piglor.Consent
