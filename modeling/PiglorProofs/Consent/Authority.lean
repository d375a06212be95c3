/-
The consent authority of `pos-core` (`consent.rs`): the sessions opened by durable grants, the fences
that close them, revocation reservations, and the checks made with a capability token. A clone of an
authority shares its sessions, so one authority has one session table. An iteration over the table is a
list of its rows in any order.
-/
import PiglorProofs.Core.Types
import PiglorProofs.Lib.Checked
import PiglorProofs.Lib.Table

namespace Piglor.Consent

def modalityLocation : UInt8 := 0x01

def modalityPersona : UInt8 := 0x02

def modalityModelFit : UInt8 := 0x04

def modalityExport : UInt8 := 0x08

/-- `geo_admission::GEO_LOCATION_V1_RESOLUTION`. -/
def geoLocationV1Resolution : UInt8 := 1

inductive ConsentError where
  | noConsent
  | revoked
  | expired
  | modalityNotGranted
  | exportNotPermitted
  | forkNotPermitted
  | geoResolutionNotPermitted
  | retentionNotPermitted
  | consentEventsForbidden
deriving DecidableEq

abbrev ConsentResult := Except ConsentError

def startsWith (kind : Kind) (family : String) : Bool := family.toList.isPrefixOf kind.toList

def requiredModalityForEvent (kind : Kind) : UInt8 :=
  if startsWith kind "geo." || startsWith kind "location." then modalityLocation
  else if startsWith kind "persona." then modalityPersona
  else if startsWith kind "model." then modalityModelFit
  else if startsWith kind "export." then modalityExport
  else 0

/-- A durable grant; its purpose is not read by the authority. -/
structure ConsentGrantedV1 where
  subjectId : EntityId
  granteeId : EntityId
  modalities : UInt8
  minGeoResolution : UInt8
  forkPermitted : Bool
  exportPermitted : Bool
  retentionDays : Nat
  expirySecs : Nat
  grantSeq : Nat

structure ConsentRevokedV1 where
  subjectId : EntityId
  granteeId : EntityId
  grantSeq : Nat
  fenceSeq : Nat

/-- The key of a session: one durable grant on one Timeline. -/
structure SessionKey where
  timeline : TimelineId
  subject : EntityId
  grantee : EntityId
  grantSeq : Nat
deriving DecidableEq

def ConsentGrantedV1.key (grant : ConsentGrantedV1) (timeline : TimelineId) : SessionKey :=
  ⟨timeline, grant.subjectId, grant.granteeId, grant.grantSeq⟩

def ConsentRevokedV1.key (revocation : ConsentRevokedV1) (timeline : TimelineId) : SessionKey :=
  ⟨timeline, revocation.subjectId, revocation.granteeId, revocation.grantSeq⟩

structure ConsentCapabilityToken where
  authorityId : Nat
  timelineId : TimelineId
  subjectId : EntityId
  granteeId : EntityId
  modalities : UInt8
  minGeoResolution : UInt8
  forkPermitted : Bool
  exportPermitted : Bool
  retentionDays : Nat
  grantSeq : Nat
  fenceSeq : Nat
deriving DecidableEq

namespace ConsentCapabilityToken

variable (token : ConsentCapabilityToken)

def key : SessionKey := ⟨token.timelineId, token.subjectId, token.granteeId, token.grantSeq⟩

def isValidAt (timelineHead : Nat) : Bool := decide (timelineHead < token.fenceSeq)

def authorizeEventType (kind : Kind) : ConsentResult Unit :=
  let requiredModality := requiredModalityForEvent kind
  if requiredModality ≠ 0 ∧ token.modalities &&& requiredModality ≠ requiredModality then .error .modalityNotGranted
  else if requiredModality = modalityExport ∧ token.exportPermitted = false then .error .exportNotPermitted
  else if startsWith kind "timeline.fork." = true ∧ token.forkPermitted = false then .error .forkNotPermitted
  else if startsWith kind "retention." = true ∧ token.retentionDays = 0 then .error .retentionNotPermitted
  else .ok ()

def authorizeGeoResolution (resolution : UInt8) : ConsentResult Unit :=
  if resolution < token.minGeoResolution then .error .geoResolutionNotPermitted else .ok ()

end ConsentCapabilityToken

structure ActiveConsent where
  token : ConsentCapabilityToken
  expirySecs : Nat
deriving DecidableEq

def ActiveConsent.withFence (active : ActiveConsent) (fenceSeq : Nat) : ActiveConsent :=
  { active with token := { active.token with fenceSeq := fenceSeq } }

/-- Whether a session has run out at a time; a zero expiry never does. -/
def ActiveConsent.isExpired (active : ActiveConsent) (nowSecs : Nat) : Bool :=
  decide (active.expirySecs ≠ 0) && decide (active.expirySecs ≤ nowSecs)

abbrev ActiveConsentSessions := Table SessionKey ActiveConsent

/-- A list of the rows of a session table, in the order some iteration meets them. -/
def isIteration (sessions : ActiveConsentSessions) (rows : List (SessionKey × ActiveConsent)) : Bool :=
  decide ((Multiset.ofList (rows.map fun row => (⟨row.1, row.2⟩ : Sigma fun _ : SessionKey => ActiveConsent))) =
    sessions.entries)

structure ConsentAuthority where
  authorityId : Nat
  active : ActiveConsentSessions

def ConsentAuthority.new (authorityId : Nat) : ConsentAuthority := ⟨authorityId, ∅⟩

structure ConsentRevocationReservation where
  authorityId : Nat
  key : SessionKey
  previousFenceSeq : Nat
  pendingFenceSeq : Nat
  fenceSeq : Nat
  completed : Bool

/-! ## Reservations -/

namespace ConsentRevocationReservation

variable (reservation : ConsentRevocationReservation) (sessions : ActiveConsentSessions)

/-- Put the fence found back when the provisional one still stands. -/
def rollback : ConsentRevocationReservation × ActiveConsentSessions :=
  if reservation.completed then (reservation, sessions)
  else
    ({ reservation with completed := true },
      match sessions.lookup reservation.key with
      | some active =>
        if active.token.fenceSeq = reservation.pendingFenceSeq then
          sessions.insert reservation.key (active.withFence reservation.previousFenceSeq)
        else sessions
      | none => sessions)

def drop : ActiveConsentSessions :=
  (reservation.rollback sessions).2

/-- Publish the durable fence; the reservation is dropped at the end on every path. -/
def commitDurable : ConsentResult Unit × ActiveConsentSessions :=
  match sessions.lookup reservation.key with
  | none => (.error .noConsent, reservation.drop sessions)
  | some active =>
    if active.token.fenceSeq ≠ reservation.pendingFenceSeq then (.error .noConsent, reservation.drop sessions)
    else
      (.ok (), { reservation with completed := true }.drop
        (sessions.insert reservation.key (active.withFence reservation.fenceSeq)))

def abortDurable : Bool × ActiveConsentSessions :=
  let wasPending := !reservation.completed
  let (reservation, sessions) := reservation.rollback sessions
  (wasPending, reservation.drop sessions)

end ConsentRevocationReservation

/-! ## Sessions -/

namespace ConsentAuthority

variable (authority : ConsentAuthority) (timeline : TimelineId)

def withSessions (sessions : ActiveConsentSessions) : ConsentAuthority := { authority with active := sessions }

def tokenOf (grant : ConsentGrantedV1) : ConsentCapabilityToken where
  authorityId := authority.authorityId
  timelineId := timeline
  subjectId := grant.subjectId
  granteeId := grant.granteeId
  modalities := grant.modalities
  minGeoResolution := grant.minGeoResolution
  forkPermitted := grant.forkPermitted
  exportPermitted := grant.exportPermitted
  retentionDays := grant.retentionDays
  grantSeq := grant.grantSeq
  fenceSeq := u64Max

def recordGrantOnTimeline (grant : ConsentGrantedV1) : ConsentCapabilityToken × ConsentAuthority :=
  let token := authority.tokenOf timeline grant
  (token, authority.withSessions (authority.active.insert (grant.key timeline) ⟨token, grant.expirySecs⟩))

/-- Fence a session provisionally, one below the fence its revocation will publish. -/
def beginRevocationOnTimeline (revocation : ConsentRevokedV1) :
    ConsentResult (ConsentRevocationReservation × ConsentAuthority) :=
  let pendingFenceSeq := revocation.fenceSeq - 1
  let key := revocation.key timeline
  match authority.active.lookup key with
  | none => .error .noConsent
  | some active =>
    if active.token.fenceSeq ≤ revocation.fenceSeq then .error .revoked
    else
      .ok ({ authorityId := authority.authorityId, key := key, previousFenceSeq := active.token.fenceSeq,
             pendingFenceSeq := pendingFenceSeq, fenceSeq := revocation.fenceSeq, completed := false },
           authority.withSessions (authority.active.insert key (active.withFence pendingFenceSeq)))

def commitRevocation (reservation : ConsentRevocationReservation) : ConsentResult Unit × ConsentAuthority :=
  if reservation.authorityId ≠ authority.authorityId then
    (.error .noConsent, authority.withSessions (reservation.drop authority.active))
  else
    let (result, sessions) := reservation.commitDurable authority.active
    (result, authority.withSessions sessions)

def abortRevocation (reservation : ConsentRevocationReservation) : Bool × ConsentAuthority :=
  if reservation.authorityId ≠ authority.authorityId then
    (false, authority.withSessions (reservation.drop authority.active))
  else
    let (wasPending, sessions) := reservation.abortDurable authority.active
    (wasPending, authority.withSessions sessions)

def recordRevocationOnTimeline (revocation : ConsentRevokedV1) : ConsentResult Unit × ConsentAuthority :=
  let key := revocation.key timeline
  match authority.active.lookup key with
  | none => (.error .noConsent, authority)
  | some active =>
    (.ok (), authority.withSessions
      (authority.active.insert key (active.withFence (min active.token.fenceSeq revocation.fenceSeq))))

/-- Lower the fence of every session of a kind to one below a sequence. -/
def fenceSessions (fenced : SessionKey → Bool) (fenceSeq : Nat) : ConsentAuthority :=
  let pendingFenceSeq := fenceSeq - 1
  authority.withSessions (authority.active.mapRows fun key active =>
    if fenced key then active.withFence (min active.token.fenceSeq pendingFenceSeq) else active)

def fenceTimelineAt (fenceSeq : Nat) : ConsentAuthority :=
  authority.fenceSessions (fun key => decide (key.timeline = timeline)) fenceSeq

def fenceSubjectAt (subject : EntityId) (fenceSeq : Nat) : ConsentAuthority :=
  authority.fenceSessions (fun key => decide (key.timeline = timeline) && decide (key.subject = subject)) fenceSeq

/-- The fence of the host's closure; the append it runs under the lock does not reach the sessions. -/
def withRevocationFence (subject : Option EntityId) (fenceSeq : Nat) : ConsentAuthority :=
  authority.fenceSessions
    (fun key => decide (key.timeline = timeline) && subject.all fun subject => decide (key.subject = subject)) fenceSeq

/-! ## Checks -/

def validateFromSessions (sessions : ActiveConsentSessions) (key : SessionKey) (token : ConsentCapabilityToken)
    (timelineHead nowSecs : Nat) : ConsentResult Unit :=
  match sessions.lookup key with
  | none => .error .noConsent
  | some active =>
    let tokenMatches := decide (active.token = token)
    let tokenIsCurrent := active.token.isValidAt timelineHead
    if !(tokenMatches && tokenIsCurrent) then .error .revoked
    else if active.isExpired nowSecs then .error .expired
    else .ok ()

def validateOnTimeline (token : ConsentCapabilityToken) (timelineHead nowSecs : Nat) : ConsentResult Unit :=
  if token.authorityId ≠ authority.authorityId then .error .noConsent
  else if token.timelineId ≠ timeline then .error .noConsent
  else
    validateFromSessions authority.active ⟨timeline, token.subjectId, token.granteeId, token.grantSeq⟩ token timelineHead
      nowSecs

/-- The check under which a protected append runs; the append does not reach the sessions. -/
def withTokenFence (token : ConsentCapabilityToken) (timelineHead nowSecs : Nat) : ConsentResult Unit :=
  if token.authorityId ≠ authority.authorityId ∨ token.timelineId ≠ timeline then .error .noConsent
  else
    validateFromSessions authority.active ⟨timeline, token.subjectId, token.granteeId, token.grantSeq⟩ token timelineHead
      nowSecs

/-- The first session of a subject in an iteration of the table, checked for location at one head and time. -/
def validateLocationSubjectInSessions (sessions : ActiveConsentSessions) (iteration : List (SessionKey × ActiveConsent))
    (timeline : TimelineId) (subject : EntityId) (timelineHead nowSecs : Nat) : ConsentResult Unit :=
  match iteration.find? fun row => decide (row.1.timeline = timeline) && decide (row.1.subject = subject) with
  | none => .error .noConsent
  | some (key, active) => do
    validateFromSessions sessions key active.token timelineHead nowSecs
    active.token.authorizeEventType "geo.location"
    active.token.authorizeGeoResolution geoLocationV1Resolution

def validateLocationSubjectOnTimeline (iteration : List (SessionKey × ActiveConsent)) (timeline : TimelineId)
    (subject : EntityId) (timelineHead nowSecs : Nat) : ConsentResult Unit :=
  validateLocationSubjectInSessions authority.active iteration timeline subject timelineHead nowSecs

/-- The policy of the session an iteration meets first, once it is known to be current. -/
def checkPolicy (kind : Kind) (nowSecs : Nat) (active : ActiveConsent) : ConsentResult ConsentCapabilityToken :=
  let requiredModality := requiredModalityForEvent kind
  if active.isExpired nowSecs then .error .expired
  else if requiredModality = modalityExport ∧ active.token.exportPermitted = false then .error .exportNotPermitted
  else if startsWith kind "timeline.fork." = true ∧ active.token.forkPermitted = false then .error .forkNotPermitted
  else if startsWith kind "retention." = true ∧ active.token.retentionDays = 0 then .error .retentionNotPermitted
  else if requiredModality ≠ 0 ∧ active.token.modalities &&& requiredModality ≠ requiredModality then
    .error .modalityNotGranted
  else .ok active.token

def checkConsent (iteration : List (SessionKey × ActiveConsent)) (timeline : TimelineId) (subject : EntityId)
    (kind : Kind) (timelineHead nowSecs : Nat) : ConsentResult ConsentCapabilityToken :=
  if isConsentEventType kind then .error .consentEventsForbidden
  else
    let candidate := (iteration.map Prod.snd).find? fun active =>
      decide (active.token.timelineId = timeline) && decide (active.token.subjectId = subject) &&
        active.token.isValidAt timelineHead
    match candidate with
    | some active => checkPolicy kind nowSecs active
    | none => .error .noConsent

end ConsentAuthority

/-! ## What a check establishes -/

variable {sessions : ActiveConsentSessions} {active : ActiveConsent} {key : SessionKey}

theorem mem_iteration {rows : List (SessionKey × ActiveConsent)}
    (h : isIteration sessions rows = true) (hmem : (key, active) ∈ rows) :
    sessions.lookup key = some active := by
  rw [Finmap.lookup_eq_some_iff, ← of_decide_eq_true h, Multiset.mem_coe, List.mem_map]
  exact ⟨(key, active), hmem, rfl⟩

variable {token : ConsentCapabilityToken} {now head : Nat}

/-- An accepted check: the session holds this very token, unfenced at the head and not run out. -/
theorem validateFromSessions_eq_ok : ConsentAuthority.validateFromSessions sessions key token head now = .ok () ↔
      ∃ active, sessions.lookup key = some active ∧ active.token = token ∧ head < active.token.fenceSeq ∧
        active.isExpired now = false := by
  unfold ConsentAuthority.validateFromSessions
  rcases sessions.lookup key with _ | active
  · simp
  · by_cases htoken : active.token = token
    · by_cases hvalid : head < active.token.fenceSeq
      · cases hexpired : active.isExpired now <;> simp [htoken, ConsentCapabilityToken.isValidAt, htoken ▸ hvalid, hexpired]
      · simp [htoken, ConsentCapabilityToken.isValidAt, htoken ▸ hvalid]
    · simp [htoken]

/-- The token a check returns is a row's, unfenced at the head. -/
theorem row_of_checkConsent {iteration : List (SessionKey × ActiveConsent)} {timeline : TimelineId} {subject : EntityId}
    {kind : Kind} (h : ConsentAuthority.checkConsent iteration timeline subject kind head now = .ok token) :
    ∃ key active, (key, active) ∈ iteration ∧ active.token = token ∧ head < active.token.fenceSeq := by
  unfold ConsentAuthority.checkConsent at h
  split_ifs at h
  dsimp only at h
  split at h
  · rename_i active hfound
    obtain ⟨⟨key, active'⟩, hrow, rfl⟩ := List.mem_map.mp (List.mem_of_find?_eq_some hfound)
    have hcurrent := List.find?_some hfound
    rw [Bool.and_eq_true] at hcurrent
    refine ⟨key, active', hrow, ?_, of_decide_eq_true hcurrent.2⟩
    unfold ConsentAuthority.checkPolicy at h
    dsimp only at h
    iterate 5
      split at h
      · cases h
    exact Except.ok.inj h
  · cases h

theorem isExpired_eq_false : active.isExpired now = false ↔ active.expirySecs = 0 ∨ now < active.expirySecs := by
  unfold ActiveConsent.isExpired
  rw [Bool.and_eq_false_iff, decide_eq_false_iff_not, decide_eq_false_iff_not, Nat.not_le, not_not]

end Piglor.Consent
