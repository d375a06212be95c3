/-
The two ways a geographic Event enters through the Gateway (`piglor-gateway`: `admit_geo_location_with_consent`
and `admit_owntracks_ingress`), over a consent authority in any state and a store that replies in any way.
Both read the protected head under the Timeline's consent lock, check consent there, and only then hand the
request to the store's geographic capability. The private ingress passes the time zero to its check.
-/
import PiglorProofs.Consent.Lookup

namespace Piglor.Gateway

open Checked Consent

/-- A minimised admission request, as far as the Gateway reads it. -/
structure GeoLocationAdmissionRequestV1 where
  timeline : TimelineId
  entity : EntityId
deriving DecidableEq

/-- The outcome kinds with the coordinates their constructors give. -/
inductive GeoLocationAdmissionOutcome where
  | accepted (eventId : EventId) (seq : Seq)
  | duplicate (eventId : EventId)
  | conflict
  | unavailable
  | outcomeUnknown
deriving DecidableEq

/-- The errors of the two admissions. -/
inductive GatewayError where
  | storeExecutorSaturated
  | storeExecutorClosed
  | storeExecutorDeadlineExceeded
  | storeExecutorUnhealthy
  | staleEventCursor
  | store (error : CoreError)
  | consent (error : ConsentError)
deriving DecidableEq

abbrev GatewayResult := Except GatewayError

structure EventNotice where
  timelineId : TimelineId
  eventId : EventId
  entityId : EntityId
  eventType : Kind
  seq : Seq

def geographicEventType : Kind := "geo.location"

inductive PreparedOwnTracksIngressOutcome where
  | prepared (request : GeoLocationAdmissionRequestV1)
  | rateLimited
deriving DecidableEq

inductive OwnTracksIngressResult where
  | rateLimited
  | accepted
  | duplicate
  | conflict
  | unavailable
deriving DecidableEq

/-- What the store executor does during one admission. `appended` is whether the store wrote the Event, which a
lost reply does not undo. -/
structure StoreTurn where
  prepared : GatewayResult PreparedOwnTracksIngressOutcome
  protectedLogicalHead : GatewayResult Seq
  admission : GatewayResult GeoLocationAdmissionOutcome
  appended : Bool

/-- What one admission did: the request handed to the store, the notices published and the reply. -/
structure Turn (α : Type) where
  submitted : Option GeoLocationAdmissionRequestV1
  notices : List EventNotice
  reply : GatewayResult α

def Turn.admits {α : Type} (turn : Turn α) (store : StoreTurn) (request : GeoLocationAdmissionRequestV1) : Prop :=
  turn.submitted = some request ∧ store.appended = true

/-- A turn that ends before the store is asked. -/
def Turn.refused {α : Type} (error : GatewayError) : Turn α := ⟨none, [], .error error⟩

def noticeOf (request : GeoLocationAdmissionRequestV1) : GeoLocationAdmissionOutcome → List EventNotice
  | .accepted eventId seq => [⟨request.timeline, eventId, request.entity, geographicEventType, seq⟩]
  | _ => []

def admitGeoLocationFromCore (store : StoreTurn) (request : GeoLocationAdmissionRequestV1) :
    Turn GeoLocationAdmissionOutcome :=
  match store.admission with
  | .ok outcome => ⟨some request, noticeOf request outcome, .ok outcome⟩
  | .error error => ⟨some request, [], .error error⟩

def checkToken (authority : ConsentAuthority) (request : GeoLocationAdmissionRequestV1) (token : ConsentCapabilityToken)
    (timelineHead nowSecs : Nat) : ConsentResult Unit := do
  authority.validateOnTimeline request.timeline token timelineHead nowSecs
  token.authorizeEventType "geo.location"
  token.authorizeGeoResolution geoLocationV1Resolution

def admitGeoLocationWithConsent (authority : ConsentAuthority) (store : StoreTurn)
    (request : GeoLocationAdmissionRequestV1) (token : ConsentCapabilityToken) (nowSecs : Nat) :
    Turn GeoLocationAdmissionOutcome :=
  match store.protectedLogicalHead with
  | .error error => .refused error
  | .ok timelineHead =>
    match checkToken authority request token timelineHead nowSecs with
    | .error error => .refused (.consent error)
    | .ok () => admitGeoLocationFromCore store request

def classifyOwntracksAdmission : GeoLocationAdmissionOutcome → OwnTracksIngressResult
  | .accepted _ _ => .accepted
  | .duplicate _ => .duplicate
  | .conflict => .conflict
  | .unavailable => .unavailable
  | .outcomeUnknown => .unavailable

/-- The private ingress. It has no time of its own: its consent check runs at second zero. -/
def admitOwntracksIngress (authority : ConsentAuthority) (iteration : List (SessionKey × ActiveConsent))
    (store : StoreTurn) : Turn OwnTracksIngressResult :=
  match store.prepared with
  | .error error => .refused error
  | .ok .rateLimited => ⟨none, [], .ok .rateLimited⟩
  | .ok (.prepared request) =>
    match store.protectedLogicalHead with
    | .error error => .refused error
    | .ok timelineHead =>
      match authority.validateLocationSubjectOnTimeline iteration request.timeline request.entity timelineHead 0 with
      | .error error => .refused (.consent error)
      | .ok () =>
        match store.admission with
        | .error error => ⟨some request, [], .error error⟩
        | .ok outcome => ⟨some request, noticeOf request outcome, .ok (classifyOwntracksAdmission outcome)⟩

/-! ## Sessions behind an admission -/

/-- A session of a subject on a Timeline that is unfenced at a head and grants location. -/
structure LocationSession (authority : ConsentAuthority) (head : Seq) (timeline : TimelineId) (subject : EntityId)
    (key : SessionKey) (active : ActiveConsent) : Prop where
  session : authority.active.lookup key = some active
  timeline : key.timeline = timeline
  subject : key.subject = subject
  unfenced : head < active.token.fenceSeq
  location : active.token.modalities &&& modalityLocation = modalityLocation

/-- A session not run out at a time. -/
def Unexpired (active : ActiveConsent) (now : Nat) : Prop := active.expirySecs = 0 ∨ now < active.expirySecs

/-- What an admission owes: a current location session of the subject on the Timeline. -/
def Consented (authority : ConsentAuthority) (head : Seq) (now : Nat) (request : GeoLocationAdmissionRequestV1) : Prop :=
  ∃ key active, LocationSession authority head request.timeline request.entity key active ∧ Unexpired active now

/-- A token that a location can be admitted under: unfenced at the head, with location at the admitted resolution. -/
structure Usable (token : ConsentCapabilityToken) (head : Seq) : Prop where
  unfenced : head < token.fenceSeq
  location : token.modalities &&& modalityLocation = modalityLocation
  resolution : token.minGeoResolution ≤ geoLocationV1Resolution

variable {authority : ConsentAuthority} {request : GeoLocationAdmissionRequestV1}
  {now head : Nat} {token : ConsentCapabilityToken} {iteration : List (SessionKey × ActiveConsent)}
  {store : StoreTurn}

theorem checkToken_eq_ok : checkToken authority request token head now = .ok () ↔
    token.authorityId = authority.authorityId ∧ token.timelineId = request.timeline ∧ Usable token head ∧
      ∃ active, authority.active.lookup token.key = some active ∧ active.token = token ∧ Unexpired active now := by
  simp only [checkToken, ConsentAuthority.validateOnTimeline, bind_eq_ok, guard_eq_ok, Unique.exists_iff,
    PUnit.default_eq_unit, authorizeEventType_geo_eq_ok, authorizeGeoResolution_eq_ok, validateFromSessions_eq_ok,
    isExpired_eq_false, not_not]
  constructor
  · rintro ⟨⟨hid, htimeline, active, hactive, rfl, hfence, hunexpired⟩, hlocation, hresolution⟩
    rw [← htimeline] at hactive
    exact ⟨hid, htimeline, ⟨hfence, hlocation, hresolution⟩, active, hactive, rfl, hunexpired⟩
  · rintro ⟨hid, htimeline, ⟨hfence, hlocation, hresolution⟩, active, hactive, rfl, hunexpired⟩
    rw [← htimeline]
    exact ⟨⟨hid, rfl, active, hactive, rfl, hfence, hunexpired⟩, hlocation, hresolution⟩

section Admits

variable (hhead : store.protectedLogicalHead = .ok head) (happended : store.appended = true)

include hhead happended

/-- A caller's request is admitted when its token passes at the head. -/
theorem admits_withConsent_iff : (admitGeoLocationWithConsent authority store request token now).admits store request ↔
    checkToken authority request token head now = .ok () := by
  unfold Turn.admits admitGeoLocationWithConsent
  rw [hhead]
  dsimp only
  rcases hcheck : checkToken authority request token head now with error | ⟨⟨⟩⟩
  · simp [Turn.refused]
  · unfold admitGeoLocationFromCore
    rcases store.admission <;> simp [happended]

/-- A prepared request is admitted when its subject passes at the head and at second zero. -/
theorem admits_ingress_iff (hprepared : store.prepared = .ok (.prepared request)) :
    (admitOwntracksIngress authority iteration store).admits store request ↔
      authority.validateLocationSubjectOnTimeline iteration request.timeline request.entity head 0 = .ok () := by
  unfold Turn.admits admitOwntracksIngress
  rw [hprepared, hhead]
  dsimp only
  rcases authority.validateLocationSubjectOnTimeline iteration request.timeline request.entity head 0 with error | ⟨⟨⟩⟩
  · simp [Turn.refused]
  · rcases store.admission <;> simp [happended]

end Admits

/-- The session table that holds one session. -/
def soleSession (key : SessionKey) (active : ActiveConsent) : ActiveConsentSessions := Finmap.insert key active ∅

theorem eq_of_soleSession {key found : SessionKey} {active other : ActiveConsent}
    (h : (soleSession key active).lookup found = some other) : found = key ∧ other = active := by
  rcases Table.lookup_insert_eq_some.mp h with ⟨hkey, hactive⟩ | ⟨-, hnone⟩
  · exact ⟨hkey, hactive.symm⟩
  · cases hnone

/-- When every admission is consented, whatever the sessions. A caller's token must be the request's entity's own,
unless no state admits it at the head. The private ingress judges the first session of the entity that its search
meets, at second zero: that session must not have run out at the real time, unless it admits at no time. -/
theorem geo_admission_consented_iff (store : StoreTurn) (request : GeoLocationAdmissionRequestV1) (head : Seq) (now : Nat)
    (hhead : store.protectedLogicalHead = .ok head) (happended : store.appended = true) :
    (∀ token, (∀ authority, (admitGeoLocationWithConsent authority store request token now).admits store request →
        Consented authority head now request) ↔
      (token.timelineId = request.timeline → Usable token head → token.subjectId = request.entity)) ∧
    (store.prepared = .ok (.prepared request) → ∀ key active,
      (∀ authority iteration, isIteration authority.active iteration = true →
        iteration.find? (fun row => decide (row.1.timeline = request.timeline) && decide (row.1.subject = request.entity)) =
          some (key, active) →
        (admitOwntracksIngress authority iteration store).admits store request → Consented authority head now request) ↔
      (key.timeline = request.timeline → key.subject = request.entity → Usable active.token head →
        Unexpired active now)) := by
  constructor
  · intro token
    simp only [admits_withConsent_iff hhead happended, checkToken_eq_ok]
    constructor
    · intro h htimeline husable
      -- the authority that knows this token alone admits it
      obtain ⟨key, active, hsession, -⟩ := h ⟨token.authorityId, soleSession token.key ⟨token, 0⟩⟩
        ⟨rfl, htimeline, husable, ⟨token, 0⟩, Finmap.lookup_insert _, rfl, .inl rfl⟩
      obtain ⟨rfl, -⟩ := eq_of_soleSession hsession.session
      exact hsession.subject
    · rintro h authority ⟨-, htimeline, husable, active, hactive, rfl, hunexpired⟩
      exact ⟨active.token.key, active,
        ⟨hactive, htimeline, h htimeline husable, husable.unfenced, husable.location⟩, hunexpired⟩
  · intro hprepared key active
    constructor
    · intro h htimeline hsubject husable
      have hfound : [(key, active)].find? (fun row => decide (row.1.timeline = request.timeline) &&
          decide (row.1.subject = request.entity)) = some (key, active) := by
        simp [htimeline, hsubject]
      have hiteration : isIteration (soleSession key active) [(key, active)] = true := decide_eq_true rfl
      -- at second zero no session has run out
      have hpasses : ConsentAuthority.validateLocationSubjectOnTimeline ⟨0, soleSession key active⟩ [(key, active)]
          request.timeline request.entity head 0 = .ok () :=
        (validateLocation_eq_ok hiteration).mpr ⟨_, hfound,
          husable.unfenced, Nat.eq_zero_or_pos _, husable.location, husable.resolution⟩
      obtain ⟨key', active', hsession, hunexpired⟩ := h ⟨0, soleSession key active⟩ _ hiteration hfound
        ((admits_ingress_iff hhead happended hprepared).mpr hpasses)
      obtain ⟨-, rfl⟩ := eq_of_soleSession hsession.session
      exact hunexpired
    · intro h authority iteration hiteration hfound hadmits
      obtain ⟨row, hrow, hgrants⟩ :=
        (validateLocation_eq_ok hiteration).mp ((admits_ingress_iff hhead happended hprepared).mp hadmits)
      obtain rfl := Option.some.inj (hfound.symm.trans hrow)
      have hnames := List.find?_some hfound
      rw [Bool.and_eq_true, decide_eq_true_eq, decide_eq_true_eq] at hnames
      exact ⟨key, active, ⟨mem_iteration hiteration (List.mem_of_find?_eq_some hfound), hnames.1, hnames.2,
        hgrants.unfenced, hgrants.location⟩, h hnames.1 hnames.2 ⟨hgrants.unfenced, hgrants.location, hgrants.resolution⟩⟩

/-! ## Admissions without consent -/

/-- A location grant of entity 5 that runs out at second 10. -/
def tenSecondGrant : ConsentGrantedV1 := ⟨⟨5⟩, ⟨6⟩, modalityLocation, 0, false, false, 0, 10, 42⟩

def tenSecondToken : ConsentCapabilityToken := ((ConsentAuthority.new 1).recordGrantOnTimeline ⟨1⟩ tenSecondGrant).1

def tenSecondAuthority : ConsentAuthority := ((ConsentAuthority.new 1).recordGrantOnTimeline ⟨1⟩ tenSecondGrant).2

def tenSecondIteration : List (SessionKey × ActiveConsent) := [(tenSecondGrant.key ⟨1⟩, ⟨tenSecondToken, 10⟩)]

/-- A store that accepts a location of an entity after head 50. -/
def acceptingStore (entity : EntityId) : StoreTurn where
  prepared := .ok (.prepared ⟨⟨1⟩, entity⟩)
  protectedLogicalHead := .ok 50
  admission := .ok (.accepted ⟨9⟩ 51)
  appended := true

/-- The private ingress admits a location at second 20 under a grant that ran out at second 10; and a caller's token of
one subject admits, within its own expiry, a location of an entity that has no session at all. -/
theorem expired_and_foreign_admissions :
    (isIteration tenSecondAuthority.active tenSecondIteration = true ∧
      (admitOwntracksIngress tenSecondAuthority tenSecondIteration (acceptingStore ⟨5⟩)).admits (acceptingStore ⟨5⟩)
        ⟨⟨1⟩, ⟨5⟩⟩ ∧ ¬ Consented tenSecondAuthority 50 20 ⟨⟨1⟩, ⟨5⟩⟩) ∧
    (admitGeoLocationWithConsent tenSecondAuthority (acceptingStore ⟨7⟩) ⟨⟨1⟩, ⟨7⟩⟩ tenSecondToken 3).admits
        (acceptingStore ⟨7⟩) ⟨⟨1⟩, ⟨7⟩⟩ ∧ ¬ Consented tenSecondAuthority 50 3 ⟨⟨1⟩, ⟨7⟩⟩ := by
  refine ⟨⟨by decide +kernel, ⟨by decide +kernel, rfl⟩, ?_⟩, ⟨by decide +kernel, rfl⟩, ?_⟩
  · rintro ⟨key, active, hsession, hunexpired⟩
    obtain ⟨-, rfl⟩ := eq_of_soleSession hsession.session
    rcases hunexpired with h | h
    · cases h
    · exact absurd h (by decide)
  · rintro ⟨key, active, hsession, -⟩
    obtain ⟨rfl, -⟩ := eq_of_soleSession hsession.session
    exact absurd hsession.subject (by decide)

/-- Entity 5's own token is consented at any state, and so is its session of ten seconds at second 3. -/
theorem unexpired_admissions_consented :
    (∀ authority, (admitGeoLocationWithConsent authority (acceptingStore ⟨5⟩) ⟨⟨1⟩, ⟨5⟩⟩ tenSecondToken 3).admits
        (acceptingStore ⟨5⟩) ⟨⟨1⟩, ⟨5⟩⟩ → Consented authority 50 3 ⟨⟨1⟩, ⟨5⟩⟩) ∧
    (admitOwntracksIngress tenSecondAuthority tenSecondIteration (acceptingStore ⟨5⟩)).admits (acceptingStore ⟨5⟩)
      ⟨⟨1⟩, ⟨5⟩⟩ ∧ Consented tenSecondAuthority 50 3 ⟨⟨1⟩, ⟨5⟩⟩ := by
  obtain ⟨hcaller, hingress⟩ := geo_admission_consented_iff (acceptingStore ⟨5⟩) ⟨⟨1⟩, ⟨5⟩⟩ 50 3 rfl rfl
  have hadmits : (admitOwntracksIngress tenSecondAuthority tenSecondIteration (acceptingStore ⟨5⟩)).admits
      (acceptingStore ⟨5⟩) ⟨⟨1⟩, ⟨5⟩⟩ := ⟨by decide +kernel, rfl⟩
  refine ⟨(hcaller tenSecondToken).mpr fun _ _ => rfl, hadmits, ?_⟩
  exact (hingress rfl (tenSecondGrant.key ⟨1⟩) ⟨tenSecondToken, 10⟩).mpr (fun _ _ _ => .inr (by decide))
    tenSecondAuthority tenSecondIteration (by decide +kernel) (by decide +kernel) hadmits

end Piglor.Gateway
