/-
Whole runs of a consent authority with any number of reservations open at once, and what becomes of a
fence once it is published. A reservation is a hold on the session's fence: it puts a provisional fence in
place and puts back the one it found, comparing values. What every open reservation of a session would
put back, newest first, never rises along a run, and it alone decides whether a published fence can be undone.
-/
import PiglorProofs.Consent.Authority
import PiglorProofs.Lib.Provisional
import PiglorProofs.Lib.Runs

namespace Piglor.Consent

open Provisional Runs Finmap List Option ConsentAuthority ConsentRevocationReservation

/-- An authority and the reservations its callers hold, newest first. -/
structure Host where
  authority : ConsentAuthority
  reservations : List ConsentRevocationReservation

def Host.new (authorityId : Nat) : Host := ⟨.new authorityId, []⟩

/-- A call of the authority. Reservations are named by their place among those held. -/
inductive Call where
  | recordGrant (timeline : TimelineId) (grant : ConsentGrantedV1)
  | beginRevocation (timeline : TimelineId) (revocation : ConsentRevokedV1)
  | commitRevocation (place : Nat)
  | abortRevocation (place : Nat)
  | dropReservation (place : Nat)
  | recordRevocation (timeline : TimelineId) (revocation : ConsentRevokedV1)
  | fenceTimelineAt (timeline : TimelineId) (fenceSeq : Nat)
  | fenceSubjectAt (timeline : TimelineId) (subject : EntityId) (fenceSeq : Nat)
  | withRevocationFence (timeline : TimelineId) (subject : Option EntityId) (fenceSeq : Nat)
  | validateOnTimeline (timeline : TimelineId) (token : ConsentCapabilityToken) (timelineHead nowSecs : Nat)
  | withTokenFence (timeline : TimelineId) (token : ConsentCapabilityToken) (timelineHead nowSecs : Nat)
  | checkConsent (iteration : List (SessionKey × ActiveConsent)) (timeline : TimelineId) (subject : EntityId) (kind : Kind)
      (timelineHead nowSecs : Nat)

inductive Reply where
  | token (token : ConsentCapabilityToken)
  | result (result : ConsentResult Unit)
  | aborted (wasPending : Bool)
  | checked (result : ConsentResult ConsentCapabilityToken)
  | absent

def Host.consume (host : Host) (place : Nat) (f : ConsentRevocationReservation → Reply × ConsentAuthority) : Host × Reply :=
  match host.reservations[place]? with
  | some reservation =>
    let (reply, authority) := f reservation
    (⟨authority, host.reservations.eraseIdx place⟩, reply)
  | none => (host, .absent)

def exec (host : Host) : Call → Host × Reply
  | .recordGrant timeline grant =>
    let (token, authority) := host.authority.recordGrantOnTimeline timeline grant
    ({ host with authority := authority }, .token token)
  | .beginRevocation timeline revocation =>
    match host.authority.beginRevocationOnTimeline timeline revocation with
    | .ok (reservation, authority) => (⟨authority, reservation :: host.reservations⟩, .result (.ok ()))
    | .error error => (host, .result (.error error))
  | .commitRevocation place => host.consume place fun reservation =>
      let (result, authority) := host.authority.commitRevocation reservation
      (.result result, authority)
  | .abortRevocation place => host.consume place fun reservation =>
      let (wasPending, authority) := host.authority.abortRevocation reservation
      (.aborted wasPending, authority)
  | .dropReservation place => host.consume place fun reservation =>
      (.result (.ok ()), host.authority.withSessions (reservation.drop host.authority.active))
  | .recordRevocation timeline revocation =>
    let (result, authority) := host.authority.recordRevocationOnTimeline timeline revocation
    ({ host with authority := authority }, .result result)
  | .fenceTimelineAt timeline fenceSeq =>
    ({ host with authority := host.authority.fenceTimelineAt timeline fenceSeq }, .result (.ok ()))
  | .fenceSubjectAt timeline subject fenceSeq =>
    ({ host with authority := host.authority.fenceSubjectAt timeline subject fenceSeq }, .result (.ok ()))
  | .withRevocationFence timeline subject fenceSeq =>
    ({ host with authority := host.authority.withRevocationFence timeline subject fenceSeq }, .result (.ok ()))
  | .validateOnTimeline timeline token timelineHead nowSecs =>
    (host, .result (host.authority.validateOnTimeline timeline token timelineHead nowSecs))
  | .withTokenFence timeline token timelineHead nowSecs =>
    (host, .result (host.authority.withTokenFence timeline token timelineHead nowSecs))
  | .checkConsent iteration timeline subject kind timelineHead nowSecs =>
    if isIteration host.authority.active iteration then
      (host, .checked (ConsentAuthority.checkConsent iteration timeline subject kind timelineHead nowSecs))
    else (host, .absent)

def Call.granted : Call → Option SessionKey
  | .recordGrant timeline grant => some (grant.key timeline)
  | _ => none

def grantedKeys (calls : List Call) : List SessionKey := calls.filterMap Call.granted

def Publishes (host : Host) (call : Call) (key : SessionKey) (fence : Nat) : Prop :=
  match call with
  | .commitRevocation place => ∃ reservation, host.reservations[place]? = some reservation ∧ reservation.key = key ∧
      reservation.fenceSeq = fence ∧ (exec host call).2 = .result (.ok ())
  | .recordRevocation timeline revocation => revocation.key timeline = key ∧ revocation.fenceSeq = fence ∧
      (exec host call).2 = .result (.ok ())
  | .fenceTimelineAt timeline fenceSeq => key.timeline = timeline ∧ fenceSeq = fence ∧ key ∈ host.authority.active
  | .fenceSubjectAt timeline subject fenceSeq => key.timeline = timeline ∧ key.subject = subject ∧ fenceSeq = fence ∧
      key ∈ host.authority.active
  | .withRevocationFence timeline subject fenceSeq => key.timeline = timeline ∧ (∀ s ∈ subject, key.subject = s) ∧
      fenceSeq = fence ∧ key ∈ host.authority.active
  | _ => False

/-- A check that succeeded with a session at a head. -/
def Accepts (entry : Entry Host Call Reply) (key : SessionKey) (head : Nat) : Prop :=
  match entry.call with
  | .validateOnTimeline _ token timelineHead _ => token.key = key ∧ timelineHead = head ∧ entry.reply = .result (.ok ())
  | .withTokenFence _ token timelineHead _ => token.key = key ∧ timelineHead = head ∧ entry.reply = .result (.ok ())
  | .checkConsent _ _ _ _ timelineHead _ => timelineHead = head ∧
      ∃ token : ConsentCapabilityToken, token.key = key ∧ entry.reply = .checked (.ok token)
  | _ => False

/-! ## Holds on a session's fence -/

def holdOf (reservation : ConsentRevocationReservation) : Hold :=
  ⟨reservation.pendingFenceSeq, reservation.previousFenceSeq⟩

def holdsOf (key : SessionKey) (reservations : List ConsentRevocationReservation) : List Hold :=
  (reservations.filter fun reservation => decide (reservation.key = key)).map holdOf

theorem holdsOf_cons (key : SessionKey) (r : ConsentRevocationReservation) (rest : List ConsentRevocationReservation) :
    holdsOf key (r :: rest) = if r.key = key then holdOf r :: holdsOf key rest else holdsOf key rest := by
  unfold holdsOf
  rw [filter_cons]
  by_cases h : r.key = key
  · rw [if_pos (decide_eq_true h), if_pos h, map_cons]
  · rw [if_neg (by simpa using h), if_neg h]

theorem holdsOf_append (key : SessionKey) (l r : List ConsentRevocationReservation) :
    holdsOf key (l ++ r) = holdsOf key l ++ holdsOf key r := by
  rw [holdsOf, filter_append, map_append]
  rfl

/-- The fence a session has once every reservation held is dropped, newest first. -/
def Host.settledFence (host : Host) (key : SessionKey) : Nat :=
  (host.authority.active.lookup key).elim 0 fun active => settle active.token.fenceSeq (holdsOf key host.reservations)

/-- The sessions carry their own keys, and the reservations are stacked holds on them. -/
structure Host.Wf (host : Host) : Prop where
  named : ∀ ⦃key active⦄, host.authority.active.lookup key = some active →
    active.token.key = key ∧ active.token.authorityId = host.authority.authorityId
  held : ∀ r ∈ host.reservations, r.authorityId = host.authority.authorityId ∧ r.completed = false ∧
    r.pendingFenceSeq ≤ r.fenceSeq ∧ r.fenceSeq < r.previousFenceSeq ∧ r.key ∈ host.authority.active
  stacked : ∀ ⦃key active⦄, host.authority.active.lookup key = some active →
    Stacked active.token.fenceSeq (holdsOf key host.reservations)

/-- What one call may do to a well-formed host: no session goes away or settles higher, and none appears but a granted one. -/
structure Settles (host next : Host) (granted : Option SessionKey) : Prop where
  wf : next.Wf
  kept : ∀ ⦃key active⦄, host.authority.active.lookup key = some active → some key ≠ granted →
    (∃ active', next.authority.active.lookup key = some active') ∧ next.settledFence key ≤ host.settledFence key
  grown : ∀ ⦃key⦄, key ∈ next.authority.active → key ∈ host.authority.active ∨ granted = some key

/-! ## Changes of fences alone -/

/-- The sessions after some fences changed. -/
def Refenced (change : SessionKey → Nat → Nat) (sessions next : ActiveConsentSessions) : Prop :=
  ∀ key, next.lookup key = (sessions.lookup key).map fun active => active.withFence (change key active.token.fenceSeq)

variable {change : SessionKey → Nat → Nat} {sessions : ActiveConsentSessions} {key : SessionKey} {host : Host}
  {r : ConsentRevocationReservation} {older : List ConsentRevocationReservation}

/-- A change that fixes every fence in the table. -/
theorem refenced_self
    (h : ∀ key active, sessions.lookup key = some active → change key active.token.fenceSeq = active.token.fenceSeq) :
    Refenced change sessions sessions := by
  intro key
  rcases hactive : sessions.lookup key with _ | active
  · rfl
  · rw [map_some, h key active hactive]
    rfl

theorem Refenced.mem {next : ActiveConsentSessions} (h : Refenced change sessions next) : key ∈ next ↔ key ∈ sessions := by
  rw [← lookup_isSome, ← lookup_isSome, h key, isSome_map]

variable {fence : Nat} {active : ActiveConsent}

/-- Writing one session back with another fence. -/
theorem refenced_insert (hlookup : sessions.lookup key = some active)
    (hkey : change key active.token.fenceSeq = fence) (hother : ∀ other v, other ≠ key → change other v = v) :
    Refenced change sessions (sessions.insert key (active.withFence fence)) := by
  intro other
  by_cases hne : other = key
  · rw [hne, lookup_insert, hlookup, map_some, hkey]
  · rw [lookup_insert_of_ne _ hne]
    rcases sessions.lookup other with _ | active'
    · rfl
    · rw [map_some, hother other _ hne]
      rfl

theorem refenced_fenceSessions (authority : ConsentAuthority) (fenced : SessionKey → Bool) (fenceSeq : Nat) :
    Refenced (fun key fence => if fenced key then min fence (fenceSeq - 1) else fence) authority.active
      (authority.fenceSessions fenced fenceSeq).active := by
  intro key
  refine (Table.lookup_mapRows _ _ key).trans ?_
  rcases authority.active.lookup key with _ | active
  · rfl
  · rw [map_some, map_some]
    dsimp only
    by_cases h : fenced key = true
    · rw [if_pos h, if_pos h]
    · rw [if_neg h, if_neg h]
      rfl

open Host

/-- A change of fences under which each session's holds stay stacked and settle no higher. -/
theorem settles_of_refenced {reservations : List ConsentRevocationReservation} (hwf : host.Wf)
    (hchange : Refenced change host.authority.active sessions)
    (hheld : ∀ r ∈ reservations, r.authorityId = host.authority.authorityId ∧ r.completed = false ∧
      r.pendingFenceSeq ≤ r.fenceSeq ∧ r.fenceSeq < r.previousFenceSeq ∧ r.key ∈ host.authority.active)
    (hsettle : ∀ key active, host.authority.active.lookup key = some active →
      Stacked active.token.fenceSeq (holdsOf key host.reservations) →
      Stacked (change key active.token.fenceSeq) (holdsOf key reservations) ∧
      settle (change key active.token.fenceSeq) (holdsOf key reservations) ≤
        settle active.token.fenceSeq (holdsOf key host.reservations)) :
    Settles host ⟨host.authority.withSessions sessions, reservations⟩ none where
  wf := by
    refine ⟨fun key active hactive => ?_, fun r hr => ?_, fun key active hactive => ?_⟩
    · have hactive : sessions.lookup key = some active := hactive
      rw [hchange key] at hactive
      obtain ⟨before, hbefore, rfl⟩ := map_eq_some_iff.mp hactive
      have hnamed := hwf.named hbefore
      exact hnamed
    · obtain ⟨hid, hopen, hle, hlt, hmem⟩ := hheld r hr
      exact ⟨hid, hopen, hle, hlt, hchange.mem.mpr hmem⟩
    · have hactive : sessions.lookup key = some active := hactive
      rw [hchange key] at hactive
      obtain ⟨before, hbefore, rfl⟩ := map_eq_some_iff.mp hactive
      exact (hsettle key before hbefore (hwf.stacked hbefore)).1
  kept := by
    intro key active hactive _
    have hnext : sessions.lookup key = some (active.withFence (change key active.token.fenceSeq)) := by
      rw [hchange key, hactive, map_some]
    refine ⟨⟨_, hnext⟩, ?_⟩
    unfold settledFence
    rw [hactive, show (host.authority.withSessions sessions).active.lookup key = _ from hnext]
    exact (hsettle key active hactive (hwf.stacked hactive)).2
  grown := fun _ hkey => .inl (hchange.mem.mp hkey)

/-- Lowering fences without touching a reservation. -/
theorem settles_of_lowered (hwf : host.Wf) (hchange : Refenced change host.authority.active sessions)
    (hle : ∀ key v, change key v ≤ v) : Settles host ⟨host.authority.withSessions sessions, host.reservations⟩ none :=
  settles_of_refenced hwf hchange hwf.held fun key _ _ hstacked =>
    ⟨hstacked.mono (hle key _), settle_mono (hle key _) hstacked⟩

/-! ## Releasing a reservation -/

/-- The fences when the provisional fence of a reservation, if it stands, is replaced. -/
def replaceStanding (r : ConsentRevocationReservation) (fence : Nat) (key : SessionKey) (v : Nat) : Nat :=
  if key = r.key ∧ v = r.pendingFenceSeq then fence else v

theorem refenced_rollback (hopen : r.completed = false) (sessions : ActiveConsentSessions) :
    Refenced (replaceStanding r r.previousFenceSeq) sessions (r.rollback sessions).2 := by
  unfold rollback
  rw [hopen, if_neg Bool.false_ne_true]
  split
  · rename_i active hactive
    split
    · rename_i hstands
      refine refenced_insert hactive (if_pos ⟨rfl, hstands⟩) fun other v hne => if_neg fun h => hne h.1
    · rename_i hstands
      refine refenced_self fun key active' hactive' => if_neg ?_
      rintro ⟨rfl, hstands'⟩
      rw [hactive] at hactive'
      exact hstands (some.inj hactive' ▸ hstands')
  · rename_i hnone
    refine refenced_self fun key active' hactive' => if_neg ?_
    rintro ⟨rfl, -⟩
    exact absurd (hnone.symm.trans hactive') (some_ne_none active').symm

theorem rollback_completed (r : ConsentRevocationReservation) (sessions : ActiveConsentSessions) :
    (r.rollback sessions).1.completed = true := by
  unfold rollback
  split
  · assumption
  · rfl

theorem drop_of_completed (h : r.completed = true) (sessions : ActiveConsentSessions) : r.drop sessions = sessions := by
  unfold ConsentRevocationReservation.drop ConsentRevocationReservation.rollback
  rw [if_pos h]

theorem abortDurable_snd (r : ConsentRevocationReservation) (sessions : ActiveConsentSessions) :
    (r.abortDurable sessions).2 = r.drop sessions :=
  drop_of_completed (rollback_completed r sessions) _

/-- A commit either finds its provisional fence standing and publishes the durable one, or rolls back. -/
theorem commitDurable_cases (r : ConsentRevocationReservation) (sessions : ActiveConsentSessions) :
    (∃ active, sessions.lookup r.key = some active ∧ active.token.fenceSeq = r.pendingFenceSeq ∧
      r.commitDurable sessions = (.ok (), sessions.insert r.key (active.withFence r.fenceSeq))) ∨
    r.commitDurable sessions = (.error .noConsent, r.drop sessions) := by
  unfold commitDurable
  rcases hactive : sessions.lookup r.key with _ | active
  · exact .inr rfl
  · dsimp only
    by_cases hstands : active.token.fenceSeq = r.pendingFenceSeq
    · rw [if_neg (not_not_intro hstands), drop_of_completed rfl]
      exact .inl ⟨active, rfl, hstands, rfl⟩
    · rw [if_pos hstands]
      exact .inr rfl

variable {newer : List ConsentRevocationReservation}

/-- Giving up a reservation: a fence up to the one it found takes the place of a standing provisional one. -/
theorem settles_of_released (hwf : host.Wf)
    (hplace : host.reservations = newer ++ r :: older) (hfence : fence ≤ r.previousFenceSeq)
    (hchange : Refenced (replaceStanding r fence) host.authority.active sessions) :
    Settles host ⟨host.authority.withSessions sessions, newer ++ older⟩ none := by
  refine settles_of_refenced hwf hchange (fun other hother => hwf.held other ?_) fun key active _ hstacked => ?_
  · rw [hplace]
    rcases mem_append.mp hother with h | h
    · exact mem_append_left _ h
    · exact mem_append_right _ (mem_cons_of_mem r h)
  · rw [hplace, holdsOf_append, holdsOf_cons] at hstacked
    rw [hplace, holdsOf_append, holdsOf_append, holdsOf_cons]
    by_cases hkey : r.key = key
    · rw [if_pos hkey] at hstacked ⊢
      by_cases hstands : active.token.fenceSeq = r.pendingFenceSeq
      · have hnewest : holdsOf key newer = [] := newest_of_standing hstacked hstands
        rw [replaceStanding, if_pos ⟨hkey.symm, hstands⟩]
        rw [hnewest, nil_append] at hstacked ⊢
        exact stacked_replace hfence hstands hstacked
      · rw [replaceStanding, if_neg fun h => hstands h.2]
        exact stacked_forget hstacked
    · rw [if_neg hkey] at hstacked ⊢
      rw [replaceStanding, if_neg fun h => hkey h.1.symm]
      exact ⟨hstacked, Nat.le_refl _⟩

variable {place : Nat}

theorem split_at_place {rs : List ConsentRevocationReservation} (h : rs[place]? = some r) :
    rs = rs.take place ++ r :: rs.drop (place + 1) := by
  obtain ⟨hlt, hget⟩ := List.getElem?_eq_some_iff.mp h
  rw [← hget, getElem_cons_drop, take_append_drop]

/-! ## One call -/

theorem wf_new (authorityId : Nat) : (Host.new authorityId).Wf where
  named := fun _ _ h => nomatch (show (none : Option ActiveConsent) = _ from h)
  held := fun _ hr => absurd hr not_mem_nil
  stacked := fun _ _ h => nomatch (show (none : Option ActiveConsent) = _ from h)

section

variable (hwf : host.Wf)

include hwf

/-- A call that leaves everything as it is. -/
theorem Settles.refl : Settles host host none :=
  ⟨hwf, fun _ active hactive _ => ⟨⟨active, hactive⟩, Nat.le_refl _⟩, fun _ hkey => .inl hkey⟩

theorem settles_recordGrant {timeline : TimelineId} {grant : ConsentGrantedV1}
    (hfresh : grant.key timeline ∉ host.authority.active) :
    Settles host (exec host (.recordGrant timeline grant)).1 (some (grant.key timeline)) := by
  have hother : ∀ {key : SessionKey}, key ≠ grant.key timeline →
      (exec host (.recordGrant timeline grant)).1.authority.active.lookup key = host.authority.active.lookup key :=
    fun hne => lookup_insert_of_ne _ hne
  have hself : (exec host (.recordGrant timeline grant)).1.authority.active.lookup (grant.key timeline) =
      some ⟨host.authority.tokenOf timeline grant, grant.expirySecs⟩ := lookup_insert _
  have hunheld : ∀ r ∈ host.reservations, r.key ≠ grant.key timeline :=
    fun r hr hkey => hfresh (hkey ▸ (hwf.held r hr).2.2.2.2)
  refine ⟨⟨fun key active hactive => ?_, fun r hr => ?_, fun key active hactive => ?_⟩,
    fun key active hactive hne => ?_, fun key hkey => ?_⟩
  · by_cases hkey : key = grant.key timeline
    · rw [hkey, hself] at hactive
      cases hactive
      exact ⟨hkey.symm, rfl⟩
    · rw [hother hkey] at hactive
      exact hwf.named hactive
  · obtain ⟨hid, hopen, hle, hlt, hmem⟩ := hwf.held r hr
    exact ⟨hid, hopen, hle, hlt, mem_insert.mpr (.inr hmem)⟩
  · by_cases hkey : key = grant.key timeline
    · -- no reservation can be held on a session that was never granted
      have hnone : holdsOf key host.reservations = [] := by
        rw [holdsOf, filter_eq_nil_iff.mpr, map_nil]
        exact fun r hr hmatch => hunheld r hr ((of_decide_eq_true hmatch).trans hkey)
      rw [show (exec host (.recordGrant timeline grant)).1.reservations = host.reservations from rfl, hnone]
      trivial
    · rw [hother hkey] at hactive
      exact hwf.stacked hactive
  · have hkey : key ≠ grant.key timeline := fun h => hne (congrArg some h)
    refine ⟨⟨active, (hother hkey).trans hactive⟩, ?_⟩
    unfold settledFence
    rw [hother hkey]
    exact Nat.le_refl _
  · rcases mem_insert.mp hkey with h | h
    · exact .inr (congrArg some h.symm)
    · exact .inl h

theorem settles_beginRevocation (timeline : TimelineId) (revocation : ConsentRevokedV1) :
    Settles host (exec host (.beginRevocation timeline revocation)).1 none := by
  rw [exec, beginRevocationOnTimeline]
  rcases hactive : host.authority.active.lookup (revocation.key timeline) with _ | active
  · exact .refl hwf
  dsimp only
  by_cases hfenced : active.token.fenceSeq ≤ revocation.fenceSeq
  · rw [if_pos hfenced]
    exact .refl hwf
  rw [if_neg hfenced]
  have hlt : revocation.fenceSeq < active.token.fenceSeq := Nat.lt_of_not_le hfenced
  have hkeymem : revocation.key timeline ∈ host.authority.active :=
    lookup_isSome.mp (by rw [hactive]; rfl)
  have hchange : Refenced (fun key v => if key = revocation.key timeline then revocation.fenceSeq - 1 else v)
      host.authority.active
      (host.authority.active.insert (revocation.key timeline) (active.withFence (revocation.fenceSeq - 1))) :=
    refenced_insert hactive (if_pos rfl) fun other v hne => if_neg hne
  refine settles_of_refenced hwf hchange (fun r hr => ?_) fun key active' hactive' hstacked => ?_
  · rcases mem_cons.mp hr with rfl | hr
    · exact ⟨rfl, rfl, Nat.sub_le _ _, hlt, hkeymem⟩
    · exact hwf.held r hr
  · rw [holdsOf_cons]
    by_cases hkey : revocation.key timeline = key
    · -- the new hold stands on the fence it found
      subst hkey
      cases hactive.symm.trans hactive'
      rw [if_pos rfl, if_pos rfl]
      obtain ⟨htaken, hsettle⟩ := stacked_take (Nat.lt_of_le_of_lt (Nat.sub_le revocation.fenceSeq 1) hlt) hstacked
      exact ⟨htaken, Nat.le_of_eq hsettle⟩
    · rw [if_neg (Ne.symm hkey), if_neg hkey]
      exact ⟨hstacked, Nat.le_refl _⟩

theorem settles_consume {f : ConsentRevocationReservation → Reply × ConsentAuthority}
    (hf : ∀ newer r older, host.reservations = newer ++ r :: older → Settles host ⟨(f r).2, newer ++ older⟩ none) :
    Settles host (host.consume place f).1 none := by
  unfold consume
  rcases hplace : host.reservations[place]? with _ | r
  · exact .refl hwf
  · rw [eraseIdx_eq_take_drop_succ]
    exact hf _ r _ (split_at_place hplace)

theorem settles_drop (hplace : host.reservations = newer ++ r :: older) :
    Settles host ⟨host.authority.withSessions (r.drop host.authority.active), newer ++ older⟩ none := by
  obtain ⟨-, hopen, -⟩ := hwf.held r (hplace ▸ mem_append_right _ mem_cons_self)
  exact settles_of_released hwf hplace (Nat.le_refl _) (refenced_rollback hopen _)

theorem settles_fenceSessions (fenced : SessionKey → Bool) (fenceSeq : Nat) :
    Settles host { host with authority := host.authority.fenceSessions fenced fenceSeq } none := by
  refine settles_of_lowered hwf (refenced_fenceSessions host.authority fenced fenceSeq) fun key v => ?_
  split
  · exact Nat.min_le_left _ _
  · exact Nat.le_refl _

/-- Every call keeps the host well formed and settles no session higher. -/
theorem settles_exec (call : Call) (hfresh : ∀ key ∈ call.granted, key ∉ host.authority.active) :
    Settles host (exec host call).1 call.granted := by
  cases call with
  | recordGrant timeline grant => exact settles_recordGrant hwf (hfresh _ rfl)
  | beginRevocation timeline revocation => exact settles_beginRevocation hwf timeline revocation
  | commitRevocation place =>
    refine settles_consume hwf fun newer r older hplace => ?_
    obtain ⟨hid, hopen, hpending, hprevious, -⟩ := hwf.held r (hplace ▸ mem_append_right _ mem_cons_self)
    rw [commitRevocation, if_neg (not_not_intro hid)]
    rcases commitDurable_cases r host.authority.active with ⟨active, hactive, hstands, hcommit⟩ | hcommit
    · rw [hcommit]
      exact settles_of_released hwf hplace (Nat.le_of_lt hprevious)
        (refenced_insert hactive (if_pos ⟨rfl, hstands⟩) fun other v hne => if_neg fun h => hne h.1)
    · rw [hcommit]
      exact settles_drop hwf hplace
  | abortRevocation place =>
    refine settles_consume hwf fun newer r older hplace => ?_
    obtain ⟨hid, -⟩ := hwf.held r (hplace ▸ mem_append_right _ mem_cons_self)
    rw [abortRevocation, if_neg (not_not_intro hid)]
    dsimp only
    rw [abortDurable_snd]
    exact settles_drop hwf hplace
  | dropReservation place => exact settles_consume hwf fun newer r older hplace => settles_drop hwf hplace
  | recordRevocation timeline revocation =>
    rw [exec, recordRevocationOnTimeline]
    rcases hactive : host.authority.active.lookup (revocation.key timeline) with _ | active
    · exact .refl hwf
    · have hchange : Refenced (fun key v => if key = revocation.key timeline then min v revocation.fenceSeq else v)
          host.authority.active (host.authority.active.insert (revocation.key timeline)
            (active.withFence (min active.token.fenceSeq revocation.fenceSeq))) :=
        refenced_insert hactive (if_pos rfl) fun other v hne => if_neg hne
      refine settles_of_lowered hwf hchange fun key v => ?_
      split
      · exact Nat.min_le_left _ _
      · exact Nat.le_refl _
  | fenceTimelineAt timeline fenceSeq => exact settles_fenceSessions hwf _ fenceSeq
  | fenceSubjectAt timeline subject fenceSeq => exact settles_fenceSessions hwf _ fenceSeq
  | withRevocationFence timeline subject fenceSeq => exact settles_fenceSessions hwf _ fenceSeq
  | validateOnTimeline timeline token timelineHead nowSecs => exact .refl hwf
  | withTokenFence timeline token timelineHead nowSecs => exact .refl hwf
  | checkConsent iteration timeline subject kind timelineHead nowSecs =>
    rw [exec]
    split <;> exact .refl hwf

end

/-! ## Runs -/

/-- A host before calls that grant each key once, and none that it has. -/
structure Host.Ready (host : Host) (calls : List Call) : Prop where
  wf : host.Wf
  once : (grantedKeys calls).Nodup
  fresh : ∀ key ∈ grantedKeys calls, key ∉ host.authority.active

theorem grantedKeys_cons (call : Call) (calls : List Call) :
    grantedKeys (call :: calls) = call.granted.toList ++ grantedKeys calls := by
  unfold grantedKeys
  rcases h : call.granted with _ | key
  · rw [filterMap_cons_none h, toList_none, nil_append]
  · rw [filterMap_cons_some h, toList_some, singleton_append]

variable {call : Call}

theorem Host.Ready.step {calls : List Call} (h : host.Ready (call :: calls)) :
    Settles host (exec host call).1 call.granted ∧ (exec host call).1.Ready calls := by
  obtain ⟨hwf, honce, hfresh⟩ := h
  rw [grantedKeys_cons] at honce hfresh
  obtain ⟨-, honce, hdisjoint⟩ := nodup_append.mp honce
  have hsettles := settles_exec hwf call fun key hkey =>
    hfresh key (mem_append_left _ (mem_toList.mpr hkey))
  refine ⟨hsettles, hsettles.wf, honce, fun key hkey hmem => ?_⟩
  rcases hsettles.grown hmem with hold | hgranted
  · exact hfresh key (mem_append_right _ hkey) hold
  · exact hdisjoint key (mem_toList.mpr hgranted) key hkey rfl

theorem Host.Ready.final : ∀ {first later : List Call}, host.Ready (first ++ later) →
    (final exec host first).Ready later := by
  intro first
  induction first generalizing host with
  | nil => exact fun h => h
  | cons call first ih => exact fun h => ih h.step.2

/-- A session there at the start stays and never settles higher. -/
theorem settledFence_of_mem_log : ∀ {calls : List Call} {host : Host}, host.Ready calls →
    key ∈ host.authority.active → ∀ e ∈ log exec host calls,
      e.before.Wf ∧ e.before.settledFence key ≤ host.settledFence key := by
  intro calls
  induction calls with
  | nil => exact fun _ _ e he => absurd he not_mem_nil
  | cons call calls ih =>
    intro host hready hkey e he
    rcases mem_cons.mp he with rfl | he
    · exact ⟨hready.wf, Nat.le_refl _⟩
    obtain ⟨hsettles, hnext⟩ := hready.step
    obtain ⟨active, hactive⟩ := isSome_iff_exists.mp (lookup_isSome.mpr hkey)
    have hother : some key ≠ call.granted := fun hgranted =>
      hready.fresh key (by rw [grantedKeys_cons, ← hgranted]; exact mem_cons_self) hkey
    obtain ⟨⟨active', hactive'⟩, hle⟩ := hsettles.kept hactive hother
    obtain ⟨hwf, hlater⟩ := ih hnext (lookup_isSome.mp (by rw [hactive']; rfl)) e he
    exact ⟨hwf, hlater.trans hle⟩

variable {head : Nat}

/-- A check succeeds only below the session's fence. -/
theorem fence_of_accepts {entry : Entry Host Call Reply} (hwf : entry.before.Wf)
    (hexec : exec entry.before entry.call = (entry.after, entry.reply)) (h : Accepts entry key head) :
    ∃ active, entry.before.authority.active.lookup key = some active ∧ head < active.token.fenceSeq := by
  have hreply : (exec entry.before entry.call).2 = entry.reply := congrArg Prod.snd hexec
  have haccepted : ∀ {timeline : TimelineId} {token : ConsentCapabilityToken} {now : Nat}, token.key = key →
      token.timelineId = timeline → validateFromSessions entry.before.authority.active
        ⟨timeline, token.subjectId, token.granteeId, token.grantSeq⟩ token head now = .ok () →
      ∃ active, entry.before.authority.active.lookup key = some active ∧ head < active.token.fenceSeq := by
    intro timeline token now hkey htimeline hok
    obtain ⟨active, hactive, -, hvalid, -⟩ := validateFromSessions_eq_ok.mp hok
    subst htimeline
    exact ⟨active, hkey ▸ hactive, hvalid⟩
  unfold Accepts at h
  split at h
  · rename_i timeline token timelineHead nowSecs hcall
    obtain ⟨hkey, rfl, hok⟩ := h
    rw [hcall, hok] at hreply
    have hcheck := Reply.result.inj hreply
    unfold validateOnTimeline at hcheck
    split at hcheck
    · cases hcheck
    split_ifs at hcheck
    rename_i htimeline
    exact haccepted hkey (not_not.mp htimeline) hcheck
  · rename_i timeline token timelineHead nowSecs hcall
    obtain ⟨hkey, rfl, hok⟩ := h
    rw [hcall, hok] at hreply
    have hcheck := Reply.result.inj hreply
    unfold withTokenFence at hcheck
    split_ifs at hcheck
    rename_i htimeline
    exact haccepted hkey (not_not.mp fun hne => htimeline (.inr hne)) hcheck
  · rename_i iteration timeline subject kind timelineHead nowSecs hcall
    obtain ⟨rfl, token, hkey, hok⟩ := h
    rw [hcall, exec, hok] at hreply
    split at hreply
    · rename_i hiteration
      obtain ⟨key', active, hrow, rfl, hvalid⟩ := row_of_checkConsent (Reply.checked.inj hreply)
      have hactive := mem_iteration hiteration hrow
      rw [← (hwf.named hactive).1, hkey] at hactive
      exact ⟨active, hactive, hvalid⟩
    · cases hreply
  · exact h.elim

/-! ## Dropping every reservation -/

theorem exec_abort_newest (hwf : host.Wf) (hplace : host.reservations = r :: older) :
    (exec host (.abortRevocation 0)).1 = ⟨host.authority.withSessions (r.drop host.authority.active), older⟩ := by
  obtain ⟨hid, -⟩ := hwf.held r (hplace ▸ mem_cons_self)
  rw [exec, consume, hplace, getElem?_cons_zero]
  dsimp only
  rw [abortRevocation, if_neg (not_not_intro hid)]
  dsimp only
  rw [abortDurable_snd]
  rfl

theorem settledFence_abort_newest (hwf : host.Wf) (hplace : host.reservations = r :: older) (key : SessionKey) :
    (exec host (.abortRevocation 0)).1.settledFence key = host.settledFence key := by
  obtain ⟨-, hopen, -⟩ := hwf.held r (hplace ▸ mem_cons_self)
  have hrollback : (r.drop host.authority.active).lookup key = _ := refenced_rollback hopen host.authority.active key
  rw [exec_abort_newest hwf hplace, settledFence, settledFence]
  rw [show (host.authority.withSessions (r.drop host.authority.active)).active.lookup key = _ from hrollback]
  rcases host.authority.active.lookup key with _ | active
  · rfl
  · rw [map_some, elim_some, elim_some, hplace, holdsOf_cons]
    by_cases hkey : r.key = key
    · rw [if_pos hkey, settle]
      refine congrArg (settle · _) ?_
      by_cases hstands : active.token.fenceSeq = r.pendingFenceSeq
      · exact (if_pos ⟨hkey.symm, hstands⟩).trans (if_pos hstands).symm
      · exact (if_neg fun h => hstands h.2).trans (if_neg hstands).symm
    · rw [if_neg hkey]
      exact congrArg (settle · _) (if_neg fun h => hkey h.1.symm)

/-- The calls that drop every reservation, newest first. -/
def dropAll (host : Host) : List Call := List.replicate host.reservations.length (.abortRevocation 0)

theorem final_dropAll : ∀ {reservations : List ConsentRevocationReservation} {host : Host}, host.Wf →
    host.reservations = reservations → key ∈ host.authority.active →
      ∃ active, (final exec host (dropAll host)).authority.active.lookup key = some active ∧
        (final exec host (dropAll host)).Wf ∧ active.token.fenceSeq = host.settledFence key := by
  intro reservations
  induction reservations with
  | nil =>
    intro host hwf hnone hkey
    obtain ⟨active, hactive⟩ := isSome_iff_exists.mp (lookup_isSome.mpr hkey)
    have hdrop : dropAll host = [] := by rw [dropAll, hnone]; rfl
    rw [hdrop]
    refine ⟨active, hactive, hwf, ?_⟩
    rw [settledFence, hactive, hnone]
    rfl
  | cons r older ih =>
    intro host hwf hplace hkey
    have hsettles := settles_exec hwf (.abortRevocation 0) fun key hkey => nomatch hkey
    obtain ⟨active, hactive⟩ := isSome_iff_exists.mp (lookup_isSome.mpr hkey)
    obtain ⟨⟨active', hactive'⟩, -⟩ := hsettles.kept hactive (some_ne_none key)
    have hnext : (exec host (.abortRevocation 0)).1.reservations = older := by rw [exec_abort_newest hwf hplace]
    have hdrop : dropAll host = .abortRevocation 0 :: dropAll (exec host (.abortRevocation 0)).1 := by
      rw [dropAll, dropAll, hnext, hplace]
      rfl
    rw [hdrop, ← settledFence_abort_newest hwf hplace key]
    exact ih hsettles.wf hnext (lookup_isSome.mp (by rw [hactive']; rfl))

/-- A session checks out with its own token below its fence at time zero. -/
theorem validateOnTimeline_own (hwf : host.Wf)
    (hactive : host.authority.active.lookup key = some active) (hhead : head < active.token.fenceSeq) :
    host.authority.validateOnTimeline key.timeline active.token head 0 = .ok () := by
  obtain ⟨hkey, hid⟩ := hwf.named hactive
  have htimeline : active.token.timelineId = key.timeline := congrArg SessionKey.timeline hkey
  rw [validateOnTimeline, if_neg (not_not_intro hid), if_neg (not_not_intro htimeline), ← htimeline]
  refine validateFromSessions_eq_ok.mpr ⟨active, ?_, rfl, hhead, ?_⟩
  · exact (congrArg (host.authority.active.lookup ·) hkey).trans hactive
  · exact isExpired_eq_false.mpr (Nat.eq_zero_or_pos _)

/-! ## Published fences -/

theorem Publishes.session (hwf : host.Wf) (h : Publishes host call key fence) :
    key ∈ host.authority.active ∧ call.granted = none := by
  cases call with
  | commitRevocation place =>
    obtain ⟨r, hplace, rfl, -⟩ := h
    exact ⟨(hwf.held r (mem_of_getElem? hplace)).2.2.2.2, rfl⟩
  | recordRevocation timeline revocation =>
    obtain ⟨rfl, -, hok⟩ := h
    refine ⟨lookup_isSome.mp ?_, rfl⟩
    rw [exec, recordRevocationOnTimeline] at hok
    rcases hactive : host.authority.active.lookup (revocation.key timeline) with _ | active
    · rw [hactive] at hok
      cases hok
    · rfl
  | fenceTimelineAt timeline fenceSeq => exact ⟨h.2.2, rfl⟩
  | fenceSubjectAt timeline subject fenceSeq => exact ⟨h.2.2.2, rfl⟩
  | withRevocationFence timeline subject fenceSeq => exact ⟨h.2.2.2, rfl⟩
  | _ => exact h.elim

/-- In every run, a fence published for a session is undone by no later call exactly when dropping the
reservations then held would leave the session fenced at or below it. -/
theorem published_fence_stands_iff (authorityId : Nat) (calls : List Call) (call : Call) (key : SessionKey) (fence : Nat)
    (honce : (grantedKeys (calls ++ [call])).Nodup)
    (hpublished : Publishes (final exec (Host.new authorityId) calls) call key fence) :
    (∀ later, (grantedKeys (calls ++ call :: later)).Nodup →
      ∀ entry ∈ log exec (exec (final exec (Host.new authorityId) calls) call).1 later,
        ∀ head, fence ≤ head → ¬ Accepts entry key head) ↔
    (exec (final exec (Host.new authorityId) calls) call).1.settledFence key ≤ fence := by
  have hready : ∀ {later : List Call}, (grantedKeys (calls ++ call :: later)).Nodup →
      (final exec (new authorityId) calls).Ready (call :: later) := fun hnodup =>
    Ready.final ⟨wf_new authorityId, hnodup, fun _ _ hmem => notMem_empty hmem⟩
  generalize final exec (new authorityId) calls = host at hpublished hready ⊢
  obtain ⟨hkey, hgranted⟩ := hpublished.session (hready honce).wf
  obtain ⟨active, hactive⟩ := isSome_iff_exists.mp (lookup_isSome.mpr hkey)
  obtain ⟨hsettles, -⟩ := (hready honce).step
  obtain ⟨⟨active', hactive'⟩, -⟩ := hsettles.kept hactive (hgranted ▸ some_ne_none key)
  have hkey' : key ∈ (exec host call).1.authority.active := lookup_isSome.mp (by rw [hactive']; rfl)
  constructor
  · intro hstands
    by_contra habove
    have habove : fence < (exec host call).1.settledFence key := Nat.lt_of_not_le habove
    obtain ⟨restored, hrestored, hwf, hfence⟩ := final_dropAll hsettles.wf rfl hkey'
    let check : Call := .validateOnTimeline key.timeline restored.token fence 0
    have hungranted : grantedKeys (dropAll (exec host call).1 ++ [check]) = [] := by
      refine filterMap_eq_nil_iff.mpr fun c hc => ?_
      rcases mem_append.mp hc with hc | hc
      · rw [eq_of_mem_replicate hc]
        rfl
      · rw [mem_singleton.mp hc]
        rfl
    have hnodup : (grantedKeys (calls ++ call :: (dropAll (exec host call).1 ++ [check]))).Nodup := by
      rw [grantedKeys, filterMap_append] at honce ⊢
      rw [filterMap_cons_none hgranted] at honce ⊢
      rwa [show filterMap Call.granted _ = _ from hungranted]
    refine hstands _ hnodup _ (mem_log_last _ _ check) fence (Nat.le_refl _) ?_
    exact ⟨(hwf.named hrestored).1, rfl, congrArg Reply.result (validateOnTimeline_own hwf hrestored (hfence ▸ habove))⟩
  · intro hsettled later hnodup entry hentry head hhead haccepts
    obtain ⟨hwf, hle⟩ := settledFence_of_mem_log (hready hnodup).step.2 hkey' entry hentry
    obtain ⟨session, hsession, hvalid⟩ := fence_of_accepts hwf (exec_of_mem_log hentry) haccepts
    have hfence : session.token.fenceSeq ≤ entry.before.settledFence key := by
      rw [settledFence, hsession]
      exact le_settle (hwf.stacked hsession)
    omega

/-! ## A fence undone -/

def sampleGrant : ConsentGrantedV1 := ⟨⟨5⟩, ⟨6⟩, modalityLocation, 0, false, false, 0, 0, 42⟩

def sampleRevocation : ConsentRevokedV1 := ⟨⟨5⟩, ⟨6⟩, 42, 100⟩

/-- A session with a revocation reserved at sequence 100. -/
def reservedCalls : List Call := [.recordGrant ⟨1⟩ sampleGrant, .beginRevocation ⟨1⟩ sampleRevocation]

/-- A Timeline fenced at sequence 100 while a reservation stands at that very value is open again after the abort. -/
theorem abort_undoes_fence :
    Publishes (final exec (Host.new 1) reservedCalls) (.fenceTimelineAt ⟨1⟩ 100) (sampleGrant.key ⟨1⟩) 100 ∧
    ∃ entry ∈ log exec (exec (final exec (Host.new 1) reservedCalls) (.fenceTimelineAt ⟨1⟩ 100)).1
      [.abortRevocation 0, .validateOnTimeline ⟨1⟩ ((ConsentAuthority.new 1).tokenOf ⟨1⟩ sampleGrant) 100 0],
      Accepts entry (sampleGrant.key ⟨1⟩) 100 := by
  refine ⟨⟨rfl, rfl, by decide +kernel⟩, _, mem_cons_of_mem _ mem_cons_self, rfl, rfl, ?_⟩
  rfl

theorem commit_stands :
    Publishes (final exec (Host.new 1) reservedCalls) (.commitRevocation 0) (sampleGrant.key ⟨1⟩) 100 ∧
    ∀ later, (grantedKeys (reservedCalls ++ .commitRevocation 0 :: later)).Nodup →
      ∀ entry ∈ log exec (exec (final exec (Host.new 1) reservedCalls) (.commitRevocation 0)).1 later,
        ∀ head, 100 ≤ head → ¬ Accepts entry (sampleGrant.key ⟨1⟩) head := by
  have hpublished :
      Publishes (final exec (new 1) reservedCalls) (.commitRevocation 0) (sampleGrant.key ⟨1⟩) 100 :=
    ⟨_, rfl, rfl, rfl, rfl⟩
  exact ⟨hpublished,
    (published_fence_stands_iff 1 reservedCalls (.commitRevocation 0) _ 100 (by decide +kernel) hpublished).mpr
      (by decide +kernel)⟩

end Piglor.Consent
