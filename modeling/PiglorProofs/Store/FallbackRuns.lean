/-
The registry over runs of the store: every history folds, every stored row is the fold of its
Timeline's history, its ledger is in sequence, and the stored policies are the declared ones. One step
keeps this whatever the operation, so it holds over every run without colliding digests.
-/
import PiglorProofs.Store.Adapter
import PiglorProofs.Store.FallbackLedger
import PiglorProofs.Store.FallbackPlan
import PiglorProofs.Store.Histories

namespace Piglor

open Checked Fallback List Finmap MemoryCompositionFallbackStateV1 FallbackLedgerRowV1 MemoryStore DomainFallbackPolicyV1

/-! ## Folding histories -/

theorem foldlM_logicalEventsFrom {β : Type} {f : β → Event → FallbackResult β}
    (hf : ∀ b (e : Event) n, f b { e with seq := n } = f b e) :
    ∀ (k : Nat) (es : List Event) (b : β), (logicalEventsFrom k es).foldlM f b = es.foldlM f b
  | _, [], _ => rfl
  | k, e :: es, b => by
    rw [logicalEventsFrom_cons, foldlM_cons, foldlM_cons, hf]
    exact congrArg _ (funext fun b' => foldlM_logicalEventsFrom hf (k + 1) es b')

def FallbackDeclareRequestV1.occupies (blake3 : ByteHash) (request : FallbackDeclareRequestV1)
    (row : FallbackLedgerRowV1) : Bool :=
  match DomainFallbackPolicyV1.fromCanonicalCbor blake3 request.policyBytes with
  | .ok policy => row.declares policy.policyDigest
  | .error _ => false

variable {blake3 : ByteHash} {policy : DomainFallbackPolicyV1}

theorem FallbackDeclareRequestV1.occupies_eq (request : FallbackDeclareRequestV1)
    (h : fromCanonicalCbor blake3 request.policyBytes = .ok policy) :
    request.occupies blake3 = fun row => row.declares policy.policyDigest := by
  funext row
  rw [occupies, h]

variable {scope : String} {t : TimelineId} {occupies : FallbackLedgerRowV1 → Bool} {x x' : RegistryStore}
  {F F' : CowForest TimelineId Event} {ports : FallbackPortsV1} {requestDigest : Hash} {entity : EntityId}
  {es : List Event}

namespace RegistryStore

variable {codec : FallbackCodecV1}

/-- The fold of a history over the store's policies. -/
def folded (codec : FallbackCodecV1) (x : RegistryStore) (scope : String) (h : List Event) : FallbackResult FallbackFoldV1 :=
  h.foldlM (foldEvent codec x.fallbackView scope) .default

def PoliciesIn (x x' : RegistryStore) : Prop := ∀ {digest bytes},
  x.compositionFallback.policies.lookup digest = some bytes → x'.compositionFallback.policies.lookup digest = some bytes

variable {fold fold' : FallbackFoldV1}

theorem PoliciesIn.event (hle : x.PoliciesIn x') {event : Event}
    (h : foldEvent codec x.fallbackView scope fold event = .ok fold') :
    foldEvent codec x'.fallbackView scope fold event = .ok fold' := by
  refine foldEvent_mono (fun {digest bytes} hstored => ?_) h
  exact congrArg Except.ok (hle (Except.ok.inj hstored))

variable {h : List Event}

theorem PoliciesIn.folded (hle : x.PoliciesIn x')
    (hfold : x.folded codec scope h = .ok fold) : x'.folded codec scope h = .ok fold :=
  foldlM_mono (fun hstep => hle.event hstep) hfold

theorem folded_concat {event : Event}
    (hfold : x.folded codec scope h = .ok fold) (hevent : foldEvent codec x.fallbackView scope fold event = .ok fold') :
    x.folded codec scope (h ++ [event]) = .ok fold' := by
  refine foldlM_append_eq_ok.mpr ⟨fold, hfold, ?_⟩
  rw [foldlM_cons, hevent]
  rfl

theorem folded_take (hfold : x.folded codec scope h = .ok fold)
    (n : Nat) : ∃ fold', x.folded codec scope (h.take n) = .ok fold' := by
  rw [← take_append_drop n h] at hfold
  obtain ⟨fold', hfold', -⟩ := foldlM_append_eq_ok.mp hfold
  exact ⟨fold', hfold'⟩

theorem foldTimeline_of_collect (hevents : x.store.collectEventsInRange t .all = .ok (logicalEvents h)) :
    foldTimeline codec x.fallbackView scope t = x.folded codec scope h := by
  have hview : x.fallbackView.timelineEvents t = .ok (logicalEvents h) := by
    show (x.store.collectEventsInRange t .all).mapError _ = _
    rw [hevents]
    rfl
  rw [foldTimeline, hview, ok_bind]
  exact foldlM_logicalEventsFrom (fun _ _ _ => rfl) 0 h _

theorem folded_append_other (hother : ∀ e ∈ es, e.eventType ≠ compositionFallbackDeclaredEventTypeV1 ∧
      e.eventType ≠ compositionFallbackActivatedEventTypeV1) (hfold : x.folded codec scope h = .ok fold) :
    x.folded codec scope (h ++ es) = .ok fold := by
  refine foldlM_append_eq_ok.mpr ⟨fold, hfold, ?_⟩
  induction es with
  | nil => rfl
  | cons e es ih =>
    obtain ⟨⟨hdeclared, hactivated⟩, hes⟩ := forall_mem_cons.mp hother
    rw [foldlM_cons, foldEvent, if_neg hdeclared, if_neg hactivated, ok_bind]
    exact ih hes

/-! ## The invariant -/

/-- Every history folds, rows and ledgers are those of the folds, and policies were declared. -/
structure Consistent (blake3 : ByteHash) (hashed : List (List UInt8)) (x : RegistryStore)
    (F : CowForest TimelineId Event) : Prop where
  wf : x.store.WF F
  folds : ∀ {t h}, F.History t h → ∀ scope, ∃ fold, x.folded (fallbackPorts blake3).toFallbackCodecV1 scope h = .ok fold
  rows : ∀ {scope t row}, x.compositionFallback.rows.lookup (scope, t) = some row → F.Sound t ∧
    ∃ h fold, F.History t h ∧ x.folded (fallbackPorts blake3).toFallbackCodecV1 scope h = .ok fold ∧ row.state = fold.state
  absent : ∀ {scope t}, x.compositionFallback.rows.lookup (scope, t) = none → x.compositionFallback.ledger scope t = []
  ledgers : ∀ {scope t row}, x.compositionFallback.rows.lookup (scope, t) = some row →
    Ledgered row.entity row.state (x.compositionFallback.ledger scope t)
  policies : ∀ {digest bytes}, x.compositionFallback.policies.lookup digest = some bytes →
    ∃ request : FallbackDeclareRequestV1, (∀ b ∈ request.hashed blake3, b ∈ hashed) ∧ request.policyBytes = bytes ∧
      ∃ policy, DomainFallbackPolicyV1.fromCanonicalCbor blake3 bytes = .ok policy ∧ policy.policyDigest = digest

variable {hashed : List (List UInt8)}

theorem Consistent.blank (hstore : x.store.Blank) (hregistry : x.compositionFallback = .default) :
    x.Consistent blake3 hashed ⟨fun _ => none, by intro _ _ _ _ h; cases h⟩ where
  wf := hstore.wf
  folds h := by
    obtain ⟨l, hl⟩ := h.log
    cases hl
  rows h := by rw [hregistry] at h; cases h
  absent _ := by rw [hregistry]; rfl
  ledgers h := by rw [hregistry] at h; cases h
  policies h := by rw [hregistry] at h; cases h

/-- A readable Timeline: the valid fold of its sound history, with which the scope's row and ledger agree. -/
structure Found (blake3 : ByteHash) (x : RegistryStore) (F : CowForest TimelineId Event) (scope : String)
    (t : TimelineId) (h : List Event) (fold : FallbackFoldV1) : Prop where
  sound : F.Sound t
  history : F.History t h
  folds : x.folded (fallbackPorts blake3).toFallbackCodecV1 scope h = .ok fold
  valid : fold.Valid h.length
  agrees : Agrees (fallbackPorts blake3).toFallbackCodecV1 x.fallbackView scope t
    (x.compositionFallback.rows.lookup (scope, t)) (x.compositionFallback.ledger scope t) fold

theorem Consistent.found (hx : x.Consistent blake3 hashed F) (scope : String) (t : TimelineId) :
    foldTimeline (fallbackPorts blake3).toFallbackCodecV1 x.fallbackView scope t = .error .timelineUnavailable ∨
    ∃ h fold, Found blake3 x F scope t h fold := by
  rcases ok_or_error (x.store.collectEventsInRange t .all) with ⟨events, hevents⟩ | ⟨e, herror⟩
  · obtain ⟨hsound, h, hh, rfl⟩ := hx.wf.sound_of_collect hevents
    rw [filter_all] at hevents
    obtain ⟨fold, hfold⟩ := hx.folds hh scope
    have hstate : ∀ row ∈ x.compositionFallback.rows.lookup (scope, t), row.state = fold.state := by
      intro row hrow
      obtain ⟨-, h', fold', hh', hfold', hstate⟩ := hx.rows hrow
      obtain rfl := hh.functional hh'
      rw [hfold] at hfold'
      cases hfold'
      exact hstate
    refine .inr ⟨h, fold, hsound, hh, hfold, valid_of_fold hfold, ⟨rfl, rfl, ?_, hx.absent, hstate, ?_⟩⟩
    · rw [foldTimeline_of_collect hevents, hfold]
    · intro last hlast
      cases hrow : x.compositionFallback.rows.lookup (scope, t) with
      | none =>
        rw [hx.absent hrow] at hlast
        cases hlast
      | some row => rw [(hx.ledgers hrow).last last hlast, hstate row hrow]
  · left
    have hview : x.fallbackView.timelineEvents t = .error .timelineUnavailable := by
      show (x.store.collectEventsInRange t .all).mapError _ = _
      rw [herror]
      rfl
    rw [foldTimeline, hview, error_bind]

/-! ## Other operations -/

/-- A change of the Timelines that appends no registry Event keeps the invariant. -/
theorem Consistent.other (hx : x.Consistent blake3 hashed F) (hwf : x'.store.WF F')
    (hgrows : F.Grows F' t es) (hother : ∀ e ∈ es, e.eventType ≠ compositionFallbackDeclaredEventTypeV1 ∧
      e.eventType ≠ compositionFallbackActivatedEventTypeV1)
    (hrows : x'.compositionFallback.rows = x.compositionFallback.rows)
    (hledgers : x'.compositionFallback.ledgers = x.compositionFallback.ledgers)
    (hpolicies : x'.compositionFallback.policies = x.compositionFallback.policies) : x'.Consistent blake3 hashed F' := by
  have hle : x.PoliciesIn x' := fun h => by rwa [hpolicies]
  have hledger : ∀ scope t, x'.compositionFallback.ledger scope t = x.compositionFallback.ledger scope t := by
    intro scope t
    rw [ledger, ledger, hledgers]
  refine ⟨hwf, ?_, ?_, ?_, ?_, ?_⟩
  · intro j h hj scope
    refine hgrows.forall_history (P := fun h => ∃ fold, x'.folded _ scope h = .ok fold) ⟨_, rfl⟩ ?_ ?_ ?_ hj
    · rintro h ⟨fold, hfold⟩ n
      exact folded_take hfold n
    · intro j h hj
      obtain ⟨fold, hfold⟩ := hx.folds hj scope
      exact ⟨fold, hle.folded hfold⟩
    · intro h hj
      obtain ⟨fold, hfold⟩ := hx.folds hj scope
      exact ⟨fold, folded_append_other hother (hle.folded hfold)⟩
  · intro scope j row hrow
    rw [hrows] at hrow
    obtain ⟨hsound, h, fold, hh, hfold, hstate⟩ := hx.rows hrow
    refine ⟨hgrows.sound hsound, _, fold, hgrows.history hh, ?_, hstate⟩
    split_ifs
    · exact folded_append_other hother (hle.folded hfold)
    · rw [append_nil]
      exact hle.folded hfold
  · intro scope j hrow
    rw [hledger]
    exact hx.absent (hrows ▸ hrow)
  · intro scope j row hrow
    rw [hledger]
    exact hx.ledgers (hrows ▸ hrow)
  · intro digest bytes hbytes
    exact hx.policies (hpolicies ▸ hbytes)

/-! ## Registry writes -/

/-- What a registry write can do: refuse, repeat a row, or commit after appending its one Event. -/
inductive Wrote (ports : FallbackPortsV1) (x : RegistryStore) (F : CowForest TimelineId Event) (scope : String)
    (t : TimelineId) (plan : FallbackResult FallbackPlanV1) :
    FallbackResult FallbackCommitReceiptV1 × RegistryStore → Prop where
  | refused {e : CompositionFallbackRegistryErrorV1} (why : e = .missingState ∨ e = .eventRejected ∨ plan = .error e) :
      Wrote ports x F scope t plan (.error e, x)
  | replayed {row : FallbackLedgerRowV1} (planned : plan = .ok (.replay row)) :
      Wrote ports x F scope t plan (.ok ⟨row, .idempotentReplay⟩, x)
  | committed {commit : FallbackCommitV1} {identity : FallbackEventIdentityV1} {event : Event} {store : MemoryStore}
      {F' : CowForest TimelineId Event} (planned : plan = .ok (.commit commit)) (wf : store.WF F')
      (frame : x.store.Frame store) (grows : F.Grows F' t [event]) (eventType : event.eventType = commit.draft.eventType)
      (payload : event.payload = commit.draft.payload) :
      Wrote ports x F scope t plan (.ok ⟨commit.ledgerRow identity, .committed⟩,
        ⟨store, x.compositionFallback.commit scope t commit (commit.ledgerRow identity)⟩)

theorem fencedFallbackOperation_wrote (ports : FallbackPortsV1) (hwf : x.store.WF F) (scope : String) (t : TimelineId)
    (plan : FallbackReadsV1 → FallbackResult FallbackPlanV1) (draw : Draw) :
    Wrote ports x F scope t (plan x.fallbackView) (x.fencedFallbackOperation ports scope t plan draw) := by
  unfold fencedFallbackOperation
  split
  · rename_i e hprovisioned
    refine .refused (.inl ?_)
    exact (check_eq_error.mp hprovisioned).2
  split
  · exact .refused (.inr (.inl rfl))
  rename_i hfence
  split
  · rename_i e hplan
    exact .refused (.inr (.inr hplan))
  rename_i planned hplan
  cases planned with
  | replay row => exact .replayed hplan
  | commit commit =>
    rw [writeFallbackPlan]
    split
    · rename_i e hdigest
      refine .refused (.inr (.inl ?_))
      unfold payloadDigest at hdigest
      split_ifs at hdigest
      cases hdigest
      rfl
    · rename_i digest hdigest
      rw [guardedGenericAppend_eq hfence]
      dsimp only
      obtain ⟨F', es, hwf', hgrows, happended⟩ := append_grows hwf t [commit.draft] fun _ => draw
      have hframe := x.store.append_frame t [commit.draft] fun _ => draw
      rcases hresult : (x.store.append t [commit.draft] fun _ => draw).1 with e | shown
      · -- a refused append of one Event leaves the store
        have hsame := (happended.error hresult (.inl Nat.le.refl)).2
        rw [hsame]
        exact .refused (.inr (.inl rfl))
      · obtain ⟨hlength, hshown⟩ := happended.ok hresult
        obtain ⟨event, rfl⟩ := length_eq_one_iff.mp hlength
        obtain ⟨first, rfl⟩ := length_eq_one_iff.mp hshown
        obtain ⟨-, hdraft, -⟩ := happended.drawn
        refine .committed hplan hwf' hframe hgrows ?_ ?_
        · exact congrArg EventDraft.eventType hdraft
        · exact congrArg EventDraft.payload hdraft

theorem ledger_commit (state : MemoryCompositionFallbackStateV1) (scope : String) (t : TimelineId)
    (commit : FallbackCommitV1) (row : FallbackLedgerRowV1) (scope' : String) (t' : TimelineId) :
    (state.commit scope t commit row).ledger scope' t' =
      if (scope', t') = (scope, t) then state.ledger scope t ++ [row] else state.ledger scope' t' := by
  unfold MemoryCompositionFallbackStateV1.commit
  rw [ledger]
  split_ifs with hkey
  · rw [hkey, lookup_insert]
    rfl
  · rw [lookup_insert_of_ne _ hkey]
    rfl

variable {event : Event} {store : MemoryStore} {commit : FallbackCommitV1} {identity : FallbackEventIdentityV1}
  {request : FallbackDeclareRequestV1} {row : FallbackLedgerRowV1}

/-- A commit whose row is the fold of its own Event keeps the invariant. -/
theorem Consistent.committed (hx : x.Consistent blake3 hashed F) (hfound : Found blake3 x F scope t h fold)
    (hwf : store.WF F') (hgrows : F.Grows F' t [event])
    (hx' : x' = ⟨store, x.compositionFallback.commit scope t commit row⟩) (hle : x.PoliciesIn x')
    (hevent : foldEvent (fallbackPorts blake3).toFallbackCodecV1 x'.fallbackView scope fold event = .ok fold')
    (hother : ∀ scope' ≠ scope, ∀ fold,
      foldEvent (fallbackPorts blake3).toFallbackCodecV1 x'.fallbackView scope' fold event = .ok fold)
    (hrow : commit.row = ⟨entity, fold'.state⟩)
    (hledger : Ledgered entity fold'.state (x.compositionFallback.ledger scope t ++ [row]))
    (hpolicies : ∀ {digest bytes}, x'.compositionFallback.policies.lookup digest = some bytes →
      ∃ request : FallbackDeclareRequestV1, (∀ b ∈ request.hashed blake3, b ∈ hashed) ∧ request.policyBytes = bytes ∧
        ∃ policy, fromCanonicalCbor blake3 bytes = .ok policy ∧ policy.policyDigest = digest) :
    x'.Consistent blake3 hashed F' := by
  -- every scope folds the new Event: the written one to its next state, the others without a change
  have hstep : ∀ {h₀ fold₀}, F.History t h₀ → ∀ scope',
      x.folded (fallbackPorts blake3).toFallbackCodecV1 scope' h₀ = .ok fold₀ →
      ∃ fold₁, x'.folded (fallbackPorts blake3).toFallbackCodecV1 scope' (h₀ ++ [event]) = .ok fold₁ ∧
        (scope' ≠ scope → fold₁ = fold₀) := by
    intro h₀ fold₀ hh₀ scope' hfold₀
    by_cases hscope : scope' = scope
    · subst hscope
      obtain rfl := hfound.history.functional hh₀
      exact ⟨fold', folded_concat (hle.folded hfound.folds) hevent, fun hne => absurd rfl hne⟩
    · exact ⟨fold₀, folded_concat (hle.folded hfold₀) (hother scope' hscope fold₀), fun _ => rfl⟩
  have hrows : x'.compositionFallback.rows = x.compositionFallback.rows.insert (scope, t) commit.row := by rw [hx']; rfl
  have hledgers : ∀ scope' t', x'.compositionFallback.ledger scope' t' =
      if (scope', t') = (scope, t) then x.compositionFallback.ledger scope t ++ [row]
      else x.compositionFallback.ledger scope' t' := by
    rw [hx']
    exact ledger_commit _ _ _ _ _
  refine ⟨by rw [hx']; exact hwf, ?_, ?_, ?_, ?_, hpolicies⟩
  · intro j h₁ hj scope'
    refine hgrows.forall_history (P := fun h => ∃ fold, x'.folded _ scope' h = .ok fold) ⟨_, rfl⟩ ?_ ?_ ?_ hj
    · rintro h₀ ⟨fold₀, hfold₀⟩ n
      exact folded_take hfold₀ n
    · intro k h₀ hk
      obtain ⟨fold₀, hfold₀⟩ := hx.folds hk scope'
      exact ⟨fold₀, hle.folded hfold₀⟩
    · intro h₀ hh₀
      obtain ⟨fold₀, hfold₀⟩ := hx.folds hh₀ scope'
      obtain ⟨fold₁, hfold₁, -⟩ := hstep hh₀ scope' hfold₀
      exact ⟨fold₁, hfold₁⟩
  · intro scope' j stored hstored
    rw [hrows] at hstored
    rcases Table.lookup_insert_eq_some.mp hstored with ⟨hkey, rfl⟩ | ⟨hkey, hstored⟩
    · cases hkey
      refine ⟨hgrows.sound hfound.sound, h ++ [event], fold', ?_, folded_concat (hle.folded hfound.folds) hevent, by rw [hrow]⟩
      have hgrown := hgrows.history hfound.history
      rwa [if_pos rfl] at hgrown
    · obtain ⟨hs, h₀, fold₀, hh₀, hfold₀, hstate⟩ := hx.rows hstored
      have hgrown := hgrows.history hh₀
      split_ifs at hgrown with hj
      · -- a row of another scope on the same Timeline
        subst hj
        obtain ⟨fold₁, hfold₁, hsame⟩ := hstep hh₀ scope' hfold₀
        have hscope : scope' ≠ scope := fun heq => hkey (by rw [heq])
        exact ⟨hgrows.sound hs, _, fold₁, hgrown, hfold₁, by rw [hsame hscope, hstate]⟩
      · rw [append_nil] at hgrown
        exact ⟨hgrows.sound hs, h₀, fold₀, hgrown, hle.folded hfold₀, hstate⟩
  · intro scope' j hnone
    rw [hrows] at hnone
    obtain ⟨hkey, hnone⟩ := Table.lookup_insert_eq_none.mp hnone
    rw [hledgers, if_neg hkey]
    exact hx.absent hnone
  · intro scope' j stored hstored
    rw [hrows] at hstored
    rw [hledgers]
    rcases Table.lookup_insert_eq_some.mp hstored with ⟨hkey, rfl⟩ | ⟨hkey, hstored⟩
    · rw [if_pos hkey, hrow]
      exact hledger
    · rw [if_neg hkey]
      exact hx.ledgers hstored

/-! ## Declarations and activations -/

structure Took (F F' : CowForest TimelineId Event) (store : MemoryStore) (t : TimelineId) (event : Event)
    (draft : EventDraft) : Prop where
  wf : store.WF F'
  grows : F.Grows F' t [event]
  eventType : event.eventType = draft.eventType
  payload : event.payload = draft.payload

/-- A history that took one more Event had room for it. -/
theorem Took.room {draft : EventDraft} (htook : Took F F' store t event draft) (hh : F.History t h) :
    h.length + 1 ≤ u64Max := by
  have hgrown := htook.grows.history hh
  rw [if_pos rfl] at hgrown
  obtain ⟨st, hst⟩ := history_lookup htook.wf.toRefines hgrown
  have hfits := (htook.wf.length_history hst hgrown).2
  rwa [length_append] at hfits

theorem Consistent.ledgered (hx : x.Consistent blake3 hashed F) (hfound : Found blake3 x F scope t h fold)
    (hentity : ∀ row ∈ x.compositionFallback.rows.lookup (scope, t), row.entity = entity) :
    Ledgered entity fold.state (x.compositionFallback.ledger scope t) := by
  cases hrow : x.compositionFallback.rows.lookup (scope, t) with
  | none =>
    rw [hx.absent hrow]
    exact .nil _ _
  | some row =>
    have hledger := hx.ledgers hrow
    rwa [hentity row hrow, hfound.agrees.state row hrow] at hledger

/-- The row of a commit continues the ledger when its body does. -/
theorem Found.ledgered_concat (hfound : Found blake3 x F scope t h fold) (hroom : h.length + 1 ≤ u64Max)
    (hledger : Ledgered entity fold.state (x.compositionFallback.ledger scope t))
    (hrow : commit.row = ⟨entity, fold'.state⟩) (hseq : commit.rowSeq = nextRowSeq (x.compositionFallback.ledger scope t))
    (hrevision : fold'.state.stateRevision = saturatingAdd fold.state.stateRevision 1)
    (hordinal : ∀ ordinal ∈ (commit.ledgerRow identity).activationOrdinal,
      ordinal = fold.state.activationOrdinal + 1 ∧ fold'.state.activationOrdinal = ordinal)
    (hordinal' : (commit.ledgerRow identity).activationOrdinal = none →
      fold'.state.activationOrdinal = fold.state.activationOrdinal)
    (hdeclares : ∀ digest, (commit.ledgerRow identity).declares digest = true →
      (x.compositionFallback.ledger scope t).find? (fun row => row.declares digest) = none)
    (hcloses : ∀ key closing, (commit.ledgerRow identity).closes key closing = true →
      (x.compositionFallback.ledger scope t).find? (fun row => row.closes key closing) = none) :
    Ledgered entity fold'.state (x.compositionFallback.ledger scope t ++ [commit.ledgerRow identity]) := by
  have hfits := hfound.valid.revision
  have hlength := hledger.length
  rw [saturatingAdd_of_le (by omega)] at hrevision
  refine hledger.concat ⟨?_, ?_, ?_, hrevision, hordinal, hordinal', hdeclares, hcloses⟩
  · show commit.row.entity = _
    rw [hrow]
  · show commit.rowSeq = _
    rw [hseq]
    exact saturatingAdd_of_le (by omega)
  · show commit.row.state.stateRevision = _
    rw [hrow]
    exact hrevision

theorem Consistent.commitDeclaration (hfree : CollisionFree blake3 hashed) (hx : x.Consistent blake3 hashed F)
    (hhashed : ∀ b ∈ request.hashed blake3, b ∈ hashed)
    (hfound : Found blake3 x F request.scope request.target.timeline h fold)
    (hpolicy : fromCanonicalCbor blake3 request.policyBytes = .ok policy)
    (hentity : ∀ row ∈ x.compositionFallback.rows.lookup (request.scope, request.target.timeline),
      row.entity = request.target.entity)
    (hfresh : (x.compositionFallback.ledger request.scope request.target.timeline).find?
      (fun row => row.declares policy.policyDigest) = none)
    (hcommit : CommitsDeclaration (fallbackPorts blake3) request fold
      (x.compositionFallback.ledger request.scope request.target.timeline) policy commit)
    (htook : Took F F' store request.target.timeline event commit.draft) :
    (⟨store, x.compositionFallback.commit request.scope request.target.timeline commit (commit.ledgerRow identity)⟩ :
      RegistryStore).Consistent blake3 hashed F' := by
  obtain ⟨payload, fold', hscope, hdigest, happly, hdraft, hrow⟩ := hcommit.payload
  have hstored : (x.compositionFallback.commit request.scope request.target.timeline commit
      (commit.ledgerRow identity)).policies = x.compositionFallback.policies.insert policy.policyDigest request.policyBytes := by
    rw [MemoryCompositionFallbackStateV1.commit, hcommit.retained]
  have hdecoded : (fallbackPorts blake3).decodeDeclared event.payload = .ok payload := by
    rw [htook.payload, hdraft]
    exact payload.fromCanonicalCbor_write
  have htype : event.eventType = compositionFallbackDeclaredEventTypeV1 := by rw [htook.eventType, hdraft]; rfl
  have hbody : (commit.ledgerRow identity).body = .declaration _ := hcommit.body
  have hrowDigest : (commit.ledgerRow identity).policyDigest = policy.policyDigest := hcommit.policyDigest
  obtain ⟨-, rfl⟩ := applyDeclared_eq_ok.mp happly
  refine hx.committed hfound htook.wf htook.grows rfl ?_ ?_ ?_ hrow ?_ ?_
  · -- a policy stored under the digest already is the same policy
    intro digest bytes hbytes
    rw [hstored]
    by_cases heq : digest = policy.policyDigest
    · subst heq
      obtain ⟨earlier, hearlier, rfl, policy', hpolicy', hsame⟩ := hx.policies hbytes
      rw [lookup_insert, FallbackDeclareRequestV1.policyBytes_eq hfree hearlier hhashed hpolicy' hpolicy hsame]
    · rwa [lookup_insert_of_ne _ heq]
  · rw [foldEvent_declared htype hdecoded, if_neg (not_not.mpr hscope)]
    have hload : loadPolicy (fallbackPorts blake3).toFallbackCodecV1
        (⟨store, x.compositionFallback.commit request.scope request.target.timeline commit (commit.ledgerRow identity)⟩ :
          RegistryStore).fallbackView payload.policyDigest = .ok policy := by
      refine loadPolicy_eq_ok.mpr ⟨request.policyBytes, ?_, hpolicy, hdigest.symm⟩
      show Except.ok (lookup _ (x.compositionFallback.commit _ _ _ _).policies) = _
      rw [hstored, hdigest, lookup_insert]
    rw [hload, ok_bind]
    exact happly
  · intro scope' hne fold₀
    rw [foldEvent_declared htype hdecoded, if_pos]
    rw [hscope]
    exact hne.symm
  · refine hfound.ledgered_concat (htook.room hfound.history) (hx.ledgered hfound hentity) hrow hcommit.rowSeq rfl ?_
      (fun _ => rfl) ?_ ?_
    · intro ordinal hsome
      rw [activationOrdinal, hbody] at hsome
      cases hsome
    · intro digest hdeclares
      rw [declares, hbody, hrowDigest] at hdeclares
      rw [← beq_iff_eq.mp hdeclares]
      exact hfresh
    · intro key closing hcloses
      rw [closes, hbody] at hcloses
      cases hcloses
  · intro digest bytes hbytes
    rw [hstored] at hbytes
    rcases Table.lookup_insert_eq_some.mp hbytes with ⟨rfl, rfl⟩ | ⟨-, hbytes⟩
    · exact ⟨request, hhashed, rfl, policy, hpolicy, rfl⟩
    · exact hx.policies hbytes

variable {C : FallbackCommitV1 → Prop}

section

variable (hx : x.Consistent blake3 hashed F)

include hx

theorem Consistent.commitActivation {request : FallbackActivateRequestV1}
    (htyped : request.Typed) (hfound : Found blake3 x F request.scope request.target.timeline h fold)
    (hentity : ∀ row ∈ x.compositionFallback.rows.lookup (request.scope, request.target.timeline),
      row.entity = request.target.entity)
    (hfresh : (x.compositionFallback.ledger request.scope request.target.timeline).find?
      (fun row => row.closes request.entryKey request.closingTenureOrdinal) = none)
    (hcommit : CommitsActivation (fallbackPorts blake3) request fold
      (x.compositionFallback.ledger request.scope request.target.timeline) commit)
    (htook : Took F F' store request.target.timeline event commit.draft) :
    (⟨store, x.compositionFallback.commit request.scope request.target.timeline commit (commit.ledgerRow identity)⟩ :
      RegistryStore).Consistent blake3 hashed F' := by
  obtain ⟨policy, payload, fold', hpolicy, hinput, happly, hdraft, hrow⟩ := hcommit.payload
  have hroom := htook.room hfound.history
  have hstored : (x.compositionFallback.commit request.scope request.target.timeline commit
      (commit.ledgerRow identity)).policies = x.compositionFallback.policies := by
    rw [MemoryCompositionFallbackStateV1.commit, hcommit.retained]
  have hinputTyped : payload.asInput.Typed := by
    rw [hinput]
    refine ⟨htyped.closing, htyped.cause, ?_⟩
    exact lt_of_le_of_lt (Nat.min_le_right _ _) (by decide)
  have hdecoded : (fallbackPorts blake3).decodeActivated event.payload = .ok payload := by
    rw [htook.payload, hdraft]
    exact FallbackActivatedPayloadV1.fromCanonicalCbor_write hinputTyped
  have htype : event.eventType = compositionFallbackActivatedEventTypeV1 := by rw [htook.eventType, hdraft]; rfl
  have hscope : payload.asInput.scope = request.scope := by rw [hinput]; rfl
  have hnext : saturatingAdd fold.state.activationOrdinal 1 = fold.state.activationOrdinal + 1 :=
    saturatingAdd_of_le (by have := hfound.valid.ordinal; omega)
  have hbody : (commit.ledgerRow identity).body = .activation _ _ _ _ := hcommit.body
  obtain ⟨-, change, -, -, -, hordinal, rfl⟩ := applyActivated_eq_ok.mp happly
  refine hx.committed hfound htook.wf htook.grows rfl ?_ ?_ ?_ hrow ?_ ?_
  · intro digest bytes hbytes
    rwa [hstored]
  · rw [foldEvent_activated htype hdecoded, if_neg (not_not.mpr hscope)]
    exact happly
  · intro scope' hne fold₀
    rw [foldEvent_activated htype hdecoded, if_pos]
    rw [hscope]
    exact hne.symm
  · refine hfound.ledgered_concat hroom (hx.ledgered hfound hentity) hrow hcommit.rowSeq rfl ?_ ?_ ?_ ?_
    · intro ordinal hsome
      rw [activationOrdinal, hbody] at hsome
      cases hsome
      exact ⟨hnext, hordinal⟩
    · intro hnone
      rw [activationOrdinal, hbody] at hnone
      cases hnone
    · intro digest hdeclares
      rw [declares, hbody] at hdeclares
      cases hdeclares
    · intro key closing hcloses
      rw [closes, hbody] at hcloses
      obtain ⟨hkey, hclosing⟩ := Bool.and_eq_true_iff.mp hcloses
      rw [← beq_iff_eq.mp hkey, ← beq_iff_eq.mp hclosing]
      exact hfresh
  · intro digest bytes hbytes
    rw [hstored] at hbytes
    exact hx.policies hbytes

/-- What a consistent store makes of a registry write, by the row that would occupy its place. -/
structure Performed (x x' : RegistryStore) (result : FallbackResult FallbackCommitReceiptV1) (scope : String)
    (t : TimelineId) (entity : EntityId) (occupies : FallbackLedgerRowV1 → Bool) (requestDigest : Hash) : Prop where
  refuses : FallbackRefuses result
  unchanged : ∀ e, result = .error e → x' = x
  found : ∀ receipt, result = .ok receipt → (x'.compositionFallback.ledger scope t).find? occupies = some receipt.row ∧
    receipt.row.requestDigest = requestDigest ∧ receipt.row.entity = entity
  grows : ∀ scope' t', ∃ rows,
    x'.compositionFallback.ledger scope' t' = x.compositionFallback.ledger scope' t' ++ rows
  frame : x.store.Frame x'.store
  provisioned : x'.compositionFallback.provisioned = x.compositionFallback.provisioned

theorem Consistent.entity_of_find
    (hentity : ∀ row ∈ x.compositionFallback.rows.lookup (scope, t), row.entity = entity)
    (hfind : (x.compositionFallback.ledger scope t).find? occupies = some row) : row.entity = entity := by
  have hmem := mem_of_find?_eq_some hfind
  cases hrow : x.compositionFallback.rows.lookup (scope, t) with
  | none =>
    rw [hx.absent hrow] at hmem
    cases hmem
  | some stored => rw [(hx.ledgers hrow).entities row hmem, hentity stored hrow]

/-- A registry write keeps the invariant when its commits do; what it answers is a refusal or the row of its place. -/
theorem Consistent.wrote
    {plan : FallbackResult FallbackPlanV1} {result : FallbackResult FallbackCommitReceiptV1 × RegistryStore}
    (hwrote : Wrote ports x F scope t plan result) (hrefuses : FallbackRefuses plan)
    (hplanned : ∀ planned, plan = .ok planned → FallbackPlanned (x.compositionFallback.rows.lookup (scope, t))
      (x.compositionFallback.ledger scope t) entity occupies requestDigest C planned)
    (hrow : ∀ commit identity, C commit → occupies (commit.ledgerRow identity) = true ∧
      commit.requestDigest = requestDigest ∧ commit.row.entity = entity)
    (hcommit : ∀ commit identity event store F', C commit →
      (∀ row ∈ x.compositionFallback.rows.lookup (scope, t), row.entity = entity) →
      (x.compositionFallback.ledger scope t).find? occupies = none → Took F F' store t event commit.draft →
      (⟨store, x.compositionFallback.commit scope t commit (commit.ledgerRow identity)⟩ : RegistryStore).Consistent blake3
        hashed F') :
    (∃ F', result.2.Consistent blake3 hashed F') ∧ Performed x result.2 result.1 scope t entity occupies requestDigest := by
  cases hwrote with
  | @refused e why =>
    refine ⟨⟨F, hx⟩, refuses_error ?_, fun _ _ => rfl, fun _ h => (by cases h),
      fun _ _ => ⟨[], (append_nil _).symm⟩, rfl, rfl⟩
    rcases why with rfl | rfl | hplan
    · decide
    · decide
    · exact hrefuses e hplan
  | replayed planned =>
    have hplan := hplanned _ planned
    rcases hplan.outcome with ⟨_, hfind, hdigest, hreplay⟩ | ⟨_, _, _, hcommit⟩
    · cases hreplay
      refine ⟨⟨F, hx⟩, refuses_ok _, fun _ _ => rfl, fun _ h => ?_, fun _ _ => ⟨[], (append_nil _).symm⟩, rfl, rfl⟩
      cases h
      exact ⟨hfind, hdigest, hx.entity_of_find hplan.entity hfind⟩
    · cases hcommit
  | @committed commit identity event store F' planned wf frame grows eventType payload =>
    have hplan := hplanned _ planned
    rcases hplan.outcome with ⟨_, _, _, hreplay⟩ | ⟨hnone, _, hcommits, heq⟩
    · cases hreplay
    · cases heq
      obtain ⟨hoccupies, hdigest, hentity⟩ := hrow commit identity hcommits
      refine ⟨⟨F', hcommit _ _ _ _ _ hcommits hplan.entity hnone ⟨wf, grows, eventType, payload⟩⟩, refuses_ok _,
        fun _ h => (by cases h), fun _ h => ?_, fun scope' t' => ?_, frame, rfl⟩
      · cases h
        refine ⟨?_, hdigest, hentity⟩
        rw [ledger_commit, if_pos rfl, find?_append, hnone, Option.none_or, find?_singleton, hoccupies]
        rfl
      · rw [ledger_commit]
        split_ifs with hkey
        · cases hkey
          exact ⟨[_], rfl⟩
        · exact ⟨[], (append_nil _).symm⟩

end

theorem timelineHead_refuses (x : RegistryStore) (t : TimelineId) : FallbackRefuses (x.fallbackView.timelineHead t) := by
  show FallbackRefuses ((x.store.logicalHeadUnchecked t).mapError _)
  cases x.store.logicalHeadUnchecked t with
  | error e =>
    show FallbackRefuses (.error .timelineUnavailable)
    exact refuses_error (by decide)
  | ok head => exact refuses_ok _

variable {write : WriteV1} {fresh : CurrentV1 → FallbackResult FallbackPlanV1}

/-- Without a readable Timeline nothing is planned. -/
theorem plan_unavailable
    (h : foldTimeline codec x.fallbackView write.scope write.target.timeline = .error .timelineUnavailable) :
    write.plan codec x.fallbackView occupies fresh = .error .timelineUnavailable := by
  have hcurrent : current codec x.fallbackView write.scope write.target = .error .timelineUnavailable := by
    unfold current
    rw [h]
    rfl
  rw [WriteV1.plan, hcurrent, error_bind]

theorem Consistent.refuses_plan (hx : x.Consistent blake3 hashed F)
    (hfresh : ∀ h fold, Found blake3 x F write.scope write.target.timeline h fold →
      FallbackRefuses (fresh ⟨fold, x.compositionFallback.ledger write.scope write.target.timeline⟩)) :
    FallbackRefuses (write.plan (fallbackPorts blake3).toFallbackCodecV1 x.fallbackView occupies fresh) := by
  rcases hx.found write.scope write.target.timeline with hnone | ⟨h, fold, hfound⟩
  · rw [plan_unavailable hnone]
    exact refuses_error (by decide)
  · exact hfound.agrees.refuses_plan (x.timelineHead_refuses _) (hfresh h fold hfound)

theorem Consistent.planned (hx : x.Consistent blake3 hashed F) {plan : FallbackPlanV1}
    (hfresh : ∀ h fold, Found blake3 x F write.scope write.target.timeline h fold → ∀ plan,
      fresh ⟨fold, x.compositionFallback.ledger write.scope write.target.timeline⟩ = .ok plan →
      ∃ commit, C commit ∧ plan = .commit commit)
    (hplan : write.plan (fallbackPorts blake3).toFallbackCodecV1 x.fallbackView occupies fresh = .ok plan) :
    FallbackPlanned (x.compositionFallback.rows.lookup (write.scope, write.target.timeline))
      (x.compositionFallback.ledger write.scope write.target.timeline) write.target.entity occupies write.requestDigest C
      plan := by
  rcases hx.found write.scope write.target.timeline with hnone | ⟨h, fold, hfound⟩
  · rw [plan_unavailable hnone] at hplan
    cases hplan
  · exact hfound.agrees.planned (hfresh h fold hfound) hplan

/-- Declaring a policy keeps the invariant; what it answers is a refusal or the policy's row. -/
theorem Consistent.declare (hfree : CollisionFree blake3 hashed) (hx : x.Consistent blake3 hashed F)
    (hhashed : ∀ b ∈ request.hashed blake3, b ∈ hashed) (draw : Draw) :
    (∃ F', (x.declare (fallbackPorts blake3) request draw).2.Consistent blake3 hashed F') ∧
    Performed x (x.declare (fallbackPorts blake3) request draw).2 (x.declare (fallbackPorts blake3) request draw).1
      request.scope request.target.timeline request.target.entity (request.occupies blake3)
      (declareRequestDigest blake3 request.target.entity (request.conformance.digest blake3)) := by
  refine hx.wrote (C := fun commit => ∃ policy h fold,
      fromCanonicalCbor blake3 request.policyBytes = .ok policy ∧
      Found blake3 x F request.scope request.target.timeline h fold ∧ CommitsDeclaration (fallbackPorts blake3) request
        fold (x.compositionFallback.ledger request.scope request.target.timeline) policy commit)
    (fencedFallbackOperation_wrote _ hx.wf _ _ (planDeclare (fallbackPorts blake3) · request) draw) ?_ ?_ ?_ ?_
  · exact refuses_bind (refuses_ofRecord fun e he => fromCanonicalCbor_errors he) fun policy _ =>
      refuses_bind (refuses_check (by decide)) fun _ _ => hx.refuses_plan fun _ _ hfound => refuses_declareFresh hfound.valid
  · intro planned hplan
    obtain ⟨policy, hpolicy, hplan⟩ := bind_eq_ok.mp hplan
    obtain ⟨⟨⟩, hscope, hplan⟩ := bind_eq_ok.mp hplan
    have hpolicy := ofRecord_eq_ok.mp hpolicy
    rw [request.occupies_eq hpolicy]
    refine hx.planned (fun h fold hfound plan hfresh => ?_) hplan
    obtain ⟨commit, hcommits, heq⟩ :=
      declareFresh_commits hfound.valid rfl (by simpa using check_eq_ok.mp hscope) rfl hfresh
    exact ⟨commit, ⟨policy, h, fold, hpolicy, hfound, hcommits⟩, heq⟩
  · rintro commit identity ⟨policy, h, fold, hpolicy, -, hcommit⟩
    obtain ⟨_, _, _, _, _, _, hrow⟩ := hcommit.payload
    have hbody : (commit.ledgerRow identity).body = .declaration _ := hcommit.body
    refine ⟨?_, hcommit.requestDigest, by rw [hrow]⟩
    rw [request.occupies_eq hpolicy]
    dsimp only
    rw [declares, hbody, beq_iff_eq]
    exact hcommit.policyDigest
  · rintro commit identity event store F' ⟨policy, h, fold, hpolicy, hfound, hcommit⟩ hentity hfresh htook
    rw [request.occupies_eq hpolicy] at hfresh
    exact hx.commitDeclaration hfree hhashed hfound hpolicy hentity hfresh hcommit htook

/-- Activating an implementation keeps the invariant; what it answers is a refusal or the tenure's row. -/
theorem Consistent.activate (hx : x.Consistent blake3 hashed F) {request : FallbackActivateRequestV1}
    (htyped : request.Typed) (draw : Draw) :
    (∃ F', (x.activate (fallbackPorts blake3) request draw).2.Consistent blake3 hashed F') ∧
    Performed x (x.activate (fallbackPorts blake3) request draw).2 (x.activate (fallbackPorts blake3) request draw).1
      request.scope request.target.timeline request.target.entity
      (fun row => row.closes request.entryKey request.closingTenureOrdinal) (request.digest blake3) := by
  refine hx.wrote (C := fun commit => ∃ h fold, Found blake3 x F request.scope request.target.timeline h fold ∧
      CommitsActivation (fallbackPorts blake3) request fold
        (x.compositionFallback.ledger request.scope request.target.timeline) commit)
    (fencedFallbackOperation_wrote _ hx.wf _ _ (planActivate (fallbackPorts blake3) · request) draw) ?_ ?_ ?_ ?_
  · exact hx.refuses_plan fun _ _ _ => refuses_activateFresh _ _ _
  · intro planned hplan
    refine hx.planned (fun h fold hfound plan hfresh => ?_) hplan
    obtain ⟨commit, hcommits, heq⟩ := activateFresh_commits rfl rfl hfresh
    exact ⟨commit, ⟨h, fold, hfound, hcommits⟩, heq⟩
  · rintro commit identity ⟨h, fold, -, hcommit⟩
    obtain ⟨_, _, _, _, _, _, _, hrow⟩ := hcommit.payload
    have hbody : (commit.ledgerRow identity).body = .activation _ _ _ _ := hcommit.body
    refine ⟨?_, hcommit.requestDigest, by rw [hrow]⟩
    dsimp only [closes]
    rw [hbody]
    simp
  · rintro commit identity event store F' ⟨h, fold, hfound, hcommit⟩ hentity hfresh htook
    exact hx.commitActivation htyped hfound hentity hfresh hcommit htook

/-! ## Runs -/

/-- What a run over the registry may do: new Timelines and Forks, Events of other types, and the registry's writes. -/
def Takes (x : RegistryStore) : Operation → Prop
  | .store (.createTimeline _ id) => x.store.timelines.lookup id = none
  | .store (.fork _ _ _ id) => x.store.timelines.lookup id = none
  | .store (.append _ drafts _) => ∀ draft ∈ drafts, draft.eventType ≠ compositionFallbackDeclaredEventTypeV1 ∧
    draft.eventType ≠ compositionFallbackActivatedEventTypeV1
  | .provisionFallbackRegistry => True
  | .declare _ _ => True
  | .activate request _ => request.Typed
  | _ => False

def run (ports : FallbackPortsV1) (x : RegistryStore) (ops : List Operation) : RegistryStore :=
  ops.foldl (fun x op => (x.perform ports op).2) x

def TakesAll (ports : FallbackPortsV1) (x : RegistryStore) : List Operation → Prop
  | [] => True
  | op :: ops => x.Takes op ∧ TakesAll ports (x.perform ports op).2 ops

end RegistryStore

/-- What an operation hashes under the domains of the registry. -/
def Operation.hashed (blake3 : ByteHash) : Operation → List (List UInt8)
  | .declare request _ => request.hashed blake3
  | .activate request _ => request.hashed blake3
  | _ => []

/-- The operation answered an error. -/
def Reply.Failed : Reply → Prop
  | .timeline (.error _) | .events (.error _) | .committed (.error _) => True
  | _ => False

/-- What it answered is neither a corrupt state nor an entry that cannot be re-based. -/
def Reply.Refuses : Reply → Prop
  | .committed result => FallbackRefuses result
  | _ => True

/-- The batch of an append fits the sequence numbers. -/
def Operation.Room (x : RegistryStore) : Operation → Prop
  | .store call => x.store.Room call
  | _ => True

namespace RegistryStore

variable {hashed : List (List UInt8)} {op : Operation}

theorem after_failed {α β : Type} {s : MemoryStore} {checks : CoreResult β} {effect : β → Effect α}
    (hok : ∀ b, ∃ a, (effect b).1 = .ok a) {e : CoreError} (h : (s.after checks effect).1 = .error e) :
    (s.after checks effect).2 = s := by
  rcases after_cases s checks effect with ⟨e', -, he⟩ | ⟨b, -, he⟩
  · rw [he]
  · obtain ⟨a, ha⟩ := hok b
    rw [he, ha] at h
    cases h

theorem timeline_failed {result : CoreResult Timeline} (h : (Reply.timeline result).Failed) :
    ∃ e, result = .error e := by
  cases result with
  | error e => exact ⟨e, rfl⟩
  | ok timeline => cases h

/-- A later store of a run: ledgers have only grown, under the same fences. -/
structure Later (x x' : RegistryStore) : Prop where
  grows : ∀ scope t, ∃ rows, x'.compositionFallback.ledger scope t = x.compositionFallback.ledger scope t ++ rows
  frame : x.store.Frame x'.store
  provisioned : x.compositionFallback.provisioned = true → x'.compositionFallback.provisioned = true

theorem Later.refl (x : RegistryStore) : Later x x where
  grows _ _ := ⟨[], (append_nil _).symm⟩
  frame := rfl
  provisioned h := h

theorem Later.trans {x'' : RegistryStore} (h : Later x x') (h' : Later x' x'') : Later x x'' where
  grows scope t := by
    obtain ⟨rows, hrows⟩ := h.grows scope t
    obtain ⟨rows', hrows'⟩ := h'.grows scope t
    exact ⟨rows ++ rows', by rw [hrows', hrows, append_assoc]⟩
  frame := h.frame.trans h'.frame
  provisioned hprovisioned := h'.provisioned (h.provisioned hprovisioned)

/-- A step of a run keeps the invariant; a failed one changes nothing. -/
structure Stepped (blake3 : ByteHash) (hashed : List (List UInt8)) (x : RegistryStore) (op : Operation) :
    Prop where
  consistent : ∃ F', (x.perform (fallbackPorts blake3) op).2.Consistent blake3 hashed F'
  refuses : (x.perform (fallbackPorts blake3) op).1.Refuses
  unchanged : (x.perform (fallbackPorts blake3) op).1.Failed → op.Room x → (x.perform (fallbackPorts blake3) op).2 = x
  later : Later x (x.perform (fallbackPorts blake3) op).2

theorem Stepped.of_store (hx : x.Consistent blake3 hashed F) {call : Call} (hwf : (x.store.exec call).WF F')
    (hgrows : F.Grows F' t es)
    (hother : ∀ e ∈ es, e.eventType ≠ compositionFallbackDeclaredEventTypeV1 ∧
      e.eventType ≠ compositionFallbackActivatedEventTypeV1) (hreply : (x.store.reply call).Refuses)
    (hfailed : (x.store.reply call).Failed → x.store.Room call → x.store.exec call = x.store)
    (hframe : x.store.Frame (x.store.exec call)) : Stepped blake3 hashed x (.store call) where
  consistent := ⟨F', hx.other hwf hgrows hother rfl rfl rfl⟩
  refuses := hreply
  unchanged hfail hroom := by
    show { x with store := x.store.exec call } = x
    rw [hfailed hfail hroom]
  later := ⟨fun _ _ => ⟨[], (append_nil _).symm⟩, hframe, fun h => h⟩

theorem Stepped.of_performed {result : FallbackResult FallbackCommitReceiptV1}
    (hop : x.perform (fallbackPorts blake3) op = (.committed result, x')) (hx' : ∃ F', x'.Consistent blake3 hashed F')
    (h : Performed x x' result scope t entity occupies requestDigest) : Stepped blake3 hashed x op := by
  refine ⟨?_, ?_, ?_, ?_⟩ <;> rw [hop]
  · exact hx'
  · exact h.refuses
  · intro hfailed _
    cases result with
    | error e => exact h.unchanged e rfl
    | ok receipt => cases hfailed
  · exact ⟨h.grows, h.frame, fun hprovisioned => h.provisioned.trans hprovisioned⟩

theorem Consistent.step (hfree : CollisionFree blake3 hashed) (hx : x.Consistent blake3 hashed F)
    (htakes : x.Takes op) (hhashed : ∀ b ∈ op.hashed blake3, b ∈ hashed) : Stepped blake3 hashed x op := by
  cases op with
  | store call =>
    cases call with
    | createTimeline name id =>
      obtain ⟨F', hwf, hgrows⟩ := createTimeline_grows hx.wf name htakes id
      refine .of_store hx hwf hgrows (fun _ h => by cases h) trivial (fun hfailed _ => ?_)
        (createTimeline_frame name id)
      obtain ⟨e, he⟩ := timeline_failed hfailed
      exact after_failed (fun _ => ⟨_, rfl⟩) he
    | fork parent atSeq name id =>
      obtain ⟨F', hwf, hgrows⟩ := fork_grows hx.wf parent atSeq name htakes id
      refine .of_store hx hwf hgrows (fun _ h => by cases h) trivial (fun hfailed _ => ?_)
        (fork_frame parent atSeq name id)
      obtain ⟨e, he⟩ := timeline_failed hfailed
      exact after_failed (fun _ => ⟨_, rfl⟩) he
    | append timeline drafts draw =>
      obtain ⟨F', es, hwf, hgrows, happended⟩ := append_grows hx.wf timeline drafts draw
      refine .of_store hx hwf hgrows ?_ trivial (fun hfailed hroom => ?_)
        (append_frame timeline drafts draw)
      · intro e he
        obtain ⟨draft, hdraft, htype⟩ := happended.drawn.mem_draft he
        rw [htype]
        exact htakes draft hdraft
      · cases hresult : (x.store.append timeline drafts draw).1 with
        | error e => exact (happended.error hresult (.inr hroom)).2
        | ok events =>
          have hfailed : (Reply.events (x.store.append timeline drafts draw).1).Failed := hfailed
          rw [hresult] at hfailed
          cases hfailed
    | _ => exact htakes.elim
  | provisionFallbackRegistry =>
    exact ⟨⟨F, hx.other hx.wf (.refl F ⟨0⟩) (fun _ h => by cases h) rfl rfl rfl⟩, trivial, fun h => h.elim,
      ⟨fun _ _ => ⟨[], (append_nil _).symm⟩, rfl, fun _ => rfl⟩⟩
  | declare request draw =>
    obtain ⟨hx', hperformed⟩ := hx.declare hfree hhashed draw
    exact .of_performed rfl hx' hperformed
  | activate request draw =>
    obtain ⟨hx', hperformed⟩ := hx.activate htakes draw
    exact .of_performed rfl hx' hperformed
  | _ => exact htakes.elim

theorem Consistent.run (hfree : CollisionFree blake3 hashed) : ∀ {ops : List Operation} {x : RegistryStore}
    {F : CowForest TimelineId Event}, x.Consistent blake3 hashed F → x.TakesAll (fallbackPorts blake3) ops →
    (∀ b ∈ ops.flatMap (Operation.hashed blake3), b ∈ hashed) →
    (∃ F', (x.run (fallbackPorts blake3) ops).Consistent blake3 hashed F') ∧ Later x (x.run (fallbackPorts blake3) ops)
  | [], x, F, hx, _, _ => ⟨⟨F, hx⟩, .refl x⟩
  | op :: ops, x, F, hx, htakes, hhashed => by
    rw [flatMap_cons, forall_mem_append] at hhashed
    have hstep := hx.step hfree htakes.1 hhashed.1
    obtain ⟨F', hx'⟩ := hstep.consistent
    obtain ⟨hrun, hlater⟩ := hx'.run hfree htakes.2 hhashed.2
    exact ⟨hrun, hstep.later.trans hlater⟩

theorem takesAll_append {before after : List Operation} :
    x.TakesAll ports (before ++ after) ↔ x.TakesAll ports before ∧ (x.run ports before).TakesAll ports after := by
  induction before generalizing x with
  | nil => exact (true_and _).symm.to_iff
  | cons op before ih =>
    rw [cons_append, TakesAll, TakesAll, ih, and_assoc]
    rfl

/-- Over every run from an empty store without colliding digests: each stored row is the fold of its
scope's Events on the Timeline's history, every readable Timeline folds, no registry write finds a
corrupt state or an entry it cannot re-base, and a failed operation changes nothing. -/
theorem run_rows_are_folds (blake3 : ByteHash) {x : RegistryStore} (hstore : x.store.Blank)
    (hregistry : x.compositionFallback = .default) {ops : List Operation}
    (htakes : x.TakesAll (fallbackPorts blake3) ops)
    (hfree : CollisionFree blake3 (ops.flatMap (Operation.hashed blake3))) :
    (∀ scope t row, (x.run (fallbackPorts blake3) ops).compositionFallback.rows.lookup (scope, t) = some row →
      ∃ fold, foldTimeline (fallbackPorts blake3).toFallbackCodecV1 (x.run (fallbackPorts blake3) ops).fallbackView
        scope t = .ok fold ∧ row.state = fold.state) ∧
    (∀ t events, (x.run (fallbackPorts blake3) ops).store.collectEventsInRange t .all = .ok events → ∀ scope,
      ∃ fold, foldTimeline (fallbackPorts blake3).toFallbackCodecV1 (x.run (fallbackPorts blake3) ops).fallbackView
        scope t = .ok fold) ∧
    ∀ before op after, ops = before ++ op :: after →
      (∀ e, ((x.run (fallbackPorts blake3) before).perform (fallbackPorts blake3) op).1 = .committed (.error e) →
        e ≠ .corruptState ∧ e ≠ .invalidRecord (.invalidField .rebased)) ∧
      (((x.run (fallbackPorts blake3) before).perform (fallbackPorts blake3) op).1.Failed →
        op.Room (x.run (fallbackPorts blake3) before) →
        ((x.run (fallbackPorts blake3) before).perform (fallbackPorts blake3) op).2 =
          x.run (fallbackPorts blake3) before) := by
  have hall : ∀ b ∈ ops.flatMap (Operation.hashed blake3), b ∈ ops.flatMap (Operation.hashed blake3) := fun _ h => h
  obtain ⟨⟨F, hy⟩, -⟩ := (Consistent.blank hstore hregistry).run hfree htakes hall
  refine ⟨?_, ?_, ?_⟩
  · intro scope t row hrow
    obtain ⟨hsound, h, fold, hh, hfold, hstate⟩ := hy.rows hrow
    have hcollect := hy.wf.collect hsound hh .all
    rw [filter_all] at hcollect
    exact ⟨fold, by rw [foldTimeline_of_collect hcollect, hfold], hstate⟩
  · intro t events hevents scope
    obtain ⟨-, h, hh, rfl⟩ := hy.wf.sound_of_collect hevents
    rw [filter_all] at hevents
    obtain ⟨fold, hfold⟩ := hy.folds hh scope
    exact ⟨fold, by rw [foldTimeline_of_collect hevents, hfold]⟩
  · rintro before op after rfl
    obtain ⟨hbefore, hop, -⟩ := takesAll_append.mp htakes
    have hmem : ∀ {op'}, op' ∈ before ++ op :: after → ∀ b ∈ op'.hashed blake3,
        b ∈ (before ++ op :: after).flatMap (Operation.hashed blake3) := fun h b hb => mem_flatMap.mpr ⟨_, h, hb⟩
    obtain ⟨⟨F', hz⟩, -⟩ := (Consistent.blank hstore hregistry).run hfree hbefore fun b hb => by
      obtain ⟨op', hop', hb⟩ := mem_flatMap.mp hb
      exact hmem (mem_append_left _ hop') b hb
    have hstep := hz.step hfree hop (hmem (mem_append_right _ mem_cons_self))
    refine ⟨fun e he => ?_, hstep.unchanged⟩
    have hrefuses := hstep.refuses
    rw [he] at hrefuses
    exact hrefuses e rfl

/-! ## A run -/

/-- The lamp, its two plugins and a policy that falls back from one to the other. -/
def lampKey (pluginId : String) (valid : Fallback.textWithin pluginId 128 && Fallback.textWithin "1" 64) :
    ImplementationKeyV1 := ⟨pluginId, "1", 7, valid⟩

def lampPin (pluginId : String) (valid : Fallback.textWithin pluginId 128 && Fallback.textWithin "1" 64) :
    CompositionPinV1 := ⟨lampKey pluginId valid, ["light"], by decide⟩

def lampEntry : FallbackEntryV1 :=
  ⟨"lamp", lampPin "wired" (by decide), [lampPin "radio" (by decide)], [.componentTrap], .automatic, by decide⟩

def lampPolicy : DomainFallbackPolicyV1 where
  scope := "home"
  entries := [lampEntry]
  previousPolicyDigest := none
  policyDigest := Authority.underDomain spellingHash "PiglorOS.Composition.FallbackPolicy.v1"
    (DomainFallbackPolicyV1.preimage "home" [lampEntry] none)
  valid := by decide

def lampDeclaration : FallbackDeclareRequestV1 := ⟨"home", ⟨⟨1⟩, ⟨1⟩⟩, 0, 0, lampPolicy.write, ⟨∅⟩⟩

def lampActivation : FallbackActivateRequestV1 where
  scope := "home"
  target := ⟨⟨1⟩, ⟨1⟩⟩
  expectedStateRevision := 1
  expectedLogicalHead := 1
  entryKey := "lamp"
  closingTenureOrdinal := 0
  fromKey := lampKey "wired" (by decide)
  toKey := lampKey "radio" (by decide)
  triggerCode := .componentTrap
  triggerBasis := ⟨2, .automatic⟩
  skipped := []
  tick := 4

/-- A root on which the policy is declared and then used. -/
def lampRun : List Operation :=
  [.store (.createTimeline "root" ⟨1⟩), .provisionFallbackRegistry, .declare lampDeclaration ⟨⟨1⟩, 5⟩,
    .activate lampActivation ⟨⟨2⟩, 6⟩]

def emptyRegistry : RegistryStore :=
  ⟨MemoryStore.empty Hasher.spelling PipelineDigestsV1.constant .newTestOpen, .default⟩

theorem lampRun_taken : emptyRegistry.TakesAll (fallbackPorts spellingHash) lampRun :=
  ⟨rfl, trivial, trivial, ⟨by decide, by decide, by decide, by decide, by decide, by decide, by decide, by decide⟩,
    trivial⟩

theorem lampRun_collisionFree : CollisionFree spellingHash
    (lampRun.flatMap (Operation.hashed spellingHash)) := by
  decide +kernel

/-- The activation is the second row of its scope, which is the fold of both Events. -/
theorem lampRun_rows_are_folds : ∃ row fold,
    (emptyRegistry.run (fallbackPorts spellingHash) lampRun).compositionFallback.rows.lookup ("home", ⟨1⟩) =
      some row ∧ row.state.stateRevision = 2 ∧ row.state.activationOrdinal = 1 ∧
    foldTimeline (fallbackPorts spellingHash).toFallbackCodecV1
      (emptyRegistry.run (fallbackPorts spellingHash) lampRun).fallbackView "home" ⟨1⟩ = .ok fold ∧
    row.state = fold.state := by
  have hrow : ((emptyRegistry.run (fallbackPorts spellingHash) lampRun).compositionFallback.rows.lookup
      ("home", ⟨1⟩)).any (fun row => row.state.stateRevision == 2 && row.state.activationOrdinal == 1) = true := by
    decide +kernel
  obtain ⟨row, hrow, hstate⟩ := (Option.any_eq_true _ _).mp hrow
  obtain ⟨hrevision, hordinal⟩ := Bool.and_eq_true_iff.mp hstate
  obtain ⟨fold, hfold, heq⟩ := (run_rows_are_folds spellingHash .empty rfl
    lampRun_taken lampRun_collisionFree).1 "home" ⟨1⟩ row hrow
  exact ⟨row, fold, hrow, beq_iff_eq.mp hrevision, beq_iff_eq.mp hordinal, hfold, heq⟩

end RegistryStore

end Piglor
