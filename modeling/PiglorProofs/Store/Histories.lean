/-
What a call does to the histories of the Timelines: creating one or forking one adds a prefix of a
history that was there, and an append makes one history longer by the Events drawn from its drafts. A
failed call leaves the store as it is, unless the sequence numbers run out within a batch.
-/
import PiglorProofs.Store.AppendSpec

namespace Piglor.MemoryStore

open Checked

variable {s s' : MemoryStore} {F : CowForest TimelineId Event} {t : TimelineId} {st : TimelineState}

theorem WF.insert_grows (hw : s.WF F) (hasher : s'.hasher = s.hasher) (fresh : s.timelines.lookup t = none)
    (timelines : s'.timelines = s.timelines.insert t st) (born : s.Born t st) (k : TimelineId) :
    ∃ F', s'.WF F' ∧ F.Grows F' k [] :=
  ⟨_, hw.insert hasher fresh timelines born, .insert _ _ born.empty k⟩

theorem createTimeline_grows (hw : s.WF F) (name : String) (fresh : s.timelines.lookup t = none) (k : TimelineId) :
    ∃ F', (s.createTimeline name t).2.WF F' ∧ F.Grows F' k [] := by
  unfold createTimeline
  rcases after_cases s s.ensureDirectTopologyMutationAllowed _ with ⟨e, -, he⟩ | ⟨⟨⟩, -, he⟩
  · rw [he]
    exact ⟨F, hw, .refl F k⟩
  · rw [he]
    have hborn : s.Born t (TimelineState.new (Timeline.new (TimelineMeta.root t name)) s.hasher.genesisHash) :=
      ⟨rfl, rfl, rfl, fun _ => rfl, fun _ _ h => by cases h⟩
    refine hw.insert_grows ?_ fresh ?_ hborn k
    · rfl
    · rfl

theorem fork_grows (hw : s.WF F) (p : TimelineId) (n : Seq) (name : String) (fresh : s.timelines.lookup t = none)
    (k : TimelineId) : ∃ F', (s.fork p n name t).2.WF F' ∧ F.Grows F' k [] := by
  unfold fork
  rcases after_cases s _ _ with ⟨e, -, he⟩ | ⟨hash, hchecks, he⟩
  · rw [he]
    exact ⟨F, hw, .refl F k⟩
  · rw [he]
    replace hchecks := of_check hchecks
    replace hchecks := of_check hchecks
    have hhash := of_check hchecks
    have hborn : s.Born t (TimelineState.new (Timeline.new (s.forkMeta p n name t)) hash) := born_forked hhash
    refine hw.insert_grows ?_ fresh ?_ hborn k
    · rfl
    · rfl

theorem setTimeline_self (h : s.timelines.lookup t = some st) : s.setTimeline t st = s := by
  rw [setTimeline, Table.insert_eq_self h]

/-- What an append did: all of its drafts and an answer for each, or an error after the first of them. -/
structure Appended (s : MemoryStore) (t : TimelineId) (drafts : List EventDraft) (draw : Nat → Draw)
    (es : List Event) (result : Effect (List Event)) : Prop where
  drawn : TimelineState.Drawn es drafts draw
  ok : ∀ {shown}, result.1 = .ok shown → es.length = drafts.length ∧ shown.length = drafts.length
  error : ∀ {e}, result.1 = .error e → drafts.length ≤ 1 ∨ s.HasRoom t drafts → es = [] ∧ result.2 = s

theorem append_grows (hw : s.WF F) (t : TimelineId) (drafts : List EventDraft) (draw : Nat → Draw) :
    ∃ F' es, (s.append t drafts draw).2.WF F' ∧ F.Grows F' t es ∧ s.Appended t drafts draw es (s.append t drafts draw) := by
  unfold append
  rcases after_cases s (s.genericAppendGuards t drafts) _ with ⟨e, -, he⟩ | ⟨⟨⟩, -, he⟩
  · rw [he]
    exact ⟨F, [], hw, .refl F t, ⟨trivial, fun h => (by cases h), fun _ _ => ⟨rfl, rfl⟩⟩⟩
  rw [he]
  unfold appendVisible
  rcases after_cases s (do
      let logicalPrefix ← s.logicalPrefix t
      drafts.forM fun d => ensurePlaintextPreferenceAllowed s.keyRegistry d.entity d.eventType
      let state ← s.mutableState t
      .ok (logicalPrefix, state)) _ with ⟨e, -, he⟩ | ⟨⟨logicalPrefix, st⟩, hchecks, he⟩
  · rw [he]
    exact ⟨F, [], hw, .refl F t, ⟨trivial, fun h => (by cases h), fun _ _ => ⟨rfl, rfl⟩⟩⟩
  rw [he]
  obtain ⟨n, hprefix, hchecks⟩ := bind_eq_ok.mp hchecks
  obtain ⟨⟨⟩, hplain, hchecks⟩ := bind_eq_ok.mp hchecks
  obtain ⟨st', hst, hchecks⟩ := bind_eq_ok.mp hchecks
  cases hchecks
  have hold := mutableState_eq_ok hst
  have hplain := forM_eq_ok.mp hplain
  obtain ⟨es, hstate, hacc, hdrawn, -, hres⟩ :=
    TimelineState.appendAllToState_spec s.hasher s.keyRegistry drafts st draw
  dsimp only
  rcases hres with ⟨hok, hlength⟩ | ⟨e, herr, hwhy⟩
  · rw [hok, hstate]
    refine ⟨_, es, hw.extend rfl hold rfl hacc, .extend F t es, ⟨hdrawn, fun hshown => ?_, fun herror => ?_⟩⟩
    · exact ⟨hlength, (mapM_eq_ok.mp hshown).length_eq.symm.trans hlength⟩
    · -- every appended Event fits, so each has its logical form
      have hfits : ∀ e ∈ es, st.timeline.metadata.prefixLen + e.seq ≤ u64Max := by
        intro e he
        have hle := (hacc.seqs.bounds he).2
        have := hacc.fits (List.ne_nil_of_mem he)
        omega
      rw [logicalPrefix_eq hold] at hprefix
      cases hprefix
      obtain ⟨shown, hshown⟩ := mapM_logicalEvent_ok hfits
      dsimp only at herror
      rw [hshown] at herror
      cases herror
  · rw [herr, hstate]
    refine ⟨_, es, hw.extend rfl hold rfl hacc, .extend F t es, ⟨hdrawn, fun h => (by cases h), fun _ hroom => ?_⟩⟩
    rcases hwhy with ⟨d, hd, hrefused⟩ | ⟨hlt, hover⟩
    · exact absurd (hplain d hd) hrefused
    · have hnil : es = [] := by
        rcases hroom with hone | hroom
        · exact List.eq_nil_of_length_eq_zero (by omega)
        · have := hroom st hold
          omega
      subst hnil
      exact ⟨rfl, by rw [TimelineState.extend_nil]; exact setTimeline_self hold⟩

end Piglor.MemoryStore
