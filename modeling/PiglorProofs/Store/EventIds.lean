/-
No two stored Events share an EventId. The index holds the id of every stored Event, and a call only
adds Events whose ids are new to it; so along a run that never runs out of sequence numbers the ids
of all Timelines together stay distinct, and so do those of every history.
-/
import PiglorProofs.Store.CopyOnWrite

namespace Piglor.MemoryStore

open Table CowForest List

variable {s s' : MemoryStore}

/-- The EventId index covers every stored Event, and no id is used twice. -/
structure UniqueIds (s : MemoryStore) : Prop where
  registered : ∀ {t st}, s.timelines.lookup t = some st → ∀ e ∈ st.events, e.id ∈ s.eventIds
  nodup : ∀ {t st}, s.timelines.lookup t = some st → (st.events.map Event.id).Nodup
  apart : ∀ {t u st su}, s.timelines.lookup t = some st → s.timelines.lookup u = some su → t ≠ u →
    ∀ e ∈ st.events, ∀ f ∈ su.events, e.id ≠ f.id

variable {t : TimelineId} {st : TimelineState}

section

variable (h : s.UniqueIds)

include h

theorem UniqueIds.insert (hborn : s.Born t st)
    (timelines : s'.timelines = s.timelines.insert t st) (ids : s'.eventIds = s.eventIds) : s'.UniqueIds where
  registered := by
    intro j sj hj e he
    rw [timelines] at hj
    rw [ids]
    rcases lookup_insert_eq_some.mp hj with ⟨rfl, rfl⟩ | ⟨-, hj⟩
    · rw [hborn.empty] at he; cases he
    · exact h.registered hj e he
  nodup := by
    intro j sj hj
    rw [timelines] at hj
    rcases lookup_insert_eq_some.mp hj with ⟨rfl, rfl⟩ | ⟨-, hj⟩
    · rw [hborn.empty]; exact nodup_nil
    · exact h.nodup hj
  apart := by
    intro j k sj sk hj hk hne e he f hf
    rw [timelines] at hj hk
    rcases lookup_insert_eq_some.mp hj with ⟨rfl, rfl⟩ | ⟨-, hj⟩
    · rw [hborn.empty] at he; cases he
    rcases lookup_insert_eq_some.mp hk with ⟨rfl, rfl⟩ | ⟨-, hk⟩
    · rw [hborn.empty] at hf; cases hf
    exact h.apart hj hk hne e he f hf

theorem UniqueIds.extend {es : List Event}
    (old : s.timelines.lookup t = some st) (timelines : s'.timelines = s.timelines.insert t (st.extend s.hasher es))
    (ids : s'.eventIds = s.eventIds ∪ (es.map Event.id).toFinset) (nodup : (es.map Event.id).Nodup)
    (new : ∀ e ∈ es, e.id ∉ s.eventIds) : s'.UniqueIds where
  registered := by
    intro j sj hj e he
    rw [timelines] at hj
    rw [ids, Finset.mem_union, mem_toFinset]
    rcases lookup_insert_eq_some.mp hj with ⟨rfl, rfl⟩ | ⟨-, hj⟩
    · rcases mem_append.mp he with he | he
      · exact .inl (h.registered old e he)
      · exact .inr (mem_map_of_mem he)
    · exact .inl (h.registered hj e he)
  nodup := by
    intro j sj hj
    rw [timelines] at hj
    rcases lookup_insert_eq_some.mp hj with ⟨rfl, rfl⟩ | ⟨-, hj⟩
    · rw [TimelineState.extend, map_append, nodup_append']
      refine ⟨h.nodup old, nodup, fun x hx hx' => ?_⟩
      obtain ⟨e, he, rfl⟩ := mem_map.mp hx
      obtain ⟨f, hf, hfe⟩ := mem_map.mp hx'
      exact new f hf (hfe ▸ h.registered old e he)
    · exact h.nodup hj
  apart := by
    intro j k sj sk hj hk hne e he f hf
    rw [timelines] at hj hk
    -- at most one of two different Timelines grew
    rcases lookup_insert_eq_some.mp hj with ⟨rfl, rfl⟩ | ⟨-, hj'⟩
    · rcases lookup_insert_eq_some.mp hk with ⟨rfl, -⟩ | ⟨-, hk⟩
      · exact absurd rfl hne
      rcases mem_append.mp he with he | he
      · exact h.apart old hk hne e he f hf
      · exact fun hef => new e he (hef ▸ h.registered hk f hf)
    · rcases lookup_insert_eq_some.mp hk with ⟨rfl, rfl⟩ | ⟨-, hk⟩
      · rcases mem_append.mp hf with hf | hf
        · exact h.apart hj' old hne e he f hf
        · exact fun hef => new f hf (hef ▸ h.registered hj' e he)
      · exact h.apart hj' hk hne e he f hf

theorem UniqueIds.remove (old : s.timelines.lookup t = some st) (timelines : s'.timelines = s.timelines.erase t)
    (ids : s'.eventIds = s.eventIds \ (st.events.map Event.id).toFinset) : s'.UniqueIds where
  registered := by
    intro j sj hj e he
    rw [timelines] at hj
    obtain ⟨hne, hj⟩ := lookup_erase_eq_some.mp hj
    rw [ids, Finset.mem_sdiff, mem_toFinset]
    refine ⟨h.registered hj e he, fun hmem => ?_⟩
    obtain ⟨f, hf, hfe⟩ := mem_map.mp hmem
    exact h.apart hj old hne e he f hf hfe.symm
  nodup := by
    intro j sj hj
    rw [timelines] at hj
    exact h.nodup (lookup_erase_eq_some.mp hj).2
  apart := by
    intro j k sj sk hj hk
    rw [timelines] at hj hk
    exact h.apart (lookup_erase_eq_some.mp hj).2 (lookup_erase_eq_some.mp hk).2

theorem UniqueIds.change (hc : s.Change False s') : s'.UniqueIds := by
  cases hc with
  | grow growth =>
    cases growth with
    | keep hasher timelines ids =>
      exact ⟨by rw [timelines, ids]; exact h.registered, by rw [timelines]; exact h.nodup,
        by rw [timelines]; exact h.apart⟩
    | insert hasher fresh timelines ids born => exact h.insert born timelines ids
    | extend hasher old timelines ids accepts nodup new _ =>
      exact h.extend old timelines (ids.resolve_right fun hloose => hloose.1) nodup new
  | remove hasher old leaf timelines ids => exact h.remove old timelines ids

theorem UniqueIds.changes (hc : s.Changes False s') : s'.UniqueIds := by
  induction hc with
  | refl => exact h
  | tail _ hstep ih => exact ih.change hstep

end

/-- What a call draws is new, and it does not run out of sequence numbers. -/
def Sane (s : MemoryStore) (c : Call) : Prop := s.Fresh c ∧ s.Room c

instance (s : MemoryStore) (c : Call) : Decidable (s.Sane c) := inferInstanceAs (Decidable (_ ∧ _))

theorem forkedOnce_sane : Reachable Sane forkedOnce :=
  Reachable.run (.blank .empty) (by decide)

theorem Reachable.fresh (hs : Reachable Sane s) : Reachable Fresh s := hs.mono fun _ _ h => h.1

/-- Every store reached by sane calls has distinct EventIds. -/
theorem Reachable.uniqueIds (hs : Reachable Sane s) : s.UniqueIds := by
  induction hs with
  | blank hb => exact ⟨by simp [hb.timelines], by simp [hb.timelines], by simp [hb.timelines]⟩
  | @step s c hs hc ih =>
    obtain ⟨F, hw⟩ := hs.fresh.wf
    exact ih.changes (exec_changes hw.toRefines hc.1 (.inr hc.2))

/-- The EventIds of a history are distinct. -/
theorem UniqueIds.history (h : s.UniqueIds) {F : CowForest TimelineId Event} (hr : s.Refines F)
    {hist : List Event} (hh : F.History t hist) : (hist.map Event.id).Nodup := by
  obtain ⟨L, hL, rfl⟩ := hh
  refine nodup_unroll ?_ ?_ hL
  · intro k l hl
    obtain ⟨st, hst, rfl, -⟩ := hr.lookup hl
    exact h.nodup hst
  · intro j k l m hl hm hne
    obtain ⟨sj, hsj, rfl, -⟩ := hr.lookup hl
    obtain ⟨sk, hsk, rfl, -⟩ := hr.lookup hm
    exact h.apart hsj hsk hne

end Piglor.MemoryStore
