/-
Finite tables: the operations of a hash map that a store uses beyond `Finmap`'s own. Retaining and
erasing rows are characterised by lookup; collecting rows gives a multiset, since a hash map has
no order of its own, and sorting one under a total order gives the one sorted list.
-/
import Mathlib.Data.Finmap
import Mathlib.Data.List.Sort

/-- A finite map. -/
abbrev Table (K V : Type*) := Finmap (fun _ : K => V)

namespace Table

open Finmap

variable {K V β : Type*}

theorem nodupKeys_filter {s : Multiset (Sigma fun _ : K => V)} (h : s.NodupKeys)
    (p : (Sigma fun _ : K => V) → Prop) [DecidablePred p] : (s.filter p).NodupKeys := by
  rw [← Multiset.nodup_keys] at *
  exact Multiset.nodup_of_le (Multiset.map_le_map (Multiset.filter_le p s)) h

/-- Keep the rows that satisfy a test. -/
def retain (p : K → V → Bool) (m : Table K V) : Table K V :=
  ⟨m.entries.filter fun e => p e.1 e.2, nodupKeys_filter m.nodupKeys _⟩

/-- Change the value of every row. -/
def mapValues (f : V → V) (m : Table K V) : Table K V :=
  ⟨m.entries.map fun e => ⟨e.1, f e.2⟩, by
    have h := m.nodupKeys
    rw [← Multiset.nodup_keys] at h ⊢
    rwa [Multiset.keys, Multiset.map_map]⟩

/-- Change every row by its key and value. -/
def mapRows (f : K → V → V) (m : Table K V) : Table K V :=
  ⟨m.entries.map fun e => ⟨e.1, f e.1 e.2⟩, by
    have h := m.nodupKeys
    rw [← Multiset.nodup_keys] at h ⊢
    rwa [Multiset.keys, Multiset.map_map]⟩

/-- Collect a value from every row that satisfies a test. -/
def rows (p : K → V → Bool) (f : K → V → β) (m : Table K V) : Multiset β :=
  (m.entries.filter fun e => p e.1 e.2).map fun e => f e.1 e.2

/-- Collect what some of the rows have. -/
def collect (f : K → V → Option β) (m : Table K V) : Multiset β := m.entries.filterMap fun e => f e.1 e.2

variable [DecidableEq K]

def eraseAll (ks : List K) (m : Table K V) : Table K V := ks.foldl (fun m k => m.erase k) m

theorem lookup_retain (p : K → V → Bool) (m : Table K V) (k : K) :
    (retain p m).lookup k = (m.lookup k).filter (p k) := by
  ext v
  rw [Option.filter_eq_some_iff, lookup_eq_some_iff, lookup_eq_some_iff]
  simp [retain]

variable {p : K → V → Bool} {m : Table K V} {k : K} {v : V}

/-- A retained row passes the test. -/
theorem of_lookup_retain (h : (retain p m).lookup k = some v) : p k v = true := by
  rw [lookup_retain] at h
  exact (Option.filter_eq_some_iff.mp h).2

theorem lookup_mapRows (f : K → V → V) (m : Table K V) (k : K) : (mapRows f m).lookup k = (m.lookup k).map (f k) := by
  ext v
  rw [Option.map_eq_some_iff, lookup_eq_some_iff]
  simp only [mapRows, Multiset.mem_map, Sigma.exists, Sigma.mk.injEq, heq_eq_eq, lookup_eq_some_iff]
  constructor
  · rintro ⟨j, w, hw, rfl, rfl⟩
    exact ⟨w, hw, rfl⟩
  · rintro ⟨w, hw, rfl⟩
    exact ⟨k, w, hw, rfl, rfl⟩

theorem lookup_mapValues (f : V → V) (m : Table K V) (k : K) : (mapValues f m).lookup k = (m.lookup k).map f :=
  lookup_mapRows (fun _ => f) m k

/-- Retaining rows that all pass keeps the table. -/
theorem retain_eq_self (h : ∀ k v, m.lookup k = some v → p k v = true) : retain p m = m := by
  refine ext_lookup fun k => ?_
  rw [lookup_retain]
  rcases hv : m.lookup k with _ | v
  · rfl
  · simp [Option.filter, h k v hv]

/-- Erasing a key that has no row keeps the table. -/
theorem erase_eq_self (h : m.lookup k = none) : m.erase k = m := by
  refine ext_lookup fun j => ?_
  by_cases hj : j = k
  · subst hj
    rw [lookup_erase, h]
  · rw [lookup_erase_ne hj]

theorem insert_eq_self (h : m.lookup k = some v) : m.insert k v = m := by
  refine ext_lookup fun j => ?_
  by_cases hj : j = k
  · subst hj
    rw [lookup_insert, h]
  · rw [lookup_insert_of_ne _ hj]

variable {j : K} {w : V}

theorem lookup_insert_eq_some :
    (m.insert k v).lookup j = some w ↔ (j = k ∧ v = w) ∨ (j ≠ k ∧ m.lookup j = some w) := by
  by_cases hj : j = k
  · subst hj
    simp
  · simp [hj]

/-- What holds of the new row and of every old one holds of every row after an insertion. -/
theorem forall_insert {P : K → V → Prop} (hnew : P k v) (h : ∀ ⦃j w⦄, m.lookup j = some w → P j w) :
    ∀ ⦃j w⦄, (m.insert k v).lookup j = some w → P j w := by
  intro j w hw
  rcases lookup_insert_eq_some.mp hw with ⟨rfl, rfl⟩ | ⟨-, hw⟩
  · exact hnew
  · exact h hw

theorem lookup_insert_eq_none : (m.insert k v).lookup j = none ↔ j ≠ k ∧ m.lookup j = none := by
  by_cases hj : j = k
  · subst hj
    simp
  · simp [hj]

theorem lookup_erase_eq_some : (m.erase k).lookup j = some w ↔ j ≠ k ∧ m.lookup j = some w := by
  by_cases hj : j = k
  · subst hj
    simp
  · simp [hj]

theorem lookup_erase_eq_none : (m.erase k).lookup j = none ↔ j = k ∨ m.lookup j = none := by
  by_cases hj : j = k
  · subst hj
    simp
  · simp [hj]

theorem erase_insert (k : K) (v : V) (m : Table K V) : (m.insert k v).erase k = m.erase k := by
  refine ext_lookup fun j => ?_
  by_cases hj : j = k
  · subst hj
    rw [lookup_erase, lookup_erase]
  · rw [lookup_erase_ne hj, lookup_erase_ne hj, lookup_insert_of_ne _ hj]

/-- A weaker test before a test makes no difference. -/
theorem retain_retain {q : K → V → Bool} (h : ∀ k v, p k v = true → q k v = true) (m : Table K V) :
    retain p (retain q m) = retain p m := by
  refine ext_lookup fun k => ?_
  rw [lookup_retain, lookup_retain, lookup_retain]
  rcases m.lookup k with _ | v
  · rfl
  · by_cases hp : p k v = true
    · simp [Option.filter, hp, h k v hp]
    · by_cases hq : q k v = true <;> simp [Option.filter, hp, hq]

theorem retain_self (p : K → V → Bool) (m : Table K V) : retain p (retain p m) = retain p m :=
  retain_retain (fun _ _ h => h) m

variable {b : β}

theorem mem_rows {f : K → V → β} : b ∈ rows p f m ↔ ∃ k v, m.lookup k = some v ∧ p k v = true ∧ f k v = b := by
  simp only [rows, Multiset.mem_map, Multiset.mem_filter, Sigma.exists, lookup_eq_some_iff, and_assoc]

theorem lookup_eraseAll : ∀ (ks : List K) (m : Table K V) (k : K),
    (eraseAll ks m).lookup k = if k ∈ ks then none else m.lookup k
  | [], m, k => by simp [eraseAll]
  | a :: ks, m, k => by
    have ih := lookup_eraseAll ks (m.erase a) k
    have hcons : eraseAll (a :: ks) m = eraseAll ks (m.erase a) := rfl
    rw [hcons, ih]
    by_cases hka : k = a
    · subst hka; simp
    · simp [lookup_erase_ne hka, hka]

/-- Every row of the first table is a row of the second. -/
def Within (m m' : Table K V) : Prop := ∀ ⦃k : K⦄ ⦃v : V⦄, m.lookup k = some v → m'.lookup k = some v

theorem Within.refl (m : Table K V) : Within m m := fun _ _ h => h

theorem Within.retain (p : K → V → Bool) (m : Table K V) : Within (retain p m) m := by
  intro k v h
  rw [lookup_retain] at h
  exact (Option.filter_eq_some_iff.mp h).1

theorem Within.eraseAll (ks : List K) (m : Table K V) : Within (eraseAll ks m) m := by
  intro k v h
  rw [lookup_eraseAll] at h
  split_ifs at h
  exact h

theorem any_iff : m.any p = true ↔ ∃ k v, m.lookup k = some v ∧ p k v = true := by
  simp only [lookup_eq_some_iff]
  unfold any foldl
  obtain ⟨s, hs⟩ := m
  induction s using Quotient.inductionOn with
  | h l =>
    have key : ∀ (l : List (Sigma fun _ : K => V)) (b : Bool),
        l.foldl (fun x y => x || p y.1 y.2) b = (b || l.any fun e => p e.1 e.2) := by
      intro l
      induction l with
      | nil => simp
      | cons e l ih => intro b; simp [ih, Bool.or_assoc]
    simp [key]

theorem all_iff : m.all p = true ↔ ∀ k v, m.lookup k = some v → p k v = true := by
  simp only [lookup_eq_some_iff]
  unfold all foldl
  obtain ⟨s, hs⟩ := m
  induction s using Quotient.inductionOn with
  | h l =>
    have key : ∀ (l : List (Sigma fun _ : K => V)) (b : Bool),
        l.foldl (fun x y => x && p y.1 y.2) b = (b && l.all fun e => p e.1 e.2) := by
      intro l
      induction l with
      | nil => simp
      | cons e l ih => intro b; simp [ih, Bool.and_assoc]
    simp [key, Sigma.forall]

variable {f : K → V → Option β}

theorem mem_collect : b ∈ collect f m ↔ ∃ k v, m.lookup k = some v ∧ f k v = some b := by
  simp only [collect, Multiset.mem_filterMap, Sigma.exists, lookup_eq_some_iff]

/-- Nothing is collected twice when no two rows have the same. -/
theorem nodup_collect : (collect f m).Nodup ↔
    ∀ ⦃k v k' v' b⦄, m.lookup k = some v → m.lookup k' = some v' → f k v = some b → f k' v' = some b → k = k' := by
  simp only [lookup_eq_some_iff, collect]
  obtain ⟨s, hs⟩ := m
  induction s using Quotient.inductionOn with
  | h l =>
    have : Std.Symm fun e e' : Sigma fun _ : K => V =>
        ∀ b, f e.1 e.2 = some b → ∀ b', f e'.1 e'.2 = some b' → b ≠ b' :=
      ⟨fun e e' h b hb b' hb' heq => h b' hb' b hb heq.symm⟩
    change (l.filterMap fun e => f e.1 e.2).Pairwise (· ≠ ·) ↔ _
    rw [List.pairwise_filterMap]
    constructor
    · intro h k v k' v' b hk hk' hb hb'
      by_contra hne
      exact h.forall hk hk' (fun heq => hne (congrArg Sigma.fst heq)) b hb b hb' rfl
    · intro h
      refine hs.nodup.pairwise_of_forall_ne ?_
      rintro ⟨k, v⟩ hk ⟨k', v'⟩ hk' hne b hb b' hb' rfl
      obtain rfl := h hk hk' hb hb'
      exact hne (congrArg (Sigma.mk k) (hs.eq_of_mk_mem hk hk'))

/-! ## Sorted rows -/

variable {α : Type*} [LinearOrder α] {s : Multiset α}

/-- The elements of a multiset in order. -/
def sorted (s : Multiset α) : List α :=
  Quot.liftOn s (List.insertionSort (· ≤ ·)) fun a b h =>
    ((List.perm_insertionSort _ a).trans (h.trans (List.perm_insertionSort _ b).symm)).eq_of_pairwise'
      (List.pairwise_insertionSort _ a) (List.pairwise_insertionSort _ b)

theorem coe_sorted (s : Multiset α) : (sorted s : Multiset α) = s := by
  induction s using Quotient.inductionOn with
  | h l => exact Quotient.sound (List.perm_insertionSort _ l)

@[simp] theorem mem_sorted {a : α} : a ∈ sorted s ↔ a ∈ s := by
  rw [← Multiset.mem_coe, coe_sorted]

theorem pairwise_sorted (s : Multiset α) : (sorted s).Pairwise (· ≤ ·) := by
  induction s using Quotient.inductionOn with
  | h l => exact List.pairwise_insertionSort _ l

/-- Distinct elements come in strict order. -/
theorem pairwise_sorted_of_nodup (h : s.Nodup) : (sorted s).Pairwise (· < ·) := by
  have hnodup : (sorted s).Nodup := by rwa [← Multiset.coe_nodup, coe_sorted]
  exact (pairwise_sorted s).imp₂ (fun a b hle hne => lt_of_le_of_ne hle hne) hnodup

end Table
