/-
Lists in strictly ascending order of a key: the check of adjacent pairs that accepts them, a keyed
map kept as such a list, the sorted list whose repetitions are collapsed, and the fact that such a
list is its set of members.
-/
import Mathlib.Data.List.Pairwise
import Mathlib.Data.List.Sort

namespace Ascending

open List

variable {α κ ε : Type} [LinearOrder κ] {key : α → κ}

/-- Refuse a list whose adjacent keys repeat or descend. -/
def check (duplicate disordered : ε) (key : α → κ) : List α → Except ε Unit
  | a :: b :: rest => match cmp (key a) (key b) with
    | .lt => check duplicate disordered key (b :: rest)
    | .eq => .error duplicate
    | .gt => .error disordered
  | _ => .ok ()

/-- The strictly ascending lists. -/
def Strict (key : α → κ) (xs : List α) : Prop := xs.Pairwise fun a b => key a < key b

theorem check_eq_ok (duplicate disordered : ε) : ∀ {xs : List α},
    check duplicate disordered key xs = .ok () ↔ Strict key xs
  | [] => iff_of_true rfl .nil
  | [a] => iff_of_true rfl (pairwise_singleton _ a)
  | a :: b :: rest => by
    have hcons : Strict key (a :: b :: rest) ↔ key a < key b ∧ Strict key (b :: rest) := by
      unfold Strict
      rw [pairwise_cons, and_congr_left_iff]
      intro hrest
      refine ⟨fun h => h b mem_cons_self, fun hab c hc => ?_⟩
      rcases mem_cons.mp hc with rfl | hc
      · exact hab
      · exact hab.trans ((pairwise_cons.mp hrest).1 c hc)
    have hcheck : check duplicate disordered key (a :: b :: rest) = match cmp (key a) (key b) with
      | .lt => check duplicate disordered key (b :: rest)
      | .eq => .error duplicate
      | .gt => .error disordered := rfl
    rw [hcons, hcheck]
    rcases lt_trichotomy (key a) (key b) with h | h | h
    · rw [(cmp_eq_lt_iff _ _).mpr h, check_eq_ok duplicate disordered]
      exact ⟨fun hrest => ⟨h, hrest⟩, And.right⟩
    · rw [(cmp_eq_eq_iff _ _).mpr h]
      exact ⟨fun herr => (by cases herr), fun hlt => absurd h hlt.1.ne⟩
    · rw [(cmp_eq_gt_iff _ _).mpr h]
      exact ⟨fun herr => (by cases herr), fun hlt => absurd h hlt.1.asymm⟩

variable {xs ys : List α}

theorem Strict.sublist (h : Strict key ys) (hsub : xs.Sublist ys) : Strict key xs :=
  Pairwise.sublist hsub h

variable {a b : α}

theorem Strict.key_inj (h : Strict key xs) (ha : a ∈ xs) (hb : b ∈ xs) (hkey : key a = key b) : a = b := by
  by_contra hne
  have hlt : key a < key b ∨ key b < key a := by
    have hsymm : xs.Pairwise fun a b => key a < key b ∨ key b < key a := h.imp .inl
    have : Std.Symm fun a b : α => key a < key b ∨ key b < key a := ⟨fun _ _ => Or.symm⟩
    exact hsymm.forall ha hb hne
  rcases hlt with hlt | hlt
  · exact hlt.ne hkey
  · exact hlt.ne hkey.symm

theorem Strict.nodup (h : Strict key xs) : xs.Nodup :=
  Pairwise.imp (fun hlt heq => hlt.ne (congrArg key heq)) h

/-- A strictly ascending list is determined by its members. -/
theorem Strict.ext (hx : Strict key xs) (hy : Strict key ys) (h : ∀ a, a ∈ xs ↔ a ∈ ys) : xs = ys := by
  refine Perm.eq_of_pairwise ?_ hx hy ((perm_ext_iff_of_nodup hx.nodup hy.nodup).mpr h)
  intro a b _ _ hab hba
  exact absurd hba hab.asymm

/-- The first element has the least key. -/
theorem Strict.head_le (h : Strict key (a :: xs)) (hb : b ∈ a :: xs) : key a ≤ key b := by
  rcases mem_cons.mp hb with rfl | hb
  · exact le_refl _
  · exact ((pairwise_cons.mp h).1 b hb).le

/-! ## Keyed maps -/

/-- Insert into a map kept in key order; an equal key is replaced. -/
def insert (key : α → κ) (a : α) : List α → List α
  | [] => [a]
  | b :: rest => match cmp (key a) (key b) with
    | .lt => a :: b :: rest
    | .eq => a :: rest
    | .gt => b :: insert key a rest

/-- Insert every element, in order. -/
def extend (key : α → κ) (xs : List α) (as : List α) : List α := as.foldl (fun xs a => insert key a xs) xs

theorem insert_cons (a c : α) (rest : List α) : insert key a (c :: rest) = match cmp (key a) (key c) with
    | .lt => a :: c :: rest
    | .eq => a :: rest
    | .gt => c :: insert key a rest := rfl

variable {c : α} {as : List α}

theorem insert_of_lt (h : key a < key c) (rest : List α) : insert key a (c :: rest) = a :: c :: rest := by
  rw [insert_cons, (cmp_eq_lt_iff _ _).mpr h]

theorem insert_of_eq (h : key a = key c) (rest : List α) : insert key a (c :: rest) = a :: rest := by
  rw [insert_cons, (cmp_eq_eq_iff _ _).mpr h]

theorem insert_of_gt (h : key c < key a) (rest : List α) : insert key a (c :: rest) = c :: insert key a rest := by
  rw [insert_cons, (cmp_eq_gt_iff _ _).mpr h]

theorem mem_of_mem_insert : ∀ {xs : List α}, b ∈ insert key a xs → b = a ∨ b ∈ xs
  | [], h => .inl (mem_singleton.mp h)
  | c :: rest, h => by
    rcases lt_trichotomy (key a) (key c) with hkey | hkey | hkey
    · rw [insert_of_lt hkey] at h
      exact mem_cons.mp h
    · rw [insert_of_eq hkey] at h
      exact (mem_cons.mp h).imp_right (mem_cons_of_mem c)
    · rw [insert_of_gt hkey] at h
      rcases mem_cons.mp h with rfl | h
      · exact .inr mem_cons_self
      · exact (mem_of_mem_insert h).imp_right (mem_cons_of_mem c)

theorem mem_insert_self : ∀ {xs : List α}, a ∈ insert key a xs
  | [] => mem_singleton.mpr rfl
  | c :: rest => by
    rcases lt_trichotomy (key a) (key c) with hkey | hkey | hkey
    · rw [insert_of_lt hkey]
      exact mem_cons_self
    · rw [insert_of_eq hkey]
      exact mem_cons_self
    · rw [insert_of_gt hkey]
      exact mem_cons_of_mem c mem_insert_self

theorem mem_insert_of_mem : ∀ {xs : List α}, b ∈ xs → (key a = key b → a = b) → b ∈ insert key a xs
  | c :: rest, hb, hinj => by
    rcases lt_trichotomy (key a) (key c) with hkey | hkey | hkey
    · rw [insert_of_lt hkey]
      exact mem_cons_of_mem a hb
    · rw [insert_of_eq hkey]
      rcases mem_cons.mp hb with rfl | hb
      · rw [hinj hkey]
        exact mem_cons_self
      · exact mem_cons_of_mem a hb
    · rw [insert_of_gt hkey]
      rcases mem_cons.mp hb with rfl | hb
      · exact mem_cons_self
      · exact mem_cons_of_mem c (mem_insert_of_mem hb hinj)

theorem Strict.insert : ∀ {xs : List α}, Strict key xs → Strict key (insert key a xs)
  | [], _ => pairwise_singleton _ _
  | c :: rest, h => by
    obtain ⟨hc, hrest⟩ := pairwise_cons.mp h
    rcases lt_trichotomy (key a) (key c) with hkey | hkey | hkey
    · rw [insert_of_lt hkey]
      exact pairwise_cons.mpr ⟨fun b hb => hkey.trans_le (h.head_le hb), h⟩
    · rw [insert_of_eq hkey]
      exact pairwise_cons.mpr ⟨fun b hb => hkey ▸ hc b hb, hrest⟩
    · rw [insert_of_gt hkey]
      refine pairwise_cons.mpr ⟨fun b hb => ?_, Strict.insert hrest⟩
      rcases mem_of_mem_insert hb with rfl | hb
      · exact hkey
      · exact hc b hb

theorem Strict.extend : ∀ {xs : List α}, Strict key xs → Strict key (extend key xs as) := by
  induction as with
  | nil => exact fun h => h
  | cons a as ih => exact fun h => ih h.insert

/-- When equal keys mean equal elements, extending adds exactly the new elements. -/
theorem mem_extend : ∀ {xs : List α}, (∀ a ∈ as, ∀ b, b ∈ xs ∨ b ∈ as → key a = key b → a = b) →
    ∀ {b : α}, b ∈ extend key xs as ↔ b ∈ xs ∨ b ∈ as := by
  induction as with
  | nil => simp [extend]
  | cons a as ih =>
    intro xs hinj b
    have hstep : b ∈ extend key (insert key a xs) as ↔ b ∈ insert key a xs ∨ b ∈ as := by
      refine ih fun c hc d hd hkey => hinj c (mem_cons_of_mem a hc) d ?_ hkey
      rcases hd with hd | hd
      · exact (mem_of_mem_insert hd).elim (fun hda => .inr (hda ▸ mem_cons_self)) .inl
      · exact .inr (mem_cons_of_mem a hd)
    have hinsert : b ∈ insert key a xs ↔ b = a ∨ b ∈ xs := by
      refine ⟨mem_of_mem_insert, ?_⟩
      rintro (rfl | hb)
      · exact mem_insert_self
      · exact mem_insert_of_mem hb (hinj a mem_cons_self b (.inl hb))
    rw [show extend key xs (a :: as) = extend key (insert key a xs) as from rfl, hstep, hinsert, mem_cons]
    tauto

/-! ## Sorting and collapsing -/

/-- A sort by key; elements of one key may come out in any order. -/
structure UnstableSort (key : α → κ) where
  run : List α → List α
  perm : ∀ xs, (run xs).Perm xs
  sorted : ∀ xs, (run xs).Pairwise fun a b => key a ≤ key b

def insertionSort (key : α → κ) : UnstableSort key where
  run xs := xs.insertionSort fun a b => key a ≤ key b
  perm xs := List.perm_insertionSort _ xs
  sorted xs := by
    have : IsTrans α fun a b => key a ≤ key b := ⟨fun _ _ _ => le_trans⟩
    have : Std.Total fun a b : α => key a ≤ key b := ⟨fun a b => le_total (key a) (key b)⟩
    exact List.pairwise_insertionSort _ xs

/-- Whether no two neighbours share a key. -/
def apart (key : α → κ) : List α → Bool
  | a :: b :: rest => decide (key a ≠ key b) && apart key (b :: rest)
  | _ => true

/-- A sorted list is strictly ascending exactly when no two neighbours share a key. -/
theorem apart_iff : ∀ {xs : List α}, (xs.Pairwise fun a b => key a ≤ key b) → (apart key xs = true ↔ Strict key xs)
  | [], _ => iff_of_true rfl .nil
  | [a], _ => iff_of_true rfl (pairwise_singleton _ a)
  | a :: b :: rest, h => by
    obtain ⟨ha, hrest⟩ := pairwise_cons.mp h
    rw [apart, Bool.and_eq_true, decide_eq_true_eq, apart_iff hrest]
    constructor
    · rintro ⟨hne, hstrict⟩
      refine pairwise_cons.mpr ⟨fun c hc => ?_, hstrict⟩
      exact (lt_of_le_of_ne (ha b mem_cons_self) hne).trans_le (hstrict.head_le hc)
    · intro hstrict
      obtain ⟨hlt, hstrict⟩ := pairwise_cons.mp hstrict
      exact ⟨(hlt b mem_cons_self).ne, hstrict⟩

/-- One step of `collapse`: an element equal to the last kept one is dropped, one that only shares its
key is a conflict. -/
def keep [DecidableEq α] (conflict : ε) (key : α → κ) (unique : List α) (a : α) : Except ε (List α) :=
  match unique.getLast? with
  | some previous =>
    if key previous = key a then
      if previous = a then .ok unique else .error conflict
    else .ok (unique ++ [a])
  | none => .ok (unique ++ [a])

/-- Collapse the repetitions of a sorted list. -/
def collapse [DecidableEq α] (conflict : ε) (key : α → κ) (xs : List α) : Except ε (List α) :=
  xs.foldlM (keep conflict key) []

/-- The last element has the greatest key. -/
theorem Strict.le_getLast (h : Strict key xs) {last : α} (hlast : xs.getLast? = some last)
    (ha : a ∈ xs) : key a ≤ key last := by
  obtain ⟨front, rfl⟩ := getLast?_eq_some_iff.mp hlast
  rcases mem_append.mp ha with ha | ha
  · exact ((pairwise_append.mp h).2.2 a ha last (mem_singleton.mpr rfl)).le
  · rw [mem_singleton.mp ha]

variable [DecidableEq α] (conflict : ε)

/-- What a step of `collapse` does to a list kept so far, none of whose keys exceeds the next one. -/
theorem keep_cases {unique : List α} (hunique : Strict key unique) (hle : ∀ b ∈ unique, key b ≤ key a) :
    (∃ unique', keep conflict key unique a = .ok unique' ∧ Strict key unique' ∧ ∀ b, b ∈ unique' ↔ b ∈ unique ∨ b = a) ∨
      keep conflict key unique a = .error conflict ∧ ∃ b ∈ unique, b ≠ a ∧ key b = key a := by
  -- the element is kept when its key is new
  have hpush (hlt : ∀ b ∈ unique, key b < key a) :
      Strict key (unique ++ [a]) ∧ ∀ b, b ∈ unique ++ [a] ↔ b ∈ unique ∨ b = a := by
    refine ⟨pairwise_append.mpr ⟨hunique, pairwise_singleton _ a, fun b hb c hc => ?_⟩, fun b => by simp⟩
    rw [mem_singleton.mp hc]
    exact hlt b hb
  unfold keep
  cases hlast : unique.getLast? with
  | none =>
    obtain rfl := getLast?_eq_none_iff.mp hlast
    exact .inl ⟨_, rfl, hpush fun b hb => absurd hb not_mem_nil⟩
  | some previous =>
    have hmem := mem_of_getLast? hlast
    dsimp only
    by_cases hkey : key previous = key a
    · rw [if_pos hkey]
      by_cases heq : previous = a
      · rw [if_pos heq]
        exact .inl ⟨unique, rfl, hunique, fun b => ⟨.inl, fun hb => hb.elim id fun hba => hba ▸ heq ▸ hmem⟩⟩
      · rw [if_neg heq]
        exact .inr ⟨rfl, previous, hmem, heq, hkey⟩
    · rw [if_neg hkey]
      have hlt : key previous < key a := lt_of_le_of_ne (hle previous hmem) hkey
      exact .inl ⟨_, rfl, hpush fun b hb => (hunique.le_getLast hlast hb).trans_lt hlt⟩

/-- Collapsing a sorted list from a list kept so far. -/
theorem foldlM_keep_cases : ∀ {xs unique : List α}, (xs.Pairwise fun a b => key a ≤ key b) → Strict key unique →
    (∀ b ∈ unique, ∀ a ∈ xs, key b ≤ key a) →
    (∃ ys, xs.foldlM (keep conflict key) unique = .ok ys ∧ Strict key ys ∧ ∀ b, b ∈ ys ↔ b ∈ unique ∨ b ∈ xs) ∨
      xs.foldlM (keep conflict key) unique = .error conflict ∧
        ∃ a b, (a ∈ unique ∨ a ∈ xs) ∧ (b ∈ unique ∨ b ∈ xs) ∧ a ≠ b ∧ key a = key b
  | [], unique, _, hunique, _ => .inl ⟨unique, rfl, hunique, fun b => by simp⟩
  | a :: xs, unique, hsorted, hunique, hle => by
    obtain ⟨hfirst, hrest⟩ := pairwise_cons.mp hsorted
    rw [foldlM_cons]
    rcases keep_cases conflict hunique fun b hb => hle b hb a mem_cons_self with
      ⟨unique', hkeep, hunique', hmem⟩ | ⟨hkeep, b, hb, hne, hkey⟩
    · rw [hkeep]
      have hle' : ∀ b ∈ unique', ∀ c ∈ xs, key b ≤ key c := by
        intro b hb c hc
        rcases (hmem b).mp hb with hb | rfl
        · exact hle b hb c (mem_cons_of_mem a hc)
        · exact hfirst c hc
      have hmove : ∀ c, (c ∈ unique' ∨ c ∈ xs) ↔ c ∈ unique ∨ c ∈ a :: xs := by
        intro c
        rw [hmem, mem_cons, or_assoc]
      have hrec := foldlM_keep_cases hrest hunique' hle'
      simp only [hmove] at hrec
      exact hrec
    · rw [hkeep]
      exact .inr ⟨rfl, b, a, .inl hb, .inr mem_cons_self, hne, hkey⟩

/-- A sorted list collapses to the strictly ascending list of its members, unless two different members
share a key. -/
theorem collapse_cases (hsorted : xs.Pairwise fun a b => key a ≤ key b) :
    (∃ ys, collapse conflict key xs = .ok ys ∧ Strict key ys ∧ ∀ a, a ∈ ys ↔ a ∈ xs) ∨
      collapse conflict key xs = .error conflict ∧ ∃ a ∈ xs, ∃ b ∈ xs, a ≠ b ∧ key a = key b := by
  have hnil : ∀ b ∈ ([] : List α), ∀ a ∈ xs, key b ≤ key a := fun _ h => absurd h not_mem_nil
  rcases foldlM_keep_cases conflict hsorted .nil hnil with
    ⟨ys, hfold, hys, hmem⟩ | ⟨hfold, a, b, ha, hb, hne, hkey⟩
  · exact .inl ⟨ys, hfold, hys, fun a => by simpa using hmem a⟩
  · exact .inr ⟨hfold, a, by simpa using ha, b, by simpa using hb, hne, hkey⟩

end Ascending
