/-
Encodings that say where they end: in front of whatever follows, two of them are equal only when their
values and what follows are. Numbers of a fixed width, strings under their length and lists under
their count are framed, so that an encoded record is taken apart field by field.
-/
import PiglorProofs.Lib.Cbor

/-- The encodings of the values say where they end. -/
def Framed {α : Type} (values : α → Prop) (write : α → List UInt8) : Prop :=
  ∀ ⦃a b : α⦄ ⦃rest rest' : List UInt8⦄, values a → values b → write a ++ rest = write b ++ rest' → a = b ∧ rest = rest'

namespace Framed

open List

variable {α β : Type} {values : α → Prop} {write : α → List UInt8}

/-- Encodings of one length. -/
theorem of_length {width : Nat} (hlength : ∀ a, (write a).length = width)
    (hwrite : ∀ {a b}, values a → values b → write a = write b → a = b) : Framed values write := by
  intro a b rest rest' ha hb h
  obtain ⟨hab, hrest⟩ := append_inj h (by rw [hlength, hlength])
  exact ⟨hwrite ha hb hab, hrest⟩

theorem map {f : β → α} (h : Framed values write) (hf : ∀ {a b}, f a = f b → a = b) :
    Framed (fun b => values (f b)) (fun b => write (f b)) := by
  intro a b rest rest' ha hb heq
  obtain ⟨hab, hrest⟩ := h ha hb heq
  exact ⟨hf hab, hrest⟩

theorem prod {values' : β → Prop} {write' : β → List UInt8} (h : Framed values write) (h' : Framed values' write') :
    Framed (fun p : α × β => values p.1 ∧ values' p.2) (fun p => write p.1 ++ write' p.2) := by
  rintro ⟨a, a'⟩ ⟨b, b'⟩ rest rest' ha hb heq
  rw [append_assoc, append_assoc] at heq
  obtain ⟨rfl, heq⟩ := h ha.1 hb.1 heq
  obtain ⟨rfl, hrest⟩ := h' ha.2 hb.2 heq
  exact ⟨rfl, hrest⟩

theorem many (h : Framed values write) : ∀ {l m : List α} {rest rest' : List UInt8}, l.length = m.length →
    (∀ a ∈ l, values a) → (∀ a ∈ m, values a) → l.flatMap write ++ rest = m.flatMap write ++ rest' → l = m ∧ rest = rest'
  | [], [], _, _, _, _, _, heq => ⟨rfl, heq⟩
  | a :: l, b :: m, rest, rest', hlength, hl, hm, heq => by
    rw [flatMap_cons, flatMap_cons, append_assoc, append_assoc] at heq
    obtain ⟨ha, hl⟩ := forall_mem_cons.mp hl
    obtain ⟨hb, hm⟩ := forall_mem_cons.mp hm
    obtain ⟨hab, heq⟩ := h ha hb heq
    obtain ⟨hlm, hrest⟩ := h.many (Nat.succ.inj hlength) hl hm heq
    exact ⟨by rw [hab, hlm], hrest⟩

/-! ## Little-endian numbers -/

/-- A number in a fixed number of bytes, least significant first. -/
def littleEndian (width n : Nat) : List UInt8 := (Cbor.bigEndian width n).reverse

@[simp] theorem length_littleEndian (width n : Nat) : (littleEndian width n).length = width := by
  rw [littleEndian, length_reverse, Cbor.length_bigEndian]

theorem number (width : Nat) : Framed (fun n => n < 256 ^ width) (littleEndian width) := by
  refine of_length (length_littleEndian width) fun ha hb h => ?_
  exact Cbor.bigEndian_injective ha hb (reverse_inj.mp h)

/-! ## Counted sequences -/

/-- A list under its length. -/
def counted (write : α → List UInt8) (l : List α) : List UInt8 := littleEndian 8 l.length ++ l.flatMap write

theorem list (h : Framed values write) :
    Framed (fun l : List α => l.length < 2 ^ 64 ∧ ∀ a ∈ l, values a) (counted write) := by
  intro l m rest rest' hl hm heq
  rw [counted, counted, append_assoc, append_assoc] at heq
  obtain ⟨hlength, heq⟩ := number 8 hl.1 hm.1 heq
  exact h.many hlength hl.2 hm.2 heq

/-- A byte string under its length. -/
def sized (bytes : List UInt8) : List UInt8 := littleEndian 8 bytes.length ++ bytes

theorem bytes : Framed (fun bytes : List UInt8 => bytes.length < 2 ^ 64) sized := by
  intro a b rest rest' ha hb heq
  rw [sized, sized, append_assoc, append_assoc] at heq
  obtain ⟨hlength, heq⟩ := number 8 ha hb heq
  exact append_inj heq hlength

end Framed
