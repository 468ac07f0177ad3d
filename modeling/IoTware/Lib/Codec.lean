import Mathlib.Data.List.OfFn
import Mathlib.Logic.Equiv.Defs

/-!
# Fixed-size layouts

Values laid out in bits and in bytes: a layout carries the proof that packing and
unpacking are inverse to each other, and layouts are put together from smaller ones.
-/

namespace Codec

variable {τ υ : Type}

/-- A layout in `w` bits. -/
structure Packed (w : Nat) (τ : Type) where
  pack : τ → BitVec w
  unpack : BitVec w → τ
  unpack_pack : ∀ t, unpack (pack t) = t
  pack_unpack : ∀ b, pack (unpack b) = b

namespace Packed

def field (w : Nat) : Packed w (BitVec w) where
  pack := id
  unpack := id
  unpack_pack _ := rfl
  pack_unpack _ := rfl

def append (a : Packed w τ) (b : Packed v υ) : Packed (v + w) (τ × υ) where
  pack t := b.pack t.2 ++ a.pack t.1
  unpack bits := (a.unpack (bits.extractLsb' 0 w), b.unpack (bits.extractLsb' w v))
  unpack_pack t := by
    rw [BitVec.extractLsb'_append_eq_right, BitVec.extractLsb'_append_eq_left, a.unpack_pack,
      b.unpack_pack]
  pack_unpack bits := by
    rw [a.pack_unpack, b.pack_unpack]
    exact BitVec.extractLsb'_append_extractLsb'

def map (a : Packed w τ) (e : τ ≃ υ) : Packed w υ where
  pack u := a.pack (e.symm u)
  unpack bits := e (a.unpack bits)
  unpack_pack u := by rw [a.unpack_pack, e.apply_symm_apply]
  pack_unpack bits := by rw [e.symm_apply_apply, a.pack_unpack]

end Packed

/-- A layout in `size` bytes. -/
structure Fixed (τ : Type) where
  size : Nat
  pack : τ → List UInt8
  unpack : List UInt8 → τ
  length_pack : ∀ t, (pack t).length = size
  unpack_pack : ∀ t, unpack (pack t) = t
  pack_unpack : ∀ l, l.length = size → pack (unpack l) = l

namespace Fixed

def ofPacked (a : Packed 8 τ) : Fixed τ where
  size := 1
  pack t := [⟨a.pack t⟩]
  unpack l := a.unpack (l.headD 0).toBitVec
  length_pack _ := rfl
  unpack_pack t := a.unpack_pack t
  pack_unpack l hl := by
    obtain ⟨b, rfl⟩ := List.length_eq_one_iff.mp hl
    rw [List.headD_cons, a.pack_unpack]

def byte : Fixed UInt8 where
  size := 1
  pack b := [b]
  unpack l := l.headD 0
  length_pack _ := rfl
  unpack_pack _ := rfl
  pack_unpack l hl := by
    obtain ⟨b, rfl⟩ := List.length_eq_one_iff.mp hl
    rfl

def nothing : Fixed Unit where
  size := 0
  pack _ := []
  unpack _ := ()
  length_pack _ := rfl
  unpack_pack _ := rfl
  pack_unpack _ hl := (List.length_eq_zero_iff.mp hl).symm

def bytes (n : Nat) : Fixed (Fin n → UInt8) where
  size := n
  pack f := List.ofFn f
  unpack l i := l.getD i 0
  length_pack f := List.length_ofFn
  unpack_pack f := by
    funext i
    simp
  pack_unpack l hl := by
    refine List.ext_getElem (by rw [List.length_ofFn, hl]) fun i hi _ => ?_
    simp_all

def append (a : Fixed τ) (b : Fixed υ) : Fixed (τ × υ) where
  size := a.size + b.size
  pack t := a.pack t.1 ++ b.pack t.2
  unpack l := (a.unpack (l.take a.size), b.unpack (l.drop a.size))
  length_pack t := by rw [List.length_append, a.length_pack, b.length_pack]
  unpack_pack t := by
    rw [List.take_left' (a.length_pack _), List.drop_left' (a.length_pack _), a.unpack_pack,
      b.unpack_pack]
  pack_unpack l hl := by
    have hfirst : (l.take a.size).length = a.size := by
      rw [List.length_take]
      omega
    have hsecond : (l.drop a.size).length = b.size := by
      rw [List.length_drop]
      omega
    rw [a.pack_unpack _ hfirst, b.pack_unpack _ hsecond, List.take_append_drop]

def map (a : Fixed τ) (e : τ ≃ υ) : Fixed υ where
  size := a.size
  pack u := a.pack (e.symm u)
  unpack l := e (a.unpack l)
  length_pack _ := a.length_pack _
  unpack_pack u := by rw [a.unpack_pack, e.apply_symm_apply]
  pack_unpack l hl := by rw [e.symm_apply_apply, a.pack_unpack l hl]

end Fixed

end Codec
