import Mathlib.Data.List.Basic

/-!
# Byte memory

Memory as the bytes at its addresses, blocks of it, the assignment of one block to
another, and buffers that are filled from their beginning.
-/

namespace Memory

abbrev Bytes := Nat → UInt8

def block (mem : Bytes) (p n : Nat) : List UInt8 := (List.range n).map fun i => mem (p + i)

/-- The `n` bytes from `d` on become those from `s` on: all are read before one is
written. -/
def assign (mem : Bytes) (d s n : Nat) : Bytes :=
  fun b => if d ≤ b ∧ b < d + n then mem (s + (b - d)) else mem b

/-- The blocks of `n` bytes from `p` on and of `m` bytes from `q` on do not overlap. -/
def Apart (p n q m : Nat) : Prop := p + n ≤ q ∨ q + m ≤ p

theorem Apart.symm (h : Apart p n q m) : Apart q m p n := Or.symm h

theorem block_congr {mem mem' : Bytes} (h : ∀ b, p ≤ b → b < p + n → mem' b = mem b) :
    block mem' p n = block mem p n := by
  refine List.map_congr_left fun i hi => h (p + i) (Nat.le_add_right p i) ?_
  exact Nat.add_lt_add_left (List.mem_range.mp hi) p

theorem assign_of_apart (mem : Bytes) (h : Apart d n p m) (hb : p ≤ b) (hlt : b < p + m) :
    assign mem d s n b = mem b := by
  refine if_neg fun hin => ?_
  unfold Apart at h
  omega

theorem block_assign_of_apart (mem : Bytes) (h : Apart d n p m) :
    block (assign mem d s n) p m = block mem p m :=
  block_congr fun _ hb hlt => assign_of_apart mem h hb hlt

theorem block_assign (mem : Bytes) (d s n : Nat) :
    block (assign mem d s n) d n = block mem s n := by
  refine List.map_congr_left fun i hi => ?_
  have hlt := List.mem_range.mp hi
  unfold assign
  rw [if_pos ⟨Nat.le_add_right d i, Nat.add_lt_add_left hlt d⟩, Nat.add_sub_cancel_left]

theorem assign_zero (mem : Bytes) (d s : Nat) : assign mem d s 0 = mem := by
  funext b
  refine if_neg ?_
  omega

theorem assign_assign (mem : Bytes) (h : Apart d (n + m) s (n + m)) :
    assign (assign mem d s n) (d + n) (s + n) m = assign mem d s (n + m) := by
  funext b
  unfold Apart at h
  by_cases hsecond : d + n ≤ b ∧ b < d + n + m
  · have hsource : assign mem d s n (s + n + (b - (d + n))) = mem (s + n + (b - (d + n))) := by
      refine if_neg ?_
      omega
    have heq : s + n + (b - (d + n)) = s + (b - d) := by omega
    rw [assign, if_pos hsecond, hsource, heq, assign, if_pos (by omega)]
  · rw [assign, if_neg hsecond, assign, assign]
    refine if_congr ?_ rfl rfl
    omega

theorem length_block (mem : Bytes) (p n : Nat) : (block mem p n).length = n := by
  rw [block, List.length_map, List.length_range]

theorem block_add (mem : Bytes) (p n m : Nat) :
    block mem p (n + m) = block mem p n ++ block mem (p + n) m := by
  simp only [block, List.range_add, List.map_append, List.map_map, Function.comp_def,
    Nat.add_assoc]

-- ---------------------------------------------------------------------------
-- Copies under way
-- ---------------------------------------------------------------------------

/-- What is left of a copy: where it goes, where it comes from, how much it is. -/
structure Copy where
  dx : Nat
  sx : Nat
  len : Nat

def Copy.piece (c : Copy) (n : Nat) : Copy := ⟨c.dx + n, c.sx + n, c.len - n⟩

/-- Of a copy of `len` bytes from `s` to `d`, all but the bytes of `c` are done. -/
def Copied (mem : Bytes) (d s len : Nat) (c : Copy) : Prop :=
  ∃ k, k + c.len = len ∧ c.dx = d + k ∧ c.sx = s + k ∧ block mem d k = block mem s k

theorem Copied.start (mem : Bytes) (d s len : Nat) : Copied mem d s len ⟨d, s, len⟩ :=
  ⟨0, by simp [block]⟩

theorem Copied.done (h : Copied mem d s len c) (hlen : c.len = 0) :
    block mem d len = block mem s len := by
  obtain ⟨k, hk, -, -, hblock⟩ := h
  obtain rfl : k = len := by omega
  exact hblock

theorem Copied.piece (h : Copied mem d s len c) (hapart : Apart d len s len) (hn : n ≤ c.len) :
    Copied (assign mem c.dx c.sx n) d s len (c.piece n) := by
  obtain ⟨k, hk, hdx, hsx, hblock⟩ := h
  have hsource : Apart c.dx n s (k + n) := by
    unfold Apart at *
    omega
  have hfront : Apart c.dx n d k := by
    unfold Apart
    omega
  refine ⟨k + n, by simp only [Copy.piece]; omega, by simp [Copy.piece, hdx, Nat.add_assoc],
    by simp [Copy.piece, hsx, Nat.add_assoc], ?_⟩
  rw [block_assign_of_apart mem hsource, block_add, block_add, block_assign_of_apart mem hfront,
    hblock, ← hdx, ← hsx, block_assign]

theorem Copied.congr (h : Copied mem d s len c)
    (hd : ∀ b, d ≤ b → b < d + len → mem' b = mem b)
    (hs : ∀ b, s ≤ b → b < s + len → mem' b = mem b) : Copied mem' d s len c := by
  obtain ⟨k, hk, hdx, hsx, hblock⟩ := h
  refine ⟨k, hk, hdx, hsx, ?_⟩
  rw [block_congr fun b hb hlt => hd b hb (by omega), hblock]
  exact (block_congr fun b hb hlt => hs b hb (by omega)).symm

theorem Copied.assign_of_apart (h : Copied mem d s len c) (hn : n ≤ c.len) (ha : Apart d len p m)
    (hb : p ≤ b) (hlt : b < p + m) : assign mem c.dx c.sx n b = mem b := by
  obtain ⟨k, hk, hdx, -, -⟩ := h
  refine Memory.assign_of_apart mem ?_ hb hlt
  unfold Apart at *
  omega

-- ---------------------------------------------------------------------------
-- Buffers
-- ---------------------------------------------------------------------------

/-- `bytes` written into the buffer from `offset` on, where they fit. -/
def store (buf : List UInt8) (offset : Nat) (bytes : List UInt8) : Option (List UInt8) :=
  if offset + bytes.length ≤ buf.length then
    some (buf.take offset ++ bytes ++ buf.drop (offset + bytes.length))
  else none

theorem store_append {done free bytes : List UInt8} (h : bytes.length ≤ free.length) :
    store (done ++ free) done.length bytes = some (done ++ bytes ++ free.drop bytes.length) := by
  unfold store
  rw [if_pos (by rw [List.length_append]; omega), List.take_left, List.drop_length_add_append]

end Memory
