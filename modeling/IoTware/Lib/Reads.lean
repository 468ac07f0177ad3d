import IoTware.Lib.Memory

/-!
# Computations that read memory

A computation gives a value and leaves the addresses it has read.
-/

namespace Memory

structure Reads (α : Type) where
  value : α
  offsets : List Nat

namespace Reads

instance : Monad Reads where
  pure a := ⟨a, []⟩
  bind x f := ⟨(f x.value).value, x.offsets ++ (f x.value).offsets⟩

variable {α β : Type}

@[simp] theorem value_pure (a : α) : (pure a : Reads α).value = a := rfl

@[simp] theorem value_bind (x : Reads α) (f : α → Reads β) :
    (x >>= f).value = (f x.value).value := rfl

def bytes (mem : Bytes) (p n : Nat) : Reads (List UInt8) := ⟨block mem p n, List.range' p n⟩

@[simp] theorem value_bytes (mem : Bytes) (p n : Nat) : (bytes mem p n).value = block mem p n := rfl

def Within (limit : Nat) (x : Reads α) : Prop := ∀ o ∈ x.offsets, o < limit

instance (limit : Nat) (x : Reads α) : Decidable (Within limit x) :=
  inferInstanceAs (Decidable (∀ o ∈ x.offsets, o < limit))

@[simp] theorem within_pure (limit : Nat) (a : α) : Within limit (pure a : Reads α) := by
  rintro _ ⟨⟩

@[simp] theorem within_bind (limit : Nat) (x : Reads α) (f : α → Reads β) :
    Within limit (x >>= f) ↔ Within limit x ∧ Within limit (f x.value) :=
  List.forall_mem_append

@[simp] theorem value_map (f : α → β) (x : Reads α) : (f <$> x).value = f x.value := rfl

@[simp] theorem within_map (limit : Nat) (f : α → β) (x : Reads α) :
    Within limit (f <$> x) ↔ Within limit x := by
  show Within limit (x >>= fun a => pure (f a)) ↔ _
  rw [within_bind, and_iff_left (within_pure limit _)]

@[simp] theorem within_bytes (limit : Nat) (mem : Bytes) (p n : Nat) :
    Within limit (bytes mem p n) ↔ n = 0 ∨ p + n ≤ limit := by
  unfold Within bytes
  simp only [List.mem_range'_1]
  constructor
  · intro h
    rcases Nat.eq_zero_or_pos n with hzero | hpos
    · exact .inl hzero
    · have hlast := h (p + n - 1) (by omega)
      omega
  · intro h o ho
    omega

end Reads

end Memory
