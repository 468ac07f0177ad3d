import Mathlib.Algebra.Group.Nat.Defs
import IoTware.Base
import IoTware.Lib.Memory
import IoTware.Lib.Ring
import IoTware.Lib.Runs

/-!
# FIFOs

`iw_oal_fifo.c` on the bytes in memory, and the bounded queue it is for its
callers.
-/

namespace IoTware.Oal

open Memory Ring Runs

structure Fifo where
  putPos : UInt32
  getPos : UInt32
  blockSize : UInt32
  blockCount : UInt32
  blockPdata : Nat

def putFifoNext (f : Fifo) : UInt32 := (f.putPos + 1) % f.blockCount

def getFifoNext (f : Fifo) : UInt32 := (f.getPos + 1) % f.blockCount

def putFifoPtr (f : Fifo) : Nat := f.blockPdata + (f.putPos * f.blockSize).toNat

def getFifoPtr (f : Fifo) : Nat := f.blockPdata + (f.getPos * f.blockSize).toNat

def iwInitFifo (pdata : Nat) (size count : UInt32) : Fifo × IwError :=
  ({ putPos := 0, getPos := 0, blockSize := size, blockCount := count, blockPdata := pdata },
    .success)

/-- The loop over the last bytes of `inline_memcpy`. -/
def inlineMemcpyBytes (mem : Bytes) (d s : Nat) : Nat → Bytes
  | 0 => mem
  | len + 1 => inlineMemcpyBytes (assign mem d s 1) (d + 1) (s + 1) len

def inlineMemcpy (mem : Bytes) (d s : Nat) : Nat → Bytes
  | len + 4 => inlineMemcpy (assign mem d s 4) (d + 4) (s + 4) len
  | len => inlineMemcpyBytes mem d s len

def iwPutFifo (mem : Bytes) (f : Fifo) (pdata : Nat) : Bytes × Fifo × IwError :=
  let putNextPos := (putFifoNext f).toInt32
  if f.getPos ≠ putNextPos.toUInt32 then
    (inlineMemcpy mem (putFifoPtr f) pdata f.blockSize.toNat,
      { f with putPos := putNextPos.toUInt32 }, .success)
  else (mem, f, .fail)

def iwGetFifo (mem : Bytes) (f : Fifo) (pdata : Nat) : Bytes × Fifo × IwError :=
  if f.putPos ≠ f.getPos then
    (inlineMemcpy mem pdata (getFifoPtr f) f.blockSize.toNat,
      { f with getPos := getFifoNext f }, .success)
  else (mem, f, .fail)

def iwCountFifo (f : Fifo) : UInt32 :=
  if f.putPos > f.getPos then f.putPos - f.getPos
  else if f.getPos ≠ f.putPos then (f.putPos + f.blockCount) - f.getPos
  else 0

def iwFlushFifo (f : Fifo) : Fifo × IwError := ({ f with getPos := f.putPos }, .success)

-- ---------------------------------------------------------------------------
-- Copying
-- ---------------------------------------------------------------------------

theorem inlineMemcpyBytes_eq (mem : Bytes) (h : Apart d len s len) :
    inlineMemcpyBytes mem d s len = assign mem d s len := by
  induction len generalizing mem d s with
  | zero => exact (assign_zero mem d s).symm
  | succ len ih =>
    have hrest : Apart (d + 1) len (s + 1) len := by
      unfold Apart at h ⊢
      omega
    have hall : Apart d (1 + len) s (1 + len) := Nat.add_comm len 1 ▸ h
    rw [inlineMemcpyBytes, ih _ hrest, assign_assign mem hall, Nat.add_comm 1 len]

theorem inlineMemcpy_eq (mem : Bytes) (h : Apart d len s len) :
    inlineMemcpy mem d s len = assign mem d s len := by
  induction mem, d, s, len using inlineMemcpy.induct with
  | case1 mem d s len ih =>
    have hrest : Apart (d + 4) len (s + 4) len := by
      unfold Apart at h ⊢
      omega
    have hall : Apart d (4 + len) s (4 + len) := Nat.add_comm len 4 ▸ h
    rw [inlineMemcpy, ih hrest, assign_assign mem hall, Nat.add_comm 4 len]
  | case2 mem d s len hshort =>
    rw [inlineMemcpy]
    · exact inlineMemcpyBytes_eq mem h
    · exact hshort

-- ---------------------------------------------------------------------------
-- The ring
-- ---------------------------------------------------------------------------

def slot (mem : Bytes) (f : Fifo) (p : Nat) : List UInt8 :=
  block mem (f.blockPdata + p * f.blockSize.toNat) f.blockSize.toNat

/-- The blocks are addressed by `unsigned int`s, and the queue `q` is in their ring. -/
structure Holds (n : Nat) (mem : Bytes) (f : Fifo) (q : List (List UInt8)) : Prop where
  fits : f.blockSize.toNat * f.blockCount.toNat < 2 ^ 32
  blocks : f.blockCount.toNat = n
  ring : InRing (slot mem f) n f.getPos.toNat f.putPos.toNat q

def CallerBlock (f : Fifo) (pdata : Nat) : Prop :=
  Apart f.blockPdata (f.blockSize.toNat * f.blockCount.toNat) pdata f.blockSize.toNat

theorem toNat_next {p n : UInt32} (hp : p.toNat < n.toNat) :
    ((p + 1) % n).toNat = seat n.toNat p.toNat 1 := by
  have hlt := n.toNat_lt
  rw [UInt32.toNat_mod, UInt32.toNat_add, UInt32.toNat_one, seat_eq_mod hp (by omega),
    Nat.mod_eq_of_lt (b := 2 ^ 32) (by omega)]

theorem slot_le (size : Nat) {n p : Nat} (hp : p < n) : p * size + size ≤ size * n := by
  rw [← Nat.succ_mul, Nat.mul_comm]
  exact Nat.mul_le_mul_left size hp

theorem slots_apart {size p p' : Nat} (a : Nat) (h : p ≠ p') :
    Apart (a + p * size) size (a + p' * size) size := by
  unfold Apart
  rcases Nat.lt_or_gt_of_ne h with hlt | hlt
  · have hle := Nat.mul_le_mul_right size hlt
    rw [Nat.succ_mul] at hle
    omega
  · have hle := Nat.mul_le_mul_right size hlt
    rw [Nat.succ_mul] at hle
    omega

theorem toNat_offset {f : Fifo} {p : UInt32}
    (hfits : f.blockSize.toNat * f.blockCount.toNat < 2 ^ 32)
    (hp : p.toNat < f.blockCount.toNat) :
    (p * f.blockSize).toNat = p.toNat * f.blockSize.toNat := by
  have hle := slot_le f.blockSize.toNat hp
  rw [UInt32.toNat_mul]
  exact Nat.mod_eq_of_lt (by omega)

theorem slot_apart {f : Fifo} (hp : p < f.blockCount.toNat) (hpdata : CallerBlock f pdata) :
    Apart (f.blockPdata + p * f.blockSize.toNat) f.blockSize.toNat pdata f.blockSize.toNat := by
  have hle := slot_le f.blockSize.toNat hp
  unfold CallerBlock Apart at *
  omega

-- ---------------------------------------------------------------------------
-- One call
-- ---------------------------------------------------------------------------

section

variable {n : Nat} {mem : Bytes} {f : Fifo} {q : List (List UInt8)}

theorem iwInitFifo_holds (mem : Bytes) (pdata : Nat) {size count : UInt32}
    (hfits : size.toNat * count.toNat < 2 ^ 32) (hcount : 1 ≤ count.toNat) :
    Holds count.toNat mem (iwInitFifo pdata size count).1 [] where
  fits := hfits
  blocks := rfl
  ring := .nil hcount

theorem Holds.getPos_lt (h : Holds n mem f q) : f.getPos.toNat < f.blockCount.toNat :=
  h.blocks ▸ h.ring.get_lt

theorem Holds.putPos_lt (h : Holds n mem f q) : f.putPos.toNat < f.blockCount.toNat :=
  h.blocks ▸ h.ring.put_lt

theorem Holds.putNext (h : Holds n mem f q) :
    (putFifoNext f).toNat = seat n f.putPos.toNat 1 := by
  rw [putFifoNext, toNat_next h.putPos_lt, h.blocks]

theorem Holds.room_iff (h : Holds n mem f q) :
    f.getPos ≠ (putFifoNext f).toInt32.toUInt32 ↔ q.length < n - 1 := by
  rw [UInt32.toUInt32_toInt32, ne_eq, ← UInt32.toNat_inj, h.putNext, h.ring.full_iff, not_not]

theorem Holds.nonempty_iff (h : Holds n mem f q) : f.putPos ≠ f.getPos ↔ q ≠ [] := by
  rw [ne_eq, ← UInt32.toNat_inj, h.ring.put_eq_get_iff]

theorem Holds.putPtr (h : Holds n mem f q) :
    putFifoPtr f = f.blockPdata + f.putPos.toNat * f.blockSize.toNat := by
  rw [putFifoPtr, toNat_offset h.fits h.putPos_lt]

theorem Holds.getPtr (h : Holds n mem f q) :
    getFifoPtr f = f.blockPdata + f.getPos.toNat * f.blockSize.toNat := by
  rw [getFifoPtr, toNat_offset h.fits h.getPos_lt]

theorem Holds.put (h : Holds n mem f q) (hpdata : CallerBlock f pdata)
    (hroom : q.length < n - 1) :
    (iwPutFifo mem f pdata).2.2 = .success ∧
      Holds n (iwPutFifo mem f pdata).1 (iwPutFifo mem f pdata).2.1
        (q ++ [block mem pdata f.blockSize.toNat]) := by
  have hcopy := inlineMemcpy_eq mem (slot_apart h.putPos_lt hpdata)
  unfold iwPutFifo
  rw [if_pos (h.room_iff.mpr hroom), h.putPtr, hcopy]
  refine ⟨rfl, h.fits, h.blocks, ?_⟩
  dsimp only
  rw [UInt32.toUInt32_toInt32, h.putNext]
  refine h.ring.push hroom (block_assign _ _ _ _) fun p hp hne => ?_
  exact block_assign_of_apart mem (slots_apart f.blockPdata (Ne.symm hne))

theorem Holds.put_full (h : Holds n mem f q) (pdata : Nat) (hfull : ¬q.length < n - 1) :
    iwPutFifo mem f pdata = (mem, f, .fail) :=
  if_neg fun hroom => hfull (h.room_iff.mp hroom)

theorem Holds.get (h : Holds n mem f (b :: q)) (hpdata : CallerBlock f pdata) :
    (iwGetFifo mem f pdata).2.2 = .success ∧
      block (iwGetFifo mem f pdata).1 pdata f.blockSize.toNat = b ∧
      Holds n (iwGetFifo mem f pdata).1 (iwGetFifo mem f pdata).2.1 q := by
  have hcopy := inlineMemcpy_eq mem (slot_apart h.getPos_lt hpdata).symm
  unfold iwGetFifo
  rw [if_pos (h.nonempty_iff.mpr (List.cons_ne_nil b q)), h.getPtr, hcopy]
  refine ⟨rfl, ?_, h.fits, h.blocks, ?_⟩
  · rw [block_assign]
    exact h.ring.first
  · dsimp only
    rw [getFifoNext, toNat_next h.getPos_lt, h.blocks]
    refine h.ring.pop.congr fun p hp => ?_
    exact block_assign_of_apart mem (slot_apart (h.blocks ▸ hp) hpdata).symm

theorem Holds.get_empty (h : Holds n mem f []) (pdata : Nat) :
    iwGetFifo mem f pdata = (mem, f, .fail) :=
  if_neg fun hne => h.nonempty_iff.mp hne rfl

theorem Holds.count (h : Holds n mem f q) : (iwCountFifo f).toNat = q.length := by
  have hget := h.getPos_lt
  have hput := h.putPos_lt
  have hlt := f.blockCount.toNat_lt
  rw [h.ring.length_eq, ← h.blocks]
  unfold iwCountFifo
  simp only [gt_iff_lt, UInt32.lt_iff_toNat_lt, ne_eq, ← UInt32.toNat_inj]
  split
  next =>
    rw [UInt32.toNat_sub]
    omega
  next =>
    rw [ite_not]
    split
    next => rfl
    next =>
      rw [UInt32.toNat_sub, UInt32.toNat_add]
      omega

theorem Holds.flush (h : Holds n mem f q) : Holds n mem (iwFlushFifo f).1 [] where
  fits := h.fits
  blocks := h.blocks
  ring := .nil h.ring.put_lt

end

-- ---------------------------------------------------------------------------
-- Histories
-- ---------------------------------------------------------------------------

def InBuffer (f : Fifo) (b : Nat) : Prop :=
  f.blockPdata ≤ b ∧ b < f.blockPdata + f.blockSize.toNat * f.blockCount.toNat

/-- What a caller does: it changes memory of its own, or makes a call. A call is seen
by its answer, by the block it is given and by the block it leaves to the caller. -/
inductive FifoStep : Bytes × Fifo → Option (QueueEvent (List UInt8)) → Bytes × Fifo → Prop
  | caller (h : ∀ b, InBuffer f b → mem' b = mem b) : FifoStep (mem, f) none (mem', f)
  | put (hpdata : CallerBlock f pdata) (hcall : iwPutFifo mem f pdata = (mem', f', answer)) :
      FifoStep (mem, f)
        (some (.put (block mem pdata f.blockSize.toNat) (answer = .success))) (mem', f')
  | get (hpdata : CallerBlock f pdata) (hcall : iwGetFifo mem f pdata = (mem', f', answer)) :
      FifoStep (mem, f)
        (some (.get (if answer = .success then some (block mem' pdata f.blockSize.toNat) else none)))
        (mem', f')
  | count : FifoStep (mem, f) (some (.count (iwCountFifo f).toNat)) (mem, f)
  | flush : FifoStep (mem, f) (some .flush) (mem, (iwFlushFifo f).1)

theorem slot_inBuffer {f : Fifo} (hp : p < f.blockCount.toNat)
    (hb : f.blockPdata + p * f.blockSize.toNat ≤ b)
    (hlt : b < f.blockPdata + p * f.blockSize.toNat + f.blockSize.toNat) : InBuffer f b := by
  have hle := slot_le f.blockSize.toNat hp
  exact ⟨by omega, by omega⟩

theorem Holds.caller {mem : Bytes} (h : Holds n mem f q) (hmem : ∀ b, InBuffer f b → mem' b = mem b) :
    Holds n mem' f q where
  fits := h.fits
  blocks := h.blocks
  ring := h.ring.congr fun _ hp => block_congr fun b hb hlt =>
    hmem b (slot_inBuffer (h.blocks ▸ hp) hb hlt)

theorem fifoStep_queueStep {s s' : Bytes × Fifo} (h : Holds n s.1 s.2 q)
    (hstep : FifoStep s (some e) s') :
    ∃ q', QueueStep (n - 1) q e q' ∧ Holds n s'.1 s'.2 q' := by
  cases hstep with
  | put hpdata hcall =>
    by_cases hroom : q.length < n - 1
    · obtain ⟨hanswer, hholds⟩ := h.put hpdata hroom
      dsimp only at hanswer hholds
      rw [hcall] at hanswer hholds
      rw [decide_eq_true hanswer]
      exact ⟨_, .put hroom, hholds⟩
    · cases hcall.symm.trans (h.put_full _ hroom)
      exact ⟨q, .full hroom, h⟩
  | get hpdata hcall =>
    cases q with
    | nil =>
      cases hcall.symm.trans (h.get_empty _)
      exact ⟨[], .empty, h⟩
    | cons b q =>
      obtain ⟨hanswer, hblock, hholds⟩ := h.get hpdata
      dsimp only at hanswer hblock hholds
      rw [hcall] at hanswer hblock hholds
      rw [if_pos hanswer, hblock]
      exact ⟨q, .get, hholds⟩
  | count =>
    dsimp only at h
    rw [h.count]
    exact ⟨q, .count, h⟩
  | flush => exact ⟨[], .flush, h.flush⟩

def Fails : QueueEvent β → Prop
  | .put _ accepted => accepted = false
  | .get answer => answer = none
  | .count _ | .flush => False

theorem fifoStep_fails (hstep : FifoStep s (some e) s') (hfails : Fails e) : s' = s := by
  cases hstep with
  | put hpdata hcall =>
    unfold iwPutFifo at hcall
    dsimp only at hcall
    split at hcall
    · cases hcall
      cases hfails
    · cases hcall
      rfl
  | get hpdata hcall =>
    unfold iwGetFifo at hcall
    split at hcall
    · cases hcall
      cases hfails
    · cases hcall
      rfl
  | count => cases hfails
  | flush => cases hfails

/-- A FIFO answers every history of calls as a queue of one block less than it was
given room for, and a call that fails changes nothing. -/
theorem fifo_refines_queue {size count : UInt32} (hfits : size.toNat * count.toNat < 2 ^ 32)
    (hcount : 1 ≤ count.toNat)
    (hrun : Run FifoStep (mem, (iwInitFifo pdata size count).1) run s) :
    (∃ run' q, Run (QueueStep (count.toNat - 1)) [] run' q ∧
      run'.map Prod.snd = run.filterMap Prod.snd) ∧
      ∀ e s', FifoStep s (some e) s' → Fails e → s' = s := by
  have hsilent : ∀ s s' q, Holds count.toNat s.1 s.2 q → FifoStep s none s' →
      Holds count.toNat s'.1 s'.2 q := by
    rintro _ _ q h ⟨hmem⟩
    exact h.caller hmem
  obtain ⟨run', q, hrun', hevents, -⟩ := hrun.simulated (iwInitFifo_holds mem pdata hfits hcount)
    (fun _ _ _ _ h hstep => fifoStep_queueStep h hstep) hsilent
  exact ⟨⟨run', q, hrun', hevents⟩, fun e s' hstep hfails => fifoStep_fails hstep hfails⟩

theorem fifo_refines_queue_two_slots :
    ∃ run s, Run FifoStep (UInt8.ofNat, (iwInitFifo 0 2 2).1) run s ∧
      run.filterMap Prod.snd =
        [.put [4, 5] true, .put [5, 6] false, .count 1, .get (some [4, 5]), .get none] ∧
      ∃ run' q, Run (QueueStep 1) [] run' q ∧ run'.map Prod.snd = run.filterMap Prod.snd := by
  have hstart : Run FifoStep (UInt8.ofNat, (iwInitFifo 0 2 2).1) []
      (UInt8.ofNat, (iwInitFifo 0 2 2).1) := .start
  have hput := hstart.step (.put (show CallerBlock _ 4 from .inl (by decide)) rfl)
  have hfull := hput.step (.put (show CallerBlock _ 5 from .inl (by decide)) rfl)
  have hcount := hfull.step .count
  have hget := hcount.step (.get (show CallerBlock _ 6 from .inl (by decide)) rfl)
  have hempty := hget.step (.get (show CallerBlock _ 6 from .inl (by decide)) rfl)
  exact ⟨_, _, hempty, rfl, (fifo_refines_queue (by decide) (by decide) hempty).1⟩

end IoTware.Oal
