import Mathlib.Data.List.Basic
import IoTware.Lib.Runs

/-!
# Bounded queues in a ring

What a bounded queue answers, and a queue kept in the slots of a ring between a
position to get from and a position to put to. One slot of the ring stays free,
so that a full ring differs from an empty one.
-/

namespace Ring

open Runs

variable {β : Type}

inductive QueueEvent (β : Type)
  | put (b : β) (accepted : Bool)
  | get (answer : Option β)
  | count (n : Nat)
  | flush

/-- The first-in first-out queue of at most `capacity` blocks. -/
inductive QueueStep (capacity : Nat) : List β → QueueEvent β → List β → Prop
  | put (h : q.length < capacity) : QueueStep capacity q (.put b true) (q ++ [b])
  | full (h : ¬q.length < capacity) : QueueStep capacity q (.put b false) q
  | get : QueueStep capacity (b :: q) (.get (some b)) q
  | empty : QueueStep capacity [] (.get none) []
  | count : QueueStep capacity q (.count q.length) q
  | flush : QueueStep capacity q .flush []

-- ---------------------------------------------------------------------------
-- Positions
-- ---------------------------------------------------------------------------

/-- The position `i` slots behind `p` in a ring of `n`. -/
def seat (n p i : Nat) : Nat := if p + i < n then p + i else p + i - n

theorem seat_zero (hp : p < n) : seat n p 0 = p := if_pos hp

theorem seat_lt (hp : p < n) (hi : i ≤ n) : seat n p i < n := by
  unfold seat
  split <;> omega

theorem seat_eq_mod (hp : p < n) (hi : i ≤ n) : seat n p i = (p + i) % n := by
  unfold seat
  split
  next h => exact (Nat.mod_eq_of_lt h).symm
  next h =>
    have hlt : p + i - n < n := by omega
    rw [Nat.mod_eq_sub_mod (by omega), Nat.mod_eq_of_lt hlt]

theorem seat_inj (hi : i < n) (hj : j < n) : seat n p i = seat n p j ↔ i = j := by
  unfold seat
  split <;> split <;> omega

theorem seat_succ (hp : p < n) (hi : i < n) : seat n (seat n p i) 1 = seat n p (i + 1) := by
  unfold seat
  split <;> split <;> split <;> omega

theorem seat_next (hp : p < n) (hi : i < n) : seat n (seat n p 1) i = seat n p (i + 1) := by
  unfold seat
  split <;> split <;> split <;> omega

-- ---------------------------------------------------------------------------
-- Queues in a ring
-- ---------------------------------------------------------------------------

/-- The queue `q` is in the ring `slot` of `n` slots, from `get` to `put`. -/
structure InRing (slot : Nat → β) (n get put : Nat) (q : List β) : Prop where
  room : q.length < n
  get_lt : get < n
  put_eq : put = seat n get q.length
  held : ∀ i b, q[i]? = some b → slot (seat n get i) = b

variable {slot slot' : Nat → β} {n get put : Nat} {q : List β} {b : β}

theorem InRing.put_lt (h : InRing slot n get put q) : put < n :=
  h.put_eq ▸ seat_lt h.get_lt (Nat.le_of_lt h.room)

theorem InRing.slot_lt (h : InRing slot n get put q) (hi : i < q.length) : seat n get i < n :=
  seat_lt h.get_lt (Nat.le_of_lt (Nat.lt_trans hi h.room))

theorem InRing.nil (hget : get < n) : InRing slot n get get [] where
  room := Nat.zero_lt_of_lt hget
  get_lt := hget
  put_eq := (seat_zero hget).symm
  held _ _ hi := by cases hi

theorem InRing.congr (h : InRing slot n get put q) (hslot : ∀ p < n, slot' p = slot p) :
    InRing slot' n get put q where
  room := h.room
  get_lt := h.get_lt
  put_eq := h.put_eq
  held i b hi := by
    have hlt : i < q.length := (List.getElem?_eq_some_iff.mp hi).1
    rw [hslot _ (h.slot_lt hlt)]
    exact h.held i b hi

theorem InRing.seat_ne_put (h : InRing slot n get put q) (hi : i < q.length) :
    seat n get i ≠ put := fun heq =>
  Nat.ne_of_lt hi ((seat_inj (Nat.lt_trans hi h.room) h.room).mp (heq.trans h.put_eq))

theorem InRing.congr_free (h : InRing slot n get put q)
    (hslot : ∀ p < n, p ≠ put → slot' p = slot p) : InRing slot' n get put q where
  room := h.room
  get_lt := h.get_lt
  put_eq := h.put_eq
  held i b hi := by
    have hlt : i < q.length := (List.getElem?_eq_some_iff.mp hi).1
    rw [hslot _ (h.slot_lt hlt) (h.seat_ne_put hlt)]
    exact h.held i b hi

theorem InRing.put_eq_get_iff (h : InRing slot n get put q) : put = get ↔ q = [] := by
  have hzero : get = seat n get 0 := (seat_zero h.get_lt).symm
  rw [h.put_eq]
  conv_lhs => rhs; rw [hzero]
  rw [seat_inj h.room (Nat.zero_lt_of_lt h.get_lt), List.length_eq_zero_iff]

theorem InRing.full_iff (h : InRing slot n get put q) :
    get = seat n put 1 ↔ ¬q.length < n - 1 := by
  have hroom := h.room
  have hget := h.get_lt
  rw [h.put_eq, seat_succ hget hroom]
  unfold seat
  split <;> omega

theorem InRing.length_eq (h : InRing slot n get put q) :
    q.length = if get < put then put - get else if get = put then 0 else put + n - get := by
  have hroom := h.room
  have hget := h.get_lt
  have hput := h.put_eq
  unfold seat at hput
  split at hput <;> split <;> try split
  all_goals omega

theorem InRing.push (h : InRing slot n get put q) (hroom : q.length < n - 1)
    (hput : slot' put = b) (hother : ∀ p < n, p ≠ put → slot' p = slot p) :
    InRing slot' n get (seat n put 1) (q ++ [b]) where
  room := by
    rw [List.length_append, List.length_singleton]
    omega
  get_lt := h.get_lt
  put_eq := by
    rw [h.put_eq, seat_succ h.get_lt h.room, List.length_append, List.length_singleton]
  held i c hi := by
    rcases Nat.lt_or_ge i q.length with hlt | hge
    · rw [List.getElem?_append_left hlt] at hi
      rw [hother _ (h.slot_lt hlt) (h.seat_ne_put hlt)]
      exact h.held i c hi
    · rw [List.getElem?_append_right hge, List.getElem?_singleton] at hi
      split at hi
      next hzero =>
        have heq : i = q.length := by omega
        rw [heq, ← h.put_eq, hput]
        exact Option.some.inj hi
      next => cases hi

theorem InRing.first (h : InRing slot n get put (b :: q)) : slot get = b := by
  have hfirst := h.held 0 b rfl
  rw [seat_zero h.get_lt] at hfirst
  exact hfirst

theorem InRing.pop (h : InRing slot n get put (b :: q)) : InRing slot n (seat n get 1) put q := by
  have hroom := h.room
  rw [List.length_cons] at hroom
  have hone : 1 ≤ n := by omega
  refine ⟨by omega, seat_lt h.get_lt hone, ?_, fun i c hi => ?_⟩
  · rw [h.put_eq, seat_next h.get_lt (by omega), List.length_cons]
  · have hlt : i < q.length := (List.getElem?_eq_some_iff.mp hi).1
    rw [seat_next h.get_lt (by omega)]
    exact h.held (i + 1) c hi

-- ---------------------------------------------------------------------------
-- Blocks put and got
-- ---------------------------------------------------------------------------

def QueueEvent.accepted : QueueEvent β → Option β
  | .put b true => some b
  | _ => none

def QueueEvent.answered : QueueEvent β → Option β
  | .get answer => answer
  | _ => none

/-- Without a flush, the blocks a queue took are those it gave and those it has, in
their order. -/
theorem run_queueStep_blocks {run : List (List β × QueueEvent β)}
    (hrun : Run (QueueStep capacity) [] run q) (hflush : .flush ∉ run.map Prod.snd) :
    (run.map Prod.snd).filterMap QueueEvent.accepted =
      (run.map Prod.snd).filterMap QueueEvent.answered ++ q ∧ q.length ≤ capacity := by
  induction hrun with
  | start => simp
  | step _ hs ih =>
    simp only [List.map_append, List.map_cons, List.map_nil, List.mem_append, not_or,
      List.filterMap_append] at hflush ⊢
    obtain ⟨hblocks, hle⟩ := ih hflush.1
    rw [hblocks]
    cases hs with
    | put h =>
      refine ⟨by simp [QueueEvent.accepted, QueueEvent.answered], ?_⟩
      rw [List.length_append]
      exact h
    | get =>
      refine ⟨by simp [QueueEvent.accepted, QueueEvent.answered], ?_⟩
      exact Nat.le_of_succ_le hle
    | full => exact ⟨by simp [List.filterMap_cons, QueueEvent.accepted, QueueEvent.answered], hle⟩
    | empty => exact ⟨by simp [List.filterMap_cons, QueueEvent.accepted, QueueEvent.answered], hle⟩
    | count => exact ⟨by simp [List.filterMap_cons, QueueEvent.accepted, QueueEvent.answered], hle⟩
    | flush => simp at hflush

end Ring
