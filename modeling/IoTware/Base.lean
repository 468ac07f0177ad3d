import IoTware.Lib.CText
import IoTware.Lib.Loops

/-!
# Faults and lists

What the framework modules share: the ways a run can leave the C language's
defined behaviour, and the `iw_list_t` lists. A list is the nodes from its head
on: `iw_add_list_node` inserts at the head.
-/

namespace IoTware

/-- `overrun` reads behind the buffer, `nullPointer` goes through a NULL
pointer, `notAList` walks a value that is no list, `wildPointer` goes through
something that is no pointer. `fuel` is no fault of the code: it stops the
recursion of a model function that was given too little of it. -/
inductive Fault
  | overrun | nullPointer | notAList | wildPointer | fuel
  deriving DecidableEq, Repr

inductive IwError
  | fail | success
  deriving DecidableEq, Repr

def nodeNum (nodes : List α) : Nat := nodes.length % 256

/-- `LIST_FOREACH_TO_DEL` with the visited head removed in its body: it stops
when the counter, not the list, is exhausted. -/
def foreachToDel (nodes : List α) : List α := nodes.drop (nodeNum nodes)

theorem nodeNum_of_lt {nodes : List α} (h : nodes.length < 256) : nodeNum nodes = nodes.length :=
  Nat.mod_eq_of_lt h

@[simp] theorem foreachToDel_nil : foreachToDel ([] : List α) = [] := rfl

theorem foreachToDel_of_lt {nodes : List α} (h : nodes.length < 256) : foreachToDel nodes = [] := by
  simp [foreachToDel, nodeNum_of_lt h]

theorem foreachToDel_eq_nil_iff {nodes : List α} :
    foreachToDel nodes = [] ↔ nodes.length < 256 := by
  simp only [foreachToDel, nodeNum, List.drop_eq_nil_iff]
  omega

theorem foreachToDel_append_iff {new old : List α} (h : old.length % 256 = 0) :
    foreachToDel (new ++ old) = old ↔ new.length < 256 := by
  unfold foreachToDel nodeNum
  constructor
  · intro heq
    have hlen := congrArg List.length heq
    rw [List.length_drop, List.length_append] at hlen
    omega
  · intro hlt
    have hnum : (new ++ old).length % 256 = new.length := by
      rw [List.length_append]
      omega
    rw [hnum, List.drop_left]

theorem length_foreachToDel_mod (nodes : List α) : (foreachToDel nodes).length % 256 = 0 := by
  unfold foreachToDel nodeNum
  rw [List.length_drop]
  omega

end IoTware
