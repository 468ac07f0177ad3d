import Mathlib.Logic.Function.Basic
import IoTware.Base
import IoTware.Lib.Linked
import IoTware.Lib.Runs

/-!
# Linked lists

`iw_oal_list.c` on the nodes in memory: the pointers it writes, those that are
NULL included, and what the list is behind any history of calls. The other
modules see such a list as the nodes from its head on.
-/

namespace IoTware.Oal

open Linked Runs

variable {α : Type}

/-- An `iw_list_t` and the nodes in memory. A write through a NULL pointer changes
none of them; `nullWrites` counts these. -/
structure ListMemory (α : Type) where
  head : Option α
  nodeNum : UInt8
  next : α → Option α
  previous : α → Option α
  nullWrites : Nat

def iwInitList (m : ListMemory α) : ListMemory α := { m with head := none, nodeNum := 0 }

/-- The list in memory is the nodes `as`, from its head on. -/
structure Represents (m : ListMemory α) (as : List α) : Prop where
  nodup : as.Nodup
  chain : Chain m.next m.previous none m.head as
  count : m.nodeNum.toNat = nodeNum as

/-- The list is linked as its members are ordered. -/
structure WellLinked (m : ListMemory α) (as : List α) : Prop where
  visits : Visits m.next m.head as
  first : ∀ a, m.head = some a → m.previous a = none
  inverse : ∀ a ∈ as, ∀ b ∈ as, m.next a = some b ↔ m.previous b = some a

theorem Represents.wellLinked {m : ListMemory α} (h : Represents m as) : WellLinked m as where
  visits := h.chain.visits
  first _ hhead := (hhead ▸ h.chain).previous_head
  inverse _ ha _ hb := h.chain.inverse (fun b hb => absurd hb (Option.not_mem_none b)) ha hb

theorem represents_init (m : ListMemory α) : Represents (iwInitList m) [] :=
  ⟨List.nodup_nil, rfl, rfl⟩

variable [DecidableEq α]

def setNext (m : ListMemory α) (p value : Option α) : ListMemory α :=
  match p with
  | none => { m with nullWrites := m.nullWrites + 1 }
  | some a => { m with next := Function.update m.next a value }

def setPrevious (m : ListMemory α) (p value : Option α) : ListMemory α :=
  match p with
  | none => { m with nullWrites := m.nullWrites + 1 }
  | some a => { m with previous := Function.update m.previous a value }

def iwAddListNode (m : ListMemory α) (node : Option α) : ListMemory α × IwError :=
  match node with
  | none => (m, .fail)
  | some a =>
    let m := setNext m node m.head
    let m := setPrevious m node none
    let m := setPrevious m (m.next a) node
    ({ m with head := node, nodeNum := m.nodeNum + 1 }, .success)

def iwRemoveListNode (m : ListMemory α) (node : Option α) : ListMemory α × IwError :=
  match node with
  | none => (m, .fail)
  | some a =>
    let m :=
      if node = m.head then
        let m := { m with head := m.next a }
        setPrevious m (m.next a) none
      else
        let m := setPrevious m (m.next a) (m.previous a)
        setNext m (m.previous a) (m.next a)
    ({ m with nodeNum := m.nodeNum - 1 }, .success)

-- ---------------------------------------------------------------------------
-- Adding and removing
-- ---------------------------------------------------------------------------

@[simp] theorem setNext_previous (m : ListMemory α) (p value : Option α) :
    (setNext m p value).previous = m.previous := by
  cases p <;> rfl

@[simp] theorem setNext_list (m : ListMemory α) (p value : Option α) :
    (setNext m p value).head = m.head ∧ (setNext m p value).nodeNum = m.nodeNum := by
  cases p <;> exact ⟨rfl, rfl⟩

theorem setNext_next (m : ListMemory α) (p value : Option α) (b : α) :
    (setNext m p value).next b = if p = some b then value else m.next b := by
  cases p with
  | none => rw [if_neg (Option.some_ne_none b).symm]; rfl
  | some a => simp only [setNext, Function.update_apply, Option.some.injEq, eq_comm]

@[simp] theorem setPrevious_next (m : ListMemory α) (p value : Option α) :
    (setPrevious m p value).next = m.next := by
  cases p <;> rfl

@[simp] theorem setPrevious_list (m : ListMemory α) (p value : Option α) :
    (setPrevious m p value).head = m.head ∧ (setPrevious m p value).nodeNum = m.nodeNum := by
  cases p <;> exact ⟨rfl, rfl⟩

theorem setPrevious_previous (m : ListMemory α) (p value : Option α) (b : α) :
    (setPrevious m p value).previous b = if p = some b then value else m.previous b := by
  cases p with
  | none => rw [if_neg (Option.some_ne_none b).symm]; rfl
  | some a => simp only [setPrevious, Function.update_apply, Option.some.injEq, eq_comm]

theorem nullWrites_set (m : ListMemory α) (p value : Option α) :
    (setNext m p value).nullWrites = m.nullWrites + (if p = none then 1 else 0) ∧
      (setPrevious m p value).nullWrites = m.nullWrites + (if p = none then 1 else 0) := by
  cases p <;> exact ⟨rfl, rfl⟩

/-- A node is added in front of the list, with a write through NULL if the list is
empty. -/
theorem iwAddListNode_represents {m : ListMemory α} (h : Represents m as) (ha : a ∉ as) :
    Represents (iwAddListNode m (some a)).1 (a :: as) ∧
      (iwAddListNode m (some a)).1.nullWrites = m.nullWrites + (if m.head = none then 1 else 0) := by
  have hsuccessor : (setNext m (some a) m.head).next a = m.head := by
    rw [setNext_next, if_pos rfl]
  refine ⟨⟨List.nodup_cons.mpr ⟨ha, h.nodup⟩, ?_, ?_⟩, ?_⟩
  · refine h.chain.push h.nodup ha (fun b => ?_) fun b => ?_
    · simp only [iwAddListNode, setPrevious_next, setNext_next, Option.some.injEq, eq_comm]
    · simp only [iwAddListNode, setPrevious_next, hsuccessor, setPrevious_previous,
        setNext_previous, Option.some.injEq, eq_comm]
  · have hcount := h.count
    simp only [iwAddListNode, setPrevious_list, setNext_list, UInt8.toNat_add, hcount, nodeNum,
      List.length_cons]
    exact Nat.mod_add_mod _ _ _
  · simp only [iwAddListNode, setPrevious_next, hsuccessor, nullWrites_set]
    simp

theorem iwRemoveListNode_pointers {m : ListMemory α} (h : Represents m as) (ha : a ∈ as) :
    (∀ b, (iwRemoveListNode m (some a)).1.next b =
      if m.previous a = some b then m.next a else m.next b) ∧
    (∀ b, (iwRemoveListNode m (some a)).1.previous b =
      if m.next a = some b then m.previous a else m.previous b) ∧
    (iwRemoveListNode m (some a)).1.head = (if m.head = some a then m.next a else m.head) ∧
    (iwRemoveListNode m (some a)).1.nodeNum = m.nodeNum - 1 ∧
    (iwRemoveListNode m (some a)).1.nullWrites =
      m.nullWrites + (if m.next a = none then 1 else 0) := by
  unfold iwRemoveListNode
  dsimp only
  by_cases hhead : m.head = some a
  · have hfirst : m.previous a = none := (hhead ▸ h.chain).previous_head
    rw [if_pos hhead.symm, if_pos hhead, hfirst]
    refine ⟨fun b => ?_, fun b => ?_, ?_, ?_, ?_⟩
    · rw [if_neg (Option.some_ne_none b).symm, setPrevious_next]
    · rw [setPrevious_previous]
    · rw [(setPrevious_list _ _ _).1]
    · rw [(setPrevious_list _ _ _).2]
    · rw [(nullWrites_set _ _ _).2]
  · obtain ⟨c, hc⟩ : ∃ c, m.previous a = some c := by
      have hchain := h.chain
      cases as with
      | nil => cases ha
      | cons b as =>
        rcases List.mem_cons.mp ha with rfl | ha
        · exact absurd hchain.1 hhead
        · obtain ⟨c, -, hc, -⟩ := hchain.previous_mem ha
          exact ⟨c, hc⟩
    have hback : (setPrevious m (m.next a) (m.previous a)).previous a = m.previous a := by
      rw [setPrevious_previous, ite_self]
    rw [if_neg (fun heq => hhead heq.symm), if_neg hhead, hback, setPrevious_next]
    refine ⟨fun b => ?_, fun b => ?_, ?_, ?_, ?_⟩
    · rw [setNext_next, setPrevious_next]
    · rw [setNext_previous, setPrevious_previous]
    · rw [(setNext_list _ _ _).1, (setPrevious_list _ _ _).1]
    · rw [(setNext_list _ _ _).2, (setPrevious_list _ _ _).2]
    · rw [(nullWrites_set _ _ _).1, (nullWrites_set _ _ _).2, hc, if_neg (Option.some_ne_none c),
        Nat.add_zero]

/-- A node is taken out of the list, with a write through NULL if it is the last
one. -/
theorem iwRemoveListNode_represents {m : ListMemory α} (h : Represents m as) (ha : a ∈ as) :
    Represents (iwRemoveListNode m (some a)).1 (as.erase a) := by
  obtain ⟨hnext, hprevious, hhead, hnum, -⟩ := iwRemoveListNode_pointers h ha
  refine ⟨h.nodup.erase a, ?_, ?_⟩
  · rw [hhead]
    exact h.chain.remove h.nodup (fun b hb => absurd hb (Option.not_mem_none b)) ha hnext hprevious
  · have hlength := List.length_erase_of_mem ha
    have hpos := List.length_pos_of_mem ha
    rw [hnum, UInt8.toNat_sub, h.count, nodeNum, nodeNum, hlength]
    simp only [UInt8.toNat_one]
    omega

-- ---------------------------------------------------------------------------
-- Histories
-- ---------------------------------------------------------------------------

inductive ListCall (α : Type)
  | add (a : α)
  | remove (a : α)

/-- The calls a caller may make: it adds a node that is not in the list, and
removes one that is. Beside the memory stand the members, the one added last in
front. -/
inductive ListStep : ListMemory α × List α → ListCall α → ListMemory α × List α → Prop
  | add (h : a ∉ as) : ListStep (m, as) (.add a) ((iwAddListNode m (some a)).1, a :: as)
  | remove (h : a ∈ as) :
      ListStep (m, as) (.remove a) ((iwRemoveListNode m (some a)).1, as.erase a)

theorem represents_run {m₀ : ListMemory α} (hrun : Run ListStep (iwInitList m₀, []) run s) :
    Represents s.1 s.2 := by
  refine hrun.invariant (I := fun s => Represents s.1 s.2) (represents_init m₀) ?_
  rintro _ _ _ hs (⟨ha⟩ | ⟨ha⟩)
  · exact (iwAddListNode_represents hs ha).1
  · exact iwRemoveListNode_represents hs ha

def lacksSuccessor : ListMemory α × List α → ListCall α → Bool
  | (_, as), .add _ => as.isEmpty
  | (_, as), .remove a => as.getLast? == some a

theorem listStep_nullWrites {s : ListMemory α × List α} (h : Represents s.1 s.2)
    (hstep : ListStep s c s') :
    s'.1.nullWrites = s.1.nullWrites + (if lacksSuccessor s c then 1 else 0) := by
  cases hstep with
  | add ha =>
    rw [(iwAddListNode_represents h ha).2]
    refine congrArg _ (if_congr ?_ rfl rfl)
    exact h.chain.head_eq_none_iff.trans List.isEmpty_iff.symm
  | remove ha =>
    rw [(iwRemoveListNode_pointers h ha).2.2.2.2]
    refine congrArg _ (if_congr ?_ rfl rfl)
    exact (h.chain.next_eq_none_iff h.nodup ha).trans beq_iff_eq.symm

theorem nullWrites_run {m₀ : ListMemory α} (hrun : Run ListStep (iwInitList m₀, []) run s) :
    s.1.nullWrites = m₀.nullWrites + run.countP fun x => lacksSuccessor x.1 x.2 := by
  induction hrun with
  | start => rfl
  | @step run s c s' hrun hstep ih =>
    rw [listStep_nullWrites (represents_run hrun) hstep, ih, List.countP_append,
      List.countP_singleton, Nat.add_assoc]

theorem countP_run_eq_zero_iff {m₀ : ListMemory α}
    (hrun : Run ListStep (iwInitList m₀, []) run s) :
    (run.countP fun x => lacksSuccessor x.1 x.2) = 0 ↔ run = [] := by
  induction hrun with
  | start => exact iff_of_true rfl rfl
  | @step run s c s' hrun hstep ih =>
    refine iff_of_false ?_ (List.append_ne_nil_of_right_ne_nil run (List.cons_ne_nil _ _))
    rw [List.countP_append, Nat.add_eq_zero_iff, ih]
    rintro ⟨rfl, hlast⟩
    cases hrun.eq_start
    cases hstep with
    | add ha => cases hlast
    | remove ha => cases ha

/-- Every history leaves the list linked right, and writes through NULL as often as a
node had no successor: the empty history alone does not. -/
theorem list_wellLinked {m₀ : ListMemory α} (hrun : Run ListStep (iwInitList m₀, []) run s) :
    WellLinked s.1 s.2 ∧
      s.1.nullWrites = m₀.nullWrites + (run.countP fun x => lacksSuccessor x.1 x.2) ∧
      (s.1.nullWrites = m₀.nullWrites ↔ run = []) := by
  have hcount := nullWrites_run hrun
  refine ⟨(represents_run hrun).wellLinked, hcount, ?_⟩
  rw [← countP_run_eq_zero_iff hrun, hcount]
  omega

def zeroedMemory : ListMemory Nat :=
  { head := none, nodeNum := 0, next := fun _ => none, previous := fun _ => none, nullWrites := 0 }

theorem list_wellLinked_three_calls :
    let one := (iwAddListNode (iwInitList zeroedMemory) (some 1)).1
    let two := (iwAddListNode one (some 2)).1
    let removed := (iwRemoveListNode two (some 1)).1
    WellLinked removed [2] ∧ removed.nullWrites = 2 := by
  have hstart : Run ListStep (iwInitList zeroedMemory, []) [] (iwInitList zeroedMemory, []) :=
    .start
  have hadds := (hstart.step (.add List.not_mem_nil)).step (.add (show 2 ∉ [1] by decide))
  have hall := list_wellLinked (hadds.step (.remove (show 1 ∈ [2, 1] by decide)))
  exact ⟨hall.1, hall.2.1⟩

/-- One node added to a new list: the code writes to `node->next->previous`, with
`node->next` NULL. -/
theorem first_add_through_null :
    Run ListStep (iwInitList zeroedMemory, []) [((iwInitList zeroedMemory, []), .add 1)]
        ((iwAddListNode (iwInitList zeroedMemory) (some 1)).1, [1]) ∧
      (iwAddListNode (iwInitList zeroedMemory) (some 1)).1.nullWrites = 1 :=
  ⟨Run.start.step (.add List.not_mem_nil), rfl⟩

-- ---------------------------------------------------------------------------
-- Draining
-- ---------------------------------------------------------------------------

theorem iwRemoveListNode_nodeNum (m : ListMemory α) (a : α) :
    (iwRemoveListNode m (some a)).1.nodeNum = m.nodeNum - 1 := by
  unfold iwRemoveListNode
  dsimp only
  split
  · rw [(setPrevious_list _ _ _).2]
  · rw [(setNext_list _ _ _).2, (setPrevious_list _ _ _).2]

/-- `LIST_FOREACH_TO_DEL` with a body that removes the visited node: the nodes it
visits. -/
def listForeachToDel (m : ListMemory α) : Except Fault (List α × ListMemory α) :=
  if m.nodeNum = 0 then .ok ([], m)
  else
    match m.head with
    | none => .error .nullPointer
    | some a => do
      let (visited, m) ← listForeachToDel (iwRemoveListNode m (some a)).1
      return (a :: visited, m)
termination_by m.nodeNum.toNat
decreasing_by
  have hpos : m.nodeNum.toNat ≠ 0 := fun hzero => ‹¬m.nodeNum = 0› (UInt8.toNat_inj.mp hzero)
  have hlt := m.nodeNum.toNat_lt
  rw [iwRemoveListNode_nodeNum, UInt8.toNat_sub, UInt8.toNat_one]
  omega

theorem listForeachToDel_represents {m : ListMemory α} (h : Represents m as) :
    ∃ m', listForeachToDel m = .ok (as.take (nodeNum as), m') ∧
      Represents m' (foreachToDel as) := by
  induction hk : nodeNum as generalizing m as with
  | zero =>
    have hnum : m.nodeNum = 0 := UInt8.toNat_inj.mp (h.count.trans hk)
    refine ⟨m, ?_, ?_⟩
    · rw [listForeachToDel, if_pos hnum, List.take_zero]
    · rw [foreachToDel, hk, List.drop_zero]
      exact h
  | succ k ih =>
    have hnum : m.nodeNum ≠ 0 := fun hzero => by
      have hcount := h.count
      rw [hzero, hk] at hcount
      exact absurd hcount (Nat.succ_ne_zero k).symm
    cases as with
    | nil => cases hk
    | cons a as =>
      have hk' : nodeNum as = k := by
        simp only [nodeNum, List.length_cons] at hk ⊢
        omega
      have hremoved := iwRemoveListNode_represents h List.mem_cons_self
      rw [List.erase_cons_head] at hremoved
      obtain ⟨m', hloop, hm'⟩ := ih hremoved hk'
      refine ⟨m', ?_, ?_⟩
      · rw [listForeachToDel, if_neg hnum, h.chain.1]
        simp only [hloop]
        rfl
      · rw [foreachToDel, hk, List.drop_succ_cons, ← hk']
        exact hm'

/-- The counter tells an empty list, and the loop visits every node once and leaves
none. -/
structure Drains (m : ListMemory α) (as : List α) : Prop where
  emptiness : m.nodeNum = 0 ↔ m.head = none
  visits : ∃ visited m', listForeachToDel m = .ok (visited, m') ∧
    (∀ a ∈ as, visited.count a = 1) ∧ m'.head = none

theorem exists_run_adds (m₀ : ListMemory α) {as : List α} (hnodup : as.Nodup) :
    ∃ run m, Run ListStep (iwInitList m₀, []) run (m, as) := by
  induction as with
  | nil => exact ⟨_, _, Run.start⟩
  | cons a as ih =>
    obtain ⟨ha, hnodup⟩ := List.nodup_cons.mp hnodup
    obtain ⟨run, m, hrun⟩ := ih hnodup
    exact ⟨_, _, hrun.step (.add ha)⟩

/-- The counter and the pointers agree on the lists of at most 255 nodes. -/
theorem list_drains_iff {m₀ : ListMemory α} (hrun : Run ListStep (iwInitList m₀, []) run s) :
    Drains s.1 s.2 ↔ s.2.length < 256 := by
  have h := represents_run hrun
  obtain ⟨m', hloop, hm'⟩ := listForeachToDel_represents h
  constructor
  · rintro ⟨-, visited, m'', hloop', -, hempty⟩
    cases hloop.symm.trans hloop'
    exact foreachToDel_eq_nil_iff.mp (hm'.chain.head_eq_none_iff.mp hempty)
  · intro hlt
    have hall : nodeNum s.2 = s.2.length := nodeNum_of_lt hlt
    refine ⟨?_, _, m', hloop, fun a ha => ?_, ?_⟩
    · rw [h.chain.head_eq_none_iff, ← UInt8.toNat_inj, h.count, hall]
      exact List.length_eq_zero_iff
    · rw [hall, List.take_length]
      exact List.count_eq_one_of_mem h.nodup ha
    · rw [hm'.chain.head_eq_none_iff, foreachToDel_of_lt hlt]

theorem list_drains_255 :
    ∃ run m, Run ListStep (iwInitList zeroedMemory, []) run (m, List.range 255) ∧
      Drains m (List.range 255) := by
  have hlt : (List.range 255).length < 256 := by
    rw [List.length_range]
    omega
  have hnodup : (List.range 255).Nodup := List.nodup_range
  generalize List.range 255 = as at hlt hnodup ⊢
  obtain ⟨run, m, hrun⟩ := exists_run_adds zeroedMemory hnodup
  exact ⟨run, m, hrun, (list_drains_iff hrun).mpr hlt⟩

/-- The counter of a list of 256 nodes is back at 0: the loop visits none of them. -/
theorem list_of_256_not_drained :
    ∃ run m, Run ListStep (iwInitList zeroedMemory, []) run (m, List.range 256) ∧
      m.nodeNum = 0 ∧ m.head ≠ none ∧ listForeachToDel m = .ok ([], m) := by
  obtain ⟨run, m, hrun⟩ := exists_run_adds zeroedMemory (List.nodup_range (n := 256))
  have h := represents_run hrun
  have hnum : m.nodeNum = 0 := by
    rw [← UInt8.toNat_inj, h.count, nodeNum, List.length_range]
    rfl
  refine ⟨run, m, hrun, hnum, ?_, ?_⟩
  · rw [ne_eq, h.chain.head_eq_none_iff, List.range_eq_nil]
    decide
  · rw [listForeachToDel, if_pos hnum]

end IoTware.Oal
