import IoTware.Dist.Handlers

/-!
# The microservices and tasks a request names

A handler changes the microservices while it looks them up by their ids. A
lookup is followed through these changes by what they leave: the ids, and a view
of each microservice. The tasks are looked up by their indices alike.
-/

namespace IoTware.Dist

open CText LwMsg Micro Loops

/-- The microservice that an object of `mis` names. -/
def serviceOf (services : List MicroService) (msid : LWMObject) : Option MicroService :=
  (getMicroServiceInfoById services msid.stringValue).map Prod.fst

/-- The lookup meets no NULL key, and what it finds has `P`. -/
def Finds (dict : LWMDictionary) (key : Text) (P : Option LWMObject → Prop) : Prop :=
  ∃ value, getLwmObjectFromDict dict key = .ok value ∧ P value

theorem succeeds_lookup {f : Option LWMObject → Except Fault α} {P : Option LWMObject → Prop}
    (hf : ∀ value, Succeeds (f value) ↔ P value) (dict : LWMDictionary) (key : Text) :
    Succeeds (getLwmObjectFromDict dict key >>= f) ↔ Finds dict key P := by
  rw [succeeds_bind]
  exact exists_congr fun value => and_congr_right fun _ => hf value

def WhenArray (value : Option LWMObject) (P : List LWMObject → Prop) : Prop :=
  ∀ items, value = some (.array items) → P items

theorem whenArray_array {items : List LWMObject} {P : List LWMObject → Prop} :
    WhenArray (some (.array items)) P ↔ P items := by
  constructor
  · exact fun h => h items rfl
  · rintro h _ ⟨⟩
    exact h

theorem succeeds_whenArray {f : List LWMObject → Except Fault α} {P : List LWMObject → Prop} {a : α}
    (hf : ∀ items, Succeeds (f items) ↔ P items) (value : Option LWMObject) :
    Succeeds (match value with
      | some (.array items) => f items
      | _ => pure a) ↔ WhenArray value P := by
  split
  · rw [hf, whenArray_array]
  · rename_i hnot
    exact iff_of_true (succeeds_pure a) fun items h => absurd h (hnot items)

-- ---------------------------------------------------------------------------
-- Lookups
-- ---------------------------------------------------------------------------

theorem getMicroServiceInfoById_some {text : Option Text}
    (h : getMicroServiceInfoById services text = some (ms, i)) : services[i]? = some ms := by
  unfold getMicroServiceInfoById at h
  split at h
  · cases h
  · split at h
    · cases h
    · exact List.mem_zipIdx_iff_getElem?.mp (List.mem_of_find?_eq_some h)

theorem set_getElem?_self {services : List MicroService} {i : Nat} (h : services[i]? = some ms) :
    services.set i ms = services := by
  obtain ⟨hlt, rfl⟩ := List.getElem?_eq_some_iff.mp h
  exact List.set_getElem_self hlt

def SameView (view : MicroService → α) (services services' : List MicroService) : Prop :=
  services'.map (fun ms => (ms.msId, view ms)) = services.map fun ms => (ms.msId, view ms)

theorem SameView.refl (view : MicroService → α) (services : List MicroService) :
    SameView view services services := rfl

theorem SameView.set {view : MicroService → α} (h : SameView view services₀ services)
    (hget : services[i]? = some ms) (hid : ms'.msId = ms.msId) (hview : view ms' = view ms) :
    SameView view services₀ (services.set i ms') := by
  refine Eq.trans ?_ h
  have hlt : i < services.length := (List.getElem?_eq_some_iff.mp hget).1
  refine List.ext_getElem? fun j => ?_
  rw [List.getElem?_map, List.getElem?_map, List.getElem?_set]
  split
  · rename_i hij
    rw [← hij, hget, Option.map_some, Option.map_some, hid, hview]
  · rfl

theorem getMicroServiceInfoById_view (view : MicroService → α) (services : List MicroService)
    (msId : Text) :
    (getMicroServiceInfoById services (some msId)).map (fun p => (view p.1, p.2)) =
      if msId = [] then none
      else ((services.map fun ms => (ms.msId, view ms)).zipIdx.find? fun p => msId = p.1.1).map
        fun p => (p.1.2, p.2) := by
  unfold getMicroServiceInfoById
  dsimp only
  split
  · rfl
  · rw [List.zipIdx_map, List.find?_map, Option.map_map]
    rfl

theorem SameView.info {view : MicroService → α} (h : SameView view services services')
    (text : Option Text) :
    (getMicroServiceInfoById services' text).map (fun p => (view p.1, p.2)) =
      (getMicroServiceInfoById services text).map fun p => (view p.1, p.2) := by
  cases text with
  | none => rfl
  | some msId => rw [getMicroServiceInfoById_view, getMicroServiceInfoById_view, h]

theorem SameView.found {view : MicroService → α} {text : Option Text}
    (h : SameView view services services')
    (hinfo : getMicroServiceInfoById services' text = some (ms', i)) :
    ∃ ms, getMicroServiceInfoById services text = some (ms, i) ∧ view ms' = view ms := by
  have hviews := h.info text
  rw [hinfo] at hviews
  obtain ⟨⟨ms, j⟩, hms, heq⟩ := Option.map_eq_some_iff.mp hviews.symm
  obtain ⟨hview, hj⟩ := Prod.mk.inj heq
  cases hj
  exact ⟨ms, hms, hview.symm⟩

theorem SameView.notFound {view : MicroService → α} {text : Option Text}
    (h : SameView view services services') (hinfo : getMicroServiceInfoById services' text = none) :
    getMicroServiceInfoById services text = none := by
  have hviews := h.info text
  rw [hinfo] at hviews
  exact Option.map_eq_none_iff.mp hviews.symm

-- ---------------------------------------------------------------------------
-- Tasks
-- ---------------------------------------------------------------------------

/-- An object of `tis` is a string, and the task it names has `P`. -/
def NamesTask (ms : MicroService) (P : Option TaskInfo → Prop) (obj : LWMObject) : Prop :=
  ∃ text, obj.stringValue = some text ∧ P (getTaskInfoByIdx ms (atol text).toUInt32)

theorem succeeds_taskIndex {f : UInt32 → Except Fault α} {ms : MicroService}
    {P : Option TaskInfo → Prop}
    (hf : ∀ index, Succeeds (f index) ↔ P (getTaskInfoByIdx ms index)) (obj : LWMObject) :
    Succeeds (taskIndex obj >>= f) ↔ NamesTask ms P obj := by
  unfold taskIndex NamesTask
  cases obj.stringValue with
  | none =>
    refine iff_of_false (not_succeeds_error _) ?_
    rintro ⟨_, h, -⟩
    cases h
  | some text =>
    refine (hf (atol text).toUInt32).trans ?_
    constructor
    · exact fun h => ⟨text, rfl, h⟩
    · rintro ⟨_, ⟨⟩, h⟩
      exact h

theorem getTaskInfoByIdx_view {α : Type} {g : TaskInfo → α} (idx : α → Nat)
    (hg : ∀ ti, idx (g ti) = ti.taskIdx) (h : ms'.tasks.nodes.map g = ms.tasks.nodes.map g)
    (index : UInt32) :
    (getTaskInfoByIdx ms' index).map g = (getTaskInfoByIdx ms index).map g := by
  have hfind : ∀ ms : MicroService, (ms.tasks.nodes.find? fun ti => ti.taskIdx = index.toNat).map g =
      (ms.tasks.nodes.map g).find? fun a => idx a = index.toNat := by
    intro ms
    rw [List.find?_map]
    congr 2
    funext ti
    exact congrArg (fun n => decide (n = index.toNat)) (hg ti).symm
  have hlength : ms'.tasks.nodes.length = ms.tasks.nodes.length := by
    simpa using congrArg List.length h
  unfold getTaskInfoByIdx nodeNum
  rw [hlength]
  split
  · rfl
  · rw [hfind, hfind, h]

theorem getTaskInfoByIdx_find? {index : UInt32} (h : getTaskInfoByIdx ms index = some ti) :
    ms.tasks.find? ti.id = some ti := by
  unfold getTaskInfoByIdx at h
  split at h
  · cases h
  · exact ms.tasks.find?_of_mem (List.mem_of_find?_eq_some h)

theorem offloardingTask_inv {s' : MicroService × UInt32}
    (h : offloardingTask onoff s obj = .ok (s', stop)) :
    ∃ index, taskIndex obj = .ok index ∧
      (getTaskInfoByIdx s.1 index = none ∧ s' = (s.1, 404) ∧ stop = true ∨
        ∃ ti, getTaskInfoByIdx s.1 index = some ti ∧ s'.1 = (taskOnoff s.1 ti.id onoff).1 ∧
          stop = !(taskOnoff s.1 ti.id onoff).2 ∧
          s'.2 = if (taskOnoff s.1 ti.id onoff).2 then 200 else 400) := by
  unfold offloardingTask at h
  rw [bind_ok] at h
  obtain ⟨index, hindex, h⟩ := h
  refine ⟨index, hindex, ?_⟩
  split at h
  · rename_i hti
    cases h
    exact .inl ⟨hti, rfl, rfl⟩
  · rename_i ti hti
    rw [bind_ok] at h
    obtain ⟨r, hcall, h⟩ := h
    cases Pointers.taskOnoff_ok hcall
    refine .inr ⟨ti, hti, ?_⟩
    dsimp only at h
    split at h
    · rename_i hon
      cases h
      simp [hon]
    · rename_i hoff
      cases h
      simp [Bool.eq_false_iff.mpr hoff]

end IoTware.Dist
