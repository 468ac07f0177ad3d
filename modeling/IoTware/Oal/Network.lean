import IoTware.Base
import IoTware.Lib.CArray

/-!
# Network devices

The registry of `iw_dev_net.c`, the functions that look a device up in it, and their
counterpart in `iw_dev_sensor.c`. A device id is the place of the device in the
registry.
-/

namespace IoTware.Oal

open CText Loops CArray

def maxNetDev : Nat := 5

def maxDriverNameLen : Nat := 20

abbrev NetType := UInt32

def NetType.wifi : NetType := 1
def NetType.ble : NetType := 2
def NetType.lora : NetType := 4

/-- `net_dev_info_t`. The name is a C string in its array, and `func` tells whether the
device has a driver. -/
structure NetDevInfo where
  type : NetType
  name : Text
  func : Bool
  name_cstring : IsCString name
  name_lt : name.length < maxDriverNameLen

structure NetInfo where
  dev : List NetDevInfo
  dev_le : dev.length ≤ maxNetDev

/-- `registered_net_info_t`, an entry of the array that a caller gives. -/
structure RegisteredInfo where
  devId : Nat
  type : NetType
  name : List Char
  name_length : name.length = maxDriverNameLen

def devidFrom (type : NetType) (name : Option Text) (i : Nat) (found : Option Nat) :
    List NetDevInfo → Option Nat
  | [] => found
  | dev :: devs =>
    if type > 0 ∧ dev.type &&& type ≠ 0 then
      match name with
      | some name =>
        if name = dev.name then some i else devidFrom type (some name) (i + 1) found devs
      | none => devidFrom type none (i + 1) (some i) devs
    else devidFrom type name (i + 1) found devs

def getNetworkDevid (neti : NetInfo) (type : NetType) (name : Option Text) : Option Nat :=
  devidFrom type name 0 none neti.dev

-- ---------------------------------------------------------------------------
-- Filling the array of the caller
-- ---------------------------------------------------------------------------

/-- The array of the caller, and the entries of it that were written, the last one
first. -/
structure Filled where
  info : List RegisteredInfo
  written : List Nat

/-- The entry of the device `i`, to which `copy` copies the name. -/
def writeInfo (copy : List Char → List Char → Except OutOfBounds (List Char)) (s : Filled) (i : Nat)
    (dev : NetDevInfo) : Except OutOfBounds Filled :=
  match s.info[i]? with
  | none => .error .outOfBounds
  | some entry =>
    match copy entry.name (terminated dev.name) with
    | .error e => .error e
    | .ok name =>
      if h : name.length = maxDriverNameLen then
        .ok ⟨s.info.set i ⟨i, dev.type, name, h⟩, i :: s.written⟩
      else .error .outOfBounds

def copyName (dest src : List Char) : Except OutOfBounds (List Char) := do
  memcpy dest src (← strlen src)

/-- The loop of `iw_get_network_info` from the device `i` on: the name is not looked at
until one device is found. -/
def networkInfoFrom (type : NetType) (name : Option Text) (i : Nat) (found : Bool) (s : Filled) :
    List NetDevInfo → Except OutOfBounds (Bool × Filled)
  | [] => .ok (found, s)
  | dev :: devs =>
    if dev.type = type ∧ (found = false ∨ name = some dev.name) then do
      let s ← writeInfo copyName s i dev
      if found then return (found, s) else networkInfoFrom type name (i + 1) true s devs
    else networkInfoFrom type name (i + 1) found s devs

def getNetworkInfo (neti : NetInfo) (type : NetType) (name : Option Text)
    (info : Option (List RegisteredInfo)) : Except OutOfBounds (Option Filled × IwError) :=
  match info with
  | none => .ok (none, .fail)
  | some info => do
    let (found, s) ← networkInfoFrom type name 0 false ⟨info, []⟩ neti.dev
    return (some s, if found then .success else .fail)

def sensorInfoFrom (type : NetType) (name : Text) (i : Nat) (s : Filled) :
    List NetDevInfo → Except OutOfBounds (IwError × Filled)
  | [] => .ok (.fail, s)
  | dev :: devs =>
    if dev.type = type ∧ dev.name = name then do
      return (.success, ← writeInfo strcpy s i dev)
    else sensorInfoFrom type name (i + 1) s devs

/-- `iw_get_sensor_info`. The sensors `si` are kept with the same fields. -/
def getSensorInfo (si : List NetDevInfo) (type : NetType) (name : Option Text)
    (info : Option (List RegisteredInfo)) : Except OutOfBounds (Option Filled × IwError) :=
  match name, info with
  | some name, some info => do
    let (result, s) ← sensorInfoFrom type name 0 ⟨info, []⟩ si
    return (some s, result)
  | _, info => .ok (info.map fun info => ⟨info, []⟩, .fail)

def NetDevInfo.Is (type : NetType) (name : Text) (dev : NetDevInfo) : Prop :=
  dev.type = type ∧ dev.name = name

instance (type : NetType) (name : Text) (dev : NetDevInfo) : Decidable (dev.Is type name) :=
  inferInstanceAs (Decidable (_ ∧ _))

def Describes (devs : List NetDevInfo) (type : NetType) (name : Text) (info : List RegisteredInfo)
    (i : Nat) : Prop :=
  ∃ entry ∈ info[i]?, ∃ dev ∈ devs[entry.devId]?, dev.Is type name ∧
    entry.type = type ∧ string entry.name = .ok name

/-- What a lookup by type and name is to do. -/
structure LooksUp (devs : List NetDevInfo) (type : NetType) (name : Text) (s : Filled)
    (result : IwError) : Prop where
  success_iff : result = .success ↔ ∃ dev ∈ devs, dev.Is type name
  describes : result = .success → ∀ i ∈ s.written, Describes devs type name s.info i

/-- The ids of the devices of the type and the name, where the first device is `k`. -/
def placesFrom (type : NetType) (name : Text) (k : Nat) (devs : List NetDevInfo) : List Nat :=
  ((devs.zipIdx k).filter fun p => p.1.Is type name).map Prod.snd

/-- The first device of the type has the name, and where the name ends in an entry that
is to be written, the entry has a terminator. -/
structure FirstHasName (devs : List NetDevInfo) (type : NetType) (name : Text)
    (info : List RegisteredInfo) : Prop where
  first : ∀ dev ∈ devs.find? fun dev => dev.type = type, dev.name = name
  ends : ∀ i ∈ (placesFrom type name 0 devs).take 2, ∀ entry ∈ info[i]?,
    entry.name[name.length]? = some nul

-- ---------------------------------------------------------------------------
-- What the loops come to
-- ---------------------------------------------------------------------------

theorem placesFrom_none (h : ∀ dev ∈ devs, ¬ dev.Is type name) (k : Nat) :
    placesFrom type name k devs = [] := by
  unfold placesFrom
  rw [List.map_eq_nil_iff, List.filter_eq_nil_iff]
  intro p hp
  have hmem : p.1 ∈ devs := List.fst_mem_of_mem_zipIdx hp
  simpa using h p.1 hmem

theorem placesFrom_append (h : ∀ d ∈ before, ¬ d.Is type name) (hdev : dev.Is type name) (k : Nat)
    (after : List NetDevInfo) :
    placesFrom type name k (before ++ dev :: after) =
      (k + before.length) :: placesFrom type name (k + before.length + 1) after := by
  have hnone := placesFrom_none h k
  unfold placesFrom at hnone ⊢
  rw [List.zipIdx_append, List.filter_append, List.map_append, hnone, List.nil_append,
    List.zipIdx_cons, List.filter_cons_of_pos (by simpa using hdev), List.map_cons]

theorem getElem?_middle (before after : List NetDevInfo) (dev : NetDevInfo) :
    (before ++ dev :: after)[before.length]? = some dev := by
  rw [List.getElem?_append_right (Nat.le_refl _), Nat.sub_self]
  rfl

theorem exists_first (p : NetDevInfo → Prop) [DecidablePred p] (devs : List NetDevInfo) :
    (∀ d ∈ devs, ¬ p d) ∨
      ∃ before dev after, devs = before ++ dev :: after ∧ p dev ∧ ∀ d ∈ before, ¬ p d := by
  cases h : devs.find? fun d => p d with
  | none => exact .inl fun d hd => by simpa using List.find?_eq_none.mp h d hd
  | some dev =>
    obtain ⟨hdev, before, after, heq, hbefore⟩ := List.find?_eq_some_iff_append.mp h
    exact .inr ⟨before, dev, after, heq, by simpa using hdev, fun d hd => by simpa using hbefore d hd⟩

theorem networkInfoFrom_skip
    (h : ∀ d ∈ before, ¬ (d.type = type ∧ (found = false ∨ name = some d.name))) (i : Nat) (s : Filled)
    (devs : List NetDevInfo) :
    networkInfoFrom type name i found s (before ++ devs) =
      networkInfoFrom type name (i + before.length) found s devs := by
  induction before generalizing i with
  | nil => rfl
  | cons d before ih =>
    rw [List.forall_mem_cons] at h
    rw [List.cons_append, networkInfoFrom, if_neg h.1, ih h.2, List.length_cons, Nat.add_assoc,
      Nat.add_comm 1]

theorem networkInfoFrom_hit (h : dev.type = type ∧ (found = false ∨ name = some dev.name)) (i : Nat)
    (s : Filled) (after : List NetDevInfo) :
    networkInfoFrom type name i found s (dev :: after) = (do
      let s ← writeInfo copyName s i dev
      if found then return (found, s) else networkInfoFrom type name (i + 1) true s after) :=
  if_pos h

/-- The entries that were written hold what was copied from their devices, and the
others are as they were. -/
structure Copied (devs : List NetDevInfo) (info : List RegisteredInfo) (s : Filled) : Prop where
  written : ∀ i ∈ s.written, ∃ dev old new, devs[i]? = some dev ∧ info[i]? = some old ∧
    s.info[i]? = some new ∧ new.devId = i ∧ new.type = dev.type ∧
      new.name = dev.name ++ old.name.drop dev.name.length
  others : ∀ i, i ∉ s.written → s.info[i]? = info[i]?

theorem Copied.start (devs : List NetDevInfo) (info : List RegisteredInfo) :
    Copied devs info ⟨info, []⟩ :=
  ⟨fun _ hmem => absurd hmem List.not_mem_nil, fun _ _ => rfl⟩

theorem copyName_ok (hs : IsCString s) (h : s.length ≤ a.length) :
    copyName a (terminated s) = .ok (s ++ a.drop s.length) := by
  have hcopy : memcpy a (terminated s) s.length =
      .ok ((terminated s).take s.length ++ a.drop s.length) :=
    memcpy_ok (by simp [terminated]) h
  have htake : (terminated s).take s.length = s := List.take_left
  rw [htake] at hcopy
  exact bind_ok.mpr ⟨_, strlen_of_string (string_terminated_of hs), hcopy⟩

theorem Copied.write (h : Copied devs info s) (hdev : devs[i]? = some dev) (hi : i < info.length)
    (hnew : i ∉ s.written) :
    ∃ s', writeInfo copyName s i dev = .ok s' ∧ s'.written = i :: s.written ∧ Copied devs info s' := by
  obtain ⟨old, hold⟩ : ∃ old, info[i]? = some old := ⟨_, List.getElem?_eq_getElem hi⟩
  have hentry := (h.others i hnew).trans hold
  have hle : dev.name.length ≤ old.name.length := by
    rw [old.name_length]
    exact Nat.le_of_lt dev.name_lt
  have hlength : (dev.name ++ old.name.drop dev.name.length).length = maxDriverNameLen := by
    rw [List.length_append, List.length_drop, Nat.add_sub_cancel' hle, old.name_length]
  refine ⟨⟨s.info.set i ⟨i, dev.type, _, hlength⟩, i :: s.written⟩, ?_, rfl, ?_, ?_⟩
  · unfold writeInfo
    rw [hentry]
    dsimp only
    rw [copyName_ok dev.name_cstring hle]
    exact dif_pos hlength
  · have hlt : i < s.info.length := (List.getElem?_eq_some_iff.mp hentry).1
    intro j hj
    rcases List.mem_cons.mp hj with rfl | hj
    · exact ⟨dev, old, _, hdev, hold, List.getElem?_set_self hlt, rfl, rfl, rfl⟩
    · have hne : i ≠ j := fun heq => hnew (heq ▸ hj)
      obtain ⟨dev', old', new', hdev', hold', hnew', hrest⟩ := h.written j hj
      exact ⟨dev', old', new', hdev', hold', (List.getElem?_set_ne hne).trans hnew', hrest⟩
  · intro j hj
    rw [List.mem_cons, not_or] at hj
    exact (List.getElem?_set_ne (Ne.symm hj.1)).trans (h.others j hj.2)

theorem Copied.describes_iff (h : Copied devs info s) (hi : i ∈ s.written) (hdev : devs[i]? = some dev)
    (hold : info[i]? = some old) :
    Describes devs type name s.info i ↔ dev.Is type name ∧ old.name[name.length]? = some nul := by
  obtain ⟨dev', old', new, hdev', hold', hnew, hid, htype, hname⟩ := h.written i hi
  rw [hdev] at hdev'
  rw [hold] at hold'
  cases hdev'
  cases hold'
  unfold Describes
  simp only [hnew, Option.mem_def, Option.some.injEq, exists_eq_left', hid, hdev, htype, hname]
  refine and_congr_right fun his => ?_
  rw [← his.2, string_append_drop_iff dev.name_cstring, and_iff_right his.1]

theorem mem_placesFrom : i ∈ placesFrom type name k devs ↔
    k ≤ i ∧ ∃ dev, devs[i - k]? = some dev ∧ dev.Is type name := by
  unfold placesFrom
  simp only [List.mem_map, List.mem_filter, decide_eq_true_eq, List.mem_zipIdx_iff_le_and_getElem?_sub]
  constructor
  · rintro ⟨⟨dev, j⟩, ⟨⟨hle, hdev⟩, his⟩, rfl⟩
    exact ⟨hle, dev, hdev, his⟩
  · rintro ⟨hle, dev, hdev, his⟩
    exact ⟨(dev, i), ⟨⟨hle, hdev⟩, his⟩, rfl⟩

theorem networkInfoFrom_found (type : NetType) (name : Text) (h : Copied (front ++ devs) info s)
    (hlen : (front ++ devs).length ≤ info.length) (hwritten : ∀ i ∈ s.written, i < front.length) :
    ∃ s', networkInfoFrom type (some name) front.length true s devs = .ok (true, s') ∧
      s'.written = (placesFrom type name front.length devs).take 1 ++ s.written ∧
      Copied (front ++ devs) info s' := by
  have hskip (d : NetDevInfo) (hd : ¬ d.Is type name) :
      ¬ (d.type = type ∧ (true = false ∨ some name = some d.name)) := by
    rintro ⟨htype, hname⟩
    rcases hname with hfalse | hname
    · cases hfalse
    · exact hd ⟨htype, (Option.some.inj hname).symm⟩
  rcases exists_first (NetDevInfo.Is type name) devs with
    hnone | ⟨before, dev, after, rfl, his, hbefore⟩
  · refine ⟨s, ?_, ?_, h⟩
    · rw [← List.append_nil devs, networkInfoFrom_skip fun d hd => hskip d (hnone d hd)]
      rfl
    · rw [placesFrom_none hnone]
      rfl
  · have hplace : (front ++ (before ++ dev :: after))[front.length + before.length]? = some dev := by
      rw [List.getElem?_append_right (Nat.le_add_right _ _), Nat.add_sub_cancel_left]
      exact getElem?_middle before after dev
    have hlt := (List.getElem?_eq_some_iff.mp hplace).1
    have hnew : front.length + before.length ∉ s.written := fun hmem => by
      have := hwritten _ hmem
      omega
    obtain ⟨s', hwrite, hw, hcopied⟩ := h.write hplace (Nat.lt_of_lt_of_le hlt hlen) hnew
    refine ⟨s', ?_, ?_, hcopied⟩
    · rw [networkInfoFrom_skip fun d hd => hskip d (hbefore d hd),
        networkInfoFrom_hit ⟨his.1, .inr (congrArg some his.2.symm)⟩]
      exact bind_ok.mpr ⟨s', hwrite, rfl⟩
    · rw [placesFrom_append hbefore his, hw]
      rfl

/-- A lookup finds no device of the type, or it writes the first one and then the next
one that has the name. -/
theorem getNetworkInfo_ok (neti : NetInfo) (type : NetType) (name : Text)
    (hinfo : neti.dev.length ≤ info.length) :
    ((∀ dev ∈ neti.dev, dev.type ≠ type) ∧
      getNetworkInfo neti type (some name) (some info) = .ok (some ⟨info, []⟩, .fail)) ∨
    ∃ before dev after s, neti.dev = before ++ dev :: after ∧ dev.type = type ∧
      (∀ d ∈ before, d.type ≠ type) ∧
      getNetworkInfo neti type (some name) (some info) = .ok (some s, .success) ∧
      s.written = (placesFrom type name (before.length + 1) after).take 1 ++ [before.length] ∧
      Copied neti.dev info s := by
  rcases exists_first (fun d => d.type = type) neti.dev with
    hnone | ⟨before, dev, after, heq, htype, hbefore⟩
  · refine .inl ⟨hnone, bind_ok.mpr ⟨(false, ⟨info, []⟩), ?_, rfl⟩⟩
    rw [← List.append_nil neti.dev, networkInfoFrom_skip fun d hd hif => hnone d hd hif.1]
    rfl
  · have hplace : neti.dev[before.length]? = some dev := by
      rw [heq]
      exact getElem?_middle before after dev
    have hlt := (List.getElem?_eq_some_iff.mp hplace).1
    obtain ⟨s₁, hwrite, hw₁, hcopied₁⟩ :=
      (Copied.start neti.dev info).write hplace (Nat.lt_of_lt_of_le hlt hinfo) List.not_mem_nil
    have hfront : neti.dev = (before ++ [dev]) ++ after := by rw [heq, List.append_assoc]; rfl
    have hlength : (before ++ [dev]).length = before.length + 1 := List.length_append
    rw [hfront] at hcopied₁
    have hwritten : ∀ i ∈ s₁.written, i < (before ++ [dev]).length := by
      rw [hw₁, hlength]
      simp
    obtain ⟨s, hloop, hw, hcopied⟩ := networkInfoFrom_found type name hcopied₁ (hfront ▸ hinfo) hwritten
    rw [hlength] at hloop hw
    refine .inr ⟨before, dev, after, s, heq, htype, hbefore, bind_ok.mpr ⟨(true, s), ?_, rfl⟩, ?_, ?_⟩
    · rw [heq, networkInfoFrom_skip fun d hd hif => hbefore d hd hif.1,
        networkInfoFrom_hit ⟨htype, .inl rfl⟩, Nat.zero_add]
      exact bind_ok.mpr ⟨s₁, hwrite, hloop⟩
    · rw [hw, hw₁]
    · rw [hfront]
      exact hcopied

theorem firstHasName_iff (devs before after : List NetDevInfo) (heq : devs = before ++ dev :: after)
    (htype : dev.type = type) (hbefore : ∀ d ∈ before, d.type ≠ type) (name : Text)
    (info : List RegisteredInfo) :
    FirstHasName devs type name info ↔ dev.name = name ∧
      ∀ i ∈ (placesFrom type name (before.length + 1) after).take 1 ++ [before.length],
        ∀ entry ∈ info[i]?, entry.name[name.length]? = some nul := by
  subst heq
  have hfind : (before ++ dev :: after).find? (fun d => d.type = type) = some dev :=
    List.find?_eq_some_iff_append.mpr ⟨by simpa using htype, before, after, rfl, by simpa using hbefore⟩
  have hplaces (hname : dev.name = name) : placesFrom type name 0 (before ++ dev :: after) =
      before.length :: placesFrom type name (before.length + 1) after := by
    rw [placesFrom_append (fun d hd his => hbefore d hd his.1) ⟨htype, hname⟩, Nat.zero_add]
  constructor
  · intro h
    have hname := h.first dev hfind
    refine ⟨hname, fun i hi => h.ends i ?_⟩
    rw [hplaces hname, List.take_succ_cons, List.mem_cons]
    exact (List.mem_append.mp hi).elim .inr fun hi => .inl (List.mem_singleton.mp hi)
  · rintro ⟨hname, hends⟩
    refine ⟨fun d hd => ?_, fun i hi => hends i ?_⟩
    · cases hfind.symm.trans hd
      exact hname
    · rw [hplaces hname, List.take_succ_cons, List.mem_cons] at hi
      exact List.mem_append.mpr (hi.elim (fun hi => .inr (List.mem_singleton.mpr hi)) .inl)

/-- A device that was written is one of the type and the name, unless it is the first of
the type. -/
theorem describes_written (h : Copied devs info s) (hinfo : devs.length ≤ info.length)
    (heq : devs = before ++ dev :: after) (htype : dev.type = type)
    (hwritten :
      s.written = (placesFrom type name (before.length + 1) after).take 1 ++ [before.length]) :
    (∀ i ∈ s.written, Describes devs type name s.info i) ↔ dev.name = name ∧
      ∀ i ∈ s.written, ∀ entry ∈ info[i]?, entry.name[name.length]? = some nul := by
  have hplace : devs[before.length]? = some dev := by
    rw [heq]
    exact getElem?_middle before after dev
  have hentry {i d} (hd : devs[i]? = some d) : ∃ old, info[i]? = some old :=
    ⟨_, List.getElem?_eq_getElem (Nat.lt_of_lt_of_le (List.getElem?_eq_some_iff.mp hd).1 hinfo)⟩
  have hfirst : before.length ∈ s.written := by
    rw [hwritten]
    simp
  -- the devices that were written are of the type and the name once the first one is
  have hdevs (hname : dev.name = name) (i) (hi : i ∈ s.written) :
      ∃ d, devs[i]? = some d ∧ d.Is type name := by
    rw [hwritten, List.mem_append, List.mem_singleton] at hi
    rcases hi with hi | rfl
    · obtain ⟨hle, d, hd, his⟩ := mem_placesFrom.mp (List.mem_of_mem_take hi)
      refine ⟨d, ?_, his⟩
      rw [heq, List.getElem?_append_right (by omega), ← hd,
        show i - before.length = i - (before.length + 1) + 1 by omega]
      rfl
    · exact ⟨dev, hplace, htype, hname⟩
  constructor
  · intro hall
    have hname : dev.name = name := by
      obtain ⟨old, hold⟩ := hentry hplace
      exact ((h.describes_iff hfirst hplace hold).mp (hall _ hfirst)).1.2
    refine ⟨hname, fun i hi entry hold => ?_⟩
    obtain ⟨d, hd, -⟩ := hdevs hname i hi
    exact ((h.describes_iff hi hd hold).mp (hall i hi)).2
  · rintro ⟨hname, hends⟩ i hi
    obtain ⟨d, hd, his⟩ := hdevs hname i hi
    obtain ⟨old, hold⟩ := hentry hd
    exact (h.describes_iff hi hd hold).mpr ⟨his, hends i hi old hold⟩

/-- A lookup by type and name does what it is to do exactly if the first device of the
type has the name, and where the name ends there was a terminator already. -/
theorem getNetworkInfo_looksUp_iff (neti : NetInfo) (type : NetType) (name : Text)
    (info : List RegisteredInfo) (hinfo : neti.dev.length ≤ info.length) :
    ∃ s result, getNetworkInfo neti type (some name) (some info) = .ok (some s, result) ∧
      (LooksUp neti.dev type name s result ↔ FirstHasName neti.dev type name info) := by
  rcases getNetworkInfo_ok neti type name hinfo with
    ⟨hnone, hget⟩ | ⟨before, dev, after, s, heq, htype, hbefore, hget, hwritten, hcopied⟩
  · refine ⟨_, _, hget, iff_of_true ⟨?_, nofun⟩ ⟨?_, ?_⟩⟩
    · refine iff_of_false nofun ?_
      rintro ⟨dev, hdev, his⟩
      exact hnone dev hdev his.1
    · intro dev hdev
      rw [List.find?_eq_none.mpr (by simpa using hnone)] at hdev
      cases hdev
    · rw [placesFrom_none fun dev hdev his => hnone dev hdev his.1]
      nofun
  · refine ⟨s, .success, hget, ?_⟩
    rw [firstHasName_iff neti.dev before after heq htype hbefore, ← hwritten,
      ← describes_written hcopied hinfo heq htype hwritten]
    constructor
    · exact fun h => h.describes rfl
    · intro h
      have hname := ((describes_written hcopied hinfo heq htype hwritten).mp h).1
      refine ⟨iff_of_true rfl ⟨dev, ?_, htype, hname⟩, fun _ => h⟩
      rw [heq]
      exact List.mem_append_right _ List.mem_cons_self

def sampleWifi : NetDevInfo := ⟨.wifi, ['e', 's', 'p'], true, by decide, by decide⟩

def sampleNet : NetInfo where
  dev := [sampleWifi, ⟨.wifi, ['m', 'x'], true, by decide, by decide⟩]
  dev_le := by decide

def zeroedInfo (n : Nat) : List RegisteredInfo :=
  List.replicate n ⟨0, 0, calloc maxDriverNameLen, length_calloc _⟩

theorem getNetworkInfo_looksUp_first :
    ∃ s result, getNetworkInfo sampleNet .wifi (some ['e', 's', 'p']) (some (zeroedInfo 2)) =
        .ok (some s, result) ∧
      (LooksUp sampleNet.dev .wifi ['e', 's', 'p'] s result ↔
        FirstHasName sampleNet.dev .wifi ['e', 's', 'p'] (zeroedInfo 2)) :=
  getNetworkInfo_looksUp_iff sampleNet .wifi ['e', 's', 'p'] (zeroedInfo 2) (by decide)

/-- No device of the type has the name, and the lookup succeeds. -/
theorem getNetworkInfo_other_name :
    ∃ s, getNetworkInfo sampleNet .wifi (some ['b', 'g']) (some (zeroedInfo 2)) =
        .ok (some s, .success) ∧
      ¬ LooksUp sampleNet.dev .wifi ['b', 'g'] s .success := by
  refine ⟨_, rfl, fun h => ?_⟩
  have hex := h.success_iff.mp rfl
  revert hex
  decide

-- ---------------------------------------------------------------------------
-- Sensors
-- ---------------------------------------------------------------------------

theorem sensorInfoFrom_skip (h : ∀ d ∈ before, ¬ d.Is type name) (i : Nat) (s : Filled)
    (devs : List NetDevInfo) :
    sensorInfoFrom type name i s (before ++ devs) =
      sensorInfoFrom type name (i + before.length) s devs := by
  induction before generalizing i with
  | nil => rfl
  | cons d before ih =>
    rw [List.forall_mem_cons] at h
    have hd : ¬ (d.type = type ∧ d.name = name) := h.1
    rw [List.cons_append, sensorInfoFrom, if_neg hd, ih h.2, List.length_cons, Nat.add_assoc,
      Nat.add_comm 1]

theorem getSensorInfo_looksUp (hinfo : si.length ≤ info.length) :
    ∃ s result, getSensorInfo si type (some name) (some info) = .ok (some s, result) ∧
      LooksUp si type name s result := by
  rcases exists_first (NetDevInfo.Is type name) si with hnone | ⟨before, dev, after, rfl, his, hbefore⟩
  · refine ⟨⟨info, []⟩, .fail, bind_ok.mpr ⟨(.fail, ⟨info, []⟩), ?_, rfl⟩, ?_, nofun⟩
    · rw [← List.append_nil si, sensorInfoFrom_skip hnone]
      rfl
    · refine iff_of_false nofun ?_
      rintro ⟨dev, hdev, his⟩
      exact hnone dev hdev his
  · have hlt : before.length < info.length := by
      rw [List.length_append, List.length_cons] at hinfo
      omega
    obtain ⟨old, hold⟩ : ∃ old, info[before.length]? = some old := ⟨_, List.getElem?_eq_getElem hlt⟩
    have hname : dev.name.length < old.name.length := by
      rw [old.name_length]
      exact dev.name_lt
    obtain ⟨new, hcopy, hstring, hlength⟩ := strcpy_ok (string_terminated_of dev.name_cstring) hname
    rw [old.name_length] at hlength
    obtain ⟨s, hwrite, hwritten, hentry⟩ : ∃ s, writeInfo strcpy ⟨info, []⟩ before.length dev = .ok s ∧
        s.written = [before.length] ∧
        s.info[before.length]? = some ⟨before.length, dev.type, new, hlength⟩ := by
      refine ⟨⟨info.set before.length _, [before.length]⟩, ?_, rfl, List.getElem?_set_self hlt⟩
      unfold writeInfo
      rw [hold]
      dsimp only
      rw [hcopy]
      exact dif_pos hlength
    refine ⟨s, .success, bind_ok.mpr ⟨(.success, s), ?_, rfl⟩, ?_, ?_⟩
    · rw [sensorInfoFrom_skip hbefore, sensorInfoFrom, if_pos ⟨his.1, his.2⟩, Nat.zero_add]
      exact bind_ok.mpr ⟨s, hwrite, rfl⟩
    · exact iff_of_true rfl ⟨dev, List.mem_append_right _ List.mem_cons_self, his⟩
    · rintro - i hi
      rw [hwritten, List.mem_singleton] at hi
      subst hi
      exact ⟨_, hentry, dev, getElem?_middle before after dev, his, his.1, his.2 ▸ hstring⟩

end IoTware.Oal
