import IoTware.Oal.Network

/-!
# Registering devices

The registries of networks and of sensors as arrays, and the searches of them by name. A
name that fills its array ends in no terminator, so a search that gets as far as this reads
what is behind it.
-/

namespace IoTware.Oal

open CText Loops CArray

def maxSensorDev : Nat := 5

/-- A device in its registry, with the array that its name is in. -/
structure DevEntry where
  type : NetType
  name : List Char
  func : Bool

/-- A call of `iw_register_network_` or `iw_register_sensor_`. -/
structure DeviceRegistration where
  type : NetType
  name : Text
  func : Bool
  name_cstring : IsCString name

/-- What `iw_register_network_` and `iw_register_sensor_` do to a registry of `max`
devices. The array of the name is zero at first. -/
def registerDevice (max : Nat) (devs : List DevEntry) (reg : DeviceRegistration) :
    Except OutOfBounds (List DevEntry × IwError) :=
  if max ≤ devs.length then .ok (devs, .fail)
  else do
    let name ← strncpy (calloc maxDriverNameLen) (terminated reg.name) maxDriverNameLen
    return (devs ++ [⟨reg.type, name, reg.func⟩], .success)

def registerNetwork_ : List DevEntry → DeviceRegistration → Except OutOfBounds (List DevEntry × IwError) :=
  registerDevice maxNetDev

def registerSensor_ : List DevEntry → DeviceRegistration → Except OutOfBounds (List DevEntry × IwError) :=
  registerDevice maxSensorDev

def registerDevices (max : Nat) (devs : List DevEntry) : List DeviceRegistration → Except OutOfBounds (List DevEntry)
  | [] => .ok devs
  | reg :: regs => do
    let (devs, _) ← registerDevice max devs reg
    registerDevices max devs regs

/-- The searches by name: the first device of a type that `fits` and with the name. -/
def searchName (fits : NetType → Bool) (name : List Char) (i : Nat) :
    List DevEntry → Except OutOfBounds (Option Nat)
  | [] => .ok none
  | dev :: devs =>
    if fits dev.type then do
      if ← strcmpZero name dev.name then return some i else searchName fits name (i + 1) devs
    else searchName fits name (i + 1) devs

def devidWithName (devs : List DevEntry) (type : NetType) (name : List Char) :
    Except OutOfBounds (Option Nat) :=
  searchName (fun t => type > 0 ∧ t &&& type ≠ 0) name 0 devs

def devIdByName (devs : List DevEntry) (name : List Char) : Except OutOfBounds (Option Nat) :=
  searchName (fun t => t ≠ 0) name 0 devs

-- ---------------------------------------------------------------------------
-- The array of a name
-- ---------------------------------------------------------------------------

def nameArray (name : Text) : List Char :=
  name.take maxDriverNameLen ++ List.replicate (maxDriverNameLen - name.length) nul

def DeviceRegistration.entry (reg : DeviceRegistration) : DevEntry := ⟨reg.type, nameArray reg.name, reg.func⟩

theorem length_nameArray (name : Text) : (nameArray name).length = maxDriverNameLen := by
  simp only [nameArray, List.length_append, List.length_take, List.length_replicate]
  omega

theorem strncpy_name (h : IsCString name) :
    strncpy (calloc maxDriverNameLen) (terminated name) maxDriverNameLen = .ok (nameArray name) := by
  have hlength : 0 + (nameArray name).length ≤ (calloc maxDriverNameLen).length := by
    simp [length_nameArray]
  have hwrite : write (calloc maxDriverNameLen) 0 (nameArray name) = .ok (nameArray name) := by
    rw [write_ok hlength, List.drop_of_length_le (by simp [length_nameArray])]
    simp
  rw [strncpy, string_terminated_of h]
  exact hwrite

theorem registerDevice_eq (max : Nat) (devs : List DevEntry) (reg : DeviceRegistration) :
    registerDevice max devs reg =
      .ok (if max ≤ devs.length then (devs, .fail) else (devs ++ [reg.entry], .success)) := by
  unfold registerDevice
  split
  · rfl
  · rw [strncpy_name reg.name_cstring]
    rfl

theorem registerDevices_eq (max : Nat) (devs : List DevEntry) (regs : List DeviceRegistration) :
    registerDevices max devs regs = .ok (devs ++ (regs.take (max - devs.length)).map DeviceRegistration.entry) := by
  induction regs generalizing devs with
  | nil => simp [registerDevices]
  | cons reg regs ih =>
    rw [registerDevices, registerDevice_eq]
    by_cases hfull : max ≤ devs.length
    · have hnone : max - devs.length = 0 := Nat.sub_eq_zero_of_le hfull
      simp [hfull, bind, Except.bind, ih, hnone]
    · obtain ⟨k, hk⟩ : ∃ k, max - devs.length = k + 1 := ⟨max - devs.length - 1, by omega⟩
      have hrest : max - (devs.length + 1) = k := by omega
      simp [hfull, bind, Except.bind, ih, hk, hrest]

variable {q : Text}

/-- The name fills its array and the one that is looked for begins with the same characters. -/
def Overruns (q : Text) (reg : DeviceRegistration) : Prop :=
  maxDriverNameLen ≤ reg.name.length ∧ reg.name.take maxDriverNameLen <+: q

instance (q : Text) (reg : DeviceRegistration) : Decidable (Overruns q reg) :=
  inferInstanceAs (Decidable (_ ∧ _))

/-- A search for `q` ends at the device, with a result or behind the array. -/
def StopsAt (fits : NetType → Bool) (q : Text) (reg : DeviceRegistration) : Prop :=
  fits reg.type = true ∧ (reg.name = q ∧ q.length < maxDriverNameLen ∨ Overruns q reg)

instance (fits : NetType → Bool) (q : Text) (reg : DeviceRegistration) : Decidable (StopsAt fits q reg) :=
  inferInstanceAs (Decidable (_ ∧ (_ ∧ _ ∨ _)))

theorem strcmpZero_entry (hq : IsCString q) (reg : DeviceRegistration) :
    strcmpZero (terminated q) reg.entry.name =
      if Overruns q reg then .error .outOfBounds
      else .ok (decide (reg.name = q ∧ q.length < maxDriverNameLen)) := by
  by_cases hfull : maxDriverNameLen ≤ reg.name.length
  · have harray : reg.entry.name = reg.name.take maxDriverNameLen := by
      simp [DeviceRegistration.entry, nameArray, Nat.sub_eq_zero_of_le hfull]
    have hcstring : IsCString (reg.name.take maxDriverNameLen) := fun h =>
      reg.name_cstring (List.mem_of_mem_take h)
    have hne : ¬(reg.name = q ∧ q.length < maxDriverNameLen) := by
      rintro ⟨rfl, hlt⟩
      exact absurd hfull (Nat.not_le.mpr hlt)
    rw [harray, strcmpZero_unterminated hq hcstring]
    simp [Overruns, hfull, hne]
  · have hlt := Nat.not_le.mp hfull
    obtain ⟨k, hk⟩ : ∃ k, maxDriverNameLen - reg.name.length = k + 1 :=
      ⟨maxDriverNameLen - reg.name.length - 1, by omega⟩
    have harray : reg.entry.name = reg.name ++ nul :: List.replicate k nul := by
      simp [DeviceRegistration.entry, nameArray, List.take_of_length_le (Nat.le_of_lt hlt), hk,
        List.replicate_succ]
    rw [harray, strcmpZero_terminated hq reg.name_cstring]
    have hsame : q = reg.name ↔ reg.name = q ∧ q.length < maxDriverNameLen :=
      ⟨fun heq => ⟨heq.symm, heq ▸ hlt⟩, fun heq => heq.1.symm⟩
    simp [Overruns, hfull, hsame]

-- ---------------------------------------------------------------------------
-- The searches
-- ---------------------------------------------------------------------------

variable {fits : NetType → Bool} {regs more before after : List DeviceRegistration} {reg : DeviceRegistration}

theorem searchName_skip (hq : IsCString q) (h : ¬StopsAt fits q reg) (i : Nat) (devs : List DevEntry) :
    searchName fits (terminated q) i (reg.entry :: devs) = searchName fits (terminated q) (i + 1) devs := by
  by_cases hfits : fits reg.type = true
  · rw [StopsAt, and_iff_right hfits, not_or] at h
    have hfits' : fits reg.entry.type = true := hfits
    rw [searchName, if_pos hfits', strcmpZero_entry hq, if_neg h.2, decide_eq_false h.1]
    rfl
  · exact if_neg hfits

theorem searchName_skips (hq : IsCString q) (h : ∀ reg ∈ before, ¬StopsAt fits q reg) (i : Nat)
    (devs : List DevEntry) :
    searchName fits (terminated q) i (before.map DeviceRegistration.entry ++ devs) =
      searchName fits (terminated q) (i + before.length) devs := by
  induction before generalizing i with
  | nil => rfl
  | cons reg before ih =>
    rw [List.forall_mem_cons] at h
    rw [List.map_cons, List.cons_append, searchName_skip hq h.1, ih h.2, List.length_cons, Nat.add_assoc,
      Nat.add_comm 1]

theorem searchName_stop (hq : IsCString q) (h : StopsAt fits q reg) (i : Nat) (devs : List DevEntry) :
    searchName fits (terminated q) i (reg.entry :: devs) =
      if Overruns q reg then .error .outOfBounds else .ok (some i) := by
  obtain ⟨hfits, hstop⟩ := h
  have hfits' : fits reg.entry.type = true := hfits
  rw [searchName, if_pos hfits', strcmpZero_entry hq]
  by_cases hover : Overruns q reg
  · rw [if_pos hover, if_pos hover]
    rfl
  · rw [if_neg hover, if_neg hover, decide_eq_true (hstop.resolve_right hover)]
    rfl

theorem searchName_first (hq : IsCString q) (hbefore : ∀ r ∈ before, ¬StopsAt fits q r)
    (hreg : StopsAt fits q reg) (after : List DeviceRegistration) (more : List DevEntry) :
    searchName fits (terminated q) 0 ((before ++ reg :: after).map DeviceRegistration.entry ++ more) =
      if Overruns q reg then .error .outOfBounds else .ok (some before.length) := by
  rw [List.map_append, List.append_assoc, searchName_skips hq hbefore, List.map_cons, List.cons_append,
    searchName_stop hq hreg, Nat.zero_add]

theorem first_stop (fits : NetType → Bool) (q : Text) (regs : List DeviceRegistration) :
    (∀ reg ∈ regs, ¬StopsAt fits q reg) ∨
      ∃ before reg after, regs = before ++ reg :: after ∧ StopsAt fits q reg ∧
        ∀ r ∈ before, ¬StopsAt fits q r := by
  induction regs with
  | nil => exact .inl fun _ hreg => absurd hreg List.not_mem_nil
  | cons reg regs ih =>
    by_cases h : StopsAt fits q reg
    · exact .inr ⟨[], reg, regs, rfl, h, fun _ hr => absurd hr List.not_mem_nil⟩
    · rcases ih with hnone | ⟨before, first, after, rfl, hfirst, hbefore⟩
      · exact .inl (List.forall_mem_cons.mpr ⟨h, hnone⟩)
      · exact .inr ⟨reg :: before, first, after, rfl, hfirst, List.forall_mem_cons.mpr ⟨h, hbefore⟩⟩

theorem searchName_cases (fits : NetType → Bool) (hq : IsCString q) (regs : List DeviceRegistration) :
    (∀ reg ∈ regs, ¬StopsAt fits q reg) ∧
        searchName fits (terminated q) 0 (regs.map DeviceRegistration.entry) = .ok none ∨
      ∃ before reg after, regs = before ++ reg :: after ∧ StopsAt fits q reg ∧
        (∀ r ∈ before, ¬StopsAt fits q r) ∧
        ∀ devs, searchName fits (terminated q) 0 (regs.map DeviceRegistration.entry ++ devs) =
          if Overruns q reg then .error .outOfBounds else .ok (some before.length) := by
  rcases first_stop fits q regs with hnone | ⟨before, reg, after, rfl, hreg, hbefore⟩
  · have hskips := searchName_skips hq hnone 0 []
    rw [List.append_nil] at hskips
    exact .inl ⟨hnone, hskips⟩
  · exact .inr ⟨before, reg, after, rfl, hreg, hbefore, searchName_first hq hbefore hreg after⟩

theorem not_overruns (hlt : reg.name.length < maxDriverNameLen) : ¬Overruns q reg :=
  fun h => absurd h.1 (Nat.not_le.mpr hlt)

theorem searchName_found_iff (hq : IsCString q) (regs : List DeviceRegistration) (i : Nat) :
    searchName fits (terminated q) 0 (regs.map DeviceRegistration.entry) = .ok (some i) ↔
      ∃ before reg after, regs = before ++ reg :: after ∧ before.length = i ∧
        fits reg.type = true ∧ reg.name = q ∧ q.length < maxDriverNameLen ∧
        ∀ r ∈ before, ¬StopsAt fits q r := by
  constructor
  · intro h
    rcases searchName_cases fits hq regs with ⟨-, hsearch⟩ | ⟨before, reg, after, heq, hreg, hbefore, hsearch⟩
    · rw [hsearch] at h
      cases h
    · have hresult := hsearch []
      rw [List.append_nil, h] at hresult
      by_cases hover : Overruns q reg
      · simp [hover] at hresult
      · obtain ⟨hfits, hstop⟩ := hreg
        obtain ⟨hname, hlt⟩ := hstop.resolve_right hover
        have hi : i = before.length := by simpa [hover] using hresult
        exact ⟨before, reg, after, heq, hi.symm, hfits, hname, hlt, hbefore⟩
  · rintro ⟨before, reg, after, rfl, rfl, hfits, hname, hlt, hbefore⟩
    have hsearch := searchName_first hq hbefore ⟨hfits, .inl ⟨hname, hlt⟩⟩ after []
    rwa [List.append_nil, if_neg (not_overruns (hname ▸ hlt))] at hsearch

theorem searchName_behind_iff (hq : IsCString q) (regs : List DeviceRegistration) :
    searchName fits (terminated q) 0 (regs.map DeviceRegistration.entry) = .error .outOfBounds ↔
      ∃ before reg after, regs = before ++ reg :: after ∧ fits reg.type = true ∧ Overruns q reg ∧
        ∀ r ∈ before, ¬StopsAt fits q r := by
  constructor
  · intro h
    rcases searchName_cases fits hq regs with ⟨-, hsearch⟩ | ⟨before, reg, after, heq, hreg, hbefore, hsearch⟩
    · rw [hsearch] at h
      cases h
    · have hresult := hsearch []
      rw [List.append_nil, h] at hresult
      have hover : Overruns q reg := by
        by_contra hnot
        simp [hnot] at hresult
      exact ⟨before, reg, after, heq, hreg.1, hover, hbefore⟩
  · rintro ⟨before, reg, after, rfl, hfits, hover, hbefore⟩
    have hsearch := searchName_first hq hbefore ⟨hfits, .inr hover⟩ after []
    rwa [List.append_nil, if_pos hover] at hsearch

theorem searchName_append (hq : IsCString q) (regs : List DeviceRegistration) (devs : List DevEntry)
    (h : searchName fits (terminated q) 0 (regs.map DeviceRegistration.entry) ≠ .ok none) :
    searchName fits (terminated q) 0 (regs.map DeviceRegistration.entry ++ devs) =
      searchName fits (terminated q) 0 (regs.map DeviceRegistration.entry) := by
  rcases searchName_cases fits hq regs with ⟨-, hsearch⟩ | ⟨before, reg, after, -, -, -, hsearch⟩
  · exact absurd hsearch h
  · have hresult := hsearch []
    rw [List.append_nil] at hresult
    rw [hsearch devs, hresult]

def NetDevInfo.registration (dev : NetDevInfo) : DeviceRegistration :=
  ⟨dev.type, dev.name, dev.func, dev.name_cstring⟩

theorem NetDevInfo.not_overruns (dev : NetDevInfo) : ¬Overruns q dev.registration :=
  Oal.not_overruns dev.name_lt

theorem devidWithName_from (hq : IsCString q) (type : NetType) (i : Nat) (devs : List NetDevInfo) :
    searchName (fun t => type > 0 ∧ t &&& type ≠ 0) (terminated q) i
        (devs.map fun dev => dev.registration.entry) =
      .ok (devidFrom type (some q) i none devs) := by
  induction devs generalizing i with
  | nil => rfl
  | cons dev devs ih =>
    rw [List.map_cons, devidFrom]
    by_cases hfits : type > 0 ∧ dev.type &&& type ≠ 0
    · rw [if_pos hfits]
      by_cases hname : q = dev.name
      · have hstop : StopsAt (fun t => type > 0 ∧ t &&& type ≠ 0) q dev.registration :=
          ⟨decide_eq_true hfits, .inl ⟨hname.symm, hname ▸ dev.name_lt⟩⟩
        rw [searchName_stop hq hstop, if_neg dev.not_overruns]
        simp [hname]
      · have hskip : ¬StopsAt (fun t => type > 0 ∧ t &&& type ≠ 0) q dev.registration := by
          rintro ⟨-, ⟨heq, -⟩ | hover⟩
          · exact hname heq.symm
          · exact dev.not_overruns hover
        rw [searchName_skip hq hskip, ih]
        simp [hname]
    · have hskip : ¬StopsAt (fun t => type > 0 ∧ t &&& type ≠ 0) q dev.registration := fun h =>
        hfits (of_decide_eq_true h.1)
      rw [searchName_skip hq hskip, ih, if_neg hfits]

/-- A registry of devices with names that end in their arrays comes from registering them,
and a search of the arrays finds what a search of the names finds. -/
theorem devidWithName_eq (neti : NetInfo) (type : NetType) (hq : IsCString q) :
    ∃ devs, registerDevices maxNetDev [] (neti.dev.map NetDevInfo.registration) = .ok devs ∧
      devidWithName devs type (terminated q) = .ok (getNetworkDevid neti type (some q)) := by
  refine ⟨_, registerDevices_eq maxNetDev [] _, ?_⟩
  have hall : (neti.dev.map NetDevInfo.registration).length ≤ maxNetDev - 0 := by
    simpa using neti.dev_le
  rw [List.length_nil, List.take_of_length_le hall, List.map_map]
  exact devidWithName_from hq type 0 neti.dev

/-- A search finds the first device that fits and was registered with the name, unless a
device before it, that fits too, fills its array with the beginning of the name: there it
reads behind the array. What is found stays where it is when more devices are registered. -/
theorem registered_lookup (max : Nat) (fits : NetType → Bool) (regs more : List DeviceRegistration)
    (hq : IsCString q) :
    ∃ devs devs', registerDevices max [] regs = .ok devs ∧ registerDevices max devs more = .ok devs' ∧
      (∀ i, searchName fits (terminated q) 0 devs = .ok (some i) ↔
        ∃ before reg after, regs.take max = before ++ reg :: after ∧ before.length = i ∧
          fits reg.type = true ∧ reg.name = q ∧ q.length < maxDriverNameLen ∧
          ∀ r ∈ before, ¬StopsAt fits q r) ∧
      (searchName fits (terminated q) 0 devs = .error .outOfBounds ↔
        ∃ before reg after, regs.take max = before ++ reg :: after ∧ fits reg.type = true ∧
          Overruns q reg ∧ ∀ r ∈ before, ¬StopsAt fits q r) ∧
      (searchName fits (terminated q) 0 devs ≠ .ok none →
        searchName fits (terminated q) 0 devs' = searchName fits (terminated q) 0 devs) := by
  refine ⟨_, _, registerDevices_eq max [] regs, registerDevices_eq max _ more, ?_⟩
  rw [List.nil_append, List.length_nil, Nat.sub_zero]
  exact ⟨searchName_found_iff hq _, searchName_behind_iff hq _, searchName_append hq _ _⟩

/-- Two devices, of which the first one has a name that fills its array. -/
def sampleDevices : List DeviceRegistration :=
  [⟨1, "abcdefghijklmnopqrstuvwxyz".toList, true, by decide⟩, ⟨1, "esp8266".toList, true, by decide⟩]

theorem registered_lookup_sample :
    ∃ devs, registerDevices maxNetDev [] sampleDevices = .ok devs ∧
      devIdByName devs (terminated "esp8266".toList) = .ok (some 1) ∧
      devIdByName devs (terminated "abcdefghijklmnopqrstuvwxyz".toList) = .error .outOfBounds := by
  obtain ⟨devs, _, hdevs, -, hfound, -, -⟩ :=
    registered_lookup maxNetDev (fun t => t ≠ 0) sampleDevices [] (q := "esp8266".toList) (by decide)
  obtain ⟨devs', _, hdevs', -, -, hbehind, -⟩ :=
    registered_lookup maxNetDev (fun t => t ≠ 0) sampleDevices []
      (q := "abcdefghijklmnopqrstuvwxyz".toList) (by decide)
  cases hdevs.symm.trans hdevs'
  refine ⟨devs, hdevs, (hfound 1).mpr ⟨[_], _, [], rfl, rfl, rfl, rfl, by decide, ?_⟩,
    hbehind.mpr ⟨[], _, [_], rfl, rfl, by decide, by simp⟩⟩
  rw [List.forall_mem_singleton]
  decide

end IoTware.Oal
