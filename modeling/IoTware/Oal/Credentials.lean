import Mathlib.Data.List.Induction
import IoTware.Base
import IoTware.Lib.CArray

/-!
# Credentials

The access point and the BLE device that `iw_dev_net.c` keeps for its drivers. A
registration copies the characters of a text over those of the text before it,
without a terminator, so a text is kept only if it is not shorter.
-/

namespace IoTware.Oal

open CText Loops CArray

def maxNameStrSize : Nat := 32

def maxBleNameLen : Nat := 64

def pincodeLen : Nat := 4

structure WifiApInfo where
  ssid : List Char
  pw : List Char

/-- `ble_info_t`; a mode is 0 until one is registered. -/
structure BleInfo where
  name : List Char
  pincode : List Char
  mode : UInt32

structure Credentials where
  apInfo : WifiApInfo
  bleInfo : BleInfo

def zeroedAp : WifiApInfo := ⟨calloc maxNameStrSize, calloc maxNameStrSize⟩

def zeroedCredentials : Credentials :=
  ⟨zeroedAp, calloc maxBleNameLen, calloc (pincodeLen + 1), 0⟩

def unlessEmpty (dest : List Char) (copy : List Char → Except OutOfBounds (List Char)) :
    Option Text → Except OutOfBounds (List Char)
  | none => .ok dest
  | some t => do if (← read (terminated t) 0) ≠ nul then copy (terminated t) else pure dest

def registerWifiInfo (g : Credentials) (ssid pw : Option Text) : Except OutOfBounds Credentials := do
  let ssid ← unlessEmpty g.apInfo.ssid (fun s => do memcpy g.apInfo.ssid s (← strlen s)) ssid
  let pw ← unlessEmpty g.apInfo.pw (fun s => do memcpy g.apInfo.pw s (← strlen s)) pw
  return { g with apInfo := ⟨ssid, pw⟩ }

def getWifiInfo (g : Credentials) (ap : WifiApInfo) : Except OutOfBounds (WifiApInfo × IwError) := do
  if (← read g.apInfo.ssid 0) ≠ nul then
    let ssid ← memcpy ap.ssid g.apInfo.ssid (← strlen g.apInfo.ssid)
    let pw ← if (← read g.apInfo.pw 0) ≠ nul then memcpy ap.pw g.apInfo.pw (← strlen g.apInfo.pw)
      else pure ap.pw
    return (⟨ssid, pw⟩, .success)
  else return (ap, .fail)

def registerBleInfo (g : Credentials) (name pincode : Option Text) (mode : UInt32) :
    Except OutOfBounds Credentials := do
  let name ← unlessEmpty g.bleInfo.name (fun s => do strncpy g.bleInfo.name s (← strlen s)) name
  let pincode ← unlessEmpty g.bleInfo.pincode (fun s => strncpy g.bleInfo.pincode s pincodeLen) pincode
  let mode := if mode = 1 ∨ mode = 2 then mode else g.bleInfo.mode
  return { g with bleInfo := ⟨name, pincode, mode⟩ }

/-- `iw_get_ble_info`; without a structure to fill it fails. -/
def getBleInfo (g : Credentials) (info : Option BleInfo) : Option BleInfo × IwError :=
  match info with
  | none => (none, .fail)
  | some _ => (some g.bleInfo, .success)

-- ---------------------------------------------------------------------------
-- Registrations
-- ---------------------------------------------------------------------------

inductive Registration
  | wifi (ssid pw : Text)
  | ble (name : Text) (pincode : Option Text) (mode : UInt32)

def Registration.Valid : Registration → Prop
  | .wifi ssid pw => (IsCString ssid ∧ ssid ≠ [] ∧ ssid.length < maxNameStrSize) ∧
      IsCString pw ∧ pw ≠ [] ∧ pw.length < maxNameStrSize
  | .ble name _ _ => IsCString name ∧ name ≠ [] ∧ name.length < maxBleNameLen

instance (r : Registration) : Decidable r.Valid := by
  cases r <;> unfold Registration.Valid <;> infer_instance

def register (g : Credentials) : Registration → Except OutOfBounds Credentials
  | .wifi ssid pw => registerWifiInfo g (some ssid) (some pw)
  | .ble name pincode mode => registerBleInfo g (some name) pincode mode

def registerAll (rs : List Registration) : Except OutOfBounds Credentials :=
  rs.foldlM register zeroedCredentials

def wifiTexts : List Registration → List (Text × Text) :=
  List.filterMap fun
    | .wifi ssid pw => some (ssid, pw)
    | .ble .. => none

def bleNames : List Registration → List Text :=
  List.filterMap fun
    | .wifi .. => none
    | .ble name _ _ => some name

/-- What is read of each kind is what was registered last. -/
structure LastWins (g : Credentials) (rs : List Registration) : Prop where
  wifi : ∀ ssid pw, (wifiTexts rs).getLast? = some (ssid, pw) →
    ∃ ap, getWifiInfo g zeroedAp = .ok (ap, .success) ∧
      string ap.ssid = .ok ssid ∧ string ap.pw = .ok pw
  ble : ∀ name, (bleNames rs).getLast? = some name →
    ∀ info, ∃ ble, getBleInfo g (some info) = (some ble, .success) ∧ string ble.name = .ok name

/-- The text registered last is at least as long as each before it. -/
def LastLongest (texts : List Text) : Prop :=
  ∀ last ∈ texts.getLast?, ∀ t ∈ texts, t.length ≤ last.length

instance (texts : List Text) : Decidable (LastLongest texts) := by
  unfold LastLongest
  infer_instance

-- ---------------------------------------------------------------------------
-- What the arrays hold
-- ---------------------------------------------------------------------------

/-- The array holds what the texts leave that were written over one another. -/
structure Overwritten (a : List Char) (size : Nat) (texts : List Text) : Prop where
  zeroed : Zeroed a (texts.foldl overlay [])
  length_eq : a.length = size

theorem overwritten_calloc (h : 0 < size) : Overwritten (calloc size) size [] :=
  ⟨zeroed_calloc h, length_calloc size⟩

theorem Overwritten.memcpy (h : Overwritten a size texts) (ht : IsCString t) (hlen : t.length < size) :
    ∃ b, CArray.memcpy a (terminated t) t.length = .ok b ∧ Overwritten b size (texts ++ [t]) := by
  obtain ⟨b, hcopy, hzeroed, hsize⟩ := h.zeroed.memcpy (string_terminated_of ht)
    (by rw [h.length_eq]; exact hlen)
  refine ⟨b, hcopy, ?_, hsize.trans h.length_eq⟩
  rw [List.foldl_append]
  exact hzeroed

theorem unlessEmpty_text (ht : IsCString t) (hne : t ≠ []) (dest : List Char)
    (copy : List Char → Except OutOfBounds (List Char)) :
    unlessEmpty dest copy (some t) = copy (terminated t) := by
  cases t with
  | nil => exact absurd rfl hne
  | cons c t =>
    have hc : c ≠ nul := fun heq => ht (by simp [heq])
    exact if_pos hc

/-- What the registrations leave in the arrays. -/
structure CredentialsKept (g : Credentials) (rs : List Registration) : Prop where
  ssid : Overwritten g.apInfo.ssid maxNameStrSize ((wifiTexts rs).map Prod.fst)
  pw : Overwritten g.apInfo.pw maxNameStrSize ((wifiTexts rs).map Prod.snd)
  name : Overwritten g.bleInfo.name maxBleNameLen (bleNames rs)
  pincode : g.bleInfo.pincode.length = pincodeLen + 1

theorem kept_zeroed : CredentialsKept zeroedCredentials [] :=
  ⟨overwritten_calloc (by decide), overwritten_calloc (by decide), overwritten_calloc (by decide),
    length_calloc _⟩

theorem registerWifiInfo_kept (h : CredentialsKept g rs)
    (hvalid : (Registration.wifi ssid pw).Valid) :
    ∃ g', registerWifiInfo g (some ssid) (some pw) = .ok g' ∧
      CredentialsKept g' (rs ++ [.wifi ssid pw]) := by
  obtain ⟨⟨hssid, hssidne, hssidlt⟩, hpw, hpwne, hpwlt⟩ := hvalid
  obtain ⟨ssid', hcopy₁, h₁⟩ := h.ssid.memcpy hssid hssidlt
  obtain ⟨pw', hcopy₂, h₂⟩ := h.pw.memcpy hpw hpwlt
  refine ⟨{ g with apInfo := ⟨ssid', pw'⟩ }, ?_, ?_⟩
  · unfold registerWifiInfo
    rw [unlessEmpty_text hssid hssidne, unlessEmpty_text hpw hpwne,
      strlen_of_string (string_terminated_of hssid), strlen_of_string (string_terminated_of hpw)]
    exact bind_ok.mpr ⟨ssid', hcopy₁, bind_ok.mpr ⟨pw', hcopy₂, rfl⟩⟩
  · have htexts : wifiTexts (rs ++ [.wifi ssid pw]) = wifiTexts rs ++ [(ssid, pw)] :=
      List.filterMap_append
    have hnames : bleNames (rs ++ [.wifi ssid pw]) = bleNames rs :=
      List.filterMap_append.trans (List.append_nil _)
    refine ⟨?_, ?_, ?_, h.pincode⟩
    · rw [htexts, List.map_append]
      exact h₁
    · rw [htexts, List.map_append]
      exact h₂
    · rw [hnames]
      exact h.name

theorem registerBleInfo_kept (h : CredentialsKept g rs)
    (hvalid : (Registration.ble name pincode mode).Valid) :
    ∃ g', registerBleInfo g (some name) pincode mode = .ok g' ∧
      CredentialsKept g' (rs ++ [.ble name pincode mode]) := by
  obtain ⟨hname, hne, hlt⟩ := hvalid
  have hstring := string_terminated_of hname
  obtain ⟨name', hcopy₁, h₁⟩ := h.name.memcpy hname hlt
  obtain ⟨pincode', hcopy₂, h₂⟩ : ∃ b, unlessEmpty g.bleInfo.pincode
      (fun s => strncpy g.bleInfo.pincode s pincodeLen) pincode = .ok b ∧ b.length = pincodeLen + 1 := by
    cases pincode with
    | none => exact ⟨_, rfl, h.pincode⟩
    | some p =>
      have hfits : pincodeLen ≤ g.bleInfo.pincode.length := by
        rw [h.pincode]
        exact Nat.le_succ _
      obtain ⟨b, hb, hlen⟩ := strncpy_ok (string_terminated p) hfits
      obtain ⟨c, hc⟩ : ∃ c, read (terminated p) 0 = .ok c := by
        cases p with
        | nil => exact ⟨nul, rfl⟩
        | cons c p => exact ⟨c, rfl⟩
      by_cases hnul : c = nul
      · exact ⟨_, bind_ok.mpr ⟨c, hc, if_neg (not_not.mpr hnul)⟩, h.pincode⟩
      · exact ⟨b, bind_ok.mpr ⟨c, hc, (if_pos hnul).trans hb⟩, hlen.trans h.pincode⟩
  refine ⟨{ g with bleInfo := ⟨name', pincode', if mode = 1 ∨ mode = 2 then mode else g.bleInfo.mode⟩ },
    ?_, ?_⟩
  · unfold registerBleInfo
    rw [unlessEmpty_text hname hne, strlen_of_string hstring]
    refine bind_ok.mpr ⟨name', ?_, bind_ok.mpr ⟨pincode', hcopy₂, rfl⟩⟩
    exact (strncpy_strlen hstring).trans hcopy₁
  · have htexts : wifiTexts (rs ++ [.ble name pincode mode]) = wifiTexts rs :=
      List.filterMap_append.trans (List.append_nil _)
    have hnames : bleNames (rs ++ [.ble name pincode mode]) = bleNames rs ++ [name] :=
      List.filterMap_append
    refine ⟨?_, ?_, ?_, h₂⟩
    · rw [htexts]
      exact h.ssid
    · rw [htexts]
      exact h.pw
    · rw [hnames]
      exact h₁

theorem registerAll_ok (hvalid : ∀ r ∈ rs, r.Valid) :
    ∃ g, registerAll rs = .ok g ∧ CredentialsKept g rs := by
  induction rs using List.reverseRecOn with
  | nil => exact ⟨_, rfl, kept_zeroed⟩
  | append_singleton rs r ih =>
    rw [List.forall_mem_append, List.forall_mem_singleton] at hvalid
    obtain ⟨g, hg, h⟩ := ih hvalid.1
    obtain ⟨g', hg', h'⟩ : ∃ g', register g r = .ok g' ∧ CredentialsKept g' (rs ++ [r]) := by
      cases r with
      | wifi ssid pw => exact registerWifiInfo_kept h hvalid.2
      | ble name pincode mode => exact registerBleInfo_kept h hvalid.2
    refine ⟨g', ?_, h'⟩
    unfold registerAll at hg ⊢
    rw [List.foldlM_append, hg]
    exact bind_ok.mpr ⟨g, rfl, bind_ok.mpr ⟨g', hg', rfl⟩⟩

-- ---------------------------------------------------------------------------
-- What is read
-- ---------------------------------------------------------------------------

theorem memcpy_overwritten (h : Overwritten a size texts) :
    ∃ b, CArray.memcpy (calloc size) a (texts.foldl overlay []).length = .ok b ∧
      string b = .ok (texts.foldl overlay []) := by
  have hlt := length_lt_of_string h.zeroed.string
  rw [h.length_eq] at hlt
  obtain ⟨b, hcopy, hzeroed, -⟩ := (zeroed_calloc (Nat.zero_lt_of_lt hlt)).memcpy h.zeroed.string
    (by rw [length_calloc]; exact hlt)
  have hstring := hzeroed.string
  rw [overlay, List.drop_nil, List.append_nil] at hstring
  exact ⟨b, hcopy, hstring⟩

theorem read_zero (h : string a = .ok (c :: t)) : read a 0 = .ok c ∧ c ≠ nul := by
  obtain ⟨hcs, rest, rfl⟩ := string_ok_iff.mp h
  exact ⟨rfl, fun heq => hcs (by simp [heq])⟩

theorem foldl_overlay_cons (texts : List Text) (h : t ≠ []) :
    ∃ c u, (texts ++ [t]).foldl overlay [] = c :: u := by
  obtain ⟨c, t, rfl⟩ := List.exists_cons_of_ne_nil h
  rw [List.foldl_append]
  exact ⟨c, _, rfl⟩

theorem lastLongest_concat (texts : List Text) (t : Text) :
    LastLongest (texts ++ [t]) ↔ (texts ++ [t]).foldl overlay [] = t := by
  unfold LastLongest
  rw [List.getLast?_concat, foldl_overlay_eq_iff]
  simp only [Option.mem_def, Option.some.injEq, forall_eq']

theorem getWifiInfo_ok (h : CredentialsKept g rs) (hvalid : ∀ r ∈ rs, r.Valid)
    (htexts : wifiTexts rs = before ++ [(ssid, pw)]) :
    ∃ ap, getWifiInfo g zeroedAp = .ok (ap, .success) ∧
      string ap.ssid = .ok ((before.map Prod.fst ++ [ssid]).foldl overlay []) ∧
      string ap.pw = .ok ((before.map Prod.snd ++ [pw]).foldl overlay []) := by
  have hlast : (Registration.wifi ssid pw).Valid := by
    have hmem : (ssid, pw) ∈ wifiTexts rs := by simp [htexts]
    obtain ⟨r, hr, heq⟩ := List.mem_filterMap.mp hmem
    cases r with
    | wifi s p =>
      cases heq
      exact hvalid _ hr
    | ble => cases heq
  have hssid := h.ssid
  have hpw := h.pw
  rw [htexts, List.map_append] at hssid hpw
  obtain ⟨c, u, hcons⟩ := foldl_overlay_cons (before.map Prod.fst) hlast.1.2.1
  obtain ⟨d, v, hcons'⟩ := foldl_overlay_cons (before.map Prod.snd) hlast.2.2.1
  obtain ⟨ssid', hcopy, hstring⟩ := memcpy_overwritten hssid
  obtain ⟨pw', hcopy', hstring'⟩ := memcpy_overwritten hpw
  obtain ⟨hread, hc⟩ := read_zero (hcons ▸ hssid.zeroed.string)
  obtain ⟨hread', hd⟩ := read_zero (hcons' ▸ hpw.zeroed.string)
  refine ⟨⟨ssid', pw'⟩, ?_, hstring, hstring'⟩
  refine bind_ok.mpr ⟨c, hread, (if_pos hc).trans ?_⟩
  refine bind_ok.mpr ⟨_, strlen_of_string hssid.zeroed.string, bind_ok.mpr ⟨ssid', hcopy, ?_⟩⟩
  refine bind_ok.mpr ⟨d, hread', (if_pos hd).trans ?_⟩
  refine bind_ok.mpr ⟨_, strlen_of_string hpw.zeroed.string, ?_⟩
  exact bind_ok.mpr ⟨pw', hcopy', rfl⟩

/-- What is registered last is read exactly if it is the longest of its kind. -/
theorem lastWins_iff (hvalid : ∀ r ∈ rs, r.Valid) :
    ∃ g, registerAll rs = .ok g ∧ (LastWins g rs ↔
      LastLongest ((wifiTexts rs).map Prod.fst) ∧ LastLongest ((wifiTexts rs).map Prod.snd) ∧
        LastLongest (bleNames rs)) := by
  obtain ⟨g, hg, h⟩ := registerAll_ok hvalid
  refine ⟨g, hg, ?_⟩
  have hwifi : (∀ ssid pw, (wifiTexts rs).getLast? = some (ssid, pw) →
      ∃ ap, getWifiInfo g zeroedAp = .ok (ap, .success) ∧ string ap.ssid = .ok ssid ∧
        string ap.pw = .ok pw) ↔
      LastLongest ((wifiTexts rs).map Prod.fst) ∧ LastLongest ((wifiTexts rs).map Prod.snd) := by
    rcases List.eq_nil_or_concat (wifiTexts rs) with hnil | ⟨before, ⟨ssid, pw⟩, htexts⟩
    · rw [hnil]
      exact iff_of_true (by rintro _ _ ⟨⟩) ⟨by rintro _ ⟨⟩, by rintro _ ⟨⟩⟩
    · rw [List.concat_eq_append] at htexts
      obtain ⟨ap, hget, hssid, hpw⟩ := getWifiInfo_ok h hvalid htexts
      rw [htexts, List.map_append, List.map_append, List.getLast?_concat]
      refine Iff.trans ?_ (and_congr (lastLongest_concat _ ssid) (lastLongest_concat _ pw)).symm
      constructor
      · intro hall
        obtain ⟨ap', hget', hssid', hpw'⟩ := hall ssid pw rfl
        rw [hget] at hget'
        cases hget'
        rw [hssid] at hssid'
        rw [hpw] at hpw'
        exact ⟨Except.ok.inj hssid', Except.ok.inj hpw'⟩
      · rintro ⟨hs, hp⟩ _ _ ⟨⟩
        exact ⟨ap, hget, hssid.trans (congrArg Except.ok hs), hpw.trans (congrArg Except.ok hp)⟩
  have hble : (∀ name, (bleNames rs).getLast? = some name →
      ∀ info, ∃ ble, getBleInfo g (some info) = (some ble, .success) ∧ string ble.name = .ok name) ↔
      LastLongest (bleNames rs) := by
    have hname := h.name.zeroed.string
    rcases List.eq_nil_or_concat (bleNames rs) with hnil | ⟨before, name, hnames⟩
    · rw [hnil]
      exact iff_of_true (by rintro _ ⟨⟩) (by rintro _ ⟨⟩)
    · rw [List.concat_eq_append] at hnames
      rw [hnames] at hname
      rw [hnames, List.getLast?_concat, lastLongest_concat]
      constructor
      · intro hall
        obtain ⟨ble, hget, hstring⟩ := hall name rfl g.bleInfo
        cases hget
        rw [hname] at hstring
        exact Except.ok.inj hstring
      · rintro hlast _ ⟨⟩ info
        exact ⟨g.bleInfo, rfl, hname.trans (congrArg Except.ok hlast)⟩
  rw [← and_assoc, ← hwifi, ← hble]
  exact ⟨fun h => ⟨h.wifi, h.ble⟩, fun h => ⟨h.1, h.2⟩⟩

def growingRegistrations : List Registration :=
  [.wifi ['l', 'a', 'b'] ['p', 'w'], .ble ['n', 'o', 'd', 'e'] none 1,
    .wifi ['h', 'o', 'm', 'e'] ['p', 'w', 'd']]

theorem lastWins_growing : ∃ g, registerAll growingRegistrations = .ok g ∧
    LastWins g growingRegistrations := by
  have hvalid : ∀ r ∈ growingRegistrations, r.Valid := by decide
  obtain ⟨g, hg, hwins⟩ := lastWins_iff hvalid
  exact ⟨g, hg, hwins.mpr (by decide)⟩

/-- Behind a longer name, its last letter is left. -/
theorem shorter_ssid_mixed : ¬ ∀ rs : List Registration, (∀ r ∈ rs, r.Valid) →
    ∀ g, registerAll rs = .ok g → LastWins g rs := by
  intro h
  have hvalid : ∀ r ∈ [Registration.wifi ['h', 'o', 'm', 'e'] ['p', 'w'],
      .wifi ['l', 'a', 'b'] ['p', 'w']], r.Valid := by decide
  obtain ⟨g, hg, hholds⟩ := registerAll_ok hvalid
  have htexts : wifiTexts [.wifi ['h', 'o', 'm', 'e'] ['p', 'w'], .wifi ['l', 'a', 'b'] ['p', 'w']] =
      [(['h', 'o', 'm', 'e'], ['p', 'w'])] ++ [(['l', 'a', 'b'], ['p', 'w'])] := rfl
  obtain ⟨ap, hget, hssid, -⟩ := getWifiInfo_ok hholds hvalid htexts
  obtain ⟨ap', hget', hssid', -⟩ := (h _ hvalid g hg).wifi ['l', 'a', 'b'] ['p', 'w'] rfl
  rw [hget] at hget'
  cases hget'
  rw [hssid] at hssid'
  exact absurd (Except.ok.inj hssid') (by decide)

end IoTware.Oal
