import Mathlib.Algebra.Group.Nat.Defs
import IoTware.Base

/-!
# Automatic control

The battery control of `service.c` and the two calls that it blocks.
-/

namespace IoTware.Rofw

/-- What `iw_get_battery_voltage` gives for each value of the counter, if it gives
anything. -/
abbrev Battery := Nat → Option UInt16

/-- The sum of `autocontrol_lowbattery`. A voltage that is not read is the one before. -/
def sumFrom (battery : Battery) : Nat → UInt16 → UInt32 → UInt32
  | 0, _, sum => sum
  | cnt + 1, voltage, sum =>
    let voltage := (battery (cnt + 1)).getD voltage
    sumFrom battery cnt voltage (sum + voltage.toUInt32)

/-- `autocontrol_lowbattery`, as the value of `lowbattery_control` behind it. -/
def autocontrolLowbattery (battery : Battery) : UInt8 :=
  let sum := sumFrom battery 5 0 0 / 5
  if sum < 3500 then
    if sum < 3400 then 2 else 1
  else 0

/-- `iw_send_data_network`; the driver of a device may have no `send_data`. -/
def iwSendDataNetwork (sendData : Nat → Option (List Char → σ → IwError × σ)) (devId : Nat)
    (buf : List Char) (s : σ) : IwError × σ :=
  match sendData devId with
  | some send => send buf s
  | none => (.fail, s)

/-- `iw_read_sensor`; the driver writes to the address `buff`. -/
def iwReadSensor (read : Nat → Option (UInt32 → Nat → Nat → σ → IwError × σ)) (devId : Nat)
    (type : UInt32) (buff len : Nat) (s : σ) : IwError × σ :=
  match read devId with
  | some read => read type buff len s
  | none => (.fail, s)

def sendDataNetwork (lowbatteryControl : UInt8) (sendData : Nat → Option (List Char → σ → IwError × σ))
    (devId : Nat) (buf : List Char) (s : σ) : IwError × σ :=
  if lowbatteryControl = 1 then (.success, s) else iwSendDataNetwork sendData devId buf s

def readSensor (lowbatteryControl : UInt8)
    (read : Nat → Option (UInt32 → Nat → Nat → σ → IwError × σ)) (devId : Nat) (type : UInt32)
    (buff len : Nat) (s : σ) : IwError × σ :=
  if lowbatteryControl = 1 then (.success, s) else iwReadSensor read devId type buff len s

/-- Both calls succeed without the driver. -/
structure Suppresses (lowbatteryControl : UInt8) : Prop where
  network : ∀ (σ : Type) sendData devId buf (s : σ),
    sendDataNetwork lowbatteryControl sendData devId buf s = (.success, s)
  sensor : ∀ (σ : Type) read devId type buff len (s : σ),
    readSensor lowbatteryControl read devId type buff len s = (.success, s)

/-- The voltages that are added, from the one that is read last before the counter is
`cnt`. -/
def voltagesFrom (battery : Battery) : Nat → UInt16 → List UInt16
  | 0, _ => []
  | cnt + 1, voltage =>
    let voltage := (battery (cnt + 1)).getD voltage
    voltage :: voltagesFrom battery cnt voltage

def voltages (battery : Battery) : List UInt16 := voltagesFrom battery 5 0

def total : List UInt16 → Nat
  | [] => 0
  | reading :: readings => reading.toNat + total readings

/-- Where the first readings are within the band of 3.4 V to 3.5 V on average, the second
ones are not below it. -/
def StaysInBand (readings readings' : List UInt16) : Prop :=
  17000 ≤ total readings ∧ total readings < 17500 → 17000 ≤ total readings'

-- ---------------------------------------------------------------------------
-- The sum
-- ---------------------------------------------------------------------------

theorem length_voltagesFrom (battery : Battery) (cnt : Nat) (voltage : UInt16) :
    (voltagesFrom battery cnt voltage).length = cnt := by
  induction cnt generalizing voltage with
  | zero => rfl
  | succ cnt ih => rw [voltagesFrom, List.length_cons, ih]

theorem total_le (readings : List UInt16) : total readings ≤ 65535 * readings.length := by
  induction readings with
  | nil => exact Nat.le_refl 0
  | cons reading readings ih =>
    have hlt := reading.toNat_lt
    rw [total, List.length_cons]
    omega

theorem total_mono (h : List.Forall₂ (· ≤ ·) readings' readings) :
    total readings' ≤ total readings := by
  induction h with
  | nil => exact Nat.le_refl 0
  | cons hle _ ih => exact Nat.add_le_add (UInt16.le_iff_toNat_le.mp hle) ih

theorem toNat_sumFrom (battery : Battery) (cnt : Nat) (voltage : UInt16) (sum : UInt32)
    (h : sum.toNat + total (voltagesFrom battery cnt voltage) < 2 ^ 32) :
    (sumFrom battery cnt voltage sum).toNat = sum.toNat + total (voltagesFrom battery cnt voltage) := by
  induction cnt generalizing voltage sum with
  | zero => rfl
  | succ cnt ih =>
    have hcons : total (voltagesFrom battery (cnt + 1) voltage) =
        ((battery (cnt + 1)).getD voltage).toNat +
          total (voltagesFrom battery cnt ((battery (cnt + 1)).getD voltage)) := rfl
    have hadd : (sum + ((battery (cnt + 1)).getD voltage).toUInt32).toNat =
        sum.toNat + ((battery (cnt + 1)).getD voltage).toNat := by
      rw [UInt32.toNat_add, UInt16.toNat_toUInt32]
      exact Nat.mod_eq_of_lt (by omega)
    rw [sumFrom, ih _ _ (by rw [hadd]; omega), hadd, hcons, Nat.add_assoc]

theorem autocontrolLowbattery_eq (battery : Battery) :
    autocontrolLowbattery battery =
      if total (voltages battery) < 17500 then if total (voltages battery) < 17000 then 2 else 1
      else 0 := by
  have hroom : (0 : UInt32).toNat + total (voltagesFrom battery 5 0) < 2 ^ 32 := by
    have hle := total_le (voltagesFrom battery 5 0)
    rw [length_voltagesFrom] at hle
    show 0 + _ < _
    omega
  have hsum : (sumFrom battery 5 0 0).toNat = total (voltages battery) := by
    rw [toNat_sumFrom battery 5 0 0 hroom]
    exact Nat.zero_add _
  have hlt (k : UInt32) :
      sumFrom battery 5 0 0 / 5 < k ↔ total (voltages battery) / 5 < k.toNat := by
    rw [UInt32.lt_iff_toNat_lt, UInt32.toNat_div, hsum]
    rfl
  have hhigh : total (voltages battery) / 5 < 3500 ↔ total (voltages battery) < 17500 := by omega
  have hlow : total (voltages battery) / 5 < 3400 ↔ total (voltages battery) < 17000 := by omega
  unfold autocontrolLowbattery
  exact if_congr ((hlt 3500).trans hhigh) (if_congr ((hlt 3400).trans hlow) rfl rfl) rfl

-- ---------------------------------------------------------------------------
-- When the calls are blocked
-- ---------------------------------------------------------------------------

theorem suppresses_iff : Suppresses lowbatteryControl ↔ lowbatteryControl = 1 := by
  constructor
  · intro h
    by_contra hne
    -- without a driver the call fails when it is not blocked
    have hsend := h.network Unit (fun _ => none) 0 [] ()
    unfold sendDataNetwork at hsend
    rw [if_neg hne] at hsend
    cases hsend
  · intro h
    exact ⟨fun _ _ _ _ _ => if_pos h, fun _ _ _ _ _ _ _ => if_pos h⟩

theorem suppresses_lowbattery_iff : Suppresses (autocontrolLowbattery battery) ↔
    17000 ≤ total (voltages battery) ∧ total (voltages battery) < 17500 := by
  rw [suppresses_iff, autocontrolLowbattery_eq]
  split
  · rename_i hhigh
    split
    · rename_i hlow
      exact iff_of_false (by decide) fun h => by omega
    · rename_i hlow
      exact iff_of_true rfl ⟨by omega, hhigh⟩
  · rename_i hhigh
    exact iff_of_false (by decide) fun h => hhigh h.2

/-- Lower readings keep the calls blocked exactly if they do not leave the band below. -/
theorem suppresses_mono_iff (battery battery' : Battery)
    (hle : List.Forall₂ (· ≤ ·) (voltages battery') (voltages battery)) :
    (Suppresses (autocontrolLowbattery battery) → Suppresses (autocontrolLowbattery battery')) ↔
      StaysInBand (voltages battery) (voltages battery') := by
  have htotal := total_mono hle
  rw [suppresses_lowbattery_iff, suppresses_lowbattery_iff]
  refine forall_congr' fun hband => and_iff_left_of_imp fun _ => ?_
  omega

theorem suppresses_mono_low :
    (Suppresses (autocontrolLowbattery fun _ => some 3450) →
        Suppresses (autocontrolLowbattery fun _ => some 3420)) ↔
      StaysInBand (voltages fun _ => some 3450) (voltages fun _ => some 3420) :=
  suppresses_mono_iff _ _ (by decide)

/-- A battery that is lower yet is not blocked any more. -/
theorem suppresses_not_mono :
    List.Forall₂ (· ≤ ·) (voltages fun _ => some 3300) (voltages fun _ => some 3450) ∧
      Suppresses (autocontrolLowbattery fun _ => some 3450) ∧
      ¬ Suppresses (autocontrolLowbattery fun _ => some 3300) := by
  rw [suppresses_iff, suppresses_iff]
  decide

end IoTware.Rofw
