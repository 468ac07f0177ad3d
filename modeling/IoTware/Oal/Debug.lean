import Mathlib.Algebra.Group.Nat.Defs
import IoTware.Lib.CArray
import IoTware.Lib.Digits

/-!
# Numbers as text

The number printers of `iw_debug.c` and `stod`. An `int` is its 32 bits. The
scratch array of a printer is the characters from `p` down to its start, and
`room` is the number of cells above `p`.
-/

namespace IoTware.Oal

open CText Loops CArray Digits
open Nat (toDigits digitChar)

def digitLoop (low : UInt32 → Char) (rest : UInt32 → UInt32) :
    Nat → UInt32 → List Char → Nat → Except OutOfBounds (List Char × Nat)
  | 0, _, _, _ => .error .outOfBounds
  | room + 1, num, temp, len =>
    let temp := low num :: temp
    let num := rest num
    if num = 0 then .ok (temp, len + 1) else digitLoop low rest room num temp (len + 1)

/-- The loop from `p` down to the terminator, which is copied too. -/
def copyDown : List Char → Except OutOfBounds (List Char)
  | [] => .error .outOfBounds
  | c :: temp => if c = nul then .ok [nul] else do return c :: (← copyDown temp)

def prt (low : UInt32 → Char) (rest : UInt32 → UInt32) (num : UInt32) :
    Except OutOfBounds (List Char × Nat) := do
  let (temp, len) ← digitLoop low rest 19 num [nul] 0
  return (← copyDown temp, len)

def prt8 : UInt32 → Except OutOfBounds (List Char × Nat) :=
  prt (fun num => Char.ofNat ((num &&& 7).toNat + 48)) (· >>> 3)

def prt10 : UInt32 → Except OutOfBounds (List Char × Nat) :=
  prt (fun num => Char.ofNat ((num % 10).toNat + 48)) (· / 10)

def prt16 : UInt32 → Except OutOfBounds (List Char × Nat) :=
  prt (fun num => "0123456789abcdef".toList.getD (num &&& 0x0f).toNat nul) (· >>> 4)

def prt16Upper : UInt32 → Except OutOfBounds (List Char × Nat) :=
  prt (fun num => "0123456789ABCDEF".toList.getD (num &&& 0x0f).toNat nul) (· >>> 4)

def toUpper (c : Char) : UInt32 := c.val &&& ~~~0x20

def hexDigit (c : Char) : Option UInt32 :=
  if isDigit c then some (c.val - 48)
  else if 65 ≤ toUpper c ∧ toUpper c ≤ 70 then some (toUpper c - 65 + 10)
  else none

def skipToDigit : List Char → Except OutOfBounds (List Char)
  | [] => .error .outOfBounds
  | c :: s => if isDigit c ∨ c = nul then .ok (c :: s) else skipToDigit s

def decimalLoop (n : UInt32) : List Char → Except OutOfBounds UInt32
  | [] => .error .outOfBounds
  | c :: s =>
    if c = nul then .ok n
    else if isDigit c then decimalLoop (n * 10 + (c.val - 48)) s
    else .ok n

def hexLoop (n : UInt32) : List Char → Except OutOfBounds UInt32
  | [] => .error .outOfBounds
  | c :: s =>
    if c = nul then .ok n
    else
      match hexDigit c with
      | some t => hexLoop ((n <<< 4) + t) s
      | none => .ok n

def readNumber : List Char → Except OutOfBounds UInt32
  | '0' :: c :: s => if toUpper c = 88 then hexLoop 0 s else decimalLoop 0 ('0' :: c :: s)
  | s => decimalLoop 0 s

def stod (s : List Char) : Except OutOfBounds UInt32 :=
  match s with
  | [] => .error .outOfBounds
  | c :: rest =>
    if c = '-' then do return (← readNumber (← skipToDigit rest)) * (-1)
    else do return (← readNumber s) * 1

-- ---------------------------------------------------------------------------
-- The printers
-- ---------------------------------------------------------------------------

/-- The digits of a number in base `b`, as the characters `f` makes of the usual
ones. -/
def numeral (f : Char → Char) (b : Nat) (n : UInt32) : Text := (toDigits b n.toNat).map f

/-- `low` and `rest` take a digit off a number in base `b`. -/
structure TakesDigit (f : Char → Char) (b : Nat) (low : UInt32 → Char) (rest : UInt32 → UInt32) :
    Prop where
  base : 1 < b ∧ b ≤ 16
  low_eq : ∀ n, low n = f (digitChar (n.toNat % b))
  rest_eq : ∀ n, (rest n).toNat = n.toNat / b

theorem digitLoop_ok (h : TakesDigit f b low rest) (hroom : (numeral f b n).length ≤ room)
    (temp : List Char) (len : Nat) :
    digitLoop low rest room n temp len = .ok (numeral f b n ++ temp, len + (numeral f b n).length) := by
  induction room generalizing n temp len with
  | zero =>
    rw [numeral, List.length_map] at hroom
    exact absurd hroom (Nat.not_le_of_lt Nat.length_toDigits_pos)
  | succ room ih =>
    have hzero : rest n = 0 ↔ n.toNat < b := by
      rw [← UInt32.toNat_inj, h.rest_eq]
      exact Nat.div_eq_zero_iff_lt (Nat.zero_lt_of_lt h.base.1)
    rw [digitLoop, h.low_eq]
    split
    · rename_i hlast
      have hlt := hzero.mp hlast
      rw [numeral, Nat.toDigits_of_lt_base hlt, Nat.mod_eq_of_lt hlt]
      rfl
    · rename_i hmore
      have hle : b ≤ n.toNat := Nat.le_of_not_lt fun hlt => hmore (hzero.mpr hlt)
      have hdigits : numeral f b n = numeral f b (rest n) ++ [f (digitChar (n.toNat % b))] := by
        rw [numeral, numeral, h.rest_eq, Nat.toDigits_of_base_le h.base.1 hle, List.map_append]
        rfl
      rw [hdigits, List.length_append, List.length_singleton] at hroom ⊢
      rw [ih (Nat.le_of_succ_le_succ hroom), List.append_assoc, Nat.add_assoc,
        Nat.add_comm 1]
      rfl

theorem copyDown_ok (h : IsCString t) (rest : List Char) :
    copyDown (t ++ nul :: rest) = .ok (terminated t) := by
  induction t with
  | nil => rfl
  | cons c t ih =>
    have hc : c ≠ nul := fun heq => h (by simp [heq])
    have ht : IsCString t := fun hmem => h (List.mem_cons_of_mem c hmem)
    rw [List.cons_append, copyDown, if_neg hc, ih ht]
    rfl

theorem mem_numeral (hb : 1 < b) (h : c ∈ numeral f b n) : ∃ d, d < b ∧ c = f (digitChar d) := by
  obtain ⟨c, hc, rfl⟩ := List.mem_map.mp h
  obtain ⟨d, hd, rfl⟩ := mem_toDigits hb hc
  exact ⟨d, hd, rfl⟩

theorem isCString_numeral (hb : 1 < b) (hf : ∀ d, d < b → f (digitChar d) ≠ nul) (n : UInt32) :
    IsCString (numeral f b n) := by
  intro hmem
  obtain ⟨d, hd, heq⟩ := mem_numeral hb hmem
  exact hf d hd heq.symm

theorem prt_ok (h : TakesDigit f b low rest) (hf : ∀ d, d < b → f (digitChar d) ≠ nul)
    (hk : 0 < k ∧ k ≤ 19) (hfits : 2 ^ 32 ≤ b ^ k) (n : UInt32) :
    prt low rest n = .ok (terminated (numeral f b n), (numeral f b n).length) ∧
      (numeral f b n).length ≤ k := by
  have hlen : (numeral f b n).length ≤ k := by
    rw [numeral, List.length_map, Nat.length_toDigits_le_iff h.base.1 hk.1]
    exact Nat.lt_of_lt_of_le n.toNat_lt hfits
  refine ⟨?_, hlen⟩
  refine bind_ok.mpr ⟨_, digitLoop_ok h (Nat.le_trans hlen hk.2) [nul] 0, ?_⟩
  refine bind_ok.mpr ⟨_, copyDown_ok (isCString_numeral h.base.1 hf n) [], ?_⟩
  rw [Nat.zero_add]
  rfl

theorem takesDigit_octal :
    TakesDigit id 8 (fun num => Char.ofNat ((num &&& 7).toNat + 48)) (· >>> 3) where
  base := by decide
  low_eq n := by
    have hdigit : ∀ d < 8, Char.ofNat (d + 48) = id (digitChar d) := by decide
    have hand : (n &&& 7).toNat = n.toNat % 8 := Nat.and_two_pow_sub_one_eq_mod n.toNat 3
    rw [hand]
    exact hdigit _ (Nat.mod_lt _ (by decide))
  rest_eq n := Nat.shiftRight_eq_div_pow n.toNat 3

theorem takesDigit_decimal :
    TakesDigit id 10 (fun num => Char.ofNat ((num % 10).toNat + 48)) (· / 10) where
  base := by decide
  low_eq n := by
    have hdigit : ∀ d < 10, Char.ofNat (d + 48) = id (digitChar d) := by decide
    exact hdigit _ (Nat.mod_lt _ (by decide))
  rest_eq n := UInt32.toNat_div n 10

theorem takesDigit_hex {table : List Char} {f : Char → Char}
    (htable : ∀ d < 16, table.getD d nul = f (digitChar d)) :
    TakesDigit f 16 (fun num => table.getD (num &&& 0x0f).toNat nul) (· >>> 4) where
  base := by decide
  low_eq n := by
    have hand : (n &&& 0x0f).toNat = n.toNat % 16 := Nat.and_two_pow_sub_one_eq_mod n.toNat 4
    rw [hand]
    exact htable _ (Nat.mod_lt _ (by decide))
  rest_eq n := Nat.shiftRight_eq_div_pow n.toNat 4

theorem prt8_ok (n : UInt32) : prt8 n = .ok (terminated (numeral id 8 n), (numeral id 8 n).length) ∧
    (numeral id 8 n).length ≤ 11 :=
  prt_ok takesDigit_octal (by decide) (by decide) (by decide) n

theorem prt10_ok (n : UInt32) :
    prt10 n = .ok (terminated (numeral id 10 n), (numeral id 10 n).length) ∧
      (numeral id 10 n).length ≤ 10 :=
  prt_ok takesDigit_decimal (by decide) (by decide) (by decide) n

theorem prt16_ok (n : UInt32) :
    prt16 n = .ok (terminated (numeral id 16 n), (numeral id 16 n).length) ∧
      (numeral id 16 n).length ≤ 8 :=
  prt_ok (takesDigit_hex (by decide)) (by decide) (by decide) (by decide) n

theorem prt16Upper_ok (n : UInt32) :
    prt16Upper n =
        .ok (terminated (numeral Char.toUpper 16 n), (numeral Char.toUpper 16 n).length) ∧
      (numeral Char.toUpper 16 n).length ≤ 8 :=
  prt_ok (takesDigit_hex (by decide)) (by decide) (by decide) (by decide) n

-- ---------------------------------------------------------------------------
-- The reader
-- ---------------------------------------------------------------------------

theorem isDigit_numeral (h : c ∈ numeral id 10 n) : isDigit c = true := by
  have hdigit : ∀ d < 10, isDigit (digitChar d) = true := by decide
  obtain ⟨d, hd, rfl⟩ := mem_numeral (by decide) h
  exact hdigit d hd

theorem decimalLoop_ok (ht : ∀ c ∈ t, isDigit c = true) (n : UInt32) (rest : List Char) :
    decimalLoop n (t ++ nul :: rest) = .ok (t.foldl (fun n c => n * 10 + (c.val - 48)) n) := by
  induction t generalizing n with
  | nil => rfl
  | cons c t ih =>
    obtain ⟨hc, ht⟩ := List.forall_mem_cons.mp ht
    have hne : c ≠ nul := by
      rintro rfl
      exact absurd hc (by decide)
    rw [List.cons_append, decimalLoop, if_neg hne, if_pos hc, ih ht]
    rfl

theorem hexLoop_ok (ht : ∀ c ∈ t, ∃ d, hexDigit c = some d) (n : UInt32) (rest : List Char) :
    hexLoop n (t ++ nul :: rest) =
      .ok (t.foldl (fun n c => (n <<< 4) + (hexDigit c).getD 0) n) := by
  induction t generalizing n with
  | nil => rfl
  | cons c t ih =>
    obtain ⟨⟨d, hd⟩, ht⟩ := List.forall_mem_cons.mp ht
    have hne : c ≠ nul := by
      rintro rfl
      cases hd
    rw [List.cons_append, hexLoop, if_neg hne, hd]
    dsimp only
    rw [ih ht, List.foldl_cons, hd]
    rfl

theorem foldl_numeral {f : Char → Char} {g : UInt32 → Char → UInt32} (hb : 1 < b)
    (hg : ∀ m d, d < b → g (UInt32.ofNat m) (f (digitChar d)) = UInt32.ofNat (m * b + d)) (n : UInt32) :
    (numeral f b n).foldl g 0 = n := by
  have hfold := foldl_toDigits (f := fun n c => g n (f c)) UInt32.ofNat hb hg n.toNat
  rw [UInt32.ofNat_toNat] at hfold
  rw [numeral, List.foldl_map]
  exact hfold

theorem foldl_decimal (n : UInt32) :
    (numeral id 10 n).foldl (fun n c => n * 10 + (c.val - 48)) 0 = n := by
  have hdigit : ∀ d < 10, (digitChar d).val - 48 = UInt32.ofNat d := by decide
  refine foldl_numeral (by decide) (fun m d hd => ?_) n
  rw [id, hdigit d hd, UInt32.ofNat_add, UInt32.ofNat_mul]
  rfl

theorem shiftLeft_four (m : Nat) : UInt32.ofNat m <<< 4 = UInt32.ofNat (m * 16) := by
  rw [← UInt32.toNat_inj, UInt32.toNat_shiftLeft, UInt32.toNat_ofNat', UInt32.toNat_ofNat',
    Nat.shiftLeft_eq]
  exact Nat.mod_mul_mod m 16 (2 ^ 32)

theorem foldl_hex {f : Char → Char}
    (hf : ∀ d < 16, hexDigit (f (digitChar d)) = some (UInt32.ofNat d)) (n : UInt32) :
    (numeral f 16 n).foldl (fun (n : UInt32) c => (n <<< 4) + (hexDigit c).getD 0) 0 = n := by
  refine foldl_numeral (by decide) (fun m d hd => ?_) n
  rw [hf d hd, Option.getD_some, shiftLeft_four, ← UInt32.ofNat_add]

theorem readNumber_decimal (n : UInt32) : readNumber (terminated (numeral id 10 n)) = .ok n := by
  have hloop := decimalLoop_ok (fun c hc => isDigit_numeral (n := n) hc) 0 []
  rw [foldl_decimal] at hloop
  unfold readNumber
  split
  · rename_i c s heq
    -- what is behind a first zero is a digit or the terminator, and no `X`
    have hc : toUpper c ≠ 88 := by
      have hdigit : ∀ d < 10, toUpper (digitChar d) ≠ 88 := by decide
      have hmem : c ∈ terminated (numeral id 10 n) := by simp [heq]
      rcases List.mem_append.mp hmem with hmem | hnul
      · obtain ⟨d, hd, rfl⟩ := mem_numeral (by decide) hmem
        exact hdigit d hd
      · rw [List.mem_singleton.mp hnul]
        decide
    rw [if_neg hc, ← heq]
    exact hloop
  · exact hloop

theorem readNumber_hex {f : Char → Char}
    (hf : ∀ d < 16, hexDigit (f (digitChar d)) = some (UInt32.ofNat d)) (n : UInt32) :
    readNumber (terminated ("0x".toList ++ numeral f 16 n)) = .ok n := by
  have hdigits : ∀ c ∈ numeral f 16 n, ∃ d, hexDigit c = some d := by
    intro c hc
    obtain ⟨d, hd, rfl⟩ := mem_numeral (by decide) hc
    exact ⟨_, hf d hd⟩
  have hloop := hexLoop_ok hdigits 0 []
  rw [foldl_hex hf] at hloop
  exact hloop

theorem exists_numeral_cons (f : Char → Char) (b : Nat) (n : UInt32) :
    ∃ c t, numeral f b n = c :: t := by
  refine List.exists_cons_of_ne_nil fun hnil => ?_
  exact Nat.toDigits_ne_nil (List.map_eq_nil_iff.mp hnil)

theorem stod_decimal (n : UInt32) : stod (terminated (numeral id 10 n)) = .ok n := by
  have hread := readNumber_decimal n
  obtain ⟨c, t, heq⟩ := exists_numeral_cons id 10 n
  have hc : c ≠ '-' := by
    have hdigit : isDigit c = true := isDigit_numeral (n := n) (by simp [heq])
    rintro rfl
    exact absurd hdigit (by decide)
  rw [heq] at hread ⊢
  show (if c = '-' then _ else _) = _
  rw [if_neg hc]
  exact bind_ok.mpr ⟨n, hread, congrArg Except.ok (UInt32.mul_one n)⟩

theorem stod_hex {f : Char → Char}
    (hf : ∀ d < 16, hexDigit (f (digitChar d)) = some (UInt32.ofNat d)) (n : UInt32) :
    stod (terminated ("0x".toList ++ numeral f 16 n)) = .ok n :=
  bind_ok.mpr ⟨n, readNumber_hex hf n, congrArg Except.ok (UInt32.mul_one n)⟩

theorem stod_neg (n : UInt32) : stod (terminated ('-' :: numeral id 10 n)) = .ok (-n) := by
  have hread := readNumber_decimal n
  obtain ⟨c, t, heq⟩ := exists_numeral_cons id 10 n
  have hc : isDigit c = true := isDigit_numeral (n := n) (by simp [heq])
  rw [heq] at hread ⊢
  have hskip : skipToDigit (terminated (c :: t)) = .ok (terminated (c :: t)) := if_pos (.inl hc)
  refine bind_ok.mpr ⟨_, hskip, bind_ok.mpr ⟨n, hread, congrArg Except.ok ?_⟩⟩
  rw [UInt32.mul_neg, UInt32.mul_one]

/-- What `stod` reads of the text that a printer writes, the sign and the prefix
put before it. -/
theorem number_text_round_trip (n : UInt32) :
    (∃ t, prt10 n = .ok (terminated t, t.length) ∧ IsCString t ∧ t.length < 20 ∧
      stod (terminated t) = .ok n ∧ stod (terminated ('-' :: t)) = .ok (-n)) ∧
    (∃ t, prt16 n = .ok (terminated t, t.length) ∧ IsCString t ∧ t.length < 20 ∧
      stod (terminated ("0x".toList ++ t)) = .ok n) ∧
    ∃ t, prt16Upper n = .ok (terminated t, t.length) ∧ IsCString t ∧ t.length < 20 ∧
      stod (terminated ("0x".toList ++ t)) = .ok n := by
  refine ⟨⟨numeral id 10 n, ?_⟩, ⟨numeral id 16 n, ?_⟩, ⟨numeral Char.toUpper 16 n, ?_⟩⟩
  · obtain ⟨hprt, hlen⟩ := prt10_ok n
    refine ⟨hprt, isCString_numeral (by decide) (by decide) n, by omega, ?_⟩
    exact ⟨stod_decimal n, stod_neg n⟩
  · obtain ⟨hprt, hlen⟩ := prt16_ok n
    exact ⟨hprt, isCString_numeral (by decide) (by decide) n, by omega, stod_hex (by decide) n⟩
  · obtain ⟨hprt, hlen⟩ := prt16Upper_ok n
    exact ⟨hprt, isCString_numeral (by decide) (by decide) n, by omega, stod_hex (by decide) n⟩

end IoTware.Oal
