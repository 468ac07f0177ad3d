import IoTware.Oal.Format

/-!
# Number fields

What `d_printf` prints of a number: its digits, which the precision of `u` may cut,
with the sign before them, and padding up to the width.
-/

namespace IoTware.Oal

open CText Loops CArray Digits
open Nat (toDigits digitChar ofDigitChars)

inductive NumberConv
  | d | u | o | x | upperX
  deriving DecidableEq

def NumberConv.toChar : NumberConv → Char
  | .d => 'd'
  | .u => 'u'
  | .o => 'o'
  | .x => 'x'
  | .upperX => 'X'

def NumberConv.base : NumberConv → Nat
  | .d | .u => 10
  | .o => 8
  | .x | .upperX => 16

def NumberConv.digitCase : NumberConv → Char → Char
  | .upperX => Char.toUpper
  | _ => id

/-- Only `d` takes its argument for a signed number. -/
def NumberConv.negative (conv : NumberConv) (arg : UInt32) : Bool :=
  conv = .d ∧ arg.toInt32 < 0

def NumberConv.magnitude (conv : NumberConv) (arg : UInt32) : UInt32 :=
  if conv.negative arg then -arg else arg

def NumberConv.value (conv : NumberConv) (arg : UInt32) : Int :=
  if conv = .d then arg.toInt32.toInt else arg.toNat

def NumberConv.sign (conv : NumberConv) (arg : UInt32) : Text :=
  if conv.negative arg then ['-'] else []

def NumberConv.digits (conv : NumberConv) (arg : UInt32) : Text :=
  numeral conv.digitCase conv.base (conv.magnitude arg)

/-- A conversion of a number, as it is written in a format: the flags, the digits
of the width and of the precision behind a point. -/
structure NumberSpec where
  minus : Bool
  zero : Bool
  width : Text
  precision : Option Text
  conv : NumberConv
  width_digits : ∀ c ∈ width, isDigit c = true
  width_head : zero = false → width.head? ≠ some '0'
  width_lt : ofDigitChars 10 width 0 < 2 ^ 15
  precision_digits : ∀ t ∈ precision, ∀ c ∈ t, isDigit c = true
  precision_lt : ∀ t ∈ precision, ofDigitChars 10 t 0 < 2 ^ 15

namespace NumberSpec

variable (spec : NumberSpec) (arg : UInt32)

def tail : Text := (spec.precision.elim [] fun t => '.' :: t) ++ [spec.conv.toChar]

def body : Text :=
  (if spec.minus then ['-'] else []) ++ ((if spec.zero then ['0'] else []) ++ (spec.width ++ spec.tail))

def text : Text := '%' :: spec.body

def fmin : Nat := ofDigitChars 10 spec.width 0

def fmax : Nat := spec.precision.elim 0 fun t => ofDigitChars 10 t 0

def kept : Text :=
  if spec.conv = .u ∧ spec.fmax ≠ 0 then (spec.conv.digits arg).take spec.fmax
  else spec.conv.digits arg

def padding : Text :=
  List.replicate (spec.fmin - ((spec.conv.sign arg).length + (spec.kept arg).length))
    (if spec.zero then '0' else ' ')

def field : Text :=
  if spec.minus then spec.conv.sign arg ++ spec.kept arg ++ spec.padding arg
  else if spec.zero then spec.conv.sign arg ++ (spec.padding arg ++ spec.kept arg)
  else spec.padding arg ++ (spec.conv.sign arg ++ spec.kept arg)

end NumberSpec

-- ---------------------------------------------------------------------------
-- Reading the conversion
-- ---------------------------------------------------------------------------

theorem wrap_eq (hlow : -2147483648 ≤ n) (hhigh : n < 2147483648) : wrap n = n := by
  refine Int.bmod_eq_of_le ?_ ?_
  · exact hlow
  · exact hhigh

theorem flag_cons (c : Char) (fmt : List Char) : flag c (c :: fmt) = (true, fmt) := if_pos rfl

theorem flag_of_ne (h : fmt.head? ≠ some c) : flag c fmt = (false, fmt) := by
  cases fmt with
  | nil => rfl
  | cons x fmt => exact if_neg fun heq => h (congrArg some heq)

theorem flag_if {c : Char} {b : Bool} (h : b = false → fmt.head? ≠ some c) :
    flag c ((if b then [c] else []) ++ fmt) = (b, fmt) := by
  cases b with
  | true => exact flag_cons c fmt
  | false => exact flag_of_ne (h rfl)

theorem le_ofDigitChars (t : Text) (n : Nat) : n ≤ ofDigitChars 10 t n := by
  rw [Nat.ofDigitChars_eq_ofDigitChars_zero]
  have hpow : 0 < 10 ^ t.length := Nat.pow_pos (by decide)
  exact Nat.le_trans (Nat.le_mul_of_pos_left n hpow) (Nat.le_add_right _ _)

theorem digitsFrom_ok {n : Nat} (ht : ∀ c ∈ t, isDigit c = true) (hlt : ofDigitChars 10 t n < 2 ^ 15)
    (hc : isDigit c = false) (fmt : List Char) :
    digitsFrom n (t ++ c :: fmt) = .ok (ofDigitChars 10 t n, c :: fmt) := by
  induction t generalizing n with
  | nil =>
    rw [List.nil_append, digitsFrom, hc]
    rfl
  | cons x t ih =>
    obtain ⟨hx, ht⟩ := List.forall_mem_cons.mp ht
    rw [Nat.ofDigitChars_cons] at hlt ⊢
    have hle := le_ofDigitChars t (10 * n + (x.toNat - '0'.toNat))
    have hx48 : 48 ≤ x.toNat := by
      unfold isDigit at hx
      simp only [Bool.and_eq_true, decide_eq_true_eq] at hx
      exact hx.1
    have hnext : wrap (n * 10 + x.toNat - 48) = ((10 * n + (x.toNat - '0'.toNat) : Nat) : Int) := by
      have hzero : '0'.toNat = 48 := rfl
      rw [wrap_eq] <;> omega
    rw [List.cons_append, digitsFrom, if_pos hx, hnext]
    exact ih ht hlt

theorem readNumberOf_ok (ht : ∀ c ∈ t, isDigit c = true) (hlt : ofDigitChars 10 t 0 < 2 ^ 15)
    (hc : isDigit c = false) (hstar : c ≠ '*') (fmt : List Char) (args : List UInt32) :
    readNumberOf (t ++ c :: fmt) args = .ok (ofDigitChars 10 t 0, c :: fmt, args) := by
  have hhead : (t ++ c :: fmt).head? ≠ some '*' := by
    cases t with
    | nil => simpa using hstar
    | cons x t =>
      have hx := ht x List.mem_cons_self
      rw [List.cons_append, List.head?_cons, ne_eq, Option.some.injEq]
      rintro rfl
      exact absurd hx (by decide)
  unfold readNumberOf
  rw [flag_of_ne hhead]
  exact bind_ok.mpr ⟨_, digitsFrom_ok (n := 0) ht hlt hc fmt, rfl⟩

theorem toChar_class (conv : NumberConv) : isDigit conv.toChar = false ∧ conv.toChar ≠ '*' ∧
    conv.toChar ≠ '-' ∧ conv.toChar ≠ '.' ∧ conv.toChar ≠ '%' ∧ conv.toChar ≠ nul := by
  cases conv <;> decide

namespace NumberSpec

variable (spec : NumberSpec)

theorem tail_cons (fmt : List Char) : ∃ c rest, spec.tail ++ fmt = c :: rest ∧ isDigit c = false ∧
    c ≠ '*' ∧ c ≠ '-' ∧ c ≠ '%' := by
  obtain ⟨hdigit, hstar, hminus, -, hpercent, -⟩ := toChar_class spec.conv
  unfold tail
  cases spec.precision with
  | none => exact ⟨_, fmt, rfl, hdigit, hstar, hminus, hpercent⟩
  | some t => exact ⟨'.', _, rfl, by decide⟩

theorem width_head_ne (fmt : List Char) (hc : isDigit c = false)
    (htail : ∀ x rest, spec.tail ++ fmt = x :: rest → x ≠ c) :
    (spec.width ++ (spec.tail ++ fmt)).head? ≠ some c := by
  cases hwidth : spec.width with
  | nil =>
    obtain ⟨x, rest, heq, -⟩ := spec.tail_cons fmt
    rw [List.nil_append, heq, List.head?_cons, ne_eq, Option.some.injEq]
    exact htail x rest heq
  | cons x width =>
    have hx := spec.width_digits x (by simp [hwidth])
    rw [List.cons_append, List.head?_cons, ne_eq, Option.some.injEq]
    rintro rfl
    exact absurd hx (by simp [hc])

theorem head_ne_minus (fmt : List Char) :
    ((if spec.zero then ['0'] else []) ++ (spec.width ++ (spec.tail ++ fmt))).head? ≠ some '-' := by
  obtain ⟨x, rest, heq, -, -, hminus, -⟩ := spec.tail_cons fmt
  cases spec.zero with
  | true => exact fun h => absurd (Option.some.inj h) (by decide)
  | false =>
    refine spec.width_head_ne fmt (by decide) fun y _ hy => ?_
    rw [heq] at hy
    exact (List.cons.inj hy).1 ▸ hminus

theorem head_ne_percent (fmt : List Char) : (spec.body ++ fmt).head? ≠ some '%' := by
  obtain ⟨x, rest, heq, -, -, -, hpercent⟩ := spec.tail_cons fmt
  unfold body
  rw [List.append_assoc, List.append_assoc, List.append_assoc]
  cases spec.minus with
  | true => exact fun h => absurd (Option.some.inj h) (by decide)
  | false =>
    cases spec.zero with
    | true => exact fun h => absurd (Option.some.inj h) (by decide)
    | false =>
      refine spec.width_head_ne fmt (by decide) fun y _ hy => ?_
      rw [heq] at hy
      exact (List.cons.inj hy).1 ▸ hpercent

theorem zero_head (fmt : List Char) (hzero : spec.zero = false) :
    (spec.width ++ (spec.tail ++ fmt)).head? ≠ some '0' := by
  have hhead := spec.width_head hzero
  cases hwidth : spec.width with
  | nil =>
    obtain ⟨x, rest, heq, hdigit, -⟩ := spec.tail_cons fmt
    rw [List.nil_append, heq, List.head?_cons, ne_eq, Option.some.injEq]
    rintro rfl
    exact absurd hdigit (by decide)
  | cons x width =>
    rw [hwidth] at hhead
    exact hhead

theorem readPrecision_ok (fmt : List Char) (args : List UInt32) :
    readPrecision (spec.tail ++ fmt) args = .ok (spec.fmax, spec.conv.toChar :: fmt, args) := by
  obtain ⟨hdigit, hstar, -, hpoint, -⟩ := toChar_class spec.conv
  unfold readPrecision tail fmax
  cases hprecision : spec.precision with
  | none =>
    have hhead : (spec.conv.toChar :: fmt).head? ≠ some '.' := by simpa using hpoint
    show (if (flag '.' (spec.conv.toChar :: fmt)).1 then _ else _) = _
    rw [flag_of_ne hhead]
    rfl
  | some t =>
    have hread := readNumberOf_ok (spec.precision_digits t hprecision)
      (spec.precision_lt t hprecision) hdigit hstar fmt args
    have htext : (some t).elim [] (fun t => '.' :: t) ++ [spec.conv.toChar] ++ fmt =
        '.' :: (t ++ spec.conv.toChar :: fmt) := by simp
    rw [htext, flag_cons]
    exact hread

theorem readConversion_ok (fmt : List Char) (args : List UInt32) :
    readConversion (spec.body ++ fmt) args =
      .ok (⟨spec.minus, if spec.zero then '0' else ' ', spec.fmin, spec.fmax⟩,
        spec.conv.toChar :: fmt, args) := by
  obtain ⟨c, rest, heq, hdigit, hstar, -⟩ := spec.tail_cons fmt
  have hwidth := readNumberOf_ok spec.width_digits spec.width_lt hdigit hstar rest args
  rw [← heq] at hwidth
  have hzero := flag_if (c := '0') fun h => spec.zero_head fmt h
  have hminus := flag_if (c := '-') (b := spec.minus) fun _ => spec.head_ne_minus fmt
  unfold readConversion body
  rw [List.append_assoc, List.append_assoc, List.append_assoc, hminus]
  dsimp only
  rw [hzero]
  exact bind_ok.mpr ⟨_, hwidth, bind_ok.mpr ⟨_, spec.readPrecision_ok fmt args, rfl⟩⟩

end NumberSpec

-- ---------------------------------------------------------------------------
-- Printing the number
-- ---------------------------------------------------------------------------

theorem inString_ok (hprinted : printed = .ok (terminated t, t.length)) (ht : t.length ≤ 11)
    (sign : Bool) (fmax : Int) (fill : Char) :
    inString printed sign fmax fill = .ok ⟨terminated t, t.length, sign, fmax, fill⟩ := by
  refine bind_ok.mpr ⟨_, hprinted, if_pos ?_⟩
  rw [terminated, List.length_append, List.length_singleton]
  omega

theorem length_digits (conv : NumberConv) (arg : UInt32) : (conv.digits arg).length ≤ 11 := by
  unfold NumberConv.digits
  cases conv with
  | d | u => exact Nat.le_trans (prt10_ok _).2 (by decide)
  | o => exact (prt8_ok _).2
  | x => exact Nat.le_trans (prt16_ok _).2 (by decide)
  | upperX => exact Nat.le_trans (prt16Upper_ok _).2 (by decide)

theorem shown_number (memory : UInt32 → List Char) (c : Conversion) (conv : NumberConv) (arg : UInt32) :
    shown memory c conv.toChar arg =
      .ok ⟨terminated (conv.digits arg), (conv.digits arg).length, conv.negative arg,
        if conv = .u then c.fmax else 0, c.fill⟩ := by
  have hlen := length_digits conv arg
  cases conv with
  | d =>
    have hneg : NumberConv.d.negative arg = decide (arg.toInt32 < 0) := by
      simp [NumberConv.negative]
    have hmag : NumberConv.d.magnitude arg = if arg.toInt32 < 0 then -arg else arg := by
      simp [NumberConv.magnitude, hneg]
    have hshown : inString (prt10 (if arg.toInt32 < 0 then -arg else arg)) (arg.toInt32 < 0) 0
        c.fill = .ok ⟨terminated (NumberConv.d.digits arg), (NumberConv.d.digits arg).length,
          decide (arg.toInt32 < 0), 0, c.fill⟩ := by
      rw [← hmag]
      exact inString_ok (prt10_ok _).1 hlen _ 0 c.fill
    rw [hneg]
    exact hshown
  | u => exact inString_ok (prt10_ok arg).1 hlen false c.fmax c.fill
  | o => exact inString_ok (prt8_ok arg).1 hlen false 0 c.fill
  | x => exact inString_ok (prt16_ok arg).1 hlen false 0 c.fill
  | upperX => exact inString_ok (prt16Upper_ok arg).1 hlen false 0 c.fill

namespace NumberSpec

variable (spec : NumberSpec) (arg : UInt32)

theorem kept_eq_take : spec.kept arg = (spec.conv.digits arg).take (spec.kept arg).length := by
  unfold kept
  split
  · rw [List.length_take, List.take_eq_take_iff]
    omega
  · rw [List.take_length]

theorem length_kept :
    (let fmax : Int := if spec.conv = .u then spec.fmax else 0
    if fmax ≠ 0 ∧ ((spec.conv.digits arg).length : Int) > fmax then fmax
    else (spec.conv.digits arg).length) = (spec.kept arg).length := by
  unfold kept
  by_cases hu : spec.conv = .u
  · simp only [hu, if_true, true_and]
    by_cases hmax : spec.fmax = 0
    · simp [hmax]
    · rw [if_pos hmax, List.length_take]
      split <;> omega
  · simp [hu]

theorem fmin_lt : spec.fmin < 2 ^ 15 := spec.width_lt

theorem length_kept_le : (spec.kept arg).length ≤ 11 := by
  have hdigits := length_digits spec.conv arg
  rw [kept_eq_take, List.length_take]
  omega

theorem length_sign : (spec.conv.sign arg).length = if spec.conv.negative arg then 1 else 0 := by
  unfold NumberConv.sign
  split <;> rfl

theorem negative_of_u (h : spec.conv = .u) : spec.conv.negative arg = false := by
  simp [NumberConv.negative, h]

theorem leading_eq :
    (let fmax : Int := if spec.conv = .u then spec.fmax else 0
    if fmax ≠ 0 ∨ (spec.fmin : Int) ≠ 0 then
      let leading := if (spec.fmin : Int) ≠ 0 then wrap (spec.fmin - (spec.kept arg).length) else 0
      if spec.conv.negative arg then wrap (leading - 1) else leading
    else 0).toNat = spec.fmin - ((spec.conv.sign arg).length + (spec.kept arg).length) := by
  have hmin := spec.fmin_lt
  have hkept := spec.length_kept_le arg
  have hsub : wrap (spec.fmin - (spec.kept arg).length) = spec.fmin - (spec.kept arg).length :=
    wrap_eq (by omega) (by omega)
  have hpred : ∀ n : Int, -11 ≤ n → n < 2 ^ 15 → wrap (n - 1) = n - 1 :=
    fun n hlow hhigh => wrap_eq (by omega) (by omega)
  rw [length_sign, hsub]
  dsimp only
  by_cases hzero : spec.fmin = 0
  · have hu := spec.negative_of_u arg
    by_cases hconv : spec.conv = .u
    · simp [hzero, hu hconv]
    · simp [hzero, hconv]
  · have hne : (spec.fmin : Int) ≠ 0 := by omega
    rw [if_pos (.inr hne), if_pos hne]
    split
    · rw [hpred _ (by omega) (by omega)]
      omega
    · omega

theorem putField_number :
    putField ⟨spec.minus, if spec.zero then '0' else ' ', spec.fmin, spec.fmax⟩
        ⟨terminated (spec.conv.digits arg), (spec.conv.digits arg).length, spec.conv.negative arg,
          if spec.conv = .u then (spec.fmax : Int) else 0, if spec.zero then '0' else ' '⟩ =
      .ok (spec.field arg) := by
  have hlead := spec.leading_eq arg
  have hlength := spec.length_kept arg
  have htake : (terminated (spec.conv.digits arg)).take (spec.kept arg).length = spec.kept arg := by
    have hle : (spec.kept arg).length ≤ (spec.conv.digits arg).length := by
      rw [kept_eq_take, List.length_take]
      omega
    rw [terminated, List.take_append_of_le_length hle, ← kept_eq_take]
  have hfits : (spec.kept arg).length ≤ (terminated (spec.conv.digits arg)).length := by
    rw [← htake, List.length_take]
    omega
  unfold putField
  dsimp only at hlead hlength ⊢
  rw [hlength, hlead, Int.toNat_natCast, if_pos hfits, htake]
  refine congrArg Except.ok ?_
  unfold field padding NumberConv.sign
  cases spec.minus <;> cases spec.zero <;> cases spec.conv.negative arg <;> simp

end NumberSpec

theorem dPrintf_conversion {memory : UInt32 → List Char} (hpercent : fmt.head? ≠ some '%')
    (hread : readConversion fmt args = .ok (conv, f :: fmt', arg :: args')) (hf : f ≠ nul) :
    dPrintf memory ('%' :: fmt) args = (do
      let field ← putField conv (← shown memory conv f arg)
      return field ++ (← dPrintf memory fmt' args')) := by
  rw [dPrintf, if_pos rfl, flag_of_ne hpercent, if_neg Bool.false_ne_true]
  split
  · rename_i heq
    rw [hread] at heq
    cases heq
    exact if_neg hf
  · rename_i heq
    rw [hread] at heq
    cases heq
  · rename_i heq
    rw [hread] at heq
    cases heq
  · rename_i heq
    rw [hread] at heq
    cases heq

theorem dPrintf_number (memory : UInt32 → List Char) (spec : NumberSpec) (arg : UInt32)
    (fmt : List Char) (args : List UInt32) :
    dPrintf memory (spec.text ++ fmt) (arg :: args) = (do
      return spec.field arg ++ (← dPrintf memory fmt args)) := by
  obtain ⟨-, -, -, -, -, hnul⟩ := toChar_class spec.conv
  refine (dPrintf_conversion (spec.head_ne_percent fmt)
    (spec.readConversion_ok fmt (arg :: args)) hnul).trans ?_
  rw [shown_number]
  show (do
    let field ← putField _ _
    return field ++ (← dPrintf memory fmt args)) = _
  rw [spec.putField_number arg]
  rfl

theorem dPrintf_number_alone (memory : UInt32 → List Char) (spec : NumberSpec) (arg : UInt32) :
    dPrintf memory (terminated spec.text) [arg] = .ok (spec.field arg) := by
  have hend : dPrintf memory [nul] [] = .ok [] := by
    rw [dPrintf, if_neg (by decide), if_pos rfl]
  unfold terminated
  rw [dPrintf_number, hend]
  exact congrArg Except.ok (List.append_nil _)

end IoTware.Oal
