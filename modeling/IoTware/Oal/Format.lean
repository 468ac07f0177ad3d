import IoTware.Oal.Debug

/-!
# Formatted output

`d_printf` of `iw_debug.c`. A `long` has 32 bits. `memory` is what can be read
from an address on; an argument is its 32 bits. The array `string` has 64
characters, and only those that a printer wrote are read.
-/

namespace IoTware.Oal

open CText Loops CArray Digits

def wrap (n : Int) : Int := n.bmod (2 ^ 32)

structure Conversion where
  leftjust : Bool
  fill : Char
  fmin : Int
  fmax : Int

/-- Passes over the character `c`, if it is there. -/
def flag (c : Char) : List Char → Bool × List Char
  | [] => (false, [])
  | x :: fmt => if x = c then (true, fmt) else (false, x :: fmt)

def digitsFrom (n : Int) : List Char → Except OutOfBounds (Int × List Char)
  | [] => .error .outOfBounds
  | c :: fmt =>
    if isDigit c then digitsFrom (wrap (n * 10 + c.toNat - 48)) fmt else .ok (n, c :: fmt)

/-- A `*`, which takes an argument, or digits. -/
def readNumberOf (fmt : List Char) (args : List UInt32) :
    Except OutOfBounds (Int × List Char × List UInt32) :=
  match flag '*' fmt, args with
  | (true, fmt), arg :: args => .ok (arg.toInt32.toInt, fmt, args)
  | (true, _), [] => .error .outOfBounds
  | (false, fmt), args => do
    let (n, fmt) ← digitsFrom 0 fmt
    return (n, fmt, args)

def readPrecision (fmt : List Char) (args : List UInt32) :
    Except OutOfBounds (Int × List Char × List UInt32) :=
  if (flag '.' fmt).1 then readNumberOf (flag '.' fmt).2 args else .ok (0, fmt, args)

def readConversion (fmt : List Char) (args : List UInt32) :
    Except OutOfBounds (Conversion × List Char × List UInt32) := do
  let (leftjust, fmt) := flag '-' fmt
  let (zero, fmt) := flag '0' fmt
  let (fmin, fmt, args) ← readNumberOf fmt args
  let (fmax, fmt, args) ← readPrecision fmt args
  return (⟨leftjust, if zero then '0' else ' ', fmin, fmax⟩, fmt, args)

/-- What the `switch` sets: the characters from `str` on, how many of them to
print, whether `sign` is set, and `fmax` and `fill`. -/
structure Shown where
  str : List Char
  length : Int
  sign : Bool
  fmax : Int
  fill : Char

def inString (printed : Except OutOfBounds (List Char × Nat)) (sign : Bool) (fmax : Int) (fill : Char) :
    Except OutOfBounds Shown := do
  let (str, length) ← printed
  if str.length ≤ 64 then return ⟨str, length, sign, fmax, fill⟩ else .error .outOfBounds

/-- The `switch`. Of the numbers, only `u` keeps `fmax`. -/
def shown (memory : UInt32 → List Char) (conv : Conversion) (f : Char) (arg : UInt32) :
    Except OutOfBounds Shown :=
  if f = 'c' then .ok ⟨[Char.ofNat (arg.toNat % 256), nul], 1, false, 0, ' '⟩
  else if f = 's' then do return ⟨memory arg, ← strlen (memory arg), false, conv.fmax, ' '⟩
  else if f = 'd' then
    let negative := arg.toInt32 < 0
    inString (prt10 (if negative then -arg else arg)) negative 0 conv.fill
  else if f = 'u' then inString (prt10 arg) false conv.fmax conv.fill
  else if f = 'o' then inString (prt8 arg) false 0 conv.fill
  else if f = 'x' then inString (prt16 arg) false 0 conv.fill
  else if f = 'X' then inString (prt16Upper arg) false 0 conv.fill
  else .ok ⟨memory arg, 1, false, conv.fmax, conv.fill⟩

def putField (conv : Conversion) (s : Shown) : Except OutOfBounds Text :=
  let length := if s.fmax ≠ 0 ∧ s.length > s.fmax then s.fmax else s.length
  let leading :=
    if s.fmax ≠ 0 ∨ conv.fmin ≠ 0 then
      let leading := if conv.fmin ≠ 0 then wrap (conv.fmin - length) else 0
      if s.sign then wrap (leading - 1) else leading
    else 0
  let padding := List.replicate leading.toNat s.fill
  if length.toNat ≤ s.str.length then
    .ok ((if s.sign ∧ s.fill = '0' then ['-'] else []) ++
      (if conv.leftjust then [] else padding) ++
      (if s.sign ∧ s.fill = ' ' then ['-'] else []) ++
      s.str.take length.toNat ++
      (if conv.leftjust then padding else []))
  else .error .outOfBounds

theorem length_flag (c : Char) (fmt : List Char) : (flag c fmt).2.length ≤ fmt.length := by
  unfold flag
  split
  · exact Nat.le_refl _
  · split
    · exact Nat.le_succ _
    · exact Nat.le_refl _

theorem length_digitsFrom (h : digitsFrom n fmt = .ok (m, fmt')) : fmt'.length ≤ fmt.length := by
  induction fmt generalizing n with
  | nil => cases h
  | cons c fmt ih =>
    unfold digitsFrom at h
    split at h
    · exact Nat.le_succ_of_le (ih h)
    · cases h
      exact Nat.le_refl _

theorem length_readNumberOf (h : readNumberOf fmt args = .ok (n, fmt', args')) :
    fmt'.length ≤ fmt.length := by
  have hflag := length_flag '*' fmt
  unfold readNumberOf at h
  split at h
  · rename_i heq
    cases h
    rwa [heq] at hflag
  · cases h
  · rename_i heq
    rw [heq] at hflag
    simp only [bind_ok, pure_ok] at h
    obtain ⟨⟨m, fmt₁⟩, hdigits, h⟩ := h
    cases h
    exact Nat.le_trans (length_digitsFrom hdigits) hflag

theorem length_readPrecision (h : readPrecision fmt args = .ok (n, fmt', args')) :
    fmt'.length ≤ fmt.length := by
  unfold readPrecision at h
  split at h
  · exact Nat.le_trans (length_readNumberOf h) (length_flag '.' fmt)
  · cases h
    exact Nat.le_refl _

theorem length_readConversion (h : readConversion fmt args = .ok (conv, fmt', args')) :
    fmt'.length ≤ fmt.length := by
  unfold readConversion at h
  simp only [bind_ok, pure_ok] at h
  obtain ⟨⟨fmin, fmt₁, args₁⟩, hwidth, ⟨fmax, fmt₂, args₂⟩, hprecision, h⟩ := h
  cases h
  exact Nat.le_trans (length_readPrecision hprecision) (Nat.le_trans (length_readNumberOf hwidth)
    (Nat.le_trans (length_flag '0' _) (length_flag '-' fmt)))

def dPrintf (memory : UInt32 → List Char) : List Char → List UInt32 → Except OutOfBounds Text
  | [], _ => .error .outOfBounds
  | c :: fmt, args =>
    if c = '%' then
      if (flag '%' fmt).1 then do return '%' :: (← dPrintf memory (flag '%' fmt).2 args)
      else
        match _h : readConversion fmt args with
        | .ok (conv, f :: fmt', arg :: args') =>
          if f = nul then .ok ['%']
          else do
            let field ← putField conv (← shown memory conv f arg)
            return field ++ (← dPrintf memory fmt' args')
        | .ok (_, f :: _, []) => if f = nul then .ok ['%'] else .error .outOfBounds
        | .ok (_, [], _) => .error .outOfBounds
        | .error e => .error e
    else if c = nul then .ok []
    else do return c :: (← dPrintf memory fmt args)
termination_by fmt => fmt.length
decreasing_by
  · exact Nat.lt_succ_of_le (length_flag '%' fmt)
  · exact Nat.lt_succ_of_lt (length_readConversion _h)
  · exact Nat.lt_succ_self _

end IoTware.Oal
