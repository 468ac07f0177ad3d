import Mathlib.Data.List.Basic

/-!
# C text

A C string is the list of its characters, without the terminator. A cursor
into a buffer is the list of the characters from the cursor to the end of the
buffer, terminator included, so that moving the cursor drops a character and
reading past the buffer is reading the empty list. The character classes are
those of the "C" locale.
-/

namespace CText

abbrev Text := List Char

def nul : Char := '\x00'

def isSpace (c : Char) : Bool := c.toNat == 32 || (9 ≤ c.toNat && c.toNat ≤ 13)

def isDigit (c : Char) : Bool := 48 ≤ c.toNat && c.toNat ≤ 57

def isAlnum (c : Char) : Bool :=
  isDigit c || (65 ≤ c.toNat && c.toNat ≤ 90) || (97 ≤ c.toNat && c.toNat ≤ 122)

def isPunct (c : Char) : Bool := 33 ≤ c.toNat && c.toNat ≤ 126 && !isAlnum c

def isPrint (c : Char) : Bool := 32 ≤ c.toNat && c.toNat ≤ 126

theorem class_of_isPrint (h : isPrint c) : isAlnum c || isSpace c || isPunct c := by
  simp only [isPrint, isSpace, isPunct, Bool.and_eq_true, decide_eq_true_eq] at *
  cases isAlnum c
  · simp; omega
  · rfl

instance (t : Text) (p : Char → Prop) [DecidablePred p] : Decidable (∀ c ∈ t, p c) :=
  List.decidableBAll p t

/-- The text from the cursor `start` up to, and without, the cursor `p`. -/
def between (start p : List Char) : Text := start.take (start.length - p.length)

theorem between_append (t p : List Char) : between (t ++ p) p = t := by
  simp [between]

/-- A buffer that holds the string `s` and its terminator, and nothing else. -/
def terminated (s : Text) : List Char := s ++ [nul]

/-- `s` holds no terminator, so `terminated s` is the C string `s`. -/
def IsCString (s : Text) : Prop := nul ∉ s

instance (s : Text) : Decidable (IsCString s) := inferInstanceAs (Decidable (nul ∉ s))

end CText
