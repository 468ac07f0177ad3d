import IoTware.LwMsg.Parse

/-!
# Message trees and their text

What a sender means by a message: a tree of texts, arrays and dictionaries, its
rendering, and what it means that a parsed message denotes the tree. Order is
no part of the meaning, since every list of the parser is built by insertion at
the head.
-/

namespace IoTware.LwMsg

open CText

inductive Tree
  | text (t : Text)
  | array (items : List Tree)
  | dictionary (entries : List (Text × Tree))

/-- A header and, optionally, a body. -/
structure MessageTree where
  header : List (Text × Tree)
  body : Option (List (Text × Tree))

def delimiters : List Char := ['{', '}', '[', ']', '=', ';', ',']

def PlainChar (c : Char) : Prop := isPrint c ∧ c ∉ delimiters

instance : Decidable (PlainChar c) := inferInstanceAs (Decidable (_ ∧ _))

def PlainText (t : Text) : Prop :=
  t ≠ [] ∧ t.head? ≠ some ' ' ∧ ∀ c ∈ t, PlainChar c

instance : Decidable (PlainText t) := inferInstanceAs (Decidable (_ ∧ _ ∧ _))

mutual
def Tree.WellFormed : Tree → Prop
  | .text t => PlainText t
  | .array items => itemsWellFormed items
  | .dictionary entries => (entries.map Prod.fst).Nodup ∧ entriesWellFormed entries
def itemsWellFormed : List Tree → Prop
  | [] => True
  | v :: items => v.WellFormed ∧ itemsWellFormed items
/-- Every key and value is well formed; that the keys differ is asked of the
dictionary. -/
def entriesWellFormed : List (Text × Tree) → Prop
  | [] => True
  | (k, v) :: entries => PlainText k ∧ v.WellFormed ∧ entriesWellFormed entries
end

def MessageTree.WellFormed (m : MessageTree) : Prop :=
  (Tree.dictionary m.header).WellFormed ∧ ∀ body ∈ m.body, (Tree.dictionary body).WellFormed

mutual
def Tree.render : Tree → List Char
  | .text t => t
  | .array items => '[' :: (renderItems items ++ [']'])
  | .dictionary entries => '{' :: (renderEntries entries ++ ['}'])
def renderItems : List Tree → List Char
  | [] => []
  | [v] => v.render
  | v :: w :: items => v.render ++ ',' :: renderItems (w :: items)
def renderEntries : List (Text × Tree) → List Char
  | [] => []
  | [(k, v)] => k ++ '=' :: v.render
  | (k, v) :: e :: entries => k ++ '=' :: (v.render ++ ';' :: renderEntries (e :: entries))
end

def MessageTree.render (m : MessageTree) : List Char :=
  (Tree.dictionary m.header).render ++ (m.body.map fun body => (Tree.dictionary body).render).getD []

mutual
/-- The object is the tree up to the order of items and entries. -/
def Tree.Denotes : Tree → LWMObject → Prop
  | .text t, o => o = .string (some t)
  | .array items, o => ∃ objs objs', o = .array objs ∧ objs'.Perm objs ∧ itemsDenote items objs'
  | .dictionary entries, o =>
    ∃ dict dict', o = .dictionary dict ∧ dict'.Perm dict ∧ entriesDenote entries dict'
def itemsDenote : List Tree → List LWMObject → Prop
  | [], objs => objs = []
  | _ :: _, [] => False
  | v :: items, o :: objs => v.Denotes o ∧ itemsDenote items objs
def entriesDenote : List (Text × Tree) → LWMDictionary → Prop
  | [], dict => dict = []
  | _ :: _, [] => False
  | (k, v) :: entries, (key, value) :: dict =>
    key = some k ∧ v.Denotes value ∧ entriesDenote entries dict
end

/-- The dictionary has exactly the keys of the entries, each bound to the value
rendered for it. -/
def DictDenotes (entries : List (Text × Tree)) (dict : LWMDictionary) : Prop :=
  ∃ dict', dict'.Perm dict ∧ entriesDenote entries dict'

def MessageTree.Denotes (m : MessageTree) (msg : LWMessage) : Prop :=
  DictDenotes m.header msg.header ∧ DictDenotes (m.body.getD []) msg.body

mutual
/-- The object the parser builds from the rendering where it reads it right:
every list reversed. -/
def Tree.mirror : Tree → LWMObject
  | .text t => .string (some t)
  | .array items => .array (mirrorItems items [])
  | .dictionary entries => .dictionary (mirrorEntries entries [])
def mirrorItems : List Tree → List LWMObject → List LWMObject
  | [], acc => acc
  | v :: items, acc => mirrorItems items (v.mirror :: acc)
def mirrorEntries : List (Text × Tree) → LWMDictionary → LWMDictionary
  | [], acc => acc
  | (k, v) :: entries, acc => mirrorEntries entries ((some k, v.mirror) :: acc)
end

def Tree.isDictionary : Tree → Bool
  | .dictionary _ => true
  | _ => false

mutual
/-- Wherever a dictionary is the value of an entry, the entry is the last of
its dictionary. -/
def Tree.NestsLast : Tree → Prop
  | .text _ => True
  | .array items => itemsNestLast items
  | .dictionary entries => entriesNestLast entries
def itemsNestLast : List Tree → Prop
  | [] => True
  | v :: items => v.NestsLast ∧ itemsNestLast items
def entriesNestLast : List (Text × Tree) → Prop
  | [] => True
  | (_, v) :: entries =>
    v.NestsLast ∧ (v.isDictionary → entries = []) ∧ entriesNestLast entries
end

def MessageTree.NestsLast (m : MessageTree) : Prop :=
  entriesNestLast m.header ∧
    ∀ body ∈ m.body, entriesNestLast body ∧ (body = [] ∨ ∀ e ∈ m.header, ¬ e.2.isDictionary)

mutual
/-- How many closing braces a dictionary routine leaves unread behind a value:
one for every dictionary that ends with it. -/
def Tree.openBraces : Tree → Nat
  | .text _ => 0
  | .array _ => 0
  | .dictionary entries => entriesOpenBraces entries + 1
def entriesOpenBraces : List (Text × Tree) → Nat
  | [] => 0
  | [(_, v)] => v.openBraces
  | _ :: e :: entries => entriesOpenBraces (e :: entries)
end

end IoTware.LwMsg
