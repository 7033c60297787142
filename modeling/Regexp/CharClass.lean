import Regexp.RangeList.Basic

/-! Character classes: two lists of ranges, one of members and one of characters left out, and a flag
that says which of the two leads. -/
namespace Regexp

structure CharClass where
  included : RangeList
  excluded : RangeList
  negated : Bool
deriving DecidableEq, Repr

namespace CharClass

def empty : CharClass := ⟨[], [], false⟩

instance : EmptyCollection CharClass := ⟨empty⟩

def range (a b : Char) : CharClass := ⟨[.ofEnds a b], [], false⟩

def single (c : Char) : CharClass := range c c

/-- A class from lists in any order and with any overlaps. -/
def ofRanges (included excluded : RangeList) (negated : Bool) : CharClass :=
  ⟨included.normalize, excluded.normalize, negated⟩

/-- A negated class with no members listed holds everything that is not left out. -/
instance : Membership Char CharClass where
  mem k c :=
    if k.negated then ¬ k.excluded.Covers c ∧ (k.included.Covers c ∨ k.included = [])
    else k.included.Covers c ∧ ¬ k.excluded.Covers c

instance (c : Char) (k : CharClass) : Decidable (c ∈ k) :=
  inferInstanceAs (Decidable (ite _ _ _))

/-- Classes of one polarity are combined list by list. Otherwise the members of the left class stand
against the characters left out of the right one. -/
def union (a b : CharClass) : CharClass :=
  if a.negated = b.negated then
    ofRanges (a.included.union b.included) (a.excluded.union b.excluded) a.negated
  else
    ofRanges a.included b.excluded true

def inter (a b : CharClass) : CharClass :=
  if a.negated = b.negated then
    ofRanges (a.included.inter b.included) (a.excluded.inter b.excluded) a.negated
  else
    ofRanges a.included b.excluded false

def diff (a b : CharClass) : CharClass :=
  if a.negated = b.negated then
    ofRanges (a.included.diff b.included) (a.excluded.diff b.excluded) a.negated
  else
    ofRanges a.included b.excluded false

/-- The lists change places with the polarity. -/
def negate (a : CharClass) : CharClass := ⟨a.excluded, a.included, !a.negated⟩

def unionAll (classes : List CharClass) : CharClass := classes.foldl union ∅

def digit : CharClass := range '0' '9'

def word : CharClass := unionAll [range 'A' 'Z', range 'a' 'z', range '0' '9', single '-']

def whitespace : CharClass := unionAll ([' ', '\t', '\r', '\n', '\x0C'].map single)

/-- The class that a letter stands for after a backslash. The capital takes the complement. -/
def shorthand? (letter : Char) : Option CharClass :=
  match letter with
  | 'd' => some digit
  | 'D' => some digit.negate
  | 'w' => some word
  | 'W' => some word.negate
  | 's' => some whitespace
  | 'S' => some whitespace.negate
  | _ => none

/-- The class as a pattern. The polarity is not shown. -/
def text (k : CharClass) : List Char :=
  let outside := if k.excluded.isEmpty then [] else ['&', '&', '[', '^'] ++ k.excluded.text ++ [']']
  '[' :: k.included.text ++ outside ++ [']']

end CharClass

end Regexp
