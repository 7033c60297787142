import Regexp.Scalar

/-! Inclusive ranges of characters, and what is left of one when another is taken away. -/
namespace Regexp

structure CodeRange where
  lo : Char
  hi : Char
  lo_le_hi : lo ≤ hi
deriving DecidableEq, Repr

namespace CodeRange
open Scalar

/-- The range between two characters, which may come in either order. -/
def ofEnds (a b : Char) : CodeRange :=
  if h : a ≤ b then ⟨a, b, h⟩ else ⟨b, a, (Char.le_total a b).resolve_left h⟩

def singleton (c : Char) : CodeRange := ⟨c, c, Char.le_refl c⟩

instance : Membership Char CodeRange where
  mem r c := r.lo ≤ c ∧ c ≤ r.hi

instance (c : Char) (r : CodeRange) : Decidable (c ∈ r) :=
  inferInstanceAs (Decidable (r.lo ≤ c ∧ c ≤ r.hi))

def isSingle (r : CodeRange) : Bool := r.lo == r.hi

def Overlaps (r s : CodeRange) : Prop := r.lo ≤ s.hi ∧ s.lo ≤ r.hi

instance (r s : CodeRange) : Decidable (r.Overlaps s) :=
  inferInstanceAs (Decidable (_ ∧ _))

/-- One of the ranges ends right before the other begins. -/
def Adjoins (r s : CodeRange) : Prop := next? r.hi = some s.lo ∨ next? s.hi = some r.lo

instance (r s : CodeRange) : Decidable (r.Adjoins s) :=
  inferInstanceAs (Decidable (_ ∨ _))

/-- Together the two ranges leave no gap, so that one range covers both and nothing else. -/
def Joins (r s : CodeRange) : Prop := r.Overlaps s ∨ r.Adjoins s

instance (r s : CodeRange) : Decidable (r.Joins s) :=
  inferInstanceAs (Decidable (_ ∨ _))

def merge (r s : CodeRange) : CodeRange where
  lo := least r.lo s.lo
  hi := greatest r.hi s.hi
  lo_le_hi := Char.le_trans (least_le_left _ _) (Char.le_trans r.lo_le_hi (le_greatest_left _ _))

def inter? (r s : CodeRange) : Option CodeRange :=
  if h : greatest r.lo s.lo ≤ least r.hi s.hi then some ⟨_, _, h⟩ else none

def below? (r : CodeRange) (c : Char) : Option CodeRange :=
  match prev? c with
  | none => none
  | some d => if h : r.lo ≤ least r.hi d then some ⟨r.lo, least r.hi d, h⟩ else none

def above? (r : CodeRange) (c : Char) : Option CodeRange :=
  match next? c with
  | none => none
  | some d => if h : greatest r.lo d ≤ r.hi then some ⟨greatest r.lo d, r.hi, h⟩ else none

/-- What one range leaves of another: nothing, one range, or two with a gap between them. -/
inductive Remainder where
  | empty
  | one (r : CodeRange)
  | two (left right : CodeRange)
deriving DecidableEq, Repr

def Remainder.ofParts : Option CodeRange → Option CodeRange → Remainder
  | none, none => .empty
  | some r, none => .one r
  | none, some r => .one r
  | some l, some r => .two l r

def Remainder.toList : Remainder → List CodeRange
  | .empty => []
  | .one r => [r]
  | .two l r => [l, r]

def diff (r s : CodeRange) : Remainder :=
  .ofParts (r.below? s.lo) (r.above? s.hi)

def text (r : CodeRange) : List Char :=
  if r.isSingle then [r.lo] else [r.lo, '-', r.hi]

end CodeRange

end Regexp
