import Regexp.CodeRange.Basic

/-! Sets of characters as lists of ranges. In the normal form the ranges are in
order with a gap between any two, so each set has exactly one. -/
namespace Regexp

abbrev RangeList := List CodeRange

namespace RangeList

def Covers (l : RangeList) (c : Char) : Prop := ∃ r ∈ l, c ∈ r

instance (l : RangeList) (c : Char) : Decidable (l.Covers c) :=
  inferInstanceAs (Decidable (∃ r ∈ l, c ∈ r))

def Normal (l : RangeList) : Prop :=
  l.Pairwise fun r s => r.lo ≤ s.lo ∧ ¬ r.Joins s

instance (l : RangeList) : Decidable l.Normal :=
  inferInstanceAs (Decidable (List.Pairwise _ l))

/-- The normal form as a check of neighbours only. -/
def isNormal : RangeList → Bool
  | r :: s :: l => decide (r.lo ≤ s.lo ∧ ¬ r.Joins s) && isNormal (s :: l)
  | _ => true

/-- Adds a range to a normal list. A range that joins the new one is absorbed, and the larger
range goes on, since it may now reach the next. -/
def insert (r : CodeRange) : RangeList → RangeList
  | [] => [r]
  | s :: l =>
    if r.Joins s then insert (r.merge s) l
    else if r.hi < s.lo then r :: s :: l
    else s :: insert r l

def normalize (l : RangeList) : RangeList := l.foldr insert []

def union (a b : RangeList) : RangeList := normalize (a ++ b)

def inter (a b : RangeList) : RangeList :=
  normalize (a.flatMap fun r => b.filterMap r.inter?)

def erase (l : RangeList) (s : CodeRange) : RangeList := l.flatMap fun r => (r.diff s).toList

def diff (a b : RangeList) : RangeList := normalize (b.foldl erase a)

def text (l : RangeList) : List Char := l.flatMap CodeRange.text

end RangeList

end Regexp
