import Regexp.RangeList.Lemmas

/-! The operations in passes over whole lists, where each pass starts from what the one before has
left, until one finds nothing more to do. -/
namespace Regexp

namespace CodeRange
open Scalar

variable {r s : CodeRange} {c : Char}

def size (r : CodeRange) : Nat := index r.hi + 1 - index r.lo

theorem size_below?_le : ((r.below? c).map size).getD 0 ≤ index c - index r.lo := by
  unfold below?
  split
  · exact Nat.zero_le _
  · next d hd =>
    rw [prev?_eq_some] at hd
    split
    · simp only [Option.map_some, Option.getD_some, size, index_least]
      omega
    · exact Nat.zero_le _

theorem size_above?_le : ((r.above? c).map size).getD 0 ≤ index r.hi - index c := by
  unfold above?
  split
  · exact Nat.zero_le _
  · next d hd =>
    rw [next?_eq_some] at hd
    split
    · simp only [Option.map_some, Option.getD_some, size, index_greatest]
      omega
    · exact Nat.zero_le _

end CodeRange

namespace RangeList
open CodeRange Scalar

/-! ### Merging -/

def comesFirst (r s : CodeRange) : Bool := decide (r.lo < s.lo ∨ r.lo = s.lo ∧ r.hi ≤ s.hi)

/-- Holds a range against the next one, and what they merge into against the one after. -/
def mergeFrom (r : CodeRange) : RangeList → RangeList
  | [] => [r]
  | s :: l => if r.Joins s then mergeFrom (r.merge s) l else r :: mergeFrom s l

def mergeNeighbours : RangeList → RangeList
  | [] => []
  | r :: l => mergeFrom r l

def mergePass (l : RangeList) : RangeList := mergeNeighbours (l.mergeSort comesFirst)

/-- The last pass is the one that merges nothing, so that the list keeps its length. -/
def mergePasses (l : RangeList) : RangeList :=
  if l.mergePass.length < l.length then mergePasses l.mergePass else l.mergePass
termination_by l.length

/-! ### Taking away -/

def eraseFirst (b : RangeList) (r : CodeRange) : RangeList :=
  match b.find? fun s => decide (r.Overlaps s) with
  | some s => (r.diff s).toList
  | none => [r]

def erasePass (a b : RangeList) : RangeList := a.flatMap (eraseFirst b)

def Meets (a b : RangeList) : Prop := ∃ r ∈ a, ∃ s ∈ b, r.Overlaps s

instance (a b : RangeList) : Decidable (a.Meets b) :=
  inferInstanceAs (Decidable (∃ r ∈ a, ∃ s ∈ b, r.Overlaps s))

/-- The number of characters in the ranges, those counted twice that lie in two. -/
def width : RangeList → Nat
  | [] => 0
  | r :: l => r.size + width l

variable {a b : RangeList} {r s : CodeRange}

@[simp] theorem width_append : width (a ++ b) = width a + width b := by
  induction a with
  | nil => exact (Nat.zero_add _).symm
  | cons r a ih => rw [List.cons_append, width, ih, width, Nat.add_assoc]

theorem width_toList_ofParts (left right : Option CodeRange) :
    width (Remainder.ofParts left right).toList =
      (left.map size).getD 0 + (right.map size).getD 0 := by
  cases left <;> cases right <;> simp [Remainder.ofParts, Remainder.toList, width]

/-- Taking out a range that overlaps leaves fewer characters, however many parts they are in. -/
theorem width_diff_lt (h : r.Overlaps s) : width (r.diff s).toList < r.size := by
  have hr := r.index_lo_le_hi
  have hs := s.index_lo_le_hi
  have hbelow := size_below?_le (r := r) (c := s.lo)
  have habove := size_above?_le (r := r) (c := s.hi)
  rw [overlaps_iff_index] at h
  rw [CodeRange.diff, width_toList_ofParts, size]
  omega

theorem width_eraseFirst_lt (h : ∃ s ∈ b, r.Overlaps s) : width (eraseFirst b r) < r.size := by
  unfold eraseFirst
  split
  · next s hs =>
    have hoverlaps := List.find?_some hs
    exact width_diff_lt (of_decide_eq_true hoverlaps)
  · next hnone =>
    obtain ⟨s, hs, hoverlaps⟩ := h
    exact absurd (decide_eq_true hoverlaps) (List.find?_eq_none.1 hnone s hs)

theorem width_eraseFirst_le : width (eraseFirst b r) ≤ r.size := by
  by_cases h : ∃ s ∈ b, r.Overlaps s
  · exact Nat.le_of_lt (width_eraseFirst_lt h)
  · have hnone : (b.find? fun s => decide (r.Overlaps s)) = none := by
      simpa using h
    rw [eraseFirst, hnone]
    exact Nat.le_refl _

theorem width_erasePass_le : (a.erasePass b).width ≤ a.width := by
  induction a with
  | nil => exact Nat.le_refl _
  | cons r a ih =>
    rw [erasePass, List.flatMap_cons, width_append, width]
    exact Nat.add_le_add width_eraseFirst_le ih

/-- Splitting a range makes the list longer, but every pass that finds an overlap leaves fewer
characters. -/
theorem width_erasePass_lt (h : a.Meets b) : (a.erasePass b).width < a.width := by
  induction a with
  | nil => simp [Meets] at h
  | cons r a ih =>
    rw [erasePass, List.flatMap_cons, width_append, width]
    obtain ⟨t, ht, hoverlaps⟩ := h
    rcases List.mem_cons.1 ht with rfl | ht
    · exact Nat.add_lt_add_of_lt_of_le (width_eraseFirst_lt hoverlaps) width_erasePass_le
    · exact Nat.add_lt_add_of_le_of_lt width_eraseFirst_le (ih ⟨t, ht, hoverlaps⟩)

/-- Passes until no range is left that overlaps one of those to take away. -/
def erasePasses (a b : RangeList) : RangeList :=
  if a.Meets b then erasePasses (a.erasePass b) b else a
termination_by a.width
decreasing_by exact width_erasePass_lt ‹_›

end RangeList

end Regexp
