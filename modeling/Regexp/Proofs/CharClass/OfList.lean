import Regexp.CharClass
import Regexp.Proofs.RangeList.NormalForm

/-! Classes that one list of members makes up. The operators on them are the operators on lists. -/
namespace Regexp
open RangeList

namespace RangeList
variable {l m : RangeList} {c : Char}

theorem covers_foldl_union :
    (l.foldl (fun m r => m.union [r]) m).Covers c ↔ m.Covers c ∨ l.Covers c := by
  induction l generalizing m with
  | nil => simp
  | cons r l ih =>
    rw [List.foldl_cons, ih, covers_union, covers_cons, covers_cons, or_assoc]
    simp

theorem normal_foldl_union (h : m.Normal) : (l.foldl (fun m r => m.union [r]) m).Normal := by
  induction l generalizing m with
  | nil => exact h
  | cons r l ih => exact ih normal_union

/-- A normal list is put together again from its ranges. -/
theorem Normal.foldl_union (h : l.Normal) :
    l.foldl (fun (m : RangeList) r => m.union [r]) [] = l := by
  apply (normal_foldl_union normal_nil).eq_of_covers h
  intro c
  rw [covers_foldl_union]
  simp

end RangeList

namespace CharClass
variable {a b l : RangeList} {c : Char}

def ofList (l : RangeList) : CharClass := ⟨l, [], false⟩

@[simp] theorem mem_ofList : c ∈ ofList l ↔ l.Covers c := by
  simp [Membership.mem, ofList]

theorem empty_eq_ofList : (∅ : CharClass) = ofList [] := rfl

theorem range_eq_ofList (r : CodeRange) : range r.lo r.hi = ofList [r] := by
  simp [range, ofList, CodeRange.ofEnds, r.lo_le_hi]

theorem single_eq_ofList (c : Char) : single c = ofList [.singleton c] := by
  simp [single, range, ofList, CodeRange.ofEnds, CodeRange.singleton]

@[simp] theorem mem_single {d : Char} : d ∈ single c ↔ d = c := by
  simp [single_eq_ofList]

@[simp] theorem union_ofList : (ofList a).union (ofList b) = ofList (a.union b) := by
  have hnil : RangeList.union [] [] = [] := rfl
  simp [union, ofRanges, ofList, normalize_of_normal, hnil, normal_nil]

@[simp] theorem inter_ofList : (ofList a).inter (ofList b) = ofList (a.inter b) := by
  simp [inter, ofRanges, ofList, RangeList.inter, normalize_of_normal, normal_nil]

@[simp] theorem diff_ofList : (ofList a).diff (ofList b) = ofList (a.diff b) := by
  simp [diff, ofRanges, ofList, RangeList.diff, normalize_of_normal, normal_nil]

theorem empty_union_ofList (h : l.Normal) : (∅ : CharClass).union (ofList l) = ofList l := by
  rw [empty_eq_ofList, union_ofList]
  simp [RangeList.union, normalize_of_normal h]

theorem empty_union_negate_ofList (h : l.Normal) :
    (∅ : CharClass).union (ofList l).negate = (ofList l).negate := by
  simp [empty_eq_ofList, union, ofRanges, ofList, negate, normalize_of_normal, h, normal_nil]

/-- A class with two lists is the intersection of one list with the complement of the other. -/
theorem inter_negate_ofList (ha : a.Normal) (hb : b.Normal) :
    (ofList a).inter (ofList b).negate = ⟨a, b, false⟩ := by
  simp [inter, ofRanges, ofList, negate, normalize_of_normal, ha, hb]

end CharClass

end Regexp
