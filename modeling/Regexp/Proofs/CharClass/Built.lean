import Regexp.CharClass
import Regexp.Proofs.RangeList.NormalForm

/-! Classes as they can be built. However the operators are put together, and whichever polarities they
meet, both lists of the class are in normal form. -/
namespace Regexp.CharClass
open RangeList

structure Normal (k : CharClass) : Prop where
  included : k.included.Normal
  excluded : k.excluded.Normal

/-- The classes that the constructors and operators build from each other. -/
inductive Built : CharClass → Prop where
  | empty : Built ∅
  | single (c : Char) : Built (single c)
  | range (a b : Char) : Built (range a b)
  | ofRanges (included excluded : RangeList) (negated : Bool) :
      Built (ofRanges included excluded negated)
  | digit : Built digit
  | word : Built word
  | whitespace : Built whitespace
  | shorthand {letter : Char} {k : CharClass} (h : shorthand? letter = some k) : Built k
  | union {a b : CharClass} (ha : Built a) (hb : Built b) : Built (a.union b)
  | inter {a b : CharClass} (ha : Built a) (hb : Built b) : Built (a.inter b)
  | diff {a b : CharClass} (ha : Built a) (hb : Built b) : Built (a.diff b)
  | negate {a : CharClass} (ha : Built a) : Built a.negate
  | unionAll {classes : List CharClass} (h : ∀ a ∈ classes, Built a) : Built (unionAll classes)

variable {a k : CharClass} {letter : Char}

theorem normal_empty : Normal ∅ := ⟨normal_nil, normal_nil⟩

/-- One range alone is a normal list, so none has to be normalized here. -/
theorem normal_range (a b : Char) : (range a b).Normal := ⟨List.pairwise_singleton _ _, normal_nil⟩

theorem normal_ofRanges (included excluded : RangeList) (negated : Bool) :
    (ofRanges included excluded negated).Normal :=
  ⟨normal_normalize, normal_normalize⟩

theorem Normal.negate (ha : a.Normal) : a.negate.Normal := ⟨ha.excluded, ha.included⟩

/-! The binary operators build new lists for every pair of polarities. -/

theorem normal_union (a b : CharClass) : (a.union b).Normal := by
  unfold union
  split <;> exact normal_ofRanges _ _ _

theorem normal_inter (a b : CharClass) : (a.inter b).Normal := by
  unfold inter
  split <;> exact normal_ofRanges _ _ _

theorem normal_diff (a b : CharClass) : (a.diff b).Normal := by
  unfold diff
  split <;> exact normal_ofRanges _ _ _

theorem normal_unionAll (classes : List CharClass) : (unionAll classes).Normal := by
  rcases List.eq_nil_or_concat classes with rfl | ⟨front, last, rfl⟩
  · exact normal_empty
  · rw [unionAll, List.concat_eq_append, List.foldl_append]
    exact normal_union _ last

theorem normal_shorthand (h : shorthand? letter = some k) : k.Normal := by
  have hdigit : digit.Normal := normal_range '0' '9'
  have hword : word.Normal := normal_unionAll _
  have hwhitespace : whitespace.Normal := normal_unionAll _
  unfold shorthand? at h
  split at h <;> cases h
  · exact hdigit
  · exact hdigit.negate
  · exact hword
  · exact hword.negate
  · exact hwhitespace
  · exact hwhitespace.negate

theorem Built.normal (h : Built k) : k.Normal := by
  induction h with
  | empty => exact normal_empty
  | single c => exact normal_range c c
  | range a b => exact normal_range a b
  | ofRanges i e n => exact normal_ofRanges i e n
  | digit => exact normal_range '0' '9'
  | word => exact normal_unionAll _
  | whitespace => exact normal_unionAll _
  | shorthand h => exact normal_shorthand h
  | @union a b => exact normal_union a b
  | @inter a b => exact normal_inter a b
  | @diff a b => exact normal_diff a b
  | negate _ ih => exact ih.negate
  | @unionAll classes => exact normal_unionAll classes

end Regexp.CharClass
