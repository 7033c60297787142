import Regexp.Proofs.CharClass.Built
import Regexp.Proofs.RangeList.Algebra

/-! Classes of one polarity as pairs of normal lists. The operators treat both lists alike, so the
algebra of the lists is the algebra of the classes. -/
namespace Regexp.CharClass
open RangeList

variable {a b c : CharClass} {negated : Bool} {l m : NormalList × NormalList}

def ofLists (negated : Bool) (l : NormalList × NormalList) : CharClass :=
  ⟨l.1.ranges, l.2.ranges, negated⟩

theorem Normal.exists_ofLists (h : a.Normal) (hnegated : a.negated = negated) :
    ∃ l, a = ofLists negated l := by
  subst hnegated
  exact ⟨(⟨a.included, h.included⟩, ⟨a.excluded, h.excluded⟩), rfl⟩

theorem ofRanges_ofLists (negated : Bool) (l : NormalList × NormalList) :
    ofRanges l.1.ranges l.2.ranges negated = ofLists negated l := by
  rw [ofRanges, normalize_of_normal l.1.normal, normalize_of_normal l.2.normal, ofLists]

theorem union_ofLists : (ofLists negated l).union (ofLists negated m) = ofLists negated (l ⊔ m) := by
  simpa [union, ofLists] using ofRanges_ofLists negated (l ⊔ m)

theorem inter_ofLists : (ofLists negated l).inter (ofLists negated m) = ofLists negated (l ⊓ m) := by
  simpa [inter, ofLists] using ofRanges_ofLists negated (l ⊓ m)

theorem diff_ofLists : (ofLists negated l).diff (ofLists negated m) = ofLists negated (l \ m) := by
  simpa [diff, ofLists] using ofRanges_ofLists negated (l \ m)

/-- The laws of sets as equations between classes, hence of the stored lists and of the flag. -/
structure SetLaws (a b c : CharClass) : Prop where
  union_comm : a.union b = b.union a
  union_assoc : (a.union b).union c = a.union (b.union c)
  union_self : a.union a = a
  inter_comm : a.inter b = b.inter a
  inter_assoc : (a.inter b).inter c = a.inter (b.inter c)
  inter_self : a.inter a = a
  union_inter_self : a.union (a.inter b) = a
  inter_union_self : a.inter (a.union b) = a
  inter_union_distrib : a.inter (b.union c) = (a.inter b).union (a.inter c)
  diff_diff : (a.diff b).diff c = a.diff (b.union c)

theorem setLaws_ofLists (negated : Bool) (l m n : NormalList × NormalList) :
    SetLaws (ofLists negated l) (ofLists negated m) (ofLists negated n) where
  union_comm := by rw [union_ofLists, union_ofLists, sup_comm]
  union_assoc := by simp only [union_ofLists, sup_assoc]
  union_self := by rw [union_ofLists, sup_idem]
  inter_comm := by rw [inter_ofLists, inter_ofLists, inf_comm]
  inter_assoc := by simp only [inter_ofLists, inf_assoc]
  inter_self := by rw [inter_ofLists, inf_idem]
  union_inter_self := by rw [inter_ofLists, union_ofLists, sup_inf_self]
  inter_union_self := by rw [union_ofLists, inter_ofLists, inf_sup_self]
  inter_union_distrib := by simp only [union_ofLists, inter_ofLists, inf_sup_left]
  diff_diff := by simp only [union_ofLists, diff_ofLists, sdiff_sdiff_left]

theorem setLaws_of_normal (ha : a.Normal) (hb : b.Normal) (hc : c.Normal)
    (hna : a.negated = negated) (hnb : b.negated = negated) (hnc : c.negated = negated) :
    SetLaws a b c := by
  obtain ⟨l, rfl⟩ := ha.exists_ofLists hna
  obtain ⟨m, rfl⟩ := hb.exists_ofLists hnb
  obtain ⟨n, rfl⟩ := hc.exists_ofLists hnc
  exact setLaws_ofLists negated l m n

/-- Complements that list members as well, with ranges that meet across the gap in the code points. -/
theorem setLaws_of_normal_two_lists :
    let a : CharClass := ⟨[.ofEnds 'a' 'm', .ofEnds 'x' '\uD7FF'], [.singleton 'e'], true⟩
    let b : CharClass := ⟨[.ofEnds '\uE000' '\uE0FF'], [.ofEnds 'b' 'k'], true⟩
    let c : CharClass := ⟨[.ofEnds 'h' 'y'], [], true⟩
    a.Normal ∧ b.Normal ∧ c.Normal ∧ a.negated = true ∧ b.negated = true ∧ c.negated = true ∧
      SetLaws a b c := by
  intro a b c
  have ha : a.Normal := ⟨by decide, by decide⟩
  have hb : b.Normal := ⟨by decide, by decide⟩
  have hc : c.Normal := ⟨by decide, by decide⟩
  exact ⟨ha, hb, hc, rfl, rfl, rfl, setLaws_of_normal ha hb hc rfl rfl rfl⟩

end Regexp.CharClass
