import Regexp.Proofs.CharClass.OfList

/-! Complements of classes with one list. The operators combine the lists of what is left out, where the
complement of a union is an intersection, and so each of them makes the dual of what its name says. -/
namespace Regexp.CharClass
open RangeList

variable {p q : RangeList} {c : Char}

@[simp] theorem mem_negate_ofList : c ∈ (ofList p).negate ↔ ¬ p.Covers c := by
  simp [Membership.mem, negate, ofList]

@[simp] theorem negate_ofList_union :
    (ofList p).negate.union (ofList q).negate = (ofList (p.union q)).negate := by
  have hnil : RangeList.union [] [] = [] := rfl
  simp [union, ofRanges, ofList, negate, normalize_of_normal, hnil, normal_nil]

@[simp] theorem negate_ofList_inter :
    (ofList p).negate.inter (ofList q).negate = (ofList (p.inter q)).negate := by
  simp [inter, ofRanges, ofList, negate, RangeList.inter, normalize_of_normal, normal_nil]

@[simp] theorem negate_ofList_diff :
    (ofList p).negate.diff (ofList q).negate = (ofList (p.diff q)).negate := by
  simp [diff, ofRanges, ofList, negate, RangeList.diff, normalize_of_normal, normal_nil]

/-- The union has what both complements have, the intersection what one of them has, and the difference
whatever is in the first or not in the second. The laws of sets hold for a character that both lists
cover or neither, that of the difference for one that is in a single list. -/
theorem mem_operators_on_complements (p q : RangeList) (c : Char) :
    let a := (ofList p).negate
    let b := (ofList q).negate
    ((c ∈ a.union b ↔ c ∈ a ∧ c ∈ b) ∧ (c ∈ a.inter b ↔ c ∈ a ∨ c ∈ b) ∧
      (c ∈ a.diff b ↔ c ∈ a ∨ c ∉ b)) ∧
    ((c ∈ a.union b ↔ c ∈ a ∨ c ∈ b) ↔ (p.Covers c ↔ q.Covers c)) ∧
    ((c ∈ a.inter b ↔ c ∈ a ∧ c ∈ b) ↔ (p.Covers c ↔ q.Covers c)) ∧
    ((c ∈ a.diff b ↔ c ∈ a ∧ c ∉ b) ↔ (p.Covers c ↔ ¬ q.Covers c)) := by
  intro a b
  have hunion : c ∈ a.union b ↔ c ∈ a ∧ c ∈ b := by simp [a, b]
  have hinter : c ∈ a.inter b ↔ c ∈ a ∨ c ∈ b := by simp [a, b, Decidable.imp_iff_not_or]
  have hdiff : c ∈ a.diff b ↔ c ∈ a ∨ c ∉ b := by simp [a, b, Decidable.imp_iff_not_or]
  refine ⟨⟨hunion, hinter, hdiff⟩, ?_⟩
  rw [hunion, hinter, hdiff, mem_negate_ofList, mem_negate_ofList]
  by_cases hp : p.Covers c <;> by_cases hq : q.Covers c <;> simp [hp, hq]

/-- The complements of two letters. -/
theorem laws_fail_on_complements :
    let a := (single 'a').negate
    let b := (single 'b').negate
    ¬ ('a' ∈ a.union b ↔ 'a' ∈ a ∨ 'a' ∈ b) ∧ ¬ ('a' ∈ a.inter b ↔ 'a' ∈ a ∧ 'a' ∈ b) ∧
      ¬ ('c' ∈ a.diff b ↔ 'c' ∈ a ∧ 'c' ∉ b) := by
  decide

end Regexp.CharClass
