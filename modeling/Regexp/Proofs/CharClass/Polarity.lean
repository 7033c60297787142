import Regexp.CharClass
import Regexp.RangeList.Lemmas

/-! Members of classes with two lists, and how they fare under a change of polarity. -/
namespace Regexp.CharClass
open RangeList

variable {i e : RangeList} {k : CharClass} {c : Char}

@[simp] theorem mem_mk_false : c ∈ mk i e false ↔ i.Covers c ∧ ¬ e.Covers c := by
  simp [Membership.mem]

@[simp] theorem mem_mk_true :
    c ∈ mk i e true ↔ ¬ e.Covers c ∧ (i.Covers c ∨ i = []) := by
  simp [Membership.mem]

/-- The list that does not lead. -/
def secondary (k : CharClass) : RangeList := if k.negated then k.included else k.excluded

theorem mem_negate_iff_not_mem_iff :
    (c ∈ k.negate ↔ c ∉ k) ↔
      k.secondary = [] ∨ (k.included.Covers c ↔ ¬ k.excluded.Covers c) := by
  obtain ⟨i, e, negated⟩ := k
  cases negated with
  | false =>
    by_cases hnil : e = []
    · simp [negate, secondary, hnil]
    · by_cases hi : i.Covers c <;> by_cases he : e.Covers c <;>
        simp [negate, secondary, hnil, hi, he]
  | true =>
    by_cases hnil : i = []
    · simp [negate, secondary, hnil]
    · by_cases hi : i.Covers c <;> by_cases he : e.Covers c <;>
        simp [negate, secondary, hnil, hi, he]

theorem mem_empty_union_iff :
    c ∈ (∅ : CharClass).union k ↔
      c ∈ k ∨ k.negated = true ∧ k.included ≠ [] ∧
        ¬ k.included.Covers c ∧ ¬ k.excluded.Covers c := by
  obtain ⟨i, e, negated⟩ := k
  cases negated with
  | false =>
    change c ∈ mk (RangeList.union [] i).normalize (RangeList.union [] e).normalize false ↔ _
    simp
  | true =>
    change c ∈ mk (normalize []) e.normalize true ↔ _
    have hempty : normalize [] = [] := rfl
    by_cases hnil : i = []
    · simp [hempty, hnil]
    · by_cases hi : i.Covers c <;> simp [hempty, hnil, hi]

end Regexp.CharClass
