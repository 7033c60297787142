import Mathlib.Logic.Basic
import Regexp.Proofs.CharClass.Built
import Regexp.Proofs.CharClass.Polarity

/-! When trading the lists of a class makes its complement. That is a question about every character,
and for normal lists about the lists alone. -/
namespace Regexp

namespace RangeList
open CodeRange Scalar

variable {l m : RangeList}

def all : RangeList := [⟨'\x00', .ofNat 0x10FFFF, by decide⟩]

theorem covers_all (c : Char) : all.Covers c := by
  have hcount := index_lt_count c
  have hfirst : index '\x00' = 0 := by decide
  have hlast : index (.ofNat 0x10FFFF) + 1 = count := by decide
  refine covers_cons.2 (.inl (mem_iff_index.2 ⟨?_, ?_⟩))
  · change index '\x00' ≤ index c
    omega
  · change index c ≤ index (.ofNat 0x10FFFF)
    omega

theorem forall_covers_iff_not (hl : l.Normal) : (∀ c, l.Covers c ↔ ¬ m.Covers c) ↔ l = all.diff m := by
  constructor
  · intro h
    have hdiff : (all.diff m).Normal := normal_normalize
    apply hl.eq_of_covers hdiff
    intro c
    rw [h, covers_diff, and_iff_right (covers_all c)]
  · rintro rfl c
    rw [covers_diff, and_iff_right (covers_all c)]

end RangeList

namespace CharClass
open RangeList

variable {a : CharClass}

theorem negate_negate (a : CharClass) : a.negate.negate = a := by
  rw [negate, negate, Bool.not_not]

/-- Whether a second list exists does not depend on the character, so with one every character has to lie
in a single list. -/
theorem forall_mem_negate_iff (a : CharClass) :
    (∀ c, c ∈ a.negate ↔ c ∉ a) ↔
      a.secondary = [] ∨ ∀ c, a.included.Covers c ↔ ¬ a.excluded.Covers c := by
  simp only [mem_negate_iff_not_mem_iff, forall_or_left]

theorem forall_mem_negate_iff_eq_diff (ha : a.Normal) :
    (∀ c, c ∈ a.negate ↔ c ∉ a) ↔ a.secondary = [] ∨ a.included = all.diff a.excluded := by
  rw [forall_mem_negate_iff, forall_covers_iff_not ha.included]

example :
    let a : CharClass := ⟨[.ofEnds '\x00' 'm'], [.ofEnds 'n' (.ofNat 0x10FFFF)], true⟩
    a.secondary ≠ [] ∧ a.included = all.diff a.excluded := by
  decide

/-- Traded twice the lists are back in their places. Traded once they make the complement if there is no
second list or the two lists divide all characters between them, and of no other class. -/
theorem negate_complement_iff (a : CharClass) :
    a.negate.negate = a ∧
      ((∀ c, c ∈ a.negate ↔ c ∉ a) ↔
        a.secondary = [] ∨ ∀ c, a.included.Covers c ↔ ¬ a.excluded.Covers c) :=
  ⟨negate_negate a, forall_mem_negate_iff a⟩

end CharClass

end Regexp
