import Mathlib.Order.BooleanAlgebra.Set
import Regexp.Proofs.RangeList.NormalForm

/-! Normal lists as an algebra of sets. There is one list for each set of characters that ranges can
cover, so every law of union, intersection and difference is an equation between lists. -/
namespace Regexp

@[ext] structure NormalList where
  ranges : RangeList
  normal : ranges.Normal

namespace NormalList
open RangeList

variable {a b : NormalList}

def covered (a : NormalList) : Set Char := {c | a.ranges.Covers c}

theorem covered_injective : Function.Injective covered := by
  intro a b h
  apply NormalList.ext
  exact a.normal.eq_of_covers b.normal fun c => Set.ext_iff.1 h c

instance : Bot NormalList := ⟨⟨[], normal_nil⟩⟩

instance : Max NormalList := ⟨fun a b => ⟨a.ranges.union b.ranges, normal_union⟩⟩

instance : Min NormalList := ⟨fun a b => ⟨a.ranges.inter b.ranges, normal_normalize⟩⟩

instance : SDiff NormalList := ⟨fun a b => ⟨a.ranges.diff b.ranges, normal_normalize⟩⟩

instance : LE NormalList := ⟨fun a b => a.covered ⊆ b.covered⟩

instance : LT NormalList := ⟨fun a b => a ≤ b ∧ ¬ b ≤ a⟩

@[simp] theorem ranges_sup : (a ⊔ b).ranges = a.ranges.union b.ranges := rfl

@[simp] theorem ranges_inf : (a ⊓ b).ranges = a.ranges.inter b.ranges := rfl

@[simp] theorem ranges_sdiff : (a \ b).ranges = a.ranges.diff b.ranges := rfl

theorem covered_bot : covered ⊥ = ∅ := Set.ext fun _ => iff_of_false covers_nil id

theorem covered_sup (a b : NormalList) : (a ⊔ b).covered = a.covered ∪ b.covered :=
  Set.ext fun _ => covers_union

theorem covered_inf (a b : NormalList) : (a ⊓ b).covered = a.covered ∩ b.covered :=
  Set.ext fun _ => covers_inter

theorem covered_sdiff (a b : NormalList) : (a \ b).covered = a.covered \ b.covered :=
  Set.ext fun _ => covers_diff

/-- The laws hold of the covered sets, and these determine the lists. -/
instance : GeneralizedBooleanAlgebra NormalList :=
  covered_injective.generalizedBooleanAlgebra covered Iff.rfl lt_iff_le_not_ge covered_sup
    covered_inf covered_bot covered_sdiff

end NormalList

end Regexp
