import Regexp.CodeRange.Basic

/-! Ranges by their members. All comparisons are taken to places on the line of characters, where
neighbours differ by one. -/
namespace Regexp.CodeRange
open Scalar

theorem index_lo_le_hi (r : CodeRange) : index r.lo ≤ index r.hi := index_le_index.2 r.lo_le_hi

theorem mem_iff_index {c : Char} {r : CodeRange} :
    c ∈ r ↔ index r.lo ≤ index c ∧ index c ≤ index r.hi := by
  rw [index_le_index, index_le_index]
  exact Iff.rfl

theorem overlaps_iff_index {r s : CodeRange} :
    r.Overlaps s ↔ index r.lo ≤ index s.hi ∧ index s.lo ≤ index r.hi := by
  rw [index_le_index, index_le_index]
  exact Iff.rfl

theorem adjoins_iff_index {r s : CodeRange} :
    r.Adjoins s ↔ index s.lo = index r.hi + 1 ∨ index r.lo = index s.hi + 1 := by
  rw [← next?_eq_some, ← next?_eq_some]
  exact Iff.rfl

theorem joins_iff_index {r s : CodeRange} :
    r.Joins s ↔ index r.lo ≤ index s.hi + 1 ∧ index s.lo ≤ index r.hi + 1 := by
  have hr := r.index_lo_le_hi
  have hs := s.index_lo_le_hi
  rw [Joins, overlaps_iff_index, adjoins_iff_index]
  omega

theorem index_lo_merge (r s : CodeRange) :
    index (r.merge s).lo = min (index r.lo) (index s.lo) :=
  index_least r.lo s.lo

theorem index_hi_merge (r s : CodeRange) :
    index (r.merge s).hi = max (index r.hi) (index s.hi) :=
  index_greatest r.hi s.hi

@[simp] theorem mem_ofEnds {a b c : Char} :
    c ∈ ofEnds a b ↔ a ≤ c ∧ c ≤ b ∨ b ≤ c ∧ c ≤ a := by
  unfold ofEnds
  simp only [← index_le_index]
  split <;> simp only [mem_iff_index] <;> omega

@[simp] theorem mem_singleton {a c : Char} : c ∈ singleton a ↔ c = a := by
  rw [mem_iff_index]
  constructor
  · intro h
    exact index_inj (Nat.le_antisymm h.2 h.1)
  · rintro rfl
    exact ⟨Nat.le_refl _, Nat.le_refl _⟩

theorem mem_merge_of_joins {r s : CodeRange} (h : r.Joins s) {c : Char} :
    c ∈ r.merge s ↔ c ∈ r ∨ c ∈ s := by
  rw [joins_iff_index] at h
  simp only [mem_iff_index, index_lo_merge, index_hi_merge]
  omega

theorem mem_inter? {r s : CodeRange} {c : Char} :
    (∃ t ∈ r.inter? s, c ∈ t) ↔ c ∈ r ∧ c ∈ s := by
  unfold inter?
  split
  · next h =>
    simp only [Option.mem_def, Option.some.injEq, exists_eq_left', mem_iff_index, index_least,
      index_greatest]
    omega
  · next h =>
    simp only [← index_le_index, index_least, index_greatest] at h
    simp only [Option.mem_def, reduceCtorEq, false_and, exists_false, mem_iff_index, false_iff]
    omega

theorem mem_below? {r : CodeRange} {b c : Char} :
    (∃ t ∈ r.below? b, c ∈ t) ↔ c ∈ r ∧ c < b := by
  simp only [← index_lt_index, mem_iff_index]
  unfold below?
  split
  · next h =>
    rw [prev?_eq_none] at h
    simp [h]
  · next d h =>
    rw [prev?_eq_some] at h
    split
    · simp only [Option.mem_def, Option.some.injEq, exists_eq_left', index_least]
      omega
    · next hl =>
      simp only [← index_le_index, index_least] at hl
      simp only [Option.mem_def, reduceCtorEq, false_and, exists_false, false_iff]
      omega

theorem mem_above? {r : CodeRange} {b c : Char} :
    (∃ t ∈ r.above? b, c ∈ t) ↔ c ∈ r ∧ b < c := by
  simp only [← index_lt_index, mem_iff_index]
  unfold above?
  split
  · next h =>
    have hc : ¬ index b < index c := by
      intro hlt
      exact next?_ne_none hlt h
    simp [hc]
  · next d h =>
    rw [next?_eq_some] at h
    split
    · simp only [Option.mem_def, Option.some.injEq, exists_eq_left', index_greatest]
      omega
    · next hl =>
      simp only [← index_le_index, index_greatest] at hl
      simp only [Option.mem_def, reduceCtorEq, false_and, exists_false, false_iff]
      omega

theorem mem_toList_ofParts {a b : Option CodeRange} {r : CodeRange} :
    r ∈ (Remainder.ofParts a b).toList ↔ r ∈ a ∨ r ∈ b := by
  cases a <;> cases b <;> simp [Remainder.ofParts, Remainder.toList, eq_comm]

theorem mem_diff {r s : CodeRange} {c : Char} :
    (∃ t ∈ (r.diff s).toList, c ∈ t) ↔ c ∈ r ∧ c ∉ s := by
  simp only [diff, mem_toList_ofParts, or_and_right, exists_or, mem_below?, mem_above?]
  simp only [← index_lt_index, mem_iff_index]
  have hs := s.index_lo_le_hi
  omega

end Regexp.CodeRange
