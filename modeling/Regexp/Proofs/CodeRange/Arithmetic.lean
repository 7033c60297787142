import Regexp.Proofs.RangeList.NormalForm

/-! When two ranges merge into one, and what one leaves of another. The parts end at neighbours of the
ends that are taken away, and those exist wherever a part is left. -/
namespace Regexp.CodeRange
open Scalar

variable {r s left right : CodeRange} {b c : Char}

/-! ### Merging -/

/-- Between ranges that do not join lies a character of neither, which the merged range takes in. -/
theorem forall_mem_merge_iff : (∀ c, c ∈ r.merge s ↔ c ∈ r ∨ c ∈ s) ↔ r.Joins s := by
  constructor
  · intro h
    have hr := r.index_lo_le_hi
    have hs := s.index_lo_le_hi
    by_cases hjoins : r.Joins s
    · exact hjoins
    rw [joins_iff_index] at hjoins
    have hrlo := index_lt_count r.lo
    have hslo := index_lt_count s.lo
    obtain ⟨c, hc⟩ := exists_index (i := min (index r.hi) (index s.hi) + 1) (by omega)
    have hmem := h c
    simp only [mem_iff_index, index_lo_merge, index_hi_merge, hc] at hmem
    omega
  · intro h c
    exact mem_merge_of_joins h

/-! ### The parts before and after -/

theorem below?_eq_none_iff : r.below? b = none ↔ b ≤ r.lo := by
  constructor
  · intro h
    have hlo := mem_below? (r := r) (b := b) (c := r.lo)
    have hmem : r.lo ∈ r := ⟨Char.le_refl _, r.lo_le_hi⟩
    simpa [h, hmem] using hlo
  · intro h
    rw [Option.eq_none_iff_forall_not_mem]
    intro t ht
    obtain ⟨hmem, hlt⟩ := mem_below?.1 ⟨t, ht, Char.le_refl _, t.lo_le_hi⟩
    exact Char.not_le.2 hlt (Char.le_trans h hmem.1)

theorem above?_eq_none_iff : r.above? b = none ↔ r.hi ≤ b := by
  constructor
  · intro h
    have hhi := mem_above? (r := r) (b := b) (c := r.hi)
    have hmem : r.hi ∈ r := ⟨r.lo_le_hi, Char.le_refl _⟩
    simpa [h, hmem] using hhi
  · intro h
    rw [Option.eq_none_iff_forall_not_mem]
    intro t ht
    obtain ⟨hmem, hlt⟩ := mem_above?.1 ⟨t, ht, t.lo_le_hi, Char.le_refl _⟩
    exact Char.not_le.2 hlt (Char.le_trans hmem.2 h)

theorem diff_eq_empty_iff : r.diff s = .empty ↔ ∀ c ∈ r, c ∈ s := by
  have hparts : r.diff s = .empty ↔ r.below? s.lo = none ∧ r.above? s.hi = none := by
    unfold diff
    cases r.below? s.lo <;> cases r.above? s.hi <;> simp [Remainder.ofParts]
  rw [hparts, below?_eq_none_iff, above?_eq_none_iff]
  constructor
  · rintro ⟨hlo, hhi⟩ c hc
    exact ⟨Char.le_trans hlo hc.1, Char.le_trans hc.2 hhi⟩
  · intro h
    exact ⟨(h r.lo ⟨Char.le_refl _, r.lo_le_hi⟩).1, (h r.hi ⟨r.lo_le_hi, Char.le_refl _⟩).2⟩

theorem diff_eq_two_iff :
    r.diff s = .two left right ↔ r.below? s.lo = some left ∧ r.above? s.hi = some right := by
  unfold diff
  cases r.below? s.lo <;> cases r.above? s.hi <;> simp [Remainder.ofParts]

theorem exists_diff_eq_two_iff :
    (∃ left right, r.diff s = .two left right) ↔ r.lo < s.lo ∧ s.hi < r.hi := by
  simp only [diff_eq_two_iff, exists_and_left, exists_and_right]
  rw [← Option.ne_none_iff_exists', ← Option.ne_none_iff_exists', Ne, Ne, below?_eq_none_iff,
    above?_eq_none_iff, Char.not_le, Char.not_le]

/-- All of `s` lies between the two parts. -/
theorem gap_of_diff_eq_two (h : r.diff s = .two left right) :
    index left.hi + 1 < index right.lo := by
  obtain ⟨hleft, hright⟩ := diff_eq_two_iff.1 h
  have hlt := (mem_below?.1 ⟨left, hleft, left.lo_le_hi, Char.le_refl _⟩).2
  have hgt := (mem_above?.1 ⟨right, hright, Char.le_refl _, right.lo_le_hi⟩).2
  rw [← index_lt_index] at hlt hgt
  have hs := s.index_lo_le_hi
  omega

/-! ### The ends of the parts -/

def ends (r : CodeRange) : Char × Char := (r.lo, r.hi)

/-- The ends of what remains, where a part is kept only if there is a neighbour to end it at. -/
def remainderEnds (r s : CodeRange) : List (Char × Char) :=
  if r.Overlaps s then
    let left := if r.lo < s.lo then (prev? s.lo).map fun c => (r.lo, c) else none
    let right := if s.hi < r.hi then (next? s.hi).map fun c => (c, r.hi) else none
    left.toList ++ right.toList
  else [r.ends]

theorem map_ends_below? (h : b ≤ r.hi) :
    (r.below? b).map ends = if r.lo < b then (prev? b).map fun c => (r.lo, c) else none := by
  split
  · next hlt =>
    unfold below?
    cases hprev : prev? b with
    | none => rfl
    | some c =>
      rw [prev?_eq_some] at hprev
      rw [← index_le_index] at h
      rw [← index_lt_index] at hlt
      have hend : least r.hi c = c := if_neg (by rw [← index_le_index]; omega)
      have hle : r.lo ≤ c := index_le_index.1 (by omega)
      simp [hend, hle, ends]
  · next hle => rw [below?_eq_none_iff.2 (Char.not_lt.1 hle), Option.map_none]

theorem map_ends_above? (h : r.lo ≤ b) :
    (r.above? b).map ends = if b < r.hi then (next? b).map fun c => (c, r.hi) else none := by
  split
  · next hlt =>
    unfold above?
    cases hnext : next? b with
    | none => rfl
    | some c =>
      rw [next?_eq_some] at hnext
      rw [← index_le_index] at h
      rw [← index_lt_index] at hlt
      have hend : greatest r.lo c = c := if_pos (index_le_index.1 (by omega))
      have hle : c ≤ r.hi := index_le_index.1 (by omega)
      simp [hend, hle, ends]
  · next hle => rw [above?_eq_none_iff.2 (Char.not_lt.1 hle), Option.map_none]

theorem below?_eq_self (h : r.hi < b) : r.below? b = some r := by
  rw [← index_lt_index] at h
  unfold below?
  cases hprev : prev? b with
  | none =>
    rw [prev?_eq_none] at hprev
    omega
  | some c =>
    rw [prev?_eq_some] at hprev
    have hend : least r.hi c = r.hi := if_pos (index_le_index.1 (by omega))
    simp [hend, r.lo_le_hi]

theorem above?_eq_self (h : b < r.lo) : r.above? b = some r := by
  rw [← index_lt_index] at h
  unfold above?
  cases hnext : next? b with
  | none => exact absurd hnext (next?_ne_none h)
  | some c =>
    rw [next?_eq_some] at hnext
    have hend : greatest r.lo c = r.lo := by
      apply index_inj
      rw [index_greatest]
      omega
    simp [hend, r.lo_le_hi]

theorem diff_of_not_overlaps (h : ¬ r.Overlaps s) : r.diff s = .one r := by
  rcases Decidable.not_and_iff_not_or_not.1 h with hbehind | hbefore
  · have hle : s.hi ≤ r.lo := (Char.le_total _ _).resolve_left hbehind
    have hnone : r.below? s.lo = none := below?_eq_none_iff.2 (Char.le_trans s.lo_le_hi hle)
    rw [diff, hnone, above?_eq_self (Char.not_le.1 hbehind), Remainder.ofParts]
  · have hle : r.hi ≤ s.lo := (Char.le_total _ _).resolve_left hbefore
    have hnone : r.above? s.hi = none := above?_eq_none_iff.2 (Char.le_trans hle s.lo_le_hi)
    rw [diff, hnone, below?_eq_self (Char.not_le.1 hbefore), Remainder.ofParts]

theorem map_ends_diff (r s : CodeRange) : (r.diff s).toList.map ends = r.remainderEnds s := by
  unfold remainderEnds
  split
  · next h =>
    have hleft := map_ends_below? h.2
    have hright := map_ends_above? h.1
    dsimp only
    rw [← hleft, ← hright, diff]
    cases r.below? s.lo <;> cases r.above? s.hi <;> rfl
  · next h =>
    rw [diff_of_not_overlaps h]
    rfl

theorem le_of_mem_remainderEnds {p : Char × Char} (h : p ∈ r.remainderEnds s) : p.1 ≤ p.2 := by
  rw [← map_ends_diff] at h
  obtain ⟨t, -, rfl⟩ := List.mem_map.1 h
  exact t.lo_le_hi

/-- Ranges merge into what both cover where they leave no gap, and nowhere else. What one leaves of the
other is what its neighbours bound: nothing under a cover, two ranges with a gap between them around a
range inside, and one range in all other cases. -/
theorem merge_diff_exact (r s : CodeRange) :
    ((∀ c, c ∈ r.merge s ↔ c ∈ r ∨ c ∈ s) ↔ r.Overlaps s ∨ r.Adjoins s) ∧
    (∀ c, (∃ t ∈ (r.diff s).toList, c ∈ t) ↔ c ∈ r ∧ c ∉ s) ∧
    (r.diff s = .empty ↔ ∀ c ∈ r, c ∈ s) ∧
    ((∃ left right, r.diff s = .two left right) ↔ r.lo < s.lo ∧ s.hi < r.hi) ∧
    ((r.diff s).toList.map ends = r.remainderEnds s ∧ ∀ p ∈ r.remainderEnds s, p.1 ≤ p.2) ∧
    ∀ left right, r.diff s = .two left right →
      left.lo ≤ right.lo ∧ ¬ left.Overlaps right ∧ ¬ left.Adjoins right := by
  refine ⟨forall_mem_merge_iff, fun c => mem_diff, diff_eq_empty_iff, exists_diff_eq_two_iff, ?_, ?_⟩
  · exact ⟨map_ends_diff r s, fun p => le_of_mem_remainderEnds⟩
  · intro left right h
    obtain ⟨hle, hjoins⟩ := RangeList.le_and_not_joins_iff_index.2 (gap_of_diff_eq_two h)
    exact ⟨hle, not_or.1 hjoins⟩

/-- The parts of a range that reaches over the gap in the code points end on its two sides. -/
example : (ofEnds '\uD7FE' '\uE001').diff (singleton '\uD7FF') =
    .two (singleton '\uD7FE') (ofEnds '\uE000' '\uE001') := by
  decide

end Regexp.CodeRange
