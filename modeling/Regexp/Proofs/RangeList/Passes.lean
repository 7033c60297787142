import Regexp.Proofs.RangeList.NormalForm
import Regexp.RangeList.Passes

/-! Passes over whole lists end where working range by range ends: both keep what is covered, and the
normal form leaves no choice. -/
namespace Regexp.RangeList
open CodeRange Scalar

variable {l a b : RangeList} {r s : CodeRange} {c : Char}

/-! ### Merging -/

theorem covers_mergeFrom : (mergeFrom r l).Covers c ↔ c ∈ r ∨ l.Covers c := by
  fun_induction mergeFrom r l with
  | case1 r => simp
  | case2 r s l h ih => rw [ih, covers_cons, mem_merge_of_joins h, or_assoc]
  | case3 r s l _ ih => rw [covers_cons, ih, covers_cons]

theorem index_lo_le_of_mem_mergeFrom (h : ∀ s ∈ l, index r.lo ≤ index s.lo) (hs : s ∈ mergeFrom r l) :
    index r.lo ≤ index s.lo := by
  have hlo : (mergeFrom r l).Covers s.lo := ⟨s, hs, Char.le_refl _, s.lo_le_hi⟩
  rcases covers_mergeFrom.1 hlo with hr | ⟨t, ht, hmem⟩
  · exact (mem_iff_index.1 hr).1
  · exact Nat.le_trans (h t ht) (mem_iff_index.1 hmem).1

/-- In a list in order a range that does not join the next one ends before all that follow. -/
theorem normal_mergeFrom (h : (r :: l).Pairwise fun r s => index r.lo ≤ index s.lo) :
    (mergeFrom r l).Normal := by
  fun_induction mergeFrom r l with
  | case1 r => simp [Normal]
  | case2 r s l _ ih =>
    simp only [List.pairwise_cons, List.forall_mem_cons] at h
    obtain ⟨⟨hrs, hrl⟩, _, hl⟩ := h
    refine ih (List.pairwise_cons.2 ⟨?_, hl⟩)
    intro t ht
    rw [index_lo_merge, Nat.min_eq_left hrs]
    exact hrl t ht
  | case3 r s l hjoins ih =>
    obtain ⟨hr, hsl⟩ := List.pairwise_cons.1 h
    have hgap : index r.hi + 1 < index s.lo :=
      le_and_not_joins_iff_index.1 ⟨index_le_index.1 (hr s (by simp)), hjoins⟩
    refine normal_cons.2 ⟨?_, ih hsl⟩
    intro t ht
    have hst := index_lo_le_of_mem_mergeFrom (List.pairwise_cons.1 hsl).1 ht
    omega

theorem comesFirst_iff_index :
    comesFirst r s = true ↔
      index r.lo < index s.lo ∨ index r.lo = index s.lo ∧ index r.hi ≤ index s.hi := by
  have hlo : r.lo = s.lo ↔ index r.lo = index s.lo := ⟨congrArg index, index_inj⟩
  rw [comesFirst, decide_eq_true_eq, index_lt_index, index_le_index, hlo]

theorem pairwise_mergeSort_comesFirst (l : RangeList) :
    (l.mergeSort comesFirst).Pairwise fun r s => index r.lo ≤ index s.lo := by
  have hsorted : (l.mergeSort comesFirst).Pairwise fun r s => comesFirst r s = true := by
    apply List.pairwise_mergeSort
    · intro r s t
      simp only [comesFirst_iff_index]
      omega
    · intro r s
      rw [Bool.or_eq_true, comesFirst_iff_index, comesFirst_iff_index]
      omega
  refine hsorted.imp ?_
  intro r s h
  have hfirst := comesFirst_iff_index.1 h
  omega

theorem covers_mergePass : l.mergePass.Covers c ↔ l.Covers c := by
  have hsorted : Covers (l.mergeSort comesFirst) c ↔ l.Covers c := by simp [Covers]
  rw [mergePass, ← hsorted]
  cases l.mergeSort comesFirst with
  | nil => rfl
  | cons r l => rw [mergeNeighbours, covers_mergeFrom, covers_cons]

theorem normal_mergePass (l : RangeList) : l.mergePass.Normal := by
  have hsorted := pairwise_mergeSort_comesFirst l
  rw [mergePass]
  cases h : l.mergeSort comesFirst with
  | nil => exact normal_nil
  | cons r l =>
    rw [h] at hsorted
    exact normal_mergeFrom hsorted

/-- One pass merges all that there is to merge. -/
theorem mergePass_eq_normalize (l : RangeList) : l.mergePass = l.normalize := by
  apply (normal_mergePass l).eq_of_covers normal_normalize
  intro c
  rw [covers_mergePass, covers_normalize]

theorem mergePasses_eq_normalize (l : RangeList) : l.mergePasses = l.normalize := by
  fun_induction mergePasses l with
  | case1 l _ ih => rw [ih, mergePass_eq_normalize, normalize_of_normal normal_normalize]
  | case2 l _ => exact mergePass_eq_normalize l

/-! ### Taking away -/

/-- Outside of what is taken away nothing changes. -/
theorem covers_eraseFirst (hc : ¬ b.Covers c) : (eraseFirst b r).Covers c ↔ c ∈ r := by
  unfold eraseFirst
  split
  · next s hs =>
    have hcs : c ∉ s := fun hmem => hc ⟨s, List.mem_of_find?_eq_some hs, hmem⟩
    exact mem_diff.trans (and_iff_left hcs)
  · simp

theorem covers_erasePass (hc : ¬ b.Covers c) : (a.erasePass b).Covers c ↔ a.Covers c := by
  induction a with
  | nil => rfl
  | cons r a ih =>
    rw [erasePass, List.flatMap_cons, covers_append, covers_eraseFirst hc, covers_cons, ← ih,
      erasePass]

theorem covers_erasePasses_of_not_covers (hc : ¬ b.Covers c) :
    (a.erasePasses b).Covers c ↔ a.Covers c := by
  fun_induction erasePasses a b with
  | case1 a h ih => rw [ih, covers_erasePass hc]
  | case2 a h => rfl

theorem not_meets_erasePasses (a b : RangeList) : ¬ (a.erasePasses b).Meets b := by
  fun_induction erasePasses a b with
  | case1 a h ih => exact ih
  | case2 a h => exact h

theorem Covers.meets (ha : a.Covers c) (hb : b.Covers c) : a.Meets b := by
  obtain ⟨r, hr, hcr⟩ := ha
  obtain ⟨s, hs, hcs⟩ := hb
  exact ⟨r, hr, s, hs, Char.le_trans hcr.1 hcs.2, Char.le_trans hcs.1 hcr.2⟩

theorem covers_erasePasses : (a.erasePasses b).Covers c ↔ a.Covers c ∧ ¬ b.Covers c := by
  by_cases hc : b.Covers c
  · simp only [hc, not_true, and_false, iff_false]
    intro ha
    exact not_meets_erasePasses a b (ha.meets hc)
  · simp [hc, covers_erasePasses_of_not_covers hc]

theorem mergePasses_erasePasses_eq_diff (a b : RangeList) :
    mergePasses (erasePasses (mergePasses a) b) = a.diff b := by
  rw [mergePasses_eq_normalize, mergePasses_eq_normalize, RangeList.diff,
    normalize_eq_normalize_iff]
  intro c
  rw [covers_erasePasses, covers_normalize, covers_foldl_erase]

/-! ### The laws of the operations -/

/-- The passes end, and what they end in depends on the covered characters only. No two of its ranges
are neighbours, not even across the gap in the code points. -/
theorem normalize_canonical (l : RangeList) :
    l.mergePasses = l.normalize ∧
      (∀ c, l.normalize.Covers c ↔ l.Covers c) ∧
      (l.normalize.Pairwise fun r s => r.lo ≤ s.lo ∧ ¬ r.Overlaps s ∧ ¬ r.Adjoins s) ∧
      next? '\uD7FF' = some '\uE000' ∧
      (∀ m : RangeList, l.normalize = m.normalize ↔ ∀ c, l.Covers c ↔ m.Covers c) ∧
      (l.isNormal = true ↔ l.normalize = l) := by
  refine ⟨mergePasses_eq_normalize l, ?_, ?_, by decide, ?_, isNormal_iff_normalize_eq⟩
  · exact fun c => covers_normalize
  · refine normal_normalize.imp ?_
    rintro r s ⟨hle, hjoins⟩
    exact ⟨hle, not_or.1 hjoins⟩
  · exact fun m => normalize_eq_normalize_iff

/-- Union, intersection and difference end, in whichever state the lists are in, and come to the normal
list of the characters that their names say. -/
theorem operations_exact (a b : RangeList) :
    (mergePasses (a ++ b) = a.union b ∧
      mergePasses (a.flatMap fun r => b.filterMap r.inter?) = a.inter b ∧
      mergePasses (erasePasses (mergePasses a) b) = a.diff b) ∧
    ((a.union b).Normal ∧ (a.inter b).Normal ∧ (a.diff b).Normal) ∧
    ∀ c, ((a.union b).Covers c ↔ a.Covers c ∨ b.Covers c) ∧
      ((a.inter b).Covers c ↔ a.Covers c ∧ b.Covers c) ∧
      ((a.diff b).Covers c ↔ a.Covers c ∧ ¬ b.Covers c) := by
  refine ⟨⟨?_, ?_, ?_⟩, ⟨?_, ?_, ?_⟩, ?_⟩
  · exact mergePasses_eq_normalize _
  · exact mergePasses_eq_normalize _
  · exact mergePasses_erasePasses_eq_diff a b
  · exact normal_union
  · exact normal_normalize
  · exact normal_normalize
  · exact fun c => ⟨covers_union, covers_inter, covers_diff⟩

end Regexp.RangeList
