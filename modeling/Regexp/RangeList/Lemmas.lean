import Regexp.CodeRange.Lemmas
import Regexp.RangeList.Basic

/-! Lists of ranges by the characters that they cover. Every operation covers what its name says, and
every result is normal. -/
namespace Regexp.RangeList
open CodeRange Scalar

variable {l a b : RangeList} {r s : CodeRange} {c : Char}

@[simp] theorem covers_nil : ¬ Covers [] c := by simp [Covers]

@[simp] theorem covers_cons : Covers (r :: l) c ↔ c ∈ r ∨ l.Covers c := by simp [Covers]

@[simp] theorem covers_append : Covers (a ++ b) c ↔ a.Covers c ∨ b.Covers c := by
  simp [Covers, or_and_right, exists_or]

theorem covers_insert : (insert r l).Covers c ↔ c ∈ r ∨ l.Covers c := by
  fun_induction insert r l with
  | case1 r => simp
  | case2 r s l h ih => rw [ih, covers_cons, mem_merge_of_joins h, or_assoc]
  | case3 r s l _ _ => simp
  | case4 r s l _ _ ih => rw [covers_cons, ih, covers_cons, or_left_comm]

@[simp] theorem covers_normalize : l.normalize.Covers c ↔ l.Covers c := by
  induction l with
  | nil => rfl
  | cons r l ih => rw [normalize, List.foldr_cons, covers_insert, covers_cons, ← ih, normalize]

@[simp] theorem covers_union : (a.union b).Covers c ↔ a.Covers c ∨ b.Covers c := by
  rw [union, covers_normalize, covers_append]

@[simp] theorem covers_inter : (a.inter b).Covers c ↔ a.Covers c ∧ b.Covers c := by
  rw [inter, covers_normalize]
  constructor
  · rintro ⟨t, ht, hc⟩
    simp only [List.mem_flatMap, List.mem_filterMap] at ht
    obtain ⟨r, hr, s, hs, ht⟩ := ht
    have h := mem_inter?.1 ⟨t, ht, hc⟩
    exact ⟨⟨r, hr, h.1⟩, ⟨s, hs, h.2⟩⟩
  · rintro ⟨⟨r, hr, hcr⟩, ⟨s, hs, hcs⟩⟩
    obtain ⟨t, ht, hc⟩ := mem_inter?.2 ⟨hcr, hcs⟩
    refine ⟨t, ?_, hc⟩
    simp only [List.mem_flatMap, List.mem_filterMap]
    exact ⟨r, hr, s, hs, ht⟩

@[simp] theorem covers_erase : (l.erase s).Covers c ↔ l.Covers c ∧ c ∉ s := by
  constructor
  · rintro ⟨t, ht, hc⟩
    obtain ⟨r, hr, ht⟩ := List.mem_flatMap.1 ht
    have h := mem_diff.1 ⟨t, ht, hc⟩
    exact ⟨⟨r, hr, h.1⟩, h.2⟩
  · rintro ⟨⟨r, hr, hcr⟩, hcs⟩
    obtain ⟨t, ht, hc⟩ := mem_diff.2 ⟨hcr, hcs⟩
    exact ⟨t, List.mem_flatMap.2 ⟨r, hr, ht⟩, hc⟩

theorem covers_foldl_erase : (b.foldl erase a).Covers c ↔ a.Covers c ∧ ¬ b.Covers c := by
  induction b generalizing a with
  | nil => simp
  | cons s b ih => rw [List.foldl_cons, ih, covers_erase, covers_cons, not_or, and_assoc]

@[simp] theorem covers_diff : (a.diff b).Covers c ↔ a.Covers c ∧ ¬ b.Covers c := by
  rw [diff, covers_normalize, covers_foldl_erase]

/-! ### The normal form -/

/-- The first range ends at least one character before the second begins. -/
theorem le_and_not_joins_iff_index :
    (r.lo ≤ s.lo ∧ ¬ r.Joins s) ↔ index r.hi + 1 < index s.lo := by
  have hr := r.index_lo_le_hi
  have hs := s.index_lo_le_hi
  rw [← index_le_index, joins_iff_index]
  omega

theorem normal_iff_index : l.Normal ↔ l.Pairwise fun r s => index r.hi + 1 < index s.lo := by
  unfold Normal
  simp only [le_and_not_joins_iff_index]

theorem normal_cons : Normal (r :: l) ↔ (∀ s ∈ l, index r.hi + 1 < index s.lo) ∧ l.Normal := by
  rw [normal_iff_index, normal_iff_index, List.pairwise_cons]

/-- A gap between neighbours is a gap between any two, since the ranges go on behind it. -/
theorem isNormal_iff : l.isNormal = true ↔ l.Normal := by
  fun_induction isNormal l with
  | case1 r s l ih =>
    have hs := s.index_lo_le_hi
    simp only [Bool.and_eq_true, decide_eq_true_eq, ih, le_and_not_joins_iff_index, normal_cons,
      List.forall_mem_cons]
    constructor
    · rintro ⟨hrs, hsl, hl⟩
      refine ⟨⟨hrs, ?_⟩, hsl, hl⟩
      intro t ht
      have hst := hsl t ht
      omega
    · rintro ⟨⟨hrs, _⟩, hsl, hl⟩
      exact ⟨hrs, hsl, hl⟩
  | case2 l hl =>
    match l with
    | [] => simp [Normal]
    | [r] => simp [Normal]
    | r :: s :: l => exact absurd rfl (hl r s l)

/-- Whatever lies beyond a gap from `r` and from the list lies beyond a gap from their union. -/
theorem lt_lo_of_mem_insert {n : Nat} (hr : n < index r.lo) (hl : ∀ s ∈ l, n < index s.lo) :
    ∀ t ∈ insert r l, n < index t.lo := by
  fun_induction insert r l with
  | case1 r => simpa using hr
  | case2 r s l h ih =>
    have hs := hl s (by simp)
    apply ih
    · rw [index_lo_merge]
      omega
    · intro t ht
      exact hl t (by simp [ht])
  | case3 r s l _ _ =>
    intro t ht
    rcases List.mem_cons.1 ht with rfl | ht
    · exact hr
    · exact hl t ht
  | case4 r s l _ _ ih =>
    intro t ht
    rcases List.mem_cons.1 ht with rfl | ht
    · exact hl t (by simp)
    · exact ih hr (fun u hu => hl u (by simp [hu])) t ht

theorem normal_insert (h : l.Normal) : (insert r l).Normal := by
  fun_induction insert r l with
  | case1 r => simp [Normal]
  | case2 r s l _ ih => exact ih (normal_cons.1 h).2
  | case3 r s l hj hlt =>
    have hr := r.index_lo_le_hi
    have hs := s.index_lo_le_hi
    rw [← index_lt_index] at hlt
    rw [joins_iff_index] at hj
    refine normal_cons.2 ⟨?_, h⟩
    intro t ht
    rcases List.mem_cons.1 ht with rfl | ht
    · omega
    · have := (normal_cons.1 h).1 t ht
      omega
  | case4 r s l hj hlt ih =>
    have hr := r.index_lo_le_hi
    rw [← index_lt_index] at hlt
    rw [joins_iff_index] at hj
    obtain ⟨hsl, hl⟩ := normal_cons.1 h
    refine normal_cons.2 ⟨lt_lo_of_mem_insert ?_ hsl, ih hl⟩
    omega

@[simp] theorem normal_normalize : l.normalize.Normal := by
  induction l with
  | nil => simp [normalize, Normal]
  | cons r l ih => exact normal_insert ih

end Regexp.RangeList
