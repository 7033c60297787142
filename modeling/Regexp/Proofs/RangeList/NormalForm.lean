import Regexp.RangeList.Lemmas

/-! Lists in normal form that cover the same characters are equal, so a law of sets of characters is a
law of normal lists. -/
namespace Regexp

theorem Scalar.exists_index {i : Nat} (h : i < Scalar.count) : ∃ c, Scalar.index c = i := by
  obtain ⟨c, hc⟩ := Option.ne_none_iff_exists'.1 (Scalar.ofIndex?_ne_none h)
  exact ⟨c, Scalar.index_of_ofIndex? hc⟩

namespace RangeList
open Scalar

variable {l a b : RangeList} {r s : CodeRange} {c : Char}

/-- No two ranges overlap or touch, not only neighbours. -/
theorem Normal.apart (h : l.Normal) :
    l.Pairwise fun r s => r.lo ≤ s.lo ∧ ¬ r.Overlaps s ∧ ¬ r.Adjoins s := by
  refine h.imp ?_
  rintro r s ⟨hle, hjoins⟩
  exact ⟨hle, not_or.1 hjoins⟩

theorem Normal.of_cons (h : Normal (r :: l)) : l.Normal := (normal_cons.1 h).2

theorem Normal.lt_of_covers_tail (h : Normal (r :: l)) (hc : l.Covers c) :
    index r.hi + 1 < index c := by
  obtain ⟨s, hs, hcs⟩ := hc
  have hlo := (normal_cons.1 h).1 s hs
  have hmem := (CodeRange.mem_iff_index.1 hcs).1
  omega

theorem Normal.lo_le_of_covers (h : Normal (r :: l)) (hc : Covers (r :: l) c) :
    index r.lo ≤ index c := by
  have hr := r.index_lo_le_hi
  rcases covers_cons.1 hc with hmem | htail
  · exact (CodeRange.mem_iff_index.1 hmem).1
  · have := h.lt_of_covers_tail htail
    omega

theorem covers_lo (r : CodeRange) (l : RangeList) : Covers (r :: l) r.lo :=
  covers_cons.2 (.inl ⟨Char.le_refl _, r.lo_le_hi⟩)

/-- The first range goes on as long as the characters that the list covers. -/
theorem Normal.hi_le_hi (ha : Normal (r :: l)) (hlo : index s.lo ≤ index r.lo)
    (h : ∀ c ∈ s, Covers (r :: l) c) : index s.hi ≤ index r.hi := by
  apply Nat.le_of_not_lt
  intro hlt
  have hcount := index_lt_count s.hi
  have hr := r.index_lo_le_hi
  obtain ⟨c, hc⟩ := exists_index (i := index r.hi + 1) (by omega)
  have hmem : c ∈ s := CodeRange.mem_iff_index.2 (by omega)
  rcases covers_cons.1 (h c hmem) with hcr | htail
  · have := (CodeRange.mem_iff_index.1 hcr).2
    omega
  · have := ha.lt_of_covers_tail htail
    omega

theorem Normal.head_eq (ha : Normal (r :: a)) (hb : Normal (s :: b))
    (h : ∀ c, Covers (r :: a) c ↔ Covers (s :: b) c) : r = s := by
  have hlo : index r.lo = index s.lo := by
    have hrs := ha.lo_le_of_covers ((h _).2 (covers_lo s b))
    have hsr := hb.lo_le_of_covers ((h _).1 (covers_lo r a))
    omega
  have hhi : index r.hi = index s.hi := by
    have hsr := ha.hi_le_hi (s := s) (by omega) fun c hc => (h c).2 (covers_cons.2 (.inl hc))
    have hrs := hb.hi_le_hi (s := r) (by omega) fun c hc => (h c).1 (covers_cons.2 (.inl hc))
    omega
  obtain ⟨rlo, rhi, _⟩ := r
  obtain ⟨slo, shi, _⟩ := s
  cases index_inj hlo
  cases index_inj hhi
  rfl

theorem Normal.eq_of_covers (ha : a.Normal) (hb : b.Normal) (h : ∀ c, a.Covers c ↔ b.Covers c) :
    a = b := by
  induction a generalizing b with
  | nil =>
    cases b with
    | nil => rfl
    | cons s b => exact absurd ((h _).2 (covers_lo s b)) covers_nil
  | cons r a ih =>
    cases b with
    | nil => exact absurd ((h _).1 (covers_lo r a)) covers_nil
    | cons s b =>
      obtain rfl := ha.head_eq hb h
      rw [ih ha.of_cons hb.of_cons]
      intro c
      -- What the tails cover lies beyond the common first range.
      have hmem {l : RangeList} (hl : Normal (r :: l)) (hc : l.Covers c) : c ∉ r := by
        intro hcr
        have := hl.lt_of_covers_tail hc
        have := (CodeRange.mem_iff_index.1 hcr).2
        omega
      constructor
      · intro hc
        exact (covers_cons.1 ((h c).1 (covers_cons.2 (.inr hc)))).resolve_left (hmem ha hc)
      · intro hc
        exact (covers_cons.1 ((h c).2 (covers_cons.2 (.inr hc)))).resolve_left (hmem hb hc)

@[simp] theorem normal_union : (a.union b).Normal := normal_normalize

theorem normalize_of_normal (h : l.Normal) : l.normalize = l :=
  normal_normalize.eq_of_covers h fun _ => covers_normalize

theorem normalize_eq_normalize_iff : a.normalize = b.normalize ↔ ∀ c, a.Covers c ↔ b.Covers c := by
  constructor
  · intro h c
    rw [← covers_normalize, h, covers_normalize]
  · intro h
    apply normal_normalize.eq_of_covers normal_normalize
    intro c
    rw [covers_normalize, covers_normalize, h c]

theorem isNormal_iff_normalize_eq : l.isNormal = true ↔ l.normalize = l := by
  rw [isNormal_iff]
  constructor
  · exact normalize_of_normal
  · intro h
    rw [← h]
    exact normal_normalize

theorem normal_nil : Normal [] := List.Pairwise.nil

end RangeList

end Regexp
