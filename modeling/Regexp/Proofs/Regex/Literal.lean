import Regexp.Proofs.Pattern.Literal
import Regexp.Proofs.Regex.Views

/-! An escaped text is found where it stands as it is. -/
namespace Regexp.Regex
open Pattern

variable {rx : Regex} {s t : List Char} {i : Nat}

theorem prefix_drop_iff :
    i ≤ t.length ∧ s <+: t.drop i ↔
      ∃ front back, t = front ++ s ++ back ∧ front.length = i := by
  constructor
  · rintro ⟨hi, back, hback⟩
    refine ⟨t.take i, back, ?_, List.length_take_of_le hi⟩
    rw [List.append_assoc, hback, List.take_append_drop]
  · rintro ⟨front, back, rfl, rfl⟩
    simp

theorem matchesWhole_of_spells (h : rx.pattern.Spells s) : rx.matchesWhole t = true ↔ t = s := by
  rw [matchesWhole_iff]
  constructor
  · rintro ⟨j, hj, hlen⟩
    obtain ⟨rfl, hs⟩ := (h ..).1 hj
    rw [Nat.zero_add] at hlen
    exact (hs.eq_of_length_le hlen).symm
  · rintro rfl
    refine ⟨t.length, (h ..).2 ⟨(Nat.zero_add _).symm, ?_⟩, Nat.le_refl _⟩
    exact List.prefix_rfl

theorem mem_matchStarts_of_spells (h : rx.pattern.Spells s) :
    i ∈ rx.matchStarts t ↔ ∃ front back, t = front ++ s ++ back ∧ front.length = i := by
  rw [mem_matchStarts, ← prefix_drop_iff]
  simp [h _ _ _]

theorem matchesAnywhere_of_spells (h : rx.pattern.Spells s) :
    rx.matchesAnywhere t = true ↔ s <:+: t := by
  rw [matchesAnywhere_iff]
  simp only [mem_matchStarts_of_spells h]
  constructor
  · rintro ⟨i, front, back, ht, _⟩
    exact ⟨front, back, ht.symm⟩
  · rintro ⟨front, back, ht⟩
    exact ⟨front.length, front, back, ht.symm, rfl⟩

/-- Overlapping occurrences count, and the empty text stands at every offset. -/
theorem exists_ofText_escape (s : List Char) :
    ∃ rx, ofText (escape s) = .ok rx ∧ ∀ t,
      (rx.matchesWhole t = true ↔ t = s) ∧
      (rx.matchStarts t).Pairwise (· < ·) ∧
      (∀ i, i ∈ rx.matchStarts t ↔ ∃ front back, t = front ++ s ++ back ∧ front.length = i) ∧
      (rx.matchesAnywhere t = true ↔ s <:+: t) := by
  have hstart : ((OpenGroup.sequence ⟨[], []⟩).getD .blank).Spells [] := spells_blank
  obtain ⟨ps, hread, hps⟩ := Reader.reads_escape (s := s) hstart
  have hparse : parse (escape s) = .ok ((OpenGroup.sequence ⟨ps, []⟩).getD .blank) :=
    Reader.parse_eq_ok_iff.2 ⟨_, hread, rfl⟩
  obtain ⟨rx, hrx, hpattern⟩ := exists_ofText hparse
  have hspells : rx.pattern.Spells s := by
    rw [hpattern]
    exact hps
  refine ⟨rx, hrx, fun t => ?_⟩
  exact ⟨matchesWhole_of_spells hspells, pairwise_matchStarts,
    fun i => mem_matchStarts_of_spells hspells, matchesAnywhere_of_spells hspells⟩

end Regexp.Regex
