import Mathlib.Data.List.DropRight
import Mathlib.Data.List.Sort
import Regexp.Proofs.Regex.Views
import Regexp.Report

/-! The line of carets under an input. It ends with its last caret, and the carets that are left say
where matches begin. -/
namespace Regexp

/-- What is dropped from the end satisfies the predicate, so that all else stays in its place. -/
theorem getElem?_rdropWhile {α : Type} {p : α → Bool} {l : List α} {i : Nat} {a : α}
    (ha : ¬ p a) : (l.rdropWhile p)[i]? = some a ↔ l[i]? = some a := by
  conv_rhs => rw [← List.rdropWhile_append_rtakeWhile (p := p) (l := l), List.getElem?_append]
  split
  · rfl
  · next hi =>
    rw [List.getElem?_eq_none (Nat.le_of_not_lt hi)]
    constructor
    · intro h
      contradiction
    · intro h
      exact absurd (List.mem_rtakeWhile_imp (List.mem_of_getElem? h)) ha

namespace Report

variable {rx : Regex} {input : List Char} {i : Nat} {c : Char}

/-- One mark for every offset, also for the one behind the last character. -/
def marks (rx : Regex) (input : List Char) : List Char :=
  (List.range (input.length + 1)).map fun i => if i ∈ rx.matchStarts input then '^' else ' '

theorem markerLine_eq (rx : Regex) (input : List Char) :
    markerLine rx input = (marks rx input).rdropWhile (· = ' ') := rfl

theorem eq_of_mem_marks (h : c ∈ marks rx input) : c = '^' ∨ c = ' ' := by
  obtain ⟨i, -, rfl⟩ := List.mem_map.1 h
  split
  · exact .inl rfl
  · exact .inr rfl

theorem eq_of_mem_markerLine (h : c ∈ markerLine rx input) : c = '^' ∨ c = ' ' :=
  eq_of_mem_marks ((List.rdropWhile_prefix _ _).subset h)

theorem getElem?_marks : (marks rx input)[i]? = some '^' ↔ i ∈ rx.matchStarts input := by
  rw [marks, List.getElem?_map]
  by_cases hi : i < input.length + 1
  · rw [List.getElem?_range hi]
    simp
  · have hstart : i ∉ rx.matchStarts input := by
      intro h
      exact hi (Nat.lt_succ_of_le (Regex.mem_matchStarts.1 h).1)
    have hnone : (List.range (input.length + 1))[i]? = none := by
      apply List.getElem?_eq_none
      rw [List.length_range]
      exact Nat.le_of_not_lt hi
    rw [hnone]
    simp [hstart]

theorem getElem?_markerLine : (markerLine rx input)[i]? = some '^' ↔ i ∈ rx.matchStarts input := by
  rw [markerLine_eq, getElem?_rdropWhile (by decide), getElem?_marks]

theorem eq_of_mem_getLast? (h : c ∈ (markerLine rx input).getLast?) : c = '^' := by
  rw [markerLine_eq] at h
  obtain ⟨hne, rfl⟩ := List.mem_getLast?_eq_getLast h
  have hblank := List.rdropWhile_last_not (· = ' ') (marks rx input) hne
  have hmem := (List.rdropWhile_prefix _ _).subset (List.getLast_mem hne)
  exact (eq_of_mem_marks hmem).resolve_right (by simpa using hblank)

/-- Both lists are ascending, so it is enough that they have the same members. -/
theorem idxsOf_markerLine (rx : Regex) (input : List Char) :
    (markerLine rx input).idxsOf '^' = rx.matchStarts input := by
  apply List.Pairwise.eq_of_mem_iff List.pairwise_idxsOf Regex.pairwise_matchStarts
  intro i
  rw [List.mem_idxsOf_iff_exists_getElem_pos, ← getElem?_markerLine, List.getElem?_eq_some_iff]
  simp only [beq_iff_eq]

/-- Where matches begin, whether one does, whether one takes up the whole input, and the carets under it
are four views of the parts that the pattern matches. -/
theorem views_agree (rx : Regex) (input : List Char) :
    (rx.matchStarts input).Pairwise (· < ·) ∧
    (∀ i, i ∈ rx.matchStarts input ↔
      i ≤ input.length ∧
        ∃ j, i ≤ j ∧ j ≤ input.length ∧ rx.pattern.Matches input.toArray i j) ∧
    (rx.matchesAnywhere input = true ↔ rx.matchStarts input ≠ []) ∧
    (rx.matchesWhole input = true ↔ rx.pattern.Matches input.toArray 0 input.length) ∧
    (rx.matchesWhole input = true → 0 ∈ rx.matchStarts input) ∧
    (∀ c ∈ markerLine rx input, c = '^' ∨ c = ' ') ∧
    (∀ c ∈ (markerLine rx input).getLast?, c = '^') ∧
    (∀ i, (markerLine rx input)[i]? = some '^' ↔ i ∈ rx.matchStarts input) ∧
    (markerLine rx input).idxsOf '^' = rx.matchStarts input := by
  refine ⟨Regex.pairwise_matchStarts, ?_, ?_, Regex.matchesWhole_iff_matches,
    Regex.zero_mem_matchStarts, ?_, ?_, ?_, idxsOf_markerLine rx input⟩
  · exact fun i => Regex.mem_matchStarts_iff_span
  · rw [Regex.matchesAnywhere_iff, ← List.isEmpty_eq_false_iff_exists_mem, List.isEmpty_eq_false_iff]
  · exact fun c => eq_of_mem_markerLine
  · exact fun c => eq_of_mem_getLast?
  · exact fun i => getElem?_markerLine

example : (Regex.ofText "ab".toList).toOption.map (markerLine · "abxab".toList) =
    some "^  ^".toList := by
  decide +kernel

end Report

end Regexp
