import Regexp.Proofs.Automaton.Meaning
import Regexp.Regex

/-! What the views of a match say about the pattern. -/
namespace Regexp

namespace Pattern
variable {p : Pattern} {input : Array Char} {i j : Nat}

theorem extent_of_transGen (hstep : ∀ i j, p.Matches input i j → i ≤ j ∧ j ≤ max i input.size)
    (h : Relation.TransGen (p.Matches input) i j) : i ≤ j ∧ j ≤ max i input.size := by
  induction h with
  | single h => exact hstep _ _ h
  | @tail m j _ h ih =>
    have hlast := hstep m j h
    omega

/-- A match goes forward, and does not leave an input in which it starts. -/
theorem Matches.extent (h : p.Matches input i j) : i ≤ j ∧ j ≤ max i input.size := by
  induction p generalizing i j with
  | choice p q ihp ihq => exact h.elim ihp ihq
  | seq p q ihp ihq =>
    obtain ⟨m, hp, hq⟩ := h
    have hfirst := ihp hp
    have hsecond := ihq hq
    omega
  | quantified p q ih =>
    have hstay : i = j → i ≤ j ∧ j ≤ max i input.size := by omega
    have hloop := extent_of_transGen (i := i) (j := j) fun _ _ => ih
    cases q with
    | zeroOrMore => exact h.elim hstay hloop
    | oneOrMore => exact hloop h
    | zeroOrOne => exact h.elim hstay ih
  | cls k =>
    obtain ⟨⟨c, hc, -⟩, hj⟩ := h
    have hi := (Array.getElem?_eq_some_iff.1 hc).1
    omega
  | char c =>
    have hi := (Array.getElem?_eq_some_iff.1 h.1).1
    have hj := h.2
    omega
  | any =>
    obtain ⟨hi, hj⟩ := h
    omega
  | startOfInput =>
    obtain ⟨hi, hj⟩ := h
    omega
  | endOfInput =>
    obtain ⟨hi, hj⟩ := h
    omega
  | blank =>
    change i = j at h
    omega

end Pattern

namespace Regex
variable {rx : Regex} {text input : List Char} {p : Pattern} {i : Nat}

theorem exists_ofText (h : Pattern.parse text = .ok p) :
    ∃ rx, ofText text = .ok rx ∧ rx.pattern = p := by
  unfold ofText
  split
  · next h' =>
    rw [h] at h'
    contradiction
  · next q h' =>
    rw [h] at h'
    cases h'
    exact ⟨_, rfl, rfl⟩

theorem matchesFrom_iff {chars : Array Char} {start : Nat} {anchored : Bool} :
    rx.automaton.matchesFrom chars start anchored = true ↔
      ∃ j, rx.pattern.Matches chars start j ∧ (anchored = true → chars.size ≤ j) := by
  rw [rx.automaton_eq]
  exact Automaton.matchesFrom_ofPattern ..

theorem matchesWhole_iff :
    rx.matchesWhole input = true ↔
      ∃ j, rx.pattern.Matches input.toArray 0 j ∧ input.length ≤ j := by
  simp [matchesWhole, matchesFrom_iff]

theorem mem_matchStarts :
    i ∈ rx.matchStarts input ↔ i ≤ input.length ∧ ∃ j, rx.pattern.Matches input.toArray i j := by
  simp only [matchStarts, List.mem_filter, List.mem_range, matchesFrom_iff, List.size_toArray,
    Nat.lt_succ_iff, Bool.false_eq_true, false_implies, and_true]

theorem pairwise_matchStarts : (rx.matchStarts input).Pairwise (· < ·) :=
  List.pairwise_lt_range.filter _

theorem matchesAnywhere_iff : rx.matchesAnywhere input = true ↔ ∃ i, i ∈ rx.matchStarts input := by
  simp [matchesAnywhere, matchStarts]

theorem mem_matchStarts_iff_span :
    i ∈ rx.matchStarts input ↔
      i ≤ input.length ∧
        ∃ j, i ≤ j ∧ j ≤ input.length ∧ rx.pattern.Matches input.toArray i j := by
  rw [mem_matchStarts]
  refine and_congr_right fun hi => exists_congr fun j => ⟨fun h => ?_, fun h => h.2.2⟩
  have hextent := h.extent
  rw [List.size_toArray] at hextent
  exact ⟨hextent.1, by omega, h⟩

theorem matchesWhole_iff_matches :
    rx.matchesWhole input = true ↔ rx.pattern.Matches input.toArray 0 input.length := by
  rw [matchesWhole_iff]
  constructor
  · rintro ⟨j, h, hlen⟩
    have hextent := h.extent
    rw [List.size_toArray] at hextent
    obtain rfl : j = input.length := by omega
    exact h
  · intro h
    exact ⟨_, h, Nat.le_refl _⟩

/-- A match that ends with the input is found from its start without asking where it ends. -/
theorem zero_mem_matchStarts (h : rx.matchesWhole input = true) : 0 ∈ rx.matchStarts input := by
  obtain ⟨j, hj, -⟩ := matchesWhole_iff.1 h
  exact mem_matchStarts.2 ⟨Nat.zero_le _, j, hj⟩

end Regex

end Regexp
