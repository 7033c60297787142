import Regexp.Proofs.Pattern.Canonical
import Regexp.Proofs.Pattern.WellFormed

/-! What the pattern of a text looks like: where its blanks stand, and what parentheses, bars and
quantifiers make of the patterns of shorter texts. -/
namespace Regexp

/-! ### Blanks and characters -/

namespace Pattern
variable {p q : Pattern} {s t text : List Char} {c : Char}

theorem WellFormed.eq_choice_of_blank_mem_operands (h : p.WellFormed) (hblank : blank ∈ p.operands) :
    ∃ a b, p = choice a b := by
  cases p with
  | choice a b => exact ⟨a, b, rfl⟩
  | seq a b =>
    obtain ⟨ha, hb⟩ : a.Solid ∧ b.Solid := h.resolve_left (by simp)
    simp only [operands, List.mem_cons, List.not_mem_nil, or_false] at hblank
    rcases hblank with rfl | rfl
    · exact ha.elim
    · exact hb.elim
  | quantified a r =>
    have ha : a.Solid := h.resolve_left (by simp)
    rw [operands, List.mem_singleton] at hblank
    rw [← hblank] at ha
    exact ha.elim
  | _ => simp [operands] at hblank

theorem WellFormed.not_mem_metaChars (h : (char c).WellFormed) : c ∉ metaChars :=
  h.resolve_left (by simp)

/-- A blank is the whole pattern or an alternative, and no character is one that means something else
wherever it stands. -/
theorem blanks_are_alternatives (h : parse text = .ok p) :
    (∀ q ∈ p.nodes, blank ∈ q.operands → ∃ a b, q = choice a b) ∧
      ∀ c, char c ∈ p.nodes → c ∉ metaChars := by
  have hp := wellFormed_of_parse h
  constructor
  · intro q hq hblank
    exact (hp.of_mem_nodes hq).eq_choice_of_blank_mem_operands hblank
  · intro c hc
    exact (hp.of_mem_nodes hc).not_mem_metaChars

/-- Empty groups in a sequence and under quantifiers, where no blank is left of them, and a quantifier
that is a character. -/
theorem blanks_are_alternatives_empty_groups :
    let inner : Pattern := .seq (.char '+') (.choice .blank (.char ']'))
    let p : Pattern := .choice (.quantified inner .zeroOrOne) .blank
    parse "(+()(|])()*)?|()+".toList = .ok p ∧
      (∀ q ∈ p.nodes, blank ∈ q.operands → ∃ a b, q = choice a b) ∧
      ∀ c, char c ∈ p.nodes → c ∉ metaChars := by
  intro inner p
  have hparse : parse "(+()(|])()*)?|()+".toList = .ok p := by decide
  exact ⟨hparse, blanks_are_alternatives hparse⟩

/-! ### Texts in parentheses -/

theorem element?_getD {p : Option Pattern} (hp : SolidElement p) : (p.getD .blank).element? = p := by
  cases p with
  | none => rfl
  | some p => exact element?_of_solid hp

theorem exists_reads_of_parse (h : parse s = .ok p) :
    ∃ g, Reader.start.Reads s ⟨g, [], .element⟩ ∧ g.value = p.element? := by
  obtain ⟨g, hread, rfl⟩ := Reader.parse_eq_ok_iff.1 h
  exact ⟨g, hread, (element?_getD (hread.sound Reader.sound_start).group.value).symm⟩

theorem getD_join_element? (p q : Pattern) :
    (OpenGroup.join p.element? q.element?).getD .blank =
      if p = blank then q else if q = blank then p else seq p q := by
  cases p <;> cases q <;> rfl

theorem getD_map_quantified_element? (p : Pattern) (r : Quantifier) :
    (p.element?.map (quantified · r)).getD .blank = if p = blank then blank else quantified p r := by
  cases p <;> rfl

/-- What stands in parentheses is read as it is alone. A blank vanishes from a sequence and under a
quantifier. -/
theorem parse_grouped (hs : parse s = .ok p) (ht : parse t = .ok q) :
    parse ('(' :: s ++ [')']) = .ok p ∧
      parse ('(' :: s ++ ")|(".toList ++ t ++ [')']) = .ok (choice p q) ∧
      parse ('(' :: s ++ ")(".toList ++ t ++ [')']) =
        .ok (if p = blank then q else if q = blank then p else seq p q) ∧
      ∀ r : Quantifier, parse ('(' :: s ++ [')', r.symbol]) =
        .ok (if p = blank then blank else quantified p r) := by
  obtain ⟨a, ha, hp⟩ := exists_reads_of_parse hs
  obtain ⟨b, hb, hq⟩ := exists_reads_of_parse ht
  refine ⟨?_, ?_, ?_, fun r => ?_⟩
  · refine Reader.parse_eq_ok_iff.2 ⟨_, ha.group, ?_⟩
    change a.value.getD .blank = p
    rw [hp, getD_element?]
  · refine Reader.parse_eq_ok_iff.2 ⟨_, ha.choice hb, ?_⟩
    change choice (a.value.getD .blank) (b.value.getD .blank) = choice p q
    rw [hp, hq, getD_element?, getD_element?]
  · refine Reader.parse_eq_ok_iff.2 ⟨_, ha.seq hb, ?_⟩
    change (OpenGroup.join a.value b.value).getD .blank = _
    rw [hp, hq, getD_join_element?]
  · refine Reader.parse_eq_ok_iff.2 ⟨_, ha.quantified r, ?_⟩
    change (a.value.map (quantified · r)).getD .blank = _
    rw [hp, getD_map_quantified_element?]

/-- An alternative with a class, before an empty text that is more than no characters. -/
theorem parse_grouped_class_and_blank :
    let s := "a|[b-d]".toList
    let t := "()*".toList
    let p : Pattern := .choice (.char 'a') (.cls (.range 'b' 'd'))
    parse s = .ok p ∧ parse t = .ok blank ∧
      parse ('(' :: s ++ [')']) = .ok p ∧
      parse ('(' :: s ++ ")|(".toList ++ t ++ [')']) = .ok (choice p blank) ∧
      parse ('(' :: s ++ ")(".toList ++ t ++ [')']) = .ok p ∧
      ∀ r : Quantifier, parse ('(' :: s ++ [')', r.symbol]) = .ok (quantified p r) := by
  intro s t p
  have hs : parse s = .ok p := by decide
  have ht : parse t = .ok blank := by decide
  exact ⟨hs, ht, parse_grouped hs ht⟩

end Pattern

end Regexp
