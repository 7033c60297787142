import Regexp.Proofs.CharClass.Polarity
import Regexp.Proofs.Pattern.Bracket

/-! A complement sign and one more pair of brackets around a body. Both do what they seem to where the
class of the body has one list; where it has two, the law has its exceptions, and they are given. -/
namespace Regexp

namespace ClassBody
variable {b : ClassBody} {k : CharClass} {n : Bool}

theorem add_negated : add { b with negated := n } k = { b.add k with negated := n } := by
  obtain ⟨_, _, operand⟩ := b
  cases operand <;> rfl

theorem settle_negated : settle { b with negated := n } = { b.settle with negated := n } := by
  obtain ⟨_, _, operand⟩ := b
  cases operand <;> rfl

end ClassBody

namespace ClassSyntax
variable {t : ClassSyntax} {spot : ClassSpot} {b : ClassBody} {n : Bool} {s : List Char}
  {k : CharClass}

theorem gather_negated (ht : t.Grammatical spot) (hspot : spot ≠ .opened) :
    t.gather { b with negated := n } = { t.gather b with negated := n } := by
  induction t generalizing b spot with
  | done => rfl
  | complement rest ih => exact (hspot ht.1).elim
  | atom a rest ih =>
    rw [gather, ClassBody.add_negated]
    exact ih ht.2.2 (by cases spot <;> simp [ClassSpot.next])
  | bracket inner rest ihinner ih =>
    rw [gather, ClassBody.add_negated]
    exact ih ht.2 (by cases spot <;> simp [ClassSpot.next])
  | inter rest ih =>
    rw [gather, ClassBody.settle_negated]
    exact ih (b := { b.settle with operand := some ∅ }) ht.2 (by simp)
  | diff rest ih => rfl

theorem toClass_complement (ht : t.Grammatical .complement) :
    (complement t).toClass = t.toClass.negate := by
  have hpositive : t.gather .empty = { t.gather .empty with negated := false } :=
    gather_negated ht (by simp) (b := .empty)
  have hnegative : t.gather { ClassBody.empty with negated := true } =
      { t.gather .empty with negated := true } :=
    gather_negated ht (by simp)
  rw [toClass, gather, hnegative, toClass, hpositive, ClassBody.value, ClassBody.value]
  simp only [ClassBody.settle_negated]
  rfl

/-- A body that begins with no complement sign can stand behind one. -/
theorem grammatical_complement (ht : t.Grammatical .opened) (hs : t.text.head? ≠ some '^') :
    t.Grammatical .complement := by
  have hwritten {w : WrittenChar} (hw : w.Begins .opened) : w.Begins .complement := by
    cases w with
    | plain c => exact ⟨hw.1, by simp [ClassSpot.signs]⟩
    | _ => exact hw
  cases t with
  | done => trivial
  | complement rest => exact (hs rfl).elim
  | atom a rest =>
    refine ⟨?_, ht.2⟩
    cases a with
    | char w => exact hwritten ht.1
    | range lo hi => exact ⟨hwritten ht.1.1, ht.1.2⟩
    | escape c k h => trivial
  | bracket inner rest => exact ht
  | inter rest => simp [Grammatical] at ht
  | diff rest => simp [Grammatical] at ht

/-- A complement sign trades the lists of a class and turns its polarity. That makes the complement,
but for the characters that both or neither of two lists cover. -/
theorem parse_complemented (hs : s.head? ≠ some '^')
    (h : Pattern.parse ('[' :: s ++ [']']) = .ok (.cls k)) :
    Pattern.parse ('[' :: '^' :: s ++ [']']) = .ok (.cls k.negate) ∧
      ∀ c, (c ∈ k.negate ↔ c ∉ k) ↔
        k.secondary = [] ∨ (k.included.Covers c ↔ ¬ k.excluded.Covers c) := by
  obtain ⟨t, ht, rfl, rfl⟩ := parse_bracket_iff.1 h
  have hcomplement := grammatical_complement ht hs
  have hparse : Pattern.parse ('[' :: '^' :: t.text ++ [']']) = .ok (.cls t.toClass.negate) :=
    parse_bracket_iff.2 ⟨.complement t, ⟨rfl, hcomplement⟩, rfl, toClass_complement hcomplement⟩
  exact ⟨hparse, fun c => CharClass.mem_negate_iff_not_mem_iff⟩

theorem parse_complemented_two_lists :
    let s := "a-c&&[^e]".toList
    let k : CharClass := ⟨[.ofEnds 'a' 'c'], [.singleton 'e'], false⟩
    s.head? ≠ some '^' ∧ Pattern.parse ('[' :: s ++ [']']) = .ok (.cls k) ∧
      Pattern.parse ('[' :: '^' :: s ++ [']']) = .ok (.cls k.negate) ∧
      ∀ c, (c ∈ k.negate ↔ c ∉ k) ↔
        k.secondary = [] ∨ (k.included.Covers c ↔ ¬ k.excluded.Covers c) := by
  intro s k
  have hs : s.head? ≠ some '^' := by decide
  have hparse : Pattern.parse ('[' :: s ++ [']']) = .ok (.cls k) := by decide
  exact ⟨hs, hparse, parse_complemented hs hparse⟩

/-- The character `d` is in neither list, and neither class has it. -/
theorem complement_sign_misses_character :
    let s := "a-c&&[^b]".toList
    let k : CharClass := ⟨[.ofEnds 'a' 'c'], [.singleton 'b'], false⟩
    s.head? ≠ some '^' ∧ Pattern.parse ('[' :: s ++ [']']) = .ok (.cls k) ∧
      ¬ ∃ k' : CharClass, Pattern.parse ('[' :: '^' :: s ++ [']']) = .ok (.cls k') ∧
        ∀ c, c ∈ k' ↔ c ∉ k := by
  intro s k
  refine ⟨by decide, by decide, ?_⟩
  rintro ⟨k', hparse, hmem⟩
  have hnegate : Pattern.parse ('[' :: '^' :: s ++ [']']) = .ok (.cls k.negate) := by decide
  rw [hnegate] at hparse
  cases hparse
  exact absurd (hmem 'd') (by decide)

/-- One more pair of brackets makes the union with the empty class. That changes nothing, but for the
characters that neither list of a negated class covers, if it has two. -/
theorem parse_bracketed_twice (h : Pattern.parse ('[' :: s ++ [']']) = .ok (.cls k)) :
    Pattern.parse ('[' :: '[' :: s ++ [']', ']']) = .ok (.cls (CharClass.union ∅ k)) ∧
      ∀ c, c ∈ CharClass.union ∅ k ↔
        c ∈ k ∨ k.negated = true ∧ k.included ≠ [] ∧
          ¬ k.included.Covers c ∧ ¬ k.excluded.Covers c := by
  obtain ⟨t, ht, rfl, rfl⟩ := parse_bracket_iff.1 h
  have htext : '[' :: '[' :: t.text ++ [']', ']'] = '[' :: (bracket t done).text ++ [']'] := by
    simp [text]
  rw [htext]
  have hparse : Pattern.parse ('[' :: (bracket t done).text ++ [']']) =
      .ok (.cls (CharClass.union ∅ t.toClass)) :=
    parse_bracket_iff.2 ⟨.bracket t .done, ⟨ht, trivial⟩, rfl, rfl⟩
  exact ⟨hparse, fun c => CharClass.mem_empty_union_iff⟩

theorem parse_bracketed_twice_two_lists :
    let s := "^a-c&&[^b]".toList
    let k : CharClass := ⟨[.singleton 'b'], [.ofEnds 'a' 'c'], true⟩
    Pattern.parse ('[' :: s ++ [']']) = .ok (.cls k) ∧
      Pattern.parse ('[' :: '[' :: s ++ [']', ']']) = .ok (.cls (CharClass.union ∅ k)) ∧
      ∀ c, c ∈ CharClass.union ∅ k ↔
        c ∈ k ∨ k.negated = true ∧ k.included ≠ [] ∧
          ¬ k.included.Covers c ∧ ¬ k.excluded.Covers c := by
  intro s k
  have hparse : Pattern.parse ('[' :: s ++ [']']) = .ok (.cls k) := by decide
  exact ⟨hparse, parse_bracketed_twice hparse⟩

/-- The character `d` comes in with the brackets. -/
theorem second_brackets_add_character :
    let s := "^a-c&&[^b]".toList
    let k : CharClass := ⟨[.singleton 'b'], [.ofEnds 'a' 'c'], true⟩
    Pattern.parse ('[' :: s ++ [']']) = .ok (.cls k) ∧
      ¬ ∃ k' : CharClass, Pattern.parse ('[' :: '[' :: s ++ [']', ']']) = .ok (.cls k') ∧
        ∀ c, c ∈ k' ↔ c ∈ k := by
  intro s k
  refine ⟨by decide, ?_⟩
  rintro ⟨k', hparse, hmem⟩
  have hunion : Pattern.parse ('[' :: '[' :: s ++ [']', ']']) =
      .ok (.cls ⟨[], [.ofEnds 'a' 'c'], true⟩) := by
    decide
  rw [hunion] at hparse
  cases hparse
  exact absurd (hmem 'd') (by decide)

end ClassSyntax

end Regexp
