import Regexp.Pattern.Matches
import Regexp.Proofs.CharClass.OfList
import Regexp.Proofs.Pattern.Reading

/-! Escaped texts. Each of their characters is read as an element of its own, and together they match
the text wherever it stands. -/
namespace Regexp
open OpenGroup

theorem append_prefix_iff {s t l : List Char} :
    s ++ t <+: l ↔ s <+: l ∧ t <+: l.drop s.length := by
  constructor
  · rintro ⟨rest, rfl⟩
    simp
  · rintro ⟨⟨rest, rfl⟩, ht⟩
    simpa using ht

namespace Pattern
variable {a b : Option Pattern} {p : Pattern} {input : Array Char} {i j : Nat} {c : Char}
  {s t : List Char}

/-- The pattern matches a text where it stands in the input, and nothing else. -/
def Spells (p : Pattern) (s : List Char) : Prop :=
  ∀ (input : Array Char) (i j : Nat),
    p.Matches input i j ↔ j = i + s.length ∧ s <+: input.toList.drop i

theorem matches_join :
    ((join a b).getD .blank).Matches input i j ↔
      ∃ m, (a.getD .blank).Matches input i m ∧ (b.getD .blank).Matches input m j := by
  cases a <;> cases b <;> simp [join, Matches]

theorem spells_blank : blank.Spells [] := by
  intro input i j
  simp [Matches, eq_comm]

theorem singleton_prefix_drop_iff : [c] <+: input.toList.drop i ↔ input[i]? = some c := by
  rw [← Array.getElem?_toList, ← List.head?_drop]
  cases input.toList.drop i <;> simp [eq_comm]

theorem spells_char : (char c).Spells [c] := by
  intro input i j
  rw [singleton_prefix_drop_iff, and_comm]
  rfl

theorem spells_single : (cls (.single c)).Spells [c] := by
  intro input i j
  rw [singleton_prefix_drop_iff, and_comm]
  simp [Matches]

theorem Spells.join (ha : (a.getD .blank).Spells s) (hb : (b.getD .blank).Spells t) :
    ((OpenGroup.join a b).getD .blank).Spells (s ++ t) := by
  intro input i j
  rw [matches_join, append_prefix_iff, List.drop_drop, List.length_append]
  constructor
  · rintro ⟨m, hm, hj⟩
    obtain ⟨rfl, hs⟩ := (ha input i m).1 hm
    obtain ⟨rfl, ht⟩ := (hb input _ j).1 hj
    exact ⟨Nat.add_assoc .., hs, ht⟩
  · rintro ⟨rfl, hs, ht⟩
    exact ⟨i + s.length, (ha ..).2 ⟨rfl, hs⟩, (hb ..).2 ⟨(Nat.add_assoc ..).symm, ht⟩⟩

end Pattern

namespace Reader
variable {r : Reader} {c : Char} {s t : List Char}

theorem begin_of_not_mem_syntaxChars (hc : c ∉ syntaxChars) :
    r.begin c = .ok (r.push (some (.char c))) := by
  have hmeta : c ∉ metaChars := by
    have hsub : metaChars ⊆ syntaxChars := by simp [metaChars, syntaxChars]
    intro hmem
    exact hc (hsub hmem)
  have hquantifier : Quantifier.ofChar? c = none := by
    apply Option.eq_none_iff_forall_ne_some.2
    intro q hq
    rw [← Quantifier.symbol_of_ofChar? hq] at hc
    cases q <;> simp [syntaxChars, Quantifier.symbol] at hc
  rw [begin_of_not_mem_metaChars hmeta, hquantifier]

theorem reads_escaped_char (hr : r.mode = .element) (c : Char) :
    ∃ p : Pattern, p.Spells [c] ∧ r.Reads (escape [c]) (r.push (some p)) := by
  obtain ⟨g, outer, mode⟩ := r
  obtain rfl : mode = .element := hr
  by_cases hc : c ∈ syntaxChars
  · have hstep : Reader.step ⟨g, outer, .escape⟩ c =
        .ok ⟨g.push (some (.cls (.single c))), outer, .element⟩ := by
      have hu : c ≠ 'u' := by
        rintro rfl
        exact absurd hc (by decide)
      simp [step, hu, escapedClass, hc, Except.map, push]
    refine ⟨_, Pattern.spells_single, ?_⟩
    simp only [escape, List.flatMap_cons, List.flatMap_nil, hc, if_true, List.append_nil]
    exact .cons rfl (.single hstep)
  · refine ⟨_, Pattern.spells_char, ?_⟩
    simp only [escape, List.flatMap_cons, List.flatMap_nil, hc, if_false, List.append_nil]
    exact .single (begin_of_not_mem_syntaxChars hc)

/-- The elements of the group spell what has been read. -/
theorem reads_escape {ps : List (Option Pattern)}
    (hps : ((OpenGroup.sequence ⟨ps, []⟩).getD .blank).Spells t) :
    ∃ qs, Reads ⟨⟨ps, []⟩, [], .element⟩ (escape s) ⟨⟨qs, []⟩, [], .element⟩ ∧
      ((OpenGroup.sequence ⟨qs, []⟩).getD .blank).Spells (t ++ s) := by
  induction s generalizing ps t with
  | nil =>
    rw [List.append_nil]
    exact ⟨ps, .nil _, hps⟩
  | cons c s ih =>
    obtain ⟨p, hp, hc⟩ := reads_escaped_char (r := ⟨⟨ps, []⟩, [], .element⟩) rfl c
    have hjoin : ((OpenGroup.sequence ⟨some p :: ps, []⟩).getD .blank).Spells (t ++ [c]) :=
      hps.join hp
    obtain ⟨qs, hs, hqs⟩ := ih hjoin
    have hescape : escape (c :: s) = escape [c] ++ escape s := by simp [escape]
    rw [hescape]
    rw [List.append_cons]
    exact ⟨qs, hc.append hs, hqs⟩

end Reader

end Regexp
