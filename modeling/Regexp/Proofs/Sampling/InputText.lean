import Mathlib.Logic.Relation
import Regexp.Proofs.Automaton.Meaning
import Regexp.Proofs.Sampling.Draws
import Regexp.Sampling.InputText

/-! What is spelled out from a pattern without assertions is matched by its automaton, however the
source draws. -/
namespace Regexp

namespace Pattern
variable {p q : Pattern} {s t : List Char} {texts : List (List Char)} {k : CharClass} {c : Char}

/-- The pattern matches the text wherever that stands in an input. -/
def Describes (p : Pattern) (s : List Char) : Prop :=
  ∀ front back : List Char,
    p.Matches (front ++ s ++ back).toArray front.length (front.length + s.length)

theorem Describes.choice_left (h : p.Describes s) : (choice p q).Describes s :=
  fun front back => .inl (h front back)

theorem Describes.choice_right (h : q.Describes s) : (choice p q).Describes s :=
  fun front back => .inr (h front back)

theorem Describes.seq (hp : p.Describes s) (hq : q.Describes t) :
    (seq p q).Describes (s ++ t) := by
  intro front back
  have hs := hp front (t ++ back)
  have ht := hq (front ++ s) back
  refine ⟨front.length + s.length, ?_, ?_⟩
  · simpa using hs
  · simpa [Nat.add_assoc] using ht

theorem transGen_of_describes (h : ∀ t ∈ texts, p.Describes t) (hne : texts ≠ [])
    (front back : List Char) :
    Relation.TransGen (p.Matches (front ++ texts.flatten ++ back).toArray) front.length
      (front.length + texts.flatten.length) := by
  induction texts generalizing front with
  | nil => contradiction
  | cons t texts ih =>
    rw [List.forall_mem_cons] at h
    have hfirst := h.1 front (texts.flatten ++ back)
    cases texts with
    | nil => exact .single (by simpa using hfirst)
    | cons u texts =>
      have hrest := ih h.2 (by simp) (front ++ t)
      refine Relation.TransGen.head (b := front.length + t.length) ?_ ?_
      · simpa using hfirst
      · simpa [Nat.add_assoc] using hrest

/-- Texts one after the other, as many as the quantifier allows. -/
theorem describes_quantified {quantifier : Quantifier} (h : ∀ t ∈ texts, p.Describes t)
    (hlo : quantifier = .oneOrMore → texts ≠ [])
    (hhi : quantifier = .zeroOrOne → texts.length ≤ 1) :
    (quantified p quantifier).Describes texts.flatten := by
  intro front back
  by_cases hne : texts = []
  · subst hne
    cases quantifier with
    | zeroOrMore => exact .inl rfl
    | oneOrMore => exact absurd rfl (hlo rfl)
    | zeroOrOne => exact .inl rfl
  · have hloop := transGen_of_describes h hne front back
    cases quantifier with
    | zeroOrMore => exact .inr hloop
    | oneOrMore => exact hloop
    | zeroOrOne =>
      obtain ⟨t, rfl⟩ := List.length_eq_one_iff.1
        (Nat.le_antisymm (hhi rfl) (List.length_pos_iff.2 hne))
      have ht := h t (by simp) front back
      exact .inr (by simpa using ht)

theorem describes_cls (hc : c ∈ k) : (cls k).Describes [c] := by
  intro front back
  exact ⟨⟨c, by simp, hc⟩, rfl⟩

theorem describes_char : (char c).Describes [c] := by
  intro front back
  exact ⟨by simp, rfl⟩

theorem describes_any : any.Describes [c] := by
  intro front back
  exact ⟨by simp, rfl⟩

theorem describes_blank : blank.Describes [] := by
  intro front back
  rfl

theorem Describes.matchesFrom (h : p.Describes s) :
    (Automaton.ofPattern p).matchesFrom s.toArray 0 true = true := by
  apply (Automaton.matchesFrom_ofPattern p s.toArray 0 true).2
  have hmatches := h [] []
  exact ⟨s.length, by simpa using hmatches, by simp⟩

end Pattern

namespace Sampling
open Draw

variable {σ : Type} [RandomSource σ] {charset : List Char} {maxRepeat : Nat} {p body : Pattern}

/-- The pattern is no assertion, and if it is a class, it has a member in the character set. -/
def Spellable (charset : List Char) : Pattern → Prop
  | .cls k => ∃ c ∈ charset, c ∈ k
  | .startOfInput => False
  | .endOfInput => False
  | _ => True

theorem ensures_spellOut_quantified {q : Quantifier} (hpos : 1 ≤ maxRepeat)
    (hmax : maxRepeat + 1 < UInt64.size)
    (h : Ensures (spellOut charset maxRepeat body : Draw σ (List Char)) body.Describes) :
    Ensures (spellOut charset maxRepeat (.quantified body q) : Draw σ (List Char))
      (Pattern.quantified body q).Describes := by
  have hword : (maxRepeat + 1) % UInt64.size = maxRepeat + 1 := Nat.mod_eq_of_lt hmax
  have hrange : (repeatRange maxRepeat q).1 < (repeatRange maxRepeat q).2 := by
    cases q <;> simp only [repeatRange, hword] <;> omega
  apply (ensures_range hrange).bind
  rintro n ⟨hlo, hhi⟩
  apply (ensures_times h).map
  rintro texts ⟨rfl, htexts⟩
  apply Pattern.describes_quantified htexts
  · rintro rfl rfl
    exact absurd hlo (by simp [repeatRange])
  · rintro rfl
    exact Nat.le_of_lt_succ hhi

theorem ensures_spellOut (hcharset : charset ≠ []) (hpos : 1 ≤ maxRepeat)
    (hmax : maxRepeat + 1 < UInt64.size) (hp : ∀ q ∈ p.nodes, Spellable charset q) :
    Ensures (spellOut charset maxRepeat p : Draw σ (List Char)) p.Describes := by
  induction p with
  | choice a b iha ihb =>
    simp only [Pattern.nodes, List.forall_mem_cons, List.forall_mem_append] at hp
    apply (ensures_chance 50).bind
    rintro left -
    cases left with
    | true => exact (iha hp.2.1).mono fun s hs => hs.choice_left
    | false => exact (ihb hp.2.2).mono fun s hs => hs.choice_right
  | seq a b iha ihb =>
    simp only [Pattern.nodes, List.forall_mem_cons, List.forall_mem_append] at hp
    apply (iha hp.2.1).bind
    intro s hs
    exact (ihb hp.2.2).map fun t ht => hs.seq ht
  | quantified body q ih =>
    simp only [Pattern.nodes, List.forall_mem_cons] at hp
    exact ensures_spellOut_quantified hpos hmax (ih hp.2)
  | cls k =>
    obtain ⟨c, hc, hck⟩ := hp (.cls k) (by simp [Pattern.nodes])
    have hmembers : (charset.filter fun c => decide (c ∈ k)) ≠ [] := by
      apply List.ne_nil_of_mem (a := c)
      simp [hc, hck]
    simp only [spellOut, List.isEmpty_iff, hmembers, if_false]
    apply (ensures_sample hmembers).map
    intro d hd
    exact Pattern.describes_cls (by simpa using (List.mem_filter.1 hd).2)
  | char c => exact ensures_pure Pattern.describes_char
  | any => exact (ensures_sample hcharset).map fun c _ => Pattern.describes_any
  | startOfInput => exact (hp .startOfInput (by simp [Pattern.nodes])).elim
  | endOfInput => exact (hp .endOfInput (by simp [Pattern.nodes])).elim
  | blank => exact ensures_pure Pattern.describes_blank

/-- From every state of the source a text is spelled out, and the automaton of the pattern matches it
from end to end. -/
theorem spelled_matches (hcharset : charset ≠ []) (hpos : 1 ≤ maxRepeat)
    (hmax : maxRepeat < UInt64.size - 1) (hstart : .startOfInput ∉ p.nodes)
    (hend : .endOfInput ∉ p.nodes) (hcls : ∀ k, .cls k ∈ p.nodes → ∃ c ∈ charset, c ∈ k) (s : σ) :
    ∃ (text : List Char) (s' : σ),
      (InputStrategy.spelled p charset maxRepeat).text.run.run s = (.ok text, s') ∧
        (Automaton.ofPattern p).matchesFrom text.toArray 0 true = true := by
  have hp : ∀ q ∈ p.nodes, Spellable charset q := by
    intro q hq
    cases q with
    | cls k => exact hcls k hq
    | startOfInput => exact hstart hq
    | endOfInput => exact hend hq
    | _ => trivial
  obtain ⟨text, s', hrun, htext⟩ := ensures_spellOut hcharset hpos (by omega) hp s
  exact ⟨text, s', hrun, htext.matchesFrom⟩

/-- A loop around an optional class that has one member in the character set. -/
theorem spelled_matches_nullable_loop :
    let p := Pattern.quantified
      (.quantified (.choice (.quantified (.cls (.range 'b' 'y')) .zeroOrOne) .any) .zeroOrMore)
      .oneOrMore
    ['a', 'c'] ≠ [] ∧ 1 ≤ 3 ∧ 3 < UInt64.size - 1 ∧
      .startOfInput ∉ p.nodes ∧ .endOfInput ∉ p.nodes ∧
        (∀ k, .cls k ∈ p.nodes → ∃ c ∈ ['a', 'c'], c ∈ k) ∧
          ∃ (text : List Char) (s' : Source),
            (InputStrategy.spelled p ['a', 'c'] 3).text.run.run (Source.ofSeed 7) = (.ok text, s') ∧
              (Automaton.ofPattern p).matchesFrom text.toArray 0 true = true := by
  intro p
  have hcls : ∀ k, .cls k ∈ p.nodes → ∃ c ∈ ['a', 'c'], c ∈ k := by
    intro k hk
    obtain rfl : k = .range 'b' 'y' := by simpa [p, Pattern.nodes] using hk
    exact ⟨'c', by decide, by decide⟩
  have hstart : .startOfInput ∉ p.nodes := by simp [p, Pattern.nodes]
  have hend : .endOfInput ∉ p.nodes := by simp [p, Pattern.nodes]
  exact ⟨by decide, by decide, by decide, hstart, hend, hcls,
    spelled_matches (by decide) (by decide) (by decide) hstart hend hcls (Source.ofSeed 7)⟩

end Sampling

end Regexp
