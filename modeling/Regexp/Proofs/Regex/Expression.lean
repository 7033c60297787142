import Regexp.Expression
import Regexp.Proofs.Pattern.Literal
import Regexp.Proofs.Regex.Views

/-! The two ways to make an automaton of an expression match the same. While the pattern is read, every
group keeps in step with the automaton of the operands so far; the shapes differ, and what is compared
is the relation between the positions of an input. -/
namespace Regexp

/-- What a group holds matches as the automaton does, where nothing matches the empty string. -/
structure Agrees (p : Option Pattern) (a : Automaton) : Prop where
  isFragment : a.IsFragment
  matches_iff (input : Array Char) (i j : Nat) :
    (p.getD .blank).Matches input i j ↔ a.Spans input i j

namespace Pattern
variable {p q : Option Pattern} {a b : Automaton} {g : OpenGroup} {input : Array Char} {i j : Nat}

/-- Some alternative matches, the last one being the sequence that is not finished yet. -/
theorem matches_value :
    (g.value.getD .blank).Matches input i j ↔
      (g.sequence.getD .blank).Matches input i j ∨
        ∃ p ∈ g.alternatives, (p.getD .blank).Matches input i j := by
  unfold OpenGroup.value
  generalize g.sequence = right
  induction g.alternatives generalizing right with
  | nil => simp
  | cons left alternatives ih =>
    rw [List.foldl_cons, ih, List.exists_mem_cons_iff, ← or_assoc]
    exact or_congr_left or_comm

theorem matches_value_alternate_push :
    ((g.alternate.push q).value.getD .blank).Matches input i j ↔
      (g.value.getD .blank).Matches input i j ∨ (q.getD .blank).Matches input i j := by
  rw [matches_value, matches_value, or_comm]
  simp [OpenGroup.alternate, OpenGroup.push, OpenGroup.sequence, OpenGroup.join]

theorem matches_quantified_blank (q : Quantifier) :
    (quantified blank q).Matches input i j ↔ i = j := by
  have hloop : Relation.TransGen (blank.Matches input) i j ↔ i = j := by
    constructor
    · intro h
      induction h with
      | single h => exact h
      | tail _ h ih => exact ih.trans h
    · exact .single
  cases q
  · exact (or_congr_right hloop).trans or_self_iff
  · exact hloop
  · exact or_self_iff

end Pattern

namespace Agrees
open OpenGroup

variable {p q : Option Pattern} {a b : Automaton} {g : OpenGroup}

theorem blank : Agrees none .empty where
  isFragment := Automaton.isFragment_empty
  matches_iff _ _ _ := Automaton.spans_empty.symm

theorem char {p : Pattern} {c : Char} (hp : p.Spells [c]) : Agrees (some p) (.char c) where
  isFragment := Automaton.isFragment_char c
  matches_iff input i j := by
    rw [Automaton.spans_char, ← Pattern.singleton_prefix_drop_iff, and_comm]
    exact hp input i j

theorem ofPattern (p : Pattern) : Agrees (some p) (.ofPattern p) where
  isFragment := Automaton.isFragment_ofPattern p
  matches_iff _ _ _ := (Automaton.spans_ofPattern p).symm

theorem join (hp : Agrees p a) (hq : Agrees q b) : Agrees (join p q) (a.sequence b) where
  isFragment := Automaton.isFragment_sequence hp.isFragment hq.isFragment
  matches_iff input i j := by
    rw [Pattern.matches_join, Automaton.spans_sequence hp.isFragment hq.isFragment]
    exact exists_congr fun m =>
      and_congr (hp.matches_iff input i m) (hq.matches_iff input m j)

theorem alternate (hg : Agrees g.value a) (hq : Agrees q b) :
    Agrees (g.alternate.push q).value (a.alternation b) where
  isFragment := Automaton.isFragment_alternation hg.isFragment hq.isFragment
  matches_iff input i j := by
    rw [Pattern.matches_value_alternate_push,
      Automaton.spans_alternation hg.isFragment hq.isFragment]
    exact or_congr (hg.matches_iff input i j) (hq.matches_iff input i j)

theorem quantified (hp : Agrees p a) (q : Quantifier) :
    Agrees (p.map (Pattern.quantified · q)) (a.quantified q) where
  isFragment := Automaton.isFragment_quantified q hp.isFragment
  matches_iff input i j := by
    rw [Automaton.spans_quantified q hp.isFragment fun i j => (hp.matches_iff input i j).symm]
    cases p with
    | none => exact (Pattern.matches_quantified_blank q).symm
    | some p => rfl

end Agrees

/-! ### Reading the pattern -/

namespace Reader

variable {s : List Char} {a : Automaton} {r : Reader} {α : Type} {text : α → List Char}
  {automaton : α → Automaton} {items : List α}

/-- Nothing is left open, and what has been read matches as the automaton does. -/
def Holds (a : Automaton) (r : Reader) : Prop := ∃ g, r = ⟨g, [], .element⟩ ∧ Agrees g.value a

def HoldsSequence (a : Automaton) (r : Reader) : Prop :=
  ∃ ps, r = ⟨⟨ps, []⟩, [], .element⟩ ∧ Agrees (OpenGroup.sequence ⟨ps, []⟩) a

theorem HoldsSequence.holds (h : HoldsSequence a r) : Holds a r := by
  obtain ⟨ps, rfl, hps⟩ := h
  exact ⟨⟨ps, []⟩, rfl, hps⟩

/-- The text is read as a pattern that matches as the automaton does. -/
def Denotes (s : List Char) (a : Automaton) : Prop := ∃ r, start.Reads s r ∧ Holds a r

/-- After any elements the text is read as one more, which matches as the automaton does. -/
def IsElement (s : List Char) (a : Automaton) : Prop :=
  ∀ g, ∃ p, Reads ⟨g, [], .element⟩ s ⟨g.push p, [], .element⟩ ∧ Agrees p a

theorem Denotes.isElement (h : Denotes s a) : IsElement (parenthesized s) a := by
  obtain ⟨_, hread, inner, rfl, hinner⟩ := h
  intro g
  exact ⟨inner.value, hread.group, hinner⟩

theorem isElement_char (c : Char) : IsElement (escape [c]) (.char c) := by
  intro g
  obtain ⟨p, hp, hread⟩ := reads_escaped_char (r := ⟨g, [], .element⟩) rfl c
  exact ⟨some p, hread, .char hp⟩

theorem IsElement.step_sequence {b : Automaton} (h : IsElement s b) (hr : HoldsSequence a r) :
    ∃ r', Reads r s r' ∧ HoldsSequence (a.sequence b) r' := by
  obtain ⟨ps, rfl, hps⟩ := hr
  obtain ⟨p, hread, hp⟩ := h ⟨ps, []⟩
  exact ⟨_, hread, p :: ps, rfl, hps.join hp⟩

/-- A bar in the pattern groups to the right, the automaton to the left. -/
theorem IsElement.step_alternation {b : Automaton} (h : IsElement s b) (hr : Holds a r) :
    ∃ r', Reads r ('|' :: s) r' ∧ Holds (a.alternation b) r' := by
  obtain ⟨g, rfl, hg⟩ := hr
  obtain ⟨p, hread, hp⟩ := h g.alternate
  have hbar : Reads ⟨g, [], .element⟩ ['|'] ⟨g.alternate, [], .element⟩ := .single rfl
  exact ⟨_, hbar.append hread, g.alternate.push p, rfl, hg.alternate hp⟩

theorem denotes_flatMap (hitems : ∀ x ∈ items, IsElement (text x) (automaton x)) :
    Denotes (items.flatMap text) (.sequenceOf (items.map automaton)) := by
  have hstart : HoldsSequence .empty start := ⟨[], rfl, .blank⟩
  obtain ⟨r, hread, hr⟩ :=
    Run.flatMap (fun x hx _ _ => (hitems x hx).step_sequence) hstart
  rw [Automaton.sequenceOf, List.foldl_map]
  exact ⟨r, hread, hr.holds⟩

theorem denotes_alternatives {b : Automaton} (hs : IsElement s b)
    (hitems : ∀ x ∈ items, IsElement (text x) (automaton x)) :
    Denotes (s ++ items.flatMap fun x => '|' :: text x)
      (.alternationOf b (items.map automaton)) := by
  obtain ⟨p, hfirst, hp⟩ := hs .empty
  have hstart : Holds b ⟨OpenGroup.empty.push p, [], .element⟩ := ⟨_, rfl, hp⟩
  obtain ⟨r, hread, hr⟩ :=
    Run.flatMap (fun x hx _ _ => (hitems x hx).step_alternation) hstart
  rw [Automaton.alternationOf_eq_foldl, List.foldl_map]
  exact ⟨r, hfirst.append hread, hr⟩

theorem Denotes.quantified (h : Denotes s a) (q : Quantifier) :
    Denotes (parenthesized s ++ [q.symbol]) (a.quantified q) := by
  obtain ⟨_, hread, g, rfl, hg⟩ := h
  rw [parenthesized, List.append_assoc]
  exact ⟨_, hread.quantified q, _, rfl, hg.quantified q⟩

theorem denotes_sign {c : Char} {p : Pattern}
    (h : start.begin c = .ok ⟨OpenGroup.empty.push (some p), [], .element⟩) :
    Denotes [c] (.ofPattern p) :=
  ⟨_, .single h, _, rfl, .ofPattern p⟩

theorem denotes_text (e : Expression) : Denotes e.text e.automaton := by
  induction e <;> rw [Expression.text, Expression.automaton]
  case literal text =>
    have hescape : escape text = text.flatMap fun c => escape [c] := by simp [escape]
    rw [hescape]
    exact denotes_flatMap fun c _ => isElement_char c
  case any => exact denotes_sign (p := .any) rfl
  case startOfInput => exact denotes_sign (p := .startOfInput) rfl
  case endOfInput => exact denotes_sign (p := .endOfInput) rfl
  case sequence items ih => exact denotes_flatMap fun e he => (ih e he).isElement
  case alternation first others ihfirst ihothers =>
    exact denotes_alternatives ihfirst.isElement fun e he => (ihothers e he).isElement
  case quantified body q ih => exact ih.quantified q

end Reader

/-- The pattern of an expression is one, and its automaton matches as the one that is put together
directly. -/
theorem Regex.exists_ofText_text (e : Expression) :
    ∃ rx, ofText e.text = .ok rx ∧ ∀ (input : Array Char) (start : Nat) (anchored : Bool),
      rx.automaton.matchesFrom input start anchored =
        e.automaton.matchesFrom input start anchored := by
  obtain ⟨_, hread, g, rfl, hagrees⟩ := Reader.denotes_text e
  obtain ⟨rx, hrx, hpattern⟩ := exists_ofText (Reader.parse_eq_ok_iff.2 ⟨g, hread, rfl⟩)
  refine ⟨rx, hrx, ?_⟩
  intro input start anchored
  rw [Bool.eq_iff_iff, matchesFrom_iff, hagrees.isFragment.matchesFrom_iff, hpattern]
  simp only [hagrees.matches_iff]

end Regexp
