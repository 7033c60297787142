import Regexp.Proofs.Pattern.Reading
import Regexp.Proofs.Regex.Views

/-! How large the pattern and the automaton of a text are. A character makes room for two nodes at most,
and a node that is no sequence becomes two states. -/
namespace Regexp

/-! ### States -/

def Pattern.isSeq : Pattern → Bool
  | seq _ _ => true
  | _ => false

namespace Automaton

@[simp] theorem size_quantified (q : Quantifier) (a : Automaton) :
    (a.quantified q).states.size = 2 + a.states.size := by
  cases q
  · exact size_repeated true true a
  · exact size_repeated true false a
  · exact size_repeated false true a

/-- A sequence only joins the states of its operands, where every other node adds two of its own. -/
theorem size_ofPattern (p : Pattern) :
    (ofPattern p).states.size = 2 * (p.size - p.nodes.countP Pattern.isSeq) := by
  have hcount : (ofPattern p).states.size + 2 * p.nodes.countP Pattern.isSeq = 2 * p.size := by
    induction p with
    | choice p q ihp ihq =>
      simp [ofPattern, Pattern.size, Pattern.nodes, Pattern.isSeq]
      omega
    | seq p q ihp ihq =>
      simp [ofPattern, Pattern.size, Pattern.nodes, Pattern.isSeq, List.countP_cons]
      omega
    | quantified p q ih =>
      simp [ofPattern, Pattern.size, Pattern.nodes, Pattern.isSeq]
      omega
    | _ => rfl
  omega

end Automaton

/-! ### Nodes -/

namespace OpenGroup

/-- The nodes of an element with the one that joins it to the elements before it. -/
def elementWeight : Option Pattern → Nat
  | none => 0
  | some p => p.size + 1

/-- What the group takes of the nodes there is room for: with every alternative a choice, and a blank if
the alternative is empty. -/
def weight (g : OpenGroup) : Nat :=
  (g.elements.map elementWeight).sum + (g.alternatives.map fun p => elementWeight p + 2).sum

theorem elementWeight_join (p q : Option Pattern) :
    elementWeight (join p q) = elementWeight p + elementWeight q := by
  cases p <;> cases q <;> simp [join, elementWeight, Pattern.size]
  omega

theorem elementWeight_sequence (g : OpenGroup) :
    elementWeight g.sequence = (g.elements.map elementWeight).sum := by
  obtain ⟨elements, alternatives⟩ := g
  induction elements with
  | nil => rfl
  | cons p ps ih =>
    change elementWeight (join (sequence ⟨ps, alternatives⟩) p) = _
    rw [elementWeight_join, ih, List.map_cons, List.sum_cons, Nat.add_comm]

theorem size_getD_le (p : Option Pattern) : (p.getD .blank).size ≤ elementWeight p + 1 := by
  cases p <;> simp [elementWeight, Pattern.size]
  omega

theorem elementWeight_le (p : Option Pattern) : elementWeight p ≤ (p.getD .blank).size + 1 := by
  cases p <;> simp [elementWeight]

theorem size_choices_le (right : Option Pattern) (lefts : List (Option Pattern)) :
    ((lefts.foldl (fun right left => some (.choice (left.getD .blank) (right.getD .blank)))
      right).getD .blank).size ≤
        (right.getD .blank).size + (lefts.map fun p => elementWeight p + 2).sum := by
  induction lefts generalizing right with
  | nil => simp
  | cons left lefts ih =>
    have hleft := size_getD_le left
    have hrest := ih (some (.choice (left.getD .blank) (right.getD .blank)))
    simp only [List.foldl_cons, List.map_cons, List.sum_cons, Option.getD_some, Pattern.size]
      at hrest ⊢
    omega

theorem size_value_le (g : OpenGroup) : (g.value.getD .blank).size ≤ g.weight + 1 := by
  have hchoices := size_choices_le g.sequence g.alternatives
  have hsequence := size_getD_le g.sequence
  rw [elementWeight_sequence] at hsequence
  unfold value weight
  omega

theorem weight_push (g : OpenGroup) (p : Option Pattern) :
    (g.push p).weight = elementWeight p + g.weight := by
  simp [weight, push, Nat.add_assoc]

theorem weight_alternate (g : OpenGroup) : g.alternate.weight = g.weight + 2 := by
  simp [weight, alternate, elementWeight_sequence]
  omega

theorem weight_quantify_le (g : OpenGroup) (q : Quantifier) :
    (g.quantify q).weight ≤ g.weight + 2 := by
  obtain ⟨elements, alternatives⟩ := g
  cases elements with
  | nil =>
    change (push _ (some (.char q.symbol))).weight ≤ _
    rw [weight_push, Nat.add_comm]
    exact Nat.le_refl _
  | cons p ps =>
    cases p <;> simp [quantify, weight, elementWeight, Pattern.size]
    omega

end OpenGroup

namespace Reader
variable {r r' : Reader} {c : Char} {s : List Char} {p : Pattern}

def weight (r : Reader) : Nat := r.group.weight + (r.outer.map OpenGroup.weight).sum

theorem weight_push_of_size (hp : p.size = 1) : (r.push (some p)).weight = r.weight + 2 := by
  simp only [weight, push, OpenGroup.weight_push, OpenGroup.elementWeight, hp]
  omega

theorem Begins.weight_le (h : r.Begins c r') : r'.weight ≤ r.weight + 2 := by
  cases h with
  | opens => simp [weight, OpenGroup.empty, OpenGroup.weight]
  | @closes parent outer houter =>
    -- Two parentheses make room for what may be a blank and for the node that joins the group.
    have hvalue := OpenGroup.elementWeight_le r.group.value
    have hsize := r.group.size_value_le
    simp only [weight, houter, OpenGroup.weight_push, List.map_cons, List.sum_cons]
    omega
  | alternates =>
    simp only [weight, OpenGroup.weight_alternate]
    omega
  | @quantifies _ q _ =>
    have hquantify := r.group.weight_quantify_le q
    simp only [weight]
    omega
  | escapes => exact Nat.le_add_right _ _
  | brackets => exact Nat.le_add_right _ _
  | _ => exact (weight_push_of_size rfl).le

theorem weight_step_le (h : r.step c = .ok r') : r'.weight ≤ r.weight + 2 := by
  cases step_eq_ok_iff.1 h with
  | begins _ h => exact h.weight_le
  | opensCodePoint _ | insideCodePoint _ _ | insideCls _ _ => exact Nat.le_add_right _ _
  | _ => exact (weight_push_of_size rfl).le

theorem Reads.weight_le (h : r.Reads s r') : r'.weight ≤ r.weight + 2 * s.length := by
  induction h with
  | nil => exact Nat.le_refl _
  | cons hstep _ ih =>
    have := weight_step_le hstep
    rw [List.length_cons]
    omega

end Reader

theorem Pattern.size_le_of_parse {text : List Char} {p : Pattern} (h : parse text = .ok p) :
    p.size ≤ 2 * text.length + 1 := by
  obtain ⟨g, hread, rfl⟩ := Reader.parse_eq_ok_iff.1 h
  have hweight : g.weight ≤ 2 * text.length := by
    simpa [Reader.weight, Reader.start, OpenGroup.empty, OpenGroup.weight] using hread.weight_le
  have hsize := g.size_value_le
  omega

/-- There are at most two nodes for a character and one for an empty text, and two states for every node
that is no sequence. -/
theorem Regex.linear_size {text : List Char} {p : Pattern} (h : Pattern.parse text = .ok p) :
    p.size ≤ 2 * text.length + 1 ∧
      ∃ rx, ofText text = .ok rx ∧ rx.pattern = p ∧
        rx.automaton.states.size = 2 * (p.size - p.nodes.countP Pattern.isSeq) ∧
        rx.automaton.states.size ≤ 4 * text.length + 2 := by
  have hsize := Pattern.size_le_of_parse h
  obtain ⟨rx, hrx, rfl⟩ := exists_ofText h
  have hstates : rx.automaton.states.size =
      2 * (rx.pattern.size - rx.pattern.nodes.countP Pattern.isSeq) := by
    rw [rx.automaton_eq]
    exact Automaton.size_ofPattern rx.pattern
  exact ⟨hsize, rx, hrx, rfl, hstates, by omega⟩

/-- Eight nodes for seven characters, one of them a sequence and two of them blank. -/
theorem Regex.linear_size_blanks :
    let p : Pattern := .choice (.seq (.choice .blank (.char 'a'))
      (.quantified (.char 'b') .zeroOrMore)) .blank
    Pattern.parse "(|a)b*|".toList = .ok p ∧ p.size = 8 ∧ p.nodes.countP Pattern.isSeq = 1 ∧
      ∃ rx, ofText "(|a)b*|".toList = .ok rx ∧ rx.automaton.states.size = 14 := by
  intro p
  have hparse : Pattern.parse "(|a)b*|".toList = .ok p := by decide
  have hsize : p.size = 8 := by decide
  have hseq : p.nodes.countP Pattern.isSeq = 1 := by decide
  obtain ⟨-, rx, hrx, -, hstates, -⟩ := linear_size hparse
  rw [hsize, hseq] at hstates
  exact ⟨hparse, hsize, hseq, rx, hrx, hstates⟩

end Regexp
