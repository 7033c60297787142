import Mathlib.Logic.Relation
import Regexp.Pattern.Matches
import Regexp.Proofs.Automaton.Fragment
import Regexp.Proofs.Automaton.Search

/-! The automaton of a pattern matches what the pattern means. A path through a combined automaton is
cut where it leaves an operand, which it can do at the exit only; the pieces are paths of the operands. -/
namespace Regexp

def Configuration.shift (offset : Nat) (x : Configuration) : Configuration :=
  ⟨x.state + offset, x.position⟩

private theorem lookup_map (edges : List (Char × List Nat)) (f : List Nat → List Nat) (ch : Char) :
    (edges.map fun (d, ids) => (d, f ids)).lookup ch = (edges.lookup ch).map f := by
  induction edges with
  | nil => rfl
  | cons edge edges ih =>
    obtain ⟨d, ids⟩ := edge
    simp only [List.map_cons, List.lookup_cons]
    cases ch == d with
    | true => rfl
    | false => exact ih

theorem State.targets_shift (offset : Nat) (s : State) (ch : Char) :
    (s.shift offset).targets ch = (s.targets ch).map (· + offset) := by
  obtain ⟨kind, labelled, silent, final⟩ := s
  cases kind with
  | plain =>
    simp only [targets, shift, StateKind.shift, lookup_map]
    cases labelled.lookup ch <;> rfl
  | any exit => rfl
  | cls k exit =>
    simp only [targets, shift, StateKind.shift]
    split <;> rfl
  | startOfInput exit => rfl
  | endOfInput exit => rfl

namespace Automaton

variable {a b c : Automaton} {input : Array Char} {offset id i j : Nat} {s : State}
  {next : List Nat} {final : Bool} {x y z : Configuration}

/-- A path through the whole automaton that takes the input from `i` to `j`. -/
def Spans (a : Automaton) (input : Array Char) (i j : Nat) : Prop :=
  a.Path input ⟨a.entry, i⟩ ⟨a.exit, j⟩

/-! ### Steps of an operand in a larger arena -/

theorem step_junction_iff (hs : c.states[id]? = some (.junction next final)) :
    c.Step input ⟨id, i⟩ z ↔ ∃ e ∈ next, z = ⟨e, i⟩ := by
  rw [step_iff hs]
  simp [State.junction, State.targets]

theorem step_shift_iff (hs : b.states[id]? = some s)
    (hc : c.states[id + offset]? = some (s.shift offset)) :
    c.Step input ⟨id + offset, i⟩ z ↔ ∃ y, b.Step input ⟨id, i⟩ y ∧ z = y.shift offset := by
  by_cases hk : s.kind.IsAssertion
  · obtain ⟨exit, hk | hk⟩ := StateKind.isAssertion_iff.1 hk <;>
      simp [step_iff hs, step_iff hc, State.shift, hk, StateKind.shift, Configuration.shift]
  · have hk' : ¬ (s.shift offset).kind.IsAssertion := by
      intro h
      apply hk
      cases h' : s.kind <;> simp_all [State.shift, StateKind.shift, StateKind.IsAssertion]
    simp only [step_iff_of_not_isAssertion hs hk, step_iff_of_not_isAssertion hc hk',
      State.targets_shift]
    constructor
    · rintro (⟨e, he, rfl⟩ | ⟨ch, hch, e, he, rfl⟩)
      · obtain ⟨d, hd, rfl⟩ := List.mem_map.1 he
        exact ⟨⟨d, i⟩, .inl ⟨d, hd, rfl⟩, rfl⟩
      · obtain ⟨d, hd, rfl⟩ := List.mem_map.1 he
        exact ⟨⟨d, i + 1⟩, .inr ⟨ch, hch, d, hd, rfl⟩, rfl⟩
    · rintro ⟨y, ⟨d, hd, rfl⟩ | ⟨ch, hch, d, hd, rfl⟩, rfl⟩
      · exact .inl ⟨d + offset, List.mem_map_of_mem hd, rfl⟩
      · exact .inr ⟨ch, hch, d + offset, List.mem_map_of_mem hd, rfl⟩

/-- The states of `b` stand in `c` from `offset` on, and its exit is left along `next`. -/
def Holds (c : Automaton) (offset : Nat) (b : Automaton) (next : List Nat) : Prop :=
  ∃ final, ∀ id < b.states.size, c.states[id + offset]? = b.place offset (.junction next final) id

theorem Holds.getElem?_exit (hc : c.Holds offset b next) (hb : b.IsFragment) :
    ∃ final, c.states[b.exit + offset]? = some (.junction next final) := by
  obtain ⟨final, h⟩ := hc
  exact ⟨final, by rw [h _ hb.exit_lt, place, if_pos rfl]⟩

theorem Holds.getElem?_inner (hc : c.Holds offset b next) (hs : b.states[id]? = some s)
    (hne : id ≠ b.exit) : c.states[id + offset]? = some (s.shift offset) := by
  obtain ⟨final, h⟩ := hc
  have hlt := (Array.getElem?_eq_some_iff.1 hs).1
  rw [h _ hlt, place, if_neg hne, hs]
  rfl

theorem IsFragment.not_step_exit (hb : b.IsFragment) : ¬ b.Step input ⟨b.exit, i⟩ z := by
  simp [step_junction_iff hb.exit_state]

theorem IsFragment.path_exit_iff (hb : b.IsFragment) :
    b.Path input ⟨b.exit, i⟩ z ↔ z = ⟨b.exit, i⟩ := by
  constructor
  · intro h
    cases h with
    | refl => rfl
    | step h _ => exact absurd h hb.not_step_exit
  · rintro rfl
    exact .refl _

/-- A step stays in the arena and never comes back to the entry. -/
theorem IsFragment.of_step (hb : b.IsFragment) (h : b.Step input x y) :
    y.state < b.states.size ∧ y.state ≠ b.entry := by
  obtain ⟨s, hs, hy⟩ := h.exists_state
  exact (hb.fits hs).ids _ hy

/-- A step from a state of the operand is a step of the operand, or leaves it at its exit. -/
theorem Holds.step_cases (hc : c.Holds offset b next) (hb : b.IsFragment)
    (hx : x.state < b.states.size) (h : c.Step input (x.shift offset) z) :
    (∃ y, b.Step input x y ∧ z = y.shift offset) ∨
      x.state = b.exit ∧ ∃ e ∈ next, z = ⟨e, x.position⟩ := by
  by_cases hne : x.state = b.exit
  · obtain ⟨final, hexit⟩ := hc.getElem?_exit hb
    rw [← hne] at hexit
    exact .inr ⟨hne, (step_junction_iff hexit).1 h⟩
  · have hs := Array.getElem?_eq_getElem hx
    exact .inl ((step_shift_iff hs (hc.getElem?_inner hs hne)).1 h)

theorem Holds.step_exit (hc : c.Holds offset b next) (hb : b.IsFragment) {e : Nat} (he : e ∈ next) :
    c.Step input ⟨b.exit + offset, i⟩ ⟨e, i⟩ := by
  obtain ⟨final, hexit⟩ := hc.getElem?_exit hb
  exact (step_junction_iff hexit).2 ⟨e, he, rfl⟩

theorem Holds.step (hc : c.Holds offset b next) (hb : b.IsFragment) (h : b.Step input x y) :
    c.Step input (x.shift offset) (y.shift offset) := by
  obtain ⟨s, hs, _⟩ := h.exists_state
  have hne : x.state ≠ b.exit := by
    obtain ⟨id, i⟩ := x
    rintro rfl
    exact hb.not_step_exit h
  exact (step_shift_iff hs (hc.getElem?_inner hs hne)).2 ⟨y, h, rfl⟩

theorem Holds.path (hc : c.Holds offset b next) (hb : b.IsFragment) (h : b.Path input x y) :
    c.Path input (x.shift offset) (y.shift offset) := by
  induction h with
  | refl => exact .refl _
  | step h _ ih => exact .step (hc.step hb h) ih

/-- A path from a state of the operand stays in the operand, or leaves it at its exit. -/
theorem Holds.path_cases (hc : c.Holds offset b next) (hb : b.IsFragment)
    (hx : x.state < b.states.size) (h : c.Path input (x.shift offset) z) :
    (∃ y, b.Path input x y ∧ y.state < b.states.size ∧ z = y.shift offset) ∨
      ∃ m, b.Path input x ⟨b.exit, m⟩ ∧ ∃ e ∈ next, c.Path input ⟨e, m⟩ z := by
  generalize hw : x.shift offset = w at h
  induction h generalizing x with
  | refl => exact .inl ⟨x, .refl x, hx, hw.symm⟩
  | @step w y z hstep hpath ih =>
    subst hw
    rcases hc.step_cases hb hx hstep with ⟨y, hy, rfl⟩ | ⟨hexit, e, he, rfl⟩
    · rcases ih (hb.of_step hy).1 rfl with ⟨z, hz, hlt, rfl⟩ | ⟨m, hm, e, he, hrest⟩
      · exact .inl ⟨z, .step hy hz, hlt, rfl⟩
      · exact .inr ⟨m, .step hy hm, e, he, hrest⟩
    · refine .inr ⟨x.position, ?_, e, he, hpath⟩
      rw [← hexit]
      exact .refl x

/-! ### What combinations span -/

theorem holds_sequence_left (ha : a.IsFragment) (b : Automaton) :
    (a.sequence b).Holds 0 a [b.entry + a.states.size] :=
  ⟨false, fun _ h => getElem?_sequence_left ha b h⟩

theorem holds_sequence_right (ha : a.IsFragment) (hb : b.IsFragment) :
    (a.sequence b).Holds a.states.size b [] :=
  ⟨true, fun id _ => getElem?_sequence_right ha hb id⟩

theorem spans_sequence (ha : a.IsFragment) (hb : b.IsFragment) :
    (a.sequence b).Spans input i j ↔ ∃ m, a.Spans input i m ∧ b.Spans input m j := by
  have hleft := holds_sequence_left ha b
  have hright := holds_sequence_right ha hb
  constructor
  · intro h
    rcases hleft.path_cases (x := ⟨a.entry, i⟩) ha ha.entry_lt h with
      ⟨y, _, hlt, heq⟩ | ⟨m, hm, e, he, hrest⟩
    · have hexit : b.exit + a.states.size = y.state := congrArg Configuration.state heq
      omega
    · cases List.mem_singleton.1 he
      rcases hright.path_cases (x := ⟨b.entry, m⟩) hb hb.entry_lt hrest with
        ⟨y, hy, _, heq⟩ | ⟨_, _, e, he, _⟩
      · obtain ⟨id, k⟩ := y
        simp only [Configuration.shift, Configuration.mk.injEq] at heq
        obtain rfl : b.exit = id := Nat.add_right_cancel heq.1
        obtain rfl : j = k := heq.2
        exact ⟨m, hm, hy⟩
      · cases he
  · rintro ⟨m, hm, hj⟩
    have hstep : (a.sequence b).Step input ⟨a.exit, m⟩ ⟨b.entry + a.states.size, m⟩ :=
      hleft.step_exit ha (List.mem_singleton_self _)
    exact (hleft.path ha hm).trans (.step hstep (hright.path hb hj))

theorem IsFramed.step_entry_iff (hc : c.IsFramed next) :
    c.Step input ⟨0, i⟩ z ↔ ∃ e ∈ next, z = ⟨e, i⟩ :=
  step_junction_iff hc.entry_state

theorem IsFramed.spans_iff (hc : c.IsFramed next) :
    c.Spans input i j ↔ ∃ e ∈ next, c.Path input ⟨e, i⟩ ⟨1, j⟩ := by
  rw [Spans, hc.entry_eq, hc.exit_eq]
  constructor
  · intro h
    cases h with
    | step h hrest =>
      obtain ⟨e, he, rfl⟩ := hc.step_entry_iff.1 h
      exact ⟨e, he, hrest⟩
  · rintro ⟨e, he, hrest⟩
    exact .step (hc.step_entry_iff.2 ⟨e, he, rfl⟩) hrest

theorem IsFramed.path_exit_iff (hc : c.IsFramed next) (hfragment : c.IsFragment) :
    c.Path input ⟨1, i⟩ ⟨1, j⟩ ↔ i = j := by
  rw [← hc.exit_eq, hfragment.path_exit_iff]
  simp [eq_comm]

theorem IsFramed.path_operand_iff (hc : c.IsFramed next) (hfragment : c.IsFragment)
    (hb : b.IsFragment) (hholds : c.Holds offset b [1]) (hoffset : 2 ≤ offset) :
    c.Path input ⟨b.entry + offset, i⟩ ⟨1, j⟩ ↔ b.Spans input i j := by
  constructor
  · intro h
    rcases hholds.path_cases (x := ⟨b.entry, i⟩) hb hb.entry_lt h with
      ⟨y, _, _, heq⟩ | ⟨m, hm, e, he, hrest⟩
    · have hexit : 1 = y.state + offset := congrArg Configuration.state heq
      omega
    · cases List.mem_singleton.1 he
      rw [hc.path_exit_iff hfragment] at hrest
      exact hrest ▸ hm
  · intro h
    have hstep : c.Step input ⟨b.exit + offset, j⟩ ⟨1, j⟩ :=
      hholds.step_exit hb (List.mem_singleton_self 1)
    exact (hholds.path hb h).trans (.step hstep (.refl _))

theorem spans_alternation (ha : a.IsFragment) (hb : b.IsFragment) :
    (a.alternation b).Spans input i j ↔ a.Spans input i j ∨ b.Spans input i j := by
  have hframed := isFramed_alternation a b
  have hfragment := isFragment_alternation ha hb
  have hleft : (a.alternation b).Holds 2 a [1] :=
    ⟨false, fun _ h => getElem?_alternation_left ha b h⟩
  have hright : (a.alternation b).Holds (2 + a.states.size) b [1] :=
    ⟨false, fun id _ => getElem?_alternation_right a hb id⟩
  rw [hframed.spans_iff, ← hframed.path_operand_iff hfragment ha hleft (by omega),
    ← hframed.path_operand_iff hfragment hb hright (by omega)]
  simp

/-- A path from inside a loop comes to its exit, and from there runs through the loop any number of
times. -/
theorem IsFramed.path_loop (hc : c.IsFramed next) (hfragment : c.IsFragment) (hb : b.IsFragment)
    (hholds : c.Holds offset b [1, b.entry + offset]) (hoffset : 2 ≤ offset)
    (hx : x.state < b.states.size) (h : c.Path input (x.shift offset) ⟨1, j⟩) :
    ∃ m, b.Path input x ⟨b.exit, m⟩ ∧ Relation.ReflTransGen (b.Spans input) m j := by
  generalize hw : x.shift offset = w at h
  generalize hz : (⟨1, j⟩ : Configuration) = z at h
  induction h generalizing x with
  | refl =>
    have hexit : x.state + offset = 1 := congrArg Configuration.state (hw.trans hz.symm)
    omega
  | @step w y z hstep hpath ih =>
    subst hw
    rcases hholds.step_cases hb hx hstep with ⟨y, hy, rfl⟩ | ⟨hexit, e, he, rfl⟩
    · obtain ⟨m, hm, hrest⟩ := ih (hb.of_step hy).1 rfl hz
      exact ⟨m, .step hy hm, hrest⟩
    · refine ⟨x.position, by rw [← hexit]; exact .refl x, ?_⟩
      rcases List.mem_pair.1 he with rfl | rfl
      · rw [← hz, hc.path_exit_iff hfragment] at hpath
        rw [hpath]
      · obtain ⟨m, hm, hrest⟩ := ih (x := ⟨b.entry, x.position⟩) hb.entry_lt rfl hz
        exact .head hm hrest

theorem IsFramed.path_loop_iff (hc : c.IsFramed next) (hfragment : c.IsFragment)
    (hb : b.IsFragment) (hholds : c.Holds offset b [1, b.entry + offset]) (hoffset : 2 ≤ offset) :
    c.Path input ⟨b.entry + offset, i⟩ ⟨1, j⟩ ↔ Relation.TransGen (b.Spans input) i j := by
  constructor
  · intro h
    obtain ⟨m, hm, hrest⟩ :=
      hc.path_loop hfragment hb hholds hoffset (x := ⟨b.entry, i⟩) hb.entry_lt h
    exact .head' hm hrest
  · intro h
    induction h using Relation.TransGen.head_induction_on with
    | single h =>
      have hstep : c.Step input ⟨b.exit + offset, j⟩ ⟨1, j⟩ := hholds.step_exit hb (by simp)
      exact (hholds.path hb h).trans (.step hstep (.refl _))
    | @head i m h _ ih =>
      have hstep : c.Step input ⟨b.exit + offset, m⟩ ⟨b.entry + offset, m⟩ :=
        hholds.step_exit hb (by simp)
      exact (hholds.path hb h).trans (.step hstep ih)

theorem spans_repeated (loops skips : Bool) (ha : a.IsFragment) :
    (a.repeated loops skips).Spans input i j ↔
      skips = true ∧ i = j ∨
        if loops then Relation.TransGen (a.Spans input) i j else a.Spans input i j := by
  have hframed := isFramed_repeated loops skips a
  have hfragment := isFragment_repeated loops skips ha
  have hholds : (a.repeated loops skips).Holds 2 a (1 :: if loops then [a.entry + 2] else []) :=
    ⟨false, fun id _ => getElem?_repeated loops skips ha id⟩
  have hbody : (a.repeated loops skips).Path input ⟨a.entry + 2, i⟩ ⟨1, j⟩ ↔
      if loops then Relation.TransGen (a.Spans input) i j else a.Spans input i j := by
    cases loops with
    | true => exact hframed.path_loop_iff hfragment ha hholds (by omega)
    | false => exact hframed.path_operand_iff hfragment ha hholds (by omega)
  have hskip : (a.repeated loops skips).Path input ⟨1, i⟩ ⟨1, j⟩ ↔ i = j :=
    hframed.path_exit_iff hfragment
  rw [hframed.spans_iff, ← hbody, ← hskip]
  cases skips <;> simp [or_comm]

/-! ### Single characters and assertions -/

theorem getElem?_pair_entry (entry : Nat → State) : (pair entry).states[0]? = some (entry 1) := rfl

theorem spans_pair {entry : Nat → State} (h : (pair entry).IsFragment) :
    (pair entry).Spans input i j ↔ (pair entry).Step input ⟨0, i⟩ ⟨1, j⟩ := by
  constructor
  · intro hpath
    cases hpath with
    | @step _ y _ hstep hrest =>
      obtain ⟨id, k⟩ := y
      obtain ⟨hlt, hne⟩ := h.of_step hstep
      have hid : id = (pair entry).exit := by
        change id < 2 at hlt
        change id ≠ 0 at hne
        change id = 1
        omega
      subst hid
      cases h.path_exit_iff.1 hrest
      exact hstep
  · intro hstep
    exact .step hstep (.refl _)

theorem spans_char (ch : Char) :
    (char ch).Spans input i j ↔ input[i]? = some ch ∧ j = i + 1 := by
  have htargets (d : Char) : ((State.ofKind .plain).addLabelled ch 1).targets d =
      if d = ch then [1] else [] := by
    simp only [State.targets, State.ofKind, State.addLabelled, insertEdge, List.lookup_cons]
    by_cases h : d = ch
    · simp [h]
    · simp [h, beq_eq_false_iff_ne.2 h]
  rw [char, spans_pair (isFragment_char ch), step_iff_of_not_isAssertion (getElem?_pair_entry _)
    (by simp [State.ofKind, State.addLabelled, StateKind.IsAssertion])]
  simp only [htargets]
  simp [State.ofKind, State.addLabelled]

theorem spans_any : any.Spans input i j ↔ i < input.size ∧ j = i + 1 := by
  have hsome : (∃ ch, input[i]? = some ch) ↔ i < input.size := by
    rw [← Option.isSome_iff_exists]
    simp
  rw [any, spans_pair (isFragment_ofKind rfl), step_iff (getElem?_pair_entry _)]
  simp [State.ofKind, State.targets, ← hsome]

theorem spans_cls (k : CharClass) :
    (cls k).Spans input i j ↔ (∃ ch, input[i]? = some ch ∧ ch ∈ k) ∧ j = i + 1 := by
  rw [cls, spans_pair (isFragment_ofKind rfl), step_iff (getElem?_pair_entry _)]
  simp [State.ofKind, State.targets, ← and_assoc, exists_and_right]

theorem spans_startOfInput : startOfInput.Spans input i j ↔ i = 0 ∧ j = 0 := by
  rw [startOfInput, spans_pair (isFragment_ofKind rfl), step_iff (getElem?_pair_entry _)]
  simp +contextual [State.ofKind]

theorem spans_endOfInput : endOfInput.Spans input i j ↔ i = input.size ∧ j = input.size := by
  rw [endOfInput, spans_pair (isFragment_ofKind rfl), step_iff (getElem?_pair_entry _)]
  simp +contextual [State.ofKind]

theorem spans_empty : empty.Spans input i j ↔ i = j := by
  rw [empty, spans_pair isFragment_empty, step_iff (getElem?_pair_entry _)]
  simp [State.ofKind, State.addSilent, State.targets, eq_comm]

/-! ### Patterns -/

theorem spans_quantified (q : Quantifier) (ha : a.IsFragment) {p : Pattern}
    (h : ∀ i j, a.Spans input i j ↔ p.Matches input i j) :
    (a.quantified q).Spans input i j ↔ (Pattern.quantified p q).Matches input i j := by
  have heq : a.Spans input = p.Matches input := funext fun i => funext fun j => propext (h i j)
  cases q
  · exact (spans_repeated true true ha).trans (by simp [heq, Pattern.Matches])
  · exact (spans_repeated true false ha).trans (by simp [heq, Pattern.Matches])
  · exact (spans_repeated false true ha).trans (by simp [heq, Pattern.Matches])

theorem spans_ofPattern (p : Pattern) :
    (ofPattern p).Spans input i j ↔ p.Matches input i j := by
  induction p generalizing i j with
  | choice p q ihp ihq =>
    exact (spans_alternation (isFragment_ofPattern p) (isFragment_ofPattern q)).trans
      (or_congr ihp ihq)
  | seq p q ihp ihq =>
    exact (spans_sequence (isFragment_ofPattern p) (isFragment_ofPattern q)).trans
      (exists_congr fun _ => and_congr ihp ihq)
  | quantified p q ih => exact spans_quantified q (isFragment_ofPattern p) fun _ _ => ih
  | cls k => exact spans_cls k
  | char ch => exact spans_char ch
  | any => exact spans_any
  | startOfInput => exact spans_startOfInput
  | endOfInput => exact spans_endOfInput
  | blank => exact spans_empty

theorem IsFragment.accepting_iff (ha : a.IsFragment) {anchored : Bool} :
    a.Accepting input anchored x ↔
      x.state = a.exit ∧ (anchored = true → input.size ≤ x.position) := by
  constructor
  · rintro ⟨⟨s, hs, hfinal, _⟩, hend⟩
    exact ⟨(ha.fits hs).final_iff.1 hfinal, hend⟩
  · rintro ⟨hexit, hend⟩
    refine ⟨⟨_, hexit ▸ ha.exit_state, rfl, ?_⟩, hend⟩
    simp [State.junction, StateKind.IsAssertion]

theorem IsFragment.accepts_iff (ha : a.IsFragment) (start : Nat) (anchored : Bool) :
    a.Accepts input start anchored ↔
      ∃ j, a.Spans input start j ∧ (anchored = true → input.size ≤ j) := by
  constructor
  · rintro ⟨⟨id, j⟩, hpath, haccept⟩
    obtain ⟨rfl, hend⟩ := ha.accepting_iff.1 haccept
    exact ⟨j, hpath, hend⟩
  · rintro ⟨j, hpath, hend⟩
    exact ⟨⟨a.exit, j⟩, hpath, ha.accepting_iff.2 ⟨rfl, hend⟩⟩

theorem IsFragment.matchesFrom_iff (ha : a.IsFragment) (input : Array Char) (start : Nat)
    (anchored : Bool) :
    a.matchesFrom input start anchored = true ↔
      ∃ j, a.Spans input start j ∧ (anchored = true → input.size ≤ j) := by
  obtain ⟨found, visited, heq, hiff⟩ := search_eq_some ha.inArena input start anchored
  rw [← ha.accepts_iff, ← hiff, matchesFrom, heq]
  rfl

theorem matchesFrom_ofPattern (p : Pattern) (input : Array Char) (start : Nat) (anchored : Bool) :
    (ofPattern p).matchesFrom input start anchored = true ↔
      ∃ j, p.Matches input start j ∧ (anchored = true → input.size ≤ j) := by
  simp only [(isFragment_ofPattern p).matchesFrom_iff, spans_ofPattern]

/-- From every start a search finds a match of the pattern, and an anchored one finds a match that ends
with the input. -/
theorem matchesFrom_iff_matches (p : Pattern) (input : Array Char) (start : Nat) :
    ((ofPattern p).matchesFrom input start false = true ↔ ∃ j, p.Matches input start j) ∧
      ((ofPattern p).matchesFrom input start true = true ↔
        ∃ j, input.size ≤ j ∧ p.Matches input start j) := by
  constructor
  · simp [matchesFrom_ofPattern]
  · simp [matchesFrom_ofPattern, and_comm]

end Automaton

end Regexp
