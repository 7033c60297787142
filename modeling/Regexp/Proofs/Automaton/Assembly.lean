import Regexp.Proofs.Automaton.Fragment

/-! Automata put together in any nesting, from single states up. Every one of them is a fragment, so
what holds of fragments holds of all that can be built. -/
namespace Regexp.Automaton

variable {a b : Automaton} {items : List Automaton}

/-! ### Combinations of lists -/

theorem isFragment_foldl {combine : Automaton → Automaton → Automaton}
    (hcombine : ∀ {a b : Automaton}, a.IsFragment → b.IsFragment → (combine a b).IsFragment)
    (ha : a.IsFragment) (hitems : ∀ b ∈ items, b.IsFragment) :
    (items.foldl combine a).IsFragment := by
  induction items generalizing a with
  | nil => exact ha
  | cons b items ih =>
    rw [List.forall_mem_cons] at hitems
    exact ih (hcombine ha hitems.1) hitems.2

theorem isFragment_sequenceOf (h : ∀ a ∈ items, a.IsFragment) : (sequenceOf items).IsFragment :=
  isFragment_foldl isFragment_sequence isFragment_empty h

theorem isFragment_literal (text : List Char) : (literal text).IsFragment := by
  apply isFragment_sequenceOf
  intro a ha
  obtain ⟨c, _, rfl⟩ := List.mem_map.1 ha
  exact isFragment_char c

theorem isFragment_of_alternationOf? (h : ∀ b ∈ items, b.IsFragment)
    (ha : alternationOf? items = some a) : a.IsFragment := by
  cases items with
  | nil => contradiction
  | cons b items =>
    cases ha
    rw [List.forall_mem_cons] at h
    exact isFragment_foldl isFragment_alternation h.1 h.2

/-! ### All that can be built -/

/-- What the constructors and the combinations make, in any finite nesting. -/
inductive Built : Automaton → Prop where
  | char (c : Char) : Built (char c)
  | any : Built any
  | cls (k : CharClass) : Built (cls k)
  | range (c d : Char) (inside : Bool) : Built (range c d inside)
  | startOfInput : Built startOfInput
  | endOfInput : Built endOfInput
  | empty : Built empty
  | literal (text : List Char) : Built (literal text)
  | ofPattern (p : Pattern) : Built (ofPattern p)
  | sequence {a b : Automaton} (ha : Built a) (hb : Built b) : Built (a.sequence b)
  | alternation {a b : Automaton} (ha : Built a) (hb : Built b) : Built (a.alternation b)
  | zeroOrMore {a : Automaton} (ha : Built a) : Built a.zeroOrMore
  | oneOrMore {a : Automaton} (ha : Built a) : Built a.oneOrMore
  | zeroOrOne {a : Automaton} (ha : Built a) : Built a.zeroOrOne
  | sequenceOf {items : List Automaton} (h : ∀ a ∈ items, Built a) : Built (sequenceOf items)
  | alternationOf {items : List Automaton} {a : Automaton} (h : ∀ b ∈ items, Built b)
      (ha : alternationOf? items = some a) : Built a

theorem Built.isFragment (h : a.Built) : a.IsFragment := by
  induction h with
  | char c => exact isFragment_char c
  | any => exact isFragment_ofKind rfl
  | cls k => exact isFragment_ofKind rfl
  | range c d inside => exact isFragment_ofKind rfl
  | startOfInput => exact isFragment_ofKind rfl
  | endOfInput => exact isFragment_ofKind rfl
  | empty => exact isFragment_empty
  | literal text => exact isFragment_literal text
  | ofPattern p => exact isFragment_ofPattern p
  | sequence _ _ iha ihb => exact isFragment_sequence iha ihb
  | alternation _ _ iha ihb => exact isFragment_alternation iha ihb
  | zeroOrMore _ ih => exact isFragment_repeated true true ih
  | oneOrMore _ ih => exact isFragment_repeated true false ih
  | zeroOrOne _ ih => exact isFragment_repeated false true ih
  | sequenceOf _ ih => exact isFragment_sequenceOf ih
  | alternationOf _ ha ih => exact isFragment_of_alternationOf? ih ha

theorem IsFragment.isFinal_iff (ha : a.IsFragment) (id : Nat) :
    (∃ s, a.states[id]? = some s ∧ s.final = true) ↔ id = a.exit := by
  constructor
  · rintro ⟨s, hs, hfinal⟩
    exact (ha.fits hs).final_iff.1 hfinal
  · rintro rfl
    exact ⟨_, ha.exit_state, rfl⟩

theorem IsFragment.exists_fits (ha : a.IsFragment) {s : State} (hs : s ∈ a.states) :
    ∃ id, a.Fits id s := by
  obtain ⟨id, hid⟩ := Array.mem_iff_getElem?.1 hs
  exact ⟨id, ha.fits hid⟩

/-- The automaton refers to its own states only, is final at its exit only, is not left from there, is
not entered again once its entry is left, and leaves a state with a kind of its own by that kind. -/
theorem built_invariant (h : a.Built) :
    a.InArena ∧
      (∀ id, (∃ s, a.states[id]? = some s ∧ s.final = true) ↔ id = a.exit) ∧
      a.states[a.exit]? = some ⟨.plain, [], [], true⟩ ∧
      a.entry ≠ a.exit ∧
      (∀ s ∈ a.states, a.entry ∉ s.ids) ∧
      ∀ s ∈ a.states, s.kind ≠ .plain → s.labelled = [] ∧ s.silent = [] := by
  have hfragment := h.isFragment
  refine ⟨hfragment.inArena, hfragment.isFinal_iff, hfragment.exit_state, hfragment.entry_ne_exit,
    ?_, ?_⟩
  · intro s hs hentry
    obtain ⟨id, hfits⟩ := hfragment.exists_fits hs
    exact (hfits.ids a.entry hentry).2 rfl
  · intro s hs
    obtain ⟨id, hfits⟩ := hfragment.exists_fits hs
    exact hfits.bare

/-- A loop around a list of operands, among them an optional assertion and a repeated class. -/
theorem built_invariant_nested :
    let items := [literal ['a', 'b'], startOfInput.zeroOrOne, (range '0' '9' false).oneOrMore]
    let a := (sequenceOf items).zeroOrMore
    a.Built ∧ a.InArena ∧
      (∀ id, (∃ s, a.states[id]? = some s ∧ s.final = true) ↔ id = a.exit) ∧
      a.states[a.exit]? = some ⟨.plain, [], [], true⟩ ∧
      a.entry ≠ a.exit ∧
      (∀ s ∈ a.states, a.entry ∉ s.ids) ∧
      ∀ s ∈ a.states, s.kind ≠ .plain → s.labelled = [] ∧ s.silent = [] := by
  intro items a
  have hitems : ∀ b ∈ items, b.Built := by
    simp only [items, List.forall_mem_cons]
    exact ⟨.literal _, Built.startOfInput.zeroOrOne, (Built.range '0' '9' false).oneOrMore,
      List.forall_mem_nil _⟩
  have ha : a.Built := (Built.sequenceOf hitems).zeroOrMore
  exact ⟨ha, built_invariant ha⟩

end Regexp.Automaton
