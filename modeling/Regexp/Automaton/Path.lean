import Regexp.Automaton.Basic

/-! The paths of an automaton through an input, as a relation on configurations and with no search. -/
namespace Regexp

structure Configuration where
  state : Nat
  position : Nat
deriving DecidableEq, Repr

/-- An assertion passes to its exit at its end of the input and has no other edges. -/
def StateKind.IsAssertion : StateKind → Prop
  | startOfInput _ => True
  | endOfInput _ => True
  | _ => False

theorem StateKind.isAssertion_iff {k : StateKind} :
    k.IsAssertion ↔ ∃ exit, k = startOfInput exit ∨ k = endOfInput exit := by
  cases k <;> simp [IsAssertion]

namespace Automaton

inductive Step (a : Automaton) (input : Array Char) : Configuration → Configuration → Prop where
  | start {id exit : Nat} {s : State} (hs : a.states[id]? = some s)
      (hk : s.kind = .startOfInput exit) : Step a input ⟨id, 0⟩ ⟨exit, 0⟩
  | finish {id exit : Nat} {s : State} (hs : a.states[id]? = some s)
      (hk : s.kind = .endOfInput exit) : Step a input ⟨id, input.size⟩ ⟨exit, input.size⟩
  | silent {id next position : Nat} {s : State} (hs : a.states[id]? = some s)
      (hk : ¬ s.kind.IsAssertion) (hn : next ∈ s.silent) :
      Step a input ⟨id, position⟩ ⟨next, position⟩
  | consume {id next position : Nat} {s : State} {c : Char} (hs : a.states[id]? = some s)
      (hc : input[position]? = some c) (hn : next ∈ s.targets c) :
      Step a input ⟨id, position⟩ ⟨next, position + 1⟩

inductive Path (a : Automaton) (input : Array Char) : Configuration → Configuration → Prop where
  | refl (x : Configuration) : Path a input x x
  | step {x y z : Configuration} (h : Step a input x y) (p : Path a input y z) : Path a input x z

/-- A configuration at which a search may stop. An anchored one has to reach the end of the input. -/
def Accepting (a : Automaton) (input : Array Char) (anchored : Bool) (x : Configuration) : Prop :=
  (∃ s, a.states[x.state]? = some s ∧ s.final = true ∧ ¬ s.kind.IsAssertion) ∧
    (anchored = true → input.size ≤ x.position)

def Accepts (a : Automaton) (input : Array Char) (start : Nat) (anchored : Bool) : Prop :=
  ∃ x, a.Path input ⟨a.entry, start⟩ x ∧ a.Accepting input anchored x

/-- Every id in the automaton is the place of a state. -/
structure InArena (a : Automaton) : Prop where
  entry_lt : a.entry < a.states.size
  exit_lt : a.exit < a.states.size
  ids_lt : ∀ s ∈ a.states, ∀ id ∈ s.ids, id < a.states.size

variable {a : Automaton} {input : Array Char} {id position : Nat} {s : State} {x y z : Configuration}

theorem Path.trans (p : a.Path input x y) (q : a.Path input y z) : a.Path input x z := by
  induction p with
  | refl => exact q
  | step h _ ih => exact .step h (ih q)

theorem Step.exists_state (h : a.Step input x y) :
    ∃ s, a.states[x.state]? = some s ∧ y.state ∈ s.ids := by
  cases h with
  | start hs hk => exact ⟨_, hs, State.exit_mem_ids (by rw [hk]; rfl)⟩
  | finish hs hk => exact ⟨_, hs, State.exit_mem_ids (by rw [hk]; rfl)⟩
  | silent hs _ hn => exact ⟨_, hs, State.silent_subset_ids _ hn⟩
  | consume hs _ hn => exact ⟨_, hs, State.targets_subset_ids _ _ hn⟩

theorem step_iff (hs : a.states[id]? = some s) :
    a.Step input ⟨id, position⟩ y ↔
      match s.kind with
      | .startOfInput exit => position = 0 ∧ y = ⟨exit, position⟩
      | .endOfInput exit => position = input.size ∧ y = ⟨exit, position⟩
      | _ => (∃ next ∈ s.silent, y = ⟨next, position⟩) ∨
          ∃ c, input[position]? = some c ∧ ∃ next ∈ s.targets c, y = ⟨next, position + 1⟩ := by
  constructor
  · intro h
    cases h with
    | start ht hk =>
      cases hs.symm.trans ht
      simp [hk]
    | finish ht hk =>
      cases hs.symm.trans ht
      simp [hk]
    | silent ht hk hn =>
      cases hs.symm.trans ht
      cases hkind : s.kind <;> simp_all [StateKind.IsAssertion]
    | consume ht hc hn =>
      cases hs.symm.trans ht
      cases hkind : s.kind <;> simp_all [State.targets]
  · intro h
    split at h
    · next hk =>
      obtain ⟨rfl, rfl⟩ := h
      exact .start hs hk
    · next hk =>
      obtain ⟨rfl, rfl⟩ := h
      exact .finish hs hk
    · next hstart hfinish =>
      rcases h with ⟨next, hn, rfl⟩ | ⟨c, hc, next, hn, rfl⟩
      · refine .silent hs ?_ hn
        cases hk : s.kind <;> simp_all [StateKind.IsAssertion]
      · exact .consume hs hc hn

theorem step_iff_of_not_isAssertion (hs : a.states[id]? = some s) (hk : ¬ s.kind.IsAssertion) :
    a.Step input ⟨id, position⟩ y ↔
      (∃ next ∈ s.silent, y = ⟨next, position⟩) ∨
        ∃ c, input[position]? = some c ∧ ∃ next ∈ s.targets c, y = ⟨next, position + 1⟩ := by
  rw [step_iff hs]
  cases h : s.kind <;> simp_all [StateKind.IsAssertion]

theorem accepting_iff (hs : a.states[id]? = some s) {anchored : Bool} :
    a.Accepting input anchored ⟨id, position⟩ ↔
      (s.final = true ∧ ¬ s.kind.IsAssertion) ∧ (anchored = true → input.size ≤ position) := by
  simp [Accepting, hs]

theorem InArena.lt_of_mem_ids (ha : a.InArena) (hs : a.states[id]? = some s) {next : Nat}
    (h : next ∈ s.ids) : next < a.states.size :=
  ha.ids_lt s (Array.mem_of_getElem? hs) next h

end Automaton

end Regexp
