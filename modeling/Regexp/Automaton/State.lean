import Regexp.CharClass

/-! The states of an automaton. A state refers to others by their places in the arena. -/
namespace Regexp

/-- What a state does besides following its edges. The kinds with a class of characters consume one
into their exit, the two assertions pass to theirs without consuming. -/
inductive StateKind where
  | plain
  | any (exit : Nat)
  | cls (k : CharClass) (exit : Nat)
  | startOfInput (exit : Nat)
  | endOfInput (exit : Nat)
deriving DecidableEq, Repr

structure State where
  kind : StateKind
  /-- The edges that consume a character, in the order of the characters. -/
  labelled : List (Char × List Nat)
  /-- The edges that consume nothing. -/
  silent : List Nat
  final : Bool
deriving DecidableEq, Repr

def insertEdge (c : Char) (target : Nat) : List (Char × List Nat) → List (Char × List Nat)
  | [] => [(c, [target])]
  | (d, ids) :: edges =>
    if c = d then (d, ids ++ [target]) :: edges
    else if c < d then (c, [target]) :: (d, ids) :: edges
    else (d, ids) :: insertEdge c target edges

def StateKind.shift (offset : Nat) : StateKind → StateKind
  | plain => plain
  | any exit => any (exit + offset)
  | cls k exit => cls k (exit + offset)
  | startOfInput exit => startOfInput (exit + offset)
  | endOfInput exit => endOfInput (exit + offset)

def StateKind.exit? : StateKind → Option Nat
  | plain => none
  | any exit => some exit
  | cls _ exit => some exit
  | startOfInput exit => some exit
  | endOfInput exit => some exit

namespace State

def ofKind (kind : StateKind) : State := ⟨kind, [], [], false⟩

def addLabelled (s : State) (c : Char) (target : Nat) : State :=
  { s with labelled := insertEdge c target s.labelled }

def addSilent (s : State) (target : Nat) : State := { s with silent := s.silent ++ [target] }

def withFinal (s : State) (final : Bool) : State := { s with final }

def targets (s : State) (c : Char) : List Nat :=
  match s.kind with
  | .plain => (s.labelled.lookup c).getD []
  | .any exit => [exit]
  | .cls k exit => if c ∈ k then [exit] else []
  | .startOfInput _ => []
  | .endOfInput _ => []

def ids (s : State) : List Nat :=
  s.kind.exit?.toList ++ s.labelled.flatMap Prod.snd ++ s.silent

def shift (offset : Nat) (s : State) : State where
  kind := s.kind.shift offset
  labelled := s.labelled.map fun (c, ids) => (c, ids.map (· + offset))
  silent := s.silent.map (· + offset)
  final := s.final

theorem exit_mem_ids {s : State} {id : Nat} (h : s.kind.exit? = some id) : id ∈ s.ids := by
  simp [ids, h]

theorem silent_subset_ids (s : State) : s.silent ⊆ s.ids := by
  intro id h
  simp [ids, h]

theorem targets_subset_ids (s : State) (c : Char) : s.targets c ⊆ s.ids := by
  intro id h
  unfold targets at h
  split at h
  · obtain ⟨ids, hids, hid⟩ : ∃ ids, s.labelled.lookup c = some ids ∧ id ∈ ids := by
      cases hl : s.labelled.lookup c with
      | none => simp [hl] at h
      | some ids => exact ⟨ids, rfl, by simpa [hl] using h⟩
    obtain ⟨before, after, heq, _⟩ := List.lookup_eq_some_iff.1 hids
    simp only [State.ids, heq, List.mem_append, List.mem_flatMap]
    exact .inl (.inr ⟨(c, ids), by simp, hid⟩)
  · next exit hk =>
    cases List.mem_singleton.1 h
    exact exit_mem_ids (by simp [hk, StateKind.exit?])
  · next k exit hk =>
    split at h
    · cases List.mem_singleton.1 h
      exact exit_mem_ids (by simp [hk, StateKind.exit?])
    · cases h
  · cases h
  · cases h

end State

end Regexp
