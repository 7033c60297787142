import Regexp.Automaton.Basic
import Regexp.BitSet

/-! Matching by backtracking. A branch ends at a state that was entered before at the same position of
the input, so loops that consume nothing do no harm. -/
namespace Regexp.Automaton

/-- What a search returns: whether it succeeded, and the states entered at its position. Without an
outcome the budget was too small. -/
abbrev Outcome := Option (Bool × BitSet)

def tryInTurn (attempt : Nat → BitSet → Outcome) : List Nat → BitSet → Outcome
  | [], visited => some (false, visited)
  | id :: ids, visited =>
    match attempt id visited with
    | some (false, visited) => tryInTurn attempt ids visited
    | outcome => outcome

def tryAfresh (attempt : Nat → Outcome) : List Nat → Option Bool
  | [] => some false
  | id :: ids =>
    match attempt id with
    | some (false, _) => tryAfresh attempt ids
    | outcome => outcome.map Prod.fst

/-- Searches on from a state. The budget bounds the length of the branch. An anchored search has to consume
the whole input. -/
def explore (a : Automaton) (input : Array Char) (anchored : Bool) :
    (budget id position : Nat) → BitSet → Outcome
  | 0, _, _, _ => none
  | budget + 1, id, position, visited =>
    match visited.insert id with
    | (false, visited) => some (false, visited)
    | (true, visited) =>
      match a.states[id]? with
      | none => some (false, visited)
      | some s =>
        match s.kind with
        | .startOfInput exit =>
          if position = 0 then explore a input anchored budget exit position visited
          else some (false, visited)
        | .endOfInput exit =>
          if position = input.size then explore a input anchored budget exit position visited
          else some (false, visited)
        | _ =>
          let onward := tryInTurn (fun id => explore a input anchored budget id position) s.silent
          match input[position]? with
          | none => if s.final then some (true, visited) else onward visited
          | some c =>
            let fresh := BitSet.emptyWithCapacity a.states.size
            let consume := fun id => explore a input anchored budget id (position + 1) fresh
            match tryAfresh consume (s.targets c) with
            | none => none
            | some true => some (true, visited)
            | some false =>
              match onward visited with
              | some (false, visited) => some (!anchored && s.final, visited)
              | outcome => outcome

/-- No branch is longer: it enters each state at most once at each position. -/
def branchBound (a : Automaton) (input : Array Char) (start : Nat) : Nat :=
  a.states.size * (input.size - start + 1) + 1

def search (a : Automaton) (input : Array Char) (start : Nat) (anchored : Bool) : Outcome :=
  a.explore input anchored (a.branchBound input start) a.entry start
    (BitSet.emptyWithCapacity a.states.size)

def matchesFrom (a : Automaton) (input : Array Char) (start : Nat) (anchored : Bool) : Bool :=
  (a.search input start anchored).any Prod.fst

end Regexp.Automaton
