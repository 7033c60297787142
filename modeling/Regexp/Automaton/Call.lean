import Regexp.Automaton.Path
import Regexp.Automaton.Search

/-! The calls that a search is made of. A call ends at once, or it makes others one after the other, each
only if those before it have failed. -/
namespace Regexp

structure Call where
  state : Nat
  position : Nat
  visited : BitSet
deriving DecidableEq, Repr

def Call.entered (x : Call) : BitSet := (x.visited.insert x.state).2

/-- The exit of an assertion that holds at the position. -/
def StateKind.passage? (k : StateKind) (input : Array Char) (position : Nat) : Option Nat :=
  match k with
  | startOfInput exit => if position = 0 then some exit else none
  | endOfInput exit => if position = input.size then some exit else none
  | _ => none

/-- The ids are tried in turn until the trial comes to one of them, with the states that the failures
before it have left. -/
inductive Tried (fails : Nat → BitSet → BitSet → Prop) :
    List Nat → BitSet → Nat → BitSet → Prop where
  | first {id : Nat} {ids : List Nat} {visited : BitSet} :
      Tried fails (id :: ids) visited id visited
  | later {id next : Nat} {ids : List Nat} {before between after : BitSet}
      (h : fails id before between) (ht : Tried fails ids between next after) :
      Tried fails (id :: ids) before next after

namespace Automaton

def freshCall (a : Automaton) (id position : Nat) : Call :=
  ⟨id, position, .emptyWithCapacity a.states.size⟩

def runCall (a : Automaton) (input : Array Char) (anchored : Bool) (budget : Nat) (x : Call) :
    Outcome :=
  a.explore input anchored budget x.state x.position x.visited

/-- The call ends in vain, and `after` are the states entered at its position by then. -/
def Fails (a : Automaton) (input : Array Char) (anchored : Bool) (x : Call) (after : BitSet) : Prop :=
  ∃ budget, a.runCall input anchored budget x = some (false, after)

def Enters (a : Automaton) (x : Call) (s : State) : Prop :=
  x.state ∉ x.visited ∧ a.states[x.state]? = some s

inductive Calls (a : Automaton) (input : Array Char) (anchored : Bool) (x : Call) : Call → Prop where
  | passes {s : State} {exit : Nat} (hs : a.Enters x s)
      (hk : s.kind.passage? input x.position = some exit) :
      Calls a input anchored x ⟨exit, x.position, x.entered⟩
  /-- Every target is entered afresh, whatever those before it have left. -/
  | consume {s : State} {c : Char} {next : Nat} {visited : BitSet} (hs : a.Enters x s)
      (hc : input[x.position]? = some c)
      (ht : Tried (fun id _ => a.Fails input anchored (a.freshCall id (x.position + 1)))
        (s.targets c) x.visited next visited) :
      Calls a input anchored x (a.freshCall next (x.position + 1))
  | silentAtEnd {s : State} {next : Nat} {visited : BitSet} (hs : a.Enters x s)
      (hk : ¬ s.kind.IsAssertion) (hc : input[x.position]? = none) (hfinal : s.final = false)
      (ht : Tried (fun id before => a.Fails input anchored ⟨id, x.position, before⟩) s.silent
        x.entered next visited) :
      Calls a input anchored x ⟨next, x.position, visited⟩
  | silentInVain {s : State} {c : Char} {next : Nat} {visited : BitSet} (hs : a.Enters x s)
      (hk : ¬ s.kind.IsAssertion) (hc : input[x.position]? = some c)
      (hvain : ∀ id ∈ s.targets c, ∃ after,
        a.Fails input anchored (a.freshCall id (x.position + 1)) after)
      (ht : Tried (fun id before => a.Fails input anchored ⟨id, x.position, before⟩) s.silent
        x.entered next visited) :
      Calls a input anchored x ⟨next, x.position, visited⟩

end Automaton

end Regexp
