import Regexp.Automaton.State

/-! Automaton fragments with one entry and one exit, and the ways to put them together. Each way
takes the states of its operands into one arena, where their ids move up by the states before. -/
namespace Regexp

structure Automaton where
  states : Array State
  entry : Nat
  exit : Nat
deriving DecidableEq, Repr

namespace Automaton

def modify (a : Automaton) (id : Nat) (f : State → State) : Automaton :=
  { a with states := a.states.modify id f }

def extend (a b : Automaton) : Automaton :=
  { a with states := a.states ++ b.states.map (State.shift a.states.size) }

/-- An entry made for the exit's id, and a final exit. -/
def pair (entry : Nat → State) : Automaton :=
  ⟨#[entry 1, (State.ofKind .plain).withFinal true], 0, 1⟩

def char (c : Char) : Automaton := pair fun exit => (State.ofKind .plain).addLabelled c exit

def any : Automaton := pair fun exit => .ofKind (.any exit)

def cls (k : CharClass) : Automaton := pair fun exit => .ofKind (.cls k exit)

/-- The characters between two, or all the others. -/
def range (a b : Char) (inside : Bool) : Automaton :=
  cls (if inside then .range a b else (CharClass.range a b).negate)

def startOfInput : Automaton := pair fun exit => .ofKind (.startOfInput exit)

def endOfInput : Automaton := pair fun exit => .ofKind (.endOfInput exit)

def empty : Automaton := pair fun exit => (State.ofKind .plain).addSilent exit

def sequence (a b : Automaton) : Automaton :=
  let offset := a.states.size
  let joined := ((a.extend b).modify a.exit fun s =>
    (s.withFinal false).addSilent (b.entry + offset)).modify (b.exit + offset) (·.withFinal true)
  { joined with exit := b.exit + offset }

/-- Lays `b` between the entry and the exit of `a`. -/
def embed (a b : Automaton) : Automaton :=
  let offset := a.states.size
  ((a.extend b).modify a.entry (·.addSilent (b.entry + offset))).modify (b.exit + offset) fun s =>
    (s.withFinal false).addSilent a.exit

def frame : Automaton := pair fun _ => .ofKind .plain

def alternation (a b : Automaton) : Automaton := (frame.embed a).embed b

/-- The loop goes from the exit of the operand back to its entry, and the bypass from the fresh entry
to the fresh exit, so that neither reaches a state that the operand loops on itself. -/
def repeated (loops skips : Bool) (a : Automaton) : Automaton :=
  let framed := frame.embed a
  let offset := frame.states.size
  let looped :=
    if loops then framed.modify (a.exit + offset) (·.addSilent (a.entry + offset)) else framed
  if skips then looped.modify frame.entry (·.addSilent frame.exit) else looped

def zeroOrMore : Automaton → Automaton := repeated true true

def oneOrMore : Automaton → Automaton := repeated true false

def zeroOrOne : Automaton → Automaton := repeated false true

def sequenceOf (items : List Automaton) : Automaton := items.foldl sequence empty

def alternationOf? : List Automaton → Option Automaton
  | [] => none
  | a :: items => some (items.foldl alternation a)

def alternationOf (first : Automaton) (others : List Automaton) : Automaton :=
  (alternationOf? (first :: others)).get rfl

theorem alternationOf_eq_foldl (first : Automaton) (others : List Automaton) :
    alternationOf first others = others.foldl alternation first := rfl

def literal (text : List Char) : Automaton := sequenceOf (text.map char)

end Automaton

end Regexp
