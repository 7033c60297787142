import Regexp.Sampling.InputText
import Regexp.Sampling.PatternText
import Regexp.Regex

/-! Rounds of random matching: a pattern, and inputs of which many are likely to match it. -/
namespace Regexp.Fuzz
open Sampling

def charset : List Char := ['a', 'b', 'c']

def patternStrategies : List PatternStrategy :=
  [.leaf (.literal charset), .leaf (.literal charset), .leaf (.cls charset), .leaf .metacharacter,
    .composite .sequence, .composite .alternation, .composite .repetition]

def inputStrategies (rx : Regex) (inputLength : Nat) : List InputStrategy :=
  [.random 0 (inputLength + 1) charset, .spelled rx.pattern charset 3]

structure Settings where
  depth : Nat
  inputLength : Nat
  inputs : Nat

structure Round where
  regex : Regex
  inputs : List (List Char)

/-- A pattern and its inputs, all drawn before any is matched. -/
def round (settings : Settings) : Gen (Except PatternError Round) := do
  let text ← patternText patternStrategies settings.depth
  match Regex.ofText text with
  | .error e => return .error e
  | .ok rx =>
    let strategies := inputStrategies rx settings.inputLength
    return .ok ⟨rx, ← Gen.times settings.inputs (inputText strategies)⟩

structure Verdict where
  input : List Char
  whole : Bool
  anywhere : Bool
deriving DecidableEq, Repr

def Round.verdicts (r : Round) : List Verdict :=
  r.inputs.map fun input => ⟨input, r.regex.matchesWhole input, r.regex.matchesAnywhere input⟩

end Regexp.Fuzz
