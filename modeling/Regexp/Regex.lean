import Regexp.Automaton.OfPattern
import Regexp.Automaton.Search
import Regexp.Pattern.Parse

/-! A pattern that is ready to match. -/
namespace Regexp

structure Regex where
  text : List Char
  pattern : Pattern
  automaton : Automaton
  parse_text : Pattern.parse text = .ok pattern
  automaton_eq : automaton = .ofPattern pattern

namespace Regex

def ofText (text : List Char) : Except PatternError Regex :=
  match h : Pattern.parse text with
  | .error e => .error e
  | .ok p => .ok ⟨text, p, .ofPattern p, h, rfl⟩

def matchesWhole (rx : Regex) (input : List Char) : Bool :=
  rx.automaton.matchesFrom input.toArray 0 true

def matchStarts (rx : Regex) (input : List Char) : List Nat :=
  let chars := input.toArray
  (List.range (chars.size + 1)).filter fun start => rx.automaton.matchesFrom chars start false

def matchesAnywhere (rx : Regex) (input : List Char) : Bool :=
  let chars := input.toArray
  (List.range (chars.size + 1)).any fun start => rx.automaton.matchesFrom chars start false

/-- The characters between two that match as strings of their own. -/
def accepted (rx : Regex) (lo hi : Char) : List Char :=
  (Scalar.between lo hi).filter fun c => rx.matchesWhole [c]

end Regex

end Regexp
