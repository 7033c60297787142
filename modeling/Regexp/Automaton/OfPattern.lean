import Regexp.Automaton.Basic
import Regexp.Pattern.Basic

/-! The automaton of a pattern. -/
namespace Regexp.Automaton

def quantified (q : Quantifier) (a : Automaton) : Automaton :=
  match q with
  | .zeroOrMore => a.zeroOrMore
  | .oneOrMore => a.oneOrMore
  | .zeroOrOne => a.zeroOrOne

def ofPattern : Pattern → Automaton
  | .choice p q => (ofPattern p).alternation (ofPattern q)
  | .seq p q => (ofPattern p).sequence (ofPattern q)
  | .quantified p q => (ofPattern p).quantified q
  | .cls k => cls k
  | .char c => char c
  | .any => any
  | .startOfInput => startOfInput
  | .endOfInput => endOfInput
  | .blank => empty

end Regexp.Automaton
