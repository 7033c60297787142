import Regexp.Pattern.Basic

/-! What a pattern means: the parts of an input that it matches, by recursion on the pattern and with
no automaton. -/
namespace Regexp.Pattern

/-- The pattern matches the input from `i` up to `j`. The assertions refer to the ends of the whole
input. -/
def Matches (input : Array Char) : Pattern → Nat → Nat → Prop
  | choice p q, i, j => p.Matches input i j ∨ q.Matches input i j
  | seq p q, i, j => ∃ m, p.Matches input i m ∧ q.Matches input m j
  | quantified p .zeroOrMore, i, j => i = j ∨ Relation.TransGen (p.Matches input) i j
  | quantified p .oneOrMore, i, j => Relation.TransGen (p.Matches input) i j
  | quantified p .zeroOrOne, i, j => i = j ∨ p.Matches input i j
  | cls k, i, j => (∃ c, input[i]? = some c ∧ c ∈ k) ∧ j = i + 1
  | char c, i, j => input[i]? = some c ∧ j = i + 1
  | any, i, j => i < input.size ∧ j = i + 1
  | startOfInput, i, j => i = 0 ∧ j = 0
  | endOfInput, i, j => i = input.size ∧ j = input.size
  | blank, i, j => i = j

end Regexp.Pattern
