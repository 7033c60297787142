import Regexp.Automaton.OfPattern
import Regexp.Pattern.Escape

/-! Expressions over whole texts and lists of operands. An expression can be written as a pattern, and
it can be put together as an automaton with no pattern in between. -/
namespace Regexp

inductive Expression where
  | literal (text : List Char)
  | any
  | startOfInput
  | endOfInput
  | sequence (items : List Expression)
  /-- There is always a first alternative. -/
  | alternation (first : Expression) (others : List Expression)
  | quantified (body : Expression) (q : Quantifier)

def parenthesized (text : List Char) : List Char := '(' :: text ++ [')']

namespace Expression

def text : Expression → List Char
  | literal text => escape text
  | any => ['.']
  | startOfInput => ['^']
  | endOfInput => ['$']
  | sequence items => items.flatMap fun e => parenthesized e.text
  | alternation first others =>
    parenthesized first.text ++ others.flatMap fun e => '|' :: parenthesized e.text
  | quantified body q => parenthesized body.text ++ [q.symbol]

def automaton : Expression → Automaton
  | literal text => .literal text
  | any => .any
  | startOfInput => .startOfInput
  | endOfInput => .endOfInput
  | sequence items => .sequenceOf (items.map fun e => e.automaton)
  | alternation first others =>
    .alternationOf first.automaton (others.map fun e => e.automaton)
  | quantified body q => body.automaton.quantified q

/-- Induction with the hypothesis for all members of a list of operands. -/
@[elab_as_elim, induction_eliminator]
theorem induction {motive : Expression → Prop} (literal : ∀ text, motive (literal text))
    (any : motive any) (startOfInput : motive startOfInput) (endOfInput : motive endOfInput)
    (sequence : ∀ items, (∀ e ∈ items, motive e) → motive (sequence items))
    (alternation : ∀ first others, motive first → (∀ e ∈ others, motive e) →
      motive (alternation first others))
    (quantified : ∀ body q, motive body → motive (quantified body q)) (e : Expression) :
    motive e := by
  have ih (e' : Expression) (_ : sizeOf e' < sizeOf e) : motive e' :=
    induction literal any startOfInput endOfInput sequence alternation quantified e'
  cases e with
  | literal text => exact literal text
  | any => exact any
  | startOfInput => exact startOfInput
  | endOfInput => exact endOfInput
  | sequence items =>
    apply sequence
    intro e he
    have := List.sizeOf_lt_of_mem he
    exact ih e (by simp; omega)
  | alternation first others =>
    apply alternation
    · exact ih first (by simp; omega)
    · intro e he
      have := List.sizeOf_lt_of_mem he
      exact ih e (by simp; omega)
  | quantified body q => exact quantified body q (ih body (by simp; omega))
termination_by sizeOf e

end Expression

end Regexp
