import Regexp.CharClass

/-! The tree of a regular expression. -/
namespace Regexp

inductive Quantifier where
  | zeroOrMore
  | oneOrMore
  | zeroOrOne
deriving DecidableEq, Repr

namespace Quantifier

def symbol : Quantifier → Char
  | zeroOrMore => '*'
  | oneOrMore => '+'
  | zeroOrOne => '?'

def ofChar? (c : Char) : Option Quantifier :=
  match c with
  | '*' => some zeroOrMore
  | '+' => some oneOrMore
  | '?' => some zeroOrOne
  | _ => none

@[simp] theorem ofChar?_symbol (q : Quantifier) : ofChar? q.symbol = some q := by
  cases q <;> rfl

theorem symbol_of_ofChar? {q : Quantifier} {c : Char} (h : ofChar? c = some q) : q.symbol = c := by
  unfold ofChar? at h
  split at h <;> cases h <;> rfl

end Quantifier

/-- `blank` matches the empty string. It stands where a pattern or an alternative is empty. -/
inductive Pattern where
  | choice (left right : Pattern)
  | seq (first second : Pattern)
  | quantified (body : Pattern) (q : Quantifier)
  | cls (k : CharClass)
  | char (c : Char)
  | any
  | startOfInput
  | endOfInput
  | blank
deriving DecidableEq, Repr

namespace Pattern

def size : Pattern → Nat
  | choice a b => 1 + a.size + b.size
  | seq a b => 1 + a.size + b.size
  | quantified a _ => 1 + a.size
  | _ => 1

/-- What the pattern is directly made of. -/
def operands : Pattern → List Pattern
  | choice a b => [a, b]
  | seq a b => [a, b]
  | quantified a _ => [a]
  | _ => []

def nodes : Pattern → List Pattern
  | choice a b => choice a b :: (a.nodes ++ b.nodes)
  | seq a b => seq a b :: (a.nodes ++ b.nodes)
  | quantified a q => quantified a q :: a.nodes
  | p => [p]

end Pattern

end Regexp
