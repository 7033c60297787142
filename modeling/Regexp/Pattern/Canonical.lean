import Regexp.Pattern.Escape
import Regexp.Pattern.Basic

/-! The canonical text of a pattern. Every operand stands in parentheses and every class is written by
its two lists, so that reading the text gives the pattern back. -/
namespace Regexp

/-- The characters that never stand for themselves outside of a class. Quantifiers are not among them,
since they are literals where there is nothing to repeat. -/
def metaChars : List Char := ['(', ')', '\\', '.', '^', '$', '[', '|']

/-- An end of a range as a code point escape, or as it is if its code point is too long for one. -/
def canonicalEnd (c : Char) : List Char :=
  if c.toNat ≤ 0xFFFF then ['\\', 'u', '{'] ++ Nat.toDigits 16 c.toNat ++ ['}'] else [c]

def CodeRange.canonical (r : CodeRange) : List Char := canonicalEnd r.lo ++ '-' :: canonicalEnd r.hi

def RangeList.canonical (l : RangeList) : List Char := l.flatMap CodeRange.canonical

def CharClass.canonical (k : CharClass) : List Char :=
  let (sign, leading, other) :=
    if k.negated then (['^'], k.excluded, k.included) else ([], k.included, k.excluded)
  '[' :: sign ++ '[' :: leading.canonical ++ "]&&[^".toList ++ other.canonical ++ [']', ']']

namespace Pattern

def canonical : Pattern → List Char
  | choice p q => '(' :: p.canonical ++ ")|(".toList ++ q.canonical ++ [')']
  | seq p q => '(' :: p.canonical ++ ")(".toList ++ q.canonical ++ [')']
  | quantified p q => '(' :: p.canonical ++ [')', q.symbol]
  | cls k => k.canonical
  | char c => [c]
  | any => ['.']
  | startOfInput => ['^']
  | endOfInput => ['$']
  | blank => []

/-- A pattern that stands for a text: blanks occur in it only as alternatives. -/
def Solid : Pattern → Prop
  | choice p q => (p = blank ∨ p.Solid) ∧ (q = blank ∨ q.Solid)
  | seq p q => p.Solid ∧ q.Solid
  | quantified p _ => p.Solid
  | cls k => k.included.Normal ∧ k.excluded.Normal
  | char c => c ∉ metaChars
  | any => True
  | startOfInput => True
  | endOfInput => True
  | blank => False

def WellFormed (p : Pattern) : Prop := p = blank ∨ p.Solid

end Pattern

end Regexp
