import Regexp.CharClass
import Regexp.Pattern.Error

/-! What may follow a backslash: a syntax character, a shortcut letter or a code point. -/
namespace Regexp

def syntaxChars : List Char :=
  ['\\', '.', '^', '$', '|', '(', ')', '[', ']', '*', '+', '?', '-', '&', '{', '}']

def escape (text : List Char) : List Char :=
  text.flatMap fun c => if c ∈ syntaxChars then ['\\', c] else [c]

def escapedClass (c : Char) : Except Fault CharClass :=
  if c ∈ syntaxChars then .ok (.single c)
  else match CharClass.shorthand? c with
    | some k => .ok k
    | none => .error (.escape (.unknown c))

def hexValue? (c : Char) : Option Nat :=
  if '0' ≤ c ∧ c ≤ '9' then some (c.toNat - '0'.toNat)
  else if 'a' ≤ c ∧ c ≤ 'f' then some (c.toNat - 'a'.toNat + 10)
  else if 'A' ≤ c ∧ c ≤ 'F' then some (c.toNat - 'A'.toNat + 10)
  else none

def hexNumber (digits : List Char) : Nat :=
  digits.foldl (fun n c => 16 * n + (hexValue? c).getD 0) 0

/-- How far the braces of a code point escape are read. -/
inductive CodePointEscape where
  | unopened
  | opened (digits : List Char)
deriving DecidableEq, Repr

namespace CodePointEscape

def value : List Char → Except Fault Char
  | [] => .error (.escape .noDigits)
  | digits =>
    match Scalar.ofCodePoint? (hexNumber digits) with
    | some c => .ok c
    | none => .error (.escape (.notScalar digits))

/-- Reads one character. The closing brace gives the character that is meant. -/
def step : CodePointEscape → Char → Except Fault (CodePointEscape ⊕ Char)
  | unopened, c => if c = '{' then .ok (.inl (opened [])) else .error .unexpected
  | opened digits, c =>
    if (hexValue? c).isSome then
      if digits.length < 4 then .ok (.inl (opened (digits ++ [c]))) else .error (.escape .tooLong)
    else if c = '}' then (value digits).map .inr
    else .error .unexpected

end CodePointEscape

end Regexp
