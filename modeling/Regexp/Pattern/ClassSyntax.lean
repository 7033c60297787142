import Mathlib.Data.Nat.Digits.Defs
import Mathlib.Data.Set.Basic
import Regexp.Pattern.ClassBody

/-! The grammar of class bodies, and the characters that a body stands for by its grammar alone. -/
namespace Regexp

/-- The place of a character among the hexadecimal digits, whose letters may be of either case. Any other
character has place 16. -/
def hexPlace (c : Char) : Nat := "0123456789abcdef".toList.idxOf c.toLower

structure CodePointDigits where
  digits : List Char
  char : Char
  digits_ne_nil : digits ≠ []
  length_le : digits.length ≤ 4
  hexPlace_lt : ∀ d ∈ digits, hexPlace d < 16
  toNat_char : char.toNat = Nat.ofDigits 16 (digits.reverse.map hexPlace)

inductive WrittenChar where
  | plain (c : Char)
  | codePoint (e : CodePointDigits)
  | backslash

/-- What the reading of a body has behind it, as far as that makes signs of some characters. -/
inductive ClassSpot where
  | opened
  | complement
  | single
  /-- The sign of an intersection, or one of its operands. -/
  | operand
deriving DecidableEq, Repr

namespace ClassSpot

def signs : ClassSpot → List Char
  | opened => ['^']
  | complement => []
  | single => ['&', '-']
  | operand => ['&']

def next : ClassSpot → ClassSpot
  | operand => operand
  | _ => single

end ClassSpot

namespace WrittenChar

def char : WrittenChar → Char
  | plain c => c
  | codePoint e => e.char
  | backslash => '\\'

def text : WrittenChar → List Char
  | plain c => [c]
  | codePoint e => '\\' :: 'u' :: '{' :: (e.digits ++ ['}'])
  | backslash => ['\\', '\\']

/-- A backslash at the beginning would be a class of its own, with no range to follow. -/
def Begins : WrittenChar → ClassSpot → Prop
  | plain c, spot => c ∉ [']', '[', '\\'] ∧ c ∉ spot.signs
  | codePoint _, _ => True
  | backslash, _ => False

def Ends : WrittenChar → Prop
  | plain c => c ≠ '\\'
  | _ => True

end WrittenChar

def escapedMembers (c : Char) : Set Char :=
  let digits := {d | '0' ≤ d ∧ d ≤ '9'}
  let letters := {d | 'A' ≤ d ∧ d ≤ 'Z' ∨ 'a' ≤ d ∧ d ≤ 'z'}
  let spaces := {' ', '\t', '\r', '\n', '\x0C'}
  match c with
  | 'd' => digits
  | 'D' => digitsᶜ
  | 'w' => letters ∪ digits ∪ {'-'}
  | 'W' => (letters ∪ digits ∪ {'-'})ᶜ
  | 's' => spaces
  | 'S' => spacesᶜ
  | c => {c}

inductive ClassAtom where
  | char (w : WrittenChar)
  | range (lo hi : WrittenChar)
  | escape (c : Char) (k : CharClass) (h : escapedClass c = .ok k)

namespace ClassAtom

def text : ClassAtom → List Char
  | char w => w.text
  | range lo hi => lo.text ++ '-' :: hi.text
  | escape c _ _ => ['\\', c]

def toClass : ClassAtom → CharClass
  | char w => .single w.char
  | range lo hi => .range lo.char hi.char
  | escape _ k _ => k

/-- The ends of a range may come in either order. -/
def members : ClassAtom → Set Char
  | char w => {w.char}
  | range lo hi => {c | lo.char ≤ c ∧ c ≤ hi.char ∨ hi.char ≤ c ∧ c ≤ lo.char}
  | escape c _ _ => escapedMembers c

def Begins : ClassAtom → ClassSpot → Prop
  | char w, spot => w.Begins spot
  | range lo hi, spot => lo.Begins spot ∧ hi.Ends
  | escape _ _ _, _ => True

/-- Behind a character a dash would make it the start of a range. -/
def Precedes : ClassAtom → List Char → Prop
  | char _, rest => rest.head? ≠ some '-'
  | _, _ => True

def Positive : ClassAtom → Prop
  | escape c _ _ => c ∉ ['D', 'W', 'S']
  | _ => True

end ClassAtom

structure ClassExtent where
  gathered : Set Char
  operand : Option (Set Char)

namespace ClassExtent

def empty : ClassExtent := ⟨∅, none⟩

def add (e : ClassExtent) (s : Set Char) : ClassExtent :=
  match e.operand with
  | none => { e with gathered := e.gathered ∪ s }
  | some o => { e with operand := some (o ∪ s) }

def settled (e : ClassExtent) : Set Char :=
  match e.operand with
  | none => e.gathered
  | some o => e.gathered ∩ o

end ClassExtent

/-- A body, or what is left of one, up to its closing bracket. A sign of subtraction makes a body of
its own of all that is left. -/
inductive ClassSyntax where
  | done
  | complement (rest : ClassSyntax)
  | atom (a : ClassAtom) (rest : ClassSyntax)
  | bracket (inner rest : ClassSyntax)
  | inter (rest : ClassSyntax)
  | diff (rest : ClassSyntax)

namespace ClassSyntax

def text : ClassSyntax → List Char
  | done => []
  | complement rest => '^' :: rest.text
  | atom a rest => a.text ++ rest.text
  | bracket inner rest => '[' :: inner.text ++ ']' :: rest.text
  | inter rest => '&' :: '&' :: rest.text
  | diff rest => '-' :: rest.text

def Grammatical : ClassSyntax → ClassSpot → Prop
  | done, _ => True
  | complement rest, spot => spot = .opened ∧ rest.Grammatical .complement
  | atom a rest, spot => a.Begins spot ∧ a.Precedes rest.text ∧ rest.Grammatical spot.next
  | bracket inner rest, spot => inner.Grammatical .opened ∧ rest.Grammatical spot.next
  | inter rest, spot => (spot = .single ∨ spot = .operand) ∧ rest.Grammatical .operand
  | diff rest, spot => spot = .single ∧ rest.Grammatical .opened

def Positive : ClassSyntax → Prop
  | done => True
  | complement _ => False
  | atom a rest => a.Positive ∧ rest.Positive
  | bracket inner rest => inner.Positive ∧ rest.Positive
  | inter rest => rest.Positive
  | diff rest => rest.Positive

def membersFrom : ClassSyntax → ClassExtent → Set Char
  | done, e => e.settled
  | complement rest, e => (rest.membersFrom e)ᶜ
  | atom a rest, e => rest.membersFrom (e.add a.members)
  | bracket inner rest, e => rest.membersFrom (e.add (inner.membersFrom .empty))
  | inter rest, e => rest.membersFrom ⟨e.settled, some ∅⟩
  | diff rest, e => e.settled \ rest.membersFrom .empty

def members (t : ClassSyntax) : Set Char := t.membersFrom .empty

/-- The body after the rest of its text, by the operators on classes. -/
def gather : ClassSyntax → ClassBody → ClassBody
  | done, b => b
  | complement rest, b => rest.gather { b with negated := true }
  | atom a rest, b => rest.gather (b.add a.toClass)
  | bracket inner rest, b => rest.gather (b.add (inner.gather .empty).value)
  | inter rest, b => rest.gather { b.settle with operand := some ∅ }
  | diff rest, b => b.subtract (rest.gather .empty).value

def toClass (t : ClassSyntax) : CharClass := (t.gather .empty).value

end ClassSyntax

end Regexp
