import Regexp.Pattern.Escape

/-! Reading the inside of a character class, one character at a time. Operators apply to all that the
body has gathered so far; what follows a subtraction sign is a body of its own, up to the same
bracket. -/
namespace Regexp

/-- What a body has gathered. `operand` collects the classes that follow an intersection sign. -/
structure ClassBody where
  negated : Bool
  gathered : CharClass
  operand : Option CharClass
deriving DecidableEq, Repr

namespace ClassBody

def empty : ClassBody := ⟨false, ∅, none⟩

def add (b : ClassBody) (k : CharClass) : ClassBody :=
  match b.operand with
  | none => { b with gathered := b.gathered.union k }
  | some o => { b with operand := some (o.union k) }

def subtract (b : ClassBody) (k : CharClass) : ClassBody :=
  { b with gathered := b.gathered.diff k }

def settle (b : ClassBody) : ClassBody :=
  match b.operand with
  | none => b
  | some o => { b with gathered := b.gathered.inter o, operand := none }

def value (b : ClassBody) : CharClass :=
  if b.negated then b.settle.gathered.negate else b.settle.gathered

end ClassBody

/-- What was just read in a body, as far as it decides the reading of the next character. -/
inductive ClassPlace where
  | opened
  | sign
  /-- A complete class, after which the operators stand. -/
  | single
  | ampersand
  | char (c : Char)
  | dash (start : Char)
  | escape
  | codePoint (e : CodePointEscape)
  /-- A backslash where the end of a range is due. -/
  | endEscape (start : Char)
  | endCodePoint (start : Char) (e : CodePointEscape)
deriving DecidableEq, Repr

inductive Nesting where
  | bracket
  | subtrahend
deriving DecidableEq, Repr

/-- The innermost open body, the place in it, and the bodies around it from the inside out. -/
structure ClassReader where
  body : ClassBody
  place : ClassPlace
  outer : List (Nesting × ClassBody)
deriving DecidableEq, Repr

namespace ClassReader

def start : ClassReader := ⟨.empty, .opened, []⟩

def goto (r : ClassReader) (place : ClassPlace) : ClassReader := { r with place }

def add (r : ClassReader) (k : CharClass) : ClassReader :=
  { r with body := r.body.add k, place := .single }

def nest (r : ClassReader) (nesting : Nesting) : ClassReader :=
  ⟨.empty, .opened, (nesting, r.body) :: r.outer⟩

/-- A closing bracket ends the body it belongs to and every subtrahend inside. -/
def close (body : ClassBody) : List (Nesting × ClassBody) → ClassReader ⊕ CharClass
  | [] => .inr body.value
  | (.bracket, parent) :: outer => .inl ⟨parent.add body.value, .single, outer⟩
  | (.subtrahend, parent) :: outer => close (parent.subtract body.value) outer

def begin (r : ClassReader) (c : Char) : ClassReader ⊕ CharClass :=
  if c = ']' then close r.body r.outer
  else if c = '[' then .inl (r.nest .bracket)
  else if c = '\\' then .inl (r.goto .escape)
  else .inl (r.goto (.char c))

/-- Reads a character after a single class, where the operators stand. The minus sign is none among
the operands of an intersection. -/
def operate (r : ClassReader) (c : Char) : ClassReader ⊕ CharClass :=
  if c = '&' then .inl { r with body := r.body.settle, place := .ampersand }
  else if c = '-' ∧ r.body.operand = none then .inl (r.nest .subtrahend)
  else r.begin c

def step (r : ClassReader) (c : Char) : Except Fault (ClassReader ⊕ CharClass) :=
  match r.place with
  | .opened =>
    if c = '^' then .ok (.inl { r with body := { r.body with negated := true }, place := .sign })
    else .ok (r.begin c)
  | .sign => .ok (if r.body.operand = none then r.begin c else r.operate c)
  | .single => .ok (r.operate c)
  | .ampersand =>
    if c = '&' then .ok (.inl { r with body := { r.body with operand := some ∅ }, place := .sign })
    else .error .unexpected
  | .char d =>
    if c = '-' then .ok (.inl (r.goto (.dash d))) else .ok ((r.add (.single d)).operate c)
  | .dash d =>
    if c = '\\' then .ok (.inl (r.goto (.endEscape d))) else .ok (.inl (r.add (.range d c)))
  | .escape =>
    if c = 'u' then .ok (.inl (r.goto (.codePoint .unopened)))
    else (escapedClass c).map fun k => .inl (r.add k)
  | .codePoint e =>
    (e.step c).map fun
      | .inl e => .inl (r.goto (.codePoint e))
      | .inr d => .inl (r.goto (.char d))
  | .endEscape d =>
    if c = 'u' then .ok (.inl (r.goto (.endCodePoint d .unopened)))
    else if c = '\\' then .ok (.inl (r.add (.range d '\\')))
    else .error (.escape .endsRange)
  | .endCodePoint d e =>
    (e.step c).map fun
      | .inl e => .inl (r.goto (.endCodePoint d e))
      | .inr d' => .inl (r.add (.range d d'))

end ClassReader

end Regexp
