import Regexp.Pattern.Basic
import Regexp.Pattern.ClassBody

/-! Reading a pattern, one character at a time. A group gathers elements and alternatives until its
parenthesis closes. An empty group is no element of a sequence, which is why elements and
alternatives are optional. -/
namespace Regexp

/-- A group that is still open, its elements and its finished alternatives latest first. -/
structure OpenGroup where
  elements : List (Option Pattern)
  alternatives : List (Option Pattern)
deriving DecidableEq, Repr

namespace OpenGroup

def empty : OpenGroup := ⟨[], []⟩

def push (g : OpenGroup) (p : Option Pattern) : OpenGroup := { g with elements := p :: g.elements }

def join : Option Pattern → Option Pattern → Option Pattern
  | some p, some q => some (.seq p q)
  | some p, none => some p
  | none, q => q

def sequence (g : OpenGroup) : Option Pattern := g.elements.foldr (fun p before => join before p) none

def alternate (g : OpenGroup) : OpenGroup := ⟨[], g.sequence :: g.alternatives⟩

/-- A quantifier belongs to the element before it, and is a literal where there is none. -/
def quantify (g : OpenGroup) (q : Quantifier) : OpenGroup :=
  match g.elements with
  | [] => g.push (some (.char q.symbol))
  | p :: ps => { g with elements := p.map (Pattern.quantified · q) :: ps }

/-- Bars group to the right. -/
def value (g : OpenGroup) : Option Pattern :=
  g.alternatives.foldl (fun right left => some (.choice (left.getD .blank) (right.getD .blank)))
    g.sequence

end OpenGroup

/-- Whether the next character begins an element or lies inside of one. -/
inductive ReaderMode where
  | element
  | escape
  | codePoint (e : CodePointEscape)
  | cls (r : ClassReader)
deriving DecidableEq, Repr

/-- The innermost open group, and the groups around it from the inside out. -/
structure Reader where
  group : OpenGroup
  outer : List OpenGroup
  mode : ReaderMode
deriving DecidableEq, Repr

namespace Reader

def start : Reader := ⟨.empty, [], .element⟩

def enter (r : Reader) (mode : ReaderMode) : Reader := { r with mode }

def push (r : Reader) (p : Option Pattern) : Reader :=
  { r with group := r.group.push p, mode := .element }

def close : Reader → Except Fault Reader
  | ⟨_, [], _⟩ => .error .unexpected
  | ⟨g, parent :: outer, _⟩ => .ok ⟨parent.push g.value, outer, .element⟩

def begin (r : Reader) (c : Char) : Except Fault Reader :=
  match c with
  | '(' => .ok ⟨.empty, r.group :: r.outer, .element⟩
  | ')' => r.close
  | '|' => .ok { r with group := r.group.alternate }
  | '\\' => .ok (r.enter .escape)
  | '[' => .ok (r.enter (.cls .start))
  | '.' => .ok (r.push (some .any))
  | '^' => .ok (r.push (some .startOfInput))
  | '$' => .ok (r.push (some .endOfInput))
  | c =>
    match Quantifier.ofChar? c with
    | some q => .ok { r with group := r.group.quantify q }
    | none => .ok (r.push (some (.char c)))

def step (r : Reader) (c : Char) : Except Fault Reader :=
  match r.mode with
  | .element => r.begin c
  | .escape =>
    if c = 'u' then .ok (r.enter (.codePoint .unopened))
    else (escapedClass c).map fun k => r.push (some (.cls k))
  | .codePoint e =>
    (e.step c).map fun
      | .inl e => r.enter (.codePoint e)
      | .inr d => r.push (some (.cls (.single d)))
  | .cls b =>
    (b.step c).map fun
      | .inl b => r.enter (.cls b)
      | .inr k => r.push (some (.cls k))

/-- Reads a text whose first character stands at `offset`, up to the first fault. -/
def run (r : Reader) (offset : Nat) : List Char → Except (Nat × Fault) Reader
  | [] => .ok r
  | c :: cs =>
    match r.step c with
    | .ok r => r.run (offset + 1) cs
    | .error f => .error (offset, f)

def finish? : Reader → Option Pattern
  | ⟨g, [], .element⟩ => some (g.value.getD .blank)
  | _ => none

end Reader

namespace Pattern

def parse (text : List Char) : Except PatternError Pattern :=
  match Reader.start.run 0 text with
  | .error (offset, f) => .error (.ofFault text offset f)
  | .ok r =>
    match r.finish? with
    | some p => .ok p
    | none => .error (.unexpected text text.length)

end Pattern

end Regexp
