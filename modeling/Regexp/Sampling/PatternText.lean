import Regexp.Sampling.Gen

/-! Random patterns. Operands stand in parentheses, so that quantifiers never pile up. -/
namespace Regexp.Sampling

/-- The ways to write a pattern without any inside it. -/
inductive PatternLeaf where
  | literal (charset : List Char)
  | cls (charset : List Char)
  | metacharacter
deriving DecidableEq, Repr

inductive PatternComposite where
  | sequence
  | alternation
  | repetition
deriving DecidableEq, Repr

inductive PatternStrategy where
  | leaf (l : PatternLeaf)
  | composite (c : PatternComposite)
deriving DecidableEq, Repr

def PatternStrategy.isLeaf : PatternStrategy → Bool
  | leaf _ => true
  | composite _ => false

variable {σ : Type} [RandomSource σ]

def classItem (sorted : List Char) : Draw σ (List Char) := do
  let first ← Gen.range 0 sorted.length
  if ← Gen.chance 50 then
    let last ← Gen.range first sorted.length
    return sorted[first]?.toList ++ '-' :: sorted[last]?.toList
  else
    return sorted[first]?.toList

def PatternLeaf.text : PatternLeaf → Draw σ (List Char)
  | literal charset => return [← Gen.sample charset]
  | cls charset => do
    let sorted := charset.mergeSort fun c d => decide (c ≤ d)
    let sign := if ← Gen.chance 25 then ['^'] else []
    let items ← Gen.times (← Gen.range 1 3) (classItem sorted)
    return '[' :: sign ++ items.flatten ++ [']']
  | metacharacter => return [← Gen.sample ['.', '.', '^', '$']]

def PatternComposite.text (inner : Draw σ (List Char)) : PatternComposite → Draw σ (List Char)
  | sequence => return (← Gen.times (← Gen.range 2 4) inner).flatten
  | alternation => do
    let left ← if ← Gen.chance 10 then pure [] else inner
    let right ← inner
    return '(' :: left ++ '|' :: right ++ [')']
  | repetition => do
    let body ← inner
    return '(' :: body ++ [')', ← Gen.sample ['*', '+', '?']]

def PatternStrategy.text (inner : Draw σ (List Char)) : PatternStrategy → Draw σ (List Char)
  | leaf l => l.text
  | composite c => c.text inner

/-- The strategies to choose from. Once the levels run out only leaves are left. -/
def candidates (strategies : List PatternStrategy) (depth : Nat) : List PatternStrategy :=
  strategies.filter fun s => decide (0 < depth) || s.isLeaf

/-- A pattern of at most `depth` levels. What stands inside of another one is a level below. -/
def patternText (strategies : List PatternStrategy) : (depth : Nat) → Draw σ (List Char)
  | 0 => do (← Gen.sample (candidates strategies 0)).text (throw .noLevel)
  | depth + 1 => do
    (← Gen.sample (candidates strategies (depth + 1))).text (patternText strategies depth)

end Regexp.Sampling
