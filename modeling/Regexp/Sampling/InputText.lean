import Regexp.Pattern.Basic
import Regexp.Sampling.Gen

/-! Random inputs. -/
namespace Regexp.Sampling

/-- How often a repetition is spelled out, as a range without its end. The greatest count is a word, and
the end after it wraps around. -/
def repeatRange (maxRepeat : Nat) : Quantifier → Nat × Nat
  | .zeroOrMore => (0, (maxRepeat + 1) % UInt64.size)
  | .oneOrMore => (1, (maxRepeat + 1) % UInt64.size)
  | .zeroOrOne => (0, 2)

variable {σ : Type} [RandomSource σ]

/-- Spells out one of the texts that a pattern describes, in the characters of `charset`. A class with no
member there is passed over, and so are the assertions. -/
def spellOut (charset : List Char) (maxRepeat : Nat) : Pattern → Draw σ (List Char)
  | .choice left right => do
    if ← Gen.chance 50 then spellOut charset maxRepeat left else spellOut charset maxRepeat right
  | .seq first second => do
    let text ← spellOut charset maxRepeat first
    return text ++ (← spellOut charset maxRepeat second)
  | .quantified body q => do
    let (lo, hi) := repeatRange maxRepeat q
    return (← Gen.times (← Gen.range lo hi) (spellOut charset maxRepeat body)).flatten
  | .cls k => do
    let members := charset.filter fun c => decide (c ∈ k)
    if members.isEmpty then return [] else return [← Gen.sample members]
  | .char c => return [c]
  | .any => return [← Gen.sample charset]
  | .startOfInput => return []
  | .endOfInput => return []
  | .blank => return []

inductive InputStrategy where
  | random (lo hi : Nat) (charset : List Char)
  | spelled (p : Pattern) (charset : List Char) (maxRepeat : Nat)
deriving DecidableEq, Repr

def InputStrategy.text : InputStrategy → Draw σ (List Char)
  | random lo hi charset => Gen.text lo hi charset
  | spelled p charset maxRepeat => spellOut charset maxRepeat p

def inputText (strategies : List InputStrategy) : Draw σ (List Char) := do
  (← Gen.sample strategies).text

end Regexp.Sampling
