import Regexp.Sampling.Source

/-! Random choices. A choice from nothing fails without a draw, and what was drawn before it stays
drawn. -/
namespace Regexp.Sampling

inductive DrawError where
  | emptyRange
  | emptyChoice
  /-- A level is taken off where none is left. -/
  | noLevel
deriving DecidableEq, Repr

def DrawError.message : DrawError → String
  | emptyRange => "UniformSampler::sample_single: low >= high"
  | emptyChoice => "assertion failed: !s.is_empty()"
  | noLevel => "attempt to subtract with overflow"

/-- All that choices need of a source: numbers below any bound that leaves some. -/
class RandomSource (σ : Type) where
  drawBelow : (span : Nat) → σ → Nat × σ
  drawBelow_lt : ∀ {span : Nat} (s : σ), 0 < span → (drawBelow span s).1 < span

@[default_instance] instance : RandomSource Source where
  drawBelow := Source.drawBelow
  drawBelow_lt := Source.drawBelow_lt

/-- Choices from a source of any kind. -/
abbrev Draw (σ : Type) := ExceptT DrawError (StateM σ)

abbrev Gen := Draw Source

namespace Gen

def reseed (seed : BitVec 64) : Gen Unit := set (Source.ofSeed seed)

def seed : Gen (BitVec 64) := return (← get).seed

variable {σ : Type} [RandomSource σ]

def range (lo hi : Nat) : Draw σ Nat := do
  if lo < hi then
    let n ← modifyGet (RandomSource.drawBelow (hi - lo))
    return lo + n
  else
    throw .emptyRange

def chance (percent : Nat) : Draw σ Bool := return (← range 0 100) < percent

def sample {α : Type} : List α → Draw σ α
  | [] => throw .emptyChoice
  | a :: l => return (a :: l).getD (← range 0 (l.length + 1)) a

def times {α : Type} (n : Nat) (gen : Draw σ α) : Draw σ (List α) :=
  match n with
  | 0 => return []
  | n + 1 => do
    let a ← gen
    return a :: (← times n gen)

/-- A text of characters from `charset`. The length is drawn first. -/
def text (lo hi : Nat) (charset : List Char) : Draw σ (List Char) := do
  times (← range lo hi) (sample charset)

end Gen

end Regexp.Sampling
