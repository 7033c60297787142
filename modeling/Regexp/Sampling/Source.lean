/-! A source of pseudo-random words: a multiplicative congruential generator of 128 bits, whose output
folds the two halves of the state into one and rotates the result by the top bits. -/
namespace Regexp.Sampling

structure Source where
  state : BitVec 128
  seed : BitVec 64
deriving DecidableEq, Repr

namespace Source

def initial : Source := ⟨1, 0⟩

def multiplier : BitVec 128 := 0x2360ED051FC65DA44385DF649FCCF645

/-- One step of the generator that spreads a seed over the state. -/
def spread (s : BitVec 64) : BitVec 64 := s * 6364136223846793005 + 11634580027462260723

def spreadOutput (s : BitVec 64) : BitVec 32 :=
  ((((s >>> 18) ^^^ s) >>> 27).setWidth 32).rotateRight (s >>> 59).toNat

/-- The lowest bit is set, so that the state is prime to its modulus. -/
def ofSeed (seed : BitVec 64) : Source :=
  let s₀ := spread seed
  let s₁ := spread s₀
  let s₂ := spread s₁
  let s₃ := spread s₂
  ⟨(spreadOutput s₃ ++ spreadOutput s₂ ++ spreadOutput s₁ ++ spreadOutput s₀) ||| 1, seed⟩

def next (s : Source) : BitVec 64 × Source :=
  let state := s.state * multiplier
  (((state >>> 64 ^^^ state).setWidth 64).rotateRight (state >>> 122).toNat, { s with state })

/-- The states return after so many steps at the latest. -/
def period : Nat := 1 <<< 126

/-- A number below `span`: the high word of a random multiple of it. A multiple whose low word lies
beyond `zone` is drawn again, at most `tries` times, so that all numbers are equally likely. -/
def drawWithin (span zone : Nat) : (tries : Nat) → Source → Nat × Source
  | 0, s =>
    let (word, s) := s.next
    (word.toNat * span / UInt64.size, s)
  | tries + 1, s =>
    let (word, s) := s.next
    let product := word.toNat * span
    if product % UInt64.size ≤ zone then (product / UInt64.size, s) else drawWithin span zone tries s

/-- The zone is the greatest multiple of `span` by a power of two that fits into a word. -/
def drawBelow (span : Nat) (s : Source) : Nat × Source :=
  drawWithin span (span <<< (63 - span.log2) - 1) period s

theorem high_word_lt {span : Nat} (word : BitVec 64) (h : 0 < span) :
    word.toNat * span / UInt64.size < span := by
  apply Nat.div_lt_of_lt_mul
  exact Nat.mul_lt_mul_of_pos_right word.isLt h

theorem drawWithin_lt {span zone tries : Nat} (s : Source) (h : 0 < span) :
    (drawWithin span zone tries s).1 < span := by
  induction tries generalizing s with
  | zero => exact high_word_lt s.next.1 h
  | succ tries ih =>
    simp only [drawWithin]
    split
    · exact high_word_lt s.next.1 h
    · exact ih s.next.2

theorem drawBelow_lt {span : Nat} (s : Source) (h : 0 < span) : (s.drawBelow span).1 < span :=
  drawWithin_lt s h

end Source

end Regexp.Sampling
