/-! Sets of natural numbers as words of 64 bits. A set grows when a number lies beyond its words. -/
namespace Regexp

structure BitSet where
  words : Array UInt64
deriving DecidableEq, Repr

namespace BitSet

/-- The empty set, with room for the numbers below `n`. -/
def emptyWithCapacity (n : Nat) : BitSet := ⟨Array.replicate ((n + 63) / 64) 0⟩

def mask (i : Nat) : UInt64 := 1 <<< (i % 64).toUInt64

instance : Membership Nat BitSet where
  mem s i := s.words.getD (i / 64) 0 &&& mask i ≠ 0

instance (i : Nat) (s : BitSet) : Decidable (i ∈ s) :=
  inferInstanceAs (Decidable (_ ≠ _))

def reserve (s : BitSet) (n : Nat) : BitSet :=
  ⟨s.words ++ Array.replicate (n - s.words.size) 0⟩

/-- Adds a number, and tells whether it is new. -/
def insert (s : BitSet) (i : Nat) : Bool × BitSet :=
  let words := (s.reserve (i / 64 + 1)).words
  (decide (i ∉ s), ⟨words.modify (i / 64) (· ||| mask i)⟩)

end BitSet

end Regexp
