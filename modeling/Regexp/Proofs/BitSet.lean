import Mathlib.Data.Nat.Bitwise
import Regexp.BitSet

/-! The members of a set of words. Adding a number adds this one member, also when the set has to grow
for it, so after any insertions the bits that are set are those of the numbers inserted. -/
namespace Regexp.BitSet

variable {s : BitSet} {i j n : Nat}

private theorem toNat_mask (i : Nat) : (mask i).toNat = 2 ^ (i % 64) := by
  have hi : i % 64 < 64 := Nat.mod_lt _ (by decide)
  have hpow : 2 ^ (i % 64) < 2 ^ 64 := Nat.pow_lt_pow_right (by decide) hi
  unfold mask
  simp only [UInt64.toNat_shiftLeft, UInt64.reduceToNat, Nat.toUInt64_eq, UInt64.toNat_ofNat',
    Nat.shiftLeft_eq, Nat.one_mul]
  rw [Nat.mod_eq_of_lt (Nat.lt_trans hi (by decide)), Nat.mod_eq_of_lt hi, Nat.mod_eq_of_lt hpow]

private theorem and_mask_ne_zero (w : UInt64) (i : Nat) :
    w &&& mask i ≠ 0 ↔ w.toNat.testBit (i % 64) = true := by
  rw [Ne, ← UInt64.toNat_inj, UInt64.toNat_and, toNat_mask, Nat.and_two_pow]
  cases w.toNat.testBit (i % 64) <;> simp

theorem mem_iff_testBit :
    i ∈ s ↔ (s.words.getD (i / 64) 0).toNat.testBit (i % 64) = true :=
  and_mask_ne_zero _ i

@[simp] theorem not_mem_emptyWithCapacity : i ∉ emptyWithCapacity n := by
  rw [mem_iff_testBit]
  unfold emptyWithCapacity
  simp only [Array.getD_eq_getD_getElem?, Array.getElem?_replicate]
  split <;> simp

private theorem getD_words_reserve (s : BitSet) (n k : Nat) :
    (s.reserve n).words.getD k 0 = s.words.getD k 0 := by
  unfold reserve
  simp only [Array.getD_eq_getD_getElem?]
  by_cases h : k < s.words.size
  · rw [Array.getElem?_append_left h]
  · have hk : s.words.size ≤ k := Nat.le_of_not_lt h
    rw [Array.getElem?_append_right hk, Array.getElem?_eq_none hk, Array.getElem?_replicate]
    split <;> rfl

/-- Growing neither loses nor invents a member. -/
@[simp] theorem mem_reserve : i ∈ s.reserve n ↔ i ∈ s := by
  rw [mem_iff_testBit, mem_iff_testBit, getD_words_reserve]

private theorem getD_words_insert (s : BitSet) (i k : Nat) :
    (s.insert i).2.words.getD k 0 =
      if k = i / 64 then s.words.getD k 0 ||| mask i else s.words.getD k 0 := by
  have hsize : i / 64 < (s.reserve (i / 64 + 1)).words.size := by
    simp only [reserve, Array.size_append, Array.size_replicate]
    omega
  have hword := getD_words_reserve s (i / 64 + 1) k
  unfold insert
  simp only [Array.getD_eq_getD_getElem?, Array.getElem?_modify] at hword ⊢
  split
  · next h =>
    subst h
    rw [Array.getElem?_eq_getElem hsize] at hword ⊢
    simp only [Option.map_some, Option.getD_some, ↓reduceIte] at hword ⊢
    rw [hword]
  · next h => rw [hword, if_neg (Ne.symm h)]

@[simp] theorem mem_insert : j ∈ (s.insert i).2 ↔ j = i ∨ j ∈ s := by
  rw [mem_iff_testBit, mem_iff_testBit, getD_words_insert]
  split
  · next hword =>
    have hbit : i % 64 = j % 64 ↔ j = i := by omega
    rw [UInt64.toNat_or, toNat_mask, Nat.testBit_or, Nat.testBit_two_pow, Bool.or_eq_true,
      decide_eq_true_eq, hbit, or_comm]
  · next hword =>
    have hne : j ≠ i := by
      rintro rfl
      exact hword rfl
    simp [hne]

@[simp] theorem insert_fst (s : BitSet) (i : Nat) : (s.insert i).1 = decide (i ∉ s) := rfl

/-! ### Insertions one after the other -/

/-- Adds numbers in turn, and tells of each whether it was new. -/
def insertAll (s : BitSet) : List Nat → List Bool × BitSet
  | [] => ([], s)
  | i :: ids =>
    let (new, s) := s.insert i
    let (news, s) := s.insertAll ids
    (new :: news, s)

variable {ids : List Nat}

theorem mem_insertAll : j ∈ (s.insertAll ids).2 ↔ j ∈ ids ∨ j ∈ s := by
  induction ids generalizing s with
  | nil => simp [insertAll]
  | cons i ids ih => rw [insertAll, ih, mem_insert, List.mem_cons, or_left_comm, or_assoc]

/-- A number is new if it is no member and does not occur before. -/
theorem getElem?_insertAll (s : BitSet) (ids : List Nat) (k : Nat) :
    (s.insertAll ids).1[k]? = ids[k]?.map fun i => decide (i ∉ s ∧ i ∉ ids.take k) := by
  induction ids generalizing s k with
  | nil => simp [insertAll]
  | cons i ids ih =>
    cases k with
    | zero => simp [insertAll]
    | succ k =>
      have hnew (j : Nat) : j ∉ (s.insert i).2 ∧ j ∉ ids.take k ↔ j ∉ s ∧ j ∉ i :: ids.take k := by
        simp only [mem_insert, List.mem_cons, not_or]
        exact and_assoc.trans and_left_comm
      simp only [insertAll, List.getElem?_cons_succ, ih, List.take_succ_cons]
      congr 1
      funext j
      exact decide_eq_decide.2 (hnew j)

/-- The words are a set whatever is inserted. Each insertion tells whether its number is among those
before it, growing changes no member, and in the end the bits of the inserted numbers are set. -/
theorem insertions_exact (n : Nat) (ids : List Nat) :
    let inserted := (emptyWithCapacity n).insertAll ids
    (∀ k : Nat, inserted.1[k]? = ids[k]?.map fun i => decide (i ∉ ids.take k)) ∧
    (∀ (s : BitSet) (m i : Nat), i ∈ s.reserve m ↔ i ∈ s) ∧
    ∀ i, (inserted.2.words.getD (i / 64) 0).toNat.testBit (i % 64) = true ↔ i ∈ ids := by
  intro inserted
  refine ⟨?_, fun s m i => mem_reserve, ?_⟩
  · intro k
    simp [inserted, getElem?_insertAll]
  · intro i
    rw [← mem_iff_testBit, mem_insertAll]
    simp

/-- The set grows from no words to four, and the number in the last of them is known from then on. -/
example : ((emptyWithCapacity 0).insertAll [200, 63, 200, 64]).1 = [true, true, false, true] := by
  decide

end Regexp.BitSet
