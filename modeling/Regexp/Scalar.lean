/-!
Characters as a contiguous line. The surrogate block holds no characters, so a character's place on
the line is its code point less the gap, and U+D7FF and U+E000 are neighbours.
-/
namespace Regexp.Scalar

def ofCodePoint? (n : Nat) : Option Char :=
  if n.isValidChar then some (Char.ofNat n) else none

def count : Nat := 0x110000 - 0x800

def index (c : Char) : Nat :=
  if c.toNat < 0xD800 then c.toNat else c.toNat - 0x800

def ofIndex? (i : Nat) : Option Char :=
  ofCodePoint? (if i < 0xD800 then i else i + 0x800)

def next? (c : Char) : Option Char :=
  ofIndex? (index c + 1)

def prev? (c : Char) : Option Char :=
  match index c with
  | 0 => none
  | i + 1 => ofIndex? i

/-- The characters from `lo` up to `hi`, both included, in order. -/
def between (lo hi : Char) : List Char :=
  (List.range' (index lo) (index hi + 1 - index lo)).filterMap ofIndex?

def least (c d : Char) : Char := if c ≤ d then c else d

def greatest (c d : Char) : Char := if c ≤ d then d else c

theorem least_le_left (c d : Char) : least c d ≤ c := by
  unfold least
  split
  · exact Char.le_refl c
  · next h => exact (Char.le_total c d).resolve_left h

theorem le_greatest_left (c d : Char) : c ≤ greatest c d := by
  unfold greatest
  split
  · next h => exact h
  · exact Char.le_refl c

private theorem toNat_valid (c : Char) :
    c.toNat < 0xD800 ∨ 0xDFFF < c.toNat ∧ c.toNat < 0x110000 :=
  c.valid

theorem toNat_of_ofCodePoint? {n : Nat} {c : Char} (h : ofCodePoint? n = some c) :
    c.toNat = n := by
  unfold ofCodePoint? at h
  split at h
  · next hv =>
    cases h
    have hc : Char.ofNat n = Char.ofNatAux n hv := dif_pos hv
    rw [hc]
    rfl
  · contradiction

theorem ofCodePoint?_toNat (c : Char) : ofCodePoint? c.toNat = some c := by
  have hv : c.toNat.isValidChar := c.valid
  simp [ofCodePoint?, hv, Char.ofNat_toNat]

@[simp] theorem ofIndex?_index (c : Char) : ofIndex? (index c) = some c := by
  have hc := toNat_valid c
  by_cases h : c.toNat < 0xD800
  · simp [ofIndex?, index, h, ofCodePoint?_toNat]
  · have hi : ¬ c.toNat - 0x800 < 0xD800 := by omega
    have hs : c.toNat - 0x800 + 0x800 = c.toNat := by omega
    simp only [ofIndex?, index, h, hi, hs, ↓reduceIte, ofCodePoint?_toNat]

theorem index_of_ofIndex? {i : Nat} {c : Char} (h : ofIndex? i = some c) : index c = i := by
  have hn := toNat_of_ofCodePoint? h
  have hc := toNat_valid c
  unfold index
  split at hn <;> split <;> omega

theorem index_inj {c d : Char} (h : index c = index d) : c = d := by
  have hd := ofIndex?_index d
  rw [← h, ofIndex?_index] at hd
  exact Option.some.inj hd

theorem index_le_index {c d : Char} : index c ≤ index d ↔ c ≤ d := by
  have hc := toNat_valid c
  have hd := toNat_valid d
  have hle : c ≤ d ↔ c.toNat ≤ d.toNat := Char.le_def.trans UInt32.le_iff_toNat_le
  rw [hle]
  unfold index
  split <;> split <;> omega

theorem index_lt_index {c d : Char} : index c < index d ↔ c < d := by
  rw [← Char.not_le, ← index_le_index]
  omega

theorem next?_eq_some {c d : Char} : next? c = some d ↔ index d = index c + 1 := by
  constructor
  · exact index_of_ofIndex?
  · intro h
    rw [next?, ← h, ofIndex?_index]

theorem prev?_eq_some {c d : Char} : prev? c = some d ↔ index c = index d + 1 := by
  unfold prev?
  split
  · next h => simp [h]
  · next i h =>
    rw [h]
    constructor
    · intro hd
      rw [index_of_ofIndex? hd]
    · intro hd
      have : i = index d := by omega
      rw [this, ofIndex?_index]

theorem index_lt_count (c : Char) : index c < count := by
  have hc := toNat_valid c
  unfold index count
  split <;> omega

theorem ofIndex?_ne_none {i : Nat} (h : i < count) : ofIndex? i ≠ none := by
  unfold count at h
  have hv : (if i < 0xD800 then i else i + 0x800).isValidChar := by
    unfold Nat.isValidChar
    split <;> omega
  simp [ofIndex?, ofCodePoint?, hv]

theorem prev?_eq_none {c : Char} : prev? c = none ↔ index c = 0 := by
  unfold prev?
  split
  · next h => simp [h]
  · next i h =>
    have hi := index_lt_count c
    have hn := ofIndex?_ne_none (show i < count by omega)
    simp [h, hn]

theorem next?_ne_none {c d : Char} (h : index c < index d) : next? c ≠ none := by
  have hd := index_lt_count d
  exact ofIndex?_ne_none (by omega)

theorem index_least (c d : Char) : index (least c d) = min (index c) (index d) := by
  unfold least
  split
  · next h => rw [Nat.min_eq_left (index_le_index.2 h)]
  · next h => rw [Nat.min_eq_right (Nat.le_of_lt (index_lt_index.2 (Char.not_le.1 h)))]

theorem index_greatest (c d : Char) : index (greatest c d) = max (index c) (index d) := by
  unfold greatest
  split
  · next h => rw [Nat.max_eq_right (index_le_index.2 h)]
  · next h => rw [Nat.max_eq_left (Nat.le_of_lt (index_lt_index.2 (Char.not_le.1 h)))]

end Regexp.Scalar
