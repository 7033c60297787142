import Regexp.Proofs.Pattern.Reading

/-! A code point escape gives the character whose digits it holds. -/
namespace Regexp
open CodePointEscape

variable {c : Char} {n : Nat} {digits ds : List Char}

theorem hexValue?_digitChar {d : Nat} (h : d < 16) : hexValue? (Nat.digitChar d) = some d := by
  have hall : ∀ e < 16, hexValue? (Nat.digitChar e) = some e := by decide
  exact hall d h

theorem hexNumber_concat :
    hexNumber (digits ++ [c]) = 16 * hexNumber digits + (hexValue? c).getD 0 := by
  simp [hexNumber]

/-- The last digit stands for the remainder, the digits before it for the quotient. -/
theorem hexNumber_toDigits (n : Nat) : hexNumber (Nat.toDigits 16 n) = n := by
  induction n using Nat.strongRecOn with
  | ind n ih =>
    rw [Nat.toDigits_eq_if (by decide)]
    split
    · next h => simp [hexNumber, hexValue?_digitChar h]
    · next h =>
      rw [hexNumber_concat, ih (n / 16) (by omega), hexValue?_digitChar (Nat.mod_lt n (by decide)),
        Option.getD_some]
      omega

theorem isSome_hexValue?_of_mem_toDigits (hc : c ∈ Nat.toDigits 16 n) :
    (hexValue? c).isSome := by
  induction n using Nat.strongRecOn with
  | ind n ih =>
    rw [Nat.toDigits_eq_if (by decide)] at hc
    split at hc
    · next h =>
      rw [List.mem_singleton.1 hc, hexValue?_digitChar h]
      rfl
    · next h =>
      rcases List.mem_append.1 hc with hc | hc
      · exact ih (n / 16) (by omega) hc
      · rw [List.mem_singleton.1 hc, hexValue?_digitChar (Nat.mod_lt n (by decide))]
        rfl

namespace CodePointEscape

theorem step_unopened_eq_ok_iff {x : CodePointEscape ⊕ Char} :
    unopened.step c = .ok x ↔ c = '{' ∧ x = .inl (opened []) := by
  by_cases hc : c = '{' <;> simp [step, hc, eq_comm]

/-- A digit is taken if there is room for it, and the brace if the digits have a value. -/
theorem step_opened_eq_ok_iff {x : CodePointEscape ⊕ Char} :
    (opened digits).step c = .ok x ↔
      (hexValue? c).isSome ∧ digits.length < 4 ∧ x = .inl (opened (digits ++ [c])) ∨
        c = '}' ∧ ∃ d, value digits = .ok d ∧ x = .inr d := by
  have hbrace : hexValue? '}' = none := by decide
  by_cases hc : (hexValue? c).isSome
  · have hne : c ≠ '}' := by
      rintro rfl
      simp [hbrace] at hc
    by_cases hroom : digits.length < 4 <;> simp [step, hc, hne, hroom, eq_comm]
  · by_cases hb : c = '}'
    · cases hvalue : value digits <;> simp [step, hb, hbrace, hvalue, Except.map, eq_comm]
    · simp [step, hc, hb]

theorem reads_digits (hhex : ∀ d ∈ ds, (hexValue? d).isSome)
    (hlen : (digits ++ ds).length ≤ 4) : Reads (opened digits) ds (opened (digits ++ ds)) := by
  induction ds generalizing digits with
  | nil =>
    rw [List.append_nil]
    exact .nil _
  | cons d ds ih =>
    have hd : (opened digits).step d = .ok (.inl (opened (digits ++ [d]))) := by
      have hroom : digits.length < 4 := by
        simp only [List.length_append, List.length_cons] at hlen
        omega
      simp [step, hhex d (by simp), hroom]
    rw [List.append_cons] at hlen ⊢
    exact .cons hd (ih (fun e he => hhex e (by simp [he])) hlen)

/-- Up to four digits make a code point escape, if they have a value. -/
theorem yields_of_value (hhex : ∀ d ∈ digits, (hexValue? d).isSome) (hlen : digits.length ≤ 4)
    (hvalue : value digits = .ok c) : Yields unopened ('{' :: digits ++ ['}']) c := by
  have hopen : Reads unopened ['{'] (opened []) := .single rfl
  have hclose : (opened digits).step '}' = .ok (.inr c) := by
    have hbrace : hexValue? '}' = none := by decide
    simp [step, hbrace, hvalue, Except.map]
  exact (hopen.append (reads_digits hhex hlen)).yields (.last hclose)

theorem value_eq_ok_iff : value digits = .ok c ↔ digits ≠ [] ∧ c.toNat = hexNumber digits := by
  cases digits with
  | nil => exact iff_of_false nofun fun h => h.1 rfl
  | cons d ds =>
    simp only [value, ne_eq, List.cons_ne_nil, not_false_eq_true, true_and]
    constructor
    · intro h
      split at h
      · next hd =>
        cases h
        exact Scalar.toNat_of_ofCodePoint? hd
      · contradiction
    · intro h
      rw [← h, Scalar.ofCodePoint?_toNat]

theorem yields_toDigits (h : c.toNat ≤ 0xFFFF) :
    Yields unopened ('{' :: Nat.toDigits 16 c.toNat ++ ['}']) c := by
  apply yields_of_value
  · intro d hd
    exact isSome_hexValue?_of_mem_toDigits hd
  · rw [Nat.length_toDigits_le_iff (by decide) (by decide)]
    omega
  · exact value_eq_ok_iff.2 ⟨Nat.toDigits_ne_nil, (hexNumber_toDigits c.toNat).symm⟩

end CodePointEscape

end Regexp
