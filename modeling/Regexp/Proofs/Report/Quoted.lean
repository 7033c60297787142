import Regexp.Proofs.Pattern.ClassReading
import Regexp.Report

/-! The quoted form of a text. All of it shows, and it can be read back. -/
namespace Regexp

variable {c d letter : Char} {n : Nat} {s t : List Char}

theorem isVisible_of_le_of_lt (hlo : 0x20 ≤ c.toNat) (hhi : c.toNat < 0x7F) : isVisible c := by
  have hgap : invisible.all (fun r => r.2 < 0x20 || 0x7F ≤ r.1) = true := by decide +kernel
  rw [isVisible, Bool.not_eq_true', List.any_eq_false]
  intro r hr
  have hout := List.all_eq_true.1 hgap r hr
  simp only [Bool.or_eq_true, decide_eq_true_eq, Bool.and_eq_true] at hout ⊢
  omega

theorem isVisible_of_hexPlace (h : hexPlace c < 16) : isVisible c := by
  have hc : c.toNat < 128 := by
    by_contra hle
    rw [hexPlace_of_le (Nat.le_of_not_lt hle)] at h
    omega
  have hall : ∀ n < 128, hexPlace (.ofNat n) < 16 → 0x20 ≤ n ∧ n < 0x7F := by decide +kernel
  obtain ⟨hlo, hhi⟩ := hall c.toNat hc (by rwa [Char.ofNat_toNat])
  exact isVisible_of_le_of_lt hlo hhi

namespace Report

theorem hexPlace_lt_of_mem_toDigits (hc : c ∈ Nat.toDigits 16 n) : hexPlace c < 16 :=
  isSome_hexValue?_iff.1 (isSome_hexValue?_of_mem_toDigits hc)

theorem isVisible_of_escapeLetter? (h : escapeLetter? c = some letter) : isVisible letter := by
  unfold escapeLetter? at h
  split at h <;> cases h <;> exact isVisible_of_le_of_lt (by decide) (by decide)

theorem isVisible_of_mem_quotedChar (h : d ∈ quotedChar c) : isVisible d := by
  unfold quotedChar at h
  split at h
  · next letter hletter =>
    simp only [List.mem_cons, List.not_mem_nil, or_false] at h
    rcases h with rfl | rfl
    · exact isVisible_of_le_of_lt (by decide) (by decide)
    · exact isVisible_of_escapeLetter? hletter
  · split at h
    · next hc =>
      rw [List.mem_singleton.1 h]
      exact hc
    · simp only [List.mem_cons, List.cons_append, List.mem_append, List.not_mem_nil, or_false] at h
      rcases h with rfl | rfl | rfl | hd | rfl
      case inr.inr.inr.inl => exact isVisible_of_hexPlace (hexPlace_lt_of_mem_toDigits hd)
      all_goals exact isVisible_of_le_of_lt (by decide) (by decide)

/-- Whatever the text holds, its quoted form is one line on which everything shows. -/
theorem isVisible_of_mem_quoted (h : c ∈ quoted s) : isVisible c := by
  simp only [quoted, List.mem_cons, List.cons_append, List.mem_append, List.mem_flatMap,
    List.not_mem_nil, or_false] at h
  rcases h with rfl | ⟨d, -, hc⟩ | rfl
  · exact isVisible_of_le_of_lt (by decide) (by decide)
  · exact isVisible_of_mem_quotedChar hc
  · exact isVisible_of_le_of_lt (by decide) (by decide)

/-- A soft hyphen, an accent without a letter and a line feed. -/
example : quoted ['a', '\u00AD', '\u0301', '\n'] = "\"a\\u\x7bad\x7d\\u\x7b301\x7d\\n\"".toList := by
  decide +kernel

/-! ### Reading back -/

def unescapedLetter? (letter : Char) : Option Char :=
  match letter with
  | '"' => some '"'
  | '\\' => some '\\'
  | '0' => some '\x00'
  | 't' => some '\t'
  | 'n' => some '\n'
  | 'r' => some '\r'
  | _ => none

/-- The first character of a quoted text, and what follows it. -/
def readChar? : List Char → Option (Char × List Char)
  | '\\' :: 'u' :: '{' :: s =>
    (Scalar.ofCodePoint? (hexNumber (s.takeWhile (· ≠ '}')))).map (·, (s.dropWhile (· ≠ '}')).tail)
  | '\\' :: letter :: s => (unescapedLetter? letter).map (·, s)
  | c :: s => some (c, s)
  | [] => none

theorem readChar?_quotedChar (c : Char) (s : List Char) :
    readChar? (quotedChar c ++ s) = some (c, s) := by
  unfold quotedChar
  split
  · next letter h =>
    unfold escapeLetter? at h
    split at h <;> cases h <;> rfl
  · next h =>
    split
    · have hc : c ≠ '\\' := by
        rintro rfl
        contradiction
      simp [readChar?, hc]
    · have hbrace : ∀ d ∈ Nat.toDigits 16 c.toNat, decide (d ≠ '}') = true := by
        intro d hd
        have hne : d ≠ '}' := by
          rintro rfl
          exact absurd (hexPlace_lt_of_mem_toDigits hd) (by decide)
        exact decide_eq_true hne
      simp only [List.cons_append, List.append_assoc, List.nil_append, readChar?]
      rw [List.takeWhile_append_of_pos hbrace, List.dropWhile_append_of_pos hbrace]
      simp [hexNumber_toDigits, Scalar.ofCodePoint?_toNat]

theorem flatMap_quotedChar_inj (h : s.flatMap quotedChar = t.flatMap quotedChar) : s = t := by
  induction s generalizing t with
  | nil =>
    cases t with
    | nil => rfl
    | cons d t =>
      have hread := readChar?_quotedChar d (t.flatMap quotedChar)
      rw [← List.flatMap_cons, ← h] at hread
      contradiction
  | cons c s ih =>
    have hread := readChar?_quotedChar c (s.flatMap quotedChar)
    rw [← List.flatMap_cons, h] at hread
    cases t with
    | nil => contradiction
    | cons d t =>
      rw [List.flatMap_cons, readChar?_quotedChar] at hread
      obtain ⟨rfl, hst⟩ := Prod.mk.inj (Option.some.inj hread)
      rw [ih hst.symm]

theorem quoted_injective : Function.Injective quoted := by
  intro s t h
  exact flatMap_quotedChar_inj (List.append_cancel_right (List.cons.inj h).2)

end Report

end Regexp
