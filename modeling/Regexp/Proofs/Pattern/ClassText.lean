import Regexp.Proofs.Pattern.ClassReading

/-! A class body has one reading: its text up to the bracket determines every part of it, whatever
follows. -/
namespace Regexp

variable {spot : ClassSpot} {c : Char} {s s' l l' : List Char} {k : CharClass}

theorem append_cons_inj_of_not_mem (hl : c ∉ l) (hl' : c ∉ l') (h : l ++ c :: s = l' ++ c :: s') :
    l = l' ∧ s = s' := by
  induction l generalizing l' with
  | nil =>
    cases l' with
    | nil => exact ⟨rfl, (List.cons.inj h).2⟩
    | cons d l' => exact (hl' (by simp [(List.cons.inj h).1])).elim
  | cons d l ih =>
    cases l' with
    | nil => exact (hl (by simp [(List.cons.inj h).1])).elim
    | cons d' l' =>
      obtain ⟨rfl, hrest⟩ := List.cons.inj h
      obtain ⟨rfl, rfl⟩ := ih (mt (.tail d) hl) (mt (.tail d) hl') hrest
      exact ⟨rfl, rfl⟩

theorem CodePointDigits.text_append_inj {e e' : CodePointDigits}
    (h : e.digits ++ '}' :: s = e'.digits ++ '}' :: s') : e = e' ∧ s = s' := by
  have hbrace (e : CodePointDigits) : '}' ∉ e.digits := by
    intro hmem
    exact absurd (e.isSome_hexValue? _ hmem) (by decide)
  obtain ⟨hdigits, hs⟩ := append_cons_inj_of_not_mem (hbrace e) (hbrace e') h
  obtain ⟨digits, d, _, _, _, hd⟩ := e
  obtain ⟨digits', d', _, _, _, hd'⟩ := e'
  obtain rfl : digits = digits' := hdigits
  obtain rfl : d = d' := Char.toNat_inj.1 (hd.trans hd'.symm)
  exact ⟨rfl, hs⟩

namespace WrittenChar
variable {w w' : WrittenChar}

@[simp] theorem text_plain_append : (plain c).text ++ s = c :: s := rfl

@[simp] theorem text_codePoint_append {e : CodePointDigits} :
    (codePoint e).text ++ s = '\\' :: 'u' :: '{' :: (e.digits ++ '}' :: s) := by
  simp [text]

@[simp] theorem text_backslash_append : backslash.text ++ s = '\\' :: '\\' :: s := rfl

theorem Begins.ne_plain (h : w.Begins spot) : w ≠ plain '\\' := by
  rintro rfl
  simp [Begins] at h

theorem Ends.ne_plain (h : w.Ends) : w ≠ plain '\\' := by
  rintro rfl
  exact h rfl

theorem text_append_inj (hw : w ≠ plain '\\') (hw' : w' ≠ plain '\\')
    (h : w.text ++ s = w'.text ++ s') : w = w' ∧ s = s' := by
  cases w with
  | plain c =>
    cases w' with
    | plain c' => simpa using h
    | _ =>
      obtain ⟨rfl, _⟩ : c = '\\' ∧ _ := by simpa using h
      contradiction
  | codePoint e =>
    cases w' with
    | plain c =>
      obtain ⟨rfl, _⟩ : '\\' = c ∧ _ := by simpa using h
      contradiction
    | codePoint e' =>
      obtain ⟨rfl, rfl⟩ := CodePointDigits.text_append_inj (by simpa using h)
      exact ⟨rfl, rfl⟩
    | backslash => simp at h
  | backslash =>
    cases w' with
    | plain c =>
      obtain ⟨rfl, _⟩ : '\\' = c ∧ _ := by simpa using h
      contradiction
    | codePoint e => simp at h
    | backslash => simpa using h

/-- A character begins no escape of a class and no sign. -/
theorem text_append_ne (hw : w.Begins spot)
    (hc : c ∈ [']', '['] ∨ c ∈ spot.signs) : w.text ++ s ≠ c :: s' := by
  intro h
  cases w with
  | plain d =>
    obtain ⟨rfl, _⟩ : d = c ∧ _ := by simpa using h
    rcases hc with hc | hc
    · exact hw.1 (List.mem_append_left ['\\'] hc)
    · exact hw.2 hc
  | codePoint e =>
    obtain ⟨rfl, _⟩ : '\\' = c ∧ _ := by simpa using h
    cases spot <;> simp [ClassSpot.signs] at hc
  | backslash => exact hw

theorem text_append_ne_escape (hw : w.Begins spot) (hc : escapedClass c = .ok k) :
    w.text ++ s ≠ '\\' :: c :: s' := by
  intro h
  cases w with
  | plain d =>
    obtain ⟨rfl, _⟩ : d = '\\' ∧ _ := by simpa using h
    exact hw.ne_plain rfl
  | codePoint e =>
    obtain ⟨rfl, _⟩ : 'u' = c ∧ _ := by simpa using h
    contradiction
  | backslash => exact hw

end WrittenChar

namespace ClassAtom
variable {a a' : ClassAtom}

@[simp] theorem text_range_append {lo hi : WrittenChar} :
    (range lo hi).text ++ s = lo.text ++ '-' :: (hi.text ++ s) := by
  simp [text]

theorem text_append_inj (ha : a.Begins spot) (ha' : a'.Begins spot) (hs : a.Precedes s)
    (hs' : a'.Precedes s') (h : a.text ++ s = a'.text ++ s') : a = a' ∧ s = s' := by
  cases a with
  | char w =>
    cases a' with
    | char w' =>
      obtain ⟨rfl, rfl⟩ := WrittenChar.text_append_inj ha.ne_plain ha'.ne_plain h
      exact ⟨rfl, rfl⟩
    | range lo hi =>
      rw [text_range_append] at h
      obtain ⟨_, rfl⟩ := WrittenChar.text_append_inj ha.ne_plain ha'.1.ne_plain h
      exact (hs rfl).elim
    | escape c k hc => exact (WrittenChar.text_append_ne_escape ha hc h).elim
  | range lo hi =>
    rw [text_range_append] at h
    cases a' with
    | char w' =>
      obtain ⟨_, rfl⟩ := WrittenChar.text_append_inj ha.1.ne_plain ha'.ne_plain h
      exact (hs' rfl).elim
    | range lo' hi' =>
      rw [text_range_append] at h
      obtain ⟨rfl, hrest⟩ := WrittenChar.text_append_inj ha.1.ne_plain ha'.1.ne_plain h
      obtain ⟨rfl, rfl⟩ :=
        WrittenChar.text_append_inj ha.2.ne_plain ha'.2.ne_plain (List.cons.inj hrest).2
      exact ⟨rfl, rfl⟩
    | escape c k hc => exact (WrittenChar.text_append_ne_escape ha.1 hc h).elim
  | escape c k hc =>
    cases a' with
    | char w' => exact (WrittenChar.text_append_ne_escape ha' hc h.symm).elim
    | range lo' hi' =>
      rw [text_range_append] at h
      exact (WrittenChar.text_append_ne_escape ha'.1 hc h.symm).elim
    | escape c' k' hc' =>
      obtain ⟨rfl, rfl⟩ : c = c' ∧ s = s' := by simpa [text] using h
      obtain rfl : k = k' := Except.ok.inj (hc.symm.trans hc')
      exact ⟨rfl, rfl⟩

/-- No single class begins like a bracket or a sign. -/
theorem text_append_ne (ha : a.Begins spot) (hc : c ∈ [']', '['] ∨ c ∈ spot.signs) :
    a.text ++ s ≠ c :: s' := by
  cases a with
  | char w => exact WrittenChar.text_append_ne ha hc
  | range lo hi =>
    rw [text_range_append]
    exact WrittenChar.text_append_ne ha.1 hc
  | escape d k hd =>
    intro h
    obtain ⟨rfl, _⟩ : '\\' = c ∧ _ := by simpa [text] using h
    cases spot <;> simp [ClassSpot.signs] at hc

end ClassAtom

namespace ClassSyntax
variable {t u : ClassSyntax}

/-- A body that begins with a sign or a bracket begins with no other single class. -/
theorem text_append_ne_atom {a : ClassAtom} (ha : (atom a t).Grammatical spot)
    (hu : u.Grammatical spot) (hne : ∀ b v, u ≠ atom b v) :
    (atom a t).text ++ ']' :: s ≠ u.text ++ ']' :: s' := by
  rw [text, List.append_assoc]
  cases u with
  | done => exact a.text_append_ne ha.1 (by simp)
  | complement u =>
    obtain ⟨rfl, _⟩ := hu
    exact a.text_append_ne ha.1 (by simp [ClassSpot.signs])
  | atom b u => exact (hne b u rfl).elim
  | bracket inner u => exact a.text_append_ne ha.1 (by simp)
  | inter u =>
    rcases hu.1 with rfl | rfl <;> exact a.text_append_ne ha.1 (by simp [ClassSpot.signs])
  | diff u =>
    obtain ⟨rfl, _⟩ := hu
    exact a.text_append_ne ha.1 (by simp [ClassSpot.signs])

theorem text_append_inj (ht : t.Grammatical spot) (hu : u.Grammatical spot)
    (h : t.text ++ ']' :: s = u.text ++ ']' :: s') : t = u ∧ s = s' := by
  induction t generalizing u spot s s' with
  | done =>
    cases u with
    | done => exact ⟨rfl, (List.cons.inj h).2⟩
    | atom a u => exact (text_append_ne_atom hu ht (by simp) h.symm).elim
    | _ => simp [text] at h
  | complement t ih =>
    cases u with
    | complement u =>
      obtain ⟨rfl, rfl⟩ := ih ht.2 hu.2 (List.cons.inj h).2
      exact ⟨rfl, rfl⟩
    | atom a u => exact (text_append_ne_atom hu ht (by simp) h.symm).elim
    | _ => simp [text] at h
  | atom a t ih =>
    cases u with
    | atom a' u =>
      rw [text, text, List.append_assoc, List.append_assoc] at h
      obtain ⟨rfl, hrest⟩ := ClassAtom.text_append_inj ht.1 hu.1
        (ClassReader.precedes_append_iff.2 ht.2.1) (ClassReader.precedes_append_iff.2 hu.2.1) h
      obtain ⟨rfl, rfl⟩ := ih ht.2.2 hu.2.2 hrest
      exact ⟨rfl, rfl⟩
    | _ => exact (text_append_ne_atom ht hu (by simp) h).elim
  | bracket inner t ihinner ih =>
    cases u with
    | atom a u => exact (text_append_ne_atom hu ht (by simp) h.symm).elim
    | bracket inner' u =>
      have hinner : inner.text ++ ']' :: (t.text ++ ']' :: s) =
          inner'.text ++ ']' :: (u.text ++ ']' :: s') := by
        simpa [text] using h
      obtain ⟨rfl, hrest⟩ := ihinner ht.1 hu.1 hinner
      obtain ⟨rfl, rfl⟩ := ih ht.2 hu.2 hrest
      exact ⟨rfl, rfl⟩
    | _ => simp [text] at h
  | inter t ih =>
    cases u with
    | atom a u => exact (text_append_ne_atom hu ht (by simp) h.symm).elim
    | inter u =>
      obtain ⟨rfl, rfl⟩ := ih ht.2 hu.2 (List.cons.inj (List.cons.inj h).2).2
      exact ⟨rfl, rfl⟩
    | _ => simp [text] at h
  | diff t ih =>
    cases u with
    | atom a u => exact (text_append_ne_atom hu ht (by simp) h.symm).elim
    | diff u =>
      obtain ⟨rfl, rfl⟩ := ih ht.2 hu.2 (List.cons.inj h).2
      exact ⟨rfl, rfl⟩
    | _ => simp [text] at h

end ClassSyntax

end Regexp
