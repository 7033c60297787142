import Regexp.Proofs.Pattern.Completion

/-! The offset of an unexpected character is the first at which the text goes wrong: what stands up to
it begins no pattern, and what stands before it does. -/
namespace Regexp

namespace Reader
variable {r r' : Reader} {p q s t : List Char} {n offset : Nat} {f : Fault}

theorem Reads.run_append (h : r.Reads s r') :
    r.run offset (s ++ t) = r'.run (offset + s.length) t := by
  induction h generalizing offset with
  | nil => rfl
  | cons hstep _ ih =>
    rw [List.cons_append, run, hstep]
    change Reader.run _ (offset + 1) _ = _
    rw [ih, List.length_cons, Nat.add_assoc, Nat.add_comm 1]

theorem run_eq_error_iff :
    r.run offset s = .error (n, f) ↔
      ∃ t c rest r', s = t ++ c :: rest ∧ n = offset + t.length ∧ r.Reads t r' ∧
        r'.step c = .error f := by
  constructor
  · intro h
    induction s generalizing r offset with
    | nil => contradiction
    | cons c s ih =>
      rw [run] at h
      split at h
      · next r₁ hstep =>
        obtain ⟨t, d, rest, r', rfl, rfl, hread, hfault⟩ := ih h
        exact ⟨c :: t, d, rest, r', rfl, by simp; omega, .cons hstep hread, hfault⟩
      · next f' hstep =>
        cases h
        exact ⟨[], c, s, r, rfl, rfl, .nil r, hstep⟩
  · rintro ⟨t, c, rest, r', rfl, rfl, hread, hfault⟩
    rw [hread.run_append, run, hfault]

/-- An unexpected character is one that the reader has no use for, or the end of the text where
something in it is left open. -/
theorem parse_eq_unexpected_iff :
    Pattern.parse p = .error (.unexpected q n) ↔
      q = p ∧ ((∃ s c rest r, p = s ++ c :: rest ∧ n = s.length ∧ start.Reads s r ∧
        r.step c = .error .unexpected) ∨
          n = p.length ∧ ∃ r, start.Reads p r ∧ r.finish? = none) := by
  constructor
  · intro h
    unfold Pattern.parse at h
    split at h
    · next m f hrun =>
      cases f with
      | unexpected =>
        cases h
        obtain ⟨s, c, rest, r, hp, hn, hread, hfault⟩ := run_eq_error_iff.1 hrun
        rw [Nat.zero_add] at hn
        exact ⟨rfl, .inl ⟨s, c, rest, r, hp, hn, hread, hfault⟩⟩
      | escape e => cases h
    · next r hrun =>
      split at h
      · contradiction
      · next hopen =>
        cases h
        exact ⟨rfl, .inr ⟨rfl, r, run_eq_ok_iff.1 hrun, hopen⟩⟩
  · rintro ⟨rfl, ⟨s, c, rest, r, rfl, rfl, hread, hfault⟩ | ⟨rfl, r, hread, hopen⟩⟩
    · have hrun : start.run 0 (s ++ c :: rest) = .error (s.length, .unexpected) := by
        rw [hread.run_append, run, hfault, Nat.zero_add]
      simp only [Pattern.parse, hrun, PatternError.ofFault]
    · have hrun : start.run 0 q = .ok r := run_eq_ok_iff.2 hread
      simp only [Pattern.parse, hrun, hopen]

theorem Reads.exists_parse (h : start.Reads s r) (hs : ¬ EndsInSurrogate s) :
    ∃ t p, Pattern.parse (s ++ t) = .ok p := by
  have hends : r.mode.Ends ([] ++ s) := h.ends trivial
  obtain ⟨t, g, ht⟩ := (exists_reads hends).resolve_left hs
  exact ⟨t, _, parse_eq_ok_iff.2 ⟨g, h.append ht, rfl⟩⟩

end Reader

namespace Pattern
variable {p p' : List Char} {n : Nat}

theorem unexpected_offset_exact (h : parse p = .error (.unexpected p' n)) :
    p' = p ∧ n ≤ p.length ∧
      (n < p.length → ∀ q : List Char, q.take (n + 1) = p.take (n + 1) →
        parse q = .error (.unexpected q n)) ∧
      (¬ EndsInSurrogate (p.take n) →
        ∃ (t : List Char) (q : Pattern), parse (p.take n ++ t) = .ok q) := by
  obtain ⟨rfl, ⟨s, c, rest, r, rfl, rfl, hread, hfault⟩ | ⟨rfl, r, hread, _⟩⟩ :=
    Reader.parse_eq_unexpected_iff.1 h
  · refine ⟨rfl, by simp, fun _ q hq => ?_, ?_⟩
    · have hsplit : q = s ++ c :: q.drop (s.length + 1) := by
        rw [List.take_length_add_append] at hq
        conv_lhs => rw [← List.take_append_drop (s.length + 1) q, hq]
        simp
      exact Reader.parse_eq_unexpected_iff.2 ⟨rfl, .inl ⟨s, c, _, r, hsplit, rfl, hread, hfault⟩⟩
    · rw [List.take_left]
      exact hread.exists_parse
  · refine ⟨rfl, Nat.le_refl _, fun hn => absurd hn (Nat.lt_irrefl _), ?_⟩
    rw [List.take_length]
    exact hread.exists_parse

/-- Only a second ampersand can follow the first. -/
theorem unexpected_offset_exact_ampersand :
    let p := "(x|[a&b])".toList
    parse p = .error (.unexpected p 6) ∧
      (∀ q : List Char, q.take 7 = p.take 7 → parse q = .error (.unexpected q 6)) ∧
      ∃ (t : List Char) (q : Pattern), parse ("(x|[a&".toList ++ t) = .ok q := by
  intro p
  have h : parse p = .error (.unexpected p 6) := by decide
  obtain ⟨-, -, hprefix, hcomplete⟩ := unexpected_offset_exact h
  refine ⟨h, hprefix (by decide), hcomplete ?_⟩
  rintro ⟨digits, hdigits, _, _, _, hsuffix⟩
  have hlen := hsuffix.length_le
  simp [hdigits, p] at hlen

end Pattern

end Regexp
