import Mathlib.Algebra.Group.Nat.Defs
import Mathlib.Data.List.Induction
import Regexp.Proofs.Pattern.Canonical
import Regexp.Proofs.Pattern.ClassReading

/-! Whatever has been read of a text, the text can be completed to a pattern. The one exception are
four digits of an escape that are the number of a surrogate. -/
namespace Regexp

variable {c d : Char} {s t digits : List Char} {n : Nat}

/-! ### Code points -/

theorem lt_of_hexValue? (h : hexValue? c = some n) : n < 16 := by
  have hle (c d : Char) : c ≤ d ↔ c.toNat ≤ d.toNat := Char.le_def.trans UInt32.le_iff_toNat_le
  simp only [hexValue?, hle, Char.reduceToNat] at h
  split at h
  · cases h
    omega
  · split at h
    · cases h
      omega
    · split at h
      · cases h
        omega
      · cases h

theorem hexNumber_lt (h : ∀ d ∈ digits, (hexValue? d).isSome) :
    hexNumber digits < 16 ^ digits.length := by
  induction digits using List.reverseRecOn with
  | nil => decide
  | append_singleton digits c ih =>
    rw [List.forall_mem_append] at h
    obtain ⟨n, hn⟩ := Option.isSome_iff_exists.1 (h.2 c (by simp))
    have hdigits := ih h.1
    have hc := lt_of_hexValue? hn
    rw [hexNumber_concat, hn, Option.getD_some, List.length_append, List.length_singleton,
      Nat.pow_succ]
    omega

/-- The text ends in an escape with the number of a surrogate, where only the brace is missing. -/
def EndsInSurrogate (s : List Char) : Prop :=
  ∃ digits : List Char, digits.length = 4 ∧ (∀ d ∈ digits, (hexValue? d).isSome) ∧
    0xD800 ≤ hexNumber digits ∧ hexNumber digits ≤ 0xDFFF ∧ '\\' :: 'u' :: '{' :: digits <:+ s

namespace CodePointEscape
variable {e e' : CodePointEscape}

def Ends (s : List Char) : CodePointEscape → Prop
  | unopened => ['\\', 'u'] <:+ s
  | opened digits =>
    '\\' :: 'u' :: '{' :: digits <:+ s ∧ (∀ d ∈ digits, (hexValue? d).isSome) ∧ digits.length ≤ 4

theorem ends_unopened (hs : ['\\'] <:+ s) : unopened.Ends (s ++ ['u']) := by
  obtain ⟨front, rfl⟩ := hs
  exact ⟨front, by simp⟩

theorem Ends.step (he : e.Ends s) (h : e.step c = .ok (.inl e')) : e'.Ends (s ++ [c]) := by
  cases e with
  | unopened =>
    obtain ⟨front, rfl⟩ : ['\\', 'u'] <:+ s := he
    obtain ⟨rfl, he'⟩ := step_unopened_eq_ok_iff.1 h
    cases he'
    exact ⟨⟨front, by simp⟩, by simp, by simp⟩
  | opened digits =>
    obtain ⟨⟨front, rfl⟩, hhex, hlen⟩ := he
    rcases step_opened_eq_ok_iff.1 h with ⟨hc, hroom, he'⟩ | ⟨_, d, _, he'⟩
    · cases he'
      refine ⟨⟨front, by simp⟩, ?_, by simp; omega⟩
      rw [List.forall_mem_append]
      exact ⟨hhex, by simpa using hc⟩
    · contradiction

/-- A number of at most four digits is a character unless it is that of a surrogate. -/
theorem exists_value_or_surrogate (hne : digits ≠ []) (hhex : ∀ d ∈ digits, (hexValue? d).isSome)
    (hlen : digits.length ≤ 4) :
    (∃ c, value digits = .ok c) ∨
      digits.length = 4 ∧ 0xD800 ≤ hexNumber digits ∧ hexNumber digits ≤ 0xDFFF := by
  by_cases hvalid : (hexNumber digits).isValidChar
  · exact .inl ⟨_, value_eq_ok_iff.2 ⟨hne, Scalar.toNat_of_ofCodePoint? (if_pos hvalid)⟩⟩
  · right
    have hbound (n : Nat) (hn : digits.length ≤ n) : hexNumber digits < 16 ^ n :=
      Nat.lt_of_lt_of_le (hexNumber_lt hhex) (Nat.pow_le_pow_right (by decide) hn)
    have hfour := hbound 4 hlen
    have hthree := hbound 3
    unfold Nat.isValidChar at hvalid
    omega

theorem Ends.exists_yields (he : e.Ends s) : EndsInSurrogate s ∨ ∃ t c, e.Yields t c := by
  have hzero : Yields (opened []) ['0', '}'] '\x00' := .cons rfl (.last rfl)
  cases e with
  | unopened => exact .inr ⟨['{', '0', '}'], _, .cons rfl hzero⟩
  | opened digits =>
    obtain ⟨hsuffix, hhex, hlen⟩ := he
    by_cases hne : digits = []
    · subst hne
      exact .inr ⟨_, _, hzero⟩
    · rcases exists_value_or_surrogate hne hhex hlen with ⟨c, hc⟩ | ⟨hfour, hle, hge⟩
      · exact .inr ⟨['}'], c, .last (step_opened_eq_ok_iff.2 (.inr ⟨rfl, c, hc, rfl⟩))⟩
      · exact .inl ⟨digits, hfour, hhex, hle, hge, hsuffix⟩

end CodePointEscape

/-! ### Classes -/

/-- The text ends in the escape that the place is inside of, if it is inside of one. -/
def ClassPlace.Ends (s : List Char) : ClassPlace → Prop
  | escape => ['\\'] <:+ s
  | endEscape _ => ['\\'] <:+ s
  | codePoint e => e.Ends s
  | endCodePoint _ e => e.Ends s
  | _ => True

namespace ClassReader
variable {r r' : ClassReader} {body : ClassBody} {outer : List (Nesting × ClassBody)}

theorem place_of_close (h : close body outer = .inl r) : r.place = .single := by
  induction outer generalizing body with
  | nil => contradiction
  | cons parent outer ih =>
    obtain ⟨nesting, parent⟩ := parent
    cases nesting with
    | bracket =>
      cases h
      rfl
    | subtrahend => exact ih h

theorem ends_begin (h : r.begin c = .inl r') : r'.place.Ends (s ++ [c]) := by
  unfold begin at h
  split at h
  · rw [place_of_close h]
    trivial
  · split at h
    · cases h
      trivial
    · split at h
      · next hc =>
        cases h
        rw [hc]
        exact List.suffix_append s _
      · cases h
        trivial

theorem ends_operate (h : r.operate c = .inl r') : r'.place.Ends (s ++ [c]) := by
  unfold operate at h
  split at h
  · cases h
    trivial
  · split at h
    · cases h
      trivial
    · exact ends_begin h

theorem ends_step (hr : r.place.Ends s) (h : r.step c = .ok (.inl r')) :
    r'.place.Ends (s ++ [c]) := by
  obtain ⟨body, place, outer⟩ := r
  cases place with
  | opened =>
    simp only [step] at h
    split at h
    · cases h
      trivial
    · exact ends_begin (Except.ok.inj h)
  | sign =>
    have h := Except.ok.inj h
    split at h
    · exact ends_begin h
    · exact ends_operate h
  | single => exact ends_operate (Except.ok.inj h)
  | ampersand =>
    simp only [step] at h
    split at h
    · cases h
      trivial
    · contradiction
  | char d =>
    simp only [step] at h
    split at h
    · cases h
      trivial
    · exact ends_operate (Except.ok.inj h)
  | dash d =>
    simp only [step] at h
    split at h
    · next hc =>
      cases h
      rw [hc]
      exact List.suffix_append s _
    · cases h
      trivial
  | escape =>
    simp only [step] at h
    split at h
    · next hc =>
      cases h
      rw [hc]
      exact CodePointEscape.ends_unopened hr
    · obtain ⟨k, _, hk⟩ := map_eq_ok_iff.1 h
      cases hk
      trivial
  | codePoint e =>
    obtain ⟨x, hx, hk⟩ := map_eq_ok_iff.1 h
    cases x with
    | inl e' =>
      cases hk
      exact CodePointEscape.Ends.step hr hx
    | inr d =>
      cases hk
      trivial
  | endEscape d =>
    simp only [step] at h
    split at h
    · next hc =>
      cases h
      rw [hc]
      exact CodePointEscape.ends_unopened hr
    · split at h
      · cases h
        trivial
      · contradiction
  | endCodePoint d e =>
    obtain ⟨x, hx, hk⟩ := map_eq_ok_iff.1 h
    cases x with
    | inl e' =>
      cases hk
      exact CodePointEscape.Ends.step hr hx
    | inr d' =>
      cases hk
      trivial

theorem step_bracket_of_isBoundary (hr : r.place.IsBoundary) :
    r.step ']' = .ok (close r.body r.outer) :=
  step_of_isBoundary hr (by decide)

/-- A bracket for each body that stands in brackets. -/
theorem exists_closes (body : ClassBody) (outer : List (Nesting × ClassBody)) :
    ∃ s k, Closes body outer s k := by
  induction outer generalizing body with
  | nil => exact ⟨[], body.value, rfl, rfl⟩
  | cons parent outer ih =>
    obtain ⟨nesting, parent⟩ := parent
    cases nesting with
    | bracket =>
      obtain ⟨s, k, h⟩ := ih (parent.add body.value)
      have hparent : (⟨parent.add body.value, .single, outer⟩ : ClassReader).place.IsBoundary :=
        .inr (.inr rfl)
      exact ⟨']' :: s, k, (yields_bracket_iff (step_bracket_of_isBoundary hparent)).2 h⟩
    | subtrahend => exact ih (parent.subtract body.value)

theorem exists_yields_of_isBoundary (hr : r.place.IsBoundary) : ∃ s k, r.Yields s k := by
  obtain ⟨s, k, h⟩ := exists_closes r.body r.outer
  exact ⟨']' :: s, k, (yields_bracket_iff (step_bracket_of_isBoundary hr)).2 h⟩

theorem exists_yields_of_reads (hs : r.Reads s r') (hr : r'.place.IsBoundary) :
    ∃ s k, r.Yields s k := by
  obtain ⟨t, k, h⟩ := exists_yields_of_isBoundary hr
  exact ⟨s ++ t, k, hs.yields h⟩

theorem exists_yields_of_char (r : ClassReader) (c : Char) :
    ∃ s k, (r.goto (.char c)).Yields s k := by
  have hsingle : (r.add (.single c)).place.IsBoundary := .inr (.inr rfl)
  obtain ⟨s, k, h⟩ := exists_closes (r.add (.single c)).body r.outer
  refine ⟨']' :: s, k, (yields_congr ?_).2 ((yields_bracket_iff ?_).2 h)⟩
  · rintro _ ⟨⟩
    exact step_char (by decide) c
  · exact step_bracket_of_isBoundary hsingle

/-- A class can be completed where its last escape can. -/
theorem exists_yields (hr : r.place.Ends s) : EndsInSurrogate s ∨ ∃ t k, r.Yields t k := by
  obtain ⟨body, place, outer⟩ := r
  -- Where no single class may begin, one character more or the end of an escape makes it so.
  cases place with
  | opened => exact .inr (exists_yields_of_isBoundary (.inl rfl))
  | sign => exact .inr (exists_yields_of_isBoundary (.inr (.inl rfl)))
  | single => exact .inr (exists_yields_of_isBoundary (.inr (.inr rfl)))
  | ampersand => exact .inr (exists_yields_of_reads (s := ['&']) (.single rfl) (.inr (.inl rfl)))
  | char d => exact .inr (exists_yields_of_char ⟨body, .char d, outer⟩ d)
  | dash d => exact .inr (exists_yields_of_reads (s := ['a']) (.single rfl) (.inr (.inr rfl)))
  | escape => exact .inr (exists_yields_of_reads (s := ['\\']) (.single rfl) (.inr (.inr rfl)))
  | codePoint e =>
    refine (CodePointEscape.Ends.exists_yields hr).imp_right ?_
    rintro ⟨t, d, ht⟩
    obtain ⟨u, k, hu⟩ := exists_yields_of_char ⟨body, .codePoint e, outer⟩ d
    exact ⟨t ++ u, k, (reads_of_yields_codePoint ht).yields hu⟩
  | endEscape d => exact .inr (exists_yields_of_reads (s := ['\\']) (.single rfl) (.inr (.inr rfl)))
  | endCodePoint d e =>
    refine (CodePointEscape.Ends.exists_yields hr).imp_right ?_
    rintro ⟨t, d', ht⟩
    exact exists_yields_of_reads
      (reads_of_yields_endCodePoint (r := ⟨body, .endCodePoint d e, outer⟩) ht) (.inr (.inr rfl))

end ClassReader

/-! ### Patterns -/

/-- The text ends in the escape that the reader is inside of, if it is inside of one. -/
def ReaderMode.Ends (s : List Char) : ReaderMode → Prop
  | element => True
  | escape => ['\\'] <:+ s
  | codePoint e => e.Ends s
  | cls r => r.place.Ends s

namespace Reader
variable {r r' : Reader}

theorem Begins.ends (h : r.Begins c r') (hmode : r.mode = .element) : r'.mode.Ends (s ++ [c]) := by
  obtain ⟨g, outer, mode⟩ := r
  obtain rfl : mode = .element := hmode
  cases h with
  | escapes => exact List.suffix_append s _
  | _ => trivial

theorem ends_step (hr : r.mode.Ends s) (h : r.step c = .ok r') : r'.mode.Ends (s ++ [c]) := by
  cases step_eq_ok_iff.1 h with
  | begins hmode h => exact h.ends hmode
  | opensCodePoint hmode =>
    rw [hmode] at hr
    exact CodePointEscape.ends_unopened hr
  | insideCodePoint hmode he =>
    rw [hmode] at hr
    exact CodePointEscape.Ends.step hr he
  | insideCls hmode hb =>
    rw [hmode] at hr
    exact ClassReader.ends_step hr hb
  | _ => trivial

theorem Reads.ends (h : r.Reads t r') (hr : r.mode.Ends s) : r'.mode.Ends (s ++ t) := by
  induction h generalizing s with
  | nil =>
    rw [List.append_nil]
    exact hr
  | cons h _ ih =>
    rw [List.append_cons]
    exact ih (ends_step hr h)

/-- A parenthesis for each open group. -/
theorem exists_reads_of_element (g : OpenGroup) (outer : List OpenGroup) :
    ∃ t g', Reads ⟨g, outer, .element⟩ t ⟨g', [], .element⟩ := by
  induction outer generalizing g with
  | nil => exact ⟨[], g, .nil _⟩
  | cons parent outer ih =>
    obtain ⟨t, g', h⟩ := ih (parent.push g.value)
    exact ⟨')' :: t, g', .cons rfl h⟩

theorem exists_reads_of_reads (hs : r.Reads s r') (hr : r'.mode = .element) :
    ∃ t g, r.Reads t ⟨g, [], .element⟩ := by
  obtain ⟨g, outer, mode⟩ := r'
  obtain rfl : mode = .element := hr
  obtain ⟨t, g', h⟩ := exists_reads_of_element g outer
  exact ⟨s ++ t, g', hs.append h⟩

/-- A pattern can be completed where its last escape can. -/
theorem exists_reads (hr : r.mode.Ends s) :
    EndsInSurrogate s ∨ ∃ t g, r.Reads t ⟨g, [], .element⟩ := by
  obtain ⟨g, outer, mode⟩ := r
  cases mode with
  | element => exact .inr (exists_reads_of_element g outer)
  | escape => exact .inr (exists_reads_of_reads (s := ['\\']) (.single rfl) rfl)
  | codePoint e =>
    refine (CodePointEscape.Ends.exists_yields hr).imp_right ?_
    rintro ⟨t, d, ht⟩
    exact exists_reads_of_reads (reads_of_yields_codePoint (r := ⟨g, outer, .codePoint e⟩) ht) rfl
  | cls b =>
    refine (ClassReader.exists_yields hr).imp_right ?_
    rintro ⟨t, k, ht⟩
    exact exists_reads_of_reads (reads_of_yields_cls (r := ⟨g, outer, .cls b⟩) ht) rfl

end Reader

end Regexp
