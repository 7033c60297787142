import Mathlib.Data.List.Infix
import Regexp.Proofs.Pattern.Groups
import Regexp.Proofs.Pattern.Unexpected

/-! Texts without classes and escapes. They are patterns exactly if their parentheses are balanced, and
what is wrong with the others is the first parenthesis that closes nothing, or else their end. -/
namespace Regexp

variable {s t text : List Char} {c : Char} {m n : Nat}

def Covered (text : List Char) : Prop := ∀ s, s <+: text → s.count ')' ≤ s.count '('

instance : DecidablePred Covered := fun text =>
  decidable_of_iff (∀ s ∈ text.inits, s.count ')' ≤ s.count '(') (by simp [Covered])

structure Balanced (text : List Char) : Prop where
  covered : Covered text
  settled : text.count '(' = text.count ')'

/-- The parenthesis at `n` closes the one before the balanced text that ends there. -/
def Closes (text : List Char) (n : Nat) : Prop :=
  ∃ front inner back, text = front ++ '(' :: inner ++ ')' :: back ∧ Balanced inner ∧
    (front ++ '(' :: inner).length = n

def Stray (text : List Char) (n : Nat) : Prop := text[n]? = some ')' ∧ ¬ Closes text n

structure FirstStray (text : List Char) (n : Nat) : Prop where
  stray : Stray text n
  first : ∀ m < n, ¬ Stray text m

/-! ### Balanced texts -/

/-- A balanced text has no more parentheses open than it has characters. -/
theorem balanced_iff_nested : Balanced s ↔ ∃ n, Nested n s := by
  constructor
  · intro hs
    refine ⟨s.length, ?_, hs.settled⟩
    intro u hu
    have hcovered := hs.covered u hu
    have hcount : u.count '(' ≤ u.length := List.count_le_length
    have hlength := hu.length_le
    omega
  · rintro ⟨n, hs⟩
    exact ⟨fun u hu => (hs.within u hu).1, hs.settled⟩

theorem balanced_of_not_mem (hopen : '(' ∉ s) (hclose : ')' ∉ s) : Balanced s :=
  balanced_iff_nested.2 ⟨0, .of_not_mem hopen hclose 0⟩

theorem Balanced.append (hs : Balanced s) (ht : Balanced t) : Balanced (s ++ t) := by
  obtain ⟨m, hm⟩ := balanced_iff_nested.1 hs
  obtain ⟨n, hn⟩ := balanced_iff_nested.1 ht
  have hm' := hm.mono (Nat.le_max_left m n)
  have hn' := hn.mono (Nat.le_max_right m n)
  exact balanced_iff_nested.2 ⟨max m n, hm'.append hn'⟩

theorem Balanced.group (hs : Balanced s) : Balanced ('(' :: s ++ [')']) := by
  obtain ⟨n, hn⟩ := balanced_iff_nested.1 hs
  exact balanced_iff_nested.2 ⟨n + 1, hn.group⟩

theorem covered_nil : Covered [] := by
  intro u hu
  rw [List.prefix_nil.1 hu]
  exact Nat.le_refl _

theorem Covered.of_prefix (ht : Covered t) (h : s <+: t) : Covered s :=
  fun u hu => ht u (hu.trans h)

theorem covered_concat_iff :
    Covered (s ++ [c]) ↔ Covered s ∧ (c = ')' → s.count ')' < s.count '(') := by
  constructor
  · intro h
    refine ⟨h.of_prefix (List.prefix_append s [c]), ?_⟩
    rintro rfl
    have hlast := h (s ++ [')']) List.prefix_rfl
    simp at hlast
    omega
  · rintro ⟨hs, hc⟩ u hu
    rcases List.prefix_concat_iff.1 hu with rfl | hu
    · have hcount := hs s List.prefix_rfl
      by_cases hclose : c = ')'
      · have hlt := hc hclose
        simp [hclose]
        omega
      · simp [hclose, List.count_singleton]
        omega
    · exact hs u hu

/-- Where parentheses are open, a balanced text stands behind the last one that is. -/
theorem Covered.exists_opening (hs : Covered s) (hopen : s.count ')' < s.count '(') :
    ∃ front inner, s = front ++ '(' :: inner ∧ Balanced inner := by
  induction hlength : s.length using Nat.strongRecOn generalizing s with
  | ind n ih =>
    rcases List.eq_nil_or_concat' s with rfl | ⟨t, c, rfl⟩
    · exact absurd hopen (Nat.lt_irrefl _)
    · have ht : Covered t := (covered_concat_iff.1 hs).1
      rw [List.length_append, List.length_singleton] at hlength
      by_cases hc : c = '('
      · subst hc
        exact ⟨t, [], rfl, balanced_of_not_mem List.not_mem_nil List.not_mem_nil⟩
      · have htopen : t.count ')' < t.count '(' := by
          simp [hc, List.count_singleton] at hopen
          omega
        obtain ⟨front, inner, rfl, hinner⟩ := ih t.length (by omega) ht htopen rfl
        by_cases hclose : c = ')'
        · -- The last character closes what was found, so one more opening is due before it.
          subst hclose
          have hfront : Covered front := ht.of_prefix (List.prefix_append ..)
          have hfrontopen : front.count ')' < front.count '(' := by
            have hsettled := hinner.settled
            simp at hopen
            omega
          rw [List.length_append] at hlength
          obtain ⟨outer, before, rfl, hbefore⟩ :=
            ih front.length (by omega) hfront hfrontopen rfl
          exact ⟨outer, before ++ ('(' :: inner ++ [')']), by simp, hbefore.append hinner.group⟩
        · have hlast : Balanced [c] :=
            balanced_of_not_mem (by simp [Ne.symm hc]) (by simp [Ne.symm hclose])
          exact ⟨front, inner ++ [c], by simp, hinner.append hlast⟩

/-! ### Parentheses that close nothing -/

theorem closes_length_iff :
    Closes (s ++ ')' :: t) s.length ↔ ∃ front inner, s = front ++ '(' :: inner ∧ Balanced inner := by
  constructor
  · rintro ⟨front, inner, back, htext, hinner, hlength⟩
    exact ⟨front, inner, List.append_inj_left htext hlength.symm, hinner⟩
  · rintro ⟨front, inner, rfl, hinner⟩
    exact ⟨front, inner, t, rfl, hinner, rfl⟩

theorem exists_append_of_getElem? (h : s[n]? = some c) : ∃ u v, s = u ++ c :: v ∧ u.length = n := by
  obtain ⟨hn, rfl⟩ := List.getElem?_eq_some_iff.1 h
  refine ⟨s.take n, s.drop (n + 1), by simp, ?_⟩
  rw [List.length_take]
  omega

theorem Covered.closes (hs : Covered s) (h : s[n]? = some ')') : Closes (s ++ t) n := by
  obtain ⟨u, v, rfl, rfl⟩ := exists_append_of_getElem? h
  have hclose : Covered (u ++ [')']) := hs.of_prefix ⟨v, by simp⟩
  obtain ⟨hu, hopen⟩ := covered_concat_iff.1 hclose
  rw [List.append_assoc, List.cons_append, closes_length_iff]
  exact hu.exists_opening (hopen rfl)

theorem Balanced.firstStray (hs : Balanced s) : FirstStray (s ++ ')' :: t) s.length where
  stray := by
    refine ⟨by simp, ?_⟩
    rw [closes_length_iff]
    rintro ⟨front, inner, rfl, hinner⟩
    have hfront := hs.covered front (List.prefix_append ..)
    have hsettled := hs.settled
    have hinner' := hinner.settled
    simp at hsettled
    omega
  first := by
    rintro m hm ⟨hclose, hstray⟩
    rw [List.getElem?_append_left hm] at hclose
    exact hstray (hs.covered.closes hclose)

/-- A text with more closing parentheses first goes wrong behind a balanced beginning. -/
theorem exists_balanced_of_not_covered (hs : ¬ Covered s) :
    ∃ front back, s = front ++ ')' :: back ∧ Balanced front := by
  induction s using List.reverseRecOn with
  | nil => exact absurd covered_nil hs
  | append_singleton s c ih =>
    by_cases hcovered : Covered s
    · have hlast : c = ')' ∧ s.count '(' ≤ s.count ')' := by
        simpa [covered_concat_iff, hcovered] using hs
      obtain ⟨rfl, hcount⟩ := hlast
      exact ⟨s, [], rfl, hcovered, Nat.le_antisymm hcount (hcovered s List.prefix_rfl)⟩
    · obtain ⟨front, back, rfl, hfront⟩ := ih hcovered
      exact ⟨front, back ++ [c], by simp, hfront⟩

/-! ### Reading -/

namespace Reader
variable {g : OpenGroup} {outer : List OpenGroup}

/-- Without classes and escapes a character ends where an element may begin, unless it closes a group
that was not opened. -/
theorem exists_reads_singleton (hc : c ≠ '[' ∧ c ≠ '\\') (hclose : c = ')' → outer ≠ []) :
    ∃ g' outer', Reads ⟨g, outer, .element⟩ [c] ⟨g', outer', .element⟩ ∧
      outer'.length + [c].count ')' = outer.length + [c].count '(' := by
  by_cases hopen : c = '('
  · subst hopen
    exact ⟨.empty, g :: outer, .single rfl, rfl⟩
  · by_cases hclosing : c = ')'
    · subst hclosing
      cases outer with
      | nil => exact absurd rfl (hclose rfl)
      | cons parent outer => exact ⟨parent.push g.value, outer, .single rfl, rfl⟩
    · have hpasses : Passes [c] := .singleton (by simp [hc, hopen, hclosing])
      obtain ⟨g', hread⟩ := hpasses g outer
      exact ⟨g', outer, hread, by simp [hopen, hclosing]⟩

/-- As many groups are open as parentheses are. -/
theorem exists_reads_of_covered (hbracket : '[' ∉ s) (hbackslash : '\\' ∉ s) (hs : Covered s) :
    ∃ g outer, start.Reads s ⟨g, outer, .element⟩ ∧ outer.length + s.count ')' = s.count '(' := by
  induction s using List.reverseRecOn with
  | nil => exact ⟨.empty, [], .nil _, rfl⟩
  | append_singleton s c ih =>
    simp only [List.mem_append, List.mem_singleton, not_or] at hbracket hbackslash
    obtain ⟨hs, hclose⟩ := covered_concat_iff.1 hs
    obtain ⟨g, outer, hread, hdepth⟩ := ih hbracket.1 hbackslash.1 hs
    have houter : c = ')' → outer ≠ [] := by
      rintro hc rfl
      have := hclose hc
      simp at hdepth
      omega
    obtain ⟨g', outer', hlast, hdepth'⟩ :=
      exists_reads_singleton (g := g) ⟨Ne.symm hbracket.2, Ne.symm hbackslash.2⟩ houter
    refine ⟨g', outer', hread.append hlast, ?_⟩
    rw [List.count_append, List.count_append]
    omega

theorem exists_reads_of_balanced (hbracket : '[' ∉ s) (hbackslash : '\\' ∉ s) (hs : Balanced s) :
    ∃ g, start.Reads s ⟨g, [], .element⟩ := by
  obtain ⟨g, outer, hread, hdepth⟩ := exists_reads_of_covered hbracket hbackslash hs.covered
  have hsettled := hs.settled
  have houter : outer = [] := List.length_eq_zero_iff.1 (by omega)
  rw [houter] at hread
  exact ⟨g, hread⟩

end Reader

namespace Pattern

theorem exists_parse_of_balanced (hbracket : '[' ∉ s) (hbackslash : '\\' ∉ s) (hs : Balanced s) :
    ∃ p, parse s = .ok p := by
  obtain ⟨g, hread⟩ := Reader.exists_reads_of_balanced hbracket hbackslash hs
  exact ⟨g.value.getD .blank, Reader.parse_eq_ok_iff.2 ⟨g, hread, rfl⟩⟩

theorem parse_of_not_covered (hbracket : '[' ∉ s) (hbackslash : '\\' ∉ s) (hs : ¬ Covered s) :
    ∃ n, FirstStray s n ∧ parse s = .error (.unexpected s n) := by
  obtain ⟨front, back, rfl, hfront⟩ := exists_balanced_of_not_covered hs
  simp only [List.mem_append, List.mem_cons, not_or] at hbracket hbackslash
  obtain ⟨g, hread⟩ := Reader.exists_reads_of_balanced hbracket.1 hbackslash.1 hfront
  refine ⟨front.length, hfront.firstStray, Reader.parse_eq_unexpected_iff.2 ⟨rfl, .inl ?_⟩⟩
  exact ⟨front, ')', back, _, rfl, rfl, hread, rfl⟩

theorem parse_of_open (hbracket : '[' ∉ s) (hbackslash : '\\' ∉ s) (hs : Covered s)
    (hopen : s.count ')' < s.count '(') : parse s = .error (.unexpected s s.length) := by
  obtain ⟨g, outer, hread, hdepth⟩ := Reader.exists_reads_of_covered hbracket hbackslash hs
  refine Reader.parse_eq_unexpected_iff.2 ⟨rfl, .inr ⟨rfl, _, hread, ?_⟩⟩
  cases outer with
  | nil =>
    simp at hdepth
    omega
  | cons parent outer => rfl

/-- Only the parentheses decide: bars, quantifiers and all other characters may stand anywhere. -/
theorem parse_iff_balanced (hbracket : '[' ∉ s) (hbackslash : '\\' ∉ s) :
    ((∃ p, parse s = .ok p) ↔ Balanced s) ∧
      (¬ Covered s → ∃ n, FirstStray s n ∧ parse s = .error (.unexpected s n)) ∧
      (Covered s → s.count ')' < s.count '(' → parse s = .error (.unexpected s s.length)) := by
  refine ⟨⟨?_, exists_parse_of_balanced hbracket hbackslash⟩,
    parse_of_not_covered hbracket hbackslash, parse_of_open hbracket hbackslash⟩
  rintro ⟨p, hp⟩
  have hcovered : Covered s := by
    by_contra hs
    obtain ⟨n, -, herror⟩ := parse_of_not_covered hbracket hbackslash hs
    rw [hp] at herror
    contradiction
  have hclosed : ¬ s.count ')' < s.count '(' := by
    intro hopen
    rw [parse_of_open hbracket hbackslash hcovered hopen] at hp
    contradiction
  have hcount := hcovered s List.prefix_rfl
  exact ⟨hcovered, by omega⟩

/-- A balanced text with brackets, braces and signs of classes as characters, a parenthesis behind a group
that is closed, and a group that stays open. -/
theorem parse_iff_balanced_three_texts :
    (∃ p, parse "+(|]\x7b*)?-&".toList = .ok p) ∧
      (FirstStray "(a))(".toList 3 ∧
        parse "(a))(".toList = .error (.unexpected "(a))(".toList 3)) ∧
      parse "((a)|b".toList = .error (.unexpected "((a)|b".toList 6) := by
  refine ⟨?_, ?_, ?_⟩
  · have hbalanced : Balanced "+(|]\x7b*)?-&".toList := ⟨by decide, by decide⟩
    exact (parse_iff_balanced (by decide) (by decide)).1.2 hbalanced
  · have hstray : ¬ Covered "(a))(".toList := by decide
    obtain ⟨n, hn, herror⟩ := (parse_iff_balanced (by decide) (by decide)).2.1 hstray
    have hthree : parse "(a))(".toList = .error (.unexpected "(a))(".toList 3) := by decide
    rw [hthree] at herror
    cases herror
    exact ⟨hn, hthree⟩
  · have hcovered : Covered "((a)|b".toList := by decide
    exact (parse_iff_balanced (by decide) (by decide)).2.2 hcovered (by decide)

end Pattern

end Regexp
