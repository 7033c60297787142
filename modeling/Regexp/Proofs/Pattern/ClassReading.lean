import Mathlib.Data.List.Induction
import Regexp.Pattern.ClassSyntax
import Regexp.Proofs.Pattern.Escape

/-! The reader of class bodies against their grammar: it reads every grammatical body as the operators
make it, and whatever it reads to a bracket is a grammatical body. -/
namespace Regexp

/-! ### Digits -/

theorem hexPlace_of_le {c : Char} (h : 128 ≤ c.toNat) : hexPlace c = 16 := by
  have hlower : c.toLower = c := by
    refine dif_neg fun hc => ?_
    have hle : c.toNat ≤ 'Z'.toNat := UInt32.le_iff_toNat_le.1 hc.2
    exact absurd (Nat.le_trans h hle) (by decide)
  have hmem : c ∉ "0123456789abcdef".toList := by
    intro hc
    have hall : "0123456789abcdef".toList.all (·.toNat < 128) = true := by decide
    have hlt : c.toNat < 128 := by simpa using List.all_eq_true.1 hall c hc
    omega
  rw [hexPlace, hlower, List.idxOf_eq_length hmem]
  rfl

/-- The reader gives every digit its place, small or capital, and takes no other character for one. -/
theorem hexValue?_eq (c : Char) :
    hexValue? c = if hexPlace c < 16 then some (hexPlace c) else none := by
  by_cases hc : c.toNat < 128
  · have hall : ∀ n < 128, hexValue? (.ofNat n) =
        if hexPlace (.ofNat n) < 16 then some (hexPlace (.ofNat n)) else none := by decide +kernel
    rw [← Char.ofNat_toNat c]
    exact hall c.toNat hc
  · have hlt (d : Char) (hd : d.toNat < 128) : ¬ c ≤ d := by
      rw [Char.le_def, UInt32.le_iff_toNat_le]
      exact fun h => hc (Nat.lt_of_le_of_lt h hd)
    simp [hexValue?, hlt, hexPlace_of_le (Nat.le_of_not_lt hc)]

theorem isSome_hexValue?_iff {c : Char} : (hexValue? c).isSome ↔ hexPlace c < 16 := by
  rw [hexValue?_eq]
  split <;> simp [*]

theorem hexNumber_eq_ofDigits {digits : List Char} (h : ∀ d ∈ digits, hexPlace d < 16) :
    hexNumber digits = Nat.ofDigits 16 (digits.reverse.map hexPlace) := by
  induction digits using List.reverseRecOn with
  | nil => rfl
  | append_singleton digits c ih =>
    rw [List.forall_mem_append, List.forall_mem_singleton] at h
    rw [hexNumber_concat, ih h.1, hexValue?_eq, if_pos h.2, List.reverse_concat, List.map_cons,
      Nat.ofDigits_cons, Option.getD_some, Nat.add_comm]

namespace CodePointDigits

theorem isSome_hexValue? (e : CodePointDigits) : ∀ d ∈ e.digits, (hexValue? d).isSome :=
  fun d hd => isSome_hexValue?_iff.2 (e.hexPlace_lt d hd)

theorem yields (e : CodePointDigits) :
    CodePointEscape.Yields .unopened ('{' :: e.digits ++ ['}']) e.char := by
  refine CodePointEscape.yields_of_value e.isSome_hexValue? e.length_le ?_
  rw [CodePointEscape.value_eq_ok_iff, hexNumber_eq_ofDigits e.hexPlace_lt]
  exact ⟨e.digits_ne_nil, e.toNat_char⟩

/-- The digits that the reader has taken stand for the character that it gives. -/
theorem exists_of_value {digits : List Char} {c : Char} (hhex : ∀ d ∈ digits, (hexValue? d).isSome)
    (hlen : digits.length ≤ 4) (hvalue : CodePointEscape.value digits = .ok c) :
    ∃ e : CodePointDigits, e.digits = digits ∧ e.char = c := by
  have hplace : ∀ d ∈ digits, hexPlace d < 16 := fun d hd => isSome_hexValue?_iff.1 (hhex d hd)
  obtain ⟨hne, hc⟩ := CodePointEscape.value_eq_ok_iff.1 hvalue
  rw [hexNumber_eq_ofDigits hplace] at hc
  exact ⟨⟨digits, c, hne, hlen, hplace, hc⟩, rfl, rfl⟩

end CodePointDigits

theorem ClassAtom.text_ne_nil (a : ClassAtom) : a.text ≠ [] := by
  cases a with
  | char w => cases w <;> simp [text, WrittenChar.text]
  | range lo hi => simp [text]
  | escape c k h => simp [text]

namespace ClassReader
open ClassSyntax

/-- A single class may begin here, and no character waits for a dash. -/
inductive At : ClassReader → ClassSpot → Prop where
  | opened {b : ClassBody} {outer : List (Nesting × ClassBody)} (hb : b.operand = none) :
      At ⟨b, .opened, outer⟩ .opened
  | complement {b : ClassBody} {outer : List (Nesting × ClassBody)} (hb : b.operand = none) :
      At ⟨b, .sign, outer⟩ .complement
  | single {b : ClassBody} {outer : List (Nesting × ClassBody)} (hb : b.operand = none) :
      At ⟨b, .single, outer⟩ .single
  | operand {b : ClassBody} {place : ClassPlace} {outer : List (Nesting × ClassBody)}
      (hplace : place = .sign ∨ place = .single) (hb : b.operand ≠ none) :
      At ⟨b, place, outer⟩ .operand

variable {r : ClassReader} {spot : ClassSpot} {c : Char} {s t : List Char} {k : CharClass}
  {b : ClassBody} {outer : List (Nesting × ClassBody)} {w : WrittenChar} {a : ClassAtom}

theorem step_of_not_mem_signs (hr : r.At spot) (hc : c ∉ spot.signs) :
    r.step c = .ok (r.begin c) := by
  cases hr with
  | opened hb => simp_all [step, ClassSpot.signs]
  | complement hb => simp [step, hb]
  | single hb => simp_all [step, operate, ClassSpot.signs]
  | operand hplace hb => rcases hplace with rfl | rfl <;> simp_all [step, operate, ClassSpot.signs]

theorem step_caret (hr : r.At .opened) :
    r.step '^' = .ok (.inl { r with body := { r.body with negated := true }, place := .sign }) := by
  cases hr
  rfl

theorem step_ampersand (hr : r.At spot) (hspot : spot = .single ∨ spot = .operand) :
    r.step '&' = .ok (.inl { r with body := r.body.settle, place := .ampersand }) := by
  cases hr with
  | opened hb => simp at hspot
  | complement hb => simp at hspot
  | single hb => rfl
  | operand hplace hb => rcases hplace with rfl | rfl <;> simp [step, operate, hb]

theorem step_dash (hr : r.At .single) : r.step '-' = .ok (.inl (r.nest .subtrahend)) := by
  cases hr with
  | single hb => simp [step, operate, hb]

/-- What opens, closes or escapes is no sign anywhere. -/
theorem step_of_mem (hr : r.At spot) (hc : c ∈ ['[', ']', '\\']) : r.step c = .ok (r.begin c) := by
  apply step_of_not_mem_signs hr
  intro hsign
  simp only [List.mem_cons, List.not_mem_nil, or_false] at hc
  rcases hc with rfl | rfl | rfl <;> cases spot <;> simp [ClassSpot.signs] at hsign

theorem step_open (hr : r.At spot) : r.step '[' = .ok (.inl (r.nest .bracket)) :=
  step_of_mem hr (by decide)

theorem step_bracket (hr : r.At spot) : r.step ']' = .ok (close r.body r.outer) :=
  step_of_mem hr (by decide)

theorem step_backslash (hr : r.At spot) : r.step '\\' = .ok (.inl (r.goto .escape)) :=
  step_of_mem hr (by decide)

theorem operand_add_eq_none_iff : (b.add k).operand = none ↔ b.operand = none := by
  unfold ClassBody.add
  split <;> simp_all

theorem At.add (hr : r.At spot) (k : CharClass) : (r.add k).At spot.next := by
  cases hr with
  | opened hb => exact .single (operand_add_eq_none_iff.2 hb)
  | complement hb => exact .single (operand_add_eq_none_iff.2 hb)
  | single hb => exact .single (operand_add_eq_none_iff.2 hb)
  | operand hplace hb => exact .operand (.inr rfl) (mt operand_add_eq_none_iff.1 hb)

theorem At.negated (hr : r.At .opened) :
    At { r with body := { r.body with negated := true }, place := .sign } .complement := by
  cases hr with
  | opened hb => exact .complement hb

theorem at_start : start.At .opened := .opened rfl

theorem at_nest {nesting : Nesting} : (r.nest nesting).At .opened := .opened rfl

/-! ### Single classes -/

theorem reads_written (hr : r.At spot) (hw : w.Begins spot) :
    r.Reads w.text (r.goto (.char w.char)) := by
  cases w with
  | plain c =>
    obtain ⟨hc, hsigns⟩ := hw
    apply Run.single
    rw [step_of_not_mem_signs hr hsigns]
    simp only [List.mem_cons, List.not_mem_nil, not_or] at hc
    simp [begin, hc, WrittenChar.char]
  | codePoint e =>
    exact .cons (step_backslash hr) (.cons rfl (reads_of_yields_codePoint e.yields))
  | backslash => exact hw.elim

theorem reads_written_of_ends (hw : w.Ends) :
    Reads (r.goto (.dash c)) w.text (r.add (.range c w.char)) := by
  cases w with
  | plain d =>
    have hd : d ≠ '\\' := hw
    apply Run.single
    simp [step, goto, add, hd, WrittenChar.char]
  | codePoint e => exact .cons rfl (.cons rfl (reads_of_yields_endCodePoint e.yields))
  | backslash => exact .cons rfl (.single rfl)

theorem reads_escape (hr : r.At spot) (hc : escapedClass c = .ok k) :
    r.Reads ['\\', c] (r.add k) := by
  have hu : c ≠ 'u' := by
    rintro rfl
    contradiction
  apply Run.cons (step_backslash hr) (.single _)
  simp [step, goto, hu, hc, Except.map]
  rfl

theorem step_char (hc : c ≠ '-') (d : Char) :
    (r.goto (.char d)).step c = (r.add (.single d)).step c := by
  simp [step, goto, add, hc]

theorem yields_atom_iff (hr : r.At spot) (ha : a.Begins spot) (hs : a.Precedes s) :
    r.Yields (a.text ++ s) k ↔ (r.add a.toClass).Yields s k := by
  cases a with
  | char w =>
    refine (reads_written hr ha).yields_append_iff.trans (yields_congr ?_)
    intro c hc
    apply step_char
    rintro rfl
    exact hs hc
  | range lo hi =>
    have hdash : Reads (r.goto (.char lo.char)) ['-'] (r.goto (.dash lo.char)) := .single rfl
    have hrange := (reads_written hr ha.1).append (hdash.append (reads_written_of_ends ha.2))
    exact hrange.yields_append_iff
  | escape c k' h => exact (reads_escape hr h).yields_append_iff

/-! ### Bodies -/

/-- The text goes on to the value behind the bracket that closes a body. -/
def Closes (body : ClassBody) (outer : List (Nesting × ClassBody)) (s : List Char)
    (k : CharClass) : Prop :=
  match close body outer with
  | .inl r => r.Yields s k
  | .inr k' => s = [] ∧ k' = k

theorem yields_bracket_iff (hr : r.step ']' = .ok (close r.body r.outer)) :
    r.Yields (']' :: s) k ↔ Closes r.body r.outer s k := by
  refine yields_cons_iff.trans ?_
  rw [hr, Closes]
  cases close r.body r.outer <;> simp

theorem precedes_append_iff : a.Precedes (s ++ ']' :: t) ↔ a.Precedes s := by
  cases a with
  | char w => cases s <;> simp [ClassAtom.Precedes]
  | range lo hi => rfl
  | escape c k h => rfl

theorem yields_text_iff {t : ClassSyntax} (ht : t.Grammatical spot) (hr : r.At spot) :
    r.Yields (t.text ++ ']' :: s) k ↔ Closes (t.gather r.body) r.outer s k := by
  induction t generalizing r spot s with
  | done => exact yields_bracket_iff (step_bracket hr)
  | complement rest ih =>
    obtain ⟨rfl, hrest⟩ := ht
    exact (yields_cons_iff_of_inl (step_caret hr)).trans (ih hrest hr.negated)
  | atom a rest ih =>
    obtain ⟨ha, hnext, hrest⟩ := ht
    rw [text, List.append_assoc]
    exact (yields_atom_iff hr ha (precedes_append_iff.2 hnext)).trans (ih hrest (hr.add _))
  | bracket inner rest ihinner ihrest =>
    obtain ⟨hinner, hrest⟩ := ht
    have htext : (bracket inner rest).text ++ ']' :: s =
        '[' :: (inner.text ++ ']' :: (rest.text ++ ']' :: s)) := by
      simp [text]
    rw [htext]
    calc r.Yields ('[' :: (inner.text ++ ']' :: (rest.text ++ ']' :: s))) k
      _ ↔ (r.nest .bracket).Yields (inner.text ++ ']' :: (rest.text ++ ']' :: s)) k :=
        yields_cons_iff_of_inl (step_open hr)
      _ ↔ (r.add (inner.gather .empty).value).Yields (rest.text ++ ']' :: s) k :=
        ihinner hinner at_nest
      _ ↔ Closes (rest.gather (r.body.add (inner.gather .empty).value)) r.outer s k :=
        ihrest hrest (hr.add _)
  | inter rest ih =>
    obtain ⟨hspot, hrest⟩ := ht
    have hsecond : step { r with body := r.body.settle, place := .ampersand } '&' =
        .ok (.inl { r with body := { r.body.settle with operand := some ∅ }, place := .sign }) := rfl
    exact (yields_cons_iff_of_inl (step_ampersand hr hspot)).trans
      ((yields_cons_iff_of_inl hsecond).trans (ih hrest (.operand (.inl rfl) (by simp))))
  | diff rest ih =>
    obtain ⟨rfl, hrest⟩ := ht
    exact (yields_cons_iff_of_inl (step_dash hr)).trans (ih hrest at_nest)

/-! ### What is read is grammatical -/

section
variable {f : CodePointEscape → ClassReader} {g : Char → ClassReader} {digits : List Char}

/-- The reader stands around that of a code point escape. -/
def Encloses (f : CodePointEscape → ClassReader) (g : Char → ClassReader) : Prop :=
  ∀ e c x, (f e).step c = .ok x →
    ∃ y : CodePointEscape ⊕ Char, e.step c = .ok y ∧ x = .inl (y.elim f g)

theorem exists_rest_of_opened (hf : Encloses f g) (hhex : ∀ d ∈ digits, (hexValue? d).isSome)
    (hlen : digits.length ≤ 4) (h : (f (.opened digits)).Yields s k) :
    ∃ (e : CodePointDigits) (rest : List Char),
      digits ++ s = e.digits ++ '}' :: rest ∧ (g e.char).Yields rest k := by
  induction s generalizing digits with
  | nil => exact (not_yields_nil h).elim
  | cons c s ih =>
    rcases yields_cons_iff.1 h with ⟨_, hc⟩ | ⟨r', hc, hs⟩
    · obtain ⟨y, _, hy⟩ := hf _ _ _ hc
      contradiction
    · obtain ⟨y, hy, hr'⟩ := hf _ _ _ hc
      cases hr'
      rcases CodePointEscape.step_opened_eq_ok_iff.1 hy with ⟨hhexc, hroom, rfl⟩ | ⟨rfl, d, hd, rfl⟩
      · rw [List.append_cons]
        refine ih ?_ ?_ hs
        · intro d hd
          rcases List.mem_append.1 hd with hd | hd
          · exact hhex d hd
          · rw [List.mem_singleton.1 hd]
            exact hhexc
        · rw [List.length_append, List.length_singleton]
          omega
      · obtain ⟨e, rfl, rfl⟩ := CodePointDigits.exists_of_value hhex hlen hd
        exact ⟨e, s, rfl, hs⟩

theorem exists_rest_of_unopened (hf : Encloses f g) (h : (f .unopened).Yields s k) :
    ∃ (e : CodePointDigits) (rest : List Char),
      s = '{' :: (e.digits ++ '}' :: rest) ∧ (g e.char).Yields rest k := by
  cases s with
  | nil => exact (not_yields_nil h).elim
  | cons c s =>
    rcases yields_cons_iff.1 h with ⟨_, hc⟩ | ⟨r', hc, hs⟩
    · obtain ⟨y, _, hy⟩ := hf _ _ _ hc
      contradiction
    · obtain ⟨y, hy, hr'⟩ := hf _ _ _ hc
      cases hr'
      obtain ⟨rfl, rfl⟩ := CodePointEscape.step_unopened_eq_ok_iff.1 hy
      obtain ⟨e, rest, hrest, hg⟩ := exists_rest_of_opened hf (by simp) (by simp) hs
      exact ⟨e, rest, congrArg _ hrest, hg⟩

theorem encloses_codePoint : Encloses (fun e => r.goto (.codePoint e)) fun d => r.goto (.char d) := by
  intro e c x h
  obtain ⟨y, hy, rfl⟩ := map_eq_ok_iff.1 h
  cases y <;> exact ⟨_, hy, rfl⟩

theorem encloses_endCodePoint :
    Encloses (fun e => r.goto (.endCodePoint c e)) fun d => r.add (.range c d) := by
  intro e c x h
  obtain ⟨y, hy, rfl⟩ := map_eq_ok_iff.1 h
  cases y <;> exact ⟨_, hy, rfl⟩

end

theorem exists_range_end_of_escape (h : (r.goto (.endEscape c)).Yields s k) :
    ∃ (w : WrittenChar) (rest : List Char),
      w.Ends ∧ '\\' :: s = w.text ++ rest ∧ (r.add (.range c w.char)).Yields rest k := by
  cases s with
  | nil => exact (not_yields_nil h).elim
  | cons d s =>
    by_cases hu : d = 'u'
    · subst hu
      have hcode : (r.goto (.endEscape c)).step 'u' =
          .ok (.inl (r.goto (.endCodePoint c .unopened))) := rfl
      replace h := (yields_cons_iff_of_inl hcode).1 h
      obtain ⟨e, rest, rfl, hrest⟩ := exists_rest_of_unopened encloses_endCodePoint h
      exact ⟨.codePoint e, rest, trivial, by simp [WrittenChar.text], hrest⟩
    · by_cases hd : d = '\\'
      · subst hd
        have hend : (r.goto (.endEscape c)).step '\\' = .ok (.inl (r.add (.range c '\\'))) := rfl
        exact ⟨.backslash, s, trivial, rfl, (yields_cons_iff_of_inl hend).1 h⟩
      · have herror : (r.goto (.endEscape c)).step d = .error (.escape .endsRange) := by
          simp [step, goto, hu, hd]
        simp [yields_cons_iff, herror] at h

theorem exists_range_end (h : (r.goto (.dash c)).Yields s k) :
    ∃ (w : WrittenChar) (rest : List Char),
      w.Ends ∧ s = w.text ++ rest ∧ (r.add (.range c w.char)).Yields rest k := by
  cases s with
  | nil => exact (not_yields_nil h).elim
  | cons d s =>
    by_cases hd : d = '\\'
    · subst hd
      have hslash : (r.goto (.dash c)).step '\\' = .ok (.inl (r.goto (.endEscape c))) := rfl
      exact exists_range_end_of_escape ((yields_cons_iff_of_inl hslash).1 h)
    · have hend : (r.goto (.dash c)).step d = .ok (.inl (r.add (.range c d))) := by
        simp [step, goto, add, hd]
      exact ⟨.plain d, s, hd, rfl, (yields_cons_iff_of_inl hend).1 h⟩

/-- A character is a class of its own or the start of a range. -/
theorem exists_atom_of_char (hw : w.Begins spot) (h : (r.goto (.char w.char)).Yields s k) :
    ∃ (a : ClassAtom) (rest : List Char), a.Begins spot ∧ a.Precedes rest ∧
      w.text ++ s = a.text ++ rest ∧ (r.add a.toClass).Yields rest k := by
  by_cases hdash : s.head? = some '-'
  · obtain ⟨s, rfl⟩ := List.head?_eq_some_iff.1 hdash
    have hstep : (r.goto (.char w.char)).step '-' = .ok (.inl (r.goto (.dash w.char))) := rfl
    obtain ⟨hi, rest, hhi, rfl, hrest⟩ := exists_range_end ((yields_cons_iff_of_inl hstep).1 h)
    exact ⟨.range w hi, rest, ⟨hw, hhi⟩, trivial, by simp [ClassAtom.text], hrest⟩
  · refine ⟨.char w, s, hw, hdash, rfl, (yields_congr ?_).1 h⟩
    intro c hc
    apply step_char
    rintro rfl
    exact hdash hc

theorem exists_atom_of_escape (h : (r.goto .escape).Yields s k) :
    ∃ (a : ClassAtom) (rest : List Char), a.Begins spot ∧ a.Precedes rest ∧
      '\\' :: s = a.text ++ rest ∧ (r.add a.toClass).Yields rest k := by
  cases s with
  | nil => exact (not_yields_nil h).elim
  | cons d s =>
    by_cases hu : d = 'u'
    · subst hu
      have hcode : (r.goto .escape).step 'u' = .ok (.inl (r.goto (.codePoint .unopened))) := rfl
      replace h := (yields_cons_iff_of_inl hcode).1 h
      obtain ⟨e, rest, rfl, hrest⟩ := exists_rest_of_unopened encloses_codePoint h
      have hbegins : (WrittenChar.codePoint e).Begins spot := trivial
      obtain ⟨a, rest, ha, hprecedes, htext, hrest⟩ := exists_atom_of_char hbegins hrest
      refine ⟨a, rest, ha, hprecedes, ?_, hrest⟩
      rw [← htext]
      simp [WrittenChar.text]
    · have hescape : (r.goto .escape).step d = (escapedClass d).map fun k => .inl (r.add k) := by
        simp [step, goto, add, hu]
      cases hd : escapedClass d with
      | error f => simp [yields_cons_iff, hescape, hd, Except.map] at h
      | ok k' =>
        rw [hd] at hescape
        exact ⟨.escape d k' hd, s, trivial, trivial, rfl, (yields_cons_iff_of_inl hescape).1 h⟩

theorem exists_atom (hr : r.At spot) (hsigns : c ∉ spot.signs) (hclose : c ≠ ']') (hopen : c ≠ '[')
    (h : r.Yields (c :: s) k) :
    ∃ (a : ClassAtom) (rest : List Char), a.Begins spot ∧ a.Precedes rest ∧
      c :: s = a.text ++ rest ∧ (r.add a.toClass).Yields rest k := by
  by_cases hc : c = '\\'
  · subst hc
    exact exists_atom_of_escape ((yields_cons_iff_of_inl (step_backslash hr)).1 h)
  · have hstep : r.step c = .ok (.inl (r.goto (.char c))) := by
      rw [step_of_not_mem_signs hr hsigns]
      simp [begin, hclose, hopen, hc]
    exact exists_atom_of_char (w := .plain c) ⟨by simp [hclose, hopen, hc], hsigns⟩
      ((yields_cons_iff_of_inl hstep).1 h)

theorem mem_signs_iff :
    c ∈ spot.signs ↔
      c = '^' ∧ spot = .opened ∨ c = '&' ∧ (spot = .single ∨ spot = .operand) ∨
        c = '-' ∧ spot = .single := by
  cases spot <;> simp [ClassSpot.signs]

/-- Only a second ampersand makes a sign of the first. -/
theorem yields_of_ampersand (hr : r.At spot) (hspot : spot = .single ∨ spot = .operand)
    (h : r.Yields ('&' :: s) k) :
    ∃ t, s = '&' :: t ∧ Yields ⟨{ r.body.settle with operand := some ∅ }, .sign, r.outer⟩ t k := by
  replace h := (yields_cons_iff_of_inl (step_ampersand hr hspot)).1 h
  cases s with
  | nil => exact (not_yields_nil h).elim
  | cons c s =>
    by_cases hc : c = '&'
    · subst hc
      exact ⟨s, rfl, (yields_cons_iff_of_inl rfl).1 h⟩
    · have herror : step { r with body := r.body.settle, place := .ampersand } c =
          .error .unexpected := by
        simp [step, hc]
      simp [yields_cons_iff, herror] at h

/-- Whatever the reader takes to a value begins with a grammatical body and its bracket. -/
theorem exists_syntax (hr : r.At spot) (h : r.Yields s k) :
    ∃ (t : ClassSyntax) (rest : List Char), t.Grammatical spot ∧ s = t.text ++ ']' :: rest := by
  induction hn : s.length using Nat.strongRecOn generalizing r spot s with
  | ind n ih =>
    cases s with
    | nil => exact (not_yields_nil h).elim
    | cons c s =>
      have ih {r : ClassReader} {spot : ClassSpot} {t : List Char} (hr : r.At spot)
          (h : r.Yields t k) (ht : t.length ≤ s.length) := ih t.length (by simp at hn; omega) hr h rfl
      by_cases hclose : c = ']'
      · exact ⟨.done, s, trivial, by rw [hclose]; rfl⟩
      by_cases hopen : c = '['
      · subst hopen
        replace h := (yields_cons_iff_of_inl (step_open hr)).1 h
        obtain ⟨inner, t, hinner, rfl⟩ := ih at_nest h (Nat.le_refl _)
        have hvalue : (r.add (inner.gather .empty).value).Yields t k :=
          (yields_text_iff hinner at_nest).1 h
        obtain ⟨rest, u, hrest, rfl⟩ := ih (hr.add _) hvalue (by simp; omega)
        exact ⟨.bracket inner rest, u, ⟨hinner, hrest⟩, by simp [text]⟩
      by_cases hsigns : c ∈ spot.signs
      · rcases mem_signs_iff.1 hsigns with ⟨rfl, rfl⟩ | ⟨rfl, hspot⟩ | ⟨rfl, rfl⟩
        · obtain ⟨rest, u, hrest, rfl⟩ :=
            ih hr.negated ((yields_cons_iff_of_inl (step_caret hr)).1 h) (Nat.le_refl _)
          exact ⟨.complement rest, u, ⟨rfl, hrest⟩, rfl⟩
        · obtain ⟨t, rfl, ht⟩ := yields_of_ampersand hr hspot h
          obtain ⟨rest, u, hrest, rfl⟩ := ih (.operand (.inl rfl) (by simp)) ht (by simp)
          exact ⟨.inter rest, u, ⟨hspot, hrest⟩, rfl⟩
        · obtain ⟨rest, u, hrest, rfl⟩ :=
            ih at_nest ((yields_cons_iff_of_inl (step_dash hr)).1 h) (Nat.le_refl _)
          exact ⟨.diff rest, u, ⟨rfl, hrest⟩, rfl⟩
      · obtain ⟨a, t, ha, hprecedes, htext, ht⟩ := exists_atom hr hsigns hclose hopen h
        have hlen : t.length ≤ s.length := by
          have hpos := List.length_pos_iff.2 a.text_ne_nil
          have := congrArg List.length htext
          simp at this
          omega
        obtain ⟨rest, u, hrest, rfl⟩ := ih (hr.add _) ht hlen
        exact ⟨.atom a rest, u, ⟨ha, precedes_append_iff.1 hprecedes, hrest⟩, by simp [htext, text]⟩

end ClassReader

end Regexp
