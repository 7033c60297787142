import Regexp.Pattern.Canonical
import Regexp.Pattern.Parse

/-! Readers as relations: the state a reader is in after a text, and the value it gives at the end of
one. Readings compose, and a reader inside of another one reads as it does alone. -/
namespace Regexp

section Relations
variable {σ τ α : Type} {next : σ → Char → σ → Prop} {next' : τ → Char → τ → Prop}
  {step : σ → Char → Except Fault (σ ⊕ α)} {r r' r'' : σ} {c : Char} {s t : List Char} {a : α}

/-- Reading a text takes one state to another, a character at a time. -/
inductive Run (next : σ → Char → σ → Prop) : σ → List Char → σ → Prop where
  | nil (r : σ) : Run next r [] r
  | cons {r r' r'' : σ} {c : Char} {s : List Char} (h : next r c r') (hs : Run next r' s r'') :
      Run next r (c :: s) r''

theorem Run.single (h : next r c r') : Run next r [c] r' := .cons h (.nil r')

theorem Run.append (hs : Run next r s r') (ht : Run next r' t r'') : Run next r (s ++ t) r'' := by
  induction hs with
  | nil => exact ht
  | cons h _ ih => exact .cons h (ih ht)

theorem run_append_iff : Run next r (s ++ t) r'' ↔ ∃ r', Run next r s r' ∧ Run next r' t r'' := by
  constructor
  · intro h
    induction s generalizing r with
    | nil => exact ⟨r, .nil r, h⟩
    | cons c s ih =>
      cases h with
      | cons h hs =>
        obtain ⟨r', hs, ht⟩ := ih hs
        exact ⟨r', .cons h hs, ht⟩
  · rintro ⟨r', hs, ht⟩
    exact hs.append ht

theorem run_singleton_iff : Run next r [c] r' ↔ next r c r' := by
  constructor
  · rintro (_ | ⟨h, _ | _⟩)
    exact h
  · exact .single

/-- A reading seen from outside, where the states are part of others. -/
theorem Run.map (f : σ → τ) (hf : ∀ {r c r'}, next r c r' → next' (f r) c (f r'))
    (h : Run next r s r') : Run next' (f r) s (f r') := by
  induction h with
  | nil => exact .nil _
  | cons h _ ih => exact .cons (hf h) ih

/-- Texts one after the other are read in step with a fold over what they stand for. -/
theorem Run.flatMap {β γ : Type} {text : β → List Char} {f : γ → β → γ} {holds : γ → σ → Prop}
    {items : List β} {b : γ}
    (hstep : ∀ x ∈ items, ∀ b r, holds b r → ∃ r', Run next r (text x) r' ∧ holds (f b x) r')
    (h : holds b r) : ∃ r', Run next r (items.flatMap text) r' ∧ holds (items.foldl f b) r' := by
  induction items generalizing b r with
  | nil => exact ⟨r, .nil r, h⟩
  | cons x items ih =>
    rw [List.forall_mem_cons] at hstep
    obtain ⟨r₁, hfirst, h₁⟩ := hstep.1 b r h
    obtain ⟨r₂, hrest, h₂⟩ := ih hstep.2 h₁
    exact ⟨r₂, hfirst.append hrest, h₂⟩

/-- A text that is read to its end, where the last character gives a value. -/
inductive Yields (step : σ → Char → Except Fault (σ ⊕ α)) : σ → List Char → α → Prop where
  | last {r : σ} {c : Char} {a : α} (h : step r c = .ok (.inr a)) : Yields step r [c] a
  | cons {r r' : σ} {c : Char} {s : List Char} {a : α} (h : step r c = .ok (.inl r'))
      (hs : Yields step r' s a) : Yields step r (c :: s) a

theorem not_yields_nil : ¬ Yields step r [] a := by
  rintro ⟨⟩

theorem yields_cons_iff :
    Yields step r (c :: s) a ↔
      s = [] ∧ step r c = .ok (.inr a) ∨ ∃ r', step r c = .ok (.inl r') ∧ Yields step r' s a := by
  constructor
  · rintro (h | ⟨h, hs⟩)
    · exact .inl ⟨rfl, h⟩
    · exact .inr ⟨_, h, hs⟩
  · rintro (⟨rfl, h⟩ | ⟨r', h, hs⟩)
    · exact .last h
    · exact .cons h hs

theorem yields_cons_iff_of_inl (h : step r c = .ok (.inl r')) :
    Yields step r (c :: s) a ↔ Yields step r' s a := by
  simp [yields_cons_iff, h]

/-- A state is known by its next step. -/
theorem yields_congr (h : ∀ c, s.head? = some c → step r c = step r' c) :
    Yields step r s a ↔ Yields step r' s a := by
  cases s with
  | nil => exact iff_of_false not_yields_nil not_yields_nil
  | cons c s => rw [yields_cons_iff, yields_cons_iff, h c rfl]

theorem Run.yields_append_iff (hs : Run (fun r c r' => step r c = .ok (.inl r')) r s r') :
    Yields step r (s ++ t) a ↔ Yields step r' t a := by
  induction hs with
  | nil => rfl
  | cons h _ ih => rw [List.cons_append, yields_cons_iff_of_inl h, ih]

theorem Run.yields (hs : Run (fun r c r' => step r c = .ok (.inl r')) r s r')
    (ht : Yields step r' t a) : Yields step r (s ++ t) a :=
  hs.yields_append_iff.2 ht

/-- A reader that stands inside of another one until it gives its value. -/
theorem Yields.run (f : σ → τ) (g : α → τ)
    (hf : ∀ {r c x}, step r c = .ok x → next' (f r) c (x.elim f g))
    (h : Yields step r s a) : Run next' (f r) s (g a) := by
  induction h with
  | last h => exact .single (hf h)
  | cons h _ ih => exact .cons (hf h) ih

end Relations

theorem map_eq_ok_iff {α β : Type} {x : Except Fault α} {f : α → β} {b : β} :
    x.map f = .ok b ↔ ∃ a, x = .ok a ∧ f a = b := by
  cases x <;> simp [Except.map]

abbrev CodePointEscape.Reads : CodePointEscape → List Char → CodePointEscape → Prop :=
  Run fun e c e' => e.step c = .ok (.inl e')

abbrev CodePointEscape.Yields : CodePointEscape → List Char → Char → Prop :=
  Regexp.Yields CodePointEscape.step

abbrev ClassReader.Reads : ClassReader → List Char → ClassReader → Prop :=
  Run fun r c r' => r.step c = .ok (.inl r')

abbrev ClassReader.Yields : ClassReader → List Char → CharClass → Prop :=
  Regexp.Yields ClassReader.step

abbrev Reader.Reads : Reader → List Char → Reader → Prop := Run fun r c r' => r.step c = .ok r'

namespace Reader
variable {r r' : Reader} {g : OpenGroup} {outer gs : List OpenGroup} {c : Char} {s t : List Char}
  {p : Pattern}

theorem run_eq_ok_iff {offset : Nat} : r.run offset s = .ok r' ↔ r.Reads s r' := by
  induction s generalizing r offset with
  | nil =>
    constructor
    · intro h
      cases h
      exact .nil _
    · intro h
      cases h
      rfl
  | cons c s ih =>
    rw [run]
    split
    · next r₁ h =>
      rw [ih]
      constructor
      · exact .cons h
      · rintro (_ | ⟨h', hs⟩)
        rw [h] at h'
        cases h'
        exact hs
    · next f h =>
      constructor
      · intro h'
        contradiction
      · rintro (_ | ⟨h', _⟩)
        rw [h] at h'
        contradiction

theorem finish?_eq_some_iff :
    r.finish? = some p ↔ ∃ g, r = ⟨g, [], .element⟩ ∧ g.value.getD .blank = p := by
  unfold finish?
  split
  · simp
  · next h =>
    constructor
    · intro h'
      contradiction
    · rintro ⟨g, rfl, _⟩
      exact absurd rfl (h g)

/-- A pattern is read when nothing of its text is left open. -/
theorem parse_eq_ok_iff :
    Pattern.parse s = .ok p ↔
      ∃ g, start.Reads s ⟨g, [], .element⟩ ∧ g.value.getD .blank = p := by
  constructor
  · intro h
    unfold Pattern.parse at h
    split at h
    · contradiction
    · next r hr =>
      split at h
      · next q hq =>
        cases h
        obtain ⟨g, rfl, hg⟩ := finish?_eq_some_iff.1 hq
        exact ⟨g, run_eq_ok_iff.1 hr, hg⟩
      · contradiction
  · rintro ⟨g, hs, rfl⟩
    have hrun : start.run 0 s = .ok ⟨g, [], .element⟩ := run_eq_ok_iff.2 hs
    simp only [Pattern.parse, hrun, finish?]

/-! ### Elements -/

/-- A character that is no sign of its own is an element, or repeats the one before it. -/
theorem begin_of_not_mem_metaChars (hc : c ∉ metaChars) :
    r.begin c =
      match Quantifier.ofChar? c with
      | some q => .ok { r with group := r.group.quantify q }
      | none => .ok (r.push (some (.char c))) := by
  simp only [metaChars, List.mem_cons, List.not_mem_nil, not_or] at hc
  unfold begin
  split
  case h_9 => rfl
  all_goals simp at hc

/-- What a character does where an element may begin. -/
inductive Begins (r : Reader) : Char → Reader → Prop where
  | opens : Begins r '(' ⟨.empty, r.group :: r.outer, .element⟩
  | closes {parent : OpenGroup} {outer : List OpenGroup} (h : r.outer = parent :: outer) :
      Begins r ')' ⟨parent.push r.group.value, outer, .element⟩
  | alternates : Begins r '|' { r with group := r.group.alternate }
  | escapes : Begins r '\\' (r.enter .escape)
  | brackets : Begins r '[' (r.enter (.cls .start))
  | any : Begins r '.' (r.push (some .any))
  | startOfInput : Begins r '^' (r.push (some .startOfInput))
  | endOfInput : Begins r '$' (r.push (some .endOfInput))
  | quantifies {c : Char} {q : Quantifier} (h : Quantifier.ofChar? c = some q) :
      Begins r c { r with group := r.group.quantify q }
  | char {c : Char} (hmeta : c ∉ metaChars) (hq : Quantifier.ofChar? c = none) :
      Begins r c (r.push (some (.char c)))

theorem begin_eq_ok_iff : r.begin c = .ok r' ↔ r.Begins c r' := by
  constructor
  · intro h
    by_cases hmeta : c ∈ metaChars
    · simp only [metaChars, List.mem_cons, List.not_mem_nil, or_false] at hmeta
      rcases hmeta with rfl | rfl | hmeta
      · cases h
        exact .opens
      · obtain ⟨g, outer, mode⟩ := r
        cases outer with
        | nil => contradiction
        | cons parent outer =>
          cases h
          exact .closes rfl
      · rcases hmeta with rfl | rfl | rfl | rfl | rfl | rfl <;>
          cases h <;> constructor
    · rw [begin_of_not_mem_metaChars hmeta] at h
      split at h
      · next hq =>
        cases h
        exact .quantifies hq
      · next hq =>
        cases h
        exact .char hmeta hq
  · intro h
    cases h with
    | closes h =>
      obtain ⟨g, outer, mode⟩ := r
      cases h
      rfl
    | @quantifies _ q h =>
      rw [← Quantifier.symbol_of_ofChar? h]
      cases q <;> rfl
    | char hmeta hq => rw [begin_of_not_mem_metaChars hmeta, hq]
    | _ => rfl

/-- What a character does, by where the reader stands. -/
inductive Steps (r : Reader) : Char → Reader → Prop where
  | begins {c : Char} {r' : Reader} (hmode : r.mode = .element) (h : r.Begins c r') : Steps r c r'
  | opensCodePoint (hmode : r.mode = .escape) : Steps r 'u' (r.enter (.codePoint .unopened))
  | endsEscape {c : Char} {k : CharClass} (hmode : r.mode = .escape) (hu : c ≠ 'u')
      (h : escapedClass c = .ok k) : Steps r c (r.push (some (.cls k)))
  | insideCodePoint {c : Char} {e e' : CodePointEscape} (hmode : r.mode = .codePoint e)
      (h : e.step c = .ok (.inl e')) : Steps r c (r.enter (.codePoint e'))
  | endsCodePoint {c d : Char} {e : CodePointEscape} (hmode : r.mode = .codePoint e)
      (h : e.step c = .ok (.inr d)) : Steps r c (r.push (some (.cls (.single d))))
  | insideCls {c : Char} {b b' : ClassReader} (hmode : r.mode = .cls b)
      (h : b.step c = .ok (.inl b')) : Steps r c (r.enter (.cls b'))
  | endsCls {c : Char} {b : ClassReader} {k : CharClass} (hmode : r.mode = .cls b)
      (h : b.step c = .ok (.inr k)) : Steps r c (r.push (some (.cls k)))

theorem step_eq_ok_iff : r.step c = .ok r' ↔ r.Steps c r' := by
  obtain ⟨g, outer, mode⟩ := r
  constructor
  · intro h
    cases mode with
    | element => exact .begins rfl (begin_eq_ok_iff.1 h)
    | escape =>
      simp only [step] at h
      split at h
      · next hu =>
        cases h
        rw [hu]
        exact .opensCodePoint rfl
      · next hu =>
        obtain ⟨k, hk, rfl⟩ := map_eq_ok_iff.1 h
        exact .endsEscape rfl hu hk
    | codePoint e =>
      obtain ⟨x, hx, rfl⟩ := map_eq_ok_iff.1 h
      cases x with
      | inl e' => exact .insideCodePoint rfl hx
      | inr d => exact .endsCodePoint rfl hx
    | cls b =>
      obtain ⟨x, hx, rfl⟩ := map_eq_ok_iff.1 h
      cases x with
      | inl b' => exact .insideCls rfl hx
      | inr k => exact .endsCls rfl hx
  · intro h
    cases h with
    | begins hmode h =>
      cases hmode
      exact begin_eq_ok_iff.2 h
    | opensCodePoint hmode =>
      cases hmode
      rfl
    | endsEscape hmode hu h =>
      cases hmode
      simp only [step, if_neg hu]
      exact map_eq_ok_iff.2 ⟨_, h, rfl⟩
    | insideCodePoint hmode h | endsCodePoint hmode h | insideCls hmode h | endsCls hmode h =>
      cases hmode
      exact map_eq_ok_iff.2 ⟨_, h, rfl⟩

/-! ### Groups -/

/-- The reader with further open groups around it. -/
def under (r : Reader) (gs : List OpenGroup) : Reader := { r with outer := r.outer ++ gs }

theorem Begins.under (h : r.Begins c r') : (r.under gs).Begins c (r'.under gs) := by
  cases h with
  | closes h =>
    -- Only a closing parenthesis reaches the groups around, and there it finds the innermost of them.
    exact .closes (congrArg (· ++ gs) h)
  | quantifies h => exact .quantifies h
  | char hmeta hq => exact .char hmeta hq
  | _ => constructor

/-- What stands around a text has no part in how it is read. -/
theorem step_under (h : r.step c = .ok r') : (r.under gs).step c = .ok (r'.under gs) := by
  rw [step_eq_ok_iff] at h ⊢
  cases h with
  | begins hmode h => exact .begins hmode h.under
  | opensCodePoint hmode => exact .opensCodePoint hmode
  | endsEscape hmode hu h => exact .endsEscape hmode hu h
  | insideCodePoint hmode h => exact .insideCodePoint hmode h
  | endsCodePoint hmode h => exact .endsCodePoint hmode h
  | insideCls hmode h => exact .insideCls hmode h
  | endsCls hmode h => exact .endsCls hmode h

theorem Reads.under (h : r.Reads s r') : (r.under gs).Reads s (r'.under gs) :=
  h.map (Reader.under · gs) step_under

/-- A text that is read as a pattern is read as an element of a group when it stands in
parentheses. -/
theorem Reads.group {inner : OpenGroup} (h : start.Reads s ⟨inner, [], .element⟩) :
    Reads ⟨g, outer, .element⟩ ('(' :: s ++ [')']) ⟨g.push inner.value, outer, .element⟩ := by
  have hinner : Reads ⟨.empty, g :: outer, .element⟩ s ⟨inner, g :: outer, .element⟩ :=
    h.under
  have hclose : Reads ⟨inner, g :: outer, .element⟩ [')'] ⟨g.push inner.value, outer, .element⟩ :=
    .single rfl
  exact .cons rfl (hinner.append hclose)

theorem Reads.choice {a b : OpenGroup} (hs : start.Reads s ⟨a, [], .element⟩)
    (ht : start.Reads t ⟨b, [], .element⟩) :
    start.Reads ('(' :: s ++ ")|(".toList ++ t ++ [')'])
      ⟨(OpenGroup.empty.push a.value).alternate.push b.value, [], .element⟩ := by
  have htext : '(' :: s ++ ")|(".toList ++ t ++ [')'] =
      ('(' :: s ++ [')']) ++ ['|'] ++ ('(' :: t ++ [')']) := by
    simp
  have hbar : Reads ⟨OpenGroup.empty.push a.value, [], .element⟩ ['|']
      ⟨(OpenGroup.empty.push a.value).alternate, [], .element⟩ := .single rfl
  rw [htext]
  exact (hs.group.append hbar).append ht.group

theorem Reads.seq {a b : OpenGroup} (hs : start.Reads s ⟨a, [], .element⟩)
    (ht : start.Reads t ⟨b, [], .element⟩) :
    start.Reads ('(' :: s ++ ")(".toList ++ t ++ [')'])
      ⟨(OpenGroup.empty.push a.value).push b.value, [], .element⟩ := by
  have htext : '(' :: s ++ ")(".toList ++ t ++ [')'] =
      ('(' :: s ++ [')']) ++ ('(' :: t ++ [')']) := by
    simp
  rw [htext]
  exact hs.group.append ht.group

theorem Reads.quantified {a : OpenGroup} (hs : start.Reads s ⟨a, [], .element⟩) (q : Quantifier) :
    start.Reads ('(' :: s ++ [')', q.symbol])
      ⟨(OpenGroup.empty.push a.value).quantify q, [], .element⟩ := by
  have hsymbol : Reads ⟨OpenGroup.empty.push a.value, [], .element⟩ [q.symbol]
      ⟨(OpenGroup.empty.push a.value).quantify q, [], .element⟩ := by
    apply Run.single
    cases q <;> rfl
  rw [List.append_cons]
  exact hs.group.append hsymbol

/-! ### Escapes and classes -/

theorem reads_of_yields_codePoint {e : CodePointEscape} {d : Char} (h : e.Yields s d) :
    Reads (r.enter (.codePoint e)) s (r.push (some (.cls (.single d)))) := by
  apply h.run (fun e => r.enter (.codePoint e)) fun d => r.push (some (.cls (.single d)))
  intro e c x h
  apply map_eq_ok_iff.2 ⟨x, h, _⟩
  cases x <;> rfl

theorem reads_of_yields_cls {b : ClassReader} {k : CharClass} (h : b.Yields s k) :
    Reads (r.enter (.cls b)) s (r.push (some (.cls k))) := by
  apply h.run (fun b => r.enter (.cls b)) fun k => r.push (some (.cls k))
  intro b c x h
  apply map_eq_ok_iff.2 ⟨x, h, _⟩
  cases x <;> rfl

end Reader

namespace ClassReader
variable {r : ClassReader} {e : CodePointEscape} {s : List Char} {c d : Char}

theorem reads_of_yields_codePoint (h : e.Yields s d) :
    Reads (r.goto (.codePoint e)) s (r.goto (.char d)) := by
  apply h.run (fun e => r.goto (.codePoint e)) fun d => r.goto (.char d)
  intro e c x h
  apply map_eq_ok_iff.2 ⟨x, h, _⟩
  cases x <;> rfl

theorem reads_of_yields_endCodePoint (h : e.Yields s d) :
    Reads (r.goto (.endCodePoint c e)) s (r.add (.range c d)) := by
  apply h.run (fun e => r.goto (.endCodePoint c e)) fun d => r.add (.range c d)
  intro e c x h
  apply map_eq_ok_iff.2 ⟨x, h, _⟩
  cases x <;> rfl

end ClassReader

end Regexp
