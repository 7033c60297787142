import Regexp.Fuzz
import Regexp.Proofs.Pattern.Groups
import Regexp.Proofs.Sampling.Draws

/-! Every pattern that is written at random is a pattern, however the source draws. Its groups lie no
deeper than asked for, and only groups are repeated in it. -/
namespace Regexp

variable {s t : List Char} {c : Char}

/-! ### Quantifiers behind groups -/

def quantifierSigns : List Char := ['*', '+', '?']

/-- Each quantifier in the text stands right behind a closing parenthesis. -/
def QuantifiesGroups (text : List Char) : Prop :=
  ∀ front c rest, text = front ++ c :: rest → c ∈ quantifierSigns → front.getLast? = some ')'

namespace QuantifiesGroups

theorem of_not_mem (h : ∀ c ∈ s, c ∉ quantifierSigns) : QuantifiesGroups s := by
  rintro front c rest rfl hc
  exact absurd hc (h c (by simp))

theorem append (hs : QuantifiesGroups s) (ht : QuantifiesGroups t) : QuantifiesGroups (s ++ t) := by
  intro front c rest htext hc
  rcases List.append_eq_append_iff.1 htext with ⟨front', rfl, ht'⟩ | ⟨rest', hs', hrest⟩
  · have hlast := ht front' c rest ht' hc
    rw [List.getLast?_append, hlast]
    rfl
  · rcases List.cons_eq_append_iff.1 hrest with ⟨rfl, ht'⟩ | ⟨rest'', rfl, _⟩
    · exact absurd (ht [] c rest ht' hc) (by simp)
    · exact hs front c rest'' hs' hc

theorem group (hs : QuantifiesGroups s) : QuantifiesGroups ('(' :: s ++ [')']) := by
  have hopen : QuantifiesGroups ['('] := of_not_mem (by simp [quantifierSigns])
  have hclose : QuantifiesGroups [')'] := of_not_mem (by simp [quantifierSigns])
  exact (hopen.append hs).append hclose

theorem concat (hs : QuantifiesGroups s) (hlast : s.getLast? = some ')') (c : Char) :
    QuantifiesGroups (s ++ [c]) := by
  intro front d rest htext hd
  rcases List.eq_nil_or_concat rest with rfl | ⟨rest, e, rfl⟩
  · obtain ⟨rfl, _⟩ := List.append_inj' htext rfl
    exact hlast
  · rw [List.concat_eq_append, ← List.cons_append, ← List.append_assoc] at htext
    obtain ⟨hs', _⟩ := List.append_inj' htext rfl
    exact hs front d rest hs' hd

end QuantifiesGroups

/-! ### What the strategies write -/

namespace Sampling
open Draw

def groupSigns : List Char := '(' :: ')' :: quantifierSigns

/-- What holds of every text that is written with so many levels left. -/
structure Writable (depth : Nat) (text : List Char) : Prop where
  passes : Reader.Passes text
  nested : Nested depth text
  quantifies : QuantifiesGroups text

namespace Writable
variable {m n depth : Nat} {texts : List (List Char)}

theorem mono (hs : Writable m s) (h : m ≤ n) : Writable n s :=
  ⟨hs.passes, hs.nested.mono h, hs.quantifies⟩

theorem of_passes (hs : Reader.Passes s) (h : ∀ c ∈ s, c ∉ groupSigns) : Writable depth s where
  passes := hs
  nested :=
    .of_not_mem (fun hc => h '(' hc (by simp [groupSigns])) (fun hc => h ')' hc (by simp [groupSigns])) depth
  quantifies := .of_not_mem fun c hc hsign => h c hc (by simp [groupSigns, hsign])

theorem nil : Writable depth [] := .of_passes .nil (by simp)

theorem append (hs : Writable depth s) (ht : Writable depth t) : Writable depth (s ++ t) :=
  ⟨hs.passes.append ht.passes, hs.nested.append ht.nested, hs.quantifies.append ht.quantifies⟩

theorem flatten (h : ∀ t ∈ texts, Writable depth t) : Writable depth texts.flatten := by
  induction texts with
  | nil => exact .nil
  | cons t texts ih =>
    rw [List.forall_mem_cons] at h
    exact h.1.append (ih h.2)

theorem group (hs : Writable depth s) : Writable (depth + 1) ('(' :: s ++ [')']) :=
  ⟨hs.passes.group, hs.nested.group, hs.quantifies.group⟩

theorem alternation (hs : Writable depth s) (ht : Writable depth t) :
    Writable (depth + 1) ('(' :: s ++ '|' :: t ++ [')']) := by
  have hbar : Writable depth ['|'] :=
    .of_passes (.singleton (by decide)) (by simp [groupSigns, quantifierSigns])
  have hinner := (hs.append hbar).append ht
  simpa using hinner.group

theorem repetition (hs : Writable depth s) (hc : c ∈ quantifierSigns) :
    Writable (depth + 1) ('(' :: s ++ [')', c]) := by
  have hgroup := hs.group
  have hsign : Reader.Passes [c] ∧ Nested (depth + 1) [c] := by
    simp only [quantifierSigns, List.mem_cons, List.not_mem_nil, or_false] at hc
    rcases hc with rfl | rfl | rfl <;>
      exact ⟨.singleton (by decide), .of_not_mem (by decide) (by decide) _⟩
  rw [List.append_cons]
  exact {
    passes := hgroup.passes.append hsign.1
    nested := hgroup.nested.append hsign.2
    quantifies := hgroup.quantifies.concat List.getLast?_concat c }

theorem literal (hc : c ∉ syntaxChars) : Writable depth [c] := by
  have hsub : ['(', ')', '\\', '['] ++ groupSigns ⊆ syntaxChars := by
    simp [groupSigns, quantifierSigns, syntaxChars]
  apply Writable.of_passes
  · exact .singleton fun hmem => hc (hsub (List.mem_append_left _ hmem))
  · simp only [List.forall_mem_singleton]
    exact fun hmem => hc (hsub (List.mem_append_right _ hmem))

end Writable

/-! ### Classes -/

/-- A character or a range whose ends are no signs anywhere. -/
def PlainAtom : ClassAtom → Prop
  | .char (.plain c) => c ∉ syntaxChars
  | .range (.plain c) (.plain d) => c ∉ syntaxChars ∧ d ∉ syntaxChars
  | _ => False

def bodyOfAtoms (atoms : List ClassAtom) : ClassSyntax := atoms.foldr .atom .done

variable {spot : ClassSpot} {atoms : List ClassAtom} {a : ClassAtom} {charset : List Char}

theorem text_bodyOfAtoms (atoms : List ClassAtom) :
    (bodyOfAtoms atoms).text = atoms.flatMap ClassAtom.text := by
  induction atoms with
  | nil => rfl
  | cons a atoms ih => rw [List.flatMap_cons, ← ih]; rfl

theorem begins_of_not_mem_syntaxChars (hc : c ∉ syntaxChars) : (WrittenChar.plain c).Begins spot := by
  have hsub : [']', '[', '\\'] ⊆ syntaxChars := by simp [syntaxChars]
  refine ⟨fun hmem => hc (hsub hmem), fun hmem => hc ?_⟩
  rcases ClassReader.mem_signs_iff.1 hmem with ⟨rfl, _⟩ | ⟨rfl, _⟩ | ⟨rfl, _⟩ <;> decide

theorem PlainAtom.begins (ha : PlainAtom a) : a.Begins spot := by
  match a, ha with
  | .char (.plain c), hc => exact begins_of_not_mem_syntaxChars hc
  | .range (.plain c) (.plain d), ⟨hc, hd⟩ =>
    refine ⟨begins_of_not_mem_syntaxChars hc, ?_⟩
    rintro rfl
    exact hd (by decide)

theorem PlainAtom.head_ne (ha : PlainAtom a) : a.text.head? ≠ some '-' := by
  have hdash : ∀ c ∉ syntaxChars, some c ≠ some '-' := by
    rintro _ hc ⟨⟩
    exact hc (by decide)
  match a, ha with
  | .char (.plain c), hc => exact hdash c hc
  | .range (.plain c) (.plain d), ⟨hc, _⟩ => exact hdash c hc

/-- No single class begins with a dash, so that none before it becomes the start of a range. -/
theorem grammatical_bodyOfAtoms (h : ∀ a ∈ atoms, PlainAtom a) :
    (bodyOfAtoms atoms).Grammatical spot := by
  induction atoms generalizing spot with
  | nil => trivial
  | cons a atoms ih =>
    rw [List.forall_mem_cons] at h
    refine ⟨h.1.begins, ?_, ih h.2⟩
    have hhead : (bodyOfAtoms atoms).text.head? ≠ some '-' := by
      cases atoms with
      | nil => simp [bodyOfAtoms, ClassSyntax.text]
      | cons b atoms =>
        have hb : PlainAtom b := h.2 b (by simp)
        rw [text_bodyOfAtoms, List.flatMap_cons, List.head?_append]
        cases hb' : b.text.head? with
        | none => exact absurd (List.head?_eq_none_iff.1 hb') b.text_ne_nil
        | some d => simpa [hb'] using hb.head_ne
    cases a with
    | char w => exact hhead
    | _ => trivial

/-- No single class has a parenthesis or a quantifier in it. -/
theorem PlainAtom.not_mem (ha : PlainAtom a) (hc : c ∈ a.text) : c ∉ groupSigns := by
  intro hmem
  have hsub : groupSigns ⊆ syntaxChars := by simp [groupSigns, quantifierSigns, syntaxChars]
  have hsigns : c ∈ syntaxChars := hsub hmem
  match a, ha with
  | .char (.plain d), hd =>
    obtain rfl : c = d := List.mem_singleton.1 hc
    exact hd hsigns
  | .range (.plain d) (.plain e), ⟨hd, he⟩ =>
    rcases List.mem_cons.1 hc with rfl | hc
    · exact hd hsigns
    rcases List.mem_cons.1 hc with rfl | hc
    · simp [groupSigns, quantifierSigns] at hmem
    obtain rfl : c = e := List.mem_singleton.1 hc
    exact he hsigns

theorem exists_atoms {texts : List (List Char)} (h : ∀ t ∈ texts, ∃ a, PlainAtom a ∧ a.text = t) :
    ∃ atoms, (∀ a ∈ atoms, PlainAtom a) ∧ (bodyOfAtoms atoms).text = texts.flatten := by
  induction texts with
  | nil => exact ⟨[], by simp, rfl⟩
  | cons t texts ih =>
    rw [List.forall_mem_cons] at h
    obtain ⟨a, ha, rfl⟩ := h.1
    obtain ⟨atoms, hatoms, htext⟩ := ih h.2
    refine ⟨a :: atoms, List.forall_mem_cons.2 ⟨ha, hatoms⟩, ?_⟩
    rw [List.flatten_cons, ← htext]
    rfl

theorem Writable.cls {depth : Nat} {texts : List (List Char)} {sign : List Char}
    (hsign : sign = [] ∨ sign = ['^']) (h : ∀ t ∈ texts, ∃ a, PlainAtom a ∧ a.text = t) :
    Writable depth ('[' :: sign ++ texts.flatten ++ [']']) := by
  obtain ⟨atoms, hatoms, htext⟩ := exists_atoms h
  have hpasses : Reader.Passes ('[' :: sign ++ texts.flatten ++ [']']) := by
    rw [← htext]
    rcases hsign with rfl | rfl
    · exact .cls (grammatical_bodyOfAtoms hatoms)
    · exact .cls (t := .complement (bodyOfAtoms atoms)) ⟨rfl, grammatical_bodyOfAtoms hatoms⟩
  have hframe : ∀ c ∈ '[' :: ']' :: sign, c ∉ groupSigns := by
    rcases hsign with rfl | rfl <;> simp [groupSigns, quantifierSigns]
  apply Writable.of_passes hpasses
  intro c hc
  by_cases hbody : c ∈ texts.flatten
  · obtain ⟨t, ht, hct⟩ := List.mem_flatten.1 hbody
    obtain ⟨a, ha, rfl⟩ := h t ht
    exact ha.not_mem hct
  · apply hframe c
    simp only [List.cons_append, List.mem_cons, List.mem_append] at hc ⊢
    grind

/-! ### The strategies -/

variable {σ : Type} [RandomSource σ] {strategies : List PatternStrategy} {inner : Draw σ (List Char)}

theorem ensures_classItem {sorted : List Char} (hne : sorted ≠ [])
    (h : ∀ c ∈ sorted, c ∉ syntaxChars) :
    Ensures (classItem sorted : Draw σ (List Char)) fun t => ∃ a, PlainAtom a ∧ a.text = t := by
  apply (ensures_range (List.length_pos_iff.2 hne)).bind
  rintro i ⟨-, hi⟩
  have hfirst := h sorted[i] (List.getElem_mem hi)
  apply (ensures_chance 50).bind
  rintro ranged -
  cases ranged with
  | true =>
    apply (ensures_range hi).map
    rintro j ⟨-, hj⟩
    have hlast := h sorted[j] (List.getElem_mem hj)
    refine ⟨.range (.plain sorted[i]) (.plain sorted[j]), ⟨hfirst, hlast⟩, ?_⟩
    simp [ClassAtom.text, WrittenChar.text, hi, hj]
  | false =>
    apply ensures_pure
    refine ⟨.char (.plain sorted[i]), hfirst, ?_⟩
    simp [ClassAtom.text, WrittenChar.text, hi]

def PlainCharset (charset : List Char) : Prop :=
  charset ≠ [] ∧ ∀ c ∈ charset, c ∉ syntaxChars

def PatternLeaf.Plain : PatternLeaf → Prop
  | literal charset => PlainCharset charset
  | cls charset => PlainCharset charset
  | metacharacter => True

theorem PatternLeaf.ensures_text {l : PatternLeaf} (hl : l.Plain) (depth : Nat) :
    Ensures (l.text : Draw σ (List Char)) (Writable depth) := by
  cases l with
  | literal charset =>
    exact (ensures_sample hl.1).map fun c hc => .literal (hl.2 c hc)
  | cls charset =>
    have hmem : ∀ c, c ∈ (charset.mergeSort fun c d => decide (c ≤ d)) ↔ c ∈ charset :=
      fun c => List.mem_mergeSort
    have hne : (charset.mergeSort fun c d => decide (c ≤ d)) ≠ [] := by
      obtain ⟨c, hc⟩ := List.exists_mem_of_ne_nil charset hl.1
      exact List.ne_nil_of_mem ((hmem c).2 hc)
    have hitem := ensures_classItem (σ := σ) hne fun c hc => hl.2 c ((hmem c).1 hc)
    apply (ensures_chance 25).bind
    rintro complemented -
    apply (ensures_range (by decide)).bind
    rintro n -
    apply (ensures_times hitem).map
    rintro texts ⟨-, htexts⟩
    apply Writable.cls _ htexts
    cases complemented <;> simp
  | metacharacter =>
    apply (ensures_sample (by simp)).map
    intro c hc
    have hc : c = '.' ∨ c = '^' ∨ c = '$' := by simpa using hc
    rcases hc with rfl | rfl | rfl <;>
      exact .of_passes (.singleton (by decide)) (by simp [groupSigns, quantifierSigns])

theorem PatternComposite.ensures_text {depth : Nat} (hinner : inner.Ensures (Writable depth))
    (c : PatternComposite) : Ensures (c.text inner) (Writable (depth + 1)) := by
  cases c with
  | sequence =>
    apply (ensures_range (by decide)).bind
    rintro n -
    apply (ensures_times hinner).map
    rintro texts ⟨-, htexts⟩
    exact (Writable.flatten htexts).mono (Nat.le_succ depth)
  | alternation =>
    have hrest : ∀ left, Writable depth left →
        Ensures (inner >>= fun right => pure ('(' :: left ++ '|' :: right ++ [')']))
          (Writable (depth + 1)) :=
      fun left hleft => hinner.map fun right hright => hleft.alternation hright
    apply (ensures_chance 10).bind
    rintro bare -
    cases bare with
    | true => exact (ensures_pure .nil).bind hrest
    | false => exact hinner.bind hrest
  | repetition =>
    apply hinner.bind
    intro body hbody
    exact (ensures_sample (by decide)).map fun c hc => hbody.repetition hc

/-- A leaf among the strategies is a candidate on every level, so there is always one to choose. -/
theorem ensures_patternText (hleaf : ∃ l, .leaf l ∈ strategies)
    (hplain : ∀ l, .leaf l ∈ strategies → l.Plain) (depth : Nat) :
    Ensures (patternText strategies depth : Draw σ (List Char)) (Writable depth) := by
  obtain ⟨leaf, hleaf⟩ := hleaf
  have hne : ∀ depth, candidates strategies depth ≠ [] := by
    intro depth
    apply List.ne_nil_of_mem (a := .leaf leaf)
    simp [candidates, hleaf, PatternStrategy.isLeaf]
  have hmem : ∀ depth, candidates strategies depth ⊆ strategies :=
    fun _ => (List.filter_sublist).subset
  induction depth with
  | zero =>
    apply (ensures_sample (hne 0)).bind
    intro strategy hstrategy
    cases strategy with
    | leaf l => exact PatternLeaf.ensures_text (hplain l (hmem 0 hstrategy)) 0
    | composite c => simp [candidates, PatternStrategy.isLeaf] at hstrategy
  | succ depth ih =>
    apply (ensures_sample (hne _)).bind
    intro strategy hstrategy
    cases strategy with
    | leaf l => exact PatternLeaf.ensures_text (hplain l (hmem _ hstrategy)) _
    | composite c => exact PatternComposite.ensures_text ih c

/-- From every state of the source a text is written. It is a pattern, its groups lie at most `depth`
levels deep, and nothing but groups is repeated in it. -/
theorem patternText_valid (hleaf : ∃ l, .leaf l ∈ strategies)
    (hplain : ∀ l, .leaf l ∈ strategies → l.Plain) (depth : Nat) (s : σ) :
    ∃ (text : List Char) (s' : σ),
      (patternText strategies depth).run.run s = (.ok text, s') ∧
        (∃ p, Pattern.parse text = .ok p) ∧ Nested depth text ∧ QuantifiesGroups text := by
  obtain ⟨text, s', hrun, htext⟩ := ensures_patternText hleaf hplain depth s
  exact ⟨text, s', hrun, htext.passes.exists_parse, htext.nested, htext.quantifies⟩

/-- The strategies of the rounds, which write in three letters. -/
theorem patternText_valid_letters :
    (∃ l, .leaf l ∈ Fuzz.patternStrategies) ∧
      (∀ l, .leaf l ∈ Fuzz.patternStrategies → l.Plain) ∧
        ∃ (text : List Char) (s' : Source),
          (patternText Fuzz.patternStrategies 4).run.run (Source.ofSeed 1234) = (.ok text, s') ∧
            (∃ p, Pattern.parse text = .ok p) ∧ Nested 4 text ∧ QuantifiesGroups text := by
  have hleaf : ∃ l, .leaf l ∈ Fuzz.patternStrategies := ⟨.metacharacter, by decide⟩
  have hletters : PlainCharset Fuzz.charset := by
    simp [PlainCharset, Fuzz.charset, syntaxChars]
  have hplain : ∀ l, .leaf l ∈ Fuzz.patternStrategies → l.Plain := by
    intro l hl
    simp only [Fuzz.patternStrategies, List.mem_cons, PatternStrategy.leaf.injEq, reduceCtorEq,
      List.not_mem_nil, or_false] at hl
    rcases hl with rfl | rfl | rfl | rfl <;> first | exact hletters | trivial
  exact ⟨hleaf, hplain, patternText_valid hleaf hplain 4 (Source.ofSeed 1234)⟩

end Sampling

end Regexp
