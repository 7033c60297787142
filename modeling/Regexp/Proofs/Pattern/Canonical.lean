import Regexp.Pattern.Canonical
import Regexp.Proofs.CharClass.OfList
import Regexp.Proofs.Pattern.Escape

/-! The canonical text of a pattern is read back as the pattern. -/
namespace Regexp
open RangeList

/-! ### Classes -/

def CharClass.canonicalBody (leading other : RangeList) : List Char :=
  '[' :: (leading.canonical ++ [']']) ++ ['&', '&', '[', '^'] ++ (other.canonical ++ [']']) ++ [']']

theorem CharClass.canonical_eq (k : CharClass) :
    k.canonical =
      if k.negated then ['[', '^'] ++ canonicalBody k.excluded k.included
      else ['['] ++ canonicalBody k.included k.excluded := by
  have hsigns : "]&&[^".toList = [']', '&', '&', '[', '^'] := rfl
  cases h : k.negated <;> simp [CharClass.canonical, canonicalBody, h, hsigns]

namespace ClassBody
variable {leading other : RangeList} {neg : Bool}

theorem add_leading (hl : leading.Normal) :
    add ⟨neg, ∅, none⟩ (value ⟨false, .ofList leading, none⟩) = ⟨neg, .ofList leading, none⟩ := by
  simp [add, value, settle, CharClass.empty_union_ofList hl]

theorem add_other (ho : other.Normal) :
    add ⟨neg, .ofList leading, some ∅⟩ (value ⟨true, .ofList other, none⟩) =
      ⟨neg, .ofList leading, some (.negate (.ofList other))⟩ := by
  simp [add, value, settle, CharClass.empty_union_negate_ofList ho]

theorem value_inter (hl : leading.Normal) (ho : other.Normal) :
    value ⟨neg, .ofList leading, some (.negate (.ofList other))⟩ =
      value ⟨neg, ⟨leading, other, false⟩, none⟩ := by
  simp [value, settle, CharClass.inter_negate_ofList hl ho]

end ClassBody

/-- A single class may begin here, and no character waits for a dash. -/
def ClassPlace.IsBoundary (place : ClassPlace) : Prop :=
  place = .opened ∨ place = .sign ∨ place = .single

namespace ClassReader
variable {r : ClassReader} {place : ClassPlace} {outer : List (Nesting × ClassBody)}
  {parent : ClassBody} {neg : Bool} {l m : RangeList} {q : CodeRange} {c d : Char}

theorem step_of_isBoundary (hr : r.place.IsBoundary) (hc : c ∉ ['^', '&', '-']) :
    r.step c = .ok (r.begin c) := by
  simp only [List.mem_cons, List.not_mem_nil, not_or] at hc
  have hoperate : r.operate c = r.begin c := by simp [operate, hc]
  obtain ⟨b, place, outer⟩ := r
  rcases hr with rfl | rfl | rfl
  · simp [step, hc]
  · simp [step, hoperate]
  · simp [step, hoperate]

/-- The characters that mean something by themselves in a class are all short enough for a code point
escape. -/
theorem not_mem_of_long (hc : ¬ c.toNat ≤ 0xFFFF) : c ∉ ['^', '&', '-', '[', ']', '\\'] := by
  have hshort : ∀ d ∈ ['^', '&', '-', '[', ']', '\\'], d.toNat ≤ 0xFFFF := by simp
  intro hmem
  exact hc (hshort c hmem)

theorem reads_canonicalEnd (hr : r.place.IsBoundary) : r.Reads (canonicalEnd c) (r.goto (.char c)) := by
  unfold canonicalEnd
  split
  · next hc =>
    have hescape : r.Reads ['\\'] (r.goto .escape) :=
      .single (step_of_isBoundary hr (by decide))
    have hcode : (r.goto .escape).Reads ['u'] (r.goto (.codePoint .unopened)) := .single rfl
    exact (hescape.append hcode).append
      (reads_of_yields_codePoint (CodePointEscape.yields_toDigits hc))
  · next hc =>
    have hmem := not_mem_of_long hc
    simp only [List.mem_cons, List.not_mem_nil, not_or] at hmem
    apply Run.single
    rw [step_of_isBoundary hr (by simp [hmem])]
    simp [begin, hmem]

theorem reads_canonicalEnd_after_dash :
    Reads (r.goto (.dash c)) (canonicalEnd d) (r.add (.range c d)) := by
  unfold canonicalEnd
  split
  · next hd =>
    have hescape : Reads (r.goto (.dash c)) ['\\'] (r.goto (.endEscape c)) := .single rfl
    have hcode : Reads (r.goto (.endEscape c)) ['u'] (r.goto (.endCodePoint c .unopened)) :=
      .single rfl
    exact (hescape.append hcode).append
      (reads_of_yields_endCodePoint (CodePointEscape.yields_toDigits hd))
  · next hd =>
    have hmem := not_mem_of_long hd
    simp only [List.mem_cons, List.not_mem_nil, not_or] at hmem
    apply Run.single
    simp [step, goto, add, hmem]

theorem reads_canonical_range (hr : r.place.IsBoundary) :
    r.Reads q.canonical (r.add (.range q.lo q.hi)) := by
  have hdash : Reads (r.goto (.char q.lo)) ['-'] (r.goto (.dash q.lo)) := .single rfl
  rw [CodeRange.canonical, List.append_cons]
  exact ((reads_canonicalEnd hr).append hdash).append reads_canonicalEnd_after_dash

/-- The ranges of a list join what has been gathered, one after the other. -/
theorem reads_canonical_list (hplace : place.IsBoundary) :
    ∃ place' : ClassPlace, place'.IsBoundary ∧
      Reads ⟨⟨neg, .ofList m, none⟩, place, outer⟩ l.canonical
        ⟨⟨neg, .ofList (l.foldl (fun m q => m.union [q]) m), none⟩, place', outer⟩ := by
  induction l generalizing m place with
  | nil => exact ⟨place, hplace, .nil _⟩
  | cons q l ih =>
    have hq : Reads ⟨⟨neg, .ofList m, none⟩, place, outer⟩ q.canonical
        ⟨⟨neg, .ofList (m.union [q]), none⟩, .single, outer⟩ := by
      rw [← CharClass.union_ofList, ← CharClass.range_eq_ofList]
      exact reads_canonical_range hplace
    obtain ⟨place', hplace', hl⟩ := ih (m := m.union [q]) (.inr (.inr rfl))
    exact ⟨place', hplace', hq.append hl⟩

theorem reads_canonical_body (hl : l.Normal) (hplace : place.IsBoundary) :
    Reads ⟨⟨neg, ∅, none⟩, place, (.bracket, parent) :: outer⟩ (l.canonical ++ [']'])
      ⟨parent.add (ClassBody.value ⟨neg, .ofList l, none⟩), .single, outer⟩ := by
  obtain ⟨place', hplace', hread⟩ := reads_canonical_list (l := l) (m := []) hplace
  rw [hl.foldl_union] at hread
  exact hread.append (.single (step_of_isBoundary hplace' (by decide)))

/-- Behind the sign the leading list is gathered, and the other one is taken out of it. -/
theorem yields_canonicalBody {leading other : RangeList} (hl : leading.Normal) (ho : other.Normal)
    (hplace : place.IsBoundary) :
    Yields ⟨⟨neg, ∅, none⟩, place, []⟩ (CharClass.canonicalBody leading other)
      (ClassBody.value ⟨neg, ⟨leading, other, false⟩, none⟩) := by
  have hopen : Reads ⟨⟨neg, ∅, none⟩, place, []⟩ ['[']
      ⟨.empty, .opened, [(.bracket, ⟨neg, ∅, none⟩)]⟩ :=
    .single (step_of_isBoundary hplace (by decide))
  have hleading : Reads ⟨.empty, .opened, [(.bracket, ⟨neg, ∅, none⟩)]⟩
      (leading.canonical ++ [']']) ⟨⟨neg, .ofList leading, none⟩, .single, []⟩ := by
    rw [← ClassBody.add_leading hl]
    exact reads_canonical_body hl (.inl rfl)
  have hsign : Reads ⟨⟨neg, .ofList leading, none⟩, .single, []⟩ ['&', '&', '[', '^']
      ⟨⟨true, ∅, none⟩, .sign, [(.bracket, ⟨neg, .ofList leading, some ∅⟩)]⟩ :=
    .cons rfl (.cons rfl (.cons rfl (.single rfl)))
  have hother : Reads ⟨⟨true, ∅, none⟩, .sign, [(.bracket, ⟨neg, .ofList leading, some ∅⟩)]⟩
      (other.canonical ++ [']'])
      ⟨⟨neg, .ofList leading, some (.negate (.ofList other))⟩, .single, []⟩ := by
    rw [← ClassBody.add_other ho]
    exact reads_canonical_body ho (.inr (.inl rfl))
  have hclose : ClassReader.step
      ⟨⟨neg, .ofList leading, some (.negate (.ofList other))⟩, .single, []⟩ ']' =
      .ok (.inr (ClassBody.value ⟨neg, ⟨leading, other, false⟩, none⟩)) := by
    rw [step_of_isBoundary (.inr (.inr rfl)) (by decide), ← ClassBody.value_inter hl ho]
    rfl
  exact (((hopen.append hleading).append hsign).append hother).yields (.last hclose)

end ClassReader

namespace Reader
variable {r : Reader} {k : CharClass}

theorem reads_canonical_cls (hr : r.mode = .element) (hi : k.included.Normal)
    (he : k.excluded.Normal) : r.Reads k.canonical (r.push (some (.cls k))) := by
  obtain ⟨g, outer, mode⟩ := r
  obtain rfl : mode = .element := hr
  obtain ⟨included, excluded, negated⟩ := k
  rw [CharClass.canonical_eq]
  cases negated with
  | false =>
    have hopen : Reads ⟨g, outer, .element⟩ ['['] ⟨g, outer, .cls .start⟩ := .single rfl
    exact hopen.append (reads_of_yields_cls (r := ⟨g, outer, .element⟩)
      (ClassReader.yields_canonicalBody hi he (.inl rfl)))
  | true =>
    have hopen : Reads ⟨g, outer, .element⟩ ['[', '^']
        ⟨g, outer, .cls ⟨⟨true, ∅, none⟩, .sign, []⟩⟩ :=
      .cons rfl (.single rfl)
    exact hopen.append (reads_of_yields_cls (r := ⟨g, outer, .element⟩)
      (ClassReader.yields_canonicalBody he hi (.inr (.inl rfl))))

end Reader

/-! ### Patterns -/

namespace Pattern
variable {p : Pattern}

/-- What a pattern is to the group around it, where a blank is no element. -/
def element? : Pattern → Option Pattern
  | blank => none
  | p => some p

@[simp] theorem getD_element? (p : Pattern) : p.element?.getD .blank = p := by
  cases p <;> rfl

theorem element?_of_solid (h : p.Solid) : p.element? = some p := by
  cases p with
  | blank => exact h.elim
  | _ => rfl

/-- The text is read as a pattern of its own, and its value is the pattern. -/
theorem reads_canonical (h : p.WellFormed) :
    ∃ g, Reader.start.Reads p.canonical ⟨g, [], .element⟩ ∧ g.value = p.element? := by
  induction p with
  | choice p q ihp ihq =>
    obtain ⟨hp, hq⟩ : p.WellFormed ∧ q.WellFormed := h.resolve_left (by simp)
    obtain ⟨a, ha, hap⟩ := ihp hp
    obtain ⟨b, hb, hbq⟩ := ihq hq
    refine ⟨_, ha.choice hb, ?_⟩
    rw [hap, hbq]
    change some (choice (p.element?.getD .blank) (q.element?.getD .blank)) = some (choice p q)
    rw [getD_element?, getD_element?]
  | seq p q ihp ihq =>
    obtain ⟨hp, hq⟩ : p.Solid ∧ q.Solid := h.resolve_left (by simp)
    obtain ⟨a, ha, hap⟩ := ihp (.inr hp)
    obtain ⟨b, hb, hbq⟩ := ihq (.inr hq)
    refine ⟨_, ha.seq hb, ?_⟩
    rw [hap, hbq, element?_of_solid hp, element?_of_solid hq]
    rfl
  | quantified p q ih =>
    have hp : p.Solid := h.resolve_left (by simp)
    obtain ⟨a, ha, hap⟩ := ih (.inr hp)
    refine ⟨_, ha.quantified q, ?_⟩
    rw [hap, element?_of_solid hp]
    rfl
  | cls k =>
    obtain ⟨hi, he⟩ : k.included.Normal ∧ k.excluded.Normal := h.resolve_left (by simp)
    exact ⟨⟨[some (cls k)], []⟩, Reader.reads_canonical_cls rfl hi he, rfl⟩
  | char c =>
    have hc : c ∉ metaChars := h.resolve_left (by simp)
    refine ⟨⟨[some (char c)], []⟩, .single ?_, rfl⟩
    change Reader.start.begin c = _
    rw [Reader.begin_of_not_mem_metaChars hc]
    cases hq : Quantifier.ofChar? c with
    | none => rfl
    | some q =>
      -- Here the quantifier has nothing to repeat.
      rw [← Quantifier.symbol_of_ofChar? hq]
      rfl
  | any => exact ⟨⟨[some any], []⟩, .single rfl, rfl⟩
  | startOfInput => exact ⟨⟨[some startOfInput], []⟩, .single rfl, rfl⟩
  | endOfInput => exact ⟨⟨[some endOfInput], []⟩, .single rfl, rfl⟩
  | blank => exact ⟨.empty, .nil _, rfl⟩

theorem parse_canonical (h : p.WellFormed) : parse p.canonical = .ok p := by
  obtain ⟨g, hg, hp⟩ := reads_canonical h
  apply Reader.parse_eq_ok_iff.2 ⟨g, hg, _⟩
  rw [hp, getD_element?]

/-- An optional blank after a starred class whose polarity and lists all matter. -/
theorem parse_canonical_starred_class :
    let letters : RangeList := [.ofEnds 'a' 'f', .ofEnds 'x' '😀']
    let star : Pattern := quantified (cls ⟨[.singleton 'c'], letters, true⟩) .zeroOrMore
    let p : Pattern := seq star (choice blank (char '*'))
    p.WellFormed ∧ parse p.canonical = .ok p := by
  intro letters star p
  have hstar : star.Solid := ⟨by decide, by decide⟩
  have hchar : '*' ∉ metaChars := by decide
  have hp : p.WellFormed := .inr ⟨hstar, .inl rfl, .inr hchar⟩
  exact ⟨hp, parse_canonical hp⟩

end Pattern

end Regexp
