import Regexp.Proofs.CharClass.Built
import Regexp.Proofs.Pattern.Bracket
import Regexp.Proofs.Pattern.Canonical

/-! The text of a class is read back as the class. Nothing stands between the ranges of a list, so the
text has to be cut where one of them ends and the next begins. -/
namespace Regexp
open RangeList

/-- The characters that are signs somewhere in a class. -/
def classSigns : List Char := ['[', ']', '\\', '^', '-', '&']

def CodeRange.Plain (r : CodeRange) : Prop := r.lo ∉ classSigns ∧ r.hi ∉ classSigns

instance (r : CodeRange) : Decidable r.Plain := inferInstanceAs (Decidable (_ ∧ _))

/-! ### Ranges -/

namespace WrittenChar
variable {c : Char} {spot : ClassSpot}

theorem begins_plain (hc : c ∉ classSigns) : (plain c).Begins spot := by
  have hbrackets : [']', '[', '\\'] ⊆ classSigns := by decide
  have hsigns : spot.signs ⊆ classSigns := by cases spot <;> decide
  exact ⟨fun hmem => hc (hbrackets hmem), fun hmem => hc (hsigns hmem)⟩

theorem ends_plain (hc : c ∉ classSigns) : (plain c).Ends := by
  rintro rfl
  exact hc (by decide)

end WrittenChar

namespace ClassAtom
variable {r : CodeRange} {spot : ClassSpot} {s : List Char}

def ofRange (r : CodeRange) : ClassAtom :=
  if r.isSingle then .char (.plain r.lo) else .range (.plain r.lo) (.plain r.hi)

theorem text_ofRange (r : CodeRange) : (ofRange r).text = r.text := by
  unfold ofRange CodeRange.text
  split <;> rfl

theorem toClass_ofRange (r : CodeRange) : (ofRange r).toClass = .ofList [r] := by
  unfold ofRange
  split
  · next h =>
    have hends : r.lo = r.hi := by simpa [CodeRange.isSingle] using h
    change CharClass.range r.lo r.lo = _
    rw [← CharClass.range_eq_ofList, ← hends]
  · exact CharClass.range_eq_ofList r

theorem begins_ofRange (hr : r.Plain) : (ofRange r).Begins spot := by
  unfold ofRange
  split
  · exact WrittenChar.begins_plain hr.1
  · exact ⟨WrittenChar.begins_plain hr.1, WrittenChar.ends_plain hr.2⟩

theorem precedes_ofRange (hs : s.head? ≠ some '-') : (ofRange r).Precedes s := by
  unfold ofRange
  split
  · exact hs
  · trivial

end ClassAtom

/-! ### Lists -/

namespace ClassSyntax
variable {l m : RangeList} {spot : ClassSpot} {rest : ClassSyntax} {neg : Bool} {k : CharClass}

def ofRanges (l : RangeList) (rest : ClassSyntax) : ClassSyntax :=
  l.foldr (fun r rest => .atom (.ofRange r) rest) rest

theorem text_ofRanges : (ofRanges l rest).text = l.text ++ rest.text := by
  induction l with
  | nil => rfl
  | cons r l ih =>
    change (ClassAtom.ofRange r).text ++ (ofRanges l rest).text = _
    rw [ih, ClassAtom.text_ofRange, RangeList.text, RangeList.text, List.flatMap_cons,
      List.append_assoc]

/-- A range is not taken for the beginning of a longer one. -/
theorem head?_text_ofRanges (hl : ∀ r ∈ l, r.Plain) (hrest : rest.text.head? ≠ some '-') :
    (ofRanges l rest).text.head? ≠ some '-' := by
  rw [text_ofRanges]
  cases l with
  | nil => exact hrest
  | cons r l =>
    have hhead : (RangeList.text (r :: l) ++ rest.text).head? = some r.lo := by
      rw [RangeList.text, List.flatMap_cons, CodeRange.text]
      split <;> rfl
    have hlo : r.lo ≠ '-' := by
      intro h
      exact (hl r (by simp)).1 (by rw [h]; decide)
    simpa [hhead] using hlo

theorem grammatical_ofRanges (hl : ∀ r ∈ l, r.Plain) (hspot : spot ≠ .operand)
    (hdash : rest.text.head? ≠ some '-')
    (hrest : rest.Grammatical (if l = [] then spot else .single)) :
    (ofRanges l rest).Grammatical spot := by
  induction l generalizing spot with
  | nil => exact hrest
  | cons r l ih =>
    rw [List.forall_mem_cons] at hl
    have hnext : spot.next = .single := by cases spot <;> trivial
    have hprecedes := ClassAtom.precedes_ofRange (r := r) (head?_text_ofRanges hl.2 hdash)
    refine ⟨ClassAtom.begins_ofRange hl.1, hprecedes, ?_⟩
    rw [hnext]
    exact ih hl.2 (by decide) (by simpa using hrest)

theorem gather_ofRanges_foldl :
    (ofRanges l rest).gather ⟨neg, .ofList m, none⟩ =
      rest.gather ⟨neg, .ofList (l.foldl (fun m r => m.union [r]) m), none⟩ := by
  induction l generalizing m with
  | nil => rfl
  | cons r l ih =>
    change (ofRanges l rest).gather
      ⟨neg, (CharClass.ofList m).union (ClassAtom.ofRange r).toClass, none⟩ = _
    rw [ClassAtom.toClass_ofRange, CharClass.union_ofList, ih, List.foldl_cons]

theorem gather_ofRanges (hl : l.Normal) :
    (ofRanges l rest).gather ⟨neg, ∅, none⟩ = rest.gather ⟨neg, .ofList l, none⟩ := by
  rw [CharClass.empty_eq_ofList, gather_ofRanges_foldl, hl.foldl_union]

/-! ### Classes -/

/-- What is shown of the characters left out. -/
def ofExcluded (l : RangeList) : ClassSyntax :=
  if l = [] then .done else .inter (.bracket (.complement (ofRanges l .done)) .done)

def ofClass (k : CharClass) : ClassSyntax := ofRanges k.included (ofExcluded k.excluded)

theorem text_ofClass (k : CharClass) : '[' :: (ofClass k).text ++ [']'] = k.text := by
  rw [ofClass, text_ofRanges, CharClass.text]
  cases k.excluded with
  | nil => rfl
  | cons r l => simp [ofExcluded, text, text_ofRanges]

theorem grammatical_ofExcluded (hl : ∀ r ∈ l, r.Plain) : (ofExcluded l).Grammatical .single := by
  unfold ofExcluded
  split
  · trivial
  · have hranges : (ofRanges l .done).Grammatical .complement :=
      grammatical_ofRanges hl (by decide) (by decide) trivial
    exact ⟨.inl rfl, ⟨rfl, hranges⟩, trivial⟩

theorem grammatical_ofClass (hincluded : k.included ≠ [])
    (hplain : ∀ r ∈ k.included ++ k.excluded, r.Plain) : (ofClass k).Grammatical .opened := by
  rw [List.forall_mem_append] at hplain
  have hdash : (ofExcluded k.excluded).text.head? ≠ some '-' := by
    cases k.excluded <;> simp [ofExcluded, text]
  refine grammatical_ofRanges hplain.1 (by decide) hdash ?_
  rw [if_neg hincluded]
  exact grammatical_ofExcluded hplain.2

/-- The complement of the second list is intersected with the first, and becomes the characters left
out. -/
theorem value_gather_ofExcluded {included excluded : RangeList} (hi : included.Normal)
    (he : excluded.Normal) :
    ((ofExcluded excluded).gather ⟨false, .ofList included, none⟩).value =
      ⟨included, excluded, false⟩ := by
  unfold ofExcluded
  split
  · next h =>
    subst h
    rfl
  · have hinner : (complement (ofRanges excluded .done)).gather .empty =
        ⟨true, .ofList excluded, none⟩ := gather_ofRanges he
    change (ClassBody.add ⟨false, .ofList included, some ∅⟩
      ((complement (ofRanges excluded .done)).gather .empty).value).value = _
    rw [hinner, ClassBody.add_other he, ClassBody.value_inter hi he]
    rfl

theorem toClass_ofClass (hk : k.Normal) (hneg : k.negated = false) : (ofClass k).toClass = k := by
  obtain ⟨included, excluded, negated⟩ := k
  obtain rfl : negated = false := hneg
  rw [toClass, ofClass, ClassBody.empty, gather_ofRanges hk.included]
  exact value_gather_ofExcluded hk.included hk.excluded

end ClassSyntax

/-! ### The text of a class -/

namespace CharClass
variable {k : CharClass}

/-- A class with members and no negation is read back from its text with its two lists as they are. -/
theorem parse_text (hk : k.Normal) (hneg : k.negated = false) (hincluded : k.included ≠ [])
    (hplain : ∀ r ∈ k.included ++ k.excluded, r.Plain) : Pattern.parse k.text = .ok (.cls k) := by
  rw [← ClassSyntax.text_ofClass]
  exact ClassSyntax.parse_bracket_iff.2 ⟨.ofClass k, ClassSyntax.grammatical_ofClass hincluded hplain,
    rfl, ClassSyntax.toClass_ofClass hk hneg⟩

/-- Ranges and single characters in both lists, and one range across the surrogates. -/
theorem parse_text_two_lists :
    let included : RangeList := [.ofEnds '0' '9', .singleton '_', .ofEnds 'a' 'z']
    let excluded : RangeList := [.singleton '5', .singleton 'e', .ofEnds 'x' '😀']
    let k : CharClass := ⟨included, excluded, false⟩
    k.Normal ∧ k.text = "[0-9_a-z&&[^5ex-😀]]".toList ∧ Pattern.parse k.text = .ok (.cls k) := by
  intro included excluded k
  have hk : k.Normal := ⟨by decide, by decide⟩
  exact ⟨hk, by decide, parse_text hk rfl (by decide) (by decide)⟩

end CharClass

end Regexp
