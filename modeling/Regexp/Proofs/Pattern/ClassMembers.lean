import Mathlib.Data.Set.Insert
import Regexp.Proofs.CharClass.OfList
import Regexp.Proofs.Pattern.Bracket

/-! What the operators make of a body without complements is the list of its members. -/
namespace Regexp

namespace CharClass
variable {a b k : CharClass} {s t : Set Char} {c : Char}

/-- The class is one list, of the members of the set. -/
def Lists (k : CharClass) (s : Set Char) : Prop := ∃ l, k = ofList l ∧ ∀ c, l.Covers c ↔ c ∈ s

theorem Lists.mem_iff (h : k.Lists s) : c ∈ k ↔ c ∈ s := by
  obtain ⟨l, rfl, hl⟩ := h
  rw [mem_ofList, hl]

theorem Lists.excluded_eq (h : k.Lists s) : k.negated = false ∧ k.excluded = [] := by
  obtain ⟨l, rfl, _⟩ := h
  exact ⟨rfl, rfl⟩

theorem lists_empty : (∅ : CharClass).Lists ∅ := ⟨[], rfl, fun c => by simp⟩

theorem lists_range (c d : Char) :
    (range c d).Lists {e | c ≤ e ∧ e ≤ d ∨ d ≤ e ∧ e ≤ c} :=
  ⟨[.ofEnds c d], rfl, fun e => by simp⟩

theorem lists_single (c : Char) : (single c).Lists {c} :=
  ⟨[.singleton c], single_eq_ofList c, fun e => by simp⟩

theorem Lists.union (ha : a.Lists s) (hb : b.Lists t) : (a.union b).Lists (s ∪ t) := by
  obtain ⟨l, rfl, hl⟩ := ha
  obtain ⟨m, rfl, hm⟩ := hb
  exact ⟨l.union m, union_ofList, fun c => by simp [hl, hm]⟩

theorem Lists.inter (ha : a.Lists s) (hb : b.Lists t) : (a.inter b).Lists (s ∩ t) := by
  obtain ⟨l, rfl, hl⟩ := ha
  obtain ⟨m, rfl, hm⟩ := hb
  exact ⟨l.inter m, inter_ofList, fun c => by simp [hl, hm]⟩

theorem Lists.diff (ha : a.Lists s) (hb : b.Lists t) : (a.diff b).Lists (s \ t) := by
  obtain ⟨l, rfl, hl⟩ := ha
  obtain ⟨m, rfl, hm⟩ := hb
  exact ⟨l.diff m, diff_ofList, fun c => by simp [hl, hm]⟩

theorem lists_range_of_le {c d : Char} (h : c ≤ d) : (range c d).Lists {e | c ≤ e ∧ e ≤ d} := by
  refine ⟨[⟨c, d, h⟩], range_eq_ofList ⟨c, d, h⟩, ?_⟩
  intro e
  simp only [RangeList.covers_cons, RangeList.covers_nil, or_false]
  rfl

theorem lists_digit : digit.Lists (escapedMembers 'd') := lists_range_of_le (by decide)

theorem lists_word : word.Lists (escapedMembers 'w') := by
  have hupper : (range 'A' 'Z').Lists {e | 'A' ≤ e ∧ e ≤ 'Z'} := lists_range_of_le (by decide)
  have hlower : (range 'a' 'z').Lists {e | 'a' ≤ e ∧ e ≤ 'z'} := lists_range_of_le (by decide)
  have hunion := (((lists_empty.union hupper).union hlower).union lists_digit).union
    (lists_single '-')
  have hmembers : escapedMembers 'w' = ∅ ∪ {e | 'A' ≤ e ∧ e ≤ 'Z'} ∪ {e | 'a' ≤ e ∧ e ≤ 'z'} ∪
      escapedMembers 'd' ∪ {'-'} := by
    ext c
    simp [escapedMembers]
  rw [hmembers]
  exact hunion

theorem lists_whitespace : whitespace.Lists (escapedMembers 's') := by
  have hunion := ((((lists_empty.union (lists_single ' ')).union (lists_single '\t')).union
    (lists_single '\r')).union (lists_single '\n')).union (lists_single '\x0C')
  have hmembers : escapedMembers 's' = ∅ ∪ {' '} ∪ {'\t'} ∪ {'\r'} ∪ {'\n'} ∪ {'\x0C'} := by
    ext c
    simp only [escapedMembers, Set.mem_insert_iff, Set.mem_singleton_iff, Set.mem_union,
      Set.mem_empty_iff_false, false_or, or_assoc]
  rw [hmembers]
  exact hunion

theorem lists_of_escapedClass (h : escapedClass c = .ok k) (hc : c ∉ ['D', 'W', 'S']) :
    k.Lists (escapedMembers c) := by
  unfold escapedClass at h
  split at h
  · next hsyntax =>
    have hmembers : ∀ d ∈ syntaxChars, escapedMembers d = {d} := by simp [syntaxChars, escapedMembers]
    cases h
    rw [hmembers c hsyntax]
    exact lists_single c
  · split at h
    · next hshorthand =>
      cases h
      unfold shorthand? at hshorthand
      split at hshorthand
      · cases hshorthand
        exact lists_digit
      · simp at hc
      · cases hshorthand
        exact lists_word
      · simp at hc
      · cases hshorthand
        exact lists_whitespace
      · simp at hc
      · contradiction
    · contradiction

end CharClass

namespace ClassBody
variable {b : ClassBody} {e : ClassExtent} {k : CharClass} {s : Set Char}

/-- The body has gathered what the grammar says. -/
structure Lists (b : ClassBody) (e : ClassExtent) : Prop where
  negated : b.negated = false
  gathered : b.gathered.Lists e.gathered
  operand : Option.Rel CharClass.Lists b.operand e.operand

theorem lists_empty : empty.Lists .empty := ⟨rfl, CharClass.lists_empty, .none⟩

theorem Lists.add (h : b.Lists e) (hk : k.Lists s) : (b.add k).Lists (e.add s) := by
  obtain ⟨negated, gathered, operand⟩ := b
  obtain ⟨extent, part⟩ := e
  obtain ⟨hnegated, hgathered, hoperand⟩ := h
  cases hoperand with
  | none => exact ⟨hnegated, hgathered.union hk, .none⟩
  | some ho => exact ⟨hnegated, hgathered, .some (ho.union hk)⟩

theorem Lists.subtract (h : b.Lists e) (hk : k.Lists s) :
    (b.subtract k).Lists ⟨e.gathered \ s, e.operand⟩ :=
  ⟨h.negated, h.gathered.diff hk, h.operand⟩

theorem Lists.settle (h : b.Lists e) : b.settle.gathered.Lists e.settled := by
  obtain ⟨negated, gathered, operand⟩ := b
  obtain ⟨extent, part⟩ := e
  obtain ⟨hnegated, hgathered, hoperand⟩ := h
  cases hoperand with
  | none => exact hgathered
  | some ho => exact hgathered.inter ho

theorem negated_settle : b.settle.negated = b.negated := by
  unfold settle
  split <;> rfl

theorem Lists.value (h : b.Lists e) : b.value.Lists e.settled := by
  rw [ClassBody.value, h.negated]
  exact h.settle

end ClassBody

namespace ClassSyntax
variable {t : ClassSyntax} {b : ClassBody} {e : ClassExtent}

theorem lists_atom {a : ClassAtom} (h : a.Positive) : a.toClass.Lists a.members := by
  cases a with
  | char w => exact CharClass.lists_single w.char
  | range lo hi => exact CharClass.lists_range lo.char hi.char
  | escape c k hk => exact CharClass.lists_of_escapedClass hk h

theorem lists_gather (ht : t.Positive) (h : b.Lists e) :
    (t.gather b).value.Lists (t.membersFrom e) := by
  induction t generalizing b e with
  | done => exact h.value
  | complement rest ih => exact ht.elim
  | atom a rest ih => exact ih ht.2 (h.add (lists_atom ht.1))
  | bracket inner rest ihinner ih =>
    exact ih ht.2 (h.add (ihinner ht.1 ClassBody.lists_empty))
  | inter rest ih =>
    refine ih ht ⟨?_, h.settle, .some CharClass.lists_empty⟩
    exact ClassBody.negated_settle.trans h.negated
  | diff rest ih =>
    have hdiff := (h.subtract (ih ht ClassBody.lists_empty)).value
    have hsettled : e.settled \ rest.membersFrom .empty =
        ClassExtent.settled ⟨e.gathered \ rest.membersFrom .empty, e.operand⟩ := by
      unfold ClassExtent.settled
      cases e.operand with
      | none => rfl
      | some o =>
        ext c
        simp [and_right_comm]
    rw [membersFrom, hsettled]
    exact hdiff

/-- A body in brackets is read in one way. Without complements the class is one list, of the characters
that the body stands for. -/
theorem exists_syntax_members {s : List Char} {k : CharClass}
    (h : Pattern.parse ('[' :: s ++ [']']) = .ok (.cls k)) :
    ∃ t : ClassSyntax, (∀ u : ClassSyntax, u.Grammatical .opened ∧ u.text = s ↔ u = t) ∧
      (t.Positive → k.negated = false ∧ k.excluded = [] ∧ ∀ c, c ∈ k ↔ c ∈ t.members) := by
  obtain ⟨t, ht, rfl, rfl⟩ := parse_bracket_iff.1 h
  refine ⟨t, grammatical_and_text_eq_iff ht, ?_⟩
  intro hpositive
  have hlists := lists_gather hpositive ClassBody.lists_empty
  exact ⟨hlists.excluded_eq.1, hlists.excluded_eq.2, fun c => hlists.mem_iff⟩

/-- Of the dashes behind a class, one takes a nested body away and the other is a character, since it
stands among the operands of an intersection. -/
theorem members_with_two_dashes :
    let nested := atom (.range (.plain 'e') (.plain 'y'))
      (diff (bracket (atom (.range (.plain 'm') (.plain 'o')) done) done))
    let operand := bracket nested (atom (.char (.plain '-')) (atom (.char (.plain '5')) done))
    let t := atom (.escape 'd' .digit rfl) (atom (.range (.plain 'a') (.plain 'z')) (inter operand))
    let k : CharClass := ⟨[.singleton '5', .ofEnds 'e' 'l', .ofEnds 'p' 'y'], [], false⟩
    t.text = "\\da-z&&[e-y-[m-o]]-5".toList ∧ t.Positive ∧
      Pattern.parse ('[' :: t.text ++ [']']) = .ok (.cls k) ∧ ∀ c, c ∈ k ↔ c ∈ t.members := by
  intro nested operand t k
  have hparse : Pattern.parse ('[' :: t.text ++ [']']) = .ok (.cls k) := by decide
  have ht : t.Grammatical .opened := by
    simp [t, operand, nested, Grammatical, text, ClassAtom.Begins, ClassAtom.Precedes,
      ClassAtom.text, WrittenChar.Begins, WrittenChar.Ends, WrittenChar.text, ClassSpot.signs,
      ClassSpot.next]
  have hpositive : t.Positive := by
    simp [t, operand, nested, Positive, ClassAtom.Positive]
  obtain ⟨u, hu, hmembers⟩ := exists_syntax_members hparse
  obtain rfl : t = u := (hu t).1 ⟨ht, rfl⟩
  exact ⟨rfl, hpositive, hparse, (hmembers hpositive).2.2⟩

end ClassSyntax

end Regexp
