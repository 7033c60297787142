import Regexp.Proofs.Pattern.ClassText

/-! When a text in brackets is read as one class, its last bracket is the one that closes its first. -/
namespace Regexp

namespace OpenGroup
variable {g : OpenGroup} {p : Option Pattern} {q : Pattern} {k : CharClass}

/-- The group holds more than empty groups. -/
def Occupied (g : OpenGroup) : Prop := g.alternatives ≠ [] ∨ g.sequence ≠ none

theorem sequence_push : (g.push p).sequence = join g.sequence p := rfl

theorem Occupied.push (h : g.Occupied) (p : Option Pattern) : (g.push p).Occupied := by
  refine h.imp_right ?_
  intro hsequence
  rw [sequence_push]
  cases hg : g.sequence <;> cases p <;> simp_all [join]

theorem Occupied.quantify (h : g.Occupied) (q : Quantifier) : (g.quantify q).Occupied := by
  obtain ⟨elements, alternatives⟩ := g
  cases elements with
  | nil => exact h.push _
  | cons p ps =>
    refine h.imp_right ?_
    change join (sequence ⟨ps, alternatives⟩) p ≠ none →
      join (sequence ⟨ps, alternatives⟩) (p.map _) ≠ none
    cases sequence ⟨ps, alternatives⟩ <;> cases p <;> simp [join]

theorem occupied_alternate : g.alternate.Occupied := .inl (by simp [alternate])

/-- One more element makes a sequence or an alternative of the group, but no class. -/
theorem Occupied.value_push_ne_cls (h : g.Occupied) : (g.push (some q)).value ≠ some (.cls k) := by
  rw [value, sequence_push]
  rcases List.eq_nil_or_concat g.alternatives with hnil | ⟨front, last, hconcat⟩
  · obtain ⟨p, hp⟩ := Option.ne_none_iff_exists'.1 (h.resolve_left (by simp [hnil]))
    simp [OpenGroup.push, hnil, hp, join]
  · simp [OpenGroup.push, hconcat]

end OpenGroup

namespace Reader
variable {r r' : Reader} {g : OpenGroup} {outer : List OpenGroup} {b : ClassReader} {c : Char}
  {s : List Char} {k : CharClass} {p : Option Pattern}

def Occupied : OpenGroup → List OpenGroup → Prop
  | g, [] => g.Occupied
  | _, parent :: outer => Occupied parent outer

theorem Occupied.replace (hr : Occupied g outer) {g' : OpenGroup} (h : g.Occupied → g'.Occupied) :
    Occupied g' outer := by
  cases outer with
  | nil => exact h hr
  | cons parent outer => exact hr

theorem Occupied.push (hr : Occupied g outer) (p : Option Pattern) : Occupied (g.push p) outer :=
  hr.replace fun h => h.push p

theorem Begins.occupied (h : r.Begins c r') (hr : Occupied r.group r.outer) :
    Occupied r'.group r'.outer := by
  cases h with
  | opens => exact hr
  | @closes parent outer houter =>
    rw [houter] at hr
    exact Occupied.push (g := parent) hr _
  | alternates => exact hr.replace fun _ => OpenGroup.occupied_alternate
  | escapes => exact hr
  | brackets => exact hr
  | quantifies _ => exact hr.replace fun h => h.quantify _
  | _ => exact hr.push _

theorem occupied_step (h : r.step c = .ok r') (hr : Occupied r.group r.outer) :
    Occupied r'.group r'.outer := by
  cases step_eq_ok_iff.1 h with
  | begins _ h => exact h.occupied hr
  | opensCodePoint _ | insideCodePoint _ _ | insideCls _ _ => exact hr
  | _ => exact hr.push _

theorem Reads.occupied (h : r.Reads s r') (hr : Occupied r.group r.outer) :
    Occupied r'.group r'.outer := by
  induction h with
  | nil => exact hr
  | cons h _ ih => exact ih (occupied_step h hr)

/-- A bracket can only complete an element, whatever it is read as. -/
theorem exists_push_of_step_bracket (h : r.step ']' = .ok r') (hr' : r'.mode = .element) :
    ∃ p, r' = r.push (some p) := by
  obtain ⟨g, outer, mode⟩ := r
  cases mode with
  | element =>
    cases h
    exact ⟨_, rfl⟩
  | escape =>
    cases h
    exact ⟨_, rfl⟩
  | codePoint e =>
    obtain ⟨x, hx, rfl⟩ := map_eq_ok_iff.1 h
    cases x with
    | inl e => contradiction
    | inr d => exact ⟨_, rfl⟩
  | cls b =>
    obtain ⟨x, hx, rfl⟩ := map_eq_ok_iff.1 h
    cases x with
    | inl b => contradiction
    | inr k => exact ⟨_, rfl⟩

theorem exists_yields_of_reads_cls (h : (r.enter (.cls b)).Reads s r') (hr' : r'.mode = .element) :
    ∃ (front rest : List Char) (k : CharClass),
      s = front ++ rest ∧ b.Yields front k ∧ (r.push (some (.cls k))).Reads rest r' := by
  induction s generalizing b with
  | nil =>
    cases h
    contradiction
  | cons c s ih =>
    cases h with
    | cons hstep hs =>
      obtain ⟨x, hx, rfl⟩ := map_eq_ok_iff.1 hstep
      cases x with
      | inl b' =>
        obtain ⟨front, rest, k, rfl, hfront, hrest⟩ := ih hs
        exact ⟨c :: front, rest, k, rfl, .cons hx hfront, hrest⟩
      | inr k => exact ⟨[c], s, k, rfl, .last hx, hs⟩

/-- Behind a class, a text that ends in a bracket adds an element to it. -/
theorem value_ne_cls_of_reads (h : Reads ⟨⟨[some (.cls k)], []⟩, [], .element⟩ (s ++ [']'])
    ⟨g, [], .element⟩) (k' : CharClass) : g.value ≠ some (.cls k') := by
  obtain ⟨r, hs, hlast⟩ := run_append_iff.1 h
  have hcls : Occupied ⟨[some (.cls k)], []⟩ [] :=
    .inr (by simp [OpenGroup.sequence, OpenGroup.join])
  have hoccupied : Occupied r.group r.outer := Reads.occupied hs hcls
  obtain ⟨p, hp⟩ := exists_push_of_step_bracket (run_singleton_iff.1 hlast) rfl
  obtain ⟨group, outer, mode⟩ := r
  cases hp
  exact OpenGroup.Occupied.value_push_ne_cls hoccupied

theorem parse_bracket_iff :
    Pattern.parse ('[' :: s ++ [']']) = .ok (.cls k) ↔ ClassReader.start.Yields (s ++ [']']) k := by
  rw [parse_eq_ok_iff]
  constructor
  · rintro ⟨g, hread, hg⟩
    have hvalue : g.value = some (.cls k) := by
      cases h : g.value with
      | none => simp [h] at hg
      | some p => rw [← hg, h]; rfl
    rw [List.cons_append] at hread
    cases hread with
    | cons hopen hread =>
      cases hopen
      obtain ⟨front, rest, k', hs, hfront, hrest⟩ := exists_yields_of_reads_cls hread rfl
      rcases List.eq_nil_or_concat rest with rfl | ⟨rest, last, rfl⟩
      · cases hrest
        cases hvalue
        rw [hs, List.append_nil]
        exact hfront
      · rw [List.concat_eq_append, ← List.append_assoc] at hs
        obtain ⟨_, hlast⟩ := List.append_inj' hs rfl
        cases hlast
        rw [List.concat_eq_append] at hrest
        exact (value_ne_cls_of_reads hrest k hvalue).elim
  · intro h
    refine ⟨⟨[some (.cls k)], []⟩, ?_, rfl⟩
    exact .cons rfl (reads_of_yields_cls (r := start) h)

end Reader

namespace ClassSyntax
variable {t : ClassSyntax} {s : List Char} {k : CharClass}

theorem yields_iff (ht : t.Grammatical .opened) :
    ClassReader.start.Yields (t.text ++ ']' :: s) k ↔ s = [] ∧ t.toClass = k :=
  ClassReader.yields_text_iff ht ClassReader.at_start

/-- The texts that are one class in brackets are the grammatical bodies. -/
theorem parse_bracket_iff :
    Pattern.parse ('[' :: s ++ [']']) = .ok (.cls k) ↔
      ∃ t : ClassSyntax, t.Grammatical .opened ∧ t.text = s ∧ t.toClass = k := by
  rw [Reader.parse_bracket_iff]
  constructor
  · intro h
    obtain ⟨t, rest, ht, hs⟩ := ClassReader.exists_syntax ClassReader.at_start h
    rw [hs] at h
    obtain ⟨rfl, hk⟩ := (yields_iff ht).1 h
    exact ⟨t, ht, (List.append_inj_left' hs rfl).symm, hk⟩
  · rintro ⟨t, ht, rfl, hk⟩
    exact (yields_iff ht).2 ⟨rfl, hk⟩

theorem grammatical_and_text_eq_iff (ht : t.Grammatical .opened) (u : ClassSyntax) :
    u.Grammatical .opened ∧ u.text = t.text ↔ u = t := by
  constructor
  · rintro ⟨hu, htext⟩
    have hbracket : u.text ++ [']'] = t.text ++ [']'] := by rw [htext]
    exact (text_append_inj hu ht hbracket).1
  · rintro rfl
    exact ⟨ht, rfl⟩

end ClassSyntax

end Regexp
