import Regexp.Proofs.CharClass.Built
import Regexp.Proofs.Pattern.Bracket

/-! What a text is read as is well formed, and every class in it is built by the operators. -/
namespace Regexp

theorem built_of_escapedClass {c : Char} {k : CharClass} (h : escapedClass c = .ok k) : k.Built := by
  unfold escapedClass at h
  split at h
  · cases h
    exact .single c
  · split at h
    · next hk =>
      cases h
      exact .shorthand hk
    · contradiction

/-! ### Class bodies -/

namespace ClassBody
variable {b : ClassBody} {k : CharClass}

/-- All that the body has gathered is built. -/
structure Built (b : ClassBody) : Prop where
  gathered : b.gathered.Built
  operand : ∀ o, b.operand = some o → o.Built

theorem built_empty : Built .empty := ⟨.empty, by simp [empty]⟩

theorem Built.add (hb : b.Built) (hk : k.Built) : (b.add k).Built := by
  unfold ClassBody.add
  split
  · next hnone => exact ⟨.union hb.gathered hk, by simp [hnone]⟩
  · next o ho =>
    refine ⟨hb.gathered, ?_⟩
    rintro _ ⟨⟩
    exact .union (hb.operand o ho) hk

theorem Built.subtract (hb : b.Built) (hk : k.Built) : (b.subtract k).Built :=
  ⟨.diff hb.gathered hk, hb.operand⟩

theorem Built.settle (hb : b.Built) : b.settle.Built := by
  unfold ClassBody.settle
  split
  · exact hb
  · next o ho => exact ⟨.inter hb.gathered (hb.operand o ho), by simp⟩

theorem Built.value (hb : b.Built) : b.value.Built := by
  unfold ClassBody.value
  split
  · exact .negate hb.settle.gathered
  · exact hb.settle.gathered

end ClassBody

theorem ClassAtom.built_toClass (a : ClassAtom) : a.toClass.Built := by
  cases a with
  | char w => exact .single w.char
  | range lo hi => exact .range lo.char hi.char
  | escape c k h => exact built_of_escapedClass h

namespace ClassSyntax

theorem built_gather (t : ClassSyntax) {b : ClassBody} (hb : b.Built) : (t.gather b).Built := by
  induction t generalizing b with
  | done => exact hb
  | complement rest ih => exact ih ⟨hb.gathered, hb.operand⟩
  | atom a rest ih => exact ih (hb.add a.built_toClass)
  | bracket inner rest ihinner ih => exact ih (hb.add (ihinner ClassBody.built_empty).value)
  | inter rest ih =>
    apply ih
    refine ⟨hb.settle.gathered, ?_⟩
    rintro _ ⟨⟩
    exact .empty
  | diff rest ih => exact hb.subtract (ih ClassBody.built_empty).value

theorem built_toClass (t : ClassSyntax) : t.toClass.Built :=
  (t.built_gather ClassBody.built_empty).value

end ClassSyntax

theorem ClassReader.built_of_yields {s : List Char} {k : CharClass} (h : start.Yields s k) :
    k.Built := by
  obtain ⟨t, rest, ht, rfl⟩ := exists_syntax at_start h
  obtain ⟨_, rfl⟩ := (ClassSyntax.yields_iff ht).1 h
  exact t.built_toClass

/-! ### Groups -/

theorem Pattern.solid_cls {k : CharClass} (hk : k.Built) : (cls k).Solid :=
  ⟨hk.normal.included, hk.normal.excluded⟩

/-- An element of a sequence, if it is no empty group, is a solid pattern. -/
def SolidElement : Option Pattern → Prop
  | none => True
  | some p => p.Solid

namespace SolidElement
variable {p q : Option Pattern}

theorem join (hp : SolidElement p) (hq : SolidElement q) : SolidElement (OpenGroup.join p q) := by
  cases p with
  | none => exact hq
  | some p =>
    cases q with
    | none => exact hp
    | some q => exact ⟨hp, hq⟩

theorem wellFormed_getD (hp : SolidElement p) : (p.getD .blank).WellFormed := by
  cases p with
  | none => exact .inl rfl
  | some p => exact .inr hp

/-- An alternative may be empty, and is a blank then. -/
theorem choices {lefts : List (Option Pattern)} (hp : SolidElement p)
    (hlefts : ∀ q ∈ lefts, SolidElement q) :
    SolidElement (lefts.foldl
      (fun right left => some (.choice (left.getD .blank) (right.getD .blank))) p) := by
  induction lefts generalizing p with
  | nil => exact hp
  | cons left lefts ih =>
    obtain ⟨hleft, hrest⟩ := List.forall_mem_cons.1 hlefts
    have hchoice : SolidElement (some (.choice (left.getD .blank) (p.getD .blank))) :=
      ⟨hleft.wellFormed_getD, hp.wellFormed_getD⟩
    exact ih hchoice hrest

end SolidElement

namespace OpenGroup
variable {g : OpenGroup} {p : Option Pattern}

structure Solid (g : OpenGroup) : Prop where
  elements : ∀ p ∈ g.elements, SolidElement p
  alternatives : ∀ p ∈ g.alternatives, SolidElement p

theorem solid_empty : Solid .empty := ⟨by simp [empty], by simp [empty]⟩

theorem Solid.push (hg : g.Solid) (hp : SolidElement p) : (g.push p).Solid :=
  ⟨List.forall_mem_cons.2 ⟨hp, hg.elements⟩, hg.alternatives⟩

theorem Solid.sequence (hg : g.Solid) : SolidElement g.sequence := by
  obtain ⟨elements, alternatives⟩ := g
  obtain ⟨helements, halternatives⟩ := hg
  induction elements with
  | nil => trivial
  | cons p ps ih =>
    obtain ⟨hp, hps⟩ := List.forall_mem_cons.1 helements
    exact (ih hps halternatives).join hp

theorem Solid.alternate (hg : g.Solid) : g.alternate.Solid :=
  ⟨by simp [OpenGroup.alternate], List.forall_mem_cons.2 ⟨hg.sequence, hg.alternatives⟩⟩

theorem Solid.quantify (hg : g.Solid) (q : Quantifier) : (g.quantify q).Solid := by
  obtain ⟨elements, alternatives⟩ := g
  cases elements with
  | nil =>
    have hliteral : q.symbol ∉ metaChars := by cases q <;> decide
    exact hg.push hliteral
  | cons p ps =>
    obtain ⟨hp, hps⟩ := List.forall_mem_cons.1 hg.elements
    have hquantified : SolidElement (p.map (Pattern.quantified · q)) := by
      cases p with
      | none => trivial
      | some p => exact hp
    exact ⟨List.forall_mem_cons.2 ⟨hquantified, hps⟩, hg.alternatives⟩

theorem Solid.value (hg : g.Solid) : SolidElement g.value := hg.sequence.choices hg.alternatives

end OpenGroup

/-! ### Readers -/

namespace Reader
variable {r r' : Reader} {c : Char} {s : List Char} {p : Option Pattern}

/-- All that the reader has gathered is solid, and the class that it stands in was read from its
bracket on. -/
structure Sound (r : Reader) : Prop where
  group : r.group.Solid
  outer : ∀ g ∈ r.outer, g.Solid
  cls : ∀ b, r.mode = .cls b → ∃ s, ClassReader.start.Reads s b

theorem sound_start : Sound start := ⟨OpenGroup.solid_empty, by simp [start], by simp [start]⟩

theorem Sound.push (hr : r.Sound) (hp : SolidElement p) : (r.push p).Sound :=
  ⟨hr.group.push hp, hr.outer, by simp [Reader.push]⟩

theorem Begins.sound (h : r.Begins c r') (hr : r.Sound) (hmode : r.mode = .element) : r'.Sound := by
  have hmode' : ∀ b, r.mode = .cls b → ∃ s, ClassReader.start.Reads s b := by simp [hmode]
  cases h with
  | opens => exact ⟨OpenGroup.solid_empty, List.forall_mem_cons.2 ⟨hr.group, hr.outer⟩, by simp⟩
  | closes houter =>
    have houter' := hr.outer
    rw [houter, List.forall_mem_cons] at houter'
    exact ⟨houter'.1.push hr.group.value, houter'.2, by simp⟩
  | alternates => exact ⟨hr.group.alternate, hr.outer, hmode'⟩
  | escapes => exact ⟨hr.group, hr.outer, by simp [enter]⟩
  | brackets =>
    refine ⟨hr.group, hr.outer, ?_⟩
    rintro _ ⟨⟩
    exact ⟨[], .nil _⟩
  | quantifies _ => exact ⟨hr.group.quantify _, hr.outer, hmode'⟩
  | char hmeta _ => exact hr.push hmeta
  | _ => exact hr.push trivial

theorem sound_step (h : r.step c = .ok r') (hr : r.Sound) : r'.Sound := by
  cases step_eq_ok_iff.1 h with
  | begins hmode h => exact h.sound hr hmode
  | opensCodePoint _ | insideCodePoint _ _ => exact ⟨hr.group, hr.outer, by simp [enter]⟩
  | endsEscape _ _ hk => exact hr.push (Pattern.solid_cls (built_of_escapedClass hk))
  | endsCodePoint _ _ => exact hr.push (Pattern.solid_cls (.single _))
  | insideCls hmode hb =>
    obtain ⟨s, hs⟩ := hr.cls _ hmode
    refine ⟨hr.group, hr.outer, ?_⟩
    rintro _ ⟨⟩
    exact ⟨s ++ [c], hs.append (.single hb)⟩
  | endsCls hmode hb =>
    obtain ⟨s, hs⟩ := hr.cls _ hmode
    exact hr.push (Pattern.solid_cls (ClassReader.built_of_yields (hs.yields (.last hb))))

theorem Reads.sound (h : r.Reads s r') (hr : r.Sound) : r'.Sound := by
  induction h with
  | nil => exact hr
  | cons h _ ih => exact ih (sound_step h hr)

end Reader

/-! ### Patterns -/

namespace Pattern
variable {p q : Pattern} {text : List Char} {k : CharClass}

theorem wellFormed_of_parse (h : parse text = .ok p) : p.WellFormed := by
  obtain ⟨g, hg, rfl⟩ := Reader.parse_eq_ok_iff.1 h
  exact (hg.sound Reader.sound_start).group.value.wellFormed_getD

/-- What passes from a pattern to its operands holds of all that the pattern is made of. -/
theorem forall_mem_nodes {motive : Pattern → Prop}
    (hoperands : ∀ p, motive p → ∀ q ∈ p.operands, motive q) (hp : motive p) :
    ∀ q ∈ p.nodes, motive q := by
  induction p with
  | choice a b iha ihb =>
    have ha := iha (hoperands _ hp a (by simp [operands]))
    have hb := ihb (hoperands _ hp b (by simp [operands]))
    exact List.forall_mem_cons.2 ⟨hp, List.forall_mem_append.2 ⟨ha, hb⟩⟩
  | seq a b iha ihb =>
    have ha := iha (hoperands _ hp a (by simp [operands]))
    have hb := ihb (hoperands _ hp b (by simp [operands]))
    exact List.forall_mem_cons.2 ⟨hp, List.forall_mem_append.2 ⟨ha, hb⟩⟩
  | quantified a r ih =>
    have ha := ih (hoperands _ hp a (by simp [operands]))
    exact List.forall_mem_cons.2 ⟨hp, ha⟩
  | _ => exact List.forall_mem_singleton.2 hp

theorem WellFormed.of_mem_operands (h : p.WellFormed) : ∀ q ∈ p.operands, q.WellFormed := by
  cases p with
  | choice a b =>
    obtain ⟨ha, hb⟩ : a.WellFormed ∧ b.WellFormed := h.resolve_left (by simp)
    exact List.forall_mem_cons.2 ⟨ha, List.forall_mem_singleton.2 hb⟩
  | seq a b =>
    obtain ⟨ha, hb⟩ : a.Solid ∧ b.Solid := h.resolve_left (by simp)
    exact List.forall_mem_cons.2 ⟨.inr ha, List.forall_mem_singleton.2 (.inr hb)⟩
  | quantified a r =>
    have ha : a.Solid := h.resolve_left (by simp)
    exact List.forall_mem_singleton.2 (.inr ha)
  | _ => exact List.forall_mem_nil _

theorem WellFormed.of_mem_nodes (h : p.WellFormed) (hq : q ∈ p.nodes) : q.WellFormed :=
  forall_mem_nodes (fun _ hp => hp.of_mem_operands) h q hq

theorem WellFormed.normal_of_mem_nodes (h : p.WellFormed) (hk : .cls k ∈ p.nodes) : k.Normal := by
  obtain ⟨hi, he⟩ : k.included.Normal ∧ k.excluded.Normal :=
    (h.of_mem_nodes hk).resolve_left (by simp)
  exact ⟨hi, he⟩

end Pattern

/-- The lists of every class that is built or read are in order, and no two of their ranges overlap or
touch. -/
theorem CharClass.consolidated_of_built_or_read {k : CharClass}
    (h : k.Built ∨ ∃ text p, Pattern.parse text = .ok p ∧ .cls k ∈ p.nodes) :
    ∀ l ∈ [k.included, k.excluded],
      (l.Pairwise fun r s => r.lo ≤ s.lo ∧ ¬ r.Overlaps s ∧ ¬ r.Adjoins s) ∧ ∀ r ∈ l, r.lo ≤ r.hi := by
  have hnormal : k.Normal := by
    rcases h with hbuilt | ⟨text, p, hparse, hk⟩
    · exact hbuilt.normal
    · exact (Pattern.wellFormed_of_parse hparse).normal_of_mem_nodes hk
  simp only [List.forall_mem_cons]
  refine ⟨⟨hnormal.included.apart, ?_⟩, ⟨hnormal.excluded.apart, ?_⟩, by simp⟩
  · exact fun r _ => r.lo_le_hi
  · exact fun r _ => r.lo_le_hi

/-- A class with two lists that is both, built by the operators and read in a loop. -/
theorem CharClass.consolidated_of_built_or_read_two_lists :
    let k := ((range 'a' 'c').inter (single 'b').negate).negate
    k.Built ∧ (∃ text p, Pattern.parse text = .ok p ∧ .cls k ∈ p.nodes) ∧
      ∀ l ∈ [k.included, k.excluded],
        (l.Pairwise fun r s => r.lo ≤ s.lo ∧ ¬ r.Overlaps s ∧ ¬ r.Adjoins s) ∧
          ∀ r ∈ l, r.lo ≤ r.hi := by
  intro k
  have hbuilt : k.Built := .negate (.inter (.range 'a' 'c') (.negate (.single 'b')))
  have hparse : Pattern.parse "x[^a-c&&[^b]]*".toList =
      .ok (.seq (.char 'x') (.quantified (.cls k) .zeroOrMore)) := by decide
  have hread : ∃ text p, Pattern.parse text = .ok p ∧ .cls k ∈ p.nodes :=
    ⟨_, _, hparse, by simp [Pattern.nodes]⟩
  exact ⟨hbuilt, hread, consolidated_of_built_or_read (.inr hread)⟩

end Regexp
