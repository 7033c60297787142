import Regexp.Proofs.CharClass.Complement
import Regexp.Proofs.CharClass.Polarity

/-! Classes that are one normal list of members. The operators do to the members what their names say,
and make classes of the same kind. -/
namespace Regexp.CharClass
open RangeList

variable {a b k : CharClass} {l : RangeList} {classes : List CharClass}

structure Plain (k : CharClass) : Prop where
  negated : k.negated = false
  included : k.included.Normal
  excluded : k.excluded = []

instance (k : CharClass) : Decidable k.Plain :=
  decidable_of_iff (k.negated = false ∧ k.included.Normal ∧ k.excluded = [])
    ⟨fun ⟨hn, hi, he⟩ => ⟨hn, hi, he⟩, fun h => ⟨h.negated, h.included, h.excluded⟩⟩

theorem plain_ofList (h : l.Normal) : (ofList l).Plain := ⟨rfl, h, rfl⟩

theorem Plain.exists_ofList (h : k.Plain) : ∃ l, l.Normal ∧ k = ofList l := by
  obtain ⟨included, excluded, negated⟩ := k
  obtain ⟨rfl, hnormal, rfl⟩ := h
  exact ⟨included, hnormal, rfl⟩

/-- What an operator on lists does to the covered characters, the operator on classes that goes through
it does to the members. -/
theorem Plain.operator {op : CharClass → CharClass → CharClass}
    {onLists : RangeList → RangeList → RangeList} {P : Prop → Prop → Prop}
    (hop : ∀ p q, op (ofList p) (ofList q) = ofList (onLists p q))
    (hnormal : ∀ p q, (onLists p q).Normal)
    (hcovers : ∀ p q c, (onLists p q).Covers c ↔ P (p.Covers c) (q.Covers c))
    (ha : a.Plain) (hb : b.Plain) :
    (op a b).Plain ∧ ∀ c, c ∈ op a b ↔ P (c ∈ a) (c ∈ b) := by
  obtain ⟨p, -, rfl⟩ := ha.exists_ofList
  obtain ⟨q, -, rfl⟩ := hb.exists_ofList
  rw [hop]
  refine ⟨plain_ofList (hnormal p q), ?_⟩
  intro c
  rw [mem_ofList, hcovers, mem_ofList, mem_ofList]

theorem Plain.union (ha : a.Plain) (hb : b.Plain) :
    (a.union b).Plain ∧ ∀ c, c ∈ a.union b ↔ c ∈ a ∨ c ∈ b :=
  Plain.operator (fun _ _ => union_ofList) (fun _ _ => RangeList.normal_union)
    (fun _ _ _ => covers_union) ha hb

theorem Plain.inter (ha : a.Plain) (hb : b.Plain) :
    (a.inter b).Plain ∧ ∀ c, c ∈ a.inter b ↔ c ∈ a ∧ c ∈ b :=
  Plain.operator (fun _ _ => inter_ofList) (fun _ _ => normal_normalize) (fun _ _ _ => covers_inter)
    ha hb

theorem Plain.diff (ha : a.Plain) (hb : b.Plain) :
    (a.diff b).Plain ∧ ∀ c, c ∈ a.diff b ↔ c ∈ a ∧ c ∉ b :=
  Plain.operator (P := fun x y => x ∧ ¬ y) (fun _ _ => diff_ofList) (fun _ _ => normal_normalize)
    (fun _ _ _ => covers_diff) ha hb

/-- Each class adds its members to those that the classes before it have gathered. -/
theorem Plain.foldl_union (ha : a.Plain) (h : ∀ k ∈ classes, k.Plain) :
    (classes.foldl CharClass.union a).Plain ∧
      ∀ c, c ∈ classes.foldl CharClass.union a ↔ c ∈ a ∨ ∃ k ∈ classes, c ∈ k := by
  induction classes generalizing a with
  | nil => simpa using ha
  | cons k classes ih =>
    obtain ⟨hk, hclasses⟩ := List.forall_mem_cons.1 h
    obtain ⟨hunion, hmem⟩ := ha.union hk
    obtain ⟨hplain, hfold⟩ := ih hunion hclasses
    refine ⟨hplain, ?_⟩
    intro c
    rw [List.foldl_cons, hfold, hmem, or_assoc]
    simp

theorem plain_unionAll (h : ∀ k ∈ classes, k.Plain) :
    (unionAll classes).Plain ∧ ∀ c, c ∈ unionAll classes ↔ ∃ k ∈ classes, c ∈ k := by
  have hempty : Plain ∅ := plain_ofList normal_nil
  obtain ⟨hplain, hmem⟩ := hempty.foldl_union h
  refine ⟨hplain, ?_⟩
  intro c
  have hc : c ∉ (∅ : CharClass) := by simp [empty_eq_ofList]
  rw [unionAll, hmem, or_iff_right hc]

theorem Plain.mem_negate (ha : a.Plain) {c : Char} : c ∈ a.negate ↔ c ∉ a := by
  obtain ⟨p, -, rfl⟩ := ha.exists_ofList
  rw [mem_negate_ofList, mem_ofList]

/-- Of unlike polarities the included list of the one and the excluded list of the other are paired,
which here are the members of both. -/
theorem Plain.mem_inter_negate (ha : a.Plain) (hb : b.Plain) {c : Char} :
    c ∈ a.inter b.negate ↔ c ∈ a ∧ c ∉ b := by
  obtain ⟨p, hp, rfl⟩ := ha.exists_ofList
  obtain ⟨q, hq, rfl⟩ := hb.exists_ofList
  rw [inter_negate_ofList hp hq, mem_mk_false, mem_ofList, mem_ofList]

/-- The operators are exact on plain classes, for members and for what is stored. -/
theorem plain_operators_exact (ha : a.Plain) (hb : b.Plain) (h : ∀ k ∈ classes, k.Plain) :
    ((a.union b).Plain ∧ ∀ c, c ∈ a.union b ↔ c ∈ a ∨ c ∈ b) ∧
    ((a.inter b).Plain ∧ ∀ c, c ∈ a.inter b ↔ c ∈ a ∧ c ∈ b) ∧
    ((a.diff b).Plain ∧ ∀ c, c ∈ a.diff b ↔ c ∈ a ∧ c ∉ b) ∧
    ((unionAll classes).Plain ∧ ∀ c, c ∈ unionAll classes ↔ ∃ k ∈ classes, c ∈ k) ∧
    (∀ c, c ∈ a.negate ↔ c ∉ a) ∧
    ∀ c, c ∈ a.inter b.negate ↔ c ∈ a ∧ c ∉ b := by
  refine ⟨ha.union hb, ha.inter hb, ha.diff hb, plain_unionAll h, ?_, ?_⟩
  · exact fun c => ha.mem_negate
  · exact fun c => ha.mem_inter_negate hb

/-- Lists of several ranges that overlap, touch and lie on both sides of the gap in the code points. -/
theorem plain_operators_exact_words :
    let a := word
    let b := range 'k' '\uE001'
    let classes := [single '\uD7FF', b, a, ∅]
    a.Plain ∧ b.Plain ∧ (∀ k ∈ classes, k.Plain) ∧
      ((a.union b).Plain ∧ ∀ c, c ∈ a.union b ↔ c ∈ a ∨ c ∈ b) ∧
      ((a.inter b).Plain ∧ ∀ c, c ∈ a.inter b ↔ c ∈ a ∧ c ∈ b) ∧
      ((a.diff b).Plain ∧ ∀ c, c ∈ a.diff b ↔ c ∈ a ∧ c ∉ b) ∧
      ((unionAll classes).Plain ∧ ∀ c, c ∈ unionAll classes ↔ ∃ k ∈ classes, c ∈ k) ∧
      (∀ c, c ∈ a.negate ↔ c ∉ a) ∧
      ∀ c, c ∈ a.inter b.negate ↔ c ∈ a ∧ c ∉ b := by
  intro a b classes
  have ha : a.Plain := by decide
  have hb : b.Plain := by decide
  have hclasses : ∀ k ∈ classes, k.Plain := by decide
  exact ⟨ha, hb, hclasses, plain_operators_exact ha hb hclasses⟩

end Regexp.CharClass
