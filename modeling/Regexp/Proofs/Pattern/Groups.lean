import Regexp.Proofs.Pattern.Bracket

/-! Texts that close every group they open: what stands around them stays as it is, so they can be put
one behind the other and into parentheses. -/
namespace Regexp

variable {s t u : List Char} {c : Char} {m n : Nat}

/-- At no place of the text more than `depth` parentheses are open, and at its end none is. -/
structure Nested (depth : Nat) (text : List Char) : Prop where
  within : ∀ s, s <+: text → s.count ')' ≤ s.count '(' ∧ s.count '(' ≤ s.count ')' + depth
  settled : text.count '(' = text.count ')'

namespace Nested

theorem mono (hs : Nested m s) (h : m ≤ n) : Nested n s where
  within := by
    intro u hu
    have := hs.within u hu
    omega
  settled := hs.settled

theorem of_not_mem (hopen : '(' ∉ s) (hclose : ')' ∉ s) (depth : Nat) : Nested depth s where
  within := by
    intro u hu
    have hopen' : '(' ∉ u := fun h => hopen (hu.subset h)
    have hclose' : ')' ∉ u := fun h => hclose (hu.subset h)
    simp [List.count_eq_zero_of_not_mem, hopen', hclose']
  settled := by simp [List.count_eq_zero_of_not_mem, hopen, hclose]

theorem append (hs : Nested n s) (ht : Nested n t) : Nested n (s ++ t) where
  within := by
    intro u hu
    rcases List.prefix_or_prefix_of_prefix hu (List.prefix_append s t) with hfront | ⟨v, rfl⟩
    · exact hs.within u hfront
    · have hsettled := hs.settled
      have hwithin := ht.within v ((List.prefix_append_right_inj s).1 hu)
      rw [List.count_append, List.count_append]
      omega
  settled := by rw [List.count_append, List.count_append, hs.settled, ht.settled]

theorem group (hs : Nested n s) : Nested (n + 1) ('(' :: s ++ [')']) where
  within := by
    intro u hu
    have hsettled := hs.settled
    rw [List.cons_append, List.prefix_cons_iff] at hu
    rcases hu with rfl | ⟨v, rfl, hv⟩
    · simp
    · rcases List.prefix_concat_iff.1 hv with rfl | hv
      · simp
        omega
      · have hwithin := hs.within v hv
        simp
        omega
  settled := by
    have hsettled := hs.settled
    simp
    omega

end Nested

namespace Reader

/-- Where an element may begin, the text is read to where another one may, in the same groups. -/
def Passes (text : List Char) : Prop :=
  ∀ (g : OpenGroup) (outer : List OpenGroup),
    ∃ g', Reads ⟨g, outer, .element⟩ text ⟨g', outer, .element⟩

namespace Passes

theorem nil : Passes [] := fun g _ => ⟨g, .nil _⟩

theorem append (hs : Passes s) (ht : Passes t) : Passes (s ++ t) := by
  intro g outer
  obtain ⟨g₁, h₁⟩ := hs g outer
  obtain ⟨g₂, h₂⟩ := ht g₁ outer
  exact ⟨g₂, h₁.append h₂⟩

theorem group (hs : Passes s) : Passes ('(' :: s ++ [')']) := by
  intro g outer
  obtain ⟨inner, h⟩ := hs .empty (g :: outer)
  exact ⟨g.push inner.value, .cons rfl (h.append (.single rfl))⟩

/-- Only parentheses, brackets and backslashes are more than one element of a group. -/
theorem singleton (hc : c ∉ ['(', ')', '\\', '[']) : Passes [c] := by
  intro g outer
  by_cases hmeta : c ∈ metaChars
  · have hsign : c = '.' ∨ c = '^' ∨ c = '$' ∨ c = '|' := by
      simp_all [metaChars]
    rcases hsign with rfl | rfl | rfl | rfl <;> exact ⟨_, .single rfl⟩
  · cases hq : Quantifier.ofChar? c with
    | some q => exact ⟨g.quantify q, .single (begin_eq_ok_iff.2 (.quantifies hq))⟩
    | none => exact ⟨g.push (some (.char c)), .single (begin_eq_ok_iff.2 (.char hmeta hq))⟩

theorem cls {t : ClassSyntax} (ht : t.Grammatical .opened) : Passes ('[' :: t.text ++ [']']) := by
  intro g outer
  have hyields : ClassReader.start.Yields (t.text ++ [']']) t.toClass :=
    (ClassSyntax.yields_iff ht).2 ⟨rfl, rfl⟩
  exact ⟨g.push (some (.cls t.toClass)),
    .cons rfl (reads_of_yields_cls (r := ⟨g, outer, .element⟩) hyields)⟩

theorem exists_parse (hs : Passes s) : ∃ p, Pattern.parse s = .ok p := by
  obtain ⟨g, h⟩ := hs .empty []
  exact ⟨g.value.getD .blank, parse_eq_ok_iff.2 ⟨g, h, rfl⟩⟩

end Passes

end Reader

end Regexp
