import Regexp.Automaton.Call
import Regexp.Proofs.Automaton.Search

/-! How deep the calls of a search are nested. A budget is too small exactly if some chain of nested
calls is longer, and an outcome that one budget gives is that of every larger one. -/
namespace Regexp.Automaton

variable {a : Automaton} {input : Array Char} {anchored : Bool} {budget budget' position : Nat}
  {x y : Call} {s : State} {outcome : Outcome}

/-! ### What a call does -/

theorem Enters.insert_eq (hs : a.Enters x s) : x.visited.insert x.state = (true, x.entered) :=
  Prod.ext (by simp [hs.1]) rfl

theorem call_cases (a : Automaton) (input : Array Char) (x : Call) :
    (∀ s, ¬ a.Enters x s) ∨ ∃ s, a.Enters x s ∧
      (s.kind.IsAssertion ∨ ¬ s.kind.IsAssertion ∧
        (input[x.position]? = none ∨ ∃ c, input[x.position]? = some c)) := by
  by_cases henters : ∃ s, a.Enters x s
  · obtain ⟨s, hs⟩ := henters
    refine .inr ⟨s, hs, ?_⟩
    by_cases hk : s.kind.IsAssertion
    · exact .inl hk
    · exact .inr ⟨hk, Option.eq_none_or_eq_some _⟩
  · exact .inl (not_exists.1 henters)

theorem runCall_of_not_enters (h : ∀ s, ¬ a.Enters x s) :
    a.runCall input anchored (budget + 1) x = some (false, x.entered) := by
  rw [runCall, explore]
  by_cases hmem : x.state ∈ x.visited
  · have heq : x.visited.insert x.state = (false, x.entered) := Prod.ext (by simp [hmem]) rfl
    rw [heq]
  · have heq : x.visited.insert x.state = (true, x.entered) := Prod.ext (by simp [hmem]) rfl
    have hnone : a.states[x.state]? = none := by
      rw [Option.eq_none_iff_forall_not_mem]
      exact fun s hs => h s ⟨hmem, hs⟩
    rw [heq]
    dsimp only
    rw [hnone]

theorem runCall_of_isAssertion (hs : a.Enters x s) (hk : s.kind.IsAssertion) :
    a.runCall input anchored (budget + 1) x =
      match s.kind.passage? input x.position with
      | some exit => a.runCall input anchored budget ⟨exit, x.position, x.entered⟩
      | none => some (false, x.entered) := by
  rw [runCall, explore, hs.insert_eq]
  cases h : s.kind with
  | startOfInput exit | endOfInput exit =>
    simp only [hs.2, h, StateKind.passage?]
    split <;> rfl
  | plain | any exit | cls k exit =>
    rw [h] at hk
    exact hk.elim

theorem runCall_at_end (hs : a.Enters x s) (hk : ¬ s.kind.IsAssertion)
    (hc : input[x.position]? = none) :
    a.runCall input anchored (budget + 1) x =
      if s.final then some (true, x.entered)
      else tryInTurn (fun id visited => a.runCall input anchored budget ⟨id, x.position, visited⟩)
        s.silent x.entered := by
  rw [runCall, explore, hs.insert_eq]
  cases h : s.kind with
  | startOfInput exit | endOfInput exit =>
    rw [h] at hk
    exact absurd trivial hk
  | plain | any exit | cls k exit =>
    simp only [hs.2, h, hc]
    rfl

theorem runCall_at_char {c : Char} (hs : a.Enters x s) (hk : ¬ s.kind.IsAssertion)
    (hc : input[x.position]? = some c) :
    a.runCall input anchored (budget + 1) x =
      (tryAfresh (fun id => a.runCall input anchored budget (a.freshCall id (x.position + 1)))
        (s.targets c)).bind fun found =>
          if found then some (true, x.entered)
          else (tryInTurn (fun id visited => a.runCall input anchored budget ⟨id, x.position, visited⟩)
            s.silent x.entered).map fun result => (result.1 || !anchored && s.final, result.2) := by
  rw [runCall, explore, hs.insert_eq]
  cases h : s.kind with
  | startOfInput exit | endOfInput exit =>
    rw [h] at hk
    exact absurd trivial hk
  | plain | any exit | cls k exit =>
    simp only [hs.2, h, hc, runCall, freshCall]
    split
    · next hconsume => simp [hconsume]
    · next hconsume => simp [hconsume]
    · next hconsume =>
      rw [hconsume, Option.bind_some, if_neg (by simp)]
      split
      · next honward => simp [honward]
      · next hfound =>
        cases honward : tryInTurn (fun id => a.explore input anchored budget id x.position) s.silent
            x.entered with
        | none => rfl
        | some result =>
          obtain ⟨found, visited⟩ := result
          cases found with
          | true => rfl
          | false => exact (hfound visited honward).elim

theorem tryAfresh_eq_map (attempt : Nat → Outcome) (ids : List Nat) (visited : BitSet) :
    tryAfresh attempt ids = (tryInTurn (fun id _ => attempt id) ids visited).map Prod.fst := by
  induction ids generalizing visited with
  | nil => rfl
  | cons id ids ih =>
    unfold tryAfresh tryInTurn
    cases attempt id with
    | none => rfl
    | some result =>
      obtain ⟨found, after⟩ := result
      cases found with
      | true => rfl
      | false => exact ih after

/-! ### Larger budgets -/

theorem tryInTurn_mono {attempt attempt' : Nat → BitSet → Outcome} {ids : List Nat}
    {visited : BitSet} {result : Bool × BitSet}
    (hmono : ∀ id visited result, attempt id visited = some result → attempt' id visited = some result)
    (h : tryInTurn attempt ids visited = some result) :
    tryInTurn attempt' ids visited = some result := by
  induction ids generalizing visited with
  | nil => exact h
  | cons id ids ih =>
    unfold tryInTurn at h ⊢
    cases hfirst : attempt id visited with
    | none =>
      rw [hfirst] at h
      contradiction
    | some first =>
      rw [hfirst] at h
      rw [hmono id visited first hfirst]
      obtain ⟨found, after⟩ := first
      cases found with
      | true => exact h
      | false => exact ih h

theorem tryAfresh_mono {attempt attempt' : Nat → Outcome} {ids : List Nat} {found : Bool}
    (hmono : ∀ id result, attempt id = some result → attempt' id = some result)
    (h : tryAfresh attempt ids = some found) : tryAfresh attempt' ids = some found := by
  rw [tryAfresh_eq_map attempt ids (.emptyWithCapacity 0)] at h
  obtain ⟨result, hresult, rfl⟩ := Option.map_eq_some_iff.1 h
  rw [tryAfresh_eq_map attempt' ids (.emptyWithCapacity 0),
    tryInTurn_mono (fun id _ => hmono id) hresult, Option.map_some]

theorem runCall_mono {result : Bool × BitSet} (h : a.runCall input anchored budget x = some result)
    (hle : budget ≤ budget') : a.runCall input anchored budget' x = some result := by
  induction budget generalizing budget' x result with
  | zero => contradiction
  | succ budget ih =>
    obtain ⟨budget', rfl⟩ : ∃ n, budget' = n + 1 := ⟨budget' - 1, by omega⟩
    have hgo {y : Call} {result : Bool × BitSet} (h : a.runCall input anchored budget y = some result) :
        a.runCall input anchored budget' y = some result := ih h (by omega)
    obtain hnone | ⟨s, hs, hk | ⟨hk, hc | ⟨c, hc⟩⟩⟩ := call_cases a input x
    · rwa [runCall_of_not_enters hnone] at h ⊢
    · rw [runCall_of_isAssertion hs hk] at h ⊢
      cases hexit : s.kind.passage? input x.position with
      | none => rwa [hexit] at h
      | some exit =>
        rw [hexit] at h
        exact hgo h
    · rw [runCall_at_end hs hk hc] at h ⊢
      split
      · next hfinal => rwa [if_pos hfinal] at h
      · next hfinal =>
        rw [if_neg hfinal] at h
        exact tryInTurn_mono (fun _ _ _ => hgo) h
    · rw [runCall_at_char hs hk hc] at h ⊢
      obtain ⟨found, hconsume, h⟩ := Option.bind_eq_some_iff.1 h
      rw [tryAfresh_mono (fun _ _ => hgo) hconsume, Option.bind_some]
      cases found with
      | true => exact h
      | false =>
        obtain ⟨result, honward, rfl⟩ := Option.map_eq_some_iff.1 h
        rw [tryInTurn_mono (fun _ _ _ => hgo) honward]
        rfl

/-- A call that ends in vain does so within every budget that gives it an outcome. -/
theorem Fails.outcome_eq {after : BitSet} {result : Bool × BitSet} (h : a.Fails input anchored x after)
    (hresult : a.runCall input anchored budget x = some result) : result = (false, after) := by
  obtain ⟨budget', hfails⟩ := h
  -- Both budgets agree with a third that is at least as large.
  have hleft := runCall_mono hresult (Nat.le_max_left budget budget')
  have hright := runCall_mono hfails (Nat.le_max_right budget budget')
  exact Option.some_inj.1 (hleft.symm.trans hright)

/-! ### The calls of a call -/

theorem Enters.unique {t : State} (hs : a.Enters x s) (ht : a.Enters x t) : s = t :=
  Option.some_inj.1 (hs.2.symm.trans ht.2)

theorem Calls.exists_enters (h : a.Calls input anchored x y) : ∃ s, a.Enters x s := by
  cases h <;> exact ⟨_, ‹_›⟩

theorem isAssertion_of_passage? {k : StateKind} {exit : Nat}
    (h : k.passage? input position = some exit) : k.IsAssertion := by
  cases k <;> trivial

theorem targets_of_isAssertion (hk : s.kind.IsAssertion) (c : Char) : s.targets c = [] := by
  obtain ⟨exit, h | h⟩ := StateKind.isAssertion_iff.1 hk <;> rw [State.targets, h]

theorem calls_iff_of_isAssertion (hs : a.Enters x s) (hk : s.kind.IsAssertion) :
    a.Calls input anchored x y ↔
      ∃ exit, s.kind.passage? input x.position = some exit ∧ y = ⟨exit, x.position, x.entered⟩ := by
  constructor
  · intro h
    cases h with
    | passes ht hexit =>
      cases hs.unique ht
      exact ⟨_, hexit, rfl⟩
    | consume ht hc htried =>
      cases hs.unique ht
      rw [targets_of_isAssertion hk] at htried
      contradiction
    | silentAtEnd ht hk' | silentInVain ht hk' =>
      cases hs.unique ht
      exact absurd hk hk'
  · rintro ⟨exit, hexit, rfl⟩
    exact .passes hs hexit

theorem calls_iff_at_end (hs : a.Enters x s) (hk : ¬ s.kind.IsAssertion)
    (hc : input[x.position]? = none) :
    a.Calls input anchored x y ↔
      s.final = false ∧ ∃ next visited, Tried (fun id before => a.Fails input anchored
        ⟨id, x.position, before⟩) s.silent x.entered next visited ∧ y = ⟨next, x.position, visited⟩ := by
  constructor
  · intro h
    cases h with
    | passes ht hexit =>
      cases hs.unique ht
      exact absurd (isAssertion_of_passage? hexit) hk
    | consume ht hc' | silentInVain ht _ hc' =>
      rw [hc] at hc'
      contradiction
    | silentAtEnd ht _ _ hfinal htried =>
      cases hs.unique ht
      exact ⟨hfinal, _, _, htried, rfl⟩
  · rintro ⟨hfinal, next, visited, htried, rfl⟩
    exact .silentAtEnd hs hk hc hfinal htried

theorem calls_iff_at_char {c : Char} (hs : a.Enters x s) (hk : ¬ s.kind.IsAssertion)
    (hc : input[x.position]? = some c) :
    a.Calls input anchored x y ↔
      (∃ next visited, Tried (fun id _ => a.Fails input anchored (a.freshCall id (x.position + 1)))
        (s.targets c) x.visited next visited ∧ y = a.freshCall next (x.position + 1)) ∨
      (∀ id ∈ s.targets c, ∃ after, a.Fails input anchored (a.freshCall id (x.position + 1)) after) ∧
        ∃ next visited, Tried (fun id before => a.Fails input anchored ⟨id, x.position, before⟩)
          s.silent x.entered next visited ∧ y = ⟨next, x.position, visited⟩ := by
  constructor
  · intro h
    cases h with
    | passes ht hexit =>
      cases hs.unique ht
      exact absurd (isAssertion_of_passage? hexit) hk
    | silentAtEnd ht _ hc' =>
      rw [hc] at hc'
      contradiction
    | consume ht hc' htried =>
      cases hs.unique ht
      cases hc.symm.trans hc'
      exact .inl ⟨_, _, htried, rfl⟩
    | silentInVain ht _ hc' hvain htried =>
      cases hs.unique ht
      cases hc.symm.trans hc'
      exact .inr ⟨hvain, _, _, htried, rfl⟩
  · rintro (⟨next, visited, htried, rfl⟩ | ⟨hvain, next, visited, htried, rfl⟩)
    · exact .consume hs hc htried
    · exact .silentInVain hs hk hc hvain htried

/-! ### A call and its calls -/

theorem isSome_tryInTurn_iff (call : Nat → BitSet → Call) {ids : List Nat} {before : BitSet} :
    (tryInTurn (fun id visited => a.runCall input anchored budget (call id visited)) ids before).isSome ↔
      ∀ next after, Tried (fun id visited => a.Fails input anchored (call id visited)) ids before next
        after → (a.runCall input anchored budget (call next after)).isSome := by
  induction ids generalizing before with
  | nil => exact iff_of_true rfl fun next after h => nomatch h
  | cons id ids ih =>
    cases hfirst : a.runCall input anchored budget (call id before) with
    | none =>
      refine iff_of_false (by simp [tryInTurn, hfirst]) ?_
      intro h
      simpa [hfirst] using h id before .first
    | some result =>
      obtain ⟨found, after⟩ := result
      cases found with
      | true =>
        refine iff_of_true (by simp [tryInTurn, hfirst]) ?_
        intro next visited htried
        cases htried with
        | first => simp [hfirst]
        | later hfails _ => cases hfails.outcome_eq hfirst
      | false =>
        simp only [tryInTurn, hfirst, ih]
        constructor
        · intro h next visited htried
          cases htried with
          | first => simp [hfirst]
          | later hfails htried =>
            cases hfails.outcome_eq hfirst
            exact h next visited htried
        · exact fun h next visited htried => h next visited (.later ⟨budget, hfirst⟩ htried)

theorem isSome_tryAfresh_iff {ids : List Nat} (visited : BitSet) :
    (tryAfresh (fun id => a.runCall input anchored budget (a.freshCall id position)) ids).isSome ↔
      ∀ next after, Tried (fun id _ => a.Fails input anchored (a.freshCall id position)) ids visited next
        after → (a.runCall input anchored budget (a.freshCall next position)).isSome := by
  rw [tryAfresh_eq_map _ ids visited, Option.isSome_map]
  exact isSome_tryInTurn_iff fun id _ => a.freshCall id position

theorem exists_fails_of_tryAfresh {ids : List Nat}
    (h : tryAfresh (fun id => a.runCall input anchored budget (a.freshCall id position)) ids =
      some false) :
    ∀ id ∈ ids, ∃ after, a.Fails input anchored (a.freshCall id position) after := by
  induction ids with
  | nil => simp
  | cons id ids ih =>
    unfold tryAfresh at h
    split at h
    · next after hfirst =>
      rw [List.forall_mem_cons]
      exact ⟨⟨after, budget, hfirst⟩, ih h⟩
    · next hfirst =>
      obtain ⟨⟨found, after⟩, hresult, rfl⟩ := Option.map_eq_some_iff.1 h
      exact absurd hresult (hfirst after)

theorem exists_not_fails_of_tryAfresh {ids : List Nat}
    (h : tryAfresh (fun id => a.runCall input anchored budget (a.freshCall id position)) ids =
      some true) :
    ∃ id ∈ ids, ¬ ∃ after, a.Fails input anchored (a.freshCall id position) after := by
  induction ids with
  | nil => cases h
  | cons id ids ih =>
    unfold tryAfresh at h
    split at h
    · obtain ⟨next, hnext, hfails⟩ := ih h
      exact ⟨next, by simp [hnext], hfails⟩
    · obtain ⟨⟨found, after⟩, hresult, rfl⟩ := Option.map_eq_some_iff.1 h
      refine ⟨id, by simp, ?_⟩
      rintro ⟨visited, hfails⟩
      cases hfails.outcome_eq hresult

theorem isSome_runCall_at_end (hs : a.Enters x s) (hk : ¬ s.kind.IsAssertion)
    (hc : input[x.position]? = none) :
    (a.runCall input anchored (budget + 1) x).isSome ↔
      ∀ y, a.Calls input anchored x y → (a.runCall input anchored budget y).isSome := by
  simp only [runCall_at_end hs hk hc, calls_iff_at_end hs hk hc]
  cases hfinal : s.final with
  | true => simp
  | false =>
    rw [if_neg (by simp), isSome_tryInTurn_iff fun id visited => ⟨id, x.position, visited⟩]
    constructor
    · rintro h y ⟨_, next, visited, htried, rfl⟩
      exact h next visited htried
    · exact fun h next visited htried => h _ ⟨rfl, next, visited, htried, rfl⟩

theorem isSome_runCall_at_char {c : Char} (hs : a.Enters x s) (hk : ¬ s.kind.IsAssertion)
    (hc : input[x.position]? = some c) :
    (a.runCall input anchored (budget + 1) x).isSome ↔
      ∀ y, a.Calls input anchored x y → (a.runCall input anchored budget y).isSome := by
  simp only [runCall_at_char hs hk hc, calls_iff_at_char hs hk hc]
  cases htargets : tryAfresh
      (fun id => a.runCall input anchored budget (a.freshCall id (x.position + 1))) (s.targets c) with
  | none =>
    refine iff_of_false (by simp) ?_
    intro h
    have hsome := (isSome_tryAfresh_iff x.visited).2 fun next after htried =>
      h _ (.inl ⟨next, after, htried, rfl⟩)
    rw [htargets] at hsome
    contradiction
  | some found =>
    have hfresh := (isSome_tryAfresh_iff x.visited).1 (Option.isSome_of_eq_some htargets)
    cases found with
    | true =>
      refine iff_of_true rfl ?_
      rintro y (⟨next, after, htried, rfl⟩ | ⟨hvain, _⟩)
      · exact hfresh next after htried
      · obtain ⟨id, hid, hfails⟩ := exists_not_fails_of_tryAfresh htargets
        exact absurd (hvain id hid) hfails
    | false =>
      have hvain := exists_fails_of_tryAfresh htargets
      rw [Option.bind_some, if_neg (by simp), Option.isSome_map,
        isSome_tryInTurn_iff fun id visited => ⟨id, x.position, visited⟩]
      constructor
      · rintro h y (⟨next, after, htried, rfl⟩ | ⟨_, next, after, htried, rfl⟩)
        · exact hfresh next after htried
        · exact h next after htried
      · exact fun h next after htried => h _ (.inr ⟨hvain, next, after, htried, rfl⟩)

/-- A call has an outcome within a budget exactly if the calls that it makes have theirs within one less. -/
theorem isSome_runCall_succ_iff :
    (a.runCall input anchored (budget + 1) x).isSome ↔
      ∀ y, a.Calls input anchored x y → (a.runCall input anchored budget y).isSome := by
  obtain hnone | ⟨s, hs, hk | ⟨hk, hc | ⟨c, hc⟩⟩⟩ := call_cases a input x
  · rw [runCall_of_not_enters hnone]
    exact iff_of_true rfl fun y hy => absurd hy.exists_enters (not_exists.2 hnone)
  · rw [runCall_of_isAssertion hs hk]
    simp only [calls_iff_of_isAssertion hs hk]
    cases s.kind.passage? input x.position with
    | none => simp
    | some exit => simp
  · exact isSome_runCall_at_end hs hk hc
  · exact isSome_runCall_at_char hs hk hc

/-! ### Chains of nested calls -/

theorem Settles.isSome {ids : List Nat} {before : BitSet}
    (h : a.Settles input anchored position ids before outcome) : outcome.isSome := by
  cases h <;> rfl

/-- A budget is enough for a call exactly if no chain of nested calls from it is longer. -/
theorem isSome_runCall_iff :
    (a.runCall input anchored budget x).isSome ↔
      ∀ calls, (x :: calls).IsChain (a.Calls input anchored) → (x :: calls).length ≤ budget := by
  induction budget generalizing x with
  | zero => exact iff_of_false (by simp [runCall, explore]) fun h => by simpa using h [] (.singleton x)
  | succ budget ih =>
    simp only [isSome_runCall_succ_iff, ih]
    constructor
    · intro h calls hchain
      cases calls with
      | nil => simp
      | cons y calls =>
        obtain ⟨hxy, hchain⟩ := List.isChain_cons_cons.1 hchain
        exact Nat.succ_le_succ (h y hxy calls hchain)
    · intro h y hxy calls hchain
      exact Nat.le_of_succ_le_succ (h (y :: calls) (.cons_cons hxy hchain))

theorem acc_of_isSome (h : (a.runCall input anchored budget x).isSome) :
    Acc (fun y x => a.Calls input anchored x y) x := by
  induction budget generalizing x with
  | zero => contradiction
  | succ budget ih => exact .intro x fun y hy => ih (isSome_runCall_succ_iff.1 h y hy)

theorem exists_isSome_runCall (ha : a.InArena) (input : Array Char) (anchored : Bool) (x : Call) :
    ∃ budget, (a.runCall input anchored budget x).isSome := by
  by_cases hid : x.state < a.states.size
  · have hsettles : a.Settles input anchored x.position [x.state] x.visited
        (a.runCall input anchored (_ + 1) x) := settles_explore ha hid (Nat.lt_succ_self _)
    refine ⟨_, hsettles.isSome⟩
  · refine ⟨1, ?_⟩
    have hnone : ∀ s, ¬ a.Enters x s := fun s hs =>
      hid (Array.getElem?_eq_some_iff.1 hs.2).1
    rw [runCall_of_not_enters hnone]
    rfl

/-- No chain of nested calls goes on forever, and none of a search from `start` on is longer than the
states entered once at each position left. So a budget of that length is never used up, and no larger one
gives another outcome. -/
theorem nested_calls_bounded (ha : a.InArena) (input : Array Char) (start : Nat) (anchored : Bool) :
    WellFounded (fun y x => a.Calls input anchored x y) ∧
    (∀ calls, (a.freshCall a.entry start :: calls).IsChain (a.Calls input anchored) →
      (a.freshCall a.entry start :: calls).length ≤
        a.states.size * (input.size - start + 1) + 1) ∧
    (∀ budget, (a.runCall input anchored budget (a.freshCall a.entry start)).isSome ↔
      ∀ calls, (a.freshCall a.entry start :: calls).IsChain (a.Calls input anchored) →
        (a.freshCall a.entry start :: calls).length ≤ budget) ∧
    ∃ visited, ∀ budget ≥ a.states.size * (input.size - start + 1) + 1,
      a.runCall input anchored budget (a.freshCall a.entry start) =
        some (a.matchesFrom input start anchored, visited) := by
  obtain ⟨found, visited, hsearch, -⟩ := search_eq_some ha input start anchored
  have hrun : a.runCall input anchored (a.states.size * (input.size - start + 1) + 1)
      (a.freshCall a.entry start) = some (found, visited) := hsearch
  refine ⟨⟨?_⟩, ?_, ?_, visited, ?_⟩
  · intro x
    obtain ⟨budget, hsome⟩ := exists_isSome_runCall ha input anchored x
    exact acc_of_isSome hsome
  · exact isSome_runCall_iff.1 (Option.isSome_of_eq_some hrun)
  · exact fun budget => isSome_runCall_iff
  · intro budget hle
    rw [runCall_mono hrun hle, matchesFrom, hsearch]
    rfl

/-- Two states that lead to each other, one of them over a character. The longest chain enters each of
them at each position, and then the first once more. -/
theorem nested_calls_bounded_attained :
    let a : Automaton := ⟨#[⟨.plain, [], [1], false⟩, ⟨.plain, [('x', [0])], [0], false⟩], 0, 0⟩
    let entered (ids : List Nat) : BitSet := ids.foldl (fun ids id => (ids.insert id).2)
      (.emptyWithCapacity 2)
    let calls : List Call := [⟨1, 0, entered [0]⟩, ⟨0, 1, entered []⟩, ⟨1, 1, entered [0]⟩,
      ⟨0, 1, entered [0, 1]⟩]
    a.InArena ∧ (a.freshCall a.entry 0 :: calls).IsChain (a.Calls #['x'] true) ∧
      (a.freshCall a.entry 0 :: calls).length = a.states.size * (#['x'].size - 0 + 1) + 1 ∧
      ∀ calls, (a.freshCall a.entry 0 :: calls).IsChain (a.Calls #['x'] true) →
        (a.freshCall a.entry 0 :: calls).length ≤ 5 := by
  intro a entered calls
  have ha : a.InArena := ⟨by decide, by decide, by decide⟩
  refine ⟨ha, ?_, rfl, (nested_calls_bounded ha #['x'] 0 true).2.1⟩
  refine .cons_cons ?_ (.cons_cons ?_ (.cons_cons ?_ (.cons_cons ?_ (.singleton _))))
  · exact .silentInVain ⟨by decide, rfl⟩ id rfl (List.forall_mem_nil _) .first
  · exact .consume ⟨by decide, rfl⟩ rfl .first
  · exact .silentAtEnd ⟨by decide, rfl⟩ id rfl rfl .first
  · exact .silentAtEnd ⟨by decide, rfl⟩ id rfl rfl .first

end Regexp.Automaton
