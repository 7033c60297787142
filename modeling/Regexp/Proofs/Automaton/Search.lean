import Mathlib.Data.Finset.Card
import Mathlib.Data.Finset.Range
import Regexp.Automaton.Path
import Regexp.Automaton.Search
import Regexp.Proofs.BitSet

/-! The backtracking search decides reachability. A branch is given up at a state that was entered
before, even while that state is still being tried, so a failure on its own says nothing about the
state. What carries the proof is the set of all the states entered at a position: once the search has
failed it is closed under the steps that consume nothing, and every step that consumes has failed. -/
namespace Regexp.Automaton

variable {a : Automaton} {input : Array Char} {anchored : Bool} {position : Nat}

def Succeeds (a : Automaton) (input : Array Char) (anchored : Bool) (x : Configuration) : Prop :=
  ∃ y, a.Path input x y ∧ a.Accepting input anchored y

theorem Succeeds.of_step {x y : Configuration} (h : a.Step input x y)
    (hy : a.Succeeds input anchored y) : a.Succeeds input anchored x := by
  obtain ⟨z, hpath, hz⟩ := hy
  exact ⟨z, .step h hpath, hz⟩

/-- The states entered since `before` were entered in vain. -/
def Exhausted (a : Automaton) (input : Array Char) (anchored : Bool) (position : Nat)
    (before after : BitSet) : Prop :=
  ∀ id ∈ after, id ∉ before →
    ¬ a.Accepting input anchored ⟨id, position⟩ ∧
      ∀ y, a.Step input ⟨id, position⟩ y →
        y.position = position ∧ y.state ∈ after ∨ ¬ a.Succeeds input anchored y

theorem Exhausted.trans {before between after : BitSet}
    (h : a.Exhausted input anchored position before between)
    (h' : a.Exhausted input anchored position between after)
    (hmono : ∀ id ∈ between, id ∈ after) :
    a.Exhausted input anchored position before after := by
  intro id hid hnew
  by_cases hmem : id ∈ between
  · obtain ⟨haccept, hstep⟩ := h id hmem hnew
    refine ⟨haccept, ?_⟩
    intro y hy
    exact (hstep y hy).imp_left fun ⟨hp, hs⟩ => ⟨hp, hmono _ hs⟩
  · exact h' id hid hmem

/-- Nothing is accepted from a set that was exhausted from nothing. -/
theorem Exhausted.not_succeeds {before after : BitSet} (hbefore : ∀ id, id ∉ before)
    (h : a.Exhausted input anchored position before after) {id : Nat} (hid : id ∈ after) :
    ¬ a.Succeeds input anchored ⟨id, position⟩ := by
  rintro ⟨y, hpath, hy⟩
  generalize hx : (⟨id, position⟩ : Configuration) = x at hpath
  induction hpath generalizing id with
  | refl x =>
    subst hx
    exact (h id hid (hbefore id)).1 hy
  | @step x y z hstep hpath ih =>
    subst hx
    rcases (h id hid (hbefore id)).2 y hstep with ⟨hp, hs⟩ | hdead
    · exact ih hs hy (by rw [← hp])
    · exact hdead ⟨z, hpath, hy⟩

/-- What an outcome means for a search that tries `ids` after the states in `before`. -/
inductive Settles (a : Automaton) (input : Array Char) (anchored : Bool) (position : Nat)
    (ids : List Nat) (before : BitSet) : Outcome → Prop where
  | found {id : Nat} {after : BitSet} (hid : id ∈ ids)
      (h : a.Succeeds input anchored ⟨id, position⟩) :
      Settles a input anchored position ids before (some (true, after))
  | failed {after : BitSet} (hmono : ∀ id ∈ before, id ∈ after) (hids : ∀ id ∈ ids, id ∈ after)
      (h : a.Exhausted input anchored position before after) :
      Settles a input anchored position ids before (some (false, after))

theorem settles_nil (visited : BitSet) :
    a.Settles input anchored position [] visited (some (false, visited)) := by
  refine .failed ?_ ?_ ?_
  · exact fun _ h => h
  · simp
  · exact fun _ hid hnew => absurd hid hnew

theorem settles_tryInTurn {attempt : Nat → BitSet → Outcome} {ids : List Nat} {before : BitSet}
    (h : ∀ id ∈ ids, ∀ visited, (∀ id ∈ before, id ∈ visited) →
      a.Settles input anchored position [id] visited (attempt id visited)) :
    a.Settles input anchored position ids before (tryInTurn attempt ids before) := by
  induction ids generalizing before with
  | nil => exact settles_nil before
  | cons id ids ih =>
    have hfirst := h id (by simp) before fun _ hid => hid
    unfold tryInTurn
    generalize attempt id before = outcome at hfirst
    cases hfirst with
    | found hid hsucceeds =>
      cases List.mem_singleton.1 hid
      exact .found (by simp) hsucceeds
    | @failed after hmono hids hexhausted =>
      have hrest := ih fun id hid visited (hvisited : ∀ id ∈ after, id ∈ visited) =>
        h id (by simp [hid]) visited fun id hid => hvisited id (hmono id hid)
      dsimp only
      generalize tryInTurn attempt ids after = outcome at hrest
      cases hrest with
      | found hid hsucceeds => exact .found (by simp [hid]) hsucceeds
      | failed hmono' hids' hexhausted' =>
        refine .failed ?_ ?_ (hexhausted.trans hexhausted' hmono')
        · exact fun id hid => hmono' id (hmono id hid)
        · rw [List.forall_mem_cons]
          exact ⟨hmono' _ (hids _ (by simp)), hids'⟩

theorem Settles.eq_some {ids : List Nat} {before : BitSet} {outcome : Outcome}
    (h : a.Settles input anchored position ids before outcome) (hbefore : ∀ id, id ∉ before) :
    ∃ found after, outcome = some (found, after) ∧
      (found = true ↔ ∃ id ∈ ids, a.Succeeds input anchored ⟨id, position⟩) := by
  cases h with
  | @found id after hid h => exact ⟨true, after, rfl, by simpa using ⟨id, hid, h⟩⟩
  | @failed after _ hids h =>
    refine ⟨false, after, rfl, ?_⟩
    simp only [Bool.false_eq_true, false_iff, not_exists, not_and]
    exact fun id hid => h.not_succeeds hbefore (hids id hid)

theorem tryAfresh_eq_some {attempt : Nat → Outcome} {ids : List Nat} {before : BitSet}
    (hbefore : ∀ id, id ∉ before)
    (h : ∀ id ∈ ids, a.Settles input anchored position [id] before (attempt id)) :
    ∃ found, tryAfresh attempt ids = some found ∧
      (found = true ↔ ∃ id ∈ ids, a.Succeeds input anchored ⟨id, position⟩) := by
  induction ids with
  | nil => exact ⟨false, rfl, by simp⟩
  | cons id ids ih =>
    obtain ⟨first, after, heq, hfirst⟩ := (h id (by simp)).eq_some hbefore
    obtain ⟨rest, hrest, hiff⟩ := ih fun id hid => h id (by simp [hid])
    unfold tryAfresh
    rw [heq]
    cases first with
    | true => exact ⟨true, rfl, by simpa using Or.inl (by simpa using hfirst)⟩
    | false =>
      refine ⟨rest, hrest, ?_⟩
      have hdead : ¬ a.Succeeds input anchored ⟨id, position⟩ := by simpa using hfirst
      simp [hiff, hdead]

theorem Settles.enter {id : Nat} {ids : List Nat} {before : BitSet} {outcome : Outcome}
    (h : a.Settles input anchored position ids (before.insert id).2 outcome)
    (hstep : ∀ next ∈ ids, a.Step input ⟨id, position⟩ ⟨next, position⟩)
    (haccept : ¬ a.Accepting input anchored ⟨id, position⟩)
    (hdead : ∀ y, a.Step input ⟨id, position⟩ y →
      y.position = position ∧ y.state ∈ ids ∨ ¬ a.Succeeds input anchored y) :
    a.Settles input anchored position [id] before outcome := by
  cases h with
  | found hid hsucceeds => exact .found (by simp) (.of_step (hstep _ hid) hsucceeds)
  | @failed after hmono hids hexhausted =>
    have hid : id ∈ after := hmono id (by simp)
    refine .failed ?_ (by simpa using hid) ?_
    · exact fun next hnext => hmono next (by simp [hnext])
    · intro next hnext hnew
      by_cases heq : next = id
      · subst heq
        refine ⟨haccept, ?_⟩
        intro y hy
        exact (hdead y hy).imp_left fun ⟨hp, hs⟩ => ⟨hp, hids _ hs⟩
      · exact hexhausted next hnext (by simp [heq, hnew])

/-! ### The budget -/

def unvisited (a : Automaton) (visited : BitSet) : Finset Nat :=
  (Finset.range a.states.size).filter (· ∉ visited)

theorem card_unvisited_le (a : Automaton) (visited : BitSet) :
    (a.unvisited visited).card ≤ a.states.size := by
  unfold unvisited
  simpa using Finset.card_filter_le (Finset.range a.states.size) (· ∉ visited)

theorem card_unvisited_mono {before after : BitSet} (h : ∀ id ∈ before, id ∈ after) :
    (a.unvisited after).card ≤ (a.unvisited before).card := by
  apply Finset.card_le_card
  intro id hid
  simp only [unvisited, Finset.mem_filter] at hid ⊢
  exact ⟨hid.1, fun hmem => hid.2 (h id hmem)⟩

theorem card_unvisited_insert {id : Nat} {visited : BitSet} (hid : id < a.states.size)
    (hnew : id ∉ visited) :
    (a.unvisited (visited.insert id).2).card < (a.unvisited visited).card := by
  apply Finset.card_lt_card
  rw [Finset.ssubset_iff_of_subset]
  · exact ⟨id, by simp [unvisited, hid, hnew], by simp [unvisited]⟩
  · intro next hnext
    simp only [unvisited, Finset.mem_filter, BitSet.mem_insert, not_or] at hnext ⊢
    exact ⟨hnext.1, hnext.2.2⟩

/-! ### The search -/

/-- Consuming a character leaves room to enter every state again. -/
theorem budget_consume {budget : Nat} {c : Char} {visited : BitSet} (hc : input[position]? = some c)
    (h : a.states.size * (input.size - position) + (a.unvisited visited).card < budget + 1)
    (fresh : BitSet) (hcard : 0 < (a.unvisited visited).card) :
    a.states.size * (input.size - (position + 1)) + (a.unvisited fresh).card < budget := by
  obtain ⟨hlt, _⟩ := Array.getElem?_eq_some_iff.1 hc
  have hfresh := a.card_unvisited_le fresh
  have hleft : input.size - position = input.size - (position + 1) + 1 := by omega
  rw [hleft, Nat.mul_succ] at h
  omega

theorem settles_of_mem {id : Nat} {visited : BitSet} (h : id ∈ visited) :
    a.Settles input anchored position [id] visited (some (false, (visited.insert id).2)) := by
  refine .failed ?_ (by simp) ?_
  · exact fun next hnext => by simp [hnext]
  · intro next hnext hnew
    rcases BitSet.mem_insert.1 hnext with rfl | hmem
    · exact absurd h hnew
    · exact absurd hmem hnew

theorem settles_of_accepting {id : Nat} {visited after : BitSet}
    (h : a.Accepting input anchored ⟨id, position⟩) :
    a.Settles input anchored position [id] visited (some (true, after)) :=
  .found (by simp) ⟨_, .refl _, h⟩

/-- The only step of an assertion leads to its exit, and that only if a condition holds. -/
theorem settles_assertion {id exit : Nat} {s : State} {visited : BitSet} {holds : Prop}
    [Decidable holds] {outcome : Outcome} (hs : a.states[id]? = some s) (hk : s.kind.IsAssertion)
    (hstep : ∀ y, a.Step input ⟨id, position⟩ y ↔ holds ∧ y = ⟨exit, position⟩)
    (hgo : a.Settles input anchored position [exit] (visited.insert id).2 outcome) :
    a.Settles input anchored position [id] visited
      (if holds then outcome else some (false, (visited.insert id).2)) := by
  have haccept : ¬ a.Accepting input anchored ⟨id, position⟩ := fun h =>
    ((accepting_iff hs).1 h).1.2 hk
  split
  · next hholds =>
    refine hgo.enter ?_ haccept ?_
    · intro next hnext
      cases List.mem_singleton.1 hnext
      exact (hstep _).2 ⟨hholds, rfl⟩
    · intro y hy
      obtain ⟨_, rfl⟩ := (hstep y).1 hy
      exact .inl ⟨rfl, by simp⟩
  · next hholds =>
    refine (settles_nil _).enter (by simp) haccept ?_
    intro y hy
    exact absurd ((hstep y).1 hy).1 hholds

theorem settles_at_end {id : Nat} {s : State} {visited : BitSet} {onward : Outcome}
    (hs : a.states[id]? = some s) (hk : ¬ s.kind.IsAssertion) (hnone : input[position]? = none)
    (honward : a.Settles input anchored position s.silent (visited.insert id).2 onward) :
    a.Settles input anchored position [id] visited
      (if s.final then some (true, (visited.insert id).2) else onward) := by
  have hsize : input.size ≤ position := by simpa using hnone
  split
  · next hfinal =>
    exact settles_of_accepting ((accepting_iff hs).2 ⟨⟨hfinal, hk⟩, fun _ => hsize⟩)
  · next hfinal =>
    refine honward.enter ?_ ?_ ?_
    · exact fun next hnext => .silent hs hk hnext
    · exact fun h => hfinal ((accepting_iff hs).1 h).1.1
    · intro y hy
      rcases (step_iff_of_not_isAssertion hs hk).1 hy with ⟨next, hnext, rfl⟩ | ⟨c, hc, _⟩
      · exact .inl ⟨rfl, hnext⟩
      · simp [hnone] at hc

/-- Where nothing succeeds that consumes the next character or goes on without it, a state that is no
assertion accepts if the search is not anchored. -/
theorem settles_in_vain {id : Nat} {s : State} {c : Char} {visited after : BitSet}
    (hs : a.states[id]? = some s) (hk : ¬ s.kind.IsAssertion) (hc : input[position]? = some c)
    (hconsume : ∀ next ∈ s.targets c, ¬ a.Succeeds input anchored ⟨next, position + 1⟩)
    (honward : a.Settles input anchored position s.silent (visited.insert id).2
      (some (false, after))) :
    a.Settles input anchored position [id] visited (some (!anchored && s.final, after)) := by
  have hlt : position < input.size := (Array.getElem?_eq_some_iff.1 hc).1
  have haccept : a.Accepting input anchored ⟨id, position⟩ ↔ (!anchored && s.final) = true := by
    rw [accepting_iff hs]
    cases anchored <;> simp [hk, hlt]
  cases hfinal : !anchored && s.final with
  | true => exact settles_of_accepting (haccept.2 hfinal)
  | false =>
    refine honward.enter ?_ ?_ ?_
    · exact fun next hnext => .silent hs hk hnext
    · simp [haccept, hfinal]
    · intro y hy
      rcases (step_iff_of_not_isAssertion hs hk).1 hy with ⟨next, hnext, rfl⟩ | ⟨d, hd, hy⟩
      · exact .inl ⟨rfl, hnext⟩
      · obtain ⟨next, hnext, rfl⟩ := hy
        cases hc.symm.trans hd
        exact .inr (hconsume next hnext)

theorem settles_at_char {id : Nat} {s : State} {c : Char} {visited : BitSet} {found : Bool}
    {onward : BitSet → Outcome} (hs : a.states[id]? = some s) (hk : ¬ s.kind.IsAssertion)
    (hc : input[position]? = some c)
    (hfound : found = true ↔ ∃ next ∈ s.targets c, a.Succeeds input anchored ⟨next, position + 1⟩)
    (honward : a.Settles input anchored position s.silent (visited.insert id).2
      (onward (visited.insert id).2)) :
    a.Settles input anchored position [id] visited
      (if found then some (true, (visited.insert id).2)
      else match onward (visited.insert id).2 with
        | some (false, visited) => some (!anchored && s.final, visited)
        | outcome => outcome) := by
  cases found with
  | true =>
    obtain ⟨next, hnext, hsucceeds⟩ := hfound.1 rfl
    exact .found (by simp) (.of_step (.consume hs hc hnext) hsucceeds)
  | false =>
    generalize onward (visited.insert id).2 = outcome at honward
    cases honward with
    | found hnext hsucceeds => exact .found (by simp) (.of_step (.silent hs hk hnext) hsucceeds)
    | failed hmono hids hexhausted =>
      exact settles_in_vain hs hk hc (by simpa using hfound) (.failed hmono hids hexhausted)

theorem settles_explore (ha : a.InArena) {budget id : Nat} {visited : BitSet}
    (hid : id < a.states.size)
    (hbudget : a.states.size * (input.size - position) + (a.unvisited visited).card < budget) :
    a.Settles input anchored position [id] visited
      (a.explore input anchored budget id position visited) := by
  induction budget generalizing id position visited with
  | zero => omega
  | succ budget ih =>
    by_cases hmem : id ∈ visited
    · have heq : visited.insert id = (false, (visited.insert id).2) := Prod.ext (by simp [hmem]) rfl
      unfold explore
      rw [heq]
      exact settles_of_mem hmem
    have heq : visited.insert id = (true, (visited.insert id).2) := Prod.ext (by simp [hmem]) rfl
    have hcard := card_unvisited_insert hid hmem
    obtain ⟨s, hs⟩ : ∃ s, a.states[id]? = some s := ⟨_, Array.getElem?_eq_getElem hid⟩
    -- The budget suffices for every state that is entered next, at this position or at the following.
    have hgo : ∀ next ∈ s.ids, ∀ after, (∀ i ∈ (visited.insert id).2, i ∈ after) →
        a.Settles input anchored position [next] after
          (a.explore input anchored budget next position after) := by
      intro next hnext after hafter
      have hlt := Nat.lt_of_le_of_lt (card_unvisited_mono hafter) hcard
      exact ih (ha.lt_of_mem_ids hs hnext) (by omega)
    unfold explore
    rw [heq]
    dsimp only
    rw [hs]
    dsimp only
    split
    · next exit hk =>
      have hexit : exit ∈ s.ids := State.exit_mem_ids (by rw [hk]; rfl)
      have hassertion : s.kind.IsAssertion := StateKind.isAssertion_iff.2 ⟨exit, by simp [hk]⟩
      apply settles_assertion hs hassertion _ (hgo exit hexit (visited.insert id).2 fun _ h => h)
      intro y
      simp [step_iff hs, hk]
    · next exit hk =>
      have hexit : exit ∈ s.ids := State.exit_mem_ids (by rw [hk]; rfl)
      have hassertion : s.kind.IsAssertion := StateKind.isAssertion_iff.2 ⟨exit, by simp [hk]⟩
      apply settles_assertion hs hassertion _ (hgo exit hexit (visited.insert id).2 fun _ h => h)
      intro y
      simp [step_iff hs, hk]
    · next hstart hfinish =>
      have hk : ¬ s.kind.IsAssertion := by
        rw [StateKind.isAssertion_iff]
        rintro ⟨exit, h | h⟩
        · exact hstart exit h
        · exact hfinish exit h
      have honward := settles_tryInTurn fun next hnext =>
        hgo next (s.silent_subset_ids hnext)
      split
      · next hnone => exact settles_at_end hs hk hnone honward
      · next c hc =>
        have hfresh : ∀ i, i ∉ BitSet.emptyWithCapacity a.states.size := by simp
        obtain ⟨found, hfound, hiff⟩ := tryAfresh_eq_some hfresh fun next hnext =>
          ih (ha.lt_of_mem_ids hs (s.targets_subset_ids c hnext))
            (budget_consume hc hbudget _ (Nat.zero_lt_of_lt hcard))
        have hsettles := settles_at_char hs hk hc hiff honward
        rw [hfound]
        cases found <;> exact hsettles

/-- A search ends within its budget, and finds whether the automaton accepts. -/
theorem search_eq_some (ha : a.InArena) (input : Array Char) (start : Nat) (anchored : Bool) :
    ∃ found visited, a.search input start anchored = some (found, visited) ∧
      (found = true ↔ a.Accepts input start anchored) := by
  have hle := a.card_unvisited_le (BitSet.emptyWithCapacity a.states.size)
  have hbudget : a.states.size * (input.size - start) +
      (a.unvisited (BitSet.emptyWithCapacity a.states.size)).card < a.branchBound input start := by
    unfold branchBound
    rw [Nat.mul_succ]
    omega
  have hsettles : a.Settles input anchored start [a.entry] _ (a.search input start anchored) :=
    settles_explore ha ha.entry_lt hbudget
  obtain ⟨found, visited, heq, hiff⟩ := hsettles.eq_some (by simp)
  refine ⟨found, visited, heq, hiff.trans ?_⟩
  simp only [List.mem_singleton, exists_eq_left]
  exact Iff.rfl

/-- The search finds a match exactly where some path leads to one. -/
theorem matchesFrom_iff_accepts (ha : a.InArena) (input : Array Char) (start : Nat)
    (anchored : Bool) :
    a.matchesFrom input start anchored = true ↔ a.Accepts input start anchored := by
  obtain ⟨found, visited, heq, hiff⟩ := search_eq_some ha input start anchored
  rw [← hiff, matchesFrom, heq]
  rfl

/-- Two states that lead to each other without consuming, an assertion on the way, and two final
states. -/
theorem accepts_through_silent_cycle :
    let a : Automaton := ⟨#[⟨.plain, [], [1, 2], false⟩, ⟨.any 1, [], [0], true⟩,
      ⟨.endOfInput 3, [], [], true⟩, ⟨.plain, [], [], true⟩], 0, 3⟩
    a.InArena ∧ a.matchesFrom #['x'] 0 true = true ∧ a.Accepts #['x'] 0 true := by
  intro a
  have ha : a.InArena := ⟨by decide, by decide, by decide⟩
  have hfound : a.matchesFrom #['x'] 0 true = true := by decide +kernel
  exact ⟨ha, hfound, (matchesFrom_iff_accepts ha _ _ _).1 hfound⟩

end Regexp.Automaton
