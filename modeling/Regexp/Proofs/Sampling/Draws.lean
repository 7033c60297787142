import Regexp.Sampling.Gen

/-! What holds of a random choice however the source draws. The rules follow the choices in order. -/
namespace Regexp.Sampling

variable {σ α β : Type} {gen : Draw σ α} {f : α → Draw σ β} {P Q : α → Prop} {R : β → Prop} {a : α}
  {l : List α} {lo hi n : Nat}

/-- From every state of the source a choice is made, and it has the property. -/
def Draw.Ensures (gen : Draw σ α) (P : α → Prop) : Prop :=
  ∀ s : σ, ∃ (a : α) (s' : σ), gen.run.run s = (.ok a, s') ∧ P a

namespace Draw

theorem ensures_pure (h : P a) : Ensures (pure a : Draw σ α) P :=
  fun s => ⟨a, s, rfl, h⟩

theorem Ensures.mono (hgen : gen.Ensures P) (h : ∀ a, P a → Q a) : gen.Ensures Q := by
  intro s
  obtain ⟨a, s', hrun, ha⟩ := hgen s
  exact ⟨a, s', hrun, h a ha⟩

theorem Ensures.bind (hgen : gen.Ensures P) (hf : ∀ a, P a → (f a).Ensures R) :
    (gen >>= f).Ensures R := by
  intro s
  obtain ⟨a, s', hrun, ha⟩ := hgen s
  obtain ⟨b, s'', hrun', hb⟩ := hf a ha s'
  refine ⟨b, s'', ?_, hb⟩
  rw [← hrun', ExceptT.run_bind, StateT.run_bind, hrun]
  rfl

/-- A choice that something is made of. -/
theorem Ensures.map {g : α → β} (hgen : gen.Ensures P) (h : ∀ a, P a → R (g a)) :
    Ensures (gen >>= fun a => pure (g a)) R :=
  hgen.bind fun a ha => ensures_pure (h a ha)

theorem ensures_times (hgen : gen.Ensures P) :
    Ensures (Gen.times n gen) fun l => l.length = n ∧ ∀ a ∈ l, P a := by
  induction n with
  | zero => exact ensures_pure ⟨rfl, by simp⟩
  | succ n ih =>
    apply hgen.bind
    intro a ha
    apply ih.map
    rintro l ⟨hlength, hl⟩
    exact ⟨congrArg (· + 1) hlength, List.forall_mem_cons.2 ⟨ha, hl⟩⟩

variable [RandomSource σ]

theorem ensures_range (h : lo < hi) :
    Ensures (Gen.range lo hi : Draw σ Nat) fun n => lo ≤ n ∧ n < hi := by
  intro s
  have hspan : 0 < hi - lo := Nat.sub_pos_of_lt h
  have hdraw := RandomSource.drawBelow_lt s hspan
  refine ⟨lo + (RandomSource.drawBelow (hi - lo) s).1, (RandomSource.drawBelow (hi - lo) s).2, ?_, ?_⟩
  · unfold Gen.range
    rw [if_pos h]
    rfl
  · omega

theorem ensures_chance (percent : Nat) :
    Ensures (Gen.chance percent : Draw σ Bool) fun _ => True :=
  (ensures_range (by decide)).map fun _ _ => trivial

theorem ensures_sample (h : l ≠ []) : Ensures (Gen.sample l : Draw σ α) (· ∈ l) := by
  cases l with
  | nil => contradiction
  | cons a l =>
    apply (ensures_range (Nat.succ_pos _)).map
    rintro n ⟨_, hn⟩
    have hlength : n < (a :: l).length := hn
    rw [List.getD_eq_getElem?_getD, List.getElem?_eq_getElem hlength]
    exact List.getElem_mem hlength

end Draw

end Regexp.Sampling
