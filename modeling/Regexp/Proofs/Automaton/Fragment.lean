import Regexp.Automaton.OfPattern
import Regexp.Automaton.Path

/-! Fragments: automata that nothing enters but through the entry and nothing leaves but through the
exit. The automaton of every pattern is one. In a larger automaton an operand keeps its states, except
for its exit, which gets edges to go on along. -/
namespace Regexp

/-- A state that consumes nothing and is left along the given edges. -/
def State.junction (silent : List Nat) (final : Bool) : State := ⟨.plain, [], silent, final⟩

@[simp] theorem State.ids_junction (silent : List Nat) (final : Bool) :
    (State.junction silent final).ids = silent := by
  simp [junction, ids, StateKind.exit?]

@[simp] theorem State.ids_shift (offset : Nat) (s : State) :
    (s.shift offset).ids = s.ids.map (· + offset) := by
  have hkind : (s.kind.shift offset).exit?.toList = s.kind.exit?.toList.map (· + offset) := by
    cases s.kind <;> rfl
  simp only [ids, shift, hkind, List.map_append, List.flatMap_map, List.map_flatMap]

@[simp] theorem State.shift_zero (s : State) : s.shift 0 = s := by
  obtain ⟨kind, labelled, silent, final⟩ := s
  cases kind <;> simp [shift, StateKind.shift]

namespace Automaton

variable {a b c : Automaton} {id offset : Nat} {s : State} {next : List Nat} {final : Bool}

/-- What a state of a fragment is like: only the exit is final, no edge leads to the entry or out of
the arena, and a state with a kind of its own has no edges besides. -/
structure Fits (a : Automaton) (id : Nat) (s : State) : Prop where
  final_iff : s.final = true ↔ id = a.exit
  ids : ∀ i ∈ s.ids, i < a.states.size ∧ i ≠ a.entry
  bare : s.kind ≠ .plain → s.labelled = [] ∧ s.silent = []

structure IsFragment (a : Automaton) : Prop where
  entry_lt : a.entry < a.states.size
  entry_ne_exit : a.entry ≠ a.exit
  exit_state : a.states[a.exit]? = some (.junction [] true)
  fits : ∀ {id : Nat} {s : State}, a.states[id]? = some s → a.Fits id s

theorem IsFragment.exit_lt (ha : a.IsFragment) : a.exit < a.states.size :=
  (Array.getElem?_eq_some_iff.1 ha.exit_state).1

theorem IsFragment.inArena (ha : a.IsFragment) : a.InArena := by
  refine ⟨ha.entry_lt, ha.exit_lt, ?_⟩
  intro s hs i hi
  obtain ⟨id, hid⟩ := Array.mem_iff_getElem?.1 hs
  exact ((ha.fits hid).ids i hi).1

theorem fits_junction (hfinal : final = true ↔ id = c.exit)
    (hnext : ∀ i ∈ next, i < c.states.size ∧ i ≠ c.entry) : c.Fits id (.junction next final) where
  final_iff := hfinal
  ids := by simpa using hnext
  bare := by simp [State.junction]

/-! ### Operands in a larger arena -/

/-- The states of an operand as they stand from `offset` on, with a new state for its exit. -/
def place (a : Automaton) (offset : Nat) (exit : State) (id : Nat) : Option State :=
  if id = a.exit then some exit else a.states[id]?.map (State.shift offset)

theorem fits_place (hb : b.IsFragment) (hs : b.place offset (.junction next final) id = some s)
    (hsize : b.states.size + offset ≤ c.states.size)
    (hentry : ∀ i < b.states.size, i ≠ b.entry → i + offset ≠ c.entry)
    (hexit : ∀ i < b.states.size, i + offset = c.exit ↔ i = b.exit ∧ final = true)
    (hnext : ∀ i ∈ next, i < c.states.size ∧ i ≠ c.entry) : c.Fits (id + offset) s := by
  unfold place at hs
  split at hs
  · next heq =>
    subst heq
    cases hs
    exact fits_junction (by simp [hexit _ hb.exit_lt]) hnext
  · next hne =>
    obtain ⟨t, ht, rfl⟩ := Option.map_eq_some_iff.1 hs
    have hlt := (Array.getElem?_eq_some_iff.1 ht).1
    have hfits := hb.fits ht
    refine ⟨?_, ?_, ?_⟩
    · rw [hexit id hlt]
      simp [State.shift, hfits.final_iff, hne]
    · intro i hi
      rw [State.ids_shift, List.mem_map] at hi
      obtain ⟨j, hj, rfl⟩ := hi
      obtain ⟨hjlt, hjne⟩ := hfits.ids j hj
      exact ⟨by omega, hentry j hjlt hjne⟩
    · intro hk
      have hplain : t.kind ≠ .plain := by
        intro h
        exact hk (by simp [State.shift, h, StateKind.shift])
      simp [State.shift, hfits.bare hplain]

@[simp] theorem size_modify (a : Automaton) (id : Nat) (f : State → State) :
    (a.modify id f).states.size = a.states.size := by
  simp [modify]

theorem getElem?_modify (a : Automaton) (id : Nat) (f : State → State) (i : Nat) :
    (a.modify id f).states[i]? = if id = i then a.states[i]?.map f else a.states[i]? := by
  simp [modify, Array.getElem?_modify]

@[simp] theorem size_extend (a b : Automaton) :
    (a.extend b).states.size = a.states.size + b.states.size := by
  simp [extend]

theorem getElem?_extend_left (b : Automaton) (h : id < a.states.size) :
    (a.extend b).states[id]? = a.states[id]? := by
  simp [extend, Array.getElem?_append_left h]

@[simp] theorem getElem?_extend_right (a b : Automaton) (id : Nat) :
    (a.extend b).states[id + a.states.size]? =
      b.states[id]?.map (State.shift a.states.size) := by
  simp [extend, Array.getElem?_append_right]

/-! ### Sequences -/

@[simp] theorem size_sequence (a b : Automaton) :
    (a.sequence b).states.size = a.states.size + b.states.size := by
  simp [sequence]

theorem getElem?_sequence_left (ha : a.IsFragment) (b : Automaton) (h : id < a.states.size) :
    (a.sequence b).states[id]? =
      a.place 0 (.junction [b.entry + a.states.size] false) id := by
  have hne : b.exit + a.states.size ≠ id := by omega
  simp only [sequence, getElem?_modify, if_neg hne, getElem?_extend_left b h, place,
    eq_comm (a := id)]
  split
  · next heq =>
    rw [← heq, ha.exit_state]
    rfl
  · cases a.states[id]? <;> simp

theorem getElem?_sequence_right (ha : a.IsFragment) (hb : b.IsFragment) (id : Nat) :
    (a.sequence b).states[id + a.states.size]? =
      b.place a.states.size (.junction [] true) id := by
  have hexit := ha.exit_lt
  have hne : a.exit ≠ id + a.states.size := by omega
  simp only [sequence, getElem?_modify, if_neg hne, getElem?_extend_right,
    Nat.add_right_cancel_iff, place, eq_comm (a := id)]
  split
  · next heq =>
    rw [← heq, hb.exit_state]
    rfl
  · rfl

theorem isFragment_sequence (ha : a.IsFragment) (hb : b.IsFragment) :
    (a.sequence b).IsFragment := by
  have haentry := ha.entry_lt
  have hbexit := hb.exit_lt
  have hbentry := hb.entry_lt
  have hentry : (a.sequence b).entry = a.entry := rfl
  have hexit : (a.sequence b).exit = b.exit + a.states.size := rfl
  refine ⟨?_, ?_, ?_, ?_⟩
  · rw [size_sequence, hentry]
    omega
  · rw [hentry, hexit]
    omega
  · rw [hexit, getElem?_sequence_right ha hb]
    simp [place]
  · intro id s hs
    rcases Nat.lt_or_ge id a.states.size with hlt | hle
    · rw [getElem?_sequence_left ha b hlt] at hs
      change (a.sequence b).Fits (id + 0) s
      refine fits_place ha hs ?_ ?_ ?_ ?_
      · simp
      · exact fun i _ hi => hi
      · intro i hi
        rw [hexit]
        simp
        omega
      · simp [hentry]
        omega
    · obtain ⟨k, rfl⟩ := Nat.exists_eq_add_of_le' hle
      rw [getElem?_sequence_right ha hb] at hs
      refine fits_place hb hs ?_ ?_ ?_ ?_
      · simp [Nat.add_comm]
      · intro i _ _
        rw [hentry]
        omega
      · intro i _
        simp [hexit]
      · simp

/-! ### Operands between a fresh entry and exit -/

@[simp] theorem size_embed (a b : Automaton) :
    (a.embed b).states.size = a.states.size + b.states.size := by
  simp [embed]

theorem getElem?_embed_left (b : Automaton) (h : id < a.states.size) :
    (a.embed b).states[id]? =
      if a.entry = id then a.states[id]?.map (·.addSilent (b.entry + a.states.size))
      else a.states[id]? := by
  have hne : b.exit + a.states.size ≠ id := by omega
  simp only [embed, getElem?_modify, if_neg hne, getElem?_extend_left b h]

theorem getElem?_embed_right (ha : a.entry < a.states.size) (hb : b.IsFragment) (id : Nat) :
    (a.embed b).states[id + a.states.size]? =
      b.place a.states.size (.junction [a.exit] false) id := by
  have hne : a.entry ≠ id + a.states.size := by omega
  simp only [embed, getElem?_modify, if_neg hne, getElem?_extend_right,
    Nat.add_right_cancel_iff, place, eq_comm (a := id)]
  split
  · next heq =>
    rw [← heq, hb.exit_state]
    rfl
  · rfl

/-- An automaton that begins with a fresh entry and a fresh exit. -/
structure IsFramed (c : Automaton) (next : List Nat) : Prop where
  entry_eq : c.entry = 0
  exit_eq : c.exit = 1
  entry_state : c.states[0]? = some (.junction next false)
  exit_state : c.states[1]? = some (.junction [] true)

theorem isFramed_frame : frame.IsFramed [] := ⟨rfl, rfl, rfl, rfl⟩

theorem IsFramed.size (hc : c.IsFramed next) : 2 ≤ c.states.size := by
  have := (Array.getElem?_eq_some_iff.1 hc.exit_state).1
  omega

theorem IsFramed.embed (hc : c.IsFramed next) (b : Automaton) :
    (c.embed b).IsFramed (next ++ [b.entry + c.states.size]) := by
  have hsize := hc.size
  refine ⟨hc.entry_eq, hc.exit_eq, ?_, ?_⟩
  · rw [getElem?_embed_left b (by omega), if_pos hc.entry_eq, hc.entry_state]
    rfl
  · rw [getElem?_embed_left b (by omega), if_neg (by simp [hc.entry_eq]), hc.exit_state]

theorem IsFramed.modify (hc : c.IsFramed next) (h : 2 ≤ id) (f : State → State) :
    (c.modify id f).IsFramed next := by
  refine ⟨hc.entry_eq, hc.exit_eq, ?_, ?_⟩
  · rw [getElem?_modify, if_neg (by omega), hc.entry_state]
  · rw [getElem?_modify, if_neg (by omega), hc.exit_state]

theorem IsFramed.addSilent (hc : c.IsFramed next) (target : Nat) :
    (c.modify 0 (·.addSilent target)).IsFramed (next ++ [target]) := by
  refine ⟨hc.entry_eq, hc.exit_eq, ?_, ?_⟩
  · rw [getElem?_modify, if_pos rfl, hc.entry_state]
    rfl
  · rw [getElem?_modify, if_neg (by decide), hc.exit_state]

theorem IsFramed.isFragment (hc : c.IsFramed next)
    (hnext : ∀ i ∈ next, i < c.states.size ∧ i ≠ 0)
    (hfits : ∀ {id : Nat} {s : State}, c.states[id + 2]? = some s → c.Fits (id + 2) s) :
    c.IsFragment := by
  have hsize := hc.size
  refine ⟨?_, ?_, ?_, ?_⟩
  · rw [hc.entry_eq]
    omega
  · simp [hc.entry_eq, hc.exit_eq]
  · rw [hc.exit_eq, hc.exit_state]
  · intro id s hs
    match id with
    | 0 =>
      cases hc.entry_state.symm.trans hs
      exact fits_junction (by simp [hc.exit_eq]) (by simpa [hc.entry_eq] using hnext)
    | 1 =>
      cases hc.exit_state.symm.trans hs
      exact fits_junction (by simp [hc.exit_eq]) (by simp)
    | id + 2 => exact hfits hs

/-- An operand placed behind the frame fits if its exit leads back to where edges may lead. -/
theorem IsFramed.fits_place (hc : c.IsFramed next) (hb : b.IsFragment) {exits : List Nat}
    (hs : b.place offset (.junction exits false) id = some s) (hoffset : 2 ≤ offset)
    (hsize : b.states.size + offset ≤ c.states.size)
    (hexits : ∀ i ∈ exits, i < c.states.size ∧ i ≠ 0) : c.Fits (id + offset) s := by
  refine Automaton.fits_place hb hs hsize ?_ ?_ ?_
  · rw [hc.entry_eq]
    omega
  · rw [hc.exit_eq]
    simp
    omega
  · rwa [hc.entry_eq]

/-! ### Alternations -/

@[simp] theorem size_alternation (a b : Automaton) :
    (a.alternation b).states.size = 2 + a.states.size + b.states.size := by
  simp [alternation, frame, pair]

theorem isFramed_alternation (a b : Automaton) :
    (a.alternation b).IsFramed [a.entry + 2, b.entry + (2 + a.states.size)] := by
  have h := (isFramed_frame.embed a).embed b
  rw [size_embed] at h
  exact h

theorem getElem?_alternation_left (ha : a.IsFragment) (b : Automaton) (h : id < a.states.size) :
    (a.alternation b).states[id + 2]? = a.place 2 (.junction [1] false) id := by
  have hframe : frame.states.size = 2 := rfl
  have hentry : (frame.embed a).entry ≠ id + 2 := by
    rw [(isFramed_frame.embed a).entry_eq]
    omega
  rw [alternation, getElem?_embed_left b (by rw [size_embed]; omega), if_neg hentry]
  exact getElem?_embed_right (by decide) ha id

theorem getElem?_alternation_right (a : Automaton) (hb : b.IsFragment) (id : Nat) :
    (a.alternation b).states[id + (2 + a.states.size)]? =
      b.place (2 + a.states.size) (.junction [1] false) id := by
  have hframed := isFramed_frame.embed a
  have hsize : (frame.embed a).states.size = 2 + a.states.size := size_embed frame a
  have h := getElem?_embed_right (a := frame.embed a) (by rw [hframed.entry_eq]; omega) hb id
  rw [hframed.exit_eq, hsize] at h
  exact h

theorem isFragment_alternation (ha : a.IsFragment) (hb : b.IsFragment) :
    (a.alternation b).IsFragment := by
  have hframed := isFramed_alternation a b
  have haentry := ha.entry_lt
  have hbentry := hb.entry_lt
  refine hframed.isFragment ?_ ?_
  · simp
    omega
  · intro id s hs
    rcases Nat.lt_or_ge id a.states.size with hlt | hle
    · rw [getElem?_alternation_left ha b hlt] at hs
      refine hframed.fits_place ha hs ?_ ?_ ?_
      · omega
      · rw [size_alternation]
        omega
      · simp
        omega
    · obtain ⟨k, rfl⟩ := Nat.exists_eq_add_of_le' hle
      have heq : k + a.states.size + 2 = k + (2 + a.states.size) := by omega
      rw [heq] at hs ⊢
      rw [getElem?_alternation_right a hb] at hs
      refine hframed.fits_place hb hs ?_ ?_ ?_
      · omega
      · rw [size_alternation]
        omega
      · simp
        omega

/-! ### Quantifiers -/

@[simp] theorem size_repeated (loops skips : Bool) (a : Automaton) :
    (a.repeated loops skips).states.size = 2 + a.states.size := by
  cases loops <;> cases skips <;> simp [repeated, frame, pair]

theorem isFramed_repeated (loops skips : Bool) (a : Automaton) :
    (a.repeated loops skips).IsFramed ((a.entry + 2) :: if skips then [1] else []) := by
  have hlooped : ((frame.embed a).modify (a.exit + 2) (·.addSilent (a.entry + 2))).IsFramed
      [a.entry + 2] := (isFramed_frame.embed a).modify (by omega) _
  cases loops <;> cases skips
  · exact isFramed_frame.embed a
  · exact (isFramed_frame.embed a).addSilent 1
  · exact hlooped
  · exact hlooped.addSilent 1

theorem getElem?_repeated (loops skips : Bool) (ha : a.IsFragment) (id : Nat) :
    (a.repeated loops skips).states[id + 2]? =
      a.place 2 (.junction (1 :: if loops then [a.entry + 2] else []) false) id := by
  have hembed : (frame.embed a).states[id + 2]? = a.place 2 (.junction [1] false) id :=
    getElem?_embed_right (by decide) ha id
  have hentry : frame.entry ≠ id + 2 := by
    rw [isFramed_frame.entry_eq]
    omega
  have hskip : ∀ d : Automaton, (d.modify frame.entry (·.addSilent frame.exit)).states[id + 2]? =
      d.states[id + 2]? := fun d => by rw [getElem?_modify, if_neg hentry]
  have hloop : ((frame.embed a).modify (a.exit + 2) (·.addSilent (a.entry + 2))).states[id + 2]? =
      a.place 2 (.junction [1, a.entry + 2] false) id := by
    rw [getElem?_modify, hembed]
    by_cases h : id = a.exit
    · simp [place, h, State.addSilent, State.junction]
    · simp [place, h, Ne.symm h]
  cases loops <;> cases skips
  · exact hembed
  · exact (hskip _).trans hembed
  · exact hloop
  · exact (hskip _).trans hloop

theorem isFragment_repeated (loops skips : Bool) (ha : a.IsFragment) :
    (a.repeated loops skips).IsFragment := by
  have hframed := isFramed_repeated loops skips a
  have hentry := ha.entry_lt
  refine hframed.isFragment ?_ ?_
  · rw [size_repeated]
    cases skips <;> simp <;> omega
  · intro id s hs
    rw [getElem?_repeated loops skips ha] at hs
    refine hframed.fits_place ha hs ?_ ?_ ?_
    · omega
    · rw [size_repeated]
      omega
    · rw [size_repeated]
      cases loops <;> simp <;> omega

/-! ### Single states, and all patterns -/

theorem isFragment_pair {entry : Nat → State} (hfinal : (entry 1).final = false)
    (hids : (entry 1).ids ⊆ [1])
    (hbare : (entry 1).kind ≠ .plain → (entry 1).labelled = [] ∧ (entry 1).silent = []) :
    (pair entry).IsFragment := by
  refine ⟨Nat.zero_lt_two, Nat.zero_ne_one, rfl, ?_⟩
  intro id s hs
  match id with
  | 0 =>
    cases hs
    refine ⟨by simp [hfinal, pair], ?_, hbare⟩
    intro i hi
    cases List.mem_singleton.1 (hids hi)
    exact ⟨Nat.one_lt_two, Nat.one_ne_zero⟩
  | 1 =>
    cases hs
    change (pair entry).Fits 1 (.junction [] true)
    exact fits_junction (by simp [pair]) (by simp)
  | id + 2 => cases hs

theorem isFragment_char (ch : Char) : (char ch).IsFragment :=
  isFragment_pair rfl (List.Subset.refl [1]) (by simp [State.ofKind, State.addLabelled])

theorem isFragment_ofKind {kind : Nat → StateKind} (h : (kind 1).exit? = some 1) :
    (pair fun exit => .ofKind (kind exit)).IsFragment :=
  isFragment_pair rfl (by simp [State.ids, State.ofKind, h]) (by simp [State.ofKind])

theorem isFragment_empty : empty.IsFragment :=
  isFragment_pair rfl (by decide) (by simp [State.ofKind, State.addSilent])

theorem isFragment_quantified (q : Quantifier) (ha : a.IsFragment) : (a.quantified q).IsFragment := by
  cases q
  · exact isFragment_repeated true true ha
  · exact isFragment_repeated true false ha
  · exact isFragment_repeated false true ha

theorem isFragment_ofPattern (p : Pattern) : (ofPattern p).IsFragment := by
  induction p with
  | choice p q ihp ihq => exact isFragment_alternation ihp ihq
  | seq p q ihp ihq => exact isFragment_sequence ihp ihq
  | quantified p q ih => exact isFragment_quantified q ih
  | cls k => exact isFragment_ofKind rfl
  | char ch => exact isFragment_char ch
  | any => exact isFragment_ofKind rfl
  | startOfInput => exact isFragment_ofKind rfl
  | endOfInput => exact isFragment_ofKind rfl
  | blank => exact isFragment_empty

end Automaton

end Regexp
