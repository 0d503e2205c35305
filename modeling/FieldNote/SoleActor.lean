import FieldNote.CallPool

/-!
# Pools with at most one active call

A test says which calls of a pool are active. Either none is, and a fact about the resting pool
holds, or one is, and a fact about that call holds. Each rule is for one kind of move: of the
active call, of another one, or the start of a new one.
-/
namespace FieldNote.SoleActor
open CallPool

variable {α : Type*} {active : α → Bool} {pool new : List α} {rest rest' : Prop}
  {phase phase' : α → Prop} {i : ℕ} {a a' b : α}

/-- Call `i` is active, and no other call is. -/
structure Only (active : α → Bool) (pool : List α) (i : ℕ) (a : α) : Prop where
  at_ : pool[i]? = some a
  active_ : active a = true
  sole : ∀ (j : ℕ) (b : α), pool[j]? = some b → active b = true → j = i

/-- No call is active and the pool rests, or one call is active and in a phase of its own. -/
inductive Sole (active : α → Bool) (pool : List α) (rest : Prop) (phase : α → Prop) : Prop where
  | resting (none_ : ∀ a ∈ pool, active a = false) (holds : rest) : Sole active pool rest phase
  | acting (i : ℕ) (a : α) (only : Only active pool i a) (holds : phase a) :
      Sole active pool rest phase

theorem Only.unique (h : Only active pool i a) {j : ℕ} (hj : pool[j]? = some b)
    (hb : active b = true) : j = i ∧ b = a := by
  obtain rfl := h.sole j b hj hb
  rw [h.at_] at hj
  exact ⟨rfl, (Option.some.inj hj).symm⟩

/-- A call that is active is the one of the pool. -/
theorem Sole.of_active (h : Sole active pool rest phase) (hi : pool[i]? = some a)
    (ha : active a = true) : Only active pool i a ∧ phase a := by
  cases h with
  | resting none_ holds =>
      rw [none_ a (List.mem_of_getElem? hi)] at ha
      cases ha
  | acting j b only holds =>
      obtain ⟨rfl, rfl⟩ := only.unique hi ha
      exact ⟨only, holds⟩

theorem Sole.of_resting (h : Sole active pool rest phase)
    (hnone : ∀ a ∈ pool, active a = false) : rest := by
  cases h with
  | resting none_ holds => exact holds
  | acting i a only holds =>
      have hact := only.active_
      rw [hnone a (List.mem_of_getElem? only.at_)] at hact
      cases hact

/-- Where the active calls of a pool are after the move of call `i`. -/
theorem active_advance (hnew : ∀ c ∈ new, active c = false) {j : ℕ}
    (hj : (pool.set i a' ++ new)[j]? = some b) (hb : active b = true) :
    j = i ∧ b = a' ∨ j ≠ i ∧ pool[j]? = some b := by
  rcases getElem?_advance_cases hj with hsame | hold | ⟨-, hmem⟩
  · exact .inl hsame
  · exact .inr hold
  · rw [hnew b (List.mem_of_getElem? hmem)] at hb
    cases hb

/-- A call that is not active moves, and the facts change with it. -/
theorem Sole.other (h : Sole active pool rest phase) (hi : pool[i]? = some a)
    (ha : active a = false) (ha' : active a' = false) (hnew : ∀ c ∈ new, active c = false)
    (hrest : rest → rest') (hphase : ∀ b, phase b → phase' b) :
    Sole active (pool.set i a' ++ new) rest' phase' := by
  cases h with
  | resting none_ holds =>
      refine .resting ?_ (hrest holds)
      intro b hb
      rcases List.mem_append.mp hb with hset | hmem
      · rcases List.mem_or_eq_of_mem_set hset with hold | rfl
        · exact none_ b hold
        · exact ha'
      · exact hnew b hmem
  | acting j b only holds =>
      have hji : j ≠ i := by
        rintro rfl
        obtain rfl := Option.some.inj (hi.symm.trans only.at_)
        rw [only.active_] at ha
        cases ha
      refine .acting j b ⟨getElem?_advance_other hji only.at_, only.active_, ?_⟩ (hphase b holds)
      intro k c hk hc
      rcases active_advance hnew hk hc with ⟨rfl, rfl⟩ | ⟨-, hold⟩
      · rw [ha'] at hc
        cases hc
      · exact only.sole k c hold hc

/-- The active call moves and stays active. -/
theorem Only.moves (h : Only active pool i a) (ha' : active a' = true)
    (hnew : ∀ c ∈ new, active c = false) (hphase : phase a') :
    Sole active (pool.set i a' ++ new) rest phase := by
  refine .acting i a' ⟨getElem?_advance_same h.at_, ha', ?_⟩ hphase
  intro k c hk hc
  rcases active_advance hnew hk hc with ⟨rfl, -⟩ | ⟨-, hold⟩
  · rfl
  · exact h.sole k c hold hc

theorem Only.none_after (h : Only active pool i a) (ha' : active a' = false)
    (hnew : ∀ c ∈ new, active c = false) : ∀ b ∈ pool.set i a' ++ new, active b = false := by
  intro b hb
  obtain ⟨k, hk⟩ := List.mem_iff_getElem?.mp hb
  cases hc : active b with
  | false => rfl
  | true =>
      rcases active_advance hnew hk hc with ⟨-, rfl⟩ | ⟨hki, hold⟩
      · rw [ha'] at hc
        cases hc
      · exact (hki (h.sole k b hold hc)).elim

/-- The active call ends. -/
theorem Only.ends (h : Only active pool i a) (ha' : active a' = false)
    (hnew : ∀ c ∈ new, active c = false) (hrest : rest) :
    Sole active (pool.set i a' ++ new) rest phase :=
  .resting (h.none_after ha' hnew) hrest

/-- A call becomes active where none is. -/
theorem start (hnone : ∀ a ∈ pool, active a = false) (ha : active a = true) (hphase : phase a) :
    Sole active (pool ++ [a]) rest phase := by
  refine .acting pool.length a ⟨by simp, ha, ?_⟩ hphase
  intro j b hj hb
  rcases getElem?_start_cases hj with ⟨hlast, -⟩ | ⟨-, hold⟩
  · exact hlast
  · rw [hnone b (List.mem_of_getElem? hold)] at hb
    cases hb

/-- The active call ends, and hands over to a new one. -/
theorem Only.hands_over (h : Only active pool i a) (ha' : active a' = false)
    (hb : active b = true) (hphase : phase b) :
    Sole active (pool.set i a' ++ [b]) rest phase := by
  have hnone : ∀ c ∈ pool.set i a' ++ [], active c = false := h.none_after ha' (by simp)
  rw [List.append_nil] at hnone
  exact start hnone hb hphase

/-- Calls that are not active are started. -/
theorem Sole.append (h : Sole active pool rest phase) (hnew : ∀ c ∈ new, active c = false)
    (hrest : rest → rest') (hphase : ∀ b, phase b → phase' b) :
    Sole active (pool ++ new) rest' phase' := by
  cases h with
  | resting none_ holds =>
      refine .resting ?_ (hrest holds)
      intro b hb
      rcases List.mem_append.mp hb with hold | hmem
      · exact none_ b hold
      · exact hnew b hmem
  | acting i a only holds =>
      have hat : (pool ++ new)[i]? = some a :=
        (List.getElem?_append_left (lt_of_getElem? only.at_)).trans only.at_
      refine .acting i a ⟨hat, only.active_, ?_⟩ (hphase a holds)
      intro j b hj hb
      by_cases hlt : j < pool.length
      · rw [List.getElem?_append_left hlt] at hj
        exact only.sole j b hj hb
      · rw [List.getElem?_append_right (by omega)] at hj
        rw [hnew b (List.mem_of_getElem? hj)] at hb
        cases hb

end FieldNote.SoleActor
