import FieldNote.CallPool
import Mathlib.Logic.Function.Basic

/-!
# Slots beside a set of claimed names

A slot holds at most one name. The set of claimed names is kept beside the slots, without
counts: a slot that takes a name adds it and a slot that gives its name up removes it. No
name is held twice, and the claimed names are the held ones, as long as every name that is
taken was free; the first one that was not ends both.
-/
namespace FieldNote.ExclusiveSlots
open CallPool

variable {α : Type*} {slots slots' : List (Option α)} {claimed claimed' : α → Bool}
variable {i j : ℕ} {a b : α}

structure Exclusive (slots : List (Option α)) (claimed : α → Bool) : Prop where
  unique : ∀ (i j : ℕ) (a : α), slots[i]? = some (some a) → slots[j]? = some (some a) → i = j
  claimed_iff : ∀ a : α, claimed a = true ↔ some a ∈ slots

theorem exclusive_idle (hidle : ∀ s ∈ slots, s = none) :
    Exclusive slots (fun _ => false) where
  unique i _ a hi _ := by cases hidle _ (List.mem_of_getElem? hi)
  claimed_iff a := by
    constructor
    · intro h
      cases h
    · intro h
      cases hidle _ h

/-- Idle slots are started. -/
theorem Exclusive.start (h : Exclusive slots claimed) (n : ℕ) :
    Exclusive (slots ++ List.replicate n none) claimed := by
  have hold : ∀ {i : ℕ} {a : α}, (slots ++ List.replicate n none)[i]? = some (some a) →
      slots[i]? = some (some a) := by
    intro i a hi
    rw [List.getElem?_append] at hi
    split_ifs at hi
    · exact hi
    · cases List.eq_of_mem_replicate (List.mem_of_getElem? hi)
  constructor
  · intro i j a hi hj
    exact h.unique i j a (hold hi) (hold hj)
  · intro a
    rw [h.claimed_iff a]
    simp [List.mem_replicate]

/-- Two slots with different names are different. -/
theorem ne_of_getElem? {s t : Option α} (hi : slots[i]? = some s) (hj : slots[j]? = some t)
    (hst : s ≠ t) : j ≠ i := by
  rintro rfl
  rw [hi] at hj
  exact hst (Option.some.inj hj)

/-- A name that is held already is held twice when another slot takes it. -/
theorem Exclusive.take_free (h : Exclusive slots claimed) (hi : slots[i]? = some none)
    (h' : Exclusive (slots.set i (some a)) claimed') : claimed a = false := by
  by_contra hclaimed
  obtain ⟨j, hj⟩ := List.mem_iff_getElem?.mp
    ((h.claimed_iff a).mp (by simpa using hclaimed))
  have hji : j ≠ i := ne_of_getElem? hi hj (by simp)
  exact hji (h'.unique j i a ((getElem?_set_other hji).trans hj) (getElem?_set_same hi))

variable [DecidableEq α]

theorem Exclusive.take (h : Exclusive slots claimed) (hi : slots[i]? = some none)
    (hfree : claimed a = false) :
    Exclusive (slots.set i (some a)) (Function.update claimed a true) := by
  have hnew : some a ∉ slots := by
    rw [← h.claimed_iff a, hfree]
    simp
  constructor
  · intro j k b hj hk
    rcases getElem?_set_cases hj with ⟨rfl, hb⟩ | ⟨-, hj'⟩ <;>
      rcases getElem?_set_cases hk with ⟨rfl, hc⟩ | ⟨-, hk'⟩
    · rfl
    · cases hb
      exact (hnew (List.mem_of_getElem? hk')).elim
    · cases hc
      exact (hnew (List.mem_of_getElem? hj')).elim
    · exact h.unique j k b hj' hk'
  · intro b
    by_cases hb : b = a
    · subst hb
      simpa using List.mem_of_getElem? (getElem?_set_same hi (a := some b))
    · rw [Function.update_of_ne hb, h.claimed_iff b]
      constructor
      · intro hmem
        exact mem_set_of_ne hi (by simp) hmem
      · intro hmem
        obtain ⟨j, hj⟩ := List.mem_iff_getElem?.mp hmem
        rcases getElem?_set_cases hj with ⟨-, hj⟩ | ⟨-, hj⟩
        · exact (hb (Option.some.inj hj)).elim
        · exact List.mem_of_getElem? hj

theorem Exclusive.give (h : Exclusive slots claimed) (hi : slots[i]? = some (some a)) :
    Exclusive (slots.set i none) (Function.update claimed a false) := by
  have hold : ∀ {j : ℕ} {b : α}, (slots.set i none)[j]? = some (some b) →
      j ≠ i ∧ slots[j]? = some (some b) := by
    intro j b hj
    rcases getElem?_set_cases hj with ⟨-, hb⟩ | hj
    · cases hb
    · exact hj
  constructor
  · intro j k b hj hk
    exact h.unique j k b (hold hj).2 (hold hk).2
  · intro b
    constructor
    · intro hb
      have hba : b ≠ a := by
        rintro rfl
        simp at hb
      rw [Function.update_of_ne hba, h.claimed_iff b] at hb
      exact mem_set_of_ne hi (by simpa using hba) hb
    · intro hmem
      obtain ⟨j, hj⟩ := List.mem_iff_getElem?.mp hmem
      obtain ⟨hji, hj⟩ := hold hj
      have hba : b ≠ a := by
        rintro rfl
        exact hji (h.unique j i b hj hi)
      rw [Function.update_of_ne hba, h.claimed_iff b]
      exact List.mem_of_getElem? hj

/-- What a step can do that takes no name but a free one: it may start idle slots, and one
slot takes a name or gives it up, or all names are given up. -/
inductive Careful : List (Option α) → (α → Bool) → List (Option α) → (α → Bool) → Prop where
  | same (slots : List (Option α)) (claimed : α → Bool) : Careful slots claimed slots claimed
  | start (n : ℕ) {slots slots' : List (Option α)} {claimed claimed' : α → Bool}
      (rest : Careful (slots ++ List.replicate n none) claimed slots' claimed') :
      Careful slots claimed slots' claimed'
  | take (i : ℕ) (a : α) {slots : List (Option α)} {claimed : α → Bool}
      (at_ : slots[i]? = some none) (free : claimed a = false) :
      Careful slots claimed (slots.set i (some a)) (Function.update claimed a true)
  | give (i : ℕ) (a : α) {slots : List (Option α)} {claimed : α → Bool}
      (at_ : slots[i]? = some (some a)) :
      Careful slots claimed (slots.set i none) (Function.update claimed a false)
  | clear {slots slots' : List (Option α)} {claimed : α → Bool} (idle : ∀ s ∈ slots', s = none) :
      Careful slots claimed slots' (fun _ => false)

theorem Careful.exclusive (c : Careful slots claimed slots' claimed')
    (h : Exclusive slots claimed) : Exclusive slots' claimed' := by
  induction c with
  | same => exact h
  | start n _ ih => exact ih (h.start n)
  | take i a hi hfree => exact h.take hi hfree
  | give i a hi => exact h.give hi
  | clear hidle => exact exclusive_idle hidle

end FieldNote.ExclusiveSlots
