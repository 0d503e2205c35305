import Mathlib.Data.List.Basic

/-!
# Pools of concurrent calls

A pool is the list of all calls ever started, addressed by position: starting a call
appends it and a step of call `i` replaces entry `i`. The two inversion lemmas say where
an entry of the new pool comes from.
-/
namespace FieldNote.CallPool

variable {α : Type*} {pool : List α} {i j : ℕ} {a b c : α}

theorem getElem?_set_cases (h : (pool.set i a)[j]? = some b) :
    (j = i ∧ b = a) ∨ (j ≠ i ∧ pool[j]? = some b) := by
  rw [List.getElem?_set] at h
  split_ifs at h with hij hlt
  · exact .inl ⟨hij.symm, by simpa using h.symm⟩
  · exact .inr ⟨Ne.symm hij, h⟩

theorem getElem?_set_same (hi : pool[i]? = some c) : (pool.set i a)[i]? = some a := by
  have hlt : i < pool.length := (List.getElem?_eq_some_iff.mp hi).1
  simp [hlt]

theorem getElem?_set_other (hij : j ≠ i) : (pool.set i a)[j]? = pool[j]? :=
  List.getElem?_set_ne (Ne.symm hij)

theorem getElem?_start_cases (h : (pool ++ [a])[j]? = some b) :
    (j = pool.length ∧ b = a) ∨ (j ≠ pool.length ∧ pool[j]? = some b) := by
  rcases Nat.lt_trichotomy j pool.length with hj | hj | hj
  · exact .inr ⟨Nat.ne_of_lt hj, by rwa [List.getElem?_append_left hj] at h⟩
  · subst hj
    exact .inl ⟨rfl, by simpa using h.symm⟩
  · rw [List.getElem?_eq_none (by simp; omega)] at h
    cases h

theorem getElem?_start_other (hj : j ≠ pool.length) : (pool ++ [a])[j]? = pool[j]? := by
  rcases Nat.lt_or_gt_of_ne hj with hlt | hgt
  · exact List.getElem?_append_left hlt
  · rw [List.getElem?_eq_none (by simp; omega), List.getElem?_eq_none (Nat.le_of_lt hgt)]

/-- An entry of a pool in which entry `i` was replaced and new entries were started. -/
theorem getElem?_advance_cases {new : List α} (h : (pool.set i a ++ new)[j]? = some b) :
    (j = i ∧ b = a) ∨ (j ≠ i ∧ pool[j]? = some b) ∨
      (pool.length ≤ j ∧ new[j - pool.length]? = some b) := by
  by_cases hj : j < pool.length
  · rw [List.getElem?_append_left (by simpa using hj)] at h
    rcases getElem?_set_cases h with h | h
    · exact .inl h
    · exact .inr (.inl h)
  · rw [List.getElem?_append_right (by simpa using hj), List.length_set] at h
    exact .inr (.inr ⟨Nat.le_of_not_lt hj, h⟩)

theorem getElem?_advance_same {new : List α} (hi : pool[i]? = some c) :
    (pool.set i a ++ new)[i]? = some a := by
  have hlt : i < pool.length := (List.getElem?_eq_some_iff.mp hi).1
  rw [List.getElem?_append_left (by simpa using hlt)]
  exact getElem?_set_same hi

theorem getElem?_advance_other {new : List α} (hij : j ≠ i) (hj : pool[j]? = some b) :
    (pool.set i a ++ new)[j]? = some b := by
  have hlt : j < pool.length := (List.getElem?_eq_some_iff.mp hj).1
  rw [List.getElem?_append_left (by simpa using hlt)]
  exact (getElem?_set_other hij).trans hj

/-- An entry that differs from the replaced one stays in the pool. -/
theorem mem_set_of_ne (hi : pool[i]? = some c) (hne : b ≠ c) (hb : b ∈ pool) :
    b ∈ pool.set i a := by
  obtain ⟨j, hj⟩ := List.mem_iff_getElem?.mp hb
  have hji : j ≠ i := by
    rintro rfl
    rw [hi] at hj
    exact hne (Option.some.inj hj).symm
  exact List.mem_iff_getElem?.mpr ⟨j, (getElem?_set_other hji).trans hj⟩

/-- Replacing an entry by one that agrees under `φ` keeps the image of the pool. -/
theorem map_set_same {β : Type*} {φ : α → β} (hi : pool[i]? = some c) (h : φ a = φ c) :
    (pool.set i a).map φ = pool.map φ := by
  obtain ⟨hlt, rfl⟩ := List.getElem?_eq_some_iff.mp hi
  rw [List.map_set, h]
  apply List.ext_getElem?
  intro j
  by_cases hj : j = i
  · subst hj
    simp [hlt]
  · rw [List.getElem?_set_ne (Ne.symm hj)]

theorem lt_of_getElem? (hi : pool[i]? = some c) : i < pool.length :=
  (List.getElem?_eq_some_iff.mp hi).1

end FieldNote.CallPool
