import FieldNote.CallPool
import Mathlib.Data.List.Basic

/-!
# Entries of a pool that a predicate selects

The selected entries, in order, are a pool of their own: the `k`-th of them stands at
`findIdxNth p k` of the whole pool, and the entry at `i` is number `countPBefore p i`. A
replacement that keeps the predicate and a start of new entries act on the selection alone.
-/
namespace FieldNote.Selections

variable {α : Type*} {p : α → Bool} {xs ys : List α} {i j k : ℕ} {x y : α}

/-- The selection around one of the positions of the pool. -/
theorem filter_around (hi : xs[i]? = some x) :
    xs.filter p = (xs.take i).filter p ++ (x :: xs.drop (i + 1)).filter p := by
  obtain ⟨hlt, rfl⟩ := List.getElem?_eq_some_iff.mp hi
  rw [← List.drop_eq_getElem_cons hlt, ← List.filter_append, List.take_append_drop]

theorem filter_set_around (hi : xs[i]? = some x) :
    (xs.set i y).filter p = (xs.take i).filter p ++ (y :: xs.drop (i + 1)).filter p := by
  rw [List.set_eq_take_append_cons_drop, if_pos (CallPool.lt_of_getElem? hi), List.filter_append]

theorem countPBefore_eq : xs.countPBefore p i = ((xs.take i).filter p).length := by
  rw [List.countPBefore_eq_countP_take, List.countP_eq_length_filter]

/-- The number of a selected entry is its place in the selection. -/
theorem getElem?_filter (hi : xs[i]? = some x) (hx : p x = true) :
    (xs.filter p)[xs.countPBefore p i]? = some x := by
  rw [countPBefore_eq, filter_around hi, List.filter_cons_of_pos hx,
    List.getElem?_append_right (Nat.le_refl _), Nat.sub_self, List.getElem?_cons_zero]

theorem filter_set (hi : xs[i]? = some x) (hx : p x = true) (hy : p y = true) :
    (xs.set i y).filter p = (xs.filter p).set (xs.countPBefore p i) y := by
  rw [countPBefore_eq, filter_set_around hi, filter_around hi, List.filter_cons_of_pos hx,
    List.filter_cons_of_pos hy, List.set_append_right _ _ (Nat.le_refl _), Nat.sub_self,
    List.set_cons_zero]

theorem filter_set_other (hi : xs[i]? = some x) (hx : p x = false) (hy : p y = false) :
    (xs.set i y).filter p = xs.filter p := by
  rw [filter_set_around hi, filter_around hi]
  simp [hx, hy]

theorem countPBefore_set (hi : xs[i]? = some x) (hxy : p y = p x) :
    (xs.set i y).countPBefore p j = xs.countPBefore p j := by
  rw [List.countPBefore_eq_countP_take, List.countPBefore_eq_countP_take, List.take_set]
  by_cases hij : i < j
  · have hlt : i < (xs.take j).length := by
      have := CallPool.lt_of_getElem? hi
      simp only [List.length_take]
      omega
    have hget : (xs.take j)[i] = x := by
      rw [List.getElem_take]
      exact (List.getElem?_eq_some_iff.mp hi).2
    rw [List.countP_set hlt, hget, hxy]
    have hpos : p x = true → 0 < (xs.take j).countP p := by
      intro hx
      rw [List.countP_pos_iff]
      exact ⟨x, hget ▸ List.getElem_mem hlt, hx⟩
    split_ifs with hx
    · have := hpos hx
      omega
    · omega
  · rw [List.set_eq_of_length_le (by simp only [List.length_take]; omega)]

theorem countPBefore_append (hj : j ≤ xs.length) :
    (xs ++ ys).countPBefore p j = xs.countPBefore p j := by
  rw [List.countPBefore_eq_countP_take, List.countPBefore_eq_countP_take,
    List.take_append_of_le_length hj]

/-- Where the `k`-th selected entry stands. -/
theorem findIdxNth_eq (hi : xs[xs.findIdxNth p k]? = some x) :
    p x = true ∧ xs.countPBefore p (xs.findIdxNth p k) = k := by
  obtain ⟨hlt, rfl⟩ := List.getElem?_eq_some_iff.mp hi
  exact ⟨List.pos_findIdxNth_getElem,
    List.countPBefore_findIdxNth_of_lt_countP (List.findIdxNth_lt_length_iff.mp hlt)⟩

/-- In a pool of selected entries every number is the position. -/
theorem findIdxNth_all (hall : ∀ x ∈ xs, p x = true) (hk : xs[k]? = some x) :
    xs.findIdxNth p k = k := by
  obtain ⟨hlt, rfl⟩ := List.getElem?_eq_some_iff.mp hk
  have hcount : xs.countPBefore p k = k := by
    have htake : ∀ x ∈ xs.take k, p x = true := fun x hx => hall x (List.mem_of_mem_take hx)
    rw [List.countPBefore_eq_countP_take, List.countP_eq_length.mpr htake,
      List.length_take_of_le (Nat.le_of_lt hlt)]
  have hnth := List.findIdxNth_countPBefore_of_lt_length_of_pos (hall _ (List.getElem_mem hlt))
  rwa [hcount] at hnth

end FieldNote.Selections
