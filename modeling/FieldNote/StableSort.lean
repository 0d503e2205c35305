import Mathlib.Data.List.Sort

/-!
# Sorting by a key

A sort by a key keeps the items, orders their keys and leaves items of one key in the order
in which they came. With keys that are all different the order of the input does not matter.
-/
namespace FieldNote.StableSort

variable {α β κ : Type*} [LinearOrder κ]

/-- `ys` is `xs`, stably sorted by `key`. -/
structure Sorts (key : α → κ) (xs ys : List α) : Prop where
  perm : ys.Perm xs
  sorted : ys.Pairwise fun a b => key a ≤ key b
  stable : ∀ k, ys.filter (fun a => key a = k) = xs.filter fun a => key a = k

variable {key : α → κ} {xs ys zs : List α}

theorem pairwise_insertionSort (key : α → κ) (xs : List α) :
    (xs.insertionSort fun a b => key a ≤ key b).Pairwise fun a b => key a ≤ key b := by
  have htotal : Std.Total fun a b : α => key a ≤ key b := ⟨fun a b => le_total (key a) (key b)⟩
  have htrans : IsTrans α fun a b => key a ≤ key b := ⟨fun _ _ _ => le_trans⟩
  exact List.pairwise_insertionSort _ _

/-- The items of one key are a sorted sublist, so sorting keeps their order. -/
theorem filter_insertionSort (key : α → κ) (xs : List α) (k : κ) :
    (xs.insertionSort fun a b => key a ≤ key b).filter (fun a => key a = k) =
      xs.filter fun a => key a = k := by
  have htotal : Std.Total fun a b : α => key a ≤ key b := ⟨fun a b => le_total (key a) (key b)⟩
  have htrans : IsTrans α fun a b => key a ≤ key b := ⟨fun _ _ _ => le_trans⟩
  have hequal : (xs.filter fun a => key a = k).Pairwise fun a b => key a ≤ key b := by
    refine List.pairwise_of_forall_mem_list fun a ha b hb => ?_
    have hka : key a = k := by simpa using (List.mem_filter.mp ha).2
    have hkb : key b = k := by simpa using (List.mem_filter.mp hb).2
    exact (hka.trans hkb.symm).le
  have hsub := (List.sublist_insertionSort hequal (List.filter_sublist (l := xs))).filter
    fun a => decide (key a = k)
  rw [List.filter_filter] at hsub
  simp only [Bool.and_self] at hsub
  exact (hsub.eq_of_length ((List.perm_insertionSort _ xs).filter _).length_eq.symm).symm

theorem sorts_insertionSort (key : α → κ) (xs : List α) :
    Sorts key xs (xs.insertionSort fun a b => key a ≤ key b) :=
  ⟨List.perm_insertionSort _ xs, pairwise_insertionSort key xs, filter_insertionSort key xs⟩

/-- Sorting by a key commutes with a map that keeps the key. -/
theorem map_insertionSort (key : α → κ) (key' : β → κ) (f : α → β)
    (hkey : ∀ a, key' (f a) = key a) (xs : List α) :
    (xs.insertionSort fun a b => key a ≤ key b).map f =
      (xs.map f).insertionSort fun a b => key' a ≤ key' b := by
  refine List.map_insertionSort _ _ f xs fun a _ b _ => ?_
  rw [hkey, hkey]

/-- Rows whose keys are all different are brought into one order, in whatever order they
come. -/
theorem insertionSort_of_perm (hperm : ys.Perm xs) (hsorted : xs.Pairwise fun a b => key a < key b) :
    (ys.insertionSort fun a b => key a ≤ key b) = xs := by
  refine List.Perm.eq_of_pairwise ?_ (pairwise_insertionSort key ys)
    (hsorted.imp fun h => h.le) ((List.perm_insertionSort _ ys).trans hperm)
  intro a b ha hb hab hba
  have hkeys : (xs.map key).Nodup := (List.pairwise_map.mpr hsorted).imp ne_of_lt
  have hmem : ∀ c ∈ ys.insertionSort fun a b => key a ≤ key b, c ∈ xs := fun c hc =>
    hperm.subset ((List.mem_insertionSort _).mp hc)
  exact List.inj_on_of_nodup_map hkeys (hmem a ha) hb (le_antisymm hab hba)

end FieldNote.StableSort
