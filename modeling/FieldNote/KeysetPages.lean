import Mathlib.Data.List.Sort
import Mathlib.Order.Lattice

/-!
# Pages of a sorted list

Rows listed in descending order of a key, and pages cut from the rows below a position. A
page is a prefix: it holds every row that is not below one of its own, and when it is not
full it holds them all.
-/
namespace FieldNote.KeysetPages

variable {α κ : Type*} [LinearOrder κ] (key : α → κ)

/-- Descending order of the keys, all different. -/
def Desc (rows : List α) : Prop := rows.Pairwise fun a b => key b < key a

def listing (rows : List α) : List α := rows.insertionSort fun a b => key b ≤ key a

variable {key} {rows rest : List α} {x y : α} {n : ℕ}

theorem mem_listing : x ∈ listing key rows ↔ x ∈ rows := List.mem_insertionSort _

theorem listing_desc (h : (rows.map key).Nodup) : Desc key (listing key rows) := by
  have hsorted : (listing key rows).Pairwise fun a b => key b ≤ key a :=
    List.pairwise_insertionSort (fun a b => key b ≤ key a) rows
  have hnodup : ((listing key rows).map key).Nodup :=
    ((List.perm_insertionSort _ rows).map key).nodup_iff.mpr h
  have hne : (listing key rows).Pairwise fun a b => key a ≠ key b :=
    List.pairwise_map.mp hnodup
  exact (hsorted.and hne).imp fun h => lt_of_le_of_ne h.1 h.2.symm

theorem Desc.filter (h : Desc key rows) (p : α → Bool) : Desc key (rows.filter p) :=
  List.Pairwise.filter p h

theorem Desc.take (h : Desc key rows) (n : ℕ) : Desc key (rows.take n) :=
  List.Pairwise.take h

/-- A row that is not below a row of the page is on the page. -/
theorem Desc.mem_take (h : Desc key rows) (hy : y ∈ rows.take n) (hx : x ∈ rows)
    (hle : key y ≤ key x) : x ∈ rows.take n := by
  rw [← List.take_append_drop n rows] at h hx
  rcases List.mem_append.mp hx with hx | hx
  · exact hx
  · have hlt := (List.pairwise_append.mp h).2.2 y hy x hx
    exact (not_lt_of_ge hle hlt).elim

/-- A page that is not full is the last one. -/
theorem take_all (h : (rows.take n).length ≠ n) : rows.take n = rows := by
  rw [List.length_take] at h
  exact List.take_of_length_le (by omega)

/-- Skipping one row skips the cursor, if the cursor is listed. -/
theorem Desc.drop_cursor (h : Desc key rows) (hx : x ∈ rows) :
    (rows.filter fun y => key y ≤ key x).drop 1 = rows.filter fun y => key y < key x := by
  induction rows with
  | nil => cases hx
  | cons a rows ih =>
      obtain ⟨hfirst, hrest⟩ := List.pairwise_cons.mp h
      rcases List.mem_cons.mp hx with rfl | hx
      · have hbelow : ∀ y ∈ rows, key y < key x := hfirst
        rw [List.filter_cons_of_pos (by simp), List.filter_cons_of_neg (by simp), List.drop_one,
          List.tail_cons]
        apply List.filter_congr
        intro y hy
        simp [hbelow y hy, (hbelow y hy).le]
      · have hlt := hfirst x hx
        rw [List.filter_cons_of_neg (by simpa using hlt), List.filter_cons_of_neg (by
          simpa using hlt.le), ih hrest hx]

/-- Below a row there is what follows it. -/
theorem Desc.filter_below {above below : List α} (h : Desc key (above ++ x :: below)) :
    (above ++ x :: below).filter (fun y => key y < key x) = below := by
  obtain ⟨-, htail, hcross⟩ := List.pairwise_append.mp h
  have habove : above.filter (fun y => key y < key x) = [] := by
    rw [List.filter_eq_nil_iff]
    intro y hy
    simpa using (hcross y hy x (by simp)).le
  have hbelow : below.filter (fun y => key y < key x) = below := by
    rw [List.filter_eq_self]
    intro y hy
    simpa using List.rel_of_pairwise_cons htail hy
  rw [List.filter_append, List.filter_cons_of_neg (by simp), habove, hbelow, List.nil_append]

end FieldNote.KeysetPages
