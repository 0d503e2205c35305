import Mathlib.Data.List.Nodup

/-!
# Tables with a unique key

A table is a list of rows whose keys are pairwise distinct; the uniqueness constraint is
a field, so a table that violates it cannot be built. The operations are the ones a
relational client issues: lookup by the key, an update of all rows a predicate selects,
an update of one row, a deletion, and an insertion that fails on a duplicate key.
-/
namespace FieldNote

structure Table (Row Key : Type*) (key : Row → Key) where
  rows : List Row
  nodup : (rows.map key).Nodup

namespace Table

variable {Row Key : Type*} {key : Row → Key}

def empty : Table Row Key key := ⟨[], List.nodup_nil⟩

instance : EmptyCollection (Table Row Key key) := ⟨empty⟩

@[ext] theorem ext {t t' : Table Row Key key} (h : t.rows = t'.rows) : t = t' := by
  cases t
  cases t'
  cases h
  rfl

@[simp] theorem rows_empty : (∅ : Table Row Key key).rows = [] := rfl

/-- Rewrites every selected row in place; the rewriting keeps the key. -/
def updateMany (t : Table Row Key key) (p : Row → Bool) (f : Row → Row)
    (hf : ∀ r, key (f r) = key r) : Table Row Key key where
  rows := t.rows.map fun r => if p r then f r else r
  nodup := by
    have h : key ∘ (fun r => if p r then f r else r) = key := by
      funext r
      by_cases hp : p r <;> simp [hp, hf]
    simpa [List.map_map, h] using t.nodup

@[simp] theorem mem_updateMany {t : Table Row Key key} {p : Row → Bool} {f : Row → Row}
    {hf : ∀ r, key (f r) = key r} {r : Row} :
    r ∈ (t.updateMany p f hf).rows ↔ ∃ r₀ ∈ t.rows, (if p r₀ then f r₀ else r₀) = r := by
  simp [updateMany]

/-- The rows that a predicate selects. -/
def filter (t : Table Row Key key) (p : Row → Bool) : Table Row Key key where
  rows := t.rows.filter p
  nodup := t.nodup.sublist (List.filter_sublist.map key)

variable [DecidableEq Key]

def findUnique (t : Table Row Key key) (k : Key) : Option Row :=
  t.rows.find? fun r => key r = k

def update (t : Table Row Key key) (k : Key) (f : Row → Row)
    (hf : ∀ r, key (f r) = key r) : Table Row Key key :=
  t.updateMany (fun r => key r = k) f hf

/-- `none` when the key is taken. -/
def create (t : Table Row Key key) (r : Row) : Option (Table Row Key key) :=
  if h : key r ∈ t.rows.map key then none
  else some ⟨t.rows ++ [r], by
    rw [List.map_append, List.nodup_append]
    refine ⟨t.nodup, by simp, ?_⟩
    intro a ha b hb
    simp only [List.map_cons, List.map_nil, List.mem_singleton] at hb
    rintro rfl
    exact h (hb ▸ ha)⟩

def delete (t : Table Row Key key) (k : Key) : Table Row Key key where
  rows := t.rows.filter fun r => key r ≠ k
  nodup := t.nodup.sublist (List.filter_sublist.map key)

@[simp] theorem findUnique_empty (k : Key) :
    (∅ : Table Row Key key).findUnique k = none := rfl

theorem findUnique_eq_some {t : Table Row Key key} {k : Key} {r : Row} :
    t.findUnique k = some r ↔ r ∈ t.rows ∧ key r = k := by
  constructor
  · intro h
    exact ⟨List.mem_of_find?_eq_some h, by simpa using List.find?_some h⟩
  · rintro ⟨hr, rfl⟩
    cases hf : t.findUnique (key r) with
    | none =>
        have := List.find?_eq_none.mp hf r hr
        simp at this
    | some r' =>
        have hk : key r' = key r := by simpa using List.find?_some hf
        have hmem : r' ∈ t.rows := List.mem_of_find?_eq_some hf
        rw [List.inj_on_of_nodup_map t.nodup hmem hr hk]

theorem findUnique_key {t : Table Row Key key} {k : Key} {r : Row}
    (h : t.findUnique k = some r) : key r = k := (findUnique_eq_some.mp h).2

theorem findUnique_of_mem {t : Table Row Key key} {r : Row} (h : r ∈ t.rows) :
    t.findUnique (key r) = some r := findUnique_eq_some.mpr ⟨h, rfl⟩

theorem findUnique_eq_none {t : Table Row Key key} {k : Key} :
    t.findUnique k = none ↔ ∀ r ∈ t.rows, key r ≠ k := by
  simp [findUnique]

@[simp] theorem findUnique_updateMany (t : Table Row Key key) (p : Row → Bool)
    (f : Row → Row) (hf : ∀ r, key (f r) = key r) (k : Key) :
    (t.updateMany p f hf).findUnique k =
      (t.findUnique k).map fun r => if p r then f r else r := by
  have hkey : (fun r => decide (key (if p r then f r else r) = k)) =
      fun r => decide (key r = k) := by
    funext r
    by_cases hp : p r <;> simp [hp, hf]
  unfold findUnique updateMany
  rw [List.find?_map]
  simp only [Function.comp_def, hkey]

@[simp] theorem findUnique_update (t : Table Row Key key) (k k' : Key)
    (f : Row → Row) (hf : ∀ r, key (f r) = key r) :
    (t.update k f hf).findUnique k' =
      if k' = k then (t.findUnique k').map f else t.findUnique k' := by
  unfold update
  rw [findUnique_updateMany]
  split_ifs with h
  · cases hr : t.findUnique k' with
    | none => rfl
    | some r => simp [findUnique_key hr, h]
  · cases hr : t.findUnique k' with
    | none => rfl
    | some r => simp [findUnique_key hr, h]

@[simp] theorem findUnique_delete (t : Table Row Key key) (k k' : Key) :
    (t.delete k).findUnique k' = if k' = k then none else t.findUnique k' := by
  unfold findUnique delete
  rw [List.find?_filter]
  split_ifs with h
  · subst h
    rw [List.find?_eq_none]
    simp
  · congr 1
    funext r
    by_cases hr : key r = k' <;> simp [hr, h]

theorem create_eq_some {t t' : Table Row Key key} {r : Row} (h : t.create r = some t') :
    t.findUnique (key r) = none ∧ t'.rows = t.rows ++ [r] := by
  unfold create at h
  split_ifs at h with hk
  cases h
  refine ⟨findUnique_eq_none.mpr ?_, rfl⟩
  intro r' hr' he
  exact hk (he ▸ List.mem_map_of_mem hr')

theorem create_findUnique {t t' : Table Row Key key} {r : Row} (h : t.create r = some t')
    (k : Key) :
    t'.findUnique k = if k = key r then some r else t.findUnique k := by
  obtain ⟨hnone, hrows⟩ := create_eq_some h
  split_ifs with hk
  · subst hk
    exact findUnique_eq_some.mpr ⟨by simp [hrows], rfl⟩
  · unfold findUnique
    rw [hrows, List.find?_append]
    have hlast : List.find? (fun r' => decide (key r' = k)) [r] = none := by
      simp [Ne.symm hk]
    rw [hlast, Option.or_none]

theorem create_isSome {t : Table Row Key key} {r : Row} (h : t.findUnique (key r) = none) :
    ∃ t', t.create r = some t' := by
  unfold create
  split_ifs with hk
  · obtain ⟨r', hr', he⟩ := List.mem_map.mp hk
    exact (findUnique_eq_none.mp h r' hr' he).elim
  · exact ⟨_, rfl⟩

theorem findUnique_filter (t : Table Row Key key) (p : Row → Bool) (k : Key) :
    (t.filter p).findUnique k = (t.findUnique k).filter p := by
  apply Option.ext
  intro r
  rw [findUnique_eq_some, Option.filter_eq_some_iff, findUnique_eq_some]
  simp only [filter, List.mem_filter]
  tauto

/-- An update that keeps the predicate acts on the selected rows alone. -/
theorem update_filter (t : Table Row Key key) (k : Key) {p : Row → Bool} {f : Row → Row}
    (hf : ∀ r, key (f r) = key r) (hp : ∀ r, p (f r) = p r) :
    (t.update k f hf).filter p = (t.filter p).update k f hf := by
  apply ext
  simp only [filter, update, updateMany, List.filter_map]
  congr 1
  apply List.filter_congr
  intro r _
  simp only [Function.comp_apply]
  split_ifs
  · exact hp r
  · rfl

/-- An update depends only on what it makes of the row with the key. -/
theorem update_congr {t : Table Row Key key} {k : Key} {f g : Row → Row}
    (hf : ∀ r, key (f r) = key r) (hg : ∀ r, key (g r) = key r)
    (h : ∀ r, t.findUnique k = some r → f r = g r) : t.update k f hf = t.update k g hg := by
  apply ext
  simp only [update, updateMany]
  apply List.map_congr_left
  intro r hr
  split_ifs with hk
  · exact h r (findUnique_eq_some.mpr ⟨hr, by simpa using hk⟩)
  · rfl

theorem update_self {t : Table Row Key key} {k : Key} {f : Row → Row}
    (hf : ∀ r, key (f r) = key r) (h : ∀ r, t.findUnique k = some r → f r = r) :
    t.update k f hf = t := by
  rw [update_congr hf (g := id) (fun _ => rfl) h]
  apply ext
  simp [update, updateMany]

theorem create_filter {t t' : Table Row Key key} {p : Row → Bool} {r : Row}
    (h : t.create r = some t') (hp : p r = true) :
    (t.filter p).create r = some (t'.filter p) := by
  obtain ⟨hfree, hrows⟩ := create_eq_some h
  have hfree' : (t.filter p).findUnique (key r) = none := by
    rw [findUnique_filter, hfree]
    rfl
  obtain ⟨t₁, ht₁⟩ := create_isSome hfree'
  rw [ht₁]
  congr 1
  apply ext
  rw [(create_eq_some ht₁).2]
  simp only [filter, hrows, List.filter_append, List.filter_cons_of_pos hp, List.filter_nil]

theorem create_filter_other {t t' : Table Row Key key} {p : Row → Bool} {r : Row}
    (h : t.create r = some t') (hp : p r = false) : t'.filter p = t.filter p := by
  apply ext
  simp only [filter, (create_eq_some h).2, List.filter_append,
    List.filter_cons_of_neg (Bool.not_eq_true _ ▸ hp), List.filter_nil, List.append_nil]

end Table
end FieldNote
