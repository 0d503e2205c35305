import FieldNote.StableSort
import Mathlib.Data.List.Nodup

/-!
# Reconciling a list of rows with a list of records

Every record rewrites the row with its key, or appends a fresh row; afterwards the rows whose
key no record has are dropped. Between rows with distinct keys and records with distinct keys
the result is, up to the order, one row for each record. Sorted by a field that the records
strictly increase in, it is the list of these rows in the order of the records.
-/
namespace FieldNote.Reconciliation

variable {Row Record Key : Type*} [DecidableEq Key] (key : Row → Key) (recordKey : Record → Key)
  (fresh : Record → Row) (merge : Record → Row → Row)

def put (record : Record) : List Row → List Row
  | [] => [fresh record]
  | row :: rest =>
      if key row = recordKey record then merge record row :: rest
      else row :: put record rest

def reconcile (rows : List Row) (records : List Record) : List Row :=
  (records.foldl (fun rows record => put key recordKey fresh merge record rows) rows).filter
    fun row => key row ∈ records.map recordKey

/-- The row with this key. -/
def find (rows : List Row) (k : Key) : Option Row := rows.find? fun row => key row = k

/-- What a record makes of the rows. -/
def image (rows : List Row) (record : Record) : Row :=
  (find key rows (recordKey record)).elim (fresh record) (merge record)

variable {key recordKey fresh merge} {rows : List Row} {records : List Record}

theorem find_eq_some (hrows : (rows.map key).Nodup) {row : Row} {k : Key} :
    find key rows k = some row ↔ row ∈ rows ∧ key row = k := by
  constructor
  · intro h
    exact ⟨List.mem_of_find?_eq_some h, by simpa using List.find?_some h⟩
  · rintro ⟨hrow, rfl⟩
    cases hf : find key rows (key row) with
    | none =>
        have hno := List.find?_eq_none.mp hf row hrow
        simp at hno
    | some found =>
        have hmem : found ∈ rows := List.mem_of_find?_eq_some hf
        have hkey : key found = key row := by simpa using List.find?_some hf
        rw [List.inj_on_of_nodup_map hrows hmem hrow hkey]

theorem mem_keys_put (hfresh : ∀ record, key (fresh record) = recordKey record)
    (hmerge : ∀ record row, key row = recordKey record → key (merge record row) = key row)
    (record : Record) {k : Key} :
    k ∈ (put key recordKey fresh merge record rows).map key ↔
      k ∈ rows.map key ∨ k = recordKey record := by
  induction rows with
  | nil => simp [put, hfresh]
  | cons row rest ih =>
      simp only [put]
      split_ifs with h
      · have hkey := hmerge record row h
        simp only [List.map_cons, List.mem_cons, hkey, h]
        tauto
      · simp only [List.map_cons, List.mem_cons, ih]
        tauto

theorem nodup_put (hfresh : ∀ record, key (fresh record) = recordKey record)
    (hmerge : ∀ record row, key row = recordKey record → key (merge record row) = key row)
    (record : Record) (hrows : (rows.map key).Nodup) :
    ((put key recordKey fresh merge record rows).map key).Nodup := by
  induction rows with
  | nil => simp [put]
  | cons row rest ih =>
      simp only [List.map_cons, List.nodup_cons] at hrows
      obtain ⟨hnew, hrest⟩ := hrows
      simp only [put]
      split_ifs with h
      · simpa [hmerge record row h, hrest] using hnew
      · have hput := ih hrest
        have hother : key row ∉ (put key recordKey fresh merge record rest).map key := by
          rw [mem_keys_put hfresh hmerge]
          tauto
        simpa [hput] using hother

theorem find_put (hfresh : ∀ record, key (fresh record) = recordKey record)
    (hmerge : ∀ record row, key row = recordKey record → key (merge record row) = key row)
    (record : Record) (k : Key) :
    find key (put key recordKey fresh merge record rows) k =
      if k = recordKey record then some (image key recordKey fresh merge rows record)
      else find key rows k := by
  induction rows with
  | nil =>
      have hkey := hfresh record
      by_cases hk : k = recordKey record
      · simp [put, find, image, hkey, hk]
      · simp [put, find, hkey, hk, Ne.symm hk]
  | cons row rest ih =>
      simp only [put]
      by_cases h : key row = recordKey record
      · have hkey := hmerge record row h
        by_cases hk : k = recordKey record
        · simp [h, hk, find, image, hkey]
        · have hne : key row ≠ k := by
            rw [h]
            exact Ne.symm hk
          simp [h, hk, find, hkey, Ne.symm hk]
      · by_cases hrow : key row = k
        · have hk : k ≠ recordKey record := hrow ▸ h
          simp [hk, find, hrow]
        · have htail : find key (row :: put key recordKey fresh merge record rest) k =
              find key (put key recordKey fresh merge record rest) k := by
            simp [find, hrow]
          rw [if_neg h, htail, ih]
          simp [find, image, hrow, h]

/-- A record that its row holds already. -/
theorem put_same {record : Record} (hthere : ∃ row ∈ rows, key row = recordKey record)
    (hkept : ∀ row ∈ rows, key row = recordKey record → merge record row = row) :
    put key recordKey fresh merge record rows = rows := by
  induction rows with
  | nil =>
      obtain ⟨row, hrow, -⟩ := hthere
      cases hrow
  | cons first rest ih =>
      simp only [List.forall_mem_cons] at hkept
      obtain ⟨hfirst, hrest⟩ := hkept
      simp only [put]
      split_ifs with h
      · rw [hfirst h]
      · obtain ⟨row, hrow, hkey⟩ := hthere
        rcases List.mem_cons.mp hrow with rfl | hlater
        · exact (h hkey).elim
        · rw [ih ⟨row, hlater, hkey⟩ hrest]

/-- What holds of the rows, of fresh rows and of rewritten rows holds afterwards. -/
theorem forall_reconcile {P : Row → Prop} (hfresh : ∀ record, P (fresh record))
    (hmerge : ∀ record row, P row → P (merge record row)) (h : ∀ row ∈ rows, P row) :
    ∀ row ∈ reconcile key recordKey fresh merge rows records, P row := by
  have hput : ∀ (record : Record) (rows : List Row), (∀ row ∈ rows, P row) →
      ∀ row ∈ put key recordKey fresh merge record rows, P row := by
    intro record rows h
    induction rows with
    | nil => simpa [put] using hfresh record
    | cons first rest ih =>
        simp only [List.forall_mem_cons] at h
        obtain ⟨hfirst, hrest⟩ := h
        simp only [put]
        split_ifs
        · exact List.forall_mem_cons.mpr ⟨hmerge record first hfirst, hrest⟩
        · exact List.forall_mem_cons.mpr ⟨hfirst, ih hrest⟩
  have hfold : ∀ row ∈ records.foldl (fun rows record => put key recordKey fresh merge record rows)
      rows, P row := by
    induction records generalizing rows with
    | nil => exact h
    | cons record rest ih => exact ih (hput record rows h)
  intro row hrow
  exact hfold row (List.mem_of_mem_filter hrow)

section Fold

variable (hfresh : ∀ record, key (fresh record) = recordKey record)
  (hmerge : ∀ record row, key row = recordKey record → key (merge record row) = key row)
include hfresh hmerge

theorem nodup_foldl (hrows : (rows.map key).Nodup) :
    ((records.foldl (fun rows record => put key recordKey fresh merge record rows) rows).map
      key).Nodup := by
  induction records generalizing rows with
  | nil => exact hrows
  | cons record rest ih => exact ih (nodup_put hfresh hmerge record hrows)

/-- The rows keep distinct keys. -/
theorem nodup_reconcile (hrows : (rows.map key).Nodup) :
    ((reconcile key recordKey fresh merge rows records).map key).Nodup :=
  (nodup_foldl hfresh hmerge hrows).sublist (List.filter_sublist.map key)

/-- A key that no further record has finds the row it found before. -/
theorem find_foldl_other {k : Key} (hk : k ∉ records.map recordKey) :
    find key (records.foldl (fun rows record => put key recordKey fresh merge record rows) rows) k =
      find key rows k := by
  induction records generalizing rows with
  | nil => rfl
  | cons record rest ih =>
      simp only [List.map_cons, List.mem_cons, not_or] at hk
      obtain ⟨hne, hrest⟩ := hk
      rw [List.foldl_cons, ih hrest, find_put hfresh hmerge, if_neg hne]

theorem find_foldl (hrecords : (records.map recordKey).Nodup) {record : Record}
    (hrecord : record ∈ records) :
    find key (records.foldl (fun rows record => put key recordKey fresh merge record rows) rows)
      (recordKey record) = some (image key recordKey fresh merge rows record) := by
  induction records generalizing rows with
  | nil => cases hrecord
  | cons first rest ih =>
      simp only [List.map_cons, List.nodup_cons] at hrecords
      obtain ⟨hfirst, hrest⟩ := hrecords
      rw [List.foldl_cons]
      rcases List.mem_cons.mp hrecord with rfl | hlater
      · rw [find_foldl_other hfresh hmerge hfirst, find_put hfresh hmerge, if_pos rfl]
      · have hne : recordKey record ≠ recordKey first := by
          intro heq
          exact hfirst (heq ▸ List.mem_map_of_mem hlater)
        rw [ih hrest hlater]
        simp [image, find_put hfresh hmerge, hne]

theorem image_key {record : Record} :
    key (image key recordKey fresh merge rows record) = recordKey record := by
  unfold image
  cases hf : find key rows (recordKey record) with
  | none => exact hfresh record
  | some row =>
      have hkey : key row = recordKey record := by simpa using List.find?_some hf
      exact (hmerge record row hkey).trans hkey

theorem mem_reconcile (hrows : (rows.map key).Nodup) (hrecords : (records.map recordKey).Nodup)
    {row : Row} :
    row ∈ reconcile key recordKey fresh merge rows records ↔
      row ∈ records.map (image key recordKey fresh merge rows) := by
  have hnodup : ((records.foldl (fun rows record => put key recordKey fresh merge record rows)
      rows).map key).Nodup := nodup_foldl hfresh hmerge hrows
  have hfind : ∀ record ∈ records,
      find key (records.foldl (fun rows record => put key recordKey fresh merge record rows) rows)
        (recordKey record) = some (image key recordKey fresh merge rows record) :=
    fun record hrecord => find_foldl hfresh hmerge hrecords hrecord
  simp only [reconcile, List.mem_filter, List.mem_map, decide_eq_true_eq]
  constructor
  · rintro ⟨hrow, record, hrecord, hkey⟩
    refine ⟨record, hrecord, ?_⟩
    have hfound := hfind record hrecord
    have hrow' := (find_eq_some hnodup).mpr ⟨hrow, hkey.symm⟩
    exact Option.some.inj (hfound.symm.trans hrow')
  · rintro ⟨record, hrecord, rfl⟩
    have hfound := hfind record hrecord
    exact ⟨((find_eq_some hnodup).mp hfound).1, record, hrecord, (image_key hfresh hmerge).symm⟩

/-- Up to the order there is one row for each record. -/
theorem reconcile_perm (hrows : (rows.map key).Nodup)
    (hrecords : (records.map recordKey).Nodup) :
    (reconcile key recordKey fresh merge rows records).Perm
      (records.map (image key recordKey fresh merge rows)) := by
  have himages : (records.map (image key recordKey fresh merge rows)).Nodup := by
    apply List.Nodup.of_map key
    have hkeys : (records.map (image key recordKey fresh merge rows)).map key =
        records.map recordKey := by
      simp [Function.comp_def, image_key hfresh hmerge]
    rw [hkeys]
    exact hrecords
  rw [List.perm_ext_iff_of_nodup (nodup_reconcile hfresh hmerge hrows).of_map himages]
  exact fun row => mem_reconcile hfresh hmerge hrows hrecords

/-- Reconciling a second time with the same records changes nothing, provided a record rewrites
the row that it has made into itself. -/
theorem reconcile_again (hrows : (rows.map key).Nodup) (hrecords : (records.map recordKey).Nodup)
    (hagain : ∀ record ∈ records, merge record (image key recordKey fresh merge rows record) =
      image key recordKey fresh merge rows record) :
    reconcile key recordKey fresh merge (reconcile key recordKey fresh merge rows records) records =
      reconcile key recordKey fresh merge rows records := by
  have hmem : ∀ row, row ∈ reconcile key recordKey fresh merge rows records ↔
      row ∈ records.map (image key recordKey fresh merge rows) :=
    fun _ => mem_reconcile hfresh hmerge hrows hrecords
  generalize reconcile key recordKey fresh merge rows records = made at hmem
  have hput : ∀ record ∈ records, put key recordKey fresh merge record made = made := by
    intro record hrecord
    have hthere : ∃ row ∈ made, key row = recordKey record :=
      ⟨_, (hmem _).mpr (List.mem_map_of_mem hrecord), image_key hfresh hmerge⟩
    have hkept : ∀ row ∈ made, key row = recordKey record → merge record row = row := by
      intro row hrow hkey
      obtain ⟨other, hother, rfl⟩ := List.mem_map.mp ((hmem row).mp hrow)
      rw [image_key hfresh hmerge] at hkey
      obtain rfl := List.inj_on_of_nodup_map hrecords hother hrecord hkey
      exact hagain other hother
    exact put_same hthere hkept
  have hfold : records.foldl (fun rows record => put key recordKey fresh merge record rows) made =
      made := by
    clear hmem hrecords hagain
    induction records with
    | nil => rfl
    | cons first rest ih =>
        rw [List.foldl_cons, hput first List.mem_cons_self]
        exact ih fun record hrecord => hput record (List.mem_cons_of_mem _ hrecord)
  unfold reconcile
  rw [hfold, List.filter_eq_self]
  intro row hrow
  obtain ⟨record, hrecord, rfl⟩ := List.mem_map.mp ((hmem row).mp hrow)
  rw [image_key hfresh hmerge]
  exact decide_eq_true (List.mem_map_of_mem hrecord)

/-- Sorted by a field that the records strictly increase in, the rows are in the order of the
records. -/
theorem sort_reconcile {order : Row → ℕ} {recordOrder : Record → ℕ}
    (horder : ∀ record, order (image key recordKey fresh merge rows record) = recordOrder record)
    (hrows : (rows.map key).Nodup) (hrecords : (records.map recordKey).Nodup)
    (hsorted : records.Pairwise fun a b => recordOrder a < recordOrder b) :
    (reconcile key recordKey fresh merge rows records).insertionSort
      (fun a b => order a ≤ order b) = records.map (image key recordKey fresh merge rows) := by
  have hstrict : (records.map (image key recordKey fresh merge rows)).Pairwise
      fun a b => order a < order b := by
    simpa [List.pairwise_map, horder] using hsorted
  exact StableSort.insertionSort_of_perm (reconcile_perm hfresh hmerge hrows hrecords) hstrict

end Fold

end FieldNote.Reconciliation
