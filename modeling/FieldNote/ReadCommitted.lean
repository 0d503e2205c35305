import FieldNote.CallPool
import Mathlib.Data.List.Basic

/-!
# Row versions at READ COMMITTED

Tables of row versions under insert and delete statements of concurrent transactions. A
statement sees the versions whose creator had committed when it began, and its own. A delete
waits while another transaction that deleted the version is running, and passes over a
version whose deleter has committed. Versions keep their positions, and a transaction that
aborts leaves its marks behind without effect.
-/
namespace FieldNote.ReadCommitted
open CallPool

inductive Outcome where
  | running
  | committed
  | aborted
deriving DecidableEq, Repr

structure Version (τ ρ : Type*) where
  row : ρ
  creator : τ
  deleter : Option τ
deriving DecidableEq, Repr

/-- The transactions that had committed when a statement began. -/
abbrev Snapshot (τ : Type*) := τ → Bool

variable {τ ρ : Type*}

def snapshot (outcome : τ → Outcome) : Snapshot τ := fun t => outcome t = .committed

/-- What a statement of `me` sees. -/
def Version.visible [DecidableEq τ] (seen : Snapshot τ) (me : τ) (v : Version τ ρ) : Bool :=
  (seen v.creator || v.creator = me) && !(v.deleter.any fun d => seen d || d = me)

/-- The version is part of the committed state. -/
def Version.live (outcome : τ → Outcome) (v : Version τ ρ) : Bool :=
  outcome v.creator = .committed && !(v.deleter.any fun d => outcome d = .committed)

/-- `me` deletes a version that its statement selected; `none` is a wait. -/
def Version.delete [DecidableEq τ] (outcome : τ → Outcome) (me : τ) (v : Version τ ρ) :
    Option (Version τ ρ) :=
  match v.deleter with
  | none => some { v with deleter := some me }
  | some d =>
      if d = me then some v
      else
        match outcome d with
        | .running => none
        | .committed => some v
        | .aborted => some { v with deleter := some me }

/-- The positions of the versions that a statement selects. -/
def matching (table : List (Version τ ρ)) (p : Version τ ρ → Bool) : List ℕ :=
  (List.range table.length).filter fun k => table[k]?.any p

/-- The rows of the committed state, in table order. -/
def liveRows (outcome : τ → Outcome) (table : List (Version τ ρ)) : List ρ :=
  (table.filter (Version.live outcome)).map Version.row

/-- The rows that a transaction has created. -/
def createdBy [DecidableEq τ] (table : List (Version τ ρ)) (t : τ) : List ρ :=
  (table.filter fun v => v.creator = t).map Version.row

/-- The version is deleted for `me`, or for everybody. -/
def Gone (outcome : τ → Outcome) (me : τ) (v : Version τ ρ) : Prop :=
  ∃ d, v.deleter = some d ∧ (d = me ∨ outcome d = .committed)

/-- The later version is the same row, and a deletion that has not been undone stays. -/
structure Keeps (outcome : τ → Outcome) (v v' : Version τ ρ) : Prop where
  row : v'.row = v.row
  creator : v'.creator = v.creator
  deleter : ∀ d, v.deleter = some d → outcome d ≠ .aborted → v'.deleter = some d

/-- What a step makes of a table: versions stay where they are, and running transactions
add versions. -/
structure Later (outcome : τ → Outcome) (table table' : List (Version τ ρ)) : Prop where
  kept : ∀ (k : ℕ) v, table[k]? = some v → ∃ v', table'[k]? = some v' ∧ Keeps outcome v v'
  new : ∀ (k : ℕ) v', table'[k]? = some v' → (∃ v, table[k]? = some v ∧ Keeps outcome v v') ∨
    (outcome v'.creator = .running ∧ v'.deleter = none)

variable {outcome : τ → Outcome} {table table' : List (Version τ ρ)} {v v' : Version τ ρ}
  {me t : τ} {seen : Snapshot τ}

theorem live_iff : v.live outcome = true ↔ outcome v.creator = .committed ∧
    ∀ d, v.deleter = some d → outcome d ≠ .committed := by
  cases hd : v.deleter <;> simp [Version.live, hd]

theorem mem_matching {p : Version τ ρ → Bool} {k : ℕ} :
    k ∈ matching table p ↔ ∃ v, table[k]? = some v ∧ p v = true := by
  simp only [matching, List.mem_filter, List.mem_range, Option.any_eq_true]
  constructor
  · exact fun h => h.2
  · rintro ⟨v, hv, hp⟩
    exact ⟨lt_of_getElem? hv, v, hv, hp⟩

theorem Keeps.refl (v : Version τ ρ) : Keeps outcome v v := ⟨rfl, rfl, fun _ h _ => h⟩

theorem delete_keeps [DecidableEq τ] (h : v.delete outcome me = some v') : Keeps outcome v v' := by
  unfold Version.delete at h
  split at h
  · rename_i hd
    cases h
    exact ⟨rfl, rfl, by simp [hd]⟩
  · rename_i d hd
    split_ifs at h with hme
    · cases h
      exact .refl v
    · split at h
      · cases h
      · cases h
        exact .refl v
      · rename_i hout
        cases h
        refine ⟨rfl, rfl, ?_⟩
        intro d' hd' hne
        rw [hd] at hd'
        cases hd'
        exact (hne hout).elim

/-- A deletion that went through leaves the version deleted, by `me` if it was not before. -/
theorem delete_gone [DecidableEq τ] (h : v.delete outcome me = some v') :
    Gone outcome me v' ∧ (v' = v ∨ v'.deleter = some me) := by
  unfold Version.delete at h
  split at h
  · cases h
    exact ⟨⟨me, rfl, .inl rfl⟩, .inr rfl⟩
  · rename_i d hd
    split_ifs at h with hme
    · cases h
      exact ⟨⟨d, hd, .inl hme⟩, .inl rfl⟩
    · split at h
      · cases h
      · rename_i hout
        cases h
        exact ⟨⟨d, hd, .inr hout⟩, .inl rfl⟩
      · cases h
        exact ⟨⟨me, rfl, .inl rfl⟩, .inr rfl⟩

theorem Gone.keep (h : Gone outcome me v) (hk : Keeps outcome v v')
    (hme : outcome me ≠ .aborted) : Gone outcome me v' := by
  obtain ⟨d, hd, rfl | hout⟩ := h
  · exact ⟨d, hk.deleter d hd hme, .inl rfl⟩
  · exact ⟨d, hk.deleter d hd (by simp [hout]), .inr hout⟩

/-- A version that the statement does not see although its creator had committed is deleted. -/
theorem visible_or_gone [DecidableEq τ] (hseen : seen = snapshot outcome) (hc : seen v.creator = true) :
    v.visible seen me = true ∨ Gone outcome me v := by
  cases hd : v.deleter with
  | none => exact .inl (by simp [Version.visible, hd, hc])
  | some d =>
      by_cases hgone : d = me ∨ outcome d = .committed
      · exact .inr ⟨d, hd, hgone⟩
      · obtain ⟨hme, hout⟩ := not_or.mp hgone
        have hunseen : seen d = false := by simp [hseen, snapshot, hout]
        exact .inl (by simp [Version.visible, hd, hc, hme, hunseen])

theorem Later.refl (table : List (Version τ ρ)) : Later outcome table table :=
  ⟨fun _ v hv => ⟨v, hv, .refl v⟩, fun _ v hv => .inl ⟨v, hv, .refl v⟩⟩

theorem later_set {k : ℕ} (hv : table[k]? = some v) (hk : Keeps outcome v v') :
    Later outcome table (table.set k v') := by
  constructor
  · intro j u hu
    by_cases hjk : j = k
    · subst hjk
      rw [hv] at hu
      cases hu
      exact ⟨v', getElem?_set_same hv, hk⟩
    · exact ⟨u, (getElem?_set_other hjk).trans hu, .refl u⟩
  · intro j u hu
    rcases getElem?_set_cases hu with ⟨rfl, rfl⟩ | ⟨-, hu⟩
    · exact .inl ⟨v, hv, hk⟩
    · exact .inl ⟨u, hu, .refl u⟩

theorem later_append {rows : List ρ} (hrun : outcome t = .running) :
    Later outcome table (table ++ rows.map fun row => ⟨row, t, none⟩) := by
  constructor
  · intro k v hv
    exact ⟨v, by rw [List.getElem?_append_left (lt_of_getElem? hv), hv], .refl v⟩
  · intro k v hv
    by_cases hlt : k < table.length
    · rw [List.getElem?_append_left hlt] at hv
      exact .inl ⟨v, hv, .refl v⟩
    · rw [List.getElem?_append_right (by omega), List.getElem?_map] at hv
      obtain ⟨row, -, rfl⟩ := Option.map_eq_some_iff.mp hv
      exact .inr ⟨hrun, rfl⟩

theorem Later.mem (h : Later outcome table table') (hv : v ∈ table) :
    ∃ v' ∈ table', Keeps outcome v v' := by
  obtain ⟨k, hk⟩ := List.mem_iff_getElem?.mp hv
  obtain ⟨v', hv', hkeep⟩ := h.kept k v hk
  exact ⟨v', List.mem_of_getElem? hv', hkeep⟩

theorem createdBy_set [DecidableEq τ] {k : ℕ} (hv : table[k]? = some v)
    (hk : Keeps outcome v v') : createdBy (table.set k v') t = createdBy table t := by
  have hhead : ∀ l : List (Version τ ρ), createdBy l t =
      (l.map fun v => (v.creator, v.row)).filterMap fun h =>
        if h.1 = t then some h.2 else none := by
    intro l
    simp only [createdBy, List.filterMap_map, ← List.filterMap_eq_filter, List.map_filterMap]
    apply List.filterMap_congr
    intro u _
    by_cases hu : u.creator = t <;> simp [Option.guard, hu]
  rw [hhead, hhead, map_set_same hv (by rw [hk.row, hk.creator])]

theorem createdBy_append [DecidableEq τ] (rows : List ρ) (me : τ) :
    createdBy (table ++ rows.map fun row => ⟨row, me, none⟩) t =
      createdBy table t ++ if me = t then rows else [] := by
  have hnew : ∀ rows : List ρ, createdBy (rows.map fun row => (⟨row, me, none⟩ : Version τ ρ)) t =
      if me = t then rows else [] := by
    intro rows
    induction rows with
    | nil => simp [createdBy]
    | cons row rows ih =>
        simp only [createdBy, List.map_cons, List.filter_cons] at ih ⊢
        split_ifs at ih ⊢ <;> simp_all
  rw [← hnew]
  simp [createdBy]

theorem mem_createdBy [DecidableEq τ] {row : ρ} : row ∈ createdBy table t ↔
    ∃ v ∈ table, v.creator = t ∧ v.row = row := by
  simp [createdBy, and_assoc]

/-- Where the live versions are those of one transaction, the live rows are its rows. -/
theorem liveRows_filter [DecidableEq τ] {p : ρ → Bool}
    (h : ∀ v ∈ table, p v.row = true → (v.live outcome = true ↔ v.creator = t)) :
    (liveRows outcome table).filter p = (createdBy table t).filter p := by
  simp only [liveRows, createdBy, List.filter_map, List.filter_filter]
  congr 1
  apply List.filter_congr
  intro v hv
  show (p v.row && v.live outcome) = (p v.row && decide (v.creator = t))
  cases hp : p v.row with
  | false => rfl
  | true =>
      rw [Bool.true_and, Bool.true_and, Bool.eq_iff_iff, decide_eq_true_eq]
      exact h v hv hp

/-- A version is live exactly when its creator committed and nobody who committed had seen
that, if whoever has seen a version deletes it and nobody else does. -/
theorem live_iff_overlooked {seen : τ → Snapshot τ}
    (swept : ∀ t, outcome t = .committed → seen t v.creator = true → Gone outcome t v)
    (why : ∀ t, outcome t = .committed → v.deleter = some t → seen t v.creator = true) :
    v.live outcome = true ↔ outcome v.creator = .committed ∧
      ∀ t, outcome t = .committed → seen t v.creator = false := by
  rw [live_iff]
  refine and_congr_right fun _ => ⟨?_, ?_⟩
  · intro hlive t ht
    by_contra hs
    obtain ⟨d, hd, rfl | hout⟩ := swept t ht (Bool.not_eq_false _ ▸ hs)
    · exact hlive d hd ht
    · exact hlive d hd hout
  · intro hover d hd hout
    have hs := why d hout hd
    rw [hover d hout] at hs
    cases hs

end FieldNote.ReadCommitted
