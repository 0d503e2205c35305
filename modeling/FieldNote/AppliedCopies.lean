import FieldNote.SyncedTrees

/-!
# Applying a server copy

`apply` over a store whose ids are unique: the fields that the server owns are always taken
over, and a job without a later local edit takes over the rest, its tree reconciled at both
levels into exactly the copy's. Applying the copy again changes nothing.
-/
namespace FieldNote.JobStore
open Reconciliation

/-- `apply`: an upsert, saved. -/
def apply (cache : Cache) (dto : JobDto) : Cache := upsert cache dto

/-- No id stands under two parents, or twice under one. -/
structure StoreUnique (cache : Cache) : Prop where
  trees : ∀ job ∈ cache.rows, UniqueIds job.sections
  sections : ∀ job ∈ cache.rows, ∀ job' ∈ cache.rows, ∀ s ∈ job.sections, ∀ s' ∈ job'.sections,
    s.id = s'.id → job.id = job'.id
  findings : ∀ job ∈ cache.rows, ∀ job' ∈ cache.rows, ∀ s ∈ job.sections, ∀ s' ∈ job'.sections,
    ∀ f ∈ s.findings, ∀ f' ∈ s'.findings, f.id = f'.id → job.id = job'.id ∧ s.id = s'.id

/-- The ids of a copy are distinct, and the store has none of them under another parent. -/
structure Fits (cache : Cache) (dto : JobDto) : Prop where
  ids : UniqueIds dto.sections
  findings : ∀ s ∈ dto.sections, ∀ s' ∈ dto.sections, ∀ f ∈ s.findings, ∀ f' ∈ s'.findings,
    f.id = f'.id → s.id = s'.id
  sectionsFree : ∀ job ∈ cache.rows, ∀ s ∈ job.sections, ∀ s' ∈ dto.sections,
    s.id = s'.id → job.id = dto.id
  findingsFree : ∀ job ∈ cache.rows, ∀ s ∈ job.sections, ∀ s' ∈ dto.sections,
    ∀ f ∈ s.findings, ∀ f' ∈ s'.findings, f.id = f'.id → job.id = dto.id ∧ s.id = s'.id

/-- The same section, with its findings in some order. -/
structure SameSection (a b : SectionDto) : Prop where
  id : a.id = b.id
  title : a.title = b.title
  sortOrder : a.sortOrder = b.sortOrder
  findings : a.findings.Perm b.findings

/-- The same sections under one parent, in some order at both levels. -/
def SameTree (tree dtos : List SectionDto) : Prop :=
  ∃ sections, tree.Perm sections ∧ List.Forall₂ SameSection sections dtos

/-- The fields that are never edited on the device. -/
structure TakesServerFields (dto : JobDto) (job : CachedJob) : Prop where
  status : job.status = dto.status
  transcript : job.transcript = dto.transcript
  errorMessage : job.errorMessage = dto.errorMessage
  pdfUrl : job.pdfUrl = dto.pdfUrl

structure KeepsEdit (old job : CachedJob) : Prop where
  label : job.label = old.label
  sections : job.sections = old.sections
  updatedAt : job.updatedAt = old.updatedAt
  syncState : job.syncState = old.syncState

structure TakesCopy (dto : JobDto) (job : CachedJob) : Prop where
  label : job.label = dto.label
  updatedAt : job.updatedAt = dto.updatedAt
  syncState : job.syncState = .synced
  tree : SameTree job.sections dto.sections

/-- The cached job has an edit that is later than the copy. -/
def EditIsLater (cache : Cache) (dto : JobDto) : Prop :=
  ∃ old, cache.findUnique dto.id = some old ∧ old.syncState = .dirty ∧ dto.updatedAt < old.updatedAt

variable {cache : Cache} {dto : JobDto} {job : CachedJob} {sections dtos : List SectionDto}
  {findings : List FindingDto}

theorem findUnique_apply (cache : Cache) (dto : JobDto) (id : String) :
    (apply cache dto).findUnique id =
      if id = dto.id then some (received (cache.findUnique dto.id) dto)
      else cache.findUnique id :=
  findUnique_upsert cache dto id

theorem syncFindings_perm {dtos : List FindingDto} (hids : (findings.map FindingDto.id).Nodup)
    (hdtos : (dtos.map FindingDto.id).Nodup) : (syncFindings findings dtos).Perm dtos := by
  have hperm : (reconcile FindingDto.id FindingDto.id (fun d => d) (fun d _ => d) findings dtos).Perm
      (dtos.map (image FindingDto.id FindingDto.id (fun d => d) (fun d _ => d) findings)) :=
    reconcile_perm (fun _ => rfl) (fun _ _ hkey => hkey.symm) hids hdtos
  have himage : ∀ d ∈ dtos, image FindingDto.id FindingDto.id (fun d => d) (fun d _ => d)
      findings d = d := by
    intro d _
    unfold image
    cases find FindingDto.id findings d.id <;> rfl
  rw [← syncFindings_eq, List.map_congr_left himage, List.map_id'] at hperm
  exact hperm

theorem syncFindings_again {dtos : List FindingDto} (hids : (findings.map FindingDto.id).Nodup)
    (hdtos : (dtos.map FindingDto.id).Nodup) :
    syncFindings (syncFindings findings dtos) dtos = syncFindings findings dtos := by
  rw [syncFindings_eq, syncFindings_eq]
  refine reconcile_again (fun _ => rfl) (fun _ _ hkey => hkey.symm) hids hdtos fun d _ => ?_
  unfold image
  cases find FindingDto.id findings d.id <;> rfl

/-- The reconciled tree is the copy's: nothing is missing, nothing is left over. -/
theorem sameTree_syncSections (hids : UniqueIds sections) (hdtos : UniqueIds dtos) :
    SameTree (syncSections sections dtos) dtos := by
  have hperm := reconcile_perm freshSection_id mergeSection_id hids.sections hdtos.sections
  rw [← syncSections_eq] at hperm
  refine ⟨_, hperm, ?_⟩
  rw [List.forall₂_map_left_iff, List.forall₂_same]
  intro d hd
  obtain ⟨fs, hfs, himage⟩ := image_section hids d
  rw [himage]
  exact ⟨rfl, rfl, rfl, syncFindings_perm hfs (hdtos.findings d hd)⟩

theorem syncSections_again (hids : UniqueIds sections) (hdtos : UniqueIds dtos) :
    syncSections (syncSections sections dtos) dtos = syncSections sections dtos := by
  rw [syncSections_eq, syncSections_eq]
  refine reconcile_again freshSection_id mergeSection_id hids.sections hdtos.sections fun d hd => ?_
  obtain ⟨fs, hfs, himage⟩ := image_section hids d
  rw [himage, mergeSection]
  simp only [syncFindings_again hfs (hdtos.findings d hd)]

theorem takesServerFields_received (before : Option CachedJob) (dto : JobDto) :
    TakesServerFields dto (received before dto) := by
  cases before with
  | none => exact ⟨rfl, rfl, rfl, rfl⟩
  | some old =>
      simp only [received, Option.elim_some, CachedJob.adopt]
      split_ifs <;> exact ⟨rfl, rfl, rfl, rfl⟩

theorem localWins_iff {old : CachedJob} :
    old.localWins dto = true ↔ old.syncState = .dirty ∧ dto.updatedAt < old.updatedAt := by
  simp [CachedJob.localWins]

theorem keepsEdit_adopt {old : CachedJob} (hdirty : old.syncState = .dirty)
    (hlater : dto.updatedAt < old.updatedAt) : KeepsEdit old (old.adopt dto) := by
  unfold CachedJob.adopt
  rw [if_pos (localWins_iff.mpr ⟨hdirty, hlater⟩)]
  exact ⟨rfl, rfl, rfl, rfl⟩

theorem takesCopy_adopt {old : CachedJob} (hids : UniqueIds old.sections)
    (hdto : UniqueIds dto.sections)
    (hnot : ¬ (old.syncState = .dirty ∧ dto.updatedAt < old.updatedAt)) :
    TakesCopy dto (old.adopt dto) := by
  unfold CachedJob.adopt
  rw [if_neg (mt localWins_iff.mp hnot)]
  exact ⟨rfl, rfl, rfl, sameTree_syncSections hids hdto⟩

theorem takesCopy_ofDto (hdto : UniqueIds dto.sections) : TakesCopy dto (.ofDto dto) :=
  ⟨rfl, rfl, rfl, sameTree_syncSections UniqueIds.nil hdto⟩

/-- A job that has taken a copy over takes it over again as it is. -/
theorem adopt_again {old : CachedJob} (hids : UniqueIds old.sections)
    (hdto : UniqueIds dto.sections) : (old.adopt dto).adopt dto = old.adopt dto := by
  by_cases hwins : old.localWins dto = true
  · have hkept : old.adopt dto = { old with
        status := dto.status
        transcript := dto.transcript
        errorMessage := dto.errorMessage
        pdfUrl := dto.pdfUrl } := by
      rw [CachedJob.adopt, if_pos hwins]
    have hwins' : (old.adopt dto).localWins dto = true := by
      rw [hkept]
      exact hwins
    rw [CachedJob.adopt, if_pos hwins', hkept]
  · have htaken : (old.adopt dto).sections = syncSections old.sections dto.sections ∧
        (old.adopt dto).syncState = .synced ∧ (old.adopt dto).label = dto.label ∧
          (old.adopt dto).updatedAt = dto.updatedAt := by
      rw [CachedJob.adopt, if_neg hwins]
      exact ⟨rfl, rfl, rfl, rfl⟩
    obtain ⟨hsections, hsynced, hlabel, hupdated⟩ := htaken
    obtain ⟨hstatus, htranscript, herror, hpdf⟩ := takesServerFields_received (some old) dto
    simp only [received, Option.elim_some] at hstatus htranscript herror hpdf
    generalize old.adopt dto = job at *
    rw [CachedJob.adopt, if_neg (by simp [localWins_synced hsynced]), hsections,
      syncSections_again hids hdto, ← hstatus, ← htranscript, ← herror, ← hpdf, ← hlabel,
      ← hupdated, ← hsynced, ← hsections]

theorem received_again {before : Option CachedJob} (hids : ∀ old ∈ before, UniqueIds old.sections)
    (hdto : UniqueIds dto.sections) :
    (received before dto).adopt dto = received before dto := by
  cases before with
  | some old => exact adopt_again (hids old rfl) hdto
  | none =>
      have hagain := syncSections_again UniqueIds.nil hdto
      have hsynced : (CachedJob.ofDto dto).localWins dto = false := localWins_synced rfl dto
      simp only [received, Option.elim_none, CachedJob.adopt, hsynced, Bool.false_eq_true, if_false]
      simp only [CachedJob.ofDto, hagain]

/-- Applying a copy a second time changes nothing. -/
theorem apply_again (hstore : StoreUnique cache) (hdto : Fits cache dto) :
    apply (apply cache dto) dto = apply cache dto := by
  have hthere : (apply cache dto).findUnique dto.id = some (received (cache.findUnique dto.id) dto) := by
    rw [findUnique_apply, if_pos rfl]
  have hids : ∀ old ∈ cache.findUnique dto.id, UniqueIds old.sections := fun old hold =>
    hstore.trees old (Table.findUnique_eq_some.mp hold).1
  conv_lhs => rw [apply, upsert, hthere]
  refine Table.update_self _ fun job hjob => ?_
  rw [hthere] at hjob
  cases hjob
  exact received_again hids hdto.ids

theorem sameTree_mem {tree : List SectionDto} {s : SectionDto} (h : SameTree tree dtos)
    (hs : s ∈ tree) : ∃ d ∈ dtos, SameSection s d := by
  obtain ⟨sections, hperm, hsame⟩ := h
  obtain ⟨i, hi, rfl⟩ := List.mem_iff_getElem.mp (hperm.subset hs)
  have hi' : i < dtos.length := hsame.length_eq ▸ hi
  exact ⟨dtos[i], List.getElem_mem hi', hsame.get hi hi'⟩

/-- Where the tree of a job comes from after a copy was applied. -/
theorem apply_origin (hstore : StoreUnique cache) (hdto : Fits cache dto)
    (hjob : job ∈ (apply cache dto).rows) :
    (∃ old ∈ cache.rows, old.id = job.id ∧ job.sections = old.sections) ∨
      job.id = dto.id ∧ SameTree job.sections dto.sections := by
  have hfind := Table.findUnique_of_mem hjob
  rw [findUnique_apply] at hfind
  split_ifs at hfind with hid
  · cases hbefore : cache.findUnique dto.id with
    | none =>
        rw [hbefore] at hfind
        cases hfind
        exact .inr ⟨rfl, (takesCopy_ofDto hdto.ids).tree⟩
    | some old =>
        obtain ⟨hold, holdid⟩ := Table.findUnique_eq_some.mp hbefore
        rw [hbefore] at hfind
        cases hfind
        by_cases hlater : old.syncState = .dirty ∧ dto.updatedAt < old.updatedAt
        · exact .inl ⟨old, hold, (old.adopt_id dto).symm, (keepsEdit_adopt hlater.1 hlater.2).sections⟩
        · exact .inr ⟨hid, (takesCopy_adopt (hstore.trees old hold) hdto.ids hlater).tree⟩
  · exact .inl ⟨job, (Table.findUnique_eq_some.mp hfind).1, rfl, rfl⟩

/-- Applying a copy keeps the ids of the store unique. -/
theorem storeUnique_apply (hstore : StoreUnique cache) (hdto : Fits cache dto) :
    StoreUnique (apply cache dto) := by
  constructor
  · intro job hjob
    have hfind := Table.findUnique_of_mem hjob
    rw [findUnique_apply] at hfind
    split_ifs at hfind
    · cases hfind
      exact uniqueIds_received (fun old hold =>
        hstore.trees old (Table.findUnique_eq_some.mp hold).1) dto
    · exact hstore.trees job (Table.findUnique_eq_some.mp hfind).1
  · intro job hjob job' hjob' s hs s' hs' hid
    rcases apply_origin hstore hdto hjob with ⟨old, hold, holdid, htree⟩ | ⟨hjobid, htree⟩
    · rw [htree] at hs
      rw [← holdid]
      rcases apply_origin hstore hdto hjob' with ⟨old', hold', hid', htree'⟩ | ⟨hjobid', htree'⟩
      · rw [htree'] at hs'
        rw [← hid']
        exact hstore.sections old hold old' hold' s hs s' hs' hid
      · obtain ⟨d', hd', hsame'⟩ := sameTree_mem htree' hs'
        rw [hjobid']
        exact hdto.sectionsFree old hold s hs d' hd' (hid.trans hsame'.id)
    · rw [hjobid]
      obtain ⟨d, hd, hsame⟩ := sameTree_mem htree hs
      rcases apply_origin hstore hdto hjob' with ⟨old', hold', hid', htree'⟩ | ⟨hjobid', -⟩
      · rw [htree'] at hs'
        rw [← hid']
        exact (hdto.sectionsFree old' hold' s' hs' d hd (hid.symm.trans hsame.id)).symm
      · exact hjobid'.symm
  · intro job hjob job' hjob' s hs s' hs' f hf f' hf' hid
    rcases apply_origin hstore hdto hjob with ⟨old, hold, holdid, htree⟩ | ⟨hjobid, htree⟩
    · rw [htree] at hs
      rw [← holdid]
      rcases apply_origin hstore hdto hjob' with ⟨old', hold', hid', htree'⟩ | ⟨hjobid', htree'⟩
      · rw [htree'] at hs'
        rw [← hid']
        exact hstore.findings old hold old' hold' s hs s' hs' f hf f' hf' hid
      · obtain ⟨d', hd', hsame'⟩ := sameTree_mem htree' hs'
        rw [hjobid', hsame'.id]
        exact hdto.findingsFree old hold s hs d' hd' f hf f' (hsame'.findings.subset hf') hid
    · rw [hjobid]
      obtain ⟨d, hd, hsame⟩ := sameTree_mem htree hs
      have hf₀ := hsame.findings.subset hf
      rcases apply_origin hstore hdto hjob' with ⟨old', hold', hid', htree'⟩ | ⟨hjobid', htree'⟩
      · rw [htree'] at hs'
        obtain ⟨hjobs, hsections⟩ :=
          hdto.findingsFree old' hold' s' hs' d hd f' hf' f hf₀ hid.symm
        rw [← hid', hjobs, hsections, hsame.id]
        exact ⟨rfl, rfl⟩
      · obtain ⟨d', hd', hsame'⟩ := sameTree_mem htree' hs'
        rw [hjobid', hsame.id, hsame'.id]
        exact ⟨rfl, hdto.findings d hd d' hd' f hf₀ f' (hsame'.findings.subset hf') hid⟩

theorem storeUnique_empty : StoreUnique ∅ := ⟨by simp, by simp, by simp⟩

/-- Applying a server copy reconciles exactly. -/
theorem apply_reconciles {cache : Cache} {dto : JobDto} (hstore : StoreUnique cache)
    (hdto : Fits cache dto) :
    (∃ job, (apply cache dto).findUnique dto.id = some job ∧ TakesServerFields dto job ∧
      (∀ old, cache.findUnique dto.id = some old → old.syncState = .dirty →
        dto.updatedAt < old.updatedAt → KeepsEdit old job) ∧
      (¬ EditIsLater cache dto → TakesCopy dto job)) ∧
    (∀ id, id ≠ dto.id → (apply cache dto).findUnique id = cache.findUnique id) ∧
    apply (apply cache dto) dto = apply cache dto ∧ StoreUnique (apply cache dto) := by
  have hother : ∀ id, id ≠ dto.id → (apply cache dto).findUnique id = cache.findUnique id :=
    fun id hid => (findUnique_apply cache dto id).trans (if_neg hid)
  refine ⟨⟨received (cache.findUnique dto.id) dto, ?_, takesServerFields_received _ dto, ?_, ?_⟩,
    hother, apply_again hstore hdto, storeUnique_apply hstore hdto⟩
  · rw [findUnique_apply, if_pos rfl]
  · intro old hold hdirty hlater
    rw [hold]
    exact keepsEdit_adopt hdirty hlater
  · intro hnot
    cases hbefore : cache.findUnique dto.id with
    | none => exact takesCopy_ofDto hdto.ids
    | some old =>
        have hids := hstore.trees old (Table.findUnique_eq_some.mp hbefore).1
        exact takesCopy_adopt hids hdto.ids fun hlater => hnot ⟨old, hbefore, hlater⟩

/-- A copy with one section. -/
def demoCopy : JobDto where
  id := "job-1"
  label := "Site A"
  status := .READY
  transcript := some "transcript"
  errorMessage := none
  sections := [⟨"s-2", "Roof", 0, [⟨"f-1", "Leak", .safety, 0⟩]⟩]
  pdfUrl := none
  createdAt := 1
  updatedAt := 5

/-- A store with an older copy of the job, whose tree has another section. -/
def demoCache : Cache :=
  apply ∅ { demoCopy with sections := [⟨"s-1", "Attic", 0, []⟩], updatedAt := 3 }

theorem apply_reconciles_demo :
    (∃ job, (apply demoCache demoCopy).findUnique "job-1" = some job ∧ TakesCopy demoCopy job) ∧
      apply (apply demoCache demoCopy) demoCopy = apply demoCache demoCopy := by
  have hrows : demoCache.rows = [.ofDto { demoCopy with
      sections := [⟨"s-1", "Attic", 0, []⟩], updatedAt := 3 }] := rfl
  have hold : Fits ∅ { demoCopy with sections := [⟨"s-1", "Attic", 0, []⟩], updatedAt := 3 } :=
    ⟨⟨by decide, by decide⟩, by decide, by simp, by simp⟩
  have hdto : Fits demoCache demoCopy := by
    refine ⟨⟨by decide, by decide⟩, by decide, ?_, ?_⟩ <;> rw [hrows] <;> decide
  obtain ⟨⟨job, hjob, -, -, htakes⟩, -, hagain, -⟩ :=
    apply_reconciles (storeUnique_apply storeUnique_empty hold) hdto
  refine ⟨⟨job, hjob, htakes ?_⟩, hagain⟩
  rintro ⟨old, hfind, hdirty, -⟩
  have hsynced : ∀ job ∈ demoCache.rows, job.syncState = .synced := by
    rw [hrows]
    decide
  rw [hsynced old (Table.findUnique_eq_some.mp hfind).1] at hdirty
  cases hdirty

end FieldNote.JobStore
