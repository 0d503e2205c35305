import FieldNote.JobStore
import FieldNote.Reconciliation

/-!
# The tree of a cached job after a reconciliation

`syncSections` and `syncFindings` reconcile by the ids of the DTOs. The ids of a cached tree
are unique, by an attribute of the models; the reconciliation keeps them so, and the cached
tree then reads, in its display order, as the DTO's. Hence a job without local edits mirrors
the copy that it has received last.
-/
namespace FieldNote.JobStore
open Reconciliation

/-- The ids of the sections are distinct, and those of the findings of one section. -/
structure UniqueIds (tree : List SectionDto) : Prop where
  sections : (tree.map SectionDto.id).Nodup
  findings : ∀ s ∈ tree, (s.findings.map FindingDto.id).Nodup

/-- Moreover the lists are in the strict order of `sortOrder`. -/
structure Ordered (dtos : List SectionDto) : Prop extends UniqueIds dtos where
  order : dtos.Pairwise fun a b => a.sortOrder < b.sortOrder
  findingOrder : ∀ s ∈ dtos, s.findings.Pairwise fun a b => a.sortOrder < b.sortOrder

/-- The tree in its display order. -/
def CachedJob.orderedTree (job : CachedJob) : List SectionDto :=
  job.orderedSections.map fun s => { s with findings := orderedFindings s }

variable {sections dtos : List SectionDto} {findings : List FindingDto}

theorem putFinding_eq (dto : FindingDto) (findings : List FindingDto) :
    putFinding dto findings =
      put FindingDto.id FindingDto.id (fun d => d) (fun d _ => d) dto findings := by
  induction findings with
  | nil => rfl
  | cons f rest ih => simp only [putFinding, put, ih]

theorem syncFindings_eq (findings dtos : List FindingDto) :
    syncFindings findings dtos =
      reconcile FindingDto.id FindingDto.id (fun d => d) (fun d _ => d) findings dtos := by
  simp only [syncFindings, reconcile, putFinding_eq]

def freshSection (dto : SectionDto) : SectionDto :=
  { dto with findings := syncFindings [] dto.findings }

def mergeSection (dto s : SectionDto) : SectionDto :=
  { dto with findings := syncFindings s.findings dto.findings }

theorem freshSection_id (dto : SectionDto) : (freshSection dto).id = dto.id := rfl

theorem mergeSection_id (dto s : SectionDto) (h : s.id = dto.id) : (mergeSection dto s).id = s.id :=
  h.symm

theorem putSection_eq (dto : SectionDto) (sections : List SectionDto) :
    putSection dto sections =
      put SectionDto.id SectionDto.id freshSection mergeSection dto sections := by
  induction sections with
  | nil => rfl
  | cons s rest ih =>
      simp only [putSection, put, ih]
      rfl

theorem syncSections_eq (sections dtos : List SectionDto) :
    syncSections sections dtos =
      reconcile SectionDto.id SectionDto.id freshSection mergeSection sections dtos := by
  simp only [syncSections, reconcile, putSection_eq]

theorem nodup_syncFindings (dtos : List FindingDto) (h : (findings.map FindingDto.id).Nodup) :
    ((syncFindings findings dtos).map FindingDto.id).Nodup := by
  rw [syncFindings_eq]
  exact nodup_reconcile (fun _ => rfl) (fun _ _ hkey => hkey.symm) h

/-- A reconciliation keeps the ids unique. -/
theorem UniqueIds.syncSections (h : UniqueIds sections) (dtos : List SectionDto) :
    UniqueIds (syncSections sections dtos) := by
  constructor
  · rw [syncSections_eq]
    exact nodup_reconcile freshSection_id mergeSection_id h.sections
  · rw [syncSections_eq]
    apply forall_reconcile _ _ h.findings
    · intro dto
      exact nodup_syncFindings dto.findings List.nodup_nil
    · intro dto s hs
      exact nodup_syncFindings dto.findings hs

theorem UniqueIds.nil : UniqueIds [] := ⟨List.nodup_nil, by simp⟩

/-- Reconciled findings read as the DTO's. -/
theorem orderedFindings_sync {dto : SectionDto} (hids : (findings.map FindingDto.id).Nodup)
    (hdto : (dto.findings.map FindingDto.id).Nodup)
    (horder : dto.findings.Pairwise fun a b => a.sortOrder < b.sortOrder) :
    orderedFindings { dto with findings := syncFindings findings dto.findings } = dto.findings := by
  have himage : ∀ d : FindingDto, image FindingDto.id FindingDto.id (fun d => d) (fun d _ => d)
      findings d = d := by
    intro d
    unfold image
    cases find FindingDto.id findings d.id <;> rfl
  have hplaces : ∀ d : FindingDto, (image FindingDto.id FindingDto.id (fun d => d) (fun d _ => d)
      findings d).sortOrder = d.sortOrder := fun d => congrArg FindingDto.sortOrder (himage d)
  have hsort := sort_reconcile (fun _ => rfl) (fun _ _ hkey => hkey.symm) hplaces hids hdto horder
  simp only [orderedFindings, syncFindings_eq]
  rw [hsort, List.map_congr_left fun d _ => himage d, List.map_id']

/-- What a section of the copy makes of the old sections. -/
theorem image_section (hids : UniqueIds sections) (d : SectionDto) :
    ∃ fs : List FindingDto, (fs.map FindingDto.id).Nodup ∧
      image SectionDto.id SectionDto.id freshSection mergeSection sections d =
        { d with findings := syncFindings fs d.findings } := by
  unfold image
  cases hf : find SectionDto.id sections d.id with
  | none => exact ⟨[], List.nodup_nil, rfl⟩
  | some s => exact ⟨s.findings, hids.findings s (List.mem_of_find?_eq_some hf), rfl⟩

/-- A reconciled tree reads as the DTO's. -/
theorem orderedTree_sync {job : CachedJob} (hjob : job.sections = syncSections sections dtos)
    (hids : UniqueIds sections) (hdtos : Ordered dtos) : job.orderedTree = dtos := by
  have horder : ∀ d : SectionDto, (image SectionDto.id SectionDto.id freshSection mergeSection
      sections d).sortOrder = d.sortOrder := by
    intro d
    obtain ⟨fs, -, himage⟩ := image_section hids d
    rw [himage]
  have hsort : (syncSections sections dtos).insertionSort (fun a b => a.sortOrder ≤ b.sortOrder) =
      dtos.map (image SectionDto.id SectionDto.id freshSection mergeSection sections) := by
    rw [syncSections_eq]
    exact sort_reconcile freshSection_id mergeSection_id horder hids.sections hdtos.sections
      hdtos.order
  simp only [CachedJob.orderedTree, CachedJob.orderedSections, hjob]
  rw [hsort, List.map_map]
  conv_rhs => rw [← List.map_id dtos]
  apply List.map_congr_left
  intro d hd
  obtain ⟨fs, hfs, himage⟩ := image_section hids d
  have hread := orderedFindings_sync hfs (hdtos.findings d hd) (hdtos.findingOrder d hd)
  simp only [Function.comp_apply, himage, hread, id_eq]

/-- The cached job after `upsert` of a DTO with its id. -/
def received (job : Option CachedJob) (dto : JobDto) : CachedJob :=
  job.elim (.ofDto dto) fun job => job.adopt dto

/-- The cached job is in step with the server's copy. -/
structure CachedJob.Mirrors (job : CachedJob) (dto : JobDto) : Prop where
  synced : job.syncState = .synced
  label : job.label = dto.label
  updatedAt : job.updatedAt = dto.updatedAt
  status : job.status = dto.status
  transcript : job.transcript = dto.transcript
  errorMessage : job.errorMessage = dto.errorMessage
  pdfUrl : job.pdfUrl = dto.pdfUrl
  tree : job.orderedTree = dto.sections

theorem mirrors_ofDto {dto : JobDto} (hdto : Ordered dto.sections) :
    (CachedJob.ofDto dto).Mirrors dto where
  synced := rfl
  label := rfl
  updatedAt := rfl
  status := rfl
  transcript := rfl
  errorMessage := rfl
  pdfUrl := rfl
  tree := orderedTree_sync rfl UniqueIds.nil hdto

/-- A job takes over the server's copy unless its own edit wins. -/
theorem mirrors_adopt {job : CachedJob} {dto : JobDto} (hids : UniqueIds job.sections)
    (hdto : Ordered dto.sections) : (job.adopt dto).Mirrors dto ↔ job.localWins dto = false := by
  constructor
  · intro h
    by_contra hlost
    have hwins : job.localWins dto = true := by simpa using hlost
    have hdirty : job.syncState = .dirty := by
      simp only [CachedJob.localWins, Bool.and_eq_true, decide_eq_true_eq] at hwins
      exact hwins.1
    have hsynced := h.synced
    simp [CachedJob.adopt, hwins, hdirty] at hsynced
  · intro hlost
    have hsections : (job.adopt dto).sections = syncSections job.sections dto.sections := by
      simp [CachedJob.adopt, hlost]
    constructor
    case tree => exact orderedTree_sync hsections hids hdto
    all_goals simp [CachedJob.adopt, hlost]

theorem localWins_eq_false {job : CachedJob} {dto : JobDto} :
    job.localWins dto = false ↔ (job.syncState = .dirty → job.updatedAt ≤ dto.updatedAt) := by
  simp only [CachedJob.localWins, Bool.and_eq_false_iff, decide_eq_false_iff_not, not_lt]
  tauto

theorem localWins_synced {job : CachedJob} (h : job.syncState = .synced) (dto : JobDto) :
    job.localWins dto = false := by
  simp [CachedJob.localWins, h]

theorem uniqueIds_adopt {job : CachedJob} (h : UniqueIds job.sections) (dto : JobDto) :
    UniqueIds (job.adopt dto).sections := by
  unfold CachedJob.adopt
  split_ifs
  · exact h
  · exact h.syncSections dto.sections

/-- A job without local edits takes over every copy. -/
theorem mirrors_received {job : Option CachedJob} {dto : JobDto}
    (hjob : ∀ j ∈ job, j.syncState = .synced ∧ UniqueIds j.sections)
    (hdto : Ordered dto.sections) : (received job dto).Mirrors dto := by
  cases job with
  | none => exact mirrors_ofDto hdto
  | some j =>
      obtain ⟨hsynced, hids⟩ := hjob j rfl
      exact (mirrors_adopt hids hdto).mpr (localWins_synced hsynced dto)

theorem uniqueIds_received {job : Option CachedJob} (h : ∀ j ∈ job, UniqueIds j.sections)
    (dto : JobDto) : UniqueIds (received job dto).sections := by
  cases job with
  | none => exact UniqueIds.nil.syncSections dto.sections
  | some j => exact uniqueIds_adopt (h j rfl) dto

/-- Pulled jobs are merged job by job. -/
theorem findUnique_mergePulled (cache : Cache) (dtos : List JobDto) (id : String) :
    (mergePulled cache dtos).findUnique id =
      (dtos.filter fun dto => dto.id = id).foldl (fun job dto => some (received job dto))
        (cache.findUnique id) := by
  induction dtos generalizing cache with
  | nil => rfl
  | cons dto rest ih =>
      have hrest := ih (upsert cache dto)
      simp only [mergePulled, List.foldl_cons] at hrest ⊢
      rw [hrest, findUnique_upsert]
      by_cases hid : dto.id = id
      · subst hid
        simp [received]
      · simp [hid, Ne.symm hid]

theorem findUnique_mergePulled_other {cache : Cache} {dtos : List JobDto} {id : String}
    (h : id ∉ dtos.map JobDto.id) :
    (mergePulled cache dtos).findUnique id = cache.findUnique id := by
  have hnone : dtos.filter (fun dto => dto.id = id) = [] := by
    rw [List.filter_eq_nil_iff]
    intro dto hdto hid
    exact h (List.mem_map.mpr ⟨dto, hdto, by simpa using hid⟩)
  rw [findUnique_mergePulled, hnone, List.foldl_nil]

/-- One copy of a job among the pulled ones. -/
theorem findUnique_mergePulled_mem {cache : Cache} {dtos : List JobDto} {dto : JobDto}
    (hids : (dtos.map JobDto.id).Nodup) (hdto : dto ∈ dtos) :
    (mergePulled cache dtos).findUnique dto.id =
      some (received (cache.findUnique dto.id) dto) := by
  have hone : dtos.filter (fun d => d.id = dto.id) = [dto] := by
    induction dtos with
    | nil => cases hdto
    | cons first rest ih =>
        simp only [List.map_cons, List.nodup_cons] at hids
        obtain ⟨hfirst, hrest⟩ := hids
        rcases List.mem_cons.mp hdto with rfl | hlater
        · rw [List.filter_cons_of_pos (by simp), List.filter_eq_nil_iff.mpr]
          intro d hd hid
          exact hfirst (List.mem_map.mpr ⟨d, hd, by simpa using hid⟩)
        · have hne : first.id ≠ dto.id := by
            intro heq
            exact hfirst (heq ▸ List.mem_map_of_mem hlater)
          rw [List.filter_cons_of_neg (by simpa using hne)]
          exact ih hrest hlater
  rw [findUnique_mergePulled, hone]
  rfl

end FieldNote.JobStore
