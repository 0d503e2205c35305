import FieldNote.JobsService

/-!
# The device's job cache

`JobStore` over the SwiftData models. A cached job has the server's fields, a sync state,
and the bookkeeping of an upload that is not finished; its tree has the same fields as the
DTO's. Instants are milliseconds, a DTO's those its ISO 8601 texts denote. A mutation is
saved before the next suspension, so the cache is also what a killed app finds on relaunch.
-/
namespace FieldNote.JobStore

inductive SyncState where
  | synced
  | dirty
deriving DecidableEq, Repr

structure CachedJob where
  id : String
  label : String
  status : JobStatus
  transcript : Option String := none
  errorMessage : Option String := none
  pdfUrl : Option String := none
  createdAt : ℕ
  updatedAt : ℕ
  syncState : SyncState := .synced
  pendingUpload : Bool := false
  localAudioPath : Option String := none
  uploadURL : Option String := none
  uploadContentType : Option String := none
  uploadExpiresAt : Option ℕ := none
  sections : List SectionDto := []
deriving DecidableEq, Repr

abbrev Cache := Table CachedJob String CachedJob.id

/-- `orderedSections`; the sort is stable. -/
def CachedJob.orderedSections (job : CachedJob) : List SectionDto :=
  job.sections.insertionSort fun a b => a.sortOrder ≤ b.sortOrder

def orderedFindings (section_ : SectionDto) : List FindingDto :=
  section_.findings.insertionSort fun a b => a.sortOrder ≤ b.sortOrder

/-- Updates the first finding with the DTO's id, or appends a new one. -/
def putFinding (dto : FindingDto) : List FindingDto → List FindingDto
  | [] => [dto]
  | f :: rest => if f.id = dto.id then dto :: rest else f :: putFinding dto rest

def syncFindings (findings dtos : List FindingDto) : List FindingDto :=
  (dtos.foldl (fun fs dto => putFinding dto fs) findings).filter fun f => f.id ∈ dtos.map FindingDto.id

/-- Updates the first section with the DTO's id, or appends a new one. -/
def putSection (dto : SectionDto) : List SectionDto → List SectionDto
  | [] => [{ dto with findings := syncFindings [] dto.findings }]
  | s :: rest =>
      if s.id = dto.id then { dto with findings := syncFindings s.findings dto.findings } :: rest
      else s :: putSection dto rest

def syncSections (sections dtos : List SectionDto) : List SectionDto :=
  (dtos.foldl (fun ss dto => putSection dto ss) sections).filter fun s => s.id ∈ dtos.map SectionDto.id

/-- The server's copy is older than the unpushed local edit. -/
def CachedJob.localWins (job : CachedJob) (dto : JobDto) : Bool :=
  job.syncState = .dirty && dto.updatedAt < job.updatedAt

/-- `upsert` on a job that is in the cache. -/
def CachedJob.adopt (dto : JobDto) (job : CachedJob) : CachedJob :=
  let job' := { job with
    status := dto.status
    transcript := dto.transcript
    errorMessage := dto.errorMessage
    pdfUrl := dto.pdfUrl }
  if job.localWins dto then job'
  else
    { job' with
      label := dto.label
      updatedAt := dto.updatedAt
      sections := syncSections job.sections dto.sections
      syncState := .synced }

/-- `upsert` on a job that is not in the cache. -/
def CachedJob.ofDto (dto : JobDto) : CachedJob where
  id := dto.id
  label := dto.label
  status := dto.status
  transcript := dto.transcript
  errorMessage := dto.errorMessage
  pdfUrl := dto.pdfUrl
  createdAt := dto.createdAt
  updatedAt := dto.updatedAt
  sections := syncSections [] dto.sections

@[simp] theorem CachedJob.adopt_id (dto : JobDto) (job : CachedJob) :
    (job.adopt dto).id = job.id := by
  unfold CachedJob.adopt
  split_ifs <;> rfl

def upsert (cache : Cache) (dto : JobDto) : Cache :=
  match cache.findUnique dto.id with
  | some _ => cache.update dto.id (fun job => job.adopt dto) fun job => job.adopt_id dto
  | none => (cache.create (.ofDto dto)).getD cache

def mergePulled (cache : Cache) (dtos : List JobDto) : Cache := dtos.foldl upsert cache

/-- What `registerCreated` records of an upload; the URL expires after its lifetime. -/
def CachedJob.awaitUpload (path : String) (upload : PresignedUpload) (now : ℕ)
    (job : CachedJob) : CachedJob :=
  { job with
    pendingUpload := true
    localAudioPath := some path
    uploadURL := some upload.url
    uploadContentType := some upload.contentType
    uploadExpiresAt := some (now + 1000 * upload.expiresInSeconds) }

@[simp] theorem CachedJob.awaitUpload_id (path : String) (upload : PresignedUpload) (now : ℕ)
    (job : CachedJob) : (job.awaitUpload path upload now).id = job.id := rfl

def registerCreated (cache : Cache) (dto : JobDto) (path : String) (upload : PresignedUpload)
    (now : ℕ) : Cache :=
  (upsert cache dto).update dto.id (CachedJob.awaitUpload path upload now)
    (CachedJob.awaitUpload_id path upload now)

def CachedJob.clearUpload (job : CachedJob) : CachedJob :=
  { job with
    pendingUpload := false
    localAudioPath := none
    uploadURL := none
    uploadContentType := none
    uploadExpiresAt := none }

@[simp] theorem CachedJob.clearUpload_id (job : CachedJob) : job.clearUpload.id = job.id := rfl

def markUploaded (cache : Cache) (id : String) : Cache :=
  cache.update id CachedJob.clearUpload CachedJob.clearUpload_id

def CachedJob.edit (label : String) (sections : List SectionDto) (now : ℕ) (job : CachedJob) :
    CachedJob :=
  { job with
    label := label
    updatedAt := now
    syncState := .dirty
    sections := syncSections job.sections sections }

@[simp] theorem CachedJob.edit_id (label : String) (sections : List SectionDto) (now : ℕ)
    (job : CachedJob) : (job.edit label sections now).id = job.id := rfl

def applyLocalEdits (cache : Cache) (id label : String) (sections : List SectionDto) (now : ℕ) :
    Cache :=
  cache.update id (CachedJob.edit label sections now) (CachedJob.edit_id label sections now)

theorem findUnique_upsert (cache : Cache) (dto : JobDto) (id : String) :
    (upsert cache dto).findUnique id =
      if id = dto.id then
        some ((cache.findUnique dto.id).elim (.ofDto dto) fun job => job.adopt dto)
      else cache.findUnique id := by
  unfold upsert
  cases h : cache.findUnique dto.id with
  | some job =>
      rw [Table.findUnique_update]
      split_ifs with hid
      · simp [hid, h]
      · rfl
  | none =>
      obtain ⟨t, ht⟩ := Table.create_isSome (r := CachedJob.ofDto dto) h
      simp only [ht, Option.getD_some, Table.create_findUnique ht]
      rfl

end FieldNote.JobStore
