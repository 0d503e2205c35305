import FieldNote.JsText
import FieldNote.Stores

/-!
# The jobs API

`JobsService` with the repository and queue-producer calls it makes. Every `await` ends a
segment, so a call is a record of its arguments with a program point that holds the
suspended locals. The two reads, `findOne` and `getPdfUrl`, make one query and are plain
functions of the stores.
-/
namespace FieldNote

/-- The signer and the settings the server reads; `presign` maps a method and a key to a
signed URL. -/
structure ServerConfig where
  presign : String → String → String
  presignPutTtl : ℕ
  presignGetTtl : ℕ
  jobMaxAttempts : ℕ
  stageTimeoutMs : ℕ

/-- The status and message of a problem document. -/
structure HttpError where
  status : ℕ
  message : String
deriving DecidableEq, Repr

namespace HttpError

def jobNotFound : HttpError := ⟨404, "Job not found."⟩
def notUploaded : HttpError := ⟨400, "Audio has not been uploaded yet."⟩
def pdfNotReady : HttpError := ⟨409, "PDF is not ready for this job."⟩
def resourceNotFound : HttpError := ⟨404, "Resource not found."⟩
def alreadyExists : HttpError := ⟨409, "Resource already exists."⟩
def invalidQuery : HttpError := ⟨400, "Invalid query parameters."⟩
def unexpected : HttpError := ⟨500, "An unexpected error occurred."⟩

end HttpError

def audioKey (userId jobId : String) : String := "audio/" ++ userId ++ "/" ++ jobId ++ ".m4a"
def pdfKey (userId jobId : String) : String := "pdf/" ++ userId ++ "/" ++ jobId ++ ".pdf"

structure PresignedUpload where
  url : String
  key : String
  contentType : String
  expiresInSeconds : ℕ
deriving DecidableEq, Repr

structure PdfUrlDto where
  url : String
  expiresInSeconds : ℕ
deriving DecidableEq, Repr

structure CreateJobResponse where
  job : JobDto
  audioUploadUrl : PresignedUpload
deriving DecidableEq, Repr

namespace ServerConfig

def presignAudioUpload (cfg : ServerConfig) (userId jobId : String) : PresignedUpload :=
  ⟨cfg.presign "PUT" (audioKey userId jobId), audioKey userId jobId, "audio/m4a",
    cfg.presignPutTtl⟩

def presignPdfDownload (cfg : ServerConfig) (key : String) : PdfUrlDto :=
  ⟨cfg.presign "GET" key, cfg.presignGetTtl⟩

end ServerConfig

/-- The key of the PDF that a row shares: it is READY and the key is not empty. -/
def Job.sharedPdf (job : Job) : Option String :=
  if job.status = .READY then job.pdfKey.filter (· ≠ "") else none

/-- The keys of the job's objects that `remove` deletes. -/
def Job.objectKeys (job : Job) : List String :=
  [job.audioKey, job.pdfKey].filterMap fun key => key.filter (· ≠ "")

namespace JobsService

/-- What the environment supplies to one segment: the clock, random ids and the answers of
the AI providers. -/
structure Env where
  now : ℕ := 0
  id : String := ""
  rowId : ℕ → ℕ → String := fun _ _ => ""
  text : String := ""
  sections : List ReportSectionInput := []

/-- An optional body field: absent, null, or a value. -/
inductive Field (α : Type) where
  | undefined
  | null
  | value (a : α)
deriving DecidableEq, Repr

structure UpdateFindingDto where
  text : String
  severity : ApiSeverity
  sortOrder : ℕ
deriving DecidableEq, Repr

structure UpdateSectionDto where
  title : String
  sortOrder : ℕ
  findings : List UpdateFindingDto
deriving DecidableEq, Repr

structure UpdateJobDto where
  label : Field String := .undefined
  sections : Field (List UpdateSectionDto) := .undefined
deriving DecidableEq, Repr

/-- Postgres takes no text with the character U+0000, and none with a lone surrogate, which is no
character here. -/
def storable (text : String) : Bool := '\x00' ∉ text.toList

def UpdateSectionDto.storable (s : UpdateSectionDto) : Bool :=
  JobsService.storable s.title && s.findings.all fun f => JobsService.storable f.text

/-- The database takes the label, which is not null, and every text of the sections. -/
def UpdateJobDto.storable (dto : UpdateJobDto) : Bool :=
  (match dto.label with
    | .undefined => true
    | .null => false
    | .value label => JobsService.storable label) &&
  match dto.sections with
    | .undefined | .null => true
    | .value sections => sections.all UpdateSectionDto.storable

/-- `toReportInput` of a list of sections; the sorts are stable. -/
def toReportInput (sections : List UpdateSectionDto) : List ReportSectionInput :=
  (sections.insertionSort fun a b => a.sortOrder ≤ b.sortOrder).map fun s =>
    ⟨s.title, (s.findings.insertionSort fun a b => a.sortOrder ≤ b.sortOrder).map fun f =>
      ⟨f.text, severityFromApi f.severity⟩⟩

variable (cfg : ServerConfig) (s : Stores) (env : Env)

def maybePdfUrl (job : Job) : Option String :=
  job.sharedPdf.map fun key => (cfg.presignPdfDownload key).url

/-- `GET /jobs/:id`. -/
def findOne (userId jobId : String) : Except HttpError JobDto :=
  match s.findScoped userId jobId with
  | none => .error .jobNotFound
  | some job => .ok (jobToDto job (maybePdfUrl cfg job))

/-- `GET /jobs/:id/pdf`. -/
def getPdfUrl (userId jobId : String) : Except HttpError PdfUrlDto :=
  match s.findScoped userId jobId with
  | none => .error .jobNotFound
  | some job =>
      match job.sharedPdf with
      | none => .error .pdfNotReady
      | some key => .ok (cfg.presignPdfDownload key)

/-- Program points of `create`; the key is already trimmed. -/
inductive CreatePc where
  | findByIdempotencyKey (key : String)
  | createDraft
  | returned (response : CreateJobResponse)
  | threw (error : HttpError)
deriving DecidableEq, Repr

structure CreateCall where
  userId : String
  label : String
  idempotencyKey : Option String
  pc : CreatePc
deriving DecidableEq, Repr

/-- A falsy key skips the lookup. -/
def create (userId label : String) (idempotencyKey : Option String) : CreateCall :=
  ⟨userId, label, idempotencyKey,
    match idempotencyKey with
    | none => .createDraft
    | some key => if key = "" then .createDraft else .findByIdempotencyKey key⟩

def createResponse (userId : String) (job : Job) : CreateJobResponse :=
  ⟨jobToDto job none, cfg.presignAudioUpload userId job.id⟩

/-- The row `createDraft` inserts. -/
def draft (c : CreateCall) : Job where
  id := env.id
  userId := c.userId
  label := c.label
  status := .CREATED
  transcript := none
  audioKey := some (audioKey c.userId env.id)
  pdfKey := none
  errorMessage := none
  idempotencyKey := c.idempotencyKey
  createdAt := env.now
  updatedAt := env.now
  deletedAt := none
  sections := []

def nextCreate (c : CreateCall) : Option (CreatePc × Op) :=
  match c.pc with
  | .findByIdempotencyKey key =>
      match s.findByIdempotencyKey c.userId key with
      | some existing => some (.returned (createResponse cfg c.userId existing), .none)
      | none => some (.createDraft, .none)
  | .createDraft =>
      if s.keyTaken (draft env c) || (s.findById env.id).isSome then
        some (.threw .alreadyExists, .none)
      else some (.returned (createResponse cfg c.userId (draft env c)), .insertJob (draft env c))
  | .returned _ => none
  | .threw _ => none

variable {cfg s env} in
theorem nextCreate_op {c : CreateCall} {pc : CreatePc} {op : Op}
    (h : nextCreate cfg s env c = some (pc, op)) :
    op = .none ∨ op = .insertJob (draft env c) := by
  unfold nextCreate at h
  split at h
  · split at h <;> cases h <;> exact .inl rfl
  · split_ifs at h
    · cases h
      exact .inl rfl
    · cases h
      exact .inr rfl
  · cases h
  · cases h

/-- Program points of `process`, with those of `enqueueProcessing` inlined. -/
inductive ProcessPc where
  | findScoped
  | objectExists (job : Job)
  | setStatus (job : Job)
  | getJob (job : Job)
  | getState (job : Job)
  | remove (job : Job)
  | add (job : Job)
  | findAgain (job : Job)
  | returned (dto : JobDto)
  | threw (error : HttpError)
deriving DecidableEq, Repr

structure ProcessCall where
  userId : String
  jobId : String
  pc : ProcessPc
deriving DecidableEq, Repr

/-- BullMQ: removing an entry that is locked by a worker fails, a missing entry is removed
without effect, the state of a missing entry is unknown, and adding an entry under an id
that exists is a no-op. -/
def nextProcess (c : ProcessCall) : Option (ProcessPc × Op) :=
  match c.pc with
  | .findScoped =>
      match s.findScoped c.userId c.jobId with
      | none => some (.threw .jobNotFound, .none)
      | some job =>
          if job.status = .READY then
            some (.returned (jobToDto job (maybePdfUrl cfg job)), .none)
          else if job.status.inFlight then some (.returned (jobToDto job none), .none)
          else some (.objectExists job, .none)
  | .objectExists job =>
      if (s.bucket (job.audioKey.getD (audioKey c.userId c.jobId))).isSome then
        some (.setStatus job, .none)
      else some (.threw .notUploaded, .none)
  | .setStatus job => some (.getJob job, .write c.jobId (.setStatus .QUEUED (some none)))
  | .getJob job =>
      match s.queue c.jobId with
      | none => some (.add job, .none)
      | some _ => some (.getState job, .none)
  | .getState job =>
      match (s.queue c.jobId).map Entry.state with
      | some .completed | some .failed => some (.remove job, .none)
      | _ => some (.findAgain job, .none)
  | .remove job =>
      match (s.queue c.jobId).map Entry.state with
      | some .active => some (.threw .unexpected, .none)
      | _ => some (.add job, .setEntry c.jobId none)
  | .add job =>
      match s.queue c.jobId with
      | none => some (.findAgain job, .setEntry c.jobId (some ⟨.waiting, c.userId, 0⟩))
      | some _ => some (.findAgain job, .none)
  | .findAgain job =>
      some (.returned (jobToDto ((s.findScoped c.userId c.jobId).getD job) none), .none)
  | .returned _ => none
  | .threw _ => none

/-- Program points of `update`. -/
inductive UpdatePc where
  | requireOwned
  | commit
  | findOne
  | returned (dto : JobDto)
  | threw (error : HttpError)
deriving DecidableEq, Repr

structure UpdateCall where
  userId : String
  jobId : String
  dto : UpdateJobDto
  pc : UpdatePc
deriving DecidableEq, Repr

/-- `replaceReportScoped` of a PATCH: a null label fails the query's validation, and a text that
the database does not take fails where it is written. A transaction that fails is rolled back. -/
def replaceWrite (c : UpdateCall) (sections : List UpdateSectionDto) :
    Except HttpError (Option Write) :=
  let rows := insertSections env.rowId (toReportInput sections)
  if (s.findScoped c.userId c.jobId).isNone then .error .resourceNotFound
  else if sections.all UpdateSectionDto.storable = false then .error .unexpected
  else
    match c.dto.label with
    | .undefined => .ok (some (.replaceReportScoped c.userId none rows))
    | .null => .error .invalidQuery
    | .value label =>
        if storable label then .ok (some (.replaceReportScoped c.userId (some label) rows))
        else .error .unexpected

/-- The statement of a PATCH: null sections count as an empty list, and absent fields issue no
statement. -/
def updateWrite (c : UpdateCall) : Except HttpError (Option Write) :=
  match c.dto.sections with
  | .null => replaceWrite s env c []
  | .value sections => replaceWrite s env c sections
  | .undefined =>
      match c.dto.label with
      | .undefined => .ok none
      | .null => .error .invalidQuery
      | .value label =>
          if storable label then .ok (some (.updateLabelScoped c.userId label))
          else .error .unexpected

def nextUpdate (c : UpdateCall) : Option (UpdatePc × Op) :=
  match c.pc with
  | .requireOwned =>
      match s.findScoped c.userId c.jobId with
      | none => some (.threw .jobNotFound, .none)
      | some _ => some (.commit, .none)
  | .commit =>
      match updateWrite s env c with
      | .error error => some (.threw error, .none)
      | .ok none => some (.findOne, .none)
      | .ok (some w) => some (.findOne, .write c.jobId w)
  | .findOne =>
      match JobsService.findOne cfg s c.userId c.jobId with
      | .error error => some (.threw error, .none)
      | .ok dto => some (.returned dto, .none)
  | .returned _ => none
  | .threw _ => none

/-- The label that a PATCH with sections writes. -/
inductive WrittenLabel : Field String → Option String → Prop where
  | absent : WrittenLabel .undefined none
  | present (label : String) (stored : storable label = true) :
      WrittenLabel (.value label) (some label)

/-- The sections that a PATCH replaces the tree by. -/
inductive WrittenSections : Field (List UpdateSectionDto) → List UpdateSectionDto → Prop where
  | null : WrittenSections .null []
  | present (sections : List UpdateSectionDto) : WrittenSections (.value sections) sections

variable {cfg s env} in
theorem replaceWrite_eq {c : UpdateCall} {sections : List UpdateSectionDto} {w : Write}
    (h : replaceWrite s env c sections = .ok (some w)) :
    (∃ job, s.findScoped c.userId c.jobId = some job) ∧
      sections.all UpdateSectionDto.storable = true ∧
      ∃ label, WrittenLabel c.dto.label label ∧ w = .replaceReportScoped c.userId label
        (insertSections env.rowId (toReportInput sections)) := by
  unfold replaceWrite at h
  dsimp only at h
  split_ifs at h with hrow hstored
  have hjob := Option.ne_none_iff_exists'.mp (by simpa using hrow)
  refine ⟨hjob, by simpa using hstored, ?_⟩
  split at h
  · rename_i hlabel
    cases h
    exact ⟨none, hlabel ▸ .absent, rfl⟩
  · cases h
  · rename_i label hlabel
    split_ifs at h with htext
    cases h
    exact ⟨some label, hlabel ▸ .present label htext, rfl⟩

variable {cfg s env} in
/-- A PATCH with sections replaces the tree of a live job of its user, and one without sends its
label alone. -/
theorem updateWrite_eq {c : UpdateCall} {w : Write} (h : updateWrite s env c = .ok (some w)) :
    (∃ label, c.dto.label = .value label ∧ c.dto.sections = .undefined ∧
      w = .updateLabelScoped c.userId label) ∨
    ∃ label sections, WrittenSections c.dto.sections sections ∧ WrittenLabel c.dto.label label ∧
      (∃ job, s.findScoped c.userId c.jobId = some job) ∧
      w = .replaceReportScoped c.userId label
        (insertSections env.rowId (toReportInput sections)) := by
  unfold updateWrite at h
  split at h
  · rename_i hsections
    obtain ⟨hjob, -, label, hlabel, hw⟩ := replaceWrite_eq h
    exact .inr ⟨label, [], hsections ▸ .null, hlabel, hjob, hw⟩
  · rename_i sections hsections
    obtain ⟨hjob, -, label, hlabel, hw⟩ := replaceWrite_eq h
    exact .inr ⟨label, sections, hsections ▸ .present sections, hlabel, hjob, hw⟩
  · rename_i hsections
    split at h
    · cases h
    · cases h
    · rename_i label hlabel
      split_ifs at h with htext
      cases h
      exact .inl ⟨label, hlabel, hsections, rfl⟩

/-- A body that the database does not take issues no statement. -/
theorem updateWrite_refused {c : UpdateCall} (h : c.dto.storable = false) :
    ∃ e, updateWrite s env c = .error e := by
  obtain ⟨userId, jobId, ⟨label, sections⟩, pc⟩ := c
  have hreplace (sections' : List UpdateSectionDto)
      (hrefused : label = .null ∨ (∃ text, label = .value text ∧ storable text = false) ∨
        sections'.all UpdateSectionDto.storable = false) :
      ∃ e, replaceWrite s env ⟨userId, jobId, ⟨label, sections⟩, pc⟩ sections' = .error e := by
    unfold replaceWrite
    dsimp only
    split_ifs with hrow hstored
    · exact ⟨_, rfl⟩
    · exact ⟨_, rfl⟩
    · rcases hrefused with rfl | ⟨text, rfl, htext⟩ | hall
      · exact ⟨_, rfl⟩
      · simp [htext]
      · exact (hstored hall).elim
  simp only [UpdateJobDto.storable] at h
  cases sections with
  | undefined =>
      cases label with
      | undefined => cases h
      | null => exact ⟨_, rfl⟩
      | value text =>
          have htext : storable text = false := by simpa using h
          exact ⟨_, by simp only [updateWrite, htext]; rfl⟩
  | null =>
      refine hreplace [] ?_
      cases label with
      | undefined => cases h
      | null => exact .inl rfl
      | value text => exact .inr (.inl ⟨text, rfl, by simpa using h⟩)
  | value sections' =>
      refine hreplace sections' ?_
      cases label with
      | undefined => exact .inr (.inr (by simpa using h))
      | null => exact .inl rfl
      | value text =>
          rcases Bool.and_eq_false_iff.mp h with htext | hall
          · exact .inr (.inl ⟨text, rfl, htext⟩)
          · exact .inr (.inr hall)

variable {s} in
/-- The statement of a body that the database takes, on a live job of its user. -/
theorem updateWrite_live {c : UpdateCall} {job : Job}
    (hjob : s.findScoped c.userId c.jobId = some job) (h : c.dto.storable = true) :
    c.dto.label = .undefined ∧ c.dto.sections = .undefined ∧ updateWrite s env c = .ok none ∨
      ∃ w, updateWrite s env c = .ok (some w) := by
  obtain ⟨userId, jobId, ⟨label, sections⟩, pc⟩ := c
  have hreplace (sections' : List UpdateSectionDto)
      (hall : sections'.all UpdateSectionDto.storable = true)
      (hlabel : label ≠ .null ∧ ∀ text, label = .value text → storable text = true) :
      ∃ w, replaceWrite s env ⟨userId, jobId, ⟨label, sections⟩, pc⟩ sections' =
        .ok (some w) := by
    cases label with
    | undefined => simp [replaceWrite, hjob, hall]
    | null => exact (hlabel.1 rfl).elim
    | value text => simp [replaceWrite, hjob, hall, hlabel.2 text rfl]
  obtain ⟨hlabel, hsections⟩ := Bool.and_eq_true_iff.mp h
  have htext : label ≠ .null ∧ ∀ text, label = .value text → storable text = true := by
    cases label with
    | undefined => exact ⟨nofun, nofun⟩
    | null => cases hlabel
    | value text =>
        refine ⟨nofun, ?_⟩
        rintro text' ⟨⟩
        exact hlabel
  cases sections with
  | undefined =>
      cases label with
      | undefined => exact .inl ⟨rfl, rfl, rfl⟩
      | null => exact (htext.1 rfl).elim
      | value text => exact .inr ⟨_, by simp only [updateWrite, htext.2 text rfl]; rfl⟩
  | null => exact .inr (hreplace [] rfl htext)
  | value sections' => exact .inr (hreplace sections' hsections htext)

variable {cfg s env} in
/-- A PATCH issues at most one statement, and only on the label or the tree. -/
theorem updateWrite_cases {c : UpdateCall} {w : Write}
    (h : updateWrite s env c = .ok (some w)) :
    (∃ label, w = .updateLabelScoped c.userId label) ∨
      ∃ label rows, w = .replaceReportScoped c.userId label rows := by
  rcases updateWrite_eq h with ⟨label, -, -, rfl⟩ | ⟨label, sections, -, -, -, rfl⟩
  · exact .inl ⟨label, rfl⟩
  · exact .inr ⟨label, _, rfl⟩

variable {cfg s env} in
/-- A PATCH replaces the tree only of a live job of its user. -/
theorem updateWrite_scoped {c : UpdateCall} {userId : String} {label : Option String}
    {rows : List ReportSection}
    (h : updateWrite s env c = .ok (some (.replaceReportScoped userId label rows))) :
    userId = c.userId ∧ ∃ job, s.findScoped c.userId c.jobId = some job := by
  rcases updateWrite_eq h with ⟨label, -, -, heq⟩ | ⟨label, sections, -, -, hjob, heq⟩
  · cases heq
  · cases heq
    exact ⟨rfl, hjob⟩

variable {cfg s env} in
theorem nextUpdate_op {c : UpdateCall} {pc : UpdatePc} {op : Op}
    (h : nextUpdate cfg s env c = some (pc, op)) :
    op = .none ∨ ∃ w, c.pc = .commit ∧ op = .write c.jobId w ∧
      updateWrite s env c = .ok (some w) := by
  unfold nextUpdate at h
  split at h
  · split at h <;> cases h <;> exact .inl rfl
  · rename_i hpc
    split at h
    · cases h
      exact .inl rfl
    · cases h
      exact .inl rfl
    · rename_i w hw
      cases h
      exact .inr ⟨w, hpc, rfl, hw⟩
  · split at h <;> cases h <;> exact .inl rfl
  · cases h
  · cases h

/-- Program points of `remove`. -/
inductive RemovePc where
  | requireOwned
  | softDelete (job : Job)
  | deleteObjects (job : Job)
  | returned
  | threw (error : HttpError)
deriving DecidableEq, Repr

structure RemoveCall where
  userId : String
  jobId : String
  pc : RemovePc
deriving DecidableEq, Repr

def nextRemove (c : RemoveCall) : Option (RemovePc × Op) :=
  match c.pc with
  | .requireOwned =>
      match s.findScoped c.userId c.jobId with
      | none => some (.threw .jobNotFound, .none)
      | some job => some (.softDelete job, .none)
  | .softDelete job =>
      match s.findScoped c.userId c.jobId with
      | none => some (.threw .jobNotFound, .none)
      | some _ => some (.deleteObjects job, .write c.jobId (.softDeleteScoped c.userId))
  | .deleteObjects job => some (.returned, .deleteObjects job.objectKeys)
  | .returned => none
  | .threw _ => none

variable {s} in
theorem nextRemove_op {c : RemoveCall} {pc : RemovePc} {op : Op}
    (h : nextRemove s c = some (pc, op)) :
    op = .none ∨ op = .write c.jobId (.softDeleteScoped c.userId) ∨
      ∃ job, c.pc = .deleteObjects job ∧ op = .deleteObjects job.objectKeys := by
  unfold nextRemove at h
  split at h
  · split at h <;> cases h <;> exact .inl rfl
  · split at h <;> cases h
    · exact .inl rfl
    · exact .inr (.inl rfl)
  · rename_i job hpc
    cases h
    exact .inr (.inr ⟨job, hpc, rfl⟩)
  · cases h
  · cases h

/-- An `await` that throws ends the call, except that a failed clean-up is only logged. -/
def CreateCall.throwing (c : CreateCall) : Option CreatePc :=
  match c.pc with
  | .returned _ | .threw _ => none
  | _ => some (.threw .unexpected)

def ProcessCall.throwing (c : ProcessCall) : Option ProcessPc :=
  match c.pc with
  | .returned _ | .threw _ => none
  | _ => some (.threw .unexpected)

def UpdateCall.throwing (c : UpdateCall) : Option UpdatePc :=
  match c.pc with
  | .returned _ | .threw _ => none
  | _ => some (.threw .unexpected)

def RemoveCall.throwing (c : RemoveCall) : Option RemovePc :=
  match c.pc with
  | .returned | .threw _ => none
  | .deleteObjects _ => some .returned
  | _ => some (.threw .unexpected)

end JobsService
end FieldNote
