import FieldNote.JobRecords
import Mathlib.Logic.Function.Basic
import Mathlib.Tactic.SplitIfs

/-!
# The stores behind the server

Postgres, the BullMQ queue with its dead-letter queue, and the object bucket, with the
statements the server issues on them as data. A statement on a job row is a `Write`; what
it does to a row is one function, and the other stores have one operation each. `updatedAt`
is bumped by every update of the row itself, and not by a replacement of its tree. Job ids are
UUIDs in the spelling of `randomUUID`, the one the API returns, and so are compared as texts;
`SpelledIds` treats the other spellings of a UUID that Postgres takes.
-/
namespace FieldNote

structure ReportFindingView where
  text : String
  severity : ApiSeverity
deriving DecidableEq, Repr

structure ReportSectionView where
  title : String
  findings : List ReportFindingView
deriving DecidableEq, Repr

structure ReportView where
  jobId : String
  label : String
  generatedAt : ℕ
  sections : List ReportSectionView
deriving DecidableEq, Repr

/-- A stored object: an uploaded recording, or the PDF rendered from a view. -/
inductive StoredObject where
  | audio (bytes : String)
  | pdf (view : ReportView)
deriving DecidableEq, Repr

structure ProcessingEvent where
  jobId : String
  stage : String
  status : String
  message : Option String
deriving DecidableEq, Repr

inductive EntryState where
  | waiting
  | delayed
  | active
  | completed
  | failed
deriving DecidableEq, Repr

/-- A BullMQ entry; its id is the job id and `userId` completes its payload. -/
structure Entry where
  state : EntryState
  userId : String
  attemptsMade : ℕ
deriving DecidableEq, Repr

structure DlqEntry where
  jobId : String
  userId : String
  error : String
  attemptsMade : ℕ
deriving DecidableEq, Repr

/-- The statements on one job. Those of the API carry the user they are scoped to. -/
inductive Write where
  | setStatus (status : JobStatus) (errorMessage : Option (Option String))
  | saveTranscript (transcript : String)
  | replaceReport (sections : List ReportSection)
  | setPdfReady (pdfKey : String)
  | updateLabelScoped (userId label : String)
  | replaceReportScoped (userId : String) (label : Option String)
      (sections : List ReportSection)
  | softDeleteScoped (userId : String)
deriving DecidableEq, Repr

/-- `where: { userId, deletedAt: null }`. -/
def Job.inScope (job : Job) (userId : String) : Bool :=
  job.userId = userId && job.deletedAt.isNone

/-- What a statement leaves in the row it selects by id. -/
def Write.apply (now : ℕ) (job : Job) : Write → Job
  | .setStatus status errorMessage =>
      { job with
        status := status
        errorMessage := errorMessage.getD job.errorMessage
        updatedAt := now }
  | .saveTranscript transcript =>
      { job with
        transcript := some transcript
        updatedAt := now }
  | .replaceReport sections => { job with sections := sections }
  | .setPdfReady pdfKey =>
      { job with
        pdfKey := some pdfKey
        status := .READY
        errorMessage := none
        updatedAt := now }
  | .updateLabelScoped userId label =>
      if job.inScope userId then
        { job with
          label := label
          updatedAt := now }
      else job
  | .replaceReportScoped userId label sections =>
      if job.inScope userId then
        { job with
          label := label.getD job.label
          sections := sections
          updatedAt := now }
      else job
  | .softDeleteScoped userId =>
      if job.inScope userId then
        { job with
          deletedAt := some now
          updatedAt := now }
      else job

namespace Write

variable (now : ℕ) (job : Job) (w : Write)

@[simp] theorem apply_id : (w.apply now job).id = job.id := by
  cases w <;> simp only [apply] <;> split_ifs <;> rfl

@[simp] theorem apply_userId : (w.apply now job).userId = job.userId := by
  cases w <;> simp only [apply] <;> split_ifs <;> rfl

@[simp] theorem apply_idempotencyKey :
    (w.apply now job).idempotencyKey = job.idempotencyKey := by
  cases w <;> simp only [apply] <;> split_ifs <;> rfl

@[simp] theorem apply_audioKey : (w.apply now job).audioKey = job.audioKey := by
  cases w <;> simp only [apply] <;> split_ifs <;> rfl

/-- The status a statement sets. -/
def newStatus : Write → Option JobStatus
  | .setStatus status _ => some status
  | .setPdfReady _ => some .READY
  | _ => none

theorem apply_status : (w.apply now job).status = w.newStatus.getD job.status := by
  cases w <;> simp only [apply, newStatus, Option.getD] <;> split_ifs <;> rfl

/-- The tree a statement stores. -/
def newSections (job : Job) : Write → Option (List ReportSection)
  | .replaceReport sections => some sections
  | .replaceReportScoped userId _ sections => if job.inScope userId then some sections else none
  | _ => none

theorem apply_sections : (w.apply now job).sections = (w.newSections job).getD job.sections := by
  cases w <;> simp only [apply, newSections, Option.getD] <;> split_ifs <;> rfl

/-- The label a statement stores. -/
def newLabel (job : Job) : Write → Option String
  | .updateLabelScoped userId label => if job.inScope userId then some label else none
  | .replaceReportScoped userId label _ => if job.inScope userId then label else none
  | _ => none

theorem apply_label : (w.apply now job).label = (w.newLabel job).getD job.label := by
  cases w with
  | replaceReportScoped userId label sections =>
      cases label <;> simp only [apply, newLabel, Option.getD] <;> split_ifs <;> rfl
  | _ => simp only [apply, newLabel, Option.getD] <;> split_ifs <;> rfl

/-- The key of the PDF a statement stores. -/
def newPdfKey : Write → Option String
  | .setPdfReady pdfKey => some pdfKey
  | _ => none

theorem apply_pdfKey : (w.apply now job).pdfKey = w.newPdfKey.or job.pdfKey := by
  cases w <;> simp only [apply, newPdfKey, Option.none_or, Option.some_or] <;>
    split_ifs <;> rfl

/-- The transcript a statement stores. -/
def newTranscript : Write → Option String
  | .saveTranscript transcript => some transcript
  | _ => none

theorem apply_transcript :
    (w.apply now job).transcript = w.newTranscript.or job.transcript := by
  cases w <;> simp only [apply, newTranscript, Option.none_or, Option.some_or] <;>
    split_ifs <;> rfl

/-- A deleted row stays deleted. -/
theorem apply_live (h : (w.apply now job).deletedAt = none) : job.deletedAt = none := by
  cases w with
  | updateLabelScoped userId label =>
      simp only [apply] at h
      split_ifs at h <;> exact h
  | replaceReportScoped userId label sections =>
      simp only [apply] at h
      split_ifs at h <;> exact h
  | softDeleteScoped userId =>
      simp only [apply] at h
      split_ifs at h
      exact h
  | _ => exact h

end Write

structure Stores where
  jobs : JobTable
  events : List ProcessingEvent
  queue : String → Option Entry
  dlq : List DlqEntry
  bucket : String → Option StoredObject

def Stores.empty : Stores := ⟨∅, [], fun _ => none, [], fun _ => none⟩

/-- One operation on one of the stores. -/
inductive Op where
  | none
  | insertJob (job : Job)
  | write (jobId : String) (w : Write)
  | addEvent (event : ProcessingEvent)
  | setEntry (jobId : String) (entry : Option Entry)
  | addDlq (entry : DlqEntry)
  | putObject (key : String) (object : StoredObject)
  | deleteObjects (keys : List String)

/-- The job and the status an operation sets on an existing row. -/
def Op.newStatus : Op → Option (String × JobStatus)
  | .write jobId w => w.newStatus.map fun status => (jobId, status)
  | _ => Option.none

/-- The queue entry an operation replaces, and its new value. -/
def Op.newEntry : Op → Option (String × Option Entry)
  | .setEntry jobId entry => some (jobId, entry)
  | _ => Option.none

/-- The row an operation inserts. -/
def Op.inserted : Op → Option Job
  | .insertJob job => some job
  | _ => Option.none

/-- The unique constraint on the owner and the idempotency key; null keys are distinct. -/
def Stores.keyTaken (s : Stores) (job : Job) : Bool :=
  job.idempotencyKey.isSome && s.jobs.rows.any fun r =>
    r.userId = job.userId && r.idempotencyKey = job.idempotencyKey

namespace Stores

/-- An insertion that violates a constraint changes nothing. -/
def run (now : ℕ) (s : Stores) : Op → Stores
  | .none => s
  | .insertJob job =>
      if s.keyTaken job then s else { s with jobs := (s.jobs.create job).getD s.jobs }
  | .write jobId w =>
      { s with jobs := s.jobs.update jobId (fun job => w.apply now job) fun job => w.apply_id now job }
  | .addEvent event => { s with events := s.events ++ [event] }
  | .setEntry jobId entry => { s with queue := Function.update s.queue jobId entry }
  | .addDlq entry => { s with dlq := s.dlq ++ [entry] }
  | .putObject key object => { s with bucket := Function.update s.bucket key (some object) }
  | .deleteObjects keys => { s with bucket := fun key => if key ∈ keys then none else s.bucket key }

def findById (s : Stores) (jobId : String) : Option Job := s.jobs.findUnique jobId

def findScoped (s : Stores) (userId jobId : String) : Option Job :=
  (s.findById jobId).filter fun job => job.inScope userId

/-- `findFirst` by owner and idempotency key. -/
def findByIdempotencyKey (s : Stores) (userId key : String) : Option Job :=
  s.jobs.rows.find? fun job => job.inScope userId && job.idempotencyKey = some key

theorem findScoped_eq_some {s : Stores} {userId jobId : String} {job : Job} :
    s.findScoped userId jobId = some job ↔
      s.findById jobId = some job ∧ job.userId = userId ∧ job.deletedAt = none := by
  simp [findScoped, Option.filter_eq_some_iff, Job.inScope]

/-- What one operation does to the row of a job: nothing, a statement, or its creation. -/
inductive RowEffect (now : ℕ) (s : Stores) (op : Op) (jobId : String) : Option Job → Prop where
  | same : RowEffect now s op jobId (s.findById jobId)
  | written (w : Write) (job : Job) (op_eq : op = .write jobId w)
      (row : s.findById jobId = some job) :
      RowEffect now s op jobId (some (w.apply now job))
  | created (job : Job) (op_eq : op = .insertJob job) (id : job.id = jobId)
      (free : s.findById jobId = none) : RowEffect now s op jobId (some job)

theorem run_row (now : ℕ) (s : Stores) (op : Op) (jobId : String) :
    RowEffect now s op jobId ((s.run now op).findById jobId) := by
  cases op with
  | insertJob job =>
      simp only [run]
      split_ifs
      · exact .same
      · cases hc : s.jobs.create job with
        | none => exact .same
        | some t =>
            simp only [findById, Option.getD_some, Table.create_findUnique hc]
            split_ifs with hk
            · subst hk
              exact .created job rfl rfl (Table.create_eq_some hc).1
            · exact .same
  | write id w =>
      simp only [run, findById, Table.findUnique_update]
      split_ifs with hk
      · subst hk
        cases hr : s.jobs.findUnique jobId with
        | none =>
            rw [Option.map_none, ← hr]
            exact .same
        | some job => exact .written w job rfl hr
      · exact .same
  | _ => exact .same

/-- A row stays, and only an operation on it changes it. -/
theorem run_row_after (now : ℕ) (op : Op) {s : Stores} {jobId : String} {job : Job}
    (hrow : s.findById jobId = some job) :
    (s.run now op).findById jobId = some job ∨
      ∃ w, op = .write jobId w ∧ (s.run now op).findById jobId = some (w.apply now job) := by
  have heff := run_row now s op jobId
  generalize (s.run now op).findById jobId = row at heff
  cases heff with
  | same => exact .inl hrow
  | written w job' op_eq row =>
      rw [row] at hrow
      cases hrow
      exact .inr ⟨w, op_eq, rfl⟩
  | created job' op_eq id free =>
      rw [free] at hrow
      cases hrow

/-- Where a row after an operation comes from. -/
theorem run_row_before {now : ℕ} {op : Op} {s : Stores} {jobId : String} {job' : Job}
    (hrow : (s.run now op).findById jobId = some job') :
    s.findById jobId = some job' ∨
    (∃ w job, op = .write jobId w ∧ s.findById jobId = some job ∧ job' = w.apply now job) ∨
      (op = .insertJob job' ∧ job'.id = jobId ∧ s.findById jobId = none) := by
  have heff := run_row now s op jobId
  rw [hrow] at heff
  generalize hr : some job' = row at heff
  cases heff with
  | same => exact .inl rfl
  | written w job op_eq before =>
      cases hr
      exact .inr (.inl ⟨w, job, op_eq, before, rfl⟩)
  | created job op_eq id free =>
      cases hr
      exact .inr (.inr ⟨op_eq, id, free⟩)

/-- An operation on another job's row, or on another store, keeps the row. -/
theorem run_row_of_not_write {now : ℕ} {s : Stores} {op : Op} {jobId : String} {job : Job}
    (hrow : s.findById jobId = some job) (hop : ∀ w, op ≠ .write jobId w) :
    (s.run now op).findById jobId = some job := by
  rcases run_row_after now op hrow with hkept | ⟨w, rfl, -⟩
  · exact hkept
  · exact (hop w rfl).elim

theorem run_row_write (now : ℕ) (s : Stores) (w : Write) (jobId : String) :
    (s.run now (.write jobId w)).findById jobId =
      (s.findById jobId).map fun job => w.apply now job := by
  simp [run, findById]

/-- Rows are never removed. -/
theorem run_row_some (now : ℕ) (op : Op) {s : Stores} {jobId : String} {job : Job}
    (hrow : s.findById jobId = some job) :
    ∃ job', (s.run now op).findById jobId = some job' ∧ job'.userId = job.userId := by
  rcases run_row_after now op hrow with hkept | ⟨w, -, hwritten⟩
  · exact ⟨job, hkept, rfl⟩
  · exact ⟨_, hwritten, w.apply_userId now job⟩

theorem run_queue_same {now : ℕ} {s : Stores} {op : Op} {jobId : String}
    (h : ∀ entry, op.newEntry ≠ some (jobId, entry)) :
    (s.run now op).queue jobId = s.queue jobId := by
  cases op with
  | setEntry id entry =>
      have hne : jobId ≠ id := by
        rintro rfl
        exact h entry rfl
      simp [run, hne]
  | insertJob job =>
      simp only [run]
      split_ifs <;> rfl
  | _ => rfl

theorem run_queue_set {now : ℕ} {s : Stores} {op : Op} {jobId : String} {entry : Option Entry}
    (h : op.newEntry = some (jobId, entry)) : (s.run now op).queue jobId = entry := by
  cases op with
  | setEntry id entry' =>
      cases h
      simp [run]
  | _ => cases h

/-- An object that is there after an operation was there before, or has just been put there. -/
theorem run_bucket_some {now : ℕ} {s : Stores} {op : Op} {key : String} {object : StoredObject}
    (h : (s.run now op).bucket key = some object) :
    s.bucket key = some object ∨ op = .putObject key object := by
  cases op with
  | putObject key' object' =>
      by_cases hkey : key = key'
      · subst hkey
        simp only [run, Function.update_self, Option.some.injEq] at h
        exact .inr (by rw [h])
      · simp only [run, Function.update_of_ne hkey] at h
        exact .inl h
  | deleteObjects keys =>
      simp only [run] at h
      split_ifs at h
      exact .inl h
  | insertJob job =>
      simp only [run] at h
      split_ifs at h <;> exact .inl h
  | _ => exact .inl h

/-- Where the status of a row after an operation comes from. -/
theorem run_status {now : ℕ} {s : Stores} {op : Op} {jobId : String} {job' : Job}
    (h : (s.run now op).findById jobId = some job') :
    (∃ job, s.findById jobId = some job ∧
      (job'.status = job.status ∨ op.newStatus = some (jobId, job'.status))) ∨
    (op.inserted = some job' ∧ s.findById jobId = none) := by
  rcases run_row_before h with hrow | ⟨w, job, rfl, hrow, rfl⟩ | ⟨rfl, -, hfree⟩
  · exact .inl ⟨job', hrow, .inl rfl⟩
  · refine .inl ⟨job, hrow, ?_⟩
    rw [w.apply_status]
    cases hw : w.newStatus with
    | none => exact .inl rfl
    | some status => exact .inr (by simp [Op.newStatus, hw])
  · exact .inr ⟨rfl, hfree⟩

/-- An operation that sets a status leaves the row with it. -/
theorem run_status_set {now : ℕ} {s : Stores} {op : Op} {jobId : String} {status : JobStatus}
    {job' : Job} (hset : op.newStatus = some (jobId, status))
    (h : (s.run now op).findById jobId = some job') : job'.status = status := by
  cases op with
  | write id w =>
      obtain ⟨st, hst, he⟩ := Option.map_eq_some_iff.mp hset
      cases he
      rw [run_row_write] at h
      obtain ⟨job, -, rfl⟩ := Option.map_eq_some_iff.mp h
      rw [w.apply_status, hst, Option.getD_some]
  | _ => cases hset

/-- A row keeps its status unless the operation sets it. -/
theorem run_status_kept (now : ℕ) (op : Op) {s : Stores} {jobId : String} {job : Job}
    (h : s.findById jobId = some job) :
    ∃ job', (s.run now op).findById jobId = some job' ∧
      (job'.status = job.status ∨ op.newStatus = some (jobId, job'.status)) := by
  obtain ⟨job', hrow, -⟩ := run_row_some now op h
  rcases run_status hrow with ⟨job₀, h₀, hst⟩ | ⟨-, hfree⟩
  · rw [h] at h₀
    cases h₀
    exact ⟨job', hrow, hst⟩
  · rw [hfree] at h
    cases h

end Stores
end FieldNote
