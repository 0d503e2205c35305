import FieldNote.JobsService

/-!
# The processing pipeline

One attempt of `PipelineService.process`, the stage bodies it races against a timeout, and
the failure handler of the processor. A body is started as a promise of its own and keeps
running when the timeout wins the race, so it is a thread of its own that the attempt only
looks at. The answers of the transcription and compiler services are the environment's.
-/
namespace FieldNote.PipelineService
open JobsService

/-- A thrown error. `permanent` is the flag errors of the AI services carry. -/
structure Err where
  message : String
  permanent : Bool := false
  unrecoverable : Bool := false
deriving DecidableEq, Repr

/-- `isPermanent`. -/
def Err.isPermanent (e : Err) : Bool := e.permanent || e.unrecoverable

/-- `new UnrecoverableError(message)`. -/
def unrecoverableError (message : String) : Err := ⟨message, false, true⟩

def emptyTranscriptError : Err :=
  ⟨"Transcription produced no text — the recording appears to be silent or empty.", true, false⟩

inductive Stage where
  | transcribe
  | compile
  | render
deriving DecidableEq, Repr

def Stage.name : Stage → String
  | .transcribe => "transcribe"
  | .compile => "compile"
  | .render => "render"

def Stage.status : Stage → JobStatus
  | .transcribe => .TRANSCRIBING
  | .compile => .COMPILING
  | .render => .RENDERING

def stageTimeoutError (cfg : ServerConfig) (stage : Stage) : Err :=
  ⟨"Stage \"" ++ stage.name ++ "\" exceeded " ++ toString cfg.stageTimeoutMs ++ "ms timeout",
    false, false⟩

/-- What an attempt keeps of the row it read. -/
structure Snapshot where
  label : String
  audioKey : String
  transcript : Option String
  existing : List ReportSectionInput
deriving DecidableEq, Repr

/-- A stage with the arguments its body closes over. -/
inductive Work where
  | transcribe (job : Snapshot)
  | compile (job : Snapshot) (transcript : String)
  | render (label : String) (sections : List ReportSectionInput)
deriving DecidableEq, Repr

def Work.stage : Work → Stage
  | .transcribe _ => .transcribe
  | .compile _ _ => .compile
  | .render _ _ => .render

/-- What a body resolves to: a transcript, sections, or nothing. -/
structure StageResult where
  transcript : String := ""
  sections : List ReportSectionInput := []
deriving DecidableEq, Repr

/-- Program points of `markFailed`; `message` is already cut to 1000 code units. -/
inductive MarkPc where
  | rawById
  | setStatus (message : String)
  | addEvent (message : String)
deriving DecidableEq, Repr

/-- Program points of one attempt. In `racing` it awaits the race of the body thread and
the stage timeout; `settled` is the processor promise, which `acked` has been reported to
BullMQ. -/
inductive AttemptPc where
  | findById
  | setStatus (work : Work)
  | addStarted (work : Work)
  | racing (work : Work) (body : ℕ)
  | addCompleted (work : Work) (result : StageResult)
  | addFailed (work : Work) (error : Err)
  | marking (error : Err) (pc : MarkPc)
  | settled (error : Option Err)
  | acked
deriving DecidableEq, Repr

structure Attempt where
  jobId : String
  userId : String
  pc : AttemptPc
deriving DecidableEq, Repr

/-- Program points of the three stage bodies. -/
inductive BodyPc where
  | getObjectStream (audioKey : String)
  | transcribe (audioKey : String)
  | saveTranscript (transcript : String)
  | compile (label transcript : String)
  | replaceReport (sections : List ReportSectionInput)
  | render (view : ReportView)
  | putObject (view : ReportView)
  | setPdfReady (view : ReportView)
  | done (result : Except Err StageResult)
deriving DecidableEq

structure Body where
  jobId : String
  userId : String
  pc : BodyPc
deriving DecidableEq

inductive HandlerPc where
  | marking (pc : MarkPc)
  | addDlq
  | done
deriving DecidableEq, Repr

/-- One run of `handleFailure` past its test for a terminal failure. -/
structure Handler where
  jobId : String
  userId : String
  error : Err
  attemptsMade : ℕ
  pc : HandlerPc
deriving DecidableEq, Repr

/-- `compileStage`, up to its first `await` or into the next stage. -/
def compileStage (job : Snapshot) (transcript : String) : AttemptPc :=
  if job.existing = [] then .setStatus (.compile job transcript)
  else .setStatus (.render job.label job.existing)

/-- `transcribeStage`, likewise. -/
def transcribeStage (job : Snapshot) : AttemptPc :=
  match job.transcript with
  | none => .setStatus (.transcribe job)
  | some transcript =>
      if JsText.trim transcript = "" then .setStatus (.transcribe job)
      else compileStage job transcript

/-- The checks after `findById`, in order; an empty audio key counts as missing. -/
def afterFindById (jobId userId : String) : Option Job → AttemptPc
  | none => .settled none
  | some job =>
      if job.deletedAt.isSome then .settled none
      else if job.userId ≠ userId then
        .settled (some (unrecoverableError
          ("Job " ++ jobId ++ " owner mismatch; refusing to process.")))
      else if job.status = .READY then .settled none
      else
        match job.audioKey.filter (· ≠ "") with
        | none =>
            .settled (some (unrecoverableError
              ("Job " ++ jobId ++ " has no audio key; cannot process.")))
        | some key => transcribeStage ⟨job.label, key, job.transcript, job.existingReport⟩

/-- What follows a completed stage. -/
def afterStage (work : Work) (result : StageResult) : AttemptPc :=
  match work with
  | .transcribe job => compileStage job result.transcript
  | .compile job _ => .setStatus (.render job.label result.sections)
  | .render _ _ => .settled none

/-- The `catch` of `process`. -/
def afterThrow (e : Err) : AttemptPc :=
  if e.isPermanent then .marking e .rawById else .settled (some e)

/-- What `process` throws after `markFailed`. -/
def afterMarking (e : Err) : AttemptPc :=
  .settled (some (if e.unrecoverable then e else unrecoverableError e.message))

def toReportView (jobId label : String) (generatedAt : ℕ) (sections : List ReportSectionInput) :
    ReportView :=
  ⟨jobId, label, generatedAt, sections.map fun s =>
    ⟨s.title, s.findings.map fun f => ⟨f.text, severityToApi f.severity⟩⟩⟩

/-- The body's first segment runs when the stage calls it. -/
def startBody (jobId : String) (now : ℕ) : Work → BodyPc
  | .transcribe job => .getObjectStream job.audioKey
  | .compile job transcript => .compile job.label transcript
  | .render label sections => .render (toReportView jobId label now sections)

/-- A pair of surrogates that is cut leaves the replacement character here. Postgres refuses the
lone half, so there the statement that writes it throws. -/
def truncate (message : String) : String := JsText.slice 1000 message

/-- One segment of `markFailed`; `none` is its end. -/
def nextMark (s : Stores) (jobId message : String) : MarkPc → Option MarkPc × Op
  | .rawById =>
      match s.findById jobId with
      | none => (none, .none)
      | some job =>
          if job.status = .FAILED then (none, .none)
          else (some (.setStatus (truncate message)), .none)
  | .setStatus message =>
      (some (.addEvent message), .write jobId (.setStatus .FAILED (some (some message))))
  | .addEvent message => (none, .addEvent ⟨jobId, "pipeline", "failed", some message⟩)

/-- `markFailed` goes on unless the row is missing or already FAILED. -/
theorem nextMark_rawById {s : Stores} {jobId message : String} {mark : Option MarkPc} {op : Op}
    (h : nextMark s jobId message .rawById = (mark, op)) :
    op = .none ∧ (mark = some (.setStatus (truncate message)) ∨
      mark = none ∧ ∀ job, s.findById jobId = some job → job.status = .FAILED) := by
  unfold nextMark at h
  dsimp only at h
  split at h
  · rename_i hnone
    cases h
    exact ⟨rfl, .inr ⟨rfl, by simp [hnone]⟩⟩
  · rename_i job hjob
    split_ifs at h with hst
    · cases h
      refine ⟨rfl, .inr ⟨rfl, ?_⟩⟩
      intro job' hjob'
      rw [hjob] at hjob'
      cases hjob'
      exact hst
    · cases h
      exact ⟨rfl, .inl rfl⟩

/-- One segment of an attempt, given the result of the body it races. -/
def nextAttempt (s : Stores) (a : Attempt) (bodyCount : ℕ)
    (body : ℕ → Option (Except Err StageResult)) : Option (AttemptPc × Op) :=
  match a.pc with
  | .findById => some (afterFindById a.jobId a.userId (s.findById a.jobId), .none)
  | .setStatus work =>
      some (.addStarted work, .write a.jobId (.setStatus work.stage.status none))
  | .addStarted work =>
      some (.racing work bodyCount, .addEvent ⟨a.jobId, work.stage.name, "started", none⟩)
  | .racing work i =>
      match body i with
      | none => none
      | some (.ok result) => some (.addCompleted work result, .none)
      | some (.error e) => some (.addFailed work e, .none)
  | .addCompleted work result =>
      some (afterStage work result, .addEvent ⟨a.jobId, work.stage.name, "completed", none⟩)
  | .addFailed work e =>
      some (afterThrow e,
        .addEvent ⟨a.jobId, work.stage.name, "failed", some (truncate e.message)⟩)
  | .marking e pc =>
      match nextMark s a.jobId e.message pc with
      | (none, op) => some (afterMarking e, op)
      | (some pc, op) => some (.marking e pc, op)
  | .settled _ => none
  | .acked => none

/-- An `await` of the attempt throws `e`. Only the read lies outside the `try`; the
`completed` event is inside the stage's own `try`. -/
def Attempt.throwing (a : Attempt) (e : Err) : Option AttemptPc :=
  match a.pc with
  | .findById => some (.settled (some e))
  | .setStatus _ | .addStarted _ => some (afterThrow e)
  | .racing _ _ => none
  | .addCompleted work _ => some (.addFailed work e)
  | .addFailed _ _ => some (afterThrow e)
  | .marking _ _ => some (.settled (some e))
  | .settled _ => none
  | .acked => none

/-- One segment of a stage body. -/
def nextBody (s : Stores) (env : Env) (b : Body) : Option (BodyPc × Op) :=
  match b.pc with
  | .getObjectStream key =>
      if (s.bucket key).isSome then some (.transcribe key, .none)
      else some (.done (.error ⟨"The specified key does not exist.", false, false⟩), .none)
  | .transcribe _ =>
      if JsText.trim env.text = "" then some (.done (.error emptyTranscriptError), .none)
      else some (.saveTranscript (JsText.trim env.text), .none)
  | .saveTranscript transcript =>
      some (.done (.ok { transcript := transcript }), .write b.jobId (.saveTranscript transcript))
  | .compile _ _ => some (.replaceReport env.sections, .none)
  | .replaceReport sections =>
      some (.done (.ok { sections := sections }),
        .write b.jobId (.replaceReport (insertSections env.rowId sections)))
  | .render view => some (.putObject view, .none)
  | .putObject view =>
      some (.setPdfReady view, .putObject (pdfKey b.userId b.jobId) (.pdf view))
  | .setPdfReady _ =>
      some (.done (.ok {}), .write b.jobId (.setPdfReady (pdfKey b.userId b.jobId)))
  | .done _ => none

def Body.throwing (b : Body) (e : Err) : Option BodyPc :=
  match b.pc with
  | .done _ => none
  | _ => some (.done (.error e))

/-- One segment of `handleFailure`. -/
def nextHandler (s : Stores) (h : Handler) : Option (HandlerPc × Op) :=
  match h.pc with
  | .marking pc =>
      match nextMark s h.jobId h.error.message pc with
      | (none, op) => some (.addDlq, op)
      | (some pc, op) => some (.marking pc, op)
  | .addDlq => some (.done, .addDlq ⟨h.jobId, h.userId, h.error.message, h.attemptsMade⟩)
  | .done => none

/-- A failed write in the handler is only logged. -/
def Handler.throwing (h : Handler) : Option HandlerPc :=
  match h.pc with
  | .done => none
  | _ => some .done

end FieldNote.PipelineService
