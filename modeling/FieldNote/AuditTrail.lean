import FieldNote.SequentialOutcome
import FieldNote.SoleActor

/-!
# The audit trail of a job

The processing events of one job, beside the stage that each of its attempts failed in. An
attempt and its failure handling write one block: a pair for each stage that completed, in the
order of the stages, a pair for the stage that failed, and the `pipeline failed` event of the
terminal handler. The attempts do not overlap and their event writes succeed. Reads, status
updates and stage bodies may fail, with or without effect, and other jobs are not restricted.
-/
namespace FieldNote.AuditTrail
open JobsService PipelineService ServerRuns CallPool GuardedRuns SoleActor

/-- Stage and status of the events of the job, in order. -/
def trail (jobId : String) (s : Stores) : List (String × String) :=
  (s.events.filter fun event => event.jobId = jobId).map fun event => (event.stage, event.status)

def started (stage : Stage) : String × String := (stage.name, "started")
def completed (stage : Stage) : String × String := (stage.name, "completed")
def failed (stage : Stage) : String × String := (stage.name, "failed")
def pipelineFailed : String × String := ("pipeline", "failed")

/-- The stages in the order of `process`. -/
def stages : List Stage := [.transcribe, .compile, .render]

def pairs (done : List Stage) : List (String × String) :=
  done.flatMap fun stage => [started stage, completed stage]

/-- What one attempt and its failure handling write. -/
structure Block where
  completed : List Stage
  failed : Option Stage
  reported : Bool
  ordered : (completed ++ failed.toList).Sublist stages

def Block.events (b : Block) : List (String × String) :=
  pairs b.completed ++ (b.failed.toList.flatMap fun stage => [started stage, AuditTrail.failed stage]) ++
    if b.reported then [pipelineFailed] else []

def blockEvents (blocks : List Block) : List (String × String) := blocks.flatMap Block.events

/-- The thread is an attempt of the job, or its failure handling, that has not ended. -/
def working (jobId : String) : Thread → Bool
  | .attempt a => a.jobId = jobId && a.pc ≠ .acked
  | .handler h => h.jobId = jobId && h.pc ≠ .done
  | _ => false

def idle (jobId : String) (w : World) : Bool := w.threads.all fun t => !working jobId t

def isReady (jobId : String) (w : World) : Bool :=
  (w.stores.findById jobId).any fun job => job.status = .READY

/-- What a segment may do to the job: `process` resets the status between attempts, nobody
deletes the row, and a body saves a transcript or marks the job READY only while it is raced. -/
def admitted (jobId : String) (w : World) (i : ℕ) : Thread → Bool
  | .process c => c.jobId ≠ jobId || match c.pc with
      | .setStatus _ => idle jobId w
      | _ => true
  | .remove c => c.jobId ≠ jobId || match c.pc with
      | .softDelete _ => false
      | _ => true
  | .body b => b.jobId ≠ jobId || match b.pc with
      | .saveTranscript _ | .setPdfReady _ => SequentialOutcome.raced jobId w i
      | _ => true
  | _ => true

/-- The next `await` writes an event of the job. -/
def writesEvent (jobId : String) : Thread → Bool
  | .attempt a => a.jobId = jobId && match a.pc with
      | .addStarted _ | .addCompleted _ _ | .addFailed _ _ | .marking _ (.addEvent _) => true
      | _ => false
  | .handler h => h.jobId = jobId && match h.pc with
      | .marking (.addEvent _) => true
      | _ => false
  | _ => false

/-- The entry of the job carries the owner of the row. -/
def ownEntry (jobId : String) (w : World) : Bool :=
  (w.stores.queue jobId).all fun entry =>
    (w.stores.findById jobId).all fun job => job.userId = entry.userId

/-- An attempt is picked when the one before it and its failure handling have ended, the event
writes succeed, and the segments are admitted. -/
def orderly (jobId : String) (w : World) : Action → Bool
  | .pick id => id ≠ jobId || (idle jobId w && ownEntry jobId w)
  | .step i _ => (w.threads[i]?).all (admitted jobId w i)
  | .throw i _ _ applied => (w.threads[i]?).all fun t =>
      !writesEvent jobId t && (!applied || admitted jobId w i t)
  | _ => true

def isError : Except Err StageResult → Bool
  | .error _ => true
  | .ok _ => false

/-- The segment writes another status, or finds that the body of the render stage has failed. -/
def revokes (jobId : String) (w : World) : Thread → Bool
  | .process c => c.jobId = jobId && match c.pc with
      | .setStatus _ => true
      | _ => false
  | .attempt a => a.jobId = jobId && match a.pc with
      | .racing work body => work.stage = .render && (w.bodyResult body).any isError
      | .marking _ (.setStatus _) => true
      | _ => false
  | .handler h => h.jobId = jobId && match h.pc with
      | .marking (.setStatus _) => true
      | _ => false
  | _ => false

/-- The thread waits for the render stage of the job. -/
def rendering (jobId : String) : Thread → Bool
  | .attempt a => a.jobId = jobId && match a.pc with
      | .racing work _ => work.stage = .render
      | _ => false
  | _ => false

/-- While the row is READY, the render stage does not fail, by an error of its body or by its
timeout, and neither `process` nor `markFailed` sets a status. -/
def keepsReady (jobId : String) (w : World) : Action → Bool
  | .step i _ | .throw i _ _ true => !(isReady jobId w && (w.threads[i]?).any (revokes jobId w))
  | .timeout i => !(isReady jobId w && (w.threads[i]?).any (rendering jobId))
  | _ => true

/-- The thread that an action has moved. -/
def moved (w' : World) : Action → Option Thread
  | .step i _ | .throw i _ _ _ | .timeout i => w'.threads[i]?
  | _ => none

/-- The stage whose failure an attempt of the job has just caught. -/
def caught (jobId : String) : Thread → Option Stage
  | .attempt a =>
      match a.pc with
      | .addFailed work _ => if a.jobId = jobId then some work.stage else none
      | _ => none
  | _ => none

/-- The last attempt has failed in a stage, or not. -/
def mark (attempts : List (Option Stage)) : Option Stage → List (Option Stage)
  | some stage => attempts.dropLast ++ [some stage]
  | none => attempts

/-- The attempts of the job so far, each with the stage it failed in. -/
def record (jobId : String) (w' : World) (act : Action) (attempts : List (Option Stage)) :
    List (Option Stage) :=
  match act with
  | .pick id => if id = jobId then attempts ++ [none] else attempts
  | _ => mark attempts ((moved w' act).bind (caught jobId))

def recorded (cfg : ServerConfig) (jobId : String) (s : World × List (Option Stage)) (act : Action) :
    Option (World × List (Option Stage)) :=
  (step cfg s.1 act).map fun w' => (w', record jobId w' act s.2)

/-- What the stores say about the job. -/
structure Reading where
  status : JobStatus
  transcript : Option String
  trail : List (String × String)

structure Reads (jobId : String) (s : Stores) (r : Reading) : Prop where
  row : ∃ job, s.findById jobId = some job ∧ job.status = r.status ∧ job.transcript = r.transcript
  trail : AuditTrail.trail jobId s = r.trail

/-- The reading after an operation. -/
def Reading.after (jobId : String) (r : Reading) : Op → Reading
  | .write id wr =>
      if id = jobId then
        { r with
          status := wr.newStatus.getD r.status
          transcript := wr.newTranscript.or r.transcript }
      else r
  | .addEvent event =>
      if event.jobId = jobId then { r with trail := r.trail ++ [(event.stage, event.status)] } else r
  | _ => r

variable {cfg : ServerConfig} {w w' : World} {jobId : String} {s : Stores} {r : Reading} {op : Op}
  {now : ℕ}

theorem reads_run (now : ℕ) (op : Op) (h : Reads jobId s r) :
    Reads jobId (s.run now op) (r.after jobId op) := by
  obtain ⟨⟨job, hrow, hstatus, htext⟩, htrail⟩ := h
  have hkept : (∀ wr, op ≠ .write jobId wr) → ∃ job, (s.run now op).findById jobId = some job ∧
      job.status = r.status ∧ job.transcript = r.transcript :=
    fun hop => ⟨job, Stores.run_row_of_not_write hrow hop, hstatus, htext⟩
  cases op with
  | write id wr =>
      by_cases hid : id = jobId
      · subst hid
        simp only [Reading.after, if_true]
        refine ⟨⟨wr.apply now job, ?_, ?_, ?_⟩, htrail⟩
        · rw [Stores.run_row_write, hrow, Option.map_some]
        · rw [Write.apply_status, hstatus]
        · rw [Write.apply_transcript, htext]
      · simp only [Reading.after, if_neg hid]
        refine ⟨hkept ?_, htrail⟩
        intro wr' he
        cases he
        exact hid rfl
  | addEvent event =>
      have hrow' := hkept (by simp)
      by_cases hid : event.jobId = jobId
      · simp only [Reading.after, if_pos hid]
        refine ⟨hrow', ?_⟩
        rw [← htrail]
        simp [AuditTrail.trail, Stores.run, hid]
      · simp only [Reading.after, if_neg hid]
        refine ⟨hrow', ?_⟩
        rw [← htrail]
        simp [AuditTrail.trail, Stores.run, hid]
  | insertJob job' =>
      refine ⟨hkept (by simp), htrail ▸ ?_⟩
      simp only [AuditTrail.trail, Stores.run]
      split_ifs <;> rfl
  | _ => exact ⟨hkept (by simp), htrail⟩

@[simp] theorem after_none : r.after jobId .none = r := rfl

@[simp] theorem after_event {stage status : String} {message : Option String} :
    r.after jobId (.addEvent ⟨jobId, stage, status, message⟩) =
      { r with trail := r.trail ++ [(stage, status)] } := by
  simp [Reading.after]

@[simp] theorem after_setStatus {status : JobStatus} {message : Option (Option String)} :
    r.after jobId (.write jobId (.setStatus status message)) = { r with status := status } := by
  simp [Reading.after, Write.newStatus, Write.newTranscript]

/-- An operation about another job is not read. -/
theorem after_other (hop : JobViews.subject op ≠ some jobId) : r.after jobId op = r := by
  cases op with
  | write id wr => exact if_neg fun hid => hop (congrArg some hid)
  | addEvent event => exact if_neg fun hid => hop (congrArg some hid)
  | _ => rfl

end FieldNote.AuditTrail
