import FieldNote.StageMoves

/-!
# What a failure leaves of one job

The status and error message of its row, its queue entry, its `pipeline failed` events and
its dead letters, for a row that stays live, owned and with a recording. Operations about
other jobs leave all of it, and so do the other fields of the row.
-/
namespace FieldNote.JobViews
open JobsService PipelineService ServerRuns CallPool

/-- The job an operation on an existing row, the queue or a log is about. -/
def subject : Op → Option String
  | .write jobId _ => some jobId
  | .addEvent event => some event.jobId
  | .setEntry jobId _ => some jobId
  | .addDlq entry => some entry.jobId
  | _ => none

/-- The job a thread works on; `create` has none yet. -/
def threadJob : Thread → Option String
  | .create _ => none
  | .process c => some c.jobId
  | .update c => some c.jobId
  | .remove c => some c.jobId
  | .attempt a => some a.jobId
  | .body b => some b.jobId
  | .handler h => some h.jobId

/-- A `pipeline failed` event of the job. -/
def isFailure (jobId : String) (event : ProcessingEvent) : Bool :=
  event.jobId = jobId && event.stage = "pipeline" && event.status = "failed"

def failedEvents (jobId : String) (s : Stores) : List ProcessingEvent := s.events.filter (isFailure jobId)

def deadLetters (jobId : String) (s : Stores) : List DlqEntry := s.dlq.filter fun d => d.jobId = jobId

structure View where
  status : JobStatus
  message : Option String
  entry : Option Entry
  failures : List ProcessingEvent
  parked : List DlqEntry

/-- The row is live, the user's, and has an audio key. -/
structure Owned (userId : String) (job : Job) : Prop where
  user : job.userId = userId
  live : job.deletedAt = none
  audio : (job.audioKey.filter (· ≠ "")).isSome = true

/-- The stores show the view of the job. -/
structure Shows (jobId userId : String) (s : Stores) (v : View) : Prop where
  row : ∃ job, s.findById jobId = some job ∧ Owned userId job ∧ job.status = v.status ∧
    job.errorMessage = v.message
  entry : s.queue jobId = v.entry
  failures : failedEvents jobId s = v.failures
  parked : deadLetters jobId s = v.parked

variable {cfg : ServerConfig} {w : World} {jobId userId : String} {s : Stores} {v : View} {op : Op}
  {now : ℕ}

/-- A segment of a thread is about no job or about the thread's own. -/
theorem next_subject {env : Env} {t t' : Thread} {spawned : List Thread}
    (h : next cfg w env t = some (t', op, spawned)) :
    subject op = none ∨ subject op = threadJob t := by
  cases next_operates h with
  | none => exact .inl rfl
  | create c => exact .inl rfl
  | deleteObjects c job pc => exact .inl rfl
  | putObject b view pc => exact .inl rfl
  | stageEvent a event job => exact .inr (congrArg some job)
  | failureEvent h event job => exact .inr (congrArg some job)
  | _ => exact .inr rfl

/-- Operations about other jobs do not show. -/
theorem Shows.other (h : Shows jobId userId s v) (hop : subject op ≠ some jobId) :
    Shows jobId userId (s.run now op) v := by
  obtain ⟨⟨job, hrow, hrest⟩, hentry, hfail, hpark⟩ := h
  refine ⟨⟨job, ?_, hrest⟩, ?_, ?_, ?_⟩
  · apply Stores.run_row_of_not_write hrow
    rintro wr rfl
    exact hop rfl
  · rw [← hentry]
    apply Stores.run_queue_same
    intro e he
    cases op with
    | setEntry id entry =>
        cases he
        exact hop rfl
    | _ => cases he
  · rw [← hfail]
    cases op with
    | addEvent event =>
        have hne : isFailure jobId event = false := by
          have hid : event.jobId ≠ jobId := fun he => hop (congrArg some he)
          simp [isFailure, hid]
        simp [failedEvents, Stores.run, hne]
    | insertJob job =>
        simp only [failedEvents, Stores.run]
        split_ifs <;> rfl
    | _ => rfl
  · rw [← hpark]
    cases op with
    | addDlq entry =>
        have hne : entry.jobId ≠ jobId := fun he => hop (congrArg some he)
        simp [deadLetters, Stores.run, hne]
    | insertJob job =>
        simp only [deadLetters, Stores.run]
        split_ifs <;> rfl
    | _ => rfl

/-- A statement of the job that leaves its owner, its deletion and its audio key. -/
theorem Shows.write (wr : Write) (h : Shows jobId userId s v)
    (hwr : ∀ job, Owned userId job → Owned userId (wr.apply now job)) {status : JobStatus}
    {message : Option String} (hstatus : wr.newStatus.getD v.status = status)
    (hmessage : ∀ job : Job, job.errorMessage = v.message → (wr.apply now job).errorMessage = message) :
    Shows jobId userId (s.run now (.write jobId wr)) { v with status := status, message := message } := by
  obtain ⟨⟨job, hrow, howned, hst, hmsg⟩, hentry, hfail, hpark⟩ := h
  refine ⟨⟨wr.apply now job, ?_, hwr job howned, ?_, hmessage job hmsg⟩, hentry, hfail, hpark⟩
  · rw [Stores.run_row_write, hrow, Option.map_some]
  · rw [Write.apply_status, hst, hstatus]

theorem Shows.setStatus {status : JobStatus} {message : Option (Option String)}
    (h : Shows jobId userId s v) :
    Shows jobId userId (s.run now (.write jobId (.setStatus status message)))
      { v with status := status, message := message.getD v.message } :=
  h.write (.setStatus status message) (fun _ ho => ⟨ho.user, ho.live, ho.audio⟩) rfl fun _ hm => congrArg message.getD hm

theorem Shows.saveTranscript {text : String} (h : Shows jobId userId s v) :
    Shows jobId userId (s.run now (.write jobId (.saveTranscript text))) v :=
  h.write (.saveTranscript text) (fun _ ho => ⟨ho.user, ho.live, ho.audio⟩) rfl fun _ hm => hm

theorem Shows.replaceReport {sections : List ReportSection} (h : Shows jobId userId s v) :
    Shows jobId userId (s.run now (.write jobId (.replaceReport sections))) v :=
  h.write (.replaceReport sections) (fun _ ho => ⟨ho.user, ho.live, ho.audio⟩) rfl fun _ hm => hm

theorem Shows.setPdfReady {key : String} (h : Shows jobId userId s v) :
    Shows jobId userId (s.run now (.write jobId (.setPdfReady key)))
      { v with status := .READY, message := none } :=
  h.write (.setPdfReady key) (fun _ ho => ⟨ho.user, ho.live, ho.audio⟩) rfl fun _ _ => rfl

theorem Shows.setEntry {e : Option Entry} (h : Shows jobId userId s v) :
    Shows jobId userId (s.run now (.setEntry jobId e)) { v with entry := e } :=
  ⟨h.row, Stores.run_queue_set rfl, h.failures, h.parked⟩

/-- The events of the stages do not show. -/
theorem Shows.stageEvent {stage : Stage} {status : String} {message : Option String}
    (h : Shows jobId userId s v) :
    Shows jobId userId (s.run now (.addEvent ⟨jobId, stage.name, status, message⟩)) v := by
  have hne : isFailure jobId ⟨jobId, stage.name, status, message⟩ = false := by
    cases stage <;> simp [isFailure, Stage.name]
  refine ⟨h.row, h.entry, ?_, h.parked⟩
  rw [← h.failures]
  simp [failedEvents, Stores.run, hne]

theorem Shows.failureEvent {message : Option String} (h : Shows jobId userId s v) :
    Shows jobId userId (s.run now (.addEvent ⟨jobId, "pipeline", "failed", message⟩))
      { v with failures := v.failures ++ [⟨jobId, "pipeline", "failed", message⟩] } := by
  refine ⟨h.row, h.entry, ?_, h.parked⟩
  rw [← h.failures]
  simp [failedEvents, Stores.run, isFailure]

theorem Shows.addDlq {user error : String} {made : ℕ} (h : Shows jobId userId s v) :
    Shows jobId userId (s.run now (.addDlq ⟨jobId, user, error, made⟩))
      { v with parked := v.parked ++ [⟨jobId, user, error, made⟩] } := by
  refine ⟨h.row, h.entry, h.failures, ?_⟩
  rw [← h.parked]
  simp [deadLetters, Stores.run]

end FieldNote.JobViews
