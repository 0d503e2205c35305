import FieldNote.JobViews

/-!
# The outcome of attempts that do not overlap

The calls, attempts and failure handlers of one job follow one another, its database and
queue writes succeed, and nothing else touches it. The result of a stage, its errors and its
timeouts are free, and so is everything about other jobs. When an entry is finished the row,
the events and the dead letters tell how its last attempt ended.
-/
namespace FieldNote.SequentialOutcome
open JobsService PipelineService ServerRuns JobViews CallPool GuardedRuns

/-- The thread changes what the job shows, or may still do so. A stage body is not counted: the
attempt that races it is. -/
def controls (jobId : String) : Thread → Bool
  | .create _ | .body _ => false
  | .process c => c.jobId = jobId && match c.pc with
      | .findAgain _ | .returned _ | .threw _ => false
      | _ => true
  | .update c => c.jobId = jobId && match c.pc with
      | .findOne | .returned _ | .threw _ => false
      | _ => true
  | .remove c => c.jobId = jobId && match c.pc with
      | .returned | .threw _ => false
      | _ => true
  | .attempt a => a.jobId = jobId && a.pc ≠ .acked
  | .handler h => h.jobId = jobId && h.pc ≠ .done

def idle (jobId : String) (w : World) : Bool := w.threads.all fun t => !controls jobId t

/-- An attempt of the job races thread `i`. -/
def raced (jobId : String) (w : World) (i : ℕ) : Bool :=
  w.threads.any fun
    | .attempt a => a.jobId = jobId && match a.pc with
        | .racing _ k => k = i
        | _ => false
    | _ => false

/-- The body of a stage that was given up does not mark the job READY. -/
def inTime (jobId : String) (w : World) (i : ℕ) (b : Body) : Bool :=
  match b.pc with
  | .setPdfReady _ => b.jobId ≠ jobId || raced jobId w i
  | _ => true

/-- `process` calls and picks of the job find it idle, nobody edits or deletes it, and only its
stage bodies and the read of an attempt fail. -/
def sequential (jobId : String) (w : World) : Action → Bool
  | .call request =>
      match request with
      | .create _ _ _ => true
      | .process _ id => id ≠ jobId || idle jobId w
      | .update _ id _ => id ≠ jobId
      | .remove _ id => id ≠ jobId
  | .pick id => id ≠ jobId || idle jobId w
  | .step i _ =>
      match w.threads[i]? with
      | some (.body b) => inTime jobId w i b
      | _ => true
  | .throw i _ _ _ =>
      match w.threads[i]? with
      | some (.body b) => inTime jobId w i b
      | some (.attempt a) => a.jobId ≠ jobId || a.pc = .findById
      | some t => !controls jobId t
      | none => true
  | _ => true

/-- What the job showed when `process` added its entry, and how the entry's last attempt ended. -/
structure Watch where
  failures : List ProcessingEvent
  parked : List DlqEntry
  outcome : Option (Option Err)

/-- The end of the attempt that an action reports to BullMQ. -/
def reported (jobId : String) (w : World) : Action → Option (Option Err)
  | .ack i =>
      match w.threads[i]? with
      | some (.attempt a) =>
          match a.pc with
          | .settled e => if a.jobId = jobId then some e else none
          | _ => none
      | _ => none
  | _ => none

/-- A new watch begins when an entry is added. -/
def watch (jobId : String) (w w' : World) (act : Action) (note : Option Watch) : Option Watch :=
  if (w.stores.queue jobId).isNone && (w'.stores.queue jobId).isSome then
    some ⟨failedEvents jobId w'.stores, deadLetters jobId w'.stores, none⟩
  else
    match reported jobId w act with
    | some outcome => note.map fun n => { n with outcome := some outcome }
    | none => note

def watched (cfg : ServerConfig) (jobId : String) (s : World × Option Watch) (act : Action) :
    Option (World × Option Watch) :=
  (step cfg s.1 act).map fun w' => (w', watch jobId s.1 w' act s.2)

/-- Nothing of a failure is recorded since the entry was added. -/
structure Clean (n : Watch) (v : View) : Prop where
  status : v.status = .READY ∨ v.status.inFlight = true
  message : v.message = none
  failures : v.failures = n.failures
  parked : v.parked = n.parked

/-- The row is marked FAILED, with these events and dead letters since the entry was added. -/
structure Failed (n : Watch) (v : View) (message : String) (failures : List ProcessingEvent)
    (parked : List DlqEntry) : Prop where
  status : v.status = .FAILED
  message : v.message = some (truncate message)
  failures : v.failures = n.failures ++ failures
  parked : v.parked = n.parked ++ parked

def pipelineFailed (jobId message : String) : ProcessingEvent :=
  ⟨jobId, "pipeline", "failed", some (truncate message)⟩

/-- No entry is waiting, delayed or active. -/
def resting (entry : Option Entry) : Prop :=
  ∀ e, entry = some e → e.state = .completed ∨ e.state = .failed

/-- What the job shows while nothing controls it. -/
inductive Quiet (jobId userId : String) (v : View) : Option Watch → Prop where
  | unused (resting : resting v.entry) : Quiet jobId userId v none
  | pending (n : Watch) (entry : Entry) (queued : v.entry = some entry)
      (state : entry.state = .waiting ∨ entry.state = .delayed) (user : entry.userId = userId)
      (clean : Clean n v) : Quiet jobId userId v (some n)
  | ready (n : Watch) (reported : n.outcome = some none)
      (state : ∀ e, v.entry = some e → e.state = .completed) (status : v.status = .READY)
      (clean : Clean n v) : Quiet jobId userId v (some n)
  | failed (n : Watch) (e : Err) (made : ℕ) (entry : Entry) (reported : n.outcome = some (some e))
      (queued : v.entry = some entry) (state : entry.state = .failed)
      (failed : Failed n v e.message [pipelineFailed jobId e.message]
        [⟨jobId, userId, e.message, made⟩]) : Quiet jobId userId v (some n)

/-- The queue entry that a `process` call replaces. -/
def Replaced (v : View) (note : Option Watch) : Prop :=
  note = none ∧ resting v.entry ∨ ∃ entry, v.entry = some entry ∧ entry.state = .failed

/-- Program points of `markFailed`, with what is recorded there. -/
inductive Marking (n : Watch) (v : View) (message : String) : MarkPc → Prop where
  | rawById (clean : Clean n v) : Marking n v message .rawById
  | setStatus (clean : Clean n v) : Marking n v message (.setStatus (truncate message))
  | addEvent (failed : Failed n v message [] []) : Marking n v message (.addEvent (truncate message))

/-- Program points of an attempt, with what is recorded there and what its body has done. -/
inductive Working (jobId : String) (threads : List Thread) (n : Watch) (v : View) :
    AttemptPc → Prop where
  | reading (clean : Clean n v) : Working jobId threads n v .findById
  | announcing (work : Work) (clean : Clean n v) : Working jobId threads n v (.setStatus work)
  | starting (work : Work) (clean : Clean n v) : Working jobId threads n v (.addStarted work)
  | racing (work : Work) (i : ℕ) (b : Body) (at_ : threads[i]? = some (.body b))
      (job : b.jobId = jobId) (serves : serves work.stage b.pc = true)
      (done : work.stage = .render → ∀ r, b.pc = .done (.ok r) → v.status = .READY)
      (clean : Clean n v) : Working jobId threads n v (.racing work i)
  | completing (work : Work) (result : StageResult)
      (done : work.stage = .render → v.status = .READY) (clean : Clean n v) :
      Working jobId threads n v (.addCompleted work result)
  | failing (work : Work) (e : Err) (clean : Clean n v) :
      Working jobId threads n v (.addFailed work e)
  | marking (e : Err) (mark : MarkPc) (marking : Marking n v e.message mark) :
      Working jobId threads n v (.marking e mark)
  | succeeded (status : v.status = .READY) (clean : Clean n v) :
      Working jobId threads n v (.settled none)
  | gaveUp (e : Err) (clean : Clean n v) : Working jobId threads n v (.settled (some e))
  | recorded (e : Err) (permanent : e.unrecoverable = true)
      (failed : Failed n v e.message [pipelineFailed jobId e.message] []) :
      Working jobId threads n v (.settled (some e))

/-- Program points of the failure handler, with what is recorded there. -/
inductive Handling (jobId : String) (n : Watch) (v : View) (message : String) :
    HandlerPc → Prop where
  | marking (mark : MarkPc) (marking : Marking n v message mark) :
      Handling jobId n v message (.marking mark)
  | recorded (failed : Failed n v message [pipelineFailed jobId message] []) :
      Handling jobId n v message (.marking .rawById)
  | parking (failed : Failed n v message [pipelineFailed jobId message] []) :
      Handling jobId n v message .addDlq

/-- What the job shows while a thread controls it. -/
inductive Phase (jobId userId : String) (threads : List Thread) (v : View) :
    Option Watch → Thread → Prop where
  | checking (note : Option Watch) (c : ProcessCall) (pc : c.pc = .findScoped)
      (quiet : Quiet jobId userId v note) : Phase jobId userId threads v note (.process c)
  | restarting (note : Option Watch) (c : ProcessCall) (job : Job)
      (pc : c.pc = .objectExists job ∨ c.pc = .setStatus job) (user : c.userId = userId)
      (quiet : Quiet jobId userId v note) (replaced : Replaced v note) :
      Phase jobId userId threads v note (.process c)
  | requeuing (note : Option Watch) (c : ProcessCall) (job : Job)
      (pc : c.pc = .getJob job ∨ c.pc = .getState job ∨ c.pc = .remove job)
      (user : c.userId = userId) (status : v.status = .QUEUED) (message : v.message = none)
      (replaced : Replaced v note) : Phase jobId userId threads v note (.process c)
  | adding (note : Option Watch) (c : ProcessCall) (job : Job) (pc : c.pc = .add job)
      (user : c.userId = userId) (status : v.status = .QUEUED) (message : v.message = none)
      (entry : v.entry = none) : Phase jobId userId threads v note (.process c)
  | attempt (n : Watch) (a : Attempt) (entry : Entry) (user : a.userId = userId)
      (queued : v.entry = some entry) (state : entry.state = .active)
      (entryUser : entry.userId = userId) (working : Working jobId threads n v a.pc) :
      Phase jobId userId threads v (some n) (.attempt a)
  | handler (n : Watch) (h : Handler) (entry : Entry) (user : h.userId = userId)
      (queued : v.entry = some entry) (state : entry.state = .failed)
      (reported : n.outcome = some (some h.error))
      (handling : Handling jobId n v h.error.message h.pc) :
      Phase jobId userId threads v (some n) (.handler h)

/-- At most one thread controls the job. -/
inductive Held (jobId userId : String) (threads : List Thread) (v : View)
    (note : Option Watch) : Prop where
  | quiet (none_ : ∀ t ∈ threads, controls jobId t = false) (quiet : Quiet jobId userId v note)
  | controlled (i : ℕ) (t : Thread) (at_ : threads[i]? = some t) (controls_ : controls jobId t = true)
      (sole : ∀ (j : ℕ) (t' : Thread), threads[j]? = some t' → controls jobId t' = true → j = i)
      (phase : Phase jobId userId threads v note t)

def Inv (jobId userId : String) (s : World × Option Watch) : Prop :=
  ∃ v, Shows jobId userId s.1.stores v ∧ Held jobId userId s.1.threads v s.2

variable {cfg : ServerConfig} {w w' : World} {jobId userId : String} {s : Stores} {v : View}
  {n : Watch} {note : Option Watch} {op : Op} {now : ℕ}

theorem Clean.ne_failed (h : Clean n v) : v.status ≠ .FAILED := by
  intro hf
  have hstatus := h.status
  rw [hf] at hstatus
  rcases hstatus with hr | hi
  · cases hr
  · cases hi

/-- One segment of `markFailed`. -/
theorem mark_step {message : String} {mark : MarkPc} {mark' : Option MarkPc}
    (hs : Shows jobId userId s v) (h : Marking n v message mark)
    (hnext : nextMark s jobId message mark = (mark', op)) :
    ∃ v', Shows jobId userId (s.run now op) v' ∧ v'.entry = v.entry ∧
      ((∃ m, mark' = some m ∧ Marking n v' message m) ∨
        mark' = none ∧ Failed n v' message [pipelineFailed jobId message] []) := by
  cases h with
  | rawById clean =>
      obtain ⟨rfl, rfl | ⟨rfl, hfailed⟩⟩ := nextMark_rawById hnext
      · exact ⟨v, hs, rfl, .inl ⟨_, rfl, .setStatus clean⟩⟩
      · obtain ⟨job, hrow, -, hst, -⟩ := hs.row
        exact (clean.ne_failed (hst ▸ hfailed job hrow)).elim
  | setStatus clean =>
      cases hnext
      refine ⟨_, hs.setStatus, rfl, .inl ⟨_, rfl, .addEvent ⟨rfl, rfl, ?_, ?_⟩⟩⟩
      · simpa using clean.failures
      · simpa using clean.parked
  | addEvent failed =>
      cases hnext
      refine ⟨_, hs.failureEvent, rfl, .inr ⟨rfl, failed.status, failed.message, ?_, failed.parked⟩⟩
      have hfailures := failed.failures
      rw [List.append_nil] at hfailures
      rw [hfailures]
      rfl

theorem Working.mono {threads threads' : List Thread} {pc : AttemptPc}
    (h : Working jobId threads n v pc)
    (hkept : ∀ (i : ℕ) (b : Body), threads[i]? = some (.body b) → b.jobId = jobId →
      threads'[i]? = some (.body b)) : Working jobId threads' n v pc := by
  cases h with
  | reading clean => exact .reading clean
  | announcing work clean => exact .announcing work clean
  | starting work clean => exact .starting work clean
  | racing work i b at_ job serves done clean =>
      exact .racing work i b (hkept i b at_ job) job serves done clean
  | completing work result done clean => exact .completing work result done clean
  | failing work e clean => exact .failing work e clean
  | marking e mark marking => exact .marking e mark marking
  | succeeded status clean => exact .succeeded status clean
  | gaveUp e clean => exact .gaveUp e clean
  | recorded e permanent failed => exact .recorded e permanent failed

theorem compileStage_working {threads : List Thread} {job : Snapshot} {text : String}
    (h : Clean n v) : Working jobId threads n v (compileStage job text) := by
  unfold compileStage
  split_ifs
  · exact .announcing _ h
  · exact .announcing _ h

/-- An attempt that reads a READY row ends at once; any other starts with a stage. -/
theorem afterFindById_working {threads : List Thread} (hs : Shows jobId userId s v)
    (h : Clean n v) :
    Working jobId threads n v (afterFindById jobId userId (s.findById jobId)) := by
  obtain ⟨job, hrow, howned, hst, -⟩ := hs.row
  obtain ⟨key, hkey⟩ := Option.isSome_iff_exists.mp howned.audio
  simp only [afterFindById, hrow, howned.live, howned.user, hkey, Option.isSome_none,
    Bool.false_eq_true, ne_eq, not_true_eq_false, if_false]
  split_ifs with hready
  · exact .succeeded (hst ▸ hready) h
  · unfold transcribeStage
    split
    · exact .announcing _ h
    · split_ifs
      · exact .announcing _ h
      · exact compileStage_working h

theorem afterThrow_working {threads : List Thread} (e : Err) (h : Clean n v) :
    Working jobId threads n v (afterThrow e) := by
  unfold afterThrow
  split_ifs
  · exact .marking e .rawById (.rawById h)
  · exact .gaveUp e h

theorem afterStage_working {threads : List Thread} {work : Work} {result : StageResult}
    (hdone : work.stage = .render → v.status = .READY) (h : Clean n v) :
    Working jobId threads n v (afterStage work result) := by
  cases work with
  | transcribe job => exact compileStage_working h
  | compile job text => exact .announcing _ h
  | render label sections => exact .succeeded (hdone rfl) h

/-- One segment of an attempt of the job. -/
theorem attempt_step {i : ℕ} {a : Attempt} {pc : AttemptPc}
    (hs : Shows jobId userId w.stores v) (hjob : a.jobId = jobId) (huser : a.userId = userId)
    (h : Working jobId w.threads n v a.pc)
    (hnext : nextAttempt w.stores a w.threads.length w.bodyResult = some (pc, op)) :
    ∃ v', Shows jobId userId (w.stores.run now op) v' ∧ v'.entry = v.entry ∧
      Working jobId (w.threads.set i (.attempt { a with pc := pc }) ++ Attempt.spawn a now) n v' pc := by
  subst hjob huser
  generalize hpc : a.pc = pc₀ at h
  cases h with
  | reading clean =>
      simp only [nextAttempt, hpc] at hnext
      cases hnext
      exact ⟨v, hs, rfl, afterFindById_working hs clean⟩
  | announcing work clean =>
      simp only [nextAttempt, hpc] at hnext
      cases hnext
      have hflight : work.stage.status.inFlight = true := by cases work <;> rfl
      exact ⟨_, hs.setStatus, rfl,
        .starting work ⟨.inr hflight, clean.message, clean.failures, clean.parked⟩⟩
  | starting work clean =>
      simp only [nextAttempt, hpc] at hnext
      cases hnext
      refine ⟨v, hs.stageEvent, rfl, .racing work _
        ⟨a.jobId, a.userId, startBody a.jobId now work⟩ ?_ rfl (startBody_serves _ _ _) ?_ clean⟩
      · simp [Attempt.spawn, hpc]
      · intro _ r hr
        exact (startBody_ne_done now work _ hr).elim
  | racing work k b at_ job serves done clean =>
      simp only [nextAttempt, hpc] at hnext
      split at hnext
      · cases hnext
      · rename_i result hr
        cases hnext
        obtain ⟨b', hb', hpc'⟩ := bodyResult_eq_some.mp hr
        rw [at_] at hb'
        cases hb'
        exact ⟨v, hs, rfl, .completing work result (fun hrender => done hrender result hpc') clean⟩
      · rename_i e hr
        cases hnext
        exact ⟨v, hs, rfl, .failing work e clean⟩
  | completing work result done clean =>
      simp only [nextAttempt, hpc] at hnext
      cases hnext
      exact ⟨v, hs.stageEvent, rfl, afterStage_working done clean⟩
  | failing work e clean =>
      simp only [nextAttempt, hpc] at hnext
      cases hnext
      exact ⟨v, hs.stageEvent, rfl, afterThrow_working e clean⟩
  | marking e mark marking =>
      simp only [nextAttempt, hpc] at hnext
      split at hnext
      · rename_i op' hmark
        cases hnext
        obtain ⟨v', hs', hentry, ⟨m, hm, -⟩ | ⟨-, hfailed⟩⟩ := mark_step hs marking hmark
        · cases hm
        · refine ⟨v', hs', hentry, .recorded _ ?_ ?_⟩
          · split_ifs with hu
            · exact hu
            · rfl
          · split_ifs
            · exact hfailed
            · exact hfailed
      · rename_i mark' op' hmark
        cases hnext
        obtain ⟨v', hs', hentry, ⟨m, hm, hmarking⟩ | ⟨hm, -⟩⟩ := mark_step hs marking hmark
        · cases hm
          exact ⟨v', hs', hentry, .marking e _ hmarking⟩
        · cases hm
  | succeeded status clean => simp [nextAttempt, hpc] at hnext
  | gaveUp e clean => simp [nextAttempt, hpc] at hnext
  | recorded e permanent failed => simp [nextAttempt, hpc] at hnext

/-- One segment of the failure handler of the job. -/
theorem handler_step {h : Handler} {pc : HandlerPc} (hs : Shows jobId userId s v)
    (hjob : h.jobId = jobId) (huser : h.userId = userId)
    (hhandling : Handling jobId n v h.error.message h.pc)
    (hnext : nextHandler s h = some (pc, op)) :
    ∃ v', Shows jobId userId (s.run now op) v' ∧ v'.entry = v.entry ∧
      (Handling jobId n v' h.error.message pc ∨
        pc = .done ∧ ∃ made, Failed n v' h.error.message [pipelineFailed jobId h.error.message]
          [⟨jobId, userId, h.error.message, made⟩]) := by
  subst hjob huser
  generalize hpc : h.pc = pc₀ at hhandling
  cases hhandling with
  | marking mark marking =>
      simp only [nextHandler, hpc] at hnext
      split at hnext
      · rename_i op' hmark
        cases hnext
        obtain ⟨v', hs', hentry, ⟨m, hm, -⟩ | ⟨-, hfailed⟩⟩ := mark_step hs marking hmark
        · cases hm
        · exact ⟨v', hs', hentry, .inl (.parking hfailed)⟩
      · rename_i mark' op' hmark
        cases hnext
        obtain ⟨v', hs', hentry, ⟨m, hm, hmarking⟩ | ⟨hm, -⟩⟩ := mark_step hs marking hmark
        · cases hm
          exact ⟨v', hs', hentry, .inl (.marking _ hmarking)⟩
        · cases hm
  | recorded failed =>
      -- the attempt has marked the row already
      obtain ⟨job, hrow, -, hst, -⟩ := hs.row
      simp only [nextHandler, hpc, nextMark, hrow, hst.trans failed.status, if_true] at hnext
      cases hnext
      exact ⟨v, hs, rfl, .inl (.parking failed)⟩
  | parking failed =>
      simp only [nextHandler, hpc] at hnext
      cases hnext
      refine ⟨_, hs.addDlq, rfl, .inr ⟨rfl, h.attemptsMade, failed.status, failed.message,
        failed.failures, ?_⟩⟩
      have hparked := failed.parked
      rw [List.append_nil] at hparked
      rw [hparked]

/-- A thread that has moved controls the job, or leaves it quiet. -/
inductive After (jobId userId : String) (threads : List Thread) (v : View)
    (note : Option Watch) (t : Thread) : Prop where
  | holds (controls_ : controls jobId t = true) (phase : Phase jobId userId threads v note t) :
      After jobId userId threads v note t
  | leaves (ended : controls jobId t = false) (quiet : Quiet jobId userId v note) :
      After jobId userId threads v note t

/-- The watch after a step that reports no attempt. -/
def fresh (v v' : View) (note : Option Watch) : Option Watch :=
  if v.entry.isNone && v'.entry.isSome then some ⟨v'.failures, v'.parked, none⟩ else note

theorem fresh_same {v' : View} (h : v'.entry = v.entry) : fresh v v' note = note := by
  unfold fresh
  rw [h]
  cases v.entry <;> rfl

theorem fresh_some {v' : View} {entry : Entry} (h : v.entry = some entry) :
    fresh v v' note = note := by
  simp [fresh, h]

theorem fresh_none {v' : View} (h : v'.entry = none) : fresh v v' note = note := by
  simp [fresh, h]

/-- The job can be restarted only when it has no entry of the watch, or a failed one. -/
theorem Quiet.replaced (h : Quiet jobId userId v note) (hready : v.status ≠ .READY)
    (hflight : ¬ v.status.inFlight = true) : Replaced v note := by
  cases h with
  | unused resting => exact .inl ⟨rfl, resting⟩
  | pending n entry queued state user clean =>
      rcases clean.status with hr | hi
      · exact (hready hr).elim
      · exact (hflight hi).elim
  | ready n reported state status clean => exact (hready status).elim
  | failed n e made entry reported queued state failed => exact .inr ⟨entry, queued, state⟩

theorem Replaced.state {entry : Entry} (h : Replaced v note) (hentry : v.entry = some entry) :
    entry.state = .completed ∨ entry.state = .failed := by
  rcases h with ⟨-, hrest⟩ | ⟨entry', hentry', hstate⟩
  · exact hrest entry hentry
  · rw [hentry] at hentry'
    cases hentry'
    exact .inr hstate

/-- One segment of a `process` call of the job. -/
theorem process_step {c : ProcessCall} {pc : ProcessPc} {threads threads' : List Thread}
    (hs : Shows jobId userId w.stores v) (hjob : c.jobId = jobId)
    (h : Phase jobId userId threads v note (.process c))
    (hnext : nextProcess cfg w.stores c = some (pc, op)) :
    ∃ v', Shows jobId userId (w.stores.run now op) v' ∧
      After jobId userId threads' v' (fresh v v' note) (.process { c with pc := pc }) := by
  subst hjob
  cases h with
  | checking _ _ pc quiet =>
      refine ⟨v, ?_⟩
      rw [fresh_same rfl]
      simp only [nextProcess, pc] at hnext
      split at hnext
      · cases hnext
        exact ⟨hs, .leaves (by simp [controls]) quiet⟩
      · rename_i job hscoped
        obtain ⟨hrow, huser, -⟩ := Stores.findScoped_eq_some.mp hscoped
        obtain ⟨job', hrow', howned, hst, -⟩ := hs.row
        rw [hrow] at hrow'
        cases hrow'
        split_ifs at hnext with hready hflight
        · cases hnext
          exact ⟨hs, .leaves (by simp [controls]) quiet⟩
        · cases hnext
          exact ⟨hs, .leaves (by simp [controls]) quiet⟩
        · cases hnext
          rw [hst] at hready hflight
          exact ⟨hs, .holds (by simp [controls]) (.restarting note _ job (.inl rfl)
            (huser.symm.trans howned.user) quiet (quiet.replaced hready hflight))⟩
  | restarting _ _ job pc user quiet replaced =>
      rcases pc with hpc | hpc
      · refine ⟨v, ?_⟩
        rw [fresh_same rfl]
        simp only [nextProcess, hpc] at hnext
        split_ifs at hnext
        · cases hnext
          exact ⟨hs, .holds (by simp [controls])
            (.restarting note _ job (.inr rfl) user quiet replaced)⟩
        · cases hnext
          exact ⟨hs, .leaves (by simp [controls]) quiet⟩
      · simp only [nextProcess, hpc] at hnext
        cases hnext
        refine ⟨_, hs.setStatus, ?_⟩
        rw [fresh_same]
        · exact .holds (by simp [controls])
            (.requeuing note _ job (.inl rfl) user rfl rfl replaced)
        · rfl
  | requeuing _ _ job pc user status message replaced =>
      rcases pc with hpc | hpc | hpc
      · refine ⟨v, ?_⟩
        rw [fresh_same rfl]
        simp only [nextProcess, hpc] at hnext
        split at hnext
        · rename_i hnone
          cases hnext
          exact ⟨hs, .holds (by simp [controls])
            (.adding note _ job rfl user status message (hs.entry.symm.trans hnone))⟩
        · cases hnext
          exact ⟨hs, .holds (by simp [controls])
            (.requeuing note _ job (.inr (.inl rfl)) user status message replaced)⟩
      · refine ⟨v, ?_⟩
        rw [fresh_same rfl]
        simp only [nextProcess, hpc, hs.entry] at hnext
        split at hnext
        · cases hnext
          exact ⟨hs, .holds (by simp [controls])
            (.requeuing note _ job (.inr (.inr rfl)) user status message replaced)⟩
        · cases hnext
          exact ⟨hs, .holds (by simp [controls])
            (.requeuing note _ job (.inr (.inr rfl)) user status message replaced)⟩
        · rename_i hcompleted hfailed
          cases hnext
          -- an entry that is neither completed nor failed has been purged before the first watch
          rcases replaced with ⟨rfl, hrest⟩ | ⟨entry, hentry, hstate⟩
          · exact ⟨hs, .leaves (by simp [controls]) (.unused hrest)⟩
          · exact (hfailed (by rw [hentry, Option.map_some, hstate])).elim
      · simp only [nextProcess, hpc, hs.entry] at hnext
        split at hnext
        · rename_i hactive
          obtain ⟨entry, hentry, hstate⟩ := Option.map_eq_some_iff.mp hactive
          rcases replaced.state hentry with hc | hf
          · rw [hstate] at hc
            cases hc
          · rw [hstate] at hf
            cases hf
        · cases hnext
          refine ⟨_, hs.setEntry, ?_⟩
          rw [fresh_none rfl]
          exact .holds (by simp [controls]) (.adding note _ job rfl user status message rfl)
  | adding _ _ job pc user status message entry =>
      simp only [nextProcess, pc, hs.entry, entry] at hnext
      cases hnext
      refine ⟨_, hs.setEntry, ?_⟩
      have hfresh : fresh v { v with entry := some ⟨.waiting, c.userId, 0⟩ } note =
          some ⟨v.failures, v.parked, none⟩ := by
        simp [fresh, entry]
      rw [hfresh]
      refine .leaves (by simp [controls]) (.pending _ _ rfl (.inl rfl) user ⟨.inr ?_, message, rfl, rfl⟩)
      rw [status]
      rfl

/-- A thread that controls the job works on it. -/
theorem controls_job {t : Thread} (h : controls jobId t = true) : threadJob t = some jobId := by
  cases t with
  | create c => cases h
  | body b => cases h
  | _ =>
      simp only [controls, Bool.and_eq_true, decide_eq_true_eq] at h
      exact congrArg some h.1

/-- A thread of the job that has ended issues nothing about it. -/
theorem ended_next {env : Env} {t t' : Thread} {spawned : List Thread}
    (hended : controls jobId t = false) (hbody : ∀ b, t = .body b → b.jobId ≠ jobId)
    (h : next cfg w env t = some (t', op, spawned)) : subject op ≠ some jobId := by
  intro hop
  have hjob : threadJob t = some jobId := by
    rcases next_subject h with hnone | hown
    · rw [hop] at hnone
      cases hnone
    · rw [← hown, hop]
  cases t with
  | create c => cases hjob
  | body b => exact hbody b rfl (Option.some.inj hjob)
  | process c =>
      obtain rfl : c.jobId = jobId := Option.some.inj hjob
      obtain ⟨⟨pc, op'⟩, hn, he⟩ := Option.map_eq_some_iff.mp h
      cases he
      cases hpc : c.pc with
      | findAgain job =>
          simp only [nextProcess, hpc] at hn
          cases hn
          cases hop
      | returned dto => simp [nextProcess, hpc] at hn
      | threw error => simp [nextProcess, hpc] at hn
      | _ => simp [controls, hpc] at hended
  | update c =>
      obtain rfl : c.jobId = jobId := Option.some.inj hjob
      obtain ⟨⟨pc, op'⟩, hn, he⟩ := Option.map_eq_some_iff.mp h
      cases he
      cases hpc : c.pc with
      | findOne =>
          rcases nextUpdate_op hn with rfl | ⟨wr, hcommit, -, -⟩
          · cases hop
          · rw [hpc] at hcommit
            cases hcommit
      | returned dto => simp [nextUpdate, hpc] at hn
      | threw error => simp [nextUpdate, hpc] at hn
      | _ => simp [controls, hpc] at hended
  | remove c =>
      obtain rfl : c.jobId = jobId := Option.some.inj hjob
      obtain ⟨⟨pc, op'⟩, hn, he⟩ := Option.map_eq_some_iff.mp h
      cases he
      cases hpc : c.pc with
      | returned => simp [nextRemove, hpc] at hn
      | threw error => simp [nextRemove, hpc] at hn
      | _ => simp [controls, hpc] at hended
  | attempt a =>
      obtain rfl : a.jobId = jobId := Option.some.inj hjob
      obtain ⟨⟨pc, op'⟩, hn, he⟩ := Option.map_eq_some_iff.mp h
      cases he
      have hpc : a.pc = .acked := by simpa [controls] using hended
      simp [nextAttempt, hpc] at hn
  | handler hd =>
      obtain rfl : hd.jobId = jobId := Option.some.inj hjob
      obtain ⟨⟨pc, op'⟩, hn, he⟩ := Option.map_eq_some_iff.mp h
      cases he
      have hpc : hd.pc = .done := by simpa [controls] using hended
      simp [nextHandler, hpc] at hn

theorem ended_op {i : ℕ} {act : Action} {t t' : Thread} {spawned : List Thread}
    (hended : controls jobId t = false) (hbody : ∀ b, t = .body b → b.jobId ≠ jobId)
    (acts : Acts cfg w i act t now t' op spawned) : subject op ≠ some jobId := by
  cases acts with
  | stepped env t t' op spawned next => exact ended_next hended hbody next
  | threw env e t t' throws => simp [subject]
  | lost env e t t' t₁ op spawned throws next => exact ended_next hended hbody next
  | timedOut t t' out => simp [subject]
  | acked a e entry pc queued =>
      intro hop
      have hjob : a.jobId = jobId := Option.some.inj hop
      simp [controls, hjob, pc] at hended

theorem ended_next_kept {env : Env} {t t' : Thread} {spawned : List Thread}
    (hended : controls jobId t = false) (h : next cfg w env t = some (t', op, spawned)) :
    controls jobId t' = false := by
  cases next_segment h with
  | create c pc op hn =>
      rfl
  | body b pc op hn =>
      rfl
  | process c pc op hn =>
      by_cases hjob : c.jobId = jobId
      · cases hpc : c.pc with
        | findAgain job =>
            simp only [nextProcess, hpc] at hn
            cases hn
            simp [controls]
        | returned dto => simp [nextProcess, hpc] at hn
        | threw error => simp [nextProcess, hpc] at hn
        | _ => simp [controls, hpc, hjob] at hended
      · simp [controls, hjob]
  | update c pc op hn =>
      by_cases hjob : c.jobId = jobId
      · cases hpc : c.pc with
        | findOne =>
            simp only [nextUpdate, hpc] at hn
            split at hn <;> cases hn <;> simp [controls]
        | returned dto => simp [nextUpdate, hpc] at hn
        | threw error => simp [nextUpdate, hpc] at hn
        | _ => simp [controls, hpc, hjob] at hended
      · simp [controls, hjob]
  | remove c pc op hn =>
      by_cases hjob : c.jobId = jobId
      · cases hpc : c.pc with
        | returned => simp [nextRemove, hpc] at hn
        | threw error => simp [nextRemove, hpc] at hn
        | _ => simp [controls, hpc, hjob] at hended
      · simp [controls, hjob]
  | attempt a pc op hn =>
      by_cases hjob : a.jobId = jobId
      · have hpc : a.pc = .acked := by simpa [controls, hjob] using hended
        simp [nextAttempt, hpc] at hn
      · simp [controls, hjob]
  | handler hd pc op hn =>
      by_cases hjob : hd.jobId = jobId
      · have hpc : hd.pc = .done := by simpa [controls, hjob] using hended
        simp [nextHandler, hpc] at hn
      · simp [controls, hjob]

theorem ended_throwing_kept {e : Err} {t t' : Thread} (hended : controls jobId t = false)
    (h : throwing e t = some t') : controls jobId t' = false := by
  cases throwing_cases h with
  | create c pc => rfl
  | process c => simp [controls]
  | update c => simp [controls]
  | remove c pc ended => rcases ended with rfl | ⟨error, rfl⟩ <;> simp [controls]
  | body b open_ => rfl
  | handler hd => simp [controls]
  | failing a work result pc => simpa [controls, pc] using hended
  | settling a open_ => simpa [controls, open_] using hended
  | leaving a =>
      by_cases hjob : a.jobId = jobId
      · have hpc : a.pc = .acked := by simpa [controls, hjob] using hended
        simp [throwing, Attempt.throwing, hpc] at h
      · simp [controls, hjob]

/-- A thread that does not control the job does not begin to. -/
theorem ended_kept {i : ℕ} {act : Action} {t t' : Thread} {spawned : List Thread}
    (hended : controls jobId t = false) (acts : Acts cfg w i act t now t' op spawned) :
    controls jobId t' = false ∧ ∀ t₁ ∈ spawned, controls jobId t₁ = false := by
  constructor
  · cases acts with
    | stepped env t t' op spawned next => exact ended_next_kept hended next
    | threw env e t t' throws => exact ended_throwing_kept hended throws
    | lost env e t t' t₁ op spawned throws next => exact ended_throwing_kept hended throws
    | timedOut t t' out =>
        obtain ⟨a, work, body, rfl, hpc, rfl⟩ := timingOut_eq out
        simpa [controls, hpc] using hended
    | acked a e entry pc queued => simp [controls]
  · intro t₁ ht₁
    rcases acts_spawned acts ht₁ with ⟨a, work, -, -, rfl⟩ | ⟨a, err, entry, rfl, hpc, -, rfl⟩
    · rfl
    · have hjob : a.jobId ≠ jobId := by simpa [controls, hpc] using hended
      simp [controls, hjob]

/-- One move of a body of the job shows only where it marks the job READY. -/
theorem body_shows {b : Body} {pc : BodyPc} (hs : Shows jobId userId w.stores v)
    (hjob : b.jobId = jobId) (h : BodyMove w b pc op) :
    Shows jobId userId (w.stores.run now op) v ∨
      ∃ view, b.pc = .setPdfReady view ∧
        Shows jobId userId (w.stores.run now op) { v with status := .READY, message := none } := by
  subst hjob
  have hnext : ∀ env pc op, nextBody w.stores env b = some (pc, op) →
      Shows b.jobId userId (w.stores.run now op) v ∨
        ∃ view, b.pc = .setPdfReady view ∧ Shows b.jobId userId (w.stores.run now op)
          { v with status := .READY, message := none } := by
    intro env pc op h
    unfold nextBody at h
    split at h
    · split_ifs at h <;> cases h <;> exact .inl hs
    · split_ifs at h <;> cases h <;> exact .inl hs
    · cases h
      exact .inl hs.saveTranscript
    · cases h
      exact .inl hs
    · cases h
      exact .inl hs.replaceReport
    · cases h
      exact .inl hs
    · cases h
      exact .inl (hs.other (by simp [subject]))
    · rename_i view hpc
      cases h
      exact .inr ⟨view, hpc, hs.setPdfReady⟩
    · cases h
  cases h with
  | moved env pc op next => exact hnext env pc op next
  | threw e open_ => exact .inl hs
  | lost env e pc op next => exact hnext env pc op next

/-- A render body that ends well has just marked the job READY. -/
theorem body_done {b : Body} {pc : BodyPc} {r : StageResult} (h : BodyMove w b pc op)
    (hserves : serves .render b.pc = true) (hdone : pc = .done (.ok r)) :
    ∃ view, b.pc = .setPdfReady view ∧
      op = .write b.jobId (.setPdfReady (pdfKey b.userId b.jobId)) := by
  cases h with
  | threw e open_ => cases hdone
  | lost env e pc op next => cases hdone
  | moved env pc op next =>
      cases hpc : b.pc with
      | render view =>
          simp only [nextBody, hpc] at next
          cases next
          cases hdone
      | putObject view =>
          simp only [nextBody, hpc] at next
          cases next
          cases hdone
      | setPdfReady view =>
          simp only [nextBody, hpc] at next
          cases next
          exact ⟨view, rfl, rfl⟩
      | done r => simp [nextBody, hpc] at next
      | _ => simp [serves, hpc] at hserves

variable (now) in
/-- One move of a body of the job, with the view after it. -/
theorem body_step {b : Body} {pc : BodyPc} (hs : Shows jobId userId w.stores v)
    (hjob : b.jobId = jobId) (h : BodyMove w b pc op) :
    ∃ v', Shows jobId userId (w.stores.run now op) v' ∧
      (v' = v ∨ (∃ view, b.pc = .setPdfReady view) ∧
        v' = { v with status := .READY, message := none }) ∧
      (serves .render b.pc = true → ∀ r, pc = .done (.ok r) → v'.status = .READY) := by
  rcases body_shows hs hjob h with hs' | ⟨view, hpc, hs'⟩
  · refine ⟨v, hs', .inl rfl, ?_⟩
    intro hserves r hdone
    obtain ⟨view, hpc, rfl⟩ := body_done h hserves hdone
    subst hjob
    obtain ⟨job, hrow, -, hst, -⟩ := hs'.row
    have hready : Shows b.jobId userId
        (w.stores.run now (.write b.jobId (.setPdfReady (pdfKey b.userId b.jobId))))
        { v with status := .READY, message := none } := hs.setPdfReady
    obtain ⟨job', hrow', -, hst', -⟩ := hready.row
    rw [hrow] at hrow'
    cases hrow'
    exact hst.symm.trans hst'
  · exact ⟨_, hs', .inr ⟨⟨view, hpc⟩, rfl⟩, fun _ _ _ => rfl⟩

theorem Clean.ready (h : Clean n v) : Clean n { v with status := .READY, message := none } :=
  ⟨.inl rfl, rfl, h.failures, h.parked⟩

/-- The attempt that races a body keeps track of its moves. -/
theorem Working.body {i : ℕ} {b : Body} {pc : BodyPc} {pc₀ : AttemptPc}
    (h : Working jobId w.threads n v pc₀) (at_ : w.threads[i]? = some (.body b))
    (hmove : BodyMove w b pc op)
    (hdone : serves .render b.pc = true → ∀ r, pc = .done (.ok r) → v.status = .READY) :
    Working jobId (w.threads.set i (.body { b with pc := pc }) ++ []) n v pc₀ := by
  cases h with
  | reading clean => exact .reading clean
  | announcing work clean => exact .announcing work clean
  | starting work clean => exact .starting work clean
  | racing work k b' at' job serves done clean =>
      by_cases hki : k = i
      · subst hki
        rw [at_] at at'
        cases at'
        refine .racing work k { b with pc := pc } (getElem?_advance_same at_) job
          (hmove.serves serves) ?_ clean
        intro hrender
        exact hdone (hrender ▸ serves)
      · exact .racing work k b' (getElem?_advance_other hki at') job serves done clean
  | completing work result done clean => exact .completing work result done clean
  | failing work e clean => exact .failing work e clean
  | marking e mark marking => exact .marking e mark marking
  | succeeded status clean => exact .succeeded status clean
  | gaveUp e clean => exact .gaveUp e clean
  | recorded e permanent failed => exact .recorded e permanent failed

theorem Phase.threads {threads threads' : List Thread} {t : Thread}
    (h : Phase jobId userId threads v note t)
    (hworking : ∀ n pc, Working jobId threads n v pc → Working jobId threads' n v pc) :
    Phase jobId userId threads' v note t := by
  cases h with
  | checking _ c pc quiet => exact .checking note c pc quiet
  | restarting _ c job pc user quiet replaced =>
      exact .restarting note c job pc user quiet replaced
  | requeuing _ c job pc user status message replaced =>
      exact .requeuing note c job pc user status message replaced
  | adding _ c job pc user status message entry =>
      exact .adding note c job pc user status message entry
  | attempt n a entry user queued state entryUser working =>
      exact .attempt n a entry user queued state entryUser (hworking n _ working)
  | handler n h entry user queued state reported handling =>
      exact .handler n h entry user queued state reported handling

/-- A thread that does not control the job leaves control where it is. -/
theorem held_other {i : ℕ} {act : Action} {t t' : Thread} {spawned : List Thread}
    (h : Held jobId userId w.threads v note) (at_ : w.threads[i]? = some t)
    (hended : controls jobId t = false) (hbody : ∀ b, t = .body b → b.jobId ≠ jobId)
    (acts : Acts cfg w i act t now t' op spawned) :
    Held jobId userId (w.threads.set i t' ++ spawned) v note := by
  obtain ⟨hended', hspawned⟩ := ended_kept hended acts
  cases h with
  | quiet none_ quiet =>
      refine .quiet ?_ quiet
      intro t₁ ht₁
      have hmem : t₁ ∈ (w.advance now i _ op _).threads := ht₁
      rcases mem_advance hmem with hold | rfl | hnew
      · exact none_ t₁ hold
      · exact hended'
      · exact hspawned t₁ hnew
  | controlled j t₀ at₀ controls_ sole phase =>
      have hji : j ≠ i := by
        rintro rfl
        rw [at_] at at₀
        cases at₀
        rw [hended] at controls_
        cases controls_
      refine .controlled j t₀ (getElem?_advance_other hji at₀) controls_ ?_ ?_
      · intro k t₁ ht₁ hc
        rcases getElem?_advance_cases ht₁ with ⟨rfl, rfl⟩ | ⟨-, hold⟩ | ⟨-, hnew⟩
        · rw [hended'] at hc
          cases hc
        · exact sole k t₁ hold hc
        · rw [hspawned t₁ (List.mem_of_getElem? hnew)] at hc
          cases hc
      · refine phase.threads fun n pc hworking => hworking.mono ?_
        intro k b hb hjob
        refine getElem?_advance_other ?_ hb
        rintro rfl
        rw [at_] at hb
        cases hb
        exact hbody b rfl hjob

theorem raced_eq_true {i : ℕ} (h : raced jobId w i = true) :
    ∃ (k : ℕ) (a : Attempt) (work : Work), w.threads[k]? = some (.attempt a) ∧ a.jobId = jobId ∧
      a.pc = .racing work i := by
  obtain ⟨t, ht, hp⟩ := List.any_eq_true.mp h
  cases t with
  | attempt a =>
      obtain ⟨k, hk⟩ := List.mem_iff_getElem?.mp ht
      cases hpc : a.pc with
      | racing work l =>
          simp only [hpc, Bool.and_eq_true, decide_eq_true_eq] at hp
          obtain ⟨hjob, rfl⟩ := hp
          exact ⟨k, a, work, hk, hjob, hpc⟩
      | _ => simp [hpc] at hp
  | _ => cases hp

variable (now) in
/-- A body of the job that moves in time leaves control where it is. -/
theorem held_body {i : ℕ} {b : Body} {pc : BodyPc} (hs : Shows jobId userId w.stores v)
    (h : Held jobId userId w.threads v note) (at_ : w.threads[i]? = some (.body b))
    (hjob : b.jobId = jobId) (hmove : BodyMove w b pc op) (htime : inTime jobId w i b = true) :
    ∃ v', Shows jobId userId (w.stores.run now op) v' ∧ v'.entry = v.entry ∧
      Held jobId userId (w.threads.set i (.body { b with pc := pc }) ++ []) v' note := by
  obtain ⟨v', hs', hv, hdone⟩ := body_step now hs hjob hmove
  -- an attempt that races the body controls the job
  have hraced : (∃ view, b.pc = .setPdfReady view) →
      ∃ (k : ℕ) (a : Attempt) (work : Work), w.threads[k]? = some (.attempt a) ∧
        controls jobId (.attempt a) = true ∧
        a.pc = .racing work i := by
    rintro ⟨view, hpc⟩
    have hany : raced jobId w i = true := by simpa [inTime, hpc, hjob] using htime
    obtain ⟨k, a, work, hk, haj, hpc'⟩ := raced_eq_true hany
    exact ⟨k, a, work, hk, by simp [controls, haj, hpc'], hpc'⟩
  cases h with
  | quiet none_ quiet =>
      rcases hv with rfl | ⟨hpc, -⟩
      · refine ⟨v', hs', rfl, .quiet ?_ quiet⟩
        intro t₁ ht₁
        have hmem : t₁ ∈ (w.advance now i _ op _).threads := ht₁
        rcases mem_advance hmem with hold | rfl | hnew
        · exact none_ t₁ hold
        · rfl
        · cases hnew
      · obtain ⟨k, a, work, hk, hc, -⟩ := hraced hpc
        rw [none_ _ (List.mem_of_getElem? hk)] at hc
        cases hc
  | controlled j t₀ at₀ controls_ sole phase =>
      have hji : j ≠ i := by
        rintro rfl
        rw [at_] at at₀
        cases at₀
        cases controls_
      have hsole : ∀ (k : ℕ) (t₁ : Thread),
          (w.threads.set i (.body { b with pc := pc }) ++ [])[k]? = some t₁ →
            controls jobId t₁ = true → k = j := by
        intro k t₁ ht₁ hc
        rcases getElem?_advance_cases ht₁ with ⟨rfl, rfl⟩ | ⟨-, hold⟩ | ⟨-, hnew⟩
        · cases hc
        · exact sole k t₁ hold hc
        · cases List.mem_of_getElem? hnew
      rcases hv with rfl | ⟨hpc, rfl⟩
      · exact ⟨v', hs', rfl, .controlled j t₀ (getElem?_advance_other hji at₀) controls_ hsole
          (phase.threads fun n pc₀ hworking => hworking.body at_ hmove hdone)⟩
      · refine ⟨_, hs', rfl, .controlled j t₀ (getElem?_advance_other hji at₀) controls_ hsole ?_⟩
        obtain ⟨k, a, work, hk, hc, hracing⟩ := hraced hpc
        obtain rfl := sole k _ hk hc
        rw [hk] at at₀
        cases at₀
        cases phase with
        | attempt n _ entry user queued state entryUser working =>
            refine .attempt n a entry user queued state entryUser ?_
            rw [hracing] at working ⊢
            cases working with
            | racing _ _ b' at' job serves done clean =>
                exact (Working.racing work i b' at' job serves (fun _ _ _ => rfl) clean.ready).body at_
                  hmove hdone

/-- The thread in control has moved. -/
theorem held_after {i : ℕ} {t t' : Thread} {spawned : List Thread} (at_ : w.threads[i]? = some t)
    (sole : ∀ (j : ℕ) (t₁ : Thread), w.threads[j]? = some t₁ → controls jobId t₁ = true → j = i)
    (hspawned : ∀ t₁ ∈ spawned, controls jobId t₁ = false)
    (after : After jobId userId (w.threads.set i t' ++ spawned) v note t') :
    Held jobId userId (w.threads.set i t' ++ spawned) v note := by
  have hother : ∀ (j : ℕ) (t₁ : Thread), (w.threads.set i t' ++ spawned)[j]? = some t₁ →
      controls jobId t₁ = true → j = i := by
    intro j t₁ ht₁ hc
    rcases getElem?_advance_cases ht₁ with ⟨rfl, -⟩ | ⟨-, hold⟩ | ⟨-, hnew⟩
    · rfl
    · exact sole j t₁ hold hc
    · rw [hspawned t₁ (List.mem_of_getElem? hnew)] at hc
      cases hc
  cases after with
  | holds controls_ phase =>
      exact .controlled i t' (getElem?_advance_same at_) controls_ hother phase
  | leaves ended quiet =>
      refine .quiet ?_ quiet
      intro t₁ ht₁
      obtain ⟨j, hj⟩ := List.mem_iff_getElem?.mp ht₁
      cases hc : controls jobId t₁ with
      | false => rfl
      | true =>
          obtain rfl := hother j t₁ hj hc
          rw [getElem?_advance_same at_] at hj
          cases hj
          rw [ended] at hc
          cases hc

theorem watch_fresh {v' : View} (act : Action) (hs : Shows jobId userId w.stores v)
    (hs' : Shows jobId userId w'.stores v') (hrep : reported jobId w act = none) :
    watch jobId w w' act note = fresh v v' note := by
  simp only [watch, fresh, hs.entry, hs'.entry, hs'.failures, hs'.parked, hrep]

theorem Clean.report (h : Clean n v) (outcome : Option (Option Err)) (entry : Option Entry) :
    Clean { n with outcome := outcome } { v with entry := entry } :=
  ⟨h.status, h.message, h.failures, h.parked⟩

theorem Failed.report {message : String} {failures : List ProcessingEvent} {parked : List DlqEntry}
    (h : Failed n v message failures parked) (outcome : Option (Option Err)) (entry : Option Entry) :
    Failed { n with outcome := outcome } { v with entry := entry } message failures parked :=
  ⟨h.status, h.message, h.failures, h.parked⟩

/-- An attempt that ends for good hands control to the failure handler. -/
theorem held_handler {i : ℕ} {t t' : Thread} {h : Handler} {entry : Entry}
    (at_ : w.threads[i]? = some t) (hended : controls jobId t' = false)
    (sole : ∀ (j : ℕ) (t₁ : Thread), w.threads[j]? = some t₁ → controls jobId t₁ = true → j = i)
    (hcontrols : controls jobId (.handler h) = true) (user : h.userId = userId)
    (queued : v.entry = some entry) (state : entry.state = .failed)
    (reported : n.outcome = some (some h.error)) (handling : Handling jobId n v h.error.message h.pc) :
    Held jobId userId (w.threads.set i t' ++ [.handler h]) v (some n) := by
  refine .controlled w.threads.length (.handler h) (by simp) hcontrols ?_
    (.handler n h entry user queued state reported handling)
  intro j t₁ ht₁ hc
  rcases getElem?_advance_cases ht₁ with ⟨rfl, rfl⟩ | ⟨hji, hold⟩ | ⟨hle, hnew⟩
  · rw [hended] at hc
    cases hc
  · exact (hji (sole j t₁ hold hc)).elim
  · have hlt := lt_of_getElem? hnew
    rw [List.length_singleton] at hlt
    omega

/-- BullMQ takes the report of the attempt in control. -/
theorem held_acked {i : ℕ} {a : Attempt} {e : Option Err} {entry : Entry}
    (at_ : w.threads[i]? = some (.attempt a)) (hjob : a.jobId = jobId)
    (sole : ∀ (j : ℕ) (t₁ : Thread), w.threads[j]? = some t₁ → controls jobId t₁ = true → j = i)
    (user : entry.userId = userId) (working : Working jobId w.threads n v (.settled e)) :
    Held jobId userId
      (w.threads.set i (.attempt { a with pc := .acked }) ++ (settle cfg a.jobId entry e).2)
      { v with entry := some (settle cfg a.jobId entry e).1 }
      (some { n with outcome := some e }) := by
  have hended : controls jobId (.attempt { a with pc := .acked }) = false := by simp [controls]
  cases working with
  | succeeded status clean =>
      refine held_after at_ sole (by simp [settle]) (.leaves hended ?_)
      refine .ready _ rfl ?_ status (clean.report _ _)
      intro entry' hentry'
      cases hentry'
      rfl
  | gaveUp e clean =>
      unfold settle
      dsimp only
      split_ifs with hlast
      · exact held_handler at_ hended sole (by simp [controls, hjob]) user rfl rfl rfl
          (.marking _ (.rawById (clean.report _ _)))
      · exact held_after at_ sole (by simp) (.leaves hended
          (.pending _ _ rfl (.inr rfl) user (clean.report _ _)))
  | recorded e permanent failed =>
      unfold settle
      dsimp only
      rw [permanent, Bool.true_or, if_pos rfl]
      exact held_handler at_ hended sole (by simp [controls, hjob]) user rfl rfl rfl
        (.recorded (failed.report _ _))

/-- The guard on a body that moves. -/
theorem inTime_of {i : ℕ} {act : Action} {b : Body} {t' : Thread} {spawned : List Thread}
    (hg : sequential jobId w act = true) (at_ : w.threads[i]? = some (.body b))
    (acts : Acts cfg w i act (.body b) now t' op spawned) : inTime jobId w i b = true := by
  generalize ht : Thread.body b = t at acts
  cases acts with
  | stepped env t t' op spawned next => simpa only [sequential, at_] using hg
  | threw env e t t' throws => simpa only [sequential, at_] using hg
  | lost env e t t' t₁ op spawned throws next => simpa only [sequential, at_] using hg
  | timedOut t t' out =>
      obtain ⟨a, work, body, ha, -⟩ := timingOut_eq out
      cases ht.trans ha
  | acked a e entry pc queued => cases ht

theorem attempt_controls {a : Attempt} {threads : List Thread} {pc : AttemptPc}
    (hjob : a.jobId = jobId) (h : Working jobId threads n v pc) :
    controls jobId (.attempt { a with pc := pc }) = true := by
  have hpc : pc ≠ .acked := by
    rintro rfl
    cases h
  simp [controls, hjob, hpc]

/-- The attempt in control moves, and does not report. -/
theorem attempt_after {i : ℕ} {a : Attempt} {entry : Entry} {pc : AttemptPc} {spawned : List Thread}
    {v' : View} (hjob : a.jobId = jobId) (user : a.userId = userId) (queued : v.entry = some entry)
    (state : entry.state = .active) (entryUser : entry.userId = userId) (hentry : v'.entry = v.entry)
    (working : Working jobId (w.threads.set i (.attempt { a with pc := pc }) ++ spawned) n v' pc) :
    After jobId userId (w.threads.set i (.attempt { a with pc := pc }) ++ spawned) v'
      (fresh v v' (some n)) (.attempt { a with pc := pc }) := by
  rw [fresh_same hentry]
  exact .holds (attempt_controls hjob working)
    (.attempt n _ entry user (hentry.trans queued) state entryUser working)

/-- Of the threads in control only an attempt fails, at its read. -/
theorem throwing_reads {i : ℕ} {env : Env} {e : Err} {applied : Bool} {t : Thread}
    (hg : sequential jobId w (.throw i env e applied) = true) (at_ : w.threads[i]? = some t)
    (hc : controls jobId t = true) : ∃ a, t = .attempt a ∧ a.pc = .findById := by
  simp only [sequential, at_] at hg
  cases t with
  | attempt a =>
      have hjob : a.jobId = jobId := Option.some.inj (controls_job hc)
      exact ⟨a, rfl, by simpa [hjob] using hg⟩
  | create c => cases hc
  | body b => cases hc
  | _ => simp [hc] at hg

/-- A move of the thread in control. -/
theorem inv_controller {i : ℕ} {act : Action} {t t' : Thread} {spawned : List Thread}
    (hs : Shows jobId userId w.stores v) (hg : sequential jobId w act = true)
    (at_ : w.threads[i]? = some t) (hc : controls jobId t = true)
    (sole : ∀ (j : ℕ) (t₁ : Thread), w.threads[j]? = some t₁ → controls jobId t₁ = true → j = i)
    (phase : Phase jobId userId w.threads v note t) (acts : Acts cfg w i act t now t' op spawned) :
    Inv jobId userId (w.advance now i t' op spawned,
      watch jobId w (w.advance now i t' op spawned) act note) := by
  -- what is left to show where no attempt is reported
  have hafter : ∀ v', Shows jobId userId (w.stores.run now op) v' →
      (∀ t₁ ∈ spawned, controls jobId t₁ = false) → reported jobId w act = none →
      After jobId userId (w.threads.set i t' ++ spawned) v' (fresh v v' note) t' →
      Inv jobId userId (w.advance now i t' op spawned,
        watch jobId w (w.advance now i t' op spawned) act note) := by
    intro v' hs' hspawned hrep after
    rw [watch_fresh act hs hs' hrep]
    exact ⟨v', hs', held_after at_ sole hspawned after⟩
  have hspawn : ∀ (a : Attempt) (t₁ : Thread), t₁ ∈ Attempt.spawn a now → controls jobId t₁ = false := by
    intro a t₁ ht₁
    obtain ⟨work, -, rfl⟩ := spawn_body ht₁
    rfl
  -- an attempt whose read fails has recorded nothing
  have hread : ∀ (a : Attempt) (e : Err), a.pc = .findById → t = .attempt a →
      Shows jobId userId (w.stores.run now op) v → (∀ t₁ ∈ spawned, controls jobId t₁ = false) →
      reported jobId w act = none → t' = .attempt { a with pc := .settled (some e) } →
      Inv jobId userId (w.advance now i t' op spawned,
        watch jobId w (w.advance now i t' op spawned) act note) := by
    rintro a e hpc rfl hs' hspawned hrep rfl
    have hjob : a.jobId = jobId := Option.some.inj (controls_job hc)
    cases phase with
    | attempt n _ entry user queued state entryUser working =>
        rw [hpc] at working
        cases working with
        | reading clean =>
            exact hafter v hs' hspawned hrep
              (attempt_after hjob user queued state entryUser rfl (.gaveUp e clean))
  cases acts with
  | stepped env t t' op spawned next =>
      cases t with
      | process c =>
          obtain ⟨⟨pc, op'⟩, hn, he⟩ := Option.map_eq_some_iff.mp next
          cases he
          obtain ⟨v', hs', after⟩ := process_step hs (Option.some.inj (controls_job hc)) phase hn
          exact hafter v' hs' (by simp) rfl after
      | attempt a =>
          obtain ⟨⟨pc, op'⟩, hn, he⟩ := Option.map_eq_some_iff.mp next
          cases he
          have hjob : a.jobId = jobId := Option.some.inj (controls_job hc)
          cases phase with
          | attempt n _ entry user queued state entryUser working =>
              obtain ⟨v', hs', hentry, hworking⟩ := attempt_step hs hjob user working hn
              exact hafter v' hs' (hspawn a) rfl
                (attempt_after hjob user queued state entryUser hentry hworking)
      | handler hd =>
          obtain ⟨⟨pc, op'⟩, hn, he⟩ := Option.map_eq_some_iff.mp next
          cases he
          have hjob : hd.jobId = jobId := Option.some.inj (controls_job hc)
          cases phase with
          | handler n _ entry user queued state reported handling =>
              obtain ⟨v', hs', hentry, hhandling | ⟨rfl, made, hfailed⟩⟩ :=
                handler_step hs hjob user handling hn
              · refine hafter v' hs' (by simp) rfl ?_
                have hpc : pc ≠ .done := by
                  rintro rfl
                  cases hhandling
                rw [fresh_same hentry]
                exact .holds (by simp [controls, hjob, hpc])
                  (.handler n _ entry user (hentry.trans queued) state reported hhandling)
              · refine hafter v' hs' (by simp) rfl ?_
                rw [fresh_same hentry]
                exact .leaves (by simp [controls])
                  (.failed n _ made entry reported (hentry.trans queued) state hfailed)
      | create c => cases hc
      | body b => cases hc
      | update c => cases phase
      | remove c => cases phase
  | threw env e t t' throws =>
      obtain ⟨a, rfl, hpc⟩ := throwing_reads hg at_ hc
      simp only [throwing, Attempt.throwing, hpc, Option.map_some, Option.some.injEq] at throws
      subst throws
      exact hread a e hpc rfl hs (by simp) rfl rfl
  | lost env e t t' t₁ op spawned throws next =>
      obtain ⟨a, rfl, hpc⟩ := throwing_reads hg at_ hc
      simp only [throwing, Attempt.throwing, hpc, Option.map_some, Option.some.injEq] at throws
      subst throws
      simp only [ServerRuns.next, nextAttempt, hpc, Option.map_some, Option.some.injEq] at next
      cases next
      exact hread a e hpc rfl hs (by simp) rfl rfl
  | timedOut t t' out =>
      obtain ⟨a, work, k, rfl, hpc, rfl⟩ := timingOut_eq out
      have hjob : a.jobId = jobId := Option.some.inj (controls_job hc)
      cases phase with
      | attempt n _ entry user queued state entryUser working =>
          rw [hpc] at working
          cases working with
          | racing _ _ b at' job serves done clean =>
              exact hafter v hs (by simp) rfl
                (attempt_after hjob user queued state entryUser rfl (.failing _ _ clean))
  | acked a e entry pc queued =>
      obtain rfl : a.jobId = jobId := Option.some.inj (controls_job hc)
      cases phase with
      | attempt n _ entry' user queued' state entryUser working =>
          rw [← hs.entry, queued] at queued'
          cases queued'
          rw [pc] at working
          have hwatch : ∀ w' : World, watch a.jobId w w' (.ack i) (some n) =
              some { n with outcome := some e } := by
            intro w'
            simp [watch, reported, queued, at_, pc]
          rw [hwatch]
          have hs' : Shows a.jobId userId
              (w.stores.run 0 (.setEntry a.jobId (some (settle cfg a.jobId entry e).1))) _ := hs.setEntry
          exact ⟨_, hs', held_acked at_ rfl sole entryUser working⟩

/-- A thread moves. -/
theorem inv_thread {i : ℕ} {act : Action} {t t' : Thread} {spawned : List Thread}
    (h : Inv jobId userId (w, note)) (hg : sequential jobId w act = true)
    (at_ : w.threads[i]? = some t) (acts : Acts cfg w i act t now t' op spawned) :
    Inv jobId userId (w.advance now i t' op spawned,
      watch jobId w (w.advance now i t' op spawned) act note) := by
  obtain ⟨v, hs, hheld⟩ := h
  cases hc : controls jobId t with
  | true =>
      cases hheld with
      | quiet none_ quiet =>
          rw [none_ t (List.mem_of_getElem? at_)] at hc
          cases hc
      | controlled j t₀ at₀ controls_ sole phase =>
          obtain rfl := sole i t at_ hc
          rw [at_] at at₀
          cases at₀
          exact inv_controller hs hg at_ hc sole phase acts
  | false =>
      have hrep : reported jobId w act = none := by
        cases acts with
        | acked a e entry pc queued =>
            have hjob : a.jobId ≠ jobId := by simpa [controls, pc] using hc
            simp [reported, at_, pc, hjob]
        | _ => rfl
      by_cases hbody : ∃ b, t = .body b ∧ b.jobId = jobId
      · obtain ⟨b, rfl, hjob⟩ := hbody
        obtain ⟨rfl, pc, rfl, hmove⟩ := acts_body acts
        obtain ⟨v', hs', hentry, hheld'⟩ :=
          held_body now hs hheld at_ hjob hmove (inTime_of hg at_ acts)
        rw [watch_fresh act hs hs' hrep, fresh_same hentry]
        exact ⟨v', hs', hheld'⟩
      · have hother : ∀ b, t = .body b → b.jobId ≠ jobId := fun b hb hjob => hbody ⟨b, hb, hjob⟩
        have hs' : Shows jobId userId (w.stores.run now op) v := hs.other (ended_op hc hother acts)
        rw [watch_fresh act hs hs' hrep, fresh_same rfl]
        exact ⟨v, hs', held_other hheld at_ hc hother acts⟩

theorem idle_iff : idle jobId w = true ↔ ∀ t ∈ w.threads, controls jobId t = false := by
  simp [idle]

theorem held_append {new : List Thread} (h : Held jobId userId w.threads v note)
    (hnew : ∀ t ∈ new, controls jobId t = false) :
    Held jobId userId (w.threads ++ new) v note := by
  cases h with
  | quiet none_ quiet =>
      refine .quiet ?_ quiet
      intro t ht
      rcases List.mem_append.mp ht with hold | ht
      · exact none_ t hold
      · exact hnew t ht
  | controlled i t at_ controls_ sole phase =>
      have hkept : ∀ (k : ℕ) (t₁ : Thread), w.threads[k]? = some t₁ →
          (w.threads ++ new)[k]? = some t₁ := by
        intro k t₁ hk
        rwa [List.getElem?_append_left (lt_of_getElem? hk)]
      refine .controlled i t (hkept i t at_) controls_ ?_
        (phase.threads fun n pc hworking => hworking.mono fun k b hb _ => hkept k _ hb)
      intro j t₁ ht₁ hc
      by_cases hj : j < w.threads.length
      · rw [List.getElem?_append_left hj] at ht₁
        exact sole j t₁ ht₁ hc
      · rw [List.getElem?_append_right (by omega)] at ht₁
        rw [hnew t₁ (List.mem_of_getElem? ht₁)] at hc
        cases hc

/-- A call or an attempt starts where nothing controls the job. -/
theorem held_start {t : Thread} (hidle : idle jobId w = true) (hc : controls jobId t = true)
    (phase : Phase jobId userId (w.threads ++ [t]) v note t) :
    Held jobId userId (w.threads ++ [t]) v note := by
  refine .controlled w.threads.length t (by simp) hc ?_ phase
  intro j t₁ ht₁ hc₁
  rcases getElem?_start_cases ht₁ with ⟨hj, -⟩ | ⟨-, hold⟩
  · exact hj
  · rw [idle_iff.mp hidle t₁ (List.mem_of_getElem? hold)] at hc₁
    cases hc₁

theorem Held.quiet_of_idle (h : Held jobId userId w.threads v note) (hidle : idle jobId w = true) :
    Quiet jobId userId v note := by
  cases h with
  | quiet none_ quiet => exact quiet
  | controlled i t at_ controls_ sole phase =>
      rw [idle_iff.mp hidle t (List.mem_of_getElem? at_)] at controls_
      cases controls_

/-- A delayed entry becomes waiting, and stays what it is for the job. -/
theorem Quiet.promote {entry : Entry} (h : Quiet jobId userId v note) (queued : v.entry = some entry)
    (delayed : entry.state = .delayed) :
    Quiet jobId userId { v with entry := some { entry with state := .waiting } } note := by
  cases h with
  | unused resting => rcases resting entry queued with hc | hf <;> simp [delayed] at *
  | pending n entry' queued' state user clean =>
      rw [queued] at queued'
      cases queued'
      exact .pending n _ rfl (.inl rfl) user
        ⟨clean.status, clean.message, clean.failures, clean.parked⟩
  | ready n reported state status clean => simp [state entry queued] at delayed
  | failed n e made entry' reported queued' state failed =>
      rw [queued] at queued'
      cases queued'
      simp [state] at delayed

/-- A completed entry that is forgotten leaves the job as it is. -/
theorem Quiet.purge {entry : Entry} (h : Quiet jobId userId v note) (queued : v.entry = some entry)
    (completed : entry.state = .completed) :
    Quiet jobId userId { v with entry := none } note := by
  cases h with
  | unused resting =>
      refine .unused ?_
      intro e he
      cases he
  | pending n entry' queued' state user clean =>
      rw [queued] at queued'
      cases queued'
      simp [completed] at state
  | ready n reported state status clean =>
      refine .ready n reported ?_ status ⟨clean.status, clean.message, clean.failures, clean.parked⟩
      intro e he
      cases he
  | failed n e made entry' reported queued' state failed =>
      rw [queued] at queued'
      cases queued'
      simp [state] at completed

theorem Replaced.purge {entry : Entry} (h : Replaced v note) (queued : v.entry = some entry)
    (completed : entry.state = .completed) : Replaced { v with entry := none } note := by
  rcases h with ⟨hnote, -⟩ | ⟨entry', queued', state⟩
  · refine .inl ⟨hnote, ?_⟩
    intro e he
    cases he
  · rw [queued] at queued'
    cases queued'
    simp [state] at completed

/-- While a thread controls the job its entry is not delayed, unless the thread has only just
started. -/
theorem Phase.promote {entry : Entry} {threads : List Thread} {t : Thread}
    (h : Phase jobId userId threads v note t) (queued : v.entry = some entry)
    (delayed : entry.state = .delayed) :
    Phase jobId userId threads { v with entry := some { entry with state := .waiting } } note t := by
  cases h with
  | checking _ c pc quiet => exact .checking note c pc (quiet.promote queued delayed)
  | restarting _ c job pc user quiet replaced =>
      rcases replaced.state queued with hc | hf <;> simp [delayed] at *
  | requeuing _ c job pc user status message replaced =>
      rcases replaced.state queued with hc | hf <;> simp [delayed] at *
  | adding _ c job pc user status message entry' => simp [queued] at entry'
  | attempt n a entry' user queued' state entryUser working =>
      rw [queued] at queued'
      cases queued'
      simp [state] at delayed
  | handler n h entry' user queued' state reported handling =>
      rw [queued] at queued'
      cases queued'
      simp [state] at delayed

theorem Phase.purge {entry : Entry} {threads : List Thread} {t : Thread}
    (h : Phase jobId userId threads v note t) (queued : v.entry = some entry)
    (completed : entry.state = .completed) :
    Phase jobId userId threads { v with entry := none } note t := by
  cases h with
  | checking _ c pc quiet => exact .checking note c pc (quiet.purge queued completed)
  | restarting _ c job pc user quiet replaced =>
      exact .restarting note c job pc user (quiet.purge queued completed)
        (replaced.purge queued completed)
  | requeuing _ c job pc user status message replaced =>
      exact .requeuing note c job pc user status message (replaced.purge queued completed)
  | adding _ c job pc user status message entry' => simp [queued] at entry'
  | attempt n a entry' user queued' state entryUser working =>
      rw [queued] at queued'
      cases queued'
      simp [state] at completed
  | handler n h entry' user queued' state reported handling =>
      rw [queued] at queued'
      cases queued'
      simp [state] at completed

theorem held_view {threads : List Thread} {v' : View} (h : Held jobId userId threads v note)
    (hquiet : Quiet jobId userId v note → Quiet jobId userId v' note)
    (hphase : ∀ t, Phase jobId userId threads v note t → Phase jobId userId threads v' note t) :
    Held jobId userId threads v' note := by
  cases h with
  | quiet none_ quiet => exact .quiet none_ (hquiet quiet)
  | controlled i t at_ controls_ sole phase =>
      exact .controlled i t at_ controls_ sole (hphase t phase)

/-- BullMQ or a client acts. -/
theorem inv_outside {act : Action} {new : List Thread} (h : Inv jobId userId (w, note))
    (hg : sequential jobId w act = true) (acts : Outside w act op new) :
    Inv jobId userId (⟨w.stores.run 0 op, w.threads ++ new⟩,
      watch jobId w ⟨w.stores.run 0 op, w.threads ++ new⟩ act note) := by
  obtain ⟨v, hs, hheld⟩ := h
  dsimp only at hs hheld
  -- an operation about another job, with threads that do not control this one
  have hother : subject op ≠ some jobId → (∀ t ∈ new, controls jobId t = false) →
      reported jobId w act = none → Inv jobId userId (⟨w.stores.run 0 op, w.threads ++ new⟩,
        watch jobId w ⟨w.stores.run 0 op, w.threads ++ new⟩ act note) := by
    intro hop hnew hrep
    have hs' : Shows jobId userId (w.stores.run 0 op) v := hs.other hop
    rw [watch_fresh act hs hs' hrep, fresh_same rfl]
    exact ⟨v, hs', held_append hheld hnew⟩
  cases acts with
  | called request =>
      by_cases hc : controls jobId request.thread = true
      · have hs' : Shows jobId userId
            (World.mk (w.stores.run 0 .none) (w.threads ++ [request.thread])).stores v := hs
        rw [watch_fresh (.call request) hs hs' rfl, fresh_same rfl]
        cases request with
        | create user label key => cases hc
        | process user id =>
            obtain rfl : id = jobId := by simpa [controls, Request.thread] using hc
            have hidle : idle id w = true := by simpa [sequential] using hg
            exact ⟨v, hs', held_start hidle hc (.checking note _ rfl (hheld.quiet_of_idle hidle))⟩
        | update user id dto =>
            obtain rfl : id = jobId := by simpa [controls, Request.thread] using hc
            simp [sequential] at hg
        | remove user id =>
            obtain rfl : id = jobId := by simpa [controls, Request.thread] using hc
            simp [sequential] at hg
      · refine hother (by simp [subject]) ?_ rfl
        intro t ht
        rw [List.mem_singleton.mp ht]
        simpa using hc
  | picked id entry queued waiting =>
      by_cases hid : id = jobId
      · subst hid
        have hidle : idle id w = true := by simpa [sequential] using hg
        have hs' : Shows id userId
            (w.stores.run 0 (.setEntry id (some { entry with state := .active }))) _ := hs.setEntry
        rw [hs.entry] at queued
        rw [watch_fresh (.pick id) hs hs' rfl, fresh_some queued]
        refine ⟨_, hs', held_start hidle (by simp [controls]) ?_⟩
        cases hheld.quiet_of_idle hidle with
        | unused resting => rcases resting entry queued with hc | hf <;> simp [waiting] at *
        | pending n entry' queued' state user clean =>
            rw [queued] at queued'
            cases queued'
            exact .attempt n _ _ user rfl rfl user
              (.reading ⟨clean.status, clean.message, clean.failures, clean.parked⟩)
        | ready n reported state status clean => simp [state entry queued] at waiting
        | failed n e made entry' reported queued' state failed =>
            rw [queued] at queued'
            cases queued'
            simp [state] at waiting
      · exact hother (by simpa [subject] using hid) (by simp [controls, hid]) rfl
  | promoted id entry queued delayed =>
      by_cases hid : id = jobId
      · subst hid
        have hs' : Shows id userId
            (w.stores.run 0 (.setEntry id (some { entry with state := .waiting }))) _ := hs.setEntry
        rw [hs.entry] at queued
        rw [watch_fresh (.promote id) hs hs' rfl, fresh_some queued]
        exact ⟨_, hs', held_append (held_view hheld (fun hq => hq.promote queued delayed)
          fun t hp => hp.promote queued delayed) (by simp)⟩
      · exact hother (by simpa [subject] using hid) (by simp) rfl
  | purged id entry queued completed =>
      by_cases hid : id = jobId
      · subst hid
        have hs' : Shows id userId (w.stores.run 0 (.setEntry id none)) _ := hs.setEntry
        rw [hs.entry] at queued
        rw [watch_fresh (.purge id) hs hs' rfl, fresh_some queued]
        exact ⟨_, hs', held_append (held_view hheld (fun hq => hq.purge queued completed)
          fun t hp => hp.purge queued completed) (by simp)⟩
      · exact hother (by simpa [subject] using hid) (by simp) rfl
  | uploaded user id bytes => exact hother (by simp [subject]) (by simp) rfl

theorem inv_step {act : Action} {s s' : World × Option Watch} (h : Inv jobId userId s)
    (hg : sequential jobId s.1 act = true) (hs : watched cfg jobId s act = some s') :
    Inv jobId userId s' := by
  obtain ⟨w', hw, rfl⟩ := Option.map_eq_some_iff.mp hs
  cases step_shape hw with
  | thread i now t t' op spawned at_ acts => exact inv_thread h hg at_ acts
  | outside op new acts => exact inv_outside h hg acts

theorem Clean.agrees (h : Clean n v) : v.message ≠ none ↔ v.status = .FAILED := by
  constructor
  · intro hmessage
    exact (hmessage h.message).elim
  · intro hstatus
    exact (h.ne_failed hstatus).elim

theorem Failed.agrees {message : String} {failures : List ProcessingEvent} {parked : List DlqEntry}
    (h : Failed n v message failures parked) : v.message ≠ none ↔ v.status = .FAILED := by
  simp [h.message, h.status]

theorem Marking.agrees {message : String} {mark : MarkPc} (h : Marking n v message mark) :
    v.message ≠ none ↔ v.status = .FAILED := by
  cases h with
  | rawById clean => exact clean.agrees
  | setStatus clean => exact clean.agrees
  | addEvent failed => exact failed.agrees

theorem Working.agrees {threads : List Thread} {pc : AttemptPc} (h : Working jobId threads n v pc) :
    v.message ≠ none ↔ v.status = .FAILED := by
  cases h with
  | marking e mark marking => exact marking.agrees
  | recorded e permanent failed => exact failed.agrees
  | reading clean => exact clean.agrees
  | announcing work clean => exact clean.agrees
  | starting work clean => exact clean.agrees
  | racing work i b at_ job serves done clean => exact clean.agrees
  | completing work result done clean => exact clean.agrees
  | failing work e clean => exact clean.agrees
  | succeeded status clean => exact clean.agrees
  | gaveUp e clean => exact clean.agrees

theorem Quiet.agrees (h : Quiet jobId userId v (some n)) :
    v.message ≠ none ↔ v.status = .FAILED := by
  cases h with
  | pending _ entry queued state user clean => exact clean.agrees
  | ready _ reported state status clean => exact clean.agrees
  | failed _ e made entry reported queued state failed => exact failed.agrees

theorem Phase.agrees {threads : List Thread} {t : Thread}
    (h : Phase jobId userId threads v (some n) t) : v.message ≠ none ↔ v.status = .FAILED := by
  cases h with
  | checking _ c pc quiet => exact quiet.agrees
  | restarting _ c job pc user quiet replaced => exact quiet.agrees
  | requeuing _ c job pc user status message replaced => simp [status, message]
  | adding _ c job pc user status message entry => simp [status, message]
  | attempt _ a entry user queued state entryUser working => exact working.agrees
  | handler _ h entry user queued state reported handling =>
      generalize h.pc = pc at handling
      cases handling with
      | marking mark marking => exact marking.agrees
      | recorded failed => exact failed.agrees
      | parking failed => exact failed.agrees

/-- Nothing works on the live job of the user, and no entry of it is waiting, delayed or active. -/
structure Idle (jobId userId : String) (w : World) : Prop where
  row : ∃ job, w.stores.findById jobId = some job ∧ Owned userId job
  idle : idle jobId w = true
  entry : resting (w.stores.queue jobId)

theorem inv_idle (h : Idle jobId userId w) : Inv jobId userId (w, none) := by
  obtain ⟨job, hrow, howned⟩ := h.row
  refine ⟨⟨job.status, job.errorMessage, _, _, _⟩, ⟨⟨job, hrow, howned, rfl, rfl⟩, rfl, rfl, rfl⟩, ?_⟩
  exact .quiet (idle_iff.mp h.idle) (.unused h.entry)

/-- What the stores hold when the last attempt of an entry has ended, by its outcome. -/
inductive Ended (jobId userId : String) (note : Watch) (s : Stores) (job : Job) :
    Option Err → Prop where
  | ready (status : job.status = .READY) (message : job.errorMessage = none)
      (failures : failedEvents jobId s = note.failures)
      (parked : deadLetters jobId s = note.parked) : Ended jobId userId note s job none
  | failed (e : Err) (made : ℕ) (status : job.status = .FAILED)
      (message : job.errorMessage = some (truncate e.message))
      (failures : failedEvents jobId s =
        note.failures ++ [⟨jobId, "pipeline", "failed", some (truncate e.message)⟩])
      (parked : deadLetters jobId s = note.parked ++ [⟨jobId, userId, e.message, made⟩]) :
      Ended jobId userId note s job (some e)

/-- Steps of the job that follow one another. -/
def Sequential (jobId : String) (s : World × Option Watch) (act : Action) : Prop :=
  sequential jobId s.1 act = true

instance (jobId : String) : DecidableRel (Sequential jobId) :=
  fun s act => inferInstanceAs (Decidable (sequential jobId s.1 act = true))

/-- From the moment `process` has added an entry, over this entry and every later one: the row
has an error message exactly when it is FAILED, and when the entry is finished the job is READY
or FAILED as the last attempt ended, with one dead letter and one `pipeline failed` event for a
failure and none for a success. -/
theorem sequential_outcome (cfg : ServerConfig) {w w' : World} {note : Watch}
    {jobId userId : String} (h : Idle jobId userId w)
    (hrun : Run (watched cfg jobId) (Sequential jobId) (w, none) (w', some note)) :
    ∃ job, w'.stores.findById jobId = some job ∧
      (job.errorMessage ≠ none ↔ job.status = .FAILED) ∧
      (idle jobId w' = true → resting (w'.stores.queue jobId) →
        ∃ outcome, note.outcome = some outcome ∧
          Ended jobId userId note w'.stores job outcome) := by
  have hinv : Inv jobId userId (w', some note) :=
    hrun.invariant (I := fun s => Inv jobId userId s) (inv_idle h)
      fun s act s' hs hg hstep => inv_step hs hg hstep
  obtain ⟨v, hs, hheld⟩ := hinv
  dsimp only at hs hheld
  obtain ⟨job, hrow, -, hstatus, hmessage⟩ := hs.row
  refine ⟨job, hrow, ?_, ?_⟩
  · rw [hstatus, hmessage]
    cases hheld with
    | quiet none_ quiet => exact quiet.agrees
    | controlled i t at_ controls_ sole phase => exact phase.agrees
  · intro hidle hrest
    rw [hs.entry] at hrest
    cases hheld.quiet_of_idle hidle with
    | pending _ entry queued state user clean =>
        have hended := hrest entry queued
        rcases state with hstate | hstate <;> simp [hstate] at hended
    | ready _ reported state status clean =>
        exact ⟨none, reported, .ready (hstatus.trans status) (hmessage.trans clean.message)
          (hs.failures.trans clean.failures) (hs.parked.trans clean.parked)⟩
    | failed _ e made entry reported queued state failed =>
        exact ⟨some e, reported, .failed e made (hstatus.trans failed.status)
          (hmessage.trans failed.message) (hs.failures.trans failed.failures)
          (hs.parked.trans failed.parked)⟩

/-- An attempt as thread `i` that fails while the provider transcribes, and is tried again. -/
def transientSchedule (i : ℕ) : List Action :=
  .pick "job-1" :: steps i 3 {} ++ [.step (i + 1) {}, .throw (i + 1) {} ⟨"Bad gateway", false, false⟩ false] ++
    steps i 2 {} ++ [.ack i, .promote "job-1"]

/-- An attempt as thread `i` on a silent recording, with its failure handler. -/
def permanentSchedule (i : ℕ) : List Action :=
  .pick "job-1" :: steps i 3 {} ++ steps (i + 1) 2 {} ++ steps i 5 {} ++ .ack i :: steps (i + 2) 2 {}

def failedEntrySchedule : List Action :=
  checkSchedule 1 ++ enqueueSchedule 1 ++ transientSchedule 2 ++ permanentSchedule 4

/-- The user asks again, and the next attempt succeeds. -/
def secondEntrySchedule : List Action :=
  failedEntrySchedule ++ .call (.process "user-1" "job-1") :: steps 7 8 {} ++ compileSchedule 8 ++
    renderSchedule 8 ++ finishSchedule 8

/-- The entry is finished in the given state, and a watch has begun. -/
def finishedAs (state : EntryState) (s : World × Option Watch) : Bool :=
  idle "job-1" s.1 && s.2.isSome && (s.1.stores.queue "job-1").map Entry.state = some state

theorem finishedAs_spec {state : EntryState} {s : World × Option Watch}
    (h : finishedAs state s = true) (hend : state = .completed ∨ state = .failed) :
    ∃ note, s = (s.1, some note) ∧ idle "job-1" s.1 = true ∧ resting (s.1.stores.queue "job-1") := by
  simp only [finishedAs, Bool.and_eq_true, decide_eq_true_eq] at h
  obtain ⟨⟨hidle, hnote⟩, hstate⟩ := h
  obtain ⟨note, hn⟩ := Option.isSome_iff_exists.mp hnote
  refine ⟨note, by rw [← hn], hidle, ?_⟩
  intro e he
  rw [he] at hstate
  have hs : e.state = state := Option.some.inj hstate
  rwa [hs]

/-- A job with a recording that nobody has processed yet. -/
def submitted (w : World) : Bool :=
  idle "job-1" w && (w.stores.queue "job-1").isNone &&
    (w.stores.findById "job-1").any fun job =>
      job.userId = "user-1" && job.deletedAt.isNone && (job.audioKey.filter (· ≠ "")).isSome

theorem submitted_idle (h : submitted w = true) : Idle "job-1" "user-1" w := by
  simp only [submitted, Bool.and_eq_true, Option.isNone_iff_eq_none, Option.any_eq_true,
    decide_eq_true_eq] at h
  obtain ⟨⟨hidle, hnone⟩, job, hrow, ⟨huser, hlive⟩, haudio⟩ := h
  refine ⟨⟨job, hrow, huser, hlive, haudio⟩, hidle, ?_⟩
  intro e he
  rw [hnone] at he
  cases he

theorem sequential_outcome_demo : ∃ (w w₁ w₂ : World) (note₁ note₂ : Watch),
    Idle "job-1" "user-1" w ∧
    Run (watched demo "job-1") (Sequential "job-1") (w, none) (w₁, some note₁) ∧
    Run (watched demo "job-1") (Sequential "job-1") (w, none) (w₂, some note₂) ∧
    (∃ job outcome, w₁.stores.findById "job-1" = some job ∧ note₁.outcome = some outcome ∧
      Ended "job-1" "user-1" note₁ w₁.stores job outcome) ∧
    ∃ job outcome, w₂.stores.findById "job-1" = some job ∧ note₂.outcome = some outcome ∧
      Ended "job-1" "user-1" note₂ w₂.stores job outcome := by
  have hexec : ((exec (step demo) submitSchedule World.empty).any fun w =>
      submitted w &&
        ((execWhere (watched demo "job-1") (Sequential "job-1") failedEntrySchedule (w, none)).any
          (finishedAs .failed) &&
        (execWhere (watched demo "job-1") (Sequential "job-1") secondEntrySchedule (w, none)).any
          (finishedAs .completed))) = true := by decide
  obtain ⟨w, -, hw⟩ := exec_any hexec
  simp only [Bool.and_eq_true] at hw
  obtain ⟨hsub, hfirst, hsecond⟩ := hw
  obtain ⟨⟨w₁, n₁⟩, hrun₁, hend₁⟩ := execWhere_any hfirst
  obtain ⟨⟨w₂, n₂⟩, hrun₂, hend₂⟩ := execWhere_any hsecond
  obtain ⟨note₁, he₁, hidle₁, hrest₁⟩ := finishedAs_spec hend₁ (.inr rfl)
  obtain ⟨note₂, he₂, hidle₂, hrest₂⟩ := finishedAs_spec hend₂ (.inl rfl)
  rw [he₁] at hrun₁
  rw [he₂] at hrun₂
  have hstart := submitted_idle hsub
  obtain ⟨job₁, hrow₁, -, hout₁⟩ := sequential_outcome demo hstart hrun₁
  obtain ⟨job₂, hrow₂, -, hout₂⟩ := sequential_outcome demo hstart hrun₂
  obtain ⟨outcome₁, ho₁, hended₁⟩ := hout₁ hidle₁ hrest₁
  obtain ⟨outcome₂, ho₂, hended₂⟩ := hout₂ hidle₂ hrest₂
  exact ⟨w, w₁, w₂, note₁, note₂, hstart, hrun₁, hrun₂, ⟨job₁, outcome₁, hrow₁, ho₁, hended₁⟩,
    job₂, outcome₂, hrow₂, ho₂, hended₂⟩

end FieldNote.SequentialOutcome
