import FieldNote.CallPool
import FieldNote.GuardedRuns
import FieldNote.PipelineService

/-!
# The server as one transition system

API calls, worker attempts, stage bodies and failure handlers are threads over the shared
stores, stepped one segment at a time in any order. A step of a thread succeeds, or its
`await` throws; a throwing operation may or may not have taken effect. BullMQ picks waiting
entries, reports settled attempts, re-queues delayed entries and forgets completed ones;
devices upload recordings with presigned URLs.
-/
namespace FieldNote.ServerRuns
open JobsService PipelineService CallPool

inductive Thread where
  | create (call : CreateCall)
  | process (call : ProcessCall)
  | update (call : UpdateCall)
  | remove (call : RemoveCall)
  | attempt (attempt : Attempt)
  | body (body : Body)
  | handler (handler : Handler)
deriving DecidableEq

structure World where
  stores : Stores
  threads : List Thread

def World.empty : World := ⟨.empty, []⟩

/-- A request that reaches the API. -/
inductive Request where
  | create (userId label : String) (idempotencyKey : Option String)
  | process (userId jobId : String)
  | update (userId jobId : String) (dto : UpdateJobDto)
  | remove (userId jobId : String)

def Request.thread : Request → Thread
  | .create userId label key => .create (JobsService.create userId label key)
  | .process userId jobId => .process ⟨userId, jobId, .findScoped⟩
  | .update userId jobId dto => .update ⟨userId, jobId, dto, .requireOwned⟩
  | .remove userId jobId => .remove ⟨userId, jobId, .requireOwned⟩

inductive Action where
  | call (request : Request)
  | step (i : ℕ) (env : Env)
  | throw (i : ℕ) (env : Env) (error : Err) (applied : Bool)
  | timeout (i : ℕ)
  | ack (i : ℕ)
  | pick (jobId : String)
  | promote (jobId : String)
  | purge (jobId : String)
  | upload (userId jobId bytes : String)

/-- The result of a body thread, once it is done. -/
def World.bodyResult (w : World) (i : ℕ) : Option (Except Err StageResult) :=
  match w.threads[i]? with
  | some (.body b) =>
      match b.pc with
      | .done result => some result
      | _ => none
  | _ => none

/-- The body an attempt starts when it enters the race. -/
def Attempt.spawn (a : Attempt) (now : ℕ) : List Thread :=
  match a.pc with
  | .addStarted work => [.body ⟨a.jobId, a.userId, startBody a.jobId now work⟩]
  | _ => []

/-- What a successful segment makes of a thread, the operation it issues, and the threads
it starts. -/
def next (cfg : ServerConfig) (w : World) (env : Env) :
    Thread → Option (Thread × Op × List Thread)
  | .create c => (nextCreate cfg w.stores env c).map fun (pc, op) =>
      (.create { c with pc := pc }, op, [])
  | .process c => (nextProcess cfg w.stores c).map fun (pc, op) =>
      (.process { c with pc := pc }, op, [])
  | .update c => (nextUpdate cfg w.stores env c).map fun (pc, op) =>
      (.update { c with pc := pc }, op, [])
  | .remove c => (nextRemove w.stores c).map fun (pc, op) =>
      (.remove { c with pc := pc }, op, [])
  | .attempt a => (nextAttempt w.stores a w.threads.length w.bodyResult).map fun (pc, op) =>
      (.attempt { a with pc := pc }, op, Attempt.spawn a env.now)
  | .body b => (nextBody w.stores env b).map fun (pc, op) => (.body { b with pc := pc }, op, [])
  | .handler h => (nextHandler w.stores h).map fun (pc, op) =>
      (.handler { h with pc := pc }, op, [])

/-- A segment of each kind of thread. -/
inductive Segment (cfg : ServerConfig) (w : World) (env : Env) :
    Thread → Thread → Op → List Thread → Prop where
  | create (c : CreateCall) (pc : CreatePc) (op : Op)
      (next : nextCreate cfg w.stores env c = some (pc, op)) :
      Segment cfg w env (.create c) (.create { c with pc := pc }) op []
  | process (c : ProcessCall) (pc : ProcessPc) (op : Op)
      (next : nextProcess cfg w.stores c = some (pc, op)) :
      Segment cfg w env (.process c) (.process { c with pc := pc }) op []
  | update (c : UpdateCall) (pc : UpdatePc) (op : Op)
      (next : nextUpdate cfg w.stores env c = some (pc, op)) :
      Segment cfg w env (.update c) (.update { c with pc := pc }) op []
  | remove (c : RemoveCall) (pc : RemovePc) (op : Op)
      (next : nextRemove w.stores c = some (pc, op)) :
      Segment cfg w env (.remove c) (.remove { c with pc := pc }) op []
  | attempt (a : Attempt) (pc : AttemptPc) (op : Op)
      (next : nextAttempt w.stores a w.threads.length w.bodyResult = some (pc, op)) :
      Segment cfg w env (.attempt a) (.attempt { a with pc := pc }) op (Attempt.spawn a env.now)
  | body (b : Body) (pc : BodyPc) (op : Op) (next : nextBody w.stores env b = some (pc, op)) :
      Segment cfg w env (.body b) (.body { b with pc := pc }) op []
  | handler (h : Handler) (pc : HandlerPc) (op : Op)
      (next : nextHandler w.stores h = some (pc, op)) :
      Segment cfg w env (.handler h) (.handler { h with pc := pc }) op []

theorem next_segment {cfg : ServerConfig} {w : World} {env : Env} {t t' : Thread} {op : Op}
    {spawned : List Thread} (h : next cfg w env t = some (t', op, spawned)) :
    Segment cfg w env t t' op spawned := by
  cases t with
  | create c =>
      obtain ⟨⟨pc, op'⟩, hn, he⟩ := Option.map_eq_some_iff.mp h
      cases he
      exact .create c pc op hn
  | process c =>
      obtain ⟨⟨pc, op'⟩, hn, he⟩ := Option.map_eq_some_iff.mp h
      cases he
      exact .process c pc op hn
  | update c =>
      obtain ⟨⟨pc, op'⟩, hn, he⟩ := Option.map_eq_some_iff.mp h
      cases he
      exact .update c pc op hn
  | remove c =>
      obtain ⟨⟨pc, op'⟩, hn, he⟩ := Option.map_eq_some_iff.mp h
      cases he
      exact .remove c pc op hn
  | attempt a =>
      obtain ⟨⟨pc, op'⟩, hn, he⟩ := Option.map_eq_some_iff.mp h
      cases he
      exact .attempt a pc op hn
  | body b =>
      obtain ⟨⟨pc, op'⟩, hn, he⟩ := Option.map_eq_some_iff.mp h
      cases he
      exact .body b pc op hn
  | handler hd =>
      obtain ⟨⟨pc, op'⟩, hn, he⟩ := Option.map_eq_some_iff.mp h
      cases he
      exact .handler hd pc op hn

/-- What a thread becomes when its `await` throws. -/
def throwing (e : Err) : Thread → Option Thread
  | .create c => c.throwing.map fun pc => .create { c with pc := pc }
  | .process c => c.throwing.map fun pc => .process { c with pc := pc }
  | .update c => c.throwing.map fun pc => .update { c with pc := pc }
  | .remove c => c.throwing.map fun pc => .remove { c with pc := pc }
  | .attempt a => (a.throwing e).map fun pc => .attempt { a with pc := pc }
  | .body b => (b.throwing e).map fun pc => .body { b with pc := pc }
  | .handler h => h.throwing.map fun pc => .handler { h with pc := pc }

/-- The stage timeout wins the race of an attempt. -/
def timingOut (cfg : ServerConfig) : Thread → Option Thread
  | .attempt a =>
      match a.pc with
      | .racing work _ =>
          some (.attempt { a with pc := .addFailed work (stageTimeoutError cfg work.stage) })
      | _ => none
  | _ => none

/-- BullMQ's verdict on a settled attempt: the next state of its entry, and the failure
handler when the failure is terminal. A listener for a failure that will be retried returns
at once. -/
def settle (cfg : ServerConfig) (jobId : String) (entry : Entry) :
    Option Err → Entry × List Thread
  | none => ({ entry with state := .completed }, [])
  | some e =>
      let made := entry.attemptsMade + 1
      if e.unrecoverable || cfg.jobMaxAttempts ≤ made then
        ({ entry with state := .failed, attemptsMade := made },
          [.handler ⟨jobId, entry.userId, e, made, .marking .rawById⟩])
      else ({ entry with state := .delayed, attemptsMade := made }, [])

def World.advance (w : World) (now i : ℕ) (t : Thread) (op : Op) (spawned : List Thread) :
    World :=
  ⟨w.stores.run now op, w.threads.set i t ++ spawned⟩

/-- An operation of BullMQ on an entry that is in the given state. -/
def World.moveEntry (w : World) (jobId : String) (from_ : EntryState)
    (f : Entry → Option Entry) (spawned : Entry → List Thread) : Option World :=
  match w.stores.queue jobId with
  | some entry =>
      if entry.state = from_ then
        some ⟨w.stores.run 0 (.setEntry jobId (f entry)), w.threads ++ spawned entry⟩
      else none
  | none => none

def step (cfg : ServerConfig) (w : World) : Action → Option World
  | .call request => some { w with threads := w.threads ++ [request.thread] }
  | .step i env =>
      w.threads[i]?.bind fun t =>
        (next cfg w env t).map fun (t', op, spawned) => w.advance env.now i t' op spawned
  | .throw i env e applied =>
      w.threads[i]?.bind fun t =>
        (throwing e t).bind fun t' =>
          if applied then
            (next cfg w env t).map fun (_, op, _) => w.advance env.now i t' op []
          else some (w.advance env.now i t' .none [])
  | .timeout i =>
      w.threads[i]?.bind fun t =>
        (timingOut cfg t).map fun t' => w.advance 0 i t' .none []
  | .ack i =>
      w.threads[i]?.bind fun t =>
        match t with
        | .attempt a =>
            match a.pc, w.stores.queue a.jobId with
            | .settled e, some entry =>
                let (entry', spawned) := settle cfg a.jobId entry e
                some (w.advance 0 i (.attempt { a with pc := .acked })
                  (.setEntry a.jobId (some entry')) spawned)
            | _, _ => none
        | _ => none
  | .pick jobId =>
      w.moveEntry jobId .waiting (fun entry => some { entry with state := .active })
        fun entry => [.attempt ⟨jobId, entry.userId, .findById⟩]
  | .promote jobId =>
      w.moveEntry jobId .delayed (fun entry => some { entry with state := .waiting }) fun _ => []
  | .purge jobId => w.moveEntry jobId .completed (fun _ => none) fun _ => []
  | .upload userId jobId bytes =>
      some { w with stores := w.stores.run 0 (.putObject (audioKey userId jobId) (.audio bytes)) }

/-- Everything one step can do: a thread moves, or BullMQ or a client acts. -/
inductive StepEffect (cfg : ServerConfig) (w : World) : Action → World → Prop where
  | called (request : Request) :
      StepEffect cfg w (.call request) { w with threads := w.threads ++ [request.thread] }
  | stepped (i : ℕ) (env : Env) (t t' : Thread) (op : Op) (spawned : List Thread)
      (thread : w.threads[i]? = some t) (next : next cfg w env t = some (t', op, spawned)) :
      StepEffect cfg w (.step i env) (w.advance env.now i t' op spawned)
  | threw (i : ℕ) (env : Env) (e : Err) (t t' : Thread)
      (thread : w.threads[i]? = some t) (throws : throwing e t = some t') :
      StepEffect cfg w (.throw i env e false) (w.advance env.now i t' .none [])
  | lost (i : ℕ) (env : Env) (e : Err) (t t' t₁ : Thread) (op : Op) (spawned : List Thread)
      (thread : w.threads[i]? = some t) (throws : throwing e t = some t')
      (next : next cfg w env t = some (t₁, op, spawned)) :
      StepEffect cfg w (.throw i env e true) (w.advance env.now i t' op [])
  | timedOut (i : ℕ) (t t' : Thread) (thread : w.threads[i]? = some t)
      (out : timingOut cfg t = some t') :
      StepEffect cfg w (.timeout i) (w.advance 0 i t' .none [])
  | acked (i : ℕ) (a : Attempt) (e : Option Err) (entry : Entry)
      (thread : w.threads[i]? = some (.attempt a)) (pc : a.pc = .settled e)
      (queued : w.stores.queue a.jobId = some entry) :
      StepEffect cfg w (.ack i) (w.advance 0 i (.attempt { a with pc := .acked })
        (.setEntry a.jobId (some (settle cfg a.jobId entry e).1))
        (settle cfg a.jobId entry e).2)
  | picked (jobId : String) (entry : Entry) (queued : w.stores.queue jobId = some entry)
      (waiting : entry.state = .waiting) :
      StepEffect cfg w (.pick jobId)
        ⟨w.stores.run 0 (.setEntry jobId (some { entry with state := .active })),
          w.threads ++ [.attempt ⟨jobId, entry.userId, .findById⟩]⟩
  | promoted (jobId : String) (entry : Entry) (queued : w.stores.queue jobId = some entry)
      (delayed : entry.state = .delayed) :
      StepEffect cfg w (.promote jobId)
        ⟨w.stores.run 0 (.setEntry jobId (some { entry with state := .waiting })),
          w.threads ++ []⟩
  | purged (jobId : String) (entry : Entry) (queued : w.stores.queue jobId = some entry)
      (completed : entry.state = .completed) :
      StepEffect cfg w (.purge jobId)
        ⟨w.stores.run 0 (.setEntry jobId none), w.threads ++ []⟩
  | uploaded (userId jobId bytes : String) :
      StepEffect cfg w (.upload userId jobId bytes)
        { w with stores :=
            w.stores.run 0 (.putObject (audioKey userId jobId) (.audio bytes)) }

theorem moveEntry_eq_some {w w' : World} {jobId : String} {from_ : EntryState}
    {f : Entry → Option Entry} {spawned : Entry → List Thread}
    (h : w.moveEntry jobId from_ f spawned = some w') :
    ∃ entry, w.stores.queue jobId = some entry ∧ entry.state = from_ ∧
      w' = ⟨w.stores.run 0 (.setEntry jobId (f entry)), w.threads ++ spawned entry⟩ := by
  unfold World.moveEntry at h
  split at h
  · rename_i entry hq
    split_ifs at h with hstate
    exact ⟨entry, hq, hstate, by simpa using h.symm⟩
  · cases h

theorem step_effect {cfg : ServerConfig} {w w' : World} {a : Action}
    (hs : step cfg w a = some w') : StepEffect cfg w a w' := by
  cases a with
  | call request =>
      cases hs
      exact .called request
  | step i env =>
      obtain ⟨t, ht, hs⟩ := Option.bind_eq_some_iff.mp hs
      obtain ⟨⟨t', op, spawned⟩, hn, rfl⟩ := Option.map_eq_some_iff.mp hs
      exact .stepped i env t t' op spawned ht hn
  | throw i env e applied =>
      obtain ⟨t, ht, hs⟩ := Option.bind_eq_some_iff.mp hs
      obtain ⟨t', ht', hs⟩ := Option.bind_eq_some_iff.mp hs
      cases applied with
      | false =>
          cases hs
          exact .threw i env e t t' ht ht'
      | true =>
          obtain ⟨⟨t₁, op, spawned⟩, hn, rfl⟩ := Option.map_eq_some_iff.mp hs
          exact .lost i env e t t' t₁ op spawned ht ht' hn
  | timeout i =>
      obtain ⟨t, ht, hs⟩ := Option.bind_eq_some_iff.mp hs
      obtain ⟨t', ht', rfl⟩ := Option.map_eq_some_iff.mp hs
      exact .timedOut i t t' ht ht'
  | ack i =>
      obtain ⟨t, ht, hs⟩ := Option.bind_eq_some_iff.mp hs
      split at hs
      · rename_i a
        split at hs
        · rename_i e entry hpc hq
          cases hs
          exact .acked i a e entry ht hpc hq
        · cases hs
      · cases hs
  | pick jobId =>
      obtain ⟨entry, hq, hstate, rfl⟩ := moveEntry_eq_some hs
      exact .picked jobId entry hq hstate
  | promote jobId =>
      obtain ⟨entry, hq, hstate, rfl⟩ := moveEntry_eq_some hs
      exact .promoted jobId entry hq hstate
  | purge jobId =>
      obtain ⟨entry, hq, hstate, rfl⟩ := moveEntry_eq_some hs
      exact .purged jobId entry hq hstate
  | upload userId jobId bytes =>
      cases hs
      exact .uploaded userId jobId bytes

/-- A configuration for concrete runs. -/
def demo : ServerConfig where
  presign method key := method ++ " " ++ key
  presignPutTtl := 900
  presignGetTtl := 300
  jobMaxAttempts := 3
  stageTimeoutMs := 600000

def steps (i n : ℕ) (env : Env) : List Action := List.replicate n (.step i env)

/-- Thread 0 creates `job-1` of `user-1`, and the device uploads the recording. -/
def submitSchedule : List Action :=
  [.call (.create "user-1" "Site A" none), .step 0 { id := "job-1" },
    .upload "user-1" "job-1" "recording"]

/-- A `process` call as thread `i`, up to but without the status update. -/
def checkSchedule (i : ℕ) : List Action :=
  .call (.process "user-1" "job-1") :: steps i 2 {}

/-- The rest of a `process` call that finds no queue entry. -/
def enqueueSchedule (i : ℕ) : List Action := steps i 4 {}

/-- What the compiler answers in the runs below. -/
def demoReport : List ReportSectionInput := [⟨"Roof", [⟨"Leak", .SAFETY⟩]⟩]

/-- One attempt as thread `i`, from its pick to the end of the compile stage. -/
def compileSchedule (i : ℕ) : List Action :=
  [.pick "job-1"] ++ steps i 3 {} ++ steps (i + 1) 3 { text := "transcript" } ++ steps i 4 {} ++
    steps (i + 2) 2 { sections := demoReport } ++ steps i 2 {}

/-- The render stage of the attempt, up to but without the body's last update. -/
def renderSchedule (i : ℕ) : List Action := steps i 2 {} ++ steps (i + 3) 2 {}

/-- The body marks the job READY, and the attempt ends and is reported. -/
def finishSchedule (i : ℕ) : List Action :=
  .step (i + 3) {} :: steps i 2 {} ++ [.ack i]

/-- A recording is submitted and processed to the end. -/
def readySchedule : List Action :=
  submitSchedule ++ checkSchedule 1 ++ enqueueSchedule 1 ++ compileSchedule 2 ++
    renderSchedule 2 ++ finishSchedule 2

end FieldNote.ServerRuns
