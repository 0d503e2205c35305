import FieldNote.JobStore
import FieldNote.ServerRuns

/-!
# The device's sync service against the server

Every call of an asynchronous function of `JobSyncService` is a flow on the main actor: it
runs from one `await` to the next, and its outstanding request is served by threads of the
server, by a read of the stores, or by the object store. Requests may be sent again, answers
may come late or not at all, and the app may be killed at any time; a flow that has ended
keeps the program point at which it did. The uploads of the background session survive the
app.
-/
namespace FieldNote.JobSyncService
open JobStore JobsService

/-- The asynchronous functions with their arguments. `pushEdits` stands for `saveEdits` and
`pushPendingEdits`, `uploadFinished` for the uploader's completion callback. -/
inductive Task where
  | refresh (now : ℕ)
  | startReport (label path : String) (now : ℕ) (idempotencyKey : String)
  | driveUploadThenProcess (jobId path : String)
  | poll (jobId : String)
  | pushEdits
  | retry (jobId : String)
  | delete (jobId : String)
  | uploadFinished (jobId : String)
deriving DecidableEq, Repr

/-- Program points. A spawned task is `starting` until the actor runs it; `reported` is the
end of `startReport`. -/
inductive Pc where
  | starting
  | listing (pulled : List JobDto)
  | creating
  | reported (response : CreateJobResponse)
  | uploading
  | processing
  | polling (attempt : ℕ)
  | sleeping (attempt : ℕ)
  | pushing (jobId : String) (body : UpdateJobDto) (rest : List String)
  | deleting
  | returned
deriving DecidableEq, Repr

/-- Successful answers; a page says whether it has a successor. -/
inductive Reply where
  | page (items : List JobDto) (more : Bool)
  | created (response : CreateJobResponse)
  | uploaded
  | job (dto : JobDto)
  | deleted
deriving DecidableEq, Repr

/-- One flow: `sent` are the server's threads that serve the outstanding request, `replies`
its answers that are on their way. A flow that is not `live` has ended. -/
structure Flow where
  task : Task
  pc : Pc
  live : Bool
  sent : List ℕ
  replies : List Reply
deriving DecidableEq, Repr

structure World where
  server : ServerRuns.World
  cache : Cache
  files : List String
  active : String → Bool
  flows : List Flow

def World.empty : World := ⟨.empty, ∅, [], fun _ => false, []⟩

inductive Action where
  | server (a : ServerRuns.Action)
  | refresh (now : ℕ)
  | startReport (label path : String) (now : ℕ) (idempotencyKey : String)
  | saveEdits (jobId label : String) (sections : List SectionDto) (now : ℕ)
  | pushPendingEdits
  | poll (jobId : String)
  | retry (jobId : String)
  | delete (jobId : String)
  | uploadFinished (jobId : String)
  | begin (i : ℕ)
  | send (i : ℕ)
  | answer (i thread : ℕ)
  | read (i : ℕ) (ids : List String) (more : Bool)
  | store (i : ℕ)
  | deliver (i reply : ℕ)
  | fail (i : ℕ)
  | wake (i : ℕ)
  | kill

def maxPollAttempts : ℕ := 60

/-- A flow at its first `await`, or a spawned task. -/
def Flow.start (task : Task) (pc : Pc) : Flow := ⟨task, pc, true, [], []⟩

/-- The flow goes on to another `await`, with a new request. -/
def Flow.goto (f : Flow) (pc : Pc) : Flow := { f with pc := pc, sent := [], replies := [] }

def Flow.finish (f : Flow) (pc : Pc) : Flow := { f.goto pc with live := false }

/-- An error is caught by the function itself: it ends where it stands. -/
def Flow.stop (f : Flow) : Flow := { f with live := false }

def allJobs (cache : Cache) : List CachedJob :=
  cache.rows.insertionSort fun a b => b.createdAt ≤ a.createdAt

/-- The body of `pushEdits`. -/
def updateRequest (job : CachedJob) : UpdateJobDto where
  label := .value job.label
  sections := .value (job.orderedSections.map fun s =>
    ⟨s.title, s.sortOrder, (orderedFindings s).map fun f => ⟨f.text, f.severity, f.sortOrder⟩⟩)

/-- The loop of `pushPendingEdits`: the next job that is dirty by now. -/
def nextPush (cache : Cache) : List String → Pc
  | [] => .returned
  | id :: rest =>
      match cache.findUnique id with
      | some job =>
          if job.syncState = .dirty then .pushing id (updateRequest job) rest
          else nextPush cache rest
      | none => nextPush cache rest

/-- What `resumeInFlight` starts for one job. -/
def resumeTask (files : List String) (now : ℕ) (job : CachedJob) : Option Task :=
  let poll := if job.status.inFlight then some (.poll job.id) else none
  match job.pendingUpload, job.localAudioPath, job.uploadURL, job.uploadContentType,
      job.uploadExpiresAt with
  | true, some path, some _, some _, some expiresAt =>
      if path ∈ files ∧ now < expiresAt then some (.driveUploadThenProcess job.id path) else poll
  | _, _, _, _, _ => poll

def resumeInFlight (cache : Cache) (files : List String) (active : String → Bool) (now : ℕ) :
    List Task :=
  (allJobs cache).filterMap fun job => if active job.id then none else resumeTask files now job

def isTerminal (status : JobStatus) : Bool := status = .READY || status = .FAILED

/-- The job a flow holds in `activeJobIds`. -/
def Flow.owned (f : Flow) : Option String :=
  match f.task, f.pc with
  | .driveUploadThenProcess id _, .uploading | .driveUploadThenProcess id _, .processing => some id
  | .driveUploadThenProcess id _, .polling _ | .driveUploadThenProcess id _, .sleeping _ => some id
  | .poll id, .polling _ | .poll id, .sleeping _ => some id
  | .retry id, .polling _ | .retry id, .sleeping _ => some id
  | .uploadFinished id, .polling _ | .uploadFinished id, .sleeping _ => some id
  | _, _ => none

/-- The job whose `getJob` a polling flow awaits. -/
def Task.polled : Task → Option String
  | .driveUploadThenProcess id _ | .poll id | .retry id | .uploadFinished id => some id
  | _ => none

namespace World

def setFlow (w : World) (i : ℕ) (f : Flow) : World := { w with flows := w.flows.set i f }

def spawn (w : World) (f : Flow) : World := { w with flows := w.flows ++ [f] }

/-- `activeJobIds.remove`, which a flow defers. -/
def release (w : World) (f : Flow) : World :=
  match f.owned with
  | some id => { w with active := Function.update w.active id false }
  | none => w

/-- `poll(jobId:)`: nothing when the job is driven already. -/
def beginPoll (w : World) (i : ℕ) (f : Flow) (jobId : String) : World :=
  if w.active jobId then w.setFlow i (f.finish .returned)
  else { w.setFlow i (f.goto (.polling 1)) with active := Function.update w.active jobId true }

def endPoll (w : World) (i : ℕ) (f : Flow) : World :=
  (w.release f).setFlow i (f.finish .returned)

/-- The next turn of `pushPendingEdits`. -/
def push (w : World) (i : ℕ) (f : Flow) (rest : List String) : World :=
  match nextPush w.cache rest with
  | .returned => w.setFlow i (f.finish .returned)
  | pc => w.setFlow i (f.goto pc)

end World

/-- The request a flow awaits from the API. -/
def request (userId : String) (f : Flow) : Option ServerRuns.Request :=
  match f.task, f.pc with
  | .startReport label _ _ key, .creating => some (.create userId label (some key))
  | .driveUploadThenProcess id _, .processing => some (.process userId id)
  | .retry id, .processing => some (.process userId id)
  | .uploadFinished id, .processing => some (.process userId id)
  | .pushEdits, .pushing id body _ => some (.update userId id body)
  | .delete id, .deleting => some (.remove userId id)
  | _, _ => none

/-- The successful response of a server thread that has returned. -/
def threadReply : ServerRuns.Thread → Option Reply
  | .create c => match c.pc with
      | .returned response => some (.created response)
      | _ => none
  | .process c => match c.pc with
      | .returned dto => some (.job dto)
      | _ => none
  | .update c => match c.pc with
      | .returned dto => some (.job dto)
      | _ => none
  | .remove c => match c.pc with
      | .returned => some .deleted
      | _ => none
  | _ => none

/-- A read of the stores: a page of the list holds some of the user's live jobs. -/
def readReply (cfg : ServerConfig) (userId : String) (s : Stores) (ids : List String)
    (more : Bool) (f : Flow) : Option Reply :=
  match f.pc, f.task.polled with
  | .listing _, _ =>
      some (.page (ids.filterMap fun id =>
        (s.findScoped userId id).map fun job => jobToDto job none) more)
  | .polling _, some id =>
      match findOne cfg s userId id with
      | .ok dto => some (.job dto)
      | .error _ => none
  | _, _ => none

/-- A flow goes on with a successful answer. -/
def resume (w : World) (i : ℕ) (f : Flow) : Reply → Option World
  | .page items more =>
      match f.task, f.pc with
      | .refresh now, .listing pulled =>
          if more then some (w.setFlow i (f.goto (.listing (pulled ++ items))))
          else
            let cache := mergePulled w.cache (pulled ++ items)
            let tasks := resumeInFlight cache w.files w.active now
            some { w with
              cache := cache
              flows := w.flows.set i (f.finish .returned) ++
                tasks.map fun task => .start task .starting }
      | _, _ => none
  | .created response =>
      match f.task, f.pc with
      | .startReport _ path now _, .creating =>
          some { w with
            cache := registerCreated w.cache response.job path response.audioUploadUrl now
            flows := w.flows.set i (f.finish (.reported response)) ++
              [.start (.driveUploadThenProcess response.job.id path) .starting] }
      | _, _ => none
  | .uploaded =>
      match f.task, f.pc with
      | .driveUploadThenProcess id path, .uploading =>
          some { w.setFlow i (f.goto .processing) with
            cache := markUploaded w.cache id
            files := w.files.filter (· ≠ path) }
      | _, _ => none
  | .job dto =>
      let w' := { w with cache := upsert w.cache dto }
      match f.task, f.pc with
      | .driveUploadThenProcess _ _, .processing => some (w'.setFlow i (f.goto (.polling 1)))
      | .retry id, .processing => some (w'.beginPoll i f id)
      | .uploadFinished id, .processing => some (w'.beginPoll i f id)
      | .pushEdits, .pushing _ _ rest => some (w'.push i f rest)
      | _, .polling attempt =>
          if isTerminal dto.status then some (w'.endPoll i f)
          else some (w'.setFlow i (f.goto (.sleeping attempt)))
      | _, _ => none
  | .deleted =>
      match f.task, f.pc with
      | .delete id, .deleting =>
          some { w.setFlow i (f.finish .returned) with cache := w.cache.delete id }
      | _, _ => none

/-- A flow goes on with an error: the polling and the pushing loop catch it themselves, the
other functions end. -/
def fail (w : World) (i : ℕ) (f : Flow) : Option World :=
  match f.pc with
  | .listing _ | .creating | .uploading | .processing | .deleting =>
      some ((w.release f).setFlow i f.stop)
  | .polling attempt => some (w.setFlow i (f.goto (.sleeping attempt)))
  | .pushing _ _ rest => some (w.push i f rest)
  | _ => none

/-- The recording of a drive that has not got past the upload. -/
def Flow.uploads (f : Flow) : Option (String × String) :=
  match f.task, f.pc with
  | .driveUploadThenProcess id path, .uploading => some (id, path)
  | _, _ => none

/-- The background session has finished an upload that no flow awaits any more. -/
def orphaned (jobId : String) (f : Flow) : Bool :=
  !f.live && f.uploads.any (fun p => p.1 = jobId) && .uploaded ∈ f.replies

/-- A recording has a file of its own, and every `startReport` a new key. -/
def freshReport (w : World) (path key : String) : Bool :=
  w.flows.all fun f =>
    match f.task with
    | .startReport _ path' _ key' => path' ≠ path && key' ≠ key
    | _ => true

def step (cfg : ServerConfig) (userId : String) (w : World) : Action → Option World
  | .server a => (ServerRuns.step cfg w.server a).map fun server => { w with server := server }
  | .refresh now => some (w.spawn (.start (.refresh now) (.listing [])))
  | .startReport label path now key =>
      if freshReport w path key then
        some { w.spawn (.start (.startReport label path now key) .creating) with
          files := path :: w.files }
      else none
  | .saveEdits jobId label sections now =>
      let cache := applyLocalEdits w.cache jobId label sections now
      match cache.findUnique jobId with
      | some job =>
          some { w.spawn (.start .pushEdits (.pushing jobId (updateRequest job) [])) with
            cache := cache }
      | none => some { w with cache := cache }
  | .pushPendingEdits =>
      match nextPush w.cache ((allJobs w.cache).map CachedJob.id) with
      | .returned => some w
      | pc => some (w.spawn (.start .pushEdits pc))
  | .poll jobId =>
      let f := Flow.start (.poll jobId) .starting
      some ((w.spawn f).beginPoll w.flows.length f jobId)
  | .retry jobId => some (w.spawn (.start (.retry jobId) .processing))
  | .delete jobId => some (w.spawn (.start (.delete jobId) .deleting))
  | .uploadFinished jobId =>
      if w.flows.any (orphaned jobId) then
        some { w.spawn (.start (.uploadFinished jobId) .processing) with
          cache := markUploaded w.cache jobId }
      else none
  | .begin i =>
      w.flows[i]?.bind fun f =>
        match f.live, f.pc, f.task with
        | true, .starting, .driveUploadThenProcess id _ =>
            some { w.setFlow i (f.goto .uploading) with
              active := Function.update w.active id true }
        | true, .starting, .poll id => some (w.beginPoll i f id)
        | _, _, _ => none
  | .send i =>
      w.flows[i]?.bind fun f =>
        if f.live then
          (request userId f).map fun r =>
            { w.setFlow i { f with sent := f.sent ++ [w.server.threads.length] } with
              server := { w.server with threads := w.server.threads ++ [r.thread] } }
        else none
  | .answer i thread =>
      w.flows[i]?.bind fun f =>
        if thread ∈ f.sent then
          (w.server.threads[thread]?.bind threadReply).map fun r =>
            w.setFlow i { f with replies := f.replies ++ [r] }
        else none
  | .read i ids more =>
      w.flows[i]?.bind fun f =>
        (readReply cfg userId w.server.stores ids more f).map fun r =>
          w.setFlow i { f with replies := f.replies ++ [r] }
  | .store i =>
      w.flows[i]?.bind fun f =>
        f.uploads.bind fun (id, path) =>
          (ServerRuns.step cfg w.server (.upload userId id path)).map fun server =>
            { w.setFlow i { f with replies := f.replies ++ [.uploaded] } with server := server }
  | .deliver i k =>
      w.flows[i]?.bind fun f => if f.live then f.replies[k]?.bind (resume w i f) else none
  | .fail i => w.flows[i]?.bind fun f => if f.live then fail w i f else none
  | .wake i =>
      w.flows[i]?.bind fun f =>
        match f.live, f.pc with
        | true, .sleeping attempt =>
            if attempt < maxPollAttempts then some (w.setFlow i (f.goto (.polling (attempt + 1))))
            else some (w.endPoll i f)
        | _, _ => none
  | .kill => some { w with
      active := fun _ => false
      flows := w.flows.map Flow.stop }

/-- The copies that a flow applies when it goes on with the answer. -/
def copies (f : Flow) : Reply → List JobDto
  | .page items more =>
      match f.pc with
      | .listing pulled => if more then [] else pulled ++ items
      | _ => []
  | .created response => [response.job]
  | .job dto => [dto]
  | _ => []

def applied (w : World) : Action → List JobDto
  | .deliver i k =>
      match w.flows[i]? with
      | some f => (f.replies[k]?.map (copies f)).getD []
      | none => []
  | _ => []

/-- The step removes the job from the cache. -/
def deletes (jobId : String) (w : World) : Action → Bool
  | .deliver i _ => w.flows[i]?.any fun f => f.task = .delete jobId
  | _ => false

/-- Everything one step can do to the cache. -/
inductive CacheEffect (w : World) (a : Action) : Cache → Prop where
  | same : CacheEffect w a w.cache
  | merged (dtos : List JobDto) (copies : applied w a = dtos) :
      CacheEffect w a (mergePulled w.cache dtos)
  | registered (response : CreateJobResponse) (path : String) (now : ℕ)
      (copies : applied w a = [response.job]) :
      CacheEffect w a
        (registerCreated w.cache response.job path response.audioUploadUrl now)
  | marked (id : String) : CacheEffect w a (markUploaded w.cache id)
  | edited (id label : String) (sections : List SectionDto) (now : ℕ)
      (action : a = .saveEdits id label sections now) :
      CacheEffect w a (applyLocalEdits w.cache id label sections now)
  | deleted (id : String) (deletes : deletes id w a = true) : CacheEffect w a (w.cache.delete id)

variable {cfg : ServerConfig} {userId : String} {w w' : World}

@[simp] theorem release_cache (f : Flow) : (w.release f).cache = w.cache := by
  unfold World.release
  split <;> rfl

@[simp] theorem setFlow_cache (i : ℕ) (f : Flow) : (w.setFlow i f).cache = w.cache := rfl

@[simp] theorem beginPoll_cache (i : ℕ) (f : Flow) (id : String) :
    (w.beginPoll i f id).cache = w.cache := by
  unfold World.beginPoll
  split_ifs <;> rfl

@[simp] theorem endPoll_cache (i : ℕ) (f : Flow) : (w.endPoll i f).cache = w.cache := by
  simp [World.endPoll]

@[simp] theorem push_cache (i : ℕ) (f : Flow) (rest : List String) :
    (w.push i f rest).cache = w.cache := by
  unfold World.push
  split <;> rfl

theorem fail_cache {i : ℕ} {f : Flow} (h : fail w i f = some w') : w'.cache = w.cache := by
  unfold fail at h
  split at h <;> cases h <;> simp

theorem resume_cache {i k : ℕ} {f : Flow} {r : Reply} (hf : w.flows[i]? = some f)
    (hr : f.replies[k]? = some r) (h : resume w i f r = some w') :
    CacheEffect w (.deliver i k) w'.cache := by
  have happlied : applied w (.deliver i k) = copies f r := by simp [applied, hf, hr]
  cases r with
  | page items more =>
      simp only [resume] at h
      split at h
      · rename_i now pulled htask hpc
        split_ifs at h with hmore
        · cases h
          exact .same
        · cases h
          refine .merged _ ?_
          simp [happlied, copies, hpc, hmore]
      · cases h
  | created response =>
      simp only [resume] at h
      split at h
      · cases h
        exact .registered response _ _ happlied
      · cases h
  | uploaded =>
      simp only [resume] at h
      split at h
      · cases h
        exact .marked _
      · cases h
  | job dto =>
      have hone : CacheEffect w (.deliver i k) (upsert w.cache dto) := .merged [dto] happlied
      simp only [resume] at h
      split at h
      · cases h
        exact hone
      · cases h
        rw [beginPoll_cache]
        exact hone
      · cases h
        rw [beginPoll_cache]
        exact hone
      · cases h
        rw [push_cache]
        exact hone
      · split_ifs at h
        · cases h
          rw [endPoll_cache]
          exact hone
        · cases h
          exact hone
      · cases h
  | deleted =>
      simp only [resume] at h
      split at h
      · rename_i id htask hpc
        cases h
        exact .deleted id (by simp [deletes, hf, htask])
      · cases h

theorem step_cache {a : Action} (hs : step cfg userId w a = some w') :
    CacheEffect w a w'.cache := by
  cases a with
  | server a =>
      obtain ⟨server, -, rfl⟩ := Option.map_eq_some_iff.mp hs
      exact .same
  | startReport label path now key =>
      simp only [step] at hs
      split_ifs at hs
      cases hs
      exact .same
  | saveEdits jobId label sections now =>
      simp only [step] at hs
      split at hs <;> cases hs <;> exact .edited jobId label sections now rfl
  | pushPendingEdits =>
      simp only [step] at hs
      split at hs <;> cases hs <;> exact .same
  | poll jobId =>
      cases hs
      rw [beginPoll_cache]
      exact .same
  | uploadFinished jobId =>
      simp only [step] at hs
      split_ifs at hs
      cases hs
      exact .marked jobId
  | begin i =>
      obtain ⟨f, -, hs⟩ := Option.bind_eq_some_iff.mp hs
      split at hs
      · cases hs
        exact .same
      · cases hs
        rw [beginPoll_cache]
        exact .same
      · cases hs
  | send i =>
      obtain ⟨f, -, hs⟩ := Option.bind_eq_some_iff.mp hs
      split_ifs at hs
      obtain ⟨r, -, rfl⟩ := Option.map_eq_some_iff.mp hs
      exact .same
  | answer i thread =>
      obtain ⟨f, -, hs⟩ := Option.bind_eq_some_iff.mp hs
      split_ifs at hs
      obtain ⟨r, -, rfl⟩ := Option.map_eq_some_iff.mp hs
      exact .same
  | read i ids more =>
      obtain ⟨f, -, hs⟩ := Option.bind_eq_some_iff.mp hs
      obtain ⟨r, -, rfl⟩ := Option.map_eq_some_iff.mp hs
      exact .same
  | store i =>
      obtain ⟨f, -, hs⟩ := Option.bind_eq_some_iff.mp hs
      obtain ⟨p, -, hs⟩ := Option.bind_eq_some_iff.mp hs
      obtain ⟨server, -, rfl⟩ := Option.map_eq_some_iff.mp hs
      exact .same
  | deliver i k =>
      obtain ⟨f, hf, hs⟩ := Option.bind_eq_some_iff.mp hs
      split_ifs at hs
      obtain ⟨r, hr, hs⟩ := Option.bind_eq_some_iff.mp hs
      exact resume_cache hf hr hs
  | fail i =>
      obtain ⟨f, -, hs⟩ := Option.bind_eq_some_iff.mp hs
      split_ifs at hs
      rw [fail_cache hs]
      exact .same
  | wake i =>
      obtain ⟨f, -, hs⟩ := Option.bind_eq_some_iff.mp hs
      split at hs
      · split_ifs at hs <;> cases hs
        · exact .same
        · rw [endPoll_cache]
          exact .same
      · cases hs
  | _ =>
      cases hs
      exact .same

end FieldNote.JobSyncService
