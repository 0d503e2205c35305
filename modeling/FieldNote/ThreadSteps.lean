import FieldNote.JobStatements

/-!
# The two shapes of a server step

Either one thread of the pool moves, issues one operation and may start further threads, or
BullMQ or a client acts from outside and at most starts threads. An invariant of the stores
and the threads is proved once for each shape.
-/
namespace FieldNote.ServerRuns
open JobsService PipelineService CallPool

/-- A move of thread `i` by an action: the thread, the clock it reads, what it becomes, the
operation that takes effect and the threads it starts. -/
inductive Acts (cfg : ServerConfig) (w : World) (i : ℕ) :
    Action → Thread → ℕ → Thread → Op → List Thread → Prop where
  | stepped (env : Env) (t t' : Thread) (op : Op) (spawned : List Thread)
      (next : next cfg w env t = some (t', op, spawned)) :
      Acts cfg w i (.step i env) t env.now t' op spawned
  | threw (env : Env) (e : Err) (t t' : Thread) (throws : throwing e t = some t') :
      Acts cfg w i (.throw i env e false) t env.now t' .none []
  | lost (env : Env) (e : Err) (t t' t₁ : Thread) (op : Op) (spawned : List Thread)
      (throws : throwing e t = some t') (next : next cfg w env t = some (t₁, op, spawned)) :
      Acts cfg w i (.throw i env e true) t env.now t' op []
  | timedOut (t t' : Thread) (out : timingOut cfg t = some t') :
      Acts cfg w i (.timeout i) t 0 t' .none []
  | acked (a : Attempt) (e : Option Err) (entry : Entry) (pc : a.pc = .settled e)
      (queued : w.stores.queue a.jobId = some entry) :
      Acts cfg w i (.ack i) (.attempt a) 0 (.attempt { a with pc := .acked })
        (.setEntry a.jobId (some (settle cfg a.jobId entry e).1)) (settle cfg a.jobId entry e).2

/-- A step from outside: the operation on the stores and the threads it starts. -/
inductive Outside (w : World) : Action → Op → List Thread → Prop where
  | called (request : Request) : Outside w (.call request) .none [request.thread]
  | picked (jobId : String) (entry : Entry) (queued : w.stores.queue jobId = some entry)
      (waiting : entry.state = .waiting) :
      Outside w (.pick jobId) (.setEntry jobId (some { entry with state := .active }))
        [.attempt ⟨jobId, entry.userId, .findById⟩]
  | promoted (jobId : String) (entry : Entry) (queued : w.stores.queue jobId = some entry)
      (delayed : entry.state = .delayed) :
      Outside w (.promote jobId) (.setEntry jobId (some { entry with state := .waiting })) []
  | purged (jobId : String) (entry : Entry) (queued : w.stores.queue jobId = some entry)
      (completed : entry.state = .completed) :
      Outside w (.purge jobId) (.setEntry jobId none) []
  | uploaded (userId jobId bytes : String) :
      Outside w (.upload userId jobId bytes) (.putObject (audioKey userId jobId) (.audio bytes)) []

/-- Every step has one of the two shapes. -/
inductive StepShape (cfg : ServerConfig) (w : World) (a : Action) : World → Prop where
  | thread (i now : ℕ) (t t' : Thread) (op : Op) (spawned : List Thread)
      (at_ : w.threads[i]? = some t) (acts : Acts cfg w i a t now t' op spawned) :
      StepShape cfg w a (w.advance now i t' op spawned)
  | outside (op : Op) (new : List Thread) (acts : Outside w a op new) :
      StepShape cfg w a ⟨w.stores.run 0 op, w.threads ++ new⟩

variable {cfg : ServerConfig} {w w' : World} {op : Op}

theorem step_shape {a : Action} (hs : step cfg w a = some w') : StepShape cfg w a w' := by
  cases step_effect hs with
  | called request => exact .outside .none _ (.called request)
  | stepped i env t t' op spawned thread next =>
      exact .thread i env.now t t' op spawned thread (.stepped env t t' op spawned next)
  | threw i env e t t' thread throws =>
      exact .thread i env.now t t' .none [] thread (.threw env e t t' throws)
  | lost i env e t t' t₁ op spawned thread throws next =>
      exact .thread i env.now t t' op [] thread (.lost env e t t' t₁ op spawned throws next)
  | timedOut i t t' thread out => exact .thread i 0 t t' .none [] thread (.timedOut t t' out)
  | acked i a e entry thread pc queued =>
      exact .thread i 0 _ _ _ _ thread (.acked a e entry pc queued)
  | picked jobId entry queued waiting =>
      exact .outside _ _ (.picked jobId entry queued waiting)
  | promoted jobId entry queued delayed =>
      exact .outside _ _ (.promoted jobId entry queued delayed)
  | purged jobId entry queued completed =>
      exact .outside _ _ (.purged jobId entry queued completed)
  | uploaded userId jobId bytes =>
      have h : StepShape cfg w _ _ := .outside _ _ (.uploaded userId jobId bytes)
      rwa [List.append_nil] at h

/-- The operation of a moving thread is one that the thread may issue. -/
theorem Acts.issues {i : ℕ} {a : Action} {t t' : Thread} {now : ℕ} {spawned : List Thread}
    (h : Acts cfg w i a t now t' op spawned) : ∃ env : Env, Issues w env t op := by
  cases h with
  | stepped env t t' op spawned next => exact ⟨env, next_issues next⟩
  | threw env e t t' throws => exact ⟨env, .aside _ _ rfl⟩
  | lost env e t t' t₁ op spawned throws next => exact ⟨env, next_issues next⟩
  | timedOut t t' out => exact ⟨{}, .aside _ _ rfl⟩
  | acked a e entry pc queued => exact ⟨{}, .aside _ _ rfl⟩

/-- The attempt whose race times out only records the failure. -/
theorem timingOut_eq {t t' : Thread} (h : timingOut cfg t = some t') :
    ∃ a work body, t = .attempt a ∧ a.pc = .racing work body ∧
      t' = .attempt { a with pc := .addFailed work (stageTimeoutError cfg work.stage) } := by
  unfold timingOut at h
  split at h
  · rename_i a
    split at h
    · rename_i work body hpc
      cases h
      exact ⟨a, work, body, rfl, hpc, rfl⟩
    · cases h
  · cases h

/-- The threads that BullMQ's verdict starts are failure handlers. -/
theorem settle_handler {jobId : String} {entry : Entry} {e : Option Err} {t : Thread}
    (ht : t ∈ (settle cfg jobId entry e).2) :
    ∃ err, e = some err ∧ t = .handler
      ⟨jobId, entry.userId, err, entry.attemptsMade + 1, .marking .rawById⟩ := by
  unfold settle at ht
  split at ht
  · cases ht
  · rename_i err
    dsimp only at ht
    split_ifs at ht
    · exact ⟨err, rfl, List.mem_singleton.mp ht⟩
    · cases ht

/-- The thread that an attempt starts is the body of the stage it has announced. -/
theorem spawn_body {a : Attempt} {now : ℕ} {t : Thread} (ht : t ∈ Attempt.spawn a now) :
    ∃ work, a.pc = .addStarted work ∧ t = .body ⟨a.jobId, a.userId, startBody a.jobId now work⟩ := by
  unfold Attempt.spawn at ht
  split at ht
  · rename_i work hpc
    exact ⟨work, hpc, List.mem_singleton.mp ht⟩
  · cases ht

/-- An operation aside leaves the rows and the objects alone. -/
theorem run_aside {s : Stores} {now : ℕ} (h : Op.aside op = true) :
    (s.run now op).jobs = s.jobs ∧ (s.run now op).bucket = s.bucket := by
  cases op <;> first | exact ⟨rfl, rfl⟩ | cases h

/-- Only a render body marks a job READY. -/
theorem issues_ready {env : Env} {t : Thread} {jobId : String} {wr : Write}
    (h : Issues w env t (.write jobId wr))
    (hready : wr.newStatus = some .READY) :
    ∃ b view, t = .body b ∧ b.jobId = jobId ∧ b.pc = .setPdfReady view ∧
      wr = .setPdfReady (pdfKey b.userId b.jobId) := by
  cases h with
  | aside _ _ haside => cases haside
  | update c wr pc write =>
      rcases updateWrite_cases write with ⟨label, rfl⟩ | ⟨label, rows, rfl⟩ <;> cases hready
  | stage a work pc => cases work <;> cases hready
  | ready b view pc => exact ⟨b, view, rfl, rfl, pc, rfl⟩
  | _ => cases hready

/-- Only a transcription body stores a transcript. -/
theorem issues_transcript {env : Env} {t : Thread} {jobId text : String} {wr : Write}
    (h : Issues w env t (.write jobId wr)) (htext : wr.newTranscript = some text) :
    ∃ b, t = .body b ∧ b.jobId = jobId ∧ b.pc = .saveTranscript text := by
  cases h with
  | aside _ _ haside => cases haside
  | update c wr pc write =>
      rcases updateWrite_cases write with ⟨label, rfl⟩ | ⟨label, rows, rfl⟩ <;> cases htext
  | transcript b text' pc =>
      cases htext
      exact ⟨b, rfl, rfl, pc⟩
  | _ => cases htext

/-- Two states of one call: only the program point differs. -/
inductive SameCall : Thread → Thread → Prop where
  | create (c : CreateCall) (pc : CreatePc) : SameCall (.create c) (.create { c with pc := pc })
  | process (c : ProcessCall) (pc : ProcessPc) :
      SameCall (.process c) (.process { c with pc := pc })
  | update (c : UpdateCall) (pc : UpdatePc) : SameCall (.update c) (.update { c with pc := pc })
  | remove (c : RemoveCall) (pc : RemovePc) : SameCall (.remove c) (.remove { c with pc := pc })
  | attempt (a : Attempt) (pc : AttemptPc) :
      SameCall (.attempt a) (.attempt { a with pc := pc })
  | body (b : Body) (pc : BodyPc) : SameCall (.body b) (.body { b with pc := pc })
  | handler (h : Handler) (pc : HandlerPc) :
      SameCall (.handler h) (.handler { h with pc := pc })

theorem next_sameCall {env : Env} {t t' : Thread} {spawned : List Thread}
    (h : next cfg w env t = some (t', op, spawned)) : SameCall t t' := by
  cases next_segment h <;> constructor

theorem throwing_sameCall {e : Err} {t t' : Thread} (h : throwing e t = some t') :
    SameCall t t' := by
  cases t <;> obtain ⟨pc, -, rfl⟩ := Option.map_eq_some_iff.mp h <;> constructor

/-- A move changes nothing of a call but its program point. -/
theorem Acts.sameCall {i : ℕ} {a : Action} {t t' : Thread} {now : ℕ} {spawned : List Thread}
    (h : Acts cfg w i a t now t' op spawned) : SameCall t t' := by
  cases h with
  | stepped env t t' op spawned next => exact next_sameCall next
  | threw env e t t' throws => exact throwing_sameCall throws
  | lost env e t t' t₁ op spawned throws next => exact throwing_sameCall throws
  | timedOut t t' out =>
      obtain ⟨a, work, body, rfl, -, rfl⟩ := timingOut_eq out
      exact .attempt a _
  | acked a e entry pc queued => exact .attempt a _

end FieldNote.ServerRuns
