import FieldNote.StageMoves

/-!
# Job ids in any spelling

The id of a row is a UUID, which Postgres compares by value. `ParseUUIDPipe` lets a path through
in upper and in lower case and hands it on as it was sent. The statements of a call reach the
row under either spelling; the entry that `process` adds to the queue, the attempts that BullMQ
starts from it, the keys of their PDFs and the dead letters carry the text of the request. Rows
are stored under the canonical spelling, the one `randomUUID` generates.
-/
namespace FieldNote

/-- What `ParseUUIDPipe` answers to a path that is no UUID. -/
def HttpError.notUuid : HttpError := ⟨400, "Validation failed (uuid is expected)"⟩

namespace SpelledIds
open JobsService PipelineService ServerRuns CallPool

def isHex (c : Char) : Bool := c ∈ "0123456789abcdefABCDEF".toList

/-- Hexadecimal digits in groups of 8, 4, 4, 4 and 12. -/
def isUuid (id : String) : Bool :=
  id.toList.length = 36 && id.toList.zipIdx.all fun (c, i) =>
    if i ∈ [8, 13, 18, 23] then c = '-' else isHex c

/-- The spelling in lower case. -/
def canonical (id : String) : String := String.ofList (id.toList.map Char.toLower)

theorem isUuid_slash {id : String} (h : isUuid id = true) : '/' ∉ id.toList := by
  intro hmem
  obtain ⟨i, hi⟩ := List.mem_iff_getElem?.mp hmem
  have hall := (Bool.and_eq_true_iff.mp h).2
  have hc := List.all_eq_true.mp hall ('/', i) (List.mem_zipIdx_iff_getElem?.mpr hi)
  dsimp only at hc
  split_ifs at hc with hdash
  · exact absurd (of_decide_eq_true hc) (by decide)
  · exact absurd hc (by decide)

/-- A statement on a row reaches it under the canonical spelling of its id. -/
def canonicalOp : Op → Op
  | .write jobId w => .write (canonical jobId) w
  | .addEvent event => .addEvent { event with jobId := canonical event.jobId }
  | op => op

/-- `process` and `enqueueProcessing`: the two reads are of the row. -/
def spelledProcess (cfg : ServerConfig) (s : Stores) (c : ProcessCall) :
    Option (ProcessPc × Op) :=
  match c.pc with
  | .findScoped | .findAgain _ => nextProcess cfg s { c with jobId := canonical c.jobId }
  | _ => (nextProcess cfg s c).map fun (pc, op) => (pc, canonicalOp op)

/-- The errors after the read name the job as the entry does. -/
def spelledAttempt (w : World) (a : Attempt) : Option (AttemptPc × Op) :=
  match a.pc with
  | .findById =>
      some (afterFindById a.jobId a.userId (w.stores.findById (canonical a.jobId)), .none)
  | _ => nextAttempt w.stores { a with jobId := canonical a.jobId } w.threads.length w.bodyResult

def spelledBody (s : Stores) (env : Env) (b : Body) : Option (BodyPc × Op) :=
  (nextBody s env b).map fun (pc, op) => (pc, canonicalOp op)

def spelledHandler (s : Stores) (h : Handler) : Option (HandlerPc × Op) :=
  match h.pc with
  | .marking _ => nextHandler s { h with jobId := canonical h.jobId }
  | _ => nextHandler s h

/-- What a successful segment makes of a thread whose job id may have any spelling. -/
def spelledNext (cfg : ServerConfig) (w : World) (env : Env) :
    Thread → Option (Thread × Op × List Thread)
  | .create c => (nextCreate cfg w.stores env c).map fun (pc, op) =>
      (.create { c with pc := pc }, op, [])
  | .process c => (spelledProcess cfg w.stores c).map fun (pc, op) =>
      (.process { c with pc := pc }, op, [])
  | .update c => (nextUpdate cfg w.stores env { c with jobId := canonical c.jobId }).map
      fun (pc, op) => (.update { c with pc := pc }, op, [])
  | .remove c => (nextRemove w.stores { c with jobId := canonical c.jobId }).map
      fun (pc, op) => (.remove { c with pc := pc }, op, [])
  | .attempt a => (spelledAttempt w a).map fun (pc, op) =>
      (.attempt { a with pc := pc }, op, Attempt.spawn a env.now)
  | .body b => (spelledBody w.stores env b).map fun (pc, op) =>
      (.body { b with pc := pc }, op, [])
  | .handler h => (spelledHandler w.stores h).map fun (pc, op) =>
      (.handler { h with pc := pc }, op, [])

/-- The path of the request passes `ParseUUIDPipe`. -/
def Request.passes : Request → Bool
  | .create _ _ _ => true
  | .process _ jobId | .update _ jobId _ | .remove _ jobId => isUuid jobId

/-- BullMQ and the bucket know the ids as texts. -/
def spelledStep (cfg : ServerConfig) (w : World) : Action → Option World
  | .call request => if Request.passes request then step cfg w (.call request) else none
  | .step i env =>
      w.threads[i]?.bind fun t =>
        (spelledNext cfg w env t).map fun (t', op, spawned) => w.advance env.now i t' op spawned
  | .throw i env e applied =>
      w.threads[i]?.bind fun t =>
        (throwing e t).bind fun t' =>
          if applied then
            (spelledNext cfg w env t).map fun (_, op, _) => w.advance env.now i t' op []
          else some (w.advance env.now i t' .none [])
  | a => step cfg w a

/-- A move of thread `i`, as `ServerRuns.Acts` for the threads of `ServerRuns.next`. -/
inductive SpelledActs (cfg : ServerConfig) (w : World) (i : ℕ) :
    Action → Thread → ℕ → Thread → Op → List Thread → Prop where
  | stepped (env : Env) (t t' : Thread) (op : Op) (spawned : List Thread)
      (next : spelledNext cfg w env t = some (t', op, spawned)) :
      SpelledActs cfg w i (.step i env) t env.now t' op spawned
  | threw (env : Env) (e : Err) (t t' : Thread) (throws : throwing e t = some t') :
      SpelledActs cfg w i (.throw i env e false) t env.now t' .none []
  | lost (env : Env) (e : Err) (t t' t₁ : Thread) (op : Op) (spawned : List Thread)
      (throws : throwing e t = some t') (next : spelledNext cfg w env t = some (t₁, op, spawned)) :
      SpelledActs cfg w i (.throw i env e true) t env.now t' op []
  | timedOut (t t' : Thread) (out : timingOut cfg t = some t') :
      SpelledActs cfg w i (.timeout i) t 0 t' .none []
  | acked (a : Attempt) (e : Option Err) (entry : Entry) (pc : a.pc = .settled e)
      (queued : w.stores.queue a.jobId = some entry) :
      SpelledActs cfg w i (.ack i) (.attempt a) 0 (.attempt { a with pc := .acked })
        (.setEntry a.jobId (some (settle cfg a.jobId entry e).1)) (settle cfg a.jobId entry e).2

/-- Every step has one of the two shapes. -/
inductive SpelledShape (cfg : ServerConfig) (w : World) (a : Action) : World → Prop where
  | thread (i now : ℕ) (t t' : Thread) (op : Op) (spawned : List Thread)
      (at_ : w.threads[i]? = some t) (acts : SpelledActs cfg w i a t now t' op spawned) :
      SpelledShape cfg w a (w.advance now i t' op spawned)
  | outside (op : Op) (new : List Thread) (acts : Outside w a op new) :
      SpelledShape cfg w a ⟨w.stores.run 0 op, w.threads ++ new⟩

variable {cfg : ServerConfig} {w w' : World} {env : Env} {op : Op}

theorem spelled_shape {a : Action} (hs : spelledStep cfg w a = some w') :
    SpelledShape cfg w a w' := by
  cases a with
  | call request =>
      simp only [spelledStep] at hs
      split_ifs at hs
      cases hs
      exact .outside .none _ (.called request)
  | step i env =>
      obtain ⟨t, ht, hs⟩ := Option.bind_eq_some_iff.mp hs
      obtain ⟨⟨t', op, spawned⟩, hn, rfl⟩ := Option.map_eq_some_iff.mp hs
      exact .thread i env.now t t' op spawned ht (.stepped env t t' op spawned hn)
  | throw i env e applied =>
      obtain ⟨t, ht, hs⟩ := Option.bind_eq_some_iff.mp hs
      obtain ⟨t', ht', hs⟩ := Option.bind_eq_some_iff.mp hs
      cases applied with
      | false =>
          cases hs
          exact .thread i env.now t t' .none [] ht (.threw env e t t' ht')
      | true =>
          obtain ⟨⟨t₁, op, spawned⟩, hn, rfl⟩ := Option.map_eq_some_iff.mp hs
          exact .thread i env.now t t' op [] ht (.lost env e t t' t₁ op spawned ht' hn)
  | timeout i =>
      cases step_effect (show step cfg w (.timeout i) = some w' from hs) with
      | timedOut i t t' thread out => exact .thread i 0 t t' .none [] thread (.timedOut t t' out)
  | ack i =>
      cases step_effect (show step cfg w (.ack i) = some w' from hs) with
      | acked i a e entry thread pc queued =>
          exact .thread i 0 _ _ _ _ thread (.acked a e entry pc queued)
  | pick jobId =>
      cases step_effect (show step cfg w (.pick jobId) = some w' from hs) with
      | picked jobId entry queued waiting =>
          exact .outside _ _ (.picked jobId entry queued waiting)
  | promote jobId =>
      cases step_effect (show step cfg w (.promote jobId) = some w' from hs) with
      | promoted jobId entry queued delayed =>
          exact .outside _ _ (.promoted jobId entry queued delayed)
  | purge jobId =>
      cases step_effect (show step cfg w (.purge jobId) = some w' from hs) with
      | purged jobId entry queued completed =>
          exact .outside _ _ (.purged jobId entry queued completed)
  | upload userId jobId bytes =>
      cases hs
      have h : SpelledShape cfg w _ _ := .outside _ _ (.uploaded userId jobId bytes)
      rwa [List.append_nil] at h

theorem spelledNext_sameCall {t t' : Thread} {spawned : List Thread}
    (h : spelledNext cfg w env t = some (t', op, spawned)) : SameCall t t' := by
  cases t <;> obtain ⟨⟨pc, op'⟩, -, he⟩ := Option.map_eq_some_iff.mp h <;> cases he <;> constructor

/-- A move changes nothing of a call but its program point. -/
theorem SpelledActs.sameCall {i now : ℕ} {a : Action} {t t' : Thread} {spawned : List Thread}
    (h : SpelledActs cfg w i a t now t' op spawned) : SameCall t t' := by
  cases h with
  | stepped env t t' op spawned next => exact spelledNext_sameCall next
  | threw env e t t' throws => exact throwing_sameCall throws
  | lost env e t t' t₁ op spawned throws next => exact throwing_sameCall throws
  | timedOut t t' out =>
      obtain ⟨a, work, body, rfl, -, rfl⟩ := timingOut_eq out
      exact .attempt a _
  | acked a e entry pc queued => exact .attempt a _

/-- Only an attempt starts a stage body, only a report to BullMQ starts a handler, and both serve
the job under the id of the attempt. -/
theorem spelled_spawned {i now : ℕ} {act : Action} {t t' t₁ : Thread} {spawned : List Thread}
    (h : SpelledActs cfg w i act t now t' op spawned) (ht₁ : t₁ ∈ spawned) :
    (∃ a work, t = .attempt a ∧ a.pc = .addStarted work ∧
      t₁ = .body ⟨a.jobId, a.userId, startBody a.jobId now work⟩) ∨
    ∃ a err entry, t = .attempt a ∧ w.stores.queue a.jobId = some entry ∧
      t₁ = .handler ⟨a.jobId, entry.userId, err, entry.attemptsMade + 1, .marking .rawById⟩ := by
  cases h with
  | stepped env t t' op spawned next =>
      cases t with
      | attempt a =>
          obtain ⟨⟨pc, op'⟩, -, he⟩ := Option.map_eq_some_iff.mp next
          cases he
          obtain ⟨work, hpc, rfl⟩ := spawn_body ht₁
          exact .inl ⟨a, work, rfl, hpc, rfl⟩
      | _ =>
          obtain ⟨⟨pc, op'⟩, -, he⟩ := Option.map_eq_some_iff.mp next
          cases he
          cases ht₁
  | threw env e t t' throws => cases ht₁
  | lost env e t t' t₁ op spawned throws next => cases ht₁
  | timedOut t t' out => cases ht₁
  | acked a e entry pc queued =>
      obtain ⟨err, rfl, rfl⟩ := settle_handler ht₁
      exact .inr ⟨a, err, entry, rfl, queued, rfl⟩

end SpelledIds
end FieldNote
