import FieldNote.StageMoves

/-!
# A log of provider calls and commits

The server does not record which stages have run: it infers that from the row. The log does
record it. An event stands for one call of a provider, or for one statement on the
transcript, the tree or READY that takes effect. The log runs beside the world and no
segment reads it.
-/
namespace FieldNote.StageLog
open JobsService PipelineService ServerRuns GuardedRuns CallPool

/-- `body` is the position of the compile body that calls the provider or commits. -/
inductive Event where
  | transcribing (jobId : String)
  | transcribed (jobId transcript : String)
  | compiling (body : ℕ) (jobId transcript : String)
  | compiled (body : ℕ) (jobId : String) (report : List ReportSectionInput)
  | edited (jobId : String)
  | ready (jobId : String)
deriving DecidableEq, Repr

/-- The statement that thread `i` commits. -/
def commitEvents (i : ℕ) : Op → List Event
  | .write jobId (.saveTranscript transcript) => [.transcribed jobId transcript]
  | .write jobId (.replaceReport sections) => [.compiled i jobId (reportOf sections)]
  | .write jobId (.replaceReportScoped _ _ _) => [.edited jobId]
  | .write jobId (.setPdfReady _) => [.ready jobId]
  | _ => []

/-- The provider call of a body at position `i` that has just come to its program point. -/
def callEvents (i : ℕ) : Thread → List Event
  | .body b =>
      match b.pc with
      | .transcribe _ => [.transcribing b.jobId]
      | .compile _ transcript => [.compiling i b.jobId transcript]
      | _ => []
  | _ => []

/-- What a move of thread `i` puts on the log. -/
def moveEvents (w : World) (i : ℕ) (t' : Thread) (op : Op) (spawned : List Thread) : List Event :=
  commitEvents i op ++ callEvents i t' ++ spawned.flatMap (callEvents w.threads.length)

def events (cfg : ServerConfig) (w : World) : Action → List Event
  | .step i env =>
      ((w.threads[i]?).bind fun t => next cfg w env t).elim [] fun (t', op, spawned) =>
        moveEvents w i t' op spawned
  | .throw i env _ true =>
      ((w.threads[i]?).bind fun t => next cfg w env t).elim [] fun (_, op, _) => commitEvents i op
  | _ => []

/-- The server with its log. -/
def logged (cfg : ServerConfig) (s : World × List Event) (a : Action) :
    Option (World × List Event) :=
  (step cfg s.1 a).map fun w' => (w', s.2 ++ events cfg s.1 a)

def start : World × List Event := (World.empty, [])

variable {cfg : ServerConfig} {w w' : World} {log log' : List Event} {op : Op}

/-- A body that throws calls no provider. -/
theorem callEvents_throwing {e : Err} {t t' : Thread} {i : ℕ} (h : throwing e t = some t') :
    callEvents i t' = [] := by
  cases throwing_cases h <;> rfl

theorem events_acts {i now : ℕ} {a : Action} {t t' : Thread} {spawned : List Thread}
    (at_ : w.threads[i]? = some t) (h : Acts cfg w i a t now t' op spawned) :
    events cfg w a = moveEvents w i t' op spawned := by
  cases h with
  | stepped env t t' op spawned next => simp [events, at_, next]
  | threw env e t t' throws =>
      simp [events, moveEvents, commitEvents, callEvents_throwing throws]
  | lost env e t t' t₁ op spawned throws next =>
      simp [events, moveEvents, at_, next, callEvents_throwing throws]
  | timedOut t t' out =>
      obtain ⟨a, work, body, -, -, rfl⟩ := timingOut_eq out
      rfl
  | acked a e entry pc queued =>
      have hnone : (settle cfg a.jobId entry e).2.flatMap (callEvents w.threads.length) = [] := by
        rw [List.flatMap_eq_nil_iff]
        intro t ht
        obtain ⟨err, -, rfl⟩ := settle_handler ht
        rfl
      simp [events, moveEvents, commitEvents, callEvents, hnone]

/-- The two shapes of a step, with what each logs. -/
inductive LogShape (cfg : ServerConfig) (w : World) (log : List Event) (a : Action) :
    World → List Event → Prop where
  | thread (i now : ℕ) (t t' : Thread) (op : Op) (spawned : List Thread)
      (at_ : w.threads[i]? = some t) (acts : Acts cfg w i a t now t' op spawned) :
      LogShape cfg w log a (w.advance now i t' op spawned) (log ++ moveEvents w i t' op spawned)
  | outside (op : Op) (new : List Thread) (acts : Outside w a op new) :
      LogShape cfg w log a ⟨w.stores.run 0 op, w.threads ++ new⟩ log

theorem logged_step {a : Action} (hs : logged cfg (w, log) a = some (w', log')) :
    step cfg w a = some w' ∧ log' = log ++ events cfg w a := by
  obtain ⟨w₁, hw₁, he⟩ := Option.map_eq_some_iff.mp hs
  cases he
  exact ⟨hw₁, rfl⟩

theorem logged_shape {a : Action} (hs : logged cfg (w, log) a = some (w', log')) :
    LogShape cfg w log a w' log' := by
  obtain ⟨hstep, rfl⟩ := logged_step hs
  cases step_shape hstep with
  | thread i now t t' op spawned at_ acts =>
      rw [events_acts at_ acts]
      exact .thread i now t t' op spawned at_ acts
  | outside op new acts =>
      have hnone : events cfg w a = [] := by cases acts <;> rfl
      rw [hnone, List.append_nil]
      exact .outside op new acts

/-- The thread whose move logs an event. -/
inductive Cause (w : World) (i : ℕ) : Thread → Event → Prop where
  | transcribing (b : Body) (key : String) (pc : b.pc = .getObjectStream key) :
      Cause w i (.body b) (.transcribing b.jobId)
  | transcribed (b : Body) (text : String) (pc : b.pc = .saveTranscript text) :
      Cause w i (.body b) (.transcribed b.jobId text)
  | compiling (a : Attempt) (job : Snapshot) (text : String)
      (pc : a.pc = .addStarted (.compile job text)) :
      Cause w i (.attempt a) (.compiling w.threads.length a.jobId text)
  | compiled (b : Body) (report : List ReportSectionInput) (pc : b.pc = .replaceReport report) :
      Cause w i (.body b) (.compiled i b.jobId report)
  | edited (c : UpdateCall) (pc : c.pc = .commit) : Cause w i (.update c) (.edited c.jobId)
  | ready (b : Body) (view : ReportView) (pc : b.pc = .setPdfReady view) :
      Cause w i (.body b) (.ready b.jobId)

theorem commit_cause {env : Env} {t : Thread} {i : ℕ} {e : Event} (h : Issues w env t op)
    (he : e ∈ commitEvents i op) : Cause w i t e := by
  cases h with
  | aside _ op haside => cases op <;> first | cases he | cases haside
  | update c wr pc write =>
      rcases updateWrite_cases write with ⟨label, rfl⟩ | ⟨label, rows, rfl⟩
      · cases he
      · rw [List.mem_singleton.mp he]
        exact .edited c pc
  | transcript b text pc =>
      rw [List.mem_singleton.mp he]
      exact .transcribed b text pc
  | report b sections pc =>
      rw [List.mem_singleton.mp he, reportOf_insertSections]
      exact .compiled b sections pc
  | ready b view pc =>
      rw [List.mem_singleton.mp he]
      exact .ready b view pc
  | _ => cases he

/-- A body that moves calls a provider only after it has opened the recording. -/
theorem call_cause {b : Body} {pc : BodyPc} {i : ℕ} {e : Event} (h : BodyMove w b pc op)
    (he : e ∈ callEvents i (.body { b with pc := pc })) : Cause w i (.body b) e := by
  cases h with
  | threw err open_ => cases he
  | lost env err pc op next => cases he
  | moved env pc op next =>
      rcases b with ⟨jobId, userId, pc₀⟩
      cases pc₀ with
      | getObjectStream key =>
          simp only [nextBody] at next
          split_ifs at next
          · cases next
            rw [List.mem_singleton.mp he]
            exact .transcribing _ key rfl
          · cases next
            cases he
      | transcribe key =>
          simp only [nextBody] at next
          split_ifs at next <;> cases next <;> cases he
      | done r => cases next
      | _ =>
          cases next
          cases he

theorem move_cause {i now : ℕ} {a : Action} {t t' : Thread} {spawned : List Thread} {e : Event}
    (h : Acts cfg w i a t now t' op spawned) (he : e ∈ moveEvents w i t' op spawned) :
    Cause w i t e := by
  obtain ⟨env, hissues⟩ := h.issues
  rcases List.mem_append.mp he with he | he
  · rcases List.mem_append.mp he with he | he
    · exact commit_cause hissues he
    · cases t' with
      | body b' =>
          obtain ⟨-, b, pc, rfl, rfl, hmove⟩ := acts_to_body h
          exact call_cause hmove he
      | _ => cases he
  · obtain ⟨t₁, ht₁, he⟩ := List.mem_flatMap.mp he
    rcases acts_spawned h ht₁ with ⟨a, work, rfl, hpc, rfl⟩ | ⟨_, _, _, -, -, -, rfl⟩
    · cases work with
      | compile job text =>
          rw [List.mem_singleton.mp he]
          exact .compiling a job text hpc
      | _ => cases he
    · cases he

/-- A commit of the job's compile is on the log. -/
def compiledIn (log : List Event) (jobId : String) : Bool :=
  log.any fun
    | .compiled _ id _ => id = jobId
    | _ => false

theorem compiledIn_iff {jobId : String} :
    compiledIn log jobId = true ↔ ∃ i report, Event.compiled i jobId report ∈ log := by
  unfold compiledIn
  rw [List.any_eq_true]
  constructor
  · rintro ⟨e, he, hid⟩
    cases e with
    | compiled i id report =>
        have hjob : id = jobId := of_decide_eq_true hid
        exact ⟨i, report, hjob ▸ he⟩
    | _ => cases hid
  · rintro ⟨i, report, he⟩
    exact ⟨_, he, by simp⟩

/-- The attempt passes its checks on the row it reads. -/
def passes (w : World) (a : Attempt) : Bool :=
  match afterFindById a.jobId a.userId (w.stores.findById a.jobId) with
  | .setStatus _ => true
  | _ => false

/-- An attempt goes on from its read only by a step, and only past its checks. -/
theorem acts_began {i now : ℕ} {act : Action} {a : Attempt} {work : Work} {spawned : List Thread}
    (h : Acts cfg w i act (.attempt a) now (.attempt { a with pc := .setStatus work }) op spawned)
    (hpc : a.pc = .findById) : (∃ env, act = .step i env) ∧ passes w a = true := by
  have hthrow : ∀ e pc, a.throwing e = some pc → pc ≠ .setStatus work := by
    intro e pc hpc'
    simp only [Attempt.throwing, hpc, Option.some.injEq] at hpc'
    subst hpc'
    simp
  generalize ht : Thread.attempt a = t at h
  generalize ht' : Thread.attempt { a with pc := .setStatus work } = t' at h
  cases h with
  | stepped env t t' op spawned next =>
      subst ht
      obtain ⟨⟨pc, op'⟩, hn, he⟩ := Option.map_eq_some_iff.mp next
      cases he
      simp only [nextAttempt, hpc, Option.some.injEq, Prod.mk.injEq] at hn
      simp only [Thread.attempt.injEq, Attempt.mk.injEq, true_and] at ht'
      refine ⟨⟨env, rfl⟩, ?_⟩
      unfold passes
      rw [hn.1, ← ht']
  | threw env e t t' throws =>
      subst ht
      obtain ⟨pc, hpc', rfl⟩ := Option.map_eq_some_iff.mp throws
      simp only [Thread.attempt.injEq, Attempt.mk.injEq, true_and] at ht'
      exact (hthrow e pc hpc' ht'.symm).elim
  | lost env e t t' t₁ op spawned throws next =>
      subst ht
      obtain ⟨pc, hpc', rfl⟩ := Option.map_eq_some_iff.mp throws
      simp only [Thread.attempt.injEq, Attempt.mk.injEq, true_and] at ht'
      exact (hthrow e pc hpc' ht'.symm).elim
  | timedOut t t' out =>
      obtain ⟨a', work', body, ha, hpc', -⟩ := timingOut_eq out
      rw [← Thread.attempt.inj (ht.trans ha), hpc] at hpc'
      cases hpc'
  | acked a' e entry pc queued => simp at ht'

end FieldNote.StageLog
