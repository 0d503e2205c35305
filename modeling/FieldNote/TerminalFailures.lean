import FieldNote.ProcessFaults

/-!
# The failure handler and its own failures

When BullMQ fails an entry for good, `handleFailure` looks the job up, sets its status, adds
an event and parks the entry on the dead-letter queue, one await after the other under one
catch. The first await that throws ends the handler. What is left depends on how far it got,
and the status that it fails to set is the one that the next `process` call looks at.
-/
namespace FieldNote.TerminalFailures
open JobsService PipelineService ServerRuns GuardedRuns CallPool ProcessFaults

/-- The await of the handler that throws, and whether it took effect all the same. -/
structure Fault where
  pc : HandlerPc
  applied : Bool
deriving DecidableEq

/-- Handler `k` runs alone from `w` to its end in `w'`. -/
inductive Handles (cfg : ServerConfig) (k : ℕ) (w : World) : Option Fault → World → Prop where
  | ended (w' : World) (h : Handler) (run : Run (step cfg) (Solo k) w w')
      (thread : w'.threads[k]? = some (.handler h)) (done : h.pc = .done) :
      Handles cfg k w none w'
  | broke (v w' : World) (h : Handler) (env : Env) (e : Err) (applied : Bool)
      (run : Run (step cfg) (Solo k) w v) (thread : v.threads[k]? = some (.handler h))
      (throws : step cfg v (.throw k env e applied) = some w') :
      Handles cfg k w (some ⟨h.pc, applied⟩) w'

/-- BullMQ fails the entry of attempt `i` for good and starts handler `h`. -/
structure Terminal (cfg : ServerConfig) (w₀ : World) (i : ℕ) (w : World) (h : Handler) : Prop where
  acked : step cfg w₀ (.ack i) = some w
  thread : w.threads[w₀.threads.length]? = some (.handler h)

/-- What the handler parks. -/
def deadLetter (h : Handler) : DlqEntry := ⟨h.jobId, h.userId, h.error.message, h.attemptsMade⟩

/-- What a terminal failure that began on `s₀` must leave. -/
structure Recorded (cfg : ServerConfig) (s₀ : Stores) (h : Handler) (fault : Option Fault)
    (w : World) : Prop where
  parked : w.stores.dlq = s₀.dlq ++ [deadLetter h] ∨ ∃ applied, fault = some ⟨.addDlq, applied⟩
  resumable : ∀ job, w.stores.findById h.jobId = some job →
    job.status = .FAILED ∨ Repairable cfg w job.userId h.jobId
  moving : ∀ job, w.stores.findById h.jobId = some job → job.status.inFlight = true →
    (w.stores.queue h.jobId).map Entry.state ≠ some .failed

/-- No await of `markFailed` throws. -/
def markedFailed : Option Fault → Bool
  | none => true
  | some ⟨.addDlq, _⟩ => true
  | some _ => false

/-- The status update has not taken effect. -/
def statusKept : Option Fault → Bool
  | some ⟨.marking .rawById, _⟩ => true
  | some ⟨.marking (.setStatus _), applied⟩ => !applied
  | _ => false

/-- A `process` call of the owner starts a run of the job. -/
def Resumes (s : Stores) (jobId : String) (job : Job) : Prop :=
  job.deletedAt = none ∧ job.status ≠ .READY ∧ job.status.inFlight = false ∧
    (s.bucket (job.audioKey.getD (audioKey job.userId jobId))).isSome = true

/-- How far the handler has got on `s₀`: the stores at each of its program points. -/
inductive Residue (s₀ : Stores) (h : Handler) : HandlerPc → Stores → Prop where
  | start : Residue s₀ h (.marking .rawById) s₀
  | found (job : Job) (row : s₀.findById h.jobId = some job) (unmarked : job.status ≠ .FAILED) :
      Residue s₀ h (.marking (.setStatus (truncate h.error.message))) s₀
  | marked (job : Job) (now : ℕ) (row : s₀.findById h.jobId = some job)
      (unmarked : job.status ≠ .FAILED) :
      Residue s₀ h (.marking (.addEvent (truncate h.error.message)))
        (s₀.run now (.write h.jobId
          (.setStatus .FAILED (some (some (truncate h.error.message))))))
  | skipped (settled : ∀ job, s₀.findById h.jobId = some job → job.status = .FAILED) :
      Residue s₀ h .addDlq s₀
  | noted (s : Stores) (now : ℕ)
      (marked : Residue s₀ h (.marking (.addEvent (truncate h.error.message))) s) :
      Residue s₀ h .addDlq
        (s.run now (.addEvent ⟨h.jobId, "pipeline", "failed", some (truncate h.error.message)⟩))
  | parked (s : Stores) (now : ℕ) (recorded : Residue s₀ h .addDlq s) :
      Residue s₀ h .done (s.run now (.addDlq (deadLetter h)))

variable {cfg : ServerConfig} {w₀ w w' : World} {s₀ s : Stores} {h : Handler} {k : ℕ}
  {pc pc' : HandlerPc} {fault : Option Fault}

/-- The handler is at its start, and the entry has failed. -/
theorem Terminal.starts {i : ℕ} (ht : Terminal cfg w₀ i w h) :
    h.pc = .marking .rawById ∧ (w.stores.queue h.jobId).map Entry.state = some .failed := by
  obtain ⟨hs, ht⟩ := ht
  cases step_effect hs with
  | acked _ a e entry thread pc queued =>
      have hnew : (settle cfg a.jobId entry e).2[0]? = some (.handler h) := by
        simp only [World.advance] at ht
        rwa [List.getElem?_append_right (by simp), List.length_set, Nat.sub_self] at ht
      unfold settle at hnew ⊢
      split at hnew
      · cases hnew
      · dsimp only at hnew ⊢
        split_ifs at hnew ⊢
        · cases hnew
          exact ⟨rfl, by simp [World.advance, Stores.run]⟩
        · cases hnew

/-- One segment of the handler. -/
theorem residue_next {op : Op} (now : ℕ) (hr : Residue s₀ h pc s)
    (hn : nextHandler s { h with pc := pc } = some (pc', op)) :
    Residue s₀ h pc' (s.run now op) := by
  cases hr with
  | start =>
      simp only [nextHandler] at hn
      split at hn
      · rename_i op' hmark
        cases hn
        obtain ⟨rfl, hskip | ⟨-, hsettled⟩⟩ := nextMark_rawById hmark
        · cases hskip
        · exact .skipped hsettled
      · rename_i mark op' hmark
        cases hn
        simp only [nextMark] at hmark
        split at hmark
        · cases hmark
        · rename_i job hjob
          split_ifs at hmark with hst
          · cases hmark
          · cases hmark
            exact .found job hjob hst
  | found job row unmarked =>
      cases hn
      exact .marked job now row unmarked
  | marked job now' row unmarked =>
      cases hn
      exact .noted _ now (.marked job now' row unmarked)
  | skipped settled =>
      cases hn
      exact .parked _ now (.skipped settled)
  | noted s now' marked =>
      cases hn
      exact .parked _ now (.noted s now' marked)
  | parked s now' recorded => cases hn

theorem step_handler {i : ℕ} {env : Env} (ht : w.threads[i]? = some (.handler h))
    (hs : step cfg w (.step i env) = some w') :
    ∃ pc op, nextHandler w.stores h = some (pc, op) ∧
      w' = w.advance env.now i (.handler { h with pc := pc }) op [] := by
  simp only [step, ht, Option.bind_some, next] at hs
  obtain ⟨⟨t, op, spawned⟩, hn, rfl⟩ := Option.map_eq_some_iff.mp hs
  obtain ⟨⟨pc, op'⟩, hnext, he⟩ := Option.map_eq_some_iff.mp hn
  cases he
  exact ⟨pc, op', hnext, rfl⟩

theorem residue_run (hstart : h.pc = .marking .rawById)
    (ht : w.threads[k]? = some (.handler h)) (hrun : Run (step cfg) (Solo k) w w') :
    ∃ pc, w'.threads[k]? = some (.handler { h with pc := pc }) ∧
      Residue w.stores h pc w'.stores := by
  refine hrun.invariant (I := fun v => ∃ pc, v.threads[k]? = some (.handler { h with pc := pc }) ∧
    Residue w.stores h pc v.stores) ⟨.marking .rawById, ?_, .start⟩ ?_
  · rw [ht, ← hstart]
  · rintro v a v' ⟨pc, hv, hr⟩ ⟨env, rfl⟩ hs
    obtain ⟨pc', op, hn, rfl⟩ := step_handler hv hs
    exact ⟨pc', getElem?_advance_same hv, residue_next env.now hr hn⟩

/-- The stores after a handler that was ended by `fault`. -/
def Leaves (s₀ : Stores) (h : Handler) (s : Stores) : Option Fault → Prop
  | none => Residue s₀ h .done s
  | some ⟨pc, false⟩ => pc ≠ .done ∧ Residue s₀ h pc s
  | some ⟨pc, true⟩ => ∃ s' now pc' op, Residue s₀ h pc s' ∧
      nextHandler s' { h with pc := pc } = some (pc', op) ∧ s = s'.run now op

theorem handles_leaves (hstart : h.pc = .marking .rawById)
    (ht : w.threads[k]? = some (.handler h)) (hh : Handles cfg k w fault w') :
    Leaves w.stores h w'.stores fault := by
  cases hh with
  | ended w' h' run thread done =>
      obtain ⟨pc, hv, hr⟩ := residue_run hstart ht run
      rw [hv] at thread
      cases thread
      obtain rfl : pc = .done := done
      exact hr
  | broke v w' h' env e applied run thread throws =>
      obtain ⟨pc, hv, hr⟩ := residue_run hstart ht run
      rw [hv] at thread
      cases thread
      simp only [step, hv, Option.bind_some] at throws
      obtain ⟨t', hthrows, hs⟩ := Option.bind_eq_some_iff.mp throws
      have hopen : pc ≠ .done := by
        rintro rfl
        cases hthrows
      cases applied with
      | false =>
          cases hs
          exact ⟨hopen, hr⟩
      | true =>
          obtain ⟨⟨t₁, op, spawned⟩, hn, rfl⟩ := Option.map_eq_some_iff.mp hs
          obtain ⟨⟨pc', op'⟩, hnext, he⟩ := Option.map_eq_some_iff.mp hn
          cases he
          exact ⟨_, env.now, pc', _, hr, hnext, rfl⟩

/-- The entry is parked when the handler is done, and only then. -/
theorem residue_dlq (hr : Residue s₀ h pc s) :
    s.dlq = if pc = .done then s₀.dlq ++ [deadLetter h] else s₀.dlq := by
  induction hr with
  | parked s now recorded ih =>
      rw [if_neg (by decide)] at ih
      simp [Stores.run, ih]
  | noted s now marked ih => exact ih
  | _ => rfl

/-- Before its status update the handler has changed nothing. -/
theorem residue_unmarked (hr : Residue s₀ h pc s)
    (hpc : pc = .marking .rawById ∨ ∃ message, pc = .marking (.setStatus message)) : s = s₀ := by
  cases hr with
  | start => rfl
  | found job row unmarked => rfl
  | _ => rcases hpc with hpc | ⟨message, hpc⟩ <;> cases hpc

/-- After it the job is FAILED. -/
theorem residue_failed (hr : Residue s₀ h pc s) (hraw : pc ≠ .marking .rawById)
    (hset : ∀ message, pc ≠ .marking (.setStatus message)) {job : Job}
    (hrow : s.findById h.jobId = some job) : job.status = .FAILED := by
  induction hr with
  | start => exact (hraw rfl).elim
  | found job row unmarked => exact (hset _ rfl).elim
  | marked job' now row unmarked =>
      rw [Stores.run_row_write] at hrow
      obtain ⟨job', -, rfl⟩ := Option.map_eq_some_iff.mp hrow
      rfl
  | skipped settled => exact settled job hrow
  | noted s now marked ih => exact ih (by simp) (by simp) hrow
  | parked s now recorded ih => exact ih (by simp) (by simp) hrow

/-- The handler has got somewhere. -/
theorem leaves_residue (hl : Leaves s₀ h s fault) : ∃ pc, Residue s₀ h pc s := by
  cases fault with
  | none => exact ⟨_, hl⟩
  | some f =>
      obtain ⟨pc, applied⟩ := f
      cases applied with
      | false => exact ⟨pc, hl.2⟩
      | true =>
          obtain ⟨s', now, pc', op, hr, hn, rfl⟩ := hl
          exact ⟨pc', residue_next now hr hn⟩

/-- An await of `markFailed` that throws keeps the entry from the dead-letter queue. -/
theorem leaves_dlq (hl : Leaves s₀ h s fault) (hf : markedFailed fault = false) :
    s.dlq = s₀.dlq := by
  cases fault with
  | none => cases hf
  | some f =>
      obtain ⟨pc, applied⟩ := f
      cases pc with
      | addDlq => cases hf
      | done =>
          cases applied with
          | false => exact (hl.1 rfl).elim
          | true =>
              obtain ⟨s', now, pc', op, -, hn, -⟩ := hl
              cases hn
      | marking mark =>
          cases applied with
          | false => exact residue_dlq hl.2
          | true =>
              obtain ⟨s', now, pc', op, hr, hn, rfl⟩ := hl
              have hopen : pc' ≠ .done := by
                simp only [nextHandler] at hn
                split at hn <;> cases hn <;> simp
              rw [residue_dlq (residue_next now hr hn), if_neg hopen]

/-- Until the status update takes effect nothing has changed. -/
theorem leaves_kept (hl : Leaves s₀ h s fault) (hf : statusKept fault = true) : s = s₀ := by
  obtain ⟨⟨pc, applied⟩, rfl⟩ : ∃ f, fault = some f := by
    cases fault with
    | none => cases hf
    | some f => exact ⟨f, rfl⟩
  cases pc with
  | addDlq => cases hf
  | done => cases hf
  | marking mark =>
      cases mark with
      | rawById =>
          cases applied with
          | false => exact residue_unmarked hl.2 (.inl rfl)
          | true =>
              obtain ⟨s', now, pc', op, hr, hn, rfl⟩ := hl
              obtain rfl := residue_unmarked hr (.inl rfl)
              simp only [nextHandler] at hn
              split at hn <;> rename_i hmark <;> cases hn <;>
                obtain ⟨rfl, -⟩ := nextMark_rawById hmark <;> rfl
      | setStatus message =>
          cases applied with
          | false => exact residue_unmarked hl.2 (.inr ⟨_, rfl⟩)
          | true => cases hf
      | addEvent message => cases hf

/-- Once it has, the job is FAILED. -/
theorem leaves_failed (hl : Leaves s₀ h s fault) (hf : statusKept fault = false) {job : Job}
    (hrow : s.findById h.jobId = some job) : job.status = .FAILED := by
  have hdone : ∀ pc, Residue s₀ h pc s → (∃ message, pc = .marking (.addEvent message)) ∨
      pc = .addDlq ∨ pc = .done → job.status = .FAILED := by
    rintro pc hr (⟨message, rfl⟩ | rfl | rfl) <;> exact residue_failed hr (by simp) (by simp) hrow
  cases fault with
  | none => exact hdone .done hl (.inr (.inr rfl))
  | some f =>
      obtain ⟨pc, applied⟩ := f
      cases applied with
      | false =>
          obtain ⟨hopen, hr⟩ := hl
          refine hdone pc hr ?_
          cases pc with
          | marking mark =>
              cases mark with
              | addEvent message => exact .inl ⟨message, rfl⟩
              | _ => cases hf
          | addDlq => exact .inr (.inl rfl)
          | done => exact (hopen rfl).elim
      | true =>
          obtain ⟨s', now, pc', op, hr, hn, rfl⟩ := hl
          refine hdone pc' (residue_next now hr hn) ?_
          cases pc with
          | marking mark =>
              cases mark with
              | rawById => cases hf
              | setStatus message =>
                  cases hn
                  exact .inl ⟨_, rfl⟩
              | addEvent message =>
                  cases hn
                  exact .inr (.inl rfl)
          | addDlq =>
              cases hn
              exact .inr (.inr rfl)
          | done => cases hn

section Resuming
variable {userId jobId : String} {job : Job} {v : World} {at_ next : ProcessPc} {op : Op}

variable (next op) in
/-- A call that runs alone takes its next segment. -/
theorem solo_next (hrun : Run (step cfg) (Solo w.threads.length) (called w userId jobId) v)
    (ht : v.threads[w.threads.length]? = some (.process ⟨userId, jobId, at_⟩))
    (hn : nextProcess cfg v.stores ⟨userId, jobId, at_⟩ = some (next, op)) :
    ∃ v', Run (step cfg) (Solo w.threads.length) (called w userId jobId) v' ∧
      v'.threads[w.threads.length]? = some (.process ⟨userId, jobId, next⟩) ∧
        v'.stores = v.stores.run 0 op := by
  have hs : step cfg v (.step w.threads.length {}) = some (v.advance 0 w.threads.length
      (.process ⟨userId, jobId, next⟩) op []) := by
    simp only [step, ht, Option.bind_some, ServerRuns.next, hn, Option.map_some]
  exact ⟨_, hrun.tail ⟨{}, rfl⟩ hs, getElem?_advance_same ht, rfl⟩

/-- A job that is neither READY nor in flight is enqueued again over its failed entry. -/
theorem repairable_of_resumes (hrow : w.stores.findById jobId = some job)
    (hq : (w.stores.queue jobId).map Entry.state = some .failed)
    (hres : Resumes w.stores jobId job) : Repairable cfg w job.userId jobId := by
  obtain ⟨hlive, hready, hfl, haudio⟩ := hres
  obtain ⟨entry, hentry, hstate⟩ := Option.map_eq_some_iff.mp hq
  have hscoped := Stores.findScoped_eq_some.mpr ⟨hrow, rfl, hlive⟩
  have hstart : Run (step cfg) (Solo w.threads.length) (called w job.userId jobId)
      (called w job.userId jobId) := .refl _
  obtain ⟨v₁, hrun, ht, hv₁⟩ := solo_next (.objectExists job) .none hstart called_thread
    (by simp only [nextProcess, called, hscoped, hready, hfl, if_false, Bool.false_eq_true])
  obtain ⟨v₂, hrun, ht, hv₂⟩ := solo_next (.setStatus job) .none hrun ht
    (by rw [hv₁]; simp only [nextProcess, Stores.run, called, haudio, if_true])
  obtain ⟨v₃, hrun, ht, hv₃⟩ := solo_next _ _ hrun ht rfl
  have hq₃ : v₃.stores.queue jobId = some entry := by
    rw [hv₃, hv₂, hv₁]
    exact hentry
  obtain ⟨v₄, hrun, ht, hv₄⟩ := solo_next (.getState job) .none hrun ht
    (by simp only [nextProcess, hq₃])
  have hq₄ : v₄.stores.queue jobId = some entry := by rw [hv₄]; exact hq₃
  obtain ⟨v₅, hrun, ht, hv₅⟩ := solo_next (.remove job) .none hrun ht
    (by simp only [nextProcess, hq₄, Option.map_some, hstate])
  have hq₅ : v₅.stores.queue jobId = some entry := by rw [hv₅]; exact hq₄
  obtain ⟨v₆, hrun, ht, hv₆⟩ := solo_next (.add job) (.setEntry jobId none) hrun ht
    (by simp only [nextProcess, hq₅, Option.map_some, hstate])
  have hq₆ : v₆.stores.queue jobId = none := by simp [hv₆, Stores.run]
  obtain ⟨v₇, hrun, ht, hv₇⟩ := solo_next (.findAgain job)
    (.setEntry jobId (some ⟨.waiting, job.userId, 0⟩)) hrun ht
    (by simp only [nextProcess, hq₆])
  obtain ⟨v₈, hrun, ht, hv₈⟩ := solo_next _ _ hrun ht rfl
  refine ⟨v₈, _, hrun, ht, ?_⟩
  simp [hv₈, hv₇, enqueued, Stores.run]

/-- The program points of a call that starts nothing. -/
def Idle (job : Job) : ProcessPc → Prop
  | .findScoped | .returned _ | .threw _ => True
  | .objectExists job' => job' = job ∧ job.deletedAt = none ∧ job.status ≠ .READY ∧
      job.status.inFlight = false
  | _ => False

/-- Any other job is answered or refused at once. -/
theorem idle_next (hrow : s.findById jobId = some job) (hres : ¬ Resumes s jobId job)
    (hidle : Idle job at_)
    (hn : nextProcess cfg s ⟨job.userId, jobId, at_⟩ = some (next, op)) :
    Idle job next ∧ op = .none := by
  cases at_ with
  | findScoped =>
      simp only [nextProcess] at hn
      split at hn
      · cases hn
        exact ⟨trivial, rfl⟩
      · rename_i job' hjob
        obtain ⟨hrow', -, hlive⟩ := Stores.findScoped_eq_some.mp hjob
        rw [hrow] at hrow'
        cases hrow'
        split_ifs at hn with hready hfl <;> cases hn
        · exact ⟨trivial, rfl⟩
        · exact ⟨trivial, rfl⟩
        · exact ⟨⟨rfl, hlive, hready, Bool.not_eq_true _ ▸ hfl⟩, rfl⟩
  | objectExists job' =>
      obtain ⟨rfl, hlive, hready, hfl⟩ := hidle
      simp only [nextProcess] at hn
      split_ifs at hn with haudio <;> cases hn
      · exact (hres ⟨hlive, hready, hfl, haudio⟩).elim
      · exact ⟨trivial, rfl⟩
  | returned dto => cases hn
  | threw error => cases hn
  | _ => exact hidle.elim

theorem resumes_of_repairable (hrow : w.stores.findById jobId = some job)
    (hq : (w.stores.queue jobId).map Entry.state = some .failed)
    (hrep : Repairable cfg w job.userId jobId) : Resumes w.stores jobId job := by
  by_contra hres
  obtain ⟨v, dto, hrun, -, henq⟩ := hrep
  have hkept : v.stores = w.stores ∧ ∃ pc, v.threads[w.threads.length]? =
      some (.process ⟨job.userId, jobId, pc⟩) ∧ Idle job pc := by
    refine hrun.invariant (I := fun v => v.stores = w.stores ∧ ∃ pc,
      v.threads[w.threads.length]? = some (.process ⟨job.userId, jobId, pc⟩) ∧ Idle job pc)
      ⟨rfl, .findScoped, called_thread, trivial⟩ ?_
    rintro v a v' ⟨hstores, pc, ht, hidle⟩ ⟨env, rfl⟩ hs
    obtain ⟨pc', op, hn, rfl⟩ := step_process ht hs
    rw [hstores] at hn
    obtain ⟨hidle', rfl⟩ := idle_next hrow hres hidle hn
    exact ⟨hstores, pc', getElem?_advance_same ht, hidle'⟩
  rw [hkept.1] at henq
  obtain ⟨entry, hentry, hstate⟩ := Option.map_eq_some_iff.mp hq
  simp [enqueued, hentry, hstate] at henq

theorem repairable_iff_resumes (hrow : w.stores.findById jobId = some job)
    (hq : (w.stores.queue jobId).map Entry.state = some .failed) :
    Repairable cfg w job.userId jobId ↔ Resumes w.stores jobId job :=
  ⟨resumes_of_repairable hrow hq, repairable_of_resumes hrow hq⟩

end Resuming

/-- Where the job is left: FAILED once the status update has taken effect, and as it was
before. -/
theorem left_resumable_iff {i : ℕ} (hterm : Terminal cfg w₀ i w h)
    (hh : Handles cfg w₀.threads.length w fault w') :
    (∀ job, w'.stores.findById h.jobId = some job →
      job.status = .FAILED ∨ Repairable cfg w' job.userId h.jobId) ↔
    statusKept fault = false ∨ ∀ job, w.stores.findById h.jobId = some job →
      job.status = .FAILED ∨ Resumes w.stores h.jobId job := by
  obtain ⟨hstart, hfailed⟩ := hterm.starts
  have hl := handles_leaves hstart hterm.thread hh
  cases hf : statusKept fault with
  | false => exact iff_of_true (fun job hrow => .inl (leaves_failed hl hf hrow)) (.inl rfl)
  | true =>
      have hsame := leaves_kept hl hf
      have hq : (w'.stores.queue h.jobId).map Entry.state = some .failed := by rwa [hsame]
      simp only [Bool.true_eq_false, false_or]
      rw [← hsame]
      exact forall_congr' fun job => imp_congr_right fun hrow =>
        or_congr_right (repairable_iff_resumes hrow hq)

/-- A terminal failure is recorded exactly when no await of `markFailed` throws. -/
theorem terminal_failure_recorded (cfg : ServerConfig) {w₀ w w' : World} {i : ℕ} {h : Handler}
    {fault : Option Fault} (hterm : Terminal cfg w₀ i w h)
    (hh : Handles cfg w₀.threads.length w fault w') :
    Recorded cfg w.stores h fault w' ↔ markedFailed fault = true := by
  have hl := handles_leaves hterm.starts.1 hterm.thread hh
  constructor
  · intro hrec
    by_contra hf
    rcases hrec.parked with hdlq | ⟨applied, rfl⟩
    · rw [leaves_dlq hl (Bool.not_eq_true _ ▸ hf)] at hdlq
      simp at hdlq
    · exact hf rfl
  · intro hf
    have hkept : statusKept fault = false := by
      cases fault with
      | none => rfl
      | some f =>
          obtain ⟨pc, applied⟩ := f
          cases pc with
          | addDlq => rfl
          | _ => cases hf
    refine ⟨?_, fun job hrow => .inl (leaves_failed hl hkept hrow), fun job hrow hmoving => ?_⟩
    · cases fault with
      | none => exact .inl ((residue_dlq hl).trans (if_pos rfl))
      | some f =>
          obtain ⟨pc, applied⟩ := f
          cases pc with
          | addDlq => exact .inr ⟨applied, rfl⟩
          | _ => cases hf
    · rw [leaves_failed hl hkept hrow] at hmoving
      cases hmoving

/-- The server in which the only attempt of `job-1` has failed in the transcription and
waits to be reported. -/
def failedAttempt : List Action :=
  submitSchedule ++ checkSchedule 1 ++ enqueueSchedule 1 ++ [.pick "job-1"] ++ steps 2 2 {} ++
    [.throw 2 {} unreachable false]

/-- The handler is cut at its await after `n` segments. -/
def cutHandler (cfg : ServerConfig) (k : ℕ) (w : World) (n : ℕ) (applied : Bool) :
    Option (HandlerPc × World) :=
  (exec (step cfg) (steps k n {}) w).bind fun v =>
    match v.threads[k]? with
    | some (.handler h) => (step cfg v (.throw k {} unreachable applied)).map fun w' => (h.pc, w')
    | _ => none

theorem cutHandler_handles {n : ℕ} {applied : Bool}
    (hc : cutHandler cfg k w n applied = some (pc, w')) :
    Handles cfg k w (some ⟨pc, applied⟩) w' := by
  obtain ⟨v, hrun, hc⟩ := Option.bind_eq_some_iff.mp hc
  split at hc
  · rename_i h hv
    obtain ⟨w₁, hs, he⟩ := Option.map_eq_some_iff.mp hc
    cases he
    exact .broke v _ h {} unreachable applied (exec_solo hrun) hv hs
  · cases hc

def handlerAt (w : World) (k : ℕ) : Option Handler :=
  match w.threads[k]? with
  | some (.handler h) => some h
  | _ => none

theorem handlerAt_eq (hh : handlerAt w k = some h) : w.threads[k]? = some (.handler h) := by
  unfold handlerAt at hh
  split at hh
  · rename_i h' ht
    cases hh
    exact ht
  · cases hh

/-- With a single attempt the failure is terminal. -/
def oneAttempt : ServerConfig := { demo with jobMaxAttempts := 1 }

/-- A dead-letter addition that fails: the job is FAILED all the same. -/
theorem terminal_failure_recorded_demo : ∃ w₀ w w' h applied, Terminal oneAttempt w₀ 2 w h ∧
    Handles oneAttempt w₀.threads.length w (some ⟨.addDlq, applied⟩) w' ∧
      Recorded oneAttempt w.stores h (some ⟨.addDlq, applied⟩) w' := by
  have hend : (exec (step oneAttempt) failedAttempt World.empty).any (fun w₀ =>
      (step oneAttempt w₀ (.ack 2)).any fun w => (handlerAt w w₀.threads.length).isSome &&
        (cutHandler oneAttempt w₀.threads.length w 3 false).any fun p => p.1 = .addDlq) = true := by
    decide
  obtain ⟨w₀, -, hp⟩ := (Option.any_eq_true _ _).mp hend
  obtain ⟨w, hs, hp⟩ := (Option.any_eq_true _ _).mp hp
  obtain ⟨hh, hp⟩ := Bool.and_eq_true_iff.mp hp
  obtain ⟨⟨pc, w'⟩, hcut, hpc⟩ := (Option.any_eq_true _ _).mp hp
  obtain rfl : pc = .addDlq := of_decide_eq_true hpc
  obtain ⟨h, hh⟩ := Option.isSome_iff_exists.mp hh
  have hterm : Terminal oneAttempt w₀ 2 w h := ⟨hs, handlerAt_eq hh⟩
  have hhandles := cutHandler_handles hcut
  exact ⟨w₀, w, w', h, false, hterm, hhandles,
    (terminal_failure_recorded oneAttempt hterm hhandles).mpr rfl⟩

/-- A status update that fails leaves the job in flight, with its entry failed and nothing on
the dead-letter queue. -/
theorem lost_update_leaves_limbo : ¬ ∀ (cfg : ServerConfig) (w₀ w w' : World) (i : ℕ)
    (h : Handler) (fault : Option Fault), Run (step cfg) anyStep World.empty w₀ →
      Terminal cfg w₀ i w h → Handles cfg w₀.threads.length w fault w' →
        Recorded cfg w.stores h fault w' := by
  intro hall
  have hend : (exec (step oneAttempt) failedAttempt World.empty).any (fun w₀ =>
      (step oneAttempt w₀ (.ack 2)).any fun w => (handlerAt w w₀.threads.length).any fun h =>
        (cutHandler oneAttempt w₀.threads.length w 1 false).any fun p =>
          (p.2.stores.findById h.jobId).any fun job => job.status.inFlight &&
            (p.2.stores.queue h.jobId).map Entry.state = some .failed &&
              p.2.stores.dlq.isEmpty) = true := by
    decide
  obtain ⟨w₀, hrun, hp⟩ := exec_any hend
  obtain ⟨w, hs, hp⟩ := (Option.any_eq_true _ _).mp hp
  obtain ⟨h, hh, hp⟩ := (Option.any_eq_true _ _).mp hp
  obtain ⟨⟨pc, w'⟩, hcut, hp⟩ := (Option.any_eq_true _ _).mp hp
  obtain ⟨job, hrow, hp⟩ := (Option.any_eq_true _ _).mp hp
  simp only [Bool.and_eq_true, decide_eq_true_eq] at hp
  obtain ⟨⟨hfl, hq⟩, -⟩ := hp
  have hrec := hall oneAttempt w₀ w w' 2 h _ hrun ⟨hs, handlerAt_eq hh⟩ (cutHandler_handles hcut)
  exact hrec.moving job hrow hfl hq

end FieldNote.TerminalFailures
