import FieldNote.JobStatements

/-!
# A process call that fails half way

A `process` call runs alone from any state of the server until one of its awaits throws,
with or without effect. The status is committed before the queue is looked at, and the next
call looks at the status only, so a call that fails in between is repaired by nobody unless
the job had a live queue entry all along.
-/
namespace FieldNote.ProcessFaults
open JobsService ServerRuns GuardedRuns CallPool

/-- Only thread `i` moves, and its awaits succeed. -/
def Solo (i : ℕ) (_ : World) (a : Action) : Prop := ∃ env, a = .step i env

/-- The state in which a `process` call has just reached the API. -/
def called (w : World) (userId jobId : String) : World :=
  { w with threads := w.threads ++ [.process ⟨userId, jobId, .findScoped⟩] }

/-- The job has an entry that is running or will run. -/
def enqueued (s : Stores) (jobId : String) : Bool :=
  match (s.queue jobId).map Entry.state with
  | some .waiting | some .delayed | some .active => true
  | some .completed | some .failed | none => false

/-- A `process` call on `w₀` that runs alone to `w` and then throws, at the await `pc`. -/
structure Fails (cfg : ServerConfig) (w₀ : World) (userId jobId : String) (w : World)
    (pc : ProcessPc) (a : Action) (w' : World) : Prop where
  run : Run (step cfg) (Solo w₀.threads.length) (called w₀ userId jobId) w
  thread : w.threads[w₀.threads.length]? = some (.process ⟨userId, jobId, pc⟩)
  acts : Solo w₀.threads.length w a ∨ ∃ env e applied, a = .throw w₀.threads.length env e applied
  step : step cfg w a = some w'
  threw : ∃ error, w'.threads[w₀.threads.length]? = some (.process ⟨userId, jobId, .threw error⟩)

/-- A further call, with the infrastructure healthy again, answers and leaves the job
enqueued. -/
def Repairable (cfg : ServerConfig) (w : World) (userId jobId : String) : Prop :=
  ∃ w' dto, Run (step cfg) (Solo w.threads.length) (called w userId jobId) w' ∧
    w'.threads[w.threads.length]? = some (.process ⟨userId, jobId, .returned dto⟩) ∧
      enqueued w'.stores jobId = true

/-- What failure atomicity asks of a call on `w₀` that failed in `w`. -/
def FailureAtomic (cfg : ServerConfig) (w₀ w : World) (userId jobId : String) : Prop :=
  w.stores.findById jobId = w₀.stores.findById jobId ∨ Repairable cfg w userId jobId

/-- The await throws before the status is committed, or after the entry is there; in between
only an entry that was live before the call helps. -/
def recoverable (s₀ : Stores) (jobId : String) (pc : ProcessPc) (a : Action) : Bool :=
  match pc, a with
  | .findScoped, _ | .objectExists _, _ | .findAgain _, _ => true
  | .setStatus _, .throw _ _ _ false => true
  | .add _, .throw _ _ _ true => true
  | _, _ => enqueued s₀ jobId

/-- The row that the call read: live, its user's, and with a status that starts a run. -/
def Startable (s₀ : Stores) (userId jobId : String) (job : Job) : Prop :=
  s₀.findScoped userId jobId = some job ∧ job.status ≠ .READY ∧ job.status.inFlight = false

/-- The call has committed its status update. -/
def Queued (s₀ s : Stores) (userId jobId : String) : Prop :=
  ∃ job now, Startable s₀ userId jobId job ∧ s.findById jobId =
    some ((Write.setStatus .QUEUED (some none)).apply now job)

/-- What the stores are at each program point of a call that runs alone from `s₀`. -/
def Progress (s₀ s : Stores) (userId jobId : String) : ProcessPc → Prop
  | .findScoped | .threw _ => s = s₀
  | .objectExists job | .setStatus job => s = s₀ ∧ Startable s₀ userId jobId job
  | .getJob _ => Queued s₀ s userId jobId ∧ s.queue jobId = s₀.queue jobId
  | .getState _ =>
      Queued s₀ s userId jobId ∧ s.queue jobId = s₀.queue jobId ∧ s₀.queue jobId ≠ none
  | .remove _ =>
      Queued s₀ s userId jobId ∧ s.queue jobId = s₀.queue jobId ∧ enqueued s₀ jobId = false
  | .add _ => Queued s₀ s userId jobId ∧ s.queue jobId = none ∧ enqueued s₀ jobId = false
  | .findAgain _ => Queued s₀ s userId jobId ∧ enqueued s jobId = true
  | .returned _ => True

/-- The call is past its status update. -/
def committed : ProcessPc → Bool
  | .getJob _ | .getState _ | .remove _ | .add _ | .findAgain _ => true
  | _ => false

variable {cfg : ServerConfig} {s₀ s : Stores} {w₀ w w' : World} {userId jobId : String}

theorem enqueued_congr (h : s.queue jobId = s₀.queue jobId) :
    enqueued s jobId = enqueued s₀ jobId := by
  simp only [enqueued, h]

theorem Queued.queue {now : ℕ} {entry : Option Entry} (h : Queued s₀ s userId jobId) :
    Queued s₀ (s.run now (.setEntry jobId entry)) userId jobId := h

/-- One segment of the call. -/
theorem progress_next {pc : ProcessPc} {op : Op} {c : ProcessCall} (now : ℕ)
    (h : Progress s₀ s c.userId c.jobId c.pc) (hn : nextProcess cfg s c = some (pc, op)) :
    Progress s₀ (s.run now op) c.userId c.jobId pc := by
  rcases c with ⟨userId, jobId, pc₀⟩
  cases pc₀ with
  | findScoped =>
      obtain rfl : s = s₀ := h
      simp only [nextProcess] at hn
      split at hn
      · cases hn
        exact rfl
      · rename_i job hjob
        split_ifs at hn with hready hfl
        · cases hn
          trivial
        · cases hn
          trivial
        · cases hn
          exact ⟨rfl, hjob, hready, Bool.not_eq_true _ ▸ hfl⟩
  | objectExists job =>
      simp only [nextProcess] at hn
      split_ifs at hn
      · cases hn
        exact h
      · cases hn
        exact h.1
  | setStatus job =>
      cases hn
      obtain ⟨rfl, hstart⟩ := h
      refine ⟨⟨job, now, hstart, ?_⟩, rfl⟩
      rw [Stores.run_row_write, (Stores.findScoped_eq_some.mp hstart.1).1]
      rfl
  | getJob job =>
      obtain ⟨hq, hsame⟩ := h
      simp only [nextProcess] at hn
      split at hn
      · rename_i hnone
        cases hn
        refine ⟨hq, hnone, ?_⟩
        simp [enqueued, ← hsame, hnone]
      · rename_i entry hentry
        cases hn
        exact ⟨hq, hsame, by simp [← hsame, hentry]⟩
  | getState job =>
      obtain ⟨hq, hsame, hsome⟩ := h
      obtain ⟨entry, hentry⟩ := Option.ne_none_iff_exists'.mp hsome
      simp only [nextProcess, hsame, hentry, Option.map_some] at hn
      cases hstate : entry.state with
      | completed =>
          rw [hstate] at hn
          cases hn
          exact ⟨hq, hsame, by simp [enqueued, hentry, hstate]⟩
      | failed =>
          rw [hstate] at hn
          cases hn
          exact ⟨hq, hsame, by simp [enqueued, hentry, hstate]⟩
      | _ =>
          rw [hstate] at hn
          cases hn
          exact ⟨hq, by simp [enqueued, Stores.run, hsame, hentry, hstate]⟩
  | remove job =>
      obtain ⟨hq, hsame, hdead⟩ := h
      simp only [nextProcess] at hn
      split at hn
      · rename_i hactive
        simp [enqueued, ← hsame, hactive] at hdead
      · cases hn
        exact ⟨hq, by simp [Stores.run], hdead⟩
  | add job =>
      obtain ⟨hq, hnone, hdead⟩ := h
      simp only [nextProcess, hnone] at hn
      cases hn
      exact ⟨hq, by simp [enqueued, Stores.run]⟩
  | findAgain job =>
      cases hn
      trivial
  | returned dto => cases hn
  | threw error => cases hn

/-- A successful segment of a thread that is a `process` call. -/
theorem step_process {i : ℕ} {env : Env} {c : ProcessCall} (ht : w.threads[i]? = some (.process c))
    (hs : step cfg w (.step i env) = some w') :
    ∃ pc op, nextProcess cfg w.stores c = some (pc, op) ∧
      w' = w.advance env.now i (.process { c with pc := pc }) op [] := by
  simp only [step, ht, Option.bind_some, next] at hs
  obtain ⟨⟨t, op, spawned⟩, hn, rfl⟩ := Option.map_eq_some_iff.mp hs
  obtain ⟨⟨pc, op'⟩, hnext, he⟩ := Option.map_eq_some_iff.mp hn
  cases he
  exact ⟨pc, op', hnext, rfl⟩

theorem called_thread : (called w userId jobId).threads[w.threads.length]? =
    some (.process ⟨userId, jobId, .findScoped⟩) := by
  simp [called]

/-- A call that runs alone makes the progress its program point says. -/
theorem solo_progress (h : Run (step cfg) (Solo w₀.threads.length) (called w₀ userId jobId) w) :
    ∃ pc, w.threads[w₀.threads.length]? = some (.process ⟨userId, jobId, pc⟩) ∧
      Progress w₀.stores w.stores userId jobId pc := by
  have hstart : Progress w₀.stores (called w₀ userId jobId).stores userId jobId .findScoped := rfl
  refine h.invariant (I := fun w => ∃ pc, w.threads[w₀.threads.length]? =
    some (.process ⟨userId, jobId, pc⟩) ∧ Progress w₀.stores w.stores userId jobId pc)
    ⟨.findScoped, called_thread, hstart⟩ ?_
  rintro w a w' ⟨pc, ht, hp⟩ ⟨env, rfl⟩ hs
  obtain ⟨pc', op, hn, rfl⟩ := step_process ht hs
  exact ⟨pc', getElem?_advance_same ht,
    progress_next (c := ⟨userId, jobId, pc⟩) env.now hp hn⟩

/-- A committed status is visible: the next call finds the job in flight. -/
theorem Queued.scoped (h : Queued s₀ s userId jobId) :
    ∃ job, s.findScoped userId jobId = some job ∧ job.status = .QUEUED := by
  obtain ⟨job, now, ⟨hscoped, -, -⟩, hrow⟩ := h
  obtain ⟨-, huser, hlive⟩ := Stores.findScoped_eq_some.mp hscoped
  exact ⟨_, Stores.findScoped_eq_some.mpr ⟨hrow, huser, hlive⟩, rfl⟩

theorem Queued.changed (h : Queued s₀ s userId jobId) : s.findById jobId ≠ s₀.findById jobId := by
  obtain ⟨job, now, ⟨hscoped, -, hfl⟩, hrow⟩ := h
  rw [hrow, (Stores.findScoped_eq_some.mp hscoped).1]
  intro he
  rw [← Option.some.inj he] at hfl
  cases hfl

/-- A call on a QUEUED job returns at once, so it repairs nothing. -/
theorem repairable_iff (h : ∃ job, w.stores.findScoped userId jobId = some job ∧
    job.status = .QUEUED) :
    Repairable cfg w userId jobId ↔ enqueued w.stores jobId = true := by
  obtain ⟨job, hjob, hst⟩ := h
  have hnext : nextProcess cfg w.stores ⟨userId, jobId, .findScoped⟩ =
      some (.returned (jobToDto job none), .none) := by
    simp [nextProcess, hjob, hst, JobStatus.inFlight]
  constructor
  · rintro ⟨w', dto, hrun, hret, henq⟩
    have hkept : w'.stores = w.stores ∧ ∃ pc, w'.threads[w.threads.length]? =
        some (.process ⟨userId, jobId, pc⟩) ∧ (pc = .findScoped ∨ ∃ dto, pc = .returned dto) := by
      refine hrun.invariant (I := fun w₁ => w₁.stores = w.stores ∧ ∃ pc,
        w₁.threads[w.threads.length]? = some (.process ⟨userId, jobId, pc⟩) ∧
          (pc = .findScoped ∨ ∃ dto, pc = .returned dto)) ⟨rfl, _, called_thread, .inl rfl⟩ ?_
      rintro w₁ a w₂ ⟨hstores, pc, ht, hpc⟩ ⟨env, rfl⟩ hs
      obtain ⟨pc', op, hn, rfl⟩ := step_process ht hs
      rcases hpc with rfl | ⟨dto, rfl⟩
      · rw [hstores, hnext] at hn
        cases hn
        exact ⟨hstores, _, getElem?_advance_same ht, .inr ⟨_, rfl⟩⟩
      · cases hn
    rwa [← hkept.1]
  · intro henq
    have hs : step cfg (called w userId jobId) (.step w.threads.length {}) =
        some ((called w userId jobId).advance 0 w.threads.length
          (.process ⟨userId, jobId, .returned (jobToDto job none)⟩) .none []) := by
      have hn : nextProcess cfg (called w userId jobId).stores ⟨userId, jobId, .findScoped⟩ =
          some (.returned (jobToDto job none), .none) := hnext
      simp only [step, called_thread, Option.bind_some, next, hn, Option.map_some]
    exact ⟨_, jobToDto job none, Run.single ⟨{}, rfl⟩ hs, getElem?_advance_same called_thread, henq⟩

/-- A segment of the call that throws by itself. -/
theorem next_threw {pc : ProcessPc} {op : Op} {error : HttpError}
    (h : nextProcess cfg s ⟨userId, jobId, pc⟩ = some (.threw error, op)) :
    pc = .findScoped ∨ (∃ job, pc = .objectExists job) ∨
      (∃ job, pc = .remove job) ∧ (s.queue jobId).map Entry.state = some .active := by
  unfold nextProcess at h
  split at h
  · rename_i hpc
    exact .inl hpc
  · rename_i job hpc
    exact .inr (.inl ⟨job, hpc⟩)
  · cases h
  · split at h <;> cases h
  · split at h <;> cases h
  · rename_i job hpc
    split at h
    · rename_i hactive
      exact .inr (.inr ⟨⟨job, hpc⟩, hactive⟩)
    · cases h
  · split at h <;> cases h
  · cases h
  · cases h
  · cases h

/-- What a failing step leaves: the call has changed nothing and is about to read or to
check, or its await throws, where the operation took effect or not. -/
theorem fails_cases {pc : ProcessPc} {a : Action}
    (h : Fails cfg w₀ userId jobId w pc a w') :
    Progress w₀.stores w.stores userId jobId pc ∧ (∀ dto, pc ≠ .returned dto) ∧
      (∀ error, pc ≠ .threw error) ∧
      ((w'.stores = w₀.stores ∧ (pc = .findScoped ∨ ∃ job, pc = .objectExists job)) ∨
        (∃ env e, a = .throw w₀.threads.length env e false ∧ w'.stores = w.stores) ∨
          ∃ env e pc' op, a = .throw w₀.threads.length env e true ∧
            nextProcess cfg w.stores ⟨userId, jobId, pc⟩ = some (pc', op) ∧
              w'.stores = w.stores.run env.now op) := by
  obtain ⟨hrun, ht, hacts, hs, error, hthrew⟩ := h
  obtain ⟨pc₀, ht₀, hp⟩ := solo_progress hrun
  rw [ht] at ht₀
  cases ht₀
  refine ⟨hp, ?_⟩
  rcases hacts with ⟨env, rfl⟩ | ⟨env, e, applied, rfl⟩
  · obtain ⟨pc', op, hn, rfl⟩ := step_process ht hs
    rw [show (w.advance env.now w₀.threads.length
      (.process ⟨userId, jobId, pc'⟩) op []).threads[w₀.threads.length]? =
        some (.process ⟨userId, jobId, pc'⟩) from getElem?_advance_same ht] at hthrew
    cases hthrew
    have hstores := progress_next (c := ⟨userId, jobId, pc⟩) env.now hp hn
    rcases next_threw hn with rfl | ⟨job, rfl⟩ | ⟨⟨job, rfl⟩, hactive⟩
    · exact ⟨nofun, nofun, .inl ⟨hstores, .inl rfl⟩⟩
    · exact ⟨nofun, nofun, .inl ⟨hstores, .inr ⟨job, rfl⟩⟩⟩
    · -- an entry that was seen to have ended is not running
      obtain ⟨-, hsame, hdead⟩ := hp
      rw [← enqueued_congr hsame] at hdead
      simp [enqueued, hactive] at hdead
  · simp only [ServerRuns.step, ht, Option.bind_some] at hs
    obtain ⟨t', hthrows, hs⟩ := Option.bind_eq_some_iff.mp hs
    obtain ⟨pc', hpc, -⟩ := Option.map_eq_some_iff.mp hthrows
    have hopen : (∀ dto, pc ≠ .returned dto) ∧ ∀ error, pc ≠ .threw error := by
      constructor <;> rintro x rfl <;> cases hpc
    refine ⟨hopen.1, hopen.2, ?_⟩
    cases applied with
    | false =>
        cases hs
        exact .inr (.inl ⟨env, e, rfl, rfl⟩)
    | true =>
        obtain ⟨⟨t₁, op, spawned⟩, hn, rfl⟩ := Option.map_eq_some_iff.mp hs
        obtain ⟨⟨pc', op'⟩, hnext, he⟩ := Option.map_eq_some_iff.mp hn
        cases he
        exact .inr (.inr ⟨env, e, pc', _, rfl, hnext, rfl⟩)

/-- Once the status is committed, atomicity is that the job is enqueued. -/
theorem atomic_of_queued (h : Queued w₀.stores w.stores userId jobId) :
    FailureAtomic cfg w₀ w userId jobId ↔ enqueued w.stores jobId = true := by
  rw [FailureAtomic, repairable_iff h.scoped]
  exact or_iff_right h.changed

/-- An operation at or after the queue lookup keeps the row. -/
theorem Queued.next {pc pc' : ProcessPc} {op : Op} {now : ℕ} (h : Queued s₀ s userId jobId)
    (hpc : committed pc = true)
    (hn : nextProcess cfg s ⟨userId, jobId, pc⟩ = some (pc', op)) :
    Queued s₀ (s.run now op) userId jobId := by
  have hissues : Issues ⟨s, []⟩ {} (.process ⟨userId, jobId, pc⟩) op :=
    (nextProcess_operates hn).issues
  cases hissues with
  | aside t op aside => cases op <;> first | exact h | cases aside
  | process c job hjob =>
      rw [show pc = .setStatus job from hjob] at hpc
      cases hpc

/-- Past its status update the call fails only by an await that throws, and atomicity is
that the job is enqueued. -/
theorem fails_committed {pc : ProcessPc} {a : Action} (h : Fails cfg w₀ userId jobId w pc a w')
    (hpc : committed pc = true) (hq : Queued w₀.stores w.stores userId jobId) :
    (FailureAtomic cfg w₀ w' userId jobId ↔ enqueued w'.stores jobId = true) ∧
      ((∃ env e, a = .throw w₀.threads.length env e false ∧ w'.stores = w.stores) ∨
        ∃ env e pc' op, a = .throw w₀.threads.length env e true ∧
          nextProcess cfg w.stores ⟨userId, jobId, pc⟩ = some (pc', op) ∧
            w'.stores = w.stores.run env.now op) := by
  rcases (fails_cases h).2.2.2 with ⟨-, rfl | ⟨job, rfl⟩⟩ | ⟨env, e, ha, heq⟩ |
    ⟨env, e, pc', op, ha, hn, heq⟩
  · cases hpc
  · cases hpc
  · exact ⟨atomic_of_queued (heq ▸ hq), .inl ⟨env, e, ha, heq⟩⟩
  · exact ⟨atomic_of_queued (heq ▸ hq.next hpc hn), .inr ⟨env, e, pc', op, ha, hn, heq⟩⟩

/-- A lookup that fails leaves the queue as it was before the call. -/
theorem atomic_looking {pc : ProcessPc} {a : Action} (h : Fails cfg w₀ userId jobId w pc a w')
    (hpc : committed pc = true) (hq : Queued w₀.stores w.stores userId jobId)
    (hop : ∀ pc' op, nextProcess cfg w.stores ⟨userId, jobId, pc⟩ = some (pc', op) → op = .none) :
    FailureAtomic cfg w₀ w' userId jobId ↔ enqueued w.stores jobId = true := by
  obtain ⟨hiff, ⟨env, e, -, heq⟩ | ⟨env, e, pc', op, -, hn, heq⟩⟩ := fails_committed h hpc hq
  · rw [hiff, heq]
  · obtain rfl := hop pc' op hn
    rw [hiff, heq]
    rfl

/-- A removal that fails leaves no entry, or the one that had ended. -/
theorem atomic_removing {job : Job} {a : Action}
    (h : Fails cfg w₀ userId jobId w (.remove job) a w')
    (hp : Progress w₀.stores w.stores userId jobId (.remove job)) :
    ¬ FailureAtomic cfg w₀ w' userId jobId := by
  obtain ⟨hq, hsame, hdead⟩ := hp
  rw [← enqueued_congr hsame] at hdead
  obtain ⟨hiff, ⟨env, e, -, heq⟩ | ⟨env, e, pc', op, -, hn, heq⟩⟩ := fails_committed h rfl hq
  · rw [hiff, heq, hdead]
    decide
  · simp only [nextProcess] at hn
    split at hn
    · rename_i hactive
      simp [enqueued, hactive] at hdead
    · cases hn
      simp [hiff, enqueued, heq, Stores.run]

/-- An addition that fails leaves no entry, unless it took effect. -/
theorem atomic_adding {job : Job} {a : Action} (h : Fails cfg w₀ userId jobId w (.add job) a w')
    (hp : Progress w₀.stores w.stores userId jobId (.add job)) :
    FailureAtomic cfg w₀ w' userId jobId ↔ ∃ env e, a = .throw w₀.threads.length env e true := by
  obtain ⟨hq, hnone, -⟩ := hp
  obtain ⟨hiff, ⟨env, e, rfl, heq⟩ | ⟨env, e, pc', op, rfl, hn, heq⟩⟩ := fails_committed h rfl hq
  · simp [hiff, enqueued, heq, hnone]
  · simp only [nextProcess, hnone] at hn
    cases hn
    simp [hiff, enqueued, heq, Stores.run]

/-- The await that reads or checks throws: the call has written nothing. -/
theorem atomic_reading {pc : ProcessPc} {a : Action} (h : Fails cfg w₀ userId jobId w pc a w')
    (hsame : w.stores = w₀.stores)
    (hop : ∀ pc' op, nextProcess cfg w.stores ⟨userId, jobId, pc⟩ = some (pc', op) → op = .none) :
    FailureAtomic cfg w₀ w' userId jobId := by
  refine .inl ?_
  rcases (fails_cases h).2.2.2 with ⟨heq, -⟩ | ⟨env, e, -, heq⟩ | ⟨env, e, pc', op, -, hn, heq⟩
  · rw [heq]
  · rw [heq, hsame]
  · obtain rfl := hop pc' op hn
    rw [heq, ← hsame]
    rfl

/-- A failed call is atomic exactly when it threw before its status update took effect, or
the job was enqueued before the call, or its new entry is there. -/
theorem process_failure_atomic (cfg : ServerConfig) {w₀ w w' : World} {userId jobId : String}
    {pc : ProcessPc} {a : Action} (h : Fails cfg w₀ userId jobId w pc a w') :
    FailureAtomic cfg w₀ w' userId jobId ↔ recoverable w₀.stores jobId pc a = true := by
  obtain ⟨hp, hret, hthrew, hcases⟩ := fails_cases h
  cases pc with
  | findScoped =>
      refine iff_of_true (atomic_reading h hp fun pc' op hn => ?_) rfl
      simp only [nextProcess] at hn
      split at hn
      · cases hn
        rfl
      · split_ifs at hn <;> cases hn <;> rfl
  | objectExists job =>
      refine iff_of_true (atomic_reading h hp.1 fun pc' op hn => ?_) rfl
      simp only [nextProcess] at hn
      split_ifs at hn <;> cases hn <;> rfl
  | setStatus job =>
      rcases hcases with ⟨-, hbad | ⟨job', hbad⟩⟩ | ⟨env, e, rfl, heq⟩ |
        ⟨env, e, pc', op, rfl, hn, heq⟩
      · cases hbad
      · cases hbad
      · exact iff_of_true (.inl (by rw [heq, hp.1])) rfl
      · have hnext := progress_next (c := ⟨userId, jobId, .setStatus job⟩) env.now hp hn
        cases hn
        rw [← heq] at hnext
        rw [atomic_of_queued hnext.1, enqueued_congr hnext.2]
        rfl
  | getJob job =>
      rw [atomic_looking h rfl hp.1, enqueued_congr hp.2]
      · rfl
      · intro pc' op hn
        simp only [nextProcess] at hn
        split at hn <;> cases hn <;> rfl
  | getState job =>
      rw [atomic_looking h rfl hp.1, enqueued_congr hp.2.1]
      · rfl
      · intro pc' op hn
        simp only [nextProcess] at hn
        split at hn <;> cases hn <;> rfl
  | remove job =>
      refine iff_of_false (atomic_removing h hp) ?_
      have hdead : enqueued w₀.stores jobId = false := hp.2.2
      simp [recoverable, hdead]
  | add job =>
      rw [atomic_adding h hp]
      have hdead : enqueued w₀.stores jobId = false := hp.2.2
      rcases hcases with ⟨-, hbad | ⟨job', hbad⟩⟩ | ⟨env, e, rfl, -⟩ | ⟨env, e, pc', op, rfl, -⟩
      · cases hbad
      · cases hbad
      · simp [recoverable, hdead]
      · simp [recoverable]
  | findAgain job =>
      refine iff_of_true ((atomic_looking h rfl hp.1 fun pc' op hn => ?_).mpr hp.2) rfl
      cases hn
      rfl
  | returned dto => exact (hret dto rfl).elim
  | threw error => exact (hthrew error rfl).elim

/-- The error of a store that cannot be reached. -/
def unreachable : PipelineService.Err := ⟨"connect ECONNREFUSED", false, false⟩

/-- A `process` call on `w₀` whose await after `n` segments throws. -/
def cut (cfg : ServerConfig) (w₀ : World) (userId jobId : String) (n : ℕ) (applied : Bool) :
    Option (World × World) :=
  (exec (step cfg) (steps w₀.threads.length n {}) (called w₀ userId jobId)).bind fun w =>
    (step cfg w (.throw w₀.threads.length {} unreachable applied)).map fun w' => (w, w')

theorem exec_solo {i n : ℕ} {env : Env} (h : exec (step cfg) (steps i n env) w = some w') :
    Run (step cfg) (Solo i) w w' := by
  induction n generalizing w with
  | zero =>
      cases h
      exact Run.refl _
  | succ n ih =>
      obtain ⟨u, hs, hu⟩ := Option.bind_eq_some_iff.mp h
      exact (Run.single ⟨env, rfl⟩ hs).trans (ih hu)

theorem cut_fails {n : ℕ} {applied : Bool}
    (h : cut cfg w₀ userId jobId n applied = some (w, w')) :
    ∃ pc, w.threads[w₀.threads.length]? = some (.process ⟨userId, jobId, pc⟩) ∧
      Fails cfg w₀ userId jobId w pc (.throw w₀.threads.length {} unreachable applied) w' := by
  obtain ⟨w₁, hrun, h⟩ := Option.bind_eq_some_iff.mp h
  obtain ⟨w₂, hs, he⟩ := Option.map_eq_some_iff.mp h
  cases he
  have hsolo := exec_solo hrun
  obtain ⟨pc, ht, -⟩ := solo_progress hsolo
  refine ⟨pc, ht, hsolo, ht, .inr ⟨{}, unreachable, applied, rfl⟩, hs, ?_⟩
  simp only [step, ht, Option.bind_some] at hs
  obtain ⟨t', hthrows, hs⟩ := Option.bind_eq_some_iff.mp hs
  obtain ⟨pc', hpc, rfl⟩ := Option.map_eq_some_iff.mp hthrows
  have hthrew : pc' = .threw .unexpected := by
    unfold ProcessCall.throwing at hpc
    split at hpc <;> cases hpc
    rfl
  subst hthrew
  cases applied with
  | false =>
      cases hs
      exact ⟨_, getElem?_advance_same ht⟩
  | true =>
      obtain ⟨⟨t₁, op, spawned⟩, -, rfl⟩ := Option.map_eq_some_iff.mp hs
      exact ⟨_, getElem?_advance_same ht⟩

/-- The server once `job-1` is created and its recording uploaded. -/
def submitted : Option World := exec (step demo) submitSchedule World.empty

/-- The thread is a `process` call that is about to add the queue entry. -/
def adding : Option Thread → Bool
  | some (.process ⟨_, _, .add _⟩) => true
  | _ => false

theorem adding_eq {pc : ProcessPc} (h : adding (some (.process ⟨userId, jobId, pc⟩)) = true) :
    ∃ job, pc = .add job := by
  cases pc with
  | add job => exact ⟨job, rfl⟩
  | _ => cases h

/-- An addition that took effect although its await threw. -/
theorem process_failure_atomic_demo :
    ∃ w₀ w w' pc, Fails demo w₀ "user-1" "job-1" w pc (.throw 1 {} unreachable true) w' ∧
      FailureAtomic demo w₀ w' "user-1" "job-1" := by
  have hend : submitted.any (fun w₀ => w₀.threads.length = 1 &&
      (cut demo w₀ "user-1" "job-1" 4 true).any fun p => adding p.1.threads[1]?) = true := by
    decide
  obtain ⟨w₀, -, hp⟩ := (Option.any_eq_true _ _).mp hend
  obtain ⟨hlen, hp⟩ := (Bool.and_eq_true _ _).mp hp
  obtain ⟨⟨w, w'⟩, hcut, hadd⟩ := (Option.any_eq_true _ _).mp hp
  obtain ⟨pc, ht, hfails⟩ := cut_fails hcut
  rw [of_decide_eq_true hlen] at ht hfails
  rw [ht] at hadd
  obtain ⟨job, rfl⟩ := adding_eq hadd
  exact ⟨w₀, w, w', .add job, hfails, (process_failure_atomic demo hfails).mpr rfl⟩

/-- An entry that cannot be added leaves a QUEUED job that no later call enqueues. -/
theorem failed_addition_strands_job :
    ¬ ∀ (cfg : ServerConfig) (w₀ w w' : World) (userId jobId : String) (pc : ProcessPc)
      (a : Action), Fails cfg w₀ userId jobId w pc a w' → FailureAtomic cfg w₀ w' userId jobId := by
  intro h
  have hend : submitted.any (fun w₀ => w₀.threads.length = 1 &&
      (cut demo w₀ "user-1" "job-1" 4 false).any fun p => adding p.1.threads[1]?) = true := by
    decide
  obtain ⟨w₀, -, hp⟩ := (Option.any_eq_true _ _).mp hend
  obtain ⟨hlen, hp⟩ := (Bool.and_eq_true _ _).mp hp
  obtain ⟨⟨w, w'⟩, hcut, hadd⟩ := (Option.any_eq_true _ _).mp hp
  obtain ⟨pc, ht, hfails⟩ := cut_fails hcut
  rw [of_decide_eq_true hlen] at ht
  rw [ht] at hadd
  obtain ⟨job, rfl⟩ := adding_eq hadd
  obtain ⟨hprogress, -⟩ := fails_cases hfails
  obtain ⟨env, e, he⟩ := (atomic_adding hfails hprogress).mp (h demo w₀ w w' _ _ _ _ hfails)
  cases he

end FieldNote.ProcessFaults
