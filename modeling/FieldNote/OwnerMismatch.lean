import FieldNote.TerminalFailures
import FieldNote.ThreadSteps

/-!
# An entry whose payload names another user

`process` refuses such an entry outside its own `try`, so it marks nothing itself. But the
refusal is an unrecoverable error: BullMQ fails the entry, and the failure handler, which
looks the job up by id alone, marks the owner's job FAILED.
-/
namespace FieldNote.OwnerMismatch
open JobsService PipelineService ServerRuns GuardedRuns CallPool ProcessFaults TerminalFailures

/-- The lookup of attempt `n` answers, or it throws. -/
inductive Look (n : ℕ) : Bool → Action → Prop where
  | answers (env : Env) : Look n true (.step n env)
  | throws (env : Env) (e : Err) (applied : Bool) : Look n false (.throw n env e applied)

/-- One attempt on the entry: it is picked, looks the job up, and is reported. -/
def Tried (cfg : ServerConfig) (jobId : String) (w : World) (answered : Bool) (v : World) : Prop :=
  ∃ look, Look w.threads.length answered look ∧
    exec (step cfg) [.pick jobId, look, .ack w.threads.length] w = some v

/-- The whole handling of the entry of a job: attempts whose lookup throws are retried, and
the last one completes the entry, or fails it and the handler runs to its end. `answered`
says that the last lookup answered. -/
inductive Handling (cfg : ServerConfig) (jobId : String) :
    World → Bool → Option Fault → World → Prop where
  | completed (w v : World) (tried : Tried cfg jobId w true v)
      (alone : v.threads.length = w.threads.length + 1) : Handling cfg jobId w true none v
  | failed (w v w' : World) (answered : Bool) (fault : Option Fault) (h : Handler)
      (tried : Tried cfg jobId w answered v)
      (thread : v.threads[w.threads.length + 1]? = some (.handler h))
      (handles : Handles cfg (w.threads.length + 1) v fault w') :
      Handling cfg jobId w answered fault w'
  | retried (w v u w' : World) (answered : Bool) (fault : Option Fault)
      (tried : Tried cfg jobId w false v) (promoted : step cfg v (.promote jobId) = some u)
      (rest : Handling cfg jobId u answered fault w') : Handling cfg jobId w answered fault w'

/-- The row with its tree, the events and the objects are as before. -/
structure Unchanged (jobId : String) (s s' : Stores) : Prop where
  row : s'.findById jobId = s.findById jobId
  events : s'.events = s.events
  bucket : s'.bucket = s.bucket

/-- The handler finds nothing to mark, or does not get to it. -/
def spared (job : Job) (answered : Bool) (fault : Option Fault) : Bool :=
  job.status = .FAILED || (answered && job.deletedAt.isSome) || statusKept fault

variable {cfg : ServerConfig} {jobId : String} {w v w' : World} {job : Job} {entry : Entry}
  {answered : Bool} {fault : Option Fault} {s₀ s : Stores} {h : Handler}

theorem Unchanged.trans {s₁ s₂ s₃ : Stores} (h : Unchanged jobId s₁ s₂)
    (h' : Unchanged jobId s₂ s₃) : Unchanged jobId s₁ s₃ :=
  ⟨h'.row.trans h.row, h'.events.trans h.events, h'.bucket.trans h.bucket⟩

/-- The outcome of an attempt on a job of another user. -/
def mismatchOutcome (jobId : String) (job : Job) : Option Err :=
  if job.deletedAt.isSome then none
  else some (unrecoverableError ("Job " ++ jobId ++ " owner mismatch; refusing to process."))

theorem afterFindById_mismatch (hne : job.userId ≠ entry.userId) :
    afterFindById jobId entry.userId (some job) = .settled (mismatchOutcome jobId job) := by
  simp only [afterFindById, mismatchOutcome, hne, ne_eq, not_false_eq_true, if_true]
  split_ifs <;> rfl

/-- One attempt on a mismatched entry only moves the entry, and starts what its outcome
asks for. -/
theorem tried_spec (hrow : w.stores.findById jobId = some job)
    (hq : w.stores.queue jobId = some entry) (hne : job.userId ≠ entry.userId)
    (ht : Tried cfg jobId w answered v) :
    ∃ e, (answered = true → e = mismatchOutcome jobId job) ∧
      Unchanged jobId w.stores v.stores ∧ v.stores.queue jobId =
        some (settle cfg jobId { entry with state := .active } e).1 ∧
      v.threads = w.threads ++ [.attempt ⟨jobId, entry.userId, .acked⟩] ++
        (settle cfg jobId { entry with state := .active } e).2 := by
  obtain ⟨look, hlook, hexec⟩ := ht
  obtain ⟨u, hpick, hexec⟩ := Option.bind_eq_some_iff.mp hexec
  obtain ⟨u', hu, hexec⟩ := Option.bind_eq_some_iff.mp hexec
  obtain ⟨v', hack, hv⟩ := Option.bind_eq_some_iff.mp hexec
  cases hv
  obtain ⟨entry', hq', -, rfl⟩ := moveEntry_eq_some hpick
  rw [hq] at hq'
  cases hq'
  obtain ⟨e, he, rfl⟩ : ∃ e, (answered = true → e = mismatchOutcome jobId job) ∧
      u' = ⟨w.stores.run 0 (.setEntry jobId (some { entry with state := .active })),
        w.threads ++ [.attempt ⟨jobId, entry.userId, .settled e⟩]⟩ := by
    have hat : (w.threads ++ [Thread.attempt ⟨jobId, entry.userId, .findById⟩])[w.threads.length]? =
        some (.attempt ⟨jobId, entry.userId, .findById⟩) := List.getElem?_concat_length
    have hset : ∀ t, (w.threads ++ [Thread.attempt ⟨jobId, entry.userId, .findById⟩]).set
        w.threads.length t = w.threads ++ [t] := by simp
    cases hlook with
    | answers env =>
        have hfind : (w.stores.run 0 (.setEntry jobId (some { entry with state := .active }))).findById
            jobId = some job := hrow
        simp only [step, hat, Option.bind_some, next, nextAttempt, hfind, afterFindById_mismatch hne,
          Option.map_some, Option.some.injEq, Attempt.spawn, World.advance, hset,
          List.append_nil] at hu
        exact ⟨_, fun _ => rfl, hu.symm⟩
    | throws env e applied =>
        refine ⟨some e, fun hfalse => (Bool.false_ne_true hfalse).elim, ?_⟩
        simp only [step, hat, Option.bind_some, throwing, Attempt.throwing, Option.map_some] at hu
        split_ifs at hu
        · obtain ⟨⟨t, op, spawned⟩, hn, rfl⟩ := Option.map_eq_some_iff.mp hu
          cases hn
          simp only [World.advance, hset, List.append_nil]
          rfl
        · cases hu
          simp only [World.advance, hset, List.append_nil]
          rfl
  refine ⟨e, he, ?_⟩
  simp only [step, List.getElem?_concat_length, Option.bind_some, Stores.run,
    Function.update_self, Option.some.injEq] at hack
  subst hack
  refine ⟨⟨rfl, rfl, rfl⟩, ?_, ?_⟩
  · simp [World.advance, Stores.run]
  · simp [World.advance]

theorem settle_userId (e : Option Err) : (settle cfg jobId entry e).1.userId = entry.userId := by
  unfold settle
  split
  · rfl
  · dsimp only
    split_ifs <;> rfl

/-- The handler leaves a job that is FAILED already as it is. -/
theorem residue_spared {pc : HandlerPc} (hr : Residue s₀ h pc s)
    (hst : ∀ job, s₀.findById h.jobId = some job → job.status = .FAILED) :
    Unchanged h.jobId s₀ s := by
  induction hr with
  | start => exact ⟨rfl, rfl, rfl⟩
  | found job row unmarked => exact ⟨rfl, rfl, rfl⟩
  | marked job now row unmarked => exact (unmarked (hst job row)).elim
  | skipped settled => exact ⟨rfl, rfl, rfl⟩
  | noted s now marked ih =>
      cases marked with
      | marked job now' row unmarked => exact (unmarked (hst job row)).elim
  | parked s now recorded ih => exact ih.trans ⟨rfl, rfl, rfl⟩

/-- What the handler leaves of a job: it is unchanged when it was FAILED, or when the status
update has not taken effect. -/
theorem leaves_unchanged_iff (hl : Leaves s₀ h s fault) (hrow : s₀.findById h.jobId = some job) :
    Unchanged h.jobId s₀ s ↔ job.status = .FAILED ∨ statusKept fault = true := by
  constructor
  · intro hsame
    cases hf : statusKept fault with
    | true => exact .inr rfl
    | false => exact .inl (leaves_failed hl hf (hsame.row.trans hrow))
  · rintro (hst | hf)
    · obtain ⟨pc, hr⟩ := leaves_residue hl
      refine residue_spared hr fun job' hrow' => ?_
      rw [hrow] at hrow'
      cases hrow'
      exact hst
    · rw [leaves_kept hl hf]
      exact ⟨rfl, rfl, rfl⟩

/-- The handler that an attempt on the entry has started. -/
theorem tried_handler {e : Option Err} {t : Thread} (hthreads : v.threads = w.threads ++ [t] ++
      (settle cfg jobId entry e).2)
    (ht : v.threads[w.threads.length + 1]? = some (.handler h)) :
    h.jobId = jobId ∧ h.pc = .marking .rawById ∧ e ≠ none := by
  rw [hthreads, List.getElem?_append_right (by simp)] at ht
  obtain ⟨err, rfl, he⟩ := settle_handler (List.mem_of_getElem? ht)
  cases he
  exact ⟨rfl, rfl, by simp⟩

theorem unchanged_iff_of_unchanged {s₁ s₂ s₃ : Stores} (h : Unchanged jobId s₁ s₂) :
    Unchanged jobId s₁ s₃ ↔ Unchanged jobId s₂ s₃ :=
  ⟨fun h' => ⟨h'.row.trans h.row.symm, h'.events.trans h.events.symm,
    h'.bucket.trans h.bucket.symm⟩, h.trans⟩

/-- A mismatched entry leaves the job alone exactly when the job is FAILED already, or is
found to be deleted, or the handler does not get to its status update. -/
theorem mismatched_entry_unchanged (cfg : ServerConfig) {jobId : String} {w w' : World}
    {job : Job} {entry : Entry} {answered : Bool} {fault : Option Fault}
    (hrow : w.stores.findById jobId = some job) (hq : w.stores.queue jobId = some entry)
    (hne : job.userId ≠ entry.userId) (hh : Handling cfg jobId w answered fault w') :
    Unchanged jobId w.stores w'.stores ↔ spared job answered fault = true := by
  induction hh generalizing entry with
  | completed w v tried alone =>
      obtain ⟨e, he, hsame, -, hthreads⟩ := tried_spec hrow hq hne tried
      -- a live job would have started a handler
      have hdeleted : job.deletedAt.isSome = true := by
        by_contra hlive
        rw [he rfl, mismatchOutcome, if_neg hlive] at hthreads
        simp [hthreads, settle, unrecoverableError] at alone
      exact iff_of_true hsame (by simp [spared, hdeleted])
  | failed w v w' answered fault h tried thread handles =>
      obtain ⟨e, he, hsame, -, hthreads⟩ := tried_spec hrow hq hne tried
      obtain ⟨rfl, hstart, hsome⟩ := tried_handler hthreads thread
      have hl := handles_leaves hstart thread handles
      rw [unchanged_iff_of_unchanged hsame, leaves_unchanged_iff hl (hsame.row.trans hrow)]
      have hlive : (answered && job.deletedAt.isSome) = false := by
        cases answered with
        | false => rfl
        | true =>
            rw [Bool.true_and, ← Bool.not_eq_true]
            exact fun hdeleted => hsome ((he rfl).trans (if_pos hdeleted))
      simp [spared, hlive]
  | retried w v u w' answered fault tried promoted rest ih =>
      obtain ⟨e, he, hsame, hq', -⟩ := tried_spec hrow hq hne tried
      obtain ⟨entry', hq'', -, rfl⟩ := moveEntry_eq_some promoted
      rw [hq'] at hq''
      cases hq''
      have hmoved : Unchanged jobId v.stores (v.stores.run 0 (.setEntry jobId (some
          { (settle cfg jobId { entry with state := .active } e).1 with state := .waiting }))) :=
        ⟨rfl, rfl, rfl⟩
      have hkept := hsame.trans hmoved
      rw [unchanged_iff_of_unchanged hkept]
      have hqueued : (v.stores.run 0 (.setEntry jobId (some
          { (settle cfg jobId { entry with state := .active } e).1 with
            state := .waiting }))).queue jobId =
          some { (settle cfg jobId { entry with state := .active } e).1 with state := .waiting } := by
        simp [Stores.run]
      refine ih (hkept.row.trans hrow) hqueued ?_
      simpa [settle_userId] using hne

/-- A payload of `user-2` for `job-1` is on the queue. -/
def foreignEntry (w : World) : World :=
  { w with stores := w.stores.run 0 (.setEntry "job-1" (some ⟨.waiting, "user-2", 0⟩)) }

/-- The entry is handled with every await answered; the handler takes `n` segments. -/
def handle (cfg : ServerConfig) (w : World) (n : ℕ) : Option (World × Handler × World) :=
  (exec (step cfg) [.pick "job-1", .step w.threads.length {}, .ack w.threads.length] w).bind
    fun v => (handlerAt v (w.threads.length + 1)).bind fun h =>
      (exec (step cfg) (steps (w.threads.length + 1) n {}) v).bind fun w' =>
        (handlerAt w' (w.threads.length + 1)).bind fun h' =>
          if h'.pc = .done then some (v, h, w') else none

theorem handle_handling {n : ℕ} (hh : handle cfg w n = some (v, h, w')) :
    Handling cfg "job-1" w true none w' := by
  obtain ⟨v₁, hv, hh⟩ := Option.bind_eq_some_iff.mp hh
  obtain ⟨h₁, hstart, hh⟩ := Option.bind_eq_some_iff.mp hh
  obtain ⟨w₁, hrun, hh⟩ := Option.bind_eq_some_iff.mp hh
  obtain ⟨h₂, hend, hh⟩ := Option.bind_eq_some_iff.mp hh
  split_ifs at hh with hdone
  cases hh
  exact .failed w v w' true none h ⟨_, .answers {}, hv⟩ (handlerAt_eq hstart)
    (.ended w' h₂ (exec_solo hrun) (handlerAt_eq hend) hdone)

/-- A job that has failed already. -/
theorem mismatched_entry_unchanged_demo : ∃ w w' job entry,
    w.stores.findById "job-1" = some job ∧ w.stores.queue "job-1" = some entry ∧
      job.userId ≠ entry.userId ∧ Handling oneAttempt "job-1" w true none w' ∧
        Unchanged "job-1" w.stores w'.stores := by
  have hend : (exec (step oneAttempt) (failedAttempt ++ [.ack 2] ++ steps 3 4 {})
      World.empty).any (fun w => (w.stores.findById "job-1").any (fun job =>
        job.userId = "user-1" && job.status = .FAILED) &&
          (handle oneAttempt (foreignEntry w) 2).isSome) = true := by
    decide
  obtain ⟨w, -, hp⟩ := (Option.any_eq_true _ _).mp hend
  obtain ⟨hjob, hp⟩ := Bool.and_eq_true_iff.mp hp
  obtain ⟨job, hrow, hjob⟩ := (Option.any_eq_true _ _).mp hjob
  simp only [Bool.and_eq_true, decide_eq_true_eq] at hjob
  obtain ⟨⟨v, h, w'⟩, hh⟩ := Option.isSome_iff_exists.mp hp
  have hrow' : (foreignEntry w).stores.findById "job-1" = some job := hrow
  have hq : (foreignEntry w).stores.queue "job-1" = some ⟨.waiting, "user-2", 0⟩ := by
    simp [foreignEntry, Stores.run]
  have hne : job.userId ≠ (⟨.waiting, "user-2", 0⟩ : Entry).userId := by
    rw [hjob.1]
    decide
  have hhandling := handle_handling hh
  refine ⟨_, w', job, _, hrow', hq, hne, hhandling, ?_⟩
  exact (mismatched_entry_unchanged oneAttempt hrow' hq hne hhandling).mpr (by simp [spared, hjob.2])

/-- A payload of `user-2` makes the READY job of `user-1` FAILED. -/
theorem mismatched_entry_fails_job : ¬ ∀ (cfg : ServerConfig) (jobId : String) (w w' : World)
    (job : Job) (entry : Entry) (answered : Bool) (fault : Option Fault),
      w.stores.findById jobId = some job → w.stores.queue jobId = some entry →
        job.userId ≠ entry.userId → Handling cfg jobId w answered fault w' →
          Unchanged jobId w.stores w'.stores := by
  intro hall
  have hend : (exec (step demo) readySchedule World.empty).any (fun w =>
      (w.stores.findById "job-1").any (fun job => job.userId = "user-1" && job.status = .READY) &&
        (handle demo (foreignEntry w) 4).any fun p =>
          (p.2.2.stores.findById "job-1").any fun job => job.status = .FAILED) = true := by
    decide
  obtain ⟨w, -, hp⟩ := (Option.any_eq_true _ _).mp hend
  obtain ⟨hjob, hp⟩ := Bool.and_eq_true_iff.mp hp
  obtain ⟨job, hrow, hjob⟩ := (Option.any_eq_true _ _).mp hjob
  simp only [Bool.and_eq_true, decide_eq_true_eq] at hjob
  obtain ⟨⟨v, h, w'⟩, hh, hp⟩ := (Option.any_eq_true _ _).mp hp
  obtain ⟨job', hrow', hst⟩ := (Option.any_eq_true _ _).mp hp
  have hq : (foreignEntry w).stores.queue "job-1" = some ⟨.waiting, "user-2", 0⟩ := by
    simp [foreignEntry, Stores.run]
  have hne : job.userId ≠ (⟨.waiting, "user-2", 0⟩ : Entry).userId := by
    rw [hjob.1]
    decide
  have hsame := hall demo "job-1" (foreignEntry w) w' job _ true none hrow hq hne (handle_handling hh)
  have hready : some job' = some job := hrow'.symm.trans (hsame.row.trans hrow)
  cases hready
  rw [hjob.2] at hst
  cases hst

end FieldNote.OwnerMismatch
