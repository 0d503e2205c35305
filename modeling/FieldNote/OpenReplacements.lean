import FieldNote.ThreadSteps

/-!
# Replacements of a report as transactions

`replaceReport` and `replaceReportScoped` are several statements in one transaction. At READ
COMMITTED the transactions of two calls run side by side, and one that commits while another
is open leaves rows that the other's deletes have not seen. Here such a call begins and then
commits or is rolled back, with any steps of the server in between. What it leaves of a tree
that somebody else has committed in the meantime is left open.
-/
namespace FieldNote.OpenReplacements
open JobsService PipelineService ServerRuns GuardedRuns CallPool

/-- The tree that the statement puts in the place of the stored one. -/
def replacement : Write → Option (List ReportSection)
  | .replaceReport sections | .replaceReportScoped _ _ sections => some sections
  | _ => none

/-- An open transaction: the thread that awaits it and what that thread goes on as, the job
and the statement, and whether another transaction of the job has committed since it began. -/
structure Opened where
  thread : ℕ
  next : Thread
  jobId : String
  write : Write
  disturbed : Bool

structure TxWorld where
  server : World
  opened : List Opened

def TxWorld.empty : TxWorld := ⟨.empty, []⟩

inductive TxAction where
  | act (action : Action)
  | start (i : ℕ) (env : Env)
  | commit (i now : ℕ) (merged : List ReportSection)
  | lose (i now : ℕ) (merged : List ReportSection) (error : Err)
  | rollback (i : ℕ) (error : Err)

/-- The transaction that the next segment of thread `i` begins, once its checks have passed. -/
def starting (cfg : ServerConfig) (w : World) (i : ℕ) (env : Env) : Option Opened :=
  w.threads[i]?.bind fun t =>
    match next cfg w env t with
    | some (t', .write jobId wr, _) => (replacement wr).map fun _ => ⟨i, t', jobId, wr, false⟩
    | _ => none

/-- The transaction that thread `i` awaits. -/
def TxWorld.awaited (w : TxWorld) (i : ℕ) : Option Opened := w.opened.find? fun o => o.thread = i

/-- A thread that awaits its transaction takes no other step, and a replacement is no step of
its own. -/
def ready (cfg : ServerConfig) (w : TxWorld) : Action → Bool
  | .step i env | .throw i env _ true =>
      (w.awaited i).isNone && (starting cfg w.server i env).isNone
  | .throw i _ _ false => (w.awaited i).isNone
  | _ => true

/-- What a commit leaves in the row. The owner was checked by the first statement, so a
deletion since then is no obstacle; `merged` is the tree that is left when the transaction was
disturbed. -/
def Opened.commits (o : Opened) (now : ℕ) (merged : List ReportSection) (job : Job) : Job :=
  let written := o.write.apply now { job with deletedAt := none }
  { written with
    deletedAt := job.deletedAt
    sections := if o.disturbed then merged else written.sections }

theorem Opened.commits_id (o : Opened) (now : ℕ) (merged : List ReportSection) (job : Job) :
    (o.commits now merged job).id = job.id := o.write.apply_id now { job with deletedAt := none }

theorem Opened.commits_userId (o : Opened) (now : ℕ) (merged : List ReportSection) (job : Job) :
    (o.commits now merged job).userId = job.userId :=
  o.write.apply_userId now { job with deletedAt := none }

/-- The commit, after which the thread goes on as `t`. The other transactions of the job that
are open are disturbed. -/
def TxWorld.commit (w : TxWorld) (o : Opened) (now : ℕ) (merged : List ReportSection)
    (t : Thread) : TxWorld where
  server :=
    { stores := { w.server.stores with
        jobs := w.server.stores.jobs.update o.jobId (o.commits now merged)
          (o.commits_id now merged) }
      threads := w.server.threads.set o.thread t }
  opened := (w.opened.filter fun p => p.thread ≠ o.thread).map fun p =>
    { p with disturbed := p.disturbed || p.jobId = o.jobId }

/-- What the thread becomes when its transaction fails or its answer is lost. -/
def TxWorld.failing (w : TxWorld) (o : Opened) (e : Err) : Option Thread :=
  w.server.threads[o.thread]?.bind (throwing e)

def txStep (cfg : ServerConfig) (w : TxWorld) : TxAction → Option TxWorld
  | .act a =>
      if ready cfg w a then (step cfg w.server a).map fun server => { w with server := server }
      else none
  | .start i env =>
      if (w.awaited i).isNone then
        (starting cfg w.server i env).map fun o => { w with opened := w.opened ++ [o] }
      else none
  | .commit i now merged => (w.awaited i).map fun o => w.commit o now merged o.next
  | .lose i now merged e =>
      (w.awaited i).bind fun o => (w.failing o e).map fun t => w.commit o now merged t
  | .rollback i e =>
      (w.awaited i).bind fun o => (w.failing o e).map fun t =>
        { server := { w.server with threads := w.server.threads.set i t }
          opened := w.opened.filter fun p => p.thread ≠ i }

/-- Nothing else has replaced the tree since the transaction that the step commits began. -/
def undisturbed (w : TxWorld) : TxAction → Bool
  | .commit i _ _ | .lose i _ _ _ => (w.awaited i).all fun o => !o.disturbed
  | _ => true

/-- Everything one step can do. -/
inductive TxEffect (cfg : ServerConfig) (w : TxWorld) : TxAction → TxWorld → Prop where
  | acted (a : Action) (server : World) (isReady : ready cfg w a = true)
      (stepped : step cfg w.server a = some server) :
      TxEffect cfg w (.act a) { w with server := server }
  | started (i : ℕ) (env : Env) (o : Opened) (free : w.awaited i = none)
      (starts : starting cfg w.server i env = some o) :
      TxEffect cfg w (.start i env) { w with opened := w.opened ++ [o] }
  | committed (i now : ℕ) (merged : List ReportSection) (o : Opened)
      (open_ : w.awaited i = some o) :
      TxEffect cfg w (.commit i now merged) (w.commit o now merged o.next)
  | lost (i now : ℕ) (merged : List ReportSection) (e : Err) (o : Opened) (t : Thread)
      (open_ : w.awaited i = some o) (fails : w.failing o e = some t) :
      TxEffect cfg w (.lose i now merged e) (w.commit o now merged t)
  | rolledBack (i : ℕ) (e : Err) (o : Opened) (t : Thread) (open_ : w.awaited i = some o)
      (fails : w.failing o e = some t) :
      TxEffect cfg w (.rollback i e)
        { server := { w.server with threads := w.server.threads.set i t }
          opened := w.opened.filter fun p => p.thread ≠ i }

variable {cfg : ServerConfig} {w w' : TxWorld} {env : Env} {i : ℕ} {o : Opened} {t : Thread}

theorem tx_effect {a : TxAction} (hs : txStep cfg w a = some w') : TxEffect cfg w a w' := by
  cases a with
  | act a =>
      simp only [txStep] at hs
      split_ifs at hs with hready
      obtain ⟨server, hstep, rfl⟩ := Option.map_eq_some_iff.mp hs
      exact .acted a server hready hstep
  | start i env =>
      simp only [txStep] at hs
      split_ifs at hs with hfree
      obtain ⟨o, ho, rfl⟩ := Option.map_eq_some_iff.mp hs
      exact .started i env o (Option.isNone_iff_eq_none.mp hfree) ho
  | commit i now merged =>
      obtain ⟨o, ho, rfl⟩ := Option.map_eq_some_iff.mp hs
      exact .committed i now merged o ho
  | lose i now merged e =>
      obtain ⟨o, ho, hs⟩ := Option.bind_eq_some_iff.mp hs
      obtain ⟨t, ht, rfl⟩ := Option.map_eq_some_iff.mp hs
      exact .lost i now merged e o t ho ht
  | rollback i e =>
      obtain ⟨o, ho, hs⟩ := Option.bind_eq_some_iff.mp hs
      obtain ⟨t, ht, rfl⟩ := Option.map_eq_some_iff.mp hs
      exact .rolledBack i e o t ho ht

/-! ## Threads and their transactions -/

/-- A PATCH at its commit or a compile body at its last write, and the transaction it awaits. -/
inductive Awaits : Thread → Opened → Prop where
  | patch (c : UpdateCall) (i : ℕ) (label : Option String) (rows : List ReportSection)
      (disturbed : Bool) (pc : c.pc = .commit) :
      Awaits (.update c) ⟨i, .update { c with pc := .findOne }, c.jobId,
        .replaceReportScoped c.userId label rows, disturbed⟩
  | compile (b : Body) (i : ℕ) (sections : List ReportSectionInput) (rows : List ReportSection)
      (disturbed : Bool) (pc : b.pc = .replaceReport sections) :
      Awaits (.body b) ⟨i, .body { b with pc := .done (.ok { sections := sections }) }, b.jobId,
        .replaceReport rows, disturbed⟩

theorem awaited_mem (h : w.awaited i = some o) : o ∈ w.opened ∧ o.thread = i :=
  ⟨List.mem_of_find?_eq_some h, by simpa using List.find?_some h⟩

theorem starting_awaits {s : World} (h : starting cfg s i env = some o) :
    ∃ t, s.threads[i]? = some t ∧ Awaits t o ∧ o.thread = i ∧ o.disturbed = false ∧
      Issues s env t (.write o.jobId o.write) := by
  obtain ⟨t, ht, h⟩ := Option.bind_eq_some_iff.mp h
  refine ⟨t, ht, ?_⟩
  split at h
  · rename_i t' jobId wr spawned hn
    obtain ⟨rows, hrows, rfl⟩ := Option.map_eq_some_iff.mp h
    refine ⟨?_, rfl, rfl, next_issues hn⟩
    cases next_operates hn with
    | update c wr pc write =>
        simp only [next, nextUpdate, pc, write, Option.map_some, Option.some.injEq,
          Prod.mk.injEq] at hn
        obtain ⟨rfl, -⟩ := hn
        rcases updateWrite_cases write with ⟨label, rfl⟩ | ⟨label, rows', rfl⟩
        · cases hrows
        · exact .patch c i label rows' false pc
    | report b sections pc =>
        simp only [next, nextBody, pc, Option.map_some, Option.some.injEq, Prod.mk.injEq] at hn
        obtain ⟨rfl, -⟩ := hn
        exact .compile b i sections _ false pc
    | _ => cases hrows
  · cases h

/-- The row of the job is that of the user whose ownership has been checked. -/
def OwnerChecked (s : Stores) (o : Opened) : Prop :=
  ∀ userId label rows, o.write = .replaceReportScoped userId label rows →
    ∃ job, s.findById o.jobId = some job ∧ job.userId = userId

/-- Every open transaction is awaited by its thread and has passed its check. -/
def Awaiting (w : TxWorld) : Prop :=
  ∀ o ∈ w.opened, (∃ t, w.server.threads[o.thread]? = some t ∧ Awaits t o) ∧
    OwnerChecked w.server.stores o

theorem starting_checked {s : World} (h : starting cfg s i env = some o) :
    OwnerChecked s.stores o := by
  obtain ⟨t, -, -, -, -, hissues⟩ := starting_awaits h
  rintro userId label rows hwrite
  obtain ⟨k, next, jobId, wr, disturbed⟩ := o
  dsimp only at hwrite hissues
  subst hwrite
  cases hissues with
  | update c wr pc write =>
      obtain ⟨rfl, row, hrow⟩ := updateWrite_scoped write
      obtain ⟨hrow, huser, -⟩ := Stores.findScoped_eq_some.mp hrow
      exact ⟨row, hrow, huser⟩
  | aside t op aside => cases aside

theorem OwnerChecked.mono {s s' : Stores} (h : OwnerChecked s o)
    (hrows : ∀ id job, s.findById id = some job →
      ∃ job', s'.findById id = some job' ∧ job'.userId = job.userId) : OwnerChecked s' o := by
  intro userId label rows hwrite
  obtain ⟨job, hjob, huser⟩ := h userId label rows hwrite
  obtain ⟨job', hjob', huser'⟩ := hrows _ job hjob
  exact ⟨job', hjob', huser'.trans huser⟩

/-- The rows after a commit. -/
theorem commit_findById (now : ℕ) (merged : List ReportSection) (id : String) :
    (w.commit o now merged t).server.stores.findById id =
      if id = o.jobId then (w.server.stores.findById id).map (o.commits now merged)
      else w.server.stores.findById id :=
  Table.findUnique_update _ _ _ _ (o.commits_id now merged)

/-- No step takes a row away or gives it another owner. -/
theorem tx_row {a : TxAction} (hs : txStep cfg w a = some w') {id : String} {job : Job}
    (hjob : w.server.stores.findById id = some job) :
    ∃ job', w'.server.stores.findById id = some job' ∧ job'.userId = job.userId := by
  have hcommit (o : Opened) (now : ℕ) (merged : List ReportSection) (t : Thread) :
      ∃ job', (w.commit o now merged t).server.stores.findById id = some job' ∧
        job'.userId = job.userId := by
    rw [commit_findById, hjob]
    split_ifs
    · exact ⟨_, rfl, o.commits_userId now merged job⟩
    · exact ⟨job, rfl, rfl⟩
  cases tx_effect hs with
  | acted a server isReady stepped =>
      cases step_shape stepped with
      | thread i now t t' op spawned at_ acts => exact Stores.run_row_some now op hjob
      | outside op new acts => exact Stores.run_row_some 0 op hjob
  | started i env o free starts => exact ⟨job, hjob, rfl⟩
  | committed i now merged o open_ => exact hcommit o now merged o.next
  | lost i now merged e o t open_ fails => exact hcommit o now merged t
  | rolledBack i e o t open_ fails => exact ⟨job, hjob, rfl⟩

/-- A step of the server leaves a thread alone that awaits its transaction. -/
theorem step_awaiting {a : Action} {server : World} (hready : ready cfg w a = true)
    (hs : step cfg w.server a = some server) (ho : o ∈ w.opened)
    (ht : w.server.threads[o.thread]? = some t) (hawaits : Awaits t o) :
    server.threads[o.thread]? = some t := by
  have hother {i : ℕ} (hnone : w.awaited i = none) : o.thread ≠ i := by
    simpa using List.find?_eq_none.mp hnone o ho
  cases step_shape hs with
  | thread i now t₀ t' op spawned at_ acts =>
      refine getElem?_advance_other ?_ ht
      rintro rfl
      rw [ht] at at_
      cases at_
      cases acts with
      | stepped env t t' op spawned next =>
          simp only [ready, Bool.and_eq_true, Option.isNone_iff_eq_none] at hready
          exact hother hready.1 rfl
      | threw env e t t' throws =>
          simp only [ready, Option.isNone_iff_eq_none] at hready
          exact hother hready rfl
      | lost env e t t' t₁ op spawned throws next =>
          simp only [ready, Bool.and_eq_true, Option.isNone_iff_eq_none] at hready
          exact hother hready.1 rfl
      | timedOut t t' out =>
          obtain ⟨a, work, body, rfl, -⟩ := timingOut_eq out
          cases hawaits
      | acked a e entry pc queued => cases hawaits
  | outside op new acts => exact (List.getElem?_append_left (lt_of_getElem? ht)).trans ht

theorem Awaits.disturb (h : Awaits t o) (disturbed : Bool) :
    Awaits t { o with disturbed := disturbed } := by
  cases h with
  | patch c i label rows _ pc => exact .patch c i label rows disturbed pc
  | compile b i sections rows _ pc => exact .compile b i sections rows disturbed pc

theorem awaiting_empty : Awaiting TxWorld.empty := by
  intro o ho
  cases ho

theorem awaiting_step {a : TxAction} (h : Awaiting w) (hs : txStep cfg w a = some w') :
    Awaiting w' := by
  have hchecked (p : Opened) (hp : p ∈ w.opened) : OwnerChecked w'.server.stores p :=
    (h p hp).2.mono fun _ _ => tx_row hs
  -- the transactions of the threads other than `i` stay, disturbed or not
  have hset (i : ℕ) (t' : Thread) (p : Opened) (hp : p ∈ w.opened) (hne : p.thread ≠ i) :
      ∃ t, (w.server.threads.set i t')[p.thread]? = some t ∧ Awaits t p := by
    obtain ⟨t, ht, hawaits⟩ := (h p hp).1
    exact ⟨t, (getElem?_set_other hne).trans ht, hawaits⟩
  have hcommit (o : Opened) (now : ℕ) (merged : List ReportSection) (t' : Thread)
      (heq : w' = w.commit o now merged t') : Awaiting w' := by
    subst heq
    intro q hq
    obtain ⟨q₀, hq₀, rfl⟩ := List.mem_map.mp hq
    obtain ⟨hq₀, hne⟩ := List.mem_filter.mp hq₀
    obtain ⟨t, ht, hawaits⟩ := hset o.thread t' q₀ hq₀ (by simpa using hne)
    exact ⟨⟨t, ht, hawaits.disturb _⟩, hchecked q₀ hq₀⟩
  cases tx_effect hs with
  | acted a server isReady stepped =>
      intro o ho
      obtain ⟨t, ht, hawaits⟩ := (h o ho).1
      exact ⟨⟨t, step_awaiting isReady stepped ho ht hawaits, hawaits⟩, hchecked o ho⟩
  | started i env o free starts =>
      intro p hp
      rcases List.mem_append.mp hp with hold | hnew
      · exact h p hold
      · rw [List.mem_singleton.mp hnew]
        obtain ⟨t, ht, hawaits, rfl, -⟩ := starting_awaits starts
        exact ⟨⟨t, ht, hawaits⟩, starting_checked starts⟩
  | committed i now merged o open_ => exact hcommit o now merged o.next rfl
  | lost i now merged e o t open_ fails => exact hcommit o now merged t rfl
  | rolledBack i e o t open_ fails =>
      intro p hp
      obtain ⟨hp, hne⟩ := List.mem_filter.mp hp
      exact ⟨hset i t p hp (by simpa using hne), hchecked p hp⟩

/-! ## One at a time -/

theorem Opened.commits_eq {job : Job} {now : ℕ} {merged : List ReportSection}
    (hundisturbed : o.disturbed = false)
    (hscope : ∀ userId label rows, o.write = .replaceReportScoped userId label rows →
      job.inScope userId = true) (hwrite : (replacement o.write).isSome = true) :
    o.commits now merged job = o.write.apply now job := by
  obtain ⟨i, next, jobId, wr, disturbed⟩ := o
  dsimp only at *
  subst hundisturbed
  cases wr with
  | replaceReport rows => rfl
  | replaceReportScoped userId label rows =>
      have hin := hscope userId label rows rfl
      have hin' : ({ job with deletedAt := none } : Job).inScope userId = true := by
        simpa [Job.inScope] using (Bool.and_eq_true_iff.mp hin).1
      simp only [Opened.commits, Write.apply, if_pos hin, if_pos hin', Bool.false_eq_true,
        if_false]
  | _ => cases hwrite

/-- A commit right after the beginning does what the server's one step does. -/
theorem commit_starting {s : World} {t' : Thread} {op : Op} {spawned : List Thread}
    (hstart : starting cfg s i env = some o) (ht : s.threads[i]? = some t)
    (hn : next cfg s env t = some (t', op, spawned)) :
    o.next = t' ∧ spawned = [] ∧
      ∀ t₁, (⟨s, [o]⟩ : TxWorld).commit o env.now [] t₁ = ⟨s.advance env.now i t₁ op [], []⟩ := by
  simp only [starting, ht, Option.bind_some, hn] at hstart
  split at hstart
  · rename_i t'' jobId wr spawned' heq
    cases heq
    obtain ⟨rows, hrows, rfl⟩ := Option.map_eq_some_iff.mp hstart
    refine ⟨rfl, ?_, ?_⟩
    · cases next_segment hn with
      | attempt a pc op hn' =>
          have hoperates : Operates s env (.attempt a) (.write jobId wr) :=
            nextAttempt_operates hn'
          generalize hwrite : replacement wr = tree at hrows
          cases hoperates <;> cases hwrite <;> cases hrows
      | _ => rfl
    · have hjobs : s.stores.jobs.update jobId
            (Opened.commits ⟨i, t', jobId, wr, false⟩ env.now [])
            (Opened.commits_id ⟨i, t', jobId, wr, false⟩ env.now []) =
          s.stores.jobs.update jobId (fun job => wr.apply env.now job)
            fun job => wr.apply_id env.now job := by
        refine Table.update_congr _ _ fun job hjob => Opened.commits_eq rfl ?_ (by simp [hrows])
        rintro userId label rows' rfl
        cases next_issues hn with
        | update c wr pc write =>
            obtain ⟨rfl, row, hrow⟩ := updateWrite_scoped write
            obtain ⟨hrow, huser, hlive⟩ := Stores.findScoped_eq_some.mp hrow
            rw [show s.stores.findById c.jobId = some job from hjob] at hrow
            cases hrow
            simp [Job.inScope, huser, hlive]
        | aside t op aside => cases aside
      intro t₁
      simp [TxWorld.commit, World.advance, Stores.run, hjobs]
  · cases hstart

/-- A step of the server in which replacements are atomic is made of these. -/
theorem run_step {ok : TxWorld → TxAction → Prop} {s s' : World} {a : Action}
    (hact : ok ⟨s, []⟩ (.act a))
    (htx : ∀ u b, (∀ a, b ≠ .act a) → undisturbed u b = true → ok u b)
    (hs : step cfg s a = some s') : Run (txStep cfg) ok ⟨s, []⟩ ⟨s', []⟩ := by
  cases hready : ready cfg ⟨s, []⟩ a with
  | true =>
      apply Run.single hact
      simp [txStep, hready, hs]
  | false =>
      have hstart {i : ℕ} {env : Env} {o : Opened} (ho : starting cfg s i env = some o) :
          Run (txStep cfg) ok ⟨s, []⟩ ⟨s, [o]⟩ := by
        apply Run.single (htx _ (.start i env) (by simp) rfl)
        simp [txStep, TxWorld.awaited, ho]
      have hawaited {i : ℕ} {env : Env} {o : Opened} (ho : starting cfg s i env = some o) :
          (⟨s, [o]⟩ : TxWorld).awaited i = some o ∧ o.disturbed = false := by
        obtain ⟨t, -, -, hthread, hclean, -⟩ := starting_awaits ho
        exact ⟨by simp [TxWorld.awaited, hthread], hclean⟩
      cases step_effect hs with
      | stepped i env t t' op spawned thread next =>
          obtain ⟨o, ho⟩ : ∃ o, starting cfg s i env = some o := by
            simpa [ready, TxWorld.awaited, Option.isSome_iff_exists] using hready
          obtain ⟨hopen, hclean⟩ := hawaited ho
          obtain ⟨rfl, rfl, hcommit⟩ := commit_starting ho thread next
          refine (hstart ho).tail (htx _ (.commit i env.now []) (by simp) ?_) ?_
          · simp [undisturbed, hopen, hclean]
          · simp [txStep, hopen, hcommit]
      | lost i env e t t' t₁ op spawned thread throws next =>
          obtain ⟨o, ho⟩ : ∃ o, starting cfg s i env = some o := by
            simpa [ready, TxWorld.awaited, Option.isSome_iff_exists] using hready
          obtain ⟨hopen, hclean⟩ := hawaited ho
          obtain ⟨-, -, hcommit⟩ := commit_starting ho thread next
          have hthread : o.thread = i := (awaited_mem hopen).2
          refine (hstart ho).tail (htx _ (.lose i env.now [] e) (by simp) ?_) ?_
          · simp [undisturbed, hopen, hclean]
          · simp [txStep, hopen, TxWorld.failing, hthread, thread, throws, hcommit]
      | _ => simp [ready, TxWorld.awaited] at hready

/-- A run of the server in which replacements are atomic is a run in which no transaction is
disturbed. -/
theorem run_lift {ok : World → Action → Prop} {ok' : TxWorld → TxAction → Prop} {s s' : World}
    (hact : ∀ s a, ok s a → ok' ⟨s, []⟩ (.act a))
    (htx : ∀ u b, (∀ a, b ≠ .act a) → undisturbed u b = true → ok' u b)
    (h : Run (step cfg) ok s s') : Run (txStep cfg) ok' ⟨s, []⟩ ⟨s', []⟩ := by
  induction h with
  | refl => exact Run.refl _
  | tail _ hmove ih =>
      obtain ⟨a, ha, hs⟩ := hmove
      exact ih.trans (run_step (hact _ _ ha) htx hs)

theorem run_lift_any {s s' : World} (h : Run (step cfg) anyStep s s') :
    Run (txStep cfg) anyStep ⟨s, []⟩ ⟨s', []⟩ :=
  run_lift (fun _ _ _ => trivial) (fun _ _ _ _ => trivial) h

end FieldNote.OpenReplacements
