import FieldNote.OpenReplacements

/-!
# When a report edit survives the pipeline

An attempt decides to compile when it reads an empty tree, and the compile body replaces
the tree many awaits later, whatever the row holds by then. A thread that has so decided
and not yet committed may compile. When a PATCH commits a tree of a job for which no thread
may compile, no other transaction of the job having committed in between, and no later attempt
starts from an empty tree, the tree stays until the next PATCH.
-/
namespace FieldNote.EditPreservation
open JobsService PipelineService ServerRuns GuardedRuns CallPool OpenReplacements

/-- The stage leads to a compile whose body has not been started: `compileStage` is entered
only with an empty tree. -/
def compilesAfter : Work → Bool
  | .transcribe job => job.existing = []
  | _ => false

def compilesFrom : Work → Bool
  | .compile _ _ => true
  | work => compilesAfter work

def failed : Option (Except Err StageResult) → Bool
  | some (.error _) => true
  | _ => false

def attemptCompiles (w : World) : AttemptPc → Bool
  | .setStatus work | .addStarted work => compilesFrom work
  | .racing work body => compilesAfter work && !failed (w.bodyResult body)
  | .addCompleted work _ => compilesAfter work
  | _ => false

def bodyCompiles : BodyPc → Bool
  | .compile _ _ | .replaceReport _ => true
  | _ => false

/-- The thread may still replace the tree of the job with a compiled report. -/
def mayCompile (w : World) (jobId : String) : Thread → Bool
  | .attempt a => a.jobId = jobId && attemptCompiles w a.pc
  | .body b => b.jobId = jobId && bodyCompiles b.pc
  | _ => false

/-- The attempt is about to read a row from which it goes on to compile. -/
def startsCompile (w : World) (jobId : String) : Thread → Bool
  | .attempt a =>
      a.jobId = jobId && a.pc = .findById &&
        match w.stores.findById jobId with
        | some job =>
            job.deletedAt.isNone && job.userId = a.userId && job.status ≠ .READY &&
              (job.audioKey.filter (· ≠ "")).isSome && job.sections = []
        | none => false
  | _ => false

/-- The job and the tree that a PATCH commits in this step; its response may be lost. -/
def patchedTree (w : TxWorld) : TxAction → Option (String × List ReportSection)
  | .commit i _ _ | .lose i _ _ _ =>
      (w.awaited i).bind fun o =>
        match o.write with
        | .replaceReportScoped _ _ rows => some (o.jobId, rows)
        | _ => none
  | _ => none

/-- The step is not a PATCH of the job that commits a tree. -/
def NoPatch (jobId : String) (w : TxWorld) (a : TxAction) : Prop :=
  ∀ p, patchedTree w a = some p → p.1 ≠ jobId

/-- No attempt starts from an empty tree in this step. -/
def startsFull (jobId : String) (w : TxWorld) : TxAction → Bool
  | .act (.step i _) => w.server.threads[i]?.all fun t => !startsCompile w.server jobId t
  | _ => true

def Guard (jobId : String) (w : TxWorld) (a : TxAction) : Prop :=
  NoPatch jobId w a ∧ startsFull jobId w a = true

instance (jobId : String) : DecidableRel (NoPatch jobId) := fun w a =>
  decidable_of_iff ((patchedTree w a).all (fun p => p.1 ≠ jobId) = true)
    (by simp [NoPatch, Option.all_eq_true])

instance (jobId : String) : DecidableRel (Guard jobId) :=
  fun _ _ => inferInstanceAs (Decidable (_ ∧ _))

variable {cfg : ServerConfig} {w w' : World} {env : Env} {jobId : String}

/-- Another world in which the failed bodies have still failed asks no more of a thread. -/
theorem mayCompile_mono {t : Thread}
    (hfinal : ∀ k r, w.bodyResult k = some r → w'.bodyResult k = some r)
    (h : mayCompile w' jobId t = true) : mayCompile w jobId t = true := by
  cases t with
  | attempt a =>
      simp only [mayCompile, Bool.and_eq_true] at h ⊢
      refine ⟨h.1, ?_⟩
      have hc := h.2
      cases hpc : a.pc with
      | racing work body =>
          simp only [hpc, attemptCompiles, Bool.and_eq_true, Bool.not_eq_true'] at hc ⊢
          refine ⟨hc.1, ?_⟩
          cases hr : w.bodyResult body with
          | none => rfl
          | some r =>
              rw [hfinal body r hr] at hc
              exact hc.2
      | _ =>
          rw [hpc] at hc
          exact hc
  | _ => exact h

theorem starts_compiles {job : Snapshot} {work : Work} (h : Starts job work)
    (hc : compilesFrom work = true) : job.existing = [] := by
  cases h with
  | transcribe => simpa [compilesFrom, compilesAfter] using hc
  | compile transcript empty => exact empty
  | render full => simp [compilesFrom, compilesAfter] at hc

theorem afterFindById_compiles {a : Attempt} (hpc : a.pc = .findById)
    (h : attemptCompiles w (afterFindById a.jobId a.userId (w.stores.findById a.jobId)) = true) :
    startsCompile w a.jobId (.attempt a) = true := by
  rcases afterFindById_cases a.jobId a.userId (w.stores.findById a.jobId) with
    ⟨e, he⟩ | ⟨job, key, work, hrow, hlive, huser, hst, hkey, he, hstarts⟩
  · rw [he] at h
    cases h
  · rw [he] at h
    have hempty : job.sections = [] := reportOf_eq_nil.mp (starts_compiles hstarts h)
    simp only [startsCompile, hpc, hrow, hlive, huser, hkey, hempty]
    simp [hst]

/-- A decision to compile is carried from stage to stage. -/
theorem nextAttempt_compiles {a : Attempt} {pc : AttemptPc} {op : Op}
    (h : nextAttempt w.stores a w.threads.length w.bodyResult = some (pc, op))
    (hc : attemptCompiles w pc = true) :
    attemptCompiles w a.pc = true ∨ startsCompile w a.jobId (.attempt a) = true := by
  unfold nextAttempt at h
  split at h
  · rename_i hpc
    cases h
    exact .inr (afterFindById_compiles hpc hc)
  · rename_i work hpc
    cases h
    rw [hpc]
    exact .inl hc
  · rename_i work hpc
    cases h
    rw [hpc]
    cases work with
    | transcribe job =>
        simp only [attemptCompiles, Bool.and_eq_true] at hc
        exact .inl hc.1
    | _ => cases hc
  · rename_i work body hpc
    split at h
    · cases h
    · rename_i result hr
      cases h
      rw [hpc]
      simp only [attemptCompiles] at hc
      exact .inl (by simp [attemptCompiles, hc, hr, failed])
    · cases h
      cases hc
  · rename_i work result hpc
    cases h
    rw [hpc]
    cases work with
    | transcribe job =>
        obtain ⟨work', hw, hstarts⟩ := compileStage_starts job result.transcript
        simp only [afterStage, hw] at hc
        exact .inl (by simp [attemptCompiles, compilesAfter, starts_compiles hstarts hc])
    | _ => cases hc
  · rename_i work e hpc
    cases h
    unfold afterThrow at hc
    split_ifs at hc <;> cases hc
  · split at h <;> cases h <;> cases hc
  · cases h
  · cases h

theorem nextBody_compiles {b : Body} {pc : BodyPc} {op : Op}
    (h : nextBody w.stores env b = some (pc, op)) (hc : bodyCompiles pc = true) :
    bodyCompiles b.pc = true := by
  unfold nextBody at h
  split at h
  · split_ifs at h <;> cases h <;> cases hc
  · split_ifs at h <;> cases h <;> cases hc
  · cases h
    cases hc
  · rename_i hpc
    rw [hpc]
    rfl
  · rename_i hpc
    rw [hpc]
    rfl
  · cases h
    cases hc
  · cases h
    cases hc
  · cases h
    cases hc
  · cases h

theorem spawn_compiles {a : Attempt} {now : ℕ} {t : Thread} (ht : t ∈ Attempt.spawn a now)
    (hm : mayCompile w jobId t = true) : mayCompile w jobId (.attempt a) = true := by
  unfold Attempt.spawn at ht
  split at ht
  · rename_i work hpc
    rw [List.mem_singleton.mp ht] at hm
    simp only [mayCompile, Bool.and_eq_true] at hm ⊢
    refine ⟨hm.1, ?_⟩
    rw [hpc]
    cases work with
    | compile job transcript => rfl
    | _ => cases hm.2
  · cases ht

/-- Only a read of an empty tree makes a thread compile that was not going to. -/
theorem next_compiles {t t' t₁ : Thread} {op : Op} {spawned : List Thread}
    (h : next cfg w env t = some (t', op, spawned)) (ht₁ : t₁ = t' ∨ t₁ ∈ spawned)
    (hm : mayCompile w jobId t₁ = true) :
    mayCompile w jobId t = true ∨ startsCompile w jobId t = true := by
  cases next_segment h with
  | attempt a pc op hn =>
      rcases ht₁ with rfl | hsp
      · simp only [mayCompile, Bool.and_eq_true, decide_eq_true_eq] at hm
        obtain ⟨rfl, hc⟩ := hm
        exact (nextAttempt_compiles hn hc).imp_left fun hc => by simp [mayCompile, hc]
      · exact .inl (spawn_compiles hsp hm)
  | body b pc op hn =>
      rcases ht₁ with rfl | hsp
      · simp only [mayCompile, Bool.and_eq_true] at hm
        exact .inl (by simp [mayCompile, hm.1, nextBody_compiles hn hm.2])
      · cases hsp
  | _ =>
      rcases ht₁ with rfl | hsp
      · cases hm
      · cases hsp

theorem throwing_compiles {t t' : Thread} {e : Err} (h : throwing e t = some t') :
    mayCompile w jobId t' = false := by
  cases throwing_cases h with
  | leaving a =>
      unfold afterThrow
      split_ifs <;> simp [mayCompile, attemptCompiles]
  | failing a => simp [mayCompile, attemptCompiles]
  | settling a => simp [mayCompile, attemptCompiles]
  | body b => simp [mayCompile, bodyCompiles]
  | _ => rfl

theorem settle_compiles {id : String} {entry : Entry} {e : Option Err} {t : Thread}
    (ht : t ∈ (settle cfg id entry e).2) : mayCompile w jobId t = false := by
  unfold settle at ht
  split at ht
  · cases ht
  · dsimp only at ht
    split_ifs at ht
    · rw [List.mem_singleton.mp ht]
      rfl
    · cases ht

theorem timingOut_compiles {t t' : Thread} (h : timingOut cfg t = some t') :
    mayCompile w jobId t' = false := by
  unfold timingOut at h
  split at h
  · split at h <;> cases h
    simp [mayCompile, attemptCompiles]
  · cases h

def NoneCompiles (w : World) (jobId : String) : Prop :=
  ∀ t ∈ w.threads, mayCompile w jobId t = false

/-- It is enough to judge the new threads in the old world. -/
theorem noneCompiles_of (hfinal : ∀ k r, w.bodyResult k = some r → w'.bodyResult k = some r)
    (hold : ∀ t ∈ w'.threads, mayCompile w jobId t = false) : NoneCompiles w' jobId := by
  intro t ht
  by_contra hc
  have hc' := mayCompile_mono hfinal (Bool.not_eq_false _ ▸ hc)
  rw [hold t ht] at hc'
  cases hc'

/-- Without a pending compile and a read of an empty tree no compile becomes pending. -/
theorem noneCompiles_step {a : Action} (h : NoneCompiles w jobId)
    (hstart : ∀ i env t, a = .step i env → w.threads[i]? = some t →
      startsCompile w jobId t = false) (hs : step cfg w a = some w') :
    NoneCompiles w' jobId := by
  apply noneCompiles_of fun _ _ => bodyResult_final hs
  have happend : ∀ new : List Thread, (∀ t ∈ new, mayCompile w jobId t = false) →
      ∀ t ∈ w.threads ++ new, mayCompile w jobId t = false := by
    intro new hnew t ht
    exact (List.mem_append.mp ht).elim (h t) (hnew t)
  have hadvance : ∀ now i t' op spawned, mayCompile w jobId t' = false →
      (∀ t ∈ spawned, mayCompile w jobId t = false) →
        ∀ t ∈ (w.advance now i t' op spawned).threads, mayCompile w jobId t = false := by
    intro now i t' op spawned ht' hsp t ht
    rcases mem_advance ht with ht | rfl | ht
    · exact h t ht
    · exact ht'
    · exact hsp t ht
  cases step_effect hs with
  | called request =>
      refine happend _ fun t ht => ?_
      rw [List.mem_singleton.mp ht]
      cases request <;> rfl
  | stepped i env t t' op spawned thread next =>
      have hnew : ∀ t₁, t₁ = t' ∨ t₁ ∈ spawned → mayCompile w jobId t₁ = false := by
        intro t₁ ht₁
        by_contra hc
        rcases next_compiles next ht₁ (Bool.not_eq_false _ ▸ hc) with hold | hst
        · rw [h t (List.mem_of_getElem? thread)] at hold
          cases hold
        · rw [hstart i env t rfl thread] at hst
          cases hst
      exact hadvance _ _ _ _ _ (hnew t' (.inl rfl)) fun t₁ ht₁ => hnew t₁ (.inr ht₁)
  | threw i env e t t' thread throws =>
      exact hadvance _ _ _ _ _ (throwing_compiles throws) (by simp)
  | lost i env e t t' t₁ op spawned thread throws next =>
      exact hadvance _ _ _ _ _ (throwing_compiles throws) (by simp)
  | timedOut i t t' thread out =>
      exact hadvance _ _ _ _ _ (timingOut_compiles out) (by simp)
  | acked i a e entry thread pc queued =>
      exact hadvance _ _ _ _ _ (by simp [mayCompile, attemptCompiles]) fun _ => settle_compiles
  | picked id entry queued waiting =>
      refine happend _ fun t ht => ?_
      rw [List.mem_singleton.mp ht]
      simp [mayCompile, attemptCompiles]
  | promoted id entry queued delayed => exact happend _ (by simp)
  | purged id entry queued completed => exact happend _ (by simp)
  | uploaded userId id bytes => exact h

def Holds (s : Stores) (jobId : String) (rows : List ReportSection) : Prop :=
  ∃ job, s.findById jobId = some job ∧ job.sections = rows

/-- The tree stays where the operation stores none on the job. -/
theorem holds_run {s : Stores} {now : ℕ} {op : Op} {rows : List ReportSection}
    (h : Holds s jobId rows) (hop : ∀ wr, op = .write jobId wr → replacement wr = none) :
    Holds (s.run now op) jobId rows := by
  obtain ⟨job, hjob, hrows⟩ := h
  rcases Stores.run_row_after now op hjob with hkept | ⟨wr, hwrite, hwritten⟩
  · exact ⟨job, hkept, hrows⟩
  · refine ⟨_, hwritten, ?_⟩
    have hnone := hop wr hwrite
    rw [wr.apply_sections]
    cases wr with
    | replaceReport rows' => cases hnone
    | replaceReportScoped userId label rows' => cases hnone
    | _ => exact hrows

section Transactions

variable {u u' : TxWorld} {rows : List ReportSection} {o : Opened} {t : Thread}

/-- A step of the server by itself replaces no tree. -/
theorem holds_act {a : Action} (h : Holds u.server.stores jobId rows)
    (hready : ready cfg u a = true) (hs : step cfg u.server a = some w') :
    Holds w'.stores jobId rows := by
  have hnext {i : ℕ} {env : Env} {t t' : Thread} {op : Op} {spawned : List Thread}
      (hi : u.server.threads[i]? = some t) (hn : next cfg u.server env t = some (t', op, spawned))
      (hnone : starting cfg u.server i env = none) :
      ∀ wr, op = .write jobId wr → replacement wr = none := by
    rintro wr rfl
    simpa [starting, hi, hn] using hnone
  cases step_shape hs with
  | thread i now t t' op spawned at_ acts =>
      apply holds_run h
      cases acts with
      | stepped env t t' op spawned next =>
          simp only [ready, Bool.and_eq_true, Option.isNone_iff_eq_none] at hready
          exact hnext at_ next hready.2
      | lost env e t t' t₁ op spawned throws next =>
          simp only [ready, Bool.and_eq_true, Option.isNone_iff_eq_none] at hready
          exact hnext at_ next hready.2
      | _ => simp
  | outside op new acts =>
      apply holds_run h
      rintro wr rfl
      cases acts

/-- The transaction of a PATCH, as it commits. -/
theorem patchedTree_eq_some {a : TxAction} (h : patchedTree u a = some (jobId, rows))
    (hs : txStep cfg u a = some u') :
    ∃ i o now merged t userId label, u.awaited i = some o ∧ o.jobId = jobId ∧
      o.write = .replaceReportScoped userId label rows ∧ u' = u.commit o now merged t ∧
      (undisturbed u a = true → o.disturbed = false) := by
  have hwrite {i : ℕ} (hp : (u.awaited i).bind (fun o =>
      match o.write with
      | .replaceReportScoped _ _ rows => some (o.jobId, rows)
      | _ => none) = some (jobId, rows)) (o : Opened) (ho : u.awaited i = some o) :
      o.jobId = jobId ∧ ∃ userId label, o.write = .replaceReportScoped userId label rows := by
    rw [ho, Option.bind_some] at hp
    split at hp
    · rename_i hw
      cases hp
      exact ⟨rfl, _, _, hw⟩
    · cases hp
  cases tx_effect hs with
  | committed i now merged o open_ =>
      obtain ⟨hjob, userId, label, hw⟩ := hwrite h o open_
      exact ⟨i, o, now, merged, o.next, userId, label, open_, hjob, hw, rfl,
        by simp [undisturbed, open_]⟩
  | lost i now merged e o t open_ fails =>
      obtain ⟨hjob, userId, label, hw⟩ := hwrite h o open_
      exact ⟨i, o, now, merged, t, userId, label, open_, hjob, hw, rfl,
        by simp [undisturbed, open_]⟩
  | _ => cases h

/-- A commit that nothing has disturbed leaves its tree in the row. -/
theorem holds_committed {a : TxAction} (hawaiting : Awaiting u)
    (hp : patchedTree u a = some (jobId, rows)) (hu : undisturbed u a = true)
    (hs : txStep cfg u a = some u') : Holds u'.server.stores jobId rows := by
  obtain ⟨i, o, now, merged, t, userId, label, ho, rfl, hw, rfl, hclean⟩ :=
    patchedTree_eq_some hp hs
  obtain ⟨job, hjob, huser⟩ := (hawaiting o (awaited_mem ho).1).2 userId label rows hw
  refine ⟨o.commits now merged job, by rw [commit_findById, if_pos rfl, hjob, Option.map_some], ?_⟩
  simp [Opened.commits, hclean hu, hw, Write.apply, Job.inScope, huser]

/-- Where no thread may compile, the open transactions of the job are PATCHes. -/
theorem awaits_patch (hnone : NoneCompiles u.server jobId) (h : Awaits t o)
    (ht : t ∈ u.server.threads) (hjob : o.jobId = jobId) :
    ∃ userId label rows, o.write = .replaceReportScoped userId label rows := by
  cases h with
  | patch c i label rows disturbed pc => exact ⟨c.userId, label, rows, rfl⟩
  | compile b i sections rows disturbed pc =>
      have hfree := hnone _ ht
      simp [mayCompile, bodyCompiles, pc, show b.jobId = jobId from hjob] at hfree

/-- A commit on another job leaves the tree. -/
theorem holds_commit (h : Holds u.server.stores jobId rows) (hne : o.jobId ≠ jobId) {now : ℕ}
    {merged : List ReportSection} : Holds (u.commit o now merged t).server.stores jobId rows := by
  obtain ⟨job, hjob, hrows⟩ := h
  exact ⟨job, by rw [commit_findById, if_neg hne.symm, hjob], hrows⟩

/-- The transaction that a step commits while no thread may compile is another job's. -/
theorem commits_other {a : TxAction} {i : ℕ} (hawaiting : Awaiting u)
    (hnone : NoneCompiles u.server jobId) (hpatch : NoPatch jobId u a)
    (ho : u.awaited i = some o) (ha : patchedTree u a = (u.awaited i).bind fun o =>
      match o.write with
      | .replaceReportScoped _ _ rows => some (o.jobId, rows)
      | _ => none) : o.jobId ≠ jobId := by
  intro hjob
  obtain ⟨t, ht, hawaits⟩ := (hawaiting o (awaited_mem ho).1).1
  obtain ⟨userId, label, rows, hw⟩ :=
    awaits_patch hnone hawaits (List.mem_of_getElem? ht) hjob
  refine hpatch (o.jobId, rows) ?_ hjob
  rw [ha, ho, Option.bind_some, hw]

theorem holds_step {a : TxAction} (hawaiting : Awaiting u) (h : Holds u.server.stores jobId rows)
    (hnone : NoneCompiles u.server jobId) (hpatch : NoPatch jobId u a)
    (hs : txStep cfg u a = some u') : Holds u'.server.stores jobId rows := by
  cases tx_effect hs with
  | acted a server isReady stepped => exact holds_act h isReady stepped
  | started i env o free starts => exact h
  | committed i now merged o open_ =>
      exact holds_commit h (commits_other hawaiting hnone hpatch open_ rfl)
  | lost i now merged e o t open_ fails =>
      exact holds_commit h (commits_other hawaiting hnone hpatch open_ rfl)
  | rolledBack i e o t open_ fails => exact h

/-- A thread that ends its transaction, in whatever way, is not going to compile. -/
theorem noneCompiles_set {stores : Stores} {t' : Thread} (h : NoneCompiles u.server jobId)
    (ht : u.server.threads[o.thread]? = some t) (hawaits : Awaits t o)
    (ht' : mayCompile u.server jobId t' = false) :
    NoneCompiles ⟨stores, u.server.threads.set o.thread t'⟩ jobId := by
  apply noneCompiles_of (w := u.server)
  · intro k r hr
    obtain ⟨b, hb, hpc⟩ := bodyResult_eq_some.mp hr
    refine bodyResult_eq_some.mpr ⟨b, (getElem?_set_other ?_).trans hb, hpc⟩
    rintro rfl
    rw [ht] at hb
    cases hb
    cases hawaits with
    | compile b i sections rows disturbed pc =>
        rw [pc] at hpc
        cases hpc
  · intro t₁ ht₁
    rcases List.mem_or_eq_of_mem_set ht₁ with hold | rfl
    · exact h t₁ hold
    · exact ht'

theorem awaits_next (h : Awaits t o) : mayCompile u.server jobId o.next = false := by
  cases h with
  | patch c i label rows disturbed pc => rfl
  | compile b i sections rows disturbed pc => simp [mayCompile, bodyCompiles]

theorem noneCompiles_txStep {a : TxAction} (hawaiting : Awaiting u)
    (h : NoneCompiles u.server jobId) (hfull : startsFull jobId u a = true)
    (hs : txStep cfg u a = some u') : NoneCompiles u'.server jobId := by
  have hfailing {i : ℕ} {o : Opened} {t : Thread} {e : Err} (ho : u.awaited i = some o)
      (hfails : u.failing o e = some t) (stores : Stores) :
      NoneCompiles ⟨stores, u.server.threads.set o.thread t⟩ jobId := by
    obtain ⟨t₀, ht₀, hawaits⟩ := (hawaiting o (awaited_mem ho).1).1
    simp only [TxWorld.failing, ht₀, Option.bind_some] at hfails
    exact noneCompiles_set h ht₀ hawaits (throwing_compiles hfails)
  cases tx_effect hs with
  | acted a server isReady stepped =>
      refine noneCompiles_step h ?_ stepped
      rintro i env t rfl ht
      simpa [startsFull, ht] using hfull
  | started i env o free starts => exact h
  | committed i now merged o open_ =>
      obtain ⟨t, ht, hawaits⟩ := (hawaiting o (awaited_mem open_).1).1
      exact noneCompiles_set h ht hawaits (awaits_next hawaits)
  | lost i now merged e o t open_ fails => exact hfailing open_ fails _
  | rolledBack i e o t open_ fails =>
      have hthread := (awaited_mem open_).2
      subst hthread
      exact hfailing open_ fails _

end Transactions

/-- When a PATCH commits a tree of a job that no thread may compile, and nothing else has
replaced the tree since its transaction began, the tree stays in every state reached before
the next PATCH of the job, as long as no attempt starts from an empty tree. -/
theorem edit_preserved (cfg : ServerConfig) {w w₁ w₂ : TxWorld} {a : TxAction} {jobId : String}
    {rows : List ReportSection} (hw : Run (txStep cfg) anyStep TxWorld.empty w)
    (hcommit : patchedTree w a = some (jobId, rows)) (halone : undisturbed w a = true)
    (hfree : ∀ t ∈ w.server.threads, mayCompile w.server jobId t = false)
    (hstep : txStep cfg w a = some w₁) (hrun : Run (txStep cfg) (Guard jobId) w₁ w₂) :
    ∃ job, w₂.server.stores.findById jobId = some job ∧ job.sections = rows := by
  have hawaiting : Awaiting w :=
    hw.invariant awaiting_empty fun _ _ _ hi _ hs => awaiting_step hi hs
  have hfull : startsFull jobId w a = true := by
    cases a with
    | act a => cases hcommit
    | _ => rfl
  have hkept : Awaiting w₂ ∧ Holds w₂.server.stores jobId rows ∧
      NoneCompiles w₂.server jobId := by
    apply hrun.invariant (I := fun u =>
      Awaiting u ∧ Holds u.server.stores jobId rows ∧ NoneCompiles u.server jobId)
    · exact ⟨awaiting_step hawaiting hstep, holds_committed hawaiting hcommit halone hstep,
        noneCompiles_txStep hawaiting hfree hfull hstep⟩
    · rintro u b u' ⟨hpending, hholds, hnone⟩ ⟨hpatch, hfull⟩ hs
      exact ⟨awaiting_step hpending hs, holds_step hpending hholds hnone hpatch hs,
        noneCompiles_txStep hpending hnone hfull hs⟩
  exact hkept.2.1

/-- The tree a PATCH sends in the runs below, and the rows it commits. -/
def demoEdit : List UpdateSectionDto := [⟨"Roof", 0, [⟨"Replace flashing", .repair, 0⟩]⟩]

def demoRows : List ReportSection := insertSections (fun _ _ => "") (toReportInput demoEdit)

/-- A PATCH of `job-1` as thread `i`, up to but without its transaction. -/
def patchSchedule (i : ℕ) : List Action :=
  [.call (.update "user-1" "job-1" { sections := .value demoEdit }), .step i {}]

/-- An edit made between the compile and the render stage. -/
theorem edit_preserved_demo :
    ∃ w w₁ w₂ job, Run (txStep demo) anyStep TxWorld.empty w ∧
      patchedTree w (.commit 5 0 []) = some ("job-1", demoRows) ∧
        txStep demo w (.commit 5 0 []) = some w₁ ∧ Run (txStep demo) (Guard "job-1") w₁ w₂ ∧
          w₂.server.stores.findById "job-1" = some job ∧ job.sections = demoRows := by
  have hend : (exec (step demo) (submitSchedule ++ checkSchedule 1 ++ enqueueSchedule 1 ++
      compileSchedule 2 ++ patchSchedule 5) World.empty).any (fun s =>
        (exec (txStep demo) [.start 5 {}] ⟨s, []⟩).any fun w => decide
          (patchedTree w (.commit 5 0 []) = some ("job-1", demoRows) ∧
            undisturbed w (.commit 5 0 []) = true ∧
            (∀ t ∈ w.server.threads, mayCompile w.server "job-1" t = false) ∧
            (txStep demo w (.commit 5 0 [])).any (fun w₁ =>
              (execWhere (txStep demo) (Guard "job-1") ((steps 2 2 {} ++ steps 6 3 {} ++
                steps 2 2 {} ++ [Action.ack 2]).map .act) w₁).isSome) = true)) = true := by decide
  obtain ⟨s, hs, hp⟩ := exec_any hend
  obtain ⟨w, hstart, hp⟩ := exec_any hp
  have hw : Run (txStep demo) anyStep TxWorld.empty w := (run_lift_any hs).trans hstart
  obtain ⟨hcommit, halone, hfree, hrest⟩ := of_decide_eq_true hp
  obtain ⟨w₁, hstep, hrun⟩ := (Option.any_eq_true _ _).mp hrest
  obtain ⟨w₂, hw₂⟩ := Option.isSome_iff_exists.mp hrun
  have hguarded := execWhere_run hw₂
  obtain ⟨job, hjob, hrows⟩ := edit_preserved demo hw hcommit halone hfree hstep hguarded
  exact ⟨w, w₁, w₂, job, hw, hcommit, hstep, hguarded, hjob, hrows⟩

/-- An attempt that read the empty tree before the PATCH replaces the edit. -/
theorem compile_overwrites_edit :
    ¬ ∀ (cfg : ServerConfig) (w w₁ w₂ : TxWorld) (a : TxAction) (jobId : String)
      (rows : List ReportSection), Run (txStep cfg) anyStep TxWorld.empty w →
        patchedTree w a = some (jobId, rows) → txStep cfg w a = some w₁ →
          Run (txStep cfg) (NoPatch jobId) w₁ w₂ →
            ∃ job, w₂.server.stores.findById jobId = some job ∧ job.sections = rows := by
  intro h
  have hend : (exec (step demo) (submitSchedule ++ checkSchedule 1 ++ enqueueSchedule 1 ++
      [.pick "job-1"] ++ steps 2 3 {} ++ patchSchedule 4) World.empty).any (fun s =>
        (exec (txStep demo) [.start 4 {}] ⟨s, []⟩).any fun w => decide
          (patchedTree w (.commit 4 0 []) = some ("job-1", demoRows) ∧
            (txStep demo w (.commit 4 0 [])).any (fun w₁ =>
              (execWhere (txStep demo) (NoPatch "job-1")
                ((steps 3 3 { text := "transcript" } ++ steps 2 4 {} ++
                  steps 5 1 { sections := demoReport }).map .act ++
                    [.start 5 {}, .commit 5 0 []]) w₁).any (fun w₂ =>
                      (w₂.server.stores.findById "job-1").all fun job =>
                        job.sections ≠ demoRows)) = true)) = true := by decide
  obtain ⟨s, hs, hp⟩ := exec_any hend
  obtain ⟨w, hstart, hp⟩ := exec_any hp
  have hw : Run (txStep demo) anyStep TxWorld.empty w := (run_lift_any hs).trans hstart
  obtain ⟨hcommit, hrest⟩ := of_decide_eq_true hp
  obtain ⟨w₁, hstep, hrun⟩ := (Option.any_eq_true _ _).mp hrest
  obtain ⟨w₂, hw₂, hlost⟩ := execWhere_any hrun
  obtain ⟨job, hjob, hrows⟩ := h demo w w₁ w₂ _ "job-1" demoRows hw hcommit hstep hw₂
  simp [hjob, hrows] at hlost

end FieldNote.EditPreservation
