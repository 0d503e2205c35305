import FieldNote.JobStatements

/-!
# When READY is absorbing

Every writer of the status column decides on an earlier read and then writes by job id. A
thread that has decided and not yet written is a pending writer. The guard has two parts:
when a render body marks the job READY no writer of the job is pending, and `markFailed`
does not read a READY job. Under it a READY job never gets a pending writer, so it stays
READY.
-/
namespace FieldNote.ReadyAbsorbing
open JobsService PipelineService ServerRuns GuardedRuns CallPool

/-- The thread is going to set the job to a status other than READY without looking at the
row again: a `process` call past its check, an attempt with a stage ahead of it, or a
failure being recorded. -/
def writesStatus (jobId : String) : Thread → Bool
  | .process c =>
      c.jobId = jobId &&
        match c.pc with
        | .objectExists _ | .setStatus _ => true
        | _ => false
  | .attempt a =>
      a.jobId = jobId &&
        match a.pc with
        | .setStatus _ => true
        | .addStarted work | .racing work _ | .addCompleted work _ => work.stage ≠ .render
        | .marking _ (.setStatus _) => true
        | _ => false
  | .handler h =>
      h.jobId = jobId &&
        match h.pc with
        | .marking (.setStatus _) => true
        | _ => false
  | _ => false

def isReady (s : Stores) (jobId : String) : Bool :=
  match s.findById jobId with
  | some job => job.status = .READY
  | none => false

/-- A body marks its job READY only with no writer pending; `markFailed` does not read a
READY job. -/
def threadOk (w : World) : Thread → Bool
  | .body b =>
      match b.pc with
      | .setPdfReady _ => w.threads.all fun t => !writesStatus b.jobId t
      | _ => true
  | .attempt a =>
      match a.pc with
      | .marking _ .rawById => !isReady w.stores a.jobId
      | _ => true
  | .handler h =>
      match h.pc with
      | .marking .rawById => !isReady w.stores h.jobId
      | _ => true
  | _ => true

def undisturbed (w : World) : Action → Bool
  | .step i _ | .throw i _ _ true => w.threads[i]?.all (threadOk w)
  | _ => true

def Guard (w : World) (a : Action) : Prop := undisturbed w a = true

instance : DecidableRel Guard := fun _ _ => inferInstanceAs (Decidable (_ = true))

variable {cfg : ServerConfig} {w w' : World} {env : Env}

theorem isReady_iff {s : Stores} {jobId : String} :
    isReady s jobId = true ↔ ∃ job, s.findById jobId = some job ∧ job.status = .READY := by
  unfold isReady
  cases s.findById jobId <;> simp

/-- What a segment of one thread may do to the status of jobs. -/
structure StatusStep (w : World) (t t' : Thread) (op : Op) (spawned : List Thread) : Prop where
  pending : ∀ jobId, writesStatus jobId t' = true →
    writesStatus jobId t = true ∨ isReady w.stores jobId = false
  written : ∀ jobId status, op.newStatus = some (jobId, status) →
    (status = .READY ∧ writesStatus jobId t' = false ∧
      ∀ t₁ ∈ w.threads, writesStatus jobId t₁ = false) ∨
    (status ≠ .READY ∧ writesStatus jobId t = true)
  inserted : ∀ job, op.inserted = some job → job.status = .CREATED
  spawned : ∀ jobId, ∀ t₁ ∈ spawned, writesStatus jobId t₁ = false

theorem StatusStep.silent {t t' : Thread} {op : Op}
    (hp : ∀ jobId, writesStatus jobId t' = true →
      writesStatus jobId t = true ∨ isReady w.stores jobId = false)
    (hs : op.newStatus = none) (hi : op.inserted = none) : StatusStep w t t' op [] := by
  refine ⟨hp, ?_, ?_, ?_⟩
  · intro jobId status h
    rw [hs] at h
    cases h
  · intro job h
    rw [hi] at h
    cases h
  · intro jobId t₁ h
    cases h

theorem findScoped_not_ready {s : Stores} {userId jobId : String} {job : Job}
    (h : s.findScoped userId jobId = some job) (hr : job.status ≠ .READY) :
    isReady s jobId = false := by
  have hrow := (Stores.findScoped_eq_some.mp h).1
  simp [isReady, hrow, hr]

theorem process_status {c : ProcessCall} {pc : ProcessPc} {op : Op}
    (h : nextProcess cfg w.stores c = some (pc, op)) :
    StatusStep w (.process c) (.process { c with pc := pc }) op [] := by
  rcases c with ⟨userId, jobId, pc₀⟩
  cases pc₀ with
  | findScoped =>
      simp only [nextProcess] at h
      split at h
      · cases h
        exact .silent (by simp [writesStatus]) rfl rfl
      · rename_i job hjob
        split_ifs at h with hr hf
        · cases h
          exact .silent (by simp [writesStatus]) rfl rfl
        · cases h
          exact .silent (by simp [writesStatus]) rfl rfl
        · cases h
          refine .silent ?_ rfl rfl
          intro j hj
          simp only [writesStatus, Bool.and_true, decide_eq_true_eq] at hj
          subst hj
          exact .inr (findScoped_not_ready hjob hr)
  | objectExists job =>
      simp only [nextProcess] at h
      split_ifs at h
      · cases h
        exact .silent (fun _ hj => .inl hj) rfl rfl
      · cases h
        exact .silent (by simp [writesStatus]) rfl rfl
  | setStatus job =>
      cases h
      refine ⟨by simp [writesStatus], ?_, by simp [Op.inserted], by simp⟩
      intro j status hst
      cases hst
      exact .inr ⟨by decide, by simp [writesStatus]⟩
  | getJob job =>
      simp only [nextProcess] at h
      split at h <;> cases h <;> exact .silent (by simp [writesStatus]) rfl rfl
  | getState job =>
      simp only [nextProcess] at h
      split at h <;> cases h <;> exact .silent (by simp [writesStatus]) rfl rfl
  | remove job =>
      simp only [nextProcess] at h
      split at h <;> cases h <;> exact .silent (by simp [writesStatus]) rfl rfl
  | add job =>
      simp only [nextProcess] at h
      split at h <;> cases h <;> exact .silent (by simp [writesStatus]) rfl rfl
  | findAgain job =>
      cases h
      exact .silent (by simp [writesStatus]) rfl rfl
  | returned dto => cases h
  | threw error => cases h

theorem create_status {c : CreateCall} {pc : CreatePc} {op : Op}
    (h : nextCreate cfg w.stores env c = some (pc, op)) :
    StatusStep w (.create c) (.create { c with pc := pc }) op [] := by
  rcases nextCreate_op h with rfl | rfl
  · exact .silent (by simp [writesStatus]) rfl rfl
  · refine ⟨by simp [writesStatus], by simp [Op.newStatus], ?_, by simp⟩
    intro job hjob
    cases hjob
    rfl

theorem update_status {c : UpdateCall} {pc : UpdatePc} {op : Op}
    (h : nextUpdate cfg w.stores env c = some (pc, op)) :
    StatusStep w (.update c) (.update { c with pc := pc }) op [] := by
  rcases nextUpdate_op h with rfl | ⟨wr, -, rfl, hw⟩
  · exact .silent (by simp [writesStatus]) rfl rfl
  · rcases updateWrite_cases hw with ⟨label, rfl⟩ | ⟨label, rows, rfl⟩ <;>
      exact .silent (by simp [writesStatus]) rfl rfl

theorem remove_status {c : RemoveCall} {pc : RemovePc} {op : Op}
    (h : nextRemove w.stores c = some (pc, op)) :
    StatusStep w (.remove c) (.remove { c with pc := pc }) op [] := by
  rcases nextRemove_op h with rfl | rfl | ⟨job, -, rfl⟩ <;>
    exact .silent (by simp [writesStatus]) rfl rfl

theorem afterFindById_status {jobId userId j : String} {s : Stores}
    (h : writesStatus j (.attempt ⟨jobId, userId,
      afterFindById jobId userId (s.findById jobId)⟩) = true) : isReady s j = false := by
  unfold afterFindById at h
  split at h
  · simp [writesStatus] at h
  · rename_i job hjob
    split_ifs at h with hd hu hr
    · simp [writesStatus] at h
    · simp [writesStatus] at h
    · simp [writesStatus] at h
    · simp only [writesStatus, Bool.and_eq_true, decide_eq_true_eq] at h
      obtain ⟨rfl, -⟩ := h
      simp [isReady, hjob, hr]

theorem afterThrow_status (a : Attempt) (e : Err) (j : String) :
    writesStatus j (.attempt { a with pc := afterThrow e }) = false := by
  unfold afterThrow
  split_ifs <;> simp [writesStatus]

/-- A segment of `markFailed`, for whichever thread runs it. -/
theorem mark_status {t t' : Thread} {jobId message : String} {mark : MarkPc}
    {mark' : Option MarkPc} {op : Op} (h : nextMark w.stores jobId message mark = (mark', op))
    (hready : mark = .rawById → isReady w.stores jobId = false)
    (hold : ∀ m, mark = .setStatus m → writesStatus jobId t = true)
    (hnew : ∀ j, writesStatus j t' = true → j = jobId ∧ ∃ m, mark' = some (.setStatus m)) :
    StatusStep w t t' op [] := by
  cases mark with
  | rawById =>
      obtain ⟨rfl, -⟩ := nextMark_rawById h
      refine .silent ?_ rfl rfl
      intro j hj
      obtain ⟨rfl, -⟩ := hnew j hj
      exact .inr (hready rfl)
  | setStatus m =>
      cases h
      refine ⟨?_, ?_, by simp [Op.inserted], by simp⟩
      · intro j hj
        obtain ⟨-, m', hm⟩ := hnew j hj
        cases hm
      · intro j status hst
        cases hst
        exact .inr ⟨by decide, hold m rfl⟩
  | addEvent m =>
      cases h
      refine .silent ?_ rfl rfl
      intro j hj
      obtain ⟨-, m', hm⟩ := hnew j hj
      cases hm

theorem attempt_status {a : Attempt} {pc : AttemptPc} {op : Op}
    (hok : threadOk w (.attempt a) = true)
    (h : nextAttempt w.stores a w.threads.length w.bodyResult = some (pc, op)) :
    StatusStep w (.attempt a) (.attempt { a with pc := pc }) op (Attempt.spawn a env.now) := by
  rcases a with ⟨jobId, userId, pc₀⟩
  cases pc₀ with
  | findById =>
      cases h
      exact .silent (fun j hj => .inr (afterFindById_status hj)) rfl rfl
  | setStatus work =>
      cases h
      refine ⟨?_, ?_, by simp [Op.inserted], by simp [Attempt.spawn]⟩
      · intro j hj
        simp only [writesStatus, Bool.and_eq_true, decide_eq_true_eq] at hj
        exact .inl (by simp [writesStatus, hj.1])
      · intro j status hst
        cases hst
        refine .inr ⟨?_, by simp [writesStatus]⟩
        cases work <;> simp [Work.stage, Stage.status]
  | addStarted work =>
      cases h
      refine ⟨fun j hj => .inl hj, by simp [Op.newStatus], by simp [Op.inserted], ?_⟩
      intro j t₁ ht₁
      simp only [Attempt.spawn, List.mem_singleton] at ht₁
      subst ht₁
      rfl
  | racing work i =>
      simp only [nextAttempt] at h
      split at h
      · cases h
      · cases h
        exact .silent (fun j hj => .inl hj) rfl rfl
      · cases h
        exact .silent (by simp [writesStatus]) rfl rfl
  | addCompleted work result =>
      cases h
      refine .silent ?_ rfl rfl
      intro j hj
      simp only [writesStatus, Bool.and_eq_true, decide_eq_true_eq] at hj
      obtain ⟨rfl, hj⟩ := hj
      refine .inl ?_
      cases work with
      | render label sections => simp [afterStage] at hj
      | _ => simp [writesStatus, Work.stage]
  | addFailed work e =>
      cases h
      refine .silent ?_ rfl rfl
      intro j hj
      rw [afterThrow_status ⟨jobId, userId, .addFailed work e⟩] at hj
      cases hj
  | marking e mark =>
      simp only [nextAttempt] at h
      split at h
      · rename_i op' hmark
        cases h
        refine mark_status hmark ?_ ?_ ?_
        · rintro rfl
          simpa [threadOk] using hok
        · rintro m rfl
          simp [writesStatus]
        · intro j hj
          simp [writesStatus, afterMarking] at hj
      · rename_i mark' op' hmark
        cases h
        refine mark_status hmark ?_ ?_ ?_
        · rintro rfl
          simpa [threadOk] using hok
        · rintro m rfl
          simp [writesStatus]
        · intro j hj
          simp only [writesStatus, Bool.and_eq_true, decide_eq_true_eq] at hj
          refine ⟨hj.1.symm, ?_⟩
          cases mark' with
          | setStatus m => exact ⟨m, rfl⟩
          | _ => simp at hj
  | settled e => cases h
  | acked => cases h

theorem handler_status {h : Handler} {pc : HandlerPc} {op : Op}
    (hok : threadOk w (.handler h) = true)
    (hn : nextHandler w.stores h = some (pc, op)) :
    StatusStep w (.handler h) (.handler { h with pc := pc }) op [] := by
  rcases h with ⟨jobId, userId, error, attemptsMade, pc₀⟩
  cases pc₀ with
  | marking mark =>
      simp only [nextHandler] at hn
      split at hn
      · rename_i op' hmark
        cases hn
        refine mark_status hmark ?_ ?_ ?_
        · rintro rfl
          simpa [threadOk] using hok
        · rintro m rfl
          simp [writesStatus]
        · intro j hj
          simp [writesStatus] at hj
      · rename_i mark' op' hmark
        cases hn
        refine mark_status hmark ?_ ?_ ?_
        · rintro rfl
          simpa [threadOk] using hok
        · rintro m rfl
          simp [writesStatus]
        · intro j hj
          simp only [writesStatus, Bool.and_eq_true, decide_eq_true_eq] at hj
          refine ⟨hj.1.symm, ?_⟩
          cases mark' with
          | setStatus m => exact ⟨m, rfl⟩
          | _ => simp at hj
  | addDlq =>
      cases hn
      exact .silent (by simp [writesStatus]) rfl rfl
  | done => cases hn

theorem body_status {b : Body} {pc : BodyPc} {op : Op}
    (hok : threadOk w (.body b) = true) (h : nextBody w.stores env b = some (pc, op)) :
    StatusStep w (.body b) (.body { b with pc := pc }) op [] := by
  rcases b with ⟨jobId, userId, pc₀⟩
  cases pc₀ with
  | getObjectStream key =>
      simp only [nextBody] at h
      split_ifs at h <;> cases h <;> exact .silent (by simp [writesStatus]) rfl rfl
  | transcribe key =>
      simp only [nextBody] at h
      split_ifs at h <;> cases h <;> exact .silent (by simp [writesStatus]) rfl rfl
  | setPdfReady view =>
      cases h
      refine ⟨by simp [writesStatus], ?_, by simp [Op.inserted], by simp⟩
      intro j status hst
      cases hst
      refine .inl ⟨rfl, rfl, ?_⟩
      simpa [threadOk] using hok
  | done result => cases h
  | _ =>
      cases h
      exact .silent (by simp [writesStatus]) rfl rfl

theorem next_status {t t' : Thread} {op : Op} {spawned : List Thread}
    (hok : threadOk w t = true) (h : next cfg w env t = some (t', op, spawned)) :
    StatusStep w t t' op spawned := by
  cases next_segment h with
  | create c pc op hn =>
      exact create_status hn
  | process c pc op hn =>
      exact process_status hn
  | update c pc op hn =>
      exact update_status hn
  | remove c pc op hn =>
      exact remove_status hn
  | attempt a pc op hn =>
      exact attempt_status hok hn
  | body b pc op hn =>
      exact body_status hok hn
  | handler hd pc op hn =>
      exact handler_status hok hn

/-- A thread that throws decides on no status. -/
theorem throwing_status {t t' : Thread} {e : Err} {jobId : String}
    (h : throwing e t = some t') (hw : writesStatus jobId t' = true) :
    writesStatus jobId t = true := by
  cases throwing_cases h with
  | leaving a =>
      rw [afterThrow_status] at hw
      cases hw
  | _ => simp [writesStatus] at hw

/-- No thread is about to take a READY job out of READY. -/
def Inv (w : World) : Prop :=
  ∀ jobId, isReady w.stores jobId = true → ∀ t ∈ w.threads, writesStatus jobId t = false

/-- READY jobs of the first state are READY in the second. -/
def ReadyKept (w w' : World) : Prop :=
  ∀ jobId, isReady w.stores jobId = true → isReady w'.stores jobId = true

/-- A step of one thread keeps READY jobs READY and free of pending writers. -/
theorem inv_advance {now i : ℕ} {t t' : Thread} {op : Op} {spawned : List Thread}
    (h : Inv w) (ht : w.threads[i]? = some t) (hstep : StatusStep w t t' op spawned) :
    Inv (w.advance now i t' op spawned) ∧ ReadyKept w (w.advance now i t' op spawned) := by
  have hmem := List.mem_of_getElem? ht
  refine ⟨?_, ?_⟩
  · intro jobId hready t₁ ht₁
    obtain ⟨job', hrow, hst⟩ := isReady_iff.mp hready
    -- either the job was READY, or this step has just set it
    have hfree : (∀ t₂ ∈ w.threads, writesStatus jobId t₂ = false) ∧
        writesStatus jobId t' = false := by
      have hold : isReady w.stores jobId = true →
          (∀ t₂ ∈ w.threads, writesStatus jobId t₂ = false) ∧ writesStatus jobId t' = false := by
        intro hr
        refine ⟨h jobId hr, Bool.eq_false_iff.mpr fun hw => ?_⟩
        rcases hstep.pending jobId hw with hw' | hn
        · rw [h jobId hr t hmem] at hw'
          cases hw'
        · rw [hr] at hn
          cases hn
      rcases Stores.run_status hrow with ⟨job, hjob, hkeep | hset⟩ | ⟨hins, -⟩
      · exact hold (isReady_iff.mpr ⟨job, hjob, hkeep.symm.trans hst⟩)
      · rw [hst] at hset
        rcases hstep.written jobId .READY hset with ⟨-, hw, hall⟩ | ⟨hne, -⟩
        · exact ⟨hall, hw⟩
        · exact (hne rfl).elim
      · rw [hstep.inserted job' hins] at hst
        cases hst
    rcases mem_advance ht₁ with hold | rfl | hsp
    · exact hfree.1 t₁ hold
    · exact hfree.2
    · exact hstep.spawned jobId t₁ hsp
  · intro jobId hready
    obtain ⟨job, hrow, hst⟩ := isReady_iff.mp hready
    obtain ⟨job', hrow', hkeep | hset⟩ :=
      Stores.run_status_kept now op hrow
    · exact isReady_iff.mpr ⟨job', hrow', hkeep.trans hst⟩
    · rcases hstep.written jobId _ hset with ⟨hr, -, -⟩ | ⟨-, hw⟩
      · exact isReady_iff.mpr ⟨job', hrow', hr⟩
      · rw [h jobId hready t hmem] at hw
        cases hw

/-- Steps that change neither the rows nor decide on a status. -/
theorem inv_frame {stores : Stores} {spawned : List Thread} (h : Inv w)
    (hrows : stores.jobs = w.stores.jobs)
    (hsp : ∀ jobId, ∀ t ∈ spawned, writesStatus jobId t = false) :
    Inv ⟨stores, w.threads ++ spawned⟩ ∧ ReadyKept w ⟨stores, w.threads ++ spawned⟩ := by
  have hsame : ∀ jobId, isReady stores jobId = isReady w.stores jobId := by
    intro jobId
    simp only [isReady, Stores.findById, hrows]
  refine ⟨?_, fun jobId hr => (hsame jobId).trans hr⟩
  intro jobId hr t ht
  rcases List.mem_append.mp ht with ht | ht
  · exact h jobId ((hsame jobId).symm.trans hr) t ht
  · exact hsp jobId t ht

theorem settle_spawned {jobId j : String} {entry : Entry} {e : Option Err} {t : Thread}
    (ht : t ∈ (settle cfg jobId entry e).2) : writesStatus j t = false := by
  unfold settle at ht
  split at ht
  · cases ht
  · dsimp only at ht
    split_ifs at ht
    · rw [List.mem_singleton.mp ht]
      simp [writesStatus]
    · cases ht

theorem inv_step {a : Action} (h : Inv w) (hg : Guard w a) (hs : step cfg w a = some w') :
    Inv w' ∧ ReadyKept w w' := by
  cases step_effect hs with
  | called request =>
      refine inv_frame h rfl ?_
      intro jobId t ht
      rw [List.mem_singleton.mp ht]
      cases request <;> simp [Request.thread, writesStatus]
  | stepped i env t t' op spawned thread next =>
      have hok : threadOk w t = true := by simpa [Guard, undisturbed, thread] using hg
      exact inv_advance h thread (next_status hok next)
  | threw i env e t t' thread throws =>
      exact inv_advance h thread
        (.silent (fun _ hw => .inl (throwing_status throws hw)) rfl rfl)
  | lost i env e t t' t₁ op spawned thread throws next =>
      have hok : threadOk w t = true := by simpa [Guard, undisturbed, thread] using hg
      have hn := next_status hok next
      refine inv_advance h thread
        ⟨fun _ hw => .inl (throwing_status throws hw), ?_, hn.inserted, by simp⟩
      intro jobId status hset
      rcases hn.written jobId status hset with ⟨hr, -, hall⟩ | hold
      · refine .inl ⟨hr, Bool.eq_false_iff.mpr fun hw => ?_, hall⟩
        have hold := throwing_status throws hw
        rw [hall t (List.mem_of_getElem? thread)] at hold
        cases hold
      · exact .inr hold
  | timedOut i t t' thread out =>
      refine inv_advance h thread (.silent ?_ rfl rfl)
      intro jobId hw
      unfold timingOut at out
      split at out
      · split at out
        · cases out
          simp [writesStatus] at hw
        · cases out
      · cases out
  | acked i a e entry thread pc queued =>
      refine inv_advance h thread ⟨by simp [writesStatus], by simp [Op.newStatus],
        by simp [Op.inserted], fun _ _ => settle_spawned⟩
  | picked jobId entry queued waiting =>
      refine inv_frame h rfl ?_
      intro j t ht
      rw [List.mem_singleton.mp ht]
      simp [writesStatus]
  | promoted jobId entry queued delayed => exact inv_frame h rfl (by simp)
  | purged jobId entry queued completed => exact inv_frame h rfl (by simp)
  | uploaded userId jobId bytes =>
      let stores := w.stores.run 0 (.putObject (audioKey userId jobId) (.audio bytes))
      have hf : Inv ⟨stores, w.threads ++ []⟩ ∧ ReadyKept w ⟨stores, w.threads ++ []⟩ :=
        inv_frame h rfl (by simp)
      simpa only [List.append_nil] using hf

theorem inv_empty : Inv World.empty := by
  intro jobId _ t ht
  cases ht

/-- In every run that meets the guard, a job that is READY in one state is READY in every
later state. -/
theorem ready_absorbing (cfg : ServerConfig) {w w' : World} {jobId : String} {job : Job}
    (hw : Run (step cfg) Guard World.empty w) (hw' : Run (step cfg) Guard w w')
    (hjob : w.stores.findById jobId = some job) (hr : job.status = .READY) :
    ∃ job', w'.stores.findById jobId = some job' ∧ job'.status = .READY := by
  have hinv : Inv w := hw.invariant inv_empty fun _ _ _ hi hg hs => (inv_step hi hg hs).1
  have hkept : ReadyKept w w' :=
    hw'.relate hinv (fun _ _ _ hi hg hs => (inv_step hi hg hs).1) (fun _ _ hr => hr)
      (fun _ _ _ h k jobId hr => k jobId (h jobId hr))
      fun _ _ _ hi hg hs => (inv_step hi hg hs).2
  exact isReady_iff.mp (hkept jobId (isReady_iff.mpr ⟨job, hjob, hr⟩))

theorem ready_absorbing_demo :
    ∃ w w' job', Run (step demo) Guard World.empty w ∧ Run (step demo) Guard w w' ∧
      w'.threads.length = 7 ∧ w'.stores.findById "job-1" = some job' ∧
        job'.status = .READY := by
  have hend : (execWhere (step demo) Guard readySchedule World.empty).any (fun w => decide
      (isReady w.stores "job-1" = true ∧
        (execWhere (step demo) Guard [.call (.process "user-1" "job-1"), .step 6 {}] w).any
          (fun w' => w'.threads.length = 7) = true)) = true := by decide
  obtain ⟨w, hw, hp⟩ := execWhere_any hend
  obtain ⟨hready, hnext⟩ := of_decide_eq_true hp
  obtain ⟨job, hjob, hr⟩ := isReady_iff.mp hready
  obtain ⟨w', hw', hlen⟩ := execWhere_any hnext
  obtain ⟨job', hjob', hr'⟩ := ready_absorbing demo hw hw' hjob hr
  exact ⟨w, w', job', hw, hw', of_decide_eq_true hlen, hjob', hr'⟩

/-- A second `process` call that checked the job before it became READY puts it back to
QUEUED. -/
theorem late_process_requeues_ready_job :
    ¬ ∀ (cfg : ServerConfig) (w w' : World) (jobId : String) (job : Job),
      Run (step cfg) anyStep World.empty w → Run (step cfg) anyStep w w' →
        w.stores.findById jobId = some job → job.status = .READY →
          ∃ job', w'.stores.findById jobId = some job' ∧ job'.status = .READY := by
  intro h
  have hend : (exec (step demo) (submitSchedule ++ checkSchedule 1 ++ checkSchedule 2 ++
      enqueueSchedule 1 ++ compileSchedule 3 ++ renderSchedule 3 ++ finishSchedule 3)
      World.empty).any (fun w => isReady w.stores "job-1" &&
        (exec (step demo) [.step 2 {}] w).any
          fun w' => !isReady w'.stores "job-1") = true := by decide
  obtain ⟨w, hw, hp⟩ := exec_any hend
  obtain ⟨hready, hnext⟩ := (Bool.and_eq_true _ _).mp hp
  obtain ⟨job, hjob, hr⟩ := isReady_iff.mp hready
  obtain ⟨w', hw', hn⟩ := exec_any hnext
  have hready' := isReady_iff.mpr (h demo w w' "job-1" job hw hw' hjob hr)
  rw [Bool.not_eq_true'] at hn
  rw [hready'] at hn
  cases hn

end FieldNote.ReadyAbsorbing
