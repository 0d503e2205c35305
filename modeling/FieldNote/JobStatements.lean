import FieldNote.ServerRuns

/-!
# Who issues which statement

Inversions shared by the results on the content of a job: the statements that a segment of
a thread can issue, the stages an attempt can go on to, and the fact that the result of a
stage body is final.
-/
namespace FieldNote.ServerRuns
open JobsService PipelineService CallPool

/-- The operation leaves the rows and the bucket alone. -/
def Op.aside : Op → Bool
  | .none | .addEvent _ | .setEntry _ _ | .addDlq _ => true
  | _ => false

/-- A segment of the thread may issue the operation. -/
inductive Issues (w : World) (env : Env) : Thread → Op → Prop where
  | aside (t : Thread) (op : Op) (aside : Op.aside op = true) : Issues w env t op
  | create (c : CreateCall) : Issues w env (.create c) (.insertJob (draft env c))
  | process (c : ProcessCall) (job : Job) (pc : c.pc = .setStatus job) :
      Issues w env (.process c) (.write c.jobId (.setStatus .QUEUED (some none)))
  | update (c : UpdateCall) (wr : Write) (pc : c.pc = .commit)
      (write : updateWrite w.stores env c = .ok (some wr)) :
      Issues w env (.update c) (.write c.jobId wr)
  | remove (c : RemoveCall) : Issues w env (.remove c) (.write c.jobId (.softDeleteScoped c.userId))
  | deleteObjects (c : RemoveCall) (job : Job) (pc : c.pc = .deleteObjects job) :
      Issues w env (.remove c) (.deleteObjects job.objectKeys)
  | stage (a : Attempt) (work : Work) (pc : a.pc = .setStatus work) :
      Issues w env (.attempt a) (.write a.jobId (.setStatus work.stage.status none))
  | failed (a : Attempt) (e : Err) (m : String) (pc : a.pc = .marking e (.setStatus m)) :
      Issues w env (.attempt a) (.write a.jobId (.setStatus .FAILED (some (some m))))
  | transcript (b : Body) (text : String) (pc : b.pc = .saveTranscript text) :
      Issues w env (.body b) (.write b.jobId (.saveTranscript text))
  | report (b : Body) (sections : List ReportSectionInput) (pc : b.pc = .replaceReport sections) :
      Issues w env (.body b)
        (.write b.jobId (.replaceReport (insertSections env.rowId sections)))
  | putObject (b : Body) (view : ReportView) (pc : b.pc = .putObject view) :
      Issues w env (.body b) (.putObject (pdfKey b.userId b.jobId) (.pdf view))
  | ready (b : Body) (view : ReportView) (pc : b.pc = .setPdfReady view) :
      Issues w env (.body b) (.write b.jobId (.setPdfReady (pdfKey b.userId b.jobId)))
  | handled (h : Handler) (m : String) (pc : h.pc = .marking (.setStatus m)) :
      Issues w env (.handler h) (.write h.jobId (.setStatus .FAILED (some (some m))))

/-- The operations of a segment, thread by thread. -/
inductive Operates (w : World) (env : Env) : Thread → Op → Prop where
  | none (t : Thread) : Operates w env t .none
  | create (c : CreateCall) : Operates w env (.create c) (.insertJob (draft env c))
  | requeue (c : ProcessCall) (job : Job) (pc : c.pc = .setStatus job) :
      Operates w env (.process c) (.write c.jobId (.setStatus .QUEUED (some none)))
  | removeEntry (c : ProcessCall) (job : Job) (pc : c.pc = .remove job) :
      Operates w env (.process c) (.setEntry c.jobId none)
  | addEntry (c : ProcessCall) (job : Job) (pc : c.pc = .add job) :
      Operates w env (.process c) (.setEntry c.jobId (some ⟨.waiting, c.userId, 0⟩))
  | update (c : UpdateCall) (wr : Write) (pc : c.pc = .commit)
      (write : updateWrite w.stores env c = .ok (some wr)) :
      Operates w env (.update c) (.write c.jobId wr)
  | softDelete (c : RemoveCall) :
      Operates w env (.remove c) (.write c.jobId (.softDeleteScoped c.userId))
  | deleteObjects (c : RemoveCall) (job : Job) (pc : c.pc = .deleteObjects job) :
      Operates w env (.remove c) (.deleteObjects job.objectKeys)
  | stage (a : Attempt) (work : Work) (pc : a.pc = .setStatus work) :
      Operates w env (.attempt a) (.write a.jobId (.setStatus work.stage.status none))
  | stageEvent (a : Attempt) (event : ProcessingEvent) (job : event.jobId = a.jobId) :
      Operates w env (.attempt a) (.addEvent event)
  | failed (a : Attempt) (e : Err) (m : String) (pc : a.pc = .marking e (.setStatus m)) :
      Operates w env (.attempt a) (.write a.jobId (.setStatus .FAILED (some (some m))))
  | transcript (b : Body) (text : String) (pc : b.pc = .saveTranscript text) :
      Operates w env (.body b) (.write b.jobId (.saveTranscript text))
  | report (b : Body) (sections : List ReportSectionInput) (pc : b.pc = .replaceReport sections) :
      Operates w env (.body b)
        (.write b.jobId (.replaceReport (insertSections env.rowId sections)))
  | putObject (b : Body) (view : ReportView) (pc : b.pc = .putObject view) :
      Operates w env (.body b) (.putObject (pdfKey b.userId b.jobId) (.pdf view))
  | ready (b : Body) (view : ReportView) (pc : b.pc = .setPdfReady view) :
      Operates w env (.body b) (.write b.jobId (.setPdfReady (pdfKey b.userId b.jobId)))
  | handled (h : Handler) (m : String) (pc : h.pc = .marking (.setStatus m)) :
      Operates w env (.handler h) (.write h.jobId (.setStatus .FAILED (some (some m))))
  | failureEvent (h : Handler) (event : ProcessingEvent) (job : event.jobId = h.jobId) :
      Operates w env (.handler h) (.addEvent event)
  | parked (h : Handler) (pc : h.pc = .addDlq) :
      Operates w env (.handler h) (.addDlq ⟨h.jobId, h.userId, h.error.message, h.attemptsMade⟩)

variable {cfg : ServerConfig} {w w' : World} {env : Env} {op : Op}

theorem nextMark_op {s : Stores} {id message : String} {mark : MarkPc} {mark' : Option MarkPc}
    (h : nextMark s id message mark = (mark', op)) :
    op = .none ∨ (∃ m, mark = .setStatus m ∧ op = .write id (.setStatus .FAILED (some (some m)))) ∨
      ∃ event, event.jobId = id ∧ op = .addEvent event := by
  cases mark with
  | rawById =>
      obtain ⟨rfl, -⟩ := nextMark_rawById h
      exact .inl rfl
  | setStatus m =>
      cases h
      exact .inr (.inl ⟨m, rfl, rfl⟩)
  | addEvent m =>
      cases h
      exact .inr (.inr ⟨_, rfl, rfl⟩)

theorem nextProcess_operates {c : ProcessCall} {pc : ProcessPc}
    (h : nextProcess cfg w.stores c = some (pc, op)) : Operates w env (.process c) op := by
  unfold nextProcess at h
  split at h
  · split at h
    · cases h
      exact .none _
    · split_ifs at h <;> cases h <;> exact .none _
  · split_ifs at h <;> cases h <;> exact .none _
  · rename_i job hpc
    cases h
    exact .requeue c job hpc
  · split at h <;> cases h <;> exact .none _
  · split at h <;> cases h <;> exact .none _
  · rename_i job hpc
    split at h <;> cases h
    · exact .none _
    · exact .removeEntry c job hpc
  · rename_i job hpc
    split at h <;> cases h
    · exact .addEntry c job hpc
    · exact .none _
  · cases h
    exact .none _
  · cases h
  · cases h

theorem nextAttempt_operates {a : Attempt} {pc : AttemptPc} {n : ℕ}
    {body : ℕ → Option (Except Err StageResult)}
    (h : nextAttempt w.stores a n body = some (pc, op)) : Operates w env (.attempt a) op := by
  unfold nextAttempt at h
  split at h
  · cases h
    exact .none _
  · rename_i work hpc
    cases h
    exact .stage a work hpc
  · cases h
    exact .stageEvent a _ rfl
  · split at h <;> cases h <;> exact .none _
  · cases h
    exact .stageEvent a _ rfl
  · cases h
    exact .stageEvent a _ rfl
  · rename_i e mark hpc
    have hop : ∀ mark', nextMark w.stores a.jobId e.message mark = (mark', op) →
        Operates w env (.attempt a) op := by
      intro mark' hmark
      rcases nextMark_op hmark with rfl | ⟨m, rfl, rfl⟩ | ⟨event, hjob, rfl⟩
      · exact .none _
      · exact .failed a e m hpc
      · exact .stageEvent a event hjob
    split at h
    · rename_i op' hmark
      cases h
      exact hop none hmark
    · rename_i mark' op' hmark
      cases h
      exact hop (some mark') hmark
  · cases h
  · cases h

theorem nextBody_operates {b : Body} {pc : BodyPc} (h : nextBody w.stores env b = some (pc, op)) :
    Operates w env (.body b) op := by
  unfold nextBody at h
  split at h
  · split_ifs at h <;> cases h <;> exact .none _
  · split_ifs at h <;> cases h <;> exact .none _
  · rename_i text hpc
    cases h
    exact .transcript b text hpc
  · cases h
    exact .none _
  · rename_i sections hpc
    cases h
    exact .report b sections hpc
  · cases h
    exact .none _
  · rename_i view hpc
    cases h
    exact .putObject b view hpc
  · rename_i view hpc
    cases h
    exact .ready b view hpc
  · cases h

theorem nextHandler_operates {h : Handler} {pc : HandlerPc}
    (hn : nextHandler w.stores h = some (pc, op)) : Operates w env (.handler h) op := by
  unfold nextHandler at hn
  split at hn
  · rename_i mark hpc
    have hop : ∀ mark', nextMark w.stores h.jobId h.error.message mark = (mark', op) →
        Operates w env (.handler h) op := by
      intro mark' hmark
      rcases nextMark_op hmark with rfl | ⟨m, rfl, rfl⟩ | ⟨event, hjob, rfl⟩
      · exact .none _
      · exact .handled h m hpc
      · exact .failureEvent h event hjob
    split at hn
    · rename_i op' hmark
      cases hn
      exact hop none hmark
    · rename_i mark' op' hmark
      cases hn
      exact hop (some mark') hmark
  · rename_i hpc
    cases hn
    exact .parked h hpc
  · cases hn

theorem next_operates {t t' : Thread} {spawned : List Thread}
    (h : next cfg w env t = some (t', op, spawned)) : Operates w env t op := by
  cases next_segment h with
  | create c pc op hn =>
      rcases nextCreate_op hn with rfl | rfl
      · exact .none _
      · exact .create c
  | process c pc op hn =>
      exact nextProcess_operates hn
  | update c pc op hn =>
      rcases nextUpdate_op hn with rfl | ⟨wr, hpc, rfl, hw⟩
      · exact .none _
      · exact .update c wr hpc hw
  | remove c pc op hn =>
      rcases nextRemove_op hn with rfl | rfl | ⟨job, hpc, rfl⟩
      · exact .none _
      · exact .softDelete c
      · exact .deleteObjects c job hpc
  | attempt a pc op hn =>
      exact nextAttempt_operates hn
  | body b pc op hn =>
      exact nextBody_operates hn
  | handler hd pc op hn =>
      exact nextHandler_operates hn

theorem Operates.issues {t : Thread} (h : Operates w env t op) : Issues w env t op := by
  cases h with
  | create c => exact .create c
  | requeue c job pc => exact .process c job pc
  | update c wr pc write => exact .update c wr pc write
  | softDelete c => exact .remove c
  | deleteObjects c job pc => exact .deleteObjects c job pc
  | stage a work pc => exact .stage a work pc
  | failed a e m pc => exact .failed a e m pc
  | transcript b text pc => exact .transcript b text pc
  | report b sections pc => exact .report b sections pc
  | putObject b view pc => exact .putObject b view pc
  | ready b view pc => exact .ready b view pc
  | handled h m pc => exact .handled h m pc
  | _ => exact .aside _ _ rfl

theorem next_issues {t t' : Thread} {spawned : List Thread}
    (h : next cfg w env t = some (t', op, spawned)) : Issues w env t op :=
  (next_operates h).issues

/-- The stages that `process` may start with, or go on to after a transcript. -/
inductive Starts (job : Snapshot) : Work → Prop where
  | transcribe : Starts job (.transcribe job)
  | compile (transcript : String) (empty : job.existing = []) :
      Starts job (.compile job transcript)
  | render (full : job.existing ≠ []) : Starts job (.render job.label job.existing)

theorem compileStage_starts (job : Snapshot) (transcript : String) :
    ∃ work, compileStage job transcript = .setStatus work ∧ Starts job work := by
  unfold compileStage
  split_ifs with h
  · exact ⟨_, rfl, .compile transcript h⟩
  · exact ⟨_, rfl, .render h⟩

theorem transcribeStage_starts (job : Snapshot) :
    ∃ work, transcribeStage job = .setStatus work ∧ Starts job work := by
  unfold transcribeStage
  split
  · exact ⟨_, rfl, .transcribe⟩
  · rename_i transcript _
    split_ifs
    · exact ⟨_, rfl, .transcribe⟩
    · exact compileStage_starts job transcript

/-- An attempt ends after its read, or starts on a live job that is not READY with what it
keeps of the row. -/
theorem afterFindById_cases (jobId userId : String) (row : Option Job) :
    (∃ e, afterFindById jobId userId row = .settled e) ∨
      ∃ job key work, row = some job ∧ job.deletedAt = none ∧ job.userId = userId ∧
        job.status ≠ .READY ∧ job.audioKey.filter (· ≠ "") = some key ∧
        afterFindById jobId userId row = .setStatus work ∧
        Starts ⟨job.label, key, job.transcript, job.existingReport⟩ work := by
  unfold afterFindById
  split
  · exact .inl ⟨_, rfl⟩
  · rename_i job
    split_ifs with hd hu hr
    · exact .inl ⟨_, rfl⟩
    · exact .inl ⟨_, rfl⟩
    · exact .inl ⟨_, rfl⟩
    · split
      · exact .inl ⟨_, rfl⟩
      · rename_i key hk
        obtain ⟨work, hw, hst⟩ :=
          transcribeStage_starts ⟨job.label, key, job.transcript, job.existingReport⟩
        exact .inr ⟨job, key, work, rfl, Option.not_isSome_iff_eq_none.mp hd, not_not.mp hu, hr,
          hk, hw, hst⟩

/-- A thread that throws is of the same kind and serves the same job; where it goes on, it
goes on to no stage and to no write. -/
inductive Throws (e : Err) : Thread → Thread → Prop where
  | create (c : CreateCall) (pc : CreatePc) : Throws e (.create c) (.create { c with pc := pc })
  | process (c : ProcessCall) :
      Throws e (.process c) (.process { c with pc := .threw .unexpected })
  | update (c : UpdateCall) : Throws e (.update c) (.update { c with pc := .threw .unexpected })
  | remove (c : RemoveCall) (pc : RemovePc) (ended : pc = .returned ∨ ∃ error, pc = .threw error) :
      Throws e (.remove c) (.remove { c with pc := pc })
  | failing (a : Attempt) (work : Work) (result : StageResult)
      (pc : a.pc = .addCompleted work result) :
      Throws e (.attempt a) (.attempt { a with pc := .addFailed work e })
  | settling (a : Attempt) (open_ : a.pc ≠ .acked) :
      Throws e (.attempt a) (.attempt { a with pc := .settled (some e) })
  | leaving (a : Attempt) : Throws e (.attempt a) (.attempt { a with pc := afterThrow e })
  | body (b : Body) (open_ : ∀ r, b.pc ≠ .done r) :
      Throws e (.body b) (.body { b with pc := .done (.error e) })
  | handler (h : Handler) : Throws e (.handler h) (.handler { h with pc := .done })

theorem throwing_cases {e : Err} {t t' : Thread} (h : throwing e t = some t') :
    Throws e t t' := by
  cases t with
  | create c =>
      obtain ⟨pc, -, rfl⟩ := Option.map_eq_some_iff.mp h
      exact .create c pc
  | process c =>
      obtain ⟨pc, hpc, rfl⟩ := Option.map_eq_some_iff.mp h
      unfold ProcessCall.throwing at hpc
      split at hpc <;> cases hpc
      exact .process c
  | update c =>
      obtain ⟨pc, hpc, rfl⟩ := Option.map_eq_some_iff.mp h
      unfold UpdateCall.throwing at hpc
      split at hpc <;> cases hpc
      exact .update c
  | remove c =>
      obtain ⟨pc, hpc, rfl⟩ := Option.map_eq_some_iff.mp h
      unfold RemoveCall.throwing at hpc
      split at hpc <;> cases hpc
      · exact .remove c _ (.inl rfl)
      · exact .remove c _ (.inr ⟨_, rfl⟩)
  | attempt a =>
      obtain ⟨pc, hpc, rfl⟩ := Option.map_eq_some_iff.mp h
      unfold Attempt.throwing at hpc
      split at hpc <;> cases hpc
      · rename_i ha
        exact .settling a (by simp [ha])
      · exact .leaving a
      · exact .leaving a
      · rename_i work result ha
        exact .failing a work result ha
      · exact .leaving a
      · rename_i e' mark ha
        exact .settling a (by simp [ha])
  | body b =>
      obtain ⟨pc, hpc, rfl⟩ := Option.map_eq_some_iff.mp h
      unfold Body.throwing at hpc
      split at hpc <;> cases hpc
      rename_i hopen
      exact .body b hopen
  | handler hd =>
      obtain ⟨pc, hpc, rfl⟩ := Option.map_eq_some_iff.mp h
      unfold Handler.throwing at hpc
      split at hpc <;> cases hpc
      exact .handler hd

theorem mem_advance {now i : ℕ} {t' t₁ : Thread} {op : Op} {spawned : List Thread}
    (h : t₁ ∈ (w.advance now i t' op spawned).threads) :
    t₁ ∈ w.threads ∨ t₁ = t' ∨ t₁ ∈ spawned := by
  rcases List.mem_append.mp h with h | h
  · rcases List.mem_or_eq_of_mem_set h with h | h
    · exact .inl h
    · exact .inr (.inl h)
  · exact .inr (.inr h)

theorem bodyResult_eq_some {k : ℕ} {r : Except Err StageResult} :
    w.bodyResult k = some r ↔ ∃ b, w.threads[k]? = some (.body b) ∧ b.pc = .done r := by
  unfold World.bodyResult
  constructor
  · intro h
    split at h
    · rename_i b hb
      split at h
      · rename_i r' hpc
        cases h
        exact ⟨b, hb, hpc⟩
      · cases h
    · cases h
  · rintro ⟨b, hb, hpc⟩
    simp [hb, hpc]

/-- A finished body takes no further step. -/
theorem bodyResult_advance {now i k : ℕ} {t t' : Thread} {op : Op} {spawned : List Thread}
    {r : Except Err StageResult} (ht : w.threads[i]? = some t)
    (hopen : ∀ b r, t = .body b → b.pc ≠ .done r) (h : w.bodyResult k = some r) :
    (w.advance now i t' op spawned).bodyResult k = some r := by
  obtain ⟨b, hb, hpc⟩ := bodyResult_eq_some.mp h
  have hki : k ≠ i := by
    rintro rfl
    rw [ht] at hb
    cases hb
    exact hopen b r rfl hpc
  exact bodyResult_eq_some.mpr ⟨b, getElem?_advance_other hki hb, hpc⟩

theorem bodyResult_append {stores : Stores} {new : List Thread} {k : ℕ}
    {r : Except Err StageResult} (h : w.bodyResult k = some r) :
    (⟨stores, w.threads ++ new⟩ : World).bodyResult k = some r := by
  obtain ⟨b, hb, hpc⟩ := bodyResult_eq_some.mp h
  exact bodyResult_eq_some.mpr
    ⟨b, (List.getElem?_append_left (lt_of_getElem? hb)).trans hb, hpc⟩

theorem next_open {t t' : Thread} {op : Op} {spawned : List Thread}
    (h : next cfg w env t = some (t', op, spawned)) :
    ∀ b r, t = .body b → b.pc ≠ .done r := by
  rintro b r rfl hpc
  simp [next, nextBody, hpc] at h

/-- The result of a body is final. -/
theorem bodyResult_final {a : Action} {k : ℕ} {r : Except Err StageResult}
    (hs : step cfg w a = some w') (h : w.bodyResult k = some r) : w'.bodyResult k = some r := by
  cases step_effect hs with
  | called request => exact bodyResult_append h
  | stepped i env t t' op spawned thread next =>
      exact bodyResult_advance thread (next_open next) h
  | threw i env e t t' thread throws =>
      refine bodyResult_advance thread ?_ h
      rintro b r rfl hpc
      simp [throwing, Body.throwing, hpc] at throws
  | lost i env e t t' t₁ op spawned thread throws next =>
      exact bodyResult_advance thread (next_open next) h
  | timedOut i t t' thread out =>
      refine bodyResult_advance thread ?_ h
      rintro b r rfl
      cases out
  | acked i a e entry thread pc queued =>
      refine bodyResult_advance thread ?_ h
      rintro b r hb
      cases hb
  | picked jobId entry queued waiting => exact bodyResult_append h
  | promoted jobId entry queued delayed => exact bodyResult_append h
  | purged jobId entry queued completed => exact bodyResult_append h
  | uploaded userId jobId bytes => exact h

end FieldNote.ServerRuns
