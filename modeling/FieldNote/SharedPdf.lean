import FieldNote.ObjectKeys
import FieldNote.StageMoves

/-!
# When the shared PDF is the current report

The PDF is rendered from copies: an attempt keeps the label and the report it read or
compiled, and a render body keeps the view made from them. The guard is about the writes of
a label or a tree, a PATCH's or a compile body's: such a write leaves the content of a READY
job as it is, and every attempt or body that is going to render the job already holds what
the write leaves. Under it every held copy equals the row, so the object under the job's key
shows the row whenever the job is READY. Row ids are UUIDs; all that matters is that they
hold no slash.
-/
namespace FieldNote.SharedPdf
open JobsService PipelineService ServerRuns ObjectKeys GuardedRuns CallPool

/-- The view shows the label and the report. -/
def shows (label : String) (report : List ReportSectionInput) (view : ReportView) : Bool :=
  view = toReportView view.jobId label view.generatedAt report

/-- What is rendered after the stage, once its result is known. -/
def laterShows (label : String) (report : List ReportSectionInput) :
    Work → Option StageResult → Bool
  | .transcribe job, _ => job.label = label && (job.existing = [] || job.existing = report)
  | .compile job _, none => job.label = label
  | .compile job _, some result => job.label = label && result.sections = report
  | .render _ _, _ => true

def workShows (label : String) (report : List ReportSectionInput) : Work → Bool
  | .render l sections => l = label && sections = report
  | work => laterShows label report work none

def attemptShows (w : World) (label : String) (report : List ReportSectionInput) :
    AttemptPc → Bool
  | .setStatus work | .addStarted work => workShows label report work
  | .racing work body =>
      match w.bodyResult body with
      | some (.error _) => true
      | some (.ok result) => laterShows label report work (some result)
      | none => laterShows label report work none
  | .addCompleted work result => laterShows label report work (some result)
  | _ => true

def bodyShows (label : String) (report : List ReportSectionInput) : BodyPc → Bool
  | .render view | .putObject view | .setPdfReady view => shows label report view
  | _ => true

/-- What the thread holds of the job's label and report, and is going to render, is this
label and this report. -/
def agrees (w : World) (jobId label : String) (report : List ReportSectionInput) :
    Thread → Bool
  | .attempt a => a.jobId ≠ jobId || attemptShows w label report a.pc
  | .body b => b.jobId ≠ jobId || bodyShows label report b.pc
  | _ => true

/-- A write of a label or a tree that makes no PDF stale. -/
def harmless (w : World) (jobId : String) (wr : Write) : Bool :=
  match w.stores.findById jobId with
  | none => true
  | some job =>
      job.deletedAt.isSome ||
        ((job.status ≠ .READY || ((wr.apply 0 job).label = job.label &&
            (wr.apply 0 job).existingReport = job.existingReport)) &&
          w.threads.all (agrees w jobId (wr.apply 0 job).label (wr.apply 0 job).existingReport))

def threadOk (w : World) (env : Env) : Thread → Bool
  | .create c =>
      match c.pc with
      | .createDraft => '/' ∉ env.id.toList
      | _ => true
  | .update c =>
      match c.pc, updateWrite w.stores env c with
      | .commit, .ok (some wr) => harmless w c.jobId wr
      | _, _ => true
  | .body b =>
      match b.pc with
      | .replaceReport sections =>
          harmless w b.jobId (.replaceReport (insertSections env.rowId sections))
      | _ => true
  | _ => true

def writesHarmless (w : World) : Action → Bool
  | .step i env | .throw i env _ true => w.threads[i]?.all (threadOk w env)
  | _ => true

def Guard (w : World) (a : Action) : Prop := writesHarmless w a = true

instance : DecidableRel Guard := fun _ _ => inferInstanceAs (Decidable (_ = true))

variable {cfg : ServerConfig} {w w' : World} {env : Env} {jobId : String} {op : Op}
variable {label : String} {report : List ReportSectionInput}

theorem shows_toReportView (id : String) (now : ℕ) :
    shows label report (toReportView id label now report) = true := by
  simp [shows, toReportView]

/-- Two contents that one view shows are shown by the same views. -/
theorem shows_congr {label' : String} {report' : List ReportSectionInput} {v v' : ReportView}
    (h : shows label report v = true) (h' : shows label' report' v = true)
    (hv : shows label report v' = true) : shows label' report' v' = true := by
  simp only [shows, decide_eq_true_eq] at h h' hv ⊢
  rw [h] at h'
  rw [hv]
  simp only [toReportView, ReportView.mk.injEq, true_and] at h' ⊢
  exact h'

theorem laterShows_started {work : Work} (h : workShows label report work = true) :
    laterShows label report work none = true := by
  cases work with
  | render l sections => rfl
  | _ => exact h

theorem starts_shows {job : Snapshot} {work : Work} (hstarts : Starts job work)
    (hlabel : job.label = label) (hreport : job.existing = [] ∨ job.existing = report) :
    workShows label report work = true := by
  cases hstarts with
  | transcribe => simpa [workShows, laterShows, hlabel] using hreport
  | compile transcript empty => simpa [workShows, laterShows] using hlabel
  | render full =>
      rcases hreport with hr | hr
      · exact (full hr).elim
      · simp [workShows, hlabel, hr]

/-- The stage after a completed one renders what the completed one was going to. -/
theorem afterStage_shows {work : Work} {result : StageResult}
    (h : laterShows label report work (some result) = true) :
    attemptShows w label report (afterStage work result) = true := by
  cases work with
  | transcribe job =>
      simp only [laterShows, Bool.and_eq_true, Bool.or_eq_true, decide_eq_true_eq] at h
      obtain ⟨work', hw, hstarts⟩ := compileStage_starts job result.transcript
      simp only [afterStage, hw]
      exact starts_shows hstarts h.1 h.2
  | compile job transcript => simpa [afterStage, attemptShows, workShows, laterShows] using h
  | render l sections => rfl

/-- The row, when it is live, has this label and this report. -/
def RowShows (w : World) (jobId label : String) (report : List ReportSectionInput) : Prop :=
  ∀ row, w.stores.findById jobId = some row → row.deletedAt = none →
    row.label = label ∧ row.existingReport = report

theorem nextAttempt_shows {a : Attempt} {pc : AttemptPc}
    (h : nextAttempt w.stores a w.threads.length w.bodyResult = some (pc, op))
    (hrow : RowShows w a.jobId label report) (ha : attemptShows w label report a.pc = true) :
    attemptShows w label report pc = true := by
  unfold nextAttempt at h
  split at h
  · cases h
    rcases afterFindById_cases a.jobId a.userId (w.stores.findById a.jobId) with
      ⟨e, he⟩ | ⟨job, key, work, hjob, hlive, -, -, -, he, hstarts⟩
    · rw [he]
      rfl
    · obtain ⟨hlabel, hreport⟩ := hrow job hjob hlive
      rw [he]
      exact starts_shows hstarts hlabel (.inr hreport)
  · rename_i work hpc
    cases h
    rw [hpc] at ha
    exact ha
  · rename_i work hpc
    cases h
    rw [hpc] at ha
    have hnone : w.bodyResult w.threads.length = none := by simp [World.bodyResult]
    simp only [attemptShows, hnone]
    exact laterShows_started ha
  · rename_i work i hpc
    rw [hpc] at ha
    split at h
    · cases h
    · rename_i result hr
      cases h
      simpa only [attemptShows, hr] using ha
    · cases h
      rfl
  · rename_i work result hpc
    cases h
    rw [hpc] at ha
    exact afterStage_shows ha
  · cases h
    unfold afterThrow
    split_ifs <;> rfl
  · split at h <;> cases h <;> rfl
  · cases h
  · cases h

theorem nextBody_shows {b : Body} {pc : BodyPc} (h : nextBody w.stores env b = some (pc, op))
    (hb : bodyShows label report b.pc = true) : bodyShows label report pc = true := by
  unfold nextBody at h
  split at h
  · split_ifs at h <;> cases h <;> rfl
  · split_ifs at h <;> cases h <;> rfl
  · cases h
    rfl
  · cases h
    rfl
  · cases h
    rfl
  · rename_i view hpc
    cases h
    rw [hpc] at hb
    exact hb
  · rename_i view hpc
    cases h
    rw [hpc] at hb
    exact hb
  · cases h
    rfl
  · cases h

theorem spawn_shows {a : Attempt} {now : ℕ} {t : Thread} (ht : t ∈ Attempt.spawn a now)
    (ha : agrees w jobId label report (.attempt a) = true) :
    agrees w jobId label report t = true := by
  unfold Attempt.spawn at ht
  split at ht
  · rename_i work hpc
    rw [List.mem_singleton.mp ht]
    simp only [agrees, Bool.or_eq_true, decide_eq_true_eq] at ha ⊢
    refine ha.imp_right fun hs => ?_
    rw [hpc] at hs
    cases work with
    | render l sections =>
        simp only [attemptShows, workShows, Bool.and_eq_true, decide_eq_true_eq] at hs
        obtain ⟨rfl, rfl⟩ := hs
        exact shows_toReportView a.jobId now
    | _ => rfl
  · cases ht

/-- A segment renders nothing but what the thread held, or has just read from the row. -/
theorem next_agrees {t t' t₁ : Thread} {spawned : List Thread}
    (h : next cfg w env t = some (t', op, spawned))
    (hrow : ∀ a, t = .attempt a → RowShows w jobId label report)
    (ht : agrees w jobId label report t = true) (ht₁ : t₁ = t' ∨ t₁ ∈ spawned) :
    agrees w jobId label report t₁ = true := by
  cases next_segment h with
  | attempt a pc op hn =>
      rcases ht₁ with rfl | hsp
      · have hr := hrow a rfl
        simp only [agrees, Bool.or_eq_true, decide_eq_true_eq] at ht ⊢
        by_cases hid : a.jobId = jobId
        · subst hid
          exact .inr (nextAttempt_shows hn hr (ht.resolve_left fun hne => hne rfl))
        · exact .inl hid
      · exact spawn_shows hsp ht
  | body b pc op hn =>
      rcases ht₁ with rfl | hsp
      · simp only [agrees, Bool.or_eq_true, decide_eq_true_eq] at ht ⊢
        exact ht.imp_right (nextBody_shows hn)
      · cases hsp
  | _ =>
      rcases ht₁ with rfl | hsp
      · rfl
      · cases hsp

theorem throwing_agrees {t t' : Thread} {e : Err} (h : throwing e t = some t') :
    agrees w jobId label report t' = true := by
  cases throwing_cases h with
  | leaving a =>
      unfold afterThrow
      split_ifs <;> simp [agrees, attemptShows]
  | failing a => simp [agrees, attemptShows]
  | settling a => simp [agrees, attemptShows]
  | body b => simp [agrees, bodyShows]
  | _ => rfl

def compiling : BodyPc → Bool
  | .compile _ _ | .replaceReport _ | .done _ => true
  | _ => false

structure Inv (w : World) : Prop where
  ids : ∀ jobId row, w.stores.findById jobId = some row → '/' ∉ jobId.toList
  keys : RowKeys w.stores
  owns : ∀ t ∈ w.threads, Owns w.stores t
  race : ∀ a work body, Thread.attempt a ∈ w.threads → a.pc = .racing work body →
    ∃ b, w.threads[body]? = some (.body b) ∧ b.jobId = a.jobId ∧
      (work.stage = .compile → compiling b.pc = true)
  held : ∀ jobId row, w.stores.findById jobId = some row → row.deletedAt = none →
    ∀ t ∈ w.threads, agrees w jobId row.label row.existingReport t = true
  stored : ∀ jobId row, w.stores.findById jobId = some row → row.deletedAt = none →
    (row.status = .READY ∨
      ∃ b view, Thread.body b ∈ w.threads ∧ b.jobId = jobId ∧ b.pc = .setPdfReady view) →
    ∃ view, w.stores.bucket (pdfKey row.userId jobId) = some (.pdf view) ∧
      shows row.label row.existingReport view = true

theorem inv_empty : Inv World.empty := by
  have hnone : ∀ jobId row, World.empty.stores.findById jobId ≠ some row := by
    intro jobId row h
    cases h
  refine ⟨fun j r h => (hnone j r h).elim, fun j r h => (hnone j r h).elim, ?_, ?_,
    fun j r h => (hnone j r h).elim, fun j r h => (hnone j r h).elim⟩
  · intro t ht
    cases ht
  · intro a work body ha
    cases ha

/-- What a move of one thread does to the copies that are held. -/
structure Moves (w : World) (now : ℕ) (t t' : Thread) (op : Op) (spawned : List Thread) :
    Prop where
  agrees : ∀ jobId label report, (∀ a, t = .attempt a → RowShows w jobId label report) →
    agrees w jobId label report t = true → ∀ t₁, t₁ = t' ∨ t₁ ∈ spawned →
      agrees w jobId label report t₁ = true
  owns : RowKeys w.stores → Owns w.stores t → ∀ t₁, t₁ = t' ∨ t₁ ∈ spawned →
    Owns (w.stores.run now op) t₁
  open_ : ∀ b r, t = .body b → b.pc ≠ .done r
  body : ∀ b, t = .body b → ∃ b', t' = .body b' ∧ b'.jobId = b.jobId ∧
    (compiling b.pc = true → compiling b'.pc = true) ∧
      ∀ r, compiling b.pc = true → b'.pc = .done (.ok r) →
        ∃ rowId, op = .write b.jobId (.replaceReport (insertSections rowId r.sections))
  race : ∀ a work i, t' = .attempt a → a.pc = .racing work i → i = w.threads.length ∧
    ∃ b, spawned = [.body b] ∧ b.jobId = a.jobId ∧ (work.stage = .compile → compiling b.pc = true)
  spawned_attempt : ∀ a, Thread.attempt a ∉ spawned
  spawned_open : ∀ b r, Thread.body b ∈ spawned → b.pc ≠ .done r
  ready : ∀ b view, (Thread.body b = t' ∨ Thread.body b ∈ spawned) → b.pc = .setPdfReady view →
    op = .putObject (pdfKey b.userId b.jobId) (.pdf view)

theorem startBody_open {id : String} {now : ℕ} {work : Work} :
    (∀ r, startBody id now work ≠ .done r) ∧ ∀ view, startBody id now work ≠ .setPdfReady view := by
  cases work <;> simp [startBody]

theorem nextBody_moves {b : Body} {pc : BodyPc} (h : nextBody w.stores env b = some (pc, op)) :
    (compiling b.pc = true → compiling pc = true) ∧
      (∀ r, compiling b.pc = true → pc = .done (.ok r) →
        ∃ rowId, op = .write b.jobId (.replaceReport (insertSections rowId r.sections))) ∧
      ∀ view, pc = .setPdfReady view → op = .putObject (pdfKey b.userId b.jobId) (.pdf view) := by
  rcases b with ⟨id, userId, pc₀⟩
  cases pc₀ with
  | getObjectStream key =>
      simp only [nextBody] at h
      split_ifs at h <;> cases h <;> simp [compiling]
  | transcribe key =>
      simp only [nextBody] at h
      split_ifs at h <;> cases h <;> simp [compiling]
  | replaceReport sections =>
      cases h
      refine ⟨fun _ => rfl, ?_, by simp⟩
      rintro r - hr
      cases hr
      exact ⟨env.rowId, rfl⟩
  | done result => cases h
  | _ =>
      cases h
      simp [compiling]

theorem next_moves {t t' : Thread} {spawned : List Thread} {now : ℕ}
    (h : next cfg w env t = some (t', op, spawned)) : Moves w now t t' op spawned := by
  cases next_segment h with
  | attempt a pc op hn =>
      refine ⟨fun _ _ _ hrow ht _ ht₁ => next_agrees h hrow ht ht₁,
        fun hkeys ht _ ht₁ => next_owns h hkeys ht ht₁, by simp, by simp, ?_, ?_, ?_, ?_⟩
      · intro a' work i ha' hrace
        cases ha'
        dsimp only at hrace
        subst hrace
        have hmove : AttemptMove cfg w a env.now (.racing work i) op (Attempt.spawn a env.now) :=
          nextAttempt_move hn
        obtain ⟨hi, hspawn⟩ := hmove.racing
        refine ⟨hi, ⟨a.jobId, a.userId, startBody a.jobId env.now work⟩, hspawn, rfl, ?_⟩
        intro hstage
        cases work with
        | compile job transcript => rfl
        | _ => cases hstage
      · intro a' hsp
        obtain ⟨work, -, hb⟩ := spawn_body hsp
        cases hb
      · intro b r hsp
        obtain ⟨work, -, hb⟩ := spawn_body hsp
        cases hb
        exact startBody_open.1 r
      · rintro b view (hb | hsp) hpc
        · cases hb
        · obtain ⟨work, -, hb⟩ := spawn_body hsp
          cases hb
          exact (startBody_open.2 view hpc).elim
  | body b pc op hn =>
      obtain ⟨hkind, hdone, hready⟩ := nextBody_moves hn
      refine ⟨fun _ _ _ hrow ht _ ht₁ => next_agrees h hrow ht ht₁,
        fun hkeys ht _ ht₁ => next_owns h hkeys ht ht₁, next_open h, ?_, by simp, by simp, by simp, ?_⟩
      · intro b' hb'
        cases hb'
        exact ⟨_, rfl, rfl, hkind, hdone⟩
      · rintro b' view (hb | hsp) hpc
        · cases hb
          exact hready view hpc
        · cases hsp
  | _ =>
      exact ⟨fun _ _ _ hrow ht _ ht₁ => next_agrees h hrow ht ht₁,
        fun hkeys ht _ ht₁ => next_owns h hkeys ht ht₁, by simp, by simp, by simp, by simp,
        by simp, by simp⟩

theorem throwing_moves {t t' : Thread} {e : Err} {now : ℕ} (h : throwing e t = some t') :
    Moves w now t t' op [] := by
  refine ⟨?_, ?_, ?_, ?_, ?_, by simp, by simp, ?_⟩
  · intro jobId label report _ _ t₁ ht₁
    rcases ht₁ with rfl | hsp
    · exact throwing_agrees h
    · cases hsp
  · intro _ ht t₁ ht₁
    rcases ht₁ with rfl | hsp
    · exact throwing_owns h ht
    · cases hsp
  · rintro b r rfl
    cases throwing_cases h with
    | body b open_ => exact open_ r
  · rintro b rfl
    cases throwing_cases h with
    | body b open_ => exact ⟨_, rfl, rfl, fun _ => rfl, by simp⟩
  · intro a work i ha hpc
    subst ha
    generalize ht' : Thread.attempt a = t' at h
    cases throwing_cases h with
    | leaving a' =>
        cases ht'
        unfold afterThrow at hpc
        dsimp only at hpc
        split_ifs at hpc
    | failing a' =>
        cases ht'
        cases hpc
    | settling a' =>
        cases ht'
        cases hpc
    | _ => cases ht'
  · rintro b view (hb | hsp) hpc
    · subst hb
      generalize ht' : Thread.body b = t' at h
      cases throwing_cases h with
      | body b' open_ =>
          cases ht'
          cases hpc
      | _ => cases ht'
    · cases hsp

/-- An attempt that only settles or fails. -/
theorem attempt_moves {a : Attempt} {pc : AttemptPc} {spawned : List Thread} {now : ℕ}
    (hshows : ∀ label report, attemptShows w label report pc = true) (hstaged : staged pc = false)
    (hsp : ∀ t ∈ spawned, ∃ hd, t = .handler hd) :
    Moves w now (.attempt a) (.attempt { a with pc := pc }) op spawned := by
  refine ⟨?_, ?_, by simp, by simp, ?_, ?_, ?_, ?_⟩
  · intro jobId label report _ _ t₁ ht₁
    rcases ht₁ with rfl | ht₁
    · simp [agrees, hshows]
    · obtain ⟨hd, rfl⟩ := hsp t₁ ht₁
      rfl
  · intro _ _ t₁ ht₁
    rcases ht₁ with rfl | ht₁
    · intro hs
      rw [hstaged] at hs
      cases hs
    · obtain ⟨hd, rfl⟩ := hsp t₁ ht₁
      trivial
  · intro a' work i ha hpc
    cases ha
    dsimp only at hpc
    subst hpc
    cases hstaged
  · intro a' ha
    obtain ⟨hd, hhd⟩ := hsp _ ha
    cases hhd
  · intro b r hb
    obtain ⟨hd, hhd⟩ := hsp _ hb
    cases hhd
  · rintro b view (hb | hb) hpc
    · cases hb
    · obtain ⟨hd, hhd⟩ := hsp _ hb
      cases hhd

theorem acts_moves {act : Action} {i now : ℕ} {t t' : Thread} {spawned : List Thread}
    (h : Acts cfg w i act t now t' op spawned) : Moves w now t t' op spawned := by
  cases h with
  | stepped env t t' op spawned next => exact next_moves next
  | threw env e t t' throws => exact throwing_moves throws
  | lost env e t t' t₁ op spawned throws next => exact throwing_moves throws
  | timedOut t t' out =>
      obtain ⟨a, work, body, rfl, -, rfl⟩ := timingOut_eq out
      exact attempt_moves (fun _ _ => rfl) rfl (by simp)
  | acked a e entry pc queued =>
      refine attempt_moves (fun _ _ => rfl) rfl ?_
      intro t ht
      obtain ⟨err, -, rfl⟩ := settle_handler ht
      exact ⟨_, rfl⟩

section Advance
variable {now i : ℕ} {t t' : Thread} {spawned : List Thread}

/-- The result of a body after the move: as before, or the one the moving body has just
finished with. -/
theorem bodyResult_cases (hm : Moves w now t t' op spawned) (ht : w.threads[i]? = some t)
    (k : ℕ) :
    (w.advance now i t' op spawned).bodyResult k = w.bodyResult k ∨
      ∃ b r, k = i ∧ t' = .body b ∧ b.pc = .done r ∧ w.bodyResult k = none ∧
        (w.advance now i t' op spawned).bodyResult k = some r := by
  cases hold : w.bodyResult k with
  | some r => exact .inl (bodyResult_advance ht hm.open_ hold)
  | none =>
      cases hnew : (w.advance now i t' op spawned).bodyResult k with
      | none => exact .inl rfl
      | some r =>
          obtain ⟨b, hb, hpc⟩ := bodyResult_eq_some.mp hnew
          rcases getElem?_advance_cases hb with ⟨rfl, hbt⟩ | ⟨-, hb⟩ | ⟨-, hb⟩
          · exact .inr ⟨b, r, rfl, hbt.symm, hpc, rfl, rfl⟩
          · rw [bodyResult_eq_some.mpr ⟨b, hb, hpc⟩] at hold
            cases hold
          · exact (hm.spawned_open b r (List.mem_of_getElem? hb) hpc).elim

/-- A thread that agrees with a content goes on agreeing with it when a body finishes, if
what a compile body has stored is that content. -/
theorem agrees_advance (h : Inv w) (hm : Moves w now t t' op spawned)
    (ht : w.threads[i]? = some t) {t₁ : Thread}
    (ht₁ : t₁ ∈ (w.advance now i t' op spawned).threads)
    (hstored : ∀ rowId sections, op = .write jobId (.replaceReport (insertSections rowId sections)) →
      sections = report)
    (hw : agrees w jobId label report t₁ = true) :
    agrees (w.advance now i t' op spawned) jobId label report t₁ = true := by
  cases t₁ with
  | attempt a =>
      simp only [agrees, Bool.or_eq_true, decide_eq_true_eq] at hw ⊢
      by_cases hid : a.jobId = jobId
      · refine .inr ?_
        replace hw := hw.resolve_left fun hne => hne hid
        cases hpc : a.pc with
        | racing work k =>
            rw [hpc] at hw
            simp only [attemptShows] at hw ⊢
            rcases bodyResult_cases hm ht k with heq | ⟨b', r, rfl, rfl, hdone, hnone, hres⟩
            · rw [heq]
              exact hw
            · rw [hres]
              rw [hnone] at hw
              cases r with
              | error e => rfl
              | ok result =>
                  have hmem : Thread.attempt a ∈ w.threads := by
                    rcases mem_advance ht₁ with hmem | heq | hsp
                    · exact hmem
                    · cases heq
                    · exact (hm.spawned_attempt a hsp).elim
                  obtain ⟨b, hb, hjob, hkind⟩ := h.race a work k hmem hpc
                  rw [ht] at hb
                  cases hb
                  obtain ⟨b'', hb'', -, -, hop⟩ := hm.body b rfl
                  cases hb''
                  cases work with
                  | compile job transcript =>
                      obtain ⟨rowId, hop⟩ := hop result (hkind rfl) hdone
                      rw [hjob, hid] at hop
                      simp only [laterShows, decide_eq_true_eq] at hw
                      simp [laterShows, hw, hstored rowId _ hop]
                  | _ => exact hw
        | _ =>
            rw [hpc] at hw
            exact hw
      · exact .inl hid
  | _ => exact hw

end Advance

/-- The operations of a thread that meets the guard. -/
inductive OpOk (w : World) : Thread → Op → Prop where
  | aside (t : Thread) (op : Op) (aside : Op.aside op = true) : OpOk w t op
  | insert (c : CreateCall) (row : Job) (id : '/' ∉ row.id.toList)
      (audio : row.audioKey = some (audioKey row.userId row.id)) (pdf : row.pdfKey = none)
      (status : row.status = .CREATED) : OpOk w (.create c) (.insertJob row)
  | other (t : Thread) (id : String) (wr : Write) (label : ∀ row, wr.newLabel row = none)
      (sections : ∀ row, wr.newSections row = none) (status : wr.newStatus ≠ some .READY)
      (key : wr.newPdfKey = none) : OpOk w t (.write id wr)
  | content (t : Thread) (id : String) (wr : Write) (reader : ∀ a, t ≠ .attempt a)
      (harmless : harmless w id wr = true) (status : wr.newStatus = none)
      (key : wr.newPdfKey = none) : OpOk w t (.write id wr)
  | ready (b : Body) (view : ReportView) (pc : b.pc = .setPdfReady view) :
      OpOk w (.body b) (.write b.jobId (.setPdfReady (pdfKey b.userId b.jobId)))
  | putObject (b : Body) (view : ReportView) (pc : b.pc = .putObject view) :
      OpOk w (.body b) (.putObject (pdfKey b.userId b.jobId) (.pdf view))
  | deleteObjects (c : RemoveCall) (job : Job) (pc : c.pc = .deleteObjects job) :
      OpOk w (.remove c) (.deleteObjects job.objectKeys)

theorem opOk {t t' : Thread} {spawned : List Thread}
    (h : next cfg w env t = some (t', op, spawned)) (hok : threadOk w env t = true) :
    OpOk w t op := by
  cases next_issues h with
  | aside t op aside => exact .aside t op aside
  | create c =>
      have hid : '/' ∉ env.id.toList := by
        cases hpc : c.pc with
        | createDraft => simpa [threadOk, hpc] using hok
        | findByIdempotencyKey key =>
            simp only [next, nextCreate, hpc] at h
            split at h <;> cases h
        | returned response => simp [next, nextCreate, hpc] at h
        | threw error => simp [next, nextCreate, hpc] at h
      exact .insert c _ hid rfl rfl rfl
  | update c wr pc write =>
      refine .content _ _ wr (by simp) (by simpa [threadOk, pc, write] using hok) ?_ ?_
      · rcases updateWrite_cases write with ⟨label, rfl⟩ | ⟨label, rows, rfl⟩ <;> rfl
      · rcases updateWrite_cases write with ⟨label, rfl⟩ | ⟨label, rows, rfl⟩ <;> rfl
  | report b sections pc =>
      exact .content _ _ _ (by simp) (by simpa [threadOk, pc] using hok) rfl rfl
  | deleteObjects c job pc => exact .deleteObjects c job pc
  | putObject b view pc => exact .putObject b view pc
  | ready b view pc => exact .ready b view pc
  | stage a work pc =>
      refine .other _ _ _ (fun _ => rfl) (fun _ => rfl) ?_ rfl
      cases work <;> simp [Write.newStatus, Work.stage, Stage.status]
  | _ => exact .other _ _ _ (fun _ => rfl) (fun _ => rfl) (by simp [Write.newStatus]) rfl

theorem acts_opOk {act : Action} {i now : ℕ} {t t' : Thread} {spawned : List Thread}
    (hg : Guard w act) (at_ : w.threads[i]? = some t)
    (h : Acts cfg w i act t now t' op spawned) : OpOk w t op := by
  cases h with
  | stepped env t t' op spawned next =>
      have hok : threadOk w env t = true := by simpa [Guard, writesHarmless, at_] using hg
      exact opOk next hok
  | threw env e t t' throws => exact .aside t .none rfl
  | lost env e t t' t₁ op spawned throws next =>
      have hok : threadOk w env t = true := by simpa [Guard, writesHarmless, at_] using hg
      exact opOk next hok
  | timedOut t t' out => exact .aside t .none rfl
  | acked a e entry pc queued => exact .aside _ _ rfl

/-- The guard asks for UUIDs, among other things. -/
theorem uuidIds_of_guard {act : Action} (hg : Guard w act) : UuidIds w act := by
  have hthread : ∀ env t, threadOk w env t = true → insertsUuid env t = true := by
    intro env t hok
    cases t with
    | create c =>
        cases hpc : c.pc with
        | createDraft => simpa [threadOk, insertsUuid, hpc] using hok
        | _ => simp [insertsUuid, hpc]
    | _ => rfl
  have hall : ∀ (i : ℕ) (env : Env), (w.threads[i]?).all (threadOk w env) = true →
      (w.threads[i]?).all (insertsUuid env) = true := by
    intro i env h
    cases ht : w.threads[i]? with
    | none => rfl
    | some t =>
        rw [ht] at h
        exact hthread env t h
  cases act with
  | step i env => exact hall i env hg
  | throw i env e applied =>
      cases applied with
      | true => exact hall i env hg
      | false => rfl
  | _ => rfl

theorem Inv.kept (h : Inv w) : Kept w := ⟨h.ids, h.keys, h.owns⟩

/-- How the live row of a job comes out of an operation of a thread `t`. -/
structure RowMove (w : World) (t : Thread) (jobId : String) (row row' : Job) : Prop where
  before : w.stores.findById jobId = some row
  live : row.deletedAt = none
  user : row'.userId = row.userId
  agree : ∀ t₁ ∈ w.threads, agrees w jobId row'.label row'.existingReport t₁ = true
  read : ∀ a, t = .attempt a → RowShows w jobId row'.label row'.existingReport
  ready : row'.status = .READY → row.status = .READY ∨
    ∃ b view, t = .body b ∧ b.jobId = jobId ∧ b.pc = .setPdfReady view
  kept : row.status = .READY →
    row'.label = row.label ∧ row'.existingReport = row.existingReport

theorem RowMove.same {t : Thread} {row row' : Job} (h : Inv w)
    (hrow : w.stores.findById jobId = some row) (hlive : row.deletedAt = none)
    (huser : row'.userId = row.userId) (hlabel : row'.label = row.label)
    (hreport : row'.existingReport = row.existingReport)
    (hready : row'.status = .READY → row.status = .READY ∨
      ∃ b view, t = .body b ∧ b.jobId = jobId ∧ b.pc = .setPdfReady view) :
    RowMove w t jobId row row' := by
  refine ⟨hrow, hlive, huser, ?_, ?_, hready, fun _ => ⟨hlabel, hreport⟩⟩
  · rw [hlabel, hreport]
    exact h.held jobId row hrow hlive
  · intro _ _ row₁ hrow₁ _
    rw [hrow] at hrow₁
    cases hrow₁
    exact ⟨hlabel.symm, hreport.symm⟩

/-- A write with no label and no tree leaves the content of the row. -/
theorem apply_content (wr : Write) (row : Job) (now : ℕ) (hlabel : wr.newLabel row = none)
    (hsections : wr.newSections row = none) :
    (wr.apply now row).label = row.label ∧
      (wr.apply now row).existingReport = row.existingReport := by
  refine ⟨by rw [wr.apply_label, hlabel, Option.getD_none], ?_⟩
  simp only [Job.existingReport, wr.apply_sections, hsections, Option.getD_none]

/-- The content that a write leaves does not depend on the clock. -/
theorem apply_clock (wr : Write) (row : Job) (now : ℕ) :
    (wr.apply now row).label = (wr.apply 0 row).label ∧
      (wr.apply now row).existingReport = (wr.apply 0 row).existingReport := by
  simp only [Job.existingReport, wr.apply_label, wr.apply_sections, and_self]

theorem row_moves {t : Thread} {now : ℕ} {row' : Job} (h : Inv w) (hop : OpOk w t op)
    (hrow' : (w.stores.run now op).findById jobId = some row') (hlive' : row'.deletedAt = none) :
    (∃ row, RowMove w t jobId row row') ∨
      (op = .insertJob row' ∧ row'.id = jobId ∧ w.stores.findById jobId = none) := by
  rcases Stores.run_row_before hrow' with hrow | ⟨wr, row, rfl, hrow, rfl⟩ | hcreated
  · exact .inl ⟨row', .same h hrow hlive' rfl rfl rfl .inl⟩
  · have hlive := wr.apply_live now row hlive'
    refine .inl ⟨row, ?_⟩
    cases hop with
    | aside _ _ haside => cases haside
    | other _ _ _ hlabel hsections hstatus hkey =>
        obtain ⟨hl, hs⟩ := apply_content wr row now (hlabel row) (hsections row)
        refine .same h hrow hlive (wr.apply_userId now row) hl hs fun hready => .inl ?_
        rw [wr.apply_status] at hready
        cases hst : wr.newStatus with
        | none => simpa [hst] using hready
        | some status =>
            simp only [hst, Option.getD_some] at hready
            exact (hstatus (hready ▸ hst)).elim
    | content _ _ _ reader hharmless hstatus hkey =>
        simp only [harmless, hrow, hlive, Option.isSome_none, Bool.false_or, Bool.and_eq_true,
          Bool.or_eq_true, decide_eq_true_eq, List.all_eq_true] at hharmless
        obtain ⟨hready, hagree⟩ := hharmless
        obtain ⟨hl, hs⟩ := apply_clock wr row now
        refine ⟨hrow, hlive, wr.apply_userId now row, ?_, ?_, ?_, ?_⟩
        · rw [hl, hs]
          exact hagree
        · intro a ha
          exact (reader a ha).elim
        · intro hst
          rw [wr.apply_status, hstatus] at hst
          exact .inl hst
        · intro hst
          rw [hl, hs]
          exact hready.resolve_left fun hne => hne hst
    | ready b view pc =>
        obtain ⟨hl, hs⟩ := apply_content (.setPdfReady (pdfKey b.userId b.jobId)) row now rfl rfl
        exact .same h hrow hlive (Write.apply_userId now row _) hl hs fun _ =>
          .inr ⟨b, view, rfl, rfl, pc⟩
  · exact .inr hcreated

/-- No thread holds anything of a job that has no row. -/
theorem agrees_of_free (h : Inv w) (hfree : w.stores.findById jobId = none) {t : Thread}
    (ht : t ∈ w.threads) : agrees w jobId label report t = true := by
  have howns := h.owns t ht
  cases t with
  | attempt a =>
      simp only [agrees, Bool.or_eq_true, decide_eq_true_eq]
      by_cases hid : a.jobId = jobId
      · subst hid
        refine .inr ?_
        have hunstaged : staged a.pc = false := by
          by_contra hs
          obtain ⟨row, hrow, -⟩ := howns (Bool.not_eq_false _ ▸ hs)
          rw [hfree] at hrow
          cases hrow
        cases hpc : a.pc <;> first | rfl | (rw [hpc] at hunstaged; cases hunstaged)
      · exact .inl hid
  | body b =>
      simp only [agrees, Bool.or_eq_true, decide_eq_true_eq]
      refine .inl ?_
      rintro rfl
      obtain ⟨row, hrow, -⟩ := howns
      rw [hfree] at hrow
      cases hrow
  | _ => rfl

section Advance
variable {now i : ℕ} {t t' : Thread} {spawned : List Thread}

theorem race_advance {a : Attempt} {work : Work} {k : ℕ} (h : Inv w)
    (hm : Moves w now t t' op spawned) (ht : w.threads[i]? = some t)
    (ha : Thread.attempt a ∈ (w.advance now i t' op spawned).threads)
    (hpc : a.pc = .racing work k) :
    ∃ b, (w.advance now i t' op spawned).threads[k]? = some (.body b) ∧ b.jobId = a.jobId ∧
      (work.stage = .compile → compiling b.pc = true) := by
  rcases mem_advance ha with hold | hnew | hsp
  · obtain ⟨b, hb, hjob, hkind⟩ := h.race a work k hold hpc
    by_cases hki : k = i
    · subst hki
      rw [ht] at hb
      cases hb
      obtain ⟨b', hb', hjob', hkind', -⟩ := hm.body b rfl
      refine ⟨b', ?_, hjob'.trans hjob, fun hs => hkind' (hkind hs)⟩
      rw [World.advance, getElem?_advance_same ht, hb']
    · exact ⟨b, getElem?_advance_other hki hb, hjob, hkind⟩
  · obtain ⟨rfl, b, rfl, hjob, hkind⟩ := hm.race a work k hnew.symm hpc
    refine ⟨b, ?_, hjob, hkind⟩
    simp [World.advance]
  · exact (hm.spawned_attempt a hsp).elim

theorem held_advance {row' : Job} {t₁ : Thread} (h : Inv w) (hop : OpOk w t op)
    (hm : Moves w now t t' op spawned) (ht : w.threads[i]? = some t)
    (hrow' : (w.stores.run now op).findById jobId = some row') (hlive' : row'.deletedAt = none)
    (ht₁ : t₁ ∈ (w.advance now i t' op spawned).threads) :
    agrees (w.advance now i t' op spawned) jobId row'.label row'.existingReport t₁ = true := by
  have hmem := List.mem_of_getElem? ht
  refine agrees_advance h hm ht ht₁ ?_ ?_
  · rintro rowId sections rfl
    rw [Stores.run_row_write] at hrow'
    obtain ⟨row, -, rfl⟩ := Option.map_eq_some_iff.mp hrow'
    exact (reportOf_insertSections rowId sections).symm
  · have hboth : (∀ t₂ ∈ w.threads, agrees w jobId row'.label row'.existingReport t₂ = true) ∧
        ∀ a, t = .attempt a → RowShows w jobId row'.label row'.existingReport := by
      rcases row_moves h hop hrow' hlive' with ⟨row, hmove⟩ | ⟨-, -, hfree⟩
      · exact ⟨hmove.agree, hmove.read⟩
      · refine ⟨fun t₂ ht₂ => agrees_of_free h hfree ht₂, fun _ _ row hrow => ?_⟩
        rw [hfree] at hrow
        cases hrow
    rcases mem_advance ht₁ with hold | hnew
    · exact hboth.1 t₁ hold
    · exact hm.agrees jobId _ _ hboth.2 (hboth.1 t hmem) t₁ hnew

/-- The thread that has just stored a PDF stored the current report. -/
theorem stored_fresh {row' : Job} {b : Body} {view : ReportView} (h : Inv w)
    (hm : Moves w now t t' op spawned) (ht : w.threads[i]? = some t)
    (hmove : ∃ row, RowMove w t jobId row row')
    (hrow' : (w.stores.run now op).findById jobId = some row')
    (hnew : Thread.body b = t' ∨ Thread.body b ∈ spawned) (hjob : b.jobId = jobId)
    (hpc : b.pc = .setPdfReady view) :
    (w.stores.run now op).bucket (pdfKey row'.userId jobId) = some (.pdf view) ∧
      shows row'.label row'.existingReport view = true := by
  have hmem := List.mem_of_getElem? ht
  obtain ⟨row, hmove⟩ := hmove
  have hop := hm.ready b view hnew hpc
  obtain ⟨row₁, hrow₁, huser⟩ : Owned (w.stores.run now op) b.userId b.jobId :=
    hm.owns h.keys (h.owns t hmem) (.body b) hnew
  rw [hjob, hrow'] at hrow₁
  cases hrow₁
  refine ⟨?_, ?_⟩
  · rw [hop, huser, hjob]
    simp [Stores.run]
  · have hagree := hm.agrees jobId _ _ hmove.read (hmove.agree t hmem) (.body b) hnew
    simpa [agrees, hjob, bodyShows, hpc] using hagree

theorem stored_advance {row' : Job} (h : Inv w) (hop : OpOk w t op) (hissues : Issues w env t op)
    (hm : Moves w now t t' op spawned) (ht : w.threads[i]? = some t)
    (hrow' : (w.stores.run now op).findById jobId = some row') (hlive' : row'.deletedAt = none)
    (hcond : row'.status = .READY ∨ ∃ b view,
      Thread.body b ∈ (w.advance now i t' op spawned).threads ∧ b.jobId = jobId ∧
        b.pc = .setPdfReady view) :
    ∃ view, (w.stores.run now op).bucket (pdfKey row'.userId jobId) = some (.pdf view) ∧
      shows row'.label row'.existingReport view = true := by
  have hmem := List.mem_of_getElem? ht
  rcases row_moves h hop hrow' hlive' with ⟨row, hmove⟩ | ⟨rfl, hid, hfree⟩
  · -- either a PDF has just been stored, or the one stored before is looked up again
    have hold : (row.status = .READY ∨ ∃ b view, Thread.body b ∈ w.threads ∧ b.jobId = jobId ∧
        b.pc = .setPdfReady view) → ∃ view,
          (w.stores.run now op).bucket (pdfKey row'.userId jobId) = some (.pdf view) ∧
            shows row'.label row'.existingReport view = true := by
      intro hc
      obtain ⟨view, hview, hshows⟩ := h.stored jobId row hmove.before hmove.live hc
      rw [hmove.user]
      rcases pdf_kept now h.kept hissues hmem hmove.before hmove.live with
        hsame | ⟨b, view', rfl, hjob, hpc, hput⟩
      · refine ⟨view, hsame.trans hview, ?_⟩
        rcases hc with hready | ⟨b, v, hb, hjob, hpc⟩
        · obtain ⟨hl, hs⟩ := hmove.kept hready
          rw [hl, hs]
          exact hshows
        · have hheld := h.held jobId row hmove.before hmove.live _ hb
          have hafter := hmove.agree _ hb
          simp only [agrees, hjob, hpc, bodyShows, ne_eq, not_true_eq_false, decide_false,
            Bool.false_or] at hheld hafter
          exact shows_congr hheld hafter hshows
      · refine ⟨view', hput, ?_⟩
        simpa [agrees, hjob, hpc, bodyShows] using hmove.agree _ hmem
    rcases hcond with hready | ⟨b, view, hb, hjob, hpc⟩
    · rcases hmove.ready hready with hready | ⟨b, view, rfl, hjob, hpc⟩
      · exact hold (.inl hready)
      · exact hold (.inr ⟨b, view, hmem, hjob, hpc⟩)
    · rcases mem_advance hb with hb | hnew
      · exact hold (.inr ⟨b, view, hb, hjob, hpc⟩)
      · exact ⟨view, stored_fresh h hm ht ⟨row, hmove⟩ hrow' hnew hjob hpc⟩
  · -- a row that has just been inserted is not READY, and no body works on it
    have hst : row'.status = .CREATED := by
      cases hop with
      | aside _ _ haside => cases haside
      | insert c _ _ _ _ hst => exact hst
    rcases hcond with hready | ⟨b, view, hb, hjob, hpc⟩
    · rw [hst] at hready
      cases hready
    · rcases mem_advance hb with hb | hnew
      · obtain ⟨row, hrow, -⟩ : Owned w.stores b.userId b.jobId := h.owns _ hb
        rw [hjob, hfree] at hrow
        cases hrow
      · have hput := hm.ready b view hnew hpc
        cases hput

theorem inv_advance {act : Action} (h : Inv w) (hg : Guard w act) (at_ : w.threads[i]? = some t)
    (acts : Acts cfg w i act t now t' op spawned)
    (hkept : Kept (w.advance now i t' op spawned)) : Inv (w.advance now i t' op spawned) := by
  have hop : OpOk w t op := acts_opOk hg at_ acts
  have hm : Moves w now t t' op spawned := acts_moves acts
  obtain ⟨env, hissues⟩ := acts.issues
  refine ⟨hkept.ids, hkept.keys, hkept.owns, ?_, ?_, ?_⟩
  · intro a work k ha hpc
    exact race_advance h hm at_ ha hpc
  · intro jobId row hrow hlive t₁ ht₁
    exact held_advance h hop hm at_ hrow hlive ht₁
  · intro jobId row hrow hlive hcond
    exact stored_advance h hop hissues hm at_ hrow hlive hcond

end Advance

/-- A step from outside stores no PDF. -/
theorem outside_bucket {act : Action} {new : List Thread} (acts : Outside w act op new)
    (u j : String) :
    (w.stores.run 0 op).bucket (pdfKey u j) = w.stores.bucket (pdfKey u j) := by
  cases acts with
  | uploaded userId id bytes =>
      have hne : pdfKey u j ≠ audioKey userId id := (audioKey_ne_pdfKey userId id u j).symm
      simp [Stores.run, hne]
  | _ => rfl

/-- Steps of BullMQ and of clients that start threads or store a recording. -/
theorem inv_outside {act : Action} {new : List Thread} (h : Inv w) (acts : Outside w act op new)
    (hkept : Kept ⟨w.stores.run 0 op, w.threads ++ new⟩) :
    Inv ⟨w.stores.run 0 op, w.threads ++ new⟩ := by
  have hfind : ∀ jobId, (w.stores.run 0 op).findById jobId = w.stores.findById jobId := by
    intro jobId
    simp only [Stores.findById, outside_jobs acts]
  have hagree : ∀ jobId label report t, t ∈ w.threads → agrees w jobId label report t = true →
      agrees ⟨w.stores.run 0 op, w.threads ++ new⟩ jobId label report t = true := by
    intro jobId label report t ht ha
    cases t with
    | attempt a =>
        simp only [agrees, Bool.or_eq_true, decide_eq_true_eq] at ha ⊢
        refine ha.imp_right fun ha => ?_
        cases hpc : a.pc with
        | racing work k =>
            -- the raced body is an old thread
            obtain ⟨b, hb, -⟩ := h.race a work k ht hpc
            have hsame : (⟨w.stores.run 0 op, w.threads ++ new⟩ : World).bodyResult k =
                w.bodyResult k := by
              simp only [World.bodyResult, List.getElem?_append_left (lt_of_getElem? hb)]
            rw [hpc] at ha
            simpa only [attemptShows, hsame] using ha
        | _ =>
            rw [hpc] at ha
            exact ha
    | _ => exact ha
  refine ⟨hkept.ids, hkept.keys, hkept.owns, ?_, ?_, ?_⟩
  · intro a work k ha hpc
    rcases List.mem_append.mp ha with ha | ha
    · obtain ⟨b, hb, hrest⟩ := h.race a work k ha hpc
      exact ⟨b, (List.getElem?_append_left (lt_of_getElem? hb)).trans hb, hrest⟩
    · rw [(outside_new acts ha).2 a rfl] at hpc
      cases hpc
  · intro jobId row hrow hlive t ht
    rw [hfind] at hrow
    rcases List.mem_append.mp ht with ht | ht
    · exact hagree _ _ _ t ht (h.held jobId row hrow hlive t ht)
    · obtain ⟨hbody, hattempt⟩ := outside_new acts ht
      cases t with
      | attempt a => simp [agrees, hattempt a rfl, attemptShows]
      | body b => exact (hbody b rfl).elim
      | _ => rfl
  · intro jobId row hrow hlive hcond
    rw [hfind] at hrow
    simp only [outside_bucket acts]
    refine h.stored jobId row hrow hlive (hcond.imp_right ?_)
    rintro ⟨b, view, hb, hrest⟩
    rcases List.mem_append.mp hb with hb | hb
    · exact ⟨b, view, hb, hrest⟩
    · exact ((outside_new acts hb).1 b rfl).elim

theorem inv_step {a : Action} (h : Inv w) (hg : Guard w a) (hs : step cfg w a = some w') :
    Inv w' := by
  have hkept : Kept w' := kept_step h.kept (uuidIds_of_guard hg) hs
  cases step_shape hs with
  | thread i now t t' op spawned at_ acts => exact inv_advance h hg at_ acts hkept
  | outside op new acts => exact inv_outside h acts hkept

/-- The API hands out a link to the job's PDF. -/
def Shares (cfg : ServerConfig) (s : Stores) (userId jobId : String) : Prop :=
  (∃ dto, getPdfUrl cfg s userId jobId = .ok dto) ∨
    ∃ dto url, findOne cfg s userId jobId = .ok dto ∧ dto.pdfUrl = some url

/-- The link is to an object that shows the row's label and report tree. -/
def SharesCurrent (cfg : ServerConfig) (s : Stores) (userId jobId : String) : Prop :=
  ∃ job key view, s.findScoped userId jobId = some job ∧ job.pdfKey = some key ∧
    getPdfUrl cfg s userId jobId = .ok (cfg.presignPdfDownload key) ∧
      s.bucket key = some (.pdf view) ∧
        view = toReportView view.jobId job.label view.generatedAt job.existingReport

/-- A shared job is live and READY, with a key. -/
theorem Shares.sharedPdf {s : Stores} {userId : String} (h : Shares cfg s userId jobId) :
    ∃ job key, s.findScoped userId jobId = some job ∧ job.sharedPdf = some key := by
  rcases h with ⟨dto, h⟩ | ⟨dto, url, h, hurl⟩
  · unfold getPdfUrl at h
    split at h
    · cases h
    · rename_i job hjob
      split at h
      · cases h
      · rename_i key hkey
        exact ⟨job, key, hjob, hkey⟩
  · unfold findOne at h
    split at h
    · cases h
    · rename_i job hjob
      cases h
      obtain ⟨key, hkey, -⟩ := Option.map_eq_some_iff.mp hurl
      exact ⟨job, key, hjob, hkey⟩

theorem sharedPdf_eq_some {job : Job} {key : String} (h : job.sharedPdf = some key) :
    job.status = .READY ∧ job.pdfKey = some key := by
  unfold Job.sharedPdf at h
  split_ifs at h with hready
  exact ⟨hready, (Option.filter_eq_some_iff.mp h).1⟩

/-- In every run that meets the guard, the PDF that the API links to is the current report. -/
theorem shared_pdf_current (cfg : ServerConfig) {w : World} {userId jobId : String}
    (hw : Run (step cfg) Guard World.empty w) (hshares : Shares cfg w.stores userId jobId) :
    SharesCurrent cfg w.stores userId jobId := by
  have hinv : Inv w := hw.invariant inv_empty fun _ _ _ hi hg hs => inv_step hi hg hs
  obtain ⟨job, key, hjob, hshared⟩ := hshares.sharedPdf
  obtain ⟨hready, hkey⟩ := sharedPdf_eq_some hshared
  obtain ⟨hrow, -, hlive⟩ := Stores.findScoped_eq_some.mp hjob
  obtain ⟨view, hview, hshows⟩ := hinv.stored jobId job hrow hlive (.inl hready)
  refine ⟨job, key, view, hjob, hkey, ?_, ?_, ?_⟩
  · simp [getPdfUrl, hjob, hshared]
  · rw [(hinv.keys jobId job hrow).2 key hkey]
    exact hview
  · simpa [shows] using hshows

theorem shared_pdf_current_demo :
    ∃ w dto, Run (step demo) Guard World.empty w ∧
      getPdfUrl demo w.stores "user-1" "job-1" = .ok dto ∧
        SharesCurrent demo w.stores "user-1" "job-1" := by
  have hend : (execWhere (step demo) Guard readySchedule World.empty).any (fun w =>
      (getPdfUrl demo w.stores "user-1" "job-1").toOption.isSome) = true := by decide
  obtain ⟨w, hw, hp⟩ := execWhere_any hend
  cases hdto : getPdfUrl demo w.stores "user-1" "job-1" with
  | error e => simp [hdto, Except.toOption] at hp
  | ok dto => exact ⟨w, dto, hw, hdto, shared_pdf_current demo hw (.inl ⟨dto, hdto⟩)⟩

/-- The row and the stored view of `job-1` differ in the report. -/
def stalePdf (s : Stores) : Bool :=
  match s.findById "job-1", s.bucket (pdfKey "user-1" "job-1") with
  | some job, some (.pdf view) =>
      job.sharedPdf = some (pdfKey "user-1" "job-1") && job.inScope "user-1" &&
        view ≠ toReportView view.jobId job.label view.generatedAt job.existingReport
  | _, _ => false

/-- An edit of a READY job leaves the old PDF shared. -/
theorem edit_leaves_pdf_stale :
    ¬ ∀ (cfg : ServerConfig) (w : World) (userId jobId : String),
      Run (step cfg) anyStep World.empty w → Shares cfg w.stores userId jobId →
        SharesCurrent cfg w.stores userId jobId := by
  intro h
  have hend : (exec (step demo) (readySchedule ++ [.call (.update "user-1" "job-1"
      { sections := .value [⟨"Roof", 0, [⟨"Replace flashing", .repair, 0⟩]⟩] }), .step 6 {},
        .step 6 {}]) World.empty).any (fun w => stalePdf w.stores) = true := by decide
  obtain ⟨w, hw, hp⟩ := exec_any hend
  unfold stalePdf at hp
  split at hp
  · rename_i job view hjob hview
    simp only [Bool.and_eq_true, decide_eq_true_eq] at hp
    obtain ⟨⟨hshared, hscope⟩, hstale⟩ := hp
    have hscoped : w.stores.findScoped "user-1" "job-1" = some job := by
      simp [Stores.findScoped, hjob, hscope]
    have hshares : Shares demo w.stores "user-1" "job-1" :=
      .inl ⟨demo.presignPdfDownload (pdfKey "user-1" "job-1"),
        by simp only [getPdfUrl, hscoped, hshared]⟩
    obtain ⟨job', key, view', hjob', hkey, -, hview', hcurrent⟩ :=
      h demo w "user-1" "job-1" hw hshares
    rw [hscoped] at hjob'
    cases hjob'
    rw [(sharedPdf_eq_some hshared).2] at hkey
    cases hkey
    rw [hview] at hview'
    cases hview'
    exact hstale hcurrent
  · cases hp

end FieldNote.SharedPdf
