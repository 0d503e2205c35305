import FieldNote.UserSteps
import FieldNote.GuardedRuns

/-!
# A stage that has timed out

The timer only ends the wait for a stage. Its body runs on, also while `runStage` records the
failure before it rejects, and from wherever it is then it may still reach its write; nothing
but its own end keeps it from that.
-/
namespace FieldNote.StageFencing
open JobsService PipelineService ServerRuns GuardedRuns CallPool ObjectKeys UserViews SpelledIds

/-- The operation changes a row or an object. -/
def writes : Op → Bool
  | .write _ _ | .putObject _ _ => true
  | _ => false

def issuesWrite (w : World) (k : ℕ) (env : Env) : Bool :=
  match w.threads[k]? with
  | some (.body b) => (nextBody w.stores env b).any fun p => writes p.2
  | _ => false

/-- Body thread `k` writes, whether or not it learns that the write succeeded. -/
def bodyWrites (k : ℕ) (w : World) : Action → Bool
  | .step i env => i = k && issuesWrite w k env
  | .throw i env _ applied => i = k && applied && issuesWrite w k env
  | _ => false

/-- However the server goes on, body `k` does not write. -/
def Fenced (cfg : ServerConfig) (k : ℕ) (w : World) : Prop :=
  ∀ v a v', Run (step cfg) UuidIds w v → UuidIds v a → step cfg v a = some v' →
    bodyWrites k v a = false

/-- The timer has won the race of attempt `i` against body `k`, and `runStage` is about to record
the failure and to reject. -/
def TimedOut (cfg : ServerConfig) (i k : ℕ) (w : World) : Prop :=
  ∃ w₀ w₁ a work, Run (step cfg) UuidIds World.empty w₀ ∧
    w₀.threads[i]? = some (.attempt a) ∧ a.pc = .racing work k ∧
    step cfg w₀ (.timeout i) = some w₁ ∧ Run (step cfg) UuidIds w₁ w ∧
    ∃ a', w.threads[i]? = some (.attempt a') ∧
      a'.pc = .addFailed work (stageTimeoutError cfg work.stage)

variable {cfg : ServerConfig} {w w' : World} {k : ℕ} {b : Body} {env : Env}

/-- The recording that the thread is going to read, if any, is that of its job. -/
def Streams : Thread → Prop
  | .attempt a => ∀ key, readsAudio a.pc = some key → key = audioKey a.userId a.jobId
  | .body b => ∀ key, b.pc = .getObjectStream key → key = audioKey b.userId b.jobId
  | _ => True

structure Streaming (w : World) : Prop where
  kept : Kept w
  races : Races w
  streams : ∀ t ∈ w.threads, Streams t

/-- An attempt that moves keeps the audio key of the row it has read. -/
theorem move_readsAudio {a : Attempt} {now : ℕ} {pc : AttemptPc} {op : Op}
    {spawned : List Thread} (h : AttemptMove cfg w a now pc op spawned) (hkeys : RowKeys w.stores)
    (ha : Streams (.attempt a)) : Streams (.attempt { a with pc := pc }) := by
  intro key hkey
  cases h with
  | began job audio work pc row live user unready haudio begins =>
      cases begins with
      | transcribe blank =>
          cases hkey
          have hrow := (hkeys a.jobId job row).1
          rw [user] at hrow
          rw [hrow] at haudio
          exact (Option.some.inj (Option.filter_eq_some_iff.mp haudio).1).symm
      | _ => cases hkey
  | announced work pc =>
      refine ha key ?_
      rw [pc]
      cases work with
      | transcribe job => exact hkey
      | _ => cases hkey
  | completed work result pc =>
      dsimp only at hkey
      rw [readsAudio_afterStage] at hkey
      cases hkey
  | thrown work e op pc =>
      dsimp only at hkey
      rw [readsAudio_afterThrow] at hkey
      cases hkey
  | _ => cases hkey

theorem body_streams {pc : BodyPc} {op : Op} (h : BodyMove w b pc op) :
    Streams (.body { b with pc := pc }) := by
  intro key hkey
  cases h with
  | threw e open_ => cases hkey
  | lost env e pc op next => cases hkey
  | moved env pc op next =>
      have hmap : spelledBody w.stores env b = some (pc, canonicalOp op) := by
        rw [spelledBody, next, Option.map_some]
      exact (spelledBody_streams hmap key hkey).elim

theorem streaming_step {a : Action} (h : Streaming w) (hg : UuidIds w a)
    (hs : step cfg w a = some w') : Streaming w' := by
  refine ⟨kept_step h.kept hg hs, ServerRuns.races_step h.races hs, ?_⟩
  cases step_shape hs with
  | thread i now t t' op spawned at_ acts =>
      have ht := h.streams t (List.mem_of_getElem? at_)
      intro t₁ ht₁
      rcases mem_advance ht₁ with hold | rfl | hsp
      · exact h.streams t₁ hold
      · cases t₁ with
        | attempt a' =>
            obtain ⟨a, pc, rfl, rfl, hmove⟩ := acts_to_attempt acts
            exact move_readsAudio hmove h.kept.keys ht
        | body b' =>
            obtain ⟨-, b, pc, rfl, rfl, hmove⟩ := acts_to_body acts
            exact body_streams hmove
        | _ => trivial
      · rcases acts_spawned acts hsp with ⟨a, work, rfl, hpc, rfl⟩ | ⟨a, err, entry, -, -, -, rfl⟩
        · intro key hkey
          refine ht key ?_
          rw [hpc]
          cases work with
          | transcribe job =>
              cases hkey
              rfl
          | _ => cases hkey
        · trivial
  | outside op new acts =>
      intro t₁ ht₁
      rcases List.mem_append.mp ht₁ with hold | hnew
      · exact h.streams t₁ hold
      · obtain ⟨hbody, hattempt⟩ := outside_new acts hnew
        cases t₁ with
        | attempt a =>
            intro key hkey
            rw [hattempt a rfl] at hkey
            cases hkey
        | body b => exact (hbody b rfl).elim
        | _ => trivial

theorem streaming_run (h : Run (step cfg) UuidIds World.empty w) : Streaming w := by
  refine h.invariant ⟨kept_empty, races_empty, ?_⟩ fun _ _ _ hi hg hs => streaming_step hi hg hs
  intro t ht
  cases ht

/-- A body that has ended writes nothing. -/
theorem issuesWrite_ended {r : Except Err StageResult} (h : w.bodyResult k = some r) :
    issuesWrite w k env = false := by
  obtain ⟨b, hb, hpc⟩ := bodyResult_eq_some.mp h
  simp [issuesWrite, hb, nextBody, hpc]

theorem fenced_of_ended {r : Except Err StageResult} (h : w.bodyResult k = some r) :
    Fenced cfg k w := by
  intro v a v' hrun _ _
  have hended : v.bodyResult k = some r :=
    hrun.invariant (I := fun v => v.bodyResult k = some r) h fun _ _ _ hi _ hs =>
      bodyResult_final hs hi
  cases a with
  | step i env => simp [bodyWrites, issuesWrite_ended hended]
  | throw i env e applied => simp [bodyWrites, issuesWrite_ended hended]
  | _ => rfl

variable (cfg) in
/-- A body may take its next segment at any time. -/
theorem body_step {pc : BodyPc} {op : Op} (hb : w.threads[k]? = some (.body b))
    (hn : nextBody w.stores env b = some (pc, op)) :
    step cfg w (.step k env) = some (w.advance env.now k (.body { b with pc := pc }) op []) ∧
      UuidIds w (.step k env) := by
  constructor
  · simp [step, hb, next, hn]
  · simp [UuidIds, uuidIds, hb, insertsUuid]

/-- A step that does not end the body's way to a write. -/
theorem not_fenced_of_step {a : Action} (hg : UuidIds w a) (hs : step cfg w a = some w')
    (h : ¬ Fenced cfg k w') : ¬ Fenced cfg k w := by
  intro hf
  exact h fun v a v' hrun hga hsa => hf v a v' ((Run.single hg hs).trans hrun) hga hsa

variable (env) in
theorem not_fenced_of_write {pc : BodyPc} {op : Op} (hb : w.threads[k]? = some (.body b))
    (hn : nextBody w.stores env b = some (pc, op)) (hop : writes op = true) :
    ¬ Fenced cfg k w := by
  intro hf
  obtain ⟨hs, hg⟩ := body_step cfg hb hn
  have hnot := hf w _ _ (.refl w) hg hs
  simp [bodyWrites, issuesWrite, hb, hn, hop] at hnot

theorem not_fenced_of_segment {pc : BodyPc} {op : Op} (hb : w.threads[k]? = some (.body b))
    (hn : nextBody w.stores env b = some (pc, op))
    (h : ∀ v : World, v.threads[k]? = some (.body { b with pc := pc }) → ¬ Fenced cfg k v) :
    ¬ Fenced cfg k w := by
  obtain ⟨hs, hg⟩ := body_step cfg hb hn
  exact not_fenced_of_step hg hs (h _ (getElem?_advance_same hb))

theorem not_fenced_transcribe {key : String} (hb : w.threads[k]? = some (.body b))
    (hpc : b.pc = .transcribe key) : ¬ Fenced cfg k w := by
  have hn : nextBody w.stores { text := "x" } b = some (.saveTranscript "x", .none) := by
    simp only [nextBody, hpc]
    rfl
  refine not_fenced_of_segment hb hn fun v hv => ?_
  exact not_fenced_of_write {} hv rfl rfl

/-- From every program point a body can still come to a write: its recording can be uploaded,
and every other answer may be the one it waits for. -/
theorem not_fenced_of_running (hb : w.threads[k]? = some (.body b))
    (hkey : ∀ key, b.pc = .getObjectStream key → key = audioKey b.userId b.jobId)
    (hopen : ∀ r, b.pc ≠ .done r) : ¬ Fenced cfg k w := by
  cases hpc : b.pc with
  | getObjectStream key =>
      obtain rfl := hkey key hpc
      have hs : step cfg w (.upload b.userId b.jobId "") = some { w with
          stores := w.stores.run 0 (.putObject (audioKey b.userId b.jobId) (.audio "")) } := rfl
      have hg : UuidIds w (.upload b.userId b.jobId "") := rfl
      refine not_fenced_of_step hg hs ?_
      have hn : nextBody (w.stores.run 0 (.putObject (audioKey b.userId b.jobId) (.audio "")))
          {} b = some (.transcribe (audioKey b.userId b.jobId), .none) := by
        simp [nextBody, hpc, Stores.run]
      exact not_fenced_of_segment hb hn fun v hv => not_fenced_transcribe hv rfl
  | transcribe key => exact not_fenced_transcribe hb hpc
  | saveTranscript transcript =>
      have hn : nextBody w.stores {} b = some (.done (.ok { transcript := transcript }),
          .write b.jobId (.saveTranscript transcript)) := by
        simp only [nextBody, hpc]
      exact not_fenced_of_write _ hb hn rfl
  | compile label transcript =>
      have hn : nextBody w.stores {} b = some (.replaceReport [], .none) := by
        simp only [nextBody, hpc]
      refine not_fenced_of_segment hb hn fun v hv => ?_
      exact not_fenced_of_write {} hv rfl rfl
  | replaceReport sections =>
      have hn : nextBody w.stores {} b = some (.done (.ok { sections := sections }),
          .write b.jobId (.replaceReport (insertSections (fun _ _ => "") sections))) := by
        simp only [nextBody, hpc]
      exact not_fenced_of_write _ hb hn rfl
  | render view =>
      have hn : nextBody w.stores {} b = some (.putObject view, .none) := by
        simp only [nextBody, hpc]
      refine not_fenced_of_segment hb hn fun v hv => ?_
      exact not_fenced_of_write {} hv rfl rfl
  | putObject view =>
      have hn : nextBody w.stores {} b = some (.setPdfReady view,
          .putObject (pdfKey b.userId b.jobId) (.pdf view)) := by
        simp only [nextBody, hpc]
      exact not_fenced_of_write _ hb hn rfl
  | setPdfReady view =>
      have hn : nextBody w.stores {} b = some (.done (.ok {}),
          .write b.jobId (.setPdfReady (pdfKey b.userId b.jobId))) := by
        simp only [nextBody, hpc]
      exact not_fenced_of_write _ hb hn rfl
  | done r => exact (hopen r hpc).elim

theorem body_stays {a : Action} (hb : ∃ b, w.threads[k]? = some (.body b))
    (hs : step cfg w a = some w') : ∃ b, w'.threads[k]? = some (.body b) := by
  obtain ⟨b, hb⟩ := hb
  cases step_shape hs with
  | thread i now t t' op spawned hi acts =>
      by_cases hki : k = i
      · subst hki
        rw [hb] at hi
        cases hi
        cases acts.sameCall with
        | body _ pc => exact ⟨_, getElem?_advance_same hb⟩
      · exact ⟨b, getElem?_advance_other hki hb⟩
  | outside op new acts =>
      exact ⟨b, by rw [List.getElem?_append_left (List.getElem?_eq_some_iff.mp hb).1, hb]⟩

/-- The state in which the attempt records the failure is reachable, and the body is there. -/
theorem TimedOut.reached {i : ℕ} (h : TimedOut cfg i k w) :
    Run (step cfg) UuidIds World.empty w ∧ (∃ a, w.threads[i]? = some (.attempt a)) ∧
      ∃ b, w.threads[k]? = some (.body b) := by
  obtain ⟨w₀, w₁, a, work, hrun, hi, hpc, htimer, hwait, a', hi', -⟩ := h
  have hg : UuidIds w₀ (.timeout i) := rfl
  have hrun₁ : Run (step cfg) UuidIds World.empty w₁ := hrun.tail hg htimer
  refine ⟨hrun₁.trans hwait, ⟨a', hi'⟩, ?_⟩
  obtain ⟨b, hb, -⟩ := (streaming_run hrun).races a work k (List.mem_of_getElem? hi) hpc
  exact hwait.invariant (body_stays ⟨b, hb⟩ htimer) fun _ _ _ hb _ hs => body_stays hb hs

/-- Once `runStage` has rejected with the timeout, the body of the stage stays away from the
stores, in every further run, exactly when it has ended by then. -/
theorem timed_out_stage_fenced (cfg : ServerConfig) {w w' : World} {i k : ℕ} {env : Env}
    (h : TimedOut cfg i k w) (hs : step cfg w (.step i env) = some w') :
    Fenced cfg k w' ↔ ∃ r, w.bodyResult k = some r := by
  obtain ⟨hrun, ⟨a, hi⟩, hb⟩ := h.reached
  have hg : UuidIds w (.step i env) := by simp [UuidIds, uuidIds, hi, insertsUuid]
  have hstreaming := streaming_step (streaming_run hrun) hg hs
  constructor
  · intro hf
    obtain ⟨b, hb⟩ := hb
    have hki : k ≠ i := by
      rintro rfl
      rw [hi] at hb
      cases hb
    have hb' : w'.threads[k]? = some (.body b) := by
      obtain ⟨t, ht, hs⟩ := Option.bind_eq_some_iff.mp hs
      obtain ⟨⟨t', op, spawned⟩, ht', rfl⟩ := Option.map_eq_some_iff.mp hs
      exact getElem?_advance_other hki hb
    by_contra hrunning
    refine not_fenced_of_running hb' ?_ ?_ hf
    · exact hstreaming.streams _ (List.mem_of_getElem? hb')
    · exact fun r hr => hrunning ⟨r, bodyResult_eq_some.mpr ⟨b, hb, hr⟩⟩
  · rintro ⟨r, hr⟩
    exact fenced_of_ended (bodyResult_final hs hr)

/-- The recording of `job-1` is processed up to the update that marks it READY. -/
def renderedSchedule : List Action :=
  submitSchedule ++ checkSchedule 1 ++ enqueueSchedule 1 ++ compileSchedule 2 ++ renderSchedule 2

def races (t : Option Thread) (k : ℕ) : Bool :=
  match t with
  | some (.attempt a) =>
      match a.pc with
      | .racing _ j => j = k
      | _ => false
  | _ => false

theorem races_eq {t : Option Thread} (h : races t k = true) :
    ∃ a work, t = some (.attempt a) ∧ a.pc = .racing work k := by
  unfold races at h
  split at h
  · rename_i a
    split at h
    · rename_i work j hpc
      obtain rfl := of_decide_eq_true h
      exact ⟨a, work, rfl, hpc⟩
    · cases h
  · cases h

theorem timedOut_of_races {i : ℕ} (hrun : Run (step cfg) UuidIds World.empty w)
    (hraces : races w.threads[i]? k = true) (hs : step cfg w (.timeout i) = some w') :
    TimedOut cfg i k w' := by
  obtain ⟨a, work, hi, hpc⟩ := races_eq hraces
  refine ⟨w, w', a, work, hrun, hi, hpc, hs, .refl w',
    { a with pc := .addFailed work (stageTimeoutError cfg work.stage) }, ?_, rfl⟩
  obtain ⟨t, ht, hs⟩ := Option.bind_eq_some_iff.mp hs
  obtain ⟨t', ht', rfl⟩ := Option.map_eq_some_iff.mp hs
  rw [hi] at ht
  cases ht
  simp only [timingOut, hpc, Option.some.injEq] at ht'
  subst ht'
  exact getElem?_advance_same hi

/-- Between the timer and the rejection other threads may go on. -/
theorem TimedOut.wait {i : ℕ} {a : Action} {at_ : Attempt} (h : TimedOut cfg i k w)
    (hi : w.threads[i]? = some (.attempt at_)) (hi' : w'.threads[i]? = some (.attempt at_))
    (hg : UuidIds w a) (hs : step cfg w a = some w') : TimedOut cfg i k w' := by
  obtain ⟨w₀, w₁, b, work, hrun, hb, hpc, htimer, hwait, a', ha', hpc'⟩ := h
  rw [hi] at ha'
  cases ha'
  exact ⟨w₀, w₁, b, work, hrun, hb, hpc, htimer, hwait.tail hg hs, at_, hi', hpc'⟩

/-- The body marks the job READY while `runStage` records the failure: it does so in time. -/
theorem timed_out_stage_fenced_demo : ∃ w w', TimedOut demo 2 5 w ∧
    step demo w (.step 2 {}) = some w' ∧ Fenced demo 5 w' := by
  have hend : (execWhere (step demo) UuidIds renderedSchedule World.empty).any (fun w =>
      races w.threads[2]? 5 && (step demo w (.timeout 2)).any fun w₁ =>
        decide (UuidIds w₁ (.step 5 {})) && (step demo w₁ (.step 5 {})).any fun w₂ =>
          w₁.threads[2]? = w₂.threads[2]? && (w₂.bodyResult 5).isSome &&
            (step demo w₂ (.step 2 {})).isSome) = true := by decide
  obtain ⟨w, hw, hp⟩ := execWhere_any hend
  obtain ⟨hraces, hp⟩ := Bool.and_eq_true_iff.mp hp
  obtain ⟨w₁, hs₁, hp⟩ := (Option.any_eq_true _ _).mp hp
  obtain ⟨hg, hp⟩ := Bool.and_eq_true_iff.mp hp
  obtain ⟨w₂, hs₂, hp⟩ := (Option.any_eq_true _ _).mp hp
  simp only [Bool.and_eq_true, decide_eq_true_eq] at hg hp
  obtain ⟨⟨hsame, hended⟩, hout⟩ := hp
  have htimed : TimedOut demo 2 5 w₁ := timedOut_of_races hw hraces hs₁
  obtain ⟨-, ⟨a, hi⟩, -⟩ := htimed.reached
  have hwait := htimed.wait hi (hsame ▸ hi) hg hs₂
  obtain ⟨w', hs⟩ := Option.isSome_iff_exists.mp hout
  exact ⟨w₂, w', hwait, hs,
    (timed_out_stage_fenced demo hwait hs).mpr (Option.isSome_iff_exists.mp hended)⟩

/-- The job of a single attempt has failed for good, and the body that was given up marks it
READY. -/
theorem late_body_revives_job : ¬ ∀ (cfg : ServerConfig) (w w' : World) (i k : ℕ) (env : Env),
    TimedOut cfg i k w → step cfg w (.step i env) = some w' → Fenced cfg k w' := by
  intro h
  have hend : (execWhere (step { demo with jobMaxAttempts := 1 }) UuidIds renderedSchedule
      World.empty).any (fun w => races w.threads[2]? 5 &&
        (step { demo with jobMaxAttempts := 1 } w (.timeout 2)).any fun w₁ =>
          (step { demo with jobMaxAttempts := 1 } w₁ (.step 2 {})).any fun w' =>
            (execWhere (step { demo with jobMaxAttempts := 1 }) UuidIds
              ([.ack 2] ++ steps 6 4 {}) w').any fun v =>
                (v.stores.findById "job-1").any (fun job => job.status = .FAILED) &&
                  bodyWrites 5 v (.step 5 {}) && decide (UuidIds v (.step 5 {})) &&
                    (step { demo with jobMaxAttempts := 1 } v (.step 5 {})).any fun v' =>
                      (v'.stores.findById "job-1").any fun job => job.status = .READY) = true := by
    decide
  obtain ⟨w, hw, hp⟩ := execWhere_any hend
  obtain ⟨hraces, hp⟩ := Bool.and_eq_true_iff.mp hp
  obtain ⟨w₁, hs₁, hp⟩ := (Option.any_eq_true _ _).mp hp
  obtain ⟨w', hs, hp⟩ := (Option.any_eq_true _ _).mp hp
  obtain ⟨v, hv, hp⟩ := execWhere_any hp
  simp only [Bool.and_eq_true, decide_eq_true_eq] at hp
  obtain ⟨⟨⟨-, hwrites⟩, huuid⟩, hstep⟩ := hp
  obtain ⟨v', hs', -⟩ := (Option.any_eq_true _ _).mp hstep
  have hnot := h _ w₁ w' 2 5 {} (timedOut_of_races hw hraces hs₁) hs v (.step 5 {}) v' hv huuid hs'
  rw [hwrites] at hnot
  cases hnot

end FieldNote.StageFencing
