import FieldNote.ThreadSteps

/-!
# The moves of attempts and stage bodies

One inversion for the attempt and one for the body, over everything that can move them: a
successful segment, an `await` that throws with or without effect, the stage timeout and
BullMQ's report. An attempt that races has a body of its own job and stage.
-/
namespace FieldNote.ServerRuns
open JobsService PipelineService CallPool

/-- The stage `process` starts with, by what it read: the transcript and the report that are
there are not made again. -/
inductive Begins (job : Snapshot) : Work → Prop where
  | transcribe (blank : ∀ text, job.transcript = some text → JsText.trim text = "") :
      Begins job (.transcribe job)
  | compile (text : String) (transcript : job.transcript = some text)
      (full : JsText.trim text ≠ "") (empty : job.existing = []) : Begins job (.compile job text)
  | render (text : String) (transcript : job.transcript = some text)
      (full : JsText.trim text ≠ "") (existing : job.existing ≠ []) :
      Begins job (.render job.label job.existing)

/-- A move of an attempt: its next program point, the operation that takes effect and the
threads it starts. -/
inductive AttemptMove (cfg : ServerConfig) (w : World) (a : Attempt) (now : ℕ) :
    AttemptPc → Op → List Thread → Prop where
  | ended (e : Option Err) (pc : a.pc = .findById) : AttemptMove cfg w a now (.settled e) .none []
  | began (job : Job) (key : String) (work : Work) (pc : a.pc = .findById)
      (row : w.stores.findById a.jobId = some job) (live : job.deletedAt = none)
      (user : job.userId = a.userId) (unready : job.status ≠ .READY)
      (audio : job.audioKey.filter (· ≠ "") = some key)
      (begins : Begins ⟨job.label, key, job.transcript, job.existingReport⟩ work) :
      AttemptMove cfg w a now (.setStatus work) .none []
  | announced (work : Work) (pc : a.pc = .setStatus work) :
      AttemptMove cfg w a now (.addStarted work)
        (.write a.jobId (.setStatus work.stage.status none)) []
  | started (work : Work) (pc : a.pc = .addStarted work) :
      AttemptMove cfg w a now (.racing work w.threads.length)
        (.addEvent ⟨a.jobId, work.stage.name, "started", none⟩)
        [.body ⟨a.jobId, a.userId, startBody a.jobId now work⟩]
  | won (work : Work) (i : ℕ) (result : StageResult) (pc : a.pc = .racing work i)
      (done : w.bodyResult i = some (.ok result)) :
      AttemptMove cfg w a now (.addCompleted work result) .none []
  | failing (work : Work) (e : Err) (op : Op)
      (pc : (∃ i, a.pc = .racing work i) ∨ ∃ result, a.pc = .addCompleted work result)
      (aside : Op.aside op = true) : AttemptMove cfg w a now (.addFailed work e) op []
  | completed (work : Work) (result : StageResult) (pc : a.pc = .addCompleted work result) :
      AttemptMove cfg w a now (afterStage work result)
        (.addEvent ⟨a.jobId, work.stage.name, "completed", none⟩) []
  | thrown (work : Work) (e : Err) (op : Op)
      (pc : (a.pc = .setStatus work ∧ (op = .none ∨
          op = .write a.jobId (.setStatus work.stage.status none))) ∨
        a.pc = .addStarted work ∧ Op.aside op = true ∨
          ∃ e', a.pc = .addFailed work e' ∧ Op.aside op = true) :
      AttemptMove cfg w a now (afterThrow e) op []
  | marking (e : Err) (mark mark' : MarkPc) (op : Op) (pc : a.pc = .marking e mark)
      (next : nextMark w.stores a.jobId e.message mark = (some mark', op)) :
      AttemptMove cfg w a now (.marking e mark') op []
  | marked (e : Err) (mark : MarkPc) (op : Op) (pc : a.pc = .marking e mark)
      (next : nextMark w.stores a.jobId e.message mark = (none, op)) :
      AttemptMove cfg w a now (afterMarking e) op []
  | broke (e e' : Err) (mark : MarkPc) (op : Op) (pc : a.pc = .marking e mark)
      (next : op = .none ∨ ∃ mark', nextMark w.stores a.jobId e.message mark = (mark', op)) :
      AttemptMove cfg w a now (.settled (some e')) op []
  | acked (e : Option Err) (entry : Entry) (pc : a.pc = .settled e)
      (queued : w.stores.queue a.jobId = some entry) :
      AttemptMove cfg w a now .acked
        (.setEntry a.jobId (some (settle cfg a.jobId entry e).1)) (settle cfg a.jobId entry e).2

/-- A move of a body: its next program point and the operation that takes effect. -/
inductive BodyMove (w : World) (b : Body) : BodyPc → Op → Prop where
  | moved (env : Env) (pc : BodyPc) (op : Op) (next : nextBody w.stores env b = some (pc, op)) :
      BodyMove w b pc op
  | threw (e : Err) (open_ : ∀ r, b.pc ≠ .done r) : BodyMove w b (.done (.error e)) .none
  | lost (env : Env) (e : Err) (pc : BodyPc) (op : Op)
      (next : nextBody w.stores env b = some (pc, op)) : BodyMove w b (.done (.error e)) op

variable {cfg : ServerConfig} {w w' : World} {op : Op}

theorem compileStage_begins {job : Snapshot} {text : String} (ht : job.transcript = some text)
    (hfull : JsText.trim text ≠ "") :
    ∃ work, compileStage job text = .setStatus work ∧ Begins job work := by
  unfold compileStage
  split_ifs with h
  · exact ⟨_, rfl, .compile text ht hfull h⟩
  · exact ⟨_, rfl, .render text ht hfull h⟩

theorem transcribeStage_begins (job : Snapshot) :
    ∃ work, transcribeStage job = .setStatus work ∧ Begins job work := by
  unfold transcribeStage
  split
  · rename_i hnone
    exact ⟨_, rfl, .transcribe (by simp [hnone])⟩
  · rename_i text ht
    split_ifs with hblank
    · refine ⟨_, rfl, .transcribe ?_⟩
      intro text' ht'
      rw [ht] at ht'
      cases ht'
      exact hblank
    · exact compileStage_begins ht hblank

theorem afterFindById_move {a : Attempt} {now : ℕ} (hpc : a.pc = .findById) :
    AttemptMove cfg w a now (afterFindById a.jobId a.userId (w.stores.findById a.jobId)) .none [] := by
  cases hrow : w.stores.findById a.jobId with
  | none => exact .ended none hpc
  | some job =>
      unfold afterFindById
      dsimp only
      split_ifs with hd hu hr
      · exact .ended none hpc
      · exact .ended _ hpc
      · exact .ended none hpc
      · split
        · exact .ended _ hpc
        · rename_i key hkey
          obtain ⟨work, hw, hbegins⟩ :=
            transcribeStage_begins ⟨job.label, key, job.transcript, job.existingReport⟩
          rw [hw]
          exact .began job key work hpc hrow (Option.not_isSome_iff_eq_none.mp hd) (not_not.mp hu)
            hr hkey hbegins

theorem nextAttempt_move {a : Attempt} {now : ℕ} {pc : AttemptPc}
    (h : nextAttempt w.stores a w.threads.length w.bodyResult = some (pc, op)) :
    AttemptMove cfg w a now pc op (Attempt.spawn a now) := by
  cases hpc : a.pc with
  | addStarted work =>
      simp only [nextAttempt, hpc] at h
      cases h
      simp only [Attempt.spawn, hpc]
      exact .started work hpc
  | findById =>
      simp only [nextAttempt, hpc] at h
      cases h
      simp only [Attempt.spawn, hpc]
      exact afterFindById_move hpc
  | setStatus work =>
      simp only [nextAttempt, hpc] at h
      cases h
      simp only [Attempt.spawn, hpc]
      exact .announced work hpc
  | racing work i =>
      simp only [nextAttempt, hpc] at h
      simp only [Attempt.spawn, hpc]
      split at h
      · cases h
      · rename_i result hr
        cases h
        exact .won work i result hpc hr
      · rename_i e hr
        cases h
        exact .failing work e .none (.inl ⟨i, hpc⟩) rfl
  | addCompleted work result =>
      simp only [nextAttempt, hpc] at h
      cases h
      simp only [Attempt.spawn, hpc]
      exact .completed work result hpc
  | addFailed work e =>
      simp only [nextAttempt, hpc] at h
      cases h
      simp only [Attempt.spawn, hpc]
      exact .thrown work e _ (.inr (.inr ⟨e, hpc, rfl⟩))
  | marking e mark =>
      simp only [nextAttempt, hpc] at h
      simp only [Attempt.spawn, hpc]
      split at h
      · rename_i op' hmark
        cases h
        exact .marked e mark _ hpc hmark
      · rename_i mark' op' hmark
        cases h
        exact .marking e mark mark' _ hpc hmark
  | settled e => simp [nextAttempt, hpc] at h
  | acked => simp [nextAttempt, hpc] at h

/-- An attempt that marks the job FAILED issues what `markFailed` does. -/
theorem nextAttempt_marking {s : Stores} {a : Attempt} {n : ℕ}
    {body : ℕ → Option (Except Err StageResult)} {e : Err} {mark : MarkPc} {pc : AttemptPc}
    (hpc : a.pc = .marking e mark) (h : nextAttempt s a n body = some (pc, op)) :
    ∃ mark', nextMark s a.jobId e.message mark = (mark', op) := by
  simp only [nextAttempt, hpc] at h
  split at h
  · rename_i op' hmark
    cases h
    exact ⟨none, hmark⟩
  · rename_i mark' op' hmark
    cases h
    exact ⟨some mark', hmark⟩

theorem nextHandler_marking {s : Stores} {h : Handler} {mark : MarkPc} {pc : HandlerPc}
    (hpc : h.pc = .marking mark) (hn : nextHandler s h = some (pc, op)) :
    ∃ mark', nextMark s h.jobId h.error.message mark = (mark', op) := by
  simp only [nextHandler, hpc] at hn
  split at hn
  · rename_i op' hmark
    cases hn
    exact ⟨none, hmark⟩
  · rename_i mark' op' hmark
    cases hn
    exact ⟨some mark', hmark⟩

/-- An attempt that throws: the operation of its segment may have taken effect. -/
theorem throwing_move {a : Attempt} {now : ℕ} {e : Err} {pc : AttemptPc}
    (h : a.throwing e = some pc)
    (hop : op = .none ∨ ∃ pc', nextAttempt w.stores a w.threads.length w.bodyResult =
      some (pc', op)) : AttemptMove cfg w a now pc op [] := by
  cases hpc : a.pc with
  | findById =>
      simp only [Attempt.throwing, hpc, Option.some.injEq] at h
      subst h
      rcases hop with rfl | ⟨pc', hn⟩
      · exact .ended _ hpc
      · simp only [nextAttempt, hpc] at hn
        cases hn
        exact .ended _ hpc
  | setStatus work =>
      simp only [Attempt.throwing, hpc, Option.some.injEq] at h
      subst h
      refine .thrown work e op (.inl ⟨hpc, ?_⟩)
      rcases hop with rfl | ⟨pc', hn⟩
      · exact .inl rfl
      · simp only [nextAttempt, hpc] at hn
        cases hn
        exact .inr rfl
  | addStarted work =>
      simp only [Attempt.throwing, hpc, Option.some.injEq] at h
      subst h
      refine .thrown work e op (.inr (.inl ⟨hpc, ?_⟩))
      rcases hop with rfl | ⟨pc', hn⟩
      · rfl
      · simp only [nextAttempt, hpc] at hn
        cases hn
        rfl
  | addCompleted work result =>
      simp only [Attempt.throwing, hpc, Option.some.injEq] at h
      subst h
      refine .failing work e op (.inr ⟨result, hpc⟩) ?_
      rcases hop with rfl | ⟨pc', hn⟩
      · rfl
      · simp only [nextAttempt, hpc] at hn
        cases hn
        rfl
  | addFailed work e' =>
      simp only [Attempt.throwing, hpc, Option.some.injEq] at h
      subst h
      refine .thrown work e op (.inr (.inr ⟨e', hpc, ?_⟩))
      rcases hop with rfl | ⟨pc', hn⟩
      · rfl
      · simp only [nextAttempt, hpc] at hn
        cases hn
        rfl
  | marking e' mark =>
      simp only [Attempt.throwing, hpc, Option.some.injEq] at h
      subst h
      refine .broke e' e mark op hpc (hop.imp_right ?_)
      rintro ⟨pc', hn⟩
      exact nextAttempt_marking hpc hn
  | _ => simp [Attempt.throwing, hpc] at h

theorem acts_attempt {i now : ℕ} {act : Action} {a : Attempt} {t' : Thread}
    {spawned : List Thread} (h : Acts cfg w i act (.attempt a) now t' op spawned) :
    ∃ pc, t' = .attempt { a with pc := pc } ∧ AttemptMove cfg w a now pc op spawned := by
  generalize ht : Thread.attempt a = t at h
  cases h with
  | stepped env t t' op spawned next =>
      subst ht
      obtain ⟨⟨pc, op'⟩, hn, he⟩ := Option.map_eq_some_iff.mp next
      cases he
      exact ⟨pc, rfl, nextAttempt_move hn⟩
  | threw env e t t' throws =>
      subst ht
      obtain ⟨pc, hpc, rfl⟩ := Option.map_eq_some_iff.mp throws
      exact ⟨pc, rfl, throwing_move hpc (.inl rfl)⟩
  | lost env e t t' t₁ op spawned throws next =>
      subst ht
      obtain ⟨pc, hpc, rfl⟩ := Option.map_eq_some_iff.mp throws
      obtain ⟨⟨pc', op'⟩, hn, he⟩ := Option.map_eq_some_iff.mp next
      cases he
      exact ⟨pc, rfl, throwing_move hpc (.inr ⟨pc', hn⟩)⟩
  | timedOut t t' out =>
      subst ht
      obtain ⟨a', work, body, ha, hpc, rfl⟩ := timingOut_eq out
      cases ha
      exact ⟨_, rfl, .failing work _ .none (.inl ⟨body, hpc⟩) rfl⟩
  | acked a' e entry pc queued =>
      cases ht
      exact ⟨_, rfl, .acked e entry pc queued⟩

theorem acts_body {i now : ℕ} {act : Action} {b : Body} {t' : Thread} {spawned : List Thread}
    (h : Acts cfg w i act (.body b) now t' op spawned) :
    spawned = [] ∧ ∃ pc, t' = .body { b with pc := pc } ∧ BodyMove w b pc op := by
  generalize ht : Thread.body b = t at h
  cases h with
  | stepped env t t' op spawned next =>
      subst ht
      obtain ⟨⟨pc, op'⟩, hn, he⟩ := Option.map_eq_some_iff.mp next
      cases he
      exact ⟨rfl, pc, rfl, .moved env pc _ hn⟩
  | threw env e t t' throws =>
      subst ht
      cases throwing_cases throws with
      | body b open_ => exact ⟨rfl, _, rfl, .threw e open_⟩
  | lost env e t t' t₁ op spawned throws next =>
      subst ht
      obtain ⟨⟨pc, op'⟩, hn, he⟩ := Option.map_eq_some_iff.mp next
      cases he
      cases throwing_cases throws with
      | body b open_ => exact ⟨rfl, _, rfl, .lost env e pc _ hn⟩
  | timedOut t t' out =>
      subst ht
      obtain ⟨a', work, body, ha, -⟩ := timingOut_eq out
      cases ha
  | acked a' e entry pc queued => cases ht

/-- Where an attempt that has just moved comes from. -/
theorem acts_to_attempt {i now : ℕ} {act : Action} {a' : Attempt} {t : Thread}
    {spawned : List Thread} (h : Acts cfg w i act t now (.attempt a') op spawned) :
    ∃ a pc, t = .attempt a ∧ a' = { a with pc := pc } ∧ AttemptMove cfg w a now pc op spawned := by
  have hsame := h.sameCall
  generalize ht : Thread.attempt a' = t' at hsame
  cases hsame with
  | attempt a pc₀ =>
      obtain ⟨pc, he, hmove⟩ := acts_attempt h
      cases he
      exact ⟨a, pc, rfl, rfl, hmove⟩
  | _ => cases ht

/-- Where a body that has just moved comes from. -/
theorem acts_to_body {i now : ℕ} {act : Action} {b' : Body} {t : Thread}
    {spawned : List Thread} (h : Acts cfg w i act t now (.body b') op spawned) :
    spawned = [] ∧ ∃ b pc, t = .body b ∧ b' = { b with pc := pc } ∧ BodyMove w b pc op := by
  have hsame := h.sameCall
  generalize ht : Thread.body b' = t' at hsame
  cases hsame with
  | body b pc₀ =>
      obtain ⟨hsp, pc, he, hmove⟩ := acts_body h
      cases he
      exact ⟨hsp, b, pc, rfl, rfl, hmove⟩
  | _ => cases ht

/-- Only an attempt starts a stage body, only a report to BullMQ starts a handler, and no
move starts anything else. -/
theorem acts_spawned {i now : ℕ} {act : Action} {t t' t₁ : Thread} {spawned : List Thread}
    (h : Acts cfg w i act t now t' op spawned) (ht₁ : t₁ ∈ spawned) :
    (∃ a work, t = .attempt a ∧ a.pc = .addStarted work ∧
      t₁ = .body ⟨a.jobId, a.userId, startBody a.jobId now work⟩) ∨
    ∃ a err entry, t = .attempt a ∧ a.pc = .settled (some err) ∧
      w.stores.queue a.jobId = some entry ∧
        t₁ = .handler ⟨a.jobId, entry.userId, err, entry.attemptsMade + 1, .marking .rawById⟩ := by
  cases h with
  | stepped env t t' op spawned next =>
      cases next_segment next with
      | attempt a pc op =>
          obtain ⟨work, hpc, rfl⟩ := spawn_body ht₁
          exact .inl ⟨a, work, rfl, hpc, rfl⟩
      | _ => cases ht₁
  | threw env e t t' throws => cases ht₁
  | lost env e t t' t₁ op spawned throws next => cases ht₁
  | timedOut t t' out => cases ht₁
  | acked a e entry pc queued =>
      obtain ⟨err, rfl, rfl⟩ := settle_handler ht₁
      exact .inr ⟨a, err, entry, rfl, pc, queued, rfl⟩

/-- A move starts at most one thread. -/
theorem acts_spawned_le {i now : ℕ} {act : Action} {t t' : Thread} {spawned : List Thread}
    (h : Acts cfg w i act t now t' op spawned) : spawned.length ≤ 1 := by
  cases h with
  | stepped env t t' op spawned next =>
      cases next_segment next with
      | attempt a pc op =>
          unfold Attempt.spawn
          split <;> simp
      | _ => simp
  | acked a e entry pc queued =>
      unfold settle
      split
      · simp
      · dsimp only
        split_ifs <;> simp
  | _ => simp

/-- A step from outside starts no body, and an attempt only at its read. -/
theorem outside_new {act : Action} {new : List Thread} {t : Thread} (h : Outside w act op new)
    (ht : t ∈ new) : (∀ b, t ≠ .body b) ∧ ∀ a, t = .attempt a → a.pc = .findById := by
  cases h with
  | called request =>
      rw [List.mem_singleton.mp ht]
      cases request <;> simp [Request.thread]
  | picked jobId entry queued waiting =>
      rw [List.mem_singleton.mp ht]
      simp
  | _ => cases ht

/-- A step from outside changes no row. -/
theorem outside_jobs {act : Action} {new : List Thread} (h : Outside w act op new) (now : ℕ) :
    (w.stores.run now op).jobs = w.stores.jobs := by
  cases h <;> rfl

/-- The body's program point belongs to the stage, or it is done. -/
def serves : Stage → BodyPc → Bool
  | _, .done _ => true
  | .transcribe, .getObjectStream _ | .transcribe, .transcribe _ | .transcribe, .saveTranscript _ => true
  | .compile, .compile _ _ | .compile, .replaceReport _ => true
  | .render, .render _ | .render, .putObject _ | .render, .setPdfReady _ => true
  | _, _ => false

/-- Attempts race bodies of their own job, user and stage. -/
def Races (w : World) : Prop :=
  ∀ a work i, Thread.attempt a ∈ w.threads → a.pc = .racing work i →
    ∃ b, w.threads[i]? = some (.body b) ∧ b.jobId = a.jobId ∧ b.userId = a.userId ∧
      serves work.stage b.pc = true

theorem startBody_serves (jobId : String) (now : ℕ) (work : Work) :
    serves work.stage (startBody jobId now work) = true := by
  cases work <;> rfl

theorem startBody_ne_done {jobId : String} (now : ℕ) (work : Work) (r : Except Err StageResult) :
    startBody jobId now work ≠ .done r := by
  cases work <;> exact nofun

theorem BodyMove.serves {b : Body} {pc : BodyPc} {stage : Stage} (h : BodyMove w b pc op)
    (hb : serves stage b.pc = true) : serves stage pc = true := by
  cases h with
  | threw e open_ => cases stage <;> rfl
  | lost env e pc op next => cases stage <;> rfl
  | moved env pc op next =>
      rcases b with ⟨jobId, userId, pc₀⟩
      cases pc₀ with
      | getObjectStream key =>
          simp only [nextBody] at next
          split_ifs at next <;> cases next <;> cases stage <;> first | rfl | cases hb
      | transcribe key =>
          simp only [nextBody] at next
          split_ifs at next <;> cases next <;> cases stage <;> first | rfl | cases hb
      | done r => cases next
      | _ =>
          cases next
          cases stage <;> first | rfl | cases hb

/-- Only an attempt that starts a body begins to race it. -/
theorem AttemptMove.racing {a : Attempt} {now i : ℕ} {work : Work} {spawned : List Thread}
    (h : AttemptMove cfg w a now (.racing work i) op spawned) :
    i = w.threads.length ∧ spawned = [.body ⟨a.jobId, a.userId, startBody a.jobId now work⟩] := by
  generalize hpc : AttemptPc.racing work i = pc at h
  cases h with
  | started work' pc => cases hpc; exact ⟨rfl, rfl⟩
  | completed work' result pc =>
      cases work' with
      | transcribe job =>
          simp only [afterStage, compileStage] at hpc
          split_ifs at hpc
      | _ => cases hpc
  | thrown work' e op pc =>
      unfold afterThrow at hpc
      split_ifs at hpc
  | _ => cases hpc

theorem races_empty : Races World.empty := by
  intro a work i ha
  cases ha

theorem races_step {act : Action} (h : Races w) (hs : step cfg w act = some w') : Races w' := by
  intro a work k ha hpc
  cases step_shape hs with
  | thread i now t t' op spawned at_ acts =>
      -- a body that an old attempt races stays in its place
      have hold : Thread.attempt a ∈ w.threads → ∃ b,
          (w.advance now i t' op spawned).threads[k]? = some (.body b) ∧ b.jobId = a.jobId ∧
            b.userId = a.userId ∧ serves work.stage b.pc = true := by
        intro hmem
        obtain ⟨b, hb, hjob, huser, hserves⟩ := h a work k hmem hpc
        by_cases hki : k = i
        · subst hki
          rw [at_] at hb
          cases hb
          obtain ⟨-, pc, rfl, hmove⟩ := acts_body acts
          exact ⟨_, getElem?_advance_same at_, hjob, huser, hmove.serves hserves⟩
        · exact ⟨b, getElem?_advance_other hki hb, hjob, huser, hserves⟩
      rcases mem_advance ha with hmem | heq | hsp
      · exact hold hmem
      · obtain ⟨a₀, pc, rfl, rfl, hmove⟩ := acts_to_attempt (heq ▸ acts)
        dsimp only at hpc
        subst hpc
        obtain ⟨rfl, rfl⟩ := hmove.racing
        exact ⟨⟨a₀.jobId, a₀.userId, startBody a₀.jobId now work⟩, by simp [World.advance], rfl, rfl,
          startBody_serves _ _ _⟩
      · rcases acts_spawned acts hsp with ⟨_, _, -, -, heq⟩ | ⟨_, _, _, -, -, -, heq⟩ <;> cases heq
  | outside op new acts =>
      rcases List.mem_append.mp ha with hmem | hnew
      · obtain ⟨b, hb, hrest⟩ := h a work k hmem hpc
        exact ⟨b, (List.getElem?_append_left (lt_of_getElem? hb)).trans hb, hrest⟩
      · cases acts with
        | called request => cases request <;> simp [Request.thread] at hnew
        | picked jobId entry queued waiting =>
            obtain rfl : a = ⟨jobId, entry.userId, .findById⟩ := by simpa using hnew
            cases hpc
        | _ => cases hnew

end FieldNote.ServerRuns
