import FieldNote.AuditTrail

/-!
# How far an attempt has written its block

One program point of an attempt, its stage body or its failure handler after the other: what the
current block holds there, and what the row says. What stands under `kept` is known only as long
as READY is not taken back: that the row is READY exactly when the render stage is completed.
-/
namespace FieldNote.TrailPhases
open JobsService PipelineService ServerRuns CallPool GuardedRuns SoleActor AuditTrail

/-- The transcript is stored, and not blank. -/
def Transcribed (r : Reading) : Prop := ∃ text, r.transcript = some text ∧ JsText.trim text ≠ ""

/-- The compile stage does not show before a transcript is stored. -/
def CompiledAfter (r : Reading) : Prop := ∀ status, ("compile", status) ∈ r.trail → Transcribed r

def Agrees (r : Reading) : Prop := r.status = .READY ↔ completed .render ∈ r.trail

/-- The attempt has written its block, up to the event of a failure handling that may follow. -/
structure Ended (kept : Prop) (past : List (String × String)) (r : Reading)
    (failedIn : Option Stage) : Prop where
  block : ∃ b : Block, r.trail = past ++ b.events ∧ b.failed = failedIn ∧
    (b.reported = true → r.status = .FAILED)
  agrees : kept → Agrees r

structure Unreported (kept : Prop) (past : List (String × String)) (r : Reading)
    (failedIn : Option Stage) : Prop where
  block : ∃ b : Block, r.trail = past ++ b.events ∧ b.failed = failedIn ∧ b.reported = false
  agrees : kept → Agrees r

/-- The attempt is about to start a stage. -/
structure Before (kept : Prop) (past : List (String × String)) (r : Reading) (work : Work) :
    Prop where
  trail : ∃ done, r.trail = past ++ pairs done ∧ (done ++ [work.stage]).Sublist stages
  unready : r.status ≠ .READY
  unrendered : kept → completed .render ∉ r.trail
  text : work.stage = .compile → Transcribed r

/-- The attempt has started a stage that has not ended. -/
structure Within (kept : Prop) (past : List (String × String)) (r : Reading) (work : Work) :
    Prop where
  trail : ∃ done, r.trail = past ++ pairs done ++ [started work.stage] ∧
    (done ++ [work.stage]).Sublist stages
  unrendered : kept → completed .render ∉ r.trail
  rendering : r.status = .READY → work.stage = .render

/-- What a completed stage leaves in the row. -/
structure Achieved (work : Work) (r : Reading) : Prop where
  text : work.stage = .transcribe → Transcribed r
  ready : work.stage = .render → r.status = .READY

structure Serving (work : Work) (r : Reading) (b : Body) : Prop where
  serves : serves work.stage b.pc = true
  text : ∀ text, b.pc = .saveTranscript text → JsText.trim text ≠ ""
  done : ∀ result, b.pc = .done (.ok result) → Achieved work r

/-- Program points of `markFailed`. -/
inductive Marking (kept : Prop) (past : List (String × String)) (r : Reading)
    (failedIn : Option Stage) : MarkPc → Prop where
  | rawById (ended : Ended kept past r failedIn) : Marking kept past r failedIn .rawById
  | setStatus (message : String) (unreported : Unreported kept past r failedIn) :
      Marking kept past r failedIn (.setStatus message)
  | addEvent (message : String) (unreported : Unreported kept past r failedIn)
      (status : r.status = .FAILED) : Marking kept past r failedIn (.addEvent message)

/-- Program points of an attempt, with the stage it has failed in. -/
inductive Working (kept : Prop) (jobId : String) (threads : List Thread)
    (past : List (String × String)) (r : Reading) : AttemptPc → Option Stage → Prop where
  | reading (trail : r.trail = past) (agrees : kept → Agrees r) :
      Working kept jobId threads past r .findById none
  | announcing (work : Work) (before : Before kept past r work) :
      Working kept jobId threads past r (.setStatus work) none
  | starting (work : Work) (before : Before kept past r work) :
      Working kept jobId threads past r (.addStarted work) none
  | racing (work : Work) (i : ℕ) (b : Body) (at_ : threads[i]? = some (.body b))
      (job : b.jobId = jobId) (within : Within kept past r work) (serving : Serving work r b) :
      Working kept jobId threads past r (.racing work i) none
  | completing (work : Work) (result : StageResult) (within : Within kept past r work)
      (achieved : Achieved work r) :
      Working kept jobId threads past r (.addCompleted work result) none
  | failing (work : Work) (e : Err) (within : Within kept past r work)
      (unready : kept → r.status ≠ .READY) :
      Working kept jobId threads past r (.addFailed work e) (some work.stage)
  | marking (e : Err) (failedIn : Option Stage) (mark : MarkPc)
      (marking : Marking kept past r failedIn mark) :
      Working kept jobId threads past r (.marking e mark) failedIn
  | settled (e : Option Err) (failedIn : Option Stage) (ended : Ended kept past r failedIn) :
      Working kept jobId threads past r (.settled e) failedIn

inductive Handling (kept : Prop) (past : List (String × String)) (r : Reading)
    (failedIn : Option Stage) : HandlerPc → Prop where
  | marking (mark : MarkPc) (marking : Marking kept past r failedIn mark) :
      Handling kept past r failedIn (.marking mark)
  | parking (ended : Ended kept past r failedIn) : Handling kept past r failedIn .addDlq

variable {kept : Prop} {cfg : ServerConfig} {w w' : World} {jobId : String} {s : Stores}
  {r : Reading} {op : Op} {now : ℕ} {past : List (String × String)} {failedIn : Option Stage}
  {threads : List Thread}

@[simp] theorem pairs_nil : pairs [] = [] := rfl

theorem pairs_concat (done : List Stage) (stage : Stage) :
    pairs (done ++ [stage]) = pairs done ++ [started stage, completed stage] := by
  simp [pairs]

theorem blockEvents_concat (blocks : List Block) (b : Block) :
    blockEvents (blocks ++ [b]) = blockEvents blocks ++ b.events := by
  simp [blockEvents]

theorem completed_injective {stage stage' : Stage} :
    completed stage = completed stage' ↔ stage = stage' := by
  cases stage <;> cases stage' <;> simp [completed, Stage.name]

theorem ended_pairs (done : List Stage) (htrail : r.trail = past ++ pairs done)
    (hdone : done.Sublist stages) (hagrees : kept → Agrees r) : Ended kept past r none :=
  ⟨⟨⟨done, none, false, by simpa using hdone⟩, by simp [Block.events, htrail], rfl, by simp⟩,
    hagrees⟩

theorem Unreported.ended (h : Unreported kept past r failedIn) : Ended kept past r failedIn := by
  obtain ⟨⟨b, htrail, hfailed, hreported⟩, hagrees⟩ := h
  exact ⟨⟨b, htrail, hfailed, by simp [hreported]⟩, hagrees⟩

/-- A block whose failure is reported already belongs to a FAILED row. -/
theorem Ended.unreported (h : Ended kept past r failedIn) (hstatus : r.status ≠ .FAILED) :
    Unreported kept past r failedIn := by
  obtain ⟨⟨b, htrail, hfailed, hreported⟩, hagrees⟩ := h
  exact ⟨⟨b, htrail, hfailed, by simpa using mt hreported hstatus⟩, hagrees⟩

theorem Agrees.unready (h : Agrees r) (hready : r.status ≠ .READY) {status : JobStatus}
    (hstatus : status ≠ .READY) : Agrees { r with status := status } :=
  ⟨fun hr => (hstatus hr).elim, fun hmem => (hready (h.mpr hmem)).elim⟩

/-- `markFailed` sets FAILED, and then reports. -/
theorem Unreported.fail (h : Unreported kept past r failedIn)
    (hready : kept → r.status ≠ .READY) :
    Unreported kept past { r with status := .FAILED } failedIn :=
  ⟨h.block, fun hkept => (h.agrees hkept).unready (hready hkept) (by simp)⟩

theorem Unreported.report (h : Unreported kept past r failedIn) (hstatus : r.status = .FAILED) :
    Ended kept past { r with trail := r.trail ++ [pipelineFailed] } failedIn := by
  obtain ⟨⟨b, htrail, hfailed, hreported⟩, hagrees⟩ := h
  refine ⟨⟨{ b with reported := true }, ?_, hfailed, fun _ => hstatus⟩, ?_⟩
  · simp [htrail, Block.events, hreported]
  · have hne : completed .render ≠ pipelineFailed := by simp [completed, pipelineFailed, Stage.name]
    simpa [Agrees, hne] using hagrees

theorem Marking.ended {mark : MarkPc} (h : Marking kept past r failedIn mark) :
    Ended kept past r failedIn := by
  cases h with
  | rawById ended => exact ended
  | setStatus message unreported => exact unreported.ended
  | addEvent message unreported status => exact unreported.ended

/-- One segment of `markFailed`, which does not find the row READY when it sets the status. -/
theorem mark_step {message : String} {mark : MarkPc} {mark' : Option MarkPc}
    (hs : Reads jobId s r) (h : Marking kept past r failedIn mark)
    (hkeeps : kept → ∀ m, mark = .setStatus m → r.status ≠ .READY)
    (hnext : nextMark s jobId message mark = (mark', op)) :
    (∃ m, mark' = some m ∧ Marking kept past (r.after jobId op) failedIn m) ∨
      mark' = none ∧ Ended kept past (r.after jobId op) failedIn := by
  cases h with
  | rawById ended =>
      obtain ⟨job, hrow, hstatus, -⟩ := hs.row
      simp only [nextMark, hrow] at hnext
      split_ifs at hnext with hfailed
      · cases hnext
        exact .inr ⟨rfl, ended⟩
      · cases hnext
        exact .inl ⟨_, rfl, .setStatus _ (ended.unreported (hstatus ▸ hfailed))⟩
  | setStatus m unreported =>
      cases hnext
      rw [after_setStatus]
      exact .inl ⟨_, rfl, .addEvent m (unreported.fail fun hkept => hkeeps hkept m rfl) rfl⟩
  | addEvent m unreported status =>
      cases hnext
      rw [after_event]
      exact .inr ⟨rfl, unreported.report status⟩

/-- `markFailed` that throws has written at most the status. -/
theorem mark_broken {message : String} {mark : MarkPc} (h : Marking kept past r failedIn mark)
    (hkeeps : op ≠ .none → kept → ∀ m, mark = .setStatus m → r.status ≠ .READY)
    (hevent : ∀ m, mark ≠ .addEvent m)
    (hop : op = .none ∨ ∃ mark', nextMark s jobId message mark = (mark', op)) :
    Ended kept past (r.after jobId op) failedIn := by
  rcases hop with rfl | ⟨mark', hnext⟩
  · exact h.ended
  · cases h with
    | rawById ended =>
        obtain ⟨rfl, -⟩ := nextMark_rawById hnext
        exact ended
    | setStatus m unreported =>
        cases hnext
        rw [after_setStatus]
        exact (unreported.fail fun hkept => hkeeps (by simp) hkept m rfl).ended
    | addEvent m unreported status => exact (hevent m rfl).elim

/-- A selection that ends with `x` goes on with a later `y`. -/
theorem sublist_next {α : Type*} {all done : List α} {x y : α} (hnodup : all.Nodup)
    (h : (done ++ [x]).Sublist all) (hnext : [x, y].Sublist all) :
    ((done ++ [x]) ++ [y]).Sublist all := by
  obtain ⟨before, after, rfl, hdone, hx⟩ := List.append_sublist_iff.mp h
  obtain ⟨l₁, l₂, hl, h₁, h₂⟩ := List.sublist_append_iff.mp hnext
  cases l₁ with
  | nil =>
      rw [List.append_assoc]
      exact hdone.append (by simpa [hl] using h₂)
  | cons z rest =>
      obtain ⟨rfl, -⟩ := List.cons.inj hl
      have hdisjoint := (List.nodup_append.mp hnodup).2.2
      exact (hdisjoint x (h₁.subset (by simp)) x (hx.subset (by simp)) rfl).elim

theorem Within.ordered {work work' : Work} {done : List Stage}
    (h : (done ++ [work.stage]).Sublist stages) (hnext : [work.stage, work'.stage].Sublist stages) :
    ((done ++ [work.stage]) ++ [work'.stage]).Sublist stages :=
  sublist_next (by decide) h hnext

/-- The stage is started. -/
theorem Before.start {work : Work} (h : Before kept past r work) :
    Within kept past { r with trail := r.trail ++ [started work.stage] } work := by
  obtain ⟨⟨done, htrail, hordered⟩, hready, hrendered, -⟩ := h
  refine ⟨⟨done, by rw [htrail], hordered⟩, ?_, fun hr => (hready hr).elim⟩
  have hne : completed .render ≠ started work.stage := by simp [completed, started]
  simpa [hne] using hrendered

/-- An attempt that leaves a stage before its first event has written nothing of it. -/
theorem Before.ended {work : Work} (h : Before kept past r work) : Ended kept past r none := by
  obtain ⟨⟨done, htrail, hordered⟩, hready, hrendered, -⟩ := h
  exact ended_pairs done htrail ((List.sublist_append_left done _).trans hordered)
    fun hkept => ⟨fun hr => (hready hr).elim, fun hmem => (hrendered hkept hmem).elim⟩

theorem Before.announce {work : Work} (h : Before kept past r work) :
    Before kept past { r with status := work.stage.status } work :=
  ⟨h.trail, by cases work <;> simp [Work.stage, Stage.status], h.unrendered, h.text⟩

/-- The failure of the stage is written. -/
theorem Within.fail {work : Work} (h : Within kept past r work)
    (hready : kept → r.status ≠ .READY) :
    Ended kept past { r with trail := r.trail ++ [failed work.stage] } (some work.stage) := by
  obtain ⟨⟨done, htrail, hordered⟩, hrendered, -⟩ := h
  refine ⟨⟨⟨done, some work.stage, false, hordered⟩, ?_, rfl, by simp⟩, ?_⟩
  · simp [Block.events, htrail]
  · have hne : completed .render ≠ failed work.stage := by simp [completed, failed]
    exact fun hkept => ⟨fun hr => (hready hkept hr).elim,
      fun hmem => (hrendered hkept (by simpa [hne] using hmem)).elim⟩

/-- The completion of a stage is written, and the next one begins. -/
theorem Within.next {work work' : Work} (h : Within kept past r work) (hstage : work.stage ≠ .render)
    (hnext : [work.stage, work'.stage].Sublist stages)
    (htext : work'.stage = .compile → Transcribed r) :
    Before kept past { r with trail := r.trail ++ [completed work.stage] } work' := by
  obtain ⟨⟨done, htrail, hordered⟩, hrendered, hrendering⟩ := h
  have hordered' := Within.ordered hordered hnext
  refine ⟨⟨done ++ [work.stage], ?_, hordered'⟩, mt hrendering hstage, ?_, htext⟩
  · simp [htrail, pairs_concat]
  · have hne : completed .render ≠ completed work.stage := by
      rw [Ne, completed_injective]
      exact Ne.symm hstage
    simpa [hne] using hrendered

theorem Within.rendered {work : Work} (h : Within kept past r work) (hstage : work.stage = .render)
    (hready : r.status = .READY) :
    Ended kept past { r with trail := r.trail ++ [completed work.stage] } none := by
  obtain ⟨⟨done, htrail, hordered⟩, -, -⟩ := h
  refine ended_pairs (done ++ [work.stage]) ?_ hordered ?_
  · simp [htrail, pairs_concat]
  · exact fun _ => ⟨fun _ => by simp [hstage], fun _ => hready⟩

theorem afterStage_working {work : Work} {result : StageResult} (h : Within kept past r work)
    (hachieved : Achieved work r) :
    Working kept jobId threads past { r with trail := r.trail ++ [completed work.stage] }
      (afterStage work result) none := by
  cases work with
  | transcribe job =>
      simp only [afterStage, compileStage]
      split_ifs
      · have hnext : [Stage.transcribe, .compile].Sublist stages := by decide
        exact .announcing _ (h.next (by simp [Work.stage]) hnext fun _ => hachieved.text rfl)
      · have hnext : [Stage.transcribe, .render].Sublist stages := by decide
        exact .announcing _ (h.next (by simp [Work.stage]) hnext (by simp [Work.stage]))
  | compile job text =>
      have hnext : [Stage.compile, .render].Sublist stages := by decide
      exact .announcing _ (h.next (by simp [Work.stage]) hnext (by simp [Work.stage]))
  | render label sections => exact .settled _ _ (h.rendered rfl (hachieved.ready rfl))

theorem afterThrow_working (e : Err) (h : Ended kept past r failedIn) :
    Working kept jobId threads past r (afterThrow e) failedIn := by
  unfold afterThrow
  split_ifs
  · exact .marking e _ .rawById (.rawById h)
  · exact .settled _ _ h

/-- What an attempt goes on to after its read. -/
theorem afterFindById_working {userId : String} (hs : Reads jobId s r)
    (hagrees : kept → Agrees r) (htrail : r.trail = past) :
    Working kept jobId threads past r (afterFindById jobId userId (s.findById jobId)) none := by
  have hended : Ended kept past r none := ended_pairs [] (by simp [htrail]) (by simp) hagrees
  obtain ⟨job, hrow, hstatus, htext⟩ := hs.row
  simp only [afterFindById, hrow]
  split_ifs with hdeleted huser hready
  · exact .settled _ _ hended
  · exact .settled _ _ hended
  · exact .settled _ _ hended
  · split
    · exact .settled _ _ hended
    · rename_i key hkey
      obtain ⟨work, hwork, hbegins⟩ :=
        transcribeStage_begins ⟨job.label, key, job.transcript, job.existingReport⟩
      rw [hwork]
      rw [hstatus] at hready
      refine .announcing work ⟨⟨[], by simp [htrail], ?_⟩, hready,
        fun hkept => mt (hagrees hkept).mpr hready, ?_⟩
      · have hmem : work.stage ∈ stages := by cases work <;> simp [stages, Work.stage]
        simpa using hmem
      · intro hcompile
        cases hbegins with
        | compile text transcript full empty => exact ⟨text, htext.symm.trans transcript, full⟩
        | transcribe blank => cases hcompile
        | render text transcript full existing => cases hcompile

/-- What the record says of an attempt at a program point. -/
def noteOf : AttemptPc → Option Stage → Option Stage
  | .addFailed work _, _ => some work.stage
  | _, failedIn => failedIn

theorem Working.note {pc : AttemptPc} (h : Working kept jobId threads past r pc failedIn) :
    noteOf pc failedIn = failedIn := by
  cases h <;> rfl

theorem Working.noted {pc : AttemptPc} (h : Working kept jobId threads past r pc failedIn) :
    Working kept jobId threads past r pc (noteOf pc failedIn) := by
  rwa [h.note]

theorem Working.open_ {pc : AttemptPc} (h : Working kept jobId threads past r pc failedIn) :
    pc ≠ .acked := by
  rintro rfl
  cases h

theorem isReady_iff (hs : Reads jobId w.stores r) : isReady jobId w = true ↔ r.status = .READY := by
  obtain ⟨job, hrow, hstatus, -⟩ := hs.row
  simp [isReady, hrow, hstatus]

theorem serving_start {work : Work} {jobId userId : String} :
    Serving work r ⟨jobId, userId, startBody jobId now work⟩ := by
  refine ⟨startBody_serves _ _ _, ?_, fun result hpc => (startBody_ne_done now work _ hpc).elim⟩
  intro text hpc
  cases work <;> cases hpc

/-- An event of a stage that does not come too early. -/
theorem CompiledAfter.event {stage : Stage} {status : String} (h : CompiledAfter r)
    (htext : stage = .compile → Transcribed r) :
    CompiledAfter { r with trail := r.trail ++ [(stage.name, status)] } := by
  intro status' hmem
  rcases List.mem_append.mp hmem with hold | hnew
  · exact h status' hold
  · apply htext
    cases stage
    · simp [Stage.name] at hnew
    · rfl
    · simp [Stage.name] at hnew

theorem CompiledAfter.report (h : CompiledAfter r) :
    CompiledAfter { r with trail := r.trail ++ [pipelineFailed] } := by
  intro status hmem
  have hmem' : ("compile", status) ∈ r.trail := by simpa [pipelineFailed] using hmem
  exact h status hmem'

/-- A stage that has started may be followed by its other events. -/
theorem Within.text {work : Work} (h : Within kept past r work) (hc : CompiledAfter r)
    (hcompile : work.stage = .compile) : Transcribed r := by
  obtain ⟨⟨done, htrail, -⟩, -, -⟩ := h
  apply hc "started"
  simp [htrail, started, hcompile, Stage.name]

theorem mark_compiled {message : String} {mark : MarkPc} {mark' : Option MarkPc}
    (hc : CompiledAfter r) (hnext : nextMark s jobId message mark = (mark', op)) :
    CompiledAfter (r.after jobId op) := by
  cases mark with
  | rawById =>
      obtain ⟨rfl, -⟩ := nextMark_rawById hnext
      exact hc
  | setStatus m =>
      cases hnext
      rw [after_setStatus]
      exact hc
  | addEvent m =>
      cases hnext
      rw [after_event]
      exact hc.report

/-- One segment of an attempt of the job. -/
theorem attempt_step {i : ℕ} {a : Attempt} {pc : AttemptPc} (hs : Reads jobId w.stores r)
    (hjob : a.jobId = jobId) (hc : CompiledAfter r)
    (h : Working kept jobId w.threads past r a.pc failedIn)
    (hkeeps : kept → r.status = .READY → revokes jobId w (.attempt a) = false)
    (hnext : nextAttempt w.stores a w.threads.length w.bodyResult = some (pc, op)) :
    CompiledAfter (r.after jobId op) ∧
      Working kept jobId (w.threads.set i (.attempt { a with pc := pc }) ++ Attempt.spawn a now) past
        (r.after jobId op) pc (noteOf pc failedIn) := by
  subst hjob
  generalize hpc : a.pc = pc₀ at h
  cases h with
  | reading trail agrees =>
      simp only [nextAttempt, hpc] at hnext
      cases hnext
      exact ⟨hc, (afterFindById_working hs agrees trail).noted⟩
  | announcing work before =>
      simp only [nextAttempt, hpc] at hnext
      cases hnext
      rw [after_setStatus]
      exact ⟨hc, .starting work before.announce⟩
  | starting work before =>
      simp only [nextAttempt, hpc] at hnext
      cases hnext
      rw [after_event]
      refine ⟨hc.event before.text, .racing work _
        ⟨a.jobId, a.userId, startBody a.jobId now work⟩ ?_ rfl before.start serving_start⟩
      simp [Attempt.spawn, hpc]
  | racing work k b at_ job within serving =>
      simp only [nextAttempt, hpc] at hnext
      split at hnext
      · cases hnext
      · rename_i result hr
        cases hnext
        obtain ⟨b', hb', hdone⟩ := bodyResult_eq_some.mp hr
        rw [at_] at hb'
        cases hb'
        exact ⟨hc, .completing work result within (serving.done result hdone)⟩
      · rename_i e hr
        cases hnext
        refine ⟨hc, .failing work e within fun hkept hready => ?_⟩
        have hrevokes := hkeeps hkept hready
        simp [revokes, hpc, within.rendering hready, hr, isError] at hrevokes
  | completing work result within achieved =>
      simp only [nextAttempt, hpc] at hnext
      cases hnext
      rw [after_event]
      exact ⟨hc.event (within.text hc), (afterStage_working within achieved).noted⟩
  | failing work e within unready =>
      simp only [nextAttempt, hpc] at hnext
      cases hnext
      rw [after_event]
      exact ⟨hc.event (within.text hc), (afterThrow_working e (within.fail unready)).noted⟩
  | marking e _ mark marking =>
      have hunready : kept → ∀ m, mark = .setStatus m → r.status ≠ .READY := by
        rintro hkept m rfl hready
        have hrevokes := hkeeps hkept hready
        simp [revokes, hpc] at hrevokes
      simp only [nextAttempt, hpc] at hnext
      split at hnext
      · rename_i op' hmark
        cases hnext
        refine ⟨mark_compiled hc hmark, ?_⟩
        rcases mark_step hs marking hunready hmark with ⟨m, hm, -⟩ | ⟨-, hended⟩
        · cases hm
        · exact .settled _ _ hended
      · rename_i mark' op' hmark
        cases hnext
        refine ⟨mark_compiled hc hmark, ?_⟩
        rcases mark_step hs marking hunready hmark with ⟨m, hm, hmarking⟩ | ⟨hm, -⟩
        · cases hm
          exact .marking e _ _ hmarking
        · cases hm
  | settled e _ ended => simp [nextAttempt, hpc] at hnext

/-- An attempt of the job that throws where it writes no event. -/
theorem attempt_throws {i : ℕ} {a : Attempt} {e : Err} {pc : AttemptPc} {new : List Thread}
    (hjob : a.jobId = jobId) (hc : CompiledAfter r)
    (h : Working kept jobId w.threads past r a.pc failedIn)
    (hevent : writesEvent jobId (.attempt a) = false)
    (hkeeps : op ≠ .none → kept → r.status = .READY → revokes jobId w (.attempt a) = false)
    (hthrows : a.throwing e = some pc)
    (hop : op = .none ∨
      ∃ pc', nextAttempt w.stores a w.threads.length w.bodyResult = some (pc', op)) :
    CompiledAfter (r.after jobId op) ∧
      Working kept jobId (w.threads.set i (.attempt { a with pc := pc }) ++ new) past
        (r.after jobId op) pc (noteOf pc failedIn) := by
  subst hjob
  generalize hpc : a.pc = pc₀ at h
  cases h with
  | reading trail agrees =>
      have hnone : op = .none := by
        rcases hop with rfl | ⟨pc', hnext⟩
        · rfl
        · simp only [nextAttempt, hpc] at hnext
          cases hnext
          rfl
      subst hnone
      simp only [Attempt.throwing, hpc, Option.some.injEq] at hthrows
      subst hthrows
      exact ⟨hc, .settled _ _ (ended_pairs [] (by simp [trail]) (by simp) agrees)⟩
  | announcing work before =>
      simp only [Attempt.throwing, hpc, Option.some.injEq] at hthrows
      subst hthrows
      rcases hop with rfl | ⟨pc', hnext⟩
      · exact ⟨hc, (afterThrow_working e before.ended).noted⟩
      · simp only [nextAttempt, hpc] at hnext
        cases hnext
        rw [after_setStatus]
        exact ⟨hc, (afterThrow_working e before.announce.ended).noted⟩
  | marking e' _ mark marking =>
      simp only [Attempt.throwing, hpc, Option.some.injEq] at hthrows
      subst hthrows
      have hop' : op = .none ∨ ∃ mark', nextMark w.stores a.jobId e'.message mark = (mark', op) := by
        refine hop.imp_right ?_
        rintro ⟨pc', hnext⟩
        exact nextAttempt_marking hpc hnext
      refine ⟨?_, .settled _ _ (mark_broken marking ?_ ?_ hop')⟩
      · rcases hop' with rfl | ⟨mark', hmark⟩
        · exact hc
        · exact mark_compiled hc hmark
      · rintro hne hkept m rfl hready
        have hrevokes := hkeeps hne hkept hready
        simp [revokes, hpc] at hrevokes
      · rintro m rfl
        simp [writesEvent, hpc] at hevent
  | racing work k b at_ job within serving => simp [Attempt.throwing, hpc] at hthrows
  | settled e' _ ended => simp [Attempt.throwing, hpc] at hthrows
  | starting work before => simp [writesEvent, hpc] at hevent
  | completing work result within achieved => simp [writesEvent, hpc] at hevent
  | failing work e' within unready => simp [writesEvent, hpc] at hevent

/-- One segment of the failure handler of the job. -/
theorem handler_step {h : Handler} {pc : HandlerPc} (hs : Reads jobId w.stores r)
    (hjob : h.jobId = jobId) (hc : CompiledAfter r) (hhandling : Handling kept past r failedIn h.pc)
    (hkeeps : kept → r.status = .READY → revokes jobId w (.handler h) = false)
    (hnext : nextHandler w.stores h = some (pc, op)) :
    CompiledAfter (r.after jobId op) ∧ (Handling kept past (r.after jobId op) failedIn pc ∨
      pc = .done ∧ Ended kept past (r.after jobId op) failedIn) := by
  subst hjob
  generalize hpc : h.pc = pc₀ at hhandling
  cases hhandling with
  | marking mark marking =>
      have hunready : kept → ∀ m, mark = .setStatus m → r.status ≠ .READY := by
        rintro hkept m rfl hready
        have hrevokes := hkeeps hkept hready
        simp [revokes, hpc] at hrevokes
      simp only [nextHandler, hpc] at hnext
      split at hnext
      · rename_i op' hmark
        cases hnext
        refine ⟨mark_compiled hc hmark, .inl ?_⟩
        rcases mark_step hs marking hunready hmark with ⟨m, hm, -⟩ | ⟨-, hended⟩
        · cases hm
        · exact .parking hended
      · rename_i mark' op' hmark
        cases hnext
        refine ⟨mark_compiled hc hmark, .inl ?_⟩
        rcases mark_step hs marking hunready hmark with ⟨m, hm, hmarking⟩ | ⟨hm, -⟩
        · cases hm
          exact .marking _ hmarking
        · cases hm
  | parking ended =>
      simp only [nextHandler, hpc] at hnext
      cases hnext
      exact ⟨hc, .inr ⟨rfl, ended⟩⟩

/-- A handler that throws ends, and has written no event with it. -/
theorem handler_throws (w : World) {h : Handler} (hjob : h.jobId = jobId) (hc : CompiledAfter r)
    (hhandling : Handling kept past r failedIn h.pc) (hevent : writesEvent jobId (.handler h) = false)
    (hkeeps : op ≠ .none → kept → r.status = .READY → revokes jobId w (.handler h) = false)
    (hop : op = .none ∨ ∃ pc, nextHandler w.stores h = some (pc, op)) :
    CompiledAfter (r.after jobId op) ∧ Ended kept past (r.after jobId op) failedIn := by
  subst hjob
  generalize hpc : h.pc = pc₀ at hhandling
  cases hhandling with
  | marking mark marking =>
      have hop' : op = .none ∨
          ∃ mark', nextMark w.stores h.jobId h.error.message mark = (mark', op) := by
        refine hop.imp_right ?_
        rintro ⟨pc, hnext⟩
        exact nextHandler_marking hpc hnext
      refine ⟨?_, mark_broken marking ?_ ?_ hop'⟩
      · rcases hop' with rfl | ⟨mark', hmark⟩
        · exact hc
        · exact mark_compiled hc hmark
      · rintro hne hkept m rfl hready
        have hrevokes := hkeeps hne hkept hready
        simp [revokes, hpc] at hrevokes
      · rintro m rfl
        simp [writesEvent, hpc] at hevent
  | parking ended =>
      rcases hop with rfl | ⟨pc, hnext⟩
      · exact ⟨hc, ended⟩
      · simp only [nextHandler, hpc] at hnext
        cases hnext
        exact ⟨hc, ended⟩

/-- What a move of a body does to the reading: nothing, or it saves the transcript or marks the
job READY. -/
inductive BodyEffect (b : Body) (r : Reading) : Reading → Prop where
  | same : BodyEffect b r r
  | saved (text : String) (pc : b.pc = .saveTranscript text) :
      BodyEffect b r { r with transcript := some text }
  | ready (view : ReportView) (pc : b.pc = .setPdfReady view) :
      BodyEffect b r { r with status := .READY }

theorem body_effect {b : Body} {pc : BodyPc} (hjob : b.jobId = jobId) (h : BodyMove w b pc op) :
    BodyEffect b r (r.after jobId op) := by
  subst hjob
  have hnext : ∀ env pc op, nextBody w.stores env b = some (pc, op) →
      BodyEffect b r (r.after b.jobId op) := by
    intro env pc op h
    cases nextBody_operates h with
    | none => exact .same
    | transcript _ text hpc =>
        simpa [Reading.after, Write.newStatus, Write.newTranscript] using .saved text hpc
    | report _ sections hpc => simpa [Reading.after, Write.newStatus, Write.newTranscript] using .same
    | putObject _ view hpc => exact .same
    | ready _ view hpc =>
        simpa [Reading.after, Write.newStatus, Write.newTranscript] using .ready view hpc
  cases h with
  | moved env pc op next => exact hnext env pc op next
  | threw e open_ => exact .same
  | lost env e pc op next => exact hnext env pc op next

theorem BodyEffect.trail {b : Body} {r' : Reading} (h : BodyEffect b r r') : r'.trail = r.trail := by
  cases h <;> rfl

/-- A stage that its body serves is the one of the body's program point. -/
theorem Serving.within {work : Work} {b : Body} {r' : Reading} (h : Serving work r b)
    (heffect : BodyEffect b r r') (hwithin : Within kept past r work) : Within kept past r' work := by
  obtain ⟨htrail, hrendered, hrendering⟩ := hwithin
  cases heffect with
  | same => exact ⟨htrail, hrendered, hrendering⟩
  | saved text hpc => exact ⟨htrail, hrendered, hrendering⟩
  | ready view hpc =>
      refine ⟨htrail, hrendered, fun _ => ?_⟩
      have hserves := h.serves
      rw [hpc] at hserves
      cases hstage : work.stage with
      | render => rfl
      | transcribe => simp [hstage, ServerRuns.serves] at hserves
      | compile => simp [hstage, ServerRuns.serves] at hserves

theorem Serving.compiled {work : Work} {b : Body} {r' : Reading} (h : Serving work r b)
    (heffect : BodyEffect b r r') (hc : CompiledAfter r) : CompiledAfter r' := by
  cases heffect with
  | same => exact hc
  | saved text hpc => exact fun _ _ => ⟨text, rfl, h.text text hpc⟩
  | ready view hpc => exact hc

/-- What a body has done when its stage completes. -/
theorem body_achieves {work : Work} {b : Body} {env : Env} {result : StageResult}
    (hjob : b.jobId = jobId) (h : Serving work r b)
    (hnext : nextBody w.stores env b = some (.done (.ok result), op)) :
    Achieved work (r.after jobId op) := by
  subst hjob
  have hserves := h.serves
  cases hpc : b.pc with
  | getObjectStream key =>
      simp only [nextBody, hpc] at hnext
      split_ifs at hnext <;> cases hnext
  | transcribe key =>
      simp only [nextBody, hpc] at hnext
      split_ifs at hnext <;> cases hnext
  | saveTranscript text =>
      simp only [nextBody, hpc] at hnext
      cases hnext
      refine ⟨fun _ => ⟨text, ?_, h.text text hpc⟩, ?_⟩
      · simp [Reading.after, Write.newTranscript]
      · intro hrender
        simp [hrender, hpc, ServerRuns.serves] at hserves
  | replaceReport sections =>
      constructor <;> intro hstage <;> simp [hstage, hpc, ServerRuns.serves] at hserves
  | setPdfReady view =>
      simp only [nextBody, hpc] at hnext
      cases hnext
      refine ⟨?_, fun _ => ?_⟩
      · intro htranscribe
        simp [htranscribe, hpc, ServerRuns.serves] at hserves
      · simp [Reading.after, Write.newStatus]
  | done result' => simp [nextBody, hpc] at hnext
  | _ =>
      simp only [nextBody, hpc] at hnext
      cases hnext

/-- A transcript that a body is about to save is not blank. -/
theorem body_text {b : Body} {env : Env} {text : String}
    (hnext : nextBody w.stores env b = some (.saveTranscript text, op)) : JsText.trim text ≠ "" := by
  unfold nextBody at hnext
  split at hnext
  · split_ifs at hnext <;> cases hnext
  · split_ifs at hnext with hblank
    · cases hnext
    · cases hnext
      rwa [JsText.trim_trim]
  all_goals cases hnext

theorem Serving.moves {work : Work} {b : Body} {pc : BodyPc} (hjob : b.jobId = jobId)
    (h : Serving work r b) (hmove : BodyMove w b pc op) :
    Serving work (r.after jobId op) { b with pc := pc } := by
  refine ⟨hmove.serves h.serves, ?_, ?_⟩
  · rintro text rfl
    cases hmove with
    | moved env pc op next => exact body_text next
  · rintro result rfl
    cases hmove with
    | moved env pc op next => exact body_achieves hjob h next

/-- The attempt goes on while its body, or nothing it reads, has moved. -/
theorem Working.body {i : ℕ} {b : Body} {pc : BodyPc} {pc₀ : AttemptPc} {r' : Reading}
    (hjob : b.jobId = jobId) (at_ : w.threads[i]? = some (.body b)) (hmove : BodyMove w b pc op)
    (h : Working kept jobId w.threads past r pc₀ failedIn) (hr' : r' = r.after jobId op)
    (heffect : r' = r ∨ ∃ work, pc₀ = .racing work i) :
    Working kept jobId (w.threads.set i (.body { b with pc := pc }) ++ []) past r' pc₀ failedIn := by
  cases h with
  | racing work k b' at' job within serving =>
      by_cases hki : k = i
      · subst hki
        rw [at_] at at'
        cases at'
        subst hr'
        exact .racing work k { b with pc := pc } (getElem?_advance_same at_) job
          (serving.within (body_effect hjob hmove) within) (serving.moves hjob hmove)
      · rcases heffect with rfl | ⟨work', he⟩
        · exact .racing work k b' (getElem?_advance_other hki at') job within serving
        · cases he
          exact (hki rfl).elim
  | _ =>
      rcases heffect with rfl | ⟨work', he⟩
      · constructor <;> assumption
      · cases he

theorem Working.mono {threads' : List Thread} {pc : AttemptPc}
    (h : Working kept jobId threads past r pc failedIn)
    (hkept : ∀ (i : ℕ) (b : Body), threads[i]? = some (.body b) → b.jobId = jobId →
      threads'[i]? = some (.body b)) : Working kept jobId threads' past r pc failedIn := by
  cases h with
  | racing work i b at_ job within serving =>
      exact .racing work i b (hkept i b at_ job) job within serving
  | _ => constructor <;> assumption

end FieldNote.TrailPhases
