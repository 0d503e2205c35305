import FieldNote.ReadyComplete
import FieldNote.SoloAttempts
import FieldNote.StageLog

/-!
# Stages are not repeated

What has been done is read off the row: a transcript with text stands for the transcription
and a report that is not empty for the compile. Over attempts that do not overlap, the first
always stands. The second fails for a compile that the service accepts with no sections, and
holds when no attempt begins after one.
-/
namespace FieldNote.StageResume
open JobsService PipelineService ServerRuns ObjectKeys SoloAttempts StageLog GuardedRuns CallPool

/-- A compile of the job has been committed with no sections. -/
def compiledEmpty (log : List Event) (jobId : String) : Bool :=
  log.any fun
    | .compiled _ id [] => id = jobId
    | _ => false

/-- The thread passes the checks of `process` after an empty compile. -/
def beginsAnew (jobId : String) (s : World × List Event) : Thread → Bool
  | .attempt a =>
      a.jobId = jobId && a.pc = .findById && passes s.1 a && compiledEmpty s.2 jobId
  | _ => false

/-- The thread is about to commit a PATCH with sections. -/
def patches (jobId : String) : Thread → Bool
  | .update c => c.jobId = jobId && c.pc = .commit && c.dto.sections ≠ .undefined
  | _ => false

def setting (jobId : String) (s : World × List Event) : Action → Bool
  | .step i _ | .throw i _ _ true => s.1.threads[i]?.all fun t => !patches jobId t
  | a => sequential jobId s.1 a

/-- Attempts on the job do not overlap, no PATCH replaces its sections, and ids are UUIDs. -/
def Setting (jobId : String) (s : World × List Event) (a : Action) : Prop :=
  UuidIds s.1 a ∧ setting jobId s a = true

def carriesOn (jobId : String) (s : World × List Event) : Action → Bool
  | .step i _ => s.1.threads[i]?.all fun t => !beginsAnew jobId s t
  | _ => true

/-- The guard: in this setting, no attempt begins after a compile with no sections. -/
def Resumes (jobId : String) (s : World × List Event) (a : Action) : Prop :=
  Setting jobId s a ∧ carriesOn jobId s a = true

instance (jobId : String) : DecidableRel (Setting jobId) :=
  fun _ _ => inferInstanceAs (Decidable (_ ∧ _))

instance (jobId : String) : DecidableRel (Resumes jobId) :=
  fun _ _ => inferInstanceAs (Decidable (_ ∧ _))

/-- `e'` does not call a provider for a stage of the job that `e` has committed. -/
def NoRepeat (jobId : String) (e e' : Event) : Prop :=
  (∀ text, e = .transcribed jobId text → e' ≠ .transcribing jobId) ∧
    ∀ i report, e = .compiled i jobId report → ∀ k text, e' ≠ .compiling k jobId text

/-- A transcription of the job has been committed. -/
def HasText (log : List Event) (jobId : String) : Prop :=
  ∃ text, Event.transcribed jobId text ∈ log

def HasReport (log : List Event) (jobId : String) : Prop :=
  ∃ i report, Event.compiled i jobId report ∈ log

/-- The report is the one that has been compiled. -/
def Compiled (log : List Event) (jobId : String) (report : List ReportSectionInput) : Prop :=
  ∃ i, Event.compiled i jobId report ∈ log

/-- What holds when an attempt is about to run a stage: the stages before it are committed, and
it is not. -/
def Ahead (log : List Event) (jobId : String) : Work → Prop
  | .transcribe job => ¬ HasText log jobId ∧ job.existing = []
  | .compile _ text => Event.transcribed jobId text ∈ log ∧ ¬ HasReport log jobId
  | .render _ sections => Compiled log jobId sections

/-- What holds when a stage has returned a result. -/
def Behind (log : List Event) (jobId : String) (result : StageResult) : Work → Prop
  | .transcribe _ => Event.transcribed jobId result.transcript ∈ log ∧ ¬ HasReport log jobId
  | .compile _ _ => Compiled log jobId result.sections
  | .render _ _ => True

/-- The view shows the report that has been compiled. -/
def Shows (log : List Event) (jobId : String) (view : ReportView) : Prop :=
  ∃ report, Compiled log jobId report ∧ view.sections = (toReportView jobId "" 0 report).sections

/-- The attempt compiles after its transcription. -/
def compilesNext : Work → Prop
  | .transcribe job => job.existing = []
  | _ => True

/-- Thread `i` is in step with the log. -/
def InStep (jobId : String) (s : World × List Event) (i : ℕ) : Thread → Prop
  | .attempt a =>
      a.jobId = jobId →
        match a.pc with
        | .setStatus work | .addStarted work => Ahead s.2 jobId work
        | .racing work k =>
            compilesNext work ∧ ∀ result, s.1.bodyResult k = some (.ok result) →
              Behind s.2 jobId result work
        | .addCompleted work result => compilesNext work ∧ Behind s.2 jobId result work
        | _ => True
  | .body b =>
      b.jobId = jobId →
        match b.pc with
        | .getObjectStream _ | .transcribe _ => ¬ HasText s.2 jobId
        | .saveTranscript text => ¬ HasText s.2 jobId ∧ JsText.trim text ≠ ""
        | .compile _ text =>
            Event.compiling i jobId text ∈ s.2 ∧ Event.transcribed jobId text ∈ s.2 ∧
              ¬ HasReport s.2 jobId
        | .replaceReport _ =>
            ∃ text, Event.compiling i jobId text ∈ s.2 ∧ Event.transcribed jobId text ∈ s.2 ∧
              ¬ HasReport s.2 jobId
        | .render view | .putObject view | .setPdfReady view => Shows s.2 jobId view
        | .done _ => True
  | _ => True

/-- What the log says of the row and its PDF. -/
structure Stored (jobId : String) (s : World × List Event) : Prop where
  text : ∀ text, Event.transcribed jobId text ∈ s.2 → JsText.trim text ≠ "" ∧
    ∃ row, s.1.stores.findById jobId = some row ∧ row.transcript = some text
  report : ∀ i report, Event.compiled i jobId report ∈ s.2 →
    (∃ row, s.1.stores.findById jobId = some row ∧ row.existingReport = report) ∧
      ∃ text, Event.compiling i jobId text ∈ s.2 ∧ Event.transcribed jobId text ∈ s.2
  once : ∀ i k report report', Event.compiled i jobId report ∈ s.2 →
    Event.compiled k jobId report' ∈ s.2 → i = k
  blank : ¬ HasText s.2 jobId → ∀ row, s.1.stores.findById jobId = some row →
    row.transcript = none
  empty : ¬ HasReport s.2 jobId → ∀ row, s.1.stores.findById jobId = some row →
    row.sections = []
  pdf : '/' ∉ jobId.toList → ∀ userId object,
    s.1.stores.bucket (pdfKey userId jobId) = some object →
      ∃ view, object = .pdf view ∧ Shows s.2 jobId view

structure Inv (jobId : String) (s : World × List Event) : Prop where
  complete : ReadyComplete.Inv s.1
  solo : Solo jobId s.1
  inStep : ∀ i t, s.1.threads[i]? = some t → InStep jobId s i t
  stored : Stored jobId s
  order : s.2.Pairwise (NoRepeat jobId)

variable {cfg : ServerConfig} {w w' : World} {log log' : List Event} {jobId : String} {op : Op}

theorem commit_text {i : ℕ} {t' : Thread} {spawned : List Thread} {text : String}
    (h : Event.transcribed jobId text ∈ moveEvents w i t' op spawned) :
    op = .write jobId (.saveTranscript text) := by
  have hcall : ∀ k t, Event.transcribed jobId text ∉ callEvents k t := by
    intro k t hmem
    unfold callEvents at hmem
    split at hmem
    · split at hmem <;> simp at hmem
    · cases hmem
  rcases List.mem_append.mp h with h | h
  · rcases List.mem_append.mp h with h | h
    · unfold commitEvents at h
      split at h <;> simp at h
      rw [h.1, h.2]
    · exact (hcall i t' h).elim
  · obtain ⟨t, -, ht⟩ := List.mem_flatMap.mp h
    exact (hcall _ t ht).elim

theorem commit_report {i k : ℕ} {t' : Thread} {spawned : List Thread}
    {report : List ReportSectionInput}
    (h : Event.compiled k jobId report ∈ moveEvents w i t' op spawned) :
    k = i ∧ ∃ rows, op = .write jobId (.replaceReport rows) ∧ reportOf rows = report := by
  have hcall : ∀ k' t, Event.compiled k jobId report ∉ callEvents k' t := by
    intro k' t hmem
    unfold callEvents at hmem
    split at hmem
    · split at hmem <;> simp at hmem
    · cases hmem
  rcases List.mem_append.mp h with h | h
  · rcases List.mem_append.mp h with h | h
    · unfold commitEvents at h
      split at h <;> simp at h
      exact ⟨h.1, _, by rw [h.2.1], h.2.2.symm⟩
    · exact (hcall i t' h).elim
  · obtain ⟨t, -, ht⟩ := List.mem_flatMap.mp h
    exact (hcall _ t ht).elim

section Move

variable {i now : ℕ} {act : Action} {t t' : Thread} {spawned : List Thread}

/-- Only a body at its last statement commits a transcript. -/
theorem new_text {text : String} (acts : Acts cfg w i act t now t' op spawned)
    (h : Event.transcribed jobId text ∈ moveEvents w i t' op spawned) :
    ∃ b, t = .body b ∧ b.jobId = jobId ∧ b.pc = .saveTranscript text := by
  cases move_cause acts h with
  | transcribed b text pc => exact ⟨b, rfl, rfl, pc⟩

theorem new_report {k : ℕ} {report : List ReportSectionInput}
    (acts : Acts cfg w i act t now t' op spawned)
    (h : Event.compiled k jobId report ∈ moveEvents w i t' op spawned) :
    ∃ b, t = .body b ∧ b.jobId = jobId ∧ b.pc = .replaceReport report := by
  cases move_cause acts h with
  | compiled b report pc => exact ⟨b, rfl, rfl, pc⟩

end Move

/-- The log grows by no commit of a stage of the job. -/
structure Quiet (jobId : String) (log log' : List Event) : Prop where
  sub : ∀ e ∈ log, e ∈ log'
  text : ∀ text, Event.transcribed jobId text ∈ log' → Event.transcribed jobId text ∈ log
  report : ∀ i report, Event.compiled i jobId report ∈ log' → Event.compiled i jobId report ∈ log

/-- A move of anything but a body of the job commits no stage of it. -/
theorem quiet_thread {i now : ℕ} {act : Action} {t t' : Thread} {spawned : List Thread}
    (acts : Acts cfg w i act t now t' op spawned) (ht : ∀ b, t = .body b → b.jobId ≠ jobId) :
    Quiet jobId log (log ++ moveEvents w i t' op spawned) := by
  refine ⟨fun e he => List.mem_append_left _ he, ?_, ?_⟩
  · intro text h
    rcases List.mem_append.mp h with hold | hnew
    · exact hold
    · obtain ⟨b, hb, hjob, -⟩ := new_text acts hnew
      exact (ht b hb hjob).elim
  · intro k report h
    rcases List.mem_append.mp h with hold | hnew
    · exact hold
    · obtain ⟨b, hb, hjob, -⟩ := new_report acts hnew
      exact (ht b hb hjob).elim

theorem Quiet.noText (h : Quiet jobId log log') (hno : ¬ HasText log jobId) :
    ¬ HasText log' jobId := by
  rintro ⟨text, ht⟩
  exact hno ⟨text, h.text text ht⟩

theorem Quiet.noReport (h : Quiet jobId log log') (hno : ¬ HasReport log jobId) :
    ¬ HasReport log' jobId := by
  rintro ⟨i, report, hr⟩
  exact hno ⟨i, report, h.report i report hr⟩

theorem Compiled.mono {report : List ReportSectionInput} (hsub : ∀ e ∈ log, e ∈ log')
    (h : Compiled log jobId report) : Compiled log' jobId report := by
  obtain ⟨i, hi⟩ := h
  exact ⟨i, hsub _ hi⟩

theorem Shows.mono {view : ReportView} (hsub : ∀ e ∈ log, e ∈ log') (h : Shows log jobId view) :
    Shows log' jobId view := by
  obtain ⟨report, hreport, hview⟩ := h
  exact ⟨report, hreport.mono hsub, hview⟩

theorem Quiet.ahead {work : Work} (h : Quiet jobId log log') (hw : Ahead log jobId work) :
    Ahead log' jobId work := by
  cases work with
  | transcribe job => exact ⟨h.noText hw.1, hw.2⟩
  | compile job text => exact ⟨h.sub _ hw.1, h.noReport hw.2⟩
  | render label sections => exact Compiled.mono h.sub hw

theorem Quiet.behind {work : Work} {result : StageResult} (h : Quiet jobId log log')
    (hw : Behind log jobId result work) : Behind log' jobId result work := by
  cases work with
  | transcribe job => exact ⟨h.sub _ hw.1, h.noReport hw.2⟩
  | compile job text => exact Compiled.mono h.sub hw
  | render label sections => trivial

/-- A thread that does not move stays in step while no stage of its job is committed. -/
theorem InStep.quiet {s s' : World × List Event} {i : ℕ} {t : Thread} (h : InStep jobId s i t)
    (hq : Quiet jobId s.2 s'.2)
    (hraced : ∀ a work k result, t = .attempt a → a.jobId = jobId → a.pc = .racing work k →
      s'.1.bodyResult k = some (.ok result) → s.1.bodyResult k = some (.ok result)) :
    InStep jobId s' i t := by
  cases t with
  | attempt a =>
      intro hjob
      have ha := h hjob
      cases hpc : a.pc with
      | setStatus work =>
          simp only [hpc] at ha ⊢
          exact hq.ahead ha
      | addStarted work =>
          simp only [hpc] at ha ⊢
          exact hq.ahead ha
      | racing work k =>
          simp only [hpc] at ha ⊢
          refine ⟨ha.1, fun result hdone => ?_⟩
          exact hq.behind (ha.2 result (hraced a work k result rfl hjob hpc hdone))
      | addCompleted work result =>
          simp only [hpc] at ha ⊢
          exact ⟨ha.1, hq.behind ha.2⟩
      | _ => trivial
  | body b =>
      intro hjob
      have hb := h hjob
      cases hpc : b.pc with
      | getObjectStream key =>
          simp only [hpc] at hb ⊢
          exact hq.noText hb
      | transcribe key =>
          simp only [hpc] at hb ⊢
          exact hq.noText hb
      | saveTranscript text =>
          simp only [hpc] at hb ⊢
          exact ⟨hq.noText hb.1, hb.2⟩
      | compile label text =>
          simp only [hpc] at hb ⊢
          exact ⟨hq.sub _ hb.1, hq.sub _ hb.2.1, hq.noReport hb.2.2⟩
      | replaceReport report =>
          simp only [hpc] at hb ⊢
          obtain ⟨text, hcall, htext, hno⟩ := hb
          exact ⟨text, hq.sub _ hcall, hq.sub _ htext, hq.noReport hno⟩
      | done result => trivial
      | _ =>
          simp only [hpc] at hb ⊢
          exact Shows.mono hq.sub hb
  | _ => trivial

/-- Where nothing has been transcribed nothing has been compiled. -/
theorem Stored.noReport (h : Stored jobId (w, log)) (hno : ¬ HasText log jobId) :
    ¬ HasReport log jobId := by
  rintro ⟨i, report, hr⟩
  obtain ⟨-, text, -, htext⟩ := h.report i report hr
  exact hno ⟨text, htext⟩

section Thread

variable {i now : ℕ} {act : Action} {t t' : Thread} {spawned : List Thread}

/-- The result of a body, when it is done without an error. -/
theorem body_behind {b : Body} {work : Work} {result : StageResult}
    (acts : Acts cfg w i act (.body b) now t' op spawned)
    (hmove : BodyMove w b (.done (.ok result)) op) (hjob : b.jobId = jobId)
    (hserves : serves work.stage b.pc = true) (hb : InStep jobId (w, log) i (.body b))
    (hstored : Stored jobId (w, log)) :
    Behind (log ++ moveEvents w i t' op spawned) jobId result work := by
  have hin := hb hjob
  generalize hdone : BodyPc.done (.ok result) = pc at hmove
  cases hmove with
  | threw e open_ => cases hdone
  | lost env e pc op next => cases hdone
  | moved env pc op next =>
      subst hdone
      rcases b with ⟨id, userId, pc₀⟩
      obtain rfl : id = jobId := hjob
      cases pc₀ with
      | getObjectStream key =>
          simp only [nextBody] at next
          split_ifs at next <;> cases next
      | transcribe key =>
          simp only [nextBody] at next
          split_ifs at next <;> cases next
      | saveTranscript text =>
          cases next
          cases work with
          | transcribe job =>
              refine ⟨by simp [moveEvents, commitEvents], ?_⟩
              rintro ⟨k, report, hr⟩
              rcases List.mem_append.mp hr with hold | hnew
              · exact hstored.noReport hin.1 ⟨k, report, hold⟩
              · obtain ⟨b, hb, -, hpc⟩ := new_report acts hnew
                cases hb
                cases hpc
          | _ => cases hserves
      | replaceReport report =>
          cases next
          cases work with
          | compile job text => exact ⟨i, by simp [moveEvents, commitEvents]⟩
          | _ => cases hserves
      | setPdfReady view =>
          cases next
          cases work with
          | render label sections => trivial
          | _ => cases hserves
      | done result' => cases next
      | _ => cases next

theorem body_inStep {b : Body} {pc : BodyPc}
    (acts : Acts cfg w i act (.body b) now t' op spawned) (hmove : BodyMove w b pc op)
    (hb : InStep jobId (w, log) i (.body b)) :
    InStep jobId (w.advance now i t' op spawned, log ++ moveEvents w i t' op spawned) i
      (.body { b with pc := pc }) := by
  intro hid
  have hjob : b.jobId = jobId := hid
  have hin := hb hjob
  have hsub : ∀ e ∈ log, e ∈ log ++ moveEvents w i t' op spawned :=
    fun e he => List.mem_append_left _ he
  -- a body that is not at its commit logs none
  have htext : (∀ text, b.pc ≠ .saveTranscript text) → ¬ HasText log jobId →
      ¬ HasText (log ++ moveEvents w i t' op spawned) jobId := by
    rintro hpc hno ⟨text, ht⟩
    rcases List.mem_append.mp ht with hold | hnew
    · exact hno ⟨text, hold⟩
    · obtain ⟨b', hb', -, hpc'⟩ := new_text acts hnew
      cases hb'
      exact hpc text hpc'
  cases hmove with
  | threw e open_ => trivial
  | lost env e pc op next => trivial
  | moved env pc op next =>
      rcases b with ⟨id, userId, pc₀⟩
      cases pc₀ with
      | getObjectStream key =>
          simp only [nextBody] at next
          split_ifs at next <;> cases next
          · exact htext (by simp) hin
          · trivial
      | transcribe key =>
          simp only [nextBody] at next
          split_ifs at next with hblank <;> cases next
          · trivial
          · refine ⟨htext (by simp) hin, ?_⟩
            rwa [JsText.trim_trim]
      | compile label text =>
          cases next
          refine ⟨text, hsub _ hin.1, hsub _ hin.2.1, ?_⟩
          rintro ⟨k, report, hr⟩
          rcases List.mem_append.mp hr with hold | hnew
          · exact hin.2.2 ⟨k, report, hold⟩
          · obtain ⟨b', hb', -, hpc'⟩ := new_report acts hnew
            cases hb'
            cases hpc'
      | render view =>
          cases next
          exact Shows.mono hsub hin
      | putObject view =>
          cases next
          exact Shows.mono hsub hin
      | done result => cases next
      | _ =>
          cases next
          trivial

theorem compiledEmpty_iff :
    compiledEmpty log jobId = true ↔ ∃ i, Event.compiled i jobId [] ∈ log := by
  unfold compiledEmpty
  rw [List.any_eq_true]
  constructor
  · rintro ⟨e, he, hid⟩
    split at hid
    · rename_i k id
      exact ⟨k, of_decide_eq_true hid ▸ he⟩
    · cases hid
  · rintro ⟨i, he⟩
    exact ⟨_, he, by simp⟩

/-- An attempt that begins does so with the first stage that has not been committed. -/
theorem begins_ahead {a : Attempt} {work : Work} {job : Job} {key : String}
    (hstored : Stored jobId (w, log)) (hg : Resumes jobId (w, log) act)
    (at_ : w.threads[i]? = some (.attempt a))
    (acts : Acts cfg w i act (.attempt a) now (.attempt { a with pc := .setStatus work }) op spawned)
    (hpc : a.pc = .findById) (hjob : a.jobId = jobId)
    (hrow : w.stores.findById jobId = some job)
    (hbegins : Begins ⟨job.label, key, job.transcript, job.existingReport⟩ work) :
    Ahead log jobId work := by
  have hempty : job.existingReport = [] → ¬ HasReport log jobId := by
    rintro hnil ⟨k, report, hr⟩
    obtain ⟨⟨row, hrow', hreport⟩, -⟩ := hstored.report k report hr
    rw [show w.stores.findById jobId = some row from hrow'] at hrow
    cases hrow
    obtain ⟨⟨env, rfl⟩, hpass⟩ := acts_began acts hpc
    have hanew : beginsAnew jobId (w, log) (.attempt a) = false := by
      have hon := hg.2
      simpa only [carriesOn, at_, Option.all_some, Bool.not_eq_true'] using hon
    have hlogged : compiledEmpty log jobId = true :=
      compiledEmpty_iff.mpr ⟨k, by rw [← hnil, hreport]; exact hr⟩
    simp [beginsAnew, hjob, hpc, hpass, hlogged] at hanew
  cases hbegins with
  | transcribe blank =>
      have hno : ¬ HasText log jobId := by
        rintro ⟨text, ht⟩
        obtain ⟨hfull, row, hrow', htext⟩ := hstored.text text ht
        rw [show w.stores.findById jobId = some row from hrow'] at hrow
        cases hrow
        exact hfull (blank text htext)
      refine ⟨hno, ?_⟩
      have hnil := hstored.empty (hstored.noReport hno) job hrow
      exact reportOf_eq_nil.mpr hnil
  | compile text transcript full empty =>
      refine ⟨?_, hempty empty⟩
      by_cases hhas : HasText log jobId
      · obtain ⟨text', ht⟩ := hhas
        obtain ⟨-, row, hrow', htext⟩ := hstored.text text' ht
        rw [show w.stores.findById jobId = some row from hrow'] at hrow
        cases hrow
        have heq : some text' = some text := htext.symm.trans transcript
        cases heq
        exact ht
      · have hnone := hstored.blank hhas job hrow
        rw [show job.transcript = some text from transcript] at hnone
        cases hnone
  | render text transcript full existing =>
      by_cases hhas : HasReport log jobId
      · obtain ⟨k, report, hr⟩ := hhas
        obtain ⟨⟨row, hrow', hreport⟩, -⟩ := hstored.report k report hr
        rw [show w.stores.findById jobId = some row from hrow'] at hrow
        cases hrow
        exact ⟨k, by rw [show job.existingReport = report from hreport]; exact hr⟩
      · have hnil := hstored.empty hhas job hrow
        exact (existing (reportOf_eq_nil.mpr hnil)).elim

theorem attempt_inStep {a : Attempt} {pc : AttemptPc} (hstored : Stored jobId (w, log))
    (hg : Resumes jobId (w, log) act) (at_ : w.threads[i]? = some (.attempt a))
    (acts : Acts cfg w i act (.attempt a) now (.attempt { a with pc := pc }) op spawned)
    (hmove : AttemptMove cfg w a now pc op spawned)
    (hin : InStep jobId (w, log) i (.attempt a)) :
    InStep jobId (w.advance now i (.attempt { a with pc := pc }) op spawned,
      log ++ moveEvents w i (.attempt { a with pc := pc }) op spawned) i
      (.attempt { a with pc := pc }) := by
  intro hid
  have hjob : a.jobId = jobId := hid
  have hq : Quiet jobId log (log ++ moveEvents w i (.attempt { a with pc := pc }) op spawned) :=
    quiet_thread acts (by simp)
  have hin := hin hjob
  cases hmove with
  | began job key work pc row live user unready audio begins =>
      exact hq.ahead (begins_ahead hstored hg at_ acts pc hjob (hjob ▸ row) begins)
  | announced work pc =>
      simp only [pc] at hin
      exact hq.ahead hin
  | started work pc =>
      simp only [pc] at hin
      refine ⟨?_, ?_⟩
      · cases work with
        | transcribe job => exact hin.2
        | _ => trivial
      · intro result hresult
        obtain ⟨b, hb, hpc⟩ := bodyResult_eq_some.mp hresult
        have hnew : b = ⟨a.jobId, a.userId, startBody a.jobId now work⟩ := by
          simpa [World.advance] using hb.symm
        subst hnew
        exact (startBody_ne_done now work _ hpc).elim
  | won work k result pc done =>
      simp only [pc] at hin
      exact ⟨hin.1, hq.behind (hin.2 result done)⟩
  | completed work result pc =>
      simp only [pc] at hin
      cases work with
      | transcribe job =>
          have hnil : job.existing = [] := hin.1
          simp only [afterStage, compileStage, hnil, if_pos]
          have hbehind : Behind log jobId result (.transcribe job) := hin.2
          exact hq.behind hbehind
      | compile job text => exact Compiled.mono hq.sub hin.2
      | render label sections => trivial
  | thrown work e op pc =>
      unfold afterThrow
      split_ifs <;> trivial
  | _ => trivial

theorem spawned_inStep {k : ℕ} {t₁ : Thread} (acts : Acts cfg w i act t now t' op spawned)
    (hin : InStep jobId (w, log) i t) (hk : spawned[k]? = some t₁) :
    InStep jobId (w.advance now i t' op spawned, log ++ moveEvents w i t' op spawned)
      (w.threads.length + k) t₁ := by
  have hzero : k = 0 := by
    have hlt := lt_of_getElem? hk
    have hle := acts_spawned_le acts
    omega
  rcases acts_spawned acts (List.mem_of_getElem? hk) with
    ⟨a, work, rfl, hpc, rfl⟩ | ⟨_, _, _, -, -, -, rfl⟩
  · intro hid
    have hjob : a.jobId = jobId := hid
    have hahead : Ahead log jobId work := by simpa only [hpc] using hin hjob
    have hq : Quiet jobId log (log ++ moveEvents w i t' op spawned) := quiet_thread acts (by simp)
    cases work with
    | transcribe job => exact hq.noText hahead.1
    | compile job text =>
        refine ⟨?_, hq.sub _ hahead.1, hq.noReport hahead.2⟩
        refine List.mem_append_right _ (List.mem_append_right _ (List.mem_flatMap.mpr ⟨_,
          List.mem_of_getElem? hk, ?_⟩))
        simp [callEvents, startBody, hzero, hjob]
    | render label sections =>
        exact ⟨sections, Compiled.mono hq.sub hahead, by simp [toReportView]⟩
  · trivial

/-- The guard admits no statement of a PATCH on the job's sections. -/
theorem not_patched {userId : String} {label : Option String} {rows : List ReportSection}
    (hg : Resumes jobId (w, log) act) (at_ : w.threads[i]? = some t)
    (acts : Acts cfg w i act t now t' op spawned) :
    op ≠ .write jobId (.replaceReportScoped userId label rows) := by
  rintro rfl
  have hset := hg.1.2
  have hnot : patches jobId t = false := by
    cases acts with
    | stepped env t t' op spawned next =>
        simpa only [setting, at_, Option.all_some, Bool.not_eq_true'] using hset
    | lost env e t t' t₁ op spawned throws next =>
        simpa only [setting, at_, Option.all_some, Bool.not_eq_true'] using hset
  obtain ⟨env, hissues⟩ := acts.issues
  cases hissues with
  | aside _ _ haside => cases haside
  | update c wr pc write =>
      have hsections : c.dto.sections ≠ .undefined := by
        intro hundef
        rcases updateWrite_eq write with ⟨label, -, -, hw⟩ | ⟨label, sections, hbody, -⟩
        · cases hw
        · rw [hundef] at hbody
          cases hbody
      simp [patches, pc, hsections] at hnot

/-- A statement that stores a tree of the job is the commit of its compile. -/
theorem newSections_report {row : Job} {wr : Write} {rows : List ReportSection}
    (hg : Resumes jobId (w, log) act) (at_ : w.threads[i]? = some t)
    (acts : Acts cfg w i act t now t' (.write jobId wr) spawned)
    (hnew : wr.newSections row = some rows) : wr = .replaceReport rows := by
  cases wr with
  | replaceReport rows' =>
      cases hnew
      rfl
  | replaceReportScoped userId label rows' => exact (not_patched hg at_ acts rfl).elim
  | _ => cases hnew

/-- The body of a stage has a job. -/
theorem body_row {b : Body} (h : Inv jobId (w, log)) (at_ : w.threads[i]? = some (.body b))
    (hjob : b.jobId = jobId) : ∃ row, w.stores.findById jobId = some row := by
  subst hjob
  obtain ⟨row, hrow, -⟩ : Owned w.stores b.userId b.jobId :=
    h.complete.kept.owns _ (List.mem_of_getElem? at_)
  exact ⟨row, hrow⟩

/-- The body that commits a transcript finds none committed. -/
theorem uncommitted_text {b : Body} {text : String} (h : Inv jobId (w, log))
    (at_ : w.threads[i]? = some (.body b)) (hjob : b.jobId = jobId)
    (hpc : b.pc = .saveTranscript text) : ¬ HasText log jobId ∧ JsText.trim text ≠ "" := by
  simpa only [hpc] using h.inStep i _ at_ hjob

/-- The body that commits a report finds none committed, and has compiled the transcript. -/
theorem uncommitted_report {b : Body} {report : List ReportSectionInput} (h : Inv jobId (w, log))
    (at_ : w.threads[i]? = some (.body b)) (hjob : b.jobId = jobId)
    (hpc : b.pc = .replaceReport report) :
    ∃ text, Event.compiling i jobId text ∈ log ∧ Event.transcribed jobId text ∈ log ∧
      ¬ HasReport log jobId := by
  simpa only [hpc] using h.inStep i _ at_ hjob

section Commits
variable {k : ℕ} {text : String} {report : List ReportSectionInput}

theorem text_stored (h : Inv jobId (w, log)) (at_ : w.threads[i]? = some t)
    (acts : Acts cfg w i act t now t' op spawned)
    (ht : Event.transcribed jobId text ∈ log ++ moveEvents w i t' op spawned) :
    JsText.trim text ≠ "" ∧ ∃ row, (w.stores.run now op).findById jobId = some row ∧
      row.transcript = some text := by
  obtain ⟨env, hissues⟩ := acts.issues
  rcases List.mem_append.mp ht with hold | hnew
  · obtain ⟨hfull, row, hrow, htext⟩ := h.stored.text text hold
    refine ⟨hfull, ?_⟩
    rcases Stores.run_row_after now op hrow with hkept | ⟨wr, rfl, hwritten⟩
    · exact ⟨row, hkept, htext⟩
    · refine ⟨_, hwritten, ?_⟩
      rw [wr.apply_transcript]
      cases hwr : wr.newTranscript with
      | none => exact htext
      | some text' =>
          obtain ⟨b, rfl, hjob, hpc⟩ := issues_transcript hissues hwr
          exact ((uncommitted_text h at_ hjob hpc).1 ⟨text, hold⟩).elim
  · obtain rfl := commit_text hnew
    obtain ⟨b, rfl, hjob, hpc⟩ := new_text acts hnew
    obtain ⟨row, hrow⟩ := body_row h at_ hjob
    exact ⟨(uncommitted_text h at_ hjob hpc).2, _,
      (Stores.run_row_write now w.stores _ jobId).trans (by rw [hrow]; rfl), rfl⟩

theorem report_stored (h : Inv jobId (w, log)) (hg : Resumes jobId (w, log) act)
    (at_ : w.threads[i]? = some t) (acts : Acts cfg w i act t now t' op spawned)
    (hr : Event.compiled k jobId report ∈ log ++ moveEvents w i t' op spawned) :
    (∃ row, (w.stores.run now op).findById jobId = some row ∧ row.existingReport = report) ∧
      ∃ text, Event.compiling k jobId text ∈ log ∧ Event.transcribed jobId text ∈ log := by
  obtain ⟨env, hissues⟩ := acts.issues
  rcases List.mem_append.mp hr with hold | hnew
  · obtain ⟨⟨row, hrow, hreport⟩, hcause⟩ := h.stored.report k report hold
    refine ⟨?_, hcause⟩
    rcases Stores.run_row_after now op hrow with hkept | ⟨wr, rfl, hwritten⟩
    · exact ⟨row, hkept, hreport⟩
    · refine ⟨_, hwritten, ?_⟩
      unfold Job.existingReport at hreport ⊢
      rw [wr.apply_sections]
      cases hwr : wr.newSections row with
      | none => exact hreport
      | some rows =>
          rw [newSections_report hg at_ acts hwr] at hissues
          cases hissues with
          | aside _ _ haside => cases haside
          | update c wr pc write =>
              rcases updateWrite_cases write with ⟨_, he⟩ | ⟨_, _, he⟩ <;> cases he
          | report b sections pc =>
              obtain ⟨-, -, -, hno⟩ := uncommitted_report h at_ rfl pc
              exact (hno ⟨k, report, hold⟩).elim
  · obtain ⟨rfl, rows, rfl, hrows⟩ := commit_report hnew
    obtain ⟨b, rfl, hjob, hpc⟩ := new_report acts hnew
    obtain ⟨row, hrow⟩ := body_row h at_ hjob
    obtain ⟨text, hcall, htext, -⟩ := uncommitted_report h at_ hjob hpc
    refine ⟨⟨Write.apply now row (.replaceReport rows), ?_, hrows⟩, text, hcall, htext⟩
    exact (Stores.run_row_write now w.stores _ jobId).trans (by rw [hrow]; rfl)

/-- A report that is committed now is the first one. -/
theorem first_report (h : Inv jobId (w, log)) (at_ : w.threads[i]? = some t)
    (acts : Acts cfg w i act t now t' op spawned)
    (hnew : Event.compiled k jobId report ∈ moveEvents w i t' op spawned) :
    ¬ HasReport log jobId := by
  obtain ⟨b, rfl, hjob, hpc⟩ := new_report acts hnew
  obtain ⟨-, -, -, hno⟩ := uncommitted_report h at_ hjob hpc
  exact hno

theorem report_once {k' : ℕ} {report' : List ReportSectionInput} (h : Inv jobId (w, log))
    (at_ : w.threads[i]? = some t) (acts : Acts cfg w i act t now t' op spawned)
    (hr : Event.compiled k jobId report ∈ log ++ moveEvents w i t' op spawned)
    (hr' : Event.compiled k' jobId report' ∈ log ++ moveEvents w i t' op spawned) : k = k' := by
  rcases List.mem_append.mp hr with hold | hnew
  · rcases List.mem_append.mp hr' with hold' | hnew'
    · exact h.stored.once k k' report report' hold hold'
    · exact (first_report h at_ acts hnew' ⟨k, report, hold⟩).elim
  · rcases List.mem_append.mp hr' with hold' | hnew'
    · exact (first_report h at_ acts hnew ⟨k', report', hold'⟩).elim
    · exact (commit_report hnew).1.trans (commit_report hnew').1.symm

/-- A row that is inserted has neither a transcript nor a report. -/
theorem inserted_blank {env : Env} {row : Job} (hissues : Issues w env t (.insertJob row)) :
    row.transcript = none ∧ row.sections = [] := by
  cases hissues with
  | aside _ _ haside => cases haside
  | create c => exact ⟨rfl, rfl⟩

theorem text_blank {row : Job} (h : Inv jobId (w, log))
    (acts : Acts cfg w i act t now t' op spawned)
    (hno : ¬ HasText (log ++ moveEvents w i t' op spawned) jobId)
    (hrow : (w.stores.run now op).findById jobId = some row) : row.transcript = none := by
  have hbefore : ¬ HasText log jobId := by
    rintro ⟨text, ht⟩
    exact hno ⟨text, List.mem_append_left _ ht⟩
  rcases Stores.run_row_before hrow with hold | ⟨wr, row₀, rfl, hold, rfl⟩ | ⟨rfl, -, -⟩
  · exact h.stored.blank hbefore row hold
  · rw [wr.apply_transcript]
    cases wr with
    | saveTranscript text => exact (hno ⟨text, by simp [moveEvents, commitEvents]⟩).elim
    | _ => exact h.stored.blank hbefore row₀ hold
  · obtain ⟨env, hissues⟩ := acts.issues
    exact (inserted_blank hissues).1

theorem report_empty {row : Job} (h : Inv jobId (w, log)) (hg : Resumes jobId (w, log) act)
    (at_ : w.threads[i]? = some t) (acts : Acts cfg w i act t now t' op spawned)
    (hno : ¬ HasReport (log ++ moveEvents w i t' op spawned) jobId)
    (hrow : (w.stores.run now op).findById jobId = some row) : row.sections = [] := by
  have hbefore : ¬ HasReport log jobId := by
    rintro ⟨k, report, hr⟩
    exact hno ⟨k, report, List.mem_append_left _ hr⟩
  rcases Stores.run_row_before hrow with hold | ⟨wr, row₀, rfl, hold, rfl⟩ | ⟨rfl, -, -⟩
  · exact h.stored.empty hbefore row hold
  · rw [wr.apply_sections]
    cases hwr : wr.newSections row₀ with
    | none => exact h.stored.empty hbefore row₀ hold
    | some rows =>
        refine (hno ⟨i, reportOf rows, ?_⟩).elim
        simp [moveEvents, newSections_report hg at_ acts hwr, commitEvents]
  · obtain ⟨env, hissues⟩ := acts.issues
    exact (inserted_blank hissues).2

theorem pdf_stored {userId : String} {object : StoredObject} (h : Inv jobId (w, log))
    (at_ : w.threads[i]? = some t) (acts : Acts cfg w i act t now t' op spawned)
    (hid : '/' ∉ jobId.toList)
    (hobject : (w.stores.run now op).bucket (pdfKey userId jobId) = some object) :
    ∃ view, object = .pdf view ∧ Shows log jobId view := by
  rcases Stores.run_bucket_some hobject with hold | hop
  · exact h.stored.pdf hid userId object hold
  · obtain ⟨env, hissues⟩ := acts.issues
    generalize hkey : pdfKey userId jobId = key at hop
    cases hissues with
    | aside _ _ haside =>
        rw [hop] at haside
        cases haside
    | putObject b view pc =>
        cases hop
        obtain ⟨row, hrow, -⟩ : Owned w.stores b.userId b.jobId :=
          h.complete.kept.owns _ (List.mem_of_getElem? at_)
        have hjob : jobId = b.jobId := pdfKey_inj hid (h.complete.kept.ids b.jobId row hrow) hkey
        have hshows : Shows log jobId view := by
          simpa only [pc] using h.inStep i _ at_ hjob.symm
        exact ⟨view, rfl, hshows⟩
    | _ => cases hop

end Commits

theorem stored_thread (h : Inv jobId (w, log)) (hg : Resumes jobId (w, log) act)
    (at_ : w.threads[i]? = some t) (acts : Acts cfg w i act t now t' op spawned) :
    Stored jobId (w.advance now i t' op spawned, log ++ moveEvents w i t' op spawned) := by
  have hsub : ∀ e ∈ log, e ∈ log ++ moveEvents w i t' op spawned :=
    fun e he => List.mem_append_left _ he
  constructor
  · intro text ht
    exact text_stored h at_ acts ht
  · intro k report hr
    obtain ⟨hrow, text, hcall, htext⟩ := report_stored h hg at_ acts hr
    exact ⟨hrow, text, hsub _ hcall, hsub _ htext⟩
  · intro k k' report report' hr hr'
    exact report_once h at_ acts hr hr'
  · intro hno row hrow
    exact text_blank h acts hno hrow
  · intro hno row hrow
    exact report_empty h hg at_ acts hno hrow
  · intro hid userId object hobject
    obtain ⟨view, hview, hshows⟩ := pdf_stored h at_ acts hid hobject
    exact ⟨view, hview, hshows.mono hsub⟩

/-- No provider is called for a stage that has been committed. -/
theorem order_thread (h : Inv jobId (w, log)) (at_ : w.threads[i]? = some t)
    (acts : Acts cfg w i act t now t' op spawned) :
    (log ++ moveEvents w i t' op spawned).Pairwise (NoRepeat jobId) := by
  have hin := h.inStep i t at_
  refine List.pairwise_append.mpr ⟨h.order, ?_, ?_⟩
  · -- the events of one move have one cause
    refine List.pairwise_of_forall_mem_list fun e he e' he' => ⟨?_, ?_⟩
    · rintro text rfl rfl
      obtain ⟨b, rfl, -, hpc⟩ := new_text acts he
      cases hcause : move_cause acts he' with
      | transcribing b key pc =>
          rw [hpc] at pc
          cases pc
    · rintro k report rfl k' text rfl
      obtain ⟨b, rfl, -, -⟩ := new_report acts he
      cases move_cause acts he'
  · intro e he e' he'
    refine ⟨?_, ?_⟩
    · rintro text rfl rfl
      cases hcause : move_cause acts he' with
      | transcribing b key pc =>
          have hno : ¬ HasText log b.jobId := by simpa only [pc] using hin rfl
          exact hno ⟨text, he⟩
    · rintro k report rfl k' text rfl
      cases hcause : move_cause acts he' with
      | compiling a job text pc =>
          have hahead : Ahead log a.jobId (.compile job text) := by simpa only [pc] using hin rfl
          exact hahead.2 ⟨k, report, he⟩

/-- A thread that does not move while a body of the job does. -/
theorem other_inStep {b : Body} {j : ℕ} {t₁ : Thread} (h : Inv jobId (w, log))
    (at_ : w.threads[i]? = some (.body b)) (hjob : b.jobId = jobId)
    (acts : Acts cfg w i act (.body b) now t' op spawned) (hji : j ≠ i)
    (hold : w.threads[j]? = some t₁) :
    InStep jobId (w.advance now i t' op spawned, log ++ moveEvents w i t' op spawned) j t₁ := by
  obtain ⟨-, pc, rfl, hmove⟩ := acts_body acts
  have hruns : bodyRuns b.pc = true := body_runs hmove
  cases t₁ with
  | attempt a =>
      intro hid
      have hbeside := h.solo.pair j i a b hold at_ hid hjob hruns
      have hin := h.inStep j _ hold hid
      cases hpc : a.pc with
      | racing work k =>
          rw [hpc] at hbeside
          obtain rfl : k = i := hbeside
          simp only [hpc] at hin ⊢
          refine ⟨hin.1, fun result hdone => ?_⟩
          obtain ⟨b', hb', hpc'⟩ := bodyResult_eq_some.mp hdone
          rw [show (w.advance now k _ op spawned).threads[k]? = _ from
            getElem?_advance_same at_] at hb'
          cases hb'
          dsimp only at hpc'
          subst hpc'
          obtain ⟨b₁, hb₁, -, -, hserves⟩ :=
            h.complete.races a work k (List.mem_of_getElem? hold) hpc
          rw [at_] at hb₁
          cases hb₁
          exact body_behind acts hmove hjob hserves (h.inStep k _ at_) h.stored
      | addFailed work e => trivial
      | marking e mark => trivial
      | settled e => trivial
      | acked => trivial
      | _ =>
          rw [hpc] at hbeside
          exact hbeside.elim
  | body b₁ =>
      intro hid
      by_cases hr : bodyRuns b₁.pc = true
      · exact (hji (h.solo.bodies j i b₁ b hold at_ hid hjob hr hruns)).elim
      · cases hpc : b₁.pc with
        | done r => trivial
        | _ => exact (hr (by rw [hpc]; rfl)).elim
  | _ => trivial

theorem inStep_thread (h : Inv jobId (w, log)) (hg : Resumes jobId (w, log) act)
    (at_ : w.threads[i]? = some t) (acts : Acts cfg w i act t now t' op spawned) :
    ∀ j t₁, (w.advance now i t' op spawned).threads[j]? = some t₁ →
      InStep jobId (w.advance now i t' op spawned, log ++ moveEvents w i t' op spawned) j t₁ := by
  intro j t₁ ht₁
  rcases getElem?_advance_cases ht₁ with ⟨rfl, rfl⟩ | ⟨hji, hold⟩ | ⟨hle, hnew⟩
  · cases t₁ with
    | attempt a' =>
        obtain ⟨a, pc, rfl, rfl, hmove⟩ := acts_to_attempt acts
        exact attempt_inStep h.stored hg at_ acts hmove (h.inStep j _ at_)
    | body b' =>
        obtain ⟨-, b, pc, rfl, rfl, hmove⟩ := acts_to_body acts
        exact body_inStep acts hmove (h.inStep j _ at_)
    | _ => trivial
  · by_cases hbody : ∃ b, t = .body b ∧ b.jobId = jobId
    · obtain ⟨b, rfl, hjob⟩ := hbody
      exact other_inStep h at_ hjob acts hji hold
    · have hnot : ∀ b, t = .body b → b.jobId ≠ jobId := fun b ht hjob => hbody ⟨b, ht, hjob⟩
      refine (h.inStep j t₁ hold).quiet (quiet_thread acts hnot) ?_
      -- the body that an attempt of the job races is one of the job, so it does not move
      rintro a work k result rfl hjob hpc hdone
      obtain ⟨b, hb, hbjob, -⟩ := h.complete.races a work k (List.mem_of_getElem? hold) hpc
      have hki : k ≠ i := by
        rintro rfl
        rw [at_] at hb
        cases hb
        exact hnot b rfl (hbjob.trans hjob)
      obtain ⟨b', hb', hpc'⟩ := bodyResult_eq_some.mp hdone
      rw [show (w.advance now i t' op spawned).threads[k]? = _ from
        getElem?_advance_other hki hb] at hb'
      cases hb'
      exact bodyResult_eq_some.mpr ⟨b, hb, hpc'⟩
  · have hsp := spawned_inStep acts (h.inStep i t at_) hnew
    rwa [Nat.add_sub_cancel' hle] at hsp

end Thread

theorem inv_step {act : Action} (h : Inv jobId (w, log)) (hg : Resumes jobId (w, log) act)
    (hs : logged cfg (w, log) act = some (w', log')) : Inv jobId (w', log') := by
  have hstep := (logged_step hs).1
  have hcomplete := ReadyComplete.inv_step h.complete hg.1.1 hstep
  have hseq : sequential jobId w act = true := by
    have hset := hg.1.2
    cases act with
    | pick id => exact hset
    | _ => rfl
  have hsolo := solo_step h.solo hseq hstep
  cases logged_shape hs with
  | thread i now t t' op spawned at_ acts =>
      exact ⟨hcomplete, hsolo, inStep_thread h hg at_ acts, stored_thread h hg at_ acts,
        order_thread h at_ acts⟩
  | outside op new acts =>
      have hjobs : (w.stores.run 0 op).jobs = w.stores.jobs := outside_jobs acts 0
      have hfind : (w.stores.run 0 op).findById jobId = w.stores.findById jobId := by
        simp only [Stores.findById, hjobs]
      have hq : Quiet jobId log log := ⟨fun _ he => he, fun _ ht => ht, fun _ _ hr => hr⟩
      refine ⟨hcomplete, hsolo, ?_, ?_, h.order⟩
      · intro j t ht
        by_cases hj : j < w.threads.length
        · have hold : w.threads[j]? = some t := by rwa [List.getElem?_append_left hj] at ht
          refine (h.inStep j t hold).quiet hq ?_
          rintro a work k result rfl - hpc hdone
          obtain ⟨b, hb, -⟩ := h.complete.races a work k (List.mem_of_getElem? hold) hpc
          obtain ⟨b', hb', hpc'⟩ := bodyResult_eq_some.mp hdone
          rw [List.getElem?_append_left (lt_of_getElem? hb), hb] at hb'
          cases hb'
          exact bodyResult_eq_some.mpr ⟨b, hb, hpc'⟩
        · rw [List.getElem?_append_right (by omega)] at ht
          obtain ⟨hbody, hattempt⟩ := outside_new acts (List.mem_of_getElem? ht)
          cases t with
          | attempt a =>
              intro hjob
              rw [hattempt a rfl]
              trivial
          | body b => exact (hbody b rfl).elim
          | _ => trivial
      · have hst := h.stored
        refine ⟨?_, ?_, hst.once, ?_, ?_, ?_⟩
        · intro text ht
          obtain ⟨hfull, row, hrow, hrest⟩ := hst.text text ht
          exact ⟨hfull, row, hfind.trans hrow, hrest⟩
        · intro k report hr
          obtain ⟨⟨row, hrow, hreport⟩, hrest⟩ := hst.report k report hr
          exact ⟨⟨row, hfind.trans hrow, hreport⟩, hrest⟩
        · exact fun hno row hrow => hst.blank hno row (hfind.symm.trans hrow)
        · exact fun hno row hrow => hst.empty hno row (hfind.symm.trans hrow)
        · intro hid userId object hobject
          refine hst.pdf hid userId object ?_
          rcases Stores.run_bucket_some hobject with hold | hop
          · exact hold
          · cases acts with
            | uploaded u id bytes =>
                simp only [Op.putObject.injEq] at hop
                exact (audioKey_ne_pdfKey _ _ _ _ hop.1).elim
            | _ => cases hop

theorem inv_start : Inv jobId start := by
  refine ⟨ReadyComplete.inv_empty, solo_empty, ?_, ⟨?_, ?_, ?_, ?_, ?_, ?_⟩, List.Pairwise.nil⟩
  · intro i t ht
    cases ht
  · intro text ht
    cases ht
  · intro k report hr
    cases hr
  · intro i k report report' hr
    cases hr
  · intro _ row hrow
    cases hrow
  · intro _ row hrow
    cases hrow
  · intro _ userId object hobject
    cases hobject

/-- No provider is called for a stage after its commit, and a live READY job has the committed
transcript, the committed report, compiled from it, and a PDF of that report. -/
theorem stages_resume (cfg : ServerConfig) {s : World × List Event} {jobId : String}
    (hrun : Run (logged cfg) (Resumes jobId) start s) :
    s.2.Pairwise (NoRepeat jobId) ∧
    ∀ row, s.1.stores.findById jobId = some row → row.deletedAt = none → row.status = .READY →
      ∃ i text view, Event.transcribed jobId text ∈ s.2 ∧ Event.compiling i jobId text ∈ s.2 ∧
        Event.compiled i jobId row.existingReport ∈ s.2 ∧ row.transcript = some text ∧
        s.1.stores.bucket (pdfKey row.userId jobId) = some (.pdf view) ∧
        view.sections = (toReportView jobId row.label 0 row.existingReport).sections ∧
        (∀ text', Event.transcribed jobId text' ∈ s.2 → text' = text) ∧
        ∀ k report, Event.compiled k jobId report ∈ s.2 → k = i ∧ report = row.existingReport := by
  have hinv : Inv jobId s := hrun.invariant (I := fun s => Inv jobId s) inv_start
    fun _ _ _ hi hg hs => inv_step hi hg hs
  refine ⟨hinv.order, ?_⟩
  intro row hrow hlive hready
  have hst := hinv.stored
  have hid := hinv.complete.kept.ids jobId row hrow
  obtain ⟨object, hobject⟩ :=
    Option.ne_none_iff_exists'.mp (hinv.complete.stored jobId row hrow hlive (.inl hready))
  obtain ⟨view, rfl, report, ⟨i, hcommit⟩, hview⟩ := hst.pdf hid row.userId object hobject
  have hrow_report : ∀ k report', Event.compiled k jobId report' ∈ s.2 →
      report' = row.existingReport := by
    intro k report' hr
    obtain ⟨⟨row', hrow', hreport⟩, -⟩ := hst.report k report' hr
    rw [hrow] at hrow'
    cases hrow'
    exact hreport.symm
  have hrow_text : ∀ text', Event.transcribed jobId text' ∈ s.2 → row.transcript = some text' := by
    intro text' ht
    obtain ⟨-, row', hrow', htext⟩ := hst.text text' ht
    rw [hrow] at hrow'
    cases hrow'
    exact htext
  obtain ⟨-, text, hcall, htext⟩ := hst.report i report hcommit
  obtain rfl := hrow_report i report hcommit
  refine ⟨i, text, view, htext, hcall, hcommit, hrow_text text htext, hobject, hview, ?_, ?_⟩
  · intro text' ht
    have heq := (hrow_text text' ht).symm.trans (hrow_text text htext)
    exact Option.some.inj heq
  · intro k report hr
    exact ⟨hst.once k i report _ hr hcommit, hrow_report k report hr⟩

/-- A storage failure, which is retried. -/
def transient : Err := ⟨"Connection reset by peer.", false, false⟩

/-- The first attempt on `job-1` fails in its render body, and the second one ends it. -/
def retrySchedule : List Action :=
  submitSchedule ++ checkSchedule 1 ++ enqueueSchedule 1 ++ compileSchedule 2 ++ steps 2 2 {} ++
    [.throw 5 {} transient false] ++ steps 2 2 {} ++ [.ack 2, .promote "job-1", .pick "job-1"] ++
    steps 6 3 {} ++ steps 7 3 {}

theorem stages_resume_demo :
    ∃ s row, Run (logged demo) (Resumes "job-1") start s ∧
      s.1.stores.findById "job-1" = some row ∧ row.status = .READY ∧
      s.2.Pairwise (NoRepeat "job-1") ∧
      ∃ i, ∀ k report, Event.compiled k "job-1" report ∈ s.2 →
        k = i ∧ report = row.existingReport := by
  have hend : (execWhere (logged demo) (Resumes "job-1") retrySchedule start).any (fun s =>
      (s.1.stores.findById "job-1").any fun row =>
        decide (row.deletedAt = none ∧ row.status = .READY)) = true := by decide
  obtain ⟨s, hrun, hp⟩ := execWhere_any hend
  obtain ⟨row, hrow, hp⟩ := (Option.any_eq_true _ _).mp hp
  obtain ⟨hlive, hready⟩ := of_decide_eq_true hp
  obtain ⟨horder, hderive⟩ := stages_resume demo hrun
  obtain ⟨i, text, view, -, -, -, -, -, -, -, honce⟩ := hderive row hrow hlive hready
  exact ⟨s, row, hrun, hrow, hready, horder, i, honce⟩

/-- The compiler finds nothing, its report is committed, and the attempt fails afterwards. -/
def emptySchedule : List Action :=
  submitSchedule ++ checkSchedule 1 ++ enqueueSchedule 1 ++ [.pick "job-1"] ++ steps 2 3 {} ++
    steps 3 3 { text := "transcript" } ++ steps 2 4 {} ++ steps 4 2 {} ++ steps 2 2 {} ++
    [.throw 2 {} transient false, .ack 2, .promote "job-1", .pick "job-1"] ++ steps 5 3 {}

/-- A committed report with no sections is compiled again. -/
theorem empty_report_recompiled :
    ∃ s, Run (logged demo) (Setting "job-1") start s ∧
      s.2 = [.transcribing "job-1", .transcribed "job-1" "transcript",
        .compiling 4 "job-1" "transcript", .compiled 4 "job-1" [],
        .compiling 6 "job-1" "transcript"] ∧
      ¬ s.2.Pairwise (NoRepeat "job-1") := by
  have hend : (execWhere (logged demo) (Setting "job-1") emptySchedule start).any (fun s =>
      decide (s.2 = [.transcribing "job-1", .transcribed "job-1" "transcript",
        .compiling 4 "job-1" "transcript", .compiled 4 "job-1" [],
        .compiling 6 "job-1" "transcript"])) = true := by decide
  obtain ⟨s, hrun, hp⟩ := execWhere_any hend
  have hlog := of_decide_eq_true hp
  refine ⟨s, hrun, hlog, ?_⟩
  rw [hlog]
  simp [NoRepeat]

end FieldNote.StageResume
