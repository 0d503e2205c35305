import FieldNote.EditValidation
import FieldNote.OpenReplacements
import FieldNote.ReportNormalisation
import FieldNote.StageMoves
import FieldNote.WireFormat

/-!
# What the API serves, it takes back

The compiler's schema and the DTOs of the API limit titles, texts and counts alike, the one in
code units and the others in characters. So a stored report is within the limits of a PATCH,
whether it was compiled or edited, as long as no two replacements have merged, and a device that
pushes a job as it was served is rejected for the size of the body at most, and changes nothing.
Transcripts are never blank, and failure messages are cut.
-/
namespace FieldNote.ServedReports
open JobsService PipelineService ServerRuns GuardedRuns JobStore EditValidation WireFormat
open OpenReplacements
open ReportCompiler (CompiledReport safeParse)
open JobSyncService (updateRequest)

/-- What holds of a job, as a row and as a response. -/
structure Sound (label : String) (transcript errorMessage : Option String)
    (report : List ReportSectionInput) : Prop where
  label : lengthIn 1 200 label = true
  transcript : ∀ text, transcript = some text → text ≠ "" ∧ JsText.trim text = text
  errorMessage : ∀ message, errorMessage = some message → JsText.length message ≤ 1000
  report : validReport report = true

def SoundRow (job : Job) : Prop :=
  Sound job.label job.transcript job.errorMessage job.existingReport

def SoundDto (dto : JobDto) : Prop :=
  Sound dto.label dto.transcript dto.errorMessage (reading dto.sections)

theorem soundDto_jobToDto {job : Job} (h : SoundRow job) (pdfUrl : Option String) :
    SoundDto (jobToDto job pdfUrl) := by
  have hreading : reading (jobToDto job pdfUrl).sections = job.existingReport := by
    simp [reading, jobToDto, Job.existingReport, reportOf]
  rw [SoundDto, hreading]
  exact h

/-! ## Reports within the limits -/

theorem validSection_iff {s : ReportSectionInput} : validSection s = true ↔
    (1 ≤ JsText.charCount s.title ∧ JsText.charCount s.title ≤ 200) ∧ s.findings.length ≤ 200 ∧
      ∀ f ∈ s.findings, 1 ≤ JsText.charCount f.text ∧ JsText.charCount f.text ≤ 2000 := by
  simp [validSection, and_assoc]

theorem validReport_iff {report : List ReportSectionInput} : validReport report = true ↔
    report.length ≤ 100 ∧ ∀ s ∈ report, validSection s = true := by
  simp [validReport]

/-- A text that the compiler's schema bounds is one that the DTOs accept. -/
theorem boundedText_fits {n : ℕ} (text : JsonSchema.BoundedText n) :
    1 ≤ JsText.charCount text.value ∧ JsText.charCount text.value ≤ n := by
  refine ⟨JsText.one_le_charCount.mpr ?_, (JsText.charCount_le_length _).trans text.bounded⟩
  intro hempty
  apply ReportCompiler.trim_ne_empty text
  rw [text.trimmed, hempty]

/-- A compiled report is within the limits of the DTOs. -/
theorem validReport_normalize (report : CompiledReport) :
    validReport (ReportCompiler.normalize report.sections.items) = true := by
  rw [ReportCompiler.normalize_eq, validReport_iff]
  constructor
  · rw [List.length_map]
    exact (List.length_filter_le _ _).trans report.sections.bounded
  · intro s hs
    obtain ⟨section_, -, rfl⟩ := List.mem_map.mp hs
    have hperm := ReportCompiler.normalizeFindings_perm section_.findings.items
    rw [validSection_iff]
    refine ⟨boundedText_fits section_.title, ?_, ?_⟩
    · rw [hperm.length_eq, List.length_map]
      exact section_.findings.bounded
    · intro f hf
      obtain ⟨finding, -, rfl⟩ := List.mem_map.mp (hperm.mem_iff.mp hf)
      exact boundedText_fits finding.text

/-- The sections of a body that has passed the checks. -/
theorem validReport_input {sections : List UpdateSectionDto} (hlength : sections.length ≤ 100)
    (hsections : ∀ s ∈ sections, s.valid = true) :
    validReport (toReportInput sections) = true := by
  rw [validReport_iff, toReportInput]
  constructor
  · rw [List.length_map, List.length_insertionSort]
    exact hlength
  · intro s hs
    obtain ⟨dto, hdto, rfl⟩ := List.mem_map.mp hs
    have hvalid := hsections dto ((List.perm_insertionSort _ sections).mem_iff.mp hdto)
    simp only [UpdateSectionDto.valid, Bool.and_eq_true, decide_eq_true_eq, List.all_eq_true,
      UpdateFindingDto.valid] at hvalid
    obtain ⟨⟨htitle, hcount⟩, hfindings⟩ := hvalid
    rw [validSection_iff]
    refine ⟨htitle, ?_, ?_⟩
    · rw [List.length_map, List.length_insertionSort]
      exact hcount
    · intro f hf
      obtain ⟨finding, hfinding, rfl⟩ := List.mem_map.mp hf
      exact hfindings finding ((List.perm_insertionSort _ dto.findings).mem_iff.mp hfinding)

/-- What a PATCH that has passed the checks stores. -/
theorem valid_iff {dto : UpdateJobDto} (h : dto.valid = true) :
    (∀ label, dto.label = .value label → lengthIn 1 200 label = true) ∧
      ∀ sections, dto.sections = .value sections → validReport (toReportInput sections) = true := by
  simp only [UpdateJobDto.valid, Bool.and_eq_true] at h
  obtain ⟨hlabel, hsections⟩ := h
  constructor
  · intro label heq
    rw [heq] at hlabel
    exact hlabel
  · intro sections heq
    simp only [heq, Field.passes, Bool.and_eq_true, decide_eq_true_eq, List.all_eq_true]
      at hsections
    exact validReport_input hsections.1 hsections.2

/-! ## What is stored -/

def Rows (s : Stores) : Prop := ∀ jobId row, s.findById jobId = some row → SoundRow row

/-- What a statement stores is sound. -/
def SoundWrite : Write → Prop
  | .setStatus _ (some (some message)) => JsText.length message ≤ 1000
  | .saveTranscript text => text ≠ "" ∧ JsText.trim text = text
  | .replaceReport rows => validReport (reportOf rows) = true
  | .updateLabelScoped _ label => lengthIn 1 200 label = true
  | .replaceReportScoped _ label rows =>
      (∀ text, label = some text → lengthIn 1 200 text = true) ∧ validReport (reportOf rows) = true
  | _ => True

def SoundOp : Op → Prop
  | .insertJob job => SoundRow job
  | .write _ wr => SoundWrite wr
  | _ => True

theorem soundRow_apply {job : Job} {wr : Write} (now : ℕ) (h : SoundRow job)
    (hwr : SoundWrite wr) : SoundRow (wr.apply now job) := by
  cases wr with
  | setStatus status message =>
      refine ⟨h.label, h.transcript, ?_, h.report⟩
      intro text htext
      cases message with
      | none => exact h.errorMessage text htext
      | some message =>
          cases message with
          | none => cases htext
          | some message =>
              cases htext
              exact hwr
  | saveTranscript text =>
      refine ⟨h.label, ?_, h.errorMessage, h.report⟩
      rintro _ ⟨⟩
      exact hwr
  | replaceReport rows => exact ⟨h.label, h.transcript, h.errorMessage, hwr⟩
  | setPdfReady pdfKey =>
      refine ⟨h.label, h.transcript, ?_, h.report⟩
      rintro _ ⟨⟩
  | updateLabelScoped userId label =>
      simp only [Write.apply]
      split_ifs
      · exact ⟨hwr, h.transcript, h.errorMessage, h.report⟩
      · exact h
  | replaceReportScoped userId label rows =>
      simp only [Write.apply]
      split_ifs
      · refine ⟨?_, h.transcript, h.errorMessage, hwr.2⟩
        cases label with
        | none => exact h.label
        | some text => exact hwr.1 text rfl
      · exact h
  | softDeleteScoped userId =>
      simp only [Write.apply]
      split_ifs
      · exact ⟨h.label, h.transcript, h.errorMessage, h.report⟩
      · exact h

theorem rows_run {s : Stores} {op : Op} (now : ℕ) (h : Rows s) (hop : SoundOp op) :
    Rows (s.run now op) := by
  intro jobId row hrow
  rcases Stores.run_row_before hrow with hbefore | ⟨wr, job, rfl, hbefore, rfl⟩ | ⟨rfl, -, -⟩
  · exact h jobId row hbefore
  · exact soundRow_apply now (h jobId job hbefore) hop
  · exact hop

/-! ## What the calls and the stages hold -/

def SoundProcess : ProcessPc → Prop
  | .findScoped | .threw _ => True
  | .returned dto => SoundDto dto
  | .objectExists job | .setStatus job | .getJob job | .getState job | .remove job | .add job
  | .findAgain job => SoundRow job

def SoundMark : MarkPc → Prop
  | .setStatus message => JsText.length message ≤ 1000
  | .rawById | .addEvent _ => True

def SoundBody : BodyPc → Prop
  | .saveTranscript text => text ≠ "" ∧ JsText.trim text = text
  | .replaceReport sections => validReport sections = true
  | _ => True

def SoundThread : Thread → Prop
  | .create c => lengthIn 1 200 c.label = true ∧
      ∀ response, c.pc = .returned response → SoundDto response.job
  | .process c => SoundProcess c.pc
  | .update c => c.dto.valid = true ∧ ∀ dto, c.pc = .returned dto → SoundDto dto
  | .remove _ => True
  | .attempt a => ∀ e mark, a.pc = .marking e mark → SoundMark mark
  | .body b => SoundBody b.pc
  | .handler h => ∀ mark, h.pc = .marking mark → SoundMark mark

/-- What the compiler service returns for an answer that its schema accepts. -/
def Compiled (sections : List ReportSectionInput) : Prop :=
  ∃ value report, safeParse value = .ok report ∧ sections = ReportCompiler.normalize report.sections.items

/-- Requests have passed the validation, and the compile stage gets what the service returns. -/
def Checked (w : World) : Action → Prop
  | .call (.create _ label _) => lengthIn 1 200 label = true
  | .call (.update _ _ dto) => dto.valid = true
  | .step i env => ∀ b label transcript, w.threads[i]? = some (.body b) →
      b.pc = .compile label transcript → Compiled env.sections
  | _ => True

variable {cfg : ServerConfig} {w w' : World} {env : Env} {op : Op}

theorem updateWrite_sound {s : Stores} {c : UpdateCall} {wr : Write} (hvalid : c.dto.valid = true)
    (h : updateWrite s env c = .ok (some wr)) : SoundWrite wr := by
  obtain ⟨hlabel, hsections⟩ := valid_iff hvalid
  rcases updateWrite_eq h with ⟨label, hvalue, -, rfl⟩ | ⟨label, sections, hbody, hwritten, -, rfl⟩
  · exact hlabel label hvalue
  · constructor
    · intro text htext
      subst htext
      generalize hfield : c.dto.label = field at hwritten
      cases hwritten with
      | present label stored => exact hlabel text hfield
    · rw [reportOf_insertSections]
      generalize hfield : c.dto.sections = field at hbody
      cases hbody with
      | null => rfl
      | present sections => exact hsections sections hfield

/-- A sound thread issues sound statements. -/
theorem issues_sound {t : Thread} (h : SoundThread t) (hissues : Issues w env t op) :
    SoundOp op := by
  cases hissues with
  | aside t op haside => cases op <;> trivial
  | create c =>
      refine ⟨h.1, ?_, ?_, rfl⟩
      · rintro _ ⟨⟩
      · rintro _ ⟨⟩
  | update c wr pc write => exact updateWrite_sound h.1 write
  | failed a e m pc => exact h e _ pc
  | transcript b text pc =>
      rw [SoundThread, pc] at h
      exact h
  | report b sections pc =>
      rw [SoundThread, pc] at h
      rw [SoundOp, SoundWrite, reportOf_insertSections]
      exact h
  | handled hd m pc => exact h _ pc
  | _ => trivial

theorem findOne_sound {s : Stores} {userId jobId : String} {dto : JobDto} (hrows : Rows s)
    (h : findOne cfg s userId jobId = .ok dto) : SoundDto dto := by
  unfold findOne at h
  split at h
  · cases h
  · rename_i job hjob
    cases h
    exact soundDto_jobToDto (hrows _ _ (Stores.findScoped_eq_some.mp hjob).1) _

theorem nextCreate_sound {c : CreateCall} {pc : CreatePc} (hrows : Rows w.stores)
    (hlabel : lengthIn 1 200 c.label = true) (hn : nextCreate cfg w.stores env c = some (pc, op)) :
    ∀ response, pc = .returned response → SoundDto response.job := by
  rintro response rfl
  unfold nextCreate at hn
  split at hn
  · split at hn
    · rename_i existing hfound
      cases hn
      have hmem := List.mem_of_find?_eq_some hfound
      exact soundDto_jobToDto (hrows _ _ (Table.findUnique_of_mem hmem)) none
    · cases hn
  · split_ifs at hn with htaken
    · cases hn
    · cases hn
      exact soundDto_jobToDto (issues_sound (w := w) (t := .create { c with pc := .createDraft })
        ⟨hlabel, by simp⟩ (.create { c with pc := .createDraft })) none
  · cases hn
  · cases hn

theorem nextProcess_sound {c : ProcessCall} {pc : ProcessPc} (hrows : Rows w.stores)
    (h : SoundProcess c.pc) (hn : nextProcess cfg w.stores c = some (pc, op)) :
    SoundProcess pc := by
  have hfound {job : Job} (hjob : w.stores.findScoped c.userId c.jobId = some job) :
      SoundRow job := hrows _ _ (Stores.findScoped_eq_some.mp hjob).1
  cases hpc : c.pc with
  | findScoped =>
      simp only [nextProcess, hpc] at hn
      split at hn
      · cases hn
        trivial
      · rename_i job hjob
        split_ifs at hn <;> cases hn
        · exact soundDto_jobToDto (hfound hjob) _
        · exact soundDto_jobToDto (hfound hjob) _
        · exact hfound hjob
  | findAgain job =>
      rw [hpc] at h
      simp only [nextProcess, hpc, Option.some.injEq, Prod.mk.injEq] at hn
      obtain ⟨rfl, -⟩ := hn
      apply soundDto_jobToDto
      cases hjob : w.stores.findScoped c.userId c.jobId with
      | none => exact h
      | some row => exact hfound hjob
  | returned dto => simp [nextProcess, hpc] at hn
  | threw e => simp [nextProcess, hpc] at hn
  | setStatus job =>
      rw [hpc] at h
      simp only [nextProcess, hpc, Option.some.injEq, Prod.mk.injEq] at hn
      obtain ⟨rfl, -⟩ := hn
      exact h
  | objectExists job =>
      rw [hpc] at h
      simp only [nextProcess, hpc] at hn
      split_ifs at hn <;> cases hn
      · exact h
      · trivial
  | _ job =>
      rw [hpc] at h
      simp only [nextProcess, hpc] at hn
      split at hn <;> cases hn <;> first | exact h | trivial

theorem nextUpdate_sound {c : UpdateCall} {pc : UpdatePc} (hrows : Rows w.stores)
    (hn : nextUpdate cfg w.stores env c = some (pc, op)) :
    ∀ dto, pc = .returned dto → SoundDto dto := by
  rintro dto rfl
  unfold nextUpdate at hn
  split at hn
  · split at hn <;> cases hn
  · split at hn <;> cases hn
  · split at hn
    · cases hn
    · rename_i dto' hread
      cases hn
      exact findOne_sound hrows hread
  · cases hn
  · cases hn

/-- `markFailed` cuts the message before it stores it. -/
theorem nextMark_sound {s : Stores} {jobId message : String} {mark mark' : MarkPc}
    (h : nextMark s jobId message mark = (some mark', op)) : SoundMark mark' := by
  cases mark with
  | rawById =>
      obtain ⟨-, heq | ⟨heq, -⟩⟩ := nextMark_rawById h
      · cases heq
        exact JsText.length_slice_le 1000 message
      · cases heq
  | setStatus m =>
      cases h
      trivial
  | addEvent m => cases h

theorem afterThrow_sound (e : Err) : ∀ e' mark, afterThrow e = .marking e' mark →
    SoundMark mark := by
  intro e' mark h
  unfold afterThrow at h
  split_ifs at h
  cases h
  trivial

theorem afterStage_ne_marking (work : Work) (result : StageResult) (e : Err) (mark : MarkPc) :
    afterStage work result ≠ .marking e mark := by
  intro h
  cases work with
  | transcribe job =>
      simp only [afterStage, compileStage] at h
      split_ifs at h
  | compile job transcript => cases h
  | render label sections => cases h

theorem attempt_sound {a : Attempt} {now : ℕ} {pc : AttemptPc} {spawned : List Thread}
    (h : AttemptMove cfg w a now pc op spawned) : ∀ e mark, pc = .marking e mark →
      SoundMark mark := by
  intro e' mark' heq
  cases h with
  | completed work result pc => exact (afterStage_ne_marking work result _ _ heq).elim
  | thrown work e op pc => exact afterThrow_sound e e' mark' heq
  | marking e mark mark'' op pc next =>
      cases heq
      exact nextMark_sound next
  | marked e mark op pc next => cases heq
  | _ => cases heq

theorem nextHandler_sound {h : Handler} {pc : HandlerPc}
    (hn : nextHandler w.stores h = some (pc, op)) : ∀ mark, pc = .marking mark →
      SoundMark mark := by
  rintro mark rfl
  unfold nextHandler at hn
  split at hn
  · split at hn
    · cases hn
    · rename_i mark' op' hmark
      cases hn
      exact nextMark_sound hmark
  · cases hn
  · cases hn

theorem nextBody_sound {b : Body} {pc : BodyPc}
    (hcompiled : ∀ label transcript, b.pc = .compile label transcript → Compiled env.sections)
    (hn : nextBody w.stores env b = some (pc, op)) : SoundBody pc := by
  unfold nextBody at hn
  split at hn
  · split_ifs at hn <;> cases hn <;> trivial
  · split_ifs at hn with hblank <;> cases hn
    · trivial
    · exact ⟨hblank, JsText.trim_trim env.text⟩
  · cases hn
    trivial
  · rename_i label transcript hpc
    cases hn
    obtain ⟨value, report, -, hsections⟩ := hcompiled label transcript hpc
    rw [SoundBody, hsections]
    exact validReport_normalize report
  · cases hn
    trivial
  · cases hn
    trivial
  · cases hn
    trivial
  · cases hn
    trivial
  · cases hn

theorem throwing_sound {t t' : Thread} {e : Err} (h : SoundThread t)
    (hthrow : throwing e t = some t') : SoundThread t' := by
  cases t with
  | create c =>
      obtain ⟨pc, hpc, rfl⟩ := Option.map_eq_some_iff.mp hthrow
      refine ⟨h.1, ?_⟩
      rintro response rfl
      unfold CreateCall.throwing at hpc
      split at hpc <;> cases hpc
  | process c =>
      cases throwing_cases hthrow with
      | process c => trivial
  | update c =>
      cases throwing_cases hthrow with
      | update c => exact ⟨h.1, by simp⟩
  | remove c =>
      cases throwing_cases hthrow with
      | remove c pc ended => trivial
  | attempt a =>
      cases throwing_cases hthrow with
      | failing a work result pc => simp [SoundThread]
      | settling a open_ => simp [SoundThread]
      | leaving a => exact afterThrow_sound e
  | body b =>
      cases throwing_cases hthrow with
      | body b open_ => trivial
  | handler hd =>
      cases throwing_cases hthrow with
      | handler hd => simp [SoundThread]

theorem acts_sound {i now : ℕ} {act : Action} {t t' : Thread} {spawned : List Thread}
    (hrows : Rows w.stores) (hg : Checked w act) (hi : w.threads[i]? = some t)
    (h : SoundThread t) (acts : Acts cfg w i act t now t' op spawned) : SoundThread t' := by
  cases acts with
  | stepped env t t' op spawned next =>
      cases next_segment next with
      | create c pc op hn => exact ⟨h.1, nextCreate_sound hrows h.1 hn⟩
      | process c pc op hn => exact nextProcess_sound hrows h hn
      | update c pc op hn => exact ⟨h.1, nextUpdate_sound hrows hn⟩
      | remove c pc op hn => trivial
      | attempt a pc op hn =>
          have hmove : AttemptMove cfg w a 0 pc op _ := nextAttempt_move hn
          exact attempt_sound hmove
      | body b pc op hn =>
          exact nextBody_sound (fun label transcript => hg b label transcript hi) hn
      | handler hd pc op hn => exact nextHandler_sound hn
  | threw env e t t' throws => exact throwing_sound h throws
  | lost env e t t' t₁ op spawned throws next => exact throwing_sound h throws
  | timedOut t t' out =>
      obtain ⟨a, work, body, rfl, -, rfl⟩ := timingOut_eq out
      simp [SoundThread]
  | acked a e entry pc queued => simp [SoundThread]

theorem spawned_sound {i now : ℕ} {act : Action} {t t' t₁ : Thread} {spawned : List Thread}
    (acts : Acts cfg w i act t now t' op spawned) (ht₁ : t₁ ∈ spawned) : SoundThread t₁ := by
  rcases acts_spawned acts ht₁ with ⟨a, work, -, -, rfl⟩ | ⟨a, err, entry, -, -, -, rfl⟩
  · cases work <;> trivial
  · rintro mark ⟨⟩
    trivial

theorem outside_sound {act : Action} {new : List Thread} (hg : Checked w act)
    (h : Outside w act op new) : SoundOp op ∧ ∀ t ∈ new, SoundThread t := by
  cases h with
  | called request =>
      refine ⟨trivial, ?_⟩
      simp only [List.mem_singleton, forall_eq]
      cases request with
      | create userId label key =>
          refine ⟨hg, ?_⟩
          intro response hpc
          unfold JobsService.create at hpc
          dsimp only at hpc
          split at hpc
          · cases hpc
          · split_ifs at hpc
      | process userId jobId => trivial
      | update userId jobId dto => exact ⟨hg, by simp⟩
      | remove userId jobId => trivial
  | picked id entry queued waiting => exact ⟨trivial, by simp [SoundThread]⟩
  | _ => exact ⟨trivial, by simp⟩

/-- Everything that is stored or under way is sound. -/
structure Inv (w : World) : Prop where
  rows : Rows w.stores
  threads : ∀ t ∈ w.threads, SoundThread t

theorem inv_empty : Inv World.empty where
  rows := by
    intro jobId row hrow
    simp [World.empty, Stores.empty, Stores.findById] at hrow
  threads := by simp [World.empty]

theorem inv_step {act : Action} (h : Inv w) (hg : Checked w act)
    (hs : step cfg w act = some w') : Inv w' := by
  cases step_shape hs with
  | thread i now t t' op spawned at_ acts =>
      have ht := h.threads t (List.mem_of_getElem? at_)
      obtain ⟨env, hissues⟩ := acts.issues
      refine ⟨rows_run now h.rows (issues_sound ht hissues), ?_⟩
      intro t₁ ht₁
      rcases mem_advance ht₁ with hold | rfl | hnew
      · exact h.threads t₁ hold
      · exact acts_sound h.rows hg at_ ht acts
      · exact spawned_sound acts hnew
  | outside op new acts =>
      obtain ⟨hop, hnew⟩ := outside_sound hg acts
      refine ⟨rows_run 0 h.rows hop, ?_⟩
      intro t ht
      rcases List.mem_append.mp ht with hold | ht
      · exact h.threads t hold
      · exact hnew t ht

/-! ## What the API serves -/

/-- The API answers with the job: to a GET, on a page, or as the response of a call. -/
inductive Serves (cfg : ServerConfig) (w : World) (dto : JobDto) : Prop where
  | found (userId jobId : String) (read : findOne cfg w.stores userId jobId = .ok dto)
  | listed (userId : String) (cursor : Option String) (limit : ℕ)
      (item : dto ∈ (list w.stores userId cursor limit).items)
  | created (c : CreateCall) (response : CreateJobResponse) (thread : Thread.create c ∈ w.threads)
      (pc : c.pc = .returned response) (job : response.job = dto)
  | processed (c : ProcessCall) (thread : Thread.process c ∈ w.threads) (pc : c.pc = .returned dto)
  | updated (c : UpdateCall) (thread : Thread.update c ∈ w.threads) (pc : c.pc = .returned dto)

theorem served_sound {dto : JobDto} (h : Inv w) (hserves : Serves cfg w dto) : SoundDto dto := by
  cases hserves with
  | found userId jobId read => exact findOne_sound h.rows read
  | listed userId cursor limit item =>
      obtain ⟨row, hrow, rfl⟩ := List.mem_map.mp item
      have hmem := (Stores.mem_listScoped hrow).1
      exact soundDto_jobToDto (h.rows _ _ (Table.findUnique_of_mem hmem)) none
  | created c response thread pc job =>
      subst job
      exact (h.threads _ thread).2 response pc
  | processed c thread pc =>
      have hprocess := h.threads _ thread
      rw [SoundThread, pc] at hprocess
      exact hprocess
  | updated c thread pc => exact (h.threads _ thread).2 dto pc

/-! ## Transactions -/

/-- The guard of the server's own steps, and no transaction commits after another of its job has
committed since it began. -/
def TxChecked (u : TxWorld) : TxAction → Prop
  | .act a => Checked u.server a
  | a => undisturbed u a = true

structure TxInv (u : TxWorld) : Prop where
  server : Inv u.server
  awaiting : Awaiting u
  opened : ∀ o ∈ u.opened, SoundWrite o.write

theorem txInv_empty : TxInv TxWorld.empty := ⟨inv_empty, awaiting_empty, by simp [TxWorld.empty]⟩

variable {u u' : TxWorld} {o : Opened} {t t' : Thread}

/-- A statement sees nothing of the deletion of its row. -/
theorem soundRow_commits {job : Job} (now : ℕ) (merged : List ReportSection) (h : SoundRow job)
    (hwrite : SoundWrite o.write) (hclean : o.disturbed = false) :
    SoundRow (o.commits now merged job) := by
  have hlive : SoundRow { job with deletedAt := none } := h
  have hwritten := soundRow_apply now hlive hwrite
  simp only [Opened.commits, hclean, Bool.false_eq_true, if_false]
  exact hwritten

theorem awaits_sound (h : Awaits t o) (ht : SoundThread t) : SoundThread o.next := by
  cases h with
  | patch c i label rows disturbed pc => exact ⟨ht.1, by simp⟩
  | compile b i sections rows disturbed pc => trivial

/-- A thread that ends its transaction leaves everything sound. -/
theorem inv_set {stores : Stores} {i : ℕ} (h : TxInv u) (hrows : Rows stores)
    (ht' : SoundThread t') : Inv ⟨stores, u.server.threads.set i t'⟩ := by
  refine ⟨hrows, ?_⟩
  intro t₁ ht₁
  rcases List.mem_or_eq_of_mem_set ht₁ with hold | rfl
  · exact h.server.threads t₁ hold
  · exact ht'

theorem txInv_commit {now : ℕ} {merged : List ReportSection} {a : TxAction} (h : TxInv u)
    (ho : o ∈ u.opened) (hclean : o.disturbed = false) (ht' : SoundThread t')
    (hs : txStep cfg u a = some (u.commit o now merged t')) : TxInv (u.commit o now merged t') := by
  refine ⟨inv_set h ?_ ht', awaiting_step h.awaiting hs, ?_⟩
  · intro id row hrow
    have hfind := commit_findById (w := u) (o := o) (t := t') now merged id
    rw [show (u.commit o now merged t').server.stores.findById id = some row from hrow] at hfind
    split_ifs at hfind
    · obtain ⟨job, hjob, rfl⟩ := Option.map_eq_some_iff.mp hfind.symm
      exact soundRow_commits now merged (h.server.rows id job hjob) (h.opened o ho) hclean
    · exact h.server.rows id row hfind.symm
  · intro p hp
    obtain ⟨p₀, hp₀, rfl⟩ := List.mem_map.mp hp
    exact h.opened p₀ (List.mem_filter.mp hp₀).1

theorem txInv_step {a : TxAction} (h : TxInv u) (hg : TxChecked u a)
    (hs : txStep cfg u a = some u') : TxInv u' := by
  have hthread {i : ℕ} {o : Opened} (hopen : u.awaited i = some o) :
      ∃ t, u.server.threads[o.thread]? = some t ∧ Awaits t o ∧ SoundThread t := by
    obtain ⟨t, ht, hawaits⟩ := (h.awaiting o (awaited_mem hopen).1).1
    exact ⟨t, ht, hawaits, h.server.threads t (List.mem_of_getElem? ht)⟩
  have hfailing {i : ℕ} {o : Opened} {e : Err} {t : Thread} (hopen : u.awaited i = some o)
      (hfails : u.failing o e = some t) : SoundThread t := by
    obtain ⟨t₀, ht₀, -, hsound⟩ := hthread hopen
    simp only [TxWorld.failing, ht₀, Option.bind_some] at hfails
    exact throwing_sound hsound hfails
  have heffect := tx_effect hs
  cases heffect with
  | acted a server isReady stepped =>
      exact ⟨inv_step h.server hg stepped, awaiting_step h.awaiting hs, h.opened⟩
  | started i env o free starts =>
      refine ⟨h.server, awaiting_step h.awaiting hs, ?_⟩
      intro p hp
      rcases List.mem_append.mp hp with hold | hnew
      · exact h.opened p hold
      · rw [List.mem_singleton.mp hnew]
        obtain ⟨t, ht, -, -, -, hissues⟩ := starting_awaits starts
        exact issues_sound (h.server.threads t (List.mem_of_getElem? ht)) hissues
  | committed i now merged o open_ =>
      obtain ⟨t, -, hawaits, hsound⟩ := hthread open_
      have hclean : o.disturbed = false := by simpa [TxChecked, undisturbed, open_] using hg
      exact txInv_commit h (awaited_mem open_).1 hclean (awaits_sound hawaits hsound) hs
  | lost i now merged e o t open_ fails =>
      have hclean : o.disturbed = false := by simpa [TxChecked, undisturbed, open_] using hg
      exact txInv_commit h (awaited_mem open_).1 hclean (hfailing open_ fails) hs
  | rolledBack i e o t open_ fails =>
      refine ⟨inv_set h h.server.rows (hfailing open_ fails), awaiting_step h.awaiting hs, ?_⟩
      exact fun p hp => h.opened p (List.mem_filter.mp hp).1

/-- In every run of validated requests in which no two replacements of a report merge, a job that
the API serves has a transcript that is not blank and a message of at most 1000 code units, and a
device that pushes it unedited is rejected for the size of the body at most, and gives the server
the report that it was served. -/
theorem served_resubmitted {dto : JobDto} {job : CachedJob}
    (hw : Run (txStep cfg) TxChecked TxWorld.empty u) (hserves : Serves cfg u.server dto)
    (hjob : job.Mirrors dto) :
    (∀ text, dto.transcript = some text → JsText.trim text ≠ "") ∧
      (∀ message, dto.errorMessage = some message → JsText.length message ≤ 1000) ∧
      (accepted .update (RequestBody.update (updateRequest job)).text =
        if bodyLimit < (RequestBody.update (updateRequest job)).text.utf8ByteSize then
          .error .tooLarge
        else .ok (.update (updateRequest job))) ∧
      toReportInput (pushedSections job) = reading dto.sections := by
  have hinv : TxInv u := hw.invariant txInv_empty fun _ _ _ hi hg hs => txInv_step hi hg hs
  have hsound := served_sound hinv.server hserves
  have hreading : reading job.orderedTree = reading dto.sections := by rw [hjob.tree]
  have hvalid : (updateRequest job).valid = true := by
    rw [valid_updateRequest, hreading, hjob.label, hsound.report, Bool.and_true]
    exact hsound.label
  refine ⟨?_, hsound.errorMessage, ?_, ?_⟩
  · intro text htext
    obtain ⟨hne, htrim⟩ := hsound.transcript text htext
    rwa [htrim]
  · have hread : (Json.parse (RequestBody.update (updateRequest job)).text).bind
        (readRequest .update) = some (.update (updateRequest job)) := by
      rw [RequestBody.text, Json.parse_stringify true (wellFormed_request _), Option.bind_some]
      exact readRequest_json (.update (updateRequest job))
    have hpasses : RequestBody.valid (.update (updateRequest job)) = true := hvalid
    rw [accepted, hread, Option.filter_some, if_pos hpasses]
  · rw [toReportInput_pushed, hreading]

section Demo

theorem compiled_of (value : Json) {sections : List ReportSectionInput}
    (h : (safeParse value).toOption.map
        (fun report : CompiledReport => ReportCompiler.normalize report.sections.items) =
      some sections) : Compiled sections := by
  obtain ⟨report, hreport, hsections⟩ := Option.map_eq_some_iff.mp h
  refine ⟨value, report, ?_, hsections.symm⟩
  cases hparse : safeParse value with
  | error issues =>
      rw [hparse] at hreport
      cases hreport
  | ok report' =>
      rw [hparse] at hreport
      cases hreport
      rfl

/-- The requests are valid, and the compiler answers with one report or with none. -/
def Scripted (_ : World) : Action → Prop
  | .call (.create _ label _) => lengthIn 1 200 label = true
  | .call (.update _ _ dto) => dto.valid = true
  | .step _ env => env.sections = demoReport ∨ env.sections = []
  | _ => True

instance : DecidableRel Scripted := fun _ a => by
  unfold Scripted
  split <;> infer_instance

theorem scripted_checked (w : World) (a : Action) (h : Scripted w a) : Checked w a := by
  have hreport : Compiled demoReport :=
    compiled_of (ReportNormalisation.reportJson [⟨"Roof", [⟨"Leak", "safety"⟩]⟩]) (by decide)
  have hnone : Compiled [] := compiled_of (ReportNormalisation.reportJson []) (by decide)
  cases a with
  | step i env =>
      intro b label transcript _ _
      rcases h with hsections | hsections <;> rw [hsections]
      · exact hreport
      · exact hnone
  | call request => cases request <;> exact h
  | _ => trivial

/-- What a GET answers at the end of the run. -/
def demoDto : JobDto where
  id := "job-1"
  label := "Site A"
  status := .READY
  transcript := some "transcript"
  errorMessage := none
  sections := [⟨"", "Roof", 0, [⟨"", "Leak", .safety, 0⟩]⟩]
  pdfUrl := some "GET pdf/user-1/job-1.pdf"
  createdAt := 0
  updatedAt := 0

theorem demo_ordered : Ordered demoDto.sections :=
  ⟨⟨by decide, by decide⟩, by simp [demoDto], by simp [demoDto]⟩

theorem found_of {s : Stores} {userId jobId : String} {dto : JobDto}
    (h : decide ((findOne demo s userId jobId).toOption = some dto) = true) :
    findOne demo s userId jobId = .ok dto := by
  cases hfound : findOne demo s userId jobId with
  | error e => simp [hfound, Except.toOption] at h
  | ok dto' => simpa [hfound, Except.toOption] using h

theorem served_resubmitted_demo :
    accepted .update (RequestBody.update (updateRequest (.ofDto demoDto))).text =
        .ok (.update (updateRequest (.ofDto demoDto))) ∧
      toReportInput (pushedSections (.ofDto demoDto)) = demoReport := by
  have hend : (execWhere (step demo) Scripted readySchedule World.empty).any (fun w =>
      decide ((findOne demo w.stores "user-1" "job-1").toOption = some demoDto)) = true := by
    decide
  obtain ⟨w, hw, hread⟩ := execWhere_any hend
  have htx (u : TxWorld) (b : TxAction) (hb : ∀ a, b ≠ .act a) (hclean : undisturbed u b = true) :
      TxChecked u b := by
    cases b with
    | act a => exact (hb a rfl).elim
    | _ => exact hclean
  have hall := served_resubmitted (run_lift (fun _ _ => scripted_checked _ _) htx hw)
    (.found "user-1" "job-1" (found_of hread)) (mirrors_ofDto demo_ordered)
  have hsmall : ¬ bodyLimit <
      (RequestBody.update (updateRequest (.ofDto demoDto))).text.utf8ByteSize := by decide +kernel
  rw [if_neg hsmall] at hall
  exact hall.2.2

end Demo

end FieldNote.ServedReports
