import FieldNote.JsonSchema
import FieldNote.ServerRuns

/-!
# The report compiler and its repair attempt

`ReportCompilerService.compile` over `DeepSeekReportCompiler`. The model is the environment:
it answers the requests in their order, and a compile keeps the requests it has made, also
when it throws. Transport errors are not modelled. The service repairs what its own schema
rejects; an answer that the provider cannot read is thrown past it.
-/
namespace FieldNote.ReportCompiler
open PipelineService JsonSchema

def API_SEVERITIES : List (String × ApiSeverity) :=
  [("info", .info), ("maintenance", .maintenance), ("repair", .repair), ("safety", .safety)]

structure CompiledFinding where
  text : BoundedText 2000
  severity : ApiSeverity

structure CompiledSection where
  title : BoundedText 200
  findings : BoundedList CompiledFinding 200

structure CompiledReport where
  sections : BoundedList CompiledSection 100

def compiledFindingSchema : Check CompiledFinding :=
  object fun members path =>
    (both (field "text" (boundedText 2000) members path)
      (field "severity" (oneOf API_SEVERITIES) members path)).map fun p => ⟨p.1, p.2⟩

def compiledSectionSchema : Check CompiledSection :=
  object fun members path =>
    (both (field "title" (boundedText 200) members path)
      (field "findings" (arrayOf 200 compiledFindingSchema) members path)).map fun p => ⟨p.1, p.2⟩

def compiledReportSchema : Check CompiledReport :=
  object fun members path =>
    (field "sections" (arrayOf 100 compiledSectionSchema) members path).map fun sections =>
      ⟨sections⟩

/-- `compiledReportSchema.safeParse`. -/
def safeParse (value : Json) : Checked CompiledReport := compiledReportSchema [] (some value)

def REPORT_TOOL_NAME : String := "emit_inspection_report"

structure CompileInput where
  label : String
  transcript : String

/-- `lines.join('\n')`. -/
def joinLines (lines : List String) : String := String.intercalate "\n" lines

def REPORT_SYSTEM_PROMPT : String := joinLines [
  "You are a report compiler for professional home inspectors. You convert a raw,",
  "spoken inspection walkthrough transcript into a clean, structured inspection report.",
  "",
  "ABSOLUTE RULES — these override everything else:",
  "1. Never invent, infer, or embellish findings. Every finding MUST be grounded in",
  "   something the inspector actually said in the transcript. If it was not said, it",
  "   does not go in the report.",
  "2. Do not add boilerplate, recommendations, code citations, or standard disclaimers",
  "   that the inspector did not speak.",
  "3. Group findings under clear, conventional section headings (e.g. Roof, Exterior,",
  "   Electrical, Plumbing, HVAC, Kitchen, Bathrooms, Attic, Basement, Foundation,",
  "   Interior). Use only the sections the transcript actually covers; omit empty ones.",
  "4. Each finding is ONE discrete observation with exactly ONE severity:",
  "   - info: a neutral observation or something in good/serviceable condition.",
  "   - maintenance: routine upkeep, cleaning, or servicing recommended.",
  "   - repair: a defect that needs correction but is not an immediate hazard.",
  "   - safety: a condition that poses a hazard to occupants and needs prompt attention.",
  "5. Paraphrase concisely and professionally; preserve the inspector's meaning and any",
  "   specifics they gave (locations, ages, measurements). Do not contradict the transcript.",
  "6. Order sections in a logical inspection sequence (exterior → systems → interior) and",
  "   order findings within a section by severity, most severe first.",
  "",
  "Return the report ONLY by calling the provided tool. Do not write prose."]

def buildReportUserPrompt (label transcript : String) : String :=
  joinLines [
    "Property / job label: " ++
      (if JsText.trim label = "" then "the inspected property" else JsText.trim label),
    "",
    "Inspection walkthrough transcript:",
    "\"\"\"",
    JsText.trim transcript,
    "\"\"\"",
    "",
    "Compile this transcript into a structured inspection report by calling the",
    "emit_inspection_report tool. Remember: include only what was actually said."]

def buildRepairHint (issues : String) : String :=
  joinLines [
    "Your previous tool call did not match the required schema and was rejected.",
    "Problems found:",
    issues,
    "",
    "Call the emit_inspection_report tool again with valid input. Every finding must",
    "have non-empty text and a severity of exactly one of: info, maintenance, repair, safety."]

/-- The provider's settings. -/
structure DeepSeekReportCompiler where
  model : String
  maxTokens : ℕ := 4096

/-- The request of one attempt; the tool's parameters are left out. -/
structure ChatRequest where
  model : String
  maxTokens : ℕ
  temperature : ℕ
  system : String
  user : String
  toolChoice : String

structure ToolCall where
  name : String
  arguments : String

/-- A choice with the `tool_calls` of its message. -/
structure Choice where
  toolCalls : Option (List ToolCall)

structure ChatResponse where
  choices : List Choice

def noToolCallError : Err := ⟨"Report compiler did not return a tool call", false, false⟩
def notJsonError : Err := ⟨"Report compiler returned non-JSON tool arguments", false, false⟩

def malformedReportError (issues : String) : Err :=
  ⟨"Report compiler returned malformed output after one retry:\n" ++ issues, true, false⟩

/-- The requests made so far are the state; it outlives a thrown error. The model answers
request `n` with `responses n`. -/
abbrev Compile (α : Type) := ReaderT (ℕ → ChatResponse) (ExceptT Err (StateM (List ChatRequest))) α

def chatRequest (cfg : DeepSeekReportCompiler) (input : CompileInput)
    (repairHint : Option String) : ChatRequest where
  model := cfg.model
  maxTokens := cfg.maxTokens
  temperature := 0
  system := REPORT_SYSTEM_PROMPT
  user :=
    match repairHint with
    | some hint =>
        if hint = "" then buildReportUserPrompt input.label input.transcript
        else buildReportUserPrompt input.label input.transcript ++ "\n\n" ++ hint
    | none => buildReportUserPrompt input.label input.transcript
  toolChoice := REPORT_TOOL_NAME

/-- The arguments of the first call of the report tool; empty ones count as no call. -/
def toolArguments (response : ChatResponse) : Option String :=
  (response.choices.head?.bind fun choice =>
    choice.toolCalls.bind fun calls =>
      (calls.find? fun call => call.name = REPORT_TOOL_NAME).map ToolCall.arguments).filter
        (· ≠ "")

/-- What the provider makes of a response. -/
def readResponse (response : ChatResponse) : Except Err Json :=
  match toolArguments response with
  | none => .error noToolCallError
  | some raw =>
      match Json.parse raw with
      | none => .error notJsonError
      | some value => .ok value

/-- One request to the model and its answer. -/
def create (request : ChatRequest) : Compile ChatResponse := do
  let made ← get
  set (made ++ [request])
  return (← read) made.length

/-- `DeepSeekReportCompiler.compile`. -/
def DeepSeekReportCompiler.compile (cfg : DeepSeekReportCompiler) (input : CompileInput)
    (repairHint : Option String) : Compile Json := do
  let response ← create (chatRequest cfg input repairHint)
  match readResponse response with
  | .ok value => return value
  | .error e => throw e

def PathItem.text : PathItem → String
  | .key name => name
  | .index i => toString i

def formatIssue (issue : Issue) : String :=
  let path := String.intercalate "." (issue.path.map PathItem.text)
  "- " ++ (if path = "" then "(root)" else path) ++ ": " ++ issue.message

def formatIssues (issues : List Issue) : String := joinLines ((issues.take 12).map formatIssue)

example : formatIssue ⟨[.key "sections", .index 0, .key "title"], "Required"⟩ =
    "- sections.0.title: Required" := by decide

/-- `SEVERITY_RANK`, most severe first. -/
def severityRank : Severity → ℕ
  | .SAFETY => 0
  | .REPAIR => 1
  | .MAINTENANCE => 2
  | .INFO => 3

def normalizeFindings (findings : List CompiledFinding) : List ReportFindingInput :=
  ((findings.map fun f => (⟨JsText.trim f.text.value, severityFromApi f.severity⟩ :
    ReportFindingInput)).filter fun f => f.text ≠ "").insertionSort
      fun a b => severityRank a.severity ≤ severityRank b.severity

def normalize (sections : List CompiledSection) : List ReportSectionInput :=
  (sections.map fun section_ =>
    (⟨JsText.trim section_.title.value, normalizeFindings section_.findings.items⟩ :
      ReportSectionInput)).filter fun section_ => section_.title ≠ "" && section_.findings ≠ []

/-- `ReportCompilerService.compile`. -/
def compile (cfg : DeepSeekReportCompiler) (input : CompileInput) :
    Compile (List ReportSectionInput) := do
  let first ← cfg.compile input none
  match safeParse first with
  | .ok report => return normalize report.sections.items
  | .error issues =>
      let hint := buildRepairHint (formatIssues issues)
      let second ← cfg.compile input (some hint)
      match safeParse second with
      | .ok report => return normalize report.sections.items
      | .error issues => throw (malformedReportError (formatIssues issues))

/-- A whole compile: how it ends, and the requests it has made. -/
def run (cfg : DeepSeekReportCompiler) (input : CompileInput) (responses : ℕ → ChatResponse) :
    Except Err (List ReportSectionInput) × List ChatRequest :=
  compile cfg input responses []

/-- The text of a checked finding or title is not empty. -/
theorem trim_ne_empty {n : ℕ} (text : BoundedText n) : JsText.trim text.value ≠ "" := by
  rw [text.trimmed]
  intro hempty
  have hlength := text.nonempty
  rw [hempty] at hlength
  simp [JsText.length] at hlength

/-- The schema has trimmed the texts, so normalising only maps and sorts. -/
theorem normalizeFindings_eq (findings : List CompiledFinding) :
    normalizeFindings findings =
      (findings.map fun f => (⟨f.text.value, severityFromApi f.severity⟩ :
        ReportFindingInput)).insertionSort
          fun a b => severityRank a.severity ≤ severityRank b.severity := by
  have hkept : ∀ f ∈ findings.map fun f => (⟨JsText.trim f.text.value, severityFromApi f.severity⟩ :
      ReportFindingInput), decide (f.text ≠ "") = true := by
    intro f hf
    obtain ⟨f₀, -, rfl⟩ := List.mem_map.mp hf
    exact decide_eq_true (trim_ne_empty f₀.text)
  have htrimmed : ∀ f ∈ findings, (⟨JsText.trim f.text.value, severityFromApi f.severity⟩ :
      ReportFindingInput) = ⟨f.text.value, severityFromApi f.severity⟩ := by
    intro f _
    rw [f.text.trimmed]
  unfold normalizeFindings
  rw [List.filter_eq_self.mpr hkept, List.map_congr_left htrimmed]

/-- Normalising keeps every finding and invents none. -/
theorem normalizeFindings_perm (findings : List CompiledFinding) :
    (normalizeFindings findings).Perm
      (findings.map fun f => ⟨f.text.value, severityFromApi f.severity⟩) := by
  rw [normalizeFindings_eq]
  exact List.perm_insertionSort _ _

/-- A normalised report has a section for each one that has findings. -/
theorem normalize_eq (sections : List CompiledSection) :
    normalize sections = (sections.filter fun section_ => section_.findings.items ≠ []).map
      fun section_ => ⟨section_.title.value, normalizeFindings section_.findings.items⟩ := by
  unfold normalize
  rw [List.filter_map]
  have hempty : ∀ findings, normalizeFindings findings = [] ↔ findings = [] := by
    intro findings
    have hperm := (normalizeFindings_perm findings).length_eq
    rw [List.length_map] at hperm
    rw [← List.length_eq_zero_iff, hperm, List.length_eq_zero_iff]
  have hsame : ∀ section_ : CompiledSection,
      ((fun section_ : ReportSectionInput => section_.title ≠ "" && section_.findings ≠ []) ∘
        fun section_ : CompiledSection => ⟨JsText.trim section_.title.value,
          normalizeFindings section_.findings.items⟩) section_ =
        decide (section_.findings.items ≠ []) := by
    intro section_
    simp [trim_ne_empty, hempty]
  rw [List.filter_congr fun section_ _ => hsame section_]
  apply List.map_congr_left
  intro section_ _
  rw [section_.title.trimmed]

/-- What an answer to the repair request comes to. -/
def repaired (response : ChatResponse) : Except Err (List ReportSectionInput) :=
  match readResponse response with
  | .error e => .error e
  | .ok value =>
      match safeParse value with
      | .ok report => .ok (normalize report.sections.items)
      | .error issues => .error (malformedReportError (formatIssues issues))

variable {cfg : DeepSeekReportCompiler} {input : CompileInput} {responses : ℕ → ChatResponse}

/-- A request is recorded whether or not its answer can be read. -/
theorem provider_run (repairHint : Option String) (made : List ChatRequest) :
    cfg.compile input repairHint responses made =
      (readResponse (responses made.length), made ++ [chatRequest cfg input repairHint]) := by
  have hcreate : cfg.compile input repairHint responses made =
      (match readResponse (responses made.length) with
        | .ok value => (pure value : Compile Json)
        | .error e => throw e) responses (made ++ [chatRequest cfg input repairHint]) := rfl
  rw [hcreate]
  cases readResponse (responses made.length) <;> rfl

/-- One computation after another: an error ends both, with the requests made so far. -/
theorem bind_run {α β : Type} (x : Compile α) (f : α → Compile β) (made : List ChatRequest) :
    (x >>= f) responses made =
      match x responses made with
      | (.ok a, made) => f a responses made
      | (.error e, made) => (.error e, made) := by
  change (ExceptT.bindCont (fun a => f a responses) (x responses made).1) (x responses made).2 = _
  cases x responses made with
  | mk result made => cases result <;> rfl

theorem run_unread {e : Err} (h : readResponse (responses 0) = .error e) :
    run cfg input responses = (.error e, [chatRequest cfg input none]) := by
  unfold run compile
  rw [bind_run, provider_run, List.length_nil, h, List.nil_append]

theorem run_valid {value : Json} {report : CompiledReport}
    (h : readResponse (responses 0) = .ok value) (hvalid : safeParse value = .ok report) :
    run cfg input responses =
      (.ok (normalize report.sections.items), [chatRequest cfg input none]) := by
  unfold run compile
  rw [bind_run, provider_run, List.length_nil, h, List.nil_append]
  simp only [hvalid]
  rfl

theorem run_repair {value : Json} {issues : List Issue}
    (h : readResponse (responses 0) = .ok value) (hinvalid : safeParse value = .error issues) :
    run cfg input responses = (repaired (responses 1),
      [chatRequest cfg input none,
        chatRequest cfg input (some (buildRepairHint (formatIssues issues)))]) := by
  unfold run compile
  rw [bind_run, provider_run, List.length_nil, h, List.nil_append]
  simp only [hinvalid]
  rw [bind_run, provider_run]
  unfold repaired
  simp only [List.length_singleton, List.cons_append, List.nil_append]
  cases readResponse (responses 1) with
  | error e => rfl
  | ok second =>
      dsimp only
      cases safeParse second <;> rfl

theorem located_report (value : Json) : Located [] (safeParse value) := by
  have hfinding : ∀ path value, Located path (compiledFindingSchema path value) := by
    apply located_object
    intro members path
    exact ((located_field (located_boundedText 2000) members path).both
      (located_field (located_oneOf API_SEVERITIES) members path)).map
  have hsection : ∀ path value, Located path (compiledSectionSchema path value) := by
    apply located_object
    intro members path
    exact ((located_field (located_boundedText 200) members path).both
      (located_field (located_arrayOf hfinding) members path)).map
  have hreport : ∀ path value, Located path (compiledReportSchema path value) := by
    apply located_object
    intro members path
    exact (located_field (located_arrayOf hsection) members path).map
  exact hreport [] (some value)

/-- The report that a response holds, where it is usable. -/
def accepted (response : ChatResponse) : Option CompiledReport :=
  match readResponse response with
  | .error _ => none
  | .ok value =>
      match safeParse value with
      | .ok report => some report
      | .error _ => none

/-- The worker marks the job FAILED, and BullMQ does not retry its entry. -/
def NotRetried (e : Err) : Prop :=
  afterThrow e = .marking e .rawById ∧ ∃ u, afterMarking e = .settled (some u) ∧
    ∀ (server : ServerConfig) (jobId : String) (entry : Entry),
      (ServerRuns.settle server jobId entry (some u)).1.state = .failed

theorem permanent_not_retried {e : Err} (h : e.isPermanent = true) : NotRetried e := by
  refine ⟨if_pos h, _, rfl, ?_⟩
  intro server jobId entry
  have hu : (if e.unrecoverable then e else unrecoverableError e.message).unrecoverable = true := by
    split_ifs with hunrecoverable
    · exact hunrecoverable
    · rfl
  simp [ServerRuns.settle, hu]

/-- The policy for two responses of the model. -/
structure RepairPolicy (cfg : DeepSeekReportCompiler) (input : CompileInput)
    (responses : ℕ → ChatResponse) : Prop where
  calls : (run cfg input responses).2.length ≤ 2
  hint : ∀ request, (run cfg input responses).2[1]? = some request →
    ∃ issues : List Issue, issues ≠ [] ∧
      request = chatRequest cfg input (some (buildRepairHint (formatIssues issues)))
  first : ∀ report, accepted (responses 0) = some report →
    (run cfg input responses).1 = .ok (normalize report.sections.items)
  second : accepted (responses 0) = none → ∀ report, accepted (responses 1) = some report →
    (run cfg input responses).1 = .ok (normalize report.sections.items)
  failed : accepted (responses 0) = none → accepted (responses 1) = none →
    ∃ e, (run cfg input responses).1 = .error e ∧ e.isPermanent = true ∧ NotRetried e

/-- The provider can read the first response, and the second one if it comes to it. -/
def Readable (responses : ℕ → ChatResponse) : Prop :=
  ∃ value, readResponse (responses 0) = .ok value ∧
    ((∃ report, safeParse value = .ok report) ∨ ∃ value', readResponse (responses 1) = .ok value')

theorem accepted_unread {response : ChatResponse} {e : Err} (h : readResponse response = .error e) :
    accepted response = none := by
  simp [accepted, h]

theorem accepted_valid {response : ChatResponse} {value : Json} {report : CompiledReport}
    (h : readResponse response = .ok value) (hvalid : safeParse value = .ok report) :
    accepted response = some report := by
  simp [accepted, h, hvalid]

theorem accepted_invalid {response : ChatResponse} {value : Json} {issues : List Issue}
    (h : readResponse response = .ok value) (hinvalid : safeParse value = .error issues) :
    accepted response = none := by
  simp [accepted, h, hinvalid]

/-- An error of the provider carries no flag, so the queue may retry the job. -/
theorem readResponse_error {response : ChatResponse} {e : Err}
    (h : readResponse response = .error e) : e.isPermanent = false := by
  unfold readResponse at h
  split at h
  · cases h
    rfl
  · split at h <;> cases h
    rfl

theorem repaired_ok {response : ChatResponse} {report : CompiledReport}
    (h : accepted response = some report) :
    repaired response = .ok (normalize report.sections.items) := by
  unfold accepted at h
  unfold repaired
  cases hread : readResponse response with
  | error e => simp [hread] at h
  | ok value =>
      cases hparse : safeParse value with
      | error issues => simp [hread, hparse] at h
      | ok report' =>
          simp only [hread, hparse, Option.some.injEq] at h
          simp only [hparse, h]

theorem policy_valid {value : Json} {report : CompiledReport}
    (h : readResponse (responses 0) = .ok value) (hvalid : safeParse value = .ok report) :
    RepairPolicy cfg input responses := by
  have hrun : run cfg input responses = _ := run_valid h hvalid
  have haccepted := accepted_valid h hvalid
  constructor
  · simp [hrun]
  · intro request hrequest
    simp [hrun] at hrequest
  · intro report' hreport'
    rw [haccepted] at hreport'
    cases hreport'
    rw [hrun]
  · intro hnone
    rw [haccepted] at hnone
    cases hnone
  · intro hnone
    rw [haccepted] at hnone
    cases hnone

theorem policy_repair {value value' : Json} {issues : List Issue}
    (h : readResponse (responses 0) = .ok value) (hinvalid : safeParse value = .error issues)
    (hsecond : readResponse (responses 1) = .ok value') : RepairPolicy cfg input responses := by
  have hrun : run cfg input responses = _ := run_repair h hinvalid
  constructor
  · simp [hrun]
  · intro request hrequest
    obtain ⟨hsome, -⟩ := located_report value issues hinvalid
    simp only [hrun, List.getElem?_cons_succ, List.getElem?_cons_zero, Option.some.injEq]
      at hrequest
    exact ⟨issues, hsome, hrequest.symm⟩
  · intro report hreport
    rw [accepted_invalid h hinvalid] at hreport
    cases hreport
  · intro _ report hreport
    rw [hrun]
    exact repaired_ok hreport
  · intro _ hnone
    cases hparse : safeParse value' with
    | ok report =>
        rw [accepted_valid hsecond hparse] at hnone
        cases hnone
    | error issues' =>
        have hthrown : repaired (responses 1) =
            .error (malformedReportError (formatIssues issues')) := by
          simp [repaired, hsecond, hparse]
        refine ⟨malformedReportError (formatIssues issues'), ?_, rfl, permanent_not_retried rfl⟩
        rw [hrun]
        exact hthrown

/-- An error of the provider that leaves the compile is against the policy. -/
theorem not_policy {e : Err} (he : e.isPermanent = false)
    (hrun : (run cfg input responses).1 = .error e) (hfirst : accepted (responses 0) = none) :
    ¬ RepairPolicy cfg input responses := by
  intro h
  cases hsecond : accepted (responses 1) with
  | none =>
      obtain ⟨e', he', hpermanent, -⟩ := h.failed hfirst hsecond
      rw [hrun] at he'
      cases he'
      rw [he] at hpermanent
      cases hpermanent
  | some report =>
      have hok := h.second hfirst report hsecond
      rw [hrun] at hok
      cases hok

/-- The policy holds exactly when the provider can read the first response and, where the
schema rejects that one, the second. -/
theorem repair_policy_iff (cfg : DeepSeekReportCompiler) (input : CompileInput)
    (responses : ℕ → ChatResponse) : RepairPolicy cfg input responses ↔ Readable responses := by
  cases hfirst : readResponse (responses 0) with
  | error e =>
      have hrun : run cfg input responses = _ := run_unread hfirst
      constructor
      · intro h
        have hthrown : (run cfg input responses).1 = .error e := by rw [hrun]
        exact (not_policy (readResponse_error hfirst) hthrown (accepted_unread hfirst) h).elim
      · rintro ⟨value, hvalue, -⟩
        rw [hfirst] at hvalue
        cases hvalue
  | ok value =>
      cases hparse : safeParse value with
      | ok report =>
          constructor
          · intro _
            exact ⟨value, hfirst, .inl ⟨report, hparse⟩⟩
          · intro _
            exact policy_valid hfirst hparse
      | error issues =>
          cases hsecond : readResponse (responses 1) with
          | ok value' =>
              constructor
              · intro _
                exact ⟨value, hfirst, .inr ⟨value', hsecond⟩⟩
              · intro _
                exact policy_repair hfirst hparse hsecond
          | error e =>
              have hrun : run cfg input responses = _ := run_repair hfirst hparse
              have hthrown : (run cfg input responses).1 = .error e := by
                rw [hrun]
                simp [repaired, hsecond]
              constructor
              · intro h
                exact (not_policy (readResponse_error hsecond) hthrown
                  (accepted_invalid hfirst hparse) h).elim
              · rintro ⟨value₁, hvalue₁, hright⟩
                rw [hfirst] at hvalue₁
                cases hvalue₁
                rcases hright with ⟨report, hreport⟩ | ⟨value', hvalue'⟩
                · rw [hparse] at hreport
                  cases hreport
                · rw [hsecond] at hvalue'
                  cases hvalue'

/-- The compile body of the pipeline goes on with the sections of a compile, or ends with its
error. -/
theorem compile_body (s : Stores) (env : JobsService.Env) (b : Body) {label transcript : String}
    (hpc : b.pc = .compile label transcript) :
    (∀ sections, (run cfg ⟨label, transcript⟩ responses).1 = .ok sections →
      nextBody s { env with sections := sections } b = some (.replaceReport sections, .none)) ∧
    ∀ e, (run cfg ⟨label, transcript⟩ responses).1 = .error e →
      b.throwing e = some (.done (.error e)) := by
  constructor
  · intro sections _
    simp [nextBody, hpc]
  · intro e _
    simp [Body.throwing, hpc]

/-- A response that calls the report tool with the given arguments. -/
def toolCallResponse (raw : String) : ChatResponse :=
  ⟨[⟨some [⟨REPORT_TOOL_NAME, raw⟩]⟩]⟩

/-- The model answers in prose, without a tool call. -/
def proseResponse : ChatResponse := ⟨[⟨none⟩]⟩

/-- A first answer in prose is thrown past the repair. -/
theorem prose_is_not_repaired :
    ¬ ∀ (cfg : DeepSeekReportCompiler) (input : CompileInput) (responses : ℕ → ChatResponse),
      RepairPolicy cfg input responses := by
  intro h
  let responses : ℕ → ChatResponse := fun n =>
    if n = 0 then proseResponse else toolCallResponse "\x7b\x7d"
  have hfirst : readResponse (responses 0) = .error noToolCallError := rfl
  have hthrown : (run ⟨"deepseek-chat", 4096⟩ ⟨"Site A", "text"⟩ responses).1 =
      .error noToolCallError := by rw [run_unread hfirst]
  exact not_policy rfl hthrown (accepted_unread hfirst) (h _ _ _)

end FieldNote.ReportCompiler
