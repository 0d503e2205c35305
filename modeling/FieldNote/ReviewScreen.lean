import FieldNote.HtmlFidelity
import FieldNote.ServedReports
import FieldNote.SharedPdf
import Mathlib.Data.List.Perm.Basic

/-!
# The review screen and the PDF

`ReportReviewView` shows the cached job: a report with its summary when the job is READY. The
server renders the PDF from rows of its own. A device in step with the server shows the sections,
the findings and the counts that the shared PDF has.
-/
namespace FieldNote.ReviewScreen
open JobStore JobsService PipelineService ServerRuns GuardedRuns SharedPdf ReportHtml MarkupTemplates

/-- `Severity.allCases`. -/
def allCases : List ApiSeverity := [.safety, .repair, .maintenance, .info]

/-- `Severity.label`. -/
def severityLabel : ApiSeverity → String
  | .safety => "Safety"
  | .repair => "Repair"
  | .maintenance => "Maintenance"
  | .info => "Info"

/-- `calmDescription`. -/
def calmDescription : JobStatus → String
  | .CREATED => "Draft saved."
  | .UPLOADING => "Uploading your recording…"
  | .QUEUED => "Queued for processing…"
  | .TRANSCRIBING => "Transcribing your walkthrough…"
  | .COMPILING => "Compiling the report…"
  | .RENDERING => "Rendering the PDF…"
  | .READY => "Your report is ready."
  | .FAILED => "Something went wrong."

/-- The content of a READY report: the numbers of the summary, a chip for each severity that
occurs, the cards, and the transcript. -/
structure ReadyReport where
  findings : ℕ
  sections : ℕ
  chips : List (ℕ × String)
  cards : List ReportSectionView
  transcript : Option String
deriving DecidableEq, Repr

inductive Screen where
  | report (report : ReadyReport)
  | failure (message : String)
  | processing (text : String)
deriving DecidableEq, Repr

def allFindings (job : CachedJob) : List FindingDto := job.sections.flatMap SectionDto.findings

def severityCounts (job : CachedJob) : List (ApiSeverity × ℕ) :=
  (allCases.map fun severity =>
    (severity, ((allFindings job).filter fun f => f.severity = severity).length)).filter
      fun p => 0 < p.2

/-- `SectionCard`. -/
def card (section_ : SectionDto) : ReportSectionView :=
  ⟨section_.title, (orderedFindings section_).map fun f => ⟨f.text, f.severity⟩⟩

def readyReport (job : CachedJob) : ReadyReport where
  findings := (allFindings job).length
  sections := job.sections.length
  chips := (severityCounts job).map fun p => (p.2, severityLabel p.1)
  cards := job.orderedSections.map card
  transcript := job.transcript.filter (· ≠ "")

/-- The body of `ReportReviewView`. -/
def review (job : CachedJob) : Screen :=
  match job.status with
  | .READY => .report (readyReport job)
  | .FAILED =>
      .failure (job.errorMessage.getD "Something went wrong while building this report.")
  | status => .processing (calmDescription status)

/-- The total, the chips and the cards that `buildReportHtml` writes out, and what the screen has
besides: the number of the sections, which the document only lists, and the transcript. -/
def printed (view : ReportView) (transcript : Option String) : ReadyReport where
  findings := view.sections.foldl (fun n s => n + s.findings.length) 0
  sections := view.sections.length
  chips := (severityOrder.filter fun sev => 0 < countBySeverity view.sections sev).map fun sev =>
    (countBySeverity view.sections sev, (severityStyles sev).label)
  cards := view.sections
  transcript := transcript.filter (· ≠ "")

/-- The text of a summary's chips. -/
def chipTexts (chips : List (ℕ × String)) : List String :=
  if chips = [] then ["No findings"] else chips.map fun p => p.2 ++ ": " ++ toString p.1

/-- The document of a view shows what is printed: the total, the chips, and the cards. -/
theorem printed_html (view : ReportView) (transcript : Option String) :
    (elements shown (buildReportHtml view)).map Prod.snd =
      total (printed view transcript).findings :: (chipTexts (printed view transcript).chips ++
        ((printed view transcript).cards.flatMap sectionElements).map Prod.snd) := by
  have hchips : (chipElements (occurrences (shape view.sections))
      (chipped (occurrences (shape view.sections)))).map Prod.snd =
        chipTexts (printed view transcript).chips := by
    simp only [printed, countBySeverity_eq]
    change _ = chipTexts ((chipped (occurrences (shape view.sections))).map _)
    unfold chipElements chipTexts
    cases chipped (occurrences (shape view.sections)) with
    | nil => rfl
    | cons sev sevs => simp [chipElement]
  rw [elements_buildReportHtml, List.map_cons, List.map_append, hchips]
  simp only [printed, totalFindings_eq, Nat.zero_add]

variable {cfg : ServerConfig} {w : World} {job : CachedJob} {dto : JobDto}

/-- The display order changes no finding. -/
theorem perm_allFindings (job : CachedJob) :
    (job.orderedTree.flatMap SectionDto.findings).Perm (allFindings job) := by
  rw [CachedJob.orderedTree, List.flatMap_map]
  exact (List.perm_insertionSort _ job.sections).flatMap fun s _ =>
    List.perm_insertionSort _ s.findings

/-- The sections of a tree as a view has them. -/
def viewed (tree : List SectionDto) : List ReportSectionView :=
  tree.map fun s => ⟨s.title, s.findings.map fun f => ⟨f.text, f.severity⟩⟩

theorem cards_eq (job : CachedJob) : job.orderedSections.map card = viewed job.orderedTree := by
  simp [viewed, CachedJob.orderedTree, card]

theorem shape_viewed (tree : List SectionDto) :
    (shape (viewed tree)).flatten =
      (tree.flatMap SectionDto.findings).map FindingDto.severity := by
  induction tree with
  | nil => rfl
  | cons s tree ih =>
      simp only [viewed, shape, List.map_map, List.map_cons, List.flatten_cons] at ih ⊢
      rw [ih]
      simp [Function.comp_def]

theorem countBySeverity_viewed (job : CachedJob) (sev : ApiSeverity) :
    countBySeverity (viewed job.orderedTree) sev =
      ((allFindings job).filter fun f => f.severity = sev).length := by
  have hperm := (perm_allFindings job).countP_eq fun f => f.severity = sev
  rw [countBySeverity_eq, occurrences, shape_viewed, List.count_eq_countP, List.countP_map,
    ← List.countP_eq_length_filter, ← hperm]
  apply List.countP_congr
  intro f _
  simp

/-- The review screen is what the builder writes for a view of the same tree. -/
theorem readyReport_eq {view : ReportView} (hview : view.sections = viewed job.orderedTree) :
    readyReport job = printed view job.transcript := by
  have hfindings : (allFindings job).length =
      view.sections.foldl (fun n s => n + s.findings.length) 0 := by
    rw [totalFindings_eq, hview, shape_viewed, List.length_map, (perm_allFindings job).length_eq,
      Nat.zero_add]
  have hsections : job.sections.length = view.sections.length := by
    rw [hview, viewed, List.length_map, CachedJob.orderedTree, List.length_map,
      CachedJob.orderedSections, List.length_insertionSort]
  have hchips : (severityCounts job).map (fun p => (p.2, severityLabel p.1)) =
      (severityOrder.filter fun sev => 0 < countBySeverity view.sections sev).map fun sev =>
        (countBySeverity view.sections sev, (severityStyles sev).label) := by
    have hcount (sev : ApiSeverity) : countBySeverity view.sections sev =
        ((allFindings job).filter fun f => f.severity = sev).length := by
      rw [hview, countBySeverity_viewed]
    have hlabel (sev : ApiSeverity) : (severityStyles sev).label = severityLabel sev := by
      cases sev <;> rfl
    rw [severityCounts, List.filter_map, List.map_map]
    simp only [hcount, hlabel]
    rfl
  rw [readyReport, printed, hfindings, hsections, hchips, cards_eq, hview]

/-- In every run in which the shared PDF is current, a device in step with what a GET answers
shows the label and the report of the PDF that the answer links to. -/
theorem review_matches_pdf {userId jobId url : String}
    (hw : Run (step cfg) Guard World.empty w) (hread : findOne cfg w.stores userId jobId = .ok dto)
    (hurl : dto.pdfUrl = some url) (hjob : job.Mirrors dto) :
    ∃ key view, url = (cfg.presignPdfDownload key).url ∧ w.stores.bucket key = some (.pdf view) ∧
      job.label = view.label ∧ review job = .report (printed view job.transcript) := by
  have hinv : SharedPdf.Inv w := hw.invariant inv_empty fun _ _ _ hi hg hs => inv_step hi hg hs
  unfold findOne at hread
  split at hread
  · cases hread
  · rename_i row hrow
    cases hread
    obtain ⟨hfound, -, hlive⟩ := Stores.findScoped_eq_some.mp hrow
    obtain ⟨key, hshared, rfl⟩ := Option.map_eq_some_iff.mp hurl
    obtain ⟨hready, hkey⟩ := sharedPdf_eq_some hshared
    obtain ⟨view, hview, hshows⟩ := hinv.stored jobId row hfound hlive (.inl hready)
    have hcontent : view =
        toReportView view.jobId row.label view.generatedAt row.existingReport := by
      simpa [shows] using hshows
    have htree : view.sections = viewed job.orderedTree := by
      rw [hjob.tree, hcontent]
      simp [toReportView, viewed, jobToDto, Job.existingReport, reportOf]
    refine ⟨key, view, rfl, ?_, ?_, ?_⟩
    · rw [(hinv.keys jobId row hfound).2 key hkey]
      exact hview
    · rw [hjob.label, hcontent]
      rfl
    · rw [review, hjob.status, show (jobToDto row _).status = .READY from hready,
        readyReport_eq htree]

/-- The device has synced `job-1` after its run. -/
theorem review_matches_pdf_demo :
    ∃ (w : World) (key : String) (view : ReportView), w.stores.bucket key = some (.pdf view) ∧
      view.label = "Site A" ∧
        review (.ofDto ServedReports.demoDto) = .report (printed view (some "transcript")) := by
  have hend : (execWhere (step demo) Guard readySchedule World.empty).any (fun w =>
      decide ((findOne demo w.stores "user-1" "job-1").toOption = some ServedReports.demoDto)) =
        true := by
    decide
  obtain ⟨w, hw, hread⟩ := execWhere_any hend
  obtain ⟨key, view, -, hview, hlabel, hreview⟩ := review_matches_pdf hw
    (ServedReports.found_of hread) rfl (mirrors_ofDto ServedReports.demo_ordered)
  exact ⟨w, key, view, hview, hlabel.symm, hreview⟩

end FieldNote.ReviewScreen
