import FieldNote.KeyedTable
import Mathlib.Data.List.Sort

/-!
# Job rows, report trees and their wire form

The `jobs`, `report_sections` and `findings` rows with the columns the server reads or
writes, the two severity enumerations, the normalised report input and the response DTO.
A job is loaded with its tree; the row ids of a tree are chosen by the database.
-/
namespace FieldNote

inductive JobStatus where
  | CREATED
  | UPLOADING
  | QUEUED
  | TRANSCRIBING
  | COMPILING
  | RENDERING
  | READY
  | FAILED
deriving DecidableEq, Repr

/-- `IN_FLIGHT`. -/
def JobStatus.inFlight : JobStatus → Bool
  | .QUEUED | .TRANSCRIBING | .COMPILING | .RENDERING => true
  | .CREATED | .UPLOADING | .READY | .FAILED => false

inductive Severity where
  | INFO
  | MAINTENANCE
  | REPAIR
  | SAFETY
deriving DecidableEq, Repr

inductive ApiSeverity where
  | info
  | maintenance
  | repair
  | safety
deriving DecidableEq, Repr

def severityToApi : Severity → ApiSeverity
  | .INFO => .info
  | .MAINTENANCE => .maintenance
  | .REPAIR => .repair
  | .SAFETY => .safety

def severityFromApi : ApiSeverity → Severity
  | .info => .INFO
  | .maintenance => .MAINTENANCE
  | .repair => .REPAIR
  | .safety => .SAFETY

@[simp] theorem severityFromApi_toApi (s : Severity) :
    severityFromApi (severityToApi s) = s := by
  cases s <;> rfl

@[simp] theorem severityToApi_fromApi (s : ApiSeverity) :
    severityToApi (severityFromApi s) = s := by
  cases s <;> rfl

structure ReportFindingInput where
  text : String
  severity : Severity
deriving DecidableEq, Repr

structure ReportSectionInput where
  title : String
  findings : List ReportFindingInput
deriving DecidableEq, Repr

structure Finding where
  id : String
  text : String
  severity : Severity
  sortOrder : ℕ
deriving DecidableEq, Repr

structure ReportSection where
  id : String
  title : String
  sortOrder : ℕ
  findings : List Finding
deriving DecidableEq, Repr

structure Job where
  id : String
  userId : String
  label : String
  status : JobStatus
  transcript : Option String
  audioKey : Option String
  pdfKey : Option String
  errorMessage : Option String
  idempotencyKey : Option String
  createdAt : ℕ
  updatedAt : ℕ
  deletedAt : Option ℕ
  sections : List ReportSection
deriving DecidableEq, Repr

abbrev JobTable := Table Job String Job.id

/-- Ascending by `sortOrder`; JavaScript's sort and this one are stable. -/
def sortSections (sections : List ReportSection) : List ReportSection :=
  sections.insertionSort fun a b => a.sortOrder ≤ b.sortOrder

def sortFindings (findings : List Finding) : List Finding :=
  findings.insertionSort fun a b => a.sortOrder ≤ b.sortOrder

/-- A persisted tree in the normalised compiler shape. -/
def reportOf (sections : List ReportSection) : List ReportSectionInput :=
  (sortSections sections).map fun s =>
    ⟨s.title, (sortFindings s.findings).map fun f => ⟨f.text, f.severity⟩⟩

/-- `PipelineService.existingReport`. -/
def Job.existingReport (job : Job) : List ReportSectionInput := reportOf job.sections

/-- The finding rows `insertSections` creates in one section; `rowId` gives the ids. -/
def insertFindings (rowId : ℕ → String) (findings : List ReportFindingInput) : List Finding :=
  findings.mapIdx fun i f => ⟨rowId i, f.text, f.severity, i⟩

/-- The rows `insertSections` creates; `rowId s 0` is the id of section `s` and
`rowId s (i + 1)` the id of its finding `i`. -/
def insertSections (rowId : ℕ → ℕ → String) (sections : List ReportSectionInput) :
    List ReportSection :=
  sections.mapIdx fun s sec =>
    ⟨rowId s 0, sec.title, s, insertFindings (fun i => rowId s (i + 1)) sec.findings⟩

structure FindingDto where
  id : String
  text : String
  severity : ApiSeverity
  sortOrder : ℕ
deriving DecidableEq, Repr

structure SectionDto where
  id : String
  title : String
  sortOrder : ℕ
  findings : List FindingDto
deriving DecidableEq, Repr

structure JobDto where
  id : String
  label : String
  status : JobStatus
  transcript : Option String
  errorMessage : Option String
  sections : List SectionDto
  pdfUrl : Option String
  createdAt : ℕ
  updatedAt : ℕ
deriving DecidableEq, Repr

def jobToDto (job : Job) (pdfUrl : Option String) : JobDto where
  id := job.id
  label := job.label
  status := job.status
  transcript := job.transcript
  errorMessage := job.errorMessage
  sections := (sortSections job.sections).map fun s =>
    ⟨s.id, s.title, s.sortOrder, (sortFindings s.findings).map fun f =>
      ⟨f.id, f.text, severityToApi f.severity, f.sortOrder⟩⟩
  pdfUrl := pdfUrl
  createdAt := job.createdAt
  updatedAt := job.updatedAt

theorem mapIdx_increasing {α β : Type*} (key : β → ℕ) (f : ℕ → α → β)
    (hkey : ∀ i a, key (f i a) = i) (xs : List α) :
    (xs.mapIdx f).Pairwise fun a b => key a < key b := by
  rw [List.pairwise_iff_getElem]
  intro i j hi hj hij
  simpa only [List.getElem_mapIdx, hkey] using hij

theorem sortFindings_insert (rowId : ℕ → String) (findings : List ReportFindingInput) :
    sortFindings (insertFindings rowId findings) = insertFindings rowId findings :=
  ((mapIdx_increasing Finding.sortOrder _ (fun _ _ => rfl) findings).imp Nat.le_of_lt).insertionSort_eq

theorem sortSections_insert (rowId : ℕ → ℕ → String) (sections : List ReportSectionInput) :
    sortSections (insertSections rowId sections) = insertSections rowId sections :=
  ((mapIdx_increasing ReportSection.sortOrder _ (fun _ _ => rfl) sections).imp
    Nat.le_of_lt).insertionSort_eq

theorem map_mapIdx {α β γ : Type} (g : β → γ) (f : ℕ → α → β) (xs : List α) :
    (xs.mapIdx f).map g = xs.mapIdx fun i a => g (f i a) := by
  apply List.ext_getElem <;> simp

/-- The DTO's sections of a tree that `insertSections` has stored. -/
def wireTree (rowId : ℕ → ℕ → String) (sections : List ReportSectionInput) : List SectionDto :=
  sections.mapIdx fun s sec =>
    ⟨rowId s 0, sec.title, s, sec.findings.mapIdx fun i f =>
      ⟨rowId s (i + 1), f.text, severityToApi f.severity, i⟩⟩

theorem dto_insertSections {job : Job} {rowId : ℕ → ℕ → String}
    {sections : List ReportSectionInput} (h : job.sections = insertSections rowId sections)
    (pdfUrl : Option String) : (jobToDto job pdfUrl).sections = wireTree rowId sections := by
  simp only [jobToDto, h, sortSections_insert]
  rw [insertSections, map_mapIdx]
  simp only [sortFindings_insert]
  simp only [insertFindings, map_mapIdx]
  rfl

/-- Reading a freshly inserted tree gives back what was inserted. -/
@[simp] theorem reportOf_insertSections (rowId : ℕ → ℕ → String)
    (sections : List ReportSectionInput) :
    reportOf (insertSections rowId sections) = sections := by
  have hf : ∀ (id : ℕ → String) (findings : List ReportFindingInput),
      (sortFindings (insertFindings id findings)).map
        (fun f => (⟨f.text, f.severity⟩ : ReportFindingInput)) = findings := by
    intro id findings
    rw [sortFindings_insert]
    apply List.ext_getElem
    · simp [insertFindings]
    · intro i h₁ h₂
      simp [insertFindings]
  unfold reportOf
  rw [sortSections_insert]
  apply List.ext_getElem
  · simp [insertSections]
  · intro i h₁ h₂
    simp [insertSections, hf]

/-- A tree is empty exactly when its report is. -/
theorem reportOf_eq_nil {sections : List ReportSection} :
    reportOf sections = [] ↔ sections = [] := by
  unfold reportOf sortSections
  rw [List.map_eq_nil_iff, ← List.length_eq_zero_iff, List.length_insertionSort,
    List.length_eq_zero_iff]

end FieldNote
