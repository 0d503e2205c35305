import FieldNote.ServerRuns
import FieldNote.StableSort

/-!
# A report and its rows

`insertSections` numbers the rows of a report, and every reader sorts by these numbers, so the
order in which the database returns the rows does not matter. A PATCH stores the body's tree in
the order of the body's own numbers and renumbers it, unless the database refuses one of its texts.
-/
namespace FieldNote.ReportPersistence
open JobsService StableSort

/-- The same section row, with its findings in some order. -/
structure SameSection (a b : ReportSection) : Prop where
  id : a.id = b.id
  title : a.title = b.title
  sortOrder : a.sortOrder = b.sortOrder
  findings : a.findings.Perm b.findings

/-- The rows of a tree, in whatever order the database returns them. -/
def Returned (rows tree : List ReportSection) : Prop :=
  ∃ sections, rows.Perm sections ∧ List.Forall₂ SameSection sections tree

/-- `GET /jobs/:id`, with the rows of the tree in any order. -/
def Gets (cfg : ServerConfig) (s : Stores) (userId jobId : String) (dto : JobDto) : Prop :=
  ∃ job rows, s.findScoped userId jobId = some job ∧ Returned rows job.sections ∧
    dto = jobToDto { job with sections := rows } (maybePdfUrl cfg job)

/-- `PATCH /jobs/:id`, past its lookup: the statement it commits. -/
def Patches (s : Stores) (env : Env) (now : ℕ) (c : UpdateCall) (s' : Stores) : Prop :=
  ∃ w, updateWrite s env c = .ok (some w) ∧ s' = s.run now (.write c.jobId w)

/-- The findings of a body, stably sorted and renumbered. -/
def RenumberedFindings (body : List UpdateFindingDto) (dtos : List FindingDto) : Prop :=
  ∃ sorted, Sorts UpdateFindingDto.sortOrder body sorted ∧
    dtos.map (fun f => (f.text, f.severity)) = sorted.map (fun f => (f.text, f.severity)) ∧
      dtos.map FindingDto.sortOrder = List.range sorted.length

/-- The sections of a body, stably sorted and renumbered. -/
def RenumberedSections (body : List UpdateSectionDto) (dtos : List SectionDto) : Prop :=
  ∃ sorted, Sorts UpdateSectionDto.sortOrder body sorted ∧
    List.Forall₂ (fun b d => d.title = b.title ∧ RenumberedFindings b.findings d.findings)
      sorted dtos ∧ dtos.map SectionDto.sortOrder = List.range sorted.length

/-- A response, sent back as a body. -/
def bodyOfFinding (f : FindingDto) : UpdateFindingDto := ⟨f.text, f.severity, f.sortOrder⟩

def bodyOfSection (s : SectionDto) : UpdateSectionDto :=
  ⟨s.title, s.sortOrder, s.findings.map bodyOfFinding⟩

/-- The numbers of a tree are strictly increasing at both levels. -/
structure Numbered (tree : List ReportSection) : Prop where
  sections : tree.Pairwise fun a b => a.sortOrder < b.sortOrder
  findings : ∀ s ∈ tree, s.findings.Pairwise fun a b => a.sortOrder < b.sortOrder

variable {rows tree : List ReportSection} {cfg : ServerConfig} {s s' : Stores}
  {userId jobId : String} {dto : JobDto}

theorem numbered_insertSections (rowId : ℕ → ℕ → String) (report : List ReportSectionInput) :
    Numbered (insertSections rowId report) := by
  refine ⟨mapIdx_increasing ReportSection.sortOrder _ (fun _ _ => rfl) report, fun s hs => ?_⟩
  obtain ⟨i, hi, rfl⟩ := List.mem_mapIdx.mp hs
  exact mapIdx_increasing Finding.sortOrder _ (fun _ _ => rfl) _

theorem returned_self (tree : List ReportSection) : Returned tree tree :=
  ⟨tree, .refl _, List.forall₂_same.mpr fun _ _ => ⟨rfl, rfl, rfl, .refl _⟩⟩

/-- Sorting brings returned rows into the order of the tree. -/
theorem sortSections_returned (h : Returned rows tree) (hn : Numbered tree) :
    List.Forall₂ SameSection (sortSections rows) tree := by
  obtain ⟨sections, hperm, hsame⟩ := h
  have hkeys : sections.map ReportSection.sortOrder = tree.map ReportSection.sortOrder := by
    rw [← List.forall₂_eq_eq_eq, List.forall₂_map_left_iff, List.forall₂_map_right_iff]
    exact hsame.imp fun a b h => h.sortOrder
  have hsorted : sections.Pairwise fun a b => a.sortOrder < b.sortOrder := by
    rw [← List.pairwise_map, hkeys, List.pairwise_map]
    exact hn.sections
  rw [sortSections, insertionSort_of_perm hperm hsorted]
  exact hsame

/-- What a reader makes of returned rows, it makes of the tree. -/
theorem read_returned {γ : Type*} (read : String → String → ℕ → List Finding → γ)
    (h : Returned rows tree) (hn : Numbered tree) :
    (sortSections rows).map (fun s => read s.id s.title s.sortOrder (sortFindings s.findings)) =
      tree.map fun s => read s.id s.title s.sortOrder s.findings := by
  have hsame := sortSections_returned h hn
  have hfindings : ∀ b ∈ tree, ∀ a, SameSection a b → sortFindings a.findings = b.findings :=
    fun b hb a hab => insertionSort_of_perm hab.findings (hn.findings b hb)
  generalize sortSections rows = sorted at hsame
  clear h hn
  induction hsame with
  | nil => rfl
  | cons hab _ ih =>
      rename_i a b _ _ _
      rw [List.map_cons, List.map_cons, ih fun b hb => hfindings b (List.mem_cons_of_mem _ hb),
        hfindings b (List.mem_cons_self) a hab, hab.id, hab.title, hab.sortOrder]

/-- What a worker resumes from. -/
theorem reportOf_returned {rowId : ℕ → ℕ → String} {report : List ReportSectionInput}
    (h : Returned rows (insertSections rowId report)) : reportOf rows = report := by
  have hn := numbered_insertSections rowId report
  have hread : ∀ rows, Returned rows (insertSections rowId report) → reportOf rows =
      (insertSections rowId report).map fun s =>
        (⟨s.title, s.findings.map fun f => ⟨f.text, f.severity⟩⟩ : ReportSectionInput) :=
    fun _ h => read_returned (fun _ title _ findings =>
      (⟨title, findings.map fun (f : Finding) => ⟨f.text, f.severity⟩⟩ : ReportSectionInput)) h hn
  calc reportOf rows
      = reportOf (insertSections rowId report) :=
        (hread rows h).trans (hread _ (returned_self _)).symm
    _ = report := reportOf_insertSections rowId report

/-- What a client reads. -/
theorem dto_returned {rowId : ℕ → ℕ → String} {report : List ReportSectionInput}
    (h : Returned rows (insertSections rowId report)) (job : Job) (url : Option String) :
    (jobToDto { job with sections := rows } url).sections = wireTree rowId report := by
  have hread := read_returned (fun id title sortOrder findings => (⟨id, title, sortOrder,
    findings.map fun f => ⟨f.id, f.text, severityToApi f.severity, f.sortOrder⟩⟩ : SectionDto)) h
      (numbered_insertSections rowId report)
  refine hread.trans ?_
  rw [insertSections, map_mapIdx]
  simp only [insertFindings, map_mapIdx]
  rfl

theorem gets_findOne (h : findOne cfg s userId jobId = .ok dto) : Gets cfg s userId jobId dto := by
  unfold findOne at h
  split at h
  · cases h
  · rename_i job hjob
    cases h
    exact ⟨job, job.sections, hjob, returned_self _, rfl⟩

variable {env : Env} {now : ℕ} {c : UpdateCall} {sections : List UpdateSectionDto}

/-- A PATCH with sections is committed exactly when the job is the user's and the database takes
its label and its texts. -/
theorem patches_iff (hbody : c.dto.sections = .value sections) :
    (∃ s', Patches s env now c s') ↔
      (∃ job, s.findScoped c.userId c.jobId = some job) ∧ c.dto.storable = true := by
  constructor
  · rintro ⟨s', w, hw, -⟩
    have hupdate : replaceWrite s env c sections = .ok (some w) := by
      simpa only [updateWrite, hbody] using hw
    refine ⟨(replaceWrite_eq hupdate).1, ?_⟩
    by_contra hstorable
    obtain ⟨e, he⟩ := updateWrite_refused s env (c := c) (by simpa using hstorable)
    rw [he] at hw
    cases hw
  · rintro ⟨⟨job, hjob⟩, hstorable⟩
    rcases updateWrite_live env hjob hstorable with ⟨-, hnone, -⟩ | ⟨w, hw⟩
    · rw [hbody] at hnone
      cases hnone
    · exact ⟨_, w, hw, rfl⟩

/-- The tree that a committed PATCH leaves. -/
theorem patched_tree (hbody : c.dto.sections = .value sections) (h : Patches s env now c s') :
    ∃ job, s'.findScoped c.userId c.jobId = some job ∧
      job.sections = insertSections env.rowId (toReportInput sections) := by
  obtain ⟨w, hw, rfl⟩ := h
  have hreplace : replaceWrite s env c sections = .ok (some w) := by
    simpa only [updateWrite, hbody] using hw
  obtain ⟨⟨job, hjob⟩, -, label, -, rfl⟩ := replaceWrite_eq hreplace
  obtain ⟨hrow, huser, hlive⟩ := Stores.findScoped_eq_some.mp hjob
  have hscope : job.inScope c.userId = true := by simp [Job.inScope, huser, hlive]
  refine ⟨(Write.replaceReportScoped c.userId label (insertSections env.rowId
    (toReportInput sections))).apply now job, Stores.findScoped_eq_some.mpr ⟨?_, ?_, ?_⟩, ?_⟩
  · exact (Stores.run_row_write now s _ c.jobId).trans (congrArg _ hrow)
  · simpa using huser
  · simpa [Write.apply, hscope] using hlive
  · simp [Write.apply, hscope]

/-- What a GET answers after a committed PATCH. -/
theorem gets_patched (hbody : c.dto.sections = .value sections) (h : Patches s env now c s')
    (hget : Gets cfg s' c.userId c.jobId dto) :
    dto.sections = wireTree env.rowId (toReportInput sections) := by
  obtain ⟨job, hjob, htree⟩ := patched_tree hbody h
  obtain ⟨job', rows, hjob', hrows, rfl⟩ := hget
  rw [hjob] at hjob'
  cases hjob'
  rw [htree] at hrows
  exact dto_returned hrows job _

theorem renumbered_findings (rowId : ℕ → String) (findings : List UpdateFindingDto) :
    RenumberedFindings findings (((findings.insertionSort fun a b => a.sortOrder ≤ b.sortOrder).map
      fun f => (⟨f.text, severityFromApi f.severity⟩ : ReportFindingInput)).mapIdx fun i f =>
        ⟨rowId i, f.text, severityToApi f.severity, i⟩) := by
  refine ⟨_, sorts_insertionSort UpdateFindingDto.sortOrder findings, ?_, ?_⟩
  · apply List.ext_getElem
    · simp
    · intro i h₁ h₂
      simp
  · apply List.ext_getElem
    · simp
    · intro i h₁ h₂
      simp

/-- The rows of a body are its sections, stably sorted and renumbered. -/
theorem renumbered_sections (rowId : ℕ → ℕ → String) (sections : List UpdateSectionDto) :
    RenumberedSections sections (wireTree rowId (toReportInput sections)) := by
  refine ⟨_, sorts_insertionSort UpdateSectionDto.sortOrder sections, ?_, ?_⟩
  · rw [List.forall₂_iff_get]
    refine ⟨by simp [wireTree, toReportInput], fun i h₁ h₂ => ?_⟩
    simp only [wireTree, toReportInput, List.get_eq_getElem, List.getElem_mapIdx,
      List.getElem_map, true_and]
    exact renumbered_findings _ _
  · apply List.ext_getElem
    · simp [wireTree, toReportInput]
    · intro i h₁ h₂
      simp [wireTree]

/-- A report, read and sent back, is the same report. -/
theorem toReportInput_wireTree (rowId : ℕ → ℕ → String) (report : List ReportSectionInput) :
    toReportInput ((wireTree rowId report).map bodyOfSection) = report := by
  have hsections : ((wireTree rowId report).map bodyOfSection).Pairwise fun a b =>
      a.sortOrder ≤ b.sortOrder := by
    rw [List.pairwise_map]
    exact (mapIdx_increasing SectionDto.sortOrder _ (fun _ _ => rfl) report).imp Nat.le_of_lt
  have hfindings : ∀ (rowId : ℕ → String) (findings : List ReportFindingInput),
      ((findings.mapIdx fun i f => (⟨rowId i, f.text, severityToApi f.severity, i⟩ :
        FindingDto)).map bodyOfFinding).Pairwise fun a b => a.sortOrder ≤ b.sortOrder := by
    intro rowId findings
    rw [List.pairwise_map]
    exact (mapIdx_increasing FindingDto.sortOrder _ (fun _ _ => rfl) findings).imp Nat.le_of_lt
  unfold toReportInput
  rw [hsections.insertionSort_eq]
  apply List.ext_getElem
  · simp [wireTree]
  · intro i h₁ h₂
    simp only [wireTree, bodyOfSection, List.getElem_map, List.getElem_mapIdx]
    rw [(hfindings _ _).insertionSort_eq]
    have hsame : ∀ (rowId : ℕ → String) (findings : List ReportFindingInput),
        ((findings.mapIdx fun i f => (⟨rowId i, f.text, severityToApi f.severity, i⟩ :
          FindingDto)).map bodyOfFinding).map (fun f => (⟨f.text, severityFromApi f.severity⟩ :
            ReportFindingInput)) = findings := by
      intro rowId findings
      apply List.ext_getElem
      · simp
      · intro j h₃ h₄
        simp [bodyOfFinding]
    rw [hsame]

/-- The contents of a response do not depend on the row ids. -/
theorem bodyOf_wireTree (rowId rowId' : ℕ → ℕ → String) (report : List ReportSectionInput) :
    (wireTree rowId' report).map bodyOfSection = (wireTree rowId report).map bodyOfSection := by
  apply List.ext_getElem
  · simp [wireTree]
  · intro i h₁ h₂
    simp only [wireTree, bodyOfSection, List.getElem_map, List.getElem_mapIdx,
      UpdateSectionDto.mk.injEq, true_and]
    apply List.ext_getElem
    · simp
    · intro j h₃ h₄
      simp [bodyOfFinding]

/-- Persisting a report and reading it back is faithful: for a worker and for a client, in
whatever order the rows come; after a PATCH; and after a PATCH of what was read. -/
theorem report_round_trip :
    (∀ (rowId : ℕ → ℕ → String) (report : List ReportSectionInput) (rows : List ReportSection)
      (job : Job) (url : Option String), Returned rows (insertSections rowId report) →
        ({ job with sections := rows } : Job).existingReport = report ∧
          (jobToDto { job with sections := rows } url).sections = wireTree rowId report) ∧
    ∀ (cfg : ServerConfig) (s : Stores) (env : Env) (now : ℕ) (c : UpdateCall)
      (sections : List UpdateSectionDto), c.dto.sections = .value sections →
      ((∃ s', Patches s env now c s') ↔
        (∃ job, s.findScoped c.userId c.jobId = some job) ∧ c.dto.storable = true) ∧
      ∀ s', Patches s env now c s' →
        (∃ dto, findOne cfg s' c.userId c.jobId = .ok dto ∧ Gets cfg s' c.userId c.jobId dto) ∧
        ∀ dto, Gets cfg s' c.userId c.jobId dto → RenumberedSections sections dto.sections ∧
          ∀ (env' : Env) (now' : ℕ) (label : JobsService.Field String) (s'' : Stores) (dto' : JobDto),
            Patches s' env' now' { c with dto :=
              { label := label, sections := .value (dto.sections.map bodyOfSection) } } s'' →
            Gets cfg s'' c.userId c.jobId dto' →
              dto'.sections.map bodyOfSection = dto.sections.map bodyOfSection := by
  constructor
  · intro rowId report rows job url hrows
    exact ⟨reportOf_returned hrows, dto_returned hrows job url⟩
  · intro cfg s env now c sections hbody
    refine ⟨patches_iff hbody, fun s' hpatch => ⟨?_, fun dto hget => ?_⟩⟩
    · obtain ⟨job, hjob, -⟩ := patched_tree hbody hpatch
      have hfind : findOne cfg s' c.userId c.jobId = .ok (jobToDto job (maybePdfUrl cfg job)) := by
        simp only [findOne, hjob]
      exact ⟨_, hfind, gets_findOne hfind⟩
    · have hdto := gets_patched hbody hpatch hget
      refine ⟨hdto ▸ renumbered_sections _ _, ?_⟩
      intro env' now' label s'' dto' hpatch' hget'
      have hdto' := gets_patched rfl hpatch' hget'
      rw [hdto', hdto, toReportInput_wireTree]
      exact bodyOf_wireTree _ _ _

/-- The sections of a body, out of order and with a tie. -/
def demoBody : List UpdateSectionDto :=
  [⟨"Roof", 7, [⟨"Vent pipe", .info, 3⟩, ⟨"Leak", .safety, 1⟩]⟩, ⟨"Attic", 2, []⟩, ⟨"Porch", 2, []⟩]

/-- The draft of a job. -/
def demoJob : Job := draft { id := "job-1" } (create "user-1" "Site A" none)

def demoStores : Stores := Stores.empty.run 0 (.insertJob demoJob)

def demoPatch : UpdateCall := ⟨"user-1", "job-1", { sections := .value demoBody }, .commit⟩

theorem report_round_trip_demo : ∃ (s' : Stores) (dto : JobDto), Patches demoStores {} 1 demoPatch s' ∧
    dto.sections.map bodyOfSection = [⟨"Attic", 0, []⟩, ⟨"Porch", 1, []⟩,
      ⟨"Roof", 2, [⟨"Leak", .safety, 0⟩, ⟨"Vent pipe", .info, 1⟩]⟩] ∧
    RenumberedSections demoBody dto.sections := by
  have hjob : demoStores.findScoped "user-1" "job-1" = some demoJob := by decide
  have htrip := report_round_trip.2 ServerRuns.demo demoStores {} 1 demoPatch demoBody rfl
  obtain ⟨s', hpatch⟩ := htrip.1.mpr ⟨⟨_, hjob⟩, by decide⟩
  obtain ⟨⟨dto, -, hget⟩, hread⟩ := htrip.2 s' hpatch
  refine ⟨s', dto, hpatch, ?_, (hread dto hget).1⟩
  rw [gets_patched rfl hpatch hget]
  decide

end FieldNote.ReportPersistence
