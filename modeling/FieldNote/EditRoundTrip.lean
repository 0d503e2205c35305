import FieldNote.QuietSync

/-!
# An edit from the editor's buffer to both reports

`ReportEditView` trims its buffer, drops what is empty and numbers the rest with gaps; the
device reconciles its tree with it and pushes that, the server sorts, renumbers and answers,
and the device reconciles with the answer unless its own edit is later by its clock. Each of
these steps keeps the reading of the buffer.
-/
namespace FieldNote.EditRoundTrip
open JobsService JobStore JobSyncService

structure EditableFinding where
  id : String
  text : String
  severity : ApiSeverity
deriving DecidableEq, Repr

structure EditableSection where
  id : String
  title : String
  findings : List EditableFinding
deriving DecidableEq, Repr

/-- The editor's buffer; the ids are those of the models, or new. -/
structure EditBuffer where
  sections : List EditableSection
  ids : (sections.map EditableSection.id).Nodup
  findingIds : ∀ s ∈ sections, (s.findings.map EditableFinding.id).Nodup

/-- `CharacterSet.whitespacesAndNewlines`: the Unicode categories Z, the tabulator, the line
feed to the carriage return, and the next line. -/
def whitespacesAndNewlines (c : Char) : Bool :=
  let n := c.toNat
  (9 ≤ n && n ≤ 13) || n = 0x20 || n = 0x85 || n = 0xA0 || n = 0x1680 ||
    (0x2000 ≤ n && n ≤ 0x200A) || n = 0x2028 || n = 0x2029 || n = 0x202F || n = 0x205F ||
    n = 0x3000

def trimmed (s : String) : String :=
  String.ofList ((s.toList.dropWhile whitespacesAndNewlines).reverse.dropWhile
    whitespacesAndNewlines).reverse

def findingDto (f : EditableFinding × ℕ) : Option FindingDto :=
  if trimmed f.1.text = "" then none
  else some ⟨f.1.id, trimmed f.1.text, f.1.severity, f.2⟩

def sectionDto (s : EditableSection × ℕ) : Option SectionDto :=
  if trimmed s.1.title = "" then none
  else
    let findings := s.1.findings.zipIdx.filterMap findingDto
    if findings = [] then none else some ⟨s.1.id, trimmed s.1.title, s.2, findings⟩

/-- `toDTOs`: the place in the buffer is the `sortOrder`. -/
def toDTOs (sections : List EditableSection) : List SectionDto :=
  sections.zipIdx.filterMap sectionDto

/-- The body of `save`, when nothing else runs. -/
def save (cfg : ServerConfig) (env : Env) (userId : String) (s : Stores) (cache : Cache)
    (jobId label : String) (sections : List EditableSection) (now : ℕ) : Stores × Cache :=
  saveEdits cfg env userId s cache jobId (trimmed label) (toDTOs sections) now

/-- What the buffer says: the trimmed findings and sections that are not empty. -/
def normalised (sections : List EditableSection) : List ReportSectionInput :=
  sections.filterMap fun s =>
    let findings := (s.findings.map fun f =>
      (⟨trimmed f.text, severityFromApi f.severity⟩ : ReportFindingInput)).filter fun f =>
        f.text ≠ ""
    if trimmed s.title ≠ "" ∧ findings ≠ [] then some ⟨trimmed s.title, findings⟩ else none

/-- An element and its successors keep a relation through a filter that sees their places. -/
theorem pairwise_filterMap_zipIdx {α β : Type} {Q : α → α → Prop} {R : β → β → Prop}
    {g : α × ℕ → Option β} {xs : List α} (hxs : xs.Pairwise Q)
    (h : ∀ a i b a' i' b', Q a a' → i < i' → g (a, i) = some b → g (a', i') = some b' → R b b') :
    (xs.zipIdx.filterMap g).Pairwise R := by
  have hplaces : xs.zipIdx.Pairwise fun p q => p.2 < q.2 := by
    rw [← List.pairwise_map (f := Prod.snd), List.zipIdx_map_snd]
    exact List.pairwise_lt_range'
  have helements : xs.zipIdx.Pairwise fun p q => Q p.1 q.1 := by
    rw [← List.pairwise_map (f := Prod.fst), List.zipIdx_map_fst]
    exact hxs
  rw [List.pairwise_filterMap]
  apply (hplaces.and helements).imp
  intro p q hpq b hb b' hb'
  exact h p.1 p.2 b q.1 q.2 b' hpq.2 hpq.1 hb hb'

/-- A filter that does not look at the places. -/
theorem filterMap_zipIdx {α β : Type} {g : α × ℕ → Option β} {f : α → Option β}
    (h : ∀ a i, g (a, i) = f a) (xs : List α) : xs.zipIdx.filterMap g = xs.filterMap f := by
  have hfst : g = f ∘ Prod.fst := by
    funext p
    exact h p.1 p.2
  rw [hfst, ← List.filterMap_map, List.zipIdx_map_fst]

theorem findingDto_eq_some {f : EditableFinding} {i : ℕ} {dto : FindingDto}
    (h : findingDto (f, i) = some dto) : dto = ⟨f.id, trimmed f.text, f.severity, i⟩ := by
  unfold findingDto at h
  split_ifs at h
  cases h
  rfl

theorem sectionDto_eq_some {s : EditableSection} {i : ℕ} {dto : SectionDto}
    (h : sectionDto (s, i) = some dto) :
    dto = ⟨s.id, trimmed s.title, i, s.findings.zipIdx.filterMap findingDto⟩ := by
  unfold sectionDto at h
  dsimp only at h
  split_ifs at h
  cases h
  rfl

theorem nodup_findingDtos {findings : List EditableFinding}
    (h : (findings.map EditableFinding.id).Nodup) :
    ((findings.zipIdx.filterMap findingDto).map FindingDto.id).Nodup := by
  rw [List.Nodup, List.pairwise_map]
  apply pairwise_filterMap_zipIdx (List.pairwise_map.mp h)
  intro a i b a' i' b' hne _ hb hb'
  rw [findingDto_eq_some hb, findingDto_eq_some hb']
  exact hne

theorem ordered_findingDtos (findings : List EditableFinding) :
    (findings.zipIdx.filterMap findingDto).Pairwise fun a b => a.sortOrder < b.sortOrder := by
  apply pairwise_filterMap_zipIdx (List.pairwise_of_forall (R := fun _ _ => True) (by simp))
  intro a i b a' i' b' _ hlt hb hb'
  rw [findingDto_eq_some hb, findingDto_eq_some hb']
  exact hlt

theorem ordered_toDTOs (buffer : EditBuffer) : Ordered (toDTOs buffer.sections) := by
  have hmem : ∀ dto ∈ toDTOs buffer.sections, ∃ s ∈ buffer.sections, ∃ i, sectionDto (s, i) = some dto := by
    intro dto hdto
    obtain ⟨p, hp, hdto⟩ := List.mem_filterMap.mp hdto
    exact ⟨p.1, List.fst_mem_of_mem_zipIdx hp, p.2, hdto⟩
  constructor
  case order =>
    apply pairwise_filterMap_zipIdx (List.pairwise_of_forall (R := fun _ _ => True) (by simp))
    intro a i b a' i' b' _ hlt hb hb'
    rw [sectionDto_eq_some hb, sectionDto_eq_some hb']
    exact hlt
  case findingOrder =>
    intro dto hdto
    obtain ⟨s, -, i, h⟩ := hmem dto hdto
    rw [sectionDto_eq_some h]
    exact ordered_findingDtos s.findings
  case toUniqueIds =>
    constructor
    · rw [List.Nodup, List.pairwise_map]
      apply pairwise_filterMap_zipIdx (List.pairwise_map.mp buffer.ids)
      intro a i b a' i' b' hne _ hb hb'
      rw [sectionDto_eq_some hb, sectionDto_eq_some hb']
      exact hne
    · intro dto hdto
      obtain ⟨s, hs, i, h⟩ := hmem dto hdto
      rw [sectionDto_eq_some h]
      exact nodup_findingDtos (buffer.findingIds s hs)

theorem findings_said (findings : List EditableFinding) :
    (findings.zipIdx.filterMap findingDto).map
      (fun f => (⟨f.text, severityFromApi f.severity⟩ : ReportFindingInput)) =
    (findings.map fun f => ⟨trimmed f.text, severityFromApi f.severity⟩).filter fun f =>
      f.text ≠ "" := by
  rw [List.map_filterMap, List.filter_map, ← List.filterMap_eq_map, List.filterMap_filter]
  apply filterMap_zipIdx
  intro f i
  by_cases hempty : trimmed f.text = "" <;> simp [findingDto, hempty]

/-- The DTOs say what the buffer says. -/
theorem reading_toDTOs (sections : List EditableSection) :
    reading (toDTOs sections) = normalised sections := by
  rw [reading, toDTOs, List.map_filterMap, normalised]
  apply filterMap_zipIdx
  intro s i
  have hsaid := findings_said s.findings
  have hempty : s.findings.zipIdx.filterMap findingDto = [] ↔
      (s.findings.map fun f =>
        (⟨trimmed f.text, severityFromApi f.severity⟩ : ReportFindingInput)).filter
          (fun f => f.text ≠ "") = [] := by
    rw [← hsaid, List.map_eq_nil_iff]
  by_cases htitle : trimmed s.title = ""
  · simp [sectionDto, htitle]
  · by_cases hnone : s.findings.zipIdx.filterMap findingDto = []
    · simp only [sectionDto, htitle, hnone, hempty.mp hnone]
      simp
    · have hsome := (not_congr hempty).mp hnone
      simp only [sectionDto, htitle, hnone, if_false, Option.map_some, hsaid]
      rw [if_pos ⟨htitle, hsome⟩]

variable {env : Env} {s : Stores} {cache : Cache} {userId jobId : String} {job : CachedJob}

/-- Whether the response is adopted or refused, the cached job reads as the pushed one. -/
theorem received_reads {edited : CachedJob} {copy : JobDto} (hids : UniqueIds edited.sections)
    (hdto : Ordered copy.sections) (hlabel : copy.label = edited.label)
    (hreading : reading copy.sections = reading edited.orderedTree) :
    (edited.adopt copy).label = edited.label ∧
      reading (edited.adopt copy).orderedTree = reading edited.orderedTree := by
  cases hwins : edited.localWins copy with
  | true =>
      have hkept : (edited.adopt copy).orderedTree = edited.orderedTree := by
        simp [CachedJob.adopt, CachedJob.orderedTree, CachedJob.orderedSections, hwins]
      refine ⟨?_, by rw [hkept]⟩
      simp [CachedJob.adopt, hwins]
  | false =>
      have hmirrors := (mirrors_adopt hids hdto).mpr hwins
      exact ⟨hmirrors.label.trans hlabel, by rw [hmirrors.tree, hreading]⟩

/-- After an edit whose PATCH succeeds, the report that a GET reads and the cached one say what
the buffer says, under the trimmed label, whatever the two clocks are. -/
theorem edit_round_trip (cfg : ServerConfig) (hrows : env.FreshRows) (label : String)
    (buffer : EditBuffer) (now : ℕ) (hjob : cache.findUnique jobId = some job)
    (hids : UniqueIds job.sections)
    (hpatch : (patch cfg env s userId jobId
      (updateRequest (job.edit (trimmed label) (toDTOs buffer.sections) now))).isSome) :
    (∃ dto, findOne cfg (save cfg env userId s cache jobId label buffer.sections now).1 userId
        jobId = .ok dto ∧ dto.label = trimmed label ∧
          reading dto.sections = normalised buffer.sections) ∧
      ∃ job', (save cfg env userId s cache jobId label buffer.sections now).2.findUnique jobId =
        some job' ∧ job'.label = trimmed label ∧
          reading job'.orderedTree = normalised buffer.sections := by
  obtain ⟨⟨s', copy⟩, hpatch⟩ := Option.isSome_iff_exists.mp hpatch
  obtain ⟨hid, hlabel, -, hsections, hread⟩ := push_spec hpatch
  have hedited : (applyLocalEdits cache jobId (trimmed label) (toDTOs buffer.sections)
      now).findUnique jobId = some (job.edit (trimmed label) (toDTOs buffer.sections) now) := by
    simp [applyLocalEdits, hjob]
  have hsave : save cfg env userId s cache jobId label buffer.sections now =
      (s', upsert (applyLocalEdits cache jobId (trimmed label) (toDTOs buffer.sections) now)
        copy) := by
    simp [save, saveEdits, pushEdits, hedited, hpatch]
  have htree : (job.edit (trimmed label) (toDTOs buffer.sections) now).orderedTree =
      toDTOs buffer.sections := orderedTree_sync rfl hids (ordered_toDTOs buffer)
  have hcopy : reading copy.sections = normalised buffer.sections := by
    rw [hsections, reading_wireTree, htree, reading_toDTOs]
  have hdto : Ordered copy.sections := hsections ▸ ordered_wireTree hrows _
  have hkept := received_reads (hids.syncSections (toDTOs buffer.sections)) hdto hlabel
    (by rw [hcopy, htree, reading_toDTOs])
  rw [hsave]
  refine ⟨⟨copy, hread, hlabel, hcopy⟩,
    (job.edit (trimmed label) (toDTOs buffer.sections) now).adopt copy, ?_, hkept.1, ?_⟩
  · simp [findUnique_upsert, hid, hedited]
  · rw [hkept.2, htree, reading_toDTOs]

def demoBuffer : EditBuffer where
  sections := [⟨"t", "Attic", []⟩,
    ⟨"s", " Roof\n", [⟨"g", "  ", .info⟩, ⟨"f", "Leak ", .safety⟩]⟩]
  ids := by decide
  findingIds := by decide

/-- The device's clock is ahead of the server's, so the device keeps its own tree. -/
theorem edit_round_trip_demo :
    (∃ dto, findOne ServerRuns.demo (save ServerRuns.demo (demoEnv 20) "user-1" demoStores demoCache
        "job-1" " Site C" demoBuffer.sections 30).1 "user-1" "job-1" = .ok dto ∧
          dto.label = trimmed " Site C" ∧ reading dto.sections = normalised demoBuffer.sections) ∧
      ∃ job', (save ServerRuns.demo (demoEnv 20) "user-1" demoStores demoCache "job-1" " Site C"
        demoBuffer.sections 30).2.findUnique "job-1" = some job' ∧
          job'.label = trimmed " Site C" ∧
            reading job'.orderedTree = normalised demoBuffer.sections :=
  edit_round_trip ServerRuns.demo (demoEnv_fresh 20) " Site C" demoBuffer 30 demoJob_cached
    demoJob_unique (by decide)

example : normalised demoBuffer.sections = [⟨"Roof", [⟨"Leak", .SAFETY⟩]⟩] := by decide

end FieldNote.EditRoundTrip
