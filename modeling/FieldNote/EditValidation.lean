import FieldNote.EditRoundTrip

/-!
# What the editor lets through and what the server takes

The Save button looks at the label alone, and with a smaller set of blanks than the one the
label is trimmed with. Blank titles and findings are dropped, but the editor has no upper
limits, while the server's DTOs have one for every text and every list.
-/
namespace FieldNote.EditValidation
open JobsService JobStore JobSyncService EditRoundTrip

/-- `CharacterSet.whitespaces`: the Unicode category Zs and the tabulator. -/
def whitespaces (c : Char) : Bool :=
  let n := c.toNat
  n = 9 || n = 0x20 || n = 0xA0 || n = 0x1680 || (0x2000 ≤ n && n ≤ 0x200A) || n = 0x202F ||
    n = 0x205F || n = 0x3000

/-- The Save button is disabled. -/
def saveDisabled (isSaving : Bool) (label : String) : Bool :=
  isSaving || String.ofList ((label.toList.dropWhile whitespaces).reverse.dropWhile
    whitespaces).reverse = ""

def nonblank (f : EditableFinding) : Bool := trimmed f.text ≠ ""

/-- The section has a title and a finding that are not blank. -/
def kept (s : EditableSection) : Bool := trimmed s.title ≠ "" && s.findings.any nonblank

/-- The label is not blank, and nothing that is kept is longer than the server allows. -/
structure WithinLimits (label : String) (sections : List EditableSection) : Prop where
  nonempty : trimmed label ≠ ""
  label : JsText.charCount (trimmed label) ≤ 200
  count : (sections.filter kept).length ≤ 100
  titles : ∀ s ∈ sections, kept s = true → JsText.charCount (trimmed s.title) ≤ 200
  findingCounts : ∀ s ∈ sections, kept s = true → (s.findings.filter nonblank).length ≤ 200
  texts : ∀ s ∈ sections, kept s = true → ∀ f ∈ s.findings, nonblank f = true →
    JsText.charCount (trimmed f.text) ≤ 2000

/-- The checks of the DTOs on what a body says. -/
def validSection (s : ReportSectionInput) : Bool :=
  1 ≤ JsText.charCount s.title && JsText.charCount s.title ≤ 200 && s.findings.length ≤ 200 &&
    s.findings.all fun f => 1 ≤ JsText.charCount f.text && JsText.charCount f.text ≤ 2000

def validReport (sections : List ReportSectionInput) : Bool :=
  sections.length ≤ 100 && sections.all validSection

variable {label : String} {sections : List EditableSection}

theorem valid_updateRequest (job : CachedJob) :
    (updateRequest job).valid =
      (1 ≤ JsText.charCount job.label && JsText.charCount job.label ≤ 200 &&
        validReport (reading job.orderedTree)) := by
  simp only [updateRequest, UpdateJobDto.valid, Field.passes, validReport, validSection, reading,
    CachedJob.orderedTree, List.map_map, List.length_map, List.all_map, Function.comp_def,
    UpdateSectionDto.valid, UpdateFindingDto.valid]

/-- What the buffer says of one section. -/
def saidSection (s : EditableSection) : ReportSectionInput :=
  ⟨trimmed s.title, (s.findings.filter nonblank).map fun f =>
    ⟨trimmed f.text, severityFromApi f.severity⟩⟩

theorem saidFindings_eq (s : EditableSection) :
    ((s.findings.map fun f => (⟨trimmed f.text, severityFromApi f.severity⟩ :
      ReportFindingInput)).filter fun f => f.text ≠ "") = (saidSection s).findings := by
  rw [List.filter_map]
  rfl

theorem kept_iff (s : EditableSection) :
    kept s = true ↔ trimmed s.title ≠ "" ∧ (saidSection s).findings ≠ [] := by
  simp [kept, saidSection, List.filter_eq_nil_iff]

theorem normalised_eq (sections : List EditableSection) :
    normalised sections = (sections.filter kept).map saidSection := by
  induction sections with
  | nil => rfl
  | cons s rest ih =>
      have hhead : normalised (s :: rest) =
          (if kept s = true then [saidSection s] else []) ++ normalised rest := by
        unfold normalised
        rw [List.filterMap_cons]
        simp only [saidFindings_eq]
        by_cases hkept : kept s = true
        · rw [if_pos ((kept_iff s).mp hkept), if_pos hkept]
          rfl
        · rw [if_neg (mt (kept_iff s).mpr hkept), if_neg hkept]
          rfl
      rw [hhead, ih]
      by_cases hkept : kept s = true
      · rw [if_pos hkept, List.filter_cons_of_pos hkept]
        rfl
      · rw [if_neg hkept, List.filter_cons_of_neg hkept]
        rfl

theorem charCount_nonblank {f : EditableFinding} (h : nonblank f = true) :
    1 ≤ JsText.charCount (trimmed f.text) :=
  JsText.one_le_charCount.mpr (of_decide_eq_true h)

/-- What a kept section says passes the checks exactly when it keeps to the upper limits. -/
theorem validSection_said {s : EditableSection} (hkept : kept s = true) :
    validSection (saidSection s) = true ↔ JsText.charCount (trimmed s.title) ≤ 200 ∧
      (s.findings.filter nonblank).length ≤ 200 ∧
        ∀ f ∈ s.findings, nonblank f = true → JsText.charCount (trimmed f.text) ≤ 2000 := by
  have htitle : 1 ≤ JsText.charCount (saidSection s).title :=
    JsText.one_le_charCount.mpr ((kept_iff s).mp hkept).1
  have htexts : ((saidSection s).findings.all fun f =>
      1 ≤ JsText.charCount f.text && JsText.charCount f.text ≤ 2000) = true ↔
        ∀ f ∈ s.findings, nonblank f = true → JsText.charCount (trimmed f.text) ≤ 2000 := by
    simp only [saidSection, List.all_map, List.all_eq_true, List.mem_filter, Function.comp_apply,
      Bool.and_eq_true, decide_eq_true_eq]
    constructor
    · intro h f hf hnonblank
      exact (h f ⟨hf, hnonblank⟩).2
    · rintro h f ⟨hf, hnonblank⟩
      exact ⟨charCount_nonblank hnonblank, h f hf hnonblank⟩
  have hcount : (saidSection s).findings.length = (s.findings.filter nonblank).length := by
    rw [saidSection, List.length_map]
  rw [validSection, Bool.and_eq_true, Bool.and_eq_true, Bool.and_eq_true, htexts, hcount,
    decide_eq_true_eq, decide_eq_true_eq, decide_eq_true_eq]
  constructor
  · rintro ⟨⟨⟨-, hshort⟩, hfew⟩, htexts⟩
    exact ⟨hshort, hfew, htexts⟩
  · rintro ⟨hshort, hfew, htexts⟩
    exact ⟨⟨⟨htitle, hshort⟩, hfew⟩, htexts⟩

theorem validReport_normalised (sections : List EditableSection) :
    validReport (normalised sections) = true ↔ (sections.filter kept).length ≤ 100 ∧
      ∀ s ∈ sections, kept s = true → JsText.charCount (trimmed s.title) ≤ 200 ∧
        (s.findings.filter nonblank).length ≤ 200 ∧
          ∀ f ∈ s.findings, nonblank f = true → JsText.charCount (trimmed f.text) ≤ 2000 := by
  rw [normalised_eq, validReport, Bool.and_eq_true, List.length_map, decide_eq_true_eq,
    List.all_map, List.all_eq_true]
  refine and_congr_right fun _ => ?_
  simp only [Function.comp_apply]
  constructor
  · intro h s hs hkept
    have hvalid := h s (List.mem_filter.mpr ⟨hs, hkept⟩)
    rwa [validSection_said hkept] at hvalid
  · intro h s hs
    obtain ⟨hmem, hkept⟩ := List.mem_filter.mp hs
    rw [validSection_said hkept]
    exact h s hmem hkept

/-- The body that `pushEdits` builds of an edit passes the server's checks exactly when the edit
keeps to the limits. -/
theorem valid_edit_iff {job : CachedJob} (hids : UniqueIds job.sections) (label : String)
    (buffer : EditBuffer) (now : ℕ) :
    (updateRequest (job.edit (trimmed label) (toDTOs buffer.sections) now)).valid = true ↔
      WithinLimits label buffer.sections := by
  have htree : (job.edit (trimmed label) (toDTOs buffer.sections) now).orderedTree =
      toDTOs buffer.sections := orderedTree_sync rfl hids (ordered_toDTOs buffer)
  have hlabel : (job.edit (trimmed label) (toDTOs buffer.sections) now).label = trimmed label := rfl
  rw [valid_updateRequest, htree, reading_toDTOs, hlabel, Bool.and_eq_true, Bool.and_eq_true,
    validReport_normalised, decide_eq_true_eq, decide_eq_true_eq, JsText.one_le_charCount]
  constructor
  · rintro ⟨⟨hnonempty, hshort⟩, hcount, hsections⟩
    exact ⟨hnonempty, hshort, hcount, fun s hs hk => (hsections s hs hk).1,
      fun s hs hk => (hsections s hs hk).2.1, fun s hs hk => (hsections s hs hk).2.2⟩
  · intro h
    exact ⟨⟨h.nonempty, h.label⟩, h.count, fun s hs hk =>
      ⟨h.titles s hs hk, h.findingCounts s hs hk, h.texts s hs hk⟩⟩

/-- An edit that the server refuses stays dirty. -/
theorem refused_edit_stays_dirty (cfg : ServerConfig) (env : Env) (s : Stores) {cache : Cache}
    {userId jobId : String} {job : CachedJob} (label : String) (sections : List EditableSection)
    (now : ℕ) (hjob : cache.findUnique jobId = some job)
    (hrefused : (updateRequest (job.edit (trimmed label) (toDTOs sections) now)).valid = false) :
    ∃ job', (save cfg env userId s cache jobId label sections now).2.findUnique jobId = some job' ∧
      job'.syncState = .dirty := by
  have hedited : (applyLocalEdits cache jobId (trimmed label) (toDTOs sections) now).findUnique
      jobId = some (job.edit (trimmed label) (toDTOs sections) now) := by
    simp [applyLocalEdits, hjob]
  have hpatch : patch cfg env s userId jobId
      (updateRequest (job.edit (trimmed label) (toDTOs sections) now)) = none := by
    rw [patch, if_neg (by simp [hrefused])]
  refine ⟨job.edit (trimmed label) (toDTOs sections) now, ?_, rfl⟩
  simp only [save, saveEdits, pushEdits, hedited, hpatch]

/-- A saved edit is one that the server accepts exactly when it keeps to the limits, of which
the Save button sees only whether the label has a character that is no blank. -/
theorem saved_edit_accepted {job : CachedJob} (hids : UniqueIds job.sections) (isSaving : Bool)
    (label : String) (buffer : EditBuffer) (now : ℕ) :
    (saveDisabled isSaving label = false →
      (updateRequest (job.edit (trimmed label) (toDTOs buffer.sections) now)).valid = true) ↔
    (saveDisabled isSaving label = false → WithinLimits label buffer.sections) :=
  imp_congr_right fun _ => valid_edit_iff hids label buffer now

theorem saved_edit_accepted_demo : saveDisabled false " Site C" = false ∧
    (updateRequest (demoJob.edit (trimmed " Site C") (toDTOs demoBuffer.sections) 30)).valid = true := by
  have henabled : saveDisabled false " Site C" = false := by decide
  have hlimits : WithinLimits " Site C" demoBuffer.sections :=
    ⟨by decide, by decide, by decide, by decide, by decide, by decide⟩
  exact ⟨henabled, (saved_edit_accepted demoJob_unique false " Site C" demoBuffer 30).mpr
    (fun _ => hlimits) henabled⟩

/-- An address of so many letters. -/
def longLabel (n : ℕ) : String := String.ofList (List.replicate n 'a')

theorem dropWhile_letters {p : Char → Bool} (h : p 'a' = false) (n : ℕ) :
    (List.replicate n 'a').dropWhile p = List.replicate n 'a' := by
  rw [List.dropWhile_replicate, h]
  rfl

theorem trimmed_longLabel (n : ℕ) : trimmed (longLabel n) = longLabel n := by
  rw [trimmed, longLabel, String.toList_ofList, dropWhile_letters rfl, List.reverse_replicate,
    dropWhile_letters rfl, List.reverse_replicate]

theorem charCount_longLabel (n : ℕ) : JsText.charCount (longLabel n) = n := by
  have hnone : JsText.presentationSequences (List.replicate n 'a') = 0 := by
    induction n with
    | zero => rfl
    | succ n ih =>
        cases n with
        | zero => rfl
        | succ n => exact (Nat.zero_add _).trans ih
  rw [JsText.charCount, longLabel, String.toList_ofList, hnone, String.length_ofList,
    List.length_replicate, Nat.sub_zero]

/-- Save is enabled for a label of letters, whatever its length. -/
theorem longLabel_enabled (n : ℕ) : saveDisabled false (longLabel (n + 1)) = false := by
  rw [saveDisabled, longLabel, String.toList_ofList, dropWhile_letters rfl, List.reverse_replicate,
    dropWhile_letters rfl, List.reverse_replicate, Bool.false_or, decide_eq_false_iff_not,
    ← String.toList_eq_nil_iff, String.toList_ofList]
  simp

/-- The Save button is enabled for a label that is too long, and the server refuses the edit. -/
theorem long_label_refused : ¬ ∀ (job : CachedJob) (isSaving : Bool) (label : String)
    (buffer : EditBuffer) (now : ℕ), UniqueIds job.sections → saveDisabled isSaving label = false →
      (updateRequest (job.edit (trimmed label) (toDTOs buffer.sections) now)).valid = true := by
  intro h
  have hvalid := h demoJob false (longLabel 201) demoBuffer 30 demoJob_unique (longLabel_enabled 200)
  have hlimits := (valid_edit_iff demoJob_unique (longLabel 201) demoBuffer 30).mp hvalid
  have hshort := hlimits.label
  rw [trimmed_longLabel, charCount_longLabel] at hshort
  omega

end FieldNote.EditValidation
