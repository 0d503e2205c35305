import FieldNote.ReportCompiler
import FieldNote.StableSort

/-!
# What normalising a compiled report keeps

An accepted answer is read a second time as plain texts, without the types of the schema, and
the normalised report is compared with that reading: the same findings under the same titles,
ordered by severity. A normalised report is itself an answer that the schema accepts, and
normalising it again changes nothing.
-/
namespace FieldNote.ReportNormalisation
open JsonSchema ReportCompiler

/-- A finding as an answer spells it. -/
structure RawFinding where
  text : String
  severity : String
deriving DecidableEq

structure RawSection where
  title : String
  findings : List RawFinding
deriving DecidableEq

def memberOf (name : String) : Json → Option Json
  | .object members => Json.member name members
  | _ => none

def textAt (name : String) (value : Json) : String :=
  match memberOf name value with
  | some (.string s) => s
  | _ => ""

def itemsAt (name : String) (value : Json) : List Json :=
  match memberOf name value with
  | some (.array items) => items
  | _ => []

def readFinding (value : Json) : RawFinding := ⟨textAt "text" value, textAt "severity" value⟩

def readSection (value : Json) : RawSection :=
  ⟨textAt "title" value, (itemsAt "findings" value).map readFinding⟩

/-- The sections of an answer. -/
def readReport (value : Json) : List RawSection := (itemsAt "sections" value).map readSection

def RawFinding.toJson (f : RawFinding) : Json :=
  .object [("text", .string f.text), ("severity", .string f.severity)]

def RawSection.toJson (s : RawSection) : Json :=
  .object [("title", .string s.title), ("findings", .array (s.findings.map RawFinding.toJson))]

/-- An answer with the given sections. -/
def reportJson (sections : List RawSection) : Json :=
  .object [("sections", .array (sections.map RawSection.toJson))]

def apiName : ApiSeverity → String
  | .info => "info"
  | .maintenance => "maintenance"
  | .repair => "repair"
  | .safety => "safety"

def RawFinding.trimmed (f : RawFinding) : RawFinding := ⟨JsText.trim f.text, f.severity⟩

def RawSection.trimmed (s : RawSection) : RawSection :=
  ⟨JsText.trim s.title, s.findings.map RawFinding.trimmed⟩

/-- A normalised finding with its severity mapped back. -/
def mappedBack (f : ReportFindingInput) : RawFinding :=
  ⟨f.text, apiName (severityToApi f.severity)⟩

def sectionBack (s : ReportSectionInput) : RawSection := ⟨s.title, s.findings.map mappedBack⟩

/-- What a normalised section keeps of the section it comes from. -/
structure Normalised (raw : RawSection) (s : ReportSectionInput) : Prop where
  title : s.title = JsText.trim raw.title
  findings : (s.findings.map mappedBack).Perm (raw.findings.map RawFinding.trimmed)
  ordered : s.findings.Pairwise fun a b => severityRank a.severity ≤ severityRank b.severity
  ties : ∀ severity, (s.findings.filter fun f => f.severity = severity).map mappedBack =
    (raw.findings.filter fun f => f.severity = apiName (severityToApi severity)).map
      RawFinding.trimmed
  titled : JsText.trim s.title ≠ ""
  texts : ∀ f ∈ s.findings, JsText.trim f.text ≠ ""

/-- A checked value as plain texts. -/
def findingView (f : CompiledFinding) : RawFinding := ⟨f.text.value, apiName f.severity⟩

def sectionView (s : CompiledSection) : RawSection :=
  ⟨s.title.value, s.findings.items.map findingView⟩

section Reading
variable {α β γ : Type} {x : Checked α} {y : Checked β} {a : α} {b : β}

theorem both_ok (h : both x y = .ok (a, b)) : x = .ok a ∧ y = .ok b := by
  cases x <;> cases y <;> cases h
  exact ⟨rfl, rfl⟩

theorem map_ok {f : α → β} (h : Except.map f x = .ok b) : ∃ a, x = .ok a ∧ b = f a := by
  cases x with
  | error issues => cases h
  | ok a =>
      cases h
      exact ⟨a, rfl, rfl⟩

theorem boundedText_ok {n : ℕ} {path : Path} {value : Option Json} {text : BoundedText n}
    (h : boundedText n path value = .ok text) :
    ∃ s, value = some (.string s) ∧ text.value = JsText.trim s := by
  unfold boundedText at h
  split at h
  · rename_i s
    split_ifs at h
    cases h
    exact ⟨s, rfl, rfl⟩
  · cases h

theorem oneOf_ok {options : List (String × α)} {path : Path} {value : Option Json}
    (h : oneOf options path value = .ok a) :
    ∃ s, value = some (.string s) ∧ (s, a) ∈ options := by
  unfold oneOf at h
  split at h
  · rename_i s
    split at h
    · rename_i o ho
      cases h
      have hname : o.1 = s := by simpa using List.find?_some ho
      exact ⟨s, rfl, hname ▸ List.mem_of_find?_eq_some ho⟩
    · cases h
  · cases h

/-- What every item is read as, the list is read as. -/
theorem each_ok {check : ℕ → Json → Checked α} {f : α → γ} {g : Json → γ}
    (hitem : ∀ i value a, check i value = .ok a → f a = g value) {i : ℕ} {items : List Json}
    {as : List α} (h : each check i items = .ok as) : as.map f = items.map g := by
  induction items generalizing i as with
  | nil =>
      cases h
      rfl
  | cons item items ih =>
      obtain ⟨⟨a, rest⟩, hboth, rfl⟩ := map_ok h
      obtain ⟨ha, hrest⟩ := both_ok hboth
      rw [List.map_cons, List.map_cons, hitem _ _ _ ha, ih hrest]

theorem arrayOf_ok {n : ℕ} {item : Check α} {f : α → γ} {g : Json → γ}
    (hitem : ∀ path value a, item path (some value) = .ok a → f a = g value) {path : Path}
    {value : Option Json} {as : BoundedList α n} (h : arrayOf n item path value = .ok as) :
    ∃ items, value = some (.array items) ∧ as.items.map f = items.map g := by
  unfold arrayOf at h
  split at h
  · rename_i items
    split at h
    · rename_i as' has
      split_ifs at h
      cases h
      exact ⟨items, rfl, each_ok (fun i value a => hitem _ value a) has⟩
    · split_ifs at h
  · cases h

theorem object_ok {members : (String → Option Json) → Path → Checked α} {path : Path}
    {value : Json} (h : object members path (some value) = .ok a) :
    members (fun name => memberOf name value) path = .ok a := by
  unfold object at h
  split at h
  · rename_i ms he
    cases he
    exact h
  · cases h

end Reading

theorem textAt_eq {name s : String} {value : Json} (h : memberOf name value = some (.string s)) :
    textAt name value = s := by
  simp [textAt, h]

theorem itemsAt_eq {name : String} {items : List Json} {value : Json}
    (h : memberOf name value = some (.array items)) : itemsAt name value = items := by
  simp [itemsAt, h]

theorem apiName_of_mem {s : String} {severity : ApiSeverity} (h : (s, severity) ∈ API_SEVERITIES) :
    apiName severity = s := by
  simp only [API_SEVERITIES, List.mem_cons, Prod.mk.injEq, List.not_mem_nil, or_false] at h
  rcases h with ⟨rfl, rfl⟩ | ⟨rfl, rfl⟩ | ⟨rfl, rfl⟩ | ⟨rfl, rfl⟩ <;> rfl

/-- An accepted finding is the one of the answer, with its text trimmed. -/
theorem finding_read {path : Path} {value : Json} {f : CompiledFinding}
    (h : compiledFindingSchema path (some value) = .ok f) :
    findingView f = (readFinding value).trimmed := by
  obtain ⟨⟨text, severity⟩, hboth, rfl⟩ := map_ok (object_ok h)
  obtain ⟨htext, hseverity⟩ := both_ok hboth
  obtain ⟨s, hs, htrim⟩ := boundedText_ok htext
  obtain ⟨name, hname, hmem⟩ := oneOf_ok hseverity
  simp only [findingView, readFinding, RawFinding.trimmed, textAt_eq hs, textAt_eq hname, htrim,
    apiName_of_mem hmem]

theorem section_read {path : Path} {value : Json} {s : CompiledSection}
    (h : compiledSectionSchema path (some value) = .ok s) :
    sectionView s = (readSection value).trimmed := by
  obtain ⟨⟨title, findings⟩, hboth, rfl⟩ := map_ok (object_ok h)
  obtain ⟨htitle, hfindings⟩ := both_ok hboth
  obtain ⟨t, ht, htrim⟩ := boundedText_ok htitle
  obtain ⟨items, hitems, hmap⟩ := arrayOf_ok (g := fun value => (readFinding value).trimmed)
    (fun path value f => finding_read) hfindings
  simp only [sectionView, readSection, RawSection.trimmed, textAt_eq ht, itemsAt_eq hitems, htrim,
    hmap, List.map_map]
  rfl

/-- An accepted report is the answer with its texts trimmed. -/
theorem report_read {value : Json} {report : CompiledReport} (h : safeParse value = .ok report) :
    report.sections.items.map sectionView = (readReport value).map RawSection.trimmed := by
  have hchecked : compiledReportSchema [] (some value) = .ok report := h
  obtain ⟨sections, hfield, rfl⟩ := map_ok (object_ok hchecked)
  obtain ⟨items, hitems, hmap⟩ := arrayOf_ok (g := fun value => (readSection value).trimmed)
    (fun path value s => section_read) hfield
  rw [hmap, readReport, itemsAt_eq hitems, List.map_map]
  rfl

section Writing
variable {α β : Type} {g : α → Json}

theorem boundedText_value {n : ℕ} (path : Path) (text : BoundedText n) :
    boundedText n path (some (.string text.value)) = .ok text := by
  obtain ⟨value, trimmed, nonempty, bounded⟩ := text
  simp only [boundedText, trimmed]
  rw [dif_neg (Nat.not_lt.mpr nonempty), dif_neg (Nat.not_lt.mpr bounded)]

theorem oneOf_apiName (path : Path) (severity : ApiSeverity) :
    oneOf API_SEVERITIES path (some (.string (apiName severity))) = .ok severity := by
  cases severity <;> rfl

theorem each_written {check : ℕ → Json → Checked α} (hitem : ∀ i a, check i (g a) = .ok a) (i : ℕ)
    (as : List α) : each check i (as.map g) = .ok as := by
  induction as generalizing i with
  | nil => rfl
  | cons a as ih =>
      rw [List.map_cons, each, hitem, ih]
      rfl

theorem arrayOf_written {n : ℕ} {item : Check α} (hitem : ∀ path a, item path (some (g a)) = .ok a)
    (path : Path) (as : BoundedList α n) :
    arrayOf n item path (some (.array (as.items.map g))) = .ok as := by
  have heach : each (fun i value => item (path ++ [.index i]) (some value)) 0 (as.items.map g) =
      .ok as.items := each_written (fun i a => hitem _ a) 0 as.items
  unfold arrayOf
  split
  · rename_i items he
    cases he
    split
    · rename_i as' has
      rw [heach] at has
      cases has
      rw [dif_neg (by simpa using as.bounded)]
    · rename_i issues hissues
      rw [heach] at hissues
      cases hissues
  · rename_i hnot
    exact (hnot _ rfl).elim

theorem object_written (check : (String → Option Json) → Path → Checked α) (path : Path)
    (members : List (String × Json)) :
    object check path (some (.object members)) =
      check (fun name => Json.member name members) path := rfl

theorem field_written {name : String} {members : List (String × Json)} (value : Json)
    (hmember : Json.member name members = some value) (check : Check α) (path : Path) :
    field name check (fun name => Json.member name members) path =
      check (path ++ [.key name]) (some value) := by
  rw [field, hmember]

end Writing

theorem finding_written (path : Path) (f : CompiledFinding) :
    compiledFindingSchema path (some (findingView f).toJson) = .ok f := by
  unfold compiledFindingSchema RawFinding.toJson
  rw [object_written, field_written (.string f.text.value) (by simp [Json.member, findingView]),
    field_written (.string (apiName f.severity)) (by simp [Json.member, findingView]),
    boundedText_value, oneOf_apiName]
  rfl

theorem section_written (path : Path) (s : CompiledSection) :
    compiledSectionSchema path (some (sectionView s).toJson) = .ok s := by
  have hfindings := arrayOf_written (n := 200) finding_written (path ++ [.key "findings"]) s.findings
  unfold compiledSectionSchema RawSection.toJson
  rw [object_written, field_written (.string s.title.value) (by simp [Json.member, sectionView]),
    field_written (.array (s.findings.items.map fun f => (findingView f).toJson))
      (by simp [Json.member, sectionView]), boundedText_value, hfindings]
  rfl

/-- Checked sections, written out, are accepted as they are. -/
theorem report_written (sections : BoundedList CompiledSection 100) :
    safeParse (reportJson (sections.items.map sectionView)) = .ok ⟨sections⟩ := by
  have hsections := arrayOf_written section_written ([] ++ [.key "sections"]) sections
  unfold safeParse compiledReportSchema reportJson
  rw [object_written, field_written (.array (sections.items.map fun s =>
    (sectionView s).toJson)) (by simp [Json.member]), hsections]
  rfl

def severityKey (f : CompiledFinding) : ℕ := severityRank (severityFromApi f.severity)

/-- A checked section with its findings ordered. -/
def normalForm (s : CompiledSection) : CompiledSection where
  title := s.title
  findings := ⟨s.findings.items.insertionSort fun a b => severityKey a ≤ severityKey b, by
    rw [List.length_insertionSort]
    exact s.findings.bounded⟩

def plainFinding (f : CompiledFinding) : ReportFindingInput :=
  ⟨f.text.value, severityFromApi f.severity⟩

def plainSection (s : CompiledSection) : ReportSectionInput :=
  ⟨s.title.value, s.findings.items.map plainFinding⟩

/-- The sections that a report keeps, in normal form. -/
def normalForms (sections : List CompiledSection) : List CompiledSection :=
  (sections.filter fun s => s.findings.items ≠ []).map normalForm

theorem normalizeFindings_plain (findings : List CompiledFinding) :
    normalizeFindings findings =
      (findings.insertionSort fun a b => severityKey a ≤ severityKey b).map plainFinding := by
  rw [normalizeFindings_eq, StableSort.map_insertionSort severityKey
    (fun f : ReportFindingInput => severityRank f.severity) plainFinding fun f => rfl]
  rfl

theorem normalize_plain (sections : List CompiledSection) :
    normalize sections = (normalForms sections).map plainSection := by
  rw [normalize_eq, normalForms, List.map_map]
  refine List.map_congr_left fun s _ => ?_
  rw [normalizeFindings_plain]
  rfl

theorem normalForm_nonempty {s : CompiledSection} (h : s.findings.items ≠ []) :
    (normalForm s).findings.items ≠ [] := by
  intro hnil
  have hlength := congrArg List.length hnil
  rw [normalForm, List.length_insertionSort] at hlength
  exact h (List.length_eq_zero_iff.mp hlength)

theorem normalForm_normalForm (s : CompiledSection) : normalForm (normalForm s) = normalForm s := by
  have hsorted := StableSort.pairwise_insertionSort severityKey s.findings.items
  simp only [normalForm, hsorted.insertionSort_eq]

/-- Sections in normal form are kept as they are. -/
theorem normalForms_normalForms (sections : List CompiledSection) :
    normalForms (normalForms sections) = normalForms sections := by
  have hkept : (normalForms sections).filter (fun s => s.findings.items ≠ []) =
      normalForms sections := by
    refine List.filter_eq_self.mpr fun s hs => ?_
    obtain ⟨s₀, hs₀, rfl⟩ := List.mem_map.mp hs
    exact decide_eq_true (normalForm_nonempty (of_decide_eq_true (List.mem_filter.mp hs₀).2))
  conv_lhs => rw [normalForms, hkept, normalForms, List.map_map]
  refine List.map_congr_left fun s _ => ?_
  exact normalForm_normalForm s

theorem mappedBack_plain (f : CompiledFinding) : mappedBack (plainFinding f) = findingView f := by
  simp [mappedBack, plainFinding, findingView, severityToApi_fromApi]

theorem sectionBack_plain (s : CompiledSection) : sectionBack (plainSection s) = sectionView s := by
  simp [sectionBack, plainSection, sectionView, mappedBack_plain]

theorem severityFromApi_bijective : Function.Bijective severityFromApi :=
  ⟨Function.LeftInverse.injective severityToApi_fromApi,
    Function.RightInverse.surjective severityFromApi_toApi⟩

theorem severityKey_eq_iff (f : CompiledFinding) (severity : Severity) :
    severityKey f = severityRank severity ↔ severityFromApi f.severity = severity := by
  unfold severityKey
  cases f.severity <;> cases severity <;> decide

theorem apiName_eq_iff (f : CompiledFinding) (severity : Severity) :
    apiName f.severity = apiName (severityToApi severity) ↔
      severityFromApi f.severity = severity := by
  cases f.severity <;> cases severity <;> decide

/-- Findings of one severity stay in the order of the answer. -/
theorem ties_kept {raw : RawSection} {s : CompiledSection} (h : sectionView s = raw.trimmed)
    (severity : Severity) :
    ((plainSection (normalForm s)).findings.filter fun f => f.severity = severity).map mappedBack =
      (raw.findings.filter fun f => f.severity = apiName (severityToApi severity)).map
        RawFinding.trimmed := by
  have hstable := StableSort.filter_insertionSort severityKey s.findings.items (severityRank severity)
  have hsorted : (plainSection (normalForm s)).findings.filter (fun f => f.severity = severity) =
      ((normalForm s).findings.items.filter fun f => severityKey f = severityRank severity).map
        plainFinding := by
    rw [plainSection, List.filter_map]
    refine congrArg _ (List.filter_congr fun f _ => ?_)
    exact decide_eq_decide.mpr (severityKey_eq_iff f severity).symm
  have hview : (s.findings.items.filter fun f => severityKey f = severityRank severity).map
      findingView = (s.findings.items.map findingView).filter fun f =>
        f.severity = apiName (severityToApi severity) := by
    rw [List.filter_map]
    refine congrArg _ (List.filter_congr fun f _ => ?_)
    exact decide_eq_decide.mpr ((severityKey_eq_iff f severity).trans (apiName_eq_iff f severity).symm)
  calc ((plainSection (normalForm s)).findings.filter fun f => f.severity = severity).map mappedBack
      = ((normalForm s).findings.items.filter fun f =>
          severityKey f = severityRank severity).map findingView := by
        rw [hsorted, List.map_map]
        exact List.map_congr_left fun f _ => mappedBack_plain f
    _ = (s.findings.items.map findingView).filter fun f =>
          f.severity = apiName (severityToApi severity) := by
        rw [← hview]
        exact congrArg _ hstable
    _ = _ := by
        rw [(RawSection.mk.inj h).2, List.filter_map]
        rfl

/-- A section of the answer and the section it becomes. -/
theorem section_normalised {raw : RawSection} {s : CompiledSection}
    (h : sectionView s = raw.trimmed) : Normalised raw (plainSection (normalForm s)) := by
  obtain ⟨htitle, hfindings⟩ := RawSection.mk.inj h
  have hsorts := StableSort.sorts_insertionSort severityKey s.findings.items
  constructor
  · exact htitle
  · have hback : (plainSection (normalForm s)).findings.map mappedBack =
        (normalForm s).findings.items.map findingView := by
      rw [plainSection, List.map_map]
      exact List.map_congr_left fun f _ => mappedBack_plain f
    rw [hback, ← hfindings]
    exact hsorts.perm.map findingView
  · exact List.pairwise_map.mpr hsorts.sorted
  · exact ties_kept h
  · exact trim_ne_empty s.title
  · intro f hf
    obtain ⟨f₀, -, rfl⟩ := List.mem_map.mp hf
    exact trim_ne_empty f₀.text

/-- Sections without findings are dropped on both sides. -/
theorem sections_normalised {raws : List RawSection} {sections : List CompiledSection}
    (h : sections.map sectionView = raws.map RawSection.trimmed) :
    List.Forall₂ Normalised (raws.filter fun s => s.findings ≠ []) (normalize sections) := by
  have hkept : (sections.filter fun s => s.findings.items ≠ []).map sectionView =
      (raws.filter fun s => s.findings ≠ []).map RawSection.trimmed := by
    have hfiltered := congrArg (List.filter fun s : RawSection => decide (s.findings ≠ [])) h
    rw [List.filter_map, List.filter_map] at hfiltered
    have hleft : ((fun s : RawSection => decide (s.findings ≠ [])) ∘ sectionView) =
        fun s => decide (s.findings.items ≠ []) := by
      funext s
      simp [sectionView]
    have hright : ((fun s : RawSection => decide (s.findings ≠ [])) ∘ RawSection.trimmed) =
        fun s => decide (s.findings ≠ []) := by
      funext s
      simp [RawSection.trimmed]
    rwa [hleft, hright] at hfiltered
  rw [normalize_plain, normalForms, List.map_map, List.forall₂_map_right_iff]
  have hsame : List.Forall₂ (· = ·) ((raws.filter fun s => s.findings ≠ []).map RawSection.trimmed)
      ((sections.filter fun s => s.findings.items ≠ []).map sectionView) := by
    rw [List.forall₂_eq_eq_eq]
    exact hkept.symm
  rw [List.forall₂_map_left_iff, List.forall₂_map_right_iff] at hsame
  exact hsame.imp fun raw s hview => section_normalised hview.symm

/-- A normalised report is an answer that is accepted and normalised to itself. -/
theorem normalized_again (sections : BoundedList CompiledSection 100) :
    ∃ again, safeParse (reportJson ((normalize sections.items).map sectionBack)) = .ok again ∧
      normalize again.sections.items = normalize sections.items := by
  have hbound : (normalForms sections.items).length ≤ 100 := by
    rw [normalForms, List.length_map]
    exact (List.length_filter_le _ _).trans sections.bounded
  refine ⟨⟨⟨normalForms sections.items, hbound⟩⟩, ?_, ?_⟩
  · have hback : (normalize sections.items).map sectionBack =
        (normalForms sections.items).map sectionView := by
      rw [normalize_plain, List.map_map]
      exact List.map_congr_left fun s _ => sectionBack_plain s
    rw [hback]
    exact report_written ⟨normalForms sections.items, hbound⟩
  · rw [normalize_plain, normalForms_normalForms, ← normalize_plain]

/-- Normalising an accepted answer keeps exactly its sections that have findings, in their
order, and in each the same findings, ordered by severity and by their place in the answer; a
normalised report stays as it is. -/
theorem report_normalised {value : Json} {report : CompiledReport}
    (h : safeParse value = .ok report) :
    List.Forall₂ Normalised ((readReport value).filter fun s => s.findings ≠ [])
        (normalize report.sections.items) ∧
      Function.Bijective severityFromApi ∧
      ∃ again, safeParse (reportJson ((normalize report.sections.items).map sectionBack)) =
          .ok again ∧ normalize again.sections.items = normalize report.sections.items :=
  ⟨sections_normalised (report_read h), severityFromApi_bijective, normalized_again _⟩

/-- Two sections, one of them without findings. -/
def demoAnswer : Json := reportJson
  [⟨" Roof ", [⟨"Vent pipe", "info"⟩, ⟨" Leak", "safety"⟩, ⟨"Flashing", "info"⟩]⟩, ⟨"Attic", []⟩]

theorem report_normalised_demo : ∃ report, safeParse demoAnswer = .ok report ∧
    normalize report.sections.items =
      [⟨"Roof", [⟨"Leak", .SAFETY⟩, ⟨"Vent pipe", .INFO⟩, ⟨"Flashing", .INFO⟩]⟩] ∧
    List.Forall₂ Normalised ((readReport demoAnswer).filter fun s => s.findings ≠ [])
      (normalize report.sections.items) := by
  have hparsed : (safeParse demoAnswer).toOption.map
      (fun report : CompiledReport => normalize report.sections.items) = some
        [⟨"Roof", [⟨"Leak", .SAFETY⟩, ⟨"Vent pipe", .INFO⟩, ⟨"Flashing", .INFO⟩]⟩] := by
    decide
  obtain ⟨report, hoption, hnormal⟩ := Option.map_eq_some_iff.mp hparsed
  have hreport : safeParse demoAnswer = .ok report := by
    generalize safeParse demoAnswer = parsed at hoption
    cases parsed with
    | error issues => cases hoption
    | ok report' =>
        cases hoption
        rfl
  exact ⟨report, hreport, hnormal, (report_normalised hreport).1⟩

end FieldNote.ReportNormalisation
