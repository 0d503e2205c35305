import FieldNote.ReportNormalisation
import FieldNote.SchemaKeywords

/-!
# The tool's schema against the service's own

The model answers under `reportToolInputSchema`, and its answer is then parsed by
`compiledReportSchema`. The two agree on the members of every object, on the types and on the
severities. The limits on texts and arrays stand in the second alone, so an answer may keep
to the tool's schema and still be refused.
-/
namespace FieldNote.ToolSchema
open JsonSchema ReportCompiler ReportNormalisation
open Schema (Closed)

/-- The schema of a finding in the tool's parameters. -/
def toolFinding : Schema :=
  .object false ["text", "severity"]
    [("text", .string none), ("severity", .string (some (API_SEVERITIES.map Prod.fst)))]

def toolSection : Schema :=
  .object false ["title", "findings"]
    [("title", .string none), ("findings", .array toolFinding)]

def reportToolInputSchema : Schema :=
  .object false ["sections"] [("sections", .array toolSection)]

/-- The value validates against the schema that the model is given. -/
def Conforms (value : Json) : Prop := reportToolInputSchema.valid value = true

instance (value : Json) : Decidable (Conforms value) := inferInstanceAs (Decidable (_ = true))

/-- `compiledReportSchema` accepts the value. -/
def Accepted (value : Json) : Prop := ∃ report, safeParse value = .ok report

/-- No object of the report has a member that `compiledReportSchema` does not read. -/
def NoExtra (value : Json) : Prop :=
  Closed ["sections"] value ∧ ∀ s ∈ itemsAt "sections" value,
    Closed ["title", "findings"] s ∧
      ∀ f ∈ itemsAt "findings" s, Closed ["text", "severity"] f

/-- The trimmed text of a member has between one and `n` code units. -/
def TextFits (n : ℕ) (name : String) (value : Json) : Prop :=
  1 ≤ JsText.length (JsText.trim (textAt name value)) ∧
    JsText.length (JsText.trim (textAt name value)) ≤ n

instance (n : ℕ) (name : String) (value : Json) : Decidable (TextFits n name value) :=
  inferInstanceAs (Decidable (_ ∧ _))

/-- At most 100 sections with at most 200 findings each, no blank title or text, and none
above 200 or 2000 code units. -/
def WithinLimits (value : Json) : Prop :=
  (itemsAt "sections" value).length ≤ 100 ∧ ∀ s ∈ itemsAt "sections" value,
    TextFits 200 "title" s ∧ (itemsAt "findings" s).length ≤ 200 ∧
      ∀ f ∈ itemsAt "findings" s, TextFits 2000 "text" f

/-- On one value the two schemas refine each other as they should. -/
def Aligned (value : Json) : Prop :=
  (Conforms value → Accepted value) ∧ (NoExtra value → Accepted value → Conforms value)

section Checks

variable {α β : Type}

theorem map_accepts {f : α → β} {x : Checked α} :
    (∃ b, Except.map f x = .ok b) ↔ ∃ a, x = .ok a := by
  cases x <;> simp [Except.map]

theorem both_accepts {x : Checked α} {y : Checked β} :
    (∃ p, both x y = .ok p) ↔ (∃ a, x = .ok a) ∧ ∃ b, y = .ok b := by
  cases x <;> cases y <;> simp [both]

theorem boundedText_accepts {n : ℕ} {path : Path} {value : Option Json} :
    (∃ text, boundedText n path value = .ok text) ↔ ∃ s, value = some (.string s) ∧
      1 ≤ JsText.length (JsText.trim s) ∧ JsText.length (JsText.trim s) ≤ n := by
  unfold boundedText
  split
  · rename_i s
    split_ifs with hmin hmax
    · simp
      omega
    · simp
      omega
    · simp
      omega
  · rename_i hstring
    simp only [reduceCtorEq, exists_false, false_iff]
    rintro ⟨s, rfl, -⟩
    exact hstring s rfl

theorem oneOf_accepts {options : List (String × α)} {path : Path} {value : Option Json} :
    (∃ a, oneOf options path value = .ok a) ↔
      ∃ s ∈ options.map Prod.fst, value = some (.string s) := by
  unfold oneOf
  split
  · rename_i s
    cases hfind : options.find? fun o => o.1 = s with
    | none =>
        have hnone : ∀ o ∈ options, o.1 ≠ s := by simpa using hfind
        simpa using fun a ha => hnone _ ha rfl
    | some o =>
        have hname : o.1 = s := by simpa using List.find?_some hfind
        have hmem : o ∈ options := List.mem_of_find?_eq_some hfind
        simpa using ⟨o.2, by rwa [← hname]⟩
  · rename_i hstring
    simp only [reduceCtorEq, exists_false, false_iff]
    rintro ⟨s, -, rfl⟩
    exact hstring s rfl

theorem each_accepts {check : ℕ → Json → Checked α} {P : Json → Prop}
    (hitem : ∀ i value, (∃ a, check i value = .ok a) ↔ P value) (i : ℕ) (items : List Json) :
    (∃ as, each check i items = .ok as) ↔ ∀ item ∈ items, P item := by
  induction items generalizing i with
  | nil => simp [each]
  | cons item items ih =>
      rw [each, map_accepts, both_accepts, hitem, ih]
      simp

theorem arrayOf_accepts {n : ℕ} {item : Check α} {P : Json → Prop}
    (hitem : ∀ path value, (∃ a, item path (some value) = .ok a) ↔ P value) {path : Path}
    {value : Option Json} :
    (∃ as, arrayOf n item path value = .ok as) ↔
      ∃ items, value = some (.array items) ∧ items.length ≤ n ∧ ∀ v ∈ items, P v := by
  unfold arrayOf
  split
  · rename_i items
    have heach := each_accepts (fun i value => hitem (path ++ [.index i]) value) 0 items
    split
    · rename_i as has
      have hall : ∀ v ∈ items, P v := heach.mp ⟨as, has⟩
      split_ifs with hmax
      · simp [hmax]
      · simpa using ⟨Nat.le_of_not_lt hmax, hall⟩
    · rename_i issues hissues
      have hnot : ¬ ∀ v ∈ items, P v := by
        intro hall
        obtain ⟨as, has⟩ := heach.mpr hall
        rw [hissues] at has
        cases has
      split_ifs <;> simpa using fun _ => by simpa using hnot
  · rename_i harray
    simp only [reduceCtorEq, exists_false, false_iff]
    rintro ⟨items, rfl, -⟩
    exact harray items rfl

theorem object_accepts {members : (String → Option Json) → Path → Checked α} {path : Path}
    {value : Json} :
    (∃ a, JsonSchema.object members path (some value) = .ok a) ↔ ∃ ms, value = .object ms ∧
      ∃ a, members (fun name => Json.member name ms) path = .ok a := by
  cases value <;> simp [JsonSchema.object]

end Checks

/-- The members of a finding have the types and the names that both schemas ask for. -/
def FindingRead (value : Json) : Prop :=
  (∃ s, memberOf "text" value = some (.string s)) ∧
    ∃ s ∈ API_SEVERITIES.map Prod.fst, memberOf "severity" value = some (.string s)

def SectionRead (value : Json) : Prop :=
  (∃ s, memberOf "title" value = some (.string s)) ∧
    ∃ findings, memberOf "findings" value = some (.array findings) ∧
      ∀ f ∈ findings, FindingRead f

def ReportRead (value : Json) : Prop :=
  ∃ sections, memberOf "sections" value = some (.array sections) ∧
    ∀ s ∈ sections, SectionRead s

section Levels

variable {path : Path} {value : Json}

theorem finding_accepts : (∃ f, compiledFindingSchema path (some value) = .ok f) ↔
    FindingRead value ∧ TextFits 2000 "text" value := by
  simp only [compiledFindingSchema, object_accepts, map_accepts, both_accepts, field,
    boundedText_accepts, oneOf_accepts]
  constructor
  · rintro ⟨ms, rfl, ⟨s, htext, hfits⟩, hseverity⟩
    refine ⟨⟨⟨s, htext⟩, hseverity⟩, ?_⟩
    have htext' : memberOf "text" (.object ms) = some (.string s) := htext
    simpa only [TextFits, textAt_eq htext'] using hfits
  · rintro ⟨⟨⟨s, htext⟩, hseverity⟩, hfits⟩
    cases value with
    | object ms =>
        refine ⟨ms, rfl, ⟨s, htext, ?_⟩, hseverity⟩
        simpa only [TextFits, textAt_eq htext] using hfits
    | _ => cases htext

theorem finding_valid : toolFinding.valid value = true ↔
    FindingRead value ∧ Closed ["text", "severity"] value := by
  refine (Schema.valid_closed ?_).trans ?_
  · rfl
  simp only [List.forall_mem_cons, List.not_mem_nil, false_implies, implies_true, and_true,
    Schema.valid_text, Schema.valid_enum]
  constructor
  · rintro ⟨ms, rfl, hclosed, ⟨_, htext, s, rfl⟩, _, hseverity, name, hname, rfl⟩
    exact ⟨⟨⟨s, htext⟩, name, hname, hseverity⟩, hclosed⟩
  · rintro ⟨⟨⟨s, htext⟩, name, hname, hseverity⟩, hclosed⟩
    cases value with
    | object ms => exact ⟨ms, rfl, hclosed, ⟨_, htext, s, rfl⟩, _, hseverity, name, hname, rfl⟩
    | _ => cases htext

theorem section_accepts : (∃ s, compiledSectionSchema path (some value) = .ok s) ↔
    SectionRead value ∧ TextFits 200 "title" value ∧ (itemsAt "findings" value).length ≤ 200 ∧
      ∀ f ∈ itemsAt "findings" value, TextFits 2000 "text" f := by
  simp only [compiledSectionSchema, object_accepts, map_accepts, both_accepts, field,
    boundedText_accepts, arrayOf_accepts fun _ _ => finding_accepts]
  constructor
  · rintro ⟨ms, rfl, ⟨s, htitle, hfits⟩, findings, hfindings, hlength, hall⟩
    have htitle' : memberOf "title" (.object ms) = some (.string s) := htitle
    have hfindings' : memberOf "findings" (.object ms) = some (.array findings) := hfindings
    refine ⟨⟨⟨s, htitle⟩, findings, hfindings, fun f hf => (hall f hf).1⟩, ?_⟩
    rw [itemsAt_eq hfindings', TextFits, textAt_eq htitle']
    exact ⟨hfits, hlength, fun f hf => (hall f hf).2⟩
  · rintro ⟨⟨⟨s, htitle⟩, findings, hfindings, hread⟩, hfits, hlength, htexts⟩
    rw [itemsAt_eq hfindings] at hlength htexts
    rw [TextFits, textAt_eq htitle] at hfits
    cases value with
    | object ms => exact ⟨ms, rfl, ⟨s, htitle, hfits⟩, findings, hfindings, hlength,
        fun f hf => ⟨hread f hf, htexts f hf⟩⟩
    | _ => cases htitle

theorem section_valid : toolSection.valid value = true ↔
    SectionRead value ∧ Closed ["title", "findings"] value ∧
      ∀ f ∈ itemsAt "findings" value, Closed ["text", "severity"] f := by
  refine (Schema.valid_closed ?_).trans ?_
  · rfl
  simp only [List.forall_mem_cons, List.not_mem_nil, false_implies, implies_true, and_true,
    Schema.valid_text, Schema.valid_array, finding_valid]
  constructor
  · rintro ⟨ms, rfl, hclosed, ⟨_, htitle, s, rfl⟩, _, hfindings, findings, rfl, hall⟩
    have hfindings' : memberOf "findings" (.object ms) = some (.array findings) := hfindings
    refine ⟨⟨⟨s, htitle⟩, findings, hfindings, fun f hf => (hall f hf).1⟩, hclosed, ?_⟩
    rw [itemsAt_eq hfindings']
    exact fun f hf => (hall f hf).2
  · rintro ⟨⟨⟨s, htitle⟩, findings, hfindings, hread⟩, hclosed, hall⟩
    rw [itemsAt_eq hfindings] at hall
    cases value with
    | object ms => exact ⟨ms, rfl, hclosed, ⟨_, htitle, s, rfl⟩, _, hfindings, findings, rfl,
        fun f hf => ⟨hread f hf, hall f hf⟩⟩
    | _ => cases htitle

/-- What the service's schema adds to the types are the limits. -/
theorem accepted_iff : Accepted value ↔ ReportRead value ∧ WithinLimits value := by
  rw [Accepted, safeParse]
  simp only [compiledReportSchema, object_accepts, map_accepts, field,
    arrayOf_accepts fun _ _ => section_accepts]
  constructor
  · rintro ⟨ms, rfl, sections, hsections, hlength, hall⟩
    have hsections' : memberOf "sections" (.object ms) = some (.array sections) := hsections
    refine ⟨⟨sections, hsections, fun s hs => (hall s hs).1⟩, ?_⟩
    rw [WithinLimits, itemsAt_eq hsections']
    exact ⟨hlength, fun s hs => (hall s hs).2⟩
  · rintro ⟨⟨sections, hsections, hread⟩, hlimits⟩
    rw [WithinLimits, itemsAt_eq hsections] at hlimits
    obtain ⟨hlength, hall⟩ := hlimits
    cases value with
    | object ms => exact ⟨ms, rfl, sections, hsections, hlength,
        fun s hs => ⟨hread s hs, hall s hs⟩⟩
    | _ => cases hsections

/-- What the tool's schema adds is that no object has another member. -/
theorem conforms_iff : Conforms value ↔ ReportRead value ∧ NoExtra value := by
  refine (Schema.valid_closed ?_).trans ?_
  · rfl
  simp only [List.forall_mem_cons, List.not_mem_nil, false_implies, implies_true, and_true,
    Schema.valid_array, section_valid]
  constructor
  · rintro ⟨ms, rfl, hclosed, _, hsections, sections, rfl, hall⟩
    have hsections' : memberOf "sections" (.object ms) = some (.array sections) := hsections
    refine ⟨⟨sections, hsections, fun s hs => (hall s hs).1⟩, hclosed, ?_⟩
    rw [itemsAt_eq hsections']
    exact fun s hs => (hall s hs).2
  · rintro ⟨⟨sections, hsections, hread⟩, hclosed, hall⟩
    rw [itemsAt_eq hsections] at hall
    cases value with
    | object ms => exact ⟨ms, rfl, hclosed, _, hsections, sections, rfl,
        fun s hs => ⟨hread s hs, hall s hs⟩⟩
    | _ => cases hsections

end Levels

/-- The schemas are aligned on exactly the values that do not conform or keep to the limits. -/
theorem schemas_aligned (value : Json) : Aligned value ↔ (Conforms value → WithinLimits value) := by
  rw [Aligned, accepted_iff, conforms_iff]
  constructor
  · rintro ⟨hforward, -⟩ hconforms
    exact (hforward hconforms).2
  · intro hlimits
    exact ⟨fun h => ⟨h.1, hlimits h⟩, fun hclosed h => ⟨h.1, hclosed⟩⟩

/-- A section whose title is empty, which the tool's schema allows. -/
def untitledReport : Json :=
  reportJson [⟨"", [⟨"Missing shingles.", "repair"⟩]⟩]

/-- A conforming answer that the service refuses. -/
theorem conforming_refused : ¬ ∀ value, Aligned value := by
  intro h
  obtain ⟨report, hreport⟩ := (h untitledReport).1 (by decide)
  have hrefused : (safeParse untitledReport).toOption.isSome = false := by decide
  rw [hreport] at hrefused
  cases hrefused

end FieldNote.ToolSchema
