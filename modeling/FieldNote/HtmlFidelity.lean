import FieldNote.MarkupTemplates
import FieldNote.ReportHtml

/-!
# What the HTML of a report says

The document is a template that depends on the severities alone, filled with escaped strings.
Read back, it lists every section and finding in the order of the view, with the severity of
the finding, and its header and chips count what it lists.
-/
namespace FieldNote.ReportHtml
open MarkupTemplates

/-- The values of `HTML_ESCAPES`. -/
def entities : List String := ["&amp;", "&lt;", "&gt;", "&quot;", "&#39;"]

/-- The text shows no markup: it has no brackets or quotes, and every ampersand begins an
entity. -/
structure Escaped (s : String) : Prop where
  inert : ∀ c ∈ s.toList, c ≠ '<' ∧ c ≠ '>' ∧ c ≠ '"' ∧ c ≠ '\''
  ampersands : ∀ before after, s.toList = before ++ '&' :: after →
    ∃ entity ∈ entities, entity.toList <+: '&' :: after

/-- Reads the entities of a text. -/
def unescape : List Char → List Char
  | '&' :: 'a' :: 'm' :: 'p' :: ';' :: cs => '&' :: unescape cs
  | '&' :: 'l' :: 't' :: ';' :: cs => '<' :: unescape cs
  | '&' :: 'g' :: 't' :: ';' :: cs => '>' :: unescape cs
  | '&' :: 'q' :: 'u' :: 'o' :: 't' :: ';' :: cs => '"' :: unescape cs
  | '&' :: '#' :: '3' :: '9' :: ';' :: cs => '\'' :: unescape cs
  | c :: cs => c :: unescape cs
  | [] => []

def unescapeHtml (s : String) : String := String.ofList (unescape s.toList)

/-- What one character becomes. -/
def escapeChar (ch : Char) : List Char := ((htmlEscapes ch).map String.toList).getD [ch]

/-- A character is one of the five, or stands for itself. -/
theorem escapeChar_cases (ch : Char) :
    (∃ entity ∈ entities, escapeChar ch = entity.toList) ∧
        (∀ cs, unescape (escapeChar ch ++ cs) = ch :: unescape cs) ∨
      escapeChar ch = [ch] ∧ ch ≠ '&' ∧ ch ≠ '<' ∧ ch ≠ '>' ∧ ch ≠ '"' ∧ ch ≠ '\'' := by
  unfold escapeChar htmlEscapes
  split
  · exact .inl ⟨⟨"&amp;", by simp [entities], rfl⟩, fun cs => by simp [unescape]⟩
  · exact .inl ⟨⟨"&lt;", by simp [entities], rfl⟩, fun cs => by simp [unescape]⟩
  · exact .inl ⟨⟨"&gt;", by simp [entities], rfl⟩, fun cs => by simp [unescape]⟩
  · exact .inl ⟨⟨"&quot;", by simp [entities], rfl⟩, fun cs => by simp [unescape]⟩
  · exact .inl ⟨⟨"&#39;", by simp [entities], rfl⟩, fun cs => by simp [unescape]⟩
  · rename_i hamp hlt hgt hquot hapos
    exact .inr ⟨rfl, hamp, hlt, hgt, hquot, hapos⟩

theorem unescape_cons {c : Char} (h : c ≠ '&') (cs : List Char) :
    unescape (c :: cs) = c :: unescape cs := by
  simp [unescape, h]

theorem toList_escapeHtml (s : String) : (escapeHtml s).toList = s.toList.flatMap escapeChar := by
  rw [escapeHtml, String.toList_ofList]
  rfl

theorem unescape_escapeHtml (s : String) : unescapeHtml (escapeHtml s) = s := by
  rw [unescapeHtml, toList_escapeHtml]
  have h : ∀ cs : List Char, unescape (cs.flatMap escapeChar) = cs := by
    intro cs
    induction cs with
    | nil => simp [unescape]
    | cons c cs ih =>
        rw [List.flatMap_cons]
        rcases escapeChar_cases c with ⟨-, hread⟩ | ⟨hself, hamp, -⟩
        · rw [hread, ih]
        · rw [hself, List.singleton_append, unescape_cons hamp, ih]
  rw [h, String.ofList_toList]

theorem entity_inert {entity : String} (h : entity ∈ entities) :
    (∀ c ∈ entity.toList, c ≠ '<' ∧ c ≠ '>' ∧ c ≠ '"' ∧ c ≠ '\'') ∧ '&' ∉ entity.toList.tail := by
  simp only [entities, List.mem_cons, List.not_mem_nil, or_false] at h
  rcases h with rfl | rfl | rfl | rfl | rfl <;> simp

theorem escapeChar_inert (ch : Char) :
    ∀ c ∈ escapeChar ch, c ≠ '<' ∧ c ≠ '>' ∧ c ≠ '"' ∧ c ≠ '\'' := by
  rcases escapeChar_cases ch with ⟨⟨entity, hentity, heq⟩, -⟩ | ⟨heq, -, hlt, hgt, hquot, hapos⟩
  · rw [heq]
    exact (entity_inert hentity).1
  · rw [heq]
    intro c hc
    rw [List.mem_singleton.mp hc]
    exact ⟨hlt, hgt, hquot, hapos⟩

/-- An ampersand of one character's text begins it. -/
theorem escapeChar_ampersand {ch : Char} {before after : List Char}
    (h : escapeChar ch = before ++ '&' :: after) :
    before = [] ∧ ∃ entity ∈ entities, entity.toList = '&' :: after := by
  rcases escapeChar_cases ch with ⟨⟨entity, hentity, heq⟩, -⟩ | ⟨heq, hamp, -⟩
  · rw [heq] at h
    cases before with
    | nil => exact ⟨rfl, entity, hentity, h⟩
    | cons b bs =>
        have htail : '&' ∈ entity.toList.tail := by simp [h]
        exact ((entity_inert hentity).2 htail).elim
  · rw [heq] at h
    have hmem : '&' ∈ [ch] := by simp [h]
    exact (hamp (List.mem_singleton.mp hmem).symm).elim

theorem escaped_escapeHtml (s : String) : Escaped (escapeHtml s) := by
  constructor
  · intro c hc
    rw [toList_escapeHtml, List.mem_flatMap] at hc
    obtain ⟨ch, -, hch⟩ := hc
    exact escapeChar_inert ch c hch
  · rw [toList_escapeHtml]
    induction s.toList with
    | nil =>
        intro before after h
        simp at h
    | cons ch cs ih =>
        intro before after h
        rw [List.flatMap_cons, List.append_eq_append_iff] at h
        rcases h with ⟨rest, -, hrest⟩ | ⟨mine, hmine, hafter⟩
        · exact ih rest after hrest
        · cases mine with
          | nil => exact ih [] after hafter.symm
          | cons m ms =>
              obtain ⟨rfl, hms⟩ := List.cons.inj hafter
              obtain ⟨-, entity, hentity, heq⟩ := escapeChar_ampersand hmine
              refine ⟨entity, hentity, ?_⟩
              rw [heq, hms]
              exact ⟨_, rfl⟩

theorem plain_escapeHtml (s : String) : Plain (escapeHtml s) :=
  fun c hc => ((escaped_escapeHtml s).inert c hc).1

/-! ## The template. -/

/-- The severities of a report, section by section. -/
def shape (sections : List ReportSectionView) : List (List ApiSeverity) :=
  sections.map fun s => s.findings.map ReportFindingView.severity

/-- The texts of a section, in the order of the document. -/
def sectionTexts (s : ReportSectionView) : List String :=
  s.title :: s.findings.map ReportFindingView.text

/-- The texts of a report, in the order of the document. -/
def texts (view : ReportView) : List String :=
  view.label :: view.label :: formatDate view.generatedAt :: (view.sections.flatMap sectionTexts ++
    [view.jobId])

/-- A severity as a badge shows it. -/
def badgeTag (sev : ApiSeverity) : String :=
  "span class=\"sev\" style=\"" ++ colours (severityStyles sev) ++ "\""

def badge (sev : ApiSeverity) : String := element (badgeTag sev) (severityStyles sev).label "/span"

def chipTag (sev : ApiSeverity) : String :=
  "span class=\"chip\" style=\"" ++ colours (severityStyles sev) ++ "\""

def findingTag : String := "span class=\"finding-text\""

def findingTemplate (sev : ApiSeverity) : Template :=
  [some "      <li class=\"finding\">\n        ", some (badge sev), some "\n        ",
    some "<span class=\"finding-text\">", none, some "</span>", some "\n      </li>"]

def sectionTemplate (severities : List ApiSeverity) : Template :=
  some "    <section class=\"report-section\">\n      " :: some "<h2>" :: none :: some "</h2>" ::
    some "\n      <ul class=\"findings\">\n" ::
      (List.intercalate [some "\n"] (severities.map findingTemplate) ++
        [some "\n      </ul>\n    </section>"])

def sectionsTemplate (shape : List (List ApiSeverity)) : Template :=
  if shape.length = 0 then [some noSections]
  else List.intercalate [some "\n"] (shape.map sectionTemplate)

/-- How often a severity occurs in a report. -/
def occurrences (shape : List (List ApiSeverity)) (sev : ApiSeverity) : ℕ := shape.flatten.count sev

def styleSheet : String := String.join (styleLines.map fun line => line ++ "\n")

/-- The text of the header after the date. -/
def total (n : ℕ) : String := " &middot; " ++ toString n ++ " finding" ++ if n = 1 then "" else "s"

def chips (counts : ApiSeverity → ℕ) : String :=
  if summaryChips counts = "" then noFindings else summaryChips counts

def reportTemplate (shape : List (List ApiSeverity)) : Template :=
  some documentHead :: none :: some styleHead :: some styleSheet :: some bodyHead :: none ::
    some metaHead :: none :: some "</strong>" :: some (total shape.flatten.length) ::
      some "</div>" :: some summaryHead :: some (chips (occurrences shape)) :: some summaryEnd ::
        (sectionsTemplate shape ++ [some footHead, none, some documentEnd])

theorem countBySeverity_eq (sections : List ReportSectionView) :
    countBySeverity sections = occurrences (shape sections) := by
  have hfindings : ∀ (findings : List ReportFindingView) (counts : ApiSeverity → ℕ),
      findings.foldl (fun counts f => Function.update counts f.severity (counts f.severity + 1))
        counts = fun sev => counts sev + (findings.map ReportFindingView.severity).count sev := by
    intro findings
    induction findings with
    | nil => exact fun counts => rfl
    | cons f findings ih =>
        intro counts
        rw [List.foldl_cons, ih]
        funext sev
        rw [List.map_cons, List.count_cons, Function.update_apply]
        by_cases hsev : sev = f.severity
        · simp [hsev]
          omega
        · simp [hsev, Ne.symm hsev]
  have hsections : ∀ (sections : List ReportSectionView) (counts : ApiSeverity → ℕ),
      sections.foldl (fun counts s => s.findings.foldl (fun counts f =>
        Function.update counts f.severity (counts f.severity + 1)) counts) counts =
        fun sev => counts sev + occurrences (shape sections) sev := by
    intro sections
    induction sections with
    | nil => exact fun counts => rfl
    | cons s sections ih =>
        intro counts
        rw [List.foldl_cons, ih, hfindings]
        funext sev
        simp only [occurrences, shape, List.map_cons, List.flatten_cons, List.count_append]
        omega
  unfold countBySeverity
  rw [hsections]
  funext sev
  exact Nat.zero_add _

theorem totalFindings_eq (sections : List ReportSectionView) (n : ℕ) :
    sections.foldl (fun n s => n + s.findings.length) n = n + (shape sections).flatten.length := by
  induction sections generalizing n with
  | nil => rfl
  | cons s sections ih =>
      rw [List.foldl_cons, ih]
      simp only [shape, List.map_cons, List.flatten_cons, List.length_append, List.length_map]
      omega

theorem literal_append (l m : List Char) :
    String.ofList l ++ String.ofList m = String.ofList (l ++ m) := String.ofList_append.symm

/-- A tag with a style, as the source writes it. -/
theorem element_span {opening written : String} (h : "<" ++ opening = written) (style text : String) :
    element (opening ++ style ++ "\"") text "/span" =
      written ++ style ++ "\">" ++ text ++ "</span>" := by
  have hend : ("\"" ++ ">" : String) = "\">" := literal_append _ _
  have hclose : ("<" ++ ("/span" ++ ">") : String) = "</span>" :=
    (congrArg _ (literal_append _ _)).trans (literal_append _ _)
  rw [← h, ← hend, ← hclose]
  unfold element
  repeat rw [String.append_assoc]

theorem badge_eq (sev : ApiSeverity) : badge sev = "<span class=\"sev\" style=\"" ++
    colours (severityStyles sev) ++ "\">" ++ (severityStyles sev).label ++ "</span>" :=
  element_span (literal_append _ _) _ _

theorem renderFinding_fill (f : ReportFindingView) :
    renderFinding f = fill (findingTemplate f.severity) [escapeHtml f.text] := by
  unfold renderFinding findingTemplate
  simp only [fill, badge_eq]
  repeat rw [String.append_assoc]
  rw [String.append_empty]

theorem renderSection_fill (s : ReportSectionView) :
    renderSection s = fill (sectionTemplate (s.findings.map ReportFindingView.severity))
        ((sectionTexts s).map escapeHtml) ∧
      holes (sectionTemplate (s.findings.map ReportFindingView.severity)) =
        ((sectionTexts s).map escapeHtml).length := by
  obtain ⟨hfill, hholes⟩ := fill_join "\n" (fun f : ReportFindingView => findingTemplate f.severity)
    (fun f => [escapeHtml f.text]) (fun _ => rfl) s.findings
  have htexts : (s.findings.flatMap fun f => [escapeHtml f.text]) =
      (s.findings.map ReportFindingView.text).map escapeHtml := by
    rw [List.map_map, List.map_eq_flatMap]
    rfl
  have htemplate : s.findings.map (fun f => findingTemplate f.severity) =
      (s.findings.map ReportFindingView.severity).map findingTemplate := by
    rw [List.map_map]
    rfl
  have hitems : s.findings.map (fun f => fill (findingTemplate f.severity) [escapeHtml f.text]) =
      s.findings.map renderFinding := List.map_congr_left fun f _ => (renderFinding_fill f).symm
  rw [htexts, htemplate] at hfill hholes
  rw [hitems] at hfill
  constructor
  · have hrest := fill_append hholes [some "\n      </ul>\n    </section>"] []
    rw [List.append_nil, hfill] at hrest
    unfold renderSection sectionTemplate sectionTexts
    simp only [List.map_cons, fill]
    rw [hrest]
    simp only [fill]
    repeat rw [String.append_assoc]
    rw [String.append_empty]
  · have hall : holes (sectionTemplate (s.findings.map ReportFindingView.severity)) =
        holes (List.intercalate [some "\n"] ((s.findings.map ReportFindingView.severity).map
          findingTemplate)) + 1 := by
      unfold sectionTemplate
      simp [holes]
    rw [hall, hholes, sectionTexts, List.map_cons, List.length_cons]

theorem sectionsHtml_fill (sections : List ReportSectionView) :
    sectionsHtml sections = fill (sectionsTemplate (shape sections))
        ((sections.flatMap sectionTexts).map escapeHtml) ∧
      holes (sectionsTemplate (shape sections)) =
        ((sections.flatMap sectionTexts).map escapeHtml).length := by
  cases sections with
  | nil => exact ⟨(String.append_empty (s := noSections)).symm, rfl⟩
  | cons first rest =>
      obtain ⟨hfill, hholes⟩ := fill_join "\n"
        (fun s : ReportSectionView => sectionTemplate (s.findings.map ReportFindingView.severity))
        (fun s => (sectionTexts s).map escapeHtml) (fun s => (renderSection_fill s).2) (first :: rest)
      have htexts : ((first :: rest).flatMap fun s => (sectionTexts s).map escapeHtml) =
          ((first :: rest).flatMap sectionTexts).map escapeHtml := List.map_flatMap.symm
      have hitems : ((first :: rest).map fun s =>
          fill (sectionTemplate (s.findings.map ReportFindingView.severity))
            ((sectionTexts s).map escapeHtml)) = (first :: rest).map renderSection :=
        List.map_congr_left fun s _ => (renderSection_fill s).1.symm
      have htemplate : (first :: rest).map (fun s => sectionTemplate (s.findings.map
          ReportFindingView.severity)) = (shape (first :: rest)).map sectionTemplate := by
        rw [shape, List.map_map]
        rfl
      rw [htexts, htemplate] at hfill hholes
      rw [hitems] at hfill
      exact ⟨hfill.symm, hholes⟩

/-- The document is the template of its severities, filled with its texts. -/
theorem buildReportHtml_fill (view : ReportView) :
    buildReportHtml view = fill (reportTemplate (shape view.sections))
        ((texts view).map escapeHtml) ∧
      holes (reportTemplate (shape view.sections)) = ((texts view).map escapeHtml).length := by
  obtain ⟨hfill, hholes⟩ := sectionsHtml_fill view.sections
  have hrest := fill_append hholes [some footHead, none, some documentEnd] [escapeHtml view.jobId]
  constructor
  · unfold buildReportHtml reportTemplate texts
    simp only [List.map_cons, List.map_append, List.map_nil, fill]
    rw [hrest, ← hfill, countBySeverity_eq, totalFindings_eq, Nat.zero_add]
    simp only [fill, total, chips, styleSheet]
    repeat rw [String.append_assoc]
    rw [String.append_empty]
  · have hall : holes (reportTemplate (shape view.sections)) =
        holes (sectionsTemplate (shape view.sections)) + 4 := by
      unfold reportTemplate
      simp [holes]
    rw [hall, hholes]
    simp [texts]

theorem colours_without (sev : ApiSeverity) : Without '>' (colours (severityStyles sev)) := by
  have hparts : ∀ fg bg border : String, Without '>' fg → Without '>' bg → Without '>' border →
      Without '>' ("color:" ++ fg ++ ";background:" ++ bg ++ ";border-color:" ++ border) :=
    fun _ _ _ hfg hbg hborder => ((((Without.literal _ rfl).append hfg).append
      (Without.literal _ rfl)).append hbg).append (Without.literal _ rfl) |>.append hborder
  cases sev <;>
    exact hparts _ _ _ (Without.literal _ rfl) (Without.literal _ rfl) (Without.literal _ rfl)

theorem label_plain (sev : ApiSeverity) : Plain (severityStyles sev).label := by
  cases sev <;> exact Without.literal _ rfl

theorem number_plain (n : ℕ) : Plain (toString n) := by
  intro c hc
  have hdigit : c.isDigit = true := by
    rw [Nat.toString_eq_repr, Nat.toList_repr] at hc
    exact Nat.isDigit_of_mem_toDigits (by decide) (by decide) hc
  rintro rfl
  cases hdigit

theorem styleLines_plain : ∀ line ∈ styleLines, Plain line := by
  unfold styleLines
  repeat refine List.forall_mem_cons.mpr ⟨Without.literal _ rfl, ?_⟩
  exact List.forall_mem_nil _

theorem styleSheet_plain : Plain styleSheet := by
  refine Without.join fun line hline => ?_
  obtain ⟨l, hl, rfl⟩ := List.mem_map.mp hline
  exact (styleLines_plain l hl).append (Without.literal _ rfl)

theorem total_plain (n : ℕ) : Plain (total n) := by
  refine (((Without.literal _ rfl).append (number_plain n)).append (Without.literal _ rfl)).append ?_
  split_ifs <;> exact Without.literal _ rfl

/-- The tags that show something of the view: titles, badges, texts, chips, and the end of the
date in the header. -/
def shown : List Char → Bool
  | ['h', '2'] => true
  | '/' :: 's' :: 't' :: 'r' :: _ => true
  | 's' :: 'p' :: 'a' :: 'n' :: ' ' :: _ => true
  | _ => false

theorem shown_append (l : List Char) (s : String) (h : ∀ rest, shown (l ++ rest) = true) :
    shown (String.ofList l ++ s).toList = true := by
  rw [String.toList_append, String.toList_ofList]
  exact h _

theorem badgeTag_shown (sev : ApiSeverity) :
    Without '>' (badgeTag sev) ∧ shown (badgeTag sev).toList = true := by
  constructor
  · exact ((Without.literal _ rfl).append (colours_without sev)).append (Without.literal _ rfl)
  · unfold badgeTag
    rw [String.append_assoc]
    exact shown_append _ _ fun _ => rfl

theorem chipTag_shown (sev : ApiSeverity) :
    Without '>' (chipTag sev) ∧ shown (chipTag sev).toList = true := by
  constructor
  · exact ((Without.literal _ rfl).append (colours_without sev)).append (Without.literal _ rfl)
  · unfold chipTag
    rw [String.append_assoc]
    exact shown_append _ _ fun _ => rfl

theorem hidden_literal (l : List Char) (h : shown l = false) :
    shown (String.ofList l).toList = false := by
  rw [String.toList_ofList, h]

/-- A span that is shown. -/
theorem reads_span {name text : String} (hname : Without '>' name ∧ shown name.toList = true)
    (htext : Plain text) : Reads shown {} (element name text "/span") [(name, text)] {} :=
  Reads.element hname.1 hname.2 htext (Without.literal _ rfl) (hidden_literal _ rfl)

theorem reads_badge (sev : ApiSeverity) :
    Reads shown {} (badge sev) [(badgeTag sev, (severityStyles sev).label)] {} :=
  reads_span (badgeTag_shown sev) (label_plain sev)

/-- What a chip shows. -/
def chipElement (counts : ApiSeverity → ℕ) (sev : ApiSeverity) : String × String :=
  (chipTag sev, (severityStyles sev).label ++ ": " ++ toString (counts sev))

theorem reads_summaryChip (counts : ApiSeverity → ℕ) (sev : ApiSeverity) :
    Reads shown {} (summaryChip counts sev) [chipElement counts sev] {} := by
  have hchip : summaryChip counts sev = element (chipTag sev) ((severityStyles sev).label ++ ": " ++
      toString (counts sev)) "/span" := by
    unfold chipTag summaryChip
    rw [element_span (literal_append _ _)]
    repeat rw [String.append_assoc]
    rfl
  rw [hchip]
  exact reads_span (chipTag_shown sev) (((label_plain sev).append (Without.literal _ rfl)).append
    (number_plain _))

theorem noFindings_eq : noFindings = element (chipTag .info) "No findings" "/span" := by
  unfold element chipTag colours severityStyles
  dsimp only
  repeat rw [literal_append]
  rfl

/-- Markup that shows nothing of the view. -/
abbrev Silent (s : String) : Prop := Reads shown {} s [] {}

theorem silent_documentHead : Silent documentHead :=
  (Reads.literal shown {} _).append (Reads.literal shown _ _)

theorem silent_styleHead : Silent styleHead := Reads.literal shown {} _

theorem silent_bodyHead : Silent bodyHead :=
  (Reads.literal shown {} _).append (Reads.literal shown _ _)

theorem silent_metaHead : Silent metaHead := Reads.literal shown {} _

theorem silent_summaryHead : Silent summaryHead :=
  (Reads.literal shown {} _).append (Reads.literal shown _ _)

theorem silent_summaryEnd : Silent summaryEnd := Reads.literal shown {} _

theorem silent_footHead : Silent footHead :=
  (Reads.literal shown {} _).append (Reads.literal shown _ _)

theorem silent_documentEnd : Silent documentEnd := Reads.literal shown {} _

/-- What the chips of some severities show; without any, one chip says so. -/
def chipElements (counts : ApiSeverity → ℕ) (severities : List ApiSeverity) :
    List (String × String) :=
  if severities = [] then [(chipTag .info, "No findings")]
  else severities.map (chipElement counts)

/-- The severities that get a chip. -/
def chipped (counts : ApiSeverity → ℕ) : List ApiSeverity :=
  severityOrder.filter fun sev => 0 < counts sev

theorem summaryChips_eq_empty (counts : ApiSeverity → ℕ) :
    summaryChips counts = "" ↔ chipped counts = [] := by
  have hchip : ∀ sev, summaryChip counts sev ≠ "" := by
    intro sev hempty
    have hread := (reads_summaryChip counts sev).yields
    rw [hempty] at hread
    cases hread
  rw [summaryChips]
  change String.join ((chipped counts).map (summaryChip counts)) = "" ↔ _
  cases chipped counts with
  | nil => exact iff_of_true String.join_nil rfl
  | cons sev sevs =>
      rw [List.map_cons, String.join_cons]
      refine iff_of_false ?_ (by simp)
      intro hempty
      exact hchip sev (String.append_eq_empty_iff.mp hempty).1

theorem reads_chips (counts : ApiSeverity → ℕ) :
    Reads shown {} (chips counts) (chipElements counts (chipped counts)) {} := by
  unfold chips chipElements
  by_cases hnone : chipped counts = []
  · rw [if_pos ((summaryChips_eq_empty counts).mpr hnone), if_pos hnone, noFindings_eq]
    exact reads_span (chipTag_shown .info) (Without.literal _ rfl)
  · rw [if_neg (mt (summaryChips_eq_empty counts).mp hnone), if_neg hnone, List.map_eq_flatMap]
    exact Reads.concat (reads_summaryChip counts) _

/-- What a finding shows: its badge and its text. -/
def findingElements (f : ReportFindingView) : List (String × String) :=
  [(badgeTag f.severity, (severityStyles f.severity).label), (findingTag, escapeHtml f.text)]

def sectionElements (s : ReportSectionView) : List (String × String) :=
  ("h2", escapeHtml s.title) :: s.findings.flatMap findingElements

theorem element_literal {name opened close closed : String} (h : "<" ++ (name ++ ">") = opened)
    (h' : "<" ++ (close ++ ">") = closed) (text : String) :
    opened ++ (text ++ closed) = element name text close := by
  rw [← h, ← h']
  unfold element
  repeat rw [String.append_assoc]

theorem reads_finding (f : ReportFindingView) :
    Reads shown {} (renderFinding f) (findingElements f) {} := by
  have hopened : ("<" ++ (findingTag ++ ">") : String) = "<span class=\"finding-text\">" :=
    (congrArg _ (literal_append _ _)).trans (literal_append _ _)
  have hclosed : ("<" ++ ("/span" ++ ">") : String) = "</span>" :=
    (congrArg _ (literal_append _ _)).trans (literal_append _ _)
  have heq : renderFinding f = "      <li class=\"finding\">\n        " ++ badge f.severity ++
      "\n        " ++ element findingTag (escapeHtml f.text) "/span" ++ "\n      </li>" := by
    rw [← element_literal hopened hclosed, badge_eq]
    unfold renderFinding
    repeat rw [String.append_assoc]
  have hhead : Silent "      <li class=\"finding\">\n        " :=
    Reads.literal shown {} _
  have hbetween : Silent "\n        " := Reads.literal shown {} _
  have htext : Reads shown {} (element findingTag (escapeHtml f.text) "/span")
      [(findingTag, escapeHtml f.text)] {} :=
    Reads.element (Without.literal _ rfl) (by
      rw [findingTag, String.toList_ofList]
      rfl) (plain_escapeHtml f.text) (Without.literal _ rfl) (hidden_literal _ rfl)
  have hend : Silent "\n      </li>" := Reads.literal shown {} _
  rw [heq]
  exact (((hhead.append (reads_badge f.severity)).append hbetween).append htext).append hend

theorem reads_section (s : ReportSectionView) :
    Reads shown {} (renderSection s) (sectionElements s) {} := by
  have hopened : ("<" ++ ("h2" ++ ">") : String) = "<h2>" :=
    (congrArg _ (literal_append _ _)).trans (literal_append _ _)
  have hclosed : ("<" ++ ("/h2" ++ ">") : String) = "</h2>" :=
    (congrArg _ (literal_append _ _)).trans (literal_append _ _)
  have heq : renderSection s = "    <section class=\"report-section\">\n      " ++
      element "h2" (escapeHtml s.title) "/h2" ++ "\n      <ul class=\"findings\">\n" ++
      String.intercalate "\n" (s.findings.map renderFinding) ++ "\n      </ul>\n    </section>" := by
    rw [← element_literal hopened hclosed]
    unfold renderSection
    repeat rw [String.append_assoc]
  have hhead : Silent "    <section class=\"report-section\">\n      " :=
    Reads.literal shown {} _
  have htitle : Reads shown {} (element "h2" (escapeHtml s.title) "/h2")
      [("h2", escapeHtml s.title)] {} :=
    Reads.element (Without.literal _ rfl) (by
      rw [String.toList_ofList]
      rfl) (plain_escapeHtml s.title) (Without.literal _ rfl) (hidden_literal _ rfl)
  have hlist : Silent "\n      <ul class=\"findings\">\n" := Reads.literal shown {} _
  have hbreak : Silent "\n" := Reads.literal shown {} _
  have hend : Silent "\n      </ul>\n    </section>" := Reads.literal shown {} _
  have hitems := Reads.join hbreak reads_finding s.findings
  rw [heq]
  have hread := (((hhead.append htitle).append hlist).append hitems).append hend
  rwa [List.append_nil, List.append_nil] at hread

theorem reads_sections (sections : List ReportSectionView) :
    Reads shown {} (sectionsHtml sections) (sections.flatMap sectionElements) {} := by
  unfold sectionsHtml
  by_cases hnone : sections.length = 0
  · obtain rfl := List.eq_nil_of_length_eq_zero hnone
    exact Reads.literal shown {} _
  · have hbreak : Silent "\n" := Reads.literal shown {} _
    rw [if_neg hnone]
    exact Reads.join hbreak reads_section sections

/-- The document shows the number of findings, the chips and then the sections. -/
theorem elements_buildReportHtml (view : ReportView) :
    elements shown (buildReportHtml view) =
      ("/strong", total (shape view.sections).flatten.length) ::
        (chipElements (occurrences (shape view.sections)) (chipped (occurrences (shape view.sections))) ++
          view.sections.flatMap sectionElements) := by
  have hopened : ("<" ++ ("/strong" ++ ">") : String) = "</strong>" :=
    (congrArg _ (literal_append _ _)).trans (literal_append _ _)
  have hclosed : ("<" ++ ("/div" ++ ">") : String) = "</div>" :=
    (congrArg _ (literal_append _ _)).trans (literal_append _ _)
  have heq : buildReportHtml view = documentHead ++ (escapeHtml view.label ++ (styleHead ++
      (styleSheet ++ (bodyHead ++ (escapeHtml view.label ++ (metaHead ++
        (escapeHtml (formatDate view.generatedAt) ++
          (element "/strong" (total (shape view.sections).flatten.length) "/div" ++ (summaryHead ++
            (chips (occurrences (shape view.sections)) ++ (summaryEnd ++
              (sectionsHtml view.sections ++ (footHead ++
                (escapeHtml view.jobId ++ documentEnd)))))))))))))) := by
    rw [← element_literal hopened hclosed]
    unfold buildReportHtml
    rw [countBySeverity_eq, totalFindings_eq, Nat.zero_add]
    unfold total chips styleSheet
    repeat rw [String.append_assoc]
  have htotal : Reads shown {} (element "/strong" (total (shape view.sections).flatten.length) "/div")
      [("/strong", total (shape view.sections).flatten.length)] {} :=
    Reads.element (Without.literal _ rfl) (by
      rw [String.toList_ofList]
      rfl) (total_plain _) (Without.literal _ rfl) (hidden_literal _ rfl)
  have hlabel : Silent (escapeHtml view.label) := Reads.skip (plain_escapeHtml _)
  have hdate : Silent (escapeHtml (formatDate view.generatedAt)) :=
    Reads.skip (plain_escapeHtml _)
  have hjob : Silent (escapeHtml view.jobId) := Reads.skip (plain_escapeHtml _)
  have hread := silent_documentHead.append (hlabel.append (silent_styleHead.append
    ((Reads.skip styleSheet_plain).append (silent_bodyHead.append (hlabel.append
      (silent_metaHead.append (hdate.append (htotal.append (silent_summaryHead.append
        ((reads_chips (occurrences (shape view.sections))).append (silent_summaryEnd.append
          ((reads_sections view.sections).append (silent_footHead.append
            (hjob.append silent_documentEnd))))))))))))))
  rw [← heq] at hread
  simpa using hread.elements_eq

theorem closed_finding (sev : ApiSeverity) : AllClosed (findingTemplate sev) :=
  .literal (Closed.literal _ rfl) (.literal (reads_badge sev).inside (.literal (Closed.literal _ rfl)
    (.literal (Closed.literal _ rfl) (.hole (.literal (Closed.literal _ rfl)
      (.literal (Closed.literal _ rfl) .nil))))))

theorem closed_section (severities : List ApiSeverity) : AllClosed (sectionTemplate severities) :=
  .literal (Closed.literal _ rfl) (.literal (Closed.literal _ rfl) (.hole
    (.literal (Closed.literal _ rfl) (.literal (Closed.literal _ rfl)
      ((AllClosed.join (Closed.literal _ rfl) closed_finding severities).append
        (.literal (Closed.literal _ rfl) .nil))))))

theorem closed_sections (severities : List (List ApiSeverity)) :
    AllClosed (sectionsTemplate severities) := by
  unfold sectionsTemplate
  by_cases hnone : severities.length = 0
  · rw [if_pos hnone]
    exact .literal (Closed.literal _ rfl) .nil
  · rw [if_neg hnone]
    exact AllClosed.join (Closed.literal _ rfl) closed_section severities

theorem closed_report (severities : List (List ApiSeverity)) :
    AllClosed (reportTemplate severities) :=
  .literal silent_documentHead.inside (.hole (.literal silent_styleHead.inside
    (.literal (closed_of_plain styleSheet_plain) (.literal silent_bodyHead.inside (.hole
      (.literal silent_metaHead.inside (.hole (.literal (Closed.literal _ rfl)
        (.literal (closed_of_plain (total_plain _)) (.literal (Closed.literal _ rfl)
          (.literal silent_summaryHead.inside (.literal (reads_chips _).inside
            (.literal silent_summaryEnd.inside ((closed_sections severities).append
              (.literal silent_footHead.inside (.hole (.literal silent_documentEnd.inside
                .nil)))))))))))))))))

/-- How many badges of a severity a document shows. -/
def badgeCount (body : List (String × String)) (sev : ApiSeverity) : ℕ :=
  body.count (badgeTag sev, (severityStyles sev).label)

/-- How many findings a document shows. -/
def findingCount (body : List (String × String)) : ℕ := body.countP fun shown => shown.1 = findingTag

theorem append_ne_literal (l m : List Char) (s : String) (h : ¬ l <+: m) :
    String.ofList l ++ s ≠ String.ofList m := by
  intro heq
  have hlist := congrArg String.toList heq
  rw [String.toList_append, String.toList_ofList, String.toList_ofList] at hlist
  exact h ⟨s.toList, hlist⟩

theorem badgeTag_ne (sev : ApiSeverity) : badgeTag sev ≠ "h2" ∧ badgeTag sev ≠ findingTag := by
  unfold badgeTag
  rw [String.append_assoc]
  exact ⟨append_ne_literal _ _ _ (by decide), append_ne_literal _ _ _ (by decide)⟩

theorem findingTag_ne : findingTag ≠ "h2" := by
  intro heq
  have hlist := congrArg String.toList heq
  rw [findingTag, String.toList_ofList, String.toList_ofList] at hlist
  cases hlist

theorem label_injective {sev sev' : ApiSeverity}
    (h : (severityStyles sev).label = (severityStyles sev').label) : sev = sev' := by
  cases sev <;> cases sev' <;> first | rfl | exact absurd h (by decide)

theorem badgeCount_finding (f : ReportFindingView) (rest : List (String × String))
    (sev : ApiSeverity) : badgeCount (findingElements f ++ rest) sev =
      [f.severity].count sev + badgeCount rest sev := by
  have htext : (findingTag, escapeHtml f.text) ≠ (badgeTag sev, (severityStyles sev).label) :=
    fun h => (badgeTag_ne sev).2 (congrArg Prod.fst h).symm
  have hbadge : ((badgeTag f.severity, (severityStyles f.severity).label) =
      (badgeTag sev, (severityStyles sev).label)) ↔ f.severity = sev :=
    ⟨fun h => label_injective (congrArg Prod.snd h), fun h => by rw [h]⟩
  unfold badgeCount findingElements
  rw [List.cons_append, List.cons_append, List.nil_append, List.count_cons, List.count_cons_of_ne htext,
    List.count_singleton]
  by_cases hsev : f.severity = sev
  · simp [hsev]
    omega
  · simp [mt hbadge.mp hsev, hsev]

theorem findingCount_finding (f : ReportFindingView) (rest : List (String × String)) :
    findingCount (findingElements f ++ rest) = 1 + findingCount rest := by
  unfold findingCount findingElements
  rw [List.cons_append, List.cons_append, List.nil_append,
    List.countP_cons_of_neg (by simpa using (badgeTag_ne f.severity).2),
    List.countP_cons_of_pos (by simp), Nat.add_comm]

theorem counts_findings (findings : List ReportFindingView) (rest : List (String × String)) :
    (∀ sev, badgeCount (findings.flatMap findingElements ++ rest) sev =
        (findings.map ReportFindingView.severity).count sev + badgeCount rest sev) ∧
      findingCount (findings.flatMap findingElements ++ rest) =
        (findings.map ReportFindingView.severity).length + findingCount rest := by
  induction findings with
  | nil => simp
  | cons f findings ih =>
      constructor
      · intro sev
        have hsplit : (f.severity :: findings.map ReportFindingView.severity).count sev =
            [f.severity].count sev + (findings.map ReportFindingView.severity).count sev := by
          rw [← List.count_append, List.singleton_append]
        rw [List.flatMap_cons, List.append_assoc, badgeCount_finding, ih.1 sev, List.map_cons, hsplit,
          Nat.add_assoc]
      · rw [List.flatMap_cons, List.append_assoc, findingCount_finding, ih.2, List.map_cons,
          List.length_cons]
        omega

/-- The body shows a badge and a text for each finding. -/
theorem counts_body (sections : List ReportSectionView) :
    badgeCount (sections.flatMap sectionElements) = occurrences (shape sections) ∧
      findingCount (sections.flatMap sectionElements) = (shape sections).flatten.length := by
  induction sections with
  | nil => exact ⟨rfl, rfl⟩
  | cons s sections ih =>
      obtain ⟨hbadges, hfindings⟩ := counts_findings s.findings (sections.flatMap sectionElements)
      have hshape : (shape (s :: sections)).flatten =
          s.findings.map ReportFindingView.severity ++ (shape sections).flatten := rfl
      constructor
      · funext sev
        have htitle : ("h2", escapeHtml s.title) ≠ (badgeTag sev, (severityStyles sev).label) :=
          fun h => (badgeTag_ne sev).1 (congrArg Prod.fst h).symm
        have hsev := congrFun ih.1 sev
        unfold badgeCount occurrences at *
        rw [List.flatMap_cons, sectionElements, List.cons_append, List.count_cons_of_ne htitle,
          hbadges sev, hsev, hshape, List.count_append]
      · unfold findingCount at *
        rw [List.flatMap_cons, sectionElements, List.cons_append,
          List.countP_cons_of_neg (by simpa using findingTag_ne.symm), hfindings, ih.2, hshape,
          List.length_append]

/-- The severities are those that occur, each once, and their counts add up to `n`. -/
structure Chipped (counts : ApiSeverity → ℕ) (n : ℕ) (severities : List ApiSeverity) : Prop where
  once : severities.Nodup
  occurs : ∀ sev, sev ∈ severities ↔ 0 < counts sev
  sum : severities.foldl (fun n sev => n + counts sev) 0 = n

theorem foldl_chipped (counts : ApiSeverity → ℕ) (severities : List ApiSeverity) (n : ℕ) :
    (severities.filter fun sev => 0 < counts sev).foldl (fun n sev => n + counts sev) n =
      severities.foldl (fun n sev => n + counts sev) n := by
  induction severities generalizing n with
  | nil => rfl
  | cons sev sevs ih =>
      by_cases hsev : 0 < counts sev
      · rw [List.filter_cons_of_pos (by simpa using hsev), List.foldl_cons, List.foldl_cons, ih]
      · rw [List.filter_cons_of_neg (by simpa using hsev), ih, List.foldl_cons,
          Nat.eq_zero_of_not_pos hsev, Nat.add_zero]

theorem occurrences_sum (shape : List (List ApiSeverity)) :
    severityOrder.foldl (fun n sev => n + occurrences shape sev) 0 = shape.flatten.length := by
  simp only [severityOrder, List.foldl_cons, List.foldl_nil, Nat.zero_add]
  unfold occurrences
  induction shape.flatten with
  | nil => rfl
  | cons sev sevs ih => cases sev <;> simp <;> omega

/-- The display order has every severity, so none that occurs is without its chip. -/
theorem chipped_occurrences (shape : List (List ApiSeverity)) :
    Chipped (occurrences shape) shape.flatten.length (chipped (occurrences shape)) where
  once := List.Nodup.filter _ (by decide)
  occurs sev := by
    have hmem : sev ∈ severityOrder := by cases sev <;> decide
    simp [chipped, hmem]
  sum := (foldl_chipped _ _ _).trans (occurrences_sum shape)

/-- What `html` has to be for `view`: the total in the header and the chips count the badges and
the findings of the body. -/
structure Faithful (view : ReportView) (html : String) : Prop where
  template : html = fill (reportTemplate (shape view.sections)) ((texts view).map escapeHtml)
  holes : holes (reportTemplate (shape view.sections)) = (texts view).length
  escaped : ∀ text ∈ texts view, Escaped (escapeHtml text) ∧ unescapeHtml (escapeHtml text) = text
  markup : tags html = templateTags (reportTemplate (shape view.sections))
  listed : ∃ severities body, body = view.sections.flatMap sectionElements ∧
    elements shown html = ("/strong", total (findingCount body)) ::
      (chipElements (badgeCount body) severities ++ body) ∧
    Chipped (badgeCount body) (findingCount body) severities

/-- Whatever strings a view holds, its HTML is the template of its severities filled with its
texts in escaped form, and shows each of its sections and findings once, in order, under a total
and chips that count them. -/
theorem buildReportHtml_faithful (view : ReportView) : Faithful view (buildReportHtml view) := by
  obtain ⟨hfill, hholes⟩ := buildReportHtml_fill view
  obtain ⟨hbadges, hfindings⟩ := counts_body view.sections
  constructor
  · exact hfill
  · rw [hholes, List.length_map]
  · exact fun text _ => ⟨escaped_escapeHtml text, unescape_escapeHtml text⟩
  · rw [hfill]
    refine tags_fill (closed_report _) fun x hx => ?_
    obtain ⟨text, -, rfl⟩ := List.mem_map.mp hx
    exact plain_escapeHtml text
  · refine ⟨chipped (occurrences (shape view.sections)), view.sections.flatMap sectionElements, rfl,
      ?_, ?_⟩
    · rw [hbadges, hfindings]
      exact elements_buildReportHtml view
    · rw [hbadges, hfindings]
      exact chipped_occurrences _

end FieldNote.ReportHtml
