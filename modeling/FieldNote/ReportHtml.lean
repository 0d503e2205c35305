import FieldNote.Stores
import Mathlib.Data.Nat.Find

/-!
# The HTML of a report

`report-html.ts`: the document is one template string. Strings of the view go through
`escapeHtml` where they are inserted; the literals between them are named after what they open.
-/
namespace FieldNote.ReportHtml

structure SeverityStyle where
  label : String
  fg : String
  bg : String
  border : String

/-- `SEVERITY_STYLES`. -/
def severityStyles : ApiSeverity → SeverityStyle
  | .safety => ⟨"Safety", "#7f1d1d", "#fee2e2", "#fca5a5"⟩
  | .repair => ⟨"Repair", "#7c2d12", "#ffedd5", "#fdba74"⟩
  | .maintenance => ⟨"Maintenance", "#713f12", "#fef9c3", "#fde047"⟩
  | .info => ⟨"Info", "#1e3a8a", "#dbeafe", "#93c5fd"⟩

def severityOrder : List ApiSeverity := [.safety, .repair, .maintenance, .info]

/-- `HTML_ESCAPES`. -/
def htmlEscapes : Char → Option String
  | '&' => some "&amp;"
  | '<' => some "&lt;"
  | '>' => some "&gt;"
  | '"' => some "&quot;"
  | '\'' => some "&#39;"
  | _ => none

def escapeHtml (value : String) : String :=
  String.ofList (value.toList.flatMap fun ch => ((htmlEscapes ch).map String.toList).getD [ch])

def countBySeverity (sections : List ReportSectionView) : ApiSeverity → ℕ :=
  sections.foldl (fun counts section_ => section_.findings.foldl (fun counts finding =>
    Function.update counts finding.severity (counts finding.severity + 1)) counts) fun _ => 0

/-! ## Dates: the calendar of ECMAScript, from 1970 on. -/

/-- The day on which a year begins, counted from 1970. -/
def dayFromYear (y : ℕ) : ℕ :=
  365 * (y - 1970) + (y - 1969) / 4 - (y - 1901) / 100 + (y - 1601) / 400

def yearFromDay (day : ℕ) : ℕ := Nat.findGreatest (fun y => dayFromYear y ≤ day) (1970 + day / 365)

def inLeapYear (y : ℕ) : Bool := y % 4 = 0 && (y % 100 ≠ 0 || y % 400 = 0)

def monthLengths (leap : Bool) : List ℕ :=
  [31, if leap then 29 else 28, 31, 30, 31, 30, 31, 31, 30, 31, 30, 31]

/-- The month and the day of the month of a day of the year. -/
def monthAndDate : List ℕ → ℕ → ℕ × ℕ
  | [], day => (0, day + 1)
  | n :: lengths, day =>
      if day < n then (0, day + 1)
      else ((monthAndDate lengths (day - n)).1 + 1, (monthAndDate lengths (day - n)).2)

def months : List String :=
  ["January", "February", "March", "April", "May", "June", "July", "August", "September",
    "October", "November", "December"]

/-- `padStart(2, '0')`. -/
def padStart (s : String) : String := String.ofList (List.replicate (2 - s.length) '0') ++ s

/-- `date` is in milliseconds since 1970. -/
def formatDate (date : ℕ) : String :=
  let day := date / 86400000
  let y := yearFromDay day
  let md := monthAndDate (monthLengths (inLeapYear y)) (day - dayFromYear y)
  let hh := padStart (toString (date / 3600000 % 24))
  let mm := padStart (toString (date / 60000 % 60))
  months.getD md.1 "" ++ " " ++ toString md.2 ++ ", " ++ toString y ++ " at " ++ hh ++ ":" ++ mm ++
    " UTC"

/-! ## The literals of the template. -/

def documentHead : String :=
  "<!doctype html>\n<html lang=\"en\">\n<head>\n<meta charset=\"utf-8\" />\n" ++
  "<meta name=\"viewport\" content=\"width=device-width, initial-scale=1\" />\n<title>"

def styleHead : String := " — Inspection Report</title>\n<style>\n"

def styleLines : List String := [
  "  :root \x7b color-scheme: light; \x7d",
  "  * \x7b box-sizing: border-box; \x7d",
  "  html, body \x7b margin: 0; padding: 0; \x7d",
  "  body \x7b",
  "    font-family: -apple-system, BlinkMacSystemFont, \"Segoe UI\", Roboto, Helvetica, Arial, sans-serif;",
  "    color: #0f172a;",
  "    font-size: 12px;",
  "    line-height: 1.5;",
  "    -webkit-print-color-adjust: exact;",
  "    print-color-adjust: exact;",
  "  \x7d",
  "  .page \x7b padding: 40px 44px; \x7d",
  "  header.report-head \x7b",
  "    border-bottom: 3px solid #0f172a;",
  "    padding-bottom: 16px;",
  "    margin-bottom: 24px;",
  "  \x7d",
  "  .brand \x7b font-size: 13px; font-weight: 700; letter-spacing: 0.14em; text-transform: uppercase; color: #2563eb; \x7d",
  "  h1 \x7b font-size: 24px; margin: 6px 0 2px; line-height: 1.2; \x7d",
  "  .meta \x7b color: #475569; font-size: 11px; margin-top: 4px; \x7d",
  "  .meta strong \x7b color: #0f172a; \x7d",
  "  .summary \x7b margin: 18px 0 28px; \x7d",
  "  .summary-title \x7b font-size: 11px; text-transform: uppercase; letter-spacing: 0.08em; color: #64748b; margin-bottom: 8px; \x7d",
  "  .chips \x7b display: flex; flex-wrap: wrap; gap: 8px; \x7d",
  "  .chip \x7b",
  "    display: inline-block;",
  "    font-size: 11px;",
  "    font-weight: 600;",
  "    padding: 3px 10px;",
  "    border-radius: 999px;",
  "    border: 1px solid transparent;",
  "  \x7d",
  "  section.report-section \x7b margin-bottom: 22px; page-break-inside: avoid; \x7d",
  "  section.report-section > h2 \x7b",
  "    font-size: 15px;",
  "    margin: 0 0 10px;",
  "    padding-bottom: 6px;",
  "    border-bottom: 1px solid #e2e8f0;",
  "  \x7d",
  "  ul.findings \x7b list-style: none; margin: 0; padding: 0; \x7d",
  "  li.finding \x7b",
  "    display: flex;",
  "    gap: 12px;",
  "    align-items: flex-start;",
  "    padding: 9px 0;",
  "    border-bottom: 1px solid #f1f5f9;",
  "    page-break-inside: avoid;",
  "  \x7d",
  "  li.finding:last-child \x7b border-bottom: none; \x7d",
  "  .sev \x7b",
  "    flex: 0 0 auto;",
  "    font-size: 10px;",
  "    font-weight: 700;",
  "    text-transform: uppercase;",
  "    letter-spacing: 0.04em;",
  "    padding: 2px 8px;",
  "    border-radius: 4px;",
  "    border: 1px solid transparent;",
  "    min-width: 74px;",
  "    text-align: center;",
  "  \x7d",
  "  .finding-text \x7b flex: 1 1 auto; \x7d",
  "  .empty \x7b color: #64748b; font-style: italic; \x7d",
  "  footer.report-foot \x7b",
  "    margin-top: 32px;",
  "    padding-top: 12px;",
  "    border-top: 1px solid #e2e8f0;",
  "    color: #94a3b8;",
  "    font-size: 10px;",
  "    display: flex;",
  "    justify-content: space-between;",
  "  \x7d"]

def bodyHead : String :=
  "</style>\n</head>\n<body>\n  <div class=\"page\">\n    <header class=\"report-head\">\n      " ++
  "<div class=\"brand\">FieldNote</div>\n      <h1>"

def metaHead : String :=
  "</h1>\n      <div class=\"meta\">Inspection Report &middot; Generated <strong>"

def summaryHead : String :=
  "\n    </header>\n\n    <div class=\"summary\">\n      " ++
  "<div class=\"summary-title\">Summary</div>\n      <div class=\"chips\">"

def noFindings : String :=
  "<span class=\"chip\" style=\"color:#1e3a8a;background:#dbeafe;border-color:#93c5fd\">" ++
  "No findings</span>"

def summaryEnd : String := "</div>\n    </div>\n\n    "

def noSections : String :=
  "<p class=\"empty\">No findings were recorded for this inspection.</p>"

def footHead : String :=
  "\n\n    <footer class=\"report-foot\">\n      <span>Generated by FieldNote</span>\n      " ++
  "<span>Report "

def documentEnd : String := "</span>\n    </footer>\n  </div>\n</body>\n</html>"

/-! ## The builder. -/

/-- The `style` attribute of chips and badges. -/
def colours (s : SeverityStyle) : String :=
  "color:" ++ s.fg ++ ";background:" ++ s.bg ++ ";border-color:" ++ s.border

def summaryChip (counts : ApiSeverity → ℕ) (sev : ApiSeverity) : String :=
  let s := severityStyles sev
  "<span class=\"chip\" style=\"" ++ colours s ++ "\">" ++ s.label ++ ": " ++
    toString (counts sev) ++ "</span>"

def summaryChips (counts : ApiSeverity → ℕ) : String :=
  String.join ((severityOrder.filter fun sev => 0 < counts sev).map (summaryChip counts))

def renderFinding (f : ReportFindingView) : String :=
  let s := severityStyles f.severity
  "      <li class=\"finding\">\n        " ++
    "<span class=\"sev\" style=\"" ++ colours s ++ "\">" ++ s.label ++ "</span>" ++
    "\n        " ++ "<span class=\"finding-text\">" ++ escapeHtml f.text ++ "</span>" ++
    "\n      </li>"

def renderSection (section_ : ReportSectionView) : String :=
  "    <section class=\"report-section\">\n      " ++
    "<h2>" ++ escapeHtml section_.title ++ "</h2>" ++ "\n      <ul class=\"findings\">\n" ++
    String.intercalate "\n" (section_.findings.map renderFinding) ++
    "\n      </ul>\n    </section>"

def sectionsHtml (sections : List ReportSectionView) : String :=
  if sections.length = 0 then noSections
  else String.intercalate "\n" (sections.map renderSection)

def buildReportHtml (view : ReportView) : String :=
  let counts := countBySeverity view.sections
  let totalFindings : ℕ := view.sections.foldl (fun n s => n + s.findings.length) 0
  let generated := formatDate view.generatedAt
  let chips := summaryChips counts
  documentHead ++ escapeHtml view.label ++ styleHead ++
    String.join (styleLines.map fun line => line ++ "\n") ++
    bodyHead ++ escapeHtml view.label ++ metaHead ++ escapeHtml generated ++
    "</strong>" ++ " &middot; " ++ toString totalFindings ++ " finding" ++
    (if totalFindings = 1 then "" else "s") ++ "</div>" ++
    summaryHead ++ (if chips = "" then noFindings else chips) ++
    summaryEnd ++ sectionsHtml view.sections ++
    footHead ++ escapeHtml view.jobId ++ documentEnd

end FieldNote.ReportHtml
