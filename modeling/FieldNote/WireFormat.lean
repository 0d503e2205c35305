import FieldNote.CalendarText
import FieldNote.JobListing
import FieldNote.JsonFields
import FieldNote.QuietSync
import FieldNote.RefreshTokens

/-!
# Bodies on the wire

The server writes a DTO as a JSON object with its dates as ISO 8601 texts, and the device
decodes the fields of its own DTOs by name and reads the dates when it stores them. In the
other direction the device encodes a request with its slashes escaped and leaves out an
optional that is nil. The body parser takes no text above its limit. Fields whose type is not
the one the DTO declares are not converted here; neither side sends any.
-/
namespace FieldNote.WireFormat
open Json JobsService

def statusText : JobStatus → String
  | .CREATED => "CREATED"
  | .UPLOADING => "UPLOADING"
  | .QUEUED => "QUEUED"
  | .TRANSCRIBING => "TRANSCRIBING"
  | .COMPILING => "COMPILING"
  | .RENDERING => "RENDERING"
  | .READY => "READY"
  | .FAILED => "FAILED"

/-- `JobStatus(rawValue:)`. -/
def readStatus (s : String) : Option JobStatus :=
  [.CREATED, .UPLOADING, .QUEUED, .TRANSCRIBING, .COMPILING, .RENDERING, .READY, .FAILED].find?
    fun status => statusText status = s

def severityText : ApiSeverity → String
  | .info => "info"
  | .maintenance => "maintenance"
  | .repair => "repair"
  | .safety => "safety"

def readSeverity (s : String) : Option ApiSeverity :=
  [.safety, .repair, .maintenance, .info].find? fun severity => severityText severity = s

@[simp] theorem readStatus_text (status : JobStatus) :
    readStatus (statusText status) = some status := by
  cases status <;> decide

@[simp] theorem readSeverity_text (severity : ApiSeverity) :
    readSeverity (severityText severity) = some severity := by
  cases severity <;> decide

/-- `toISOString`. -/
def toISOString (t : ℕ) : String := String.ofList (CalendarText.print t)

/-- `ISO8601.date(from:)`, as milliseconds since 1970; earlier instants count as its start. -/
def isoDate (s : String) : ℕ :=
  (((CalendarText.read true s.toList).or (CalendarText.read false s.toList)).getD 0).toNat

theorem isoDate_toISOString {t : ℕ} (h : CalendarText.Representable t) :
    isoDate (toISOString t) = t := by
  simp [isoDate, toISOString, CalendarText.read_print h]

section Server

def findingJson (f : FindingDto) : Json :=
  .object [("id", .string f.id), ("text", .string f.text),
    ("severity", .string (severityText f.severity)), ("sortOrder", ofNat f.sortOrder)]

def sectionJson (s : SectionDto) : Json :=
  .object [("id", .string s.id), ("title", .string s.title), ("sortOrder", ofNat s.sortOrder),
    ("findings", .array (s.findings.map findingJson))]

def jobJson (dto : JobDto) : Json :=
  .object [("id", .string dto.id), ("label", .string dto.label),
    ("status", .string (statusText dto.status)),
    ("transcript", ofOption .string dto.transcript),
    ("errorMessage", ofOption .string dto.errorMessage),
    ("sections", .array (dto.sections.map sectionJson)),
    ("pdfUrl", ofOption .string dto.pdfUrl),
    ("createdAt", .string (toISOString dto.createdAt)),
    ("updatedAt", .string (toISOString dto.updatedAt))]

def uploadJson (upload : PresignedUpload) : Json :=
  .object [("url", .string upload.url), ("key", .string upload.key),
    ("contentType", .string upload.contentType),
    ("expiresInSeconds", ofNat upload.expiresInSeconds)]

/-- What the server answers with. -/
inductive Response where
  | job (dto : JobDto)
  | page (page : JobPage)
  | created (response : CreateJobResponse)
  | pdfUrl (dto : PdfUrlDto)
  | token (response : TokenResponse)
deriving DecidableEq

/-- The response types of the device's requests. -/
inductive ResponseKind where
  | job
  | page
  | created
  | pdfUrl
  | token
deriving DecidableEq

def Response.kind : Response → ResponseKind
  | .job _ => .job
  | .page _ => .page
  | .created _ => .created
  | .pdfUrl _ => .pdfUrl
  | .token _ => .token

def Response.json : Response → Json
  | .job dto => jobJson dto
  | .page jobs =>
      .object [("items", .array (jobs.items.map jobJson)),
        ("nextCursor", ofOption .string jobs.nextCursor)]
  | .created response =>
      .object
        [("job", jobJson response.job), ("audioUploadUrl", uploadJson response.audioUploadUrl)]
  | .pdfUrl dto =>
      .object [("url", .string dto.url), ("expiresInSeconds", ofNat dto.expiresInSeconds)]
  | .token response =>
      .object [("accessToken", .string response.accessToken),
        ("refreshToken", .string response.refreshToken), ("tokenType", .string "Bearer"),
        ("expiresIn", ofNat response.expiresIn), ("userId", .string response.userId)]

/-- `response.json(body)`. -/
def Response.text (r : Response) : String := r.json.stringify false

end Server

section Device

def readFinding (j : Json) : Option FindingDto := do
  let id ← field "id" asString j
  let text ← field "text" asString j
  let severity ← (field "severity" asString j).bind readSeverity
  let sortOrder ← field "sortOrder" asNat j
  some ⟨id, text, severity, sortOrder⟩

def readSection (j : Json) : Option SectionDto := do
  let id ← field "id" asString j
  let title ← field "title" asString j
  let sortOrder ← field "sortOrder" asNat j
  let findings ← field "findings" (asList readFinding) j
  some ⟨id, title, sortOrder, findings⟩

/-- `JobDTO`, its dates as `JobStore` reads them. -/
def readJob (j : Json) : Option JobDto := do
  let id ← field "id" asString j
  let label ← field "label" asString j
  let status ← (field "status" asString j).bind readStatus
  let transcript ← fieldIfPresent "transcript" asString j
  let errorMessage ← fieldIfPresent "errorMessage" asString j
  let sections ← field "sections" (asList readSection) j
  let pdfUrl ← fieldIfPresent "pdfUrl" asString j
  let createdAt ← field "createdAt" asString j
  let updatedAt ← field "updatedAt" asString j
  some ⟨id, label, status, transcript, errorMessage, sections, pdfUrl, isoDate createdAt,
    isoDate updatedAt⟩

def readUpload (j : Json) : Option PresignedUpload := do
  let url ← field "url" asString j
  let key ← field "key" asString j
  let contentType ← field "contentType" asString j
  let expiresInSeconds ← field "expiresInSeconds" asNat j
  some ⟨url, key, contentType, expiresInSeconds⟩

def readPage (j : Json) : Option JobPage := do
  let items ← field "items" (asList readJob) j
  let nextCursor ← fieldIfPresent "nextCursor" asString j
  some ⟨items, nextCursor⟩

def readCreated (j : Json) : Option CreateJobResponse := do
  let job ← field "job" readJob j
  let audioUploadUrl ← field "audioUploadUrl" readUpload j
  some ⟨job, audioUploadUrl⟩

def readPdfUrl (j : Json) : Option PdfUrlDto := do
  let url ← field "url" asString j
  let expiresInSeconds ← field "expiresInSeconds" asNat j
  some ⟨url, expiresInSeconds⟩

/-- The token type has to be there, whatever it is. -/
def readToken (j : Json) : Option TokenResponse := do
  let accessToken ← field "accessToken" asString j
  let refreshToken ← field "refreshToken" asString j
  let _ ← field "tokenType" asString j
  let expiresIn ← field "expiresIn" asNat j
  let userId ← field "userId" asString j
  some ⟨accessToken, refreshToken, expiresIn, userId⟩

def readResponse : ResponseKind → Json → Option Response
  | .job, j => (readJob j).map .job
  | .page, j => (readPage j).map .page
  | .created, j => (readCreated j).map .created
  | .pdfUrl, j => (readPdfUrl j).map .pdfUrl
  | .token, j => (readToken j).map .token

/-- `decoder.decode(Response.self, from: data)`. -/
def received (kind : ResponseKind) (text : String) : Option Response :=
  (parse text).bind (readResponse kind)

end Device

/-- The dates have texts with four digits for the year. -/
def Dated (dto : JobDto) : Prop :=
  CalendarText.Representable dto.createdAt ∧ CalendarText.Representable dto.updatedAt

instance (dto : JobDto) : Decidable (Dated dto) := inferInstanceAs (Decidable (_ ∧ _))

/-- Every job in the response is dated. -/
def Response.Dated : Response → Prop
  | .job dto => WireFormat.Dated dto
  | .page jobs => ∀ dto ∈ jobs.items, WireFormat.Dated dto
  | .created response => WireFormat.Dated response.job
  | .pdfUrl _ | .token _ => True

theorem wellFormed_nullable (s : Option String) : (ofOption Json.string s).WellFormed :=
  wellFormed_ofOption wellFormed_string s

theorem wellFormed_finding (f : FindingDto) : (findingJson f).WellFormed := by
  simp [findingJson]

theorem wellFormed_section (s : SectionDto) : (sectionJson s).WellFormed := by
  simp [sectionJson, wellFormed_finding]

theorem wellFormed_job (dto : JobDto) : (jobJson dto).WellFormed := by
  simp [jobJson, wellFormed_section, wellFormed_nullable]

theorem wellFormed_response (r : Response) : r.json.WellFormed := by
  cases r <;>
    simp [Response.json, uploadJson, wellFormed_job, wellFormed_nullable]

theorem read_nullable {name : String} {members : List (String × Json)} {a : Option String}
    (h : member name members = some (ofOption Json.string a)) :
    fieldIfPresent name asString (.object members) = some a :=
  fieldIfPresent_ofOption h asString_string fun _ => Json.noConfusion

theorem readFinding_json (f : FindingDto) : readFinding (findingJson f) = some f := by
  simp [readFinding, findingJson, member]

theorem readSection_json (s : SectionDto) : readSection (sectionJson s) = some s := by
  have hfindings := asList_map fun f (_ : f ∈ s.findings) => readFinding_json f
  simp [readSection, sectionJson, member, hfindings]

theorem readJob_json {dto : JobDto} (h : Dated dto) : readJob (jobJson dto) = some dto := by
  have hsections := asList_map fun s (_ : s ∈ dto.sections) => readSection_json s
  have htranscript : fieldIfPresent "transcript" asString (jobJson dto) = some dto.transcript :=
    read_nullable rfl
  have herror : fieldIfPresent "errorMessage" asString (jobJson dto) = some dto.errorMessage :=
    read_nullable rfl
  have hpdf : fieldIfPresent "pdfUrl" asString (jobJson dto) = some dto.pdfUrl :=
    read_nullable rfl
  simp only [readJob, htranscript, herror, hpdf]
  simp [jobJson, member, hsections, isoDate_toISOString h.1, isoDate_toISOString h.2]

theorem readUpload_json (upload : PresignedUpload) :
    readUpload (uploadJson upload) = some upload := by
  simp [readUpload, uploadJson, member]

theorem readResponse_json {r : Response} (h : r.Dated) :
    readResponse r.kind r.json = some r := by
  cases r with
  | job dto => simp [Response.kind, Response.json, readResponse, readJob_json h]
  | page jobs =>
      have hitems := asList_map fun dto (hdto : dto ∈ jobs.items) => readJob_json (h dto hdto)
      have hcursor : fieldIfPresent "nextCursor" asString (Response.page jobs).json =
          some jobs.nextCursor := read_nullable rfl
      simp only [Response.kind, readResponse, readPage, hcursor]
      simp [Response.json, member, hitems]
  | created response =>
      have hjob : readJob (jobJson response.job) = some response.job := readJob_json h
      simp [Response.kind, Response.json, readResponse, readCreated, member, hjob,
        readUpload_json]
  | pdfUrl dto => simp [Response.kind, Response.json, readResponse, readPdfUrl, member]
  | token response => simp [Response.kind, Response.json, readResponse, readToken, member]

/-- What the server sends is what the device decodes. -/
theorem response_received {r : Response} (h : r.Dated) : received r.kind r.text = some r := by
  rw [received, Response.text, parse_stringify false (wellFormed_response r), Option.bind_some]
  exact readResponse_json h

/-- A page whose job has a slash, a quote and a character outside the basic plane. -/
def demoPage : Response :=
  .page ⟨[⟨"j1", "12 \"Elm\" St / A 🏠", .READY, some "two\nlines", none,
    [⟨"s1", "Roof", 0, [⟨"f1", "tab\there", .safety, 0⟩]⟩], none, 1780576496789, 1780576496790⟩],
    some "j1"⟩

theorem response_received_demo : received .page demoPage.text = some demoPage :=
  response_received (r := demoPage) (by
    intro dto hdto
    obtain rfl := List.mem_singleton.mp hdto
    exact ⟨by decide, by decide⟩)

section Requests

/-- The bodies of the device's requests. -/
inductive RequestBody where
  | signIn (identityToken : String) (nonce email : Option String)
  | refresh (refreshToken : String)
  | create (label : String)
  | update (dto : UpdateJobDto)
deriving DecidableEq

inductive RequestKind where
  | signIn
  | refresh
  | create
  | update
deriving DecidableEq

def RequestBody.kind : RequestBody → RequestKind
  | .signIn _ _ _ => .signIn
  | .refresh _ => .refresh
  | .create _ => .create
  | .update _ => .update

/-- `encodeIfPresent`. -/
def ifPresent {α : Type} (name : String) (write : α → Json) : Option α → List (String × Json)
  | none => []
  | some a => [(name, write a)]

def fieldMember {α : Type} (name : String) (write : α → Json) :
    JobsService.Field α → List (String × Json)
  | .undefined => []
  | .null => [(name, .null)]
  | .value a => [(name, write a)]

def updateFindingJson (f : UpdateFindingDto) : Json :=
  .object [("text", .string f.text), ("severity", .string (severityText f.severity)),
    ("sortOrder", ofNat f.sortOrder)]

def updateSectionJson (s : UpdateSectionDto) : Json :=
  .object [("title", .string s.title), ("sortOrder", ofNat s.sortOrder),
    ("findings", .array (s.findings.map updateFindingJson))]

def sectionsJson (sections : List UpdateSectionDto) : Json :=
  .array (sections.map updateSectionJson)

def RequestBody.json : RequestBody → Json
  | .signIn identityToken nonce email =>
      .object (("identityToken", .string identityToken) :: ifPresent "nonce" .string nonce ++
        ifPresent "email" .string email)
  | .refresh refreshToken => .object [("refreshToken", .string refreshToken)]
  | .create label => .object [("label", .string label)]
  | .update dto =>
      .object (fieldMember "label" .string dto.label ++
        fieldMember "sections" sectionsJson dto.sections)

/-- `encoder.encode(body)`. -/
def RequestBody.text (b : RequestBody) : String := b.json.stringify true

/-- `forbidNonWhitelisted`: a member that the DTO does not declare is an error. -/
def only (names : List String) : Json → Option Json
  | .object members =>
      if members.all fun m => names.contains m.1 then some (.object members) else none
  | _ => none

/-- A field under `@IsOptional()`. -/
def readField {α : Type} (name : String) (read : Json → Option α) :
    Json → Option (JobsService.Field α)
  | .object members =>
      match member name members with
      | none => some .undefined
      | some .null => some .null
      | some j => (read j).map .value
  | _ => none

def readUpdateFinding (j : Json) : Option UpdateFindingDto := do
  let j ← only ["text", "severity", "sortOrder"] j
  let text ← field "text" asString j
  let severity ← (field "severity" asString j).bind readSeverity
  let sortOrder ← field "sortOrder" asNat j
  some ⟨text, severity, sortOrder⟩

def readUpdateSection (j : Json) : Option UpdateSectionDto := do
  let j ← only ["title", "sortOrder", "findings"] j
  let title ← field "title" asString j
  let sortOrder ← field "sortOrder" asNat j
  let findings ← field "findings" (asList readUpdateFinding) j
  some ⟨title, sortOrder, findings⟩

def readRequest : RequestKind → Json → Option RequestBody
  | .signIn, j => do
      let j ← only ["identityToken", "nonce", "email"] j
      let identityToken ← field "identityToken" asString j
      let nonce ← fieldIfPresent "nonce" asString j
      let email ← fieldIfPresent "email" asString j
      some (.signIn identityToken nonce email)
  | .refresh, j => do
      let j ← only ["refreshToken"] j
      let refreshToken ← field "refreshToken" asString j
      some (.refresh refreshToken)
  | .create, j => do
      let j ← only ["label"] j
      let label ← field "label" asString j
      some (.create label)
  | .update, j => do
      let j ← only ["label", "sections"] j
      let label ← readField "label" asString j
      let sections ← readField "sections" (asList readUpdateSection) j
      some (.update ⟨label, sections⟩)

/-- `@MinLength(low) @MaxLength(high)`. -/
def lengthIn (low high : ℕ) (s : String) : Bool :=
  low ≤ JsText.charCount s && JsText.charCount s ≤ high

/-- The checks of the DTOs. -/
def RequestBody.valid : RequestBody → Bool
  | .signIn identityToken nonce email =>
      lengthIn 1 8192 identityToken && nonce.all (lengthIn 0 256) && email.all (lengthIn 0 320)
  | .refresh refreshToken => lengthIn 1 512 refreshToken
  | .create label => lengthIn 1 200 label
  | .update dto => dto.valid

/-- The body parser's default limit of 100 kB. -/
def bodyLimit : ℕ := 102400

/-- Why a body does not reach its handler: the parser takes no text of that size, or what it
reads fails the validation. -/
inductive Refusal where
  | tooLarge
  | invalid
deriving DecidableEq, Repr

/-- The body parser and the validation pipe. -/
def accepted (kind : RequestKind) (text : String) : Except Refusal RequestBody :=
  if bodyLimit < text.utf8ByteSize then .error .tooLarge
  else
    match ((parse text).bind (readRequest kind)).filter RequestBody.valid with
    | none => .error .invalid
    | some body => .ok body

theorem wellFormed_sections (sections : List UpdateSectionDto) :
    (sectionsJson sections).WellFormed := by
  simp [sectionsJson, updateSectionJson, updateFindingJson]

theorem wellFormed_request (b : RequestBody) : b.json.WellFormed := by
  have hoptional (name : String) (a : Option String) :
      ∀ m ∈ ifPresent name Json.string a, m.2.WellFormed := by
    cases a <;> simp [ifPresent]
  have hfield {α : Type} (name : String) (write : α → Json) (hwrite : ∀ a, (write a).WellFormed)
      (a : JobsService.Field α) : ∀ m ∈ fieldMember name write a, m.2.WellFormed := by
    cases a with
    | undefined => simp [fieldMember]
    | null => simp [fieldMember, WellFormed]
    | value a => simp [fieldMember, hwrite]
  cases b with
  | signIn identityToken nonce email =>
      simp only [RequestBody.json, wellFormed_object, List.cons_append, List.forall_mem_cons,
        List.forall_mem_append]
      exact ⟨trivial, hoptional "nonce" nonce, hoptional "email" email⟩
  | refresh refreshToken => simp [RequestBody.json]
  | create label => simp [RequestBody.json]
  | update dto =>
      simp only [RequestBody.json, wellFormed_object, List.forall_mem_append]
      exact ⟨hfield "label" _ wellFormed_string dto.label,
        hfield "sections" _ wellFormed_sections dto.sections⟩

theorem readUpdateFinding_json (f : UpdateFindingDto) :
    readUpdateFinding (updateFindingJson f) = some f := by
  simp [readUpdateFinding, updateFindingJson, only, member]

theorem readUpdateSection_json (s : UpdateSectionDto) :
    readUpdateSection (updateSectionJson s) = some s := by
  have hfindings := asList_map fun f (_ : f ∈ s.findings) => readUpdateFinding_json f
  simp [readUpdateSection, updateSectionJson, only, member, hfindings]

theorem readRequest_json (b : RequestBody) : readRequest b.kind b.json = some b := by
  cases b with
  | signIn identityToken nonce email =>
      cases nonce <;> cases email <;>
        simp [RequestBody.kind, RequestBody.json, readRequest, ifPresent, only, member,
          fieldIfPresent]
  | refresh refreshToken =>
      simp [RequestBody.kind, RequestBody.json, readRequest, only, member]
  | create label => simp [RequestBody.kind, RequestBody.json, readRequest, only, member]
  | update dto =>
      obtain ⟨label, sections⟩ := dto
      have hsections (sections : List UpdateSectionDto) :
          asList readUpdateSection (.array (sections.map updateSectionJson)) = some sections :=
        asList_map fun s _ => readUpdateSection_json s
      cases label <;> cases sections <;>
        simp [RequestBody.kind, RequestBody.json, readRequest, fieldMember, only, member,
          readField, sectionsJson, hsections]

/-- The server takes exactly what the device has encoded, if the text is within the parser's
limit and passes the checks. -/
theorem request_accepted (b : RequestBody) :
    accepted b.kind b.text =
      if bodyLimit < b.text.utf8ByteSize then .error .tooLarge
      else if b.valid then .ok b else .error .invalid := by
  have hread : (parse b.text).bind (readRequest b.kind) = some b := by
    rw [RequestBody.text, parse_stringify true (wellFormed_request b), Option.bind_some,
      readRequest_json]
  rw [accepted, hread, Option.filter_some]
  split_ifs <;> rfl

end Requests

end FieldNote.WireFormat
