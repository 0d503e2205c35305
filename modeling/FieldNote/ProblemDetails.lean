import FieldNote.WireFormat

/-!
# Problem documents

The exception filter turns whatever was thrown into one JSON document, and the device takes
its text from the document's message. The filter declares that the error is a string and that the
message is a string, or a list of strings when the validation pipe refused the body; but it
passes on what the body of an HTTP exception has there, such as the object with which the health
check reports a failure, and the device reads no document with another error or message.
-/
namespace FieldNote.ProblemDetails
open Json WireFormat

inductive Message where
  | single (text : String)
  | many (texts : List String)
deriving DecidableEq

def messageJson : Message → Json
  | .single text => .string text
  | .many texts => .array (texts.map .string)

/-- A value as `JSON.stringify` writes it. -/
abbrev Value := { j : Json // j.WellFormed }

/-- `getResponse()` of an HTTP exception: a text, or an object with any JSON values. -/
inductive ExceptionResponse where
  | text (text : String)
  | object (message error : Option Value)

/-- What a handler can throw. The message of an error that is not an HTTP exception stays on
the server. -/
inductive Exception where
  | http (status : ℕ) (name message : String) (response : ExceptionResponse)
  | prismaKnown (code message : String)
  | prismaValidation (message : String)
  | other (message : String)

structure Normalized where
  status : ℕ
  error : Json
  message : Json

/-- `value ?? fallback`. -/
def nullish (value : Option Value) (fallback : String) : Json :=
  match value with
  | none | some ⟨.null, _⟩ => .string fallback
  | some j => j

def mapPrisma (code : String) : Normalized :=
  if code = "P2025" then ⟨404, .string "Not Found", .string "Resource not found."⟩
  else if code = "P2002" then ⟨409, .string "Conflict", .string "Resource already exists."⟩
  else if code = "P2003" then ⟨400, .string "Bad Request", .string "Related resource missing."⟩
  else ⟨500, .string "Internal Server Error", .string "A database error occurred."⟩

def normalize : Exception → Normalized
  | .http status name _ (.text text) => ⟨status, .string name, .string text⟩
  | .http status name message (.object said error) =>
      ⟨status, nullish error name, nullish said message⟩
  | .prismaKnown code _ => mapPrisma code
  | .prismaValidation _ =>
      ⟨400, .string "Bad Request", .string "Invalid query parameters."⟩
  | .other _ =>
      ⟨500, .string "Internal Server Error", .string "An unexpected error occurred."⟩

/-- The request that failed, as far as the document names it. -/
structure FailedRequest where
  id : Option String
  url : String
  now : ℕ

/-- The body that `catch` answers with. -/
def problemJson (request : FailedRequest) (n : Normalized) : Json :=
  .object ([("statusCode", ofNat n.status), ("error", n.error), ("message", n.message)] ++
    ifPresent "requestId" .string request.id ++
      [("timestamp", .string (toISOString request.now)), ("path", .string request.url)])

def problemText (request : FailedRequest) (e : Exception) : String :=
  (problemJson request (normalize e)).stringify false

/-- `ProblemMessage.init(from:)`: a string is tried first. -/
def readMessage (j : Json) : Option Message :=
  match asString j with
  | some text => some (.single text)
  | none => (asList asString j).map .many

def Message.text : Message → String
  | .single value => value
  | .many values => String.intercalate " " values

/-- `ProblemResponse`. -/
structure ProblemResponse where
  statusCode : Option ℕ
  error : Option String
  message : Option Message
  path : Option String
deriving DecidableEq

def readProblem (j : Json) : Option ProblemResponse := do
  let statusCode ← fieldIfPresent "statusCode" asNat j
  let error ← fieldIfPresent "error" asString j
  let message ← fieldIfPresent "message" readMessage j
  let path ← fieldIfPresent "path" asString j
  some ⟨statusCode, error, message, path⟩

/-- `problemDetail(from:)`. -/
def problemDetail (text : String) : Option String :=
  ((parse text).bind readProblem).bind fun problem =>
    (problem.message.map Message.text).or problem.error

def serverError (status : ℕ) : String :=
  "The server returned an error (" ++ toString status ++ ")."

/-- What the device shows for an answer that is not a success: the `errorDescription` of
`APIError.server`. -/
def errorDescription (status : ℕ) (text : String) : String :=
  (problemDetail text).getD (serverError status)

/-- The error and the message are of the types that the filter declares for them. -/
structure Declared (n : Normalized) (m : Message) : Prop where
  error : ∃ name, n.error = .string name
  message : n.message = messageJson m

theorem nullish_spec (value : Option Value) (fallback : String) :
    nullish value fallback ≠ .null ∧ (nullish value fallback).WellFormed := by
  unfold nullish
  split
  · exact ⟨Json.noConfusion, trivial⟩
  · exact ⟨Json.noConfusion, trivial⟩
  · rename_i j hnull
    refine ⟨?_, j.2⟩
    intro hj
    obtain ⟨v, hv⟩ := j
    cases hj
    exact hnull hv rfl

theorem normalize_spec (e : Exception) : ((normalize e).error ≠ .null ∧
      (normalize e).error.WellFormed) ∧
    (normalize e).message ≠ .null ∧ (normalize e).message.WellFormed := by
  have htexts (status : ℕ) (error text : String) :
      ((⟨status, .string error, .string text⟩ : Normalized).error ≠ .null ∧
        (Json.string error).WellFormed) ∧ Json.string text ≠ .null ∧
          (Json.string text).WellFormed :=
    ⟨⟨Json.noConfusion, trivial⟩, Json.noConfusion, trivial⟩
  cases e with
  | http status name message response =>
      cases response with
      | text text => exact htexts status name text
      | object said error => exact ⟨nullish_spec error name, nullish_spec said message⟩
  | prismaKnown code message =>
      simp only [normalize, mapPrisma]
      split_ifs <;> exact htexts _ _ _
  | prismaValidation message => exact htexts _ _ _
  | other message => exact htexts _ _ _

theorem wellFormed_problem (request : FailedRequest) (e : Exception) :
    (problemJson request (normalize e)).WellFormed := by
  obtain ⟨⟨-, herror⟩, -, hmessage⟩ := normalize_spec e
  cases hid : request.id <;> simp [problemJson, ifPresent, hid, herror, hmessage]

theorem readMessage_json (m : Message) : readMessage (messageJson m) = some m := by
  cases m with
  | single text => rfl
  | many texts =>
      have htexts : asList asString (.array (texts.map .string)) = some texts :=
        asList_map fun text _ => asString_string text
      simp [readMessage, messageJson, asString, htexts]

/-- What reads as a text is one. -/
theorem asString_eq_some {j : Json} {text : String} (h : asString j = some text) :
    j = .string text := by
  unfold asString at h
  split at h <;> cases h
  rfl

theorem strings_eq_some {items : List Json} {texts : List String}
    (h : items.mapM asString = some texts) : items = texts.map .string := by
  induction items generalizing texts with
  | nil =>
      cases h
      rfl
  | cons j items ih =>
      simp only [List.mapM_cons, Option.bind_eq_bind, Option.bind_eq_some_iff, Option.pure_def,
        Option.some.injEq] at h
      obtain ⟨text, htext, rest, hrest, rfl⟩ := h
      rw [asString_eq_some htext, ih hrest, List.map_cons]

/-- What the device reads as a message is a string or a list of strings. -/
theorem readMessage_eq_some {j : Json} {m : Message} (h : readMessage j = some m) :
    j = messageJson m := by
  unfold readMessage at h
  split at h
  · rename_i text htext
    cases h
    exact asString_eq_some htext
  · obtain ⟨texts, htexts, rfl⟩ := Option.map_eq_some_iff.mp h
    unfold asList at htexts
    split at htexts
    · rw [strings_eq_some htexts, messageJson]
    · cases htexts

theorem fieldIfPresent_present {α : Type} {name : String} {read : Json → Option α}
    {members : List (String × Json)} {j : Json} (h : member name members = some j)
    (hnull : j ≠ .null) : fieldIfPresent name read (.object members) = (read j).map some := by
  simp only [fieldIfPresent, h]

theorem readProblem_json (request : FailedRequest) (e : Exception) :
    readProblem (problemJson request (normalize e)) =
      (asString (normalize e).error).bind fun error =>
        (readMessage (normalize e).message).map fun message =>
          ⟨some (normalize e).status, some error, some message, some request.url⟩ := by
  obtain ⟨⟨herror, -⟩, hmessage, -⟩ := normalize_spec e
  have hmessage' : fieldIfPresent "message" readMessage (problemJson request (normalize e)) =
      (readMessage (normalize e).message).map some := by
    refine fieldIfPresent_present ?_ hmessage
    cases request.id <;> simp [ifPresent, member]
  have hstatus : fieldIfPresent "statusCode" asNat (problemJson request (normalize e)) =
      some (some (normalize e).status) := by
    refine fieldIfPresent_ofOption (a := some (normalize e).status) ?_ asNat_ofNat ?_
    · cases request.id <;> simp [ifPresent, member, ofOption]
    · exact fun _ => Json.noConfusion
  have herror' : fieldIfPresent "error" asString (problemJson request (normalize e)) =
      (asString (normalize e).error).map some := by
    refine fieldIfPresent_present ?_ herror
    cases request.id <;> simp [ifPresent, member]
  have hpath : fieldIfPresent "path" asString (problemJson request (normalize e)) =
      some (some request.url) := by
    apply read_nullable
    cases request.id <;> simp [ifPresent, member, ofOption]
  rw [readProblem, hstatus, herror', hmessage', hpath]
  cases asString (normalize e).error <;> cases readMessage (normalize e).message <;> rfl

theorem errorDescription_problem (request : FailedRequest) (e : Exception) :
    errorDescription (normalize e).status (problemText request e) =
      ((asString (normalize e).error).bind fun _ =>
        (readMessage (normalize e).message).map Message.text).getD
          (serverError (normalize e).status) := by
  have hparse := parse_stringify false (wellFormed_problem request e)
  rw [errorDescription, problemDetail, problemText, hparse, Option.bind_some, readProblem_json]
  cases asString (normalize e).error <;> cases readMessage (normalize e).message <;> rfl

/-- Whatever was thrown, the device shows the message that the filter chose when the error and
the message are what the filter declares them to be, and names only the status otherwise. -/
theorem problem_shown (request : FailedRequest) (e : Exception) :
    (∀ m, Declared (normalize e) m →
      errorDescription (normalize e).status (problemText request e) = m.text) ∧
    ((∀ m, ¬ Declared (normalize e) m) →
      errorDescription (normalize e).status (problemText request e) =
        serverError (normalize e).status) := by
  rw [errorDescription_problem]
  constructor
  · rintro m ⟨⟨name, herror⟩, hmessage⟩
    rw [herror, hmessage, asString_string, readMessage_json]
    rfl
  · intro h
    cases herror : asString (normalize e).error with
    | none => rfl
    | some name =>
        cases hmessage : readMessage (normalize e).message with
        | none => rfl
        | some m =>
            exact (h m ⟨⟨name, asString_eq_some herror⟩, readMessage_eq_some hmessage⟩).elim

def demoRequest : FailedRequest := ⟨some "req-1", "/health", 5000⟩

/-- A failed health check has an object where the name of the error belongs. -/
def healthFailure : Exception :=
  .http 503 "ServiceUnavailableException" "Service Unavailable Exception"
    (.object none (some ⟨.object [("database", .object [("status", .string "down")])], by simp⟩))

def refusedBody : Exception :=
  .http 400 "BadRequestException" "Bad Request Exception"
    (.object (some ⟨messageJson (.many ["label is too long", "severity is unknown"]), by
      simp [messageJson]⟩) (some ⟨.string "Bad Request", trivial⟩))

theorem problem_shown_demo :
    errorDescription 400 (problemText demoRequest refusedBody) =
        "label is too long severity is unknown" ∧
      errorDescription 503 (problemText demoRequest healthFailure) =
        "The server returned an error (503)." := by
  have hundeclared : ∀ m, ¬ Declared (normalize healthFailure) m := by
    rintro m ⟨⟨name, hname⟩, -⟩
    cases hname
  have hdeclared : Declared (normalize refusedBody)
      (.many ["label is too long", "severity is unknown"]) := ⟨⟨_, rfl⟩, rfl⟩
  refine ⟨?_, ?_⟩
  · exact (problem_shown demoRequest refusedBody).1 _ hdeclared
  · exact (problem_shown demoRequest healthFailure).2 hundeclared

end FieldNote.ProblemDetails
