import FieldNote.JsNumber
import FieldNote.JsonSchema
import Mathlib.Data.List.Infix

/-!
# The boot-time configuration

`rawSchema` reads each variable by a rule of its own and `superRefine` checks rules across
variables. A field rule either aborts, as a missing or wrongly typed value does, or reads a
value and may find it bad; once a field has aborted the object has no value and the rules
across variables are not run. Whether a text is a URL is the platform's to say.
-/
namespace FieldNote.EnvConfig

inductive NodeEnv where
  | development
  | test
  | production
deriving DecidableEq

inductive LogLevel where
  | fatal
  | error
  | warn
  | info
  | debug
  | trace
  | silent
deriving DecidableEq

inductive TranscriptionProvider where
  | deepgram
  | openai
deriving DecidableEq

/-- The keys of `rawSchema`. -/
inductive Var where
  | NODE_ENV
  | PORT
  | APP_BASE_URL
  | CORS_ORIGINS
  | LOG_LEVEL
  | DATABASE_URL
  | REDIS_URL
  | R2_ACCOUNT_ID
  | R2_ACCESS_KEY_ID
  | R2_SECRET_ACCESS_KEY
  | R2_BUCKET
  | R2_ENDPOINT
  | R2_FORCE_PATH_STYLE
  | R2_PRESIGN_PUT_TTL
  | R2_PRESIGN_GET_TTL
  | AUDIO_RETENTION_DAYS
  | TRANSCRIPTION_PROVIDER
  | DEEPGRAM_API_KEY
  | DEEPGRAM_MODEL
  | OPENAI_API_KEY
  | OPENAI_TRANSCRIBE_MODEL
  | DEEPSEEK_API_KEY
  | DEEPSEEK_BASE_URL
  | REPORT_MODEL
  | MAX_AUDIO_SECONDS
  | WORKER_CONCURRENCY
  | STAGE_TIMEOUT_MS
  | JOB_MAX_ATTEMPTS
  | USE_MOCK_AI
  | APPLE_TEAM_ID
  | APPLE_KEY_ID
  | APPLE_CLIENT_ID
  | APPLE_PRIVATE_KEY
  | APPLE_AUTH_DEV_BYPASS
  | JWT_ACCESS_SECRET
  | JWT_REFRESH_SECRET
  | JWT_ACCESS_TTL
  | JWT_REFRESH_TTL
  | BULL_BOARD_USER
  | BULL_BOARD_PASSWORD
deriving DecidableEq

namespace Var

/-- The variables in the order of the schema. -/
def all : List Var :=
  [.NODE_ENV, .PORT, .APP_BASE_URL, .CORS_ORIGINS, .LOG_LEVEL, .DATABASE_URL, .REDIS_URL,
    .R2_ACCOUNT_ID, .R2_ACCESS_KEY_ID, .R2_SECRET_ACCESS_KEY, .R2_BUCKET, .R2_ENDPOINT,
    .R2_FORCE_PATH_STYLE, .R2_PRESIGN_PUT_TTL, .R2_PRESIGN_GET_TTL, .AUDIO_RETENTION_DAYS,
    .TRANSCRIPTION_PROVIDER, .DEEPGRAM_API_KEY, .DEEPGRAM_MODEL, .OPENAI_API_KEY,
    .OPENAI_TRANSCRIBE_MODEL, .DEEPSEEK_API_KEY, .DEEPSEEK_BASE_URL, .REPORT_MODEL,
    .MAX_AUDIO_SECONDS, .WORKER_CONCURRENCY, .STAGE_TIMEOUT_MS, .JOB_MAX_ATTEMPTS, .USE_MOCK_AI,
    .APPLE_TEAM_ID, .APPLE_KEY_ID, .APPLE_CLIENT_ID, .APPLE_PRIVATE_KEY, .APPLE_AUTH_DEV_BYPASS,
    .JWT_ACCESS_SECRET, .JWT_REFRESH_SECRET, .JWT_ACCESS_TTL, .JWT_REFRESH_TTL, .BULL_BOARD_USER,
    .BULL_BOARD_PASSWORD]

theorem mem_all (x : Var) : x ∈ all := by
  cases x <;> decide

/-- The name under which the environment has the variable. -/
def name : Var → String
  | .NODE_ENV => "NODE_ENV"
  | .PORT => "PORT"
  | .APP_BASE_URL => "APP_BASE_URL"
  | .CORS_ORIGINS => "CORS_ORIGINS"
  | .LOG_LEVEL => "LOG_LEVEL"
  | .DATABASE_URL => "DATABASE_URL"
  | .REDIS_URL => "REDIS_URL"
  | .R2_ACCOUNT_ID => "R2_ACCOUNT_ID"
  | .R2_ACCESS_KEY_ID => "R2_ACCESS_KEY_ID"
  | .R2_SECRET_ACCESS_KEY => "R2_SECRET_ACCESS_KEY"
  | .R2_BUCKET => "R2_BUCKET"
  | .R2_ENDPOINT => "R2_ENDPOINT"
  | .R2_FORCE_PATH_STYLE => "R2_FORCE_PATH_STYLE"
  | .R2_PRESIGN_PUT_TTL => "R2_PRESIGN_PUT_TTL"
  | .R2_PRESIGN_GET_TTL => "R2_PRESIGN_GET_TTL"
  | .AUDIO_RETENTION_DAYS => "AUDIO_RETENTION_DAYS"
  | .TRANSCRIPTION_PROVIDER => "TRANSCRIPTION_PROVIDER"
  | .DEEPGRAM_API_KEY => "DEEPGRAM_API_KEY"
  | .DEEPGRAM_MODEL => "DEEPGRAM_MODEL"
  | .OPENAI_API_KEY => "OPENAI_API_KEY"
  | .OPENAI_TRANSCRIBE_MODEL => "OPENAI_TRANSCRIBE_MODEL"
  | .DEEPSEEK_API_KEY => "DEEPSEEK_API_KEY"
  | .DEEPSEEK_BASE_URL => "DEEPSEEK_BASE_URL"
  | .REPORT_MODEL => "REPORT_MODEL"
  | .MAX_AUDIO_SECONDS => "MAX_AUDIO_SECONDS"
  | .WORKER_CONCURRENCY => "WORKER_CONCURRENCY"
  | .STAGE_TIMEOUT_MS => "STAGE_TIMEOUT_MS"
  | .JOB_MAX_ATTEMPTS => "JOB_MAX_ATTEMPTS"
  | .USE_MOCK_AI => "USE_MOCK_AI"
  | .APPLE_TEAM_ID => "APPLE_TEAM_ID"
  | .APPLE_KEY_ID => "APPLE_KEY_ID"
  | .APPLE_CLIENT_ID => "APPLE_CLIENT_ID"
  | .APPLE_PRIVATE_KEY => "APPLE_PRIVATE_KEY"
  | .APPLE_AUTH_DEV_BYPASS => "APPLE_AUTH_DEV_BYPASS"
  | .JWT_ACCESS_SECRET => "JWT_ACCESS_SECRET"
  | .JWT_REFRESH_SECRET => "JWT_REFRESH_SECRET"
  | .JWT_ACCESS_TTL => "JWT_ACCESS_TTL"
  | .JWT_REFRESH_TTL => "JWT_REFRESH_TTL"
  | .BULL_BOARD_USER => "BULL_BOARD_USER"
  | .BULL_BOARD_PASSWORD => "BULL_BOARD_PASSWORD"

/-- What a variable is read as. -/
abbrev Value : Var → Type
  | .NODE_ENV => NodeEnv
  | .LOG_LEVEL => LogLevel
  | .TRANSCRIPTION_PROVIDER => TranscriptionProvider
  | .CORS_ORIGINS => List String
  | .R2_FORCE_PATH_STYLE | .USE_MOCK_AI | .APPLE_AUTH_DEV_BYPASS => Bool
  | .PORT | .R2_PRESIGN_PUT_TTL | .R2_PRESIGN_GET_TTL | .AUDIO_RETENTION_DAYS
  | .MAX_AUDIO_SECONDS | .WORKER_CONCURRENCY | .STAGE_TIMEOUT_MS | .JOB_MAX_ATTEMPTS
  | .JWT_ACCESS_TTL | .JWT_REFRESH_TTL => JsNumber
  | _ => String

end Var

/-- `process.env`. -/
abbrev Env := Var → Option String

/-- The object of `z.infer<typeof rawSchema>`. -/
abbrev RawEnv := (x : Var) → x.Value

/-- What a field rule makes of a value: nothing where it aborts, and the messages of its
issues. -/
structure Read (α : Type) where
  value : Option α
  messages : List String

abbrev FieldSchema (α : Type) := Option String → Read α

inductive StringCheck where
  | min (n : ℕ)
  | url
  | startsWith (start : String)

/-- `urlParses` is whether `new URL(s)` succeeds. -/
def StringCheck.failure (urlParses : String → Bool) (s : String) : StringCheck → Option String
  | .min n =>
      if JsText.length s < n then
        some ("String must contain at least " ++ toString n ++ " character(s)")
      else none
  | .url => if urlParses s then none else some "Invalid url"
  | .startsWith start =>
      if start.toList <+: s.toList then none
      else some ("Invalid input: must start with \"" ++ start ++ "\"")

/-- `z.string()` with its checks; a failed check leaves the value. -/
def string (urlParses : String → Bool) (checks : List StringCheck) : FieldSchema String
  | none => ⟨none, ["Required"]⟩
  | some s => ⟨some s, checks.filterMap (·.failure urlParses s)⟩

/-- `.default(text)`: the default is read by the rule as well. -/
def withDefault {α : Type} (text : String) (schema : FieldSchema α) : FieldSchema α :=
  fun value => schema (some (value.getD text))

/-- `z.string().optional().default('')`. -/
def optionalText : FieldSchema String := fun value => ⟨some (value.getD ""), []⟩

/-- `z.enum(options).default(text)`. -/
def enumOf {α : Type} (text : String) (options : List (String × α)) : FieldSchema α :=
  fun value =>
    match options.find? fun o => o.1 = value.getD text with
    | some o => ⟨some o.2, []⟩
    | none => ⟨none, ["Invalid enum value. Expected " ++ JsonSchema.optionNames options ++
        ", received '" ++ value.getD text ++ "'"]⟩

inductive NumberCheck where
  | int
  | positive
  | nonnegative
  | max (n : ℕ)

def NumberCheck.failure (n : JsNumber) : NumberCheck → Option String
  | .int => if n.isInteger then none else some "Expected integer, received float"
  | .positive => if n.above 0 then none else some "Number must be greater than 0"
  | .nonnegative =>
      if n.below 0 then some "Number must be greater than or equal to 0" else none
  | .max bound =>
      if n.above bound then some ("Number must be less than or equal to " ++ toString bound)
      else none

/-- `z.coerce.number()` with its checks and `.default(n)`. -/
def coerceNumber (n : ℕ) (checks : List NumberCheck) : FieldSchema JsNumber := fun value =>
  match value.elim (.finite n) JsNumber.ofString with
  | .nan => ⟨none, ["Expected number, received nan"]⟩
  | number => ⟨some number, checks.filterMap (·.failure number)⟩

/-- No other character's lower case is a letter of the four words. -/
def lower (s : String) : String := String.ofList (s.toList.map Char.toLower)

/-- `boolish.default(b)`. -/
def boolish (b : Bool) : FieldSchema Bool := fun value =>
  ⟨some (value.elim b fun s => ["1", "true", "yes", "on"].contains (lower s)), []⟩

/-- `csv`. -/
def csv : FieldSchema (List String)
  | none => ⟨none, ["Required"]⟩
  | some s =>
      ⟨some (((s.toList.splitOn ',').map fun part => JsText.trim (String.ofList part)).filter
        fun part => 0 < JsText.length part), []⟩

section Schema

variable (urlParses : String → Bool)

/-- The shape of `rawSchema`. -/
def schema : (x : Var) → FieldSchema x.Value
  | .NODE_ENV => enumOf "development"
      [("development", .development), ("test", .test), ("production", .production)]
  | .PORT => coerceNumber 8080 [.int, .positive]
  | .APP_BASE_URL => string urlParses [.url]
  | .CORS_ORIGINS => withDefault "*" csv
  | .LOG_LEVEL => enumOf "info"
      [("fatal", .fatal), ("error", .error), ("warn", .warn), ("info", .info), ("debug", .debug),
        ("trace", .trace), ("silent", .silent)]
  | .DATABASE_URL => string urlParses [.min 1, .startsWith "postgres"]
  | .REDIS_URL => string urlParses [.min 1, .startsWith "redis"]
  | .R2_ACCOUNT_ID => string urlParses [.min 1]
  | .R2_ACCESS_KEY_ID => string urlParses [.min 1]
  | .R2_SECRET_ACCESS_KEY => string urlParses [.min 1]
  | .R2_BUCKET => string urlParses [.min 1]
  | .R2_ENDPOINT => string urlParses [.url]
  | .R2_FORCE_PATH_STYLE => boolish false
  | .R2_PRESIGN_PUT_TTL => coerceNumber 3600 [.int, .positive, .max (7 * 24 * 3600)]
  | .R2_PRESIGN_GET_TTL => coerceNumber 900 [.int, .positive, .max (7 * 24 * 3600)]
  | .AUDIO_RETENTION_DAYS => coerceNumber 30 [.int, .nonnegative]
  | .TRANSCRIPTION_PROVIDER => enumOf "deepgram" [("deepgram", .deepgram), ("openai", .openai)]
  | .DEEPGRAM_API_KEY => optionalText
  | .DEEPGRAM_MODEL => withDefault "nova-3" (string urlParses [.min 1])
  | .OPENAI_API_KEY => optionalText
  | .OPENAI_TRANSCRIBE_MODEL => withDefault "gpt-4o-mini-transcribe" (string urlParses [.min 1])
  | .DEEPSEEK_API_KEY => optionalText
  | .DEEPSEEK_BASE_URL => withDefault "https://api.deepseek.com" (string urlParses [.url])
  | .REPORT_MODEL => withDefault "deepseek-chat" (string urlParses [.min 1])
  | .MAX_AUDIO_SECONDS => coerceNumber 5400 [.int, .positive]
  | .WORKER_CONCURRENCY => coerceNumber 2 [.int, .positive, .max 50]
  | .STAGE_TIMEOUT_MS => coerceNumber 180000 [.int, .positive]
  | .JOB_MAX_ATTEMPTS => coerceNumber 3 [.int, .positive, .max 10]
  | .USE_MOCK_AI => boolish false
  | .APPLE_TEAM_ID => optionalText
  | .APPLE_KEY_ID => optionalText
  | .APPLE_CLIENT_ID => string urlParses [.min 1]
  | .APPLE_PRIVATE_KEY => optionalText
  | .APPLE_AUTH_DEV_BYPASS => boolish false
  | .JWT_ACCESS_SECRET => string urlParses [.min 16]
  | .JWT_REFRESH_SECRET => string urlParses [.min 16]
  | .JWT_ACCESS_TTL => coerceNumber 900 [.int, .positive]
  | .JWT_REFRESH_TTL => coerceNumber 2592000 [.int, .positive]
  | .BULL_BOARD_USER => optionalText
  | .BULL_BOARD_PASSWORD => optionalText

end Schema

structure Issue where
  path : Var
  message : String

def issueWhen (broken : Bool) (path : Var) (message : String) : List Issue :=
  if broken then [⟨path, message⟩] else []

/-- `s.includes(part)`. -/
def includes (s part : String) : Bool := decide (part.toList <:+: s.toList)

section Refine

variable (env : RawEnv)

def mockAi : Bool :=
  (env .USE_MOCK_AI : Bool) || decide ((env .NODE_ENV : NodeEnv) = .test)

def prod : Bool := decide ((env .NODE_ENV : NodeEnv) = .production)

def usesProvider (provider : TranscriptionProvider) : Bool :=
  decide ((env .TRANSCRIPTION_PROVIDER : TranscriptionProvider) = provider)

/-- The rules across variables, in the order of the source. -/
def superRefine : List Issue :=
  (if mockAi env then []
    else
      issueWhen (usesProvider env .deepgram && decide ((env .DEEPGRAM_API_KEY : String) = ""))
          .DEEPGRAM_API_KEY
          "required when TRANSCRIPTION_PROVIDER=deepgram and USE_MOCK_AI is false" ++
        issueWhen (usesProvider env .openai && decide ((env .OPENAI_API_KEY : String) = ""))
          .OPENAI_API_KEY
          "required when TRANSCRIPTION_PROVIDER=openai and USE_MOCK_AI is false" ++
        issueWhen (decide ((env .DEEPSEEK_API_KEY : String) = "")) .DEEPSEEK_API_KEY
          "required for report compilation when USE_MOCK_AI is false") ++
    issueWhen (prod env && (env .APPLE_AUTH_DEV_BYPASS : Bool)) .APPLE_AUTH_DEV_BYPASS
      "must be false in production" ++
    issueWhen (prod env && (env .USE_MOCK_AI : Bool)) .USE_MOCK_AI
      "must be false in production" ++
    (if (env .APPLE_AUTH_DEV_BYPASS : Bool) then []
      else
        [(Var.APPLE_TEAM_ID, (env .APPLE_TEAM_ID : String)), (.APPLE_KEY_ID, env .APPLE_KEY_ID),
          (.APPLE_PRIVATE_KEY, env .APPLE_PRIVATE_KEY)].flatMap fun key =>
            issueWhen (decide (key.2 = "")) key.1 "required unless APPLE_AUTH_DEV_BYPASS=true") ++
    (if prod env then
        [(Var.JWT_ACCESS_SECRET, (env .JWT_ACCESS_SECRET : String)),
            (.JWT_REFRESH_SECRET, env .JWT_REFRESH_SECRET)].flatMap (fun secret =>
              issueWhen (includes secret.2 "change-me") secret.1
                "must not use the placeholder secret in production") ++
          issueWhen (decide ((env .JWT_ACCESS_SECRET : String) = env .JWT_REFRESH_SECRET))
            .JWT_REFRESH_SECRET "must differ from JWT_ACCESS_SECRET in production" ++
          issueWhen ((env .CORS_ORIGINS : List String).contains "*") .CORS_ORIGINS
            "must be an explicit allow-list in production (wildcard not allowed)"
      else [])

end Refine

section Load

structure R2Config where
  accountId : String
  accessKeyId : String
  secretAccessKey : String
  bucket : String
  endpoint : String
  forcePathStyle : Bool
  presignPutTtl : JsNumber
  presignGetTtl : JsNumber
  audioRetentionDays : JsNumber

structure AiConfig where
  useMock : Bool
  transcriptionProvider : TranscriptionProvider
  deepgramApiKey : String
  deepgramModel : String
  openaiApiKey : String
  openaiTranscribeModel : String
  deepseekApiKey : String
  deepseekBaseUrl : String
  reportModel : String
  maxAudioSeconds : JsNumber
  workerConcurrency : JsNumber
  stageTimeoutMs : JsNumber
  jobMaxAttempts : JsNumber

structure AppleConfig where
  teamId : String
  keyId : String
  clientId : String
  privateKey : String
  devBypass : Bool

structure JwtConfig where
  accessSecret : String
  refreshSecret : String
  accessTtl : JsNumber
  refreshTtl : JsNumber

structure BullBoardConfig where
  user : String
  password : String
  enabled : Bool

structure AppConfig where
  nodeEnv : NodeEnv
  isProduction : Bool
  isTest : Bool
  port : JsNumber
  appBaseUrl : String
  corsOrigins : List String
  logLevel : LogLevel
  databaseUrl : String
  redisUrl : String
  r2 : R2Config
  ai : AiConfig
  apple : AppleConfig
  jwt : JwtConfig
  bullBoard : BullBoardConfig

/-- The nested configuration of what was read. -/
def appConfig (e : RawEnv) : AppConfig where
  nodeEnv := e .NODE_ENV
  isProduction := prod e
  isTest := decide ((e .NODE_ENV : NodeEnv) = .test)
  port := e .PORT
  appBaseUrl := e .APP_BASE_URL
  corsOrigins := e .CORS_ORIGINS
  logLevel := e .LOG_LEVEL
  databaseUrl := e .DATABASE_URL
  redisUrl := e .REDIS_URL
  r2 :=
    { accountId := e .R2_ACCOUNT_ID
      accessKeyId := e .R2_ACCESS_KEY_ID
      secretAccessKey := e .R2_SECRET_ACCESS_KEY
      bucket := e .R2_BUCKET
      endpoint := e .R2_ENDPOINT
      forcePathStyle := e .R2_FORCE_PATH_STYLE
      presignPutTtl := e .R2_PRESIGN_PUT_TTL
      presignGetTtl := e .R2_PRESIGN_GET_TTL
      audioRetentionDays := e .AUDIO_RETENTION_DAYS }
  ai :=
    { useMock := mockAi e
      transcriptionProvider := e .TRANSCRIPTION_PROVIDER
      deepgramApiKey := e .DEEPGRAM_API_KEY
      deepgramModel := e .DEEPGRAM_MODEL
      openaiApiKey := e .OPENAI_API_KEY
      openaiTranscribeModel := e .OPENAI_TRANSCRIBE_MODEL
      deepseekApiKey := e .DEEPSEEK_API_KEY
      deepseekBaseUrl := e .DEEPSEEK_BASE_URL
      reportModel := e .REPORT_MODEL
      maxAudioSeconds := e .MAX_AUDIO_SECONDS
      workerConcurrency := e .WORKER_CONCURRENCY
      stageTimeoutMs := e .STAGE_TIMEOUT_MS
      jobMaxAttempts := e .JOB_MAX_ATTEMPTS }
  apple :=
    { teamId := e .APPLE_TEAM_ID
      keyId := e .APPLE_KEY_ID
      clientId := e .APPLE_CLIENT_ID
      privateKey := e .APPLE_PRIVATE_KEY
      devBypass := e .APPLE_AUTH_DEV_BYPASS }
  jwt :=
    { accessSecret := e .JWT_ACCESS_SECRET
      refreshSecret := e .JWT_REFRESH_SECRET
      accessTtl := e .JWT_ACCESS_TTL
      refreshTtl := e .JWT_REFRESH_TTL }
  bullBoard :=
    { user := e .BULL_BOARD_USER
      password := e .BULL_BOARD_PASSWORD
      enabled := decide ((e .BULL_BOARD_USER : String) ≠ "") &&
        decide ((e .BULL_BOARD_PASSWORD : String) ≠ "") }

variable (urlParses : String → Bool) (env : Env)

/-- The issues of one field. -/
def fieldIssues (x : Var) : List Issue :=
  (schema urlParses x (env x)).messages.map (Issue.mk x)

/-- The object without its refinement: every field is read, and it has a value where none
aborted. -/
def rawObject : List Issue × Option RawEnv :=
  (Var.all.flatMap (fieldIssues urlParses env),
    if h : ∀ x ∈ Var.all, ((schema urlParses x (env x)).value).isSome = true then
      some fun x => ((schema urlParses x (env x)).value).get (h x (Var.mem_all x))
    else none)

/-- `rawSchema.safeParse`. -/
def safeParse : Except (List Issue) RawEnv :=
  match rawObject urlParses env with
  | (issues, none) => .error issues
  | (issues, some raw) =>
      match issues ++ superRefine raw with
      | [] => .ok raw
      | all => .error all

/-- The error that `loadConfig` throws lists its issues, one in a line. -/
structure ConfigError where
  issues : List Issue

def ConfigError.message (e : ConfigError) : String :=
  "Invalid environment configuration:\n" ++ String.intercalate "\n"
    (e.issues.map fun i => "  • " ++ i.path.name ++ ": " ++ i.message)

def loadConfig : Except ConfigError AppConfig :=
  match safeParse urlParses env with
  | .error issues => .error ⟨issues⟩
  | .ok raw => .ok (appConfig raw)

end Load

/-- A rule across variables: those it reads, the one its issue names, and when an object
breaks it. -/
structure Rule where
  inputs : List Var
  path : Var
  message : String
  broken : RawEnv → Bool
  named : path ∈ inputs
  reads : ∀ a b : RawEnv, (∀ x ∈ inputs, a x = b x) → broken a = broken b

/-- A provider's key is required where the provider is live. -/
def providerKeyRule (provider : TranscriptionProvider) (key : Var) (text : RawEnv → String)
    (htext : ∀ a b : RawEnv, a key = b key → text a = text b) (message : String) : Rule where
  inputs := [.USE_MOCK_AI, .NODE_ENV, .TRANSCRIPTION_PROVIDER, key]
  path := key
  message := message
  broken env := !mockAi env && (usesProvider env provider && decide (text env = ""))
  named := by simp
  reads a b h := by
    simp [mockAi, usesProvider, h .USE_MOCK_AI, h .NODE_ENV, h .TRANSCRIPTION_PROVIDER,
      htext a b (h key (by simp))]

def deepseekKeyRule : Rule where
  inputs := [.USE_MOCK_AI, .NODE_ENV, .DEEPSEEK_API_KEY]
  path := .DEEPSEEK_API_KEY
  message := "required for report compilation when USE_MOCK_AI is false"
  broken env := !mockAi env && decide ((env .DEEPSEEK_API_KEY : String) = "")
  named := by simp
  reads a b h := by
    simp [mockAi, h .USE_MOCK_AI, h .NODE_ENV, h .DEEPSEEK_API_KEY]

def devBypassRule : Rule where
  inputs := [.NODE_ENV, .APPLE_AUTH_DEV_BYPASS]
  path := .APPLE_AUTH_DEV_BYPASS
  message := "must be false in production"
  broken env := prod env && (env .APPLE_AUTH_DEV_BYPASS : Bool)
  named := by simp
  reads a b h := by simp [prod, h .NODE_ENV, h .APPLE_AUTH_DEV_BYPASS]

def mockAiRule : Rule where
  inputs := [.NODE_ENV, .USE_MOCK_AI]
  path := .USE_MOCK_AI
  message := "must be false in production"
  broken env := prod env && (env .USE_MOCK_AI : Bool)
  named := by simp
  reads a b h := by simp [prod, h .NODE_ENV, h .USE_MOCK_AI]

/-- Apple's keys are required without the bypass. -/
def appleKeyRule (key : Var) (text : RawEnv → String)
    (htext : ∀ a b : RawEnv, a key = b key → text a = text b) : Rule where
  inputs := [.APPLE_AUTH_DEV_BYPASS, key]
  path := key
  message := "required unless APPLE_AUTH_DEV_BYPASS=true"
  broken env := !(env .APPLE_AUTH_DEV_BYPASS : Bool) && decide (text env = "")
  named := by simp
  reads a b h := by simp [h .APPLE_AUTH_DEV_BYPASS, htext a b (h key (by simp))]

def placeholderRule (secret : Var) (text : RawEnv → String)
    (htext : ∀ a b : RawEnv, a secret = b secret → text a = text b) : Rule where
  inputs := [.NODE_ENV, secret]
  path := secret
  message := "must not use the placeholder secret in production"
  broken env := prod env && includes (text env) "change-me"
  named := by simp
  reads a b h := by simp [prod, h .NODE_ENV, htext a b (h secret (by simp))]

def equalSecretsRule : Rule where
  inputs := [.NODE_ENV, .JWT_ACCESS_SECRET, .JWT_REFRESH_SECRET]
  path := .JWT_REFRESH_SECRET
  message := "must differ from JWT_ACCESS_SECRET in production"
  broken env := prod env && decide ((env .JWT_ACCESS_SECRET : String) = env .JWT_REFRESH_SECRET)
  named := by simp
  reads a b h := by simp [prod, h .NODE_ENV, h .JWT_ACCESS_SECRET, h .JWT_REFRESH_SECRET]

def wildcardRule : Rule where
  inputs := [.NODE_ENV, .CORS_ORIGINS]
  path := .CORS_ORIGINS
  message := "must be an explicit allow-list in production (wildcard not allowed)"
  broken env := prod env && (env .CORS_ORIGINS : List String).contains "*"
  named := by simp
  reads a b h := by simp [prod, h .NODE_ENV, h .CORS_ORIGINS]

/-- The rules that `superRefine` checks. -/
def rules : List Rule :=
  [providerKeyRule .deepgram .DEEPGRAM_API_KEY (fun env => env .DEEPGRAM_API_KEY)
      (fun _ _ h => h) "required when TRANSCRIPTION_PROVIDER=deepgram and USE_MOCK_AI is false",
    providerKeyRule .openai .OPENAI_API_KEY (fun env => env .OPENAI_API_KEY)
      (fun _ _ h => h) "required when TRANSCRIPTION_PROVIDER=openai and USE_MOCK_AI is false",
    deepseekKeyRule, devBypassRule, mockAiRule,
    appleKeyRule .APPLE_TEAM_ID (fun env => env .APPLE_TEAM_ID) fun _ _ h => h,
    appleKeyRule .APPLE_KEY_ID (fun env => env .APPLE_KEY_ID) fun _ _ h => h,
    appleKeyRule .APPLE_PRIVATE_KEY (fun env => env .APPLE_PRIVATE_KEY) fun _ _ h => h,
    placeholderRule .JWT_ACCESS_SECRET (fun env => env .JWT_ACCESS_SECRET) fun _ _ h => h,
    placeholderRule .JWT_REFRESH_SECRET (fun env => env .JWT_REFRESH_SECRET) fun _ _ h => h,
    equalSecretsRule, wildcardRule]

/-- `superRefine` adds one issue for each rule that the object breaks. -/
theorem superRefine_eq (env : RawEnv) :
    superRefine env = rules.flatMap fun r => issueWhen (r.broken env) r.path r.message := by
  simp only [rules, List.flatMap_cons, List.flatMap_nil, List.append_nil, providerKeyRule,
    deepseekKeyRule, devBypassRule, mockAiRule, appleKeyRule, placeholderRule, equalSecretsRule,
    wildcardRule]
  cases hmock : mockAi env <;> cases hprod : prod env <;>
    cases hbypass : (env .APPLE_AUTH_DEV_BYPASS : Bool) <;>
    simp [superRefine, issueWhen, hmock, hprod, hbypass]

section Problems

variable (urlParses : String → Bool) (env : Env)

/-- The variable's own rule is met. -/
def WellFormed (x : Var) : Prop := (schema urlParses x (env x)).messages = []

/-- The variable is missing, not a number where one is expected, or none of the options. -/
def Aborts (x : Var) : Prop := (schema urlParses x (env x)).value = none

/-- The rule's inputs are well-formed, and an object that has them breaks it. -/
def Breaks (r : Rule) : Prop :=
  (∀ x ∈ r.inputs, WellFormed urlParses env x) ∧ ∃ object : RawEnv,
    (∀ x ∈ r.inputs, (schema urlParses x (env x)).value = some (object x)) ∧
      r.broken object = true

/-- The variable is missing or malformed, or a rule whose inputs are well-formed blames it. -/
def Problem (x : Var) : Prop :=
  ¬ WellFormed urlParses env x ∨ ∃ r ∈ rules, r.path = x ∧ Breaks urlParses env r

/-- A line of the message is about the variable. -/
def Names (e : ConfigError) (x : Var) : Prop := ∃ issue ∈ e.issues, issue.path = x

/-- An environment that is rejected is told all its problems. -/
def ReportsAll : Prop :=
  ∀ e, loadConfig urlParses env = .error e → ∀ x, Problem urlParses env x → Names e x

end Problems

section Fields

variable {urlParses : String → Bool} {env : Env} {x : Var} {raw : RawEnv}

theorem coerceNumber_reads {n : ℕ} {checks : List NumberCheck} {value : Option String}
    (h : (coerceNumber n checks value).messages = []) :
    ((coerceNumber n checks value).value).isSome = true := by
  unfold coerceNumber at h ⊢
  split at h
  · cases h
  · rfl

theorem enumOf_reads {α : Type} {text : String} {options : List (String × α)}
    {value : Option String} (h : (enumOf text options value).messages = []) :
    ((enumOf text options value).value).isSome = true := by
  unfold enumOf at h ⊢
  split at h
  · rfl
  · cases h

theorem string_reads {checks : List StringCheck} {value : Option String}
    (h : (string urlParses checks value).messages = []) :
    ((string urlParses checks value).value).isSome = true := by
  cases value with
  | none => cases h
  | some s => rfl

/-- A field that aborts has an issue. -/
theorem schema_reads (h : WellFormed urlParses env x) :
    ((schema urlParses x (env x)).value).isSome = true := by
  unfold WellFormed at h
  cases x
  all_goals first
    | exact coerceNumber_reads h
    | exact enumOf_reads h
    | exact string_reads h
    | rfl

theorem mem_fieldIssues {issue : Issue} :
    issue ∈ Var.all.flatMap (fieldIssues urlParses env) ↔
      issue.message ∈ (schema urlParses issue.path (env issue.path)).messages := by
  simp only [List.mem_flatMap, fieldIssues, List.mem_map]
  constructor
  · rintro ⟨x, -, message, hmessage, rfl⟩
    exact hmessage
  · intro h
    exact ⟨issue.path, Var.mem_all _, issue.message, h, rfl⟩

/-- The first phase names exactly the variables that are not well-formed. -/
theorem names_fields : Names ⟨Var.all.flatMap (fieldIssues urlParses env)⟩ x ↔
    ¬ WellFormed urlParses env x := by
  constructor
  · rintro ⟨issue, hissue, rfl⟩ hwell
    have hmessage := mem_fieldIssues.mp hissue
    rw [show (schema urlParses issue.path (env issue.path)).messages = [] from hwell] at hmessage
    cases hmessage
  · intro h
    obtain ⟨message, hmessage⟩ := List.exists_mem_of_ne_nil _ h
    exact ⟨⟨x, message⟩, mem_fieldIssues.mpr hmessage, rfl⟩

theorem mem_superRefine {issue : Issue} : issue ∈ superRefine raw ↔
    ∃ r ∈ rules, r.broken raw = true ∧ issue = ⟨r.path, r.message⟩ := by
  rw [superRefine_eq, List.mem_flatMap]
  refine exists_congr fun r => and_congr_right fun _ => ?_
  unfold issueWhen
  split_ifs with hbroken <;> simp [hbroken]

theorem rawObject_read (h : ∀ x, (schema urlParses x (env x)).value = some (raw x)) :
    rawObject urlParses env = (Var.all.flatMap (fieldIssues urlParses env), some raw) := by
  have hall : ∀ x ∈ Var.all, ((schema urlParses x (env x)).value).isSome = true := by
    intro x _
    rw [h x]
    rfl
  rw [rawObject, dif_pos hall]
  simp only [h, Option.get_some]

theorem rawObject_aborted (h : Aborts urlParses env x) :
    rawObject urlParses env = (Var.all.flatMap (fieldIssues urlParses env), none) := by
  have hsome : ¬ ∀ x ∈ Var.all, ((schema urlParses x (env x)).value).isSome = true := by
    intro hall
    have hx := hall x (Var.mem_all x)
    rw [show (schema urlParses x (env x)).value = none from h] at hx
    cases hx
  rw [rawObject, dif_neg hsome]

/-- A field that aborts hides the second phase. -/
theorem loadConfig_aborted (h : Aborts urlParses env x) : loadConfig urlParses env =
    .error ⟨Var.all.flatMap (fieldIssues urlParses env)⟩ := by
  rw [loadConfig, safeParse, rawObject_aborted h]

/-- Where every field has a value both phases report. -/
theorem loadConfig_read (h : ∀ x, (schema urlParses x (env x)).value = some (raw x)) :
    loadConfig urlParses env =
      if Var.all.flatMap (fieldIssues urlParses env) ++ superRefine raw = [] then
        .ok (appConfig raw)
      else .error ⟨Var.all.flatMap (fieldIssues urlParses env) ++ superRefine raw⟩ := by
  rw [loadConfig, safeParse, rawObject_read h]
  dsimp only
  cases Var.all.flatMap (fieldIssues urlParses env) ++ superRefine raw <;> rfl

/-- A rule that an object of the environment breaks is broken by every such object. -/
theorem breaks_read (h : ∀ x, (schema urlParses x (env x)).value = some (raw x)) {r : Rule}
    (hbreaks : Breaks urlParses env r) : r.broken raw = true := by
  obtain ⟨-, object, hobject, hbroken⟩ := hbreaks
  rw [← hbroken]
  refine r.reads raw object fun x hx => ?_
  have hsame := hobject x hx
  rw [h x] at hsame
  exact Option.some.inj hsame

theorem read_of_not_aborts (h : ∀ x, ¬ Aborts urlParses env x) :
    ∃ raw : RawEnv, ∀ x, (schema urlParses x (env x)).value = some (raw x) :=
  ⟨fun x => ((schema urlParses x (env x)).value).get (Option.isSome_iff_ne_none.mpr (h x)),
    fun _ => (Option.some_get _).symm⟩

end Fields

/-- Every problem is reported exactly where no field aborts or no rule across variables is
broken. -/
theorem reports_all_iff (urlParses : String → Bool) (env : Env) : ReportsAll urlParses env ↔
    (∀ x, ¬ Aborts urlParses env x) ∨ ∀ r ∈ rules, ¬ Breaks urlParses env r := by
  constructor
  · intro hall
    by_contra hnot
    push Not at hnot
    obtain ⟨⟨x, hx⟩, r, hr, hbreaks⟩ := hnot
    have hnamed := hall _ (loadConfig_aborted hx) r.path (.inr ⟨r, hr, rfl, hbreaks⟩)
    exact names_fields.mp hnamed (hbreaks.1 r.path r.named)
  · intro hcondition e herror x hproblem
    by_cases habort : ∃ y, Aborts urlParses env y
    · obtain ⟨y, hy⟩ := habort
      obtain rfl : _ = e := by simpa [loadConfig_aborted hy] using herror
      rcases hproblem with hmalformed | ⟨r, hr, -, hbreaks⟩
      · exact names_fields.mpr hmalformed
      · rcases hcondition with hnone | hrules
        · exact absurd hy (hnone y)
        · exact absurd hbreaks (hrules r hr)
    · obtain ⟨raw, hraw⟩ := read_of_not_aborts (not_exists.mp habort)
      rw [loadConfig_read hraw] at herror
      split_ifs at herror
      cases herror
      rcases hproblem with hmalformed | ⟨r, hr, rfl, hbreaks⟩
      · obtain ⟨issue, hissue, hpath⟩ := names_fields.mpr hmalformed
        exact ⟨issue, List.mem_append_left _ hissue, hpath⟩
      · exact ⟨⟨r.path, r.message⟩, List.mem_append_right _
          (mem_superRefine.mpr ⟨r, hr, breaks_read hraw hbreaks, rfl⟩), rfl⟩

/-- An environment is accepted exactly when it has no problem. -/
theorem loads_iff (urlParses : String → Bool) (env : Env) :
    (∃ config, loadConfig urlParses env = .ok config) ↔ ∀ x, ¬ Problem urlParses env x := by
  constructor
  · rintro ⟨config, hconfig⟩ x hproblem
    by_cases habort : ∃ y, Aborts urlParses env y
    · obtain ⟨y, hy⟩ := habort
      rw [loadConfig_aborted hy] at hconfig
      cases hconfig
    · obtain ⟨raw, hraw⟩ := read_of_not_aborts (not_exists.mp habort)
      rw [loadConfig_read hraw] at hconfig
      split_ifs at hconfig with hnone
      obtain ⟨hfields, hrefine⟩ := List.append_eq_nil_iff.mp hnone
      rcases hproblem with hmalformed | ⟨r, hr, -, hbreaks⟩
      · obtain ⟨issue, hissue, -⟩ := names_fields.mpr hmalformed
        rw [hfields] at hissue
        cases hissue
      · have hissue := mem_superRefine.mpr ⟨r, hr, breaks_read hraw hbreaks, rfl⟩
        rw [hrefine] at hissue
        cases hissue
  · intro hnone
    have hwell (x : Var) : WellFormed urlParses env x := by
      by_contra hmalformed
      exact hnone x (.inl hmalformed)
    have hread (x : Var) : ¬ Aborts urlParses env x :=
      Option.isSome_iff_ne_none.mp (schema_reads (hwell x))
    obtain ⟨raw, hraw⟩ := read_of_not_aborts hread
    have hfields : Var.all.flatMap (fieldIssues urlParses env) = [] := by
      refine List.eq_nil_iff_forall_not_mem.mpr fun issue hissue => ?_
      exact names_fields.mp ⟨issue, hissue, rfl⟩ (hwell issue.path)
    have hrefine : superRefine raw = [] := by
      refine List.eq_nil_iff_forall_not_mem.mpr fun issue hissue => ?_
      obtain ⟨r, hr, hbroken, rfl⟩ := mem_superRefine.mp hissue
      exact hnone r.path (.inr ⟨r, hr, rfl, fun x _ => hwell x, raw, fun x _ => hraw x, hbroken⟩)
    exact ⟨appConfig raw, by rw [loadConfig_read hraw, hfields, hrefine]; rfl⟩

/-- No variable is set. -/
def unset : Env := fun _ => none

/-- The variables that have no default. -/
def required : List Var :=
  [.APP_BASE_URL, .DATABASE_URL, .REDIS_URL, .R2_ACCOUNT_ID, .R2_ACCESS_KEY_ID,
    .R2_SECRET_ACCESS_KEY, .R2_BUCKET, .R2_ENDPOINT, .APPLE_CLIENT_ID, .JWT_ACCESS_SECRET,
    .JWT_REFRESH_SECRET]

/-- Every default passes the checks of its field. -/
theorem unset_wellFormed {urlParses : String → Bool}
    (hurl : urlParses "https://api.deepseek.com" = true) (x : Var) :
    WellFormed urlParses unset x ↔ x ∉ required := by
  cases x <;> simp [WellFormed, unset, required, schema, string, withDefault, optionalText, enumOf,
    coerceNumber, boolish, csv, StringCheck.failure, NumberCheck.failure, JsNumber.isInteger, JsNumber.above,
    JsNumber.below, JsText.length, hurl]

/-- An object that breaks the rule for `APPLE_TEAM_ID`. -/
def blank : RawEnv
  | .NODE_ENV => .development
  | .LOG_LEVEL => .info
  | .TRANSCRIPTION_PROVIDER => .deepgram
  | .CORS_ORIGINS => []
  | .R2_FORCE_PATH_STYLE | .USE_MOCK_AI | .APPLE_AUTH_DEV_BYPASS => false
  | .PORT | .R2_PRESIGN_PUT_TTL | .R2_PRESIGN_GET_TTL | .AUDIO_RETENTION_DAYS
  | .MAX_AUDIO_SECONDS | .WORKER_CONCURRENCY | .STAGE_TIMEOUT_MS | .JOB_MAX_ATTEMPTS
  | .JWT_ACCESS_TTL | .JWT_REFRESH_TTL => .finite 0
  | .APP_BASE_URL | .DATABASE_URL | .REDIS_URL | .R2_ACCOUNT_ID | .R2_ACCESS_KEY_ID
  | .R2_SECRET_ACCESS_KEY | .R2_BUCKET | .R2_ENDPOINT | .DEEPGRAM_API_KEY | .DEEPGRAM_MODEL
  | .OPENAI_API_KEY | .OPENAI_TRANSCRIBE_MODEL | .DEEPSEEK_API_KEY | .DEEPSEEK_BASE_URL
  | .REPORT_MODEL | .APPLE_TEAM_ID | .APPLE_KEY_ID | .APPLE_CLIENT_ID | .APPLE_PRIVATE_KEY
  | .JWT_ACCESS_SECRET | .JWT_REFRESH_SECRET | .BULL_BOARD_USER | .BULL_BOARD_PASSWORD => ""

/-- Without any variable the first phase aborts, and the missing keys of Apple and of the
providers are not named. -/
theorem missing_hides_rules :
    ¬ ∀ (urlParses : String → Bool) (env : Env), ReportsAll urlParses env := by
  intro h
  have habort : Aborts (fun _ => true) unset .DATABASE_URL := rfl
  have hbreaks : Breaks (fun _ => true) unset
      (appleKeyRule .APPLE_TEAM_ID (fun env => env .APPLE_TEAM_ID) fun _ _ h => h) := by
    refine ⟨?_, blank, ?_, by decide⟩
    · intro x hx
      simp only [appleKeyRule, List.mem_cons, List.not_mem_nil, or_false] at hx
      obtain rfl | rfl := hx <;> rfl
    · intro x hx
      simp only [appleKeyRule, List.mem_cons, List.not_mem_nil, or_false] at hx
      obtain rfl | rfl := hx <;> rfl
  have hnamed := h (fun _ => true) unset _ (loadConfig_aborted habort) .APPLE_TEAM_ID
    (.inr ⟨_, by simp [rules], rfl, hbreaks⟩)
  exact names_fields.mp hnamed rfl

end FieldNote.EnvConfig
