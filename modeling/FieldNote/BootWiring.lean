import FieldNote.EnvConfig

/-!
# What a configuration wires up

The providers that the modules bind from the configuration at boot, the origins that may
script the API, and the basic auth in front of the queue dashboard. The base64 decoder is the
platform's, so it is a parameter.
-/
namespace FieldNote.BootWiring
open EnvConfig

inductive TranscriptionBinding where
  | mock
  | deepgram (apiKey model : String)
  | openai (apiKey model : String)
deriving DecidableEq, Repr

/-- The factory of `TranscriptionModule`. -/
def transcriptionProvider (cfg : AppConfig) : TranscriptionBinding :=
  if cfg.ai.useMock then .mock
  else if cfg.ai.transcriptionProvider = .openai then
    .openai cfg.ai.openaiApiKey cfg.ai.openaiTranscribeModel
  else .deepgram cfg.ai.deepgramApiKey cfg.ai.deepgramModel

inductive CompilerBinding where
  | mock
  | deepseek (apiKey model baseUrl : String)
deriving DecidableEq, Repr

/-- The factory of `CompilerModule`. -/
def reportCompiler (cfg : AppConfig) : CompilerBinding :=
  if cfg.ai.useMock then .mock
  else .deepseek cfg.ai.deepseekApiKey cfg.ai.reportModel cfg.ai.deepseekBaseUrl

inductive VerifierBinding where
  | dev
  | real (clientId : String)
deriving DecidableEq, Repr

/-- The factory of `AuthModule`. -/
def appleVerifier (cfg : AppConfig) : VerifierBinding :=
  if cfg.apple.devBypass then .dev else .real cfg.apple.clientId

/-- `enableCors`: every origin, or a list. -/
inductive CorsOrigin where
  | any
  | list (origins : List String)
deriving DecidableEq, Repr

def corsOrigin (cfg : AppConfig) : CorsOrigin :=
  if cfg.corsOrigins.contains "*" then .any else .list cfg.corsOrigins

/-- The key of a transcription provider is there. -/
def TranscriptionBinding.keyed : TranscriptionBinding → Prop
  | .mock => False
  | .deepgram apiKey _ | .openai apiKey _ => apiKey ≠ ""

/-- What a deployment must not run without. -/
structure Hardened (cfg : AppConfig) : Prop where
  transcription : (transcriptionProvider cfg).keyed
  compiler : ∃ apiKey model baseUrl,
    reportCompiler cfg = .deepseek apiKey model baseUrl ∧ apiKey ≠ ""
  verifier : ∃ clientId, appleVerifier cfg = .real clientId ∧ clientId ≠ ""
  cors : ∃ origins, corsOrigin cfg = .list origins
  secrets : cfg.jwt.accessSecret ≠ cfg.jwt.refreshSecret
  long : 16 ≤ JsText.length cfg.jwt.accessSecret ∧ 16 ≤ JsText.length cfg.jwt.refreshSecret
  replaced : includes cfg.jwt.accessSecret "change-me" = false ∧
    includes cfg.jwt.refreshSecret "change-me" = false

variable {urlParses : String → Bool} {env : Env} {cfg : AppConfig}

/-- What an accepted environment was read as. -/
theorem loaded (h : loadConfig urlParses env = .ok cfg) : ∃ raw : RawEnv, cfg = appConfig raw ∧
    superRefine raw = [] ∧ ∀ x, (schema urlParses x (env x)).value = some (raw x) ∧
      WellFormed urlParses env x := by
  by_cases habort : ∃ x, Aborts urlParses env x
  · obtain ⟨x, hx⟩ := habort
    rw [loadConfig_aborted hx] at h
    cases h
  · obtain ⟨raw, hraw⟩ := read_of_not_aborts (not_exists.mp habort)
    rw [loadConfig_read hraw] at h
    split_ifs at h with hnone
    obtain ⟨hfields, hrefine⟩ := List.append_eq_nil_iff.mp hnone
    refine ⟨raw, (Except.ok.inj h).symm, hrefine, fun x => ⟨hraw x, ?_⟩⟩
    by_contra hmalformed
    obtain ⟨issue, hissue, -⟩ := names_fields.mpr hmalformed
    rw [hfields] at hissue
    cases hissue

/-- An accepted object breaks no rule. -/
theorem unbroken {raw : RawEnv} (h : superRefine raw = []) {r : Rule} (hr : r ∈ rules) :
    r.broken raw = false := by
  by_contra hbroken
  have hissue := mem_superRefine.mpr ⟨r, hr, by simpa using hbroken, rfl⟩
  rw [h] at hissue
  cases hissue

/-- A text with a minimum length that was read. -/
theorem string_min {n : ℕ} {value : Option String} {s : String}
    (hwell : (string urlParses [.min n] value).messages = [])
    (hread : (string urlParses [.min n] value).value = some s) : n ≤ JsText.length s := by
  cases value with
  | none => cases hread
  | some t =>
      obtain rfl : t = s := Option.some.inj hread
      by_contra hshort
      simp [string, StringCheck.failure] at hwell
      omega

/-- A production process that has started is hardened. -/
theorem production_hardened (h : loadConfig urlParses env = .ok cfg)
    (hprod : cfg.isProduction = true) : Hardened cfg := by
  obtain ⟨raw, rfl, hrefine, hraw⟩ := loaded h
  have hprod' : prod raw = true := hprod
  have hnode : (raw .NODE_ENV : NodeEnv) = .production := by simpa [prod] using hprod'
  have hmock : (raw .USE_MOCK_AI : Bool) = false := by
    have hrule := unbroken hrefine (r := mockAiRule) (by simp [rules])
    simpa [mockAiRule, hprod'] using hrule
  have hlive : mockAi raw = false := by simp [mockAi, hmock, hnode]
  have hbypass : (raw .APPLE_AUTH_DEV_BYPASS : Bool) = false := by
    have hrule := unbroken hrefine (r := devBypassRule) (by simp [rules])
    simpa [devBypassRule, hprod'] using hrule
  have hdeepseek : (raw .DEEPSEEK_API_KEY : String) ≠ "" := by
    have hrule := unbroken hrefine (r := deepseekKeyRule) (by simp [rules])
    simpa [deepseekKeyRule, hlive] using hrule
  have hcors : "*" ∉ (raw .CORS_ORIGINS : List String) := by
    have hrule := unbroken hrefine (r := wildcardRule) (by simp [rules])
    simpa [wildcardRule, hprod'] using hrule
  have hclient := string_min (hraw .APPLE_CLIENT_ID).2 (hraw .APPLE_CLIENT_ID).1
  have haccess := string_min (hraw .JWT_ACCESS_SECRET).2 (hraw .JWT_ACCESS_SECRET).1
  have hrefresh := string_min (hraw .JWT_REFRESH_SECRET).2 (hraw .JWT_REFRESH_SECRET).1
  refine ⟨?_, ?_, ?_, ?_, ?_, ⟨haccess, hrefresh⟩, ?_, ?_⟩
  · cases hprovider : (raw .TRANSCRIPTION_PROVIDER : TranscriptionProvider) with
    | deepgram =>
        have hrule := unbroken hrefine (r := providerKeyRule .deepgram .DEEPGRAM_API_KEY
          (fun env => env .DEEPGRAM_API_KEY) (fun _ _ h => h) _) List.mem_cons_self
        have hkey : (raw .DEEPGRAM_API_KEY : String) ≠ "" := by
          simpa [providerKeyRule, hlive, usesProvider, hprovider] using hrule
        have hbinding : transcriptionProvider (appConfig raw) =
            .deepgram (raw .DEEPGRAM_API_KEY) (raw .DEEPGRAM_MODEL) := by
          simp [transcriptionProvider, appConfig, hlive, hprovider]
        rw [hbinding]
        exact hkey
    | openai =>
        have hrule := unbroken hrefine (r := providerKeyRule .openai .OPENAI_API_KEY
          (fun env => env .OPENAI_API_KEY) (fun _ _ h => h) _)
          (List.mem_cons_of_mem _ List.mem_cons_self)
        have hkey : (raw .OPENAI_API_KEY : String) ≠ "" := by
          simpa [providerKeyRule, hlive, usesProvider, hprovider] using hrule
        have hbinding : transcriptionProvider (appConfig raw) =
            .openai (raw .OPENAI_API_KEY) (raw .OPENAI_TRANSCRIBE_MODEL) := by
          simp [transcriptionProvider, appConfig, hlive, hprovider]
        rw [hbinding]
        exact hkey
  · exact ⟨raw .DEEPSEEK_API_KEY, raw .REPORT_MODEL, raw .DEEPSEEK_BASE_URL,
      by simp [reportCompiler, appConfig, hlive], hdeepseek⟩
  · refine ⟨raw .APPLE_CLIENT_ID, by simp [appleVerifier, appConfig, hbypass], ?_⟩
    intro hempty
    rw [hempty] at hclient
    revert hclient
    decide
  · exact ⟨raw .CORS_ORIGINS, by simp [corsOrigin, appConfig, hcors]⟩
  · have hrule := unbroken hrefine (r := equalSecretsRule) (by simp [rules])
    have hsecrets : (raw .JWT_ACCESS_SECRET : String) ≠ raw .JWT_REFRESH_SECRET := by
      simpa [equalSecretsRule, hprod'] using hrule
    exact hsecrets
  · have hrule := unbroken hrefine (r := placeholderRule .JWT_ACCESS_SECRET
      (fun env => env .JWT_ACCESS_SECRET) fun _ _ h => h) (by simp [rules])
    have hsecret : includes (raw .JWT_ACCESS_SECRET) "change-me" = false := by
      simpa [placeholderRule, hprod'] using hrule
    exact hsecret
  · have hrule := unbroken hrefine (r := placeholderRule .JWT_REFRESH_SECRET
      (fun env => env .JWT_REFRESH_SECRET) fun _ _ h => h) (by simp [rules])
    have hsecret : includes (raw .JWT_REFRESH_SECRET) "change-me" = false := by
      simpa [placeholderRule, hprod'] using hrule
    exact hsecret

/-- A deployment that sets what it has to and leaves the rest to the defaults. -/
def productionEnv : Env
  | .NODE_ENV => some "production"
  | .APP_BASE_URL => some "https://api.fieldnote.app"
  | .CORS_ORIGINS => some "https://app.fieldnote.app, https://admin.fieldnote.app"
  | .DATABASE_URL => some "postgresql://db/fieldnote"
  | .REDIS_URL => some "redis://cache"
  | .R2_ACCOUNT_ID | .R2_ACCESS_KEY_ID | .R2_SECRET_ACCESS_KEY | .R2_BUCKET => some "r2"
  | .R2_ENDPOINT => some "https://r2.example"
  | .TRANSCRIPTION_PROVIDER => some "openai"
  | .OPENAI_API_KEY | .DEEPSEEK_API_KEY => some "sk"
  | .APPLE_TEAM_ID | .APPLE_KEY_ID | .APPLE_PRIVATE_KEY => some "apple"
  | .APPLE_CLIENT_ID => some "com.viralventures.fieldnote"
  | .JWT_ACCESS_SECRET => some "0123456789abcdef"
  | .JWT_REFRESH_SECRET => some "fedcba9876543210"
  | _ => none

/-- A test on the configuration that an environment loads. -/
theorem loads_any {p : AppConfig → Bool}
    (h : (loadConfig urlParses env).toOption.any p = true) :
    ∃ cfg, loadConfig urlParses env = .ok cfg ∧ p cfg = true := by
  cases hload : loadConfig urlParses env with
  | error e =>
      rw [hload] at h
      cases h
  | ok cfg =>
      rw [hload] at h
      exact ⟨cfg, rfl, h⟩

theorem production_hardened_demo : ∃ cfg, loadConfig (fun _ => true) productionEnv = .ok cfg ∧
    Hardened cfg := by
  obtain ⟨cfg, hcfg, hprod⟩ :=
    loads_any (show (loadConfig (fun _ => true) productionEnv).toOption.any
      AppConfig.isProduction = true by decide +kernel)
  exact ⟨cfg, hcfg, production_hardened hcfg hprod⟩

section Dashboard

/-- The user and the password of decoded credentials: what is before and behind the first
colon. -/
def credentials (decoded : String) : String × String :=
  match decoded.toList.dropWhile (· ≠ ':') with
  | [] => (decoded, "")
  | _ :: pass => (String.ofList (decoded.toList.takeWhile (· ≠ ':')), String.ofList pass)

/-- The word behind the scheme `Basic`. -/
def presented (authorization : Option String) : Option String :=
  match (authorization.getD "").toList.splitOn ' ' with
  | scheme :: encoded :: _ =>
      if scheme = "Basic".toList ∧ encoded ≠ [] then some (String.ofList encoded) else none
  | _ => none

/-- `basicAuth` of the dashboard; `decode` is `Buffer.from(encoded, 'base64')`. -/
def basicAuth (decode : String → String) (cfg : BullBoardConfig) (authorization : Option String) :
    Bool :=
  match presented authorization with
  | none => false
  | some encoded =>
      (credentials (decode encoded)).1 = cfg.user && (credentials (decode encoded)).2 = cfg.password

theorem credentials_iff (decoded user : String) {password : String} (hpassword : password ≠ "") :
    credentials decoded = (user, password) ↔
      decoded = user ++ ":" ++ password ∧ ':' ∉ user.toList := by
  have hsplit := List.takeWhile_append_dropWhile (p := (· ≠ ':')) (l := decoded.toList)
  unfold credentials
  constructor
  · intro h
    split at h
    · cases h
      exact (hpassword rfl).elim
    · rename_i c pass hdrop
      cases h
      have hcolon : c = ':' := by
        have hhead := List.head?_dropWhile_not (p := (· ≠ ':')) decoded.toList
        rw [hdrop] at hhead
        simpa using hhead
      refine ⟨?_, ?_⟩
      · apply String.toList_inj.mp
        rw [hdrop, hcolon] at hsplit
        simpa using hsplit.symm
      · rw [String.toList_ofList]
        intro hmem
        simpa using List.mem_takeWhile_imp hmem
  · rintro ⟨rfl, huser⟩
    have htext : (user ++ ":" ++ password).toList = user.toList ++ ':' :: password.toList := by
      simp
    have hpass (c : Char) (hc : c ∈ user.toList) : decide (c ≠ ':') = true := by
      simp only [decide_eq_true_eq]
      rintro rfl
      exact huser hc
    rw [htext, List.dropWhile_append_of_pos hpass, List.takeWhile_append_of_pos hpass]
    simp

/-- The dashboard lets in whoever presents the configured credentials, and nobody when the
configured user has a colon. -/
theorem dashboard_admits (decode : String → String) (h : loadConfig urlParses env = .ok cfg)
    (henabled : cfg.bullBoard.enabled = true) (authorization : Option String) :
    basicAuth decode cfg.bullBoard authorization = true ↔
      ':' ∉ cfg.bullBoard.user.toList ∧ ∃ encoded, presented authorization = some encoded ∧
        decode encoded = cfg.bullBoard.user ++ ":" ++ cfg.bullBoard.password := by
  obtain ⟨raw, rfl, -, -⟩ := loaded h
  have hpassword : (appConfig raw).bullBoard.password ≠ "" := by
    have hboth : (decide ((raw .BULL_BOARD_USER : String) ≠ "") &&
      decide ((raw .BULL_BOARD_PASSWORD : String) ≠ "")) = true := henabled
    simp only [Bool.and_eq_true, decide_eq_true_eq] at hboth
    exact hboth.2
  unfold basicAuth
  cases hpresented : presented authorization with
  | none => simp
  | some encoded =>
      have hpair := credentials_iff (decode encoded) (appConfig raw).bullBoard.user hpassword
      rw [Prod.ext_iff] at hpair
      simp only [Bool.and_eq_true, decide_eq_true_eq, hpair, Option.some.injEq,
        exists_eq_left', and_comm]

/-- A dashboard whose password has a colon. -/
def boardEnv (x : Var) : Option String :=
  if x = .BULL_BOARD_USER then some "a" else if x = .BULL_BOARD_PASSWORD then some "b:c"
  else productionEnv x

def demoDecode (s : String) : String := if s = "YTpiOmM=" then "a:b:c" else ""

theorem dashboard_admits_demo : ∃ cfg, loadConfig (fun _ => true) boardEnv = .ok cfg ∧
    basicAuth demoDecode cfg.bullBoard (some "Basic YTpiOmM=") = true := by
  obtain ⟨cfg, hcfg, hboard⟩ :=
    loads_any (show (loadConfig (fun _ => true) boardEnv).toOption.any (fun cfg =>
      cfg.bullBoard.enabled && cfg.bullBoard.user = "a" && cfg.bullBoard.password = "b:c") = true
        by decide +kernel)
  simp only [Bool.and_eq_true, decide_eq_true_eq] at hboard
  obtain ⟨⟨henabled, huser⟩, hpassword⟩ := hboard
  refine ⟨cfg, hcfg, (dashboard_admits demoDecode hcfg henabled _).mpr ⟨?_, "YTpiOmM=", ?_, ?_⟩⟩
  · rw [huser]
    decide
  · decide
  · rw [huser, hpassword]
    decide

end Dashboard

end FieldNote.BootWiring
