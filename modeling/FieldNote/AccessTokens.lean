import FieldNote.JsonFields
import FieldNote.RefreshTokens

/-!
# Access tokens and the guard that verifies them

The token service signs the claims of a user and the guard of every route that is not public
verifies them. Signing and verifying are the JWT library's, so they are parameters: what the
code relies on is that a token's signed text decides what is read of it, that the issuer, the
audience and the expiry are checked, and that a token is a word. A signature has other spellings
that verify as well, so nothing is said of the tokens themselves. Instants are milliseconds,
those inside a token seconds.
-/
namespace FieldNote.AccessTokens
open Json

/-- The claims of a token. -/
structure Payload where
  members : List (String × Json)
  wellFormed : (Json.object members).WellFormed

namespace Payload

def string (p : Payload) (name : String) : Option String :=
  (member name p.members).bind asString

def seconds (p : Payload) (name : String) : Option ℕ := (member name p.members).bind asNat

end Payload

/-- What the token service has `SignJWT` sign. -/
structure Claims where
  type : String
  appleSub : String
  sub : String
  iss : String
  aud : String
  iat : ℕ
  exp : ℕ

def Claims.payload (c : Claims) : Payload where
  members := [("type", .string c.type), ("appleSub", .string c.appleSub), ("sub", .string c.sub),
    ("iss", .string c.iss), ("aud", .string c.aud), ("iat", ofNat c.iat), ("exp", ofNat c.exp)]
  wellFormed := by simp

theorem Claims.seconds_exp (c : Claims) : c.payload.seconds "exp" = some c.exp := by
  simp [Claims.payload, Payload.seconds, member]

/-- What the signature of a token covers: its text up to the last period. -/
def signedText (token : String) : String :=
  String.ofList ((token.toList.reverse.dropWhile (· ≠ '.')).drop 1).reverse

/-- `SignJWT` and `jwtVerify` under one secret; the instant is in seconds. -/
structure Jose where
  sign : Claims → String
  jwtVerify (token issuer audience : String) (now : ℕ) : Option Payload

/-- What is known of the library. -/
structure Jose.Lawful (jose : Jose) : Prop where
  payload : ∀ token c issuer audience now p, signedText token = signedText (jose.sign c) →
    jose.jwtVerify token issuer audience now = some p → p = c.payload
  unexpired : ∀ token issuer audience now p e,
    jose.jwtVerify token issuer audience now = some p → p.seconds "exp" = some e → now < e
  accepts : ∀ c now, now < c.exp → jose.jwtVerify (jose.sign c) c.iss c.aud now = some c.payload
  compact : ∀ c, jose.sign c ≠ "" ∧ ' ' ∉ (jose.sign c).toList

/-- The configuration the tokens depend on; `hmac` is keyed with the refresh secret. -/
structure JwtConfig where
  appBaseUrl : String
  accessTtl : ℕ
  refreshTtl : ℕ
  hmac : String → String

def jwtAudience : String := "fieldnote-app"

/-- The claims that `issueAccessToken` signs. -/
def accessClaims (cfg : JwtConfig) (userId appleSub : String) (now : ℕ) : Claims where
  type := "access"
  appleSub := appleSub
  sub := userId
  iss := cfg.appBaseUrl
  aud := jwtAudience
  iat := now / 1000
  exp := now / 1000 + cfg.accessTtl

/-- The token service on top of the library. -/
def tokenService (jose : Jose) (cfg : JwtConfig) : TokenService where
  hmac := cfg.hmac
  signJwt userId appleSub now := jose.sign (accessClaims cfg userId appleSub now)
  accessTtl := cfg.accessTtl
  refreshTtl := cfg.refreshTtl

structure AuthenticatedUser where
  userId : String
  appleSub : String
deriving DecidableEq, Repr

def isBearer (scheme : List Char) : Bool := scheme.map Char.toLower = "bearer".toList

/-- Of the words that single spaces separate, the first is the scheme and the second the
token. -/
def extractToken (authorization : Option String) : Option String :=
  match authorization.filter (· ≠ "") with
  | none => none
  | some header =>
      match header.toList.splitOn ' ' with
      | scheme :: value :: _ =>
          if isBearer scheme = true ∧ value ≠ [] then some (String.ofList value) else none
      | _ => none

def missingToken : String := "Missing bearer token."
def invalidToken : String := "Invalid or expired access token."

/-- `JwtAuthGuard.canActivate`: the user it attaches, or the message of its 401. A payload of
another kind is thrown and caught again, so its own message never leaves. -/
def canActivate (jose : Jose) (cfg : JwtConfig) (isPublic : Bool)
    (authorization : Option String) (now : ℕ) : Except String (Option AuthenticatedUser) :=
  if isPublic then .ok none
  else
    match extractToken authorization with
    | none => .error missingToken
    | some token =>
        match jose.jwtVerify token cfg.appBaseUrl jwtAudience (now / 1000) with
        | none => .error invalidToken
        | some p =>
            match p.string "type", p.string "sub" with
            | some type, some sub =>
                if type = "access" then .ok (some ⟨sub, (p.string "appleSub").getD ""⟩)
                else .error invalidToken
            | _, _ => .error invalidToken

section Guard

variable {jose : Jose} {cfg : JwtConfig}

/-- A scheme, a space and a token that is a word. -/
theorem extractToken_bearer {scheme token : String} (hscheme : isBearer scheme.toList = true)
    (hspace : ' ' ∉ scheme.toList) (htoken : token ≠ "" ∧ ' ' ∉ token.toList) :
    extractToken (some (scheme ++ " " ++ token)) = some token := by
  have hsplit : (scheme ++ " " ++ token).toList.splitOn ' ' = [scheme.toList, token.toList] := by
    have htext : (scheme ++ " " ++ token).toList = scheme.toList ++ ' ' :: token.toList := by
      simp
    rw [htext, List.splitOn_append_cons_self_of_not_mem hspace, List.splitOn_eq_singleton htoken.2]
  have hvalue : token.toList ≠ [] := by simpa using htoken.1
  have hpresent : (some (scheme ++ " " ++ token)).filter (· ≠ "") =
      some (scheme ++ " " ++ token) := by
    rw [Option.filter_eq_some_iff]
    exact ⟨rfl, by simp⟩
  simp only [extractToken, hpresent, hsplit]
  rw [if_pos ⟨hscheme, hvalue⟩, String.ofList_toList]

/-- What an admitted request has presented. -/
theorem admitted_payload (hjose : jose.Lawful) {authorization : Option String} {now : ℕ}
    {user : AuthenticatedUser}
    (h : canActivate jose cfg false authorization now = .ok (some user)) :
    ∃ token p, extractToken authorization = some token ∧
      jose.jwtVerify token cfg.appBaseUrl jwtAudience (now / 1000) = some p ∧
      (∀ e, p.seconds "exp" = some e → now / 1000 < e) ∧ p.string "sub" = some user.userId ∧
      (p.string "appleSub").getD "" = user.appleSub := by
  simp only [canActivate, Bool.false_eq_true, if_false] at h
  split at h
  · cases h
  · rename_i token htoken
    split at h
    · cases h
    · rename_i p hp
      split at h
      · rename_i type sub htype hsub
        split_ifs at h
        cases h
        exact ⟨token, p, htoken, hp, fun e he => hjose.unexpired _ _ _ _ _ _ hp he, hsub, rfl⟩
      · cases h

theorem space_not_mem_bearer {scheme : String} (h : isBearer scheme.toList = true) :
    ' ' ∉ scheme.toList := by
  intro hmem
  have hlower : (' ' : Char).toLower ∈ scheme.toList.map Char.toLower := List.mem_map_of_mem hmem
  rw [of_decide_eq_true h] at hlower
  revert hlower
  decide

/-- What the guard reads of a header with an issued token. -/
theorem extractToken_issued (cfg : JwtConfig) (hjose : jose.Lawful) {scheme : String}
    (hscheme : isBearer scheme.toList = true) (userId appleSub : String) (issuedAt : ℕ) :
    extractToken (some (scheme ++ " " ++
        (tokenService jose cfg).issueAccessToken userId appleSub issuedAt)) =
      some (jose.sign (accessClaims cfg userId appleSub issuedAt)) :=
  extractToken_bearer hscheme (space_not_mem_bearer hscheme) (hjose.compact _)

/-- A token of which the claims of a user are read is admitted for that user. -/
theorem canActivate_verified {authorization : Option String} {token userId appleSub : String}
    {issuedAt now : ℕ} (htoken : extractToken authorization = some token)
    (hverify : jose.jwtVerify token cfg.appBaseUrl jwtAudience (now / 1000) =
      some (accessClaims cfg userId appleSub issuedAt).payload) :
    canActivate jose cfg false authorization now = .ok (some ⟨userId, appleSub⟩) := by
  simp only [canActivate, Bool.false_eq_true, if_false, htoken, hverify]
  rfl

/-- An issued token is admitted for its user until it expires, under any spelling of the
scheme, and refused from then on. -/
theorem issued_admitted (hjose : jose.Lawful) {scheme : String}
    (hscheme : isBearer scheme.toList = true) (userId appleSub : String) (issuedAt now : ℕ) :
    canActivate jose cfg false (some (scheme ++ " " ++
        (tokenService jose cfg).issueAccessToken userId appleSub issuedAt)) now =
      if now / 1000 < issuedAt / 1000 + cfg.accessTtl then .ok (some ⟨userId, appleSub⟩)
      else .error invalidToken := by
  have htoken := extractToken_issued cfg hjose hscheme userId appleSub issuedAt
  split_ifs with hnow
  · exact canActivate_verified htoken
      (hjose.accepts (accessClaims cfg userId appleSub issuedAt) _ hnow)
  · simp only [canActivate, Bool.false_eq_true, if_false, htoken]
    cases hverify : jose.jwtVerify (jose.sign (accessClaims cfg userId appleSub issuedAt))
        cfg.appBaseUrl jwtAudience (now / 1000) with
    | none => rfl
    | some p =>
        have hp := hjose.payload _ _ _ _ _ _ rfl hverify
        have hexp := (accessClaims cfg userId appleSub issuedAt).seconds_exp
        exact (hnow (hjose.unexpired _ _ _ _ _ _ hverify (hp ▸ hexp))).elim

end Guard

section Plain

/-- A text without spaces. -/
def compactChar (c : Char) : List Char :=
  if c = ' ' then ['%', '0'] else if c = '%' then ['%', '1'] else [c]

def spread : List Char → List Char
  | [] => []
  | [c] => [c]
  | c :: d :: cs =>
      if c = '%' then (if d = '0' then ' ' else '%') :: spread cs else c :: spread (d :: cs)

theorem spread_compact (cs : List Char) : spread (cs.flatMap compactChar) = cs := by
  induction cs with
  | nil => rfl
  | cons c cs ih =>
      rw [List.flatMap_cons]
      by_cases hspace : c = ' '
      · have hpair : compactChar c = ['%', '0'] := by rw [hspace]; rfl
        rw [hpair, hspace]
        simp [spread, ih]
      · by_cases hpercent : c = '%'
        · have hpair : compactChar c = ['%', '1'] := by rw [hpercent]; rfl
          rw [hpair, hpercent]
          simp [spread, ih]
        · rw [compactChar.eq_1 c, if_neg hspace, if_neg hpercent]
          generalize cs.flatMap compactChar = rest at ih
          cases rest with
          | nil => simp [← ih, spread]
          | cons d ds => simp [spread, hpercent, ih]

theorem space_not_mem_compact (cs : List Char) : ' ' ∉ cs.flatMap compactChar := by
  intro h
  obtain ⟨c, -, hc⟩ := List.mem_flatMap.mp h
  unfold compactChar at hc
  split_ifs at hc with hspace hpercent
  · revert hc
    decide
  · revert hc
    decide
  · exact hspace (List.mem_singleton.mp hc).symm

/-- The text of a payload as one word. -/
def plainText (p : Payload) : String :=
  String.ofList (((Json.object p.members).print false).flatMap compactChar)

def plainRead (text : String) : Option Payload :=
  match Json.parse (String.ofList (spread text.toList)) with
  | some (.object members) =>
      if h : (Json.object members).WellFormed then some ⟨members, h⟩ else none
  | _ => none

/-- A library for a world without forgers: every signature is the letter `s`, and a verifier
ignores the padding after it. -/
def plainSign (c : Claims) : String := plainText c.payload ++ ".s"

def plainVerify (token issuer audience : String) (now : ℕ) : Option Payload :=
  if token.toList.filter (· ≠ '=') = (signedText token ++ ".s").toList.filter (· ≠ '=') then
    (plainRead (signedText token)).filter fun p =>
      p.string "iss" = some issuer && p.string "aud" = some audience &&
        (p.seconds "exp").all fun e => now < e
  else none

def plainJose : Jose := ⟨plainSign, plainVerify⟩

theorem plainRead_text (p : Payload) : plainRead (plainText p) = some p := by
  have hparse := parse_stringify false p.wellFormed
  rw [Json.stringify] at hparse
  simp only [plainRead, plainText, String.toList_ofList, spread_compact, hparse]
  exact dif_pos p.wellFormed

@[simp] theorem jwtVerify_plainJose : plainJose.jwtVerify = plainVerify := rfl

@[simp] theorem sign_plainJose : plainJose.sign = plainSign := rfl

/-- A signature that is a word does not belong to the text it signs. -/
theorem signedText_append {signature : String} (h : '.' ∉ signature.toList) (text : String) :
    signedText (text ++ "." ++ signature) = text := by
  have htext : (text ++ "." ++ signature).toList.reverse =
      signature.toList.reverse ++ '.' :: text.toList.reverse := by simp
  have hsignature : ∀ c ∈ signature.toList.reverse, decide (c ≠ '.') = true := by
    intro c hc
    have hmem := List.mem_reverse.mp hc
    exact decide_eq_true fun heq => h (heq ▸ hmem)
  rw [signedText, htext, List.dropWhile_append_of_pos hsignature]
  simp

theorem signedText_plainSign (c : Claims) : signedText (plainSign c) = plainText c.payload := by
  have hdot : (".s" : String) = "." ++ "s" := by decide
  rw [plainSign, hdot, ← String.append_assoc]
  exact signedText_append (by decide) _

theorem plainVerify_spec {token issuer audience : String} {now : ℕ} {p : Payload}
    (h : plainVerify token issuer audience now = some p) :
    plainRead (signedText token) = some p ∧ ∀ e, p.seconds "exp" = some e → now < e := by
  unfold plainVerify at h
  split_ifs at h
  obtain ⟨hread, hchecks⟩ := Option.filter_eq_some_iff.mp h
  simp only [Bool.and_eq_true] at hchecks
  refine ⟨hread, ?_⟩
  intro e he
  simpa [he] using hchecks.2

theorem plainSign_compact (c : Claims) : plainSign c ≠ "" ∧ ' ' ∉ (plainSign c).toList := by
  have htext : (plainSign c).toList =
      ((Json.object c.payload.members).print false).flatMap compactChar ++ ['.', 's'] := by
    rw [plainSign, plainText, String.toList_append, String.toList_ofList]
    rfl
  constructor
  · intro h
    rw [h] at htext
    simp at htext
  · rw [htext, List.mem_append, not_or]
    exact ⟨space_not_mem_compact _, by decide⟩

/-- The padding after the signature does not count. -/
theorem plainVerify_padded {token : String} (c : Claims) {now : ℕ} (hnow : now < c.exp)
    (htext : signedText token = plainText c.payload)
    (hpadded : token.toList.filter (· ≠ '=') = (plainSign c).toList.filter (· ≠ '=')) :
    plainVerify token c.iss c.aud now = some c.payload := by
  have hiss : c.payload.string "iss" = some c.iss := rfl
  have haud : c.payload.string "aud" = some c.aud := rfl
  rw [plainVerify, htext, plainRead_text, ← plainSign, if_pos hpadded]
  simp only [Option.filter_some, hiss, haud, c.seconds_exp, decide_true, Bool.and_self,
    Option.all_some, decide_eq_true hnow, if_true]

theorem plainJose_lawful : plainJose.Lawful := by
  constructor
  · intro token c issuer audience now p htext h
    rw [sign_plainJose, signedText_plainSign] at htext
    rw [jwtVerify_plainJose] at h
    have hread := (plainVerify_spec h).1
    rw [htext, plainRead_text] at hread
    exact (Option.some.inj hread).symm
  · intro token issuer audience now p e h he
    rw [jwtVerify_plainJose] at h
    exact (plainVerify_spec h).2 e he
  · intro c now hnow
    rw [jwtVerify_plainJose, sign_plainJose]
    exact plainVerify_padded c hnow (signedText_plainSign c) rfl
  · intro c
    rw [sign_plainJose]
    exact plainSign_compact c

def demoConfig : JwtConfig := ⟨"https://api.fieldnote.app", 900, 2592000, fun s => "h" ++ s⟩

/-- In the last second before it expires. -/
theorem issued_admitted_demo :
    canActivate plainJose demoConfig false (some ("BEARER" ++ " " ++
      (tokenService plainJose demoConfig).issueAccessToken "u1" "apple 1" 5000)) 904999 =
        .ok (some ⟨"u1", "apple 1"⟩) := by
  rw [issued_admitted plainJose_lawful (by decide)]
  exact if_pos (by decide)

end Plain

end FieldNote.AccessTokens
