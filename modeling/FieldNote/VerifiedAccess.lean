import FieldNote.AccessTokens
import FieldNote.AuthService
import FieldNote.CallPool
import FieldNote.GuardedRuns

/-!
# Whom an admitted request speaks for

Sign-ins and refreshes of the auth service in any interleaving, and requests to guarded
routes between them. A sign-in brings an identity token and a nonce, which the Apple verifier
checks; Apple's key set is a parameter. Anyone may present anything to the guard, but nobody
forges a signature: what verifies has the signed text of a token that was handed out, though its
signature may be spelled otherwise. What the run has verified and admitted is logged; nothing
reads the logs.
-/
namespace FieldNote.VerifiedAccess
open AccessTokens AuthService CallPool GuardedRuns

/-- The claims of an identity token that the verifier reads. -/
structure AppleIdTokenClaims where
  sub : Option String
  email : Option String
  nonce : Option String
deriving DecidableEq, Repr

/-- `jwks` is `jwtVerify` against Apple's keys. -/
structure AppleVerifier where
  jwks (identityToken issuer audience : String) (now : ℕ) : Option AppleIdTokenClaims
  sha256 : String → String
  clientId : String

def appleIssuer : String := "https://appleid.apple.com"

/-- `RealAppleTokenVerifier.verify`. -/
def AppleVerifier.verify (apple : AppleVerifier) (identityToken : String)
    (expectedNonce : Option String) (now : ℕ) : Except String AppleIdentity :=
  match apple.jwks identityToken appleIssuer apple.clientId now with
  | none => .error "Apple identity token failed verification."
  | some claims =>
      match claims.sub.filter (· ≠ "") with
      | none => .error "Apple identity token missing subject."
      | some sub =>
          match expectedNonce.filter (· ≠ "") with
          | none => .error "Apple sign-in is missing the required nonce."
          | some nonce =>
              if claims.nonce ≠ some nonce ∧ claims.nonce ≠ some (apple.sha256 nonce) then
                .error "Apple identity token nonce mismatch."
              else .ok ⟨sub, claims.email⟩

/-- An identity that the verifier has returned, with what it was given. -/
structure Verified where
  identityToken : String
  nonce : Option String
  now : ℕ
  identity : AppleIdentity
deriving DecidableEq

/-- A request that the guard has let through. -/
structure Admission where
  token : String
  user : AuthenticatedUser
  now : ℕ
deriving DecidableEq

/-- `presented` are the identity token and the nonce of each sign-in call. -/
structure World where
  auth : State
  presented : List (String × Option String)
  verified : List Verified
  admitted : List Admission

def init : World := ⟨AuthService.init, [], [], []⟩

inductive Action where
  | signIn (identityToken : String) (nonce email : Option String)
  | auth (action : AuthService.Action)
  | request (authorization : Option String) (now : ℕ)

variable (jose : Jose) (cfg : JwtConfig) (apple : AppleVerifier)

/-- What a segment of a sign-in call has verified. -/
def verifies (presented : String × Option String) (now : ℕ) : SignInPc → List Verified
  | .verify _ =>
      match apple.verify presented.1 presented.2 now with
      | .ok identity => [⟨presented.1, presented.2, now, identity⟩]
      | .error _ => []
  | _ => []

/-- A sign-in call meets the verifier's answer to what was presented for it. -/
def answered (presented : String × Option String) (env : Env) : Env :=
  { env with identity := (apple.verify presented.1 presented.2 env.now).toOption }

def step (w : World) : Action → Option World
  | .signIn identityToken nonce email =>
      (AuthService.step (tokenService jose cfg) w.auth (.signIn email)).map fun s =>
        { w with auth := s, presented := w.presented ++ [(identityToken, nonce)] }
  | .auth action =>
      match action with
      | .signIn _ => none
      | .stepSignIn i env =>
          w.presented[i]?.bind fun presented =>
            w.auth.signInCalls[i]?.bind fun pc =>
              (stepSignIn (tokenService jose cfg) w.auth i (answered apple presented env) pc).map
                fun s =>
                  { w with
                    auth := s
                    verified := w.verified ++ verifies apple presented env.now pc }
      | action =>
          (AuthService.step (tokenService jose cfg) w.auth action).map fun s => { w with auth := s }
  | .request authorization now =>
      match extractToken authorization, canActivate jose cfg false authorization now with
      | some token, .ok (some user) =>
          some { w with admitted := w.admitted ++ [⟨token, user, now⟩] }
      | _, _ => some w

def refreshToken : RefreshPc → Option String
  | .returned response => some response.accessToken
  | _ => none

def signInToken : SignInPc → Option String
  | .returned response => some response.accessToken
  | _ => none

/-- The access tokens that finished calls have handed out. -/
def issuedTokens (s : State) : List String :=
  s.refreshCalls.filterMap (fun call => refreshToken call.pc) ++
    s.signInCalls.filterMap signInToken

/-- What is presented and verifies has a signed text that was handed out. -/
def Unforged (w : World) : Action → Prop
  | .request authorization now =>
      ∀ token, extractToken authorization = some token →
        (jose.jwtVerify token cfg.appBaseUrl jwtAudience (now / 1000)).isSome →
          ∃ issued ∈ issuedTokens w.auth, signedText token = signedText issued
  | _ => True

/-- What stands behind an admitted request: a token with its signed text that was handed out for
its user and has not expired, the user's row, and an identity that Apple's verifier has
confirmed. -/
structure Vouched (w : World) (a : Admission) : Prop where
  issued : ∃ t, (tokenService jose cfg).issueAccessToken a.user.userId a.user.appleSub t ∈
      issuedTokens w.auth ∧
    signedText a.token =
      signedText ((tokenService jose cfg).issueAccessToken a.user.userId a.user.appleSub t) ∧
    a.now / 1000 < t / 1000 + cfg.accessTtl
  row : ∃ row, w.auth.users.findUnique a.user.userId = some row ∧ row.appleSub = a.user.appleSub
  verified : ∃ v ∈ w.verified, v.identity.sub = a.user.appleSub ∧
    apple.verify v.identityToken v.nonce v.now = .ok v.identity

/-- The table has the user, under any email. -/
def HasUser (t : UserTable) (id appleSub : String) : Prop :=
  ∃ row, t.findUnique id = some row ∧ row.appleSub = appleSub

/-- A row keeps its Apple subject. -/
def UsersKept (t t' : UserTable) : Prop :=
  ∀ id appleSub, HasUser t id appleSub → HasUser t' id appleSub

section Upsert

variable {t t' : UserTable} {sub newId : String} {email : Option String} {user : User}

/-- A changed email changes no subject. -/
theorem hasUser_update (t : UserTable) (k : String) (email : Option String) (id appleSub : String) :
    HasUser (t.update k (fun u => { u with email := email }) fun _ => rfl) id appleSub ↔
      HasUser t id appleSub := by
  unfold HasUser
  rw [Table.findUnique_update]
  by_cases hk : id = k
  · simp only [if_pos hk, Option.map_eq_some_iff]
    constructor
    · rintro ⟨_, ⟨row, hrow, rfl⟩, hsub⟩
      exact ⟨row, hrow, hsub⟩
    · rintro ⟨row, hrow, hsub⟩
      exact ⟨_, ⟨row, hrow, rfl⟩, hsub⟩
  · rw [if_neg hk]

/-- The upsert keeps the subjects of the rows, and the user it returns has the subject it was
given; every row it leaves was there or has that subject. -/
theorem upsert_effect (h : t.upsertByApple sub email newId = some (t', user)) :
    UsersKept t t' ∧ HasUser t' user.id sub ∧ user.appleSub = sub ∧
      ∀ id appleSub, HasUser t' id appleSub → HasUser t id appleSub ∨ appleSub = sub := by
  unfold UserTable.upsertByApple at h
  split at h
  · rename_i u hu
    have hmem := List.mem_of_find?_eq_some hu
    have hsub : u.appleSub = sub := by simpa using List.find?_some hu
    have hthere : HasUser t u.id sub := ⟨u, Table.findUnique_of_mem hmem, hsub⟩
    split at h
    · rename_i e
      split_ifs at h
      · cases h
        exact ⟨fun _ _ hid => hid, hthere, hsub, fun _ _ hid => .inl hid⟩
      · cases h
        refine ⟨fun id appleSub hid => (hasUser_update t u.id _ id appleSub).mpr hid,
          (hasUser_update t u.id _ u.id sub).mpr hthere, hsub, ?_⟩
        intro id appleSub hid
        exact .inl ((hasUser_update t u.id _ id appleSub).mp hid)
    · cases h
      exact ⟨fun _ _ hid => hid, hthere, hsub, fun _ _ hid => .inl hid⟩
  · obtain ⟨t₁, hcreate, heq⟩ := Option.map_eq_some_iff.mp h
    cases heq
    have hfree := (Table.create_eq_some hcreate).1
    refine ⟨?_, ⟨_, by rw [Table.create_findUnique hcreate, if_pos rfl], rfl⟩, rfl, ?_⟩
    · rintro id appleSub ⟨row, hrow, hsub⟩
      refine ⟨row, ?_, hsub⟩
      rw [Table.create_findUnique hcreate, if_neg, hrow]
      rintro rfl
      rw [hfree] at hrow
      cases hrow
    · rintro id appleSub ⟨row, hrow, hsub⟩
      rw [Table.create_findUnique hcreate] at hrow
      split_ifs at hrow with hid
      · cases hrow
        exact .inr hsub.symm
      · exact .inl ⟨row, hrow, hsub⟩

end Upsert

/-- The token was signed for a user of the table. -/
def Signed (users : UserTable) (token : String) : Prop :=
  ∃ id appleSub t, token = (tokenService jose cfg).issueAccessToken id appleSub t ∧
    HasUser users id appleSub

/-- What the locals of a refresh call say about the users. -/
def RefreshOk (users : UserTable) : RefreshPc → Prop
  | .rotate _ user _ | .issueAccess user _ => HasUser users user.id user.appleSub
  | .returned response => Signed jose cfg users response.accessToken
  | _ => True

def SignInOk (users : UserTable) (verified : List Verified) : SignInPc → Prop
  | .upsert identity _ => ∃ v ∈ verified, v.identity = identity
  | .createToken user _ | .issueAccess user _ => HasUser users user.id user.appleSub
  | .returned response => Signed jose cfg users response.accessToken
  | _ => True

structure Inv (w : World) : Prop where
  sound : ∀ v ∈ w.verified, apple.verify v.identityToken v.nonce v.now = .ok v.identity
  rows : ∀ id appleSub, HasUser w.auth.users id appleSub →
    ∃ v ∈ w.verified, v.identity.sub = appleSub
  refresh : ∀ (i : ℕ) c, w.auth.refreshCalls[i]? = some c → RefreshOk jose cfg w.auth.users c.pc
  signIn : ∀ (i : ℕ) pc, w.auth.signInCalls[i]? = some pc →
    SignInOk jose cfg w.auth.users w.verified pc
  admitted : ∀ a ∈ w.admitted, Vouched jose cfg apple w a

theorem inv_init : Inv jose cfg apple init := by
  refine ⟨?_, ?_, ?_, ?_, ?_⟩
  · simp [init]
  · rintro id appleSub ⟨row, hrow, -⟩
    simp [init, AuthService.init] at hrow
  · simp [init, AuthService.init]
  · simp [init, AuthService.init]
  · simp [init]

variable {jose cfg apple}

section Kept

variable {users users' : UserTable} {verified verified' : List Verified}

theorem Signed.mono {token : String} (h : Signed jose cfg users token)
    (hkept : UsersKept users users') : Signed jose cfg users' token := by
  obtain ⟨id, appleSub, t, htoken, huser⟩ := h
  exact ⟨id, appleSub, t, htoken, hkept id appleSub huser⟩

theorem RefreshOk.mono {pc : RefreshPc} (h : RefreshOk jose cfg users pc)
    (hkept : UsersKept users users') : RefreshOk jose cfg users' pc := by
  cases pc with
  | rotate record user next => exact hkept _ _ h
  | issueAccess user next => exact hkept _ _ h
  | returned response => exact Signed.mono h hkept
  | _ => trivial

theorem SignInOk.mono {pc : SignInPc} (h : SignInOk jose cfg users verified pc)
    (hkept : UsersKept users users') (hsub : ∀ v ∈ verified, v ∈ verified') :
    SignInOk jose cfg users' verified' pc := by
  cases pc with
  | upsert identity email =>
      obtain ⟨v, hv, heq⟩ := h
      exact ⟨v, hsub v hv, heq⟩
  | createToken user next => exact hkept _ _ h
  | issueAccess user next => exact hkept _ _ h
  | returned response => exact Signed.mono h hkept
  | _ => trivial

theorem tokenResponse_signed {user : User} (next : IssuedToken) (now : ℕ)
    (h : HasUser users user.id user.appleSub) :
    Signed jose cfg users (tokenResponse (tokenService jose cfg) user next now).accessToken :=
  ⟨user.id, user.appleSub, now, rfl, h⟩

end Kept

/-- What one step can do to the refresh calls; a call that has returned does not move. -/
structure RefreshMove (jose : Jose) (cfg : JwtConfig) (s t : State) (i : ℕ) (pc' : RefreshPc) :
    Prop where
  from_ : ∃ token pc, s.refreshCalls[i]? = some ⟨token, pc⟩ ∧
    NextPc (tokenService jose cfg) s token pc pc' ∧ refreshToken pc = none ∧
    t.refreshCalls = s.refreshCalls.set i ⟨token, pc'⟩
  users : t.users = s.users
  signInCalls : t.signInCalls = s.signInCalls

theorem stepRefresh_move {s t : State} {i : ℕ} {env : Env} {call : RefreshCall}
    (hi : s.refreshCalls[i]? = some call)
    (hs : stepRefresh (tokenService jose cfg) s i env call = some t) :
    ∃ pc', RefreshMove jose cfg s t i pc' := by
  rcases call with ⟨token, pc⟩
  cases pc with
  | findUnique =>
      cases hs
      exact ⟨_, ⟨token, _, hi, .lookup env.now, rfl, rfl⟩, rfl, rfl⟩
  | revokeChain userId =>
      cases hs
      exact ⟨_, ⟨token, _, hi, .revoked userId, rfl, rfl⟩, rfl, rfl⟩
  | findUser record =>
      simp only [stepRefresh] at hs
      split at hs
      · cases hs
        exact ⟨_, ⟨token, _, hi, .gone record, rfl, rfl⟩, rfl, rfl⟩
      · rename_i user huser
        split_ifs at hs with hfresh
        cases hs
        exact ⟨_, ⟨token, _, hi, .generated record user _ huser rfl hfresh, rfl, rfl⟩, rfl, rfl⟩
  | rotate record user next =>
      simp only [stepRefresh] at hs
      split at hs
      · cases hs
        exact ⟨_, ⟨token, _, hi, .failed _, rfl, rfl⟩, rfl, rfl⟩
      · cases hs
        exact ⟨_, ⟨token, _, hi, .committed record user next, rfl, rfl⟩, rfl, rfl⟩
  | issueAccess user next =>
      cases hs
      exact ⟨_, ⟨token, _, hi, .signed user next env.now, rfl, rfl⟩, rfl, rfl⟩
  | returned response => cases hs
  | rejected error => cases hs

theorem failRefresh_move {s t : State} {i : ℕ}
    (hs : AuthService.step (tokenService jose cfg) s (.failRefresh i) = some t) :
    ∃ pc', RefreshMove jose cfg s t i pc' := by
  obtain ⟨⟨token, pc⟩, hi, hs⟩ := Option.bind_eq_some_iff.mp hs
  cases pc with
  | returned response => cases hs
  | rejected error => cases hs
  | _ =>
      cases hs
      exact ⟨_, ⟨token, _, hi, .failed _, rfl, rfl⟩, rfl, rfl⟩

/-- A refresh call takes its user from the table. -/
theorem next_ok {s : State} {token : String} {pc pc' : RefreshPc}
    (h : NextPc (tokenService jose cfg) s token pc pc') (hok : RefreshOk jose cfg s.users pc) :
    RefreshOk jose cfg s.users pc' := by
  cases h with
  | lookup now =>
      unfold afterLookup
      split
      · trivial
      · split_ifs <;> trivial
  | generated record user next found hashed fresh =>
      have hid := Table.findUnique_key found
      exact ⟨user, hid ▸ found, rfl⟩
  | committed record user next => exact hok
  | signed user next now => exact tokenResponse_signed next now hok
  | revoked userId => trivial
  | gone record => trivial
  | failed pc => trivial

section Pools

variable {w w' : World}

/-- A token that was handed out stays handed out. -/
def IssuedKept (s t : State) : Prop := ∀ token ∈ issuedTokens s, token ∈ issuedTokens t

theorem Vouched.mono {a : Admission} (h : Vouched jose cfg apple w a)
    (hissued : IssuedKept w.auth w'.auth) (hkept : UsersKept w.auth.users w'.auth.users)
    (hverified : ∀ v ∈ w.verified, v ∈ w'.verified) : Vouched jose cfg apple w' a := by
  obtain ⟨t, ht, hsame⟩ := h.issued
  obtain ⟨v, hv, hrest⟩ := h.verified
  exact ⟨⟨t, hissued _ ht, hsame⟩, hkept _ _ h.row, v, hverified v hv, hrest⟩

theorem mem_filterMap_set {α β : Type} {f : α → Option β} {pool : List α} {i : ℕ} {c a : α} {b : β}
    (hi : pool[i]? = some c) (hc : f c = none) (hb : b ∈ pool.filterMap f) :
    b ∈ (pool.set i a).filterMap f := by
  obtain ⟨x, hx, hfx⟩ := List.mem_filterMap.mp hb
  refine List.mem_filterMap.mpr ⟨x, mem_set_of_ne hi ?_ hx, hfx⟩
  rintro rfl
  rw [hc] at hfx
  cases hfx

/-- The steps of refresh calls. -/
theorem Inv.refresh_move {i : ℕ} {pc' : RefreshPc} (h : Inv jose cfg apple w)
    (hmove : RefreshMove jose cfg w.auth w'.auth i pc')
    (hverified : w'.verified = w.verified) (hadmitted : w'.admitted = w.admitted) :
    Inv jose cfg apple w' := by
  obtain ⟨⟨token, pc, hi, hnext, hlive, hcalls⟩, husers, hsign⟩ := hmove
  have hissued : IssuedKept w.auth w'.auth := by
    intro t ht
    rw [issuedTokens, hcalls, hsign]
    rcases List.mem_append.mp ht with ht | ht
    · exact List.mem_append_left _ (mem_filterMap_set hi hlive ht)
    · exact List.mem_append_right _ ht
  refine ⟨?_, ?_, ?_, ?_, ?_⟩
  · rw [hverified]
    exact h.sound
  · rw [hverified, husers]
    exact h.rows
  · intro j c hj
    rw [hcalls] at hj
    rw [husers]
    rcases getElem?_set_cases hj with ⟨-, rfl⟩ | ⟨-, hj⟩
    · exact next_ok hnext (h.refresh i _ hi)
    · exact h.refresh j c hj
  · rw [hverified, husers, hsign]
    exact h.signIn
  · intro a ha
    rw [hadmitted] at ha
    exact (h.admitted a ha).mono hissued (fun _ _ hid => husers ▸ hid) fun v hv => hverified ▸ hv

/-- The steps of sign-in calls. -/
theorem Inv.signIn_move {i : ℕ} {pc pc' : SignInPc} (h : Inv jose cfg apple w)
    (hi : w.auth.signInCalls[i]? = some pc) (hlive : signInToken pc = none)
    (hcalls : w'.auth.signInCalls = w.auth.signInCalls.set i pc')
    (hrefresh : w'.auth.refreshCalls = w.auth.refreshCalls)
    (hkept : UsersKept w.auth.users w'.auth.users)
    (hrows : ∀ id appleSub, HasUser w'.auth.users id appleSub →
      ∃ v ∈ w'.verified, v.identity.sub = appleSub)
    (hverified : ∀ v ∈ w.verified, v ∈ w'.verified)
    (hsound : ∀ v ∈ w'.verified, apple.verify v.identityToken v.nonce v.now = .ok v.identity)
    (hadmitted : w'.admitted = w.admitted)
    (hok : SignInOk jose cfg w'.auth.users w'.verified pc') : Inv jose cfg apple w' := by
  have hissued : IssuedKept w.auth w'.auth := by
    intro t ht
    rw [issuedTokens, hcalls, hrefresh]
    rcases List.mem_append.mp ht with ht | ht
    · exact List.mem_append_left _ ht
    · exact List.mem_append_right _ (mem_filterMap_set hi hlive ht)
  refine ⟨hsound, hrows, ?_, ?_, ?_⟩
  · intro j c hj
    rw [hrefresh] at hj
    exact (h.refresh j c hj).mono hkept
  · intro j c hj
    rw [hcalls] at hj
    rcases getElem?_set_cases hj with ⟨-, rfl⟩ | ⟨-, hj⟩
    · exact hok
    · exact (h.signIn j c hj).mono hkept hverified
  · intro a ha
    rw [hadmitted] at ha
    exact (h.admitted a ha).mono hissued hkept hverified

/-- A new call is added to one of the pools. -/
theorem Inv.start (h : Inv jose cfg apple w)
    (hrefresh : w'.auth.refreshCalls = w.auth.refreshCalls ∨
      ∃ token, w'.auth.refreshCalls = w.auth.refreshCalls ++ [⟨token, .findUnique⟩])
    (hsignIn : w'.auth.signInCalls = w.auth.signInCalls ∨
      ∃ email, w'.auth.signInCalls = w.auth.signInCalls ++ [.verify email])
    (husers : w'.auth.users = w.auth.users) (hverified : w'.verified = w.verified)
    (hadmitted : w'.admitted = w.admitted) : Inv jose cfg apple w' := by
  have hissued : IssuedKept w.auth w'.auth := by
    intro t ht
    rcases List.mem_append.mp ht with ht | ht
    · apply List.mem_append_left
      rcases hrefresh with heq | ⟨token, heq⟩ <;> rw [heq]
      · exact ht
      · rw [List.filterMap_append]
        exact List.mem_append_left _ ht
    · apply List.mem_append_right
      rcases hsignIn with heq | ⟨email, heq⟩ <;> rw [heq]
      · exact ht
      · rw [List.filterMap_append]
        exact List.mem_append_left _ ht
  refine ⟨?_, ?_, ?_, ?_, ?_⟩
  · rw [hverified]
    exact h.sound
  · rw [hverified, husers]
    exact h.rows
  · intro j c hj
    rw [husers]
    rcases hrefresh with heq | ⟨token, heq⟩ <;> rw [heq] at hj
    · exact h.refresh j c hj
    · rcases getElem?_start_cases hj with ⟨-, rfl⟩ | ⟨-, hj⟩
      · trivial
      · exact h.refresh j c hj
  · intro j c hj
    rw [husers, hverified]
    rcases hsignIn with heq | ⟨email, heq⟩ <;> rw [heq] at hj
    · exact h.signIn j c hj
    · rcases getElem?_start_cases hj with ⟨-, rfl⟩ | ⟨-, hj⟩
      · trivial
      · exact h.signIn j c hj
  · intro a ha
    rw [hadmitted] at ha
    exact (h.admitted a ha).mono hissued (fun _ _ hid => husers ▸ hid) fun v hv => hverified ▸ hv

end Pools

theorem inv_stepSignIn {w : World} {s : State} {i : ℕ} {env : Env} {pc : SignInPc}
    {presented : String × Option String} (h : Inv jose cfg apple w)
    (hi : w.auth.signInCalls[i]? = some pc)
    (hs : stepSignIn (tokenService jose cfg) w.auth i (answered apple presented env) pc = some s) :
    Inv jose cfg apple
      { w with auth := s, verified := w.verified ++ verifies apple presented env.now pc } := by
  have hsame (v : Verified) (hv : v ∈ w.verified) : v ∈ w.verified ++ [] := by simpa using hv
  have hsound : ∀ v ∈ w.verified ++ [], apple.verify v.identityToken v.nonce v.now =
      .ok v.identity := by simpa using h.sound
  have hrows : ∀ id appleSub, HasUser w.auth.users id appleSub →
      ∃ v ∈ w.verified ++ [], v.identity.sub = appleSub := by simpa using h.rows
  cases pc with
  | verify email =>
      cases hverify : apple.verify presented.1 presented.2 env.now with
      | error message =>
          simp only [stepSignIn, answered, hverify, Except.toOption, Option.some.injEq] at hs
          subst hs
          simp only [verifies, hverify]
          exact h.signIn_move hi rfl rfl rfl (fun _ _ hid => hid) hrows hsame hsound rfl trivial
      | ok identity =>
          simp only [stepSignIn, answered, hverify, Except.toOption, Option.some.injEq] at hs
          subst hs
          simp only [verifies, hverify]
          refine h.signIn_move hi rfl rfl rfl (fun _ _ hid => hid) ?_ ?_ ?_ rfl ?_
          · intro id appleSub hid
            obtain ⟨v, hv, hsub⟩ := h.rows id appleSub hid
            exact ⟨v, List.mem_append_left _ hv, hsub⟩
          · exact fun v hv => List.mem_append_left _ hv
          · intro v hv
            rcases List.mem_append.mp hv with hv | hv
            · exact h.sound v hv
            · obtain rfl := List.mem_singleton.mp hv
              exact hverify
          · exact ⟨_, List.mem_append_right _ (List.mem_singleton_self _), rfl⟩
  | upsert identity email =>
      obtain ⟨v, hv, hidentity⟩ := h.signIn i _ hi
      simp only [stepSignIn] at hs
      split at hs
      · cases hs
        exact h.signIn_move hi rfl rfl rfl (fun _ _ hid => hid) hrows hsame hsound rfl trivial
      · rename_i users user hupsert
        split_ifs at hs
        cases hs
        obtain ⟨hkept, hthere, hsub, hold⟩ := upsert_effect hupsert
        have huser : HasUser users user.id user.appleSub := by rwa [hsub]
        refine h.signIn_move hi rfl rfl rfl hkept ?_ hsame hsound rfl huser
        intro id appleSub hid
        rcases hold id appleSub hid with hbefore | rfl
        · exact hrows id appleSub hbefore
        · exact ⟨v, hsame v hv, congrArg AppleIdentity.sub hidentity⟩
  | createToken user next =>
      have huser : HasUser w.auth.users user.id user.appleSub := h.signIn i _ hi
      simp only [stepSignIn] at hs
      split at hs <;> cases hs
      · exact h.signIn_move hi rfl rfl rfl (fun _ _ hid => hid) hrows hsame hsound rfl trivial
      · exact h.signIn_move hi rfl rfl rfl (fun _ _ hid => hid) hrows hsame hsound rfl huser
  | issueAccess user next =>
      have huser : HasUser w.auth.users user.id user.appleSub := h.signIn i _ hi
      cases hs
      exact h.signIn_move hi rfl rfl rfl (fun _ _ hid => hid) hrows hsame hsound rfl
        (tokenResponse_signed next env.now huser)
  | returned response => cases hs
  | rejected error => cases hs

/-- A token that was handed out was signed for a user of the table. -/
theorem issued_signed {w : World} {token : String} (h : Inv jose cfg apple w)
    (htoken : token ∈ issuedTokens w.auth) : Signed jose cfg w.auth.users token := by
  rcases List.mem_append.mp htoken with hmem | hmem
  · obtain ⟨c, hc, htok⟩ := List.mem_filterMap.mp hmem
    obtain ⟨i, hi⟩ := List.mem_iff_getElem?.mp hc
    have hok := h.refresh i c hi
    rcases c with ⟨presented, pc⟩
    cases pc with
    | returned response =>
        have hhanded : response.accessToken = token := Option.some.inj htok
        exact hhanded ▸ hok
    | _ => cases htok
  · obtain ⟨pc, hc, htok⟩ := List.mem_filterMap.mp hmem
    obtain ⟨i, hi⟩ := List.mem_iff_getElem?.mp hc
    have hok := h.signIn i pc hi
    cases pc with
    | returned response =>
        have hhanded : response.accessToken = token := Option.some.inj htok
        exact hhanded ▸ hok
    | _ => cases htok

/-- An admitted request has presented the signed text of a token that was signed for its user. -/
theorem admitted_vouched (hjose : jose.Lawful) {w : World} {authorization : Option String}
    {now : ℕ} {token : String} {user : AuthenticatedUser} (h : Inv jose cfg apple w)
    (hg : Unforged jose cfg w (.request authorization now))
    (htoken : extractToken authorization = some token)
    (hstep : canActivate jose cfg false authorization now = .ok (some user)) :
    Vouched jose cfg apple w ⟨token, user, now⟩ := by
  obtain ⟨token', p, htoken', hp, hexp, hsub, happle⟩ := admitted_payload hjose hstep
  obtain rfl : token = token' := Option.some.inj (htoken.symm.trans htoken')
  obtain ⟨issued, hissued, hsame⟩ := hg token htoken (by rw [hp]; rfl)
  obtain ⟨id, appleSub, t, rfl, huser⟩ := issued_signed h hissued
  obtain rfl : p = (accessClaims cfg id appleSub t).payload :=
    hjose.payload _ _ _ _ _ _ hsame hp
  obtain rfl : id = user.userId := Option.some.inj hsub
  obtain rfl : appleSub = user.appleSub := happle
  obtain ⟨v, hv, hvsub⟩ := h.rows _ _ huser
  exact ⟨⟨t, hissued, hsame, hexp _ (Claims.seconds_exp _)⟩, huser, v, hv, hvsub, h.sound v hv⟩

theorem inv_step (hjose : jose.Lawful) {w w' : World} {a : Action} (h : Inv jose cfg apple w)
    (hg : Unforged jose cfg w a) (hs : step jose cfg apple w a = some w') :
    Inv jose cfg apple w' := by
  cases a with
  | signIn identityToken nonce email =>
      cases hs
      exact h.start (.inl rfl) (.inr ⟨email, rfl⟩) rfl rfl rfl
  | auth action =>
      cases action with
      | refresh token =>
          cases hs
          exact h.start (.inr ⟨token, rfl⟩) (.inl rfl) rfl rfl rfl
      | signIn email => cases hs
      | stepRefresh i env =>
          simp only [step, Option.map_eq_some_iff] at hs
          obtain ⟨s, hs, rfl⟩ := hs
          obtain ⟨call, hi, hs⟩ := Option.bind_eq_some_iff.mp hs
          obtain ⟨pc', hmove⟩ := stepRefresh_move hi hs
          exact h.refresh_move hmove rfl rfl
      | stepSignIn i env =>
          obtain ⟨presented, -, hs⟩ := Option.bind_eq_some_iff.mp hs
          obtain ⟨pc, hi, hs⟩ := Option.bind_eq_some_iff.mp hs
          obtain ⟨s, hmoved, rfl⟩ := Option.map_eq_some_iff.mp hs
          exact inv_stepSignIn h hi hmoved
      | failRefresh i =>
          simp only [step, Option.map_eq_some_iff] at hs
          obtain ⟨s, hs, rfl⟩ := hs
          obtain ⟨pc', hmove⟩ := failRefresh_move hs
          exact h.refresh_move hmove rfl rfl
      | failSignIn i =>
          simp only [step, Option.map_eq_some_iff] at hs
          obtain ⟨s, hs, rfl⟩ := hs
          obtain ⟨pc, hi, hs⟩ := Option.bind_eq_some_iff.mp hs
          have hlive : signInToken pc = none := by
            cases pc with
            | returned response => cases hs
            | _ => rfl
          split at hs
          · cases hs
          · cases hs
          · cases hs
            exact h.signIn_move hi hlive rfl rfl (fun _ _ hid => hid) h.rows (fun _ hv => hv)
              h.sound rfl trivial
  | request authorization now =>
      simp only [step] at hs
      split at hs
      · rename_i token user htoken hstep
        cases hs
        have hvouched := admitted_vouched hjose h hg htoken hstep
        refine ⟨h.sound, h.rows, h.refresh, h.signIn, ?_⟩
        intro a ha
        rcases List.mem_append.mp ha with ha | ha
        · exact (h.admitted a ha).mono (fun _ ht => ht) (fun _ _ hid => hid) fun _ hv => hv
        · obtain rfl := List.mem_singleton.mp ha
          exact hvouched.mono (fun _ ht => ht) (fun _ _ hid => hid) fun _ hv => hv
      · cases hs
        exact h

/-- Whoever is admitted holds the signed text of a token that was handed out for a user whom
Apple has verified in this run, and the token has not expired. -/
theorem admitted_verified (hjose : jose.Lawful) {w : World}
    (h : Run (step jose cfg apple) (Unforged jose cfg) init w) :
    ∀ a ∈ w.admitted, Vouched jose cfg apple w a := by
  have hinv : Inv jose cfg apple w :=
    h.invariant (inv_init jose cfg apple) fun _ _ _ hi hg hs => inv_step hjose hi hg hs
  exact hinv.admitted

section Demo

/-- Apple's keys confirm one token, whose nonce is the hash of the device's. -/
def demoApple : AppleVerifier where
  jwks identityToken _ _ _ :=
    if identityToken = "t" then some ⟨some "apple 1", none, some "#n"⟩ else none
  sha256 s := "#" ++ s
  clientId := "com.viralventures.fieldnote"

def demoEnv : Env := { now := 5000, random := "r1", newUserId := "u1" }

/-- One sign-in from its start to its answer. -/
def demoSignIn : List Action :=
  [.signIn "t" (some "n") none, .auth (.stepSignIn 0 demoEnv), .auth (.stepSignIn 0 demoEnv),
    .auth (.stepSignIn 0 demoEnv), .auth (.stepSignIn 0 demoEnv)]

def demoToken (jose : Jose) : String :=
  (tokenService jose demoConfig).issueAccessToken "u1" "apple 1" 5000

def notRequest : World → Action → Prop
  | _, .request _ _ => False
  | _, _ => True

instance : DecidableRel notRequest
  | _, .request _ _ => .isFalse id
  | _, .signIn _ _ _ => .isTrue trivial
  | _, .auth _ => .isTrue trivial

theorem demo_signed (jose : Jose) : ∃ w,
    execWhere (step jose demoConfig demoApple) notRequest demoSignIn init = some w ∧
      issuedTokens w.auth = [demoToken jose] ∧ w.admitted = [] :=
  ⟨_, rfl, rfl, rfl⟩

/-- The token with padding after its signature, which nobody has handed out. -/
def respelled : String := demoToken plainJose ++ "="

theorem respelled_signedText :
    signedText respelled = plainText (accessClaims demoConfig "u1" "apple 1" 5000).payload := by
  have hpadded : (".s" : String) ++ "=" = "." ++ "s=" := by decide
  have hsplit : respelled = plainText (accessClaims demoConfig "u1" "apple 1" 5000).payload ++
      "." ++ "s=" := by
    rw [String.append_assoc, ← hpadded, ← String.append_assoc]
    rfl
  rw [hsplit, signedText_append (by decide)]

theorem respelled_toList : respelled.toList =
    (plainSign (accessClaims demoConfig "u1" "apple 1" 5000)).toList ++ ['='] :=
  String.toList_append

theorem demo_run : ∃ w, Run (step plainJose demoConfig demoApple) (Unforged plainJose demoConfig)
    init w ∧ w.admitted = [⟨respelled, ⟨"u1", "apple 1"⟩, 904999⟩] := by
  obtain ⟨w, hw, hissued, hadmitted⟩ := demo_signed plainJose
  have hrun : Run (step plainJose demoConfig demoApple) (Unforged plainJose demoConfig) init w := by
    refine (execWhere_run hw).mono ?_
    intro s a ha
    cases a with
    | request authorization now => exact ha.elim
    | _ => trivial
  have hword : respelled ≠ "" ∧ ' ' ∉ respelled.toList := by
    have hcompact := plainSign_compact (accessClaims demoConfig "u1" "apple 1" 5000)
    constructor
    · intro h
      have hchars := respelled_toList
      rw [h] at hchars
      simp at hchars
    · rw [respelled_toList, List.mem_append, not_or]
      exact ⟨hcompact.2, by decide⟩
  have htoken : extractToken (some ("Bearer" ++ " " ++ respelled)) = some respelled :=
    extractToken_bearer (by decide) (by decide) hword
  have hunforged : Unforged plainJose demoConfig w
      (.request (some ("Bearer" ++ " " ++ respelled)) 904999) := by
    intro token ht _
    obtain rfl : respelled = token := Option.some.inj (htoken.symm.trans ht)
    rw [hissued]
    exact ⟨_, List.mem_singleton_self _,
      respelled_signedText.trans (signedText_plainSign _).symm⟩
  have hactivate : canActivate plainJose demoConfig false
      (some ("Bearer" ++ " " ++ respelled)) 904999 = .ok (some ⟨"u1", "apple 1"⟩) := by
    have hpadded : respelled.toList.filter (· ≠ '=') =
        (plainSign (accessClaims demoConfig "u1" "apple 1" 5000)).toList.filter (· ≠ '=') := by
      rw [respelled_toList, List.filter_append]
      exact List.append_nil _
    have hnow : 904999 / 1000 < (accessClaims demoConfig "u1" "apple 1" 5000).exp := by decide
    have hverify := plainVerify_padded _ hnow respelled_signedText hpadded
    rw [← jwtVerify_plainJose] at hverify
    exact canActivate_verified htoken hverify
  have hstep : step plainJose demoConfig demoApple w
      (.request (some ("Bearer" ++ " " ++ respelled)) 904999) =
        some { w with admitted := w.admitted ++ [⟨respelled, ⟨"u1", "apple 1"⟩, 904999⟩] } := by
    simp only [step, htoken, hactivate]
  exact ⟨_, hrun.tail hunforged hstep, by rw [hadmitted]; rfl⟩

theorem admitted_verified_demo : ∃ w, w.admitted ≠ [] ∧
    ∀ a ∈ w.admitted, Vouched plainJose demoConfig demoApple w a := by
  obtain ⟨w, hrun, hw⟩ := demo_run
  exact ⟨w, by simp [hw], admitted_verified plainJose_lawful hrun⟩

end Demo

end FieldNote.VerifiedAccess
