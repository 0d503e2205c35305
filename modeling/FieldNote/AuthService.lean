import FieldNote.RefreshTokens

/-!
# Sign-in and refresh calls of the auth service

A call is a record of the await it is suspended at; the locals that are still needed are
arguments of that program point. One step answers that await and runs the code up to the
next one, so any two steps of different calls may be interleaved. A failure step rejects
the awaited operation without applying it.

`generated` collects every hash the random generator has produced and `rotations` every
rotation transaction that committed; neither is read by the code.
-/
namespace FieldNote.AuthService

inductive AuthError where
  | invalidToken
  | alreadyUsed
  | expired
  | userGone
  | appleRejected
  /-- A rejected database or signing call; the exception filter chooses its answer. -/
  | internal
deriving DecidableEq, Repr

def AuthError.message : AuthError → String
  | .invalidToken => "Invalid refresh token."
  | .alreadyUsed => "Refresh token already used."
  | .expired => "Refresh token expired."
  | .userGone => "User no longer exists."
  | .appleRejected => "Apple identity token failed verification."
  | .internal => "An unexpected error occurred."

inductive RefreshPc where
  | findUnique
  | revokeChain (userId : String)
  | findUser (record : RefreshToken)
  | rotate (record : RefreshToken) (user : User) (next : IssuedToken)
  | issueAccess (user : User) (next : IssuedToken)
  | returned (response : TokenResponse)
  | rejected (error : AuthError)
deriving DecidableEq, Repr

structure RefreshCall where
  token : String
  pc : RefreshPc
deriving DecidableEq, Repr

/-- What `appleVerifier.verify` extracts from a valid identity token. -/
structure AppleIdentity where
  sub : String
  email : Option String
deriving DecidableEq, Repr

inductive SignInPc where
  | verify (email : Option String)
  | upsert (identity : AppleIdentity) (email : Option String)
  | createToken (user : User) (next : IssuedToken)
  | issueAccess (user : User) (next : IssuedToken)
  | returned (response : TokenResponse)
  | rejected (error : AuthError)
deriving DecidableEq, Repr

/-- A committed rotation: the presented hash and the hash that replaced it. -/
structure Rotation where
  presented : String
  successor : String
deriving DecidableEq, Repr

structure State where
  refreshTokens : RefreshTable
  users : UserTable
  refreshCalls : List RefreshCall
  signInCalls : List SignInPc
  generated : List String
  rotations : List Rotation

def init : State := ⟨∅, ∅, [], [], [], []⟩

/-- The environment's choices at one step: the clock, the generator's next output, the
verifier's answer and the id a new user row receives. -/
structure Env where
  now : ℕ := 0
  random : String := ""
  identity : Option AppleIdentity := none
  newUserId : String := ""

inductive Action where
  | refresh (token : String)
  | signIn (email : Option String)
  | stepRefresh (i : ℕ) (env : Env)
  | stepSignIn (i : ℕ) (env : Env)
  | failRefresh (i : ℕ)
  | failSignIn (i : ℕ)

namespace State

def setRefresh (s : State) (i : ℕ) (call : RefreshCall) : State :=
  { s with refreshCalls := s.refreshCalls.set i call }

def setSignIn (s : State) (i : ℕ) (pc : SignInPc) : State :=
  { s with signInCalls := s.signInCalls.set i pc }

end State

/-- The checks `refresh` makes on the row it read, in order. -/
def afterLookup (record : Option RefreshToken) (now : ℕ) : RefreshPc :=
  match record with
  | none => .rejected .invalidToken
  | some r =>
      if r.revokedAt.isSome then .revokeChain r.userId
      else if r.expiresAt ≤ now then .rejected .expired
      else .findUser r

def tokenResponse (cfg : TokenService) (user : User) (next : IssuedToken) (now : ℕ) :
    TokenResponse :=
  ⟨cfg.issueAccessToken user.id user.appleSub now, next.token, cfg.accessTtl, user.id⟩

/-- The row `refreshToken.create` inserts. -/
def newRow (user : User) (next : IssuedToken) : RefreshToken :=
  ⟨user.id, next.hash, next.expiresAt, none, none⟩

/-- One segment of `AuthService.refresh`. A freshly generated hash was never produced
before, so the segment that generates is disabled on an old one. -/
def stepRefresh (cfg : TokenService) (s : State) (i : ℕ) (env : Env) (call : RefreshCall) :
    Option State :=
  let hash := cfg.hashRefreshToken call.token
  match call.pc with
  | .findUnique =>
      let record := s.refreshTokens.findUnique hash
      some (s.setRefresh i ⟨call.token, afterLookup record env.now⟩)
  | .revokeChain userId =>
      some { s.setRefresh i ⟨call.token, .rejected .alreadyUsed⟩ with
        refreshTokens := s.refreshTokens.revokeActive userId env.now }
  | .findUser record =>
      match s.users.findUnique record.userId with
      | none => some (s.setRefresh i ⟨call.token, .rejected .userGone⟩)
      | some user =>
          let next := cfg.generateRefreshToken env.random env.now
          if next.hash ∈ s.generated then none
          else some { s.setRefresh i ⟨call.token, .rotate record user next⟩ with
            generated := next.hash :: s.generated }
  | .rotate _ user next =>
      match s.refreshTokens.rotate hash (newRow user next) env.now with
      | none => some (s.setRefresh i ⟨call.token, .rejected .internal⟩)
      | some t => some { s.setRefresh i ⟨call.token, .issueAccess user next⟩ with
          refreshTokens := t
          rotations := ⟨hash, next.hash⟩ :: s.rotations }
  | .issueAccess user next =>
      some (s.setRefresh i ⟨call.token, .returned (tokenResponse cfg user next env.now)⟩)
  | .returned _ => none
  | .rejected _ => none

/-- One segment of `AuthService.signInWithApple` and `issueTokenPair`. The token's email
is preferred to the body's. -/
def stepSignIn (cfg : TokenService) (s : State) (i : ℕ) (env : Env) : SignInPc → Option State
  | .verify email =>
      match env.identity with
      | none => some (s.setSignIn i (.rejected .appleRejected))
      | some identity => some (s.setSignIn i (.upsert identity (identity.email.or email)))
  | .upsert identity email =>
      match s.users.upsertByApple identity.sub email env.newUserId with
      | none => some (s.setSignIn i (.rejected .internal))
      | some (users, user) =>
          let next := cfg.generateRefreshToken env.random env.now
          if next.hash ∈ s.generated then none
          else some { s.setSignIn i (.createToken user next) with
            users := users
            generated := next.hash :: s.generated }
  | .createToken user next =>
      match s.refreshTokens.create (newRow user next) with
      | none => some (s.setSignIn i (.rejected .internal))
      | some t => some { s.setSignIn i (.issueAccess user next) with refreshTokens := t }
  | .issueAccess user next =>
      some (s.setSignIn i (.returned (tokenResponse cfg user next env.now)))
  | .returned _ => none
  | .rejected _ => none

def step (cfg : TokenService) (s : State) : Action → Option State
  | .refresh token => some { s with refreshCalls := s.refreshCalls ++ [⟨token, .findUnique⟩] }
  | .signIn email => some { s with signInCalls := s.signInCalls ++ [.verify email] }
  | .stepRefresh i env => s.refreshCalls[i]?.bind (stepRefresh cfg s i env)
  | .stepSignIn i env => s.signInCalls[i]?.bind (stepSignIn cfg s i env)
  | .failRefresh i =>
      s.refreshCalls[i]?.bind fun call =>
        match call.pc with
        | .returned _ | .rejected _ => none
        | _ => some (s.setRefresh i ⟨call.token, .rejected .internal⟩)
  | .failSignIn i =>
      s.signInCalls[i]?.bind fun pc =>
        match pc with
        | .returned _ | .rejected _ => none
        | _ => some (s.setSignIn i (.rejected .internal))

/-- Everything one step can do to the refresh-token table and to the rotation log. -/
inductive TableEffect (cfg : TokenService) (s : State) (a : Action) (t : State) : Prop where
  | same (table : t.refreshTokens = s.refreshTokens) (log : t.rotations = s.rotations)
  | revoked (i : ℕ) (env : Env) (token userId : String) (action : a = .stepRefresh i env)
      (call : s.refreshCalls[i]? = some ⟨token, .revokeChain userId⟩)
      (table : t.refreshTokens = s.refreshTokens.revokeActive userId env.now)
      (log : t.rotations = s.rotations)
      (calls : t.refreshCalls = s.refreshCalls.set i ⟨token, .rejected .alreadyUsed⟩)
  | created (user : User) (next : IssuedToken)
      (table : s.refreshTokens.create (newRow user next) = some t.refreshTokens)
      (log : t.rotations = s.rotations)
  | rotated (i : ℕ) (env : Env) (token : String) (record : RefreshToken) (user : User)
      (next : IssuedToken) (action : a = .stepRefresh i env)
      (call : s.refreshCalls[i]? = some ⟨token, .rotate record user next⟩)
      (table : s.refreshTokens.rotate (cfg.hashRefreshToken token) (newRow user next)
        env.now = some t.refreshTokens)
      (log : t.rotations = ⟨cfg.hashRefreshToken token, next.hash⟩ :: s.rotations)
      (calls : t.refreshCalls = s.refreshCalls.set i ⟨token, .issueAccess user next⟩)

theorem stepRefresh_effect {cfg : TokenService} {s t : State} {i : ℕ} {env : Env}
    {call : RefreshCall} (hi : s.refreshCalls[i]? = some call)
    (hs : stepRefresh cfg s i env call = some t) :
    TableEffect cfg s (.stepRefresh i env) t := by
  rcases call with ⟨token, pc⟩
  cases pc with
  | findUnique =>
      cases hs
      exact .same rfl rfl
  | revokeChain userId =>
      cases hs
      exact .revoked i env token userId rfl hi rfl rfl rfl
  | findUser record =>
      simp only [stepRefresh] at hs
      split at hs
      · cases hs
        exact .same rfl rfl
      · split_ifs at hs
        cases hs
        exact .same rfl rfl
  | rotate record user next =>
      simp only [stepRefresh] at hs
      split at hs
      · cases hs
        exact .same rfl rfl
      · rename_i table htable
        cases hs
        exact .rotated i env token record user next rfl hi htable rfl rfl
  | issueAccess user next =>
      cases hs
      exact .same rfl rfl
  | returned response => cases hs
  | rejected error => cases hs

theorem stepSignIn_effect {cfg : TokenService} {s t : State} {i : ℕ} {env : Env}
    {pc : SignInPc} (hs : stepSignIn cfg s i env pc = some t) :
    TableEffect cfg s (.stepSignIn i env) t := by
  cases pc with
  | verify email =>
      simp only [stepSignIn] at hs
      split at hs <;> cases hs <;> exact .same rfl rfl
  | upsert identity email =>
      simp only [stepSignIn] at hs
      split at hs
      · cases hs
        exact .same rfl rfl
      · split_ifs at hs
        cases hs
        exact .same rfl rfl
  | createToken user next =>
      simp only [stepSignIn] at hs
      split at hs
      · cases hs
        exact .same rfl rfl
      · rename_i table htable
        cases hs
        exact .created user next htable rfl
  | issueAccess user next =>
      cases hs
      exact .same rfl rfl
  | returned response => cases hs
  | rejected error => cases hs

theorem step_effect {cfg : TokenService} {s t : State} {a : Action}
    (hs : step cfg s a = some t) : TableEffect cfg s a t := by
  cases a with
  | refresh token =>
      cases hs
      exact .same rfl rfl
  | signIn email =>
      cases hs
      exact .same rfl rfl
  | stepRefresh i env =>
      obtain ⟨call, hi, hs⟩ := Option.bind_eq_some_iff.mp hs
      exact stepRefresh_effect hi hs
  | stepSignIn i env =>
      obtain ⟨pc, -, hs⟩ := Option.bind_eq_some_iff.mp hs
      exact stepSignIn_effect hs
  | failRefresh i =>
      obtain ⟨call, -, hs⟩ := Option.bind_eq_some_iff.mp hs
      split at hs
      · cases hs
      · cases hs
      · cases hs
        exact .same rfl rfl
  | failSignIn i =>
      obtain ⟨pc, -, hs⟩ := Option.bind_eq_some_iff.mp hs
      split at hs
      · cases hs
      · cases hs
      · cases hs
        exact .same rfl rfl

/-- The program points a call can move between, with what the segment in between found. -/
inductive NextPc (cfg : TokenService) (s : State) (token : String) :
    RefreshPc → RefreshPc → Prop where
  | lookup (now : ℕ) : NextPc cfg s token .findUnique
      (afterLookup (s.refreshTokens.findUnique (cfg.hashRefreshToken token)) now)
  | revoked (userId : String) : NextPc cfg s token (.revokeChain userId)
      (.rejected .alreadyUsed)
  | gone (record : RefreshToken) : NextPc cfg s token (.findUser record) (.rejected .userGone)
  | generated (record : RefreshToken) (user : User) (next : IssuedToken)
      (found : s.users.findUnique record.userId = some user)
      (hashed : next.hash = cfg.hashRefreshToken next.token)
      (fresh : next.hash ∉ s.generated) :
      NextPc cfg s token (.findUser record) (.rotate record user next)
  | committed (record : RefreshToken) (user : User) (next : IssuedToken) :
      NextPc cfg s token (.rotate record user next) (.issueAccess user next)
  | signed (user : User) (next : IssuedToken) (now : ℕ) :
      NextPc cfg s token (.issueAccess user next) (.returned (tokenResponse cfg user next now))
  | failed (pc : RefreshPc) : NextPc cfg s token pc (.rejected .internal)

/-- Everything one step can do to the pool of refresh calls. -/
inductive CallEffect (cfg : TokenService) (s t : State) : Prop where
  | same (calls : t.refreshCalls = s.refreshCalls)
  | started (token : String)
      (calls : t.refreshCalls = s.refreshCalls ++ [⟨token, .findUnique⟩])
  | moved (i : ℕ) (token : String) (pc pc' : RefreshPc)
      (call : s.refreshCalls[i]? = some ⟨token, pc⟩) (next : NextPc cfg s token pc pc')
      (calls : t.refreshCalls = s.refreshCalls.set i ⟨token, pc'⟩)

theorem stepRefresh_calls {cfg : TokenService} {s t : State} {i : ℕ} {env : Env}
    {call : RefreshCall} (hi : s.refreshCalls[i]? = some call)
    (hs : stepRefresh cfg s i env call = some t) : CallEffect cfg s t := by
  rcases call with ⟨token, pc⟩
  cases pc with
  | findUnique =>
      cases hs
      exact .moved i token _ _ hi (.lookup env.now) rfl
  | revokeChain userId =>
      cases hs
      exact .moved i token _ _ hi (.revoked userId) rfl
  | findUser record =>
      simp only [stepRefresh] at hs
      split at hs
      · cases hs
        exact .moved i token _ _ hi (.gone record) rfl
      · rename_i user huser
        split_ifs at hs with hfresh
        cases hs
        exact .moved i token _ _ hi (.generated record user _ huser rfl hfresh) rfl
  | rotate record user next =>
      simp only [stepRefresh] at hs
      split at hs
      · cases hs
        exact .moved i token _ _ hi (.failed _) rfl
      · cases hs
        exact .moved i token _ _ hi (.committed record user next) rfl
  | issueAccess user next =>
      cases hs
      exact .moved i token _ _ hi (.signed user next env.now) rfl
  | returned response => cases hs
  | rejected error => cases hs

theorem stepSignIn_calls {cfg : TokenService} {s t : State} {i : ℕ} {env : Env}
    {pc : SignInPc} (hs : stepSignIn cfg s i env pc = some t) :
    t.refreshCalls = s.refreshCalls := by
  cases pc with
  | verify email =>
      simp only [stepSignIn] at hs
      split at hs <;> cases hs <;> rfl
  | upsert identity email =>
      simp only [stepSignIn] at hs
      split at hs
      · cases hs
        rfl
      · split_ifs at hs
        cases hs
        rfl
  | createToken user next =>
      simp only [stepSignIn] at hs
      split at hs <;> cases hs <;> rfl
  | issueAccess user next =>
      cases hs
      rfl
  | returned response => cases hs
  | rejected error => cases hs

theorem step_calls {cfg : TokenService} {s t : State} {a : Action}
    (hs : step cfg s a = some t) : CallEffect cfg s t := by
  cases a with
  | refresh token =>
      cases hs
      exact .started token rfl
  | signIn email =>
      cases hs
      exact .same rfl
  | stepRefresh i env =>
      obtain ⟨call, hi, hs⟩ := Option.bind_eq_some_iff.mp hs
      exact stepRefresh_calls hi hs
  | stepSignIn i env =>
      obtain ⟨pc, -, hs⟩ := Option.bind_eq_some_iff.mp hs
      exact .same (stepSignIn_calls hs)
  | failRefresh i =>
      obtain ⟨⟨token, pc⟩, hi, hs⟩ := Option.bind_eq_some_iff.mp hs
      split at hs
      · cases hs
      · cases hs
      · cases hs
        exact .moved i token pc _ hi (.failed pc) rfl
  | failSignIn i =>
      obtain ⟨pc, -, hs⟩ := Option.bind_eq_some_iff.mp hs
      split at hs
      · cases hs
      · cases hs
      · cases hs
        exact .same rfl

/-- Rows are never removed and never change owner, and a revoked row stays revoked. -/
theorem step_row {cfg : TokenService} {s t : State} {a : Action}
    (hs : step cfg s a = some t) {h : String} {r : RefreshToken}
    (hr : s.refreshTokens.findUnique h = some r) :
    ∃ r', t.refreshTokens.findUnique h = some r' ∧ r'.userId = r.userId ∧
      (r.revokedAt.isSome = true → r'.revokedAt.isSome = true) := by
  cases step_effect hs with
  | same table log => exact ⟨r, table ▸ hr, rfl, id⟩
  | revoked i env token userId action call table log calls =>
      rw [table, RefreshTable.findUnique_revokeActive, hr]
      refine ⟨_, rfl, ?_⟩
      dsimp only
      split_ifs <;> simp
  | created user next table log =>
      refine ⟨r, ?_, rfl, id⟩
      rw [Table.create_findUnique table, if_neg, hr]
      rintro rfl
      rw [(Table.create_eq_some table).1] at hr
      cases hr
  | rotated i env token record user next action call table log calls =>
      have hfree := (RefreshTable.rotate_presented table).2
      rw [RefreshTable.findUnique_rotate table, if_neg, hr]
      · split_ifs
        · exact ⟨_, rfl, rfl, fun _ => rfl⟩
        · exact ⟨r, rfl, rfl, id⟩
      · rintro rfl
        rw [hfree] at hr
        cases hr

end FieldNote.AuthService
