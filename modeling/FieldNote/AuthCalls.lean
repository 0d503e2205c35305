import FieldNote.RotationRuns

/-!
# Sign-in and refresh as whole calls

Each call runs from start to end with no other step in between. The effect relations say
everything that one call can do, and the last two theorems that a call of the step machine
which nothing interleaves with does the same.
-/
namespace FieldNote.AuthCalls
open AuthService GuardedRuns

structure Tables where
  refreshTokens : RefreshTable
  users : UserTable

variable (cfg : TokenService)

/-- What `generateRefreshToken` returns in this environment. -/
def issued (env : Env) : IssuedToken := cfg.generateRefreshToken env.random env.now

def issueTokenPair (s : Tables) (user : User) (env : Env) :
    Tables × Except AuthError TokenResponse :=
  match s.refreshTokens.create (newRow user (issued cfg env)) with
  | none => (s, .error .internal)
  | some t => ({ s with refreshTokens := t },
      .ok (tokenResponse cfg user (issued cfg env) env.now))

def signInWithApple (s : Tables) (email : Option String) (env : Env) :
    Tables × Except AuthError TokenResponse :=
  match env.identity with
  | none => (s, .error .appleRejected)
  | some identity =>
      match s.users.upsertByApple identity.sub (identity.email.or email) env.newUserId with
      | none => (s, .error .internal)
      | some (users, user) => issueTokenPair cfg { s with users := users } user env

def refresh (s : Tables) (token : String) (env : Env) :
    Tables × Except AuthError TokenResponse :=
  let hash := cfg.hashRefreshToken token
  match s.refreshTokens.findUnique hash with
  | none => (s, .error .invalidToken)
  | some record =>
      if record.revokedAt.isSome then
        ({ s with refreshTokens := s.refreshTokens.revokeActive record.userId env.now },
          .error .alreadyUsed)
      else if record.expiresAt ≤ env.now then (s, .error .expired)
      else
        match s.users.findUnique record.userId with
        | none => (s, .error .userGone)
        | some user =>
            match s.refreshTokens.rotate hash (newRow user (issued cfg env)) env.now with
            | none => (s, .error .internal)
            | some t => ({ s with refreshTokens := t },
                .ok (tokenResponse cfg user (issued cfg env) env.now))

variable {cfg}

/-- The presented token's row at the lookup passes the checks of `refresh`. -/
structure Accepted (s : Tables) (hash : String) (now : ℕ) (record : RefreshToken) : Prop where
  found : s.refreshTokens.findUnique hash = some record
  unrevoked : record.revokedAt = none
  unexpired : now < record.expiresAt

/-- Everything a refresh call can do, one constructor for each way it ends. -/
inductive RefreshEffect (cfg : TokenService) (s : Tables) (token : String) (env : Env) :
    Tables × Except AuthError TokenResponse → Prop where
  | unknown (missing : s.refreshTokens.findUnique (cfg.hashRefreshToken token) = none) :
      RefreshEffect cfg s token env (s, .error .invalidToken)
  | reused (record : RefreshToken)
      (found : s.refreshTokens.findUnique (cfg.hashRefreshToken token) = some record)
      (revoked : record.revokedAt.isSome = true) :
      RefreshEffect cfg s token env
        ({ s with refreshTokens := s.refreshTokens.revokeActive record.userId env.now },
          .error .alreadyUsed)
  | expired (record : RefreshToken)
      (found : s.refreshTokens.findUnique (cfg.hashRefreshToken token) = some record)
      (unrevoked : record.revokedAt = none) (late : record.expiresAt ≤ env.now) :
      RefreshEffect cfg s token env (s, .error .expired)
  | gone (record : RefreshToken)
      (accepted : Accepted s (cfg.hashRefreshToken token) env.now record)
      (absent : s.users.findUnique record.userId = none) :
      RefreshEffect cfg s token env (s, .error .userGone)
  | collided (record : RefreshToken) (user : User)
      (accepted : Accepted s (cfg.hashRefreshToken token) env.now record)
      (owner : s.users.findUnique record.userId = some user)
      (refused : s.refreshTokens.rotate (cfg.hashRefreshToken token)
        (newRow user (issued cfg env)) env.now = none) :
      RefreshEffect cfg s token env (s, .error .internal)
  | rotated (record : RefreshToken) (user : User) (table : RefreshTable)
      (accepted : Accepted s (cfg.hashRefreshToken token) env.now record)
      (owner : s.users.findUnique record.userId = some user)
      (committed : s.refreshTokens.rotate (cfg.hashRefreshToken token)
        (newRow user (issued cfg env)) env.now = some table) :
      RefreshEffect cfg s token env ({ s with refreshTokens := table },
        .ok (tokenResponse cfg user (issued cfg env) env.now))

theorem refresh_effect (s : Tables) (token : String) (env : Env) :
    RefreshEffect cfg s token env (refresh cfg s token env) := by
  unfold refresh
  dsimp only
  cases hrecord : s.refreshTokens.findUnique (cfg.hashRefreshToken token) with
  | none => exact .unknown hrecord
  | some record =>
      dsimp only
      split_ifs with hrevoked hlate
      · exact .reused record hrecord hrevoked
      · exact .expired record hrecord (by simpa using hrevoked) hlate
      · have haccepted : Accepted s (cfg.hashRefreshToken token) env.now record :=
          ⟨hrecord, by simpa using hrevoked, Nat.lt_of_not_le hlate⟩
        cases huser : s.users.findUnique record.userId with
        | none => exact .gone record haccepted huser
        | some user =>
            dsimp only
            cases hrotate : s.refreshTokens.rotate (cfg.hashRefreshToken token)
              (newRow user (issued cfg env)) env.now with
            | none => exact .collided record user haccepted huser hrotate
            | some table => exact .rotated record user table haccepted huser hrotate

/-- Everything a sign-in call can do. -/
inductive SignInEffect (cfg : TokenService) (s : Tables) (email : Option String) (env : Env) :
    Tables × Except AuthError TokenResponse → Prop where
  | unverified (rejected : env.identity = none) :
      SignInEffect cfg s email env (s, .error .appleRejected)
  | conflicted (identity : AppleIdentity) (verified : env.identity = some identity)
      (refused : s.users.upsertByApple identity.sub (identity.email.or email)
        env.newUserId = none) : SignInEffect cfg s email env (s, .error .internal)
  | collided (identity : AppleIdentity) (users : UserTable) (user : User)
      (verified : env.identity = some identity)
      (upserted : s.users.upsertByApple identity.sub (identity.email.or email)
        env.newUserId = some (users, user))
      (refused : s.refreshTokens.create (newRow user (issued cfg env)) = none) :
      SignInEffect cfg s email env ({ s with users := users }, .error .internal)
  | signedIn (identity : AppleIdentity) (users : UserTable) (user : User) (table : RefreshTable)
      (verified : env.identity = some identity)
      (upserted : s.users.upsertByApple identity.sub (identity.email.or email)
        env.newUserId = some (users, user))
      (created : s.refreshTokens.create (newRow user (issued cfg env)) = some table) :
      SignInEffect cfg s email env (⟨table, users⟩,
        .ok (tokenResponse cfg user (issued cfg env) env.now))

theorem signIn_effect (s : Tables) (email : Option String) (env : Env) :
    SignInEffect cfg s email env (signInWithApple cfg s email env) := by
  unfold signInWithApple
  cases hidentity : env.identity with
  | none => exact .unverified hidentity
  | some identity =>
      dsimp only
      cases hupsert : s.users.upsertByApple identity.sub (identity.email.or email)
        env.newUserId with
      | none => exact .conflicted identity hidentity hupsert
      | some result =>
          obtain ⟨users, user⟩ := result
          simp only [issueTokenPair]
          cases hcreate : s.refreshTokens.create (newRow user (issued cfg env)) with
          | none => exact .collided identity users user hidentity hupsert hcreate
          | some table => exact .signedIn identity users user table hidentity hupsert hcreate

/-- The program points at which the two calls end. -/
def finishedRefresh : Except AuthError TokenResponse → RefreshPc
  | .ok response => .returned response
  | .error error => .rejected error

def finishedSignIn : Except AuthError TokenResponse → SignInPc
  | .ok response => .returned response
  | .error error => .rejected error

section Alone

/-- The state with one more refresh call, which is at `pc`. -/
def withRefresh (s : State) (token : String) (pc : RefreshPc) : State :=
  { s with refreshCalls := s.refreshCalls ++ [⟨token, pc⟩] }

def withSignIn (s : State) (pc : SignInPc) : State :=
  { s with signInCalls := s.signInCalls ++ [pc] }

@[simp] theorem withRefresh_set (s : State) (token : String) (pc pc' : RefreshPc) :
    (withRefresh s token pc).setRefresh s.refreshCalls.length ⟨token, pc'⟩ =
      withRefresh s token pc' := by
  simp [withRefresh, State.setRefresh]

@[simp] theorem withSignIn_set (s : State) (pc pc' : SignInPc) :
    (withSignIn s pc).setSignIn s.signInCalls.length pc' = withSignIn s pc' := by
  simp [withSignIn, State.setSignIn]

variable {s t : State} {token : String} {pc : RefreshPc}

theorem withRefresh_start : Run (step cfg) anyStep s (withRefresh s token .findUnique) :=
  Run.single (a := .refresh token) trivial rfl

theorem withRefresh_step (env : Env) (h : Run (step cfg) anyStep s (withRefresh t token pc))
    {u : State} (hs : stepRefresh cfg (withRefresh t token pc) t.refreshCalls.length env
      ⟨token, pc⟩ = some u) : Run (step cfg) anyStep s u := by
  apply h.tail (a := .stepRefresh t.refreshCalls.length env) trivial
  simpa [step, withRefresh] using hs

theorem withSignIn_start (email : Option String) :
    Run (step cfg) anyStep s (withSignIn s (.verify email)) :=
  Run.single (a := .signIn email) trivial rfl

theorem withSignIn_step (env : Env) {pc : SignInPc} (h : Run (step cfg) anyStep s (withSignIn t pc))
    {u : State} (hs : stepSignIn cfg (withSignIn t pc) t.signInCalls.length env pc = some u) :
    Run (step cfg) anyStep s u := by
  apply h.tail (a := .stepSignIn t.signInCalls.length env) trivial
  simpa [step, withSignIn] using hs

end Alone

/-- A refresh call of the step machine that runs alone does what the whole call does. -/
theorem refresh_alone (s : State) (token : String) (env : Env)
    (hfresh : (issued cfg env).hash ∉ s.generated) :
    ∃ t, Run (step cfg) anyStep s t ∧
      t.refreshCalls = s.refreshCalls ++
        [⟨token, finishedRefresh (refresh cfg ⟨s.refreshTokens, s.users⟩ token env).2⟩] ∧
      (⟨t.refreshTokens, t.users⟩ : Tables) =
        (refresh cfg ⟨s.refreshTokens, s.users⟩ token env).1 := by
  have hlookup : Run (step cfg) anyStep s (withRefresh s token
      (afterLookup (s.refreshTokens.findUnique (cfg.hashRefreshToken token)) env.now)) :=
    withRefresh_step env withRefresh_start (congrArg some (withRefresh_set s token .findUnique _))
  have hpassed : ∀ record,
      Accepted ⟨s.refreshTokens, s.users⟩ (cfg.hashRefreshToken token) env.now record →
      Run (step cfg) anyStep s (withRefresh s token (.findUser record)) := by
    intro record h
    rw [h.found] at hlookup
    simpa [afterLookup, h.unrevoked, Nat.not_le.mpr h.unexpired] using hlookup
  have hgenerated : ∀ record user,
      Accepted ⟨s.refreshTokens, s.users⟩ (cfg.hashRefreshToken token) env.now record →
      s.users.findUnique record.userId = some user →
      Run (step cfg) anyStep s (withRefresh { s with
        generated := (issued cfg env).hash :: s.generated } token
          (.rotate record user (issued cfg env))) := by
    intro record user h howner
    apply withRefresh_step env (hpassed record h)
    have howner' : (withRefresh s token (.findUser record)).users.findUnique record.userId =
        some user := howner
    have hfresh' : (cfg.generateRefreshToken env.random env.now).hash ∉
        (withRefresh s token (.findUser record)).generated := hfresh
    simp only [stepRefresh, howner', if_neg hfresh', withRefresh_set]
    rfl
  generalize hcall : refresh cfg ⟨s.refreshTokens, s.users⟩ token env = answer
  have heffect : RefreshEffect cfg ⟨s.refreshTokens, s.users⟩ token env _ :=
    refresh_effect ⟨s.refreshTokens, s.users⟩ token env
  rw [hcall] at heffect
  cases heffect with
  | unknown missing =>
      rw [missing] at hlookup
      exact ⟨_, hlookup, rfl, rfl⟩
  | reused record found revoked =>
      have hrevoke : Run (step cfg) anyStep s (withRefresh s token
          (.revokeChain record.userId)) := by
        rw [found] at hlookup
        simpa [afterLookup, revoked] using hlookup
      refine ⟨_, withRefresh_step env hrevoke rfl, ?_, rfl⟩
      exact congrArg State.refreshCalls (withRefresh_set s token _ _)
  | expired record found unrevoked late =>
      have hexpired : Run (step cfg) anyStep s (withRefresh s token (.rejected .expired)) := by
        rw [found] at hlookup
        simpa [afterLookup, unrevoked, late] using hlookup
      exact ⟨_, hexpired, rfl, rfl⟩
  | gone record accepted absent =>
      have hgone : Run (step cfg) anyStep s (withRefresh s token (.rejected .userGone)) := by
        apply withRefresh_step env (hpassed record accepted)
        have habsent : (withRefresh s token (.findUser record)).users.findUnique record.userId =
            none := absent
        simp only [stepRefresh, habsent, withRefresh_set]
      exact ⟨_, hgone, rfl, rfl⟩
  | collided record user accepted owner refused =>
      have hrejected : Run (step cfg) anyStep s (withRefresh { s with
          generated := (issued cfg env).hash :: s.generated } token (.rejected .internal)) := by
        apply withRefresh_step env (hgenerated record user accepted owner)
        have hrefused : (withRefresh { s with generated := (issued cfg env).hash :: s.generated }
            token (.rotate record user (issued cfg env))).refreshTokens.rotate
              (cfg.hashRefreshToken token) (newRow user (issued cfg env)) env.now = none := refused
        simp only [stepRefresh, hrefused]
        exact congrArg some (withRefresh_set _ token _ _)
      exact ⟨_, hrejected, rfl, rfl⟩
  | rotated record user table accepted owner committed =>
      have hrotated : Run (step cfg) anyStep s (withRefresh { s with
          generated := (issued cfg env).hash :: s.generated
          refreshTokens := table
          rotations := ⟨cfg.hashRefreshToken token, (issued cfg env).hash⟩ :: s.rotations } token
          (.issueAccess user (issued cfg env))) := by
        apply withRefresh_step env (hgenerated record user accepted owner)
        have hcommitted : (withRefresh { s with
            generated := (issued cfg env).hash :: s.generated } token
            (.rotate record user (issued cfg env))).refreshTokens.rotate
              (cfg.hashRefreshToken token) (newRow user (issued cfg env)) env.now =
                some table := committed
        simp only [stepRefresh, hcommitted]
        simp [withRefresh, State.setRefresh]
      refine ⟨_, withRefresh_step env hrotated rfl, ?_, rfl⟩
      exact congrArg State.refreshCalls (withRefresh_set _ token _ _)

/-- A sign-in call of the step machine that runs alone does what the whole call does. -/
theorem signIn_alone (s : State) (email : Option String) (env : Env)
    (hfresh : (issued cfg env).hash ∉ s.generated) :
    ∃ t, Run (step cfg) anyStep s t ∧
      t.signInCalls = s.signInCalls ++
        [finishedSignIn (signInWithApple cfg ⟨s.refreshTokens, s.users⟩ email env).2] ∧
      (⟨t.refreshTokens, t.users⟩ : Tables) =
        (signInWithApple cfg ⟨s.refreshTokens, s.users⟩ email env).1 := by
  have hverified : ∀ identity, env.identity = some identity →
      Run (step cfg) anyStep s (withSignIn s (.upsert identity (identity.email.or email))) := by
    intro identity h
    apply withSignIn_step env (withSignIn_start email)
    simp only [stepSignIn, h, withSignIn_set]
  have hupserted : ∀ identity users user, env.identity = some identity →
      s.users.upsertByApple identity.sub (identity.email.or email) env.newUserId =
        some (users, user) →
      Run (step cfg) anyStep s (withSignIn { s with
        users := users
        generated := (issued cfg env).hash :: s.generated }
          (.createToken user (issued cfg env))) := by
    intro identity users user h hupsert
    apply withSignIn_step env (hverified identity h)
    have hupsert' : (withSignIn s (.upsert identity (identity.email.or email))).users.upsertByApple
        identity.sub (identity.email.or email) env.newUserId = some (users, user) := hupsert
    have hfresh' : (cfg.generateRefreshToken env.random env.now).hash ∉
        (withSignIn s (.upsert identity (identity.email.or email))).generated := hfresh
    simp only [stepSignIn, hupsert', if_neg hfresh', withSignIn_set]
    rfl
  generalize hcall : signInWithApple cfg ⟨s.refreshTokens, s.users⟩ email env = answer
  have heffect : SignInEffect cfg ⟨s.refreshTokens, s.users⟩ email env _ :=
    signIn_effect ⟨s.refreshTokens, s.users⟩ email env
  rw [hcall] at heffect
  cases heffect with
  | unverified rejected =>
      have hrejected : Run (step cfg) anyStep s (withSignIn s (.rejected .appleRejected)) := by
        apply withSignIn_step env (withSignIn_start email)
        simp only [stepSignIn, rejected, withSignIn_set]
      exact ⟨_, hrejected, rfl, rfl⟩
  | conflicted identity verified refused =>
      have hrejected : Run (step cfg) anyStep s (withSignIn s (.rejected .internal)) := by
        apply withSignIn_step env (hverified identity verified)
        have hrefused : (withSignIn s (.upsert identity
            (identity.email.or email))).users.upsertByApple identity.sub
              (identity.email.or email) env.newUserId = none := refused
        simp only [stepSignIn, hrefused, withSignIn_set]
      exact ⟨_, hrejected, rfl, rfl⟩
  | collided identity users user verified upserted refused =>
      have hrejected : Run (step cfg) anyStep s (withSignIn { s with
          users := users
          generated := (issued cfg env).hash :: s.generated } (.rejected .internal)) := by
        apply withSignIn_step env (hupserted identity users user verified upserted)
        have hrefused : (withSignIn { s with
            users := users
            generated := (issued cfg env).hash :: s.generated }
            (.createToken user (issued cfg env))).refreshTokens.create
              (newRow user (issued cfg env)) = none := refused
        simp only [stepSignIn, hrefused]
        exact congrArg some (withSignIn_set _ _ _)
      exact ⟨_, hrejected, rfl, rfl⟩
  | signedIn identity users user table verified upserted created =>
      have hcreated : Run (step cfg) anyStep s (withSignIn { s with
          users := users
          generated := (issued cfg env).hash :: s.generated
          refreshTokens := table } (.issueAccess user (issued cfg env))) := by
        apply withSignIn_step env (hupserted identity users user verified upserted)
        have hcreated : (withSignIn { s with
            users := users
            generated := (issued cfg env).hash :: s.generated }
            (.createToken user (issued cfg env))).refreshTokens.create
              (newRow user (issued cfg env)) = some table := created
        simp only [stepSignIn, hcreated]
        simp [withSignIn, State.setSignIn]
      refine ⟨_, withSignIn_step env hcreated rfl, ?_, rfl⟩
      exact congrArg State.signInCalls (withSignIn_set _ _ _)

end FieldNote.AuthCalls
