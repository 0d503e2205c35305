import FieldNote.CallPool
import FieldNote.GuardedRuns
import FieldNote.RefreshTokens

/-!
# The API client actor

`performData` with its retries, the single-flight refresh and the token lifecycle. The
actor runs one segment at a time and is re-entrant at every `await`, so a call is a flow
with a program point per `await` and a step runs one segment. The shared refresh task is a
flow of its own. Replies, and the order in which suspended flows are resumed, are the
environment's. Request construction and back-off delays are left out.
-/
namespace FieldNote.APIClient
open CallPool

structure TokenPair where
  accessToken : String
  refreshToken : String
  userId : String
deriving DecidableEq, Repr

inductive APIError where
  | invalidURL
  | unauthorized
  | server (status : ℕ) (detail : Option String)
  | decoding (reason : String)
  | transport (reason : String)
deriving DecidableEq, Repr

def APIError.isRetryable : APIError → Bool
  | .server status _ => 500 ≤ status
  | .transport _ => true
  | .invalidURL | .unauthorized | .decoding _ => false

/-- What a throwing call throws. -/
inductive Failure where
  | api (error : APIError)
  | cancelled
deriving DecidableEq, Repr

/-- What the decoders make of a response body: the token response, or else the reason it
is not one, and the detail of a problem document. -/
structure Body where
  token : Option TokenResponse := none
  reason : String := ""
  detail : Option String := none
deriving DecidableEq, Repr

/-- How `session.data(for:)` ends. -/
inductive Reply where
  | http (status : ℕ) (body : Body)
  | notHTTP
  | failed (reason : String)
  | cancelled
deriving DecidableEq, Repr

/-- An authorized endpoint, `POST /auth/apple`, or `POST /auth/refresh` with its token. -/
inductive Kind where
  | request
  | signIn
  | refresh (refreshToken : String)
deriving DecidableEq, Repr

/-- Where a flow is suspended, or how it ended. A request returns no pair. -/
inductive Pc where
  | created
  | sending (bearer : Option String)
  | backoff
  | starting (task : ℕ)
  | joining (task : ℕ)
  | returned (pair : Option TokenPair)
  | threw (failure : Failure)
deriving DecidableEq, Repr

/-- One run of `performData` and of the method that calls it. -/
structure Flow where
  kind : Kind
  attempt : ℕ := 0
  didRefresh : Bool := false
  cancelled : Bool := false
  pc : Pc := .created
deriving DecidableEq, Repr

structure Client where
  tokens : Option TokenPair
  storage : Option TokenPair
  refreshTask : Option ℕ
  flows : List Flow
  authExpired : ℕ
deriving DecidableEq, Repr

def maxAttempts : ℕ := 4

/-- A client whose storage holds `stored`, before any call. -/
def init (stored : Option TokenPair) : Client := ⟨stored, stored, none, [], 0⟩

inductive Action where
  | call (kind : Kind)
  | resume (i : ℕ)
  | receive (i : ℕ) (reply : Reply)
  | cancel (i : ℕ)
  | signOut
deriving DecidableEq, Repr

/-- `TokenPair(accessToken:refreshToken:userId:)` of a token response. -/
def pairOf (token : TokenResponse) : TokenPair :=
  ⟨token.accessToken, token.refreshToken, token.userId⟩

namespace Flow

def goto (f : Flow) (pc : Pc) : Flow := { f with pc := pc }

def fail (f : Flow) (error : APIError) : Flow := f.goto (.threw (.api error))

/-- What `await task.value` gives, once the flow has ended. -/
def value (f : Flow) : Option (Except Failure TokenPair) :=
  match f.pc with
  | .returned (some pair) => some (.ok pair)
  | .threw failure => some (.error failure)
  | _ => none

/-- A retryable failure sleeps while attempts are left and is thrown after the last. -/
def retryOr (f : Flow) (error : APIError) : Flow :=
  if f.attempt < maxAttempts then f.goto .backoff else f.fail error

end Flow

namespace Client

def setFlow (c : Client) (i : ℕ) (f : Flow) : Client := { c with flows := c.flows.set i f }

def applyTokens (c : Client) (pair : TokenPair) : Client :=
  { c with tokens := some pair, storage := some pair }

def clearTokens (c : Client) : Client := { c with tokens := none, storage := none }

/-- `tokens ?? storage.load()`. -/
def held (c : Client) : Option TokenPair := c.tokens.or c.storage

/-- The top of the loop, up to `session.data(for:)`. `currentAccessToken` keeps a pair it
had to load. -/
def beginAttempt (c : Client) (i : ℕ) (f : Flow) : Client :=
  let f := { f with attempt := f.attempt + 1 }
  match f.kind with
  | .request =>
      match c.held with
      | none => c.setFlow i (f.fail .unauthorized)
      | some pair =>
          { c.setFlow i (f.goto (.sending (some pair.accessToken))) with tokens := some pair }
  | .signIn => c.setFlow i (f.goto (.sending none))
  | .refresh _ => c.setFlow i (f.goto (.sending none))

/-- `refreshTokens`, up to `await task.value`. -/
def refreshTokens (c : Client) (i : ℕ) (f : Flow) : Client :=
  match c.refreshTask with
  | some task => c.setFlow i (f.goto (.joining task))
  | none =>
      match c.held with
      | none => c.setFlow i (f.fail .unauthorized)
      | some current =>
          { c with
            flows := c.flows.set i (f.goto (.starting c.flows.length)) ++
              [{ kind := .refresh current.refreshToken }]
            refreshTask := some c.flows.length }

/-- A 2xx answer: the sign-in applies its pair, the refresh task returns it. -/
def complete (c : Client) (i : ℕ) (f : Flow) (body : Body) : Client :=
  match f.kind with
  | .request => c.setFlow i (f.goto (.returned none))
  | .signIn =>
      match body.token with
      | none => c.setFlow i (f.fail (.decoding body.reason))
      | some token => (c.setFlow i (f.goto (.returned (some (pairOf token))))).applyTokens
          (pairOf token)
  | .refresh _ =>
      match body.token with
      | none => c.setFlow i (f.fail (.decoding body.reason))
      | some token => c.setFlow i (f.goto (.returned (some (pairOf token))))

/-- The rest of the loop body after `session.data(for:)`. -/
def receive (c : Client) (i : ℕ) (f : Flow) : Reply → Client
  | .http status body =>
      if status = 401 ∧ f.kind = .request ∧ f.didRefresh = false then
        c.refreshTokens i { f with didRefresh := true }
      else if 200 ≤ status ∧ status < 300 then c.complete i f body
      else if (APIError.server status body.detail).isRetryable then
        c.setFlow i (f.retryOr (.server status body.detail))
      else c.setFlow i (f.fail (.server status body.detail))
  | .notHTTP => c.setFlow i (f.fail (.transport "Non-HTTP response"))
  | .failed reason => c.setFlow i (f.retryOr (.transport reason))
  | .cancelled => c.setFlow i (f.goto (.threw .cancelled))

/-- The starter's rest of `refreshTokens`; the deferred reset runs on both paths and
clears whichever task is current. -/
def finishRefresh (c : Client) (i : ℕ) (f : Flow) : Except Failure TokenPair → Client
  | .ok pair => { c.applyTokens pair with refreshTask := none }.beginAttempt i f
  | .error _ => { c.clearTokens.setFlow i (f.fail .unauthorized) with
      authExpired := c.authExpired + 1
      refreshTask := none }

/-- A joiner's rest of `refreshTokens`: it discards the pair and rethrows an error. -/
def finishJoin (c : Client) (i : ℕ) (f : Flow) : Except Failure TokenPair → Client
  | .ok _ => c.beginAttempt i f
  | .error failure => c.setFlow i (f.goto (.threw failure))

/-- Resumption of a flow that does not wait for the network. -/
def resume (c : Client) (i : ℕ) (f : Flow) : Option Client :=
  match f.pc with
  | .created => some (c.beginAttempt i f)
  | .backoff =>
      if f.cancelled then some (c.setFlow i (f.goto (.threw .cancelled)))
      else some (c.beginAttempt i f)
  | .starting task =>
      (c.flows[task]?.bind Flow.value).map (c.finishRefresh i f)
  | .joining task =>
      (c.flows[task]?.bind Flow.value).map (c.finishJoin i f)
  | .sending _ => none
  | .returned _ => none
  | .threw _ => none

/-- `signOut`: cancelling the task marks its flow. -/
def signOut (c : Client) : Client :=
  { c.clearTokens with
    refreshTask := none
    flows := match c.refreshTask with
      | none => c.flows
      | some task => c.flows.modify task fun f => { f with cancelled := true } }

end Client

/-- A cancelled send ends in a cancellation error or in a transport error; only the
former needs the mark. The refresh task is unstructured, so only `signOut` cancels it. -/
def step (c : Client) : Action → Option Client
  | .call kind =>
      match kind with
      | .refresh _ => none
      | _ => some { c with flows := c.flows ++ [{ kind := kind }] }
  | .resume i => c.flows[i]?.bind (c.resume i)
  | .receive i reply =>
      c.flows[i]?.bind fun f =>
        match f.pc with
        | .sending _ =>
            if reply = .cancelled ∧ f.cancelled = false then none else some (c.receive i f reply)
        | _ => none
  | .cancel i =>
      c.flows[i]?.bind fun f =>
        match f.kind with
        | .refresh _ => none
        | _ => some (c.setFlow i { f with cancelled := true })
  | .signOut => some c.signOut

/-- A flow whose next segment is not the starter's: it has not ended and started no
refresh that it still awaits. -/
structure Flow.Live (f : Flow) : Prop where
  not_returned : ∀ pair, f.pc ≠ .returned pair
  not_threw : ∀ failure, f.pc ≠ .threw failure
  not_starting : ∀ task, f.pc ≠ .starting task

/-- The program points after a segment that touches no refresh task. -/
inductive NextPc : Pc → Prop where
  | sending (bearer : Option String) : NextPc (.sending bearer)
  | backoff : NextPc .backoff
  | returned (pair : Option TokenPair) : NextPc (.returned pair)
  | threw (failure : Failure) : NextPc (.threw failure)

/-- Everything one step can do to the client. -/
inductive Effect (c : Client) (a : Action) (d : Client) : Prop where
  | called (kind : Kind) (kind_ne : ∀ token, kind ≠ .refresh token)
      (eq : d = { c with flows := c.flows ++ [{ kind := kind }] })
  | marked (i : ℕ) (f : Flow) (flow : c.flows[i]? = some f)
      (eq : d = c.setFlow i { f with cancelled := true })
  | signedOut (action : a = .signOut) (eq : d = c.signOut)
  | moved (i : ℕ) (f f' : Flow) (tokens : Option TokenPair) (flow : c.flows[i]? = some f)
      (live : f.Live) (kind : f'.kind = f.kind) (next : NextPc f'.pc)
      (loaded : tokens = c.tokens ∨ tokens = c.held)
      (eq : d = { c.setFlow i f' with tokens := tokens })
  | signedIn (i : ℕ) (f : Flow) (status : ℕ) (body : Body) (token : TokenResponse)
      (action : a = .receive i (.http status body)) (ok : 200 ≤ status ∧ status < 300)
      (flow : c.flows[i]? = some f) (live : f.Live) (kind : f.kind = .signIn)
      (decoded : body.token = some token)
      (eq : d = (c.setFlow i (f.goto (.returned (some (pairOf token))))).applyTokens
        (pairOf token))
  | joined (i task : ℕ) (f f' : Flow) (flow : c.flows[i]? = some f) (live : f.Live)
      (kind : f'.kind = .request) (pc : f'.pc = .joining task)
      (current : c.refreshTask = some task) (eq : d = c.setFlow i f')
  | started (i : ℕ) (f f' : Flow) (current : TokenPair) (flow : c.flows[i]? = some f)
      (live : f.Live) (kind : f'.kind = .request) (pc : f'.pc = .starting c.flows.length)
      (idle : c.refreshTask = none) (held : c.held = some current)
      (eq : d = { c with
        flows := c.flows.set i f' ++ [{ kind := .refresh current.refreshToken }]
        refreshTask := some c.flows.length })
  | applied (i task : ℕ) (f f' g : Flow) (pair : TokenPair) (action : a = .resume i)
      (flow : c.flows[i]? = some f) (pc : f.pc = .starting task)
      (done : c.flows[task]? = some g) (value : g.value = some (.ok pair))
      (kind : f'.kind = f.kind) (next : NextPc f'.pc)
      (eq : d = { (c.setFlow i f').applyTokens pair with refreshTask := none })
  | expired (i task : ℕ) (f g : Flow) (failure : Failure) (action : a = .resume i)
      (flow : c.flows[i]? = some f) (pc : f.pc = .starting task)
      (done : c.flows[task]? = some g) (value : g.value = some (.error failure))
      (eq : d = { c.clearTokens.setFlow i (f.fail .unauthorized) with
        authExpired := c.authExpired + 1
        refreshTask := none })

theorem retryOr_spec (f : Flow) (error : APIError) :
    (f.retryOr error).kind = f.kind ∧ NextPc (f.retryOr error).pc := by
  unfold Flow.retryOr
  split_ifs
  · exact ⟨rfl, .backoff⟩
  · exact ⟨rfl, .threw _⟩

theorem beginAttempt_spec (c : Client) (i : ℕ) (f : Flow) :
    ∃ f' tokens, f'.kind = f.kind ∧ NextPc f'.pc ∧
      (tokens = c.tokens ∨ tokens = c.held) ∧
        c.beginAttempt i f = { c.setFlow i f' with tokens := tokens } := by
  rcases f with ⟨kind, attempt, didRefresh, cancelled, pc⟩
  cases kind with
  | request =>
      cases hh : c.held with
      | none =>
          refine ⟨Flow.fail ⟨.request, attempt + 1, didRefresh, cancelled, pc⟩ .unauthorized,
            c.tokens, rfl, NextPc.threw _, .inl rfl, ?_⟩
          simp only [Client.beginAttempt, hh]
          rfl
      | some pair =>
          refine ⟨⟨.request, attempt + 1, didRefresh, cancelled, .sending (some pair.accessToken)⟩,
            some pair, rfl, NextPc.sending _, .inr rfl, ?_⟩
          simp only [Client.beginAttempt, hh]
          rfl
  | signIn =>
      exact ⟨⟨.signIn, attempt + 1, didRefresh, cancelled, .sending none⟩, c.tokens, rfl,
        NextPc.sending _, .inl rfl, rfl⟩
  | refresh token =>
      exact ⟨⟨.refresh token, attempt + 1, didRefresh, cancelled, .sending none⟩, c.tokens, rfl,
        NextPc.sending _, .inl rfl, rfl⟩

theorem beginAttempt_effect {c : Client} {i : ℕ} {f : Flow} {a : Action}
    (hi : c.flows[i]? = some f) (hlive : f.Live) : Effect c a (c.beginAttempt i f) := by
  obtain ⟨f', tokens, hkind, hnext, htokens, heq⟩ := beginAttempt_spec c i f
  rw [heq]
  exact .moved i f f' tokens hi hlive hkind hnext htokens rfl

/-- A flow that only moves its program point. -/
theorem setFlow_effect {c : Client} {i : ℕ} {f f' : Flow} {a : Action}
    (hi : c.flows[i]? = some f) (hlive : f.Live) (hkind : f'.kind = f.kind)
    (hnext : NextPc f'.pc) : Effect c a (c.setFlow i f') :=
  .moved i f f' c.tokens hi hlive hkind hnext (.inl rfl) rfl

theorem refreshTokens_effect {c : Client} {i : ℕ} {f f₁ : Flow} {a : Action}
    (hi : c.flows[i]? = some f) (hlive : f.Live) (hkind : f₁.kind = f.kind)
    (hreq : f₁.kind = .request) : Effect c a (c.refreshTokens i f₁) := by
  unfold Client.refreshTokens
  cases ht : c.refreshTask with
  | some task => exact .joined i task f (f₁.goto (.joining task)) hi hlive hreq rfl ht rfl
  | none =>
      cases hh : c.held with
      | none => exact setFlow_effect hi hlive hkind (.threw _)
      | some current =>
          exact .started i f (f₁.goto (.starting c.flows.length)) current hi hlive hreq rfl ht hh rfl

theorem complete_effect {c : Client} {i status : ℕ} {f : Flow} {body : Body}
    (hi : c.flows[i]? = some f) (hlive : f.Live) (hok : 200 ≤ status ∧ status < 300) :
    Effect c (.receive i (.http status body)) (c.complete i f body) := by
  unfold Client.complete
  cases hk : f.kind with
  | request => exact setFlow_effect hi hlive rfl (.returned _)
  | signIn =>
      cases hb : body.token with
      | none => exact setFlow_effect hi hlive rfl (.threw _)
      | some token => exact .signedIn i f status body token rfl hok hi hlive hk hb rfl
  | refresh refreshToken =>
      cases body.token with
      | none => exact setFlow_effect hi hlive rfl (.threw _)
      | some token => exact setFlow_effect hi hlive rfl (.returned _)

theorem receive_effect {c : Client} {i : ℕ} {f : Flow} (reply : Reply)
    (hi : c.flows[i]? = some f) (hlive : f.Live) :
    Effect c (.receive i reply) (c.receive i f reply) := by
  cases reply with
  | http status body =>
      simp only [Client.receive]
      split_ifs with hrefresh hok hretry
      · exact refreshTokens_effect hi hlive rfl hrefresh.2.1
      · exact complete_effect hi hlive hok
      · have hspec := retryOr_spec f (.server status body.detail)
        exact setFlow_effect hi hlive hspec.1 hspec.2
      · exact setFlow_effect hi hlive rfl (.threw _)
  | notHTTP => exact setFlow_effect hi hlive rfl (.threw _)
  | failed reason =>
      have hspec := retryOr_spec f (.transport reason)
      exact setFlow_effect hi hlive hspec.1 hspec.2
  | cancelled => exact setFlow_effect hi hlive rfl (.threw _)

theorem finishRefresh_effect {c : Client} {i task : ℕ} {f g : Flow}
    {value : Except Failure TokenPair} (hi : c.flows[i]? = some f)
    (hpc : f.pc = .starting task) (hg : c.flows[task]? = some g) (hv : g.value = some value) :
    Effect c (.resume i) (c.finishRefresh i f value) := by
  cases value with
  | ok pair =>
      obtain ⟨f', tokens, hkind, hnext, htokens, heq⟩ :=
        beginAttempt_spec { c.applyTokens pair with refreshTask := none } i f
      have hpair : tokens = some pair := by
        rcases htokens with h | h <;> exact h
      refine .applied i task f f' g pair rfl hi hpc hg hv hkind hnext ?_
      simp only [Client.finishRefresh, heq, hpair]
      rfl
  | error failure => exact .expired i task f g failure rfl hi hpc hg hv rfl

theorem resume_effect {c d : Client} {i : ℕ} {f : Flow} (hi : c.flows[i]? = some f)
    (hs : c.resume i f = some d) : Effect c (.resume i) d := by
  unfold Client.resume at hs
  split at hs
  · rename_i hpc
    cases hs
    exact beginAttempt_effect hi ⟨by simp [hpc], by simp [hpc], by simp [hpc]⟩
  · rename_i hpc
    have hlive : f.Live := ⟨by simp [hpc], by simp [hpc], by simp [hpc]⟩
    split_ifs at hs
    · cases hs
      exact setFlow_effect hi hlive rfl (.threw _)
    · cases hs
      exact beginAttempt_effect hi hlive
  · rename_i task hpc
    obtain ⟨value, hv, rfl⟩ := Option.map_eq_some_iff.mp hs
    obtain ⟨g, hg, hv⟩ := Option.bind_eq_some_iff.mp hv
    exact finishRefresh_effect hi hpc hg hv
  · rename_i task hpc
    have hlive : f.Live := ⟨by simp [hpc], by simp [hpc], by simp [hpc]⟩
    obtain ⟨value, hv, rfl⟩ := Option.map_eq_some_iff.mp hs
    cases value with
    | ok pair => exact beginAttempt_effect hi hlive
    | error failure => exact setFlow_effect hi hlive rfl (.threw _)
  · cases hs
  · cases hs
  · cases hs

theorem step_effect {c d : Client} {a : Action} (hs : step c a = some d) : Effect c a d := by
  cases a with
  | call kind =>
      cases kind with
      | refresh token => cases hs
      | request =>
          cases hs
          exact .called .request (by simp) rfl
      | signIn =>
          cases hs
          exact .called .signIn (by simp) rfl
  | resume i =>
      obtain ⟨f, hi, hs⟩ := Option.bind_eq_some_iff.mp hs
      exact resume_effect hi hs
  | receive i reply =>
      obtain ⟨f, hi, hs⟩ := Option.bind_eq_some_iff.mp hs
      split at hs
      · rename_i bearer hpc
        split_ifs at hs
        cases hs
        exact receive_effect reply hi ⟨by simp [hpc], by simp [hpc], by simp [hpc]⟩
      · cases hs
  | cancel i =>
      obtain ⟨f, hi, hs⟩ := Option.bind_eq_some_iff.mp hs
      split at hs
      · cases hs
      · cases hs
        exact .marked i f hi rfl
  | signOut =>
      cases hs
      exact .signedOut rfl rfl

end FieldNote.APIClient
