import FieldNote.IssuedTokens
import FieldNote.RefreshFlights

/-!
# The API client and the auth service across a network

The world is one client, the service with the calls of everyone, and the requests of the
client that have reached it. A request that was sent arrives at most once, at any later time
or never. Its answer is seen only by a flow that still awaits that attempt; an attempt may
also end in a failure of the transport, or in the reply of something in between, which brings
no tokens. The replies to authorized requests are the environment's, as they are in the client.
-/
namespace FieldNote.AuthExchange
open IssuedTokens GuardedRuns
open APIClient (Client Flow Kind Reply)
open AuthService (State AuthError)

/-- A rejected database or signing call, as far as the exception filter tells them apart. -/
inductive Fault where
  | notFound
  | conflict
  | relatedMissing
  | database
  | validation
  | other
deriving DecidableEq, Repr

/-- Status and message of the problem document. -/
def Fault.normalize : Fault → ℕ × String
  | .notFound => (404, "Resource not found.")
  | .conflict => (409, "Resource already exists.")
  | .relatedMissing => (400, "Related resource missing.")
  | .database => (500, "A database error occurred.")
  | .validation => (400, "Invalid query parameters.")
  | .other => (500, "An unexpected error occurred.")

/-- `normalize`: every other error of the service is an `UnauthorizedException`. -/
def normalize (fault : Fault) : AuthError → ℕ × String
  | .internal => fault.normalize
  | error => (401, error.message)

def problem (fault : Fault) (error : AuthError) : Reply :=
  .http (normalize fault error).1 { detail := some (normalize fault error).2 }

def refreshReply (fault : Fault) : AuthService.RefreshPc → Option Reply
  | .returned response => some (.http 200 { token := some response })
  | .rejected error => some (problem fault error)
  | _ => none

def signInReply (fault : Fault) : AuthService.SignInPc → Option Reply
  | .returned response => some (.http 200 { token := some response })
  | .rejected error => some (problem fault error)
  | _ => none

/-- The answer of a call that has ended. -/
def reply (s : State) (fault : Fault) : ServerCall → Option Reply
  | .refresh i => s.refreshCalls[i]?.bind fun call => refreshReply fault call.pc
  | .signIn i => s.signInCalls[i]?.bind (signInReply fault)

def carriesTokens : Reply → Bool
  | .http _ body => body.token.isSome
  | _ => false

/-- The request of one attempt of a flow, and the call that serves it. -/
structure Exchange where
  flow : ℕ
  attempt : ℕ
  call : ServerCall
deriving DecidableEq, Repr

/-- `loaded` is the call of an earlier client that issued the pair this one was started with. -/
structure World where
  client : Client
  server : State
  exchanges : List Exchange
  loaded : Option ServerCall

inductive Action where
  | client (action : APIClient.Action)
  | arrive (flow attempt : ℕ) (email : Option String)
  | answer (flow : ℕ) (fault : Fault)
  | lose (flow : ℕ) (reply : Reply)
  | server (action : AuthService.Action)

/-- What the arrival of a flow's request starts. -/
def request (s : State) (email : Option String) : Kind → Option (AuthService.Action × ServerCall)
  | .request => none
  | .signIn => some (.signIn email, .signIn s.signInCalls.length)
  | .refresh token => some (.refresh token, .refresh s.refreshCalls.length)

namespace World

def exchange (w : World) (flow attempt : ℕ) : Option Exchange :=
  w.exchanges.find? fun e => e.flow = flow ∧ e.attempt = attempt

/-- The client's flow goes on with a reply. -/
def hear (w : World) (flow : ℕ) (reply : Reply) : Option World :=
  (APIClient.step w.client (.receive flow reply)).map fun c => { w with client := c }

end World

/-- The service's actions are those of its own calls and of everyone else's requests. -/
def step (cfg : TokenService) (w : World) : Action → Option World
  | .client action =>
      match action with
      | .receive _ _ => none
      | action => (APIClient.step w.client action).map fun c => { w with client := c }
  | .arrive flow attempt email =>
      w.client.flows[flow]?.bind fun f =>
        if 1 ≤ attempt ∧ attempt ≤ f.attempt ∧ w.exchange flow attempt = none then
          (request w.server email f.kind).bind fun started =>
            (AuthService.step cfg w.server started.1).map fun s =>
              { w with
                server := s
                exchanges := w.exchanges ++ [⟨flow, attempt, started.2⟩] }
        else none
  | .answer flow fault =>
      w.client.flows[flow]?.bind fun f =>
        (w.exchange flow f.attempt).bind fun e =>
          (reply w.server fault e.call).bind fun reply => w.hear flow reply
  | .lose flow reply => if carriesTokens reply then none else w.hear flow reply
  | .server action =>
      (AuthService.step cfg w.server action).map fun s => { w with server := s }

/-- Tokens that a reply brings come from the call that serves the flow. -/
def Heard (w : World) (a : APIClient.Action) : Prop :=
  ∀ j status body token, a = .receive j (.http status body) → body.token = some token →
    ∃ e ∈ w.exchanges, e.flow = j ∧ issue w.server e.call = some (.answered token)

/-- Everything one step can do to the world. -/
inductive Effect (cfg : TokenService) (w : World) (a : Action) (w' : World) : Prop where
  | client (b : APIClient.Action) (c : Client) (moved : APIClient.step w.client b = some c)
      (heard : Heard w b) (eq : w' = { w with client := c })
  | arrived (j n : ℕ) (email : Option String) (f : Flow) (b : AuthService.Action)
      (call : ServerCall) (s : State) (action : a = .arrive j n email)
      (flow : w.client.flows[j]? = some f) (started : request w.server email f.kind = some (b, call))
      (moved : AuthService.step cfg w.server b = some s)
      (eq : w' = { w with server := s, exchanges := w.exchanges ++ [⟨j, n, call⟩] })
  | server (b : AuthService.Action) (s : State) (action : a = .server b)
      (moved : AuthService.step cfg w.server b = some s) (eq : w' = { w with server := s })

variable {cfg : TokenService} {w w' : World}

/-- A reply with tokens is the answer of a call that has returned them. -/
theorem reply_issue {s : State} {fault : Fault} {call : ServerCall} {status : ℕ}
    {body : APIClient.Body} {token : TokenResponse}
    (h : reply s fault call = some (.http status body)) (ht : body.token = some token) :
    issue s call = some (.answered token) := by
  have hproblem : ∀ error, problem fault error ≠ .http status body := by
    rintro error he
    cases he
    cases ht
  cases call with
  | refresh i =>
      obtain ⟨⟨presented, pc⟩, hi, h⟩ := Option.bind_eq_some_iff.mp h
      cases pc with
      | returned response =>
          cases h
          cases ht
          simp [issue, hi, refreshIssue]
      | rejected error => exact (hproblem error (Option.some.inj h)).elim
      | _ => cases h
  | signIn i =>
      obtain ⟨pc, hi, h⟩ := Option.bind_eq_some_iff.mp h
      cases pc with
      | returned response =>
          cases h
          cases ht
          simp [issue, hi, signInIssue]
      | rejected error => exact (hproblem error (Option.some.inj h)).elim
      | _ => cases h

theorem exchange_mem {j n : ℕ} {e : Exchange} (h : w.exchange j n = some e) :
    e ∈ w.exchanges ∧ e.flow = j ∧ e.attempt = n :=
  ⟨List.mem_of_find?_eq_some h, by simpa using List.find?_some h⟩

theorem step_effect {a : Action} (hs : step cfg w a = some w') : Effect cfg w a w' := by
  cases a with
  | client action =>
      cases action with
      | receive j reply => cases hs
      | signOut =>
          cases hs
          exact .client .signOut _ rfl (fun _ _ _ _ he => by cases he) rfl
      | _ =>
          obtain ⟨c, hc, rfl⟩ := Option.map_eq_some_iff.mp hs
          exact .client _ c hc (fun _ _ _ _ he => by cases he) rfl
  | arrive j n email =>
      obtain ⟨f, hf, hs⟩ := Option.bind_eq_some_iff.mp hs
      split_ifs at hs
      obtain ⟨⟨b, call⟩, hstart, hs⟩ := Option.bind_eq_some_iff.mp hs
      obtain ⟨s, hmoved, rfl⟩ := Option.map_eq_some_iff.mp hs
      exact .arrived j n email f b call s rfl hf hstart hmoved rfl
  | answer j fault =>
      obtain ⟨f, -, hs⟩ := Option.bind_eq_some_iff.mp hs
      obtain ⟨e, he, hs⟩ := Option.bind_eq_some_iff.mp hs
      obtain ⟨r, hr, hs⟩ := Option.bind_eq_some_iff.mp hs
      obtain ⟨c, hc, rfl⟩ := Option.map_eq_some_iff.mp hs
      obtain ⟨hmem, hflow, -⟩ := exchange_mem he
      refine .client _ c hc ?_ rfl
      intro k status body token ha ht
      cases ha
      exact ⟨e, hmem, hflow, reply_issue hr ht⟩
  | lose j r =>
      simp only [step] at hs
      split_ifs at hs with hno
      obtain ⟨c, hc, rfl⟩ := Option.map_eq_some_iff.mp hs
      refine .client _ c hc ?_ rfl
      intro k status body token ha ht
      cases ha
      simp [carriesTokens, ht] at hno
  | server action =>
      obtain ⟨s, hmoved, rfl⟩ := Option.map_eq_some_iff.mp hs
      exact .server action s rfl hmoved rfl

end FieldNote.AuthExchange
