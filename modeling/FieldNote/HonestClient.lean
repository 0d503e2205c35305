import FieldNote.AuthExchange
import FieldNote.TheftResponse

/-!
# When an honest client is taken for a thief

A client that retries a refresh whose first request has already been served presents a revoked
token, and the service answers as to a theft. The guard names the runs without this: a request
of a refresh reaches the service only after every earlier one of the same refresh was rejected
and rotated nothing, and the theft response to somebody else spares the client's tokens. The
client is the only holder of its tokens throughout. Under the guard no call of the client is
ever answered as a theft, and its tokens are revoked by its own rotations only.
-/
namespace FieldNote.HonestClient
open AuthExchange IssuedTokens GuardedRuns CallPool
open APIClient (Client Flow Kind TokenPair pairOf)
open AuthService (State RefreshPc RefreshCall Rotation afterLookup)
open SessionIsolation (presented presented_iff Answers)
open RefreshFlights (brandNew FreshAnswers)

variable (cfg : TokenService)

/-- The call serves a request of the client, or issued the pair it was started with. -/
def owns (w : World) (k : ServerCall) : Bool :=
  decide (w.loaded = some k) || w.exchanges.any fun e => e.call = k

/-- The hashes of the tokens that the service has stored for the client. -/
def clientHashes (w : World) : List String :=
  (w.loaded.toList ++ w.exchanges.map Exchange.call).filterMap fun k =>
    ((issue w.server k).filter Issue.committed).map fun x => cfg.hashRefreshToken x.token

def rejected (s : State) : ServerCall → Bool
  | .refresh i => s.refreshCalls[i]?.any fun call =>
      match call.pc with
      | .rejected _ => true
      | _ => false
  | .signIn i => s.signInCalls[i]?.any fun pc =>
      match pc with
      | .rejected _ => true
      | _ => false

/-- A rotation of the token has committed. -/
def rotated (s : State) (token : String) : Bool :=
  decide (cfg.hashRefreshToken token ∈ s.rotations.map Rotation.presented)

/-- Nobody else's call goes on with a token of the client. -/
def soleHolder (w : World) : Action → Bool
  | .server (.stepRefresh i _) => owns w (.refresh i) || w.server.refreshCalls[i]?.all fun call =>
      decide (cfg.hashRefreshToken call.token ∉ clientHashes cfg w)
  | _ => true

/-- The theft response to somebody else finds no active token of the client. -/
def spared (w : World) : Action → Bool
  | .server (.stepRefresh i _) =>
      match w.server.refreshCalls[i]? with
      | some ⟨_, .revokeChain userId⟩ => owns w (.refresh i) || (clientHashes cfg w).all fun h =>
          (w.server.refreshTokens.findUnique h).all fun r =>
            decide (r.userId ≠ userId) || r.revokedAt.isSome
      | _ => true
  | _ => true

/-- A request of a refresh arrives after every earlier one of the same refresh was rejected
and has rotated nothing. -/
def retriesSettled (w : World) : Action → Bool
  | .arrive j _ _ =>
      match w.client.flows[j]?.map Flow.kind with
      | some (.refresh token) => w.exchanges.all fun e =>
          decide (e.flow ≠ j) || rejected w.server e.call && !rotated cfg w.server token
      | _ => true
  | _ => true

def SoleHolder (w : World) (a : Action) : Prop := soleHolder cfg w a = true

instance : DecidableRel (SoleHolder cfg) := fun _ _ => inferInstanceAs (Decidable (_ = true))

def Guard (w : World) (a : Action) : Prop :=
  SoleHolder cfg w a ∧ spared cfg w a = true ∧ retriesSettled cfg w a = true

instance : DecidableRel (Guard cfg) := fun _ _ => inferInstanceAs (Decidable (_ ∧ _ ∧ _))

/-- The client is new to a service that may have served others, and to which an earlier client
may owe the pair in its storage; the row of that pair is active. -/
structure Starts (w : World) : Prop where
  server : Run (AuthService.step cfg) anyStep AuthService.init w.server
  idle : w.exchanges = []
  session : (w.loaded = none ∧ w.client = APIClient.init none) ∨
    ∃ k response row, w.loaded = some k ∧ issue w.server k = some (.answered response) ∧
      w.client = APIClient.init (some (pairOf response)) ∧
        w.server.refreshTokens.findUnique (cfg.hashRefreshToken response.refreshToken) = some row ∧
          row.revokedAt = none

/-- The call is in the reuse branch, or has been answered from it. -/
def accused : RefreshPc → Bool
  | .revokeChain _ => true
  | .rejected error => error = .alreadyUsed
  | _ => false

/-- Refresh call `i` serves flow `j` of the client. -/
def Serves (w : World) (j i : ℕ) : Prop :=
  ∃ e ∈ w.exchanges, e.flow = j ∧ e.call = .refresh i

/-- A refresh of the client presents this token. -/
def PresentedBy (w : World) (token : String) : Prop :=
  ∃ j i call, Serves w j i ∧ w.server.refreshCalls[i]? = some call ∧
    cfg.hashRefreshToken call.token = cfg.hashRefreshToken token

/-- No refresh of the client is answered as a theft; the tokens of the client have rows, which
are revoked by its own refreshes only; what it holds is one of them. -/
structure Trusted (w : World) : Prop where
  unaccused : ∀ j i call, Serves w j i → w.server.refreshCalls[i]? = some call →
    accused call.pc = false
  session : ∀ k x, owns w k = true → issue w.server k = some x → x.committed = true →
    ∃ row, w.server.refreshTokens.findUnique (cfg.hashRefreshToken x.token) = some row ∧
      (row.revokedAt.isSome = true → rotated cfg w.server x.token = true ∧
        PresentedBy cfg w x.token)
  held : ∀ pair, w.client.held = some pair → ∃ k response, owns w k = true ∧
    issue w.server k = some (.answered response) ∧ response.refreshToken = pair.refreshToken

/-- The client holds the token, presents it, or has been answered with it. -/
inductive Known (c : Client) (token : String) : Prop where
  | held (pair : TokenPair) (tokens : c.tokens = some pair) (eq : pair.refreshToken = token)
  | presented (task : ℕ) (sent : presented c task = some token)
  | answered (j : ℕ) (f : Flow) (pair : TokenPair) (flow : c.flows[j]? = some f)
      (value : f.value = some (.ok pair)) (eq : pair.refreshToken = token)

/-- The client was started with the pair of this call, or has received its answer. -/
def Delivered (w : World) (k : ServerCall) : Prop :=
  w.loaded = some k ∨ ∃ e ∈ w.exchanges, e.call = k ∧
    ∃ f pair, w.client.flows[e.flow]? = some f ∧ f.value = some (.ok pair)

structure Inv (w : World) : Prop where
  client : RefreshFlights.Inv w.client
  ledger : Ledger cfg w.server
  refreshes : ∀ j i, Serves w j i → ∃ call, w.server.refreshCalls[i]? = some call ∧
    presented w.client j = some call.token
  signIns : ∀ e ∈ w.exchanges, ∀ i, e.call = .signIn i → i < w.server.signInCalls.length
  distinct : ∀ e ∈ w.exchanges, ∀ e' ∈ w.exchanges, e.call = e'.call → e = e'
  loaded : ∀ k, w.loaded = some k → (∃ response, issue w.server k = some (.answered response)) ∧
    ∀ e ∈ w.exchanges, e.call ≠ k
  known : ∀ token, Known w.client token → ∃ k response, Delivered w k ∧
    issue w.server k = some (.answered response) ∧ response.refreshToken = token
  revoked : ∀ k x r, owns w k = true → issue w.server k = some x → x.committed = true →
    w.server.refreshTokens.findUnique (cfg.hashRefreshToken x.token) = some r →
      r.revokedAt.isSome = true → rotated cfg w.server x.token = true
  rotator : ∀ k x, owns w k = true → issue w.server k = some x → x.committed = true →
    rotated cfg w.server x.token = true → PresentedBy cfg w x.token
  single : ∀ j i i', Serves w j i → Serves w j i' → i ≠ i' →
    rejected w.server (.refresh i) = true ∨ rejected w.server (.refresh i') = true
  looking : ∀ j i token, Serves w j i → w.server.refreshCalls[i]? = some ⟨token, .findUnique⟩ →
    rotated cfg w.server token = false
  unaccused : ∀ j i call, Serves w j i → w.server.refreshCalls[i]? = some call →
    accused call.pc = false

variable {cfg} {w w' : World}

theorem owns_iff {k : ServerCall} : owns w k = true ↔
    w.loaded = some k ∨ ∃ e ∈ w.exchanges, e.call = k := by
  simp [owns]

theorem Delivered.owns {k : ServerCall} (h : Delivered w k) : owns w k = true := by
  rw [owns_iff]
  rcases h with h | ⟨e, he, hcall, -⟩
  · exact .inl h
  · exact .inr ⟨e, he, hcall⟩

theorem mem_clientHashes {k : ServerCall} {x : Issue} (h : owns w k = true)
    (hk : issue w.server k = some x) (hx : x.committed = true) :
    cfg.hashRefreshToken x.token ∈ clientHashes cfg w := by
  refine List.mem_filterMap.mpr ⟨k, ?_, by simp [hk, hx]⟩
  rcases owns_iff.mp h with h | ⟨e, he, rfl⟩
  · simp [h]
  · exact List.mem_append_right _ (List.mem_map_of_mem he)

theorem rotated_iff {s : State} {token : String} : rotated cfg s token = true ↔
    ∃ ρ ∈ s.rotations, ρ.presented = cfg.hashRefreshToken token := by
  simp [rotated]

theorem rejected_iff {s : State} {i : ℕ} : rejected s (.refresh i) = true ↔
    ∃ call error, s.refreshCalls[i]? = some call ∧ call.pc = .rejected error := by
  simp only [rejected, Option.any_eq_true]
  constructor
  · rintro ⟨call, hi, hpc⟩
    split at hpc
    · rename_i error he
      exact ⟨call, error, hi, he⟩
    · cases hpc
  · rintro ⟨call, error, hi, hpc⟩
    exact ⟨call, hi, by simp [hpc]⟩

/-- A refresh of the client that is under way is one that an exchange started: the call that
issued its first pair has ended. -/
theorem Inv.serves_of_owns (h : Inv cfg w) {i : ℕ} {call : RefreshCall}
    (hown : owns w (.refresh i) = true) (hi : w.server.refreshCalls[i]? = some call)
    (hlive : ∀ response, call.pc ≠ .returned response) : ∃ j, Serves w j i := by
  rcases owns_iff.mp hown with hload | ⟨e, he, hcall⟩
  · obtain ⟨⟨response, hk⟩, -⟩ := h.loaded _ hload
    rcases call with ⟨token, pc⟩
    simp only [issue, hi, Option.bind_some] at hk
    cases pc <;> simp [refreshIssue] at hk
    exact (hlive _ rfl).elim
  · exact ⟨e.flow, e, he, rfl, hcall⟩

/-- A token the client knows is one that the service has answered to it. -/
theorem Inv.known_issue (h : Inv cfg w) {token : String} (hk : Known w.client token) :
    ∃ k x, owns w k = true ∧ issue w.server k = some x ∧ x.committed = true ∧ x.token = token := by
  obtain ⟨k, response, hdel, hissue, rfl⟩ := h.known token hk
  exact ⟨k, _, hdel.owns, hissue, rfl, rfl⟩

/-- Tokens the client knows are told apart by their hashes. -/
theorem Inv.known_eq (h : Inv cfg w) {a b : String} (ha : Known w.client a)
    (hb : Known w.client b) (hhash : cfg.hashRefreshToken a = cfg.hashRefreshToken b) : a = b := by
  obtain ⟨k, x, -, hx, -, rfl⟩ := h.known_issue ha
  obtain ⟨k', y, -, hy, -, rfl⟩ := h.known_issue hb
  obtain rfl := h.ledger.distinct k k' x y hx hy hhash
  rw [hx] at hy
  cases hy
  rfl

theorem Inv.known_serves (h : Inv cfg w) {j i : ℕ} {call : RefreshCall} (hs : Serves w j i)
    (hi : w.server.refreshCalls[i]? = some call) : Known w.client call.token := by
  obtain ⟨call', hi', hsent⟩ := h.refreshes j i hs
  rw [hi] at hi'
  cases hi'
  exact .presented j hsent

/-- Calls that present tokens of one hash serve one flow. -/
theorem Inv.one_flow (h : Inv cfg w) {j j' i i' : ℕ} {call call' : RefreshCall}
    (hs : Serves w j i) (hi : w.server.refreshCalls[i]? = some call) (hs' : Serves w j' i')
    (hi' : w.server.refreshCalls[i']? = some call')
    (hhash : cfg.hashRefreshToken call.token = cfg.hashRefreshToken call'.token) : j = j' := by
  have htoken := h.known_eq (h.known_serves hs hi) (h.known_serves hs' hi') hhash
  obtain ⟨c₁, h₁, hsent⟩ := h.refreshes j i hs
  obtain ⟨c₂, h₂, hsent'⟩ := h.refreshes j' i' hs'
  rw [hi] at h₁
  rw [hi'] at h₂
  cases h₁
  cases h₂
  exact h.client.once j j' _ hsent (htoken ▸ hsent')

section Client
variable {c d : Client} {a : APIClient.Action}

/-- What a client holds after a step it held before, or has been answered with. -/
theorem tokens_known {pair : TokenPair} (hsync : c.tokens = c.storage)
    (hs : APIClient.step c a = some d) (hd : d.tokens = some pair) :
    Known c pair.refreshToken ∨ ∃ j g, Answers a j pair ∧ d.flows[j]? = some g ∧
      g.value = some (.ok pair) := by
  cases APIClient.step_effect hs with
  | called kind kind_ne eq =>
      subst eq
      exact .inl (.held pair hd rfl)
  | marked i f flow eq =>
      subst eq
      exact .inl (.held pair hd rfl)
  | signedOut action eq =>
      subst eq
      cases hd
  | moved i f f' tokens flow live kind next loaded eq =>
      subst eq
      refine .inl (.held pair ?_ rfl)
      rcases loaded with rfl | rfl
      · exact hd
      · simpa [Client.held, ← hsync] using hd
  | signedIn i f status body token action ok flow live kind decoded eq =>
      subst eq
      cases hd
      exact .inr ⟨i, _, ⟨status, body, token, action, decoded, rfl⟩, getElem?_set_same flow, rfl⟩
  | joined i task f f' flow live kind pc current eq =>
      subst eq
      exact .inl (.held pair hd rfl)
  | started i f f' current flow live kind pc idle held eq =>
      subst eq
      exact .inl (.held pair hd rfl)
  | applied i task f f' g pair' action flow pc done value kind next eq =>
      subst eq
      cases hd
      exact .inl (.answered task g pair done value rfl)
  | expired i task f g failure action flow pc done value eq =>
      subst eq
      cases hd

/-- The client gets to know a token only by an answer. -/
theorem known_before {token : String} (hsync : c.tokens = c.storage)
    (hs : APIClient.step c a = some d) (hk : Known d token) :
    Known c token ∨ ∃ j g pair, Answers a j pair ∧ pair.refreshToken = token ∧
      d.flows[j]? = some g ∧ g.value = some (.ok pair) := by
  have hflow := SessionIsolation.flow_effect hs
  cases hk with
  | held pair tokens eq =>
      rcases tokens_known hsync hs tokens with hold | ⟨j, g, hans, hg, hv⟩
      · exact .inl (eq ▸ hold)
      · exact .inr ⟨j, g, pair, hans, eq, hg, hv⟩
  | presented task sent =>
      rcases RefreshFlights.presented_before (APIClient.step_effect hs) hflow sent with
        hold | ⟨-, -, -, -, pair, hpair, heq⟩
      · exact .inl (.presented task hold)
      · refine .inl (.held pair ?_ heq)
        simpa [Client.held, ← hsync] using hpair
  | answered j g pair flow value eq =>
      by_cases hlt : j < c.flows.length
      · obtain ⟨f, hf, -, hval⟩ := SessionIsolation.flow_before hflow flow hlt
        rcases hval pair value with hold | hans
        · exact .inl (.answered j f pair hf hold eq)
        · exact .inr ⟨j, g, pair, hans, eq, flow, value⟩
      · rw [SessionIsolation.flow_new hflow flow (Nat.le_of_not_lt hlt)] at value
        cases value

/-- A flow that receives a reply has not ended. -/
theorem receive_pending {j : ℕ} {reply : APIClient.Reply}
    (hs : APIClient.step c (.receive j reply) = some d) {f : Flow} (hf : c.flows[j]? = some f) :
    f.value = none := by
  obtain ⟨f', hf', hs⟩ := Option.bind_eq_some_iff.mp hs
  rw [hf] at hf'
  cases hf'
  split at hs
  · rename_i bearer hpc
    simp [Flow.value, hpc]
  · cases hs

/-- A token that the client does not know is brand new to it. -/
theorem brandNew_of_unknown {token : String} (h : ¬ Known c token) : brandNew c token = true := by
  refine RefreshFlights.brandNew_iff.mpr ⟨?_, ?_, ?_⟩
  · exact RefreshFlights.unseen_iff.mpr fun task hsent => h (.presented task hsent)
  · intro f hf pair hpc heq
    obtain ⟨j, hj⟩ := List.mem_iff_getElem?.mp hf
    exact h (.answered j f pair hj (by simp [Flow.value, hpc]) heq)
  · exact fun pair hpair heq => h (.held pair hpair heq)

end Client

theorem Delivered.kept {c : Client} {b : APIClient.Action} {k : ServerCall}
    (hs : APIClient.step w.client b = some c) (h : Delivered w k) :
    Delivered { w with client := c } k := by
  rcases h with h | ⟨e, he, hcall, f, pair, hf, hv⟩
  · exact .inl h
  · obtain ⟨g, hg, hv'⟩ := RefreshWaiters.value_kept (APIClient.step_effect hs) hf hv
    exact .inr ⟨e, he, hcall, g, pair, hg, hv'⟩

/-- The answers that reach the client bring tokens that it does not know yet. -/
theorem Inv.answers_fresh (h : Inv cfg w) {c : Client} {b : APIClient.Action}
    (hs : APIClient.step w.client b = some c) (hheard : Heard w b) : FreshAnswers w.client b := by
  unfold FreshAnswers RefreshFlights.answersFresh
  split
  · rename_i j status body
    rw [Bool.or_eq_true]
    refine .inr ((Option.all_eq_true _ _).mpr ?_)
    intro token htoken
    obtain ⟨e, he, rfl, hissue⟩ := hheard j status body token rfl htoken
    refine brandNew_of_unknown fun hknown => ?_
    obtain ⟨k, response, hdel, hk, hsame⟩ := h.known _ hknown
    obtain rfl := h.ledger.distinct k e.call _ _ hk hissue (congrArg cfg.hashRefreshToken hsame)
    rcases hdel with hload | ⟨e', he', hcall, f, pair, hf, hv⟩
    · exact (h.loaded _ hload).2 e he rfl
    · -- the call has one exchange, and its flow still waits
      obtain rfl := h.distinct e' he' e he hcall
      rw [receive_pending hs hf] at hv
      cases hv
  · rfl

theorem Inv.client_step (h : Inv cfg w) {c : Client} {b : APIClient.Action}
    (hs : APIClient.step w.client b = some c) (hheard : Heard w b) :
    Inv cfg { w with client := c } := by
  have hflow := SessionIsolation.flow_effect hs
  refine { h with
    client := RefreshFlights.inv_step h.client (h.answers_fresh hs hheard) hs
    refreshes := ?_
    known := ?_ }
  · intro j i hserves
    obtain ⟨call, hi, hsent⟩ := h.refreshes j i hserves
    exact ⟨call, hi, (SessionIsolation.presented_kept hflow
      (RefreshFlights.lt_of_presented hsent)).trans hsent⟩
  · intro token hknown
    rcases known_before h.client.synced hs hknown with hold | ⟨j, g, pair, hans, rfl, hg, hv⟩
    · obtain ⟨k, response, hdel, hk, hsame⟩ := h.known token hold
      exact ⟨k, response, hdel.kept hs, hk, hsame⟩
    · obtain ⟨status, body, answer, hb, hanswer, rfl⟩ := hans
      obtain ⟨e, he, rfl, hissue⟩ := hheard j status body answer hb hanswer
      exact ⟨e.call, answer, .inr ⟨e, he, rfl, g, _, hg, hv⟩, hissue, rfl⟩

section Server
variable {s t : State} {b : AuthService.Action}

/-- A refresh call was there before the step, at the same program point or at the one that the
step moves it from, or it has just been started. -/
theorem call_before {i : ℕ} {call : RefreshCall} (hs : AuthService.step cfg s b = some t)
    (hi : t.refreshCalls[i]? = some call) :
    s.refreshCalls[i]? = some call ∨
      (∃ pc, s.refreshCalls[i]? = some ⟨call.token, pc⟩ ∧
        AuthService.NextPc cfg s call.token pc call.pc) ∨
      i = s.refreshCalls.length ∧ call.pc = .findUnique := by
  cases AuthService.step_calls hs with
  | same calls => exact .inl (calls ▸ hi)
  | started token calls =>
      rw [calls] at hi
      rcases getElem?_start_cases hi with ⟨hlen, rfl⟩ | ⟨-, hi⟩
      · exact .inr (.inr ⟨hlen, rfl⟩)
      · exact .inl hi
  | moved k token pc pc' old next calls =>
      rw [calls] at hi
      rcases getElem?_set_cases hi with ⟨rfl, rfl⟩ | ⟨-, hi⟩
      · exact .inr (.inl ⟨pc, old, next⟩)
      · exact .inl hi

/-- A refresh call keeps its token, and once rejected it stays so. -/
theorem call_kept {i : ℕ} {call : RefreshCall} (hs : AuthService.step cfg s b = some t)
    (hi : s.refreshCalls[i]? = some call) :
    ∃ call', t.refreshCalls[i]? = some call' ∧ call'.token = call.token ∧
      ((∃ error, call.pc = .rejected error) → ∃ error, call'.pc = .rejected error) := by
  cases AuthService.step_calls hs with
  | same calls => exact ⟨call, calls ▸ hi, rfl, id⟩
  | started token calls =>
      refine ⟨call, ?_, rfl, id⟩
      rw [calls, List.getElem?_append_left (lt_of_getElem? hi)]
      exact hi
  | moved k token pc pc' old next calls =>
      by_cases hik : i = k
      · subst hik
        rw [old] at hi
        cases hi
        refine ⟨⟨token, pc'⟩, calls ▸ getElem?_set_same old, rfl, ?_⟩
        rintro ⟨error, rfl⟩
        cases next
        exact ⟨_, rfl⟩
      · exact ⟨call, calls ▸ (getElem?_set_other hik).trans hi, rfl, id⟩

theorem rejected_kept {i : ℕ} (hs : AuthService.step cfg s b = some t)
    (h : rejected s (.refresh i) = true) : rejected t (.refresh i) = true := by
  obtain ⟨call, error, hi, hpc⟩ := rejected_iff.mp h
  obtain ⟨call', hi', -, hkeep⟩ := call_kept hs hi
  obtain ⟨error', hpc'⟩ := hkeep ⟨error, hpc⟩
  exact rejected_iff.mpr ⟨call', error', hi', hpc'⟩

/-- A rotation that was not logged before is the commit of a call. -/
theorem rotated_before {token : String} (hs : AuthService.step cfg s b = some t)
    (h : rotated cfg t token = true) :
    rotated cfg s token = true ∨ ∃ i env call record user next, b = .stepRefresh i env ∧
      s.refreshCalls[i]? = some call ∧ call.pc = .rotate record user next ∧
        cfg.hashRefreshToken call.token = cfg.hashRefreshToken token ∧
          ∃ r, s.refreshTokens.findUnique (cfg.hashRefreshToken token) = some r := by
  obtain ⟨ρ, hρ, hpresented⟩ := rotated_iff.mp h
  cases AuthService.step_effect hs with
  | same table log => exact .inl (rotated_iff.mpr ⟨ρ, log ▸ hρ, hpresented⟩)
  | revoked i env token' userId action call table log calls =>
      exact .inl (rotated_iff.mpr ⟨ρ, log ▸ hρ, hpresented⟩)
  | created user next table log => exact .inl (rotated_iff.mpr ⟨ρ, log ▸ hρ, hpresented⟩)
  | rotated i env token' record user next action call table log calls =>
      rw [log] at hρ
      rcases List.mem_cons.mp hρ with rfl | hρ
      · obtain ⟨hrow, -⟩ := RefreshTable.rotate_presented table
        exact .inr ⟨i, env, _, record, user, next, action, call, rfl, hpresented, hpresented ▸ hrow⟩
      · exact .inl (rotated_iff.mpr ⟨ρ, hρ, hpresented⟩)

theorem rotated_kept {token : String} (hs : AuthService.step cfg s b = some t)
    (h : rotated cfg s token = true) : rotated cfg t token = true := by
  obtain ⟨ρ, hρ, hpresented⟩ := rotated_iff.mp h
  refine rotated_iff.mpr ⟨ρ, ?_, hpresented⟩
  cases AuthService.step_effect hs with
  | same table log => exact log ▸ hρ
  | revoked i env token' userId action call table log calls => exact log ▸ hρ
  | created user next table log => exact log ▸ hρ
  | rotated i env token' record user next action call table log calls =>
      exact log ▸ List.mem_cons_of_mem _ hρ

/-- A row that the step revokes is rotated by it, or the theft response finds it active. -/
theorem revoked_before {token : String} {r₀ r : RefreshToken}
    (hs : AuthService.step cfg s b = some t)
    (hr₀ : s.refreshTokens.findUnique (cfg.hashRefreshToken token) = some r₀)
    (hr : t.refreshTokens.findUnique (cfg.hashRefreshToken token) = some r)
    (hrev : r.revokedAt.isSome = true) :
    r₀.revokedAt.isSome = true ∨ rotated cfg t token = true ∨
      ∃ i env presented userId, b = .stepRefresh i env ∧
        s.refreshCalls[i]? = some ⟨presented, .revokeChain userId⟩ ∧ r₀.userId = userId := by
  cases AuthService.step_effect hs with
  | same table log =>
      rw [table, hr₀] at hr
      cases hr
      exact .inl hrev
  | revoked i env presented userId action call table log calls =>
      rw [table, RefreshTable.findUnique_revokeActive, hr₀] at hr
      by_cases hhit : r₀.userId = userId ∧ r₀.revokedAt = none
      · exact .inr (.inr ⟨i, env, presented, userId, action, call, hhit.1⟩)
      · rw [Option.map_some, if_neg hhit] at hr
        cases hr
        exact .inl hrev
  | created user next table log =>
      rw [Table.create_findUnique table] at hr
      split_ifs at hr with hkey
      · rw [hkey, (Table.create_eq_some table).1] at hr₀
        cases hr₀
      · rw [hr₀] at hr
        cases hr
        exact .inl hrev
  | rotated i env presented record user next action call table log calls =>
      rw [RefreshTable.findUnique_rotate table] at hr
      split_ifs at hr with hkey hkey'
      · rw [hkey, (RefreshTable.rotate_presented table).2] at hr₀
        cases hr₀
      · exact .inr (.inl (rotated_iff.mpr ⟨_, log ▸ List.mem_cons_self, hkey'.symm⟩))
      · rw [hr₀] at hr
        cases hr
        exact .inl hrev

theorem owns_of_soleHolder {i : ℕ} {env : AuthService.Env} {call : RefreshCall}
    (hg : SoleHolder cfg w (.server (.stepRefresh i env)))
    (hi : w.server.refreshCalls[i]? = some call)
    (hmem : cfg.hashRefreshToken call.token ∈ clientHashes cfg w) : owns w (.refresh i) = true := by
  simp only [SoleHolder, soleHolder, hi, Option.all_some, Bool.or_eq_true, decide_eq_true_eq] at hg
  exact hg.resolve_right fun hnot => hnot hmem

theorem spared_row {i : ℕ} {env : AuthService.Env} {token userId h : String} {r : RefreshToken}
    (hg : spared cfg w (.server (.stepRefresh i env)) = true)
    (hi : w.server.refreshCalls[i]? = some ⟨token, .revokeChain userId⟩)
    (hmem : h ∈ clientHashes cfg w) (hr : w.server.refreshTokens.findUnique h = some r)
    (huser : r.userId = userId) : owns w (.refresh i) = true ∨ r.revokedAt.isSome = true := by
  simp only [spared, hi, Bool.or_eq_true, List.all_eq_true] at hg
  refine hg.imp_right fun hall => ?_
  simpa [hr, huser] using hall h hmem

/-- A token of the client is rotated by a call of the client. -/
theorem Inv.rotated_new (h : Inv cfg w) (hg : SoleHolder cfg w (.server b))
    (hs : AuthService.step cfg w.server b = some t) {k : ServerCall} {x : Issue}
    (hown : owns w k = true) (hk : issue w.server k = some x) (hx : x.committed = true)
    (hrot : rotated cfg t x.token = true) : rotated cfg w.server x.token = true ∨
      ∃ j i call record user next, Serves w j i ∧ w.server.refreshCalls[i]? = some call ∧
        call.pc = .rotate record user next ∧
          cfg.hashRefreshToken call.token = cfg.hashRefreshToken x.token := by
  refine (rotated_before hs hrot).imp_right ?_
  rintro ⟨i, env, call, record, user, next, rfl, hi, hpc, hhash, -⟩
  have hmem : cfg.hashRefreshToken x.token ∈ clientHashes cfg w := mem_clientHashes hown hk hx
  obtain ⟨j, hserves⟩ := h.serves_of_owns (owns_of_soleHolder hg hi (hhash ▸ hmem)) hi (by simp [hpc])
  exact ⟨j, i, call, record, user, next, hserves, hi, hpc, hhash⟩

theorem Inv.revoked_step (h : Inv cfg w) (hg : Guard cfg w (.server b))
    (hs : AuthService.step cfg w.server b = some t) {k : ServerCall} {x : Issue} {r : RefreshToken}
    (hown : owns w k = true) (hk : issue t k = some x) (hx : x.committed = true)
    (hr : t.refreshTokens.findUnique (cfg.hashRefreshToken x.token) = some r)
    (hrev : r.revokedAt.isSome = true) : rotated cfg t x.token = true := by
  rcases committed_before h.ledger (step_issue hs) hk hx with
    ⟨y, hy, hcommitted, htoken⟩ | ⟨-, r', hr', hactive⟩
  · rw [← htoken] at hr ⊢
    obtain ⟨r₀, hr₀⟩ := h.ledger.row k y hy hcommitted
    have hold : r₀.revokedAt.isSome = true → rotated cfg t y.token = true := fun hrev₀ =>
      rotated_kept hs (h.revoked k y r₀ hown hy hcommitted hr₀ hrev₀)
    rcases revoked_before hs hr₀ hr hrev with
      hrev₀ | hrot | ⟨i, env, token, userId, rfl, hi, huser⟩
    · exact hold hrev₀
    · exact hrot
    · rcases spared_row hg.2.1 hi (mem_clientHashes hown hy hcommitted) hr₀ huser with hmine | hrev₀
      · -- the client itself is never in the reuse branch
        obtain ⟨j, hserves⟩ := h.serves_of_owns hmine hi (by simp)
        cases h.unaccused j i _ hserves hi
      · exact hold hrev₀
  · rw [hr'] at hr
    cases hr
    rw [hactive] at hrev
    cases hrev

theorem Inv.rotator_step (h : Inv cfg w) (hg : SoleHolder cfg w (.server b))
    (hs : AuthService.step cfg w.server b = some t) {k : ServerCall} {x : Issue}
    (hown : owns w k = true) (hk : issue t k = some x) (hx : x.committed = true)
    (hrot : rotated cfg t x.token = true) : PresentedBy cfg { w with server := t } x.token := by
  have hkeep : PresentedBy cfg w x.token → PresentedBy cfg { w with server := t } x.token := by
    rintro ⟨j, i, call, hserves, hi, hhash⟩
    obtain ⟨call', hi', htoken, -⟩ := call_kept hs hi
    exact ⟨j, i, call', hserves, hi', htoken ▸ hhash⟩
  rcases committed_before h.ledger (step_issue hs) hk hx with
    ⟨y, hy, hcommitted, htoken⟩ | ⟨hfree, -⟩
  · rw [← htoken] at hrot hkeep ⊢
    rcases h.rotated_new hg hs hown hy hcommitted hrot with
      hold | ⟨j, i, call, -, -, -, hserves, hi, -, hhash⟩
    · exact hkeep (h.rotator k y hown hy hcommitted hold)
    · exact hkeep ⟨j, i, call, hserves, hi, hhash⟩
  · -- a token whose row is created now has not been rotated
    have hrow : ∃ r, w.server.refreshTokens.findUnique (cfg.hashRefreshToken x.token) = some r := by
      rcases rotated_before hs hrot with hold | ⟨-, -, -, -, -, -, -, -, -, -, hrow⟩
      · obtain ⟨ρ, hρ, hpresented⟩ := rotated_iff.mp hold
        obtain ⟨r, hr, -⟩ := h.ledger.rotated ρ hρ
        exact ⟨r, hpresented ▸ hr⟩
      · exact hrow
    obtain ⟨r, hr⟩ := hrow
    rw [hfree] at hr
    cases hr

theorem nextPc_ne_findUnique {token : String} {pc pc' : RefreshPc}
    (h : AuthService.NextPc cfg s token pc pc') : pc' ≠ .findUnique := by
  cases h with
  | lookup now =>
      unfold afterLookup
      split
      · simp
      · split_ifs <;> simp
  | _ => simp

/-- While a call of the client has its lookup before it, no other call of the client may rotate
its token. -/
theorem Inv.looking_step (h : Inv cfg w) (hg : SoleHolder cfg w (.server b))
    (hs : AuthService.step cfg w.server b = some t) {j i : ℕ} {token : String}
    (hserves : Serves w j i) (hi : t.refreshCalls[i]? = some ⟨token, .findUnique⟩) :
    rotated cfg t token = false := by
  have hold : w.server.refreshCalls[i]? = some ⟨token, .findUnique⟩ := by
    rcases call_before hs hi with hold | ⟨pc, -, hnext⟩ | ⟨rfl, -⟩
    · exact hold
    · exact (nextPc_ne_findUnique hnext rfl).elim
    · obtain ⟨call, hcall, -⟩ := h.refreshes j _ hserves
      simp at hcall
  obtain ⟨k, x, hown, hk, hx, rfl⟩ := h.known_issue (h.known_serves hserves hold)
  rw [← Bool.not_eq_true]
  intro hrot
  rcases h.rotated_new hg hs hown hk hx hrot with
    hbefore | ⟨j', i', call, record, user, next, hserves', hi', hpc, hhash⟩
  · rw [h.looking j i x.token hserves hold] at hbefore
    cases hbefore
  · obtain rfl := h.one_flow hserves' hi' hserves hold hhash
    have hne : i' ≠ i := by
      rintro rfl
      rw [hold] at hi'
      cases hi'
      cases hpc
    rcases h.single j' i' i hserves' hserves hne with hrej | hrej
    · obtain ⟨call', error, hcall', hpc'⟩ := rejected_iff.mp hrej
      rw [hi'] at hcall'
      cases hcall'
      rw [hpc] at hpc'
      cases hpc'
    · obtain ⟨call', error, hcall', hpc'⟩ := rejected_iff.mp hrej
      rw [hold] at hcall'
      cases hcall'
      cases hpc'

/-- The lookup of a call of the client finds an active row, or none. -/
theorem Inv.unaccused_step (h : Inv cfg w) (hs : AuthService.step cfg w.server b = some t)
    {j i : ℕ} {call : RefreshCall} (hserves : Serves w j i)
    (hi : t.refreshCalls[i]? = some call) : accused call.pc = false := by
  rcases call_before hs hi with hold | ⟨pc, hold, hnext⟩ | ⟨rfl, -⟩
  · exact h.unaccused j i call hserves hold
  · generalize hpc : call.pc = pc' at hnext
    cases hnext with
    | lookup now =>
        obtain ⟨k, x, hown, hk, hx, htoken⟩ := h.known_issue (h.known_serves hserves hold)
        have hnot := h.looking j i _ hserves hold
        unfold afterLookup
        split
        · rfl
        · rename_i r hr
          dsimp only at hr htoken
          split_ifs with hrev hexp
          · rw [← htoken] at hr hnot
            rw [h.revoked k x r hown hk hx hr hrev] at hnot
            cases hnot
          · rfl
          · rfl
    | revoked userId => cases h.unaccused j i _ hserves hold
    | _ => rfl
  · obtain ⟨call', hcall', -⟩ := h.refreshes j _ hserves
    simp at hcall'

theorem Inv.server_step (h : Inv cfg w) (hg : Guard cfg w (.server b))
    (hs : AuthService.step cfg w.server b = some t) : Inv cfg { w with server := t } := by
  have hissue := step_issue hs
  refine
    { client := h.client
      ledger := ledger_step h.ledger hs
      refreshes := ?_
      signIns := ?_
      distinct := h.distinct
      loaded := ?_
      known := ?_
      revoked := fun k x r hown hk hx => h.revoked_step hg hs hown hk hx
      rotator := fun k x hown hk hx => h.rotator_step hg.1 hs hown hk hx
      single := ?_
      looking := fun j i token hserves hi => h.looking_step hg.1 hs hserves hi
      unaccused := fun j i call hserves hi => h.unaccused_step hs hserves hi }
  · intro j i hserves
    obtain ⟨call, hi, hsent⟩ := h.refreshes j i hserves
    obtain ⟨call', hi', htoken, -⟩ := call_kept hs hi
    exact ⟨call', hi', htoken ▸ hsent⟩
  · intro e he i hcall
    exact Nat.lt_of_lt_of_le (h.signIns e he i hcall) hissue.signIns
  · intro k hload
    obtain ⟨⟨response, hk⟩, hne⟩ := h.loaded k hload
    exact ⟨⟨response, answered_kept hissue hk⟩, hne⟩
  · intro token hknown
    obtain ⟨k, response, hdel, hk, hsame⟩ := h.known token hknown
    exact ⟨k, response, hdel, answered_kept hissue hk, hsame⟩
  · intro j i i' hi hi' hne
    exact (h.single j i i' hi hi' hne).imp (rejected_kept hs) (rejected_kept hs)

end Server

/-- The world with one more exchange of the client. -/
def World.exchanged (w : World) (j n : ℕ) (k : ServerCall) : World :=
  { w with exchanges := w.exchanges ++ [⟨j, n, k⟩] }

section Arrival
variable {j n : ℕ} {k : ServerCall}

theorem serves_exchanged {j' i : ℕ} (h : Serves (World.exchanged w j n k) j' i) :
    Serves w j' i ∨ j' = j ∧ k = .refresh i := by
  obtain ⟨e, he, hflow, hcall⟩ := h
  rcases List.mem_append.mp he with he | he
  · exact .inl ⟨e, he, hflow, hcall⟩
  · obtain rfl := List.mem_singleton.mp he
    exact .inr ⟨hflow.symm, hcall⟩

theorem Serves.exchanged {j' i : ℕ} (h : Serves w j' i) :
    Serves (World.exchanged w j n k) j' i := by
  obtain ⟨e, he, hcall⟩ := h
  exact ⟨e, List.mem_append_left _ he, hcall⟩

theorem owns_exchanged {k' : ServerCall} (h : owns (World.exchanged w j n k) k' = true) :
    owns w k' = true ∨ k' = k := by
  rw [owns_iff] at h ⊢
  rcases h with hload | ⟨e, he, hcall⟩
  · exact .inl (.inl hload)
  · rcases List.mem_append.mp he with he | he
    · exact .inl (.inr ⟨e, he, hcall⟩)
    · obtain rfl := List.mem_singleton.mp he
      exact .inr hcall.symm

/-- A call has just been started for flow `j`. If it is a refresh, every earlier one of the
flow was rejected and the flow's token has not been rotated by any of them. -/
structure NewCall (cfg : TokenService) (w : World) (j : ℕ) (k : ServerCall) : Prop where
  exchange : ∀ e ∈ w.exchanges, e.call ≠ k
  loaded : w.loaded ≠ some k
  issue : issue w.server k = none
  signIn : ∀ i, k = .signIn i → i < w.server.signInCalls.length
  refresh : ∀ i, k = .refresh i → ∃ token,
    w.server.refreshCalls[i]? = some ⟨token, .findUnique⟩ ∧ presented w.client j = some token ∧
      ∀ i', Serves w j i' → rejected w.server (.refresh i') = true ∧
        rotated cfg w.server token = false

/-- No other flow presents the token, so nothing has rotated it. -/
theorem Inv.new_unrotated (h : Inv cfg w) {token : String} (hsent : presented w.client j = some token)
    (hprior : ∀ i', Serves w j i' → rotated cfg w.server token = false) :
    rotated cfg w.server token = false := by
  obtain ⟨k, x, hown, hk, hx, rfl⟩ := h.known_issue (.presented j hsent)
  by_contra hrot
  obtain ⟨j', i', call, hserves, hi', hhash⟩ :=
    h.rotator k x hown hk hx (Bool.not_eq_false _ ▸ hrot)
  have htoken := h.known_eq (h.known_serves hserves hi') (.presented j hsent) hhash
  obtain ⟨call', hcall', hsent'⟩ := h.refreshes j' i' hserves
  rw [hi'] at hcall'
  cases hcall'
  obtain rfl := h.client.once j' j _ hsent' (htoken ▸ hsent)
  exact hrot (hprior i' hserves)

theorem Inv.exchanged (h : Inv cfg w) (hnew : NewCall cfg w j k) :
    Inv cfg (World.exchanged w j n k) := by
  refine
    { client := h.client
      ledger := h.ledger
      refreshes := ?_
      signIns := ?_
      distinct := ?_
      loaded := ?_
      known := ?_
      revoked := ?_
      rotator := ?_
      single := ?_
      looking := ?_
      unaccused := ?_ }
  · intro j' i hserves
    rcases serves_exchanged hserves with hold | ⟨rfl, hk⟩
    · exact h.refreshes j' i hold
    · obtain ⟨token, hi, hsent, -⟩ := hnew.refresh i hk
      exact ⟨_, hi, hsent⟩
  · intro e he i hcall
    rcases List.mem_append.mp he with he | he
    · exact h.signIns e he i hcall
    · obtain rfl := List.mem_singleton.mp he
      exact hnew.signIn i hcall
  · intro e he e' he' hcall
    rcases List.mem_append.mp he with he | he <;> rcases List.mem_append.mp he' with he' | he'
    · exact h.distinct e he e' he' hcall
    · obtain rfl := List.mem_singleton.mp he'
      exact (hnew.exchange e he hcall).elim
    · obtain rfl := List.mem_singleton.mp he
      exact (hnew.exchange e' he' hcall.symm).elim
    · exact (List.mem_singleton.mp he).trans (List.mem_singleton.mp he').symm
  · intro k' hload
    obtain ⟨hissue, hne⟩ := h.loaded k' hload
    refine ⟨hissue, fun e he => ?_⟩
    rcases List.mem_append.mp he with he | he
    · exact hne e he
    · obtain rfl := List.mem_singleton.mp he
      rintro rfl
      exact hnew.loaded hload
  · intro token hknown
    obtain ⟨k', response, hdel, hk, hsame⟩ := h.known token hknown
    refine ⟨k', response, ?_, hk, hsame⟩
    exact hdel.imp_right fun ⟨e, he, hrest⟩ => ⟨e, List.mem_append_left _ he, hrest⟩
  · intro k' x r hown hk hx
    rcases owns_exchanged hown with hown | rfl
    · exact h.revoked k' x r hown hk hx
    · cases hnew.issue.symm.trans hk
  · intro k' x hown hk hx hrot
    rcases owns_exchanged hown with hown | rfl
    · obtain ⟨j', i, call, hserves, hi, hhash⟩ := h.rotator k' x hown hk hx hrot
      exact ⟨j', i, call, hserves.exchanged, hi, hhash⟩
    · cases hnew.issue.symm.trans hk
  · intro j' i i' hi hi' hne
    rcases serves_exchanged hi with hold | ⟨rfl, hk⟩ <;>
      rcases serves_exchanged hi' with hold' | ⟨hj, hk'⟩
    · exact h.single j' i i' hold hold' hne
    · obtain ⟨token, -, -, hprior⟩ := hnew.refresh i' hk'
      exact .inl (hprior i (hj ▸ hold)).1
    · obtain ⟨token, -, -, hprior⟩ := hnew.refresh i hk
      exact .inr (hprior i' hold').1
    · cases hk.symm.trans hk'
      exact (hne rfl).elim
  · intro j' i token hserves hi
    rcases serves_exchanged hserves with hold | ⟨rfl, hk⟩
    · exact h.looking j' i token hold hi
    · obtain ⟨token', hi', hsent, hprior⟩ := hnew.refresh i hk
      have hsame := Option.some.inj (hi'.symm.trans hi)
      cases hsame
      exact h.new_unrotated hsent fun i' hserves' => (hprior i' hserves').2
  · intro j' i call hserves hi
    rcases serves_exchanged hserves with hold | ⟨rfl, hk⟩
    · exact h.unaccused j' i call hold hi
    · obtain ⟨token, hi', -⟩ := hnew.refresh i hk
      cases hi'.symm.trans hi
      rfl

/-- The guard on the arrival of a refresh, at the service before it. -/
theorem settled_of_guard {email : Option String} {f : Flow} {token : String} {i : ℕ}
    (hg : retriesSettled cfg w (.arrive j n email) = true) (hf : w.client.flows[j]? = some f)
    (hkind : f.kind = .refresh token) (hserves : Serves w j i) :
    rejected w.server (.refresh i) = true ∧ rotated cfg w.server token = false := by
  obtain ⟨e, he, rfl, hcall⟩ := hserves
  simp only [retriesSettled, hf, Option.map_some, hkind, List.all_eq_true] at hg
  simpa [hcall] using hg e he

theorem Inv.arrive_step (h : Inv cfg w) {email : Option String} {f : Flow}
    {b : AuthService.Action} {t : State} (hg : Guard cfg w (.arrive j n email))
    (hf : w.client.flows[j]? = some f) (hstart : request w.server email f.kind = some (b, k))
    (hs : AuthService.step cfg w.server b = some t) :
    Inv cfg { w with server := t, exchanges := w.exchanges ++ [⟨j, n, k⟩] } := by
  cases hkind : f.kind with
  | request =>
      rw [hkind] at hstart
      cases hstart
  | signIn =>
      rw [hkind] at hstart
      cases hstart
      have hfree : Guard cfg w (.server (.signIn email)) := ⟨rfl, rfl, rfl⟩
      have hmid : Inv cfg { w with server := t } := h.server_step hfree hs
      cases hs
      refine hmid.exchanged ⟨?_, ?_, ?_, ?_, ?_⟩
      · intro e he hcall
        exact Nat.lt_irrefl _ (h.signIns e he _ hcall)
      · intro hload
        obtain ⟨⟨response, hk⟩, -⟩ := h.loaded _ hload
        simp [issue] at hk
      · simp [issue, signInIssue]
      · intro i hk
        cases hk
        simp
      · intro i hk
        cases hk
  | refresh token =>
      have hprior := fun i => settled_of_guard hg.2.2 hf hkind (i := i)
      rw [hkind] at hstart
      cases hstart
      have hkeep := fun i => rejected_kept hs (i := i)
      have hfree : Guard cfg w (.server (.refresh token)) := ⟨rfl, rfl, rfl⟩
      have hmid : Inv cfg { w with server := t } := h.server_step hfree hs
      cases hs
      refine hmid.exchanged ⟨?_, ?_, ?_, ?_, ?_⟩
      · intro e he hcall
        obtain ⟨call, hi, -⟩ := h.refreshes e.flow _ ⟨e, he, rfl, hcall⟩
        simp at hi
      · intro hload
        obtain ⟨⟨response, hk⟩, -⟩ := h.loaded _ hload
        simp [issue] at hk
      · simp [issue, refreshIssue]
      · intro i hk
        cases hk
      · intro i hk
        cases hk
        refine ⟨token, by simp, presented_iff.mpr ⟨f, hf, hkind⟩, fun i' hserves => ?_⟩
        exact ⟨hkeep i' (hprior i' hserves).1, (hprior i' hserves).2⟩

end Arrival

theorem inv_step {a : Action} (h : Inv cfg w) (hg : Guard cfg w a) (hs : step cfg w a = some w') :
    Inv cfg w' := by
  cases step_effect hs with
  | client b c moved heard eq => exact eq ▸ h.client_step moved heard
  | arrived j n email f b call s action flow started moved eq =>
      subst action
      exact eq ▸ h.arrive_step hg flow started moved
  | server b s action moved eq =>
      subst action
      exact eq ▸ h.server_step hg moved

/-- Nothing is known to a client at its start but the pair it was started with. -/
theorem inv_starts (h : Starts cfg w) : Inv cfg w := by
  have hledger := ledger_run h.server
  have hnone : ∀ e, e ∉ w.exchanges := fun e => by simp [h.idle]
  have hserves : ∀ j i, ¬ Serves w j i := fun j i ⟨e, he, _⟩ => hnone e he
  have hloaded : ∀ k, owns w k = true → w.loaded = some k := by
    intro k hown
    exact (owns_iff.mp hown).resolve_right fun ⟨e, he, _⟩ => hnone e he
  have hclient : ∃ stored, w.client = APIClient.init stored := by
    rcases h.session with ⟨_, hc⟩ | ⟨_, _, _, _, _, hc, _⟩ <;> exact ⟨_, hc⟩
  obtain ⟨stored, hclient⟩ := hclient
  have hactive : ∀ k x, w.loaded = some k → issue w.server k = some x → ∃ row,
      w.server.refreshTokens.findUnique (cfg.hashRefreshToken x.token) = some row ∧
        row.revokedAt = none := by
    intro k x hload hk
    rcases h.session with ⟨hno, -⟩ | ⟨k', response, row, hload', hissue, -, hrow, hrev⟩
    · rw [hno] at hload
      cases hload
    · cases hload.symm.trans hload'
      cases hissue.symm.trans hk
      exact ⟨row, hrow, hrev⟩
  refine
    { client := hclient ▸ RefreshFlights.inv_init stored
      ledger := hledger
      refreshes := fun j i hs => (hserves j i hs).elim
      signIns := fun e he => (hnone e he).elim
      distinct := fun e he => (hnone e he).elim
      loaded := ?_
      known := ?_
      revoked := ?_
      rotator := ?_
      single := fun j i i' hs => (hserves j i hs).elim
      looking := fun j i token hs => (hserves j i hs).elim
      unaccused := fun j i call hs => (hserves j i hs).elim }
  · intro k hload
    refine ⟨?_, fun e he => (hnone e he).elim⟩
    rcases h.session with ⟨hno, -⟩ | ⟨k', response, -, hload', hissue, -⟩
    · rw [hno] at hload
      cases hload
    · cases hload.symm.trans hload'
      exact ⟨response, hissue⟩
  · intro token hknown
    have hpair : ∃ pair, w.client.tokens = some pair ∧ pair.refreshToken = token := by
      cases hknown with
      | held pair tokens eq => exact ⟨pair, tokens, eq⟩
      | presented task sent =>
          rw [hclient] at sent
          simp [presented, APIClient.init] at sent
      | answered j f pair flow value eq =>
          rw [hclient] at flow
          simp [APIClient.init] at flow
    obtain ⟨pair, hheld, rfl⟩ := hpair
    rcases h.session with ⟨-, hc⟩ | ⟨k, response, -, hload, hissue, hc, -⟩
    · rw [hc] at hheld
      cases hheld
    · rw [hc] at hheld
      cases hheld
      exact ⟨k, response, .inl hload, hissue, rfl⟩
  · intro k x r hown hk hx hr hrev
    obtain ⟨row, hrow, hnot⟩ := hactive k x (hloaded k hown) hk
    cases hrow.symm.trans hr
    rw [hnot] at hrev
    cases hrev
  · intro k x hown hk hx hrot
    obtain ⟨row, hrow, hnot⟩ := hactive k x (hloaded k hown) hk
    obtain ⟨ρ, hρ, hpresented⟩ := rotated_iff.mp hrot
    obtain ⟨r, hr, hrev⟩ := hledger.rotated ρ hρ
    rw [hpresented] at hr
    cases hrow.symm.trans hr
    rw [hnot] at hrev
    cases hrev

theorem Inv.trusted (h : Inv cfg w) : Trusted cfg w := by
  refine ⟨h.unaccused, ?_, ?_⟩
  · intro k x hown hk hx
    obtain ⟨row, hrow⟩ := h.ledger.row k x hk hx
    refine ⟨row, hrow, fun hrev => ?_⟩
    have hrot := h.revoked k x row hown hk hx hrow hrev
    exact ⟨hrot, h.rotator k x hown hk hx hrot⟩
  · intro pair hheld
    rw [Client.held, h.client.synced, Option.or_self, ← h.client.synced] at hheld
    obtain ⟨k, response, hdel, hk, hsame⟩ := h.known _ (.held pair hheld rfl)
    exact ⟨k, response, hdel.owns, hk, hsame⟩

/-- In every run in which a retried refresh reaches the service only after its earlier requests
were rejected, and the theft response to others spares the client, the client is never taken
for a thief. -/
theorem honest_client_trusted (cfg : TokenService) {w₀ w : World} (h₀ : Starts cfg w₀)
    (h : Run (step cfg) (Guard cfg) w₀ w) : Trusted cfg w :=
  (h.invariant (inv_starts h₀) fun _ _ _ hi hg hs => inv_step hi hg hs).trusted

/-- A client and a service without any history. -/
def empty : World := ⟨APIClient.init none, AuthService.init, [], none⟩

theorem starts_empty (cfg : TokenService) : Starts cfg empty :=
  ⟨.refl _, rfl, .inl ⟨rfl, rfl⟩⟩

def signInSchedule : List Action :=
  [.client (.call .signIn), .client (.resume 0), .arrive 0 1 none,
    .server (.stepSignIn 0 { identity := some ⟨"apple-sub-1", none⟩ }),
    .server (.stepSignIn 0 { random := "token-1", newUserId := "user-1" }),
    .server (.stepSignIn 0 {}), .server (.stepSignIn 0 {}), .answer 0 .other]

/-- A request is answered 401, and its refresh reaches the service. -/
def refreshSchedule : List Action :=
  [.client (.call .request), .client (.resume 1), .lose 1 (.http 401 {}), .client (.resume 2),
    .arrive 2 1 none, .server (.stepRefresh 0 {})]

/-- The database rejects the lookup of the user, and the retry is served. -/
def servedSchedule : List Action :=
  [.server (.failRefresh 0), .answer 2 .database, .client (.resume 2), .arrive 2 2 none,
    .server (.stepRefresh 1 {}), .server (.stepRefresh 1 { random := "token-2" }),
    .server (.stepRefresh 1 {}), .server (.stepRefresh 1 {}), .answer 2 .other,
    .client (.resume 1)]

/-- The rotation commits, its answer is lost, and the client sends the same token again. -/
def lostSchedule : List Action :=
  [.server (.stepRefresh 0 { random := "token-2" }), .server (.stepRefresh 0 {}),
    .server (.stepRefresh 0 {}), .lose 2 (.failed "The network connection was lost."),
    .client (.resume 2), .arrive 2 2 none, .server (.stepRefresh 1 {})]

theorem honest_client_trusted_demo :
    ∃ w, Run (step RotationRuns.demo) (Guard RotationRuns.demo) empty w ∧
      w.client.tokens.map TokenPair.refreshToken = some "token-2" ∧ w.exchanges.length = 3 ∧
        Trusted RotationRuns.demo w := by
  have hend : (execWhere (step RotationRuns.demo) (Guard RotationRuns.demo)
      (signInSchedule ++ refreshSchedule ++ servedSchedule) empty).any (fun w =>
        w.client.tokens.map TokenPair.refreshToken = some "token-2" ∧ w.exchanges.length = 3) =
          true := by decide
  obtain ⟨w, hw, hp⟩ := execWhere_any hend
  obtain ⟨htokens, hlength⟩ := of_decide_eq_true hp
  exact ⟨w, hw, htokens, hlength, honest_client_trusted _ (starts_empty _) hw⟩

/-- One lost answer suffices: the retry is in the reuse branch, about to revoke the session
that the client holds. -/
theorem lost_answer_accuses_client :
    ¬ ∀ (cfg : TokenService) (w₀ w : World), Starts cfg w₀ →
      Run (step cfg) (SoleHolder cfg) w₀ w → Trusted cfg w := by
  intro h
  have hend : (execWhere (step RotationRuns.demo) (SoleHolder RotationRuns.demo)
      (signInSchedule ++ refreshSchedule ++ lostSchedule) empty).any (fun w =>
        (w.server.refreshCalls[1]?.any fun call => accused call.pc) &&
          decide (⟨2, 2, .refresh 1⟩ ∈ w.exchanges)) = true := by decide
  obtain ⟨w, hw, hp⟩ := execWhere_any hend
  obtain ⟨haccused, hmem⟩ := Bool.and_eq_true_iff.mp hp
  obtain ⟨call, hi, hcall⟩ := (Option.any_eq_true _ _).mp haccused
  have hserves : Serves w 2 1 := ⟨_, of_decide_eq_true hmem, rfl, rfl⟩
  have hnot := (h _ empty w (starts_empty _) hw).unaccused 2 1 call hserves hi
  rw [hcall] at hnot
  cases hnot

end FieldNote.HonestClient
