import FieldNote.SessionIsolation

/-!
# The auth gate

`SessionStore` owns the phase that the root view switches over. It learns what the client
actor has done by jobs that it sends to the main actor: the rest of `bootstrap`, of a sign-in
and of a sign-out, and the auth-expired handler. A world is the client, the store, the main
actor's jobs and how far `bootstrap` has come; a kill ends the process and keeps the keychain.
The nonce of a sign-in and the credential's email play no part here.
-/
namespace FieldNote.AuthGate
open APIClient CallPool GuardedRuns SessionIsolation

inductive Phase where
  | loading
  | signedOut
  | signedIn (userId : String)
deriving DecidableEq, Repr

/-- A job of the main actor. -/
inductive MainJob where
  | restored (userId : Option String)
  | exchanged (pair : TokenPair)
  | refused (failure : Failure)
  | signedOut
  | expired
deriving DecidableEq, Repr

/-- What `SignInWithAppleButton` delivers: an identity token, if it is one that can be read,
or an error. -/
inductive AppleResult where
  | success (identityToken : Option String)
  | failure (canceled : Bool) (localizedDescription : String)
deriving DecidableEq, Repr

structure SessionStore where
  phase : Phase := .loading
  errorMessage : Option String := none
  isAuthenticating : Bool := false
deriving DecidableEq, Repr

/-- `errorDescription` of an `APIError`. -/
def errorDescription : APIError → String
  | .invalidURL => "The request address was invalid."
  | .unauthorized => "Your session expired. Please sign in again."
  | .server status detail =>
      detail.getD ("The server returned an error (" ++ toString status ++ ").")
  | .decoding message => "Unexpected response from the server. " ++ message
  | .transport message => "Network problem: " ++ message

namespace SessionStore

/-- A job of the main actor, with the system's own text for an error that has no other. -/
def perform (s : SessionStore) (localizedDescription : String) : MainJob → SessionStore
  | .restored (some userId) => { s with phase := .signedIn userId }
  | .restored none => { s with phase := .signedOut }
  | .exchanged pair =>
      { phase := .signedIn pair.userId, errorMessage := none, isAuthenticating := false }
  | .refused (.api error) =>
      { s with errorMessage := some (errorDescription error), isAuthenticating := false }
  | .refused .cancelled =>
      { s with errorMessage := some localizedDescription, isAuthenticating := false }
  | .signedOut => { s with phase := .signedOut }
  | .expired =>
      { s with
        phase := .signedOut
        errorMessage := some "Your session expired. Please sign in again." }

end SessionStore

/-- How far `bootstrap` has come: before `setAuthExpiredHandler`, after it, and after the read
of `currentUserId`. -/
inductive Boot where
  | launched
  | registered
  | read
deriving DecidableEq, Repr

structure World where
  client : Client
  session : SessionStore
  main : List MainJob
  boot : Boot
deriving DecidableEq, Repr

/-- A launched process, with what the keychain holds. -/
def launch (stored : Option TokenPair) : World := ⟨init stored, {}, [], .launched⟩

inductive Action where
  | bootstrap
  | currentUserId
  | completeSignIn (result : AppleResult)
  | api (a : APIClient.Action)
  | main (k : ℕ) (localizedDescription : String)
  | relaunch
deriving DecidableEq, Repr

/-- The rest of `exchange`, once its flow has ended. -/
def ended (c : Client) (i : ℕ) : List MainJob :=
  match c.flows[i]? with
  | none => []
  | some f =>
      match f.kind, f.pc with
      | .signIn, .returned (some pair) => [.exchanged pair]
      | .signIn, .threw failure => [.refused failure]
      | _, _ => []

/-- What a step of the client from `c` to `d` sends to the main actor. Only the store signs
out, so that the rest of its `signOut` follows. -/
def posted (boot : Boot) (c d : Client) : APIClient.Action → List MainJob
  | .signOut => [.signedOut]
  | .receive i _ | .resume i =>
      ended d i ++ if boot ≠ .launched ∧ c.authExpired < d.authExpired then [.expired] else []
  | .call _ | .cancel _ => []

def step (w : World) : Action → Option World
  | .bootstrap => if w.boot = .launched then some { w with boot := .registered } else none
  | .currentUserId =>
      if w.boot = .registered then
        some { w with
          boot := .read
          main := w.main ++ [.restored (w.client.tokens.map TokenPair.userId)] }
      else none
  | .completeSignIn (.failure canceled message) =>
      if canceled then some w
      else some { w with session := { w.session with errorMessage := some message } }
  | .completeSignIn (.success none) =>
      some { w with
        session := { w.session with
          errorMessage := some "Apple sign-in did not return a valid token." } }
  | .completeSignIn (.success (some _)) =>
      (APIClient.step w.client (.call .signIn)).map fun d =>
        { w with client := d, session := { w.session with isAuthenticating := true } }
  | .api a =>
      if a = .call .signIn then none
      else (APIClient.step w.client a).map fun d =>
        { w with client := d, main := w.main ++ posted w.boot w.client d a }
  | .main k localizedDescription =>
      w.main[k]?.map fun job =>
        { w with
          session := w.session.perform localizedDescription job
          main := w.main.eraseIdx k }
  | .relaunch => some (launch w.client.storage)

/-- The server answers a sign-in with a pair of the user that the pair names, and a refresh
with a pair of the user whose refresh token was sent. -/
def honest (owner : String → String) (c : Client) : APIClient.Action → Bool
  | .receive i (.http _ body) =>
      body.token.all fun token =>
        decide (owner token.refreshToken = token.userId) &&
          match c.flows[i]?.map Flow.kind with
          | some (.refresh sent) => decide (token.userId = owner sent)
          | _ => true
  | _ => true

/-- The main actor runs its jobs in the order in which they were sent, refreshes stay in their
sessions, and the server is honest about the users. -/
def Guard (owner : String → String) (w : World) : Action → Prop
  | .api a => SessionIsolation.Guard w.client a ∧ honest owner w.client a = true
  | .main k _ => k = 0
  | _ => True

instance (owner : String → String) : DecidableRel (Guard owner) := fun _ a =>
  match a with
  | .api _ => inferInstanceAs (Decidable (_ ∧ _))
  | .main _ _ => inferInstanceAs (Decidable (_ = _))
  | .bootstrap | .currentUserId | .completeSignIn _ | .relaunch => .isTrue trivial

section Phases

/-- The phase after a job. -/
def phaseAfter (phase : Phase) : MainJob → Phase
  | .restored (some userId) => .signedIn userId
  | .restored none => .signedOut
  | .exchanged pair => .signedIn pair.userId
  | .refused _ => phase
  | .signedOut => .signedOut
  | .expired => .signedOut

/-- The phase once the main actor has run all its jobs. -/
def settled (w : World) : Phase := w.main.foldl phaseAfter w.session.phase

/-- The phase of a client that holds these tokens. -/
def phaseOf : Option TokenPair → Phase
  | none => .signedOut
  | some pair => .signedIn pair.userId

@[simp] theorem perform_phase (s : SessionStore) (text : String) (job : MainJob) :
    (s.perform text job).phase = phaseAfter s.phase job := by
  cases job with
  | restored userId => cases userId <;> rfl
  | refused failure => cases failure <;> rfl
  | _ => rfl

theorem restored_phase (phase : Phase) (tokens : Option TokenPair) :
    phaseAfter phase (.restored (tokens.map TokenPair.userId)) = phaseOf tokens := by
  cases tokens <;> rfl

/-- Jobs that only show an error. -/
def Quiet (jobs : List MainJob) : Prop := ∀ job ∈ jobs, ∃ failure, job = .refused failure

theorem foldl_quiet {jobs : List MainJob} (h : Quiet jobs) (phase : Phase) :
    jobs.foldl phaseAfter phase = phase := by
  induction jobs with
  | nil => rfl
  | cons job jobs ih =>
      obtain ⟨failure, rfl⟩ := h job List.mem_cons_self
      exact ih fun other hother => h other (List.mem_cons_of_mem _ hother)

end Phases

section Jobs

variable {c d : Client} {a : APIClient.Action} {boot : Boot}

theorem mem_ended {i : ℕ} {pair : TokenPair} (h : .exchanged pair ∈ ended c i) :
    ∃ f, c.flows[i]? = some f ∧ f.kind = .signIn ∧ f.pc = .returned (some pair) := by
  unfold ended at h
  split at h
  · cases h
  · rename_i f hf
    split at h
    · rename_i p hkind hpc
      cases List.mem_singleton.mp h
      exact ⟨f, hf, hkind, hpc⟩
    · cases List.mem_singleton.mp h
    · cases h

/-- A flow that goes on has not ended. -/
theorem flow_live {i : ℕ} (ha : a = .resume i ∨ ∃ reply, a = .receive i reply)
    (hs : APIClient.step c a = some d) :
    ∃ f, c.flows[i]? = some f ∧ ∀ pair, f.pc ≠ .returned pair := by
  rcases ha with rfl | ⟨reply, rfl⟩
  · obtain ⟨f, hf, hs⟩ := Option.bind_eq_some_iff.mp hs
    refine ⟨f, hf, fun pair hpc => ?_⟩
    simp [Client.resume, hpc] at hs
  · obtain ⟨f, hf, hs⟩ := Option.bind_eq_some_iff.mp hs
    refine ⟨f, hf, fun pair hpc => ?_⟩
    simp [hpc] at hs

/-- Outside 2xx an answered sign-in has no pair. -/
theorem receive_unpaired {i status : ℕ} {f : Flow} {body : Body} {pair : TokenPair}
    (hf : c.flows[i]? = some f) (hkind : f.kind = .signIn)
    (hstatus : ¬ (200 ≤ status ∧ status < 300)) :
    ∀ g, (c.receive i f (.http status body)).flows[i]? = some g → g.pc ≠ .returned (some pair) := by
  intro g hg hpc
  simp only [Client.receive, hkind, reduceCtorEq, false_and, and_false, if_false,
    if_neg hstatus] at hg
  split_ifs at hg
  · rw [Client.setFlow, getElem?_set_same hf] at hg
    cases hg
    unfold Flow.retryOr at hpc
    split_ifs at hpc <;> cases hpc
  · rw [Client.setFlow, getElem?_set_same hf] at hg
    cases hg
    cases hpc

/-- Only a sign-in that applies its pair has the store show a user. -/
theorem ended_quiet {i : ℕ} (ha : a = .resume i ∨ ∃ reply, a = .receive i reply)
    (hs : APIClient.step c a = some d) (hno : signsIn c a = false) : Quiet (ended d i) := by
  have hexchanged : ∀ pair, .exchanged pair ∉ ended d i := by
    intro pair hmem
    obtain ⟨g, hg, hkind, hpc⟩ := mem_ended hmem
    obtain ⟨f, hf, hlive⟩ := flow_live ha hs
    have hvalue : g.value = some (.ok pair) := by simp [Flow.value, hpc]
    obtain ⟨f', hf', hkind', hval⟩ :=
      flow_before (flow_effect hs) hg (lt_of_getElem? hf)
    obtain rfl : f = f' := Option.some.inj (hf.symm.trans hf')
    rcases hval pair hvalue with hended | ⟨status, body, token, haction, htoken, rfl⟩
    · unfold Flow.value at hended
      split at hended
      · rename_i p hreturned
        exact hlive _ hreturned
      · cases hended
      · cases hended
    · subst haction
      have hstatus : ¬ (200 ≤ status ∧ status < 300) := by
        intro hok
        have hyes : signsIn c (.receive i (.http status body)) = true :=
          signsIn_iff.mpr ⟨i, status, body, f, token, rfl, hf, hkind'.symm.trans hkind, htoken, hok⟩
        rw [hyes] at hno
        cases hno
      simp only [APIClient.step, hf, Option.bind_some] at hs
      split at hs
      · rw [if_neg (by simp)] at hs
        cases hs
        exact receive_unpaired hf (hkind'.symm.trans hkind) hstatus g hg hpc
      · cases hs
  intro job hjob
  cases job with
  | refused failure => exact ⟨failure, rfl⟩
  | exchanged pair => exact (hexchanged pair hjob).elim
  | _ =>
      unfold ended at hjob
      split at hjob
      · cases hjob
      · split at hjob
        · cases List.mem_singleton.mp hjob
        · cases List.mem_singleton.mp hjob
        · cases hjob

/-- What a step of the client makes of the tokens, and what it tells the main actor. -/
inductive Told (c : Client) (a : APIClient.Action) (d : Client) : List MainJob → Prop where
  | kept (jobs : List MainJob) (quiet : Quiet jobs) (tokens : d.tokens = c.tokens) : Told c a d jobs
  | signedIn (pair : TokenPair) (answer : ∃ i, Answers a i pair) (tokens : d.tokens = some pair) :
      Told c a d [.exchanged pair]
  | applied (jobs : List MainJob) (quiet : Quiet jobs) (i task : ℕ) (f g : Flow)
      (pair : TokenPair) (action : a = .resume i) (flow : c.flows[i]? = some f)
      (pc : f.pc = .starting task) (done : c.flows[task]? = some g)
      (value : g.value = some (.ok pair)) (tokens : d.tokens = some pair) : Told c a d jobs
  | out (tokens : d.tokens = none) : Told c a d [.signedOut]
  | expired (jobs : List MainJob) (quiet : Quiet jobs) (tokens : d.tokens = none) :
      Told c a d (jobs ++ [.expired])

/-- The jobs of a step that signs nobody in and ends no session. -/
theorem posted_quiet (hs : APIClient.step c a = some d) (hno : signsIn c a = false)
    (hout : a ≠ .signOut) (hreports : d.authExpired = c.authExpired) :
    Quiet (posted boot c d a) := by
  have hnot : ¬ (boot ≠ .launched ∧ c.authExpired < d.authExpired) := by omega
  cases a with
  | signOut => exact (hout rfl).elim
  | call kind => exact fun _ h => by cases h
  | cancel i => exact fun _ h => by cases h
  | resume i =>
      simpa [posted, hnot] using ended_quiet (.inl rfl) hs hno
  | receive i reply =>
      simpa [posted, hnot] using ended_quiet (.inr ⟨reply, rfl⟩) hs hno

theorem told (hsync : c.tokens = c.storage) (hboot : boot ≠ .launched)
    (hs : APIClient.step c a = some d) : Told c a d (posted boot c d a) := by
  cases hsign : signsIn c a with
  | true =>
      obtain ⟨i, status, body, f, token, rfl, hf, hkind, ht, hok⟩ := signsIn_iff.mp hsign
      simp only [APIClient.step, hf, Option.bind_some] at hs
      split at hs
      · rw [if_neg (by simp)] at hs
        cases hs
        have hd : c.receive i f (.http status body) =
            (c.setFlow i (f.goto (.returned (some (pairOf token))))).applyTokens
              (pairOf token) := by
          simp [Client.receive, Client.complete, hkind, hok, ht]
        have hjobs : posted boot c (c.receive i f (.http status body))
            (.receive i (.http status body)) = [.exchanged (pairOf token)] := by
          rw [hd]
          simp [posted, ended, Client.applyTokens, Client.setFlow, getElem?_set_same hf,
            Flow.goto, hkind]
        rw [hjobs, hd]
        exact .signedIn _ ⟨i, status, body, token, rfl, ht, rfl⟩ rfl
      · cases hs
  | false =>
      have hkept : a ≠ .signOut → d.tokens = c.tokens → d.authExpired = c.authExpired →
          Told c a d (posted boot c d a) := fun hout htokens hreports =>
        .kept _ (posted_quiet hs hsign hout hreports) htokens
      by_cases hout : a = .signOut
      · subst hout
        cases hs
        exact .out rfl
      cases step_effect hs with
      | moved i f f' tokens flow live kind next loaded eq =>
          refine hkept hout ?_ (eq ▸ rfl)
          subst eq
          rcases loaded with rfl | rfl
          · rfl
          · show c.held = c.tokens
            rw [Client.held, ← hsync, Option.or_self]
      | called kind kind_ne eq => exact hkept hout (eq ▸ rfl) (eq ▸ rfl)
      | marked i f flow eq => exact hkept hout (eq ▸ rfl) (eq ▸ rfl)
      | joined i task f f' flow live kind pc current eq => exact hkept hout (eq ▸ rfl) (eq ▸ rfl)
      | started i f f' current flow live kind pc idle held eq =>
          exact hkept hout (eq ▸ rfl) (eq ▸ rfl)
      | signedOut action eq => exact (hout action).elim
      | signedIn i f status body token action ok flow live kind decoded eq =>
          have hyes : signsIn c a = true :=
            signsIn_iff.mpr ⟨i, status, body, f, token, action, flow, kind, decoded, ok⟩
          rw [hyes] at hsign
          cases hsign
      | applied i task f f' g pair action flow pc done value kind next eq =>
          refine .applied _ (posted_quiet hs hsign hout (eq ▸ rfl)) i task f g pair action flow pc
            done value (eq ▸ rfl)
      | expired i task f g failure action flow pc done value eq =>
          have hquiet := ended_quiet (.inl action) hs hsign
          have hreports : boot ≠ .launched ∧ c.authExpired < d.authExpired :=
            ⟨hboot, by rw [eq]; exact Nat.lt_succ_self _⟩
          subst action
          rw [posted, if_pos hreports]
          exact .expired _ hquiet (eq ▸ rfl)

end Jobs

section Owners

variable {owner : String → String} {c d : Client} {a : APIClient.Action}

/-- Pairs belong to the user that they name: the one that is held, and the one that a refresh
has brought, which is the user whose refresh token it sent. -/
structure Owned (owner : String → String) (c : Client) : Prop where
  synced : c.tokens = c.storage
  held : ∀ pair, c.tokens = some pair → owner pair.refreshToken = pair.userId
  brought : ∀ (task : ℕ) (g : Flow) (sent : String) (pair : TokenPair),
    c.flows[task]? = some g → g.kind = .refresh sent → g.value = some (.ok pair) →
      owner pair.refreshToken = pair.userId ∧ pair.userId = owner sent

theorem honest_answer {i : ℕ} {pair : TokenPair} (hg : honest owner c a = true)
    (h : Answers a i pair) : owner pair.refreshToken = pair.userId ∧
      ∀ f sent, c.flows[i]? = some f → f.kind = .refresh sent → pair.userId = owner sent := by
  obtain ⟨status, body, token, rfl, ht, rfl⟩ := h
  simp only [honest, ht, Option.all_some, Bool.and_eq_true, decide_eq_true_eq] at hg
  refine ⟨hg.1, fun f sent hf hkind => ?_⟩
  simpa [hf, hkind, pairOf] using hg.2

/-- The pair that a starter applies is one of the user whose tokens the client holds. -/
theorem applied_user (h : Owned owner c) {i task : ℕ} {f g : Flow} {pair : TokenPair}
    (hg : SessionIsolation.Guard c (.resume i)) (hf : c.flows[i]? = some f)
    (hpc : f.pc = .starting task) (hdone : c.flows[task]? = some g)
    (hv : g.value = some (.ok pair)) :
    owner pair.refreshToken = pair.userId ∧
      ∃ held, c.tokens = some held ∧ held.userId = pair.userId := by
  obtain ⟨held, hheld, hsent⟩ := presented_of_guard hf hpc hdone hv hg
  obtain ⟨g', hg', hkind⟩ := presented_iff.mp hsent
  obtain rfl : g = g' := Option.some.inj (hdone.symm.trans hg')
  obtain ⟨howner, huser⟩ := h.brought task g held.refreshToken pair hdone hkind hv
  exact ⟨howner, held, hheld, (h.held held hheld).symm.trans huser.symm⟩

theorem owned_step {boot : Boot} (h : Owned owner c) (hboot : boot ≠ .launched)
    (hg : SessionIsolation.Guard c a) (hh : honest owner c a = true)
    (hs : APIClient.step c a = some d) : Owned owner d := by
  have hflow := flow_effect hs
  refine ⟨synced_step h.synced hs, ?_, ?_⟩
  · intro pair hpair
    have htold := told h.synced hboot hs
    generalize posted boot c d a = jobs at htold
    cases htold with
    | kept jobs quiet tokens => exact h.held pair (tokens ▸ hpair)
    | signedIn pair' answer tokens =>
        obtain ⟨i, hans⟩ := answer
        obtain rfl : pair' = pair := Option.some.inj (tokens.symm.trans hpair)
        exact (honest_answer hh hans).1
    | applied jobs quiet i task f g pair' action flow pc done value tokens =>
        obtain rfl : pair' = pair := Option.some.inj (tokens.symm.trans hpair)
        subst action
        exact (applied_user h hg flow pc done value).1
    | out tokens =>
        rw [tokens] at hpair
        cases hpair
    | expired jobs quiet tokens =>
        rw [tokens] at hpair
        cases hpair
  · intro task g sent pair hg' hkind hv
    by_cases hlt : task < c.flows.length
    · obtain ⟨f, hf, hsame, hval⟩ := flow_before hflow hg' hlt
      rcases hval pair hv with hbefore | hans
      · exact h.brought task f sent pair hf (hsame.symm.trans hkind) hbefore
      · obtain ⟨howner, huser⟩ := honest_answer hh hans
        exact ⟨howner, huser f sent hf (hsame.symm.trans hkind)⟩
    · rw [flow_new hflow hg' (by omega)] at hv
      cases hv

theorem owned_init {stored : Option TokenPair}
    (h : ∀ pair, stored = some pair → owner pair.refreshToken = pair.userId) :
    Owned owner (init stored) :=
  ⟨rfl, h, fun task g sent pair hg => by cases hg⟩

end Owners

section Runs

variable {owner : String → String} {w w' : World}

/-- Once `bootstrap` has read the session, the phase that the jobs lead to is the one of the
tokens that the client holds. -/
structure Inv (owner : String → String) (w : World) : Prop where
  owned : Owned owner w.client
  phase : w.boot = .read → settled w = phaseOf w.client.tokens

theorem api_inv {d : Client} {a : APIClient.Action} (h : Inv owner w)
    (hg : SessionIsolation.Guard w.client a) (hh : honest owner w.client a = true)
    (hs : APIClient.step w.client a = some d) :
    Inv owner { w with client := d, main := w.main ++ posted w.boot w.client d a } := by
  refine ⟨owned_step h.owned (show Boot.read ≠ .launched by decide) hg hh hs, fun hboot => ?_⟩
  have hbefore : w.main.foldl phaseAfter w.session.phase = phaseOf w.client.tokens :=
    h.phase hboot
  have hread : w.boot ≠ .launched := by
    rw [hboot]
    decide
  have htold := told h.owned.synced hread hs
  show (w.main ++ posted w.boot w.client d a).foldl phaseAfter w.session.phase = phaseOf d.tokens
  rw [List.foldl_append, hbefore]
  generalize posted w.boot w.client d a = jobs at htold
  cases htold with
  | kept jobs quiet tokens => rw [foldl_quiet quiet, tokens]
  | signedIn pair answer tokens =>
      rw [tokens]
      rfl
  | applied jobs quiet i task f g pair action flow pc done value tokens =>
      subst action
      obtain ⟨-, held, hheld, huser⟩ := applied_user h.owned hg flow pc done value
      rw [foldl_quiet quiet, hheld, tokens, phaseOf, phaseOf, huser]
  | out tokens =>
      rw [tokens]
      rfl
  | expired jobs quiet tokens =>
      rw [List.foldl_append, foldl_quiet quiet, tokens]
      rfl

theorem inv_step {a : Action} (h : Inv owner w) (hg : Guard owner w a)
    (hs : step w a = some w') : Inv owner w' := by
  cases a with
  | bootstrap =>
      simp only [step] at hs
      split_ifs at hs
      cases hs
      exact ⟨h.owned, fun hboot => by cases hboot⟩
  | currentUserId =>
      simp only [step] at hs
      split_ifs at hs
      cases hs
      refine ⟨h.owned, fun _ => ?_⟩
      simp only [settled, List.foldl_append, List.foldl_cons, List.foldl_nil, restored_phase]
  | completeSignIn result =>
      cases result with
      | success identityToken =>
          cases identityToken with
          | none =>
              cases hs
              exact ⟨h.owned, h.phase⟩
          | some token =>
              simp only [step] at hs
              obtain ⟨d, hd, rfl⟩ := Option.map_eq_some_iff.mp hs
              have hcall : SessionIsolation.Guard w.client (.call .signIn) := rfl
              have howned : Owned owner d :=
                owned_step h.owned (show Boot.read ≠ .launched by decide) hcall rfl hd
              cases hd
              exact ⟨howned, h.phase⟩
      | failure canceled message =>
          simp only [step] at hs
          split_ifs at hs
          · cases hs
            exact h
          · cases hs
            exact ⟨h.owned, h.phase⟩
  | api a =>
      simp only [step] at hs
      split_ifs at hs
      obtain ⟨d, hd, rfl⟩ := Option.map_eq_some_iff.mp hs
      exact api_inv h hg.1 hg.2 hd
  | main k text =>
      obtain ⟨job, hjob, rfl⟩ := Option.map_eq_some_iff.mp hs
      obtain rfl : k = 0 := hg
      refine ⟨h.owned, fun hboot => ?_⟩
      have hbefore := h.phase hboot
      cases hmain : w.main with
      | nil =>
          rw [hmain] at hjob
          cases hjob
      | cons first rest =>
          rw [hmain] at hjob
          obtain rfl : first = job := Option.some.inj hjob
          simpa [settled, hmain] using hbefore
  | relaunch =>
      cases hs
      refine ⟨owned_init fun pair hpair => ?_, fun hboot => by cases hboot⟩
      exact h.owned.held pair (h.owned.synced.trans hpair)

/-- The actions of a kill and of the next launch up to the first phase that is shown. -/
def restart : List Action := [.relaunch, .bootstrap, .currentUserId, .main 0 ""]

theorem restart_phase (h : w.client.tokens = w.client.storage) :
    ∃ u, exec step restart w = some u ∧ u.session.phase = phaseOf w.client.tokens := by
  refine ⟨_, rfl, ?_⟩
  rw [h]
  cases w.client.storage <;> rfl

/-- In every run, kills included, once `bootstrap` has read the session and the main actor has
no job left the gate shows exactly whose tokens the client and the keychain hold, and a kill
and a new launch lead to the same phase. -/
theorem gate_agrees {stored : Option TokenPair}
    (hstored : ∀ pair, stored = some pair → owner pair.refreshToken = pair.userId)
    (h : Run step (Guard owner) (launch stored) w) (hboot : w.boot = .read)
    (hidle : w.main = []) :
    w.session.phase = phaseOf w.client.tokens ∧ w.client.tokens = w.client.storage ∧
      ∃ u, exec step restart w = some u ∧ u.session.phase = w.session.phase := by
  have hinv : Inv owner w :=
    h.invariant ⟨owned_init hstored, fun hread => by cases hread⟩
      fun _ _ _ hi hg hs => inv_step hi hg hs
  have hphase : w.session.phase = phaseOf w.client.tokens := by
    simpa [settled, hidle] using hinv.phase hboot
  rw [hphase]
  exact ⟨rfl, hinv.owned.synced, restart_phase hinv.owned.synced⟩

end Runs

section Demo

def user : String → String
  | "refresh-1" | "refresh-2" => "user-1"
  | _ => "user-2"

/-- A request of the restored user is refreshed; the user signs out during it, the app is
killed, and another user signs in. -/
def handover : List Action :=
  [.bootstrap, .currentUserId, .main 0 "", .api (.call .request), .api (.resume 0),
    .api (.receive 0 (.http 401 {})), .api (.resume 1), .api .signOut, .main 0 "", .relaunch,
    .bootstrap, .completeSignIn (.success (some "identity")), .currentUserId, .api (.resume 0),
    .api (.receive 0 (.http 200 { token := some signedInPair })), .main 0 "", .main 0 ""]

theorem gate_agrees_demo : ∃ w, Run step (Guard user) (launch (some RefreshWaiters.storedPair)) w ∧
    w.session.phase = .signedIn "user-2" ∧
      ∃ u, exec step restart w = some u ∧ u.session.phase = .signedIn "user-2" := by
  have hend : (execWhere step (Guard user) handover
      (launch (some RefreshWaiters.storedPair))).any (fun w =>
        decide (w.boot = .read ∧ w.main = [] ∧
          phaseOf w.client.tokens = .signedIn "user-2")) = true := by decide
  obtain ⟨w, hw, hp⟩ := execWhere_any hend
  obtain ⟨hboot, hidle, huser⟩ := of_decide_eq_true hp
  have hstored : ∀ pair, some RefreshWaiters.storedPair = some pair →
      user pair.refreshToken = pair.userId := by
    rintro pair ⟨⟩
    decide
  obtain ⟨hphase, -, u, hu, hsame⟩ := gate_agrees hstored hw hboot hidle
  exact ⟨w, hw, hphase.trans huser, u, hu, hsame.trans (hphase.trans huser)⟩

end Demo

end FieldNote.AuthGate
