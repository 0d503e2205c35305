import FieldNote.RefreshWaiters

/-!
# Sessions of the API client

A session begins when a sign-in applies its pair and ends with `signOut`. A refresh belongs
to the session whose refresh token it presents, but its starter applies or clears whatever
the client holds when it is resumed. The guard compares the two: a starter goes on while the
client holds the pair that the refresh presented, or while it holds none and the refresh
failed. Under it only sign-ins bring tokens back after a `signOut`, and only refreshes
started in a session replace or end it.
-/
namespace FieldNote.SessionIsolation
open APIClient GuardedRuns CallPool RefreshWaiters

/-- The refresh token that a refresh task sends. -/
def presented (c : Client) (task : ℕ) : Option String :=
  match c.flows[task]?.map Flow.kind with
  | some (.refresh token) => some token
  | _ => none

/-- No refresh has sent this token yet. -/
def unseen (c : Client) (token : String) : Bool :=
  c.flows.all fun f => decide (f.kind ≠ .refresh token)

/-- A starter goes on while the client holds the pair its refresh presented, or while it
holds none and the refresh failed. The server issues random tokens, so an answer brings one
that was not sent before. -/
def ownSession (c : Client) : Action → Bool
  | .resume i =>
      match c.flows[i]?.map Flow.pc with
      | some (.starting task) =>
          match c.tokens with
          | some pair => presented c task = some pair.refreshToken
          | none => !succeeded c task
      | _ => true
  | .receive _ (.http _ body) => body.token.all fun token => unseen c token.refreshToken
  | _ => true

def Guard (c : Client) (a : Action) : Prop := ownSession c a = true

instance : DecidableRel Guard := fun _ _ => inferInstanceAs (Decidable (_ = true))

/-- The step applies the pair of a sign-in. -/
def signsIn (c : Client) : Action → Bool
  | .receive i (.http status body) =>
      decide (c.flows[i]?.map Flow.kind = some .signIn) && body.token.isSome &&
        decide (200 ≤ status ∧ status < 300)
  | _ => false

/-- The guard on a run in which no sign-in applies its pair. -/
def NoSignIn (ok : Client → Action → Prop) (c : Client) (a : Action) : Prop :=
  ok c a ∧ signsIn c a = false

instance {ok : Client → Action → Prop} [DecidableRel ok] : DecidableRel (NoSignIn ok) :=
  fun _ _ => inferInstanceAs (Decidable (_ ∧ _))

/-- What a session is made of, and how often the client has reported its end. -/
def session (c : Client) : Option TokenPair × Option TokenPair × ℕ :=
  (c.tokens, c.storage, c.authExpired)

/-- Without a sign-in no tokens come back. -/
def StaysOut (ok : Client → Action → Prop) (c : Client) : Prop :=
  ∀ d, Run step (NoSignIn ok) c d → d.tokens = none ∧ d.storage = none

/-- A later step replaces or ends what the client holds only if it is a `signOut`, a
sign-in, or the end of a refresh that was started since. -/
def Isolated (ok : Client → Action → Prop) (c : Client) : Prop :=
  ∀ d a e, Run step ok c d → ok d a → step d a = some e → d.tokens ≠ none →
    session e ≠ session d → a = .signOut ∨ signsIn d a = true ∨
      ∃ i f task, a = .resume i ∧ d.flows[i]? = some f ∧ f.pc = .starting task ∧
        c.flows.length ≤ task

variable {c d : Client} {a : Action}

theorem signsIn_iff : signsIn c a = true ↔ ∃ i status body f token,
    a = .receive i (.http status body) ∧ c.flows[i]? = some f ∧ f.kind = .signIn ∧
      body.token = some token ∧ 200 ≤ status ∧ status < 300 := by
  constructor
  · intro h
    unfold signsIn at h
    split at h
    · rename_i i status body
      simp only [Bool.and_eq_true, decide_eq_true_eq] at h
      obtain ⟨⟨hkind, htok⟩, hok⟩ := h
      obtain ⟨f, hf, hk⟩ := Option.map_eq_some_iff.mp hkind
      obtain ⟨token, ht⟩ := Option.isSome_iff_exists.mp htok
      exact ⟨i, status, body, f, token, rfl, hf, hk, ht, hok⟩
    · cases h
  · rintro ⟨i, status, body, f, token, rfl, hf, hk, ht, hok⟩
    simp [signsIn, hf, hk, ht, hok]

theorem presented_iff {task : ℕ} {token : String} :
    presented c task = some token ↔
      ∃ f, c.flows[task]? = some f ∧ f.kind = .refresh token := by
  unfold presented
  constructor
  · intro h
    split at h
    · rename_i t hk
      obtain ⟨f, hf, hkind⟩ := Option.map_eq_some_iff.mp hk
      cases h
      exact ⟨f, hf, hkind⟩
    · cases h
  · rintro ⟨f, hf, hk⟩
    simp [hf, hk]

theorem unseen_ne {token : String} {task : ℕ} (h : unseen c token = true) :
    presented c task ≠ some token := by
  intro hp
  obtain ⟨f, hf, hk⟩ := presented_iff.mp hp
  have hne := List.all_eq_true.mp h f (List.mem_of_getElem? hf)
  exact of_decide_eq_true hne hk

/-- The pair is the answer that the step brings to flow `i`. -/
def Answers (a : Action) (i : ℕ) (pair : TokenPair) : Prop :=
  ∃ status body token, a = .receive i (.http status body) ∧ body.token = some token ∧
    pair = pairOf token

/-- What a segment of flow `i` leaves in its place: a flow of the same kind that has ended
with a pair only if it has just been answered. -/
def Replaces (a : Action) (i : ℕ) (f f' : Flow) : Prop :=
  f'.kind = f.kind ∧ ∀ pair, f'.value = some (.ok pair) → Answers a i pair

/-- A segment of flow `i` replaces the flow, and may start a refresh task. -/
def Segment (c : Client) (a : Action) (i : ℕ) (f : Flow) (d : Client) : Prop :=
  ∃ f' new, d.flows = c.flows.set i f' ++ new ∧ Replaces a i f f' ∧ ∀ g ∈ new, g.value = none

theorem setFlow_segment {i : ℕ} {f f' : Flow} (h : Replaces a i f f') :
    Segment c a i f (c.setFlow i f') :=
  ⟨f', [], (List.append_nil _).symm, h, by simp⟩

/-- A flow that has not ended with a pair. -/
theorem replaces_unpaired {i : ℕ} {f f' : Flow} (h : f'.kind = f.kind)
    (hv : ∀ pair, f'.value ≠ some (.ok pair)) : Replaces a i f f' :=
  ⟨h, fun pair hp => (hv pair hp).elim⟩

theorem fail_replaces {i : ℕ} {f f₀ : Flow} (error : APIError) (h : f₀.kind = f.kind) :
    Replaces a i f (f₀.fail error) :=
  replaces_unpaired h (by simp [Flow.value, Flow.goto, Flow.fail])

theorem retryOr_replaces {i : ℕ} (f : Flow) (error : APIError) :
    Replaces a i f (f.retryOr error) := by
  unfold Flow.retryOr
  split_ifs
  · exact replaces_unpaired rfl (by simp [Flow.value, Flow.goto])
  · exact fail_replaces error rfl

theorem beginAttempt_segment (c : Client) (i : ℕ) (f : Flow) :
    Segment c a i f (c.beginAttempt i f) := by
  rcases f with ⟨kind, attempt, didRefresh, cancelled, pc⟩
  cases kind with
  | request =>
      unfold Client.beginAttempt
      dsimp only
      split
      · exact setFlow_segment (replaces_unpaired rfl (by simp [Flow.value, Flow.goto, Flow.fail]))
      · exact ⟨_, [], (List.append_nil _).symm,
          replaces_unpaired rfl (by simp [Flow.value, Flow.goto]), by simp⟩
  | _ => exact setFlow_segment (replaces_unpaired rfl (by simp [Flow.value, Flow.goto]))

theorem refreshTokens_segment {i : ℕ} {f f₀ : Flow} (h : f₀.kind = f.kind) :
    Segment c a i f (c.refreshTokens i f₀) := by
  unfold Client.refreshTokens
  split
  · exact setFlow_segment (replaces_unpaired h (by simp [Flow.value, Flow.goto]))
  · split
    · exact setFlow_segment (fail_replaces _ h)
    · exact ⟨_, _, rfl, replaces_unpaired h (by simp [Flow.value, Flow.goto]), by simp [Flow.value]⟩

theorem complete_segment {i status : ℕ} (f : Flow) (body : Body) :
    Segment c (.receive i (.http status body)) i f (c.complete i f body) := by
  have hpair : ∀ token, body.token = some token →
      Replaces (.receive i (.http status body)) i f
        (f.goto (.returned (some (pairOf token)))) := by
    intro token ht
    refine ⟨rfl, fun pair hv => ?_⟩
    cases hv
    exact ⟨status, body, token, rfl, ht, rfl⟩
  unfold Client.complete
  split
  · exact setFlow_segment (replaces_unpaired rfl (by simp [Flow.value, Flow.goto]))
  · split
    · exact setFlow_segment (fail_replaces _ rfl)
    · rename_i token ht
      exact ⟨_, [], (List.append_nil _).symm, hpair token ht, by simp⟩
  · split
    · exact setFlow_segment (fail_replaces _ rfl)
    · rename_i token ht
      exact setFlow_segment (hpair token ht)

theorem receive_segment {i : ℕ} (f : Flow) (reply : Reply) :
    Segment c (.receive i reply) i f (c.receive i f reply) := by
  cases reply with
  | http status body =>
      simp only [Client.receive]
      split_ifs
      · exact refreshTokens_segment rfl
      · exact complete_segment f body
      · exact setFlow_segment (retryOr_replaces f _)
      · exact setFlow_segment (fail_replaces _ rfl)
  | notHTTP => exact setFlow_segment (fail_replaces _ rfl)
  | failed reason => exact setFlow_segment (retryOr_replaces f _)
  | cancelled => exact setFlow_segment (replaces_unpaired rfl (by simp [Flow.value, Flow.goto]))

theorem resume_segment {i : ℕ} {f : Flow} (hs : c.resume i f = some d) :
    Segment c a i f d := by
  unfold Client.resume at hs
  split at hs
  · cases hs
    exact beginAttempt_segment c i f
  · split_ifs at hs
    · cases hs
      exact setFlow_segment (replaces_unpaired rfl (by simp [Flow.value, Flow.goto]))
    · cases hs
      exact beginAttempt_segment c i f
  · obtain ⟨value, -, rfl⟩ := Option.map_eq_some_iff.mp hs
    cases value with
    | ok pair => exact beginAttempt_segment { c.applyTokens pair with refreshTask := none } i f
    | error failure => exact ⟨_, [], (List.append_nil _).symm, fail_replaces _ rfl, by simp⟩
  · obtain ⟨value, -, rfl⟩ := Option.map_eq_some_iff.mp hs
    cases value with
    | ok pair => exact beginAttempt_segment c i f
    | error failure => exact setFlow_segment (replaces_unpaired rfl (by simp [Flow.value, Flow.goto]))
  all_goals cases hs

/-- What a step makes of the flows. -/
inductive FlowEffect (c : Client) (a : Action) (d : Client) : Prop where
  | added (g : Flow) (value : g.value = none) (eq : d.flows = c.flows ++ [g])
  | marked (i : ℕ) (f : Flow) (flow : c.flows[i]? = some f)
      (eq : d.flows = c.flows.set i { f with cancelled := true })
  | signedOut (eq : d = c.signOut)
  | moved (i : ℕ) (f : Flow) (flow : c.flows[i]? = some f) (segment : Segment c a i f d)

theorem flow_effect (hs : step c a = some d) : FlowEffect c a d := by
  cases a with
  | call kind =>
      cases kind with
      | refresh token => cases hs
      | _ =>
          cases hs
          exact .added _ rfl rfl
  | resume i =>
      obtain ⟨f, hi, hs⟩ := Option.bind_eq_some_iff.mp hs
      exact .moved i f hi (resume_segment hs)
  | receive i reply =>
      obtain ⟨f, hi, hs⟩ := Option.bind_eq_some_iff.mp hs
      split at hs
      · split_ifs at hs
        cases hs
        exact .moved i f hi (receive_segment f reply)
      · cases hs
  | cancel i =>
      obtain ⟨f, hi, hs⟩ := Option.bind_eq_some_iff.mp hs
      split at hs
      · cases hs
      · cases hs
        exact .marked i f hi rfl
  | signOut =>
      cases hs
      exact .signedOut rfl

/-- A flow keeps its kind, and ends with a pair only when it is answered. -/
theorem flow_before {k : ℕ} {g : Flow} (h : FlowEffect c a d) (hk : d.flows[k]? = some g)
    (hlt : k < c.flows.length) :
    ∃ f, c.flows[k]? = some f ∧ g.kind = f.kind ∧
      ∀ pair, g.value = some (.ok pair) → f.value = some (.ok pair) ∨ Answers a k pair := by
  cases h with
  | added g' value eq =>
      rw [eq, List.getElem?_append_left hlt] at hk
      exact ⟨g, hk, rfl, fun pair hv => .inl hv⟩
  | marked i f flow eq =>
      rw [eq] at hk
      rcases getElem?_set_cases hk with ⟨rfl, rfl⟩ | ⟨-, hk⟩
      · exact ⟨f, flow, rfl, fun pair hv => .inl hv⟩
      · exact ⟨g, hk, rfl, fun pair hv => .inl hv⟩
  | signedOut eq =>
      subst eq
      rw [signOut_flow] at hk
      obtain ⟨f, hf, rfl⟩ := Option.map_eq_some_iff.mp hk
      refine ⟨f, hf, ?_⟩
      split_ifs <;> exact ⟨rfl, fun pair hv => .inl hv⟩
  | moved i f flow segment =>
      obtain ⟨f', new, eq, ⟨hkind, hval⟩, -⟩ := segment
      rw [eq, List.getElem?_append_left (by simpa using hlt)] at hk
      rcases getElem?_set_cases hk with ⟨rfl, rfl⟩ | ⟨-, hk⟩
      · exact ⟨f, flow, hkind, fun pair hv => .inr (hval pair hv)⟩
      · exact ⟨g, hk, rfl, fun pair hv => .inl hv⟩

/-- A flow that the step starts has not ended. -/
theorem flow_new {k : ℕ} {g : Flow} (h : FlowEffect c a d) (hk : d.flows[k]? = some g)
    (hlt : c.flows.length ≤ k) : g.value = none := by
  have hempty : c.flows[k]? = none := List.getElem?_eq_none hlt
  cases h with
  | added g' value eq =>
      rw [eq] at hk
      rcases getElem?_start_cases hk with ⟨-, rfl⟩ | ⟨-, hk⟩
      · exact value
      · rw [hempty] at hk
        cases hk
  | marked i f flow eq =>
      rw [eq, List.getElem?_eq_none (by simpa using hlt)] at hk
      cases hk
  | signedOut eq =>
      subst eq
      rw [signOut_flow, hempty] at hk
      cases hk
  | moved i f flow segment =>
      obtain ⟨f', new, eq, -, hnew⟩ := segment
      rw [eq, List.getElem?_append_right (by simpa using hlt)] at hk
      exact hnew g (List.mem_of_getElem? hk)

theorem length_le (h : FlowEffect c a d) : c.flows.length ≤ d.flows.length := by
  cases h with
  | added g value eq => simp [eq]
  | marked i f flow eq => simp [eq]
  | signedOut eq =>
      subst eq
      unfold Client.signOut
      cases c.refreshTask <;> simp
  | moved i f flow segment =>
      obtain ⟨f', new, eq, -, -⟩ := segment
      simp [eq]

/-- The refresh tasks there are keep what they present. -/
theorem presented_kept {task : ℕ} (h : FlowEffect c a d) (hlt : task < c.flows.length) :
    presented d task = presented c task := by
  have hlt' : task < d.flows.length := Nat.lt_of_lt_of_le hlt (length_le h)
  obtain ⟨f, hf, hkind, -⟩ := flow_before h (List.getElem?_eq_getElem hlt') hlt
  unfold presented
  rw [List.getElem?_eq_getElem hlt', hf, Option.map_some, Option.map_some, hkind]

theorem unseen_of_answer {i : ℕ} {pair : TokenPair} (hg : Guard c a) (h : Answers a i pair) :
    unseen c pair.refreshToken = true := by
  obtain ⟨status, body, token, rfl, ht, rfl⟩ := h
  simp only [Guard, ownSession, ht, Option.all_some] at hg
  exact hg

/-- The guard at the end of a refresh that succeeded. -/
theorem presented_of_guard {i task : ℕ} {f g : Flow} {pair : TokenPair} (hi : c.flows[i]? = some f)
    (hpc : f.pc = .starting task) (hdone : c.flows[task]? = some g)
    (hv : g.value = some (.ok pair)) (hg : Guard c (.resume i)) :
    ∃ held, c.tokens = some held ∧ presented c task = some held.refreshToken := by
  have hsucc := succeeded_of_value hdone hv
  cases ht : c.tokens with
  | none => simp [Guard, ownSession, hi, hpc, ht, hsucc] at hg
  | some held =>
      refine ⟨held, rfl, ?_⟩
      simpa [Guard, ownSession, hi, hpc, ht] using hg

/-- The client and its storage hold the same pair. -/
theorem synced_step (h : c.tokens = c.storage) (hs : step c a = some d) :
    d.tokens = d.storage := by
  cases step_effect hs with
  | moved i f f' tokens flow live kind next loaded eq =>
      subst eq
      rcases loaded with rfl | rfl
      · exact h
      · show c.held = c.storage
        rw [Client.held, h, Option.or_self]
  | called kind kind_ne eq => exact eq ▸ h
  | marked i f flow eq => exact eq ▸ h
  | joined i task f f' flow live kind pc current eq => exact eq ▸ h
  | started i f f' current flow live kind pc idle held eq => exact eq ▸ h
  | signedOut action eq => exact eq ▸ rfl
  | signedIn i f status body token action ok flow live kind decoded eq => exact eq ▸ rfl
  | applied i task f f' g pair action flow pc done value kind next eq => exact eq ▸ rfl
  | expired i task f g failure action flow pc done value eq => exact eq ▸ rfl

theorem synced_run {ok : Client → Action → Prop} (h : Run step ok c d)
    (hsync : c.tokens = c.storage) : d.tokens = d.storage :=
  h.invariant (I := fun c => c.tokens = c.storage) hsync fun _ _ _ hi _ hs => synced_step hi hs

/-- A step that changes what the client holds: the end of a session, its beginning, or the
end of a refresh. -/
inductive Turn (c : Client) (a : Action) (d : Client) : Prop where
  | kept (tokens : d.tokens = c.tokens) (reports : d.authExpired = c.authExpired)
  | out (action : a = .signOut) (tokens : d.tokens = none)
  | signedIn (i : ℕ) (pair : TokenPair) (signs : signsIn c a = true) (answers : Answers a i pair)
      (tokens : d.tokens = some pair)
  | applied (i task : ℕ) (f g : Flow) (pair : TokenPair) (action : a = .resume i)
      (flow : c.flows[i]? = some f) (pc : f.pc = .starting task)
      (done : c.flows[task]? = some g) (value : g.value = some (.ok pair))
      (tokens : d.tokens = some pair)
  | expired (i task : ℕ) (f : Flow) (action : a = .resume i) (flow : c.flows[i]? = some f)
      (pc : f.pc = .starting task) (tokens : d.tokens = none)

theorem turn (h : c.tokens = c.storage) (hs : step c a = some d) : Turn c a d := by
  cases step_effect hs with
  | moved i f f' tokens flow live kind next loaded eq =>
      subst eq
      refine .kept ?_ rfl
      rcases loaded with rfl | rfl
      · rfl
      · simp [Client.held, h]
  | called kind kind_ne eq =>
      subst eq
      exact .kept rfl rfl
  | marked i f flow eq =>
      subst eq
      exact .kept rfl rfl
  | joined i task f f' flow live kind pc current eq =>
      subst eq
      exact .kept rfl rfl
  | started i f f' current flow live kind pc idle held eq =>
      subst eq
      exact .kept rfl rfl
  | signedOut action eq =>
      subst eq
      exact .out action rfl
  | signedIn i f status body token action ok flow live kind decoded eq =>
      subst eq
      have hsigns : signsIn c a = true :=
        signsIn_iff.mpr ⟨i, status, body, f, token, action, flow, kind, decoded, ok⟩
      exact .signedIn i (pairOf token) hsigns ⟨status, body, token, action, decoded, rfl⟩ rfl
  | applied i task f f' g pair action flow pc done value kind next eq =>
      subst eq
      exact .applied i task f g pair action flow pc done value rfl
  | expired i task f g failure action flow pc done value eq =>
      subst eq
      exact .expired i task f action flow pc rfl

/-- Nothing brings tokens back but a sign-in. -/
theorem out_step (h : c.tokens = none ∧ c.storage = none) (hg : NoSignIn Guard c a)
    (hs : step c a = some d) : d.tokens = none ∧ d.storage = none := by
  have hsync := synced_step (h.1.trans h.2.symm) hs
  rw [← hsync, and_self]
  cases turn (h.1.trans h.2.symm) hs with
  | kept tokens reports => rw [tokens, h.1]
  | out action tokens => exact tokens
  | signedIn i pair signs answers tokens =>
      have hno := hg.2
      rw [signs] at hno
      cases hno
  | applied i task f g pair action flow pc done value tokens =>
      subst action
      obtain ⟨held, hheld, -⟩ := presented_of_guard flow pc done value hg.1
      rw [h.1] at hheld
      cases hheld
  | expired i task f action flow pc tokens => exact tokens

/-- No refresh that was started before there were `n` flows presents a token that the
client holds, or that a later refresh has brought. -/
structure Fresh (n : ℕ) (c : Client) : Prop where
  synced : c.tokens = c.storage
  size : n ≤ c.flows.length
  held : ∀ old < n, ∀ pair, c.tokens = some pair → presented c old ≠ some pair.refreshToken
  brought : ∀ old < n, ∀ task g pair, n ≤ task → c.flows[task]? = some g →
    g.value = some (.ok pair) → presented c old ≠ some pair.refreshToken

theorem fresh_step {n : ℕ} (h : Fresh n c) (hg : Guard c a) (hs : step c a = some d) :
    Fresh n d := by
  have hflow := flow_effect hs
  have hkept : ∀ old < n, presented d old = presented c old :=
    fun old hold => presented_kept hflow (Nat.lt_of_lt_of_le hold h.size)
  refine ⟨synced_step h.synced hs, Nat.le_trans h.size (length_le hflow), ?_, ?_⟩
  · intro old hold pair hpair
    rw [hkept old hold]
    cases turn h.synced hs with
    | kept tokens reports => exact h.held old hold pair (tokens ▸ hpair)
    | out action tokens =>
        rw [tokens] at hpair
        cases hpair
    | signedIn i pair' signs answers tokens =>
        rw [tokens] at hpair
        cases hpair
        exact unseen_ne (unseen_of_answer hg answers)
    | applied i task f g pair' action flow pc done value tokens =>
        rw [tokens] at hpair
        cases hpair
        subst action
        obtain ⟨before, hbefore, hsent⟩ := presented_of_guard flow pc done value hg
        have htask : n ≤ task := by
          by_contra hlt
          exact h.held task (by omega) before hbefore hsent
        exact h.brought old hold task g pair htask done value
    | expired i task f action flow pc tokens =>
        rw [tokens] at hpair
        cases hpair
  · intro old hold task g pair htask hflow' hv
    rw [hkept old hold]
    by_cases hlt : task < c.flows.length
    · obtain ⟨f, hf, -, hval⟩ := flow_before hflow hflow' hlt
      rcases hval pair hv with hv' | hans
      · exact h.brought old hold task f pair htask hf hv'
      · exact unseen_ne (unseen_of_answer hg hans)
    · rw [flow_new hflow hflow' (by omega)] at hv
      cases hv

theorem fresh_signIn (hsync : c.tokens = c.storage) (hg : Guard c a) (hs : step c a = some d)
    (hsign : signsIn c a = true) : Fresh d.flows.length d := by
  have hflow := flow_effect hs
  obtain ⟨i, status, body, f, token, rfl, hi, hkind, ht, hok⟩ := signsIn_iff.mp hsign
  have hans : Answers (.receive i (.http status body)) i (pairOf token) :=
    ⟨status, body, token, rfl, ht, rfl⟩
  have hlen : d.flows.length = c.flows.length ∧ d.tokens = some (pairOf token) := by
    simp only [step, hi, Option.bind_some] at hs
    split at hs
    · rw [if_neg (by simp)] at hs
      cases hs
      simp [Client.receive, Client.complete, hkind, hok, ht, Client.applyTokens, Client.setFlow]
    · cases hs
  refine ⟨synced_step hsync hs, Nat.le_refl _, ?_, ?_⟩
  · intro old hold pair hpair
    rw [hlen.2] at hpair
    cases hpair
    rw [presented_kept hflow (hlen.1 ▸ hold)]
    exact unseen_ne (unseen_of_answer hg hans)
  · intro old hold task g pair htask hflow' hv
    rw [List.getElem?_eq_none htask] at hflow'
    cases hflow'

/-- In every run that meets the guard, tokens come back after a `signOut` only by a sign-in,
and after a sign-in only the refreshes started since then replace or clear its pair or report
its end. -/
theorem session_isolated {stored : Option TokenPair} (hc : Run step Guard (init stored) c)
    (hg : Guard c a) (hs : step c a = some d) :
    (a = .signOut → StaysOut Guard d) ∧ (signsIn c a = true → Isolated Guard d) := by
  have hsync : c.tokens = c.storage := synced_run hc rfl
  constructor
  · rintro rfl e hrun
    refine hrun.invariant (I := fun c => c.tokens = none ∧ c.storage = none) ?_ ?_
    · cases hs
      exact ⟨rfl, rfl⟩
    · exact fun _ _ _ hi hok hstep => out_step hi hok hstep
  · intro hsign c' b e hrun hb hstep hheld hchange
    have hfresh : Fresh d.flows.length c' :=
      hrun.invariant (fresh_signIn hsync hg hs hsign) fun _ _ _ hi hok hstep =>
        fresh_step hi hok hstep
    have hown : ∀ i task f, b = .resume i → c'.flows[i]? = some f → f.pc = .starting task →
        d.flows.length ≤ task := by
      rintro i task f rfl hi hpc
      obtain ⟨pair, hpair⟩ := Option.ne_none_iff_exists'.mp hheld
      have hsent : presented c' task = some pair.refreshToken := by
        simpa [Guard, ownSession, hi, hpc, hpair] using hb
      by_contra hlt
      exact hfresh.held task (by omega) pair hpair hsent
    cases turn hfresh.synced hstep with
    | kept tokens reports =>
        have hsync' := synced_step hfresh.synced hstep
        refine (hchange ?_).elim
        simp only [session, tokens, reports, ← hsync', ← hfresh.synced]
    | out action tokens => exact .inl action
    | signedIn i pair signs answers tokens => exact .inr (.inl signs)
    | applied i task f g pair action flow pc done value tokens =>
        exact .inr (.inr ⟨i, f, task, action, flow, pc, hown i task f action flow pc⟩)
    | expired i task f action flow pc tokens =>
        exact .inr (.inr ⟨i, f, task, action, flow, pc, hown i task f action flow pc⟩)

def signedInPair : TokenResponse := ⟨"access-3", "refresh-3", 900, "user-2"⟩

/-- Flow 0 waits for the refresh that is flow 1. -/
def refreshing : List Action := [.call .request, .resume 0, .receive 0 (.http 401 {}), .resume 1]

def refreshed : Reply := .http 200 { token := some ⟨"access-2", "refresh-2", 900, "user-1"⟩ }

/-- The last segment of a sign-in that is flow 2. -/
def answered : Action := .receive 2 (.http 200 { token := some signedInPair })

/-- The user signs out during a refresh. The refresh is cancelled, its starter goes on, and
another user signs in. -/
def handedOver : List Action :=
  refreshing ++ [.signOut, .receive 1 .cancelled, .resume 0, .call .signIn, .resume 2]

theorem session_isolated_demo :
    (∃ c d, Run step Guard (init (some storedPair)) c ∧ step c .signOut = some d ∧
      StaysOut Guard d) ∧
    ∃ c d, Run step Guard (init (some storedPair)) c ∧ step c answered = some d ∧
      Isolated Guard d := by
  constructor
  · have hend : (execWhere step Guard refreshing (init (some storedPair))).any (fun c =>
        (step c .signOut).isSome) = true := by decide
    obtain ⟨c, hc, hp⟩ := execWhere_any hend
    obtain ⟨d, hd⟩ := Option.isSome_iff_exists.mp hp
    have hg : Guard c .signOut := rfl
    exact ⟨c, d, hc, hd, (session_isolated hc hg hd).1 rfl⟩
  · have hend : (execWhere step Guard handedOver (init (some storedPair))).any (fun c =>
        decide (Guard c answered ∧ signsIn c answered = true ∧
          (step c answered).isSome = true)) = true := by decide
    obtain ⟨c, hc, hp⟩ := execWhere_any hend
    obtain ⟨hg, hsign, hs⟩ := of_decide_eq_true hp
    obtain ⟨d, hd⟩ := Option.isSome_iff_exists.mp hs
    exact ⟨c, d, hc, hd, (session_isolated hc hg hd).2 hsign⟩

/-- A refresh that has succeeded before the `signOut` restores its tokens when its starter
is resumed. -/
theorem refresh_outlives_signOut :
    ¬ ∀ (stored : Option TokenPair) (c d : Client) (a : Action),
      Run step anyStep (init stored) c → step c a = some d →
        (a = .signOut → StaysOut anyStep d) ∧ (signsIn c a = true → Isolated anyStep d) := by
  intro h
  have hend : (exec step (refreshing ++ [.receive 1 refreshed]) (init (some storedPair))).any
      (fun c => (step c .signOut).any fun d =>
        (execWhere step (NoSignIn anyStep) [.resume 0] d).any fun e =>
          e.tokens.isSome) = true := by decide
  obtain ⟨c, hc, hp⟩ := exec_any hend
  obtain ⟨d, hd, hp⟩ := (Option.any_eq_true _ _).mp hp
  obtain ⟨e, he, htok⟩ := execWhere_any hp
  have hout := ((h _ c d .signOut hc hd).1 rfl e he).1
  rw [hout] at htok
  cases htok

end FieldNote.SessionIsolation
