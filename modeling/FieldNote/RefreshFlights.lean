import FieldNote.SessionIsolation

/-!
# One refresh per refresh token

A refresh token is single use, so two refresh tasks with one token would look like a theft
to the server. The slot of the current task is emptied by several paths, but each of them
also replaces or clears the pair: whenever the slot is empty, the pair that the client holds
has not been presented, and neither has a pair that a task has brought and its starter has
yet to apply.
-/
namespace FieldNote.RefreshFlights
open APIClient GuardedRuns CallPool RefreshWaiters SessionIsolation

/-- No refresh has sent the token, no flow has been answered with it, and the client does not
hold it. -/
def brandNew (c : Client) (token : String) : Bool :=
  unseen c token && c.flows.all (fun f =>
    match f.pc with
    | .returned (some pair) => pair.refreshToken ≠ token
    | _ => true) && c.tokens.all fun pair => pair.refreshToken ≠ token

/-- A sign-in or a refresh that succeeds is answered with a new refresh token. -/
def answersFresh (c : Client) : Action → Bool
  | .receive i (.http status body) =>
      decide (c.flows[i]?.map Flow.kind = some .request) ||
        !decide (200 ≤ status ∧ status < 300) ||
          body.token.all fun token => brandNew c token.refreshToken
  | _ => true

def FreshAnswers (c : Client) (a : Action) : Prop := answersFresh c a = true

instance : DecidableRel FreshAnswers := fun _ _ => inferInstanceAs (Decidable (_ = true))

/-- The starter `i` has yet to apply the pair that its task has brought. -/
def Pending (c : Client) (i task : ℕ) (pair : TokenPair) : Prop :=
  ∃ f g, c.flows[i]? = some f ∧ f.pc = .starting task ∧ c.flows[task]? = some g ∧
    g.value = some (.ok pair)

structure Inv (c : Client) : Prop where
  synced : c.tokens = c.storage
  started : ∀ (i : ℕ) (f : Flow) (task : ℕ), c.flows[i]? = some f → f.pc = .starting task →
    ∃ token, presented c task = some token
  starter : ∀ (i j : ℕ) (f g : Flow) (task : ℕ), c.flows[i]? = some f → c.flows[j]? = some g →
    f.pc = .starting task → g.pc = .starting task → i = j
  held : c.refreshTask = none → ∀ pair, c.tokens = some pair →
    unseen c pair.refreshToken = true
  pending : ∀ i task pair, Pending c i task pair → unseen c pair.refreshToken = true ∧
    ∀ held, c.tokens = some held → held.refreshToken ≠ pair.refreshToken
  apart : ∀ i j task task' pair pair', Pending c i task pair → Pending c j task' pair' →
    pair.refreshToken = pair'.refreshToken → i = j
  once : ∀ task task' token, presented c task = some token → presented c task' = some token →
    task = task'

theorem inv_init (stored : Option TokenPair) : Inv (init stored) := by
  have hno : ∀ (i : ℕ) (f : Flow), (init stored).flows[i]? ≠ some f := by simp [init]
  refine ⟨rfl, ?_, ?_, ?_, ?_, ?_, ?_⟩
  · intro i f task hi
    exact (hno i f hi).elim
  · intro i j f g task hi
    exact (hno i f hi).elim
  · intro _ pair _
    rfl
  · rintro i task pair ⟨f, g, hi, -⟩
    exact (hno i f hi).elim
  · rintro i j task task' pair pair' ⟨f, g, hi, -⟩
    exact (hno i f hi).elim
  · intro task task' token h
    obtain ⟨f, hf, -⟩ := presented_iff.mp h
    exact (hno task f hf).elim

variable {c d : Client} {a : Action}

/-- A flow whose program point is none of a starter. -/
theorem nextPc_ne {pc : Pc} {task : ℕ} (h : NextPc pc) : pc ≠ .starting task := by
  cases h <;> simp

/-- A starter waited before the step, or has just started the last task. -/
theorem starting_before {i task : ℕ} {f' : Flow} (h : Effect c a d) (hi : d.flows[i]? = some f')
    (hpc : f'.pc = .starting task) :
    (∃ f, c.flows[i]? = some f ∧ f.pc = .starting task) ∨
      task = c.flows.length ∧
        ∃ f token, d.flows = c.flows.set i f ++ [{ kind := .refresh token }] := by
  have hset : ∀ (k : ℕ) (f₁ : Flow), (∀ task, f₁.pc ≠ .starting task) →
      (c.flows.set k f₁)[i]? = some f' → ∃ f, c.flows[i]? = some f ∧ f.pc = .starting task := by
    intro k f₁ hne hi
    rcases getElem?_set_cases hi with ⟨-, rfl⟩ | ⟨-, hi⟩
    · exact (hne task hpc).elim
    · exact ⟨f', hi, hpc⟩
  cases h with
  | called kind kind_ne eq =>
      subst eq
      rcases getElem?_start_cases hi with ⟨-, rfl⟩ | ⟨-, hi⟩
      · cases hpc
      · exact .inl ⟨f', hi, hpc⟩
  | marked k f flow eq =>
      subst eq
      rcases getElem?_set_cases hi with ⟨rfl, rfl⟩ | ⟨-, hi⟩
      · exact .inl ⟨f, flow, hpc⟩
      · exact .inl ⟨f', hi, hpc⟩
  | signedOut action eq =>
      subst eq
      rw [signOut_flow] at hi
      obtain ⟨f, hf, rfl⟩ := Option.map_eq_some_iff.mp hi
      refine .inl ⟨f, hf, ?_⟩
      split_ifs at hpc <;> exact hpc
  | moved k f f₁ tokens flow live kind next loaded eq =>
      subst eq
      exact .inl (hset k f₁ (fun task => nextPc_ne next) hi)
  | signedIn k f status body token action ok flow live kind decoded eq =>
      subst eq
      exact .inl (hset k _ (fun task => nextPc_ne (.returned _)) hi)
  | joined k task' f f₁ flow live kind pc current eq =>
      subst eq
      exact .inl (hset k f₁ (by simp [pc]) hi)
  | started k f f₁ current flow live kind pc idle held eq =>
      subst eq
      rcases getElem?_start_cases hi with ⟨-, rfl⟩ | ⟨-, hi⟩
      · cases hpc
      · rcases getElem?_set_cases hi with ⟨rfl, rfl⟩ | ⟨-, hi⟩
        · rw [pc] at hpc
          cases hpc
          exact .inr ⟨rfl, _, _, rfl⟩
        · exact .inl ⟨f', hi, hpc⟩
  | applied k task' f f₁ g pair action flow pc done value kind next eq =>
      subst eq
      exact .inl (hset k f₁ (fun task => nextPc_ne next) hi)
  | expired k task' f g failure action flow pc done value eq =>
      subst eq
      exact .inl (hset k _ (fun task => nextPc_ne (.threw _)) hi)

/-- What a step presents that was not presented before: the pair that is held, by the task
that starts while there is none. -/
def Presents (c d : Client) (task : ℕ) (token : String) : Prop :=
  task = c.flows.length ∧ c.refreshTask = none ∧ d.refreshTask ≠ none ∧ d.tokens = c.tokens ∧
    ∃ pair, c.held = some pair ∧ pair.refreshToken = token

theorem presented_before {task : ℕ} {token : String} (h : Effect c a d)
    (hflow : FlowEffect c a d) (hp : presented d task = some token) :
    presented c task = some token ∨ Presents c d task token := by
  by_cases hlt : task < c.flows.length
  · exact .inl ((presented_kept hflow hlt).symm.trans hp)
  obtain ⟨g, hg, hkind⟩ := presented_iff.mp hp
  have hout : ∀ (k : ℕ) (f₁ : Flow), (c.flows.set k f₁)[task]? ≠ some g := by
    intro k f₁ h
    rw [List.getElem?_eq_none (by simpa using hlt)] at h
    cases h
  cases h with
  | called kind kind_ne eq =>
      subst eq
      rcases getElem?_start_cases hg with ⟨-, rfl⟩ | ⟨-, hg⟩
      · exact (kind_ne token hkind).elim
      · exact (hlt (lt_of_getElem? hg)).elim
  | marked k f flow eq =>
      subst eq
      exact (hout _ _ hg).elim
  | signedOut action eq =>
      subst eq
      rw [signOut_flow, List.getElem?_eq_none (by simpa using hlt)] at hg
      cases hg
  | moved k f f₁ tokens flow live kind next loaded eq =>
      subst eq
      exact (hout _ _ hg).elim
  | signedIn k f status body token' action ok flow live kind decoded eq =>
      subst eq
      exact (hout _ _ hg).elim
  | joined k task' f f₁ flow live kind pc current eq =>
      subst eq
      exact (hout _ _ hg).elim
  | started k f f₁ current flow live kind pc idle held eq =>
      subst eq
      rcases getElem?_start_cases hg with ⟨htask, rfl⟩ | ⟨-, hg⟩
      · cases hkind
        exact .inr ⟨by simpa using htask, idle, by simp, rfl, current, held, rfl⟩
      · exact (hout _ _ hg).elim
  | applied k task' f f₁ g' pair action flow pc done value kind next eq =>
      subst eq
      exact (hout _ _ hg).elim
  | expired k task' f g' failure action flow pc done value eq =>
      subst eq
      exact (hout _ _ hg).elim

theorem unseen_iff {token : String} :
    unseen c token = true ↔ ∀ task, presented c task ≠ some token := by
  constructor
  · exact fun h task => unseen_ne h
  · intro h
    rw [unseen, List.all_eq_true]
    intro f hf
    rw [decide_eq_true_eq]
    intro hkind
    obtain ⟨task, htask⟩ := List.mem_iff_getElem?.mp hf
    exact h task (presented_iff.mpr ⟨f, htask, hkind⟩)

/-- A token stays unseen unless it is the one that is held and a task starts with it. -/
theorem unseen_step {token : String} (h : unseen c token = true) (heff : Effect c a d)
    (hflow : FlowEffect c a d)
    (hheld : ∀ task, Presents c d task token → False) : unseen d token = true := by
  rw [unseen_iff] at h ⊢
  intro task hp
  rcases presented_before heff hflow hp with hold | hnew
  · exact h task hold
  · exact hheld task hnew

theorem lt_of_presented {task : ℕ} {token : String} (h : presented c task = some token) :
    task < c.flows.length := by
  obtain ⟨f, hf, -⟩ := presented_iff.mp h
  exact lt_of_getElem? hf

/-- A flow that ends with a pair is no request, and has been answered with success. -/
theorem answered_ok {i : ℕ} {g : Flow} {pair : TokenPair} (hs : step c a = some d)
    (hans : Answers a i pair) (hg : d.flows[i]? = some g) (hv : g.value = some (.ok pair))
    (hfresh : FreshAnswers c a) : brandNew c pair.refreshToken = true := by
  obtain ⟨status, body, token, rfl, htoken, rfl⟩ := hans
  obtain ⟨f, hi, hs⟩ := Option.bind_eq_some_iff.mp hs
  have hset : ∀ f₁ : Flow, (c.flows.set i f₁)[i]? = some f₁ := fun f₁ => getElem?_set_same hi
  split at hs
  · rw [if_neg (by simp)] at hs
    cases hs
    simp only [Client.receive] at hg
    split_ifs at hg with hunauth hok hretry
    · -- the flow waits for a refresh, or is refused
      unfold Client.refreshTokens at hg
      split at hg
      · obtain rfl := Option.some.inj (hg.symm.trans (hset _))
        simp [Flow.value, Flow.goto] at hv
      · split at hg
        · obtain rfl := Option.some.inj (hg.symm.trans (hset _))
          simp [Flow.value, Flow.goto, Flow.fail] at hv
        · dsimp only at hg
          rw [List.getElem?_append_left (by simpa using lt_of_getElem? hi)] at hg
          obtain rfl := Option.some.inj (hg.symm.trans (hset _))
          simp [Flow.value, Flow.goto] at hv
    · have hkind : f.kind ≠ .request := by
        intro hkind
        simp only [Client.complete, hkind] at hg
        obtain rfl := Option.some.inj (hg.symm.trans (hset _))
        simp [Flow.value, Flow.goto] at hv
      simpa [FreshAnswers, answersFresh, hi, hkind, hok, htoken, pairOf] using hfresh
    · obtain rfl := Option.some.inj (hg.symm.trans (hset _))
      unfold Flow.retryOr at hv
      split_ifs at hv <;> simp [Flow.value, Flow.goto, Flow.fail] at hv
    · obtain rfl := Option.some.inj (hg.symm.trans (hset _))
      simp [Flow.value, Flow.goto, Flow.fail] at hv
  · cases hs

/-- A pair that waits for its starter was waiting before, or its task has just been answered. -/
theorem pending_before {i task : ℕ} {pair : TokenPair} (h : Inv c) (hs : step c a = some d)
    (hp : Pending d i task pair) :
    Pending c i task pair ∨ Answers a task pair ∧ (∃ token, presented c task = some token) ∧
      ∃ g, d.flows[task]? = some g ∧ g.value = some (.ok pair) := by
  obtain ⟨f', g', hi, hpc, hg, hv⟩ := hp
  have hflow := flow_effect hs
  rcases starting_before (step_effect hs) hi hpc with ⟨f, hf, hpc⟩ | ⟨rfl, -⟩
  · obtain ⟨token, hsent⟩ := h.started i f task hf hpc
    obtain ⟨g, hg₀, -, hval⟩ := flow_before hflow hg (lt_of_presented hsent)
    rcases hval pair hv with hold | hans
    · exact .inl ⟨f, g, hf, hpc, hg₀, hold⟩
    · exact .inr ⟨hans, ⟨token, hsent⟩, g', hg, hv⟩
  · rw [flow_new hflow hg (Nat.le_refl _)] at hv
    cases hv

theorem brandNew_iff {token : String} : brandNew c token = true ↔
    unseen c token = true ∧ (∀ f ∈ c.flows, ∀ pair, f.pc = .returned (some pair) →
      pair.refreshToken ≠ token) ∧ ∀ pair, c.tokens = some pair → pair.refreshToken ≠ token := by
  simp only [brandNew, Bool.and_eq_true, List.all_eq_true, and_assoc]
  refine and_congr_right fun _ => and_congr ?_ ?_
  · refine forall₂_congr fun f _ => ?_
    constructor
    · intro h pair hpc
      simpa [hpc] using h
    · intro h
      split
      · rename_i pair hpc
        simpa using h pair hpc
      · rfl
  · cases c.tokens <;> simp

theorem brandNew_pending {token : String} {i task : ℕ} {pair : TokenPair}
    (h : brandNew c token = true) (hp : Pending c i task pair) : pair.refreshToken ≠ token := by
  obtain ⟨f, g, -, -, hg, hv⟩ := hp
  refine (brandNew_iff.mp h).2.1 g (List.mem_of_getElem? hg) pair ?_
  unfold Flow.value at hv
  split at hv
  · rename_i p hpc
    cases hv
    exact hpc
  · cases hv
  · cases hv

/-- The client holds what it held, nothing, an answer that is new, or a pair that was pending
and whose starter now goes on. -/
inductive Holds (c : Client) (a : Action) (d : Client) : Prop where
  | same (tokens : d.tokens = c.tokens) (slot : d.refreshTask = none → c.refreshTask = none)
  | none (tokens : d.tokens = none)
  | answered (i : ℕ) (pair : TokenPair) (answers : Answers a i pair)
      (signs : signsIn c a = true) (fresh : brandNew c pair.refreshToken = true)
      (tokens : d.tokens = some pair)
  | applied (i task : ℕ) (pair : TokenPair) (action : a = .resume i)
      (pending : Pending c i task pair) (gone : ∀ task' pair', ¬ Pending d i task' pair')
      (tokens : d.tokens = some pair)

theorem holds_step (h : c.tokens = c.storage) (hg : FreshAnswers c a) (hs : step c a = some d) :
    Holds c a d := by
  cases step_effect hs with
  | called kind kind_ne eq =>
      subst eq
      exact .same rfl id
  | marked i f flow eq =>
      subst eq
      exact .same rfl id
  | signedOut action eq =>
      subst eq
      exact .none rfl
  | moved i f f' tokens flow live kind next loaded eq =>
      subst eq
      refine .same ?_ id
      rcases loaded with rfl | rfl
      · rfl
      · simp [Client.held, h]
  | signedIn i f status body token action ok flow live kind decoded eq =>
      have hans : Answers a i (pairOf token) := ⟨status, body, token, action, decoded, rfl⟩
      have hsigns := signsIn_iff.mpr ⟨i, status, body, f, token, action, flow, kind, decoded, ok⟩
      have hset : d.flows[i]? = some (f.goto (.returned (some (pairOf token)))) := by
        rw [eq]
        exact getElem?_set_same flow
      have hnew := answered_ok hs hans hset rfl hg
      exact .answered i _ hans hsigns hnew (eq ▸ rfl)
  | joined i task f f' flow live kind pc current eq =>
      subst eq
      exact .same rfl id
  | started i f f' current flow live kind pc idle held eq =>
      subst eq
      exact .same rfl fun hnone => by cases hnone
  | applied i task f f' g pair action flow pc done value kind next eq =>
      refine .applied i task pair action ⟨f, g, flow, pc, done, value⟩ ?_ (eq ▸ rfl)
      rintro task' pair' ⟨f₁, g₁, hi, hpc, -⟩
      have hset : d.flows[i]? = some f' := by
        rw [eq]
        exact getElem?_set_same flow
      rw [hset] at hi
      cases hi
      exact nextPc_ne next hpc
  | expired i task f g failure action flow pc done value eq =>
      subst eq
      exact .none rfl

/-- A starter of the last task is the flow that has just started it. -/
theorem starter_new {i j : ℕ} {f : Flow} {task : ℕ} (h : Inv c)
    (hi : d.flows[i]? = some f) (hpc : f.pc = .starting task) (hnew : task = c.flows.length)
    (hj : ∃ f token, d.flows = c.flows.set j f ++ [{ kind := .refresh token }]) : i = j := by
  obtain ⟨f₁, token, heq⟩ := hj
  by_contra hij
  rw [heq] at hi
  rcases getElem?_start_cases hi with ⟨-, rfl⟩ | ⟨-, hi⟩
  · cases hpc
  · rw [getElem?_set_other hij] at hi
    obtain ⟨token', hsent⟩ := h.started i f task hi hpc
    have hlt := lt_of_presented hsent
    omega

theorem started_kept {i task : ℕ} {f : Flow} (h : Inv c) (hs : step c a = some d)
    (hi : d.flows[i]? = some f) (hpc : f.pc = .starting task) :
    ∃ token, presented d task = some token := by
  rcases starting_before (step_effect hs) hi hpc with ⟨f₀, hf₀, hpc₀⟩ | ⟨rfl, f₁, token, heq⟩
  · obtain ⟨token, hsent⟩ := h.started i f₀ task hf₀ hpc₀
    exact ⟨token, (presented_kept (flow_effect hs) (lt_of_presented hsent)).trans hsent⟩
  · exact ⟨token, presented_iff.mpr ⟨{ kind := .refresh token }, by simp [heq], rfl⟩⟩

theorem starter_kept {i j task : ℕ} {f g : Flow} (h : Inv c) (hs : step c a = some d)
    (hi : d.flows[i]? = some f) (hj : d.flows[j]? = some g) (hpcf : f.pc = .starting task)
    (hpcg : g.pc = .starting task) : i = j := by
  have heff := step_effect hs
  rcases starting_before heff hi hpcf with ⟨f₀, hf₀, hpc₀⟩ | ⟨hnew, hset⟩
  · rcases starting_before heff hj hpcg with ⟨g₀, hg₀, hpc₁⟩ | ⟨hnew, -⟩
    · exact h.starter i j f₀ g₀ task hf₀ hg₀ hpc₀ hpc₁
    · obtain ⟨token, hsent⟩ := h.started i f₀ task hf₀ hpc₀
      have hlt := lt_of_presented hsent
      omega
  · exact (starter_new h hj hpcg hnew hset).symm

theorem held_kept (h : Inv c) (hg : FreshAnswers c a) (hs : step c a = some d)
    (hslot : d.refreshTask = none) {pair : TokenPair} (hpair : d.tokens = some pair) :
    unseen d pair.refreshToken = true := by
  -- no task starts in a step that leaves the slot empty
  have hnone : ∀ token, unseen c token = true → unseen d token = true := by
    intro token hu
    apply unseen_step hu (step_effect hs) (flow_effect hs)
    rintro task ⟨-, -, hsome, -⟩
    exact hsome hslot
  cases holds_step h.synced hg hs with
  | same tokens slot => exact hnone _ (h.held (slot hslot) pair (tokens ▸ hpair))
  | none tokens =>
      rw [tokens] at hpair
      cases hpair
  | answered i pair' answers signs fresh tokens =>
      rw [tokens] at hpair
      cases hpair
      exact hnone _ (brandNew_iff.mp fresh).1
  | applied i task pair' action pending gone tokens =>
      rw [tokens] at hpair
      cases hpair
      exact hnone _ (h.pending i task pair pending).1

theorem held_tokens (h : Inv c) : c.held = c.tokens := by
  rw [Client.held, h.synced, Option.or_self]

/-- A token that is not held stays unseen. -/
theorem unseen_kept {token : String} (h : Inv c) (hs : step c a = some d)
    (hu : unseen c token = true)
    (hne : ∀ pair, c.tokens = some pair → pair.refreshToken ≠ token) :
    unseen d token = true := by
  apply unseen_step hu (step_effect hs) (flow_effect hs)
  rintro task ⟨-, -, -, -, pair, hpair, htok⟩
  exact hne pair (held_tokens h ▸ hpair) htok

/-- A pair that waits for its starter from now on is the answer that a task has just got. -/
theorem pending_answered {i task : ℕ} {pair : TokenPair} (h : Inv c) (hg : FreshAnswers c a)
    (hs : step c a = some d) (hp : Pending d i task pair) (hnot : ¬ Pending c i task pair) :
    Answers a task pair ∧ brandNew c pair.refreshToken = true ∧
      ∃ token, presented c task = some token := by
  rcases pending_before h hs hp with hold | ⟨hans, hsent, g, hgd, hv⟩
  · exact (hnot hold).elim
  · exact ⟨hans, answered_ok hs hans hgd hv hg, hsent⟩

/-- The client does not hold a pair that is still pending. -/
theorem pending_not_held {i task : ℕ} {pair held : TokenPair} (h : Inv c)
    (hg : FreshAnswers c a) (hs : step c a = some d) (hold : Pending c i task pair)
    (hp : Pending d i task pair) (hd : d.tokens = some held) :
    held.refreshToken ≠ pair.refreshToken := by
  cases holds_step h.synced hg hs with
  | same tokens slot => exact (h.pending i task pair hold).2 held (tokens ▸ hd)
  | none tokens =>
      rw [tokens] at hd
      cases hd
  | answered i' pair' answers signs fresh tokens =>
      rw [tokens] at hd
      cases hd
      exact (brandNew_pending fresh hold).symm
  | applied i' task' pair' action pending gone tokens =>
      rw [tokens] at hd
      cases hd
      intro heq
      obtain rfl := h.apart i' i task' task held pair pending hold heq
      exact gone task pair hp

/-- Nor does it hold the pair that a task has just been answered with. -/
theorem answered_not_held {task : ℕ} {pair held : TokenPair} {token : String} (h : Inv c)
    (hg : FreshAnswers c a) (hs : step c a = some d) (hans : Answers a task pair)
    (hnew : brandNew c pair.refreshToken = true) (hsent : presented c task = some token)
    (hd : d.tokens = some held) : held.refreshToken ≠ pair.refreshToken := by
  obtain ⟨status, body, answer, rfl, -, -⟩ := hans
  cases holds_step h.synced hg hs with
  | same tokens slot => exact (brandNew_iff.mp hnew).2.2 held (tokens ▸ hd)
  | none tokens =>
      rw [tokens] at hd
      cases hd
  | answered i' pair' answers signs fresh tokens =>
      -- a flow that is answered as a refresh is no sign-in
      obtain ⟨i₁, status₁, body₁, f, token₁, he, hf, hkind, -⟩ := signsIn_iff.mp signs
      cases he
      obtain ⟨g, hg₀, hkind'⟩ := presented_iff.mp hsent
      rw [hf] at hg₀
      cases hg₀
      rw [hkind] at hkind'
      cases hkind'
  | applied i' task' pair' action pending gone tokens => cases action

theorem pending_kept {i task : ℕ} {pair : TokenPair} (h : Inv c) (hg : FreshAnswers c a)
    (hs : step c a = some d) (hp : Pending d i task pair) :
    unseen d pair.refreshToken = true ∧
      ∀ held, d.tokens = some held → held.refreshToken ≠ pair.refreshToken := by
  by_cases hold : Pending c i task pair
  · obtain ⟨hu, hne⟩ := h.pending i task pair hold
    exact ⟨unseen_kept h hs hu hne, fun held hd => pending_not_held h hg hs hold hp hd⟩
  · obtain ⟨hans, hnew, token, hsent⟩ := pending_answered h hg hs hp hold
    obtain ⟨hu, -, hne⟩ := brandNew_iff.mp hnew
    exact ⟨unseen_kept h hs hu hne, fun held hd => answered_not_held h hg hs hans hnew hsent hd⟩

theorem apart_kept {i j task task' : ℕ} {pair pair' : TokenPair} (h : Inv c)
    (hg : FreshAnswers c a) (hs : step c a = some d) (hp : Pending d i task pair)
    (hp' : Pending d j task' pair') (heq : pair.refreshToken = pair'.refreshToken) : i = j := by
  by_cases hold : Pending c i task pair
  · by_cases hold' : Pending c j task' pair'
    · exact h.apart i j task task' pair pair' hold hold' heq
    · obtain ⟨-, hnew, -⟩ := pending_answered h hg hs hp' hold'
      exact (brandNew_pending hnew hold heq).elim
  · obtain ⟨hans, hnew, -⟩ := pending_answered h hg hs hp hold
    by_cases hold' : Pending c j task' pair'
    · exact (brandNew_pending hnew hold' heq.symm).elim
    · -- one answer, so one task, and a task has one starter
      obtain ⟨hans', -, -⟩ := pending_answered h hg hs hp' hold'
      obtain ⟨status, body, answer, rfl, -, -⟩ := hans
      obtain ⟨status', body', answer', he, -, -⟩ := hans'
      cases he
      obtain ⟨f, -, hf, hpcf, -⟩ := hp
      obtain ⟨g, -, hg', hpcg, -⟩ := hp'
      exact starter_kept h hs hf hg' hpcf hpcg

theorem once_kept {task task' : ℕ} {token : String} (h : Inv c) (hs : step c a = some d)
    (hp : presented d task = some token) (hp' : presented d task' = some token) :
    task = task' := by
  have hslot : ∀ {k l : ℕ}, presented c k = some token → ¬ Presents c d l token := by
    rintro k l hk ⟨-, hidle, -, -, pair, hpair, rfl⟩
    exact unseen_ne (h.held hidle pair (held_tokens h ▸ hpair)) hk
  have heff := step_effect hs
  have hflow := flow_effect hs
  rcases presented_before heff hflow hp with hold | hnew
  · rcases presented_before heff hflow hp' with hold' | hnew'
    · exact h.once task task' token hold hold'
    · exact (hslot hold hnew').elim
  · rcases presented_before heff hflow hp' with hold' | hnew'
    · exact (hslot hold' hnew).elim
    · exact hnew.1.trans hnew'.1.symm

theorem inv_step (h : Inv c) (hg : FreshAnswers c a) (hs : step c a = some d) : Inv d := by
  refine ⟨synced_step h.synced hs, ?_, ?_, ?_, ?_, ?_, ?_⟩
  · intro i f task hi hpc
    exact started_kept h hs hi hpc
  · intro i j f g task hi hj hpcf hpcg
    exact starter_kept h hs hi hj hpcf hpcg
  · intro hslot pair hpair
    exact held_kept h hg hs hslot hpair
  · intro i task pair hp
    exact pending_kept h hg hs hp
  · intro i j task task' pair pair' hp hp' heq
    exact apart_kept h hg hs hp hp' heq
  · intro task task' token hp hp'
    exact once_kept h hs hp hp'

/-- No two refresh tasks of a client present the same refresh token. -/
theorem one_flight_per_token {stored : Option TokenPair} {c : Client}
    (h : Run step FreshAnswers (init stored) c) {task task' : ℕ} {f f' : Flow} {token : String}
    (hf : c.flows[task]? = some f) (hf' : c.flows[task']? = some f')
    (hkind : f.kind = .refresh token) (hkind' : f'.kind = .refresh token) : task = task' := by
  have hinv : Inv c := h.invariant (I := fun c => Inv c) (inv_init stored)
    fun _ _ _ hi hg hs => inv_step hi hg hs
  exact hinv.once task task' token (presented_iff.mpr ⟨f, hf, hkind⟩)
    (presented_iff.mpr ⟨f', hf', hkind'⟩)

/-- Flow 2 is answered 401 while flow 0 refreshes, and is told so only after flow 0 has applied
the new pair: it starts a refresh of its own, flow 3. -/
def lateSchedule : List Action :=
  [.call .request, .resume 0, .receive 0 (.http 401 {}), .resume 1, .call .request, .resume 2,
    .receive 1 refreshed, .resume 0, .receive 2 (.http 401 {})]

theorem one_flight_per_token_demo :
    ∃ c f f', Run step FreshAnswers (init (some storedPair)) c ∧
      c.flows[1]? = some f ∧ f.kind = .refresh "refresh-1" ∧
        c.flows[3]? = some f' ∧ f'.kind = .refresh "refresh-2" ∧
          ∀ task g, c.flows[task]? = some g → g.kind = .refresh "refresh-1" → task = 1 := by
  have hend : (execWhere step FreshAnswers lateSchedule (init (some storedPair))).any (fun c =>
      (c.flows[1]?).any (fun f => f.kind = .refresh "refresh-1") &&
        (c.flows[3]?).any fun f => f.kind = .refresh "refresh-2") = true := by decide
  obtain ⟨c, hc, hp⟩ := execWhere_any hend
  obtain ⟨h₁, h₃⟩ := Bool.and_eq_true_iff.mp hp
  obtain ⟨f, hf, hkind⟩ := (Option.any_eq_true _ _).mp h₁
  obtain ⟨f', hf', hkind'⟩ := (Option.any_eq_true _ _).mp h₃
  refine ⟨c, f, f', hc, hf, of_decide_eq_true hkind, hf', of_decide_eq_true hkind', ?_⟩
  intro task g hg hk
  exact one_flight_per_token hc hg hf hk (of_decide_eq_true hkind)

end FieldNote.RefreshFlights
