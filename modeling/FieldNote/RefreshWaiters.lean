import FieldNote.APIClient

/-!
# What the waiters of a token refresh see

The starter of the shared refresh task applies the new pair after its own resumption; a
joiner only waits for the task. The guard is the order in which this is enough: a joiner
goes on after its starter and only from a refresh that succeeded, and while a joiner still
has to go on the pair is not replaced or cleared. Under it every waiter of a successful
refresh retries with the new access token and every waiter of a failed one fails with
`unauthorized`.
-/
namespace FieldNote.RefreshWaiters
open APIClient GuardedRuns CallPool

/-- The flow that started the refresh task still waits for it. -/
def starterWaits (c : Client) (task : ℕ) : Bool := c.flows.any fun f => f.pc = .starting task

def succeeded (c : Client) (task : ℕ) : Bool :=
  match c.flows[task]?.bind Flow.value with
  | some (.ok _) => true
  | _ => false

/-- A joiner of a successful refresh has yet to go on, and its starter already has. -/
def owed (c : Client) : Bool :=
  c.flows.any fun f =>
    match f.pc with
    | .joining task => succeeded c task && !starterWaits c task
    | _ => false

/-- A joiner goes on after its starter and from a successful refresh only; no pair is
applied or cleared while a joiner is owed one. -/
def waitersServed (c : Client) : Action → Bool
  | .resume i =>
      match c.flows[i]?.map Flow.pc with
      | some (.joining task) => succeeded c task && !starterWaits c task
      | some (.starting _) => !owed c
      | _ => true
  | .receive i (.http status _) =>
      match c.flows[i]?.map Flow.kind with
      | some .signIn => !(decide (200 ≤ status ∧ status < 300)) || !owed c
      | _ => true
  | .signOut => !owed c
  | _ => true

def Guard (c : Client) (a : Action) : Prop := waitersServed c a = true

instance : DecidableRel Guard := fun _ _ => inferInstanceAs (Decidable (_ = true))

variable {c d : Client} {a : Action}

theorem starterWaits_iff {task : ℕ} :
    starterWaits c task = true ↔
      ∃ (i : ℕ) (f : Flow), c.flows[i]? = some f ∧ f.pc = .starting task := by
  simp only [starterWaits, List.any_eq_true, decide_eq_true_eq]
  constructor
  · rintro ⟨f, hf, hpc⟩
    obtain ⟨i, hi⟩ := List.mem_iff_getElem?.mp hf
    exact ⟨i, f, hi, hpc⟩
  · rintro ⟨i, f, hi, hpc⟩
    exact ⟨f, List.mem_of_getElem? hi, hpc⟩

theorem succeeded_of_value {task : ℕ} {g : Flow} {pair : TokenPair}
    (hg : c.flows[task]? = some g) (hv : g.value = some (.ok pair)) :
    succeeded c task = true := by
  simp [succeeded, hg, hv]

theorem owed_of_joining {i task : ℕ} {f : Flow} (hf : c.flows[i]? = some f)
    (hpc : f.pc = .joining task) (hs : succeeded c task = true)
    (hw : starterWaits c task = false) : owed c = true := by
  simp only [owed, List.any_eq_true]
  exact ⟨f, List.mem_of_getElem? hf, by simp [hpc, hs, hw]⟩

theorem signOut_flow (c : Client) (k : ℕ) :
    c.signOut.flows[k]? = c.flows[k]?.map fun f =>
      if c.refreshTask = some k then { f with cancelled := true } else f := by
  unfold Client.signOut
  cases c.refreshTask with
  | none => simp
  | some task =>
      simp only [List.getElem?_modify]
      split_ifs <;> simp_all

/-- The step resumes the starter `g` of a refresh, at position `k`. -/
structure Resumed (a : Action) (d : Client) (k : ℕ) (g : Flow) : Prop where
  action : a = .resume k
  starting : ∃ task, g.pc = .starting task
  idle : d.refreshTask = none

/-- A flow stays where it is unless it is live, or started a refresh and is resumed, which
leaves no current task. -/
theorem flow_kept {k : ℕ} {g : Flow} (h : Effect c a d) (hk : c.flows[k]? = some g) :
    ∃ g', d.flows[k]? = some g' ∧
      (g'.pc = g.pc ∨ g.Live ∨ Resumed a d k g) := by
  have hset : ∀ (i : ℕ) (f f' : Flow), c.flows[i]? = some f →
      (k = i → f'.pc = g.pc ∨ g.Live ∨ Resumed a d k g) →
        ∃ g', (c.flows.set i f')[k]? = some g' ∧
          (g'.pc = g.pc ∨ g.Live ∨ Resumed a d k g) := by
    intro i f f' hi hpc
    by_cases hki : k = i
    · subst hki
      exact ⟨f', getElem?_set_same hi, hpc rfl⟩
    · exact ⟨g, (getElem?_set_other hki).trans hk, .inl rfl⟩
  have hlt : k < c.flows.length := (List.getElem?_eq_some_iff.mp hk).1
  cases h with
  | called kind kind_ne eq =>
      subst eq
      exact ⟨g, by simpa [List.getElem?_append_left hlt] using hk, .inl rfl⟩
  | marked i f flow eq =>
      subst eq
      refine hset i f _ flow ?_
      rintro rfl
      rw [hk] at flow
      cases flow
      exact .inl rfl
  | signedOut action eq =>
      subst eq
      refine ⟨_, (signOut_flow c k).trans (by rw [hk]; rfl), .inl ?_⟩
      split_ifs <;> rfl
  | moved i f f' tokens flow live kind next loaded eq =>
      subst eq
      refine hset i f f' flow ?_
      rintro rfl
      rw [hk] at flow
      cases flow
      exact .inr (.inl live)
  | signedIn i f status body token action ok flow live kind decoded eq =>
      subst eq
      refine hset i f _ flow ?_
      rintro rfl
      rw [hk] at flow
      cases flow
      exact .inr (.inl live)
  | joined i task f f' flow live kind pc current eq =>
      subst eq
      refine hset i f f' flow ?_
      rintro rfl
      rw [hk] at flow
      cases flow
      exact .inr (.inl live)
  | started i f f' current flow live kind pc idle held eq =>
      subst eq
      obtain ⟨g', hg', hpc⟩ := hset i f f' flow (by
        rintro rfl
        rw [hk] at flow
        cases flow
        exact .inr (.inl live))
      refine ⟨g', ?_, hpc⟩
      rw [← hg']
      exact List.getElem?_append_left (by simpa using hlt)
  | applied i task f f' g₀ pair action flow pc done value kind next eq =>
      subst eq
      refine hset i f f' flow ?_
      rintro rfl
      rw [hk] at flow
      cases flow
      exact .inr (.inr ⟨action, ⟨task, pc⟩, rfl⟩)
  | expired i task f g₀ failure action flow pc done value eq =>
      subst eq
      refine hset i f _ flow ?_
      rintro rfl
      rw [hk] at flow
      cases flow
      exact .inr (.inr ⟨action, ⟨task, pc⟩, rfl⟩)

/-- The result of a task never changes. -/
theorem value_kept {k : ℕ} {g : Flow} {v : Except Failure TokenPair} (h : Effect c a d)
    (hk : c.flows[k]? = some g) (hv : g.value = some v) :
    ∃ g', d.flows[k]? = some g' ∧ g'.value = some v := by
  obtain ⟨g', hg', hpc⟩ := flow_kept h hk
  refine ⟨g', hg', ?_⟩
  rcases hpc with hpc | hlive | ⟨-, ⟨task, hpc⟩, -⟩
  · unfold Flow.value at hv ⊢
    rwa [hpc]
  · unfold Flow.value at hv
    split at hv
    · rename_i pair hpc
      exact (hlive.not_returned _ hpc).elim
    · rename_i failure hpc
      exact (hlive.not_threw _ hpc).elim
    · cases hv
  · simp [Flow.value, hpc] at hv

/-- A starter waits until it is resumed itself. -/
theorem starter_kept {i task : ℕ} {f : Flow} (h : Effect c a d)
    (hi : c.flows[i]? = some f) (hpc : f.pc = .starting task) (ha : a ≠ .resume i) :
    starterWaits d task = true := by
  obtain ⟨f', hf', hpc'⟩ := flow_kept h hi
  rcases hpc' with hpc' | hlive | hres
  · exact starterWaits_iff.mpr ⟨i, f', hf', hpc'.trans hpc⟩
  · exact (hlive.not_starting task hpc).elim
  · exact (ha hres.action).elim

/-- The flow waits for the refresh task, as its starter or as a joiner. -/
def Waits (f : Flow) (task : ℕ) : Prop := f.pc = .starting task ∨ f.pc = .joining task

/-- A waiter waited before the step, or is a request that begins to wait; it then joins
the current task. -/
theorem waiting_cases {j task : ℕ} {f' : Flow} (h : Effect c a d)
    (hj : d.flows[j]? = some f') (hw : Waits f' task) :
    (∃ f, c.flows[j]? = some f ∧ f.pc = f'.pc ∧ f.kind = f'.kind) ∨
      (f'.kind = .request ∧ (f'.pc = .joining task → c.refreshTask = some task)) := by
  have hset : ∀ (i : ℕ) (f₁ : Flow), (c.flows.set i f₁)[j]? = some f' → ¬ Waits f₁ task →
      ∃ f, c.flows[j]? = some f ∧ f.pc = f'.pc ∧ f.kind = f'.kind := by
    intro i f₁ hj hne
    rcases getElem?_set_cases hj with ⟨-, rfl⟩ | ⟨-, hj⟩
    · exact (hne hw).elim
    · exact ⟨f', hj, rfl, rfl⟩
  have hnext : ∀ f₁ : Flow, NextPc f₁.pc → ¬ Waits f₁ task := by
    rintro f₁ hn (he | he) <;> rw [he] at hn <;> cases hn
  have hthrew : ∀ (f₁ : Flow) (e : APIError), ¬ Waits (f₁.fail e) task :=
    fun f₁ e => hnext (f₁.fail e) (.threw _)
  cases h with
  | called kind kind_ne eq =>
      subst eq
      rcases getElem?_start_cases hj with ⟨-, rfl⟩ | ⟨-, hj⟩
      · rcases hw with hw | hw <;> cases hw
      · exact .inl ⟨f', hj, rfl, rfl⟩
  | marked i f flow eq =>
      subst eq
      rcases getElem?_set_cases hj with ⟨rfl, rfl⟩ | ⟨-, hj⟩
      · exact .inl ⟨f, flow, rfl, rfl⟩
      · exact .inl ⟨f', hj, rfl, rfl⟩
  | signedOut action eq =>
      subst eq
      rw [signOut_flow] at hj
      obtain ⟨f, hf, rfl⟩ := Option.map_eq_some_iff.mp hj
      refine .inl ⟨f, hf, ?_⟩
      split_ifs <;> exact ⟨rfl, rfl⟩
  | moved i f f₁ tokens flow live kind next loaded eq =>
      subst eq
      exact .inl (hset i f₁ hj (hnext f₁ next))
  | signedIn i f status body token action ok flow live kind decoded eq =>
      subst eq
      exact .inl (hset i _ hj (hnext _ (.returned _)))
  | joined i task' f f₁ flow live kind pc current eq =>
      subst eq
      rcases getElem?_set_cases hj with ⟨rfl, rfl⟩ | ⟨-, hj⟩
      · refine .inr ⟨kind, fun hpc => ?_⟩
        rw [pc] at hpc
        cases hpc
        exact current
      · exact .inl ⟨f', hj, rfl, rfl⟩
  | started i f f₁ current flow live kind pc idle held eq =>
      subst eq
      rcases getElem?_start_cases hj with ⟨-, rfl⟩ | ⟨-, hj⟩
      · rcases hw with hw | hw <;> cases hw
      · rcases getElem?_set_cases hj with ⟨-, rfl⟩ | ⟨-, hj⟩
        · refine .inr ⟨kind, fun hpc => ?_⟩
          rw [pc] at hpc
          cases hpc
        · exact .inl ⟨f', hj, rfl, rfl⟩
  | applied i task' f f₁ g pair action flow pc done value kind next eq =>
      subst eq
      exact .inl (hset i f₁ hj (hnext f₁ next))
  | expired i task' f g failure action flow pc done value eq =>
      subst eq
      exact .inl (hset i _ hj (hthrew _ _))

/-- A current task was current before the step or is started by it. -/
theorem task_cases {task : ℕ} (h : Effect c a d) (ht : d.refreshTask = some task) :
    c.refreshTask = some task ∨ starterWaits d task = true := by
  cases h with
  | called kind kind_ne eq =>
      subst eq
      exact .inl ht
  | marked i f flow eq =>
      subst eq
      exact .inl ht
  | signedOut action eq =>
      subst eq
      cases ht
  | moved i f f' tokens flow live kind next loaded eq =>
      subst eq
      exact .inl ht
  | signedIn i f status body token action ok flow live kind decoded eq =>
      subst eq
      exact .inl ht
  | joined i task' f f' flow live kind pc current eq =>
      subst eq
      exact .inl ht
  | started i f f' current flow live kind pc idle held eq =>
      subst eq
      cases ht
      refine .inr (starterWaits_iff.mpr ⟨i, f', ?_, pc⟩)
      have hlt : i < c.flows.length := (List.getElem?_eq_some_iff.mp flow).1
      exact (List.getElem?_append_left (by simpa using hlt)).trans (getElem?_set_same flow)
  | applied i task' f f' g pair action flow pc done value kind next eq =>
      subst eq
      cases ht
  | expired i task' f g failure action flow pc done value eq =>
      subst eq
      cases ht

/-- The refresh has ended, and if it succeeded its pair is the current one. -/
def Settled (c : Client) (task : ℕ) : Prop :=
  ∃ g v, c.flows[task]? = some g ∧ g.value = some v ∧ ∀ pair, v = .ok pair → c.tokens = some pair

structure Inv (c : Client) : Prop where
  current : ∀ task, c.refreshTask = some task → starterWaits c task = true
  joined : ∀ (i : ℕ) f task, c.flows[i]? = some f → f.pc = .joining task →
    starterWaits c task = true ∨ Settled c task
  kind : ∀ (i : ℕ) f task, c.flows[i]? = some f → Waits f task → f.kind = .request

theorem inv_init (stored : Option TokenPair) : Inv (init stored) := by
  refine ⟨?_, ?_, ?_⟩ <;> simp [init]

/-- Steps that keep a current pair keep a settled refresh settled. -/
theorem Settled.keep {task : ℕ} (hset : Settled c task) (h : Effect c a d)
    (htok : ∀ pair, succeeded c task = true → c.tokens = some pair → d.tokens = some pair) :
    Settled d task := by
  obtain ⟨g, v, hg, hv, hp⟩ := hset
  obtain ⟨g', hg', hv'⟩ := value_kept h hg hv
  refine ⟨g', v, hg', hv', ?_⟩
  rintro pair rfl
  exact htok pair (succeeded_of_value hg hv) (hp pair rfl)

/-- Under the guard a joiner of a successful refresh whose starter went on keeps the
current pair. -/
theorem tokens_kept {j task : ℕ} {f : Flow} {pair : TokenPair} (h : Effect c a d)
    (hg : Guard c a) (hj : c.flows[j]? = some f) (hpc : f.pc = .joining task)
    (hs : succeeded c task = true) (hw : starterWaits c task = false)
    (ht : c.tokens = some pair) : d.tokens = some pair := by
  have howed := owed_of_joining hj hpc hs hw
  cases h with
  | called kind kind_ne eq => exact eq ▸ ht
  | marked i f flow eq => exact eq ▸ ht
  | signedOut action eq =>
      subst action
      simp [Guard, waitersServed, howed] at hg
  | moved i f f' tokens flow live kind next loaded eq =>
      subst eq
      rcases loaded with rfl | rfl
      · exact ht
      · simp [Client.held, ht]
  | signedIn i f status body token action ok flow live kind decoded eq =>
      subst action
      simp [Guard, waitersServed, flow, kind, ok.1, ok.2, howed] at hg
  | joined i task' f f' flow live kind pc current eq => exact eq ▸ ht
  | started i f f' current flow live kind pc idle held eq => exact eq ▸ ht
  | applied i task' f f' g pair action flow pc done value kind next eq =>
      subst action
      simp [Guard, waitersServed, flow, pc, howed] at hg
  | expired i task' f g failure action flow pc done value eq =>
      subst action
      simp [Guard, waitersServed, flow, pc, howed] at hg

/-- When the starter of a refresh goes on, the refresh has ended and a pair it brought is
the current one. -/
theorem settled_of_resume {i task : ℕ} {f : Flow} (hi : c.flows[i]? = some f)
    (hpc : f.pc = .starting task) (hs : step c (.resume i) = some d) : Settled d task := by
  have heff := step_effect hs
  simp only [step, hi, Option.bind_some, Client.resume, hpc] at hs
  obtain ⟨value, hv, rfl⟩ := Option.map_eq_some_iff.mp hs
  obtain ⟨g, hg, hv⟩ := Option.bind_eq_some_iff.mp hv
  obtain ⟨g', hg', hv'⟩ := value_kept heff hg hv
  refine ⟨g', value, hg', hv', ?_⟩
  rintro pair rfl
  obtain ⟨f', tokens, -, -, htokens, heq⟩ :=
    beginAttempt_spec { c.applyTokens pair with refreshTask := none } i f
  simp only [Client.finishRefresh, heq]
  rcases htokens with h | h <;> exact h

theorem inv_step (h : Inv c) (hg : Guard c a) (hs : step c a = some d) : Inv d := by
  have heff := step_effect hs
  -- a starter of `task` that goes on leaves the refresh settled
  have hstarter : ∀ task, starterWaits c task = true →
      starterWaits d task = true ∨ Settled d task := by
    intro task hw
    obtain ⟨i, f, hi, hpc⟩ := starterWaits_iff.mp hw
    by_cases ha : a = .resume i
    · subst ha
      exact .inr (settled_of_resume hi hpc hs)
    · exact .inl (starter_kept heff hi hpc ha)
  refine ⟨?_, ?_, ?_⟩
  · intro task ht
    rcases task_cases heff ht with hcur | hw
    · obtain ⟨i, f, hi, hpc⟩ := starterWaits_iff.mp (h.current task hcur)
      obtain ⟨f', hf', hpc'⟩ := flow_kept heff hi
      rcases hpc' with hpc' | hlive | hres
      · exact starterWaits_iff.mpr ⟨i, f', hf', hpc'.trans hpc⟩
      · exact (hlive.not_starting task hpc).elim
      · rw [hres.idle] at ht
        cases ht
    · exact hw
  · intro j f' task hj hpc
    rcases waiting_cases heff hj (.inr hpc) with ⟨f, hf, hfpc, -⟩ | ⟨-, hcur⟩
    · rw [hpc] at hfpc
      rcases h.joined j f task hf hfpc with hw | hset
      · exact hstarter task hw
      · cases hw : starterWaits c task with
        | true => exact hstarter task hw
        | false =>
            exact .inr (hset.keep heff fun pair hsucc ht =>
              tokens_kept heff hg hf hfpc hsucc hw ht)
    · exact hstarter task (h.current task (hcur hpc))
  · intro j f' task hj hw
    rcases waiting_cases heff hj hw with ⟨f, hf, hfpc, hkind⟩ | ⟨hkind, -⟩
    · exact hkind ▸ h.kind j f task hf (by simpa only [Waits, hfpc] using hw)
    · exact hkind

theorem inv_run {stored : Option TokenPair} (h : Run step Guard (init stored) c) : Inv c :=
  h.invariant (inv_init stored) fun _ _ _ hi hg hs => inv_step hi hg hs

/-- Flow `i` goes on as the outcome of the refresh it waited for prescribes. -/
def GetsOutcome (c : Client) (i : ℕ) : Except Failure TokenPair → Prop
  | .ok pair => ∃ f, c.flows[i]? = some f ∧ f.pc = .sending (some pair.accessToken)
  | .error _ => ∃ f, c.flows[i]? = some f ∧ f.pc = .threw (.api .unauthorized)

/-- A request that begins an attempt sends the access token the client holds. -/
theorem beginAttempt_request {i : ℕ} {f f₀ : Flow} {pair : TokenPair}
    (hi : c.flows[i]? = some f₀) (hk : f.kind = .request) (ht : c.held = some pair) :
    ∃ f', (c.beginAttempt i f).flows[i]? = some f' ∧
      f'.pc = .sending (some pair.accessToken) := by
  rcases f with ⟨kind, attempt, didRefresh, cancelled, pc⟩
  cases hk
  simp only [Client.beginAttempt, ht]
  exact ⟨_, getElem?_set_same hi, rfl⟩

/-- In every run that meets the guard, whoever is resumed from a refresh, its starter or
any joiner, retries with the new access token if the refresh succeeded and fails with
`unauthorized` if it failed. -/
theorem waiters_get_outcome {stored : Option TokenPair} {i task : ℕ} {f : Flow}
    (hc : Run step Guard (init stored) c) (hi : c.flows[i]? = some f) (hw : Waits f task)
    (hg : Guard c (.resume i)) (hs : step c (.resume i) = some d) :
    ∃ g value, c.flows[task]? = some g ∧ g.value = some value ∧ GetsOutcome d i value := by
  have hinv := inv_run hc
  have hkind := hinv.kind i f task hi hw
  rcases hw with hpc | hpc
  · simp only [step, hi, Option.bind_some, Client.resume, hpc] at hs
    obtain ⟨value, hv, rfl⟩ := Option.map_eq_some_iff.mp hs
    obtain ⟨g, hgt, hv⟩ := Option.bind_eq_some_iff.mp hv
    refine ⟨g, value, hgt, hv, ?_⟩
    cases value with
    | ok pair => exact beginAttempt_request (by exact hi) hkind rfl
    | error failure => exact ⟨_, getElem?_set_same hi, rfl⟩
  · simp only [Guard, waitersServed, hi, Option.map_some, hpc, Bool.and_eq_true,
      Bool.not_eq_true'] at hg
    obtain ⟨hsucc, hw⟩ := hg
    rcases hinv.joined i f task hi hpc with hw' | ⟨g, value, hgt, hv, htok⟩
    · rw [hw] at hw'
      cases hw'
    · refine ⟨g, value, hgt, hv, ?_⟩
      simp only [step, hi, Option.bind_some, Client.resume, hpc, hgt, hv, Option.map_some,
        Option.some.injEq] at hs
      subst hs
      cases value with
      | ok pair =>
          exact beginAttempt_request hi hkind (by simp [Client.held, htok pair rfl])
      | error failure => simp [succeeded, hgt, hv] at hsucc

/-- Two requests are answered 401; flow 2 is the refresh both wait for, and it succeeds. -/
def sharedRefresh : List Action :=
  [.call .request, .call .request, .resume 0, .resume 1, .receive 0 (.http 401 {}),
    .receive 1 (.http 401 {}), .resume 2,
    .receive 2 (.http 200 { token := some ⟨"access-2", "refresh-2", 900, "user-1"⟩ })]

def storedPair : TokenPair := ⟨"access-1", "refresh-1", "user-1"⟩

theorem waiters_get_outcome_demo :
    ∃ c d, Run step Guard (init (some storedPair)) c ∧ step c (.resume 1) = some d ∧
      GetsOutcome d 1 (.ok ⟨"access-2", "refresh-2", "user-1"⟩) := by
  have hend : (execWhere step Guard (sharedRefresh ++ [.resume 0])
      (init (some storedPair))).any (fun c => decide
        (c.flows[1]? = some ⟨.request, 1, true, false, .joining 2⟩ ∧
          (c.flows[2]?.bind fun g => g.value.bind Except.toOption) =
            some ⟨"access-2", "refresh-2", "user-1"⟩ ∧
          Guard c (.resume 1) ∧ (step c (.resume 1)).isSome = true)) = true := by decide
  obtain ⟨c, hc, hp⟩ := execWhere_any hend
  obtain ⟨hf, hpair, hg, hs⟩ := of_decide_eq_true hp
  obtain ⟨d, hd⟩ := Option.isSome_iff_exists.mp hs
  obtain ⟨g, value, hgt, hv, hout⟩ := waiters_get_outcome hc hf (.inr rfl) hg hd
  refine ⟨c, d, hc, hd, ?_⟩
  rw [hgt, Option.bind_some, hv] at hpair
  cases value with
  | ok pair =>
      cases hpair
      exact hout
  | error failure => cases hpair

/-- A joiner that is resumed before the starter retries with the old access token. -/
theorem joiner_before_starter_retries_with_old_token :
    ¬ ∀ (stored : Option TokenPair) (c d : Client) (i task : ℕ) (f g : Flow)
      (value : Except Failure TokenPair), Run step anyStep (init stored) c →
        c.flows[i]? = some f → Waits f task → c.flows[task]? = some g →
          g.value = some value → step c (.resume i) = some d → GetsOutcome d i value := by
  intro h
  have hend : (exec step sharedRefresh (init (some storedPair))).any (fun c => decide
      (c.flows[1]? = some ⟨.request, 1, true, false, .joining 2⟩ ∧
        c.flows[2]? = some ⟨.refresh "refresh-1", 1, false, false,
          .returned (some ⟨"access-2", "refresh-2", "user-1"⟩)⟩) &&
        (step c (.resume 1)).any fun d => decide
          (d.flows[1]?.map Flow.pc = some (.sending (some "access-1")))) = true := by decide
  obtain ⟨c, hc, hp⟩ := exec_any hend
  obtain ⟨hflows, hstep⟩ := (Bool.and_eq_true _ _).mp hp
  obtain ⟨hf, hg⟩ := of_decide_eq_true hflows
  obtain ⟨d, hd, hold⟩ := (Option.any_eq_true _ _).mp hstep
  obtain ⟨f', hf', hpc⟩ := h _ c d 1 2 _ _ _ hc hf (.inr rfl) hg rfl hd
  have hsent := of_decide_eq_true hold
  rw [hf', Option.map_some, hpc] at hsent
  exact absurd hsent (by decide)

end FieldNote.RefreshWaiters
