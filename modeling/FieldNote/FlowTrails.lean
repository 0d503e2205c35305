import FieldNote.RequestLoop

/-!
# The actor's calls follow trails

Beside the client a history is kept for each flow: what it has sent and received. Other
flows, sign-outs and cancellations run between its segments, and still the history is one
that the loop on its own could have, so its bounds hold for every call of every run.
-/
namespace FieldNote.FlowTrails
open APIClient CallPool GuardedRuns RequestLoop

structure Traced where
  client : Client
  history : ℕ → List Event

def blank (stored : Option TokenPair) : Traced := ⟨init stored, fun _ => []⟩

/-- The reply on which `performData` calls `refreshTokens`. -/
def refreshes (f : Flow) : Reply → Bool
  | .http status _ => decide (status = 401 ∧ f.kind = .request ∧ f.didRefresh = false)
  | _ => false

/-- What a resumed flow has sent, by the program point it came to. -/
def sentAt : Pc → List Event
  | .sending bearer => [.sent bearer]
  | _ => []

/-- The flow that a step resumes, and what the step adds to its history. -/
def observed (c d : Client) : Action → Option (ℕ × List Event)
  | .receive i reply => some (i, .received reply ::
      if c.flows[i]?.any (refreshes · reply) then [.refreshed] else [])
  | .resume i => some (i, d.flows[i]?.elim [] fun g => sentAt g.pc)
  | _ => none

def record (history : ℕ → List Event) : Option (ℕ × List Event) → ℕ → List Event
  | none => history
  | some (i, events) => Function.update history i (history i ++ events)

def trace (w : Traced) (a : Action) : Option Traced :=
  (step w.client a).map fun d => ⟨d, record w.history (observed w.client d a)⟩

/-- Only the requests of the jobs API are sent with a token. -/
def authorized (f : Flow) : Bool := decide (f.kind = .request)

/-- How the history of a flow stands at its program point. -/
def Follows (f : Flow) (history : List Event) : Prop :=
  match f.pc with
  | .created | .backoff | .starting _ | .joining _ =>
      Trail (authorized f) ⟨f.attempt, f.didRefresh⟩ history
  | .sending bearer => ∃ n before, f.attempt = n + 1 ∧ history = before ++ [.sent bearer] ∧
      Trail (authorized f) ⟨n, f.didRefresh⟩ before
  | .returned _ => ∃ response, Ended (authorized f) history (.ok response)
  | .threw _ => ∃ result, Ended (authorized f) history result ∧
      (f.kind = .request → ∃ failure, result = .error failure)

/-- A flow that is about to go round the loop. -/
inductive Resting : Pc → Prop where
  | created : Resting .created
  | backoff : Resting .backoff
  | starting (task : ℕ) : Resting (.starting task)
  | joining (task : ℕ) : Resting (.joining task)

/-- What one segment does to its flow and to the flow's history. -/
inductive Segment (f : Flow) : List Event → Flow → Prop where
  | began (bearer : Option String) (rest : Resting f.pc) :
      Segment f [.sent bearer] { f with attempt := f.attempt + 1, pc := .sending bearer }
  | gaveUp (attempt : ℕ) (failure : Failure) (rest : Resting f.pc) :
      Segment f [] { f with attempt := attempt, pc := .threw failure }
  | refreshing (bearer : Option String) (body : Body) (pc : Pc) (at_ : f.pc = .sending bearer)
      (kind : f.kind = .request) (first : f.didRefresh = false)
      (next : (∃ task, pc = .starting task) ∨ (∃ task, pc = .joining task) ∨
        ∃ failure, pc = .threw failure) :
      Segment f [.received (.http 401 body), .refreshed] { f with didRefresh := true, pc := pc }
  | succeeded (bearer : Option String) (status : ℕ) (body : Body) (pc : Pc)
      (at_ : f.pc = .sending bearer) (success : Success status)
      (next : (∃ pair, pc = .returned pair) ∨ f.kind ≠ .request ∧ ∃ failure, pc = .threw failure) :
      Segment f [.received (.http status body)] (f.goto pc)
  | retrying (bearer : Option String) (reply : Reply) (at_ : f.pc = .sending bearer)
      (transient : Transient reply) (left : f.attempt < maxAttempts) :
      Segment f [.received reply] (f.goto .backoff)
  | refused (bearer : Option String) (reply : Reply) (failure : Failure)
      (at_ : f.pc = .sending bearer)
      (unsuccessful : ∀ status body, reply = .http status body → ¬ Success status) :
      Segment f [.received reply] (f.goto (.threw failure))

section Segments

variable {c d : Client} {i : ℕ} {f g : Flow} {history events : List Event}

theorem Follows.resting (h : Follows f history) (hrest : Resting f.pc) :
    Trail (authorized f) ⟨f.attempt, f.didRefresh⟩ history := by
  unfold Follows at h
  cases hpc : f.pc <;> rw [hpc] at h hrest
  all_goals first | exact h | cases hrest

theorem Follows.sending {bearer : Option String} (h : Follows f history)
    (hpc : f.pc = .sending bearer) :
    ∃ n before, f.attempt = n + 1 ∧ history = before ++ [.sent bearer] ∧
      Trail (authorized f) ⟨n, f.didRefresh⟩ before := by
  unfold Follows at h
  rw [hpc] at h
  exact h

/-- Each segment carries the history on. -/
theorem follows_segment (h : Follows f history) (hsegment : Segment f events g) :
    Follows g (history ++ events) := by
  cases hsegment with
  | began bearer rest => exact ⟨f.attempt, history, rfl, rfl, h.resting rest⟩
  | gaveUp attempt failure rest =>
      rw [List.append_nil]
      exact ⟨_, .unsent failure (h.resting rest), fun _ => ⟨failure, rfl⟩⟩
  | refreshing bearer body pc at_ kind first next =>
      obtain ⟨n, before, hattempt, rfl, htrail⟩ := h.sending at_
      rw [first] at htrail
      have hrefreshed : Trail (authorized f) ⟨f.attempt, true⟩
          (before ++ [.sent bearer] ++ [.received (.http 401 body), .refreshed]) := by
        rw [hattempt, List.append_assoc]
        exact .refreshed bearer body htrail (decide_eq_true kind)
      rcases next with ⟨task, rfl⟩ | ⟨task, rfl⟩ | ⟨failure, rfl⟩
      · exact hrefreshed
      · exact hrefreshed
      · exact ⟨_, .unsent failure hrefreshed, fun _ => ⟨failure, rfl⟩⟩
  | succeeded bearer status body pc at_ success next =>
      obtain ⟨n, before, hattempt, rfl, htrail⟩ := h.sending at_
      have hended := Ended.returned bearer status body htrail success
      rw [List.append_assoc]
      rcases next with ⟨pair, rfl⟩ | ⟨hkind, failure, rfl⟩
      · exact ⟨_, hended⟩
      · exact ⟨_, hended, fun hrequest => absurd hrequest hkind⟩
  | retrying bearer reply at_ transient left =>
      obtain ⟨n, before, hattempt, rfl, htrail⟩ := h.sending at_
      rw [List.append_assoc]
      have hretried := Trail.retried bearer reply htrail transient (hattempt ▸ left)
      rw [← hattempt] at hretried
      exact hretried
  | refused bearer reply failure at_ unsuccessful =>
      obtain ⟨n, before, hattempt, rfl, htrail⟩ := h.sending at_
      rw [List.append_assoc]
      exact ⟨_, .refused bearer reply failure htrail unsuccessful, fun _ => ⟨failure, rfl⟩⟩

/-- A step replaces the flow it resumes, and the flows it starts have done nothing. -/
structure Resumed (c d : Client) (i : ℕ) (g : Flow) : Prop where
  flows : ∃ new, d.flows = c.flows.set i g ++ new ∧ ∀ n ∈ new, Follows n []

theorem resumed_set (h : d.flows = c.flows.set i g) : Resumed c d i g :=
  ⟨[], by rw [h, List.append_nil], by simp⟩

theorem beginAttempt_segment (hrest : Resting f.pc) :
    ∃ g, Resumed c (c.beginAttempt i f) i g ∧ Segment f (sentAt g.pc) g := by
  rcases f with ⟨kind, attempt, didRefresh, cancelled, pc⟩
  cases kind with
  | request =>
      unfold Client.beginAttempt
      dsimp only
      cases hheld : c.held with
      | none => exact ⟨_, resumed_set rfl, .gaveUp (attempt + 1) _ hrest⟩
      | some pair => exact ⟨_, resumed_set rfl, .began _ hrest⟩
  | signIn => exact ⟨_, resumed_set rfl, .began none hrest⟩
  | refresh token => exact ⟨_, resumed_set rfl, .began none hrest⟩

theorem refreshTokens_segment {bearer : Option String} {body : Body}
    (hpc : f.pc = .sending bearer) (hkind : f.kind = .request) (hfirst : f.didRefresh = false) :
    ∃ g, Resumed c (c.refreshTokens i { f with didRefresh := true }) i g ∧
      Segment f [.received (.http 401 body), .refreshed] g := by
  unfold Client.refreshTokens
  cases htask : c.refreshTask with
  | some task =>
      exact ⟨_, resumed_set rfl, .refreshing bearer body _ hpc hkind hfirst (.inr (.inl ⟨_, rfl⟩))⟩
  | none =>
      dsimp only
      cases hheld : c.held with
      | none =>
          exact ⟨_, resumed_set rfl,
            .refreshing bearer body _ hpc hkind hfirst (.inr (.inr ⟨_, rfl⟩))⟩
      | some current =>
          refine ⟨_, ⟨[{ kind := .refresh current.refreshToken }], rfl, ?_⟩,
            .refreshing bearer body _ hpc hkind hfirst (.inl ⟨_, rfl⟩)⟩
          intro n hn
          rw [List.mem_singleton.mp hn]
          exact .start

theorem retryOr_segment {bearer : Option String} {reply : Reply} {error : APIError}
    (hpc : f.pc = .sending bearer) (htransient : Transient reply) :
    Segment f [.received reply] (f.retryOr error) := by
  have hunsuccessful : ∀ status body, reply = .http status body → ¬ Success status := by
    rintro status body rfl hsuccess
    have hle : 500 ≤ status := htransient
    exact absurd hsuccess.2 (by omega)
  unfold Flow.retryOr
  split_ifs with hleft
  · exact .retrying bearer reply hpc htransient hleft
  · exact .refused bearer reply _ hpc hunsuccessful

theorem complete_segment {bearer : Option String} {status : ℕ} {body : Body}
    (hpc : f.pc = .sending bearer) (hsuccess : Success status) :
    ∃ g, Resumed c (c.complete i f body) i g ∧ Segment f [.received (.http status body)] g := by
  have hreturned (pair : Option TokenPair) :
      Segment f [.received (.http status body)] (f.goto (.returned pair)) :=
    .succeeded bearer status body _ hpc hsuccess (.inl ⟨pair, rfl⟩)
  have hundecoded (hkind : f.kind ≠ .request) :
      Segment f [.received (.http status body)] (f.fail (.decoding body.reason)) :=
    .succeeded bearer status body _ hpc hsuccess (.inr ⟨hkind, _, rfl⟩)
  unfold Client.complete
  split
  · exact ⟨_, resumed_set rfl, hreturned none⟩
  · rename_i hkind
    split
    · exact ⟨_, resumed_set rfl, hundecoded (by simp [hkind])⟩
    · exact ⟨_, resumed_set rfl, hreturned _⟩
  · rename_i hkind
    split
    · exact ⟨_, resumed_set rfl, hundecoded (by simp [hkind])⟩
    · exact ⟨_, resumed_set rfl, hreturned _⟩

/-- What a reply does to its flow. -/
theorem receive_segment {bearer : Option String} (reply : Reply) (hpc : f.pc = .sending bearer) :
    ∃ g, Resumed c (c.receive i f reply) i g ∧
      Segment f (.received reply :: if refreshes f reply then [.refreshed] else []) g := by
  cases reply with
  | http status body =>
      simp only [Client.receive, refreshes, decide_eq_true_eq]
      split_ifs with h401 hok hretry
      · obtain ⟨rfl, hkind, hfirst⟩ := h401
        exact refreshTokens_segment hpc hkind hfirst
      · exact complete_segment hpc hok
      · have htransient : Transient (.http status body) := by
          simpa [Transient, APIError.isRetryable] using hretry
        exact ⟨_, resumed_set rfl, retryOr_segment hpc htransient⟩
      · refine ⟨_, resumed_set rfl, .refused bearer _ _ hpc ?_⟩
        rintro status' body' hreply
        cases hreply
        exact hok
  | notHTTP => exact ⟨_, resumed_set rfl, .refused bearer _ _ hpc (by simp)⟩
  | failed reason => exact ⟨_, resumed_set rfl, retryOr_segment hpc trivial⟩
  | cancelled => exact ⟨_, resumed_set rfl, .refused bearer _ _ hpc (by simp)⟩

theorem threw_segment {failure : Failure} (hrest : Resting f.pc) :
    Segment f [] (f.goto (.threw failure)) :=
  .gaveUp f.attempt failure hrest

/-- What resuming a flow does to it. -/
theorem resume_segment (hs : c.resume i f = some d) :
    ∃ g, Resumed c d i g ∧ Segment f (sentAt g.pc) g := by
  unfold Client.resume at hs
  split at hs
  · rename_i hpc
    cases hs
    exact beginAttempt_segment (hpc ▸ .created)
  · rename_i hpc
    have hrest : Resting f.pc := hpc ▸ .backoff
    split_ifs at hs
    · cases hs
      exact ⟨_, resumed_set rfl, threw_segment hrest⟩
    · cases hs
      exact beginAttempt_segment hrest
  · rename_i task hpc
    have hrest : Resting f.pc := hpc ▸ .starting task
    obtain ⟨value, -, rfl⟩ := Option.map_eq_some_iff.mp hs
    cases value with
    | ok pair =>
        obtain ⟨g, ⟨hflows⟩, hsegment⟩ := beginAttempt_segment (i := i)
          (c := { c.applyTokens pair with refreshTask := none }) hrest
        exact ⟨g, ⟨hflows⟩, hsegment⟩
    | error failure => exact ⟨_, resumed_set rfl, threw_segment hrest⟩
  · rename_i task hpc
    have hrest : Resting f.pc := hpc ▸ .joining task
    obtain ⟨value, -, rfl⟩ := Option.map_eq_some_iff.mp hs
    cases value with
    | ok pair => exact beginAttempt_segment hrest
    | error failure => exact ⟨_, resumed_set rfl, threw_segment hrest⟩
  · cases hs
  · cases hs
  · cases hs

end Segments

/-- Every flow follows a trail, and the positions that are free have no history. -/
structure Inv (w : Traced) : Prop where
  follows : ∀ i f, w.client.flows[i]? = some f → Follows f (w.history i)
  free : ∀ i, w.client.flows.length ≤ i → w.history i = []

section Steps

variable {w w' : Traced} {a : Action} {i : ℕ} {f g : Flow}

/-- A flow that a cancellation has marked. -/
theorem Follows.marked {history : List Event} (h : Follows f history) :
    Follows { f with cancelled := true } history := h

theorem inv_resumed {d : Client} {events : List Event} (hw : Inv w)
    (hi : w.client.flows[i]? = some f) (hresumed : Resumed w.client d i g)
    (hsegment : Segment f events g) :
    Inv ⟨d, Function.update w.history i (w.history i ++ events)⟩ := by
  obtain ⟨new, hflows, hnew⟩ := hresumed.flows
  have hlt : i < w.client.flows.length := (List.getElem?_eq_some_iff.mp hi).1
  have hfree : ∀ j, w.client.flows.length ≤ j →
      Function.update w.history i (w.history i ++ events) j = [] := by
    intro j hj
    rw [Function.update_of_ne (by omega)]
    exact hw.free j hj
  constructor
  · intro j f' hj
    dsimp only at hj ⊢
    rw [hflows] at hj
    rcases getElem?_advance_cases hj with ⟨rfl, rfl⟩ | ⟨hne, hj⟩ | ⟨hle, hj⟩
    · rw [Function.update_self]
      exact follows_segment (hw.follows j f hi) hsegment
    · rw [Function.update_of_ne hne]
      exact hw.follows j f' hj
    · rw [hfree j hle]
      exact hnew f' (List.mem_of_getElem? hj)
  · intro j hj
    dsimp only at hj ⊢
    rw [hflows, List.length_append, List.length_set] at hj
    exact hfree j (by omega)

theorem resumed_at {d : Client} (hi : w.client.flows[i]? = some f)
    (hresumed : Resumed w.client d i g) : d.flows[i]? = some g := by
  obtain ⟨new, hflows, -⟩ := hresumed.flows
  rw [hflows]
  exact getElem?_advance_same hi

theorem inv_step (hw : Inv w) (hs : trace w a = some w') : Inv w' := by
  obtain ⟨d, hd, rfl⟩ := Option.map_eq_some_iff.mp hs
  cases a with
  | call kind =>
      have hcalled : d = { w.client with flows := w.client.flows ++ [{ kind := kind }] } := by
        cases kind <;> cases hd <;> rfl
      subst hcalled
      constructor
      · intro j f hj
        rcases getElem?_start_cases hj with ⟨rfl, rfl⟩ | ⟨-, hj⟩
        · rw [show record w.history _ = w.history from rfl, hw.free _ (Nat.le_refl _)]
          exact .start
        · exact hw.follows j f hj
      · intro j hj
        simp only [List.length_append] at hj
        exact hw.free j (by omega)
  | resume i =>
      obtain ⟨f, hi, hresume⟩ := Option.bind_eq_some_iff.mp hd
      obtain ⟨g, hresumed, hsegment⟩ := resume_segment hresume
      have hinv := inv_resumed hw hi hresumed hsegment
      simpa only [record, observed, resumed_at hi hresumed, Option.elim_some] using hinv
  | receive i reply =>
      obtain ⟨f, hi, hreceive⟩ := Option.bind_eq_some_iff.mp hd
      split at hreceive
      · rename_i bearer hpc
        split_ifs at hreceive
        cases hreceive
        obtain ⟨g, hresumed, hsegment⟩ := receive_segment (c := w.client) (i := i) reply hpc
        have hinv := inv_resumed hw hi hresumed hsegment
        simpa only [record, observed, hi, Option.any_some] using hinv
      · cases hreceive
  | cancel i =>
      obtain ⟨f, hi, hcancel⟩ := Option.bind_eq_some_iff.mp hd
      split at hcancel
      · cases hcancel
      · cases hcancel
        constructor
        · intro j f' hj
          rcases getElem?_set_cases hj with ⟨rfl, rfl⟩ | ⟨-, hj⟩
          · exact (hw.follows j f hi).marked
          · exact hw.follows j f' hj
        · intro j hj
          exact hw.free j (by simpa [Client.setFlow] using hj)
  | signOut =>
      cases hd
      constructor
      · intro j f' hj
        simp only [Client.signOut] at hj
        split at hj
        · exact hw.follows j f' hj
        · rename_i task htask
          rw [List.getElem?_modify] at hj
          obtain ⟨f, hf, rfl⟩ := Option.map_eq_some_iff.mp hj
          split_ifs
          · exact (hw.follows j f hf).marked
          · exact hw.follows j f hf
      · intro j hj
        refine hw.free j ?_
        simp only [Client.signOut] at hj
        split at hj
        · exact hj
        · simpa using hj

end Steps

theorem inv_run {stored : Option TokenPair} {w : Traced} (h : Run trace anyStep (blank stored) w) :
    Inv w :=
  h.invariant ⟨fun i f hi => by simp [blank, init] at hi, fun _ _ => rfl⟩
    fun _ _ _ hw _ hs => inv_step hw hs

/-- The bounds of the loop, for a call at any point of it. -/
structure Within (f : Flow) (history : List Event) : Prop where
  sends : sends history ≤ maxAttempts + if authorized f then 1 else 0
  refreshes : history.count .refreshed ≤ if authorized f then 1 else 0
  returned : ∀ pair, f.pc = .returned pair → ∃ status body, Success status ∧
    lastReply history = some (.http status body)
  final : ∀ early late status body, history = early ++ .received (.http status body) :: late →
    status ≠ 401 → status < 500 → RequestLoop.sends late = 0

section Bounds

variable {f : Flow} {history : List Event}

theorem within_trail {s : Loop} (h : Trail (authorized f) s history)
    (hpc : ∀ pair, f.pc ≠ .returned pair) : Within f history where
  sends := Nat.le_of_succ_le h.sends_le
  refreshes := h.refreshes_le
  returned := fun pair hreturned => absurd hreturned (hpc pair)
  final := fun _ _ _ _ hsplit h401 hlt =>
    absurd (hsplit ▸ List.mem_append_right _ List.mem_cons_self) (h.not_final h401 hlt)

theorem within_sending {s : Loop} {bearer : Option String} (h : Trail (authorized f) s history)
    (hpc : f.pc = .sending bearer) : Within f (history ++ [.sent bearer]) where
  sends := by
    rw [sends_append]
    exact h.sends_le
  refreshes := by simpa [List.count_append] using h.refreshes_le
  returned := fun pair hreturned => by rw [hpc] at hreturned; cases hreturned
  final := by
    intro early late status body hsplit h401 hlt
    have hmem : .received (.http status body) ∈ history ++ [.sent bearer] :=
      hsplit ▸ List.mem_append_right _ List.mem_cons_self
    exact absurd (by simpa using hmem) (h.not_final h401 hlt)

theorem within_ended {result : Except Failure (ℕ × Body)}
    (h : Ended (authorized f) history result)
    (hpc : ∀ pair, f.pc = .returned pair → ∃ response, result = .ok response) :
    Within f history where
  sends := h.sends_le
  refreshes := h.refreshes_le
  returned := by
    intro pair hreturned
    obtain ⟨⟨status, body⟩, rfl⟩ := hpc pair hreturned
    exact ⟨status, body, (h.sound status body).mp rfl⟩
  final := fun _ _ _ _ => h.final

theorem Follows.within (h : Follows f history) : Within f history := by
  unfold Follows at h
  cases hpc : f.pc <;> simp only [hpc] at h
  case sending bearer =>
      obtain ⟨n, before, -, rfl, htrail⟩ := h
      exact within_sending htrail hpc
  case returned pair =>
      obtain ⟨response, hended⟩ := h
      exact within_ended hended fun _ _ => ⟨response, rfl⟩
  case threw failure =>
      obtain ⟨result, hended, -⟩ := h
      exact within_ended hended fun pair hreturned => by simp [hpc] at hreturned
  all_goals exact within_trail h (by simp [hpc])

end Bounds

/-- In every run each call keeps to the bounds of the loop. -/
theorem flows_within {stored : Option TokenPair} {w : Traced}
    (h : Run trace anyStep (blank stored) w) {i : ℕ} {f : Flow}
    (hi : w.client.flows[i]? = some f) : Within f (w.history i) :=
  ((inv_run h).follows i f hi).within

end FieldNote.FlowTrails
