import FieldNote.APIClient

/-!
# The request loop over an outcome sequence

`performData` as a function of how its sends end. Its two reasons to go round again are kept
apart: a failure that may pass spends one of the attempts, and the first 401 of an authorized
request is answered by a refresh whatever attempt it was, so it can buy one send more. The
refresh runs the same loop without authorization. A trail is the history of a loop that is
about to try again; the calls of the actor, whatever runs between their segments, follow
trails too.
-/
namespace FieldNote.RequestLoop
open APIClient

/-- What one call does to the network, in order. -/
inductive Event where
  | sent (bearer : Option String)
  | received (reply : Reply)
  | refreshed
deriving DecidableEq

/-- What the call meets at each attempt: whether a URL can be built, the access token that is
held, the end of the send, and whether the sleep behind it runs to its end. -/
structure Transport where
  urlBuilt : Bool
  token : ℕ → Option String
  outcome : ℕ → Reply
  woken : ℕ → Bool

/-- The two variables of the loop. -/
structure Loop where
  attempt : ℕ
  didRefresh : Bool
deriving DecidableEq

/-- One round of the loop goes on, returns the response, or throws. -/
inductive Turn where
  | again
  | returned (status : ℕ) (body : Body)
  | threw (failure : Failure)

/-- `try await backoff(attempt); continue`. -/
def backoff (woken : Bool) : Turn := if woken then .again else .threw .cancelled

/-- The loop body behind `session.data(for:)`. -/
def receive (authorized : Bool) (refresh : Except Failure Unit) (woken : Bool) (s : Loop) :
    Reply → List Event × Loop × Turn
  | .http status body =>
      if status = 401 ∧ authorized = true ∧ s.didRefresh = false then
        ([.refreshed], { s with didRefresh := true },
          match refresh with
          | .ok () => .again
          | .error failure => .threw failure)
      else if 200 ≤ status ∧ status < 300 then ([], s, .returned status body)
      else if (APIError.server status body.detail).isRetryable ∧ s.attempt < maxAttempts then
        ([], s, backoff woken)
      else ([], s, .threw (.api (.server status body.detail)))
  | .notHTTP => ([], s, .threw (.api (.transport "Non-HTTP response")))
  | .failed reason =>
      if s.attempt < maxAttempts then ([], s, backoff woken)
      else ([], s, .threw (.api (.transport reason)))
  | .cancelled => ([], s, .threw .cancelled)

/-- The `Authorization` header of an attempt. -/
def Transport.bearer (t : Transport) (authorized : Bool) (attempt : ℕ) : Option String :=
  if authorized then t.token attempt else none

/-- One round of the loop. -/
def turn (authorized : Bool) (refresh : Except Failure Unit) (t : Transport) (s : Loop) :
    List Event × Loop × Turn :=
  let s := { s with attempt := s.attempt + 1 }
  if t.urlBuilt = false then ([], s, .threw (.api .invalidURL))
  else if authorized = true ∧ t.token s.attempt = none then ([], s, .threw (.api .unauthorized))
  else
    let reply := t.outcome s.attempt
    let (events, s', next) := receive authorized refresh (t.woken s.attempt) s reply
    (.sent (t.bearer authorized s.attempt) :: .received reply :: events, s', next)

/-- The loop, with the response or the error it ends in; `none` when the fuel runs out. -/
def loop (authorized : Bool) (refresh : Except Failure Unit) (t : Transport) :
    ℕ → Loop → List Event × Option (Except Failure (ℕ × Body))
  | 0, _ => ([], none)
  | fuel + 1, s =>
      match turn authorized refresh t s with
      | (events, s', .again) =>
          let (rest, result) := loop authorized refresh t fuel s'
          (events ++ rest, result)
      | (events, _, .returned status body) => (events, some (.ok (status, body)))
      | (events, _, .threw failure) => (events, some (.error failure))

/-- How `refreshTokens` goes: the task of another call is joined, no pair is held, or a task
of its own sends the refresh token. -/
inductive Refresh where
  | joined (outcome : Except Failure TokenPair)
  | unheld
  | started (transport : Transport)

/-- `requestRefresh`, with the history of its sends. -/
def requestRefresh (t : Transport) (fuel : ℕ) : List Event × Option (Except Failure TokenPair) :=
  match loop false (.ok ()) t fuel ⟨0, false⟩ with
  | (events, none) => (events, none)
  | (events, some (.error failure)) => (events, some (.error failure))
  | (events, some (.ok (_, body))) =>
      match body.token with
      | none => (events, some (.error (.api (.decoding body.reason))))
      | some token => (events, some (.ok (pairOf token)))

def refreshTokens (how : Refresh) (fuel : ℕ) : List Event × Option (Except Failure Unit) :=
  match how with
  | .joined (.ok _) => ([], some (.ok ()))
  | .joined (.error failure) => ([], some (.error failure))
  | .unheld => ([], some (.error (.api .unauthorized)))
  | .started t =>
      match requestRefresh t fuel with
      | (events, none) => (events, none)
      | (events, some (.ok _)) => (events, some (.ok ()))
      | (events, some (.error _)) => (events, some (.error (.api .unauthorized)))

/-- `performData`: its own history, that of the refresh it made, and its end. -/
structure Performed where
  history : List Event
  refreshHistory : List Event
  result : Option (Except Failure (ℕ × Body))

def performData (authorized : Bool) (how : Refresh) (t : Transport) (fuel : ℕ) : Performed :=
  match refreshTokens how fuel with
  | (own, none) => ⟨[], own, none⟩
  | (own, some refresh) =>
      let (events, result) := loop authorized refresh t fuel ⟨0, false⟩
      ⟨events, if .refreshed ∈ events then own else [], result⟩

def Event.isSend : Event → Bool
  | .sent _ => true
  | _ => false

def sends (history : List Event) : ℕ := history.countP Event.isSend

def Event.reply : Event → Option Reply
  | .received reply => some reply
  | _ => none

/-- The last response or error that the network gave. -/
def lastReply (history : List Event) : Option Reply := (history.filterMap Event.reply).getLast?

def Success (status : ℕ) : Prop := 200 ≤ status ∧ status < 300

/-- A failure that the loop retries while attempts are left. -/
def Transient : Reply → Prop
  | .http status _ => 500 ≤ status
  | .failed _ => True
  | .notHTTP | .cancelled => False

/-- The histories with which the loop starts another round. -/
inductive Trail (authorized : Bool) : Loop → List Event → Prop where
  | start : Trail authorized ⟨0, false⟩ []
  | refreshed {n : ℕ} {history : List Event} (bearer : Option String) (body : Body)
      (before : Trail authorized ⟨n, false⟩ history) (bearing : authorized = true) :
      Trail authorized ⟨n + 1, true⟩
        (history ++ [.sent bearer, .received (.http 401 body), .refreshed])
  | retried {n : ℕ} {didRefresh : Bool} {history : List Event} (bearer : Option String)
      (reply : Reply) (before : Trail authorized ⟨n, didRefresh⟩ history)
      (transient : Transient reply) (left : n + 1 < maxAttempts) :
      Trail authorized ⟨n + 1, didRefresh⟩ (history ++ [.sent bearer, .received reply])

/-- The histories with which the loop ends, and what it ends in. -/
inductive Ended (authorized : Bool) : List Event → Except Failure (ℕ × Body) → Prop where
  | unsent {s : Loop} {history : List Event} (failure : Failure)
      (before : Trail authorized s history) : Ended authorized history (.error failure)
  | returned {s : Loop} {history : List Event} (bearer : Option String) (status : ℕ) (body : Body)
      (before : Trail authorized s history) (success : Success status) :
      Ended authorized (history ++ [.sent bearer, .received (.http status body)])
        (.ok (status, body))
  | refused {s : Loop} {history : List Event} (bearer : Option String) (reply : Reply)
      (failure : Failure) (before : Trail authorized s history)
      (unsuccessful : ∀ status body, reply = .http status body → ¬ Success status) :
      Ended authorized (history ++ [.sent bearer, .received reply]) (.error failure)

section Trails

variable {authorized : Bool} {s : Loop} {history : List Event}

@[simp] theorem sends_append (early late : List Event) :
    sends (early ++ late) = sends early + sends late := by
  simp [sends]

/-- Every round before this one has sent once. -/
theorem Trail.sends (h : Trail authorized s history) : sends history = s.attempt := by
  induction h with
  | start => rfl
  | refreshed bearer body before bearing ih =>
      rw [sends_append, ih]
      rfl
  | retried bearer reply before transient left ih =>
      rw [sends_append, ih]
      rfl

/-- The refresh is the one way past the attempts. -/
theorem Trail.bounded (h : Trail authorized s history) :
    s.attempt < maxAttempts ∨ s.didRefresh = true ∧ s.attempt ≤ maxAttempts := by
  induction h with
  | start => exact .inl (by decide)
  | refreshed bearer body before bearing ih =>
      rcases ih with h | ⟨h, -⟩
      · exact .inr ⟨rfl, h⟩
      · cases h
  | retried bearer reply before transient left ih => exact .inl left

theorem Trail.bearing (h : Trail authorized s history) (hdid : s.didRefresh = true) :
    authorized = true := by
  induction h with
  | start => cases hdid
  | refreshed bearer body before bearing ih => exact bearing
  | retried bearer reply before transient left ih => exact ih hdid

theorem Trail.refreshes (h : Trail authorized s history) :
    history.count .refreshed = if s.didRefresh then 1 else 0 := by
  induction h with
  | start => rfl
  | refreshed bearer body before bearing ih => simp [List.count_append, ih]
  | retried bearer reply before transient left ih => simp [List.count_append, ih]

/-- What was received on a trail was either to be retried or the 401 before the refresh. -/
theorem Trail.received (h : Trail authorized s history) {reply : Reply}
    (hreply : .received reply ∈ history) :
    Transient reply ∨ ∃ body, reply = .http 401 body := by
  induction h with
  | start => cases hreply
  | refreshed bearer body before bearing ih =>
      rcases List.mem_append.mp hreply with hmem | hmem
      · exact ih hmem
      · obtain rfl : reply = .http 401 body := by simpa using hmem
        exact .inr ⟨body, rfl⟩
  | retried bearer reply' before transient left ih =>
      rcases List.mem_append.mp hreply with hmem | hmem
      · exact ih hmem
      · obtain rfl : reply = reply' := by simpa using hmem
        exact .inl transient

end Trails

section Rounds

variable {authorized : Bool} {refresh : Except Failure Unit} {t : Transport} {s s' : Loop}
  {history events : List Event}

/-- Everything one round can do. -/
inductive Round (authorized : Bool) (s : Loop) (history events : List Event) (s' : Loop) :
    Turn → Prop where
  | again (attempt : s'.attempt = s.attempt + 1) (trail : Trail authorized s' (history ++ events)) :
      Round authorized s history events s' .again
  | returned (status : ℕ) (body : Body)
      (ended : Ended authorized (history ++ events) (.ok (status, body))) :
      Round authorized s history events s' (.returned status body)
  | threw (failure : Failure) (ended : Ended authorized (history ++ events) (.error failure)) :
      Round authorized s history events s' (.threw failure)

/-- A sleep ends in another round, or the call is cancelled. -/
theorem backoff_round {woken : Bool} (hattempt : s'.attempt = s.attempt + 1)
    (h : Trail authorized s' (history ++ events)) :
    Round authorized s history events s' (backoff woken) := by
  unfold backoff
  split_ifs
  · exact .again hattempt h
  · exact .threw _ (.unsent _ h)

theorem receive_round {bearer : Option String} {woken : Bool} {reply : Reply} {next : Turn}
    (h : Trail authorized s history)
    (hreceive : receive authorized refresh woken { s with attempt := s.attempt + 1 } reply =
      (events, s', next)) :
    Round authorized s history (.sent bearer :: .received reply :: events) s' next := by
  cases reply with
  | http status body =>
      simp only [receive] at hreceive
      split_ifs at hreceive with h401 hok hretry
      · obtain ⟨rfl, hauthorized, hdid⟩ := h401
        obtain ⟨rfl, rfl, rfl⟩ : [Event.refreshed] = events ∧ _ = s' ∧ _ = next := by
          simpa using hreceive
        have htrail := Trail.refreshed bearer body (by rwa [← hdid]) hauthorized
        cases refresh with
        | ok _ => exact .again rfl htrail
        | error failure => exact .threw _ (.unsent failure htrail)
      · obtain ⟨rfl, rfl, rfl⟩ : [] = events ∧ _ = s' ∧ _ = next := by simpa using hreceive
        exact .returned status body (.returned bearer status body h hok)
      · obtain ⟨rfl, rfl, rfl⟩ : [] = events ∧ _ = s' ∧ _ = next := by simpa using hreceive
        have htransient : Transient (.http status body) := by
          simpa [Transient, APIError.isRetryable] using hretry.1
        exact backoff_round rfl (.retried bearer _ h htransient hretry.2)
      · obtain ⟨rfl, rfl, rfl⟩ : [] = events ∧ _ = s' ∧ _ = next := by simpa using hreceive
        refine .threw _ (.refused bearer _ _ h ?_)
        rintro status' body' hreply
        cases hreply
        exact hok
  | notHTTP =>
      obtain ⟨rfl, rfl, rfl⟩ : [] = events ∧ _ = s' ∧ _ = next := by
        simpa [receive] using hreceive
      exact .threw _ (.refused bearer _ _ h (by simp))
  | failed reason =>
      simp only [receive] at hreceive
      split_ifs at hreceive with hleft
      · obtain ⟨rfl, rfl, rfl⟩ : [] = events ∧ _ = s' ∧ _ = next := by simpa using hreceive
        exact backoff_round rfl (.retried bearer _ h trivial hleft)
      · obtain ⟨rfl, rfl, rfl⟩ : [] = events ∧ _ = s' ∧ _ = next := by simpa using hreceive
        exact .threw _ (.refused bearer _ _ h (by simp))
  | cancelled =>
      obtain ⟨rfl, rfl, rfl⟩ : [] = events ∧ _ = s' ∧ _ = next := by
        simpa [receive] using hreceive
      exact .threw _ (.refused bearer _ _ h (by simp))

theorem turn_round {next : Turn} (h : Trail authorized s history)
    (hturn : turn authorized refresh t s = (events, s', next)) :
    Round authorized s history events s' next := by
  simp only [turn] at hturn
  split_ifs at hturn
  · cases hturn
    exact .threw _ (by simpa using .unsent _ h)
  · cases hturn
    exact .threw _ (by simpa using .unsent _ h)
  · cases hturn
    exact receive_round h rfl

/-- With fuel for the rounds that are left the loop ends. -/
theorem loop_ends {fuel : ℕ} (h : Trail authorized s history)
    (hfuel : maxAttempts + 1 ≤ s.attempt + fuel) :
    ∃ events result, loop authorized refresh t fuel s = (events, some result) ∧
      Ended authorized (history ++ events) result := by
  induction fuel generalizing s history with
  | zero =>
      have hbound := h.bounded
      omega
  | succ fuel ih =>
      rcases hturn : turn authorized refresh t s with ⟨events, s', next⟩
      rw [loop, hturn]
      cases turn_round h hturn with
      | again hattempt htrail =>
          obtain ⟨rest, result, hloop, hended⟩ := ih htrail (by omega)
          exact ⟨events ++ rest, result, by simp [hloop], by rwa [← List.append_assoc]⟩
      | returned status body hended => exact ⟨events, _, rfl, hended⟩
      | threw failure hended => exact ⟨events, _, rfl, hended⟩

end Rounds

/-- A call ends within its sends and its one refresh, in a 2xx response exactly when that is
the last thing it received, and sends nothing behind a status that is final. -/
structure Bounded (authorized : Bool) (p : Performed) : Prop where
  ends : p.result.isSome = true
  sends : sends p.history ≤ maxAttempts + if authorized then 1 else 0
  refreshes : p.history.count .refreshed + p.refreshHistory.count .refreshed ≤ 1
  refreshSends : RequestLoop.sends p.refreshHistory ≤ maxAttempts
  sound : ∀ status body, p.result = some (.ok (status, body)) ↔
    Success status ∧ lastReply p.history = some (.http status body)
  final : ∀ early late status body, p.history = early ++ .received (.http status body) :: late →
    status ≠ 401 → status < 500 → RequestLoop.sends late = 0

section Ends

variable {authorized : Bool} {s : Loop} {history : List Event}
  {result : Except Failure (ℕ × Body)}

theorem Trail.sends_le (h : Trail authorized s history) :
    RequestLoop.sends history + 1 ≤ maxAttempts + if authorized then 1 else 0 := by
  rw [h.sends]
  rcases h.bounded with hleft | ⟨hdid, hleft⟩
  · exact Nat.le_add_right_of_le hleft
  · rw [if_pos (h.bearing hdid)]
    exact Nat.succ_le_succ hleft

theorem Trail.refreshes_le (h : Trail authorized s history) :
    history.count .refreshed ≤ if authorized then 1 else 0 := by
  rw [h.refreshes]
  cases hdid : s.didRefresh with
  | false => simp
  | true => simp [h.bearing hdid]

theorem Ended.sends_le (h : Ended authorized history result) :
    RequestLoop.sends history ≤ maxAttempts + if authorized then 1 else 0 := by
  cases h with
  | unsent failure before => exact Nat.le_of_succ_le before.sends_le
  | returned bearer status body before success =>
      rw [sends_append]
      exact before.sends_le
  | refused bearer reply failure before unsuccessful =>
      rw [sends_append]
      exact before.sends_le

theorem Ended.refreshes_le (h : Ended authorized history result) :
    history.count .refreshed ≤ if authorized then 1 else 0 := by
  cases h with
  | unsent failure before => exact before.refreshes_le
  | returned bearer status body before success =>
      simpa [List.count_append] using before.refreshes_le
  | refused bearer reply failure before unsuccessful =>
      simpa [List.count_append] using before.refreshes_le

/-- No success stands on a trail. -/
theorem Trail.unsuccessful (h : Trail authorized s history) {status : ℕ} {body : Body}
    (hlast : lastReply history = some (.http status body)) : ¬ Success status := by
  have hmem : Reply.http status body ∈ history.filterMap Event.reply :=
    List.mem_of_getLast? hlast
  obtain ⟨event, hevent, hreply⟩ := List.mem_filterMap.mp hmem
  cases event with
  | received reply =>
      obtain rfl : reply = .http status body := by simpa [Event.reply] using hreply
      rcases h.received hevent with htransient | ⟨body', hbody⟩
      · have hle : 500 ≤ status := htransient
        exact fun hsuccess => absurd hsuccess.2 (by omega)
      · cases hbody
        exact fun hsuccess => absurd hsuccess.2 (by omega)
  | _ => cases hreply

@[simp] theorem lastReply_round (history : List Event) (bearer : Option String) (reply : Reply) :
    lastReply (history ++ [.sent bearer, .received reply]) = some reply := by
  have hround : [Event.sent bearer, .received reply].filterMap Event.reply = [reply] := rfl
  rw [lastReply, List.filterMap_append, hround, List.getLast?_concat]

theorem Ended.sound (h : Ended authorized history result) (status : ℕ) (body : Body) :
    result = .ok (status, body) ↔
      Success status ∧ lastReply history = some (.http status body) := by
  cases h with
  | unsent failure before =>
      simp only [reduceCtorEq, false_iff, not_and]
      exact fun hsuccess hlast => before.unsuccessful hlast hsuccess
  | returned bearer status' body' before success =>
      simp only [lastReply_round, Except.ok.injEq, Prod.mk.injEq, Option.some.injEq,
        Reply.http.injEq]
      constructor
      · rintro ⟨rfl, rfl⟩
        exact ⟨success, rfl, rfl⟩
      · exact fun h => h.2
  | refused bearer reply failure before unsuccessful =>
      simp only [reduceCtorEq, false_iff, lastReply_round, Option.some.injEq, not_and]
      exact fun hsuccess hreply => unsuccessful status body hreply hsuccess

/-- What is not on the trail is the last thing of the history. -/
theorem late_nil {bearer : Option String} {reply : Reply} {early late : List Event}
    {first : Reply} (hsplit : history ++ [.sent bearer, .received reply] =
      early ++ .received first :: late) (hnot : .received first ∉ history) : late = [] := by
  have hat : (history ++ [.sent bearer, .received reply])[early.length]? =
      some (.received first) := by
    rw [hsplit]
    simp
  have hlength := congrArg List.length hsplit
  simp only [List.length_append, List.length_cons, List.length_nil] at hlength
  rcases Nat.lt_trichotomy early.length history.length with hlt | heq | hgt
  · rw [List.getElem?_append_left hlt] at hat
    exact absurd (List.mem_of_getElem? hat) hnot
  · simp [heq] at hat
  · exact List.length_eq_zero_iff.mp (by omega)

theorem Trail.not_final (h : Trail authorized s history) {status : ℕ} {body : Body}
    (h401 : status ≠ 401) (hlt : status < 500) :
    .received (.http status body) ∉ history := by
  intro hmem
  rcases h.received hmem with htransient | ⟨body', hbody⟩
  · have hle : 500 ≤ status := htransient
    omega
  · cases hbody
    exact h401 rfl

theorem Ended.final (h : Ended authorized history result) {early late : List Event}
    {status : ℕ} {body : Body} (hsplit : history = early ++ .received (.http status body) :: late)
    (h401 : status ≠ 401) (hlt : status < 500) : RequestLoop.sends late = 0 := by
  cases h with
  | unsent failure before =>
      exact absurd (hsplit ▸ List.mem_append_right _ List.mem_cons_self)
        (before.not_final h401 hlt)
  | returned bearer status' body' before success =>
      rw [late_nil hsplit (before.not_final h401 hlt)]
      rfl
  | refused bearer reply failure before unsuccessful =>
      rw [late_nil hsplit (before.not_final h401 hlt)]
      rfl

end Ends

section Fuel

variable {authorized : Bool} {refresh : Except Failure Unit} {t : Transport} {s : Loop}
  {events : List Event} {result : Except Failure (ℕ × Body)}

/-- More fuel changes nothing once the loop has ended. -/
theorem loop_more {fuel : ℕ} (more : ℕ)
    (h : loop authorized refresh t fuel s = (events, some result)) :
    loop authorized refresh t (fuel + more) s = (events, some result) := by
  induction fuel generalizing s events with
  | zero => cases h
  | succ fuel ih =>
      rw [Nat.succ_add_eq_add_succ, Nat.add_succ, loop]
      rw [loop] at h
      rcases hturn : turn authorized refresh t s with ⟨first, s', next⟩
      rw [hturn] at h
      cases next with
      | again =>
          rcases hloop : loop authorized refresh t fuel s' with ⟨rest, result'⟩
          simp only [hloop] at h
          obtain ⟨rfl, rfl⟩ : first ++ rest = events ∧ result' = some result := by simpa using h
          simp [ih hloop]
      | returned status body => exact h
      | threw failure => exact h

/-- The call ends, and what it does is the same for every fuel that suffices. -/
theorem loop_total (authorized : Bool) (refresh : Except Failure Unit) (t : Transport) :
    ∃ events result, Ended authorized events result ∧ ∀ fuel, maxAttempts + 1 ≤ fuel →
      loop authorized refresh t fuel ⟨0, false⟩ = (events, some result) := by
  have hstart : Trail authorized ⟨0, false⟩ [] := .start
  have hfuel : maxAttempts + 1 ≤ 0 + (maxAttempts + 1) := Nat.le_of_eq (Nat.zero_add _).symm
  obtain ⟨events, result, hloop, hended⟩ : ∃ events result,
      loop authorized refresh t (maxAttempts + 1) ⟨0, false⟩ = (events, some result) ∧
        Ended authorized ([] ++ events) result := loop_ends hstart hfuel
  refine ⟨events, result, hended, fun fuel hfuel => ?_⟩
  obtain ⟨more, rfl⟩ := Nat.exists_eq_add_of_le hfuel
  exact loop_more more hloop

end Fuel

/-- The refresh's own sends, which are not authorized. -/
theorem refreshTokens_total (how : Refresh) :
    ∃ own outcome, sends own ≤ maxAttempts ∧ own.count .refreshed = 0 ∧
      ∀ fuel, maxAttempts + 1 ≤ fuel → refreshTokens how fuel = (own, some outcome) := by
  cases how with
  | joined outcome =>
      cases outcome with
      | ok pair => exact ⟨[], .ok (), Nat.zero_le _, rfl, fun fuel _ => rfl⟩
      | error failure => exact ⟨[], .error failure, Nat.zero_le _, rfl, fun fuel _ => rfl⟩
  | unheld => exact ⟨[], .error (.api .unauthorized), Nat.zero_le _, rfl, fun fuel _ => rfl⟩
  | started t =>
      obtain ⟨events, result, hended, hloop⟩ := loop_total false (.ok ()) t
      have hsends : sends events ≤ maxAttempts := hended.sends_le
      have hnone : events.count .refreshed = 0 := Nat.le_zero.mp hended.refreshes_le
      cases result with
      | error failure =>
          refine ⟨events, .error (.api .unauthorized), hsends, hnone, fun fuel hfuel => ?_⟩
          simp [refreshTokens, requestRefresh, hloop fuel hfuel]
      | ok response =>
          cases htoken : response.2.token with
          | none =>
              refine ⟨events, .error (.api .unauthorized), hsends, hnone, fun fuel hfuel => ?_⟩
              simp [refreshTokens, requestRefresh, hloop fuel hfuel, htoken]
          | some token =>
              refine ⟨events, .ok (), hsends, hnone, fun fuel hfuel => ?_⟩
              simp [refreshTokens, requestRefresh, hloop fuel hfuel, htoken]

/-! ## What the network is asked and answers -/

def Reply.unauthorized : Reply → Bool
  | .http status _ => status = 401
  | _ => false

/-- The attempt meets the first 401 of an authorized call. -/
def refreshesAt (authorized : Bool) (t : Transport) (attempt : ℕ) : Bool :=
  authorized && Reply.unauthorized (t.outcome attempt) &&
    (List.range' 1 (attempt - 1)).all fun earlier => !Reply.unauthorized (t.outcome earlier)

/-- An attempt sends the token that is held, receives its end, and is followed by the refresh
if that is the first 401. -/
def attemptEvents (authorized : Bool) (t : Transport) (attempt : ℕ) : List Event :=
  [.sent (t.bearer authorized attempt), .received (t.outcome attempt)] ++
    if refreshesAt authorized t attempt then [.refreshed] else []

section Attempts

variable {authorized : Bool} {refresh : Except Failure Unit} {t : Transport} {s s' : Loop}
  {events : List Event}

/-- A 401 has been met exactly if a refresh has been made. -/
def Met (authorized : Bool) (t : Transport) (s : Loop) : Prop :=
  s.didRefresh = (authorized && !(List.range' 1 s.attempt).all fun earlier =>
    !Reply.unauthorized (t.outcome earlier))

theorem met_succ (hattempt : s'.attempt = s.attempt + 1)
    (h : s'.didRefresh = (s.didRefresh ||
      authorized && Reply.unauthorized (t.outcome (s.attempt + 1)))) (hmet : Met authorized t s) :
    Met authorized t s' := by
  rw [Met] at hmet ⊢
  rw [h, hmet, hattempt, List.range'_1_concat, List.all_append, Nat.add_comm 1]
  cases authorized <;>
    cases (List.range' 1 s.attempt).all fun earlier => !Reply.unauthorized (t.outcome earlier) <;>
      simp

/-- A reply is followed by the refresh exactly if it is the first 401. -/
theorem receive_attempt {woken : Bool} {next : Turn} (hmet : Met authorized t s)
    (h : receive authorized refresh woken { s with attempt := s.attempt + 1 }
      (t.outcome (s.attempt + 1)) = (events, s', next)) :
    events = (if refreshesAt authorized t (s.attempt + 1) then [.refreshed] else []) ∧
      (next = .again → s'.attempt = s.attempt + 1 ∧ Met authorized t s') := by
  have hearlier : refreshesAt authorized t (s.attempt + 1) =
      (authorized && Reply.unauthorized (t.outcome (s.attempt + 1)) && !s.didRefresh) := by
    rw [refreshesAt, hmet, Nat.add_sub_cancel]
    cases authorized <;> simp
  rw [hearlier]
  cases hreply : t.outcome (s.attempt + 1) with
  | http status body =>
      simp only [receive, hreply] at h
      split_ifs at h with h401 hok hretry
      · obtain ⟨rfl, hauthorized, hdid⟩ := h401
        have hdid' : s.didRefresh = false := hdid
        obtain ⟨rfl, rfl, rfl⟩ : [Event.refreshed] = events ∧ _ = s' ∧ _ = next := by simpa using h
        refine ⟨by simp [hauthorized, hdid', Reply.unauthorized], fun _ => ⟨rfl, ?_⟩⟩
        exact met_succ rfl (by simp [hauthorized, hreply, Reply.unauthorized]) hmet
      all_goals
        obtain ⟨rfl, rfl, rfl⟩ : [] = events ∧ _ = s' ∧ _ = next := by simpa using h
        refine ⟨?_, ?_⟩
        · rw [if_neg]
          simpa [Reply.unauthorized, and_assoc, and_comm, and_left_comm] using h401
      · simp
      · intro _
        refine ⟨rfl, met_succ rfl ?_ hmet⟩
        have hne : status ≠ 401 := by
          rintro rfl
          simp [APIError.isRetryable] at hretry
        simp [hreply, Reply.unauthorized, hne]
      · simp
  | notHTTP =>
      obtain ⟨rfl, rfl, rfl⟩ : [] = events ∧ _ = s' ∧ _ = next := by
        simpa [receive, hreply] using h
      simp [Reply.unauthorized]
  | failed reason =>
      simp only [receive, hreply] at h
      split_ifs at h
      all_goals
        obtain ⟨rfl, rfl, rfl⟩ : [] = events ∧ _ = s' ∧ _ = next := by simpa using h
        refine ⟨by simp [Reply.unauthorized], ?_⟩
      · exact fun _ => ⟨rfl, met_succ rfl (by simp [hreply, Reply.unauthorized]) hmet⟩
      · simp
  | cancelled =>
      obtain ⟨rfl, rfl, rfl⟩ : [] = events ∧ _ = s' ∧ _ = next := by
        simpa [receive, hreply] using h
      simp [Reply.unauthorized]

theorem turn_attempt {next : Turn} (hmet : Met authorized t s)
    (h : turn authorized refresh t s = (events, s', next)) :
    (events = [] ∧ next ≠ .again) ∨ events = attemptEvents authorized t (s.attempt + 1) ∧
      (next = .again → s'.attempt = s.attempt + 1 ∧ Met authorized t s') := by
  simp only [turn] at h
  split_ifs at h
  · cases h
    exact .inl ⟨rfl, by simp⟩
  · cases h
    exact .inl ⟨rfl, by simp⟩
  · rcases hreceive : receive authorized refresh (t.woken (s.attempt + 1))
      { s with attempt := s.attempt + 1 } (t.outcome (s.attempt + 1)) with ⟨late, s₁, next₁⟩
    rw [hreceive] at h
    cases h
    obtain ⟨rfl, hagain⟩ := receive_attempt hmet hreceive
    exact .inr ⟨rfl, hagain⟩

/-- The history of the loop is that of its attempts, one after the other. -/
theorem loop_attempts {fuel : ℕ} {result : Option (Except Failure (ℕ × Body))}
    (hmet : Met authorized t s) (h : loop authorized refresh t fuel s = (events, result)) :
    ∃ attempts, events =
      (List.range' (s.attempt + 1) attempts).flatMap (attemptEvents authorized t) := by
  induction fuel generalizing s events result with
  | zero =>
      cases h
      exact ⟨0, rfl⟩
  | succ fuel ih =>
      rcases hturn : turn authorized refresh t s with ⟨first, s', next⟩
      rw [loop, hturn] at h
      have hattempt := turn_attempt hmet hturn
      cases next with
      | again =>
          rcases hloop : loop authorized refresh t fuel s' with ⟨rest, result'⟩
          simp only [hloop] at h
          cases h
          obtain ⟨-, hnot⟩ | ⟨rfl, hagain⟩ := hattempt
          · exact (hnot rfl).elim
          · obtain ⟨hnext, hmet'⟩ := hagain rfl
            obtain ⟨attempts, rfl⟩ := ih hmet' hloop
            exact ⟨attempts + 1, by rw [List.range'_succ, List.flatMap_cons, hnext]⟩
      | _ =>
          cases h
          obtain ⟨rfl, -⟩ | ⟨rfl, -⟩ := hattempt
          · exact ⟨0, rfl⟩
          · exact ⟨1, by simp⟩

end Attempts

/-- Whatever the sends of the request and of the refresh end in, a call is bounded and sound. Its
history is that of its attempts: each sends the token that is held and receives its end, and the
refresh follows the first 401 of an authorized call. -/
theorem performData_bounded (authorized : Bool) (how : Refresh) (t : Transport) :
    ∃ p : Performed, Bounded authorized p ∧
      (∃ attempts, p.history =
        (List.range' 1 attempts).flatMap (attemptEvents authorized t)) ∧
      ∀ fuel, maxAttempts + 1 ≤ fuel → performData authorized how t fuel = p := by
  obtain ⟨own, outcome, hown, hnone, hrefresh⟩ := refreshTokens_total how
  obtain ⟨events, result, hended, hloop⟩ := loop_total authorized outcome t
  refine ⟨⟨events, if .refreshed ∈ events then own else [], some result⟩, ?_, ?_,
    fun fuel hfuel => ?_⟩
  · refine ⟨rfl, hended.sends_le, ?_, ?_, ?_, fun early late status body => hended.final⟩
    · have hone : events.count .refreshed ≤ 1 :=
        Nat.le_trans hended.refreshes_le (by split_ifs <;> simp)
      split_ifs
      · rwa [hnone]
      · simpa using hone
    · split_ifs
      · exact hown
      · exact Nat.zero_le _
    · intro status body
      rw [Option.some.injEq]
      exact hended.sound status body
  · exact loop_attempts (by simp [Met]) (hloop _ (Nat.le_refl _))
  · rw [performData, hrefresh fuel hfuel]
    simp [hloop fuel hfuel]

/-- The held token is refused once, and the request succeeds with the next one. -/
def demo : Transport where
  urlBuilt := true
  token attempt := some (if attempt = 1 then "old" else "new")
  outcome attempt := if attempt = 1 then .http 401 {} else .http 200 {}
  woken _ := true

theorem performData_bounded_demo :
    ∃ p : Performed, Bounded true p ∧ p.result = some (.ok (200, {})) ∧
      p.history = [.sent (some "old"), .received (.http 401 {}), .refreshed, .sent (some "new"),
        .received (.http 200 {})] := by
  obtain ⟨p, hbounded, -, hp⟩ := performData_bounded true
    (.joined (.ok ⟨"new", "refresh-2", "user-1"⟩)) demo
  have hrun := hp 5 (by decide)
  exact ⟨p, hbounded, by rw [← hrun]; rfl, by rw [← hrun]; rfl⟩

end FieldNote.RequestLoop
