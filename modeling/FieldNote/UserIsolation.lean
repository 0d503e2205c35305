import FieldNote.Unwinding
import FieldNote.ViewedSteps

/-!
# Users do not interfere

A history is a list of events, each of one user: a request, a step of the server on behalf
of the user, or one of the reads `findOne`, `getPdfUrl` and `list`. What a user is answered,
the user's rows and the user's objects depend on the user's own events alone, as long as the
user passes no cursor that names another user's job: `list` looks that row up and cuts the page
at its position. Paths may spell a UUID in upper or lower case; how Prisma reads the text of a
cursor, or what it answers where it can not, is a parameter.
-/
namespace FieldNote.UserIsolation
open JobsService PipelineService ServerRuns ObjectKeys GuardedRuns Unwinding UserViews SpelledIds

/-- What a user does. The number of a thread counts the user's own threads. -/
inductive Deed where
  | act (action : Action)
  | findOne (jobId : String)
  | getPdfUrl (jobId : String)
  | list (cursor : Option String) (limit : ℕ)

structure Event where
  userId : String
  deed : Deed

inductive Answer where
  | created (result : Except HttpError CreateJobResponse)
  | job (result : Except HttpError JobDto)
  | removed (result : Except HttpError Unit)
  | pdf (result : Except HttpError PdfUrlDto)
  | page (result : Except HttpError JobPage)
  | refused (error : HttpError)

/-- The server with the answers to the reads so far. -/
structure Served where
  world : World
  reads : List (String × Answer)

def Served.empty : Served := ⟨.empty, []⟩

/-- The action in the numbers of the whole pool. -/
def locate (userId : String) (w : World) : Action → Action
  | .step k env => .step (w.threads.findIdxNth (mine userId) k) env
  | .throw k env e applied => .throw (w.threads.findIdxNth (mine userId) k) env e applied
  | .timeout k => .timeout (w.threads.findIdxNth (mine userId) k)
  | .ack k => .ack (w.threads.findIdxNth (mine userId) k)
  | a => a

/-- A read of the job that a path names. -/
def atPath {α : Type} (jobId : String) (read : String → Except HttpError α) : Except HttpError α :=
  if isUuid jobId then read (canonical jobId) else .error .notUuid

/-- The id that the text of a cursor means; an empty text counts as none. -/
def cursorId (parse : String → Except HttpError String) (cursor : Option String) :
    Except HttpError (Option String) :=
  match cursor.filter (· ≠ "") with
  | none => .ok none
  | some text => (parse text).map some

/-- The pipe keeps the call from the service. -/
def isRefused : Action → Bool
  | .call request => !Request.passes request
  | _ => false

/-- A user acts only on what is the user's, and reads with the user's id. -/
def serve (cfg : ServerConfig) (parse : String → Except HttpError String) (s : Served)
    (e : Event) : Option Served :=
  match e.deed with
  | .act a =>
      if concerns e.userId s.world (locate e.userId s.world a) then
        if isRefused a then some { s with reads := s.reads ++ [(e.userId, .refused .notUuid)] }
        else (spelledStep cfg s.world (locate e.userId s.world a)).map fun w =>
          { s with world := w }
      else none
  | .findOne jobId =>
      let result := atPath jobId fun id => JobsService.findOne cfg s.world.stores e.userId id
      some { s with reads := s.reads ++ [(e.userId, .job result)] }
  | .getPdfUrl jobId =>
      let result := atPath jobId fun id => JobsService.getPdfUrl cfg s.world.stores e.userId id
      some { s with reads := s.reads ++ [(e.userId, .pdf result)] }
  | .list cursor limit =>
      let result := (cursorId parse cursor).map fun id =>
        JobsService.list s.world.stores e.userId id limit
      some { s with reads := s.reads ++ [(e.userId, .page result)] }

/-- What a call has answered, once it is over. -/
def answer : Thread → Option Answer
  | .create c =>
      match c.pc with
      | .returned response => some (.created (.ok response))
      | .threw error => some (.created (.error error))
      | _ => none
  | .process c =>
      match c.pc with
      | .returned dto => some (.job (.ok dto))
      | .threw error => some (.job (.error error))
      | _ => none
  | .update c =>
      match c.pc with
      | .returned dto => some (.job (.ok dto))
      | .threw error => some (.job (.error error))
      | _ => none
  | .remove c =>
      match c.pc with
      | .returned => some (.removed (.ok ()))
      | .threw error => some (.removed (.error error))
      | _ => none
  | _ => none

/-- The answers to the reads of the user, and to the user's calls in the order of the calls. -/
def answersTo (userId : String) (s : Served) : List Answer × List (Option Answer) :=
  (s.reads.filterMap fun r => if r.1 = userId then some r.2 else none,
    (s.world.threads.filter (mine userId)).map answer)

def rowsOf (userId : String) (s : Served) : List Job :=
  s.world.stores.jobs.rows.filter fun job => job.userId = userId

/-- A cursor that is the id of another user's job, where the page it cuts is not empty. -/
def foreignCursor (s : Stores) (userId : String) (cursor : Option String) : Bool :=
  match cursor.filter (· ≠ "") with
  | none => false
  | some id =>
      match s.findById id with
      | none => false
      | some row =>
          row.userId ≠ userId &&
            1 < ((s.liveJobs userId).filter fun job => job.position ≤ row.position).length

/-- A draft is inserted under a new id. -/
def insertsFresh (w : World) : Action → Bool
  | .step i env | .throw i env _ true =>
      match w.threads[i]? with
      | some (.create c) => c.pc ≠ .createDraft || (w.stores.findById env.id).isNone
      | _ => true
  | _ => true

/-- The user's cursors name no other user's job, the ids that are generated for the user are new,
and the ids of users are UUIDs. -/
def apart (parse : String → Except HttpError String) (userId : String) (s : Served) (e : Event) :
    Bool :=
  '/' ∉ userId.toList && '/' ∉ e.userId.toList &&
    match e.deed with
    | .act a => e.userId ≠ userId || insertsFresh s.world (locate e.userId s.world a)
    | .list cursor _ =>
        e.userId ≠ userId ||
          match cursorId parse cursor with
          | .ok id => !foreignCursor s.world.stores userId id
          | .error _ => true
    | _ => true

def Apart (parse : String → Except HttpError String) (userId : String) (s : Served) (e : Event) :
    Prop :=
  apart parse userId s e = true

instance (parse : String → Except HttpError String) (userId : String) :
    DecidableRel (Apart parse userId) :=
  fun _ _ => inferInstanceAs (Decidable (_ = true))

def viewServed (userId : String) (s : Served) : Served :=
  ⟨view userId s.world, s.reads.filter fun r => r.1 = userId⟩

variable {cfg : ServerConfig} {parse : String → Except HttpError String} {w w' : World}
  {userId : String} {s s' : Served} {e : Event}

/-! ## The user's own step -/

theorem findIdxNth_mine {k : ℕ} {t : Thread}
    (hi : w.threads[w.threads.findIdxNth (mine userId) k]? = some t) :
    mine userId t = true ∧ rank userId w.threads (w.threads.findIdxNth (mine userId) k) = k :=
  Selections.findIdxNth_eq hi

theorem findIdxNth_view {k : ℕ} {t : Thread}
    (hk : (viewThreads userId w.threads)[k]? = some t) :
    (viewThreads userId w.threads).findIdxNth (mine userId) k = k :=
  Selections.findIdxNth_all (fun _ ht => mem_viewThreads ht) hk

/-- The thread that the user's number `k` means, in the pool and in the view. -/
theorem view_thread {k : ℕ} {t : Thread}
    (hi : w.threads[w.threads.findIdxNth (mine userId) k]? = some t) :
    mine userId t = true ∧ (viewThreads userId w.threads)[k]? =
      some (relocate (rank userId w.threads) t) ∧
        (viewThreads userId w.threads).findIdxNth (mine userId) k = k := by
  obtain ⟨ht, hrank⟩ := findIdxNth_mine hi
  have hget := viewThreads_get hi ht
  rw [hrank] at hget
  exact ⟨ht, hget, findIdxNth_view hget⟩

theorem insertsFresh_create {i : ℕ} {env : Env} {t : Thread} {c : CreateCall}
    (hi : w.threads[i]? = some t) (hg : insertsFresh w (.step i env) = true) (ht : t = .create c)
    (hpc : c.pc = .createDraft) : w.stores.findById env.id = none := by
  subst ht
  simpa [insertsFresh, hi, hpc] using hg

theorem view_stepped {k : ℕ} {env : Env} (h : Coherent w)
    (hg : insertsFresh w (.step (w.threads.findIdxNth (mine userId) k) env) = true)
    (hs : spelledStep cfg w (.step (w.threads.findIdxNth (mine userId) k) env) = some w') :
    spelledStep cfg (view userId w) (.step k env) = some (view userId w') := by
  generalize hi : w.threads.findIdxNth (mine userId) k = i at hg hs
  obtain ⟨t, ht, hs⟩ := Option.bind_eq_some_iff.mp hs
  obtain ⟨⟨t', op, spawned⟩, hn, rfl⟩ := Option.map_eq_some_iff.mp hs
  obtain ⟨hmine, hrank⟩ := findIdxNth_mine (hi ▸ ht)
  rw [hi] at hrank
  have hget := viewThreads_get ht hmine
  have hnext := next_view_some h ht hmine (fun c hc hpc => insertsFresh_create ht hg hc hpc) hn
  have hview := view_advance h ht hmine (SpelledActs.stepped env t t' op spawned hn)
  rw [hrank] at hget hview
  rw [hview]
  simp only [spelledStep, view, hget, Option.bind_some]
  simp only [view] at hnext
  simp only [hnext, Option.map_some]

theorem view_threw {k : ℕ} {env : Env} {err : Err} {applied : Bool} (h : Coherent w)
    (hg : insertsFresh w
      (.throw (w.threads.findIdxNth (mine userId) k) env err applied) = true)
    (hs : spelledStep cfg w (.throw (w.threads.findIdxNth (mine userId) k) env err applied) = some w') :
    spelledStep cfg (view userId w) (.throw k env err applied) = some (view userId w') := by
  generalize hi : w.threads.findIdxNth (mine userId) k = i at hg hs
  obtain ⟨t, ht, hs⟩ := Option.bind_eq_some_iff.mp hs
  obtain ⟨t', hthrows, hs⟩ := Option.bind_eq_some_iff.mp hs
  obtain ⟨hmine, hrank⟩ := findIdxNth_mine (hi ▸ ht)
  rw [hi] at hrank
  have hget := viewThreads_get ht hmine
  have hthrow : throwing err (relocate (rank userId w.threads) t) =
      some (relocate (rank userId w.threads) t') := by
    rw [throwing_relocate, hthrows, Option.map_some]
  cases applied with
  | false =>
      cases hs
      have acts : SpelledActs cfg w i (.throw i env err false) t env.now t' .none [] :=
        .threw env err t t' hthrows
      have hview := view_advance h ht hmine acts
      rw [hrank] at hget hview
      rw [hview]
      simp only [spelledStep, view, hget, Option.bind_some, hthrow]
      rfl
  | true =>
      obtain ⟨⟨t₁, op, spawned⟩, hn, rfl⟩ := Option.map_eq_some_iff.mp hs
      have hfresh : insertsFresh w (.step i env) = true := hg
      have hnext :=
        next_view_some h ht hmine (fun c hc hpc => insertsFresh_create ht hfresh hc hpc) hn
      have hview := view_advance h ht hmine (SpelledActs.lost env err t t' t₁ op spawned hthrows hn)
      rw [hrank] at hget hview
      rw [hview]
      simp only [spelledStep, view, hget, Option.bind_some, hthrow]
      simp only [view] at hnext
      simp only [hnext, Option.map_some]
      rfl

theorem view_timedOut {k : ℕ} (h : Coherent w)
    (hs : spelledStep cfg w (.timeout (w.threads.findIdxNth (mine userId) k)) = some w') :
    spelledStep cfg (view userId w) (.timeout k) = some (view userId w') := by
  generalize hi : w.threads.findIdxNth (mine userId) k = i at hs
  obtain ⟨t, ht, hs⟩ := Option.bind_eq_some_iff.mp hs
  obtain ⟨t', hout, rfl⟩ := Option.map_eq_some_iff.mp hs
  obtain ⟨hmine, hrank⟩ := findIdxNth_mine (hi ▸ ht)
  rw [hi] at hrank
  have hget := viewThreads_get ht hmine
  have hview := view_advance h ht hmine (SpelledActs.timedOut t t' hout)
  rw [hrank] at hget hview
  rw [hview]
  simp only [spelledStep, step, view, hget, Option.bind_some, timingOut_relocate, hout,
    Option.map_some]

theorem view_acked {k : ℕ} (h : Coherent w)
    (hs : spelledStep cfg w (.ack (w.threads.findIdxNth (mine userId) k)) = some w') :
    spelledStep cfg (view userId w) (.ack k) = some (view userId w') := by
  generalize hi : w.threads.findIdxNth (mine userId) k = i at hs
  cases step_effect (show step cfg w (.ack i) = some w' from hs) with
  | acked i a err entry thread pc queued =>
      obtain ⟨hmine, hrank⟩ := findIdxNth_mine (hi ▸ thread)
      rw [hi] at hrank
      have hget := viewThreads_get thread hmine
      have huser : a.userId = userId := of_decide_eq_true hmine
      have howned : Owned w.stores userId (canonical a.jobId) :=
        huser ▸ (h.holds _ (List.mem_of_getElem? thread)).1
      have acts : SpelledActs cfg w i (.ack i) _ 0 _ _ _ := .acked a err entry pc queued
      have hview := view_advance h thread hmine acts
      rw [hrank] at hget hview
      rw [hview]
      simp only [spelledStep, step, view, hget, Option.bind_some, relocate, relocatePc, pc,
        queue_view h.entries howned, queued]

/-- An entry of the user is in the view. -/
theorem queue_view_eq {jobId : String} {entry : Entry} (hq : w.stores.queue jobId = some entry)
    (huser : entry.userId = userId) :
    (viewStores userId w.stores).queue jobId = some entry := by
  simp [viewStores, hq, huser]

/-- The user's step makes of the view what it makes of the server. -/
theorem view_step {a : Action} (h : Coherent w)
    (hact : concerns userId w (locate userId w a) = true)
    (hg : insertsFresh w (locate userId w a) = true)
    (hs : spelledStep cfg w (locate userId w a) = some w') :
    spelledStep cfg (view userId w) a = some (view userId w') := by
  cases a with
  | call request =>
      simp only [locate, spelledStep] at hs
      split_ifs at hs with hpasses
      cases hs
      have hview := view_outside h hact (.called request)
      simp only [spelledStep, hpasses, if_true]
      exact congrArg some hview.symm
  | step k env => exact view_stepped h hg hs
  | throw k env err applied => exact view_threw h hg hs
  | timeout k => exact view_timedOut h hs
  | ack k => exact view_acked h hs
  | pick jobId =>
      cases step_effect (show step cfg w (.pick jobId) = some w' from hs) with
      | picked jobId entry queued waiting =>
          have huser : entry.userId = userId := by simpa [locate, concerns, queued] using hact
          rw [view_outside h hact (.picked jobId entry queued waiting)]
          simp [spelledStep, step, World.moveEntry, view, queue_view_eq queued huser, waiting]
  | promote jobId =>
      cases step_effect (show step cfg w (.promote jobId) = some w' from hs) with
      | promoted jobId entry queued delayed =>
          have huser : entry.userId = userId := by simpa [locate, concerns, queued] using hact
          rw [view_outside h hact (.promoted jobId entry queued delayed)]
          simp [spelledStep, step, World.moveEntry, view, queue_view_eq queued huser, delayed]
  | purge jobId =>
      cases step_effect (show step cfg w (.purge jobId) = some w' from hs) with
      | purged jobId entry queued completed =>
          have huser : entry.userId = userId := by simpa [locate, concerns, queued] using hact
          rw [view_outside h hact (.purged jobId entry queued completed)]
          simp [spelledStep, step, World.moveEntry, view, queue_view_eq queued huser, completed]
  | upload user jobId bytes =>
      cases hs
      have hview := view_outside h hact (.uploaded user jobId bytes)
      rw [List.append_nil, List.append_nil] at hview
      exact congrArg some hview.symm

/-- In the view the user's numbers are the positions, and the action is the user's still. -/
theorem concerns_view {a : Action} (hact : concerns userId w (locate userId w a) = true) :
    locate userId (view userId w) a = a ∧ concerns userId (view userId w) a = true := by
  have hthread : ∀ {k}, w.threads[w.threads.findIdxNth (mine userId) k]?.any (mine userId) = true →
      (viewThreads userId w.threads).findIdxNth (mine userId) k = k ∧
        (viewThreads userId w.threads)[k]?.any (mine userId) = true := by
    intro k hany
    obtain ⟨t, ht, -⟩ := (Option.any_eq_true _ _).mp hany
    obtain ⟨-, hget, hnth⟩ := view_thread ht
    have hmem := mem_viewThreads (List.mem_of_getElem? hget)
    exact ⟨hnth, by rw [hget]; exact hmem⟩
  have hentry : ∀ {jobId}, (w.stores.queue jobId).any (fun entry => entry.userId = userId) = true →
      ((viewStores userId w.stores).queue jobId).any (fun entry => entry.userId = userId) =
        true := by
    intro jobId hany
    obtain ⟨entry, hq, huser⟩ := (Option.any_eq_true _ _).mp hany
    rw [queue_view_eq hq (of_decide_eq_true huser)]
    exact huser
  cases a with
  | call request => exact ⟨rfl, hact⟩
  | step k env =>
      obtain ⟨hnth, hany⟩ := hthread hact
      exact ⟨congrArg (fun i => Action.step i env) hnth, hany⟩
  | throw k env err applied =>
      obtain ⟨hnth, hany⟩ := hthread hact
      exact ⟨congrArg (fun i => Action.throw i env err applied) hnth, hany⟩
  | timeout k =>
      obtain ⟨hnth, hany⟩ := hthread hact
      exact ⟨congrArg Action.timeout hnth, hany⟩
  | ack k =>
      obtain ⟨hnth, hany⟩ := hthread hact
      exact ⟨congrArg Action.ack hnth, hany⟩
  | pick jobId => exact ⟨rfl, hentry hact⟩
  | promote jobId => exact ⟨rfl, hentry hact⟩
  | purge jobId => exact ⟨rfl, hentry hact⟩
  | upload user jobId bytes => exact ⟨rfl, hact⟩

/-- A page whose cursor is no other user's job shows the user's own rows only. -/
theorem list_view {stores : Stores} {cursor : Option String} {limit : ℕ}
    (hcursor : foreignCursor stores userId cursor = false) :
    JobsService.list (viewStores userId stores) userId cursor limit =
      JobsService.list stores userId cursor limit := by
  have hlist : (viewStores userId stores).listScoped userId cursor limit =
      stores.listScoped userId cursor limit := by
    unfold foreignCursor at hcursor
    unfold Stores.listScoped
    cases hc : cursor.filter (· ≠ "") with
    | none => simp only [liveJobs_view]
    | some id =>
        simp only [hc] at hcursor
        cases hrow : stores.findById id with
        | none => simp only [findById_view, hrow, Option.filter_none]
        | some row =>
            simp only [hrow] at hcursor
            by_cases huser : row.userId = userId
            · simp only [findById_view, hrow, huser, decide_true, Option.filter_some, if_true,
                liveJobs_view]
            · have hempty : ((stores.liveJobs userId).filter fun job =>
                  job.position ≤ row.position).drop 1 = [] := by
                apply List.drop_eq_nil_of_le
                simpa [huser] using hcursor
              simp only [findById_view, hrow, huser, decide_false, Option.filter_some, hempty,
                List.take_nil, Bool.false_eq_true, if_false]
  simp only [JobsService.list, hlist]

theorem reads_view {reads : List (String × Answer)} {user : String} {a : Answer}
    (huser : user = userId) :
    (reads ++ [(user, a)]).filter (fun r => r.1 = userId) =
      reads.filter (fun r => r.1 = userId) ++ [(user, a)] :=
  filter_snoc (by simpa using huser)

theorem apart_act {a : Action} (h : Apart parse userId s ⟨userId, .act a⟩) :
    insertsFresh s.world (locate userId s.world a) = true := by
  have hand := (Bool.and_eq_true_iff.mp h).2
  simpa using hand

theorem apart_list {cursor : Option String} {limit : ℕ} {id : Option String}
    (h : Apart parse userId s ⟨userId, .list cursor limit⟩) (hid : cursorId parse cursor = .ok id) :
    foreignCursor s.world.stores userId id = false := by
  have hand := (Bool.and_eq_true_iff.mp h).2
  simpa [hid] using hand

/-- An event of the user makes of the view what it makes of the server. -/
theorem serve_view (h : Coherent s.world) (hg : Apart parse userId s e) (hown : e.userId = userId)
    (hs : serve cfg parse s e = some s') :
    serve cfg parse (viewServed userId s) e = some (viewServed userId s') := by
  rcases e with ⟨user, deed⟩
  dsimp only at hown
  subst hown
  cases deed with
  | act a =>
      simp only [serve] at hs
      split_ifs at hs with hact hrefused
      · cases hs
        obtain ⟨hlocate, hact'⟩ := concerns_view hact
        simp only [serve, viewServed, hlocate, hact', hrefused, if_true, reads_view]
      · obtain ⟨w, hw, rfl⟩ := Option.map_eq_some_iff.mp hs
        obtain ⟨hlocate, hact'⟩ := concerns_view hact
        have hstep := view_step h hact (apart_act hg) hw
        simp only [serve, viewServed, hlocate, hact', hrefused, if_true, Bool.false_eq_true,
          if_false, hstep, Option.map_some]
  | findOne jobId =>
      cases hs
      simp only [serve, viewServed, view, findOne_view, reads_view]
  | getPdfUrl jobId =>
      cases hs
      simp only [serve, viewServed, view, getPdfUrl_view, reads_view]
  | list cursor limit =>
      cases hs
      cases hid : cursorId parse cursor with
      | error err => simp only [serve, viewServed, hid, Except.map, reads_view]
      | ok id =>
          have hlist : JobsService.list (viewStores user s.world.stores) user id limit = _ :=
            list_view (apart_list hg hid)
          simp only [serve, viewServed, view, hid, Except.map, hlist, reads_view]

/-- An event of another user is not seen. -/
theorem serve_view_other (h : Coherent s.world) (hg : Apart parse userId s e)
    (hne : e.userId ≠ userId) (hs : serve cfg parse s e = some s') :
    viewServed userId s' = viewServed userId s := by
  rcases e with ⟨user, deed⟩
  simp only [Apart, apart, Bool.and_eq_true, decide_eq_true_eq] at hg
  have hreads : ∀ a : Answer, (s.reads ++ [(user, a)]).filter (fun r => r.1 = userId) =
      s.reads.filter fun r => r.1 = userId := by
    intro a
    exact filter_snoc_other (decide_eq_false hne)
  cases deed with
  | act a =>
      simp only [serve] at hs
      split_ifs at hs with hact hrefused
      · cases hs
        simp only [viewServed, hreads]
      · obtain ⟨w, hw, rfl⟩ := Option.map_eq_some_iff.mp hs
        have hview := view_step_other h hact (Ne.symm hne) hg.1.1 hg.1.2 hw
        simp only [viewServed, hview]
  | findOne jobId =>
      cases hs
      simp only [viewServed, hreads]
  | getPdfUrl jobId =>
      cases hs
      simp only [viewServed, hreads]
  | list cursor limit =>
      cases hs
      simp only [viewServed, hreads]

theorem serve_coherent (h : Coherent s.world) (hs : serve cfg parse s e = some s') :
    Coherent s'.world := by
  rcases e with ⟨user, deed⟩
  cases deed with
  | act a =>
      simp only [serve] at hs
      split_ifs at hs with hact hrefused
      · cases hs
        exact h
      · obtain ⟨w, hw, rfl⟩ := Option.map_eq_some_iff.mp hs
        exact coherent_step h hw
  | _ =>
      cases hs
      exact h

/-- The unwinding conditions hold between a user and the others. -/
theorem users_separated (cfg : ServerConfig) (parse : String → Except HttpError String)
    (userId : String) :
    Separated (serve cfg parse) (Apart parse userId) (fun e => e.userId = userId)
      (viewServed userId) fun s => Coherent s.world where
  kept _ _ _ h _ hs := serve_coherent h hs
  acts _ _ _ h hg hown hs := serve_view h hg (of_decide_eq_true hown) hs
  silent _ _ _ h hg hown hs := serve_view_other h hg (of_decide_eq_false hown) hs

/-! ## Two histories -/

theorem answer_relocate {f : ℕ → ℕ} {t : Thread} : answer (relocate f t) = answer t := by
  cases t <;> rfl

/-- The user is answered from the view. -/
theorem answersTo_eq : answersTo userId s =
    ((viewServed userId s).reads.map Prod.snd,
      (viewThreads userId s.world.threads).map answer) := by
  have hreads : ∀ reads : List (String × Answer),
      reads.filterMap (fun r => if r.1 = userId then some r.2 else none) =
        (reads.filter fun r => r.1 = userId).map Prod.snd := by
    intro reads
    induction reads with
    | nil => rfl
    | cons r reads ih => by_cases hr : r.1 = userId <;> simp [hr, ih]
  have hcalls : (viewThreads userId s.world.threads).map answer =
      (s.world.threads.filter (mine userId)).map answer := by
    rw [viewThreads, List.map_map]
    exact List.map_congr_left fun t _ => answer_relocate
  rw [hcalls]
  exact congrArg (fun reads => (reads, _)) (hreads s.reads)

/-- Two histories that agree on the events of a user give the user the same answers, and leave
the user's rows and objects the same. -/
theorem users_apart (cfg : ServerConfig) (parse : String → Except HttpError String)
    {userId : String} {events₁ events₂ : List Event} {s₁ s₂ : Served}
    (hsame : events₁.filter (fun e => e.userId = userId) =
      events₂.filter fun e => e.userId = userId)
    (h₁ : execWhere (serve cfg parse) (Apart parse userId) events₁ Served.empty = some s₁)
    (h₂ : execWhere (serve cfg parse) (Apart parse userId) events₂ Served.empty = some s₂) :
    answersTo userId s₁ = answersTo userId s₂ ∧ rowsOf userId s₁ = rowsOf userId s₂ ∧
      ∀ key, belongs userId key = true →
        s₁.world.stores.bucket key = s₂.world.stores.bucket key := by
  have hview :=
    (users_separated cfg parse userId).agree coherent_empty coherent_empty rfl hsame h₁ h₂
  refine ⟨?_, ?_, ?_⟩
  · have hthreads : viewThreads userId s₁.world.threads = viewThreads userId s₂.world.threads :=
      congrArg (fun s => s.world.threads) hview
    rw [answersTo_eq, answersTo_eq, hview, hthreads]
  · exact congrArg (fun s => s.world.stores.jobs.rows) hview
  · intro key hkey
    have hbucket := congrArg (fun s => s.world.stores.bucket key) hview
    simpa only [viewServed, view, viewStores, hkey, if_true] using hbucket

/-- A cursor in one of the two spellings; another text fails the query. -/
def parseCursor (text : String) : Except HttpError String :=
  if isUuid text then .ok (canonical text) else .error ⟨500, "A database error occurred."⟩

/-- `user-1` creates two jobs and then lists from a cursor. -/
def listing (cursor : String) (others : List Event) : List Event :=
  [⟨"user-1", .act (.call (.create "user-1" "Site A" none))⟩,
    ⟨"user-1", .act (.step 0 { now := 1, id := "a0000000-0000-4000-8000-000000000001" })⟩,
    ⟨"user-1", .act (.call (.create "user-1" "Site B" none))⟩,
    ⟨"user-1", .act (.step 1 { now := 2, id := "a0000000-0000-4000-8000-000000000002" })⟩] ++
      others ++ [⟨"user-1", .list (some cursor) 10⟩]

/-- `user-2` creates a job. -/
def others : List Event :=
  [⟨"user-2", .act (.call (.create "user-2" "Site C" none))⟩,
    ⟨"user-2", .act (.step 0 { now := 3, id := "a0000000-0000-4000-8000-000000000003" })⟩]

/-- The number of jobs on each page that was read. -/
def pageSizes (answers : List Answer) : List ℕ :=
  answers.filterMap fun a =>
    match a with
    | .page (.ok page) => some page.items.length
    | _ => none

/-- The user names the own second job in upper case. -/
theorem users_apart_demo :
    ∃ s₁ s₂, execWhere (serve demo parseCursor) (Apart parseCursor "user-1")
        (listing "A0000000-0000-4000-8000-000000000002" others) .empty = some s₁ ∧
      execWhere (serve demo parseCursor) (Apart parseCursor "user-1")
          (listing "A0000000-0000-4000-8000-000000000002" []) .empty = some s₂ ∧
        pageSizes (answersTo "user-1" s₁).1 = [1] ∧
          answersTo "user-1" s₁ = answersTo "user-1" s₂ := by
  have h₁ : (execWhere (serve demo parseCursor) (Apart parseCursor "user-1")
      (listing "A0000000-0000-4000-8000-000000000002" others) .empty).any
        (fun s => pageSizes (answersTo "user-1" s).1 = [1]) = true := by decide
  have h₂ : (execWhere (serve demo parseCursor) (Apart parseCursor "user-1")
      (listing "A0000000-0000-4000-8000-000000000002" []) .empty).isSome = true := by decide
  obtain ⟨s₁, hs₁, hp⟩ := (Option.any_eq_true _ _).mp h₁
  obtain ⟨s₂, hs₂⟩ := Option.isSome_iff_exists.mp h₂
  have hsame : (listing "A0000000-0000-4000-8000-000000000002" others).filter
      (fun e => e.userId = "user-1") =
        (listing "A0000000-0000-4000-8000-000000000002" []).filter
          fun e => e.userId = "user-1" := by rfl
  exact ⟨s₁, s₂, hs₁, hs₂, of_decide_eq_true hp,
    (users_apart demo parseCursor hsame hs₁ hs₂).1⟩

/-- A list with the id of another user's job as its cursor tells whether that job exists, and
where it stands among the user's own. -/
theorem foreign_cursor_seen :
    ∃ s₁ s₂, (listing "a0000000-0000-4000-8000-000000000003" others).filter
          (fun e => e.userId = "user-1") =
        (listing "a0000000-0000-4000-8000-000000000003" []).filter
          (fun e => e.userId = "user-1") ∧
      exec (serve demo parseCursor) (listing "a0000000-0000-4000-8000-000000000003" others)
          .empty = some s₁ ∧
        exec (serve demo parseCursor) (listing "a0000000-0000-4000-8000-000000000003" [])
            .empty = some s₂ ∧
          answersTo "user-1" s₁ ≠ answersTo "user-1" s₂ := by
  have h₁ : (exec (serve demo parseCursor)
      (listing "a0000000-0000-4000-8000-000000000003" others) .empty).any
        (fun s => pageSizes (answersTo "user-1" s).1 = [1]) = true := by decide
  have h₂ : (exec (serve demo parseCursor)
      (listing "a0000000-0000-4000-8000-000000000003" []) .empty).any
        (fun s => pageSizes (answersTo "user-1" s).1 = [0]) = true := by decide
  obtain ⟨s₁, hs₁, hp₁⟩ := (Option.any_eq_true _ _).mp h₁
  obtain ⟨s₂, hs₂, hp₂⟩ := (Option.any_eq_true _ _).mp h₂
  refine ⟨s₁, s₂, rfl, hs₁, hs₂, ?_⟩
  intro heq
  have hp := of_decide_eq_true hp₁
  rw [heq, of_decide_eq_true hp₂] at hp
  cases hp

end FieldNote.UserIsolation
