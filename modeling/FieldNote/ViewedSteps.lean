import FieldNote.UserSteps

/-!
# A server that has only one user

What a step for a user makes of the server, it makes of the user's view, where the threads
are numbered among the user's own; a step for another user leaves the view.
-/
namespace FieldNote.UserViews
open JobsService PipelineService ServerRuns ObjectKeys Selections CallPool SpelledIds

variable {cfg : ServerConfig} {w w' : World} {env : Env} {op : Op} {s : Stores} {now : ℕ}
  {userId userId' jobId : String}

/-! ## The pool -/

theorem relocate_congr {f g : ℕ → ℕ} {t : Thread}
    (h : ∀ (a : Attempt) (work : Work) (k : ℕ), t = .attempt a → a.pc = .racing work k → f k = g k) :
    relocate f t = relocate g t := by
  cases t with
  | attempt a =>
      simp only [relocate]
      congr 2
      cases hpc : a.pc with
      | racing work k => simp only [relocatePc, h a work k rfl hpc]
      | _ => rfl
  | _ => rfl

theorem relocatePc_of {f : ℕ → ℕ} {pc : AttemptPc} (h : ∀ work k, pc ≠ .racing work k) :
    relocatePc f pc = pc := by
  cases pc with
  | racing work k => exact (h work k rfl).elim
  | _ => rfl

theorem userId_relocate {f : ℕ → ℕ} {t : Thread} :
    Thread.userId (relocate f t) = Thread.userId t := by
  cases t <;> rfl

/-- The body that the thread races, if it does, has been started. -/
def RacesWithin (n : ℕ) (t : Thread) : Prop :=
  ∀ (a : Attempt) (work : Work) (k : ℕ), t = .attempt a → a.pc = .racing work k → k ≤ n

theorem races_within (h : RacesOwn w) {t : Thread} (ht : t ∈ w.threads) :
    RacesWithin w.threads.length t := by
  intro a work k heq hpc
  subst heq
  obtain ⟨b, hb, -⟩ := h a work k ht hpc
  exact Nat.le_of_lt (lt_of_getElem? hb)

theorem rank_append {threads new : List Thread} {k : ℕ} (hk : k ≤ threads.length) :
    rank userId (threads ++ new) k = rank userId threads k := countPBefore_append hk

theorem viewThreads_get {threads : List Thread} {i : ℕ} {t : Thread} (hi : threads[i]? = some t)
    (ht : mine userId t = true) :
    (viewThreads userId threads)[rank userId threads i]? =
      some (relocate (rank userId threads) t) := by
  rw [viewThreads, List.getElem?_map, rank, Selections.getElem?_filter hi ht, Option.map_some]

theorem viewThreads_length {threads : List Thread} :
    (viewThreads userId threads).length = rank userId threads threads.length := by
  rw [viewThreads, List.length_map, rank, List.countPBefore_length, List.countP_eq_length_filter]

theorem mem_viewThreads {threads : List Thread} {t : Thread} (h : t ∈ viewThreads userId threads) :
    mine userId t = true := by
  obtain ⟨t₀, ht₀, rfl⟩ := List.mem_map.mp h
  simpa [mine, userId_relocate] using (List.mem_filter.mp ht₀).2

/-- New threads of the user come at the end of the view. -/
theorem viewThreads_append {threads new : List Thread}
    (hold : ∀ t ∈ threads, RacesWithin threads.length t)
    (hnew : ∀ t ∈ new, mine userId t = true ∧ ∀ f, relocate f t = t) :
    viewThreads userId (threads ++ new) = viewThreads userId threads ++ new := by
  have hfilter : new.filter (mine userId) = new :=
    List.filter_eq_self.mpr fun t ht => (hnew t ht).1
  rw [viewThreads, viewThreads, List.filter_append, List.map_append, hfilter]
  congr 1
  · apply List.map_congr_left
    intro t ht
    apply relocate_congr
    intro a work k heq hpc
    exact rank_append (hold t (List.mem_filter.mp ht).1 a work k heq hpc)
  · rw [List.map_congr_left (g := id) fun t ht => (hnew t ht).2 _, List.map_id]

theorem viewThreads_append_other {threads new : List Thread}
    (hold : ∀ t ∈ threads, RacesWithin threads.length t)
    (hnew : ∀ t ∈ new, mine userId t = false) :
    viewThreads userId (threads ++ new) = viewThreads userId threads := by
  have hfilter : new.filter (mine userId) = [] :=
    List.filter_eq_nil_iff.mpr fun t ht => by simp [hnew t ht]
  rw [viewThreads, viewThreads, List.filter_append, hfilter, List.append_nil]
  apply List.map_congr_left
  intro t ht
  apply relocate_congr
  intro a work k heq hpc
  exact rank_append (hold t (List.mem_filter.mp ht).1 a work k heq hpc)

theorem viewThreads_set {threads : List Thread} {i : ℕ} {t t' : Thread}
    (hi : threads[i]? = some t) (ht : mine userId t = true) (ht' : mine userId t' = true) :
    viewThreads userId (threads.set i t') =
      (viewThreads userId threads).set (rank userId threads i)
        (relocate (rank userId threads) t') := by
  have hrank : rank userId (threads.set i t') = rank userId threads := by
    funext k
    exact countPBefore_set hi (ht'.trans ht.symm)
  rw [viewThreads, viewThreads, hrank, filter_set hi ht ht', List.map_set]
  rfl

theorem viewThreads_set_other {threads : List Thread} {i : ℕ} {t t' : Thread}
    (hi : threads[i]? = some t) (ht : mine userId t = false) (ht' : mine userId t' = false) :
    viewThreads userId (threads.set i t') = viewThreads userId threads := by
  have hrank : rank userId (threads.set i t') = rank userId threads := by
    funext k
    exact countPBefore_set hi (ht'.trans ht.symm)
  rw [viewThreads, viewThreads, hrank, filter_set_other hi ht ht']

/-! ## A segment -/

theorem nextMark_view {message : String} {mark : MarkPc} (howned : Owned s userId jobId) :
    nextMark (viewStores userId s) jobId message mark = nextMark s jobId message mark := by
  cases mark with
  | rawById => simp only [nextMark, findById_owned howned]
  | _ => rfl

theorem nextCreate_view {c : CreateCall} (hfree : c.pc = .createDraft → s.findById env.id = none) :
    nextCreate cfg (viewStores c.userId s) env c = nextCreate cfg s env c := by
  rcases c with ⟨user, label, key, pc⟩
  cases pc with
  | findByIdempotencyKey key => simp only [nextCreate, findByIdempotencyKey_view]
  | createDraft =>
      have hdraft : (draft env ⟨user, label, key, .createDraft⟩).userId = user := rfl
      simp only [nextCreate, keyTaken_view hdraft, findById_view, hfree rfl, Option.filter_none]
  | _ => rfl

theorem spelledProcess_view {c : ProcessCall} (hentries : EntriesOwned s)
    (hc : Holds s (.process c)) :
    spelledProcess cfg (viewStores c.userId s) c = spelledProcess cfg s c := by
  rcases c with ⟨user, id, pc⟩
  have hqueue : Owned s user (canonical id) → (viewStores user s).queue id = s.queue id :=
    queue_view hentries
  cases pc with
  | findScoped => simp only [spelledProcess, nextProcess, findScoped_view]
  | objectExists job =>
      have hkey : UserKey user (job.audioKey.getD (audioKey user id)) := by
        cases haudio : job.audioKey with
        | none => exact ⟨id, .inl rfl⟩
        | some key => exact hc.2 key haudio
      simp only [spelledProcess, nextProcess, bucket_view hkey]
  | getJob job => simp only [spelledProcess, nextProcess, hqueue hc]
  | getState job => simp only [spelledProcess, nextProcess, hqueue hc]
  | remove job => simp only [spelledProcess, nextProcess, hqueue hc]
  | add job => simp only [spelledProcess, nextProcess, hqueue hc]
  | findAgain job => simp only [spelledProcess, nextProcess, findScoped_view]
  | _ => rfl

theorem findOne_view : findOne cfg (viewStores userId s) userId jobId = findOne cfg s userId jobId := by
  simp only [findOne, findScoped_view]

theorem getPdfUrl_view :
    getPdfUrl cfg (viewStores userId s) userId jobId = getPdfUrl cfg s userId jobId := by
  simp only [getPdfUrl, findScoped_view]

theorem nextUpdate_view {c : UpdateCall} :
    nextUpdate cfg (viewStores c.userId s) env c = nextUpdate cfg s env c := by
  simp only [nextUpdate, updateWrite, replaceWrite, findScoped_view, findOne_view]

theorem nextRemove_view {c : RemoveCall} :
    nextRemove (viewStores c.userId s) c = nextRemove s c := by
  simp only [nextRemove, findScoped_view]

theorem spelledBody_view {b : Body} (hb : Holds s (.body b)) :
    spelledBody (viewStores b.userId s) env b = spelledBody s env b := by
  rcases b with ⟨id, user, pc⟩
  cases pc with
  | getObjectStream key => simp only [spelledBody, nextBody, bucket_view (hb.2 key rfl)]
  | _ => rfl

theorem spelledHandler_view {hd : Handler} (howned : Owned s hd.userId (canonical hd.jobId)) :
    spelledHandler (viewStores hd.userId s) hd = spelledHandler s hd := by
  rcases hd with ⟨id, user, e, made, pc⟩
  cases pc with
  | marking mark => simp only [spelledHandler, nextHandler, nextMark_view howned]
  | _ => rfl

theorem relocatePc_findById {f : ℕ → ℕ} {user : String} {row : Option Job} :
    relocatePc f (afterFindById jobId user row) = afterFindById jobId user row := by
  apply relocatePc_of
  intro work k h
  rcases afterFindById_cases jobId user row with ⟨e, he⟩ | ⟨_, _, work', -, -, -, -, -, he, -⟩
  · rw [he] at h
    cases h
  · rw [he] at h
    cases h

theorem relocatePc_afterThrow {f : ℕ → ℕ} {e : Err} :
    relocatePc f (afterThrow e) = afterThrow e := by
  apply relocatePc_of
  intro work k h
  unfold afterThrow at h
  split_ifs at h

theorem relocatePc_afterStage {f : ℕ → ℕ} {work : Work} {result : StageResult} :
    relocatePc f (afterStage work result) = afterStage work result := by
  apply relocatePc_of
  intro work' k h
  cases work with
  | transcribe job =>
      simp only [afterStage, compileStage] at h
      split_ifs at h
  | _ => cases h

/-- A body that a thread of the user races gives its result in the view as well. -/
theorem bodyResult_view {a : Attempt} {work : Work} {k : ℕ} (h : RacesOwn w)
    (ha : Thread.attempt a ∈ w.threads) (hpc : a.pc = .racing work k) (hu : a.userId = userId) :
    (view userId w).bodyResult (rank userId w.threads k) = w.bodyResult k := by
  obtain ⟨b, hb, huser⟩ := h a work k ha hpc
  have hmine : mine userId (.body b) = true := decide_eq_true (huser.trans hu)
  have hget := viewThreads_get hb hmine
  simp only [World.bodyResult, view, hget, hb]
  rfl

theorem spelledAttempt_view {a : Attempt} (h : RacesOwn w) (ha : Thread.attempt a ∈ w.threads)
    (hu : a.userId = userId) (howned : Owned w.stores userId (canonical a.jobId)) :
    spelledAttempt (view userId w) { a with pc := relocatePc (rank userId w.threads) a.pc } =
      (spelledAttempt w a).map fun r => (relocatePc (rank userId w.threads) r.1, r.2) := by
  have hbody : ∀ work k, a.pc = .racing work k →
      (view userId w).bodyResult (rank userId w.threads k) = w.bodyResult k :=
    fun work k hpc => bodyResult_view h ha hpc hu
  rcases a with ⟨id, user, pc⟩
  cases pc with
  | findById =>
      simp only [spelledAttempt, relocatePc, view, findById_owned howned]
      exact congrArg (fun pc => some (pc, Op.none)) relocatePc_findById.symm
  | addStarted work =>
      simp only [spelledAttempt, nextAttempt, relocatePc, view, Option.map_some, viewThreads_length]
  | racing work k =>
      simp only [spelledAttempt, nextAttempt, relocatePc, hbody work k rfl]
      split <;> rfl
  | addCompleted work result =>
      simp only [spelledAttempt, nextAttempt, relocatePc]
      exact congrArg (fun pc => some (pc, Op.addEvent _)) relocatePc_afterStage.symm
  | addFailed work e =>
      simp only [spelledAttempt, nextAttempt, relocatePc]
      exact congrArg (fun pc => some (pc, Op.addEvent _)) relocatePc_afterThrow.symm
  | marking e mark =>
      simp only [spelledAttempt, nextAttempt, relocatePc, view, nextMark_view howned]
      split <;> rfl
  | _ => simp only [spelledAttempt, nextAttempt, relocatePc, Option.map_some, Option.map_none]

/-- The user's threads make of the view what they make of the server. -/
theorem next_view {i : ℕ} {t : Thread} (h : Coherent w) (hi : w.threads[i]? = some t)
    (ht : mine userId t = true)
    (hfree : ∀ c, t = .create c → c.pc = .createDraft → w.stores.findById env.id = none) :
    spelledNext cfg (view userId w) env (relocate (rank userId w.threads) t) =
      (spelledNext cfg w env t).map fun r => (relocate (rank userId w.threads) r.1, r.2) := by
  have hmem := List.mem_of_getElem? hi
  have hholds := h.holds t hmem
  cases t with
  | create c =>
      obtain rfl : c.userId = userId := of_decide_eq_true ht
      simp only [spelledNext, relocate, view, nextCreate_view (hfree c rfl), Option.map_map]
      rfl
  | process c =>
      obtain rfl : c.userId = userId := of_decide_eq_true ht
      simp only [spelledNext, relocate, view, spelledProcess_view h.entries hholds, Option.map_map]
      rfl
  | update c =>
      obtain rfl : c.userId = userId := of_decide_eq_true ht
      have hnext : nextUpdate cfg (viewStores c.userId w.stores) env
          { c with jobId := canonical c.jobId } = _ := nextUpdate_view
      simp only [spelledNext, relocate, view, hnext, Option.map_map]
      rfl
  | remove c =>
      obtain rfl : c.userId = userId := of_decide_eq_true ht
      have hnext : nextRemove (viewStores c.userId w.stores)
          { c with jobId := canonical c.jobId } = _ := nextRemove_view
      simp only [spelledNext, relocate, view, hnext, Option.map_map]
      rfl
  | attempt a =>
      obtain rfl : a.userId = userId := of_decide_eq_true ht
      have hnext := spelledAttempt_view h.races hmem rfl hholds.1
      simp only [spelledNext, relocate, hnext, Option.map_map]
      congr 1
      funext r
      simp only [Function.comp_apply, Attempt.spawn]
      cases hpc : a.pc <;> simp only [relocatePc]
  | body b =>
      obtain rfl : b.userId = userId := of_decide_eq_true ht
      simp only [spelledNext, relocate, view, spelledBody_view hholds, Option.map_map]
      rfl
  | handler hd =>
      obtain rfl : hd.userId = userId := of_decide_eq_true ht
      simp only [spelledNext, relocate, view, spelledHandler_view hholds, Option.map_map]
      rfl

theorem next_view_some {i : ℕ} {t : Thread} {r : Thread × Op × List Thread} (h : Coherent w)
    (hi : w.threads[i]? = some t) (ht : mine userId t = true)
    (hfree : ∀ c, t = .create c → c.pc = .createDraft → w.stores.findById env.id = none)
    (hn : spelledNext cfg w env t = some r) :
    spelledNext cfg (view userId w) env (relocate (rank userId w.threads) t) =
      some (relocate (rank userId w.threads) r.1, r.2) := by
  rw [next_view h hi ht hfree, hn, Option.map_some]

theorem throwing_relocate {f : ℕ → ℕ} {e : Err} {t : Thread} :
    throwing e (relocate f t) = (throwing e t).map (relocate f) := by
  cases t with
  | attempt a =>
      have hleft : some (Thread.attempt { a with pc := afterThrow e }) =
          some (relocate f (.attempt { a with pc := afterThrow e })) := by
        simp only [relocate, relocatePc_afterThrow]
      rcases a with ⟨id, user, pc⟩
      cases pc with
      | setStatus work => exact hleft
      | addStarted work => exact hleft
      | addFailed work e' => exact hleft
      | _ => rfl
  | _ =>
      simp only [throwing, relocate, Option.map_map]
      rfl

theorem timingOut_relocate {f : ℕ → ℕ} {t : Thread} :
    timingOut cfg (relocate f t) = (timingOut cfg t).map (relocate f) := by
  cases t with
  | attempt a =>
      cases hpc : a.pc with
      | racing work k => simp only [timingOut, relocate, relocatePc, hpc, Option.map_some]
      | _ => simp only [timingOut, relocate, relocatePc, hpc, Option.map_none]
  | _ => rfl

/-! ## A step -/

theorem nextCreate_free {c : CreateCall} {pc : CreatePc} {job : Job}
    (h : nextCreate cfg s env c = some (pc, .insertJob job)) : s.findById job.id = none := by
  unfold nextCreate at h
  split at h
  · split at h <;> cases h
  · split_ifs at h with hfree
    · cases h
    · cases h
      rw [Bool.or_eq_true, not_or] at hfree
      exact Option.not_isSome_iff_eq_none.mp hfree.2
  · cases h
  · cases h

theorem canonicalOp_insert {job : Job} (h : canonicalOp op = .insertJob job) :
    op = .insertJob job := by
  cases op <;> first | exact h | cases h

/-- A row is inserted only under an id that is free. -/
theorem next_inserts {t t' : Thread} {job : Job} {spawned : List Thread}
    (h : spelledNext cfg w env t = some (t', .insertJob job, spawned)) :
    w.stores.findById job.id = none := by
  cases t with
  | create c =>
      obtain ⟨⟨pc, op⟩, hn, he⟩ := Option.map_eq_some_iff.mp h
      cases he
      exact nextCreate_free hn
  | process c =>
      obtain ⟨⟨pc, op⟩, hn, he⟩ := Option.map_eq_some_iff.mp h
      cases he
      rcases spelledProcess_op {} hn with hnone | ⟨op', hop, hoperates⟩
      · cases hnone
      · cases canonicalOp_insert hop.symm
        cases hoperates
  | update c =>
      obtain ⟨⟨pc, op⟩, hn, he⟩ := Option.map_eq_some_iff.mp h
      cases he
      rcases nextUpdate_op hn with hop | ⟨wr, -, hop, -⟩ <;> cases hop
  | remove c =>
      obtain ⟨⟨pc, op⟩, hn, he⟩ := Option.map_eq_some_iff.mp h
      cases he
      rcases nextRemove_op hn with hop | hop | ⟨job', -, hop⟩ <;> cases hop
  | attempt a =>
      obtain ⟨⟨pc, op⟩, hn, he⟩ := Option.map_eq_some_iff.mp h
      cases he
      rcases spelledAttempt_op {} hn with hop | hop <;> cases hop
  | body b =>
      obtain ⟨⟨pc, op⟩, hn, he⟩ := Option.map_eq_some_iff.mp h
      cases he
      obtain ⟨⟨pc', op'⟩, hn, he⟩ := Option.map_eq_some_iff.mp hn
      cases canonicalOp_insert (congrArg Prod.snd he)
      cases (nextBody_operates hn : Operates w env (.body b) _)
  | handler hd =>
      obtain ⟨⟨pc, op⟩, hn, he⟩ := Option.map_eq_some_iff.mp h
      cases he
      rcases spelledHandler_op {} hn with hop | hop <;> cases hop

theorem acts_inserts {i : ℕ} {act : Action} {t t' : Thread} {job : Job} {spawned : List Thread}
    (acts : SpelledActs cfg w i act t now t' (.insertJob job) spawned) :
    w.stores.findById job.id = none := by
  cases acts with
  | stepped env t t' op spawned next => exact next_inserts next
  | lost env e t t' t₁ op spawned throws next => exact next_inserts next

theorem acts_racesWithin {i : ℕ} {act : Action} {t t' : Thread} {spawned : List Thread}
    (acts : SpelledActs cfg w i act t now t' op spawned) : RacesWithin w.threads.length t' := by
  intro a work k heq hpc
  subst heq
  exact Nat.le_of_eq (acts_racing acts hpc).1

theorem acts_spawned_alike {i : ℕ} {act : Action} {t t' t₁ : Thread} {spawned : List Thread}
    (acts : SpelledActs cfg w i act t now t' op spawned) (ht₁ : t₁ ∈ spawned) (f : ℕ → ℕ) :
    relocate f t₁ = t₁ := by
  rcases spelled_spawned acts ht₁ with ⟨_, _, -, -, rfl⟩ | ⟨_, _, _, -, -, rfl⟩ <;> rfl

theorem outside_alike {act : Action} {new : List Thread} {t : Thread} (acts : Outside w act op new)
    (ht : t ∈ new) (f : ℕ → ℕ) : relocate f t = t := by
  cases t with
  | attempt a =>
      have hpc := (outside_new acts ht).2 a rfl
      rcases a with ⟨id, user, pc⟩
      dsimp only at hpc
      subst hpc
      rfl
  | _ => rfl

variable {i : ℕ} {act : Action} {t t' : Thread} {spawned : List Thread}

/-- The pool after a move, in which every race is still within. -/
theorem within_set (h : Coherent w) (acts : SpelledActs cfg w i act t now t' op spawned) :
    ∀ t₁ ∈ w.threads.set i t', RacesWithin (w.threads.set i t').length t₁ := by
  intro t₁ ht₁
  rw [List.length_set]
  rcases List.mem_or_eq_of_mem_set ht₁ with hold | rfl
  · exact races_within h.races hold
  · exact acts_racesWithin acts

/-- A move of a thread of the user, seen by the user. -/
theorem view_advance (h : Coherent w) (hi : w.threads[i]? = some t) (ht : mine userId t = true)
    (acts : SpelledActs cfg w i act t now t' op spawned) :
    view userId (w.advance now i t' op spawned) =
      (view userId w).advance now (rank userId w.threads i)
        (relocate (rank userId w.threads) t') op spawned := by
  have hmem := List.mem_of_getElem? hi
  have huser : Thread.userId t = userId := of_decide_eq_true ht
  have ht' : mine userId t' = true := decide_eq_true ((sameCall_userId acts.sameCall).trans huser)
  have hnew : ∀ t₁ ∈ spawned, mine userId t₁ = true ∧ ∀ f, relocate f t₁ = t₁ := by
    intro t₁ ht₁
    have huser₁ := acts_spawned_userId h hmem acts ht₁
    exact ⟨decide_eq_true (huser₁.trans huser), acts_spawned_alike acts ht₁⟩
  have hstores : viewStores userId (w.stores.run now op) =
      (viewStores userId w.stores).run now op := by
    apply view_run (huser ▸ acts_within h hmem acts) h.events
    rintro job rfl
    exact acts_inserts acts
  have hthreads := viewThreads_append (within_set h acts) hnew
  rw [viewThreads_set hi ht ht'] at hthreads
  simp only [view, World.advance, hstores, hthreads]

/-- A move of another user's thread is not seen. -/
theorem view_advance_other (h : Coherent w) (hi : w.threads[i]? = some t)
    (ht : mine userId' t = true) (hne : userId ≠ userId') (hu : '/' ∉ userId.toList)
    (hu' : '/' ∉ userId'.toList) (acts : SpelledActs cfg w i act t now t' op spawned) :
    view userId (w.advance now i t' op spawned) = view userId w := by
  have hmem := List.mem_of_getElem? hi
  have huser : Thread.userId t = userId' := of_decide_eq_true ht
  have hother : ∀ {t₁}, Thread.userId t₁ = Thread.userId t → mine userId t₁ = false := by
    intro t₁ ht₁
    exact decide_eq_false (by rw [ht₁, huser]; exact hne.symm)
  have hstores : viewStores userId (w.stores.run now op) = viewStores userId w.stores :=
    view_run_other (huser ▸ acts_within h hmem acts) hne hu hu' h.entries
  have hthreads := viewThreads_append_other (within_set h acts)
    fun t₁ ht₁ => hother (acts_spawned_userId h hmem acts ht₁)
  rw [viewThreads_set_other hi (hother rfl) (hother (sameCall_userId acts.sameCall))] at hthreads
  simp only [view, World.advance, hstores, hthreads]

/-- A step from outside for the user, seen by the user. -/
theorem view_outside {new : List Thread} (h : Coherent w) (hact : concerns userId w act = true)
    (acts : Outside w act op new) :
    view userId ⟨w.stores.run 0 op, w.threads ++ new⟩ =
      ⟨(viewStores userId w.stores).run 0 op, viewThreads userId w.threads ++ new⟩ := by
  obtain ⟨hwithin, hmine⟩ := outside_within h acts hact
  have hnew : ∀ t ∈ new, mine userId t = true ∧ ∀ f, relocate f t = t :=
    fun t ht => ⟨hmine t ht, outside_alike acts ht⟩
  have hstores : viewStores userId (w.stores.run 0 op) =
      (viewStores userId w.stores).run 0 op := by
    apply view_run hwithin h.events
    rintro job rfl
    cases acts
  have hthreads := viewThreads_append (fun t ht => races_within h.races ht) hnew
  simp only [view, hstores, hthreads]

theorem view_outside_other {new : List Thread} (h : Coherent w)
    (hact : concerns userId' w act = true) (hne : userId ≠ userId') (hu : '/' ∉ userId.toList)
    (hu' : '/' ∉ userId'.toList) (acts : Outside w act op new) :
    view userId ⟨w.stores.run 0 op, w.threads ++ new⟩ = view userId w := by
  obtain ⟨hwithin, hmine⟩ := outside_within h acts hact
  have hnew : ∀ t ∈ new, mine userId t = false := by
    intro t ht
    have huser : Thread.userId t = userId' := of_decide_eq_true (hmine t ht)
    exact decide_eq_false (by rw [huser]; exact hne.symm)
  have hstores : viewStores userId (w.stores.run 0 op) = viewStores userId w.stores :=
    view_run_other hwithin hne hu hu' h.entries
  have hthreads := viewThreads_append_other (fun t ht => races_within h.races ht) hnew
  simp only [view, hstores, hthreads]

/-- The thread that moves is the one the action concerns. -/
theorem concerns_thread (acts : SpelledActs cfg w i act t now t' op spawned)
    (hi : w.threads[i]? = some t) : concerns userId w act = mine userId t := by
  cases acts <;> simp [concerns, hi]

/-- A step for another user is not seen. -/
theorem view_step_other (h : Coherent w) (hact : concerns userId' w act = true)
    (hne : userId ≠ userId') (hu : '/' ∉ userId.toList) (hu' : '/' ∉ userId'.toList)
    (hs : spelledStep cfg w act = some w') : view userId w' = view userId w := by
  cases spelled_shape hs with
  | thread i now t t' op spawned at_ acts =>
      rw [concerns_thread acts at_] at hact
      exact view_advance_other h at_ hact hne hu hu' acts
  | outside op new acts => exact view_outside_other h hact hne hu hu' acts

end FieldNote.UserViews
