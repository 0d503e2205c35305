import FieldNote.QueueLiveness
import FieldNote.StageMoves

/-!
# A retry of a failed job is not swallowed

FAILED becomes visible before the failed run is over: its entry is still active, and its
failure handler runs later. A retry that falls into either window leaves the job without a
run, or is overwritten. When the retry is written after all that, the job has a new run or
an entry that leads to one, and nothing of the earlier run sets FAILED again.
-/
namespace FieldNote.RetryAfterFailure
open JobsService PipelineService ServerRuns QueueLiveness GuardedRuns CallPool

/-- The thread is no attempt of the job that goes on, and no handler that may set FAILED. -/
def spent (jobId : String) : Thread → Bool
  | .attempt a => a.jobId ≠ jobId || a.pc = .acked
  | .handler h => h.jobId ≠ jobId || !recording h.pc
  | _ => true

/-- The thread is a `process` call that is going to add an entry for the job. -/
def adding (jobId : String) : Thread → Bool
  | .process c =>
      c.jobId = jobId &&
        match c.pc with
        | .add _ => true
        | _ => false
  | _ => false

/-- What is asked of a successful step of a `process` call that has read FAILED: it writes
QUEUED when the earlier runs are over, and its entry does not vanish under it unless another
call is going to add one. -/
def retriesStep (jobId : String) (w : World) (c : ProcessCall) : Bool :=
  match c.pc with
  | .setStatus job => job.status ≠ .FAILED || w.threads.all (spent jobId)
  | .getState job =>
      job.status ≠ .FAILED || (w.stores.queue jobId).isSome || w.threads.any (adding jobId)
  | _ => true

/-- A `process` call is not cut off between the removal of an entry and the addition. -/
def retriesThrow (c : ProcessCall) (applied : Bool) : Bool :=
  match c.pc with
  | .remove _ => !applied
  | .add _ => applied
  | _ => true

def retries (jobId : String) (w : World) : Action → Bool
  | .step i _ =>
      match w.threads[i]? with
      | some (.process c) => c.jobId ≠ jobId || retriesStep jobId w c
      | _ => true
  | .throw i _ _ applied =>
      match w.threads[i]? with
      | some (.process c) => c.jobId ≠ jobId || retriesThrow c applied
      | _ => true
  | _ => true

def Retries (jobId : String) (w : World) (a : Action) : Prop := retries jobId w a = true

instance (jobId : String) : DecidableRel (Retries jobId) :=
  fun _ _ => inferInstanceAs (Decidable (_ = true))

/-- A run of the job has been started since the pool had `n` threads. -/
def Started (n : ℕ) (jobId : String) (w : World) : Prop :=
  ∃ (i : ℕ) (a : Attempt), n ≤ i ∧ w.threads[i]? = some (.attempt a) ∧ a.jobId = jobId

/-- The entry of the job is going to be picked, or a call is going to add one. -/
def Pending (jobId : String) (w : World) : Prop :=
  queued (entryState w jobId) = true ∨
    w.stores.queue jobId = none ∧ ∃ t ∈ w.threads, adding jobId t = true

/-- An active entry has a run that goes on. -/
def Active (jobId : String) (w : World) : Prop :=
  entryState w jobId = some .active →
    ∃ (i : ℕ) (a : Attempt), w.threads[i]? = some (.attempt a) ∧ a.jobId = jobId ∧ a.pc ≠ .acked

/-- Where a retry stands after its write, with the pool as it was then. -/
def Underway (n : ℕ) (jobId : String) (w : World) : ProcessPc → Prop
  | .getJob job | .getState job => job.status = .FAILED
  | .remove _ | .threw _ => True
  | .add _ => Started n jobId w ∨ w.stores.queue jobId = none ∨ queued (entryState w jobId) = true
  | .findAgain _ | .returned _ => Started n jobId w ∨ Pending jobId w
  | _ => False

/-- What holds after the write of a retry, the call `p`, at a pool of `n` threads. -/
structure Retried (n p : ℕ) (jobId : String) (w : World) : Prop where
  length : n ≤ w.threads.length
  spent : ∀ i t, i < n → w.threads[i]? = some t → spent jobId t = true
  active : Active jobId w
  call : ∃ c, w.threads[p]? = some (.process c) ∧ c.jobId = jobId ∧ Underway n jobId w c.pc

variable {cfg : ServerConfig} {w w' : World} {env : Env} {jobId : String} {op : Op}

/-- What a segment of a `process` call does to the entry of its job. -/
inductive EntryMove (w : World) (c : ProcessCall) : ProcessPc → Option Entry → Prop where
  | removed (job : Job) (pc : c.pc = .remove job)
      (idle : entryState w c.jobId ≠ some .active) : EntryMove w c (.add job) none
  | added (job : Job) (pc : c.pc = .add job) (free : w.stores.queue c.jobId = none) :
      EntryMove w c (.findAgain job) (some ⟨.waiting, c.userId, 0⟩)

/-- Only a `process` call sets an entry in a segment of its own. -/
theorem next_entry {t t' : Thread} {spawned : List Thread} {e : Option Entry}
    (h : next cfg w env t = some (t', op, spawned)) (he : op.newEntry = some (jobId, e)) :
    ∃ c pc, t = .process c ∧ c.jobId = jobId ∧ t' = .process { c with pc := pc } ∧
      EntryMove w c pc e := by
  cases t with
  | process c =>
      obtain ⟨⟨pc, op'⟩, hn, heq⟩ := Option.map_eq_some_iff.mp h
      cases heq
      refine ⟨c, pc, rfl, ?_⟩
      unfold nextProcess at hn
      split at hn
      · split at hn
        · cases hn
          cases he
        · split_ifs at hn <;> cases hn <;> cases he
      · split_ifs at hn <;> cases hn <;> cases he
      · cases hn
        cases he
      · split at hn <;> cases hn <;> cases he
      · split at hn <;> cases hn <;> cases he
      · rename_i job hpc
        split at hn
        · cases hn
          cases he
        · rename_i hidle
          cases hn
          cases he
          exact ⟨rfl, rfl, .removed job hpc fun hact => hidle hact⟩
      · rename_i job hpc
        split at hn
        · rename_i hfree
          cases hn
          cases he
          exact ⟨rfl, rfl, .added job hpc hfree⟩
        · cases hn
          cases he
      · cases hn
        cases he
      · cases hn
      · cases hn
  | _ => cases next_operates h <;> cases he

section Move

variable {i now : ℕ} {act : Action} {t t' : Thread} {spawned : List Thread}

/-- An entry is set by a `process` call, whose segment succeeds or is cut off, or by a report. -/
theorem acts_entry {e : Option Entry} (acts : Acts cfg w i act t now t' op spawned)
    (he : op.newEntry = some (jobId, e)) :
    (∃ c pc, t = .process c ∧ c.jobId = jobId ∧ EntryMove w c pc e ∧
      (t' = .process { c with pc := pc } ∨ ∃ env err, act = .throw i env err true)) ∨
    ∃ a err entry, t = .attempt a ∧ a.jobId = jobId ∧ a.pc = .settled err ∧
      e = some (settle cfg a.jobId entry err).1 := by
  cases acts with
  | stepped env t t' op spawned next =>
      obtain ⟨c, pc, rfl, hjob, rfl, hmove⟩ := next_entry next he
      exact .inl ⟨c, pc, rfl, hjob, hmove, .inl rfl⟩
  | threw env e t t' throws => cases he
  | lost env e t t' t₁ op spawned throws next =>
      obtain ⟨c, pc, rfl, hjob, -, hmove⟩ := next_entry next he
      exact .inl ⟨c, pc, rfl, hjob, hmove, .inr ⟨env, e, rfl⟩⟩
  | timedOut t t' out => cases he
  | acked a err entry pc queued =>
      cases he
      exact .inr ⟨a, err, entry, rfl, rfl, pc, rfl⟩

/-- A report leaves no active entry. -/
theorem settle_idle (id : String) (entry : Entry) (err : Option Err) :
    (settle cfg id entry err).1.state ≠ .active := by
  unfold settle
  split
  · simp
  · dsimp only
    split_ifs <;> simp

/-- An attempt ends its part by the report, which sets the entry. -/
theorem acked_entry {a : Attempt} (h : AttemptMove cfg w a now .acked op spawned) :
    ∃ e, op.newEntry = some (a.jobId, e) := by
  generalize hpc : AttemptPc.acked = pc at h
  cases h with
  | acked e entry pc queued => exact ⟨_, rfl⟩
  | completed work result pc =>
      cases work with
      | transcribe job =>
          simp only [afterStage, compileStage] at hpc
          split_ifs at hpc
      | _ => cases hpc
  | thrown work e op pc =>
      unfold afterThrow at hpc
      split_ifs at hpc
  | _ => cases hpc

theorem acked_stuck {a : Attempt} {pc : AttemptPc} (h : AttemptMove cfg w a now pc op spawned) :
    a.pc ≠ .acked := by
  intro hacked
  cases h with
  | failing work e op pc => rcases pc with ⟨i, hpc⟩ | ⟨result, hpc⟩ <;> simp [hacked] at hpc
  | thrown work e op pc =>
      rcases pc with ⟨hpc, -⟩ | ⟨hpc, -⟩ | ⟨e', hpc, -⟩ <;> simp [hacked] at hpc
  | ended e pc => simp [hacked] at pc
  | began job key work pc => simp [hacked] at pc
  | announced work pc => simp [hacked] at pc
  | started work pc => simp [hacked] at pc
  | won work i result pc done => simp [hacked] at pc
  | completed work result pc => simp [hacked] at pc
  | marking e mark mark' op pc next => simp [hacked] at pc
  | marked e mark op pc next => simp [hacked] at pc
  | broke e e' mark op pc next => simp [hacked] at pc
  | acked e entry pc queued => simp [hacked] at pc

theorem entry_same {stores : Stores} {threads threads' : List Thread}
    (h : ∀ e, op.newEntry ≠ some (jobId, e)) :
    entryState ⟨stores.run now op, threads'⟩ jobId = entryState ⟨stores, threads⟩ jobId :=
  entryState_kept h

theorem entry_set {stores : Stores} {threads : List Thread} {e : Option Entry}
    (h : op.newEntry = some (jobId, e)) :
    entryState ⟨stores.run now op, threads⟩ jobId = e.map Entry.state := by
  simp only [entryState, Stores.run_queue_set h]

/-- A run that goes on when its entry is left alone goes on after the move. -/
theorem active_thread (h : Active jobId w) (at_ : w.threads[i]? = some t)
    (acts : Acts cfg w i act t now t' op spawned) :
    Active jobId (w.advance now i t' op spawned) := by
  intro hactive
  by_cases hset : ∃ e, op.newEntry = some (jobId, e)
  · obtain ⟨e, he⟩ := hset
    rw [World.advance, entry_set he] at hactive
    rcases acts_entry acts he with ⟨c, pc, -, -, hmove, -⟩ | ⟨a, err, entry, -, -, -, rfl⟩
    · cases hmove <;> cases hactive
    · exact (settle_idle a.jobId entry err (Option.some.inj hactive)).elim
  · have hnone : ∀ e, op.newEntry ≠ some (jobId, e) := fun e he => hset ⟨e, he⟩
    rw [World.advance, entry_same hnone] at hactive
    obtain ⟨j, a, ha, hjob, hopen⟩ := h hactive
    by_cases hji : j = i
    · subst hji
      rw [at_] at ha
      cases ha
      obtain ⟨pc, rfl, hmove⟩ := acts_attempt acts
      refine ⟨j, _, getElem?_advance_same at_, hjob, ?_⟩
      rintro hacked
      obtain rfl : pc = .acked := hacked
      obtain ⟨e, he⟩ := acked_entry hmove
      exact hnone e (hjob ▸ he)
    · exact ⟨j, a, getElem?_advance_other hji ha, hjob, hopen⟩

/-- What is over stays over. -/
theorem spent_move (h : spent jobId t = true) (acts : Acts cfg w i act t now t' op spawned) :
    spent jobId t' = true := by
  cases acts.sameCall with
  | attempt a pc =>
      obtain ⟨pc', he, hmove⟩ := acts_attempt acts
      have hstuck := acked_stuck hmove
      simp only [spent, Bool.or_eq_true, decide_eq_true_eq] at h ⊢
      exact .inl (h.resolve_right hstuck)
  | handler hd pc =>
      simp only [spent, Bool.or_eq_true, decide_eq_true_eq, Bool.not_eq_true'] at h ⊢
      refine h.imp_right fun hrec => ?_
      have hnext : ∀ pc₁ op₁, nextHandler w.stores hd = some (pc₁, op₁) → recording pc₁ = false := by
        intro pc₁ op₁ hn
        unfold nextHandler at hn
        split at hn
        · rename_i mark hpc
          rw [hpc] at hrec
          cases mark with
          | addEvent m =>
              cases hn
              rfl
          | _ => cases hrec
        · cases hn
          rfl
        · cases hn
      have hthrow : ∀ pc₁, hd.throwing = some pc₁ → recording pc₁ = false := by
        intro pc₁ ht
        unfold Handler.throwing at ht
        split at ht <;> cases ht
        rfl
      generalize ht : Thread.handler hd = t at acts
      generalize ht' : Thread.handler { hd with pc := pc } = t' at acts
      cases acts with
      | stepped env t t' op spawned next =>
          subst ht
          obtain ⟨⟨pc₁, op₁⟩, hn, he⟩ := Option.map_eq_some_iff.mp next
          cases he
          simp only [Thread.handler.injEq, Handler.mk.injEq, true_and] at ht'
          exact ht' ▸ hnext _ _ hn
      | threw env e t t' throws =>
          subst ht
          obtain ⟨pc₁, hp, rfl⟩ := Option.map_eq_some_iff.mp throws
          simp only [Thread.handler.injEq, Handler.mk.injEq, true_and] at ht'
          exact ht' ▸ hthrow _ hp
      | lost env e t t' t₁ op spawned throws next =>
          subst ht
          obtain ⟨pc₁, hp, rfl⟩ := Option.map_eq_some_iff.mp throws
          simp only [Thread.handler.injEq, Handler.mk.injEq, true_and] at ht'
          exact ht' ▸ hthrow _ hp
      | timedOut t t' out =>
          obtain ⟨a, work, body, ha, -⟩ := timingOut_eq out
          cases ht.trans ha
      | acked a e entry pc queued => cases ht
  | _ => rfl

/-- What is over sets FAILED no more, and no failure handler comes of it. -/
theorem spent_silent (h : spent jobId t = true) (acts : Acts cfg w i act t now t' op spawned) :
    op.newStatus ≠ some (jobId, .FAILED) ∧
      ∀ hd, Thread.handler hd ∈ spawned → hd.jobId ≠ jobId := by
  refine ⟨?_, ?_⟩
  · intro hset
    obtain ⟨env, hissues⟩ := acts.issues
    cases hissues with
    | aside _ op haside =>
        cases op with
        | write id wr => cases haside
        | _ => cases hset
    | update c wr pc write =>
        rcases updateWrite_cases write with ⟨label, rfl⟩ | ⟨label, rows, rfl⟩ <;> cases hset
    | stage a work pc => cases work <;> cases hset
    | failed a e m pc =>
        cases hset
        simp [spent, pc] at h
    | handled hd m pc =>
        cases hset
        simp [spent, pc, recording] at h
    | _ => cases hset
  · intro hd hsp
    rcases acts_spawned acts hsp with ⟨_, _, -, -, he⟩ | ⟨a, err, entry, rfl, hpc, -, he⟩
    · cases he
    · cases he
      simp only [spent, hpc, Bool.or_eq_true, decide_eq_true_eq] at h
      exact h.resolve_right (by simp)

/-- A call that is going to add an entry does so, or is left alone. -/
theorem adding_move (hg : Retries jobId w act) (at_ : w.threads[i]? = some t)
    (acts : Acts cfg w i act t now t' op spawned) (h : adding jobId t = true)
    (hfree : w.stores.queue jobId = none) :
    entryState (w.advance now i t' op spawned) jobId = some .waiting := by
  cases t with
  | process c =>
      simp only [adding, Bool.and_eq_true, decide_eq_true_eq] at h
      obtain ⟨rfl, hpc⟩ := h
      cases hadd : c.pc with
      | add job =>
          have hnext : nextProcess cfg w.stores c =
              some (.findAgain job, .setEntry c.jobId (some ⟨.waiting, c.userId, 0⟩)) := by
            simp only [nextProcess, hadd, hfree]
          have hset : (Op.setEntry c.jobId (some ⟨.waiting, c.userId, 0⟩)).newEntry =
              some (c.jobId, some ⟨.waiting, c.userId, 0⟩) := rfl
          generalize ht : Thread.process c = t at acts
          cases acts with
          | stepped env t t' op spawned next =>
              subst ht
              obtain ⟨⟨pc, op'⟩, hn, he⟩ := Option.map_eq_some_iff.mp next
              cases he
              rw [hnext] at hn
              cases hn
              exact entry_set hset
          | threw env e t t' throws =>
              -- the guard: the addition does not fail without effect
              subst ht
              simp [Retries, retries, at_, retriesThrow, hadd] at hg
          | lost env e t t' t₁ op spawned throws next =>
              subst ht
              obtain ⟨⟨pc, op'⟩, hn, he⟩ := Option.map_eq_some_iff.mp next
              cases he
              rw [hnext] at hn
              cases hn
              exact entry_set hset
          | timedOut t t' out =>
              obtain ⟨a, work, body, ha, -⟩ := timingOut_eq out
              cases ht.trans ha
          | acked a e entry pc queued => cases ht
      | _ =>
          rw [hadd] at hpc
          cases hpc
  | _ => cases h

variable {n : ℕ}

theorem started_thread (h : Started n jobId w) (at_ : w.threads[i]? = some t)
    (acts : Acts cfg w i act t now t' op spawned) :
    Started n jobId (w.advance now i t' op spawned) := by
  obtain ⟨j, a, hle, ha, hjob⟩ := h
  by_cases hji : j = i
  · subst hji
    rw [at_] at ha
    cases ha
    obtain ⟨pc, rfl, -⟩ := acts_attempt acts
    exact ⟨j, _, hle, getElem?_advance_same at_, hjob⟩
  · exact ⟨j, a, hle, getElem?_advance_other hji ha, hjob⟩

/-- What a move does to the entry of the job, when the runs before `n` are over. -/
theorem entry_cases (hg : Retries jobId w act)
    (hspent : ∀ i t, i < n → w.threads[i]? = some t → spent jobId t = true)
    (at_ : w.threads[i]? = some t) (acts : Acts cfg w i act t now t' op spawned) :
    Started n jobId w ∨ (∀ e, op.newEntry ≠ some (jobId, e)) ∨
      (∃ c job, t' = .process c ∧ c.jobId = jobId ∧ c.pc = .add job ∧
        op.newEntry = some (jobId, none)) ∨
      ∃ e, op.newEntry = some (jobId, some e) ∧ e.state = .waiting := by
  by_cases hset : ∃ e, op.newEntry = some (jobId, e)
  · obtain ⟨e, he⟩ := hset
    rcases acts_entry acts he with ⟨c, pc, rfl, hjob, hmove, hact⟩ | ⟨a, err, entry, rfl, hjob, hpc, -⟩
    · cases hmove with
      | removed job hpc idle =>
          rcases hact with rfl | ⟨env, err, rfl⟩
          · exact .inr (.inr (.inl ⟨_, job, rfl, hjob, rfl, he⟩))
          · simp [Retries, retries, at_, retriesThrow, hpc, hjob] at hg
      | added job hpc free => exact .inr (.inr (.inr ⟨_, he, rfl⟩))
    · left
      refine ⟨i, a, ?_, at_, hjob⟩
      by_contra hlt
      have hend := hspent i _ (by omega) at_
      simp [spent, hjob, hpc] at hend
  · exact .inr (.inl fun e he => hset ⟨e, he⟩)

theorem pending_thread (hg : Retries jobId w act)
    (hspent : ∀ i t, i < n → w.threads[i]? = some t → spent jobId t = true)
    (at_ : w.threads[i]? = some t) (acts : Acts cfg w i act t now t' op spawned)
    (h : Started n jobId w ∨ Pending jobId w) :
    Started n jobId (w.advance now i t' op spawned) ∨
      Pending jobId (w.advance now i t' op spawned) := by
  rcases h with hstarted | hpending
  · exact .inl (started_thread hstarted at_ acts)
  rcases entry_cases hg hspent at_ acts with hstarted | hkeep | ⟨c, job, rfl, hjob, hpc, he⟩ | ⟨e, he, hw⟩
  · exact .inl (started_thread hstarted at_ acts)
  · right
    rcases hpending with hqueued | ⟨hfree, t₁, hmem, hadd⟩
    · refine .inl ?_
      rwa [World.advance, entry_same hkeep]
    · obtain ⟨j, hj⟩ := List.mem_iff_getElem?.mp hmem
      by_cases hji : j = i
      · subst hji
        rw [at_] at hj
        cases hj
        exact .inl (by rw [adding_move hg at_ acts hadd hfree]; rfl)
      · refine .inr ⟨?_, t₁, List.mem_of_getElem? (getElem?_advance_other hji hj), hadd⟩
        exact (Stores.run_queue_same hkeep).trans hfree
  · refine .inr (.inr ⟨Stores.run_queue_set he, _, List.mem_of_getElem? (getElem?_advance_same at_), ?_⟩)
    simp [adding, hjob, hpc]
  · refine .inr (.inl ?_)
    rw [World.advance, entry_set he]
    simp [hw, queued]

/-- From its addition on a retry has a run, or nothing that keeps a worker from one. -/
theorem addable_thread (hg : Retries jobId w act)
    (hspent : ∀ i t, i < n → w.threads[i]? = some t → spent jobId t = true)
    (at_ : w.threads[i]? = some t) (acts : Acts cfg w i act t now t' op spawned)
    (h : Started n jobId w ∨ w.stores.queue jobId = none ∨ queued (entryState w jobId) = true) :
    Started n jobId (w.advance now i t' op spawned) ∨
      (w.advance now i t' op spawned).stores.queue jobId = none ∨
        queued (entryState (w.advance now i t' op spawned) jobId) = true := by
  rcases h with hstarted | h
  · exact .inl (started_thread hstarted at_ acts)
  rcases entry_cases hg hspent at_ acts with hstarted | hkeep | ⟨c, job, rfl, hjob, hpc, he⟩ | ⟨e, he, hw⟩
  · exact .inl (started_thread hstarted at_ acts)
  · right
    rcases h with hfree | hqueued
    · exact .inl ((Stores.run_queue_same hkeep).trans hfree)
    · refine .inr ?_
      rwa [World.advance, entry_same hkeep]
  · exact .inr (.inl (Stores.run_queue_set he))
  · refine .inr (.inr ?_)
    rw [World.advance, entry_set he]
    simp [hw, queued]

/-- A move of the retry itself. -/
theorem retry_move {c : ProcessCall} (hg : Retries jobId w act)
    (hspent : ∀ i t, i < n → w.threads[i]? = some t → spent jobId t = true)
    (hactive : Active jobId w) (at_ : w.threads[i]? = some (.process c)) (hjob : c.jobId = jobId)
    (acts : Acts cfg w i act (.process c) now t' op spawned) (h : Underway n jobId w c.pc) :
    ∃ c', t' = .process c' ∧ c'.jobId = jobId ∧
      Underway n jobId (w.advance now i t' op spawned) c'.pc := by
  have hadd := addable_thread hg hspent at_ acts
  have hpend := pending_thread hg hspent at_ acts
  generalize ht : Thread.process c = t at acts
  cases acts with
  | threw env e t t' throws =>
      subst ht
      cases throwing_cases throws
      exact ⟨_, rfl, hjob, trivial⟩
  | lost env e t t' t₁ op spawned throws next =>
      subst ht
      cases throwing_cases throws
      exact ⟨_, rfl, hjob, trivial⟩
  | timedOut t t' out =>
      obtain ⟨a, work, body, ha, -⟩ := timingOut_eq out
      cases ht.trans ha
  | acked a e entry pc queued => cases ht
  | stepped env t t' op spawned next =>
      subst ht
      obtain ⟨⟨pc, op'⟩, hn, he⟩ := Option.map_eq_some_iff.mp next
      cases he
      refine ⟨_, rfl, hjob, ?_⟩
      cases hpc : c.pc with
      | getJob job =>
          simp only [hpc, Underway] at h
          simp only [nextProcess, hpc] at hn
          split at hn
          · rename_i hfree
            cases hn
            exact .inr (.inl (hjob ▸ hfree))
          · cases hn
            exact h
      | getState job =>
          simp only [hpc, Underway] at h
          simp only [nextProcess, hpc] at hn
          split at hn
          · cases hn
            trivial
          · cases hn
            trivial
          · rename_i hnot₁ hnot₂
            cases hn
            refine hpend ?_
            cases hq : w.stores.queue jobId with
            | none =>
                -- the guard: another call is going to add an entry
                have hguard : w.threads.any (adding jobId) = true := by
                  simpa [Retries, retries, at_, hjob, retriesStep, hpc, h, hq] using hg
                exact .inr (.inr ⟨hq, List.any_eq_true.mp hguard⟩)
            | some entry =>
                have hstate : entryState w jobId = some entry.state := by
                  simp [entryState, hq]
                rw [hjob, hq] at hnot₁ hnot₂
                cases hst : entry.state with
                | waiting => exact .inr (.inl (by rw [hstate, hst]; rfl))
                | delayed => exact .inr (.inl (by rw [hstate, hst]; rfl))
                | completed => exact (hnot₁ (by simp [hst])).elim
                | failed => exact (hnot₂ (by simp [hst])).elim
                | active =>
                    obtain ⟨j, a, ha, hid, hopen⟩ := hactive (by rw [hstate, hst])
                    refine .inl ⟨j, a, ?_, ha, hid⟩
                    by_contra hlt
                    have hend := hspent j _ (by omega) ha
                    simp [spent, hid, hopen] at hend
      | remove job =>
          simp only [nextProcess, hpc] at hn
          split at hn
          · cases hn
            trivial
          · cases hn
            refine .inr (.inl ?_)
            simp [World.advance, Stores.run, ← hjob]
      | add job =>
          simp only [hpc, Underway] at h
          simp only [nextProcess, hpc] at hn
          split at hn
          · rename_i hfree
            cases hn
            have hset : (Op.setEntry c.jobId (some ⟨.waiting, c.userId, 0⟩)).newEntry =
                some (c.jobId, some ⟨.waiting, c.userId, 0⟩) := rfl
            refine .inr (.inl ?_)
            rw [← hjob, World.advance, entry_set hset]
            rfl
          · rename_i entry hq
            cases hn
            refine hpend (h.imp_right fun hcase => .inl (hcase.resolve_left fun hfree => ?_))
            rw [hjob, hfree] at hq
            cases hq
      | findAgain job =>
          simp only [hpc, Underway] at h
          simp only [nextProcess, hpc] at hn
          cases hn
          exact hpend h
      | returned dto => simp [nextProcess, hpc] at hn
      | threw error => simp [nextProcess, hpc] at hn
      | _ =>
          rw [hpc] at h
          exact h.elim

/-- A retry that does not move stands where it stood. -/
theorem underway_thread {pc : ProcessPc} (hg : Retries jobId w act)
    (hspent : ∀ i t, i < n → w.threads[i]? = some t → spent jobId t = true)
    (at_ : w.threads[i]? = some t) (acts : Acts cfg w i act t now t' op spawned)
    (h : Underway n jobId w pc) : Underway n jobId (w.advance now i t' op spawned) pc := by
  cases pc with
  | add job => exact addable_thread hg hspent at_ acts h
  | findAgain job => exact pending_thread hg hspent at_ acts h
  | returned dto => exact pending_thread hg hspent at_ acts h
  | _ => exact h

theorem retried_thread {p : ℕ} (h : Retried n p jobId w) (hg : Retries jobId w act)
    (at_ : w.threads[i]? = some t) (acts : Acts cfg w i act t now t' op spawned) :
    Retried n p jobId (w.advance now i t' op spawned) := by
  refine ⟨?_, ?_, active_thread h.active at_ acts, ?_⟩
  · have hlen := h.length
    simp only [World.advance, List.length_append, List.length_set]
    omega
  · intro j t₁ hj ht₁
    rcases getElem?_advance_cases ht₁ with ⟨rfl, rfl⟩ | ⟨-, hold⟩ | ⟨hle, -⟩
    · exact spent_move (h.spent j t hj at_) acts
    · exact h.spent j t₁ hj hold
    · have hlen := h.length
      omega
  · obtain ⟨c, hc, hjob, hunder⟩ := h.call
    by_cases hpi : p = i
    · subst hpi
      rw [at_] at hc
      cases hc
      obtain ⟨c', rfl, hjob', hunder'⟩ := retry_move hg h.spent h.active at_ hjob acts hunder
      exact ⟨c', getElem?_advance_same at_, hjob', hunder'⟩
    · exact ⟨c, getElem?_advance_other hpi hc, hjob,
        underway_thread hg h.spent at_ acts hunder⟩

end Move

section Outside

variable {act : Action} {new : List Thread} {n : ℕ}

/-- BullMQ starts a run of the job, or takes an entry on that is not active. -/
theorem outside_entry (jobId : String) (h : Outside w act op new) :
    (∀ e, op.newEntry ≠ some (jobId, e)) ∨
    (∃ userId, new = [.attempt ⟨jobId, userId, .findById⟩]) ∨
    (∃ e, op.newEntry = some (jobId, some e) ∧ e.state = .waiting) ∨
    entryState w jobId = some .completed ∧ op.newEntry = some (jobId, none) := by
  cases h with
  | called request => exact .inl (by simp [Op.newEntry])
  | uploaded userId id bytes => exact .inl (by simp [Op.newEntry])
  | picked id entry hq waiting =>
      by_cases hid : id = jobId
      · subst hid
        exact .inr (.inl ⟨_, rfl⟩)
      · exact .inl fun e he => hid (by cases he; rfl)
  | promoted id entry hq delayed =>
      by_cases hid : id = jobId
      · subst hid
        exact .inr (.inr (.inl ⟨_, rfl, rfl⟩))
      · exact .inl fun e he => hid (by cases he; rfl)
  | purged id entry hq completed =>
      by_cases hid : id = jobId
      · subst hid
        exact .inr (.inr (.inr ⟨by simp [entryState, hq, completed], rfl⟩))
      · exact .inl fun e he => hid (by cases he; rfl)

theorem started_new {stores : Stores} {userId : String} (hn : n ≤ w.threads.length) :
    Started n jobId ⟨stores, w.threads ++ [.attempt ⟨jobId, userId, .findById⟩]⟩ :=
  ⟨w.threads.length, ⟨jobId, userId, .findById⟩, hn, by simp, rfl⟩

theorem started_append {stores : Stores} (h : Started n jobId w) :
    Started n jobId ⟨stores, w.threads ++ new⟩ := by
  obtain ⟨i, a, hle, ha, hjob⟩ := h
  exact ⟨i, a, hle, (List.getElem?_append_left (lt_of_getElem? ha)).trans ha, hjob⟩

theorem active_outside (h : Active jobId w) (acts : Outside w act op new) :
    Active jobId ⟨w.stores.run 0 op, w.threads ++ new⟩ := by
  intro hactive
  rcases outside_entry jobId acts with hkeep | ⟨userId, rfl⟩ | ⟨e, he, hw⟩ | ⟨-, he⟩
  · rw [entry_same hkeep] at hactive
    obtain ⟨i, a, ha, hrest⟩ := h hactive
    exact ⟨i, a, (List.getElem?_append_left (lt_of_getElem? ha)).trans ha, hrest⟩
  · exact ⟨w.threads.length, ⟨jobId, userId, .findById⟩, by simp, rfl, by simp⟩
  · rw [entry_set he] at hactive
    simp [hw] at hactive
  · rw [entry_set he] at hactive
    cases hactive

theorem pending_outside (hn : n ≤ w.threads.length) (acts : Outside w act op new)
    (h : Started n jobId w ∨ Pending jobId w) :
    Started n jobId ⟨w.stores.run 0 op, w.threads ++ new⟩ ∨
      Pending jobId ⟨w.stores.run 0 op, w.threads ++ new⟩ := by
  rcases h with hstarted | hpending
  · exact .inl (started_append hstarted)
  rcases outside_entry jobId acts with hkeep | ⟨userId, rfl⟩ | ⟨e, he, hw⟩ | ⟨hdone, -⟩
  · right
    rcases hpending with hqueued | ⟨hfree, t, ht, hadd⟩
    · exact .inl (by rwa [entry_same hkeep])
    · exact .inr ⟨(Stores.run_queue_same hkeep).trans hfree, t, List.mem_append_left _ ht, hadd⟩
  · exact .inl (started_new hn)
  · exact .inr (.inl (by rw [entry_set he]; simp [hw, queued]))
  · rcases hpending with hqueued | ⟨hfree, -⟩
    · rw [hdone] at hqueued
      cases hqueued
    · simp [entryState, hfree] at hdone

theorem addable_outside (hn : n ≤ w.threads.length) (acts : Outside w act op new)
    (h : Started n jobId w ∨ w.stores.queue jobId = none ∨ queued (entryState w jobId) = true) :
    Started n jobId ⟨w.stores.run 0 op, w.threads ++ new⟩ ∨
      (w.stores.run 0 op).queue jobId = none ∨
        queued (entryState ⟨w.stores.run 0 op, w.threads ++ new⟩ jobId) = true := by
  rcases h with hstarted | h
  · exact .inl (started_append hstarted)
  rcases outside_entry jobId acts with hkeep | ⟨userId, rfl⟩ | ⟨e, he, hw⟩ | ⟨-, he⟩
  · right
    rcases h with hfree | hqueued
    · exact .inl ((Stores.run_queue_same hkeep).trans hfree)
    · exact .inr (by rwa [entry_same hkeep])
  · exact .inl (started_new hn)
  · exact .inr (.inr (by rw [entry_set he]; simp [hw, queued]))
  · exact .inr (.inl (Stores.run_queue_set he))

theorem underway_outside {pc : ProcessPc} (hn : n ≤ w.threads.length) (acts : Outside w act op new)
    (h : Underway n jobId w pc) :
    Underway n jobId ⟨w.stores.run 0 op, w.threads ++ new⟩ pc := by
  cases pc with
  | add job => exact addable_outside hn acts h
  | findAgain job => exact pending_outside hn acts h
  | returned dto => exact pending_outside hn acts h
  | _ => exact h

theorem retried_outside {p : ℕ} (h : Retried n p jobId w) (acts : Outside w act op new) :
    Retried n p jobId ⟨w.stores.run 0 op, w.threads ++ new⟩ := by
  have hlen := h.length
  refine ⟨?_, ?_, active_outside h.active acts, ?_⟩
  · simp only [List.length_append]
    omega
  · intro i t hi ht
    rw [List.getElem?_append_left (by omega)] at ht
    exact h.spent i t hi ht
  · obtain ⟨c, hc, hjob, hunder⟩ := h.call
    refine ⟨c, (List.getElem?_append_left (lt_of_getElem? hc)).trans hc, hjob, ?_⟩
    exact underway_outside hlen acts hunder

end Outside

theorem active_step {act : Action} (h : Active jobId w) (hs : step cfg w act = some w') :
    Active jobId w' := by
  cases step_shape hs with
  | thread i now t t' op spawned at_ acts => exact active_thread h at_ acts
  | outside op new acts => exact active_outside h acts

theorem retried_step {n p : ℕ} {act : Action} (h : Retried n p jobId w) (hg : Retries jobId w act)
    (hs : step cfg w act = some w') : Retried n p jobId w' := by
  cases step_shape hs with
  | thread i now t t' op spawned at_ acts => exact retried_thread h hg at_ acts
  | outside op new acts => exact retried_outside h acts

theorem active_empty : Active jobId World.empty := by
  intro h
  cases h

/-- The write of a retry starts it. -/
theorem retried_write {p : ℕ} {c : ProcessCall} {job : Job} (h : Active jobId w)
    (hp : w.threads[p]? = some (.process c)) (hjob : c.jobId = jobId)
    (hpc : c.pc = .setStatus job) (hfailed : job.status = .FAILED)
    (hg : Retries jobId w (.step p env)) (hs : step cfg w (.step p env) = some w') :
    Retried w.threads.length p jobId w' := by
  have hactive := active_step h hs
  have hspent : w.threads.all (spent jobId) = true := by
    simpa [Retries, retries, hp, hjob, retriesStep, hpc, hfailed] using hg
  have hnext : next cfg w env (.process c) = some (.process { c with pc := .getJob job },
      .write c.jobId (.setStatus .QUEUED (some none)), []) := by
    simp [next, nextProcess, hpc]
  simp only [step, hp, Option.bind_some, hnext, Option.map_some, Option.some.injEq] at hs
  subst hs
  refine ⟨?_, ?_, hactive, ?_⟩
  · simp [World.advance]
  · intro i t hi ht
    rcases getElem?_advance_cases ht with ⟨rfl, rfl⟩ | ⟨-, hold⟩ | ⟨-, hnew⟩
    · rfl
    · exact List.all_eq_true.mp hspent t (List.mem_of_getElem? hold)
    · cases hnew
  · exact ⟨_, getElem?_advance_same hp, hjob, hfailed⟩

/-- While a run is pending a worker can start it in a few steps. -/
theorem pending_starts {n : ℕ} (hn : n ≤ w.threads.length) (h : Pending jobId w) :
    ∃ w', Run (step cfg) (Retries jobId) w w' ∧ Started n jobId w' := by
  have hpick : ∀ v : World, n ≤ v.threads.length → entryState v jobId = some .waiting →
      ∃ v', Run (step cfg) (Retries jobId) v v' ∧ Started n jobId v' := by
    intro v hlen hwaiting
    obtain ⟨entry, hq, hstate⟩ := Option.map_eq_some_iff.mp hwaiting
    have hs : step cfg v (.pick jobId) =
        some ⟨v.stores.run 0 (.setEntry jobId (some { entry with state := .active })),
          v.threads ++ [.attempt ⟨jobId, entry.userId, .findById⟩]⟩ := by
      simp only [step, World.moveEntry, hq, hstate, if_true]
    have hg : Retries jobId v (.pick jobId) := rfl
    exact ⟨_, Run.single hg hs, started_new hlen⟩
  rcases h with hqueued | ⟨hfree, t, ht, hadd⟩
  · cases hstate : entryState w jobId with
    | none =>
        rw [hstate] at hqueued
        cases hqueued
    | some state =>
        rw [hstate] at hqueued
        cases state with
        | waiting => exact hpick w hn hstate
        | delayed =>
            obtain ⟨entry, hq, hentry⟩ := Option.map_eq_some_iff.mp hstate
            have hs : step cfg w (.promote jobId) =
                some ⟨w.stores.run 0 (.setEntry jobId (some { entry with state := .waiting })),
                  w.threads ++ []⟩ := by
              simp only [step, World.moveEntry, hq, hentry, if_true]
            obtain ⟨w', hrun, hstarted⟩ := hpick
              ⟨w.stores.run 0 (.setEntry jobId (some { entry with state := .waiting })),
                w.threads ++ []⟩ (by simpa using hn) (by simp [entryState, Stores.run])
            have hg : Retries jobId w (.promote jobId) := rfl
            exact ⟨w', (Run.single hg hs).trans hrun, hstarted⟩
        | _ => cases hqueued
  · obtain ⟨i, hi⟩ := List.mem_iff_getElem?.mp ht
    cases t with
    | process c =>
        simp only [adding, Bool.and_eq_true, decide_eq_true_eq] at hadd
        obtain ⟨rfl, hpc⟩ := hadd
        cases hadd : c.pc with
        | add job =>
            have hg : Retries c.jobId w (.step i {}) := by
              simp [Retries, retries, hi, retriesStep, hadd]
            have hnext : next cfg w {} (.process c) =
                some (.process { c with pc := .findAgain job },
                  .setEntry c.jobId (some ⟨.waiting, c.userId, 0⟩), []) := by
              simp [next, nextProcess, hadd, hfree]
            have hs : step cfg w (.step i {}) =
                some (w.advance 0 i (.process { c with pc := .findAgain job })
                  (.setEntry c.jobId (some ⟨.waiting, c.userId, 0⟩)) []) := by
              simp [step, hi, hnext]
            obtain ⟨w', hrun, hstarted⟩ := hpick
              (w.advance 0 i (.process { c with pc := .findAgain job })
                (.setEntry c.jobId (some ⟨.waiting, c.userId, 0⟩)) [])
              (by simpa [World.advance] using hn) (by simp [entryState, World.advance, Stores.run])
            exact ⟨w', (Run.single hg hs).trans hrun, hstarted⟩
        | _ =>
            rw [hadd] at hpc
            cases hpc
    | _ => cases hadd

/-- After a retry that is written when the earlier runs are over, nothing of them sets the job
to FAILED, and once the retry has returned, a run has been started since its write or a worker
can start one. -/
theorem retry_runs (cfg : ServerConfig) {w₀ w₁ w : World} {jobId : String} {p : ℕ} {env : Env}
    {c : ProcessCall} {job : Job} (hbefore : Run (step cfg) (Retries jobId) World.empty w₀)
    (hp : w₀.threads[p]? = some (.process c)) (hjob : c.jobId = jobId)
    (hpc : c.pc = .setStatus job) (hfailed : job.status = .FAILED)
    (hg : Retries jobId w₀ (.step p env)) (hs : step cfg w₀ (.step p env) = some w₁)
    (hafter : Run (step cfg) (Retries jobId) w₁ w) :
    (∀ (act : Action) (i now : ℕ) (t t' : Thread) (op : Op) (spawned : List Thread),
      w.threads[i]? = some t → Acts cfg w i act t now t' op spawned → i < w₀.threads.length →
        op.newStatus ≠ some (jobId, .FAILED) ∧
          ∀ h, Thread.handler h ∈ spawned → h.jobId ≠ jobId) ∧
    ∀ c' dto, w.threads[p]? = some (.process c') → c'.pc = .returned dto →
      Started w₀.threads.length jobId w ∨
        Pending jobId w ∧
          ∃ w', Run (step cfg) (Retries jobId) w w' ∧ Started w₀.threads.length jobId w' := by
  have hactive : Active jobId w₀ := hbefore.invariant (I := fun w => Active jobId w) active_empty
    fun _ _ _ hi _ hs => active_step hi hs
  have hretried : Retried w₀.threads.length p jobId w :=
    hafter.invariant (I := fun w => Retried w₀.threads.length p jobId w)
      (retried_write hactive hp hjob hpc hfailed hg hs) fun _ _ _ hi hg hs => retried_step hi hg hs
  refine ⟨?_, ?_⟩
  · intro act i now t t' op spawned at_ acts hi
    exact spent_silent (hretried.spent i t hi at_) acts
  · intro c' dto hc' hpc'
    obtain ⟨c₁, hc₁, -, hunder⟩ := hretried.call
    rw [hc'] at hc₁
    cases hc₁
    rw [hpc'] at hunder
    rcases hunder with hstarted | hpending
    · exact .inl hstarted
    · exact .inr ⟨hpending, pending_starts hretried.length hpending⟩

/-- The transcription is silent, and attempt 2 has marked `job-1` FAILED but not ended. -/
def failingSchedule : List Action :=
  submitSchedule ++ checkSchedule 1 ++ enqueueSchedule 1 ++ [.pick "job-1"] ++ steps 2 3 {} ++
    steps 3 2 {} ++ steps 2 4 {}

/-- Attempt 2 ends, is reported, and its failure handler 4 runs to the end. -/
def endSchedule : List Action := steps 2 1 {} ++ [.ack 2] ++ steps 4 2 {}

/-- The retry of the user, up to its write, when the failure has been handled. -/
def retrySchedule : List Action :=
  failingSchedule ++ endSchedule ++ .call (.process "user-1" "job-1") :: steps 5 2 {}

/-- The thread is a `process` call that has read FAILED and is about to write QUEUED. -/
def retrying (jobId : String) : Thread → Bool
  | .process c =>
      c.jobId = jobId &&
        match c.pc with
        | .setStatus job => job.status = .FAILED
        | _ => false
  | _ => false

def returned : Thread → Bool
  | .process c =>
      match c.pc with
      | .returned _ => true
      | _ => false
  | _ => false

theorem retrying_eq {t : Thread} (h : retrying jobId t = true) :
    ∃ c job, t = .process c ∧ c.jobId = jobId ∧ c.pc = .setStatus job ∧ job.status = .FAILED := by
  cases t with
  | process c =>
      simp only [retrying, Bool.and_eq_true, decide_eq_true_eq] at h
      cases hpc : c.pc with
      | setStatus job =>
          rw [hpc] at h
          exact ⟨c, job, rfl, h.1, hpc, of_decide_eq_true h.2⟩
      | _ => simp [hpc] at h
  | _ => cases h

theorem returned_eq {t : Thread} (h : returned t = true) :
    ∃ c dto, t = .process c ∧ c.pc = .returned dto := by
  cases t with
  | process c =>
      cases hpc : c.pc with
      | returned dto => exact ⟨c, dto, rfl, hpc⟩
      | _ => simp [returned, hpc] at h
  | _ => cases h

theorem retry_runs_demo :
    ∃ w₀ w, Run (step demo) (Retries "job-1") World.empty w₀ ∧
      (w₀.threads[5]?).any (retrying "job-1") = true ∧ (w.threads[5]?).any returned = true ∧
      (Started w₀.threads.length "job-1" w ∨ Pending "job-1" w) := by
  have hend : (execWhere (step demo) (Retries "job-1") retrySchedule World.empty).any (fun w₀ =>
      (w₀.threads[5]?).any (retrying "job-1") && decide (Retries "job-1" w₀ (.step 5 {})) &&
        (step demo w₀ (.step 5 {})).any fun w₁ =>
          (execWhere (step demo) (Retries "job-1") (steps 5 5 {}) w₁).any fun w =>
            (w.threads[5]?).any returned) = true := by decide
  obtain ⟨w₀, hbefore, hp⟩ := execWhere_any hend
  simp only [Bool.and_eq_true, decide_eq_true_eq] at hp
  obtain ⟨⟨hretry, hg⟩, hs⟩ := hp
  obtain ⟨w₁, hs, hw⟩ := (Option.any_eq_true _ _).mp hs
  obtain ⟨w, hafter, hreturned⟩ := execWhere_any hw
  obtain ⟨t, ht, hat⟩ := (Option.any_eq_true _ _).mp hretry
  obtain ⟨c, job, rfl, hjob, hpc, hfailed⟩ := retrying_eq hat
  obtain ⟨t', ht', hend⟩ := (Option.any_eq_true _ _).mp hreturned
  obtain ⟨c', dto, rfl, hpc'⟩ := returned_eq hend
  have hruns := (retry_runs demo hbefore ht hjob hpc hfailed hg hs hafter).2 c' dto ht' hpc'
  exact ⟨w₀, w, hbefore, hretry, hreturned, hruns.imp_right And.left⟩

/-- Thread 4 retries `job-1` between the FAILED of attempt 2 and its end, up to its write. -/
def earlySchedule : List Action :=
  failingSchedule ++ .call (.process "user-1" "job-1") :: steps 4 2 {}

/-- The retry returns, and attempt 2 ends and is reported; its failure handler 5 then runs. -/
def swallowedSchedule : List Action := steps 4 4 {} ++ steps 2 1 {} ++ [.ack 2] ++ steps 5 4 {}

/-- The thread has returned the job as QUEUED. -/
def returnedQueued : Thread → Bool
  | .process c =>
      match c.pc with
      | .returned dto => dto.status = .QUEUED
      | _ => false
  | _ => false

theorem returnedQueued_eq {t : Thread} (h : returnedQueued t = true) :
    ∃ c dto, t = .process c ∧ c.pc = .returned dto ∧ dto.status = .QUEUED := by
  cases t with
  | process c =>
      cases hpc : c.pc with
      | returned dto => exact ⟨c, dto, rfl, hpc, by simpa [returnedQueued, hpc] using h⟩
      | _ => simp [returnedQueued, hpc] at h
  | _ => cases h

def isAttempt : Thread → Bool
  | .attempt _ => true
  | _ => false

theorem not_started {n : ℕ} (h : (w.threads.drop n).all (fun t => !isAttempt t) = true) :
    ¬ Started n jobId w := by
  rintro ⟨i, a, hi, ha, -⟩
  have hmem : Thread.attempt a ∈ w.threads.drop n := by
    apply List.mem_of_getElem? (i := i - n)
    rw [List.getElem?_drop, Nat.add_sub_cancel' hi, ha]
  exact absurd (List.all_eq_true.mp h _ hmem) (by simp [isAttempt])

/-- The retry has read FAILED and is returned as QUEUED, no run follows it, and the failure
handler of the earlier run sets the job to FAILED. -/
theorem retry_swallowed :
    ∃ w₀ w, Run (step demo) anyStep World.empty w₀ ∧ Run (step demo) anyStep w₀ w ∧
      (∃ c job, w₀.threads[4]? = some (.process c) ∧ c.pc = .setStatus job ∧
        job.status = .FAILED) ∧
      (∃ c dto, w.threads[4]? = some (.process c) ∧ c.pc = .returned dto ∧
        dto.status = .QUEUED) ∧
      (∃ row, w.stores.findById "job-1" = some row ∧ row.status = .FAILED) ∧
      entryState w "job-1" = some .failed ∧ ¬ Started 4 "job-1" w := by
  have hend : (exec (step demo) earlySchedule World.empty).any (fun w₀ =>
      (w₀.threads[4]?).any (retrying "job-1") &&
        (exec (step demo) swallowedSchedule w₀).any fun w =>
          (w.threads[4]?).any returnedQueued &&
            (w.stores.findById "job-1").any (fun row => row.status = .FAILED) &&
              decide (entryState w "job-1" = some .failed) &&
                (w.threads.drop 4).all fun t => !isAttempt t) = true := by decide
  obtain ⟨w₀, hbefore, hp⟩ := exec_any hend
  rw [Bool.and_eq_true] at hp
  obtain ⟨hretry, hafter⟩ := hp
  obtain ⟨t, ht, hat⟩ := (Option.any_eq_true _ _).mp hretry
  obtain ⟨c, job, rfl, -, hpc, hfailed⟩ := retrying_eq hat
  obtain ⟨w, hw, hp⟩ := exec_any hafter
  simp only [Bool.and_eq_true] at hp
  obtain ⟨⟨⟨hreturned, hrow⟩, hentry⟩, hnone⟩ := hp
  obtain ⟨t', ht', hat'⟩ := (Option.any_eq_true _ _).mp hreturned
  obtain ⟨c', dto, rfl, hpc', hqueued⟩ := returnedQueued_eq hat'
  obtain ⟨row, hrow, hstatus⟩ := (Option.any_eq_true _ _).mp hrow
  exact ⟨w₀, w, hbefore, hw, ⟨c, job, ht, hpc, hfailed⟩, ⟨c', dto, ht', hpc', hqueued⟩,
    ⟨row, hrow, of_decide_eq_true hstatus⟩, of_decide_eq_true hentry, not_started hnone⟩

end FieldNote.RetryAfterFailure
