import FieldNote.PoolTotals
import FieldNote.RetryAfterFailure

/-!
# The work a job can cause

Every `process` call adds at most one entry to the queue, an entry is attempted at most
`jobMaxAttempts` times, an attempt starts each stage at most once, and an entry fails for good
at most once. The bounds hold over every interleaving and every fault: a removed and re-added
entry starts with a fresh count, but only on account of the call that adds it.
-/
namespace FieldNote.AttemptBudget
open JobsService PipelineService ServerRuns QueueLiveness RetryAfterFailure GuardedRuns CallPool

/-- The call has not yet got past the point where it may add an entry. -/
def mayAdd : ProcessPc → Bool
  | .findAgain _ | .returned _ | .threw _ => false
  | _ => true

/-- What a thread is to one job. -/
inductive Role where
  | attempt (acked : Bool)
  | request (mayAdd : Bool)
  | handler
  | other
deriving DecidableEq

def role (jobId : String) : Thread → Role
  | .attempt a => if a.jobId = jobId then .attempt (a.pc = .acked) else .other
  | .process c => if c.jobId = jobId then .request (mayAdd c.pc) else .other
  | .handler h => if h.jobId = jobId then .handler else .other
  | _ => .other

/-- What one thread does to the entry of the job, with the roles it starts. -/
inductive RoleMove (max : ℕ) : Role → Option Entry → Role → Option Entry → List Role → Prop where
  | idle (r : Role) (e : Option Entry) (new : List Role) (others : ∀ r ∈ new, r = .other) :
      RoleMove max r e r e new
  | passes (b : Bool) (e : Option Entry) : RoleMove max (.request b) e (.request false) e []
  | removes (b : Bool) (e : Option Entry) (unlocked : e.map Entry.state ≠ some .active) :
      RoleMove max (.request true) e (.request b) none []
  | adds (userId : String) :
      RoleMove max (.request true) none (.request false) (some ⟨.waiting, userId, 0⟩) []
  | completes (e : Entry) :
      RoleMove max (.attempt false) (some e) (.attempt true)
        (some { e with state := .completed }) []
  | retries (e : Entry) (left : e.attemptsMade + 1 < max) :
      RoleMove max (.attempt false) (some e) (.attempt true)
        (some { e with
          state := .delayed
          attemptsMade := e.attemptsMade + 1 }) []
  | fails (e : Entry) :
      RoleMove max (.attempt false) (some e) (.attempt true)
        (some { e with
          state := .failed
          attemptsMade := e.attemptsMade + 1 }) [.handler]

/-- What BullMQ or a client does to the entry of the job from outside. -/
inductive OuterMove : Option Entry → Option Entry → List Role → Prop where
  | idle (e : Option Entry) (new : List Role) (fresh : ∀ r ∈ new, r = .other ∨ r = .request true) :
      OuterMove e e new
  | picked (e : Entry) (waiting : e.state = .waiting) :
      OuterMove (some e) (some { e with state := .active }) [.attempt false]
  | promoted (e : Entry) (delayed : e.state = .delayed) :
      OuterMove (some e) (some { e with state := .waiting }) []
  | purged (e : Entry) (completed : e.state = .completed) : OuterMove (some e) none []

/-- An attempt costs one; a call holds the attempts of the entry it may still add. -/
def attemptCost (max : ℕ) : Role → ℕ
  | .attempt _ => 1
  | .request true => max
  | _ => 0

/-- An entry fails for good once; a call holds the failure of the entry it may still add. -/
def failureCost : Role → ℕ
  | .handler => 1
  | .request true => 1
  | _ => 0

/-- What a call is granted once. -/
def granted (n : ℕ) : Role → ℕ
  | .request _ => n
  | _ => 0

def running : Role → ℕ
  | .attempt false => 1
  | _ => 0

/-- The attempts an entry may still cause. -/
def attemptsLeft (max : ℕ) : Option Entry → ℕ
  | none => 0
  | some e =>
      match e.state with
      | .waiting | .delayed => max - e.attemptsMade
      | .active => max - e.attemptsMade - 1
      | .completed | .failed => 0

/-- The entry is still going to be attempted. -/
def Entry.live (e : Entry) : Bool :=
  match e.state with
  | .waiting | .delayed | .active => true
  | .completed | .failed => false

def failuresLeft (entry : Option Entry) : ℕ := if entry.any Entry.live then 1 else 0

def locks (entry : Option Entry) : ℕ := if entry.map Entry.state = some .active then 1 else 0

/-- What holds of a job in every reachable state. -/
structure Budget (max : ℕ) (roles : List Role) (entry : Option Entry) : Prop where
  /-- an active entry has one attempt that goes on, and no other entry has one -/
  locked : total running roles = locks entry
  made : ∀ e, entry = some e → Entry.live e = true → e.attemptsMade < max
  attempts : Within (attemptCost max) (granted max) (attemptsLeft max entry) roles
  failures : Within failureCost (granted 1) (failuresLeft entry) roles

section Roles

variable {max i : ℕ} {roles new : List Role} {r r' : Role} {entry entry' : Option Entry}

theorem total_others {f : Role → ℕ} (hf : f .other = 0) (h : ∀ r ∈ new, r = .other) :
    total f new = 0 := by
  apply total_eq_zero
  intro r hr
  rw [h r hr, hf]

/-- An attempt that goes on holds the lock of its entry. -/
theorem Budget.active {e : Entry} (h : Budget max roles (some e))
    (hi : roles[i]? = some (.attempt false)) : e.state = .active := by
  have hle : running (.attempt false) ≤ total running roles := le_total (List.mem_of_getElem? hi)
  have hlock := h.locked
  by_contra hne
  simp only [locks, Option.map_some, Option.some.injEq, hne, if_false] at hlock
  simp only [running] at hle
  omega

theorem Budget.move (hmax : 1 ≤ max) (h : Budget max roles entry) (hi : roles[i]? = some r)
    (m : RoleMove max r entry r' entry' new) : Budget max (roles.set i r' ++ new) entry' := by
  have hset := total_set (f := running) (b := r') hi
  have hlock := h.locked
  cases m with
  | idle _ _ _ others =>
      refine ⟨?_, h.made, h.attempts.advance hi ?_, h.failures.advance hi ?_⟩
      · rw [total_append, total_others rfl others]
        omega
      · rw [total_others rfl others, total_others rfl others]
        omega
      · rw [total_others rfl others, total_others rfl others]
        omega
  | passes b _ =>
      refine ⟨?_, h.made, h.attempts.advance hi ?_, h.failures.advance hi ?_⟩
      · simp only [total_append, total_nil, running] at hset ⊢
        omega
      · cases b <;> simp only [attemptCost, granted, total_nil] <;> omega
      · cases b <;> simp only [failureCost, granted, total_nil] <;> omega
  | removes b _ unlocked =>
      refine ⟨?_, by simp, h.attempts.advance hi ?_, h.failures.advance hi ?_⟩
      · simp only [locks, unlocked, if_false] at hlock
        simp only [total_append, total_nil, running, locks, Option.map_none, reduceCtorEq, if_false]
          at hset ⊢
        omega
      · cases b <;> simp only [attemptCost, granted, total_nil, attemptsLeft] <;> omega
      · cases b <;> simp [failureCost, granted, failuresLeft]
  | adds userId =>
      refine ⟨?_, ?_, h.attempts.advance hi ?_, h.failures.advance hi ?_⟩
      · simp only [total_append, total_nil, running, locks, Option.map_some, Option.map_none,
          reduceCtorEq, Option.some.injEq, if_false] at hset hlock ⊢
        omega
      · rintro e ⟨⟩ -
        exact hmax
      · simp [attemptCost, granted, attemptsLeft]
      · simp [failureCost, granted, failuresLeft, Entry.live]
  | completes e =>
      have hactive := h.active hi
      refine ⟨?_, ?_, h.attempts.advance hi ?_, h.failures.advance hi ?_⟩
      · simp only [total_append, total_nil, running, locks, Option.map_some, hactive,
          reduceCtorEq, Option.some.injEq, if_true, if_false] at hset hlock ⊢
        omega
      · rintro e' ⟨⟩ hlive
        cases hlive
      · simp [attemptCost, granted, attemptsLeft]
      · simp [failureCost, granted, failuresLeft, Entry.live]
  | retries e left =>
      have hactive := h.active hi
      refine ⟨?_, ?_, h.attempts.advance hi ?_, h.failures.advance hi ?_⟩
      · simp only [total_append, total_nil, running, locks, Option.map_some, hactive,
          reduceCtorEq, Option.some.injEq, if_true, if_false] at hset hlock ⊢
        omega
      · rintro e' ⟨⟩ -
        exact left
      · simp only [attemptCost, granted, attemptsLeft, hactive, total_nil]
        omega
      · simp [failureCost, granted, failuresLeft, Entry.live, hactive]
  | fails e =>
      have hactive := h.active hi
      refine ⟨?_, ?_, h.attempts.advance hi ?_, h.failures.advance hi ?_⟩
      · simp only [total_append, total_cons, total_nil, running, locks, Option.map_some, hactive,
          reduceCtorEq, Option.some.injEq, if_true, if_false] at hset hlock ⊢
        omega
      · rintro e' ⟨⟩ hlive
        cases hlive
      · simp [attemptCost, granted, attemptsLeft]
      · simp [failureCost, granted, failuresLeft, Entry.live, hactive]

theorem Budget.outer (h : Budget max roles entry) (m : OuterMove entry entry' new) :
    Budget max (roles ++ new) entry' := by
  have hlock := h.locked
  cases m with
  | idle _ _ fresh =>
      have hzero : total running new = 0 := by
        apply total_eq_zero
        intro r hr
        rcases fresh r hr with rfl | rfl <;> rfl
      refine ⟨?_, h.made, h.attempts.append ?_, h.failures.append ?_⟩
      · rw [total_append, hzero]
        exact hlock
      · have hle : total (attemptCost max) new ≤ total (granted max) new := by
          apply total_le
          intro r hr
          rcases fresh r hr with rfl | rfl <;> simp [attemptCost, granted]
        omega
      · have hle : total failureCost new ≤ total (granted 1) new := by
          apply total_le
          intro r hr
          rcases fresh r hr with rfl | rfl <;> simp [failureCost, granted]
        omega
  | picked e waiting =>
      have hmade := h.made e rfl (by simp [Entry.live, waiting])
      refine ⟨?_, ?_, h.attempts.append ?_, h.failures.append ?_⟩
      · simp only [total_append, total_cons, total_nil, running, locks, Option.map_some, waiting,
          reduceCtorEq, Option.some.injEq, if_true, if_false] at hlock ⊢
        omega
      · rintro e' ⟨⟩ -
        exact hmade
      · simp only [attemptCost, granted, attemptsLeft, waiting, total_cons, total_nil]
        omega
      · simp [failureCost, granted, failuresLeft, Entry.live, waiting]
  | promoted e delayed =>
      have hmade := h.made e rfl (by simp [Entry.live, delayed])
      refine ⟨?_, ?_, h.attempts.append ?_, h.failures.append ?_⟩
      · simpa [locks, delayed] using hlock
      · rintro e' ⟨⟩ -
        exact hmade
      · simp [attemptsLeft, delayed]
      · simp [failuresLeft, Entry.live, delayed]
  | purged e completed =>
      refine ⟨?_, by simp, h.attempts.append ?_, h.failures.append ?_⟩
      · simpa [locks, completed] using hlock
      · simp [attemptsLeft]
      · simp [failuresLeft]

end Roles

variable {cfg : ServerConfig} {w w' : World} {jobId : String} {op : Op}

/-- What a segment of a `process` call does to the entry of its job. -/
inductive EntryStep (s : Stores) (c : ProcessCall) : ProcessPc → Op → Prop where
  | keeps (pc : ProcessPc) (op : Op) (entry : op.newEntry = none)
      (order : mayAdd pc = true → mayAdd c.pc = true) : EntryStep s c pc op
  | removes (pc : ProcessPc) (before : mayAdd c.pc = true)
      (unlocked : (s.queue c.jobId).map Entry.state ≠ some .active) :
      EntryStep s c pc (.setEntry c.jobId none)
  | adds (pc : ProcessPc) (before : mayAdd c.pc = true) (after : mayAdd pc = false)
      (free : s.queue c.jobId = none) :
      EntryStep s c pc (.setEntry c.jobId (some ⟨.waiting, c.userId, 0⟩))

theorem nextProcess_entry {s : Stores} {c : ProcessCall} {pc : ProcessPc}
    (h : nextProcess cfg s c = some (pc, op)) : EntryStep s c pc op := by
  unfold nextProcess at h
  split at h
  · rename_i hpc
    split at h
    · cases h
      exact .keeps _ _ rfl fun _ => by rw [hpc]; rfl
    · split_ifs at h <;> cases h <;> exact .keeps _ _ rfl fun _ => by rw [hpc]; rfl
  · rename_i hpc
    split_ifs at h <;> cases h <;> exact .keeps _ _ rfl fun _ => by rw [hpc]; rfl
  · rename_i hpc
    cases h
    exact .keeps _ _ rfl fun _ => by rw [hpc]; rfl
  · rename_i hpc
    split at h <;> cases h <;> exact .keeps _ _ rfl fun _ => by rw [hpc]; rfl
  · rename_i hpc
    split at h <;> cases h <;> exact .keeps _ _ rfl fun _ => by rw [hpc]; rfl
  · rename_i hpc
    split at h
    · cases h
      exact .keeps _ _ rfl fun _ => by rw [hpc]; rfl
    · rename_i hidle
      cases h
      exact .removes _ (by rw [hpc]; rfl) fun hactive => hidle hactive
  · rename_i hpc
    split at h
    · rename_i hfree
      cases h
      exact .adds _ (by rw [hpc]; rfl) rfl hfree
    · cases h
      exact .keeps _ _ rfl fun _ => by rw [hpc]; rfl
  · cases h
    exact .keeps _ _ rfl fun h => by cases h
  · cases h
  · cases h

/-- A call that is cut off adds nothing later. -/
theorem EntryStep.cut {s : Stores} {c : ProcessCall} {pc : ProcessPc}
    (h : EntryStep s c pc op) (error : HttpError) : EntryStep s c (.threw error) op := by
  cases h with
  | keeps op entry order => exact .keeps _ _ entry fun h => by cases h
  | removes before unlocked => exact .removes _ before unlocked
  | adds before after free => exact .adds _ before rfl free

section Thread

variable {i now : ℕ} {act : Action} {t t' : Thread} {spawned : List Thread}

theorem acts_process {c : ProcessCall} (h : Acts cfg w i act (.process c) now t' op spawned) :
    spawned = [] ∧ ∃ pc, t' = .process { c with pc := pc } ∧ EntryStep w.stores c pc op := by
  generalize ht : Thread.process c = t at h
  cases h with
  | stepped env t t' op spawned next =>
      subst ht
      obtain ⟨⟨pc, op'⟩, hn, he⟩ := Option.map_eq_some_iff.mp next
      cases he
      exact ⟨rfl, pc, rfl, nextProcess_entry hn⟩
  | threw env e t t' throws =>
      subst ht
      cases throwing_cases throws with
      | process c => exact ⟨rfl, _, rfl, .keeps _ _ rfl fun h => by cases h⟩
  | lost env e t t' t₁ op spawned throws next =>
      subst ht
      obtain ⟨⟨pc, op'⟩, hn, he⟩ := Option.map_eq_some_iff.mp next
      cases he
      cases throwing_cases throws with
      | process c => exact ⟨rfl, _, rfl, (nextProcess_entry hn).cut _⟩
  | timedOut t t' out =>
      subst ht
      cases out
  | acked a e entry pc queued => cases ht

theorem settle_move (entry : Entry) (err : Option Err) :
    RoleMove cfg.jobMaxAttempts (.attempt false) (some entry) (.attempt true)
      (some (settle cfg jobId entry err).1) ((settle cfg jobId entry err).2.map (role jobId)) := by
  unfold settle
  cases err with
  | none => exact .completes entry
  | some e =>
      dsimp only
      split_ifs with hlast
      · simpa [role] using RoleMove.fails entry
      · refine .retries entry ?_
        simp only [Bool.or_eq_true, decide_eq_true_eq, not_or] at hlast
        omega

/-- The report is the only move of a settled attempt. -/
theorem settled_move {a : Attempt} {pc : AttemptPc} {err : Option Err}
    (h : AttemptMove cfg w a now pc op spawned) (hpc : a.pc = .settled err) :
    pc = .acked ∧ ∃ entry, w.stores.queue a.jobId = some entry ∧
      op = .setEntry a.jobId (some (settle cfg a.jobId entry err).1) ∧
        spawned = (settle cfg a.jobId entry err).2 := by
  cases h with
  | acked e entry pc queued =>
      obtain rfl : err = e := by simpa [hpc] using pc
      exact ⟨rfl, entry, queued, rfl, rfl⟩
  | failing work e op pc => rcases pc with ⟨i, hp⟩ | ⟨result, hp⟩ <;> simp [hpc] at hp
  | thrown work e op pc =>
      rcases pc with ⟨hp, -⟩ | ⟨hp, -⟩ | ⟨e', hp, -⟩ <;> simp [hpc] at hp
  | ended e pc => simp [hpc] at pc
  | began job key work pc => simp [hpc] at pc
  | announced work pc => simp [hpc] at pc
  | started work pc => simp [hpc] at pc
  | won work i result pc done => simp [hpc] at pc
  | completed work result pc => simp [hpc] at pc
  | marking e mark mark' op pc next => simp [hpc] at pc
  | marked e mark op pc next => simp [hpc] at pc
  | broke e e' mark op pc next => simp [hpc] at pc

/-- A thread that is no report and no `process` call of the job leaves its entry alone, and
starts nothing but bodies for it. -/
theorem acts_quiet (h : Acts cfg w i act t now t' op spawned)
    (hprocess : ∀ c, t = .process c → c.jobId ≠ jobId)
    (hreport : ∀ a err, t = .attempt a → a.pc = .settled err → a.jobId ≠ jobId) :
    (w.stores.run now op).queue jobId = w.stores.queue jobId ∧
      ∀ r ∈ spawned.map (role jobId), r = .other := by
  constructor
  · apply Stores.run_queue_same
    intro e he
    rcases acts_entry h he with ⟨c, pc, rfl, hjob, -⟩ | ⟨a, err, entry, rfl, hjob, hpc, -⟩
    · exact hprocess c rfl hjob
    · exact hreport a err rfl hpc hjob
  · intro r hr
    obtain ⟨t₁, ht₁, rfl⟩ := List.mem_map.mp hr
    rcases acts_spawned h ht₁ with ⟨a, work, rfl, -, rfl⟩ | ⟨a, err, entry, rfl, hpc, -, rfl⟩
    · rfl
    · simp [role, hreport a (some err) rfl hpc]

theorem acts_role (h : Acts cfg w i act t now t' op spawned) :
    RoleMove cfg.jobMaxAttempts (role jobId t) (w.stores.queue jobId) (role jobId t')
      ((w.stores.run now op).queue jobId) (spawned.map (role jobId)) := by
  -- a move that changes neither the role nor the entry
  have hquiet : role jobId t' = role jobId t → (∀ c, t = .process c → c.jobId ≠ jobId) →
      (∀ a err, t = .attempt a → a.pc = .settled err → a.jobId ≠ jobId) →
      RoleMove cfg.jobMaxAttempts (role jobId t) (w.stores.queue jobId) (role jobId t')
        ((w.stores.run now op).queue jobId) (spawned.map (role jobId)) := by
    intro hrole hprocess hreport
    obtain ⟨hqueue, hothers⟩ := acts_quiet h hprocess hreport
    rw [hrole, hqueue]
    exact .idle _ _ _ hothers
  have hsame := h.sameCall
  cases hsame with
  | process c pc₀ =>
      by_cases hjob : c.jobId = jobId
      · obtain ⟨rfl, pc, he, hentry⟩ := acts_process h
        cases he
        subst hjob
        simp only [role, if_true, List.map_nil]
        cases hentry with
        | keeps op entry order =>
            rw [Stores.run_queue_same (by simp [entry])]
            cases hafter : mayAdd pc₀ with
            | true =>
                rw [order hafter]
                exact .idle _ _ _ (by simp)
            | false => exact .passes _ _
        | removes before unlocked =>
            rw [before, Stores.run_queue_set rfl]
            exact .removes _ _ unlocked
        | adds before after free =>
            rw [before, after, free, Stores.run_queue_set rfl]
            exact .adds c.userId
      · exact hquiet (by simp [role, hjob]) (by simpa using hjob) (by simp)
  | attempt a pc₀ =>
      obtain ⟨pc, he, hmove⟩ := acts_attempt h
      cases he
      by_cases hjob : a.jobId = jobId
      · subst hjob
        by_cases hsettled : ∃ err, a.pc = .settled err
        · obtain ⟨err, hpc⟩ := hsettled
          obtain ⟨rfl, entry, hqueue, rfl, rfl⟩ := settled_move hmove hpc
          rw [hqueue, Stores.run_queue_set rfl]
          simpa [role, hpc] using settle_move entry err
        · have hbefore := acked_stuck hmove
          have hafter : pc₀ ≠ .acked := by
            rintro rfl
            obtain ⟨e, he⟩ := acked_entry hmove
            rcases acts_entry h he with ⟨c, pc, ht, -⟩ | ⟨a', err, entry, ht, -, hpc, -⟩
            · cases ht
            · cases ht
              exact hsettled ⟨err, hpc⟩
          refine hquiet (by simp [role, hbefore, hafter]) (by simp) ?_
          rintro a' err ⟨⟩ hpc
          exact (hsettled ⟨err, hpc⟩).elim
      · refine hquiet (by simp [role, hjob]) (by simp) ?_
        rintro a' err ⟨⟩ -
        exact hjob
  | _ => exact hquiet rfl (by simp) (by simp)

end Thread

theorem outside_role {act : Action} {new : List Thread} (h : Outside w act op new) :
    OuterMove (w.stores.queue jobId) ((w.stores.run 0 op).queue jobId)
      (new.map (role jobId)) := by
  -- an entry of another job
  have hother : ∀ id e, id ≠ jobId → op = .setEntry id e → (∀ t ∈ new, role jobId t = .other) →
      OuterMove (w.stores.queue jobId) ((w.stores.run 0 op).queue jobId)
        (new.map (role jobId)) := by
    rintro id e hne rfl hnew
    rw [Stores.run_queue_same (by simp [Op.newEntry, hne])]
    exact .idle _ _ (by simpa using fun t ht => Or.inl (hnew t ht))
  cases h with
  | called request =>
      refine .idle _ _ ?_
      cases request with
      | process userId id => by_cases hid : id = jobId <;> simp [role, Request.thread, hid, mayAdd]
      | _ => simp [role, Request.thread]
  | picked id entry queued waiting =>
      by_cases hid : id = jobId
      · subst hid
        rw [queued, Stores.run_queue_set rfl]
        simpa [role] using OuterMove.picked entry waiting
      · exact hother id _ hid rfl (by simp [role, hid])
  | promoted id entry queued delayed =>
      by_cases hid : id = jobId
      · subst hid
        rw [queued, Stores.run_queue_set rfl]
        exact .promoted entry delayed
      · exact hother id _ hid rfl (by simp)
  | purged id entry queued completed =>
      by_cases hid : id = jobId
      · subst hid
        rw [queued, Stores.run_queue_set rfl]
        exact .purged entry completed
      · exact hother id _ hid rfl (by simp)
  | uploaded userId id bytes => exact .idle _ _ (by simp)

theorem budget_step {act : Action} (hmax : 1 ≤ cfg.jobMaxAttempts)
    (h : Budget cfg.jobMaxAttempts (w.threads.map (role jobId)) (w.stores.queue jobId))
    (hs : step cfg w act = some w') :
    Budget cfg.jobMaxAttempts (w'.threads.map (role jobId)) (w'.stores.queue jobId) := by
  cases step_shape hs with
  | thread i now t t' op spawned at_ acts =>
      have hi : (w.threads.map (role jobId))[i]? = some (role jobId t) := by
        rw [List.getElem?_map, at_, Option.map_some]
      simpa [World.advance] using h.move hmax hi (acts_role acts)
  | outside op new acts => simpa using h.outer (outside_role acts)

theorem budget_run (jobId : String) (hmax : 1 ≤ cfg.jobMaxAttempts)
    (hw : Run (step cfg) anyStep World.empty w) :
    Budget cfg.jobMaxAttempts (w.threads.map (role jobId)) (w.stores.queue jobId) := by
  refine hw.invariant (I := fun w => Budget cfg.jobMaxAttempts (w.threads.map (role jobId))
    (w.stores.queue jobId)) ?_ fun _ _ _ hi _ hs => budget_step hmax hi hs
  refine ⟨rfl, ?_, Nat.le_refl 0, Nat.le_refl 0⟩
  rintro e ⟨⟩

/-- The attempts of the job that have been started. -/
def attempts (jobId : String) (w : World) : ℕ :=
  w.threads.countP fun
    | .attempt a => a.jobId = jobId
    | _ => false

/-- The `process` calls for the job that have been started. -/
def requests (jobId : String) (w : World) : ℕ :=
  w.threads.countP fun
    | .process c => c.jobId = jobId
    | _ => false

/-- The runs of `handleFailure` for the job that have been started. -/
def handlers (jobId : String) (w : World) : ℕ :=
  w.threads.countP fun
    | .handler h => h.jobId = jobId
    | _ => false

theorem total_granted (w : World) (jobId : String) (n : ℕ) :
    total (granted n) (w.threads.map (role jobId)) = n * requests jobId w := by
  rw [requests, ← total_indicator, ← total_mul, total_map]
  congr 1
  funext t
  cases t with
  | process c => by_cases hid : c.jobId = jobId <;> simp [role, granted, hid]
  | attempt a => by_cases hid : a.jobId = jobId <;> simp [role, granted, hid]
  | handler h => by_cases hid : h.jobId = jobId <;> simp [role, granted, hid]
  | _ => simp [role, granted]

theorem attempts_le (w : World) (jobId : String) (max : ℕ) :
    attempts jobId w ≤ total (attemptCost max) (w.threads.map (role jobId)) := by
  rw [attempts, ← total_indicator, total_map]
  apply total_le
  rintro t -
  cases t with
  | attempt a => by_cases hid : a.jobId = jobId <;> simp [role, attemptCost, hid]
  | _ => simp

theorem handlers_le (w : World) (jobId : String) :
    handlers jobId w ≤ total failureCost (w.threads.map (role jobId)) := by
  rw [handlers, ← total_indicator, total_map]
  apply total_le
  rintro t -
  cases t with
  | handler h => by_cases hid : h.jobId = jobId <;> simp [role, failureCost, hid]
  | _ => simp

theorem attempts_le_requests (jobId : String) (hmax : 1 ≤ cfg.jobMaxAttempts)
    (hw : Run (step cfg) anyStep World.empty w) :
    attempts jobId w ≤ cfg.jobMaxAttempts * requests jobId w := by
  have hwithin := (budget_run jobId hmax hw).attempts
  have hattempts := attempts_le w jobId cfg.jobMaxAttempts
  have hgranted := total_granted w jobId cfg.jobMaxAttempts
  unfold Within at hwithin
  omega

/-! ## Stage bodies -/

/-- The stages from the given one on. -/
def Stage.left : Stage → ℕ
  | .transcribe => 3
  | .compile => 2
  | .render => 1

/-- The bodies an attempt may still start. -/
def stagesLeft : AttemptPc → ℕ
  | .findById => 3
  | .setStatus work | .addStarted work => Stage.left work.stage
  | .racing work _ | .addCompleted work _ => Stage.left work.stage - 1
  | _ => 0

def bodyCost (jobId : String) : Thread → ℕ
  | .body b => if b.jobId = jobId then 1 else 0
  | .attempt a => if a.jobId = jobId then stagesLeft a.pc else 0
  | _ => 0

def bodyGrant (jobId : String) : Thread → ℕ
  | .attempt a => if a.jobId = jobId then 3 else 0
  | _ => 0

section Thread

variable {i now : ℕ} {act : Action} {t t' : Thread} {spawned : List Thread}

theorem compileStage_left (job : Snapshot) (transcript : String) :
    stagesLeft (compileStage job transcript) ≤ 2 := by
  unfold compileStage
  split_ifs <;> simp [stagesLeft, Work.stage, Stage.left]

theorem afterStage_left (work : Work) (result : StageResult) :
    stagesLeft (afterStage work result) ≤ Stage.left work.stage - 1 := by
  cases work with
  | transcribe job => exact compileStage_left job result.transcript
  | compile job transcript => exact Nat.le_refl 1
  | render label sections => exact Nat.le_refl 0

theorem afterThrow_left (e : Err) : stagesLeft (afterThrow e) = 0 := by
  unfold afterThrow
  split_ifs <;> rfl

/-- A stage starts its body once, and every later stage is one less. -/
theorem attempt_bodies {a : Attempt} {pc : AttemptPc} (h : AttemptMove cfg w a now pc op spawned) :
    stagesLeft pc + total (bodyCost a.jobId) spawned ≤ stagesLeft a.pc := by
  cases h with
  | ended e pc => simp [stagesLeft]
  | began job key work pc =>
      simp only [pc, stagesLeft, total_nil]
      cases work <;> simp [Work.stage, Stage.left]
  | announced work pc => simp [pc, stagesLeft]
  | started work pc =>
      simp only [pc, stagesLeft, total_cons, total_nil, bodyCost, if_true]
      cases work <;> simp [Work.stage, Stage.left]
  | won work i result pc done => simp [pc, stagesLeft]
  | failing work e op pc => simp [stagesLeft]
  | completed work result pc =>
      have hleft := afterStage_left work result
      simp only [pc, total_nil]
      exact hleft
  | thrown work e op pc => simp [afterThrow_left]
  | marking e mark mark' op pc next => simp [stagesLeft]
  | marked e mark op pc next => simp [stagesLeft, afterMarking]
  | broke e e' mark op pc next => simp [stagesLeft]
  | acked e entry pc queued =>
      have hzero : total (bodyCost a.jobId) (settle cfg a.jobId entry e).2 = 0 := by
        apply total_eq_zero
        intro t ht
        obtain ⟨err, -, rfl⟩ := settle_handler ht
        rfl
      simp [stagesLeft, hzero]

theorem bodies_step (h : Within (bodyCost jobId) (bodyGrant jobId) 0 w.threads)
    (hs : step cfg w act = some w') :
    Within (bodyCost jobId) (bodyGrant jobId) 0 w'.threads := by
  cases step_shape hs with
  | thread i now t t' op spawned at_ acts =>
      refine h.advance at_ ?_
      have hspawned : total (bodyGrant jobId) spawned = 0 := by
        apply total_eq_zero
        intro t₁ ht₁
        rcases acts_spawned acts ht₁ with
          ⟨a, work, -, -, rfl⟩ | ⟨a, err, entry, -, -, -, rfl⟩ <;> rfl
      cases acts.sameCall with
      | attempt a pc₀ =>
          obtain ⟨pc, he, hmove⟩ := acts_attempt acts
          cases he
          by_cases hjob : a.jobId = jobId
          · subst hjob
            have hbodies := attempt_bodies hmove
            simp only [bodyCost, bodyGrant, if_true, hspawned]
            omega
          · have hnone : total (bodyCost jobId) spawned = 0 := by
              apply total_eq_zero
              intro t₁ ht₁
              rcases acts_spawned acts ht₁ with
                ⟨a', work, ht, -, rfl⟩ | ⟨a', err, entry, -, -, -, rfl⟩
              · cases ht
                simp [bodyCost, hjob]
              · rfl
            simp [bodyCost, bodyGrant, hjob, hnone, hspawned]
      | body b pc₀ =>
          obtain ⟨rfl, -⟩ := acts_body acts
          simp [bodyCost, bodyGrant]
      | _ =>
          have hnone : spawned = [] := by
            apply List.eq_nil_iff_forall_not_mem.mpr
            intro t₁ ht₁
            rcases acts_spawned acts ht₁ with ⟨a, work, ht, -⟩ | ⟨a, err, entry, ht, -⟩ <;> cases ht
          simp [bodyCost, bodyGrant, hnone]
  | outside op new acts =>
      refine h.append ?_
      have hnew : total (bodyCost jobId) new ≤ total (bodyGrant jobId) new := by
        apply total_le
        intro t ht
        obtain ⟨hbody, hattempt⟩ := outside_new acts ht
        cases t with
        | body b => exact (hbody b rfl).elim
        | attempt a =>
            by_cases hjob : a.jobId = jobId <;>
              simp [bodyCost, bodyGrant, hattempt a rfl, stagesLeft, hjob]
        | _ => exact Nat.le_refl 0
      omega

end Thread

/-- The stage bodies of the job that have been started. Each makes at most one call of the
transcription or the compiler provider, or one rendering. -/
def bodies (jobId : String) (w : World) : ℕ :=
  w.threads.countP fun
    | .body b => b.jobId = jobId
    | _ => false

theorem bodies_le (w : World) (jobId : String) :
    bodies jobId w ≤ total (bodyCost jobId) w.threads := by
  rw [bodies, ← total_indicator]
  apply total_le
  rintro t -
  cases t with
  | body b => by_cases hid : b.jobId = jobId <;> simp [bodyCost, hid]
  | _ => simp

theorem total_bodyGrant (w : World) (jobId : String) :
    total (bodyGrant jobId) w.threads = 3 * attempts jobId w := by
  rw [attempts, ← total_indicator, ← total_mul]
  congr 1
  funext t
  cases t with
  | attempt a => by_cases hid : a.jobId = jobId <;> simp [bodyGrant, hid]
  | _ => simp [bodyGrant]

theorem bodies_le_attempts (jobId : String) (hw : Run (step cfg) anyStep World.empty w) :
    bodies jobId w ≤ 3 * attempts jobId w := by
  have hwithin : Within (bodyCost jobId) (bodyGrant jobId) 0 w.threads :=
    hw.invariant (I := fun w => Within (bodyCost jobId) (bodyGrant jobId) 0 w.threads)
      (by simp [Within, World.empty]) fun _ _ _ hi _ hs => bodies_step hi hs
  have hbodies := bodies_le w jobId
  have hgranted := total_bodyGrant w jobId
  unfold Within at hwithin
  omega

/-- In every interleaving and under every fault, a job is attempted at most `jobMaxAttempts`
times for each `process` call, and each attempt starts each of the three stages at most once,
also counting the bodies that go on after their timeout. -/
theorem work_bounded (cfg : ServerConfig) {w : World} (jobId : String)
    (hmax : 1 ≤ cfg.jobMaxAttempts) (hw : Run (step cfg) anyStep World.empty w) :
    attempts jobId w ≤ cfg.jobMaxAttempts * requests jobId w ∧
      bodies jobId w ≤ 3 * (cfg.jobMaxAttempts * requests jobId w) := by
  have hattempts := attempts_le_requests jobId hmax hw
  have hbodies := bodies_le_attempts jobId hw
  exact ⟨hattempts, by omega⟩

/-- A transient failure of attempt 2, a second one by attempt 4 that is cut off at once, and
the third and last one, whose failure is terminal. -/
def exhaustSchedule : List Action :=
  submitSchedule ++ checkSchedule 1 ++ enqueueSchedule 1 ++ [.pick "job-1"] ++ steps 2 3 {} ++
    [.throw 3 {} ⟨"socket hang up", false, false⟩ false] ++ steps 2 2 {} ++
    [.ack 2, .promote "job-1", .pick "job-1", .throw 4 {} ⟨"timeout", false, false⟩ false, .ack 4,
      .promote "job-1", .pick "job-1", .throw 5 {} ⟨"timeout", false, false⟩ false, .ack 5] ++
    steps 6 4 {}

theorem work_bounded_demo :
    ∃ w, Run (step demo) anyStep World.empty w ∧ attempts "job-1" w = 3 ∧
      requests "job-1" w = 1 ∧ bodies "job-1" w = 1 ∧
        attempts "job-1" w ≤ demo.jobMaxAttempts * requests "job-1" w ∧
          bodies "job-1" w ≤ 3 * (demo.jobMaxAttempts * requests "job-1" w) := by
  have hend : (exec (step demo) exhaustSchedule World.empty).any (fun w =>
      decide (attempts "job-1" w = 3 ∧ requests "job-1" w = 1 ∧ bodies "job-1" w = 1)) = true := by
    decide
  obtain ⟨w, hw, hp⟩ := exec_any hend
  obtain ⟨hattempts, hrequests, hbodies⟩ := of_decide_eq_true hp
  exact ⟨w, hw, hattempts, hrequests, hbodies, work_bounded demo "job-1" (by decide) hw⟩

/-! ## Dead letters -/

def letters (jobId : String) (w : World) : ℕ :=
  w.stores.dlq.countP fun letter => letter.jobId = jobId

/-- A handler that has not ended may still park a dead letter. -/
def letterCost (jobId : String) : Thread → ℕ
  | .handler h => if h.jobId = jobId && h.pc ≠ .done then 1 else 0
  | _ => 0

def letterGrant (jobId : String) : Thread → ℕ
  | .handler h => if h.jobId = jobId then 1 else 0
  | _ => 0

/-- The dead letter an operation parks. -/
def Op.letter : Op → Option DlqEntry
  | .addDlq letter => some letter
  | _ => none

theorem run_dlq (now : ℕ) (s : Stores) (op : Op) :
    (s.run now op).dlq = s.dlq ++ (Op.letter op).toList := by
  cases op with
  | insertJob job =>
      simp only [Stores.run, Op.letter, Option.toList_none, List.append_nil]
      split_ifs <;> rfl
  | addDlq entry => rfl
  | _ => simp [Stores.run, Op.letter]

section Thread

variable {i now : ℕ} {act : Action} {t t' : Thread} {spawned : List Thread}

theorem nextHandler_letter {s : Stores} {h : Handler} {pc : HandlerPc}
    (hn : nextHandler s h = some (pc, op)) :
    h.pc ≠ .done ∧ (Op.letter op = none ∨ pc = .done ∧
      Op.letter op = some ⟨h.jobId, h.userId, h.error.message, h.attemptsMade⟩) := by
  have hmark : ∀ mark mark', nextMark s h.jobId h.error.message mark = (mark', op) →
      Op.letter op = none := by
    intro mark mark' hm
    rcases nextMark_op hm with rfl | ⟨m, -, rfl⟩ | ⟨event, -, rfl⟩ <;> rfl
  unfold nextHandler at hn
  split at hn
  · rename_i mark hpc
    refine ⟨by simp [hpc], .inl ?_⟩
    split at hn
    · rename_i op' hm
      cases hn
      exact hmark mark _ hm
    · rename_i mark' op' hm
      cases hn
      exact hmark mark _ hm
  · rename_i hpc
    cases hn
    exact ⟨by simp [hpc], .inr ⟨rfl, rfl⟩⟩
  · cases hn

/-- A handler moves until it is done, and parks its letter in its last step. -/
theorem acts_handler {h : Handler} (acts : Acts cfg w i act (.handler h) now t' op spawned) :
    spawned = [] ∧ h.pc ≠ .done ∧ ∃ pc, t' = .handler { h with pc := pc } ∧
      (Op.letter op = none ∨ pc = .done ∧
        Op.letter op = some ⟨h.jobId, h.userId, h.error.message, h.attemptsMade⟩) := by
  generalize ht : Thread.handler h = t at acts
  cases acts with
  | stepped env t t' op spawned next =>
      subst ht
      obtain ⟨⟨pc, op'⟩, hn, he⟩ := Option.map_eq_some_iff.mp next
      cases he
      obtain ⟨hopen, hletter⟩ := nextHandler_letter hn
      exact ⟨rfl, hopen, pc, rfl, hletter⟩
  | threw env e t t' throws =>
      subst ht
      obtain ⟨pc, hpc, rfl⟩ := Option.map_eq_some_iff.mp throws
      refine ⟨rfl, ?_, pc, rfl, .inl rfl⟩
      intro hdone
      simp [Handler.throwing, hdone] at hpc
  | lost env e t t' t₁ op spawned throws next =>
      subst ht
      obtain ⟨⟨pc₁, op'⟩, hn, he⟩ := Option.map_eq_some_iff.mp next
      cases he
      obtain ⟨hopen, hletter⟩ := nextHandler_letter hn
      cases throwing_cases throws with
      | handler h => exact ⟨rfl, hopen, .done, rfl, hletter.imp_right fun hl => ⟨rfl, hl.2⟩⟩
  | timedOut t t' out =>
      subst ht
      cases out
  | acked a e entry pc queued => cases ht

/-- No other thread parks a letter. -/
theorem acts_letter (acts : Acts cfg w i act t now t' op spawned)
    (hother : ∀ h, t ≠ .handler h) : Op.letter op = none := by
  have hop : ∀ env, Operates w env t op → Op.letter op = none := by
    intro env hoperates
    cases hoperates with
    | parked h pc => exact (hother h rfl).elim
    | _ => rfl
  cases acts with
  | stepped env t t' op spawned next => exact hop env (next_operates next)
  | threw env e t t' throws => rfl
  | lost env e t t' t₁ op spawned throws next => exact hop env (next_operates next)
  | timedOut t t' out => rfl
  | acked a e entry pc queued => rfl

/-- The counts of the job's handlers and letters are those of an entry of its. -/
def Counted (max : ℕ) (jobId : String) (w : World) : Prop :=
  (∀ h, Thread.handler h ∈ w.threads → h.jobId = jobId →
    1 ≤ h.attemptsMade ∧ h.attemptsMade ≤ max) ∧
  ∀ letter ∈ w.stores.dlq, letter.jobId = jobId →
    1 ≤ letter.attemptsMade ∧ letter.attemptsMade ≤ max

/-- The dead letters so far and those still to come are within the handlers. -/
def Parked (jobId : String) (w : World) : Prop :=
  Within (letterCost jobId) (letterGrant jobId) (letters jobId w) w.threads

theorem letters_advance {stores : Stores} {threads : List Thread} :
    letters jobId ⟨stores.run now op, threads⟩ =
      letters jobId ⟨stores, threads⟩ +
        (Op.letter op).toList.countP fun letter => letter.jobId = jobId := by
  simp only [letters, run_dlq, List.countP_append]

theorem letterCost_le (t : Thread) : letterCost jobId t ≤ letterGrant jobId t := by
  cases t with
  | handler h =>
      simp only [letterCost, letterGrant]
      split_ifs <;> simp_all
  | _ => exact Nat.le_refl 0

theorem parked_step (h : Parked jobId w) (hs : step cfg w act = some w') : Parked jobId w' := by
  cases step_shape hs with
  | thread i now t t' op spawned at_ acts =>
      refine Within.advance h at_ ?_
      rw [World.advance, letters_advance]
      cases acts.sameCall with
      | handler hd pc₀ =>
          obtain ⟨rfl, hopen, pc, he, hletter⟩ := acts_handler acts
          cases he
          by_cases hjob : hd.jobId = jobId
          · subst hjob
            have hone : letterCost hd.jobId (.handler hd) = 1 := by simp [letterCost, hopen]
            rcases hletter with hnone | ⟨rfl, hsome⟩
            · have hle : letterCost hd.jobId (.handler { hd with pc := pc₀ }) ≤ 1 := by
                simp only [letterCost]
                split_ifs <;> omega
              simp only [hone, hnone, letterGrant, if_true, letters, Option.toList_none,
                List.countP_nil, total_nil]
              omega
            · have hzero : letterCost hd.jobId (.handler { hd with pc := .done }) = 0 := by
                simp [letterCost]
              simp only [hone, hzero, hsome, letterGrant, if_true, letters,
                Option.toList_some, List.countP_singleton, decide_true, total_nil]
              omega
          · rcases hletter with hnone | ⟨rfl, hsome⟩
            · simp [letterCost, letterGrant, hjob, hnone, letters]
            · simp [letterCost, letterGrant, hjob, hsome, letters]
      | _ =>
          have hnone := acts_letter acts (by simp)
          have hle : total (letterCost jobId) spawned ≤ total (letterGrant jobId) spawned :=
            total_le fun t _ => letterCost_le t
          simp only [letterCost, letterGrant, hnone, letters, Option.toList_none, List.countP_nil]
          omega
  | outside op new acts =>
      refine Within.append h ?_
      have hnone : Op.letter op = none := by cases acts <;> rfl
      have hle : total (letterCost jobId) new ≤ total (letterGrant jobId) new :=
        total_le fun t _ => letterCost_le t
      rw [letters_advance]
      simp only [hnone, letters, Option.toList_none, List.countP_nil]
      omega

theorem counted_step (hbudget : Budget cfg.jobMaxAttempts (w.threads.map (role jobId))
    (w.stores.queue jobId)) (h : Counted cfg.jobMaxAttempts jobId w)
    (hs : step cfg w act = some w') : Counted cfg.jobMaxAttempts jobId w' := by
  cases step_shape hs with
  | thread i now t t' op spawned at_ acts =>
      constructor
      · intro hd hmem hjob
        rcases mem_advance hmem with hold | hmoved | hnew
        · exact h.1 hd hold hjob
        · -- the count of a handler that moves is its own
          have hsame := acts.sameCall
          rw [← hmoved] at hsame
          generalize ht' : Thread.handler hd = t₁ at hsame
          cases hsame with
          | handler h₀ pc =>
              cases ht'
              exact h.1 h₀ (List.mem_of_getElem? at_) hjob
          | _ => cases ht'
        · rcases acts_spawned acts hnew with ⟨a, work, -, -, he⟩ | ⟨a, err, entry, rfl, hpc, hq, he⟩
          · cases he
          · cases he
            obtain rfl : a.jobId = jobId := hjob
            rw [hq] at hbudget
            have hi : (w.threads.map (role a.jobId))[i]? = some (.attempt false) := by
              rw [List.getElem?_map, at_]
              simp [role, hpc]
            have hlive : Entry.live entry = true := by simp [Entry.live, hbudget.active hi]
            have hmade := hbudget.made entry rfl hlive
            simp only
            omega
      · intro letter hmem hjob
        simp only [World.advance, run_dlq, List.mem_append, Option.mem_toList] at hmem
        rcases hmem with hold | hnew
        · exact h.2 letter hold hjob
        · cases ht : t with
          | handler hd =>
              subst ht
              obtain ⟨-, -, pc, -, hletter⟩ := acts_handler acts
              rcases hletter with hnone | ⟨-, hsome⟩
              · rw [hnone] at hnew
                cases hnew
              · rw [hsome] at hnew
                cases hnew
                exact h.1 hd (List.mem_of_getElem? at_) hjob
          | _ =>
              rw [acts_letter acts (by simp [ht])] at hnew
              cases hnew
  | outside op new acts =>
      have hnone : Op.letter op = none := by cases acts <;> rfl
      constructor
      · intro hd hmem hjob
        rcases List.mem_append.mp hmem with hold | hnew
        · exact h.1 hd hold hjob
        · cases acts with
          | called request => cases request <;> simp [Request.thread] at hnew
          | picked id entry queued waiting => simp at hnew
          | _ => cases hnew
      · intro letter hmem hjob
        simp only [run_dlq, hnone, Option.toList_none, List.append_nil] at hmem
        exact h.2 letter hmem hjob

end Thread

/-- A `process` call brings at most one dead letter, and a dead letter counts from one to
`jobMaxAttempts` attempts. -/
theorem letters_bounded (cfg : ServerConfig) {w : World} (jobId : String)
    (hmax : 1 ≤ cfg.jobMaxAttempts) (hw : Run (step cfg) anyStep World.empty w) :
    letters jobId w ≤ requests jobId w ∧
      ∀ letter ∈ w.stores.dlq, letter.jobId = jobId →
        1 ≤ letter.attemptsMade ∧ letter.attemptsMade ≤ cfg.jobMaxAttempts := by
  have hparked : Parked jobId w := hw.invariant (I := fun w => Parked jobId w)
    (Nat.le_refl 0) fun _ _ _ hi _ hs => parked_step hi hs
  have hbudget := budget_run jobId hmax hw
  have hcounted : Counted cfg.jobMaxAttempts jobId w := by
    have hboth : Budget cfg.jobMaxAttempts (w.threads.map (role jobId)) (w.stores.queue jobId) ∧
        Counted cfg.jobMaxAttempts jobId w := by
      refine hw.invariant (I := fun w => Budget cfg.jobMaxAttempts (w.threads.map (role jobId))
        (w.stores.queue jobId) ∧ Counted cfg.jobMaxAttempts jobId w) ?_
        fun _ _ _ hi _ hs => ⟨budget_step hmax hi.1 hs, counted_step hi.1 hi.2 hs⟩
      refine ⟨budget_run jobId hmax (Run.refl _), ?_, ?_⟩ <;> simp [World.empty, Stores.empty]
    exact hboth.2
  refine ⟨?_, hcounted.2⟩
  have hfailures := hbudget.failures
  have hhandlers := handlers_le w jobId
  have hgranted := total_granted w jobId 1
  have hgrant : total (letterGrant jobId) w.threads = handlers jobId w := by
    rw [handlers, ← total_indicator]
    congr 1
    funext t
    cases t with
    | handler h => by_cases hid : h.jobId = jobId <;> simp [letterGrant, hid]
    | _ => simp [letterGrant]
  unfold Parked at hparked
  unfold Within at hfailures hparked
  omega

theorem letters_bounded_demo :
    ∃ w, Run (step demo) anyStep World.empty w ∧
      w.stores.dlq = [⟨"job-1", "user-1", "timeout", 3⟩] ∧
        letters "job-1" w ≤ requests "job-1" w := by
  have hend : (exec (step demo) exhaustSchedule World.empty).any (fun w =>
      decide (w.stores.dlq = [⟨"job-1", "user-1", "timeout", 3⟩])) = true := by decide
  obtain ⟨w, hw, hp⟩ := exec_any hend
  exact ⟨w, hw, of_decide_eq_true hp, (letters_bounded demo "job-1" (by decide) hw).1⟩

end FieldNote.AttemptBudget
