import FieldNote.ThreadSteps

/-!
# When no job is stranded

The status column and the queue entry are updated in separate steps. A job in flight is
covered when its entry is going to be run, or when some thread is still going to change
its status or to put an entry back: an attempt that has more to do than end, a `process`
call that has not looked at the entry yet or is about to replace it, or a failure being
recorded. The guard asks that infrastructure calls succeed, and that a `process` call gives
up on enqueueing only when the job is covered without it. Under it every job in flight
stays covered, and in a quiet state only a queue entry can cover it.
-/
namespace FieldNote.QueueLiveness
open JobsService PipelineService ServerRuns GuardedRuns CallPool

/-- The call or promise has ended. -/
def idle : Thread → Bool
  | .create c => match c.pc with
      | .returned _ | .threw _ => true
      | _ => false
  | .process c => match c.pc with
      | .returned _ | .threw _ => true
      | _ => false
  | .update c => match c.pc with
      | .returned _ | .threw _ => true
      | _ => false
  | .remove c => match c.pc with
      | .returned | .threw _ => true
      | _ => false
  | .attempt a => a.pc = .acked
  | .body b => match b.pc with
      | .done _ => true
      | _ => false
  | .handler h => h.pc = .done

/-- The job exists, is not deleted and has an in-flight status. -/
def InFlight (w : World) (jobId : String) : Prop :=
  ∃ job, w.stores.findById jobId = some job ∧ job.deletedAt = none ∧ job.status.inFlight = true

def entryState (w : World) (jobId : String) : Option EntryState :=
  (w.stores.queue jobId).map Entry.state

/-- The entry is going to be picked. -/
def queued : Option EntryState → Bool
  | some .waiting | some .delayed => true
  | _ => false

/-- From this program point the call is going to leave a waiting entry behind, given the
state the entry is in. -/
def mayRevive : Option EntryState → ProcessPc → Bool
  | none, .getJob _ | none, .getState _ | none, .remove _ | none, .add _ => true
  | some .completed, .getJob _ | some .completed, .getState _ | some .completed, .remove _ => true
  | some .failed, .getJob _ | some .failed, .getState _ | some .failed, .remove _ => true
  | some .active, .getJob _ | some .active, .getState _ => true
  | _, _ => false

/-- The attempt only has to end: its render body has marked the job READY, or it found
nothing to do. -/
def finishing (w : World) (a : Attempt) : Bool :=
  match a.pc with
  | .settled none => true
  | .addCompleted work _ => work.stage = .render
  | .racing work body =>
      work.stage = .render &&
        match w.bodyResult body with
        | some (.ok _) => true
        | _ => false
  | _ => false

/-- The failure of the job is about to be recorded. -/
def recording : HandlerPc → Bool
  | .marking .rawById | .marking (.setStatus _) => true
  | _ => false

def covers (w : World) (jobId : String) : Thread → Bool
  | .process c => c.jobId = jobId && mayRevive (entryState w jobId) c.pc
  | .attempt a => a.jobId = jobId && a.pc ≠ .acked && !finishing w a
  | .handler h => h.jobId = jobId && recording h.pc
  | _ => false

def Covered (w : World) (jobId : String) : Prop :=
  queued (entryState w jobId) = true ∨ ∃ (k : ℕ) (t : Thread),
    w.threads[k]? = some t ∧ covers w jobId t = true

/-- A call to an AI provider or to the renderer, whose failures are not faults. -/
def providerCall : Thread → Bool
  | .body b => match b.pc with
      | .transcribe _ | .compile _ _ | .render _ => true
      | _ => false
  | _ => false

def inFlight (w : World) (jobId : String) : Bool :=
  match w.stores.findById jobId with
  | some job => job.deletedAt.isNone && job.status.inFlight
  | none => false

/-- The state of the entry makes the call give up on enqueueing. -/
def skips : Option EntryState → Bool
  | some .completed | some .failed => false
  | _ => true

/-- Infrastructure calls succeed: only provider calls fail. -/
def faultFree (w : World) : Action → Bool
  | .throw i _ _ _ => w.threads[i]?.all providerCall
  | _ => true

/-- A `process` call that skips leaves a job in flight covered by its entry or by another
thread. -/
def skipsCovered (w : World) : Action → Bool
  | .step i _ =>
      match w.threads[i]? with
      | some (.process ⟨_, jobId, .getState _⟩) =>
          !skips (entryState w jobId) || !inFlight w jobId || queued (entryState w jobId) ||
            (w.threads.eraseIdx i).any (covers w jobId)
      | _ => true
  | _ => true

def FaultFree (w : World) (a : Action) : Prop := faultFree w a = true

def Guard (w : World) (a : Action) : Prop := faultFree w a = true ∧ skipsCovered w a = true

instance : DecidableRel FaultFree := fun _ _ => inferInstanceAs (Decidable (_ = true))
instance : DecidableRel Guard := fun _ _ => inferInstanceAs (Decidable (_ ∧ _))

/-- The body runs the render stage. -/
def rendering : BodyPc → Bool
  | .render _ | .putObject _ | .setPdfReady _ | .done _ => true
  | _ => false

structure Inv (w : World) : Prop where
  active : ∀ (k : ℕ) a, w.threads[k]? = some (.attempt a) → a.pc ≠ .acked →
    entryState w a.jobId = some .active
  unique : ∀ (k l : ℕ) a b, w.threads[k]? = some (.attempt a) →
    w.threads[l]? = some (.attempt b) → a.jobId = b.jobId → a.pc ≠ .acked → b.pc ≠ .acked → k = l
  race : ∀ (k : ℕ) a work body, w.threads[k]? = some (.attempt a) → a.pc = .racing work body →
    ∃ b, w.threads[body]? = some (.body b) ∧ b.jobId = a.jobId ∧
      (work.stage = .render → rendering b.pc = true)
  covered : ∀ jobId, InFlight w jobId → Covered w jobId

theorem inv_empty : Inv World.empty := by
  refine ⟨?_, ?_, ?_, ?_⟩
  · simp [World.empty]
  · simp [World.empty]
  · simp [World.empty]
  · rintro jobId ⟨job, hjob, -⟩
    cases hjob

variable {cfg : ServerConfig} {w : World} {env : Env}

theorem inFlight_iff {jobId : String} : inFlight w jobId = true ↔ InFlight w jobId := by
  unfold inFlight InFlight
  cases w.stores.findById jobId <;> simp

/-- Whether an attempt is finishing depends on the body it races only. -/
theorem finishing_congr {w' : World} {a : Attempt}
    (h : ∀ work body, a.pc = .racing work body → w'.bodyResult body = w.bodyResult body) :
    finishing w' a = finishing w a := by
  unfold finishing
  cases hp : a.pc with
  | racing work body => simp only [h work body hp]
  | settled e => cases e <;> rfl
  | _ => rfl

/-- A body stays a body of its job and of its stage, and a render body succeeds by marking
the job READY. -/
def BodyStep (t t' : Thread) (op : Op) : Prop :=
  ∀ b, t = .body b → ∃ b', t' = .body b' ∧ b'.jobId = b.jobId ∧
    (rendering b.pc = true → rendering b'.pc = true) ∧
      ∀ result, rendering b.pc = true → b'.pc = .done (.ok result) →
        op.newStatus = some (b.jobId, .READY)

theorem BodyStep.of_ne {t t' : Thread} {op : Op} (h : ∀ b, t ≠ .body b) : BodyStep t t' op :=
  fun b hb => (h b hb).elim

/-- What a segment of thread `i` does to the entries and to the threads that cover jobs. -/
structure QueueStep (w : World) (now i : ℕ) (t t' : Thread) (op : Op)
    (spawned : List Thread) : Prop where
  attempt : ∀ a', t' = .attempt a' → ∃ a, t = .attempt a ∧ a.jobId = a'.jobId ∧ a.pc ≠ .acked
  spawned_not : ∀ a, Thread.attempt a ∉ spawned
  race : ∀ a' work body, t' = .attempt a' → a'.pc = .racing work body →
    body = w.threads.length ∧ ∃ b, spawned = [.body b] ∧ b.jobId = a'.jobId ∧
      (work.stage = .render → rendering b.pc = true)
  body : BodyStep t t' op
  entry : ∀ jobId e, op.newEntry = some (jobId, e) → entryState w jobId ≠ some .active ∧
    (queued (e.map Entry.state) = true ∨
      (e = none ∧ ∃ c, t' = .process c ∧ c.jobId = jobId ∧ mayRevive none c.pc = true))
  begins : ∀ jobId status, op.newStatus = some (jobId, status) → status.inFlight = true →
    (∃ c job, t' = .process c ∧ c.jobId = jobId ∧ c.pc = .getJob job) ∨
      ∃ a work, t' = .attempt a ∧ a.jobId = jobId ∧ a.pc = .addStarted work
  inserted : ∀ job, op.inserted = some job → job.status = .CREATED
  keeps : ∀ jobId, covers w jobId t = true → InFlight w jobId →
    InFlight (w.advance now i t' op spawned) jobId → Covered (w.advance now i t' op spawned) jobId

/-- A job that is in flight after an operation was in flight before it, or the operation
gives it an in-flight status. -/
theorem inFlight_cases {stores : Stores} {threads threads' : List Thread} {now : ℕ} {op : Op}
    {jobId : String} (hins : ∀ job, op.inserted = some job → job.status = .CREATED)
    (h : InFlight ⟨stores.run now op, threads'⟩ jobId) :
    InFlight ⟨stores, threads⟩ jobId ∨
      ∃ status, op.newStatus = some (jobId, status) ∧ status.inFlight = true := by
  obtain ⟨job', hrow, hlive, hfl⟩ := h
  rcases Stores.run_row_before hrow with hbefore | ⟨wr, job, rfl, hbefore, rfl⟩ | ⟨rfl, -, -⟩
  · exact .inl ⟨job', hbefore, hlive, hfl⟩
  · rw [wr.apply_status] at hfl
    cases hst : wr.newStatus with
    | none =>
        rw [hst] at hfl
        exact .inl ⟨job, hbefore, wr.apply_live now job hlive, hfl⟩
    | some status =>
        rw [hst] at hfl
        exact .inr ⟨status, by simp [Op.newStatus, hst], hfl⟩
  · rw [hins job' rfl] at hfl
    cases hfl

/-- An operation that sets another status takes the job out of flight. -/
theorem not_inFlight_of_set {stores : Stores} {threads : List Thread} {now : ℕ} {op : Op}
    {jobId : String} {status : JobStatus} (hset : op.newStatus = some (jobId, status))
    (hst : status.inFlight = false) : ¬ InFlight ⟨stores.run now op, threads⟩ jobId := by
  rintro ⟨job', hrow, -, hfl⟩
  rw [Stores.run_status_set hset hrow, hst] at hfl
  cases hfl

section Advance
variable {now i : ℕ} {t t' : Thread} {op : Op} {spawned : List Thread}

theorem entryState_kept {stores : Stores} {threads threads' : List Thread} {jobId : String}
    (h : ∀ e, op.newEntry ≠ some (jobId, e)) :
    entryState ⟨stores.run now op, threads'⟩ jobId = entryState ⟨stores, threads⟩ jobId := by
  simp only [entryState, Stores.run_queue_same h]

theorem bodyResult_other {body : ℕ} {x : Thread} (hx : w.threads[body]? = some x)
    (hne : body ≠ i) :
    (w.advance now i t' op spawned).bodyResult body = w.bodyResult body := by
  unfold World.bodyResult World.advance
  rw [getElem?_advance_other hne hx, hx]

theorem active_kept {jobId : String} (hstep : QueueStep w now i t t' op spawned)
    (h : entryState w jobId = some .active) :
    entryState (w.advance now i t' op spawned) jobId = some .active := by
  rw [← h]
  refine entryState_kept fun e he => ?_
  exact (hstep.entry jobId e he).1 h

/-- A thread other than the one that moved goes on covering a job whose entry stays. -/
theorem covers_other {k : ℕ} {x : Thread} {jobId : String} (h : Inv w)
    (ht : w.threads[i]? = some t) (hbody : BodyStep t t' op) (hki : k ≠ i)
    (hk : w.threads[k]? = some x)
    (hentry : entryState (w.advance now i t' op spawned) jobId = entryState w jobId)
    (hfl : InFlight (w.advance now i t' op spawned) jobId) (hc : covers w jobId x = true) :
    covers (w.advance now i t' op spawned) jobId x = true := by
  cases x with
  | process c => simpa only [covers, hentry] using hc
  | handler hd => exact hc
  | attempt a =>
      simp only [covers, Bool.and_eq_true, decide_eq_true_eq, Bool.not_eq_true'] at hc ⊢
      obtain ⟨⟨rfl, hpc⟩, hfin⟩ := hc
      refine ⟨⟨rfl, hpc⟩, ?_⟩
      cases hp : a.pc with
      | racing work body =>
          obtain ⟨b, hb, hjob, hrend⟩ := h.race k a work body hk hp
          by_cases hbi : body = i
          · subst hbi
            rw [ht] at hb
            cases hb
            obtain ⟨b', rfl, -, -, hdone⟩ := hbody b rfl
            simp only [finishing, hp, Bool.and_eq_false_iff, decide_eq_false_iff_not]
            by_cases hw : work.stage = .render
            · refine .inr ?_
              split
              · rename_i r hr
                obtain ⟨b'', hb'', hdone'⟩ := bodyResult_eq_some.mp hr
                rw [World.advance, getElem?_advance_same ht] at hb''
                cases hb''
                have hset := hdone r (hrend hw) hdone'
                rw [hjob] at hset
                exact (not_inFlight_of_set hset rfl hfl).elim
              · rfl
            · exact .inl hw
          · simpa only [finishing, hp, bodyResult_other hb hbi] using hfin
      | settled e =>
          cases e with
          | none => simp [finishing, hp] at hfin
          | some e => simp [finishing, hp]
      | addCompleted work result => simpa [finishing, hp] using hfin
      | _ => simp [finishing, hp]
  | _ => cases hc

theorem inv_advance (h : Inv w) (ht : w.threads[i]? = some t)
    (hstep : QueueStep w now i t t' op spawned) : Inv (w.advance now i t' op spawned) := by
  -- an attempt of the new pool was an attempt of the same job
  have hback : ∀ (k : ℕ) a', (w.advance now i t' op spawned).threads[k]? = some (.attempt a') →
      a'.pc ≠ .acked → ∃ a, w.threads[k]? = some (.attempt a) ∧ a.jobId = a'.jobId ∧
        a.pc ≠ .acked := by
    intro k a' hk hpc
    rcases getElem?_advance_cases hk with ⟨rfl, he⟩ | ⟨-, hk⟩ | ⟨-, hk⟩
    · obtain ⟨a, rfl, hjob, hacked⟩ := hstep.attempt a' he.symm
      exact ⟨a, ht, hjob, hacked⟩
    · exact ⟨a', hk, rfl, hpc⟩
    · exact (hstep.spawned_not a' (List.mem_of_getElem? hk)).elim
  refine ⟨?_, ?_, ?_, ?_⟩
  · intro k a' hk hpc
    obtain ⟨a, ha, hjob, hacked⟩ := hback k a' hk hpc
    rw [← hjob]
    exact active_kept hstep (h.active k a ha hacked)
  · intro k l a' b' hk hl hjob hpa hpb
    obtain ⟨a, ha, hja, hacka⟩ := hback k a' hk hpa
    obtain ⟨b, hb, hjb, hackb⟩ := hback l b' hl hpb
    exact h.unique k l a b ha hb (hja.trans (hjob.trans hjb.symm)) hacka hackb
  · intro k a' work body hk hpc
    rcases getElem?_advance_cases hk with ⟨rfl, he⟩ | ⟨-, hk⟩ | ⟨-, hk⟩
    · obtain ⟨rfl, b, rfl, hjob, hrend⟩ := hstep.race a' work body he.symm hpc
      refine ⟨b, ?_, hjob, hrend⟩
      unfold World.advance
      rw [List.getElem?_append_right (by simp)]
      simp
    · obtain ⟨b, hb, hjob, hrend⟩ := h.race k a' work body hk hpc
      by_cases hbi : body = i
      · subst hbi
        rw [ht] at hb
        cases hb
        obtain ⟨b', rfl, hjob', hrend', -⟩ := hstep.body b rfl
        exact ⟨b', getElem?_advance_same ht, hjob'.trans hjob, fun hw => hrend' (hrend hw)⟩
      · exact ⟨b, getElem?_advance_other hbi hb, hjob, hrend⟩
    · exact (hstep.spawned_not a' (List.mem_of_getElem? hk)).elim
  · intro jobId hfl
    have hself : ∀ {x : Thread}, t' = x →
        covers (w.advance now i t' op spawned) jobId x = true →
          Covered (w.advance now i t' op spawned) jobId := by
      rintro x rfl hc
      exact .inr ⟨i, t', getElem?_advance_same ht, hc⟩
    rcases inFlight_cases hstep.inserted hfl with hold | ⟨status, hset, hst⟩
    · have hold : InFlight w jobId := hold
      by_cases hentry : ∃ e, op.newEntry = some (jobId, e)
      · -- the step replaces the entry
        obtain ⟨e, he⟩ := hentry
        have hnew : entryState (w.advance now i t' op spawned) jobId = e.map Entry.state := by
          simp only [entryState, World.advance, Stores.run_queue_set he]
        rcases (hstep.entry jobId e he).2 with hq | ⟨rfl, c, rfl, rfl, hrev⟩
        · exact .inl (hnew ▸ hq)
        · exact hself rfl (by simp [covers, hnew, hrev])
      · have hsame : entryState (w.advance now i t' op spawned) jobId = entryState w jobId :=
          entryState_kept fun e he => hentry ⟨e, he⟩
        rcases h.covered jobId hold with hq | ⟨k, x, hk, hc⟩
        · exact .inl (hsame ▸ hq)
        · by_cases hki : k = i
          · subst hki
            rw [ht] at hk
            cases hk
            exact hstep.keeps jobId hc hold hfl
          · exact .inr ⟨k, x, getElem?_advance_other hki hk,
              covers_other h ht hstep.body hki hk hsame hfl hc⟩
    · rcases hstep.begins jobId status hset hst with ⟨c, job, rfl, rfl, hpc⟩ |
        ⟨a, work, rfl, rfl, hpc⟩
      · -- the call is before its look at the entry, whatever state that is in
        cases hq : entryState (w.advance now i (.process c) op spawned) c.jobId with
        | none => exact hself rfl (by simp [covers, hq, hpc, mayRevive])
        | some state =>
            cases state with
            | waiting => exact .inl (by rw [hq]; rfl)
            | delayed => exact .inl (by rw [hq]; rfl)
            | _ => exact hself rfl (by simp [covers, hq, hpc, mayRevive])
      · exact hself rfl (by simp [covers, hpc, finishing])

/-- A segment of a thread other than an attempt or a body that leaves the entries and sets
no in-flight status. -/
theorem QueueStep.plain (hat : ∀ a, t' ≠ .attempt a) (hbody : ∀ b, t ≠ .body b)
    (hentry : op.newEntry = none)
    (hstatus : ∀ jobId status, op.newStatus = some (jobId, status) → status.inFlight = false)
    (hins : ∀ job, op.inserted = some job → job.status = .CREATED)
    (hkeeps : ∀ jobId, covers w jobId t = true → InFlight w jobId →
      InFlight (w.advance now i t' op []) jobId → Covered (w.advance now i t' op []) jobId) :
    QueueStep w now i t t' op [] := by
  refine ⟨?_, by simp, ?_, ?_, ?_, ?_, hins, hkeeps⟩
  · intro a' ha
    exact (hat a' ha).elim
  · intro a' work body ha
    exact (hat a' ha).elim
  · exact .of_ne hbody
  · intro jobId e he
    rw [hentry] at he
    cases he
  · intro jobId status hset hst
    rw [hstatus jobId status hset] at hst
    cases hst

/-- A segment of a thread that covers nothing. -/
theorem QueueStep.inert (hat : ∀ a, t' ≠ .attempt a) (hbody : ∀ b, t ≠ .body b)
    (hcov : ∀ jobId, covers w jobId t = false) (hentry : op.newEntry = none)
    (hstatus : ∀ jobId status, op.newStatus = some (jobId, status) → status.inFlight = false)
    (hins : ∀ job, op.inserted = some job → job.status = .CREATED) :
    QueueStep w now i t t' op [] := by
  refine .plain hat hbody hentry hstatus hins ?_
  intro jobId hc
  rw [hcov jobId] at hc
  cases hc

theorem create_queue {c : CreateCall} {pc : CreatePc}
    (h : nextCreate cfg w.stores env c = some (pc, op)) :
    QueueStep w now i (.create c) (.create { c with pc := pc }) op [] := by
  rcases nextCreate_op h with rfl | rfl
  · exact .inert (by simp) (by simp) (by simp [covers]) rfl (by simp [Op.newStatus])
      (by simp [Op.inserted])
  · refine .inert (by simp) (by simp) (by simp [covers]) rfl (by simp [Op.newStatus]) ?_
    intro job hjob
    cases hjob
    rfl

theorem update_queue {c : UpdateCall} {pc : UpdatePc}
    (h : nextUpdate cfg w.stores env c = some (pc, op)) :
    QueueStep w now i (.update c) (.update { c with pc := pc }) op [] := by
  rcases nextUpdate_op h with rfl | ⟨wr, -, rfl, hw⟩
  · exact .inert (by simp) (by simp) (by simp [covers]) rfl (by simp [Op.newStatus])
      (by simp [Op.inserted])
  · rcases updateWrite_cases hw with ⟨label, rfl⟩ | ⟨label, rows, rfl⟩ <;>
      exact .inert (by simp) (by simp) (by simp [covers]) rfl
        (by simp [Op.newStatus, Write.newStatus]) (by simp [Op.inserted])

theorem remove_queue {c : RemoveCall} {pc : RemovePc}
    (h : nextRemove w.stores c = some (pc, op)) :
    QueueStep w now i (.remove c) (.remove { c with pc := pc }) op [] := by
  rcases nextRemove_op h with rfl | rfl | ⟨job, -, rfl⟩ <;>
    exact .inert (by simp) (by simp) (by simp [covers]) rfl
      (by simp [Op.newStatus, Write.newStatus]) (by simp [Op.inserted])

theorem handler_queue {hd : Handler} {pc : HandlerPc} (ht : w.threads[i]? = some (.handler hd))
    (h : nextHandler w.stores hd = some (pc, op)) :
    QueueStep w now i (.handler hd) (.handler { hd with pc := pc }) op [] := by
  rcases hd with ⟨jobId, userId, error, attemptsMade, pc₀⟩
  cases pc₀ with
  | marking mark =>
      cases mark with
      | rawById =>
          simp only [nextHandler] at h
          split at h
          · rename_i op' hmark
            obtain ⟨rfl, hmark | ⟨-, hfailed⟩⟩ := nextMark_rawById hmark
            · cases hmark
            · cases h
              refine .plain (by simp) (by simp) rfl (by simp [Op.newStatus])
                (by simp [Op.inserted]) ?_
              rintro j hc ⟨job, hjob, -, hfl⟩
              simp only [covers, Bool.and_eq_true, decide_eq_true_eq] at hc
              obtain ⟨rfl, -⟩ := hc
              rw [hfailed job hjob] at hfl
              cases hfl
          · rename_i mark op' hmark
            obtain ⟨rfl, hmark | ⟨hmark, -⟩⟩ := nextMark_rawById hmark
            · cases hmark
              cases h
              refine .plain (by simp) (by simp) rfl (by simp [Op.newStatus])
                (by simp [Op.inserted]) ?_
              intro j hc _ _
              exact .inr ⟨i, _, getElem?_advance_same ht, by simpa [covers, recording] using hc⟩
            · cases hmark
      | setStatus m =>
          cases h
          refine .plain (by simp) (by simp) rfl ?_ (by simp [Op.inserted]) ?_
          · intro j status hset
            cases hset
            rfl
          · intro j hc _ hfl
            simp only [covers, Bool.and_eq_true, decide_eq_true_eq] at hc
            obtain ⟨rfl, -⟩ := hc
            have hset : (Op.write jobId (.setStatus .FAILED (some (some m)))).newStatus =
                some (jobId, .FAILED) := rfl
            exact (not_inFlight_of_set hset rfl hfl).elim
      | addEvent m =>
          cases h
          exact .inert (by simp) (by simp) (by simp [covers, recording]) rfl
            (by simp [Op.newStatus]) (by simp [Op.inserted])
  | addDlq =>
      cases h
      exact .inert (by simp) (by simp) (by simp [covers, recording]) rfl
        (by simp [Op.newStatus]) (by simp [Op.inserted])
  | done => cases h

theorem body_queue {b : Body} {pc : BodyPc} (h : nextBody w.stores env b = some (pc, op)) :
    QueueStep w now i (.body b) (.body { b with pc := pc }) op [] := by
  have hop : op.newEntry = none ∧ op.inserted = none ∧
      (∀ jobId status, op.newStatus = some (jobId, status) → status.inFlight = false) ∧
      (rendering b.pc = true → rendering pc = true) ∧
      ∀ result, rendering b.pc = true → pc = .done (.ok result) →
        op.newStatus = some (b.jobId, .READY) := by
    rcases b with ⟨jobId, userId, pc₀⟩
    cases pc₀ with
    | getObjectStream key =>
        simp only [nextBody] at h
        split_ifs at h <;> cases h <;> simp [Op.newEntry, Op.inserted, Op.newStatus, rendering]
    | transcribe key =>
        simp only [nextBody] at h
        split_ifs at h <;> cases h <;> simp [Op.newEntry, Op.inserted, Op.newStatus, rendering]
    | setPdfReady view =>
        cases h
        refine ⟨rfl, rfl, ?_, fun _ => rfl, fun _ _ _ => rfl⟩
        intro j status hset
        cases hset
        rfl
    | done result => cases h
    | _ =>
        cases h
        simp [Op.newEntry, Op.inserted, Op.newStatus, Write.newStatus, rendering]
  obtain ⟨hentry, hins, hstatus, hrend, hdone⟩ := hop
  refine ⟨by simp, by simp, by simp, ?_, ?_, ?_, ?_, ?_⟩
  · intro b₀ hb
    cases hb
    exact ⟨_, rfl, rfl, hrend, hdone⟩
  · intro jobId e he
    rw [hentry] at he
    cases he
  · intro jobId status hset hst
    rw [hstatus jobId status hset] at hst
    cases hst
  · intro job hjob
    rw [hins] at hjob
    cases hjob
  · intro jobId hc
    cases hc

/-- A call that stays on the way to its entry. -/
theorem process_move {userId jobId : String} {pc pc' : ProcessPc}
    (ht : w.threads[i]? = some (.process ⟨userId, jobId, pc⟩))
    (hrev : mayRevive (entryState w jobId) pc = true →
      mayRevive (entryState w jobId) pc' = true) :
    QueueStep w now i (.process ⟨userId, jobId, pc⟩) (.process ⟨userId, jobId, pc'⟩) .none [] := by
  refine .plain (by simp) (by simp) rfl (by simp [Op.newStatus]) (by simp [Op.inserted]) ?_
  intro j hc _ _
  simp only [covers, Bool.and_eq_true, decide_eq_true_eq] at hc
  obtain ⟨rfl, hc⟩ := hc
  have hsame : entryState (w.advance now i (.process ⟨userId, jobId, pc'⟩) .none []) jobId =
      entryState w jobId := rfl
  exact .inr ⟨i, _, getElem?_advance_same ht, by simp [covers, hsame, hrev hc]⟩

theorem process_queue {c : ProcessCall} {pc : ProcessPc} (hinv : Inv w)
    (ht : w.threads[i]? = some (.process c)) (hg : Guard w (.step i env))
    (h : nextProcess cfg w.stores c = some (pc, op)) :
    QueueStep w now i (.process c) (.process { c with pc := pc }) op [] := by
  rcases c with ⟨userId, jobId, pc₀⟩
  cases pc₀ with
  | findScoped =>
      have hop : op = .none := by
        simp only [nextProcess] at h
        split at h
        · cases h
          rfl
        · split_ifs at h <;> cases h <;> rfl
      subst hop
      exact process_move ht (by simp [mayRevive])
  | objectExists job =>
      simp only [nextProcess] at h
      split_ifs at h <;> cases h <;> exact process_move ht (by simp [mayRevive])
  | setStatus job =>
      cases h
      refine ⟨by simp, by simp, by simp, .of_ne (by simp), by simp [Op.newEntry], ?_,
        by simp [Op.inserted], ?_⟩
      · intro j status hset _
        cases hset
        exact .inl ⟨_, job, rfl, rfl, rfl⟩
      · intro j hc
        simp [covers, mayRevive] at hc
  | getJob job =>
      simp only [nextProcess] at h
      split at h
      · rename_i hq
        cases h
        exact process_move ht (by simp [entryState, hq, mayRevive])
      · rename_i entry hq
        cases h
        refine process_move ht ?_
        rcases entry with ⟨state, user, made⟩
        cases state <;> simp [entryState, hq, mayRevive]
  | getState job =>
      simp only [nextProcess] at h
      split at h
      · rename_i hq
        cases h
        exact process_move ht (by simp [entryState, hq, mayRevive])
      · rename_i hq
        cases h
        exact process_move ht (by simp [entryState, hq, mayRevive])
      · rename_i hcompleted hfailed
        cases h
        have hskip : skips (entryState w jobId) = true := by
          unfold skips
          split
          · exact (hcompleted ‹_›).elim
          · exact (hfailed ‹_›).elim
          · rfl
        refine .plain (by simp) (by simp) rfl (by simp [Op.newStatus]) (by simp [Op.inserted]) ?_
        intro j hc hold hfl
        simp only [covers, Bool.and_eq_true, decide_eq_true_eq] at hc
        obtain ⟨rfl, -⟩ := hc
        have hcov := hg.2
        simp only [skipsCovered, ht, hskip, inFlight_iff.mpr hold, Bool.not_true, Bool.false_or,
          Bool.or_eq_true, List.any_eq_true] at hcov
        rcases hcov with hq | ⟨x, hx, hc⟩
        · exact .inl hq
        · obtain ⟨k, hki, hk⟩ := List.mem_eraseIdx_iff_getElem?.mp hx
          exact .inr ⟨k, x, getElem?_advance_other hki hk,
            covers_other hinv ht (.of_ne (by simp)) hki hk rfl hfl hc⟩
  | remove job =>
      simp only [nextProcess] at h
      split at h
      · rename_i hq
        cases h
        exact process_move ht (by simp [entryState, hq, mayRevive])
      · rename_i hq
        cases h
        refine ⟨by simp, by simp, by simp, .of_ne (by simp), ?_, by simp [Op.newStatus],
          by simp [Op.inserted], ?_⟩
        · intro j e he
          cases he
          exact ⟨hq, .inr ⟨rfl, _, rfl, rfl, rfl⟩⟩
        · intro j hc _ _
          simp only [covers, Bool.and_eq_true, decide_eq_true_eq] at hc
          obtain ⟨rfl, -⟩ := hc
          refine .inr ⟨i, _, getElem?_advance_same ht, ?_⟩
          simp [covers, entryState, World.advance, Stores.run, mayRevive]
  | add job =>
      simp only [nextProcess] at h
      split at h
      · rename_i hq
        cases h
        refine ⟨by simp, by simp, by simp, .of_ne (by simp), ?_, by simp [Op.newStatus],
          by simp [Op.inserted], ?_⟩
        · intro j e he
          cases he
          exact ⟨by simp [entryState, hq], .inl rfl⟩
        · intro j hc _ _
          simp only [covers, Bool.and_eq_true, decide_eq_true_eq] at hc
          obtain ⟨rfl, -⟩ := hc
          exact .inl (by simp [entryState, World.advance, Stores.run, queued])
      · rename_i entry hq
        cases h
        refine process_move ht ?_
        rcases entry with ⟨state, user, made⟩
        cases state <;> simp [entryState, hq, mayRevive]
  | findAgain job =>
      cases h
      exact process_move ht (by simp [mayRevive])
  | returned dto => cases h
  | threw error => cases h

/-- A segment of an attempt that sets no in-flight status and goes on, if it covered its
job, to cover it. -/
theorem attempt_move {a : Attempt} {pc : AttemptPc} (ht : w.threads[i]? = some (.attempt a))
    (hacked : a.pc ≠ .acked) (hpc : pc ≠ .acked) (hrace : ∀ work body, pc ≠ .racing work body)
    (hentry : op.newEntry = none) (hins : op.inserted = none)
    (hstatus : ∀ jobId status, op.newStatus = some (jobId, status) → status.inFlight = false)
    (hfin : InFlight (w.advance now i (.attempt { a with pc := pc }) op []) a.jobId →
      InFlight w a.jobId → finishing w a = false →
        finishing (w.advance now i (.attempt { a with pc := pc }) op []) { a with pc := pc } =
          false) :
    QueueStep w now i (.attempt a) (.attempt { a with pc := pc }) op [] := by
  refine ⟨?_, by simp, ?_, .of_ne (by simp), ?_, ?_, ?_, ?_⟩
  · intro a' ha
    cases ha
    exact ⟨a, rfl, rfl, hacked⟩
  · intro a' work body ha hr
    cases ha
    exact (hrace work body hr).elim
  · intro jobId e he
    rw [hentry] at he
    cases he
  · intro jobId status hset hst
    rw [hstatus jobId status hset] at hst
    cases hst
  · intro job hjob
    rw [hins] at hjob
    cases hjob
  · intro j hc hold hfl
    simp only [covers, Bool.and_eq_true, decide_eq_true_eq, Bool.not_eq_true'] at hc
    obtain ⟨⟨rfl, -⟩, hnot⟩ := hc
    refine .inr ⟨i, _, getElem?_advance_same ht, ?_⟩
    simp only [covers, Bool.and_eq_true, decide_eq_true_eq, Bool.not_eq_true']
    exact ⟨⟨trivial, hpc⟩, hfin hfl hold hnot⟩

/-- Where an attempt goes after its read: into a stage, or it settles. -/
theorem afterFindById_cases (jobId userId : String) (row : Option Job) :
    (∃ work, afterFindById jobId userId row = .setStatus work) ∨
      (∃ e, afterFindById jobId userId row = .settled (some e)) ∨
        (afterFindById jobId userId row = .settled none ∧
          ∀ job, row = some job → job.deletedAt.isSome = true ∨ job.status = .READY) := by
  have hcompile : ∀ job transcript, ∃ work, compileStage job transcript = .setStatus work := by
    intro job transcript
    unfold compileStage
    split_ifs <;> exact ⟨_, rfl⟩
  unfold afterFindById
  cases row with
  | none => exact .inr (.inr ⟨rfl, by simp⟩)
  | some job =>
      dsimp only
      split_ifs with hd hu hr
      · exact .inr (.inr ⟨rfl, by simpa using .inl hd⟩)
      · exact .inr (.inl ⟨_, rfl⟩)
      · exact .inr (.inr ⟨rfl, by simpa using .inr hr⟩)
      · split
        · exact .inr (.inl ⟨_, rfl⟩)
        · unfold transcribeStage
          split
          · exact .inl ⟨_, rfl⟩
          · split_ifs
            · exact .inl ⟨_, rfl⟩
            · exact .inl (hcompile _ _)

/-- The next program point after a completed stage that is not the last. -/
theorem afterStage_cases (work : Work) (result : StageResult) :
    (∃ work', afterStage work result = .setStatus work') ∨
      (afterStage work result = .settled none ∧ work.stage = .render) := by
  cases work with
  | transcribe job =>
      simp only [afterStage, compileStage]
      split_ifs <;> exact .inl ⟨_, rfl⟩
  | compile job transcript => exact .inl ⟨_, rfl⟩
  | render label sections => exact .inr ⟨rfl, rfl⟩

/-- An error leads to `markFailed` or settles the attempt with it. -/
theorem afterThrow_cases (e : Err) :
    afterThrow e = .marking e .rawById ∨ afterThrow e = .settled (some e) := by
  unfold afterThrow
  split_ifs
  · exact .inl rfl
  · exact .inr rfl

/-- An attempt that fails, with an operation that sets no status. -/
theorem attempt_fails {a : Attempt} {e : Err} (ht : w.threads[i]? = some (.attempt a))
    (hacked : a.pc ≠ .acked) (hentry : op.newEntry = none) (hins : op.inserted = none)
    (hstatus : op.newStatus = none) :
    QueueStep w now i (.attempt a) (.attempt { a with pc := afterThrow e }) op [] := by
  have hnone : ∀ jobId status, op.newStatus = some (jobId, status) → status.inFlight = false := by
    simp [hstatus]
  rcases afterThrow_cases e with he | he <;> rw [he]
  · exact attempt_move ht hacked (by simp) (by simp) hentry hins hnone (by simp [finishing])
  · exact attempt_move ht hacked (by simp) (by simp) hentry hins hnone (by simp [finishing])

/-- Marking a job failed leaves the queue, and takes no job into flight. -/
theorem nextMark_quiet {s : Stores} {jobId message : String} {mark : MarkPc}
    {mark' : Option MarkPc} (h : nextMark s jobId message mark = (mark', op)) :
    op.newEntry = none ∧ op.inserted = none ∧
      ∀ j status, op.newStatus = some (j, status) → status.inFlight = false := by
  rcases nextMark_op h with rfl | ⟨m, -, rfl⟩ | ⟨event, -, rfl⟩
  · simp [Op.newEntry, Op.inserted, Op.newStatus]
  · refine ⟨rfl, rfl, ?_⟩
    intro j status hset
    cases hset
    rfl
  · simp [Op.newEntry, Op.inserted, Op.newStatus]

theorem attempt_queue {a : Attempt} {pc : AttemptPc} (ht : w.threads[i]? = some (.attempt a))
    (h : nextAttempt w.stores a w.threads.length w.bodyResult = some (pc, op)) :
    QueueStep w now i (.attempt a) (.attempt { a with pc := pc }) op (Attempt.spawn a env.now) := by
  rcases a with ⟨jobId, userId, pc₀⟩
  cases pc₀ with
  | findById =>
      cases h
      rcases afterFindById_cases jobId userId (w.stores.findById jobId) with
        ⟨work, he⟩ | ⟨e, he⟩ | ⟨he, hnone⟩ <;> rw [he]
      · exact attempt_move ht (by simp) (by simp) (by simp) rfl rfl (by simp [Op.newStatus])
          (by simp [finishing])
      · exact attempt_move ht (by simp) (by simp) (by simp) rfl rfl (by simp [Op.newStatus])
          (by simp [finishing])
      · refine attempt_move ht (by simp) (by simp) (by simp) rfl rfl (by simp [Op.newStatus]) ?_
        rintro - ⟨job, hjob, hlive, hfl⟩
        rcases hnone job hjob with hd | hr
        · simp [hlive] at hd
        · simp [hr, JobStatus.inFlight] at hfl
  | setStatus work =>
      cases h
      refine ⟨?_, by simp [Attempt.spawn], ?_, .of_ne (by simp), by simp [Op.newEntry], ?_,
        by simp [Op.inserted], ?_⟩
      · intro a' ha
        cases ha
        exact ⟨_, rfl, rfl, by simp⟩
      · intro a' work' body ha hr
        cases ha
        cases hr
      · intro j status hset _
        cases hset
        exact .inr ⟨_, work, rfl, rfl, rfl⟩
      · intro j hc _ _
        simp only [covers, Bool.and_eq_true, decide_eq_true_eq] at hc
        obtain ⟨⟨rfl, -⟩, -⟩ := hc
        exact .inr ⟨i, _, getElem?_advance_same ht, by simp [covers, finishing]⟩
  | addStarted work =>
      cases h
      refine ⟨?_, by simp [Attempt.spawn], ?_, .of_ne (by simp), by simp [Op.newEntry],
        by simp [Op.newStatus], by simp [Op.inserted], ?_⟩
      · intro a' ha
        cases ha
        exact ⟨_, rfl, rfl, by simp⟩
      · intro a' work' body ha hr
        cases ha
        cases hr
        refine ⟨rfl, _, rfl, rfl, ?_⟩
        cases work <;> simp [Work.stage, startBody, rendering]
      · intro j hc _ _
        simp only [covers, Bool.and_eq_true, decide_eq_true_eq] at hc
        obtain ⟨⟨rfl, -⟩, -⟩ := hc
        refine .inr ⟨i, _, getElem?_advance_same ht, ?_⟩
        cases work <;> simp [covers, finishing, World.bodyResult, World.advance, Attempt.spawn,
          startBody, Work.stage]
  | racing work body =>
      simp only [nextAttempt] at h
      split at h
      · cases h
      · rename_i result hres
        cases h
        refine attempt_move ht (by simp) (by simp) (by simp) rfl rfl (by simp [Op.newStatus]) ?_
        intro _ _ hfin
        simpa [finishing, hres] using hfin
      · cases h
        exact attempt_move ht (by simp) (by simp) (by simp) rfl rfl (by simp [Op.newStatus])
          (by simp [finishing])
  | addCompleted work result =>
      cases h
      rcases afterStage_cases work result with ⟨work', he⟩ | ⟨he, hrender⟩ <;> rw [he]
      · exact attempt_move ht (by simp) (by simp) (by simp) rfl rfl (by simp [Op.newStatus])
          (by simp [finishing])
      · exact attempt_move ht (by simp) (by simp) (by simp) rfl rfl (by simp [Op.newStatus])
          (by simp [finishing, hrender])
  | addFailed work e =>
      cases h
      exact attempt_fails ht (by simp) rfl rfl rfl
  | marking e mark =>
      simp only [nextAttempt] at h
      split at h
      · rename_i op' hmark
        cases h
        obtain ⟨hentry, hins, hstatus⟩ := nextMark_quiet hmark
        exact attempt_move ht (by simp) (by simp [afterMarking]) (by simp [afterMarking]) hentry
          hins hstatus (by simp [finishing, afterMarking])
      · rename_i mark' op' hmark
        cases h
        obtain ⟨hentry, hins, hstatus⟩ := nextMark_quiet hmark
        exact attempt_move ht (by simp) (by simp) (by simp) hentry hins hstatus
          (by simp [finishing])
  | settled e => cases h
  | acked => cases h

theorem next_queue (hinv : Inv w) (ht : w.threads[i]? = some t) (hg : Guard w (.step i env))
    (h : next cfg w env t = some (t', op, spawned)) :
    QueueStep w now i t t' op spawned := by
  cases next_segment h with
  | create c pc op hn =>
      exact create_queue hn
  | process c pc op hn =>
      exact process_queue hinv ht hg hn
  | update c pc op hn =>
      exact update_queue hn
  | remove c pc op hn =>
      exact remove_queue hn
  | attempt a pc op hn =>
      exact attempt_queue ht hn
  | body b pc op hn =>
      exact body_queue hn
  | handler hd pc op hn =>
      exact handler_queue ht hn

/-- A provider call that fails ends its body. -/
theorem provider_fails {e : Err} (hp : providerCall t = true) (h : throwing e t = some t') :
    QueueStep w now i t t' .none [] := by
  cases t with
  | body b =>
      obtain ⟨pc, hpc, rfl⟩ := Option.map_eq_some_iff.mp h
      have hpc' : pc = .done (.error e) := by
        unfold Body.throwing at hpc
        split at hpc <;> cases hpc
        rfl
      subst hpc'
      refine ⟨by simp, by simp, by simp, ?_, by simp [Op.newEntry], by simp [Op.newStatus],
        by simp [Op.inserted], ?_⟩
      · intro b₀ hb
        cases hb
        exact ⟨_, rfl, rfl, fun _ => rfl, by simp⟩
      · intro j hc
        cases hc
  | _ => cases hp

theorem provider_op (hp : providerCall t = true)
    (h : next cfg w env t = some (t', op, spawned)) : op = .none := by
  cases t with
  | body b =>
      obtain ⟨⟨pc, op'⟩, hn, he⟩ := Option.map_eq_some_iff.mp h
      cases he
      rcases b with ⟨jobId, userId, pc₀⟩
      cases pc₀ with
      | transcribe key =>
          simp only [nextBody] at hn
          split_ifs at hn <;> cases hn <;> rfl
      | compile label transcript =>
          cases hn
          rfl
      | render view =>
          cases hn
          rfl
      | _ => cases hp
  | _ => cases hp

theorem timingOut_queue (ht : w.threads[i]? = some t) (h : timingOut cfg t = some t') :
    QueueStep w now i t t' .none [] := by
  cases t with
  | attempt a =>
      rcases a with ⟨jobId, userId, pc₀⟩
      cases pc₀ with
      | racing work body =>
          cases h
          exact attempt_move ht (by simp) (by simp) (by simp) rfl rfl (by simp [Op.newStatus])
            (by simp [finishing])
      | _ => cases h
  | _ => cases h

end Advance

/-- A thread goes on covering a job when threads are started and the entry still lets it. -/
theorem covers_append {stores : Stores} {new : List Thread} {k : ℕ} {x : Thread}
    {jobId : String} (h : Inv w) (hk : w.threads[k]? = some x) (hc : covers w jobId x = true)
    (hrev : ∀ pc, mayRevive (entryState w jobId) pc = true →
      mayRevive (entryState ⟨stores, w.threads ++ new⟩ jobId) pc = true) :
    covers ⟨stores, w.threads ++ new⟩ jobId x = true := by
  cases x with
  | process c =>
      simp only [covers, Bool.and_eq_true, decide_eq_true_eq] at hc ⊢
      exact ⟨hc.1, hrev _ hc.2⟩
  | handler hd => exact hc
  | attempt a =>
      have hfin : finishing ⟨stores, w.threads ++ new⟩ a = finishing w a := by
        refine finishing_congr fun work body hp => ?_
        obtain ⟨b, hb, -⟩ := h.race k a work body hk hp
        unfold World.bodyResult
        rw [List.getElem?_append_left (lt_of_getElem? hb)]
      simpa only [covers, hfin] using hc
  | _ => cases hc

/-- Steps outside the existing threads: entries may move and threads may start. -/
theorem inv_append {stores : Stores} {new : List Thread} (h : Inv w)
    (hjobs : stores.jobs = w.stores.jobs)
    (hactive : ∀ jobId, entryState w jobId = some .active →
      entryState ⟨stores, w.threads ++ new⟩ jobId = some .active)
    (hnew : ∀ a, Thread.attempt a ∈ new → new = [.attempt a] ∧ a.pc = .findById ∧
      entryState w a.jobId ≠ some .active ∧
        entryState ⟨stores, w.threads ++ new⟩ a.jobId = some .active)
    (hcov : ∀ jobId, InFlight w jobId → Covered ⟨stores, w.threads ++ new⟩ jobId) :
    Inv ⟨stores, w.threads ++ new⟩ := by
  have hcases : ∀ {k : ℕ} {x : Thread}, (w.threads ++ new)[k]? = some x →
      w.threads[k]? = some x ∨ (w.threads.length ≤ k ∧ new[k - w.threads.length]? = some x) := by
    intro k x hk
    by_cases hlt : k < w.threads.length
    · exact .inl (by rwa [List.getElem?_append_left hlt] at hk)
    · rw [List.getElem?_append_right (Nat.le_of_not_lt hlt)] at hk
      exact .inr ⟨Nat.le_of_not_lt hlt, hk⟩
  refine ⟨?_, ?_, ?_, ?_⟩
  · intro k a hk hpc
    rcases hcases hk with hk | ⟨-, hk⟩
    · exact hactive _ (h.active k a hk hpc)
    · exact (hnew a (List.mem_of_getElem? hk)).2.2.2
  · intro k l a b hk hl hjob hpa hpb
    rcases hcases hk with hk | ⟨hlek, hk⟩ <;> rcases hcases hl with hl | ⟨hlel, hl⟩
    · exact h.unique k l a b hk hl hjob hpa hpb
    · exact ((hnew b (List.mem_of_getElem? hl)).2.2.1 (hjob ▸ h.active k a hk hpa)).elim
    · exact ((hnew a (List.mem_of_getElem? hk)).2.2.1 (hjob ▸ h.active l b hl hpb)).elim
    · have hone := (hnew a (List.mem_of_getElem? hk)).1
      rw [hone] at hk hl
      have hk0 := lt_of_getElem? hk
      have hl0 := lt_of_getElem? hl
      simp only [List.length_singleton] at hk0 hl0
      omega
  · intro k a work body hk hpc
    rcases hcases hk with hk | ⟨-, hk⟩
    · obtain ⟨b, hb, hjob, hrend⟩ := h.race k a work body hk hpc
      refine ⟨b, ?_, hjob, hrend⟩
      exact (List.getElem?_append_left (lt_of_getElem? hb)).trans hb
    · rw [(hnew a (List.mem_of_getElem? hk)).2.1] at hpc
      cases hpc
  · rintro jobId ⟨job, hrow, hlive, hfl⟩
    refine hcov jobId ⟨job, ?_, hlive, hfl⟩
    simpa only [Stores.findById, hjobs] using hrow

/-- A step that leaves the entry of a covered job, or only lets more calls revive it. -/
theorem covered_append {stores : Stores} {new : List Thread} {jobId : String} (h : Inv w)
    (hfl : InFlight w jobId)
    (hq : queued (entryState w jobId) = true →
      queued (entryState ⟨stores, w.threads ++ new⟩ jobId) = true)
    (hrev : ∀ pc, mayRevive (entryState w jobId) pc = true →
      mayRevive (entryState ⟨stores, w.threads ++ new⟩ jobId) pc = true) :
    Covered ⟨stores, w.threads ++ new⟩ jobId := by
  rcases h.covered jobId hfl with hw | ⟨k, x, hk, hc⟩
  · exact .inl (hq hw)
  · exact .inr ⟨k, x, (List.getElem?_append_left (lt_of_getElem? hk)).trans hk,
      covers_append h hk hc hrev⟩

theorem entryState_set {threads : List Thread} {stores : Stores} {jobId j : String}
    {entry : Option Entry} :
    entryState ⟨stores.run 0 (.setEntry jobId entry), threads⟩ j =
      if j = jobId then entry.map Entry.state else entryState ⟨stores, threads⟩ j := by
  simp only [entryState, Stores.run, Function.update_apply]
  split_ifs <;> rfl

theorem inv_picked {jobId : String} {entry : Entry} (h : Inv w)
    (hq : w.stores.queue jobId = some entry) (hwait : entry.state = .waiting) :
    Inv ⟨w.stores.run 0 (.setEntry jobId (some { entry with state := .active })),
      w.threads ++ [.attempt ⟨jobId, entry.userId, .findById⟩]⟩ := by
  have hstate : entryState w jobId = some .waiting := by simp [entryState, hq, hwait]
  refine inv_append h rfl ?_ ?_ ?_
  · intro j hj
    rw [entryState_set, if_neg]
    · exact hj
    · rintro rfl
      rw [hstate] at hj
      cases hj
  · intro a ha
    cases List.mem_singleton.mp ha
    refine ⟨rfl, rfl, ?_, ?_⟩
    · simp [hstate]
    · simp [entryState_set]
  · intro j hfl
    by_cases hj : j = jobId
    · subst hj
      refine .inr ⟨w.threads.length, _, List.getElem?_concat_length, ?_⟩
      simp [covers, finishing]
    · refine covered_append h hfl ?_ ?_ <;> rw [entryState_set, if_neg hj]
      · exact id
      · exact fun _ => id

theorem inv_promoted {jobId : String} {entry : Entry} (h : Inv w)
    (hq : w.stores.queue jobId = some entry) (hdelay : entry.state = .delayed) :
    Inv ⟨w.stores.run 0 (.setEntry jobId (some { entry with state := .waiting })),
      w.threads ++ []⟩ := by
  have hstate : entryState w jobId = some .delayed := by simp [entryState, hq, hdelay]
  refine inv_append h rfl ?_ (by simp) ?_
  · intro j hj
    rw [entryState_set, if_neg]
    · exact hj
    · rintro rfl
      rw [hstate] at hj
      cases hj
  · intro j hfl
    by_cases hj : j = jobId
    · subst hj
      exact .inl (by simp [entryState_set, queued])
    · refine covered_append h hfl ?_ ?_ <;> rw [entryState_set, if_neg hj]
      · exact id
      · exact fun _ => id

theorem inv_purged {jobId : String} {entry : Entry} (h : Inv w)
    (hq : w.stores.queue jobId = some entry) (hdone : entry.state = .completed) :
    Inv ⟨w.stores.run 0 (.setEntry jobId none), w.threads ++ []⟩ := by
  have hstate : entryState w jobId = some .completed := by simp [entryState, hq, hdone]
  refine inv_append h rfl ?_ (by simp) ?_
  · intro j hj
    rw [entryState_set, if_neg]
    · exact hj
    · rintro rfl
      rw [hstate] at hj
      cases hj
  · intro j hfl
    refine covered_append h hfl ?_ ?_ <;> rw [entryState_set]
    · split_ifs with hj
      · subst hj
        simp [hstate, queued]
      · exact id
    · intro pc
      split_ifs with hj
      · subst hj
        rw [hstate]
        cases pc <;> simp [mayRevive]
      · exact id

section Acked
variable {i : ℕ} {a : Attempt} {e : Option Err} {entry : Entry}

/-- What BullMQ makes of a settled attempt and of its entry. -/
theorem entryState_acked {j : String} :
    entryState (w.advance 0 i (.attempt { a with pc := .acked })
      (.setEntry a.jobId (some (settle cfg a.jobId entry e).1)) (settle cfg a.jobId entry e).2) j =
      if j = a.jobId then some (settle cfg a.jobId entry e).1.state else entryState w j := by
  unfold World.advance
  rw [entryState_set]
  rfl

/-- The attempts that go on after a report are old ones of other jobs. -/
theorem acked_back {k : ℕ} {b : Attempt} (h : Inv w) (ht : w.threads[i]? = some (.attempt a))
    (hpc : a.pc = .settled e)
    (hk : (w.threads.set i (.attempt { a with pc := .acked }) ++
      (settle cfg a.jobId entry e).2)[k]? = some (.attempt b)) (hb : b.pc ≠ .acked) :
    w.threads[k]? = some (.attempt b) ∧ b.jobId ≠ a.jobId := by
  have hacked : a.pc ≠ .acked := by simp [hpc]
  rcases getElem?_advance_cases hk with ⟨rfl, he⟩ | ⟨hki, hk⟩ | ⟨-, hk⟩
  · cases he
    exact (hb rfl).elim
  · exact ⟨hk, fun hjob => hki (h.unique k i b a hk ht hjob hb hacked)⟩
  · obtain ⟨err, -, he⟩ := settle_handler (List.mem_of_getElem? hk)
    cases he

/-- A job whose attempt ends well was covered by another thread, which goes on covering it. -/
theorem succeeded_covered (h : Inv w) (ht : w.threads[i]? = some (.attempt a))
    (hpc : a.pc = .settled none) (hfl : InFlight w a.jobId) :
    Covered (w.advance 0 i (.attempt { a with pc := .acked })
      (.setEntry a.jobId (some (settle cfg a.jobId entry none).1))
      (settle cfg a.jobId entry none).2) a.jobId := by
  have hacked : a.pc ≠ .acked := by simp [hpc]
  rcases h.covered _ hfl with hq | ⟨k, x, hk, hc⟩
  · rw [h.active i a ht hacked] at hq
    cases hq
  · have hki : k ≠ i := by
      rintro rfl
      rw [ht] at hk
      cases hk
      simp [covers, finishing, hpc] at hc
    refine .inr ⟨k, x, getElem?_advance_other hki hk, ?_⟩
    cases x with
    | process c =>
        simp only [covers, Bool.and_eq_true, decide_eq_true_eq] at hc ⊢
        refine ⟨hc.1, ?_⟩
        rw [h.active i a ht hacked] at hc
        rw [entryState_acked, if_pos rfl]
        revert hc
        cases c.pc <;> simp [mayRevive, settle]
    | handler hd => exact hc
    | attempt b =>
        simp only [covers, Bool.and_eq_true, decide_eq_true_eq] at hc
        exact (hki (h.unique k i b a hk ht hc.1.1 hc.1.2 hacked)).elim
    | _ => cases hc

/-- A failure leaves a delayed entry, or a handler that is about to record it. -/
theorem failed_covered {err : Err} :
    Covered (w.advance 0 i (.attempt { a with pc := .acked })
      (.setEntry a.jobId (some (settle cfg a.jobId entry (some err)).1))
      (settle cfg a.jobId entry (some err)).2) a.jobId := by
  by_cases hterm : (err.unrecoverable ||
      decide (cfg.jobMaxAttempts ≤ entry.attemptsMade + 1)) = true
  · refine .inr ⟨w.threads.length, .handler ⟨a.jobId, entry.userId, err,
      entry.attemptsMade + 1, .marking .rawById⟩, ?_, by simp [covers, recording]⟩
    unfold World.advance
    rw [List.getElem?_append_right (by simp)]
    simp [settle, hterm]
  · refine .inl ?_
    rw [entryState_acked, if_pos rfl]
    simp [settle, hterm, queued]

/-- BullMQ reports a settled attempt: the entry leaves `active`, and it was the only
attempt of its job. -/
theorem inv_acked (h : Inv w) (ht : w.threads[i]? = some (.attempt a)) (hpc : a.pc = .settled e) :
    Inv (w.advance 0 i (.attempt { a with pc := .acked })
      (.setEntry a.jobId (some (settle cfg a.jobId entry e).1))
      (settle cfg a.jobId entry e).2) := by
  refine ⟨?_, ?_, ?_, ?_⟩
  · intro k b hk hb
    obtain ⟨hk, hne⟩ := acked_back h ht hpc hk hb
    rw [entryState_acked, if_neg hne]
    exact h.active k b hk hb
  · intro k l b c hk hl hjob hpb hpc'
    exact h.unique k l b c (acked_back h ht hpc hk hpb).1 (acked_back h ht hpc hl hpc').1 hjob hpb
      hpc'
  · intro k b work body hk hr
    obtain ⟨hk, -⟩ := acked_back h ht hpc hk (by simp [hr])
    obtain ⟨x, hx, hjob, hrend⟩ := h.race k b work body hk hr
    refine ⟨x, getElem?_advance_other ?_ hx, hjob, hrend⟩
    rintro rfl
    rw [ht] at hx
    cases hx
  · rintro j ⟨job, hrow, hlive, hfl⟩
    have hold : InFlight w j := ⟨job, hrow, hlive, hfl⟩
    by_cases hj : j = a.jobId
    · subst hj
      cases e with
      | none => exact succeeded_covered h ht hpc hold
      | some err => exact failed_covered
    · have hsame : entryState (w.advance 0 i (.attempt { a with pc := .acked })
          (.setEntry a.jobId (some (settle cfg a.jobId entry e).1))
          (settle cfg a.jobId entry e).2) j = entryState w j := by
        rw [entryState_acked, if_neg hj]
      rcases h.covered j hold with hq | ⟨k, x, hk, hc⟩
      · exact .inl (hsame ▸ hq)
      · have hki : k ≠ i := by
          rintro rfl
          rw [ht] at hk
          cases hk
          simp only [covers, Bool.and_eq_true, decide_eq_true_eq] at hc
          exact hj hc.1.1.symm
        exact .inr ⟨k, x, getElem?_advance_other hki hk,
          covers_other h ht (.of_ne (by simp)) hki hk hsame ⟨job, hrow, hlive, hfl⟩ hc⟩

end Acked

theorem inv_step {a : Action} {w' : World} (h : Inv w) (hg : Guard w a)
    (hs : step cfg w a = some w') : Inv w' := by
  cases step_effect hs with
  | called request =>
      refine inv_append h rfl (fun _ => id) ?_ ?_
      · intro a ha
        have hne := List.mem_singleton.mp ha
        cases request <;> cases hne
      · intro j hfl
        exact covered_append h hfl id fun _ => id
  | stepped i env t t' op spawned thread next =>
      exact inv_advance h thread (next_queue h thread hg next)
  | threw i env e t t' thread throws =>
      have hp : providerCall t = true := by simpa [faultFree, thread] using hg.1
      exact inv_advance h thread (provider_fails hp throws)
  | lost i env e t t' t₁ op spawned thread throws next =>
      have hp : providerCall t = true := by simpa [faultFree, thread] using hg.1
      rw [provider_op hp next]
      exact inv_advance h thread (provider_fails hp throws)
  | timedOut i t t' thread out => exact inv_advance h thread (timingOut_queue thread out)
  | acked i a e entry thread pc queued => exact inv_acked h thread pc
  | picked jobId entry queued waiting => exact inv_picked h queued waiting
  | promoted jobId entry queued delayed => exact inv_promoted h queued delayed
  | purged jobId entry queued completed => exact inv_purged h queued completed
  | uploaded userId jobId bytes =>
      have happ : Inv ⟨w.stores.run 0 (.putObject (audioKey userId jobId) (.audio bytes)),
          w.threads ++ []⟩ :=
        inv_append h rfl (fun _ => id) (by simp) fun j hfl => covered_append h hfl id fun _ => id
      simpa only [List.append_nil] using happ

/-- In every run that meets the guard, a live job with an in-flight status has, in every
state with no call or worker step in progress, an entry that is waiting, delayed or
active. -/
theorem no_job_stranded (cfg : ServerConfig) {w : World} {jobId : String} {job : Job}
    (hw : Run (step cfg) Guard World.empty w) (hidle : ∀ t ∈ w.threads, idle t = true)
    (hjob : w.stores.findById jobId = some job) (hlive : job.deletedAt = none)
    (hfl : job.status.inFlight = true) :
    ∃ entry, w.stores.queue jobId = some entry ∧
      (entry.state = .waiting ∨ entry.state = .delayed ∨ entry.state = .active) := by
  have hinv : Inv w := hw.invariant inv_empty fun _ _ _ hi hg hs => inv_step hi hg hs
  rcases hinv.covered jobId ⟨job, hjob, hlive, hfl⟩ with hq | ⟨k, t, hk, hc⟩
  · unfold entryState queued at hq
    split at hq
    · rename_i hs
      obtain ⟨entry, he, hst⟩ := Option.map_eq_some_iff.mp hs
      exact ⟨entry, he, .inl hst⟩
    · rename_i hs
      obtain ⟨entry, he, hst⟩ := Option.map_eq_some_iff.mp hs
      exact ⟨entry, he, .inr (.inl hst)⟩
    · cases hq
  · -- an idle thread covers nothing
    have hi := hidle t (List.mem_of_getElem? hk)
    cases t with
    | process c =>
        rcases c with ⟨userId, id, pc⟩
        cases pc <;> simp [idle, covers, mayRevive] at hi hc
    | attempt a =>
        simp only [idle, decide_eq_true_eq] at hi
        simp [covers, hi] at hc
    | handler hd =>
        simp only [idle, decide_eq_true_eq] at hi
        simp [covers, hi, recording] at hc
    | _ => cases hc

theorem no_job_stranded_demo :
    ∃ w job, Run (step demo) Guard World.empty w ∧ w.stores.findById "job-1" = some job ∧
      job.status = .QUEUED ∧ ∃ entry, w.stores.queue "job-1" = some entry ∧
        (entry.state = .waiting ∨ entry.state = .delayed ∨ entry.state = .active) := by
  have hend : (execWhere (step demo) Guard (submitSchedule ++ checkSchedule 1 ++
      enqueueSchedule 1) World.empty).any (fun w => decide ((∀ t ∈ w.threads, idle t = true) ∧
        (w.stores.findById "job-1").any (fun job =>
          decide (job.deletedAt = none ∧ job.status = .QUEUED)) = true)) = true := by decide
  obtain ⟨w, hw, hp⟩ := execWhere_any hend
  obtain ⟨hidle, hrow⟩ := of_decide_eq_true hp
  obtain ⟨job, hjob, hst⟩ := (Option.any_eq_true _ _).mp hrow
  obtain ⟨hlive, hst⟩ := of_decide_eq_true hst
  exact ⟨w, job, hw, hjob, hst,
    no_job_stranded demo hw hidle hjob hlive (by rw [hst]; rfl)⟩

/-- Two `process` calls check the job together. The second one's QUEUED lands after the
attempt has marked the job READY, it finds the entry still active and gives up, and the
attempt ends. -/
def strandingSchedule : List Action :=
  submitSchedule ++ checkSchedule 1 ++ checkSchedule 2 ++ enqueueSchedule 1 ++
    compileSchedule 3 ++ renderSchedule 3 ++ [.step 6 {}] ++ steps 2 4 {} ++ steps 3 2 {} ++
      [.ack 3]

theorem double_tap_strands_job :
    ¬ ∀ (cfg : ServerConfig) (w : World) (jobId : String) (job : Job),
      Run (step cfg) FaultFree World.empty w → (∀ t ∈ w.threads, idle t = true) →
        w.stores.findById jobId = some job → job.deletedAt = none →
          job.status.inFlight = true → ∃ entry, w.stores.queue jobId = some entry ∧
            (entry.state = .waiting ∨ entry.state = .delayed ∨ entry.state = .active) := by
  intro h
  have hend : (execWhere (step demo) FaultFree strandingSchedule World.empty).any (fun w =>
      decide ((∀ t ∈ w.threads, idle t = true) ∧
        w.stores.queue "job-1" = some ⟨.completed, "user-1", 0⟩ ∧
        (w.stores.findById "job-1").any (fun job =>
          decide (job.deletedAt = none ∧ job.status = .QUEUED)) = true)) = true := by decide
  obtain ⟨w, hw, hp⟩ := execWhere_any hend
  obtain ⟨hidle, hentry, hrow⟩ := of_decide_eq_true hp
  obtain ⟨job, hjob, hst⟩ := (Option.any_eq_true _ _).mp hrow
  obtain ⟨hlive, hst⟩ := of_decide_eq_true hst
  obtain ⟨entry, hq, hstate⟩ := h demo w "job-1" job hw hidle hjob hlive (by rw [hst]; rfl)
  rw [hentry] at hq
  cases hq
  simp at hstate

end FieldNote.QueueLiveness
