import FieldNote.JobListing
import FieldNote.ObjectKeys
import FieldNote.OpenReplacements
import FieldNote.StageMoves

/-!
# A deletion is final

Nothing takes `deletedAt` back: the scoped statements skip a deleted row, and the pipeline's
statements on it leave `deletedAt` and the label alone. The reads of the API no longer find the
job, a call that starts after the deletion is refused before it writes anything, and an attempt
that starts after it starts no stage. Calls and attempts that started before may still finish: a
PATCH whose transaction is open at the deletion renames the deleted row. The handler of a terminal
failure, whose read ignores `deletedAt`, marks the row FAILED.
-/
namespace FieldNote.DeletionFinality
open JobsService PipelineService ServerRuns GuardedRuns CallPool ObjectKeys OpenReplacements

/-- The row was deleted at the given time, under the given label. -/
def Deleted (s : Stores) (jobId label : String) (time : ℕ) : Prop :=
  ∃ row, s.findById jobId = some row ∧ row.deletedAt = some time ∧ row.label = label

/-- A call ends with a 404, or with a 500 when its own lookup throws. -/
def Refusal (error : HttpError) : Prop := error = .jobNotFound ∨ error = .unexpected

/-- The attempt has announced no stage. -/
def stageless : AttemptPc → Bool
  | .findById | .settled _ | .acked => true
  | _ => false

/-- Where a thread can stand that has started after the deletion of the job. -/
def Refused (jobId : String) : Thread → Prop
  | .create c => ∀ response, c.pc = .returned response → response.job.id ≠ jobId
  | .process c => c.jobId = jobId → c.pc = .findScoped ∨ ∃ e, c.pc = .threw e ∧ Refusal e
  | .update c => c.jobId = jobId → c.pc = .requireOwned ∨ ∃ e, c.pc = .threw e ∧ Refusal e
  | .remove c => c.jobId = jobId → c.pc = .requireOwned ∨ ∃ e, c.pc = .threw e ∧ Refusal e
  | .attempt a => a.jobId = jobId → stageless a.pc = true
  | _ => True

/-- The thread is a call, an attempt or a failure handler of the job. -/
def concerns (jobId : String) : Thread → Bool
  | .process c => c.jobId = jobId
  | .update c => c.jobId = jobId
  | .remove c => c.jobId = jobId
  | .attempt a => a.jobId = jobId
  | .handler h => h.jobId = jobId
  | _ => false

/-- The operation leaves the rows and the bucket alone, or is a failure handler's verdict. -/
inductive Harmless (jobId : String) : Thread → Op → Prop where
  | aside (t : Thread) (op : Op) (aside : Op.aside op = true) : Harmless jobId t op
  | verdict (h : Handler) (message : String) :
      Harmless jobId (.handler h) (.write jobId (.setStatus .FAILED (some (some message))))

/-- The objects are kept, and of the row all but its status, its error and its stamp. -/
def KeepsReport (s s' : Stores) (jobId : String) : Prop :=
  s'.bucket = s.bucket ∧ ∀ row, s.findById jobId = some row → ∃ status errorMessage updatedAt,
    s'.findById jobId = some
      { row with status := status, errorMessage := errorMessage, updatedAt := updatedAt }

variable {cfg : ServerConfig} {w w' : World} {env : Env} {jobId label : String} {time now : ℕ}
  {op : Op}

theorem write_deleted {row : Job} (now : ℕ) (wr : Write) (h : row.deletedAt = some time) :
    (wr.apply now row).deletedAt = some time ∧ (wr.apply now row).label = row.label := by
  have hscope : ∀ userId, row.inScope userId = false := by
    intro userId
    simp [Job.inScope, h]
  cases wr <;> simp [Write.apply, hscope, h]

theorem deleted_run {s : Stores} (h : Deleted s jobId label time) :
    Deleted (s.run now op) jobId label time := by
  obtain ⟨row, hrow, hdeleted, hlabel⟩ := h
  rcases Stores.run_row_after now op hrow with hkept | ⟨wr, -, hwritten⟩
  · exact ⟨row, hkept, hdeleted, hlabel⟩
  · obtain ⟨hdeleted', hlabel'⟩ := write_deleted now wr hdeleted
    exact ⟨_, hwritten, hdeleted', hlabel'.trans hlabel⟩

theorem deleted_step {act : Action} (h : Deleted w.stores jobId label time)
    (hs : step cfg w act = some w') : Deleted w'.stores jobId label time := by
  cases step_shape hs with
  | thread i now t t' op spawned at_ acts => exact deleted_run h
  | outside op new acts => exact deleted_run h

theorem harmless_keeps {s : Stores} {t : Thread} (h : Harmless jobId t op) (now : ℕ) :
    KeepsReport s (s.run now op) jobId := by
  cases h with
  | aside t op aside =>
      obtain ⟨hjobs, hbucket⟩ : (s.run now op).jobs = s.jobs ∧ (s.run now op).bucket = s.bucket :=
        run_aside aside
      refine ⟨hbucket, fun row hrow => ⟨row.status, row.errorMessage, row.updatedAt, ?_⟩⟩
      rw [Stores.findById, hjobs]
      exact hrow
  | verdict hd message =>
      refine ⟨rfl, fun row hrow => ⟨.FAILED, some message, now, ?_⟩⟩
      rw [Stores.run_row_write, hrow]
      rfl

theorem findScoped_deleted (h : Deleted w.stores jobId label time) (userId : String) :
    w.stores.findScoped userId jobId = none := by
  obtain ⟨row, hrow, hdeleted, -⟩ := h
  simp [Stores.findScoped, hrow, Job.inScope, hdeleted]

/-- A row in scope is another job's. -/
theorem inScope_ne {row : Job} {userId : String} (h : Deleted w.stores jobId label time)
    (hmem : row ∈ w.stores.jobs.rows) (hscope : row.inScope userId = true) : row.id ≠ jobId := by
  rintro rfl
  obtain ⟨row', hrow', hdeleted, -⟩ := h
  have hrow : w.stores.findById row.id = some row := Table.findUnique_of_mem hmem
  rw [hrow] at hrow'
  cases hrow'
  simp [Job.inScope, hdeleted] at hscope

theorem nextCreate_refused {c : CreateCall} {pc : CreatePc}
    (h : Deleted w.stores jobId label time) (hn : nextCreate cfg w.stores env c = some (pc, op)) :
    Refused jobId (.create { c with pc := pc }) := by
  rintro response rfl
  unfold nextCreate at hn
  split at hn
  · split at hn
    · rename_i existing hfound
      cases hn
      have hscope := List.find?_some hfound
      simp only [Bool.and_eq_true] at hscope
      exact inScope_ne h (List.mem_of_find?_eq_some hfound) hscope.1
    · cases hn
  · split_ifs at hn with htaken
    · cases hn
    · obtain ⟨row, hrow, -⟩ := h
      have hid : env.id ≠ jobId := by
        rintro rfl
        simp [hrow] at htaken
      cases hn
      exact hid
  · cases hn
  · cases hn

theorem nextProcess_refused {c : ProcessCall} {pc : ProcessPc}
    (h : Deleted w.stores c.jobId label time) (hrefused : Refused c.jobId (.process c))
    (hn : nextProcess cfg w.stores c = some (pc, op)) :
    pc = .threw .jobNotFound ∧ op = .none := by
  rcases hrefused rfl with hpc | ⟨e, hpc, -⟩
  · simp only [nextProcess, hpc, findScoped_deleted h, Option.some.injEq, Prod.mk.injEq] at hn
    exact ⟨hn.1.symm, hn.2.symm⟩
  · simp [nextProcess, hpc] at hn

theorem nextUpdate_refused {c : UpdateCall} {pc : UpdatePc}
    (h : Deleted w.stores c.jobId label time) (hrefused : Refused c.jobId (.update c))
    (hn : nextUpdate cfg w.stores env c = some (pc, op)) :
    pc = .threw .jobNotFound ∧ op = .none := by
  rcases hrefused rfl with hpc | ⟨e, hpc, -⟩
  · simp only [nextUpdate, hpc, findScoped_deleted h, Option.some.injEq, Prod.mk.injEq] at hn
    exact ⟨hn.1.symm, hn.2.symm⟩
  · simp [nextUpdate, hpc] at hn

theorem nextRemove_refused {c : RemoveCall} {pc : RemovePc}
    (h : Deleted w.stores c.jobId label time) (hrefused : Refused c.jobId (.remove c))
    (hn : nextRemove w.stores c = some (pc, op)) : pc = .threw .jobNotFound ∧ op = .none := by
  rcases hrefused rfl with hpc | ⟨e, hpc, -⟩
  · simp only [nextRemove, hpc, findScoped_deleted h, Option.some.injEq, Prod.mk.injEq] at hn
    exact ⟨hn.1.symm, hn.2.symm⟩
  · simp [nextRemove, hpc] at hn

/-- An attempt that starts after the deletion reads it and ends, or fails in its read. -/
theorem attempt_refused {a : Attempt} {pc : AttemptPc} {spawned : List Thread}
    (h : Deleted w.stores a.jobId label time) (hrefused : stageless a.pc = true)
    (hmove : AttemptMove cfg w a now pc op spawned) :
    stageless pc = true ∧ Op.aside op = true := by
  cases hmove with
  | ended e pc => exact ⟨rfl, rfl⟩
  | began job key work pc row live =>
      obtain ⟨row', hrow', hdeleted, -⟩ := h
      rw [row] at hrow'
      cases hrow'
      simp [live] at hdeleted
  | acked e entry pc queued => exact ⟨rfl, rfl⟩
  | failing work e op pc =>
      rcases pc with ⟨k, hpc⟩ | ⟨result, hpc⟩ <;> simp [hpc, stageless] at hrefused
  | thrown work e op pc =>
      rcases pc with ⟨hpc, -⟩ | ⟨hpc, -⟩ | ⟨e', hpc, -⟩ <;> simp [hpc, stageless] at hrefused
  | announced work pc => simp [pc, stageless] at hrefused
  | started work pc => simp [pc, stageless] at hrefused
  | won work i result pc done => simp [pc, stageless] at hrefused
  | completed work result pc => simp [pc, stageless] at hrefused
  | marking e mark mark' op pc next => simp [pc, stageless] at hrefused
  | marked e mark op pc next => simp [pc, stageless] at hrefused
  | broke e e' mark op pc next => simp [pc, stageless] at hrefused

/-- A handler writes no more than its verdict. -/
theorem handler_harmless {h : Handler} (hissues : Issues w env (.handler h) op) :
    Harmless h.jobId (.handler h) op := by
  cases hissues with
  | aside t op aside => exact .aside _ _ aside
  | handled h message pc => exact .verdict h message

theorem next_refused {t t' : Thread} {spawned : List Thread} (h : Deleted w.stores jobId label time)
    (hrefused : Refused jobId t) (hnext : next cfg w env t = some (t', op, spawned))
    (hcall : ∀ a, t ≠ .attempt a) :
    Refused jobId t' ∧ (concerns jobId t = true → Harmless jobId t op) := by
  have hissues := next_issues hnext
  cases next_segment hnext with
  | create c pc op hn => exact ⟨nextCreate_refused h hn, by simp [concerns]⟩
  | process c pc op hn =>
      by_cases hjob : c.jobId = jobId
      · subst hjob
        obtain ⟨rfl, rfl⟩ := nextProcess_refused h hrefused hn
        exact ⟨fun _ => .inr ⟨_, rfl, .inl rfl⟩, fun _ => .aside _ _ rfl⟩
      · exact ⟨fun hj => (hjob hj).elim, by simp [concerns, hjob]⟩
  | update c pc op hn =>
      by_cases hjob : c.jobId = jobId
      · subst hjob
        obtain ⟨rfl, rfl⟩ := nextUpdate_refused h hrefused hn
        exact ⟨fun _ => .inr ⟨_, rfl, .inl rfl⟩, fun _ => .aside _ _ rfl⟩
      · exact ⟨fun hj => (hjob hj).elim, by simp [concerns, hjob]⟩
  | remove c pc op hn =>
      by_cases hjob : c.jobId = jobId
      · subst hjob
        obtain ⟨rfl, rfl⟩ := nextRemove_refused h hrefused hn
        exact ⟨fun _ => .inr ⟨_, rfl, .inl rfl⟩, fun _ => .aside _ _ rfl⟩
      · exact ⟨fun hj => (hjob hj).elim, by simp [concerns, hjob]⟩
  | attempt a pc op hn => exact (hcall a rfl).elim
  | body b pc op hn => exact ⟨trivial, by simp [concerns]⟩
  | handler hd pc op hn =>
      refine ⟨trivial, fun hjob => ?_⟩
      obtain rfl := of_decide_eq_true hjob
      exact handler_harmless hissues

/-- A call that throws answers 500, unless it has ended or its clean-up failed. -/
theorem throwing_refused {t t' : Thread} {e : Err} (hrefused : Refused jobId t)
    (ht : throwing e t = some t') (hcall : ∀ a, t ≠ .attempt a) : Refused jobId t' := by
  cases t with
  | create c =>
      obtain ⟨pc, hpc, rfl⟩ := Option.map_eq_some_iff.mp ht
      rintro response rfl
      unfold CreateCall.throwing at hpc
      split at hpc <;> cases hpc
  | process c =>
      cases throwing_cases ht with
      | process c => exact fun _ => .inr ⟨_, rfl, .inr rfl⟩
  | update c =>
      cases throwing_cases ht with
      | update c => exact fun _ => .inr ⟨_, rfl, .inr rfl⟩
  | remove c =>
      obtain ⟨pc, hpc, rfl⟩ := Option.map_eq_some_iff.mp ht
      intro hjob
      rcases hrefused hjob with hstart | ⟨e', hthrew, -⟩
      · simp only [RemoveCall.throwing, hstart, Option.some.injEq] at hpc
        exact .inr ⟨_, hpc.symm, .inr rfl⟩
      · simp [RemoveCall.throwing, hthrew] at hpc
  | attempt a => exact (hcall a rfl).elim
  | body b =>
      cases throwing_cases ht with
      | body b open_ => trivial
  | handler hd =>
      cases throwing_cases ht with
      | handler hd => trivial

theorem acts_refused {i : ℕ} {act : Action} {t t' : Thread} {spawned : List Thread}
    (h : Deleted w.stores jobId label time) (hrefused : Refused jobId t)
    (acts : Acts cfg w i act t now t' op spawned) :
    Refused jobId t' ∧ (concerns jobId t = true → Harmless jobId t op) := by
  by_cases hattempt : ∃ a, t = .attempt a
  · obtain ⟨a, rfl⟩ := hattempt
    obtain ⟨pc, rfl, hmove⟩ := acts_attempt acts
    by_cases hjob : a.jobId = jobId
    · subst hjob
      obtain ⟨hstage, haside⟩ := attempt_refused h (hrefused rfl) hmove
      exact ⟨fun _ => hstage, fun _ => .aside _ _ haside⟩
    · exact ⟨fun hj => (hjob hj).elim, by simp [concerns, hjob]⟩
  · have hcall : ∀ a, t ≠ .attempt a := fun a ha => hattempt ⟨a, ha⟩
    cases acts with
    | stepped env t t' op spawned next => exact next_refused h hrefused next hcall
    | threw env e t t' throws =>
        exact ⟨throwing_refused hrefused throws hcall, fun _ => .aside _ _ rfl⟩
    | lost env e t t' t₁ op spawned throws next =>
        exact ⟨throwing_refused hrefused throws hcall, (next_refused h hrefused next hcall).2⟩
    | timedOut t t' out =>
        obtain ⟨a, work, body, rfl, -⟩ := timingOut_eq out
        exact (hcall a rfl).elim
    | acked a e entry pc queued => exact (hcall a rfl).elim

/-- The threads that have started since the pool had `n` threads are refused the job. -/
def AllRefused (n : ℕ) (jobId : String) (w : World) : Prop :=
  ∀ i t, n ≤ i → w.threads[i]? = some t → Refused jobId t

theorem outside_refused {act : Action} {new : List Thread} {t : Thread} (h : Outside w act op new)
    (ht : t ∈ new) : Refused jobId t := by
  cases h with
  | called request =>
      rw [List.mem_singleton.mp ht]
      cases request with
      | create userId label key =>
          intro response hpc
          unfold JobsService.create at hpc
          dsimp only at hpc
          split at hpc
          · cases hpc
          · split_ifs at hpc
      | _ => exact fun _ => .inl rfl
  | picked id entry queued waiting =>
      rw [List.mem_singleton.mp ht]
      exact fun _ => rfl
  | _ => cases ht

theorem allRefused_step {n : ℕ} {act : Action} (hgone : Deleted w.stores jobId label time)
    (h : AllRefused n jobId w) (hs : step cfg w act = some w') : AllRefused n jobId w' := by
  intro j t hj ht
  cases step_shape hs with
  | thread i now t₀ t' op spawned at_ acts =>
      rcases getElem?_advance_cases ht with ⟨rfl, rfl⟩ | ⟨-, hold⟩ | ⟨-, hnew⟩
      · exact (acts_refused hgone (h j t₀ hj at_) acts).1
      · exact h j t hj hold
      · rcases acts_spawned acts (List.mem_of_getElem? hnew) with
          ⟨a, work, -, -, rfl⟩ | ⟨a, err, entry, -, -, -, rfl⟩ <;> trivial
  | outside op new acts =>
      by_cases hlt : j < w.threads.length
      · rw [List.getElem?_append_left hlt] at ht
        exact h j t hj ht
      · rw [List.getElem?_append_right (by omega)] at ht
        exact outside_refused acts (List.mem_of_getElem? ht)

theorem list_ne (h : Deleted w.stores jobId label time) (userId : String) (cursor : Option String)
    (limit : ℕ) : ∀ item ∈ (JobsService.list w.stores userId cursor limit).items,
      item.id ≠ jobId := by
  intro item hitem
  obtain ⟨row, hrow, rfl⟩ := List.mem_map.mp hitem
  obtain ⟨hmem, hscope⟩ := Stores.mem_listScoped hrow
  exact inScope_ne h hmem hscope

/-! ## Open transactions -/

section Transactions

variable {u u' : TxWorld} {o : Opened} {t : Thread}

/-- The transaction is that of a PATCH of the job. -/
def patches (jobId : String) (o : Opened) : Bool :=
  o.jobId = jobId &&
    match o.write with
    | .replaceReportScoped _ _ _ => true
    | _ => false

/-- A PATCH of the job awaits its transaction. -/
def patching (jobId : String) (w : TxWorld) : Bool := w.opened.any (patches jobId)

/-- No PATCH of a deleted job passes the check that begins its transaction. -/
theorem starting_patches {i : ℕ} (h : Deleted w.stores jobId label time)
    (hstart : starting cfg w i env = some o) : patches jobId o = false := by
  obtain ⟨t, -, -, -, -, hissues⟩ := starting_awaits hstart
  obtain ⟨k, next, id, wr, disturbed⟩ := o
  cases wr with
  | replaceReportScoped userId label rows =>
      cases hissues with
      | update c wr pc write =>
          obtain ⟨rfl, row, hrow⟩ := updateWrite_scoped write
          by_cases hjob : c.jobId = jobId
          · subst hjob
            rw [findScoped_deleted h] at hrow
            cases hrow
          · simp [patches, hjob]
      | aside t op aside => cases aside
  | _ => simp [patches]

/-- A commit keeps `deletedAt`, and the label unless it is that of a PATCH of the job. -/
theorem deleted_commit {merged : List ReportSection} {t' : Thread}
    (h : Deleted u.server.stores jobId label time) (hawaits : Awaits t o) :
    ∃ label', Deleted (u.commit o now merged t').server.stores jobId label' time ∧
      (patches jobId o = false → label' = label) := by
  obtain ⟨row, hrow, hdeleted, hlabel⟩ := h
  by_cases hjob : jobId = o.jobId
  · refine ⟨(o.commits now merged row).label, ⟨o.commits now merged row, ?_, hdeleted, rfl⟩, ?_⟩
    · rw [commit_findById, if_pos hjob, hrow, Option.map_some]
    · intro hother
      cases hawaits with
      | patch c i label rows disturbed pc => simp [patches, hjob] at hother
      | compile b i sections rows disturbed pc => exact hlabel
  · refine ⟨label, ⟨row, ?_, hdeleted, hlabel⟩, fun _ => rfl⟩
    rw [commit_findById, if_neg hjob, hrow]

/-- A commit opens no transaction. -/
theorem patching_commit {merged : List ReportSection} {t' : Thread}
    (h : patching jobId u = false) : patching jobId (u.commit o now merged t') = false := by
  rw [patching, List.any_eq_false] at h ⊢
  intro q hq
  obtain ⟨p, hp, rfl⟩ := List.mem_map.mp hq
  exact h p (List.mem_filter.mp hp).1

theorem deleted_txStep {a : TxAction} (hawaiting : Awaiting u)
    (h : Deleted u.server.stores jobId label time) (hs : txStep cfg u a = some u') :
    ∃ label', Deleted u'.server.stores jobId label' time ∧
      (patching jobId u = false → label' = label ∧ patching jobId u' = false) := by
  have hcommit {i : ℕ} {o : Opened} (merged : List ReportSection) (t' : Thread)
      (ho : u.awaited i = some o) (now : ℕ) :
      ∃ label', Deleted (u.commit o now merged t').server.stores jobId label' time ∧
        (patching jobId u = false →
          label' = label ∧ patching jobId (u.commit o now merged t') = false) := by
    obtain ⟨hmem, -⟩ := awaited_mem ho
    obtain ⟨t, -, hawaits⟩ := (hawaiting o hmem).1
    obtain ⟨label', hdeleted, hlabel⟩ := deleted_commit h hawaits
    refine ⟨label', hdeleted, fun hnone => ⟨hlabel ?_, patching_commit hnone⟩⟩
    simpa using List.any_eq_false.mp hnone o hmem
  cases tx_effect hs with
  | acted a server isReady stepped =>
      exact ⟨label, deleted_step h stepped, fun hnone => ⟨rfl, hnone⟩⟩
  | started i env o free starts =>
      refine ⟨label, h, fun hnone => ⟨rfl, ?_⟩⟩
      rw [patching, List.any_append, ← patching, hnone]
      simp [starting_patches h starts]
  | committed i now merged o open_ => exact hcommit merged o.next open_ now
  | lost i now merged e o t open_ fails => exact hcommit merged t open_ now
  | rolledBack i e o t open_ fails =>
      refine ⟨label, h, fun hnone => ⟨rfl, ?_⟩⟩
      rw [patching, List.any_eq_false] at hnone ⊢
      exact fun p hp => hnone p (List.mem_filter.mp hp).1

/-- A thread that is refused the job and awaits a transaction is a PATCH of another job or a stage
body, so it is still refused the job when the transaction has ended. -/
theorem refused_awaits (hrefused : Refused jobId t) (hawaits : Awaits t o) :
    concerns jobId t = false ∧ Refused jobId o.next ∧
      ∀ e t', throwing e t = some t' → Refused jobId t' := by
  cases hawaits with
  | patch c i label rows disturbed pc =>
      have hjob : c.jobId ≠ jobId := by
        intro hjob
        rcases hrefused hjob with hpc | ⟨e, hpc, -⟩ <;> rw [pc] at hpc <;> cases hpc
      refine ⟨by simp [concerns, hjob], fun hj => (hjob hj).elim, fun e t' ht => ?_⟩
      exact throwing_refused hrefused ht (by simp)
  | compile b i sections rows disturbed pc =>
      exact ⟨rfl, trivial, fun e t' ht => throwing_refused hrefused ht (by simp)⟩

theorem allRefused_set {n : ℕ} {stores : Stores} {i : ℕ} {t' : Thread}
    (h : AllRefused n jobId w) (ht' : n ≤ i → Refused jobId t') :
    AllRefused n jobId ⟨stores, w.threads.set i t'⟩ := by
  intro j t hj ht
  rcases getElem?_set_cases ht with ⟨rfl, rfl⟩ | ⟨-, hold⟩
  · exact ht' hj
  · exact h j t hj hold

theorem allRefused_txStep {n : ℕ} {a : TxAction} (hawaiting : Awaiting u)
    (hgone : Deleted u.server.stores jobId label time) (h : AllRefused n jobId u.server)
    (hs : txStep cfg u a = some u') : AllRefused n jobId u'.server := by
  have hends {i : ℕ} {o : Opened} (ho : u.awaited i = some o) :
      n ≤ o.thread → Refused jobId o.next ∧ ∀ e t', u.failing o e = some t' → Refused jobId t' := by
    intro hn
    obtain ⟨t, ht, hawaits⟩ := (hawaiting o (awaited_mem ho).1).1
    obtain ⟨-, hnext, hthrows⟩ := refused_awaits (h _ _ hn ht) hawaits
    refine ⟨hnext, fun e t' hfails => hthrows e t' ?_⟩
    rwa [TxWorld.failing, ht, Option.bind_some] at hfails
  cases tx_effect hs with
  | acted a server isReady stepped => exact allRefused_step hgone h stepped
  | started i env o free starts => exact h
  | committed i now merged o open_ => exact allRefused_set h fun hn => (hends open_ hn).1
  | lost i now merged e o t open_ fails =>
      exact allRefused_set h fun hn => (hends open_ hn).2 e t fails
  | rolledBack i e o t open_ fails =>
      obtain rfl := (awaited_mem open_).2
      exact allRefused_set h fun hn => (hends open_ hn).2 e t fails

end Transactions

/-- Once a job is deleted, in every later state its row keeps `deletedAt`, and the label too if no
PATCH of it had its transaction open; no user finds it by its id, its PDF or the list, and every
call or attempt on it that has started since is refused: it has returned no job, started no stage,
awaits and begins no transaction and writes no row and no object. A failure handler of it writes at
most its verdict, which leaves the report and the objects. -/
theorem deletion_final (cfg : ServerConfig) {w₀ w : TxWorld} {jobId : String} {row : Job} {time : ℕ}
    (hw₀ : Run (txStep cfg) anyStep TxWorld.empty w₀)
    (hrow : w₀.server.stores.findById jobId = some row) (hdeleted : row.deletedAt = some time)
    (hw : Run (txStep cfg) anyStep w₀ w) :
    (∃ row', w.server.stores.findById jobId = some row' ∧ row'.deletedAt = some time ∧
      (patching jobId w₀ = false → row'.label = row.label)) ∧
    (∀ userId, findOne cfg w.server.stores userId jobId = .error .jobNotFound ∧
      getPdfUrl cfg w.server.stores userId jobId = .error .jobNotFound ∧
      ∀ cursor limit, ∀ item ∈ (list w.server.stores userId cursor limit).items,
        item.id ≠ jobId) ∧
    ∀ i t, w₀.server.threads.length ≤ i → w.server.threads[i]? = some t → Refused jobId t ∧
      (concerns jobId t = true →
        w.awaited i = none ∧ (∀ env, starting cfg w.server i env = none) ∧
        ∀ act now t' op spawned, Acts cfg w.server i act t now t' op spawned →
          Harmless jobId t op ∧
            KeepsReport w.server.stores (w.server.stores.run now op) jobId) := by
  have hinv : Awaiting w ∧ (∃ label, Deleted w.server.stores jobId label time ∧
      (patching jobId w₀ = false → label = row.label ∧ patching jobId w = false)) ∧
      AllRefused w₀.server.threads.length jobId w.server := by
    refine hw.invariant (I := fun w => Awaiting w ∧
      (∃ label, Deleted w.server.stores jobId label time ∧
        (patching jobId w₀ = false → label = row.label ∧ patching jobId w = false)) ∧
      AllRefused w₀.server.threads.length jobId w.server) ?_ ?_
    · refine ⟨hw₀.invariant awaiting_empty fun _ _ _ hi _ hs => awaiting_step hi hs,
        ⟨row.label, ⟨row, hrow, hdeleted, rfl⟩, fun hnone => ⟨rfl, hnone⟩⟩, ?_⟩
      intro i t hi ht
      have hlt := lt_of_getElem? ht
      omega
    · rintro v a v' ⟨hawaiting, ⟨label, hgone, hlabel⟩, hrefused⟩ - hs
      obtain ⟨label', hgone', hkept⟩ := deleted_txStep hawaiting hgone hs
      refine ⟨awaiting_step hawaiting hs, ⟨label', hgone', fun hnone => ?_⟩,
        allRefused_txStep hawaiting hgone hrefused hs⟩
      obtain ⟨hsame, hopen⟩ := hlabel hnone
      obtain ⟨hsame', hopen'⟩ := hkept hopen
      exact ⟨hsame'.trans hsame, hopen'⟩
  obtain ⟨hawaiting, ⟨label, hgone, hlabel⟩, hrefused⟩ := hinv
  refine ⟨?_, ?_, ?_⟩
  · obtain ⟨row', hrow', hdeleted', rfl⟩ := hgone
    exact ⟨row', hrow', hdeleted', fun hnone => (hlabel hnone).1⟩
  · intro userId
    have hnone := findScoped_deleted hgone userId
    refine ⟨by simp [findOne, hnone], by simp [getPdfUrl, hnone], ?_⟩
    intro cursor limit
    exact list_ne hgone userId cursor limit
  · intro i t hi ht
    refine ⟨hrefused i t hi ht, fun hjob => ⟨?_, ?_, ?_⟩⟩
    · rw [Option.eq_none_iff_forall_ne_some]
      intro o ho
      obtain ⟨hmem, rfl⟩ := awaited_mem ho
      obtain ⟨t', ht', hawaits⟩ := (hawaiting o hmem).1
      rw [ht] at ht'
      cases ht'
      rw [(refused_awaits (hrefused _ t hi ht) hawaits).1] at hjob
      cases hjob
    · intro env
      rw [Option.eq_none_iff_forall_ne_some]
      intro o ho
      obtain ⟨t', ht', hawaits, -⟩ := starting_awaits ho
      rw [ht] at ht'
      cases ht'
      rw [(refused_awaits (hrefused i t hi ht) hawaits).1] at hjob
      cases hjob
    · intro act now t' op spawned acts
      have hharmless := (acts_refused hgone (hrefused i t hi ht) acts).2 hjob
      exact ⟨hharmless, harmless_keeps hharmless now⟩

/-- Call 1 deletes `job-1` while its entry, added by call 2, is waiting. -/
def deleteSchedule : List Action :=
  submitSchedule ++ .call (.remove "user-1" "job-1") :: steps 1 1 {} ++ checkSchedule 2 ++
    enqueueSchedule 2 ++ steps 1 1 { now := 7 }

/-- The entry is picked as attempt 3, and call 4 asks for another run. -/
def afterSchedule : List Action :=
  .pick "job-1" :: steps 3 1 {} ++ .call (.process "user-1" "job-1") :: steps 4 1 {}

theorem deletion_final_demo :
    ∃ w₀ w, Run (txStep demo) anyStep TxWorld.empty w₀ ∧ Run (txStep demo) anyStep w₀ w ∧
      w.server.threads[3]? = some (.attempt ⟨"job-1", "user-1", .settled none⟩) ∧
      w.server.threads[4]? = some (.process ⟨"user-1", "job-1", .threw .jobNotFound⟩) ∧
      findOne demo w.server.stores "user-1" "job-1" = .error .jobNotFound := by
  have hend : (exec (step demo) deleteSchedule World.empty).any (fun w₀ =>
      (w₀.stores.findById "job-1").any (fun row => row.deletedAt = some 7) &&
        (exec (step demo) afterSchedule w₀).any fun w =>
          decide (w.threads[3]? = some (.attempt ⟨"job-1", "user-1", .settled none⟩) ∧
            w.threads[4]? = some (.process ⟨"user-1", "job-1", .threw .jobNotFound⟩))) =
      true := by decide
  obtain ⟨s₀, hs₀, hp⟩ := exec_any hend
  rw [Bool.and_eq_true] at hp
  obtain ⟨row, hrow, hdeleted⟩ := (Option.any_eq_true _ _).mp hp.1
  obtain ⟨s, hs, hthreads⟩ := exec_any hp.2
  obtain ⟨hattempt, hcall⟩ := of_decide_eq_true hthreads
  have hbefore : Run (txStep demo) anyStep TxWorld.empty ⟨s₀, []⟩ := run_lift_any hs₀
  have hafter : Run (txStep demo) anyStep ⟨s₀, []⟩ ⟨s, []⟩ := run_lift_any hs
  have hfinal := deletion_final demo hbefore hrow (of_decide_eq_true hdeleted) hafter
  exact ⟨_, _, hbefore, hafter, hattempt, hcall, (hfinal.2.1 "user-1").1⟩

end FieldNote.DeletionFinality
