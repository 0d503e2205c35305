import FieldNote.TrailPhases

/-!
# The trail of a job is a sequence of blocks

At most one attempt or failure handler of the job works at a time. The trail is the blocks of
the attempts that have ended, followed by what the current attempt has written.
-/
namespace FieldNote.BracketedTrail
open JobsService PipelineService ServerRuns CallPool GuardedRuns SoleActor AuditTrail TrailPhases

/-- The thread that works on the job. -/
inductive Phase (kept : Prop) (jobId : String) (threads : List Thread) (r : Reading)
    (attempts : List (Option Stage)) : Thread → Prop where
  | attempt (a : Attempt) (blocks : List Block) (failedIn : Option Stage)
      (counted : attempts = blocks.map Block.failed ++ [failedIn])
      (working : Working kept jobId threads (blockEvents blocks) r a.pc failedIn) :
      Phase kept jobId threads r attempts (.attempt a)
  | handler (h : Handler) (blocks : List Block) (failedIn : Option Stage)
      (counted : attempts = blocks.map Block.failed ++ [failedIn])
      (handling : Handling kept (blockEvents blocks) r failedIn h.pc) :
      Phase kept jobId threads r attempts (.handler h)

/-- Every attempt has ended. -/
structure Quiet (kept : Prop) (r : Reading) (attempts : List (Option Stage)) : Prop where
  blocks : ∃ blocks : List Block, r.trail = blockEvents blocks ∧ attempts = blocks.map Block.failed
  agrees : kept → Agrees r

def Inv (kept : Prop) (jobId : String) (s : World × List (Option Stage)) : Prop :=
  ∃ r, Reads jobId s.1.stores r ∧ CompiledAfter r ∧
    Sole (working jobId) s.1.threads (Quiet kept r s.2) (Phase kept jobId s.1.threads r s.2)

variable {kept : Prop} {cfg : ServerConfig} {w w' : World} {jobId : String} {r : Reading}
  {op : Op} {now : ℕ} {past : List (String × String)} {failedIn : Option Stage}
  {threads : List Thread} {attempts : List (Option Stage)}

theorem Phase.mono {threads' : List Thread} {t : Thread} (h : Phase kept jobId threads r attempts t)
    (hworking : ∀ past pc failedIn, Working kept jobId threads past r pc failedIn →
      Working kept jobId threads' past r pc failedIn) : Phase kept jobId threads' r attempts t := by
  cases h with
  | attempt a blocks failedIn counted working =>
      exact .attempt a blocks failedIn counted (hworking _ _ _ working)
  | handler h blocks failedIn counted handling => exact .handler h blocks failedIn counted handling

/-- A body of the job moves. -/
theorem inv_body {i : ℕ} {b : Body} {pc : BodyPc} (hc : CompiledAfter r)
    (h : Sole (working jobId) w.threads (Quiet kept r attempts) (Phase kept jobId w.threads r attempts))
    (at_ : w.threads[i]? = some (.body b)) (hjob : b.jobId = jobId) (hmove : BodyMove w b pc op)
    (hadmitted : op ≠ .none → admitted jobId w i (.body b) = true) :
    CompiledAfter (r.after jobId op) ∧
      Sole (working jobId) (w.threads.set i (.body { b with pc := pc }) ++ [])
        (Quiet kept (r.after jobId op) attempts)
        (Phase kept jobId (w.threads.set i (.body { b with pc := pc }) ++ []) (r.after jobId op)
          attempts) := by
  by_cases hsame : r.after jobId op = r
  · rw [hsame]
    refine ⟨hc, h.other at_ rfl rfl (by simp) id fun t hphase => hphase.mono ?_⟩
    exact fun past pc₀ failedIn hworking => hworking.body hjob at_ hmove hsame.symm (.inl rfl)
  · -- the attempt that races the body works on the job
    have hne : op ≠ .none := by
      rintro rfl
      exact hsame rfl
    have heffect : BodyEffect b r (r.after jobId op) := body_effect hjob hmove
    have hraced : SequentialOutcome.raced jobId w i = true := by
      have hallowed := hadmitted hne
      generalize r.after jobId op = r' at heffect hsame
      cases heffect with
      | same => exact (hsame rfl).elim
      | saved text hpc => simpa [admitted, hpc, hjob] using hallowed
      | ready view hpc => simpa [admitted, hpc, hjob] using hallowed
    obtain ⟨k, a, work, hk, hajob, hpc⟩ := SequentialOutcome.raced_eq_true hraced
    obtain ⟨only, hphase⟩ := h.of_active hk (by simp [working, hajob, hpc])
    cases hphase with
    | attempt _ blocks failedIn counted hworking =>
        have hafter := hworking.body hjob at_ hmove rfl (.inr ⟨work, hpc⟩)
        have hsole : Sole (working jobId) w.threads False (fun t => t = .attempt a) :=
          .acting k _ only rfl
        refine ⟨?_, hsole.other at_ rfl rfl (by simp) False.elim ?_⟩
        · rw [hpc] at hworking
          cases hworking with
          | racing _ _ b' at' job within serving =>
              rw [at_] at at'
              cases at'
              exact serving.compiled heffect hc
        · rintro _ rfl
          exact .attempt a blocks failedIn counted hafter

theorem attempt_open {a : Attempt} {pc : AttemptPc} {spawned : List Thread}
    (h : AttemptMove cfg w a now pc op spawned) : a.pc ≠ .acked := by
  intro hacked
  cases h with
  | failing work e op pc => rcases pc with ⟨i, hpc⟩ | ⟨result, hpc⟩ <;> simp [hpc] at hacked
  | thrown work e op pc =>
      rcases pc with ⟨hpc, -⟩ | ⟨hpc, -⟩ | ⟨e', hpc, -⟩ <;> simp [hpc] at hacked
  | _ => simp_all

/-- An attempt or a handler that moves and does not work on the job is of another one. -/
theorem bystander_job {i : ℕ} {act : Action} {t t' : Thread} {spawned : List Thread}
    (hended : working jobId t = false) (acts : Acts cfg w i act t now t' op spawned) :
    (∀ a, t = .attempt a → a.jobId ≠ jobId) ∧ ∀ h, t = .handler h → h.jobId ≠ jobId := by
  constructor
  · rintro a rfl hjob
    obtain ⟨pc, -, hmove⟩ := acts_attempt acts
    have hacked : a.pc = .acked := by simpa [working, hjob] using hended
    exact attempt_open hmove hacked
  · rintro h rfl hjob
    have hdone : h.pc = .done := by simpa [working, hjob] using hended
    cases acts with
    | stepped env t t' op spawned next => simp [ServerRuns.next, nextHandler, hdone] at next
    | threw env e t t' throws => simp [throwing, Handler.throwing, hdone] at throws
    | lost env e t t' t₁ op spawned throws next => simp [throwing, Handler.throwing, hdone] at throws
    | timedOut t t' out => simp [timingOut] at out

theorem bystander_kept {i : ℕ} {act : Action} {t t' : Thread} {spawned : List Thread}
    (hended : working jobId t = false) (acts : Acts cfg w i act t now t' op spawned) :
    working jobId t' = false ∧ ∀ t₁ ∈ spawned, working jobId t₁ = false := by
  obtain ⟨hattempt, hhandler⟩ := bystander_job hended acts
  constructor
  · have hsame := acts.sameCall
    cases hsame with
    | attempt a pc => simp [working, hattempt a rfl]
    | handler h pc => simp [working, hhandler h rfl]
    | _ => rfl
  · intro t₁ ht₁
    rcases acts_spawned acts ht₁ with ⟨a, work, -, -, rfl⟩ | ⟨a, err, entry, rfl, -, -, rfl⟩
    · rfl
    · simp [working, hattempt a rfl]

/-- What the two guards say of a segment that takes effect. -/
theorem guarded {i : ℕ} {act : Action} {t : Thread} (hs : Reads jobId w.stores r)
    (at_ : w.threads[i]? = some t) (hg : orderly jobId w act = true)
    (hk : kept → keepsReady jobId w act = true)
    (hact : ∃ env, act = .step i env ∨ ∃ e, act = .throw i env e true) :
    admitted jobId w i t = true ∧ (kept → r.status = .READY → revokes jobId w t = false) := by
  obtain ⟨env, rfl | ⟨e, rfl⟩⟩ := hact
  · refine ⟨by simpa [orderly, at_] using hg, fun hkept hready => ?_⟩
    simpa [keepsReady, at_, (isReady_iff hs).mpr hready] using hk hkept
  · simp only [orderly, at_, Option.all_some, Bool.not_true, Bool.false_or, Bool.and_eq_true] at hg
    refine ⟨hg.2, fun hkept hready => ?_⟩
    simpa [keepsReady, at_, (isReady_iff hs).mpr hready] using hk hkept

theorem guarded_event {i : ℕ} {env : Env} {e : Err} {applied : Bool} {t : Thread}
    (at_ : w.threads[i]? = some t) (hg : orderly jobId w (.throw i env e applied) = true) :
    writesEvent jobId t = false := by
  simp only [orderly, at_, Option.all_some, Bool.and_eq_true] at hg
  simpa using hg.1

/-- The operation of a thread that does not work on the job and is no body of it shows only where
`process` resets the status between attempts. -/
theorem bystander_after {i : ℕ} {act : Action} {t t' : Thread} {spawned : List Thread}
    (hs : Reads jobId w.stores r) (at_ : w.threads[i]? = some t)
    (hg : orderly jobId w act = true) (hk : kept → keepsReady jobId w act = true)
    (hended : working jobId t = false) (hbody : ∀ b, t = .body b → b.jobId ≠ jobId)
    (acts : Acts cfg w i act t now t' op spawned) :
    r.after jobId op = r ∨ idle jobId w = true ∧ (kept → r.status ≠ .READY) ∧
      r.after jobId op = { r with status := .QUEUED } := by
  obtain ⟨hattempt, hhandler⟩ := bystander_job hended acts
  have hnext : ∀ {env : Env}, Operates w env t op →
      (∃ env, act = .step i env ∨ ∃ e, act = .throw i env e true) →
      r.after jobId op = r ∨ idle jobId w = true ∧ (kept → r.status ≠ .READY) ∧
        r.after jobId op = { r with status := .QUEUED } := by
    intro env hoperates hact
    obtain ⟨hallowed, hkeeps⟩ := guarded hs at_ hg hk hact
    by_cases hother : JobViews.subject op = some jobId
    · cases hoperates with
      | requeue c job hpc =>
          obtain rfl : c.jobId = jobId := Option.some.inj hother
          refine .inr ⟨by simpa [admitted, hpc] using hallowed, ?_, after_setStatus⟩
          intro hkept hready
          simpa [revokes, hpc] using hkeeps hkept hready
      | update c wr hpc write =>
          refine .inl ?_
          rcases updateWrite_cases write with ⟨label, rfl⟩ | ⟨label, rows, rfl⟩ <;>
            simp [Reading.after, Write.newStatus, Write.newTranscript]
      | softDelete c => simp [Reading.after, Write.newStatus, Write.newTranscript]
      | stage a work hpc => exact (hattempt a rfl (Option.some.inj hother)).elim
      | stageEvent a event job => exact (hattempt a rfl (job.symm.trans (Option.some.inj hother))).elim
      | failed a e m hpc => exact (hattempt a rfl (Option.some.inj hother)).elim
      | transcript b text hpc => exact (hbody b rfl (Option.some.inj hother)).elim
      | report b sections hpc => exact (hbody b rfl (Option.some.inj hother)).elim
      | ready b view hpc => exact (hbody b rfl (Option.some.inj hother)).elim
      | handled h m hpc => exact (hhandler h rfl (Option.some.inj hother)).elim
      | failureEvent h event job => exact (hhandler h rfl (job.symm.trans (Option.some.inj hother))).elim
      | _ => exact .inl rfl
    · exact .inl (after_other hother)
  cases acts with
  | stepped env t t' op spawned next => exact hnext (next_operates next) ⟨env, .inl rfl⟩
  | threw env e t t' throws => exact .inl rfl
  | lost env e t t' t₁ op spawned throws next =>
      exact hnext (next_operates next) ⟨env, .inr ⟨e, rfl⟩⟩
  | timedOut t t' out => exact .inl rfl
  | acked a e entry pc queued => exact .inl rfl

/-- The record after the move of a thread. -/
theorem record_advance {i : ℕ} {act : Action} {t t' : Thread} {spawned : List Thread}
    (at_ : w.threads[i]? = some t) (acts : Acts cfg w i act t now t' op spawned) :
    record jobId (w.advance now i t' op spawned) act attempts =
      mark attempts (caught jobId t') := by
  have hat : (w.advance now i t' op spawned).threads[i]? = some t' := getElem?_advance_same at_
  cases acts with
  | acked a e entry pc queued => rfl
  | _ => simp only [record, moved, hat, Option.bind_some]

theorem record_attempt {i : ℕ} {act : Action} {t : Thread} {a : Attempt} {spawned : List Thread}
    {earlier : List (Option Stage)} (hjob : a.jobId = jobId) (at_ : w.threads[i]? = some t)
    (acts : Acts cfg w i act t now (.attempt a) op spawned) :
    record jobId (w.advance now i (.attempt a) op spawned) act (earlier ++ [failedIn]) =
      earlier ++ [noteOf a.pc failedIn] := by
  rw [record_advance at_ acts]
  cases hpc : a.pc <;> simp [caught, noteOf, mark, hpc, hjob]

theorem record_other {i : ℕ} {act : Action} {t t' : Thread} {spawned : List Thread}
    (hother : ∀ a, t' = .attempt a → a.jobId ≠ jobId) (at_ : w.threads[i]? = some t)
    (acts : Acts cfg w i act t now t' op spawned) :
    record jobId (w.advance now i t' op spawned) act attempts = attempts := by
  rw [record_advance at_ acts]
  have hnone : caught jobId t' = none := by
    cases t' with
    | attempt a =>
        have hjob := hother a rfl
        cases hpc : a.pc <;> simp [caught, hpc, hjob]
    | _ => rfl
  rw [hnone, mark]

theorem idle_iff : idle jobId w = true ↔ ∀ t ∈ w.threads, working jobId t = false := by
  simp [idle]

/-- An attempt that has ended, with its failure handling, leaves one more block. -/
theorem ended_quiet {blocks : List Block} (h : Ended kept (blockEvents blocks) r failedIn) :
    Quiet kept r (blocks.map Block.failed ++ [failedIn]) := by
  obtain ⟨⟨b, htrail, hfailed, -⟩, hagrees⟩ := h
  exact ⟨⟨blocks ++ [b], by rw [htrail, blockEvents_concat], by simp [hfailed]⟩, hagrees⟩

/-- BullMQ's verdict starts a failure handler or nothing. -/
theorem settle_spawned (cfg : ServerConfig) (jobId : String) (entry : Entry) (e : Option Err) :
    (settle cfg jobId entry e).2 = [] ∨
      ∃ h : Handler, (settle cfg jobId entry e).2 = [.handler h] ∧ h.jobId = jobId ∧
        h.pc = .marking .rawById := by
  unfold settle
  cases e with
  | none => exact .inl rfl
  | some err =>
      dsimp only
      split_ifs
      · exact .inr ⟨_, rfl, rfl, rfl⟩
      · exact .inl rfl

/-- The attempt that works on the job moves. -/
theorem inv_attempt {i : ℕ} {act : Action} {a : Attempt} {t' : Thread} {spawned : List Thread}
    (hs : Reads jobId w.stores r) (hc : CompiledAfter r) (hg : orderly jobId w act = true)
    (hk : kept → keepsReady jobId w act = true) (hjob : a.jobId = jobId)
    (only : Only (working jobId) w.threads i (.attempt a))
    (phase : Phase kept jobId w.threads r attempts (.attempt a))
    (acts : Acts cfg w i act (.attempt a) now t' op spawned) :
    Inv kept jobId (w.advance now i t' op spawned,
      record jobId (w.advance now i t' op spawned) act attempts) := by
  have at_ := only.at_
  cases phase with
  | attempt _ blocks failedIn counted hworking =>
      subst counted
      -- what is left to show where the attempt stays in control
      have hstays : ∀ pc, t' = .attempt { a with pc := pc } →
          (∀ t₁ ∈ spawned, working jobId t₁ = false) →
          CompiledAfter (r.after jobId op) ∧
            Working kept jobId (w.threads.set i (.attempt { a with pc := pc }) ++ spawned)
              (blockEvents blocks) (r.after jobId op) pc (noteOf pc failedIn) →
          Inv kept jobId (w.advance now i t' op spawned,
            record jobId (w.advance now i t' op spawned) act
              (blocks.map Block.failed ++ [failedIn])) := by
        rintro pc rfl hspawned ⟨hc', hworking'⟩
        have hrecord : record jobId (w.advance now i (.attempt { a with pc := pc }) op spawned) act
            (blocks.map Block.failed ++ [failedIn]) = _ := record_attempt hjob at_ acts
        rw [hrecord]
        refine ⟨r.after jobId op, reads_run now op hs, hc', ?_⟩
        exact only.moves (by simp [working, hjob, hworking'.open_]) hspawned
          (.attempt _ blocks _ rfl hworking')
      cases acts with
      | stepped env t t' op spawned next =>
          obtain ⟨⟨pc, op'⟩, hn, he⟩ := Option.map_eq_some_iff.mp next
          cases he
          obtain ⟨-, hkeeps⟩ := guarded hs at_ hg hk ⟨env, .inl rfl⟩
          refine hstays pc rfl ?_ (attempt_step hs hjob hc hworking hkeeps hn)
          intro t₁ ht₁
          obtain ⟨work, -, rfl⟩ := spawn_body ht₁
          rfl
      | threw env e t t' throws =>
          obtain ⟨pc, hpc, rfl⟩ := Option.map_eq_some_iff.mp throws
          exact hstays pc rfl (by simp) (attempt_throws hjob hc hworking (guarded_event at_ hg)
            (fun hne => (hne rfl).elim) hpc (.inl rfl))
      | lost env e t t' t₁ op spawned throws next =>
          obtain ⟨pc, hpc, rfl⟩ := Option.map_eq_some_iff.mp throws
          obtain ⟨⟨pc', op'⟩, hn, he⟩ := Option.map_eq_some_iff.mp next
          cases he
          obtain ⟨-, hkeeps⟩ := guarded hs at_ hg hk ⟨env, .inr ⟨e, rfl⟩⟩
          exact hstays pc rfl (by simp) (attempt_throws hjob hc hworking (guarded_event at_ hg)
            (fun _ => hkeeps) hpc (.inr ⟨pc', hn⟩))
      | timedOut t t' out =>
          obtain ⟨a', work, k, ha, hpc, rfl⟩ := timingOut_eq out
          cases ha
          rw [hpc] at hworking
          cases hworking with
          | racing _ _ b at' job within serving =>
              refine hstays _ rfl (by simp) ⟨hc, .failing work _ within fun hkept hready => ?_⟩
              have hkeeps := hk hkept
              simp [keepsReady, at_, (isReady_iff hs).mpr hready, rendering, hjob, hpc,
                within.rendering hready] at hkeeps
      | acked a' e entry pc queued =>
          rw [pc] at hworking
          cases hworking with
          | settled _ _ ended =>
              have hreads : Reads jobId
                  (w.stores.run 0 (.setEntry a.jobId (some (settle cfg a.jobId entry e).1))) r :=
                reads_run 0 (.setEntry a.jobId (some (settle cfg a.jobId entry e).1)) hs
              refine ⟨r, hreads, hc, ?_⟩
              have hacked : working jobId (.attempt { a with pc := .acked }) = false := by simp [working]
              rcases settle_spawned cfg a.jobId entry e with
                hnone | ⟨h, hone, hjob', hmark⟩
              · exact only.ends hacked (by simp [hnone]) (ended_quiet ended)
              · simp only [World.advance, hone]
                refine only.hands_over hacked (by simp [working, hjob', hjob, hmark]) ?_
                exact .handler h blocks failedIn rfl (hmark ▸ .marking _ (.rawById ended))

/-- The failure handler that works on the job moves. -/
theorem inv_handler {i : ℕ} {act : Action} {h : Handler} {t' : Thread} {spawned : List Thread}
    (hs : Reads jobId w.stores r) (hc : CompiledAfter r) (hg : orderly jobId w act = true)
    (hk : kept → keepsReady jobId w act = true) (hjob : h.jobId = jobId)
    (only : Only (working jobId) w.threads i (.handler h))
    (phase : Phase kept jobId w.threads r attempts (.handler h))
    (acts : Acts cfg w i act (.handler h) now t' op spawned) :
    Inv kept jobId (w.advance now i t' op spawned,
      record jobId (w.advance now i t' op spawned) act attempts) := by
  have at_ := only.at_
  have hrecord : record jobId (w.advance now i t' op spawned) act attempts = attempts := by
    refine record_other ?_ at_ acts
    rintro a rfl
    cases acts.sameCall
  rw [hrecord]
  cases phase with
  | handler _ blocks failedIn counted hhandling =>
      subst counted
      have hends : ∀ r', Reads jobId (w.stores.run now op) r' → CompiledAfter r' →
          Ended kept (blockEvents blocks) r' failedIn → t' = .handler { h with pc := .done } →
          spawned = [] →
          Inv kept jobId (w.advance now i t' op spawned, blocks.map Block.failed ++ [failedIn]) := by
        rintro r' hs' hc' hended rfl rfl
        exact ⟨r', hs', hc', only.ends (by simp [working]) (by simp) (ended_quiet hended)⟩
      cases acts with
      | stepped env t t' op spawned next =>
          obtain ⟨⟨pc, op'⟩, hn, he⟩ := Option.map_eq_some_iff.mp next
          cases he
          obtain ⟨-, hkeeps⟩ := guarded hs at_ hg hk ⟨env, .inl rfl⟩
          obtain ⟨hc', hhandling' | ⟨rfl, hended⟩⟩ := handler_step hs hjob hc hhandling hkeeps hn
          · have hpc : pc ≠ .done := by
              rintro rfl
              cases hhandling'
            exact ⟨_, reads_run env.now op hs, hc', only.moves (by simp [working, hjob, hpc]) (by simp)
              (.handler _ blocks failedIn rfl hhandling')⟩
          · exact hends _ (reads_run env.now op hs) hc' hended rfl rfl
      | threw env e t t' throws =>
          cases throwing_cases throws with
          | handler h =>
              obtain ⟨hc', hended⟩ := handler_throws w hjob hc hhandling (guarded_event at_ hg)
                (fun hne => (hne rfl).elim) (.inl rfl)
              exact hends _ (reads_run env.now .none hs) hc' hended rfl rfl
      | lost env e t t' t₁ op spawned throws next =>
          cases throwing_cases throws with
          | handler h =>
              obtain ⟨⟨pc', op'⟩, hn, he⟩ := Option.map_eq_some_iff.mp next
              cases he
              obtain ⟨-, hkeeps⟩ := guarded hs at_ hg hk ⟨env, .inr ⟨e, rfl⟩⟩
              obtain ⟨hc', hended⟩ := handler_throws w hjob hc hhandling (guarded_event at_ hg)
                (fun _ => hkeeps) (.inr ⟨pc', hn⟩)
              exact hends _ (reads_run env.now op hs) hc' hended rfl rfl
      | timedOut t t' out => simp [timingOut] at out

/-- A thread moves. -/
theorem inv_thread {i : ℕ} {act : Action} {t t' : Thread} {spawned : List Thread}
    (h : Inv kept jobId (w, attempts)) (hg : orderly jobId w act = true)
    (hk : kept → keepsReady jobId w act = true) (at_ : w.threads[i]? = some t)
    (acts : Acts cfg w i act t now t' op spawned) :
    Inv kept jobId (w.advance now i t' op spawned,
      record jobId (w.advance now i t' op spawned) act attempts) := by
  obtain ⟨r, hs, hc, hsole⟩ := h
  dsimp only at hs hsole
  cases hw : working jobId t with
  | true =>
      obtain ⟨only, phase⟩ := hsole.of_active at_ hw
      cases t with
      | attempt a =>
          have hjob : a.jobId = jobId := by
            simp only [working, Bool.and_eq_true, decide_eq_true_eq] at hw
            exact hw.1
          exact inv_attempt hs hc hg hk hjob only phase acts
      | handler h =>
          have hjob : h.jobId = jobId := by
            simp only [working, Bool.and_eq_true, decide_eq_true_eq] at hw
            exact hw.1
          exact inv_handler hs hc hg hk hjob only phase acts
      | _ => cases hw
  | false =>
      obtain ⟨hw', hspawned⟩ := bystander_kept hw acts
      by_cases hbody : ∃ b, t = .body b ∧ b.jobId = jobId
      · obtain ⟨b, rfl, hjob⟩ := hbody
        obtain ⟨rfl, pc, rfl, hmove⟩ := acts_body acts
        rw [record_other (by simp) at_ acts]
        have hadmitted : op ≠ .none → admitted jobId w i (.body b) = true := by
          intro hne
          cases acts with
          | stepped env t t' op spawned next => exact (guarded hs at_ hg hk ⟨env, .inl rfl⟩).1
          | threw env e t t' throws => exact (hne rfl).elim
          | lost env e t t' t₁ op spawned throws next =>
              exact (guarded hs at_ hg hk ⟨env, .inr ⟨e, rfl⟩⟩).1
          | timedOut t t' out => exact (hne rfl).elim
        obtain ⟨hc', hsole'⟩ := inv_body hc hsole at_ hjob hmove hadmitted
        exact ⟨_, reads_run now op hs, hc', hsole'⟩
      · have hother : ∀ b, t = .body b → b.jobId ≠ jobId :=
          fun b hb hjob => hbody ⟨b, hb, hjob⟩
        have hattempt : ∀ a, t' = .attempt a → a.jobId ≠ jobId := by
          rintro a rfl hjob
          obtain ⟨a₀, pc, rfl, rfl, hmove⟩ := acts_to_attempt acts
          exact (bystander_job hw acts).1 a₀ rfl hjob
        rw [record_other hattempt at_ acts]
        rcases bystander_after hs at_ hg hk hw hother acts with hsame | ⟨hidle, hready, hqueued⟩
        · have hs' : Reads jobId (w.stores.run now op) r := hsame ▸ reads_run now op hs
          refine ⟨r, hs', hc, hsole.other at_ hw hw' hspawned id fun t₁ hphase => hphase.mono ?_⟩
          intro past pc failedIn hworking
          refine hworking.mono fun k b hb hjob => getElem?_advance_other ?_ hb
          rintro rfl
          rw [at_] at hb
          cases hb
          exact hother b rfl hjob
        · -- nothing works on the job while its status is reset
          have hnone := idle_iff.mp hidle
          have hquiet := hsole.of_resting hnone
          have hs' : Reads jobId (w.stores.run now op) { r with status := .QUEUED } :=
            hqueued ▸ reads_run now op hs
          refine ⟨_, hs', hc, ?_⟩
          exact (Sole.resting hnone hquiet : Sole _ _ _ fun _ => False).other at_ hw hw' hspawned
            (fun hq => ⟨hq.blocks, fun hkept => (hq.agrees hkept).unready (hready hkept) (by simp)⟩)
            fun _ hfalse => hfalse.elim

/-- BullMQ or a client acts. -/
theorem inv_outside {act : Action} {new : List Thread} (h : Inv kept jobId (w, attempts))
    (hg : orderly jobId w act = true) (acts : Outside w act op new) :
    Inv kept jobId (⟨w.stores.run 0 op, w.threads ++ new⟩,
      record jobId ⟨w.stores.run 0 op, w.threads ++ new⟩ act attempts) := by
  obtain ⟨r, hs, hc, hsole⟩ := h
  dsimp only at hs hsole
  have hs' : Reads jobId (w.stores.run 0 op) (r.after jobId op) := reads_run 0 op hs
  -- threads that do not work on the job are started
  have hstart : r.after jobId op = r → (∀ t ∈ new, working jobId t = false) →
      record jobId ⟨w.stores.run 0 op, w.threads ++ new⟩ act attempts = attempts →
      Inv kept jobId (⟨w.stores.run 0 op, w.threads ++ new⟩,
        record jobId ⟨w.stores.run 0 op, w.threads ++ new⟩ act attempts) := by
    intro hsame hnew hrecord
    rw [hrecord]
    refine ⟨r, hsame ▸ hs', hc, hsole.append hnew id fun t hphase => hphase.mono ?_⟩
    intro past pc failedIn hworking
    exact hworking.mono fun k b hb _ => (List.getElem?_append_left (lt_of_getElem? hb)).trans hb
  cases acts with
  | called request =>
      refine hstart rfl ?_ rfl
      intro t ht
      rw [List.mem_singleton.mp ht]
      cases request <;> rfl
  | picked id entry queued waiting =>
      by_cases hid : id = jobId
      · subst hid
        have hidle : idle id w = true := by
          simp only [orderly, Bool.or_eq_true, Bool.and_eq_true] at hg
          rcases hg with hne | hboth
          · simp at hne
          · exact hboth.1
        have hnone := idle_iff.mp hidle
        obtain ⟨⟨blocks, htrail, hcounted⟩, hagrees⟩ := hsole.of_resting hnone
        refine ⟨r, hs', hc, ?_⟩
        refine SoleActor.start hnone (by simp [working]) ?_
        refine .attempt _ blocks none ?_ (.reading htrail hagrees)
        simp [record, hcounted]
      · exact hstart rfl (by simp [working, hid]) (by simp [record, hid])
  | promoted id entry queued delayed => exact hstart rfl (by simp) rfl
  | purged id entry queued completed => exact hstart rfl (by simp) rfl
  | uploaded user id bytes => exact hstart rfl (by simp) rfl

theorem inv_step {act : Action} {s s' : World × List (Option Stage)} (h : Inv kept jobId s)
    (hg : orderly jobId s.1 act = true) (hk : kept → keepsReady jobId s.1 act = true)
    (hs : recorded cfg jobId s act = some s') : Inv kept jobId s' := by
  obtain ⟨w', hw, rfl⟩ := Option.map_eq_some_iff.mp hs
  cases step_shape hw with
  | thread i now t t' op spawned at_ acts => exact inv_thread h hg hk at_ acts
  | outside op new acts => exact inv_outside h hg acts

/-- The row is there and not READY, it has no event, and nothing works on it. -/
structure Fresh (jobId : String) (w : World) : Prop where
  row : ∃ job, w.stores.findById jobId = some job ∧ job.deletedAt = none ∧ job.status ≠ .READY
  trail : trail jobId w.stores = []
  idle : idle jobId w = true

theorem inv_fresh (h : Fresh jobId w) : Inv kept jobId (w, []) := by
  obtain ⟨⟨job, hrow, -, hready⟩, htrail, hidle⟩ := h
  refine ⟨⟨job.status, job.transcript, []⟩, ⟨⟨job, hrow, rfl, rfl⟩, htrail⟩, ?_, ?_⟩
  · intro status hmem
    cases hmem
  · exact .resting (idle_iff.mp hidle) ⟨⟨[], rfl, rfl⟩, fun _ => by simpa [Agrees] using hready⟩

/-- The events of a stage that has started go on to a block. -/
theorem begun_within {blocks : List Block} {work : Work}
    (h : Within kept (blockEvents blocks) r work) :
    ∃ blocks', r.trail <+: blockEvents blocks' := by
  obtain ⟨⟨done, htrail, hordered⟩, -, -⟩ := h
  refine ⟨blocks ++ [⟨done ++ [work.stage], none, false, by simpa using hordered⟩],
    [completed work.stage], ?_⟩
  simp [htrail, blockEvents_concat, Block.events, pairs_concat]

theorem begun_whole {blocks : List Block} (h : r.trail = blockEvents blocks) :
    ∃ blocks', r.trail <+: blockEvents blocks' := ⟨blocks, h ▸ List.prefix_rfl⟩

theorem begun_ended {blocks : List Block} (h : Ended kept (blockEvents blocks) r failedIn) :
    ∃ blocks', r.trail <+: blockEvents blocks' := by
  obtain ⟨⟨b, htrail, -, -⟩, -⟩ := h
  exact begun_whole (htrail.trans (blockEvents_concat blocks b).symm)

theorem Phase.begun {t : Thread} (h : Phase kept jobId threads r attempts t) :
    ∃ blocks, r.trail <+: blockEvents blocks := by
  cases h with
  | attempt a blocks failedIn counted working =>
      generalize a.pc = pc at working
      cases working with
      | reading trail agrees => exact begun_whole trail
      | announcing work before => exact begun_ended before.ended
      | starting work before => exact begun_ended before.ended
      | racing work i b at_ job within serving => exact begun_within within
      | completing work result within achieved => exact begun_within within
      | failing work e within unready => exact begun_within within
      | marking e _ mark marking => exact begun_ended marking.ended
      | settled e _ ended => exact begun_ended ended
  | handler h blocks failedIn counted handling =>
      generalize h.pc = pc at handling
      cases handling with
      | marking mark marking => exact begun_ended marking.ended
      | parking ended => exact begun_ended ended

/-- The trail of the job after attempts that failed in these stages. -/
structure Bracketed (jobId : String) (w : World) (attempts : List (Option Stage)) : Prop where
  begun : ∃ blocks, trail jobId w.stores <+: blockEvents blocks
  compiled : ∀ status, ("compile", status) ∈ trail jobId w.stores →
    ∃ job text, w.stores.findById jobId = some job ∧ job.transcript = some text ∧
      JsText.trim text ≠ ""
  ended : idle jobId w = true → ∃ blocks, trail jobId w.stores = blockEvents blocks ∧
    blocks.map Block.failed = attempts ∧ ∀ b ∈ blocks, b.completed.Nodup

theorem Inv.bracketed (h : Inv kept jobId (w, attempts)) : Bracketed jobId w attempts := by
  obtain ⟨r, ⟨⟨job, hrow, -, htext⟩, htrail⟩, hc, hsole⟩ := h
  dsimp only at hrow htrail hsole
  refine ⟨?_, ?_, ?_⟩
  · rw [htrail]
    cases hsole with
    | resting none_ quiet =>
        obtain ⟨blocks, hblocks, -⟩ := quiet.blocks
        exact begun_whole hblocks
    | acting i t only phase => exact phase.begun
  · intro status hmem
    rw [htrail] at hmem
    obtain ⟨text, hsaved, hfull⟩ := hc status hmem
    exact ⟨job, text, hrow, htext.trans hsaved, hfull⟩
  · intro hidle
    obtain ⟨blocks, hblocks, hcounted⟩ := (hsole.of_resting (idle_iff.mp hidle)).blocks
    refine ⟨blocks, htrail.trans hblocks, hcounted.symm, fun b _ => ?_⟩
    have hstages : stages.Nodup := by decide
    exact hstages.sublist ((List.sublist_append_left _ _).trans b.ordered)

theorem Inv.agrees (h : Inv True jobId (w, attempts)) (hidle : idle jobId w = true) :
    completed .render ∈ trail jobId w.stores ↔ isReady jobId w = true := by
  obtain ⟨r, hs, -, hsole⟩ := h
  have hagrees : Agrees r := (hsole.of_resting (idle_iff.mp hidle)).agrees trivial
  rw [hs.trail, isReady_iff hs]
  exact hagrees.symm

def Orderly (jobId : String) (s : World × List (Option Stage)) (act : Action) : Prop :=
  orderly jobId s.1 act = true

def KeepsReady (jobId : String) (s : World × List (Option Stage)) (act : Action) : Prop :=
  keepsReady jobId s.1 act = true

instance (jobId : String) : DecidableRel (Orderly jobId) :=
  fun s act => inferInstanceAs (Decidable (orderly jobId s.1 act = true))

instance (jobId : String) : DecidableRel (KeepsReady jobId) :=
  fun s act => inferInstanceAs (Decidable (keepsReady jobId s.1 act = true))

/-- Orderly steps that keep READY. -/
def Kept (jobId : String) (s : World × List (Option Stage)) (act : Action) : Prop :=
  Orderly jobId s act ∧ KeepsReady jobId s act

instance (jobId : String) : DecidableRel (Kept jobId) :=
  fun s act => inferInstanceAs (Decidable (Orderly jobId s act ∧ KeepsReady jobId s act))

/-- Whatever the outcomes of the stages, the trail is a sequence of blocks, one for each attempt. -/
theorem trail_blocks (cfg : ServerConfig) {w w' : World} {jobId : String}
    {attempts : List (Option Stage)} (h : Fresh jobId w)
    (hrun : Run (recorded cfg jobId) (Orderly jobId) (w, []) (w', attempts)) :
    Bracketed jobId w' attempts := by
  have hinv : Inv False jobId (w', attempts) :=
    hrun.invariant (I := fun s => Inv False jobId s) (inv_fresh h)
      fun s act s' hs hg hstep => inv_step hs hg False.elim hstep
  exact hinv.bracketed

/-- As long as READY is kept, the trail also says whether the job is READY. -/
theorem trail_bracketed (cfg : ServerConfig) {w w' : World} {jobId : String}
    {attempts : List (Option Stage)} (h : Fresh jobId w)
    (hrun : Run (recorded cfg jobId) (Kept jobId) (w, []) (w', attempts)) :
    Bracketed jobId w' attempts ∧
      (idle jobId w' = true →
        (completed .render ∈ trail jobId w'.stores ↔ isReady jobId w' = true)) := by
  have hinv : Inv True jobId (w', attempts) :=
    hrun.invariant (I := fun s => Inv True jobId s) (inv_fresh h)
      fun s act s' hs hg hstep => inv_step hs hg.1 (fun _ => hg.2) hstep
  exact ⟨trail_blocks cfg h (hrun.mono fun _ _ hg => hg.1), hinv.agrees⟩

/-- A job that is submitted and not processed yet. -/
def untouched (w : World) : Bool :=
  idle "job-1" w && (trail "job-1" w.stores).isEmpty &&
    (w.stores.findById "job-1").any fun job => job.deletedAt.isNone && job.status ≠ .READY

theorem untouched_fresh (h : untouched w = true) : Fresh "job-1" w := by
  simp only [untouched, Bool.and_eq_true, List.isEmpty_iff, Option.any_eq_true,
    Option.isNone_iff_eq_none, decide_eq_true_eq] at h
  obtain ⟨⟨hidle, htrail⟩, job, hrow, hlive, hready⟩ := h
  exact ⟨⟨job, hrow, hlive, hready⟩, htrail, hidle⟩

/-- A transient and a permanent failure, and then a second entry that succeeds. -/
theorem trail_bracketed_demo : ∃ (w w' : World) (attempts : List (Option Stage)),
    Fresh "job-1" w ∧ Run (recorded demo "job-1") (Kept "job-1") (w, []) (w', attempts) ∧
    attempts = [some .transcribe, some .transcribe, none] ∧ Bracketed "job-1" w' attempts ∧
    (completed .render ∈ trail "job-1" w'.stores ↔ isReady "job-1" w' = true) := by
  have hexec : ((exec (step demo) submitSchedule World.empty).any fun w =>
      untouched w && (execWhere (recorded demo "job-1") (Kept "job-1")
        SequentialOutcome.secondEntrySchedule (w, [])).any fun s =>
          idle "job-1" s.1 && s.2 = [some .transcribe, some .transcribe, none]) = true := by decide
  obtain ⟨w, -, hw⟩ := exec_any hexec
  simp only [Bool.and_eq_true] at hw
  obtain ⟨hfresh, hsecond⟩ := hw
  obtain ⟨⟨w', attempts⟩, hrun, hend⟩ := execWhere_any hsecond
  simp only [Bool.and_eq_true, decide_eq_true_eq] at hend
  obtain ⟨hbracketed, hagrees⟩ := trail_bracketed demo (untouched_fresh hfresh) hrun
  exact ⟨w, w', attempts, untouched_fresh hfresh, hrun, hend.2, hbracketed, hagrees hend.1⟩

def connectionLost : Err := ⟨"Connection lost", false, false⟩

/-- The body of the render stage marks the job READY, and the stage fails all the same. -/
def lateAnswerSchedule (ending : List Action) : List Action :=
  checkSchedule 1 ++ enqueueSchedule 1 ++ compileSchedule 2 ++ renderSchedule 2 ++ ending ++
    [.step 2 {}, .ack 2]

/-- The answer of the last statement is lost. -/
def lostAnswer : List Action := [.throw 5 {} connectionLost true, .step 2 {}]

/-- The answer comes after the stage timeout. -/
def slowAnswer : List Action := [.step 5 {}, .timeout 2]

/-- An attempt as thread `i` that cannot read the row. -/
def unreadableSchedule (i : ℕ) : List Action :=
  [.pick "job-1", .throw i {} connectionLost false, .ack i]

/-- Of two calls of `process` one adds its entry when the job is READY already, and the attempts
of that entry cannot read the row. -/
def requeuedSchedule : List Action :=
  checkSchedule 1 ++ checkSchedule 2 ++ .step 2 {} :: enqueueSchedule 1 ++ compileSchedule 3 ++
    renderSchedule 3 ++ finishSchedule 3 ++ steps 2 4 {} ++ unreadableSchedule 7 ++
    .promote "job-1" :: unreadableSchedule 8 ++ .promote "job-1" :: unreadableSchedule 9 ++ steps 10 4 {}

/-- READY and the completed render stage do not agree between attempts. -/
def disagrees (ready : Bool) (s : World × List (Option Stage)) : Bool :=
  idle "job-1" s.1 && isReady "job-1" s.1 = ready &&
    (trail "job-1" s.1.stores).contains (completed .render) = !ready

theorem disagrees_spec {ready : Bool} {s : World × List (Option Stage)}
    (h : disagrees ready s = true) : idle "job-1" s.1 = true ∧ isReady "job-1" s.1 = ready ∧
      (completed .render ∈ trail "job-1" s.1.stores ↔ ready = false) := by
  simp only [disagrees, Bool.and_eq_true, decide_eq_true_eq] at h
  refine ⟨h.1.1, h.1.2, ?_⟩
  rw [← List.contains_iff_mem, h.2]
  cases ready <;> simp

/-- A job may be READY without a completed render stage, and FAILED with one. -/
theorem ready_without_completion : ∃ w : World, Fresh "job-1" w ∧
    (∀ ending ∈ [lostAnswer, slowAnswer], ∃ (w₁ : World) (attempts : List (Option Stage)),
      Run (recorded demo "job-1") (Orderly "job-1") (w, []) (w₁, attempts) ∧
      idle "job-1" w₁ = true ∧ isReady "job-1" w₁ = true ∧
      completed .render ∉ trail "job-1" w₁.stores) ∧
    ∃ (w₂ : World) (attempts : List (Option Stage)),
      Run (recorded demo "job-1") (Orderly "job-1") (w, []) (w₂, attempts) ∧
      idle "job-1" w₂ = true ∧ isReady "job-1" w₂ = false ∧
      completed .render ∈ trail "job-1" w₂.stores := by
  have hexec : ((exec (step demo) submitSchedule World.empty).any fun w =>
      untouched w &&
        ([lostAnswer, slowAnswer].all fun ending => (execWhere (recorded demo "job-1")
          (Orderly "job-1") (lateAnswerSchedule ending) (w, [])).any (disagrees true)) &&
        (execWhere (recorded demo "job-1") (Orderly "job-1") requeuedSchedule (w, [])).any
          (disagrees false)) = true := by decide
  obtain ⟨w, -, hw⟩ := exec_any hexec
  simp only [Bool.and_eq_true, List.all_eq_true] at hw
  obtain ⟨⟨hfresh, hlate⟩, hrequeued⟩ := hw
  refine ⟨w, untouched_fresh hfresh, ?_, ?_⟩
  · intro ending hending
    obtain ⟨⟨w₁, attempts⟩, hrun, hend⟩ := execWhere_any (hlate ending hending)
    obtain ⟨hidle, hready, hmem⟩ := disagrees_spec hend
    exact ⟨w₁, attempts, hrun, hidle, hready, by simpa using hmem⟩
  · obtain ⟨⟨w₂, attempts⟩, hrun, hend⟩ := execWhere_any hrequeued
    obtain ⟨hidle, hready, hmem⟩ := disagrees_spec hend
    exact ⟨w₂, attempts, hrun, hidle, hready, by simpa using hmem⟩

end FieldNote.BracketedTrail
