import FieldNote.ReadyComplete
import FieldNote.SpelledIds

/-!
# READY jobs and the spelling of their ids

As long as every `process` call that finds a job to process names it in the canonical spelling,
the ids in the queue and of all that comes of it are canonical, and the run is one of
`ServerRuns.step` once the other paths are written canonically. A `process` call in upper case
ends in a READY row whose PDF lies under another key than the one of the row's id.
-/
namespace FieldNote.CanonicalRuns
open JobsService PipelineService ServerRuns ObjectKeys GuardedRuns SpelledIds CallPool

def canonicalThread : Thread → Thread
  | .process c => .process { c with jobId := canonical c.jobId }
  | .update c => .update { c with jobId := canonical c.jobId }
  | .remove c => .remove { c with jobId := canonical c.jobId }
  | t => t

/-- The world in which the paths of the requests are written canonically. -/
def canonicalWorld (w : World) : World := ⟨w.stores, w.threads.map canonicalThread⟩

def canonicalRequest : Request → Request
  | .create userId label key => .create userId label key
  | .process userId jobId => .process userId (canonical jobId)
  | .update userId jobId dto => .update userId (canonical jobId) dto
  | .remove userId jobId => .remove userId (canonical jobId)

def canonicalAction : Action → Action
  | .call request => .call (canonicalRequest request)
  | a => a

/-- A create call that inserts gives its row a UUID in lower case. -/
def insertsCanonical (env : Env) : Thread → Bool
  | .create c => c.pc ≠ .createDraft || (isUuid env.id && canonical env.id = env.id)
  | _ => true

/-- A `process` call that finds a job to process names it in the canonical spelling. -/
def startsCanonical (s : Stores) : Thread → Bool
  | .process c =>
      c.pc ≠ .findScoped || canonical c.jobId = c.jobId ||
        (s.findScoped c.userId (canonical c.jobId)).all fun job =>
          job.status = .READY || job.status.inFlight
  | _ => true

def canonicalIds (w : World) : Action → Bool
  | .step i env =>
      w.threads[i]?.all fun t => insertsCanonical env t && startsCanonical w.stores t
  | .throw i env _ true => w.threads[i]?.all (insertsCanonical env)
  | _ => true

def CanonicalIds (w : World) (a : Action) : Prop := canonicalIds w a = true

instance : DecidableRel CanonicalIds := fun _ _ => inferInstanceAs (Decidable (_ = true))

/-- Past its first read a `process` call is canonical, and so is everything behind the queue. -/
def Spelled : Thread → Prop
  | .process c =>
      match c.pc with
      | .findScoped | .returned _ | .threw _ => True
      | _ => canonical c.jobId = c.jobId
  | .attempt a => canonical a.jobId = a.jobId
  | .body b => canonical b.jobId = b.jobId
  | .handler h => canonical h.jobId = h.jobId
  | _ => True

structure Lower (w : World) : Prop where
  threads : ∀ t ∈ w.threads, Spelled t
  queue : ∀ jobId entry, w.stores.queue jobId = some entry → canonical jobId = jobId

variable {cfg : ServerConfig} {w w' : World} {env : Env} {op : Op} {jobId : String}

theorem lower_empty : Lower World.empty := by
  refine ⟨?_, ?_⟩
  · intro t ht
    cases ht
  · intro jobId entry hq
    cases hq

/-! ## The canonical run -/

theorem bodyResult_canonical (i : ℕ) : (canonicalWorld w).bodyResult i = w.bodyResult i := by
  simp only [World.bodyResult, canonicalWorld, List.getElem?_map]
  cases w.threads[i]? with
  | none => rfl
  | some t => cases t <;> rfl

theorem spawn_canonical (a : Attempt) (now : ℕ) :
    (Attempt.spawn a now).map canonicalThread = Attempt.spawn a now := by
  unfold Attempt.spawn
  split <;> rfl

theorem settle_canonical (entry : Entry) (e : Option Err) :
    (settle cfg jobId entry e).2.map canonicalThread = (settle cfg jobId entry e).2 := by
  unfold settle
  split
  · rfl
  · dsimp only
    split_ifs <;> rfl

/-- An operation on canonical ids is canonical. -/
theorem canonicalOp_process {s : Stores} {c : ProcessCall} (hc : canonical c.jobId = c.jobId) :
    (nextProcess cfg s c).map (fun (pc, op) => (pc, canonicalOp op)) = nextProcess cfg s c := by
  rcases c with ⟨userId, id, pc⟩
  dsimp only at hc
  cases pc with
  | findScoped =>
      simp only [nextProcess]
      split
      · rfl
      · split_ifs <;> rfl
  | objectExists job =>
      simp only [nextProcess]
      split_ifs <;> rfl
  | setStatus job => simp only [nextProcess, Option.map_some, canonicalOp, hc]
  | getJob job =>
      simp only [nextProcess]
      split <;> rfl
  | getState job =>
      simp only [nextProcess]
      split <;> rfl
  | remove job =>
      simp only [nextProcess]
      split <;> rfl
  | add job =>
      simp only [nextProcess]
      split <;> rfl
  | _ => rfl

theorem canonicalOp_body {s : Stores} {b : Body} (hb : canonical b.jobId = b.jobId) :
    (nextBody s env b).map (fun (pc, op) => (pc, canonicalOp op)) = nextBody s env b := by
  rcases b with ⟨id, userId, pc⟩
  dsimp only at hb
  cases pc with
  | getObjectStream key =>
      simp only [nextBody]
      split_ifs <;> rfl
  | transcribe key =>
      simp only [nextBody]
      split_ifs <;> rfl
  | saveTranscript text => simp only [nextBody, Option.map_some, canonicalOp, hb]
  | replaceReport sections => simp only [nextBody, Option.map_some, canonicalOp, hb]
  | setPdfReady view => simp only [nextBody, Option.map_some, canonicalOp, hb]
  | _ => rfl

theorem spelledProcess_canonical {s : Stores} {c : ProcessCall} (hc : Spelled (.process c)) :
    spelledProcess cfg s c = nextProcess cfg s { c with jobId := canonical c.jobId } := by
  rcases c with ⟨userId, id, pc⟩
  cases pc with
  | findScoped => rfl
  | findAgain job => rfl
  | returned dto => rfl
  | threw error => rfl
  | _ =>
      have hid : canonical id = id := by simpa only [Spelled] using hc
      simp only [spelledProcess, hid]
      exact canonicalOp_process hid

theorem spelledAttempt_canonical {a : Attempt} (ha : canonical a.jobId = a.jobId) :
    spelledAttempt w a = nextAttempt w.stores a w.threads.length w.bodyResult := by
  rcases a with ⟨id, userId, pc⟩
  dsimp only at ha
  cases pc <;> simp only [spelledAttempt, nextAttempt, ha]

theorem spelledHandler_canonical {s : Stores} {h : Handler} (hh : canonical h.jobId = h.jobId) :
    spelledHandler s h = nextHandler s h := by
  rcases h with ⟨id, userId, e, made, pc⟩
  dsimp only at hh
  cases pc <;> simp only [spelledHandler, hh]

/-- A segment is the canonical thread's in the canonical world. -/
theorem next_canonical {t : Thread} (ht : Spelled t) :
    next cfg (canonicalWorld w) env (canonicalThread t) =
      (spelledNext cfg w env t).map fun r => (canonicalThread r.1, r.2.1, r.2.2) := by
  cases t with
  | process c =>
      simp only [next, spelledNext, canonicalThread, spelledProcess_canonical ht, Option.map_map]
      rfl
  | attempt a =>
      have hbody : (canonicalWorld w).bodyResult = w.bodyResult := funext bodyResult_canonical
      have hlength : (canonicalWorld w).threads.length = w.threads.length := List.length_map _
      simp only [next, spelledNext, canonicalThread, spelledAttempt_canonical ht, hbody, hlength,
        Option.map_map]
      rfl
  | body b =>
      simp only [next, spelledNext, canonicalThread, spelledBody, canonicalOp_body ht,
        Option.map_map]
      rfl
  | handler h =>
      simp only [next, spelledNext, canonicalThread, spelledHandler_canonical ht, Option.map_map]
      rfl
  | _ =>
      simp only [next, spelledNext, canonicalThread, Option.map_map]
      rfl

theorem throwing_canonical {e : Err} {t : Thread} :
    throwing e (canonicalThread t) = (throwing e t).map canonicalThread := by
  cases t <;> simp only [throwing, canonicalThread, Option.map_map] <;> rfl

theorem timingOut_canonical {t : Thread} :
    timingOut cfg (canonicalThread t) = (timingOut cfg t).map canonicalThread := by
  cases t with
  | attempt a =>
      simp only [timingOut, canonicalThread]
      split <;> rfl
  | _ => rfl

theorem advance_canonical {i now : ℕ} {t' : Thread} {spawned : List Thread}
    (hsp : spawned.map canonicalThread = spawned) :
    canonicalWorld (w.advance now i t' op spawned) =
      (canonicalWorld w).advance now i (canonicalThread t') op spawned := by
  simp only [canonicalWorld, World.advance, List.map_append, List.map_set, hsp]

theorem get_canonical {i : ℕ} {t : Thread} (ht : w.threads[i]? = some t) :
    (canonicalWorld w).threads[i]? = some (canonicalThread t) := by
  rw [canonicalWorld, List.getElem?_map, ht, Option.map_some]

theorem spelledNext_spawned {t t' : Thread} {spawned : List Thread}
    (h : spelledNext cfg w env t = some (t', op, spawned)) :
    spawned.map canonicalThread = spawned := by
  cases t with
  | attempt a =>
      obtain ⟨⟨pc, op'⟩, -, he⟩ := Option.map_eq_some_iff.mp h
      cases he
      exact spawn_canonical a env.now
  | _ =>
      obtain ⟨⟨pc, op'⟩, -, he⟩ := Option.map_eq_some_iff.mp h
      cases he
      rfl

theorem moveEntry_canonical {from_ : EntryState} {f : Entry → Option Entry}
    {new : Entry → List Thread} (hnew : ∀ entry, (new entry).map canonicalThread = new entry)
    (hs : w.moveEntry jobId from_ f new = some w') :
    (canonicalWorld w).moveEntry jobId from_ f new = some (canonicalWorld w') := by
  obtain ⟨entry, hq, hstate, rfl⟩ := moveEntry_eq_some hs
  simp only [World.moveEntry, canonicalWorld, hq, hstate, if_true, List.map_append, hnew]

/-- A step makes of the canonical world what it makes of the world. -/
theorem step_canonical {a : Action} (h : Lower w) (hs : spelledStep cfg w a = some w') :
    step cfg (canonicalWorld w) (canonicalAction a) = some (canonicalWorld w') := by
  cases a with
  | call request =>
      simp only [spelledStep] at hs
      split_ifs at hs
      cases hs
      simp only [canonicalAction, step, canonicalWorld, List.map_append]
      cases request <;> rfl
  | step i env =>
      obtain ⟨t, ht, hs⟩ := Option.bind_eq_some_iff.mp hs
      obtain ⟨⟨t', op, spawned⟩, hn, rfl⟩ := Option.map_eq_some_iff.mp hs
      have hnext : next cfg (canonicalWorld w) env (canonicalThread t) = _ :=
        next_canonical (h.threads t (List.mem_of_getElem? ht))
      simp only [canonicalAction, step, get_canonical ht, Option.bind_some, hnext, hn,
        Option.map_some, advance_canonical (spelledNext_spawned hn)]
  | throw i env e applied =>
      obtain ⟨t, ht, hs⟩ := Option.bind_eq_some_iff.mp hs
      obtain ⟨t', ht', hs⟩ := Option.bind_eq_some_iff.mp hs
      cases applied with
      | false =>
          cases hs
          simp only [canonicalAction, step, get_canonical ht, Option.bind_some, throwing_canonical,
            ht', Option.map_some, Bool.false_eq_true, if_false, advance_canonical List.map_nil]
      | true =>
          obtain ⟨⟨t₁, op, spawned⟩, hn, rfl⟩ := Option.map_eq_some_iff.mp hs
          have hnext : next cfg (canonicalWorld w) env (canonicalThread t) = _ :=
            next_canonical (h.threads t (List.mem_of_getElem? ht))
          simp only [canonicalAction, step, get_canonical ht, Option.bind_some, throwing_canonical,
            ht', Option.map_some, if_true, hnext, hn, advance_canonical List.map_nil]
  | timeout i =>
      obtain ⟨t, ht, hs⟩ := Option.bind_eq_some_iff.mp hs
      obtain ⟨t', ht', rfl⟩ := Option.map_eq_some_iff.mp hs
      simp only [canonicalAction, step, get_canonical ht, Option.bind_some, timingOut_canonical,
        ht', Option.map_some, advance_canonical List.map_nil]
  | ack i =>
      cases step_effect (show step cfg w (.ack i) = some w' from hs) with
      | acked i a e entry thread pc queued =>
          have hget := get_canonical thread
          have hqueue : (canonicalWorld w).stores.queue a.jobId = some entry := queued
          simp only [canonicalThread] at hget
          simp only [canonicalAction, step, hget, Option.bind_some, pc, hqueue,
            advance_canonical (settle_canonical entry e)]
          rfl
  | pick jobId => exact moveEntry_canonical (fun _ => rfl) hs
  | promote jobId => exact moveEntry_canonical (fun _ => rfl) hs
  | purge jobId => exact moveEntry_canonical (fun _ => rfl) hs
  | upload userId id bytes =>
      cases hs
      rfl

theorem uuidIds_canonical {a : Action} (hg : CanonicalIds w a) :
    UuidIds (canonicalWorld w) (canonicalAction a) := by
  have hinserts : ∀ {t : Thread} {env : Env}, insertsCanonical env t = true →
      insertsUuid env (canonicalThread t) = true := by
    intro t env ht
    cases t with
    | create c =>
        by_cases hpc : c.pc = .createDraft
        · have huuid : isUuid env.id = true ∧ canonical env.id = env.id := by
            simpa [insertsCanonical, hpc] using ht
          simpa [insertsUuid, canonicalThread, hpc] using isUuid_slash huuid.1
        · simp [insertsUuid, canonicalThread, hpc]
    | _ => rfl
  have hthreads : ∀ {i : ℕ} {env : Env}, (∀ t, w.threads[i]? = some t → insertsCanonical env t = true) →
      (canonicalWorld w).threads[i]?.all (insertsUuid env) = true := by
    intro i env hall
    rw [canonicalWorld, List.getElem?_map]
    cases ht : w.threads[i]? with
    | none => rfl
    | some t => exact hinserts (hall t ht)
  cases a with
  | step i env =>
      refine hthreads fun t ht => ?_
      have hboth : (insertsCanonical env t && startsCanonical w.stores t) = true := by
        simpa [CanonicalIds, canonicalIds, ht] using hg
      exact (Bool.and_eq_true_iff.mp hboth).1
  | throw i env e applied =>
      cases applied with
      | false => rfl
      | true => exact hthreads fun t ht => by simpa [CanonicalIds, canonicalIds, ht] using hg
  | _ => rfl

/-! ## The spelling behind the queue -/

theorem spelled_of_canonical {c : ProcessCall} (hc : canonical c.jobId = c.jobId) :
    Spelled (.process c) := by
  rcases c with ⟨userId, id, pc⟩
  cases pc <;> first | exact hc | trivial

/-- A `process` call goes on past its first read in the canonical spelling only. -/
theorem process_spelled {s : Stores} {c : ProcessCall} {pc : ProcessPc} (hc : Spelled (.process c))
    (hg : startsCanonical s (.process c) = true) (h : spelledProcess cfg s c = some (pc, op)) :
    Spelled (.process { c with pc := pc }) := by
  by_cases hid : canonical c.jobId = c.jobId
  · exact spelled_of_canonical hid
  · rcases c with ⟨userId, id, pc₀⟩
    cases pc₀ with
    | findScoped =>
        simp only [spelledProcess, nextProcess] at h
        split at h
        · cases h
          trivial
        · rename_i job hjob
          have hready : job.status = .READY ∨ job.status.inFlight = true := by
            simpa [startsCanonical, hid, hjob] using hg
          split_ifs at h with hr hf
          · cases h
            trivial
          · cases h
            trivial
          · exact (hready.elim hr hf).elim
    | findAgain job =>
        cases h
        trivial
    | returned dto => cases h
    | threw error => cases h
    | _ => exact (hid hc).elim

theorem thread_spelled {i now : ℕ} {act : Action} {t t' : Thread} {spawned : List Thread}
    (ht : Spelled t) (at_ : w.threads[i]? = some t) (hg : CanonicalIds w act)
    (acts : SpelledActs cfg w i act t now t' op spawned) : Spelled t' := by
  have hsame := acts.sameCall
  cases hsame with
  | process c pc =>
      cases acts with
      | stepped env t t' op spawned next =>
          obtain ⟨⟨pc', op'⟩, hn, he⟩ := Option.map_eq_some_iff.mp next
          cases he
          have hboth : (insertsCanonical env (.process c) &&
              startsCanonical w.stores (.process c)) = true := by
            simpa [CanonicalIds, canonicalIds, at_] using hg
          exact process_spelled ht (Bool.and_eq_true_iff.mp hboth).2 hn
      | threw env e t t' throws =>
          cases throwing_cases throws with
          | process c => trivial
      | lost env e t t' t₁ op spawned throws next =>
          cases throwing_cases throws with
          | process c => trivial
      | timedOut t t' out =>
          obtain ⟨a, work, body, ha, -⟩ := timingOut_eq out
          cases ha
  | create c pc => trivial
  | update c pc => trivial
  | remove c pc => trivial
  | attempt a pc => exact ht
  | body b pc => exact ht
  | handler h pc => exact ht

/-- An entry is added under a canonical id. -/
theorem entry_canonical {t : Thread} {id : String} {entry : Entry} (ht : Spelled t)
    (h : Operates (canonicalWorld w) env (canonicalThread t) op)
    (he : op.newEntry = some (id, some entry)) : canonical id = id := by
  generalize hu : canonicalThread t = u at h
  cases h with
  | addEntry c job pc =>
      cases he
      cases t with
      | process c₀ =>
          cases hu
          have hid : canonical c₀.jobId = c₀.jobId := by
            have hpc : c₀.pc = .add job := pc
            simpa only [Spelled, hpc] using ht
          simp only [hid]
      | _ => cases hu
  | _ => cases he

theorem acts_entry {i now : ℕ} {act : Action} {t t' : Thread} {id : String} {entry : Entry}
    {spawned : List Thread} (ht : Spelled t) (acts : SpelledActs cfg w i act t now t' op spawned)
    (he : op.newEntry = some (id, some entry)) : canonical id = id := by
  have hnext : ∀ {env : Env} {t₁ : Thread} {spawned : List Thread},
      spelledNext cfg w env t = some (t₁, op, spawned) → canonical id = id := by
    intro env t₁ spawned hn
    have hcanonical : next cfg (canonicalWorld w) env (canonicalThread t) =
        some (canonicalThread t₁, op, spawned) := by rw [next_canonical ht, hn, Option.map_some]
    exact entry_canonical ht (next_operates hcanonical) he
  cases acts with
  | stepped env t t' op spawned next => exact hnext next
  | threw env e t t' throws => cases he
  | lost env e t t' t₁ op spawned throws next => exact hnext next
  | timedOut t t' out => cases he
  | acked a e entry pc queued =>
      cases he
      exact ht

theorem queue_canonical {now : ℕ} {id : String} {entry : Entry}
    (h : ∀ id entry, w.stores.queue id = some entry → canonical id = id)
    (hop : ∀ id entry, op.newEntry = some (id, some entry) → canonical id = id)
    (hq : (w.stores.run now op).queue id = some entry) : canonical id = id := by
  by_cases hnew : ∃ e, op.newEntry = some (id, e)
  · obtain ⟨e, he⟩ := hnew
    rw [Stores.run_queue_set he] at hq
    subst hq
    exact hop id entry he
  · rw [Stores.run_queue_same (by simpa using hnew)] at hq
    exact h id entry hq

/-- BullMQ and the clients start canonical threads and move canonical entries. -/
theorem outside_spelled {act : Action} {new : List Thread} (h : Lower w)
    (acts : Outside w act op new) :
    (∀ t ∈ new, Spelled t) ∧
      ∀ id entry, op.newEntry = some (id, some entry) → canonical id = id := by
  cases acts with
  | called request =>
      refine ⟨fun t ht => ?_, nofun⟩
      rw [List.mem_singleton.mp ht]
      cases request <;> trivial
  | picked jobId entry queued waiting =>
      have hid := h.queue jobId entry queued
      refine ⟨fun t ht => ?_, fun id e he => ?_⟩
      · rw [List.mem_singleton.mp ht]
        exact hid
      · cases he
        exact hid
  | promoted jobId entry queued delayed =>
      refine ⟨by simp, fun id e he => ?_⟩
      cases he
      exact h.queue jobId entry queued
  | purged jobId entry queued completed => exact ⟨by simp, nofun⟩
  | uploaded userId id bytes => exact ⟨by simp, nofun⟩

theorem lower_step {a : Action} (h : Lower w) (hg : CanonicalIds w a)
    (hs : spelledStep cfg w a = some w') : Lower w' := by
  cases spelled_shape hs with
  | thread i now t t' op spawned at_ acts =>
      have ht := h.threads t (List.mem_of_getElem? at_)
      refine ⟨?_, fun id entry hq => queue_canonical h.queue (fun _ _ => acts_entry ht acts) hq⟩
      intro t₁ ht₁
      rcases mem_advance ht₁ with hold | rfl | hsp
      · exact h.threads t₁ hold
      · exact thread_spelled ht at_ hg acts
      · rcases spelled_spawned acts hsp with ⟨a, work, rfl, -, rfl⟩ | ⟨a, err, entry, rfl, -, rfl⟩
        · exact ht
        · exact ht
  | outside op new acts =>
      obtain ⟨hnew, hentry⟩ := outside_spelled h acts
      refine ⟨?_, fun id entry hq => queue_canonical h.queue hentry hq⟩
      intro t ht
      rcases List.mem_append.mp ht with hold | ht
      · exact h.threads t hold
      · exact hnew t ht

/-- A run in which the ids of the jobs to process are canonical is, up to the spelling of the
other paths, one of `step`. -/
theorem run_canonical (hw : Run (spelledStep cfg) CanonicalIds World.empty w) :
    Run (step cfg) UuidIds World.empty (canonicalWorld w) := by
  have hboth : Lower w ∧ Run (step cfg) UuidIds World.empty (canonicalWorld w) := by
    induction hw with
    | refl => exact ⟨lower_empty, .refl _⟩
    | tail _ hmove ih =>
        obtain ⟨a, hg, hs⟩ := hmove
        exact ⟨lower_step ih.1 hg hs,
          ih.2.tail (uuidIds_canonical hg) (step_canonical ih.1 hs)⟩
  exact hboth.2

/-- A live READY job has a transcript with text, the key of its PDF and the object under it,
and no call that deletes another job is going to remove the object. -/
theorem ready_job_complete (cfg : ServerConfig) {w : World} {jobId : String} {job : Job}
    (hw : Run (spelledStep cfg) CanonicalIds World.empty w)
    (hjob : w.stores.findById jobId = some job) (hlive : job.deletedAt = none)
    (hready : job.status = .READY) :
    (∃ text, job.transcript = some text ∧ JsText.trim text ≠ "") ∧
      job.pdfKey = some (pdfKey job.userId jobId) ∧
      (∃ object, w.stores.bucket (pdfKey job.userId jobId) = some object) ∧
      ∀ c other, Thread.remove c ∈ w.threads → c.pc = .deleteObjects other →
        canonical c.jobId ≠ jobId → pdfKey job.userId jobId ∉ other.objectKeys := by
  have hrow : (canonicalWorld w).stores.findById jobId = some job := hjob
  obtain ⟨htext, hkey, hobject, hremove⟩ :=
    ReadyComplete.ready_complete cfg (run_canonical hw) hrow hlive hready
  refine ⟨htext, hkey, hobject, ?_⟩
  intro c other hc hpc hne
  exact hremove { c with jobId := canonical c.jobId } other
    (List.mem_map.mpr ⟨.remove c, hc, rfl⟩) hpc hne

def siteId : String := "a0000000-0000-4000-8000-000000000001"
def upperSiteId : String := "A0000000-0000-4000-8000-000000000001"

/-- `user-1` records a job, `process` names it in the given spelling, and the worker takes it to
the end. -/
def spelledSchedule (spelling : String) : List Action :=
  [.call (.create "user-1" "Site A" none), .step 0 { id := siteId },
    .upload "user-1" siteId "recording", .call (.process "user-1" spelling)] ++ steps 1 6 {} ++
  [.pick spelling] ++ steps 2 3 {} ++ steps 3 3 { text := "transcript" } ++ steps 2 4 {} ++
    steps 4 2 { sections := demoReport } ++ steps 2 2 {} ++ renderSchedule 2 ++ finishSchedule 2

/-- The row of the job, when it is live and READY. -/
def readyRow (w : World) : Option Job :=
  (w.stores.findById siteId).filter fun job => job.deletedAt = none && job.status = .READY

theorem readyRow_eq {job : Job} (h : readyRow w = some job) :
    w.stores.findById siteId = some job ∧ job.deletedAt = none ∧ job.status = .READY := by
  simpa [readyRow, Option.filter_eq_some_iff] using h

theorem ready_job_complete_demo :
    ∃ w job, Run (spelledStep demo) CanonicalIds World.empty w ∧
      w.stores.findById siteId = some job ∧ job.pdfKey = some (pdfKey job.userId siteId) := by
  have hend : (execWhere (spelledStep demo) CanonicalIds (spelledSchedule siteId)
      World.empty).any (fun w => (readyRow w).isSome) = true := by decide
  obtain ⟨w, hw, hp⟩ := execWhere_any hend
  obtain ⟨job, hjob⟩ := Option.isSome_iff_exists.mp hp
  obtain ⟨hrow, hlive, hready⟩ := readyRow_eq hjob
  exact ⟨w, job, hw, hrow, (ready_job_complete demo hw hrow hlive hready).2.1⟩

/-- After a `process` call in upper case the live READY row has another PDF key, and nothing is
stored under the key of its id. -/
theorem upper_case_incomplete :
    ∃ w job, isUuid upperSiteId = true ∧
      exec (spelledStep demo) (spelledSchedule upperSiteId) World.empty = some w ∧
      w.stores.findById siteId = some job ∧ job.deletedAt = none ∧ job.status = .READY ∧
        job.pdfKey = some (pdfKey job.userId upperSiteId) ∧
          pdfKey job.userId upperSiteId ≠ pdfKey job.userId siteId ∧
            w.stores.bucket (pdfKey job.userId siteId) = none := by
  have hend : (exec (spelledStep demo) (spelledSchedule upperSiteId) World.empty).any (fun w =>
      (readyRow w).any fun job => decide (job.pdfKey = some (pdfKey job.userId upperSiteId) ∧
        pdfKey job.userId upperSiteId ≠ pdfKey job.userId siteId) &&
          (w.stores.bucket (pdfKey job.userId siteId)).isNone) = true := by decide
  obtain ⟨w, hw, hp⟩ := (Option.any_eq_true _ _).mp hend
  obtain ⟨job, hjob, hp⟩ := (Option.any_eq_true _ _).mp hp
  obtain ⟨hrow, hlive, hready⟩ := readyRow_eq hjob
  obtain ⟨hkeys, hfree⟩ := Bool.and_eq_true_iff.mp hp
  obtain ⟨hkey, hne⟩ := of_decide_eq_true hkeys
  exact ⟨w, job, by decide, hw, hrow, hlive, hready, hkey, hne, Option.isNone_iff_eq_none.mp hfree⟩

end FieldNote.CanonicalRuns
