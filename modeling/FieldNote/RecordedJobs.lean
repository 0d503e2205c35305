import FieldNote.AttemptBudget
import FieldNote.DeletedMedia

/-!
# A job under way has its recording

`process` asks the bucket for the recording before it queues the job, and the status leaves
CREATED only by that write. Between the two awaits, and ever after, only a deletion of the job
itself deletes the object, so a live job that was ever queued has its recording, and a
transcription can miss it only for a deleted job.
-/
namespace FieldNote.RecordedJobs
open JobsService PipelineService ServerRuns GuardedRuns CallPool ObjectKeys DeletedMedia

/-- The job was queued at some time. -/
def Past (s : Stores) (jobId : String) : Prop :=
  ∃ row, s.findById jobId = some row ∧ row.status ≠ .CREATED

/-- The job has its recording, or is deleted. -/
def Present (s : Stores) (jobId : String) : Prop :=
  ∃ row, s.findById jobId = some row ∧
    (row.deletedAt = none → (s.bucket (audioKey row.userId jobId)).isSome = true)

/-- What a `process` call knows of its job at its awaits. -/
def checked (s : Stores) (jobId : String) : ProcessPc → Prop
  | .objectExists job =>
      ∃ row, s.findById jobId = some row ∧ job.audioKey = some (audioKey row.userId jobId)
  | .setStatus _ => Present s jobId
  | .getJob _ | .getState _ | .remove _ | .add _ | .findAgain _ => Past s jobId
  | _ => True

/-- Calls check the recording before they queue, and the pipeline runs on queued jobs. -/
def Sound (s : Stores) : Thread → Prop
  | .process c => checked s c.jobId c.pc
  | .attempt a => Past s a.jobId
  | .body b => Past s b.jobId
  | .handler h => Past s h.jobId
  | _ => True

/-- The rows and the queue of a reachable state. -/
structure Recorded (s : Stores) : Prop where
  present : ∀ jobId, Past s jobId → Present s jobId
  queued : ∀ jobId entry, s.queue jobId = some entry → Past s jobId
  statuses : ∀ jobId row, s.findById jobId = some row → row.status ≠ .UPLOADING

variable {cfg : ServerConfig} {w w' : World} {env : Env} {jobId : String} {now : ℕ} {op : Op}

/-- Different jobs have different recordings. -/
theorem audioKey_inj {u u' j j' : String} (hj : '/' ∉ j.toList) (hj' : '/' ∉ j'.toList)
    (h : audioKey u j = audioKey u' j') : j = j' := by
  have hl := congrArg String.toList h
  simp only [audioKey, String.toList_append] at hl
  have hcut := List.append_cancel_right hl
  have hsplit : ("audio/".toList ++ u.toList) ++ '/' :: j.toList =
      ("audio/".toList ++ u'.toList) ++ '/' :: j'.toList := by simpa using hcut
  exact String.toList_inj.mp (tail_eq hsplit hj hj')

/-- No statement sets CREATED or UPLOADING. -/
theorem issues_status {t : Thread} {id : String} {status : JobStatus} (h : Issues w env t op)
    (hset : op.newStatus = some (id, status)) : status ≠ .CREATED ∧ status ≠ .UPLOADING := by
  cases h with
  | aside t op haside =>
      cases op with
      | write id wr => cases haside
      | _ => cases hset
  | update c wr pc write =>
      rcases updateWrite_cases write with ⟨label, rfl⟩ | ⟨label, rows, rfl⟩ <;> cases hset
  | stage a work pc =>
      cases hset
      cases work <;> simp [Work.stage, Stage.status]
  | process c job pc =>
      cases hset
      simp
  | failed a e m pc =>
      cases hset
      simp
  | ready b view pc =>
      cases hset
      simp
  | handled h m pc =>
      cases hset
      simp
  | _ => cases hset

theorem past_run {t : Thread} (hop : Issues w env t op) (h : Past w.stores jobId) :
    Past (w.stores.run now op) jobId := by
  obtain ⟨row, hrow, hstatus⟩ := h
  obtain ⟨row', hrow', hkept | hset⟩ := Stores.run_status_kept now op hrow
  · exact ⟨row', hrow', hkept ▸ hstatus⟩
  · exact ⟨row', hrow', (issues_status hop hset).1⟩

/-- Only a deletion of the job itself takes its recording. -/
theorem audio_kept {t : Thread} {row : Job} (h : Kept w) (hop : Issues w env t op)
    (ht : t ∈ w.threads) (hrow : w.stores.findById jobId = some row) (hlive : row.deletedAt = none)
    (hthere : (w.stores.bucket (audioKey row.userId jobId)).isSome = true) :
    ((w.stores.run now op).bucket (audioKey row.userId jobId)).isSome = true := by
  have hid := h.ids jobId row hrow
  cases hop with
  | aside _ _ haside => rwa [(run_aside haside).2]
  | create c =>
      simp only [Stores.run]
      split_ifs <;> exact hthere
  | putObject b view pc =>
      simp only [Stores.run]
      rwa [Function.update_of_ne (audioKey_ne_pdfKey _ _ _ _)]
  | deleteObjects c job pc =>
      have hown := h.owns _ ht
      simp only [Owns, pc] at hown
      obtain ⟨hkeys, row₁, hrow₁, hgone⟩ := hown
      have hnot : audioKey row.userId jobId ∉ job.objectKeys := by
        intro hmem
        rcases hkeys _ hmem with hk | hk
        · have hjob := audioKey_inj hid (h.ids c.jobId row₁ hrow₁) hk
          subst hjob
          rw [hrow] at hrow₁
          cases hrow₁
          exact hgone hlive
        · exact audioKey_ne_pdfKey _ _ _ _ hk
      simpa only [Stores.run, hnot, if_false] using hthere
  | _ => exact hthere

theorem present_run {t : Thread} (h : Kept w) (hop : Issues w env t op) (ht : t ∈ w.threads)
    (hpresent : Present w.stores jobId) : Present (w.stores.run now op) jobId := by
  obtain ⟨row, hrow, haudio⟩ := hpresent
  rcases Stores.run_row_after now op hrow with hrow' | ⟨wr, rfl, hrow'⟩
  · exact ⟨row, hrow', fun hlive => audio_kept h hop ht hrow hlive (haudio hlive)⟩
  · refine ⟨_, hrow', fun hlive => ?_⟩
    have hbefore := wr.apply_live now row hlive
    rw [wr.apply_userId]
    exact audio_kept h hop ht hrow hbefore (haudio hbefore)

theorem checked_run {t : Thread} {pc : ProcessPc} (h : Kept w) (hop : Issues w env t op)
    (ht : t ∈ w.threads) (hpc : checked w.stores jobId pc) :
    checked (w.stores.run now op) jobId pc := by
  cases pc with
  | objectExists job =>
      obtain ⟨row, hrow, haudio⟩ := hpc
      obtain ⟨row', hrow', huser⟩ := Stores.run_row_some now op hrow
      exact ⟨row', hrow', huser ▸ haudio⟩
  | setStatus job => exact present_run h hop ht hpc
  | getJob job => exact past_run hop hpc
  | getState job => exact past_run hop hpc
  | remove job => exact past_run hop hpc
  | add job => exact past_run hop hpc
  | findAgain job => exact past_run hop hpc
  | _ => trivial

theorem sound_run {t t₁ : Thread} (h : Kept w) (hop : Issues w env t op) (ht : t ∈ w.threads)
    (hsound : Sound w.stores t₁) : Sound (w.stores.run now op) t₁ := by
  cases t₁ with
  | process c => exact checked_run h hop ht hsound
  | attempt a => exact past_run hop hsound
  | body b => exact past_run hop hsound
  | handler hd => exact past_run hop hsound
  | _ => trivial

/-- A segment of `process` queues the job only after it has seen the recording. -/
theorem nextProcess_checked {c : ProcessCall} {pc : ProcessPc} (now : ℕ) (hkeys : RowKeys w.stores)
    (hsound : checked w.stores c.jobId c.pc) (hn : nextProcess cfg w.stores c = some (pc, op)) :
    checked (w.stores.run now op) c.jobId pc := by
  unfold nextProcess at hn
  split at hn
  · split at hn
    · cases hn
      trivial
    · rename_i job hjob
      split_ifs at hn
      · cases hn
        trivial
      · cases hn
        trivial
      · cases hn
        obtain ⟨hrow, -, -⟩ := Stores.findScoped_eq_some.mp hjob
        exact ⟨job, hrow, (hkeys c.jobId job hrow).1⟩
  · rename_i job hpc
    rw [hpc] at hsound
    obtain ⟨row, hrow, haudio⟩ := hsound
    split_ifs at hn with hthere
    · cases hn
      rw [haudio, Option.getD_some] at hthere
      exact ⟨row, hrow, fun _ => hthere⟩
    · cases hn
      trivial
  · rename_i job hpc
    rw [hpc] at hsound
    obtain ⟨row, hrow, -⟩ := hsound
    cases hn
    refine ⟨_, (Stores.run_row_write now w.stores _ c.jobId).trans (by rw [hrow]; rfl), ?_⟩
    simp [Write.apply]
  · rename_i job hpc
    rw [hpc] at hsound
    split at hn <;> cases hn <;> exact hsound
  · rename_i job hpc
    rw [hpc] at hsound
    split at hn <;> cases hn <;> exact hsound
  · rename_i job hpc
    rw [hpc] at hsound
    split at hn <;> cases hn
    · trivial
    · exact hsound
  · rename_i job hpc
    rw [hpc] at hsound
    split at hn <;> cases hn <;> exact hsound
  · cases hn
    trivial
  · cases hn
  · cases hn

section Thread

variable {i : ℕ} {act : Action} {t t' : Thread} {spawned : List Thread}

theorem process_checked {c : ProcessCall} (hkeys : RowKeys w.stores)
    (hsound : checked w.stores c.jobId c.pc)
    (acts : Acts cfg w i act (.process c) now t' op spawned) : Sound (w.stores.run now op) t' := by
  generalize ht : Thread.process c = t at acts
  cases acts with
  | stepped env t t' op spawned next =>
      subst ht
      obtain ⟨⟨pc, op'⟩, hn, he⟩ := Option.map_eq_some_iff.mp next
      cases he
      have hnext := nextProcess_checked env.now hkeys hsound hn
      exact hnext
  | threw env e t t' throws =>
      subst ht
      cases throwing_cases throws with
      | process c => trivial
  | lost env e t t' t₁ op spawned throws next =>
      subst ht
      cases throwing_cases throws with
      | process c => trivial
  | timedOut t t' out =>
      subst ht
      cases out
  | acked a e entry pc queued => cases ht

theorem acts_sound (hkeys : RowKeys w.stores) (acts : Acts cfg w i act t now t' op spawned)
    (hsound : Sound w.stores t) :
    Sound (w.stores.run now op) t' ∧ ∀ t₁ ∈ spawned, Sound (w.stores.run now op) t₁ := by
  obtain ⟨env, hissues⟩ := acts.issues
  constructor
  · cases acts.sameCall with
    | process c pc => exact process_checked hkeys hsound acts
    | attempt a pc => exact past_run hissues hsound
    | body b pc => exact past_run hissues hsound
    | handler hd pc => exact past_run hissues hsound
    | _ => trivial
  · intro t₁ ht₁
    rcases acts_spawned acts ht₁ with ⟨a, work, rfl, -, rfl⟩ | ⟨a, err, entry, rfl, -, -, rfl⟩ <;>
      exact past_run hissues hsound

/-- A thread that sets a status knows of the recording. -/
theorem writer_present {id : String} {status : JobStatus} (h : Recorded w.stores)
    (hsound : Sound w.stores t) (hop : Issues w env t op)
    (hset : op.newStatus = some (id, status)) : Present w.stores id := by
  cases hop with
  | aside t op haside =>
      cases op with
      | write id wr => cases haside
      | _ => cases hset
  | update c wr pc write =>
      rcases updateWrite_cases write with ⟨label, rfl⟩ | ⟨label, rows, rfl⟩ <;> cases hset
  | process c job pc =>
      cases hset
      simpa only [Sound, pc, checked] using hsound
  | stage a work pc =>
      cases hset
      exact h.present _ hsound
  | failed a e m pc =>
      cases hset
      exact h.present _ hsound
  | ready b view pc =>
      cases hset
      exact h.present _ hsound
  | handled hd m pc =>
      cases hset
      exact h.present _ hsound
  | _ => cases hset

/-- A thread that sets an entry works on a queued job. -/
theorem entry_past {e : Option Entry} (hsound : Sound w.stores t)
    (acts : Acts cfg w i act t now t' op spawned) (he : op.newEntry = some (jobId, e))
    (hsome : e.isSome = true) : Past w.stores jobId := by
  rcases RetryAfterFailure.acts_entry acts he with
    ⟨c, pc, rfl, rfl, hmove, -⟩ | ⟨a, err, entry, rfl, rfl, -, -⟩
  · cases hmove with
    | removed job pc idle => cases hsome
    | added job pc free => simpa only [Sound, pc, checked] using hsound
  · exact hsound

theorem recorded_thread (hkept : Kept w) (h : Recorded w.stores) (at_ : w.threads[i]? = some t)
    (hsound : Sound w.stores t) (acts : Acts cfg w i act t now t' op spawned) :
    Recorded (w.stores.run now op) := by
  obtain ⟨env, hissues⟩ := acts.issues
  have hmem := List.mem_of_getElem? at_
  refine ⟨?_, ?_, ?_⟩
  · rintro id ⟨row', hrow', hstatus⟩
    rcases Stores.run_status hrow' with ⟨row, hrow, hsame | hset⟩ | ⟨hinserted, -⟩
    · exact present_run hkept hissues hmem (h.present id ⟨row, hrow, hsame ▸ hstatus⟩)
    · exact present_run hkept hissues hmem (writer_present h hsound hissues hset)
    · cases hissues with
      | create c =>
          cases hinserted
          exact (hstatus rfl).elim
      | aside t op haside =>
          cases op with
          | insertJob job => cases haside
          | _ => cases hinserted
      | _ => cases hinserted
  · intro id entry hentry
    by_cases hset : ∃ e, op.newEntry = some (id, e)
    · obtain ⟨e, he⟩ := hset
      rw [Stores.run_queue_set he] at hentry
      exact past_run hissues (entry_past hsound acts he (by rw [hentry]; rfl))
    · rw [Stores.run_queue_same fun e he => hset ⟨e, he⟩] at hentry
      exact past_run hissues (h.queued id entry hentry)
  · intro id row' hrow'
    rcases Stores.run_status hrow' with ⟨row, hrow, hsame | hset⟩ | ⟨hinserted, -⟩
    · exact hsame ▸ h.statuses id row hrow
    · exact (issues_status hissues hset).2
    · cases hissues with
      | create c =>
          cases hinserted
          simp [draft]
      | aside t op haside =>
          cases op with
          | insertJob job => cases haside
          | _ => cases hinserted
      | _ => cases hinserted

end Thread

/-- The rows stay and no object goes when BullMQ or a client acts. -/
theorem outside_present {act : Action} {new : List Thread} (acts : Outside w act op new)
    (h : Present w.stores jobId) : Present (w.stores.run 0 op) jobId := by
  obtain ⟨row, hrow, haudio⟩ := h
  refine ⟨row, ?_, fun hlive => ?_⟩
  · simp only [Stores.findById, outside_jobs acts]
    exact hrow
  · cases acts with
    | uploaded userId id bytes =>
        by_cases hkey : audioKey row.userId jobId = audioKey userId id
        · simp [Stores.run, hkey]
        · simpa [Stores.run, Function.update_of_ne hkey] using haudio hlive
    | _ => exact haudio hlive

theorem outside_past {act : Action} {new : List Thread} (acts : Outside w act op new) :
    Past (w.stores.run 0 op) jobId ↔ Past w.stores jobId := by
  simp only [Past, Stores.findById, outside_jobs acts]

theorem recorded_outside {act : Action} {new : List Thread} (h : Recorded w.stores)
    (acts : Outside w act op new) : Recorded (w.stores.run 0 op) := by
  refine ⟨?_, ?_, ?_⟩
  · intro id hpast
    exact outside_present acts (h.present id ((outside_past acts).mp hpast))
  · intro id entry hentry
    refine (outside_past acts).mpr ?_
    by_cases hset : ∃ e, op.newEntry = some (id, e)
    · cases acts with
      | picked jobId entry' queued waiting =>
          obtain ⟨e, he⟩ := hset
          cases he
          exact h.queued _ _ queued
      | promoted jobId entry' queued delayed =>
          obtain ⟨e, he⟩ := hset
          cases he
          exact h.queued _ _ queued
      | purged jobId entry' queued completed =>
          obtain ⟨e, he⟩ := hset
          cases he
          exact h.queued _ _ queued
      | called request =>
          obtain ⟨e, he⟩ := hset
          cases he
      | uploaded userId jobId bytes =>
          obtain ⟨e, he⟩ := hset
          cases he
    · rw [Stores.run_queue_same fun e he => hset ⟨e, he⟩] at hentry
      exact h.queued id entry hentry
  · intro id row hrow
    simp only [Stores.findById, outside_jobs acts] at hrow
    exact h.statuses id row hrow

theorem outside_sound {act : Action} {new : List Thread} {t : Thread} (h : Recorded w.stores)
    (acts : Outside w act op new) (ht : t ∈ new) : Sound (w.stores.run 0 op) t := by
  cases acts with
  | called request =>
      rw [List.mem_singleton.mp ht]
      cases request <;> trivial
  | picked id entry queued waiting =>
      rw [List.mem_singleton.mp ht]
      exact h.queued id entry queued
  | _ => cases ht

/-- What holds of the stores and of every thread. -/
structure Inv (w : World) : Prop where
  kept : Kept w
  held : AllHeld w
  recorded : Recorded w.stores
  sound : ∀ t ∈ w.threads, Sound w.stores t

theorem inv_step {act : Action} (h : Inv w) (hg : UuidIds w act) (hs : step cfg w act = some w') :
    Inv w' := by
  refine ⟨kept_step h.kept hg hs, held_step h.kept.keys h.held hs, ?_, ?_⟩
  · cases step_shape hs with
    | thread i now t t' op spawned at_ acts =>
        exact recorded_thread h.kept h.recorded at_ (h.sound t (List.mem_of_getElem? at_)) acts
    | outside op new acts => exact recorded_outside h.recorded acts
  · intro t₁ ht₁
    cases step_shape hs with
    | thread i now t t' op spawned at_ acts =>
        have hmem := List.mem_of_getElem? at_
        obtain ⟨env, hissues⟩ := acts.issues
        obtain ⟨hmoved, hspawned⟩ := acts_sound h.kept.keys acts (h.sound t hmem)
        rcases mem_advance ht₁ with hold | rfl | hnew
        · exact sound_run h.kept hissues hmem (h.sound t₁ hold)
        · exact hmoved
        · exact hspawned t₁ hnew
    | outside op new acts =>
        rcases List.mem_append.mp ht₁ with hold | hnew
        · have hsound := h.sound t₁ hold
          cases t₁ with
          | process c =>
              cases hpc : c.pc with
              | objectExists job =>
                  simp only [Sound, hpc, checked, Stores.findById, outside_jobs acts] at hsound ⊢
                  exact hsound
              | setStatus job =>
                  simp only [Sound, hpc, checked] at hsound ⊢
                  exact outside_present acts hsound
              | _ =>
                  simp only [Sound, hpc, checked, outside_past acts] at hsound ⊢
                  try exact hsound
          | attempt a => exact (outside_past acts).mpr hsound
          | body b => exact (outside_past acts).mpr hsound
          | handler hd => exact (outside_past acts).mpr hsound
          | _ => trivial
        · exact outside_sound h.recorded acts hnew

theorem inv_empty : Inv World.empty := by
  have hnone : ∀ jobId row, World.empty.stores.findById jobId ≠ some row := by
    intro jobId row h
    cases h
  refine ⟨kept_empty, held_empty, ⟨?_, ?_, ?_⟩, ?_⟩
  · rintro id ⟨row, hrow, -⟩
    exact (hnone id row hrow).elim
  · intro id entry h
    cases h
  · intro id row hrow
    exact (hnone id row hrow).elim
  · intro t ht
    cases ht

/-- In every reachable state a live job that has left CREATED, so every one with a queue entry
or an attempt, has its recording in the bucket under its own key, no job is UPLOADING, and a
transcription that is about to open the recording of a live job finds it. -/
theorem recording_present (cfg : ServerConfig) {w : World}
    (hw : Run (step cfg) UuidIds World.empty w) :
    (∀ jobId row, w.stores.findById jobId = some row → row.deletedAt = none →
      row.status ≠ .CREATED → (w.stores.bucket (audioKey row.userId jobId)).isSome = true) ∧
    (∀ jobId row, w.stores.findById jobId = some row → row.status ≠ .UPLOADING) ∧
    (∀ jobId entry, w.stores.queue jobId = some entry →
      ∃ row, w.stores.findById jobId = some row ∧ row.status ≠ .CREATED) ∧
    ∀ b key row, Thread.body b ∈ w.threads → b.pc = .getObjectStream key →
      w.stores.findById b.jobId = some row → row.deletedAt = none →
        (w.stores.bucket key).isSome = true := by
  have hinv : Inv w := hw.invariant inv_empty fun _ _ _ hi hg hs => inv_step hi hg hs
  have hpresent : ∀ jobId row, w.stores.findById jobId = some row → row.deletedAt = none →
      Past w.stores jobId → (w.stores.bucket (audioKey row.userId jobId)).isSome = true := by
    intro jobId row hrow hlive hpast
    obtain ⟨row', hrow', haudio⟩ := hinv.recorded.present jobId hpast
    rw [hrow] at hrow'
    cases hrow'
    exact haudio hlive
  refine ⟨?_, hinv.recorded.statuses, hinv.recorded.queued, ?_⟩
  · intro jobId row hrow hlive hstatus
    exact hpresent jobId row hrow hlive ⟨row, hrow, hstatus⟩
  · intro b key row hb hpc hrow hlive
    obtain ⟨row', hrow', huser⟩ : Owned w.stores b.userId b.jobId := hinv.kept.owns _ hb
    rw [hrow] at hrow'
    cases hrow'
    have hkey : key = audioKey b.userId b.jobId := hinv.held _ hb key hpc
    rw [hkey, ← huser]
    exact hpresent b.jobId row hrow hlive (hinv.sound _ hb)

/-- The transcription of `job-1` is about to open its recording. -/
def openingSchedule : List Action :=
  submitSchedule ++ checkSchedule 1 ++ enqueueSchedule 1 ++ .pick "job-1" :: steps 2 3 {}

theorem recording_present_demo :
    ∃ w, Run (step demo) UuidIds World.empty w ∧
      w.threads[3]? = some (.body ⟨"job-1", "user-1", .getObjectStream "audio/user-1/job-1.m4a"⟩) ∧
        (w.stores.bucket "audio/user-1/job-1.m4a").isSome = true := by
  have hend : (execWhere (step demo) UuidIds openingSchedule World.empty).any (fun w =>
      decide (w.threads[3]? =
        some (.body ⟨"job-1", "user-1", .getObjectStream "audio/user-1/job-1.m4a"⟩)) &&
      (w.stores.findById "job-1").any fun row => row.deletedAt = none) = true := by decide
  obtain ⟨w, hw, hp⟩ := execWhere_any hend
  rw [Bool.and_eq_true] at hp
  have hbody := of_decide_eq_true hp.1
  obtain ⟨row, hrow, hlive⟩ := (Option.any_eq_true _ _).mp hp.2
  have hopen := (recording_present demo hw).2.2.2 _ _ row (List.mem_of_getElem? hbody) rfl hrow
    (of_decide_eq_true hlive)
  exact ⟨w, hw, hbody, hopen⟩

end FieldNote.RecordedJobs
