import FieldNote.ExclusiveSlots
import FieldNote.RecordingRecovery

/-!
# One driver for a job

A flow drives a job from the insertion of its id into `activeJobIds` to the deferred removal:
as the drive of its upload, or as a polling loop. `poll` claims an id that is free, but
`driveUploadThenProcess` claims its id without a look, and `resumeInFlight` looks before the
task that it spawns has run. A job has one driver, and `activeJobIds` holds the driven jobs,
exactly until the first drive begins for a job that is driven already.
-/
namespace FieldNote.JobDrivers
open JobStore JobsService JobSyncService GuardedRuns CallPool ExclusiveSlots

/-- The job that a flow drives. -/
def drives (f : Flow) : Option String := if f.live then f.owned else none

structure OneDriver (w : World) : Prop where
  unique : ∀ (i j : ℕ) (f g : Flow) (id : String), w.flows[i]? = some f → w.flows[j]? = some g →
    drives f = some id → drives g = some id → i = j
  active_iff : ∀ id, w.active id = true ↔ ∃ f ∈ w.flows, drives f = some id

/-- The step is not the beginning of a drive whose job is in `activeJobIds`. -/
def claimsFree (w : World) : Action → Bool
  | .begin i =>
      w.flows[i]?.all fun f =>
        match f.task with
        | .driveUploadThenProcess id _ => !w.active id
        | _ => true
  | _ => true

def slots (w : World) : List (Option String) := w.flows.map drives

/-- The step takes no job but a free one. -/
def CarefulStep (w w' : World) : Prop := Careful (slots w) w.active (slots w') w'.active

variable {cfg : ServerConfig} {userId id : String} {w w' : World} {i : ℕ} {f g : Flow}

theorem getElem?_slots {s : Option String} :
    (slots w)[i]? = some s ↔ ∃ f, w.flows[i]? = some f ∧ drives f = s := by
  simp [slots, Option.map_eq_some_iff]

theorem oneDriver_iff : OneDriver w ↔ Exclusive (slots w) w.active := by
  have hmem : ∀ id, (∃ f ∈ w.flows, drives f = some id) ↔ some id ∈ slots w := by
    intro id
    simp [slots]
  constructor
  · intro h
    constructor
    · intro i j id hi hj
      obtain ⟨f, hf, hfid⟩ := getElem?_slots.mp hi
      obtain ⟨g, hg, hgid⟩ := getElem?_slots.mp hj
      exact h.unique i j f g id hf hg hfid hgid
    · intro id
      exact (h.active_iff id).trans (hmem id)
  · intro h
    constructor
    · intro i j f g id hf hg hfid hgid
      exact h.unique i j id (getElem?_slots.mpr ⟨f, hf, hfid⟩) (getElem?_slots.mpr ⟨g, hg, hgid⟩)
    · intro id
      exact (h.claimed_iff id).trans (hmem id).symm

theorem drives_of_owned (h : f.owned = none) : drives f = none := by
  unfold drives
  split_ifs
  · exact h
  · rfl

theorem drives_live (hlive : f.live = true) : drives f = f.owned := if_pos hlive

theorem drives_dead (hlive : f.live = false) : drives f = none := by simp [drives, hlive]

/-- The polling loop drives the same job at every `await`. -/
theorem drives_loop {pc : Pc} (hpc : ∃ n, f.pc = .polling n ∨ f.pc = .sleeping n)
    (hpc' : ∃ n, pc = .polling n ∨ pc = .sleeping n) : drives (f.goto pc) = drives f := by
  have howned : (f.goto pc).owned = f.owned := by
    rw [owned_looping hpc]
    exact owned_looping hpc'
  unfold drives
  rw [howned]
  rfl

/-- A flow outside the drive of an upload and the polling loop holds no job. -/
theorem owned_idle (hpc : ∀ n, f.pc ≠ .uploading ∧ f.pc ≠ .processing ∧ f.pc ≠ .polling n ∧
    f.pc ≠ .sleeping n) : f.owned = none := by
  obtain ⟨task, pc, live, sent, replies⟩ := f
  cases pc with
  | uploading => exact ((hpc 0).1 rfl).elim
  | processing => exact ((hpc 0).2.1 rfl).elim
  | polling n => exact ((hpc n).2.2.1 rfl).elim
  | sleeping n => exact ((hpc n).2.2.2 rfl).elim
  | _ => cases task <;> rfl

/-- Flows that hold nothing are started. -/
theorem careful_started {new : List Flow} (hnew : ∀ h ∈ new, drives h = none)
    (hflows : slots w' = slots w ++ new.map drives) (hactive : w'.active = w.active) :
    CarefulStep w w' := by
  have hidle : new.map drives = List.replicate new.length none :=
    List.eq_replicate_iff.mpr ⟨List.length_map _, by simpa using hnew⟩
  unfold CarefulStep
  rw [hflows, hactive, hidle]
  exact .start new.length (.same _ _)

/-- A flow goes on and holds what it held. -/
theorem careful_advance {new : List Flow} (hf : w.flows[i]? = some f) (hg : drives g = drives f)
    (hnew : ∀ h ∈ new, drives h = none) (hflows : w'.flows = w.flows.set i g ++ new)
    (hactive : w'.active = w.active) : CarefulStep w w' := by
  refine careful_started hnew ?_ hactive
  unfold slots
  rw [hflows, List.map_append, map_set_same hf hg]

theorem careful_setFlow (hf : w.flows[i]? = some f) (hg : drives g = drives f)
    (hflows : w'.flows = w.flows.set i g) (hactive : w'.active = w.active) : CarefulStep w w' := by
  rw [← List.append_nil (w.flows.set i g)] at hflows
  exact careful_advance hf hg (by simp) hflows hactive

/-- A flow sends its request again, or an answer arrives. -/
theorem careful_exchange {sent : List ℕ} {replies : List Reply} (hf : w.flows[i]? = some f)
    (hflows : w'.flows = w.flows.set i { f with sent := sent, replies := replies })
    (hactive : w'.active = w.active) : CarefulStep w w' := by
  have hsame : drives { f with sent := sent, replies := replies } = drives f := rfl
  exact careful_setFlow hf hsame hflows hactive

theorem careful_spawn (hg : drives g = none) (hflows : w'.flows = w.flows ++ [g])
    (hactive : w'.active = w.active) : CarefulStep w w' := by
  have hslots : slots w' = slots w ++ [g].map drives := by simp [slots, hflows]
  exact careful_started (by simpa using hg) hslots hactive

/-- The flow ends, and releases the job it holds. -/
theorem careful_release (hf : w.flows[i]? = some f) (hlive : f.live = true)
    (hg : drives g = none) : CarefulStep w ((w.release f).setFlow i g) := by
  have hat : (slots w)[i]? = some f.owned := getElem?_slots.mpr ⟨f, hf, drives_live hlive⟩
  cases howned : f.owned with
  | none =>
      refine careful_setFlow (g := g) hf ?_ ?_ ?_
      · rw [hg, drives_live hlive, howned]
      · simp [World.setFlow]
      · simp [World.setFlow, World.release, howned]
  | some id =>
      have hslots : slots ((w.release f).setFlow i g) = (slots w).set i none := by
        simp [slots, World.setFlow, List.map_set, hg]
      have hactive : ((w.release f).setFlow i g).active = Function.update w.active id false := by
        simp [World.setFlow, World.release, howned]
      unfold CarefulStep
      rw [hslots, hactive]
      exact .give i id (howned ▸ hat)

/-- `poll` claims a job that is free, or returns. -/
theorem careful_beginPoll (hf : w.flows[i]? = some f) (hlive : f.live = true)
    (howned : f.owned = none) (hpolled : f.task.polled = some id) :
    CarefulStep w (w.beginPoll i f id) := by
  have hidle : drives f = none := drives_of_owned howned
  unfold World.beginPoll
  split_ifs with hactive
  · refine careful_setFlow hf ?_ rfl rfl
    rw [hidle]
    exact drives_dead rfl
  · have hgoes : (f.goto (.polling 1)).live = true := hlive
    have hdrives : drives (f.goto (.polling 1)) = some id := by
      rw [drives_live hgoes, ← hpolled]
      exact owned_looping ⟨1, .inl rfl⟩
    have hslots : (w.flows.set i (f.goto (.polling 1))).map drives =
        (slots w).set i (some id) := by
      rw [List.map_set, hdrives]
      rfl
    have htake : Careful (slots w) w.active ((slots w).set i (some id))
        (Function.update w.active id true) :=
      .take i id (getElem?_slots.mpr ⟨f, hf, hidle⟩) (by simpa using hactive)
    rwa [← hslots] at htake

theorem careful_push {rest : List String} (hf : w.flows[i]? = some f)
    (howned : f.owned = none) : CarefulStep w (w.push i f rest) := by
  have hidle : drives f = none := drives_of_owned howned
  unfold World.push
  rcases nextPush_cases w.cache rest with h | ⟨id, body, rest', h⟩
  · rw [h]
    refine careful_setFlow hf ?_ rfl rfl
    rw [hidle]
    exact drives_dead rfl
  · rw [h]
    refine careful_setFlow hf ?_ rfl rfl
    rw [hidle]
    exact drives_of_owned (owned_idle (by simp [Flow.goto]))

/-- What a flow with an answer goes on to. -/
theorem careful_resume {r : Reply} (hf : w.flows[i]? = some f) (hlive : f.live = true)
    (h : resume w i f r = some w') : CarefulStep w w' := by
  have hends : drives (f.finish .returned) = none := drives_dead rfl
  cases r with
  | page items more =>
      simp only [resume] at h
      split at h
      · rename_i now pulled htask hpc
        have hidle : drives f = none := drives_of_owned (owned_idle (by simp [hpc]))
        split_ifs at h
        · cases h
          refine careful_setFlow hf ?_ rfl rfl
          rw [hidle]
          exact drives_of_owned (owned_idle (by simp [Flow.goto]))
        · cases h
          refine careful_advance hf (hends.trans hidle.symm) ?_ rfl rfl
          intro g hg
          obtain ⟨task, -, rfl⟩ := List.mem_map.mp hg
          exact drives_of_owned (owned_idle (by simp [Flow.start]))
      · cases h
  | created response =>
      simp only [resume] at h
      split at h
      · rename_i label path now key htask hpc
        have hidle : drives f = none := drives_of_owned (owned_idle (by simp [hpc]))
        cases h
        refine careful_advance hf (Eq.trans (drives_dead rfl) hidle.symm) ?_ rfl rfl
        intro g hg
        rw [List.mem_singleton.mp hg]
        exact drives_of_owned (owned_idle (by simp [Flow.start]))
      · cases h
  | uploaded =>
      simp only [resume] at h
      split at h
      · rename_i id path htask hpc
        cases h
        refine careful_setFlow hf ?_ rfl rfl
        simp [drives, hlive, Flow.goto, Flow.owned, htask, hpc]
      · cases h
  | job dto =>
      simp only [resume] at h
      split at h
      · rename_i id path htask hpc
        cases h
        refine careful_setFlow hf ?_ rfl rfl
        simp [drives, hlive, Flow.goto, Flow.owned, htask, hpc]
      · rename_i id htask hpc
        cases h
        have hidle : f.owned = none := by simp [Flow.owned, htask, hpc]
        exact careful_beginPoll (w := { w with cache := upsert w.cache dto }) hf hlive hidle
          (by rw [htask]; rfl)
      · rename_i id htask hpc
        cases h
        have hidle : f.owned = none := by simp [Flow.owned, htask, hpc]
        exact careful_beginPoll (w := { w with cache := upsert w.cache dto }) hf hlive hidle
          (by rw [htask]; rfl)
      · rename_i id body rest htask hpc
        cases h
        exact careful_push (w := { w with cache := upsert w.cache dto }) hf
          (owned_idle (by simp [hpc]))
      · rename_i attempt hpc
        split_ifs at h
        · cases h
          exact careful_release (w := { w with cache := upsert w.cache dto }) hf hlive hends
        · cases h
          exact careful_setFlow hf (drives_loop ⟨attempt, .inl hpc⟩ ⟨attempt, .inr rfl⟩) rfl rfl
      · cases h
  | deleted =>
      simp only [resume] at h
      split at h
      · rename_i id htask hpc
        have hidle : drives f = none := drives_of_owned (owned_idle (by simp [hpc]))
        cases h
        exact careful_setFlow hf (hends.trans hidle.symm) rfl rfl
      · cases h

/-- What a flow goes on to when its request has failed. -/
theorem careful_fail (hf : w.flows[i]? = some f) (hlive : f.live = true)
    (h : fail w i f = some w') : CarefulStep w w' := by
  have hstops : CarefulStep w ((w.release f).setFlow i f.stop) :=
    careful_release hf hlive (drives_dead rfl)
  unfold fail at h
  split at h
  case h_6 attempt hpc =>
    cases h
    exact careful_setFlow hf (drives_loop ⟨attempt, .inl hpc⟩ ⟨attempt, .inr rfl⟩) rfl rfl
  case h_7 id body rest hpc =>
    cases h
    exact careful_push hf (owned_idle (by simp [hpc]))
  case h_8 => cases h
  all_goals
    cases h
    exact hstops

/-- Flows that are not yet driving anything are started at their first `await`. -/
theorem careful_begins {task : Task} {pc : Pc} (h : (Flow.start task pc).owned = none) :
    CarefulStep w (w.spawn (.start task pc)) :=
  careful_spawn (drives_of_owned h) rfl rfl

/-- Every step is careful, but for the beginning of a drive. -/
theorem step_slots {a : Action} (hs : step cfg userId w a = some w') :
    (claimsFree w a = true ∧ CarefulStep w w') ∨
      ∃ i id, (slots w)[i]? = some none ∧ claimsFree w a = !w.active id ∧
        slots w' = (slots w).set i (some id) ∧ w'.active = Function.update w.active id true := by
  cases a with
  | server a =>
      obtain ⟨server, -, rfl⟩ := Option.map_eq_some_iff.mp hs
      exact .inl ⟨rfl, .same _ _⟩
  | refresh now =>
      cases hs
      exact .inl ⟨rfl, careful_begins rfl⟩
  | startReport label path now key =>
      simp only [step] at hs
      split_ifs at hs
      cases hs
      exact .inl ⟨rfl, careful_spawn (drives_of_owned rfl) rfl rfl⟩
  | saveEdits jobId label sections now =>
      simp only [step] at hs
      split at hs
      · cases hs
        exact .inl ⟨rfl, careful_spawn (drives_of_owned rfl) rfl rfl⟩
      · cases hs
        exact .inl ⟨rfl, .same _ _⟩
  | pushPendingEdits =>
      simp only [step] at hs
      rcases nextPush_cases w.cache ((allJobs w.cache).map CachedJob.id) with
        hpc | ⟨id, body, rest, hpc⟩
      · rw [hpc] at hs
        cases hs
        exact .inl ⟨rfl, .same _ _⟩
      · rw [hpc] at hs
        cases hs
        exact .inl ⟨rfl, careful_begins rfl⟩
  | poll jobId =>
      cases hs
      have hnew : (w.spawn (.start (.poll jobId) .starting)).flows[w.flows.length]? =
          some (.start (.poll jobId) .starting) := by
        simp [World.spawn]
      have hstart : slots (w.spawn (.start (.poll jobId) .starting)) =
          slots w ++ List.replicate 1 none := by
        simp [slots, World.spawn, drives, Flow.owned, Flow.start]
      have hpoll := careful_beginPoll hnew rfl rfl rfl
      unfold CarefulStep at hpoll
      rw [hstart] at hpoll
      exact .inl ⟨rfl, .start 1 hpoll⟩
  | retry jobId =>
      cases hs
      exact .inl ⟨rfl, careful_begins rfl⟩
  | delete jobId =>
      cases hs
      exact .inl ⟨rfl, careful_begins rfl⟩
  | uploadFinished jobId =>
      simp only [step] at hs
      split_ifs at hs
      cases hs
      exact .inl ⟨rfl, careful_spawn (drives_of_owned rfl) rfl rfl⟩
  | begin i =>
      obtain ⟨f, hf, hs⟩ := Option.bind_eq_some_iff.mp hs
      split at hs
      · rename_i id path hlive hpc htask
        cases hs
        have hidle : drives f = none := drives_of_owned (owned_idle (by simp [hpc]))
        refine .inr ⟨i, id, getElem?_slots.mpr ⟨f, hf, hidle⟩, by simp [claimsFree, hf, htask], ?_,
          rfl⟩
        have hdrives : drives (f.goto .uploading) = some id := by
          simp [drives, Flow.goto, Flow.owned, hlive, htask]
        simp [slots, World.setFlow, List.map_set, hdrives]
      · rename_i id hlive hpc htask
        cases hs
        refine .inl ⟨by simp [claimsFree, hf, htask], careful_beginPoll hf hlive ?_ ?_⟩
        · exact owned_idle (by simp [hpc])
        · rw [htask]
          rfl
      · cases hs
  | send i =>
      obtain ⟨f, hf, hs⟩ := Option.bind_eq_some_iff.mp hs
      split_ifs at hs
      obtain ⟨r, -, rfl⟩ := Option.map_eq_some_iff.mp hs
      exact .inl ⟨rfl, careful_exchange hf rfl rfl⟩
  | answer i thread =>
      obtain ⟨f, hf, hs⟩ := Option.bind_eq_some_iff.mp hs
      split_ifs at hs
      obtain ⟨r, -, rfl⟩ := Option.map_eq_some_iff.mp hs
      exact .inl ⟨rfl, careful_exchange hf rfl rfl⟩
  | read i ids more =>
      obtain ⟨f, hf, hs⟩ := Option.bind_eq_some_iff.mp hs
      obtain ⟨r, -, rfl⟩ := Option.map_eq_some_iff.mp hs
      exact .inl ⟨rfl, careful_exchange hf rfl rfl⟩
  | store i =>
      obtain ⟨f, hf, hs⟩ := Option.bind_eq_some_iff.mp hs
      obtain ⟨p, -, hs⟩ := Option.bind_eq_some_iff.mp hs
      obtain ⟨server, -, rfl⟩ := Option.map_eq_some_iff.mp hs
      exact .inl ⟨rfl, careful_exchange hf rfl rfl⟩
  | deliver i k =>
      obtain ⟨f, hf, hs⟩ := Option.bind_eq_some_iff.mp hs
      split_ifs at hs with hlive
      obtain ⟨r, -, hs⟩ := Option.bind_eq_some_iff.mp hs
      exact .inl ⟨rfl, careful_resume hf hlive hs⟩
  | fail i =>
      obtain ⟨f, hf, hs⟩ := Option.bind_eq_some_iff.mp hs
      split_ifs at hs with hlive
      exact .inl ⟨rfl, careful_fail hf hlive hs⟩
  | wake i =>
      obtain ⟨f, hf, hs⟩ := Option.bind_eq_some_iff.mp hs
      split at hs
      · rename_i attempt hlive hpc
        split_ifs at hs
        · cases hs
          have hloop := drives_loop ⟨attempt, .inr hpc⟩ ⟨attempt + 1, .inl rfl⟩
          exact .inl ⟨rfl, careful_setFlow hf hloop rfl rfl⟩
        · cases hs
          exact .inl ⟨rfl, careful_release hf hlive (drives_dead rfl)⟩
      · cases hs
  | kill =>
      cases hs
      refine .inl ⟨rfl, .clear ?_⟩
      intro s hs
      obtain ⟨g, hg, rfl⟩ := List.mem_map.mp hs
      obtain ⟨f, -, rfl⟩ := List.mem_map.mp hg
      exact drives_dead rfl

theorem oneDriver_empty : OneDriver World.empty :=
  oneDriver_iff.mpr (exclusive_idle (by simp [slots, World.empty]))

/-- A step keeps one driver for each job exactly when it claims no job that is driven. -/
theorem oneDriver_step {a : Action} (h : OneDriver w) (hs : step cfg userId w a = some w') :
    OneDriver w' ↔ claimsFree w a = true := by
  rw [oneDriver_iff] at h ⊢
  rcases step_slots hs with ⟨hfree, hcareful⟩ | ⟨i, id, hi, hfree, hslots, hactive⟩
  · exact iff_of_true (hcareful.exclusive h) hfree
  · rw [hfree, Bool.not_eq_true']
    constructor
    · intro h'
      rw [hslots] at h'
      exact h.take_free hi h'
    · intro hid
      rw [hslots, hactive]
      exact h.take hi hid

/-- In every run the jobs in `activeJobIds` are driven: it is only the converse that a second
drive breaks. -/
theorem active_driven (hrun : Run (step cfg userId) anyStep World.empty w)
    (hactive : w.active id = true) : ∃ f ∈ w.flows, drives f = some id := by
  have hinv : DeviceInv w := hrun.invariant device_empty fun _ _ _ h _ hs => device_step h hs
  obtain ⟨f, hf, hlive, howned⟩ := hinv.held id hactive
  exact ⟨f, hf, by rw [drives_live hlive, howned]⟩

/-- In a run in which every drive begins with a job that is not driven, a job has one driver
and `activeJobIds` holds the driven jobs; the next step keeps that exactly when it does not
begin a drive for a job that is driven. -/
theorem one_driver (hrun : Run (step cfg userId) (fun w a => claimsFree w a = true) World.empty w) :
    OneDriver w ∧ ∀ a w', step cfg userId w a = some w' → (OneDriver w' ↔ claimsFree w a = true) := by
  have h : OneDriver w := hrun.invariant oneDriver_empty fun _ _ _ h hfree hs =>
    (oneDriver_step h hs).mpr hfree
  exact ⟨h, fun _ _ hs => oneDriver_step h hs⟩

/-- The drive of a new report is on its upload, and a `poll` of its job has returned. -/
def drivingSchedule : List Action := RecordingRecovery.reportSchedule ++ [.begin 1, .poll "job-1"]

/-- A refresh applies its last page before the drive of the new report has begun. -/
def overlappingSchedule : List Action :=
  RecordingRecovery.reportSchedule ++ RecordingRecovery.refreshSchedule ++
    [.deliver 2 0, .begin 1, .begin 3]

theorem one_driver_demo : ∃ w, Run (step ServerRuns.demo "user-1")
    (fun w a => claimsFree w a = true) World.empty w ∧ w.active "job-1" = true ∧ OneDriver w := by
  have hend : (execWhere (step ServerRuns.demo "user-1") (fun w a => claimsFree w a = true)
      drivingSchedule World.empty).any (fun w => w.active "job-1") = true := by decide
  obtain ⟨w, hw, hactive⟩ := execWhere_any hend
  exact ⟨w, hw, hactive, (one_driver hw).1⟩

/-- The refresh finds the job neither uploaded nor active and starts a second drive for it,
which claims the job while the first one uploads. -/
theorem overlapping_drives :
    ¬ ∀ (cfg : ServerConfig) (userId : String) (w : World),
      Run (step cfg userId) anyStep World.empty w → OneDriver w := by
  intro h
  have hend : (exec (step ServerRuns.demo "user-1") overlappingSchedule World.empty).any
      (fun w => w.flows[1]?.any (fun f => drives f = some "job-1") &&
        w.flows[3]?.any fun f => drives f = some "job-1") = true := by decide
  obtain ⟨w, hw, hp⟩ := exec_any hend
  simp only [Bool.and_eq_true, Option.any_eq_true, decide_eq_true_eq] at hp
  obtain ⟨⟨f, hf, hfid⟩, g, hg, hgid⟩ := hp
  have hsame := (h ServerRuns.demo "user-1" w hw).unique 1 3 f g "job-1" hf hg hfid hgid
  cases hsame

end FieldNote.JobDrivers
