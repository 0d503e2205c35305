import FieldNote.EditRoundTrip
import FieldNote.PoolTotals

/-!
# Capturing a recording

The recording screen and its `AudioRecorder` actor. Taps, the metering loop and the cancel
button start tasks on the main actor, which call the recorder and go on when the call returns;
a method of the recorder is one step, except that `start` first awaits the permission. Files are
named by UUIDs, so the `n`-th recording that starts is the file `n`. `displaced` collects the
recordings that a further `start` replaces; the code keeps no trace of them.
-/
namespace FieldNote.RecordingCapture
open GuardedRuns CallPool EditRoundTrip

/-- `recorder`, `currentURL` and `startedAt`, which are set and reset together. -/
structure Current where
  file : ℕ
  startedAt : ℕ
deriving DecidableEq, Repr

inductive Phase where
  | setup
  | recording
  | saving
deriving DecidableEq, Repr

/-- The arguments of `startReport`; durations are in milliseconds, and never negative. -/
structure Report where
  label : String
  file : ℕ
  duration : ℕ
deriving DecidableEq, Repr

/-- A task of the screen, at the await it is suspended at or about to go on after it. -/
inductive Task where
  | startRecording
  | requestPermission (now : ℕ)
  | started (now : ℕ)
  | startFailed (permission : Bool)
  | stopRecording
  | stop (now : ℕ)
  | stopped (file duration : ℕ)
  | stopFailed
  | startReport
  | cancel
  | dismiss
  | done
deriving DecidableEq, Repr

structure State where
  created : ℕ
  recorder : Option Current
  deleted : List ℕ
  displaced : List ℕ
  phase : Phase
  label : String
  startedAt : Option ℕ
  permissionDenied : Bool
  dismissed : Bool
  tasks : List Task
  reports : List Report
deriving DecidableEq

def init : State := ⟨0, none, [], [], .setup, "", none, false, false, [], []⟩

/-- What the system answers: the clock, the permission, and whether the session and the encoder
could be set up. -/
structure Env where
  now : ℕ := 0
  granted : Bool := true
  configured : Bool := true

inductive Action where
  | edit (label : String)
  | tapControl
  | meter (now : ℕ)
  | tapCancel
  | step (i : ℕ) (env : Env)

def maxDuration : ℕ := 30 * 60 * 1000

def State.setTask (s : State) (i : ℕ) (t : Task) : State := { s with tasks := s.tasks.set i t }

/-- The part of `AudioRecorder.start` after the permission. -/
def start (s : State) (now : ℕ) : State :=
  { s with
    created := s.created + 1
    recorder := some ⟨s.created, now⟩
    displaced := s.displaced ++ (s.recorder.map Current.file).toList }

def stepTask (s : State) (i : ℕ) (env : Env) : Task → Option State
  | .startRecording => some (s.setTask i (.requestPermission env.now))
  | .requestPermission now =>
      if !env.granted then some (s.setTask i (.startFailed true))
      else if !env.configured then some (s.setTask i (.startFailed false))
      else some ((start s now).setTask i (.started now))
  | .started now =>
      some { s.setTask i .done with
        startedAt := some now
        phase := .recording }
  | .startFailed true => some { s.setTask i .done with permissionDenied := true }
  | .startFailed false => some (s.setTask i .dismiss)
  | .stopRecording => some (s.setTask i (.stop env.now))
  | .stop now =>
      match s.recorder with
      | some c => some { s.setTask i (.stopped c.file (now - c.startedAt)) with recorder := none }
      | none => some (s.setTask i .stopFailed)
  | .stopped file duration =>
      some { s.setTask i .startReport with
        phase := .saving
        reports := s.reports ++ [⟨trimmed s.label, file, duration⟩] }
  | .stopFailed => some (s.setTask i .dismiss)
  | .startReport => some (s.setTask i .dismiss)
  | .cancel =>
      some { s.setTask i .dismiss with
        recorder := none
        deleted := s.deleted ++ (s.recorder.map Current.file).toList }
  | .dismiss => some { s.setTask i .done with dismissed := true }
  | .done => none

def step (s : State) : Action → Option State
  | .edit label => if s.phase = .setup then some { s with label := label } else none
  | .tapControl =>
      match s.phase with
      | .setup =>
          if trimmed s.label = "" then none
          else some { s with tasks := s.tasks ++ [.startRecording] }
      | .recording => some { s with tasks := s.tasks ++ [.stopRecording] }
      | .saving => none
  | .meter now =>
      if s.phase = .recording && s.startedAt.any (fun t => maxDuration ≤ now - t) then
        some { s with tasks := s.tasks ++ [.stop now] }
      else none
  | .tapCancel => some { s with tasks := s.tasks ++ [.cancel] }
  | .step i env => s.tasks[i]?.bind (stepTask s i env)

/-- The task has the file from the recorder and has not yet handed it over. -/
def holds (file : ℕ) : Task → ℕ
  | .stopped f _ => if f = file then 1 else 0
  | _ => 0

/-- The recorder writes the file. -/
def records (file : ℕ) : Option Current → ℕ
  | some c => if c.file = file then 1 else 0
  | none => 0

/-- Where a file is: being recorded, with a task, handed over, deleted or displaced. -/
def places (s : State) (file : ℕ) : ℕ :=
  records file s.recorder + total (holds file) s.tasks +
    s.reports.countP (fun r => r.file = file) + s.deleted.count file + s.displaced.count file

variable {s s' : State} {a : Action} {file : ℕ}

/-- Every file a start has made is in one place. -/
def Accounted (s : State) : Prop :=
  ∀ file, places s file = if file < s.created then 1 else 0

/-- The files a list or an option takes over from the recorder. -/
theorem count_toList (r : Option Current) :
    (r.map Current.file).toList.count file = records file r := by
  cases r with
  | none => rfl
  | some c => simp [List.count_singleton, records]

/-- A task that moves between points that hold no file moves nothing. -/
theorem places_setTask {i : ℕ} {t t' : Task} (hi : s.tasks[i]? = some t)
    (ht : ∀ file, holds file t = 0) (ht' : ∀ file, holds file t' = 0) :
    places (s.setTask i t') file = places s file := by
  have hmoved := total_set (f := holds file) (b := t') hi
  rw [ht, ht'] at hmoved
  simp only [places, State.setTask]
  omega

theorem accounted_start {now : ℕ} (h : Accounted s) : Accounted (start s now) := by
  intro file
  have hbefore := h file
  simp only [places, start, List.count_append, count_toList, records] at hbefore ⊢
  by_cases hnew : s.created = file
  · subst hnew
    simp only [lt_irrefl, if_false] at hbefore
    simp only [if_true, Nat.lt_succ_self]
    omega
  · have hlt : file < s.created + 1 ↔ file < s.created := by omega
    simp only [hnew, if_false, hlt]
    omega

theorem accounted_task {i : ℕ} {env : Env} {t : Task} (h : Accounted s)
    (hi : s.tasks[i]? = some t) (hs : stepTask s i env t = some s') : Accounted s' := by
  cases t with
  | requestPermission now =>
      simp only [stepTask] at hs
      split_ifs at hs
      · cases hs
        intro file
        exact (places_setTask hi (fun _ => rfl) fun _ => rfl).trans (h file)
      · cases hs
        intro file
        exact (places_setTask hi (fun _ => rfl) fun _ => rfl).trans (h file)
      · cases hs
        intro file
        have hi' : (start s now).tasks[i]? = some (.requestPermission now) := hi
        exact (places_setTask hi' (fun _ => rfl) fun _ => rfl).trans (accounted_start h file)
  | startFailed permission =>
      cases permission <;> cases hs <;> intro file <;>
        exact (places_setTask hi (fun _ => rfl) fun _ => rfl).trans (h file)
  | stop now =>
      simp only [stepTask] at hs
      split at hs
      · -- the file goes from the recorder to the task
        rename_i c hc
        cases hs
        intro file
        have hbefore := h file
        have hmoved := total_set (f := holds file) (b := .stopped c.file (now - c.startedAt)) hi
        change _ = if file < s.created then 1 else 0
        simp only [places, State.setTask, hc, holds, records] at hbefore hmoved ⊢
        omega
      · cases hs
        intro file
        exact (places_setTask hi (fun _ => rfl) fun _ => rfl).trans (h file)
  | stopped f duration =>
      -- the file goes from the task to `startReport`
      cases hs
      intro file
      have hbefore := h file
      have hmoved := total_set (f := holds file) (b := .startReport) hi
      change _ = if file < s.created then 1 else 0
      simp only [places, State.setTask, holds, List.countP_append, List.countP_singleton,
        decide_eq_true_eq] at hbefore hmoved ⊢
      omega
  | cancel =>
      cases hs
      intro file
      have hbefore := h file
      have hmoved := total_set (f := holds file) (b := .dismiss) hi
      change _ = if file < s.created then 1 else 0
      simp only [places, State.setTask, holds, records, List.count_append, count_toList]
        at hbefore hmoved ⊢
      omega
  | done => cases hs
  | _ =>
      cases hs
      intro file
      exact (places_setTask hi (fun _ => rfl) fun _ => rfl).trans (h file)

theorem accounted_step (h : Accounted s) (hs : step s a = some s') : Accounted s' := by
  -- a task that starts holds no file
  have hspawn : ∀ t, (∀ file, holds file t = 0) →
      Accounted { s with tasks := s.tasks ++ [t] } := by
    intro t ht file
    have hbefore := h file
    simp only [places, total_append, total_cons, total_nil, ht] at hbefore ⊢
    exact hbefore
  cases a with
  | edit label =>
      simp only [step] at hs
      split_ifs at hs
      cases hs
      exact h
  | tapControl =>
      simp only [step] at hs
      split at hs
      · split_ifs at hs
        cases hs
        exact hspawn _ fun _ => rfl
      · cases hs
        exact hspawn _ fun _ => rfl
      · cases hs
  | meter now =>
      simp only [step] at hs
      split_ifs at hs
      cases hs
      exact hspawn _ fun _ => rfl
  | tapCancel =>
      cases hs
      exact hspawn _ fun _ => rfl
  | step i env =>
      obtain ⟨t, hi, hs⟩ := Option.bind_eq_some_iff.mp hs
      exact accounted_task h hi hs

/-- In every run each recording that was started is in exactly one place, so one that is handed
to `startReport` is handed over once and never deleted, and none vanishes but by a further
start or by the cancel button. -/
theorem recording_accounted (hw : Run step anyStep init s) (file : ℕ) :
    places s file = if file < s.created then 1 else 0 := by
  have h : Accounted s :=
    hw.invariant (I := Accounted) (fun file => by simp [places, init, records])
    fun _ _ _ hi _ hs => accounted_step hi hs
  exact h file

/-- The user names the property, records, and taps twice to stop; then the screen is closed. -/
def captureSchedule : List Action :=
  [.edit " 12 Elm St ", .tapControl, .step 0 {}, .step 0 { now := 5 }, .step 0 {}, .tapControl,
    .tapControl, .step 1 { now := 65 }, .step 2 { now := 65 }, .step 1 {}, .step 2 {}, .step 1 {},
    .tapCancel, .step 3 {}]

theorem recording_accounted_demo :
    ∃ s, Run step anyStep init s ∧ s.reports = [⟨"12 Elm St", 0, 65⟩] ∧ s.deleted = [] ∧
      places s 0 = if 0 < s.created then 1 else 0 := by
  have hend : (exec step captureSchedule init).any (fun s =>
      decide (s.reports = [⟨"12 Elm St", 0, 65⟩] ∧ s.deleted = [])) = true := by decide
  obtain ⟨s, hw, hp⟩ := exec_any hend
  obtain ⟨hreports, hdeleted⟩ := of_decide_eq_true hp
  exact ⟨s, hw, hreports, hdeleted, recording_accounted hw 0⟩

end FieldNote.RecordingCapture
