import FieldNote.GuardedRuns
import FieldNote.PoolTotals

/-!
# The registry of background uploads

`upload` creates a task of the background session, registers its continuation under the task's
identifier and resumes the task. The delegate takes the continuation out of the registry and
resumes it; a completion without one goes to `onUploadFinished`. Tasks outlive the process, the
registry and the calls do not. A cancellation may hit a task at any time, also before its
continuation is registered.
-/
namespace FieldNote.AudioUploader
open GuardedRuns CallPool

/-- A task of the session; its position is the `taskIdentifier`, `jobId` its description. -/
structure UploadTask where
  jobId : String
  resumed : Bool := false
  cancelled : Bool := false
  /-- whether it succeeded, once it is completed -/
  completed : Option Bool := none
deriving DecidableEq, Repr

/-- Where one call of `upload` stands. A process that is killed takes its calls with it. -/
inductive UploadPc where
  | created (task : ℕ)
  | waiting (task : ℕ)
  | resumed (task : ℕ) (success : Bool)
  | invalidURL
  | killed (task : ℕ)
deriving DecidableEq, Repr

/-- A call of `onUploadFinished`; `task` is not passed. -/
structure Callback where
  task : ℕ
  jobId : String
  success : Bool
deriving DecidableEq, Repr

structure State where
  tasks : List UploadTask
  continuations : ℕ → Option ℕ
  uploads : List UploadPc
  /-- whether `onUploadFinished` is set -/
  wired : Bool
  callbacks : List Callback

def init : State := ⟨[], fun _ => none, [], false, []⟩

inductive Action where
  | upload (jobId : String) (valid : Bool)
  | register (i : ℕ)
  | cancel (task : ℕ)
  | complete (task : ℕ) (success : Bool)
  | wire
  | kill

/-- The end of the process for one call. -/
def UploadPc.kill : UploadPc → UploadPc
  | .created t | .waiting t => .killed t
  | pc => pc

/-- `urlSession(_:task:didCompleteWithError:)`. -/
def didComplete (s : State) (t : ℕ) (task : UploadTask) (success : Bool) : State :=
  let tasks := s.tasks.set t { task with completed := some success }
  match s.continuations t with
  | some i =>
      { s with
        tasks := tasks
        continuations := Function.update s.continuations t none
        uploads := s.uploads.set i (.resumed t success) }
  | none =>
      if task.jobId ≠ "" && s.wired then
        { s with
          tasks := tasks
          callbacks := s.callbacks ++ [⟨t, task.jobId, success⟩] }
      else { s with tasks := tasks }

def step (s : State) : Action → Option State
  | .upload jobId valid =>
      if valid then
        some { s with
          tasks := s.tasks ++ [{ jobId := jobId }]
          uploads := s.uploads ++ [.created s.tasks.length] }
      else some { s with uploads := s.uploads ++ [.invalidURL] }
  | .register i =>
      match s.uploads[i]? with
      | some (.created t) =>
          some { s with
            tasks := s.tasks.modify t fun task => { task with resumed := true }
            continuations := Function.update s.continuations t (some i)
            uploads := s.uploads.set i (.waiting t) }
      | _ => none
  | .cancel t =>
      some { s with tasks := s.tasks.modify t fun task => { task with cancelled := true } }
  | .complete t success =>
      match s.tasks[t]? with
      | some task =>
          if task.completed = none && (task.resumed || task.cancelled && !success) then
            some (didComplete s t task success)
          else none
      | none => none
  | .wire => some { s with wired := true }
  | .kill =>
      some { s with
        continuations := fun _ => none
        uploads := s.uploads.map UploadPc.kill
        wired := false }

/-- Job ids are not empty, the delegate is called once the handler is set (the session is made
by the first upload), and no task is cancelled before its continuation is registered. -/
def Attached (s : State) : Action → Prop
  | .upload jobId _ => jobId ≠ ""
  | .cancel t => (s.tasks[t]?).any UploadTask.resumed = true
  | .complete _ _ => s.wired = true
  | _ => True

instance : DecidableRel Attached := fun s a => by
  cases a <;> unfold Attached <;> infer_instance

def UploadPc.task : UploadPc → Option ℕ
  | .created t | .waiting t | .resumed t _ | .killed t => some t
  | .invalidURL => none

/-- The call was resumed with the result of the task. -/
def resumes (t : ℕ) : UploadPc → ℕ
  | .resumed t' _ => if t' = t then 1 else 0
  | _ => 0

/-- How often the end of a task was reported. -/
def reports (s : State) (t : ℕ) : ℕ :=
  total (resumes t) s.uploads + s.callbacks.countP fun c => c.task = t

structure Registered (s : State) : Prop where
  /-- a continuation is that of a call that waits for the task -/
  entry : ∀ (t i : ℕ), s.continuations t = some i → s.uploads[i]? = some (.waiting t)
  /-- a call that waits is registered for a task that runs and is not completed -/
  waits : ∀ (i t : ℕ), s.uploads[i]? = some (.waiting t) → s.continuations t = some i ∧
    ∃ task, s.tasks[t]? = some task ∧ task.resumed = true ∧ task.completed = none
  /-- a task whose call is not registered yet has not started -/
  fresh : ∀ (i t : ℕ), s.uploads[i]? = some (.created t) →
    ∃ task, s.tasks[t]? = some task ∧ task.resumed = false ∧ task.completed = none ∧
      task.cancelled = false
  alone : ∀ (i j t : ℕ) (pc pc' : UploadPc), s.uploads[i]? = some pc → s.uploads[j]? = some pc' →
    pc.task = some t → pc'.task = some t → i = j
  bound : ∀ (i t : ℕ) (pc : UploadPc), s.uploads[i]? = some pc → pc.task = some t →
    t < s.tasks.length
  named : ∀ task ∈ s.tasks, task.jobId ≠ ""

/-- The end of a task is reported once, with its result and its job. -/
structure Reported (s : State) : Prop where
  once : ∀ (t : ℕ) (task : UploadTask), s.tasks[t]? = some task →
    reports s t = if task.completed.isSome then 1 else 0
  call : ∀ (i t : ℕ) (ok : Bool), s.uploads[i]? = some (.resumed t ok) →
    ∃ task, s.tasks[t]? = some task ∧ task.completed = some ok
  callback : ∀ c ∈ s.callbacks, ∃ task, s.tasks[c.task]? = some task ∧
    task.jobId = c.jobId ∧ task.completed = some c.success

variable {s s' : State} {a : Action}

theorem registered_init : Registered init := by
  constructor <;> simp [init]

theorem reported_init : Reported init := by
  constructor <;> simp [init]

theorem getElem?_modify_cases {α : Type*} {xs : List α} {f : α → α} {t j : ℕ} {y : α}
    (h : (xs.modify t f)[j]? = some y) :
    ∃ x, xs[j]? = some x ∧ (j = t ∧ y = f x ∨ j ≠ t ∧ y = x) := by
  rw [List.getElem?_modify] at h
  obtain ⟨x, hx, rfl⟩ := Option.map_eq_some_iff.mp h
  refine ⟨x, hx, ?_⟩
  by_cases htj : t = j
  · exact .inl ⟨htj.symm, by simp [htj]⟩
  · exact .inr ⟨Ne.symm htj, by simp [htj]⟩

theorem getElem?_modify_some {α : Type*} {xs : List α} {f : α → α} {t j : ℕ} {x : α}
    (h : xs[j]? = some x) : (xs.modify t f)[j]? = some (if t = j then f x else x) := by
  rw [List.getElem?_modify, h]
  split_ifs <;> rfl

/-- Replacing a call by one with the same task keeps the tasks apart. -/
theorem alone_set {uploads : List UploadPc} {i : ℕ} {pc pc' : UploadPc}
    (h : ∀ (j k t : ℕ) (p q : UploadPc), uploads[j]? = some p → uploads[k]? = some q →
      p.task = some t → q.task = some t → j = k)
    (hi : uploads[i]? = some pc) (hpc : pc'.task = pc.task) :
    ∀ (j k t : ℕ) (p q : UploadPc), (uploads.set i pc')[j]? = some p →
      (uploads.set i pc')[k]? = some q → p.task = some t → q.task = some t → j = k := by
  have hback : ∀ {j t : ℕ} {p : UploadPc}, (uploads.set i pc')[j]? = some p → p.task = some t →
      ∃ p₀ : UploadPc, uploads[j]? = some p₀ ∧ p₀.task = some t := by
    intro j t p hj hp
    rcases getElem?_set_cases hj with ⟨rfl, rfl⟩ | ⟨-, hold⟩
    · exact ⟨pc, hi, hpc ▸ hp⟩
    · exact ⟨p, hold, hp⟩
  intro j k t p q hj hk hp hq
  obtain ⟨p₀, hj, hp⟩ := hback hj hp
  obtain ⟨q₀, hk, hq⟩ := hback hk hq
  exact h j k t p₀ q₀ hj hk hp hq

theorem registered_upload {jobId : String} (h : Registered s) (hjob : jobId ≠ "") :
    Registered { s with
      tasks := s.tasks ++ [{ jobId := jobId }]
      uploads := s.uploads ++ [.created s.tasks.length] } := by
  have htask : ∀ {t : ℕ} {task : UploadTask}, s.tasks[t]? = some task →
      (s.tasks ++ [{ jobId := jobId }])[t]? = some task :=
    fun ht => (List.getElem?_append_left (lt_of_getElem? ht)).trans ht
  refine ⟨?_, ?_, ?_, ?_, ?_, ?_⟩
  · intro t i hc
    have hi := h.entry t i hc
    exact (List.getElem?_append_left (lt_of_getElem? hi)).trans hi
  · intro i t hi
    rcases getElem?_start_cases hi with ⟨-, heq⟩ | ⟨-, hold⟩
    · cases heq
    · obtain ⟨hc, task, ht, hrest⟩ := h.waits i t hold
      exact ⟨hc, task, htask ht, hrest⟩
  · intro i t hi
    rcases getElem?_start_cases hi with ⟨-, heq⟩ | ⟨-, hold⟩
    · cases heq
      exact ⟨{ jobId := jobId }, by simp, rfl, rfl, rfl⟩
    · obtain ⟨task, ht, hrest⟩ := h.fresh i t hold
      exact ⟨task, htask ht, hrest⟩
  · intro i j t pc pc' hi hj hp hp'
    rcases getElem?_start_cases hi with ⟨rfl, rfl⟩ | ⟨-, hold⟩ <;>
      rcases getElem?_start_cases hj with ⟨rfl, rfl⟩ | ⟨-, hold'⟩
    · rfl
    · cases hp
      have hlt := h.bound j _ pc' hold' hp'
      omega
    · cases hp'
      have hlt := h.bound i _ pc hold hp
      omega
    · exact h.alone i j t pc pc' hold hold' hp hp'
  · intro i t pc hi hp
    simp only [List.length_append, List.length_cons, List.length_nil]
    rcases getElem?_start_cases hi with ⟨-, rfl⟩ | ⟨-, hold⟩
    · cases hp
      omega
    · have hlt := h.bound i t pc hold hp
      omega
  · intro task ht
    rcases List.mem_append.mp ht with hold | hnew
    · exact h.named task hold
    · rw [List.mem_singleton.mp hnew]
      exact hjob

theorem registered_invalid (h : Registered s) :
    Registered { s with uploads := s.uploads ++ [.invalidURL] } := by
  have hback : ∀ {i t : ℕ} {pc : UploadPc}, (s.uploads ++ [.invalidURL])[i]? = some pc →
      pc.task = some t → s.uploads[i]? = some pc := by
    intro i t pc hi hp
    rcases getElem?_start_cases hi with ⟨-, rfl⟩ | ⟨-, hold⟩
    · cases hp
    · exact hold
  refine ⟨?_, ?_, ?_, ?_, ?_, h.named⟩
  · intro t i hc
    have hi := h.entry t i hc
    exact (List.getElem?_append_left (lt_of_getElem? hi)).trans hi
  · intro i t hi
    exact h.waits i t (hback hi rfl)
  · intro i t hi
    exact h.fresh i t (hback hi rfl)
  · intro i j t pc pc' hi hj hp hp'
    exact h.alone i j t pc pc' (hback hi hp) (hback hj hp') hp hp'
  · intro i t pc hi hp
    exact h.bound i t pc (hback hi hp) hp

theorem registered_register {i t : ℕ} (h : Registered s)
    (hi : s.uploads[i]? = some (.created t)) :
    Registered { s with
      tasks := s.tasks.modify t fun task => { task with resumed := true }
      continuations := Function.update s.continuations t (some i)
      uploads := s.uploads.set i (.waiting t) } := by
  -- the other calls have other tasks
  have hother : ∀ {j t' : ℕ} {pc : UploadPc}, j ≠ i → s.uploads[j]? = some pc →
      pc.task = some t' → t' ≠ t := by
    intro j t' pc hne hj hp heq
    exact hne (h.alone j i t pc _ hj hi (heq ▸ hp) rfl)
  refine ⟨?_, ?_, ?_, alone_set h.alone hi rfl, ?_, ?_⟩
  · intro t' j hc
    by_cases htt : t' = t
    · subst htt
      simp only [Function.update_self, Option.some.injEq] at hc
      subst hc
      exact getElem?_set_same hi
    · simp only [Function.update_of_ne htt] at hc
      have hj := h.entry t' j hc
      have hne : j ≠ i := by
        rintro rfl
        rw [hi] at hj
        cases hj
      exact (getElem?_set_other hne).trans hj
  · intro j t' hj
    rcases getElem?_set_cases hj with ⟨rfl, heq⟩ | ⟨hne, hold⟩
    · cases heq
      obtain ⟨task, ht, -, hopen, -⟩ := h.fresh j t hi
      exact ⟨Function.update_self .., _, getElem?_modify_some ht, by simp, by simpa using hopen⟩
    · obtain ⟨hc, task, ht, hrun, hopen⟩ := h.waits j t' hold
      have htt := hother hne hold rfl
      refine ⟨(Function.update_of_ne htt _ _).trans hc, task, ?_, hrun, hopen⟩
      rw [getElem?_modify_some ht, if_neg (Ne.symm htt)]
  · intro j t' hj
    rcases getElem?_set_cases hj with ⟨-, heq⟩ | ⟨hne, hold⟩
    · cases heq
    · obtain ⟨task, ht, hrest⟩ := h.fresh j t' hold
      have htt := hother hne hold rfl
      refine ⟨task, ?_, hrest⟩
      rw [getElem?_modify_some ht, if_neg (Ne.symm htt)]
  · intro j t' pc hj hp
    rw [List.length_modify]
    rcases getElem?_set_cases hj with ⟨rfl, rfl⟩ | ⟨-, hold⟩
    · exact h.bound j t' _ hi hp
    · exact h.bound j t' pc hold hp
  · intro task ht
    obtain ⟨k, hk⟩ := List.mem_iff_getElem?.mp ht
    obtain ⟨old, hold, hcase⟩ := getElem?_modify_cases hk
    rcases hcase with ⟨-, heq⟩ | ⟨-, heq⟩ <;> rw [heq] <;>
      exact h.named old (List.mem_of_getElem? hold)

theorem registered_cancel {t : ℕ} (h : Registered s)
    (hstarted : (s.tasks[t]?).any UploadTask.resumed = true) :
    Registered
      { s with tasks := s.tasks.modify t fun task => { task with cancelled := true } } := by
  refine ⟨h.entry, ?_, ?_, h.alone, ?_, ?_⟩
  · intro i t' hi
    obtain ⟨hc, task, ht, hrun, hopen⟩ := h.waits i t' hi
    refine ⟨hc, _, getElem?_modify_some ht, ?_, ?_⟩ <;> split_ifs <;> assumption
  · intro i t' hi
    obtain ⟨task, ht, hrun, hrest⟩ := h.fresh i t' hi
    have htt : t ≠ t' := by
      rintro rfl
      simp [ht, hrun] at hstarted
    refine ⟨task, ?_, hrun, hrest⟩
    rw [getElem?_modify_some ht, if_neg htt]
  · intro i t' pc hi hp
    rw [List.length_modify]
    exact h.bound i t' pc hi hp
  · intro task ht
    obtain ⟨k, hk⟩ := List.mem_iff_getElem?.mp ht
    obtain ⟨old, hold, hcase⟩ := getElem?_modify_cases hk
    rcases hcase with ⟨-, heq⟩ | ⟨-, heq⟩ <;> rw [heq] <;>
      exact h.named old (List.mem_of_getElem? hold)

theorem kill_task (pc : UploadPc) : pc.kill.task = pc.task := by
  cases pc <;> rfl

theorem registered_kill (h : Registered s) :
    Registered { s with
      continuations := fun _ => none
      uploads := s.uploads.map UploadPc.kill
      wired := false } := by
  have hback : ∀ {i : ℕ} {pc : UploadPc}, (s.uploads.map UploadPc.kill)[i]? = some pc →
      ∃ pc₀ : UploadPc, s.uploads[i]? = some pc₀ ∧ pc = pc₀.kill := by
    intro i pc hi
    rw [List.getElem?_map] at hi
    obtain ⟨pc₀, hold, heq⟩ := Option.map_eq_some_iff.mp hi
    exact ⟨pc₀, hold, heq.symm⟩
  refine ⟨by simp, ?_, ?_, ?_, ?_, h.named⟩
  · intro i t hi
    obtain ⟨pc₀, -, heq⟩ := hback hi
    cases pc₀ <;> cases heq
  · intro i t hi
    obtain ⟨pc₀, -, heq⟩ := hback hi
    cases pc₀ <;> cases heq
  · intro i j t pc pc' hi hj hp hp'
    obtain ⟨pc₀, hold, rfl⟩ := hback hi
    obtain ⟨pc₁, hold', rfl⟩ := hback hj
    exact h.alone i j t pc₀ pc₁ hold hold' (kill_task pc₀ ▸ hp) (kill_task pc₁ ▸ hp')
  · intro i t pc hi hp
    obtain ⟨pc₀, hold, rfl⟩ := hback hi
    exact h.bound i t pc₀ hold (kill_task pc₀ ▸ hp)

section Complete

variable {t : ℕ} {task : UploadTask} {success : Bool}

/-- The calls of the other tasks know nothing of a completion. -/
theorem tasks_other {t' : ℕ} (hne : t' ≠ t) :
    (s.tasks.set t { task with completed := some success })[t']? = s.tasks[t']? :=
  getElem?_set_other hne

theorem named_set (h : Registered s) (ht : s.tasks[t]? = some task) :
    ∀ task' ∈ s.tasks.set t { task with completed := some success }, task'.jobId ≠ "" := by
  intro task' hmem
  rcases List.mem_or_eq_of_mem_set hmem with hold | rfl
  · exact h.named task' hold
  · exact h.named task (List.mem_of_getElem? ht)

theorem registered_complete (h : Registered s) (ht : s.tasks[t]? = some task)
    (hstarted : task.resumed = true ∨ task.cancelled = true) :
    Registered (didComplete s t task success) := by
  -- a task that has not started does not complete
  have hfresh : ∀ {i t' : ℕ}, s.uploads[i]? = some (.created t') → t' ≠ t := by
    rintro i t' hi rfl
    obtain ⟨task', ht', hrun, -, hcancel⟩ := h.fresh i t' hi
    rw [ht] at ht'
    cases ht'
    simp [hrun, hcancel] at hstarted
  unfold didComplete
  cases hc : s.continuations t with
  | some i =>
      have hi := h.entry t i hc
      have hother : ∀ {j t' : ℕ}, j ≠ i → s.uploads[j]? = some (.waiting t') → t' ≠ t := by
        rintro j t' hne hj rfl
        exact hne (h.alone j i t' _ _ hj hi rfl rfl)
      refine ⟨?_, ?_, ?_, alone_set h.alone hi rfl, ?_, named_set h ht⟩
      · intro t' j hj
        by_cases htt : t' = t
        · subst htt
          simp at hj
        · simp only [Function.update_of_ne htt] at hj
          have hwait := h.entry t' j hj
          have hne : j ≠ i := by
            rintro rfl
            rw [hi] at hwait
            cases hwait
            exact htt rfl
          exact (getElem?_set_other hne).trans hwait
      · intro j t' hj
        rcases getElem?_set_cases hj with ⟨-, heq⟩ | ⟨hne, hold⟩
        · cases heq
        · have htt := hother hne hold
          obtain ⟨hreg, task', ht', hrest⟩ := h.waits j t' hold
          exact ⟨(Function.update_of_ne htt _ _).trans hreg, task', (tasks_other htt).trans ht',
            hrest⟩
      · intro j t' hj
        rcases getElem?_set_cases hj with ⟨-, heq⟩ | ⟨-, hold⟩
        · cases heq
        · obtain ⟨task', ht', hrest⟩ := h.fresh j t' hold
          exact ⟨task', (tasks_other (hfresh hold)).trans ht', hrest⟩
      · intro j t' pc hj hp
        rw [List.length_set]
        rcases getElem?_set_cases hj with ⟨rfl, rfl⟩ | ⟨-, hold⟩
        · exact h.bound j t' _ hi hp
        · exact h.bound j t' pc hold hp
  | none =>
      have hinner : ∀ callbacks, Registered { s with
          tasks := s.tasks.set t { task with completed := some success }
          callbacks := callbacks } := by
        intro callbacks
        refine ⟨h.entry, ?_, ?_, h.alone, ?_, named_set h ht⟩
        · intro j t' hj
          obtain ⟨hreg, task', ht', hrest⟩ := h.waits j t' hj
          have htt : t' ≠ t := by
            rintro rfl
            rw [hc] at hreg
            cases hreg
          exact ⟨hreg, task', (tasks_other htt).trans ht', hrest⟩
        · intro j t' hj
          obtain ⟨task', ht', hrest⟩ := h.fresh j t' hj
          exact ⟨task', (tasks_other (hfresh hj)).trans ht', hrest⟩
        · intro j t' pc hj hp
          rw [List.length_set]
          exact h.bound j t' pc hj hp
      dsimp only
      split_ifs
      · exact hinner _
      · exact hinner s.callbacks

end Complete

theorem registered_step (h : Registered s) (hg : Attached s a) (hs : step s a = some s') :
    Registered s' := by
  cases a with
  | upload jobId valid =>
      cases valid with
      | true =>
          cases hs
          exact registered_upload h hg
      | false =>
          cases hs
          exact registered_invalid h
  | register i =>
      simp only [step] at hs
      split at hs
      · rename_i t hi
        cases hs
        exact registered_register h hi
      · cases hs
  | cancel t =>
      cases hs
      exact registered_cancel h hg
  | complete t success =>
      simp only [step] at hs
      split at hs
      · rename_i task ht
        split_ifs at hs with hopen
        cases hs
        simp only [Bool.and_eq_true, Bool.or_eq_true, decide_eq_true_eq] at hopen
        exact registered_complete h ht (hopen.2.imp_right And.left)
      · cases hs
  | wire =>
      cases hs
      exact ⟨h.entry, h.waits, h.fresh, h.alone, h.bound, h.named⟩
  | kill =>
      cases hs
      exact registered_kill h

/-! ## Reports -/

/-- The tasks stay, with their jobs and results. -/
structure Extends (s s' : State) : Prop where
  old : ∀ (t : ℕ) (task : UploadTask), s.tasks[t]? = some task →
    ∃ task', s'.tasks[t]? = some task' ∧ task'.jobId = task.jobId ∧
      task'.completed = task.completed
  new : ∀ (t : ℕ) (task' : UploadTask), s'.tasks[t]? = some task' →
    (∃ task, s.tasks[t]? = some task ∧ task'.completed = task.completed) ∨
      t = s.tasks.length ∧ task'.completed = none

/-- Nothing is reported where no task completes. -/
theorem reported_quiet (hr : Registered s) (h : Reported s) (hext : Extends s s')
    (hreports : ∀ t, reports s' t = reports s t)
    (hcalls : ∀ (i t : ℕ) (ok : Bool), s'.uploads[i]? = some (.resumed t ok) →
      s.uploads[i]? = some (.resumed t ok))
    (hcallbacks : s'.callbacks = s.callbacks) : Reported s' := by
  refine ⟨?_, ?_, ?_⟩
  · intro t task' ht'
    rw [hreports]
    rcases hext.new t task' ht' with ⟨task, ht, hsame⟩ | ⟨rfl, hnone⟩
    · rw [hsame]
      exact h.once t task ht
    · have hcallsNone : total (resumes s.tasks.length) s.uploads = 0 := by
        apply total_eq_zero
        intro pc hpc
        obtain ⟨i, hi⟩ := List.mem_iff_getElem?.mp hpc
        cases pc with
        | resumed t ok =>
            have hlt := hr.bound i t _ hi rfl
            have hne : t ≠ s.tasks.length := by omega
            simp [resumes, hne]
        | _ => rfl
      have hnoCallback : s.callbacks.countP (fun c => c.task = s.tasks.length) = 0 := by
        rw [List.countP_eq_zero]
        intro c hc
        obtain ⟨task, ht, -⟩ := h.callback c hc
        have hlt := lt_of_getElem? ht
        simp only [decide_eq_true_eq]
        omega
      simp [reports, hcallsNone, hnoCallback, hnone]
  · intro i t ok hi
    obtain ⟨task, ht, hok⟩ := h.call i t ok (hcalls i t ok hi)
    obtain ⟨task', ht', -, hsame⟩ := hext.old t task ht
    exact ⟨task', ht', hsame.trans hok⟩
  · intro c hc
    rw [hcallbacks] at hc
    obtain ⟨task, ht, hjob, hok⟩ := h.callback c hc
    obtain ⟨task', ht', hjob', hsame⟩ := hext.old c.task task ht
    exact ⟨task', ht', hjob'.trans hjob, hsame.trans hok⟩

theorem extends_modify {t : ℕ} {f : UploadTask → UploadTask} (hjob : ∀ u, (f u).jobId = u.jobId)
    (hdone : ∀ u, (f u).completed = u.completed) (htasks : s'.tasks = s.tasks.modify t f) :
    Extends s s' := by
  refine ⟨?_, ?_⟩
  · intro t' task ht
    rw [htasks]
    refine ⟨_, getElem?_modify_some ht, ?_, ?_⟩ <;> split_ifs <;> simp [hjob, hdone]
  · intro t' task' ht'
    rw [htasks] at ht'
    obtain ⟨task, ht, hcase⟩ := getElem?_modify_cases ht'
    refine .inl ⟨task, ht, ?_⟩
    rcases hcase with ⟨-, heq⟩ | ⟨-, heq⟩ <;> rw [heq]
    exact hdone task

theorem extends_same (htasks : s'.tasks = s.tasks) : Extends s s' := by
  refine ⟨?_, ?_⟩
  · intro t task ht
    rw [htasks]
    exact ⟨task, ht, rfl, rfl⟩
  · intro t task ht
    rw [htasks] at ht
    exact .inl ⟨task, ht, rfl⟩

theorem resumes_kill (t : ℕ) (pc : UploadPc) : resumes t pc.kill = resumes t pc := by
  cases pc <;> rfl

section Complete

variable {t : ℕ} {task : UploadTask} {success : Bool}

/-- The other tasks are reported as before. -/
theorem reported_complete (hr : Registered s) (h : Reported s) (ht : s.tasks[t]? = some task)
    (hopen : task.completed = none) (hwired : s.wired = true) :
    Reported (didComplete s t task success) := by
  have hnamed := hr.named task (List.mem_of_getElem? ht)
  have hzero := h.once t task ht
  rw [hopen] at hzero
  simp only [Option.isSome_none, Bool.false_eq_true, if_false] at hzero
  -- a task that has been reported is another one
  have hother : ∀ {t' : ℕ} {task' : UploadTask} {ok : Bool}, s.tasks[t']? = some task' →
      task'.completed = some ok → t' ≠ t := by
    rintro t' task' ok ht' hok rfl
    rw [ht] at ht'
    cases ht'
    rw [hopen] at hok
    cases hok
  have hset := getElem?_set_same (a := { task with completed := some success }) ht
  unfold didComplete
  cases hc : s.continuations t with
  | some i =>
      have hi := hr.entry t i hc
      have htotal : ∀ t', total (resumes t') (s.uploads.set i (.resumed t success)) =
          total (resumes t') s.uploads + if t = t' then 1 else 0 := by
        intro t'
        have hmoved := total_set (f := resumes t') (b := .resumed t success) hi
        simp only [resumes] at hmoved ⊢
        omega
      refine ⟨?_, ?_, ?_⟩
      · intro t' task' ht'
        simp only [reports, htotal] at hzero ⊢
        rcases getElem?_set_cases ht' with ⟨rfl, rfl⟩ | ⟨hne, hold⟩
        · simp only [if_true, Option.isSome_some]
          omega
        · have honce := h.once t' task' hold
          simp only [reports] at honce
          rw [if_neg (Ne.symm hne), Nat.add_zero, honce]
      · intro j t' ok hj
        rcases getElem?_set_cases hj with ⟨-, heq⟩ | ⟨-, hold⟩
        · cases heq
          exact ⟨_, hset, rfl⟩
        · obtain ⟨task', ht', hok⟩ := h.call j t' ok hold
          exact ⟨task', (tasks_other (hother ht' hok)).trans ht', hok⟩
      · intro c hmem
        obtain ⟨task', ht', hjob, hok⟩ := h.callback c hmem
        exact ⟨task', (tasks_other (hother ht' hok)).trans ht', hjob, hok⟩
  | none =>
      simp only [hnamed, hwired, ne_eq, not_false_eq_true, decide_true, Bool.and_self, if_true]
      refine ⟨?_, ?_, ?_⟩
      · intro t' task' ht'
        simp only [reports, List.countP_append, List.countP_singleton, decide_eq_true_eq]
          at hzero ⊢
        rcases getElem?_set_cases ht' with ⟨rfl, rfl⟩ | ⟨hne, hold⟩
        · simp only [if_true, Option.isSome_some]
          omega
        · have honce := h.once t' task' hold
          simp only [reports] at honce
          rw [if_neg (Ne.symm hne), Nat.add_zero, honce]
      · intro j t' ok hj
        obtain ⟨task', ht', hok⟩ := h.call j t' ok hj
        exact ⟨task', (tasks_other (hother ht' hok)).trans ht', hok⟩
      · intro c hmem
        rcases List.mem_append.mp hmem with hold | hnew
        · obtain ⟨task', ht', hjob, hok⟩ := h.callback c hold
          exact ⟨task', (tasks_other (hother ht' hok)).trans ht', hjob, hok⟩
        · rw [List.mem_singleton.mp hnew]
          exact ⟨_, hset, rfl, rfl⟩

end Complete

theorem reported_step (hr : Registered s) (h : Reported s) (hg : Attached s a)
    (hs : step s a = some s') : Reported s' := by
  cases a with
  | upload jobId valid =>
      cases valid with
      | true =>
          cases hs
          refine reported_quiet hr h ⟨?_, ?_⟩ (by simp [reports, resumes]) ?_ rfl
          · intro t task ht
            exact ⟨task, (List.getElem?_append_left (lt_of_getElem? ht)).trans ht, rfl, rfl⟩
          · intro t task ht
            rcases getElem?_start_cases ht with ⟨rfl, rfl⟩ | ⟨-, hold⟩
            · exact .inr ⟨rfl, rfl⟩
            · exact .inl ⟨task, hold, rfl⟩
          · intro i t ok hi
            rcases getElem?_start_cases hi with ⟨-, heq⟩ | ⟨-, hold⟩
            · cases heq
            · exact hold
      | false =>
          cases hs
          refine reported_quiet hr h (extends_same rfl) (by simp [reports, resumes]) ?_ rfl
          intro i t ok hi
          rcases getElem?_start_cases hi with ⟨-, heq⟩ | ⟨-, hold⟩
          · cases heq
          · exact hold
  | register i =>
      simp only [step] at hs
      split at hs
      · rename_i t hi
        cases hs
        refine reported_quiet hr h (extends_modify (t := t)
          (f := fun task => { task with resumed := true }) (fun _ => rfl) (fun _ => rfl) rfl)
          ?_ ?_ rfl
        · intro t'
          have hmoved := total_set (f := resumes t') (b := .waiting t) hi
          simp only [resumes] at hmoved
          simp only [reports]
          omega
        · intro j t' ok hj
          rcases getElem?_set_cases hj with ⟨-, heq⟩ | ⟨-, hold⟩
          · cases heq
          · exact hold
      · cases hs
  | cancel t =>
      cases hs
      exact reported_quiet hr h (extends_modify (t := t)
        (f := fun task => { task with cancelled := true }) (fun _ => rfl) (fun _ => rfl) rfl)
        (fun _ => rfl) (fun _ _ _ hi => hi) rfl
  | complete t success =>
      simp only [step] at hs
      split at hs
      · rename_i task ht
        split_ifs at hs with hopen
        cases hs
        simp only [Bool.and_eq_true, decide_eq_true_eq] at hopen
        exact reported_complete hr h ht hopen.1 hg
      · cases hs
  | wire =>
      cases hs
      exact reported_quiet hr h (extends_same rfl) (fun _ => rfl) (fun _ _ _ hi => hi) rfl
  | kill =>
      cases hs
      refine reported_quiet hr h (extends_same rfl) ?_ ?_ rfl
      · intro t
        simp only [reports, total_map, resumes_kill]
      · intro i t ok hi
        rw [List.getElem?_map] at hi
        obtain ⟨pc, hold, heq⟩ := Option.map_eq_some_iff.mp hi
        cases pc <;> cases heq
        exact hold

/-- In every run that meets the guard, also over relaunches, the end of each task is reported
once, to the call that waits for it or to `onUploadFinished`, with its job and its result; and no
call waits for a task that has ended. -/
theorem upload_reported (hw : Run step Attached init s) :
    (∀ (t : ℕ) (task : UploadTask), s.tasks[t]? = some task →
      reports s t = if task.completed.isSome then 1 else 0) ∧
    (∀ (i t : ℕ) (ok : Bool), s.uploads[i]? = some (.resumed t ok) →
      ∃ task, s.tasks[t]? = some task ∧ task.completed = some ok) ∧
    (∀ c ∈ s.callbacks, ∃ task, s.tasks[c.task]? = some task ∧ task.jobId = c.jobId ∧
      task.completed = some c.success) ∧
    ∀ (i t : ℕ), s.uploads[i]? = some (.waiting t) →
      ∃ task, s.tasks[t]? = some task ∧ task.completed = none := by
  have h : Registered s ∧ Reported s :=
    hw.invariant (I := fun s => Registered s ∧ Reported s) ⟨registered_init, reported_init⟩
      fun _ _ _ hi hg hs => ⟨registered_step hi.1 hg hs, reported_step hi.1 hi.2 hg hs⟩
  refine ⟨h.2.once, h.2.call, h.2.callback, ?_⟩
  intro i t hi
  obtain ⟨-, task, ht, -, hopen⟩ := h.1.waits i t hi
  exact ⟨task, ht, hopen⟩

/-- One upload ends while its call waits, another one after a relaunch. -/
def relaunchSchedule : List Action :=
  [.wire, .upload "job-1" true, .upload "job-2" true, .register 0, .register 1, .complete 0 true,
    .kill, .wire, .complete 1 false]

theorem upload_reported_demo :
    ∃ s, Run step Attached init s ∧ s.uploads = [.resumed 0 true, .killed 1] ∧
      s.callbacks = [⟨1, "job-2", false⟩] ∧
      ∀ (t : ℕ) (task : UploadTask), s.tasks[t]? = some task →
        reports s t = if task.completed.isSome then 1 else 0 := by
  have hend : (execWhere step Attached relaunchSchedule init).any (fun s =>
      decide (s.uploads = [.resumed 0 true, .killed 1] ∧
        s.callbacks = [⟨1, "job-2", false⟩])) = true := by decide
  obtain ⟨s, hw, hp⟩ := execWhere_any hend
  obtain ⟨huploads, hcallbacks⟩ := of_decide_eq_true hp
  exact ⟨s, hw, huploads, hcallbacks, (upload_reported hw).1⟩

end FieldNote.AudioUploader
