import FieldNote.QuietSync

/-!
# What a PATCH touches

A request is seen as the pairs of stores before and after each of its segments; between two
segments the rest of the server may do anything. The pipe's implicit conversion makes a label of
what is no string, `updateJobDto` lets null pass as absent, but `update` tests for undefined only,
and its last lookup comes after the commit.
-/
namespace FieldNote.PatchFrame
open JobsService PipelineService ServerRuns CallPool

/-- A label that the pipe takes: a string, or a number, a boolean or an object, of which it makes
`String(value)`. A label that is an array stays one and is refused. -/
inductive LabelValue where
  | text (s : String)
  | converted (s : String)
deriving DecidableEq, Repr

def LabelValue.toText : LabelValue → String
  | .text s => s
  | .converted s => s

/-- A body that passes the validation, before the pipe's transformation. Sections that are neither
null nor an array are refused. -/
structure Body where
  label : JobsService.Field LabelValue := .undefined
  sections : JobsService.Field (List UpdateSectionDto) := .undefined
deriving DecidableEq, Repr

/-- `transform: true` with `enableImplicitConversion`. -/
def Body.dto (body : Body) : UpdateJobDto where
  label :=
    match body.label with
    | .undefined => .undefined
    | .null => .null
    | .value label => .value label.toText
  sections := body.sections

/-- The body carries sections, an array, and a label, a string. -/
def Body.NoSections (body : Body) : Prop := ∀ sections, body.sections ≠ .value sections

def Body.NoLabel (body : Body) : Prop := ∀ text, body.label ≠ .value (.text text)

/-- One segment of a request: the stores before and after it, and whether its `await` threw,
and took effect all the same. -/
structure Turn where
  before : Stores
  env : Env
  fault : Option Bool
  after : Stores

/-- The database gives new rows ids that no row has. -/
def NewRows (env : Env) (s : Stores) : Prop :=
  ∀ job ∈ s.jobs.rows, ∀ row ∈ job.sections, ∀ i, env.rowId i 0 ≠ row.id

/-- The thread whose segment an action is. -/
def mover : Action → Option ℕ
  | .step i _ | .throw i _ _ _ => some i
  | _ => none

/-- A run of the server from `w₀` and the segments of thread `i` in it. -/
inductive Served (cfg : ServerConfig) (i : ℕ) (w₀ : World) : List Turn → World → Prop where
  | start : Served cfg i w₀ [] w₀
  | other (turns : List Turn) (v v' : World) (a : Action) (h : Served cfg i w₀ turns v)
      (hs : step cfg v a = some v') (ha : mover a ≠ some i) : Served cfg i w₀ turns v'
  | answered (turns : List Turn) (v v' : World) (env : Env) (h : Served cfg i w₀ turns v)
      (hs : step cfg v (.step i env) = some v') (hnew : NewRows env v.stores) :
      Served cfg i w₀ (turns ++ [⟨v.stores, env, none, v'.stores⟩]) v'
  | threw (turns : List Turn) (v v' : World) (env : Env) (e : Err) (applied : Bool)
      (h : Served cfg i w₀ turns v) (hs : step cfg v (.throw i env e applied) = some v')
      (hnew : NewRows env v.stores) :
      Served cfg i w₀ (turns ++ [⟨v.stores, env, some applied, v'.stores⟩]) v'

/-- The segment leaves this part of every row as it was. -/
def Keeps {α : Type*} (part : Job → α) (t : Turn) : Prop :=
  ∀ id, (t.after.findById id).map part = (t.before.findById id).map part

/-- A segment of a request that stands at `pc` in the end touches only what the body carries,
and nothing when the request ends in an error. -/
structure Framed (body : Body) (pc : UpdatePc) (t : Turn) : Prop where
  tree : body.NoSections → Keeps Job.sections t
  label : body.NoLabel → Keeps Job.label t
  nothing : body.NoSections → body.NoLabel → t.after = t.before
  failed : ∀ error, pc = .threw error → Keeps Job.label t ∧ Keeps Job.sections t

/-- The statement's answer is lost, or the last lookup throws or finds no job. -/
def LateError (userId jobId : String) (turns : List Turn) (u : Turn) : Prop :=
  u.fault = some true ∨ ∃ x, turns[2]? = some x ∧
    (x.fault ≠ none ∨ x.before.findScoped userId jobId = none)

/-- The body carries the label that the job has, and no sections to a job that has none. -/
def Repeats (dto : UpdateJobDto) (job : Job) : Prop :=
  (∀ label, dto.label = .value label → job.label = label) ∧
    ∀ sections, dto.sections = .value sections → sections = [] ∧ job.sections = []

/-- What the body does not carry is in the job already: null sections meet an empty tree, a label
that is no string reads like the job's, and where nothing else is written the clock stands at the
job's `updatedAt`. -/
structure Redundant (body : Body) (now : ℕ) (job : Job) : Prop where
  tree : body.sections = .null → job.sections = []
  label : ∀ string, body.label = .value (.converted string) → job.label = string
  stamp : body.NoSections → body.NoLabel → body ≠ {} → job.updatedAt = now

/-- Where the statement takes effect, it writes nothing new that the body does not carry, and an
error comes late only for an edit that changes nothing. -/
def Harmless (userId jobId : String) (body : Body) (turns : List Turn) : Prop :=
  ∀ u job, turns[1]? = some u → u.fault ≠ some false → body.dto.storable = true →
    u.before.findScoped userId jobId = some job →
      Redundant body u.env.now job ∧ (LateError userId jobId turns u → Repeats body.dto job)

/-- A segment of the call at its program point. -/
inductive Takes (cfg : ServerConfig) (c : UpdateCall) : Turn → UpdatePc → Prop where
  | answered (s : Stores) (env : Env) (pc : UpdatePc) (op : Op)
      (next : nextUpdate cfg s env c = some (pc, op)) :
      Takes cfg c ⟨s, env, none, s.run env.now op⟩ pc
  | threw (s : Stores) (env : Env) (pc : UpdatePc) (throws : c.throwing = some pc) :
      Takes cfg c ⟨s, env, some false, s⟩ pc
  | lost (s : Stores) (env : Env) (pc pc' : UpdatePc) (op : Op) (throws : c.throwing = some pc)
      (next : nextUpdate cfg s env c = some (pc', op)) :
      Takes cfg c ⟨s, env, some true, s.run env.now op⟩ pc

/-- The segments of a call so far. -/
inductive Progress (cfg : ServerConfig) (c : UpdateCall) : List Turn → UpdatePc → Prop where
  | start : Progress cfg c [] .requireOwned
  | looked (t : Turn) (pc : UpdatePc) (quiet : t.after = t.before)
      (at_ : pc = .commit ∨ ∃ error, pc = .threw error) : Progress cfg c [t] pc
  | wrote (t u : Turn) (pc : UpdatePc) (quiet : t.after = t.before)
      (hnew : NewRows u.env u.before) (takes : Takes cfg { c with pc := .commit } u pc) :
      Progress cfg c [t, u] pc
  | read (t u x : Turn) (pc : UpdatePc) (quiet : t.after = t.before)
      (hnew : NewRows u.env u.before) (takes : Takes cfg { c with pc := .commit } u .findOne)
      (last : Takes cfg { c with pc := .findOne } x pc) : Progress cfg c [t, u, x] pc

/-- The row after the statement. -/
def edited (dto : UpdateJobDto) (env : Env) (job : Job) : Job :=
  { job with
    label := match dto.label with
      | .value label => label
      | _ => job.label
    sections := match dto.sections with
      | .undefined => job.sections
      | .null => []
      | .value sections => insertSections env.rowId (toReportInput sections)
    updatedAt := env.now }

variable {cfg : ServerConfig} {c : UpdateCall} {t u x : Turn} {pc pc' : UpdatePc}
  {turns : List Turn} {dto : UpdateJobDto} {body : Body} {userId jobId : String} {job : Job}

theorem throwing_eq (h : c.throwing = some pc) : pc = .threw .unexpected := by
  unfold UpdateCall.throwing at h
  split at h <;> cases h
  rfl

/-- The lookups change nothing. -/
theorem takes_quiet (h : Takes cfg c t pc) (hpc : c.pc ≠ .commit) : t.after = t.before := by
  have hnone : ∀ {s : Stores} {env : Env} {pc : UpdatePc} {op : Op},
      nextUpdate cfg s env c = some (pc, op) → op = .none := by
    intro s env pc op hn
    rcases nextUpdate_op hn with rfl | ⟨w, hcommit, -⟩
    · rfl
    · exact (hpc hcommit).elim
  cases h with
  | answered s env pc op next => rw [hnone next, Stores.run]
  | threw s env pc throws => rfl
  | lost s env pc pc' op throws next => rw [hnone next, Stores.run]

theorem takes_requireOwned (h : Takes cfg { c with pc := .requireOwned } t pc) :
    pc = .commit ∨ ∃ error, pc = .threw error := by
  cases h with
  | answered s env pc op next =>
      simp only [nextUpdate] at next
      split at next <;> cases next
      · exact .inr ⟨_, rfl⟩
      · exact .inl rfl
  | threw s env pc throws => exact .inr ⟨_, throwing_eq throws⟩
  | lost s env pc pc' op throws next => exact .inr ⟨_, throwing_eq throws⟩

theorem takes_commit (h : Takes cfg { c with pc := .commit } t pc) :
    pc = .findOne ∨ ∃ error, pc = .threw error := by
  cases h with
  | answered s env pc op next =>
      simp only [nextUpdate] at next
      split at next <;> cases next
      · exact .inr ⟨_, rfl⟩
      · exact .inl rfl
      · exact .inl rfl
  | threw s env pc throws => exact .inr ⟨_, throwing_eq throws⟩
  | lost s env pc pc' op throws next => exact .inr ⟨_, throwing_eq throws⟩

theorem takes_findOne (h : Takes cfg { c with pc := .findOne } t pc) :
    ((∃ error, pc = .threw error) ↔
      t.fault ≠ none ∨ t.before.findScoped c.userId c.jobId = none) ∧
      ((∃ dto, pc = .returned dto) ∨ ∃ error, pc = .threw error) := by
  cases h with
  | answered s env pc op next =>
      simp only [nextUpdate, JobsService.findOne] at next
      cases hrow : s.findScoped c.userId c.jobId with
      | none =>
          rw [hrow] at next
          cases next
          exact ⟨⟨fun _ => .inr rfl, fun _ => ⟨_, rfl⟩⟩, .inr ⟨_, rfl⟩⟩
      | some job =>
          rw [hrow] at next
          cases next
          refine ⟨⟨?_, ?_⟩, .inl ⟨_, rfl⟩⟩
          · rintro ⟨error, herror⟩
            cases herror
          · rintro (hfault | hnone)
            · exact (hfault rfl).elim
            · cases hnone
  | threw s env pc throws =>
      have hpc := throwing_eq throws
      exact ⟨⟨fun _ => .inl (by simp), fun _ => ⟨_, hpc⟩⟩, .inr ⟨_, hpc⟩⟩
  | lost s env pc pc' op throws next =>
      have hpc := throwing_eq throws
      exact ⟨⟨fun _ => .inl (by simp), fun _ => ⟨_, hpc⟩⟩, .inr ⟨_, hpc⟩⟩

theorem takes_ended (hpc : (∃ dto, c.pc = .returned dto) ∨ ∃ error, c.pc = .threw error) :
    ¬ Takes cfg c t pc := by
  have hended : c.throwing = none ∧ ∀ s env, nextUpdate cfg s env c = none := by
    rcases c with ⟨userId, jobId, dto, pc₀⟩
    rcases hpc with ⟨dto', rfl⟩ | ⟨error, rfl⟩ <;> exact ⟨rfl, fun _ _ => rfl⟩
  intro h
  cases h with
  | answered s env pc op next =>
      rw [hended.2] at next
      cases next
  | threw s env pc throws =>
      rw [hended.1] at throws
      cases throws
  | lost s env pc pc' op throws next =>
      rw [hended.1] at throws
      cases throws

/-- A further segment of a call. -/
theorem progress_takes (h : Progress cfg c turns pc) (hnew : NewRows t.env t.before)
    (ht : Takes cfg { c with pc := pc } t pc') : Progress cfg c (turns ++ [t]) pc' := by
  cases h with
  | start => exact .looked t pc' (takes_quiet ht (by simp)) (takes_requireOwned ht)
  | looked t₀ pc quiet at_ =>
      rcases at_ with rfl | ⟨error, rfl⟩
      · exact .wrote t₀ t pc' quiet hnew ht
      · exact (takes_ended (.inr ⟨error, rfl⟩) ht).elim
  | wrote t₀ u pc quiet hnewRows takes =>
      rcases takes_commit takes with rfl | ⟨error, rfl⟩
      · exact .read t₀ u t pc' quiet hnewRows takes ht
      · exact (takes_ended (.inr ⟨error, rfl⟩) ht).elim
  | read t₀ u x pc quiet hnewRows takes last =>
      rcases (takes_findOne last).2 with ⟨dto, rfl⟩ | ⟨error, rfl⟩
      · exact (takes_ended (.inl ⟨dto, rfl⟩) ht).elim
      · exact (takes_ended (.inr ⟨error, rfl⟩) ht).elim

/-- The steps of the other threads leave the call where it is. -/
theorem other_thread {i : ℕ} {v v' : World} {a : Action} {call : UpdateCall}
    (hcall : v.threads[i]? = some (.update call)) (hs : step cfg v a = some v')
    (ha : mover a ≠ some i) : v'.threads[i]? = some (.update call) := by
  have hlt : i < v.threads.length := (List.getElem?_eq_some_iff.mp hcall).1
  cases step_effect hs with
  | called request => rwa [List.getElem?_append_left hlt]
  | stepped j env t t' op spawned thread next =>
      exact getElem?_advance_other (fun hij => ha (congrArg some hij.symm)) hcall
  | threw j env e t t' thread throws =>
      exact getElem?_advance_other (fun hij => ha (congrArg some hij.symm)) hcall
  | lost j env e t t' t₁ op spawned thread throws next =>
      exact getElem?_advance_other (fun hij => ha (congrArg some hij.symm)) hcall
  | timedOut j t t' thread out =>
      refine getElem?_advance_other ?_ hcall
      rintro rfl
      rw [hcall] at thread
      cases thread
      cases out
  | acked j a e entry thread pc queued =>
      refine getElem?_advance_other ?_ hcall
      rintro rfl
      rw [hcall] at thread
      cases thread
  | picked jobId entry queued waiting => rwa [List.getElem?_append_left hlt]
  | promoted jobId entry queued delayed => rwa [List.getElem?_append_left hlt]
  | purged jobId entry queued completed => rwa [List.getElem?_append_left hlt]
  | uploaded userId jobId bytes => exact hcall

/-- A successful segment of the call. -/
theorem answered_takes {i : ℕ} {v v' : World} {env : Env} {call : UpdateCall}
    (hcall : v.threads[i]? = some (.update call)) (hs : step cfg v (.step i env) = some v') :
    ∃ pc, v'.threads[i]? = some (.update { call with pc := pc }) ∧
      Takes cfg call ⟨v.stores, env, none, v'.stores⟩ pc := by
  simp only [step, hcall, Option.bind_some, next] at hs
  obtain ⟨⟨t, op, spawned⟩, hn, rfl⟩ := Option.map_eq_some_iff.mp hs
  obtain ⟨⟨pc, op'⟩, hnext, he⟩ := Option.map_eq_some_iff.mp hn
  cases he
  exact ⟨pc, getElem?_advance_same hcall, .answered v.stores env pc _ hnext⟩

/-- A segment of the call whose `await` throws. -/
theorem threw_takes {i : ℕ} {v v' : World} {env : Env} {e : Err} {applied : Bool}
    {call : UpdateCall} (hcall : v.threads[i]? = some (.update call))
    (hs : step cfg v (.throw i env e applied) = some v') :
    ∃ pc, v'.threads[i]? = some (.update { call with pc := pc }) ∧
      Takes cfg call ⟨v.stores, env, some applied, v'.stores⟩ pc := by
  simp only [step, hcall, Option.bind_some, throwing] at hs
  obtain ⟨t, ht, hs⟩ := Option.bind_eq_some_iff.mp hs
  obtain ⟨pc, hthrows, rfl⟩ := Option.map_eq_some_iff.mp ht
  cases applied with
  | false =>
      cases hs
      exact ⟨pc, getElem?_advance_same hcall, .threw v.stores env pc hthrows⟩
  | true =>
      simp only [if_true, next] at hs
      obtain ⟨⟨t, op, spawned⟩, hn, rfl⟩ := Option.map_eq_some_iff.mp hs
      obtain ⟨⟨pc', op'⟩, hnext, he⟩ := Option.map_eq_some_iff.mp hn
      cases he
      exact ⟨pc, getElem?_advance_same hcall, .lost v.stores env pc pc' _ hthrows hnext⟩

/-- The segments of a request in a run of the server. -/
theorem served_progress {i : ℕ} {w₀ w : World} (h : Served cfg i w₀ turns w)
    (hstart : w₀.threads[i]? = some (.update { c with pc := .requireOwned })) :
    ∃ pc, w.threads[i]? = some (.update { c with pc := pc }) ∧ Progress cfg c turns pc := by
  induction h with
  | start => exact ⟨.requireOwned, hstart, .start⟩
  | other turns v v' a h hs ha ih =>
      obtain ⟨pc, hcall, hprogress⟩ := ih
      exact ⟨pc, other_thread hcall hs ha, hprogress⟩
  | answered turns v v' env h hs hnew ih =>
      obtain ⟨pc, hcall, hprogress⟩ := ih
      obtain ⟨pc', hcall', htakes⟩ := answered_takes hcall hs
      exact ⟨pc', hcall', progress_takes hprogress hnew htakes⟩
  | threw turns v v' env e applied h hs hnew ih =>
      obtain ⟨pc, hcall, hprogress⟩ := ih
      obtain ⟨pc', hcall', htakes⟩ := threw_takes hcall hs
      exact ⟨pc', hcall', progress_takes hprogress hnew htakes⟩

/-- The statement has no effect without a row, with texts that the database does not take, and
with an empty body. -/
inductive Idle (c : UpdateCall) (s : Stores) : Prop where
  | missing (row : s.findScoped c.userId c.jobId = none)
  | refused (storable : c.dto.storable = false)
  | empty (label : c.dto.label = .undefined) (sections : c.dto.sections = .undefined)

/-- What a statement that takes effect leaves. -/
inductive Effect (c : UpdateCall) (env : Env) (s : Stores) : Stores → Prop where
  | idle (h : Idle c s) : Effect c env s s
  | wrote (job : Job) (w : Write) (row : s.findScoped c.userId c.jobId = some job)
      (storable : c.dto.storable = true)
      (carries : c.dto.label ≠ .undefined ∨ c.dto.sections ≠ .undefined)
      (write : w.apply env.now job = edited c.dto env job) :
      Effect c env s (s.run env.now (.write c.jobId w))

/-- A label update of a row out of scope changes nothing. -/
theorem run_updateLabel_missing {s : Stores} {now : ℕ} {label : String}
    (hrow : s.findScoped userId jobId = none) :
    s.run now (.write jobId (.updateLabelScoped userId label)) = s := by
  have hsame : ∀ row, s.jobs.findUnique jobId = some row →
      (Write.updateLabelScoped userId label).apply now row = row := by
    intro row hfind
    have hscope : row.inScope userId = false := by
      simpa [Stores.findScoped, Stores.findById, hfind, Option.filter] using hrow
    simp [Write.apply, hscope]
  simp only [Stores.run]
  rw [Table.update_self _ hsame]

theorem inScope_of_findScoped {s : Stores} (h : s.findScoped userId jobId = some job) :
    job.inScope userId = true := (Option.filter_eq_some_iff.mp h).2

/-- The row after the statement that `update` issues on a live job of its user. -/
theorem apply_updateWrite {s : Stores} {env : Env} {w : Write}
    (hrow : s.findScoped c.userId c.jobId = some job)
    (hw : updateWrite s env c = .ok (some w)) :
    (c.dto.label ≠ .undefined ∨ c.dto.sections ≠ .undefined) ∧
      w.apply env.now job = edited c.dto env job := by
  have hscope := inScope_of_findScoped hrow
  obtain ⟨userId, jobId, ⟨label, sections⟩, pc₀⟩ := c
  rcases updateWrite_eq hw with ⟨text, rfl, rfl, rfl⟩ | ⟨text, rows, hrows, htext, -, rfl⟩
  · refine ⟨.inl (by simp), ?_⟩
    rw [Write.apply, if_pos hscope]
    rfl
  · rw [Write.apply, if_pos hscope]
    cases hrows with
    | null =>
        refine ⟨.inr (by simp), ?_⟩
        cases htext <;> rfl
    | present rows =>
        refine ⟨.inr (by simp), ?_⟩
        cases htext <;> rfl

/-- The statement of the commit. -/
theorem effect_write {s : Stores} {env : Env} {pc : UpdatePc} {op : Op}
    (hn : nextUpdate cfg s env { c with pc := .commit } = some (pc, op)) :
    Effect c env s (s.run env.now op) := by
  obtain ⟨userId, jobId, dto, pc₀⟩ := c
  simp only [nextUpdate] at hn
  cases hstorable : dto.storable with
  | false =>
      obtain ⟨e, he⟩ := updateWrite_refused s env (c := ⟨userId, jobId, dto, .commit⟩) hstorable
      rw [he] at hn
      cases hn
      exact .idle (.refused hstorable)
  | true =>
      cases hrow : s.findScoped userId jobId with
      | some job =>
          rcases updateWrite_live env (c := ⟨userId, jobId, dto, .commit⟩) hrow hstorable
            with ⟨hlabel, hsections, hnone⟩ | ⟨w, hw⟩
          · rw [hnone] at hn
            cases hn
            exact .idle (.empty hlabel hsections)
          · rw [hw] at hn
            cases hn
            obtain ⟨hcarries, hwrite⟩ := apply_updateWrite hrow hw
            exact .wrote job w hrow hstorable hcarries hwrite
      | none =>
          have hidle : Effect ⟨userId, jobId, dto, pc₀⟩ env s s := .idle (.missing hrow)
          cases hw : updateWrite s env ⟨userId, jobId, dto, .commit⟩ with
          | error e =>
              rw [hw] at hn
              cases hn
              exact hidle
          | ok w =>
              rw [hw] at hn
              cases w with
              | none =>
                  cases hn
                  exact hidle
              | some w =>
                  cases hn
                  rcases updateWrite_eq hw with ⟨label, -, -, rfl⟩ |
                    ⟨label, rows, -, -, ⟨job, hjob⟩, -⟩
                  · rw [run_updateLabel_missing hrow]
                    exact hidle
                  · rw [hrow] at hjob
                    cases hjob

/-- The statement takes effect unless its `await` throws before that. -/
theorem commit_effect (h : Takes cfg { c with pc := .commit } u pc) :
    (u.fault = some false ∧ u.after = u.before) ∨
      (u.fault ≠ some false ∧ Effect c u.env u.before u.after) := by
  cases h with
  | answered s env pc op next => exact .inr ⟨by simp, effect_write next⟩
  | threw s env pc throws => exact .inl ⟨rfl, rfl⟩
  | lost s env pc pc' op throws next => exact .inr ⟨by simp, effect_write next⟩

/-- A statement that fails after it took effect has lost its answer. -/
theorem commit_threw (h : Takes cfg { c with pc := .commit } u pc) :
    ((∃ error, pc = .threw error) → u.fault = some true ∨ u.after = u.before) ∧
      (u.fault = some true → ∃ error, pc = .threw error) := by
  cases h with
  | answered s env pc op next =>
      refine ⟨?_, by simp⟩
      rintro ⟨error, rfl⟩
      simp only [nextUpdate] at next
      split at next <;> cases next
      exact .inr rfl
  | threw s env pc throws => exact ⟨fun _ => .inr rfl, by simp⟩
  | lost s env pc pc' op throws next => exact ⟨fun _ => .inl rfl, fun _ => ⟨_, throwing_eq throws⟩⟩

/-- The rows after a statement that takes effect. -/
theorem effect_row {s s' : Stores} {env : Env} (h : Effect c env s s')
    (hrow : s.findScoped c.userId c.jobId = some job) (hstorable : c.dto.storable = true) :
    (c.dto.label = .undefined ∧ c.dto.sections = .undefined ∧ s' = s) ∨
      s'.findById c.jobId = some (edited c.dto env job) ∧
        ∀ id, id ≠ c.jobId → s'.findById id = s.findById id := by
  cases h with
  | idle hidle =>
      cases hidle with
      | missing row =>
          rw [row] at hrow
          cases hrow
      | refused storable =>
          rw [hstorable] at storable
          cases storable
      | empty label sections => exact .inl ⟨label, sections, rfl⟩
  | wrote job' w row storable carries write =>
      rw [row] at hrow
      cases hrow
      have hbefore : s.findById c.jobId = some job := (Stores.findScoped_eq_some.mp row).1
      refine .inr ⟨?_, ?_⟩
      · rw [Stores.run_row_write, hbefore, Option.map_some, write]
      · intro id hid
        simp [Stores.run, Stores.findById, hid]

/-- What the statement leaves of a part of the rows that is not the time of the update. -/
theorem keeps_iff {α : Type*} (part : Job → α)
    (hpart : ∀ (job : Job) (now : ℕ), part { job with updatedAt := now } = part job)
    (h : Effect c u.env u.before u.after) :
    Keeps part u ↔ ∀ job, u.before.findScoped c.userId c.jobId = some job →
      c.dto.storable = true → part (edited c.dto u.env job) = part job := by
  constructor
  · intro hkeeps job hrow hstorable
    rcases effect_row h hrow hstorable with ⟨hlabel, hsections, -⟩ | ⟨hafter, -⟩
    · simp [edited, hlabel, hsections, hpart]
    · have hsame := hkeeps c.jobId
      rw [hafter, (Stores.findScoped_eq_some.mp hrow).1] at hsame
      simpa using hsame
  · intro hedited id
    generalize u.after = s' at h ⊢
    cases h with
    | idle hidle => rfl
    | wrote job w row storable carries write =>
        have hsame := hedited job row storable
        rw [← write] at hsame
        by_cases hid : id = c.jobId
        · rw [hid, Stores.run_row_write, (Stores.findScoped_eq_some.mp row).1]
          simpa using hsame
        · simp [Stores.run, Stores.findById, hid]

/-- A statement that leaves the row as it was leaves everything as it was. -/
theorem effect_same {s s' : Stores} {env : Env} (h : Effect c env s s')
    (hedited : ∀ job, s.findScoped c.userId c.jobId = some job → c.dto.storable = true →
      edited c.dto env job = job) : s' = s := by
  cases h with
  | idle hidle => rfl
  | wrote job w row storable carries write =>
      have hsame : ∀ r, s.jobs.findUnique c.jobId = some r → w.apply env.now r = r := by
        intro r hr
        have hbefore : s.jobs.findUnique c.jobId = some job := (Stores.findScoped_eq_some.mp row).1
        rw [hbefore] at hr
        cases hr
        rw [write, hedited job row storable]
      simp only [Stores.run]
      rw [Table.update_self _ hsame]

/-- New rows are never the rows that a tree already has. -/
theorem insertSections_new {s : Stores} {env : Env} {sections : List UpdateSectionDto}
    (hnew : NewRows env s) (hrow : s.findScoped userId jobId = some job)
    (h : insertSections env.rowId (toReportInput sections) = job.sections) :
    sections = [] ∧ job.sections = [] := by
  cases hsections : job.sections with
  | nil =>
      rw [hsections] at h
      have hlength := congrArg List.length h
      simp only [insertSections, toReportInput, List.length_mapIdx, List.length_map,
        List.length_insertionSort, List.length_nil] at hlength
      exact ⟨List.eq_nil_of_length_eq_zero hlength, rfl⟩
  | cons first rest =>
      have hmem : job ∈ s.jobs.rows :=
        (Table.findUnique_eq_some.mp (Stores.findScoped_eq_some.mp hrow).1).1
      have hfirst : first ∈ job.sections := by simp [hsections]
      have hid := hfirst
      rw [← h, insertSections, List.mem_mapIdx] at hid
      obtain ⟨i, hi, hrowId⟩ := hid
      exact (hnew job hmem first hfirst i (congrArg ReportSection.id hrowId)).elim

theorem edited_sections {env : Env} (hnull : dto.sections = .null → job.sections = [])
    (hvalue : ∀ sections, dto.sections = .value sections → sections = [] ∧ job.sections = []) :
    (edited dto env job).sections = job.sections := by
  cases hsections : dto.sections with
  | undefined => simp only [edited, hsections]
  | null => simp only [edited, hsections, hnull hsections]
  | value sections =>
      obtain ⟨rfl, hempty⟩ := hvalue sections hsections
      simp only [edited, hsections, hempty]
      rfl

theorem edited_label {env : Env} (hvalue : ∀ label, dto.label = .value label → job.label = label) :
    (edited dto env job).label = job.label := by
  cases hlabel : dto.label with
  | undefined => simp only [edited, hlabel]
  | null => simp only [edited, hlabel]
  | value label => simp only [edited, hlabel, hvalue label hlabel]

theorem framed_quiet (h : t.after = t.before) : Framed body pc t := by
  have hkeeps : ∀ {α : Type} (part : Job → α), Keeps part t := fun part id => by rw [h]
  exact ⟨fun _ => hkeeps _, fun _ => hkeeps _, fun _ _ => h, fun _ _ => ⟨hkeeps _, hkeeps _⟩⟩

/-- A body without a label in it has none, or one that the pipe has converted. -/
theorem noLabel_cases (h : body.NoLabel) (hnull : body.dto.label ≠ .null) :
    body.label = .undefined ∨ ∃ string, body.label = .value (.converted string) := by
  cases hlabel : body.label with
  | undefined => exact .inl rfl
  | null => exact (hnull (by simp [Body.dto, hlabel])).elim
  | value value =>
      cases value with
      | text s => exact (h s hlabel).elim
      | converted s => exact .inr ⟨s, rfl⟩

/-- What a redundant body writes without carrying it. -/
theorem Redundant.edited_tree {env : Env} (h : Redundant body env.now job)
    (hsections : body.NoSections) : (edited body.dto env job).sections = job.sections :=
  edited_sections h.tree fun sections hvalue => (hsections sections hvalue).elim

theorem Redundant.edited_text {env : Env} (h : Redundant body env.now job) (hlabel : body.NoLabel) :
    (edited body.dto env job).label = job.label := by
  refine edited_label fun label hvalue => ?_
  cases hbody : body.label with
  | undefined => simp [Body.dto, hbody] at hvalue
  | null => simp [Body.dto, hbody] at hvalue
  | value value =>
      cases value with
      | text s => exact (hlabel s hbody).elim
      | converted s =>
          simp only [Body.dto, hbody, LabelValue.toText, JobsService.Field.value.injEq] at hvalue
          exact (h.label s hbody).trans hvalue

/-- A statement that keeps what the body does not carry finds it in the job. -/
theorem redundant_of_framed {c : UpdateCall} (hdto : c.dto = body.dto)
    (heffect : Effect c u.env u.before u.after) (h : Framed body pc u)
    (hrow : u.before.findScoped c.userId c.jobId = some job) (hstorable : c.dto.storable = true) :
    Redundant body u.env.now job := by
  have htree := keeps_iff Job.sections (fun _ _ => rfl) heffect
  have hlabel := keeps_iff Job.label (fun _ _ => rfl) heffect
  constructor
  · intro hnull
    have hnone : body.NoSections := fun sections hvalue => by
      rw [hnull] at hvalue
      cases hvalue
    have hempty := htree.mp (h.tree hnone) job hrow hstorable
    simp only [edited, hdto, Body.dto, hnull] at hempty
    exact hempty.symm
  · intro string hconverted
    have hnone : body.NoLabel := fun text hvalue => by
      rw [hconverted] at hvalue
      cases hvalue
    have hsame := hlabel.mp (h.label hnone) job hrow hstorable
    simp only [edited, hdto, Body.dto, hconverted, LabelValue.toText] at hsame
    exact hsame.symm
  · intro hsections hnolabel hcarries
    have hsame := h.nothing hsections hnolabel
    rcases effect_row heffect hrow hstorable with ⟨hundefined, hnone, -⟩ | ⟨hafter, -⟩
    · rw [hdto] at hundefined hnone
      have hempty : body.label = .undefined := by
        rcases noLabel_cases hnolabel (by simp [hundefined]) with hlab | ⟨string, hlab⟩
        · exact hlab
        · simp [Body.dto, hlab] at hundefined
      refine (hcarries ?_).elim
      obtain ⟨label, sections⟩ := body
      cases hempty
      cases hnone
      rfl
    · rw [hsame, (Stores.findScoped_eq_some.mp hrow).1, Option.some.injEq] at hafter
      exact congrArg Job.updatedAt hafter

/-- A redundant body without a label and sections leaves everything. -/
theorem effect_redundant {c : UpdateCall} (hdto : c.dto = body.dto)
    (heffect : Effect c u.env u.before u.after)
    (h : ∀ job, u.before.findScoped c.userId c.jobId = some job → c.dto.storable = true →
      Redundant body u.env.now job)
    (hsections : body.NoSections) (hlabel : body.NoLabel) : u.after = u.before := by
  generalize u.after = s' at heffect
  cases heffect with
  | idle hidle => rfl
  | wrote job w row storable carries write =>
      refine effect_same (.wrote job w row storable carries write) fun job hrow hstorable => ?_
      have hredundant := h job hrow hstorable
      have hcarries : body ≠ {} := by
        rintro rfl
        rw [hdto] at carries
        exact carries.elim (fun h => h rfl) fun h => h rfl
      have htree := hredundant.edited_tree hsections
      have htext := hredundant.edited_text hlabel
      have hstamp := hredundant.stamp hsections hlabel hcarries
      rw [hdto]
      unfold edited at htree htext ⊢
      dsimp only at htree htext
      rw [htree, htext, ← hstamp]

/-- The segment of the statement. -/
theorem framed_commit {cpc : UpdatePc} {late : Prop} {c : UpdateCall} (hdto : c.dto = body.dto)
    (hnew : NewRows u.env u.before) (takes : Takes cfg { c with pc := .commit } u cpc)
    (hlate : (∃ error, pc = .threw error) → late ∨ u.after = u.before)
    (hthrew : late → ∃ error, pc = .threw error) :
    Framed body pc u ↔ ∀ job, u.fault ≠ some false → body.dto.storable = true →
      u.before.findScoped c.userId c.jobId = some job →
        Redundant body u.env.now job ∧ (late → Repeats body.dto job) := by
  rcases commit_effect takes with ⟨hfault, hquiet⟩ | ⟨hfault, heffect⟩
  · exact ⟨fun _ job hf => (hf hfault).elim, fun _ => framed_quiet hquiet⟩
  have htree := keeps_iff Job.sections (fun _ _ => rfl) heffect
  have hlabel := keeps_iff Job.label (fun _ _ => rfl) heffect
  rw [hdto] at htree hlabel
  constructor
  · intro h job _ hstorable hrow
    refine ⟨redundant_of_framed hdto heffect h hrow (hdto ▸ hstorable), ?_⟩
    intro hl
    obtain ⟨error, herror⟩ := hthrew hl
    obtain ⟨hkeepsLabel, hkeepsTree⟩ := h.failed error herror
    constructor
    · intro label hvalue
      have hsame := hlabel.mp hkeepsLabel job hrow hstorable
      simp only [edited, hvalue] at hsame
      exact hsame.symm
    · intro sections hvalue
      have hsame := htree.mp hkeepsTree job hrow hstorable
      simp only [edited, hvalue] at hsame
      exact insertSections_new hnew hrow hsame
  · intro h
    refine ⟨?_, ?_, ?_, ?_⟩
    · intro hsections
      exact htree.mpr fun job hrow hstorable =>
        (h job hfault hstorable hrow).1.edited_tree hsections
    · intro hnolabel
      exact hlabel.mpr fun job hrow hstorable =>
        (h job hfault hstorable hrow).1.edited_text hnolabel
    · exact effect_redundant hdto heffect fun job hrow hstorable =>
        (h job hfault (hdto ▸ hstorable) hrow).1
    · intro error herror
      rcases hlate ⟨error, herror⟩ with hl | hquiet
      · constructor
        · exact hlabel.mpr fun job hrow hstorable =>
            edited_label ((h job hfault hstorable hrow).2 hl).1
        · exact htree.mpr fun job hrow hstorable =>
            edited_sections (h job hfault hstorable hrow).1.tree
              ((h job hfault hstorable hrow).2 hl).2
      · have hframed : Framed body pc u := framed_quiet hquiet
        exact hframed.failed error herror

/-- A list of segments of which only the statement's may touch anything. -/
theorem framed_segments {late : Prop} (hu : turns[1]? = some u) (hmem : u ∈ turns)
    (hquiet : ∀ t ∈ turns, t = u ∨ t.after = t.before)
    (hlate : late ↔ LateError userId jobId turns u)
    (hcommit : Framed body pc u ↔ ∀ job, u.fault ≠ some false → body.dto.storable = true →
      u.before.findScoped userId jobId = some job →
        Redundant body u.env.now job ∧ (late → Repeats body.dto job)) :
    (∀ t ∈ turns, Framed body pc t) ↔ Harmless userId jobId body turns := by
  rw [hlate] at hcommit
  constructor
  · intro h u' job hu' hfault hstorable hrow
    rw [hu, Option.some.injEq] at hu'
    subst hu'
    exact hcommit.mp (h u hmem) job hfault hstorable hrow
  · intro h t ht
    rcases hquiet t ht with rfl | hsame
    · exact hcommit.mpr fun job hfault hstorable hrow => h t job hu hfault hstorable hrow
    · exact framed_quiet hsame

theorem framed_progress (hdto : c.dto = body.dto) (h : Progress cfg c turns pc) :
    (∀ t ∈ turns, Framed body pc t) ↔ Harmless c.userId c.jobId body turns := by
  cases h with
  | start =>
      constructor
      · intro _ u job hu
        cases hu
      · intro _ t ht
        cases ht
  | looked t pc quiet at_ =>
      constructor
      · intro _ u job hu
        cases hu
      · intro _ t' ht
        rw [List.mem_singleton.mp ht]
        exact framed_quiet quiet
  | wrote t u pc quiet hnew takes =>
      refine framed_segments rfl (by simp) ?_ ?_ (framed_commit hdto hnew takes
        (commit_threw takes).1 (commit_threw takes).2)
      · simp [quiet]
      · simp [LateError]
  | read t u x pc quiet hnew takes last =>
      have hanswered : u.fault ≠ some true := by
        intro hfault
        obtain ⟨error, herror⟩ := (commit_threw takes).2 hfault
        cases herror
      refine framed_segments rfl (by simp) ?_ ?_ (framed_commit hdto hnew takes
        (fun herror => .inl ((takes_findOne last).1.mp herror)) (takes_findOne last).1.mpr)
      · simp [quiet, takes_quiet last]
      · simp [LateError, hanswered]

/-- Whatever the rest of the server does and whichever `await` throws, a PATCH touches only what
it carries exactly when it is harmless. -/
theorem patch_framed {i : ℕ} {w₀ w : World} (h : Served cfg i w₀ turns w)
    (hstart : w₀.threads[i]? = some (.update ⟨userId, jobId, body.dto, .requireOwned⟩))
    (hend : w.threads[i]? = some (.update ⟨userId, jobId, body.dto, pc⟩)) :
    (∀ t ∈ turns, Framed body pc t) ↔ Harmless userId jobId body turns := by
  obtain ⟨pc', hcall, hprogress⟩ :=
    served_progress (c := ⟨userId, jobId, body.dto, .requireOwned⟩) h hstart
  rw [hcall] at hend
  cases hend
  exact framed_progress (c := ⟨userId, jobId, body.dto, .requireOwned⟩) rfl hprogress

/-- A job with a section. -/
def demoJob : Job :=
  { draft { id := "job-1", now := 5 } (create "user-1" "Site A" none) with
    sections := [⟨"section-1", "Kitchen", 0, []⟩] }

def demoStores : Stores := Stores.empty.run 0 (.insertJob demoJob)

/-- The server with one PATCH at work. -/
def demoWorld (dto : UpdateJobDto) (s : Stores) (pc : UpdatePc) : World :=
  ⟨s, [.update ⟨"user-1", "job-1", dto, pc⟩]⟩

theorem newRows_demo : NewRows {} demoStores := by
  intro job hjob row hrow i
  obtain rfl := List.mem_singleton.mp hjob
  obtain rfl := List.mem_singleton.mp hrow
  simp

/-- A PATCH up to its commit. -/
theorem served_demo (dto : UpdateJobDto) {w : Write}
    (hwrite : updateWrite demoStores {} ⟨"user-1", "job-1", dto, .commit⟩ = .ok (some w)) :
    Served demo 0 (demoWorld dto demoStores .requireOwned) [⟨demoStores, {}, none, demoStores⟩,
        ⟨demoStores, {}, none, demoStores.run 0 (.write "job-1" w)⟩]
      (demoWorld dto (demoStores.run 0 (.write "job-1" w)) .findOne) := by
  have hlooked : Served demo 0 (demoWorld dto demoStores .requireOwned)
      [⟨demoStores, {}, none, demoStores⟩] (demoWorld dto demoStores .commit) :=
    .answered [] _ (demoWorld dto demoStores .commit) {} .start rfl newRows_demo
  have hcommit : step demo (demoWorld dto demoStores .commit) (.step 0 {}) =
      some (demoWorld dto (demoStores.run 0 (.write "job-1" w)) .findOne) := by
    simp only [step, demoWorld, List.getElem?_cons_zero, Option.bind_some, next, nextUpdate, hwrite,
      Option.map_some]
    rfl
  exact .answered _ _ _ {} hlooked hcommit newRows_demo

def demoBody : Body := { label := .value (.text "Site B") }

/-- A label alone, up to its commit. -/
theorem patch_framed_demo : ∃ turns w, Served demo 0
      (demoWorld { label := .value "Site B" } demoStores .requireOwned) turns w ∧
    turns.length = 2 ∧ ∀ t ∈ turns, Framed demoBody .findOne t := by
  have hserved := served_demo demoBody.dto rfl
  have hstart : (demoWorld demoBody.dto demoStores .requireOwned).threads[0]? =
      some (.update ⟨"user-1", "job-1", demoBody.dto, .requireOwned⟩) := rfl
  refine ⟨_, _, hserved, rfl, (patch_framed hserved hstart rfl).mpr ?_⟩
  intro u job hu hfault hstorable hrow
  refine ⟨⟨nofun, nofun, ?_⟩, ?_⟩
  · intro _ hlabel
    exact (hlabel "Site B" rfl).elim
  · rintro (hlost | ⟨x, hx, -⟩)
    · cases hu
      cases hlost
    · cases hx

/-- Null sections pass the validation and wipe the report. -/
theorem null_sections_wipe : ¬ ∀ (cfg : ServerConfig) (i : ℕ) (w₀ w : World) (turns : List Turn)
    (userId jobId : String) (body : Body) (pc : UpdatePc), body.dto.valid = true →
      Served cfg i w₀ turns w →
      w₀.threads[i]? = some (.update ⟨userId, jobId, body.dto, .requireOwned⟩) →
      w.threads[i]? = some (.update ⟨userId, jobId, body.dto, pc⟩) →
        ∀ t ∈ turns, Framed body pc t := by
  intro h
  have hserved := served_demo { sections := .null } rfl
  have hframed := h demo 0 _ _ _ "user-1" "job-1" { sections := .null } .findOne rfl hserved rfl rfl
  have hkeeps := (hframed _ (List.mem_cons_of_mem _ (List.mem_singleton_self _))).tree
    (fun _ hvalue => by cases hvalue) "job-1"
  have hwiped : some ([] : List ReportSection) = some demoJob.sections := hkeeps
  cases hwiped

/-- The body `{label: 123}` renames the job. -/
example : ¬ Framed { label := .value (.converted "123") } .findOne ⟨demoStores, {}, none,
    demoStores.run 0 (.write "job-1" (.updateLabelScoped "user-1" "123"))⟩ := by
  intro h
  have hkeeps := h.label (fun _ hvalue => by cases hvalue) "job-1"
  have hrenamed : some "123" = some demoJob.label := hkeeps
  revert hrenamed
  decide

end FieldNote.PatchFrame
