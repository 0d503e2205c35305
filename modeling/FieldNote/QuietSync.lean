import FieldNote.JobSyncService
import FieldNote.SyncedTrees

/-!
# Saving an edit when nothing else runs

A PATCH from its first segment to its last, and `saveEdits` and `pushEdits` around it, as
functions of the stores and of the cache; each is a run of the sync service against the
server. What the device sends and what the server answers have the same reading: the titles,
the texts and the severities in their order.
-/
namespace FieldNote
namespace JobsService

/-- The checks of the request's DTOs; an absent or null field passes. -/
def Field.passes {α : Type} (check : α → Bool) : Field α → Bool
  | .value a => check a
  | .undefined | .null => true

def UpdateFindingDto.valid (f : UpdateFindingDto) : Bool :=
  1 ≤ JsText.charCount f.text && JsText.charCount f.text ≤ 2000

def UpdateSectionDto.valid (s : UpdateSectionDto) : Bool :=
  1 ≤ JsText.charCount s.title && JsText.charCount s.title ≤ 200 && s.findings.length ≤ 200 &&
    s.findings.all UpdateFindingDto.valid

def UpdateJobDto.valid (dto : UpdateJobDto) : Bool :=
  dto.label.passes (fun label => 1 ≤ JsText.charCount label && JsText.charCount label ≤ 200) &&
    dto.sections.passes fun sections =>
      sections.length ≤ 100 && sections.all UpdateSectionDto.valid

/-- At most `n` segments of a PATCH. -/
def UpdateCall.run (cfg : ServerConfig) (env : Env) :
    ℕ → Stores → UpdateCall → Stores × UpdateCall
  | 0, s, c => (s, c)
  | n + 1, s, c =>
      match nextUpdate cfg s env c with
      | some (pc, op) => UpdateCall.run cfg env n (s.run env.now op) { c with pc := pc }
      | none => (s, c)

/-- `PATCH /jobs/:id`: the stores after it and its response, if it succeeds. -/
def patch (cfg : ServerConfig) (env : Env) (s : Stores) (userId jobId : String)
    (dto : UpdateJobDto) : Option (Stores × JobDto) :=
  if dto.valid then
    let (s', c) := UpdateCall.run cfg env 3 s ⟨userId, jobId, dto, .requireOwned⟩
    match c.pc with
    | .returned copy => some (s', copy)
    | _ => none
  else none

/-- The database gives every row of a tree an id of its own. -/
def Env.FreshRows (env : Env) : Prop :=
  ∀ s i t j, env.rowId s i = env.rowId t j → s = t ∧ i = j

end JobsService

open JobsService JobStore

/-- What a tree says, in its order. -/
def reading (tree : List SectionDto) : List ReportSectionInput :=
  tree.map fun s => ⟨s.title, s.findings.map fun f => ⟨f.text, severityFromApi f.severity⟩⟩

variable {cfg : ServerConfig} {env : Env} {s s' : Stores} {userId jobId : String}

@[simp] theorem reading_wireTree (rowId : ℕ → ℕ → String) (sections : List ReportSectionInput) :
    reading (wireTree rowId sections) = sections := by
  have hfindings : ∀ findings : List ReportFindingInput,
      (findings.mapIdx fun _ f => (⟨f.text, f.severity⟩ : ReportFindingInput)) = findings := by
    intro findings
    apply List.ext_getElem <;> simp
  simp only [reading, wireTree, map_mapIdx, severityFromApi_toApi, hfindings]
  apply List.ext_getElem <;> simp

theorem pairwise_mapIdx {α β : Type} {f : ℕ → α → β} {R : β → β → Prop}
    (h : ∀ i j a b, i < j → R (f i a) (f j b)) (xs : List α) : (xs.mapIdx f).Pairwise R := by
  rw [List.pairwise_iff_getElem]
  intro i j hi hj hij
  simp only [List.getElem_mapIdx]
  exact h i j _ _ hij

theorem ordered_wireTree (h : env.FreshRows) (sections : List ReportSectionInput) :
    Ordered (wireTree env.rowId sections) where
  sections := by
    rw [wireTree, map_mapIdx]
    apply pairwise_mapIdx
    intro i j a b hij heq
    exact hij.ne (h _ _ _ _ heq).1
  findings := by
    intro dto hdto
    obtain ⟨i, hi, rfl⟩ := List.mem_mapIdx.mp hdto
    rw [map_mapIdx]
    apply pairwise_mapIdx
    intro j k a b hjk heq
    have hsame := (h _ _ _ _ heq).2
    omega
  order := by
    rw [wireTree]
    apply pairwise_mapIdx
    intro i j a b hij
    exact hij
  findingOrder := by
    intro dto hdto
    obtain ⟨i, hi, rfl⟩ := List.mem_mapIdx.mp hdto
    apply pairwise_mapIdx
    intro j k a b hjk
    exact hjk

theorem sorted_orderedSections (job : CachedJob) :
    job.orderedSections.Pairwise fun a b => a.sortOrder ≤ b.sortOrder :=
  StableSort.pairwise_insertionSort SectionDto.sortOrder job.sections

theorem sorted_orderedFindings (section_ : SectionDto) :
    (orderedFindings section_).Pairwise fun a b => a.sortOrder ≤ b.sortOrder :=
  StableSort.pairwise_insertionSort FindingDto.sortOrder section_.findings

/-- The sections of the body of `pushEdits`. -/
def pushedSections (job : CachedJob) : List UpdateSectionDto :=
  job.orderedSections.map fun s =>
    ⟨s.title, s.sortOrder, (orderedFindings s).map fun f => ⟨f.text, f.severity, f.sortOrder⟩⟩

/-- The device sends the tree in its display order, and the server keeps that order. -/
theorem toReportInput_pushed (job : CachedJob) :
    toReportInput (pushedSections job) = reading job.orderedTree := by
  have hsections : (pushedSections job).Pairwise fun a b => a.sortOrder ≤ b.sortOrder := by
    rw [pushedSections, List.pairwise_map]
    exact sorted_orderedSections job
  have hfindings : ∀ s : SectionDto, ((orderedFindings s).map fun f =>
      (⟨f.text, f.severity, f.sortOrder⟩ : UpdateFindingDto)).insertionSort
        (fun a b => a.sortOrder ≤ b.sortOrder) =
      (orderedFindings s).map fun f => ⟨f.text, f.severity, f.sortOrder⟩ := by
    intro s
    apply List.Pairwise.insertionSort_eq
    rw [List.pairwise_map]
    exact sorted_orderedFindings s
  rw [toReportInput, hsections.insertionSort_eq]
  simp [pushedSections, CachedJob.orderedTree, reading, hfindings]

/-- The row that a PATCH with a label and a tree leaves. -/
def replaced (env : Env) (row : Job) (label : String) (sections : List UpdateSectionDto) : Job :=
  { row with
    label := label
    sections := insertSections env.rowId (toReportInput sections)
    updatedAt := env.now }

/-- A PATCH that succeeds has replaced the row of a live job of its user, and answers with what
a GET now gives. -/
theorem patch_spec {label : String} {sections : List UpdateSectionDto} {copy : JobDto}
    (h : patch cfg env s userId jobId ⟨.value label, .value sections⟩ = some (s', copy)) :
    ∃ row, s.findScoped userId jobId = some row ∧
      copy = jobToDto (replaced env row label sections)
        (maybePdfUrl cfg (replaced env row label sections)) ∧
      s'.findById jobId = some (replaced env row label sections) ∧
      findOne cfg s' userId jobId = .ok copy := by
  unfold patch at h
  split_ifs at h
  cases hrow : s.findScoped userId jobId with
  | none => simp [UpdateCall.run, nextUpdate, hrow, Stores.run] at h
  | some row =>
      obtain ⟨hid, huser, hlive⟩ := Stores.findScoped_eq_some.mp hrow
      have hresult : (∃ e, updateWrite s env ⟨userId, jobId, ⟨.value label, .value sections⟩,
            .commit⟩ = .error e) ∨
          updateWrite s env ⟨userId, jobId, ⟨.value label, .value sections⟩, .commit⟩ =
            .ok (some (.replaceReportScoped userId (some label)
              (insertSections env.rowId (toReportInput sections)))) := by
        simp only [updateWrite, replaceWrite, hrow, Option.isNone_some, Bool.false_eq_true, if_false]
        split_ifs
        · exact .inl ⟨_, rfl⟩
        · exact .inr rfl
        · exact .inl ⟨_, rfl⟩
      rcases hresult with ⟨e, hrefused⟩ | hwrite
      · simp [UpdateCall.run, nextUpdate, hrow, Stores.run, hrefused] at h
      have hafter : (s.run env.now (.write jobId (.replaceReportScoped userId (some label)
          (insertSections env.rowId (toReportInput sections))))).findById jobId =
          some (replaced env row label sections) := by
        simp [Stores.run_row_write, hid, Write.apply, Job.inScope, huser, hlive, replaced]
      have hread : findOne cfg (s.run env.now (.write jobId (.replaceReportScoped userId (some label)
          (insertSections env.rowId (toReportInput sections))))) userId jobId =
          .ok (jobToDto (replaced env row label sections)
            (maybePdfUrl cfg (replaced env row label sections))) := by
        have hscoped := Stores.findScoped_eq_some.mpr
          ⟨hafter, (show (replaced env row label sections).userId = userId from huser), hlive⟩
        simp [findOne, hscoped]
      have hfirst : s.run env.now .none = s := rfl
      simp only [UpdateCall.run, nextUpdate, hrow, hfirst, hwrite, hread] at h
      cases h
      exact ⟨row, rfl, rfl, hafter, hread⟩

/-- What a push of the job leaves on the server, and the response. -/
theorem push_spec {job : CachedJob} {copy : JobDto}
    (h : patch cfg env s userId jobId (JobSyncService.updateRequest job) = some (s', copy)) :
    copy.id = jobId ∧ copy.label = job.label ∧ copy.updatedAt = env.now ∧
      copy.sections = wireTree env.rowId (reading job.orderedTree) ∧
      findOne cfg s' userId jobId = .ok copy := by
  have hbody : JobSyncService.updateRequest job =
      ⟨.value job.label, .value (pushedSections job)⟩ := rfl
  rw [hbody] at h
  obtain ⟨row, hrow, rfl, -, hread⟩ := patch_spec h
  have hid : row.id = jobId := Table.findUnique_key (Stores.findScoped_eq_some.mp hrow).1
  refine ⟨hid, rfl, rfl, ?_, hread⟩
  rw [dto_insertSections rfl, toReportInput_pushed]

/-- `pushEdits` of a job. -/
def pushEdits (cfg : ServerConfig) (env : Env) (userId : String) (s : Stores) (cache : Cache)
    (jobId : String) : Stores × Cache :=
  match cache.findUnique jobId with
  | none => (s, cache)
  | some job =>
      match patch cfg env s userId jobId (JobSyncService.updateRequest job) with
      | some (s', copy) => (s', upsert cache copy)
      | none => (s, cache)

/-- `saveEdits` at the device's instant `now`. -/
def saveEdits (cfg : ServerConfig) (env : Env) (userId : String) (s : Stores) (cache : Cache)
    (jobId label : String) (sections : List SectionDto) (now : ℕ) : Stores × Cache :=
  pushEdits cfg env userId s (applyLocalEdits cache jobId label sections now) jobId

section Runs

open JobSyncService GuardedRuns

/-- The segments of a PATCH are steps of its thread. -/
theorem update_run (cfg : ServerConfig) (env : Env) (n : ℕ) {w : ServerRuns.World} {i : ℕ} {c : UpdateCall}
    (hthread : w.threads[i]? = some (.update c)) :
    Run (ServerRuns.step cfg) anyStep w
      ⟨(UpdateCall.run cfg env n w.stores c).1,
        w.threads.set i (.update (UpdateCall.run cfg env n w.stores c).2)⟩ := by
  have hsame : w.threads.set i (.update c) = w.threads := by
    obtain ⟨hi, hget⟩ := List.getElem?_eq_some_iff.mp hthread
    rw [← hget, List.set_getElem_self]
  induction n generalizing w c with
  | zero =>
      simp only [UpdateCall.run, hsame]
      exact Run.refl w
  | succ n ih =>
      simp only [UpdateCall.run]
      cases hnext : nextUpdate cfg w.stores env c with
      | none =>
          simp only [hsame]
          exact Run.refl w
      | some result =>
          obtain ⟨pc, op⟩ := result
          have hi : i < w.threads.length := (List.getElem?_eq_some_iff.mp hthread).1
          have hstep : ServerRuns.step cfg w (.step i env) =
              some ⟨w.stores.run env.now op, w.threads.set i (.update { c with pc := pc })⟩ := by
            simp [ServerRuns.step, hthread, ServerRuns.next, hnext, ServerRuns.World.advance]
          have hrest := ih (w := ⟨w.stores.run env.now op,
            w.threads.set i (.update { c with pc := pc })⟩) (c := { c with pc := pc })
            (by simp [hi]) (by simp)
          simp only [List.set_set] at hrest
          exact (Run.single trivial hstep).trans hrest

/-- The server runs by itself. -/
theorem server_run {w : World} {server : ServerRuns.World}
    (h : Run (ServerRuns.step cfg) anyStep w.server server) :
    Run (step cfg userId) anyStep w { w with server := server } := by
  induction h with
  | refl => exact Run.refl w
  | tail _ hmove ih =>
      obtain ⟨a, -, hs⟩ := hmove
      apply Run.tail ih (a := .server a) trivial
      simp [step, hs]

/-- A push that succeeds is a run of its flow and of the thread that serves it. -/
theorem push_run {w : World} {i : ℕ} {body : UpdateJobDto} {copy : JobDto}
    (hflow : w.flows[i]? = some (.start .pushEdits (.pushing jobId body [])))
    (hpatch : patch cfg env w.server.stores userId jobId body = some (s', copy)) :
    ∃ w', Run (step cfg userId) anyStep w w' ∧ w'.server.stores = s' ∧
      w'.cache = upsert w.cache copy := by
  unfold patch at hpatch
  split_ifs at hpatch
  generalize hrun : UpdateCall.run cfg env 3 w.server.stores ⟨userId, jobId, body, .requireOwned⟩ =
    result at hpatch
  obtain ⟨stores, c⟩ := result
  cases hpc : c.pc with
  | returned dto =>
      simp only [hpc, Option.some.injEq, Prod.mk.injEq] at hpatch
      obtain ⟨rfl, rfl⟩ := hpatch
      have hi : i < w.flows.length := (List.getElem?_eq_some_iff.mp hflow).1
      generalize hcall : (⟨userId, jobId, body, .requireOwned⟩ : UpdateCall) = call at hrun
      -- the request reaches a new thread, which serves it to the end
      have hsend : step cfg userId w (.send i) = some { w with
          server := ⟨w.server.stores, w.server.threads ++ [.update call]⟩
          flows := w.flows.set i
            ⟨.pushEdits, .pushing jobId body [], true, [w.server.threads.length], []⟩ } := by
        simp [step, hflow, Flow.start, request, World.setFlow, ServerRuns.Request.thread, ← hcall]
      have hserve : Run (ServerRuns.step cfg) anyStep
          ⟨w.server.stores, w.server.threads ++ [.update call]⟩
          ⟨stores, w.server.threads ++ [.update c]⟩ := by
        have hthread := update_run cfg env 3
          (w := ⟨w.server.stores, w.server.threads ++ [.update call]⟩) (i := w.server.threads.length)
          (c := call) (by simp)
        simpa [hrun] using hthread
      -- the response is delivered to the flow, which applies it and ends
      have hanswer : step cfg userId { w with
            server := ⟨stores, w.server.threads ++ [.update c]⟩
            flows := w.flows.set i
              ⟨.pushEdits, .pushing jobId body [], true, [w.server.threads.length], []⟩ }
          (.answer i w.server.threads.length) = some { w with
            server := ⟨stores, w.server.threads ++ [.update c]⟩
            flows := w.flows.set i ⟨.pushEdits, .pushing jobId body [], true,
              [w.server.threads.length], [.job dto]⟩ } := by
        simp [step, hi, threadReply, hpc, World.setFlow]
      have hdeliver : step cfg userId { w with
            server := ⟨stores, w.server.threads ++ [.update c]⟩
            flows := w.flows.set i ⟨.pushEdits, .pushing jobId body [], true,
              [w.server.threads.length], [.job dto]⟩ } (.deliver i 0) = some { w with
            server := ⟨stores, w.server.threads ++ [.update c]⟩
            cache := upsert w.cache dto
            flows := w.flows.set i ⟨.pushEdits, .returned, false, [], []⟩ } := by
        simp [step, hi, resume, World.push, nextPush, World.setFlow, Flow.finish, Flow.goto]
      have hsent := (Run.single trivial hsend).trans (server_run hserve)
      exact ⟨_, (hsent.tail trivial hanswer).tail trivial hdeliver, rfl, rfl⟩
  | _ => simp [hpc] at hpatch

/-- `saveEdits` with nothing in between is a run. -/
theorem saveEdits_run (cfg : ServerConfig) (env : Env) (userId : String) (w : World)
    (jobId label : String) (sections : List SectionDto) (now : ℕ) :
    ∃ w', Run (step cfg userId) anyStep w w' ∧ (w'.server.stores, w'.cache) =
      saveEdits cfg env userId w.server.stores w.cache jobId label sections now := by
  unfold saveEdits pushEdits
  generalize hcache : applyLocalEdits w.cache jobId label sections now = cache
  cases hjob : cache.findUnique jobId with
  | none =>
      have hstep : step cfg userId w (.saveEdits jobId label sections now) =
          some { w with cache := cache } := by
        simp [step, hcache, hjob]
      exact ⟨_, Run.single trivial hstep, rfl⟩
  | some job =>
      have hstep : step cfg userId w (.saveEdits jobId label sections now) =
          some { w.spawn (.start .pushEdits (.pushing jobId (updateRequest job) [])) with
            cache := cache } := by
        simp [step, hcache, hjob]
      cases hpatch : patch cfg env w.server.stores userId jobId (updateRequest job) with
      | none => exact ⟨_, Run.single trivial hstep, by simp [World.spawn, hpatch]⟩
      | some result =>
          obtain ⟨stores, copy⟩ := result
          have hflow : (w.flows ++ [Flow.start .pushEdits
              (.pushing jobId (updateRequest job) [])])[w.flows.length]? =
                some (.start .pushEdits (.pushing jobId (updateRequest job) [])) := by
            simp
          obtain ⟨w', hrun, hstores, hcopy⟩ := push_run (w := { w.spawn
            (.start .pushEdits (.pushing jobId (updateRequest job) [])) with cache := cache })
              hflow hpatch
          refine ⟨w', (Run.single trivial hstep).trans hrun, ?_⟩
          simp [hstores, hcopy, hpatch]

/-- Every cached tree has unique ids. -/
def Unique (cache : Cache) : Prop :=
  ∀ id job, cache.findUnique id = some job → UniqueIds job.sections

theorem unique_upsert {cache : Cache} (h : Unique cache) (dto : JobDto) :
    Unique (upsert cache dto) := by
  intro id job hjob
  rw [findUnique_upsert] at hjob
  split_ifs at hjob with hid
  · cases hjob
    exact uniqueIds_received (fun j hj => h dto.id j hj) dto
  · exact h id job hjob

theorem unique_mergePulled {cache : Cache} (h : Unique cache) (dtos : List JobDto) :
    Unique (mergePulled cache dtos) := by
  induction dtos generalizing cache with
  | nil => exact h
  | cons dto rest ih => exact ih (unique_upsert h dto)

theorem unique_update {cache : Cache} {id : String} {f : CachedJob → CachedJob}
    {hf : ∀ job, (f job).id = job.id} (h : Unique cache)
    (hkeep : ∀ job, UniqueIds job.sections → UniqueIds (f job).sections) :
    Unique (cache.update id f hf) := by
  intro id' job hjob
  rw [Table.findUnique_update] at hjob
  split_ifs at hjob
  · obtain ⟨job₀, hjob₀, rfl⟩ := Option.map_eq_some_iff.mp hjob
    exact hkeep job₀ (h id' job₀ hjob₀)
  · exact h id' job hjob

theorem unique_applyLocalEdits {cache : Cache} (h : Unique cache) (id label : String)
    (sections : List SectionDto) (now : ℕ) :
    Unique (applyLocalEdits cache id label sections now) :=
  unique_update h fun _ hids => hids.syncSections sections

/-- The ids of the cached trees are unique in every run of the service. -/
theorem unique_run {w w' : World} (h : Unique w.cache)
    (hrun : Run (step cfg userId) anyStep w w') : Unique w'.cache := by
  refine hrun.invariant (I := fun w => Unique w.cache) h ?_
  intro w a w' h _ hs
  have heffect := step_cache hs
  generalize w'.cache = cache' at heffect
  cases heffect with
  | same => exact h
  | merged dtos _ => exact unique_mergePulled h dtos
  | registered response path now _ =>
      exact unique_update (unique_upsert h response.job) fun _ hids => hids
  | marked id => exact unique_update h fun _ hids => hids
  | edited id label sections now _ => exact unique_applyLocalEdits h id label sections now
  | deleted id _ =>
      intro id' job hjob
      rw [Table.findUnique_delete] at hjob
      split_ifs at hjob
      exact h id' job hjob

end Runs

/-- Row ids for concrete runs. -/
def demoEnv (now : ℕ) : Env where
  now := now
  rowId s i := String.ofList (List.replicate s 's' ++ List.replicate i 'f')

theorem demoEnv_fresh (now : ℕ) : (demoEnv now).FreshRows := by
  intro s i t j h
  have hchars : List.replicate s 's' ++ List.replicate i 'f' =
      List.replicate t 's' ++ List.replicate j 'f' := String.ofList_injective h
  have hsections := congrArg (List.count 's') hchars
  have hfindings := congrArg (List.count 'f') hchars
  simp [List.count_append, List.count_replicate] at hsections hfindings
  exact ⟨hsections, hfindings⟩

/-- `job-1` on the server, and its copy on the device with an edit of instant 10. -/
def demoRow : Job :=
  draft { now := 1, id := "job-1" } ⟨"user-1", "Site A", none, .createDraft⟩

def demoStores : Stores := Stores.empty.run 1 (.insertJob demoRow)

def demoPulled : Cache := upsert ∅ (jobToDto demoRow none)

def demoCache : Cache :=
  applyLocalEdits demoPulled "job-1" "Site B" [⟨"s", "Roof", 0, [⟨"f", "Leak", .safety, 0⟩]⟩] 10

def demoJob : CachedJob where
  id := "job-1"
  label := "Site B"
  status := .CREATED
  createdAt := 1
  updatedAt := 10
  syncState := .dirty
  sections := [⟨"s", "Roof", 0, [⟨"f", "Leak", .safety, 0⟩]⟩]

theorem demoJob_cached : demoCache.findUnique "job-1" = some demoJob := by decide

theorem demoJob_unique : UniqueIds demoJob.sections := by
  constructor <;> decide

end FieldNote
