import FieldNote.IdempotencyKeys
import FieldNote.JobSyncService
import FieldNote.UploadLedger

/-!
# The device keeps the ledger of recordings

A flow is read as a note and a cached job as the pending upload it records. Every step of
the device and the server is then a step of the ledger, where a job that a create call
answered with is keyed by the key of its report.
-/
namespace FieldNote.JobSyncService
open JobStore JobsService ServerRuns UploadLedger CallPool

/-- The bookkeeping of a cached job, when it is complete. -/
def uploadOf (job : CachedJob) : Option Upload :=
  match job.pendingUpload, job.localAudioPath, job.uploadURL, job.uploadContentType,
      job.uploadExpiresAt with
  | true, some path, some url, some contentType, some expiresAt =>
      some ⟨path, url, contentType, expiresAt⟩
  | _, _, _, _, _ => none

def uploads (cache : Cache) (id : String) : Option Upload := (cache.findUnique id).bind uploadOf

/-- What `startReport` registers for its recording. -/
def uploadFor (path : String) (now : ℕ) (response : CreateJobResponse) : Upload :=
  ⟨path, response.audioUploadUrl.url, response.audioUploadUrl.contentType,
    now + 1000 * response.audioUploadUrl.expiresInSeconds⟩

/-- The answer that `startReport` has registered. -/
def Pc.response : Pc → Option CreateJobResponse
  | .reported response => some response
  | _ => none

/-- The upload has not been marked yet. -/
def Pc.beforeUpload : Pc → Bool
  | .starting | .uploading => true
  | _ => false

def Flow.note (f : Flow) : Note :=
  match f.task with
  | .startReport _ path now key =>
      match f.pc.response with
      | some response => .reported key response.job.id (uploadFor path now response)
      | none => .creating path key
  | .driveUploadThenProcess id path =>
      if f.pc.beforeUpload then .uploading id path else .uploaded id
  | .uploadFinished id => .uploaded id
  | .delete id => .deleting id
  | _ => .other

def World.ledger (w : JobSyncService.World) : Ledger :=
  ⟨w.flows.map Flow.note, uploads w.cache, w.files⟩

@[simp] theorem uploads_update (cache : Cache) (id : String) (f : CachedJob → CachedJob)
    (hf : ∀ job, (f job).id = job.id) (hkeep : ∀ job, uploadOf (f job) = uploadOf job) :
    uploads (cache.update id f hf) = uploads cache := by
  funext id'
  simp only [uploads, Table.findUnique_update]
  split_ifs
  · cases cache.findUnique id' with
    | none => rfl
    | some job => exact hkeep job
  · rfl

@[simp] theorem uploadOf_adopt (dto : JobDto) (job : CachedJob) :
    uploadOf (job.adopt dto) = uploadOf job := by
  unfold CachedJob.adopt
  split_ifs <;> rfl

@[simp] theorem uploads_upsert (cache : Cache) (dto : JobDto) :
    uploads (upsert cache dto) = uploads cache := by
  funext id
  simp only [uploads, findUnique_upsert]
  split_ifs with hid
  · subst hid
    cases cache.findUnique dto.id with
    | none => rfl
    | some job => exact uploadOf_adopt dto job
  · rfl

@[simp] theorem uploads_mergePulled (cache : Cache) (dtos : List JobDto) :
    uploads (mergePulled cache dtos) = uploads cache := by
  unfold mergePulled
  induction dtos generalizing cache with
  | nil => rfl
  | cons dto rest ih => exact (ih (upsert cache dto)).trans (uploads_upsert cache dto)

@[simp] theorem uploads_applyLocalEdits (cache : Cache) (id label : String)
    (sections : List SectionDto) (now : ℕ) :
    uploads (applyLocalEdits cache id label sections now) = uploads cache :=
  uploads_update cache id _ _ fun _ => rfl

theorem uploads_registerCreated (cache : Cache) (path : String) (now : ℕ)
    (response : CreateJobResponse) :
    uploads (registerCreated cache response.job path response.audioUploadUrl now) =
      Function.update (uploads cache) response.job.id (some (uploadFor path now response)) := by
  funext id
  unfold registerCreated
  rw [Function.update_apply, uploads, Table.findUnique_update]
  split_ifs with hid
  · rw [findUnique_upsert, if_pos hid]
    rfl
  · exact congrFun (uploads_upsert cache response.job) id

theorem uploads_markUploaded (cache : Cache) (id : String) :
    uploads (markUploaded cache id) = Function.update (uploads cache) id none := by
  funext id'
  unfold markUploaded
  rw [Function.update_apply, uploads, Table.findUnique_update]
  split_ifs
  · cases cache.findUnique id' <;> rfl
  · rfl

theorem uploads_delete (cache : Cache) (id : String) :
    uploads (cache.delete id) = Function.update (uploads cache) id none := by
  funext id'
  rw [Function.update_apply, uploads, Table.findUnique_delete]
  split_ifs <;> rfl

theorem resumeTask_cases {files : List String} {now : ℕ} {job : CachedJob} {task : Task}
    (h : resumeTask files now job = some task) :
    (∃ u, uploadOf job = some u ∧ u.path ∈ files ∧ now < u.expiresAt ∧
      task = .driveUploadThenProcess job.id u.path) ∨ task = .poll job.id := by
  unfold resumeTask at h
  extract_lets poll at h
  have hpoll : poll = some task → task = .poll job.id := by
    intro hp
    simp only [poll] at hp
    split_ifs at hp
    exact (Option.some.inj hp).symm
  split at h
  · rename_i path url contentType expiresAt hpending hpath hurl hct hexpires
    split_ifs at h with hvalid
    · cases h
      exact .inl ⟨⟨path, url, contentType, expiresAt⟩,
        by simp [uploadOf, hpending, hpath, hurl, hct, hexpires], hvalid.1, hvalid.2, rfl⟩
    · exact .inr (hpoll h)
  · exact .inr (hpoll h)

/-- A pending upload is resumed while its URL is valid. -/
theorem resumeTask_pending {files : List String} {now : ℕ} {job : CachedJob} {u : Upload}
    (hu : uploadOf job = some u) (hfile : u.path ∈ files) (hvalid : now < u.expiresAt) :
    resumeTask files now job = some (.driveUploadThenProcess job.id u.path) := by
  unfold uploadOf at hu
  split at hu
  · rename_i path url contentType expiresAt hpending hpath hurl hct hexpires
    cases hu
    simp only [resumeTask, hpending, hpath, hurl, hct, hexpires]
    rw [if_pos ⟨hfile, hvalid⟩]
  · cases hu

theorem mem_resumeInFlight {cache : Cache} {files : List String} {active : String → Bool}
    {now : ℕ} {task : Task} :
    task ∈ resumeInFlight cache files active now ↔
      ∃ job ∈ cache.rows, active job.id = false ∧ resumeTask files now job = some task := by
  unfold resumeInFlight allJobs
  rw [List.mem_filterMap]
  constructor
  · rintro ⟨job, hjob, htask⟩
    split_ifs at htask with hactive
    exact ⟨job, (List.mem_insertionSort _).mp hjob, by simpa using hactive, htask⟩
  · rintro ⟨job, hjob, hactive, htask⟩
    exact ⟨job, (List.mem_insertionSort _).mpr hjob, by simpa [hactive] using htask⟩

theorem note_congr {f g : Flow} (htask : g.task = f.task)
    (hresponse : g.pc.response = f.pc.response)
    (hbefore : g.pc.beforeUpload = f.pc.beforeUpload) : g.note = f.note := by
  unfold Flow.note
  rw [htask, hresponse, hbefore]

variable {K : String → String → Prop} {cfg : ServerConfig} {userId : String}
variable {w w' w₁ : JobSyncService.World} {i : ℕ} {f g : Flow} {new : List Flow}

@[simp] theorem release_flows : (w.release f).flows = w.flows := by
  unfold World.release
  split <;> rfl

@[simp] theorem release_files : (w.release f).files = w.files := by
  unfold World.release
  split <;> rfl

@[simp] theorem release_server : (w.release f).server = w.server := by
  unfold World.release
  split <;> rfl

/-- What a flow releases is no longer active. -/
theorem release_active {id : String} (h : (w.release f).active id = true) :
    w.active id = true ∧ ¬(f.live = true ∧ f.owned = some id) := by
  unfold World.release at h
  split at h
  · rename_i id' hid'
    by_cases hid : id = id'
    · simp [hid] at h
    · exact ⟨by simpa [hid] using h, by simp [hid', Ne.symm hid]⟩
  · rename_i hnone
    exact ⟨h, by simp [hnone]⟩

/-- The notes, the uploads and the files after a flow has moved and others have started. -/
theorem ledger_moved (hf : w.flows[i]? = some f) (hnote : g.note = f.note)
    (hflows : w'.flows = w.flows.set i g ++ new) (hcache : uploads w'.cache = uploads w.cache)
    (hfiles : w'.files = w.files) (hnew : ∀ h ∈ new, Startable w.ledger (Flow.note h)) :
    Step K w.ledger w'.ledger := by
  have hledger : w'.ledger = { w.ledger with notes := w.ledger.notes ++ new.map Flow.note } := by
    simp only [World.ledger, hflows, hcache, hfiles, List.map_append, map_set_same hf hnote]
  rw [hledger]
  refine .started _ fun n hn => ?_
  obtain ⟨h, hh, rfl⟩ := List.mem_map.mp hn
  exact hnew h hh

/-- What is known of the answers to a create call of a report. -/
def Answered (server : ServerRuns.World) (f : Flow) : Prop :=
  ∀ label path now key, f.task = .startReport label path now key → f.pc = .creating →
    (∀ k ∈ f.sent, ∃ c, server.threads[k]? = some (.create c) ∧ c.idempotencyKey = some key) ∧
      ∀ response, .created response ∈ f.replies → Keyed server.stores response.job.id key

theorem answered_of_ne {server : ServerRuns.World} (hpc : f.pc ≠ .creating) :
    Answered server f := fun _ _ _ _ _ h => (hpc h).elim

/-- A flow goes on to `g` and starts the flows `new`. -/
structure Turn (K : String → String → Prop) (w : JobSyncService.World) (i : ℕ) (f g : Flow)
    (new : List Flow) (w' : JobSyncService.World) : Prop where
  server : w'.server = w.server
  flows : w'.flows = w.flows.set i g ++ new
  answered : Answered w.server f → Answered w.server g
  started : ∀ h ∈ new, Answered w.server h
  active : ∀ id, w'.active id = true →
    (g.live = true ∧ g.owned = some id) ∨
      (w.active id = true ∧ ¬(f.live = true ∧ f.owned = some id))
  ledger : Step K w.ledger w'.ledger

/-- A turn may begin with an update of the cache that keeps the uploads. -/
theorem Turn.of_cache {cache : Cache} (hcache : uploads cache = uploads w.cache)
    (h : Turn K { w with cache := cache } i f g new w') : Turn K w i f g new w' := by
  have hledger : World.ledger { w with cache := cache } = w.ledger := by
    simp only [World.ledger, hcache]
  exact ⟨h.server, h.flows, h.answered, h.started, h.active, hledger ▸ h.ledger⟩

theorem turn_goto {pc : Pc} (hf : w.flows[i]? = some f) (hlive : f.live = true)
    (hpc : pc ≠ .creating) (hnote : (f.goto pc).note = f.note)
    (howned : ∀ id, f.owned = some id → (f.goto pc).owned = some id) :
    Turn K w i f (f.goto pc) [] (w.setFlow i (f.goto pc)) where
  server := rfl
  flows := (List.append_nil _).symm
  answered := fun _ => answered_of_ne hpc
  started := by simp
  active := by
    intro id hid
    by_cases ho : f.owned = some id
    · exact .inl ⟨hlive, howned id ho⟩
    · exact .inr ⟨hid, fun h => ho h.2⟩
  ledger := ledger_moved hf hnote (List.append_nil _).symm rfl rfl (by simp)

/-- The flow ends, and releases the job it holds. -/
theorem turn_release (hf : w.flows[i]? = some f) (hnote : g.note = f.note)
    (hanswered : Answered w.server f → Answered w.server g) :
    Turn K w i f g [] ((w.release f).setFlow i g) where
  server := release_server
  flows := by simp [World.setFlow]
  answered := hanswered
  started := by simp
  active := fun id hid => .inr (release_active hid)
  ledger :=
    ledger_moved hf hnote (show _ = w.flows.set i g ++ [] by simp [World.setFlow])
      (by simp [World.setFlow]) (by simp [World.setFlow]) (by simp)

/-- A flow that holds no job ends. -/
theorem turn_finish (hf : w.flows[i]? = some f) (howned : f.owned = none)
    (hnote : (f.finish .returned).note = f.note) :
    Turn K w i f (f.finish .returned) [] (w.setFlow i (f.finish .returned)) where
  server := rfl
  flows := (List.append_nil _).symm
  answered := fun _ => answered_of_ne Pc.noConfusion
  started := by simp
  active := fun id hid => .inr ⟨hid, by simp [howned]⟩
  ledger := ledger_moved hf hnote (List.append_nil _).symm rfl rfl (by simp)

/-- A flow in the polling loop holds the job it polls. -/
theorem owned_looping (hpc : ∃ n, f.pc = .polling n ∨ f.pc = .sleeping n) :
    f.owned = f.task.polled := by
  obtain ⟨task, pc, live, sent, replies⟩ := f
  obtain ⟨n, hpc | hpc⟩ := hpc <;> cases hpc <;> cases task <;> rfl

theorem turn_beginPoll {jobId : String} (hf : w.flows[i]? = some f) (howned : f.owned = none)
    (hlive : f.live = true) (hnote : ∀ g : Flow, g.task = f.task → g.note = f.note)
    (hpolled : f.task.polled = some jobId) :
    ∃ g, Turn K w i f g [] (w.beginPoll i f jobId) := by
  unfold World.beginPoll
  split_ifs with hactive
  · exact ⟨_, turn_finish hf howned (hnote _ rfl)⟩
  · refine ⟨f.goto (.polling 1), rfl, (List.append_nil _).symm,
      fun _ => answered_of_ne Pc.noConfusion, by simp, ?_, ?_⟩
    · intro id hid
      by_cases heq : id = jobId
      · subst heq
        exact .inl ⟨hlive, (owned_looping ⟨1, .inl rfl⟩).trans hpolled⟩
      · exact .inr ⟨by simpa [heq] using hid, by simp [howned]⟩
    · exact ledger_moved hf (hnote (f.goto (.polling 1)) rfl) (List.append_nil _).symm rfl rfl
        (by simp)

theorem nextPush_cases (cache : Cache) (ids : List String) :
    nextPush cache ids = .returned ∨ ∃ id body rest, nextPush cache ids = .pushing id body rest := by
  induction ids with
  | nil => exact .inl rfl
  | cons id rest ih =>
      unfold nextPush
      split
      · split_ifs
        · exact .inr ⟨_, _, _, rfl⟩
        · exact ih
      · exact ih

theorem push_turn {rest : List String} {id : String} {body : UpdateJobDto}
    (hf : w.flows[i]? = some f) (hlive : f.live = true) (hpc : f.pc = .pushing id body rest) :
    ∃ g, Turn K w i f g [] (w.push i f rest) := by
  have howned : f.owned = none := by
    unfold Flow.owned
    rw [hpc]
    cases f.task <;> rfl
  unfold World.push
  rcases nextPush_cases w.cache rest with h | ⟨id', body', rest', h⟩
  · rw [h]
    exact ⟨_, turn_finish hf howned (note_congr rfl (by rw [hpc]; rfl) (by rw [hpc]; rfl))⟩
  · rw [h]
    refine ⟨_, turn_goto hf hlive (by simp) (note_congr rfl (by rw [hpc]; rfl)
      (by rw [hpc]; rfl)) ?_⟩
    simp [howned]

/-- The flows that a refresh starts resume uploads that are pending. -/
theorem resumed_startable {cache : Cache} {files : List String} {active : String → Bool}
    {now : ℕ} (hcache : uploads cache = uploads w.cache) {h : Flow}
    (hh : h ∈ (resumeInFlight cache files active now).map fun task => Flow.start task .starting) :
    Answered w.server h ∧ Startable w.ledger h.note := by
  obtain ⟨task, htask, rfl⟩ := List.mem_map.mp hh
  obtain ⟨job, hjob, -, htask⟩ := mem_resumeInFlight.mp htask
  refine ⟨answered_of_ne Pc.noConfusion, ?_⟩
  rcases resumeTask_cases htask with ⟨u, hu, -, -, rfl⟩ | rfl
  · refine .uploading job.id u ?_
    show uploads w.cache job.id = some u
    rw [← hcache, uploads, Table.findUnique_of_mem hjob]
    exact hu
  · exact .other

/-- A page of the list arrives. -/
theorem page_turn {items : List JobDto} {more : Bool} (hf : w.flows[i]? = some f)
    (hlive : f.live = true) (h : resume w i f (.page items more) = some w') :
    ∃ g new, Turn K w i f g new w' := by
  simp only [resume] at h
  split at h
  · rename_i now pulled htask hpc
    have hnote : ∀ pc : Pc, (Flow.goto f pc).note = f.note := by
      intro pc
      simp [Flow.note, Flow.goto, htask]
    have hfinish : (f.finish .returned).note = f.note := hnote .returned
    split_ifs at h with hmore
    · cases h
      exact ⟨_, _, turn_goto hf hlive (by simp) (hnote _) (by simp [Flow.owned, htask])⟩
    · cases h
      refine ⟨f.finish .returned, _, rfl, rfl, fun _ => answered_of_ne Pc.noConfusion,
        ?_, ?_, ?_⟩
      · exact fun g hg => (resumed_startable (uploads_mergePulled w.cache _) hg).1
      · exact fun id hid => .inr ⟨hid, by simp [Flow.owned, htask]⟩
      · exact ledger_moved hf hfinish rfl (uploads_mergePulled w.cache _) rfl
          fun g hg => (resumed_startable (uploads_mergePulled w.cache _) hg).2
  · cases h

/-- A report is registered. -/
theorem created_turn {response : CreateJobResponse} (hf : w.flows[i]? = some f)
    (hkeyed : ∀ label path now key, f.task = .startReport label path now key →
      f.pc = .creating → K response.job.id key)
    (h : resume w i f (.created response) = some w') : ∃ g new, Turn K w i f g new w' := by
  simp only [resume] at h
  split at h
  · rename_i label path now key htask hpc
    cases h
    refine ⟨f.finish (.reported response), _, rfl, rfl,
      fun _ => answered_of_ne Pc.noConfusion, ?_, ?_, ?_⟩
    · intro g hg
      cases List.mem_singleton.mp hg
      exact answered_of_ne Pc.noConfusion
    · exact fun id hid => .inr ⟨hid, by simp [Flow.owned, htask]⟩
    · have hnote : w.ledger.notes[i]? = some (.creating path key) := by
        simp [World.ledger, hf, Flow.note, htask, hpc, Pc.response]
      have hstep : Step K w.ledger _ := .registered i key response.job.id
        (uploadFor path now response) hnote (hkeyed _ _ _ _ htask hpc)
      simpa [World.ledger, uploads_registerCreated, List.map_set, Flow.note, Flow.finish,
        Flow.goto, Flow.start, htask, Pc.response, Pc.beforeUpload, uploadFor] using hstep
  · cases h

theorem uploaded_turn (hf : w.flows[i]? = some f)
    (hlive : f.live = true) (h : resume w i f .uploaded = some w') :
    ∃ g new, Turn K w i f g new w' := by
  simp only [resume] at h
  split at h
  · rename_i id path htask hpc
    cases h
    refine ⟨f.goto .processing, [], rfl, (List.append_nil _).symm,
      fun _ => answered_of_ne Pc.noConfusion, by simp, ?_, ?_⟩
    · intro id' hid
      by_cases ho : f.owned = some id'
      · exact .inl ⟨hlive, by simpa [Flow.owned, Flow.goto, htask, hpc] using ho⟩
      · exact .inr ⟨hid, fun h => ho h.2⟩
    · have hnote : w.ledger.notes[i]? = some (.uploading id path) := by
        simp [World.ledger, hf, Flow.note, htask, hpc, Pc.beforeUpload]
      have hstep : Step K w.ledger _ := .uploaded i id path hnote
      simpa [World.ledger, World.setFlow, uploads_markUploaded, List.map_set, Flow.note,
        Flow.goto, htask, Pc.beforeUpload] using hstep
  · cases h

/-- A copy of a job arrives. -/
theorem job_turn {dto : JobDto} (hf : w.flows[i]? = some f)
    (hlive : f.live = true) (h : resume w i f (.job dto) = some w') :
    ∃ g new, Turn K w i f g new w' := by
  have hpassed : ∀ pc : Pc, pc.response = none → pc.beforeUpload = false →
      f.pc.response = none → f.pc.beforeUpload = false → (Flow.goto f pc).note = f.note := by
    intro pc hr hb hfr hfb
    exact note_congr rfl (hr.trans hfr.symm) (hb.trans hfb.symm)
  simp only [resume] at h
  generalize hw₁ : ({ w with cache := upsert w.cache dto } : World) = w₁ at h
  have hf₁ : w₁.flows[i]? = some f := hw₁ ▸ hf
  have hback : ∀ {g : Flow} {w' : World}, Turn K w₁ i f g [] w' →
      ∃ g new, Turn K w i f g new w' := by
    intro g w' hg
    subst hw₁
    exact ⟨g, [], hg.of_cache (uploads_upsert w.cache dto)⟩
  split at h
  · rename_i id path htask hpc
    cases h
    refine hback (turn_goto hf₁ hlive Pc.noConfusion ?_ ?_)
    · exact hpassed _ rfl rfl (by rw [hpc]; rfl) (by rw [hpc]; rfl)
    · intro id' ho
      simpa [Flow.owned, Flow.goto, htask, hpc] using ho
  · rename_i id htask hpc
    cases h
    obtain ⟨g, hg⟩ := turn_beginPoll hf₁ (by simp [Flow.owned, htask, hpc]) hlive
      (fun g hg => by simp [Flow.note, hg, htask]) (by rw [htask]; rfl)
    exact hback hg
  · rename_i id htask hpc
    cases h
    obtain ⟨g, hg⟩ := turn_beginPoll hf₁ (by simp [Flow.owned, htask, hpc]) hlive
      (fun g hg => by simp [Flow.note, hg, htask]) (by rw [htask]; rfl)
    exact hback hg
  · rename_i id body rest htask hpc
    cases h
    obtain ⟨g, hg⟩ := push_turn hf₁ hlive hpc
    exact hback hg
  · rename_i attempt hpc
    split_ifs at h
    · cases h
      have hfinish : (f.finish .returned).note = f.note :=
        hpassed .returned rfl rfl (by rw [hpc]; rfl) (by rw [hpc]; rfl)
      exact hback (turn_release hf₁ hfinish fun _ => answered_of_ne Pc.noConfusion)
    · cases h
      refine hback (turn_goto hf₁ hlive Pc.noConfusion ?_ ?_)
      · exact hpassed _ rfl rfl (by rw [hpc]; rfl) (by rw [hpc]; rfl)
      · intro id' ho
        rw [owned_looping ⟨attempt, .inl hpc⟩] at ho
        exact (owned_looping ⟨attempt, .inr rfl⟩).trans ho
  · cases h

theorem deleted_turn (hf : w.flows[i]? = some f) (h : resume w i f .deleted = some w') :
    ∃ g new, Turn K w i f g new w' := by
  simp only [resume] at h
  split at h
  · rename_i id htask hpc
    cases h
    refine ⟨f.finish .returned, [], rfl, (List.append_nil _).symm,
      fun _ => answered_of_ne Pc.noConfusion, by simp, ?_, ?_⟩
    · exact fun id' hid => .inr ⟨hid, by simp [Flow.owned, htask]⟩
    · have hnote : w.ledger.notes[i]? = some (.deleting id) := by
        simp [World.ledger, hf, Flow.note, htask]
      have hstep : Step K w.ledger _ := .deleted i id hnote
      have hfinish : (f.finish .returned).note = f.note := by
        simp [Flow.note, Flow.finish, Flow.goto, htask]
      simpa [World.ledger, World.setFlow, uploads_delete, map_set_same hf hfinish] using hstep
  · cases h

theorem resume_turn {r : Reply} (hf : w.flows[i]? = some f) (hlive : f.live = true)
    (hkeyed : ∀ label path now key response, f.task = .startReport label path now key →
      f.pc = .creating → r = .created response → K response.job.id key)
    (h : resume w i f r = some w') : ∃ g new, Turn K w i f g new w' := by
  cases r with
  | page items more => exact page_turn hf hlive h
  | created response =>
      refine created_turn hf ?_ h
      intro label path now key htask hpc
      exact hkeyed label path now key response htask hpc rfl
  | uploaded => exact uploaded_turn hf hlive h
  | job dto => exact job_turn hf hlive h
  | deleted => exact deleted_turn hf h

theorem fail_turn (hf : w.flows[i]? = some f) (hlive : f.live = true)
    (h : fail w i f = some w') : ∃ g new, Turn K w i f g new w' := by
  have hstop : Turn K w i f f.stop [] ((w.release f).setFlow i f.stop) :=
    turn_release hf rfl fun h => h
  unfold fail at h
  split at h
  case h_6 =>
    rename_i attempt hpc
    cases h
    refine ⟨_, _, turn_goto hf hlive Pc.noConfusion ?_ ?_⟩
    · exact note_congr rfl (by rw [hpc]; rfl) (by rw [hpc]; rfl)
    · intro id ho
      rw [owned_looping ⟨attempt, .inl hpc⟩] at ho
      exact (owned_looping ⟨attempt, .inr rfl⟩).trans ho
  case h_7 =>
    rename_i id body rest hpc
    cases h
    obtain ⟨g, hg⟩ := push_turn hf hlive hpc
    exact ⟨g, _, hg⟩
  case h_8 => cases h
  all_goals
    cases h
    exact ⟨_, _, hstop⟩

/-- The flow of an action that lets one flow go on. -/
def Action.turns : Action → Option ℕ
  | .begin i | .deliver i _ | .fail i | .wake i => some i
  | _ => none

theorem step_turn {a : Action} (hturn : a.turns = some i)
    (hanswered : ∀ f ∈ w.flows, Answered w.server f) (hs : step cfg userId w a = some w') :
    ∃ f g new, w.flows[i]? = some f ∧ Turn (Keyed w.server.stores) w i f g new w' := by
  cases a with
  | begin k =>
      cases hturn
      obtain ⟨f, hf, hs⟩ := Option.bind_eq_some_iff.mp hs
      split at hs
      · rename_i id path hlive hpc htask
        cases hs
        refine ⟨f, f.goto .uploading, [], hf, rfl, (List.append_nil _).symm,
          fun _ => answered_of_ne Pc.noConfusion, by simp, ?_, ?_⟩
        · intro id' hid
          by_cases heq : id' = id
          · exact .inl ⟨hlive, by simp [Flow.owned, Flow.goto, htask, heq]⟩
          · refine .inr ⟨by simpa [heq] using hid, by simp [Flow.owned, htask, hpc]⟩
        · have hnote : (f.goto .uploading).note = f.note :=
            note_congr rfl (by rw [hpc]; rfl) (by rw [hpc]; rfl)
          exact ledger_moved hf hnote (List.append_nil _).symm rfl rfl (by simp)
      · rename_i id hlive hpc htask
        cases hs
        obtain ⟨g, hg⟩ := turn_beginPoll hf (by simp [Flow.owned, htask, hpc]) hlive
          (fun g hg => by simp [Flow.note, hg, htask]) (by rw [htask]; rfl)
        exact ⟨f, g, _, hf, hg⟩
      · cases hs
  | deliver k r =>
      cases hturn
      obtain ⟨f, hf, hs⟩ := Option.bind_eq_some_iff.mp hs
      split_ifs at hs with hlive
      obtain ⟨reply, hreply, hs⟩ := Option.bind_eq_some_iff.mp hs
      have hkeyed : ∀ label path now key response, f.task = .startReport label path now key →
          f.pc = .creating → reply = .created response →
            Keyed w.server.stores response.job.id key := by
        rintro label path now key response htask hpc rfl
        have hans := hanswered f (List.mem_of_getElem? hf) label path now key htask hpc
        exact hans.2 response (List.mem_of_getElem? hreply)
      obtain ⟨g, new, hg⟩ := resume_turn hf hlive hkeyed hs
      exact ⟨f, g, new, hf, hg⟩
  | fail k =>
      cases hturn
      obtain ⟨f, hf, hs⟩ := Option.bind_eq_some_iff.mp hs
      split_ifs at hs with hlive
      obtain ⟨g, new, hg⟩ := fail_turn hf hlive hs
      exact ⟨f, g, new, hf, hg⟩
  | wake k =>
      cases hturn
      obtain ⟨f, hf, hs⟩ := Option.bind_eq_some_iff.mp hs
      split at hs
      · rename_i attempt hlive hpc
        split_ifs at hs
        · cases hs
          refine ⟨f, _, _, hf, turn_goto hf hlive Pc.noConfusion ?_ ?_⟩
          · exact note_congr rfl (by rw [hpc]; rfl) (by rw [hpc]; rfl)
          · intro id ho
            rw [owned_looping ⟨attempt, .inr hpc⟩] at ho
            exact (owned_looping ⟨attempt + 1, .inl rfl⟩).trans ho
        · cases hs
          have hfinish : (f.finish .returned).note = f.note :=
            note_congr rfl (by rw [hpc]; rfl) (by rw [hpc]; rfl)
          exact ⟨f, _, _, hf, turn_release hf hfinish fun _ => answered_of_ne Pc.noConfusion⟩
      · cases hs
  | _ => cases hturn

theorem answered_server {server : ServerRuns.World} {b : ServerRuns.Action}
    (h : Answered w.server f) (hs : ServerRuns.step cfg w.server b = some server) :
    Answered server f := by
  intro label path now key htask hpc
  obtain ⟨hsent, hreplies⟩ := h label path now key htask hpc
  obtain ⟨now', op, hstores⟩ := step_stores hs
  constructor
  · intro k hk
    obtain ⟨c, hc, hkey⟩ := hsent k hk
    obtain ⟨pc, hc'⟩ := call_kept hs hc
    exact ⟨_, hc', hkey⟩
  · intro response hr
    rw [hstores]
    exact (hreplies response hr).run now' op

/-- An answer arrives. -/
theorem receive_turn {r : Reply} (hf : w.flows[i]? = some f)
    (hkeyed : ∀ label path now key response, f.task = .startReport label path now key →
      f.pc = .creating → r = .created response → Keyed w.server.stores response.job.id key) :
    Turn K w i f { f with replies := f.replies ++ [r] } []
      (w.setFlow i { f with replies := f.replies ++ [r] }) where
  server := rfl
  flows := (List.append_nil _).symm
  answered := by
    intro h label path now key htask hpc
    obtain ⟨hsent, hreplies⟩ := h label path now key htask hpc
    refine ⟨hsent, ?_⟩
    intro response hr
    rcases List.mem_append.mp hr with hr | hr
    · exact hreplies response hr
    · exact hkeyed label path now key response htask hpc (List.mem_singleton.mp hr).symm
  started := by simp
  active := by
    intro id hid
    by_cases ho : f.live = true ∧ f.owned = some id
    · exact .inl ho
    · exact .inr ⟨hid, ho⟩
  ledger :=
    ledger_moved hf (show ({ f with replies := f.replies ++ [r] } : Flow).note = f.note from rfl)
      (List.append_nil _).symm rfl rfl (by simp)

/-- The answer to a create call names a job that carries the key. -/
theorem threadReply_keyed {thread : ServerRuns.Thread} {key : String}
    {response : CreateJobResponse} {server : ServerRuns.World} (hcalls : CreateKeys server)
    (hthread : thread ∈ server.threads) (hr : threadReply thread = some (.created response))
    (hkey : ∀ c, thread = .create c → c.idempotencyKey = some key) :
    Keyed server.stores response.job.id key := by
  cases thread with
  | create c =>
      simp only [threadReply] at hr
      split at hr
      · rename_i response' hpc
        cases hr
        exact (hcalls c hthread).returned _ key hpc (hkey c rfl)
      · cases hr
  | process c =>
      simp only [threadReply] at hr
      split at hr <;> cases hr
  | update c =>
      simp only [threadReply] at hr
      split at hr <;> cases hr
  | remove c =>
      simp only [threadReply] at hr
      split at hr <;> cases hr
  | _ => cases hr

/-- What holds of every state that a device and its server reach. -/
structure DeviceInv (w : JobSyncService.World) : Prop where
  calls : CreateKeys w.server
  answered : ∀ f ∈ w.flows, Answered w.server f
  held : ∀ id, w.active id = true → ∃ f ∈ w.flows, f.live = true ∧ f.owned = some id
  ledger : UploadLedger.Inv (Keyed w.server.stores) w.ledger

theorem inv_server {server : ServerRuns.World} {b : ServerRuns.Action} (h : DeviceInv w)
    (hs : ServerRuns.step cfg w.server b = some server) :
    DeviceInv { w with server := server } := by
  obtain ⟨now, op, hstores⟩ := step_stores hs
  refine ⟨createKeys_step h.calls hs, fun f hf => answered_server (h.answered f hf) hs, h.held,
    ?_⟩
  refine UploadLedger.Inv.mono h.ledger fun jobId key hkeyed => ?_
  rw [hstores]
  exact hkeyed.run now op

theorem inv_turn (h : DeviceInv w) (hf : w.flows[i]? = some f)
    (ht : Turn (Keyed w.server.stores) w i f g new w') : DeviceInv w' := by
  have hmem : ∀ f₀ ∈ w'.flows, f₀ ∈ w.flows ∨ f₀ = g ∨ f₀ ∈ new := by
    intro f₀ hf₀
    rw [ht.flows] at hf₀
    rcases List.mem_append.mp hf₀ with hf₀ | hf₀
    · exact (List.mem_or_eq_of_mem_set hf₀).imp_right .inl
    · exact .inr (.inr hf₀)
  constructor
  · rw [ht.server]
    exact h.calls
  · intro f₀ hf₀
    rw [ht.server]
    rcases hmem f₀ hf₀ with hf₀ | rfl | hf₀
    · exact h.answered f₀ hf₀
    · exact ht.answered (h.answered f (List.mem_of_getElem? hf))
    · exact ht.started f₀ hf₀
  · intro id hid
    rw [ht.flows]
    rcases ht.active id hid with ⟨hlive, howned⟩ | ⟨hid, hnot⟩
    · exact ⟨g, List.mem_append_left _ (List.mem_of_getElem? (getElem?_set_same hf)), hlive,
        howned⟩
    · obtain ⟨f₀, hf₀, hlive, howned⟩ := h.held id hid
      have hne : f₀ ≠ f := by
        rintro rfl
        exact hnot ⟨hlive, howned⟩
      exact ⟨f₀, List.mem_append_left _ (mem_set_of_ne hf hne hf₀), hlive, howned⟩
  · rw [ht.server]
    exact UploadLedger.inv_step h.ledger (fun _ _ _ => Keyed.unique) ht.ledger

/-- New calls start. -/
theorem inv_start (h : DeviceInv w) (hserver : w'.server = w.server)
    (hactive : w'.active = w.active) (hflows : w'.flows = w.flows ++ new)
    (hnew : ∀ f ∈ new, Answered w.server f)
    (hledger : Step (Keyed w.server.stores) w.ledger w'.ledger) : DeviceInv w' := by
  constructor
  · rw [hserver]
    exact h.calls
  · intro f hf
    rw [hserver]
    rw [hflows] at hf
    rcases List.mem_append.mp hf with hf | hf
    · exact h.answered f hf
    · exact hnew f hf
  · intro id hid
    rw [hactive] at hid
    obtain ⟨f, hf, hlive, howned⟩ := h.held id hid
    exact ⟨f, hflows ▸ List.mem_append_left _ hf, hlive, howned⟩
  · rw [hserver]
    exact UploadLedger.inv_step h.ledger (fun _ _ _ => Keyed.unique) hledger

theorem ledger_started (hflows : w'.flows = w.flows ++ new)
    (hcache : uploads w'.cache = uploads w.cache) (hfiles : w'.files = w.files)
    (hnew : ∀ h ∈ new, Startable w.ledger (Flow.note h)) : Step K w.ledger w'.ledger := by
  have hledger : w'.ledger = { w.ledger with notes := w.ledger.notes ++ new.map Flow.note } := by
    simp only [World.ledger, hflows, hcache, hfiles, List.map_append]
  rw [hledger]
  refine .started _ fun n hn => ?_
  obtain ⟨h, hh, rfl⟩ := List.mem_map.mp hn
  exact hnew h hh

/-- A call starts that asks for no job and resumes no upload. -/
theorem inv_spawn (h : DeviceInv w) (hserver : w'.server = w.server)
    (hactive : w'.active = w.active) (hflows : w'.flows = w.flows ++ [f])
    (hcache : uploads w'.cache = uploads w.cache) (hfiles : w'.files = w.files)
    (hpc : f.pc ≠ .creating) (hnote : Startable w.ledger f.note) : DeviceInv w' := by
  refine inv_start h hserver hactive hflows ?_ (ledger_started hflows hcache hfiles ?_)
  · intro f₀ hf₀
    cases List.mem_singleton.mp hf₀
    exact answered_of_ne hpc
  · intro f₀ hf₀
    cases List.mem_singleton.mp hf₀
    exact hnote

theorem inv_startReport {label path key : String} {now : ℕ} (h : DeviceInv w)
    (hfresh : freshReport w path key = true) :
    DeviceInv { w.spawn (.start (.startReport label path now key) .creating) with
      files := path :: w.files } := by
  refine inv_start h rfl rfl rfl ?_ ?_
  · intro f hf
    cases List.mem_singleton.mp hf
    intro _ _ _ _ _ _
    simp [Flow.start]
  · have hstep : Step (Keyed w.server.stores) w.ledger _ := .recorded path key ?_
    · simpa [World.ledger, World.spawn, Flow.start, Flow.note, Pc.response] using hstep
    · intro n hn path' key' hreport
      obtain ⟨f, hf, rfl⟩ := List.mem_map.mp hn
      have hf' := List.all_eq_true.mp hfresh f hf
      unfold Flow.note at hreport
      split at hreport
      · rename_i label' path₁ now' key₁ htask
        have hne : path₁ ≠ path ∧ key₁ ≠ key := by simpa [htask] using hf'
        split at hreport <;> cases hreport <;> exact hne
      · split_ifs at hreport <;> cases hreport
      · cases hreport
      · cases hreport
      · cases hreport

/-- The completion callback finds the drive whose upload has finished. -/
theorem inv_uploadFinished {jobId : String} (h : DeviceInv w)
    (horphaned : w.flows.any (orphaned jobId) = true) :
    DeviceInv { w.spawn (.start (.uploadFinished jobId) .processing) with
      cache := markUploaded w.cache jobId } := by
  refine inv_start h rfl rfl rfl ?_ ?_
  · intro f hf
    cases List.mem_singleton.mp hf
    exact answered_of_ne Pc.noConfusion
  · obtain ⟨f, hf, ho⟩ := List.any_eq_true.mp horphaned
    simp only [orphaned, Bool.and_eq_true, Option.any_eq_true] at ho
    obtain ⟨⟨-, ⟨id, path⟩, hup, hid⟩, -⟩ := ho
    obtain rfl : id = jobId := by simpa using hid
    obtain ⟨i, hi⟩ := List.mem_iff_getElem?.mp hf
    have hnote : w.ledger.notes[i]? = some (.uploading id path) := by
      unfold Flow.uploads at hup
      split at hup
      · rename_i id' path' htask hpc
        cases hup
        simp [World.ledger, hi, Flow.note, htask, hpc, Pc.beforeUpload]
      · cases hup
    have hstep : Step (Keyed w.server.stores) w.ledger _ := .finished i id path hnote
    simpa [World.ledger, World.spawn, Flow.start, Flow.note, uploads_markUploaded] using hstep

theorem request_create {r : ServerRuns.Request} {label path key : String} {now : ℕ}
    (htask : f.task = .startReport label path now key) (hpc : f.pc = .creating)
    (h : request userId f = some r) : r = .create userId label (some key) := by
  simp only [request, htask, hpc] at h
  exact (Option.some.inj h).symm

/-- The request of a flow reaches the server. -/
theorem inv_send (cfg : ServerConfig) {r : ServerRuns.Request} (h : DeviceInv w) (hf : w.flows[i]? = some f)
    (hr : request userId f = some r) :
    DeviceInv { w.setFlow i { f with sent := f.sent ++ [w.server.threads.length] } with
      server := { w.server with threads := w.server.threads ++ [r.thread] } } := by
  have hcall : ServerRuns.step cfg w.server (.call r) =
      some { w.server with threads := w.server.threads ++ [r.thread] } := rfl
  generalize hsrv : ({ w.server with threads := w.server.threads ++ [r.thread] } :
    ServerRuns.World) = server at hcall ⊢
  have hnote : ({ f with sent := f.sent ++ [w.server.threads.length] } : Flow).note = f.note := rfl
  refine inv_turn (inv_server h hcall) hf ⟨rfl, (List.append_nil _).symm, ?_, by simp, ?_,
    ledger_moved hf hnote (List.append_nil _).symm rfl rfl (by simp)⟩
  · intro hans label path now key htask hpc
    obtain ⟨hsent, hreplies⟩ := hans label path now key htask hpc
    refine ⟨?_, hreplies⟩
    intro k hk
    rcases List.mem_append.mp hk with hk | hk
    · exact hsent k hk
    · cases List.mem_singleton.mp hk
      subst hsrv
      rw [request_create htask hpc hr]
      exact ⟨JobsService.create userId label (some key), by simp [Request.thread], rfl⟩
  · intro id hid
    by_cases ho : f.live = true ∧ f.owned = some id
    · exact .inl ho
    · exact .inr ⟨hid, ho⟩

theorem inv_kill (h : DeviceInv w) :
    DeviceInv { w with
      active := fun _ => false
      flows := w.flows.map Flow.stop } := by
  refine ⟨h.calls, ?_, ?_, ?_⟩
  · intro f hf
    obtain ⟨f₀, hf₀, rfl⟩ := List.mem_map.mp hf
    exact h.answered f₀ hf₀
  · intro id hid
    cases hid
  · have hnotes : (w.flows.map Flow.stop).map Flow.note = w.flows.map Flow.note := by
      rw [List.map_map]
      rfl
    have hledger : World.ledger { w with
        active := fun _ => false
        flows := w.flows.map Flow.stop } = w.ledger := by
      simp only [World.ledger, hnotes]
    rw [hledger]
    exact h.ledger

theorem device_step {a : Action} (h : DeviceInv w) (hs : step cfg userId w a = some w') :
    DeviceInv w' := by
  cases a with
  | server b =>
      obtain ⟨server, hserver, rfl⟩ := Option.map_eq_some_iff.mp hs
      exact inv_server h hserver
  | refresh now =>
      cases hs
      exact inv_spawn h rfl rfl rfl rfl rfl Pc.noConfusion .other
  | startReport label path now key =>
      simp only [step] at hs
      split_ifs at hs with hfresh
      cases hs
      exact inv_startReport h hfresh
  | saveEdits jobId label sections now =>
      have hcache := uploads_applyLocalEdits w.cache jobId label sections now
      simp only [step] at hs
      split at hs
      · cases hs
        exact inv_spawn h rfl rfl rfl hcache rfl Pc.noConfusion .other
      · cases hs
        refine inv_start h rfl rfl (List.append_nil _).symm (by simp) ?_
        exact ledger_started (List.append_nil _).symm hcache rfl (by simp)
  | pushPendingEdits =>
      simp only [step] at hs
      rcases nextPush_cases w.cache ((allJobs w.cache).map CachedJob.id) with
        hpc | ⟨id, body, rest, hpc⟩
      · rw [hpc] at hs
        cases hs
        exact h
      · rw [hpc] at hs
        cases hs
        exact inv_spawn h rfl rfl rfl rfl rfl Pc.noConfusion .other
  | poll jobId =>
      cases hs
      have hspawn : DeviceInv (w.spawn (.start (.poll jobId) .starting)) :=
        inv_spawn h rfl rfl rfl rfl rfl Pc.noConfusion .other
      have hf : (w.spawn (.start (.poll jobId) .starting)).flows[w.flows.length]? =
          some (.start (.poll jobId) .starting) := by simp [World.spawn]
      obtain ⟨g, hg⟩ := turn_beginPoll hf rfl rfl
        (fun g hg => by simp [Flow.note, hg, Flow.start]) rfl
      exact inv_turn hspawn hf hg
  | retry jobId =>
      cases hs
      exact inv_spawn h rfl rfl rfl rfl rfl Pc.noConfusion .other
  | delete jobId =>
      cases hs
      exact inv_spawn h rfl rfl rfl rfl rfl Pc.noConfusion (.deleting jobId)
  | uploadFinished jobId =>
      simp only [step] at hs
      split_ifs at hs with horphaned
      cases hs
      exact inv_uploadFinished h horphaned
  | send i =>
      obtain ⟨f, hf, hs⟩ := Option.bind_eq_some_iff.mp hs
      split_ifs at hs
      obtain ⟨r, hr, rfl⟩ := Option.map_eq_some_iff.mp hs
      exact inv_send cfg h hf hr
  | answer i thread =>
      obtain ⟨f, hf, hs⟩ := Option.bind_eq_some_iff.mp hs
      split_ifs at hs with hsent
      obtain ⟨r, hr, rfl⟩ := Option.map_eq_some_iff.mp hs
      obtain ⟨t, ht, hr⟩ := Option.bind_eq_some_iff.mp hr
      refine inv_turn h hf (receive_turn hf ?_)
      rintro label path now key response htask hpc rfl
      have hans := h.answered f (List.mem_of_getElem? hf) label path now key htask hpc
      obtain ⟨c, hc, hkey⟩ := hans.1 thread hsent
      refine threadReply_keyed h.calls (List.mem_of_getElem? ht) hr ?_
      intro c' hc'
      rw [ht, hc'] at hc
      cases hc
      exact hkey
  | read i ids more =>
      obtain ⟨f, hf, hs⟩ := Option.bind_eq_some_iff.mp hs
      obtain ⟨r, hr, rfl⟩ := Option.map_eq_some_iff.mp hs
      refine inv_turn h hf (receive_turn hf ?_)
      rintro label path now key response htask hpc rfl
      simp [readReply, hpc] at hr
  | store i =>
      obtain ⟨f, hf, hs⟩ := Option.bind_eq_some_iff.mp hs
      obtain ⟨⟨id, path⟩, -, hs⟩ := Option.bind_eq_some_iff.mp hs
      obtain ⟨server, hserver, rfl⟩ := Option.map_eq_some_iff.mp hs
      refine inv_turn (inv_server h hserver) hf (receive_turn hf ?_)
      rintro label path' now key response htask hpc hr
      cases hr
  | begin i =>
      obtain ⟨f, g, new, hf, ht⟩ := step_turn (a := .begin i) rfl h.answered hs
      exact inv_turn h hf ht
  | deliver i k =>
      obtain ⟨f, g, new, hf, ht⟩ := step_turn (a := .deliver i k) rfl h.answered hs
      exact inv_turn h hf ht
  | fail i =>
      obtain ⟨f, g, new, hf, ht⟩ := step_turn (a := .fail i) rfl h.answered hs
      exact inv_turn h hf ht
  | wake i =>
      obtain ⟨f, g, new, hf, ht⟩ := step_turn (a := .wake i) rfl h.answered hs
      exact inv_turn h hf ht
  | kill =>
      cases hs
      exact inv_kill h

theorem device_empty : DeviceInv World.empty := by
  refine ⟨?_, ?_, ?_, UploadLedger.inv_empty _⟩
  · intro c hc
    cases hc
  · intro f hf
    cases hf
  · intro id hid
    cases hid

end FieldNote.JobSyncService
