import FieldNote.DeviceLedger
import FieldNote.GuardedRuns

/-!
# What a refresh recovers

A recording is interrupted when its `startReport` and every call for its job have ended.
A refresh whose calls all succeed then starts the drive again, which uploads the file and
calls `processJob`, exactly when the answer to `createJob` had been registered, the upload
had not been marked, and the presigned URL has not expired. In every other state in which
steps remain, the recording is lost to the app.
-/
namespace FieldNote.RecordingRecovery
open JobStore JobsService JobSyncService UploadLedger GuardedRuns CallPool

/-- The call and every call for its job have ended, and the user has not asked for the
deletion of the job. -/
def Interrupted (w : World) (f : Flow) : Prop :=
  f.live = false ∧ ∀ response ∈ f.pc.response, ∀ g ∈ w.flows,
    (g.live = true → g.task.polled ≠ some response.job.id) ∧ g.task ≠ .delete response.job.id

instance (w : World) (f : Flow) : Decidable (Interrupted w f) :=
  inferInstanceAs (Decidable (_ ∧ _))

/-- The recording is not uploaded, or its job is live and has not been triggered. -/
def stepsRemain (userId : String) (s : Stores) (f : Flow) : Bool :=
  match f.pc.response with
  | some response =>
      (s.findScoped userId response.job.id).any fun job =>
        (s.bucket (audioKey userId response.job.id)).isNone || job.status = .CREATED
  | none => true

def Reply.isLast : Reply → Bool
  | .page _ more => !more
  | _ => false

/-- The action applies the last page of a refresh that was called at the instant. -/
def completes (now : ℕ) (w : World) : Action → Bool
  | .deliver i k =>
      w.flows[i]?.any fun f => f.task = .refresh now && f.replies[k]?.any Reply.isLast
  | _ => false

/-- The flow is about to upload the recording and to call `processJob` for its job. -/
def resumes (f : Flow) (path : String) (g : Flow) : Bool :=
  g.live && g.pc = .starting && match g.task with
    | .driveUploadThenProcess id path' =>
        path' = path && f.pc.response.all fun response => response.job.id = id
    | _ => false

def Resumed (w : World) (f : Flow) (path : String) : Prop :=
  ∃ g ∈ w.flows, resumes f path g = true

/-- The answer to `createJob` has been registered, the upload has not been marked, and the
presigned URL is still valid. -/
def Resumable (w : World) (f : Flow) (created now : ℕ) : Prop :=
  ∃ response ∈ f.pc.response, (∀ g ∈ w.flows, g.note ≠ .uploaded response.job.id) ∧
    now < created + 1000 * response.audioUploadUrl.expiresInSeconds

instance (w : World) (f : Flow) (path : String) : Decidable (Resumed w f path) :=
  inferInstanceAs (Decidable (∃ g ∈ w.flows, resumes f path g = true))

instance (w : World) (f : Flow) (created now : ℕ) : Decidable (Resumable w f created now) :=
  inferInstanceAs (Decidable (∃ response ∈ f.pc.response, _))

variable {cfg : ServerConfig} {userId label path key id : String} {w w' : World} {f g : Flow}
variable {created now : ℕ}

theorem resumes_iff : resumes f path g = true ↔
    g.live = true ∧ g.pc = .starting ∧ ∃ id, g.task = .driveUploadThenProcess id path ∧
      ∀ response ∈ f.pc.response, response.job.id = id := by
  unfold resumes
  cases htask : g.task with
  | driveUploadThenProcess id path' => cases f.pc.response <;> simp [and_assoc]
  | _ => simp

theorem owned_polled (h : f.owned = some id) : f.task.polled = some id := by
  obtain ⟨task, pc, live, sent, replies⟩ := f
  cases task <;> cases pc <;> first | exact h | cases h

/-- The end of a refresh. -/
theorem completes_step {a : Action} (hdone : completes now w a = true)
    (hs : step cfg userId w a = some w') :
    ∃ i f cache, w.flows[i]? = some f ∧ uploads cache = uploads w.cache ∧
      w'.flows = w.flows.set i (f.finish .returned) ++
        (resumeInFlight cache w.files w.active now).map fun task => .start task .starting := by
  cases a with
  | deliver i k =>
      obtain ⟨f, hf, hd⟩ := (Option.any_eq_true _ _).mp hdone
      simp only [Bool.and_eq_true, decide_eq_true_eq] at hd
      obtain ⟨htask, hlast⟩ := hd
      obtain ⟨r, hr, hlast⟩ := (Option.any_eq_true _ _).mp hlast
      simp only [step, hf, hr, Option.bind_some] at hs
      split_ifs at hs with hlive
      cases r with
      | page items more =>
          simp only [resume, htask] at hs
          split at hs
          · rename_i now' pulled hnow hpc
            cases hnow
            have hmore : more = false := by simpa [Reply.isLast] using hlast
            rw [hmore] at hs
            cases hs
            exact ⟨i, f, _, hf, uploads_mergePulled w.cache _, rfl⟩
          · cases hs
      | _ => cases hlast
  | _ => cases hdone

/-- The note of a `startReport` call names its recording. -/
theorem note_report (htask : f.task = .startReport label path created key) :
    f.note.report = some (path, key) := by
  unfold Flow.note
  rw [htask]
  cases f.pc.response <;> rfl

/-- A note that reports the recording is the one of its call. -/
theorem reported_response {jobId key' : String} {upload : Upload} (h : DeviceInv w)
    (hf : f ∈ w.flows) (htask : f.task = .startReport label path created key)
    (hn : .reported key' jobId upload ∈ w.ledger.notes) (hpath : upload.path = path) :
    ∃ response, f.pc.response = some response ∧ jobId = response.job.id ∧
      upload = uploadFor path created response := by
  have hnote : f.note ∈ w.ledger.notes := List.mem_map_of_mem hf
  have heq := h.ledger.report_unique hnote hn (note_report htask) rfl (.inl hpath.symm)
  unfold Flow.note at heq
  simp only [htask] at heq
  cases hresponse : f.pc.response with
  | none => simp [hresponse] at heq
  | some response =>
      simp only [hresponse, Note.reported.injEq] at heq
      exact ⟨response, rfl, heq.2.1.symm, heq.2.2.symm⟩

theorem resumed_resumable {a : Action} (h : DeviceInv w) (hf : f ∈ w.flows)
    (htask : f.task = .startReport label path created key) (hint : Interrupted w f)
    (hdone : completes now w a = true) (hs : step cfg userId w a = some w')
    (hresumed : Resumed w' f path) : Resumable w f created now := by
  obtain ⟨i, f₀, cache, -, hcache, hflows⟩ := completes_step hdone hs
  obtain ⟨g, hg, hres⟩ := hresumed
  obtain ⟨hlive, hpc, id, hdrive, hid⟩ := resumes_iff.mp hres
  rw [hflows] at hg
  rcases List.mem_append.mp hg with hg | hg
  · rcases List.mem_or_eq_of_mem_set hg with hg | rfl
    · have hnote : .uploading id path ∈ w.ledger.notes := by
        refine List.mem_map.mpr ⟨g, hg, ?_⟩
        simp [Flow.note, hdrive, hpc, Pc.beforeUpload]
      obtain ⟨key', upload, hrep, hpath⟩ := h.ledger.uploading id path hnote
      obtain ⟨response, hresponse, hjob, -⟩ := reported_response h hf htask hrep hpath
      have hpolled := (hint.2 response hresponse g hg).1 hlive
      rw [hdrive, ← hjob] at hpolled
      exact (hpolled rfl).elim
    · cases hpc
  · obtain ⟨task, htask', rfl⟩ := List.mem_map.mp hg
    obtain rfl : task = .driveUploadThenProcess id path := hdrive
    obtain ⟨job, hjob, -, hresume⟩ := mem_resumeInFlight.mp htask'
    rcases resumeTask_cases hresume with ⟨u, hu, -, hvalid, heq⟩ | heq
    · cases heq
      have hpending : w.ledger.uploads job.id = some u := by
        show uploads w.cache job.id = some u
        rw [← hcache, uploads, Table.findUnique_of_mem hjob]
        exact hu
      obtain ⟨key', hrep⟩ := h.ledger.pending job.id u hpending
      obtain ⟨response, hresponse, hid', hupload⟩ := reported_response h hf htask hrep rfl
      refine ⟨response, hresponse, ?_, ?_⟩
      · intro g hg hmarked
        have hn : .uploaded response.job.id ∈ w.ledger.notes :=
          List.mem_map.mpr ⟨g, hg, hmarked⟩
        have hnone := (h.ledger.uploaded response.job.id hn).2
        rw [← hid', hpending] at hnone
        cases hnone
      · rw [hupload] at hvalid
        exact hvalid
    · cases heq

theorem resumable_resumed {a : Action} (h : DeviceInv w) (hf : f ∈ w.flows)
    (htask : f.task = .startReport label path created key) (hint : Interrupted w f)
    (hdone : completes now w a = true) (hs : step cfg userId w a = some w')
    (hresumable : Resumable w f created now) : Resumed w' f path := by
  obtain ⟨i, f₀, cache, -, hcache, hflows⟩ := completes_step hdone hs
  obtain ⟨response, hresponse, hunmarked, hvalid⟩ := hresumable
  have hnote : .reported key response.job.id (uploadFor path created response) ∈
      w.ledger.notes := by
    refine List.mem_map.mpr ⟨f, hf, ?_⟩
    simp [Flow.note, htask, Option.mem_def.mp hresponse]
  have hdeleting : .deleting response.job.id ∉ w.ledger.notes := by
    intro hn
    obtain ⟨g, hg, hgn⟩ := List.mem_map.mp hn
    refine (hint.2 response hresponse g hg).2 ?_
    unfold Flow.note at hgn
    split at hgn
    · split at hgn <;> cases hgn
    · split_ifs at hgn
    · cases hgn
    · rename_i id hdelete
      cases hgn
      exact hdelete
    · cases hgn
  have huploaded : .uploaded response.job.id ∉ w.ledger.notes := by
    intro hn
    obtain ⟨g, hg, hgn⟩ := List.mem_map.mp hn
    exact hunmarked g hg hgn
  obtain ⟨hpending, hfile⟩ := h.ledger.reported _ _ _ hnote hdeleting huploaded
  have hcached : uploads cache response.job.id = some (uploadFor path created response) := by
    rw [hcache]
    exact hpending
  obtain ⟨job, hjob, hupload⟩ := Option.bind_eq_some_iff.mp hcached
  obtain ⟨hrow, hid⟩ := Table.findUnique_eq_some.mp hjob
  have hactive : w.active job.id = false := by
    by_contra hactive
    obtain ⟨g, hg, hlive, howned⟩ := h.held job.id (by simpa using hactive)
    exact (hint.2 response hresponse g hg).1 hlive (hid ▸ owned_polled howned)
  have hmem : Task.driveUploadThenProcess job.id path ∈
      resumeInFlight cache w.files w.active now :=
    mem_resumeInFlight.mpr ⟨job, hrow, hactive, resumeTask_pending hupload hfile hvalid⟩
  refine ⟨.start (.driveUploadThenProcess job.id path) .starting, ?_, ?_⟩
  · rw [hflows]
    exact List.mem_append_right _ (List.mem_map_of_mem hmem)
  · refine resumes_iff.mpr ⟨rfl, rfl, job.id, rfl, ?_⟩
    intro response' hresponse'
    rw [Option.mem_def.mp hresponse] at hresponse'
    cases hresponse'
    exact hid.symm

/-- After a refresh that succeeds, an interrupted recording for which steps remain is being
driven again if and only if it was resumable. -/
theorem recording_recovered (cfg : ServerConfig) (userId : String) {w w' : World} {a : Action}
    {f : Flow} {label path key : String} {created now : ℕ}
    (hrun : Run (step cfg userId) anyStep World.empty w) (hf : f ∈ w.flows)
    (htask : f.task = .startReport label path created key) (hint : Interrupted w f)
    (hdone : completes now w a = true) (hs : step cfg userId w a = some w') :
    (stepsRemain userId w.server.stores f = true → Resumed w' f path) ↔
      (stepsRemain userId w.server.stores f = true → Resumable w f created now) := by
  have hinv : DeviceInv w := hrun.invariant device_empty fun _ _ _ h _ hs => device_step h hs
  constructor
  · intro h hsteps
    exact resumed_resumable hinv hf htask hint hdone hs (h hsteps)
  · intro h hsteps
    exact resumable_resumed hinv hf htask hint hdone hs (h hsteps)

/-- A resumed drive goes on to upload the file and to call `processJob` for its job. -/
theorem resumed_processes {i : ℕ}
    (hf : w.flows[i]? = some (.start (.driveUploadThenProcess id path) .starting)) :
    ∃ w' f, Run (step cfg userId) anyStep w w' ∧ w'.flows[i]? = some f ∧ f.live = true ∧
      w'.server.stores.bucket (audioKey userId id) = some (.audio path) ∧
        request userId f = some (.process userId id) := by
  have hbegin : step cfg userId w (.begin i) =
      some { w.setFlow i (.start (.driveUploadThenProcess id path) .uploading) with
        active := Function.update w.active id true } := by
    simp only [step, hf, Option.bind_some]
    rfl
  generalize hw₁ : ({ w.setFlow i (.start (.driveUploadThenProcess id path) .uploading) with
    active := Function.update w.active id true } : World) = w₁ at hbegin
  have hf₁ : w₁.flows[i]? = some (.start (.driveUploadThenProcess id path) .uploading) := by
    subst hw₁
    exact getElem?_set_same hf
  obtain ⟨w₂, hstore, hf₂, hobject⟩ : ∃ w₂, step cfg userId w₁ (.store i) = some w₂ ∧
      w₂.flows[i]? = some ⟨.driveUploadThenProcess id path, .uploading, true, [], [.uploaded]⟩ ∧
        w₂.server.stores.bucket (audioKey userId id) = some (.audio path) := by
    refine ⟨_, by simp only [step, hf₁, Option.bind_some]; rfl, getElem?_set_same hf₁, ?_⟩
    exact Function.update_self ..
  obtain ⟨w₃, hdeliver, hf₃, hserver⟩ : ∃ w₃, step cfg userId w₂ (.deliver i 0) = some w₃ ∧
      w₃.flows[i]? = some (.start (.driveUploadThenProcess id path) .processing) ∧
        w₃.server = w₂.server := by
    refine ⟨{ w₂.setFlow i (.start (.driveUploadThenProcess id path) .processing) with
      cache := markUploaded w₂.cache id
      files := w₂.files.filter (· ≠ path) }, ?_, getElem?_set_same hf₂, rfl⟩
    simp only [step, hf₂, Option.bind_some]
    rfl
  refine ⟨w₃, _, ?_, hf₃, rfl, by rw [hserver, hobject], rfl⟩
  exact ((Run.single trivial hbegin).tail trivial hstore).tail trivial hdeliver

/-- A report whose answer is registered. -/
def reportSchedule : List Action :=
  [.startReport "Site A" "rec-1" 5 "key-1", .send 0, .server (.step 0 {}),
    .server (.step 0 { id := "job-1" }), .answer 0 0, .deliver 0 0]

/-- A refresh as flow 2, up to but without its last page. -/
def refreshSchedule : List Action := [.refresh 9, .read 2 ["job-1"] false]

/-- The upload is done and marked, and the call of `processJob` fails. -/
def unprocessedSchedule : List Action := [.begin 1, .store 1, .deliver 1 0, .fail 1]

/-- The app is killed before the upload; the next refresh starts the drive again. -/
theorem recording_recovered_demo :
    ∃ w w' f, Run (step ServerRuns.demo "user-1") anyStep World.empty w ∧ f ∈ w.flows ∧
      f.task = .startReport "Site A" "rec-1" 5 "key-1" ∧ Interrupted w f ∧
        completes 9 w (.deliver 2 0) = true ∧
          step ServerRuns.demo "user-1" w (.deliver 2 0) = some w' ∧
            stepsRemain "user-1" w.server.stores f = true ∧ Resumed w' f "rec-1" := by
  have hend : (exec (step ServerRuns.demo "user-1") (reportSchedule ++ .kill :: refreshSchedule)
      World.empty).any (fun w => completes 9 w (.deliver 2 0) &&
        (step ServerRuns.demo "user-1" w (.deliver 2 0)).isSome &&
          w.flows.any fun f => f.task = .startReport "Site A" "rec-1" 5 "key-1" &&
            Interrupted w f && stepsRemain "user-1" w.server.stores f &&
              Resumable w f 5 9) = true := by decide
  obtain ⟨w, hw, hp⟩ := exec_any hend
  obtain ⟨hp, hflow⟩ := (Bool.and_eq_true _ _).mp hp
  obtain ⟨hdone, hstep⟩ := (Bool.and_eq_true _ _).mp hp
  obtain ⟨w', hs⟩ := Option.isSome_iff_exists.mp hstep
  obtain ⟨f, hf, hp⟩ := List.any_eq_true.mp hflow
  simp only [Bool.and_eq_true, decide_eq_true_eq] at hp
  obtain ⟨⟨⟨htask, hint⟩, hsteps⟩, hresumable⟩ := hp
  have hiff := recording_recovered ServerRuns.demo "user-1" hw hf htask hint hdone hs
  exact ⟨w, w', f, hw, hf, htask, hint, hdone, hs, hsteps, hiff.mpr (fun _ => hresumable) hsteps⟩

/-- The job whose upload is marked but whose `processJob` call failed stays CREATED: no
refresh takes it up again. -/
theorem unprocessed_job_not_resumed :
    ¬ ∀ (cfg : ServerConfig) (userId : String) (w w' : World) (a : Action) (f : Flow)
      (label path key : String) (created now : ℕ),
      Run (step cfg userId) anyStep World.empty w → f ∈ w.flows →
        f.task = .startReport label path created key → Interrupted w f →
          completes now w a = true → step cfg userId w a = some w' →
            stepsRemain userId w.server.stores f = true → Resumed w' f path := by
  intro h
  have hend : (exec (step ServerRuns.demo "user-1")
      (reportSchedule ++ unprocessedSchedule ++ refreshSchedule) World.empty).any (fun w =>
        completes 9 w (.deliver 2 0) && w.flows.any fun f =>
          f.task = .startReport "Site A" "rec-1" 5 "key-1" && Interrupted w f &&
            stepsRemain "user-1" w.server.stores f &&
              (step ServerRuns.demo "user-1" w (.deliver 2 0)).any fun w' =>
                ¬ Resumed w' f "rec-1") = true := by decide
  obtain ⟨w, hw, hp⟩ := exec_any hend
  obtain ⟨hdone, hflow⟩ := (Bool.and_eq_true _ _).mp hp
  obtain ⟨f, hf, hp⟩ := List.any_eq_true.mp hflow
  simp only [Bool.and_eq_true, Option.any_eq_true, decide_eq_true_eq] at hp
  obtain ⟨⟨⟨htask, hint⟩, hsteps⟩, w', hs, hnot⟩ := hp
  exact hnot (h ServerRuns.demo "user-1" w w' (.deliver 2 0) f "Site A" "rec-1" "key-1" 5 9 hw hf
    htask hint hdone hs hsteps)

end FieldNote.RecordingRecovery
