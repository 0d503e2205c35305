import FieldNote.GuardedRuns
import FieldNote.JobSyncService

/-!
# How long a local edit stays

The cache resolves conflicts by `updatedAt`: an edit carries the device's instant, a server
copy that of the last write of the row by the server's clock, and a copy that is not older
than the edit replaces it, pushed or not. The theorem says that nothing else does: an edit
stays, dirty, through every step that is not a later edit or the deletion of the job on the
device and applies no such copy.
-/
namespace FieldNote.LocalEdits
open JobStore JobsService JobSyncService GuardedRuns

def edits (jobId : String) : Action → Bool
  | .saveEdits id _ _ _ => id = jobId
  | _ => false

/-- No later edit and no deletion of the job on the device. -/
def NoEdit (jobId : String) (w : World) (a : Action) : Prop :=
  edits jobId a = false ∧ deletes jobId w a = false

/-- Moreover every applied copy of the job is older than the instant of the edit. -/
def Guard (jobId : String) (now : ℕ) (w : World) (a : Action) : Prop :=
  NoEdit jobId w a ∧ ∀ dto ∈ applied w a, dto.id = jobId → dto.updatedAt < now

instance (jobId : String) : DecidableRel (NoEdit jobId) :=
  fun _ _ => inferInstanceAs (Decidable (_ ∧ _))

instance (jobId : String) (now : ℕ) : DecidableRel (Guard jobId now) :=
  fun _ _ => inferInstanceAs (Decidable (_ ∧ _))

variable {cfg : ServerConfig} {userId : String} {w w' : World} {cache : Cache}
variable {jobId label : String} {tree : List SectionDto} {now : ℕ}

/-- The cache holds the edit, and it is not pushed. -/
def Holds (cache : Cache) (jobId label : String) (tree : List SectionDto) (now : ℕ) : Prop :=
  ∃ job, cache.findUnique jobId = some job ∧ job.label = label ∧ job.sections = tree ∧
    job.updatedAt = now ∧ job.syncState = .dirty

/-- An older copy changes only the server's fields of an edited job. -/
theorem adopt_older {dto : JobDto} {job : CachedJob} (hdirty : job.syncState = .dirty)
    (hold : dto.updatedAt < job.updatedAt) :
    (job.adopt dto).label = job.label ∧ (job.adopt dto).sections = job.sections ∧
      (job.adopt dto).updatedAt = job.updatedAt ∧ (job.adopt dto).syncState = .dirty := by
  simp [CachedJob.adopt, CachedJob.localWins, hdirty, hold]

theorem holds_upsert {dto : JobDto} (h : Holds cache jobId label tree now)
    (hold : dto.id = jobId → dto.updatedAt < now) :
    Holds (upsert cache dto) jobId label tree now := by
  obtain ⟨job, hjob, hlabel, htree, hnow, hdirty⟩ := h
  by_cases hid : jobId = dto.id
  · subst hid
    subst hnow
    obtain ⟨hl, hs, hu, hd⟩ := adopt_older hdirty (hold rfl)
    refine ⟨job.adopt dto, ?_, hl.trans hlabel, hs.trans htree, hu, hd⟩
    simp [findUnique_upsert, hjob]
  · exact ⟨job, by simp [findUnique_upsert, hid, hjob], hlabel, htree, hnow, hdirty⟩

theorem holds_mergePulled {dtos : List JobDto} (h : Holds cache jobId label tree now)
    (hold : ∀ dto ∈ dtos, dto.id = jobId → dto.updatedAt < now) :
    Holds (mergePulled cache dtos) jobId label tree now := by
  induction dtos generalizing cache with
  | nil => exact h
  | cons dto rest ih =>
      have hfirst : Holds (upsert cache dto) jobId label tree now :=
        holds_upsert h (hold dto (by simp))
      apply ih hfirst
      intro d hd
      exact hold d (by simp [hd])

/-- An update of rows that leaves the label, the tree and the sync fields. -/
theorem holds_update {id : String} {f : CachedJob → CachedJob} {hf : ∀ job, (f job).id = job.id}
    (h : Holds cache jobId label tree now)
    (hkeep : ∀ job, id = jobId → (f job).label = job.label ∧ (f job).sections = job.sections ∧
      (f job).updatedAt = job.updatedAt ∧ (f job).syncState = job.syncState) :
    Holds (cache.update id f hf) jobId label tree now := by
  obtain ⟨job, hjob, hlabel, htree, hnow, hdirty⟩ := h
  by_cases hid : jobId = id
  · obtain ⟨hl, hs, hu, hd⟩ := hkeep job hid.symm
    refine ⟨f job, ?_, hl.trans hlabel, hs.trans htree, hu.trans hnow, hd.trans hdirty⟩
    simp [hid ▸ hjob, hid]
  · exact ⟨job, by simp [hid, hjob], hlabel, htree, hnow, hdirty⟩

theorem holds_step {a : Action} (h : Holds w.cache jobId label tree now)
    (hg : Guard jobId now w a) (hs : step cfg userId w a = some w') :
    Holds w'.cache jobId label tree now := by
  obtain ⟨⟨hedits, hdeletes⟩, hold⟩ := hg
  have heffect := step_cache hs
  generalize w'.cache = cache' at heffect
  cases heffect with
  | same => exact h
  | merged dtos hcopies => exact holds_mergePulled h (hcopies ▸ hold)
  | registered response path instant hcopies =>
      have hup : Holds (upsert w.cache response.job) jobId label tree now :=
        holds_upsert h (hold response.job (by simp [hcopies]))
      exact holds_update hup fun job _ => ⟨rfl, rfl, rfl, rfl⟩
  | marked id => exact holds_update h fun job _ => ⟨rfl, rfl, rfl, rfl⟩
  | edited id l sections instant action =>
      subst action
      have hne : id ≠ jobId := by simpa [edits] using hedits
      exact holds_update h fun job hid => (hne hid).elim
  | deleted id hdel =>
      have hne : jobId ≠ id := by
        rintro rfl
        rw [hdeletes] at hdel
        cases hdel
      obtain ⟨job, hjob, hrest⟩ := h
      exact ⟨job, by simp [hne, hjob], hrest⟩

/-- An edit stays in the cache, dirty, until a later edit or the deletion of the job on the
device, or until a server copy is applied that is not older than the edit. -/
theorem edit_kept (cfg : ServerConfig) (userId : String) {w w₁ w₂ : World} {jobId label : String}
    {sections : List SectionDto} {now : ℕ} {job : CachedJob}
    (hjob : w.cache.findUnique jobId = some job)
    (hstep : step cfg userId w (.saveEdits jobId label sections now) = some w₁)
    (hrun : Run (step cfg userId) (Guard jobId now) w₁ w₂) :
    ∃ job₂, w₂.cache.findUnique jobId = some job₂ ∧ job₂.label = label ∧
      job₂.sections = syncSections job.sections sections ∧ job₂.updatedAt = now ∧
        job₂.syncState = .dirty := by
  have hedited : Holds (applyLocalEdits w.cache jobId label sections now) jobId label
      (syncSections job.sections sections) now := by
    refine ⟨job.edit label sections now, ?_, rfl, rfl, rfl, rfl⟩
    rw [applyLocalEdits, Table.findUnique_update, if_pos rfl, hjob, Option.map_some]
  have hfirst : Holds w₁.cache jobId label (syncSections job.sections sections) now := by
    simp only [step] at hstep
    split at hstep <;> cases hstep <;> exact hedited
  exact hrun.invariant hfirst fun _ _ _ hi hg hs => holds_step hi hg hs

/-- The server has committed a PATCH of the job with this body. -/
def Accepted (server : ServerRuns.World) (jobId : String) (body : UpdateJobDto) : Prop :=
  ∃ c, ServerRuns.Thread.update c ∈ server.threads ∧ c.jobId = jobId ∧ c.dto = body ∧
    (c.pc = .findOne ∨ ∃ dto, c.pc = .returned dto)

def isUpdate : ServerRuns.Thread → Bool
  | .update _ => true
  | .create _ | .process _ | .remove _ | .attempt _ | .body _ | .handler _ => false

/-- `job-1`, created at instant 1, is pulled into the cache. -/
def pullSchedule : List Action :=
  [.server (.call (.create "user-1" "Site A" none)),
    .server (.step 0 { id := "job-1", now := 1 }), .refresh 0, .read 0 ["job-1"] false,
    .deliver 0 0]

/-- The push of an edit fails, and a poll answers with the server's copy. -/
def pollSchedule : List Action :=
  [.fail 1, .poll "job-1", .read 2 [] false, .deliver 2 0]

/-- The upload and a `process` call, which updates the row at instant 20. -/
def processSchedule : List Action :=
  [.server (.upload "user-1" "job-1" "recording"), .server (.call (.process "user-1" "job-1")),
    .server (.step 1 {}), .server (.step 1 {}), .server (.step 1 { now := 20 })]

/-- An edit at instant 10 outlives a failed push and a poll. -/
theorem edit_kept_demo :
    ∃ w w₁ w₂ job₂, Run (step ServerRuns.demo "user-1") anyStep World.empty w ∧
      step ServerRuns.demo "user-1" w (.saveEdits "job-1" "Site B" [] 10) = some w₁ ∧
        Run (step ServerRuns.demo "user-1") (Guard "job-1" 10) w₁ w₂ ∧
          w₂.flows.length = 3 ∧ w₂.cache.findUnique "job-1" = some job₂ ∧
            job₂.label = "Site B" ∧ job₂.syncState = .dirty := by
  have hend : (exec (step ServerRuns.demo "user-1") pullSchedule World.empty).any (fun w =>
      (w.cache.findUnique "job-1").isSome &&
        (step ServerRuns.demo "user-1" w (.saveEdits "job-1" "Site B" [] 10)).any fun w₁ =>
          (execWhere (step ServerRuns.demo "user-1") (Guard "job-1" 10) pollSchedule w₁).any
            fun w₂ => w₂.flows.length = 3) = true := by decide
  obtain ⟨w, hw, hp⟩ := exec_any hend
  obtain ⟨hjob, hnext⟩ := (Bool.and_eq_true _ _).mp hp
  obtain ⟨job, hjob⟩ := Option.isSome_iff_exists.mp hjob
  obtain ⟨w₁, hstep, hnext⟩ := (Option.any_eq_true _ _).mp hnext
  obtain ⟨w₂, hrun, hlen⟩ := execWhere_any hnext
  obtain ⟨job₂, hjob₂, hlabel, -, -, hdirty⟩ :=
    edit_kept ServerRuns.demo "user-1" hjob hstep hrun
  exact ⟨w, w₁, w₂, job₂, hw, hstep, hrun, of_decide_eq_true hlen, hjob₂, hlabel, hdirty⟩

/-- The edit is lost to a status update of the server, although no PATCH was accepted and the
job was not edited again. -/
theorem status_update_discards_edit :
    ¬ ∀ (cfg : ServerConfig) (userId : String) (w w₁ w₂ : World) (jobId label : String)
      (sections : List SectionDto) (now : ℕ) (job₁ : CachedJob),
      Run (step cfg userId) anyStep World.empty w →
        step cfg userId w (.saveEdits jobId label sections now) = some w₁ →
          w₁.cache.findUnique jobId = some job₁ →
            Run (step cfg userId) (NoEdit jobId) w₁ w₂ →
              ¬ Accepted w₂.server jobId (updateRequest job₁) →
                ∃ job₂, w₂.cache.findUnique jobId = some job₂ ∧ job₂.label = label := by
  intro h
  have hend : (exec (step ServerRuns.demo "user-1") pullSchedule World.empty).any (fun w =>
      (step ServerRuns.demo "user-1" w (.saveEdits "job-1" "Site B" [] 10)).any fun w₁ =>
        (w₁.cache.findUnique "job-1").isSome &&
          (execWhere (step ServerRuns.demo "user-1") (NoEdit "job-1")
            (processSchedule ++ pollSchedule) w₁).any fun w₂ =>
              w₂.server.threads.all (fun t => !isUpdate t) &&
              (w₂.cache.findUnique "job-1").any fun job₂ => job₂.label = "Site A") = true := by
    decide
  obtain ⟨w, hw, hp⟩ := exec_any hend
  obtain ⟨w₁, hstep, hp⟩ := (Option.any_eq_true _ _).mp hp
  obtain ⟨hjob₁, hp⟩ := (Bool.and_eq_true _ _).mp hp
  obtain ⟨job₁, hjob₁⟩ := Option.isSome_iff_exists.mp hjob₁
  obtain ⟨w₂, hrun, hp⟩ := execWhere_any hp
  obtain ⟨hnone, hlost⟩ := (Bool.and_eq_true _ _).mp hp
  have hrejected : ¬ Accepted w₂.server "job-1" (updateRequest job₁) := by
    rintro ⟨c, hc, -⟩
    have hc' := List.all_eq_true.mp hnone _ hc
    cases hc'
  obtain ⟨job₂, hjob₂, hlabel⟩ :=
    h ServerRuns.demo "user-1" w w₁ w₂ "job-1" "Site B" [] 10 job₁ hw hstep hjob₁ hrun hrejected
  simp [hjob₂, hlabel] at hlost

end FieldNote.LocalEdits
