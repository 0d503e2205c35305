import FieldNote.QuietSync

/-!
# The acknowledgement of a pushed edit

The response of a PATCH goes through the comparison of timestamps that protects unpushed
edits: the edit carries the device's instant, the response the server's. With the device's
clock ahead of the server's the accepted edit stays dirty and the next pull is refused, so a
push is acknowledged exactly when the server's instant is not before that of the edit.
-/
namespace FieldNote.PushAcknowledged
open JobsService JobStore JobSyncService

/-- The job mirrors the response, and adopts whatever copy the next pull brings. -/
def Acknowledged (cache : Cache) (jobId : String) (copy : JobDto) : Prop :=
  ∃ job, cache.findUnique jobId = some job ∧ job.Mirrors copy ∧
    ∀ (pulled : List JobDto) (later : JobDto), (pulled.map JobDto.id).Nodup → later ∈ pulled →
      later.id = jobId → Ordered later.sections →
        ∃ job', (mergePulled cache pulled).findUnique jobId = some job' ∧ job'.Mirrors later

variable {env : Env} {s s' : Stores} {cache : Cache} {userId jobId : String} {job : CachedJob}
  {copy : JobDto}

/-- The next pull is adopted by a job without local edits. -/
theorem pull_adopted (hjob : cache.findUnique jobId = some job) (hsynced : job.syncState = .synced)
    (hids : UniqueIds job.sections) {pulled : List JobDto} {later : JobDto}
    (hpulled : (pulled.map JobDto.id).Nodup) (hlater : later ∈ pulled) (hid : later.id = jobId)
    (hdto : Ordered later.sections) :
    ∃ job', (mergePulled cache pulled).findUnique jobId = some job' ∧ job'.Mirrors later := by
  subst hid
  refine ⟨_, findUnique_mergePulled_mem hpulled hlater, mirrors_received ?_ hdto⟩
  intro j hj
  rw [hjob] at hj
  cases hj
  exact ⟨hsynced, hids⟩

theorem acknowledged_iff (hids : UniqueIds job.sections)
    (hjob : cache.findUnique jobId = some job) (hcopy : copy.id = jobId)
    (hdto : Ordered copy.sections) :
    Acknowledged (upsert cache copy) jobId copy ↔ job.localWins copy = false := by
  have hafter : (upsert cache copy).findUnique jobId = some (job.adopt copy) := by
    simp [findUnique_upsert, hcopy, hjob]
  constructor
  · rintro ⟨job', hjob', hmirrors, -⟩
    rw [hafter] at hjob'
    cases hjob'
    exact (mirrors_adopt hids hdto).mp hmirrors
  · intro hlost
    have hmirrors := (mirrors_adopt hids hdto).mpr hlost
    refine ⟨job.adopt copy, hafter, hmirrors, ?_⟩
    intro pulled later hpulled hlater hid hsections
    exact pull_adopted hafter hmirrors.synced (uniqueIds_adopt hids copy) hpulled hlater hid
      hsections

/-- A push that succeeds is acknowledged exactly when the server's clock, at the PATCH, is not
behind the device's at the edit. -/
theorem push_acknowledged (cfg : ServerConfig) (hrows : env.FreshRows)
    (hids : UniqueIds job.sections) (hjob : cache.findUnique jobId = some job)
    (hdirty : job.syncState = .dirty)
    (hpatch : patch cfg env s userId jobId (updateRequest job) = some (s', copy)) :
    Acknowledged (pushEdits cfg env userId s cache jobId).2 jobId copy ↔
      job.updatedAt ≤ env.now := by
  have hpushed : (pushEdits cfg env userId s cache jobId).2 = upsert cache copy := by
    simp [pushEdits, hjob, hpatch]
  obtain ⟨hid, -, hnow, hsections, -⟩ := push_spec hpatch
  have hdto : Ordered copy.sections := hsections ▸ ordered_wireTree hrows _
  rw [hpushed, acknowledged_iff hids hjob hid hdto]
  simp [localWins_eq_false, hdirty, hnow]

theorem demo_patched (now : ℕ) : ∃ s' copy, patch ServerRuns.demo (demoEnv now) demoStores "user-1"
    "job-1" (updateRequest demoJob) = some (s', copy) := by
  have h : (patch ServerRuns.demo (demoEnv now) demoStores "user-1" "job-1"
      (updateRequest demoJob)).isSome = true := by rfl
  obtain ⟨⟨s', copy⟩, hcopy⟩ := Option.isSome_iff_exists.mp h
  exact ⟨s', copy, hcopy⟩

/-- The server's clock is ahead. -/
theorem push_acknowledged_demo : ∃ s' copy,
    patch ServerRuns.demo (demoEnv 20) demoStores "user-1" "job-1" (updateRequest demoJob) =
      some (s', copy) ∧
    Acknowledged (pushEdits ServerRuns.demo (demoEnv 20) "user-1" demoStores demoCache "job-1").2
      "job-1" copy := by
  obtain ⟨s', copy, hpatch⟩ := demo_patched 20
  have hiff := push_acknowledged ServerRuns.demo (demoEnv_fresh 20) demoJob_unique demoJob_cached
    rfl hpatch
  exact ⟨s', copy, hpatch, hiff.mpr (by decide)⟩

/-- The device's clock is ahead: the accepted edit stays dirty. -/
theorem clock_ahead_stays_dirty :
    ¬ ∀ (cfg : ServerConfig) (env : Env) (userId : String) (s s' : Stores) (cache : Cache)
      (jobId : String) (job : CachedJob) (copy : JobDto),
      env.FreshRows → UniqueIds job.sections → cache.findUnique jobId = some job →
        job.syncState = .dirty →
          patch cfg env s userId jobId (updateRequest job) = some (s', copy) →
            Acknowledged (pushEdits cfg env userId s cache jobId).2 jobId copy := by
  intro h
  obtain ⟨s', copy, hpatch⟩ := demo_patched 5
  obtain ⟨job, hjob, hmirrors, -⟩ := h ServerRuns.demo (demoEnv 5) "user-1" demoStores s' demoCache
    "job-1" demoJob copy (demoEnv_fresh 5) demoJob_unique demoJob_cached rfl hpatch
  have hdirty : ((pushEdits ServerRuns.demo (demoEnv 5) "user-1" demoStores demoCache
      "job-1").2.findUnique "job-1").map CachedJob.syncState = some .dirty := by decide
  rw [hjob, Option.map_some, hmirrors.synced] at hdirty
  cases hdirty

end FieldNote.PushAcknowledged
