import FieldNote.SyncedTrees

/-!
# Server copies of a job without local edits

List pages, polls and responses for one job are awaited independently, so they may be applied
in any order and more than once. A job without local edits takes over whatever copy comes,
also one that is older than its own: the copy applied last stays, and this is the latest
version only when the latest version is applied last.
-/
namespace FieldNote.SnapshotOrder
open JobStore

/-- Copies of one job. -/
structure Snapshots (jobId : String) (copies : List JobDto) : Prop where
  id : ∀ c ∈ copies, c.id = jobId
  ordered : ∀ c ∈ copies, Ordered c.sections

/-- Two copies of one version. The link to the PDF is no part of it: a list page leaves it out
and every other answer signs a new one. -/
def SameVersion (c d : JobDto) : Prop :=
  { c with pdfUrl := none } = { d with pdfUrl := none }

instance (c d : JobDto) : Decidable (SameVersion c d) :=
  inferInstanceAs (Decidable (_ = _))

/-- `updatedAt` increases with the server's version. -/
def VersionStamps (copies : List JobDto) : Prop :=
  ∀ c ∈ copies, ∀ d ∈ copies, c.updatedAt = d.updatedAt → SameVersion c d

/-- The job shows the copy's version, with whatever link it has. -/
def Shows (job : CachedJob) (copy : JobDto) : Prop :=
  job.Mirrors { copy with pdfUrl := job.pdfUrl }

/-- The job has no local edits, or is not cached at all. -/
def NoLocalEdits (cache : Cache) (jobId : String) : Prop :=
  ∀ job ∈ cache.findUnique jobId, job.syncState = .synced ∧ UniqueIds job.sections

variable {cache : Cache} {jobId : String} {copies : List JobDto} {last : JobDto}

theorem noLocalEdits_upsert {copy : JobDto} (h : NoLocalEdits cache jobId) (hid : copy.id = jobId)
    (hcopy : Ordered copy.sections) :
    NoLocalEdits (upsert cache copy) jobId ∧
      ∃ job, (upsert cache copy).findUnique jobId = some job ∧ job.Mirrors copy := by
  subst hid
  have hafter : (upsert cache copy).findUnique copy.id =
      some (received (cache.findUnique copy.id) copy) := by
    simp [findUnique_upsert, received]
  have hmirrors : (received (cache.findUnique copy.id) copy).Mirrors copy :=
    mirrors_received h hcopy
  refine ⟨?_, _, hafter, hmirrors⟩
  intro job hjob
  rw [hafter] at hjob
  cases hjob
  exact ⟨hmirrors.synced, uniqueIds_received (fun j hj => (h j hj).2) copy⟩

/-- The job mirrors the copy that was applied last. -/
theorem mirrors_last (h : NoLocalEdits cache jobId) (hcopies : Snapshots jobId copies)
    (hlast : copies.getLast? = some last) :
    ∃ job, (mergePulled cache copies).findUnique jobId = some job ∧ job.Mirrors last := by
  induction copies generalizing cache with
  | nil => cases hlast
  | cons first rest ih =>
      obtain ⟨hnext, hfirst⟩ := noLocalEdits_upsert h (hcopies.id first (by simp))
        (hcopies.ordered first (by simp))
      cases rest with
      | nil =>
          cases hlast
          exact hfirst
      | cons second rest =>
          apply ih hnext _ (by simpa using hlast)
          constructor
          · intro c hc
            exact hcopies.id c (List.mem_cons_of_mem _ hc)
          · intro c hc
            exact hcopies.ordered c (List.mem_cons_of_mem _ hc)

theorem shows_of_mirrors {job : CachedJob} {c d : JobDto} (h : job.Mirrors c)
    (hsame : SameVersion c d) : Shows job d := by
  obtain ⟨cid, clabel, cstatus, ctranscript, cerror, csections, curl, ccreated, cupdated⟩ := c
  obtain ⟨did, dlabel, dstatus, dtranscript, derror, dsections, durl, dcreated, dupdated⟩ := d
  simp only [SameVersion, JobDto.mk.injEq, true_and] at hsame
  obtain ⟨-, rfl, rfl, rfl, rfl, rfl, -, rfl⟩ := hsame
  exact ⟨h.synced, h.label, h.updatedAt, h.status, h.transcript, h.errorMessage, rfl, h.tree⟩

/-- The copy applied last stays, link included, whatever the stamps are. Where these increase
with the version, a version stays exactly when one of its copies is the one applied last. -/
theorem last_applied_stays (h : NoLocalEdits cache jobId) (hcopies : Snapshots jobId copies)
    (hlast : copies.getLast? = some last) :
    (∃ job, (mergePulled cache copies).findUnique jobId = some job ∧ job.Mirrors last) ∧
      (VersionStamps copies → ∀ copy ∈ copies,
        (∃ job, (mergePulled cache copies).findUnique jobId = some job ∧ Shows job copy) ↔
          last.updatedAt = copy.updatedAt) := by
  obtain ⟨job, hjob, hmirrors⟩ := mirrors_last h hcopies hlast
  refine ⟨⟨job, hjob, hmirrors⟩, ?_⟩
  intro hversions copy hcopy
  constructor
  · rintro ⟨job', hjob', hshows⟩
    rw [hjob] at hjob'
    cases hjob'
    exact hmirrors.updatedAt.symm.trans hshows.updatedAt
  · intro hsame
    have hversion := hversions last (List.mem_of_getLast? hlast) copy hcopy hsame
    exact ⟨job, hjob, shows_of_mirrors hmirrors hversion⟩

/-- The version of `job-1` at an instant. -/
def demoCopy (status : JobStatus) (pdfUrl : Option String) (now : ℕ) : JobDto where
  id := "job-1"
  label := "Site A"
  status := status
  transcript := none
  errorMessage := none
  sections := []
  pdfUrl := pdfUrl
  createdAt := 1
  updatedAt := now

/-- A poll of the READY job, the list page with the same version and a poll read before. -/
def demoCopies : List JobDto :=
  [demoCopy .READY (some "https://s3/pdf") 3, demoCopy .READY none 3, demoCopy .COMPILING none 2]

theorem demo_snapshots : Snapshots "job-1" demoCopies := by
  constructor
  · decide
  · intro c hc
    simp only [demoCopies, List.mem_cons, List.not_mem_nil, or_false] at hc
    rcases hc with rfl | rfl | rfl <;>
      exact ⟨⟨List.nodup_nil, by simp [demoCopy]⟩, .nil, by simp [demoCopy]⟩

theorem demo_versions : VersionStamps demoCopies := by
  unfold VersionStamps
  decide

theorem noLocalEdits_empty : NoLocalEdits ∅ "job-1" := by
  intro job hjob
  cases hjob

/-- The answer that was read before the job was READY is applied last. -/
theorem last_applied_stays_demo :
    (∃ job, (mergePulled ∅ demoCopies).findUnique "job-1" = some job ∧
      job.Mirrors (demoCopy .COMPILING none 2)) ∧
      ∀ copy ∈ demoCopies,
        (∃ job, (mergePulled ∅ demoCopies).findUnique "job-1" = some job ∧ Shows job copy) ↔
          (demoCopy .COMPILING none 2).updatedAt = copy.updatedAt := by
  obtain ⟨hmirrors, hversions⟩ := last_applied_stays noLocalEdits_empty demo_snapshots rfl
  exact ⟨hmirrors, hversions demo_versions⟩

/-- The order matters: an older copy applied last moves the job backwards. -/
theorem older_copy_moves_back :
    ¬ ∀ (cache : Cache) (jobId : String) (copies : List JobDto) (greatest : JobDto),
      NoLocalEdits cache jobId → Snapshots jobId copies → VersionStamps copies →
        greatest ∈ copies → (∀ c ∈ copies, c.updatedAt ≤ greatest.updatedAt) →
          ∃ job, (mergePulled cache copies).findUnique jobId = some job ∧
            job.label = greatest.label ∧ job.orderedTree = greatest.sections ∧
              job.status = greatest.status ∧ job.updatedAt = greatest.updatedAt := by
  intro h
  obtain ⟨job, hjob, -, -, hstatus, -⟩ := h ∅ "job-1" demoCopies (demoCopy .READY none 3)
    noLocalEdits_empty demo_snapshots demo_versions (by decide) (by decide)
  have hback : ((mergePulled ∅ demoCopies).findUnique "job-1").map CachedJob.status =
      some .COMPILING := by decide
  rw [hjob, Option.map_some, hstatus] at hback
  cases hback

end FieldNote.SnapshotOrder
