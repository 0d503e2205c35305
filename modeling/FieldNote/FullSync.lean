import FieldNote.CursorWalk
import FieldNote.QuietSync
import FieldNote.ThreadSteps

/-!
# A full sync when nothing else runs

`JobSyncService.refresh` walks over the pages of the user's jobs and merges them. It inserts
and updates; it does not delete what the server does not list, and it pushes nothing. So the
cache agrees with the server afterwards exactly when it held no job that is not a live job of
the user, such as one of an earlier session or one deleted elsewhere, and no unpushed edit
later than the server's row.
-/
namespace FieldNote
namespace CursorWalk
open KeysetPages

/-- The loop over the pages, with at most `n` fetches. -/
def Walk.pullAll (userId : String) (limit : ℕ) (s : Stores) : ℕ → Walk → Walk
  | 0, k => k
  | n + 1, k =>
      if k.done then k else Walk.pullAll userId limit s n (k.fetch userId limit s)

/-- On stores that do not change, `rest` is still to be pulled. -/
structure Pulls (userId : String) (limit : ℕ) (s : Stores) (k : Walk) (rest : List Job) : Prop where
  pulled : (s.liveJobs userId).map (fun job => jobToDto job none) =
    k.pulled ++ rest.map fun job => jobToDto job none
  above : ∃ above, s.liveJobs userId = above ++ rest
  done : k.done = true → rest = []
  page : k.done = false → s.listScoped userId k.cursor limit = rest.take limit

variable {userId : String} {limit : ℕ} {s : Stores} {k : Walk} {rest : List Job}

theorem pulls_start : Pulls userId limit s Walk.start (s.liveJobs userId) where
  pulled := rfl
  above := ⟨[], rfl⟩
  done := by simp [Walk.start]
  page _ := rfl

/-- A fetch pulls the beginning of what is left, and the last one all of it. -/
theorem pulls_fetch (hlimit : 0 < limit)
    (hids : ∀ row ∈ s.jobs.rows, row.userId = userId → row.id ≠ "")
    (h : Pulls userId limit s k rest) (hopen : k.done = false) :
    Pulls userId limit s (k.fetch userId limit s) (rest.drop limit) ∧
      ((k.fetch userId limit s).done = true ∨ (rest.drop limit).length < rest.length) := by
  obtain ⟨above, habove⟩ := h.above
  have hpage := h.page hopen
  have hcursor : (k.fetch userId limit s).cursor =
      if (rest.take limit).length = limit then (rest.take limit).getLast?.map Job.id else none := by
    simp [Walk.fetch, JobsService.list, hpage]
  have hdone : (k.fetch userId limit s).done = (k.fetch userId limit s).cursor.isNone := rfl
  have hpulled : (k.fetch userId limit s).pulled =
      k.pulled ++ (rest.take limit).map fun job => jobToDto job none := by
    simp [Walk.fetch, Walk.pulled, JobsService.list, hpage]
  have hsplit := List.take_append_drop limit rest
  have hnext : (s.liveJobs userId).map (fun job => jobToDto job none) =
      (k.fetch userId limit s).pulled ++ (rest.drop limit).map fun job => jobToDto job none := by
    rw [hpulled, h.pulled, List.append_assoc, ← List.map_append, hsplit]
  have hsuffix : s.liveJobs userId = (above ++ rest.take limit) ++ rest.drop limit := by
    rw [List.append_assoc, hsplit, habove]
  by_cases hfull : (rest.take limit).length = limit
  · obtain ⟨init, last, hinit, hlast⟩ := last_of_full hlimit hfull
    have hlive : last ∈ s.liveJobs userId := by
      rw [hsuffix, hinit]
      simp
    obtain ⟨hfind, huser, hundeleted⟩ := mem_liveJobs.mp hlive
    have hcur : (k.fetch userId limit s).cursor = some last.id := by
      rw [hcursor, if_pos hfull, hlast]
    have hid : last.id ≠ "" := hids last (Table.findUnique_eq_some.mp hfind).1 huser
    refine ⟨⟨hnext, ⟨_, hsuffix⟩, ?_, ?_⟩, .inr ?_⟩
    · intro hd
      rw [hdone, hcur] at hd
      cases hd
    · intro _
      have hserves : cursorServes userId s last.id = true := by
        simp [cursorServes, hfind, Job.inScope, huser, hundeleted]
      have hbelow : (s.liveJobs userId).filter (fun job => job.position < last.position) =
          rest.drop limit := by
        have hlist : s.liveJobs userId = (above ++ init) ++ last :: rest.drop limit := by
          rw [hsuffix, hinit]
          simp
        rw [hlist]
        exact (hlist ▸ liveJobs_desc s userId).filter_below
      rw [hcur, listScoped_eq hfind hid hserves]
      simp only [remaining]
      rw [hbelow]
    · rw [List.length_take] at hfull
      rw [List.length_drop]
      omega
  · have hall := take_all hfull
    have hnone : rest.drop limit = [] := by
      rw [hall] at hsplit
      simpa using hsplit
    have hlastPage : (k.fetch userId limit s).done = true := by
      rw [hdone, hcursor, if_neg hfull]
      rfl
    refine ⟨⟨hnext, ⟨_, hsuffix⟩, fun _ => hnone, ?_⟩, .inl hlastPage⟩
    intro hd
    rw [hlastPage] at hd
    cases hd

theorem pulls_all (hlimit : 0 < limit)
    (hids : ∀ row ∈ s.jobs.rows, row.userId = userId → row.id ≠ "") {n : ℕ}
    (h : Pulls userId limit s k rest) (hn : rest.length < n) :
    (Walk.pullAll userId limit s n k).done = true ∧
      (Walk.pullAll userId limit s n k).pulled =
        (s.liveJobs userId).map fun job => jobToDto job none := by
  induction n generalizing k rest with
  | zero => omega
  | succ n ih =>
      simp only [Walk.pullAll]
      split_ifs with hdone
      · refine ⟨hdone, ?_⟩
        rw [h.pulled, h.done hdone, List.map_nil, List.append_nil]
      · have hopen : k.done = false := by simpa using hdone
        obtain ⟨hnext, hless⟩ := pulls_fetch hlimit hids h hopen
        rcases hless with hlast | hless
        · have hstop : Walk.pullAll userId limit s n (k.fetch userId limit s) =
              k.fetch userId limit s := by
            cases n <;> simp [Walk.pullAll, hlast]
          rw [hstop]
          refine ⟨hlast, ?_⟩
          rw [hnext.pulled, hnext.done hlast, List.map_nil, List.append_nil]
        · exact ih hnext (by omega)

theorem liveJobs_nodup (s : Stores) (userId : String) :
    ((s.liveJobs userId).map Job.id).Nodup := by
  have hperm := List.perm_insertionSort (fun a b : Job => b.position ≤ a.position)
    (s.jobs.rows.filter fun job => job.inScope userId)
  exact (hperm.map Job.id).nodup_iff.mpr (s.jobs.nodup.sublist (List.filter_sublist.map _))

end CursorWalk

namespace FullSync
open JobsService JobStore CursorWalk

def pageLimit : ℕ := 50

/-- `refresh`: the stores and the cache after it. -/
def refresh (userId : String) (s : Stores) (cache : Cache) : Stores × Cache :=
  (s, mergePulled cache
    (Walk.pullAll userId pageLimit s (s.jobs.rows.length + 1) Walk.start).pulled)

/-- The cached jobs are the user's live jobs, each in step with the server's copy, and no later
edit has been left behind. -/
structure Converged (userId : String) (s : Stores) (cache : Cache) (s' : Stores) (cache' : Cache) :
    Prop where
  ids : ∀ id, (cache'.findUnique id).isSome ↔ id ∈ (s'.liveJobs userId).map Job.id
  mirrors : ∀ row ∈ s'.liveJobs userId, ∀ job, cache'.findUnique row.id = some job →
    job.Mirrors (jobToDto row none)
  pushed : ∀ row ∈ s.liveJobs userId, ∀ job, cache.findUnique row.id = some job →
    job.syncState = .dirty → row.updatedAt < job.updatedAt →
      ∃ row', s'.findScoped userId row.id = some row' ∧ row'.label = job.label ∧
        reportOf row'.sections = reading job.orderedTree

/-- Every cached job is a live job of the user, and no unpushed edit is later than its row. -/
structure Settled (userId : String) (s : Stores) (cache : Cache) : Prop where
  live : ∀ id job, cache.findUnique id = some job → id ∈ (s.liveJobs userId).map Job.id
  edits : ∀ row ∈ s.liveJobs userId, ∀ job, cache.findUnique row.id = some job →
    job.syncState = .dirty → job.updatedAt ≤ row.updatedAt

variable {userId : String} {s : Stores} {cache : Cache}

/-- The walk ends and pulls every live job of the user. -/
theorem refresh_eq (hids : ∀ row ∈ s.jobs.rows, row.userId = userId → row.id ≠ "") :
    (Walk.pullAll userId pageLimit s (s.jobs.rows.length + 1) Walk.start).done = true ∧
      refresh userId s cache =
        (s, mergePulled cache ((s.liveJobs userId).map fun job => jobToDto job none)) := by
  have hlength : (s.liveJobs userId).length < s.jobs.rows.length + 1 := by
    have hfilter := List.length_filter_le (fun job : Job => job.inScope userId) s.jobs.rows
    simp only [Stores.liveJobs, KeysetPages.listing, List.length_insertionSort]
    omega
  obtain ⟨hdone, hpulled⟩ := pulls_all (by decide : 0 < pageLimit) hids pulls_start hlength
  exact ⟨hdone, by rw [refresh, hpulled]⟩

theorem pulled_ids (s : Stores) (userId : String) :
    ((s.liveJobs userId).map fun job => jobToDto job none).map JobDto.id =
      (s.liveJobs userId).map Job.id := by
  simp [Function.comp_def, jobToDto]

theorem merged_live {row : Job} (hrow : row ∈ s.liveJobs userId) :
    (mergePulled cache ((s.liveJobs userId).map fun job => jobToDto job none)).findUnique row.id =
      some (received (cache.findUnique row.id) (jobToDto row none)) := by
  have hnodup : (((s.liveJobs userId).map fun job => jobToDto job none).map JobDto.id).Nodup := by
    rw [pulled_ids]
    exact liveJobs_nodup s userId
  have hdto : jobToDto row none ∈ (s.liveJobs userId).map fun job => jobToDto job none :=
    List.mem_map_of_mem hrow
  exact findUnique_mergePulled_mem hnodup hdto

theorem merged_other {id : String} (hid : id ∉ (s.liveJobs userId).map Job.id) :
    (mergePulled cache ((s.liveJobs userId).map fun job => jobToDto job none)).findUnique id =
      cache.findUnique id := by
  apply findUnique_mergePulled_other
  rwa [pulled_ids]

section Trees

open ServerRuns GuardedRuns

/-- Every stored tree is sent in the strict order of `sortOrder`, under distinct ids. -/
def OrderedTrees (s : Stores) : Prop :=
  ∀ id row, s.findById id = some row → Ordered (jobToDto row none).sections

/-- The ids of the rows that the step inserts are distinct. -/
def FreshRows (_ : ServerRuns.World) : ServerRuns.Action → Prop
  | .step _ env | .throw _ env _ _ => env.FreshRows
  | _ => True

theorem issues_rows {w : ServerRuns.World} {env : Env} {t : Thread} {id : String} {wr : Write}
    {job : Job} {rows : List ReportSection} (h : Issues w env t (.write id wr))
    (hrows : wr.newSections job = some rows) :
    ∃ sections, rows = insertSections env.rowId sections := by
  have hscoped : ∀ {userId : String} {label : Option String} {new : List ReportSection},
      (Write.replaceReportScoped userId label new).newSections job = some rows → rows = new := by
    intro userId label new hnew
    simp only [Write.newSections] at hnew
    split_ifs at hnew
    cases hnew
    rfl
  cases h with
  | update c wr pc write =>
      rcases updateWrite_eq write with ⟨label, -, -, rfl⟩ | ⟨label, sections, -, -, -, rfl⟩
      · cases hrows
      · exact ⟨_, hscoped hrows⟩
  | report b sections pc =>
      cases hrows
      exact ⟨sections, rfl⟩
  | aside _ _ haside => cases haside
  | _ => cases hrows

theorem ordered_insertSections {job : Job} {env : Env} {sections : List ReportSectionInput}
    (h : job.sections = insertSections env.rowId sections) (hfresh : env.FreshRows) :
    Ordered (jobToDto job none).sections := by
  rw [dto_insertSections h]
  exact ordered_wireTree hfresh sections

theorem orderedTrees_issued {w : ServerRuns.World} {env : Env} {t : Thread} {op : Op} (now : ℕ)
    (h : OrderedTrees w.stores) (hissues : Issues w env t op) (hfresh : env.FreshRows) :
    OrderedTrees (w.stores.run now op) := by
  intro id row hrow
  rcases Stores.run_row_before hrow with hbefore | ⟨wr, job, rfl, hbefore, rfl⟩ | ⟨rfl, -, -⟩
  · exact h id row hbefore
  · have hsections := wr.apply_sections now job
    cases hnew : wr.newSections job with
    | none =>
        rw [hnew, Option.getD_none] at hsections
        simpa [jobToDto, hsections] using h id job hbefore
    | some rows =>
        obtain ⟨sections, rfl⟩ := issues_rows hissues hnew
        rw [hnew, Option.getD_some] at hsections
        exact ordered_insertSections hsections hfresh
  · cases hissues with
    | create c =>
        have hnil : (draft env c).sections = insertSections env.rowId [] := rfl
        exact ordered_insertSections hnil hfresh
    | aside _ _ haside => cases haside

/-- Whatever the server does, its trees stay in order. -/
theorem orderedTrees_run {cfg : ServerConfig} {w w' : ServerRuns.World}
    (h : OrderedTrees w.stores) (hrun : Run (ServerRuns.step cfg) FreshRows w w') :
    OrderedTrees w'.stores := by
  refine hrun.invariant (I := fun w => OrderedTrees w.stores) h ?_
  intro w a w' h hfresh hs
  cases step_effect hs with
  | stepped i env t t' op spawned thread next =>
      exact orderedTrees_issued env.now h (next_issues next) hfresh
  | lost i env e t t' t₁ op spawned thread throws next =>
      exact orderedTrees_issued env.now h (next_issues next) hfresh
  | _ => exact h

end Trees

/-- A full sync converges exactly from a settled cache. -/
theorem full_sync_converges (hids : ∀ row ∈ s.jobs.rows, row.userId = userId → row.id ≠ "")
    (htrees : OrderedTrees s) (hunique : Unique cache) :
    Converged userId s cache (refresh userId s cache).1 (refresh userId s cache).2 ↔
      Settled userId s cache := by
  rw [(refresh_eq hids).2]
  have hordered : ∀ row ∈ s.liveJobs userId, Ordered (jobToDto row none).sections :=
    fun row hrow => htrees row.id row (mem_liveJobs.mp hrow).1
  constructor
  · intro h
    constructor
    · intro id job hjob
      by_contra hid
      have hsome : ((mergePulled cache ((s.liveJobs userId).map fun job =>
          jobToDto job none)).findUnique id).isSome := by
        rw [merged_other hid, hjob]
        rfl
      exact hid ((h.ids id).mp hsome)
    · intro row hrow job hjob hdirty
      have hadopted : (mergePulled cache ((s.liveJobs userId).map fun job =>
          jobToDto job none)).findUnique row.id =
            some (received (cache.findUnique row.id) (jobToDto row none)) := merged_live hrow
      rw [hjob] at hadopted
      have hmirrors := h.mirrors row hrow _ hadopted
      have hlost := (mirrors_adopt (hunique row.id job hjob) (hordered row hrow)).mp hmirrors
      exact localWins_eq_false.mp hlost hdirty
  · intro h
    constructor
    · intro id
      constructor
      · intro hsome
        by_contra hid
        rw [merged_other hid] at hsome
        obtain ⟨job, hjob⟩ := Option.isSome_iff_exists.mp hsome
        exact hid (h.live id job hjob)
      · intro hid
        obtain ⟨row, hrow, rfl⟩ := List.mem_map.mp hid
        rw [merged_live hrow]
        rfl
    · intro row hrow job hjob
      rw [merged_live hrow] at hjob
      cases hjob
      cases hbefore : cache.findUnique row.id with
      | none => exact mirrors_ofDto (hordered row hrow)
      | some job =>
          apply (mirrors_adopt (hunique row.id job hbefore) (hordered row hrow)).mpr
          exact localWins_eq_false.mpr (h.edits row hrow job hbefore)
    · intro row hrow job hjob hdirty hlater
      have hedit := h.edits row hrow job hjob hdirty
      omega

theorem demo_rows : ∀ row ∈ demoStores.jobs.rows, row = demoRow := by decide

theorem demo_ids : ∀ row ∈ demoStores.jobs.rows, row.userId = "user-1" → row.id ≠ "" := by decide

theorem demo_ordered : OrderedTrees demoStores := by
  intro id row hrow
  have heq := demo_rows row (Table.findUnique_eq_some.mp hrow).1
  subst heq
  exact ⟨⟨List.nodup_nil, by simp [jobToDto, demoRow, draft, sortSections]⟩, .nil,
    by simp [jobToDto, demoRow, draft, sortSections]⟩

theorem demo_unique : Unique demoPulled ∧ Unique demoCache := by
  have hempty : Unique ∅ := by
    intro id job hjob
    cases hjob
  have hpulled := unique_upsert hempty (jobToDto demoRow none)
  exact ⟨hpulled, unique_applyLocalEdits hpulled _ _ _ _⟩

/-- The cache holds the server's copy of `job-1`. -/
theorem full_sync_converges_demo : Converged "user-1" demoStores demoPulled
    (refresh "user-1" demoStores demoPulled).1 (refresh "user-1" demoStores demoPulled).2 := by
  apply (full_sync_converges demo_ids demo_ordered demo_unique.1).mpr
  have hcached : ∀ id job, demoPulled.findUnique id = some job →
      id = "job-1" ∧ job.syncState = .synced := by
    intro id job hjob
    rw [demoPulled, findUnique_upsert] at hjob
    split_ifs at hjob with hid
    · cases hjob
      exact ⟨hid, rfl⟩
    · cases hjob
  constructor
  · intro id job hjob
    rw [(hcached id job hjob).1]
    decide
  · intro row _ job hjob hdirty
    rw [(hcached row.id job hjob).2] at hdirty
    cases hdirty

/-- An edit that is later than the server's row stays dirty and is not pushed. -/
theorem edit_left_behind :
    ¬ ∀ (userId : String) (s : Stores) (cache : Cache),
      (∀ row ∈ s.jobs.rows, row.userId = userId → row.id ≠ "") → OrderedTrees s → Unique cache →
        Converged userId s cache (refresh userId s cache).1 (refresh userId s cache).2 := by
  intro h
  have hconverged := h "user-1" demoStores demoCache demo_ids demo_ordered demo_unique.2
  have hrow : demoRow ∈ demoStores.liveJobs "user-1" := by decide
  obtain ⟨row', hrow', hlabel, -⟩ := hconverged.pushed demoRow hrow demoJob demoJob_cached rfl
    (by decide)
  have hserver : (demoStores.findScoped "user-1" demoRow.id).map Job.label = some "Site A" := by
    decide
  rw [refresh] at hrow'
  rw [hrow', Option.map_some, hlabel] at hserver
  exact absurd hserver (by decide)

end FullSync
end FieldNote
