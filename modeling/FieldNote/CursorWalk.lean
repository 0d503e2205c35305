import FieldNote.GuardedRuns
import FieldNote.JobListing

/-!
# The walk over the pages of a user's jobs

A client fetches page after page while the server goes on: between two fetches any operation
may run on the stores. New jobs sort above the existing ones. The page after a cursor skips
the first row at or after its position, which is the cursor itself as long as the cursor is
live; the guard asks for that, or for a page that is empty anyway.
-/
namespace FieldNote.CursorWalk
open GuardedRuns KeysetPages

/-- One fetch, with what was live when it ran. -/
structure Fetch where
  live : List Job
  page : JobPage

/-- The loop of `JobSyncService.refresh`. -/
structure Walk where
  cursor : Option String
  done : Bool
  log : List Fetch

def Walk.start : Walk := ⟨none, false, []⟩

/-- The items the loop has pulled. -/
def Walk.pulled (k : Walk) : List JobDto := k.log.flatMap fun f => f.page.items

structure World where
  stores : Stores
  walk : Walk

inductive Action where
  | run (now : ℕ) (op : Op)
  | fetch

section
variable (userId : String) (limit : ℕ)

def Walk.fetch (s : Stores) (k : Walk) : Walk :=
  let page := JobsService.list s userId k.cursor limit
  ⟨page.nextCursor, page.nextCursor.isNone, k.log ++ [⟨s.liveJobs userId, page⟩]⟩

def step (w : World) : Action → Option World
  | .run now op => some { w with stores := w.stores.run now op }
  | .fetch =>
      if w.walk.done then none else some { w with walk := w.walk.fetch userId limit w.stores }

/-- The row of the cursor is live, or nothing is left below its position. -/
def cursorServes (s : Stores) (cursor : String) : Bool :=
  match s.findById cursor with
  | some row => row.inScope userId ||
      (s.liveJobs userId).all fun job => decide (row.position ≤ job.position)
  | none => false

/-- A new job of the user sorts above its others, and its id is not empty. -/
def newAbove (w : World) : Action → Bool
  | .run _ (.insertJob job) => decide (job.userId ≠ userId) || decide (job.id ≠ "") &&
      w.stores.jobs.rows.all fun row => decide (row.userId = userId → row.position < job.position)
  | _ => true

/-- The cursor serves when a page is fetched. -/
def serves (w : World) : Action → Bool
  | .fetch => w.walk.cursor.all fun cursor => cursorServes userId w.stores cursor
  | _ => true

def NewAbove (w : World) (a : Action) : Prop := newAbove userId w a = true

instance : DecidableRel (NewAbove userId) := fun _ _ => inferInstanceAs (Decidable (_ = true))

def Guard (w : World) (a : Action) : Prop := NewAbove userId w a ∧ serves userId w a = true

instance : DecidableRel (Guard userId) := fun _ _ => inferInstanceAs (Decidable (_ ∧ _))

end

/-- The job was live at every fetch. -/
def Walk.LiveThroughout (k : Walk) (jobId : String) : Prop :=
  ∀ f ∈ k.log, jobId ∈ f.live.map Job.id

variable {userId : String} {limit : ℕ} {s s' : Stores} {k : Walk} {w w' : World}

theorem apply_position (now : ℕ) (job : Job) (wr : Write) :
    (wr.apply now job).position = job.position := by
  cases wr <;> simp only [Write.apply, Job.position] <;> split_ifs <;> rfl

theorem mem_liveJobs {job : Job} : job ∈ s.liveJobs userId ↔
    s.findById job.id = some job ∧ job.userId = userId ∧ job.deletedAt = none := by
  unfold Stores.liveJobs
  rw [mem_listing, List.mem_filter]
  simp only [Stores.findById, Table.findUnique_eq_some, Job.inScope, Bool.and_eq_true,
    decide_eq_true_eq, Option.isNone_iff_eq_none, and_true]

theorem position_id {a b : Job} (h : a.position = b.position) : a.id = b.id :=
  congrArg (fun p => (ofLex p).2) h

theorem liveJobs_desc (s : Stores) (userId : String) : Desc Job.position (s.liveJobs userId) := by
  apply listing_desc
  have hids : ((s.jobs.rows.filter fun job => job.inScope userId).map Job.id).Nodup :=
    s.jobs.nodup.sublist (List.filter_sublist.map _)
  rw [List.nodup_iff_pairwise_ne, List.pairwise_map] at hids ⊢
  exact hids.imp fun hne heq => hne (position_id heq)

/-- What a page is cut from: everything, or the rows below the cursor. -/
def remaining (s : Stores) (userId : String) (cursor : Option Job) : List Job :=
  match cursor with
  | none => s.liveJobs userId
  | some row => (s.liveJobs userId).filter fun job => job.position < row.position

theorem remaining_desc (cursor : Option Job) :
    Desc Job.position (remaining s userId cursor) := by
  cases cursor with
  | none => exact liveJobs_desc s userId
  | some row => exact (liveJobs_desc s userId).filter _

/-- Where the cursor serves, the page starts right below it. -/
theorem listScoped_eq {row : Job} (hrow : s.findById row.id = some row) (hid : row.id ≠ "")
    (hserves : cursorServes userId s row.id = true) :
    s.listScoped userId (some row.id) limit = (remaining s userId (some row)).take limit := by
  have hlist : s.listScoped userId (some row.id) limit =
      (((s.liveJobs userId).filter fun job => job.position ≤ row.position).drop 1).take limit := by
    simp only [Stores.listScoped, Option.filter_some, hid, ne_eq, not_false_eq_true, decide_true,
      if_true, hrow]
  rw [hlist]
  congr 1
  cases hscope : row.inScope userId with
  | true =>
      apply (liveJobs_desc s userId).drop_cursor
      refine mem_liveJobs.mpr ⟨hrow, ?_⟩
      simpa [Job.inScope] using hscope
  | false =>
      -- nothing is at or below the position of a cursor that is not live
      simp only [cursorServes, hrow, hscope, Bool.false_or, List.all_eq_true,
        decide_eq_true_eq] at hserves
      have hnone : ∀ job ∈ s.liveJobs userId, ¬ job.position ≤ row.position := by
        intro job hjob hle
        have hid' : job.id = row.id := position_id (le_antisymm hle (hserves job hjob))
        obtain ⟨hfind, huser, hlive⟩ := mem_liveJobs.mp hjob
        rw [hid', hrow] at hfind
        cases hfind
        simp [Job.inScope, huser, hlive] at hscope
      have hat : ((s.liveJobs userId).filter fun job => job.position ≤ row.position) = [] := by
        simpa [List.filter_eq_nil_iff] using hnone
      have hbelow : remaining s userId (some row) = [] := by
        rw [remaining, List.filter_eq_nil_iff]
        intro job hjob hlt
        exact hnone job hjob (of_decide_eq_true hlt).le
      rw [hat, hbelow, List.drop_nil]

/-- The position that the next page starts below. -/
def AtCursor (s : Stores) (k : Walk) : Option (ℕ ×ₗ String) → Prop
  | none => k.cursor = none ∧ k.log = []
  | some p => p ∈ k.pulled.map JobDto.position ∧ ∃ row, k.cursor = some row.id ∧
      s.findById row.id = some row ∧ row.id ≠ "" ∧ row.position = p

/-- What the walk has pulled and what is left, with the cursor's position in between. -/
structure Inv (userId : String) (limit : ℕ) (s : Stores) (k : Walk)
    (cursor : Option (ℕ ×ₗ String)) : Prop where
  ids : ∀ row ∈ s.jobs.rows, row.userId = userId → row.id ≠ ""
  ended : k.done = true → k.log ≠ []
  row : k.done = false → AtCursor s k cursor
  full : k.done = false → k.pulled.length = k.log.length * limit
  count : k.log.length * limit ≤ k.pulled.length + limit
  desc : (k.pulled.map JobDto.position).Pairwise fun a b => b < a
  above : ∀ p, k.done = false → cursor = some p → ∀ q ∈ k.pulled.map JobDto.position, p ≤ q
  kept : ∀ f ∈ k.log, ∀ job ∈ f.live, ∃ row, s.findById job.id = some row ∧
    row.userId = userId ∧ row.position = job.position
  covered : ∀ q, k.log ≠ [] → (∀ f ∈ k.log, q ∈ f.live.map Job.position) →
    (∀ p, k.done = false → cursor = some p → p ≤ q) → q ∈ k.pulled.map JobDto.position
  first : ∀ f, k.log.head? = some f →
    (∀ q ∈ k.pulled.map JobDto.position, q ∈ f.live.map Job.position) ∧
      ∀ row ∈ s.jobs.rows, row.userId = userId → row.deletedAt = none →
        row.position ∈ f.live.map Job.position ∨ ∀ job ∈ f.live, job.position < row.position

/-- A row stays where it is in the listing. -/
theorem row_kept {id : String} {row : Job} (now : ℕ) (op : Op) (h : s.findById id = some row) :
    ∃ row', (s.run now op).findById id = some row' ∧ row'.userId = row.userId ∧
      row'.position = row.position := by
  rcases Stores.run_row_after now op h with hkept | ⟨wr, -, hwritten⟩
  · exact ⟨row, hkept, rfl, rfl⟩
  · exact ⟨_, hwritten, wr.apply_userId now row, apply_position now row wr⟩

/-- A row was there before the operation, or is inserted by it. -/
theorem row_before {row' : Job} {now : ℕ} {op : Op} (h : row' ∈ (s.run now op).jobs.rows) :
    op = .insertJob row' ∨ ∃ row ∈ s.jobs.rows, row'.id = row.id ∧ row'.userId = row.userId ∧
      row'.position = row.position ∧ (row'.deletedAt = none → row.deletedAt = none) := by
  have hfind : (s.run now op).findById row'.id = some row' := Table.findUnique_of_mem h
  rcases Stores.run_row_before hfind with hrow | ⟨wr, row, -, hrow, heq⟩ | ⟨hop, -, -⟩
  · exact .inr ⟨row', (Table.findUnique_eq_some.mp hrow).1, rfl, rfl, rfl, id⟩
  · rw [heq]
    exact .inr ⟨row, (Table.findUnique_eq_some.mp hrow).1, wr.apply_id now row,
      wr.apply_userId now row, apply_position now row wr, wr.apply_live now row⟩
  · exact .inl hop

theorem newAbove_row {now : ℕ} {job : Job} (h : NewAbove userId w (.run now (.insertJob job)))
    (huser : job.userId = userId) : job.id ≠ "" ∧
      ∀ row ∈ w.stores.jobs.rows, row.userId = userId → row.position < job.position := by
  simp only [NewAbove, newAbove, huser, ne_eq, not_true_eq_false, decide_false, Bool.false_or,
    Bool.and_eq_true, List.all_eq_true, decide_eq_true_eq] at h
  exact h

theorem inv_run {cursor : Option (ℕ ×ₗ String)} {now : ℕ} {op : Op}
    (h : Inv userId limit s k cursor) (hg : NewAbove userId ⟨s, k⟩ (.run now op)) :
    Inv userId limit (s.run now op) k cursor := by
  refine ⟨?_, h.ended, ?_, h.full, h.count, h.desc, h.above, ?_, h.covered, ?_⟩
  · intro row' hrow' huser
    rcases row_before hrow' with rfl | ⟨row, hrow, hid, huser', -, -⟩
    · exact (newAbove_row hg huser).1
    · rw [hid]
      exact h.ids row hrow (huser' ▸ huser)
  · intro hdone
    have hrow := h.row hdone
    cases cursor with
    | none => exact hrow
    | some p =>
        obtain ⟨hmem, row, hcur, hfind, hid, hpos⟩ := hrow
        obtain ⟨row', hfind', -, hpos'⟩ := row_kept now op hfind
        have hid' : row'.id = row.id := Table.findUnique_key hfind'
        exact ⟨hmem, row', by rw [hid', hcur], by rw [hid', hfind'], by rwa [hid'],
          hpos'.trans hpos⟩
  · intro f hf job hjob
    obtain ⟨row, hfind, huser, hpos⟩ := h.kept f hf job hjob
    obtain ⟨row', hfind', huser', hpos'⟩ := row_kept now op hfind
    exact ⟨row', hfind', huser'.trans huser, hpos'.trans hpos⟩
  · intro f hf
    refine ⟨(h.first f hf).1, ?_⟩
    intro row' hrow' huser hlive
    rcases row_before hrow' with rfl | ⟨row, hrow, -, huser', hpos, hlive'⟩
    · -- a new job sorts above everything there was
      refine .inr fun job hjob => ?_
      obtain ⟨row, hfind, huser', hpos⟩ := h.kept f (List.mem_of_head? hf) job hjob
      rw [← hpos]
      exact (newAbove_row hg huser).2 row (Table.findUnique_eq_some.mp hfind).1 huser'
    · rw [hpos]
      exact (h.first f hf).2 row hrow (huser' ▸ huser) (hlive' hlive)

theorem AtCursor.log_ne {p : ℕ ×ₗ String} (h : AtCursor s k (some p)) : k.log ≠ [] := by
  intro hnil
  have hmem := h.1
  rw [Walk.pulled, hnil] at hmem
  cases hmem

/-- `rest` is what is left below the cursor, and a fetch brings its beginning. -/
structure Left (userId : String) (limit : ℕ) (s : Stores) (k : Walk)
    (cursor : Option (ℕ ×ₗ String)) (rest : List Job) : Prop where
  page : s.listScoped userId k.cursor limit = rest.take limit
  desc : Desc Job.position rest
  mem : ∀ job, job ∈ rest ↔
    job ∈ s.liveJobs userId ∧ ∀ p, cursor = some p → job.position < p

theorem left_exists {cursor : Option (ℕ ×ₗ String)} (h : Inv userId limit s k cursor)
    (hg : Guard userId ⟨s, k⟩ .fetch) (hdone : k.done = false) :
    ∃ rest, Left userId limit s k cursor rest := by
  have hrow := h.row hdone
  cases cursor with
  | none =>
      refine ⟨remaining s userId none, ?_, remaining_desc none, by simp [remaining]⟩
      rw [hrow.1]
      rfl
  | some p =>
      obtain ⟨-, row, hcur, hfind, hid, rfl⟩ := hrow
      refine ⟨remaining s userId (some row), ?_, remaining_desc _, by simp [remaining]⟩
      have hserves : cursorServes userId s row.id = true := by
        simpa only [serves, hcur, Option.all_some] using hg.2
      rw [hcur]
      exact listScoped_eq hfind hid hserves

theorem dto_positions (jobs : List Job) :
    (jobs.map fun job => jobToDto job none).map JobDto.position = jobs.map Job.position := by
  rw [List.map_map]
  rfl

/-- The walk after a fetch of the page `jobs`. -/
theorem fetch_eq {jobs : List Job} (h : s.listScoped userId k.cursor limit = jobs) :
    (k.fetch userId limit s).pulled.map JobDto.position =
        k.pulled.map JobDto.position ++ jobs.map Job.position ∧
      (k.fetch userId limit s).pulled.length = k.pulled.length + jobs.length ∧
      (k.fetch userId limit s).log.length = k.log.length + 1 ∧
      (k.fetch userId limit s).cursor =
        (if jobs.length = limit then jobs.getLast?.map Job.id else none) := by
  subst h
  simp only [Walk.fetch, Walk.pulled, JobsService.list, List.flatMap_append, List.flatMap_cons,
    List.flatMap_nil, List.append_nil, List.map_append, dto_positions, List.length_append,
    List.length_map, List.length_cons, List.length_nil, and_self]

/-- The last row of a full page. -/
theorem last_of_full {jobs : List Job} (hlimit : 0 < limit) (h : jobs.length = limit) :
    ∃ init last, jobs = init ++ [last] ∧ jobs.getLast?.map Job.id = some last.id := by
  have hne : jobs ≠ [] := by
    rintro rfl
    simp at h
    omega
  refine ⟨jobs.dropLast, jobs.getLast hne, (List.dropLast_append_getLast hne).symm, ?_⟩
  rw [List.getLast?_eq_some_getLast hne, Option.map_some]

section
variable {cursor : Option (ℕ ×ₗ String)} {rest : List Job}

theorem fetch_log (s : Stores) (k : Walk) : (k.fetch userId limit s).log =
    k.log ++ [⟨s.liveJobs userId, JobsService.list s userId k.cursor limit⟩] := rfl

/-- Whatever is on the page is live. -/
theorem Left.live (hl : Left userId limit s k cursor rest) : ∀ q ∈ (rest.take limit).map Job.position,
    q ∈ (s.liveJobs userId).map Job.position := by
  intro q hq
  obtain ⟨job, hjob, rfl⟩ := List.mem_map.mp hq
  exact List.mem_map_of_mem ((hl.mem job).mp (List.mem_of_mem_take hjob)).1

/-- Whatever is on the page is below everything pulled before. -/
theorem Left.below (hl : Left userId limit s k cursor rest) : ∀ q ∈ (rest.take limit).map Job.position,
    ∀ p, cursor = some p → q < p := by
  intro q hq p hp
  obtain ⟨job, hjob, rfl⟩ := List.mem_map.mp hq
  exact ((hl.mem job).mp (List.mem_of_mem_take hjob)).2 p hp

theorem fetch_desc (h : Inv userId limit s k cursor) (hdone : k.done = false)
    (hl : Left userId limit s k cursor rest) :
    ((k.fetch userId limit s).pulled.map JobDto.position).Pairwise fun a b => b < a := by
  rw [(fetch_eq hl.page).1, List.pairwise_append]
  refine ⟨h.desc, List.pairwise_map.mpr (hl.desc.take limit), ?_⟩
  intro a ha b hb
  have hrow := h.row hdone
  cases cursor with
  | none =>
      rw [Walk.pulled, hrow.2] at ha
      cases ha
  | some p => exact lt_of_lt_of_le (hl.below b hb p rfl) (h.above p hdone rfl a ha)

theorem fetch_kept (h : Inv userId limit s k cursor) : ∀ f ∈ (k.fetch userId limit s).log,
    ∀ job ∈ f.live, ∃ row, s.findById job.id = some row ∧ row.userId = userId ∧
      row.position = job.position := by
  intro f hf job hjob
  rcases List.mem_append.mp hf with hf | hf
  · exact h.kept f hf job hjob
  · rw [List.mem_singleton.mp hf] at hjob
    obtain ⟨hfind, huser, -⟩ := mem_liveJobs.mp hjob
    exact ⟨job, hfind, huser, rfl⟩

theorem fetch_first (h : Inv userId limit s k cursor) (hdone : k.done = false)
    (hl : Left userId limit s k cursor rest) :
    ∀ f, (k.fetch userId limit s).log.head? = some f →
      (∀ q ∈ (k.fetch userId limit s).pulled.map JobDto.position,
        q ∈ f.live.map Job.position) ∧
        ∀ row ∈ s.jobs.rows, row.userId = userId → row.deletedAt = none →
          row.position ∈ f.live.map Job.position ∨ ∀ job ∈ f.live, job.position < row.position := by
  intro f hf
  rw [fetch_log] at hf
  rw [(fetch_eq hl.page).1]
  have hrow := h.row hdone
  cases cursor with
  | none =>
      rw [hrow.2] at hf
      obtain rfl := Option.some.inj hf
      refine ⟨?_, ?_⟩
      · intro q hq
        rw [Walk.pulled, hrow.2] at hq
        exact hl.live q hq
      · intro row hmem huser hdel
        refine .inl (List.mem_map_of_mem (mem_liveJobs.mpr ⟨?_, huser, hdel⟩))
        exact Table.findUnique_of_mem hmem
  | some p =>
      rw [List.head?_append_of_ne_nil _ hrow.log_ne] at hf
      obtain ⟨hitems, hrows⟩ := h.first f hf
      refine ⟨?_, hrows⟩
      intro q hq
      rcases List.mem_append.mp hq with hq | hq
      · exact hitems q hq
      · obtain ⟨job, hjob, rfl⟩ := List.mem_map.mp (hl.live q hq)
        obtain ⟨hfind, huser, hdel⟩ := mem_liveJobs.mp hjob
        rcases hrows job (Table.findUnique_eq_some.mp hfind).1 huser hdel with hin | habove
        · exact hin
        · -- the cursor itself was live at the first fetch
          obtain ⟨job', hjob', hp⟩ := List.mem_map.mp (hitems p hrow.1)
          have hlt := habove job' hjob'
          rw [hp] at hlt
          exact (lt_asymm hlt (hl.below _ hq p rfl)).elim

/-- What was live throughout has been pulled, if the page reaches it. -/
theorem fetch_covered (h : Inv userId limit s k cursor) (hdone : k.done = false)
    (hl : Left userId limit s k cursor rest) {q : ℕ ×ₗ String}
    (hq : ∀ f ∈ (k.fetch userId limit s).log, q ∈ f.live.map Job.position)
    (hreach : ∀ job ∈ rest, job.position = q → job ∈ rest.take limit) :
    q ∈ (k.fetch userId limit s).pulled.map JobDto.position := by
  rw [fetch_log] at hq
  rw [(fetch_eq hl.page).1]
  have hrow := h.row hdone
  have hold : ∀ f ∈ k.log, q ∈ f.live.map Job.position :=
    fun f hf => hq f (List.mem_append_left _ hf)
  obtain ⟨job, hjob, rfl⟩ := List.mem_map.mp
    (hq _ (List.mem_append_right _ (List.mem_singleton.mpr rfl)))
  by_cases hrem : job ∈ rest
  · exact List.mem_append_right _ (List.mem_map_of_mem (hreach job hrem rfl))
  · have hcur : ∃ p, cursor = some p ∧ p ≤ job.position := by
      by_contra hno
      refine hrem ((hl.mem job).mpr ⟨hjob, fun p hp => ?_⟩)
      by_contra hge
      exact hno ⟨p, hp, not_lt.mp hge⟩
    obtain ⟨p, rfl, hle⟩ := hcur
    refine List.mem_append_left _ (h.covered job.position hrow.log_ne hold ?_)
    intro p' _ hp'
    cases hp'
    exact hle

theorem inv_fetch (hlimit : 0 < limit) (h : Inv userId limit s k cursor)
    (hg : Guard userId ⟨s, k⟩ .fetch) (hdone : k.done = false) :
    ∃ cursor', Inv userId limit s (k.fetch userId limit s) cursor' := by
  obtain ⟨rest, hl⟩ := left_exists h hg hdone
  obtain ⟨hpos, hlen, hlog, hnext⟩ := fetch_eq hl.page
  have hdoneEq : (k.fetch userId limit s).done = (k.fetch userId limit s).cursor.isNone := rfl
  have hended : (k.fetch userId limit s).done = true → (k.fetch userId limit s).log ≠ [] :=
    fun _ hnil => by simp [hnil] at hlog
  have hdesc := fetch_desc h hdone hl
  have hfull := h.full hdone
  have hcount : (k.fetch userId limit s).log.length * limit ≤
      (k.fetch userId limit s).pulled.length + limit := by
    rw [hlog, hlen, Nat.add_mul, hfull]
    omega
  by_cases hfullPage : (rest.take limit).length = limit
  · obtain ⟨init, last, hinit, hlast⟩ := last_of_full hlimit hfullPage
    have hmem : last ∈ rest.take limit := by
      rw [hinit]
      exact List.mem_append_right _ (List.mem_singleton.mpr rfl)
    obtain ⟨hfind, huser, -⟩ := mem_liveJobs.mp ((hl.mem last).mp (List.mem_of_mem_take hmem)).1
    have hcursor : (k.fetch userId limit s).cursor = some last.id := by
      rw [hnext, if_pos hfullPage, hlast]
    refine ⟨some last.position, h.ids, hended, fun _ => ⟨?_, last, hcursor, hfind, ?_, rfl⟩, fun _ => ?_,
      hcount, hdesc, ?_, fetch_kept h, ?_, fetch_first h hdone hl⟩
    · rw [hpos]
      exact List.mem_append_right _ (List.mem_map_of_mem hmem)
    · exact h.ids last (Table.findUnique_eq_some.mp hfind).1 huser
    · rw [hlen, hlog, Nat.add_mul, hfull, hfullPage, Nat.one_mul]
    · intro p _ hp q hq
      cases hp
      rw [hpos, hinit, List.map_append, ← List.append_assoc] at hq hdesc
      rcases List.mem_append.mp hq with hq | hq
      · exact ((List.pairwise_append.mp hdesc).2.2 q hq last.position (by simp)).le
      · simp only [List.map_cons, List.map_nil, List.mem_singleton] at hq
        rw [hq]
    · intro q _ hq hle
      refine fetch_covered h hdone hl hq ?_
      rintro job hjob rfl
      exact hl.desc.mem_take hmem hjob
        (hle last.position (by rw [hdoneEq, hcursor]; rfl) rfl)
  · have hdoneNow : (k.fetch userId limit s).done = true := by
      rw [hdoneEq, hnext, if_neg hfullPage]
      rfl
    refine ⟨cursor, h.ids, hended, ?_, ?_, hcount, hdesc, ?_, fetch_kept h, ?_,
      fetch_first h hdone hl⟩
    · intro hd
      rw [hdoneNow] at hd
      cases hd
    · intro hd
      rw [hdoneNow] at hd
      cases hd
    · intro p hd
      rw [hdoneNow] at hd
      cases hd
    · intro q _ hq _
      refine fetch_covered h hdone hl hq ?_
      rintro job hjob -
      rwa [take_all hfullPage]

end

/-- What the claim of exactness asks of a walk: no job twice, in the order of the listing;
boundedly many pages; and at the end every job that was live throughout. -/
structure Exact (limit : ℕ) (k : Walk) : Prop where
  order : (k.pulled.map JobDto.position).Pairwise fun a b => b < a
  once : (k.pulled.map JobDto.id).Nodup
  bounded : ∀ f, k.log.head? = some f → k.log.length * limit ≤ f.live.length + limit
  complete : k.done = true → ∀ jobId, k.LiveThroughout jobId → jobId ∈ k.pulled.map JobDto.id

theorem inv_start (h : ∀ row ∈ s.jobs.rows, row.userId = userId → row.id ≠ "") :
    Inv userId limit s Walk.start none := by
  refine ⟨h, nofun, fun _ => ⟨rfl, rfl⟩, ?_, ?_, ?_, ?_, ?_, ?_, ?_⟩ <;> simp [Walk.start, Walk.pulled]

theorem inv_step {a : Action} (hlimit : 0 < limit)
    (h : ∃ cursor, Inv userId limit w.stores w.walk cursor) (hg : Guard userId w a)
    (hs : step userId limit w a = some w') :
    ∃ cursor, Inv userId limit w'.stores w'.walk cursor := by
  obtain ⟨cursor, hinv⟩ := h
  cases a with
  | run now op =>
      cases hs
      exact ⟨cursor, inv_run hinv hg.1⟩
  | fetch =>
      simp only [step] at hs
      split_ifs at hs with hdone
      cases hs
      exact inv_fetch hlimit hinv hg (Bool.not_eq_true _ ▸ hdone)

/-- In every run that meets the guard the walk is exact. -/
theorem walk_exact {s₀ : Stores} (hlimit : 0 < limit)
    (hids : ∀ row ∈ s₀.jobs.rows, row.userId = userId → row.id ≠ "")
    (hw : Run (step userId limit) (Guard userId) ⟨s₀, Walk.start⟩ w) : Exact limit w.walk := by
  obtain ⟨cursor, h⟩ : ∃ cursor, Inv userId limit w.stores w.walk cursor :=
    hw.invariant (I := fun w => ∃ cursor, Inv userId limit w.stores w.walk cursor)
      ⟨none, inv_start hids⟩ fun _ _ _ hi hg hs => inv_step hlimit hi hg hs
  have hlogged : ∀ dto ∈ w.walk.pulled, ∃ f, w.walk.log.head? = some f := by
    intro dto hdto
    obtain ⟨f, hf, -⟩ := List.mem_flatMap.mp hdto
    exact ⟨_, List.head?_eq_some_head (List.ne_nil_of_mem hf)⟩
  -- an id has one place in the listing
  have hplace : ∀ dto ∈ w.walk.pulled, ∃ row, w.stores.findById dto.id = some row ∧
      row.position = dto.position := by
    intro dto hdto
    obtain ⟨f, hf⟩ := hlogged dto hdto
    obtain ⟨job, hjob, hpos⟩ :=
      List.mem_map.mp ((h.first f hf).1 dto.position (List.mem_map_of_mem hdto))
    obtain ⟨row, hfind, -, hrow⟩ := h.kept f (List.mem_of_head? hf) job hjob
    have hid : job.id = dto.id := congrArg (fun p => (ofLex p).2) hpos
    exact ⟨row, hid ▸ hfind, hrow.trans hpos⟩
  refine ⟨h.desc, ?_, ?_, ?_⟩
  · have hdesc := List.pairwise_map.mp h.desc
    rw [List.nodup_iff_pairwise_ne, List.pairwise_map]
    refine hdesc.imp_of_mem ?_
    intro a b ha hb hlt heq
    obtain ⟨row, hrow, hpos⟩ := hplace a ha
    obtain ⟨row', hrow', hpos'⟩ := hplace b hb
    rw [heq, hrow'] at hrow
    cases hrow
    exact absurd hlt (by rw [← hpos, ← hpos']; exact lt_irrefl _)
  · intro f hf
    have hsub : (w.walk.pulled.map JobDto.position).length ≤ (f.live.map Job.position).length := by
      have hnodup : (w.walk.pulled.map JobDto.position).Nodup :=
        h.desc.imp fun hlt heq => absurd hlt (by rw [heq]; exact lt_irrefl _)
      exact (List.subperm_of_subset hnodup (h.first f hf).1).length_le
    have hcount := h.count
    simp only [List.length_map] at hsub
    omega
  · intro hdone jobId hlive
    have hne := h.ended hdone
    obtain ⟨job, hjob, rfl⟩ := List.mem_map.mp (hlive _ (List.head_mem hne))
    obtain ⟨row, hfind, -, hpos⟩ := h.kept _ (List.head_mem hne) job hjob
    have hthere : ∀ f ∈ w.walk.log, job.position ∈ f.live.map Job.position := by
      intro f hf
      obtain ⟨job', hjob', hid⟩ := List.mem_map.mp (hlive f hf)
      obtain ⟨row', hfind', -, hpos'⟩ := h.kept f hf job' hjob'
      rw [hid, hfind] at hfind'
      cases hfind'
      exact List.mem_map.mpr ⟨job', hjob', hpos'.symm.trans hpos⟩
    have hpulled := h.covered job.position hne hthere fun p hopen => by
      rw [hdone] at hopen
      cases hopen
    obtain ⟨dto, hdto, heq⟩ := List.mem_map.mp hpulled
    exact List.mem_map.mpr ⟨dto, hdto, congrArg (fun p => (ofLex p).2) heq⟩

def demoJob (id : String) (createdAt : ℕ) : Job where
  id := id
  userId := "user-1"
  label := "Site A"
  status := .CREATED
  transcript := none
  audioKey := none
  pdfKey := none
  errorMessage := none
  idempotencyKey := none
  createdAt := createdAt
  updatedAt := createdAt
  deletedAt := none
  sections := []

/-- Three jobs of one user, two of them created at the same time. -/
def threeJobs : List Action :=
  [.run 1 (.insertJob (demoJob "job-1" 1)), .run 2 (.insertJob (demoJob "job-2" 2)),
    .run 2 (.insertJob (demoJob "job-3" 2))]

def deleteJob (id : String) : Action := .run 3 (.write id (.softDeleteScoped "user-1"))

/-- A job that was not fetched yet is deleted during the walk. -/
theorem walk_exact_demo :
    ∃ w, Run (step "user-1" 1) (Guard "user-1") ⟨.empty, Walk.start⟩ w ∧
      w.walk.pulled.map JobDto.id = ["job-3", "job-1"] ∧ Exact 1 w.walk := by
  have hend : (execWhere (step "user-1" 1) (Guard "user-1")
      (threeJobs ++ [.fetch, deleteJob "job-2", .fetch, .fetch])
      ⟨.empty, Walk.start⟩).any (fun w =>
        decide (w.walk.pulled.map JobDto.id = ["job-3", "job-1"])) = true := by decide
  obtain ⟨w, hw, hp⟩ := execWhere_any hend
  exact ⟨w, hw, of_decide_eq_true hp,
    walk_exact (by decide) (by simp [Stores.empty]) hw⟩

/-- After the deletion of the cursor's job the next page skips a live job. -/
theorem deleted_cursor_skips_job :
    ¬ ∀ (userId : String) (limit : ℕ) (s₀ : Stores) (w : World), 0 < limit →
      (∀ row ∈ s₀.jobs.rows, row.userId = userId → row.id ≠ "") →
        Run (step userId limit) (NewAbove userId) ⟨s₀, Walk.start⟩ w → Exact limit w.walk := by
  intro h
  have hend : (execWhere (step "user-1" 1) (NewAbove "user-1")
      (threeJobs ++ [.fetch, deleteJob "job-3", .fetch, .fetch])
      ⟨.empty, Walk.start⟩).any (fun w =>
        decide (w.walk.done = true ∧ w.walk.pulled.map JobDto.id = ["job-3", "job-1"] ∧
          ∀ f ∈ w.walk.log, "job-2" ∈ f.live.map Job.id)) = true := by decide
  obtain ⟨w, hw, hp⟩ := execWhere_any hend
  obtain ⟨hdone, hpulled, hlive⟩ := of_decide_eq_true hp
  have hexact := h "user-1" 1 .empty w (by decide) (by simp [Stores.empty]) hw
  have hmem := hexact.complete hdone "job-2" hlive
  rw [hpulled] at hmem
  exact absurd hmem (by decide)

end FieldNote.CursorWalk
