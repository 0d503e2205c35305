import FieldNote.JobListing
import FieldNote.ObjectKeys
import FieldNote.Selections
import FieldNote.SpelledIds

/-!
# What belongs to a user

The view of a user keeps the rows, events, queue entries, objects and threads that belong
to the user and drops the rest. The rows a statement of the API is scoped to are in the
view, so every query of a request answers from the view as from the whole database.
-/
namespace FieldNote.UserViews
open JobsService PipelineService ServerRuns ObjectKeys Selections SpelledIds

/-- The key lies under one of the two prefixes of the user. -/
def belongs (userId key : String) : Bool :=
  ("audio/" ++ userId ++ "/").toList.isPrefixOf key.toList ||
    ("pdf/" ++ userId ++ "/").toList.isPrefixOf key.toList

/-- The row of the job is the user's. -/
def owns (s : Stores) (userId jobId : String) : Bool :=
  (s.findById jobId).any fun job => job.userId = userId

def viewStores (userId : String) (s : Stores) : Stores where
  jobs := s.jobs.filter fun job => job.userId = userId
  events := s.events.filter fun event => owns s userId event.jobId
  queue jobId := (s.queue jobId).filter fun entry => entry.userId = userId
  dlq := s.dlq.filter fun entry => entry.userId = userId
  bucket key := if belongs userId key then s.bucket key else none

def Thread.userId : Thread → String
  | .create c => c.userId
  | .process c => c.userId
  | .update c => c.userId
  | .remove c => c.userId
  | .attempt a => a.userId
  | .body b => b.userId
  | .handler h => h.userId

def mine (userId : String) (t : Thread) : Bool := Thread.userId t = userId

/-- The body an attempt races stands elsewhere in another pool. -/
def relocatePc (f : ℕ → ℕ) : AttemptPc → AttemptPc
  | .racing work body => .racing work (f body)
  | pc => pc

def relocate (f : ℕ → ℕ) : Thread → Thread
  | .attempt a => .attempt { a with pc := relocatePc f a.pc }
  | t => t

/-- The number of a thread among those of the user. -/
def rank (userId : String) (threads : List Thread) (i : ℕ) : ℕ :=
  threads.countPBefore (mine userId) i

def viewThreads (userId : String) (threads : List Thread) : List Thread :=
  (threads.filter (mine userId)).map (relocate (rank userId threads))

def view (userId : String) (w : World) : World :=
  ⟨viewStores userId w.stores, viewThreads userId w.threads⟩

/-! ## Keys -/

/-- What stands before the first separator of two equal texts is equal. -/
theorem head_eq {α : Type*} {c : α} {xs xs' ys ys' : List α} (h : xs ++ c :: ys = xs' ++ c :: ys')
    (hx : c ∉ xs) (hx' : c ∉ xs') : xs = xs' := by
  rcases List.append_eq_append_iff.mp h with ⟨zs, rfl, hz⟩ | ⟨zs, rfl, hz⟩
  · cases zs with
    | nil => simp
    | cons z zs =>
        simp only [List.cons_append, List.cons.injEq] at hz
        exact (hx' (by simp [hz.1])).elim
  · cases zs with
    | nil => simp
    | cons z zs =>
        simp only [List.cons_append, List.cons.injEq] at hz
        exact (hx (by simp [hz.1])).elim

variable {userId userId' jobId : String}

theorem belongs_audioKey : belongs userId (audioKey userId jobId) = true := by
  simp [belongs, audioKey, List.isPrefixOf_iff_prefix]

theorem belongs_pdfKey : belongs userId (pdfKey userId jobId) = true := by
  simp [belongs, pdfKey, List.isPrefixOf_iff_prefix]

theorem prefix_user {rest : List Char} (hu : '/' ∉ userId.toList) (hu' : '/' ∉ userId'.toList)
    (h : userId.toList ++ ['/'] <+: userId'.toList ++ '/' :: rest) : userId = userId' := by
  obtain ⟨ys, hys⟩ := h
  rw [List.append_assoc, List.singleton_append] at hys
  exact String.toList_inj.mp (head_eq hys hu hu')

/-- The key of a user's object belongs to no other user. -/
theorem belongs_audioKey_iff (hu : '/' ∉ userId.toList) (hu' : '/' ∉ userId'.toList) :
    belongs userId (audioKey userId' jobId) = true ↔ userId = userId' := by
  constructor
  · intro h
    simp [belongs, audioKey, List.isPrefixOf_iff_prefix] at h
    exact prefix_user hu hu' (by simpa using h)
  · rintro rfl
    exact belongs_audioKey

theorem belongs_pdfKey_iff (hu : '/' ∉ userId.toList) (hu' : '/' ∉ userId'.toList) :
    belongs userId (pdfKey userId' jobId) = true ↔ userId = userId' := by
  constructor
  · intro h
    simp [belongs, pdfKey, List.isPrefixOf_iff_prefix] at h
    exact prefix_user hu hu' (by simpa using h)
  · rintro rfl
    exact belongs_pdfKey

/-- The key of one of the user's objects. -/
def UserKey (userId key : String) : Prop :=
  ∃ jobId, key = audioKey userId jobId ∨ key = pdfKey userId jobId

theorem UserKey.belongs {key : String} (h : UserKey userId key) : belongs userId key = true := by
  obtain ⟨jobId, rfl | rfl⟩ := h
  · exact belongs_audioKey
  · exact belongs_pdfKey

theorem UserKey.other {key : String} (h : UserKey userId' key) (hne : userId ≠ userId')
    (hu : '/' ∉ userId.toList) (hu' : '/' ∉ userId'.toList) :
    UserViews.belongs userId key = false := by
  rw [Bool.eq_false_iff]
  obtain ⟨jobId, rfl | rfl⟩ := h
  · exact fun hb => hne ((belongs_audioKey_iff hu hu').mp hb)
  · exact fun hb => hne ((belongs_pdfKey_iff hu hu').mp hb)

/-! ## Queries -/

variable {s : Stores}

theorem findById_view : (viewStores userId s).findById jobId =
    (s.findById jobId).filter fun job => job.userId = userId :=
  Table.findUnique_filter _ _ _

theorem findById_owned (h : Owned s userId jobId) :
    (viewStores userId s).findById jobId = s.findById jobId := by
  obtain ⟨row, hrow, huser⟩ := h
  rw [findById_view, hrow, Option.filter_some, if_pos (by simpa using huser)]

theorem findScoped_view :
    (viewStores userId s).findScoped userId jobId = s.findScoped userId jobId := by
  apply Option.ext
  intro job
  rw [Stores.findScoped_eq_some, Stores.findScoped_eq_some, findById_view,
    Option.filter_eq_some_iff]
  simp only [decide_eq_true_eq]
  tauto

theorem user_and_inScope {job : Job} :
    (decide (job.userId = userId) && job.inScope userId) = job.inScope userId := by
  by_cases huser : job.userId = userId <;> simp [Job.inScope, huser]

theorem findByIdempotencyKey_view {key : String} :
    (viewStores userId s).findByIdempotencyKey userId key =
      s.findByIdempotencyKey userId key := by
  simp only [Stores.findByIdempotencyKey, viewStores, Table.filter, List.find?_filter]
  congr 1
  funext job
  simp only [Bool.decide_and, Bool.decide_eq_true, ← Bool.and_assoc, user_and_inScope]

theorem keyTaken_view {job : Job} (huser : job.userId = userId) :
    (viewStores userId s).keyTaken job = s.keyTaken job := by
  simp only [Stores.keyTaken, viewStores, Table.filter, List.any_filter, huser]
  congr 2
  funext row
  by_cases hrow : row.userId = userId <;> simp [hrow]

theorem liveJobs_view : (viewStores userId s).liveJobs userId = s.liveJobs userId := by
  simp only [Stores.liveJobs, viewStores, Table.filter, List.filter_filter]
  congr 2
  funext job
  rw [Bool.and_comm, user_and_inScope]

/-- The entries of a job, under whichever spelling of its id, are its owner's. -/
def EntriesOwned (s : Stores) : Prop :=
  ∀ jobId entry, s.queue jobId = some entry → Owned s entry.userId (canonical jobId)

theorem owned_unique (h : Owned s userId jobId) (h' : Owned s userId' jobId) :
    userId = userId' := by
  obtain ⟨row, hrow, rfl⟩ := h
  obtain ⟨row', hrow', rfl⟩ := h'
  rw [hrow] at hrow'
  cases hrow'
  rfl

theorem queue_view (hentries : EntriesOwned s) (h : Owned s userId (canonical jobId)) :
    (viewStores userId s).queue jobId = s.queue jobId := by
  simp only [viewStores]
  cases hq : s.queue jobId with
  | none => rfl
  | some entry =>
      have huser := owned_unique (hentries jobId entry hq) h
      rw [Option.filter_some, if_pos (by simpa using huser)]

theorem bucket_view {key : String} (h : UserKey userId key) :
    (viewStores userId s).bucket key = s.bucket key := by
  simp only [viewStores, h.belongs, if_pos]

/-! ## Operations -/

/-- The statement is scoped to the user. -/
def scopedTo (userId : String) : Write → Bool
  | .updateLabelScoped user _ => user = userId
  | .replaceReportScoped user _ _ => user = userId
  | .softDeleteScoped user => user = userId
  | _ => false

/-- The operation concerns what belongs to the user, and stores keys of the user's objects. -/
def Within (userId : String) (s : Stores) : Op → Prop
  | .none => True
  | .insertJob job =>
      job.userId = userId ∧
        ∀ key, job.audioKey = some key ∨ job.pdfKey = some key → UserKey userId key
  | .write jobId wr =>
      (Owned s userId jobId ∧ ∀ key, wr.newPdfKey = some key → UserKey userId key) ∨
        scopedTo userId wr = true
  | .addEvent event => Owned s userId event.jobId
  | .setEntry jobId entry =>
      Owned s userId (canonical jobId) ∧ ∀ e, entry = some e → e.userId = userId
  | .addDlq entry => entry.userId = userId
  | .putObject key _ => UserKey userId key
  | .deleteObjects keys => ∀ key ∈ keys, UserKey userId key

theorem apply_scoped {wr : Write} {now : ℕ} {job : Job} (h : scopedTo userId' wr = true)
    (hne : job.userId ≠ userId') : wr.apply now job = job := by
  cases wr with
  | updateLabelScoped user label =>
      obtain rfl : user = userId' := by simpa [scopedTo] using h
      simp [Write.apply, Job.inScope, hne]
  | replaceReportScoped user label sections =>
      obtain rfl : user = userId' := by simpa [scopedTo] using h
      simp [Write.apply, Job.inScope, hne]
  | softDeleteScoped user =>
      obtain rfl : user = userId' := by simpa [scopedTo] using h
      simp [Write.apply, Job.inScope, hne]
  | _ => cases h

variable {now : ℕ} {op : Op}

theorem owns_eq_true : owns s userId jobId = true ↔ Owned s userId jobId := by
  simp [owns, Owned, Option.any_eq_true]

/-- Whose a job is changes only when it is created. -/
theorem owns_run (h : ∀ job, op = .insertJob job → job.id ≠ jobId) :
    owns (s.run now op) userId jobId = owns s userId jobId := by
  have hrow := Stores.run_row now s op jobId
  unfold owns
  generalize (s.run now op).findById jobId = row at hrow
  cases hrow with
  | same => rfl
  | written wr job op_eq row => simp [row]
  | created job op_eq id free => exact (h job op_eq id).elim

/-- The events are of jobs that exist. -/
def EventsOfRows (s : Stores) : Prop :=
  ∀ event ∈ s.events, s.findById event.jobId ≠ none

theorem stores_eq {s s' : Stores} (hjobs : s.jobs = s'.jobs) (hevents : s.events = s'.events)
    (hqueue : s.queue = s'.queue) (hdlq : s.dlq = s'.dlq) (hbucket : s.bucket = s'.bucket) :
    s = s' := by
  cases s
  cases s'
  cases hjobs
  cases hevents
  cases hqueue
  cases hdlq
  cases hbucket
  rfl

theorem filter_snoc {α : Type*} {p : α → Bool} {xs : List α} {x : α} (hx : p x = true) :
    (xs ++ [x]).filter p = xs.filter p ++ [x] := by
  rw [List.filter_append, List.filter_cons_of_pos hx, List.filter_nil]

theorem filter_snoc_other {α : Type*} {p : α → Bool} {xs : List α} {x : α} (hx : p x = false) :
    (xs ++ [x]).filter p = xs.filter p := by
  rw [List.filter_append, List.filter_cons_of_neg (by simp [hx]), List.filter_nil,
    List.append_nil]

/-- The user's events are the same as long as the jobs have the same owner. -/
theorem filter_events {s' : Stores} {events : List ProcessingEvent}
    (h : ∀ event ∈ events, owns s' userId event.jobId = owns s userId event.jobId) :
    (events.filter fun event => owns s' userId event.jobId) =
      events.filter fun event => owns s userId event.jobId :=
  List.filter_congr fun event he => h event he

theorem view_insert {job : Job} (huser : job.userId = userId)
    (hevents : EventsOfRows s) (hfree : s.findById job.id = none) :
    viewStores userId (s.run now (.insertJob job)) =
      (viewStores userId s).run now (.insertJob job) := by
  simp only [Stores.run, keyTaken_view huser]
  split_ifs
  · rfl
  · obtain ⟨t, ht⟩ := Table.create_isSome hfree
    have ht' : (viewStores userId s).jobs.create job =
        some (t.filter fun job => job.userId = userId) :=
      Table.create_filter ht (by simpa using huser)
    rw [ht, ht']
    apply stores_eq
    · rfl
    · apply filter_events
      intro event he
      have hne : event.jobId ≠ job.id := by
        intro heq
        exact hevents event he (heq ▸ hfree)
      simp only [owns, Stores.findById, Option.getD_some, Table.create_findUnique ht, if_neg hne]
    · rfl
    · rfl
    · rfl

theorem view_write {wr : Write} :
    viewStores userId (s.run now (.write jobId wr)) =
      (viewStores userId s).run now (.write jobId wr) := by
  apply stores_eq
  · exact Table.update_filter _ _ (fun job => wr.apply_id now job) fun job => by rw [wr.apply_userId]
  · apply filter_events
    intro event _
    exact owns_run (by simp : ∀ job, Op.write jobId wr = .insertJob job → job.id ≠ event.jobId)
  · rfl
  · rfl
  · rfl

/-- An operation within what belongs to the user acts on the view alone. -/
theorem view_run (h : Within userId s op) (hevents : EventsOfRows s)
    (hfree : ∀ job, op = .insertJob job → s.findById job.id = none) :
    viewStores userId (s.run now op) = (viewStores userId s).run now op := by
  cases op with
  | none => rfl
  | insertJob job => exact view_insert h.1 hevents (hfree job rfl)
  | write jobId wr => exact view_write
  | addEvent event =>
      have howns := owns_eq_true.mpr h
      apply stores_eq
      · rfl
      · exact filter_snoc howns
      · rfl
      · rfl
      · rfl
  | setEntry jobId entry =>
      apply stores_eq
      · rfl
      · rfl
      · funext id
        simp only [viewStores, Stores.run]
        by_cases hid : id = jobId
        · subst hid
          rw [Function.update_self, Function.update_self]
          cases entry with
          | none => rfl
          | some e => rw [Option.filter_some, if_pos (by simpa using h.2 e rfl)]
        · rw [Function.update_of_ne hid, Function.update_of_ne hid]
      · rfl
      · rfl
  | addDlq entry =>
      have huser : entry.userId = userId := h
      apply stores_eq
      · rfl
      · rfl
      · rfl
      · exact filter_snoc (by simpa using huser)
      · rfl
  | putObject key object =>
      apply stores_eq
      · rfl
      · rfl
      · rfl
      · rfl
      · funext key'
        simp only [viewStores, Stores.run]
        by_cases hkey : key' = key
        · subst hkey
          rw [Function.update_self, Function.update_self, if_pos (UserKey.belongs h)]
        · rw [Function.update_of_ne hkey, Function.update_of_ne hkey]
  | deleteObjects keys =>
      apply stores_eq
      · rfl
      · rfl
      · rfl
      · rfl
      · funext key
        simp only [viewStores, Stores.run]
        split_ifs <;> rfl

/-- An operation within what belongs to another user leaves the view. -/
theorem view_run_other (h : Within userId' s op) (hne : userId ≠ userId')
    (hu : '/' ∉ userId.toList) (hu' : '/' ∉ userId'.toList) (hentries : EntriesOwned s) :
    viewStores userId (s.run now op) = viewStores userId s := by
  have hother : ∀ {jobId}, Owned s userId' jobId → owns s userId jobId = false := by
    intro jobId howned
    rw [Bool.eq_false_iff, Ne, owns_eq_true]
    exact fun hmine => hne (owned_unique hmine howned)
  cases op with
  | none => rfl
  | insertJob job =>
      have huser : job.userId = userId' := h.1
      have hfalse : decide (job.userId = userId) = false := by simp [huser, Ne.symm hne]
      simp only [Stores.run]
      split_ifs
      · rfl
      · cases hc : s.jobs.create job with
        | none => rfl
        | some t =>
            apply stores_eq
            · exact Table.create_filter_other hc hfalse
            · apply filter_events
              intro event _
              simp only [owns, Stores.findById, Option.getD_some, Table.create_findUnique hc]
              split_ifs with hid
              · rw [hid, (Table.create_eq_some hc).1]
                simpa using hfalse
              · rfl
            · rfl
            · rfl
            · rfl
  | write jobId wr =>
      rw [view_write]
      apply stores_eq
      · refine Table.update_self (fun row => wr.apply_id now row) fun row hrow => ?_
        obtain ⟨hrow, huser⟩ := Option.filter_eq_some_iff.mp (findById_view.symm.trans hrow)
        rcases h with ⟨howned, -⟩ | hscoped
        · have := hother howned
          simp only [owns, hrow, Option.any_some, huser] at this
          cases this
        · exact apply_scoped hscoped (by simpa using (of_decide_eq_true huser).trans_ne hne)
      · rfl
      · rfl
      · rfl
      · rfl
  | addEvent event =>
      apply stores_eq
      · rfl
      · exact filter_snoc_other (hother h)
      · rfl
      · rfl
      · rfl
  | setEntry jobId entry =>
      apply stores_eq
      · rfl
      · rfl
      · funext id
        simp only [viewStores, Stores.run]
        by_cases hid : id = jobId
        · subst hid
          have hnew : entry.filter (fun e => e.userId = userId) = none := by
            rw [Option.filter_eq_none_iff]
            intro e he
            simp [h.2 e he, Ne.symm hne]
          have hold : (s.queue id).filter (fun e => e.userId = userId) = none := by
            rw [Option.filter_eq_none_iff]
            intro e he
            simp [owned_unique (hentries id e he) h.1, Ne.symm hne]
          rw [Function.update_self, hnew, hold]
        · rw [Function.update_of_ne hid]
      · rfl
      · rfl
  | addDlq entry =>
      have huser : entry.userId = userId' := h
      apply stores_eq
      · rfl
      · rfl
      · rfl
      · exact filter_snoc_other (by simp [huser, Ne.symm hne])
      · rfl
  | putObject key object =>
      apply stores_eq
      · rfl
      · rfl
      · rfl
      · rfl
      · funext key'
        simp only [viewStores, Stores.run]
        by_cases hkey : key' = key
        · subst hkey
          have hbelongs := UserKey.other h hne hu hu'
          rw [hbelongs]
          rfl
        · rw [Function.update_of_ne hkey]
  | deleteObjects keys =>
      apply stores_eq
      · rfl
      · rfl
      · rfl
      · rfl
      · funext key
        simp only [viewStores, Stores.run]
        by_cases hkey : key ∈ keys
        · have hbelongs := UserKey.other (h key hkey) hne hu hu'
          rw [hbelongs]
          rfl
        · rw [if_neg hkey]

end FieldNote.UserViews
