import FieldNote.IdempotencyKeys
import FieldNote.JobStatements

/-!
# Create calls that carry one idempotency key

The lookup of a create call ignores deleted rows while the unique constraint does not, and
lookup and insertion are two statements. The guard is about the lookup: when it runs, no
deleted row of the user carries the key, and no other call with the key is between its
lookup and its insertion. Under it the calls of a user with one key all answer, and with
the same job. Outside it the call that looked up, or the one it races, ends in a conflict.
Ids are UUIDs: an insertion finds its id free. The controller never passes an empty key.
-/
namespace FieldNote.CreateOnce
open JobsService ServerRuns GuardedRuns CallPool

/-- The row, live or deleted, carries the user's key. -/
def carries (userId key : String) (job : Job) : Bool :=
  job.userId = userId && job.idempotencyKey = some key

/-- The call is the user's and carries the key. -/
def asks (userId key : String) (c : CreateCall) : Bool :=
  c.userId = userId && c.idempotencyKey = some key

/-- The call has looked the key up in vain and is about to insert. -/
def pending (userId key : String) : Thread → Bool
  | .create c => asks userId key c && c.pc = .createDraft
  | _ => false

/-- No statement of a call with the key fails for lack of infrastructure, and the generated
id is fresh. -/
def healthy (userId key : String) (w : World) : Action → Bool
  | .step i env =>
      match w.threads[i]? with
      | some t => !pending userId key t || (w.stores.findById env.id).isNone
      | none => true
  | .throw i _ _ _ =>
      match w.threads[i]? with
      | some (.create c) => !asks userId key c
      | _ => true
  | _ => true

/-- A lookup of the key finds no deleted row that carries it, and no pending insertion. -/
def lookupAlone (userId key : String) (w : World) : Action → Bool
  | .step i _ =>
      match w.threads[i]? with
      | some (.create c) =>
          !asks userId key c || c.pc ≠ .findByIdempotencyKey key ||
            (w.stores.jobs.rows.all fun job => !carries userId key job || job.deletedAt.isNone) &&
              w.threads.all fun t => !pending userId key t
      | _ => true
  | _ => true

def Healthy (userId key : String) (w : World) (a : Action) : Prop :=
  healthy userId key w a = true

def Guard (userId key : String) (w : World) (a : Action) : Prop :=
  healthy userId key w a = true ∧ lookupAlone userId key w a = true

instance {userId key : String} : DecidableRel (Healthy userId key) :=
  fun _ _ => inferInstanceAs (Decidable (_ = true))

instance {userId key : String} : DecidableRel (Guard userId key) :=
  fun _ _ => inferInstanceAs (Decidable (_ ∧ _))

variable {cfg : ServerConfig} {w w' : World} {s : Stores} {a : Action} {userId key : String}

/-- Where a create call of the pool comes from. -/
inductive CallEffect (cfg : ServerConfig) (w : World) (a : Action) (w' : World) (k : ℕ)
    (c' : CreateCall) : Prop where
  | kept (thread : w.threads[k]? = some (.create c'))
  | moved (env : Env) (c : CreateCall) (pc : CreatePc) (op : Op) (action : a = .step k env)
      (thread : w.threads[k]? = some (.create c))
      (next : nextCreate cfg w.stores env c = some (pc, op)) (eq : c' = { c with pc := pc })
      (stores : w'.stores = w.stores.run env.now op)
  | thrown (env : Env) (e : PipelineService.Err) (applied : Bool) (c : CreateCall) (pc : CreatePc)
      (action : a = .throw k env e applied) (thread : w.threads[k]? = some (.create c))
      (eq : c' = { c with pc := pc })
  | called (userId label : String) (key : Option String) (new : k = w.threads.length)
      (eq : c' = JobsService.create userId label key)

theorem call_append_cases {new : List Thread} {k : ℕ} {c' : CreateCall}
    (hnew : ∀ c, .create c ∉ new) (h : (w.threads ++ new)[k]? = some (.create c')) :
    CallEffect cfg w a w' k c' := by
  by_cases hk : k < w.threads.length
  · rw [List.getElem?_append_left hk] at h
    exact .kept h
  · rw [List.getElem?_append_right (Nat.le_of_not_lt hk)] at h
    exact (hnew c' (List.mem_of_getElem? h)).elim

theorem call_cases {k : ℕ} {c' : CreateCall} (hs : step cfg w a = some w')
    (h : w'.threads[k]? = some (.create c')) : CallEffect cfg w a w' k c' := by
  cases step_effect hs with
  | called request =>
      rcases getElem?_start_cases h with ⟨hk, hc⟩ | ⟨-, hk⟩
      · cases request with
        | create userId label key =>
            cases hc
            exact .called userId label key hk rfl
        | _ => cases hc
      · exact .kept hk
  | stepped i env t t' op spawned thread next =>
      rcases getElem?_advance_cases h with ⟨rfl, hc⟩ | ⟨-, hk⟩ | ⟨-, hk⟩
      · subst hc
        cases next_segment next with
        | create c pc op hn => exact .moved env c pc op rfl thread hn rfl rfl
      · exact .kept hk
      · exact (next_spawned next c' (List.mem_of_getElem? hk)).elim
  | threw i env e t t' thread throws =>
      rcases getElem?_advance_cases h with ⟨rfl, hc⟩ | ⟨-, hk⟩ | ⟨-, hk⟩
      · subst hc
        generalize hc : Thread.create c' = t' at throws
        cases throwing_cases throws <;> cases hc
        exact .thrown env e false _ _ rfl thread rfl
      · exact .kept hk
      · cases hk
  | lost i env e t t' t₁ op spawned thread throws next =>
      rcases getElem?_advance_cases h with ⟨rfl, hc⟩ | ⟨-, hk⟩ | ⟨-, hk⟩
      · subst hc
        generalize hc : Thread.create c' = t' at throws
        cases throwing_cases throws <;> cases hc
        exact .thrown env e true _ _ rfl thread rfl
      · exact .kept hk
      · cases hk
  | timedOut i t t' thread out =>
      rcases getElem?_advance_cases h with ⟨rfl, hc⟩ | ⟨-, hk⟩ | ⟨-, hk⟩
      · subst hc
        unfold timingOut at out
        split at out
        · split at out <;> cases out
        · cases out
      · exact .kept hk
      · cases hk
  | acked i a e entry thread pc queued =>
      rcases getElem?_advance_cases h with ⟨rfl, hc⟩ | ⟨-, hk⟩ | ⟨-, hk⟩
      · cases hc
      · exact .kept hk
      · exact (settle_not_create (List.mem_of_getElem? hk)).elim
  | picked jobId entry queued waiting => exact call_append_cases (by simp) h
  | promoted jobId entry queued delayed => exact call_append_cases (by simp) h
  | purged jobId entry queued completed => exact call_append_cases (by simp) h
  | uploaded userId jobId bytes => exact .kept h

/-- Where a row after an operation comes from, as to its owner and its key. -/
theorem run_carrier {now : ℕ} {op : Op} {jobId : String} {job' : Job}
    (h : (s.run now op).findById jobId = some job') :
    (∃ job, s.findById jobId = some job ∧ job'.userId = job.userId ∧
      job'.idempotencyKey = job.idempotencyKey) ∨
    (op = .insertJob job' ∧ s.keyTaken job' = false) := by
  rcases Stores.run_row_before h with hrow | ⟨wr, job, -, hrow, rfl⟩ | ⟨rfl, -, hfree⟩
  · exact .inl ⟨job', hrow, rfl, rfl⟩
  · exact .inl ⟨job, hrow, wr.apply_userId now job, wr.apply_idempotencyKey now job⟩
  · refine .inr ⟨rfl, ?_⟩
    cases htaken : s.keyTaken job' with
    | false => rfl
    | true =>
        rw [Stores.run, if_pos htaken, hfree] at h
        cases h

/-- The job's row carries the key. -/
def Carrier (s : Stores) (userId key jobId : String) : Prop :=
  ∃ job, s.findById jobId = some job ∧ carries userId key job = true

theorem Carrier.run {jobId : String} (now : ℕ) (op : Op) (h : Carrier s userId key jobId) :
    Carrier (s.run now op) userId key jobId := by
  obtain ⟨job, hjob, hc⟩ := h
  rcases Stores.run_row_after now op hjob with hkept | ⟨wr, -, hwritten⟩
  · exact ⟨job, hkept, hc⟩
  · refine ⟨_, hwritten, ?_⟩
    simpa only [carries, wr.apply_userId, wr.apply_idempotencyKey] using hc

/-- A carrier after an operation was one before, or has just been inserted where the key
was free. -/
theorem carrier_cases {now : ℕ} {op : Op} {jobId : String}
    (h : Carrier (s.run now op) userId key jobId) :
    Carrier s userId key jobId ∨
      ∃ job, op = .insertJob job ∧ job.id = jobId ∧ carries userId key job = true ∧
        s.keyTaken job = false := by
  obtain ⟨job', hjob', hc⟩ := h
  rcases run_carrier hjob' with ⟨job, hjob, huser, hkey⟩ | ⟨hop, hfree⟩
  · exact .inl ⟨job, hjob, by simpa only [carries, huser, hkey] using hc⟩
  · exact .inr ⟨job', hop, Table.findUnique_key hjob', hc, hfree⟩

theorem keyTaken_iff {job : Job} (hc : carries userId key job = true) :
    s.keyTaken job = true ↔ ∃ jobId, Carrier s userId key jobId := by
  simp only [carries, Bool.and_eq_true, decide_eq_true_eq] at hc
  obtain ⟨rfl, hkey⟩ := hc
  simp only [Stores.keyTaken, hkey, Option.isSome_some, Bool.true_and, List.any_eq_true,
    Bool.and_eq_true, decide_eq_true_eq]
  constructor
  · rintro ⟨r, hr, huser, hk⟩
    exact ⟨r.id, r, Table.findUnique_of_mem hr, by simp [carries, huser, hk]⟩
  · rintro ⟨jobId, r, hr, hc⟩
    simp only [carries, Bool.and_eq_true, decide_eq_true_eq] at hc
    exact ⟨r, (Table.findUnique_eq_some.mp hr).1, hc⟩

theorem draft_carries {env : Env} {c : CreateCall} (h : asks userId key c = true) :
    carries userId key (draft env c) = true := h

/-- At most one row carries a key. -/
def Unique (s : Stores) (userId key : String) : Prop :=
  ∀ jobId jobId', Carrier s userId key jobId → Carrier s userId key jobId' → jobId = jobId'

theorem Unique.run (now : ℕ) (op : Op) (h : Unique s userId key) :
    Unique (s.run now op) userId key := by
  intro jobId jobId' hc hc'
  rcases carrier_cases hc with hold | ⟨job, hop, hid, hkey, hfree⟩
  · rcases carrier_cases hc' with hold' | ⟨job, -, -, hkey, hfree⟩
    · exact h jobId jobId' hold hold'
    · rw [(keyTaken_iff hkey).mpr ⟨jobId, hold⟩] at hfree
      cases hfree
  · rcases carrier_cases hc' with hold' | ⟨job', hop', hid', -, -⟩
    · rw [(keyTaken_iff hkey).mpr ⟨jobId', hold'⟩] at hfree
      cases hfree
    · rw [hop] at hop'
      cases hop'
      exact hid.symm.trans hid'

/-- What holds of the calls with the key as long as the guard is met. -/
structure Inv (w : World) (userId key : String) : Prop where
  unique : Unique w.stores userId key
  looking : ∀ (k : ℕ) c key', w.threads[k]? = some (.create c) → asks userId key c = true →
    c.pc = .findByIdempotencyKey key' → key' = key
  succeeding : ∀ (k : ℕ) c e, w.threads[k]? = some (.create c) → asks userId key c = true →
    c.pc ≠ .threw e
  returned : ∀ (k : ℕ) c response, w.threads[k]? = some (.create c) → asks userId key c = true →
    c.pc = .returned response → Carrier w.stores userId key response.job.id
  one : ∀ (i j : ℕ) c c', w.threads[i]? = some (.create c) → w.threads[j]? = some (.create c') →
    pending userId key (.create c) = true → pending userId key (.create c') = true → i = j
  free : ∀ (k : ℕ) c, w.threads[k]? = some (.create c) → pending userId key (.create c) = true →
    ∀ jobId, ¬ Carrier w.stores userId key jobId

theorem inv_empty : Inv World.empty userId key := by
  refine ⟨?_, ?_, ?_, ?_, ?_, ?_⟩
  · rintro jobId jobId' ⟨job, hjob, -⟩
    cases hjob
  all_goals
    intro k c
    simp [World.empty]

theorem pending_create {c : CreateCall} :
    pending userId key (.create c) = true ↔ asks userId key c = true ∧ c.pc = .createDraft := by
  simp [pending]

theorem asks_eq {c : CreateCall} :
    asks userId key c = true ↔ c.userId = userId ∧ c.idempotencyKey = some key := by
  simp [asks]

/-- The segments of a create call. -/
inductive Segment (cfg : ServerConfig) (s : Stores) (env : Env) (c : CreateCall) :
    CreatePc → Op → Prop where
  | found (key : String) (job : Job) (pc : c.pc = .findByIdempotencyKey key)
      (row : s.findByIdempotencyKey c.userId key = some job) :
      Segment cfg s env c (.returned (createResponse cfg c.userId job)) .none
  | missed (key : String) (pc : c.pc = .findByIdempotencyKey key)
      (row : s.findByIdempotencyKey c.userId key = none) : Segment cfg s env c .createDraft .none
  | conflict (pc : c.pc = .createDraft)
      (taken : s.keyTaken (draft env c) = true ∨ s.findById env.id ≠ none) :
      Segment cfg s env c (.threw .alreadyExists) .none
  | inserted (pc : c.pc = .createDraft) (key_free : s.keyTaken (draft env c) = false)
      (id_free : s.findById env.id = none) :
      Segment cfg s env c (.returned (createResponse cfg c.userId (draft env c)))
        (.insertJob (draft env c))

theorem nextCreate_segment {env : Env} {c : CreateCall} {pc : CreatePc} {op : Op}
    (h : nextCreate cfg s env c = some (pc, op)) : Segment cfg s env c pc op := by
  unfold nextCreate at h
  split at h
  · rename_i key hpc
    split at h
    · rename_i job hjob
      cases h
      exact .found key job hpc hjob
    · rename_i hnone
      cases h
      exact .missed key hpc hnone
  · rename_i hpc
    split_ifs at h with htaken
    · cases h
      refine .conflict hpc ?_
      simpa [Option.ne_none_iff_isSome] using htaken
    · cases h
      simp only [Bool.or_eq_true, not_or, Bool.not_eq_true, Option.isSome_eq_false_iff,
        Option.isNone_iff_eq_none] at htaken
      exact .inserted hpc htaken.1 htaken.2
  · cases h
  · cases h

/-- The row that the lookup finds carries the key. -/
theorem found_carrier {job : Job} (h : s.findByIdempotencyKey userId key = some job) :
    Carrier s userId key job.id := by
  have hsel := List.find?_some h
  simp only [Job.inScope, Bool.and_eq_true, decide_eq_true_eq] at hsel
  exact ⟨job, Table.findUnique_of_mem (List.mem_of_find?_eq_some h),
    by simp [carries, hsel.1.1, hsel.2]⟩

/-- A lookup that fails although a row carries the key missed a deleted row. -/
theorem missed_deleted {jobId : String} (h : s.findByIdempotencyKey userId key = none)
    (hc : Carrier s userId key jobId) :
    ∃ job ∈ s.jobs.rows, carries userId key job = true ∧ job.deletedAt ≠ none := by
  obtain ⟨job, hjob, hcarries⟩ := hc
  have hmem : job ∈ s.jobs.rows := (Table.findUnique_eq_some.mp hjob).1
  refine ⟨job, hmem, hcarries, fun hlive => ?_⟩
  have hnot := List.find?_eq_none.mp h job hmem
  simp only [carries, Bool.and_eq_true, decide_eq_true_eq] at hcarries
  simp [Job.inScope, hcarries, hlive] at hnot

theorem step_call {i : ℕ} {env : Env} {c : CreateCall} {pc : CreatePc} {op : Op}
    (hs : step cfg w (.step i env) = some w') (ht : w.threads[i]? = some (.create c))
    (hn : nextCreate cfg w.stores env c = some (pc, op)) :
    w' = w.advance env.now i (.create { c with pc := pc }) op [] := by
  simp only [step, ht, Option.bind_some, next, hn, Option.map_some, Option.some.injEq] at hs
  exact hs.symm

/-- A new carrier of the key is inserted by a call that was about to. -/
theorem carrier_step {jobId : String} (hs : step cfg w a = some w')
    (hh : Healthy userId key w a) (h : Carrier w'.stores userId key jobId) :
    Carrier w.stores userId key jobId ∨
      ∃ (i : ℕ) (env : Env) (c : CreateCall) (pc : CreatePc), a = .step i env ∧
        w.threads[i]? = some (.create c) ∧ pending userId key (.create c) = true ∧
          w'.threads[i]? = some (.create { c with pc := pc }) ∧ pc ≠ .createDraft := by
  have hkept : ∀ {now : ℕ} {op : Op}, op.inserted = none →
      Carrier (w.stores.run now op) userId key jobId → Carrier w.stores userId key jobId := by
    intro now op hop hc
    rcases carrier_cases hc with hold | ⟨job, rfl, -⟩
    · exact hold
    · cases hop
  -- an operation that inserts is a create call's
  have hinsert : ∀ {env : Env} {t t' : Thread} {job : Job} {spawned : List Thread},
      next cfg w env t = some (t', .insertJob job, spawned) → ∃ c pc, t = .create c ∧
        t' = .create { c with pc := pc } ∧ nextCreate cfg w.stores env c = some (pc, .insertJob job) := by
    intro env t t' job spawned hn
    cases next_operates hn with
    | create c =>
        cases next_segment hn with
        | create c pc op hc => exact ⟨c, pc, rfl, rfl, hc⟩
  cases step_effect hs with
  | stepped i env t t' op spawned thread next =>
      rcases carrier_cases h with hold | ⟨job, rfl, -, hcarries, -⟩
      · exact .inl hold
      · obtain ⟨c, pc, rfl, rfl, hn⟩ := hinsert next
        cases nextCreate_segment hn with
        | inserted hpc key_free id_free =>
            exact .inr ⟨i, env, c, _, rfl, thread, pending_create.mpr ⟨hcarries, hpc⟩,
              getElem?_advance_same thread, nofun⟩
  | lost i env e t t' t₁ op spawned thread throws next =>
      rcases carrier_cases h with hold | ⟨job, rfl, -, hcarries, -⟩
      · exact .inl hold
      · obtain ⟨c, pc, rfl, rfl, hn⟩ := hinsert next
        cases nextCreate_segment hn with
        | inserted hpc key_free id_free =>
            have hasks : asks userId key c = true := hcarries
            simp [Healthy, healthy, thread, hasks] at hh
  | called request => exact .inl h
  | threw i env e t t' thread throws => exact .inl (hkept rfl h)
  | timedOut i t t' thread out => exact .inl (hkept rfl h)
  | acked i a e entry thread pc queued => exact .inl (hkept rfl h)
  | picked jobId' entry queued waiting => exact .inl (hkept rfl h)
  | promoted jobId' entry queued delayed => exact .inl (hkept rfl h)
  | purged jobId' entry queued completed => exact .inl (hkept rfl h)
  | uploaded userId' jobId' bytes => exact .inl (hkept rfl h)

theorem lookup_alone {i : ℕ} {env : Env} {c : CreateCall}
    (hg : lookupAlone userId key w (.step i env) = true) (ht : w.threads[i]? = some (.create c))
    (hasks : asks userId key c = true) (hpc : c.pc = .findByIdempotencyKey key) :
    (∀ job ∈ w.stores.jobs.rows, carries userId key job = true → job.deletedAt = none) ∧
      ∀ t ∈ w.threads, pending userId key t = false := by
  simp only [lookupAlone, ht, hasks, Bool.not_true, Bool.false_or, hpc, ne_eq,
    not_true_eq_false, decide_false, Bool.and_eq_true, List.all_eq_true, Bool.or_eq_true,
    Bool.not_eq_true', Option.isNone_iff_eq_none] at hg
  refine ⟨fun job hjob hc => ?_, hg.2⟩
  rcases hg.1 job hjob with hno | hlive
  · rw [hc] at hno
    cases hno
  · exact hlive

/-- Under the guard a lookup in vain finds the key free. -/
theorem missed_free {i : ℕ} {env : Env} {c : CreateCall}
    (hg : lookupAlone userId key w (.step i env) = true) (ht : w.threads[i]? = some (.create c))
    (hasks : asks userId key c = true) (hpc : c.pc = .findByIdempotencyKey key)
    (hmissed : w.stores.findByIdempotencyKey c.userId key = none) (jobId : String) :
    ¬ Carrier w.stores userId key jobId := by
  intro hc
  rw [(asks_eq.mp hasks).1] at hmissed
  obtain ⟨job, hjob, hcarries, hdeleted⟩ := missed_deleted hmissed hc
  exact hdeleted ((lookup_alone hg ht hasks hpc).1 job hjob hcarries)

/-- In a healthy step no call that carries the key throws. -/
theorem healthy_throw {k : ℕ} {c : CreateCall} {env : Env} {e : PipelineService.Err}
    {applied : Bool} (hh : Healthy userId key w (.throw k env e applied))
    (thread : w.threads[k]? = some (.create c)) : asks userId key c = false := by
  by_contra hasks
  simp [Healthy, healthy, thread, hasks] at hh

/-- A call that is about to insert was so before the step, or has just looked up. -/
theorem pending_cases {k : ℕ} {c' : CreateCall} (hkey : key ≠ "") (h : Inv w userId key)
    (hh : Healthy userId key w a) (hs : step cfg w a = some w')
    (ht : w'.threads[k]? = some (.create c')) (hp : pending userId key (.create c') = true) :
    w.threads[k]? = some (.create c') ∨
      ∃ env c, a = .step k env ∧ w.threads[k]? = some (.create c) ∧ asks userId key c = true ∧
        c.pc = .findByIdempotencyKey key ∧
          w.stores.findByIdempotencyKey c.userId key = none ∧ w'.stores = w.stores := by
  obtain ⟨hasks, hpc⟩ := pending_create.mp hp
  cases call_cases hs ht with
  | kept thread => exact .inl thread
  | moved env c pc op action thread next eq stores =>
      subst eq
      cases nextCreate_segment next with
      | missed key' pc row =>
          obtain rfl := h.looking k c key' thread hasks pc
          exact .inr ⟨env, c, action, thread, hasks, pc, row, stores⟩
      | found key' job pc row => cases hpc
      | conflict pc taken => cases hpc
      | inserted pc key_free id_free => cases hpc
  | thrown env e applied c pc action thread eq =>
      subst eq
      subst action
      exact (Bool.eq_false_iff.mp (healthy_throw hh thread) hasks).elim
  | called userId' label key' new eq =>
      subst eq
      obtain ⟨-, hk⟩ := asks_eq.mp hasks
      simp only [JobsService.create] at hk hpc
      subst hk
      simp [hkey] at hpc

theorem carrier_kept {jobId : String} (hs : step cfg w a = some w')
    (hc : Carrier w.stores userId key jobId) : Carrier w'.stores userId key jobId := by
  obtain ⟨now, op, heq⟩ := step_stores hs
  rw [heq]
  exact hc.run now op

/-- A new call has not ended. -/
theorem create_running (userId label : String) (key : Option String) :
    (∀ e, (JobsService.create userId label key).pc ≠ .threw e) ∧
      ∀ response, (JobsService.create userId label key).pc ≠ .returned response := by
  unfold JobsService.create
  cases key with
  | none => exact ⟨by simp, by simp⟩
  | some key =>
      dsimp only
      split_ifs <;> exact ⟨by simp, by simp⟩

theorem looking_kept {k : ℕ} {c : CreateCall} {key' : String} (h : Inv w userId key)
    (hh : Healthy userId key w a) (hs : step cfg w a = some w')
    (ht : w'.threads[k]? = some (.create c)) (hasks : asks userId key c = true)
    (hpc : c.pc = .findByIdempotencyKey key') : key' = key := by
  cases call_cases hs ht with
  | kept thread => exact h.looking k c key' thread hasks hpc
  | moved env c pc op action thread next eq stores =>
      subst eq
      cases nextCreate_segment next <;> cases hpc
  | thrown env e applied c pc action thread eq =>
      subst eq
      subst action
      exact (Bool.eq_false_iff.mp (healthy_throw hh thread) hasks).elim
  | called userId' label key'' new eq =>
      subst eq
      have hlook := (create_keyInv (s := w.stores) userId' label key'').looking key' hpc
      rw [(asks_eq.mp hasks).2] at hlook
      exact (Option.some.inj hlook).symm

theorem succeeding_kept {k : ℕ} {c : CreateCall} {e : HttpError} (h : Inv w userId key)
    (hh : Healthy userId key w a) (hs : step cfg w a = some w')
    (ht : w'.threads[k]? = some (.create c)) (hasks : asks userId key c = true) :
    c.pc ≠ .threw e := by
  intro hpc
  cases call_cases hs ht with
  | kept thread => exact h.succeeding k c e thread hasks hpc
  | moved env c pc op action thread next eq stores =>
      subst eq
      have hasks' : asks userId key c = true := hasks
      cases nextCreate_segment next with
      | conflict pc₀ taken =>
          have hp : pending userId key (.create c) = true := pending_create.mpr ⟨hasks', pc₀⟩
          rcases taken with htaken | hid
          · obtain ⟨jobId, hc⟩ := (keyTaken_iff (draft_carries hasks')).mp htaken
            exact h.free k c thread hp jobId hc
          · simp [action, Healthy, healthy, thread, hp, hid] at hh
      | found key' job pc row => cases hpc
      | missed key' pc row => cases hpc
      | inserted pc key_free id_free => cases hpc
  | thrown env e' applied c pc action thread eq =>
      subst eq
      subst action
      exact Bool.eq_false_iff.mp (healthy_throw hh thread) hasks
  | called userId' label key' new eq =>
      subst eq
      exact (create_running userId' label key').1 e hpc

theorem returned_kept {k : ℕ} {c : CreateCall} {response : CreateJobResponse}
    (h : Inv w userId key) (hh : Healthy userId key w a) (hs : step cfg w a = some w')
    (ht : w'.threads[k]? = some (.create c)) (hasks : asks userId key c = true)
    (hpc : c.pc = .returned response) : Carrier w'.stores userId key response.job.id := by
  cases call_cases hs ht with
  | kept thread => exact carrier_kept hs (h.returned k c response thread hasks hpc)
  | moved env c pc op action thread next eq stores =>
      subst eq
      have hasks' : asks userId key c = true := hasks
      cases nextCreate_segment next with
      | found key' job pc₀ row =>
          cases hpc
          obtain rfl := h.looking k c key' thread hasks' pc₀
          rw [(asks_eq.mp hasks').1] at row
          exact carrier_kept hs (found_carrier row)
      | inserted pc₀ key_free id_free =>
          cases hpc
          rw [stores]
          exact ⟨draft env c, run_insertJob key_free id_free, draft_carries hasks'⟩
      | missed key' pc₀ row => cases hpc
      | conflict pc₀ taken => cases hpc
  | thrown env e applied c pc action thread eq =>
      subst eq
      subst action
      exact (Bool.eq_false_iff.mp (healthy_throw hh thread) hasks).elim
  | called userId' label key' new eq =>
      subst eq
      exact ((create_running userId' label key').2 response hpc).elim

theorem one_kept {i j : ℕ} {ci cj : CreateCall} (hkey : key ≠ "") (h : Inv w userId key)
    (hg : Guard userId key w a) (hs : step cfg w a = some w')
    (hi : w'.threads[i]? = some (.create ci)) (hj : w'.threads[j]? = some (.create cj))
    (hpi : pending userId key (.create ci) = true)
    (hpj : pending userId key (.create cj) = true) : i = j := by
  obtain ⟨hh, halone⟩ := hg
  rcases pending_cases hkey h hh hs hi hpi with hi | ⟨env, c, hai, hti, hasks, hpc, -, -⟩
  · rcases pending_cases hkey h hh hs hj hpj with hj | ⟨env, c, haj, htj, hasks, hpc, -, -⟩
    · exact h.one i j ci cj hi hj hpi hpj
    · subst haj
      have hnone := (lookup_alone halone htj hasks hpc).2 _ (List.mem_of_getElem? hi)
      rw [hpi] at hnone
      cases hnone
  · rcases pending_cases hkey h hh hs hj hpj with hj | ⟨env', c', haj, -, -, -, -, -⟩
    · subst hai
      have hnone := (lookup_alone halone hti hasks hpc).2 _ (List.mem_of_getElem? hj)
      rw [hpj] at hnone
      cases hnone
    · rw [hai] at haj
      cases haj
      rfl

theorem free_kept {k : ℕ} {c' : CreateCall} (hkey : key ≠ "") (h : Inv w userId key)
    (hg : Guard userId key w a) (hs : step cfg w a = some w')
    (ht : w'.threads[k]? = some (.create c')) (hp : pending userId key (.create c') = true)
    (jobId : String) : ¬ Carrier w'.stores userId key jobId := by
  obtain ⟨hh, halone⟩ := hg
  intro hc
  rcases pending_cases hkey h hh hs ht hp with hk | ⟨env, c, rfl, hk, hasks, hpc, hmiss, heq⟩
  · rcases carrier_step hs hh hc with hold | ⟨i, env, c, pc, -, hi, hpi, hi', hpc⟩
    · exact h.free k c' hk hp jobId hold
    · -- the call that has inserted is this one, so it is not about to insert any more
      obtain rfl := h.one i k c c' hi hk hpi hp
      rw [ht] at hi'
      cases hi'
      exact hpc (pending_create.mp hp).2
  · rw [heq] at hc
    exact missed_free halone hk hasks hpc hmiss jobId hc

theorem inv_step (hkey : key ≠ "") (h : Inv w userId key) (hg : Guard userId key w a)
    (hs : step cfg w a = some w') : Inv w' userId key := by
  refine ⟨?_, ?_, ?_, ?_, ?_, ?_⟩
  · obtain ⟨now, op, heq⟩ := step_stores hs
    rw [heq]
    exact h.unique.run now op
  · intro k c key' ht hasks hpc
    exact looking_kept h hg.1 hs ht hasks hpc
  · intro k c e ht hasks
    exact succeeding_kept h hg.1 hs ht hasks
  · intro k c response ht hasks hpc
    exact returned_kept h hg.1 hs ht hasks hpc
  · intro i j ci cj hi hj hpi hpj
    exact one_kept hkey h hg hs hi hj hpi hpj
  · intro k c ht hp jobId
    exact free_kept hkey h hg hs ht hp jobId

/-- What idempotency per key asks of a state. -/
structure Idempotent (cfg : ServerConfig) (w : World) (userId key : String) : Prop where
  one_live : ∀ job ∈ w.stores.jobs.rows, ∀ job' ∈ w.stores.jobs.rows,
    carries userId key job = true → carries userId key job' = true → job.deletedAt = none →
      job'.deletedAt = none → job = job'
  succeeds : ∀ c, .create c ∈ w.threads → asks userId key c = true →
    (∃ response, c.pc = .returned response) ∨
      ((∀ e, c.pc ≠ .threw e) ∧ ∀ env, (nextCreate cfg w.stores env c).isSome = true)
  same_job : ∀ c c' response response', .create c ∈ w.threads → .create c' ∈ w.threads →
    asks userId key c = true → asks userId key c' = true → c.pc = .returned response →
      c'.pc = .returned response' → response.job.id = response'.job.id

/-- A call that has neither answered nor failed can go on. -/
theorem nextCreate_isSome {c : CreateCall} (hret : ∀ response, c.pc ≠ .returned response)
    (hthrew : ∀ e, c.pc ≠ .threw e) (env : Env) : (nextCreate cfg s env c).isSome = true := by
  unfold nextCreate
  split
  · split <;> rfl
  · split_ifs <;> rfl
  · rename_i response hpc
    exact (hret response hpc).elim
  · rename_i e hpc
    exact (hthrew e hpc).elim

theorem Inv.idempotent (h : Inv w userId key) : Idempotent cfg w userId key := by
  refine ⟨?_, ?_, ?_⟩
  · intro job hjob job' hjob' hc hc' _ _
    have hfind := Table.findUnique_of_mem hjob
    have hfind' := Table.findUnique_of_mem hjob'
    rw [h.unique _ _ ⟨job, hfind, hc⟩ ⟨job', hfind', hc'⟩, hfind'] at hfind
    exact (Option.some.inj hfind).symm
  · intro c hc hasks
    obtain ⟨k, hk⟩ := List.mem_iff_getElem?.mp hc
    by_cases hret : ∃ response, c.pc = .returned response
    · exact .inl hret
    · have hthrew := fun e => h.succeeding k c e hk hasks
      exact .inr ⟨hthrew, nextCreate_isSome (not_exists.mp hret) hthrew⟩
  · intro c c' response response' hc hc' hasks hasks' hpc hpc'
    obtain ⟨k, hk⟩ := List.mem_iff_getElem?.mp hc
    obtain ⟨k', hk'⟩ := List.mem_iff_getElem?.mp hc'
    exact h.unique _ _ (h.returned k c response hk hasks hpc)
      (h.returned k' c' response' hk' hasks' hpc')

/-- Some call with the key has failed on it, or is going to. -/
inductive Broken (w : World) (userId key : String) : Prop where
  | failed (k : ℕ) (c : CreateCall) (thread : w.threads[k]? = some (.create c))
      (asks : asks userId key c = true) (pc : c.pc = .threw .alreadyExists)
  | taken (jobId : String) (k : ℕ) (c : CreateCall) (carrier : Carrier w.stores userId key jobId)
      (thread : w.threads[k]? = some (.create c)) (pending : pending userId key (.create c) = true)
  | racing (i j : ℕ) (c c' : CreateCall) (ne : i ≠ j) (first : w.threads[i]? = some (.create c))
      (second : w.threads[j]? = some (.create c')) (pending : pending userId key (.create c) = true)
      (pending' : CreateOnce.pending userId key (.create c') = true)

/-- What a step does to a call with the key. -/
theorem call_next {k : ℕ} {c : CreateCall} (hs : step cfg w a = some w')
    (hh : Healthy userId key w a) (ht : w.threads[k]? = some (.create c))
    (hasks : asks userId key c = true) :
    w'.threads[k]? = some (.create c) ∨
      ∃ env pc op, a = .step k env ∧ Segment cfg w.stores env c pc op ∧
        w'.threads[k]? = some (.create { c with pc := pc }) ∧
          w'.stores = w.stores.run env.now op := by
  obtain ⟨pc', hk'⟩ := call_kept hs ht
  cases call_cases hs hk' with
  | kept thread =>
      rw [ht] at thread
      rw [← Option.some.inj thread] at hk'
      exact .inl hk'
  | moved env c₀ pc op action thread next eq stores =>
      rw [ht] at thread
      cases thread
      rw [eq] at hk'
      exact .inr ⟨env, pc, op, action, nextCreate_segment next, hk', stores⟩
  | thrown env e applied c₀ pc action thread eq =>
      rw [ht] at thread
      cases thread
      simp [action, Healthy, healthy, ht, hasks] at hh
  | called userId' label key' new eq =>
      exact absurd (lt_of_getElem? ht) (by omega)

theorem broken_step (h : Broken w userId key) (hh : Healthy userId key w a)
    (hs : step cfg w a = some w') : Broken w' userId key := by
  -- a pending call that moves inserts or fails
  have hmoved : ∀ {k : ℕ} {c : CreateCall}, w.threads[k]? = some (.create c) →
      pending userId key (.create c) = true → w'.threads[k]? = some (.create c) ∨
        Broken w' userId key ∨ ((∃ env, a = .step k env) ∧
          ∃ jobId, Carrier w'.stores userId key jobId ∧
            ∀ jobId', ¬ Carrier w.stores userId key jobId') := by
    intro k c ht hp
    obtain ⟨hasks, hpc⟩ := pending_create.mp hp
    rcases call_next hs hh ht hasks with hk | ⟨env, pc, op, ha, hseg, hk, hstores⟩
    · exact .inl hk
    · cases hseg with
      | found key' job pc row =>
          rw [hpc] at pc
          cases pc
      | missed key' pc row =>
          rw [hpc] at pc
          cases pc
      | conflict pc taken => exact .inr (.inl (.failed k _ hk hasks rfl))
      | inserted pc key_free id_free =>
          refine .inr (.inr ⟨⟨env, ha⟩, env.id, ?_, ?_⟩)
          · rw [hstores]
            exact ⟨draft env c, run_insertJob key_free id_free, draft_carries hasks⟩
          · intro jobId' hc
            rw [(keyTaken_iff (draft_carries hasks)).mpr ⟨jobId', hc⟩] at key_free
            cases key_free
  cases h with
  | failed k c thread hasks pc =>
      rcases call_next hs hh thread hasks with hk | ⟨env, pc', op, -, hseg, -, -⟩
      · exact .failed k c hk hasks pc
      · cases hseg with
        | found key' job pc₀ row =>
            rw [pc] at pc₀
            cases pc₀
        | missed key' pc₀ row =>
            rw [pc] at pc₀
            cases pc₀
        | conflict pc₀ taken =>
            rw [pc] at pc₀
            cases pc₀
        | inserted pc₀ key_free id_free =>
            rw [pc] at pc₀
            cases pc₀
  | taken jobId k c carrier thread hp =>
      rcases hmoved thread hp with hk | hbroken | ⟨-, -, -, hfree⟩
      · obtain ⟨now, op, heq⟩ := step_stores hs
        exact .taken jobId k c (heq ▸ carrier.run now op) hk hp
      · exact hbroken
      · exact (hfree jobId carrier).elim
  | racing i j c c' ne first second hp hp' =>
      rcases hmoved first hp with hi | hbroken | ⟨⟨env, ha⟩, jobId, hc, -⟩
      · rcases hmoved second hp' with hj | hbroken | ⟨-, jobId, hc, -⟩
        · exact .racing i j c c' ne hi hj hp hp'
        · exact hbroken
        · exact .taken jobId i c hc hi hp
      · exact hbroken
      · rcases hmoved second hp' with hj | hbroken | ⟨⟨env', ha'⟩, -⟩
        · exact .taken jobId j c' hc hj hp'
        · exact hbroken
        · rw [ha] at ha'
          cases ha'
          exact (ne rfl).elim

/-- A step outside the guard is a lookup that some deleted row or pending call spoils. -/
theorem lookup_spoiled (hg : ¬ lookupAlone userId key w a = true) :
    ∃ i env c, a = .step i env ∧ w.threads[i]? = some (.create c) ∧ asks userId key c = true ∧
      c.pc = .findByIdempotencyKey key ∧
        ((∃ job ∈ w.stores.jobs.rows, carries userId key job = true ∧ job.deletedAt ≠ none) ∨
          ∃ t ∈ w.threads, pending userId key t = true) := by
  unfold lookupAlone at hg
  split at hg
  · rename_i i env
    split at hg
    · rename_i c ht
      simp only [Bool.or_eq_true, Bool.and_eq_true, List.all_eq_true, not_or, not_and, not_forall,
        Bool.not_eq_true', Bool.not_eq_false, decide_eq_true_eq, not_not, ne_eq] at hg
      obtain ⟨⟨hasks, hpc⟩, hrest⟩ := hg
      refine ⟨i, env, c, rfl, ht, hasks, hpc, ?_⟩
      by_cases hrows : ∃ job ∈ w.stores.jobs.rows,
          carries userId key job = true ∧ job.deletedAt ≠ none
      · exact .inl hrows
      · obtain ⟨t, ht, hp⟩ := hrest fun job hjob => by
          by_cases hc : carries userId key job = true
          · refine .inr (Option.isNone_iff_eq_none.mpr ?_)
            by_contra hdel
            exact hrows ⟨job, hjob, hc, hdel⟩
          · exact .inl (Bool.not_eq_true _ ▸ hc)
        exact .inr ⟨t, ht, by simpa using hp⟩
    · exact (hg rfl).elim
  · exact (hg rfl).elim

/-- A lookup outside the guard leaves a call that is bound to fail, or races one. -/
theorem broken_of_lookup (h : Inv w userId key) (hh : Healthy userId key w a)
    (hg : ¬ lookupAlone userId key w a = true) (hs : step cfg w a = some w') :
    Broken w' userId key := by
  obtain ⟨i, env, c, rfl, ht, hasks, hpc, hspoiled⟩ := lookup_spoiled hg
  have hmissed : w.stores.findByIdempotencyKey c.userId key = none := by
    cases hfound : w.stores.findByIdempotencyKey c.userId key with
    | none => rfl
    | some job =>
        rw [(asks_eq.mp hasks).1] at hfound
        have hcarrier := found_carrier hfound
        rcases hspoiled with ⟨job', hjob', hc', hdel⟩ | ⟨t, htmem, hp⟩
        · -- the deleted row is the only one that carries the key, so it is the one found
          have hfind' := Table.findUnique_of_mem hjob'
          have hid := h.unique _ _ hcarrier ⟨job', hfind', hc'⟩
          have hfind := Table.findUnique_of_mem (List.mem_of_find?_eq_some hfound)
          rw [hid, hfind'] at hfind
          cases hfind
          have hsel := List.find?_some hfound
          simp only [Job.inScope, Bool.and_eq_true, decide_eq_true_eq] at hsel
          exact (hdel (Option.isNone_iff_eq_none.mp hsel.1.2)).elim
        · cases t with
          | create c' =>
              obtain ⟨k, hk⟩ := List.mem_iff_getElem?.mp htmem
              exact (h.free k c' hk hp _ hcarrier).elim
          | _ => cases hp
  have hnext : nextCreate cfg w.stores env c = some (.createDraft, .none) := by
    simp [nextCreate, hpc, hmissed]
  obtain rfl := step_call hs ht hnext
  have hi : (w.advance env.now i (.create { c with pc := .createDraft }) .none []).threads[i]? =
      some (.create { c with pc := .createDraft }) := getElem?_advance_same ht
  have hp : pending userId key (.create { c with pc := .createDraft }) = true :=
    pending_create.mpr ⟨hasks, rfl⟩
  rcases hspoiled with ⟨job, hjob, hc, -⟩ | ⟨t, htmem, hp'⟩
  · exact .taken job.id i _ ⟨job, Table.findUnique_of_mem hjob, hc⟩ hi hp
  · cases t with
    | create c' =>
        obtain ⟨j, hj⟩ := List.mem_iff_getElem?.mp htmem
        have hji : j ≠ i := by
          rintro rfl
          rw [ht] at hj
          cases hj
          rw [(pending_create.mp hp').2] at hpc
          cases hpc
        exact .racing i j _ c' hji.symm hi (getElem?_advance_other hji hj) hp hp'
    | _ => cases hp'

/-- Every run whose lookups meet the guard is idempotent per key; and once a lookup breaks
it, some call with the key fails on the key before the calls that look up have ended. -/
theorem create_idempotent (cfg : ServerConfig) {userId key : String} {w : World}
    (hkey : key ≠ "") (hw : Run (step cfg) (Guard userId key) World.empty w) :
    Idempotent cfg w userId key ∧
      ∀ a w' w'', Healthy userId key w a → ¬ Guard userId key w a → step cfg w a = some w' →
        Run (step cfg) (Healthy userId key) w' w'' →
          (∀ t ∈ w''.threads, pending userId key t = false) →
            ∃ c, .create c ∈ w''.threads ∧ asks userId key c = true ∧
              c.pc = .threw .alreadyExists := by
  have hinv : Inv w userId key :=
    hw.invariant inv_empty fun _ _ _ hi hg hs => inv_step hkey hi hg hs
  refine ⟨hinv.idempotent, ?_⟩
  intro a w' w'' hh hg hs hrun hended
  have hbroken : Broken w'' userId key :=
    hrun.invariant (broken_of_lookup hinv hh (fun hl => hg ⟨hh, hl⟩) hs)
      fun _ _ _ hb hh hs => broken_step hb hh hs
  cases hbroken with
  | failed k c thread hasks pc => exact ⟨c, List.mem_of_getElem? thread, hasks, pc⟩
  | taken jobId k c carrier thread hp =>
      rw [hended _ (List.mem_of_getElem? thread)] at hp
      cases hp
  | racing i j c c' ne first second hp hp' =>
      rw [hended _ (List.mem_of_getElem? first)] at hp
      cases hp

/-- A create call of `user-1` with `key-1` as thread `i`, run to its end. -/
def createSchedule (i n : ℕ) (id : String) : List Action :=
  .call (.create "user-1" "Site A" (some "key-1")) :: steps i n { id := id }

/-- A call and its retry, one after the other. -/
theorem create_idempotent_demo :
    ∃ w, Run (step demo) (Guard "user-1" "key-1") World.empty w ∧
      Idempotent demo w "user-1" "key-1" ∧ w.threads.length = 2 := by
  have hend : (execWhere (step demo) (Guard "user-1" "key-1")
      (createSchedule 0 2 "job-1" ++ createSchedule 1 1 "job-2") World.empty).any
        (fun w => w.threads.length = 2) = true := by decide
  obtain ⟨w, hw, hp⟩ := execWhere_any hend
  exact ⟨w, hw, (create_idempotent demo (by decide) hw).1, of_decide_eq_true hp⟩

/-- The key of a deleted job cannot be used again. -/
theorem key_of_deleted_job_conflicts :
    ¬ ∀ (cfg : ServerConfig) (userId key : String) (w : World), key ≠ "" →
      Run (step cfg) (Healthy userId key) World.empty w → Idempotent cfg w userId key := by
  intro h
  have hend : (execWhere (step demo) (Healthy "user-1" "key-1")
      (createSchedule 0 2 "job-1" ++ .call (.remove "user-1" "job-1") :: steps 1 3 {} ++
        createSchedule 2 2 "job-2") World.empty).any (fun w => w.threads[2]? =
          some (.create ⟨"user-1", "Site A", some "key-1", .threw .alreadyExists⟩)) = true := by
    decide
  obtain ⟨w, hw, hp⟩ := execWhere_any hend
  have ht := List.mem_of_getElem? (of_decide_eq_true hp)
  rcases (h demo "user-1" "key-1" w (by decide) hw).succeeds _ ht (by decide) with
    ⟨response, hret⟩ | ⟨hthrew, -⟩
  · cases hret
  · exact hthrew _ rfl

end FieldNote.CreateOnce
