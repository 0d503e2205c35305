import FieldNote.StageLog

/-!
# Where the report of a READY job comes from

The compile stage is skipped when the row has sections, and a PATCH may store sections
before anything has been compiled. Apart from that, a job becomes READY for the first time
only over a committed compile of its transcript, provided that no transcript is replaced
while an attempt goes on from it.
-/
namespace FieldNote.ReportOrigin
open JobsService PipelineService ServerRuns StageLog GuardedRuns CallPool

/-- The sections of the job come from a PATCH: none of its attempts has committed a compile. -/
def handwritten (log : List Event) (jobId : String) : Bool :=
  Event.edited jobId ∈ log && !compiledIn log jobId

/-- The thread passes the checks of `process` on a row with handwritten sections. -/
def readsHandwritten (jobId : String) (s : World × List Event) : Thread → Bool
  | .attempt a =>
      a.jobId = jobId && a.pc = .findById && passes s.1 a && handwritten s.2 jobId &&
        (s.1.stores.findById jobId).any fun row => row.sections ≠ []
  | _ => false

/-- The thread goes on from a transcript of the job. -/
def relying (w : World) (jobId : String) : Thread → Bool
  | .attempt a =>
      a.jobId = jobId &&
        match a.pc with
        | .setStatus work | .addStarted work => work.stage = .compile
        | .racing work i =>
            work.stage = .transcribe && (w.bodyResult i).any fun
              | .ok _ => true
              | .error _ => false
        | .addCompleted work _ => work.stage = .transcribe
        | _ => false
  | .body b =>
      b.jobId = jobId &&
        match b.pc with
        | .compile _ _ | .replaceReport _ => true
        | _ => false
  | _ => false

/-- A compile of the job has been committed, or a thread goes on from its transcript. -/
def relies (s : World × List Event) (jobId : String) : Bool :=
  compiledIn s.2 jobId || s.1.threads.any (relying s.1 jobId)

/-- The thread commits another transcript than the stored one while that is relied on. -/
def overwrites (jobId : String) (s : World × List Event) : Thread → Bool
  | .body b =>
      match b.pc with
      | .saveTranscript text =>
          b.jobId = jobId && relies s jobId &&
            (s.1.stores.findById jobId).all fun row => row.transcript ≠ some text
      | _ => false
  | _ => false

def compiles (jobId : String) (s : World × List Event) : Action → Bool
  | .step i _ =>
      s.1.threads[i]?.all fun t => !readsHandwritten jobId s t && !overwrites jobId s t
  | .throw i _ _ true => s.1.threads[i]?.all fun t => !overwrites jobId s t
  | _ => true

/-- The guard of a job until it is READY: no attempt goes on from handwritten sections, and no
late body replaces a transcript that is relied on. -/
def Compiles (jobId : String) (s : World × List Event) (a : Action) : Prop :=
  Event.ready jobId ∈ s.2 ∨ compiles jobId s a = true

instance (jobId : String) : DecidableRel (Compiles jobId) :=
  fun _ _ => inferInstanceAs (Decidable (_ ∨ _))

def HasText (s : Stores) (jobId text : String) : Prop :=
  ∃ row, s.findById jobId = some row ∧ row.transcript = some text

/-- A compile of the stored transcript has been committed. -/
def Reported (s : Stores) (log : List Event) (jobId : String) : Prop :=
  ∃ i text report, Event.compiling i jobId text ∈ log ∧ Event.compiled i jobId report ∈ log ∧
    HasText s jobId text

/-- The attempt will compile unless that has been done. -/
def Unskipped (s : Stores) (log : List Event) (jobId : String) : Work → Prop
  | .transcribe job => job.existing = [] ∨ Reported s log jobId
  | _ => True

/-- What holds when an attempt is about to run a stage. -/
def Ahead (s : Stores) (log : List Event) (jobId : String) : Work → Prop
  | .transcribe job =>
      (∃ row, s.findById jobId = some row) ∧ (job.existing = [] ∨ Reported s log jobId)
  | .compile _ text => HasText s jobId text
  | .render _ _ => Reported s log jobId

/-- What holds when a stage has returned a result. -/
def Behind (s : Stores) (log : List Event) (jobId : String) (result : StageResult) : Work → Prop
  | .transcribe job =>
      HasText s jobId result.transcript ∧ (job.existing = [] ∨ Reported s log jobId)
  | .compile _ _ => Reported s log jobId
  | .render _ _ => True

/-- Thread `i` works on the stored transcript and renders only what was compiled from it. -/
def Faithful (jobId : String) (s : World × List Event) (i : ℕ) : Thread → Prop
  | .attempt a =>
      a.jobId = jobId →
        match a.pc with
        | .setStatus work | .addStarted work => Ahead s.1.stores s.2 jobId work
        | .racing work k =>
            Unskipped s.1.stores s.2 jobId work ∧ ∀ result, s.1.bodyResult k = some (.ok result) →
              Behind s.1.stores s.2 jobId result work
        | .addCompleted work result => Behind s.1.stores s.2 jobId result work
        | _ => True
  | .body b =>
      b.jobId = jobId →
        match b.pc with
        | .getObjectStream _ | .transcribe _ | .saveTranscript _ =>
            ∃ row, s.1.stores.findById jobId = some row
        | .compile _ text => Event.compiling i jobId text ∈ s.2 ∧ HasText s.1.stores jobId text
        | .replaceReport _ =>
            ∃ text, Event.compiling i jobId text ∈ s.2 ∧ HasText s.1.stores jobId text
        | .render _ | .putObject _ | .setPdfReady _ => Reported s.1.stores s.2 jobId
        | .done _ => True
  | _ => True

/-- What holds of a job that has not been READY yet. -/
structure Pending (jobId : String) (s : World × List Event) : Prop where
  faithful : ∀ i t, s.1.threads[i]? = some t → Faithful jobId s i t
  trees : ∀ row, s.1.stores.findById jobId = some row → row.sections ≠ [] →
    compiledIn s.2 jobId = true ∨ Event.edited jobId ∈ s.2
  reports : compiledIn s.2 jobId = true → Reported s.1.stores s.2 jobId

structure Inv (jobId : String) (s : World × List Event) : Prop where
  races : Races s.1
  unready : ∀ row, s.1.stores.findById jobId = some row → row.status = .READY →
    Event.ready jobId ∈ s.2
  pending : Event.ready jobId ∉ s.2 → Pending jobId s

variable {cfg : ServerConfig} {w w' : World} {log log' : List Event} {jobId : String} {op : Op}

/-- What a step keeps of the rows and the log. -/
structure Carries (jobId : String) (s s' : World × List Event) : Prop where
  row : (∃ row, s.1.stores.findById jobId = some row) →
    ∃ row, s'.1.stores.findById jobId = some row
  text : ∀ text, HasText s.1.stores jobId text → relies s jobId = true →
    HasText s'.1.stores jobId text
  log : ∀ e ∈ s.2, e ∈ s'.2

variable {s s' : World × List Event}

theorem Carries.reported (hc : Carries jobId s s') (h : Reported s.1.stores s.2 jobId) :
    Reported s'.1.stores s'.2 jobId := by
  obtain ⟨i, text, report, hcall, hcommit, htext⟩ := h
  have hrel : relies s jobId = true := by
    simp [relies, compiledIn_iff.mpr ⟨i, report, hcommit⟩]
  exact ⟨i, text, report, hc.log _ hcall, hc.log _ hcommit, hc.text text htext hrel⟩

theorem relies_of {t : Thread} (ht : t ∈ s.1.threads) (h : relying s.1 jobId t = true) :
    relies s jobId = true := by
  have hany : s.1.threads.any (relying s.1 jobId) = true := List.any_eq_true.mpr ⟨t, ht, h⟩
  simp [relies, hany]

theorem Carries.unskipped (hc : Carries jobId s s') {work : Work}
    (h : Unskipped s.1.stores s.2 jobId work) : Unskipped s'.1.stores s'.2 jobId work := by
  cases work with
  | transcribe job => exact h.imp_right hc.reported
  | _ => trivial

/-- What an attempt relies on is kept. -/
theorem Carries.ahead (hc : Carries jobId s s') {work : Work}
    (h : Ahead s.1.stores s.2 jobId work)
    (hrel : work.stage = .compile → relies s jobId = true) :
    Ahead s'.1.stores s'.2 jobId work := by
  cases work with
  | transcribe job => exact ⟨hc.row h.1, h.2.imp_right hc.reported⟩
  | compile job text => exact hc.text text h (hrel rfl)
  | render label sections => exact hc.reported h

theorem Carries.behind (hc : Carries jobId s s') {work : Work} {result : StageResult}
    (h : Behind s.1.stores s.2 jobId result work)
    (hrel : work.stage = .transcribe → relies s jobId = true) :
    Behind s'.1.stores s'.2 jobId result work := by
  cases work with
  | transcribe job => exact ⟨hc.text _ h.1 (hrel rfl), h.2.imp_right hc.reported⟩
  | compile job text => exact hc.reported h
  | render label sections => trivial

/-- The guard speaks of every commit of a transcript. -/
theorem commit_admitted {i now : ℕ} {a : Action} {t t' : Thread} {spawned : List Thread}
    (hg : compiles jobId (w, log) a = true) (at_ : w.threads[i]? = some t)
    (acts : Acts cfg w i a t now t' op spawned) (hop : Op.aside op = false) :
    overwrites jobId (w, log) t = false := by
  cases acts with
  | stepped env t t' op spawned next =>
      simp only [compiles, at_, Option.all_some, Bool.and_eq_true, Bool.not_eq_true'] at hg
      exact hg.2
  | lost env e t t' t₁ op spawned throws next =>
      simpa only [compiles, at_, Option.all_some, Bool.not_eq_true'] using hg
  | _ => cases hop

theorem carries_thread {i now : ℕ} {a : Action} {t t' : Thread} {spawned : List Thread}
    (hg : compiles jobId (w, log) a = true) (at_ : w.threads[i]? = some t)
    (acts : Acts cfg w i a t now t' op spawned) :
    Carries jobId (w, log)
      (w.advance now i t' op spawned, log ++ moveEvents w i t' op spawned) := by
  refine ⟨?_, ?_, fun e he => List.mem_append_left _ he⟩
  · rintro ⟨row, hrow⟩
    obtain ⟨row', hrow', -⟩ := Stores.run_row_some now op hrow
    exact ⟨row', hrow'⟩
  · rintro text ⟨row, hrow, htext⟩ hrel
    rcases Stores.run_row_after now op hrow with hkept | ⟨wr, rfl, hwritten⟩
    · exact ⟨row, hkept, htext⟩
    · refine ⟨_, hwritten, ?_⟩
      rw [wr.apply_transcript]
      cases hnew : wr.newTranscript with
      | none => exact htext
      | some new =>
          -- the guard: the text that is saved is the one that is relied on
          obtain ⟨env, hissues⟩ := acts.issues
          obtain ⟨b, rfl, hjob, hpc⟩ := issues_transcript hissues hnew
          have hkeep := commit_admitted hg at_ acts rfl
          simp only [overwrites, hpc, hjob, hrel, Bool.true_and, decide_true, hrow,
            Option.all_some, decide_eq_false_iff_not, not_not] at hkeep
          rw [Option.some_or, ← hkeep]
          exact htext

theorem carries_outside {a : Action} {new : List Thread} (acts : Outside w a op new) :
    Carries jobId (w, log) (⟨w.stores.run 0 op, w.threads ++ new⟩, log) := by
  have hjobs : (w.stores.run 0 op).jobs = w.stores.jobs := outside_jobs acts 0
  refine ⟨?_, ?_, fun e he => he⟩
  · rintro ⟨row, hrow⟩
    exact ⟨row, by simpa only [Stores.findById, hjobs] using hrow⟩
  · rintro text ⟨row, hrow, htext⟩ -
    exact ⟨row, by simpa only [Stores.findById, hjobs] using hrow, htext⟩

/-- A thread that does not move stays faithful; a body that finishes meanwhile brings what the
attempt that races it needs. -/
theorem Faithful.kept (hc : Carries jobId s s') {i : ℕ} {t : Thread} (hmem : t ∈ s.1.threads)
    (h : Faithful jobId s i t)
    (hraced : ∀ a work k result, t = .attempt a → a.jobId = jobId → a.pc = .racing work k →
      Unskipped s.1.stores s.2 jobId work → s'.1.bodyResult k = some (.ok result) →
      s.1.bodyResult k = some (.ok result) ∨ Behind s'.1.stores s'.2 jobId result work) :
    Faithful jobId s' i t := by
  have hrel : relying s.1 jobId t = true → relies s jobId = true := relies_of hmem
  cases t with
  | attempt a =>
      intro hjob
      have ha := h hjob
      simp only [relying, hjob, decide_true, Bool.true_and] at hrel
      cases hpc : a.pc with
      | setStatus work =>
          simp only [hpc] at ha hrel ⊢
          exact hc.ahead ha fun hst => hrel (by simp [hst])
      | addStarted work =>
          simp only [hpc] at ha hrel ⊢
          exact hc.ahead ha fun hst => hrel (by simp [hst])
      | racing work k =>
          simp only [hpc] at ha hrel ⊢
          refine ⟨hc.unskipped ha.1, fun result hdone => ?_⟩
          rcases hraced a work k result rfl hjob hpc ha.1 hdone with hbefore | hbehind
          · exact hc.behind (ha.2 result hbefore) fun hst => hrel (by simp [hst, hbefore])
          · exact hbehind
      | addCompleted work result =>
          simp only [hpc] at ha hrel ⊢
          exact hc.behind ha fun hst => hrel (by simp [hst])
      | _ => trivial
  | body b =>
      intro hjob
      have hb := h hjob
      simp only [relying, hjob, decide_true, Bool.true_and] at hrel
      cases hpc : b.pc with
      | compile label text =>
          simp only [hpc] at hb hrel ⊢
          exact ⟨hc.log _ hb.1, hc.text text hb.2 (hrel trivial)⟩
      | replaceReport report =>
          simp only [hpc] at hb hrel ⊢
          obtain ⟨text, hcall, htext⟩ := hb
          exact ⟨text, hc.log _ hcall, hc.text text htext (hrel trivial)⟩
      | render view =>
          simp only [hpc] at hb ⊢
          exact hc.reported hb
      | putObject view =>
          simp only [hpc] at hb ⊢
          exact hc.reported hb
      | setPdfReady view =>
          simp only [hpc] at hb ⊢
          exact hc.reported hb
      | done result => trivial
      | _ =>
          simp only [hpc] at hb ⊢
          exact hc.row hb
  | _ => trivial

/-- The result of a body, when it is done without an error. -/
theorem body_behind {i now : ℕ} {b : Body} {t' : Thread} {spawned : List Thread} {work : Work}
    {result : StageResult} (hjob : b.jobId = jobId) (hmem : Thread.body b ∈ w.threads)
    (hmove : BodyMove w b (.done (.ok result)) op) (hserves : serves work.stage b.pc = true)
    (hb : Faithful jobId (w, log) i (.body b)) (hwork : Unskipped w.stores log jobId work)
    (hc : Carries jobId (w, log)
      (w.advance now i t' op spawned, log ++ moveEvents w i t' op spawned)) :
    Behind (w.stores.run now op) (log ++ moveEvents w i t' op spawned) jobId result work := by
  have hfaith := hb hjob
  have hrel : relying w jobId (.body b) = true → relies (w, log) jobId = true :=
    relies_of (s := (w, log)) hmem
  generalize hdone : BodyPc.done (.ok result) = pc at hmove
  cases hmove with
  | threw e open_ => cases hdone
  | lost env e pc op next => cases hdone
  | moved env pc op next =>
      subst hdone
      rcases b with ⟨id, userId, pc₀⟩
      obtain rfl : id = jobId := hjob
      cases pc₀ with
      | getObjectStream key =>
          simp only [nextBody] at next
          split_ifs at next <;> cases next
      | transcribe key =>
          simp only [nextBody] at next
          split_ifs at next <;> cases next
      | saveTranscript text =>
          cases next
          cases work with
          | transcribe job =>
              obtain ⟨row, hrow⟩ := hfaith
              have hrow' := Stores.run_row_write now w.stores (.saveTranscript text) id
              rw [show w.stores.findById id = some row from hrow] at hrow'
              have hskip : Unskipped w.stores log id (.transcribe job) := hwork
              exact ⟨⟨_, hrow', rfl⟩, hc.unskipped hskip⟩
          | _ => cases hserves
      | replaceReport report =>
          cases next
          cases work with
          | compile job text₀ =>
              obtain ⟨text, hcall, htext⟩ := hfaith
              refine ⟨i, text, reportOf (insertSections env.rowId report), hc.log _ hcall, ?_,
                hc.text text htext (hrel (by simp [relying]))⟩
              simp [moveEvents, commitEvents]
          | _ => cases hserves
      | setPdfReady view =>
          cases next
          cases work with
          | render label sections => trivial
          | _ => cases hserves
      | done result' => cases next
      | _ => cases next

theorem body_faithful {i now : ℕ} {b : Body} {pc : BodyPc} {t' : Thread} {spawned : List Thread}
    (hmem : Thread.body b ∈ w.threads) (hmove : BodyMove w b pc op)
    (hb : Faithful jobId (w, log) i (.body b))
    (hc : Carries jobId (w, log)
      (w.advance now i t' op spawned, log ++ moveEvents w i t' op spawned)) :
    Faithful jobId (w.advance now i t' op spawned, log ++ moveEvents w i t' op spawned) i
      (.body { b with pc := pc }) := by
  intro hjob
  have hfaith := hb hjob
  have hrel : relying w jobId (.body b) = true → relies (w, log) jobId = true :=
    relies_of (s := (w, log)) hmem
  cases hmove with
  | threw e open_ => trivial
  | lost env e pc op next => trivial
  | moved env pc op next =>
      rcases b with ⟨id, userId, pc₀⟩
      obtain rfl : id = jobId := hjob
      cases pc₀ with
      | getObjectStream key =>
          simp only [nextBody] at next
          split_ifs at next <;> cases next
          · exact hc.row hfaith
          · trivial
      | transcribe key =>
          simp only [nextBody] at next
          split_ifs at next <;> cases next
          · trivial
          · exact hc.row hfaith
      | compile label text =>
          cases next
          exact ⟨text, hc.log _ hfaith.1, hc.text text hfaith.2 (hrel (by simp [relying]))⟩
      | render view =>
          cases next
          exact hc.reported hfaith
      | putObject view =>
          cases next
          exact hc.reported hfaith
      | done result => cases next
      | _ =>
          cases next
          trivial

/-- An attempt that begins reads no sections but those of a committed compile. -/
theorem read_compiled {i now : ℕ} {act : Action} {a : Attempt} {work : Work} {job : Job}
    {spawned : List Thread} (hp : Pending jobId (w, log)) (hg : compiles jobId (w, log) act = true)
    (at_ : w.threads[i]? = some (.attempt a))
    (acts : Acts cfg w i act (.attempt a) now (.attempt { a with pc := .setStatus work }) op spawned)
    (hpc : a.pc = .findById) (hjob : a.jobId = jobId)
    (hrow : w.stores.findById jobId = some job) (hfull : job.existingReport ≠ []) :
    Reported w.stores log jobId := by
  have hsections : job.sections ≠ [] := fun hnil => hfull (reportOf_eq_nil.mpr hnil)
  obtain ⟨⟨env, rfl⟩, hpass⟩ := acts_began acts hpc
  have hread : readsHandwritten jobId (w, log) (.attempt a) = false := by
    simp only [compiles, at_, Option.all_some, Bool.and_eq_true, Bool.not_eq_true'] at hg
    exact hg.1
  have hcompiled : compiledIn log jobId = true := by
    rcases hp.trees job hrow hsections with hcompiled | hedited
    · exact hcompiled
    · simpa [readsHandwritten, hjob, hpc, hpass, handwritten, hrow, hsections,
        show Event.edited jobId ∈ log from hedited] using hread
  exact hp.reports hcompiled

theorem attempt_faithful {i now : ℕ} {act : Action} {a : Attempt} {pc : AttemptPc}
    {spawned : List Thread} (hp : Pending jobId (w, log))
    (hg : compiles jobId (w, log) act = true) (at_ : w.threads[i]? = some (.attempt a))
    (acts : Acts cfg w i act (.attempt a) now (.attempt { a with pc := pc }) op spawned)
    (hmove : AttemptMove cfg w a now pc op spawned)
    (hc : Carries jobId (w, log) (w.advance now i (.attempt { a with pc := pc }) op spawned,
      log ++ moveEvents w i (.attempt { a with pc := pc }) op spawned)) :
    Faithful jobId (w.advance now i (.attempt { a with pc := pc }) op spawned,
      log ++ moveEvents w i (.attempt { a with pc := pc }) op spawned) i
      (.attempt { a with pc := pc }) := by
  intro hid
  have hjob : a.jobId = jobId := hid
  have hfaith := hp.faithful i _ at_ hjob
  have hrel : relying w jobId (.attempt a) = true → relies (w, log) jobId = true :=
    relies_of (s := (w, log)) (List.mem_of_getElem? at_)
  have hdone : ∀ e, afterThrow e = .marking e .rawById ∨ afterThrow e = .settled (some e) := by
    intro e
    unfold afterThrow
    split_ifs
    · exact .inl rfl
    · exact .inr rfl
  cases hmove with
  | began job key work pc row live user unready audio begins =>
      have hrow : w.stores.findById jobId = some job := hjob ▸ row
      have hreport : job.existingReport ≠ [] → Reported w.stores log jobId :=
        read_compiled hp hg at_ acts pc hjob hrow
      cases begins with
      | transcribe blank =>
          refine ⟨hc.row ⟨job, hrow⟩, ?_⟩
          by_cases hempty : job.existingReport = []
          · exact .inl hempty
          · exact .inr (hc.reported (hreport hempty))
      | compile text transcript full empty => exact ⟨job, hrow, transcript⟩
      | render text transcript full existing => exact hc.reported (hreport existing)
  | announced work pc =>
      simp only [pc] at hfaith
      exact hc.ahead hfaith fun hst => hrel (by simp [relying, pc, hjob, hst])
  | started work pc =>
      simp only [pc] at hfaith
      refine ⟨?_, ?_⟩
      · cases work with
        | transcribe job => exact hfaith.2.imp_right hc.reported
        | _ => trivial
      · intro result hresult
        obtain ⟨b, hb, hpc⟩ := bodyResult_eq_some.mp hresult
        have hnew : b = ⟨a.jobId, a.userId, startBody a.jobId now work⟩ := by
          simpa [World.advance] using hb.symm
        subst hnew
        exact (startBody_ne_done now work _ hpc).elim
  | won work k result pc done =>
      simp only [pc] at hfaith
      exact hc.behind (hfaith.2 result done) fun hst =>
        hrel (by simp [relying, pc, hjob, hst, done])
  | completed work result pc =>
      simp only [pc] at hfaith
      cases work with
      | transcribe job =>
          obtain ⟨htext, hskip⟩ := hfaith
          simp only [afterStage, compileStage]
          split_ifs with hempty
          · exact hc.text _ htext (hrel (by simp [relying, pc, hjob, Work.stage]))
          · exact hc.reported (hskip.resolve_left hempty)
      | compile job text => exact hc.reported hfaith
      | render label sections => trivial
  | thrown work e op pc => rcases hdone e with he | he <;> rw [he] <;> trivial
  | _ => trivial

theorem spawned_faithful {i now k : ℕ} {act : Action} {t t' t₁ : Thread} {spawned : List Thread}
    (hp : Pending jobId (w, log)) (at_ : w.threads[i]? = some t)
    (acts : Acts cfg w i act t now t' op spawned) (hk : spawned[k]? = some t₁)
    (hc : Carries jobId (w, log)
      (w.advance now i t' op spawned, log ++ moveEvents w i t' op spawned)) :
    Faithful jobId (w.advance now i t' op spawned, log ++ moveEvents w i t' op spawned)
      (w.threads.length + k) t₁ := by
  have hfaith := hp.faithful i _ at_
  rcases acts_spawned acts (List.mem_of_getElem? hk) with
    ⟨a, work, rfl, hpc, rfl⟩ | ⟨_, _, _, -, -, -, rfl⟩
  · intro hjob
    have hahead : Ahead w.stores log jobId work := by simpa only [hpc] using hfaith hjob
    have hrel : relying w jobId (.attempt a) = true → relies (w, log) jobId = true :=
      relies_of (s := (w, log)) (List.mem_of_getElem? at_)
    cases work with
    | transcribe job => exact hc.row hahead.1
    | compile job text =>
        have hid : a.jobId = jobId := hjob
        have hzero : k = 0 := by
          have hlt := lt_of_getElem? hk
          have hle := acts_spawned_le acts
          omega
        refine ⟨?_, hc.text text hahead (hrel (by simp [relying, hpc, hid, Work.stage]))⟩
        refine List.mem_append_right _ (List.mem_append_right _ (List.mem_flatMap.mpr ⟨_,
          List.mem_of_getElem? hk, ?_⟩))
        simp [callEvents, startBody, hzero, hid]
    | render label sections => exact hc.reported hahead
  · trivial

theorem pending_thread {i now : ℕ} {act : Action} {t t' : Thread} {spawned : List Thread}
    (hraces : Races w) (hp : Pending jobId (w, log)) (hg : compiles jobId (w, log) act = true)
    (at_ : w.threads[i]? = some t) (acts : Acts cfg w i act t now t' op spawned) :
    Pending jobId (w.advance now i t' op spawned, log ++ moveEvents w i t' op spawned) := by
  have hc := carries_thread hg at_ acts
  refine ⟨?_, ?_, ?_⟩
  · intro j t₁ ht₁
    rcases getElem?_advance_cases ht₁ with ⟨rfl, rfl⟩ | ⟨hji, hold⟩ | ⟨hle, hnew⟩
    · cases t₁ with
      | attempt a' =>
          obtain ⟨a, pc, rfl, rfl, hmove⟩ := acts_to_attempt acts
          exact attempt_faithful hp hg at_ acts hmove hc
      | body b' =>
          obtain ⟨-, b, pc, rfl, rfl, hmove⟩ := acts_to_body acts
          exact body_faithful (List.mem_of_getElem? at_) hmove (hp.faithful j _ at_) hc
      | _ => trivial
    · refine (hp.faithful j t₁ hold).kept hc (List.mem_of_getElem? hold) ?_
      rintro a work k result rfl hjob hpc hwork hdone
      obtain ⟨b, hb, hbjob, -, hserves⟩ := hraces a work k (List.mem_of_getElem? hold) hpc
      by_cases hki : k = i
      · -- the body that moves is the one that this attempt races
        subst hki
        rw [at_] at hb
        cases hb
        obtain ⟨-, pc, rfl, hmove⟩ := acts_body acts
        obtain ⟨b', hb', hpc'⟩ := bodyResult_eq_some.mp hdone
        rw [show (w.advance now k _ op spawned).threads[k]? = _ from
          getElem?_advance_same at_] at hb'
        cases hb'
        dsimp only at hpc'
        subst hpc'
        exact .inr (body_behind (hbjob.trans hjob) (List.mem_of_getElem? at_) hmove hserves
          (hp.faithful k _ at_) hwork hc)
      · left
        obtain ⟨b', hb', hpc'⟩ := bodyResult_eq_some.mp hdone
        rw [show (w.advance now i t' op spawned).threads[k]? = _ from
          getElem?_advance_other hki hb] at hb'
        cases hb'
        exact bodyResult_eq_some.mpr ⟨b, hb, hpc'⟩
    · have hsp := spawned_faithful hp at_ acts hnew hc
      rwa [Nat.add_sub_cancel' hle] at hsp
  · intro row' hrow' hsections
    have hold : ∀ row, w.stores.findById jobId = some row → row.sections ≠ [] →
        compiledIn (log ++ moveEvents w i t' op spawned) jobId = true ∨
          Event.edited jobId ∈ log ++ moveEvents w i t' op spawned := by
      intro row hrow hfull
      rcases hp.trees row hrow hfull with hcompiled | hedited
      · obtain ⟨k, report, he⟩ := compiledIn_iff.mp hcompiled
        exact .inl (compiledIn_iff.mpr ⟨k, report, List.mem_append_left _ he⟩)
      · exact .inr (List.mem_append_left _ hedited)
    rcases Stores.run_row_before hrow' with hrow | ⟨wr, row, rfl, hrow, rfl⟩ | ⟨rfl, -, -⟩
    · exact hold row' hrow hsections
    · rw [wr.apply_sections] at hsections
      cases wr with
      | replaceReport rows =>
          refine .inl (compiledIn_iff.mpr ⟨i, reportOf rows, ?_⟩)
          simp [moveEvents, commitEvents]
      | replaceReportScoped userId label rows =>
          right
          simp [moveEvents, commitEvents]
      | _ => exact hold row hrow hsections
    · obtain ⟨env, hissues⟩ := acts.issues
      cases hissues with
      | aside _ _ haside => cases haside
      | create c => exact (hsections rfl).elim
  · intro hcompiled
    obtain ⟨k, report, he⟩ := compiledIn_iff.mp hcompiled
    rcases List.mem_append.mp he with hbefore | hnew
    · exact hc.reported (hp.reports (compiledIn_iff.mpr ⟨k, report, hbefore⟩))
    · cases hcause : move_cause acts hnew with
      | compiled b report pc =>
          obtain ⟨text, hcall, htext⟩ : ∃ text, Event.compiling i b.jobId text ∈ log ∧
              HasText w.stores b.jobId text := by
            simpa only [pc] using hp.faithful i _ at_ rfl
          have hrel : relies (w, log) b.jobId = true :=
            relies_of (s := (w, log)) (List.mem_of_getElem? at_) (by simp [relying, pc])
          exact ⟨i, text, report, hc.log _ hcall, he, hc.text text htext hrel⟩

/-- A row becomes READY only with the event. -/
theorem ready_logged {i now : ℕ} {act : Action} {t t' : Thread} {spawned : List Thread} {row' : Job}
    (hold : ∀ row, w.stores.findById jobId = some row → row.status = .READY →
      Event.ready jobId ∈ log)
    (acts : Acts cfg w i act t now t' op spawned)
    (hrow' : (w.stores.run now op).findById jobId = some row') (hready : row'.status = .READY) :
    Event.ready jobId ∈ log ++ moveEvents w i t' op spawned := by
  obtain ⟨env, hissues⟩ := acts.issues
  rcases Stores.run_status hrow' with ⟨row, hrow, hst | hset⟩ | ⟨hins, -⟩
  · exact List.mem_append_left _ (hold row hrow (hst ▸ hready))
  · rw [hready] at hset
    cases op with
    | write id wr =>
        obtain ⟨st, hst, he⟩ := Option.map_eq_some_iff.mp hset
        cases he
        obtain ⟨b, view, -, -, -, rfl⟩ := issues_ready hissues hst
        exact List.mem_append_right _ (by simp [moveEvents, commitEvents])
    | _ => cases hset
  · cases hissues with
    | aside _ op haside =>
        cases op with
        | insertJob job => cases haside
        | _ => cases hins
    | create c =>
        cases hins
        cases hready
    | _ => cases hins

theorem inv_step {act : Action} (h : Inv jobId (w, log)) (hg : Compiles jobId (w, log) act)
    (hs : logged cfg (w, log) act = some (w', log')) : Inv jobId (w', log') := by
  have hraces : Races w' := races_step h.races (logged_step hs).1
  cases logged_shape hs with
  | thread i now t t' op spawned at_ acts =>
      refine ⟨hraces, fun row hrow hready => ready_logged h.unready acts hrow hready, ?_⟩
      intro hnew
      have hbefore : Event.ready jobId ∉ log := fun he => hnew (List.mem_append_left _ he)
      exact pending_thread h.races (h.pending hbefore) (hg.resolve_left hbefore) at_ acts
  | outside op new acts =>
      have hc : Carries jobId (w, log) (⟨w.stores.run 0 op, w.threads ++ new⟩, log) :=
        carries_outside acts
      have hjobs : (w.stores.run 0 op).jobs = w.stores.jobs := outside_jobs acts 0
      have hfind : (w.stores.run 0 op).findById jobId = w.stores.findById jobId := by
        simp only [Stores.findById, hjobs]
      refine ⟨hraces, fun row hrow => h.unready row (hfind.symm.trans hrow), fun hnew => ?_⟩
      have hp := h.pending hnew
      refine ⟨?_, fun row hrow => hp.trees row (hfind.symm.trans hrow),
        fun hcompiled => hc.reported (hp.reports hcompiled)⟩
      intro j t ht
      by_cases hj : j < w.threads.length
      · have hold : w.threads[j]? = some t := by rwa [List.getElem?_append_left hj] at ht
        refine (hp.faithful j t hold).kept hc (List.mem_of_getElem? hold) ?_
        rintro a work k result rfl - hpc - hdone
        obtain ⟨b, hb, -⟩ := h.races a work k (List.mem_of_getElem? hold) hpc
        obtain ⟨b', hb', hpc'⟩ := bodyResult_eq_some.mp hdone
        rw [List.getElem?_append_left (lt_of_getElem? hb), hb] at hb'
        cases hb'
        exact .inl (bodyResult_eq_some.mpr ⟨b, hb, hpc'⟩)
      · rw [List.getElem?_append_right (by omega)] at ht
        obtain ⟨hbody, hattempt⟩ := outside_new acts (List.mem_of_getElem? ht)
        cases t with
        | attempt a =>
            intro hjob
            rw [hattempt a rfl]
            trivial
        | body b => exact (hbody b rfl).elim
        | _ => trivial

theorem inv_start : Inv jobId start := by
  have hnone : ∀ row, start.1.stores.findById jobId ≠ some row := by
    intro row h
    cases h
  refine ⟨races_empty, fun row h => (hnone row h).elim, fun _ => ⟨?_, ?_, ?_⟩⟩
  · intro i t ht
    cases ht
  · exact fun row h => (hnone row h).elim
  · exact nofun

/-- Until the job is READY its attempts render nothing but a committed compile of the stored
transcript, and so does the attempt that makes it READY. -/
theorem ready_compiled (cfg : ServerConfig) {s s' : World × List Event} {a : Action}
    {jobId : String} (hrun : Run (logged cfg) (Compiles jobId) start s)
    (hg : Compiles jobId s a) (hs : logged cfg s a = some s')
    (hfirst : Event.ready jobId ∉ s.2) :
    (∀ row, s'.1.stores.findById jobId = some row → row.status = .READY →
      ∃ i text report, Event.compiling i jobId text ∈ s.2 ∧
        Event.compiled i jobId report ∈ s.2 ∧ row.transcript = some text) ∧
    ∀ at_ label sections, Thread.attempt at_ ∈ s.1.threads → at_.jobId = jobId →
      at_.pc = .setStatus (.render label sections) → compiledIn s.2 jobId = true := by
  have hinv : Inv jobId s := hrun.invariant (I := fun s => Inv jobId s) inv_start
    fun _ _ _ hi hg hs => inv_step hi hg hs
  have hp := hinv.pending hfirst
  rcases s with ⟨w, log⟩
  rcases s' with ⟨w', log'⟩
  refine ⟨?_, ?_⟩
  · intro row hrow hready
    have hready' := (inv_step hinv hg hs).unready row hrow hready
    cases logged_shape hs with
    | outside op new acts => exact (hfirst hready').elim
    | thread i now t t' op spawned at_ acts =>
        have hc := carries_thread (hg.resolve_left hfirst) at_ acts
        cases hcause : move_cause acts ((List.mem_append.mp hready').resolve_left hfirst) with
        | ready b view pc =>
            have hreport : Reported w.stores log b.jobId := by
              simpa only [pc] using hp.faithful i _ at_ rfl
            obtain ⟨k, text, report, hcall, hcommit, htext⟩ := hreport
            have hrel : relies (w, log) b.jobId = true := by
              simp [relies, compiledIn_iff.mpr ⟨k, report, hcommit⟩]
            obtain ⟨row', hrow', htext'⟩ := hc.text text htext hrel
            rw [hrow] at hrow'
            cases hrow'
            exact ⟨k, text, report, hcall, hcommit, htext'⟩
  · intro at_ label sections hmem hjob hpc
    obtain ⟨i, hi⟩ := List.mem_iff_getElem?.mp hmem
    have hreport : Reported w.stores log jobId := by
      simpa only [hpc, Ahead] using hp.faithful i _ hi hjob
    obtain ⟨k, text, report, -, hcommit, -⟩ := hreport
    exact compiledIn_iff.mpr ⟨k, report, hcommit⟩

/-- `job-1` is processed up to the last statement of its render body. -/
def beforeReady : List Action :=
  submitSchedule ++ checkSchedule 1 ++ enqueueSchedule 1 ++ compileSchedule 2 ++ renderSchedule 2

theorem ready_compiled_demo :
    ∃ s s' row, Run (logged demo) (Compiles "job-1") start s ∧
      logged demo s (.step 5 {}) = some s' ∧ s'.1.stores.findById "job-1" = some row ∧
      row.status = .READY ∧ ∃ i text report, Event.compiling i "job-1" text ∈ s.2 ∧
        Event.compiled i "job-1" report ∈ s.2 ∧ row.transcript = some text := by
  have hend : (execWhere (logged demo) (Compiles "job-1") beforeReady start).any (fun s =>
      decide (Compiles "job-1" s (.step 5 {})) && decide (Event.ready "job-1" ∉ s.2) &&
        (logged demo s (.step 5 {})).any fun s' => (s'.1.stores.findById "job-1").any
          fun row => decide (row.status = .READY)) = true := by decide
  obtain ⟨s, hrun, hp⟩ := execWhere_any hend
  simp only [Bool.and_eq_true, decide_eq_true_eq] at hp
  obtain ⟨⟨hg, hfirst⟩, hs⟩ := hp
  obtain ⟨s', hs, hrow⟩ := (Option.any_eq_true _ _).mp hs
  obtain ⟨row, hrow, hready⟩ := (Option.any_eq_true _ _).mp hrow
  have hready : row.status = .READY := of_decide_eq_true hready
  exact ⟨s, s', row, hrun, hs, hrow, hready,
    (ready_compiled demo hrun hg hs hfirst).1 row hrow hready⟩

/-- The sections of the PATCH in the run below. -/
def handwrittenDto : UpdateJobDto where
  sections := .value [⟨"Roof", 0, [⟨"Leak", .safety, 0⟩]⟩]

/-- Thread 1 patches the CREATED job, thread 2 processes it and attempt 3 runs to the end; its
bodies are threads 4 and 5. -/
def handwrittenSchedule : List Action :=
  submitSchedule ++ [.call (.update "user-1" "job-1" handwrittenDto)] ++ steps 1 3 {} ++
    checkSchedule 2 ++ enqueueSchedule 2 ++ [.pick "job-1"] ++ steps 3 3 {} ++
    steps 4 3 { text := "transcript" } ++ steps 3 4 {} ++ steps 5 3 {} ++ steps 3 2 {} ++ [.ack 3]

/-- Sections that a PATCH stores before the first run stand in for the compile. -/
theorem ready_without_compile :
    ∃ s, Run (logged demo) anyStep start s ∧
      (∃ row, s.1.stores.findById "job-1" = some row ∧ row.status = .READY ∧
        row.transcript = some "transcript") ∧
      ∀ e ∈ s.2, ∀ i text, e ≠ Event.compiling i "job-1" text := by
  have hend : (exec (logged demo) handwrittenSchedule start).any (fun s =>
      (s.1.stores.findById "job-1").any (fun row =>
        decide (row.status = .READY ∧ row.transcript = some "transcript")) &&
      decide (s.2 = [.edited "job-1", .transcribing "job-1", .transcribed "job-1" "transcript",
        .ready "job-1"])) = true := by decide
  obtain ⟨s, hrun, hp⟩ := exec_any hend
  simp only [Bool.and_eq_true, decide_eq_true_eq] at hp
  obtain ⟨hrow, hlog⟩ := hp
  obtain ⟨row, hrow, hready⟩ := (Option.any_eq_true _ _).mp hrow
  refine ⟨s, hrun, ⟨row, hrow, of_decide_eq_true hready⟩, ?_⟩
  rw [hlog]
  simp

end FieldNote.ReportOrigin
