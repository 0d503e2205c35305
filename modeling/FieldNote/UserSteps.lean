import FieldNote.UserViews

/-!
# Steps and the view of a user

The worker and the status update of `process` reach a row by its id alone. They touch no
other user's row all the same: an entry and whatever comes of it carry the user who owns the
row, and the ownership test of a call comes before its statements. So a thread's segment
reads and writes what belongs to its user, under whichever spelling of the job's id, and acts
on the view as on the whole server.
-/
namespace FieldNote.UserViews
open JobsService PipelineService ServerRuns ObjectKeys Selections CallPool SpelledIds

/-- The audio key that a transcription ahead of the attempt is going to read. -/
def readsAudio : AttemptPc → Option String
  | .setStatus (.transcribe job) | .addStarted (.transcribe job) => some job.audioKey
  | _ => none

/-- Past its ownership test the thread works on a row of its user, with the user's keys. -/
def Holds (s : Stores) : Thread → Prop
  | .process c =>
      match c.pc with
      | .findScoped | .returned _ | .threw _ => True
      | .objectExists job =>
          Owned s c.userId (canonical c.jobId) ∧
            ∀ key, job.audioKey = some key → UserKey c.userId key
      | _ => Owned s c.userId (canonical c.jobId)
  | .remove c =>
      match c.pc with
      | .softDelete job | .deleteObjects job => ∀ key ∈ job.objectKeys, UserKey c.userId key
      | _ => True
  | .attempt a =>
      Owned s a.userId (canonical a.jobId) ∧
        ∀ key, readsAudio a.pc = some key → UserKey a.userId key
  | .body b =>
      Owned s b.userId (canonical b.jobId) ∧
        ∀ key, b.pc = .getObjectStream key → UserKey b.userId key
  | .handler h => Owned s h.userId (canonical h.jobId)
  | _ => True

/-- The keys in a row are its owner's. -/
def KeysOwned (s : Stores) : Prop :=
  ∀ jobId row, s.findById jobId = some row →
    ∀ key, row.audioKey = some key ∨ row.pdfKey = some key → UserKey row.userId key

/-- An attempt races a body of its user. -/
def RacesOwn (w : World) : Prop :=
  ∀ a work i, Thread.attempt a ∈ w.threads → a.pc = .racing work i →
    ∃ b, w.threads[i]? = some (.body b) ∧ b.userId = a.userId

/-- Everything the server holds for a job belongs to the owner of its row. -/
structure Coherent (w : World) : Prop where
  keys : KeysOwned w.stores
  entries : EntriesOwned w.stores
  events : EventsOfRows w.stores
  holds : ∀ t ∈ w.threads, Holds w.stores t
  races : RacesOwn w

theorem coherent_empty : Coherent World.empty := by
  refine ⟨?_, ?_, ?_, ?_, ?_⟩
  · intro jobId row h
    cases h
  · intro jobId entry h
    cases h
  · intro event h
    cases h
  · intro t h
    cases h
  · intro a work i h
    cases h

variable {cfg : ServerConfig} {w w' : World} {env : Env} {op : Op} {s : Stores} {now : ℕ}
  {userId userId' jobId : String}

theorem Holds.run {t : Thread} (h : Holds s t) : Holds (s.run now op) t := by
  cases t with
  | process c =>
      rcases c with ⟨user, id, pc⟩
      cases pc with
      | findScoped => trivial
      | returned dto => trivial
      | threw error => trivial
      | objectExists job => exact ⟨Owned.run h.1, h.2⟩
      | _ => exact Owned.run h
  | remove c => exact h
  | attempt a => exact ⟨Owned.run h.1, h.2⟩
  | body b => exact ⟨Owned.run h.1, h.2⟩
  | handler hd => exact Owned.run h
  | _ => trivial

/-! ## The operations of a thread -/

/-- The calls of `nextProcess` under the id of the request, and the reads of the row. -/
theorem spelledProcess_op (env : Env) {c : ProcessCall} {pc : ProcessPc}
    (h : spelledProcess cfg w.stores c = some (pc, op)) :
    op = .none ∨ ∃ op', op = canonicalOp op' ∧ Operates w env (.process c) op' := by
  rcases c with ⟨user, id, pc₀⟩
  cases pc₀ with
  | findScoped =>
      refine .inl ?_
      simp only [spelledProcess, nextProcess] at h
      split at h
      · cases h
        rfl
      · split_ifs at h <;> cases h <;> rfl
  | findAgain job =>
      cases h
      exact .inl rfl
  | _ =>
      simp only [spelledProcess] at h
      obtain ⟨⟨pc', op'⟩, hn, he⟩ := Option.map_eq_some_iff.mp h
      cases he
      exact .inr ⟨op', rfl, nextProcess_operates hn⟩

theorem spelledAttempt_op (env : Env) {a : Attempt} {pc : AttemptPc}
    (h : spelledAttempt w a = some (pc, op)) :
    op = .none ∨ Operates w env (.attempt { a with jobId := canonical a.jobId }) op := by
  unfold spelledAttempt at h
  split at h
  · cases h
    exact .inl rfl
  · exact .inr (nextAttempt_operates h)

theorem spelledHandler_op (env : Env) {hd : Handler} {pc : HandlerPc}
    (h : spelledHandler w.stores hd = some (pc, op)) :
    Operates w env (.handler { hd with jobId := canonical hd.jobId }) op ∨
      op = .addDlq ⟨hd.jobId, hd.userId, hd.error.message, hd.attemptsMade⟩ := by
  rcases hd with ⟨id, user, e, made, pc₀⟩
  cases pc₀ with
  | marking mark => exact .inl (nextHandler_operates h)
  | addDlq =>
      cases h
      exact .inr rfl
  | done => cases h

theorem process_within {c : ProcessCall} {pc : ProcessPc}
    (h : spelledProcess cfg w.stores c = some (pc, op)) (hholds : Holds w.stores (.process c)) :
    Within c.userId w.stores op := by
  rcases spelledProcess_op {} h with rfl | ⟨op', rfl, hop⟩
  · trivial
  · cases hop with
    | none => trivial
    | requeue c job pc =>
        simp only [Holds, pc] at hholds
        exact .inl ⟨hholds, nofun⟩
    | removeEntry c job pc =>
        simp only [Holds, pc] at hholds
        exact ⟨hholds, by simp⟩
    | addEntry c job pc =>
        simp only [Holds, pc] at hholds
        exact ⟨hholds, by simp⟩

theorem attempt_within {a : Attempt} {pc : AttemptPc} (h : spelledAttempt w a = some (pc, op))
    (hholds : Holds w.stores (.attempt a)) : Within a.userId w.stores op := by
  rcases spelledAttempt_op {} h with rfl | hop
  · trivial
  · have howned : Owned w.stores a.userId (canonical a.jobId) := hholds.1
    generalize ha : ({ a with jobId := canonical a.jobId } : Attempt) = a' at hop
    have huser : a'.userId = a.userId := by rw [← ha]
    have hjob : a'.jobId = canonical a.jobId := by rw [← ha]
    rw [← huser, ← hjob] at howned
    rw [← huser]
    cases hop with
    | none => trivial
    | stage a work pc => exact .inl ⟨howned, nofun⟩
    | stageEvent a event job =>
        rw [← job] at howned
        exact howned
    | failed a e m pc => exact .inl ⟨howned, nofun⟩

theorem body_within {b : Body} {pc : BodyPc} (h : spelledBody w.stores env b = some (pc, op))
    (hholds : Holds w.stores (.body b)) : Within b.userId w.stores op := by
  obtain ⟨⟨pc', op'⟩, hn, he⟩ := Option.map_eq_some_iff.mp h
  cases he
  have hop : Operates w env (.body b) op' := nextBody_operates hn
  cases hop with
  | none => trivial
  | transcript b text pc => exact .inl ⟨hholds.1, nofun⟩
  | report b sections pc => exact .inl ⟨hholds.1, nofun⟩
  | putObject b view pc => exact ⟨b.jobId, .inr rfl⟩
  | ready b view pc =>
      refine .inl ⟨hholds.1, fun key hkey => ⟨b.jobId, .inr ?_⟩⟩
      cases hkey
      rfl

theorem handler_within {hd : Handler} {pc : HandlerPc}
    (h : spelledHandler w.stores hd = some (pc, op)) (hholds : Holds w.stores (.handler hd)) :
    Within hd.userId w.stores op := by
  rcases spelledHandler_op {} h with hop | rfl
  · have howned : Owned w.stores hd.userId (canonical hd.jobId) := hholds
    generalize hhd : ({ hd with jobId := canonical hd.jobId } : Handler) = hd' at hop
    have huser : hd'.userId = hd.userId := by rw [← hhd]
    have hjob : hd'.jobId = canonical hd.jobId := by rw [← hhd]
    rw [← huser, ← hjob] at howned
    rw [← huser]
    cases hop with
    | none => trivial
    | handled hd m pc => exact .inl ⟨howned, nofun⟩
    | failureEvent hd event job =>
        rw [← job] at howned
        exact howned
    | parked hd pc => rfl
  · rfl

theorem scopedTo_update {c : UpdateCall} {wr : Write}
    (h : updateWrite s env c = .ok (some wr)) : scopedTo c.userId wr = true := by
  rcases updateWrite_cases h with ⟨label, rfl⟩ | ⟨label, rows, rfl⟩ <;> simp [scopedTo]

/-- A segment issues an operation on what belongs to its user. -/
theorem next_within {t t' : Thread} {spawned : List Thread}
    (h : spelledNext cfg w env t = some (t', op, spawned)) (hholds : Holds w.stores t) :
    Within (Thread.userId t) w.stores op := by
  cases t with
  | create c =>
      obtain ⟨⟨pc, op'⟩, hn, he⟩ := Option.map_eq_some_iff.mp h
      cases he
      rcases nextCreate_op hn with rfl | rfl
      · trivial
      · refine ⟨rfl, fun key hkey => ⟨env.id, .inl ?_⟩⟩
        rcases hkey with hkey | hkey <;> cases hkey
        rfl
  | process c =>
      obtain ⟨⟨pc, op'⟩, hn, he⟩ := Option.map_eq_some_iff.mp h
      cases he
      exact process_within hn hholds
  | update c =>
      obtain ⟨⟨pc, op'⟩, hn, he⟩ := Option.map_eq_some_iff.mp h
      cases he
      rcases nextUpdate_op hn with rfl | ⟨wr, -, rfl, hwrite⟩
      · trivial
      · have hscoped := scopedTo_update hwrite
        exact .inr hscoped
  | remove c =>
      obtain ⟨⟨pc, op'⟩, hn, he⟩ := Option.map_eq_some_iff.mp h
      cases he
      rcases nextRemove_op hn with rfl | rfl | ⟨job, hpc, rfl⟩
      · trivial
      · exact .inr (by simp [scopedTo, Thread.userId])
      · have hpc' : c.pc = .deleteObjects job := hpc
        simp only [Holds, hpc'] at hholds
        exact hholds
  | attempt a =>
      obtain ⟨⟨pc, op'⟩, hn, he⟩ := Option.map_eq_some_iff.mp h
      cases he
      exact attempt_within hn hholds
  | body b =>
      obtain ⟨⟨pc, op'⟩, hn, he⟩ := Option.map_eq_some_iff.mp h
      cases he
      exact body_within hn hholds
  | handler hd =>
      obtain ⟨⟨pc, op'⟩, hn, he⟩ := Option.map_eq_some_iff.mp h
      cases he
      exact handler_within hn hholds

/-! ## Ownership along a step -/

theorem settle_userId (entry : Entry) (e : Option Err) :
    (settle cfg jobId entry e).1.userId = entry.userId := by
  unfold settle
  split
  · rfl
  · dsimp only
    split_ifs <;> rfl

theorem sameCall_userId {t t' : Thread} (h : SameCall t t') :
    Thread.userId t' = Thread.userId t := by
  cases h <;> rfl

theorem acts_within {i : ℕ} {act : Action} {t t' : Thread} {spawned : List Thread}
    (h : Coherent w) (ht : t ∈ w.threads) (acts : SpelledActs cfg w i act t now t' op spawned) :
    Within (Thread.userId t) w.stores op := by
  cases acts with
  | stepped env t t' op spawned next => exact next_within next (h.holds t ht)
  | threw env e t t' throws => trivial
  | lost env e t t' t₁ op spawned throws next => exact next_within next (h.holds t ht)
  | timedOut t t' out => trivial
  | acked a e entry pc queued =>
      have howned : Owned w.stores a.userId (canonical a.jobId) := (h.holds _ ht).1
      refine ⟨howned, fun e' he => ?_⟩
      cases he
      rw [settle_userId]
      exact owned_unique (h.entries _ _ queued) howned

/-- The threads that a thread starts are its user's. -/
theorem acts_spawned_userId {i : ℕ} {act : Action} {t t' t₁ : Thread} {spawned : List Thread}
    (h : Coherent w) (ht : t ∈ w.threads) (acts : SpelledActs cfg w i act t now t' op spawned)
    (ht₁ : t₁ ∈ spawned) : Thread.userId t₁ = Thread.userId t := by
  rcases spelled_spawned acts ht₁ with ⟨a, work, rfl, -, rfl⟩ | ⟨a, err, entry, rfl, hq, rfl⟩
  · rfl
  · exact owned_unique (h.entries _ _ hq) (h.holds _ ht).1

/-- The action is taken for the user. -/
def concerns (userId : String) (w : World) : Action → Bool
  | .call request => Thread.userId request.thread = userId
  | .step i _ | .throw i _ _ _ | .timeout i | .ack i => w.threads[i]?.any (mine userId)
  | .pick jobId | .promote jobId | .purge jobId =>
      (w.stores.queue jobId).any fun entry => entry.userId = userId
  | .upload user _ _ => user = userId

theorem outside_within {act : Action} {new : List Thread} (h : Coherent w)
    (acts : Outside w act op new) (hact : concerns userId w act = true) :
    Within userId w.stores op ∧ ∀ t ∈ new, mine userId t = true := by
  cases acts with
  | called request =>
      refine ⟨trivial, fun t ht => ?_⟩
      rw [List.mem_singleton.mp ht]
      exact hact
  | picked jobId entry queued waiting =>
      obtain rfl : entry.userId = userId := by simpa [concerns, queued] using hact
      refine ⟨⟨h.entries _ _ queued, ?_⟩, fun t ht => ?_⟩
      · intro e he
        cases he
        rfl
      · rw [List.mem_singleton.mp ht]
        simp [mine, Thread.userId]
  | promoted jobId entry queued delayed =>
      obtain rfl : entry.userId = userId := by simpa [concerns, queued] using hact
      refine ⟨⟨h.entries _ _ queued, ?_⟩, by simp⟩
      intro e he
      cases he
      rfl
  | purged jobId entry queued completed =>
      obtain rfl : entry.userId = userId := by simpa [concerns, queued] using hact
      exact ⟨⟨h.entries _ _ queued, by simp⟩, by simp⟩
  | uploaded user jobId bytes =>
      obtain rfl : user = userId := by simpa [concerns] using hact
      exact ⟨⟨jobId, .inl rfl⟩, by simp⟩

theorem entries_run (h : EntriesOwned s) (hop : Within userId s op) :
    EntriesOwned (s.run now op) := by
  intro id entry hentry
  by_cases hnew : ∃ e, op.newEntry = some (id, e)
  · obtain ⟨e, he⟩ := hnew
    rw [Stores.run_queue_set he] at hentry
    subst hentry
    cases op with
    | setEntry id' e' =>
        cases he
        rw [hop.2 entry rfl]
        exact Owned.run hop.1
    | _ => cases he
  · rw [Stores.run_queue_same (by simpa using hnew)] at hentry
    exact Owned.run (h id entry hentry)

theorem scopedTo_newPdfKey {wr : Write} (h : scopedTo userId wr = true) : wr.newPdfKey = none := by
  cases wr with
  | setPdfReady key => cases h
  | _ => rfl

theorem keys_run (h : KeysOwned s) (hop : Within userId s op) : KeysOwned (s.run now op) := by
  intro id row' hrow'
  rcases Stores.run_row_before hrow' with hrow | ⟨wr, row, rfl, hrow, rfl⟩ | ⟨rfl, -, -⟩
  · exact h id row' hrow
  · intro key hkey
    rw [wr.apply_audioKey, wr.apply_pdfKey] at hkey
    rw [wr.apply_userId]
    rcases hop with ⟨⟨row₁, hrow₁, huser⟩, hset⟩ | hscoped
    · rw [hrow] at hrow₁
      cases hrow₁
      cases hnew : wr.newPdfKey with
      | none =>
          rw [hnew, Option.none_or] at hkey
          exact h id row hrow key hkey
      | some key' =>
          rw [hnew, Option.some_or] at hkey
          rcases hkey with haudio | hpdf
          · exact h id row hrow key (.inl haudio)
          · rw [huser]
            exact hset key (hnew.trans hpdf)
    · rw [scopedTo_newPdfKey hscoped, Option.none_or] at hkey
      exact h id row hrow key hkey
  · rw [hop.1]
    exact hop.2

theorem row_run (h : s.findById jobId ≠ none) : (s.run now op).findById jobId ≠ none := by
  obtain ⟨row, hrow⟩ := Option.ne_none_iff_exists'.mp h
  obtain ⟨row', hrow', -⟩ := Stores.run_row_some now op hrow
  simp [hrow']

theorem events_run (h : EventsOfRows s) (hop : Within userId s op) :
    EventsOfRows (s.run now op) := by
  intro event he
  cases op with
  | addEvent event' =>
      rcases List.mem_append.mp he with he | he
      · exact row_run (h event he)
      · obtain rfl := List.mem_singleton.mp he
        obtain ⟨row, hrow, -⟩ : Owned s userId event.jobId := hop
        exact row_run (by simp [hrow])
  | insertJob job =>
      refine row_run (h event ?_)
      simp only [Stores.run] at he
      split_ifs at he <;> exact he
  | _ => exact row_run (h event he)

/-! ## What a thread holds along a step -/

theorem spelledProcess_holds {c : ProcessCall} {pc : ProcessPc}
    (h : spelledProcess cfg s c = some (pc, op)) (hkeys : KeysOwned s)
    (hc : Holds s (.process c)) : Holds s (.process { c with pc := pc }) := by
  rcases c with ⟨user, id, pc₀⟩
  cases pc₀ with
  | findScoped =>
      simp only [spelledProcess, nextProcess] at h
      split at h
      · cases h
        trivial
      · rename_i job hjob
        obtain ⟨hrow, rfl, -⟩ := Stores.findScoped_eq_some.mp hjob
        split_ifs at h
        · cases h
          trivial
        · cases h
          trivial
        · cases h
          exact ⟨⟨job, hrow, rfl⟩, fun key hkey => hkeys _ job hrow key (.inl hkey)⟩
  | objectExists job =>
      simp only [spelledProcess, nextProcess] at h
      split_ifs at h
      · cases h
        exact hc.1
      · cases h
        trivial
  | setStatus job =>
      cases h
      exact hc
  | getJob job =>
      simp only [spelledProcess, nextProcess] at h
      split at h <;> cases h <;> exact hc
  | getState job =>
      simp only [spelledProcess, nextProcess] at h
      split at h <;> cases h <;> exact hc
  | remove job =>
      simp only [spelledProcess, nextProcess] at h
      split at h
      · cases h
        trivial
      · cases h
        exact hc
  | add job =>
      simp only [spelledProcess, nextProcess] at h
      split at h <;> cases h <;> exact hc
  | findAgain job =>
      cases h
      trivial
  | returned dto => cases h
  | threw error => cases h

theorem objectKeys_owned {row : Job} (hkeys : KeysOwned s) (hrow : s.findById jobId = some row) :
    ∀ key ∈ row.objectKeys, UserKey row.userId key := by
  intro key hkey
  simp only [Job.objectKeys, List.mem_filterMap, List.mem_cons, List.not_mem_nil, or_false,
    Option.filter_eq_some_iff] at hkey
  obtain ⟨key', hmem, rfl, -⟩ := hkey
  exact hkeys jobId row hrow key (hmem.imp Eq.symm Eq.symm)

theorem nextRemove_holds {c : RemoveCall} {pc : RemovePc} (h : nextRemove s c = some (pc, op))
    (hkeys : KeysOwned s) (hc : Holds s (.remove c)) : Holds s (.remove { c with pc := pc }) := by
  rcases c with ⟨user, id, pc₀⟩
  cases pc₀ with
  | requireOwned =>
      simp only [nextRemove] at h
      split at h
      · cases h
        trivial
      · rename_i job hjob
        cases h
        obtain ⟨hrow, rfl, -⟩ := Stores.findScoped_eq_some.mp hjob
        exact objectKeys_owned hkeys hrow
  | softDelete job =>
      simp only [nextRemove] at h
      split at h
      · cases h
        trivial
      · cases h
        exact hc
  | deleteObjects job =>
      cases h
      trivial
  | returned => cases h
  | threw error => cases h

theorem readsAudio_compileStage (job : Snapshot) (transcript : String) :
    readsAudio (compileStage job transcript) = none := by
  unfold compileStage
  split_ifs <;> rfl

theorem readsAudio_afterThrow (e : Err) : readsAudio (afterThrow e) = none := by
  unfold afterThrow
  split_ifs <;> rfl

theorem readsAudio_afterStage (work : Work) (result : StageResult) :
    readsAudio (afterStage work result) = none := by
  cases work with
  | transcribe job => exact readsAudio_compileStage job result.transcript
  | _ => rfl

/-- An attempt that goes on keeps the audio key of the row it has read. -/
theorem spelledAttempt_reads {a : Attempt} {pc : AttemptPc} (h : spelledAttempt w a = some (pc, op))
    (hkeys : KeysOwned w.stores) (ha : Holds w.stores (.attempt a)) :
    ∀ key, readsAudio pc = some key → UserKey a.userId key := by
  intro key hkey
  rcases a with ⟨id, user, pc₀⟩
  cases pc₀ with
  | findById =>
      cases h
      rcases afterFindById_cases id user (w.stores.findById (canonical id)) with
        ⟨e, he⟩ | ⟨job, audio, work, hrow, -, rfl, -, haudio, he, hstarts⟩
      · rw [he] at hkey
        cases hkey
      · rw [he] at hkey
        cases hstarts with
        | transcribe =>
            cases hkey
            exact hkeys _ job hrow audio (.inl (Option.filter_eq_some_iff.mp haudio).1)
        | _ => cases hkey
  | setStatus work =>
      cases h
      refine ha.2 key ?_
      cases work with
      | transcribe job => exact hkey
      | _ => cases hkey
  | racing work i =>
      simp only [spelledAttempt, nextAttempt] at h
      split at h <;> cases h <;> cases hkey
  | addCompleted work result =>
      cases h
      rw [readsAudio_afterStage] at hkey
      cases hkey
  | addFailed work e =>
      cases h
      rw [readsAudio_afterThrow] at hkey
      cases hkey
  | marking e mark =>
      simp only [spelledAttempt, nextAttempt] at h
      split at h <;> cases h <;> cases hkey
  | _ =>
      cases h
      try cases hkey

theorem throws_reads {a : Attempt} {e : Err} {pc : AttemptPc} (h : a.throwing e = some pc) :
    readsAudio pc = none := by
  unfold Attempt.throwing at h
  split at h <;> cases h <;> first | rfl | exact readsAudio_afterThrow e

theorem spelledBody_streams {b : Body} {pc : BodyPc} (h : spelledBody s env b = some (pc, op)) :
    ∀ key, pc ≠ .getObjectStream key := by
  rintro key rfl
  obtain ⟨⟨pc', op'⟩, hn, he⟩ := Option.map_eq_some_iff.mp h
  cases he
  unfold nextBody at hn
  split at hn
  · split_ifs at hn <;> cases hn
  · split_ifs at hn <;> cases hn
  · cases hn
  · cases hn
  · cases hn
  · cases hn
  · cases hn
  · cases hn
  · cases hn

/-- A segment leaves the thread at work on the rows of its user. -/
theorem next_holds {t t' : Thread} {spawned : List Thread} (h : Coherent w)
    (hn : spelledNext cfg w env t = some (t', op, spawned)) (ht : Holds w.stores t) :
    Holds w.stores t' := by
  cases t with
  | create c =>
      obtain ⟨⟨pc, op'⟩, -, he⟩ := Option.map_eq_some_iff.mp hn
      cases he
      trivial
  | process c =>
      obtain ⟨⟨pc, op'⟩, hpc, he⟩ := Option.map_eq_some_iff.mp hn
      cases he
      exact spelledProcess_holds hpc h.keys ht
  | update c =>
      obtain ⟨⟨pc, op'⟩, -, he⟩ := Option.map_eq_some_iff.mp hn
      cases he
      trivial
  | remove c =>
      obtain ⟨⟨pc, op'⟩, hpc, he⟩ := Option.map_eq_some_iff.mp hn
      cases he
      exact nextRemove_holds (c := { c with jobId := canonical c.jobId }) hpc h.keys ht
  | attempt a =>
      obtain ⟨⟨pc, op'⟩, hpc, he⟩ := Option.map_eq_some_iff.mp hn
      cases he
      have hreads := spelledAttempt_reads hpc h.keys ht
      exact ⟨ht.1, hreads⟩
  | body b =>
      obtain ⟨⟨pc, op'⟩, hpc, he⟩ := Option.map_eq_some_iff.mp hn
      cases he
      exact ⟨ht.1, fun key hkey => (spelledBody_streams hpc key hkey).elim⟩
  | handler hd =>
      obtain ⟨⟨pc, op'⟩, -, he⟩ := Option.map_eq_some_iff.mp hn
      cases he
      exact ht

theorem throwing_holds {t t' : Thread} {e : Err} (h : throwing e t = some t')
    (ht : Holds s t) : Holds s t' := by
  cases t with
  | process c =>
      cases throwing_cases h with
      | process c => trivial
  | remove c =>
      cases throwing_cases h with
      | remove c pc ended => rcases ended with rfl | ⟨error, rfl⟩ <;> trivial
  | attempt a =>
      obtain ⟨pc, hpc, rfl⟩ := Option.map_eq_some_iff.mp h
      exact ⟨ht.1, by simp [throws_reads hpc]⟩
  | body b =>
      cases throwing_cases h with
      | body b open_ => exact ⟨ht.1, by simp⟩
  | handler hd =>
      obtain ⟨pc, -, rfl⟩ := Option.map_eq_some_iff.mp h
      exact ht
  | create c =>
      obtain ⟨pc, -, rfl⟩ := Option.map_eq_some_iff.mp h
      trivial
  | update c =>
      obtain ⟨pc, -, rfl⟩ := Option.map_eq_some_iff.mp h
      trivial

/-- A move leaves the thread and those it starts at work on rows of their user. -/
theorem acts_holds {i : ℕ} {act : Action} {t t' t₁ : Thread} {spawned : List Thread}
    (h : Coherent w) (ht : t ∈ w.threads) (acts : SpelledActs cfg w i act t now t' op spawned)
    (ht₁ : t₁ = t' ∨ t₁ ∈ spawned) : Holds w.stores t₁ := by
  have hholds := h.holds t ht
  rcases ht₁ with rfl | hsp
  · cases acts with
    | stepped env t t' op spawned next => exact next_holds h next hholds
    | threw env e t t' throws => exact throwing_holds throws hholds
    | lost env e t t' t₁ op spawned throws next => exact throwing_holds throws hholds
    | timedOut t t' out =>
        obtain ⟨a, work, body, rfl, -, rfl⟩ := timingOut_eq out
        exact ⟨hholds.1, by simp [readsAudio]⟩
    | acked a e entry pc queued => exact ⟨hholds.1, by simp [readsAudio]⟩
  · rcases spelled_spawned acts hsp with ⟨a, work, rfl, hpc, rfl⟩ | ⟨a, err, entry, rfl, hq, rfl⟩
    · refine ⟨hholds.1, fun key hkey => hholds.2 key ?_⟩
      rw [hpc]
      cases work with
      | transcribe job =>
          cases hkey
          rfl
      | _ => cases hkey
    · exact h.entries _ _ hq

theorem outside_holds {act : Action} {new : List Thread} {t : Thread} (h : Coherent w)
    (acts : Outside w act op new) (ht : t ∈ new) : Holds w.stores t := by
  cases acts with
  | called request =>
      rw [List.mem_singleton.mp ht]
      cases request <;> trivial
  | picked jobId entry queued waiting =>
      rw [List.mem_singleton.mp ht]
      exact ⟨h.entries _ _ queued, by simp [readsAudio]⟩
  | _ => cases ht

/-- The user for whom BullMQ or a client acts. -/
theorem outside_concerns {act : Action} {new : List Thread} (acts : Outside w act op new) :
    ∃ userId, concerns userId w act = true := by
  cases acts with
  | called request => exact ⟨_, decide_eq_true rfl⟩
  | picked jobId entry queued waiting => exact ⟨entry.userId, by simp [concerns, queued]⟩
  | promoted jobId entry queued delayed => exact ⟨entry.userId, by simp [concerns, queued]⟩
  | purged jobId entry queued completed => exact ⟨entry.userId, by simp [concerns, queued]⟩
  | uploaded user jobId bytes => exact ⟨user, by simp [concerns]⟩

/-! ## Races -/

/-- Only an attempt that starts a body begins to race it. -/
theorem spelledAttempt_racing {a : Attempt} {work : Work} {k : ℕ}
    (h : spelledAttempt w a = some (.racing work k, op)) :
    a.pc = .addStarted work ∧ k = w.threads.length := by
  rcases a with ⟨id, user, pc⟩
  cases pc with
  | findById =>
      have hpc : afterFindById id user (w.stores.findById (canonical id)) = .racing work k := by
        simpa [spelledAttempt] using congrArg (Option.map Prod.fst) h
      rcases afterFindById_cases id user (w.stores.findById (canonical id)) with
        ⟨e, he⟩ | ⟨_, _, _, -, -, -, -, -, he, -⟩
      · rw [he] at hpc
        cases hpc
      · rw [he] at hpc
        cases hpc
  | addStarted work' =>
      cases h
      exact ⟨rfl, rfl⟩
  | racing work' i =>
      simp only [spelledAttempt, nextAttempt] at h
      split at h <;> cases h
  | addCompleted work' result =>
      have hpc : afterStage work' result = .racing work k := by
        simpa [spelledAttempt, nextAttempt] using congrArg (Option.map Prod.fst) h
      cases work' with
      | transcribe job =>
          simp only [afterStage, compileStage] at hpc
          split_ifs at hpc
      | _ => cases hpc
  | addFailed work' e =>
      have hpc : afterThrow e = .racing work k := by
        simpa [spelledAttempt, nextAttempt] using congrArg (Option.map Prod.fst) h
      unfold afterThrow at hpc
      split_ifs at hpc
  | marking e mark =>
      simp only [spelledAttempt, nextAttempt] at h
      split at h <;> cases h
  | _ => cases h

theorem throws_racing {a : Attempt} {e : Err} {work : Work} {k : ℕ} :
    a.throwing e ≠ some (.racing work k) := by
  intro h
  unfold Attempt.throwing afterThrow at h
  split at h <;> first | cases h | (split_ifs at h <;> cases h)

/-- An attempt that has just begun to race has started its body. -/
theorem acts_racing {i k : ℕ} {act : Action} {t : Thread} {a' : Attempt} {work : Work}
    {spawned : List Thread} (acts : SpelledActs cfg w i act t now (.attempt a') op spawned)
    (hpc : a'.pc = .racing work k) :
    k = w.threads.length ∧ ∃ b, spawned = [.body b] ∧ b.userId = a'.userId := by
  generalize ht' : Thread.attempt a' = t' at acts
  cases acts with
  | stepped env t t' op spawned next =>
      cases t with
      | attempt a =>
          obtain ⟨⟨pc, op'⟩, hn, he⟩ := Option.map_eq_some_iff.mp next
          cases he
          cases ht'
          dsimp only at hpc
          subst hpc
          obtain ⟨hstart, rfl⟩ := spelledAttempt_racing hn
          exact ⟨rfl, ⟨a.jobId, a.userId, startBody a.jobId env.now work⟩,
            by simp only [Attempt.spawn, hstart], rfl⟩
      | _ =>
          obtain ⟨⟨pc, op'⟩, -, he⟩ := Option.map_eq_some_iff.mp next
          cases he
          cases ht'
  | threw env e t t' throws =>
      cases t with
      | attempt a =>
          obtain ⟨pc, hthrow, rfl⟩ := Option.map_eq_some_iff.mp throws
          cases ht'
          dsimp only at hpc
          subst hpc
          exact (throws_racing hthrow).elim
      | _ =>
          obtain ⟨pc, -, rfl⟩ := Option.map_eq_some_iff.mp throws
          cases ht'
  | lost env e t t' t₁ op spawned throws next =>
      cases t with
      | attempt a =>
          obtain ⟨pc, hthrow, rfl⟩ := Option.map_eq_some_iff.mp throws
          cases ht'
          dsimp only at hpc
          subst hpc
          exact (throws_racing hthrow).elim
      | _ =>
          obtain ⟨pc, -, rfl⟩ := Option.map_eq_some_iff.mp throws
          cases ht'
  | timedOut t t' out =>
      obtain ⟨a, work, body, rfl, -, rfl⟩ := timingOut_eq out
      cases ht'
      cases hpc
  | acked a e entry pc queued =>
      cases ht'
      cases hpc

theorem races_step {act : Action} (h : RacesOwn w) (hs : spelledStep cfg w act = some w') :
    RacesOwn w' := by
  intro a work k ha hpc
  cases spelled_shape hs with
  | thread i now t t' op spawned at_ acts =>
      rcases mem_advance ha with hmem | rfl | hsp
      · obtain ⟨b, hb, huser⟩ := h a work k hmem hpc
        by_cases hki : k = i
        · subst hki
          rw [at_] at hb
          cases hb
          have hsame := acts.sameCall
          cases hsame with
          | body b pc => exact ⟨_, getElem?_advance_same at_, huser⟩
        · exact ⟨b, getElem?_advance_other hki hb, huser⟩
      · obtain ⟨rfl, b, rfl, huser⟩ := acts_racing acts hpc
        exact ⟨b, by simp [World.advance], huser⟩
      · rcases spelled_spawned acts hsp with ⟨_, _, -, -, heq⟩ | ⟨_, _, _, -, -, heq⟩ <;> cases heq
  | outside op new acts =>
      rcases List.mem_append.mp ha with hmem | hnew
      · obtain ⟨b, hb, huser⟩ := h a work k hmem hpc
        exact ⟨b, (List.getElem?_append_left (lt_of_getElem? hb)).trans hb, huser⟩
      · have hread := (outside_new acts hnew).2 a rfl
        rw [hread] at hpc
        cases hpc

/-- Everything stays with the owners of the rows. -/
theorem coherent_step {act : Action} (h : Coherent w) (hs : spelledStep cfg w act = some w') :
    Coherent w' := by
  have hraces := races_step h.races hs
  cases spelled_shape hs with
  | thread i now t t' op spawned at_ acts =>
      have hmem := List.mem_of_getElem? at_
      have hwithin := acts_within h hmem acts
      refine ⟨keys_run h.keys hwithin, entries_run h.entries hwithin,
        events_run h.events hwithin, ?_, hraces⟩
      intro t₁ ht₁
      rcases mem_advance ht₁ with hold | hnew
      · exact (h.holds t₁ hold).run
      · exact (acts_holds h hmem acts hnew).run
  | outside op new acts =>
      obtain ⟨userId, hact⟩ := outside_concerns acts
      have hwithin := (outside_within h acts hact).1
      refine ⟨keys_run h.keys hwithin, entries_run h.entries hwithin,
        events_run h.events hwithin, ?_, hraces⟩
      intro t₁ ht₁
      rcases List.mem_append.mp ht₁ with hold | hnew
      · exact (h.holds t₁ hold).run
      · exact (outside_holds h acts hnew).run

end FieldNote.UserViews
