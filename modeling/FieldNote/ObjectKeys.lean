import FieldNote.ThreadSteps

/-!
# Object keys and the rows they belong to

The keys in a row are made of its owner and its id, and so are the keys that a thread works
with. Ids are UUIDs; all that matters is that they hold no slash, so that a PDF key tells
its job. A thread deletes no object but those of a deleted job.
-/
namespace FieldNote.ObjectKeys
open JobsService PipelineService ServerRuns CallPool

/-- What follows the last separator of two equal texts is equal. -/
theorem tail_eq {α : Type*} {c : α} {xs xs' ys ys' : List α} (h : xs ++ c :: ys = xs' ++ c :: ys')
    (hy : c ∉ ys) (hy' : c ∉ ys') : ys = ys' := by
  rcases List.append_eq_append_iff.mp h with ⟨zs, rfl, hz⟩ | ⟨zs, rfl, hz⟩
  · cases zs with
    | nil => simpa using hz
    | cons z zs =>
        simp only [List.cons_append, List.cons.injEq] at hz
        exact (hy (hz.2 ▸ by simp)).elim
  · cases zs with
    | nil => simpa using hz.symm
    | cons z zs =>
        simp only [List.cons_append, List.cons.injEq] at hz
        exact (hy' (hz.2 ▸ by simp)).elim

/-- Different jobs have different PDF keys. -/
theorem pdfKey_inj {u u' j j' : String} (hj : '/' ∉ j.toList) (hj' : '/' ∉ j'.toList)
    (h : pdfKey u j = pdfKey u' j') : j = j' := by
  have hl := congrArg String.toList h
  simp only [pdfKey, String.toList_append] at hl
  have hcut := List.append_cancel_right hl
  have hsplit : ("pdf/".toList ++ u.toList) ++ '/' :: j.toList =
      ("pdf/".toList ++ u'.toList) ++ '/' :: j'.toList := by simpa using hcut
  exact String.toList_inj.mp (tail_eq hsplit hj hj')

theorem audioKey_ne_pdfKey (u j u' j' : String) : audioKey u j ≠ pdfKey u' j' := by
  intro h
  have hl := congrArg String.toList h
  simp [pdfKey, audioKey] at hl

variable {cfg : ServerConfig} {w w' : World} {env : Env} {jobId : String} {op : Op}

/-- The attempt has passed its checks and has stages ahead of it. -/
def staged : AttemptPc → Bool
  | .setStatus _ | .addStarted _ | .racing _ _ | .addCompleted _ _ => true
  | _ => false

def Owned (s : Stores) (userId jobId : String) : Prop :=
  ∃ row, s.findById jobId = some row ∧ row.userId = userId

def Gone (s : Stores) (jobId : String) : Prop :=
  ∃ row, s.findById jobId = some row ∧ row.deletedAt ≠ none

def OwnKeys (userId jobId : String) (job : Job) : Prop :=
  ∀ key ∈ job.objectKeys, key = audioKey userId jobId ∨ key = pdfKey userId jobId

/-- The thread works on a row of its user, and deletes no object but those of a deleted job. -/
def Owns (s : Stores) : Thread → Prop
  | .attempt a => staged a.pc = true → Owned s a.userId a.jobId
  | .body b => Owned s b.userId b.jobId
  | .remove c =>
      match c.pc with
      | .softDelete job => OwnKeys c.userId c.jobId job
      | .deleteObjects job => OwnKeys c.userId c.jobId job ∧ Gone s c.jobId
      | _ => True
  | _ => True

/-- The keys in a row are those of its job. -/
def RowKeys (s : Stores) : Prop :=
  ∀ jobId row, s.findById jobId = some row →
    row.audioKey = some (audioKey row.userId jobId) ∧
      ∀ key, row.pdfKey = some key → key = pdfKey row.userId jobId

theorem Owned.run {s : Stores} {userId : String} {now : ℕ} (h : Owned s userId jobId) :
    Owned (s.run now op) userId jobId := by
  obtain ⟨row, hrow, huser⟩ := h
  obtain ⟨row', hrow', huser'⟩ := Stores.run_row_some now op hrow
  exact ⟨row', hrow', huser'.trans huser⟩

theorem Gone.run {s : Stores} {now : ℕ} (h : Gone s jobId) : Gone (s.run now op) jobId := by
  obtain ⟨row, hrow, hgone⟩ := h
  rcases Stores.run_row_after now op hrow with hkept | ⟨wr, -, hwritten⟩
  · exact ⟨row, hkept, hgone⟩
  · exact ⟨_, hwritten, fun hlive => hgone (wr.apply_live now row hlive)⟩

theorem Owns.run {s : Stores} {t : Thread} {now : ℕ} (h : Owns s t) : Owns (s.run now op) t := by
  cases t with
  | attempt a => exact fun hs => (h hs).run
  | body b => exact Owned.run h
  | remove c =>
      rcases c with ⟨userId, id, pc⟩
      cases pc with
      | deleteObjects job => exact ⟨h.1, h.2.run⟩
      | _ => exact h
  | _ => trivial

theorem nextAttempt_owns {a : Attempt} {pc : AttemptPc}
    (h : nextAttempt w.stores a w.threads.length w.bodyResult = some (pc, op))
    (hs : staged pc = true) (ha : Owns w.stores (.attempt a)) :
    Owned w.stores a.userId a.jobId := by
  unfold nextAttempt at h
  split at h
  · cases h
    rcases afterFindById_cases a.jobId a.userId (w.stores.findById a.jobId) with
      ⟨e, he⟩ | ⟨job, key, work, hjob, -, huser, -⟩
    · rw [he] at hs
      cases hs
    · exact ⟨job, hjob, huser⟩
  · rename_i hpc
    exact ha (by rw [hpc]; rfl)
  · rename_i hpc
    exact ha (by rw [hpc]; rfl)
  · rename_i hpc
    exact ha (by rw [hpc]; rfl)
  · rename_i hpc
    exact ha (by rw [hpc]; rfl)
  · cases h
    unfold afterThrow at hs
    split_ifs at hs <;> cases hs
  · split at h <;> cases h <;> cases hs
  · cases h
  · cases h

theorem nextRemove_owns {c : RemoveCall} {pc : RemovePc} {now : ℕ}
    (h : nextRemove w.stores c = some (pc, op)) (hkeys : RowKeys w.stores)
    (hc : Owns w.stores (.remove c)) :
    Owns (w.stores.run now op) (.remove { c with pc := pc }) := by
  rcases c with ⟨userId, id, pc₀⟩
  cases pc₀ with
  | requireOwned =>
      simp only [nextRemove] at h
      split at h
      · cases h
        trivial
      · rename_i job hjob
        cases h
        obtain ⟨hrow, rfl, -⟩ := Stores.findScoped_eq_some.mp hjob
        obtain ⟨haudio, hpdf⟩ := hkeys id job hrow
        intro key hkey
        simp only [Job.objectKeys, List.mem_filterMap, List.mem_cons, List.not_mem_nil, or_false,
          Option.filter_eq_some_iff] at hkey
        obtain ⟨key', hmem, rfl, -⟩ := hkey
        rcases hmem with hk | hk
        · rw [haudio] at hk
          exact .inl (Option.some.inj hk)
        · exact .inr (hpdf key hk.symm)
  | softDelete job =>
      simp only [nextRemove] at h
      split at h
      · cases h
        trivial
      · rename_i job' hjob
        cases h
        obtain ⟨hrow, huser, hlive⟩ := Stores.findScoped_eq_some.mp hjob
        refine ⟨hc, _, (Stores.run_row_write now w.stores _ id).trans (by rw [hrow]; rfl), ?_⟩
        simp [Write.apply, Job.inScope, huser, hlive]
  | deleteObjects job =>
      cases h
      trivial
  | returned => cases h
  | threw error => cases h

/-- A segment keeps to the rows of its user. -/
theorem next_owns {t t' t₁ : Thread} {spawned : List Thread} {now : ℕ}
    (h : next cfg w env t = some (t', op, spawned)) (hkeys : RowKeys w.stores)
    (ht : Owns w.stores t) (ht₁ : t₁ = t' ∨ t₁ ∈ spawned) : Owns (w.stores.run now op) t₁ := by
  cases next_segment h with
  | attempt a pc op hn =>
      rcases ht₁ with rfl | hsp
      · exact fun hs => (nextAttempt_owns hn hs ht).run
      · unfold Attempt.spawn at hsp
        split at hsp
        · rename_i work hpc
          rw [List.mem_singleton.mp hsp]
          exact (ht (by rw [hpc]; rfl)).run
        · cases hsp
  | body b pc op hn =>
      rcases ht₁ with rfl | hsp
      · exact Owned.run ht
      · cases hsp
  | remove c pc op hn =>
      rcases ht₁ with rfl | hsp
      · exact nextRemove_owns hn hkeys ht
      · cases hsp
  | _ =>
      rcases ht₁ with rfl | hsp
      · trivial
      · cases hsp

theorem throwing_owns {t t' : Thread} {e : Err} {now : ℕ} (h : throwing e t = some t')
    (ht : Owns w.stores t) : Owns (w.stores.run now op) t' := by
  cases throwing_cases h with
  | remove c pc ended => rcases ended with rfl | ⟨error, rfl⟩ <;> trivial
  | leaving a =>
      intro hs
      unfold afterThrow at hs
      split_ifs at hs <;> cases hs
  | body b => exact Owned.run ht
  | failing a => simp [Owns, staged]
  | settling a => simp [Owns, staged]
  | _ => trivial

/-- A create call that inserts gives its row a UUID. -/
def insertsUuid (env : Env) : Thread → Bool
  | .create c => c.pc ≠ .createDraft || '/' ∉ env.id.toList
  | _ => true

def uuidIds (w : World) : Action → Bool
  | .step i env | .throw i env _ true => w.threads[i]?.all (insertsUuid env)
  | _ => true

/-- The guard that generated job ids are UUIDs. -/
def UuidIds (w : World) (a : Action) : Prop := uuidIds w a = true

instance : DecidableRel UuidIds := fun _ _ => inferInstanceAs (Decidable (_ = true))

/-- Ids hold no slash, keys are those of their rows, and threads keep to their rows. -/
structure Kept (w : World) : Prop where
  ids : ∀ jobId row, w.stores.findById jobId = some row → '/' ∉ jobId.toList
  keys : RowKeys w.stores
  owns : ∀ t ∈ w.threads, Owns w.stores t

theorem kept_empty : Kept World.empty := by
  have hnone : ∀ jobId row, World.empty.stores.findById jobId ≠ some row := by
    intro jobId row h
    cases h
  refine ⟨fun j r h => (hnone j r h).elim, fun j r h => (hnone j r h).elim, ?_⟩
  intro t ht
  cases ht

/-- The id of an inserted row is a UUID. -/
theorem inserted_uuid {a : Action} {i now : ℕ} {t t' : Thread} {row : Job}
    {spawned : List Thread} (hg : UuidIds w a) (ht : w.threads[i]? = some t)
    (h : Acts cfg w i a t now t' (.insertJob row) spawned) : '/' ∉ row.id.toList := by
  have hnext : ∀ {env : Env} {t₁ : Thread} {spawned : List Thread},
      next cfg w env t = some (t₁, .insertJob row, spawned) →
        w.threads[i]?.all (insertsUuid env) = true → '/' ∉ row.id.toList := by
    intro env t₁ spawned hn hall
    cases next_issues hn with
    | aside t op haside => cases haside
    | create c =>
        have hpc : c.pc = .createDraft := by
          cases hpc : c.pc with
          | createDraft => rfl
          | findByIdempotencyKey key =>
              simp only [next, nextCreate, hpc] at hn
              split at hn <;> cases hn
          | returned response => simp [next, nextCreate, hpc] at hn
          | threw error => simp [next, nextCreate, hpc] at hn
        simpa [ht, insertsUuid, hpc, draft] using hall
  cases h with
  | stepped env t t' op spawned next => exact hnext next hg
  | lost env e t t' t₁ op spawned throws next => exact hnext next hg

/-- A statement other than the render body's last leaves the PDF key. -/
theorem issues_newPdfKey {t : Thread} {wr : Write} (h : Issues w env t (.write jobId wr)) :
    wr.newPdfKey = none ∨ ∃ b view, t = .body b ∧ b.jobId = jobId ∧ b.pc = .setPdfReady view ∧
      wr.newPdfKey = some (pdfKey b.userId b.jobId) := by
  cases h with
  | aside _ _ haside => cases haside
  | update c wr pc write =>
      rcases updateWrite_cases write with ⟨label, rfl⟩ | ⟨label, rows, rfl⟩ <;> exact .inl rfl
  | ready b view pc => exact .inr ⟨b, view, rfl, rfl, pc, rfl⟩
  | _ => exact .inl rfl

theorem rowKeys_run {t : Thread} {now : ℕ} (h : Kept w) (ht : t ∈ w.threads)
    (hop : Issues w env t op) : RowKeys (w.stores.run now op) := by
  intro jobId row' hrow'
  rcases Stores.run_row_before hrow' with hrow | ⟨wr, row, rfl, hrow, rfl⟩ | ⟨rfl, hid, -⟩
  · exact h.keys jobId row' hrow
  · obtain ⟨haudio, hpdf⟩ := h.keys jobId row hrow
    rw [wr.apply_audioKey, wr.apply_userId, wr.apply_pdfKey]
    refine ⟨haudio, fun key hkey => ?_⟩
    rcases issues_newPdfKey hop with hnone | ⟨b, view, rfl, rfl, -, hset⟩
    · rw [hnone, Option.none_or] at hkey
      exact hpdf key hkey
    · obtain ⟨row₁, hrow₁, huser⟩ : Owned w.stores b.userId b.jobId := h.owns _ ht
      rw [hrow] at hrow₁
      cases hrow₁
      rw [hset] at hkey
      cases hkey
      rw [huser]
  · cases hop with
    | aside _ _ haside => cases haside
    | create c =>
        subst hid
        exact ⟨rfl, nofun⟩

/-- An operation that inserts no row keeps the keys of the rows and the threads' hold. -/
theorem kept_outside {s : Stores} {new : List Thread} (h : Kept w) (hjobs : s.jobs = w.stores.jobs)
    (hnew : ∀ t ∈ new, Owns s t) : Kept ⟨s, w.threads ++ new⟩ := by
  have hfind : ∀ jobId, s.findById jobId = w.stores.findById jobId := by
    intro jobId
    simp only [Stores.findById, hjobs]
  refine ⟨?_, ?_, ?_⟩
  · intro jobId row hrow
    exact h.ids jobId row ((hfind jobId).symm.trans hrow)
  · intro jobId row hrow
    exact h.keys jobId row ((hfind jobId).symm.trans hrow)
  · intro t ht
    rcases List.mem_append.mp ht with ht | ht
    · have hown := h.owns t ht
      cases t with
      | attempt a => simpa only [Owns, Owned, hfind] using hown
      | body b => simpa only [Owns, Owned, hfind] using hown
      | remove c => simpa only [Owns, Gone, hfind] using hown
      | _ => trivial
    · exact hnew t ht

theorem acts_owns {a : Action} {i now : ℕ} {t t' t₁ : Thread} {spawned : List Thread}
    (h : Acts cfg w i a t now t' op spawned) (hkeys : RowKeys w.stores) (ht : Owns w.stores t)
    (ht₁ : t₁ = t' ∨ t₁ ∈ spawned) : Owns (w.stores.run now op) t₁ := by
  cases h with
  | stepped env t t' op spawned next => exact next_owns next hkeys ht ht₁
  | threw env e t t' throws =>
      rcases ht₁ with rfl | hsp
      · exact throwing_owns throws ht
      · cases hsp
  | lost env e t t' t₂ op spawned throws next =>
      rcases ht₁ with rfl | hsp
      · exact throwing_owns throws ht
      · cases hsp
  | timedOut t t' out =>
      obtain ⟨a, work, body, rfl, -, rfl⟩ := timingOut_eq out
      rcases ht₁ with rfl | hsp
      · simp [Owns, staged]
      · cases hsp
  | acked a e entry pc queued =>
      rcases ht₁ with rfl | hsp
      · simp [Owns, staged]
      · obtain ⟨err, -, rfl⟩ := settle_handler hsp
        trivial

theorem kept_step {a : Action} (h : Kept w) (hg : UuidIds w a) (hs : step cfg w a = some w') :
    Kept w' := by
  cases step_shape hs with
  | thread i now t t' op spawned at_ acts =>
      have hmem := List.mem_of_getElem? at_
      obtain ⟨env, hissues⟩ := acts.issues
      refine ⟨?_, rowKeys_run h hmem hissues, ?_⟩
      · intro jobId row' hrow'
        rcases Stores.run_row_before hrow' with hrow | ⟨wr, row, -, hrow, -⟩ | ⟨rfl, hid, -⟩
        · exact h.ids jobId row' hrow
        · exact h.ids jobId row hrow
        · exact hid ▸ inserted_uuid hg at_ acts
      · intro t₁ ht₁
        rcases mem_advance ht₁ with hold | hnew
        · exact (h.owns t₁ hold).run
        · exact acts_owns acts h.keys (h.owns t hmem) hnew
  | outside op new acts =>
      cases acts with
      | called request =>
          refine kept_outside h rfl fun t ht => ?_
          rw [List.mem_singleton.mp ht]
          cases request <;> trivial
      | picked jobId entry queued waiting =>
          refine kept_outside h rfl fun t ht => ?_
          rw [List.mem_singleton.mp ht]
          simp [Owns, staged]
      | promoted jobId entry queued delayed => exact kept_outside h rfl (by simp)
      | purged jobId entry queued completed => exact kept_outside h rfl (by simp)
      | uploaded userId jobId bytes => exact kept_outside h rfl (by simp)

/-- The PDF object of a live job is replaced only by a render body of the job. -/
theorem pdf_kept {t : Thread} {row : Job} (now : ℕ) (h : Kept w) (hop : Issues w env t op)
    (ht : t ∈ w.threads) (hrow : w.stores.findById jobId = some row)
    (hlive : row.deletedAt = none) :
    (w.stores.run now op).bucket (pdfKey row.userId jobId) =
        w.stores.bucket (pdfKey row.userId jobId) ∨
      ∃ b view, t = .body b ∧ b.jobId = jobId ∧ b.pc = .putObject view ∧
        (w.stores.run now op).bucket (pdfKey row.userId jobId) = some (.pdf view) := by
  have hid := h.ids jobId row hrow
  cases hop with
  | aside _ _ haside => exact .inl (by rw [(run_aside haside).2])
  | create c =>
      simp only [Stores.run]
      split_ifs <;> exact .inl rfl
  | putObject b view pc =>
      by_cases hkey : pdfKey row.userId jobId = pdfKey b.userId b.jobId
      · obtain ⟨row₁, hrow₁, -⟩ : Owned w.stores b.userId b.jobId := h.owns _ ht
        have hjob := pdfKey_inj hid (h.ids b.jobId row₁ hrow₁) hkey
        exact .inr ⟨b, view, rfl, hjob.symm, pc, by simp [Stores.run, hkey]⟩
      · exact .inl (by simp [Stores.run, hkey])
  | deleteObjects c job pc =>
      have hown := h.owns _ ht
      simp only [Owns, pc] at hown
      obtain ⟨hkeys, row₁, hrow₁, hgone⟩ := hown
      refine .inl ?_
      have hnot : pdfKey row.userId jobId ∉ job.objectKeys := by
        intro hmem
        rcases hkeys _ hmem with hk | hk
        · exact audioKey_ne_pdfKey _ _ _ _ hk.symm
        · have hjob := pdfKey_inj hid (h.ids c.jobId row₁ hrow₁) hk
          subst hjob
          rw [hrow] at hrow₁
          cases hrow₁
          exact hgone hlive
      simp [Stores.run, hnot]
  | _ => exact .inl rfl

end FieldNote.ObjectKeys
