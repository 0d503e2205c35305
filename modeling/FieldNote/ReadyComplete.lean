import FieldNote.ObjectKeys
import FieldNote.StageMoves

/-!
# A READY job has its transcript and its PDF

A stage after the transcription is only reached over a committed transcript, and no later
statement removes one. A render body stores the object before it marks the job READY, and an
object is deleted only after its own job. Both facts are kept whatever attempts, late bodies
and failed writes overlap.
-/
namespace FieldNote.ReadyComplete
open JobsService PipelineService ServerRuns ObjectKeys GuardedRuns CallPool

/-- The row holds a transcript with text in it. -/
def Transcribed (s : Stores) (jobId : String) : Prop :=
  ∃ row text, s.findById jobId = some row ∧ row.transcript = some text ∧ JsText.trim text ≠ ""

/-- The attempt is past its transcription. -/
def transcribed : AttemptPc → Bool
  | .setStatus work | .addStarted work | .racing work _ => work.stage ≠ .transcribe
  | .addCompleted _ _ => true
  | _ => false

/-- The body saved a transcript, or runs after one. -/
def saved : BodyPc → Bool
  | .getObjectStream _ | .transcribe _ | .saveTranscript _ | .done (.error _) => false
  | _ => true

/-- The thread works on a transcript that is stored, or is going to store one with text. -/
def Backed (s : Stores) : Thread → Prop
  | .attempt a => transcribed a.pc = true → Transcribed s a.jobId
  | .body b =>
      (saved b.pc = true → Transcribed s b.jobId) ∧
        ∀ text, b.pc = .saveTranscript text → JsText.trim text ≠ ""
  | _ => True

structure Inv (w : World) : Prop where
  kept : Kept w
  races : Races w
  backed : ∀ t ∈ w.threads, Backed w.stores t
  ready : ∀ jobId row, w.stores.findById jobId = some row → row.status = .READY →
    Transcribed w.stores jobId ∧ row.pdfKey = some (pdfKey row.userId jobId)
  stored : ∀ jobId row, w.stores.findById jobId = some row → row.deletedAt = none →
    (row.status = .READY ∨
      ∃ b view, Thread.body b ∈ w.threads ∧ b.jobId = jobId ∧ b.pc = .setPdfReady view) →
    w.stores.bucket (pdfKey row.userId jobId) ≠ none

variable {cfg : ServerConfig} {w w' : World} {env : Env} {jobId : String} {op : Op}

theorem inv_empty : Inv World.empty := by
  have hnone : ∀ jobId row, World.empty.stores.findById jobId ≠ some row := by
    intro jobId row h
    cases h
  refine ⟨kept_empty, races_empty, ?_, fun j r h => (hnone j r h).elim,
    fun j r h => (hnone j r h).elim⟩
  intro t ht
  cases ht

/-- A statement stores no transcript but one with text. -/
theorem issues_newTranscript {t : Thread} {wr : Write} (ht : Backed w.stores t)
    (h : Issues w env t (.write jobId wr)) :
    ∀ text, wr.newTranscript = some text → JsText.trim text ≠ "" := by
  intro text htext
  obtain ⟨b, rfl, -, hpc⟩ := issues_transcript h htext
  exact ht.2 text hpc

theorem Transcribed.run {t : Thread} {now : ℕ} (h : Transcribed w.stores jobId)
    (ht : Backed w.stores t) (hop : Issues w env t op) :
    Transcribed (w.stores.run now op) jobId := by
  obtain ⟨row, text, hrow, htext, hfull⟩ := h
  rcases Stores.run_row_after now op hrow with hkept | ⟨wr, rfl, hwritten⟩
  · exact ⟨row, text, hkept, htext, hfull⟩
  · cases hnew : wr.newTranscript with
    | none =>
        refine ⟨_, text, hwritten, ?_, hfull⟩
        rw [wr.apply_transcript, hnew, Option.none_or]
        exact htext
    | some text' =>
        refine ⟨_, text', hwritten, ?_, issues_newTranscript ht hop text' hnew⟩
        rw [wr.apply_transcript, hnew, Option.some_or]

theorem Transcribed.congr {s s' : Stores} (h : Transcribed s jobId) (hjobs : s'.jobs = s.jobs) :
    Transcribed s' jobId := by
  obtain ⟨row, text, hrow, hrest⟩ := h
  exact ⟨row, text, by simpa only [Stores.findById, hjobs] using hrow, hrest⟩

theorem Backed.congr {s s' : Stores} {t : Thread} (h : Backed s t) (hjobs : s'.jobs = s.jobs) :
    Backed s' t := by
  cases t with
  | attempt a => exact fun ha => (h ha).congr hjobs
  | body b => exact ⟨fun hb => (h.1 hb).congr hjobs, h.2⟩
  | _ => trivial

theorem Backed.run {t t₁ : Thread} {now : ℕ} (h : Backed w.stores t₁) (ht : Backed w.stores t)
    (hop : Issues w env t op) : Backed (w.stores.run now op) t₁ := by
  cases t₁ with
  | attempt a => exact fun ha => (h ha).run ht hop
  | body b => exact ⟨fun hb => (h.1 hb).run ht hop, h.2⟩
  | _ => trivial

theorem backed_idle {s : Stores} {b : Body} (hs : saved b.pc = false)
    (hpc : ∀ text, b.pc ≠ .saveTranscript text) : Backed s (.body b) :=
  ⟨fun h => by simp [hs] at h, fun text h => (hpc text h).elim⟩

theorem backed_saved {s : Stores} {b : Body} (ht : Transcribed s b.jobId)
    (hpc : ∀ text, b.pc ≠ .saveTranscript text) : Backed s (.body b) :=
  ⟨fun _ => ht, fun text h => (hpc text h).elim⟩

/-- A body that moves has saved what it says. -/
theorem body_backed {b : Body} {pc : BodyPc} {now : ℕ} (h : BodyMove w b pc op)
    (hkept : Owned w.stores b.userId b.jobId) (hb : Backed w.stores (.body b))
    (hrun : ∀ id, Transcribed w.stores id → Transcribed (w.stores.run now op) id) :
    Backed (w.stores.run now op) (.body { b with pc := pc }) := by
  cases h with
  | threw e open_ => exact backed_idle rfl (by simp)
  | lost env e pc op next => exact backed_idle rfl (by simp)
  | moved env pc op next =>
      rcases b with ⟨jobId, userId, pc₀⟩
      cases pc₀ with
      | getObjectStream key =>
          simp only [nextBody] at next
          split_ifs at next <;> cases next <;> exact backed_idle rfl (by simp)
      | transcribe key =>
          simp only [nextBody] at next
          split_ifs at next with hblank
          · cases next
            exact backed_idle rfl (by simp)
          · cases next
            refine ⟨by simp [saved], ?_⟩
            intro text htext
            cases htext
            rwa [JsText.trim_trim]
      | saveTranscript text =>
          cases next
          obtain ⟨row, hrow, -⟩ := hkept
          have hrow' := Stores.run_row_write now w.stores (.saveTranscript text) jobId
          rw [hrow] at hrow'
          exact backed_saved ⟨_, text, hrow', rfl, hb.2 text rfl⟩ (by simp)
      | done r => cases next
      | _ =>
          cases next
          exact backed_saved (hrun jobId (hb.1 rfl)) (by simp)

/-- An attempt goes on from its transcription only over a stored transcript. -/
theorem attempt_backed {a : Attempt} {pc : AttemptPc} {now : ℕ} {spawned : List Thread}
    (h : AttemptMove cfg w a now pc op spawned) (hinv : Inv w) (hmem : Thread.attempt a ∈ w.threads)
    (hpc : transcribed pc = true) : Transcribed w.stores a.jobId := by
  have hown : transcribed a.pc = true → Transcribed w.stores a.jobId := hinv.backed _ hmem
  cases h with
  | began job key work pc row live user unready audio begins =>
      cases begins with
      | transcribe blank => cases hpc
      | compile text transcript full empty => exact ⟨job, text, row, transcript, full⟩
      | render text transcript full existing => exact ⟨job, text, row, transcript, full⟩
  | announced work pc => exact hown (by rw [pc]; exact hpc)
  | started work pc => exact hown (by rw [pc]; exact hpc)
  | won work i result pc done =>
      obtain ⟨b, hb, hdone⟩ := bodyResult_eq_some.mp done
      obtain ⟨b', hb', hjob, -, -⟩ := hinv.races a work i hmem pc
      rw [hb] at hb'
      cases hb'
      rw [← hjob]
      exact (hinv.backed _ (List.mem_of_getElem? hb)).1 (by rw [hdone]; rfl)
  | completed work result pc => exact hown (by rw [pc]; rfl)
  | thrown work e op pc =>
      unfold afterThrow at hpc
      split_ifs at hpc <;> cases hpc
  | _ => cases hpc

theorem thread_backed {i now : ℕ} {act : Action} {t t' t₁ : Thread} {spawned : List Thread}
    (h : Inv w) (at_ : w.threads[i]? = some t) (acts : Acts cfg w i act t now t' op spawned)
    (ht₁ : t₁ ∈ (w.advance now i t' op spawned).threads) : Backed (w.stores.run now op) t₁ := by
  have hmem := List.mem_of_getElem? at_
  have hb := h.backed t hmem
  obtain ⟨env, hissues⟩ := acts.issues
  have hrun : ∀ id, Transcribed w.stores id → Transcribed (w.stores.run now op) id :=
    fun id hid => hid.run hb hissues
  rcases mem_advance ht₁ with hold | rfl | hsp
  · exact (h.backed t₁ hold).run hb hissues
  · cases t₁ with
    | attempt a' =>
        obtain ⟨a, pc, rfl, rfl, hmove⟩ := acts_to_attempt acts
        have htext : transcribed pc = true → Transcribed w.stores a.jobId :=
          attempt_backed hmove h hmem
        exact fun hpc => hrun a.jobId (htext hpc)
    | body b' =>
        obtain ⟨-, b, pc, rfl, rfl, hmove⟩ := acts_to_body acts
        exact body_backed hmove (h.kept.owns _ hmem) hb hrun
    | _ => trivial
  · rcases acts_spawned acts hsp with ⟨a, work, rfl, hpc, rfl⟩ | ⟨a, err, entry, -, -, -, rfl⟩
    · cases work with
      | transcribe job => exact backed_idle rfl (by simp [startBody])
      | compile job text => exact backed_saved (hrun _ (hb (by rw [hpc]; rfl))) (by simp [startBody])
      | render label sections => exact backed_saved (hrun _ (hb (by rw [hpc]; rfl))) (by simp [startBody])
    · trivial

/-- A row that is READY after an operation was so before, or a render body has just marked
it. -/
theorem ready_cases {t : Thread} {now : ℕ} {row' : Job} (hop : Issues w env t op)
    (hrow' : (w.stores.run now op).findById jobId = some row') (hready : row'.status = .READY) :
    ∃ row, w.stores.findById jobId = some row ∧ row'.userId = row.userId ∧
      (row'.deletedAt = none → row.deletedAt = none) ∧
      ((row.status = .READY ∧ (row'.pdfKey = row.pdfKey ∨ ∃ key, row'.pdfKey = some key)) ∨
        ((∃ key, row'.pdfKey = some key) ∧
          ∃ b view, t = .body b ∧ b.jobId = jobId ∧ b.pc = .setPdfReady view)) := by
  rcases Stores.run_row_before hrow' with hrow | ⟨wr, row, rfl, hrow, rfl⟩ | ⟨rfl, -, -⟩
  · exact ⟨row', hrow, rfl, id, .inl ⟨hready, .inl rfl⟩⟩
  · refine ⟨row, hrow, wr.apply_userId now row, wr.apply_live now row, ?_⟩
    rw [wr.apply_status] at hready
    rw [wr.apply_pdfKey]
    cases hst : wr.newStatus with
    | none =>
        rw [hst] at hready
        refine .inl ⟨hready, ?_⟩
        cases hkey : wr.newPdfKey with
        | none => exact .inl (Option.none_or)
        | some key => exact .inr ⟨key, rfl⟩
    | some status =>
        rw [hst] at hready
        obtain rfl : status = .READY := hready
        obtain ⟨b, view, rfl, hjob, hpc, rfl⟩ := issues_ready hop hst
        exact .inr ⟨⟨_, rfl⟩, b, view, rfl, hjob, hpc⟩
  · cases hop with
    | aside _ _ haside => cases haside
    | create c => cases hready

/-- A body is about to mark its job READY only once it has stored the PDF. -/
theorem setPdfReady_stored {b : Body} {pc : BodyPc} {view : ReportView}
    (h : BodyMove w b pc op) (hpc : pc = .setPdfReady view) :
    op = .putObject (pdfKey b.userId b.jobId) (.pdf view) := by
  cases h with
  | threw e open_ => cases hpc
  | lost env e pc op next => cases hpc
  | moved env pc op next =>
      rcases b with ⟨id, userId, pc₀⟩
      cases pc₀ with
      | getObjectStream key =>
          simp only [nextBody] at next
          split_ifs at next <;> cases next <;> cases hpc
      | transcribe key =>
          simp only [nextBody] at next
          split_ifs at next <;> cases next <;> cases hpc
      | putObject view' =>
          cases next
          cases hpc
          rfl
      | done r => cases next
      | _ =>
          cases next
          cases hpc

theorem startBody_ne_ready (id : String) (now : ℕ) (work : Work) (view : ReportView) :
    startBody id now work ≠ .setPdfReady view := by
  cases work <;> simp [startBody]

theorem thread_stored {i now : ℕ} {act : Action} {t t' : Thread} {row' : Job}
    {spawned : List Thread} (h : Inv w) (hkept' : Kept (w.advance now i t' op spawned))
    (at_ : w.threads[i]? = some t) (acts : Acts cfg w i act t now t' op spawned)
    (hrow' : (w.stores.run now op).findById jobId = some row') (hlive' : row'.deletedAt = none)
    (hcond : row'.status = .READY ∨ ∃ b view,
      Thread.body b ∈ (w.advance now i t' op spawned).threads ∧ b.jobId = jobId ∧
        b.pc = .setPdfReady view) :
    (w.stores.run now op).bucket (pdfKey row'.userId jobId) ≠ none := by
  have hmem := List.mem_of_getElem? at_
  obtain ⟨env, hissues⟩ := acts.issues
  -- what was stored before is kept, or replaced by a render body of the job
  have hold : ∀ row, w.stores.findById jobId = some row → row.deletedAt = none →
      row'.userId = row.userId → (row.status = .READY ∨ ∃ b view, Thread.body b ∈ w.threads ∧
        b.jobId = jobId ∧ b.pc = .setPdfReady view) →
          (w.stores.run now op).bucket (pdfKey row'.userId jobId) ≠ none := by
    intro row hrow hlive huser hc
    have hbefore := h.stored jobId row hrow hlive hc
    rw [huser]
    rcases pdf_kept now h.kept hissues hmem hrow hlive with hsame | ⟨b, view, -, -, -, hput⟩
    · rwa [hsame]
    · rw [hput]
      nofun
  rcases hcond with hready | ⟨b, view, hb, hjob, hpc⟩
  · obtain ⟨row, hrow, huser, hlive, ⟨hst, -⟩ | ⟨-, b, view, rfl, hjob, hpc⟩⟩ :=
      ready_cases hissues hrow' hready
    · exact hold row hrow (hlive hlive') huser (.inl hst)
    · exact hold row hrow (hlive hlive') huser (.inr ⟨b, view, hmem, hjob, hpc⟩)
  · obtain ⟨row₁, hrow₁, huser₁⟩ : Owned (w.stores.run now op) b.userId b.jobId :=
      hkept'.owns _ hb
    rw [hjob, hrow'] at hrow₁
    cases hrow₁
    rcases mem_advance hb with hb | heq | hsp
    · obtain ⟨row, hrow, huser⟩ : Owned w.stores b.userId b.jobId := h.kept.owns _ hb
      rw [hjob] at hrow
      have hlive : row.deletedAt = none := by
        rcases Stores.run_row_after now op hrow with hkept | ⟨wr, -, hwritten⟩
        · rw [hkept] at hrow'
          cases hrow'
          exact hlive'
        · rw [hwritten] at hrow'
          cases hrow'
          exact wr.apply_live now row hlive'
      exact hold row hrow hlive (huser₁.trans huser.symm) (.inr ⟨b, view, hb, hjob, hpc⟩)
    · obtain ⟨-, b₀, pc, rfl, rfl, hmove⟩ := acts_to_body (heq ▸ acts)
      rw [setPdfReady_stored hmove hpc, huser₁, ← hjob]
      simp [Stores.run]
    · rcases acts_spawned acts hsp with ⟨a, work, -, -, heq⟩ | ⟨_, _, _, -, -, -, heq⟩
      · cases heq
        exact (startBody_ne_ready _ _ _ view hpc).elim
      · cases heq

theorem inv_step {a : Action} (h : Inv w) (hg : UuidIds w a) (hs : step cfg w a = some w') :
    Inv w' := by
  have hkept := kept_step h.kept hg hs
  have hraces := races_step h.races hs
  cases step_shape hs with
  | thread i now t t' op spawned at_ acts =>
      have hmem := List.mem_of_getElem? at_
      obtain ⟨env, hissues⟩ := acts.issues
      refine ⟨hkept, hraces, fun t₁ ht₁ => thread_backed h at_ acts ht₁, ?_, ?_⟩
      · intro jobId row' hrow' hready
        have hkey : ∀ key, row'.pdfKey = some key → row'.pdfKey = some (pdfKey row'.userId jobId) := by
          intro key hkey
          rw [hkey, (hkept.keys jobId row' hrow').2 key hkey]
        obtain ⟨row, hrow, huser, -, ⟨hst, hpdf⟩ | ⟨⟨key, hpdf⟩, b, view, rfl, rfl, hpc⟩⟩ :=
          ready_cases hissues hrow' hready
        · obtain ⟨htext, hbefore⟩ := h.ready jobId row hrow hst
          refine ⟨htext.run (h.backed t hmem) hissues, ?_⟩
          rcases hpdf with hsame | ⟨key, hpdf⟩
          · exact hkey _ (hsame.trans hbefore)
          · exact hkey key hpdf
        · have htext := (h.backed _ hmem).1 (by rw [hpc]; rfl)
          exact ⟨htext.run (h.backed _ hmem) hissues, hkey key hpdf⟩
      · intro jobId row' hrow' hlive' hcond
        exact thread_stored h hkept at_ acts hrow' hlive' hcond
  | outside op new acts =>
      have hjobs : (w.stores.run 0 op).jobs = w.stores.jobs := outside_jobs acts 0
      have hfind : ∀ id, (w.stores.run 0 op).findById id = w.stores.findById id := by
        intro id
        simp only [Stores.findById, hjobs]
      have hbucket : ∀ u j, (w.stores.run 0 op).bucket (pdfKey u j) =
          w.stores.bucket (pdfKey u j) := by
        intro u j
        cases acts with
        | uploaded userId id bytes =>
            simp [Stores.run, (audioKey_ne_pdfKey userId id u j).symm]
        | _ => rfl
      refine ⟨hkept, hraces, ?_, ?_, ?_⟩
      · intro t ht
        rcases List.mem_append.mp ht with hold | hadded
        · exact (h.backed t hold).congr hjobs
        · obtain ⟨hbody, hattempt⟩ := outside_new acts hadded
          cases t with
          | attempt a =>
              intro hpc
              rw [hattempt a rfl] at hpc
              cases hpc
          | body b => exact (hbody b rfl).elim
          | _ => trivial
      · intro jobId row hrow hready
        obtain ⟨htext, hpdf⟩ := h.ready jobId row ((hfind jobId).symm.trans hrow) hready
        exact ⟨htext.congr hjobs, hpdf⟩
      · intro jobId row hrow hlive hcond
        rw [show (⟨w.stores.run 0 op, w.threads ++ new⟩ : World).stores.bucket _ = _ from hbucket _ _]
        refine h.stored jobId row ((hfind jobId).symm.trans hrow) hlive (hcond.imp_right ?_)
        rintro ⟨b, view, hb, hrest⟩
        rcases List.mem_append.mp hb with hb | hb
        · exact ⟨b, view, hb, hrest⟩
        · exact ((outside_new acts hb).1 b rfl).elim

/-- A live READY job has a transcript with text, the key of its PDF and the object under it,
and no call that deletes another job is going to remove the object. -/
theorem ready_complete (cfg : ServerConfig) {w : World} {jobId : String} {job : Job}
    (hw : Run (step cfg) UuidIds World.empty w) (hjob : w.stores.findById jobId = some job)
    (hlive : job.deletedAt = none) (hready : job.status = .READY) :
    (∃ text, job.transcript = some text ∧ JsText.trim text ≠ "") ∧
      job.pdfKey = some (pdfKey job.userId jobId) ∧
      (∃ object, w.stores.bucket (pdfKey job.userId jobId) = some object) ∧
      ∀ c other, Thread.remove c ∈ w.threads → c.pc = .deleteObjects other → c.jobId ≠ jobId →
        pdfKey job.userId jobId ∉ other.objectKeys := by
  have hinv : Inv w := hw.invariant inv_empty fun _ _ _ hi hg hs => inv_step hi hg hs
  obtain ⟨⟨row, text, hrow, htext, hfull⟩, hkey⟩ := hinv.ready jobId job hjob hready
  rw [hjob] at hrow
  cases hrow
  refine ⟨⟨text, htext, hfull⟩, hkey, ?_, ?_⟩
  · exact Option.ne_none_iff_exists'.mp (hinv.stored jobId job hjob hlive (.inl hready))
  · intro c other hc hpc hne hmem
    have hown := hinv.kept.owns _ hc
    simp only [Owns, hpc] at hown
    obtain ⟨hkeys, row, hrow, -⟩ := hown
    rcases hkeys _ hmem with hk | hk
    · exact audioKey_ne_pdfKey _ _ _ _ hk.symm
    · exact hne (pdfKey_inj (hinv.kept.ids _ _ hjob) (hinv.kept.ids _ _ hrow) hk).symm

end FieldNote.ReadyComplete
