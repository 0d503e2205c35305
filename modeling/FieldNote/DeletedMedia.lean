import FieldNote.ObjectKeys
import FieldNote.StageMoves

/-!
# When a deletion erases the media for good

`remove` deletes the keys of the row it read, and the worker looks at `deletedAt` only when
an attempt begins. An attempt that is past that check goes on, stage by stage, to a put of
the PDF; only a transcription that has not opened the recording yet runs into its absence.
When no such thread is left as the objects are deleted, and the PDF is not missing from the
keys that `remove` read, neither object comes back.
-/
namespace FieldNote.DeletedMedia
open JobsService PipelineService ServerRuns GuardedRuns CallPool ObjectKeys

/-- The body has opened the recording, or needs none, and it has not failed. -/
def goesOn : Option Thread → Bool
  | some (.body b) =>
      match b.pc with
      | .getObjectStream _ | .done (.error _) => false
      | _ => true
  | _ => false

def attemptPuts (w : World) : AttemptPc → Bool
  | .setStatus work | .addStarted work => work.stage ≠ .transcribe
  | .racing work k => work.stage ≠ .render && goesOn w.threads[k]?
  | .addCompleted work _ => work.stage ≠ .render
  | _ => false

def bodyPuts : BodyPc → Bool
  | .render _ | .putObject _ => true
  | _ => false

/-- The thread leads to a put of the job's PDF, also when the recording is gone. -/
def mayPut (w : World) (jobId : String) : Thread → Bool
  | .attempt a => a.jobId = jobId && attemptPuts w a.pc
  | .body b => b.jobId = jobId && bodyPuts b.pc
  | _ => false

def NonePuts (w : World) (jobId : String) : Prop :=
  ∀ t ∈ w.threads, mayPut w jobId t = false

/-- The step is not an upload under the key. -/
def noUpload (key : String) : Action → Bool
  | .upload userId jobId _ => audioKey userId jobId ≠ key
  | _ => true

/-- Generated ids are UUIDs, and no device uploads the recording again. -/
def Guard (userId jobId : String) (w : World) (a : Action) : Prop :=
  UuidIds w a ∧ noUpload (audioKey userId jobId) a = true

instance (userId jobId : String) : DecidableRel (Guard userId jobId) :=
  fun _ _ => inferInstanceAs (Decidable (_ ∧ _))

/-- A transcription is about to open the recording of its job, and `remove` holds the key of
the recording. -/
def Held (s : Stores) : Thread → Prop
  | .attempt a => ∀ job, a.pc = .setStatus (.transcribe job) ∨ a.pc = .addStarted (.transcribe job) →
      job.audioKey = audioKey a.userId a.jobId
  | .body b => ∀ key, b.pc = .getObjectStream key → key = audioKey b.userId b.jobId
  | .remove c => ∀ job, c.pc = .softDelete job ∨ c.pc = .deleteObjects job →
      job.audioKey = some (audioKey c.userId c.jobId) ∧ Owned s c.userId c.jobId
  | _ => True

def AllHeld (w : World) : Prop := ∀ t ∈ w.threads, Held w.stores t

variable {cfg : ServerConfig} {w w' : World} {env : Env} {userId jobId : String} {op : Op}

theorem Held.run {t : Thread} {now : ℕ} {s : Stores} (h : Held s t) : Held (s.run now op) t := by
  cases t with
  | remove c =>
      intro job hpc
      obtain ⟨haudio, howned⟩ := h job hpc
      exact ⟨haudio, howned.run⟩
  | _ => exact h

theorem attempt_held {a : Attempt} {pc : AttemptPc} {now : ℕ} {spawned : List Thread}
    (hkeys : RowKeys w.stores) (h : Held w.stores (.attempt a))
    (hmove : AttemptMove cfg w a now pc op spawned) : Held w.stores (.attempt { a with pc := pc }) := by
  intro job hpc
  dsimp only at hpc ⊢
  cases hmove with
  | began row key work hfind hrow live user unready audio begins =>
      obtain ⟨haudio, -⟩ := hkeys a.jobId row hrow
      have hkey : key = audioKey a.userId a.jobId := by
        rw [haudio, user] at audio
        exact (Option.some.inj (Option.filter_eq_some_iff.mp audio).1).symm
      cases begins with
      | transcribe blank =>
          rcases hpc with hpc | hpc
          · cases hpc
            exact hkey
          · cases hpc
      | _ => rcases hpc with hpc | hpc <;> cases hpc
  | announced work hset =>
      rcases hpc with hpc | hpc
      · cases hpc
      · cases hpc
        exact h job (.inl hset)
  | completed work result hdone =>
      cases work with
      | transcribe job' =>
          simp only [afterStage, compileStage] at hpc
          split_ifs at hpc <;> rcases hpc with hpc | hpc <;> cases hpc
      | _ => rcases hpc with hpc | hpc <;> cases hpc
  | thrown work e op pc =>
      unfold afterThrow at hpc
      split_ifs at hpc <;> rcases hpc with hpc | hpc <;> cases hpc
  | _ => rcases hpc with hpc | hpc <;> cases hpc

/-- No segment leads to the opening of the recording. -/
theorem ne_getObjectStream {b : Body} {pc : BodyPc} (h : BodyMove w b pc op)
    (key : String) : pc ≠ .getObjectStream key := by
  cases h with
  | threw e open_ => simp
  | lost env e pc op next => simp
  | moved env pc op next =>
      rintro rfl
      unfold nextBody at next
      split at next
      · split_ifs at next <;> simp at next
      · split_ifs at next <;> simp at next
      all_goals simp at next

theorem nextRemove_held {c : RemoveCall} {pc : RemovePc} {now : ℕ} (hkeys : RowKeys w.stores)
    (h : Held w.stores (.remove c)) (hn : nextRemove w.stores c = some (pc, op)) :
    Held (w.stores.run now op) (.remove { c with pc := pc }) := by
  intro job hpc
  dsimp only at hpc ⊢
  unfold nextRemove at hn
  split at hn
  · split at hn
    · cases hn
      rcases hpc with hpc | hpc <;> cases hpc
    · rename_i row hrow
      cases hn
      obtain ⟨hfind, huser, -⟩ := Stores.findScoped_eq_some.mp hrow
      rcases hpc with hpc | hpc
      · cases hpc
        obtain ⟨haudio, -⟩ := hkeys c.jobId job hfind
        rw [huser] at haudio
        exact ⟨haudio, Owned.run ⟨job, hfind, huser⟩⟩
      · cases hpc
  · rename_i job' hsoft
    split at hn
    · cases hn
      rcases hpc with hpc | hpc <;> cases hpc
    · cases hn
      rcases hpc with hpc | hpc
      · cases hpc
      · cases hpc
        obtain ⟨haudio, howned⟩ := h job (.inl hsoft)
        exact ⟨haudio, howned.run⟩
  · cases hn
    rcases hpc with hpc | hpc <;> cases hpc
  · cases hn
  · cases hn

/-- A `remove` call that has just moved did its segment, or it ended. -/
theorem acts_to_remove {i now : ℕ} {act : Action} {c' : RemoveCall} {t : Thread}
    {spawned : List Thread} (h : Acts cfg w i act t now (.remove c') op spawned) :
    (∃ c pc, t = .remove c ∧ c' = { c with pc := pc } ∧ nextRemove w.stores c = some (pc, op)) ∨
      c'.pc = .returned ∨ ∃ error, c'.pc = .threw error := by
  have hthrown : ∀ e, throwing e t = some (.remove c') →
      c'.pc = .returned ∨ ∃ error, c'.pc = .threw error := by
    intro e hthrows
    generalize hc : Thread.remove c' = t' at hthrows
    cases throwing_cases hthrows with
    | remove c pc ended =>
        cases hc
        exact ended
    | _ => cases hc
  generalize hc : Thread.remove c' = t' at h
  cases h with
  | stepped env t t' op spawned next =>
      subst hc
      cases next_segment next with
      | remove c pc op hn => exact .inl ⟨c, pc, rfl, rfl, hn⟩
  | threw env e t t' throws => exact .inr (hthrown e (hc ▸ throws))
  | lost env e t t' t₁ op spawned throws next => exact .inr (hthrown e (hc ▸ throws))
  | timedOut t t' out =>
      obtain ⟨a, work, body, -, -, rfl⟩ := timingOut_eq out
      cases hc
  | acked a e entry pc queued => cases hc

theorem held_step {act : Action} (hkeys : RowKeys w.stores) (h : AllHeld w)
    (hs : step cfg w act = some w') : AllHeld w' := by
  intro t₁ ht₁
  cases step_shape hs with
  | thread i now t t' op spawned at_ acts =>
      have ht := h t (List.mem_of_getElem? at_)
      rcases mem_advance ht₁ with hold | rfl | hnew
      · exact (h t₁ hold).run
      · cases t₁ with
        | attempt a' =>
            obtain ⟨a, pc, rfl, rfl, hmove⟩ := acts_to_attempt acts
            exact (attempt_held hkeys ht hmove).run
        | body b' =>
            obtain ⟨-, b, pc, rfl, rfl, hmove⟩ := acts_to_body acts
            intro key hpc
            exact (ne_getObjectStream hmove key hpc).elim
        | remove c' =>
            rcases acts_to_remove acts with ⟨c, pc, rfl, rfl, hn⟩ | hpc | ⟨error, hpc⟩
            · exact nextRemove_held hkeys ht hn
            · intro job hjob
              rw [hpc] at hjob
              rcases hjob with hjob | hjob <;> cases hjob
            · intro job hjob
              rw [hpc] at hjob
              rcases hjob with hjob | hjob <;> cases hjob
        | _ => trivial
      · rcases acts_spawned acts hnew with ⟨a, work, rfl, hpc, rfl⟩ | ⟨a, err, entry, -, -, -, rfl⟩
        · intro key hstart
          cases work with
          | transcribe job =>
              cases hstart
              exact ht job (.inr hpc)
          | _ => cases hstart
        · trivial
  | outside op new acts =>
      rcases List.mem_append.mp ht₁ with hold | hnew
      · exact (h t₁ hold).run
      · cases acts with
        | called request =>
            rw [List.mem_singleton.mp hnew]
            cases request <;> simp [Held, Request.thread]
        | picked jobId entry queued waiting =>
            rw [List.mem_singleton.mp hnew]
            simp [Held]
        | _ => cases hnew

theorem held_empty : AllHeld World.empty := by
  intro t ht
  cases ht

/-- A body that stopped stays stopped while the recording it would open is absent. -/
theorem goesOn_move {b : Body} {pc : BodyPc} (hmove : BodyMove w b pc op)
    (habsent : ∀ key, b.pc = .getObjectStream key → w.stores.bucket key = none)
    (h : goesOn (some (.body b)) = false) : goesOn (some (.body { b with pc := pc })) = false := by
  rcases b with ⟨id, user, pc₀⟩
  cases hmove with
  | threw e open_ => rfl
  | lost env e pc op next => rfl
  | moved env pc op next =>
      cases pc₀ with
      | getObjectStream key =>
          simp only [nextBody, habsent key rfl] at next
          cases next
          rfl
      | done result => cases next
      | _ => cases h

/-- What is known of the stores and the threads once the objects are deleted. -/
structure Erased (userId jobId : String) (w : World) : Prop where
  audio : w.stores.bucket (audioKey userId jobId) = none
  pdf : w.stores.bucket (pdfKey userId jobId) = none
  owned : Owned w.stores userId jobId
  gone : Gone w.stores jobId
  puts : NonePuts w jobId

/-- The recording that a body of the job would open is the one that was deleted. -/
theorem Erased.absent (h : Erased userId jobId w) (hkept : Kept w) (hheld : AllHeld w) {b : Body}
    (hb : Thread.body b ∈ w.threads) (hjob : b.jobId = jobId) (key : String)
    (hpc : b.pc = .getObjectStream key) : w.stores.bucket key = none := by
  obtain ⟨row, hrow, huser⟩ := h.owned
  obtain ⟨row', hrow', huser'⟩ : Owned w.stores b.userId b.jobId := hkept.owns _ hb
  rw [hjob, hrow] at hrow'
  cases hrow'
  have hkey : key = audioKey b.userId b.jobId := hheld _ hb key hpc
  rw [hkey, hjob, ← huser', huser]
  exact h.audio

/-- A body that an attempt of the job races does not go on after a step if it had stopped. -/
theorem goesOn_advance (h : Erased userId jobId w) (hkept : Kept w) (hheld : AllHeld w)
    {i k now : ℕ} {act : Action} {t t' : Thread} {spawned : List Thread} {b : Body}
    (hb : w.threads[k]? = some (.body b)) (hjob : b.jobId = jobId) (ht : w.threads[i]? = some t)
    (hacts : Acts cfg w i act t now t' op spawned)
    (hgoes : goesOn (w.advance now i t' op spawned).threads[k]? = true) :
    goesOn w.threads[k]? = true := by
  by_cases hki : k = i
  · subst hki
    rw [ht] at hb
    cases hb
    obtain ⟨-, pc, rfl, hmove⟩ := acts_body hacts
    have hsame : (w.advance now k (.body { b with pc := pc }) op spawned).threads[k]? =
        some (.body { b with pc := pc }) := getElem?_advance_same ht
    rw [hsame] at hgoes
    rw [ht]
    by_contra hstopped
    have habsent := h.absent hkept hheld (List.mem_of_getElem? ht) hjob
    rw [goesOn_move hmove habsent (Bool.not_eq_true _ ▸ hstopped)] at hgoes
    cases hgoes
  · have hsame : (w.advance now i t' op spawned).threads[k]? = some (.body b) :=
      getElem?_advance_other hki hb
    rw [hsame] at hgoes
    rw [hb]
    exact hgoes

/-- A thread that may not put the PDF keeps off it while another one moves. -/
theorem mayPut_other (hraces : Races w) {t : Thread} (ht : t ∈ w.threads)
    (hgoes : ∀ (k : ℕ) b, w.threads[k]? = some (.body b) → b.jobId = jobId →
      goesOn w'.threads[k]? = true → goesOn w.threads[k]? = true)
    (h : mayPut w' jobId t = true) : mayPut w jobId t = true := by
  cases t with
  | attempt a =>
      simp only [mayPut, Bool.and_eq_true, decide_eq_true_eq] at h ⊢
      obtain ⟨hjob, hputs⟩ := h
      refine ⟨hjob, ?_⟩
      cases hpc : a.pc with
      | racing work k =>
          obtain ⟨b, hb, hbjob, -⟩ := hraces a work k ht hpc
          simp only [attemptPuts, hpc, Bool.and_eq_true] at hputs ⊢
          exact ⟨hputs.1, hgoes k b hb (hbjob.trans hjob) hputs.2⟩
      | _ =>
          rw [hpc] at hputs
          exact hputs
  | _ => exact h

theorem attempt_puts {i now : ℕ} {a : Attempt} {pc : AttemptPc} {spawned : List Thread}
    (hgone : Gone w.stores a.jobId) (hmove : AttemptMove cfg w a now pc op spawned)
    (h : attemptPuts (w.advance now i (.attempt { a with pc := pc }) op spawned) pc = true) :
    attemptPuts w a.pc = true := by
  cases hmove with
  | began job key work hpc hrow live user unready audio begins =>
      -- the attempt has read a live row
      obtain ⟨row, hrow', hdeleted⟩ := hgone
      rw [hrow] at hrow'
      cases hrow'
      exact (hdeleted live).elim
  | announced work hpc =>
      rw [hpc]
      exact h
  | started work hpc =>
      rw [hpc]
      cases work with
      | transcribe job =>
          simp [attemptPuts, World.advance, startBody, goesOn] at h
      | _ => rfl
  | won work k result hpc done =>
      obtain ⟨b, hb, hdone⟩ := bodyResult_eq_some.mp done
      rw [hpc]
      simp only [attemptPuts, Bool.and_eq_true]
      exact ⟨h, by simp [goesOn, hb, hdone]⟩
  | completed work result hpc =>
      rw [hpc]
      cases work with
      | render label sections => cases h
      | _ => rfl
  | thrown work e op hpc =>
      unfold afterThrow at h
      split_ifs at h <;> cases h
  | _ => cases h

theorem body_puts {b : Body} {pc : BodyPc} (hmove : BodyMove w b pc op)
    (h : bodyPuts pc = true) : bodyPuts b.pc = true := by
  rcases b with ⟨id, user, pc₀⟩
  cases hmove with
  | threw e open_ => cases h
  | lost env e pc op next => cases h
  | moved env pc op next =>
      cases pc₀ with
      | getObjectStream key =>
          simp only [nextBody] at next
          split_ifs at next <;> cases next <;> cases h
      | transcribe key =>
          simp only [nextBody] at next
          split_ifs at next <;> cases next <;> cases h
      | render view => rfl
      | putObject view => rfl
      | done result => cases next
      | _ =>
          cases next
          cases h

theorem nonePuts_step {act : Action} (h : Erased userId jobId w) (hkept : Kept w) (hraces : Races w)
    (hheld : AllHeld w) (hs : step cfg w act = some w') : NonePuts w' jobId := by
  intro t₁ ht₁
  by_contra hputs
  replace hputs : mayPut w' jobId t₁ = true := Bool.not_eq_false _ ▸ hputs
  cases step_shape hs with
  | thread i now t t' op spawned hat acts =>
      have hmem := List.mem_of_getElem? hat
      have hold : ∀ t₂ ∈ w.threads,
          mayPut (w.advance now i t' op spawned) jobId t₂ = true → False := by
        intro t₂ ht₂ hm
        have hbefore := mayPut_other hraces ht₂
          (fun k b hb hjob => goesOn_advance h hkept hheld hb hjob hat acts) hm
        rw [h.puts t₂ ht₂] at hbefore
        cases hbefore
      rcases mem_advance ht₁ with hthere | rfl | hnew
      · exact hold t₁ hthere hputs
      · cases t₁ with
        | attempt a' =>
            obtain ⟨a, pc, rfl, rfl, hmove⟩ := acts_to_attempt acts
            simp only [mayPut, Bool.and_eq_true, decide_eq_true_eq] at hputs
            obtain ⟨rfl, hpc⟩ := hputs
            have hbefore := h.puts _ hmem
            simp [mayPut, attempt_puts h.gone hmove hpc] at hbefore
        | body b' =>
            obtain ⟨-, b, pc, rfl, rfl, hmove⟩ := acts_to_body acts
            simp only [mayPut, Bool.and_eq_true, decide_eq_true_eq] at hputs
            have hbefore := h.puts _ hmem
            simp [mayPut, hputs.1, body_puts hmove hputs.2] at hbefore
        | _ => cases hputs
      · rcases acts_spawned acts hnew with ⟨a, work, rfl, hpc, rfl⟩ | ⟨a, err, entry, -, -, -, rfl⟩
        · simp only [mayPut, Bool.and_eq_true, decide_eq_true_eq] at hputs
          have hbefore := h.puts _ hmem
          cases work with
          | render label sections => simp [mayPut, hputs.1, hpc, attemptPuts, Work.stage] at hbefore
          | _ => cases hputs.2
        · cases hputs
  | outside op new acts =>
      rcases List.mem_append.mp ht₁ with hthere | hnew
      · have hsame : ∀ (k : ℕ) b, w.threads[k]? = some (.body b) → b.jobId = jobId →
            goesOn (w.threads ++ new)[k]? = true → goesOn w.threads[k]? = true := by
          intro k b hb _ hgoes
          rwa [List.getElem?_append_left (lt_of_getElem? hb)] at hgoes
        have hbefore := mayPut_other hraces hthere hsame hputs
        rw [h.puts t₁ hthere] at hbefore
        cases hbefore
      · obtain ⟨hbody, hattempt⟩ := outside_new acts hnew
        cases t₁ with
        | attempt a =>
            simp [mayPut, hattempt a rfl, attemptPuts] at hputs
        | body b => exact hbody b rfl
        | _ => cases hputs

theorem absent_run {s : Stores} {key : String} (now : ℕ) (habsent : s.bucket key = none)
    (hop : ∀ object, op ≠ .putObject key object) : (s.run now op).bucket key = none := by
  cases hthere : (s.run now op).bucket key with
  | none => rfl
  | some object =>
      rcases Stores.run_bucket_some hthere with hold | hput
      · rw [habsent] at hold
        cases hold
      · exact (hop object hput).elim

theorem erased_step {act : Action} (h : Erased userId jobId w) (hkept : Kept w) (hraces : Races w)
    (hheld : AllHeld w) (hg : Guard userId jobId w act) (hs : step cfg w act = some w') :
    Erased userId jobId w' := by
  have hputs := nonePuts_step h hkept hraces hheld hs
  cases step_shape hs with
  | thread i now t t' op spawned hat acts =>
      have hmem := List.mem_of_getElem? hat
      obtain ⟨env, hissues⟩ := acts.issues
      -- a put is a render body's, and none of the job's bodies is ahead of one
      have hput : ∀ key object, op = .putObject key object →
          ∃ b : Body, key = pdfKey b.userId b.jobId ∧ '/' ∉ b.jobId.toList ∧ b.jobId ≠ jobId := by
        rintro key object rfl
        cases hissues with
        | putObject b view hpc =>
            obtain ⟨row, hrow, -⟩ : Owned w.stores b.userId b.jobId := hkept.owns _ hmem
            refine ⟨b, rfl, hkept.ids b.jobId row hrow, ?_⟩
            intro hjob
            have hnone := h.puts _ hmem
            simp [mayPut, hjob, hpc, bodyPuts] at hnone
        | aside _ _ haside => cases haside
      constructor
      · apply absent_run now h.audio
        intro object hop
        obtain ⟨b, hkey, -⟩ := hput _ object hop
        exact audioKey_ne_pdfKey _ _ _ _ hkey
      · apply absent_run now h.pdf
        intro object hop
        obtain ⟨b, hkey, hslash, hne⟩ := hput _ object hop
        obtain ⟨row, hrow, -⟩ := h.gone
        exact hne (pdfKey_inj (hkept.ids jobId row hrow) hslash hkey).symm
      · exact h.owned.run
      · exact h.gone.run
      · exact hputs
  | outside op new acts =>
      constructor
      · apply absent_run 0 h.audio
        rintro object rfl
        generalize hkey : audioKey userId jobId = key at acts hg
        cases acts with
        | uploaded user id bytes =>
            have hother := hg.2
            simp [noUpload, hkey] at hother
      · apply absent_run 0 h.pdf
        rintro object rfl
        generalize hkey : pdfKey userId jobId = key at acts
        cases acts with
        | uploaded user id bytes => exact audioKey_ne_pdfKey _ _ _ _ hkey.symm
      · exact h.owned.run
      · exact h.gone.run
      · exact hputs

/-- The deletion of the objects when no thread may put the PDF and its key is not missing. -/
theorem erased_deletion {i : ℕ} {c : RemoveCall} {job : Job} (hkept : Kept w) (hraces : Races w)
    (hheld : AllHeld w) (hat : w.threads[i]? = some (.remove c)) (hpc : c.pc = .deleteObjects job)
    (hputs : NonePuts w c.jobId)
    (hpdf : w.stores.bucket (pdfKey c.userId c.jobId) = none ∨
      pdfKey c.userId c.jobId ∈ job.objectKeys)
    (hs : step cfg w (.step i env) = some w') : Erased c.userId c.jobId w' := by
  obtain ⟨t, ht, hs⟩ := Option.bind_eq_some_iff.mp hs
  rw [hat] at ht
  cases ht
  obtain ⟨⟨t', op, spawned⟩, hn, rfl⟩ := Option.map_eq_some_iff.mp hs
  obtain ⟨⟨pc, op'⟩, hn, he⟩ := Option.map_eq_some_iff.mp hn
  simp only [nextRemove, hpc] at hn
  cases hn
  cases he
  have hmem := List.mem_of_getElem? hat
  obtain ⟨haudio, howned⟩ : _ ∧ _ := hheld _ hmem job (.inr hpc)
  have hown := hkept.owns _ hmem
  simp only [Owns, hpc] at hown
  constructor
  · have hkey : audioKey c.userId c.jobId ∈ job.objectKeys := by
      simp [Job.objectKeys, haudio, audioKey]
    simp [World.advance, Stores.run, hkey]
  · rcases hpdf with habsent | hkey
    · simp [World.advance, Stores.run, habsent]
    · simp [World.advance, Stores.run, hkey]
  · exact howned.run
  · exact hown.2.run
  · intro t ht
    by_contra hm
    replace hm : mayPut _ c.jobId t = true := Bool.not_eq_false _ ▸ hm
    have hsame : ∀ (k : ℕ) b, w.threads[k]? = some (.body b) → b.jobId = c.jobId →
        goesOn (w.threads.set i (.remove { c with pc := .returned }) ++ [])[k]? = true →
          goesOn w.threads[k]? = true := by
      intro k b hb _ hgoes
      have hki : k ≠ i := by
        rintro rfl
        rw [hat] at hb
        cases hb
      have hstays : (w.threads.set i (.remove { c with pc := .returned }) ++ [])[k]? =
          some (.body b) := getElem?_advance_other hki hb
      rw [hstays] at hgoes
      rw [hb]
      exact hgoes
    rcases mem_advance ht with hold | rfl | hnew
    · have hbefore := mayPut_other hraces hold hsame hm
      rw [hputs t hold] at hbefore
      cases hbefore
    · cases hm
    · cases hnew

theorem kept_run {w₀ : World} (h : Kept w₀) (hraces : Races w₀) (hheld : AllHeld w₀)
    (hrun : Run (step cfg) UuidIds w₀ w) : Kept w ∧ Races w ∧ AllHeld w := by
  apply hrun.invariant (I := fun w => Kept w ∧ Races w ∧ AllHeld w) ⟨h, hraces, hheld⟩
  intro s a t hinv hg hs
  obtain ⟨hkept, hraces, hheld⟩ := hinv
  exact ⟨kept_step hkept hg hs, races_step hraces hs, held_step hkept.keys hheld hs⟩

/-- In every run in which `remove` deletes the objects when no thread of the job may put the
PDF any more, and the PDF's key is in the row it read unless there is no such object, neither
the recording nor the PDF is in the bucket in any later state, whatever was queued. -/
theorem deletion_erases_media (cfg : ServerConfig) {w w₁ w₂ : World} {i : ℕ} {env : Env}
    {c : RemoveCall} {job : Job} (hw : Run (step cfg) UuidIds World.empty w)
    (hat : w.threads[i]? = some (.remove c)) (hpc : c.pc = .deleteObjects job)
    (hputs : NonePuts w c.jobId)
    (hpdf : w.stores.bucket (pdfKey c.userId c.jobId) = none ∨
      pdfKey c.userId c.jobId ∈ job.objectKeys)
    (hs : step cfg w (.step i env) = some w₁)
    (hrun : Run (step cfg) (Guard c.userId c.jobId) w₁ w₂) :
    w₂.stores.bucket (audioKey c.userId c.jobId) = none ∧
      w₂.stores.bucket (pdfKey c.userId c.jobId) = none := by
  obtain ⟨hkept, hraces, hheld⟩ := kept_run kept_empty races_empty held_empty hw
  have herased := erased_deletion hkept hraces hheld hat hpc hputs hpdf hs
  have huuid : UuidIds w (.step i env) := by simp [UuidIds, uuidIds, hat, insertsUuid]
  have hinv : (Kept w₂ ∧ Races w₂ ∧ AllHeld w₂) ∧ Erased c.userId c.jobId w₂ := by
    apply hrun.invariant
      (I := fun w => (Kept w ∧ Races w ∧ AllHeld w) ∧ Erased c.userId c.jobId w)
    · exact ⟨⟨kept_step hkept huuid hs, races_step hraces hs, held_step hkept.keys hheld hs⟩,
        herased⟩
    · rintro s a t ⟨⟨hkept, hraces, hheld⟩, herased⟩ hg hs
      exact ⟨⟨kept_step hkept hg.1 hs, races_step hraces hs, held_step hkept.keys hheld hs⟩,
        erased_step herased hkept hraces hheld hg hs⟩
  exact ⟨hinv.2.audio, hinv.2.pdf⟩

/-- The `remove` call that thread `i` is, if it is about to delete the objects. -/
def deleting (w : World) (i : ℕ) : Option (RemoveCall × Job) :=
  match w.threads[i]? with
  | some (.remove c) =>
      match c.pc with
      | .deleteObjects job => some (c, job)
      | _ => none
  | _ => none

theorem deleting_eq_some {i : ℕ} {c : RemoveCall} {job : Job} (h : deleting w i = some (c, job)) :
    w.threads[i]? = some (.remove c) ∧ c.pc = .deleteObjects job := by
  unfold deleting at h
  split at h
  · rename_i c' hat
    split at h
    · rename_i job' hpc
      cases h
      exact ⟨hat, hpc⟩
    · cases h
  · cases h

/-- The objects that are about to be deleted are not put again. -/
def lasting (w : World) (c : RemoveCall) (job : Job) : Bool :=
  w.threads.all (fun t => !mayPut w c.jobId t) &&
    ((w.stores.bucket (pdfKey c.userId c.jobId)).isNone ||
      job.objectKeys.contains (pdfKey c.userId c.jobId))

/-- A `remove` call as thread `i`, up to but without the deletion of the objects. -/
def softDeleteSchedule (i : ℕ) : List Action :=
  .call (.remove "user-1" "job-1") :: steps i 2 {}

/-- A finished job is deleted; the entry is purged afterwards. -/
theorem deletion_erases_media_demo : ∃ w w₁ w₂ c, Run (step demo) UuidIds World.empty w ∧
    w.threads[6]? = some (.remove c) ∧ step demo w (.step 6 {}) = some w₁ ∧
      Run (step demo) (Guard c.userId c.jobId) w₁ w₂ ∧
        w₂.stores.bucket (pdfKey c.userId c.jobId) = none := by
  have hend : (execWhere (step demo) UuidIds (readySchedule ++ softDeleteSchedule 6)
      World.empty).any (fun w => (deleting w 6).any fun p => lasting w p.1 p.2) = true := by
    decide
  obtain ⟨w, hw, hlasting⟩ := execWhere_any hend
  obtain ⟨⟨c, job⟩, hc, hlasting⟩ := (Option.any_eq_true _ _).mp hlasting
  obtain ⟨hat, hpc⟩ := deleting_eq_some hc
  have hcondition : NonePuts w c.jobId ∧ (w.stores.bucket (pdfKey c.userId c.jobId) = none ∨
      pdfKey c.userId c.jobId ∈ job.objectKeys) := by
    simpa [lasting, NonePuts] using hlasting
  obtain ⟨hputs, hpdf⟩ := hcondition
  have hnext : ∃ w₁, step demo w (.step 6 {}) = some w₁ := by
    simp [step, hat, next, nextRemove, hpc]
  obtain ⟨w₁, hs⟩ := hnext
  exact ⟨w, w₁, w₁, c, hw, hat, hs, Run.refl w₁,
    (deletion_erases_media demo hw hat hpc hputs hpdf hs (Run.refl w₁)).2⟩

/-- No attempt, stage body or failure handler of the job is under way, and no entry of it
will be picked. -/
def pipelineEnded (w : World) (jobId : String) : Bool :=
  w.threads.all (fun t =>
    match t with
    | .attempt a => a.jobId ≠ jobId || a.pc = .acked
    | .body b => b.jobId ≠ jobId || match b.pc with
        | .done _ => true
        | _ => false
    | .handler h => h.jobId ≠ jobId || h.pc = .done
    | _ => true) &&
  (w.stores.queue jobId).all fun entry => entry.state = .completed || entry.state = .failed

/-- The job is deleted when its render body has just been started. -/
def renderingSchedule : List Action :=
  submitSchedule ++ checkSchedule 1 ++ enqueueSchedule 1 ++ compileSchedule 2 ++ steps 2 2 {} ++
    softDeleteSchedule 6

/-- The body renders, puts the PDF and marks the job; the attempt ends and is reported. -/
def latePutSchedule : List Action := steps 5 3 {} ++ steps 2 2 {} ++ [.ack 2]

/-- The render body puts the PDF after `remove` has returned. -/
theorem render_outlives_deletion :
    ¬ ∀ (cfg : ServerConfig) (w w₁ w₂ : World) (i : ℕ) (env : Env) (c : RemoveCall) (job : Job),
      Run (step cfg) UuidIds World.empty w → w.threads[i]? = some (.remove c) →
        c.pc = .deleteObjects job → step cfg w (.step i env) = some w₁ →
          Run (step cfg) (Guard c.userId c.jobId) w₁ w₂ → pipelineEnded w₂ c.jobId = true →
            w₂.stores.bucket (audioKey c.userId c.jobId) = none ∧
              w₂.stores.bucket (pdfKey c.userId c.jobId) = none := by
  intro h
  have hend : (execWhere (step demo) UuidIds renderingSchedule World.empty).any (fun w =>
      (deleting w 6).any fun p => (step demo w (.step 6 {})).any fun w₁ =>
        (execWhere (step demo) (Guard p.1.userId p.1.jobId) latePutSchedule w₁).any fun w₂ =>
          pipelineEnded w₂ p.1.jobId &&
            (w₂.stores.bucket (pdfKey p.1.userId p.1.jobId)).isSome) = true := by decide
  obtain ⟨w, hw, hrest⟩ := execWhere_any hend
  obtain ⟨⟨c, job⟩, hc, hrest⟩ := (Option.any_eq_true _ _).mp hrest
  obtain ⟨w₁, hs, hrest⟩ := (Option.any_eq_true _ _).mp hrest
  obtain ⟨w₂, hrun, hrest⟩ := execWhere_any hrest
  obtain ⟨hat, hpc⟩ := deleting_eq_some hc
  obtain ⟨hended, hthere⟩ := Bool.and_eq_true_iff.mp hrest
  have habsent := (h demo w w₁ w₂ 6 {} c job hw hat hpc hs hrun hended).2
  rw [habsent] at hthere
  cases hthere

end FieldNote.DeletedMedia
