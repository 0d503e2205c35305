import FieldNote.ServerRuns

/-!
# Jobs and the keys of their create calls

A create call with an idempotency key answers with a row that carries this key, whether it
found the row or inserted it, and rows keep their key. Two calls with different keys
therefore never answer with the same job.
-/
namespace FieldNote.ServerRuns
open JobsService PipelineService CallPool

/-- The row of the job carries the key. -/
def Keyed (s : Stores) (jobId key : String) : Prop :=
  ∃ job, s.findById jobId = some job ∧ job.idempotencyKey = some key

theorem Keyed.unique {s : Stores} {jobId key key' : String} (h : Keyed s jobId key)
    (h' : Keyed s jobId key') : key = key' := by
  obtain ⟨job, hjob, hkey⟩ := h
  obtain ⟨job', hjob', hkey'⟩ := h'
  rw [hjob] at hjob'
  cases hjob'
  rw [hkey] at hkey'
  exact Option.some.inj hkey'

theorem Keyed.run {s : Stores} {jobId key : String} (now : ℕ) (op : Op)
    (h : Keyed s jobId key) : Keyed (s.run now op) jobId key := by
  obtain ⟨job, hjob, hkey⟩ := h
  rcases Stores.run_row_after now op hjob with hkept | ⟨w, -, hwritten⟩
  · exact ⟨job, hkept, hkey⟩
  · exact ⟨_, hwritten, (w.apply_idempotencyKey now job).trans hkey⟩

/-- A create call looks up its own key, and the job it answers with carries it. -/
structure KeyInv (s : Stores) (c : CreateCall) : Prop where
  looking : ∀ key, c.pc = .findByIdempotencyKey key → c.idempotencyKey = some key
  returned : ∀ response key, c.pc = .returned response → c.idempotencyKey = some key →
    Keyed s response.job.id key

def CreateKeys (w : World) : Prop := ∀ c, .create c ∈ w.threads → KeyInv w.stores c

variable {cfg : ServerConfig} {w w' : World} {s : Stores}

theorem KeyInv.run {c : CreateCall} (now : ℕ) (op : Op) (h : KeyInv s c) :
    KeyInv (s.run now op) c :=
  ⟨h.looking, fun response key hpc hkey => (h.returned response key hpc hkey).run now op⟩

/-- A call that does not look a key up and has not returned claims nothing. -/
theorem keyInv_idle {c : CreateCall} (hlook : ∀ key, c.pc ≠ .findByIdempotencyKey key)
    (hret : ∀ response, c.pc ≠ .returned response) : KeyInv s c :=
  ⟨fun key hpc => (hlook key hpc).elim, fun response _ hpc => (hret response hpc).elim⟩

theorem create_keyInv (userId label : String) (key : Option String) :
    KeyInv s (JobsService.create userId label key) := by
  constructor
  · intro key' hpc
    unfold JobsService.create at hpc ⊢
    cases key with
    | none => cases hpc
    | some k =>
        dsimp only at hpc
        split_ifs at hpc
        cases hpc
        rfl
  · intro response key' hpc
    unfold JobsService.create at hpc
    cases key with
    | none => cases hpc
    | some k =>
        dsimp only at hpc
        split_ifs at hpc

/-- The row found under a key carries it. -/
theorem findByIdempotencyKey_keyed {userId key : String} {job : Job}
    (h : s.findByIdempotencyKey userId key = some job) : Keyed s job.id key := by
  have hmem : job ∈ s.jobs.rows := List.mem_of_find?_eq_some h
  have hsel := List.find?_some h
  simp only [Bool.and_eq_true, decide_eq_true_eq] at hsel
  exact ⟨job, Table.findUnique_of_mem hmem, hsel.2⟩

/-- An insertion that violates no constraint creates the row. -/
theorem run_insertJob {now : ℕ} {job : Job} (htaken : s.keyTaken job = false)
    (hfree : s.findById job.id = none) :
    (s.run now (.insertJob job)).findById job.id = some job := by
  obtain ⟨t, ht⟩ := Table.create_isSome (r := job) hfree
  simp [Stores.run, htaken, ht, Stores.findById, Table.create_findUnique ht]

theorem nextCreate_keyInv {c : CreateCall} {env : Env} {pc : CreatePc} {op : Op}
    (h : nextCreate cfg s env c = some (pc, op)) (hc : KeyInv s c) :
    KeyInv (s.run env.now op) { c with pc := pc } := by
  unfold nextCreate at h
  split at h
  · rename_i key hpc
    have hkey := hc.looking key hpc
    split at h
    · rename_i job hjob
      cases h
      constructor
      · nofun
      · intro response key' hret hkey'
        cases hret
        rw [hkey] at hkey'
        cases hkey'
        exact findByIdempotencyKey_keyed hjob
    · cases h
      exact keyInv_idle (by simp) (by simp)
  · split_ifs at h with hfree
    · cases h
      exact keyInv_idle (by simp) (by simp)
    · cases h
      constructor
      · nofun
      · intro response key hret hkey
        cases hret
        simp only [Bool.or_eq_true, not_or, Bool.not_eq_true, Option.isSome_eq_false_iff,
          Option.isNone_iff_eq_none] at hfree
        exact ⟨draft env c, run_insertJob hfree.1 hfree.2, hkey⟩
  · cases h
  · cases h

theorem spawn_not_create {a : Attempt} {now : ℕ} {c : CreateCall} :
    .create c ∉ Attempt.spawn a now := by
  unfold Attempt.spawn
  split <;> simp

theorem settle_not_create {jobId : String} {entry : Entry} {e : Option Err} {c : CreateCall} :
    .create c ∉ (settle cfg jobId entry e).2 := by
  unfold settle
  split
  · simp
  · dsimp only
    split_ifs <;> simp

theorem createKeys_advance {now i : ℕ} {t' : Thread} {op : Op} {spawned : List Thread}
    (h : CreateKeys w) (hthread : ∀ c, t' = .create c → KeyInv (w.stores.run now op) c)
    (hspawned : ∀ c, .create c ∉ spawned) : CreateKeys (w.advance now i t' op spawned) := by
  intro c hc
  rcases List.mem_append.mp hc with hc | hc
  · rcases List.mem_or_eq_of_mem_set hc with hc | hc
    · exact (h c hc).run now op
    · exact hthread c hc.symm
  · exact (hspawned c hc).elim

theorem createKeys_append {stores : Stores} {new : List Thread} (now : ℕ) (op : Op)
    (h : CreateKeys w) (hstores : stores = w.stores.run now op)
    (hnew : ∀ c, .create c ∈ new → KeyInv stores c) :
    CreateKeys ⟨stores, w.threads ++ new⟩ := by
  subst hstores
  intro c hc
  rcases List.mem_append.mp hc with hc | hc
  · exact (h c hc).run now op
  · exact hnew c hc

theorem throwing_keyInv {t : Thread} {c : CreateCall} {e : Err}
    (h : throwing e t = some (.create c)) : KeyInv s c := by
  cases t with
  | create c₀ =>
      obtain ⟨pc, hpc, he⟩ := Option.map_eq_some_iff.mp h
      cases he
      unfold CreateCall.throwing at hpc
      split at hpc <;> cases hpc
      exact keyInv_idle (by simp) (by simp)
  | _ =>
      obtain ⟨pc, hpc, he⟩ := Option.map_eq_some_iff.mp h
      cases he

theorem next_keyInv {t : Thread} {c : CreateCall} {env : Env} {op : Op} {spawned : List Thread}
    (h : CreateKeys w) (ht : t ∈ w.threads)
    (hn : next cfg w env t = some (.create c, op, spawned)) :
    KeyInv (w.stores.run env.now op) c := by
  cases next_segment hn with
  | create c₀ pc op hnext => exact nextCreate_keyInv hnext (h c₀ ht)

theorem next_spawned {t t' : Thread} {env : Env} {op : Op} {spawned : List Thread}
    (hn : next cfg w env t = some (t', op, spawned)) (c : CreateCall) : .create c ∉ spawned := by
  cases next_segment hn with
  | attempt a pc op => exact spawn_not_create
  | _ => simp

theorem createKeys_step {a : Action} (h : CreateKeys w) (hs : step cfg w a = some w') :
    CreateKeys w' := by
  cases step_effect hs with
  | called request =>
      refine createKeys_append 0 .none h rfl ?_
      intro c hc
      cases request with
      | create userId label key =>
          obtain rfl : c = JobsService.create userId label key := by simpa [Request.thread] using hc
          exact create_keyInv userId label key
      | _ => simp [Request.thread] at hc
  | stepped i env t t' op spawned thread next =>
      refine createKeys_advance h ?_ (next_spawned next)
      rintro c rfl
      exact next_keyInv h (List.mem_of_getElem? thread) next
  | threw i env e t t' thread throws =>
      refine createKeys_advance h ?_ (by simp)
      rintro c rfl
      exact throwing_keyInv throws
  | lost i env e t t' t₁ op spawned thread throws next =>
      refine createKeys_advance h ?_ (by simp)
      rintro c rfl
      exact throwing_keyInv throws
  | timedOut i t t' thread out =>
      refine createKeys_advance h ?_ (by simp)
      rintro c rfl
      unfold timingOut at out
      split at out
      · split at out <;> cases out
      · cases out
  | acked i a e entry thread pc queued =>
      refine createKeys_advance h ?_ fun c => settle_not_create
      rintro c hc
      cases hc
  | picked jobId entry queued waiting =>
      exact createKeys_append 0 _ h rfl (by simp)
  | promoted jobId entry queued delayed =>
      exact createKeys_append 0 _ h rfl (by simp)
  | purged jobId entry queued completed =>
      exact createKeys_append 0 _ h rfl (by simp)
  | uploaded userId jobId bytes =>
      intro c hc
      exact (h c hc).run 0 (.putObject (audioKey userId jobId) (.audio bytes))

/-- A step of the server is one operation on its stores. -/
theorem step_stores {a : Action} (hs : step cfg w a = some w') :
    ∃ now op, w'.stores = w.stores.run now op := by
  cases step_effect hs with
  | called request => exact ⟨0, .none, rfl⟩
  | stepped i env t t' op spawned thread next => exact ⟨env.now, op, rfl⟩
  | threw i env e t t' thread throws => exact ⟨env.now, .none, rfl⟩
  | lost i env e t t' t₁ op spawned thread throws next => exact ⟨env.now, op, rfl⟩
  | timedOut i t t' thread out => exact ⟨0, .none, rfl⟩
  | acked i a e entry thread pc queued =>
      exact ⟨0, .setEntry a.jobId (some (settle cfg a.jobId entry e).1), rfl⟩
  | picked jobId entry queued waiting =>
      exact ⟨0, .setEntry jobId (some { entry with state := .active }), rfl⟩
  | promoted jobId entry queued delayed =>
      exact ⟨0, .setEntry jobId (some { entry with state := .waiting }), rfl⟩
  | purged jobId entry queued completed => exact ⟨0, .setEntry jobId none, rfl⟩
  | uploaded userId jobId bytes =>
      exact ⟨0, .putObject (audioKey userId jobId) (.audio bytes), rfl⟩

/-- A create call that moves keeps its arguments. -/
def KeepsCall (t t' : Thread) : Prop :=
  ∀ c, t = .create c → ∃ pc, t' = .create { c with pc := pc }

theorem next_keepsCall {t t' : Thread} {env : Env} {op : Op} {spawned : List Thread}
    (hn : next cfg w env t = some (t', op, spawned)) : KeepsCall t t' := by
  rintro c rfl
  obtain ⟨⟨pc, op'⟩, -, he⟩ := Option.map_eq_some_iff.mp hn
  cases he
  exact ⟨pc, rfl⟩

theorem throwing_keepsCall {t t' : Thread} {e : Err} (h : throwing e t = some t') :
    KeepsCall t t' := by
  rintro c rfl
  obtain ⟨pc, -, rfl⟩ := Option.map_eq_some_iff.mp h
  exact ⟨pc, rfl⟩

theorem call_advance {now i k : ℕ} {t t' : Thread} {op : Op} {spawned : List Thread}
    {c : CreateCall} (ht : w.threads[i]? = some t) (hkeeps : KeepsCall t t')
    (h : w.threads[k]? = some (.create c)) :
    ∃ pc, (w.advance now i t' op spawned).threads[k]? = some (.create { c with pc := pc }) := by
  by_cases hki : k = i
  · subst hki
    rw [h] at ht
    cases ht
    obtain ⟨pc, rfl⟩ := hkeeps c rfl
    exact ⟨pc, getElem?_advance_same h⟩
  · exact ⟨c.pc, getElem?_advance_other hki h⟩

theorem call_append {new : List Thread} {k : ℕ} {c : CreateCall}
    (h : w.threads[k]? = some (.create c)) :
    ∃ pc, (w.threads ++ new)[k]? = some (.create { c with pc := pc }) :=
  ⟨c.pc, (List.getElem?_append_left (lt_of_getElem? h)).trans h⟩

/-- A create call keeps its place in the pool and its arguments. -/
theorem call_kept {a : Action} {k : ℕ} {c : CreateCall} (hs : step cfg w a = some w')
    (h : w.threads[k]? = some (.create c)) :
    ∃ pc, w'.threads[k]? = some (.create { c with pc := pc }) := by
  cases step_effect hs with
  | called request => exact call_append h
  | stepped i env t t' op spawned thread next =>
      exact call_advance thread (next_keepsCall next) h
  | threw i env e t t' thread throws =>
      exact call_advance thread (throwing_keepsCall throws) h
  | lost i env e t t' t₁ op spawned thread throws next =>
      exact call_advance thread (throwing_keepsCall throws) h
  | timedOut i t t' thread out =>
      refine call_advance thread ?_ h
      rintro c rfl
      cases out
  | acked i a e entry thread pc queued =>
      refine call_advance thread ?_ h
      rintro c hc
      cases hc
  | picked jobId entry queued waiting => exact call_append h
  | promoted jobId entry queued delayed => exact call_append h
  | purged jobId entry queued completed => exact call_append h
  | uploaded userId jobId bytes => exact ⟨c.pc, h⟩

end FieldNote.ServerRuns
