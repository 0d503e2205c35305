import FieldNote.FlowSteps
import FieldNote.ObjectKeys
import FieldNote.StageMoves
import FieldNote.SyncedTrees

/-!
# Deleted jobs on the device

The cache inserts a job whose copy it receives and does not have. A copy that was read before
the deletion, and is still on its way or held by a refresh, brings the job back; nothing else
does, since the server gives out no copy of a deleted job.
-/
namespace FieldNote.DeletedJobs
open JobStore JobsService JobSyncService GuardedRuns CallPool ObjectKeys

/-- The copies in an answer. -/
def carried : Reply → List JobDto
  | .page items _ => items
  | .created response => [response.job]
  | .job dto => [dto]
  | .uploaded | .deleted => []

/-- The thread has read the job, and its answer carries that copy. -/
def carries (jobId : String) : ServerRuns.Thread → Bool
  | .create c =>
      match c.pc with
      | .returned response => response.job.id = jobId
      | _ => false
  | .process c =>
      match c.pc with
      | .objectExists job | .setStatus job | .getJob job | .getState job | .remove job | .add job
      | .findAgain job => job.id = jobId
      | .returned dto => dto.id = jobId
      | _ => false
  | .update c =>
      match c.pc with
      | .returned dto => dto.id = jobId
      | _ => false
  | _ => false

/-- The flow has no copy of the job, and none is on its way to it. -/
structure Clean (jobId : String) (threads : List ServerRuns.Thread) (f : Flow) : Prop where
  replies : ∀ r ∈ f.replies, ∀ dto ∈ carried r, dto.id ≠ jobId
  pulled : ∀ pulled, f.pc = .listing pulled → ∀ dto ∈ pulled, dto.id ≠ jobId
  sent : ∀ k ∈ f.sent, ∀ t, threads[k]? = some t → carries jobId t = false

/-- No copy of the job that was read before is still to be applied. -/
def NonePending (jobId : String) (w : World) : Prop :=
  ∀ f ∈ w.flows, f.live = true → Clean jobId w.server.threads f

section Server

open ServerRuns

variable {cfg : ServerConfig} {w w' : ServerRuns.World} {env : Env} {jobId : String}

/-- A live row is not that of the deleted job. -/
theorem live_ne {s : Stores} {userId id : String} {row : Job} (hgone : Gone s jobId)
    (h : s.findScoped userId id = some row) : row.id ≠ jobId := by
  rintro rfl
  obtain ⟨hrow, -, hlive⟩ := Stores.findScoped_eq_some.mp h
  have hid : row.id = id := Table.findUnique_key hrow
  obtain ⟨row', hrow', hdeleted⟩ := hgone
  rw [hid, hrow] at hrow'
  cases hrow'
  exact hdeleted hlive

theorem nextCreate_carries {c : CreateCall} {pc : CreatePc} {op : Op} (hgone : Gone w.stores jobId)
    (h : nextCreate cfg w.stores env c = some (pc, op)) :
    carries jobId (.create { c with pc := pc }) = false := by
  unfold nextCreate at h
  split at h
  · rename_i key hpc
    split at h
    · rename_i existing hfound
      cases h
      have hscope : existing.inScope c.userId = true := by
        have hp := List.find?_some hfound
        simp only [Bool.and_eq_true] at hp
        exact hp.1
      have hrow : w.stores.findById existing.id = some existing :=
        Table.findUnique_of_mem (List.mem_of_find?_eq_some hfound)
      have hlive : w.stores.findScoped c.userId existing.id = some existing := by
        rw [Stores.findScoped, hrow]
        simp [hscope]
      exact decide_eq_false (live_ne hgone hlive)
    · cases h
      rfl
  · split_ifs at h with htaken
    · cases h
      rfl
    · cases h
      have hfree : w.stores.findById env.id = none := by
        simp only [Bool.or_eq_true, not_or] at htaken
        simpa using htaken.2
      have hne : env.id ≠ jobId := by
        rintro rfl
        obtain ⟨row, hrow, -⟩ := hgone
        rw [hfree] at hrow
        cases hrow
      exact decide_eq_false hne
  · cases h
  · cases h

theorem nextProcess_carries {c : ProcessCall} {pc : ProcessPc} {op : Op}
    (hgone : Gone w.stores jobId) (h : nextProcess cfg w.stores c = some (pc, op))
    (hc : carries jobId (.process { c with pc := pc }) = true) :
    carries jobId (.process c) = true := by
  unfold nextProcess at h
  split at h
  · split at h
    · cases h
      cases hc
    · rename_i job hjob
      have hne := live_ne hgone hjob
      split_ifs at h <;> cases h <;> simp [carries, jobToDto, hne] at hc
  · rename_i job hpc
    split_ifs at h <;> cases h
    · simpa [carries, hpc] using hc
    · cases hc
  · rename_i job hpc
    cases h
    simpa [carries, hpc] using hc
  · rename_i job hpc
    split at h <;> cases h <;> simpa [carries, hpc] using hc
  · rename_i job hpc
    split at h <;> cases h <;> simpa [carries, hpc] using hc
  · rename_i job hpc
    split at h <;> cases h
    · cases hc
    · simpa [carries, hpc] using hc
  · rename_i job hpc
    split at h <;> cases h <;> simpa [carries, hpc] using hc
  · rename_i job hpc
    cases h
    cases hfound : w.stores.findScoped c.userId c.jobId with
    | none => simpa [carries, hpc, hfound, jobToDto] using hc
    | some row =>
        have hne := live_ne hgone hfound
        simp [carries, hfound, jobToDto, hne] at hc
  · cases h
  · cases h

theorem findOne_ne {s : Stores} {userId id : String} {dto : JobDto} (hgone : Gone s jobId)
    (h : findOne cfg s userId id = .ok dto) : dto.id ≠ jobId := by
  unfold findOne at h
  split at h
  · cases h
  · rename_i row hrow
    cases h
    exact live_ne hgone hrow

theorem nextUpdate_carries {c : UpdateCall} {pc : UpdatePc} {op : Op} (hgone : Gone w.stores jobId)
    (h : nextUpdate cfg w.stores env c = some (pc, op)) :
    carries jobId (.update { c with pc := pc }) = false := by
  unfold nextUpdate at h
  split at h
  · split at h <;> cases h <;> rfl
  · split at h <;> cases h <;> rfl
  · split at h
    · cases h
      rfl
    · rename_i dto hdto
      cases h
      simpa [carries] using findOne_ne hgone hdto
  · cases h
  · cases h

/-- A segment reads no copy of a deleted job. -/
theorem next_carries {t t' : Thread} {op : Op} {spawned : List Thread}
    (hgone : Gone w.stores jobId) (h : next cfg w env t = some (t', op, spawned))
    (hc : carries jobId t' = true) : carries jobId t = true := by
  cases next_segment h with
  | create c pc op hn =>
      rw [nextCreate_carries hgone hn] at hc
      cases hc
  | process c pc op hn =>
      exact nextProcess_carries hgone hn hc
  | update c pc op hn =>
      rw [nextUpdate_carries hgone hn] at hc
      cases hc
  | _ => cases hc

theorem throwing_carries {t t' : Thread} {e : PipelineService.Err} (h : throwing e t = some t') :
    carries jobId t' = false := by
  cases t with
  | create c =>
      obtain ⟨pc, hpc, rfl⟩ := Option.map_eq_some_iff.mp h
      unfold CreateCall.throwing at hpc
      split at hpc <;> cases hpc
      rfl
  | process c =>
      obtain ⟨pc, hpc, rfl⟩ := Option.map_eq_some_iff.mp h
      unfold ProcessCall.throwing at hpc
      split at hpc <;> cases hpc
      rfl
  | update c =>
      obtain ⟨pc, hpc, rfl⟩ := Option.map_eq_some_iff.mp h
      unfold UpdateCall.throwing at hpc
      split at hpc <;> cases hpc
      rfl
  | _ =>
      obtain ⟨pc, -, rfl⟩ := Option.map_eq_some_iff.mp h
      rfl

theorem request_carries (request : Request) : carries jobId request.thread = false := by
  cases request with
  | create userId label key =>
      simp only [Request.thread, create]
      split
      · rfl
      · split_ifs <;> rfl
  | _ => rfl

/-- What carries a copy of a deleted job after a step carried it before. -/
theorem step_carries {b : ServerRuns.Action} (hgone : Gone w.stores jobId)
    (hs : ServerRuns.step cfg w b = some w') {k : ℕ} {t' : Thread}
    (ht' : w'.threads[k]? = some t') (hc : carries jobId t' = true) :
    ∃ t, w.threads[k]? = some t ∧ carries jobId t = true := by
  have hnew : ∀ {new : List Thread} {n : ℕ}, new[n]? = some t' →
      (∀ t ∈ new, carries jobId t = false) → False := by
    intro new n hget hall
    rw [hall t' (List.mem_of_getElem? hget)] at hc
    cases hc
  cases step_shape hs with
  | thread i now t t₁ op spawned hat hacts =>
      rcases getElem?_advance_cases ht' with ⟨rfl, rfl⟩ | ⟨-, hold⟩ | ⟨-, hget⟩
      · refine ⟨t, hat, ?_⟩
        cases hacts with
        | stepped env t t' op spawned hnext => exact next_carries hgone hnext hc
        | threw env e t t' hthrows =>
            rw [throwing_carries hthrows] at hc
            cases hc
        | lost env e t t' t₁ op spawned hthrows hnext =>
            rw [throwing_carries hthrows] at hc
            cases hc
        | timedOut t t' hout =>
            obtain ⟨a, work, body, rfl, -, rfl⟩ := timingOut_eq hout
            cases hc
        | acked a e entry hpc hqueued => cases hc
      · exact ⟨t', hold, hc⟩
      · refine (hnew hget ?_).elim
        intro t₂ ht₂
        rcases acts_spawned hacts ht₂ with ⟨a, work, -, -, rfl⟩ | ⟨a, err, entry, -, -, -, rfl⟩ <;> rfl
  | outside op new hacts =>
      by_cases hk : k < w.threads.length
      · rw [List.getElem?_append_left hk] at ht'
        exact ⟨t', ht', hc⟩
      · rw [List.getElem?_append_right (Nat.le_of_not_lt hk)] at ht'
        refine (hnew ht' ?_).elim
        intro t₂ ht₂
        cases hacts with
        | called request =>
            rw [List.mem_singleton.mp ht₂]
            exact request_carries request
        | picked jobId entry hqueued hwaiting =>
            rw [List.mem_singleton.mp ht₂]
            rfl
        | _ => cases ht₂

theorem gone_step {b : ServerRuns.Action} (hgone : Gone w.stores jobId)
    (hs : ServerRuns.step cfg w b = some w') : Gone w'.stores jobId := by
  cases step_shape hs with
  | thread i now t t₁ op spawned hat hacts => exact hgone.run
  | outside op new hacts => exact hgone.run

/-- A `remove` call that goes on to the clean-up has deleted the row. -/
theorem nextRemove_gone {s : Stores} {c : RemoveCall} {pc : RemovePc} {op : Op} (now : ℕ)
    (h : nextRemove s c = some (pc, op)) (hpc : (∃ job, pc = .deleteObjects job) ∨ pc = .returned)
    (hbefore : ((∃ job, c.pc = .deleteObjects job) ∨ c.pc = .returned) → Gone s c.jobId) :
    Gone (s.run now op) c.jobId := by
  unfold nextRemove at h
  split at h
  · split at h <;> cases h <;> simp at hpc
  · split at h
    · cases h
      simp at hpc
    · rename_i row hrow
      cases h
      obtain ⟨hfind, huser, hlive⟩ := Stores.findScoped_eq_some.mp hrow
      refine ⟨_, by rw [Stores.run_row_write, hfind, Option.map_some], ?_⟩
      simp [Write.apply, Job.inScope, huser, hlive]
  · rename_i job hc
    cases h
    exact (hbefore (.inl ⟨job, hc⟩)).run
  · cases h
  · cases h

theorem throwing_gone {c : RemoveCall} {pc : RemovePc} (h : c.throwing = some pc)
    (hpc : (∃ job, pc = .deleteObjects job) ∨ pc = .returned) : ∃ job, c.pc = .deleteObjects job := by
  unfold RemoveCall.throwing at h
  split at h <;> cases h
  · rename_i job hc
    exact ⟨job, hc⟩
  · simp at hpc

theorem throwing_removed {t : Thread} {e : PipelineService.Err} {c : RemoveCall}
    (h : ∀ c, .remove c ∈ w.threads →
      ((∃ job, c.pc = .deleteObjects job) ∨ c.pc = .returned) → Gone w.stores c.jobId)
    (ht : t ∈ w.threads) (hthrows : throwing e t = some (.remove c))
    (hpc : (∃ job, c.pc = .deleteObjects job) ∨ c.pc = .returned) : Gone w.stores c.jobId := by
  cases t with
  | remove c₀ =>
      obtain ⟨pc, hpc', he⟩ := Option.map_eq_some_iff.mp hthrows
      cases he
      exact h c₀ ht (.inl (throwing_gone hpc' hpc))
  | _ =>
      obtain ⟨pc, -, he⟩ := Option.map_eq_some_iff.mp hthrows
      cases he

/-- Every `remove` call at or past the clean-up has deleted its row. -/
theorem removed_step {b : ServerRuns.Action}
    (h : ∀ c, .remove c ∈ w.threads →
      ((∃ job, c.pc = .deleteObjects job) ∨ c.pc = .returned) → Gone w.stores c.jobId)
    (hs : ServerRuns.step cfg w b = some w') :
    ∀ c, .remove c ∈ w'.threads →
      ((∃ job, c.pc = .deleteObjects job) ∨ c.pc = .returned) → Gone w'.stores c.jobId := by
  intro c hc hpc
  cases step_shape hs with
  | thread i now t t' op spawned hat hacts =>
      have ht := List.mem_of_getElem? hat
      rcases mem_advance hc with hold | rfl | hnew
      · exact (h c hold hpc).run
      · cases hacts with
        | stepped env t _ op spawned hnext =>
            cases next_segment hnext with
            | remove c₀ pc op hn => exact nextRemove_gone (c := c₀) env.now hn hpc (h c₀ ht)
        | threw env e t _ hthrows => exact (throwing_removed h ht hthrows hpc).run
        | lost env e t _ t₁ op spawned hthrows hnext =>
            exact (throwing_removed h ht hthrows hpc).run
        | timedOut t _ hout =>
            obtain ⟨a, work, body, rfl, -, he⟩ := timingOut_eq hout
            cases he
      · rcases acts_spawned hacts hnew with ⟨a, work, -, -, he⟩ | ⟨a, err, entry, -, -, -, he⟩ <;>
          cases he
  | outside op new hacts =>
      rcases List.mem_append.mp hc with hold | hnew
      · exact (h c hold hpc).run
      · cases hacts with
        | called request =>
            cases request with
            | remove userId jobId =>
                cases List.mem_singleton.mp hnew
                simp at hpc
            | _ => cases List.mem_singleton.mp hnew
        | picked jobId entry hqueued hwaiting => cases List.mem_singleton.mp hnew
        | _ => cases hnew

/-- A `remove` call stays where it is. -/
theorem remove_kept {b : ServerRuns.Action} {k : ℕ} {c : RemoveCall}
    (h : w.threads[k]? = some (.remove c)) (hs : ServerRuns.step cfg w b = some w') :
    ∃ c', w'.threads[k]? = some (.remove c') ∧ c'.jobId = c.jobId := by
  cases step_shape hs with
  | thread i now t t' op spawned hat hacts =>
      by_cases hk : k = i
      · subst hk
        rw [h] at hat
        cases hat
        have hsame : (w.threads.set k t' ++ spawned)[k]? = some t' := getElem?_advance_same h
        cases hacts.sameCall with
        | remove c pc => exact ⟨_, hsame, rfl⟩
      · exact ⟨c, getElem?_advance_other hk h, rfl⟩
  | outside op new hacts =>
      exact ⟨c, by rw [List.getElem?_append_left (lt_of_getElem? h), h], rfl⟩

end Server

variable {cfg : ServerConfig} {userId jobId : String} {w w' : World}

theorem clean_fresh {threads : List ServerRuns.Thread} {g : Flow} (h : Fresh g) :
    Clean jobId threads g := by
  constructor
  · simp [h.replies]
  · intro pulled hpc
    simp [h.pulled pulled hpc]
  · simp [h.sent]

/-- Clean flows stay clean while the threads that carry a copy are among the former ones. -/
theorem Clean.threads {threads threads' : List ServerRuns.Thread} {f : Flow}
    (h : Clean jobId threads f)
    (hback : ∀ (k : ℕ) (t' : ServerRuns.Thread), threads'[k]? = some t' → carries jobId t' = true →
      ∃ t, threads[k]? = some t ∧ carries jobId t = true) : Clean jobId threads' f := by
  refine ⟨h.replies, h.pulled, ?_⟩
  intro k hk t' ht'
  by_contra hc
  obtain ⟨t, ht, hcarries⟩ := hback k t' ht' (by simpa using hc)
  rw [h.sent k hk t ht] at hcarries
  cases hcarries

theorem continues_clean {threads : List ServerRuns.Thread} {f g : Flow}
    (h : Clean jobId threads f) (hg : Continues f g) (hlive : g.live = true) :
    Clean jobId threads g := by
  cases hg with
  | goto pc hother => exact clean_fresh ⟨rfl, rfl, fun pulled hpc => (hother pulled hpc).elim⟩
  | listing pulled items hpc hpage =>
      refine ⟨by simp [Flow.goto], ?_, by simp [Flow.goto]⟩
      intro pulled' hpc' dto hdto
      cases hpc'
      rcases List.mem_append.mp hdto with hdto | hdto
      · exact h.pulled pulled hpc dto hdto
      · exact h.replies _ hpage dto hdto
  | finish pc => cases hlive
  | stop => cases hlive

theorem threadReply_carries {t : ServerRuns.Thread} {r : Reply} {dto : JobDto}
    (h : threadReply t = some r) (hdto : dto ∈ carried r) (hid : dto.id = jobId) :
    carries jobId t = true := by
  cases t with
  | create c =>
      simp only [threadReply] at h
      split at h <;> cases h
      rename_i hpc
      rw [List.mem_singleton.mp hdto] at hid
      simp [carries, hpc, hid]
  | process c =>
      simp only [threadReply] at h
      split at h <;> cases h
      rename_i hpc
      rw [List.mem_singleton.mp hdto] at hid
      simp [carries, hpc, hid]
  | update c =>
      simp only [threadReply] at h
      split at h <;> cases h
      rename_i hpc
      rw [List.mem_singleton.mp hdto] at hid
      simp [carries, hpc, hid]
  | remove c =>
      simp only [threadReply] at h
      split at h <;> cases h
      cases hdto
  | _ => cases h

/-- An answer that comes in after the deletion carries no copy of the job. -/
theorem received_ne {f : Flow} {r : Reply} (hgone : Gone w.server.stores jobId)
    (hf : Clean jobId w.server.threads f) (h : Received cfg userId w f r) :
    ∀ dto ∈ carried r, dto.id ≠ jobId := by
  intro dto hdto hid
  cases h with
  | answered thread t r hsent ht hreply =>
      have hc := threadReply_carries hreply hdto hid
      rw [hf.sent thread hsent t ht] at hc
      cases hc
  | read ids more r hreply =>
      unfold readReply at hreply
      split at hreply
      · cases hreply
        obtain ⟨id, -, hread⟩ := List.mem_filterMap.mp hdto
        obtain ⟨row, hrow, rfl⟩ := Option.map_eq_some_iff.mp hread
        exact live_ne hgone hrow hid
      · split at hreply
        · rename_i dto' hfound
          cases hreply
          rw [List.mem_singleton.mp hdto] at hid
          exact findOne_ne hgone hfound hid
        · cases hreply
      · cases hreply

theorem nonePending_set {i : ℕ} {g : Flow} {server : ServerRuns.World}
    (h : ∀ f ∈ w.flows, f.live = true → Clean jobId server.threads f)
    (hg : g.live = true → Clean jobId server.threads g) :
    ∀ f ∈ w.flows.set i g, f.live = true → Clean jobId server.threads f := by
  intro f hf hlive
  rcases List.mem_or_eq_of_mem_set hf with hf | rfl
  · exact h f hf hlive
  · exact hg hlive

theorem nonePending_step {a : Action} (hgone : Gone w.server.stores jobId)
    (h : NonePending jobId w) (hs : step cfg userId w a = some w') : NonePending jobId w' := by
  have hshape := step_flows hs
  unfold NonePending
  generalize w'.flows = flows at hshape ⊢
  generalize w'.server = server at hshape ⊢
  cases hshape with
  | server b server hb =>
      intro f hf hlive
      exact (h f hf hlive).threads fun k t' ht' hc => step_carries hgone hb ht' hc
  | started new hfresh =>
      intro f hf hlive
      rcases List.mem_append.mp hf with hf | hf
      · exact h f hf hlive
      · exact clean_fresh (hfresh f hf)
  | turned i f g new hf hlive hcontinues hfresh =>
      intro f' hf' hlive'
      rcases List.mem_append.mp hf' with hf' | hf'
      · refine nonePending_set h ?_ f' hf' hlive'
        exact continues_clean (h f (List.mem_of_getElem? hf) hlive) hcontinues
      · exact clean_fresh (hfresh f' hf')
  | sent i f r hf hr =>
      -- the new thread has read nothing yet
      have hback : ∀ (k : ℕ) (t' : ServerRuns.Thread),
          (w.server.threads ++ [r.thread])[k]? = some t' → carries jobId t' = true →
          ∃ t, w.server.threads[k]? = some t ∧ carries jobId t = true := by
        intro k t' ht' hc
        rcases getElem?_start_cases ht' with ⟨-, rfl⟩ | ⟨-, hold⟩
        · rw [request_carries] at hc
          cases hc
        · exact ⟨t', hold, hc⟩
      refine nonePending_set (fun f' hf' hlive' => (h f' hf' hlive').threads hback) ?_
      intro hlive
      have hclean := h f (List.mem_of_getElem? hf) hlive
      refine ⟨hclean.replies, hclean.pulled, ?_⟩
      intro k hk t ht
      rcases List.mem_append.mp hk with hk | hk
      · exact (hclean.threads hback).sent k hk t ht
      · rw [List.mem_singleton.mp hk] at ht
        have hnew : (w.server.threads ++ [r.thread])[w.server.threads.length]? = some r.thread := by
          simp
        rw [hnew] at ht
        cases ht
        exact request_carries r
  | received i f r hf hr =>
      refine nonePending_set h ?_
      intro hlive
      have hclean := h f (List.mem_of_getElem? hf) hlive
      refine ⟨?_, hclean.pulled, hclean.sent⟩
      intro r' hr'
      rcases List.mem_append.mp hr' with hr' | hr'
      · exact hclean.replies r' hr'
      · rw [List.mem_singleton.mp hr']
        exact received_ne hgone hclean hr
  | stored i f id path server hf hu hb =>
      have hback : ∀ (k : ℕ) (t' : ServerRuns.Thread),
          server.threads[k]? = some t' → carries jobId t' = true →
          ∃ t, w.server.threads[k]? = some t ∧ carries jobId t = true :=
        fun k t' ht' hc => step_carries hgone hb ht' hc
      refine nonePending_set (fun f' hf' hlive' => (h f' hf' hlive').threads hback) ?_
      intro hlive
      have hclean := (h f (List.mem_of_getElem? hf) hlive).threads hback
      refine ⟨?_, hclean.pulled, hclean.sent⟩
      intro r' hr'
      rcases List.mem_append.mp hr' with hr' | hr'
      · exact hclean.replies r' hr'
      · rw [List.mem_singleton.mp hr']
        simp [carried]
  | killed =>
      intro f hf hlive
      obtain ⟨f', -, rfl⟩ := List.mem_map.mp hf
      cases hlive

/-- No step applies a copy of the job. -/
theorem applied_ne {a : Action} (h : NonePending jobId w) (hs : step cfg userId w a = some w') :
    ∀ dto ∈ applied w a, dto.id ≠ jobId := by
  intro dto hdto
  cases a with
  | deliver i k =>
      obtain ⟨f, hf, hs⟩ := Option.bind_eq_some_iff.mp hs
      split_ifs at hs with hlive
      obtain ⟨r, hr, -⟩ := Option.bind_eq_some_iff.mp hs
      have hclean := h f (List.mem_of_getElem? hf) hlive
      have hreply := hclean.replies r (List.mem_of_getElem? hr)
      simp only [applied, hf, hr, Option.map_some, Option.getD_some] at hdto
      cases r with
      | page items more =>
          simp only [copies] at hdto
          split at hdto
          · rename_i pulled hpc
            split_ifs at hdto
            · cases hdto
            · rcases List.mem_append.mp hdto with hdto | hdto
              · exact hclean.pulled pulled hpc dto hdto
              · exact hreply dto hdto
          · cases hdto
      | created response => exact hreply dto hdto
      | job dto' => exact hreply dto hdto
      | uploaded => cases hdto
      | deleted => cases hdto
  | _ => cases hdto

theorem absent_update {cache : Cache} {id : String} {f : CachedJob → CachedJob}
    {hf : ∀ job, (f job).id = job.id} (h : cache.findUnique jobId = none) :
    (cache.update id f hf).findUnique jobId = none := by
  rw [Table.findUnique_update]
  split_ifs <;> simp [h]

theorem absent_step {a : Action} (hpending : NonePending jobId w)
    (h : w.cache.findUnique jobId = none) (hs : step cfg userId w a = some w') :
    w'.cache.findUnique jobId = none := by
  have hne := applied_ne hpending hs
  have heffect := step_cache hs
  generalize w'.cache = cache' at heffect
  cases heffect with
  | same => exact h
  | merged dtos hcopies =>
      rw [findUnique_mergePulled_other, h]
      intro hid
      obtain ⟨dto, hdto, heq⟩ := List.mem_map.mp hid
      exact hne dto (hcopies ▸ hdto) heq
  | registered response path now hcopies =>
      have hother : jobId ≠ response.job.id := Ne.symm (hne response.job (by simp [hcopies]))
      apply absent_update
      rw [findUnique_upsert, if_neg hother, h]
  | marked id => exact absent_update h
  | edited id label sections now haction => exact absent_update h
  | deleted id hdel =>
      rw [Table.findUnique_delete]
      split_ifs
      · rfl
      · exact h

theorem gone_shape {a : Action} (hgone : Gone w.server.stores jobId)
    (hs : step cfg userId w a = some w') : Gone w'.server.stores jobId := by
  have hshape := step_flows hs
  generalize w'.flows = flows at hshape
  generalize w'.server = server at hshape ⊢
  cases hshape with
  | server b server hb => exact gone_step hgone hb
  | stored i f id path server hf hu hb => exact gone_step hgone hb
  | _ => exact hgone

/-- What the server has reported to be deleted is. -/
structure Reported (w : World) : Prop where
  removed : ∀ c, .remove c ∈ w.server.threads →
    ((∃ job, c.pc = .deleteObjects job) ∨ c.pc = .returned) → Gone w.server.stores c.jobId
  sent : ∀ f ∈ w.flows, ∀ id, f.task = .delete id → ∀ k ∈ f.sent,
    ∃ c, w.server.threads[k]? = some (.remove c) ∧ c.jobId = id
  replies : ∀ f ∈ w.flows, ∀ id, f.task = .delete id → .deleted ∈ f.replies →
    Gone w.server.stores id

theorem reported_empty : Reported World.empty := by
  constructor <;> simp [World.empty, ServerRuns.World.empty]

/-- The server goes on. -/
theorem reported_server {b : ServerRuns.Action} {server : ServerRuns.World} (h : Reported w)
    (hb : ServerRuns.step cfg w.server b = some server) :
    Reported { w with server := server } := by
  refine ⟨removed_step h.removed hb, ?_, ?_⟩
  · intro f hf id htask k hk
    obtain ⟨c, hc, rfl⟩ := h.sent f hf id htask k hk
    exact remove_kept hc hb
  · intro f hf id htask hreply
    exact gone_step (h.replies f hf id htask hreply) hb

theorem reported_set {i : ℕ} {g : Flow} (h : Reported w)
    (hsent : ∀ id, g.task = .delete id → ∀ k ∈ g.sent,
      ∃ c, w.server.threads[k]? = some (.remove c) ∧ c.jobId = id)
    (hreplies : ∀ id, g.task = .delete id → .deleted ∈ g.replies → Gone w.server.stores id) :
    Reported { w with flows := w.flows.set i g } := by
  refine ⟨h.removed, ?_, ?_⟩
  · intro f hf
    rcases List.mem_or_eq_of_mem_set hf with hf | rfl
    · exact h.sent f hf
    · exact hsent
  · intro f hf
    rcases List.mem_or_eq_of_mem_set hf with hf | rfl
    · exact h.replies f hf
    · exact hreplies

theorem reported_new {new : List Flow} (h : Reported w) (hnew : ∀ g ∈ new, Fresh g) :
    Reported { w with flows := w.flows ++ new } := by
  refine ⟨h.removed, ?_, ?_⟩
  · intro f hf id htask k hk
    rcases List.mem_append.mp hf with hf | hf
    · exact h.sent f hf id htask k hk
    · rw [(hnew f hf).sent] at hk
      cases hk
  · intro f hf id htask hreply
    rcases List.mem_append.mp hf with hf | hf
    · exact h.replies f hf id htask hreply
    · rw [(hnew f hf).replies] at hreply
      cases hreply

/-- A flow that goes on keeps its task, and its requests and answers only if it stops. -/
theorem continues_kept {f g : Flow} (h : Continues f g) :
    g.task = f.task ∧ (g.sent = [] ∧ g.replies = [] ∨ g.sent = f.sent ∧ g.replies = f.replies) := by
  cases h with
  | stop => exact ⟨rfl, .inr ⟨rfl, rfl⟩⟩
  | _ => exact ⟨rfl, .inl ⟨rfl, rfl⟩⟩

/-- The answer to the request of a deletion comes from a `remove` call that has returned. -/
theorem received_deleted {f : Flow} {id : String} (h : Reported w) (hf : f ∈ w.flows)
    (htask : f.task = .delete id) (hr : Received cfg userId w f .deleted) :
    Gone w.server.stores id := by
  cases hr with
  | answered thread t r hsent ht hreply =>
      obtain ⟨c, hc, rfl⟩ := h.sent f hf id htask thread hsent
      rw [hc] at ht
      cases ht
      simp only [threadReply] at hreply
      split at hreply <;> cases hreply
      rename_i hpc
      exact h.removed c (List.mem_of_getElem? hc) (.inr hpc)
  | read ids more r hreply =>
      unfold readReply at hreply
      split at hreply
      · cases hreply
      · split at hreply <;> cases hreply
      · cases hreply

theorem reported_step {a : Action} (h : Reported w) (hs : step cfg userId w a = some w') :
    Reported w' := by
  have hshape := step_flows hs
  suffices hflows : Reported { w with flows := w'.flows, server := w'.server } from
    ⟨hflows.removed, hflows.sent, hflows.replies⟩
  generalize w'.flows = flows at hshape ⊢
  generalize w'.server = server at hshape ⊢
  cases hshape with
  | server b server hb => exact reported_server h hb
  | started new hfresh => exact reported_new h hfresh
  | turned i f g new hf hlive hcontinues hfresh =>
      obtain ⟨htask, hkept⟩ := continues_kept hcontinues
      have hmem := List.mem_of_getElem? hf
      refine reported_new (w := { w with flows := w.flows.set i g }) (reported_set h ?_ ?_) hfresh
      · intro id hid k hk
        rcases hkept with ⟨hsent, -⟩ | ⟨hsent, -⟩
        · rw [hsent] at hk
          cases hk
        · exact h.sent f hmem id (htask ▸ hid) k (hsent ▸ hk)
      · intro id hid hreply
        rcases hkept with ⟨-, hreplies⟩ | ⟨-, hreplies⟩
        · rw [hreplies] at hreply
          cases hreply
        · exact h.replies f hmem id (htask ▸ hid) (hreplies ▸ hreply)
  | sent i f r hf hr =>
      have hmem := List.mem_of_getElem? hf
      have hcalled : ServerRuns.step cfg w.server (.call r) =
          some { w.server with threads := w.server.threads ++ [r.thread] } := rfl
      refine reported_set (w := { w with
        server := { w.server with threads := w.server.threads ++ [r.thread] } })
          (reported_server h hcalled) ?_ (fun id htask => h.replies f hmem id htask)
      intro id htask k hk
      rcases List.mem_append.mp hk with hk | hk
      · obtain ⟨c, hc, rfl⟩ := h.sent f hmem id htask k hk
        exact remove_kept hc hcalled
      · have htask' : f.task = .delete id := htask
        have hrequest : r = .remove userId id := by
          unfold request at hr
          rw [htask'] at hr
          split at hr <;> simp_all
        rw [List.mem_singleton.mp hk, hrequest]
        exact ⟨⟨userId, id, .requireOwned⟩, by simp [ServerRuns.Request.thread], rfl⟩
  | received i f r hf hr =>
      have hmem := List.mem_of_getElem? hf
      refine reported_set h (fun id htask => h.sent f hmem id htask) ?_
      intro id htask hreply
      rcases List.mem_append.mp hreply with hreply | hreply
      · exact h.replies f hmem id htask hreply
      · rw [← List.mem_singleton.mp hreply] at hr
        exact received_deleted h hmem htask hr
  | stored i f id path server hf hu hb =>
      have hmem := List.mem_of_getElem? hf
      have hserver := reported_server h hb
      refine reported_set (w := { w with server := server }) hserver
        (fun id' htask => hserver.sent f hmem id' htask) ?_
      intro id' htask hreply
      rcases List.mem_append.mp hreply with hreply | hreply
      · exact hserver.replies f hmem id' htask hreply
      · cases List.mem_singleton.mp hreply
  | killed =>
      refine ⟨h.removed, ?_, ?_⟩
      · intro f hf
        obtain ⟨f', hf', rfl⟩ := List.mem_map.mp hf
        exact h.sent f' hf'
      · intro f hf
        obtain ⟨f', hf', rfl⟩ := List.mem_map.mp hf
        exact h.replies f' hf'

/-- When the answer to a deletion is applied, the job is gone on both sides. -/
theorem delivered_deleted {i k : ℕ} {f : Flow} (h : Reported w) (hf : w.flows[i]? = some f)
    (htask : f.task = .delete jobId) (hreply : f.replies[k]? = some .deleted)
    (hs : step cfg userId w (.deliver i k) = some w') :
    Gone w'.server.stores jobId ∧ w'.cache.findUnique jobId = none := by
  have hgone := h.replies f (List.mem_of_getElem? hf) jobId htask (List.mem_of_getElem? hreply)
  obtain ⟨f', hf', hs⟩ := Option.bind_eq_some_iff.mp hs
  rw [hf] at hf'
  cases hf'
  split_ifs at hs
  obtain ⟨r, hr, hresume⟩ := Option.bind_eq_some_iff.mp hs
  rw [hreply] at hr
  cases hr
  simp only [resume] at hresume
  split at hresume
  · rename_i id hid hpc
    cases hresume
    rw [htask] at hid
    cases hid
    exact ⟨hgone, by simp⟩
  · cases hresume

/-- Once the success of a deletion has been applied on the device and no copy of the job is
pending, the job does not come back, whatever happens. -/
theorem deleted_stays_deleted (cfg : ServerConfig) (userId : String) {w w₁ w₂ : World} {i k : ℕ}
    {f : Flow} {jobId : String} (hw : Run (step cfg userId) anyStep World.empty w)
    (hf : w.flows[i]? = some f) (htask : f.task = .delete jobId)
    (hreply : f.replies[k]? = some .deleted)
    (hs : step cfg userId w (.deliver i k) = some w₁) (hnone : NonePending jobId w₁)
    (hrun : Run (step cfg userId) anyStep w₁ w₂) : w₂.cache.findUnique jobId = none := by
  have hreported : Reported w :=
    hw.invariant (I := Reported) reported_empty fun _ _ _ h _ hs => reported_step h hs
  obtain ⟨hgone, habsent⟩ := delivered_deleted hreported hf htask hreply hs
  have hlast := hrun.invariant
    (I := fun w => Gone w.server.stores jobId ∧ NonePending jobId w ∧
      w.cache.findUnique jobId = none) ⟨hgone, hnone, habsent⟩ ?_
  · exact hlast.2.2
  · rintro v a v' ⟨hgone, hpending, habsent⟩ - hstep
    exact ⟨gone_shape hgone hstep, nonePending_step hgone hpending hstep,
      absent_step hpending habsent hstep⟩

/-- `job-1` is created and pulled by flow 0. -/
def pulledSchedule : List Action :=
  [.server (.call (.create "user-1" "Site A" none)), .server (.step 0 { id := "job-1", now := 1 }),
    .refresh 0, .read 0 ["job-1"] false, .deliver 0 0]

/-- Flow `i` deletes the job, up to the arrival of the answer. -/
def deleteSchedule (i : ℕ) : List Action :=
  [.delete "job-1", .send i, .server (.step 1 {}), .server (.step 1 { now := 2 }),
    .server (.step 1 {}), .answer i 1]

/-- Nothing was on its way, and a later refresh does not bring the job back. -/
theorem deleted_stays_deleted_demo : ∃ w w₁ w₂ f,
    Run (step ServerRuns.demo "user-1") anyStep World.empty w ∧ w.flows[1]? = some f ∧
      f.task = .delete "job-1" ∧ f.replies[0]? = some .deleted ∧
        step ServerRuns.demo "user-1" w (.deliver 1 0) = some w₁ ∧ NonePending "job-1" w₁ ∧
          Run (step ServerRuns.demo "user-1") anyStep w₁ w₂ ∧ w₂.flows.length = 3 ∧
            w₂.cache.findUnique "job-1" = none := by
  have hend : (exec (step ServerRuns.demo "user-1") (pulledSchedule ++ deleteSchedule 1)
      World.empty).any (fun w =>
        w.flows[1]?.any (fun f => f.task = .delete "job-1" && f.replies[0]? = some .deleted) &&
          (step ServerRuns.demo "user-1" w (.deliver 1 0)).any fun w₁ =>
            w₁.flows.all (fun f => !f.live) &&
              (exec (step ServerRuns.demo "user-1") [.refresh 3, .read 2 ["job-1"] false,
                .deliver 2 0] w₁).any fun w₂ => w₂.flows.length = 3) = true := by decide
  obtain ⟨w, hw, hp⟩ := exec_any hend
  obtain ⟨hflow, hp⟩ := (Bool.and_eq_true _ _).mp hp
  obtain ⟨f, hf, hflow⟩ := (Option.any_eq_true _ _).mp hflow
  obtain ⟨htask, hreply⟩ := (Bool.and_eq_true _ _).mp hflow
  obtain ⟨w₁, hs, hp⟩ := (Option.any_eq_true _ _).mp hp
  obtain ⟨hdead, hp⟩ := (Bool.and_eq_true _ _).mp hp
  obtain ⟨w₂, hrun, hlen⟩ := exec_any hp
  have hnone : NonePending "job-1" w₁ := by
    intro g hg hlive
    have hover := List.all_eq_true.mp hdead g hg
    simp [hlive] at hover
  have htask := of_decide_eq_true htask
  have hreply := of_decide_eq_true hreply
  exact ⟨w, w₁, w₂, f, hw, hf, htask, hreply, hs, hnone, hrun, of_decide_eq_true hlen,
    deleted_stays_deleted ServerRuns.demo "user-1" hw hf htask hreply hs hnone hrun⟩

/-- A page that was read before the deletion brings the job back. -/
theorem page_brings_back :
    ¬ ∀ (cfg : ServerConfig) (userId : String) (w w₁ w₂ : World) (i k : ℕ) (f : Flow)
      (jobId : String), Run (step cfg userId) anyStep World.empty w → w.flows[i]? = some f →
        f.task = .delete jobId → f.replies[k]? = some .deleted →
          step cfg userId w (.deliver i k) = some w₁ → Run (step cfg userId) anyStep w₁ w₂ →
            w₂.cache.findUnique jobId = none := by
  intro h
  have hend : (exec (step ServerRuns.demo "user-1") (pulledSchedule ++
      [.refresh 2, .read 1 ["job-1"] false] ++ deleteSchedule 2) World.empty).any (fun w =>
        w.flows[2]?.any (fun f => f.task = .delete "job-1" && f.replies[0]? = some .deleted) &&
          (step ServerRuns.demo "user-1" w (.deliver 2 0)).any fun w₁ =>
            (exec (step ServerRuns.demo "user-1") [.deliver 1 0] w₁).any fun w₂ =>
              (w₂.cache.findUnique "job-1").isSome) = true := by decide
  obtain ⟨w, hw, hp⟩ := exec_any hend
  obtain ⟨hflow, hp⟩ := (Bool.and_eq_true _ _).mp hp
  obtain ⟨f, hf, hflow⟩ := (Option.any_eq_true _ _).mp hflow
  obtain ⟨htask, hreply⟩ := (Bool.and_eq_true _ _).mp hflow
  obtain ⟨w₁, hs, hp⟩ := (Option.any_eq_true _ _).mp hp
  obtain ⟨w₂, hrun, hback⟩ := exec_any hp
  have hnone := h ServerRuns.demo "user-1" w w₁ w₂ 2 0 f "job-1" hw hf (of_decide_eq_true htask)
    (of_decide_eq_true hreply) hs hrun
  rw [hnone] at hback
  cases hback

end FieldNote.DeletedJobs
