import FieldNote.StageMoves

/-!
# Attempts of one job that do not overlap

When a job is picked only while no attempt and no stage body of it runs, it has at most one
running attempt and at most one running body. While the body runs, the attempt races it or
has already given it up.
-/
namespace FieldNote.SoloAttempts
open JobsService PipelineService ServerRuns CallPool

/-- The attempt has not ended. -/
def attemptRuns : AttemptPc → Bool
  | .settled _ | .acked => false
  | _ => true

def bodyRuns : BodyPc → Bool
  | .done _ => false
  | _ => true

/-- The thread is an attempt or a stage body of the job that has not ended. -/
def busy (jobId : String) : Thread → Bool
  | .attempt a => a.jobId = jobId && attemptRuns a.pc
  | .body b => b.jobId = jobId && bodyRuns b.pc
  | _ => false

/-- The job is picked only while nothing of it runs. -/
def sequential (jobId : String) (w : World) : Action → Bool
  | .pick id => id ≠ jobId || !w.threads.any (busy jobId)
  | _ => true

/-- What an attempt may be doing while body `k` runs. -/
def besides (k : ℕ) : AttemptPc → Prop
  | .racing _ i => i = k
  | .addFailed _ _ | .marking _ _ | .settled _ | .acked => True
  | _ => False

structure Solo (jobId : String) (w : World) : Prop where
  attempts : ∀ (i j : ℕ) (a a' : Attempt), w.threads[i]? = some (.attempt a) →
    w.threads[j]? = some (.attempt a') → a.jobId = jobId → a'.jobId = jobId →
    attemptRuns a.pc = true → attemptRuns a'.pc = true → i = j
  bodies : ∀ (i j : ℕ) (b b' : Body), w.threads[i]? = some (.body b) →
    w.threads[j]? = some (.body b') → b.jobId = jobId → b'.jobId = jobId →
    bodyRuns b.pc = true → bodyRuns b'.pc = true → i = j
  pair : ∀ (i k : ℕ) (a : Attempt) (b : Body), w.threads[i]? = some (.attempt a) →
    w.threads[k]? = some (.body b) → a.jobId = jobId → b.jobId = jobId →
    bodyRuns b.pc = true → besides k a.pc

variable {cfg : ServerConfig} {w w' : World} {jobId : String} {op : Op}

theorem solo_empty : Solo jobId World.empty := by
  refine ⟨?_, ?_, ?_⟩ <;> intro i j x y hi <;> cases hi

/-- An attempt that has ended stays so. -/
theorem attempt_runs {a : Attempt} {now : ℕ} {pc : AttemptPc} {spawned : List Thread}
    (h : AttemptMove cfg w a now pc op spawned) (hpc : attemptRuns pc = true) :
    attemptRuns a.pc = true := by
  cases h with
  | failing work e op pc =>
      rcases pc with ⟨i, hpc⟩ | ⟨result, hpc⟩ <;> rw [hpc] <;> rfl
  | thrown work e op pc =>
      rcases pc with ⟨hpc, -⟩ | ⟨hpc, -⟩ | ⟨e', hpc, -⟩ <;> rw [hpc] <;> rfl
  | acked e entry pc queued => cases hpc
  | ended e pc => cases hpc
  | broke e e' mark op pc next => cases hpc
  | marked e mark op pc next => cases hpc
  | began job key work pc => rw [pc]; rfl
  | announced work pc => rw [pc]; rfl
  | started work pc => rw [pc]; rfl
  | won work i result pc done => rw [pc]; rfl
  | completed work result pc => rw [pc]; rfl
  | marking e mark mark' op pc next => rw [pc]; rfl

theorem body_runs {b : Body} {pc : BodyPc} (h : BodyMove w b pc op) : bodyRuns b.pc = true := by
  have hopen : ∀ env pc op, nextBody w.stores env b = some (pc, op) → bodyRuns b.pc = true := by
    intro env pc op hnext
    cases hpc : b.pc with
    | done r => simp [nextBody, hpc] at hnext
    | _ => rfl
  cases h with
  | moved env pc op next => exact hopen env pc op next
  | threw e open_ =>
      cases hpc : b.pc with
      | done r => exact (open_ r hpc).elim
      | _ => rfl
  | lost env e pc op next => exact hopen env pc op next

/-- The attempt of a running body only gives it up, unless the body is done. -/
theorem attempt_besides {a : Attempt} {now k : ℕ} {pc : AttemptPc} {spawned : List Thread}
    (h : AttemptMove cfg w a now pc op spawned) (hk : besides k a.pc)
    (hopen : ∀ r, w.bodyResult k ≠ some r) : besides k pc := by
  cases h with
  | won work i result pc done =>
      rw [pc] at hk
      obtain rfl : i = k := hk
      exact (hopen _ done).elim
  | thrown work e op pc =>
      unfold afterThrow
      split_ifs <;> trivial
  | failing work e op pc => trivial
  | marking e mark mark' op pc next => trivial
  | marked e mark op pc next => trivial
  | broke e e' mark op pc next => trivial
  | acked e entry pc queued => trivial
  | ended e pc => trivial
  | began job key work pc =>
      rw [pc] at hk
      exact hk.elim
  | announced work pc =>
      rw [pc] at hk
      exact hk.elim
  | started work pc =>
      rw [pc] at hk
      exact hk.elim
  | completed work result pc =>
      rw [pc] at hk
      exact hk.elim

/-- Where an attempt of the pool comes from after a move. -/
theorem attempt_back {i now j : ℕ} {act : Action} {t t' : Thread} {spawned : List Thread}
    {a' : Attempt} (at_ : w.threads[i]? = some t) (acts : Acts cfg w i act t now t' op spawned)
    (ha : (w.advance now i t' op spawned).threads[j]? = some (.attempt a')) :
    ∃ a, w.threads[j]? = some (.attempt a) ∧ a.jobId = a'.jobId ∧
      (attemptRuns a'.pc = true → attemptRuns a.pc = true) := by
  rcases getElem?_advance_cases ha with ⟨rfl, heq⟩ | ⟨-, hold⟩ | ⟨-, hnew⟩
  · obtain ⟨a, pc, rfl, rfl, hmove⟩ := acts_to_attempt (heq ▸ acts)
    exact ⟨a, at_, rfl, attempt_runs hmove⟩
  · exact ⟨a', hold, rfl, id⟩
  · rcases acts_spawned acts (List.mem_of_getElem? hnew) with
      ⟨_, _, -, -, heq⟩ | ⟨_, _, _, -, -, -, heq⟩ <;> cases heq

/-- Where a running body of the pool comes from after a move: it ran before, or an attempt that
has announced its stage has just started it. -/
theorem body_back {i now k : ℕ} {act : Action} {t t' : Thread} {spawned : List Thread}
    {b' : Body} (at_ : w.threads[i]? = some t) (acts : Acts cfg w i act t now t' op spawned)
    (hb : (w.advance now i t' op spawned).threads[k]? = some (.body b'))
    (hruns : bodyRuns b'.pc = true) :
    (∃ b, w.threads[k]? = some (.body b) ∧ b.jobId = b'.jobId ∧ bodyRuns b.pc = true) ∨
    k = w.threads.length ∧ ∃ a work, t = .attempt a ∧ a.pc = .addStarted work ∧
      a.jobId = b'.jobId := by
  rcases getElem?_advance_cases hb with ⟨rfl, heq⟩ | ⟨-, hold⟩ | ⟨hle, hnew⟩
  · obtain ⟨-, b, pc, rfl, rfl, hmove⟩ := acts_to_body (heq ▸ acts)
    exact .inl ⟨b, at_, rfl, body_runs hmove⟩
  · exact .inl ⟨b', hold, rfl, hruns⟩
  · rcases acts_spawned acts (List.mem_of_getElem? hnew) with
      ⟨a, work, rfl, hpc, heq⟩ | ⟨_, _, _, -, -, -, heq⟩
    · cases heq
      have hlt := lt_of_getElem? hnew
      have hone := acts_spawned_le acts
      exact .inr ⟨by omega, a, work, rfl, hpc, rfl⟩
    · cases heq

theorem solo_thread {i now : ℕ} {act : Action} {t t' : Thread} {spawned : List Thread}
    (h : Solo jobId w) (at_ : w.threads[i]? = some t)
    (acts : Acts cfg w i act t now t' op spawned) :
    Solo jobId (w.advance now i t' op spawned) := by
  -- while an attempt announces a stage, no body runs
  have hquiet : ∀ (a : Attempt) (work : Work) (k : ℕ) (b : Body), t = .attempt a → a.pc = .addStarted work →
      a.jobId = jobId → w.threads[k]? = some (.body b) → b.jobId = jobId → bodyRuns b.pc = true → False := by
    rintro a work k b rfl hpc hjob hb hbjob hruns
    have hpair := h.pair i k a b at_ hb hjob hbjob hruns
    rwa [hpc] at hpair
  refine ⟨?_, ?_, ?_⟩
  · intro j k a a' ha ha' hjob hjob' hruns hruns'
    obtain ⟨a₀, ha₀, hid, hback⟩ := attempt_back at_ acts ha
    obtain ⟨a₁, ha₁, hid', hback'⟩ := attempt_back at_ acts ha'
    exact h.attempts j k a₀ a₁ ha₀ ha₁ (hid.trans hjob) (hid'.trans hjob') (hback hruns)
      (hback' hruns')
  · intro j k b b' hb hb' hjob hjob' hruns hruns'
    rcases body_back at_ acts hb hruns with ⟨b₀, hb₀, hid, hr⟩ | ⟨rfl, a, work, ht, hpc, hid⟩
    · rcases body_back at_ acts hb' hruns' with
        ⟨b₁, hb₁, hid', hr'⟩ | ⟨rfl, a', work', ht', hpc', hid'⟩
      · exact h.bodies j k b₀ b₁ hb₀ hb₁ (hid.trans hjob) (hid'.trans hjob') hr hr'
      · exact (hquiet a' work' j b₀ ht' hpc' (hid'.trans hjob') hb₀ (hid.trans hjob) hr).elim
    · rcases body_back at_ acts hb' hruns' with
        ⟨b₁, hb₁, hid', hr'⟩ | ⟨rfl, a', work', -, -, -⟩
      · exact (hquiet a work k b₁ ht hpc (hid.trans hjob) hb₁ (hid'.trans hjob') hr').elim
      · rfl
  · intro j k a' b' ha hb hjob hbjob hruns
    rcases body_back at_ acts hb hruns with ⟨b, hb₀, hid, hr⟩ | ⟨rfl, a, work, rfl, hpc, hid⟩
    · rcases getElem?_advance_cases ha with ⟨rfl, heq⟩ | ⟨-, hold⟩ | ⟨-, hnew⟩
      · obtain ⟨a, pc, rfl, rfl, hmove⟩ := acts_to_attempt (heq ▸ acts)
        refine attempt_besides hmove (h.pair j k a b at_ hb₀ hjob (hid.trans hbjob) hr) ?_
        intro r hdone
        obtain ⟨b₁, hb₁, hpc₁⟩ := bodyResult_eq_some.mp hdone
        rw [hb₀] at hb₁
        cases hb₁
        rw [hpc₁] at hr
        cases hr
      · exact h.pair j k a' b hold hb₀ hjob (hid.trans hbjob) hr
      · rcases acts_spawned acts (List.mem_of_getElem? hnew) with
          ⟨_, _, -, -, heq⟩ | ⟨_, _, _, -, -, -, heq⟩ <;> cases heq
    · -- the body has just been started: its attempt races it, and no other attempt runs
      rcases getElem?_advance_cases ha with ⟨rfl, heq⟩ | ⟨hji, hold⟩ | ⟨-, hnew⟩
      · obtain ⟨pc, he, hmove⟩ := acts_attempt acts
        rw [he] at heq
        cases heq
        cases hmove with
        | started work' pc => rfl
        | thrown work' e op pc =>
            dsimp only
            unfold afterThrow
            split_ifs <;> trivial
        | _ => simp_all
      · by_cases hruns' : attemptRuns a'.pc = true
        · exact (hji (h.attempts j i a' a hold at_ hjob (hid.trans hbjob) hruns'
            (by rw [hpc]; rfl))).elim
        · cases hpc' : a'.pc with
          | settled e => trivial
          | acked => trivial
          | _ => exact (hruns' (by rw [hpc']; rfl)).elim
      · rcases acts_spawned acts (List.mem_of_getElem? hnew) with
          ⟨_, _, -, -, heq⟩ | ⟨_, _, _, -, -, -, heq⟩ <;> cases heq

theorem solo_step {act : Action} (h : Solo jobId w) (hg : sequential jobId w act = true)
    (hs : step cfg w act = some w') : Solo jobId w' := by
  cases step_shape hs with
  | thread i now t t' op spawned at_ acts => exact solo_thread h at_ acts
  | outside op new acts =>
      have hbody : ∀ (k : ℕ) (b : Body), (w.threads ++ new)[k]? = some (.body b) →
          w.threads[k]? = some (.body b) := by
        intro k b hb
        by_cases hk : k < w.threads.length
        · rwa [List.getElem?_append_left hk] at hb
        · rw [List.getElem?_append_right (by omega)] at hb
          exact ((outside_new acts (List.mem_of_getElem? hb)).1 b rfl).elim
      -- a picked attempt is new, and nothing of its job runs
      have hattempt : ∀ (j : ℕ) (a : Attempt), (w.threads ++ new)[j]? = some (.attempt a) →
          a.jobId = jobId →
          w.threads[j]? = some (.attempt a) ∨
            j = w.threads.length ∧ w.threads.any (busy jobId) = false := by
        intro j a ha hjob
        by_cases hj : j < w.threads.length
        · rw [List.getElem?_append_left hj] at ha
          exact .inl ha
        · rw [List.getElem?_append_right (by omega)] at ha
          have hmem := List.mem_of_getElem? ha
          cases acts with
          | called request => cases request <;> simp [Request.thread] at hmem
          | picked id entry queued waiting =>
              have hlt := lt_of_getElem? ha
              cases List.mem_singleton.mp hmem
              obtain rfl : id = jobId := hjob
              simp only [List.length_singleton] at hlt
              exact .inr ⟨by omega, by simpa [sequential] using hg⟩
          | _ => cases hmem
      have hidle : w.threads.any (busy jobId) = false → ∀ t ∈ w.threads, busy jobId t = false := by
        intro hany t ht
        simpa using List.any_eq_false.mp hany t ht
      refine ⟨?_, ?_, ?_⟩
      · intro j k a a' ha ha' hjob hjob' hruns hruns'
        have hclash : ∀ (l : ℕ) (b : Attempt), w.threads[l]? = some (.attempt b) → b.jobId = jobId →
            attemptRuns b.pc = true → w.threads.any (busy jobId) = false → False := by
          intro l b hb hbjob hbruns hany
          have hnot := hidle hany _ (List.mem_of_getElem? hb)
          simp [busy, hbjob, hbruns] at hnot
        rcases hattempt j a ha hjob with hold | ⟨rfl, hany⟩
        · rcases hattempt k a' ha' hjob' with hold' | ⟨rfl, hany⟩
          · exact h.attempts j k a a' hold hold' hjob hjob' hruns hruns'
          · exact (hclash j a hold hjob hruns hany).elim
        · rcases hattempt k a' ha' hjob' with hold' | ⟨rfl, -⟩
          · exact (hclash k a' hold' hjob' hruns' hany).elim
          · rfl
      · intro j k b b' hb hb'
        exact h.bodies j k b b' (hbody j b hb) (hbody k b' hb')
      · intro j k a b ha hb hjob hbjob hruns
        rcases hattempt j a ha hjob with hold | ⟨rfl, hany⟩
        · exact h.pair j k a b hold (hbody k b hb) hjob hbjob hruns
        · have hnot := hidle hany _ (List.mem_of_getElem? (hbody k b hb))
          simp [busy, hbjob, hruns] at hnot

end FieldNote.SoloAttempts
