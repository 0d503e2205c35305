import FieldNote.RotationRuns

/-!
# When the theft response reaches the whole chain

Presenting a revoked token revokes every row of its user that is active at that instant.
A rotation of the same user that has already passed its checks is not reached: its
transaction inserts an active row afterwards. The guard says that no such call is under
way when the update runs; then no token that descends from a row of that user is rotated
again, whatever runs later.
-/
namespace FieldNote.TheftResponse
open AuthService GuardedRuns CallPool

/-- The call has passed its checks for a row of the user and has not rotated it yet. -/
def rotationPending (userId : String) (call : RefreshCall) : Bool :=
  match call.pc with
  | .findUser record | .rotate record _ _ => record.userId = userId
  | _ => false

/-- The revoke-all update of a user runs while none of their rotations is pending. -/
def noneOvertaken (s : State) : Action → Bool
  | .stepRefresh i _ =>
      match s.refreshCalls[i]? with
      | some ⟨_, .revokeChain userId⟩ => s.refreshCalls.all fun c => !rotationPending userId c
      | _ => true
  | _ => true

/-- `h'` was obtained from `h` by zero or more logged rotations. -/
def Descends (log : List Rotation) : String → String → Prop :=
  Relation.ReflTransGen fun a b => (⟨a, b⟩ : Rotation) ∈ log

/-- The state `t` follows the response for `userId`, and `u` is later: every token that
descends from a row the user had in `t` is revoked, and it has not been rotated since. -/
def ChainDead (userId : String) (t u : State) : Prop :=
  ∀ h r, t.refreshTokens.findUnique h = some r → r.userId = userId →
    ∀ h', Descends u.rotations h h' →
      (∃ r', u.refreshTokens.findUnique h' = some r' ∧ r'.revokedAt.isSome = true) ∧
        ∀ next, ⟨h', next⟩ ∈ u.rotations → ⟨h', next⟩ ∈ t.rotations

variable {cfg : TokenService}

/-- A call holds a record of the row it presents, and a logged pair has one owner. -/
structure Owned (cfg : TokenService) (s : State) : Prop where
  call : ∀ (i : ℕ) c record, s.refreshCalls[i]? = some c →
    c.pc = .findUser record ∨ (∃ user next, c.pc = .rotate record user next) →
    ∃ r, s.refreshTokens.findUnique (cfg.hashRefreshToken c.token) = some r ∧
      r.userId = record.userId
  user : ∀ (i : ℕ) c record user next, s.refreshCalls[i]? = some c →
    c.pc = .rotate record user next → user.id = record.userId
  log : ∀ ρ ∈ s.rotations, ∃ a b, s.refreshTokens.findUnique ρ.presented = some a ∧
    s.refreshTokens.findUnique ρ.successor = some b ∧ b.userId = a.userId

theorem owned_init : Owned cfg init := by
  refine ⟨?_, ?_, ?_⟩ <;> simp [init]

theorem afterLookup_findUser {record : Option RefreshToken} {now : ℕ} {r : RefreshToken}
    (h : afterLookup record now = .findUser r) : record = some r ∧ r.revokedAt = none := by
  unfold afterLookup at h
  cases record with
  | none => cases h
  | some r' =>
      dsimp only at h
      split_ifs at h with h₁ h₂
      cases h
      exact ⟨rfl, by simpa using h₁⟩

theorem afterLookup_ne_rotate {record : Option RefreshToken} {now : ℕ} {r : RefreshToken}
    {user : User} {next : IssuedToken} : afterLookup record now ≠ .rotate r user next := by
  unfold afterLookup
  cases record with
  | none => simp
  | some r' =>
      dsimp only
      split_ifs <;> simp

/-- A call past its checks either was there before the step, at a program point that
holds the same record, or has just read an unrevoked row. -/
theorem pending_cases {s t : State} {a : Action} (hs : step cfg s a = some t) {j : ℕ}
    {c : RefreshCall} {record : RefreshToken} (hj : t.refreshCalls[j]? = some c)
    (hc : c.pc = .findUser record ∨ ∃ user next, c.pc = .rotate record user next) :
    (∃ c₀, s.refreshCalls[j]? = some c₀ ∧ c₀.token = c.token ∧
      (c₀.pc = .findUser record ∨ ∃ user next, c₀.pc = .rotate record user next)) ∨
    (s.refreshTokens.findUnique (cfg.hashRefreshToken c.token) = some record ∧
      record.revokedAt = none) := by
  cases step_calls hs with
  | same calls => exact .inl ⟨c, calls ▸ hj, rfl, hc⟩
  | started token calls =>
      rw [calls] at hj
      rcases getElem?_start_cases hj with ⟨-, rfl⟩ | ⟨-, hj⟩
      · simp at hc
      · exact .inl ⟨c, hj, rfl, hc⟩
  | moved i token pc pc' call next calls =>
      rw [calls] at hj
      rcases getElem?_set_cases hj with ⟨rfl, rfl⟩ | ⟨-, hj⟩
      · cases next with
        | lookup now =>
            rcases hc with hc | ⟨user, issued, hc⟩
            · exact .inr (afterLookup_findUser hc)
            · exact (afterLookup_ne_rotate hc).elim
        | generated record' user issued found hashed fresh =>
            have hrec : record' = record := by simpa using hc
            exact .inl ⟨_, call, rfl, .inl (hrec ▸ rfl)⟩
        | revoked userId => simp at hc
        | gone record' => simp at hc
        | committed record' user issued => simp at hc
        | signed user issued now => simp at hc
        | failed pc => simp at hc
      · exact .inl ⟨c, hj, rfl, hc⟩

theorem owned_step {s t : State} {a : Action} (h : Owned cfg s)
    (hs : step cfg s a = some t) : Owned cfg t := by
  refine ⟨?_, ?_, ?_⟩
  · intro j c record hj hc
    have hrow : ∃ r, s.refreshTokens.findUnique (cfg.hashRefreshToken c.token) = some r ∧
        r.userId = record.userId := by
      rcases pending_cases hs hj hc with ⟨c₀, hj₀, htok, hc₀⟩ | ⟨hr, -⟩
      · exact htok ▸ h.call j c₀ record hj₀ hc₀
      · exact ⟨record, hr, rfl⟩
    obtain ⟨r, hr, hu⟩ := hrow
    obtain ⟨r', hr', hu', -⟩ := step_row hs hr
    exact ⟨r', hr', hu'.trans hu⟩
  · intro j c record user issued hj hc
    cases step_calls hs with
    | same calls => exact h.user j c record user issued (calls ▸ hj) hc
    | started token calls =>
        rw [calls] at hj
        rcases getElem?_start_cases hj with ⟨-, rfl⟩ | ⟨-, hj⟩
        · cases hc
        · exact h.user j c record user issued hj hc
    | moved i token pc pc' call next calls =>
        rw [calls] at hj
        rcases getElem?_set_cases hj with ⟨rfl, rfl⟩ | ⟨-, hj⟩
        · cases next with
          | lookup now => exact (afterLookup_ne_rotate hc).elim
          | generated record' user' issued' found hashed fresh =>
              cases hc
              exact Table.findUnique_key found
          | _ => cases hc
        · exact h.user j c record user issued hj hc
  · intro ρ hρ
    have hold : ρ ∈ s.rotations → ∃ a b, t.refreshTokens.findUnique ρ.presented = some a ∧
        t.refreshTokens.findUnique ρ.successor = some b ∧ b.userId = a.userId := by
      intro hmem
      obtain ⟨x, y, hx, hy, hxy⟩ := h.log ρ hmem
      obtain ⟨x', hx', hux, -⟩ := step_row hs hx
      obtain ⟨y', hy', huy, -⟩ := step_row hs hy
      exact ⟨x', y', hx', hy', huy.trans (hxy.trans hux.symm)⟩
    cases step_effect hs with
    | same table log => exact hold (log ▸ hρ)
    | revoked i env token userId action call table log calls => exact hold (log ▸ hρ)
    | created user next table log => exact hold (log ▸ hρ)
    | rotated i env token record user next action call table log calls =>
        rw [log] at hρ
        rcases List.mem_cons.mp hρ with rfl | hmem
        · obtain ⟨r, hr, hu⟩ := h.call i _ record call (.inr ⟨user, next, rfl⟩)
          obtain ⟨r', hr', hu', -⟩ := step_row hs hr
          refine ⟨r', newRow user next, hr', ?_, ?_⟩
          · exact (RefreshTable.findUnique_rotate table next.hash).trans (if_pos rfl)
          · exact (h.user i _ record user next call rfl).trans (hu'.trans hu).symm
        · exact hold hmem

theorem owned_run {s : State} (h : Run (step cfg) anyStep init s) : Owned cfg s :=
  h.invariant owned_init fun _ _ _ hi _ hs => owned_step hi hs

/-- The rows `H` are revoked for good: no call is about to rotate one of them, and the
log holds no rotation of one of them beyond those in `log`. -/
structure Sealed (cfg : TokenService) (H : String → Prop) (log : List Rotation)
    (s : State) : Prop where
  revoked : ∀ h, H h → ∃ r, s.refreshTokens.findUnique h = some r ∧ r.revokedAt.isSome = true
  idle : ∀ (i : ℕ) c record, s.refreshCalls[i]? = some c → H (cfg.hashRefreshToken c.token) →
    ¬ (c.pc = .findUser record ∨ ∃ user next, c.pc = .rotate record user next)
  log : ∀ ρ ∈ s.rotations, H ρ.presented → ρ ∈ log ∧ H ρ.successor

theorem sealed_step {H : String → Prop} {log : List Rotation} {s t : State} {a : Action}
    (h : Sealed cfg H log s) (hs : step cfg s a = some t) : Sealed cfg H log t := by
  refine ⟨?_, ?_, ?_⟩
  · intro k hk
    obtain ⟨r, hr, hv⟩ := h.revoked k hk
    obtain ⟨r', hr', -, hv'⟩ := step_row hs hr
    exact ⟨r', hr', hv' hv⟩
  · intro j c record hj hk hc
    rcases pending_cases hs hj hc with ⟨c₀, hj₀, htok, hc₀⟩ | ⟨hr, hn⟩
    · exact h.idle j c₀ record hj₀ (htok ▸ hk) hc₀
    · obtain ⟨r, hr', hv⟩ := h.revoked _ hk
      rw [hr] at hr'
      cases hr'
      simp [hn] at hv
  · intro ρ hρ hk
    cases step_effect hs with
    | same table log => exact h.log ρ (log ▸ hρ) hk
    | revoked i env token userId action call table log calls => exact h.log ρ (log ▸ hρ) hk
    | created user next table log => exact h.log ρ (log ▸ hρ) hk
    | rotated i env token record user next action call table log calls =>
        rw [log] at hρ
        rcases List.mem_cons.mp hρ with rfl | hρ
        · exact (h.idle i _ record call hk (.inr ⟨user, next, rfl⟩)).elim
        · exact h.log ρ hρ hk

/-- The response itself seals all rows the user has. -/
theorem sealed_response {s t : State} {i : ℕ} {env : Env} {token userId : String}
    (h : Owned cfg s) (hcall : s.refreshCalls[i]? = some ⟨token, .revokeChain userId⟩)
    (hg : noneOvertaken s (.stepRefresh i env) = true)
    (hs : step cfg s (.stepRefresh i env) = some t) :
    Sealed cfg (fun h => ∃ r, t.refreshTokens.findUnique h = some r ∧ r.userId = userId)
      t.rotations t := by
  have ht := owned_step h hs
  have heff : t.refreshTokens = s.refreshTokens.revokeActive userId env.now ∧
      t.refreshCalls = s.refreshCalls.set i ⟨token, .rejected .alreadyUsed⟩ := by
    simp only [step, hcall, Option.bind_some, stepRefresh, Option.some.injEq] at hs
    subst hs
    exact ⟨rfl, rfl⟩
  refine ⟨?_, ?_, ?_⟩
  · rintro k ⟨r, hr, hu⟩
    refine ⟨r, hr, ?_⟩
    rw [heff.1, RefreshTable.findUnique_revokeActive] at hr
    obtain ⟨r₀, hr₀, rfl⟩ := Option.map_eq_some_iff.mp hr
    split_ifs at hu ⊢ with hsel
    · rfl
    · exact Option.isSome_iff_ne_none.mpr fun hn => hsel ⟨hu, hn⟩
  · rintro j c record hj ⟨r, hr, hu⟩ hc
    obtain ⟨r', hr', hu'⟩ := ht.call j c record hj hc
    rw [hr] at hr'
    cases hr'
    rw [heff.2] at hj
    rcases getElem?_set_cases hj with ⟨-, rfl⟩ | ⟨-, hj⟩
    · simp at hc
    · simp only [noneOvertaken, hcall, List.all_eq_true] at hg
      have hpend := hg c (List.mem_of_getElem? hj)
      rcases hc with hc | ⟨user, next, hc⟩ <;> simp [rotationPending, hc, ← hu', hu] at hpend
  · rintro ρ hρ ⟨r, hr, hu⟩
    obtain ⟨x, y, hx, hy, hxy⟩ := ht.log ρ hρ
    rw [hr] at hx
    cases hx
    exact ⟨hρ, y, hy, hxy.trans hu⟩

theorem Sealed.descends {H : String → Prop} {log : List Rotation} {s : State}
    (h : Sealed cfg H log s) {a b : String} (ha : H a) (hd : Descends s.rotations a b) :
    H b := by
  induction hd with
  | refl => exact ha
  | tail _ hstep ih => exact (h.log _ hstep ih).2

/-- A theft response that overtakes no pending rotation kills the user's chains: at every
later state each token that descends from a row the user had is revoked and has not been
rotated since the response. -/
theorem theft_response_complete (cfg : TokenService) {s t u : State} {i : ℕ} {env : Env}
    {token userId : String} (hs : Run (step cfg) anyStep init s)
    (hcall : s.refreshCalls[i]? = some ⟨token, .revokeChain userId⟩)
    (hg : noneOvertaken s (.stepRefresh i env) = true)
    (ht : step cfg s (.stepRefresh i env) = some t) (hu : Run (step cfg) anyStep t u) :
    ChainDead userId t u := by
  have hsealed := hu.invariant (sealed_response (owned_run hs) hcall hg ht)
    fun _ _ _ hi _ hstep => sealed_step hi hstep
  intro h r hr hown h' hd
  have hh' := hsealed.descends ⟨r, hr, hown⟩ hd
  exact ⟨hsealed.revoked h' hh', fun next hnext => (hsealed.log _ hnext hh').1⟩

/-- `token-1` was rotated to `token-2` by call 0; then call 1 presents `token-1` again. -/
def replaySchedule : List Action :=
  RotationRuns.signInSchedule ++ RotationRuns.refreshSchedule ++
    [.refresh "token-1", .stepRefresh 1 {}]

/-- The replay of `token-1` arrives while call 1 has read `token-2` and not yet rotated it. -/
def overtakenSchedule : List Action :=
  RotationRuns.signInSchedule ++ RotationRuns.refreshSchedule ++
    [.refresh "token-2", .stepRefresh 1 {}, .stepRefresh 1 { random := "token-3" },
      .refresh "token-1", .stepRefresh 2 {}]

theorem theft_response_complete_demo :
    ∃ s t, Run (step RotationRuns.demo) anyStep init s ∧
      step RotationRuns.demo s (.stepRefresh 1 {}) = some t ∧ t.rotations.length = 1 ∧
        ChainDead "user-1" t t := by
  have hend : (exec (step RotationRuns.demo) replaySchedule init).any (fun s =>
      decide (s.refreshCalls[1]? = some ⟨"token-1", .revokeChain "user-1"⟩) &&
        (noneOvertaken s (.stepRefresh 1 {}) &&
          (step RotationRuns.demo s (.stepRefresh 1 {})).any
            fun t => t.rotations.length = 1)) = true := by decide
  obtain ⟨s, hs, hp⟩ := exec_any hend
  simp only [Bool.and_eq_true, decide_eq_true_eq] at hp
  obtain ⟨hcall, hg, ht⟩ := hp
  obtain ⟨t, ht, hlen⟩ := (Option.any_eq_true _ _).mp ht
  exact ⟨s, t, hs, ht, of_decide_eq_true hlen,
    theft_response_complete RotationRuns.demo hs hcall hg ht (Run.refl t)⟩

/-- A rotation that is overtaken by the response commits afterwards and leaves a live
descendant of the replayed token. -/
theorem overtaken_rotation_survives :
    ¬ ∀ (cfg : TokenService) (s t u : State) (i : ℕ) (env : Env) (token userId : String),
      Run (step cfg) anyStep init s →
        s.refreshCalls[i]? = some ⟨token, .revokeChain userId⟩ →
          step cfg s (.stepRefresh i env) = some t → Run (step cfg) anyStep t u →
            ChainDead userId t u := by
  intro h
  have hend : (exec (step RotationRuns.demo) overtakenSchedule init).any (fun s =>
      decide (s.refreshCalls[2]? = some ⟨"token-1", .revokeChain "user-1"⟩) &&
        (step RotationRuns.demo s (.stepRefresh 2 {})).any fun t =>
          (t.refreshTokens.findUnique "hmac:token-2").any (fun r => r.userId = "user-1") &&
            (step RotationRuns.demo t (.stepRefresh 1 {})).any fun u =>
              decide (⟨"hmac:token-2", "hmac:token-3"⟩ ∈ u.rotations ∧
                ⟨"hmac:token-2", "hmac:token-3"⟩ ∉ t.rotations)) = true := by decide
  obtain ⟨s, hs, hp⟩ := exec_any hend
  simp only [Bool.and_eq_true, decide_eq_true_eq] at hp
  obtain ⟨hcall, hp⟩ := hp
  obtain ⟨t, ht, hp⟩ := (Option.any_eq_true _ _).mp hp
  obtain ⟨hrow, hp⟩ := (Bool.and_eq_true _ _).mp hp
  obtain ⟨r, hr, hown⟩ := (Option.any_eq_true _ _).mp hrow
  obtain ⟨u, hu, hlog⟩ := (Option.any_eq_true _ _).mp hp
  have hdead := h _ s t u 2 {} _ _ hs hcall ht (Run.single trivial hu)
  exact (of_decide_eq_true hlog).2 ((hdead _ r hr (of_decide_eq_true hown) _
    Relation.ReflTransGen.refl).2 _ (of_decide_eq_true hlog).1)

end FieldNote.TheftResponse
