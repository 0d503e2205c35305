import FieldNote.AuthService
import FieldNote.CallPool
import FieldNote.GuardedRuns

/-!
# The refresh tokens that calls issue

A refresh and a sign-in issue their token in the same three stages: it is generated, its row
is stored, and the call answers with it. No two calls ever hold tokens of one hash, and from
the second stage on the row of the token is in the table. This needs no guard: a double
rotation issues two tokens for one row, but never one token twice.
-/
namespace FieldNote.IssuedTokens
open AuthService GuardedRuns CallPool

/-- A call of the service, by its position in its pool. -/
inductive ServerCall where
  | refresh (i : ℕ)
  | signIn (i : ℕ)
deriving DecidableEq, Repr

/-- How far a call has come with the token it issues. -/
inductive Issue where
  | generated (next : IssuedToken)
  | stored (next : IssuedToken)
  | answered (response : TokenResponse)
deriving DecidableEq, Repr

def Issue.token : Issue → String
  | .generated next | .stored next => next.token
  | .answered response => response.refreshToken

/-- The row of the token has been created. -/
def Issue.committed : Issue → Bool
  | .generated _ => false
  | .stored _ | .answered _ => true

def refreshIssue : RefreshPc → Option Issue
  | .rotate _ _ next => some (.generated next)
  | .issueAccess _ next => some (.stored next)
  | .returned response => some (.answered response)
  | _ => none

def signInIssue : SignInPc → Option Issue
  | .createToken _ next => some (.generated next)
  | .issueAccess _ next => some (.stored next)
  | .returned response => some (.answered response)
  | _ => none

def issue (s : State) : ServerCall → Option Issue
  | .refresh i => s.refreshCalls[i]?.bind fun call => refreshIssue call.pc
  | .signIn i => s.signInCalls[i]?.bind signInIssue

/-- What one segment can do to the token its call issues. -/
inductive IssueMove (cfg : TokenService) (s t : State) : Option Issue → Option Issue → Prop where
  | kept (x : Option Issue) : IssueMove cfg s t x x
  | failed (x : Option Issue) (live : ∀ response, x ≠ some (.answered response)) :
      IssueMove cfg s t x none
  | generated (next : IssuedToken) (hashed : next.hash = cfg.hashRefreshToken next.token)
      (fresh : next.hash ∉ s.generated) (listed : next.hash ∈ t.generated) :
      IssueMove cfg s t none (some (.generated next))
  | stored (next : IssuedToken) (row : RefreshToken)
      (free : s.refreshTokens.findUnique next.hash = none)
      (created : t.refreshTokens.findUnique next.hash = some row)
      (active : row.revokedAt = none) :
      IssueMove cfg s t (some (.generated next)) (some (.stored next))
  | answered (next : IssuedToken) (response : TokenResponse)
      (token : response.refreshToken = next.token) :
      IssueMove cfg s t (some (.stored next)) (some (.answered response))

/-- One call moves; the other calls keep what they hold. -/
structure IssueStep (cfg : TokenService) (s t : State) : Prop where
  generated : ∀ x ∈ s.generated, x ∈ t.generated
  signIns : s.signInCalls.length ≤ t.signInCalls.length
  moved : ∃ k, (∀ k', k' ≠ k → issue t k' = issue s k') ∧
    IssueMove cfg s t (issue s k) (issue t k)

/-- What holds of the issued tokens in every state that the service can reach. -/
structure Ledger (cfg : TokenService) (s : State) : Prop where
  hashed : ∀ k next, issue s k = some (.generated next) ∨ issue s k = some (.stored next) →
    next.hash = cfg.hashRefreshToken next.token
  listed : ∀ k x, issue s k = some x → cfg.hashRefreshToken x.token ∈ s.generated
  distinct : ∀ k k' x y, issue s k = some x → issue s k' = some y →
    cfg.hashRefreshToken x.token = cfg.hashRefreshToken y.token → k = k'
  row : ∀ k x, issue s k = some x → x.committed = true →
    ∃ r, s.refreshTokens.findUnique (cfg.hashRefreshToken x.token) = some r
  rotated : ∀ ρ ∈ s.rotations, ∃ r, s.refreshTokens.findUnique ρ.presented = some r ∧
    r.revokedAt.isSome = true

variable {cfg : TokenService} {s t : State}

theorem ledger_init : Ledger cfg init := by
  have hno : ∀ k, issue init k = none := by
    intro k
    cases k <;> rfl
  refine ⟨?_, ?_, ?_, ?_, ?_⟩
  · rintro k next (h | h) <;> simp [hno] at h
  · intro k x h
    simp [hno] at h
  · intro k k' x y h
    simp [hno] at h
  · intro k x h
    simp [hno] at h
  · intro ρ hρ
    cases hρ

/-- A refresh call is answered at another program point. -/
theorem refresh_moved {i : ℕ} {token : String} {pc pc' : RefreshPc}
    (hi : s.refreshCalls[i]? = some ⟨token, pc⟩)
    (hcalls : t.refreshCalls = s.refreshCalls.set i ⟨token, pc'⟩)
    (hsign : t.signInCalls = s.signInCalls) (hgen : ∀ x ∈ s.generated, x ∈ t.generated)
    (hmove : IssueMove cfg s t (refreshIssue pc) (refreshIssue pc')) : IssueStep cfg s t := by
  refine ⟨hgen, by simp [hsign], .refresh i, ?_, ?_⟩
  · intro k hk
    cases k with
    | refresh j =>
        have hji : j ≠ i := fun h => hk (h ▸ rfl)
        simp only [issue, hcalls, getElem?_set_other hji]
    | signIn j => simp only [issue, hsign]
  · have hnew : t.refreshCalls[i]? = some ⟨token, pc'⟩ := by
      rw [hcalls]
      exact getElem?_set_same hi
    simpa only [issue, hi, hnew, Option.bind_some] using hmove

theorem signIn_moved {i : ℕ} {pc pc' : SignInPc} (hi : s.signInCalls[i]? = some pc)
    (hcalls : t.signInCalls = s.signInCalls.set i pc')
    (hrefresh : t.refreshCalls = s.refreshCalls) (hgen : ∀ x ∈ s.generated, x ∈ t.generated)
    (hmove : IssueMove cfg s t (signInIssue pc) (signInIssue pc')) : IssueStep cfg s t := by
  refine ⟨hgen, by simp [hcalls], .signIn i, ?_, ?_⟩
  · intro k hk
    cases k with
    | refresh j => simp only [issue, hrefresh]
    | signIn j =>
        have hji : j ≠ i := fun h => hk (h ▸ rfl)
        simp only [issue, hcalls, getElem?_set_other hji]
  · have hnew : t.signInCalls[i]? = some pc' := by
      rw [hcalls]
      exact getElem?_set_same hi
    simpa only [issue, hi, hnew, Option.bind_some] using hmove

theorem refreshIssue_afterLookup (record : Option RefreshToken) (now : ℕ) :
    refreshIssue (afterLookup record now) = none := by
  unfold afterLookup
  cases record with
  | none => rfl
  | some r =>
      dsimp only
      split_ifs <;> rfl

theorem stepRefresh_issue {i : ℕ} {env : Env} {call : RefreshCall}
    (hi : s.refreshCalls[i]? = some call) (hs : stepRefresh cfg s i env call = some t) :
    IssueStep cfg s t := by
  rcases call with ⟨token, pc⟩
  cases pc with
  | findUnique =>
      cases hs
      refine refresh_moved hi rfl rfl (fun _ h => h) ?_
      rw [refreshIssue_afterLookup]
      exact .kept none
  | revokeChain userId =>
      cases hs
      exact refresh_moved hi rfl rfl (fun _ h => h) (.kept none)
  | findUser record =>
      simp only [stepRefresh] at hs
      split at hs
      · cases hs
        exact refresh_moved hi rfl rfl (fun _ h => h) (.kept none)
      · split_ifs at hs with hfresh
        cases hs
        exact refresh_moved hi rfl rfl (fun _ => List.mem_cons_of_mem _)
          (.generated _ rfl hfresh List.mem_cons_self)
  | rotate record user next =>
      simp only [stepRefresh] at hs
      split at hs
      · cases hs
        exact refresh_moved hi rfl rfl (fun _ h => h) (.failed _ (by simp [refreshIssue]))
      · rename_i table htable
        cases hs
        have hrow : table.findUnique next.hash = some (newRow user next) := by
          rw [RefreshTable.findUnique_rotate htable]
          exact if_pos rfl
        exact refresh_moved hi rfl rfl (fun _ h => h)
          (.stored next _ (RefreshTable.rotate_presented htable).2 hrow rfl)
  | issueAccess user next =>
      cases hs
      exact refresh_moved hi rfl rfl (fun _ h => h) (.answered next _ rfl)
  | returned response => cases hs
  | rejected error => cases hs

theorem stepSignIn_issue {i : ℕ} {env : Env} {pc : SignInPc} (hi : s.signInCalls[i]? = some pc)
    (hs : stepSignIn cfg s i env pc = some t) : IssueStep cfg s t := by
  cases pc with
  | verify email =>
      simp only [stepSignIn] at hs
      split at hs <;> cases hs <;> exact signIn_moved hi rfl rfl (fun _ h => h) (.kept none)
  | upsert identity email =>
      simp only [stepSignIn] at hs
      split at hs
      · cases hs
        exact signIn_moved hi rfl rfl (fun _ h => h) (.kept none)
      · split_ifs at hs with hfresh
        cases hs
        exact signIn_moved hi rfl rfl (fun _ => List.mem_cons_of_mem _)
          (.generated _ rfl hfresh List.mem_cons_self)
  | createToken user next =>
      simp only [stepSignIn] at hs
      split at hs
      · cases hs
        exact signIn_moved hi rfl rfl (fun _ h => h) (.failed _ (by simp [signInIssue]))
      · rename_i table htable
        cases hs
        have hrow : table.findUnique next.hash = some (newRow user next) := by
          rw [Table.create_findUnique htable]
          exact if_pos rfl
        exact signIn_moved hi rfl rfl (fun _ h => h)
          (.stored next _ (Table.create_eq_some htable).1 hrow rfl)
  | issueAccess user next =>
      cases hs
      exact signIn_moved hi rfl rfl (fun _ h => h) (.answered next _ rfl)
  | returned response => cases hs
  | rejected error => cases hs

theorem step_issue {a : Action} (hs : step cfg s a = some t) : IssueStep cfg s t := by
  cases a with
  | refresh token =>
      cases hs
      refine ⟨fun _ h => h, Nat.le_refl _, .refresh s.refreshCalls.length, ?_, ?_⟩
      · intro k hk
        cases k with
        | refresh j =>
            have hj : j ≠ s.refreshCalls.length := fun h => hk (h ▸ rfl)
            simp only [issue, getElem?_start_other hj]
        | signIn j => rfl
      · have hnew : issue { s with refreshCalls := s.refreshCalls ++ [⟨token, .findUnique⟩] }
            (.refresh s.refreshCalls.length) = none := by simp [issue, refreshIssue]
        have hold : issue s (.refresh s.refreshCalls.length) = none := by simp [issue]
        rw [hnew, hold]
        exact .kept none
  | signIn email =>
      cases hs
      refine ⟨fun _ h => h, by simp, .signIn s.signInCalls.length, ?_, ?_⟩
      · intro k hk
        cases k with
        | refresh j => rfl
        | signIn j =>
            have hj : j ≠ s.signInCalls.length := fun h => hk (h ▸ rfl)
            simp only [issue, getElem?_start_other hj]
      · have hnew : issue { s with signInCalls := s.signInCalls ++ [.verify email] }
            (.signIn s.signInCalls.length) = none := by simp [issue, signInIssue]
        have hold : issue s (.signIn s.signInCalls.length) = none := by simp [issue]
        rw [hnew, hold]
        exact .kept none
  | stepRefresh i env =>
      obtain ⟨call, hi, hs⟩ := Option.bind_eq_some_iff.mp hs
      exact stepRefresh_issue hi hs
  | stepSignIn i env =>
      obtain ⟨pc, hi, hs⟩ := Option.bind_eq_some_iff.mp hs
      exact stepSignIn_issue hi hs
  | failRefresh i =>
      obtain ⟨⟨token, pc⟩, hi, hs⟩ := Option.bind_eq_some_iff.mp hs
      split at hs
      · cases hs
      · cases hs
      · rename_i hreturned hrejected
        cases hs
        refine refresh_moved hi rfl rfl (fun _ h => h) (.failed _ ?_)
        intro response hx
        cases pc <;> simp [refreshIssue] at hx
        exact hreturned _ rfl
  | failSignIn i =>
      obtain ⟨pc, hi, hs⟩ := Option.bind_eq_some_iff.mp hs
      split at hs
      · cases hs
      · cases hs
      · rename_i hreturned hrejected
        cases hs
        refine signIn_moved hi rfl rfl (fun _ h => h) (.failed _ ?_)
        intro response hx
        cases pc <;> simp [signInIssue] at hx
        exact hreturned _ rfl

/-- A call that has answered holds its answer for good. -/
theorem answered_kept {k : ServerCall} {response : TokenResponse} (h : IssueStep cfg s t)
    (hk : issue s k = some (.answered response)) : issue t k = some (.answered response) := by
  obtain ⟨k₀, hother, hmove⟩ := h.moved
  by_cases he : k = k₀
  · subst he
    rw [hk] at hmove
    generalize issue t k = y at hmove
    cases hmove with
    | kept => rfl
    | failed x live => exact (live response rfl).elim
  · rw [hother k he]
    exact hk

/-- A token that a call holds was held by it before, or has just been generated. -/
theorem issue_before (h : IssueStep cfg s t) {k : ServerCall} {x : Issue}
    (hk : issue t k = some x) :
    (∃ y, issue s k = some y ∧ y.token = x.token) ∨
      cfg.hashRefreshToken x.token ∉ s.generated ∧ cfg.hashRefreshToken x.token ∈ t.generated := by
  obtain ⟨k₀, hother, hmove⟩ := h.moved
  by_cases he : k = k₀
  · subst he
    rw [hk] at hmove
    generalize hy : issue s k = y at hmove
    cases hmove with
    | kept => exact .inl ⟨x, rfl, rfl⟩
    | generated next hashed fresh listed => exact .inr ⟨hashed ▸ fresh, hashed ▸ listed⟩
    | stored next row free created active => exact .inl ⟨_, rfl, rfl⟩
    | answered next response token => exact .inl ⟨_, rfl, token.symm⟩
  · rw [hother k he] at hk
    exact .inl ⟨x, hk, rfl⟩

/-- A token with a row had one before, or its row has just been created. -/
theorem committed_before (hs : Ledger cfg s) (h : IssueStep cfg s t) {k : ServerCall} {x : Issue}
    (hk : issue t k = some x) (hx : x.committed = true) :
    (∃ y, issue s k = some y ∧ y.committed = true ∧ y.token = x.token) ∨
      s.refreshTokens.findUnique (cfg.hashRefreshToken x.token) = none ∧
        ∃ r, t.refreshTokens.findUnique (cfg.hashRefreshToken x.token) = some r ∧
          r.revokedAt = none := by
  obtain ⟨k₀, hother, hmove⟩ := h.moved
  by_cases he : k = k₀
  · subst he
    rw [hk] at hmove
    generalize hy : issue s k = y at hmove
    cases hmove with
    | kept => exact .inl ⟨x, rfl, hx, rfl⟩
    | generated next hashed fresh listed => cases hx
    | stored next row free created active =>
        have hhash := hs.hashed k next (.inl hy)
        exact .inr ⟨hhash ▸ free, row, hhash ▸ created, active⟩
    | answered next response token => exact .inl ⟨_, rfl, rfl, token.symm⟩
  · rw [hother k he] at hk
    exact .inl ⟨x, hk, hx, rfl⟩

theorem hashed_step (h : Ledger cfg s) (hissue : IssueStep cfg s t) {k : ServerCall}
    {next : IssuedToken}
    (hk : issue t k = some (.generated next) ∨ issue t k = some (.stored next)) :
    next.hash = cfg.hashRefreshToken next.token := by
  obtain ⟨k₀, hother, hmove⟩ := hissue.moved
  by_cases he : k = k₀
  · subst he
    generalize hx : issue s k = x at hmove
    generalize issue t k = y at hmove hk
    cases hmove with
    | kept => exact h.hashed k next (hx ▸ hk)
    | failed => simp at hk
    | generated next' hashed fresh listed =>
        have he : next' = next := by simpa using hk
        exact he ▸ hashed
    | stored next' row free created active =>
        have he : next' = next := by simpa using hk
        exact h.hashed k next (.inl (he ▸ hx))
    | answered => simp at hk
  · rw [hother k he] at hk
    exact h.hashed k next hk

theorem rotated_step {a : Action} (h : Ledger cfg s) (hs : step cfg s a = some t) {ρ : Rotation}
    (hρ : ρ ∈ t.rotations) : ∃ r, t.refreshTokens.findUnique ρ.presented = some r ∧
      r.revokedAt.isSome = true := by
  have hold : ρ ∈ s.rotations → ∃ r, t.refreshTokens.findUnique ρ.presented = some r ∧
      r.revokedAt.isSome = true := by
    intro hmem
    obtain ⟨r, hr, hrev⟩ := h.rotated ρ hmem
    obtain ⟨r', hr', -, hkeep⟩ := step_row hs hr
    exact ⟨r', hr', hkeep hrev⟩
  cases step_effect hs with
  | same table log => exact hold (log ▸ hρ)
  | revoked i env token userId action call table log calls => exact hold (log ▸ hρ)
  | created user next table log => exact hold (log ▸ hρ)
  | rotated i env token record user next action call table log calls =>
      rw [log] at hρ
      rcases List.mem_cons.mp hρ with rfl | hρ
      · obtain ⟨⟨r, hr⟩, hfree⟩ := RefreshTable.rotate_presented table
        have hne : cfg.hashRefreshToken token ≠ (newRow user next).tokenHash := by
          intro he
          rw [he, hfree] at hr
          cases hr
        rw [RefreshTable.findUnique_rotate table, if_neg hne, if_pos rfl, hr]
        exact ⟨_, rfl, rfl⟩
      · exact hold hρ

theorem ledger_step {a : Action} (h : Ledger cfg s) (hs : step cfg s a = some t) :
    Ledger cfg t := by
  have hissue := step_issue hs
  refine ⟨fun k next => hashed_step h hissue, ?_, ?_, ?_, fun ρ => rotated_step h hs⟩
  · intro k x hk
    rcases issue_before hissue hk with ⟨y, hy, htoken⟩ | ⟨-, hlisted⟩
    · exact hissue.generated _ (htoken ▸ h.listed k y hy)
    · exact hlisted
  · intro k k' x y hk hk' hhash
    by_contra hne
    obtain ⟨k₀, hother, -⟩ := hissue.moved
    -- one of the two calls did not move, so its token is an old one
    rcases issue_before hissue hk with ⟨x', hx', hxt⟩ | ⟨hfresh, -⟩
    · rcases issue_before hissue hk' with ⟨y', hy', hyt⟩ | ⟨hfresh, -⟩
      · exact hne (h.distinct k k' x' y' hx' hy' (by rw [hxt, hyt, hhash]))
      · exact hfresh (hhash ▸ hxt ▸ h.listed k x' hx')
    · rcases issue_before hissue hk' with ⟨y', hy', hyt⟩ | ⟨hfresh', -⟩
      · exact hfresh (hhash ▸ hyt ▸ h.listed k' y' hy')
      · have hmoved : ∀ k₁ z, issue t k₁ = some z → cfg.hashRefreshToken z.token ∉ s.generated →
            k₁ = k₀ := by
          intro k₁ z hz hnew
          by_contra he
          rw [hother k₁ he] at hz
          exact hnew (h.listed k₁ z hz)
        exact hne ((hmoved k x hk hfresh).trans (hmoved k' y hk' hfresh').symm)
  · intro k x hk hx
    rcases committed_before h hissue hk hx with ⟨y, hy, hcommitted, htoken⟩ | ⟨-, r, hr, -⟩
    · obtain ⟨r, hr⟩ := h.row k y hy hcommitted
      obtain ⟨r', hr', -⟩ := step_row hs hr
      exact ⟨r', htoken ▸ hr'⟩
    · exact ⟨r, hr⟩

theorem ledger_run (h : Run (step cfg) anyStep init s) : Ledger cfg s :=
  h.invariant ledger_init fun _ _ _ hi _ hs => ledger_step hi hs

end FieldNote.IssuedTokens
