import FieldNote.AuthService
import FieldNote.CallPool
import FieldNote.GuardedRuns

/-!
# When a refresh token is rotated at most once

The rotation transaction selects its row by hash only, so between a call's lookup and its
transaction another call may have rotated the same row. The guard below says that this
did not happen: the row still carries the link the call's own lookup read. Under it every
row is rotated once, in every interleaving of any number of calls; a step that violates
it rotates a row a second time.
-/
namespace FieldNote.RotationRuns
open AuthService GuardedRuns CallPool

variable (cfg : TokenService)

/-- Whether the call has received a new pair. -/
def isReturned (call : RefreshCall) : Bool :=
  match call.pc with
  | .returned _ => true
  | _ => false

/-- No row is rotated twice and no token is exchanged twice. -/
structure SingleUse (s : State) : Prop where
  rotated : (s.rotations.map Rotation.presented).Nodup
  returned : ∀ (i j : ℕ) a b, s.refreshCalls[i]? = some a → s.refreshCalls[j]? = some b →
    cfg.hashRefreshToken a.token = cfg.hashRefreshToken b.token →
    isReturned a = true → isReturned b = true → i = j

/-- A link that is set in the earlier state is the same in the later one. -/
def LinksKept (s t : State) : Prop :=
  ∀ h r next, s.refreshTokens.findUnique h = some r → r.replacedByTokenHash = some next →
    ∃ r', t.refreshTokens.findUnique h = some r' ∧ r'.replacedByTokenHash = some next

/-- A rotation transaction finds its row with the link that the call's lookup read. -/
def linkUnchanged (s : State) : Action → Bool
  | .stepRefresh i _ =>
      match s.refreshCalls[i]? with
      | some ⟨token, .rotate record _ _⟩ =>
          match s.refreshTokens.findUnique (cfg.hashRefreshToken token) with
          | some row => row.replacedByTokenHash = record.replacedByTokenHash
          | none => true
      | _ => true
  | _ => true

def Guard (s : State) (a : Action) : Prop := linkUnchanged cfg s a = true

instance : DecidableRel (Guard cfg) := fun _ _ => inferInstanceAs (Decidable (_ = true))

/-- The hash of the successor a call has generated, once it has one. -/
def held (call : RefreshCall) : Option String :=
  match call.pc with
  | .rotate _ _ next | .issueAccess _ next => some (cfg.hashRefreshToken next.token)
  | .returned response => some (cfg.hashRefreshToken response.refreshToken)
  | _ => none

/-- What the suspended locals of a call say about the tables and the log. -/
def CallOk (s : State) (call : RefreshCall) : Prop :=
  match call.pc with
  | .findUser record => record.replacedByTokenHash = none
  | .rotate record _ next => record.replacedByTokenHash = none ∧
      next.hash = cfg.hashRefreshToken next.token ∧ next.hash ∈ s.generated
  | .issueAccess _ next => next.hash = cfg.hashRefreshToken next.token ∧
      next.hash ∈ s.generated ∧ ⟨cfg.hashRefreshToken call.token, next.hash⟩ ∈ s.rotations
  | .returned response => cfg.hashRefreshToken response.refreshToken ∈ s.generated ∧
      ⟨cfg.hashRefreshToken call.token, cfg.hashRefreshToken response.refreshToken⟩ ∈
        s.rotations
  | _ => True

/-- The log records exactly the links of the table, and a linked row is revoked. -/
structure TableOk (t : RefreshTable) (log : List Rotation) : Prop where
  linked_revoked : ∀ h r, t.findUnique h = some r → r.revokedAt = none →
    r.replacedByTokenHash = none
  logged_linked : ∀ ρ ∈ log, ∃ r, t.findUnique ρ.presented = some r ∧
    r.replacedByTokenHash = some ρ.successor
  linked_logged : ∀ h r next, t.findUnique h = some r → r.replacedByTokenHash = some next →
    ⟨h, next⟩ ∈ log

structure Inv (s : State) : Prop where
  table : TableOk s.refreshTokens s.rotations
  rotated : (s.rotations.map Rotation.presented).Nodup
  call : ∀ (i : ℕ) c, s.refreshCalls[i]? = some c → CallOk cfg s c
  distinct : ∀ (i j : ℕ) a b n, s.refreshCalls[i]? = some a → s.refreshCalls[j]? = some b →
    held cfg a = some n → held cfg b = some n → i = j

theorem inv_init : Inv cfg init := by
  refine ⟨⟨?_, ?_, ?_⟩, ?_, ?_, ?_⟩ <;> simp [init]

variable {cfg}

theorem CallOk.mono {s t : State} {c : RefreshCall} (h : CallOk cfg s c)
    (hg : ∀ x ∈ s.generated, x ∈ t.generated) (hr : ∀ ρ ∈ s.rotations, ρ ∈ t.rotations) :
    CallOk cfg t c := by
  unfold CallOk at h ⊢
  split at h
  · exact h
  · exact ⟨h.1, h.2.1, hg _ h.2.2⟩
  · exact ⟨h.1, hg _ h.2.1, hr _ h.2.2⟩
  · exact ⟨hg _ h.1, hr _ h.2⟩
  · trivial

theorem CallOk.held_generated {s : State} {c : RefreshCall} {n : String}
    (h : CallOk cfg s c) (hn : held cfg c = some n) : n ∈ s.generated := by
  rcases c with ⟨token, pc⟩
  cases pc <;> simp only [held, CallOk, reduceCtorEq, Option.some.injEq] at h hn
  · exact hn ▸ h.2.1 ▸ h.2.2
  · exact hn ▸ h.1 ▸ h.2.1
  · exact hn ▸ h.1

theorem TableOk.revokeActive {t : RefreshTable} {log : List Rotation} (h : TableOk t log)
    (userId : String) (now : ℕ) : TableOk (t.revokeActive userId now) log := by
  have hlink : ∀ k r, (t.revokeActive userId now).findUnique k = some r →
      ∃ r₀, t.findUnique k = some r₀ ∧ r.replacedByTokenHash = r₀.replacedByTokenHash ∧
        (r.revokedAt = none → r₀.revokedAt = none) := by
    intro k r hr
    rw [RefreshTable.findUnique_revokeActive] at hr
    obtain ⟨r₀, hr₀, rfl⟩ := Option.map_eq_some_iff.mp hr
    refine ⟨r₀, hr₀, ?_, ?_⟩ <;> split_ifs <;> simp
  refine ⟨?_, ?_, ?_⟩
  · intro k r hr hn
    obtain ⟨r₀, hr₀, hl, hv⟩ := hlink k r hr
    exact hl.trans (h.linked_revoked k r₀ hr₀ (hv hn))
  · intro ρ hρ
    obtain ⟨r, hr, hl⟩ := h.logged_linked ρ hρ
    rw [RefreshTable.findUnique_revokeActive, hr]
    refine ⟨_, rfl, ?_⟩
    dsimp only
    split_ifs <;> exact hl
  · intro k r next hr hn
    obtain ⟨r₀, hr₀, hl, -⟩ := hlink k r hr
    exact h.linked_logged k r₀ next hr₀ (hl ▸ hn)

theorem TableOk.create {t t' : RefreshTable} {log : List Rotation} (h : TableOk t log)
    {row : RefreshToken} (hrow : row.replacedByTokenHash = none)
    (hc : t.create row = some t') : TableOk t' log := by
  refine ⟨?_, ?_, ?_⟩
  · intro k r hr hn
    rw [Table.create_findUnique hc] at hr
    split_ifs at hr with hk
    · cases hr
      exact hrow
    · exact h.linked_revoked k r hr hn
  · intro ρ hρ
    obtain ⟨r, hr, hl⟩ := h.logged_linked ρ hρ
    refine ⟨r, ?_, hl⟩
    rw [Table.create_findUnique hc, if_neg, hr]
    rintro he
    rw [he, (Table.create_eq_some hc).1] at hr
    cases hr
  · intro k r next hr hn
    rw [Table.create_findUnique hc] at hr
    split_ifs at hr with hk
    · cases hr
      rw [hrow] at hn
      cases hn
    · exact h.linked_logged k r next hr hn

/-- The rotation of a row that carries no link yet. -/
theorem TableOk.rotate {t t' : RefreshTable} {log : List Rotation} (h : TableOk t log)
    {hash : String} {row successor : RefreshToken} {now : ℕ}
    (hrow : t.findUnique hash = some row) (hlink : row.replacedByTokenHash = none)
    (hsucc : successor.replacedByTokenHash = none)
    (hc : t.rotate hash successor now = some t') :
    TableOk t' (⟨hash, successor.tokenHash⟩ :: log) := by
  have hfree := (RefreshTable.rotate_presented hc).2
  have hne : hash ≠ successor.tokenHash := by
    rintro he
    rw [he, hfree] at hrow
    cases hrow
  refine ⟨?_, ?_, ?_⟩
  · intro k r hr hn
    rw [RefreshTable.findUnique_rotate hc] at hr
    split_ifs at hr with h₁ h₂
    · cases hr
      exact hsucc
    · obtain ⟨r₀, -, rfl⟩ := Option.map_eq_some_iff.mp hr
      cases hn
    · exact h.linked_revoked k r hr hn
  · intro ρ hρ
    rw [RefreshTable.findUnique_rotate hc]
    rcases List.mem_cons.mp hρ with rfl | hρ
    · simp [hne, hrow]
    · obtain ⟨r, hr, hl⟩ := h.logged_linked ρ hρ
      rw [if_neg, if_neg]
      · exact ⟨r, hr, hl⟩
      · rintro he
        rw [he, hrow] at hr
        cases hr
        rw [hlink] at hl
        cases hl
      · rintro he
        rw [he, hfree] at hr
        cases hr
  · intro k r next hr hn
    rw [RefreshTable.findUnique_rotate hc] at hr
    split_ifs at hr with h₁ h₂
    · cases hr
      rw [hsucc] at hn
      cases hn
    · obtain ⟨r₀, -, rfl⟩ := Option.map_eq_some_iff.mp hr
      cases hn
      simp [h₂]
    · exact List.mem_cons_of_mem _ (h.linked_logged k r next hr hn)

/-- A row that is not in the log has no link. -/
theorem TableOk.unlogged {t : RefreshTable} {log : List Rotation} (h : TableOk t log)
    {hash : String} {row : RefreshToken} (hrow : t.findUnique hash = some row)
    (hlink : row.replacedByTokenHash = none) : hash ∉ log.map Rotation.presented := by
  intro hm
  obtain ⟨ρ, hρ, rfl⟩ := List.mem_map.mp hm
  obtain ⟨r, hr, hl⟩ := h.logged_linked ρ hρ
  rw [hrow] at hr
  cases hr
  rw [hlink] at hl
  cases hl

/-- A step that changes no refresh call, keeps the table facts and only adds to the
generator's history. -/
theorem Inv.frame {s t : State} (h : Inv cfg s) (ht : TableOk t.refreshTokens t.rotations)
    (hc : t.refreshCalls = s.refreshCalls) (hr : t.rotations = s.rotations)
    (hg : ∀ x ∈ s.generated, x ∈ t.generated) : Inv cfg t := by
  refine ⟨ht, hr ▸ h.rotated, ?_, ?_⟩
  · intro i c hi
    exact (h.call i c (hc ▸ hi)).mono hg (fun ρ hρ => hr ▸ hρ)
  · intro i j a b n hi hj
    rw [hc] at hi hj
    exact h.distinct i j a b n hi hj

/-- A step of call `i`. Its new successor hash, if any, is the one it already held or was
never generated before. -/
theorem Inv.step_call {s t : State} {i : ℕ} {call call' : RefreshCall} (h : Inv cfg s)
    (hi : s.refreshCalls[i]? = some call)
    (hcalls : t.refreshCalls = s.refreshCalls.set i call')
    (ht : TableOk t.refreshTokens t.rotations)
    (hrot : (t.rotations.map Rotation.presented).Nodup)
    (hr : ∀ ρ ∈ s.rotations, ρ ∈ t.rotations) (hg : ∀ x ∈ s.generated, x ∈ t.generated)
    (hok : CallOk cfg t call')
    (hheld : ∀ n, held cfg call' = some n → held cfg call = some n ∨ n ∉ s.generated) :
    Inv cfg t := by
  have hother : ∀ j b n, j ≠ i → s.refreshCalls[j]? = some b → held cfg b = some n →
      held cfg call' ≠ some n := by
    intro j b n hj hb hn hn'
    rcases hheld n hn' with hold | hfresh
    · exact hj (h.distinct j i b call n hb hi hn hold)
    · exact hfresh ((h.call j b hb).held_generated hn)
  refine ⟨ht, hrot, ?_, ?_⟩
  · intro j c hj
    rw [hcalls] at hj
    rcases getElem?_set_cases hj with ⟨-, rfl⟩ | ⟨-, hj⟩
    · exact hok
    · exact (h.call j c hj).mono hg hr
  · intro j k a b n hj hk ha hb
    rw [hcalls] at hj hk
    rcases getElem?_set_cases hj with ⟨rfl, rfl⟩ | ⟨hji, hj'⟩ <;>
      rcases getElem?_set_cases hk with ⟨rfl, rfl⟩ | ⟨hki, hk'⟩
    · rfl
    · exact (hother k b n hki hk' hb ha).elim
    · exact (hother j a n hji hj' ha hb).elim
    · exact h.distinct j k a b n hj' hk' ha hb

theorem afterLookup_ok (cfg : TokenService) (s : State) (token : String) (now : ℕ)
    {record : Option RefreshToken} (h : ∀ r, record = some r → r.revokedAt = none → r.replacedByTokenHash = none) :
    CallOk cfg s ⟨token, afterLookup record now⟩ ∧
      held cfg ⟨token, afterLookup record now⟩ = none := by
  unfold afterLookup
  cases record with
  | none => simp [CallOk, held]
  | some r =>
      dsimp only
      split_ifs with h₁ h₂
      · simp [CallOk, held]
      · simp [CallOk, held]
      · exact ⟨h r rfl (by simpa using h₁), rfl⟩

theorem inv_stepRefresh {s t : State} {i : ℕ} {env : Env} {call : RefreshCall}
    (h : Inv cfg s) (hi : s.refreshCalls[i]? = some call)
    (hguard : Guard cfg s (.stepRefresh i env))
    (hs : stepRefresh cfg s i env call = some t) : Inv cfg t := by
  have hcall := h.call i call hi
  rcases call with ⟨token, pc⟩
  cases pc with
  | findUnique =>
      cases hs
      have ha := afterLookup_ok cfg s token env.now
        (h.table.linked_revoked (cfg.hashRefreshToken token))
      refine h.step_call hi rfl h.table h.rotated (fun _ x => x) (fun _ x => x) ha.1 ?_
      intro n hn
      rw [ha.2] at hn
      cases hn
  | revokeChain userId =>
      cases hs
      exact h.step_call hi rfl (h.table.revokeActive userId env.now) h.rotated
        (fun _ x => x) (fun _ x => x) trivial (by simp [held])
  | findUser record =>
      simp only [stepRefresh] at hs
      split at hs
      · cases hs
        exact h.step_call hi rfl h.table h.rotated (fun _ x => x) (fun _ x => x) trivial
          (by simp [held])
      · rename_i user huser
        split_ifs at hs with hfresh
        cases hs
        refine h.step_call hi rfl h.table h.rotated (fun _ x => x)
          (fun _ => List.mem_cons_of_mem _) ⟨hcall, rfl, List.mem_cons_self⟩ ?_
        intro n hn
        cases hn
        exact .inr hfresh
  | rotate record user next =>
      simp only [stepRefresh] at hs
      split at hs
      · cases hs
        exact h.step_call hi rfl h.table h.rotated (fun _ x => x) (fun _ x => x) trivial
          (by simp [held])
      · rename_i table htable
        cases hs
        obtain ⟨⟨row, hrow⟩, -⟩ := RefreshTable.rotate_presented htable
        have hlink : row.replacedByTokenHash = none := by
          simp only [Guard, linkUnchanged, hi, hrow, decide_eq_true_eq] at hguard
          exact hguard.trans hcall.1
        refine h.step_call hi rfl (h.table.rotate hrow hlink rfl htable) ?_
          (fun _ => List.mem_cons_of_mem _) (fun _ x => x)
          ⟨hcall.2.1, hcall.2.2, List.mem_cons_self⟩ (fun n hn => .inl hn)
        exact List.nodup_cons.mpr ⟨h.table.unlogged hrow hlink, h.rotated⟩
  | issueAccess user next =>
      cases hs
      refine h.step_call hi rfl h.table h.rotated (fun _ x => x) (fun _ x => x) ?_
        (fun n hn => .inl hn)
      exact ⟨hcall.1 ▸ hcall.2.1, hcall.1 ▸ hcall.2.2⟩
  | returned response => cases hs
  | rejected error => cases hs

theorem inv_stepSignIn {s t : State} {i : ℕ} {env : Env} {pc : SignInPc} (h : Inv cfg s)
    (hs : stepSignIn cfg s i env pc = some t) : Inv cfg t := by
  cases pc with
  | verify email =>
      simp only [stepSignIn] at hs
      split at hs <;> cases hs <;> exact h.frame h.table rfl rfl fun _ x => x
  | upsert identity email =>
      simp only [stepSignIn] at hs
      split at hs
      · cases hs
        exact h.frame h.table rfl rfl fun _ x => x
      · split_ifs at hs
        cases hs
        exact h.frame h.table rfl rfl fun _ => List.mem_cons_of_mem _
  | createToken user next =>
      simp only [stepSignIn] at hs
      split at hs
      · cases hs
        exact h.frame h.table rfl rfl fun _ x => x
      · rename_i table htable
        cases hs
        exact h.frame (h.table.create rfl htable) rfl rfl fun _ x => x
  | issueAccess user next =>
      cases hs
      exact h.frame h.table rfl rfl fun _ x => x
  | returned response => cases hs
  | rejected error => cases hs

theorem inv_step {s t : State} {a : Action} (h : Inv cfg s) (hg : Guard cfg s a)
    (hs : step cfg s a = some t) : Inv cfg t := by
  cases a with
  | refresh token =>
      cases hs
      have hnew : held cfg ⟨token, .findUnique⟩ = none := rfl
      refine ⟨h.table, h.rotated, ?_, ?_⟩
      · intro j c hj
        rcases getElem?_start_cases hj with ⟨-, rfl⟩ | ⟨-, hj⟩
        · trivial
        · exact h.call j c hj
      · intro j k a b n hj hk ha hb
        rcases getElem?_start_cases hj with ⟨-, rfl⟩ | ⟨-, hj⟩
        · rw [hnew] at ha
          cases ha
        · rcases getElem?_start_cases hk with ⟨-, rfl⟩ | ⟨-, hk⟩
          · rw [hnew] at hb
            cases hb
          · exact h.distinct j k a b n hj hk ha hb
  | signIn email =>
      cases hs
      exact h.frame h.table rfl rfl fun _ x => x
  | stepRefresh i env =>
      obtain ⟨call, hi, hs⟩ := Option.bind_eq_some_iff.mp hs
      exact inv_stepRefresh h hi hg hs
  | stepSignIn i env =>
      obtain ⟨pc, -, hs⟩ := Option.bind_eq_some_iff.mp hs
      exact inv_stepSignIn h hs
  | failRefresh i =>
      obtain ⟨call, hi, hs⟩ := Option.bind_eq_some_iff.mp hs
      split at hs
      · cases hs
      · cases hs
      · cases hs
        exact h.step_call hi rfl h.table h.rotated (fun _ x => x) (fun _ x => x) trivial
          (by simp [held])
  | failSignIn i =>
      obtain ⟨pc, -, hs⟩ := Option.bind_eq_some_iff.mp hs
      split at hs
      · cases hs
      · cases hs
      · cases hs
        exact h.frame h.table rfl rfl fun _ x => x

theorem Inv.singleUse {s : State} (h : Inv cfg s) : SingleUse cfg s := by
  refine ⟨h.rotated, ?_⟩
  intro i j a b hi hj hhash ha hb
  have hca := h.call i a hi
  have hcb := h.call j b hj
  rcases a with ⟨ta, pa⟩
  rcases b with ⟨tb, pb⟩
  cases pa with
  | returned ra =>
      cases pb with
      | returned rb =>
          -- both exchanges are logged for one row, so they have one successor
          have he := List.inj_on_of_nodup_map h.rotated hca.2 hcb.2 hhash
          refine h.distinct i j _ _ _ hi hj rfl ?_
          exact congrArg some (congrArg Rotation.successor he).symm
      | _ => simp [isReturned] at hb
  | _ => simp [isReturned] at ha

theorem LinksKept.trans {s t u : State} (h : LinksKept s t) (k : LinksKept t u) :
    LinksKept s u := by
  intro hash r next hr hn
  obtain ⟨r', hr', hn'⟩ := h hash r next hr hn
  exact k hash r' next hr' hn'

theorem linksKept_step {s t : State} {a : Action} (h : Inv cfg s) (hg : Guard cfg s a)
    (hs : step cfg s a = some t) : LinksKept s t := by
  intro k r next hr hn
  cases step_effect hs with
  | same table log => exact ⟨r, table ▸ hr, hn⟩
  | revoked i env token userId action call table log calls =>
      rw [table, RefreshTable.findUnique_revokeActive, hr]
      refine ⟨_, rfl, ?_⟩
      dsimp only
      split_ifs <;> exact hn
  | created user issued table log =>
      refine ⟨r, ?_, hn⟩
      rw [Table.create_findUnique table, if_neg, hr]
      rintro rfl
      rw [(Table.create_eq_some table).1] at hr
      cases hr
  | rotated i env token record user issued action call table log calls =>
      obtain ⟨⟨row, hrow⟩, hfree⟩ := RefreshTable.rotate_presented table
      subst action
      have hrecord : record.replacedByTokenHash = none := (h.call i _ call).1
      have hlink : row.replacedByTokenHash = none := by
        simp only [Guard, linkUnchanged, call, hrow, decide_eq_true_eq] at hg
        exact hg.trans hrecord
      refine ⟨r, ?_, hn⟩
      rw [RefreshTable.findUnique_rotate table, if_neg, if_neg, hr]
      · rintro rfl
        rw [hrow] at hr
        cases hr
        rw [hlink] at hn
        cases hn
      · rintro rfl
        rw [hfree] at hr
        cases hr

/-- A transaction that commits on a row whose link changed since the lookup rotates that
row a second time. -/
theorem not_singleUse_of_not_guard {s t : State} {a : Action} (h : Inv cfg s)
    (hg : ¬ Guard cfg s a) (hs : step cfg s a = some t) (hlog : t.rotations ≠ s.rotations) :
    ¬ SingleUse cfg t := by
  intro hone
  cases step_effect hs with
  | same table log => exact hlog log
  | revoked i env token userId action call table log calls => exact hlog log
  | created user issued table log => exact hlog log
  | rotated i env token record user issued action call table log calls =>
      subst action
      obtain ⟨⟨row, hrow⟩, -⟩ := RefreshTable.rotate_presented table
      have hrecord : record.replacedByTokenHash = none := (h.call i _ call).1
      simp only [Guard, linkUnchanged, call, hrow, hrecord, decide_eq_true_eq] at hg
      obtain ⟨next, hnext⟩ := Option.ne_none_iff_exists'.mp hg
      have hold : _ ∈ s.rotations := h.table.linked_logged _ row next hrow hnext
      have hnodup := hone.rotated
      rw [log, List.map_cons, List.nodup_cons] at hnodup
      exact hnodup.1 (List.mem_map.mpr ⟨_, hold, rfl⟩)

theorem inv_run {s : State} (h : Run (step cfg) (Guard cfg) init s) : Inv cfg s :=
  h.invariant (inv_init cfg) fun _ _ _ hi hg hs => inv_step hi hg hs

/-- In every run whose transactions all find the link their lookup read, no row is rotated
twice, no token is exchanged twice and a link never changes; and the first transaction
that commits on a changed link rotates its row a second time. -/
theorem rotation_single_use (cfg : TokenService) {s t : State}
    (hs : Run (step cfg) (Guard cfg) init s) (ht : Run (step cfg) (Guard cfg) s t) :
    SingleUse cfg t ∧ LinksKept s t ∧
      ∀ a u, ¬ Guard cfg t a → step cfg t a = some u → u.rotations ≠ t.rotations →
        ¬ SingleUse cfg u := by
  have hinv := inv_run (hs.trans ht)
  refine ⟨hinv.singleUse, ?_, fun a u hg hu hlog => not_singleUse_of_not_guard hinv hg hu hlog⟩
  exact ht.relate (inv_run hs) (fun _ _ _ hi hg hs => inv_step hi hg hs)
    (fun _ h r _ hr hn => ⟨r, hr, hn⟩) (fun _ _ _ => LinksKept.trans)
    fun _ _ _ hi hg hs => linksKept_step hi hg hs

/-- A configuration whose hash separates the tokens of the schedules below. -/
def demo : TokenService where
  hmac token := "hmac:" ++ token
  signJwt userId appleSub now := userId ++ "." ++ appleSub ++ "." ++ toString now
  accessTtl := 900
  refreshTtl := 2592000

/-- One completed Apple sign-in, which issues `token-1`. -/
def signInSchedule : List Action :=
  [.signIn none,
    .stepSignIn 0 { identity := some ⟨"apple-sub-1", none⟩ },
    .stepSignIn 0 { random := "token-1", newUserId := "user-1" },
    .stepSignIn 0 {}, .stepSignIn 0 {}]

/-- One call that refreshes `token-1` from start to end. -/
def refreshSchedule : List Action :=
  [.refresh "token-1", .stepRefresh 0 {}, .stepRefresh 0 { random := "token-2" },
    .stepRefresh 0 {}, .stepRefresh 0 {}]

/-- Two calls present `token-1`; both read the row before either transaction. -/
def overlapSchedule : List Action :=
  [.refresh "token-1", .refresh "token-1", .stepRefresh 0 {}, .stepRefresh 1 {},
    .stepRefresh 0 { random := "token-2" }, .stepRefresh 1 { random := "token-3" },
    .stepRefresh 0 {}, .stepRefresh 1 {}, .stepRefresh 0 {}, .stepRefresh 1 {}]

theorem rotation_single_use_demo :
    ∃ s, Run (step demo) (Guard demo) init s ∧ s.rotations.length = 1 ∧ SingleUse demo s := by
  have hend : (execWhere (step demo) (Guard demo) (signInSchedule ++ refreshSchedule)
      init).any (fun s => s.rotations.length = 1) = true := by decide
  obtain ⟨s, hs, hlen⟩ := execWhere_any hend
  exact ⟨s, hs, of_decide_eq_true hlen, (rotation_single_use demo hs (Run.refl s)).1⟩

/-- Two overlapping calls exchange one token for two pairs. -/
theorem overlapping_refreshes_rotate_twice :
    ¬ ∀ (cfg : TokenService) (s : State), Run (step cfg) anyStep init s → SingleUse cfg s := by
  intro h
  have hend : (exec (step demo) (signInSchedule ++ overlapSchedule) init).any
      (fun s => ¬ (s.rotations.map Rotation.presented).Nodup) = true := by decide
  obtain ⟨s, hs, hdup⟩ := exec_any hend
  exact of_decide_eq_true hdup (h demo s hs).rotated

end FieldNote.RotationRuns
