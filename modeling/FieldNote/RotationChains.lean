import FieldNote.AuthCalls
import FieldNote.Chains

/-!
# The rows of a user are chains with one live tail each

The chains are not stored anywhere: they are the family that a completed sign-in adds one
row to and a rotation lengthens. Every call keeps the family, in any sequence of calls.
-/
namespace FieldNote.RotationChains
open AuthService AuthCalls Chains GuardedRuns

variable {cfg : TokenService}

/-- A completed sign-in: its user and the hash of the token it handed out. -/
structure SignIn where
  userId : String
  tokenHash : String
deriving DecidableEq, Repr

/-- Two rows of one user, the first of them revoked and replaced by the second. -/
def Replaced (t : RefreshTable) (a b : String) : Prop :=
  ∃ r s, t.findUnique a = some r ∧ t.findUnique b = some s ∧ s.userId = r.userId ∧
    r.revokedAt.isSome = true ∧ r.replacedByTokenHash = some b

/-- The chain of a sign-in: it starts with the token handed out there, and all its rows are
rows of that user. -/
def StartsAt (t : RefreshTable) (signIn : SignIn) (chain : List String) : Prop :=
  chain.head? = some signIn.tokenHash ∧
    ∀ hash ∈ chain, ∃ r, t.findUnique hash = some r ∧ r.userId = signIn.userId

/-- The rows form disjoint linear chains, one for each sign-in. -/
structure Chained (t : RefreshTable) (signIns : List SignIn) (chains : List (List String)) :
    Prop where
  partition : chains.flatten.Perm (t.rows.map RefreshToken.tokenHash)
  signIns : List.Forall₂ (StartsAt t) signIns chains
  later : ∀ chain ∈ chains, chain.Sublist (t.rows.map RefreshToken.tokenHash)
  linked : ∀ chain ∈ chains, chain.IsChain (Replaced t)
  unlinked : ∀ chain ∈ chains, ∀ hash r, chain.getLast? = some hash →
    t.findUnique hash = some r → r.replacedByTokenHash = none

/-- Every row is still there, with its owner; a revoked row is revoked and linked as before. -/
def Keeps (t t' : RefreshTable) : Prop :=
  ∀ hash r, t.findUnique hash = some r → ∃ r', t'.findUnique hash = some r' ∧
    r'.userId = r.userId ∧ (r.revokedAt.isSome = true →
      r'.revokedAt.isSome = true ∧ r'.replacedByTokenHash = r.replacedByTokenHash)

section Rows

variable {t t' : RefreshTable} {signIns : List SignIn} {chains : List (List String)}
  {chain : List String} {hash : String}

theorem Replaced.keep (hkeep : Keeps t t') {a b : String} (h : Replaced t a b) :
    Replaced t' a b := by
  obtain ⟨r, s, hr, hs, huser, hrevoked, hlink⟩ := h
  obtain ⟨r', hr', hruser, hkept⟩ := hkeep a r hr
  obtain ⟨s', hs', hsuser, -⟩ := hkeep b s hs
  obtain ⟨hrevoked', hlink'⟩ := hkept hrevoked
  exact ⟨r', s', hr', hs', by rw [hsuser, hruser, huser], hrevoked', by rw [hlink', hlink]⟩

theorem StartsAt.keep (hkeep : Keeps t t') {signIn : SignIn} (h : StartsAt t signIn chain) :
    StartsAt t' signIn chain := by
  refine ⟨h.1, ?_⟩
  intro hash hhash
  obtain ⟨r, hr, huser⟩ := h.2 hash hhash
  obtain ⟨r', hr', huser', -⟩ := hkeep hash r hr
  exact ⟨r', hr', huser'.trans huser⟩

theorem Chained.nodup (h : Chained t signIns chains) : chains.flatten.Nodup :=
  h.partition.nodup_iff.mpr t.nodup

/-- Every row is in a chain. -/
theorem Chained.exists_chain (h : Chained t signIns chains) {r : RefreshToken}
    (hr : t.findUnique hash = some r) : ∃ chain ∈ chains, hash ∈ chain := by
  have hmem : hash ∈ t.rows.map RefreshToken.tokenHash := by
    rw [← Table.findUnique_key hr]
    exact List.mem_map_of_mem (Table.findUnique_eq_some.mp hr).1
  exact List.mem_flatten.mp (h.partition.mem_iff.mpr hmem)

/-- An unrevoked row is the last one of its chain. -/
theorem Chained.unrevoked_last (h : Chained t signIns chains) (hchain : chain ∈ chains)
    (hhash : hash ∈ chain) {r : RefreshToken} (hr : t.findUnique hash = some r)
    (hunrevoked : r.revokedAt = none) : chain.getLast? = some hash := by
  apply last_of_no_successor (h.linked chain hchain) hhash
  rintro next ⟨r', s, hr', -, -, hrevoked, -⟩
  rw [hr] at hr'
  cases hr'
  rw [hunrevoked] at hrevoked
  cases hrevoked

theorem chained_empty : Chained ∅ [] [] := by
  constructor
  · simp
  · exact .nil
  · simp
  · simp
  · simp

/-- An update of the rows in place that leaves the unrevoked rows unlinked. -/
theorem Chained.update (h : Chained t signIns chains) (hkeep : Keeps t t')
    (hkeys : t'.rows.map RefreshToken.tokenHash = t.rows.map RefreshToken.tokenHash)
    (hlinks : ∀ hash r', t'.findUnique hash = some r' → ∃ r, t.findUnique hash = some r ∧
      r'.replacedByTokenHash = r.replacedByTokenHash) : Chained t' signIns chains := by
  constructor
  · rw [hkeys]
    exact h.partition
  · exact h.signIns.imp fun _ _ => StartsAt.keep hkeep
  · rw [hkeys]
    exact h.later
  · intro chain hchain
    exact (h.linked chain hchain).imp fun _ _ => Replaced.keep hkeep
  · intro chain hchain hash r' hlast hr'
    obtain ⟨r, hr, hlink⟩ := hlinks hash r' hr'
    rw [hlink]
    exact h.unlinked chain hchain hash r hlast hr

theorem Chained.mem_table (h : Chained t signIns chains) (hchain : chain ∈ chains)
    (hhash : hash ∈ chain) : ∃ r, t.findUnique hash = some r := by
  have hmem : hash ∈ t.rows.map RefreshToken.tokenHash :=
    h.partition.mem_iff.mp (List.mem_flatten_of_mem hchain hhash)
  obtain ⟨r, hr, rfl⟩ := List.mem_map.mp hmem
  exact ⟨r, Table.findUnique_of_mem hr⟩

/-- A hash that no row has is in no chain. -/
theorem Chained.ne_of_free (h : Chained t signIns chains) {next : String}
    (hfree : t.findUnique next = none) (hchain : chain ∈ chains) (hhash : hash ∈ chain) :
    hash ≠ next := by
  rintro rfl
  obtain ⟨r, hr⟩ := h.mem_table hchain hhash
  rw [hfree] at hr
  cases hr

theorem keeps_revokeActive (userId : String) (now : ℕ) :
    Keeps t (t.revokeActive userId now) := by
  intro hash r hr
  rw [RefreshTable.findUnique_revokeActive, hr]
  refine ⟨_, rfl, ?_⟩
  dsimp only
  split_ifs with hactive
  · simp [hactive.2]
  · simp

theorem keeps_create {row : RefreshToken} (hc : t.create row = some t') : Keeps t t' := by
  intro hash r hr
  refine ⟨r, ?_, rfl, fun hrevoked => ⟨hrevoked, rfl⟩⟩
  rw [Table.create_findUnique hc, if_neg, hr]
  rintro rfl
  rw [(Table.create_eq_some hc).1] at hr
  cases hr

/-- The rotation of an unrevoked row. -/
theorem keeps_rotate {record successor : RefreshToken} {now : ℕ}
    (hrecord : t.findUnique hash = some record) (hunrevoked : record.revokedAt = none)
    (hc : t.rotate hash successor now = some t') : Keeps t t' := by
  intro k r hr
  rw [RefreshTable.findUnique_rotate hc, hr]
  have hne : k ≠ successor.tokenHash := by
    rintro rfl
    rw [(RefreshTable.rotate_presented hc).2] at hr
    cases hr
  rw [if_neg hne]
  split_ifs with hk
  · subst hk
    rw [hrecord] at hr
    cases hr
    exact ⟨_, rfl, rfl, by simp [hunrevoked]⟩
  · exact ⟨r, rfl, rfl, fun hrevoked => ⟨hrevoked, rfl⟩⟩

theorem Chained.revokeActive (h : Chained t signIns chains) (userId : String) (now : ℕ) :
    Chained (t.revokeActive userId now) signIns chains := by
  apply h.update (keeps_revokeActive userId now)
  · simp only [RefreshTable.revokeActive, Table.updateMany, List.map_map]
    apply List.map_congr_left
    intro r _
    simp only [Function.comp_apply]
    split_ifs <;> rfl
  · intro hash r' hr'
    rw [RefreshTable.findUnique_revokeActive] at hr'
    obtain ⟨r, hr, rfl⟩ := Option.map_eq_some_iff.mp hr'
    refine ⟨r, hr, ?_⟩
    split_ifs <;> rfl

/-- A sign-in starts a chain of its own. -/
theorem Chained.create (h : Chained t signIns chains) {row : RefreshToken}
    (hlink : row.replacedByTokenHash = none) (hc : t.create row = some t') :
    Chained t' (signIns ++ [⟨row.userId, row.tokenHash⟩]) (chains ++ [[row.tokenHash]]) := by
  obtain ⟨hfree, hrows⟩ := Table.create_eq_some hc
  have hkeys : t'.rows.map RefreshToken.tokenHash =
      t.rows.map RefreshToken.tokenHash ++ [row.tokenHash] := by simp [hrows]
  have hrow : t'.findUnique row.tokenHash = some row := by
    rw [Table.create_findUnique hc, if_pos rfl]
  have hkeep := keeps_create hc
  constructor
  · rw [hkeys, List.flatten_append]
    exact h.partition.append (List.Perm.refl _)
  · apply List.rel_append (h.signIns.imp fun _ _ => StartsAt.keep hkeep)
    have hstart : StartsAt t' ⟨row.userId, row.tokenHash⟩ [row.tokenHash] := by
      refine ⟨rfl, ?_⟩
      intro hash hhash
      rw [List.mem_singleton.mp hhash]
      exact ⟨row, hrow, rfl⟩
    exact .cons hstart .nil
  · intro chain hchain
    rw [hkeys]
    rcases List.mem_append.mp hchain with hold | hnew
    · exact (h.later chain hold).trans (List.sublist_append_left _ _)
    · rw [List.mem_singleton.mp hnew]
      exact List.sublist_append_right _ _
  · intro chain hchain
    rcases List.mem_append.mp hchain with hold | hnew
    · exact (h.linked chain hold).imp fun _ _ => Replaced.keep hkeep
    · rw [List.mem_singleton.mp hnew]
      exact List.isChain_singleton _
  · intro chain hchain hash r hlast hr
    rw [Table.create_findUnique hc] at hr
    rcases List.mem_append.mp hchain with hold | hnew
    · rw [if_neg (h.ne_of_free hfree hold (List.mem_of_getLast? hlast))] at hr
      exact h.unlinked chain hold hash r hlast hr
    · rw [List.mem_singleton.mp hnew] at hlast
      have hhash : row.tokenHash = hash := by simpa using hlast
      rw [if_pos hhash.symm] at hr
      cases hr
      exact hlink

theorem rotate_rows {successor : RefreshToken} {now : ℕ}
    (hc : t.rotate hash successor now = some t') :
    t'.rows = (t.revokeAndLink hash successor.tokenHash now).rows ++ [successor] := by
  unfold RefreshTable.rotate at hc
  split at hc
  · cases hc
  · exact (Table.create_eq_some hc).2

theorem rotate_keys {successor : RefreshToken} {now : ℕ}
    (hc : t.rotate hash successor now = some t') :
    t'.rows.map RefreshToken.tokenHash =
      t.rows.map RefreshToken.tokenHash ++ [successor.tokenHash] := by
  rw [rotate_rows hc, List.map_append]
  simp only [RefreshTable.revokeAndLink, Table.update, Table.updateMany, List.map_map]
  congr 1
  apply List.map_congr_left
  intro r _
  simp only [Function.comp_apply]
  split_ifs <;> rfl

/-- A rotation lengthens the chain that the presented row is the tail of. -/
theorem Chained.rotate (h : Chained t signIns chains) {record successor : RefreshToken} {now : ℕ}
    (hrecord : t.findUnique hash = some record) (hunrevoked : record.revokedAt = none)
    (huser : successor.userId = record.userId) (hlink : successor.replacedByTokenHash = none)
    (hc : t.rotate hash successor now = some t') :
    Chained t' signIns (grow hash successor.tokenHash chains) := by
  obtain ⟨-, hfree⟩ := RefreshTable.rotate_presented hc
  have hkeep := keeps_rotate hrecord hunrevoked hc
  have hkeys := rotate_keys hc
  have hfind := RefreshTable.findUnique_rotate hc
  obtain ⟨tail, htail, hmem⟩ := h.exists_chain hrecord
  have hlast := h.unrevoked_last htail hmem hrecord hunrevoked
  have hnext : t'.findUnique successor.tokenHash = some successor := by
    rw [hfind, if_pos rfl]
  have hne : hash ≠ successor.tokenHash := h.ne_of_free hfree htail hmem
  have hpresented : t'.findUnique hash = some { record with
      revokedAt := some now, replacedByTokenHash := some successor.tokenHash } := by
    rw [hfind, if_neg hne, if_pos rfl, hrecord]
    rfl
  have hreplaced : Replaced t' hash successor.tokenHash :=
    ⟨_, _, hpresented, hnext, huser, rfl, rfl⟩
  constructor
  · rw [hkeys]
    exact (flatten_grow h.nodup ⟨tail, htail, hlast⟩).trans (h.partition.append_right _)
  · unfold grow
    rw [List.forall₂_map_right_iff]
    apply h.signIns.imp
    intro signIn chain hstart
    refine ⟨head?_extend (hstart.keep hkeep).1, ?_⟩
    intro k hk
    by_cases hchain : chain.getLast? = some hash
    · rw [extend_last hchain] at hk
      rcases List.mem_append.mp hk with hold | hnew
      · exact (hstart.keep hkeep).2 k hold
      · obtain ⟨r, hr, howner⟩ := hstart.2 hash (List.mem_of_getLast? hchain)
        rw [hrecord] at hr
        cases hr
        rw [List.mem_singleton.mp hnew]
        exact ⟨successor, hnext, huser.trans howner⟩
    · rw [extend_other hchain] at hk
      exact (hstart.keep hkeep).2 k hk
  · intro grown hgrown
    obtain ⟨chain, hchain, rfl⟩ := List.mem_map.mp hgrown
    rw [hkeys]
    unfold extend
    split_ifs
    · exact (h.later chain hchain).append_right _
    · exact (h.later chain hchain).trans (List.sublist_append_left _ _)
  · intro grown hgrown
    obtain ⟨chain, hchain, rfl⟩ := List.mem_map.mp hgrown
    have hold : chain.IsChain (Replaced t') :=
      (h.linked chain hchain).imp fun _ _ => Replaced.keep hkeep
    by_cases hends : chain.getLast? = some hash
    · rw [extend_last hends]
      apply isChain_concat hold
      intro z hz
      rw [hends] at hz
      cases hz
      exact hreplaced
    · rw [extend_other hends]
      exact hold
  · intro grown hgrown k r hk hr
    obtain ⟨chain, hchain, rfl⟩ := List.mem_map.mp hgrown
    by_cases hends : chain.getLast? = some hash
    · rw [extend_last hends, List.getLast?_concat] at hk
      cases hk
      rw [hnext] at hr
      cases hr
      exact hlink
    · rw [extend_other hends] at hk
      have hold := List.mem_of_getLast? hk
      have hother : k ≠ hash := by
        rintro rfl
        exact hends hk
      rw [hfind, if_neg (h.ne_of_free hfree hchain hold), if_neg hother] at hr
      exact h.unlinked chain hchain k r hk hr

end Rows

section Calls

variable {s : Tables} {email : Option String} {token : String} {env : Env}

/-- The rows of one user, in the order of their creation. -/
def rowsOf (t : RefreshTable) (userId : String) : List RefreshToken :=
  t.rows.filter fun r => r.userId = userId

/-- What a sign-in does to the rows. -/
structure SignInSpec (cfg : TokenService) (s : Tables) (email : Option String) (env : Env) :
    Prop where
  signedIn : ∀ response, (signInWithApple cfg s email env).2 = .ok response →
    (signInWithApple cfg s email env).1.refreshTokens.rows = s.refreshTokens.rows ++
      [⟨response.userId, cfg.hashRefreshToken response.refreshToken,
        env.now + cfg.refreshTtl * 1000, none, none⟩]
  rejected : ∀ error, (signInWithApple cfg s email env).2 = .error error →
    (signInWithApple cfg s email env).1.refreshTokens = s.refreshTokens
  others : ∀ userId, (∀ response, (signInWithApple cfg s email env).2 = .ok response →
      response.userId ≠ userId) →
    rowsOf (signInWithApple cfg s email env).1.refreshTokens userId =
      rowsOf s.refreshTokens userId

/-- What a refresh does to the rows, and when it succeeds. -/
structure RefreshSpec (cfg : TokenService) (s : Tables) (chains : List (List String))
    (token : String) (env : Env) : Prop where
  succeeds : (∃ response, (refresh cfg s token env).2 = .ok response) ↔
    ∃ chain ∈ chains, chain.getLast? = some (cfg.hashRefreshToken token) ∧
      ∃ record, Accepted s (cfg.hashRefreshToken token) env.now record ∧
        (s.users.findUnique record.userId).isSome = true
  rotates : ∀ response, (refresh cfg s token env).2 = .ok response →
    ∃ record, s.refreshTokens.findUnique (cfg.hashRefreshToken token) = some record ∧
      (refresh cfg s token env).1.refreshTokens.rows =
        (s.refreshTokens.rows.map fun r =>
          if r.tokenHash = cfg.hashRefreshToken token then
            { r with
              revokedAt := some env.now
              replacedByTokenHash := some (cfg.hashRefreshToken response.refreshToken) }
          else r) ++
        [⟨record.userId, cfg.hashRefreshToken response.refreshToken,
          env.now + cfg.refreshTtl * 1000, none, none⟩]
  reused : ∀ record, s.refreshTokens.findUnique (cfg.hashRefreshToken token) = some record →
    record.revokedAt.isSome = true → (refresh cfg s token env).2 = .error .alreadyUsed ∧
      ∀ r ∈ (refresh cfg s token env).1.refreshTokens.rows, r.userId = record.userId →
        r.revokedAt.isSome = true
  rejected : ∀ error, (refresh cfg s token env).2 = .error error →
    (∀ record, s.refreshTokens.findUnique (cfg.hashRefreshToken token) = some record →
      record.revokedAt = none) → (refresh cfg s token env).1 = s
  others : ∀ userId, (∀ record,
      s.refreshTokens.findUnique (cfg.hashRefreshToken token) = some record →
        record.userId ≠ userId) →
    rowsOf (refresh cfg s token env).1.refreshTokens userId = rowsOf s.refreshTokens userId

theorem signIn_spec (s : Tables) (email : Option String) (env : Env) :
    SignInSpec cfg s email env := by
  have heffect : SignInEffect cfg s email env (signInWithApple cfg s email env) :=
    signIn_effect s email env
  constructor
  · intro response hresponse
    generalize signInWithApple cfg s email env = answer at heffect hresponse
    cases heffect with
    | signedIn identity users user table verified upserted created =>
        cases hresponse
        exact (Table.create_eq_some created).2
    | _ => cases hresponse
  · intro error herror
    generalize signInWithApple cfg s email env = answer at heffect herror
    cases heffect with
    | signedIn identity users user table verified upserted created => cases herror
    | _ => rfl
  · intro userId hother
    generalize signInWithApple cfg s email env = answer at heffect hother
    cases heffect with
    | signedIn identity users user table verified upserted created =>
        have hne : user.id ≠ userId := hother _ rfl
        simp [rowsOf, (Table.create_eq_some created).2, newRow, hne]
    | _ => rfl

theorem rotate_isSome {t : RefreshTable} {hash : String} {record successor : RefreshToken}
    {now : ℕ} (hrecord : t.findUnique hash = some record)
    (hfree : t.findUnique successor.tokenHash = none) :
    ∃ t', t.rotate hash successor now = some t' := by
  unfold RefreshTable.rotate
  rw [hrecord]
  apply Table.create_isSome
  rw [RefreshTable.revokeAndLink, Table.findUnique_update, hfree]
  split_ifs <;> rfl

/-- An update in place of rows that are not the user's. -/
theorem rowsOf_updateMany {t : RefreshTable} {p : RefreshToken → Bool}
    {f : RefreshToken → RefreshToken} {hf : ∀ r, (f r).tokenHash = r.tokenHash}
    {userId : String} (howner : ∀ r, (f r).userId = r.userId)
    (hother : ∀ r ∈ t.rows, p r = true → r.userId ≠ userId) :
    rowsOf (t.updateMany p f hf) userId = rowsOf t userId := by
  have hkept : ∀ rows : List RefreshToken, (∀ r ∈ rows, p r = true → r.userId ≠ userId) →
      (rows.map fun r => if p r = true then f r else r).filter (fun r => r.userId = userId) =
        rows.filter fun r => r.userId = userId := by
    intro rows
    induction rows with
    | nil => simp
    | cons r rest ih =>
        intro hrows
        have hrest := ih fun r' hr' => hrows r' (List.mem_cons_of_mem _ hr')
        by_cases hp : p r = true
        · have hne := hrows r List.mem_cons_self hp
          rw [List.map_cons, if_pos hp, List.filter_cons_of_neg (by simp [howner, hne]), hrest,
            List.filter_cons_of_neg (by simp [hne])]
        · rw [List.map_cons, if_neg hp, List.filter_cons, List.filter_cons, hrest]
  exact hkept t.rows hother

theorem refresh_succeeds (hfree : s.refreshTokens.findUnique (issued cfg env).hash = none) :
    (∃ response, (refresh cfg s token env).2 = .ok response) ↔
      ∃ record, Accepted s (cfg.hashRefreshToken token) env.now record ∧
        (s.users.findUnique record.userId).isSome = true := by
  have heffect : RefreshEffect cfg s token env (refresh cfg s token env) :=
    refresh_effect s token env
  generalize refresh cfg s token env = answer at heffect
  constructor
  · rintro ⟨response, hresponse⟩
    cases heffect with
    | rotated record user table accepted owner committed =>
        exact ⟨record, accepted, by simp [owner]⟩
    | _ => cases hresponse
  · rintro ⟨record, haccepted, howner⟩
    have hone : ∀ record', s.refreshTokens.findUnique (cfg.hashRefreshToken token) =
        some record' → record' = record := by
      intro record' hfound
      rw [haccepted.found] at hfound
      exact (Option.some.inj hfound).symm
    cases heffect with
    | unknown missing =>
        rw [haccepted.found] at missing
        cases missing
    | reused record' found revoked =>
        rw [hone record' found, haccepted.unrevoked] at revoked
        cases revoked
    | expired record' found unrevoked late =>
        rw [hone record' found] at late
        exact (Nat.not_le.mpr haccepted.unexpired late).elim
    | gone record' accepted absent =>
        rw [hone record' accepted.found] at absent
        rw [absent] at howner
        cases howner
    | collided record' user accepted owner refused =>
        have hcommits : ∃ table, s.refreshTokens.rotate (cfg.hashRefreshToken token)
            (newRow user (issued cfg env)) env.now = some table :=
          rotate_isSome accepted.found hfree
        obtain ⟨table, htable⟩ := hcommits
        rw [htable] at refused
        cases refused
    | rotated record' user table accepted owner committed => exact ⟨_, rfl⟩

theorem refresh_reused {record : RefreshToken}
    (hrecord : s.refreshTokens.findUnique (cfg.hashRefreshToken token) = some record)
    (hrevoked : record.revokedAt.isSome = true) :
    (refresh cfg s token env).2 = .error .alreadyUsed ∧
      ∀ r ∈ (refresh cfg s token env).1.refreshTokens.rows, r.userId = record.userId →
        r.revokedAt.isSome = true := by
  have hcall : refresh cfg s token env = ({ s with
      refreshTokens := s.refreshTokens.revokeActive record.userId env.now },
      .error .alreadyUsed) := by
    simp [refresh, hrecord, hrevoked]
  rw [hcall]
  refine ⟨rfl, ?_⟩
  intro r hr huser
  simp only [RefreshTable.revokeActive, Table.mem_updateMany] at hr
  obtain ⟨r₀, -, rfl⟩ := hr
  split_ifs at huser ⊢ with hactive
  · rfl
  · have huser' : decide (r₀.userId = record.userId) = true := decide_eq_true huser
    simpa [huser', Option.isSome_iff_ne_none] using hactive

theorem refresh_rejected {error : AuthError}
    (herror : (refresh cfg s token env).2 = .error error)
    (hunrevoked : ∀ record, s.refreshTokens.findUnique (cfg.hashRefreshToken token) =
      some record → record.revokedAt = none) : (refresh cfg s token env).1 = s := by
  have heffect : RefreshEffect cfg s token env (refresh cfg s token env) :=
    refresh_effect s token env
  generalize refresh cfg s token env = answer at heffect herror
  cases heffect with
  | reused record found revoked =>
      rw [hunrevoked record found] at revoked
      cases revoked
  | rotated record user table accepted owner committed => cases herror
  | _ => rfl

theorem refresh_rotates {response : TokenResponse}
    (hresponse : (refresh cfg s token env).2 = .ok response) :
    ∃ record, s.refreshTokens.findUnique (cfg.hashRefreshToken token) = some record ∧
      (refresh cfg s token env).1.refreshTokens.rows =
        (s.refreshTokens.rows.map fun r =>
          if r.tokenHash = cfg.hashRefreshToken token then
            { r with
              revokedAt := some env.now
              replacedByTokenHash := some (cfg.hashRefreshToken response.refreshToken) }
          else r) ++
        [⟨record.userId, cfg.hashRefreshToken response.refreshToken,
          env.now + cfg.refreshTtl * 1000, none, none⟩] := by
  have heffect : RefreshEffect cfg s token env (refresh cfg s token env) :=
    refresh_effect s token env
  generalize refresh cfg s token env = answer at heffect hresponse
  cases heffect with
  | rotated record user table accepted owner committed =>
      cases hresponse
      refine ⟨record, accepted.found, ?_⟩
      have huser : user.id = record.userId := Table.findUnique_key owner
      rw [rotate_rows committed, ← huser]
      simp [RefreshTable.revokeAndLink, Table.update, Table.updateMany, newRow, issued,
        tokenResponse, TokenService.generateRefreshToken]
  | _ => cases hresponse

theorem refresh_others {userId : String}
    (hother : ∀ record, s.refreshTokens.findUnique (cfg.hashRefreshToken token) = some record →
      record.userId ≠ userId) :
    rowsOf (refresh cfg s token env).1.refreshTokens userId = rowsOf s.refreshTokens userId := by
  have heffect : RefreshEffect cfg s token env (refresh cfg s token env) :=
    refresh_effect s token env
  generalize refresh cfg s token env = answer at heffect
  cases heffect with
  | reused record found revoked =>
      simp only [RefreshTable.revokeActive]
      apply rowsOf_updateMany
      · intro r
        rfl
      · intro r _ hactive
        have huser : r.userId = record.userId ∧ r.revokedAt = none := by simpa using hactive
        rw [huser.1]
        exact hother record found
  | rotated record user table accepted owner committed =>
      have hne : user.id ≠ userId := by
        rw [Table.findUnique_key owner]
        exact hother record accepted.found
      have hupdate : rowsOf (s.refreshTokens.revokeAndLink (cfg.hashRefreshToken token)
          (issued cfg env).hash env.now) userId = rowsOf s.refreshTokens userId := by
        simp only [RefreshTable.revokeAndLink, Table.update]
        apply rowsOf_updateMany
        · intro r
          rfl
        · intro r hr hhash
          apply hother r
          exact Table.findUnique_eq_some.mpr ⟨hr, by simpa using hhash⟩
      have hlast : rowsOf table userId = rowsOf (s.refreshTokens.revokeAndLink
          (cfg.hashRefreshToken token) (issued cfg env).hash env.now) userId := by
        simp [rowsOf, rotate_rows committed, newRow, hne]
      exact hlast.trans hupdate
  | _ => rfl

theorem refresh_spec {signIns : List SignIn} {chains : List (List String)}
    (h : Chained s.refreshTokens signIns chains)
    (hfree : s.refreshTokens.findUnique (issued cfg env).hash = none) :
    RefreshSpec cfg s chains token env := by
  constructor
  · rw [refresh_succeeds hfree]
    constructor
    · rintro ⟨record, haccepted, howner⟩
      obtain ⟨chain, hchain, hmem⟩ := h.exists_chain haccepted.found
      have hlast := h.unrevoked_last hchain hmem haccepted.found haccepted.unrevoked
      exact ⟨chain, hchain, hlast, record, haccepted, howner⟩
    · rintro ⟨chain, hchain, hlast, hrecord⟩
      exact hrecord
  · exact fun response => refresh_rotates
  · exact fun record => refresh_reused
  · exact fun error => refresh_rejected
  · exact fun userId => refresh_others

end Calls

/-- The rows together with the completed sign-ins in their order; the code stores only the
tables. -/
structure Served where
  tables : Tables
  signIns : List SignIn

inductive Request where
  | signIn (email : Option String)
  | refresh (token : String)

def blank : Served := ⟨⟨∅, ∅⟩, []⟩

/-- One whole call. -/
def serve (cfg : TokenService) (s : Served) : Request × Env → Option Served
  | (.signIn email, env) =>
      match signInWithApple cfg s.tables email env with
      | (tables, .ok response) =>
          some ⟨tables, s.signIns ++
            [⟨response.userId, cfg.hashRefreshToken response.refreshToken⟩]⟩
      | (tables, .error _) => some ⟨tables, s.signIns⟩
  | (.refresh token, env) => some ⟨(refresh cfg s.tables token env).1, s.signIns⟩

/-- The chains, with at most one unrevoked row in each, which is its last. -/
structure OneTail (t : RefreshTable) (signIns : List SignIn) (chains : List (List String)) :
    Prop extends Chained t signIns chains where
  tail : ∀ chain ∈ chains, ∀ hash ∈ chain, ∀ r, t.findUnique hash = some r →
    r.revokedAt = none → chain.getLast? = some hash

theorem chained_signIn {s : Tables} {signIns : List SignIn} {chains : List (List String)}
    (h : Chained s.refreshTokens signIns chains) (email : Option String) (env : Env) :
    ∀ t, serve cfg ⟨s, signIns⟩ (.signIn email, env) = some t →
      ∃ chains', Chained t.tables.refreshTokens t.signIns chains' := by
  intro t ht
  have heffect : SignInEffect cfg s email env (signInWithApple cfg s email env) :=
    signIn_effect s email env
  simp only [serve] at ht
  generalize signInWithApple cfg s email env = answer at heffect ht
  cases heffect with
  | signedIn identity users user table verified upserted created =>
      cases ht
      exact ⟨_, h.create rfl created⟩
  | _ =>
      cases ht
      exact ⟨chains, h⟩

theorem chained_refresh {s : Tables} {signIns : List SignIn} {chains : List (List String)}
    (h : Chained s.refreshTokens signIns chains) (token : String) (env : Env) :
    ∃ chains', Chained (refresh cfg s token env).1.refreshTokens signIns chains' := by
  have heffect : RefreshEffect cfg s token env (refresh cfg s token env) :=
    refresh_effect s token env
  generalize refresh cfg s token env = answer at heffect
  cases heffect with
  | reused record found revoked => exact ⟨chains, h.revokeActive record.userId env.now⟩
  | rotated record user table accepted owner committed =>
      have howner : user.id = record.userId := Table.findUnique_key owner
      have huser : (newRow user (issued cfg env)).userId = record.userId := howner
      exact ⟨_, h.rotate accepted.found accepted.unrevoked huser rfl committed⟩
  | _ => exact ⟨chains, h⟩

theorem chained_run {s : Served} (hs : Run (serve cfg) anyStep blank s) :
    ∃ chains, Chained s.tables.refreshTokens s.signIns chains := by
  apply hs.invariant (I := fun s => ∃ chains, Chained s.tables.refreshTokens s.signIns chains)
    ⟨[], chained_empty⟩
  rintro s ⟨request, env⟩ t ⟨chains, h⟩ - ht
  cases request with
  | signIn email => exact chained_signIn h email env t ht
  | refresh token =>
      cases ht
      exact chained_refresh h token env

/-- In every state that sign-ins and refreshes lead to, the rows are chains with one live tail
each, one for each completed sign-in; and this is what the next call does. -/
theorem rotation_one_tail (cfg : TokenService) {s : Served}
    (hs : Run (serve cfg) anyStep blank s) :
    ∃ chains, OneTail s.tables.refreshTokens s.signIns chains ∧
      (∀ email env, SignInSpec cfg s.tables email env) ∧
      ∀ token env, s.tables.refreshTokens.findUnique (issued cfg env).hash = none →
        RefreshSpec cfg s.tables chains token env := by
  obtain ⟨chains, h⟩ := chained_run hs
  refine ⟨chains, ⟨h, ?_⟩, fun email env => signIn_spec s.tables email env, ?_⟩
  · intro chain hchain hash hhash r hr hunrevoked
    exact h.unrevoked_last hchain hhash hr hunrevoked
  · intro token env hfree
    exact refresh_spec h hfree

/-- A sign-in, two rotations, and a replay of the first token. -/
def replaySchedule : List (Request × Env) :=
  [(.signIn none,
      { identity := some ⟨"apple-sub-1", none⟩, random := "token-1", newUserId := "user-1" }),
    (.refresh "token-1", { random := "token-2" }),
    (.refresh "token-2", { random := "token-3" }),
    (.refresh "token-1", { random := "token-4" })]

theorem rotation_one_tail_demo :
    ∃ s, Run (serve RotationRuns.demo) anyStep blank s ∧ s.signIns.length = 1 ∧
      s.tables.refreshTokens.rows.length = 3 ∧
      ∃ chains, OneTail s.tables.refreshTokens s.signIns chains := by
  have hend : (exec (serve RotationRuns.demo) replaySchedule blank).any (fun s =>
      s.signIns.length = 1 ∧ s.tables.refreshTokens.rows.length = 3) = true := by decide
  obtain ⟨s, hs, hlengths⟩ := exec_any hend
  obtain ⟨hone, hthree⟩ := of_decide_eq_true hlengths
  obtain ⟨chains, htail, -, -⟩ := rotation_one_tail RotationRuns.demo hs
  exact ⟨s, hs, hone, hthree, chains, htail⟩

end FieldNote.RotationChains
