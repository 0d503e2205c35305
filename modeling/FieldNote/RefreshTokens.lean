import FieldNote.KeyedTable

/-!
# Refresh-token and user rows

The `refresh_tokens` and `users` tables with the columns the auth service reads or writes,
the statements it issues on them, and the token service. HMAC-SHA256 and the JWT signer
are libraries, so they are parameters of the configuration; only the hash of a token is
ever stored. Instants are milliseconds.
-/
namespace FieldNote

structure User where
  id : String
  appleSub : String
  email : Option String
deriving DecidableEq, Repr

structure RefreshToken where
  userId : String
  tokenHash : String
  expiresAt : ℕ
  revokedAt : Option ℕ
  replacedByTokenHash : Option String
deriving DecidableEq, Repr

abbrev RefreshTable := Table RefreshToken String RefreshToken.tokenHash
abbrev UserTable := Table User String User.id

namespace RefreshTable

/-- `updateMany({ where: { userId, revokedAt: null }, data: { revokedAt } })`. -/
def revokeActive (t : RefreshTable) (userId : String) (now : ℕ) : RefreshTable :=
  t.updateMany (fun r => decide (r.userId = userId) && r.revokedAt.isNone)
    (fun r => { r with revokedAt := some now }) fun _ => rfl

/-- `update({ where: { tokenHash }, data: { revokedAt, replacedByTokenHash } })`. The
statement selects by hash alone, whatever the row holds. -/
def revokeAndLink (t : RefreshTable) (hash next : String) (now : ℕ) : RefreshTable :=
  t.update hash (fun r => { r with revokedAt := some now, replacedByTokenHash := some next })
    fun _ => rfl

/-- The two-statement rotation transaction. It rolls back when the presented row is
missing or the new hash is taken. -/
def rotate (t : RefreshTable) (hash : String) (successor : RefreshToken) (now : ℕ) :
    Option RefreshTable :=
  match t.findUnique hash with
  | none => none
  | some _ => (t.revokeAndLink hash successor.tokenHash now).create successor

theorem findUnique_revokeActive (t : RefreshTable) (userId : String) (now : ℕ) (h : String) :
    (t.revokeActive userId now).findUnique h = (t.findUnique h).map fun r =>
      if r.userId = userId ∧ r.revokedAt = none then { r with revokedAt := some now } else r := by
  simp [revokeActive]

theorem findUnique_rotate {t t' : RefreshTable} {hash : String} {successor : RefreshToken}
    {now : ℕ} (h : t.rotate hash successor now = some t') (k : String) :
    t'.findUnique k =
      if k = successor.tokenHash then some successor
      else if k = hash then (t.findUnique k).map fun r =>
        { r with revokedAt := some now, replacedByTokenHash := some successor.tokenHash }
      else t.findUnique k := by
  unfold rotate at h
  split at h
  · cases h
  · rw [Table.create_findUnique h]
    simp [revokeAndLink]

theorem rotate_presented {t t' : RefreshTable} {hash : String} {successor : RefreshToken}
    {now : ℕ} (h : t.rotate hash successor now = some t') :
    (∃ r, t.findUnique hash = some r) ∧ t.findUnique successor.tokenHash = none := by
  unfold rotate at h
  split at h
  · cases h
  · rename_i r hr
    refine ⟨⟨r, hr⟩, ?_⟩
    have hfree := (Table.create_eq_some h).1
    simp only [revokeAndLink, Table.findUnique_update] at hfree
    split_ifs at hfree with he
    · simpa using hfree
    · exact hfree

end RefreshTable

namespace UserTable

/-- `user.upsert` on the unique Apple subject: the update branch writes the email only
when the call carries a non-empty one. -/
def upsertByApple (t : UserTable) (appleSub : String) (email : Option String)
    (newId : String) : Option (UserTable × User) :=
  match t.rows.find? (fun u => u.appleSub = appleSub) with
  | some u =>
      match email with
      | some e =>
          if e = "" then some (t, u)
          else some (t.update u.id (fun u => { u with email := some e }) fun _ => rfl,
            { u with email := some e })
      | none => some (t, u)
  | none =>
      let u : User := ⟨newId, appleSub, email⟩
      (t.create u).map fun t' => (t', u)

end UserTable

/-- The fresh secret, the hash that is persisted for it, and its expiry. -/
structure IssuedToken where
  token : String
  hash : String
  expiresAt : ℕ
deriving DecidableEq, Repr

/-- `TokenResponseDto`; `tokenType` is always `Bearer`. -/
structure TokenResponse where
  accessToken : String
  refreshToken : String
  expiresIn : ℕ
  userId : String
deriving DecidableEq, Repr

/-- `hmac` is the keyed hash and `signJwt` signs the access-token claims at an instant. -/
structure TokenService where
  hmac : String → String
  signJwt : String → String → ℕ → String
  accessTtl : ℕ
  refreshTtl : ℕ

namespace TokenService

def hashRefreshToken (cfg : TokenService) (token : String) : String := cfg.hmac token

/-- `random` is the result of `randomBytes(48)`. -/
def generateRefreshToken (cfg : TokenService) (random : String) (now : ℕ) : IssuedToken :=
  ⟨random, cfg.hashRefreshToken random, now + cfg.refreshTtl * 1000⟩

def issueAccessToken (cfg : TokenService) (userId appleSub : String) (now : ℕ) : String :=
  cfg.signJwt userId appleSub now

end TokenService
end FieldNote
