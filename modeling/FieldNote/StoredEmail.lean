import FieldNote.AuthCalls
import Mathlib.Data.List.Infix

/-!
# The stored email over a run of sign-ins

One Apple subject signs in any number of times, each sign-in being a whole call that
returns tokens. The email a sign-in offers is the identity token's, or else the body's.
The first upsert creates the user's row and keeps what it is offered, an empty string
included; every later one overwrites the column with whatever non-empty email it is
offered, so a later address displaces an earlier one.
-/
namespace FieldNote.StoredEmail
open AuthService AuthCalls

/-- One request, and what the verifier, the clock and the generators answer it. -/
structure SignIn where
  email : Option String
  env : Env

/-- `identity.email ?? email ?? null`. -/
def SignIn.offered (call : SignIn) : Option String :=
  (call.env.identity.bind AppleIdentity.email).or call.email

/-- The sign-ins one after the other, `none` unless each of them verifies as the subject
and returns tokens. -/
def signIns (cfg : TokenService) (sub : String) : Tables → List SignIn → Option Tables
  | s, [] => some s
  | s, call :: calls =>
      match signInWithApple cfg s call.email call.env with
      | (_, .error _) => none
      | (t, .ok _) =>
          if call.env.identity.map AppleIdentity.sub = some sub then signIns cfg sub t calls
          else none

/-- The subject's rows. -/
def rowsOf (t : UserTable) (sub : String) : List User :=
  t.rows.filter fun u => u.appleSub = sub

/-- The first non-null email of a sequence of sign-ins. -/
def firstEmail (calls : List SignIn) : Option String :=
  calls.findSome? SignIn.offered

/-- After every sign-in the subject has one row, which holds the first non-null email so
far. -/
def FirstEmailWins (cfg : TokenService) (sub : String) (s : Tables) (calls : List SignIn) :
    Prop :=
  ∀ done t, done <+: calls → done ≠ [] → signIns cfg sub s done = some t →
    ∃ user, rowsOf t.users sub = [user] ∧ user.email = firstEmail done

/-- No sign-in after the first one with an email offers another non-empty email, and an
empty first email comes with the sign-in that creates the row. -/
def NoOtherEmail (calls : List SignIn) : Prop :=
  ∀ early call late email, calls = early ++ call :: late → firstEmail early = none →
    call.offered = some email →
      (email = "" → early = []) ∧
        ∀ later ∈ late, ∀ other, later.offered = some other → other = "" ∨ other = email

/-- `update: email ? { email } : {}`. -/
def overwritten (stored : Option String) : Option String → Option String
  | none => stored
  | some email => if email = "" then stored else some email

section Rows

variable {t t' : UserTable} {sub newId : String} {email : Option String} {user v : User}

theorem find_rowsOf (t : UserTable) (sub : String) :
    t.rows.find? (fun u => u.appleSub = sub) = (rowsOf t sub).head? := by
  simp [rowsOf, List.head?_filter]

theorem rowsOf_update (t : UserTable) (sub id : String) (email : Option String) :
    rowsOf (t.update id (fun u => { u with email := email }) fun _ => rfl) sub =
      (rowsOf t sub).map fun u => if u.id = id then { u with email := email } else u := by
  have hsub (u : User) : (if u.id = id then { u with email := email } else u).appleSub =
      u.appleSub := by
    split_ifs <;> rfl
  simp [rowsOf, Table.update, Table.updateMany, List.filter_map, Function.comp_def, hsub]

/-- The create branch. -/
theorem upsert_absent (hrows : rowsOf t sub = [])
    (h : t.upsertByApple sub email newId = some (t', user)) :
    rowsOf t' sub = [⟨newId, sub, email⟩] := by
  simp only [UserTable.upsertByApple, find_rowsOf, hrows, List.head?_nil, Option.map_eq_some_iff,
    Prod.mk.injEq] at h
  obtain ⟨t₁, hcreate, rfl, -⟩ := h
  have hfilter : t.rows.filter (fun u => u.appleSub = sub) = [] := hrows
  simp [rowsOf, (Table.create_eq_some hcreate).2, hfilter]

/-- The update branch. -/
theorem upsert_present (hrows : rowsOf t sub = [v])
    (h : t.upsertByApple sub email newId = some (t', user)) :
    rowsOf t' sub = [{ v with email := overwritten v.email email }] := by
  simp only [UserTable.upsertByApple, find_rowsOf, hrows, List.head?_cons] at h
  cases email with
  | none =>
      obtain ⟨rfl, -⟩ : t = t' ∧ _ := by simpa using h
      exact hrows
  | some e =>
      dsimp only at h
      split_ifs at h with hempty
      · obtain ⟨rfl, -⟩ : t = t' ∧ _ := by simpa using h
        simpa [overwritten, hempty] using hrows
      · obtain ⟨rfl, -⟩ : t.update v.id _ _ = t' ∧ _ := by simpa using h
        simp [rowsOf_update, hrows, overwritten, hempty]

end Rows

section Runs

variable {cfg : TokenService} {sub : String} {s t : Tables} {call : SignIn}
  {calls done : List SignIn}

/-- A sign-in that returns tokens has committed its upsert. -/
theorem signIn_upserted {response : TokenResponse}
    (h : signInWithApple cfg s call.email call.env = (t, .ok response))
    (hsub : call.env.identity.map AppleIdentity.sub = some sub) :
    ∃ user, s.users.upsertByApple sub call.offered call.env.newUserId = some (t.users, user) := by
  have heffect : SignInEffect cfg s call.email call.env
      (signInWithApple cfg s call.email call.env) := signIn_effect s call.email call.env
  rw [h] at heffect
  cases heffect with
  | signedIn identity users user table verified upserted created =>
      obtain rfl : identity.sub = sub := by simpa [verified] using hsub
      exact ⟨user, by simpa [SignIn.offered, verified] using upserted⟩

/-- One more sign-in at the head of a run. -/
theorem signIns_cons (h : signIns cfg sub s (call :: calls) = some t) :
    ∃ mid user, s.users.upsertByApple sub call.offered call.env.newUserId =
      some (mid.users, user) ∧ signIns cfg sub mid calls = some t := by
  rw [signIns] at h
  split at h
  · cases h
  · rename_i mid response hcall
    split_ifs at h with hsub
    obtain ⟨user, hupsert⟩ := signIn_upserted hcall hsub
    exact ⟨mid, user, hupsert, h⟩

theorem signIns_prefix (hpre : done <+: calls) (h : signIns cfg sub s calls = some t) :
    ∃ mid, signIns cfg sub s done = some mid := by
  induction done generalizing s calls with
  | nil => exact ⟨s, rfl⟩
  | cons call done ih =>
      obtain ⟨rest, rfl⟩ := hpre
      rw [List.cons_append, signIns] at h
      rw [signIns]
      split at h
      · cases h
      · split_ifs at h ⊢
        exact ih ⟨rest, rfl⟩ h

/-- The column after a run, the row being created by the first sign-in. -/
def storedEmail : List SignIn → Option String
  | [] => none
  | call :: calls => (calls.map SignIn.offered).foldl overwritten call.offered

/-- A user that is there keeps its row, whose email every sign-in rewrites. -/
theorem signIns_present {v : User} (hrows : rowsOf s.users sub = [v])
    (h : signIns cfg sub s calls = some t) :
    rowsOf t.users sub =
      [{ v with email := (calls.map SignIn.offered).foldl overwritten v.email }] := by
  induction calls generalizing s v with
  | nil =>
      obtain rfl : s = t := by simpa [signIns] using h
      exact hrows
  | cons call calls ih =>
      obtain ⟨mid, user, hupsert, hrest⟩ := signIns_cons h
      exact ih (upsert_present hrows hupsert) hrest

/-- A new subject has one row after its first sign-in and after every later one. -/
theorem signIns_fresh (hfresh : rowsOf s.users sub = [])
    (h : signIns cfg sub s calls = some t) (hcalls : calls ≠ []) :
    ∃ id, rowsOf t.users sub = [⟨id, sub, storedEmail calls⟩] := by
  cases calls with
  | nil => exact absurd rfl hcalls
  | cons call calls =>
      obtain ⟨mid, user, hupsert, hrest⟩ := signIns_cons h
      exact ⟨_, signIns_present (upsert_absent hfresh hupsert) hrest⟩

end Runs

section Emails

variable {calls done : List SignIn} {call : SignIn}

@[simp] theorem firstEmail_append (early late : List SignIn) :
    firstEmail (early ++ late) = (firstEmail early).or (firstEmail late) := by
  simp [firstEmail, List.findSome?_append]

@[simp] theorem firstEmail_cons (call : SignIn) (late : List SignIn) :
    firstEmail (call :: late) = call.offered.or (firstEmail late) := by
  cases h : call.offered <;> simp [firstEmail, h]

@[simp] theorem firstEmail_nil : firstEmail [] = none := rfl

theorem storedEmail_snoc (hdone : done ≠ []) :
    storedEmail (done ++ [call]) = overwritten (storedEmail done) call.offered := by
  cases done with
  | nil => exact absurd rfl hdone
  | cons first done => simp [storedEmail]

/-- The sign-in that brought the first email. -/
theorem firstEmail_split {email : String} (h : firstEmail calls = some email) :
    ∃ early call late, calls = early ++ call :: late ∧ firstEmail early = none ∧
      call.offered = some email := by
  induction calls with
  | nil => cases h
  | cons first calls ih =>
      cases hoffer : first.offered with
      | some e => exact ⟨[], first, calls, rfl, rfl, by simpa [hoffer] using h⟩
      | none =>
          obtain ⟨early, call, late, rfl, hearly, hcall⟩ := ih (by simpa [hoffer] using h)
          exact ⟨first :: early, call, late, rfl, by simp [hoffer, hearly], hcall⟩

theorem NoOtherEmail.take (h : NoOtherEmail calls) (hpre : done <+: calls) :
    NoOtherEmail done := by
  obtain ⟨rest, rfl⟩ := hpre
  rintro early call late email rfl hearly hcall
  obtain ⟨hempty, hlate⟩ := h early call (late ++ rest) email (by simp) hearly hcall
  exact ⟨hempty, fun later hlater => hlate later (List.mem_append_left rest hlater)⟩

theorem noOtherEmail_cons {late : List SignIn} {email : String}
    (hcall : call.offered = some email) (hlate : ∀ later ∈ late, ∀ other,
      later.offered = some other → other = "" ∨ other = email) : NoOtherEmail (call :: late) := by
  intro early first rest first_email hsplit hearly hfirst
  cases early with
  | nil =>
      obtain ⟨rfl, rfl⟩ : call = first ∧ late = rest := by simpa using hsplit
      obtain rfl : email = first_email := by simpa [hcall] using hfirst
      exact ⟨fun _ => rfl, hlate⟩
  | cons head early =>
      obtain ⟨rfl, -⟩ : call = head ∧ _ := by simpa using hsplit
      simp [hcall] at hearly

/-- Without another email the column is the first email. -/
theorem storedEmail_first (h : NoOtherEmail done) (hdone : done ≠ []) :
    storedEmail done = firstEmail done := by
  induction done using List.reverseRecOn with
  | nil => exact absurd rfl hdone
  | append_singleton done last ih =>
      rcases eq_or_ne done [] with rfl | hne
      · simp [storedEmail]
      · rw [storedEmail_snoc hne, ih (h.take (List.prefix_append done [last])) hne]
        cases hlast : last.offered with
        | none => simp [overwritten, hlast]
        | some other =>
            cases hfirst : firstEmail done with
            | none =>
                have hother : other ≠ "" := fun he =>
                  hne ((h done last [] other rfl hfirst hlast).1 he)
                simp [overwritten, hother, hlast, hfirst]
            | some email =>
                obtain ⟨early, call, late, rfl, hearly, hcall⟩ := firstEmail_split hfirst
                have hsame : other = "" ∨ other = email :=
                  (h early call (late ++ [last]) email (by simp) hearly hcall).2 last (by simp)
                    other hlast
                rcases hsame with rfl | rfl <;> simp [overwritten, hearly, hcall]

/-- A column that is the first email after every sign-in has met no other email. -/
theorem noOtherEmail_of_stored
    (h : ∀ done, done <+: calls → done ≠ [] → storedEmail done = firstEmail done) :
    NoOtherEmail calls := by
  rintro early call late email rfl hearly hcall
  constructor
  · rintro rfl
    by_contra hne
    have hstored := h (early ++ [call]) ⟨late, by simp⟩ (by simp)
    rw [storedEmail_snoc hne, h early (List.prefix_append _ _) hne] at hstored
    simp [overwritten, hearly, hcall] at hstored
  · intro later hlater other hother
    obtain ⟨between, rest, rfl⟩ := List.append_of_mem hlater
    have hstored := h ((early ++ call :: between) ++ [later]) ⟨rest, by simp⟩ (by simp)
    rw [storedEmail_snoc (by simp)] at hstored
    by_contra hnot
    push Not at hnot
    simp [overwritten, hearly, hcall, hother, hnot.1, hnot.2] at hstored

end Emails

/-- The first email wins in exactly the runs that offer no other email after it. -/
theorem first_email_wins (cfg : TokenService) (sub : String) (s t : Tables)
    (calls : List SignIn) (hfresh : rowsOf s.users sub = [])
    (hrun : signIns cfg sub s calls = some t) :
    FirstEmailWins cfg sub s calls ↔ NoOtherEmail calls := by
  constructor
  · intro hwins
    refine noOtherEmail_of_stored fun done hpre hdone => ?_
    obtain ⟨mid, hmid⟩ := signIns_prefix hpre hrun
    obtain ⟨user, hrows, hemail⟩ := hwins done mid hpre hdone hmid
    obtain ⟨id, hrows'⟩ := signIns_fresh hfresh hmid hdone
    obtain rfl : user = ⟨id, sub, storedEmail done⟩ := by simpa [hrows] using hrows'
    exact hemail
  · intro hother done mid hpre hdone hmid
    obtain ⟨id, hrows⟩ := signIns_fresh hfresh hmid hdone
    exact ⟨_, hrows, storedEmail_first (hother.take hpre) hdone⟩

/-- A sign-in of `apple-sub-1` whose identity token carries `email`. -/
def appleSignIn (email : Option String) (random : String) : SignIn :=
  ⟨none, { random := random, identity := some ⟨"apple-sub-1", email⟩, newUserId := "user-1" }⟩

/-- The first sign-in brings the email and the later ones bring it again or none. -/
def returningSignIns : List SignIn :=
  [appleSignIn (some "relay@example.com") "token-1", appleSignIn none "token-2",
    appleSignIn (some "relay@example.com") "token-3"]

theorem first_email_wins_demo :
    ∃ t, signIns RotationRuns.demo "apple-sub-1" ⟨∅, ∅⟩ returningSignIns = some t ∧
      FirstEmailWins RotationRuns.demo "apple-sub-1" ⟨∅, ∅⟩ returningSignIns := by
  have hend : (signIns RotationRuns.demo "apple-sub-1" ⟨∅, ∅⟩ returningSignIns).isSome = true :=
    by decide
  obtain ⟨t, ht⟩ := Option.isSome_iff_exists.mp hend
  refine ⟨t, ht, (first_email_wins RotationRuns.demo "apple-sub-1" ⟨∅, ∅⟩ t returningSignIns
    rfl ht).mpr (noOtherEmail_cons rfl ?_)⟩
  intro later hlater other hother
  simp only [List.mem_cons, List.not_mem_nil, or_false] at hlater
  obtain rfl | rfl := hlater
  · cases hother
  · cases hother
    exact .inr rfl

/-- The Apple ID's address changed between the two sign-ins. -/
def changedAddress : List SignIn :=
  [appleSignIn (some "old@example.com") "token-1", appleSignIn (some "new@example.com") "token-2"]

/-- The later address displaces the earlier one. -/
theorem later_email_displaces :
    ¬ ∀ (cfg : TokenService) (sub : String) (s t : Tables) (calls : List SignIn),
      rowsOf s.users sub = [] → signIns cfg sub s calls = some t →
        FirstEmailWins cfg sub s calls := by
  intro h
  have hend : (signIns RotationRuns.demo "apple-sub-1" ⟨∅, ∅⟩ changedAddress).any (fun t =>
      (rowsOf t.users "apple-sub-1").map User.email = [some "new@example.com"]) = true := by
    decide
  obtain ⟨t, ht, hemails⟩ := (Option.any_eq_true _ _).mp hend
  obtain ⟨user, hrows, hemail⟩ := h RotationRuns.demo "apple-sub-1" ⟨∅, ∅⟩ t changedAddress rfl ht
    changedAddress t (List.prefix_refl _) (by simp [changedAddress]) ht
  simp only [hrows, List.map_cons, List.map_nil, hemail] at hemails
  exact absurd (of_decide_eq_true hemails) (by decide)

end FieldNote.StoredEmail
