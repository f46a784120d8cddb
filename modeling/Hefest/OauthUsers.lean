import Hefest.Statements

set_option autoImplicit false

namespace Hefest
open Transaction

structure OpenID where
  id : String
  email : String
  displayName : Option String

section Statements

def Database.oauthIdentity? (db : Database) (provider subject : String) : Option OAuthIdentity :=
  db.oauthIdentities.find? (fun i => i.provider = provider ∧ i.subject = subject)

def Database.userByEmail? (db : Database) (email : String) : Option User :=
  Table.lookup User.email email db.users

/-- `OAuthIdentity.get_or_none(provider=..., subject=...).select_related("user")`. -/
def selectOauthIdentity (provider subject : String) : Query (Option (OAuthIdentity × User)) :=
  .select fun db => (db.oauthIdentity? provider subject).bind fun identity =>
    (Table.lookup User.id identity.userId db.users).map fun user => (identity, user)

def selectUserByEmail (email : String) : Query (Option User) := .select (fun db => db.userByEmail? email)

def saveOauthIdentity (id : UUID) (set : OAuthIdentity → OAuthIdentity) : Query Unit where
  locks _ := [⟨.oauthIdentity id, .forNoKeyUpdate⟩]
  result _ := ()
  write _ x := { x with oauthIdentities := Table.update OAuthIdentity.id id set x.oauthIdentities }

def saveUser (id : UUID) (set : User → User) : Query Unit where
  locks _ := [⟨.user id, .forNoKeyUpdate⟩]
  result _ := ()
  write _ x := { x with users := Table.update User.id id set x.users }

def userViolation (db : Database) (user : User) : Option Constraint :=
  if ∃ u ∈ db.users, u.id = user.id then some .userId
  else if (db.userByEmail? user.email).isSome then some .userEmail
  else none

def insertUser (user : User) : Query (Option Constraint) where
  locks _ := [⟨.user user.id, .forUpdate⟩, ⟨.userEmail user.email, .forUpdate⟩]
  result db := userViolation db user
  write db x := if userViolation db user = none then { x with users := x.users ++ [user] } else x

theorem userByEmail_none {db : Database} {email : String} (h : ∀ u ∈ db.users, u.email ≠ email) :
    db.userByEmail? email = none := by
  rw [Database.userByEmail?, Table.lookup_eq_none]
  exact h

/-- The one user with the e-mail is found once its row is there. -/
theorem userByEmail_added {db₀ db : Database} {user : User} {email : String}
    (h₀ : ∀ u ∈ db₀.users, u.email ≠ email) (rows : db.users = db₀.users ++ [user])
    (mail : user.email = email) : db.userByEmail? email = some user := by
  have hnone : Table.lookup User.email email db₀.users = none := userByEmail_none h₀
  rw [Database.userByEmail?, rows, Table.lookup_append_of_none hnone]
  simp [Table.lookup, mail]

theorem userViolation_none {db : Database} {new : User} (h : userViolation db new = none) :
    (∀ u ∈ db.users, u.id ≠ new.id) ∧ ∀ u ∈ db.users, u.email ≠ new.email := by
  unfold userViolation at h
  split_ifs at h with hid hfound
  refine ⟨?_, ?_⟩
  · intro u hu he
    exact hid ⟨u, hu, he⟩
  · rw [← Table.lookup_eq_none]
    exact Option.not_isSome_iff_eq_none.mp hfound

theorem userViolation_found {db : Database} {new user : User}
    (h : db.userByEmail? new.email = some user) : ∃ c, userViolation db new = some c := by
  unfold userViolation
  rw [h, Option.isSome_some, if_pos rfl]
  split_ifs <;> exact ⟨_, rfl⟩

def oauthIdentityViolation (db : Database) (identity : OAuthIdentity) : Option Constraint :=
  if ∃ i ∈ db.oauthIdentities, i.id = identity.id then some .oauthIdentityId
  else if (db.oauthIdentity? identity.provider identity.subject).isSome then
    some .oauthProviderSubject
  else none

/-- The row of the user is locked by the foreign key. -/
def insertOauthIdentity (identity : OAuthIdentity) : Query (Option Constraint) where
  locks _ :=
    [⟨.user identity.userId, .forKeyShare⟩, ⟨.oauthIdentity identity.id, .forUpdate⟩,
      ⟨.oauthSubject identity.provider identity.subject, .forUpdate⟩]
  result db := oauthIdentityViolation db identity
  write db x :=
    if oauthIdentityViolation db identity = none then
      { x with oauthIdentities := x.oauthIdentities ++ [identity] }
    else x

end Statements

/-- A statement of an open transaction. Once one of them has violated a constraint the server
    rejects every later one until the rollback. -/
def unlessFailed {ρ α : Type} (failed : Bool) (s : Query ρ) (k : ρ → Service α) : Service α :=
  if failed then .raise .transactionManagementError else .stmt s k

/-- `a or b` on a text that may be missing. -/
def textOr (a : Option String) (b : String) : String :=
  match a with
  | some text => if text = "" then b else text
  | none => b

section FindOrCreate
variable (provider : String) (openid : OpenID) (env : Env)

/-- `OAuthIdentity.create(user=user, ...)`, then `return user`. -/
def linkOauthIdentity (id : UUID) (user : User) (failed : Bool)
    (handler : Constraint → Service User) : Service User :=
  unlessFailed failed (insertOauthIdentity
      { id := id
        userId := user.id
        provider := provider
        subject := openid.id
        email := openid.email }) fun violation =>
    match violation with
    | some c => handler c
    | none => .ret user

/-- The columns a takeover saves. -/
def User.columns (taken user : User) : User :=
  { user with
    emailVerifiedAt := taken.emailVerifiedAt
    passwordHash := taken.passwordHash
    fullName := taken.fullName }

def User.takeOver (user : User) (now : Time) : User :=
  { user with
    emailVerifiedAt := some now
    passwordHash := none
    fullName := textOr openid.displayName user.fullName }

def newOauthUser (id : UUID) (now : Time) : User where
  id := id
  email := openid.email
  fullName := textOr openid.displayName ""
  passwordHash := none
  role := .student
  emailVerifiedAt := some now

/-- `_inner`, drawing clock readings and UUIDs from the `n`-th on; `handler` is the `except
    IntegrityError` around it. -/
def findOrCreateInner (n : ℕ) (failed : Bool) (handler : Constraint → Service User) : Service User :=
  unlessFailed failed (selectOauthIdentity provider openid.id) fun identity? =>
    match identity? with
    | some (identity, user) =>
      if identity.email ≠ openid.email then
        unlessFailed failed
          (saveOauthIdentity identity.id fun i => { i with email := openid.email }) fun _ => .ret user
      else .ret user
    | none =>
      unlessFailed failed (selectUserByEmail openid.email) fun existing? =>
        match existing? with
        | some existing =>
          if existing.emailVerifiedAt ≠ none then
            linkOauthIdentity provider openid (env.uuid n) existing failed handler
          else
            let taken := existing.takeOver openid (env.now n)
            unlessFailed failed (saveUser existing.id taken.columns) fun _ =>
              linkOauthIdentity provider openid (env.uuid n) taken failed handler
        | none =>
          let user := newOauthUser openid (env.uuid n) (env.now n)
          unlessFailed failed (insertUser user) fun violation =>
            match violation with
            | some c => handler c
            | none => linkOauthIdentity provider openid (env.uuid (n + 1)) user failed handler

/-- The body of the `async with in_transaction()` block: the retry runs in the same transaction. -/
def findOrCreateInTransaction : Service User :=
  findOrCreateInner provider openid env 0 false fun _ =>
    findOrCreateInner provider openid env 2 true fun c => .raise (.integrityError c)

def findOrCreateOauthUser : Service User :=
  .transaction (findOrCreateInTransaction provider openid env)

end FindOrCreate
end Hefest
