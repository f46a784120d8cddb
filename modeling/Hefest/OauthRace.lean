import Hefest.Lib.Race
import Hefest.OauthUsers

set_option autoImplicit false

/-!
# Concurrent first logins of one person

Until one of the calls commits, none of them finds the person. From then on the database does not
change any more: a call that has not looked yet finds the committed user, and a call that has
looked too early runs into a unique constraint, after which its transaction accepts no statement.
-/
namespace Hefest
open Transition Transaction

structure OauthLogin where
  displayName : Option String
  env : Env

abbrev OauthSession := Session Database RowLock ApiError User

section Logins
variable (provider subject email : String)

def OauthLogin.openid (login : OauthLogin) : OpenID := ⟨subject, email, login.displayName⟩

def OauthLogin.prog (login : OauthLogin) : Service User :=
  findOrCreateOauthUser provider (login.openid subject email) login.env

inductive NotAsked (login : OauthLogin) : OauthSession → Prop
  | waiting : NotAsked login (.auto (login.prog provider subject email))
  | opened : NotAsked login (.inside (findOrCreateInTransaction provider
      (login.openid subject email) login.env) (fun x => x) [])

inductive LinksIdentity (user : User) : Service User → Prop
  | mk (identity : OAuthIdentity) (k : Option Constraint → Service User)
      (owner : identity.userId = user.id) (of : identity.provider = provider)
      (known : identity.subject = subject) (mail : identity.email = email)
      (created : k none = .ret user)
      (violated : ∀ c, k (some c) = .raise .transactionManagementError) :
      LinksIdentity user (.stmt (insertOauthIdentity identity) k)

inductive CreatesUser : Service User → Prop
  | mk (user : User) (k : Option Constraint → Service User) (mail : user.email = email)
      (verified : user.emailVerifiedAt ≠ none)
      (created : LinksIdentity provider subject email user (k none))
      (violated : ∀ c, k (some c) = .raise .transactionManagementError) :
      CreatesUser (.stmt (insertUser user) k)

inductive AsksEmail : Service User → Prop
  | mk (k : Option User → Service User) (absent : CreatesUser provider subject email (k none))
      (verified : ∀ user, user.emailVerifiedAt ≠ none →
        LinksIdentity provider subject email user (k (some user))) :
      AsksEmail (.stmt (selectUserByEmail email) k)

inductive AsksIdentity : Service User → Prop
  | mk (k : Option (OAuthIdentity × User) → Service User)
      (absent : AsksEmail provider subject email (k none))
      (found : ∀ identity user, identity.email = email → k (some (identity, user)) = .ret user) :
      AsksIdentity (.stmt (selectOauthIdentity provider subject) k)

variable {provider subject email}

theorem linksIdentity_source (login : OauthLogin) (id : UUID) (user : User) :
    LinksIdentity provider subject email user
      (linkOauthIdentity provider (login.openid subject email) id user false fun _ =>
        findOrCreateInner provider (login.openid subject email) login.env 2 true
          fun c => .raise (.integrityError c)) :=
  .mk _ _ rfl rfl rfl rfl rfl (fun _ => rfl)

variable (provider subject email) in
/-- A first call, statement by statement. After a violation the retry is rejected at once. -/
theorem asksIdentity_source (login : OauthLogin) :
    AsksIdentity provider subject email
      (findOrCreateInTransaction provider (login.openid subject email) login.env) := by
  refine .mk _ (.mk _ ?_ ?_) ?_
  · exact .mk (newOauthUser (login.openid subject email) (login.env.uuid 0) (login.env.now 0)) _ rfl
      (by simp [newOauthUser]) (linksIdentity_source login _ _) (fun _ => rfl)
  · intro user hverified
    simp only [if_pos hverified]
    exact linksIdentity_source login _ _
  · intro identity user hmail
    have hsame : ¬ identity.email ≠ (login.openid subject email).email := not_not.mpr hmail
    simp only [if_neg hsame]

structure UnknownPerson (provider subject email : String) (db : Database) : Prop where
  noUser : ∀ u ∈ db.users, u.email ≠ email
  noIdentity : ∀ i ∈ db.oauthIdentities, ¬ (i.provider = provider ∧ i.subject = subject)

def Unclaimed (db₀ db : Database) : Prop :=
  db.users = db₀.users ∧ db.oauthIdentities = db₀.oauthIdentities

structure Claimed (provider subject email : String) (db₀ db : Database) (user : User)
    (identity : OAuthIdentity) : Prop where
  users : db.users = db₀.users ++ [user]
  identities : db.oauthIdentities = db₀.oauthIdentities ++ [identity]
  mail : user.email = email
  verified : user.emailVerifiedAt ≠ none
  newId : ∀ u ∈ db₀.users, u.id ≠ user.id
  owner : identity.userId = user.id
  of : identity.provider = provider
  known : identity.subject = subject
  identityMail : identity.email = email

section Tables
variable {db₀ db : Database} {user : User} {identity : OAuthIdentity}

theorem UnknownPerson.noIdentity_found (h : UnknownPerson provider subject email db₀)
    (hdb : db.oauthIdentities = db₀.oauthIdentities) : db.oauthIdentity? provider subject = none := by
  rw [Database.oauthIdentity?, hdb, List.find?_eq_none]
  intro i hi
  simpa using h.noIdentity i hi

theorem UnknownPerson.noUser_found (h : UnknownPerson provider subject email db₀)
    (hdb : db.users = db₀.users) : db.userByEmail? email = none := by
  apply userByEmail_none
  rw [hdb]
  exact h.noUser

theorem Claimed.identity_found (h₀ : UnknownPerson provider subject email db₀)
    (h : Claimed provider subject email db₀ db user identity) :
    db.oauthIdentity? provider subject = some identity := by
  have hnone : db₀.oauthIdentity? provider subject = none := h₀.noIdentity_found rfl
  rw [Database.oauthIdentity?] at hnone
  rw [Database.oauthIdentity?, h.identities, List.find?_append, hnone]
  simp [h.of, h.known]

theorem Claimed.user_found (h₀ : UnknownPerson provider subject email db₀)
    (h : Claimed provider subject email db₀ db user identity) :
    db.userByEmail? email = some user := userByEmail_added h₀.noUser h.users h.mail

theorem Claimed.selected (h₀ : UnknownPerson provider subject email db₀)
    (h : Claimed provider subject email db₀ db user identity) :
    (selectOauthIdentity provider subject).result db = some (identity, user) := by
  have howner : Table.lookup User.id identity.userId db.users = some user := by
    have hnone : Table.lookup User.id identity.userId db₀.users = none := by
      rw [Table.lookup_eq_none, h.owner]
      exact h.newId
    rw [h.users, Table.lookup_append_of_none hnone]
    simp [Table.lookup, h.owner]
  simp [selectOauthIdentity, Stmt.select, h.identity_found h₀, howner]

theorem Claimed.user_violation (h₀ : UnknownPerson provider subject email db₀)
    (h : Claimed provider subject email db₀ db user identity) {u : User} (hu : u.email = email) :
    ∃ c, userViolation db u = some c := by
  have hfound : db.userByEmail? u.email = some user := by rw [hu, h.user_found h₀]
  exact userViolation_found hfound

theorem Claimed.identity_violation (h₀ : UnknownPerson provider subject email db₀)
    (h : Claimed provider subject email db₀ db user identity) {i : OAuthIdentity}
    (hof : i.provider = provider) (hknown : i.subject = subject) :
    ∃ c, oauthIdentityViolation db i = some c := by
  unfold oauthIdentityViolation
  rw [hof, hknown, h.identity_found h₀, Option.isSome_some, if_pos rfl]
  split_ifs <;> exact ⟨_, rfl⟩

end Tables

inductive Asked (provider subject email : String) : OauthSession → Prop
  | asking (q : Service User) (asks : AsksEmail provider subject email q) :
      Asked provider subject email (.inside q (fun x => x) [])
  | creating (q : Service User) (creates : CreatesUser provider subject email q) :
      Asked provider subject email (.inside q (fun x => x) [])

inductive Failing : OauthSession → Prop
  | rejected (w : Database → Database) (held : List RowLock) :
      Failing (.inside (.raise .transactionManagementError) w held)
  | ended (e : ApiError) : Failing (.finished (.error e))

/-- Before any commit. A call that has inserted its user holds the lock on the e-mail. -/
inductive Claiming (provider subject email : String) (db : Database) (login : OauthLogin) :
    OauthSession → Prop
  | notAsked {s : OauthSession} (fresh : NotAsked provider subject email login s) :
      Claiming provider subject email db login s
  | asked {s : OauthSession} (asked : Asked provider subject email s) :
      Claiming provider subject email db login s
  | failing {s : OauthSession} (failing : Failing s) : Claiming provider subject email db login s
  | linking (user : User) (q : Service User) (w : Database → Database) (held : List RowLock)
      (mail : user.email = email) (verified : user.emailVerifiedAt ≠ none)
      (newId : ∀ u ∈ db.users, u.id ≠ user.id) (locked : ⟨.userEmail email, .forUpdate⟩ ∈ held)
      (links : LinksIdentity provider subject email user q)
      (users : ∀ x, (w x).users = x.users ++ [user])
      (identities : ∀ x, (w x).oauthIdentities = x.oauthIdentities) :
      Claiming provider subject email db login (.inside q w held)
  | committing (user : User) (identity : OAuthIdentity) (w : Database → Database)
      (held : List RowLock) (mail : user.email = email) (verified : user.emailVerifiedAt ≠ none)
      (newId : ∀ u ∈ db.users, u.id ≠ user.id) (locked : ⟨.userEmail email, .forUpdate⟩ ∈ held)
      (owner : identity.userId = user.id) (of : identity.provider = provider)
      (known : identity.subject = subject) (identityMail : identity.email = email)
      (users : ∀ x, (w x).users = x.users ++ [user])
      (identities : ∀ x, (w x).oauthIdentities = x.oauthIdentities ++ [identity]) :
      Claiming provider subject email db login (.inside (.ret user) w held)

inductive Lucky (provider subject email : String) (user : User) (login : OauthLogin) :
    OauthSession → Prop
  | notAsked {s : OauthSession} (fresh : NotAsked provider subject email login s) :
      Lucky provider subject email user login s
  | found : Lucky provider subject email user login (.inside (.ret user) (fun x => x) [])
  | ended : Lucky provider subject email user login (.finished (.ok user))

inductive Doomed (provider subject email : String) : OauthSession → Prop
  | asked {s : OauthSession} (asked : Asked provider subject email s) : Doomed provider subject email s
  | linking (user : User) (q : Service User) (links : LinksIdentity provider subject email user q) :
      Doomed provider subject email (.inside q (fun x => x) [])
  | failing {s : OauthSession} (failing : Failing s) : Doomed provider subject email s

section AfterCommit
variable {db₀ db : Database} {user : User} {identity : OAuthIdentity} {login : OauthLogin}
  {s : OauthSession}

theorem Failing.advance (h : Failing s) (db : Database) :
    (s.advance db).1 = db ∧ Failing (s.advance db).2 := by
  cases h with
  | rejected w held => exact ⟨rfl, .ended _⟩
  | ended e => exact ⟨rfl, .ended e⟩

/-- The BEGIN and the first SELECT. What `k` does with the answer is known for both answers. -/
theorem NotAsked.advance (h : NotAsked provider subject email login s) (db : Database) :
    (s.advance db).1 = db ∧ (NotAsked provider subject email login (s.advance db).2 ∨
      ∃ k : Option (OAuthIdentity × User) → Service User,
        AsksEmail provider subject email (k none) ∧
        (∀ identity user, identity.email = email → k (some (identity, user)) = .ret user) ∧
        (s.advance db).2 =
          .inside (k ((selectOauthIdentity provider subject).result db)) (fun x => x) []) := by
  cases h with
  | waiting => exact ⟨rfl, Or.inl .opened⟩
  | opened =>
    have hasks := asksIdentity_source provider subject email login
    generalize findOrCreateInTransaction provider (login.openid subject email) login.env = q at hasks
    cases hasks with
    | mk k absent found => exact ⟨rfl, Or.inr ⟨k, absent, found, rfl⟩⟩

theorem Lucky.advance (h₀ : UnknownPerson provider subject email db₀)
    (hdb : Claimed provider subject email db₀ db user identity)
    (h : Lucky provider subject email user login s) :
    (s.advance db).1 = db ∧ Lucky provider subject email user login (s.advance db).2 := by
  cases h with
  | notAsked fresh =>
    obtain ⟨hsame, hnext | ⟨k, _, hfound, hnext⟩⟩ := fresh.advance db
    · exact ⟨hsame, .notAsked hnext⟩
    · refine ⟨hsame, ?_⟩
      rw [hnext, hdb.selected h₀, hfound identity user hdb.identityMail]
      exact .found
  | found => exact ⟨rfl, .ended⟩
  | ended => exact ⟨rfl, .ended⟩

theorem Doomed.advance (h₀ : UnknownPerson provider subject email db₀)
    (hdb : Claimed provider subject email db₀ db user identity)
    (h : Doomed provider subject email s) :
    (s.advance db).1 = db ∧ Doomed provider subject email (s.advance db).2 := by
  cases h with
  | asked hasked =>
    cases hasked with
    | asking q asks =>
      cases asks with
      | mk k absent verified =>
        refine ⟨rfl, ?_⟩
        have hfound : (selectUserByEmail email).result db = some user := hdb.user_found h₀
        simp only [Session.advance, hfound]
        exact .linking user _ (verified user hdb.verified)
    | creating q creates =>
      cases creates with
      | mk u k mail verified created violated =>
        obtain ⟨c, hc⟩ := hdb.user_violation h₀ mail
        have hresult : (insertUser u).result db = some c := hc
        refine ⟨rfl, ?_⟩
        simp only [Session.advance, hresult, violated]
        exact .failing (.rejected _ _)
  | linking u q links =>
    cases links with
    | mk i k owner of known mail created violated =>
      obtain ⟨c, hc⟩ := hdb.identity_violation h₀ of known
      have hresult : (insertOauthIdentity i).result db = some c := hc
      refine ⟨rfl, ?_⟩
      simp only [Session.advance, hresult, violated]
      exact .failing (.rejected _ _)
  | failing hfailing =>
    exact ⟨(hfailing.advance db).1, .failing (hfailing.advance db).2⟩

theorem Lucky.returned (h : Lucky provider subject email user login s)
    (hdone : s.isFinished = true) : s = .finished (.ok user) := by
  cases h with
  | notAsked fresh => cases fresh <;> cases hdone
  | found => cases hdone
  | ended => rfl

theorem Doomed.not_returned {u : User}
    (h : Doomed provider subject email (.finished (.ok u))) : False := by
  cases h with
  | asked hasked => cases hasked
  | failing hfailing => cases hfailing

end AfterCommit

section BeforeCommit
variable {db₀ db db' : Database} {login : OauthLogin} {s : OauthSession}

/-- What the lock on an e-mail guards: whether a user has it. -/
def sameEmails (a : RowLock) (x y : Database) : Prop :=
  ∀ mail, a = ⟨.userEmail mail, .forUpdate⟩ →
    ((∃ u ∈ x.users, u.email = mail) ↔ ∃ u ∈ y.users, u.email = mail)

theorem sameEmails_refl (a : RowLock) (x : Database) : sameEmails a x x := fun _ _ => Iff.rfl

/-- Nobody else commits a user with the e-mail under a session that holds the lock on it. -/
theorem not_held_of_sameEmails {email : String} {held : List RowLock}
    (h₀ : ∀ u ∈ db.users, u.email ≠ email) (hnow : ∃ u ∈ db'.users, u.email = email)
    (hsame : ∀ a ∈ held, sameEmails a db db') : ⟨.userEmail email, .forUpdate⟩ ∉ held := by
  intro hlock
  obtain ⟨u, hu, hmail⟩ := (hsame _ hlock email rfl).mpr hnow
  exact h₀ u hu hmail

theorem changesWithin_newUser {user : User} {locks : List RowLock}
    (hlock : ⟨.userEmail user.email, .forUpdate⟩ ∈ locks) (hrows : db'.users = db.users ++ [user]) :
    ChangesWithin sameEmails locks db db' := by
  intro a ha mail hmail
  have hne : user.email ≠ mail := by
    rintro rfl
    have hfree := ha _ hlock
    rw [hmail] at hfree
    simp [Lock.conflict, LockMode.conflict] at hfree
  simp only [hrows, List.mem_append, List.mem_singleton, or_and_right, exists_or,
    exists_eq_left, hne, or_false]

theorem CreatesUser.claiming {q : Service User} (h : CreatesUser provider subject email q)
    (db : Database) (login : OauthLogin) :
    let next := (Session.inside q (fun x => x) []).advance db
    next.1 = db ∧ Claiming provider subject email db login next.2 := by
  cases h with
  | mk user k mail verified created violated =>
    refine ⟨rfl, ?_⟩
    cases hviolation : userViolation db user with
    | some c =>
      have hresult : (insertUser user).result db = some c := hviolation
      simp only [Session.advance, hresult, violated]
      exact .failing (.rejected _ _)
    | none =>
      have hresult : (insertUser user).result db = none := hviolation
      have hnewId := (userViolation_none hviolation).1
      simp only [Session.advance, hresult]
      refine .linking user _ _ _ mail verified hnewId ?_ created ?_ ?_
      · simp [insertUser, mail]
      · intro x
        simp [insertUser, hviolation]
      · intro x
        simp [insertUser, hviolation]

theorem Asked.claiming (h₀ : UnknownPerson provider subject email db₀) (hdb : Unclaimed db₀ db)
    (h : Asked provider subject email s) (login : OauthLogin) :
    (s.advance db).1 = db ∧ Claiming provider subject email db login (s.advance db).2 := by
  cases h with
  | asking q asks =>
    cases asks with
    | mk k absent verified =>
      have hnone : (selectUserByEmail email).result db = none := h₀.noUser_found hdb.1
      refine ⟨rfl, ?_⟩
      simp only [Session.advance, hnone]
      exact .asked (.creating _ absent)
  | creating q creates => exact creates.claiming db login

theorem LinksIdentity.claiming {user : User} {q : Service User} {w : Database → Database}
    {held : List RowLock} (h : LinksIdentity provider subject email user q)
    (mail : user.email = email) (verified : user.emailVerifiedAt ≠ none)
    (newId : ∀ u ∈ db.users, u.id ≠ user.id) (locked : ⟨.userEmail email, .forUpdate⟩ ∈ held)
    (users : ∀ x, (w x).users = x.users ++ [user])
    (identities : ∀ x, (w x).oauthIdentities = x.oauthIdentities) (login : OauthLogin) :
    let next := (Session.inside q w held).advance db
    next.1 = db ∧ Claiming provider subject email db login next.2 := by
  cases h with
  | mk identity k owner of known identityMail created violated =>
    refine ⟨rfl, ?_⟩
    cases hviolation : oauthIdentityViolation (w db) identity with
    | some c =>
      have hresult : (insertOauthIdentity identity).result (w db) = some c := hviolation
      simp only [Session.advance, hresult, violated]
      exact .failing (.rejected _ _)
    | none =>
      have hresult : (insertOauthIdentity identity).result (w db) = none := hviolation
      simp only [Session.advance, hresult, created]
      refine .committing user identity _ _ mail verified newId (List.mem_append_right _ locked)
        owner of known identityMail ?_ ?_
      · intro x
        simp [insertOauthIdentity, hviolation, users]
      · intro x
        simp [insertOauthIdentity, hviolation, identities]

/-- The next statement of a call before any commit: nothing is committed, or the call commits its
    user. -/
theorem Claiming.advance (h₀ : UnknownPerson provider subject email db₀) (hdb : Unclaimed db₀ db)
    (h : Claiming provider subject email db login s) :
    ((s.advance db).1 = db ∧ Claiming provider subject email db login (s.advance db).2) ∨
      ∃ user identity, Claimed provider subject email db₀ (s.advance db).1 user identity ∧
        (s.advance db).2 = .finished (.ok user) ∧
        ⟨.userEmail user.email, .forUpdate⟩ ∈ s.held := by
  cases h with
  | notAsked fresh =>
    left
    obtain ⟨hsame, hnext | ⟨k, habsent, _, hnext⟩⟩ := fresh.advance db
    · exact ⟨hsame, .notAsked hnext⟩
    · have hnone : (selectOauthIdentity provider subject).result db = none := by
        simp [selectOauthIdentity, Stmt.select, h₀.noIdentity_found hdb.2]
      refine ⟨hsame, ?_⟩
      rw [hnext, hnone]
      exact .asked (.asking _ habsent)
  | asked hasked => exact Or.inl (hasked.claiming h₀ hdb login)
  | failing hfailing =>
    left
    exact ⟨(hfailing.advance db).1, .failing (hfailing.advance db).2⟩
  | linking user q w held mail verified newId locked links users identities =>
    exact Or.inl (links.claiming mail verified newId locked users identities login)
  | committing user identity w held mail verified newId locked owner of known identityMail users
      identities =>
    right
    rw [hdb.1] at newId
    refine ⟨user, identity, ⟨?_, ?_, mail, verified, newId, owner, of, known, identityMail⟩, rfl, ?_⟩
    · rw [← hdb.1]
      exact users db
    · rw [← hdb.2]
      exact identities db
    · rw [mail]
      exact locked

/-- The commit of another call: whoever held the lock on the e-mail would have prevented it. -/
theorem Claiming.claimed (hdb : Unclaimed db₀ db) (h₀ : UnknownPerson provider subject email db₀)
    {user : User} {identity : OAuthIdentity}
    (hclaimed : Claimed provider subject email db₀ db' user identity)
    (h : Claiming provider subject email db login s) (hsame : ∀ a ∈ s.held, sameEmails a db db') :
    NotAsked provider subject email login s ∨ Doomed provider subject email s := by
  have hnow : ∃ u ∈ db'.users, u.email = email :=
    ⟨user, by rw [hclaimed.users]; simp, hclaimed.mail⟩
  have hnobody : ∀ u ∈ db.users, u.email ≠ email := by
    rw [hdb.1]
    exact h₀.noUser
  have hfree := not_held_of_sameEmails hnobody hnow hsame
  cases h with
  | notAsked fresh => exact Or.inl fresh
  | asked hasked => exact Or.inr (.asked hasked)
  | failing hfailing => exact Or.inr (.failing hfailing)
  | linking user q w held mail verified newId locked => exact absurd locked hfree
  | committing user identity w held mail verified newId locked => exact absurd locked hfree

end BeforeCommit

section Runs
variable {ι : Type} [Fintype ι] [DecidableEq ι]

abbrev OauthSystem (ι : Type) := System Database RowLock ApiError User ι

variable (provider subject email) in
def oauthStart (logins : ι → OauthLogin) (db₀ : Database) : OauthSystem ι :=
  start (fun i => (logins i).prog provider subject email) db₀

variable (provider subject email) in
/-- All calls have returned one and the same user, and the rows of this user and of the identity
    are all that was added. -/
def Converged (db₀ : Database) (S : OauthSystem ι) : Prop :=
  ∃ user identity, (∀ i, S.session i = .finished (.ok user)) ∧
    S.committed.users = db₀.users ++ [user] ∧
    S.committed.oauthIdentities = db₀.oauthIdentities ++ [identity] ∧ user.email = email ∧
    identity.provider = provider ∧ identity.subject = subject ∧ identity.userId = user.id

variable (provider subject email) in
/-- In the run `tr` there is a moment at which the person's row is committed and all calls but one
    have not executed their first SELECT. -/
def OneBeforeTheOthers (logins : ι → OauthLogin) (db₀ : Database) (tr : List ι) (S : OauthSystem ι) :
    Prop :=
  ∃ i tr₁ T tr₂, tr = tr₁ ++ tr₂ ∧
    Run step (oauthStart provider subject email logins db₀) tr₁ T ∧ Run step T tr₂ S ∧
    (∃ u ∈ T.committed.users, u.email = email) ∧
    ∀ j, j ≠ i → NotAsked provider subject email (logins j) (T.session j)

variable {logins : ι → OauthLogin} {db₀ : Database} {S : OauthSystem ι} {i : ι} {tr : List ι}

def oauthRace (h₀ : UnknownPerson provider subject email db₀) (logins : ι → OauthLogin) :
    Race ApiError User ι (User × OAuthIdentity) sameEmails where
  Free := Unclaimed db₀
  Won db w := Claimed provider subject email db₀ db w.1 w.2
  Known db := ∃ u ∈ db.users, u.email = email
  Fresh i := NotAsked provider subject email (logins i)
  Before db i := Claiming provider subject email db (logins i)
  Winner w _ s := s = .finished (.ok w.1)
  Fine w i := Lucky provider subject email w.1 (logins i)
  Lost _ := Doomed provider subject email
  symm := RowLock.conflict_comm
  same_refl := sameEmails_refl
  known h := ⟨_, by rw [h.users]; simp, h.mail⟩
  unknown := by
    rintro db hun ⟨u, hu, hmail⟩
    rw [hun.1] at hu
    exact h₀.noUser u hu hmail
  waiting h := by cases h <;> rfl
  fresh_before _ h := .notAsked h
  before hdb h := by
    rcases h.advance h₀ hdb with hstill | ⟨user, identity, hclaimed, hdone, hlock⟩
    · exact Or.inl hstill
    · refine Or.inr ⟨(user, identity), hclaimed, hdone, changesWithin_newUser hlock ?_⟩
      rw [hclaimed.users, hdb.1]
  overtaken hdb hclaimed h hsame := h.claimed hdb h₀ hclaimed hsame
  won := by
    rintro w i s rfl
    exact ⟨rfl, .ended⟩
  fresh_fine _ h := .notAsked h
  fine hdb h := h.advance h₀ hdb
  lost hdb h := h.advance h₀ hdb

omit [Fintype ι] [DecidableEq ι] in
theorem oauthRace_starts (h₀ : UnknownPerson provider subject email db₀) :
    (oauthRace h₀ logins).Starts (oauthStart provider subject email logins db₀) where
  free := ⟨rfl, rfl⟩
  fresh _ := .waiting
  unlocked _ := rfl

/-- A call that looked too early cannot return a user any more. -/
theorem Converged.oneBeforeTheOthers (h₀ : UnknownPerson provider subject email db₀)
    (h : Run step (oauthStart provider subject email logins db₀) tr S)
    (hend : Converged provider subject email db₀ S) :
    OneBeforeTheOthers provider subject email logins db₀ tr S := by
  obtain ⟨user, identity, hall, husers, _⟩ := hend
  refine Race.oneBefore_of_not_lost (oauthRace_starts h₀) h ?_ ?_
  · intro hun
    have hlength := congrArg List.length (husers.symm.trans hun.1)
    simp at hlength
  · intro i hdoomed
    rw [hall i] at hdoomed
    exact Doomed.not_returned hdoomed

theorem OneBeforeTheOthers.converged (h₀ : UnknownPerson provider subject email db₀)
    (hdone : ∀ i, (S.session i).isFinished = true)
    (h : OneBeforeTheOthers provider subject email logins db₀ tr S) :
    Converged provider subject email db₀ S := by
  obtain ⟨⟨user, identity⟩, hS, _, hlucky⟩ :=
    Race.OneBefore.fine (R := oauthRace h₀ logins) (oauthRace_starts h₀) h
  refine ⟨user, identity, ?_, hS.users, hS.identities, hS.mail, hS.of, hS.known, hS.owner⟩
  intro i
  exact (hlucky i).returned (hdone i)

/-- Concurrent first logins of one person converge exactly if the row of the person is committed
    before a second call executes its first SELECT. -/
theorem first_logins_converge_iff (provider subject email : String) (logins : ι → OauthLogin)
    (db₀ : Database) (h₀ : UnknownPerson provider subject email db₀) (tr : List ι)
    (S : OauthSystem ι) (h : Run step (oauthStart provider subject email logins db₀) tr S)
    (hdone : ∀ i, (S.session i).isFinished = true) :
    Converged provider subject email db₀ S ↔
      OneBeforeTheOthers provider subject email logins db₀ tr S := by
  constructor
  · intro hend
    exact hend.oneBeforeTheOthers h₀ h
  · intro hone
    exact hone.converged h₀ hdone

end Runs

end Logins

section TwoLogins

def twoWindows : Fin 2 → OauthLogin
  | 0 => ⟨some "Dana", ⟨fun _ => seconds 1, fun n => Fin.ofNat _ (100 + n)⟩⟩
  | 1 => ⟨some "Dana", ⟨fun _ => seconds 2, fun n => Fin.ofNat _ (200 + n)⟩⟩

def twoWindowsStart : OauthSystem (Fin 2) :=
  oauthStart "google" "sub-1" "dana@school.example" twoWindows {}

theorem unknownPerson_empty :
    UnknownPerson "google" "sub-1" "dana@school.example" {} where
  noUser _ h := by cases h
  noIdentity _ h := by cases h

theorem twoWindows_run {schedule : List (Fin 2)} {returned : Option User}
    (h : (execute step twoWindowsStart schedule).map (fun p =>
      (decide (∀ i, (p.1.session i).isFinished = true), (p.1.session 1).returned?)) =
        some (true, returned)) :
    ∃ (S : OauthSystem (Fin 2)) (tr : List (Fin 2)), Run step twoWindowsStart tr S ∧
      (∀ i, (S.session i).isFinished = true) ∧ (S.session 1).returned? = returned := by
  obtain ⟨S, tr, hrun, hend⟩ := execute_map h
  simp only [Prod.mk.injEq, decide_eq_true_eq] at hend
  exact ⟨S, tr, hrun, hend.1, hend.2⟩

/-- Both calls have looked before either commits; the second INSERT of the user violates the unique
    e-mail, and the retry in the failed transaction raises. -/
theorem first_logins_collide :
    ∃ (S : OauthSystem (Fin 2)) (tr : List (Fin 2)), Run step twoWindowsStart tr S ∧
      (∀ i, (S.session i).isFinished = true) ∧
      ¬ Converged "google" "sub-1" "dana@school.example" {} S := by
  have hrun : (execute step twoWindowsStart [0, 1, 0, 1, 0, 1, 0, 0, 0, 1, 1]).map (fun p =>
      (decide (∀ i, (p.1.session i).isFinished = true), (p.1.session 1).returned?)) =
        some (true, none) := by decide +kernel
  obtain ⟨S, tr, h, hdone, hnone⟩ := twoWindows_run hrun
  refine ⟨S, tr, h, hdone, ?_⟩
  rintro ⟨user, _, hall, _⟩
  rw [hall 1] at hnone
  cases hnone

theorem first_logins_converge_iff_oneByOne :
    ∃ (S : OauthSystem (Fin 2)) (tr : List (Fin 2)), Run step twoWindowsStart tr S ∧
      (S.session 1).returned?.isSome ∧
      (Converged "google" "sub-1" "dana@school.example" {} S ↔
        OneBeforeTheOthers "google" "sub-1" "dana@school.example" twoWindows {} tr S) := by
  have hrun : (execute step twoWindowsStart [0, 0, 0, 0, 0, 0, 1, 1, 1]).map (fun p =>
      (decide (∀ i, (p.1.session i).isFinished = true), (p.1.session 1).returned?)) =
        some (true, some (newOauthUser ⟨"sub-1", "dana@school.example", some "Dana"⟩ 100
          (seconds 1))) := by decide +kernel
  obtain ⟨S, tr, h, hdone, hreturned⟩ := twoWindows_run hrun
  refine ⟨S, tr, h, by rw [hreturned]; rfl, ?_⟩
  exact first_logins_converge_iff "google" "sub-1" "dana@school.example" twoWindows {}
    unknownPerson_empty tr S h hdone

end TwoLogins
end Hefest
