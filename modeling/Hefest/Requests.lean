import Hefest.Lib.Frames
import Hefest.Listings
import Hefest.PasswordChange
import Hefest.TokenDelivery

set_option autoImplicit false

/-!
# The requests that write

Every endpoint that writes to the database, with the dependencies in front of it: the access token
names a user, who is loaded and must have the role of the endpoint. One lemma says what any request
can do to the tables.
-/
namespace Hefest
open Transaction

inductive Endpoint
  | createEvent (body : EventCreateRequest)
  | updateEvent (eventId : UUID) (body : EventUpdateRequest)
  | publishEvent (eventId : UUID)
  | cancelEvent (eventId : UUID)
  | registerForEvent (eventId : UUID)
  | cancelRegistration (regId : UUID)

def Endpoint.role : Endpoint → UserRole
  | .registerForEvent _ | .cancelRegistration _ => .student
  | _ => .organizer

def Endpoint.call (user : User) (env : Env) : Endpoint → Call
  | .createEvent body => .createEvent user body env
  | .updateEvent eventId body => .updateEvent user eventId body env
  | .publishEvent eventId => .publishEvent user eventId env
  | .cancelEvent eventId => .cancelEvent user eventId env
  | .registerForEvent eventId => .registerStudent user eventId env
  | .cancelRegistration regId => .cancelRegistration user regId env

/-- One request. `userId` is the `sub` of its access token, and `bearer` what
    `user_id_from_access_token` finds in the `Authorization` header. -/
inductive ApiCall
  | service (userId : UUID) (endpoint : Endpoint) (env : Env)
  | register (body : RegisterRequest) (salt : String) (env : Env)
  | updateMe (userId : UUID) (fullName : String)
  | changePassword (userId : UUID) (body : ChangePasswordRequest) (salt : String) (env : Env)
  | logoutAll (cookieToken : Option String) (bearer : Option UUID) (env : Env)
  | auth (c : AuthCall)

inductive ApiReply
  | service (response : Response)
  | registered (response : RegisterResponse)
  | profile (user : User)
  | auth (reply : AuthReply)

def userIdForActiveRefreshToken (lib : TokenLib) (rawToken : String) (env : Env) :
    Service (Option UUID) :=
  .stmt (.select fun db =>
      db.refreshTokens.find? (RefreshToken.activeWithHash (lib.sha256 rawToken)))
    fun record? =>
      match record? with
      | none => .ret none
      | some record => .ret (if record.expiresAt < env.now 0 then none else some record.userId)

section Endpoints
variable (settings : Settings) (accounts : AccountLib) (lib : TokenLib)

def updateMe (userId : UUID) (fullName : String) : Service User :=
  (getCurrentUser userId).bind fun user =>
    .stmt (saveUser user.id fun u => { u with fullName := fullName }) fun _ =>
      .ret { user with fullName := fullName }

/-- The user of the cookie, else of the access token. -/
def logoutAll (cookieToken : Option String) (bearer : Option UUID) (env : Env) :
    Service AuthReply :=
  let fromCookie : Service (Option UUID) :=
    match cookieToken.filter (· ≠ "") with
    | none => .ret none
    | some raw => userIdForActiveRefreshToken lib raw env
  fromCookie.bind fun found =>
    match found.or bearer with
    | none => .raise credentialsExc
    | some userId =>
      (revokeAllForUserByRow userId ⟨fun n => env.now (n + 1), env.uuid⟩).map fun _ => .noContent

def Endpoint.prog (userId : UUID) (endpoint : Endpoint) (env : Env) : Service Response :=
  (getCurrentUser userId).bind fun user =>
    requireRole endpoint.role user ((endpoint.call user env).prog settings)

def ApiCall.prog : ApiCall → Service ApiReply
  | .service userId endpoint env => (endpoint.prog settings userId env).map .service
  | .register body salt env => (Hefest.register settings accounts body salt env).map .registered
  | .updateMe userId fullName => (Hefest.updateMe userId fullName).map .profile
  | .changePassword userId body salt env =>
    (changePasswordCall accounts userId body salt env).map .auth
  | .logoutAll cookieToken bearer env => (Hefest.logoutAll lib cookieToken bearer env).map .auth
  | .auth c => (c.prog settings accounts lib).map .auth

def answer (c : ApiCall) (db : Database) : Database × Except ApiError ApiReply :=
  (c.prog settings accounts lib).run db

def handle (c : ApiCall) (db : Database) : Database := (answer settings accounts lib c db).1

end Endpoints

def User.account (u : User) : UUID × String × UserRole := (u.id, u.email, u.role)

/-- Only accounts and sessions change: users stay, with id, e-mail and role. -/
structure AccountsOnly (x y : Database) : Prop where
  users : x.users.map User.account <+: y.users.map User.account
  events : y.events = x.events
  registrations : y.registrations = x.registrations
  jobs : y.notificationJobs = x.notificationJobs

section Frame
variable {α : Type} {x y z : Database}

theorem AccountsOnly.refl (x : Database) : AccountsOnly x x := ⟨List.prefix_rfl, rfl, rfl, rfl⟩

theorem AccountsOnly.trans (x y z : Database) (h : AccountsOnly x y) (h' : AccountsOnly y z) :
    AccountsOnly x z where
  users := h.users.trans h'.users
  events := h'.events.trans h.events
  registrations := h'.registrations.trans h.registrations
  jobs := h'.jobs.trans h.jobs

theorem accountsOnly_saveUser {id : UUID} {set : User → User}
    (hset : ∀ u, (set u).account = u.account) (seen x : Database) :
    AccountsOnly x ((saveUser id set).write seen x) where
  users := by
    change _ <+: (Table.update User.id id set x.users).map User.account
    rw [Table.map_update User.account hset]
  events := rfl
  registrations := rfl
  jobs := rfl

theorem accountsOnly_insertUser (user : User) (x : Database) :
    AccountsOnly x ((insertUser user).write x x) := by
  simp only [insertUser]
  split_ifs
  · exact ⟨by rw [List.map_append]; exact List.prefix_append _ _, rfl, rfl, rfl⟩
  · exact .refl x

theorem accountsOnly_of (users : y.users = x.users) (events : y.events = x.events)
    (registrations : y.registrations = x.registrations)
    (jobs : y.notificationJobs = x.notificationJobs) : AccountsOnly x y :=
  ⟨by rw [users], events, registrations, jobs⟩

end Frame

structure AllowsTokens (R : Database → Database → Prop) : Prop where
  refl : ∀ x, R x x
  tokens : ∀ x rows, R x { x with refreshTokens := rows }

structure AllowsRevocations (R : Database → Database → Prop) : Prop where
  refl : ∀ x, R x x
  revoke : ∀ x p now id, R x ((updateTokenRow p (RefreshToken.revoke now) id).write x x)

theorem AllowsTokens.revocations {R : Database → Database → Prop} (h : AllowsTokens R) :
    AllowsRevocations R where
  refl := h.refl
  revoke x _ _ _ := h.tokens x _

/-- `R` allows every write to the identities, and of the users a takeover and a user of a provider:
    both are verified and without a password. -/
structure AllowsProviders (R : Database → Database → Prop) : Prop where
  refl : ∀ x, R x x
  identities : ∀ x rows, R x { x with oauthIdentities := rows }
  takeOver : ∀ x id (taken : User), taken.passwordHash = none → taken.emailVerifiedAt ≠ none →
    R x ((saveUser id taken.columns).write x x)
  insert : ∀ x (user : User), user.passwordHash = none → user.emailVerifiedAt ≠ none →
    R x ((insertUser user).write x x)

def AllowsVerification (R : Database → Database → Prop) : Prop :=
  ∀ x id now, R x ((saveUser id fun u => { u with emailVerifiedAt := some now }).write x x)

theorem accountsOnly_tokens : AllowsTokens AccountsOnly where
  refl := AccountsOnly.refl
  tokens _ _ := accountsOnly_of rfl rfl rfl rfl

theorem accountsOnly_providers : AllowsProviders AccountsOnly where
  refl := AccountsOnly.refl
  identities _ _ := accountsOnly_of rfl rfl rfl rfl
  takeOver x _ _ _ _ := accountsOnly_saveUser (by intro _; rfl) x x
  insert x user _ _ := accountsOnly_insertUser user x

theorem accountsOnly_verification : AllowsVerification AccountsOnly :=
  fun x _ _ => accountsOnly_saveUser (by intro _; rfl) x x

section Within
variable {α : Type} {R : Database → Database → Prop}

theorem within_unlessFailed {ρ : Type} {failed : Bool} {s : Query ρ} {k : ρ → Service α}
    (hs : ∀ x, R x (s.write x x)) (hk : ∀ r, (k r).Within R) :
    (unlessFailed failed s k).Within R := by
  unfold unlessFailed
  split_ifs
  · trivial
  · exact fun x => ⟨hs x, hk _⟩

theorem within_orRaise {violation : Option Constraint} {next : Service α} (h : next.Within R) :
    (orRaise violation next).Within R := by
  cases violation with
  | some c => trivial
  | none => exact h

theorem within_orValueError {β : Type} {result : Except String β} {next : β → Service α}
    (h : ∀ b, (next b).Within R) : (orValueError result next).Within R := by
  cases result with
  | error message => trivial
  | ok b => exact h b

theorem within_getCurrentUser (refl : ∀ x, R x x) (userId : UUID) :
    (getCurrentUser userId).Within R := by
  refine within_select refl ?_
  intro user?
  cases user? <;> trivial

theorem within_updateMe (refl : ∀ x, R x x) {userId : UUID} {fullName : String}
    (rename : ∀ x id, R x ((saveUser id fun u => { u with fullName := fullName }).write x x)) :
    (updateMe userId fullName).Within R :=
  (within_getCurrentUser refl userId).bind fun user x => ⟨rename x user.id, trivial⟩

theorem within_consumeEmailVerifyToken (refl : ∀ x, R x x) (verify : AllowsVerification R)
    (accounts : AccountLib) (token : String) (env : Env) :
    (consumeEmailVerifyToken accounts token env).Within R := by
  unfold consumeEmailVerifyToken
  cases accounts.jwtDecode token (env.now 0) with
  | none => trivial
  | some payload =>
    simp only
    split_ifs
    · trivial
    · cases payload.sub with
      | none => trivial
      | some id =>
        refine within_select refl ?_
        intro user?
        cases user? with
        | none => trivial
        | some user =>
          simp only
          split_ifs
          · exact fun x => ⟨verify x _ _, trivial⟩
          · trivial

section Providers
variable (h : AllowsProviders R)
include h

theorem within_linkOauthIdentity {provider : String} {openid : OpenID} {id : UUID} {user : User}
    {failed : Bool} {handler : Constraint → Service User}
    (hhandler : ∀ c, (handler c).Within R) :
    (linkOauthIdentity provider openid id user failed handler).Within R := by
  refine within_unlessFailed ?_ ?_
  · intro x
    simp only [insertOauthIdentity]
    split_ifs
    · exact h.identities x _
    · exact h.refl x
  · intro violation
    cases violation with
    | some c => exact hhandler c
    | none => trivial

theorem within_findOrCreateInner {provider : String} {openid : OpenID} {env : Env} {n : ℕ}
    {failed : Bool} {handler : Constraint → Service User}
    (hhandler : ∀ c, (handler c).Within R) :
    (findOrCreateInner provider openid env n failed handler).Within R := by
  refine within_unlessFailed h.refl ?_
  intro identity?
  cases identity? with
  | some found =>
    simp only
    split_ifs
    · exact within_unlessFailed (fun x => h.identities x _) fun _ => trivial
    · trivial
  | none =>
    refine within_unlessFailed h.refl ?_
    intro existing?
    cases existing? with
    | some existing =>
      simp only
      split_ifs
      · exact within_linkOauthIdentity h hhandler
      · refine within_unlessFailed ?_ fun _ => within_linkOauthIdentity h hhandler
        intro x
        exact h.takeOver x existing.id _ rfl (Option.some_ne_none _)
    | none =>
      refine within_unlessFailed (fun x => h.insert x _ rfl (Option.some_ne_none _)) ?_
      intro violation
      cases violation with
      | some c => exact hhandler c
      | none => exact within_linkOauthIdentity h hhandler

theorem within_findOrCreateOauthUser (provider : String) (openid : OpenID) (env : Env) :
    (findOrCreateOauthUser provider openid env).Within R :=
  within_findOrCreateInner h fun _ => within_findOrCreateInner h fun _ => trivial

end Providers

section Revocations
variable (h : AllowsRevocations R)
include h

theorem within_updateTokenRows {p : RefreshToken → Bool} {now : Time}
    {next : Service α} (hnext : next.Within R) (ids : List UUID) :
    (updateTokenRows p (RefreshToken.revoke now) next ids).Within R := by
  induction ids with
  | nil => exact hnext
  | cons id ids ih => exact fun x => ⟨h.revoke x p now id, ih⟩

theorem within_updateTokens {p : RefreshToken → Bool} {now : Time} {a : α} :
    (updateTokens p (RefreshToken.revoke now) (.ret a)).Within R := by
  refine within_select h.refl ?_
  intro ids
  have hnext : (Prog.ret a : Service α).Within R := trivial
  exact within_updateTokenRows h hnext ids

theorem within_changePassword (accounts : AccountLib) (body : ChangePasswordRequest) (user : User)
    (salt : String) (env : Env)
    (store : ∀ x hash,
      R x ((saveUser user.id fun u => { u with passwordHash := some hash }).write x x)) :
    (changePassword accounts body user salt env).Within R := by
  unfold changePassword
  cases user.passwordHash with
  | none => trivial
  | some hashed =>
    refine within_orValueError ?_
    intro verified
    split_ifs
    · refine within_orValueError ?_
      intro passwordHash x
      exact ⟨store x passwordHash, (within_updateTokens h).map _⟩
    · trivial

theorem within_logoutAll (lib : TokenLib) (cookieToken : Option String) (bearer : Option UUID)
    (env : Env) : (logoutAll lib cookieToken bearer env).Within R := by
  refine Prog.Within.bind ?_ ?_
  · cases cookieToken.filter (· ≠ "") with
    | none => trivial
    | some raw =>
      refine within_select h.refl ?_
      intro record?
      cases record? <;> trivial
  · intro found
    cases found.or bearer with
    | none => trivial
    | some userId => exact (within_updateTokens h).map _

theorem within_logout (lib : TokenLib) (cookieToken : Option String)
    (payload : Option (List (String × String))) (env : Env) :
    (logout lib cookieToken payload env).Within R := by
  unfold logout
  cases presentedToken cookieToken payload with
  | none => trivial
  | some raw => exact (within_updateTokens h).map _

end Revocations

section Tokens
variable (h : AllowsTokens R)
include h

theorem within_issueRefreshToken {settings : Settings} {lib : TokenLib} {user : User}
    {client : RefreshClient} {id : UUID} {now : Time} :
    (issueRefreshToken settings lib user client id now).Within R := by
  intro x
  refine ⟨?_, within_orRaise trivial⟩
  simp only [insertRefreshToken]
  split_ifs
  · exact h.tokens x _
  · exact h.refl x

theorem within_issuePair {settings : Settings} {lib : TokenLib}
    {reply : String → String → RefreshClient → AuthReply} {user : User} {client : RefreshClient}
    {id : UUID} {now now' : Time} :
    (issuePair settings lib reply user client id now now').Within R :=
  (within_issueRefreshToken h).bind fun _ => trivial

theorem within_login (settings : Settings) (accounts : AccountLib) (lib : TokenLib)
    (body : LoginRequest) (xClientId : Option String) (env : Env) :
    (login settings accounts lib body xClientId env).Within R := by
  refine within_select h.refl ?_
  intro user?
  cases user? with
  | none => trivial
  | some user =>
    cases hash : user.passwordHash with
    | none => simp only [hash]; trivial
    | some hashed =>
      simp only [hash]
      refine within_orValueError ?_
      intro verified
      split_ifs
      · trivial
      · exact within_issuePair h
      · trivial

theorem within_verifyEmail (verify : AllowsVerification R) (settings : Settings)
    (accounts : AccountLib) (lib : TokenLib) (token : String) (xClientId : Option String)
    (env : Env) :
    (verifyEmail settings accounts lib token xClientId env).Within R := by
  have hverified := (within_consumeEmailVerifyToken h.refl verify accounts token env).wrap
    verifyEmailError fun user => user
  exact hverified.bind fun _ => within_issuePair h

theorem within_rotateRefreshToken (settings : Settings) (lib : TokenLib) (raw : String)
    (client : RefreshClient) (env : Env) :
    (rotateRefreshToken settings lib raw client env).Within R := by
  intro x
  refine ⟨h.refl x, ?_⟩
  cases (selectRefreshTokenForUpdate (lib.sha256 raw)).result x with
  | none => trivial
  | some record =>
    simp only
    split_ifs
    · trivial
    · exact fun x => ⟨h.tokens x _, trivial⟩
    · trivial
    · refine fun x => ⟨h.tokens x _, within_select h.refl ?_⟩
      intro user?
      cases user? with
      | none => trivial
      | some user => exact (within_issueRefreshToken h).bind fun _ => trivial

theorem within_refreshTokens (settings : Settings) (lib : TokenLib)
    (xClientId cookieToken : Option String) (payload : Option (List (String × String)))
    (env : Env) :
    (refreshTokens settings lib xClientId cookieToken payload env).Within R := by
  unfold refreshTokens
  cases presentedToken cookieToken payload with
  | none => trivial
  | some raw =>
    exact Prog.Within.wrap
      (within_rotateRefreshToken h settings lib raw (getRefreshClient xClientId) env) _ _

theorem within_auth (providers : AllowsProviders R) (verify : AllowsVerification R)
    (settings : Settings) (accounts : AccountLib) (lib : TokenLib) (c : AuthCall) :
    (c.prog settings accounts lib).Within R := by
  cases c with
  | login body xClientId drawn env =>
    exact within_login h settings accounts (lib.drawing drawn) body xClientId env
  | verifyEmail token xClientId drawn env =>
    exact within_verifyEmail h verify settings accounts (lib.drawing drawn) token xClientId env
  | refresh xClientId cookieToken payload drawn env =>
    exact within_refreshTokens h settings (lib.drawing drawn) xClientId cookieToken payload env
  | findOrCreate provider openid env =>
    exact Prog.Within.map (within_findOrCreateOauthUser providers provider openid env) _
  | oauthCallback state user drawn env => exact within_issuePair h
  | logout cookieToken payload env => exact within_logout h.revocations lib cookieToken payload env

end Tokens
end Within

section Changes
variable {settings : Settings} {accounts : AccountLib} {lib : TokenLib} {db : Database}

/-- Everything a request can do to the tables: nothing but accounts and sessions, a new account with
    its job, or a call of the services by a user who is stored with the role of the endpoint. -/
inductive ApiChange (settings : Settings) (accounts : AccountLib) (db : Database) :
    ApiCall → Database → Prop
  | accounts {c : ApiCall} {db' : Database} (only : AccountsOnly db db') :
      ApiChange settings accounts db c db'
  | registers {body : RegisterRequest} {salt hash : String} {env : Env}
      (unused : userViolation db (registeredUser body env hash) = none)
      (fresh : jobsViolation db.notificationJobs
        [emailVerifyJob env (registeredUser body env hash)] = none) :
      ApiChange settings accounts db (.register body salt env)
        { db with
          users := db.users ++ [registeredUser body env hash]
          notificationJobs :=
            db.notificationJobs ++ [emailVerifyJob env (registeredUser body env hash)] }
  | service {userId : UUID} {endpoint : Endpoint} {env : Env} {user : User} {db' : Database}
      (found : db.user? userId = some user) (role : user.role = endpoint.role)
      (change : Change settings (endpoint.call user env) db db') :
      ApiChange settings accounts db (.service userId endpoint env) db'

def registeredDatabase (body : RegisterRequest) (env : Env) (hash : String) (db : Database) :
    Database :=
  { db with
    users := db.users ++ [registeredUser body env hash]
    notificationJobs := db.notificationJobs ++ [emailVerifyJob env (registeredUser body env hash)] }

theorem register_cases (settings : Settings) (accounts : AccountLib) (body : RegisterRequest)
    (salt : String) (env : Env) (db : Database) :
    ((register settings accounts body salt env).run db).1 = db ∨
      ∃ hash, hashPassword accounts body.password salt = .ok hash ∧
        userViolation db (registeredUser body env hash) = none ∧
        jobsViolation db.notificationJobs
          [emailVerifyJob env (registeredUser body env hash)] = none ∧
        ((register settings accounts body salt env).run db).1 =
          registeredDatabase body env hash db := by
  simp only [register, run_stmt, existsUserWithEmail, Stmt.select]
  split_ifs with hexists
  · exact .inl rfl
  · rw [run_transaction, registerInTransaction]
    cases hhash : hashPassword accounts body.password salt with
    | error message => exact .inl rfl
    | ok hash =>
      simp only [orValueError, run_stmt, insertUser]
      cases hviolation : userViolation db (registeredUser body env hash) with
      | some violated => exact .inl rfl
      | none =>
        simp only [orRaise, if_true]
        rw [createJobs_run]
        cases hfresh : jobsViolation db.notificationJobs
            [emailVerifyJob env (registeredUser body env hash)] with
        | some violated => exact .inl rfl
        | none => exact .inr ⟨hash, rfl, hviolation, hfresh, rfl⟩

theorem register_change (body : RegisterRequest) (salt : String) (env : Env) :
    ApiChange settings accounts db (.register body salt env)
      ((register settings accounts body salt env).run db).1 := by
  rcases register_cases settings accounts body salt env db with
    hsame | ⟨hash, _, unused, fresh, hrows⟩
  · rw [hsame]
    exact .accounts (.refl db)
  · rw [hrows]
    exact .registers unused fresh

theorem service_cases (settings : Settings) (db : Database) (userId : UUID) (endpoint : Endpoint)
    (env : Env) : ((endpoint.prog settings userId env).run db).1 = db ∨
      ∃ user, db.user? userId = some user ∧ user.role = endpoint.role ∧
        Change settings (endpoint.call user env) db
          ((endpoint.prog settings userId env).run db).1 := by
  simp only [Endpoint.prog, getCurrentUser, bind_stmt, run_stmt, selectUser, Stmt.select]
  cases hfound : Table.lookup User.id userId db.users with
  | none => exact .inl rfl
  | some user =>
    simp only [bind_ret, requireRole]
    split_ifs with hrole
    · exact .inr ⟨user, hfound, hrole, change settings (endpoint.call user env) db⟩
    · exact .inl rfl

theorem service_change (userId : UUID) (endpoint : Endpoint) (env : Env) :
    ApiChange settings accounts db (.service userId endpoint env)
      ((endpoint.prog settings userId env).run db).1 := by
  rcases service_cases settings db userId endpoint env with hsame | ⟨user, found, role, change⟩
  · rw [hsame]
    exact .accounts (.refl db)
  · exact .service found role change

/-- The inversion of one request. -/
theorem handle_change (settings : Settings) (accounts : AccountLib) (lib : TokenLib) (c : ApiCall)
    (db : Database) : ApiChange settings accounts db c (handle settings accounts lib c db) := by
  unfold handle answer ApiCall.prog
  cases c with
  | service userId endpoint env =>
    simp only
    rw [run_map]
    exact service_change userId endpoint env
  | register body salt env =>
    simp only
    rw [run_map]
    exact register_change body salt env
  | updateMe userId fullName =>
    have hwithin : (updateMe userId fullName).Within AccountsOnly :=
      within_updateMe AccountsOnly.refl fun x _ => accountsOnly_saveUser (by intro _; rfl) x x
    exact .accounts ((hwithin.map _).run AccountsOnly.refl AccountsOnly.trans db)
  | changePassword userId body salt env =>
    have hwithin : (changePasswordCall accounts userId body salt env).Within AccountsOnly :=
      (within_getCurrentUser AccountsOnly.refl userId).bind fun user =>
        within_changePassword accountsOnly_tokens.revocations accounts body user salt env fun x _ =>
          accountsOnly_saveUser (by intro _; rfl) x x
    exact .accounts ((hwithin.map _).run AccountsOnly.refl AccountsOnly.trans db)
  | logoutAll cookieToken bearer env =>
    have hwithin := (within_logoutAll accountsOnly_tokens.revocations lib cookieToken bearer
      env).map ApiReply.auth
    exact .accounts (hwithin.run AccountsOnly.refl AccountsOnly.trans db)
  | auth c =>
    have hwithin := (within_auth accountsOnly_tokens accountsOnly_providers
      accountsOnly_verification settings accounts lib c).map ApiReply.auth
    exact .accounts (hwithin.run AccountsOnly.refl AccountsOnly.trans db)

end Changes
end Hefest
