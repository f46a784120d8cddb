import Hefest.AccountLinks
import Hefest.Custody

set_option autoImplicit false

/-!
# Visits

A visit is one request from beginning to end, none beside it, and no statement of it fails for want
of the database. The callback of an OAuth provider makes two calls, one after the other: the user is
found or created, and then gets a token. What every visit keeps is that ids and e-mails are unique,
that identities belong to verified accounts, and that a verified account stays one.
-/
namespace Hefest
open Transaction Transition

/-- Every request but the two calls that only a callback makes. -/
def ApiCall.whole : ApiCall → Bool
  | .auth (.findOrCreate _ _ _) | .auth (.oauthCallback _ _ _ _) => false
  | _ => true

/-- One request. `openid` is what the provider answers to `verify_and_process`. -/
inductive Visit
  | api (c : ApiCall) (whole : c.whole = true)
  | oauth (provider : String) (openid : OpenID) (state : Option String) (drawn : String) (env : Env)

def Env.drop (env : Env) (n : ℕ) : Env := ⟨fun k => env.now (n + k), fun k => env.uuid (n + k)⟩

section Answers
variable (settings : Settings) (accounts : AccountLib) (lib : TokenLib)

def visitOauth (provider : String) (openid : OpenID) (state : Option String) (drawn : String)
    (env : Env) (db : Database) : Database × Except ApiError AuthReply :=
  match (findOrCreateOauthUser provider openid env).run db with
  | (db', .error e) => (db', .error e)
  | (db', .ok user) =>
    (oauthCallback settings (lib.drawing drawn) state user (env.drop 4)).run db'

def visitAnswer : Visit → Database → Database × Except ApiError ApiReply
  | .api c _, db => answer settings accounts lib c db
  | .oauth provider openid state drawn env, db =>
    let (db', reply) := visitOauth settings lib provider openid state drawn env db
    (db', reply.map .auth)

/-- The database after one visit. Visits run one after the other, and none of them is broken off. -/
def visit (v : Visit) (db : Database) : Database := (visitAnswer settings accounts lib v db).1

def visitedAt (db₀ : Database) (visits : List Visit) (n : ℕ) : Database :=
  after (visit settings accounts lib) db₀ (visits.take n)

end Answers

/-- `R` allows what the calls on an account write that no provider has a part in. -/
structure AllowsWhole (R : Database → Database → Prop) : Prop extends AllowsTokens R where
  verify : AllowsVerification R
  rename : ∀ x id fullName, R x ((saveUser id fun u => { u with fullName := fullName }).write x x)
  store : ∀ x id hash,
    R x ((saveUser id fun u => { u with passwordHash := some hash }).write x x)

section Whole
variable {R : Database → Database → Prop} {settings : Settings} {accounts : AccountLib}
  {lib : TokenLib}

def ApiCall.onAccount : ApiCall → Bool
  | .service _ _ _ | .register _ _ _ => false
  | _ => true

theorem within_whole (h : AllowsWhole R) {c : ApiCall} (whole : c.whole = true)
    (account : c.onAccount = true) : (c.prog settings accounts lib).Within R := by
  cases c with
  | service => cases account
  | register => cases account
  | updateMe userId fullName =>
    exact (within_updateMe h.refl fun x id => h.rename x id fullName).map _
  | changePassword userId body salt env =>
    refine Prog.Within.map ((within_getCurrentUser h.refl userId).bind ?_) _
    intro user
    exact within_changePassword h.toAllowsTokens.revocations accounts body user salt env
      fun x hash => h.store x user.id hash
  | logoutAll cookieToken bearer env =>
    exact (within_logoutAll h.toAllowsTokens.revocations lib cookieToken bearer env).map _
  | auth c =>
    cases c with
    | login body xClientId drawn env =>
      exact (within_login h.toAllowsTokens settings accounts _ body xClientId env).map _
    | verifyEmail token xClientId drawn env =>
      exact (within_verifyEmail h.toAllowsTokens h.verify settings accounts _ token xClientId
        env).map _
    | refresh xClientId cookieToken payload drawn env =>
      exact (within_refreshTokens h.toAllowsTokens settings _ xClientId cookieToken payload
        env).map _
    | findOrCreate => cases whole
    | oauthCallback => cases whole
    | logout cookieToken payload env =>
      exact (within_logout h.toAllowsTokens.revocations lib cookieToken payload env).map _

end Whole

structure KeepsUsers (x y : Database) : Prop where
  stays : ∀ u ∈ x.users, ∃ u' ∈ y.users, u'.id = u.id ∧ u'.email = u.email
  ids : Table.KeyUnique User.id x.users → Table.KeyUnique User.id y.users
  emails : Table.KeyUnique User.email x.users → Table.KeyUnique User.email y.users
  verified : ∀ u ∈ x.users, u.emailVerifiedAt ≠ none →
    ∃ u' ∈ y.users, u'.id = u.id ∧ u'.emailVerifiedAt ≠ none

section KeepsUsers
variable {x y : Database}

theorem KeepsUsers.trans (x y z : Database) (h : KeepsUsers x y) (h' : KeepsUsers y z) :
    KeepsUsers x z where
  stays u hu := by
    obtain ⟨u', hu', hid, hemail⟩ := h.stays u hu
    obtain ⟨u'', hu'', hid', hemail'⟩ := h'.stays u' hu'
    exact ⟨u'', hu'', hid'.trans hid, hemail'.trans hemail⟩
  ids hx := h'.ids (h.ids hx)
  emails hx := h'.emails (h.emails hx)
  verified u hu hverified := by
    obtain ⟨u', hu', hid, hverified'⟩ := h.verified u hu hverified
    obtain ⟨u'', hu'', hid', hverified''⟩ := h'.verified u' hu' hverified'
    exact ⟨u'', hu'', hid'.trans hid, hverified''⟩

theorem keepsUsers_of (users : y.users = x.users) : KeepsUsers x y where
  stays u hu := ⟨u, users ▸ hu, rfl, rfl⟩
  ids := by rw [users]; exact id
  emails := by rw [users]; exact id
  verified u hu hverified := ⟨u, users ▸ hu, rfl, hverified⟩

theorem KeepsUsers.refl (x : Database) : KeepsUsers x x := keepsUsers_of rfl

theorem keepsUsers_save {id : UUID} {set : User → User}
    (hset : ∀ u, (set u).id = u.id ∧ (set u).email = u.email)
    (hverified : ∀ u, u.emailVerifiedAt ≠ none → (set u).emailVerifiedAt ≠ none)
    (seen x : Database) : KeepsUsers x ((saveUser id set).write seen x) where
  stays u hu := by
    by_cases hid : u.id = id
    · exact ⟨set u, Table.mem_update.mpr (.inr ⟨u, hu, hid, rfl⟩), hset u⟩
    · exact ⟨u, Table.mem_update.mpr (.inl ⟨hu, hid⟩), rfl, rfl⟩
  ids h := Table.keyUnique_update h fun u => (hset u).1
  emails h := by
    change ((Table.update User.id id set x.users).map User.email).Nodup
    rw [Table.map_update User.email fun u => (hset u).2]
    exact h
  verified u hu h := by
    by_cases hid : u.id = id
    · exact ⟨set u, Table.mem_update.mpr (.inr ⟨u, hu, hid, rfl⟩), (hset u).1, hverified u h⟩
    · exact ⟨u, Table.mem_update.mpr (.inl ⟨hu, hid⟩), rfl, h⟩

theorem keepsUsers_append {new : User} (hnew : userViolation x new = none)
    (users : y.users = x.users ++ [new]) : KeepsUsers x y where
  stays u hu := ⟨u, by rw [users]; exact List.mem_append_left _ hu, rfl, rfl⟩
  ids h := by
    rw [users]
    exact Table.keyUnique_insert h (userViolation_none hnew).1
  emails h := by
    rw [users]
    exact Table.keyUnique_insert h (userViolation_none hnew).2
  verified u hu h := ⟨u, by rw [users]; exact List.mem_append_left _ hu, rfl, h⟩

theorem keepsUsers_insert (new : User) (x : Database) :
    KeepsUsers x ((insertUser new).write x x) := by
  simp only [insertUser]
  split_ifs with hnew
  · exact keepsUsers_append hnew rfl
  · exact .refl x

theorem keepsUsers_providers : AllowsProviders KeepsUsers where
  refl := .refl
  identities _ _ := keepsUsers_of rfl
  takeOver x id taken _ hverified :=
    keepsUsers_save (by intro _; exact ⟨rfl, rfl⟩) (by intro _ _; exact hverified) x x
  insert x user _ _ := keepsUsers_insert user x

end KeepsUsers

structure KeepsAccounts (x y : Database) : Prop extends KeepsUsers x y where
  identities : y.oauthIdentities = x.oauthIdentities

theorem KeepsAccounts.trans (x y z : Database) (h : KeepsAccounts x y) (h' : KeepsAccounts y z) :
    KeepsAccounts x z where
  toKeepsUsers := KeepsUsers.trans x y z h.toKeepsUsers h'.toKeepsUsers
  identities := h'.identities.trans h.identities

theorem KeepsAccounts.refl (x : Database) : KeepsAccounts x x := ⟨.refl x, rfl⟩

theorem keepsAccounts_whole : AllowsWhole KeepsAccounts where
  refl := .refl
  tokens _ _ := ⟨keepsUsers_of rfl, rfl⟩
  verify x id now :=
    ⟨keepsUsers_save (by intro _; exact ⟨rfl, rfl⟩) (by intro _ _; exact Option.some_ne_none _) x x,
      rfl⟩
  rename x id fullName :=
    ⟨keepsUsers_save (by intro _; exact ⟨rfl, rfl⟩) (by intro _ h; exact h) x x, rfl⟩
  store x id hash :=
    ⟨keepsUsers_save (by intro _; exact ⟨rfl, rfl⟩) (by intro _ h; exact h) x x, rfl⟩

theorem KeepsAccounts.linked {x y : Database} (h : KeepsAccounts x y) (hx : Linked x) :
    Linked y where
  ids := h.ids hx.ids
  owner i hi := by
    rw [h.identities] at hi
    obtain ⟨u, hu, hid, hverified⟩ := hx.owner i hi
    obtain ⟨u', hu', hid', hverified'⟩ := h.verified u hu hverified
    exact ⟨u', hu', hid'.trans hid, hverified'⟩

section Step
variable {settings : Settings} {accounts : AccountLib} {lib : TokenLib} {db db' : Database}

theorem Change.ofAccounts {call : Call} (h : Change settings call db db') :
    db'.users = db.users ∧ db'.oauthIdentities = db.oauthIdentities ∧
      db'.refreshTokens = db.refreshTokens := by
  cases h <;> exact ⟨rfl, rfl, rfl⟩

theorem service_ofAccounts (settings : Settings) (db : Database) (userId : UUID)
    (endpoint : Endpoint) (env : Env) {db' : Database}
    (h : db' = ((endpoint.prog settings userId env).run db).1) :
    db'.users = db.users ∧ db'.oauthIdentities = db.oauthIdentities ∧
      db'.refreshTokens = db.refreshTokens := by
  subst h
  rcases service_cases settings db userId endpoint env with hsame | ⟨user, _, _, change⟩
  · rw [hsame]
    exact ⟨rfl, rfl, rfl⟩
  · exact change.ofAccounts

theorem handle_run (c : ApiCall) (db : Database) :
    handle settings accounts lib c db = ((c.prog settings accounts lib).run db).1 := rfl

theorem handle_keepsAccounts {c : ApiCall} (whole : c.whole = true) (db : Database) :
    KeepsAccounts db (handle settings accounts lib c db) := by
  rw [handle_run]
  by_cases account : c.onAccount = true
  · exact (within_whole keepsAccounts_whole whole account).run .refl .trans db
  · cases c with
    | register body salt env =>
      rw [ApiCall.prog, run_map]
      rcases register_cases settings accounts body salt env db with
        hsame | ⟨hash, _, unused, _, hrows⟩
      · rw [hsame]
        exact .refl db
      · rw [hrows]
        exact ⟨keepsUsers_append unused rfl, rfl⟩
    | service userId endpoint env =>
      rw [ApiCall.prog, run_map]
      obtain ⟨husers, hidentities, _⟩ := service_ofAccounts settings db userId endpoint env rfl
      exact ⟨keepsUsers_of husers, hidentities⟩
    | _ => exact absurd rfl account

theorem visitOauth_cases (settings : Settings) (lib : TokenLib) (provider : String)
    (openid : OpenID) (state : Option String) (drawn : String) (env : Env) (db : Database) :
    (∃ e, visitOauth settings lib provider openid state drawn env db = (db, .error e)) ∨
      ∃ db' user, (findOrCreateOauthUser provider openid env).run db = (db', .ok user) ∧
        visitOauth settings lib provider openid state drawn env db =
          (oauthCallback settings (lib.drawing drawn) state user (env.drop 4)).run db' := by
  unfold visitOauth
  rcases hrun : (findOrCreateOauthUser provider openid env).run db with ⟨db', r⟩
  cases r with
  | error e =>
    left
    rw [run_transaction_error hrun]
    exact ⟨e, rfl⟩
  | ok user => exact .inr ⟨db', user, rfl, rfl⟩

theorem keepsUsers_tokens : AllowsTokens KeepsUsers where
  refl := .refl
  tokens _ _ := keepsUsers_of rfl

theorem visit_oauth (provider : String) (openid : OpenID) (state : Option String) (drawn : String)
    (env : Env) (db : Database) :
    visit settings accounts lib (.oauth provider openid state drawn env) db =
      (visitOauth settings lib provider openid state drawn env db).1 := rfl

theorem visit_keepsUsers (v : Visit) (db : Database) :
    KeepsUsers db (visit settings accounts lib v db) := by
  cases v with
  | api c whole => exact (handle_keepsAccounts whole db).toKeepsUsers
  | oauth provider openid state drawn env =>
    rw [visit_oauth]
    rcases visitOauth_cases settings lib provider openid state drawn env db with
      ⟨e, hfailed⟩ | ⟨db', user, hrun, hcallback⟩
    · rw [hfailed]
      exact .refl db
    · rw [hcallback]
      have hfirst := (within_findOrCreateOauthUser keepsUsers_providers provider openid env).run
        .refl .trans db
      rw [hrun] at hfirst
      exact .trans _ _ _ hfirst ((within_issuePair keepsUsers_tokens).run .refl .trans db')

theorem visit_linked (v : Visit) (hdb : Linked db) : Linked (visit settings accounts lib v db) := by
  cases v with
  | api c whole => exact (handle_keepsAccounts whole db).linked hdb
  | oauth provider openid state drawn env =>
    rw [visit_oauth]
    rcases visitOauth_cases settings lib provider openid state drawn env db with
      ⟨e, hfailed⟩ | ⟨db', user, hrun, hcallback⟩
    · rw [hfailed]
      exact hdb
    · rw [hcallback]
      have hlinked : Linked db' := (findOrCreateOauthUser_ok hdb hrun).1.linked
      have hwithin : (oauthCallback settings (lib.drawing drawn) state user
          (env.drop 4)).Within KeepsAccounts := within_issuePair keepsAccounts_whole.toAllowsTokens
      exact (hwithin.run .refl .trans db').linked hlinked

end Step

section Runs
variable {settings : Settings} {accounts : AccountLib} {lib : TokenLib} {db₀ : Database}
  {visits : List Visit}

theorem visitedAt_linked (h₀ : Linked db₀) (n : ℕ) :
    Linked (visitedAt settings accounts lib db₀ visits n) :=
  after_invariant (visit settings accounts lib) Linked (fun _ => True)
    (fun v _ _ h => visit_linked v h) _ _ h₀ (fun _ _ => trivial)

theorem visitedAt_succ {n : ℕ} {v : Visit} (h : visits[n]? = some v) :
    visitedAt settings accounts lib db₀ visits (n + 1) =
      visit settings accounts lib v (visitedAt settings accounts lib db₀ visits n) :=
  after_take_succ _ _ _ _ _ h

theorem visitedAt_keepsUsers {n m : ℕ} (hnm : n ≤ m) :
    KeepsUsers (visitedAt settings accounts lib db₀ visits n)
      (visitedAt settings accounts lib db₀ visits m) :=
  take_stable (visit settings accounts lib)
    (fun db => KeepsUsers (visitedAt settings accounts lib db₀ visits n) db)
    (fun v db h => .trans _ _ _ h (visit_keepsUsers v db)) db₀ visits hnm (.refl _)

end Runs
end Hefest
