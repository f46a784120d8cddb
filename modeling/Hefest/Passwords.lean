import Hefest.Sessions

set_option autoImplicit false

namespace Hefest
open Transaction Transition

def HasPassword (db : Database) (id : UUID) (hash : String) : Prop :=
  ∃ u ∈ db.users, u.id = id ∧ u.passwordHash = some hash

inductive SetsPassword (accounts : AccountLib) (db : Database) : Visit → UUID → String → Prop
  | register {body : RegisterRequest} {salt hash : String} {env : Env}
      {whole : (ApiCall.register body salt env).whole = true}
      (hashed : hashPassword accounts body.password salt = .ok hash)
      (unused : ∀ u ∈ db.users, u.id ≠ env.uuid 0 ∧ u.email ≠ body.email) :
      SetsPassword accounts db (.api (.register body salt env) whole) (env.uuid 0) hash
  | change {id : UUID} {body : ChangePasswordRequest} {salt hash : String} {env : Env}
      {whole : (ApiCall.changePassword id body salt env).whole = true} {user : User}
      (found : db.user? id = some user) (changes : PasswordChanges accounts body salt user hash) :
      SetsPassword accounts db (.api (.changePassword id body salt env) whole) id hash

def PasswordsFor (new : UUID → String → Prop) (x y : Database) : Prop :=
  ∀ id hash, HasPassword y id hash → HasPassword x id hash ∨ new id hash

section Frames
variable {new : UUID → String → Prop} {x y : Database}

theorem PasswordsFor.trans (x y z : Database) (h : PasswordsFor new x y)
    (h' : PasswordsFor new y z) : PasswordsFor new x z := by
  intro id hash hlast
  rcases h' id hash hlast with hbefore | hnew
  · exact h id hash hbefore
  · exact .inr hnew

theorem passwordsFor_of (users : y.users = x.users) : PasswordsFor new x y := by
  rintro id hash ⟨u, hu, hlast⟩
  exact .inl ⟨u, users ▸ hu, hlast⟩

theorem PasswordsFor.refl (x : Database) : PasswordsFor new x x := passwordsFor_of rfl

theorem passwordsFor_save {id : UUID} {set : User → User} (hid : ∀ u, (set u).id = u.id)
    (hset : ∀ u hash, (set u).passwordHash = some hash →
      u.passwordHash = some hash ∨ new id hash) (seen x : Database) :
    PasswordsFor new x ((saveUser id set).write seen x) := by
  rintro id' hash ⟨u, hu, rfl, hhash⟩
  rcases Table.mem_update.mp hu with ⟨hmem, _⟩ | ⟨u₀, hmem, rfl, rfl⟩
  · exact .inl ⟨u, hmem, rfl, hhash⟩
  · rw [hid]
    rcases hset u₀ hash hhash with hbefore | hnew
    · exact .inl ⟨u₀, hmem, rfl, hbefore⟩
    · exact .inr hnew

theorem passwordsFor_append {user : User}
    (huser : ∀ hash, user.passwordHash = some hash → new user.id hash)
    (users : y.users = x.users ++ [user]) : PasswordsFor new x y := by
  rintro id hash ⟨u, hu, rfl, hhash⟩
  rw [users] at hu
  rcases List.mem_append.mp hu with hold | hnew
  · exact .inl ⟨u, hold, rfl, hhash⟩
  · obtain rfl := List.mem_singleton.mp hnew
    exact .inr (huser hash hhash)

theorem passwordsFor_tokens : AllowsTokens (PasswordsFor new) where
  refl := .refl
  tokens _ _ := passwordsFor_of rfl

theorem passwordsFor_providers : AllowsProviders (PasswordsFor new) where
  refl := .refl
  identities _ _ := passwordsFor_of rfl
  takeOver x id taken hnone _ := by
    refine passwordsFor_save (by intro _; rfl) ?_ x x
    intro u hash hhash
    exact absurd (hnone.symm.trans hhash) (by simp)
  insert x user hnone _ := by
    simp only [insertUser]
    split_ifs
    · refine passwordsFor_append ?_ rfl
      intro hash hhash
      rw [hnone] at hhash
      cases hhash
    · exact .refl x

theorem passwordsFor_verification : AllowsVerification (PasswordsFor new) :=
  fun x _ _ => passwordsFor_save (by intro _; rfl) (by intro _ _ h; exact .inl h) x x

end Frames

section Step
variable {settings : Settings} {accounts : AccountLib} {lib : TokenLib}

theorem handle_passwords {c : ApiCall} (whole : c.whole = true) (db : Database) :
    PasswordsFor (SetsPassword accounts db (.api c whole)) db
      (handle settings accounts lib c db) := by
  rw [handle_run]
  cases c with
  | service userId endpoint env =>
    rw [ApiCall.prog, run_map]
    exact passwordsFor_of (service_ofAccounts settings db userId endpoint env rfl).1
  | register body salt env =>
    rw [ApiCall.prog, run_map]
    rcases register_cases settings accounts body salt env db with
      hsame | ⟨hash, hhashed, hunused, _, hrows⟩
    · rw [hsame]
      exact .refl db
    · rw [hrows]
      have hfree := userViolation_none hunused
      refine passwordsFor_append ?_ rfl
      rintro hash' ⟨⟩
      exact .register hhashed fun u hu => ⟨hfree.1 u hu, hfree.2 u hu⟩
  | updateMe userId fullName =>
    rw [ApiCall.prog, run_map]
    refine (within_updateMe .refl fun x id => ?_).run .refl .trans db
    exact passwordsFor_save (by intro _; rfl) (by intro _ _ h; exact .inl h) x x
  | changePassword userId body salt env =>
    rw [ApiCall.prog, run_map]
    by_cases h : ∃ user newHash, db.user? userId = some user ∧
        PasswordChanges accounts body salt user newHash
    · obtain ⟨user, newHash, hfound, hchanges⟩ := h
      rw [changePassword_run hfound hchanges env]
      have hstored : PasswordsFor
          (SetsPassword accounts db (.api (.changePassword userId body salt env) whole)) db
          (storePassword userId newHash db) :=
        passwordsFor_save (by intro _; rfl) (by rintro _ _ ⟨⟩; exact .inr (.change hfound hchanges))
          db db
      exact hstored
    · obtain ⟨e, hrefused⟩ := changePassword_run_refused env fun user newHash hfound hchanges =>
        h ⟨user, newHash, hfound, hchanges⟩
      rw [hrefused]
      exact .refl db
  | logoutAll cookieToken bearer env =>
    rw [ApiCall.prog, run_map]
    exact (within_logoutAll passwordsFor_tokens.revocations lib cookieToken bearer env).run
      .refl .trans db
  | auth a =>
    rw [ApiCall.prog, run_map]
    exact (within_auth passwordsFor_tokens passwordsFor_providers passwordsFor_verification settings
      accounts lib a).run .refl .trans db

theorem visit_passwords (v : Visit) (db : Database) :
    PasswordsFor (SetsPassword accounts db v) db (visit settings accounts lib v db) := by
  cases v with
  | api c whole => exact handle_passwords whole db
  | oauth provider openid state drawn env =>
    rw [visit_oauth]
    rcases visitOauth_cases settings lib provider openid state drawn env db with
      ⟨e, hfailed⟩ | ⟨db', user, hrun, hcallback⟩
    · rw [hfailed]
      exact .refl db
    · rw [hcallback]
      have hfirst : PasswordsFor (SetsPassword accounts db (.oauth provider openid state drawn env))
          db ((findOrCreateOauthUser provider openid env).run db).1 :=
        (within_findOrCreateOauthUser passwordsFor_providers provider openid env).run
          .refl .trans db
      rw [hrun] at hfirst
      exact .trans _ _ _ hfirst ((within_issuePair passwordsFor_tokens).run .refl .trans db')

end Step

section Runs
variable {settings : Settings} {accounts : AccountLib} {lib : TokenLib} {db₀ : Database}
  {visits : List Visit}

/-- The password of an account has been there all along, or a visitor has chosen it: for the new
    account, or knowing the password before. And since then nobody has changed it. -/
theorem password_origin (settings : Settings) (accounts : AccountLib) (lib : TokenLib)
    (db₀ : Database) (visits : List Visit) (n m : ℕ) (hnm : n ≤ m) (id : UUID) (hash : String)
    (h : HasPassword (visitedAt settings accounts lib db₀ visits m) id hash) :
    (∀ j, n ≤ j → j ≤ m → HasPassword (visitedAt settings accounts lib db₀ visits j) id hash) ∨
      ∃ k v, n ≤ k ∧ k < m ∧ visits[k]? = some v ∧
        SetsPassword accounts (visitedAt settings accounts lib db₀ visits k) v id hash ∧
        ∀ j, k < j → j ≤ m →
          HasPassword (visitedAt settings accounts lib db₀ visits j) id hash := by
  have horigin := exists_origin (visit settings accounts lib) db₀ visits
    (H := fun db (x : UUID × String) => HasPassword db x.1 x.2) (L := Eq)
    (E := fun db v x => SetsPassword accounts db v x.1 x.2) (fun _ => rfl)
    (fun _ _ _ h h' => h.trans h') (fun _ _ _ _ h hset => h ▸ hset) ?_ hnm (y := (id, hash)) h
  · rcases horigin with halong | ⟨k, v, hk, hkm, hv, hset, hsince⟩
    · left
      intro j hj hjm
      obtain ⟨_, hpassword, rfl⟩ := halong j hj hjm
      exact hpassword
    · refine .inr ⟨k, v, hk, hkm, hv, hset, ?_⟩
      intro j hj hjm
      obtain ⟨_, hpassword, rfl⟩ := hsince j hj hjm
      exact hpassword
  · rintro k v ⟨id, hash⟩ hv hpassword
    have hnext : visitedAt settings accounts lib db₀ visits (k + 1) =
        visit settings accounts lib v (visitedAt settings accounts lib db₀ visits k) :=
      visitedAt_succ hv
    have hafter : HasPassword (visitedAt settings accounts lib db₀ visits (k + 1)) id hash :=
      hpassword
    rw [hnext] at hafter
    rcases visit_passwords v _ id hash hafter with hbefore | hset
    · exact .inl ⟨(id, hash), hbefore, rfl⟩
    · exact .inr hset

def Passwordless (id : UUID) (db : Database) : Prop :=
  ∃ u ∈ db.users, u.id = id ∧ u.passwordHash = none

theorem Passwordless.not_hasPassword {id : UUID} {hash : String} {db : Database}
    (h : Passwordless id db) (hids : Table.KeyUnique User.id db.users) :
    ¬ HasPassword db id hash := by
  obtain ⟨u, hu, hid, hnone⟩ := h
  rintro ⟨u', hu', hid', hsome⟩
  rw [hids.eq_of_key hu hu' (hid.trans hid'.symm), hsome] at hnone
  cases hnone

theorem Passwordless.not_sets {id : UUID} {hash : String} {db : Database} {v : Visit}
    (h : Passwordless id db) (hids : Table.KeyUnique User.id db.users) :
    ¬ SetsPassword accounts db v id hash := by
  intro hset
  cases hset with
  | register _ unused =>
    obtain ⟨u, hu, hid, _⟩ := h
    exact (unused u hu).1 hid
  | change found changes =>
    obtain ⟨⟨hashed, hhash, _⟩, _⟩ := changes
    exact h.not_hasPassword hids ⟨_, Table.lookup_mem found, Table.lookup_key found, hhash⟩

theorem Passwordless.stays {id : UUID} {db : Database} (h : Passwordless id db)
    (hids : Table.KeyUnique User.id db.users) (v : Visit) :
    Passwordless id (visit settings accounts lib v db) := by
  obtain ⟨u, hu, hid, hnone⟩ := h
  have hkept : KeepsUsers db (visit settings accounts lib v db) := visit_keepsUsers v db
  obtain ⟨u', hu', hid', _⟩ := hkept.stays u hu
  refine ⟨u', hu', hid'.trans hid, ?_⟩
  cases hhash : u'.passwordHash with
  | none => rfl
  | some hash =>
    rcases visit_passwords v db id hash ⟨u', hu', hid'.trans hid, hhash⟩ with hbefore | hset
    · exact absurd hbefore (Passwordless.not_hasPassword ⟨u, hu, hid, hnone⟩ hids)
    · exact absurd hset (Passwordless.not_sets ⟨u, hu, hid, hnone⟩ hids)

theorem visitedAt_passwordless (h₀ : Linked db₀) {n m : ℕ} (hnm : n ≤ m) {id : UUID}
    (h : Passwordless id (visitedAt settings accounts lib db₀ visits n)) :
    Passwordless id (visitedAt settings accounts lib db₀ visits m) := by
  have hrun : Linked (visitedAt settings accounts lib db₀ visits m) ∧
      Passwordless id (visitedAt settings accounts lib db₀ visits m) :=
    take_stable (visit settings accounts lib) (fun db => Linked db ∧ Passwordless id db)
      (fun v db h => ⟨visit_linked v h.1, h.2.stays h.1.ids v⟩) db₀ visits hnm
      ⟨visitedAt_linked h₀ n, h⟩
  exact hrun.2

theorem keepsRows_tokens : AllowsTokens fun x y => y.users = x.users where
  refl _ := rfl
  tokens _ _ := rfl

theorem findOrCreateInner_takesOver {provider : String} {openid : OpenID} {env : Env} {n : ℕ}
    {handler : Constraint → Service User} {db db' : Database} {squatter user : User}
    (hraises : ∀ violated, Raises (handler violated))
    (unknown : db.oauthIdentity? provider openid.id = none)
    (found : db.userByEmail? openid.email = some squatter)
    (dormant : squatter.emailVerifiedAt = none)
    (h : (findOrCreateInner provider openid env n false handler).run db = (db', .ok user)) :
    user = squatter.takeOver openid (env.now n) := by
  have hverified : ¬ squatter.emailVerifiedAt ≠ none := not_not.mpr dormant
  simp only [findOrCreateInner, unlessFailed, Bool.false_eq_true, if_false, run_stmt,
    selectOauthIdentity, selectUserByEmail, Stmt.select, unknown, Option.bind_none, found,
    if_neg hverified] at h
  exact linkOauthIdentity_returns hraises h

/-- A callback for an e-mail that was registered but never verified takes the account over. -/
theorem findOrCreateOauthUser_takesOver {provider : String} {openid : OpenID} {env : Env}
    {db db' : Database} {squatter user : User} (hdb : Linked db)
    (unknown : db.oauthIdentity? provider openid.id = none)
    (found : db.userByEmail? openid.email = some squatter)
    (dormant : squatter.emailVerifiedAt = none)
    (h : (findOrCreateOauthUser provider openid env).run db = (db', .ok user)) :
    Passwordless squatter.id db' := by
  have hreturns : user = squatter.takeOver openid (env.now 0) := by
    have hinner := h
    rw [findOrCreateOauthUser, run_transaction] at hinner
    rcases hrun : (findOrCreateInTransaction provider openid env).run db with ⟨v, r⟩
    rw [hrun] at hinner
    cases r with
    | error e => cases hinner
    | ok returned =>
      cases hinner
      refine findOrCreateInner_takesOver ?_ unknown found dormant hrun
      intro violated db
      exact ⟨_, rfl⟩
  refine ⟨user, (findOrCreateOauthUser_ok hdb h).2.mem, ?_, ?_⟩
  · rw [hreturns]
    rfl
  · rw [hreturns]
    rfl

/-- The callback succeeds, to its last statement, and takes over an account whose e-mail nobody had
    verified. -/
structure TakesOver (settings : Settings) (lib : TokenLib) (db : Database) (v : Visit)
    (squatter : User) : Prop where
  callback : ∃ provider openid state drawn env, v = .oauth provider openid state drawn env ∧
    db.oauthIdentity? provider openid.id = none ∧ db.userByEmail? openid.email = some squatter ∧
    ∃ reply, (visitOauth settings lib provider openid state drawn env db).2 = .ok reply
  dormant : squatter.emailVerifiedAt = none

theorem TakesOver.passwordless (accounts : AccountLib) {db : Database} {v : Visit}
    {squatter : User} (hdb : Linked db) (h : TakesOver settings lib db v squatter) :
    squatter ∈ db.users ∧ Passwordless squatter.id (visit settings accounts lib v db) := by
  obtain ⟨⟨provider, openid, state, drawn, env, rfl, unknown, found, reply, hok⟩, dormant⟩ := h
  refine ⟨Table.lookup_mem found, ?_⟩
  rw [visit_oauth]
  rcases visitOauth_cases settings lib provider openid state drawn env db with
    ⟨e, hfailed⟩ | ⟨db', user, hrun, hcallback⟩
  · rw [hfailed] at hok
    cases hok
  · rw [hcallback]
    obtain ⟨u, hu, hid, hnone⟩ := findOrCreateOauthUser_takesOver hdb unknown found dormant hrun
    have husers : ((oauthCallback settings (lib.drawing drawn) state user
        (env.drop 4)).run db').1.users = db'.users :=
      (within_issuePair keepsRows_tokens).run (fun _ => rfl) (fun _ _ _ h h' => Eq.trans h' h) db'
    exact ⟨u, husers ▸ hu, hid, hnone⟩

theorem login_passwordless {body : LoginRequest} {xClientId : Option String} {env : Env}
    {db : Database} {user : User} (hemails : Table.KeyUnique User.email db.users)
    (hids : Table.KeyUnique User.id db.users) (hnone : Passwordless user.id db)
    (hmem : ∃ u ∈ db.users, u.id = user.id ∧ u.email = body.email) :
    (login settings accounts lib body xClientId env).run db = (db, .error invalidCredentials) := by
  obtain ⟨u, hu, hid, hemail⟩ := hmem
  have hfound : db.userByEmail? body.email = some u := hemails.lookup_iff.mpr ⟨hu, hemail⟩
  have hhash : u.passwordHash = none := by
    obtain ⟨u', hu', hid', hnone'⟩ := hnone
    rw [hids.eq_of_key hu hu' (hid.trans hid'.symm)]
    exact hnone'
  simp only [login, run_stmt, selectUserByEmail, Stmt.select, hfound, hhash, run_raise]

/-- Whoever registers the e-mail of somebody else and never verifies it is shut out once a callback
    lets its owner in through a provider: from then on no password opens the account, it never gets
    one, and every session it has goes back to a link that was mailed to it or to the provider. -/
theorem takeover_evicts (settings : Settings) (accounts : AccountLib) (lib : TokenLib)
    (db₀ : Database) (h₀ : Housed db₀) (hemails : Table.KeyUnique User.email db₀.users)
    (visits : List Visit) (k m : ℕ) (hkm : k < m) (v : Visit) (hv : visits[k]? = some v)
    (squatter : User)
    (h : TakesOver settings lib (visitedAt settings accounts lib db₀ visits k) v squatter) :
    (∀ hash, ¬ HasPassword (visitedAt settings accounts lib db₀ visits m) squatter.id hash) ∧
    (∀ body xClientId drawn env, body.email = squatter.email →
      (login settings accounts (lib.drawing drawn) body xClientId env).run
          (visitedAt settings accounts lib db₀ visits m) =
        (visitedAt settings accounts lib db₀ visits m, .error invalidCredentials)) ∧
    (ActiveSession (visitedAt settings accounts lib db₀ visits m) squatter.id →
      ∃ j w, k ≤ j ∧ j < m ∧ visits[j]? = some w ∧
        Proves accounts (visitedAt settings accounts lib db₀ visits j) w squatter.id ∧
        ∀ body xClientId drawn env whole,
          w ≠ .api (.auth (.login body xClientId drawn env)) whole) := by
  have hlinked : ∀ n, Linked (visitedAt settings accounts lib db₀ visits n) :=
    visitedAt_linked h₀.linked
  obtain ⟨hmem, hfirst⟩ := h.passwordless accounts (hlinked k)
  have hlater : ∀ j, k < j → Passwordless squatter.id
      (visitedAt settings accounts lib db₀ visits j) := by
    intro j hkj
    refine visitedAt_passwordless h₀.linked hkj ?_
    rw [visitedAt_succ hv]
    exact hfirst
  refine ⟨fun hash => (hlater m hkm).not_hasPassword (hlinked m).ids, ?_, ?_⟩
  · intro body xClientId drawn env hemail
    have hkept : KeepsUsers db₀ (visitedAt settings accounts lib db₀ visits m) :=
      visitedAt_keepsUsers (Nat.zero_le m)
    have hrow : KeepsUsers (visitedAt settings accounts lib db₀ visits k)
        (visitedAt settings accounts lib db₀ visits m) := visitedAt_keepsUsers hkm.le
    obtain ⟨u, hu, hid, hmail⟩ := hrow.stays squatter hmem
    exact login_passwordless (hkept.emails hemails) (hlinked m).ids (hlater m hkm)
      ⟨u, hu, hid, hmail.trans hemail.symm⟩
  · intro hactive
    rcases active_origin h₀.linked hkm.le hactive with
      ⟨t, ht, howner, _⟩ | ⟨j, w, hkj, hjm, hw, hproves⟩
    · -- before the takeover the account was not verified, so it had no session
      obtain ⟨u, hu, hid, hverified⟩ := (visitedAt_housed h₀ k).sessions t ht
      rw [(hlinked k).ids.eq_of_key hu hmem (hid.trans howner)] at hverified
      exact absurd h.dormant hverified
    · refine ⟨j, w, hkj, hjm, hw, hproves, ?_⟩
      rintro body xClientId drawn env whole rfl
      rcases Nat.eq_or_lt_of_le hkj with rfl | hkj
      · obtain ⟨⟨_, _, _, _, _, rfl, _⟩, _⟩ := h
        cases hv.symm.trans hw
      · have hnone := hlater j hkj
        generalize squatter.id = id at hproves hnone
        cases hproves with
        | password found hash _ _ =>
          exact hnone.not_hasPassword (hlinked j).ids ⟨_, Table.lookup_mem found, rfl, hash⟩

end Runs

section Squatter

/-- Somebody registers Dana's e-mail and chooses a password; Dana comes in through her provider, and
    the other one tries the password. -/
def squatting : List Visit :=
  [.api (.register dormantRequest "salt" (driftEnv 1)) rfl,
    .oauth "google" danaOpenID none "first" (driftEnv 2),
    .api (.auth (.login ⟨"dana@school.example", "correct horse"⟩ none "second" (driftEnv 3))) rfl]

def squattedAt (n : ℕ) : Database := visitedAt {} plainAccounts plainLib {} squatting n

theorem password_origin_squatting :
    HasPassword (squattedAt 1) 10 "hash of correct horse" ∧ ∃ k v, k < 1 ∧ squatting[k]? = some v ∧
      SetsPassword plainAccounts (squattedAt k) v 10 "hash of correct horse" := by
  have hpassword : HasPassword (squattedAt 1) 10 "hash of correct horse" := by
    refine ⟨registeredUser dormantRequest (driftEnv 1) "hash of correct horse", ?_, rfl, rfl⟩
    decide +kernel
  refine ⟨hpassword, ?_⟩
  rcases password_origin {} plainAccounts plainLib {} squatting 0 1 (by decide) 10 _ hpassword with
    halong | ⟨k, v, _, hk, hv, hset, _⟩
  · obtain ⟨u, hu, _⟩ := halong 0 le_rfl (by decide)
    cases hu
  · exact ⟨k, v, hk, hv, hset⟩

theorem takeover_evicts_squatting :
    TakesOver {} plainLib (squattedAt 1) (.oauth "google" danaOpenID none "first" (driftEnv 2))
        (registeredUser dormantRequest (driftEnv 1) "hash of correct horse") ∧
      (login {} plainAccounts (plainLib.drawing "second")
          ⟨"dana@school.example", "correct horse"⟩ none (driftEnv 3)).run (squattedAt 2) =
        (squattedAt 2, .error invalidCredentials) := by
  have htakes : TakesOver {} plainLib (squattedAt 1)
      (.oauth "google" danaOpenID none "first" (driftEnv 2))
      (registeredUser dormantRequest (driftEnv 1) "hash of correct horse") := by
    refine ⟨⟨_, _, _, _, _, rfl, ?_, ?_, ?_⟩, rfl⟩
    · decide +kernel
    · decide +kernel
    · have hok : ((visitOauth {} plainLib "google" danaOpenID none "first" (driftEnv 2)
          (squattedAt 1)).2.isOk) = true := by decide +kernel
      cases hreply : (visitOauth {} plainLib "google" danaOpenID none "first" (driftEnv 2)
          (squattedAt 1)).2 with
      | ok reply => exact ⟨reply, rfl⟩
      | error e =>
        rw [hreply] at hok
        cases hok
  refine ⟨htakes, ?_⟩
  exact (takeover_evicts {} plainAccounts plainLib {} housed_empty List.nodup_nil squatting 1 2
    (by decide) _ rfl _ htakes).2.1 _ none "second" (driftEnv 3) rfl

end Squatter
end Hefest
