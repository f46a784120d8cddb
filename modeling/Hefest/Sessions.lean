import Hefest.Visits

set_option autoImplicit false

namespace Hefest
open Transaction Transition

/-- The row of a token later on: all that can happen to it is that it is revoked. -/
def RefreshToken.Becomes (t₀ t : RefreshToken) : Prop :=
  t = { t₀ with revokedAt := t.revokedAt } ∧ (t.revokedAt = none → t₀.revokedAt = none)

def TokensFor (new : UUID → RefreshClient → Prop) (x y : Database) : Prop :=
  ∀ t ∈ y.refreshTokens, (∃ t₀ ∈ x.refreshTokens, t₀.Becomes t) ∨ new t.userId t.client

section Tokens
variable {new : UUID → RefreshClient → Prop} {x y : Database} {t t₀ t₁ : RefreshToken}

theorem RefreshToken.Becomes.refl (t : RefreshToken) : t.Becomes t := ⟨rfl, fun hactive => hactive⟩

theorem RefreshToken.Becomes.trans (h : t₀.Becomes t₁) (h' : t₁.Becomes t) : t₀.Becomes t := by
  refine ⟨?_, fun hactive => h.2 (h'.2 hactive)⟩
  rw [h'.1, h.1]

theorem RefreshToken.Becomes.owner (h : t₀.Becomes t) :
    t.userId = t₀.userId ∧ t.client = t₀.client := by
  rw [h.1]
  exact ⟨rfl, rfl⟩

theorem becomes_revoke (t : RefreshToken) (now : Time) : t.Becomes (t.revoke now) :=
  ⟨rfl, fun hactive => by cases hactive⟩

theorem tokensFor_of (h : y.refreshTokens = x.refreshTokens) : TokensFor new x y :=
  fun t ht => .inl ⟨t, h ▸ ht, .refl t⟩

theorem TokensFor.refl (x : Database) : TokensFor new x x := tokensFor_of rfl

theorem TokensFor.trans (x y z : Database) (h : TokensFor new x y) (h' : TokensFor new y z) :
    TokensFor new x z := by
  intro t ht
  rcases h' t ht with ⟨t₁, ht₁, hbecomes⟩ | hnew
  · rcases h t₁ ht₁ with ⟨t₀, ht₀, hbefore⟩ | hnew
    · exact .inl ⟨t₀, ht₀, hbefore.trans hbecomes⟩
    · right
      rw [hbecomes.owner.1, hbecomes.owner.2]
      exact hnew
  · exact .inr hnew

theorem tokensFor_updateWhere {p : RefreshToken → Bool} {now : Time}
    (h : y.refreshTokens = Table.updateWhere p (RefreshToken.revoke now) x.refreshTokens) :
    TokensFor new x y := by
  intro t ht
  rw [h] at ht
  rcases Table.mem_updateWhere.mp ht with ⟨hmem, _⟩ | ⟨s, hs, _, rfl⟩
  · exact .inl ⟨t, hmem, .refl t⟩
  · exact .inl ⟨s, hs, becomes_revoke s now⟩

theorem tokensFor_revocations : AllowsRevocations (TokensFor new) where
  refl := .refl
  revoke _ _ _ _ := tokensFor_updateWhere rfl

theorem within_issueFor {settings : Settings} {lib : TokenLib} {user : User}
    {client : RefreshClient} {id : UUID} {now : Time} (h : new user.id client) :
    (issueRefreshToken settings lib user client id now).Within (TokensFor new) := by
  intro x
  refine ⟨?_, within_orRaise trivial⟩
  simp only [insertRefreshToken]
  split_ifs
  · intro t ht
    rcases List.mem_append.mp ht with hold | hnew
    · exact .inl ⟨t, hold, .refl t⟩
    · rw [List.mem_singleton.mp hnew]
      exact .inr h
  · exact .refl x

def VerifiedUser (id : UUID) (db : Database) : Prop :=
  ∃ u ∈ db.users, u.id = id ∧ u.emailVerifiedAt ≠ none

theorem VerifiedUser.mono {id : UUID} (h : VerifiedUser id x) (hkept : KeepsUsers x y) :
    VerifiedUser id y := by
  obtain ⟨u, hu, hid, hverified⟩ := h
  obtain ⟨u', hu', hid', hverified'⟩ := hkept.verified u hu hverified
  exact ⟨u', hu', hid'.trans hid, hverified'⟩

theorem verifiedUser_stamped {user : User} (h : user ∈ x.users) (now : Time) (seen : Database) :
    VerifiedUser user.id
      ((saveUser user.id fun u => { u with emailVerifiedAt := some now }).write seen x) :=
  ⟨{ user with emailVerifiedAt := some now }, Table.mem_update.mpr (.inr ⟨user, h, rfl, rfl⟩), rfl,
    Option.some_ne_none _⟩

theorem issuePair_tokensFor {settings : Settings} {lib : TokenLib}
    {reply : String → String → RefreshClient → AuthReply} {user : User} {client : RefreshClient}
    {id : UUID} {now now' : Time} {P : UUID → Prop} {db db' : Database} (h : P user.id)
    (verified : VerifiedUser user.id db') (same : db'.refreshTokens = db.refreshTokens) :
    TokensFor
      (fun id' _ => P id' ∧
        VerifiedUser id' ((issuePair settings lib reply user client id now now').run db').1) db
      ((issuePair settings lib reply user client id now now').run db').1 := by
  have hkept : KeepsUsers db' ((issuePair settings lib reply user client id now now').run db').1 :=
    (within_issuePair keepsUsers_tokens).run .refl .trans db'
  generalize hnew : (fun (id' : UUID) (_ : RefreshClient) => P id' ∧
    VerifiedUser id' ((issuePair settings lib reply user client id now now').run db').1) = new
  have howner : new user.id client := by
    rw [← hnew]
    exact ⟨h, verified.mono hkept⟩
  have hwithin : (issuePair settings lib reply user client id now now').Within (TokensFor new) :=
    (within_issueFor howner).bind fun _ => trivial
  exact .trans db db' _ (tokensFor_of same) (hwithin.run .refl .trans db')

end Tokens

/-- Whose account the word of a provider is for: that of the identity, else that of the e-mail,
    else a new one. -/
def SpokenFor (provider : String) (openid : OpenID) (newId : UUID) (db : Database) (id : UUID) :
    Prop :=
  (∃ i, db.oauthIdentity? provider openid.id = some i ∧ i.userId = id) ∨
    db.oauthIdentity? provider openid.id = none ∧
      ((∃ existing, db.userByEmail? openid.email = some existing ∧ existing.id = id) ∨
        db.userByEmail? openid.email = none ∧ id = newId)

inductive Proves (accounts : AccountLib) (db : Database) : Visit → UUID → Prop
  | password {body : LoginRequest} {xClientId : Option String} {drawn : String} {env : Env}
      {whole : (ApiCall.auth (.login body xClientId drawn env)).whole = true} {user : User}
      {hashed : String} (found : db.userByEmail? body.email = some user)
      (hash : user.passwordHash = some hashed)
      (checked : verifyPassword accounts body.password hashed = .ok true)
      (verified : user.emailVerifiedAt ≠ none) :
      Proves accounts db (.api (.auth (.login body xClientId drawn env)) whole) user.id
  | mailbox {token : String} {xClientId : Option String} {drawn : String} {env : Env}
      {whole : (ApiCall.auth (.verifyEmail token xClientId drawn env)).whole = true}
      {payload : EmailVerifyPayload} {id : UUID}
      (decoded : accounts.jwtDecode token (env.now 0) = some payload)
      (type : payload.type = some "email_verify") (sub : payload.sub = some id) :
      Proves accounts db (.api (.auth (.verifyEmail token xClientId drawn env)) whole) id
  | provider {provider : String} {openid : OpenID} {state : Option String} {drawn : String}
      {env : Env} {id : UUID} (spokenFor : SpokenFor provider openid (env.uuid 0) db id) :
      Proves accounts db (.oauth provider openid state drawn env) id

/-- The visitor presents the raw text of a token that is good for a rotation. -/
inductive Renews (lib : TokenLib) (db : Database) : Visit → RefreshToken → Prop
  | refresh {xClientId cookieToken : Option String} {payload : Option (List (String × String))}
      {drawn : String} {env : Env}
      {whole : (ApiCall.auth (.refresh xClientId cookieToken payload drawn env)).whole = true}
      {raw : String} {t : RefreshToken} (presented : presentedToken cookieToken payload = some raw)
      (found : db.refreshToken? (lib.sha256 raw) = some t) (active : t.revokedAt = none)
      (unexpired : env.now 0 ≤ t.expiresAt) (client : t.client = getRefreshClient xClientId) :
      Renews lib db (.api (.auth (.refresh xClientId cookieToken payload drawn env)) whole) t

inductive SessionFrom (accounts : AccountLib) (lib : TokenLib) (db db' : Database) (v : Visit)
    (t : RefreshToken) : Prop
  | kept (t₀ : RefreshToken) (mem : t₀ ∈ db.refreshTokens) (becomes : t₀.Becomes t)
  | renewed (t₀ : RefreshToken) (renews : Renews lib db v t₀) (owner : t₀.userId = t.userId)
      (client : t₀.client = t.client)
  | opened (proves : Proves accounts db v t.userId) (verified : VerifiedUser t.userId db')

section Step
variable {settings : Settings} {accounts : AccountLib} {lib : TokenLib} {db db' : Database}
  {v : Visit}

def Opens (accounts : AccountLib) (v : Visit) (db db' : Database) : Prop :=
  TokensFor (fun id _ => Proves accounts db v id ∧ VerifiedUser id db') db db'

theorem Opens.sessionFrom (h : Opens accounts v db db') :
    ∀ t ∈ db'.refreshTokens, SessionFrom accounts lib db db' v t := by
  intro t ht
  rcases h t ht with ⟨t₀, hmem, hbecomes⟩ | ⟨hproves, hverified⟩
  · exact .kept t₀ hmem hbecomes
  · exact .opened hproves hverified

theorem login_cases (settings : Settings) (accounts : AccountLib) (lib : TokenLib)
    (body : LoginRequest) (xClientId : Option String) (drawn : String) (env : Env)
    (whole : (ApiCall.auth (.login body xClientId drawn env)).whole = true) (db : Database) :
    (∃ e, (login settings accounts lib body xClientId env).run db = (db, .error e)) ∨
      ∃ user ∈ db.users, user.emailVerifiedAt ≠ none ∧
        Proves accounts db (.api (.auth (.login body xClientId drawn env)) whole) user.id ∧
        (login settings accounts lib body xClientId env).run db =
          (issuePair settings lib (tokenResponse settings) user (getRefreshClient xClientId)
            (env.uuid 0) (env.now 0) (env.now 1)).run db := by
  simp only [login, run_stmt, selectUserByEmail, Stmt.select]
  cases hfound : db.userByEmail? body.email with
  | none => exact .inl ⟨_, rfl⟩
  | some user =>
    cases hhash : user.passwordHash with
    | none =>
      simp only [hhash]
      exact .inl ⟨_, rfl⟩
    | some hashed =>
      simp only [hhash]
      cases hchecked : verifyPassword accounts body.password hashed with
      | error message => exact .inl ⟨_, rfl⟩
      | ok right =>
        simp only [orValueError]
        split_ifs with hright hunverified
        · exact .inl ⟨_, rfl⟩
        · subst hright
          exact .inr ⟨user, Table.lookup_mem hfound, hunverified,
            .password hfound hhash hchecked hunverified, rfl⟩
        · exact .inl ⟨_, rfl⟩

theorem login_opens (body : LoginRequest) (xClientId : Option String) (drawn : String) (env : Env)
    (whole : (ApiCall.auth (.login body xClientId drawn env)).whole = true) (db : Database) :
    Opens accounts (.api (.auth (.login body xClientId drawn env)) whole) db
      ((login settings accounts (lib.drawing drawn) body xClientId env).run db).1 := by
  rcases login_cases settings accounts (lib.drawing drawn) body xClientId drawn env whole db with
    ⟨e, hrefused⟩ | ⟨user, hmem, hverified, hproves, hissued⟩
  · rw [hrefused]
    exact TokensFor.refl db
  · rw [hissued]
    exact issuePair_tokensFor hproves ⟨user, hmem, rfl, hverified⟩ rfl

theorem verifyEmail_cases (settings : Settings) (accounts : AccountLib) (lib : TokenLib)
    (token : String) (xClientId : Option String) (drawn : String) (env : Env)
    (whole : (ApiCall.auth (.verifyEmail token xClientId drawn env)).whole = true)
    (db : Database) :
    (∃ e, (verifyEmail settings accounts lib token xClientId env).run db = (db, .error e)) ∨
      ∃ user db', VerifiedUser user.id db' ∧ db'.refreshTokens = db.refreshTokens ∧
        Proves accounts db (.api (.auth (.verifyEmail token xClientId drawn env)) whole) user.id ∧
        (verifyEmail settings accounts lib token xClientId env).run db =
          (issuePair settings lib (tokenResponse settings) user (getRefreshClient xClientId)
            (env.uuid 0) (env.now 2) (env.now 3)).run db' := by
  unfold verifyEmail consumeEmailVerifyToken
  cases hdecoded : accounts.jwtDecode token (env.now 0) with
  | none => exact .inl ⟨_, rfl⟩
  | some payload =>
    simp only
    split_ifs with htype
    · exact .inl ⟨_, rfl⟩
    · cases hsub : payload.sub with
      | none => exact .inl ⟨_, rfl⟩
      | some id =>
        simp only [Prog.wrap, bind_stmt, run_stmt, selectUser, Stmt.select]
        cases hfound : Table.lookup User.id id db.users with
        | none => exact .inl ⟨_, rfl⟩
        | some user =>
          have hid : user.id = id := Table.lookup_key hfound
          have hmem : user ∈ db.users := Table.lookup_mem hfound
          have hproves : Proves accounts db
              (.api (.auth (.verifyEmail token xClientId drawn env)) whole) user.id :=
            .mailbox hdecoded (not_not.mp htype) (hid ▸ hsub)
          simp only
          split_ifs with hdormant
          · simp only [Prog.wrap, bind_stmt, bind_ret, run_stmt]
            exact .inr ⟨{ user with emailVerifiedAt := some (env.now 1) }, _,
              verifiedUser_stamped hmem _ db, rfl, hproves, rfl⟩
          · simp only [Prog.wrap, bind_ret]
            exact .inr ⟨user, db, ⟨user, hmem, rfl, hdormant⟩, rfl, hproves, rfl⟩

theorem verifyEmail_opens (token : String) (xClientId : Option String) (drawn : String)
    (env : Env) (whole : (ApiCall.auth (.verifyEmail token xClientId drawn env)).whole = true)
    (db : Database) :
    Opens accounts (.api (.auth (.verifyEmail token xClientId drawn env)) whole) db
      ((verifyEmail settings accounts (lib.drawing drawn) token xClientId env).run db).1 := by
  rcases verifyEmail_cases settings accounts (lib.drawing drawn) token xClientId drawn env whole db
    with ⟨e, hrefused⟩ | ⟨user, db', hverified, hsame, hproves, hissued⟩
  · rw [hrefused]
    exact TokensFor.refl db
  · rw [hissued]
    exact issuePair_tokensFor hproves hverified hsame

def rotatedToken (settings : Settings) (lib : TokenLib) (env : Env) (record : RefreshToken)
    (user : User) : RefreshToken where
  id := env.uuid 0
  userId := user.id
  tokenHash := lib.sha256 lib.tokenUrlsafe
  client := record.client
  expiresAt := env.now 2 + days settings.refreshTokenExpireDays
  revokedAt := none

theorem rotate_cases (settings : Settings) (lib : TokenLib) (raw : String) (client : RefreshClient)
    (env : Env) (db : Database) :
    (∃ e, (rotateRefreshToken settings lib raw client env).run db = (db, .error e)) ∨
      ∃ record user, db.refreshToken? (lib.sha256 raw) = some record ∧ record.revokedAt = none ∧
        env.now 0 ≤ record.expiresAt ∧ record.client = client ∧ user.id = record.userId ∧
        (rotateRefreshToken settings lib raw client env).run db =
          ({ db with
              refreshTokens :=
                Table.update RefreshToken.id record.id (RefreshToken.revoke (env.now 0))
                  db.refreshTokens ++ [rotatedToken settings lib env record user] },
            .ok (createAccessToken settings lib user (env.now 1), lib.tokenUrlsafe,
              record.client)) := by
  rw [rotateRefreshToken, run_transaction, rotateInTransaction]
  simp only [run_stmt, selectRefreshTokenForUpdate]
  cases hrecord : db.refreshToken? (lib.sha256 raw) with
  | none => exact .inl ⟨_, rfl⟩
  | some record =>
    simp only
    split_ifs with hexpired hrevoked hclient
    · exact .inl ⟨_, rfl⟩
    · exact .inl ⟨_, rfl⟩
    · exact .inl ⟨_, rfl⟩
    · have hactive : record.revokedAt = none := not_not.mp hrevoked
      simp only [run_stmt, selectUser, Stmt.select]
      cases huser : Table.lookup User.id record.userId
          ((saveRefreshToken record.id (RefreshToken.revoke (env.now 0))).write db db).users with
      | none => exact .inl ⟨_, rfl⟩
      | some user =>
        simp only [issueRefreshToken, bind_stmt, run_stmt, insertRefreshToken]
        cases hviolation : refreshTokenViolation
            ((saveRefreshToken record.id (RefreshToken.revoke (env.now 0))).write db db)
            (rotatedToken settings lib env record user) with
        | some violated =>
          left
          refine ⟨.integrityError violated, ?_⟩
          simp only [rotatedToken] at hviolation
          simp only [hviolation, orRaise, bind_raise, run_raise, settle_error]
        | none =>
          right
          refine ⟨record, user, rfl, hactive, not_lt.mp fun hlate => hexpired ⟨hlate, hactive⟩,
            not_not.mp hclient, Table.lookup_key huser, ?_⟩
          simp only [rotatedToken] at hviolation ⊢
          simp only [hviolation, orRaise, bind_ret, run_ret, settle_ok, if_true]
          rfl

theorem rotate_sessions (raw : String) (client : RefreshClient) (env : Env) (db : Database) :
    TokensFor (fun userId client' => ∃ t, db.refreshToken? (lib.sha256 raw) = some t ∧
        t.revokedAt = none ∧ env.now 0 ≤ t.expiresAt ∧ t.client = client ∧ t.userId = userId ∧
        t.client = client') db
      ((rotateRefreshToken settings lib raw client env).run db).1 := by
  rcases rotate_cases settings lib raw client env db with
    ⟨e, hrefused⟩ | ⟨record, user, hfound, hactive, hunexpired, hclient, hid, hrotated⟩
  · rw [hrefused]
    exact .refl db
  · rw [hrotated]
    intro t ht
    rcases List.mem_append.mp ht with hold | hnew
    · left
      rcases Table.mem_update.mp hold with ⟨hmem, _⟩ | ⟨t₀, hmem, _, rfl⟩
      · exact ⟨t, hmem, .refl t⟩
      · exact ⟨t₀, hmem, becomes_revoke t₀ _⟩
    · obtain rfl := List.mem_singleton.mp hnew
      exact .inr ⟨record, hfound, hactive, hunexpired, hclient, hid.symm, rfl⟩

theorem refresh_sessions (xClientId cookieToken : Option String)
    (payload : Option (List (String × String))) (drawn : String) (env : Env)
    (whole : (ApiCall.auth (.refresh xClientId cookieToken payload drawn env)).whole = true) :
    ∀ t ∈ ((refreshTokens settings (lib.drawing drawn) xClientId cookieToken payload
        env).run db).1.refreshTokens,
      SessionFrom accounts lib db db'
        (.api (.auth (.refresh xClientId cookieToken payload drawn env)) whole) t := by
  intro t ht
  unfold refreshTokens at ht
  cases hpresented : presentedToken cookieToken payload with
  | none =>
    rw [hpresented] at ht
    exact .kept t ht (.refl t)
  | some raw =>
    rw [hpresented] at ht
    simp only [run_wrap] at ht
    rcases rotate_sessions raw (getRefreshClient xClientId) env db t ht with
      ⟨t₀, hmem, hbecomes⟩ | ⟨t₀, hfound, hactive, hunexpired, hclient, howner, hclient'⟩
    · exact .kept t₀ hmem hbecomes
    · exact .renewed t₀ (.refresh hpresented hfound hactive hunexpired hclient) howner hclient'

section Callback
variable {provider : String} {openid : OpenID} {env : Env} {user : User}
  {handler : Constraint → Service User}

theorem linkOauthIdentity_returns {id : UUID} {owner : User}
    (hraises : ∀ violated, Raises (handler violated))
    (h : (linkOauthIdentity provider openid id owner false handler).run db = (db', .ok user)) :
    user = owner := by
  simp only [linkOauthIdentity, unlessFailed, Bool.false_eq_true, if_false, run_stmt] at h
  generalize (insertOauthIdentity _).result db = violation at h
  generalize (insertOauthIdentity _).write db db = written at h
  cases violation with
  | none =>
    cases h
    rfl
  | some violated =>
    obtain ⟨e, he⟩ := hraises violated written
    rw [congrArg Prod.snd h] at he
    cases he

theorem findOrCreateInner_spokenFor {n : ℕ} (hdb : Linked db)
    (hraises : ∀ violated, Raises (handler violated))
    (h : (findOrCreateInner provider openid env n false handler).run db = (db', .ok user)) :
    SpokenFor provider openid (env.uuid n) db user.id := by
  simp only [findOrCreateInner, unlessFailed, Bool.false_eq_true, if_false, run_stmt,
    selectOauthIdentity, selectUserByEmail, Stmt.select] at h
  cases hfound : (db.oauthIdentity? provider openid.id).bind fun identity =>
      (Table.lookup User.id identity.userId db.users).map fun user => (identity, user) with
  | some found =>
    obtain ⟨identity, hidentity, hmap⟩ := Option.bind_eq_some_iff.mp hfound
    obtain ⟨owner, howner, rfl⟩ := Option.map_eq_some_iff.mp hmap
    have hreturns : user = owner := by
      simp only [hfound] at h
      split_ifs at h
      · cases h
        rfl
      · cases h
        rfl
    rw [hreturns]
    exact .inl ⟨identity, hidentity, (Table.lookup_key howner).symm⟩
  | none =>
    have hunknown : db.oauthIdentity? provider openid.id = none := by
      cases hidentity : db.oauthIdentity? provider openid.id with
      | none => rfl
      | some identity =>
        obtain ⟨u, hu, hid, _⟩ := hdb.owner identity (List.mem_of_find?_eq_some hidentity)
        have hlookup : Table.lookup User.id identity.userId db.users = some u :=
          hdb.ids.lookup_iff.mpr ⟨hu, hid⟩
        simp [hidentity, hlookup] at hfound
    right
    refine ⟨hunknown, ?_⟩
    simp only [hfound, run_stmt] at h
    cases hexisting : db.userByEmail? openid.email with
    | some existing =>
      left
      refine ⟨existing, rfl, ?_⟩
      simp only [hexisting] at h
      split_ifs at h
      · rw [linkOauthIdentity_returns hraises h]
      · simp only [run_stmt] at h
        rw [linkOauthIdentity_returns hraises h]
        rfl
    | none =>
      right
      refine ⟨rfl, ?_⟩
      simp only [hexisting, run_stmt] at h
      generalize (insertUser _).result db = violation at h
      generalize (insertUser _).write db db = written at h
      cases violation with
      | some violated =>
        obtain ⟨e, he⟩ := hraises violated written
        rw [congrArg Prod.snd h] at he
        cases he
      | none =>
        rw [linkOauthIdentity_returns hraises h]
        rfl

/-- Only the first try can succeed, so a new user gets the first id. -/
theorem findOrCreateOauthUser_spokenFor (hdb : Linked db)
    (h : (findOrCreateOauthUser provider openid env).run db = (db', .ok user)) :
    SpokenFor provider openid (env.uuid 0) db user.id := by
  rw [findOrCreateOauthUser, run_transaction] at h
  rcases hrun : (findOrCreateInTransaction provider openid env).run db with ⟨v, r⟩
  rw [hrun] at h
  cases r with
  | error e => cases h
  | ok found =>
    cases h
    refine findOrCreateInner_spokenFor hdb ?_ hrun
    intro violated db
    exact ⟨_, rfl⟩

end Callback

theorem keepsTokens_providers : AllowsProviders KeepsTokens where
  refl _ := rfl
  identities _ _ := rfl
  takeOver _ _ _ _ _ := rfl
  insert x user _ _ := by
    simp only [insertUser]
    split_ifs <;> rfl

theorem oauth_opens (hdb : Linked db) (provider : String) (openid : OpenID)
    (state : Option String) (drawn : String) (env : Env) :
    Opens accounts (.oauth provider openid state drawn env) db
      (visitOauth settings lib provider openid state drawn env db).1 := by
  rcases visitOauth_cases settings lib provider openid state drawn env db with
    ⟨e, hfailed⟩ | ⟨db', user, hrun, hcallback⟩
  · rw [hfailed]
    exact TokensFor.refl db
  · rw [hcallback]
    have hspoken : Proves accounts db (.oauth provider openid state drawn env) user.id :=
      .provider (findOrCreateOauthUser_spokenFor hdb hrun)
    have hbound := (findOrCreateOauthUser_ok hdb hrun).2
    have hsame := (within_findOrCreateOauthUser keepsTokens_providers provider openid env).run
      (fun _ => rfl) (fun _ _ _ h h' => Eq.trans h' h) db
    rw [hrun] at hsame
    exact issuePair_tokensFor hspoken ⟨user, hbound.mem, rfl, hbound.verified⟩ hsame

theorem quiet_tokensFor {new : UUID → RefreshClient → Prop} {c : ApiCall} (db : Database)
    (quiet : ∀ a, c = .auth a → a.drawn? = none) (whole : c.whole = true) :
    TokensFor new db (handle settings accounts lib c db) := by
  rw [handle_run]
  cases c with
  | service userId endpoint env =>
    rw [ApiCall.prog, run_map]
    exact tokensFor_of (service_ofAccounts settings db userId endpoint env rfl).2.2
  | register body salt env =>
    rw [ApiCall.prog, run_map]
    rcases register_cases settings accounts body salt env db with hsame | ⟨_, _, _, _, hrows⟩
    · rw [hsame]
      exact .refl db
    · rw [hrows]
      exact tokensFor_of rfl
  | updateMe userId fullName =>
    rw [ApiCall.prog, run_map]
    exact (within_updateMe .refl fun x id => tokensFor_of rfl).run .refl .trans db
  | changePassword userId body salt env =>
    rw [ApiCall.prog, run_map]
    refine ((within_getCurrentUser .refl userId).bind fun user => ?_).run .refl .trans db
    exact within_changePassword tokensFor_revocations accounts body user salt env fun x hash =>
      tokensFor_of rfl
  | logoutAll cookieToken bearer env =>
    rw [ApiCall.prog, run_map]
    exact (within_logoutAll tokensFor_revocations lib cookieToken bearer env).run .refl .trans db
  | auth a =>
    rw [ApiCall.prog, run_map]
    cases a with
    | login => cases quiet _ rfl
    | verifyEmail => cases quiet _ rfl
    | refresh => cases quiet _ rfl
    | findOrCreate => cases whole
    | oauthCallback => cases whole
    | logout cookieToken payload env =>
      exact (within_logout tokensFor_revocations lib cookieToken payload env).run .refl .trans db

theorem visit_sessions (hdb : Linked db) (v : Visit) :
    ∀ t ∈ (visit settings accounts lib v db).refreshTokens,
      SessionFrom accounts lib db (visit settings accounts lib v db) v t := by
  cases v with
  | oauth provider openid state drawn env =>
    exact (oauth_opens hdb provider openid state drawn env).sessionFrom
  | api c whole =>
    by_cases quiet : ∀ a, c = .auth a → a.drawn? = none
    · have hkept : Opens accounts (.api c whole) db (handle settings accounts lib c db) :=
        quiet_tokensFor db quiet whole
      exact hkept.sessionFrom
    · obtain ⟨a, rfl, hdrawn⟩ : ∃ a, c = .auth a ∧ a.drawn? ≠ none := by
        simpa using quiet
      change ∀ t ∈ (((a.prog settings accounts lib).map ApiReply.auth).run db).1.refreshTokens,
        SessionFrom accounts lib db
          (((a.prog settings accounts lib).map ApiReply.auth).run db).1 _ t
      rw [run_map]
      cases a with
      | login body xClientId drawn env =>
        exact (login_opens body xClientId drawn env whole db).sessionFrom
      | verifyEmail token xClientId drawn env =>
        exact (verifyEmail_opens token xClientId drawn env whole db).sessionFrom
      | refresh xClientId cookieToken payload drawn env =>
        exact refresh_sessions xClientId cookieToken payload drawn env whole
      | findOrCreate => cases whole
      | oauthCallback => cases whole
      | logout => exact absurd rfl hdrawn

end Step

structure Housed (db : Database) : Prop where
  linked : Linked db
  sessions : ∀ t ∈ db.refreshTokens, VerifiedUser t.userId db

theorem Renews.mem {lib : TokenLib} {db : Database} {v : Visit} {t : RefreshToken}
    (h : Renews lib db v t) : t ∈ db.refreshTokens ∧ t.revokedAt = none := by
  cases h with
  | refresh _ found active _ _ => exact ⟨Table.lookup_mem found, active⟩

section Runs
variable {settings : Settings} {accounts : AccountLib} {lib : TokenLib} {db₀ : Database}
  {visits : List Visit}

theorem visit_housed {db : Database} (hdb : Housed db) (v : Visit) :
    Housed (visit settings accounts lib v db) where
  linked := visit_linked v hdb.linked
  sessions t ht := by
    have hkept : KeepsUsers db (visit settings accounts lib v db) := visit_keepsUsers v db
    cases visit_sessions hdb.linked v t ht with
    | kept t₀ mem becomes =>
      rw [becomes.owner.1]
      exact (hdb.sessions t₀ mem).mono hkept
    | renewed t₀ renews owner _ =>
      rw [← owner]
      exact (hdb.sessions t₀ renews.mem.1).mono hkept
    | opened _ verified => exact verified

theorem visitedAt_housed (h₀ : Housed db₀) (n : ℕ) :
    Housed (visitedAt settings accounts lib db₀ visits n) :=
  after_invariant (visit settings accounts lib) Housed (fun _ => True)
    (fun v _ _ h => visit_housed h v) _ _ h₀ (fun _ _ => trivial)

/-- Where the tokens come from that are there after the `k`-th visit. -/
theorem visitedAt_sessions (h₀ : Linked db₀) {k : ℕ} {v : Visit} {t : RefreshToken}
    (hv : visits[k]? = some v)
    (ht : t ∈ (visitedAt settings accounts lib db₀ visits (k + 1)).refreshTokens) :
    SessionFrom accounts lib (visitedAt settings accounts lib db₀ visits k)
      (visitedAt settings accounts lib db₀ visits (k + 1)) v t := by
  rw [visitedAt_succ hv] at ht ⊢
  exact visit_sessions (visitedAt_linked h₀ k) v t ht

def ActiveSession (db : Database) (userId : UUID) : Prop :=
  ∃ t ∈ db.refreshTokens, t.userId = userId ∧ t.revokedAt = none

/-- A user who has a session at one point had one at any earlier point, or has shown in between
    whose account it is. -/
theorem active_origin (h₀ : Linked db₀) {n m : ℕ} (hnm : n ≤ m) {userId : UUID}
    (h : ActiveSession (visitedAt settings accounts lib db₀ visits m) userId) :
    ActiveSession (visitedAt settings accounts lib db₀ visits n) userId ∨
      ∃ k v, n ≤ k ∧ k < m ∧ visits[k]? = some v ∧
        Proves accounts (visitedAt settings accounts lib db₀ visits k) v userId := by
  have horigin := exists_origin (visit settings accounts lib) db₀ visits (H := ActiveSession)
    (L := Eq) (E := fun db v id => Proves accounts db v id) (fun _ => rfl)
    (fun _ _ _ h h' => h.trans h') (fun _ _ _ _ h hproves => h ▸ hproves) ?_ hnm h
  · rcases horigin with halong | ⟨k, v, hk, hkm, hv, hproves, _⟩
    · obtain ⟨id, hactive, rfl⟩ := halong n le_rfl hnm
      exact .inl hactive
    · exact .inr ⟨k, v, hk, hkm, hv, hproves⟩
  · rintro k v id hv ⟨t, ht, rfl, hactive⟩
    cases visitedAt_sessions h₀ hv ht with
    | kept t₀ mem becomes =>
      exact .inl ⟨t.userId, ⟨t₀, mem, becomes.owner.1.symm, becomes.2 hactive⟩, rfl⟩
    | renewed t₀ renews owner _ =>
      exact .inl ⟨t.userId, ⟨t₀, renews.mem.1, owner, renews.mem.2⟩, rfl⟩
    | opened proves _ => exact .inr proves

/-- Every token is of a verified account. Since any earlier point it was there, or a visit has made
    it: in the place of an active token of the same user and client, or for a visitor who has shown
    that the account is theirs. And if it is active, its user had a session at the earlier point, or
    there has been such a visitor since. -/
theorem session_origin (settings : Settings) (accounts : AccountLib) (lib : TokenLib)
    (db₀ : Database) (h₀ : Housed db₀) (visits : List Visit) (n m : ℕ) (hnm : n ≤ m)
    (t : RefreshToken)
    (ht : t ∈ (visitedAt settings accounts lib db₀ visits m).refreshTokens) :
    VerifiedUser t.userId (visitedAt settings accounts lib db₀ visits m) ∧
    ((∃ t₀ ∈ (visitedAt settings accounts lib db₀ visits n).refreshTokens, t₀.Becomes t) ∨
      ∃ k v, n ≤ k ∧ k < m ∧ visits[k]? = some v ∧
        (Proves accounts (visitedAt settings accounts lib db₀ visits k) v t.userId ∨
          ∃ t₀, Renews lib (visitedAt settings accounts lib db₀ visits k) v t₀ ∧
            t₀.userId = t.userId ∧ t₀.client = t.client)) ∧
    (t.revokedAt = none →
      ActiveSession (visitedAt settings accounts lib db₀ visits n) t.userId ∨
        ∃ k v, n ≤ k ∧ k < m ∧ visits[k]? = some v ∧
          Proves accounts (visitedAt settings accounts lib db₀ visits k) v t.userId) := by
  refine ⟨(visitedAt_housed h₀ m).sessions t ht, ?_, ?_⟩
  · have horigin := exists_origin (visit settings accounts lib) db₀ visits
      (H := fun db t => t ∈ db.refreshTokens) (L := RefreshToken.Becomes)
      (E := fun db v t => Proves accounts db v t.userId ∨
        ∃ t₀, Renews lib db v t₀ ∧ t₀.userId = t.userId ∧ t₀.client = t.client)
      RefreshToken.Becomes.refl (fun _ _ _ => RefreshToken.Becomes.trans) ?_ ?_ hnm ht
    · rcases horigin with halong | ⟨k, v, hk, hkm, hv, hmade, _⟩
      · exact .inl (halong n le_rfl hnm)
      · exact .inr ⟨k, v, hk, hkm, hv, hmade⟩
    · intro db v t t' hbecomes hmade
      rw [hbecomes.owner.1, hbecomes.owner.2]
      exact hmade
    · intro k v t hv ht
      cases visitedAt_sessions h₀.linked hv ht with
      | kept t₀ mem becomes => exact .inl ⟨t₀, mem, becomes⟩
      | renewed t₀ renews owner client => exact .inr (.inr ⟨t₀, renews, owner, client⟩)
      | opened proves _ => exact .inr (.inl proves)
  · intro hactive
    exact active_origin h₀.linked hnm ⟨t, ht, rfl, hactive⟩

end Runs

def logoutUser (lib : TokenLib) (db : Database) (cookieToken : Option String)
    (bearer : Option UUID) (env : Env) : Option UUID :=
  let fromCookie := (cookieToken.filter (· ≠ "")).bind fun raw =>
    ((db.refreshTokens.find? (RefreshToken.activeWithHash (lib.sha256 raw))).filter fun t =>
      decide (¬ t.expiresAt < env.now 0)).map RefreshToken.userId
  fromCookie.or bearer

def ApiCall.endsSessions : ApiCall → Bool
  | .logoutAll _ _ _ | .changePassword _ _ _ _ => true
  | _ => false

inductive Ends (accounts : AccountLib) (lib : TokenLib) (db : Database) : ApiCall → UUID → Prop
  | logoutAll {cookieToken : Option String} {bearer : Option UUID} {env : Env} {id : UUID}
      (identified : logoutUser lib db cookieToken bearer env = some id) :
      Ends accounts lib db (.logoutAll cookieToken bearer env) id
  | changePassword {id : UUID} {body : ChangePasswordRequest} {salt newHash : String} {env : Env}
      {user : User} (found : db.user? id = some user)
      (changes : PasswordChanges accounts body salt user newHash) :
      Ends accounts lib db (.changePassword id body salt env) id

structure SessionsEnded (id : UUID) (db db' : Database) : Prop where
  ended : FamilyRevoked id db'
  others : ∀ t, t.userId ≠ id → (t ∈ db'.refreshTokens ↔ t ∈ db.refreshTokens)

section Ending
variable {settings : Settings} {accounts : AccountLib} {lib : TokenLib} {db : Database}

theorem sessionsEnded_revoke {db' : Database} (id : UUID) (now : Time)
    (h : db'.refreshTokens =
      Table.updateWhere (RefreshToken.activeOf id) (RefreshToken.revoke now) db.refreshTokens) :
    SessionsEnded id db db' where
  ended t ht howner hactive := by
    rw [h] at ht
    rcases Table.mem_updateWhere.mp ht with ⟨_, hother⟩ | ⟨s, _, _, rfl⟩
    · exact absurd ⟨howner, hactive⟩ (of_decide_eq_false hother)
    · cases hactive
  others t hne := by
    rw [h, Table.mem_updateWhere]
    constructor
    · rintro (⟨hmem, _⟩ | ⟨s, _, hactive, rfl⟩)
      · exact hmem
      · exact absurd (of_decide_eq_true hactive).1 hne
    · intro hmem
      exact .inl ⟨hmem, decide_eq_false fun hactive => hne hactive.1⟩

theorem logoutAll_run (cookieToken : Option String) (bearer : Option UUID) (env : Env)
    (db : Database) : (logoutAll lib cookieToken bearer env).run db =
      match logoutUser lib db cookieToken bearer env with
      | none => (db, .error credentialsExc)
      | some id =>
        ({ db with
            refreshTokens := Table.updateWhere (RefreshToken.activeOf id)
              (RefreshToken.revoke (env.now 1)) db.refreshTokens }, .ok .noContent) := by
  have hrevoke : ∀ found : Option UUID,
      (match found.or bearer with
        | none => (.raise credentialsExc : Service AuthReply)
        | some userId => (revokeAllForUserByRow userId
            ⟨fun n => env.now (n + 1), env.uuid⟩).map fun _ => .noContent).run db =
        match found.or bearer with
        | none => (db, .error credentialsExc)
        | some id =>
          ({ db with
              refreshTokens := Table.updateWhere (RefreshToken.activeOf id)
                (RefreshToken.revoke (env.now 1)) db.refreshTokens }, .ok .noContent) := by
    intro found
    cases found.or bearer with
    | none => rfl
    | some id =>
      have hset : ∀ t : RefreshToken, (t.revoke (env.now 1)).id = t.id ∧
          (t.revoke (env.now 1)).activeOf id = false := revoke_dequalifies (activeOf_active id)
      simp only [revokeAllForUserByRow, run_map]
      rw [updateTokens_run _ hset]
      rfl
  unfold logoutAll logoutUser
  cases cookieToken.filter (· ≠ "") with
  | none => exact hrevoke none
  | some raw =>
    simp only [userIdForActiveRefreshToken, bind_stmt, run_stmt, Stmt.select, Option.bind_some]
    cases db.refreshTokens.find? (RefreshToken.activeWithHash (lib.sha256 raw)) with
    | none => exact hrevoke none
    | some record =>
      simp only [bind_ret]
      by_cases hexpired : record.expiresAt < env.now 0
      · have hnone : ((some record).filter fun t => decide (¬ t.expiresAt < env.now 0)) = none := by
          simp [Option.filter, hexpired]
        rw [if_pos hexpired, hnone]
        exact hrevoke none
      · have hsome : ((some record).filter fun t => decide (¬ t.expiresAt < env.now 0)) =
            some record := by
          simp [Option.filter, hexpired]
        rw [if_neg hexpired, hsome]
        exact hrevoke (some record.userId)

theorem changePassword_run {id : UUID} {body : ChangePasswordRequest} {salt newHash : String}
    {user : User} (found : db.user? id = some user)
    (changes : PasswordChanges accounts body salt user newHash) (env : Env) :
    (changePasswordCall accounts id body salt env).run db =
      (revokeSessions id env (storePassword id newHash db), .ok .noContent) := by
  have hid : user.id = id := Table.lookup_key found
  have hset : ∀ t : RefreshToken, (t.revoke (env.now 0)).id = t.id ∧
      (t.revoke (env.now 0)).activeOf id = false := revoke_dequalifies (activeOf_active id)
  have hresult : (selectUser id).result db = some user := found
  rw [changePasswordCall, getCurrentUser, bind_stmt, run_stmt, hresult]
  simp only [bind_ret, changePassword_accepted changes, hid, run_stmt]
  rw [updateTokens_run _ hset]
  rfl

theorem changePassword_run_refused {id : UUID} {body : ChangePasswordRequest} {salt : String}
    (env : Env) (h : ∀ user newHash, db.user? id = some user →
      ¬ PasswordChanges accounts body salt user newHash) :
    ∃ e, (changePasswordCall accounts id body salt env).run db = (db, .error e) := by
  have hresult : (selectUser id).result db = db.user? id := rfl
  rw [changePasswordCall, getCurrentUser, bind_stmt, run_stmt, hresult]
  cases hfound : db.user? id with
  | none => exact ⟨_, rfl⟩
  | some user =>
    obtain ⟨e, he⟩ := changePassword_refused env fun newHash => h user newHash hfound
    refine ⟨e, ?_⟩
    simp only [bind_ret, he]
    rfl

theorem ends_cases (settings : Settings) (accounts : AccountLib) (lib : TokenLib) (db : Database)
    {c : ApiCall} (hends : c.endsSessions = true) :
    ((∀ id, ¬ Ends accounts lib db c id) ∧
      ∃ e, answer settings accounts lib c db = (db, .error e)) ∨
    ∃ id, Ends accounts lib db c id ∧
      (answer settings accounts lib c db).2 = .ok (.auth .noContent) ∧
      SessionsEnded id db (answer settings accounts lib c db).1 := by
  cases c with
  | logoutAll cookieToken bearer env =>
    simp only [answer, ApiCall.prog, run_map, logoutAll_run]
    cases hidentified : logoutUser lib db cookieToken bearer env with
    | none =>
      refine .inl ⟨?_, _, rfl⟩
      rintro id ⟨h⟩
      rw [hidentified] at h
      cases h
    | some id => exact .inr ⟨id, .logoutAll hidentified, rfl, sessionsEnded_revoke id _ rfl⟩
  | changePassword userId body salt env =>
    simp only [answer, ApiCall.prog, run_map]
    by_cases h : ∃ user newHash, db.user? userId = some user ∧
        PasswordChanges accounts body salt user newHash
    · obtain ⟨user, newHash, hfound, hchanges⟩ := h
      rw [changePassword_run hfound hchanges env]
      exact .inr ⟨userId, .changePassword hfound hchanges, rfl, sessionsEnded_revoke userId _ rfl⟩
    · obtain ⟨e, hrefused⟩ := changePassword_run_refused env fun user newHash hfound hchanges =>
        h ⟨user, newHash, hfound, hchanges⟩
      rw [hrefused]
      refine .inl ⟨?_, e, rfl⟩
      intro id hended
      cases hended with
      | changePassword found changes => exact h ⟨_, _, found, changes⟩
  | service => cases hends
  | register => cases hends
  | updateMe => cases hends
  | auth => cases hends

end Ending

/-- While visits run one after the other, each to its end: a request to end sessions is refused and
    changes nothing, or it ends all those of the one user it is accepted for, and no other. From then
    on the user has a session only once somebody has shown anew that the account is theirs: no token
    of before gives one. -/
theorem sessions_end (settings : Settings) (accounts : AccountLib) (lib : TokenLib) (db₀ : Database)
    (h₀ : Linked db₀) (visits : List Visit) (k : ℕ) (c : ApiCall) (whole : c.whole = true)
    (hv : visits[k]? = some (.api c whole)) (hends : c.endsSessions = true) :
    ((∀ id, ¬ Ends accounts lib (visitedAt settings accounts lib db₀ visits k) c id) ∧
      visitedAt settings accounts lib db₀ visits (k + 1) =
        visitedAt settings accounts lib db₀ visits k ∧
      ∃ e, (answer settings accounts lib c (visitedAt settings accounts lib db₀ visits k)).2 =
        .error e) ∨
    ∃ id, Ends accounts lib (visitedAt settings accounts lib db₀ visits k) c id ∧
      (answer settings accounts lib c (visitedAt settings accounts lib db₀ visits k)).2 =
        .ok (.auth .noContent) ∧
      SessionsEnded id (visitedAt settings accounts lib db₀ visits k)
        (visitedAt settings accounts lib db₀ visits (k + 1)) ∧
      ∀ m, k < m → ActiveSession (visitedAt settings accounts lib db₀ visits m) id →
        ∃ j v, k < j ∧ j < m ∧ visits[j]? = some v ∧
          Proves accounts (visitedAt settings accounts lib db₀ visits j) v id := by
  have hnext : visitedAt settings accounts lib db₀ visits (k + 1) =
      (answer settings accounts lib c (visitedAt settings accounts lib db₀ visits k)).1 :=
    visitedAt_succ hv
  rcases ends_cases settings accounts lib (visitedAt settings accounts lib db₀ visits k) hends with
    ⟨hnobody, e, hrefused⟩ | ⟨id, hid, hok, hended⟩
  · refine .inl ⟨hnobody, ?_, e, ?_⟩
    · rw [hnext, hrefused]
    · rw [hrefused]
  · rw [← hnext] at hended
    refine .inr ⟨id, hid, hok, hended, ?_⟩
    intro m hkm hactive
    rcases active_origin h₀ hkm hactive with ⟨t, ht, howner, hnone⟩ | ⟨j, v, hj, hjm, hproves⟩
    · exact absurd hnone (hended.ended t ht howner)
    · exact ⟨j, v, hj, hjm, hproves⟩

section LoggedOutEverywhere

def danaOpenID : OpenID := ⟨"subject", "dana@school.example", some "Dana"⟩

def loggedOutEverywhere : List Visit :=
  [.oauth "google" danaOpenID none "first" (driftEnv 1),
    .api (.auth (.refresh none (some "first") none "second" (driftEnv 2))) rfl,
    .api (.logoutAll (some "second") none (driftEnv 3)) rfl,
    .oauth "google" danaOpenID none "third" (driftEnv 4)]

def loggedOutAt (n : ℕ) : Database := visitedAt {} plainAccounts plainLib {} loggedOutEverywhere n

theorem housed_empty : Housed {} where
  linked := linked_empty
  sessions t ht := by cases ht

theorem session_origin_renewed :
    ∃ t ∈ (loggedOutAt 2).refreshTokens, t.tokenHash = "second" ∧ t.revokedAt = none ∧
      VerifiedUser t.userId (loggedOutAt 2) ∧ ∃ k v, k < 2 ∧ loggedOutEverywhere[k]? = some v ∧
        Proves plainAccounts (loggedOutAt k) v t.userId := by
  let t : RefreshToken := ⟨20, 10, "second", .web, days 16 + 2, none⟩
  have ht : t ∈ (loggedOutAt 2).refreshTokens := by decide +kernel
  obtain ⟨hverified, _, hactive⟩ := session_origin {} plainAccounts plainLib {} housed_empty loggedOutEverywhere
    0 2 (by decide) t ht
  refine ⟨t, ht, rfl, rfl, hverified, ?_⟩
  rcases hactive rfl with ⟨_, hnone, _⟩ | ⟨k, v, _, hk, hv, hproves⟩
  · cases hnone
  · exact ⟨k, v, hk, hv, hproves⟩

theorem sessions_end_loggedOut :
    FamilyRevoked 10 (loggedOutAt 3) ∧ ActiveSession (loggedOutAt 4) 10 ∧
      ∃ j v, 2 < j ∧ j < 4 ∧ loggedOutEverywhere[j]? = some v ∧ Proves plainAccounts (loggedOutAt j) v 10 := by
  have hidentified : logoutUser plainLib (loggedOutAt 2) (some "second") none (driftEnv 3) =
      some 10 := by decide +kernel
  have hactive : ActiveSession (loggedOutAt 4) 10 := by
    refine ⟨⟨44, 10, "third", .web, days 18 + 5, none⟩, ?_, rfl, rfl⟩
    decide +kernel
  rcases sessions_end {} plainAccounts plainLib {} linked_empty loggedOutEverywhere 2
      (.logoutAll (some "second") none (driftEnv 3)) rfl rfl rfl with
    ⟨hnobody, _⟩ | ⟨id, hid, _, hended, hlater⟩
  · exact absurd (.logoutAll hidentified) (hnobody 10)
  · cases hid with
    | logoutAll identified =>
      obtain rfl : id = 10 := Option.some.inj (identified.symm.trans hidentified)
      exact ⟨hended.ended, hactive, hlater 4 (by decide) hactive⟩

end LoggedOutEverywhere
end Hefest
