import Hefest.Statements

set_option autoImplicit false

namespace Hefest
open Transaction

structure AccessClaims where
  sub : List Char
  role : UserRole
  iss : String
  aud : String
  iat : Time
  exp : Time
  type : String

/-- What the service takes from `hashlib`, `jwt` and `secrets`: the digest of a token, the signed
    text of the claims, and the token that this call draws. -/
structure TokenLib where
  sha256 : String → String
  jwtEncode : AccessClaims → String
  tokenUrlsafe : String

section Statements

def Database.refreshToken? (db : Database) (tokenHash : String) : Option RefreshToken :=
  Table.lookup RefreshToken.tokenHash tokenHash db.refreshTokens

def selectRefreshTokenForUpdate (tokenHash : String) : Query (Option RefreshToken) where
  locks db := (db.refreshToken? tokenHash).toList.map fun t => ⟨.refreshToken t.id, .forUpdate⟩
  result db := db.refreshToken? tokenHash
  write _ x := x

def RefreshToken.revoke (now : Time) (t : RefreshToken) : RefreshToken :=
  { t with revokedAt := some now }

def RefreshToken.activeOf (userId : UUID) (t : RefreshToken) : Bool :=
  decide (t.userId = userId ∧ t.revokedAt = none)

/-- `RefreshToken.filter(user_id=..., revoked_at=None).update(revoked_at=now)`. -/
def revokeTokensOf (userId : UUID) (now : Time) : Query Unit where
  locks db := (db.refreshTokens.filter (RefreshToken.activeOf userId)).map fun t =>
    ⟨.refreshToken t.id, .forNoKeyUpdate⟩
  result _ := ()
  write _ x := { x with
    refreshTokens := x.refreshTokens.map fun t =>
      if t.activeOf userId then t.revoke now else t }

def saveRefreshToken (id : UUID) (set : RefreshToken → RefreshToken) : Query Unit where
  locks _ := [⟨.refreshToken id, .forNoKeyUpdate⟩]
  result _ := ()
  write _ x := { x with refreshTokens := Table.update RefreshToken.id id set x.refreshTokens }

def Database.user? (db : Database) (id : UUID) : Option User := Table.lookup User.id id db.users

def selectUser (id : UUID) : Query (Option User) :=
  .select (fun db => Table.lookup User.id id db.users)

def refreshTokenViolation (db : Database) (token : RefreshToken) : Option Constraint :=
  if ∃ t ∈ db.refreshTokens, t.id = token.id then some .refreshTokenId
  else if (db.refreshToken? token.tokenHash).isSome then some .refreshTokenHash
  else none

def insertRefreshToken (token : RefreshToken) : Query (Option Constraint) where
  locks _ := [⟨.refreshToken token.id, .forUpdate⟩, ⟨.tokenHash token.tokenHash, .forUpdate⟩]
  result db := refreshTokenViolation db token
  write db x :=
    if refreshTokenViolation db token = none then
      { x with refreshTokens := x.refreshTokens ++ [token] }
    else x

end Statements

def createAccessToken (settings : Settings) (lib : TokenLib) (user : User) (now : Time) : String :=
  lib.jwtEncode
    { sub := uuidStr user.id
      role := user.role
      iss := "hefest"
      aud := settings.jwtAudience
      iat := now
      exp := now + minutes settings.jwtExpireMinutes
      type := "access" }

def issueRefreshToken (settings : Settings) (lib : TokenLib) (user : User) (client : RefreshClient)
    (id : UUID) (now : Time) : Service String :=
  let raw := lib.tokenUrlsafe
  .stmt (insertRefreshToken
      { id := id
        userId := user.id
        tokenHash := lib.sha256 raw
        client := client
        expiresAt := now + days settings.refreshTokenExpireDays
        revokedAt := none }) fun violation => orRaise violation (.ret raw)

def reuseDetected : ApiError := .permissionError "token_reuse_detected"

/-- The body of the `async with in_transaction()` block. -/
def rotateInTransaction (settings : Settings) (lib : TokenLib) (rawToken : String)
    (presentedClient : RefreshClient) (env : Env) : Service (String × String × RefreshClient) :=
  .stmt (selectRefreshTokenForUpdate (lib.sha256 rawToken)) fun record? =>
    match record? with
    | none => .raise (.valueError "refresh token not found")
    | some record =>
      if record.expiresAt < env.now 0 ∧ record.revokedAt = none then
        .raise (.valueError "refresh token expired")
      else if record.revokedAt ≠ none then
        .stmt (revokeTokensOf record.userId (env.now 0)) fun _ => .raise reuseDetected
      else if record.client ≠ presentedClient then .raise (.valueError "client mismatch")
      else
        .stmt (saveRefreshToken record.id (RefreshToken.revoke (env.now 0))) fun _ =>
        .stmt (selectUser record.userId) fun user? =>
          match user? with
          | none => .raise .doesNotExist
          | some user =>
            let newAccess := createAccessToken settings lib user (env.now 1)
            (issueRefreshToken settings lib user record.client (env.uuid 0) (env.now 2)).bind
              fun newRefresh => .ret (newAccess, newRefresh, record.client)

def rotateRefreshToken (settings : Settings) (lib : TokenLib) (rawToken : String)
    (presentedClient : RefreshClient) (env : Env) : Service (String × String × RefreshClient) :=
  .transaction (rotateInTransaction settings lib rawToken presentedClient env)

/-- `revoke_all_for_user`, outside any transaction. -/
def revokeAllForUser (userId : UUID) (env : Env) : Service Unit :=
  .stmt (revokeTokensOf userId (env.now 0)) fun _ => .ret ()

def FamilyRevoked (userId : UUID) (db : Database) : Prop :=
  ∀ t ∈ db.refreshTokens, t.userId = userId → t.revokedAt ≠ none

instance (userId : UUID) (db : Database) : Decidable (FamilyRevoked userId db) :=
  inferInstanceAs (Decidable (∀ t ∈ db.refreshTokens, t.userId = userId → t.revokedAt ≠ none))

theorem revokeTokensOf_familyRevoked (userId : UUID) (now : Time) (db x : Database) :
    FamilyRevoked userId ((revokeTokensOf userId now).write db x) := by
  intro t ht huser
  obtain ⟨t₀, _, rfl⟩ := List.mem_map.mp ht
  by_cases hactive : t₀.activeOf userId = true
  · simp [hactive, RefreshToken.revoke]
  · simp only [hactive, Bool.false_eq_true, if_false] at huser ⊢
    intro hnone
    exact hactive (by simp [RefreshToken.activeOf, huser, hnone])

theorem revokeAllForUser_familyRevoked (userId : UUID) (env : Env) (db : Database) :
    FamilyRevoked userId ((revokeAllForUser userId env).run db).1 :=
  revokeTokensOf_familyRevoked userId (env.now 0) db db

section Rotation
variable {settings : Settings} {lib : TokenLib} {rawToken : String}
  {presentedClient : RefreshClient} {env : Env} {db : Database}

theorem issueRefreshToken_error {user : User} {client : RefreshClient} {id : UUID} {now : Time}
    {db db' : Database} {e : ApiError}
    (h : (issueRefreshToken settings lib user client id now).run db = (db', .error e)) :
    ∃ c, e = .integrityError c := by
  simp only [issueRefreshToken, run_stmt, insertRefreshToken] at h
  generalize refreshTokenViolation db _ = violation at h
  cases violation with
  | none => simp [orRaise] at h
  | some c =>
    simp only [orRaise, run_raise, Prod.mk.injEq, Except.error.injEq] at h
    exact ⟨c, h.2.symm⟩

/-- Inside the block the family is revoked before the exception is raised. -/
theorem rotateInTransaction_reuse {db' : Database}
    (h : (rotateInTransaction settings lib rawToken presentedClient env).run db =
      (db', .error reuseDetected)) :
    ∃ record, db.refreshToken? (lib.sha256 rawToken) = some record ∧ record.revokedAt ≠ none ∧
      FamilyRevoked record.userId db' := by
  simp only [rotateInTransaction, run_stmt, selectRefreshTokenForUpdate] at h
  cases hrecord : db.refreshToken? (lib.sha256 rawToken) with
  | none => simp [hrecord, reuseDetected] at h
  | some record =>
    simp only [hrecord] at h
    split_ifs at h with hexpired hrevoked hclient
    · simp [reuseDetected] at h
    · simp only [run_stmt, run_raise, Prod.mk.injEq, and_true] at h
      refine ⟨record, rfl, hrevoked, ?_⟩
      rw [← h]
      exact revokeTokensOf_familyRevoked _ _ _ _
    · simp [reuseDetected] at h
    · simp only [run_stmt, selectUser, Stmt.select] at h
      generalize (saveRefreshToken record.id (RefreshToken.revoke (env.now 0))).write db db = v at h
      cases huser : Table.lookup User.id record.userId v.users with
      | none => simp [huser, reuseDetected] at h
      | some user =>
        simp only [huser] at h
        have hmap := run_map (fun newRefresh =>
            (createAccessToken settings lib user (env.now 1), newRefresh, record.client))
          (issueRefreshToken settings lib user record.client (env.uuid 0) (env.now 2)) v
        rw [Prog.map] at hmap
        rw [hmap] at h
        rcases hissue : (issueRefreshToken settings lib user record.client (env.uuid 0)
          (env.now 2)).run v with ⟨w, r⟩
        rw [hissue] at h
        cases r with
        | ok raw => simp [Except.map] at h
        | error e =>
          obtain ⟨c, rfl⟩ := issueRefreshToken_error hissue
          simp [Except.map, reuseDetected] at h

/-- The exception that reports the reuse also rolls the revocation back: after the call the family
    is revoked exactly if it was before. -/
theorem reuse_detection_effect (settings : Settings) (lib : TokenLib) (rawToken : String)
    (presentedClient : RefreshClient) (env : Env) (db : Database)
    (h : ((rotateRefreshToken settings lib rawToken presentedClient env).run db).2 =
      .error reuseDetected) :
    ∃ record, db.refreshToken? (lib.sha256 rawToken) = some record ∧ record.revokedAt ≠ none ∧
      (FamilyRevoked record.userId
          ((rotateRefreshToken settings lib rawToken presentedClient env).run db).1 ↔
        FamilyRevoked record.userId db) := by
  have hsame : ((rotateRefreshToken settings lib rawToken presentedClient env).run db).1 = db :=
    run_transaction_error (Prod.ext rfl h)
  rw [rotateRefreshToken, run_transaction] at h
  rcases hrun : (rotateInTransaction settings lib rawToken presentedClient env).run db with ⟨v, r⟩
  rw [hrun] at h
  cases r with
  | ok a => simp at h
  | error e =>
    have he : e = reuseDetected := by simpa using h
    subst he
    obtain ⟨record, hrecord, hrevoked, _⟩ := rotateInTransaction_reuse hrun
    exact ⟨record, hrecord, hrevoked, by rw [hsame]⟩

end Rotation

section Replay

def rotatedFamily : Database where
  users := [{ id := 1, email := "dana@school.example", fullName := "Dana", role := .student }]
  refreshTokens :=
    [⟨10, 1, "old", .web, days 14, some (days 1)⟩, ⟨11, 1, "new", .web, days 15, none⟩]

def replayEnv : Env := ⟨fun _ => days 2, fun _ => 12⟩

def plainLib : TokenLib := ⟨fun raw => raw, fun _ => "access", "fresh"⟩

theorem replay_leaves_successor_active :
    ((rotateRefreshToken {} plainLib "old" .web replayEnv).run rotatedFamily).2 =
        .error reuseDetected ∧
      ¬ FamilyRevoked 1
        ((rotateRefreshToken {} plainLib "old" .web replayEnv).run rotatedFamily).1 := by
  have hrun : (rotateRefreshToken {} plainLib "old" .web replayEnv).run rotatedFamily =
      (rotatedFamily, .error reuseDetected) := by rfl
  rw [hrun]
  exact ⟨rfl, by decide⟩

theorem reuse_detection_effect_replay :
    ∃ record, rotatedFamily.refreshToken? "old" = some record ∧ record.revokedAt ≠ none ∧
      (FamilyRevoked record.userId
          ((rotateRefreshToken {} plainLib "old" .web replayEnv).run rotatedFamily).1 ↔
        FamilyRevoked record.userId rotatedFamily) :=
  reuse_detection_effect {} plainLib "old" .web replayEnv rotatedFamily (by rfl)

end Replay
end Hefest
