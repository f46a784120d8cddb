import Hefest.AuthRouters
import Hefest.TokenCalls

set_option autoImplicit false

/-!
# The session of a browser

A browser logs in, keeps the cookie it is given and sends it back with every refresh. The cookie is
written under `refresh_cookie_name` and read under a fixed alias.
-/
namespace Hefest
open Transaction

structure StoredCookie where
  value : String
  expires : Time
deriving DecidableEq

/-- The cookies for the paths under `/auth`, by name. -/
abbrev CookieJar := List (String × StoredCookie)

namespace CookieJar

def store (jar : CookieJar) (cookie : SetCookie) (now : Time) : CookieJar :=
  (cookie.key, ⟨cookie.value, now + seconds cookie.maxAge⟩) ::
    jar.filter fun entry => entry.1 ≠ cookie.key

def sent (jar : CookieJar) (now : Time) (name : String) : Option String :=
  ((jar.lookup name).filter fun cookie => decide (now < cookie.expires)).map StoredCookie.value

def receive (jar : CookieJar) (reply : Except ApiError AuthReply) (now : Time) : CookieJar :=
  match reply with
  | .ok (.tokens (some cookie) _) => jar.store cookie now
  | .ok (.redirect (some cookie) _) => jar.store cookie now
  | _ => jar

end CookieJar

/-- `Cookie(alias=...)` of `refresh_tokens`, `logout` and `logout_all`. -/
def refreshCookieAlias : String := "hefest_refresh"

/-- One request: the clock and the ids its call reads, the token it draws if it needs one, its
    header, and when its response arrives. -/
structure Exchange where
  env : Env
  drawn : String
  xClientId : Option String := none
  receivedAt : Time

section Session
variable (settings : Settings) (accounts : AccountLib) (lib : TokenLib) (body : LoginRequest)
variable (exchange : ℕ → Exchange) (found : ℕ → Database)

def webAnswer (k : ℕ) (jar : CookieJar) : Database × Except ApiError AuthReply :=
  if k = 0 then
    (login settings accounts (lib.drawing (exchange k).drawn) body (exchange k).xClientId
      (exchange k).env).run (found k)
  else
    (refreshTokens settings (lib.drawing (exchange k).drawn) (exchange k).xClientId
      (jar.sent ((exchange k).env.now 0) refreshCookieAlias) none (exchange k).env).run (found k)

def webJar : ℕ → CookieJar
  | 0 => []
  | k + 1 =>
    (webJar k).receive (webAnswer settings accounts lib body exchange found k (webJar k)).2
      (exchange k).receivedAt

def webStep (k : ℕ) : Database × Except ApiError AuthReply :=
  webAnswer settings accounts lib body exchange found k
    (webJar settings accounts lib body exchange found k)

def webLogout (k : ℕ) : Database × Except ApiError AuthReply :=
  (logout lib
    ((webJar settings accounts lib body exchange found k).sent ((exchange k).env.now 0)
      refreshCookieAlias) none (exchange k).env).run (found k)

def issuedAt (k : ℕ) : Time := if k = 0 then (exchange k).env.now 1 else (exchange k).env.now 2

/-- What a session with `n` refreshes takes for granted: the login of a verified account succeeds,
    the requests come from a web client and before the last token expires, drawn tokens are new, and
    what others do in between leaves the account and the row of the last token alone. -/
structure SessionGoesOn (user : User) (n : ℕ) : Prop where
  known : (found 0).userByEmail? body.email = some user
  password : ∃ hashed, user.passwordHash = some hashed ∧
    verifyPassword accounts body.password hashed = .ok true
  verified : user.emailVerifiedAt ≠ none
  web : ∀ k ≤ n, getRefreshClient (exchange k).xClientId = .web
  drawn : ∀ k ≤ n, (exchange k).drawn ≠ ""
  fresh : ∀ k ≤ n, ∀ row ∈ (found k).refreshTokens,
    row.id ≠ (exchange k).env.uuid 0 ∧ row.tokenHash ≠ lib.sha256 (exchange k).drawn
  received : ∀ k ≤ n, issuedAt exchange k ≤ (exchange k).receivedAt
  unexpired : ∀ k ≤ n, (exchange (k + 1)).env.now 0 <
    issuedAt exchange k + days settings.refreshTokenExpireDays
  account : ∀ k ≤ n, ((found k).user? user.id).isSome
  unrevoked : ∀ k ≤ n, ∀ row,
    (webStep settings accounts lib body exchange found k).1.refreshToken?
        (lib.sha256 (exchange k).drawn) = some row →
      (found (k + 1)).refreshToken? (lib.sha256 (exchange k).drawn) = some row

def Refreshed (k : ℕ) : Prop :=
  ∃ cookie tokens, (webStep settings accounts lib body exchange found k).2 =
    .ok (.tokens (some cookie) tokens)

/-- A logout behind the `n`-th refresh revokes the token of its response. -/
def LogoutRevokes (n : ℕ) : Prop :=
  ∃ row, (webLogout settings accounts lib body exchange found (n + 1)).1.refreshToken?
      (lib.sha256 (exchange n).drawn) = some row ∧ row.revokedAt ≠ none

end Session

def Database.addToken (db : Database) (token : RefreshToken) : Database :=
  { db with refreshTokens := db.refreshTokens ++ [token] }

def Database.revokeToken (db : Database) (id : UUID) (now : Time) : Database :=
  { db with
    refreshTokens := Table.update RefreshToken.id id (RefreshToken.revoke now) db.refreshTokens }

section Rotation
variable {settings : Settings} {lib : TokenLib} {db : Database}

theorem insertRefreshToken_fresh {token : RefreshToken} (h : FreshToken db token) :
    (insertRefreshToken token).result db = none ∧
      (insertRefreshToken token).write db db = db.addToken token := by
  have hnone : refreshTokenViolation db token = none := (freshToken_iff h.active).mpr h
  exact ⟨hnone, if_pos hnone⟩

theorem issueRefreshToken_fresh {user : User} {client : RefreshClient} {id : UUID} {now : Time}
    {token : RefreshToken}
    (htoken : token = ⟨id, user.id, lib.sha256 lib.tokenUrlsafe, client,
      now + days settings.refreshTokenExpireDays, none⟩) (h : FreshToken db token) :
    (issueRefreshToken settings lib user client id now).run db =
      (db.addToken token, .ok lib.tokenUrlsafe) := by
  obtain ⟨hresult, hwrite⟩ := insertRefreshToken_fresh h
  subst htoken
  simp only [issueRefreshToken, run_stmt, hresult, hwrite, orRaise, run_ret]

theorem refreshToken?_inserted {token : RefreshToken} (h : FreshToken db token) :
    (db.addToken token).refreshToken? token.tokenHash = some token := by
  have hnone : Table.lookup RefreshToken.tokenHash token.tokenHash db.refreshTokens = none := by
    rw [Table.lookup_eq_none]
    exact h.hash
  change Table.lookup RefreshToken.tokenHash token.tokenHash (db.refreshTokens ++ [token]) = _
  rw [Table.lookup_append_of_none hnone]
  simp [Table.lookup]

theorem FreshToken.revoked {token : RefreshToken} (h : FreshToken db token) (id : UUID)
    (now : Time) : FreshToken (db.revokeToken id now) token := by
  refine ⟨fun row hrow => ?_, fun row hrow => ?_, h.active⟩
  · rcases Table.mem_update.mp hrow with ⟨hold, -⟩ | ⟨old, hold, -, rfl⟩
    · exact h.id row hold
    · exact h.id old hold
  · rcases Table.mem_update.mp hrow with ⟨hold, -⟩ | ⟨old, hold, -, rfl⟩
    · exact h.hash row hold
    · exact h.hash old hold

theorem rotateRefreshToken_fresh {raw : String} {env : Env} {record token : RefreshToken}
    {account : User} (hrecord : db.refreshToken? (lib.sha256 raw) = some record)
    (hunexpired : ¬ record.expiresAt < env.now 0) (hactive : record.revokedAt = none)
    (haccount : db.user? record.userId = some account)
    (htoken : token = ⟨env.uuid 0, account.id, lib.sha256 lib.tokenUrlsafe, record.client,
      env.now 2 + days settings.refreshTokenExpireDays, none⟩) (hfresh : FreshToken db token) :
    (rotateRefreshToken settings lib raw record.client env).run db =
      ((db.revokeToken record.id (env.now 0)).addToken token,
        .ok (createAccessToken settings lib account (env.now 1), lib.tokenUrlsafe,
          record.client)) := by
  have hissue := issueRefreshToken_fresh htoken (hfresh.revoked record.id (env.now 0))
  have huser : Table.lookup User.id record.userId db.users = some account := haccount
  have hmap := run_map (fun newRefresh =>
      (createAccessToken settings lib account (env.now 1), newRefresh, record.client))
    (issueRefreshToken settings lib account record.client (env.uuid 0) (env.now 2))
    (db.revokeToken record.id (env.now 0))
  rw [hissue] at hmap
  rw [rotateRefreshToken, run_transaction, rotateInTransaction]
  simp only [run_stmt, selectRefreshTokenForUpdate, hrecord, hunexpired, hactive, false_and,
    if_false, ne_eq, not_true_eq_false, saveRefreshToken, selectUser, Stmt.select, huser]
  change settle db ((Prog.map _ _).run (db.revokeToken record.id (env.now 0))) = _
  rw [hmap]
  rfl

end Rotation

section Run
variable {settings : Settings} {accounts : AccountLib} {lib : TokenLib} {body : LoginRequest}
variable {exchange : ℕ → Exchange} {found : ℕ → Database} {user : User} {n k : ℕ}

variable (settings lib exchange user k) in
def webToken : RefreshToken where
  id := (exchange k).env.uuid 0
  userId := user.id
  tokenHash := lib.sha256 (exchange k).drawn
  client := .web
  expiresAt := issuedAt exchange k + days settings.refreshTokenExpireDays
  revokedAt := none

variable (settings accounts lib body exchange found user k) in
structure Given : Prop where
  answer : ∃ tokens, (webStep settings accounts lib body exchange found k).2 =
    .ok (.tokens (some (setRefreshCookie settings (exchange k).drawn)) tokens)
  row : (webStep settings accounts lib body exchange found k).1.refreshToken?
    (lib.sha256 (exchange k).drawn) = some (webToken settings lib exchange user k)

theorem SessionGoesOn.freshToken
    (h : SessionGoesOn settings accounts lib body exchange found user n) (hk : k ≤ n) :
    FreshToken (found k) (webToken settings lib exchange user k) :=
  ⟨fun row hrow => (h.fresh k hk row hrow).1, fun row hrow => (h.fresh k hk row hrow).2, rfl⟩

theorem given_login (h : SessionGoesOn settings accounts lib body exchange found user n) :
    Given settings accounts lib body exchange found user 0 := by
  obtain ⟨hashed, hhash, hverify⟩ := h.password
  have hissue : (issueRefreshToken settings (lib.drawing (exchange 0).drawn) user .web
      ((exchange 0).env.uuid 0) ((exchange 0).env.now 1)).run (found 0) =
      ((found 0).addToken (webToken settings lib exchange user 0), .ok (exchange 0).drawn) :=
    issueRefreshToken_fresh rfl (h.freshToken (Nat.zero_le n))
  have hmap := run_map
    (fun raw => tokenResponse settings
      (createAccessToken settings (lib.drawing (exchange 0).drawn) user ((exchange 0).env.now 0))
      raw .web)
    (issueRefreshToken settings (lib.drawing (exchange 0).drawn) user .web
      ((exchange 0).env.uuid 0) ((exchange 0).env.now 1)) (found 0)
  rw [hissue] at hmap
  have hstep : webStep settings accounts lib body exchange found 0 =
      ((found 0).addToken (webToken settings lib exchange user 0),
        .ok (tokenResponse settings
          (createAccessToken settings (lib.drawing (exchange 0).drawn) user
            ((exchange 0).env.now 0)) (exchange 0).drawn .web)) := by
    unfold webStep webAnswer
    rw [if_pos rfl]
    simp only [login, run_stmt, selectUserByEmail, Stmt.select, h.known, hhash, orValueError,
      hverify, not_true_eq_false, if_false, h.verified, h.web 0 (Nat.zero_le n)]
    exact hmap
  refine ⟨?_, ?_⟩
  · rw [hstep]
    exact ⟨_, rfl⟩
  · rw [hstep]
    exact refreshToken?_inserted (h.freshToken (Nat.zero_le n))

theorem SessionGoesOn.presented
    (h : SessionGoesOn settings accounts lib body exchange found user n) (hk : k ≤ n) :
    presentedToken (some (exchange k).drawn) none = some (exchange k).drawn := by
  simp [presentedToken, h.drawn k hk]

theorem Given.jar (h : Given settings accounts lib body exchange found user k) :
    webJar settings accounts lib body exchange found (k + 1) =
      (webJar settings accounts lib body exchange found k).store
        (setRefreshCookie settings (exchange k).drawn) (exchange k).receivedAt := by
  obtain ⟨tokens, hanswer⟩ := h.answer
  change CookieJar.receive _ (webStep settings accounts lib body exchange found k).2 _ = _
  rw [hanswer]
  rfl

theorem Given.sent (h : Given settings accounts lib body exchange found user k)
    (hgoes : SessionGoesOn settings accounts lib body exchange found user n)
    (hk : k ≤ n) (name : settings.refreshCookieName = refreshCookieAlias) :
    (webJar settings accounts lib body exchange found (k + 1)).sent
      ((exchange (k + 1)).env.now 0) refreshCookieAlias = some (exchange k).drawn := by
  have hexpires : (exchange (k + 1)).env.now 0 <
      (exchange k).receivedAt + seconds (settings.refreshTokenExpireDays * 86400) := by
    have hlater : issuedAt exchange k + days settings.refreshTokenExpireDays ≤
        (exchange k).receivedAt + days settings.refreshTokenExpireDays :=
      add_le_add_left (hgoes.received k hk) _
    have hdays : days settings.refreshTokenExpireDays =
        seconds (settings.refreshTokenExpireDays * 86400) := congrArg seconds (mul_comm _ _)
    rw [← hdays]
    exact (hgoes.unexpired k hk).trans_le hlater
  have hlookup : (webJar settings accounts lib body exchange found (k + 1)).lookup
      refreshCookieAlias = some ⟨(exchange k).drawn,
        (exchange k).receivedAt + seconds (settings.refreshTokenExpireDays * 86400)⟩ := by
    rw [h.jar, CookieJar.store, List.lookup_cons]
    simp [setRefreshCookie, name]
  rw [CookieJar.sent, hlookup, Option.filter_some, if_pos (decide_eq_true hexpires)]
  rfl

theorem Given.next (h : Given settings accounts lib body exchange found user k)
    (hgoes : SessionGoesOn settings accounts lib body exchange found user n)
    (hk : k + 1 ≤ n) (name : settings.refreshCookieName = refreshCookieAlias) :
    Given settings accounts lib body exchange found user (k + 1) := by
  have hbefore : k ≤ n := Nat.le_of_succ_le hk
  have hrecord : (found (k + 1)).refreshToken? (lib.sha256 (exchange k).drawn) =
      some (webToken settings lib exchange user k) := hgoes.unrevoked k hbefore _ h.row
  obtain ⟨account, haccount⟩ := Option.isSome_iff_exists.mp (hgoes.account (k + 1) hk)
  have hid : account.id = user.id := Table.lookup_key haccount
  have hunexpired : ¬ (webToken settings lib exchange user k).expiresAt <
      (exchange (k + 1)).env.now 0 := not_lt.mpr (hgoes.unexpired k hbefore).le
  have htoken : webToken settings lib exchange user (k + 1) =
      ⟨(exchange (k + 1)).env.uuid 0, account.id, lib.sha256 (exchange (k + 1)).drawn, .web,
        (exchange (k + 1)).env.now 2 + days settings.refreshTokenExpireDays, none⟩ := by
    rw [hid]
    rfl
  have hrecordLib : (found (k + 1)).refreshToken?
      ((lib.drawing (exchange (k + 1)).drawn).sha256 (exchange k).drawn) =
      some (webToken settings lib exchange user k) := hrecord
  have htokenLib : webToken settings lib exchange user (k + 1) =
      ⟨(exchange (k + 1)).env.uuid 0, account.id,
        (lib.drawing (exchange (k + 1)).drawn).sha256
          (lib.drawing (exchange (k + 1)).drawn).tokenUrlsafe, .web,
        (exchange (k + 1)).env.now 2 + days settings.refreshTokenExpireDays, none⟩ := htoken
  have hrotate : (rotateRefreshToken settings (lib.drawing (exchange (k + 1)).drawn)
      (exchange k).drawn .web (exchange (k + 1)).env).run (found (k + 1)) =
      (((found (k + 1)).revokeToken ((exchange k).env.uuid 0)
          ((exchange (k + 1)).env.now 0)).addToken (webToken settings lib exchange user (k + 1)),
        .ok (createAccessToken settings (lib.drawing (exchange (k + 1)).drawn) account
          ((exchange (k + 1)).env.now 1), (exchange (k + 1)).drawn, .web)) :=
    rotateRefreshToken_fresh hrecordLib hunexpired rfl haccount htokenLib (hgoes.freshToken hk)
  have hstep : webStep settings accounts lib body exchange found (k + 1) =
      (((found (k + 1)).revokeToken ((exchange k).env.uuid 0)
          ((exchange (k + 1)).env.now 0)).addToken (webToken settings lib exchange user (k + 1)),
        .ok (tokenResponse settings
          (createAccessToken settings (lib.drawing (exchange (k + 1)).drawn) account
            ((exchange (k + 1)).env.now 1)) (exchange (k + 1)).drawn .web)) := by
    unfold webStep webAnswer
    rw [if_neg (Nat.succ_ne_zero k), h.sent hgoes hbefore name, refreshTokens, hgoes.presented hbefore,
      hgoes.web (k + 1) hk]
    exact run_wrap_ok hrotate
  refine ⟨?_, ?_⟩
  · rw [hstep]
    exact ⟨_, rfl⟩
  · rw [hstep]
    exact refreshToken?_inserted ((hgoes.freshToken hk).revoked _ _)

/-- Under the name that the endpoints read every response hands over to the next request. -/
theorem given_all (h : SessionGoesOn settings accounts lib body exchange found user n)
    (name : settings.refreshCookieName = refreshCookieAlias) (hk : k ≤ n) :
    Given settings accounts lib body exchange found user k := by
  induction k with
  | zero => exact given_login h
  | succ k ih => exact (ih (Nat.le_of_succ_le hk)).next h hk name

theorem Given.logoutRevokes (h : Given settings accounts lib body exchange found user n)
    (hgoes : SessionGoesOn settings accounts lib body exchange found user n)
    (name : settings.refreshCookieName = refreshCookieAlias) :
    LogoutRevokes settings accounts lib body exchange found n := by
  have hrecord : (found (n + 1)).refreshToken? (lib.sha256 (exchange n).drawn) =
      some (webToken settings lib exchange user n) := hgoes.unrevoked n le_rfl _ h.row
  have hset : ∀ t : RefreshToken, (t.revoke ((exchange (n + 1)).env.now 0)).id = t.id ∧
      RefreshToken.activeWithHash (lib.sha256 (exchange n).drawn)
        (t.revoke ((exchange (n + 1)).env.now 0)) = false :=
    revoke_dequalifies (activeWithHash_active _)
  have hrevoke := updateTokens_run (.ret ()) hset (found (n + 1))
  have hlogout : (webLogout settings accounts lib body exchange found (n + 1)).1.refreshTokens =
      Table.updateWhere (RefreshToken.activeWithHash (lib.sha256 (exchange n).drawn))
        (RefreshToken.revoke ((exchange (n + 1)).env.now 0)) (found (n + 1)).refreshTokens := by
    unfold webLogout
    rw [h.sent hgoes le_rfl name, logout, hgoes.presented le_rfl]
    change ((revokeRefreshToken lib (exchange n).drawn (exchange (n + 1)).env).map _ |>.run
      (found (n + 1))).1.refreshTokens = _
    rw [run_map, revokeRefreshToken, hrevoke]
    rfl
  refine ⟨(webToken settings lib exchange user n).revoke ((exchange (n + 1)).env.now 0), ?_,
    Option.some_ne_none _⟩
  have hactive : RefreshToken.activeWithHash (lib.sha256 (exchange n).drawn)
      (webToken settings lib exchange user n) = true := decide_eq_true ⟨rfl, rfl⟩
  have hhash (t : RefreshToken) :
      (t.revoke ((exchange (n + 1)).env.now 0)).tokenHash = t.tokenHash := rfl
  rw [Database.refreshToken?, hlogout, Table.lookup_updateWhere hhash]
  change ((found (n + 1)).refreshToken? (lib.sha256 (exchange n).drawn)).map _ = _
  rw [hrecord, Option.map_some, if_pos hactive]

/-- Under another name nothing is found under the alias after the login. -/
theorem sent_otherName (h : SessionGoesOn settings accounts lib body exchange found user n)
    (name : settings.refreshCookieName ≠ refreshCookieAlias) :
    (webJar settings accounts lib body exchange found 1).sent ((exchange 1).env.now 0)
      refreshCookieAlias = none := by
  have hjar : webJar settings accounts lib body exchange found 1 =
      CookieJar.store [] (setRefreshCookie settings (exchange 0).drawn)
        (exchange 0).receivedAt := (given_login h).jar
  have hkey : (refreshCookieAlias == settings.refreshCookieName) = false :=
    beq_false_of_ne (Ne.symm name)
  rw [hjar, CookieJar.sent, CookieJar.store, List.lookup_cons]
  simp [setRefreshCookie, hkey]

theorem not_refreshed_otherName
    (h : SessionGoesOn settings accounts lib body exchange found user n)
    (name : settings.refreshCookieName ≠ refreshCookieAlias) :
    ¬ Refreshed settings accounts lib body exchange found 1 := by
  rintro ⟨cookie, tokens, hanswer⟩
  have hstep : webStep settings accounts lib body exchange found 1 =
      (found 1, .error (.http 401 "refresh token required" none)) := by
    unfold webStep webAnswer
    rw [if_neg Nat.one_ne_zero, sent_otherName h name]
    rfl
  rw [hstep] at hanswer
  cases hanswer

theorem not_logoutRevokes_otherName
    (h : SessionGoesOn settings accounts lib body exchange found user n)
    (name : settings.refreshCookieName ≠ refreshCookieAlias) :
    ¬ LogoutRevokes settings accounts lib body exchange found 0 := by
  rintro ⟨row, hrow, hrevoked⟩
  have hlogout : (webLogout settings accounts lib body exchange found 1).1 = found 1 := by
    unfold webLogout
    rw [sent_otherName h name]
    rfl
  have hkept := h.unrevoked 0 (Nat.zero_le n) _ (given_login h).row
  rw [hlogout, hkept] at hrow
  rw [← Option.some.inj hrow] at hrevoked
  exact hrevoked rfl

end Run

/-- The session of a browser survives its refreshes and is ended by its logout, exactly if the
    cookie has the name under which the endpoints read it. -/
theorem web_session_survives_iff (settings : Settings) (accounts : AccountLib) (lib : TokenLib)
    (body : LoginRequest) (exchange : ℕ → Exchange) (found : ℕ → Database) (user : User) (n : ℕ)
    (goesOn : SessionGoesOn settings accounts lib body exchange found user n) :
    ((∀ k, 0 < k → k ≤ n → Refreshed settings accounts lib body exchange found k) ∧
        LogoutRevokes settings accounts lib body exchange found n) ↔
      settings.refreshCookieName = refreshCookieAlias := by
  constructor
  · rintro ⟨hrefreshed, hlogout⟩
    by_contra hname
    cases n with
    | zero => exact not_logoutRevokes_otherName goesOn hname hlogout
    | succ n =>
      exact not_refreshed_otherName goesOn hname
        (hrefreshed 1 Nat.one_pos (Nat.le_add_left 1 n))
  · intro hname
    refine ⟨fun k _ hk => ?_, (given_all goesOn hname le_rfl).logoutRevokes goesOn hname⟩
    obtain ⟨tokens, hanswer⟩ := (given_all goesOn hname hk).answer
    exact ⟨_, tokens, hanswer⟩

def returning : User where
  id := 1
  email := "dana@school.example"
  passwordHash := some "hash of correct horse"
  fullName := "Dana"
  role := .student
  emailVerifiedAt := some 0

def returningLogin : LoginRequest := ⟨returning.email, "correct horse"⟩

def cookieNamed (name : String) : Settings := { refreshCookieName := name }

/-- One request an hour; the token and its row are numbered by the request. -/
def hourly (k : ℕ) : Exchange where
  env := ⟨fun _ => hours k, fun _ => Fin.ofNat _ k⟩
  drawn := toString k
  receivedAt := hours k

def hourlyFound : ℕ → Database
  | 0 => { users := [returning] }
  | k + 1 => { users := [returning], refreshTokens := [webToken {} plainLib hourly returning k] }

theorem hourly_goesOn {name : String}
    (hrow : ∀ row,
      (webStep (cookieNamed name) plainAccounts plainLib returningLogin hourly hourlyFound
        1).1.refreshToken? "1" = some row → row = webToken {} plainLib hourly returning 1) :
    SessionGoesOn (cookieNamed name) plainAccounts plainLib returningLogin hourly hourlyFound
      returning 1 where
  known := rfl
  password := ⟨_, rfl, rfl⟩
  verified := Option.some_ne_none _
  web _ _ := rfl
  drawn k hk := by
    rcases Nat.le_one_iff_eq_zero_or_eq_one.mp hk with rfl | rfl <;> decide
  fresh k hk := by
    rcases Nat.le_one_iff_eq_zero_or_eq_one.mp hk with rfl | rfl <;> decide
  received k _ := by
    unfold issuedAt
    split
    · exact le_rfl
    · exact le_rfl
  unexpired k hk := by
    change (hourly (k + 1)).env.now 0 < issuedAt hourly k + days 14
    rcases Nat.le_one_iff_eq_zero_or_eq_one.mp hk with rfl | rfl <;> decide
  account k hk := by
    rcases Nat.le_one_iff_eq_zero_or_eq_one.mp hk with rfl | rfl <;> rfl
  unrevoked k hk row h := by
    rcases Nat.le_one_iff_eq_zero_or_eq_one.mp hk with rfl | rfl
    · exact h
    · rw [hrow row h]
      rfl

theorem hourly_goesOn_default :
    SessionGoesOn {} plainAccounts plainLib returningLogin hourly hourlyFound returning 1 := by
  refine hourly_goesOn fun row h => ?_
  have hstep : (webStep {} plainAccounts plainLib returningLogin hourly hourlyFound
      1).1.refreshToken? "1" = some (webToken {} plainLib hourly returning 1) := rfl
  exact Option.some.inj (h.symm.trans hstep)

theorem web_session_survives_iff_default :
    Refreshed {} plainAccounts plainLib returningLogin hourly hourlyFound 1 ∧
      LogoutRevokes {} plainAccounts plainLib returningLogin hourly hourlyFound 1 := by
  have hsurvives := (web_session_survives_iff {} plainAccounts plainLib returningLogin hourly
    hourlyFound returning 1 hourly_goesOn_default).mpr rfl
  exact ⟨hsurvives.1 1 Nat.one_pos le_rfl, hsurvives.2⟩

/-- With the cookie named `session` the first refresh after the login finds no token. -/
theorem renamed_cookie_ends_session :
    SessionGoesOn (cookieNamed "session") plainAccounts plainLib returningLogin hourly hourlyFound
        returning 1 ∧
      (webStep (cookieNamed "session") plainAccounts plainLib returningLogin hourly hourlyFound
        1).2 = .error (.http 401 "refresh token required" none) ∧
      ¬ ((∀ k, 0 < k → k ≤ 1 → Refreshed (cookieNamed "session") plainAccounts plainLib
            returningLogin hourly hourlyFound k) ∧
          LogoutRevokes (cookieNamed "session") plainAccounts plainLib returningLogin hourly
            hourlyFound 1) := by
  have hanswer : webStep (cookieNamed "session") plainAccounts plainLib returningLogin hourly
      hourlyFound 1 = (hourlyFound 1, .error (.http 401 "refresh token required" none)) := rfl
  have hgoes : SessionGoesOn (cookieNamed "session") plainAccounts plainLib returningLogin hourly
      hourlyFound returning 1 := by
    refine hourly_goesOn fun row h => ?_
    rw [hanswer] at h
    cases h
  refine ⟨hgoes, congrArg Prod.snd hanswer, fun hsurvives => ?_⟩
  exact not_refreshed_otherName hgoes (by decide) (hsurvives.1 1 Nat.one_pos le_rfl)

end Hefest
