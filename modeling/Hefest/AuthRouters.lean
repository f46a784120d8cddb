import Hefest.Accounts
import Hefest.TokenUpdates

set_option autoImplicit false

namespace Hefest
open Transaction

def clientIds : List (String × RefreshClient) := [("web_app", .web), ("mobile_app", .mobile)]

def getRefreshClient (xClientId : Option String) : RefreshClient :=
  (clientIds.lookup (textOr xClientId "")).getD .web

/-- `text.rsplit(":", 1)[-1]`. -/
def lastPart (text : String) : List Char := (text.toList.reverse.takeWhile (fun c => c ≠ ':')).reverse

def clientFromState (state : Option String) : RefreshClient :=
  match state with
  | some text => if text ≠ "" ∧ lastPart text = "mobile".toList then .mobile else .web
  | none => .web

/-- The refresh token of a request: the cookie, else the body; `none` is answered by a 401. -/
def presentedToken (cookieToken : Option String) (payload : Option (List (String × String))) :
    Option String :=
  let raw :=
    match cookieToken with
    | some raw => some raw
    | none => payload.bind fun fields => fields.lookup "refresh_token"
  raw.filter fun raw => raw ≠ ""

structure SetCookie where
  key : String
  value : String
  httponly : Bool
  secure : Bool
  samesite : String
  path : String
  maxAge : ℤ
deriving DecidableEq

structure TokenBody where
  accessToken : String
  tokenType : String := "bearer"
  expiresIn : ℤ
  refreshToken : Option String := none
deriving DecidableEq

structure FragmentRedirect where
  target : String
  fragment : List (String × String)
deriving DecidableEq

inductive AuthReply
  | tokens (cookie : Option SetCookie) (body : TokenBody)
  | redirect (cookie : Option SetCookie) (location : FragmentRedirect)
  | identified (user : User)
  | noContent
deriving DecidableEq

section Responses
variable (settings : Settings) (access refresh : String) (client : RefreshClient)

def setRefreshCookie (rawToken : String) : SetCookie where
  key := settings.refreshCookieName
  value := rawToken
  httponly := true
  secure := settings.refreshCookieSecure
  samesite := "strict"
  path := "/auth"
  maxAge := settings.refreshTokenExpireDays * 86400

def tokenResponse : AuthReply :=
  match client with
  | .mobile =>
    .tokens none
      { accessToken := access
        expiresIn := settings.jwtExpireMinutes * 60
        refreshToken := some refresh }
  | .web =>
    .tokens (some (setRefreshCookie settings refresh))
      { accessToken := access
        expiresIn := settings.jwtExpireMinutes * 60
        refreshToken := none }

def successRedirect : AuthReply :=
  match client with
  | .mobile =>
    .redirect none
      ⟨settings.mobileOauthSuccessUrl, [("access_token", access), ("refresh_token", refresh)]⟩
  | .web =>
    .redirect (some (setRefreshCookie settings refresh))
      ⟨settings.frontendOauthSuccessUrl, [("access_token", access)]⟩

end Responses

structure LoginRequest where
  email : String
  password : String

structure ChangePasswordRequest where
  currentPassword : String
  newPassword : String
  new_password_length : 12 ≤ newPassword.length

def invalidCredentials : ApiError := .http 401 "invalid credentials" (some "invalid_credentials")

def credentialsExc : ApiError := .http 401 "could not validate credentials" none

def currentPasswordIncorrect : ApiError :=
  .http 401 "current password is incorrect" (some "invalid_credentials")

/-- The `except` clause of `verify_email`. -/
def verifyEmailError : ApiError → ApiError
  | .valueError message => .http 400 message (some "invalid_verify_token")
  | e => e

def refreshError : ApiError → ApiError
  | .permissionError _ => .http 401 "refresh token revoked" (some "token_reuse_detected")
  | .valueError message => .http 401 message none
  | e => e

section Endpoints
variable (settings : Settings) (accounts : AccountLib) (lib : TokenLib)

/-- The last lines of `login`, `verify_email` and `_oauth_callback`. -/
def issuePair (reply : String → String → RefreshClient → AuthReply) (user : User)
    (client : RefreshClient) (id : UUID) (now now' : Time) : Service AuthReply :=
  let access := createAccessToken settings lib user now
  (issueRefreshToken settings lib user client id now').bind fun refresh =>
    .ret (reply access refresh client)

def login (body : LoginRequest) (xClientId : Option String) (env : Env) : Service AuthReply :=
  .stmt (selectUserByEmail body.email) fun user? =>
    match user? with
    | none => .raise invalidCredentials
    | some user =>
      match user.passwordHash with
      | none => .raise invalidCredentials
      | some hashed =>
        orValueError (verifyPassword accounts body.password hashed) fun verified =>
          if ¬ verified then .raise invalidCredentials
          else if user.emailVerifiedAt = none then
            .raise (.http 403 "email not verified" (some "email_not_verified"))
          else
            issuePair settings lib (tokenResponse settings) user (getRefreshClient xClientId)
              (env.uuid 0) (env.now 0) (env.now 1)

def verifyEmail (token : String) (xClientId : Option String) (env : Env) : Service AuthReply :=
  ((consumeEmailVerifyToken accounts token env).wrap verifyEmailError fun user => user).bind
    fun user =>
      issuePair settings lib (tokenResponse settings) user (getRefreshClient xClientId)
        (env.uuid 0) (env.now 2) (env.now 3)

def refreshTokens (xClientId cookieToken : Option String)
    (payload : Option (List (String × String))) (env : Env) : Service AuthReply :=
  match presentedToken cookieToken payload with
  | none => .raise (.http 401 "refresh token required" none)
  | some raw =>
    (rotateRefreshToken settings lib raw (getRefreshClient xClientId) env).wrap refreshError
      fun (newAccess, newRefresh, boundClient) =>
        tokenResponse settings newAccess newRefresh boundClient

/-- `_oauth_callback` from the line on in which `find_or_create_oauth_user` has returned `user`: its
    transaction has ended there, so it is a call of its own. -/
def oauthCallback (state : Option String) (user : User) (env : Env) : Service AuthReply :=
  issuePair settings lib (successRedirect settings) user (clientFromState state) (env.uuid 0)
    (env.now 0) (env.now 1)

/-- `logout`; the cookie is cleared in any case. -/
def logout (cookieToken : Option String) (payload : Option (List (String × String))) (env : Env) :
    Service AuthReply :=
  match presentedToken cookieToken payload with
  | none => .ret .noContent
  | some raw => (revokeRefreshToken lib raw env).map fun _ => .noContent

/-- `get_current_user` once the access token has been decoded; `userId` is its `sub`. -/
def getCurrentUser (userId : UUID) : Service User :=
  .stmt (selectUser userId) fun user? =>
    match user? with
    | none => .raise credentialsExc
    | some user => .ret user

def changePassword (body : ChangePasswordRequest) (user : User) (salt : String) (env : Env) :
    Service AuthReply :=
  match user.passwordHash with
  | none => .raise currentPasswordIncorrect
  | some hashed =>
    orValueError (verifyPassword accounts body.currentPassword hashed) fun verified =>
      if ¬ verified then .raise currentPasswordIncorrect
      else
        orValueError (hashPassword accounts body.newPassword salt) fun passwordHash =>
          .stmt (saveUser user.id fun u => { u with passwordHash := some passwordHash }) fun _ =>
            (revokeAllForUserByRow user.id env).map fun _ => .noContent

end Endpoints
end Hefest
