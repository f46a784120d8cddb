import Hefest.OauthUsers
import Hefest.RefreshTokens

set_option autoImplicit false

namespace Hefest
open Transaction

structure EmailVerifyClaims where
  sub : List Char
  aud : String
  exp : Time
  type : String
deriving DecidableEq

/-- What `jwt.decode` finds in a token. `sub` is the id that the text in the token stands for, if
    it stands for one. -/
structure EmailVerifyPayload where
  type : Option String
  sub : Option UUID

/-- What the accounts take from `bcrypt` and `jwt`. `hashpw` and `checkpw` may raise a `ValueError`.
    `jwtDecode token now` is the payload of a token signed by this server for the audience
    `hefest-verify`, and `none` where `jwt` raises. -/
structure AccountLib where
  hashpw : ByteArray → String → Except String String
  checkpw : ByteArray → String → Except String Bool
  jwtEncode : EmailVerifyClaims → String
  jwtDecode : String → Time → Option EmailVerifyPayload

section Tokens
variable (settings : Settings) (lib : AccountLib)

def createEmailVerifyToken (user : User) (now : Time) : String :=
  lib.jwtEncode
    { sub := uuidStr user.id
      aud := "hefest-verify"
      exp := now + hours settings.emailVerifyExpireHours
      type := "email_verify" }

def buildEmailVerifyLink (user : User) (now : Time) : String :=
  let token := createEmailVerifyToken settings lib user now
  let separator := if settings.emailVerifyUrl.toList.contains '?' then "&" else "?"
  settings.emailVerifyUrl ++ separator ++ "token=" ++ token

def consumeEmailVerifyToken (token : String) (env : Env) : Service User :=
  match lib.jwtDecode token (env.now 0) with
  | none => .raise (.valueError "invalid or expired verification token")
  | some payload =>
    if payload.type ≠ some "email_verify" then .raise (.valueError "wrong token type")
    else
      match payload.sub with
      | none => .raise (.valueError "badly formed hexadecimal UUID string")
      | some id =>
        .stmt (selectUser id) fun user? =>
          match user? with
          | none => .raise (.valueError "user not found")
          | some user =>
            if user.emailVerifiedAt = none then
              .stmt (saveUser user.id fun u => { u with emailVerifiedAt := some (env.now 1) }) fun _ =>
                .ret { user with emailVerifiedAt := some (env.now 1) }
            else .ret user

end Tokens

section Passwords
variable (lib : AccountLib)

/-- `salt` is what `bcrypt.gensalt(rounds=12)` returns. -/
def hashPassword (plain salt : String) : Except String String := lib.hashpw plain.toUTF8 salt

def verifyPassword (plain hashed : String) : Except String Bool := lib.checkpw plain.toUTF8 hashed

end Passwords

/-- `_password_validator`; `len` counts the characters. -/
def passwordValidator (v : String) : Except String String :=
  if v.length < 12 then .error "Password must be at least 12 characters long" else .ok v

/-- A `ValueError` that nobody catches ends the call. -/
def orValueError {α β : Type} (result : Except String α) (next : α → Service β) : Service β :=
  match result with
  | .error message => .raise (.valueError message)
  | .ok a => next a

structure RegisterRequest where
  email : String
  password : String
  fullName : String
  password_length : 12 ≤ password.length

structure RegisterResponse where
  message : String
  verifyToken : Option String
deriving DecidableEq

def existsUserWithEmail (email : String) : Query Bool :=
  .select fun db => (db.userByEmail? email).isSome

section Register
variable (settings : Settings) (lib : AccountLib) (body : RegisterRequest) (salt : String) (env : Env)

def registeredUser (passwordHash : String) : User where
  id := env.uuid 0
  email := body.email
  fullName := body.fullName
  passwordHash := some passwordHash
  role := .student
  emailVerifiedAt := none

def emailVerifyJob (user : User) : NotificationJob :=
  newJob env 1 0 none .emailVerify { studentId := some user.id } user.id

/-- The response is built when the transaction has ended, from the row it has inserted. -/
def registerResponse (user : User) : RegisterResponse where
  message := "registered; check your email to verify your account"
  verifyToken :=
    if settings.env = "dev" then some (createEmailVerifyToken settings lib user (env.now 3)) else none

def emailExists : ApiError := .http 409 "email already registered" (some "email_exists")

/-- The body of the `async with in_transaction("default")` block. -/
def registerInTransaction : Service RegisterResponse :=
  orValueError (hashPassword lib body.password salt) fun passwordHash =>
    let user := registeredUser body env passwordHash
    .stmt (insertUser user) fun violation => orRaise violation
      (createJobs [emailVerifyJob env user] (.ret (registerResponse settings lib env user)))

def register : Service RegisterResponse :=
  .stmt (existsUserWithEmail body.email) fun exists? =>
    if exists? then .raise emailExists
    else .transaction (registerInTransaction settings lib body salt env)

end Register

def shortEnough {α : Type} (password : ByteArray) (a : α) : Except String α :=
  if 72 < password.size then .error "password cannot be longer than 72 bytes" else .ok a

def plainHash (password : ByteArray) : String :=
  "hash of " ++ String.ofList (password.data.toList.map fun b => Char.ofNat b.toNat)

def plainAccounts : AccountLib where
  hashpw password _ := shortEnough password (plainHash password)
  checkpw password hashed := shortEnough password (decide (plainHash password = hashed))
  jwtEncode _ := "verification token"
  jwtDecode _ _ := none

end Hefest
