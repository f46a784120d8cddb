import Hefest.RefreshTokens

set_option autoImplicit false

namespace Hefest

inductive PyJwtError
  | invalidAudience | expiredSignature | immatureSignature | invalidSignature | decodeError
deriving DecidableEq

structure JwtPayload where
  sub : Option (List Char)

structure PyJwt where
  /-- `jwt.encode(payload, key, algorithm=...)` -/
  encode : AccessClaims → String → String → String
  /-- `jwt.decode(token, key, algorithms=..., audience=...)` at some time. -/
  decode : String → String → List String → Option String → Time → Except PyJwtError JwtPayload

/-- The tokens the service draws, with access tokens signed under the current settings. -/
def PyJwt.tokenLib (jwt : PyJwt) (settings : Settings) (lib : TokenLib) : TokenLib :=
  { lib with
    jwtEncode := fun claims => jwt.encode claims settings.jwtSecret settings.jwtAlgorithm }

/-- The dates of a token are whole seconds. -/
def AccessClaims.unexpired (now : Time) (claims : AccessClaims) : Prop :=
  seconds (claims.iat / 1000000) ≤ now ∧ now < seconds (claims.exp / 1000000)

/-- A token that is decoded with the key and the algorithm it was signed with: without an audience
    a non-empty `aud` is refused, and an absent one is no obstacle. -/
structure PyJwt.Lawful (jwt : PyJwt) (key algorithm : String) : Prop where
  rejectsAudience : ∀ claims now, claims.unexpired now → claims.aud ≠ "" →
    jwt.decode (jwt.encode claims key algorithm) key [algorithm] none now = .error .invalidAudience
  accepts : ∀ claims now, claims.unexpired now → claims.aud = "" →
    jwt.decode (jwt.encode claims key algorithm) key [algorithm] none now = .ok ⟨some claims.sub⟩

/-- `_verified_user_id`; an empty `sub` counts as none. -/
def verifiedUserId (settings : Settings) (jwt : PyJwt) (now : Time) :
    Option String → Option (List Char)
  | none => none
  | some token =>
    match jwt.decode token settings.jwtSecret [settings.jwtAlgorithm] none now with
    | .error _ => none
    | .ok payload => payload.sub.filter (· ≠ [])

structure HttpRequest where
  method : String
  path : List Char
  /-- The `Authorization` header, empty when there is none. -/
  authorization : List Char
  clientHost : Option (List Char)

inductive Identifier
  | ip | user
deriving DecidableEq

inductive RulePath
  | exact (path : String)
  | registrations
  | fallback

structure Rule where
  methods : List String
  path : RulePath
  identifier : Identifier
  tag : String
  limit : ℤ
  window : ℤ

/-- `^/events/[^/]+/registrations$`; `$` also matches before a final newline. -/
def isRegistrationsPath (path : List Char) : Bool :=
  match "/events/".toList.isPrefixOf path with
  | false => false
  | true =>
    let rest := path.drop 8
    !(rest.takeWhile (· ≠ '/')).isEmpty &&
      (rest.dropWhile (· ≠ '/') == "/registrations".toList ||
        rest.dropWhile (· ≠ '/') == "/registrations\n".toList)

def RulePath.matches (path : List Char) : RulePath → Bool
  | .exact p => path == p.toList
  | .registrations => isRegistrationsPath path
  | .fallback => true

def Rule.matches (rule : Rule) (method : String) (path : List Char) : Bool :=
  rule.methods.contains method && rule.path.matches path

def rules (settings : Settings) : List Rule :=
  [{ methods := ["POST"]
     path := .exact "/login"
     identifier := .ip
     tag := "login"
     limit := settings.rateLimitLoginCount
     window := settings.rateLimitLoginWindowSeconds },
    { methods := ["POST"]
      path := .exact "/register"
      identifier := .ip
      tag := "register"
      limit := settings.rateLimitRegisterCount
      window := settings.rateLimitRegisterWindowSeconds },
    { methods := ["POST"]
      path := .registrations
      identifier := .user
      tag := "event_register"
      limit := settings.rateLimitEventRegisterCount
      window := settings.rateLimitEventRegisterWindowSeconds },
    { methods := ["GET", "POST", "PUT", "DELETE", "PATCH", "HEAD", "OPTIONS"]
      path := .fallback
      identifier := .ip
      tag := "global"
      limit := settings.rateLimitGlobalCount
      window := settings.rateLimitGlobalWindowSeconds }]

def clientIp (request : HttpRequest) : List Char := request.clientHost.getD "unknown".toList

def bearerToken (request : HttpRequest) : Option String :=
  if "Bearer ".toList.isPrefixOf request.authorization then
    some (String.ofList (request.authorization.drop 7))
  else none

def ratelimitPrefix : List Char := "hefest:ratelimit".toList

def identifierOf (settings : Settings) (jwt : PyJwt) (now : Time) (request : HttpRequest) :
    Identifier → List Char
  | .ip => "ip:".toList ++ clientIp request
  | .user =>
    match verifiedUserId settings jwt now (bearerToken request) with
    | some uid => "user:".toList ++ uid
    | none => "ip:".toList ++ clientIp request

def ruleKey (rule : Rule) (identifier : List Char) : List Char :=
  ratelimitPrefix ++ ':' :: rule.tag.toList ++ ':' :: identifier

def dispatchCheck (settings : Settings) (jwt : PyJwt) (now : Time) (request : HttpRequest) :
    Option (List Char × ℤ × ℤ) :=
  ((rules settings).find? fun rule => rule.matches request.method request.path).map fun rule =>
    (ruleKey rule (identifierOf settings jwt now request rule.identifier), rule.limit, rule.window)

def limiterKey (settings : Settings) (jwt : PyJwt) (now : Time) (request : HttpRequest) :
    Option (List Char) := (dispatchCheck settings jwt now request).map (·.1)

def mintedClaims (settings : Settings) (user : User) (now : Time) : AccessClaims where
  sub := uuidStr user.id
  role := user.role
  iss := "hefest"
  aud := settings.jwtAudience
  iat := now
  exp := now + minutes settings.jwtExpireMinutes
  type := "access"

structure HttpRequest.Registers (token : String) (request : HttpRequest) : Prop where
  method : request.method = "POST"
  path : isRegistrationsPath request.path = true
  authorization : request.authorization = "Bearer ".toList ++ token.toList

section Keys
variable {settings : Settings} {jwt : PyJwt} {now : Time} {request : HttpRequest} {token : String}

theorem bearerToken_eq (h : request.Registers token) : bearerToken request = some token := by
  unfold bearerToken
  rw [h.authorization]
  simp

theorem find_registrations (hmethod : request.method = "POST")
    (hpath : isRegistrationsPath request.path = true) :
    (rules settings).find? (fun rule => rule.matches request.method request.path) =
      (rules settings)[2]? := by
  have hother {p : String} (hp : isRegistrationsPath p.toList = false) :
      (request.path == p.toList) = false := by
    rw [beq_eq_false_iff_ne]
    rintro heq
    rw [heq, hp] at hpath
    cases hpath
  have hlogin := hother (p := "/login") (by decide)
  have hregister := hother (p := "/register") (by decide)
  simp only [rules, List.find?_cons, Rule.matches, RulePath.matches, hmethod, hlogin, hregister,
    hpath]
  rfl

theorem limiterKey_registrations (h : request.Registers token) :
    limiterKey settings jwt now request =
      some (ratelimitPrefix ++ ":event_register:".toList ++
        match verifiedUserId settings jwt now (some token) with
        | some uid => "user:".toList ++ uid
        | none => "ip:".toList ++ clientIp request) := by
  unfold limiterKey dispatchCheck
  rw [find_registrations h.method h.path]
  simp only [rules, List.getElem?_cons_succ, List.getElem?_cons_zero, Option.map_some, ruleKey,
    identifierOf, bearerToken_eq h]
  simp

/-- The middleware verifies a token of the service only if the tokens carry no audience. -/
theorem verifiedUserId_minted (lawful : jwt.Lawful settings.jwtSecret settings.jwtAlgorithm)
    (lib : TokenLib) (user : User) (iat : Time)
    (hvalid : (mintedClaims settings user iat).unexpired now) :
    verifiedUserId settings jwt now
        (some (createAccessToken settings (jwt.tokenLib settings lib) user iat)) =
      if settings.jwtAudience = "" then some (uuidStr user.id) else none := by
  have htoken : createAccessToken settings (jwt.tokenLib settings lib) user iat =
      jwt.encode (mintedClaims settings user iat) settings.jwtSecret settings.jwtAlgorithm := rfl
  unfold verifiedUserId
  rw [htoken]
  dsimp only
  split_ifs with haud
  · rw [lawful.accepts _ now hvalid haud]
    have hsub : uuidStr user.id ≠ [] := by
      apply List.ne_nil_of_length_pos
      rw [uuidStr_length]
      omega
    simp [mintedClaims, hsub]
  · rw [lawful.rejectsAudience _ now hvalid haud]

end Keys

def registrationRequest (token : String) (clientHost : List Char) : HttpRequest where
  method := "POST"
  path := "/events/7/registrations".toList
  authorization := "Bearer ".toList ++ token.toList
  clientHost := some clientHost

theorem registrationRequest_registers (token : String) (clientHost : List Char) :
    (registrationRequest token clientHost).Registers token := by
  have hpath : isRegistrationsPath "/events/7/registrations".toList = true := by decide
  exact ⟨rfl, hpath, rfl⟩

theorem limiterKey_address {settings : Settings} {jwt : PyJwt} {now : Time} {token : String}
    (h : verifiedUserId settings jwt now (some token) = none) (clientHost : List Char) :
    limiterKey settings jwt now (registrationRequest token clientHost) =
      some (ratelimitPrefix ++ ":event_register:".toList ++ ("ip:".toList ++ clientHost)) := by
  rw [limiterKey_registrations (registrationRequest_registers token clientHost), h]
  rfl

/-- The limit is per user exactly when the access tokens are minted without an audience. -/
theorem per_user_limit_iff (settings : Settings) (jwt : PyJwt) (lib : TokenLib)
    (lawful : jwt.Lawful settings.jwtSecret settings.jwtAlgorithm) (u v : User)
    (iat iat' now now' : Time) (hu : (mintedClaims settings u iat).unexpired now)
    (hv : (mintedClaims settings v iat').unexpired now') :
    (verifiedUserId settings jwt now
        (some (createAccessToken settings (jwt.tokenLib settings lib) u iat)) =
          some (uuidStr u.id) ↔ settings.jwtAudience = "") ∧
    ((∀ r s : HttpRequest,
        r.Registers (createAccessToken settings (jwt.tokenLib settings lib) u iat) →
        s.Registers (createAccessToken settings (jwt.tokenLib settings lib) v iat') →
          (limiterKey settings jwt now r = limiterKey settings jwt now' s ↔ u.id = v.id)) ↔
      settings.jwtAudience = "") := by
  have huser := verifiedUserId_minted lawful lib u iat hu
  have hother := verifiedUserId_minted lawful lib v iat' hv
  by_cases haud : settings.jwtAudience = ""
  · rw [if_pos haud] at huser hother
    refine ⟨iff_of_true huser haud, iff_of_true ?_ haud⟩
    intro r s hr hs
    rw [limiterKey_registrations hr, limiterKey_registrations hs, huser, hother]
    constructor
    · intro hkeys
      have htext : uuidStr u.id = uuidStr v.id := by simpa using hkeys
      exact uuidStr_injective _ _ htext
    · intro hid
      rw [hid]
  · rw [if_neg haud] at huser hother
    refine ⟨iff_of_false (by rw [huser]; nofun) haud, iff_of_false ?_ haud⟩
    intro hkeys
    -- The keys are those of the client addresses, whoever the users are.
    have hkey (a b : List Char) := hkeys _ _ (registrationRequest_registers _ a)
      (registrationRequest_registers _ b)
    have hsame := hkey "10.0.0.1".toList "10.0.0.1".toList
    have hdiffer := hkey "10.0.0.1".toList "10.0.0.2".toList
    rw [limiterKey_address huser, limiterKey_address hother] at hsame hdiffer
    have hid : u.id = v.id := hsame.mp rfl
    have hips := hdiffer.mpr hid
    simp at hips

/-- Tokens that show their subject, and first whether they carry an audience. -/
def plainJwt : PyJwt where
  encode claims _ _ := String.ofList ((if claims.aud = "" then '-' else '+') :: claims.sub)
  decode token _ _ audience _ :=
    match token.toList, audience with
    | '-' :: sub, none => .ok ⟨some sub⟩
    | '+' :: _, none => .error .invalidAudience
    | '+' :: sub, some _ => .ok ⟨some sub⟩
    | _, _ => .error .decodeError

theorem plainJwt_lawful (key algorithm : String) : plainJwt.Lawful key algorithm where
  rejectsAudience claims now _ haud := by
    simp [plainJwt, haud]
  accepts claims now _ haud := by
    simp [plainJwt, haud]

def student (id : UUID) : User where
  id := id
  email := "student@school.example"
  fullName := "Student"
  role := .student

def studentToken (settings : Settings) (id : UUID) : String :=
  createAccessToken settings (plainJwt.tokenLib settings plainLib) (student id) 0

theorem student_unexpired (settings : Settings) (h : settings.jwtExpireMinutes = 15) (id : UUID) :
    (mintedClaims settings (student id) 0).unexpired (seconds 60) := by
  unfold AccessClaims.unexpired
  simp only [mintedClaims, h]
  decide

theorem studentToken_unverified (id : UUID) :
    verifiedUserId {} plainJwt (seconds 60) (some (studentToken {} id)) = none := by
  unfold studentToken
  rw [verifiedUserId_minted (plainJwt_lawful _ _) plainLib _ 0 (student_unexpired {} rfl id)]
  exact if_neg (by decide)

theorem per_user_limit_by_address :
    (mintedClaims {} (student 20) 0).unexpired (seconds 60) ∧
      verifiedUserId {} plainJwt (seconds 60) (some (studentToken {} 20)) = none ∧
      limiterKey {} plainJwt (seconds 60)
          (registrationRequest (studentToken {} 20) "10.0.0.1".toList) ≠
        limiterKey {} plainJwt (seconds 60)
          (registrationRequest (studentToken {} 20) "10.0.0.2".toList) ∧
      limiterKey {} plainJwt (seconds 60)
          (registrationRequest (studentToken {} 20) "10.0.0.1".toList) =
        limiterKey {} plainJwt (seconds 60)
          (registrationRequest (studentToken {} 21) "10.0.0.1".toList) := by
  refine ⟨student_unexpired {} rfl 20, studentToken_unverified 20, ?_, ?_⟩
  · rw [limiterKey_address (studentToken_unverified 20), limiterKey_address (studentToken_unverified 20)]
    simp
  · rw [limiterKey_address (studentToken_unverified 20), limiterKey_address (studentToken_unverified 21)]

theorem per_user_limit_iff_plain :
    (verifiedUserId { jwtAudience := "" } plainJwt (seconds 60)
        (some (studentToken { jwtAudience := "" } 20)) = some (uuidStr 20) ↔ "" = "") ∧
      verifiedUserId {} plainJwt (seconds 60) (some (studentToken {} 20)) ≠ some (uuidStr 20) := by
  have hopen := per_user_limit_iff { jwtAudience := "" } plainJwt plainLib (plainJwt_lawful _ _)
    (student 20) (student 20) 0 0 (seconds 60) (seconds 60) (student_unexpired _ rfl 20)
    (student_unexpired _ rfl 20)
  have hdefault := per_user_limit_iff {} plainJwt plainLib (plainJwt_lawful _ _) (student 20)
    (student 20) 0 0 (seconds 60) (seconds 60) (student_unexpired _ rfl 20)
    (student_unexpired _ rfl 20)
  refine ⟨hopen.1, ?_⟩
  intro hverified
  have haud := hdefault.1.mp hverified
  revert haud
  decide

end Hefest
