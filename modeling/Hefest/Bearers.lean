import Hefest.Sessions

set_option autoImplicit false

/-!
# Who acts as a user

An access token is not stored: whoever presents one that the server has signed acts as the user it
names until it expires. A token is signed for nobody who has not shown, or whose session does not
show, that the account is theirs, and a verification token is no access token.
-/
namespace Hefest
open Transaction Transition

/-- What `jwt.decode` finds in a token for the audience of access tokens. -/
structure AccessPayload where
  type : Option String
  sub : Option (List Char)

/-- `user_id_from_access_token`, and `get_current_user` up to its query; `decode token now` is
    `none` where `jwt` raises. -/
def accessSubject (decode : String → Time → Option AccessPayload) (token : String) (now : Time) :
    Option (List Char) :=
  match decode token now with
  | none => none
  | some payload => if payload.type ≠ some "access" then none else payload.sub

/-- What is used of `jwt.decode`: a token of this server is read as the claims it was made of, and
    only until its expiry, which is a whole second. -/
structure ReadsTokens (accounts : AccountLib) (lib : TokenLib)
    (decode : String → Time → Option AccessPayload) : Prop where
  access : ∀ claims now payload, decode (lib.jwtEncode claims) now = some payload →
    now < seconds (claims.exp / 1000000) ∧ payload.type = some claims.type ∧
      payload.sub = some claims.sub
  verify : ∀ claims now payload, decode (accounts.jwtEncode claims) now = some payload →
    payload.type = some claims.type

section Reading
variable {settings : Settings} {accounts : AccountLib} {lib : TokenLib}
  {decode : String → Time → Option AccessPayload} {now issued : Time} {user : User}
  {sub : List Char}

theorem accessSubject_some {token : String} (h : accessSubject decode token now = some sub) :
    ∃ payload, decode token now = some payload ∧ payload.type = some "access" ∧
      payload.sub = some sub := by
  unfold accessSubject at h
  cases hpayload : decode token now with
  | none =>
    rw [hpayload] at h
    cases h
  | some payload =>
    rw [hpayload] at h
    simp only at h
    split_ifs at h with htype
    exact ⟨payload, rfl, not_not.mp htype, h⟩

theorem accessSubject_access (reads : ReadsTokens accounts lib decode)
    (h : accessSubject decode (createAccessToken settings lib user issued) now = some sub) :
    sub = uuidStr user.id ∧ now < issued + minutes settings.jwtExpireMinutes := by
  obtain ⟨payload, hdecode, _, hsub⟩ := accessSubject_some h
  obtain ⟨hunexpired, _, hsub'⟩ := reads.access _ now payload hdecode
  refine ⟨Option.some.inj (hsub.symm.trans hsub'), ?_⟩
  have hfloor := Int.ediv_mul_le (issued + minutes settings.jwtExpireMinutes)
    (by decide : (1000000 : ℤ) ≠ 0)
  exact lt_of_lt_of_le hunexpired hfloor

/-- The token of a verification link does not open the API. -/
theorem accessSubject_verify (reads : ReadsTokens accounts lib decode) :
    accessSubject decode (createEmailVerifyToken settings accounts user issued) now = none := by
  cases h : accessSubject decode (createEmailVerifyToken settings accounts user issued) now with
  | none => rfl
  | some sub =>
    obtain ⟨payload, hdecode, htype, _⟩ := accessSubject_some h
    have hverify := reads.verify _ now payload hdecode
    rw [htype] at hverify
    have hne : "access" ≠ "email_verify" := by decide
    exact absurd (Option.some.inj hverify) hne

end Reading

def AuthReply.access? : AuthReply → Option String
  | .tokens _ body => some body.accessToken
  | .redirect _ location => location.fragment.lookup "access_token"
  | _ => none

def ApiReply.access? : ApiReply → Option String
  | .auth reply => reply.access?
  | _ => none

def Visit.issuedAt : Visit → Time
  | .api (.auth (.login _ _ _ env)) _ => env.now 0
  | .api (.auth (.verifyEmail _ _ _ env)) _ => env.now 2
  | .api (.auth (.refresh _ _ _ _ env)) _ => env.now 1
  | .oauth _ _ _ _ env => (env.drop 4).now 0
  | _ => 0

def Visit.actsAs : Visit → Option UUID
  | .api (.service userId _ _) _ | .api (.updateMe userId _) _
  | .api (.changePassword userId _ _ _) _ => some userId
  | .api (.logoutAll _ bearer _) _ => bearer
  | _ => none

/-- The visitor shows that the account is theirs, or holds a session of it. -/
def MayEnter (accounts : AccountLib) (lib : TokenLib) (db : Database) (v : Visit) (id : UUID) :
    Prop :=
  Proves accounts db v id ∨ ∃ t, Renews lib db v t ∧ t.userId = id

section Answers
variable {settings : Settings} {accounts : AccountLib} {lib : TokenLib} {db : Database}
  {reply : ApiReply}

theorem tokenResponse_access (access refresh : String) (client : RefreshClient) :
    (tokenResponse settings access refresh client).access? = some access := by
  cases client <;> rfl

theorem successRedirect_access (access refresh : String) (client : RefreshClient) :
    (successRedirect settings access refresh client).access? = some access := by
  cases client <;> rfl

theorem issuePair_answer {respond : String → String → RefreshClient → AuthReply} {user : User}
    {client : RefreshClient} {id : UUID} {now now' : Time} {answered : AuthReply}
    (h : ((issuePair settings lib respond user client id now now').run db).2 = .ok answered) :
    answered = respond (createAccessToken settings lib user now) lib.tokenUrlsafe client := by
  simp only [issuePair, issueRefreshToken, bind_stmt, run_stmt] at h
  generalize (insertRefreshToken _).result db = violation at h
  cases violation with
  | some violated => cases h
  | none =>
    cases h
    rfl

theorem logout_answer {cookieToken : Option String} {payload : Option (List (String × String))}
    {env : Env} {answered : AuthReply}
    (h : ((logout lib cookieToken payload env).run db).2 = .ok answered) :
    answered = .noContent := by
  unfold logout at h
  cases hpresented : presentedToken cookieToken payload with
  | none =>
    rw [hpresented] at h
    cases h
    rfl
  | some raw =>
    rw [hpresented] at h
    simp only [run_map] at h
    exact (except_map_eq_ok h).choose_spec.2

/-- Of the requests that are no callback only three hand out an access token. -/
theorem quiet_access {c : ApiCall} (quiet : ∀ a, c = .auth a → a.drawn? = none)
    (whole : c.whole = true) (h : (answer settings accounts lib c db).2 = .ok reply) :
    reply.access? = none := by
  by_cases hends : c.endsSessions = true
  · rcases ends_cases settings accounts lib db hends with ⟨_, e, hrefused⟩ | ⟨id, _, hok, _⟩
    · rw [hrefused] at h
      cases h
    · rw [hok] at h
      cases h
      rfl
  · cases c with
    | service userId endpoint env =>
      simp only [answer, ApiCall.prog, run_map] at h
      obtain ⟨response, _, rfl⟩ := except_map_eq_ok h
      rfl
    | register body salt env =>
      simp only [answer, ApiCall.prog, run_map] at h
      obtain ⟨response, _, rfl⟩ := except_map_eq_ok h
      rfl
    | updateMe userId fullName =>
      simp only [answer, ApiCall.prog, run_map] at h
      obtain ⟨response, _, rfl⟩ := except_map_eq_ok h
      rfl
    | changePassword => exact absurd rfl hends
    | logoutAll => exact absurd rfl hends
    | auth a =>
      simp only [answer, ApiCall.prog, run_map] at h
      obtain ⟨answered, hanswered, rfl⟩ := except_map_eq_ok h
      cases a with
      | login => cases quiet _ rfl
      | verifyEmail => cases quiet _ rfl
      | refresh => cases quiet _ rfl
      | findOrCreate => cases whole
      | oauthCallback => cases whole
      | logout cookieToken payload env =>
        rw [logout_answer hanswered]
        rfl

def HandsOut (settings : Settings) (accounts : AccountLib) (lib : TokenLib) (db : Database)
    (v : Visit) (issued : Time) (access? : Option String) : Prop :=
  ∃ user, access? = some (createAccessToken settings lib user issued) ∧
    MayEnter accounts lib db v user.id

theorem login_handsOut {body : LoginRequest} {xClientId : Option String} {drawn : String}
    {env : Env} (whole : (ApiCall.auth (.login body xClientId drawn env)).whole = true)
    {answered : AuthReply}
    (h : ((login settings accounts (lib.drawing drawn) body xClientId env).run db).2 =
      .ok answered) :
    HandsOut settings accounts lib db (.api (.auth (.login body xClientId drawn env)) whole)
      (env.now 0) answered.access? := by
  rcases login_cases settings accounts (lib.drawing drawn) body xClientId drawn env whole db with
    ⟨e, hrefused⟩ | ⟨user, _, _, hproves, hissued⟩
  · rw [hrefused] at h
    cases h
  · rw [hissued] at h
    rw [issuePair_answer h, tokenResponse_access]
    exact ⟨user, rfl, .inl hproves⟩

theorem verifyEmail_handsOut {text : String} {xClientId : Option String} {drawn : String}
    {env : Env} (whole : (ApiCall.auth (.verifyEmail text xClientId drawn env)).whole = true)
    {answered : AuthReply}
    (h : ((verifyEmail settings accounts (lib.drawing drawn) text xClientId env).run db).2 =
      .ok answered) :
    HandsOut settings accounts lib db (.api (.auth (.verifyEmail text xClientId drawn env)) whole)
      (env.now 2) answered.access? := by
  rcases verifyEmail_cases settings accounts (lib.drawing drawn) text xClientId drawn env whole db
    with ⟨e, hrefused⟩ | ⟨user, db', _, _, hproves, hissued⟩
  · rw [hrefused] at h
    cases h
  · rw [hissued] at h
    rw [issuePair_answer h, tokenResponse_access]
    exact ⟨user, rfl, .inl hproves⟩

theorem refresh_handsOut {xClientId cookieToken : Option String}
    {payload : Option (List (String × String))} {drawn : String} {env : Env}
    (whole : (ApiCall.auth (.refresh xClientId cookieToken payload drawn env)).whole = true)
    {answered : AuthReply}
    (h : ((refreshTokens settings (lib.drawing drawn) xClientId cookieToken payload env).run db).2 =
      .ok answered) :
    HandsOut settings accounts lib db
      (.api (.auth (.refresh xClientId cookieToken payload drawn env)) whole) (env.now 1)
      answered.access? := by
  unfold refreshTokens at h
  cases hpresented : presentedToken cookieToken payload with
  | none =>
    rw [hpresented] at h
    cases h
  | some raw =>
    rw [hpresented] at h
    simp only [run_wrap] at h
    rcases rotate_cases settings (lib.drawing drawn) raw (getRefreshClient xClientId) env db with
      ⟨e, hrefused⟩ | ⟨record, user, hfound, hactive, hunexpired, hclient, hid, hrotated⟩
    · rw [hrefused] at h
      cases h
    · rw [hrotated] at h
      cases h
      rw [tokenResponse_access]
      exact ⟨user, rfl, .inr ⟨record, .refresh hpresented hfound hactive hunexpired hclient,
        hid.symm⟩⟩

theorem oauth_handsOut (hdb : Linked db) {provider : String} {openid : OpenID}
    {state : Option String} {drawn : String} {env : Env} {answered : AuthReply}
    (h : (visitOauth settings lib provider openid state drawn env db).2 = .ok answered) :
    HandsOut settings accounts lib db (.oauth provider openid state drawn env)
      ((env.drop 4).now 0) answered.access? := by
  rcases visitOauth_cases settings lib provider openid state drawn env db with
    ⟨e, hfailed⟩ | ⟨db', user, hrun, hcallback⟩
  · rw [hfailed] at h
    cases h
  · rw [hcallback] at h
    rw [issuePair_answer h, successRedirect_access]
    exact ⟨user, rfl, .inl (.provider (findOrCreateOauthUser_spokenFor hdb hrun))⟩

/-- Whoever is handed an access token may enter the account it is for. -/
theorem visit_handsOut (hdb : Linked db) (v : Visit)
    (h : (visitAnswer settings accounts lib v db).2 = .ok reply) :
    reply.access? = none ∨ HandsOut settings accounts lib db v v.issuedAt reply.access? := by
  cases v with
  | oauth provider openid state drawn env =>
    obtain ⟨answered, hanswered, rfl⟩ :
        ∃ a, (visitOauth settings lib provider openid state drawn env db).2 = .ok a ∧
          reply = .auth a := except_map_eq_ok h
    exact .inr (oauth_handsOut hdb hanswered)
  | api c whole =>
    by_cases quiet : ∀ a, c = .auth a → a.drawn? = none
    · exact .inl (quiet_access quiet whole h)
    · obtain ⟨a, rfl, hdrawn⟩ : ∃ a, c = .auth a ∧ a.drawn? ≠ none := by
        simpa using quiet
      have hanswer : (((a.prog settings accounts lib).map ApiReply.auth).run db).2 = .ok reply := h
      rw [run_map] at hanswer
      obtain ⟨answered, hanswered, rfl⟩ := except_map_eq_ok hanswer
      right
      cases a with
      | login => exact login_handsOut whole hanswered
      | verifyEmail => exact verifyEmail_handsOut whole hanswered
      | refresh => exact refresh_handsOut whole hanswered
      | findOrCreate => cases whole
      | oauthCallback => cases whole
      | logout => exact absurd rfl hdrawn

end Answers

/-- The bearer tokens of a run: a request that acts as a user carries a token that is read as that
    user's, and whatever `jwt.decode` accepts was signed by the server, in a response of the run or
    for a verification link. Nobody presents an access token that was handed out before the run. -/
structure Bearers (settings : Settings) (accounts : AccountLib) (lib : TokenLib)
    (decode : String → Time → Option AccessPayload) (db₀ : Database) (visits : List Visit)
    (bearer : ℕ → Option String) (arrivedAt : ℕ → Time) : Prop where
  subject : ∀ k v id, visits[k]? = some v → v.actsAs = some id →
    ∃ token, bearer k = some token ∧
      accessSubject decode token (arrivedAt k) = some (uuidStr id)
  unforged : ∀ k token payload, bearer k = some token →
    decode token (arrivedAt k) = some payload →
    (∃ user issued, token = createEmailVerifyToken settings accounts user issued) ∨
      ∃ j v reply, j < k ∧ visits[j]? = some v ∧
        (visitAnswer settings accounts lib v (visitedAt settings accounts lib db₀ visits j)).2 =
          .ok reply ∧ reply.access? = some token

/-- Whoever acts as a user holds an access token that has been handed out for that account at most
    the lifetime of a token before, to a visitor who had shown that the account was theirs or held a
    session of it. And that session goes back to such a visitor too, unless the user had one when
    the run began. -/
theorem bearer_origin (settings : Settings) (accounts : AccountLib) (lib : TokenLib)
    (decode : String → Time → Option AccessPayload) (reads : ReadsTokens accounts lib decode)
    (db₀ : Database) (h₀ : Linked db₀) (visits : List Visit) (bearer : ℕ → Option String)
    (arrivedAt : ℕ → Time)
    (bearers : Bearers settings accounts lib decode db₀ visits bearer arrivedAt) (k : ℕ) (v : Visit)
    (id : UUID) (hv : visits[k]? = some v) (acts : v.actsAs = some id) :
    ∃ j w, j < k ∧ visits[j]? = some w ∧
      arrivedAt k < w.issuedAt + minutes settings.jwtExpireMinutes ∧
      MayEnter accounts lib (visitedAt settings accounts lib db₀ visits j) w id ∧
      (ActiveSession db₀ id ∨
        ∃ i u, i ≤ j ∧ visits[i]? = some u ∧
          Proves accounts (visitedAt settings accounts lib db₀ visits i) u id) := by
  obtain ⟨token, hbearer, hsubject⟩ := bearers.subject k v id hv acts
  obtain ⟨payload, hdecode, _, _⟩ := accessSubject_some hsubject
  rcases bearers.unforged k token payload hbearer hdecode with
    ⟨user, issued, rfl⟩ | ⟨j, w, reply, hjk, hw, hok, htoken⟩
  · rw [accessSubject_verify reads] at hsubject
    cases hsubject
  · rcases visit_handsOut (visitedAt_linked h₀ j) w hok with hnone | ⟨user, haccess, henter⟩
    · rw [hnone] at htoken
      cases htoken
    · obtain rfl := Option.some.inj (htoken.symm.trans haccess)
      obtain ⟨hsub, hunexpired⟩ := accessSubject_access reads hsubject
      obtain rfl : id = user.id := uuidStr_injective _ _ hsub
      refine ⟨j, w, hjk, hw, hunexpired, henter, ?_⟩
      rcases henter with hproves | ⟨t, hrenews, howner⟩
      · exact .inr ⟨j, w, le_rfl, hw, hproves⟩
      · have hactive : ActiveSession (visitedAt settings accounts lib db₀ visits j) user.id :=
          ⟨t, hrenews.mem.1, howner, hrenews.mem.2⟩
        rcases active_origin h₀ (Nat.zero_le j) hactive with hbefore | ⟨i, u, _, hij, hu, hproves⟩
        · exact .inl hbefore
        · exact .inr ⟨i, u, hij.le, hu, hproves⟩

section NameChanged

/-- When the token of the first callback expires. -/
def danaExpiry : Time := days 1 + 4 + minutes 15

def danaLib : TokenLib :=
  { plainLib with
    jwtEncode := fun claims =>
      if claims.sub = uuidStr 10 ∧ claims.exp = danaExpiry ∧ claims.type = "access" then "dana"
      else "somebody" }

def danaDecode (token : String) (now : Time) : Option AccessPayload :=
  if token = "dana" ∧ now < seconds (danaExpiry / 1000000) then
    some ⟨some "access", some (uuidStr 10)⟩
  else none

def nameChanged : List Visit :=
  [.oauth "google" danaOpenID none "first" (driftEnv 1), .api (.updateMe 10 "Dana P.") rfl]

def danaBearer (k : ℕ) : Option String := if k = 0 then none else some "dana"

theorem danaLib_reads : ReadsTokens plainAccounts danaLib danaDecode where
  access claims now payload h := by
    obtain ⟨⟨hdana, hunexpired⟩, hpayload⟩ := Option.ite_none_right_eq_some.mp h
    by_cases hclaims : claims.sub = uuidStr 10 ∧ claims.exp = danaExpiry ∧ claims.type = "access"
    · cases hpayload
      obtain ⟨hsub, hexp, htype⟩ := hclaims
      rw [hsub, hexp, htype]
      exact ⟨hunexpired, rfl, rfl⟩
    · have hother : danaLib.jwtEncode claims = "somebody" := if_neg hclaims
      rw [hother] at hdana
      exact absurd hdana (by decide)
  verify claims now payload h := by
    obtain ⟨⟨hdana, _⟩, _⟩ := Option.ite_none_right_eq_some.mp h
    have hother : plainAccounts.jwtEncode claims = "verification token" := rfl
    rw [hother] at hdana
    exact absurd hdana (by decide)

theorem nameChanged_bearers : Bearers {} plainAccounts danaLib danaDecode {} nameChanged danaBearer
    (fun _ => days 1 + minutes 5) where
  subject k v id hv acts := by
    rcases k with _ | _ | k
    · cases hv
      cases acts
    · cases hv
      cases acts
      exact ⟨"dana", rfl, by decide +kernel⟩
    · cases hv
  unforged k token payload hbearer _ := by
    obtain ⟨hk, hdana⟩ := Option.ite_none_left_eq_some.mp hbearer
    have hfirst : ((visitAnswer {} plainAccounts danaLib
        (.oauth "google" danaOpenID none "first" (driftEnv 1)) {}).2.toOption.bind
          ApiReply.access?) = some "dana" := by decide +kernel
    obtain ⟨reply, hreply, haccess⟩ := Option.bind_eq_some_iff.mp hfirst
    refine .inr ⟨0, _, reply, Nat.pos_of_ne_zero hk, rfl, ?_, haccess.trans hdana⟩
    cases hanswer : (visitAnswer {} plainAccounts danaLib
        (.oauth "google" danaOpenID none "first" (driftEnv 1)) {}).2 with
    | error e =>
      rw [hanswer] at hreply
      cases hreply
    | ok answered =>
      rw [hanswer] at hreply
      cases hreply
      exact hanswer

theorem bearer_origin_nameChanged :
    ∃ j w, j < 1 ∧ nameChanged[j]? = some w ∧
      days 1 + minutes 5 < w.issuedAt + minutes ({} : Settings).jwtExpireMinutes ∧
      MayEnter plainAccounts danaLib (visitedAt {} plainAccounts danaLib {} nameChanged j) w 10 := by
  obtain ⟨j, w, hj, hw, hunexpired, henter, _⟩ := bearer_origin {} plainAccounts danaLib
    danaDecode danaLib_reads {} linked_empty nameChanged danaBearer (fun _ => days 1 + minutes 5)
    nameChanged_bearers 1 _ 10 rfl rfl
  exact ⟨j, w, hj, hw, hunexpired, henter⟩

end NameChanged
end Hefest
