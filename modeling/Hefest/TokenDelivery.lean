import Hefest.AuthRouters
import Hefest.TokenCalls

set_option autoImplicit false

/-!
# How a refresh token leaves the server

The endpoints run beside one another. Every endpoint that hands out a token is a few statements
that read or write no token, then one of the calls of `TokenCall` with a handler around it.
-/
namespace Hefest
open Transition Transaction

inductive AuthCall
  | login (body : LoginRequest) (xClientId : Option String) (drawn : String) (env : Env)
  | verifyEmail (token : String) (xClientId : Option String) (drawn : String) (env : Env)
  | refresh (xClientId cookieToken : Option String) (payload : Option (List (String × String)))
      (drawn : String) (env : Env)
  | findOrCreate (provider : String) (openid : OpenID) (env : Env)
  | oauthCallback (state : Option String) (user : User) (drawn : String) (env : Env)
  | logout (cookieToken : Option String) (payload : Option (List (String × String))) (env : Env)

abbrev AuthSession := Session Database RowLock ApiError AuthReply

abbrev AuthSystem (ι : Type) := System Database RowLock ApiError AuthReply ι

namespace AuthCall

def prog (settings : Settings) (accounts : AccountLib) (lib : TokenLib) : AuthCall → Service AuthReply
  | .login body xClientId drawn env =>
    Hefest.login settings accounts (lib.drawing drawn) body xClientId env
  | .verifyEmail token xClientId drawn env =>
    Hefest.verifyEmail settings accounts (lib.drawing drawn) token xClientId env
  | .refresh xClientId cookieToken payload drawn env =>
    refreshTokens settings (lib.drawing drawn) xClientId cookieToken payload env
  | .findOrCreate provider openid env => (findOrCreateOauthUser provider openid env).map .identified
  | .oauthCallback state user drawn env =>
    Hefest.oauthCallback settings (lib.drawing drawn) state user env
  | .logout cookieToken payload env => Hefest.logout lib cookieToken payload env

def drawn? : AuthCall → Option String
  | .login _ _ drawn _ | .verifyEmail _ _ drawn _ | .refresh _ _ _ drawn _
  | .oauthCallback _ _ drawn _ => some drawn
  | .findOrCreate _ _ _ | .logout _ _ _ => none

def rotated? : AuthCall → Option String
  | .refresh _ cookieToken payload _ _ => presentedToken cookieToken payload
  | _ => none

end AuthCall

inductive Channel
  | httpOnlyCookie | scriptCookie | body | fragment
deriving DecidableEq

def SetCookie.channel (cookie : SetCookie) : Channel :=
  if cookie.httponly then .httpOnlyCookie else .scriptCookie

/-- The refresh tokens a response carries, each with the way it takes. -/
def AuthReply.delivers : AuthReply → List (Channel × String)
  | .tokens cookie body =>
    (cookie.toList.map fun c => (c.channel, c.value)) ++
      body.refreshToken.toList.map fun raw => (.body, raw)
  | .redirect cookie location =>
    (cookie.toList.map fun c => (c.channel, c.value)) ++
      (location.fragment.filter fun p => p.1 = "refresh_token").map fun p => (.fragment, p.2)
  | .identified _ | .noContent => []

/-- The cookie is for the web, the body and the fragment are for the app. -/
def Channel.Suits (channel : Channel) (client : RefreshClient) : Prop :=
  (channel = .httpOnlyCookie ↔ client = .web) ∧
    (channel = .body ∨ channel = .fragment ↔ client = .mobile)

def Delivering (reply : String → String → RefreshClient → AuthReply) : Prop :=
  ∀ access raw client, ∃ channel : Channel,
    (reply access raw client).delivers = [(channel, raw)] ∧ channel.Suits client

theorem tokenResponse_delivering (settings : Settings) : Delivering (tokenResponse settings) := by
  intro access raw client
  cases client with
  | web => exact ⟨.httpOnlyCookie, rfl, by simp [Channel.Suits]⟩
  | mobile => exact ⟨.body, rfl, by simp [Channel.Suits]⟩

theorem successRedirect_delivering (settings : Settings) : Delivering (successRedirect settings) := by
  intro access raw client
  cases client with
  | web => exact ⟨.httpOnlyCookie, rfl, by simp [Channel.Suits]⟩
  | mobile => exact ⟨.fragment, rfl, by simp [Channel.Suits]⟩

section Stages
variable (settings : Settings) (accounts : AccountLib) (lib : TokenLib)

def issuedReply (reply : String → String → RefreshClient → AuthReply) (access : String)
    (client : RefreshClient) : TokenResponse → AuthReply
  | .issued raw => reply access raw client
  | _ => .noContent

def rotatedReply : TokenResponse → AuthReply
  | .rotated access raw client => tokenResponse settings access raw client
  | _ => .noContent

/-- `c` ends as the token call `tc` with the handler `f`, `g` around it. -/
inductive Handles (c : AuthCall) : TokenCall → (ApiError → ApiError) → (TokenResponse → AuthReply) → Prop
  | issues (reply : String → String → RefreshClient → AuthReply) (user : User) (access : String)
      (client : RefreshClient) (drawn : String) (env : Env) (delivering : Delivering reply)
      (draws : c.drawn? = some drawn) (fresh : c.rotated? = none) :
      Handles c (.issue user client drawn env) (fun e => e) (issuedReply reply access client)
  | rotates (raw : String) (client : RefreshClient) (drawn : String) (env : Env)
      (draws : c.drawn? = some drawn) (presents : c.rotated? = some raw) :
      Handles c (.rotate raw client drawn env) refreshError (rotatedReply settings)
  | revokes (raw : String) (env : Env) (draws : c.drawn? = none) :
      Handles c (.revoke raw env) (fun e => e) (fun _ => .noContent)

inductive Front (c : AuthCall) : Service AuthReply → Prop
  | refuses (e : ApiError) : Front c (.raise e)
  | leaves (draws : c.drawn? = none) : Front c (.ret .noContent)
  | hands {tc : TokenCall} {f : ApiError → ApiError} {g : TokenResponse → AuthReply}
      (handles : Handles settings c tc f g) : Front c ((tc.prog settings lib).wrap f g)
  | stmt {ρ : Type} {s : Query ρ} {k : ρ → Service AuthReply}
      (keeps : ∀ seen x, (s.write seen x).refreshTokens = x.refreshTokens)
      (next : ∀ r, Front c (k r)) : Front c (.stmt s k)

def KeepsTokens (x y : Database) : Prop := y.refreshTokens = x.refreshTokens

inductive AuthStage (db : Database) (c : AuthCall) : AuthSession → Prop
  | front {p : Service AuthReply} (front : Front settings lib c p) : AuthStage db c (.auto p)
  | handling {tc : TokenCall} {f : ApiError → ApiError} {g : TokenResponse → AuthReply}
      {s : TokenSession} (handles : Handles settings c tc f g)
      (stage : TokenStage settings lib db tc s) : AuthStage db c (s.wrap f g)
  | identifying {s : Session Database RowLock ApiError User} (draws : c.drawn? = none)
      (writes : s.Writes KeepsTokens) : AuthStage db c (s.wrap (fun e => e) .identified)
  | refused (e : ApiError) : AuthStage db c (.finished (.error e))
  | left (draws : c.drawn? = none) : AuthStage db c (.finished (.ok .noContent))

variable {settings accounts lib} {db db' : Database} {c : AuthCall} {s : AuthSession}

theorem front_issuePair {reply : String → String → RefreshClient → AuthReply} {user : User}
    {client : RefreshClient} {drawn : String} (id : UUID) (now now' : Time)
    (delivering : Delivering reply) (draws : c.drawn? = some drawn) (fresh : c.rotated? = none) :
    Front settings lib c
      (issuePair settings (lib.drawing drawn) reply user client id now now') := by
  have handles : Handles settings c (.issue user client drawn ⟨fun _ => now', fun _ => id⟩)
      (fun e => e) (issuedReply reply (createAccessToken settings (lib.drawing drawn) user now) client) :=
    .issues reply user _ client drawn _ delivering draws fresh
  have hsame : issuePair settings (lib.drawing drawn) reply user client id now now' =
      ((TokenCall.issue user client drawn ⟨fun _ => now', fun _ => id⟩).prog settings lib).wrap
        (fun e => e) (issuedReply reply (createAccessToken settings (lib.drawing drawn) user now)
          client) := by
    change Prog.stmt _ _ = Prog.stmt _ _
    congr
    funext violation
    cases violation with
    | none => rfl
    | some violated => rfl
  rw [hsame]
  exact .hands handles

theorem Front.consume {token : String} {env : Env} {k : User → Service AuthReply}
    (next : ∀ user, Front settings lib c (k user)) :
    Front settings lib c
      (((consumeEmailVerifyToken accounts token env).wrap verifyEmailError fun user => user).bind k) := by
  unfold consumeEmailVerifyToken
  cases accounts.jwtDecode token (env.now 0) with
  | none => exact .refuses _
  | some payload =>
    simp only
    split_ifs with htype
    · exact .refuses _
    · cases payload.sub with
      | none => exact .refuses _
      | some id =>
        refine .stmt (fun _ _ => rfl) ?_
        intro user?
        cases user? with
        | none => exact .refuses _
        | some user =>
          simp only
          split_ifs with hverified
          · exact .stmt (fun _ _ => rfl) (fun _ => next _)
          · exact next _

/-- A statement of `find_or_create_oauth_user` that is a SELECT, or a write that spares the tokens. -/
theorem unlessFailed_writes {ρ α : Type} {failed : Bool} {q : Query ρ} {k : ρ → Service α}
    (keeps : ∀ seen x, (q.write seen x).refreshTokens = x.refreshTokens)
    (next : ∀ r, (k r).Writes KeepsTokens) : (unlessFailed failed q k).Writes KeepsTokens := by
  cases failed with
  | true => trivial
  | false => exact ⟨keeps, next⟩

section Identify
variable (provider : String) (openid : OpenID) (env : Env)

theorem linkOauthIdentity_writes (id : UUID) (user : User) (failed : Bool)
    {handler : Constraint → Service User} (hhandler : ∀ v, (handler v).Writes KeepsTokens) :
    (linkOauthIdentity provider openid id user failed handler).Writes KeepsTokens := by
  apply unlessFailed_writes
  · intro seen x
    simp only [insertOauthIdentity]
    split_ifs <;> rfl
  · intro violation
    cases violation with
    | none => trivial
    | some violated => exact hhandler violated

theorem findOrCreateInner_writes (n : ℕ) (failed : Bool) {handler : Constraint → Service User}
    (hhandler : ∀ v, (handler v).Writes KeepsTokens) :
    (findOrCreateInner provider openid env n failed handler).Writes KeepsTokens := by
  refine unlessFailed_writes (fun _ _ => rfl) ?_
  intro identity?
  cases identity? with
  | some identity =>
    simp only
    split_ifs
    · exact unlessFailed_writes (fun _ _ => rfl) (fun _ => trivial)
    · trivial
  | none =>
    refine unlessFailed_writes (fun _ _ => rfl) ?_
    intro existing?
    cases existing? with
    | some existing =>
      simp only
      split_ifs
      · exact linkOauthIdentity_writes _ _ _ _ _ hhandler
      · exact unlessFailed_writes (fun _ _ => rfl)
          (fun _ => linkOauthIdentity_writes _ _ _ _ _ hhandler)
    | none =>
      apply unlessFailed_writes
      · intro seen x
        simp only [insertUser]
        split_ifs <;> rfl
      · intro violation
        cases violation with
        | none => exact linkOauthIdentity_writes _ _ _ _ _ hhandler
        | some violated => exact hhandler violated

theorem findOrCreateOauthUser_writes :
    (findOrCreateOauthUser provider openid env).Writes KeepsTokens :=
  findOrCreateInner_writes _ _ _ _ _ fun _ => findOrCreateInner_writes _ _ _ _ _ fun _ => trivial

end Identify

theorem AuthCall.front (c : AuthCall) : Front settings lib c (c.prog settings accounts lib) ∨
    ∃ provider openid env, c = .findOrCreate provider openid env := by
  cases c with
  | login body xClientId drawn env =>
    refine Or.inl (.stmt (fun _ _ => rfl) ?_)
    intro user?
    cases user? with
    | none => exact .refuses _
    | some user =>
      simp only
      cases user.passwordHash with
      | none => exact .refuses _
      | some hashed =>
        simp only
        cases verifyPassword accounts body.password hashed with
        | error message => exact .refuses _
        | ok verified =>
          simp only [orValueError]
          split_ifs with hpassword hverified
          · exact .refuses _
          · exact front_issuePair _ _ _ (tokenResponse_delivering settings) rfl rfl
          · exact .refuses _
  | verifyEmail token xClientId drawn env =>
    refine Or.inl (Front.consume fun user => ?_)
    exact front_issuePair _ _ _ (tokenResponse_delivering settings) rfl rfl
  | refresh xClientId cookieToken payload drawn env =>
    left
    change Front settings lib _
      (refreshTokens settings (lib.drawing drawn) xClientId cookieToken payload env)
    unfold refreshTokens
    cases hraw : presentedToken cookieToken payload with
    | none => exact .refuses _
    | some raw =>
      have handles : Handles settings (.refresh xClientId cookieToken payload drawn env)
          (.rotate raw (getRefreshClient xClientId) drawn env) refreshError (rotatedReply settings) :=
        .rotates raw _ drawn env rfl hraw
      have hands : Front settings lib _ _ := .hands handles
      rw [TokenCall.prog, map_eq_wrap, wrap_wrap] at hands
      exact hands
  | findOrCreate provider openid env => exact Or.inr ⟨provider, openid, env, rfl⟩
  | oauthCallback state user drawn env =>
    exact Or.inl (front_issuePair _ _ _ (successRedirect_delivering settings) rfl rfl)
  | logout cookieToken payload env =>
    left
    change Front settings lib _ (Hefest.logout lib cookieToken payload env)
    unfold Hefest.logout
    cases hraw : presentedToken cookieToken payload with
    | none => exact .leaves rfl
    | some raw =>
      have handles : Handles settings (.logout cookieToken payload env) (.revoke raw env)
          (fun e => e) (fun _ => .noContent) := .revokes raw env rfl
      have hands : Front settings lib _ _ := .hands handles
      rw [TokenCall.prog, map_eq_wrap, wrap_wrap] at hands
      change Front settings lib _ ((revokeRefreshToken lib raw env).map fun _ => .noContent)
      rw [map_eq_wrap]
      exact hands

theorem authStage_start (c : AuthCall) :
    AuthStage settings lib db c (.auto (c.prog settings accounts lib)) := by
  rcases c.front with hfront | ⟨provider, openid, env, rfl⟩
  · exact .front hfront
  · change AuthStage settings lib db _
      (.auto ((findOrCreateOauthUser provider openid env).map .identified))
    rw [map_eq_wrap]
    exact .identifying rfl (s := .auto (findOrCreateOauthUser provider openid env))
      (findOrCreateOauthUser_writes provider openid env)

structure AuthAdvances (settings : Settings) (lib : TokenLib) (db : Database) (c : AuthCall)
    (s : AuthSession) : Prop where
  move : TokenMove db (s.advance db).1
  stage : AuthStage settings lib (s.advance db).1 c (s.advance db).2
  within : ChangesWithin sameTokens (s.wants db ++ s.held) db (s.advance db).1

theorem AuthAdvances.of_keeps (keeps : (s.advance db).1.refreshTokens = db.refreshTokens)
    (stage : AuthStage settings lib (s.advance db).1 c (s.advance db).2) :
    AuthAdvances settings lib db c s where
  move := .keeps keeps
  stage := stage
  within := changesWithin_keeps keeps

theorem AuthAdvances.of_wrap {tc : TokenCall} {f : ApiError → ApiError}
    {g : TokenResponse → AuthReply} {s : TokenSession} (hunique : TokensUnique db)
    (handles : Handles settings c tc f g) (stage : TokenStage settings lib db tc s) :
    AuthAdvances settings lib db c (s.wrap f g) := by
  have hadvances := stage.advance hunique
  refine ⟨?_, ?_, ?_⟩
  · rw [Session.wrap_advance]
    exact hadvances.move
  · rw [Session.wrap_advance]
    exact .handling handles hadvances.stage
  · rw [Session.wrap_advance, Session.wrap_wants, Session.wrap_held]
    exact hadvances.within

theorem AuthStage.advance (h : AuthStage settings lib db c s) (hunique : TokensUnique db) :
    AuthAdvances settings lib db c s := by
  cases h with
  | front front =>
    cases front with
    | refuses e => exact .of_keeps rfl (.refused e)
    | leaves draws => exact .of_keeps rfl (.left draws)
    | hands handles => exact .of_wrap hunique handles (.waiting _)
    | stmt keeps next => exact .of_keeps (keeps _ _) (.front (next _))
  | handling handles stage => exact .of_wrap hunique handles stage
  | @identifying s draws writes =>
    have hrefl : ∀ x, KeepsTokens x x := fun _ => rfl
    have htrans : ∀ x y z, KeepsTokens x y → KeepsTokens y z → KeepsTokens x z :=
      fun _ _ _ hxy hyz => Eq.trans hyz hxy
    have hnext := writes.advance hrefl htrans db
    apply AuthAdvances.of_keeps
    · rw [Session.wrap_advance]
      exact hnext.1
    · rw [Session.wrap_advance]
      exact .identifying draws hnext.2
  | refused e => exact .of_keeps rfl (.refused e)
  | left draws => exact .of_keeps rfl (.left draws)

theorem AuthStage.stable (h : AuthStage settings lib db c s) (hmove : TokenMove db db')
    (hsame : ∀ a ∈ s.held, sameTokens a db db') : AuthStage settings lib db' c s := by
  cases h with
  | front front => exact .front front
  | handling handles stage =>
    rw [Session.wrap_held] at hsame
    exact .handling handles (stage.stable hmove hsame)
  | identifying draws writes => exact .identifying draws writes
  | refused e => exact .refused e
  | left draws => exact .left draws

/-- The endpoints keep the discipline of the row locks on tokens. -/
theorem auth_discipline {ι : Type} (settings : Settings) (lib : TokenLib) (calls : ι → AuthCall) :
    Discipline sameTokens TokenMove
      (fun db i s => TokensUnique db ∧ AuthStage settings lib db (calls i) s) where
  symm := RowLock.conflict_comm
  advance db i s h _ := by
    have hadvances := h.2.advance h.1
    exact ⟨hadvances.move, ⟨hadvances.move.unique h.1, hadvances.stage⟩, hadvances.within⟩
  stable db db' i s h hmove hsame := ⟨hmove.unique h.1, h.2.stable hmove hsame⟩

theorem Idle.answer {s : TokenSession} {r : TokenResponse} (h : Idle s)
    (hanswer : (s.advance db).2.answer? = some r) : s.answer? = some r := by
  cases h with
  | answered r' other => exact hanswer
  | refused e => cases hanswer
  | failing e w held => cases hanswer
  | ended r' other => exact hanswer

theorem TokenStage.issue_answers {user : User} {client : RefreshClient} {drawn : String} {env : Env}
    {s : TokenSession} {r : TokenResponse}
    (h : TokenStage settings lib db (.issue user client drawn env) s)
    (hanswer : (s.advance db).2.answer? = some r) :
    s.answer? = some r ∨ r = .issued drawn ∧ ∃ t, FreshToken db t ∧
      t.tokenHash = lib.sha256 drawn ∧ t.client = client ∧ t ∈ (s.advance db).1.refreshTokens := by
  cases h with
  | waiting =>
    let t : RefreshToken :=
      { id := env.uuid 0
        userId := user.id
        tokenHash := lib.sha256 drawn
        client := client
        expiresAt := env.now 0 + days settings.refreshTokenExpireDays
        revokedAt := none }
    right
    change (Session.auto (Prog.bind (orRaise (refreshTokenViolation db t) (.ret drawn))
      (fun raw => .ret (.issued raw))) : TokenSession).answer? = some r at hanswer
    cases hviolation : refreshTokenViolation db t with
    | some violated =>
      rw [hviolation] at hanswer
      cases hanswer
    | none =>
      rw [hviolation] at hanswer
      cases hanswer
      refine ⟨rfl, t, (freshToken_iff rfl).mp hviolation, rfl, rfl, ?_⟩
      change t ∈ ((insertRefreshToken t).write db db).refreshTokens
      simp [insertRefreshToken, hviolation]
  | idle c hidle => exact Or.inl (hidle.answer hanswer)
  | found c p now ids update => cases update
  | updating c p now done ids w held update => cases update
  | reusing c userId now k w held raises => cases hanswer

theorem TokenStage.rotate_answers {raw : String} {presentedClient : RefreshClient} {drawn : String}
    {env : Env} {s : TokenSession} {r : TokenResponse}
    (h : TokenStage settings lib db (.rotate raw presentedClient drawn env) s)
    (hanswer : (s.advance db).2.answer? = some r) :
    s.answer? = some r ∨ ∃ access record held, r = .rotated access drawn record.client ∧
      Presented lib db raw held record ∧ FreshToken db (successor settings lib record drawn env) ∧
      (s.advance db).1.refreshTokens =
        Table.update RefreshToken.id record.id (RefreshToken.revoke (env.now 0)) db.refreshTokens ++
          [successor settings lib record drawn env] := by
  cases h with
  | waiting => cases hanswer
  | idle c hidle => exact Or.inl (hidle.answer hanswer)
  | found c p now ids update => cases update
  | updating c p now done ids w held update => cases update
  | opened => cases hanswer
  | reusing c userId now k w held raises => cases hanswer
  | chosen => cases hanswer
  | loading _ _ _ _ record q w held presented loads =>
    cases loads with
    | mk k missing found => cases hanswer
  | inserting _ _ _ _ record access q w held presented inserts =>
    cases inserts with
    | mk k inserted violated => cases hanswer
  | committing _ _ _ _ record access w held presented fresh idLocked hashLocked written =>
    cases hanswer
    exact Or.inr ⟨access, record, held, rfl, presented, fresh, written db⟩
  | rotated => exact Or.inl hanswer

/-- The response `reply` sends the token `drawn` over the channel of its row; if `c` has rotated a
    token, that one's row has the same client. -/
inductive Delivered (lib : TokenLib) (db : Database) (c : AuthCall) (drawn : String)
    (reply : AuthReply) : Prop
  | mk (t : RefreshToken) (channel : Channel) (mem : t ∈ db.refreshTokens)
      (hash : t.tokenHash = lib.sha256 drawn) (delivers : reply.delivers = [(channel, drawn)])
      (suits : channel.Suits t.client)
      (continues : ∀ raw, c.rotated? = some raw → ∃ old ∈ db.refreshTokens,
        old.tokenHash = lib.sha256 raw ∧ old.client = t.client)

inductive NewAnswer (lib : TokenLib) (db db' : Database) (c : AuthCall) (reply : AuthReply) : Prop
  | empty (draws : c.drawn? = none) (delivers : reply.delivers = [])
  | token (drawn : String) (draws : c.drawn? = some drawn)
      (fresh : ∀ r ∈ db.refreshTokens, r.tokenHash ≠ lib.sha256 drawn)
      (delivered : Delivered lib db' c drawn reply)

theorem TokenStage.delivers {tc : TokenCall} {f : ApiError → ApiError}
    {g : TokenResponse → AuthReply} {s : TokenSession} {reply : AuthReply}
    (h : TokenStage settings lib db tc s) (handles : Handles settings c tc f g)
    (hanswer : (s.advance db).2.answer?.map g = some reply) :
    s.answer?.map g = some reply ∨ NewAnswer lib db (s.advance db).1 c reply := by
  obtain ⟨r, hr, rfl⟩ := Option.map_eq_some_iff.mp hanswer
  cases handles with
  | issues reply user access client drawn env delivering draws fresh =>
    rcases h.issue_answers hr with hold | ⟨rfl, t, hfresh, hhash, hclient, hmem⟩
    · left
      rw [hold, Option.map_some]
    · obtain ⟨channel, hdelivers, hsuits⟩ := delivering access drawn client
      rw [← hclient] at hsuits
      refine Or.inr (.token drawn draws ?_ (.mk t channel hmem hhash hdelivers hsuits ?_))
      · rw [← hhash]
        exact hfresh.hash
      · intro raw hraw
        rw [fresh] at hraw
        cases hraw
  | rotates raw client drawn env draws presents =>
    rcases h.rotate_answers hr with hold | ⟨access, record, held, rfl, hpresented, hfresh, hrows⟩
    · left
      rw [hold, Option.map_some]
    · obtain ⟨channel, hdelivers, hsuits⟩ := tokenResponse_delivering settings access drawn record.client
      have hnew : successor settings lib record drawn env ∈ (s.advance db).1.refreshTokens := by
        rw [hrows]
        exact List.mem_append_right _ (List.mem_singleton_self _)
      have hold : record.revoke (env.now 0) ∈ (s.advance db).1.refreshTokens := by
        rw [hrows]
        exact List.mem_append_left _ (List.mem_map.mpr ⟨record, hpresented.mem, by simp⟩)
      refine Or.inr (.token drawn draws hfresh.hash (.mk _ channel hnew rfl hdelivers hsuits ?_))
      intro raw' hraw'
      rw [presents] at hraw'
      cases hraw'
      exact ⟨_, hold, hpresented.hash, rfl⟩
  | revokes raw env draws => exact Or.inr (.empty draws rfl)

theorem TokenCall.prog_answer? (tc : TokenCall) :
    (Session.auto (tc.prog settings lib) : TokenSession).answer? = none := by
  cases tc <;> rfl

/-- An endpoint that answers before its token call hands out nothing. -/
theorem Front.answer? {p : Service AuthReply} {reply : AuthReply} (h : Front settings lib c p)
    (hanswer : (Session.auto p : AuthSession).answer? = some reply) :
    c.drawn? = none ∧ reply.delivers = [] := by
  cases h with
  | refuses e => cases hanswer
  | leaves draws =>
    cases hanswer
    exact ⟨draws, rfl⟩
  | @hands tc f g handles =>
    change ((Session.auto (tc.prog settings lib)).wrap f g).answer? = _ at hanswer
    rw [Session.wrap_answer?, TokenCall.prog_answer?] at hanswer
    cases hanswer
  | stmt keeps next => cases hanswer

theorem AuthStage.answers {reply : AuthReply} (h : AuthStage settings lib db c s)
    (hanswer : (s.advance db).2.answer? = some reply) :
    s.answer? = some reply ∨ NewAnswer lib db (s.advance db).1 c reply := by
  cases h with
  | front front =>
    cases front with
    | refuses e => cases hanswer
    | leaves draws => exact Or.inl hanswer
    | @hands tc f g handles =>
      change ((Session.auto (tc.prog settings lib)).wrap f g).answer? = _ ∨
        NewAnswer lib db (((Session.auto (tc.prog settings lib)).wrap f g).advance db).1 c reply
      change (((Session.auto (tc.prog settings lib)).wrap f g).advance db).2.answer? = _ at hanswer
      rw [Session.wrap_advance, Session.wrap_answer?] at hanswer
      rw [Session.wrap_advance, Session.wrap_answer?]
      exact (TokenStage.waiting tc).delivers handles hanswer
    | @stmt ρ q k keeps next =>
      right
      have hempty := (next (q.result db)).answer? hanswer
      exact .empty hempty.1 hempty.2
  | handling handles stage =>
    rw [Session.wrap_advance, Session.wrap_answer?] at hanswer
    rw [Session.wrap_advance, Session.wrap_answer?]
    exact stage.delivers handles hanswer
  | identifying draws writes =>
    rw [Session.wrap_advance, Session.wrap_answer?] at hanswer
    obtain ⟨user, _, rfl⟩ := Option.map_eq_some_iff.mp hanswer
    exact Or.inr (.empty draws rfl)
  | refused e => cases hanswer
  | left draws => exact Or.inl hanswer

/-- A delivery stays one: commits keep the hash and the client of every row. -/
theorem TokenMove.kept_client (h : TokenMove db db') {t : RefreshToken} (ht : t ∈ db.refreshTokens) :
    ∃ t' ∈ db'.refreshTokens, t'.tokenHash = t.tokenHash ∧ t'.client = t.client := by
  cases h with
  | write p now new active fresh rows =>
    refine ⟨if p t then t.revoke now else t, ?_, ?_⟩
    · rw [rows]
      exact List.mem_append_left _ (List.mem_map.mpr ⟨t, ht, rfl⟩)
    · split_ifs
      · exact ⟨rfl, rfl⟩
      · exact ⟨rfl, rfl⟩

theorem Delivered.move {drawn : String} {reply : AuthReply} (h : Delivered lib db c drawn reply)
    (hmove : TokenMove db db') : Delivered lib db' c drawn reply := by
  cases h with
  | mk t channel mem hash delivers suits continues =>
    obtain ⟨t', ht', hhash, hclient⟩ := hmove.kept_client mem
    refine .mk t' channel ht' (hhash.trans hash) delivers (hclient ▸ suits) ?_
    intro raw hraw
    obtain ⟨old, hold, hash', hsame⟩ := continues raw hraw
    obtain ⟨old', hold', hhash', hclient'⟩ := hmove.kept_client hold
    exact ⟨old', hold', hhash'.trans hash', hclient'.trans (hsame.trans hclient.symm)⟩

end Stages

section Runs
variable {ι : Type} [Fintype ι] [DecidableEq ι] (settings : Settings) (accounts : AccountLib)
  (lib : TokenLib) (calls : ι → AuthCall)

def authStart (db : Database) : AuthSystem ι := start (fun i => (calls i).prog settings accounts lib) db

variable (S : AuthSystem ι)

def RefreshedBy (i : ι) (hash hash' : String) : Prop :=
  ∃ raw drawn reply, (calls i).rotated? = some raw ∧ (calls i).drawn? = some drawn ∧
    S.session i = .finished (.ok reply) ∧ lib.sha256 raw = hash ∧ lib.sha256 drawn = hash'

def RotationChain : String → String → Prop :=
  Relation.ReflTransGen fun hash hash' => ∃ i, RefreshedBy lib calls S i hash hash'

structure Deliveries : Prop where
  unique : TokensUnique S.committed
  disciplined : Disciplined
    (fun db i s => TokensUnique db ∧ AuthStage settings lib db (calls i) s) S
  delivered : ∀ i reply drawn, (S.session i).answer? = some reply → (calls i).drawn? = some drawn →
    Delivered lib S.committed (calls i) drawn reply
  empty : ∀ i reply, (S.session i).answer? = some reply → (calls i).drawn? = none →
    reply.delivers = []
  apart : ∀ i j reply reply' drawn drawn', i ≠ j → (S.session i).answer? = some reply →
    (S.session j).answer? = some reply' → (calls i).drawn? = some drawn →
      (calls j).drawn? = some drawn' → lib.sha256 drawn ≠ lib.sha256 drawn'

variable {settings accounts lib calls S} {S' : AuthSystem ι} {db₀ : Database} {i : ι} {os tr : List ι}

omit [Fintype ι] [DecidableEq ι] in
theorem deliveries_start (h₀ : TokensUnique db₀) :
    Deliveries settings lib calls (authStart settings accounts lib calls db₀) := by
  have hempty : ∀ i reply, ((authStart settings accounts lib calls db₀).session i).answer? = some reply →
      (calls i).drawn? = none ∧ reply.delivers = [] := by
    intro i reply hanswer
    have hfront : Front settings lib (calls i) ((calls i).prog settings accounts lib) ∨
        ∃ provider openid env, calls i = .findOrCreate provider openid env := (calls i).front
    rcases hfront with hfront | ⟨provider, openid, env, hcall⟩
    · exact hfront.answer? hanswer
    · simp only [authStart, start, hcall] at hanswer
      cases hanswer
  refine ⟨h₀, disciplined_start fun i => ⟨h₀, authStage_start (calls i)⟩, ?_, ?_, ?_⟩
  · intro i reply drawn hanswer hdraws
    rw [(hempty i reply hanswer).1] at hdraws
    cases hdraws
  · intro i reply hanswer _
    exact (hempty i reply hanswer).2
  · intro i j reply reply' drawn drawn' _ hanswer _ hdraws _
    rw [(hempty i reply hanswer).1] at hdraws
    cases hdraws

/-- After a turn of `i` a call has the answer it had, or `i` has a new one. -/
theorem Deliveries.answers (h : Deliveries settings lib calls S) (hs : step S i = some (S', os))
    {j : ι} {reply : AuthReply} (hanswer : (S'.session j).answer? = some reply) :
    (S.session j).answer? = some reply ∨
      j = i ∧ NewAnswer lib S.committed S'.committed (calls i) reply := by
  obtain ⟨_, _, hcommitted, hsession⟩ := step_cases hs
  rw [hsession] at hanswer
  by_cases hj : j = i
  · subst hj
    rw [Function.update_self] at hanswer
    rw [hcommitted]
    rcases (h.disciplined.stage j).2.answers hanswer with hold | hnew
    · exact Or.inl hold
    · exact Or.inr ⟨rfl, hnew⟩
  · rw [Function.update_of_ne hj] at hanswer
    exact Or.inl hanswer

theorem Deliveries.turn (h : Deliveries settings lib calls S) (hs : step S i = some (S', os)) :
    Deliveries settings lib calls S' := by
  obtain ⟨hdisciplined, hmove⟩ := h.disciplined.turn (auth_discipline settings lib calls) hs
  refine ⟨hmove.unique h.unique, hdisciplined, ?_, ?_, ?_⟩
  · intro j reply drawn hanswer hdraws
    rcases h.answers hs hanswer with hold | ⟨rfl, hnew⟩
    · exact (h.delivered j reply drawn hold hdraws).move hmove
    · cases hnew with
      | empty draws delivers =>
        rw [draws] at hdraws
        cases hdraws
      | token drawn' draws fresh delivered =>
        rw [draws] at hdraws
        cases hdraws
        exact delivered
  · intro j reply hanswer hdraws
    rcases h.answers hs hanswer with hold | ⟨rfl, hnew⟩
    · exact h.empty j reply hold hdraws
    · cases hnew with
      | empty draws delivers => exact delivers
      | token drawn' draws fresh delivered =>
        rw [draws] at hdraws
        cases hdraws
  · -- the row of an earlier delivery is there when a new token is inserted
    have hfresh : ∀ j k reply reply' drawn drawn', (S.session j).answer? = some reply →
        (calls j).drawn? = some drawn → NewAnswer lib S.committed S'.committed (calls k) reply' →
          (calls k).drawn? = some drawn' → lib.sha256 drawn ≠ lib.sha256 drawn' := by
      intro j k reply reply' drawn drawn' hold hdraws hnew hdraws'
      cases hnew with
      | empty draws delivers =>
        rw [draws] at hdraws'
        cases hdraws'
      | token drawn'' draws fresh delivered =>
        rw [draws] at hdraws'
        cases hdraws'
        cases h.delivered j reply drawn hold hdraws with
        | mk t channel mem hash => exact hash ▸ fresh t mem
    intro j k reply reply' drawn drawn' hjk hj hk hdraws hdraws'
    rcases h.answers hs hj with hj | ⟨rfl, hnew⟩
    · rcases h.answers hs hk with hk | ⟨rfl, hnew'⟩
      · exact h.apart j k reply reply' drawn drawn' hjk hj hk hdraws hdraws'
      · exact hfresh j k reply reply' drawn drawn' hj hdraws hnew' hdraws'
    · rcases h.answers hs hk with hk | ⟨rfl, _⟩
      · exact (hfresh k j reply' reply drawn' drawn hk hdraws' hnew hdraws).symm
      · exact absurd rfl hjk

theorem Deliveries.run (h : Deliveries settings lib calls S) {T : AuthSystem ι}
    (hrun : Run step S tr T) : Deliveries settings lib calls T := by
  induction hrun with
  | start => exact h
  | next _ hs ih => exact ih.turn hs

omit [Fintype ι] [DecidableEq ι] in
theorem RefreshedBy.same_client (h : Deliveries settings lib calls S) {hash hash' : String}
    (hrefreshed : RefreshedBy lib calls S i hash hash') :
    ∃ old ∈ S.committed.refreshTokens, ∃ new ∈ S.committed.refreshTokens,
      old.tokenHash = hash ∧ new.tokenHash = hash' ∧ old.client = new.client := by
  obtain ⟨raw, drawn, reply, hraw, hdraws, hdone, rfl, rfl⟩ := hrefreshed
  have hanswer : (S.session i).answer? = some reply := by
    rw [hdone]
    rfl
  cases h.delivered i reply drawn hanswer hdraws with
  | mk t channel mem hash delivers suits continues =>
    obtain ⟨old, hold, hhash, hclient⟩ := continues raw hraw
    exact ⟨old, hold, t, mem, hhash, hash, hclient⟩

omit [Fintype ι] [DecidableEq ι] in
theorem RotationChain.same_client (h : Deliveries settings lib calls S) {hash hash' : String}
    (hchain : RotationChain lib calls S hash hash') {t t' : RefreshToken}
    (ht : t ∈ S.committed.refreshTokens) (ht' : t' ∈ S.committed.refreshTokens)
    (hhash : t.tokenHash = hash) (hhash' : t'.tokenHash = hash') : t.client = t'.client := by
  induction hchain generalizing t' with
  | refl => rw [h.unique.hashes.eq_of_key ht ht' (hhash.trans hhash'.symm)]
  | tail _ hlast ih =>
    obtain ⟨i, hi⟩ := hlast
    obtain ⟨old, hold, new, hnew, holdHash, hnewHash, hclient⟩ := hi.same_client h
    have hend : new = t' := h.unique.hashes.eq_of_key hnew ht' (hnewHash.trans hhash'.symm)
    rw [ih hold holdHash, hclient, hend]

omit [Fintype ι] [DecidableEq ι] in
theorem Deliveries.handsOut (h : Deliveries settings lib calls S) {reply : AuthReply}
    {channel : Channel} {raw : String} (hanswer : (S.session i).answer? = some reply)
    (hmem : (channel, raw) ∈ reply.delivers) :
    (calls i).drawn? = some raw ∧ reply.delivers = [(channel, raw)] := by
  cases hdraws : (calls i).drawn? with
  | none =>
    rw [h.empty i reply hanswer hdraws] at hmem
    cases hmem
  | some drawn =>
    cases h.delivered i reply drawn hanswer hdraws with
    | mk t channel' mem hash delivers =>
      rw [delivers, List.mem_singleton] at hmem
      cases hmem
      exact ⟨rfl, delivers⟩

theorem deliveries_run (h₀ : TokensUnique db₀)
    (h : Run step (authStart settings accounts lib calls db₀) tr S) :
    Deliveries settings lib calls S := (deliveries_start h₀).run h

/-- The delivery channel of a refresh token is fixed at issuance. A response hands out one token,
    over one channel, chosen by the client in the token's row; no token is handed out by two
    responses; and the tokens of a rotation chain all have the client of the first. -/
theorem delivery_channel_fixed (settings : Settings) (accounts : AccountLib) (lib : TokenLib)
    (calls : ι → AuthCall) (db₀ : Database) (h₀ : TokensUnique db₀) (S : AuthSystem ι) (tr : List ι)
    (h : Run step (authStart settings accounts lib calls db₀) tr S) :
    (∀ i reply drawn, S.session i = .finished (.ok reply) → (calls i).drawn? = some drawn →
        ∃ t ∈ S.committed.refreshTokens, ∃ channel, t.tokenHash = lib.sha256 drawn ∧
          reply.delivers = [(channel, drawn)] ∧ (channel = .httpOnlyCookie ↔ t.client = .web) ∧
          (channel = .body ∨ channel = .fragment ↔ t.client = .mobile)) ∧
      (∀ i reply, S.session i = .finished (.ok reply) → (calls i).drawn? = none →
        reply.delivers = []) ∧
      (∀ i j reply reply' channel channel' raw, S.session i = .finished (.ok reply) →
        S.session j = .finished (.ok reply') → (channel, raw) ∈ reply.delivers →
          (channel', raw) ∈ reply'.delivers → i = j ∧ channel = channel') ∧
      ∀ hash hash', RotationChain lib calls S hash hash' →
        ∀ t ∈ S.committed.refreshTokens, ∀ t' ∈ S.committed.refreshTokens,
          t.tokenHash = hash → t'.tokenHash = hash' → t'.client = t.client := by
  have hS := deliveries_run h₀ h
  have hanswer : ∀ i reply, S.session i = .finished (.ok reply) →
      (S.session i).answer? = some reply := by
    intro i reply hdone
    rw [hdone]
    rfl
  refine ⟨?_, ?_, ?_, ?_⟩
  · intro i reply drawn hdone hdraws
    cases hS.delivered i reply drawn (hanswer i reply hdone) hdraws with
    | mk t channel mem hash delivers suits =>
      exact ⟨t, mem, channel, hash, delivers, suits.1, suits.2⟩
  · intro i reply hdone hdraws
    exact hS.empty i reply (hanswer i reply hdone) hdraws
  · intro i j reply reply' channel channel' raw hi hj hmem hmem'
    obtain ⟨hdraws, hdelivers⟩ := hS.handsOut (hanswer i reply hi) hmem
    obtain ⟨hdraws', hdelivers'⟩ := hS.handsOut (hanswer j reply' hj) hmem'
    have hij : i = j := by
      by_contra hij
      exact hS.apart i j reply reply' raw raw hij (hanswer i reply hi) (hanswer j reply' hj) hdraws
        hdraws' rfl
    subst hij
    rw [hi] at hj
    cases hj
    rw [hdelivers] at hdelivers'
    exact ⟨rfl, by simpa using hdelivers'⟩
  · intro hash hash' hchain t ht t' ht' hhash hhash'
    exact (hchain.same_client hS ht ht' hhash hhash').symm

end Runs

section App

def appUser : Database where
  users := [
    { id := 1
      email := "dana@school.example"
      passwordHash := some "hash of the password"
      fullName := "Dana"
      role := .student
      emailVerifiedAt := some 0 }]

def appCalls : Fin 3 → AuthCall
  | 0 => .login ⟨"dana@school.example", "the password"⟩ (some "mobile_app") "first"
      ⟨fun _ => days 1, fun _ => 11⟩
  | 1 => .refresh (some "web_app") (some "first") none "stolen" ⟨fun _ => days 2, fun _ => 12⟩
  | 2 => .refresh (some "mobile_app") none (some [("refresh_token", "first")]) "second"
      ⟨fun _ => days 3, fun _ => 13⟩

theorem appUser_unique : TokensUnique appUser := ⟨List.Pairwise.nil, List.Pairwise.nil⟩

theorem delivery_channel_fixed_app :
    ∃ S tr, Run step (authStart {} plainAccounts plainLib appCalls appUser) tr S ∧
      (∀ i, (S.session i).isFinished = true) ∧ RotationChain plainLib appCalls S "first" "second" ∧
      ∀ t ∈ S.committed.refreshTokens, ∀ t' ∈ S.committed.refreshTokens,
        t.tokenHash = "first" → t'.tokenHash = "second" → t'.client = t.client := by
  have hdone : ((execute step (authStart {} plainAccounts plainLib appCalls appUser)
      [0, 0, 0, 1, 1, 1, 2, 2, 2, 2, 2, 2]).map fun p =>
        decide ((∀ i, (p.1.session i).isFinished = true) ∧ ((p.1.session 2).returned?).isSome)) =
      some true := by decide +kernel
  obtain ⟨S, tr, hrun, hfinal⟩ := execute_map hdone
  obtain ⟨hfinished, hreturned⟩ := of_decide_eq_true hfinal
  obtain ⟨reply, hreply⟩ := Option.isSome_iff_exists.mp hreturned
  have hchain : RotationChain plainLib appCalls S "first" "second" :=
    .single ⟨2, "first", "second", reply, rfl, rfl, Session.returned?_eq_some hreply, rfl, rfl⟩
  exact ⟨S, tr, hrun, hfinished, hchain,
    (delivery_channel_fixed {} plainAccounts plainLib appCalls appUser appUser_unique S tr hrun).2.2.2
      "first" "second" hchain⟩

end App
end Hefest
