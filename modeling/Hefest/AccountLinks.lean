import Hefest.Accounts
import Hefest.Lib.Transition

set_option autoImplicit false

namespace Hefest
open Transition Transaction

inductive AccountCall
  | register (body : RegisterRequest) (salt : String) (env : Env)
  | consumeEmailVerifyToken (token : String) (env : Env)
  | findOrCreateOauthUser (provider : String) (openid : OpenID) (env : Env)

inductive AccountResponse
  | registered (response : RegisterResponse)
  | verified (user : User)
  | identified (user : User)
deriving DecidableEq

def AccountCall.prog (settings : Settings) (lib : AccountLib) : AccountCall → Service AccountResponse
  | .register body salt env => (Hefest.register settings lib body salt env).map .registered
  | .consumeEmailVerifyToken token env =>
    (Hefest.consumeEmailVerifyToken lib token env).map .verified
  | .findOrCreateOauthUser provider openid env =>
    (Hefest.findOrCreateOauthUser provider openid env).map .identified

def performAccount (settings : Settings) (lib : AccountLib) (c : AccountCall) (db : Database) :
    Database × Except ApiError AccountResponse := (c.prog settings lib).run db

def accountEffect (settings : Settings) (lib : AccountLib) (c : AccountCall) (db : Database) :
    Database := (performAccount settings lib c db).1

/-- User ids are unique, and every identity has a verified owner. -/
structure Linked (db : Database) : Prop where
  ids : Table.KeyUnique User.id db.users
  owner : ∀ i ∈ db.oauthIdentities,
    ∃ u ∈ db.users, u.id = i.userId ∧ u.emailVerifiedAt ≠ none

/-- What a call leaves as it is: the rows of verified accounts and the owners of identities. -/
structure AccountMove (x y : Database) : Prop where
  linked : Linked y
  verified : ∀ u ∈ x.users, u.emailVerifiedAt ≠ none → u ∈ y.users
  found : ∀ provider subject i, x.oauthIdentity? provider subject = some i →
    ∃ i', y.oauthIdentity? provider subject = some i' ∧ i'.userId = i.userId

structure BoundTo (provider subject : String) (user : User) (db : Database) : Prop where
  identity : ∃ i, db.oauthIdentity? provider subject = some i ∧ i.userId = user.id
  mem : user ∈ db.users
  verified : user.emailVerifiedAt ≠ none

section Moves
variable {x y z : Database} {provider subject : String} {user user' : User}

theorem AccountMove.refl (h : Linked x) : AccountMove x x where
  linked := h
  verified _ hu _ := hu
  found _ _ i hi := ⟨i, hi, rfl⟩

theorem AccountMove.trans (h : AccountMove x y) (h' : AccountMove y z) : AccountMove x z where
  linked := h'.linked
  verified u hu hverified := h'.verified u (h.verified u hu hverified) hverified
  found provider subject i hi := by
    obtain ⟨i', hi', howner⟩ := h.found provider subject i hi
    obtain ⟨i'', hi'', howner'⟩ := h'.found provider subject i' hi'
    exact ⟨i'', hi'', howner'.trans howner⟩

theorem BoundTo.move (h : BoundTo provider subject user x) (hmove : AccountMove x y) :
    BoundTo provider subject user y := by
  obtain ⟨i, hi, howner⟩ := h.identity
  obtain ⟨i', hi', howner'⟩ := hmove.found provider subject i hi
  exact ⟨⟨i', hi', howner'.trans howner⟩, hmove.verified user h.mem h.verified, h.verified⟩

theorem BoundTo.unique (hx : Linked x) (h : BoundTo provider subject user x)
    (h' : BoundTo provider subject user' x) : user = user' := by
  obtain ⟨i, hi, howner⟩ := h.identity
  obtain ⟨i', hi', howner'⟩ := h'.identity
  rw [hi] at hi'
  cases hi'
  exact hx.ids.eq_of_key h.mem h'.mem (howner.symm.trans howner')

theorem AccountMove.save {existing : User} (set : User → User) (hx : Linked x)
    (hmem : existing ∈ x.users) (hdormant : existing.emailVerifiedAt = none)
    (hset : ∀ u, (set u).id = u.id)
    (users : y.users = Table.update User.id existing.id set x.users)
    (identities : y.oauthIdentities = x.oauthIdentities) : AccountMove x y := by
  have hkept : ∀ u ∈ x.users, u.emailVerifiedAt ≠ none → u ∈ y.users := by
    intro u hu hverified
    rw [users, Table.mem_update]
    left
    refine ⟨hu, ?_⟩
    intro hid
    rw [hx.ids.eq_of_key hu hmem hid] at hverified
    exact hverified hdormant
  refine ⟨⟨?_, ?_⟩, hkept, ?_⟩
  · rw [users]
    exact Table.keyUnique_update hx.ids hset
  · intro i hi
    rw [identities] at hi
    obtain ⟨u, hu, hid, hverified⟩ := hx.owner i hi
    exact ⟨u, hkept u hu hverified, hid, hverified⟩
  · intro provider subject i hi
    rw [Database.oauthIdentity?, identities]
    exact ⟨i, hi, rfl⟩

theorem AccountMove.insert {new : User} (hx : Linked x) (hid : ∀ u ∈ x.users, u.id ≠ new.id)
    (users : y.users = x.users ++ [new]) (identities : y.oauthIdentities = x.oauthIdentities) :
    AccountMove x y := by
  have hkept : ∀ u ∈ x.users, u ∈ y.users := by
    intro u hu
    rw [users]
    exact List.mem_append_left _ hu
  refine ⟨⟨?_, ?_⟩, fun u hu _ => hkept u hu, ?_⟩
  · rw [users]
    exact Table.keyUnique_insert hx.ids hid
  · intro i hi
    rw [identities] at hi
    obtain ⟨u, hu, howner⟩ := hx.owner i hi
    exact ⟨u, hkept u hu, howner⟩
  · intro provider subject i hi
    rw [Database.oauthIdentity?, identities]
    exact ⟨i, hi, rfl⟩

theorem AccountMove.link {identity : OAuthIdentity} (hx : Linked x)
    (howner : ∃ u ∈ x.users, u.id = identity.userId ∧ u.emailVerifiedAt ≠ none)
    (users : y.users = x.users) (identities : y.oauthIdentities = x.oauthIdentities ++ [identity]) :
    AccountMove x y := by
  refine ⟨⟨?_, ?_⟩, ?_, ?_⟩
  · rw [users]
    exact hx.ids
  · intro i hi
    rw [identities, List.mem_append, List.mem_singleton] at hi
    rw [users]
    rcases hi with hi | rfl
    · exact hx.owner i hi
    · exact howner
  · intro u hu _
    rw [users]
    exact hu
  · intro provider subject i hi
    refine ⟨i, ?_, rfl⟩
    rw [Database.oauthIdentity?] at hi
    rw [Database.oauthIdentity?, identities, List.find?_append, hi]
    rfl

theorem AccountMove.refresh {id : UUID} (email : String) (hx : Linked x) (users : y.users = x.users)
    (identities : y.oauthIdentities =
      Table.update OAuthIdentity.id id (fun i => { i with email := email }) x.oauthIdentities) :
    AccountMove x y := by
  let set (i : OAuthIdentity) : OAuthIdentity := if i.id = id then { i with email := email } else i
  have hmap : y.oauthIdentities = x.oauthIdentities.map set := identities
  have hset : ∀ i, (set i).userId = i.userId ∧ (set i).provider = i.provider ∧
      (set i).subject = i.subject := by
    intro i
    by_cases hid : i.id = id
    · simp [set, hid]
    · simp [set, hid]
  refine ⟨⟨?_, ?_⟩, ?_, ?_⟩
  · rw [users]
    exact hx.ids
  · intro i hi
    rw [hmap] at hi
    obtain ⟨i₀, hi₀, rfl⟩ := List.mem_map.mp hi
    rw [users, (hset i₀).1]
    exact hx.owner i₀ hi₀
  · intro u hu _
    rw [users]
    exact hu
  · intro provider subject i hi
    refine ⟨set i, ?_, (hset i).1⟩
    rw [Database.oauthIdentity?] at hi
    rw [Database.oauthIdentity?, hmap, List.find?_map]
    have hsame : ((fun i : OAuthIdentity => decide (i.provider = provider ∧ i.subject = subject)) ∘
        set) = fun i => decide (i.provider = provider ∧ i.subject = subject) := by
      funext i
      simp only [Function.comp, hset]
    rw [hsame, hi]
    rfl

end Moves

section Specs
variable {settings : Settings} {lib : AccountLib} {env : Env} {db db' : Database} {user : User}

theorem insertJobs_accounts (jobs : List NotificationJob) (seen x : Database) :
    ((insertJobs jobs).write seen x).users = x.users ∧
      ((insertJobs jobs).write seen x).oauthIdentities = x.oauthIdentities := by
  simp only [insertJobs]
  split_ifs
  · exact ⟨rfl, rfl⟩
  · exact ⟨rfl, rfl⟩

theorem register_move (hdb : Linked db) (body : RegisterRequest) (salt : String) :
    AccountMove db ((register settings lib body salt env).run db).1 := by
  simp only [register, run_stmt, existsUserWithEmail, Stmt.select]
  split_ifs with hexists
  · exact .refl hdb
  · rw [run_transaction, registerInTransaction]
    cases hashPassword lib body.password salt with
    | error message => exact .refl hdb
    | ok hash =>
      simp only [orValueError, run_stmt, insertUser]
      generalize registeredUser body env hash = new
      cases hviolation : userViolation db new with
      | some violated => exact .refl hdb
      | none =>
        simp only [orRaise, createJobs, run_stmt, if_true]
        generalize (insertJobs [emailVerifyJob env new]).result _ = violation
        cases violation with
        | some violated => exact .refl hdb
        | none =>
          have hwrite := insertJobs_accounts [emailVerifyJob env new]
            { db with users := db.users ++ [new] } { db with users := db.users ++ [new] }
          exact AccountMove.insert hdb (userViolation_none hviolation).1 hwrite.1 hwrite.2

theorem consumeEmailVerifyToken_move (hdb : Linked db) (token : String) :
    AccountMove db ((consumeEmailVerifyToken lib token env).run db).1 := by
  unfold consumeEmailVerifyToken
  cases lib.jwtDecode token (env.now 0) with
  | none => exact .refl hdb
  | some payload =>
    simp only
    split_ifs
    · exact .refl hdb
    · cases payload.sub with
      | none => exact .refl hdb
      | some id =>
        simp only [run_stmt, selectUser, Stmt.select]
        cases hfound : Table.lookup User.id id db.users with
        | none => exact .refl hdb
        | some existing =>
          simp only
          split_ifs with hdormant
          · exact AccountMove.save (fun u => { u with emailVerifiedAt := some (env.now 1) }) hdb
              (Table.lookup_mem hfound) hdormant (fun _ => rfl) rfl rfl
          · exact .refl hdb

section FindOrCreate
variable {provider : String} {openid : OpenID} {handler : Constraint → Service User}

def Raises (p : Service User) : Prop := ∀ db, ∃ e, (p.run db).2 = .error e

theorem linkOauthIdentity_ok {id : UUID} {owner : User} (hdb : Linked db)
    (hraises : ∀ violated, Raises (handler violated)) (hmem : owner ∈ db.users)
    (hverified : owner.emailVerifiedAt ≠ none)
    (h : (linkOauthIdentity provider openid id owner false handler).run db = (db', .ok user)) :
    AccountMove db db' ∧ BoundTo provider openid.id user db' := by
  let identity : OAuthIdentity := ⟨id, owner.id, provider, openid.id, openid.email⟩
  cases hviolation : oauthIdentityViolation db identity with
  | some violated =>
    have hresult : (insertOauthIdentity identity).result db = some violated := hviolation
    simp only [linkOauthIdentity, unlessFailed, Bool.false_eq_true, if_false, run_stmt] at h
    rw [hresult] at h
    obtain ⟨e, he⟩ := hraises violated ((insertOauthIdentity identity).write db db)
    rw [congrArg Prod.snd h] at he
    cases he
  | none =>
    have hresult : (insertOauthIdentity identity).result db = none := hviolation
    simp only [linkOauthIdentity, unlessFailed, Bool.false_eq_true, if_false, run_stmt] at h
    have hwrite : (insertOauthIdentity identity).write db db =
        { db with oauthIdentities := db.oauthIdentities ++ [identity] } := if_pos hviolation
    rw [hresult, hwrite] at h
    simp only [run_ret, Prod.mk.injEq, Except.ok.injEq] at h
    obtain ⟨rfl, rfl⟩ := h
    have hmove : AccountMove db
        { db with oauthIdentities := db.oauthIdentities ++ [identity] } :=
      .link hdb ⟨owner, hmem, rfl, hverified⟩ rfl rfl
    refine ⟨hmove, ⟨identity, ?_, rfl⟩, hmem, hverified⟩
    have hnone : db.oauthIdentity? provider openid.id = none := by
      unfold oauthIdentityViolation at hviolation
      split_ifs at hviolation with hid hsubject
      simpa using hsubject
    rw [Database.oauthIdentity?] at hnone
    rw [Database.oauthIdentity?, List.find?_append, hnone]
    simp [identity]

theorem findOrCreateInner_ok {n : ℕ} (hdb : Linked db)
    (hraises : ∀ violated, Raises (handler violated))
    (h : (findOrCreateInner provider openid env n false handler).run db = (db', .ok user)) :
    AccountMove db db' ∧ BoundTo provider openid.id user db' := by
  simp only [findOrCreateInner, unlessFailed, Bool.false_eq_true, if_false, run_stmt,
    selectOauthIdentity, selectUserByEmail, Stmt.select] at h
  cases hfound : (db.oauthIdentity? provider openid.id).bind fun identity =>
      (Table.lookup User.id identity.userId db.users).map fun user => (identity, user) with
  | some found =>
    obtain ⟨identity, hidentity, hmap⟩ := Option.bind_eq_some_iff.mp hfound
    obtain ⟨owner, howner, rfl⟩ := Option.map_eq_some_iff.mp hmap
    have hmem := Table.lookup_mem howner
    have hid := Table.lookup_key howner
    have hbound : BoundTo provider openid.id owner db := by
      refine ⟨⟨identity, hidentity, hid.symm⟩, hmem, ?_⟩
      obtain ⟨u, hu, hsame, hverified⟩ := hdb.owner identity (List.mem_of_find?_eq_some hidentity)
      rw [hdb.ids.eq_of_key hmem hu (hid.trans hsame.symm)]
      exact hverified
    simp only [hfound] at h
    split_ifs at h with hmail
    · simp only [run_stmt, run_ret, saveOauthIdentity, Prod.mk.injEq, Except.ok.injEq] at h
      obtain ⟨rfl, rfl⟩ := h
      have hmove : AccountMove db ((saveOauthIdentity identity.id
          fun i => { i with email := openid.email }).write db db) :=
        AccountMove.refresh openid.email hdb rfl rfl
      exact ⟨hmove, hbound.move hmove⟩
    · simp only [run_ret, Prod.mk.injEq, Except.ok.injEq] at h
      obtain ⟨rfl, rfl⟩ := h
      exact ⟨.refl hdb, hbound⟩
  | none =>
    simp only [hfound, run_stmt] at h
    cases hexisting : db.userByEmail? openid.email with
    | some existing =>
      have hmem : existing ∈ db.users := Table.lookup_mem hexisting
      simp only [hexisting] at h
      split_ifs at h with hverified
      · exact linkOauthIdentity_ok hdb hraises hmem hverified h
      · -- the takeover makes the row `taken` before the identity is inserted
        simp only [run_stmt] at h
        generalize htaken : existing.takeOver openid (env.now n) = taken at h
        have hmove : AccountMove db ((saveUser existing.id taken.columns).write db db) :=
          AccountMove.save taken.columns hdb hmem (not_not.mp hverified) (fun _ => rfl) rfl rfl
        have hrow : taken ∈ ((saveUser existing.id taken.columns).write db db).users := by
          change taken ∈ Table.update User.id existing.id taken.columns db.users
          rw [Table.mem_update]
          exact Or.inr ⟨existing, hmem, rfl, by rw [← htaken]; rfl⟩
        have hlinked := linkOauthIdentity_ok hmove.linked hraises hrow (by rw [← htaken]; simp
          [User.takeOver]) h
        exact ⟨hmove.trans hlinked.1, hlinked.2⟩
    | none =>
      simp only [hexisting, run_stmt] at h
      generalize hnew : newOauthUser openid (env.uuid n) (env.now n) = new at h
      cases hviolation : userViolation db new with
      | some violated =>
        obtain ⟨e, he⟩ := hraises violated ((insertUser new).write db db)
        simp only [insertUser, hviolation] at h he
        rw [h] at he
        cases he
      | none =>
        have hmove : AccountMove db ((insertUser new).write db db) := by
          refine AccountMove.insert hdb (userViolation_none hviolation).1 ?_ ?_
          · simp [insertUser, hviolation]
          · simp [insertUser, hviolation]
        have hrow : new ∈ ((insertUser new).write db db).users := by
          simp [insertUser, hviolation]
        have hresult : (insertUser new).result db = none := hviolation
        rw [hresult] at h
        have hlinked := linkOauthIdentity_ok hmove.linked hraises hrow (by rw [← hnew]; simp
          [newOauthUser]) h
        exact ⟨hmove.trans hlinked.1, hlinked.2⟩

/-- The retry after a violated constraint is rejected by the server. -/
theorem findOrCreateOauthUser_ok (hdb : Linked db)
    (h : (findOrCreateOauthUser provider openid env).run db = (db', .ok user)) :
    AccountMove db db' ∧ BoundTo provider openid.id user db' := by
  rw [findOrCreateOauthUser, run_transaction] at h
  cases hrun : (findOrCreateInTransaction provider openid env).run db with
  | mk v r =>
    rw [hrun] at h
    cases r with
    | error e => cases h
    | ok found =>
      cases h
      refine findOrCreateInner_ok hdb ?_ hrun
      intro violated db
      exact ⟨_, rfl⟩

theorem findOrCreateOauthUser_move (hdb : Linked db) :
    AccountMove db ((findOrCreateOauthUser provider openid env).run db).1 := by
  cases hrun : (findOrCreateOauthUser provider openid env).run db with
  | mk db' r =>
    cases r with
    | error e =>
      rw [run_transaction_error hrun]
      exact .refl hdb
    | ok found => exact (findOrCreateOauthUser_ok hdb hrun).1

end FindOrCreate

theorem accountEffect_move (hdb : Linked db) (c : AccountCall) :
    AccountMove db (accountEffect settings lib c db) := by
  unfold accountEffect performAccount
  cases c with
  | register body salt env =>
    rw [AccountCall.prog, run_map]
    exact register_move hdb body salt
  | consumeEmailVerifyToken token env =>
    rw [AccountCall.prog, run_map]
    exact consumeEmailVerifyToken_move hdb token
  | findOrCreateOauthUser provider openid env =>
    rw [AccountCall.prog, run_map]
    exact findOrCreateOauthUser_move hdb

end Specs

section Runs
variable (settings : Settings) (lib : AccountLib) (db₀ : Database) (calls : List AccountCall)

def accountsAt (n : ℕ) : Database := after (accountEffect settings lib) db₀ (calls.take n)

def accountResponse (n : ℕ) : Option (Except ApiError AccountResponse) :=
  calls[n]?.map fun c => (performAccount settings lib c (accountsAt settings lib db₀ calls n)).2

variable {settings lib db₀ calls}

theorem accountsAt_succ {n : ℕ} {c : AccountCall} (h : calls[n]? = some c) :
    accountsAt settings lib db₀ calls (n + 1) =
      accountEffect settings lib c (accountsAt settings lib db₀ calls n) := after_take_succ _ _ _ _ _ h

theorem accountsAt_linked (h₀ : Linked db₀) (n : ℕ) : Linked (accountsAt settings lib db₀ calls n) :=
  after_invariant (accountEffect settings lib) Linked (fun _ => True)
    (fun c _ _ h => (accountEffect_move h c).linked) _ _ h₀ (fun _ _ => trivial)

theorem accountsAt_move (h₀ : Linked db₀) {n m : ℕ} (hnm : n ≤ m) :
    AccountMove (accountsAt settings lib db₀ calls n) (accountsAt settings lib db₀ calls m) :=
  take_stable (accountEffect settings lib)
    (fun z => AccountMove (accountsAt settings lib db₀ calls n) z)
    (fun c _ h => h.trans (accountEffect_move h.linked c)) db₀ calls hnm
    (.refl (accountsAt_linked h₀ n))

theorem boundTo_of_response (h₀ : Linked db₀) {n : ℕ} {provider : String} {openid : OpenID} {env : Env}
    {u : User} (hcall : calls[n]? = some (.findOrCreateOauthUser provider openid env))
    (hresponse : accountResponse settings lib db₀ calls n = some (.ok (.identified u))) :
    BoundTo provider openid.id u (accountsAt settings lib db₀ calls (n + 1)) := by
  rw [accountResponse, hcall, Option.map_some, performAccount, AccountCall.prog, run_map] at hresponse
  rw [accountsAt_succ hcall, accountEffect, performAccount, AccountCall.prog, run_map]
  cases hrun : (findOrCreateOauthUser provider openid env).run
      (accountsAt settings lib db₀ calls n) with
  | mk db' r =>
    rw [hrun] at hresponse
    cases r with
    | error e => cases hresponse
    | ok found =>
      cases hresponse
      exact (findOrCreateOauthUser_ok (accountsAt_linked h₀ n) hrun).2

/-- Account linking is stable and safe. Whatever the calls before, between and after: one identity
    logs in as one user, owners of identities are verified, a verification stays as it is, and
    `find_or_create_oauth_user` spares the password and the name of a verified account. -/
theorem account_linking_stable (settings : Settings) (lib : AccountLib) (db₀ : Database)
    (h₀ : Linked db₀) (calls : List AccountCall) :
    (∀ n m provider openid openid' env env' u u',
        calls[n]? = some (.findOrCreateOauthUser provider openid env) →
        calls[m]? = some (.findOrCreateOauthUser provider openid' env') → openid.id = openid'.id →
        accountResponse settings lib db₀ calls n = some (.ok (.identified u)) →
        accountResponse settings lib db₀ calls m = some (.ok (.identified u')) → u = u') ∧
      (∀ n, ∀ i ∈ (accountsAt settings lib db₀ calls n).oauthIdentities,
        ∀ u ∈ (accountsAt settings lib db₀ calls n).users, u.id = i.userId →
          u.emailVerifiedAt ≠ none) ∧
      (∀ n m id u t, n ≤ m →
        Table.lookup User.id id (accountsAt settings lib db₀ calls n).users = some u →
        u.emailVerifiedAt = some t →
          ∃ u', Table.lookup User.id id (accountsAt settings lib db₀ calls m).users = some u' ∧
            u'.emailVerifiedAt = some t) ∧
      ∀ n provider openid env id u,
        calls[n]? = some (.findOrCreateOauthUser provider openid env) →
        Table.lookup User.id id (accountsAt settings lib db₀ calls n).users = some u →
        u.emailVerifiedAt ≠ none →
          ∃ u', Table.lookup User.id id (accountsAt settings lib db₀ calls (n + 1)).users = some u' ∧
            u'.passwordHash = u.passwordHash ∧ u'.fullName = u.fullName := by
  have hkept : ∀ n m id u, n ≤ m →
      Table.lookup User.id id (accountsAt settings lib db₀ calls n).users = some u →
      u.emailVerifiedAt ≠ none →
        Table.lookup User.id id (accountsAt settings lib db₀ calls m).users = some u := by
    intro n m id u hnm hfound hverified
    have hmove : AccountMove (accountsAt settings lib db₀ calls n)
        (accountsAt settings lib db₀ calls m) := accountsAt_move h₀ hnm
    exact hmove.linked.ids.lookup_iff.mpr
      ⟨hmove.verified u (Table.lookup_mem hfound) hverified, Table.lookup_key hfound⟩
  refine ⟨?_, ?_, ?_, ?_⟩
  · intro n m provider openid openid' env env' u u' hn hm hsame hu hu'
    have hbound := boundTo_of_response h₀ hn hu
    have hbound' := boundTo_of_response h₀ hm hu'
    rw [← hsame] at hbound'
    have hlater := hbound.move (accountsAt_move h₀ (Nat.le_max_left (n + 1) (m + 1)))
    have hlater' := hbound'.move (accountsAt_move h₀ (Nat.le_max_right (n + 1) (m + 1)))
    exact hlater.unique (accountsAt_linked h₀ _) hlater'
  · intro n i hi u hu hid
    have hlinked : Linked (accountsAt settings lib db₀ calls n) := accountsAt_linked h₀ n
    obtain ⟨owner, howner, hsame, hverified⟩ := hlinked.owner i hi
    rw [hlinked.ids.eq_of_key hu howner (hid.trans hsame.symm)]
    exact hverified
  · intro n m id u t hnm hfound ht
    exact ⟨u, hkept n m id u hnm hfound (by rw [ht]; exact Option.some_ne_none t), ht⟩
  · intro n provider openid env id u _ hfound hverified
    exact ⟨u, hkept n (n + 1) id u (Nat.le_succ n) hfound hverified, rfl, rfl⟩

end Runs

section Drift

def dormantRequest : RegisterRequest where
  email := "dana@school.example"
  password := "correct horse"
  fullName := "Dana"
  password_length := by decide

def driftEnv (n : ℕ) : Env := ⟨fun k => days n + k, fun k => Fin.ofNat _ (10 * n + k)⟩

def driftCalls : List AccountCall :=
  [.register dormantRequest "salt" (driftEnv 1),
    .findOrCreateOauthUser "google" ⟨"subject", "dana@school.example", some "Dana P."⟩ (driftEnv 2),
    .findOrCreateOauthUser "google" ⟨"subject", "dana@home.example", none⟩ (driftEnv 3)]

theorem linked_empty : Linked {} where
  ids := List.nodup_nil
  owner i hi := by cases hi

theorem account_linking_stable_drift :
    ∃ u u', accountResponse {} plainAccounts {} driftCalls 1 = some (.ok (.identified u)) ∧
      accountResponse {} plainAccounts {} driftCalls 2 = some (.ok (.identified u')) ∧ u = u' := by
  let dana : User := ⟨10, "dana@school.example", none, "Dana P.", .student, some (days 2)⟩
  have hfirst : accountResponse {} plainAccounts {} driftCalls 1 = some (.ok (.identified dana)) := by
    decide +kernel
  have hsecond : accountResponse {} plainAccounts {} driftCalls 2 = some (.ok (.identified dana)) := by
    decide +kernel
  exact ⟨dana, dana, hfirst, hsecond, (account_linking_stable {} plainAccounts {} linked_empty
    driftCalls).1 1 2 _ _ _ _ _ dana dana rfl rfl rfl hfirst hsecond⟩

end Drift
end Hefest
