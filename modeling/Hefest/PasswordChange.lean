import Hefest.Lib.Crash
import Hefest.AuthRouters

set_option autoImplicit false

namespace Hefest
open Transaction

section Update
variable {α : Type} {p : RefreshToken → Bool} {set : RefreshToken → RefreshToken}

theorem updateTokenRows_steps (a : α) (ids : List UUID) (db : Database) :
    (updateTokenRows p set (.ret a) ids).steps db = ids.length + 1 := by
  induction ids generalizing db with
  | nil => rfl
  | cons id ids ih =>
    change (updateTokenRows p set (.ret a) ids).steps _ + 1 = _
    rw [ih, List.length_cons]

theorem updateTokens_map {β : Type} (f : α → β) (a : α) :
    (updateTokens p set (.ret a)).map f = updateTokens p set (.ret (f a)) := by
  change Prog.stmt _ _ = Prog.stmt _ _
  congr 1
  funext ids
  change Prog.transaction ((updateTokenRows p set (.ret a) ids).map f) = _
  rw [updateTokenRows_map]
  rfl

/-- The snapshot, the BEGIN, one step for each row, and the COMMIT. -/
theorem updateTokens_crashed (hset : ∀ t, (set t).id = t.id ∧ p (set t) = false) (a : α) (n : ℕ)
    (db : Database) : (updateTokens p set (.ret a)).crashed n db =
      if n < 3 + (db.refreshTokens.filter p).length then db
      else { db with refreshTokens := Table.updateWhere p set db.refreshTokens } := by
  cases n with
  | zero => rw [crashed_zero, if_pos (by omega)]
  | succ n =>
    have hrun := updateTokens_run (p := p) (.ret a) hset db
    change (Prog.transaction (updateTokenRows p set (.ret a)
      ((db.refreshTokens.filter p).map RefreshToken.id))).run db = _ at hrun
    change (Prog.transaction (updateTokenRows p set (.ret a)
      ((db.refreshTokens.filter p).map RefreshToken.id))).crashed n db = _
    rw [crashed_transaction, hrun, Prog.steps, updateTokenRows_steps, List.length_map]
    by_cases hn : n < (db.refreshTokens.filter p).length + 1 + 1
    · rw [if_pos hn, if_pos (by omega)]
    · rw [if_neg hn, if_neg (by omega)]
      rfl

end Update

section ChangePassword
variable (accounts : AccountLib) (userId : UUID) (body : ChangePasswordRequest) (salt : String)
  (env : Env)

/-- `POST /auth/change-password` with the access token of `userId`. -/
def changePasswordCall : Service AuthReply :=
  (getCurrentUser userId).bind fun user => changePassword accounts body user salt env

structure PasswordChanges (user : User) (newHash : String) : Prop where
  verified : ∃ hashed, user.passwordHash = some hashed ∧
    verifyPassword accounts body.currentPassword hashed = .ok true
  hashed : hashPassword accounts body.newPassword salt = .ok newHash

def storePassword (newHash : String) (db : Database) : Database :=
  { db with
    users := Table.update User.id userId (fun u => { u with passwordHash := some newHash }) db.users }

def revokeSessions (db : Database) : Database :=
  { db with
    refreshTokens := Table.updateWhere (RefreshToken.activeOf userId)
      (RefreshToken.revoke (env.now 0)) db.refreshTokens }

/-- The password and the tokens are as they were, or the new password is stored and no token of the
    user is active any more. -/
def AllOrNothing (db db' : Database) : Prop :=
  ((db'.user? userId).map User.passwordHash = (db.user? userId).map User.passwordHash ∧
      db'.refreshTokens = db.refreshTokens) ∨
    (∃ newHash, hashPassword accounts body.newPassword salt = .ok newHash ∧
      (db'.user? userId).map User.passwordHash = some (some newHash) ∧
      FamilyRevoked userId db' ∧
      db'.refreshTokens.map RefreshToken.id = db.refreshTokens.map RefreshToken.id)

def EndsSessions (db : Database) : Prop :=
  ∃ user newHash, db.user? userId = some user ∧ PasswordChanges accounts body salt user newHash ∧
    user.passwordHash ≠ some newHash ∧ ∃ t ∈ db.refreshTokens, t.activeOf userId = true

/-- Of the steps of the call, which are the SELECT and the save, then the snapshot of the UPDATE, its
    BEGIN, its rows and its COMMIT, at least the save and not the COMMIT are done. -/
def BetweenWrites (db : Database) (n : ℕ) : Prop :=
  2 ≤ n ∧ n < 5 + (db.refreshTokens.filter (RefreshToken.activeOf userId)).length

variable {accounts userId body salt env} {db : Database} {user : User} {newHash : String} {n : ℕ}

variable (env) in
theorem changePassword_refused
    (h : ∀ newHash, ¬ PasswordChanges accounts body salt user newHash) :
    ∃ e, changePassword accounts body user salt env = .raise e := by
  unfold changePassword
  cases hhash : user.passwordHash with
  | none => exact ⟨_, rfl⟩
  | some hashed =>
    simp only
    cases hcheck : verifyPassword accounts body.currentPassword hashed with
    | error message => exact ⟨_, rfl⟩
    | ok verified =>
      cases verified with
      | false => exact ⟨_, rfl⟩
      | true =>
        cases hnew : hashPassword accounts body.newPassword salt with
        | error message => exact ⟨_, rfl⟩
        | ok newHash => exact absurd ⟨⟨hashed, hhash, hcheck⟩, hnew⟩ (h newHash)

theorem changePassword_accepted (h : PasswordChanges accounts body salt user newHash) :
    changePassword accounts body user salt env =
      .stmt (saveUser user.id fun u => { u with passwordHash := some newHash }) fun _ =>
        updateTokens (RefreshToken.activeOf user.id) (RefreshToken.revoke (env.now 0))
          (.ret .noContent) := by
  obtain ⟨⟨hashed, hhash, hcheck⟩, hnew⟩ := h
  unfold changePassword
  rw [hhash]
  simp only [hcheck, hnew, orValueError, revokeAllForUserByRow, updateTokens_map]
  rfl

variable (accounts userId body salt env) in
theorem changePasswordCall_crashed (n : ℕ) (db : Database) :
    (changePasswordCall accounts userId body salt env).crashed (n + 1) db =
      (db.user? userId).elim db fun user =>
        (changePassword accounts body user salt env).crashed n db := by
  have hresult : (selectUser userId).result db = db.user? userId := rfl
  simp only [changePasswordCall, getCurrentUser, bind_stmt, crashed_stmt, hresult]
  cases db.user? userId with
  | none => exact crashed_raise _ _ _
  | some user => rfl

theorem changePasswordCall_refused (h : ∀ user newHash, db.user? userId = some user →
      ¬ PasswordChanges accounts body salt user newHash) (n : ℕ) :
    (changePasswordCall accounts userId body salt env).crashed n db = db := by
  cases n with
  | zero => rfl
  | succ n =>
    rw [changePasswordCall_crashed]
    cases hfound : db.user? userId with
    | none => rfl
    | some user =>
      obtain ⟨e, he⟩ := changePassword_refused env fun newHash => h user newHash hfound
      simp only [Option.elim_some, he, crashed_raise]

theorem changePasswordCall_accepted (hfound : db.user? userId = some user)
    (h : PasswordChanges accounts body salt user newHash) (n : ℕ) :
    (changePasswordCall accounts userId body salt env).crashed n db =
      if n < 2 then db
      else if n < 5 + (db.refreshTokens.filter (RefreshToken.activeOf userId)).length then
        storePassword userId newHash db
      else revokeSessions userId env (storePassword userId newHash db) := by
  have hid : user.id = userId := Table.lookup_key hfound
  have hset : ∀ t : RefreshToken, (t.revoke (env.now 0)).id = t.id ∧
      (t.revoke (env.now 0)).activeOf userId = false := revoke_dequalifies (activeOf_active userId)
  rcases n with _ | _ | n
  · rfl
  · rw [changePasswordCall_crashed, hfound]
    rfl
  · rw [changePasswordCall_crashed, hfound]
    simp only [Option.elim_some, changePassword_accepted h, hid, crashed_stmt]
    rw [updateTokens_crashed hset, if_neg (by omega : ¬ n + 1 + 1 < 2)]
    change (if n < 3 + (db.refreshTokens.filter (RefreshToken.activeOf userId)).length then
      storePassword userId newHash db
      else revokeSessions userId env (storePassword userId newHash db)) = _
    by_cases hn : n < 3 + (db.refreshTokens.filter (RefreshToken.activeOf userId)).length
    · rw [if_pos hn, if_pos (by omega)]
    · rw [if_neg hn, if_neg (by omega)]

theorem AllOrNothing.refl : AllOrNothing accounts userId body salt db db := Or.inl ⟨rfl, rfl⟩

theorem storePassword_user? (hfound : db.user? userId = some user) :
    ((storePassword userId newHash db).user? userId).map User.passwordHash =
      some (some newHash) := by
  have hlookup : (storePassword userId newHash db).user? userId = (db.user? userId).map _ :=
    Table.lookup_update (f := fun u : User => { u with passwordHash := some newHash })
      (fun _ => rfl) userId
  rw [hlookup, hfound]
  simp

theorem revokeSessions_all (hfound : db.user? userId = some user)
    (h : hashPassword accounts body.newPassword salt = .ok newHash) :
    AllOrNothing accounts userId body salt db
      (revokeSessions userId env (storePassword userId newHash db)) := by
  right
  refine ⟨newHash, h, storePassword_user? hfound, ?_, ?_⟩
  · exact revokeTokensOf_familyRevoked userId (env.now 0) db (storePassword userId newHash db)
  · change (Table.updateWhere _ _ db.refreshTokens).map RefreshToken.id = _
    rw [Table.updateWhere, List.map_map]
    apply List.map_congr_left
    intro t _
    by_cases hactive : t.activeOf userId = true
    · simp [hactive, RefreshToken.revoke]
    · simp [hactive]

/-- With the password alone, it depends on whether the password is new and sessions are left. -/
theorem storePassword_all_iff (hfound : db.user? userId = some user)
    (h : PasswordChanges accounts body salt user newHash) :
    AllOrNothing accounts userId body salt db (storePassword userId newHash db) ↔
      ¬ EndsSessions accounts userId body salt db := by
  have hstored : ((storePassword userId newHash db).user? userId).map User.passwordHash =
      some (some newHash) := storePassword_user? hfound
  constructor
  · rintro hall ⟨user', newHash', hfound', h', hnew, t, ht, hactive⟩
    rw [hfound] at hfound'
    cases hfound'
    have hsame : newHash' = newHash := by
      have := h'.hashed.symm.trans h.hashed
      cases this
      rfl
    subst hsame
    rcases hall with ⟨hpassword, _⟩ | ⟨_, _, _, hrevoked, _⟩
    · rw [hstored, hfound] at hpassword
      exact hnew (Option.some.inj hpassword).symm
    · have howner := of_decide_eq_true hactive
      exact hrevoked t ht howner.1 howner.2
  · intro hnone
    by_cases hnew : user.passwordHash = some newHash
    · left
      refine ⟨?_, rfl⟩
      rw [hstored, hfound, Option.map_some, hnew]
    · right
      refine ⟨newHash, h.hashed, hstored, ?_, rfl⟩
      intro t ht howner hactive
      exact hnone ⟨user, newHash, hfound, h, hnew, t, ht, decide_eq_true ⟨howner, hactive⟩⟩

/-- A failure leaves all or nothing exactly if it does not come between the two writes of a call
    that changes the password of somebody with active tokens. -/
theorem change_password_atomic_iff (accounts : AccountLib) (userId : UUID)
    (body : ChangePasswordRequest) (salt : String) (env : Env) (db : Database) (n : ℕ) :
    AllOrNothing accounts userId body salt db
        ((changePasswordCall accounts userId body salt env).crashed n db) ↔
      ¬ (EndsSessions accounts userId body salt db ∧ BetweenWrites userId db n) := by
  by_cases h : ∃ user newHash, db.user? userId = some user ∧
      PasswordChanges accounts body salt user newHash
  · obtain ⟨user, newHash, hfound, hchanges⟩ := h
    rw [changePasswordCall_accepted hfound hchanges]
    by_cases hsaved : n < 2
    · rw [if_pos hsaved]
      refine iff_of_true .refl ?_
      rintro ⟨_, hbetween, _⟩
      omega
    · rw [if_neg hsaved]
      by_cases hrevoked :
          n < 5 + (db.refreshTokens.filter (RefreshToken.activeOf userId)).length
      · have hbetween : BetweenWrites userId db n := ⟨by omega, hrevoked⟩
        rw [if_pos hrevoked, storePassword_all_iff hfound hchanges, and_iff_left hbetween]
      · rw [if_neg hrevoked]
        refine iff_of_true (revokeSessions_all hfound hchanges.hashed) ?_
        rintro ⟨_, _, hbetween⟩
        exact hrevoked hbetween
  · rw [changePasswordCall_refused fun user newHash hfound hchanges =>
      h ⟨user, newHash, hfound, hchanges⟩]
    refine iff_of_true .refl ?_
    rintro ⟨⟨user, newHash, hfound, hchanges, _⟩, _⟩
    exact h ⟨user, newHash, hfound, hchanges⟩

end ChangePassword

section LostConnection

def newPasswordBody : ChangePasswordRequest where
  currentPassword := "current-password-123"
  newPassword := "brand-new-password-456"
  new_password_length := by decide

def loggedIn : Database where
  users :=
    [{ id := 1
       email := "dana@school.example"
       fullName := "Dana"
       role := .student
       passwordHash := some "hash of current-password-123" }]
  refreshTokens := [⟨10, 1, "phone", .mobile, days 14, none⟩]

/-- The connection is lost after the save: the new password is stored, and the phone stays logged
    in. -/
theorem change_password_half_done :
    ¬ AllOrNothing plainAccounts 1 newPasswordBody "salt" loggedIn
      ((changePasswordCall plainAccounts 1 newPasswordBody "salt" replayEnv).crashed 2 loggedIn) := by
  rintro (⟨hpassword, _⟩ | ⟨_, _, _, hrevoked, _⟩)
  · exact absurd hpassword (by decide +kernel)
  · exact absurd hrevoked (by decide +kernel)

end LostConnection
end Hefest
