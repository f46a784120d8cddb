import Hefest.RefreshTokens

set_option autoImplicit false

/-!
# The revoking UPDATEs, row by row

`RefreshToken.filter(...).update(...)` is one statement, but not one moment. PostgreSQL finds the
rows in the snapshot of the statement, then takes them one after another: it waits for the row's
lock, tests the newest version of the row again and writes it. Executed alone this is the update
in one go that `revokeTokensOf` writes down.
-/
namespace Hefest
open Transaction

def findTokens (p : RefreshToken → Bool) : Query (List UUID) :=
  .select (fun db => (db.refreshTokens.filter p).map RefreshToken.id)

/-- One row of the UPDATE. The lock stays even if the newest version no longer qualifies. -/
def updateTokenRow (p : RefreshToken → Bool) (set : RefreshToken → RefreshToken) (id : UUID) :
    Query Unit where
  locks _ := [⟨.refreshToken id, .forNoKeyUpdate⟩]
  result _ := ()
  write _ x := { x with
    refreshTokens := Table.updateWhere (fun t => decide (t.id = id) && p t) set x.refreshTokens }

def updateTokenRows {α : Type} (p : RefreshToken → Bool) (set : RefreshToken → RefreshToken)
    (next : Service α) : List UUID → Service α
  | [] => next
  | id :: ids => .stmt (updateTokenRow p set id) fun _ => updateTokenRows p set next ids

/-- `RefreshToken.filter(...).update(...)` outside any transaction. -/
def updateTokens {α : Type} (p : RefreshToken → Bool) (set : RefreshToken → RefreshToken)
    (next : Service α) : Service α :=
  .stmt (findTokens p) fun ids => .transaction (updateTokenRows p set next ids)

def RefreshToken.activeWithHash (tokenHash : String) (t : RefreshToken) : Bool :=
  decide (t.tokenHash = tokenHash ∧ t.revokedAt = none)

def revokeRefreshToken (lib : TokenLib) (rawToken : String) (env : Env) : Service Unit :=
  updateTokens (RefreshToken.activeWithHash (lib.sha256 rawToken)) (RefreshToken.revoke (env.now 0))
    (.ret ())

/-- `revoke_all_for_user` as PostgreSQL executes its UPDATE. -/
def revokeAllForUserByRow (userId : UUID) (env : Env) : Service Unit :=
  updateTokens (RefreshToken.activeOf userId) (RefreshToken.revoke (env.now 0)) (.ret ())

section Alone
variable {p : RefreshToken → Bool} {set : RefreshToken → RefreshToken}

def updatedTokens (p : RefreshToken → Bool) (set : RefreshToken → RefreshToken) (ids : List UUID)
    (tokens : List RefreshToken) : List RefreshToken :=
  Table.updateWhere (fun t => ids.contains t.id && p t) set tokens

theorem updatedTokens_nil (tokens : List RefreshToken) : updatedTokens p set [] tokens = tokens := by
  simp [updatedTokens, Table.updateWhere]

/-- A row that is met again no longer qualifies. -/
theorem updateRow_updatedTokens (hset : ∀ t, (set t).id = t.id ∧ p (set t) = false)
    (ids : List UUID) (id : UUID) (tokens : List RefreshToken) :
    Table.updateWhere (fun t => decide (t.id = id) && p t) set (updatedTokens p set ids tokens) =
      updatedTokens p set (ids ++ [id]) tokens := by
  simp only [updatedTokens, Table.updateWhere, List.map_map]
  apply List.map_congr_left
  intro t _
  simp only [Function.comp_apply]
  by_cases hp : p t = true <;> by_cases hmem : t.id ∈ ids <;> by_cases hid : t.id = id <;>
    simp_all

theorem updateTokenRows_run {α : Type} (next : Service α)
    (hset : ∀ t, (set t).id = t.id ∧ p (set t) = false) (done ids : List UUID) (db : Database) :
    (updateTokenRows p set next ids).run
        { db with refreshTokens := updatedTokens p set done db.refreshTokens } =
      next.run { db with refreshTokens := updatedTokens p set (done ++ ids) db.refreshTokens } := by
  induction ids generalizing done with
  | nil => simp [updateTokenRows]
  | cons id ids ih =>
    have hstep := ih (done ++ [id])
    rw [← updateRow_updatedTokens hset done id db.refreshTokens] at hstep
    rw [List.append_assoc] at hstep
    exact hstep

theorem revoke_dequalifies {now : Time} (hp : ∀ t : RefreshToken, p t = true → t.revokedAt = none)
    (t : RefreshToken) : (t.revoke now).id = t.id ∧ p (t.revoke now) = false := by
  refine ⟨rfl, ?_⟩
  by_contra h
  have := hp _ (by simpa using h)
  cases this

theorem activeOf_active (userId : UUID) (t : RefreshToken) (h : t.activeOf userId = true) :
    t.revokedAt = none := by
  have := of_decide_eq_true h
  exact this.2

theorem activeWithHash_active (tokenHash : String) (t : RefreshToken)
    (h : t.activeWithHash tokenHash = true) : t.revokedAt = none := by
  have := of_decide_eq_true h
  exact this.2

theorem updateTokenRows_map {α β : Type} (f : α → β) (next : Service α) (ids : List UUID) :
    (updateTokenRows p set next ids).map f = updateTokenRows p set (next.map f) ids := by
  induction ids with
  | nil => rfl
  | cons id ids ih =>
    change Prog.stmt _ _ = Prog.stmt _ _
    congr 1
    funext _
    exact ih

theorem updatedTokens_found (tokens : List RefreshToken) :
    updatedTokens p set ((tokens.filter p).map RefreshToken.id) tokens =
      Table.updateWhere p set tokens := by
  unfold updatedTokens Table.updateWhere
  apply List.map_congr_left
  intro t ht
  by_cases hp : p t = true
  · have hfound : t.id ∈ (tokens.filter p).map RefreshToken.id :=
      List.mem_map.mpr ⟨t, List.mem_filter.mpr ⟨ht, hp⟩, rfl⟩
    simp [hp, hfound]
  · simp [hp]

theorem updateTokens_run {α : Type} (next : Service α)
    (hset : ∀ t, (set t).id = t.id ∧ p (set t) = false) (db : Database) :
    (updateTokens p set next).run db = settle db
      (next.run { db with refreshTokens := Table.updateWhere p set db.refreshTokens }) := by
  have hrows := updateTokenRows_run next hset [] ((db.refreshTokens.filter p).map RefreshToken.id) db
  rw [updatedTokens_nil, List.nil_append, updatedTokens_found] at hrows
  change settle db ((updateTokenRows p set next _).run db) = _
  rw [← hrows]
  rfl

theorem revokeAllForUserByRow_run (userId : UUID) (env : Env) (db : Database) :
    (revokeAllForUserByRow userId env).run db = (revokeAllForUser userId env).run db := by
  have hset : ∀ t : RefreshToken, (t.revoke (env.now 0)).id = t.id ∧
      (t.revoke (env.now 0)).activeOf userId = false :=
    revoke_dequalifies (activeOf_active userId)
  rw [revokeAllForUserByRow, updateTokens_run _ hset]
  rfl

end Alone
end Hefest
