import Hefest.Lib.Isolation
import Hefest.TokenUpdates

set_option autoImplicit false

/-!
# Concurrent calls on refresh tokens

`TokenStage` says where a call on refresh tokens stands and what it knows of the committed tokens.
What a rotation has read of its token stays true until it commits, because it holds the row lock.
The UPDATE of the reuse branch is one statement here: its exception rolls it back in any case.
-/
namespace Hefest
open Transaction

inductive TokenCall
  | issue (user : User) (client : RefreshClient) (drawn : String) (env : Env)
  | rotate (rawToken : String) (presentedClient : RefreshClient) (drawn : String) (env : Env)
  | revoke (rawToken : String) (env : Env)
  | revokeAll (userId : UUID) (env : Env)

inductive TokenResponse
  | issued (raw : String)
  | rotated (access raw : String) (client : RefreshClient)
  | revoked
deriving DecidableEq

abbrev TokenSession := Session Database RowLock ApiError TokenResponse

def TokenLib.drawing (lib : TokenLib) (drawn : String) : TokenLib := { lib with tokenUrlsafe := drawn }

def TokenResponse.ofPair : String × String × RefreshClient → TokenResponse
  | (access, raw, client) => .rotated access raw client

def TokenCall.prog (settings : Settings) (lib : TokenLib) : TokenCall → Service TokenResponse
  | .issue user client drawn env =>
    (issueRefreshToken settings (lib.drawing drawn) user client (env.uuid 0) (env.now 0)).map .issued
  | .rotate rawToken presentedClient drawn env =>
    (rotateRefreshToken settings (lib.drawing drawn) rawToken presentedClient env).map .ofPair
  | .revoke rawToken env => (revokeRefreshToken lib rawToken env).map fun _ => .revoked
  | .revokeAll userId env => (revokeAllForUserByRow userId env).map fun _ => .revoked

def TokenCall.isUpdate : TokenCall → Bool
  | .revoke _ _ | .revokeAll _ _ => true
  | _ => false

structure TokensUnique (db : Database) : Prop where
  ids : Table.KeyUnique RefreshToken.id db.refreshTokens
  hashes : Table.KeyUnique RefreshToken.tokenHash db.refreshTokens

structure FreshToken (db : Database) (t : RefreshToken) : Prop where
  id : ∀ r ∈ db.refreshTokens, r.id ≠ t.id
  hash : ∀ r ∈ db.refreshTokens, r.tokenHash ≠ t.tokenHash
  active : t.revokedAt = none

inductive TokenMove (x y : Database) : Prop
  | write (p : RefreshToken → Bool) (now : Time) (new : Option RefreshToken)
      (active : ∀ t ∈ x.refreshTokens, p t = true → t.revokedAt = none)
      (fresh : ∀ t ∈ new, FreshToken x t)
      (rows : y.refreshTokens =
        Table.updateWhere p (RefreshToken.revoke now) x.refreshTokens ++ new.toList)

theorem freshToken_iff {db : Database} {t : RefreshToken} (hactive : t.revokedAt = none) :
    refreshTokenViolation db t = none ↔ FreshToken db t := by
  unfold refreshTokenViolation Database.refreshToken?
  constructor
  · intro h
    split_ifs at h with hid hhash
    refine ⟨fun r hr he => hid ⟨r, hr, he⟩, ?_, hactive⟩
    rw [Option.not_isSome_iff_eq_none, Table.lookup_eq_none] at hhash
    exact hhash
  · intro h
    rw [if_neg, if_neg]
    · rw [Option.not_isSome_iff_eq_none, Table.lookup_eq_none]
      exact h.hash
    · rintro ⟨r, hr, he⟩
      exact h.id r hr he

section Moves
variable {x y : Database}

theorem TokenMove.keeps (same : y.refreshTokens = x.refreshTokens) : TokenMove x y := by
  refine .write (fun _ => false) 0 none (fun _ _ h => by cases h) (fun _ h => by cases h) ?_
  rw [same]
  simp [Table.updateWhere]

/-- Rows stay, and a revocation is never touched again. -/
theorem TokenMove.kept (h : TokenMove x y) {t : RefreshToken} (ht : t ∈ x.refreshTokens) :
    ∃ t' ∈ y.refreshTokens, t'.id = t.id ∧ t'.tokenHash = t.tokenHash ∧ t'.userId = t.userId ∧
      (t.revokedAt ≠ none → t' = t) := by
  cases h with
  | write p now new active fresh rows =>
    refine ⟨if p t then t.revoke now else t, ?_, ?_⟩
    · rw [rows]
      exact List.mem_append_left _ (List.mem_map.mpr ⟨t, ht, rfl⟩)
    · by_cases hp : p t = true
      · rw [if_pos hp]
        exact ⟨rfl, rfl, rfl, fun hrevoked => absurd (active t ht hp) hrevoked⟩
      · rw [if_neg hp]
        exact ⟨rfl, rfl, rfl, fun _ => rfl⟩

theorem TokenMove.unique (h : TokenMove x y) (hx : TokensUnique x) : TokensUnique y := by
  cases h with
  | write p now new active fresh rows =>
    have hids : Table.KeyUnique RefreshToken.id
        (Table.updateWhere p (RefreshToken.revoke now) x.refreshTokens) :=
      Table.keyUnique_updateWhere hx.ids (fun _ => rfl)
    have hhashes : Table.KeyUnique RefreshToken.tokenHash
        (Table.updateWhere p (RefreshToken.revoke now) x.refreshTokens) :=
      Table.keyUnique_updateWhere hx.hashes (fun _ => rfl)
    cases new with
    | none =>
      rw [Option.toList_none, List.append_nil] at rows
      refine ⟨?_, ?_⟩
      · rw [rows]
        exact hids
      · rw [rows]
        exact hhashes
    | some t =>
      have ht := fresh t rfl
      refine ⟨?_, ?_⟩
      · rw [rows]
        apply Table.keyUnique_insert hids
        intro r hr he
        obtain ⟨r₀, hr₀, he₀⟩ := (Table.exists_updateWhere RefreshToken.id
          (f := RefreshToken.revoke now) (fun _ => rfl)).mp ⟨r, hr, he⟩
        exact ht.id r₀ hr₀ he₀
      · rw [rows]
        apply Table.keyUnique_insert hhashes
        intro r hr he
        obtain ⟨r₀, hr₀, he₀⟩ := (Table.exists_updateWhere RefreshToken.tokenHash
          (f := RefreshToken.revoke now) (fun _ => rfl)).mp ⟨r, hr, he⟩
        exact ht.hash r₀ hr₀ he₀

end Moves

/-- What a lock that blocks writers guards: the rows with an id, the presence of a hash. -/
def sameTokens (a : RowLock) (x y : Database) : Prop :=
  a.mode ≠ .forKeyShare →
    match a.row with
    | .refreshToken id => ∀ t : RefreshToken, t.id = id →
      (t ∈ x.refreshTokens ↔ t ∈ y.refreshTokens)
    | .tokenHash hash => (∃ t ∈ x.refreshTokens, t.tokenHash = hash) ↔
      ∃ t ∈ y.refreshTokens, t.tokenHash = hash
    | _ => True

section Guards
variable {locks : List RowLock} {x y z : Database}

theorem changesWithin_keeps (same : y.refreshTokens = x.refreshTokens) :
    ChangesWithin sameTokens locks x y := by
  intro a _ _
  rw [same]
  split <;> simp

theorem ChangesWithin.trans (h : ChangesWithin sameTokens locks x y)
    (h' : ChangesWithin sameTokens locks y z) : ChangesWithin sameTokens locks x z := by
  intro a ha hmode
  have hxy := h a ha hmode
  have hyz := h' a ha hmode
  revert hxy hyz
  split
  · intro hxy hyz t ht
    exact (hxy t ht).trans (hyz t ht)
  · exact Iff.trans
  · exact fun _ _ => trivial

theorem changesWithin_update (p : RefreshToken → Bool) (now : Time)
    (hlocks : ∀ t ∈ x.refreshTokens, p t = true →
      ∃ mode, mode ≠ .forKeyShare ∧ ⟨.refreshToken t.id, mode⟩ ∈ locks)
    (rows : y.refreshTokens = Table.updateWhere p (RefreshToken.revoke now) x.refreshTokens) :
    ChangesWithin sameTokens locks x y := by
  intro a ha hmode
  split
  · rename_i id hrow
    -- a row with this id does not qualify: its lock would conflict with `a`
    have hskip : ∀ t ∈ x.refreshTokens, t.id = id → ¬ p t = true := by
      intro t ht hid hp
      obtain ⟨mode, hmode', hmem⟩ := hlocks t ht hp
      have hconflict : Lock.conflict a ⟨.refreshToken t.id, mode⟩ = true :=
        RowLock.conflict_same_row (by rw [hrow, hid]) hmode hmode'
      rw [ha _ hmem] at hconflict
      cases hconflict
    intro t hid
    rw [rows, Table.mem_updateWhere]
    constructor
    · intro ht
      exact Or.inl ⟨ht, Bool.not_eq_true _ ▸ hskip t ht hid⟩
    · rintro (⟨ht, _⟩ | ⟨t₀, ht₀, hp, rfl⟩)
      · exact ht
      · exact absurd hp (hskip t₀ ht₀ hid)
  · rw [rows]
    exact (Table.exists_updateWhere RefreshToken.tokenHash (f := RefreshToken.revoke now)
      (fun _ => rfl)).symm
  · trivial

theorem changesWithin_insert (t : RefreshToken)
    (hid : ⟨.refreshToken t.id, .forUpdate⟩ ∈ locks) (hhash : ⟨.tokenHash t.tokenHash, .forUpdate⟩ ∈ locks)
    (rows : y.refreshTokens = x.refreshTokens ++ [t]) : ChangesWithin sameTokens locks x y := by
  intro a ha hmode
  split
  · rename_i id hrow
    intro r hr
    have hne : r ≠ t := by
      rintro rfl
      have hconflict : Lock.conflict a ⟨.refreshToken r.id, .forUpdate⟩ = true :=
        RowLock.conflict_same_row (by rw [hrow, hr]) hmode (by simp)
      rw [ha _ hid] at hconflict
      cases hconflict
    simp [rows, hne]
  · rename_i hash hrow
    have hne : t.tokenHash ≠ hash := by
      rintro rfl
      have hconflict : Lock.conflict a ⟨.tokenHash t.tokenHash, .forUpdate⟩ = true :=
        RowLock.conflict_same_row hrow hmode (by simp)
      rw [ha _ hhash] at hconflict
      cases hconflict
    simp only [rows, List.mem_append, List.mem_singleton, or_and_right, exists_or,
      exists_eq_left, hne, or_false]
  · trivial

end Guards

section Stages
variable (settings : Settings) (lib : TokenLib)

/-- A session that commits nothing any more and has not rotated a token. -/
inductive Idle : TokenSession → Prop
  | answered (r : TokenResponse) (other : ∀ access raw client, r ≠ .rotated access raw client) :
      Idle (.auto (.ret r))
  | refused (e : ApiError) : Idle (.auto (.raise e))
  | failing (e : ApiError) (w : Database → Database) (held : List RowLock) :
      Idle (.inside (.raise e) w held)
  | ended (r : Except ApiError TokenResponse)
      (other : ∀ access raw client, r ≠ .ok (.rotated access raw client)) : Idle (.finished r)

structure Presented (db : Database) (rawToken : String) (held : List RowLock)
    (record : RefreshToken) : Prop where
  mem : record ∈ db.refreshTokens
  active : record.revokedAt = none
  hash : record.tokenHash = lib.sha256 rawToken
  locked : ⟨.refreshToken record.id, .forUpdate⟩ ∈ held

/-- The INSERT of the successor `t`, and the response when it succeeds. -/
inductive InsertsSuccessor (t : RefreshToken) (r : TokenResponse) : Service TokenResponse → Prop
  | mk (k : Option Constraint → Service TokenResponse) (inserted : k none = .ret r)
      (violated : ∀ c, k (some c) = .raise (.integrityError c)) :
      InsertsSuccessor t r (.stmt (insertRefreshToken t) k)

def successor (record : RefreshToken) (drawn : String) (env : Env) : RefreshToken where
  id := env.uuid 0
  userId := record.userId
  tokenHash := lib.sha256 drawn
  client := record.client
  expiresAt := env.now 2 + days settings.refreshTokenExpireDays
  revokedAt := none

/-- What is left of a rotation after its UPDATE: read the user, insert the successor. -/
inductive LoadsUser (record : RefreshToken) (drawn : String) (env : Env) :
    Service TokenResponse → Prop
  | mk (k : Option User → Service TokenResponse) (missing : k none = .raise .doesNotExist)
      (found : ∀ user, user.id = record.userId → ∃ access,
        InsertsSuccessor (successor settings lib record drawn env)
          (.rotated access drawn record.client) (k (some user))) :
      LoadsUser record drawn env (.stmt (selectUser record.userId) k)

def Revokes (record : RefreshToken) (now : Time) (w : Database → Database) : Prop :=
  ∀ x, (w x).refreshTokens =
    Table.update RefreshToken.id record.id (RefreshToken.revoke now) x.refreshTokens

inductive TokenStage (db : Database) : TokenCall → TokenSession → Prop
  | waiting (c : TokenCall) : TokenStage db c (.auto (c.prog settings lib))
  | idle (c : TokenCall) {s : TokenSession} (idle : Idle s) : TokenStage db c s
  | found (c : TokenCall) (p : RefreshToken → Bool) (now : Time) (ids : List UUID)
      (update : c.isUpdate = true) (active : ∀ t : RefreshToken, p t = true → t.revokedAt = none) :
      TokenStage db c
        (.auto (.transaction (updateTokenRows p (RefreshToken.revoke now) (.ret .revoked) ids)))
  | updating (c : TokenCall) (p : RefreshToken → Bool) (now : Time) (done ids : List UUID)
      (w : Database → Database) (held : List RowLock) (update : c.isUpdate = true)
      (active : ∀ t : RefreshToken, p t = true → t.revokedAt = none)
      (written : ∀ x, (w x).refreshTokens =
        updatedTokens p (RefreshToken.revoke now) done x.refreshTokens)
      (locked : ∀ id ∈ done, ⟨.refreshToken id, .forNoKeyUpdate⟩ ∈ held) :
      TokenStage db c (.inside (updateTokenRows p (RefreshToken.revoke now) (.ret .revoked) ids) w held)
  | opened (rawToken : String) (presentedClient : RefreshClient) (drawn : String) (env : Env) :
      TokenStage db (.rotate rawToken presentedClient drawn env)
        (.inside ((rotateInTransaction settings (lib.drawing drawn) rawToken presentedClient env).map
          .ofPair) (fun x => x) [])
  | reusing (c : TokenCall) (userId : UUID) (now : Time) (k : Unit → Service TokenResponse)
      (w : Database → Database) (held : List RowLock) (raises : k () = .raise reuseDetected) :
      TokenStage db c (.inside (.stmt (revokeTokensOf userId now) k) w held)
  | chosen (rawToken : String) (presentedClient : RefreshClient) (drawn : String) (env : Env)
      (record : RefreshToken) (k : Unit → Service TokenResponse) (held : List RowLock)
      (presented : Presented lib db rawToken held record)
      (loads : LoadsUser settings lib record drawn env (k ())) :
      TokenStage db (.rotate rawToken presentedClient drawn env)
        (.inside (.stmt (saveRefreshToken record.id (RefreshToken.revoke (env.now 0))) k)
          (fun x => x) held)
  | loading (rawToken : String) (presentedClient : RefreshClient) (drawn : String) (env : Env)
      (record : RefreshToken) (q : Service TokenResponse) (w : Database → Database)
      (held : List RowLock) (presented : Presented lib db rawToken held record)
      (loads : LoadsUser settings lib record drawn env q) (written : Revokes record (env.now 0) w) :
      TokenStage db (.rotate rawToken presentedClient drawn env) (.inside q w held)
  | inserting (rawToken : String) (presentedClient : RefreshClient) (drawn : String) (env : Env)
      (record : RefreshToken) (access : String) (q : Service TokenResponse)
      (w : Database → Database) (held : List RowLock)
      (presented : Presented lib db rawToken held record)
      (inserts : InsertsSuccessor (successor settings lib record drawn env)
        (.rotated access drawn record.client) q)
      (written : Revokes record (env.now 0) w) :
      TokenStage db (.rotate rawToken presentedClient drawn env) (.inside q w held)
  | committing (rawToken : String) (presentedClient : RefreshClient) (drawn : String) (env : Env)
      (record : RefreshToken) (access : String) (w : Database → Database) (held : List RowLock)
      (presented : Presented lib db rawToken held record)
      (fresh : FreshToken db (successor settings lib record drawn env))
      (idLocked : ⟨.refreshToken (env.uuid 0), .forUpdate⟩ ∈ held)
      (hashLocked : ⟨.tokenHash (lib.sha256 drawn), .forUpdate⟩ ∈ held)
      (written : ∀ x, (w x).refreshTokens =
        Table.update RefreshToken.id record.id (RefreshToken.revoke (env.now 0)) x.refreshTokens ++
          [successor settings lib record drawn env]) :
      TokenStage db (.rotate rawToken presentedClient drawn env)
        (.inside (.ret (.rotated access drawn record.client)) w held)
  | rotated (rawToken : String) (presentedClient : RefreshClient) (drawn : String) (env : Env)
      (access : String) (client : RefreshClient) (old new : RefreshToken)
      (oldMem : old ∈ db.refreshTokens) (oldHash : old.tokenHash = lib.sha256 rawToken)
      (oldRevoked : old.revokedAt ≠ none) (newMem : new ∈ db.refreshTokens)
      (newHash : new.tokenHash = lib.sha256 drawn) (user : new.userId = old.userId) :
      TokenStage db (.rotate rawToken presentedClient drawn env)
        (.finished (.ok (.rotated access drawn client)))

variable {settings lib} {db db' : Database} {c : TokenCall} {s : TokenSession}

theorem Presented.stable {rawToken : String} {held : List RowLock} {record : RefreshToken}
    (h : Presented lib db rawToken held record) (hsame : ∀ a ∈ held, sameTokens a db db') :
    Presented lib db' rawToken held record where
  mem := (hsame _ h.locked (by simp) record rfl).mp h.mem
  active := h.active
  hash := h.hash
  locked := h.locked

theorem Presented.mono {rawToken : String} {held held' : List RowLock} {record : RefreshToken}
    (h : Presented lib db rawToken held record) (hheld : ∀ a ∈ held, a ∈ held') :
    Presented lib db rawToken held' record where
  mem := h.mem
  active := h.active
  hash := h.hash
  locked := hheld _ h.locked

theorem FreshToken.stable {held : List RowLock} {t : RefreshToken} (h : FreshToken db t)
    (hid : ⟨.refreshToken t.id, .forUpdate⟩ ∈ held) (hhash : ⟨.tokenHash t.tokenHash, .forUpdate⟩ ∈ held)
    (hsame : ∀ a ∈ held, sameTokens a db db') : FreshToken db' t where
  id r hr he := h.id r ((hsame _ hid (by simp) r he).mpr hr) he
  hash r hr he := by
    obtain ⟨r₀, hr₀, he₀⟩ := (hsame _ hhash (by simp)).mpr ⟨r, hr, he⟩
    exact h.hash r₀ hr₀ he₀
  active := h.active

/-- Commits of other calls leave a stage as it is: they do not touch what its locks guard. -/
theorem TokenStage.stable (h : TokenStage settings lib db c s) (hmove : TokenMove db db')
    (hsame : ∀ a ∈ s.held, sameTokens a db db') : TokenStage settings lib db' c s := by
  cases h with
  | waiting => exact .waiting c
  | idle c hidle => exact .idle c hidle
  | found c p now ids update active => exact .found c p now ids update active
  | updating c p now done ids w held update active written locked =>
    exact .updating c p now done ids w held update active written locked
  | opened => exact .opened ..
  | reusing c userId now k w held raises => exact .reusing c userId now k w held raises
  | chosen _ _ _ _ record k held presented loads =>
    exact .chosen _ _ _ _ record k held (presented.stable hsame) loads
  | loading _ _ _ _ record q w held presented loads written =>
    exact .loading _ _ _ _ record q w held (presented.stable hsame) loads written
  | inserting _ _ _ _ record access q w held presented inserts written =>
    exact .inserting _ _ _ _ record access q w held (presented.stable hsame) inserts written
  | committing _ _ _ _ record access w held presented fresh idLocked hashLocked written =>
    exact .committing _ _ _ _ record access w held (presented.stable hsame)
      (fresh.stable idLocked hashLocked hsame) idLocked hashLocked written
  | rotated _ _ _ _ access client old new oldMem oldHash oldRevoked newMem newHash user =>
    obtain ⟨old', hold', _, _, _, hkept⟩ := hmove.kept oldMem
    have hsame' : old' = old := hkept oldRevoked
    rw [hsame'] at hold'
    obtain ⟨new', hnew', _, hhash', huser', _⟩ := hmove.kept newMem
    exact .rotated _ _ _ _ access client old new' hold' oldHash oldRevoked hnew'
      (hhash'.trans newHash) (huser'.trans user)

structure Advances (settings : Settings) (lib : TokenLib) (db : Database) (c : TokenCall)
    (s : TokenSession) : Prop where
  move : TokenMove db (s.advance db).1
  stage : TokenStage settings lib (s.advance db).1 c (s.advance db).2
  within : ChangesWithin sameTokens (s.wants db ++ s.held) db (s.advance db).1

theorem Advances.of_same (same : (s.advance db).1 = db)
    (stage : TokenStage settings lib db c (s.advance db).2) : Advances settings lib db c s where
  move := .keeps (by rw [same])
  stage := by
    rw [same]
    exact stage
  within := changesWithin_keeps (by rw [same])

theorem Idle.advance (h : Idle s) (db : Database) :
    (s.advance db).1 = db ∧ Idle (s.advance db).2 := by
  cases h with
  | answered r other =>
    refine ⟨rfl, .ended _ ?_⟩
    intro access raw client he
    exact other access raw client (Except.ok.inj he)
  | refused e => exact ⟨rfl, .ended _ (fun _ _ _ he => by cases he)⟩
  | failing e w held => exact ⟨rfl, .ended _ (fun _ _ _ he => by cases he)⟩
  | ended r other => exact ⟨rfl, .ended r other⟩

theorem advances_insert {t : RefreshToken} {k : Option Constraint → Service TokenResponse}
    (hactive : t.revokedAt = none) (hidle : ∀ v, Idle (.auto (k v))) :
    Advances settings lib db c (.auto (.stmt (insertRefreshToken t) k)) := by
  have hcommitted : ((Session.auto (.stmt (insertRefreshToken t) k) : TokenSession).advance db).1 =
      if refreshTokenViolation db t = none then
        { db with refreshTokens := db.refreshTokens ++ [t] }
      else db := rfl
  by_cases hfresh : refreshTokenViolation db t = none
  · rw [if_pos hfresh] at hcommitted
    have hrows : ((Session.auto (.stmt (insertRefreshToken t) k) : TokenSession).advance
        db).1.refreshTokens = db.refreshTokens ++ [t] := by rw [hcommitted]
    refine ⟨?_, .idle c (hidle _), ?_⟩
    · refine .write (fun _ => false) 0 (some t) (fun _ _ h => by cases h) ?_ ?_
      · intro t' ht'
        cases ht'
        exact (freshToken_iff hactive).mp hfresh
      · rw [hrows]
        simp [Table.updateWhere]
    · exact changesWithin_insert t (by simp [Session.wants, insertRefreshToken])
        (by simp [Session.wants, insertRefreshToken]) hrows
  · rw [if_neg hfresh] at hcommitted
    exact .of_same hcommitted (.idle c (hidle _))

theorem advances_find {p : RefreshToken → Bool} {now : Time} (hupdate : c.isUpdate = true)
    (hactive : ∀ t : RefreshToken, p t = true → t.revokedAt = none) :
    Advances settings lib db c (.auto ((updateTokens p (RefreshToken.revoke now) (.ret ())).map
      fun _ => .revoked)) := by
  refine .of_same rfl ?_
  change TokenStage settings lib db c (.auto (.transaction ((updateTokenRows p _ _ _).map _)))
  rw [updateTokenRows_map]
  exact .found c p now _ hupdate hactive

theorem advances_waiting (c : TokenCall) :
    Advances settings lib db c (.auto (c.prog settings lib)) := by
  cases c with
  | issue user client drawn env =>
    apply advances_insert rfl
    intro v
    cases v with
    | none => exact .answered _ (fun _ _ _ h => by cases h)
    | some violated => exact .refused _
  | rotate rawToken presentedClient drawn env => exact .of_same rfl (.opened ..)
  | revoke rawToken env => exact advances_find rfl (activeWithHash_active _)
  | revokeAll userId env => exact advances_find rfl (activeOf_active _)

theorem advances_updating {p : RefreshToken → Bool} {now : Time} {done ids : List UUID}
    {w : Database → Database} {held : List RowLock} (update : c.isUpdate = true)
    (active : ∀ t : RefreshToken, p t = true → t.revokedAt = none)
    (written : ∀ x, (w x).refreshTokens =
      updatedTokens p (RefreshToken.revoke now) done x.refreshTokens)
    (locked : ∀ id ∈ done, ⟨.refreshToken id, .forNoKeyUpdate⟩ ∈ held) :
    Advances settings lib db c
      (.inside (updateTokenRows p (RefreshToken.revoke now) (.ret .revoked) ids) w held) := by
  cases ids with
  | nil =>
    refine ⟨?_, .idle c (.ended _ (fun _ _ _ h => by cases h)), ?_⟩
    · refine .write (fun t => done.contains t.id && p t) now none ?_ (fun _ h => by cases h) ?_
      · intro t _ ht
        exact active t (Bool.and_eq_true_iff.mp ht).2
      · rw [Option.toList_none, List.append_nil]
        exact written db
    · refine changesWithin_update (fun t => done.contains t.id && p t) now ?_ (written db)
      intro t _ ht
      have hmem : t.id ∈ done := List.contains_iff_mem.mp (Bool.and_eq_true_iff.mp ht).1
      exact ⟨.forNoKeyUpdate, by simp, locked t.id hmem⟩
  | cons id ids =>
    refine .of_same rfl (.updating c p now (done ++ [id]) ids _ _ update active ?_ ?_)
    · intro x
      rw [← updateRow_updatedTokens (revoke_dequalifies active), ← written]
      rfl
    · intro id' hid'
      rcases List.mem_append.mp hid' with hdone | hnow
      · exact List.mem_append_right _ (locked id' hdone)
      · rw [List.mem_singleton.mp hnow]
        exact List.mem_append_left _ (by simp [updateTokenRow])

section Rotation
variable {rawToken : String} {presentedClient : RefreshClient} {drawn : String} {env : Env}
  {record : RefreshToken} {access : String} {w : Database → Database} {held : List RowLock}

theorem loadsUser_source (record : RefreshToken) :
    LoadsUser settings lib record drawn env
      (.map .ofPair (.stmt (selectUser record.userId) fun user? =>
        match user? with
        | none => .raise .doesNotExist
        | some user =>
          let newAccess := createAccessToken settings (lib.drawing drawn) user (env.now 1)
          (issueRefreshToken settings (lib.drawing drawn) user record.client (env.uuid 0)
            (env.now 2)).bind fun newRefresh => .ret (newAccess, newRefresh, record.client))) := by
  refine .mk _ rfl ?_
  intro user huser
  refine ⟨createAccessToken settings (lib.drawing drawn) user (env.now 1), ?_⟩
  have hsuccessor : successor settings lib record drawn env =
      { id := env.uuid 0
        userId := user.id
        tokenHash := lib.sha256 drawn
        client := record.client
        expiresAt := env.now 2 + days settings.refreshTokenExpireDays
        revokedAt := none } := by
    rw [huser]
    rfl
  rw [hsuccessor]
  exact .mk _ rfl (fun _ => rfl)

theorem advances_opened : Advances settings lib db (.rotate rawToken presentedClient drawn env)
    (.inside ((rotateInTransaction settings (lib.drawing drawn) rawToken presentedClient env).map
      .ofPair) (fun x => x) []) := by
  refine .of_same rfl ?_
  simp only [rotateInTransaction, Prog.map, bind_stmt, Session.advance, selectRefreshTokenForUpdate]
  cases hfound : db.refreshToken? (lib.sha256 rawToken) with
  | none =>
    rw [TokenLib.drawing, hfound]
    exact .idle _ (.failing _ _ _)
  | some record =>
    rw [TokenLib.drawing, hfound]
    simp only
    split_ifs with hexpired hrevoked hclient
    · exact .idle _ (.failing _ _ _)
    · exact .reusing _ _ _ _ _ _ rfl
    · exact .idle _ (.failing _ _ _)
    · have hpresented : Presented lib db rawToken [⟨.refreshToken record.id, .forUpdate⟩] record :=
        { mem := Table.lookup_mem hfound
          active := not_not.mp hrevoked
          hash := Table.lookup_key hfound
          locked := List.mem_singleton_self _ }
      exact .chosen _ _ _ _ record _ _ hpresented (loadsUser_source record)

theorem advances_chosen {k : Unit → Service TokenResponse}
    (presented : Presented lib db rawToken held record)
    (loads : LoadsUser settings lib record drawn env (k ())) :
    Advances settings lib db (.rotate rawToken presentedClient drawn env)
      (.inside (.stmt (saveRefreshToken record.id (RefreshToken.revoke (env.now 0))) k)
        (fun x => x) held) := by
  refine .of_same rfl (.loading _ _ _ _ record _ _ _ ?_ loads (fun x => rfl))
  exact presented.mono (fun a ha => List.mem_append_right _ ha)

theorem advances_loading {q : Service TokenResponse}
    (presented : Presented lib db rawToken held record)
    (loads : LoadsUser settings lib record drawn env q) (written : Revokes record (env.now 0) w) :
    Advances settings lib db (.rotate rawToken presentedClient drawn env) (.inside q w held) := by
  cases loads with
  | mk k missing found =>
    refine .of_same rfl ?_
    change TokenStage settings lib db _
      (.inside (k (Table.lookup User.id record.userId (w db).users)) w held)
    cases huser : Table.lookup User.id record.userId (w db).users with
    | none =>
      rw [missing]
      exact .idle _ (.failing _ _ _)
    | some user =>
      obtain ⟨access, hinserts⟩ := found user (Table.lookup_key huser)
      exact .inserting _ _ _ _ record access _ w held presented hinserts written

theorem Revokes.fresh {now : Time} {t : RefreshToken} (h : Revokes record now w)
    (hfresh : FreshToken (w db) t) : FreshToken db t where
  id r hr he := by
    obtain ⟨r', hr', he'⟩ := (Table.exists_update RefreshToken.id (k := record.id)
      (f := RefreshToken.revoke now) (fun _ => rfl)).mpr ⟨r, hr, he⟩
    rw [← h db] at hr'
    exact hfresh.id r' hr' he'
  hash r hr he := by
    obtain ⟨r', hr', he'⟩ := (Table.exists_update RefreshToken.tokenHash (k := record.id)
      (f := RefreshToken.revoke now) (fun _ => rfl)).mpr ⟨r, hr, he⟩
    rw [← h db] at hr'
    exact hfresh.hash r' hr' he'
  active := hfresh.active

theorem advances_inserting {q : Service TokenResponse}
    (presented : Presented lib db rawToken held record)
    (inserts : InsertsSuccessor (successor settings lib record drawn env)
      (.rotated access drawn record.client) q)
    (written : Revokes record (env.now 0) w) :
    Advances settings lib db (.rotate rawToken presentedClient drawn env) (.inside q w held) := by
  cases inserts with
  | mk k inserted violated =>
    refine .of_same rfl ?_
    simp only [Session.advance]
    cases hviolation : refreshTokenViolation (w db) (successor settings lib record drawn env) with
    | some violation =>
      have hraise : k ((insertRefreshToken (successor settings lib record drawn env)).result (w db)) =
          .raise (.integrityError violation) := by
        rw [← violated violation, ← hviolation]
        rfl
      rw [hraise]
      exact .idle _ (.failing _ _ _)
    | none =>
      have hret : k ((insertRefreshToken (successor settings lib record drawn env)).result (w db)) =
          .ret (.rotated access drawn record.client) := by
        rw [← inserted, ← hviolation]
        rfl
      rw [hret]
      refine .committing _ _ _ _ record access _ _
        (presented.mono (fun a ha => List.mem_append_right _ ha))
        (written.fresh ((freshToken_iff rfl).mp hviolation)) ?_ ?_ ?_
      · exact List.mem_append_left _ (by simp [insertRefreshToken, successor])
      · exact List.mem_append_left _ (by simp [insertRefreshToken, successor])
      · intro x
        simp only [insertRefreshToken, hviolation, if_true, written x]

theorem advances_committing (hunique : TokensUnique db)
    (presented : Presented lib db rawToken held record)
    (fresh : FreshToken db (successor settings lib record drawn env))
    (idLocked : ⟨.refreshToken (env.uuid 0), .forUpdate⟩ ∈ held)
    (hashLocked : ⟨.tokenHash (lib.sha256 drawn), .forUpdate⟩ ∈ held)
    (written : ∀ x, (w x).refreshTokens =
      Table.update RefreshToken.id record.id (RefreshToken.revoke (env.now 0)) x.refreshTokens ++
        [successor settings lib record drawn env]) :
    Advances settings lib db (.rotate rawToken presentedClient drawn env)
      (.inside (.ret (.rotated access drawn record.client)) w held) := by
  have hrows := written db
  rw [Table.update_eq_updateWhere] at hrows
  have honly : ∀ t ∈ db.refreshTokens, decide (t.id = record.id) = true → t = record :=
    fun t ht hid => hunique.ids.eq_of_key ht presented.mem (of_decide_eq_true hid)
  refine ⟨?_, ?_, ?_⟩
  · refine .write _ _ (some (successor settings lib record drawn env)) ?_ ?_ hrows
    · intro t ht hid
      rw [honly t ht hid]
      exact presented.active
    · intro t ht
      cases ht
      exact fresh
  · have hold : record.revoke (env.now 0) ∈ (w db).refreshTokens := by
      rw [hrows]
      exact List.mem_append_left _ (List.mem_map.mpr ⟨record, presented.mem, by simp⟩)
    have hnew : successor settings lib record drawn env ∈ (w db).refreshTokens := by
      rw [hrows]
      exact List.mem_append_right _ (List.mem_singleton_self _)
    exact .rotated _ _ _ _ access record.client _ _ hold presented.hash (by simp [RefreshToken.revoke])
      hnew rfl rfl
  · let revoked : Database := { db with
      refreshTokens := Table.updateWhere (fun t => decide (t.id = record.id))
        (RefreshToken.revoke (env.now 0)) db.refreshTokens }
    apply ChangesWithin.trans (y := revoked)
    · refine changesWithin_update _ (env.now 0) ?_ rfl
      intro t ht hid
      rw [honly t ht hid]
      exact ⟨.forUpdate, by simp, presented.locked⟩
    · exact changesWithin_insert _ idLocked hashLocked hrows

end Rotation

theorem TokenStage.advance (h : TokenStage settings lib db c s) (hunique : TokensUnique db) :
    Advances settings lib db c s := by
  cases h with
  | waiting => exact advances_waiting c
  | idle c hidle => exact .of_same (hidle.advance db).1 (.idle c (hidle.advance db).2)
  | found c p now ids update active =>
    exact .of_same rfl (.updating c p now [] ids _ _ update active
      (fun x => (updatedTokens_nil _).symm) (fun _ h => by cases h))
  | updating c p now done ids w held update active written locked =>
    exact advances_updating update active written locked
  | opened => exact advances_opened
  | reusing c userId now k w held raises =>
    refine .of_same rfl (.idle c ?_)
    simp only [Session.advance, raises]
    exact .failing _ _ _
  | chosen _ _ _ _ record k held presented loads => exact advances_chosen presented loads
  | loading _ _ _ _ record q w held presented loads written =>
    exact advances_loading presented loads written
  | inserting _ _ _ _ record access q w held presented inserts written =>
    exact advances_inserting presented inserts written
  | committing _ _ _ _ record access w held presented fresh idLocked hashLocked written =>
    exact advances_committing hunique presented fresh idLocked hashLocked written
  | rotated raw client drawn env access client old new oldMem oldHash oldRevoked newMem newHash user =>
    exact .of_same rfl (.rotated _ _ _ _ access client old new oldMem oldHash oldRevoked newMem
      newHash user)

theorem TokenStage.rotate_cases {rawToken : String} {presentedClient : RefreshClient}
    {drawn : String} {env : Env}
    (h : TokenStage settings lib db (.rotate rawToken presentedClient drawn env) s)
    (hrunning : s.isFinished = false) :
    ((s.advance db).1.refreshTokens = db.refreshTokens ∧
        ∀ access raw client, (s.advance db).2 ≠ .finished (.ok (.rotated access raw client))) ∨
      ∃ record access held, Presented lib db rawToken held record ∧
        FreshToken db (successor settings lib record drawn env) ∧
        (s.advance db).2 = .finished (.ok (.rotated access drawn record.client)) ∧
        (s.advance db).1.refreshTokens =
          Table.update RefreshToken.id record.id (RefreshToken.revoke (env.now 0)) db.refreshTokens ++
            [successor settings lib record drawn env] := by
  cases h with
  | waiting => exact Or.inl ⟨rfl, fun _ _ _ h => by cases h⟩
  | idle c hidle =>
    left
    refine ⟨by rw [(hidle.advance db).1], ?_⟩
    intro access raw client hdone
    have hnext := (hidle.advance db).2
    rw [hdone] at hnext
    cases hnext with
    | ended r other => exact other access raw client rfl
  | found c p now ids update => cases update
  | updating c p now done ids w held update => cases update
  | opened => exact Or.inl ⟨rfl, fun _ _ _ h => by cases h⟩
  | reusing => exact Or.inl ⟨rfl, fun _ _ _ h => by cases h⟩
  | chosen => exact Or.inl ⟨rfl, fun _ _ _ h => by cases h⟩
  | loading _ _ _ _ record q w held presented loads =>
    cases loads with
    | mk k missing found => exact Or.inl ⟨rfl, fun _ _ _ h => by cases h⟩
  | inserting _ _ _ _ record access q w held presented inserts =>
    cases inserts with
    | mk k inserted violated => exact Or.inl ⟨rfl, fun _ _ _ h => by cases h⟩
  | committing _ _ _ _ record access w held presented fresh idLocked hashLocked written =>
    exact Or.inr ⟨record, access, held, presented, fresh, rfl, written db⟩
  | rotated => cases hrunning

/-- Calls on refresh tokens keep the discipline of their row locks. -/
theorem token_discipline {ι : Type} (settings : Settings) (lib : TokenLib) (calls : ι → TokenCall) :
    Discipline sameTokens TokenMove
      (fun db i s => TokensUnique db ∧ TokenStage settings lib db (calls i) s) where
  symm := RowLock.conflict_comm
  advance db i s h _ := by
    have hadvances := h.2.advance h.1
    exact ⟨hadvances.move, ⟨hadvances.move.unique h.1, hadvances.stage⟩, hadvances.within⟩
  stable db db' i s h hmove hsame := ⟨hmove.unique h.1, h.2.stable hmove hsame⟩

end Stages
end Hefest
