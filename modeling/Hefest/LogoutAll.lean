import Mathlib.Data.Fintype.Option
import Hefest.TokenChains

set_option autoImplicit false

/-!
# Logging out everywhere beside rotations

The UPDATE of `revoke_all_for_user` revokes the rows of its snapshot. `SinceSnapshot` says what
becomes of the tokens after it: the rows that rotations add are out of its reach.
-/
namespace Hefest
open Transition Transaction

structure Rotation where
  rawToken : String
  presentedClient : RefreshClient
  drawn : String
  env : Env

def Rotation.call (r : Rotation) : TokenCall :=
  .rotate r.rawToken r.presentedClient r.drawn r.env

section Logout
variable {ι : Type} [Fintype ι] [DecidableEq ι]

def logoutCalls (userId : UUID) (env : Env) (rotations : ι → Rotation) : Option ι → TokenCall
  | none => .revokeAll userId env
  | some i => (rotations i).call

variable (settings : Settings) (lib : TokenLib) (userId : UUID) (env : Env) (rotations : ι → Rotation)
  (S₁ S : TokenSystem (Option ι))

/-- Every token of the user that was active in `S₁`, and whatever it has become by rotation since,
    is revoked. -/
def NoSurvivor : Prop :=
  ∀ t ∈ S₁.committed.refreshTokens, t.userId = userId → t.revokedAt = none →
    ∀ t' ∈ S.committed.refreshTokens,
      InChain lib (logoutCalls userId env rotations) S t.tokenHash t'.tokenHash →
        t'.revokedAt ≠ none

/-- Every rotation of a token of the user that has succeeded in `S` had committed in `S₁`. -/
def RotatedBefore : Prop :=
  ∀ i hash hash', RotatedBy lib (logoutCalls userId env rotations) S i hash hash' →
    (∃ t ∈ S.committed.refreshTokens, t.tokenHash = hash ∧ t.userId = userId) →
      RotatedBy lib (logoutCalls userId env rotations) S₁ i hash hash'

/-- The UPDATE has found the rows `ids` in its snapshot. -/
inductive LogoutPhase (ids : List UUID) : TokenSession → Prop
  | found : LogoutPhase ids (.auto (.transaction (updateTokenRows (RefreshToken.activeOf userId)
      (RefreshToken.revoke (env.now 0)) (.ret .revoked) ids)))
  | updating (done rest : List UUID) (w : Database → Database) (held : List RowLock)
      (rows : done ++ rest = ids)
      (written : ∀ x, (w x).refreshTokens = updatedTokens (RefreshToken.activeOf userId)
        (RefreshToken.revoke (env.now 0)) done x.refreshTokens) :
      LogoutPhase ids (.inside (updateTokenRows (RefreshToken.activeOf userId)
        (RefreshToken.revoke (env.now 0)) (.ret .revoked) rest) w held)
  | ended : LogoutPhase ids (.finished (.ok .revoked))

variable {settings lib userId env rotations S₁ S} {ids : List UUID}

theorem LogoutPhase.advance {s : TokenSession} (h : LogoutPhase userId env ids s)
    (hrunning : s.isFinished = false) (db : Database) :
    LogoutPhase userId env ids (s.advance db).2 ∧
      (((s.advance db).1 = db ∧ (s.advance db).2.isFinished = false) ∨
        (s.advance db).1.refreshTokens = updatedTokens (RefreshToken.activeOf userId)
          (RefreshToken.revoke (env.now 0)) ids db.refreshTokens) := by
  cases h with
  | found =>
    refine ⟨.updating [] ids _ _ rfl (fun x => (updatedTokens_nil _).symm), Or.inl ⟨rfl, rfl⟩⟩
  | updating done rest w held rows written =>
    cases rest with
    | nil =>
      rw [List.append_nil] at rows
      subst rows
      exact ⟨.ended, Or.inr (written db)⟩
    | cons id rest =>
      refine ⟨.updating (done ++ [id]) rest _ _ (by rw [← rows]; simp) ?_, Or.inl ⟨rfl, rfl⟩⟩
      intro x
      rw [← updateRow_updatedTokens (revoke_dequalifies (activeOf_active userId)), ← written]
      rfl
  | ended => cases hrunning

omit [Fintype ι] [DecidableEq ι] in
variable (settings lib userId env rotations) in
theorem logoutPhase_start (db : Database) :
    let first := (Session.auto ((logoutCalls userId env rotations none).prog settings lib)).advance db
    first.1 = db ∧ first.2.isFinished = false ∧ LogoutPhase userId env
      ((db.refreshTokens.filter (RefreshToken.activeOf userId)).map RefreshToken.id) first.2 := by
  refine ⟨rfl, rfl, ?_⟩
  change LogoutPhase userId env _ (.auto (.transaction ((updateTokenRows _ _ _ _).map _)))
  rw [updateTokenRows_map]
  exact .found

inductive LogoutStep (lib : TokenLib) (userId : UUID) (env : Env) (rotations : ι → Rotation)
    (ids : List UUID) (T U : TokenSystem (Option ι)) : Prop
  | quiet (rows : U.committed.refreshTokens = T.committed.refreshTokens)
      (rotated : ∀ i hash hash', RotatedBy lib (logoutCalls userId env rotations) U i hash hash' ↔
        RotatedBy lib (logoutCalls userId env rotations) T i hash hash')
      (logout : (U.session none).isFinished = (T.session none).isFinished)
  | revokes (rows : U.committed.refreshTokens = updatedTokens (RefreshToken.activeOf userId)
        (RefreshToken.revoke (env.now 0)) ids T.committed.refreshTokens)
      (rotated : ∀ i hash hash', RotatedBy lib (logoutCalls userId env rotations) U i hash hash' ↔
        RotatedBy lib (logoutCalls userId env rotations) T i hash hash')
  | rotates (j : Option ι) (record t : RefreshToken) (now : Time)
      (mem : record ∈ T.committed.refreshTokens) (active : record.revokedAt = none)
      (user : t.userId = record.userId) (fresh : FreshToken T.committed t)
      (rows : U.committed.refreshTokens = Table.update RefreshToken.id record.id
        (RefreshToken.revoke now) T.committed.refreshTokens ++ [t])
      (finished : RotatedBy lib (logoutCalls userId env rotations) U j record.tokenHash t.tokenHash)
      (only : ∀ hash hash', RotatedBy lib (logoutCalls userId env rotations) U j hash hash' →
        hash' = t.tokenHash)
      (rotated : ∀ i hash hash', i ≠ j →
        (RotatedBy lib (logoutCalls userId env rotations) U i hash hash' ↔
          RotatedBy lib (logoutCalls userId env rotations) T i hash hash'))
      (logout : (U.session none).isFinished = (T.session none).isFinished)

variable {T U : TokenSystem (Option ι)} {os : List (Option ι)}

omit [Fintype ι] [DecidableEq ι] in
theorem not_rotatedBy_none {hash hash' : String} :
    ¬ RotatedBy lib (logoutCalls userId env rotations) T none hash hash' := by
  rintro ⟨_, _, _, _, _, _, hcall, _⟩
  cases hcall

omit [Fintype ι] [DecidableEq ι] in
theorem not_rotatedBy_running {i : Option ι} (hrunning : (T.session i).isFinished = false)
    {hash hash' : String} : ¬ RotatedBy lib (logoutCalls userId env rotations) T i hash hash' := by
  rintro ⟨_, _, _, _, _, _, _, hdone, _⟩
  rw [hdone] at hrunning
  cases hrunning

theorem rotatedBy_logout (hs : step T none = some (U, os)) :
    ∀ i hash hash', RotatedBy lib (logoutCalls userId env rotations) U i hash hash' ↔
      RotatedBy lib (logoutCalls userId env rotations) T i hash hash' := by
  intro i hash hash'
  cases i with
  | none => exact iff_of_false not_rotatedBy_none not_rotatedBy_none
  | some i => exact RotatedBy.other (by simp) hs

theorem logoutStep_logout (hphase : LogoutPhase userId env ids (T.session none))
    (hs : step T none = some (U, os)) :
    LogoutPhase userId env ids (U.session none) ∧ LogoutStep lib userId env rotations ids T U := by
  obtain ⟨hrunning, _, hcommitted, hsession⟩ := step_cases hs
  have hnext := hphase.advance hrunning T.committed
  have hnone : U.session none = ((T.session none).advance T.committed).2 := by
    rw [hsession, Function.update_self]
  refine ⟨by rw [hnone]; exact hnext.1, ?_⟩
  rcases hnext.2 with ⟨hsame, hgoing⟩ | hrows
  · refine .quiet (by rw [hcommitted, hsame]) (rotatedBy_logout hs) ?_
    rw [hnone, hgoing, hrunning]
  · exact .revokes (by rw [hcommitted, hrows]) (rotatedBy_logout hs)

theorem logoutStep_rotation (hT : TokensStaged settings lib (logoutCalls userId env rotations) T)
    {i : ι} (hs : step T (some i) = some (U, os)) :
    U.session none = T.session none ∧ LogoutStep lib userId env rotations ids T U := by
  obtain ⟨hrunning, _, hcommitted, hsession⟩ := step_cases hs
  have hlogout : U.session none = T.session none := by
    rw [hsession, Function.update_of_ne (by simp)]
  have hmine : U.session (some i) = ((T.session (some i)).advance T.committed).2 := by
    rw [hsession, Function.update_self]
  have hothers : ∀ j hash hash', j ≠ some i →
      (RotatedBy lib (logoutCalls userId env rotations) U j hash hash' ↔
        RotatedBy lib (logoutCalls userId env rotations) T j hash hash') :=
    fun j hash hash' hj => RotatedBy.other hj hs
  refine ⟨hlogout, ?_⟩
  rcases (hT.stage (some i)).rotate_cases hrunning with
    ⟨hsame, hnone⟩ | ⟨record, access, held, hrecord, hfresh, hdone, hrows⟩
  · refine .quiet (by rw [hcommitted, hsame]) ?_ (by rw [hlogout])
    intro j hash hash'
    by_cases hj : j = some i
    · subst hj
      refine iff_of_false ?_ (not_rotatedBy_running hrunning)
      rintro ⟨_, _, _, _, access, client, _, hdone, _⟩
      rw [hmine] at hdone
      exact hnone _ _ _ hdone
    · exact hothers j hash hash' hj
  · refine .rotates (some i) record (successor settings lib record (rotations i).drawn (rotations i).env)
      ((rotations i).env.now 0) hrecord.mem hrecord.active rfl hfresh (by rw [hcommitted, hrows])
      ?_ ?_ hothers (by rw [hlogout])
    · exact ⟨_, _, _, _, access, record.client, rfl, by rw [hmine, hdone], hrecord.hash.symm, rfl⟩
    · rintro hash hash' ⟨_, _, _, _, _, _, hcall, _, _, rfl⟩
      cases hcall
      rfl

theorem logoutStep (hT : TokensStaged settings lib (logoutCalls userId env rotations) T)
    (hphase : LogoutPhase userId env ids (T.session none)) {k : Option ι}
    (hs : step T k = some (U, os)) :
    LogoutPhase userId env ids (U.session none) ∧ LogoutStep lib userId env rotations ids T U := by
  cases k with
  | none => exact logoutStep_logout hphase hs
  | some i =>
    obtain ⟨hlogout, hstep⟩ := logoutStep_rotation hT hs
    rw [hlogout]
    exact ⟨hphase, hstep⟩

def NewToken (S₁ : TokenSystem (Option ι)) (t : RefreshToken) : Prop :=
  ∀ r ∈ S₁.committed.refreshTokens, r.tokenHash ≠ t.tokenHash

omit [Fintype ι] [DecidableEq ι] in
theorem NewToken.congr {t t₀ : RefreshToken} (h : NewToken S₁ t) (hhash : t₀.tokenHash = t.tokenHash) :
    NewToken S₁ t₀ := by
  intro r hr
  rw [hhash]
  exact h r hr

/-- Old rows stay. A new row of the user descends from a token that was active, and it has an
    active descendant. A rotation that has succeeded since has added a new row. Once the UPDATE is
    over, no old row of the user is active. -/
structure SinceSnapshot (lib : TokenLib) (userId : UUID) (env : Env) (rotations : ι → Rotation)
    (S₁ S : TokenSystem (Option ι)) : Prop where
  kept : ∀ r ∈ S₁.committed.refreshTokens, ∃ t ∈ S.committed.refreshTokens, t.id = r.id ∧
    t.tokenHash = r.tokenHash ∧ t.userId = r.userId ∧ (r.revokedAt ≠ none → t = r)
  born : ∀ t ∈ S.committed.refreshTokens, NewToken S₁ t → t.userId = userId →
    ∃ r ∈ S₁.committed.refreshTokens, r.userId = userId ∧ r.revokedAt = none ∧
      InChain lib (logoutCalls userId env rotations) S r.tokenHash t.tokenHash
  alive : ∀ t ∈ S.committed.refreshTokens, NewToken S₁ t →
    ∃ t' ∈ S.committed.refreshTokens, NewToken S₁ t' ∧ t'.revokedAt = none ∧
      InChain lib (logoutCalls userId env rotations) S t.tokenHash t'.tokenHash
  late : ∀ i hash hash', RotatedBy lib (logoutCalls userId env rotations) S i hash hash' →
    RotatedBy lib (logoutCalls userId env rotations) S₁ i hash hash' ∨
      ∀ r ∈ S₁.committed.refreshTokens, r.tokenHash ≠ hash'
  revoked : (S.session none).isFinished = true → ∀ r ∈ S₁.committed.refreshTokens,
    r.userId = userId → ∃ t ∈ S.committed.refreshTokens, t.tokenHash = r.tokenHash ∧
      t.revokedAt ≠ none

section Preserved
variable {k : Option ι} (hT : TokensStaged settings lib (logoutCalls userId env rotations) T)
  (hs : step T k = some (U, os)) (h : SinceSnapshot lib userId env rotations S₁ T)

include hT hs h in
theorem SinceSnapshot.kept_step : ∀ r ∈ S₁.committed.refreshTokens,
    ∃ t ∈ U.committed.refreshTokens, t.id = r.id ∧ t.tokenHash = r.tokenHash ∧
      t.userId = r.userId ∧ (r.revokedAt ≠ none → t = r) := by
  intro r hr
  obtain ⟨t, ht, hid, hhash, huser, hsame⟩ := h.kept r hr
  obtain ⟨t', ht', hid', hhash', huser', hsame'⟩ := (hT.turn hs).2.kept ht
  refine ⟨t', ht', hid'.trans hid, hhash'.trans hhash, huser'.trans huser, ?_⟩
  intro hrevoked
  have htr := hsame hrevoked
  rw [htr] at hsame'
  exact hsame' hrevoked

omit [Fintype ι] [DecidableEq ι] in
include h in
theorem SinceSnapshot.new_of_fresh {t : RefreshToken} (hfresh : FreshToken T.committed t) :
    NewToken S₁ t := by
  intro r hr he
  obtain ⟨t', ht', _, hhash, _⟩ := h.kept r hr
  exact hfresh.hash t' ht' (hhash.trans he)

omit [Fintype ι] [DecidableEq ι] in
include hT h in
theorem SinceSnapshot.id_of_new {t : RefreshToken} (ht : t ∈ T.committed.refreshTokens)
    (hnew : NewToken S₁ t) {r : RefreshToken} (hr : r ∈ S₁.committed.refreshTokens) : t.id ≠ r.id := by
  intro hid
  obtain ⟨t', ht', hid', hhash, _⟩ := h.kept r hr
  have hsame := hT.unique.ids.eq_of_key ht' ht (hid'.trans hid.symm)
  rw [hsame] at hhash
  exact hnew r hr hhash.symm

omit [Fintype ι] in
include h in
theorem SinceSnapshot.late_step (hstep : LogoutStep lib userId env rotations ids T U) :
    ∀ i hash hash', RotatedBy lib (logoutCalls userId env rotations) U i hash hash' →
      RotatedBy lib (logoutCalls userId env rotations) S₁ i hash hash' ∨
        ∀ r ∈ S₁.committed.refreshTokens, r.tokenHash ≠ hash' := by
  intro i hash hash' hi
  cases hstep with
  | quiet rows rotated logout => exact h.late i hash hash' ((rotated i hash hash').mp hi)
  | revokes rows rotated => exact h.late i hash hash' ((rotated i hash hash').mp hi)
  | rotates j record t now mem active user fresh rows finished only rotated logout =>
    by_cases hij : i = j
    · right
      rw [hij] at hi
      rw [only hash hash' hi]
      exact h.new_of_fresh fresh
    · exact h.late i hash hash' ((rotated i hash hash' hij).mp hi)

omit [Fintype ι] [DecidableEq ι] in
/-- Every row comes from one that was there, or is the one just added. -/
theorem LogoutStep.row (hstep : LogoutStep lib userId env rotations ids T U) {t : RefreshToken}
    (ht : t ∈ U.committed.refreshTokens) :
    (∃ t₀ ∈ T.committed.refreshTokens, t₀.tokenHash = t.tokenHash ∧ t₀.userId = t.userId) ∨
      ∃ record ∈ T.committed.refreshTokens, record.revokedAt = none ∧
        t.revokedAt = none ∧ t.userId = record.userId ∧
        Rotated lib (logoutCalls userId env rotations) U record.tokenHash t.tokenHash := by
  cases hstep with
  | quiet rows rotated logout =>
    rw [rows] at ht
    exact Or.inl ⟨t, ht, rfl, rfl⟩
  | revokes rows rotated =>
    rw [rows, updatedTokens, Table.mem_updateWhere] at ht
    rcases ht with ⟨ht, _⟩ | ⟨t₀, ht₀, _, rfl⟩
    · exact Or.inl ⟨t, ht, rfl, rfl⟩
    · exact Or.inl ⟨t₀, ht₀, rfl, rfl⟩
  | rotates j record new now mem active user fresh rows finished only rotated logout =>
    rw [rows, List.mem_append, List.mem_singleton, Table.mem_update] at ht
    rcases ht with (⟨ht, _⟩ | ⟨t₀, ht₀, _, rfl⟩) | rfl
    · exact Or.inl ⟨t, ht, rfl, rfl⟩
    · exact Or.inl ⟨t₀, ht₀, rfl, rfl⟩
    · exact Or.inr ⟨record, mem, active, fresh.active, user, j, finished⟩

include hT hs h in
theorem SinceSnapshot.born_step (hstep : LogoutStep lib userId env rotations ids T U) :
    ∀ t ∈ U.committed.refreshTokens, NewToken S₁ t → t.userId = userId →
      ∃ r ∈ S₁.committed.refreshTokens, r.userId = userId ∧ r.revokedAt = none ∧
        InChain lib (logoutCalls userId env rotations) U r.tokenHash t.tokenHash := by
  intro t ht hnew huser
  rcases hstep.row ht with ⟨t₀, ht₀, hhash, huser₀⟩ | ⟨record, hmem, hactive, _, hrecord, hrotated⟩
  · obtain ⟨r, hr, hruser, hractive, hchain⟩ :=
      h.born t₀ ht₀ (hnew.congr hhash) (huser₀.trans huser)
    rw [hhash] at hchain
    exact ⟨r, hr, hruser, hractive, hchain.mono hs⟩
  · rw [hrecord] at huser
    by_cases hold : NewToken S₁ record
    · obtain ⟨r, hr, hruser, hractive, hchain⟩ := h.born record hmem hold huser
      exact ⟨r, hr, hruser, hractive, (hchain.mono hs).tail hrotated⟩
    · -- the rotated row was there, and still active
      simp only [NewToken, not_forall, not_not] at hold
      obtain ⟨r, hr, hhash⟩ := hold
      obtain ⟨t', ht', _, hhash', huser', hsame⟩ := h.kept r hr
      have heq : t' = record := hT.unique.hashes.eq_of_key ht' hmem (hhash'.trans hhash)
      rw [heq] at huser' hsame
      refine ⟨r, hr, huser'.symm.trans huser, ?_, ?_⟩
      · by_contra hrevoked
        rw [hsame hrevoked] at hactive
        exact hrevoked hactive
      · rw [hhash]
        exact Relation.ReflTransGen.single hrotated

omit [Fintype ι] [DecidableEq ι] in
include hT h in
theorem SinceSnapshot.new_step
    (hids : ∀ id ∈ ids, ∃ r ∈ S₁.committed.refreshTokens, r.id = id)
    (hstep : LogoutStep lib userId env rotations ids T U) {t : RefreshToken}
    (ht : t ∈ T.committed.refreshTokens) (hnew : NewToken S₁ t) :
    t ∈ U.committed.refreshTokens ∨
      ∃ new ∈ U.committed.refreshTokens, NewToken S₁ new ∧ new.revokedAt = none ∧
        Rotated lib (logoutCalls userId env rotations) U t.tokenHash new.tokenHash := by
  cases hstep with
  | quiet rows rotated logout =>
    rw [rows]
    exact Or.inl ht
  | revokes rows rotated =>
    left
    rw [rows, updatedTokens, Table.mem_updateWhere]
    refine Or.inl ⟨ht, ?_⟩
    have hmissed : ids.contains t.id = false := by
      by_contra hreached
      rw [Bool.not_eq_false, List.contains_iff_mem] at hreached
      obtain ⟨r, hr, hid⟩ := hids t.id hreached
      exact h.id_of_new hT ht hnew hr hid.symm
    rw [hmissed, Bool.false_and]
  | rotates j record new now mem active user fresh rows finished only rotated logout =>
    rw [rows]
    by_cases hrecord : t.id = record.id
    · have heq := hT.unique.ids.eq_of_key ht mem hrecord
      rw [heq]
      exact Or.inr ⟨new, List.mem_append_right _ (List.mem_singleton_self new),
        h.new_of_fresh fresh, fresh.active, j, finished⟩
    · left
      exact List.mem_append_left _ (Table.mem_update.mpr (Or.inl ⟨ht, hrecord⟩))

include hT hs h in
theorem SinceSnapshot.alive_step
    (hids : ∀ id ∈ ids, ∃ r ∈ S₁.committed.refreshTokens, r.id = id)
    (hstep : LogoutStep lib userId env rotations ids T U) :
    ∀ t ∈ U.committed.refreshTokens, NewToken S₁ t →
      ∃ t' ∈ U.committed.refreshTokens, NewToken S₁ t' ∧ t'.revokedAt = none ∧
        InChain lib (logoutCalls userId env rotations) U t.tokenHash t'.tokenHash := by
  intro t ht hnew
  rcases hstep.row ht with ⟨t₀, ht₀, hhash, _⟩ | ⟨_, _, _, hactive, _⟩
  · obtain ⟨t', ht', hnew', hactive, hchain⟩ := h.alive t₀ ht₀ (hnew.congr hhash)
    rw [hhash] at hchain
    rcases h.new_step hT hids hstep ht' hnew' with
      hstill | ⟨new, hmem, hnewest, hfresh, hrotated⟩
    · exact ⟨t', hstill, hnew', hactive, hchain.mono hs⟩
    · exact ⟨new, hmem, hnewest, hfresh, (hchain.mono hs).tail hrotated⟩
  · exact ⟨t, ht, hnew, hactive, .refl⟩

include hT hs h in
theorem SinceSnapshot.revoked_step
    (hids : ∀ r ∈ S₁.committed.refreshTokens, r.userId = userId → r.revokedAt = none → r.id ∈ ids)
    (hstep : LogoutStep lib userId env rotations ids T U) :
    (U.session none).isFinished = true → ∀ r ∈ S₁.committed.refreshTokens, r.userId = userId →
      ∃ t ∈ U.committed.refreshTokens, t.tokenHash = r.tokenHash ∧ t.revokedAt ≠ none := by
  -- what was revoked stays so
  have hearlier : (T.session none).isFinished = true → ∀ r ∈ S₁.committed.refreshTokens,
      r.userId = userId → ∃ t ∈ U.committed.refreshTokens, t.tokenHash = r.tokenHash ∧
        t.revokedAt ≠ none := by
    intro hover r hr huser
    obtain ⟨t, ht, hhash, hrevoked⟩ := h.revoked hover r hr huser
    obtain ⟨t', ht', _, _, _, hsame⟩ := (hT.turn hs).2.kept ht
    rw [hsame hrevoked] at ht'
    exact ⟨t, ht', hhash, hrevoked⟩
  intro hover
  cases hstep with
  | quiet rows rotated logout =>
    rw [logout] at hover
    exact hearlier hover
  | rotates j record new now mem active user fresh rows finished only rotated logout =>
    rw [logout] at hover
    exact hearlier hover
  | revokes rows rotated =>
    intro r hr huser
    obtain ⟨t, ht, hid, hhash, huser', hsame⟩ := h.kept r hr
    simp only [rows, updatedTokens, Table.mem_updateWhere]
    cases hreached : (ids.contains t.id && t.activeOf userId) with
    | true =>
      refine ⟨t.revoke (env.now 0), Or.inr ⟨t, ht, hreached, rfl⟩, hhash, ?_⟩
      simp [RefreshToken.revoke]
    | false =>
      refine ⟨t, Or.inl ⟨ht, hreached⟩, hhash, ?_⟩
      intro hactive
      by_cases hr' : r.revokedAt = none
      · rw [hid] at hreached
        simp [hids r hr huser hr', RefreshToken.activeOf, huser', huser, hactive] at hreached
      · rw [hsame hr'] at hactive
        exact hr' hactive

end Preserved

section Interleavings
variable {tr₁ tr₂ : List (Option ι)}

omit [Fintype ι] [DecidableEq ι] in
theorem sinceSnapshot_refl (hrunning : (S₁.session none).isFinished = false) :
    SinceSnapshot lib userId env rotations S₁ S₁ where
  kept r hr := ⟨r, hr, rfl, rfl, rfl, fun _ => rfl⟩
  born t ht hnew := absurd rfl (hnew t ht)
  alive t ht hnew := absurd rfl (hnew t ht)
  late _ _ _ h := Or.inl h
  revoked hover := by
    rw [hrunning] at hover
    cases hover

def foundIds (userId : UUID) (S₁ : TokenSystem (Option ι)) : List UUID :=
  (S₁.committed.refreshTokens.filter (RefreshToken.activeOf userId)).map RefreshToken.id

omit [Fintype ι] [DecidableEq ι] in
theorem mem_foundIds {r : RefreshToken} (hr : r ∈ S₁.committed.refreshTokens)
    (huser : r.userId = userId) (hactive : r.revokedAt = none) : r.id ∈ foundIds userId S₁ :=
  List.mem_map.mpr ⟨r, List.mem_filter.mpr ⟨hr, decide_eq_true ⟨huser, hactive⟩⟩, rfl⟩

omit [Fintype ι] [DecidableEq ι] in
theorem foundIds_mem {id : UUID} (hid : id ∈ foundIds userId S₁) :
    ∃ r ∈ S₁.committed.refreshTokens, r.id = id := by
  obtain ⟨r, hr, rfl⟩ := List.mem_map.mp hid
  exact ⟨r, (List.mem_filter.mp hr).1, rfl⟩

theorem SinceSnapshot.step {k : Option ι}
    (h : SinceSnapshot lib userId env rotations S₁ T)
    (hT : TokensStaged settings lib (logoutCalls userId env rotations) T)
    (hs : step T k = some (U, os))
    (hstep : LogoutStep lib userId env rotations (foundIds userId S₁) T U) :
    SinceSnapshot lib userId env rotations S₁ U where
  kept := h.kept_step hT hs
  born := h.born_step hT hs hstep
  alive := h.alive_step hT hs (fun _ => foundIds_mem) hstep
  late := h.late_step hstep
  revoked := h.revoked_step hT hs (fun _ => mem_foundIds) hstep

theorem sinceSnapshot_start
    (h₁ : TokensStaged settings lib (logoutCalls userId env rotations) S₁)
    (hstart : S₁.session none = .auto ((logoutCalls userId env rotations none).prog settings lib))
    (hsnapshot : step S₁ none = some (T, os)) :
    LogoutPhase userId env (foundIds userId S₁) (T.session none) ∧
      SinceSnapshot lib userId env rotations S₁ T := by
  obtain ⟨_, _, hcommitted, hsession⟩ := step_cases hsnapshot
  have hfirst := logoutPhase_start settings lib userId env rotations S₁.committed
  rw [← hstart] at hfirst
  have hnone : T.session none = ((S₁.session none).advance S₁.committed).2 := by
    rw [hsession, Function.update_self]
  have hrunning : (S₁.session none).isFinished = false := by
    rw [hstart]
    rfl
  have hquiet : LogoutStep lib userId env rotations (foundIds userId S₁) S₁ T :=
    .quiet (by rw [hcommitted, hfirst.1]) (rotatedBy_logout hsnapshot)
      (by rw [hnone, hfirst.2.1, hrunning])
  refine ⟨?_, (sinceSnapshot_refl hrunning).step h₁ hsnapshot hquiet⟩
  rw [hnone]
  exact hfirst.2.2

theorem sinceSnapshot_run
    (h₁ : TokensStaged settings lib (logoutCalls userId env rotations) S₁)
    (hstart : S₁.session none = .auto ((logoutCalls userId env rotations none).prog settings lib))
    (hsnapshot : step S₁ none = some (T, os)) (h₂ : Run step T tr₂ U) :
    TokensStaged settings lib (logoutCalls userId env rotations) U ∧
      LogoutPhase userId env (foundIds userId S₁) (U.session none) ∧
      SinceSnapshot lib userId env rotations S₁ U := by
  refine h₂.invariant (fun _ U => TokensStaged settings lib (logoutCalls userId env rotations) U ∧
    LogoutPhase userId env (foundIds userId S₁) (U.session none) ∧
    SinceSnapshot lib userId env rotations S₁ U)
    ⟨(h₁.turn hsnapshot).1, sinceSnapshot_start h₁ hstart hsnapshot⟩ ?_
  rintro _ U k V os ⟨hU, hphase, hsince⟩ hs
  obtain ⟨hphase', hstep⟩ := logoutStep hU hphase hs
  exact ⟨(hU.turn hs).1, hphase', hsince.step hU hs hstep⟩

omit [Fintype ι] [DecidableEq ι] in
/-- Rotation keeps the user of a token. -/
theorem InChain.user (hS : TokensStaged settings lib (logoutCalls userId env rotations) S)
    {t : RefreshToken} (ht : t ∈ S.committed.refreshTokens) {hash : String}
    (h : InChain lib (logoutCalls userId env rotations) S t.tokenHash hash) :
    ∀ t' ∈ S.committed.refreshTokens, t'.tokenHash = hash → t'.userId = t.userId := by
  induction h with
  | refl =>
    intro t' ht' hhash
    rw [hS.unique.hashes.eq_of_key ht' ht hhash]
  | tail _ hlast ih =>
    intro t' ht' hhash
    obtain ⟨i, hi⟩ := hlast
    obtain ⟨old, hold, new, hnew, hhash₀, hhash₁, _, huser⟩ := hi.rows hS
    rw [hS.unique.hashes.eq_of_key ht' hnew (hhash.trans hhash₁.symm), huser]
    exact ih old hold hhash₀

omit [Fintype ι] [DecidableEq ι] in
/-- A row that a rotation has added since the snapshot has an active descendant. -/
theorem SinceSnapshot.rotatedBefore (hsince : SinceSnapshot lib userId env rotations S₁ S)
    (hS : TokensStaged settings lib (logoutCalls userId env rotations) S)
    (hno : NoSurvivor lib userId env rotations S₁ S) :
    RotatedBefore lib userId env rotations S₁ S := by
  intro i hash hash' hi hof
  rcases hsince.late i hash hash' hi with hbefore | hlate
  · exact hbefore
  · exfalso
    obtain ⟨old, hold, new, hnew, hhash, rfl, _, huser⟩ := hi.rows hS
    obtain ⟨t, ht, hthash, htuser⟩ := hof
    rw [hS.unique.hashes.eq_of_key ht hold (hthash.trans hhash.symm)] at htuser
    obtain ⟨r, hr, hruser, hractive, hborn⟩ := hsince.born new hnew hlate (huser.trans htuser)
    obtain ⟨t', ht', _, hactive, halive⟩ := hsince.alive new hnew hlate
    exact hno r hr hruser hractive t' ht' (hborn.trans halive) hactive

omit [Fintype ι] [DecidableEq ι] in
theorem SinceSnapshot.revoked_of_old (hsince : SinceSnapshot lib userId env rotations S₁ S)
    (hS : TokensStaged settings lib (logoutCalls userId env rotations) S)
    (hover : (S.session none).isFinished = true) {t : RefreshToken}
    (ht : t ∈ S.committed.refreshTokens) (huser : t.userId = userId) (hold : ¬ NewToken S₁ t) :
    t.revokedAt ≠ none := by
  simp only [NewToken, not_forall, not_not] at hold
  obtain ⟨r, hr, hhash⟩ := hold
  obtain ⟨t₁, ht₁, _, hhash₁, huser₁, _⟩ := hsince.kept r hr
  rw [hS.unique.hashes.eq_of_key ht₁ ht (hhash₁.trans hhash)] at huser₁
  obtain ⟨t₂, ht₂, hhash₂, hrevoked⟩ := hsince.revoked hover r hr (huser₁.symm.trans huser)
  rwa [hS.unique.hashes.eq_of_key ht₂ ht (hhash₂.trans hhash)] at hrevoked

omit [Fintype ι] [DecidableEq ι] in
theorem SinceSnapshot.old_of_inChain (hsince : SinceSnapshot lib userId env rotations S₁ S)
    (hS₁ : TokensStaged settings lib (logoutCalls userId env rotations) S₁)
    (hS : TokensStaged settings lib (logoutCalls userId env rotations) S)
    (hbefore : RotatedBefore lib userId env rotations S₁ S) {r t : RefreshToken}
    (hr : r ∈ S₁.committed.refreshTokens) (hruser : r.userId = userId)
    (hchain : InChain lib (logoutCalls userId env rotations) S r.tokenHash t.tokenHash) :
    ¬ NewToken S₁ t := by
  intro hnew
  obtain ⟨r', hr', _, hrhash, hruser', _⟩ := hsince.kept r hr
  rw [← hrhash] at hchain
  rcases Relation.ReflTransGen.cases_tail hchain with hsame | ⟨hash, hmid, i, hi⟩
  · exact hnew r hr (hrhash.symm.trans hsame.symm)
  · -- the last rotation of the chain had committed before, and its row with it
    obtain ⟨old, hold, _, _, hhash, _⟩ := hi.rows hS
    have holduser : old.userId = userId := by
      rw [InChain.user hS hr' hmid old hold hhash, hruser', hruser]
    have hi₁ := hbefore i hash t.tokenHash hi ⟨old, hold, hhash, holduser⟩
    obtain ⟨_, _, new, hnew₁, _, hhash₁, _⟩ := hi₁.rows hS₁
    exact hnew new hnew₁ hhash₁

/-- Logging out everywhere leaves no survivor exactly if every rotation that succeeds has committed
    when the UPDATE takes its snapshot. -/
theorem logout_all_iff (settings : Settings) (lib : TokenLib) (userId : UUID) (env : Env)
    (rotations : ι → Rotation) (db₀ : Database) (h₀ : TokensUnique db₀)
    (S₁ T S : TokenSystem (Option ι)) (tr₁ os tr₂ : List (Option ι))
    (h₁ : Run step (tokenStart settings lib (logoutCalls userId env rotations) db₀) tr₁ S₁)
    (hnone : none ∉ tr₁) (hsnapshot : step S₁ none = some (T, os)) (h₂ : Run step T tr₂ S)
    (hdone : ∀ i, (S.session i).isFinished = true) :
    NoSurvivor lib userId env rotations S₁ S ↔ RotatedBefore lib userId env rotations S₁ S := by
  have hS₁ := (tokensStaged_start h₀).run h₁
  have hstart : S₁.session none =
      .auto ((logoutCalls userId env rotations none).prog settings lib) := session_of_not_mem h₁ hnone
  obtain ⟨hS, _, hsince⟩ := sinceSnapshot_run hS₁ hstart hsnapshot h₂
  constructor
  · intro hno
    exact hsince.rotatedBefore hS hno
  · intro hbefore r hr hruser _ t ht hchain
    have hold := hsince.old_of_inChain hS₁ hS hbefore hr hruser hchain
    have huser : t.userId = userId := by
      obtain ⟨r', hr', _, hrhash, hruser', _⟩ := hsince.kept r hr
      rw [← hrhash] at hchain
      rw [hchain.user hS hr' t ht rfl, hruser', hruser]
    exact hsince.revoked_of_old hS (hdone none) ht huser hold

end Interleavings
end Logout

section Overtaken

def loggingOut : Env := ⟨fun _ => days 2, fun _ => 0⟩

def refreshing (_ : Fin 1) : Rotation := ⟨"old", .web, "fresh", ⟨fun _ => days 1, fun _ => 11⟩⟩

def logoutRun (before after : List (Option (Fin 1))) :
    Option (List (Option (Fin 1)) × List RefreshToken × List RefreshToken ×
      Option TokenResponse × Bool) :=
  (execute step (tokenStart {} plainLib (logoutCalls 1 loggingOut refreshing) session) before).bind
    fun p => (step p.1 none).bind fun q => (execute step q.1 after).map fun r =>
      (p.2, p.1.committed.refreshTokens, r.1.committed.refreshTokens,
        (r.1.session (some 0)).returned?, decide (∀ i, (r.1.session i).isFinished = true))

theorem logoutRun_spec {before after : List (Option (Fin 1))} {tr : List (Option (Fin 1))}
    {tokens tokens' : List RefreshToken} {response : Option TokenResponse}
    (h : logoutRun before after = some (tr, tokens, tokens', response, true)) :
    ∃ (S₁ T S : TokenSystem (Option (Fin 1))) (os tr₂ : List (Option (Fin 1))),
      Run step (tokenStart {} plainLib (logoutCalls 1 loggingOut refreshing) session) tr S₁ ∧
        step S₁ none = some (T, os) ∧ Run step T tr₂ S ∧ S₁.committed.refreshTokens = tokens ∧
        S.committed.refreshTokens = tokens' ∧ (S.session (some 0)).returned? = response ∧
        ∀ i, (S.session i).isFinished = true := by
  obtain ⟨p, hp, h⟩ := Option.bind_eq_some_iff.mp h
  obtain ⟨q, hq, h⟩ := Option.bind_eq_some_iff.mp h
  obtain ⟨r, hr, h⟩ := Option.map_eq_some_iff.mp h
  simp only [Prod.mk.injEq, decide_eq_true_eq] at h
  obtain ⟨rfl, rfl, rfl, rfl, hdone⟩ := h
  exact ⟨p.1, q.1, r.1, q.2, r.2, execute_run hp, hq, execute_run hr, rfl, rfl, rfl, hdone⟩

/-- The rotation holds the row when the snapshot is taken, and commits before the UPDATE gets to
    the row: the successor survives. -/
theorem successor_survives_logout :
    ∃ (S₁ T S : TokenSystem (Option (Fin 1))) (tr₁ os tr₂ : List (Option (Fin 1))),
      Run step (tokenStart {} plainLib (logoutCalls 1 loggingOut refreshing) session) tr₁ S₁ ∧
        none ∉ tr₁ ∧ step S₁ none = some (T, os) ∧ Run step T tr₂ S ∧
        (∀ i, (S.session i).isFinished = true) ∧
        ¬ NoSurvivor plainLib 1 loggingOut refreshing S₁ S := by
  have hrun : logoutRun [some 0, some 0, some 0, some 0, some 0] [some 0, none, none, none] =
      some ([some 0, some 0, some 0, some 0, some 0], [⟨10, 1, "old", .web, days 14, none⟩],
        [⟨10, 1, "old", .web, days 14, some (days 1)⟩, ⟨11, 1, "fresh", .web, days 15, none⟩],
        some (.rotated "access" "fresh" .web), true) := by decide +kernel
  obtain ⟨S₁, T, S, os, tr₂, h₁, hsnapshot, h₂, hbefore, hafter, hresponse, hdone⟩ :=
    logoutRun_spec hrun
  refine ⟨S₁, T, S, _, os, tr₂, h₁, by decide, hsnapshot, h₂, hdone, ?_⟩
  intro hno
  have hrotated : RotatedBy plainLib (logoutCalls 1 loggingOut refreshing) S (some 0) "old" "fresh" :=
    ⟨_, _, _, _, "access", .web, rfl, Session.returned?_eq_some hresponse, rfl, rfl⟩
  refine hno ⟨10, 1, "old", .web, days 14, none⟩ ?_ rfl rfl ⟨11, 1, "fresh", .web, days 15, none⟩ ?_
    (.single ⟨some 0, hrotated⟩) rfl
  · rw [hbefore]
    exact List.mem_singleton_self _
  · rw [hafter]
    exact List.mem_cons_of_mem _ (List.mem_singleton_self _)

theorem logout_all_iff_rotatedFirst :
    ∃ (S₁ T S : TokenSystem (Option (Fin 1))) (tr₁ os tr₂ : List (Option (Fin 1))),
      Run step (tokenStart {} plainLib (logoutCalls 1 loggingOut refreshing) session) tr₁ S₁ ∧
        step S₁ none = some (T, os) ∧ Run step T tr₂ S ∧
        (NoSurvivor plainLib 1 loggingOut refreshing S₁ S ↔
          RotatedBefore plainLib 1 loggingOut refreshing S₁ S) := by
  have hrun : logoutRun [some 0, some 0, some 0, some 0, some 0, some 0] [none, none, none] =
      some ([some 0, some 0, some 0, some 0, some 0, some 0],
        [⟨10, 1, "old", .web, days 14, some (days 1)⟩, ⟨11, 1, "fresh", .web, days 15, none⟩],
        [⟨10, 1, "old", .web, days 14, some (days 1)⟩,
          ⟨11, 1, "fresh", .web, days 15, some (days 2)⟩],
        some (.rotated "access" "fresh" .web), true) := by decide +kernel
  obtain ⟨S₁, T, S, os, tr₂, h₁, hsnapshot, h₂, _, _, _, hdone⟩ := logoutRun_spec hrun
  exact ⟨S₁, T, S, _, os, tr₂, h₁, hsnapshot, h₂, logout_all_iff {} plainLib 1 loggingOut refreshing
    session session_unique S₁ T S _ os tr₂ h₁ (by decide) hsnapshot h₂ hdone⟩

end Overtaken
end Hefest
