import Mathlib.Logic.Relation
import Hefest.TokenCalls

set_option autoImplicit false

namespace Hefest
open Transition Transaction

abbrev TokenSystem (ι : Type) := System Database RowLock ApiError TokenResponse ι

section Chains
variable {ι : Type} [Fintype ι] [DecidableEq ι] (settings : Settings) (lib : TokenLib)
  (calls : ι → TokenCall)

def tokenStart (db : Database) : TokenSystem ι := start (fun i => (calls i).prog settings lib) db

variable (S : TokenSystem ι)

def RotatedBy (i : ι) (hash hash' : String) : Prop :=
  ∃ rawToken presentedClient drawn env access client,
    calls i = .rotate rawToken presentedClient drawn env ∧
      S.session i = .finished (.ok (.rotated access drawn client)) ∧
      lib.sha256 rawToken = hash ∧ lib.sha256 drawn = hash'

def Rotated (hash hash' : String) : Prop := ∃ i, RotatedBy lib calls S i hash hash'

def InChain : String → String → Prop := Relation.ReflTransGen (Rotated lib calls S)

structure TokensStaged : Prop where
  unique : TokensUnique S.committed
  disciplined : Disciplined
    (fun db i s => TokensUnique db ∧ TokenStage settings lib db (calls i) s) S

variable {settings lib calls S} {S' T : TokenSystem ι} {db₀ : Database} {i j : ι} {os tr : List ι}

omit [Fintype ι] [DecidableEq ι] in
theorem tokensStaged_start (h₀ : TokensUnique db₀) :
    TokensStaged settings lib calls (tokenStart settings lib calls db₀) where
  unique := h₀
  disciplined := disciplined_start fun i => ⟨h₀, .waiting (calls i)⟩

omit [Fintype ι] [DecidableEq ι] in
theorem TokensStaged.stage (h : TokensStaged settings lib calls S) (i : ι) :
    TokenStage settings lib S.committed (calls i) (S.session i) := (h.disciplined.stage i).2

theorem TokensStaged.turn (h : TokensStaged settings lib calls S) (hs : step S i = some (S', os)) :
    TokensStaged settings lib calls S' ∧ TokenMove S.committed S'.committed := by
  have hnext := h.disciplined.turn (token_discipline settings lib calls) hs
  exact ⟨⟨hnext.2.unique h.unique, hnext.1⟩, hnext.2⟩

theorem TokensStaged.run (h : TokensStaged settings lib calls S) (hrun : Run step S tr T) :
    TokensStaged settings lib calls T := by
  induction hrun with
  | start => exact h
  | next _ hs ih => exact (ih.turn hs).1

omit [Fintype ι] [DecidableEq ι] in
theorem RotatedBy.rows (hS : TokensStaged settings lib calls S) {hash hash' : String}
    (h : RotatedBy lib calls S i hash hash') :
    ∃ old ∈ S.committed.refreshTokens, ∃ new ∈ S.committed.refreshTokens,
      old.tokenHash = hash ∧ new.tokenHash = hash' ∧ old.revokedAt ≠ none ∧
        new.userId = old.userId := by
  obtain ⟨rawToken, presentedClient, drawn, env, access, client, hcall, hdone, rfl, rfl⟩ := h
  have hstage := hS.stage i
  rw [hcall, hdone] at hstage
  cases hstage with
  | idle c hidle =>
    cases hidle with
    | ended r other => exact absurd rfl (other access drawn client)
  | rotated _ _ _ _ _ _ old new oldMem oldHash oldRevoked newMem newHash user =>
    exact ⟨old, oldMem, new, newMem, oldHash, newHash, oldRevoked, user⟩

theorem RotatedBy.other {hash hash' : String} (hij : i ≠ j) (hs : step S j = some (S', os)) :
    RotatedBy lib calls S' i hash hash' ↔ RotatedBy lib calls S i hash hash' := by
  obtain ⟨_, _, _, hsession⟩ := step_cases hs
  unfold RotatedBy
  rw [hsession, Function.update_of_ne hij]

theorem RotatedBy.mono {hash hash' : String} (hs : step S j = some (S', os))
    (h : RotatedBy lib calls S i hash hash') : RotatedBy lib calls S' i hash hash' := by
  by_cases hij : i = j
  · obtain ⟨hrunning, _⟩ := step_cases hs
    obtain ⟨_, _, _, _, _, _, _, hdone, _⟩ := h
    rw [← hij, hdone] at hrunning
    cases hrunning
  · exact (RotatedBy.other hij hs).mpr h

theorem InChain.mono {hash hash' : String} (hs : step S j = some (S', os))
    (h : InChain lib calls S hash hash') : InChain lib calls S' hash hash' := by
  have hrotated : ∀ a b, Rotated lib calls S a b → Rotated lib calls S' a b := by
    rintro a b ⟨i, hi⟩
    exact ⟨i, hi.mono hs⟩
  exact Relation.ReflTransGen.mono hrotated _ _ h

/-- A call that finishes a rotation had locked the presented token, still active. -/
theorem RotatedBy.finishes (hS : TokensStaged settings lib calls S) {hash hash' : String}
    (hs : step S i = some (S', os)) (h : RotatedBy lib calls S' i hash hash') :
    ∃ record t now, record ∈ S.committed.refreshTokens ∧ record.revokedAt = none ∧
      record.tokenHash = hash ∧ t.tokenHash = hash' ∧ t.userId = record.userId ∧
      FreshToken S.committed t ∧
      S'.committed.refreshTokens = Table.update RefreshToken.id record.id (RefreshToken.revoke now)
        S.committed.refreshTokens ++ [t] := by
  obtain ⟨rawToken, presentedClient, drawn, env, access, client, hcall, hdone, rfl, rfl⟩ := h
  obtain ⟨hrunning, _, hcommitted, hsession⟩ := step_cases hs
  have hstage := hS.stage i
  rw [hcall] at hstage
  rw [hsession, Function.update_self] at hdone
  rcases hstage.rotate_cases hrunning with ⟨_, hnone⟩ | ⟨record, access', held, hrecord, hfresh, _, hrows⟩
  · exact absurd hdone (hnone access drawn client)
  · rw [hcommitted]
    exact ⟨record, successor settings lib record drawn env, env.now 0, hrecord.mem, hrecord.active,
      hrecord.hash, rfl, rfl, hfresh, hrows⟩

def SingleUse (lib : TokenLib) (calls : ι → TokenCall) (S : TokenSystem ι) : Prop :=
  ∀ i j hash hash' hash'', RotatedBy lib calls S i hash hash' → RotatedBy lib calls S j hash hash'' →
    i = j

theorem SingleUse.turn (h : SingleUse lib calls S) (hS : TokensStaged settings lib calls S)
    (hs : step S i = some (S', os)) : SingleUse lib calls S' := by
  -- a rotation that finishes now found the token active, an earlier one had left it revoked
  have hnew : ∀ k hash hash' hash'', k ≠ i → RotatedBy lib calls S' i hash hash' →
      RotatedBy lib calls S' k hash hash'' → False := by
    intro k hash hash' hash'' hk hi hfinished
    obtain ⟨record, _, _, hmem, hactive, hhash, _⟩ := hi.finishes hS hs
    obtain ⟨old, hold, _, _, hhash', _, hrevoked, _⟩ :=
      RotatedBy.rows hS ((RotatedBy.other hk hs).mp hfinished)
    have hsame : old = record :=
      hS.unique.hashes.eq_of_key hold hmem (hhash'.trans hhash.symm)
    rw [hsame] at hrevoked
    exact hrevoked hactive
  intro j k hash hash' hash'' hj hk
  by_cases hji : j = i
  · by_cases hki : k = i
    · rw [hji, hki]
    · rw [hji] at hj
      exact absurd (hnew k hash hash' hash'' hki hj hk) not_false
  · by_cases hki : k = i
    · rw [hki] at hk
      exact absurd (hnew j hash hash'' hash' hji hk hj) not_false
    · exact h j k hash hash' hash'' ((RotatedBy.other hji hs).mp hj) ((RotatedBy.other hki hs).mp hk)

theorem singleUse_run (h₀ : TokensUnique db₀) (h : Run step (tokenStart settings lib calls db₀) tr S) :
    TokensStaged settings lib calls S ∧ SingleUse lib calls S := by
  refine h.invariant (fun _ S => TokensStaged settings lib calls S ∧ SingleUse lib calls S)
    ⟨tokensStaged_start h₀, ?_⟩ ?_
  · rintro i j _ _ _ ⟨_, _, _, _, _, _, _, hdone, _⟩
    cases hdone
  · rintro _ T i U os ⟨hT, huse⟩ hs
    exact ⟨(hT.turn hs).1, huse.turn hT hs⟩

omit [Fintype ι] [DecidableEq ι] in
/-- A rotated token has one successor. -/
theorem rotated_unique (huse : SingleUse lib calls S) : Relator.RightUnique (Rotated lib calls S) := by
  intro hash hash' hash'' h h'
  obtain ⟨i, hi⟩ := h
  obtain ⟨j, hj⟩ := h'
  have hij := huse i j hash hash' hash'' hi hj
  subst hij
  obtain ⟨_, _, drawn, _, _, _, hcall, _, _, rfl⟩ := hi
  obtain ⟨_, _, drawn', _, _, _, hcall', _, _, rfl⟩ := hj
  rw [hcall] at hcall'
  cases hcall'
  rfl

omit [Fintype ι] [DecidableEq ι] in
theorem active_not_rotated (hS : TokensStaged settings lib calls S) {t : RefreshToken}
    (ht : t ∈ S.committed.refreshTokens) (hactive : t.revokedAt = none) (hash : String) :
    ¬ Rotated lib calls S t.tokenHash hash := by
  rintro ⟨i, hi⟩
  obtain ⟨old, hold, _, _, hhash, _, hrevoked, _⟩ := hi.rows hS
  rw [hS.unique.hashes.eq_of_key hold ht hhash] at hrevoked
  exact hrevoked hactive

omit [Fintype ι] [DecidableEq ι] in
/-- The active end of a chain is where the chain ends. -/
theorem InChain.eq_of_active (hS : TokensStaged settings lib calls S) {t : RefreshToken}
    (ht : t ∈ S.committed.refreshTokens) (hactive : t.revokedAt = none) {hash : String}
    (h : InChain lib calls S t.tokenHash hash) : hash = t.tokenHash := by
  induction h with
  | refl => rfl
  | tail _ hlast ih =>
    rw [ih] at hlast
    exact absurd hlast (active_not_rotated hS ht hactive _)

theorem TokensStaged.kept (hS : TokensStaged settings lib calls S) (hrun : Run step S tr T)
    {t : RefreshToken} (ht : t ∈ S.committed.refreshTokens) (hrevoked : t.revokedAt ≠ none) :
    t ∈ T.committed.refreshTokens := by
  induction hrun with
  | start => exact ht
  | next tail hs ih =>
    obtain ⟨t', ht', _, _, _, hsame⟩ := ((hS.run tail).turn hs).2.kept ih
    rw [hsame hrevoked] at ht'
    exact ht'

/-- Refresh tokens are single-use and their chains do not fork: a committed revocation stays as it
    is, no token is rotated by two calls, and of all tokens that one token has become by rotation
    at most one is active. -/
theorem refresh_tokens_single_use (settings : Settings) (lib : TokenLib) (calls : ι → TokenCall)
    (db₀ : Database) (h₀ : TokensUnique db₀) (S : TokenSystem ι) (tr : List ι)
    (h : Run step (tokenStart settings lib calls db₀) tr S) :
    (∀ (hash : String) (t : RefreshToken), S.committed.refreshToken? hash = some t →
      t.revokedAt ≠ none → ∀ (T : TokenSystem ι) (tr' : List ι), Run step S tr' T →
        T.committed.refreshToken? hash = some t) ∧
      (∀ (i j : ι) (hash hash' hash'' : String), RotatedBy lib calls S i hash hash' →
        RotatedBy lib calls S j hash hash'' → i = j) ∧
      ∀ hash, ∀ t ∈ S.committed.refreshTokens, ∀ t' ∈ S.committed.refreshTokens,
        InChain lib calls S hash t.tokenHash → InChain lib calls S hash t'.tokenHash →
          t.revokedAt = none → t'.revokedAt = none → t = t' := by
  obtain ⟨hS, huse⟩ := singleUse_run h₀ h
  refine ⟨?_, huse, ?_⟩
  · intro hash t hfound hrevoked T tr' hrun
    apply (hS.run hrun).unique.hashes.lookup_iff.mpr
    exact ⟨hS.kept hrun (Table.lookup_mem hfound) hrevoked, Table.lookup_key hfound⟩
  · intro hash t ht t' ht' hchain hchain' hactive hactive'
    apply hS.unique.hashes.eq_of_key ht ht'
    rcases Relation.ReflTransGen.total_of_right_unique (rotated_unique huse) hchain hchain' with
      hmore | hmore
    · exact (InChain.eq_of_active hS ht hactive hmore).symm
    · exact InChain.eq_of_active hS ht' hactive' hmore

end Chains

section Replayed

def session : Database where
  users := [{ id := 1, email := "dana@school.example", fullName := "Dana", role := .student }]
  refreshTokens := [⟨10, 1, "old", .web, days 14, none⟩]

def presentedTwice : Fin 2 → TokenCall
  | 0 => .rotate "old" .web "first" ⟨fun _ => days 1, fun _ => 11⟩
  | 1 => .rotate "old" .web "second" ⟨fun _ => days 2, fun _ => 12⟩

theorem session_unique : TokensUnique session :=
  ⟨by unfold Table.KeyUnique; decide, by unfold Table.KeyUnique; decide⟩

theorem refresh_tokens_single_use_presentedTwice :
    ∃ S tr, Run step (tokenStart {} plainLib presentedTwice session) tr S ∧
      (∀ i, (S.session i).isFinished = true) ∧
      ∀ i j hash hash' hash'', RotatedBy plainLib presentedTwice S i hash hash' →
        RotatedBy plainLib presentedTwice S j hash hash'' → i = j := by
  -- Both transactions are open before either of them takes the row.
  have hdone : ((execute step (tokenStart {} plainLib presentedTwice session)
      [0, 1, 0, 0, 0, 0, 0, 1, 1, 1]).map fun p => decide (∀ i, (p.1.session i).isFinished = true)) =
        some true := by decide +kernel
  obtain ⟨S, tr, hrun, hfinished⟩ := execute_map hdone
  refine ⟨S, tr, hrun, of_decide_eq_true hfinished, ?_⟩
  exact (refresh_tokens_single_use {} plainLib presentedTwice session session_unique S tr hrun).2.1

end Replayed
end Hefest
