import Hefest.AuthRouters

set_option autoImplicit false

/-!
# The passwords that the schemas accept

The validator counts characters and knows no upper bound. `bcrypt` counts the bytes of the UTF-8
encoding, and raises above 72 of them.
-/
namespace Hefest
open Transaction

structure AcceptedPassword where
  text : String
  accepted : passwordValidator text = .ok text

theorem passwordValidator_ok {v : String} (h : 12 ≤ v.length) : passwordValidator v = .ok v :=
  if_neg (Nat.not_lt.mpr h)

def RegisterRequest.accepted (body : RegisterRequest) : AcceptedPassword :=
  ⟨body.password, passwordValidator_ok body.password_length⟩

def ChangePasswordRequest.accepted (body : ChangePasswordRequest) : AcceptedPassword :=
  ⟨body.newPassword, passwordValidator_ok body.new_password_length⟩

/-- `hashpw` and `checkpw` raise above 72 bytes, and otherwise they return and round-trip. The salts
    are those that `gensalt` returns. -/
structure Bcrypt (lib : AccountLib) (gensalt : Set String) : Prop where
  hashpw_returns : ∀ password, ∀ salt ∈ gensalt,
    (∃ hashed, lib.hashpw password salt = .ok hashed) ↔ password.size ≤ 72
  checkpw_returns : ∀ password other hashed, ∀ salt ∈ gensalt,
    lib.hashpw password salt = .ok hashed →
      ((∃ same, lib.checkpw other hashed = .ok same) ↔ other.size ≤ 72)
  round_trip : ∀ password hashed, ∀ salt ∈ gensalt,
    lib.hashpw password salt = .ok hashed → lib.checkpw password hashed = .ok true

section Login
variable (settings : Settings) (accounts : AccountLib) (lib : TokenLib)

/-- The answers of `login`: 200, 401 and 403. -/
inductive LoginAnswer : Except ApiError AuthReply → Prop
  | tokens (reply : AuthReply) : LoginAnswer (.ok reply)
  | unauthorized : LoginAnswer (.error invalidCredentials)
  | forbidden : LoginAnswer (.error (.http 403 "email not verified" (some "email_not_verified")))

def DrawsFresh (env : Env) (db : Database) : Prop :=
  ∀ t ∈ db.refreshTokens, t.id ≠ env.uuid 0 ∧ t.tokenHash ≠ lib.sha256 lib.tokenUrlsafe

def AnswersLogin (hashed q : String) : Prop :=
  ∀ (email : String) (db : Database) (user : User) (xClientId : Option String) (env : Env),
    db.userByEmail? email = some user → user.passwordHash = some hashed → DrawsFresh lib env db →
      LoginAnswer ((login settings accounts lib ⟨email, q⟩ xClientId env).run db).2

/-- Hashing `p` succeeds; against this hash `p` is verified, `q` gets a boolean, and a login with `q`
    is answered. -/
def PasswordWorks (salt p q : String) : Prop :=
  ∃ hashed, hashPassword accounts p salt = .ok hashed ∧ verifyPassword accounts p hashed = .ok true ∧
    (∃ same, verifyPassword accounts q hashed = .ok same) ∧
    AnswersLogin settings accounts lib hashed q

variable {settings accounts lib} {env : Env} {db : Database}

theorem issuePair_answers {reply : String → String → RefreshClient → AuthReply} {user : User}
    {client : RefreshClient} {now now' : Time} (h : DrawsFresh lib env db) :
    LoginAnswer ((issuePair settings lib reply user client (env.uuid 0) now now').run db).2 := by
  have hid : ¬ ∃ t ∈ db.refreshTokens, t.id = env.uuid 0 := by
    rintro ⟨t, ht, hid⟩
    exact (h t ht).1 hid
  have hhash : db.refreshToken? (lib.sha256 lib.tokenUrlsafe) = none := by
    rw [Database.refreshToken?, Table.lookup_eq_none]
    intro t ht
    exact (h t ht).2
  simp only [issuePair, issueRefreshToken, bind_stmt, run_stmt, insertRefreshToken,
    refreshTokenViolation, if_neg hid, hhash, Option.isSome_none, Bool.false_eq_true, if_false,
    orRaise, bind_ret, run_ret]
  exact .tokens _

theorem answersLogin_of_verify {hashed q : String} {same : Bool}
    (h : verifyPassword accounts q hashed = .ok same) :
    AnswersLogin settings accounts lib hashed q := by
  intro email db user xClientId env hfound hhash hfresh
  have hresult : (selectUserByEmail email).result db = some user := hfound
  simp only [login, run_stmt, hresult, hhash, h, orValueError]
  cases same with
  | false => exact .unauthorized
  | true =>
    by_cases hverified : user.emailVerifiedAt = none
    · simp only [not_true_eq_false, if_false, if_pos hverified]
      exact .forbidden
    · simp only [not_true_eq_false, if_false, if_neg hverified]
      exact issuePair_answers hfresh

end Login

/-- An accepted password works exactly if it and the password of the login are at most 72 bytes
    long. -/
theorem accepted_passwords_work_iff (settings : Settings) (accounts : AccountLib) (lib : TokenLib)
    (gensalt : Set String) (hbcrypt : Bcrypt accounts gensalt) (salt : String)
    (hsalt : salt ∈ gensalt) (p : AcceptedPassword) (q : String) :
    PasswordWorks settings accounts lib salt p.text q ↔
      p.text.toUTF8.size ≤ 72 ∧ q.toUTF8.size ≤ 72 := by
  have hreturns := hbcrypt.hashpw_returns p.text.toUTF8 salt hsalt
  constructor
  · rintro ⟨hashed, hhash, _, hsame, _⟩
    refine ⟨hreturns.mp ⟨hashed, hhash⟩, ?_⟩
    exact (hbcrypt.checkpw_returns p.text.toUTF8 q.toUTF8 hashed salt hsalt hhash).mp hsame
  · rintro ⟨hp, hq⟩
    obtain ⟨hashed, hhash⟩ := hreturns.mpr hp
    obtain ⟨same, hsame⟩ :=
      (hbcrypt.checkpw_returns p.text.toUTF8 q.toUTF8 hashed salt hsalt hhash).mpr hq
    have htrue := hbcrypt.round_trip p.text.toUTF8 hashed salt hsalt hhash
    exact ⟨hashed, hhash, htrue, ⟨same, hsame⟩, answersLogin_of_verify hsame⟩

section Passphrases

theorem shortEnough_returns {α : Type} (password : ByteArray) (a : α) :
    (∃ b, shortEnough password a = .ok b) ↔ password.size ≤ 72 := by
  unfold shortEnough
  split_ifs with hlong
  · refine iff_of_false ?_ (Nat.not_le.mpr hlong)
    rintro ⟨b, hb⟩
    cases hb
  · exact iff_of_true ⟨a, rfl⟩ (Nat.not_lt.mp hlong)

theorem plainAccounts_bcrypt : Bcrypt plainAccounts Set.univ where
  hashpw_returns password _ _ := shortEnough_returns password _
  checkpw_returns _ other _ _ _ _ := shortEnough_returns other _
  round_trip password hashed salt _ h := by
    change shortEnough password (plainHash password) = .ok hashed at h
    change shortEnough password (decide (plainHash password = hashed)) = .ok true
    unfold shortEnough at h ⊢
    split_ifs at h ⊢ with hlong
    cases h
    simp

def cyrillicBody : RegisterRequest where
  email := "dana@school.example"
  password := "правилен кон батерия телбод и правилен кон"
  fullName := "Dana"
  password_length := by decide

theorem cyrillic_passphrase_fails :
    ¬ PasswordWorks {} plainAccounts plainLib "salt" cyrillicBody.accepted.text
      cyrillicBody.accepted.text := by
  rintro ⟨hashed, hhash, _⟩
  have hraises : hashPassword plainAccounts cyrillicBody.accepted.text "salt" =
      .error "password cannot be longer than 72 bytes" := by decide +kernel
  rw [hraises] at hhash
  cases hhash

def englishBody : RegisterRequest where
  email := "dana@school.example"
  password := "correct horse battery staple and correct horse"
  fullName := "Dana"
  password_length := by decide

theorem accepted_passwords_work_iff_english :
    PasswordWorks {} plainAccounts plainLib "salt" englishBody.accepted.text "wrong" :=
  (accepted_passwords_work_iff {} plainAccounts plainLib Set.univ plainAccounts_bcrypt "salt"
    (Set.mem_univ _) englishBody.accepted "wrong").mpr ⟨by decide +kernel, by decide +kernel⟩

end Passphrases
end Hefest
