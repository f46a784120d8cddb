import Hefest.Accounts
import Hefest.OauthRace

set_option autoImplicit false

/-!
# Concurrent sign-ups with one e-mail

The existence check of `register` commits before its transaction begins. A call whose check comes
after the first commit is refused; one that has passed the check runs into the unique e-mail, and
nothing catches the `IntegrityError`.
-/
namespace Hefest
open Transition Transaction

structure SignUp (email : String) where
  body : RegisterRequest
  salt : String
  env : Env
  mail : body.email = email

abbrev SignUpSession := Session Database RowLock ApiError RegisterResponse

abbrev SignUpSystem (ι : Type) := System Database RowLock ApiError RegisterResponse ι

structure VerifiesAccount (user : User) (job : NotificationJob) : Prop where
  type : job.eventType = .emailVerify
  pending : job.status = .pending
  noEvent : job.eventId = none
  student : job.payload = { studentId := some user.id }

section SignUps
variable (settings : Settings) (lib : AccountLib) {email : String}

namespace SignUp

def prog (signUp : SignUp email) : Service RegisterResponse :=
  register settings lib signUp.body signUp.salt signUp.env

def inTransaction (signUp : SignUp email) : Service RegisterResponse :=
  registerInTransaction settings lib signUp.body signUp.salt signUp.env

inductive Checked (signUp : SignUp email) : SignUpSession → Prop
  | passed : Checked signUp (.auto (.transaction (signUp.inTransaction settings lib)))
  | opened : Checked signUp (.inside (signUp.inTransaction settings lib) (fun x => x) [])

inductive Unhandled : SignUpSession → Prop
  | rejected (e : ApiError) (w : Database → Database) (held : List RowLock) (he : e ≠ emailExists) :
      Unhandled (.inside (.raise e) w held)
  | ended (e : ApiError) (he : e ≠ emailExists) : Unhandled (.finished (.error e))

/-- The account has been inserted, and the lock on its e-mail is held. -/
inductive Inserted (signUp : SignUp email) : SignUpSession → Prop
  | creating (user : User) (w : Database → Database) (held : List RowLock) (mail : user.email = email)
      (locked : ⟨.userEmail email, .forUpdate⟩ ∈ held)
      (written : ∀ x, w x = { x with users := x.users ++ [user] }) :
      Inserted signUp (.inside (createJobs [emailVerifyJob signUp.env user]
        (.ret (registerResponse settings lib signUp.env user))) w held)
  | committing (user : User) (w : Database → Database) (held : List RowLock)
      (mail : user.email = email) (locked : ⟨.userEmail email, .forUpdate⟩ ∈ held)
      (written : ∀ x, w x = { x with
        users := x.users ++ [user]
        notificationJobs := x.notificationJobs ++ [emailVerifyJob signUp.env user] }) :
      Inserted signUp (.inside (.ret (registerResponse settings lib signUp.env user)) w held)

inductive Racing (signUp : SignUp email) : SignUpSession → Prop
  | fresh : Racing signUp (.auto (signUp.prog settings lib))
  | checked {s : SignUpSession} (h : Checked settings lib signUp s) : Racing signUp s
  | inserted {s : SignUpSession} (h : Inserted settings lib signUp s) : Racing signUp s
  | unhandled {s : SignUpSession} (h : Unhandled s) : Racing signUp s

inductive Refused (signUp : SignUp email) : SignUpSession → Prop
  | fresh : Refused signUp (.auto (signUp.prog settings lib))
  | found : Refused signUp (.auto (.raise emailExists))
  | ended : Refused signUp (.finished (.error emailExists))

/-- After the commit: the check came too early. -/
inductive TooEarly (signUp : SignUp email) : SignUpSession → Prop
  | checked {s : SignUpSession} (h : Checked settings lib signUp s) : TooEarly signUp s
  | unhandled {s : SignUpSession} (h : Unhandled s) : TooEarly signUp s

end SignUp

structure AccountAdded (email : String) (db₀ db : Database) (user : User) (job : NotificationJob) :
    Prop where
  rows : db = { db₀ with
    users := db₀.users ++ [user]
    notificationJobs := db₀.notificationJobs ++ [job] }
  mail : user.email = email
  verifies : VerifiesAccount user job

section Statements
variable {settings lib} {db₀ db : Database} {user : User} {job : NotificationJob}
  {signUp : SignUp email} {s : SignUpSession}

theorem existsUser_false (h : ∀ u ∈ db.users, u.email ≠ email) :
    (existsUserWithEmail email).result db = false := by
  simp [existsUserWithEmail, Stmt.select, userByEmail_none h]

theorem AccountAdded.exists_user (h₀ : ∀ u ∈ db₀.users, u.email ≠ email)
    (h : AccountAdded email db₀ db user job) : (existsUserWithEmail email).result db = true := by
  have hfound : db.userByEmail? email = some user :=
    userByEmail_added h₀ (congrArg Database.users h.rows) h.mail
  simp [existsUserWithEmail, Stmt.select, hfound]

theorem SignUp.advance_fresh (signUp : SignUp email) (db : Database) :
    (Session.auto (signUp.prog settings lib)).advance db =
      (db, .auto (if (existsUserWithEmail email).result db = true then .raise emailExists
        else .transaction (signUp.inTransaction settings lib))) := by
  obtain ⟨body, salt, env, rfl⟩ := signUp
  rfl

variable (settings lib) in
/-- The first statement of the transaction: the hash raises, or the INSERT follows. -/
theorem SignUp.advance_opened (signUp : SignUp email) (db : Database) :
    (∃ message, (Session.inside (signUp.inTransaction settings lib) (fun x => x) []).advance db =
        (db, .finished (.error (.valueError message)))) ∨
      ∃ user : User, user.email = email ∧
        (Session.inside (signUp.inTransaction settings lib) (fun x => x) []).advance db =
          (db, .inside (orRaise (userViolation db user)
              (createJobs [emailVerifyJob signUp.env user]
                (.ret (registerResponse settings lib signUp.env user))))
            ((insertUser user).write db) ((insertUser user).locks db)) := by
  unfold SignUp.inTransaction registerInTransaction
  cases hashPassword lib signUp.body.password signUp.salt with
  | error message => exact Or.inl ⟨message, rfl⟩
  | ok hash =>
    refine Or.inr ⟨registeredUser signUp.body signUp.env hash, signUp.mail, ?_⟩
    simp only [orValueError, Session.advance, insertUser, List.append_nil]

theorem SignUp.Unhandled.advance (h : SignUp.Unhandled s) (db : Database) :
    (s.advance db).1 = db ∧ SignUp.Unhandled (s.advance db).2 := by
  cases h with
  | rejected e w held he => exact ⟨rfl, .ended e he⟩
  | ended e he => exact ⟨rfl, .ended e he⟩

theorem SignUp.Checked.advance (h : signUp.Checked settings lib s) (db : Database) :
    (s.advance db).1 = db ∧ (signUp.Checked settings lib (s.advance db).2 ∨
      SignUp.Unhandled (s.advance db).2 ∨
      ((∀ u ∈ db.users, u.email ≠ email) ∧ signUp.Inserted settings lib (s.advance db).2)) := by
  cases h with
  | passed => exact ⟨rfl, Or.inl .opened⟩
  | opened =>
    rcases signUp.advance_opened settings lib db with ⟨message, hnext⟩ | ⟨user, hmail, hnext⟩
    · rw [hnext]
      exact ⟨rfl, Or.inr (Or.inl (.ended _ (by simp [emailExists])))⟩
    · rw [hnext]
      refine ⟨rfl, Or.inr ?_⟩
      cases hviolation : userViolation db user with
      | some c => exact Or.inl (.rejected _ _ _ (by simp [emailExists]))
      | none =>
        right
        refine ⟨?_, .creating user _ _ hmail ?_ ?_⟩
        · rw [← hmail]
          exact (userViolation_none hviolation).2
        · simp [insertUser, hmail]
        · intro x
          simp [insertUser, hviolation]

theorem SignUp.Inserted.advance (h : signUp.Inserted settings lib s) (db : Database) :
    ((s.advance db).1 = db ∧ (signUp.Inserted settings lib (s.advance db).2 ∨
      SignUp.Unhandled (s.advance db).2)) ∨
      ∃ user, AccountAdded email db (s.advance db).1 user (emailVerifyJob signUp.env user) ∧
        (s.advance db).2 = .finished (.ok (registerResponse settings lib signUp.env user)) ∧
        ⟨.userEmail user.email, .forUpdate⟩ ∈ s.held := by
  cases h with
  | creating user w held mail locked written =>
    left
    refine ⟨rfl, ?_⟩
    simp only [createJobs, Session.advance]
    cases hviolation : (insertJobs [emailVerifyJob signUp.env user]).result (w db) with
    | some c => exact Or.inr (.rejected _ _ _ (by simp [emailExists]))
    | none =>
      refine Or.inl (.committing user _ _ mail (List.mem_append_right _ locked) ?_)
      intro x
      change jobsViolation (w db).notificationJobs _ = none at hviolation
      rw [written] at hviolation
      simp [insertJobs, hviolation, written]
  | committing user w held mail locked written =>
    right
    refine ⟨user, ⟨written db, mail, ⟨rfl, rfl, rfl, rfl⟩⟩, rfl, ?_⟩
    rw [mail]
    exact locked

theorem SignUp.Racing.advance (h₀ : ∀ u ∈ db.users, u.email ≠ email)
    (h : signUp.Racing settings lib s) :
    ((s.advance db).1 = db ∧ signUp.Racing settings lib (s.advance db).2) ∨
      ∃ user, AccountAdded email db (s.advance db).1 user (emailVerifyJob signUp.env user) ∧
        (s.advance db).2 = .finished (.ok (registerResponse settings lib signUp.env user)) ∧
        ⟨.userEmail user.email, .forUpdate⟩ ∈ s.held := by
  cases h with
  | fresh =>
    left
    rw [signUp.advance_fresh, existsUser_false h₀]
    exact ⟨rfl, .checked .passed⟩
  | checked hchecked =>
    left
    obtain ⟨hstill, hnext | hnext | ⟨_, hnext⟩⟩ := hchecked.advance db
    · exact ⟨hstill, .checked hnext⟩
    · exact ⟨hstill, .unhandled hnext⟩
    · exact ⟨hstill, .inserted hnext⟩
  | inserted hinserted =>
    rcases hinserted.advance db with ⟨hstill, hnext | hnext⟩ | hcommitted
    · exact Or.inl ⟨hstill, .inserted hnext⟩
    · exact Or.inl ⟨hstill, .unhandled hnext⟩
    · exact Or.inr hcommitted
  | unhandled hunhandled =>
    left
    exact ⟨(hunhandled.advance db).1, .unhandled (hunhandled.advance db).2⟩

/-- The commit of another call: whoever held the lock on the e-mail would have prevented it. -/
theorem SignUp.Racing.overtaken (h₀ : ∀ u ∈ db₀.users, u.email ≠ email)
    (hadded : AccountAdded email db₀ db user job) (h : signUp.Racing settings lib s)
    (hsame : ∀ a ∈ s.held, sameEmails a db₀ db) :
    s = .auto (signUp.prog settings lib) ∨ signUp.TooEarly settings lib s := by
  have hnow : ∃ u ∈ db.users, u.email = email :=
    ⟨user, by rw [hadded.rows]; simp, hadded.mail⟩
  have hfree := not_held_of_sameEmails h₀ hnow hsame
  cases h with
  | fresh => exact Or.inl rfl
  | checked hchecked => exact Or.inr (.checked hchecked)
  | inserted hinserted =>
    cases hinserted with
    | creating user w held mail locked => exact absurd locked hfree
    | committing user w held mail locked => exact absurd locked hfree
  | unhandled hunhandled => exact Or.inr (.unhandled hunhandled)

theorem SignUp.Refused.advance (h₀ : ∀ u ∈ db₀.users, u.email ≠ email)
    (hdb : AccountAdded email db₀ db user job) (h : signUp.Refused settings lib s) :
    (s.advance db).1 = db ∧ signUp.Refused settings lib (s.advance db).2 := by
  cases h with
  | fresh =>
    rw [signUp.advance_fresh, hdb.exists_user h₀]
    exact ⟨rfl, .found⟩
  | found => exact ⟨rfl, .ended⟩
  | ended => exact ⟨rfl, .ended⟩

theorem SignUp.TooEarly.advance (hdb : AccountAdded email db₀ db user job)
    (h : signUp.TooEarly settings lib s) :
    (s.advance db).1 = db ∧ signUp.TooEarly settings lib (s.advance db).2 := by
  cases h with
  | checked hchecked =>
    obtain ⟨hstill, hnext | hnext | ⟨hnobody, _⟩⟩ := hchecked.advance db
    · exact ⟨hstill, .checked hnext⟩
    · exact ⟨hstill, .unhandled hnext⟩
    · exfalso
      refine hnobody user ?_ hdb.mail
      rw [hdb.rows]
      simp
  | unhandled hunhandled =>
    exact ⟨(hunhandled.advance db).1, .unhandled (hunhandled.advance db).2⟩

end Statements

section Runs
variable {ι : Type} (signUps : ι → SignUp email) (db₀ : Database)

def signUpStart : SignUpSystem ι := start (fun i => (signUps i).prog settings lib) db₀

/-- One call has returned, and its account and the pending job are all that was added; the others
    were told that the e-mail is taken. -/
def ResolvedCleanly (email : String) (db₀ : Database) (S : SignUpSystem ι) : Prop :=
  ∃ i response user job, S.session i = .finished (.ok response) ∧
    S.committed = { db₀ with
      users := db₀.users ++ [user]
      notificationJobs := db₀.notificationJobs ++ [job] } ∧
    user.email = email ∧ VerifiesAccount user job ∧
    ∀ j, j ≠ i → S.session j = .finished (.error emailExists)

variable [Fintype ι] [DecidableEq ι]

/-- In the run `tr` there is a moment at which an account with the e-mail is committed and all calls
    but one have not executed their existence check. -/
def CommittedBeforeOtherChecks (tr : List ι) (S : SignUpSystem ι) : Prop :=
  ∃ i tr₁ T tr₂, tr = tr₁ ++ tr₂ ∧ Run step (signUpStart settings lib signUps db₀) tr₁ T ∧
    Run step T tr₂ S ∧ (∃ u ∈ T.committed.users, u.email = email) ∧
    ∀ j, j ≠ i → T.session j = .auto ((signUps j).prog settings lib)

variable {settings lib signUps db₀} {S : SignUpSystem ι} {tr : List ι}

/-- The sign-ups race for the account with the e-mail; the winner and its rows decide the rest. -/
def signUpRace (settings : Settings) (lib : AccountLib) (signUps : ι → SignUp email)
    (h₀ : ∀ u ∈ db₀.users, u.email ≠ email) :
    Race ApiError RegisterResponse ι (ι × User × NotificationJob) sameEmails where
  Free db := db = db₀
  Won db w := AccountAdded email db₀ db w.2.1 w.2.2
  Known db := ∃ u ∈ db.users, u.email = email
  Fresh i s := s = .auto ((signUps i).prog settings lib)
  Before _ i := (signUps i).Racing settings lib
  Winner w i s := i = w.1 ∧ ∃ response, s = .finished (.ok response)
  Fine w i s := (i = w.1 ∧ ∃ response, s = .finished (.ok response)) ∨
    (signUps i).Refused settings lib s
  Lost i := (signUps i).TooEarly settings lib
  symm := RowLock.conflict_comm
  same_refl := sameEmails_refl
  known h := ⟨_, by rw [h.rows]; simp, h.mail⟩
  unknown := by
    rintro db rfl ⟨u, hu, hmail⟩
    exact h₀ u hu hmail
  waiting := by
    rintro i s rfl
    rfl
  fresh_before := by
    rintro db i s - rfl
    exact .fresh
  before := by
    rintro db i s rfl hracing
    rcases hracing.advance h₀ with hstill | ⟨user, hadded, hdone, hlock⟩
    · exact Or.inl hstill
    · refine Or.inr ⟨(i, user, _), hadded, ⟨rfl, _, hdone⟩, changesWithin_newUser hlock ?_⟩
      rw [hadded.rows]
  overtaken := by
    rintro db db' w i s rfl hadded hracing hsame
    exact hracing.overtaken h₀ hadded hsame
  won := by
    rintro w i s ⟨rfl, response, rfl⟩
    exact ⟨rfl, Or.inl ⟨rfl, response, rfl⟩⟩
  fresh_fine := by
    rintro i s w rfl
    exact Or.inr .fresh
  fine := by
    rintro db w i s hdb (⟨rfl, response, rfl⟩ | hrefused)
    · exact ⟨rfl, Or.inl ⟨rfl, response, rfl⟩⟩
    · exact ⟨(hrefused.advance h₀ hdb).1, Or.inr (hrefused.advance h₀ hdb).2⟩
  lost hdb h := h.advance hdb

omit [Fintype ι] [DecidableEq ι] in
theorem signUpRace_starts (h₀ : ∀ u ∈ db₀.users, u.email ≠ email) :
    (signUpRace settings lib signUps h₀).Starts (signUpStart settings lib signUps db₀) where
  free := rfl
  fresh _ := rfl
  unlocked _ := rfl

omit [Fintype ι] [DecidableEq ι] in
/-- A call whose check came too early does not end with an answer to the client. -/
theorem ResolvedCleanly.not_tooEarly (h : ResolvedCleanly email db₀ S) (i : ι) :
    ¬ (signUps i).TooEarly settings lib (S.session i) := by
  obtain ⟨first, response, user, job, hfirst, _, _, _, hothers⟩ := h
  intro hearly
  by_cases hi : i = first
  · rw [hi, hfirst] at hearly
    cases hearly with
    | checked hchecked => cases hchecked
    | unhandled hunhandled => cases hunhandled
  · rw [hothers i hi] at hearly
    cases hearly with
    | checked hchecked => cases hchecked
    | unhandled hunhandled =>
      cases hunhandled with
      | ended e he => exact he rfl

theorem ResolvedCleanly.committedBeforeOtherChecks (h₀ : ∀ u ∈ db₀.users, u.email ≠ email)
    (h : Run step (signUpStart settings lib signUps db₀) tr S)
    (hclean : ResolvedCleanly email db₀ S) :
    CommittedBeforeOtherChecks settings lib signUps db₀ tr S := by
  refine Race.oneBefore_of_not_lost (signUpRace_starts h₀) h ?_ hclean.not_tooEarly
  intro hfree
  obtain ⟨_, _, user, _, _, hrows, _⟩ := hclean
  have hlength := congrArg (fun db : Database => db.users.length) (hrows.symm.trans hfree)
  simp at hlength

theorem CommittedBeforeOtherChecks.resolvedCleanly (h₀ : ∀ u ∈ db₀.users, u.email ≠ email)
    (hdone : ∀ i, (S.session i).isFinished = true)
    (h : CommittedBeforeOtherChecks settings lib signUps db₀ tr S) :
    ResolvedCleanly email db₀ S := by
  obtain ⟨⟨first, user, job⟩, hS, ⟨i, rfl, response, hi⟩, hfine⟩ :=
    Race.OneBefore.fine (R := signUpRace settings lib signUps h₀) (signUpRace_starts h₀) h
  refine ⟨_, response, user, job, hi, hS.rows, hS.mail, hS.verifies, ?_⟩
  intro j hj
  rcases hfine j with ⟨hsame, _⟩ | hrefused
  · exact absurd hsame hj
  · have hover := hdone j
    generalize S.session j = s at hrefused hover
    cases hrefused with
    | fresh => cases hover
    | found => cases hover
    | ended => rfl

/-- Concurrent sign-ups are resolved cleanly exactly if one account is committed before a second
    call executes its existence check. -/
theorem sign_ups_resolved_iff (settings : Settings) (lib : AccountLib) (email : String)
    (signUps : ι → SignUp email) (db₀ : Database) (h₀ : ∀ u ∈ db₀.users, u.email ≠ email)
    (tr : List ι) (S : SignUpSystem ι) (h : Run step (signUpStart settings lib signUps db₀) tr S)
    (hdone : ∀ i, (S.session i).isFinished = true) :
    ResolvedCleanly email db₀ S ↔ CommittedBeforeOtherChecks settings lib signUps db₀ tr S := by
  constructor
  · intro hclean
    exact hclean.committedBeforeOtherChecks h₀ h
  · intro hbefore
    exact hbefore.resolvedCleanly h₀ hdone

end Runs
end SignUps

section DoubleClick

def doubleClickBody : RegisterRequest where
  email := "dana@school.example"
  password := "correct-horse-battery"
  fullName := "Dana"
  password_length := by decide

def doubleClick : Fin 2 → SignUp "dana@school.example"
  | 0 => ⟨doubleClickBody, "salt", ⟨fun _ => seconds 1, fun n => Fin.ofNat _ (100 + n)⟩, rfl⟩
  | 1 => ⟨doubleClickBody, "pepper", ⟨fun _ => seconds 2, fun n => Fin.ofNat _ (200 + n)⟩, rfl⟩

def doubleClickStart : SignUpSystem (Fin 2) := signUpStart {} plainAccounts doubleClick {}

def endedIn (e : ApiError) (s : SignUpSession) : Bool :=
  match s with
  | .finished (.error e') => decide (e' = e)
  | _ => false

theorem endedIn_eq {e : ApiError} {s : SignUpSession} (h : endedIn e s = true) :
    s = .finished (.error e) := by
  cases s with
  | finished r =>
    cases r with
    | ok a => cases h
    | error e' => rw [of_decide_eq_true h]
  | _ => cases h

theorem doubleClick_run {schedule : List (Fin 2)} {e : ApiError}
    (h : (execute step doubleClickStart schedule).map (fun p =>
      (decide (∀ i, (p.1.session i).isFinished = true), endedIn e (p.1.session 1))) =
        some (true, true)) :
    ∃ (S : SignUpSystem (Fin 2)) (tr : List (Fin 2)), Run step doubleClickStart tr S ∧
      (∀ i, (S.session i).isFinished = true) ∧ S.session 1 = .finished (.error e) := by
  obtain ⟨S, tr, hrun, hend⟩ := execute_map h
  simp only [Prod.mk.injEq, decide_eq_true_eq] at hend
  exact ⟨S, tr, hrun, hend.1, endedIn_eq hend.2⟩

/-- Both checks find nobody. The second INSERT violates the unique e-mail, and the error leaves the
    endpoint as it is. -/
theorem sign_ups_collide :
    ∃ (S : SignUpSystem (Fin 2)) (tr : List (Fin 2)), Run step doubleClickStart tr S ∧
      (∀ i, (S.session i).isFinished = true) ∧
      S.session 1 = .finished (.error (.integrityError .userEmail)) ∧
      ¬ ResolvedCleanly "dana@school.example" {} S := by
  have hrun : (execute step doubleClickStart [0, 1, 0, 1, 0, 0, 0, 1, 1]).map (fun p =>
      (decide (∀ i, (p.1.session i).isFinished = true),
        endedIn (.integrityError .userEmail) (p.1.session 1))) = some (true, true) := by
    decide +kernel
  obtain ⟨S, tr, h, hdone, hsecond⟩ := doubleClick_run hrun
  refine ⟨S, tr, h, hdone, hsecond, ?_⟩
  rintro ⟨i, response, _, _, hi, _, _, _, hothers⟩
  by_cases hfirst : (1 : Fin 2) = i
  · rw [← hfirst, hsecond] at hi
    cases hi
  · have hrefused := hothers 1 hfirst
    rw [hsecond] at hrefused
    cases hrefused

theorem sign_ups_resolved_iff_oneByOne :
    ∃ (S : SignUpSystem (Fin 2)) (tr : List (Fin 2)), Run step doubleClickStart tr S ∧
      S.session 1 = .finished (.error emailExists) ∧
      (ResolvedCleanly "dana@school.example" {} S ↔
        CommittedBeforeOtherChecks {} plainAccounts doubleClick {} tr S) := by
  have hrun : (execute step doubleClickStart [0, 0, 0, 0, 0, 1, 1]).map (fun p =>
      (decide (∀ i, (p.1.session i).isFinished = true), endedIn emailExists (p.1.session 1))) =
        some (true, true) := by decide +kernel
  obtain ⟨S, tr, h, hdone, hsecond⟩ := doubleClick_run hrun
  refine ⟨S, tr, h, hsecond, ?_⟩
  exact sign_ups_resolved_iff {} plainAccounts "dana@school.example" doubleClick {}
    (fun u hu => by cases hu) tr S h hdone

end DoubleClick
end Hefest
