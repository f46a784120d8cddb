import Hefest.MailerPool

set_option autoImplicit false

namespace Hefest
open Templates Transition ResourcePool

/-- A connected client is logged in, unless its last connect or login was given up. -/
def SmtpClient.Settled (client : SmtpClient) : Prop :=
  client.isConnected = true → client.abandoned = false → client.loggedIn = true

def AwaitsLogin (x : MailerState) (client : ℕ) : Prop :=
  ∃ (i : ℕ) (call : SendCall), x.sends[i]? = some call ∧ call.phase = .awaiting .login client

structure LoginSound (x : MailerState) : Prop where
  settled : ∀ client, ¬ (x.clients client).Settled → AwaitsLogin x client
  abandoned : ∀ client, (x.clients client).abandoned = true → (x.clients client).loggedIn = false

/-- No call whose message can be built gets a client that is still connected after its last connect
    or login was given up. -/
def SafeCheckout (config : MailerConfig) (x : MailerState) (a : MailerAction) : Prop :=
  match a with
  | .get i =>
    ∀ call ∈ x.sends[i]?, ∀ client ∈ x.queue.head?,
      (∃ message, buildMessage config call.content call.to_ = .ok message) →
      (x.clients client).isConnected = true → (x.clients client).abandoned = false
  | _ => True

namespace MailerState
variable {config : MailerConfig} {x : MailerState} {i client : ℕ} {call : SendCall}

def Moved (x : MailerState) (i : ℕ) (call : SendCall) (y : MailerState) : Prop :=
  (∃ phase, y.sends = x.sends.set i { call with phase := phase }) ∧ y.clients = x.clients

theorem moved_finish (ending : SendEnd) :
    Moved x i call (x.finish config i call client ending) :=
  ⟨⟨.finished ending, finish_sends ending⟩, putNowait_clients⟩

theorem moved_deliver : Moved x i call (x.deliver config i call client).1 := by
  unfold deliver
  cases buildMessage config call.content call.to_ with
  | error error => exact moved_finish _
  | ok message => exact ⟨⟨_, rfl⟩, rfl⟩

variable (config x i client call) in
theorem moved_ensureConnected : Moved x i call (x.ensureConnected config i call client).1 := by
  unfold ensureConnected
  split
  · exact moved_deliver
  · exact ⟨⟨_, rfl⟩, rfl⟩

variable (config x i client call) in
theorem moved_resume (operation : SmtpOperation) (ending : Ending) :
    Moved x i call (x.resume config i call operation client ending).1 := by
  cases ending with
  | raises error => exact moved_finish _
  | cancelled => exact moved_finish _
  | returns =>
    cases operation with
    | connect =>
      simp only [resume]
      split
      · exact ⟨⟨_, rfl⟩, rfl⟩
      · exact moved_deliver
    | login => exact moved_deliver
    | sendMessage => exact moved_finish _

end MailerState

section Logins
variable {config : MailerConfig} {x y : MailerState} {i client : ℕ} {call : SendCall}

theorem AwaitsLogin.set (h : AwaitsLogin x client) (hcall : x.sends[i]? = some call)
    (hphase : call.phase ≠ .awaiting .login client) {call' : SendCall}
    (hsends : y.sends = x.sends.set i call') : AwaitsLogin y client := by
  obtain ⟨j, other, hother, hlogin⟩ := h
  have hne : i ≠ j := by
    rintro rfl
    rw [hcall] at hother
    exact hphase (Option.some.inj hother ▸ hlogin)
  refine ⟨j, other, ?_, hlogin⟩
  rw [hsends, List.getElem?_set_ne hne]
  exact hother

theorem Settled.after_raised {c : SmtpClient} {operation : SmtpOperation} {ending : Ending}
    (hending : ending ≠ .returns) (h : operation = .sendMessage → c.Settled) (stays : Bool) :
    (c.after operation ending stays).Settled := by
  cases operation with
  | connect =>
    cases ending with
    | returns => exact absurd rfl hending
    | _ =>
      intro _ habandoned
      cases habandoned
  | login =>
    cases ending with
    | returns => exact absurd rfl hending
    | cancelled =>
      intro _ habandoned
      cases habandoned
    | raises error =>
      intro _ habandoned
      cases error <;> cases habandoned
  | sendMessage =>
    have hsettled := h rfl
    cases ending with
    | returns => exact absurd rfl hending
    | _ =>
      intro hconnected habandoned
      exact hsettled (Bool.and_eq_true_iff.mp hconnected).1 habandoned

theorem after_abandoned {c : SmtpClient} (h : c.abandoned = true → c.loggedIn = false)
    (operation : SmtpOperation) (ending : Ending) (stays : Bool) :
    (c.after operation ending stays).abandoned = true →
      (c.after operation ending stays).loggedIn = false := by
  cases operation with
  | connect => cases ending <;> exact fun _ => rfl
  | login =>
    cases ending with
    | returns => exact fun habandoned => by cases habandoned
    | cancelled => exact fun _ => rfl
    | raises error => cases error <;> exact fun _ => rfl
  | sendMessage => cases ending <;> exact h

/-- Nobody logs in on a client that is in the queue or has a mail under way. -/
theorem not_awaitsLogin_of_held (hx : x.Sound config) (hcall : x.sends[i]? = some call)
    {operation : SmtpOperation} (hphase : call.phase = .awaiting operation client)
    (hne : operation ≠ .login) : ¬ AwaitsLogin x client := by
  rintro ⟨j, other, hother, hlogin⟩
  have hsame : i = j := hx.circulates.exclusive List.nodup_range
    (MailerState.holders_awaiting hcall hphase) (MailerState.holders_awaiting hother hlogin)
  subst hsame
  have heq : call = other := Option.some.inj (hcall.symm.trans hother)
  subst heq
  rw [hphase] at hlogin
  cases hlogin
  exact hne rfl

theorem not_awaitsLogin_of_queue (hx : x.Sound config) (hqueue : client ∈ x.queue) :
    ¬ AwaitsLogin x client := by
  rintro ⟨j, other, hother, hlogin⟩
  exact hx.circulates.not_idle List.nodup_range (MailerState.holders_awaiting hother hlogin) hqueue

theorem awaitsLogin_of_connected (username : config.smtpUsername ≠ "")
    (hcall : x.sends[i]? = some call) :
    AwaitsLogin (x.resume config i call .connect client .returns).1 client := by
  obtain ⟨hlt, -⟩ := List.getElem?_eq_some_iff.mp hcall
  have hlogin : (x.resume config i call .connect client .returns).1 =
      x.setPhase i call (.awaiting .login client) := by
    simp only [MailerState.resume, if_pos username]
  rw [hlogin]
  exact ⟨i, { call with phase := .awaiting .login client }, List.getElem?_set_self hlt, rfl⟩

theorem settled_or_awaitsLogin (h : LoginSound x) (hx : x.Sound config)
    (username : config.smtpUsername ≠ "") (hcall : x.sends[i]? = some call)
    {operation : SmtpOperation} (hphase : call.phase = .awaiting operation client)
    (ending : Ending) (stays : Bool) :
    ((x.clients client).after operation ending stays).Settled ∨
      AwaitsLogin ((x.setClient client ((x.clients client).after operation ending stays)).resume
        config i call operation client ending).1 client := by
  have hbefore (hsend : operation = .sendMessage) : (x.clients client).Settled := by
    by_contra hnot
    refine not_awaitsLogin_of_held hx hcall hphase ?_ (h.settled client hnot)
    rw [hsend]
    decide
  cases ending with
  | returns =>
    cases operation with
    | connect => exact Or.inr (awaitsLogin_of_connected username hcall)
    | login => exact Or.inl (fun _ _ => rfl)
    | sendMessage => exact Or.inl (hbefore rfl)
  | raises error =>
    left
    apply Settled.after_raised _ hbefore
    intro hending
    cases hending
  | cancelled =>
    left
    apply Settled.after_raised _ hbefore
    intro hending
    cases hending

/-- A step that gives `client` another value keeps what it has to keep for that client alone. -/
theorem LoginSound.setClient (h : LoginSound x) {value : SmtpClient}
    (hclients : y.clients = (x.setClient client value).clients)
    (hsettled : value.Settled ∨ AwaitsLogin y client)
    (habandoned : value.abandoned = true → value.loggedIn = false)
    (hother : ∀ c, c ≠ client → AwaitsLogin x c → AwaitsLogin y c) : LoginSound y := by
  refine ⟨fun c hc => ?_, fun c hc => ?_⟩
  · rw [hclients] at hc
    by_cases hsame : c = client
    · subst hsame
      rw [MailerState.setClient_clients_self] at hc
      exact hsettled.resolve_left hc
    · rw [MailerState.setClient_clients_of_ne hsame] at hc
      exact hother c hsame (h.settled c hc)
  · rw [hclients] at hc ⊢
    by_cases hsame : c = client
    · subst hsame
      rw [MailerState.setClient_clients_self] at hc ⊢
      exact habandoned hc
    · rw [MailerState.setClient_clients_of_ne hsame] at hc ⊢
      exact h.abandoned c hc

theorem LoginSound.resumed (h : LoginSound x) (hx : x.Sound config)
    (username : config.smtpUsername ≠ "") (hcall : x.sends[i]? = some call)
    {operation : SmtpOperation} (hphase : call.phase = .awaiting operation client)
    (ending : Ending) (stays : Bool) :
    LoginSound ((x.setClient client ((x.clients client).after operation ending stays)).resume
      config i call operation client ending).1 := by
  have hclient := settled_or_awaitsLogin h hx username hcall hphase ending stays
  obtain ⟨⟨phase, hsends⟩, hclients⟩ := MailerState.moved_resume config
    (x.setClient client ((x.clients client).after operation ending stays)) i client call
    operation ending
  refine h.setClient hclients hclient
    (after_abandoned (h.abandoned client) operation ending stays) (fun c hne hlogin => ?_)
  refine hlogin.set hcall ?_ hsends
  rw [hphase]
  intro heq
  cases heq
  exact hne rfl

theorem Stepped.loginSound {a : MailerAction} {r : MailerState × List SentOn}
    (hstep : Stepped config x a r) (h : LoginSound x) (hx : x.Sound config)
    (username : config.smtpUsername ≠ "") : LoginSound r.1 := by
  cases hstep with
  | called content to_ =>
    refine ⟨fun c hc => ?_, h.abandoned⟩
    obtain ⟨i, call, hcall, hlogin⟩ := h.settled c hc
    obtain ⟨hlt, -⟩ := List.getElem?_eq_some_iff.mp hcall
    refine ⟨i, call, ?_, hlogin⟩
    rw [List.getElem?_append_left hlt]
    exact hcall
  | got i call client queue hcall hphase hqueue =>
    obtain ⟨⟨phase, hsends⟩, hclients⟩ := MailerState.moved_ensureConnected config
      { x with queue := queue } i client call
    refine ⟨fun c hc => ?_, fun c hc => ?_⟩
    · rw [hclients] at hc
      refine (h.settled c hc).set hcall ?_ hsends
      rw [hphase]
      intro heq
      cases heq
    · rw [hclients] at hc ⊢
      exact h.abandoned c hc
  | gaveUp i call hcall hphase =>
    refine ⟨fun c hc => ?_, h.abandoned⟩
    refine (h.settled c hc).set hcall ?_ rfl
    rw [hphase]
    intro heq
    cases heq
  | resumed i call operation client ending stays hcall hphase =>
    exact h.resumed hx username hcall hphase ending stays
  | disconnected client =>
    have hsettled : ({ x.clients client with isConnected := false } : SmtpClient).Settled := by
      intro hconnected
      cases hconnected
    exact h.setClient rfl (Or.inl hsettled) (h.abandoned client) (fun _ _ hlogin => hlogin)

end Logins

section Mails
variable {config : MailerConfig} {x : MailerState} {i client : ℕ} {call : SendCall}

theorem deliver_sent (hlogged : (x.clients client).loggedIn = true) :
    ∀ sent ∈ (x.deliver config i call client).2, sent.loggedIn = true := by
  unfold MailerState.deliver
  cases buildMessage config call.content call.to_ with
  | error error => simp
  | ok message =>
    intro sent hsent
    rw [List.mem_singleton.mp hsent]
    exact hlogged

theorem resume_sent (username : config.smtpUsername ≠ "") (operation : SmtpOperation)
    (ending : Ending) (stays : Bool) :
    ∀ sent ∈ ((x.setClient client ((x.clients client).after operation ending stays)).resume
      config i call operation client ending).2, sent.loggedIn = true := by
  cases ending with
  | raises error => simp [MailerState.resume]
  | cancelled => simp [MailerState.resume]
  | returns =>
    cases operation with
    | connect => simp [MailerState.resume, username]
    | login =>
      apply deliver_sent
      rw [MailerState.setClient_clients_self]
      rfl
    | sendMessage => simp [MailerState.resume]

/-- The mails of a checkout are sent on a logged in connection if and only if it is safe. -/
theorem checkout_sent_iff (h : LoginSound x) (hx : x.Sound config) {queue : List ℕ}
    (hcall : x.sends[i]? = some call) (hqueue : x.queue = client :: queue) :
    (∀ sent ∈ (MailerState.ensureConnected config { x with queue := queue } i call client).2,
        sent.loggedIn = true) ↔ SafeCheckout config x (.get i) := by
  have hsafe : SafeCheckout config x (.get i) ↔
      ((∃ message, buildMessage config call.content call.to_ = .ok message) →
        (x.clients client).isConnected = true → (x.clients client).abandoned = false) := by
    unfold SafeCheckout
    simp only [hcall, hqueue, Option.mem_def, Option.some.injEq, List.head?_cons, forall_eq']
  have hsettled : (x.clients client).Settled := by
    by_contra hnot
    have hmem : client ∈ x.queue := by
      rw [hqueue]
      exact List.mem_cons_self
    exact not_awaitsLogin_of_queue hx hmem (h.settled client hnot)
  rw [hsafe]
  unfold MailerState.ensureConnected
  by_cases hconnected : (x.clients client).isConnected = true
  · rw [if_pos hconnected]
    unfold MailerState.deliver
    cases buildMessage config call.content call.to_ with
    | error error => exact iff_of_true (by simp) (fun ⟨message, hbuild⟩ => by cases hbuild)
    | ok message =>
      constructor
      · intro hsent _ _
        have hlogged : (x.clients client).loggedIn = true := hsent _ (List.mem_singleton_self _)
        by_contra hnot
        rw [h.abandoned client (Bool.eq_true_of_not_eq_false hnot)] at hlogged
        cases hlogged
      · intro hnot sent hsent
        rw [List.mem_singleton.mp hsent]
        exact hsettled hconnected (hnot ⟨message, rfl⟩ hconnected)
  · rw [if_neg hconnected]
    exact iff_of_true (by simp) (fun _ h => absurd h hconnected)

theorem Stepped.sent_iff {a : MailerAction} {r : MailerState × List SentOn}
    (hstep : Stepped config x a r) (h : LoginSound x) (hx : x.Sound config)
    (username : config.smtpUsername ≠ "") :
    (∀ sent ∈ r.2, sent.loggedIn = true) ↔ SafeCheckout config x a := by
  cases hstep with
  | called content to_ => exact iff_of_true (by simp) trivial
  | got i call client queue hcall hphase hqueue => exact checkout_sent_iff h hx hcall hqueue
  | gaveUp i call hcall hphase => exact iff_of_true (by simp) trivial
  | resumed i call operation client ending stays hcall hphase =>
    exact iff_of_true (resume_sent username operation ending stays) trivial
  | disconnected client => exact iff_of_true (by simp) trivial

end Mails

section Runs
variable {config : MailerConfig} {x : MailerState} {tr : List SentOn}

theorem mailerInit_loginSound : LoginSound (mailerInit config) := by
  rw [mailerInit_eq]
  refine ⟨fun c hc => absurd ?_ hc, fun c _ => rfl⟩
  intro hconnected
  cases hconnected

theorem run_loginSound (username : config.smtpUsername ≠ "")
    (h : Run (MailerState.step config) (mailerInit config) tr x) :
    LoginSound x ∧ x.Sound config :=
  h.invariant (fun _ x => LoginSound x ∧ x.Sound config) ⟨mailerInit_loginSound, mailerInit_sound⟩
    (fun _ _ _ _ _ hx hstep =>
      ⟨(MailerState.step_cases hstep).loginSound hx.1 hx.2 username,
        (MailerState.step_cases hstep).sound hx.2⟩)

/-- Every mail of a run is sent on a logged in connection if and only if every checkout of the run
    is safe. -/
theorem mails_are_authenticated_iff (config : MailerConfig) (username : config.smtpUsername ≠ "")
    {x : MailerState} {tr : List SentOn}
    (run : Run (MailerState.step config) (mailerInit config) tr x) :
    (∀ sent ∈ tr, sent.loggedIn = true) ↔
      RunIf (MailerState.step config) (SafeCheckout config) (mailerInit config) tr x := by
  constructor
  · intro hsent
    induction run with
    | start => exact .start
    | next before hstep ih =>
      obtain ⟨hlogin, hx⟩ := run_loginSound username before
      have hbefore := ih (fun sent hmem => hsent sent (List.mem_append_left _ hmem))
      refine .next hbefore ?_ hstep
      refine ((MailerState.step_cases hstep).sent_iff hlogin hx username).mp (fun sent hmem => ?_)
      exact hsent sent (List.mem_append_right _ hmem)
  · intro hrun
    induction hrun with
    | start => simp
    | next before hsafe hstep ih =>
      obtain ⟨hlogin, hx⟩ := run_loginSound username before.run
      have hlast := ((MailerState.step_cases hstep).sent_iff hlogin hx username).mpr hsafe
      intro sent hmem
      rcases List.mem_append.mp hmem with hold | hnew
      · exact ih before.run sent hold
      · exact hlast sent hnew

end Runs

def oneClient : MailerConfig := { smtpUsername := "mailer", workerSendConcurrency := 1 }

theorem mails_are_authenticated_iff_retried :
    ∃ (x : MailerState) (tr : List SentOn), tr = [⟨1, 0, true⟩] ∧
      RunIf (MailerState.step oneClient) (SafeCheckout oneClient) (mailerInit oneClient) tr x := by
  have hrun : (execute (MailerState.step oneClient) (mailerInit oneClient)
      [.call ⟨"a", ""⟩ "x", .get 0, .resume 0 .returns true,
        .resume 0 (.raises (.timeout "login")) false, .call ⟨"b", ""⟩ "y", .get 1,
        .resume 1 .returns true, .resume 1 .returns true]).map
      (fun r => r.2) = some [⟨1, 0, true⟩] := by decide
  obtain ⟨x, tr, run, htr⟩ := execute_map hrun
  refine ⟨x, tr, htr, (mails_are_authenticated_iff oneClient (by decide) run).mp ?_⟩
  have heq : tr = [⟨1, 0, true⟩] := htr
  rw [heq]
  decide

/-- The server answers a login with 535; the next call sends on the same connection. -/
theorem rejectedLogin_left_connected :
    ∃ (x : MailerState) (tr : List SentOn),
      Run (MailerState.step oneClient) (mailerInit oneClient) tr x ∧
        ∃ sent ∈ tr, sent.loggedIn = false := by
  have hrun : (execute (MailerState.step oneClient) (mailerInit oneClient)
      [.call ⟨"a", ""⟩ "x", .get 0, .resume 0 .returns true,
        .resume 0 (.raises (.response 535 "authentication failed")) true, .call ⟨"b", ""⟩ "y",
        .get 1]).map
      (fun r => r.2) = some [⟨1, 0, false⟩] := by decide
  obtain ⟨x, tr, run, htr⟩ := execute_map hrun
  have heq : tr = [⟨1, 0, false⟩] := htr
  refine ⟨x, tr, run, ⟨1, 0, false⟩, ?_, rfl⟩
  rw [heq]
  exact List.mem_singleton_self _

end Hefest
