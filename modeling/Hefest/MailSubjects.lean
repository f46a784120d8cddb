import Hefest.MailerPool
import Hefest.SeatRuns

set_option autoImplicit false

namespace Hefest
open Lines Templates Transition

section Build
variable {config : MailerConfig} {content : EmailContent} {to_ : String}

variable (config content to_) in
/-- What `send` raises although connect, login and `send_message` go well. -/
def sendFailure : Option Failure :=
  match buildMessage config content to_ with
  | .ok _ => none
  | .error error => some (classifySmtpError error)

theorem sendFailure_eq_none_iff : sendFailure config content to_ = none ↔
    ∃ message, buildMessage config content to_ = .ok message := by
  unfold sendFailure
  cases buildMessage config content to_ with
  | ok message => exact iff_of_true rfl ⟨message, rfl⟩
  | error error => exact iff_of_false (Option.some_ne_none _) (by rintro ⟨_, h⟩; cases h)

end Build

/-- Every awaited operation returns and nothing is cancelled. -/
def Undisturbed (_ : MailerState) (a : MailerAction) : Prop :=
  match a with
  | .cancelWaiting _ => False
  | .resume _ ending _ => ending = .returns
  | _ => True

def Fitting (config : MailerConfig) (call : SendCall) : SendPhase → Prop
  | .awaiting .sendMessage _ => sendFailure config call.content call.to_ = none
  | .finished ending =>
    ending = (sendFailure config call.content call.to_).elim .returned .raised
  | _ => True

def MovedFitting (config : MailerConfig) (x : MailerState) (i : ℕ) (call : SendCall)
    (y : MailerState) : Prop :=
  ∃ phase, y.sends = x.sends.set i { call with phase := phase } ∧ Fitting config call phase

section Undisturbed
variable {config : MailerConfig} {x y : MailerState} {i client : ℕ} {call : SendCall}

theorem fitting_deliver :
    MovedFitting config x i call (x.deliver config i call client).1 := by
  unfold MailerState.deliver
  cases hbuild : buildMessage config call.content call.to_ with
  | ok message =>
    exact ⟨.awaiting .sendMessage client, rfl, sendFailure_eq_none_iff.mpr ⟨message, hbuild⟩⟩
  | error error =>
    refine ⟨_, MailerState.finish_sends _, ?_⟩
    simp only [Fitting, sendFailure, hbuild, Option.elim_some]

theorem fitting_ensureConnected :
    MovedFitting config x i call (x.ensureConnected config i call client).1 := by
  unfold MailerState.ensureConnected
  split
  · exact fitting_deliver
  · exact ⟨.awaiting .connect client, rfl, trivial⟩

theorem fitting_resume {operation : SmtpOperation}
    (h : Fitting config call (.awaiting operation client)) :
    MovedFitting config x i call (x.resume config i call operation client .returns).1 := by
  cases operation with
  | connect =>
    simp only [MailerState.resume]
    split
    · exact ⟨.awaiting .login client, rfl, trivial⟩
    · exact fitting_deliver
  | login => exact fitting_deliver
  | sendMessage =>
    refine ⟨_, MailerState.finish_sends _, ?_⟩
    have hnone : sendFailure config call.content call.to_ = none := h
    simp only [Fitting, hnone, Option.elim_none]

def CallsFit (config : MailerConfig) (x : MailerState) : Prop :=
  ∀ call ∈ x.sends, Fitting config call call.phase

theorem CallsFit.moved (h : CallsFit config x) {z : MailerState} (hz : z.sends = x.sends)
    (hmoved : MovedFitting config z i call y) : CallsFit config y := by
  obtain ⟨phase, hsends, hfit⟩ := hmoved
  intro other hother
  rw [hsends, hz] at hother
  rcases List.mem_or_eq_of_mem_set hother with hold | heq
  · exact h other hold
  · rw [heq]
    exact hfit

theorem Stepped.callsFit {a : MailerAction} {r : MailerState × List SentOn}
    (hstep : Stepped config x a r) (hcond : Undisturbed x a) (h : CallsFit config x) :
    CallsFit config r.1 := by
  cases hstep with
  | called content to_ =>
    intro call hcall
    rcases List.mem_append.mp hcall with hold | hnew
    · exact h call hold
    · rw [List.mem_singleton.mp hnew]
      trivial
  | got i call client queue hcall hphase hqueue => exact h.moved rfl fitting_ensureConnected
  | gaveUp i call hcall hphase => exact hcond.elim
  | resumed i call operation client ending stays hcall hphase =>
    have hending : ending = .returns := hcond
    subst hending
    have hfit : Fitting config call (.awaiting operation client) := by
      rw [← hphase]
      exact h call (List.mem_of_getElem? hcall)
    exact h.moved rfl (fitting_resume hfit)
  | disconnected client => exact h

/-- Where every operation returns, `send` fails exactly for the message. -/
theorem send_ends_undisturbed {tr : List SentOn}
    (run : RunIf (MailerState.step config) Undisturbed (mailerInit config) tr x) :
    CallsFit config x := by
  induction run with
  | start =>
    intro call hcall
    rw [mailerInit_eq] at hcall
    cases hcall
  | next _ hcond hstep ih => exact (MailerState.step_cases hstep).callsFit hcond ih

end Undisturbed

end Hefest
