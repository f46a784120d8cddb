import Hefest.Consumer
import Hefest.Templates
import Hefest.Lib.ResourcePool
import Hefest.Lib.Lines

set_option autoImplicit false

/-!
# The mailer

`Mailer.send`, any number of calls at once over one pool of SMTP clients, one step per await point.
The environment decides how each awaited operation ends and whether a connection outlives a
failure.
-/
namespace Hefest
open Templates Transition ResourcePool

structure MailerConfig where
  smtpFrom : String := "noreply@hefest.local"
  smtpUsername : String := ""
  workerSendConcurrency : ℕ := 10

inductive SmtpError
  /-- `asyncio.TimeoutError`, `SMTPTimeoutError` included. -/
  | timeout (text : String)
  | recipientsRefused (codes : List ℤ) (text : String)
  /-- `SMTPResponseException` with all its subclasses. -/
  | response (code : ℤ) (message : String)
  | serverDisconnected (text : String)
  | connectError (text : String)
  | osError (text : String)
  | smtpException (text : String)
  | unexpected (text : String)
deriving DecidableEq

def codesRepr (codes : List ℤ) : String := "[" ++ ", ".intercalate (codes.map toString) ++ "]"

def classifySmtpError : SmtpError → Failure
  | .timeout text => .transientError ("SMTP timeout: " ++ text)
  | .recipientsRefused codes text =>
    if codes.max?.any (fun code => decide (500 ≤ code)) then
      .permanentError
        ("SMTP recipients refused (permanent, codes=" ++ codesRepr codes ++ "): " ++ text)
    else
      .transientError
        ("SMTP recipients refused (transient, codes=" ++ codesRepr codes ++ "): " ++ text)
  | .response code message =>
    if 500 ≤ code then .permanentError ("SMTP " ++ toString code ++ ": " ++ message)
    else .transientError ("SMTP " ++ toString code ++ ": " ++ message)
  | .serverDisconnected text | .connectError text | .osError text =>
    .transientError ("SMTP connection error: " ++ text)
  | .smtpException text => .transientError ("SMTP error: " ++ text)
  | .unexpected text => .transientError ("Unexpected SMTP error: " ++ text)

structure EmailMessage where
  from_ : String
  to_ : String
  subject : String
  content : String
deriving DecidableEq

/-- What `EmailMessage` makes of the value of a header: one line at most, whose end may be there. -/
def headerValue (value : String) : Except SmtpError String :=
  if 1 < (Lines.splitlines value).length then
    .error (.unexpected "Header values may not contain linefeed or carriage return characters")
  else .ok value

/-- The lines of `send` that fill the message. -/
def buildMessage (config : MailerConfig) (content : EmailContent) (to_ : String) :
    Except SmtpError EmailMessage := do
  let sender ← headerValue config.smtpFrom
  let recipient ← headerValue to_
  let subject ← headerValue content.subject
  return ⟨sender, recipient, subject, content.body⟩

structure SmtpClient where
  isConnected : Bool := false
  /-- A login has completed since the last connect. -/
  loggedIn : Bool := false
  /-- The last connect or login has failed or was cancelled. -/
  abandoned : Bool := false
deriving DecidableEq

inductive SmtpOperation
  | connect | login | sendMessage
deriving DecidableEq

inductive Ending
  | returns
  | raises (error : SmtpError)
  | cancelled

/-- `stays` says whether the connection outlives the end. An error response to a login leaves it
    as it is. -/
def SmtpClient.after (client : SmtpClient) (operation : SmtpOperation) (ending : Ending)
    (stays : Bool) : SmtpClient :=
  match operation, ending with
  | .connect, .returns => { isConnected := true }
  | .connect, _ => { isConnected := stays, abandoned := true }
  | .login, .returns => { client with loggedIn := true, abandoned := false }
  | .login, .raises (.response _ _) => { client with loggedIn := false, abandoned := true }
  | .login, _ =>
    { isConnected := client.isConnected && stays, loggedIn := false, abandoned := true }
  | .sendMessage, .returns => client
  | .sendMessage, _ => { client with isConnected := client.isConnected && stays }

inductive SendEnd
  | returned
  | raised (failure : Failure)
  | cancelled

inductive SendPhase
  /-- In `self._pool.get()`. -/
  | waiting
  | awaiting (operation : SmtpOperation) (client : ℕ)
  | finished (ending : SendEnd)

def SendPhase.client? : SendPhase → Option ℕ
  | .awaiting _ client => some client
  | _ => none

structure SendCall where
  content : EmailContent
  to_ : String
  phase : SendPhase := .waiting

structure MailerState where
  /-- The clients in the queue, by the order in which `__init__` has created them. -/
  queue : List ℕ := []
  clients : ℕ → SmtpClient := fun _ => {}
  sends : List SendCall := []
  /-- `put_nowait` has raised `QueueFull`. -/
  overflowed : Bool := false

inductive MailerAction
  | call (content : EmailContent) (to_ : String)
  | get (i : ℕ)
  | cancelWaiting (i : ℕ)
  | resume (i : ℕ) (ending : Ending) (stays : Bool)
  | disconnect (client : ℕ)

/-- An invocation of `send_message`, with what the client was at that moment. -/
structure SentOn where
  call : ℕ
  client : ℕ
  loggedIn : Bool
deriving DecidableEq

namespace MailerState
variable (config : MailerConfig) (x : MailerState)

def putNowait (client : ℕ) : MailerState :=
  if config.workerSendConcurrency = 0 ∨ x.queue.length < config.workerSendConcurrency then
    { x with queue := x.queue ++ [client] }
  else { x with overflowed := true }

def setPhase (i : ℕ) (call : SendCall) (phase : SendPhase) : MailerState :=
  { x with sends := x.sends.set i { call with phase := phase } }

def setClient (client : ℕ) (value : SmtpClient) : MailerState :=
  { x with clients := Function.update x.clients client value }

/-- The `finally` block. -/
def finish (i : ℕ) (call : SendCall) (client : ℕ) (ending : SendEnd) : MailerState :=
  (x.putNowait config client).setPhase i call (.finished ending)

def deliver (i : ℕ) (call : SendCall) (client : ℕ) : MailerState × List SentOn :=
  match buildMessage config call.content call.to_ with
  | .error error => (x.finish config i call client (.raised (classifySmtpError error)), [])
  | .ok _ =>
    (x.setPhase i call (.awaiting .sendMessage client), [⟨i, client, (x.clients client).loggedIn⟩])

def ensureConnected (i : ℕ) (call : SendCall) (client : ℕ) : MailerState × List SentOn :=
  if (x.clients client).isConnected then x.deliver config i call client
  else (x.setPhase i call (.awaiting .connect client), [])

def resume (i : ℕ) (call : SendCall) (operation : SmtpOperation) (client : ℕ) (ending : Ending) :
    MailerState × List SentOn :=
  match ending with
  | .raises error => (x.finish config i call client (.raised (classifySmtpError error)), [])
  | .cancelled => (x.finish config i call client .cancelled, [])
  | .returns =>
    match operation with
    | .connect =>
      if config.smtpUsername ≠ "" then (x.setPhase i call (.awaiting .login client), [])
      else x.deliver config i call client
    | .login => x.deliver config i call client
    | .sendMessage => (x.finish config i call client .returned, [])

def step : MailerAction → Option (MailerState × List SentOn)
  | .call content to_ => some ({ x with sends := x.sends ++ [⟨content, to_, .waiting⟩] }, [])
  | .get i =>
    match x.sends[i]?, x.queue with
    | some call, client :: queue =>
      match call.phase with
      | .waiting => some (ensureConnected config { x with queue := queue } i call client)
      | _ => none
    | _, _ => none
  | .cancelWaiting i =>
    match x.sends[i]? with
    | some call =>
      match call.phase with
      | .waiting => some (x.setPhase i call (.finished .cancelled), [])
      | _ => none
    | none => none
  | .resume i ending stays =>
    match x.sends[i]? with
    | some call =>
      match call.phase with
      | .awaiting operation client =>
        some ((x.setClient client ((x.clients client).after operation ending stays)).resume config
          i call operation client ending)
      | _ => none
    | none => none
  | .disconnect client =>
    some (x.setClient client { x.clients client with isConnected := false }, [])

end MailerState

def mailerInit (config : MailerConfig) : MailerState :=
  (List.range config.workerSendConcurrency).foldl (fun x client => x.putNowait config client) {}

end Hefest
