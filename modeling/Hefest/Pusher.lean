import Hefest.Lib.Json
import Hefest.Lib.Slices
import Hefest.Templates

set_option autoImplicit false

namespace Hefest
open Slices PushTemplates

structure Device where
  id : UUID
  userId : UUID
  expoPushToken : String
deriving DecidableEq

structure PushMessage where
  to_ : String
  title : String
  body : String
  data : Json

/-- Why a body gives no tickets before they are read: it is not JSON, or it is nested too deeply for
    the interpreter, be it to decode it or to write one of its tickets to the log. -/
inductive DecodeError
  | valueError
  | recursionError
deriving DecidableEq

/-- A response of Expo; `body` is what its text decodes to. -/
structure ExpoResponse where
  status : ℕ
  body : Except DecodeError Json

inductive PushError
  | httpError
  | valueError
  | recursionError
  | attributeError
  | typeError
deriving DecidableEq

def PushError.ofDecode : DecodeError → PushError
  | .valueError => .valueError
  | .recursionError => .recursionError

def PushError.ofRead : Json.ReadError → PushError
  | .attributeError => .attributeError
  | .typeError => .typeError

def maxTokensPerRequest : ℕ := 100

/-- The exceptions that `_send_batch` logs and swallows. -/
def swallowedErrors : List PushError := [.httpError, .valueError]

def ExpoResponse.raiseForStatus (response : ExpoResponse) : Except PushError Unit :=
  if 200 ≤ response.status ∧ response.status < 300 then .ok () else .error .httpError

def ExpoResponse.json (response : ExpoResponse) : Except PushError Json :=
  response.body.mapError .ofDecode

/-- The body of the `try` of `_send_batch`. Without a response the transport has failed. -/
def readTickets (reply : Option ExpoResponse) : Except PushError Json :=
  match reply with
  | none => .error .httpError
  | some response =>
    response.raiseForStatus.bind fun _ =>
      response.json.bind fun body =>
        (body.getD "data" (.array [])).mapError .ofRead

def isUnregistered (ticket : Json) : Except Json.ReadError Bool :=
  (ticket.get "status").bind fun status =>
    if Json.isString status "error" then
      (ticket.getD "details" (.object [])).bind fun details =>
        (details.get "error").map fun error => Json.isString error "DeviceNotRegistered"
    else .ok false

/-- The comprehension over `zip(tokens, tickets)`. -/
def deadTokens : List (String × Json) → Except Json.ReadError (List String)
  | [] => .ok []
  | (token, ticket) :: rest =>
    (isUnregistered ticket).bind fun dead =>
      (deadTokens rest).map fun tokens => if dead then token :: tokens else tokens

/-- The loop that logs the other errors; the tokens it names. -/
def loggedTokens : List (String × Json) → Except Json.ReadError (List String)
  | [] => .ok []
  | (token, ticket) :: rest =>
    (ticket.get "status").bind fun status =>
      (if Json.isString status "error" then isUnregistered ticket else .ok true).bind fun known =>
        (loggedTokens rest).map fun tokens => if known then tokens else token :: tokens

/-- What one call has done: the requests it has posted, the tokens it has deleted, the rows of
    `devices`, and the exception it has raised. -/
structure PushRun where
  posted : List (List PushMessage) := []
  deleted : List String := []
  devices : List Device
  raised : Option PushError := none

/-- `Device.filter(expo_push_token__in=dead_tokens).delete()`, if there are any. -/
def PushRun.prune (run : PushRun) (dead : List String) : PushRun :=
  if dead = [] then run
  else
    { run with
      deleted := run.deleted ++ dead
      devices := run.devices.filter (fun device => device.expoPushToken ∉ dead) }

section Send
variable (replies : ℕ → Option ExpoResponse) (content : PushContent) (data : Json)

def pushMessages (tokens : List String) : List PushMessage :=
  tokens.map fun token => ⟨token, content.title, content.body, data⟩

/-- The part of `_send_batch` behind the `try`. -/
def handleTickets (tokens : List String) (tickets : Json) : Except Json.ReadError (List String) :=
  tickets.iter.bind fun tickets =>
    (deadTokens (tokens.zip tickets)).bind fun dead =>
      (loggedTokens (tokens.zip tickets)).map fun _ => dead

/-- `_send_batch`; the answer to the `k`-th request is `replies k`. -/
def sendBatch (run : PushRun) (tokens : List String) : PushRun :=
  let posted := { run with posted := run.posted ++ [pushMessages content data tokens] }
  match readTickets (replies run.posted.length) with
  | .error error =>
    if error ∈ swallowedErrors then posted else { posted with raised := some error }
  | .ok tickets =>
    match handleTickets tokens tickets with
    | .error error => { posted with raised := some (.ofRead error) }
    | .ok dead => posted.prune dead

/-- The loop of `send_to_tokens`; an exception leaves it. -/
def sendBatches (tokens : List String) : List ℕ → PushRun → PushRun
  | [], run => run
  | start :: rest, run =>
    let next := sendBatch replies content data run (slice maxTokensPerRequest tokens start)
    match next.raised with
    | none => sendBatches tokens rest next
    | some _ => next

def sendToTokens (tokens : List String) (devices : List Device) : PushRun :=
  if tokens = [] then { devices := devices }
  else
    sendBatches replies content data tokens (starts maxTokensPerRequest tokens.length)
      { devices := devices }

def pushBatches (tokens : List String) : List (List String) :=
  (starts maxTokensPerRequest tokens.length).map (slice maxTokensPerRequest tokens)

end Send

def Readable (ticket : Json) : Prop :=
  ∃ members, ticket = .object members ∧
    (Json.member members "status" = some (.string "error") →
      ∀ details ∈ Json.member members "details", ∃ inner, details = .object inner)

def ReportsDead (ticket : Json) : Prop :=
  ∃ members details, ticket = .object members ∧
    Json.member members "status" = some (.string "error") ∧
    Json.member members "details" = some (.object details) ∧
    Json.member details "error" = some (.string "DeviceNotRegistered")

/-- What `zip` with a batch of `n` tokens and the loops over it can read. -/
def TicketsReadable (n : ℕ) (tickets : Json) : Prop :=
  match tickets with
  | .array items => ∀ i < n, ∀ ticket ∈ items[i]?, Readable ticket
  | .object members => members = []
  | .string text => text = ""
  | _ => False

/-- A failure that is swallowed, or a body with readable tickets. -/
def Digestible (n : ℕ) (reply : Option ExpoResponse) : Prop :=
  ∀ response ∈ reply, (200 ≤ response.status ∧ response.status < 300) →
    response.body = .error .valueError ∨ ∃ members, response.body = .ok (.object members) ∧
      TicketsReadable n ((Json.member members "data").getD (.array []))

section Tickets
variable {ticket : Json} {members : List (String × Json)}

theorem isUnregistered_object (hstatus : Json.member members "status" = some (.string "error")) :
    isUnregistered (.object members) =
      (((Json.member members "details").getD (.object [])).get "error").map
        fun error => Json.isString error "DeviceNotRegistered" := by
  have herror : Json.isString (Json.member members "status") "error" = true :=
    Json.isString_iff.mpr hstatus
  simp only [isUnregistered, Json.getD, Json.get_object, Except.bind, Except.map, if_pos herror]

theorem isUnregistered_noError (hstatus : Json.member members "status" ≠ some (.string "error")) :
    isUnregistered (.object members) = .ok false := by
  have herror : ¬ Json.isString (Json.member members "status") "error" = true := fun h =>
    hstatus (Json.isString_iff.mp h)
  simp only [isUnregistered, Json.get_object, Except.bind, if_neg herror]

theorem isUnregistered_ok_iff : (∃ dead, isUnregistered ticket = .ok dead) ↔ Readable ticket := by
  cases ticket with
  | object members =>
    by_cases hstatus : Json.member members "status" = some (.string "error")
    · rw [isUnregistered_object hstatus]
      have hread : Readable (.object members) ↔ ∃ inner,
          (Json.member members "details").getD (.object []) = .object inner := by
        cases hdetails : Json.member members "details" with
        | none =>
          exact iff_of_true ⟨members, rfl, fun _ details h => by simp [hdetails] at h⟩ ⟨[], rfl⟩
        | some details =>
          constructor
          · rintro ⟨members', hmembers, h⟩
            cases hmembers
            exact h hstatus details hdetails
          · rintro ⟨inner, hinner⟩
            refine ⟨members, rfl, fun _ details' h => ?_⟩
            rw [hdetails, Option.mem_some_iff] at h
            exact ⟨inner, h ▸ hinner⟩
      rw [hread, ← Json.get_ok_iff "error"]
      cases ((Json.member members "details").getD (.object [])).get "error" with
      | ok error => exact iff_of_true ⟨_, rfl⟩ ⟨error, rfl⟩
      | error e =>
        refine iff_of_false ?_ ?_
        · rintro ⟨dead, h⟩
          cases h
        · rintro ⟨found, h⟩
          cases h
    · rw [isUnregistered_noError hstatus]
      exact iff_of_true ⟨false, rfl⟩ ⟨members, rfl, fun h => absurd h hstatus⟩
  | _ =>
    refine iff_of_false ?_ ?_
    · rintro ⟨dead, h⟩
      cases h
    · rintro ⟨members, h, -⟩
      cases h

theorem isUnregistered_true_iff : isUnregistered ticket = .ok true ↔ ReportsDead ticket := by
  constructor
  · intro h
    obtain ⟨members, rfl, hdetails⟩ := isUnregistered_ok_iff.mp ⟨true, h⟩
    by_cases hstatus : Json.member members "status" = some (.string "error")
    · rw [isUnregistered_object hstatus] at h
      cases hfound : Json.member members "details" with
      | none =>
        rw [hfound] at h
        cases h
      | some details =>
        obtain ⟨inner, rfl⟩ := hdetails hstatus details hfound
        rw [hfound, Option.getD_some, Json.get_object] at h
        have herror : Json.isString (Json.member inner "error") "DeviceNotRegistered" = true :=
          Except.ok.inj h
        exact ⟨members, inner, rfl, hstatus, hfound, Json.isString_iff.mp herror⟩
    · rw [isUnregistered_noError hstatus] at h
      cases h
  · rintro ⟨members, details, rfl, hstatus, hfound, herror⟩
    rw [isUnregistered_object hstatus, hfound, Option.getD_some, Json.get_object]
    exact congrArg Except.ok (Json.isString_iff.mpr herror)

end Tickets

section Pairs
variable {pairs : List (String × Json)} {dead tokens : List String}

theorem deadTokens_cons (token : String) (ticket : Json) (rest : List (String × Json)) :
    deadTokens ((token, ticket) :: rest) =
      (isUnregistered ticket).bind fun dead =>
        (deadTokens rest).map fun tokens => if dead then token :: tokens else tokens := rfl

theorem deadTokens_ok_iff :
    (∃ dead, deadTokens pairs = .ok dead) ↔ ∀ pair ∈ pairs, Readable pair.2 := by
  induction pairs with
  | nil => exact iff_of_true ⟨[], rfl⟩ (by simp)
  | cons pair rest ih =>
    obtain ⟨token, ticket⟩ := pair
    rw [List.forall_mem_cons, ← ih, ← isUnregistered_ok_iff, deadTokens_cons]
    cases isUnregistered ticket with
    | error e => exact iff_of_false (by rintro ⟨_, h⟩; cases h) (by rintro ⟨⟨_, h⟩, -⟩; cases h)
    | ok isDead =>
      cases deadTokens rest with
      | error e => exact iff_of_false (by rintro ⟨_, h⟩; cases h) (by rintro ⟨-, _, h⟩; cases h)
      | ok later => exact iff_of_true ⟨_, rfl⟩ ⟨⟨_, rfl⟩, _, rfl⟩

theorem mem_deadTokens (h : deadTokens pairs = .ok dead) (token : String) :
    token ∈ dead ↔ ∃ ticket, (token, ticket) ∈ pairs ∧ ReportsDead ticket := by
  induction pairs generalizing dead with
  | nil =>
    cases h
    simp
  | cons pair rest ih =>
    obtain ⟨first, ticket⟩ := pair
    rw [deadTokens_cons] at h
    cases hfirst : isUnregistered ticket with
    | error e =>
      rw [hfirst] at h
      cases h
    | ok isDead =>
      cases hrest : deadTokens rest with
      | error e =>
        rw [hfirst, hrest] at h
        cases h
      | ok later =>
        rw [hfirst, hrest] at h
        have hdead : dead = if isDead then first :: later else later := (Except.ok.inj h).symm
        have hreport : isDead = true ↔ ReportsDead ticket := by
          rw [← isUnregistered_true_iff, hfirst, Except.ok.injEq]
        have hlater := ih hrest
        cases isDead with
        | true =>
          rw [hdead, if_pos rfl, List.mem_cons, hlater]
          constructor
          · rintro (rfl | ⟨other, hmem, hother⟩)
            · exact ⟨ticket, List.mem_cons_self, hreport.mp rfl⟩
            · exact ⟨other, List.mem_cons_of_mem _ hmem, hother⟩
          · rintro ⟨other, hmem, hother⟩
            rcases List.mem_cons.mp hmem with heq | hmem
            · exact Or.inl (congrArg Prod.fst heq)
            · exact Or.inr ⟨other, hmem, hother⟩
        | false =>
          rw [hdead, if_neg Bool.false_ne_true, hlater]
          constructor
          · rintro ⟨other, hmem, hother⟩
            exact ⟨other, List.mem_cons_of_mem _ hmem, hother⟩
          · rintro ⟨other, hmem, hother⟩
            rcases List.mem_cons.mp hmem with heq | hmem
            · have hsame : other = ticket := congrArg Prod.snd heq
              subst hsame
              exact absurd (hreport.mpr hother) Bool.false_ne_true
            · exact ⟨other, hmem, hother⟩

/-- The second loop reads nothing that the comprehension has not read. -/
theorem loggedTokens_ok (h : ∀ pair ∈ pairs, Readable pair.2) :
    ∃ logged, loggedTokens pairs = .ok logged := by
  induction pairs with
  | nil => exact ⟨[], rfl⟩
  | cons pair rest ih =>
    obtain ⟨first, ticket⟩ := pair
    obtain ⟨logged, hlogged⟩ := ih (fun pair hpair => h pair (List.mem_cons_of_mem _ hpair))
    have hread : Readable ticket := h _ List.mem_cons_self
    obtain ⟨isDead, hdead⟩ := isUnregistered_ok_iff.mpr hread
    obtain ⟨members, rfl, -⟩ := hread
    simp only [loggedTokens, Json.get_object, Except.bind, hdead, hlogged]
    cases Json.isString (Json.member members "status") "error" with
    | true => exact ⟨_, rfl⟩
    | false => exact ⟨_, rfl⟩

theorem mem_zip_iff {items : List Json} {token : String} {ticket : Json} :
    (token, ticket) ∈ tokens.zip items ↔
      ∃ i : ℕ, tokens[i]? = some token ∧ items[i]? = some ticket := by
  rw [List.mem_iff_getElem?]
  refine exists_congr (fun i => ?_)
  rw [List.getElem?_zip_eq_some]

theorem zip_readable_iff {items : List Json} :
    (∀ pair ∈ tokens.zip items, Readable pair.2) ↔
      ∀ i < tokens.length, ∀ ticket ∈ items[i]?, Readable ticket := by
  constructor
  · intro h i hi ticket hticket
    exact h (tokens[i], ticket) (mem_zip_iff.mpr ⟨i, List.getElem?_eq_getElem hi, hticket⟩)
  · rintro h ⟨token, ticket⟩ hpair
    obtain ⟨i, htoken, hticket⟩ := mem_zip_iff.mp hpair
    obtain ⟨hi, -⟩ := List.getElem?_eq_some_iff.mp htoken
    exact h i hi ticket hticket

theorem handleTickets_array (items : List Json)
    (hread : ∀ pair ∈ tokens.zip items, Readable pair.2) :
    handleTickets tokens (.array items) = deadTokens (tokens.zip items) := by
  obtain ⟨found, hfound⟩ := deadTokens_ok_iff.mpr hread
  obtain ⟨logged, hlogged⟩ := loggedTokens_ok hread
  simp only [handleTickets, Json.iter, Except.bind, hfound, hlogged, Except.map]

theorem handleTickets_strings {tickets : Json} {texts : List String} (hne : tokens ≠ [])
    (hiter : tickets.iter = .ok (texts.map .string)) :
    (∃ dead, handleTickets tokens tickets = .ok dead) ↔ texts = [] := by
  unfold handleTickets
  rw [hiter]
  cases texts with
  | nil => exact iff_of_true ⟨[], by simp [Except.bind, Except.map, deadTokens, loggedTokens]⟩ rfl
  | cons text texts =>
    cases tokens with
    | nil => exact absurd rfl hne
    | cons token tokens =>
      refine iff_of_false ?_ (List.cons_ne_nil _ _)
      rintro ⟨dead, h⟩
      cases h

theorem handleTickets_ok_iff {tickets : Json} (hne : tokens ≠ []) :
    (∃ dead, handleTickets tokens tickets = .ok dead) ↔ TicketsReadable tokens.length tickets := by
  cases tickets with
  | array items =>
    change _ ↔ ∀ i < tokens.length, ∀ ticket ∈ items[i]?, Readable ticket
    rw [← zip_readable_iff]
    constructor
    · rintro ⟨dead, h⟩
      refine deadTokens_ok_iff.mp ?_
      cases hfound : deadTokens (tokens.zip items) with
      | ok found => exact ⟨found, rfl⟩
      | error e =>
        simp only [handleTickets, Json.iter, Except.bind, hfound] at h
        cases h
    · intro hread
      obtain ⟨found, hfound⟩ := deadTokens_ok_iff.mpr hread
      exact ⟨found, (handleTickets_array items hread).trans hfound⟩
  | object members =>
    rw [handleTickets_strings hne rfl]
    change _ ↔ members = []
    rw [List.dedup_eq_nil, List.map_eq_nil_iff]
  | string text =>
    have hiter : Json.iter (.string text) =
        .ok ((text.toList.map fun c => c.toString).map .string) := by
      simp only [Json.iter, List.map_map]
      rfl
    rw [handleTickets_strings hne hiter]
    change _ ↔ text = ""
    rw [List.map_eq_nil_iff, String.toList_eq_nil_iff]
  | _ =>
    refine iff_of_false ?_ (fun h => h)
    rintro ⟨dead, h⟩
    cases h

end Pairs

end Hefest
