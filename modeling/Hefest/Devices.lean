import Hefest.Lib.Since
import Hefest.Lib.Table
import Hefest.PushBatches

set_option autoImplicit false

/-!
# Devices

The routes that register and unregister a device, and any number of pushes beside them. A push
loads the tokens of its recipient once; between that and its last batch the table may change.
-/
namespace Hefest
open Slices Transition Recipients

inductive DevicePlatform
  | ios
  | android
deriving DecidableEq

structure DeviceRow extends Device where
  platform : DevicePlatform
  createdAt : Time
  updatedAt : Time
deriving DecidableEq

/-- `Field(min_length=1, max_length=255)` of both request schemas. -/
def validToken (token : String) : Bool := decide (1 ≤ token.length ∧ token.length ≤ 255)

def DeviceRow.bind (user : UUID) (platform : DevicePlatform) (now : Time) (device : DeviceRow) :
    DeviceRow :=
  { device with userId := user, platform := platform, updatedAt := now }

/-- `register_device`, the upsert as one statement; a new row draws `id`, which fails if it is
    taken. -/
def registerDevice (user : UUID) (token : String) (platform : DevicePlatform) (id : UUID)
    (now : Time) (devices : List DeviceRow) : Option (List DeviceRow × DeviceRow) :=
  match Table.lookup (fun device : DeviceRow => device.expoPushToken) token devices with
  | some device =>
    some (Table.update (fun row : DeviceRow => row.id) device.id (.bind user platform now) devices,
      device.bind user platform now)
  | none =>
    if devices.any (fun device => device.id = id) then none
    else
      let device : DeviceRow := ⟨⟨id, user, token⟩, platform, now, now⟩
      some (devices ++ [device], device)

def DeviceRow.isOf (user : UUID) (token : String) (device : DeviceRow) : Bool :=
  decide (device.userId = user ∧ device.expoPushToken = token)

def unregisterDevice (user : UUID) (token : String) (devices : List DeviceRow) :
    List DeviceRow × Bool :=
  (devices.filter (fun device => !device.isOf user token),
    devices.any (DeviceRow.isOf user token))

/-- The query of `load_push_tokens` has no order. -/
def loadPushTokens (user : UUID) (devices : List DeviceRow) : List String :=
  (devices.filter (fun device => device.userId = user)).map fun device => device.expoPushToken

/-- `Device.filter(expo_push_token__in=dead_tokens).delete()`. -/
def deleteDead (dead : List String) (devices : List DeviceRow) : List DeviceRow :=
  devices.filter fun device => device.expoPushToken ∉ dead

structure PushCall where
  tokens : List String
  content : PushTemplates.PushContent
  data : Json

/-- How far `_send_push` has come. In `posting` and `awaiting` the first index is that of the
    current batch, the others are still to be done. -/
inductive PushStage
  | loading
  | skipped
  | posting (call : PushCall) (start : ℕ) (rest : List ℕ)
  | awaiting (call : PushCall) (start : ℕ) (rest : List ℕ)
  | ended (call : PushCall) (raised : Option PushError)

structure PushTask where
  job : ClaimedJob
  recipient : Recipient
  stage : PushStage

/-- `{"event_id": str(recipient.event.id)}`. -/
def pushData (event : Event) : Json :=
  .object [("event_id", .string (String.ofList (uuidStr event.id)))]

/-- `_send_push` up to its first `await`. -/
def PushTask.begin (job : ClaimedJob) (recipient : Recipient) : PushTask :=
  ⟨job, recipient, if recipient.event.isNone then .skipped else .loading⟩

/-- The loop of `send_to_tokens` at its next index. -/
def PushCall.next (call : PushCall) : List ℕ → PushStage
  | [] => .ended call none
  | start :: rest => .posting call start rest

/-- `_send_push` once the tokens are loaded; what it raises is logged. -/
def PushTask.afterLoad (task : PushTask) (tokens : List String) : PushStage :=
  if tokens = [] then .skipped
  else
    match task.recipient.event with
    | none => .skipped
    | some event =>
      match PushTemplates.render task.job.eventType (some event) task.job.payload with
      | .error _ => .skipped
      | .ok content =>
        PushCall.next ⟨tokens, content, pushData event⟩ (starts maxTokensPerRequest tokens.length)

def PushCall.batch (call : PushCall) (start : ℕ) : List String :=
  slice maxTokensPerRequest call.tokens start

def batchOutcome (tokens : List String) (reply : Option ExpoResponse) :
    Except PushError (List String) :=
  match readTickets reply with
  | .error error => if error ∈ swallowedErrors then .ok [] else .error error
  | .ok tickets => (handleTickets tokens tickets).mapError .ofRead

def PushStage.call? : PushStage → Option PushCall
  | .posting call _ _ | .awaiting call _ _ | .ended call _ => some call
  | _ => none

structure Fleet where
  devices : List DeviceRow := []
  pushes : List PushTask := []

inductive FleetAction
  | register (user : UUID) (token : String) (platform : DevicePlatform) (id : UUID) (now : Time)
  | unregister (user : UUID) (token : String)
  | begin (job : ClaimedJob) (recipient : Recipient)
  /-- The rows arrive in this order. -/
  | load (push : ℕ) (tokens : List String)
  | post (push : ℕ)
  | answer (push : ℕ) (reply : Option ExpoResponse)

/-- `registered` carries the row of the response; `unregistered` is a request that went through,
    whether it has deleted a row or not. -/
inductive FleetNote
  | registered (device : DeviceRow)
  | unregistered (user : UUID) (token : String)
  | loaded (push : ℕ) (user : UUID) (tokens : List String)
  | posted (push : ℕ) (messages : List PushMessage)
  | answered (push : ℕ) (reply : Option ExpoResponse) (dead : List String)

def Fleet.setPush (fleet : Fleet) (push : ℕ) (task : PushTask) (stage : PushStage) : Fleet :=
  { fleet with pushes := fleet.pushes.set push { task with stage := stage } }

def fleetStep (fleet : Fleet) : FleetAction → Option (Fleet × List FleetNote)
  | .register user token platform id now =>
    if validToken token then
      match registerDevice user token platform id now fleet.devices with
      | none => some (fleet, [])
      | some (devices, device) => some ({ fleet with devices := devices }, [.registered device])
    else some (fleet, [])
  | .unregister user token =>
    if validToken token then
      some ({ fleet with devices := (unregisterDevice user token fleet.devices).1 },
        [.unregistered user token])
    else some (fleet, [])
  | .begin job recipient =>
    some ({ fleet with pushes := fleet.pushes ++ [PushTask.begin job recipient] }, [])
  | .load push tokens =>
    match fleet.pushes[push]? with
    | none => none
    | some task =>
      match task.stage with
      | .loading =>
        if tokens.isPerm (loadPushTokens task.recipient.user.id fleet.devices) then
          some (fleet.setPush push task (task.afterLoad tokens),
            [.loaded push task.recipient.user.id tokens])
        else none
      | _ => none
  | .post push =>
    match fleet.pushes[push]? with
    | none => none
    | some task =>
      match task.stage with
      | .posting call start rest =>
        some (fleet.setPush push task (.awaiting call start rest),
          [.posted push (pushMessages call.content call.data (call.batch start))])
      | _ => none
  | .answer push reply =>
    match fleet.pushes[push]? with
    | none => none
    | some task =>
      match task.stage with
      | .awaiting call start rest =>
        match batchOutcome (call.batch start) reply with
        | .error error =>
          some (fleet.setPush push task (.ended call (some error)), [.answered push reply []])
        | .ok dead =>
          some ({ fleet.setPush push task (call.next rest) with
              devices := deleteDead dead fleet.devices },
            [.answered push reply dead])
      | _ => none

def UniqueDevices (devices : List DeviceRow) : Prop :=
  Table.KeyUnique (fun device : DeviceRow => device.id) devices ∧
    Table.KeyUnique (fun device : DeviceRow => device.expoPushToken) devices

/-- What takes a row away or puts another one in its place: its owner unregisters it, somebody
    registers its token again, or Expo reports the token to a push. -/
def DeviceRow.EndedBy (device : DeviceRow) : FleetNote → Prop
  | .registered other => other.expoPushToken = device.expoPushToken
  | .unregistered user token => device.userId = user ∧ device.expoPushToken = token
  | .answered _ _ dead => device.expoPushToken ∈ dead
  | _ => False

inductive FleetMove (fleet : Fleet) : Fleet → List FleetNote → Prop
  | idle : FleetMove fleet fleet []
  | registered {user : UUID} {token : String} {platform : DevicePlatform} {id : UUID} {now : Time}
      {devices : List DeviceRow} {device : DeviceRow}
      (h : registerDevice user token platform id now fleet.devices = some (devices, device)) :
      FleetMove fleet { fleet with devices := devices } [.registered device]
  | unregistered (user : UUID) (token : String) :
      FleetMove fleet
        { fleet with devices := (unregisterDevice user token fleet.devices).1 }
        [.unregistered user token]
  | begun (job : ClaimedJob) (recipient : Recipient) :
      FleetMove fleet { fleet with pushes := fleet.pushes ++ [PushTask.begin job recipient] } []
  | loaded {push : ℕ} {task : PushTask} {tokens : List String}
      (found : fleet.pushes[push]? = some task) (stage : task.stage = .loading)
      (all : tokens.Perm (loadPushTokens task.recipient.user.id fleet.devices)) :
      FleetMove fleet (fleet.setPush push task (task.afterLoad tokens))
        [.loaded push task.recipient.user.id tokens]
  | posted {push : ℕ} {task : PushTask} {call : PushCall} {start : ℕ} {rest : List ℕ}
      (found : fleet.pushes[push]? = some task) (stage : task.stage = .posting call start rest) :
      FleetMove fleet (fleet.setPush push task (.awaiting call start rest))
        [.posted push (pushMessages call.content call.data (call.batch start))]
  | raised {push : ℕ} {task : PushTask} {call : PushCall} {start : ℕ} {rest : List ℕ}
      {reply : Option ExpoResponse} {error : PushError}
      (found : fleet.pushes[push]? = some task) (stage : task.stage = .awaiting call start rest)
      (outcome : batchOutcome (call.batch start) reply = .error error) :
      FleetMove fleet (fleet.setPush push task (.ended call (some error)))
        [.answered push reply []]
  | answered {push : ℕ} {task : PushTask} {call : PushCall} {start : ℕ} {rest : List ℕ}
      {reply : Option ExpoResponse} {dead : List String}
      (found : fleet.pushes[push]? = some task) (stage : task.stage = .awaiting call start rest)
      (outcome : batchOutcome (call.batch start) reply = .ok dead) :
      FleetMove fleet
        { fleet.setPush push task (call.next rest) with devices := deleteDead dead fleet.devices }
        [.answered push reply dead]

theorem fleetStep_move {fleet next : Fleet} {action : FleetAction} {notes : List FleetNote}
    (h : fleetStep fleet action = some (next, notes)) : FleetMove fleet next notes := by
  cases action with
  | register user token platform id now =>
    simp only [fleetStep] at h
    split_ifs at h with hvalid
    · cases hregister : registerDevice user token platform id now fleet.devices with
      | none =>
        rw [hregister] at h
        cases h
        exact .idle
      | some found =>
        rw [hregister] at h
        cases h
        exact .registered hregister
    · cases h
      exact .idle
  | unregister user token =>
    simp only [fleetStep] at h
    split_ifs at h with hvalid
    · cases h
      exact .unregistered user token
    · cases h
      exact .idle
  | begin job recipient =>
    cases h
    exact .begun job recipient
  | load push tokens =>
    simp only [fleetStep] at h
    cases hfound : fleet.pushes[push]? with
    | none => simp [hfound] at h
    | some task =>
      cases hstage : task.stage <;> simp only [hfound, hstage, reduceCtorEq] at h
      obtain ⟨hperm, h⟩ := Option.ite_none_right_eq_some.mp h
      cases h
      exact .loaded hfound hstage (List.isPerm_iff.mp hperm)
  | post push =>
    simp only [fleetStep] at h
    cases hfound : fleet.pushes[push]? with
    | none => simp [hfound] at h
    | some task =>
      cases hstage : task.stage <;> simp only [hfound, hstage, reduceCtorEq] at h
      cases h
      exact .posted hfound hstage
  | answer push reply =>
    simp only [fleetStep] at h
    cases hfound : fleet.pushes[push]? with
    | none => simp [hfound] at h
    | some task =>
      cases hstage : task.stage <;> simp only [hfound, hstage, reduceCtorEq] at h
      rename_i call start rest
      cases houtcome : batchOutcome (call.batch start) reply with
      | error error =>
        rw [houtcome] at h
        cases h
        exact .raised hfound hstage houtcome
      | ok dead =>
        rw [houtcome] at h
        cases h
        exact .answered hfound hstage houtcome

section Statements
variable {devices next : List DeviceRow} {device : DeviceRow} {user id : UUID} {token : String}
  {platform : DevicePlatform} {now : Time}

theorem UniqueDevices.filter (h : UniqueDevices devices) (p : DeviceRow → Bool) :
    UniqueDevices (devices.filter p) := ⟨h.1.filter p, h.2.filter p⟩

theorem UniqueDevices.id_eq_iff (h : UniqueDevices devices) {row : DeviceRow} (hrow : row ∈ devices)
    (hdevice : device ∈ devices) :
    device.id = row.id ↔ row.expoPushToken = device.expoPushToken := by
  constructor
  · intro hid
    rw [h.1.eq_of_key hdevice hrow hid]
  · intro htoken
    rw [h.2.eq_of_key hrow hdevice htoken]

theorem UniqueDevices.bind (h : UniqueDevices devices) {row : DeviceRow} :
    UniqueDevices
      (Table.update (fun d : DeviceRow => d.id) row.id (.bind user platform now) devices) := by
  refine ⟨Table.keyUnique_update h.1 fun _ => rfl, ?_⟩
  have htokens :
      (Table.update (fun d : DeviceRow => d.id) row.id (.bind user platform now) devices).map
        (fun d => d.expoPushToken) = devices.map fun d => d.expoPushToken :=
    Table.map_update _ fun _ => rfl
  unfold Table.KeyUnique
  rw [htokens]
  exact h.2

theorem UniqueDevices.mem_bind (h : UniqueDevices devices) {row d : DeviceRow}
    (hrow : row ∈ devices) :
    d ∈ Table.update (fun d : DeviceRow => d.id) row.id (.bind user platform now) devices ↔
      d = row.bind user platform now ∨ (d ∈ devices ∧ row.expoPushToken ≠ d.expoPushToken) := by
  rw [Table.mem_update]
  constructor
  · rintro (⟨hd, hid⟩ | ⟨d, hd, hid, rfl⟩)
    · exact .inr ⟨hd, fun htoken => hid ((h.id_eq_iff hrow hd).mpr htoken)⟩
    · rw [h.1.eq_of_key hd hrow hid]
      exact .inl rfl
  · rintro (rfl | ⟨hd, htoken⟩)
    · exact .inr ⟨row, hrow, rfl, rfl⟩
    · exact .inl ⟨hd, fun hid => htoken ((h.id_eq_iff hrow hd).mp hid)⟩

/-- The rows are those of the other tokens and the one of the response. -/
theorem registerDevice_rows (hunique : UniqueDevices devices)
    (h : registerDevice user token platform id now devices = some (next, device)) :
    UniqueDevices next ∧ ∀ d, d ∈ next ↔
      d = device ∨ (d ∈ devices ∧ device.expoPushToken ≠ d.expoPushToken) := by
  unfold registerDevice at h
  cases hfound : Table.lookup (fun device : DeviceRow => device.expoPushToken) token devices with
  | some row =>
    rw [hfound] at h
    cases h
    exact ⟨hunique.bind, fun d => hunique.mem_bind (Table.lookup_mem hfound)⟩
  | none =>
    rw [hfound] at h
    simp only at h
    split_ifs at h with htaken
    cases h
    have hfreshToken := Table.lookup_eq_none.mp hfound
    have hfreshId : ∀ d ∈ devices, d.id ≠ id := by simpa using htaken
    refine ⟨⟨Table.keyUnique_insert hunique.1 hfreshId,
      Table.keyUnique_insert hunique.2 hfreshToken⟩, fun d => ?_⟩
    rw [List.mem_append, List.mem_singleton]
    constructor
    · rintro (hd | rfl)
      · exact .inr ⟨hd, (hfreshToken d hd).symm⟩
      · exact .inl rfl
    · rintro (rfl | ⟨hd, -⟩)
      · exact .inr rfl
      · exact .inl hd

theorem mem_unregisterDevice :
    device ∈ (unregisterDevice user token devices).1 ↔
      device ∈ devices ∧ ¬ (device.userId = user ∧ device.expoPushToken = token) := by
  simp [unregisterDevice, DeviceRow.isOf, imp_iff_not_or]

theorem mem_deleteDead {dead : List String} :
    device ∈ deleteDead dead devices ↔ device ∈ devices ∧ device.expoPushToken ∉ dead := by
  simp [deleteDead]

theorem loadPushTokens_nodup (hunique : UniqueDevices devices) :
    (loadPushTokens user devices).Nodup := (hunique.2.filter _ :)

theorem mem_loadPushTokens :
    token ∈ loadPushTokens user devices ↔
      ∃ d ∈ devices, d.userId = user ∧ d.expoPushToken = token := by
  simp [loadPushTokens, and_assoc]

end Statements

/-- A step keeps the constraints, and a row is there exactly if the step says so or it was there and
    the step does not say that it has ended. -/
theorem FleetMove.devices {fleet next : Fleet} {notes : List FleetNote}
    (h : FleetMove fleet next notes) (hunique : UniqueDevices fleet.devices) :
    UniqueDevices next.devices ∧ ∀ d, d ∈ next.devices ↔
      Since (d ∈ fleet.devices) (fun note => note = .registered d) d.EndedBy notes := by
  have hsame : ∀ d : DeviceRow, d ∈ fleet.devices ↔
      Since (d ∈ fleet.devices) (fun note => note = .registered d) d.EndedBy [] :=
    fun _ => since_nil.symm
  have hone {note : FleetNote} (d : DeviceRow) :
      Since (d ∈ fleet.devices) (fun note => note = .registered d) d.EndedBy [note] ↔
        note = .registered d ∨ (d ∈ fleet.devices ∧ ¬ d.EndedBy note) := by
    rw [← List.nil_append [note], since_concat, since_nil]
  cases h with
  | idle => exact ⟨hunique, hsame⟩
  | begun => exact ⟨hunique, hsame⟩
  | registered hregister =>
    obtain ⟨hnext, hrows⟩ := registerDevice_rows hunique hregister
    refine ⟨hnext, fun d => ?_⟩
    rw [hone, hrows d, FleetNote.registered.injEq, eq_comm]
    rfl
  | unregistered user token =>
    refine ⟨hunique.filter _, fun d => ?_⟩
    rw [hone]
    refine mem_unregisterDevice.trans (or_iff_right ?_).symm
    exact FleetNote.noConfusion
  | answered found stage outcome =>
    refine ⟨hunique.filter _, fun d => ?_⟩
    rw [hone]
    refine mem_deleteDead.trans (or_iff_right ?_).symm
    exact FleetNote.noConfusion
  | loaded | posted | raised =>
    refine ⟨hunique, fun d => ?_⟩
    rw [hone]
    simp [DeviceRow.EndedBy, Fleet.setPush]

end Hefest
