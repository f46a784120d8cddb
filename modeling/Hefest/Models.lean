import Mathlib.Order.Fin.Basic
import Mathlib.Data.Fin.Basic
import Mathlib.Algebra.Order.Ring.Int
import Hefest.Lib.Table

set_option autoImplicit false

/-!
# Rows of the database

Identifiers are 128-bit values ordered as PostgreSQL orders them, instants are microseconds.
The text of an idempotency key is `str(id):type`; `IdempotencyKey.str_injective` is why the
tables below may compare the pair instead.
-/
namespace Hefest

abbrev UUID := Fin (2 ^ 128)
abbrev Time := ℤ

instance uuidNeZero : NeZero (2 ^ 128) := ⟨by decide⟩

def seconds (n : ℤ) : Time := n * 1000000
def hours (n : ℤ) : Time := seconds (3600 * n)
def minutes (n : ℤ) : Time := seconds (60 * n)
def days (n : ℤ) : Time := seconds (86400 * n)

def hexDigits : ℕ → ℕ → List Char
  | 0, _ => []
  | k + 1, n => hexDigits k (n / 16) ++ [Nat.digitChar (n % 16)]

theorem hexDigits_length (k n : ℕ) : (hexDigits k n).length = k := by
  induction k generalizing n with
  | zero => rfl
  | succ k ih => simp [hexDigits, ih]

theorem digitChar_injective (a b : Fin 16) (h : Nat.digitChar a = Nat.digitChar b) : a = b := by
  revert a b
  decide

theorem hexDigits_injective (k n m : ℕ) (hn : n < 16 ^ k) (hm : m < 16 ^ k)
    (h : hexDigits k n = hexDigits k m) : n = m := by
  induction k generalizing n m with
  | zero => omega
  | succ k ih =>
    rw [Nat.pow_succ] at hn hm
    have hsplit := List.append_inj h (by simp [hexDigits_length])
    have hhigh := ih (n / 16) (m / 16) (by omega) (by omega) hsplit.1
    have hlow : n % 16 = m % 16 := by
      have hc : Nat.digitChar (n % 16) = Nat.digitChar (m % 16) := by simpa using hsplit.2
      have hfin := digitChar_injective ⟨n % 16, by omega⟩ ⟨m % 16, by omega⟩ hc
      exact congrArg Fin.val hfin
    omega

def dashed : List ℕ → List Char → List Char
  | [], cs => cs
  | n :: ns, cs => cs.take n ++ '-' :: dashed ns (cs.drop n)

theorem dashed_length (ns : List ℕ) (cs : List Char) :
    (dashed ns cs).length = cs.length + ns.length := by
  induction ns generalizing cs with
  | nil => rfl
  | cons n ns ih =>
    simp only [dashed, List.length_append, List.length_take, List.length_cons, ih,
      List.length_drop]
    omega

theorem dashed_injective (ns : List ℕ) (cs ds : List Char) (hlen : cs.length = ds.length)
    (h : dashed ns cs = dashed ns ds) : cs = ds := by
  induction ns generalizing cs ds with
  | nil => exact h
  | cons n ns ih =>
    have hsplit := List.append_inj h (by simp [hlen])
    have htail := ih (cs.drop n) (ds.drop n) (by simp [hlen]) (List.cons.inj hsplit.2).2
    rw [← List.take_append_drop n cs, ← List.take_append_drop n ds, hsplit.1, htail]

/-- `str(uuid)`. -/
def uuidStr (u : UUID) : List Char := dashed [8, 4, 4, 4] (hexDigits 32 u.val)

theorem uuidStr_length (u : UUID) : (uuidStr u).length = 36 := by
  simp [uuidStr, dashed_length, hexDigits_length]

theorem uuidStr_injective (u v : UUID) (h : uuidStr u = uuidStr v) : u = v := by
  have hd := dashed_injective _ _ _ (by simp [hexDigits_length]) h
  have hlt (w : UUID) : w.val < 16 ^ 32 := lt_of_lt_of_eq w.isLt (by decide)
  exact Fin.ext (hexDigits_injective 32 _ _ (hlt u) (hlt v) hd)

inductive UserRole
  | student | organizer
deriving DecidableEq

structure User where
  id : UUID
  email : String
  passwordHash : Option String := none
  fullName : String
  role : UserRole
  emailVerifiedAt : Option Time := none
deriving DecidableEq

/-- Links an identity of a provider to a user; `(provider, subject)` is unique. -/
structure OAuthIdentity where
  id : UUID
  userId : UUID
  provider : String
  subject : String
  email : String
deriving DecidableEq

inductive EventStatus
  | draft | published | cancelled
deriving DecidableEq

def EventStatus.value : EventStatus → String
  | .draft => "draft"
  | .published => "published"
  | .cancelled => "cancelled"

structure Event where
  id : UUID
  organizerId : UUID
  title : String
  description : String
  startsAt : Time
  endsAt : Option Time
  location : String
  capacity : ℕ
  status : EventStatus
  createdAt : Time
  updatedAt : Time
deriving DecidableEq

inductive RegistrationStatus
  | confirmed | waitlisted | cancelled
deriving DecidableEq

/-- The condition of the partial unique index. -/
def RegistrationStatus.isActive : RegistrationStatus → Bool
  | .confirmed | .waitlisted => true
  | .cancelled => false

structure Registration where
  id : UUID
  eventId : UUID
  studentId : UUID
  status : RegistrationStatus
  registeredAt : Time
  cancelledAt : Option Time
deriving DecidableEq

/-- `ORDER BY registered_at, id`. -/
def Registration.fifo (r s : Registration) : Prop :=
  r.registeredAt < s.registeredAt ∨ (r.registeredAt = s.registeredAt ∧ r.id ≤ s.id)

instance : DecidableRel Registration.fifo := fun _ _ => inferInstanceAs (Decidable (_ ∨ _))

def knownEventTypes : List String :=
  ["RegistrationConfirmed", "RegistrationWaitlisted", "WaitlistPromoted", "RegistrationCancelled",
    "EventCancelled", "EmailVerify"]

inductive EventType
  | registrationConfirmed | registrationWaitlisted | waitlistPromoted | registrationCancelled
  | eventCancelled | emailVerify
  | unknown (name : {s : String // s ∉ knownEventTypes})
deriving DecidableEq

def EventType.value : EventType → String
  | .registrationConfirmed => "RegistrationConfirmed"
  | .registrationWaitlisted => "RegistrationWaitlisted"
  | .waitlistPromoted => "WaitlistPromoted"
  | .registrationCancelled => "RegistrationCancelled"
  | .eventCancelled => "EventCancelled"
  | .emailVerify => "EmailVerify"
  | .unknown name => name.val

theorem EventType.value_injective (s t : EventType) (h : s.value = t.value) : s = t := by
  cases s with
  | unknown n =>
    cases t with
    | unknown m => exact congrArg EventType.unknown (Subtype.ext h)
    | _ => exact absurd (by rw [show n.val = _ from h]; decide) n.property
  | _ =>
    cases t with
    | unknown m => exact absurd (by rw [show m.val = _ from h.symm]; decide) m.property
    | _ => first | rfl | exact absurd h (by decide)

/-- `f"{subject}:{event_type}"`, the unique column of `notification_jobs`. -/
structure IdempotencyKey where
  subject : UUID
  eventType : EventType
deriving DecidableEq

def IdempotencyKey.str (k : IdempotencyKey) : List Char :=
  uuidStr k.subject ++ ':' :: k.eventType.value.toList

theorem IdempotencyKey.str_injective (k l : IdempotencyKey) (h : k.str = l.str) : k = l := by
  have hsplit := List.append_inj h (by simp [uuidStr_length])
  have hid := uuidStr_injective _ _ hsplit.1
  have hchars : k.eventType.value.toList = l.eventType.value.toList := by
    simpa using hsplit.2
  have htype := EventType.value_injective _ _ (String.toList_inj.mp hchars)
  cases k
  cases l
  simp_all

inductive JobStatus
  | pending | processing | completed | failed
deriving DecidableEq

structure Payload where
  registrationId : Option UUID := none
  eventId : Option UUID := none
  studentId : Option UUID := none
  eventTitle : Option String := none
  waitlistPosition : Option ℕ := none
  occurredAt : Option Time := none
deriving DecidableEq

/-- `host:uuid`, the fencing token of one worker process. -/
abbrev WorkerId := String

structure NotificationJob where
  id : UUID
  eventId : Option UUID
  eventType : EventType
  payload : Payload
  status : JobStatus
  idempotencyKey : IdempotencyKey
  attempts : ℕ
  lockedBy : Option WorkerId
  heartbeatAt : Option Time
  nextAttemptAt : Time
  lastError : Option String
  createdAt : Time
  updatedAt : Time
deriving DecidableEq

inductive RefreshClient
  | web | mobile
deriving DecidableEq

structure RefreshToken where
  id : UUID
  userId : UUID
  tokenHash : String
  client : RefreshClient
  expiresAt : Time
  revokedAt : Option Time
deriving DecidableEq

structure Settings where
  env : String := "dev"
  jwtSecret : String := "change-me-in-production"
  jwtAlgorithm : String := "HS256"
  jwtAudience : String := "hefest-api"
  jwtExpireMinutes : ℤ := 15
  refreshTokenExpireDays : ℤ := 14
  emailVerifyExpireHours : ℤ := 24
  emailVerifyUrl : String := "http://localhost:5173/verify-email"
  refreshCookieName : String := "hefest_refresh"
  refreshCookieSecure : Bool := true
  frontendOauthSuccessUrl : String := ""
  mobileOauthSuccessUrl : String := "hefestmobile://auth/callback"
  eventLocationLockHours : ℤ := 2
  workerClaimBatchSize : ℕ := 50
  workerReaperIdleSeconds : ℤ := 300
  workerReapBatchSize : ℕ := 1000
  workerMaxAttempts : ℤ := 3
  workerBackoffBaseSeconds : ℤ := 30
  workerSendConcurrency : ℕ := 10
  rateLimitLoginCount : ℤ := 10
  rateLimitLoginWindowSeconds : ℤ := 60
  rateLimitRegisterCount : ℤ := 5
  rateLimitRegisterWindowSeconds : ℤ := 3600
  rateLimitEventRegisterCount : ℤ := 30
  rateLimitEventRegisterWindowSeconds : ℤ := 60
  rateLimitGlobalCount : ℤ := 200
  rateLimitGlobalWindowSeconds : ℤ := 60

end Hefest
