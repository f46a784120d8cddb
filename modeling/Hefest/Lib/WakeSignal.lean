import Hefest.Lib.Transition

set_option autoImplicit false

/-!
# A wake flag behind a lossy notification link

A consumer sleeps on a flag. Publishers notify over a link that may break at any moment and then
loses what it carries. A notification that arrives sets the flag; so does the listener, once, each
time it has registered. The consumer clears the flag before it looks at the published work.
-/
namespace WakeSignal

inductive Listener
  | disconnected
  | connected
  /-- Registered with the publisher; the catch-up signal is still to come. -/
  | registered
  | ready
  /-- Ended for good. -/
  | dead
deriving DecidableEq

structure Channel where
  flag : Bool := false
  listener : Listener := .disconnected
  /-- The connection under the listener works. -/
  alive : Bool := false
  inFlight : ℕ := 0
deriving DecidableEq

inductive Act
  | publish
  | deliver
  | connect
  | register
  | catchUp
  /-- The connection breaks, noticed or not. -/
  | drop
  /-- The listener has noticed. -/
  | disconnect
  | die
  | clear
deriving DecidableEq

namespace Channel

def listening (c : Channel) : Bool :=
  c.alive && (c.listener == .registered || c.listener == .ready)

def step (c : Channel) : Act → Option Channel
  | .publish => some (if c.listening then { c with inFlight := c.inFlight + 1 } else c)
  | .deliver =>
    if 0 < c.inFlight then some { c with flag := true, inFlight := c.inFlight - 1 } else none
  | .connect =>
    if c.listener = .disconnected then some { c with listener := .connected, alive := true } else none
  | .register =>
    if c.listener = .connected ∧ c.alive then some { c with listener := .registered } else none
  | .catchUp =>
    if c.listener = .registered then some { c with flag := true, listener := .ready } else none
  | .drop => if c.alive then some { c with alive := false, inFlight := 0 } else none
  | .disconnect =>
    if c.alive = false ∧ c.listener ≠ .dead then some { c with listener := .disconnected } else none
  | .die => some { c with listener := .dead, alive := false, inFlight := 0 }
  | .clear => some { c with flag := false }

/-- Nothing wakes the consumer, although its listener is up. -/
structure Quiet (c : Channel) : Prop where
  flag : c.flag = false
  ready : c.listener = .ready
  alive : c.alive = true
  inFlight : c.inFlight = 0

instance (c : Channel) : Decidable c.Quiet :=
  decidable_of_iff (c.flag = false ∧ c.listener = .ready ∧ c.alive = true ∧ c.inFlight = 0)
    ⟨fun h => ⟨h.1, h.2.1, h.2.2.1, h.2.2.2⟩, fun h => ⟨h.flag, h.ready, h.alive, h.inFlight⟩⟩

theorem start_not_quiet : ¬ Quiet {} := fun h => nomatch h.ready

theorem Quiet.listening {c : Channel} (h : c.Quiet) : c.listening = true := by
  unfold Channel.listening
  rw [h.alive, h.ready]
  rfl

/-- Only clearing the flag leads to a quiet channel. -/
theorem clear_of_quiet {c c' : Channel} {a : Act} (h : c.step a = some c') (hq : c'.Quiet) :
    a = .clear := by
  cases a with
  | publish =>
    cases h
    cases hl : c.listening with
    | true =>
      have hcount := hq.inFlight
      rw [if_pos hl] at hcount
      cases hcount
    | false =>
      rw [if_neg (by simp [hl])] at hq
      rw [hq.listening] at hl
      cases hl
  | deliver =>
    obtain ⟨_, h⟩ := Option.ite_none_right_eq_some.mp h
    cases h
    cases hq.flag
  | connect =>
    obtain ⟨_, h⟩ := Option.ite_none_right_eq_some.mp h
    cases h
    cases hq.ready
  | register =>
    obtain ⟨_, h⟩ := Option.ite_none_right_eq_some.mp h
    cases h
    cases hq.ready
  | catchUp =>
    obtain ⟨_, h⟩ := Option.ite_none_right_eq_some.mp h
    cases h
    cases hq.flag
  | drop =>
    obtain ⟨_, h⟩ := Option.ite_none_right_eq_some.mp h
    cases h
    cases hq.alive
  | disconnect =>
    obtain ⟨_, h⟩ := Option.ite_none_right_eq_some.mp h
    cases h
    cases hq.ready
  | die =>
    cases h
    cases hq.alive
  | clear => rfl

end Channel
end WakeSignal
