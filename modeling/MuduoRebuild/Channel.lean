import Mathlib.Data.List.Basic

/-!
# `Channel`: event masks and dispatch

A channel carries a mask of the events its owner wants to hear about. `enableReading` and its
relatives change the mask and tell the poller; `handleEvent` turns the mask of events that
occurred into calls of the owner's callbacks, in a fixed order.
-/

namespace MuduoRebuild

/-- An `int` used as a set of event flags. -/
abbrev Mask := BitVec 32

def POLLIN : Mask := 0x001
def POLLPRI : Mask := 0x002
def POLLOUT : Mask := 0x004
def POLLERR : Mask := 0x008
def POLLHUP : Mask := 0x010
def POLLNVAL : Mask := 0x020

namespace Channel

abbrev kNonEvent : Mask := 0

def kReadEvent : Mask := POLLIN ||| POLLPRI

def kWriteEvent : Mask := POLLOUT

/-- Whether `mask` has a flag of `flags`: the condition `mask & flags`. -/
def hasAny (mask flags : Mask) : Bool := mask &&& flags != 0

def isWriting (events : Mask) : Bool := hasAny events kWriteEvent

def isReading (events : Mask) : Bool := hasAny events kReadEvent

/-! ### Changing the events -/

/-- The member functions that change `events_` and then call `update()`. -/
inductive Update where
  | enableReading
  | enableWriting
  | disableWriting
  | disableAll
  deriving DecidableEq, Repr

namespace Update

/-- The new value of `events_`. -/
def apply : Update → Mask → Mask
  | enableReading, events => events ||| kReadEvent
  | enableWriting, events => events ||| kWriteEvent
  | disableWriting, events => events &&& ~~~kWriteEvent
  | disableAll, _ => kNonEvent

def isEnable : Update → Bool
  | enableReading | enableWriting => true
  | disableWriting | disableAll => false

end Update

/-- The values that `events_` can take. -/
def IsEvents (events : Mask) : Prop :=
  events = kNonEvent ∨ events = kReadEvent ∨ events = kWriteEvent ∨
    events = kReadEvent ||| kWriteEvent

theorem isEvents_zero : IsEvents 0 := .inl rfl

theorem IsEvents.apply {events : Mask} (h : IsEvents events) (u : Update) :
    IsEvents (u.apply events) := by
  rcases h with rfl | rfl | rfl | rfl <;> cases u <;> simp only [IsEvents] <;> decide

/-- An enable leaves some event enabled. -/
theorem IsEvents.apply_ne_zero {events : Mask} (h : IsEvents events) {u : Update}
    (hu : u.isEnable = true) : u.apply events ≠ 0 := by
  rcases h with rfl | rfl | rfl | rfl <;> cases u <;> first | decide | cases hu

theorem isReading_zero : isReading 0 = false := by decide

/-- A disable enables nothing. -/
theorem Update.apply_zero {u : Update} (hu : u.isEnable = false) : u.apply 0 = 0 := by
  cases u <;> first | rfl | cases hu

theorem IsEvents.isReading_apply {events : Mask} (h : IsEvents events) (u : Update) :
    isReading (u.apply events) =
      match u with
      | .enableReading => true
      | .disableAll => false
      | .enableWriting | .disableWriting => isReading events := by
  rcases h with rfl | rfl | rfl | rfl <;> cases u <;> decide

theorem IsEvents.isWriting_apply {events : Mask} (h : IsEvents events) (u : Update) :
    isWriting (u.apply events) =
      match u with
      | .enableWriting => true
      | .disableWriting | .disableAll => false
      | .enableReading => isWriting events := by
  rcases h with rfl | rfl | rfl | rfl <;> cases u <;> decide

/-- The mask survives the conversion to the `short` in a `pollfd` and back. -/
theorem IsEvents.signExtend_setWidth {events : Mask} (h : IsEvents events) :
    (events.setWidth 16).signExtend 32 = events := by
  rcases h with rfl | rfl | rfl | rfl <;> decide

/-! ### Dispatch -/

/-- The four callbacks of a channel. -/
inductive Callback where
  | error
  | close
  | read
  | write
  deriving DecidableEq, Repr

/-- The condition under which `handleEventWithGuard` calls a callback. -/
def triggers (revents : Mask) : Callback → Bool
  | .error => hasAny revents (POLLERR ||| POLLNVAL)
  | .close => hasAny revents POLLHUP && !hasAny revents POLLIN
  | .read => hasAny revents (POLLIN ||| POLLPRI ||| POLLHUP)
  | .write => hasAny revents POLLOUT

/-- The callbacks `handleEventWithGuard` calls, in order. One that is not set is skipped. -/
def handleEventWithGuard (isSet : Callback → Bool) (revents : Mask) : List Callback :=
  [.error, .close, .read, .write].filter fun c => triggers revents c && isSet c

theorem handleEventWithGuard_POLLIN {isSet : Callback → Bool} (h : isSet .read = true) :
    handleEventWithGuard isSet POLLIN = [.read] := by
  have htriggers : ∀ callback, triggers POLLIN callback = decide (callback = .read) := by
    intro callback
    cases callback <;> rfl
  simp [handleEventWithGuard, htriggers, h]

end Channel

end MuduoRebuild
