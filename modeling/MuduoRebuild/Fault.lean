import MuduoRebuild.Foundations.Fallible

/-!
# Faults

How a member function can fail to return normally, for every class of the library.
-/

namespace MuduoRebuild

/-- How a call can fail to return normally. -/
inductive Fault where
  /-- A failed `assert`: the process aborts. -/
  | assertFailed
  /-- An access outside a container or through a null pointer: undefined behaviour. -/
  | outOfBounds
  /-- `std::length_error`, thrown by `vector::resize` beyond `max_size()`. -/
  | lengthError
  deriving DecidableEq, Repr

/-- `assert(c)`. -/
def assertThat (c : Prop) [Decidable c] : Except Fault Unit :=
  Fallible.check c .assertFailed

/-- How a call can fail to return, where it can also end the process. -/
inductive Stop where
  /-- `exit(-1)`. -/
  | exited
  | faulted (f : Fault)
  deriving DecidableEq, Repr

/-- `LOG_FATAL` ends the process after writing its line. -/
def logFatal {α : Type} : Except Stop α := .error .exited

/-- `assert(c)`. -/
def Stop.assertThat (c : Prop) [Decidable c] : Except Stop Unit :=
  Fallible.check c (.faulted .assertFailed)

end MuduoRebuild
