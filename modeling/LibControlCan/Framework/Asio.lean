import Mathlib.Tactic

/-! # Completion handlers of an I/O context

    What the programs here rely on in the asynchronous I/O library: error
    codes, and the life of a deadline timer with one outstanding wait.

    A wait is `armed` until its time is up or it is cancelled.  Either way
    its handler is queued, with no error (`expired`) or with
    `operation_aborted` (`cancelled`), and the wait is over once the
    handler has run.  `cancel` acts on an armed wait only: a handler that
    is already queued keeps its result. -/

namespace Asio

/-! ## Section 1: Error codes -/

/-- An error code; the value 0 means success. -/
structure ErrorCode where
  value : Int
  deriving DecidableEq, Repr

namespace ErrorCode

/-- Success. -/
def ok : ErrorCode := ⟨0⟩

/-- The conversion to `bool`. -/
def isError (ec : ErrorCode) : Bool := ec.value != 0

@[simp] theorem isError_ok : ok.isError = false := rfl

theorem isError_eq_false_iff {ec : ErrorCode} : ec.isError = false ↔ ec = ok := by
  cases ec
  simp [isError, ok]

theorem isError_iff_ne {ec : ErrorCode} : ec.isError = true ↔ ec ≠ ok := by
  rw [← Bool.not_eq_false, isError_eq_false_iff]

end ErrorCode

/-- `errc::operation_canceled`, the value of `ECANCELED`. -/
def operationCanceled : Int := 125

/-- `errc::timed_out`, the value of `ETIMEDOUT`. -/
def timedOut : Int := 110

/-- The result of an operation that `cancel` aborted; on POSIX its value
    is that of `errc::operation_canceled`. -/
def operationAborted : ErrorCode := ⟨operationCanceled⟩

/-! ## Section 2: The deadline timer -/

/-- The wait on a deadline timer. -/
inductive Timer where
  | idle
  | armed (ms : Int)
  | expired
  | cancelled
  deriving DecidableEq, Repr

namespace Timer

/-- `timer.cancel()`. -/
def cancel : Timer → Timer
  | armed _ => cancelled
  | t => t

/-- The wait is outstanding and its handler will see no error: it is
    armed, or its time is up and the handler has not run yet. -/
def Pending : Timer → Prop
  | armed _ => True
  | expired => True
  | _ => False

instance : DecidablePred Pending
  | idle => inferInstanceAs (Decidable False)
  | armed _ => inferInstanceAs (Decidable True)
  | expired => inferInstanceAs (Decidable True)
  | cancelled => inferInstanceAs (Decidable False)

/-- How many events the wait is away from its end, at most. -/
def stage : Timer → Nat
  | idle => 0
  | armed _ => 2
  | expired => 1
  | cancelled => 1

theorem stage_le (t : Timer) : t.stage ≤ 2 := by
  cases t <;> simp [stage]

theorem stage_cancel_le (t : Timer) : t.cancel.stage ≤ t.stage := by
  cases t <;> simp [cancel, stage]

end Timer

end Asio
