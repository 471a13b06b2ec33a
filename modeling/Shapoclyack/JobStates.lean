import Mathlib.Tactic

set_option autoImplicit false

namespace Shapoclyack.JobStates

inductive Status where
  | queued
  | claimed
  | running
  | cancelling
  | succeeded
  | failed
  | cancelled
deriving DecidableEq, Repr

def Status.value : Status → String
  | .queued => "queued"
  | .claimed => "claimed"
  | .running => "running"
  | .cancelling => "cancelling"
  | .succeeded => "succeeded"
  | .failed => "failed"
  | .cancelled => "cancelled"

/-- The job lifecycle as data. -/
def transitions : Status → List Status
  | .queued => [.claimed, .running, .failed, .cancelled]
  | .claimed => [.running, .succeeded, .failed, .queued, .cancelling]
  | .running => [.succeeded, .failed, .queued, .cancelling]
  | .cancelling => [.cancelled, .succeeded, .failed]
  | .succeeded => []
  | .failed => []
  | .cancelled => []

def canTransition (current new : Status) : Bool :=
  decide (new ∈ transitions current)

def terminal (s : Status) : Bool :=
  s == .succeeded || s == .failed || s == .cancelled

def active (s : Status) : Bool :=
  s == .queued || s == .claimed || s == .running || s == .cancelling

/-- In flight on a worker; a job whose stop has been requested is not. -/
def inFlight (s : Status) : Bool :=
  s == .claimed || s == .running

theorem active_iff_not_terminal (s : Status) : active s = true ↔ terminal s = false := by
  cases s <;> decide

theorem canTransition_of_terminal {current : Status} (h : terminal current = true)
    (new : Status) : canTransition current new = false := by
  cases current <;> cases new <;> first | rfl | exact absurd h (by decide)

theorem canTransition_cancelling_iff (new : Status) :
    canTransition .cancelling new = true ↔ terminal new = true := by
  cases new <;> decide

theorem inFlight_not_terminal {s : Status} (h : inFlight s = true) : terminal s = false := by
  cases s <;> first | rfl | exact absurd h (by decide)

end Shapoclyack.JobStates
