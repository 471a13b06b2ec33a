import Mathlib.Tactic

set_option autoImplicit false

namespace Shapoclyack.VulnStates

inductive State where
  | OPEN
  | ACKNOWLEDGED
  | PLANNED
  | FIXING
  | VERIFYING
  | CLOSED
deriving DecidableEq, Repr

/-- The lifecycle as data; the reopen is the only edge into `OPEN`. -/
def transitions : State → List State
  | .OPEN => [.ACKNOWLEDGED, .PLANNED, .FIXING, .CLOSED]
  | .ACKNOWLEDGED => [.PLANNED, .FIXING, .CLOSED]
  | .PLANNED => [.ACKNOWLEDGED, .FIXING, .CLOSED]
  | .FIXING => [.PLANNED, .VERIFYING, .CLOSED]
  | .VERIFYING => [.FIXING, .CLOSED]
  | .CLOSED => [.OPEN]

def canTransition (current new : State) : Bool :=
  decide (new ∈ transitions current)

theorem canTransition_iff (current new : State) :
    canTransition current new = true ↔ new ∈ transitions current := by
  simp [canTransition]

theorem canTransition_open_iff (current : State) :
    canTransition current .OPEN = true ↔ current = .CLOSED := by
  cases current <;> decide

theorem canTransition_verifying_iff (current : State) :
    canTransition current .VERIFYING = true ↔ current = .FIXING := by
  cases current <;> decide

theorem canTransition_irrefl (s : State) : canTransition s s = false := by
  cases s <;> decide

/-- Everything but the reopen leaves `CLOSED` alone. -/
theorem canTransition_from_closed {new : State} (h : canTransition .CLOSED new = true) :
    new = .OPEN := by
  cases new <;> first | rfl | exact absurd h (by decide)

/-- Accepted risk, as a machine of its own. -/
inductive ExceptionState where
  | none
  | requested
  | approved
  | rejected
  | expired
deriving DecidableEq, Repr

def exceptionTransitions : ExceptionState → List ExceptionState
  | .none => [.requested]
  | .requested => [.approved, .rejected, .none, .requested]
  | .approved => [.expired, .none, .requested]
  | .rejected => [.requested, .none]
  | .expired => [.requested, .none]

def canTransitionException (current new : ExceptionState) : Bool :=
  decide (new ∈ exceptionTransitions current)

end Shapoclyack.VulnStates
