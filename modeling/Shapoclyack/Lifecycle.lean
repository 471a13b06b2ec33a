import Shapoclyack.FoldEffects
import Shapoclyack.JobStates

set_option autoImplicit false

namespace Shapoclyack.Lifecycle

open ReportEntries VulnStates Findings FindingFold FoldEffects

inductive Refusal where
  | invalidTransition
  | invalidExceptionTransition (message : String)
  | valueError (message : String)
  | permissionError (message : String)
  | dispatchError (message : String)
deriving DecidableEq, Repr

abbrev Outcome := Except Refusal Vulnerability

section Operators

/-- `check_transition`, then the rest of the operation. -/
def checked (current new : State) (rest : Vulnerability) : Outcome :=
  if canTransition current new then .ok rest else .error .invalidTransition

def closeByHand (row : Vulnerability) (reason : ClosureReason) (now : ℤ) : Vulnerability :=
  dropException { row with
    closedAt := some now
    machineVerified := false
    closureReason := some reason }

/-- `row.sla_days or DEFAULT_SLA_DAYS[row.severity]`. -/
def ownSlaDays (row : Vulnerability) : ℕ :=
  slaDaysOr row.slaDays (defaultSlaDays row.assessment.severity)

def reopenByHand (row : Vulnerability) (now : ℤ) : Vulnerability :=
  let cleared := dropFpVerdictOnReopen { row with
    closedAt := none
    machineVerified := false }
  { cleared with
    closureReason := none
    slaStartedAt := now
    dueAt := some (now + days (ownSlaDays row))
    reopenCount := row.reopenCount + 1 }

def moveTo (row : Vulnerability) (new : State) (actor : Option String) (now : ℤ) :
    Vulnerability :=
  { row with
    state := new
    stateChangedAt := now
    stateChangedBy := actor
    updatedAt := now }

def transition (new : State) (actor : Option String) (now : ℤ) (row : Vulnerability) : Outcome :=
  let moved := moveTo row new actor now
  checked row.state new
    (if new = .CLOSED then closeByHand moved .manual now
      else if row.state = .CLOSED then reopenByHand moved now
      else moved)

/-- What a tracker said, and how the caller wants it applied. -/
structure TicketReading where
  suggestedState : Option State
  rawStatus : Option String
  error : Option String
  actor : Option String
  onlyOnRemoteChange : Bool

/-- A verification in flight is the arbiter of its own outcome. -/
def heldForVerification (jobStatus : String → Option JobStates.Status) (row : Vulnerability) :
    Bool :=
  decide (row.state = .VERIFYING) &&
    match row.verificationJobId with
    | none => false
    | some jobId =>
      match jobStatus jobId with
      | none => false
      | some status => JobStates.active status

def ticketMove (jobStatus : String → Option JobStates.Status) (reading : TicketReading)
    (row : Vulnerability) : Option State :=
  let remoteChanged := row.ticketSyncedAt == none || reading.rawStatus != row.ticketRemoteStatus
  match reading.suggestedState with
  | none => none
  | some suggested =>
    if suggested ≠ row.state ∧ heldForVerification jobStatus row = false ∧
        (remoteChanged || !reading.onlyOnRemoteChange) = true ∧
        canTransition row.state suggested = true then some suggested
    else none

def recordSync (reading : TicketReading) (now : ℤ) (row : Vulnerability) : Vulnerability :=
  { row with
    ticketSyncedAt := some now
    ticketSyncError := FindingEvidence.filled reading.error
    ticketRemoteStatus :=
      if reading.error = none then reading.rawStatus else row.ticketRemoteStatus }

/-- Reconcile one finding against what its tracker just said. -/
def applyTicketStatus (jobStatus : String → Option JobStates.Status) (reading : TicketReading)
    (now : ℤ) (row : Vulnerability) : Outcome :=
  match row.ticketSystem, row.ticketKey with
  | some system, some _ =>
    let actor := some (reading.actor.getD ("ticket_sync:" ++ system))
    .ok (recordSync reading now
      (match ticketMove jobStatus reading row with
        | none => row
        | some new =>
          let moved := moveTo row new actor now
          if new = .CLOSED then closeByHand moved .ticketResolved now
          else if row.state = .CLOSED then reopenByHand moved now
          else moved))
  | _, _ => .ok row

def minFpSuppressDays : ℕ := 1

def maxFpSuppressDays : ℕ := 365

def markFalsePositive (t : Text) (reason : Option String) (suppressDays : ℕ)
    (actor : Option String) (now : ℤ) (row : Vulnerability) : Outcome :=
  let reason := t.strip (text reason)
  if reason = "" then .error (.valueError "a false-positive verdict needs a reason")
  else if ¬ (minFpSuppressDays ≤ suppressDays ∧ suppressDays ≤ maxFpSuppressDays) then
    .error (.valueError "suppress_days must be between 1 and 365")
  else
    checked row.state .CLOSED
      (closeByHand { moveTo row .CLOSED actor now with
        falsePositive := {
          reason := some (clip 2000 reason)
          markedBy := actor
          markedAt := some now
          suppressUntil := some (now + days suppressDays)
          observations := 0 } } .falsePositive now)

def clearFalsePositive (policies : List SlaPolicy) (criticality : Option ℕ)
    (actor : Option String) (now : ℤ) (row : Vulnerability) : Outcome :=
  if row.state ≠ .CLOSED ∨ row.closureReason ≠ some .falsePositive then
    .error (.valueError (row.vulnId ++ " is not closed as a false positive"))
  else
    let sla := resolveSlaDays policies row.tenantId row.assessment.severity criticality
    .ok { moveTo row .OPEN actor now with
      closedAt := none
      closureReason := none
      machineVerified := false
      slaStartedAt := now
      slaDays := some sla.1
      slaSource := some sla.2
      dueAt := some (now + days sla.1)
      falsePositive := Verdict.none }

end Operators

section Acceptances

variable (t : Text)

/-- Whether two usernames name the same account, for the self-approval bar. -/
def samePerson (one other : Option String) : Bool :=
  let a := t.casefold (t.strip (text one))
  let b := t.casefold (t.strip (text other))
  a == b && b != ""

def checkedException (current new : ExceptionState) (rest : Outcome) : Outcome :=
  if canTransitionException current new then rest
  else .error (.invalidExceptionTransition "accepted risk cannot make this move")

def requestException (until_ : ℤ) (reason : Option String) (actor : Option String) (now : ℤ)
    (row : Vulnerability) : Outcome :=
  let reason := t.strip (text reason)
  if reason = "" then .error (.valueError "an exception needs a reason")
  else if until_ ≤ now then .error (.valueError "exception_until must be in the future")
  else if row.state = .CLOSED then
    .error (.valueError "a closed finding has no risk to accept")
  else
    checkedException row.exception.state .requested
      (if row.exception.state = .requested ∧
          samePerson t row.exception.requestedBy actor = false then
        .error (.invalidExceptionTransition "a request is waiting for a decision")
      else
        .ok { row with
          exception := { row.exception with
            state := .requested
            requestedBy := actor
            requestedAt := some now
            requestedUntil := some until_
            requestedReason := some (clip 2000 reason)
            decidedBy := none
            decidedAt := none
            decisionNote := none }
          updatedAt := now })

def approveException (actor : String) (note : Option String) (now : ℤ) (row : Vulnerability) :
    Outcome :=
  checkedException row.exception.state .approved
    (if samePerson t row.exception.requestedBy (some actor) then
      .error (.permissionError ("the person who requested an exception cannot approve it; "
        ++ "this decision needs a second pair of eyes"))
    else
      match row.exception.requestedUntil with
      | none => .error (.valueError "the requested window has already passed; ask for a new one")
      | some until_ =>
        if until_ ≤ now then
          .error (.valueError "the requested window has already passed; ask for a new one")
        else
          .ok { row with
            exception := { row.exception with
              state := .approved
              decidedBy := some actor
              decidedAt := some now
              decisionNote := orNone (clip 2000 (t.strip (text note)))
              until_ := some until_
              grantedBy := some actor
              reason :=
                if FindingEvidence.truthy row.exception.requestedReason then
                  row.exception.requestedReason
                else row.exception.reason
              approvedAt := some now
              approvedRequestedBy := row.exception.requestedBy
              expiredAt := none }
            dueAt := some until_
            slaSource := some .exception
            updatedAt := now })

def rejectException (actor : String) (note : Option String) (now : ℤ) (row : Vulnerability) :
    Outcome :=
  checkedException row.exception.state .rejected
    (if samePerson t row.exception.requestedBy (some actor) then
      .error (.permissionError ("the person who requested an exception cannot decide it; "
        ++ "this decision needs a second pair of eyes"))
    else
      .ok { row with
        exception := { row.exception with
          state := .rejected
          decidedBy := some actor
          decidedAt := some now
          decisionNote := orNone (clip 2000 (t.strip (text note))) }
        updatedAt := now })

/-- What the acceptance state was before a request was filed over it. -/
def stateBehindARequest (row : Vulnerability) (now : ℤ) : ExceptionState :=
  match row.exception.until_ with
  | none => .none
  | some granted => if now < granted then .approved else .expired

def withdrawExceptionRequest (actor : Option String) (now : ℤ) (row : Vulnerability) : Outcome :=
  if row.exception.state ≠ .requested then
    .error (.invalidExceptionTransition "no exception request is waiting for a decision")
  else if samePerson t row.exception.requestedBy actor = false then
    .error (.permissionError ("only the person who filed an exception request may withdraw it; "
      ++ "somebody holding vulnerability.exception.approve can reject it instead"))
  else
    .ok { row with
      exception := { row.exception with
        state := stateBehindARequest row now
        requestedBy := none
        requestedAt := none
        requestedUntil := none
        requestedReason := none }
      updatedAt := now }

def clearException (policies : List SlaPolicy) (criticality : Option ℕ) (now : ℤ)
    (row : Vulnerability) : Outcome :=
  match row.exception.until_ with
  | none => .error (.invalidExceptionTransition "no accepted risk to revoke")
  | some _ =>
    let sla := resolveSlaDays policies row.tenantId row.assessment.severity criticality
    .ok { row with
      exception :=
        if row.exception.state = .requested then
          { Acceptance.none with
            state := .requested
            requestedBy := row.exception.requestedBy
            requestedAt := row.exception.requestedAt
            requestedUntil := row.exception.requestedUntil
            requestedReason := row.exception.requestedReason }
        else Acceptance.none
      slaDays := some sla.1
      slaSource := some sla.2
      dueAt := some (row.slaStartedAt + days sla.1)
      updatedAt := now }

def lapsed (now : ℤ) (row : Vulnerability) : Bool :=
  decide (row.state ≠ .CLOSED) && row.exception.grantedBy.isSome &&
    row.exception.expiredAt == none &&
    match row.exception.until_ with
    | none => false
    | some until_ => decide (until_ ≤ now)

/-- One row of the expiry sweep. -/
def expireException (now : ℤ) (row : Vulnerability) : Outcome :=
  if lapsed now row then
    .ok { row with
      exception := { row.exception with
        expiredAt := some now
        state := if row.exception.state = .approved then .expired else row.exception.state }
      updatedAt := now }
  else .ok row

end Acceptances

end Shapoclyack.Lifecycle
