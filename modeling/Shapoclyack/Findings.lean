import Shapoclyack.VerificationCoverage
import Shapoclyack.VulnStates

set_option autoImplicit false

namespace Shapoclyack.Findings

open FindingEvidence ProductionEvidence ReportEntries Detectors VulnStates

inductive ClosureReason where
  | verifiedRemediated
  | patched
  | manual
  | ticketResolved
  | endpointUnreachable
  | falsePositive
deriving DecidableEq, Repr

inductive SlaSource where
  | policy
  | default
  | exception
deriving DecidableEq, Repr

inductive Source where
  | scan
  | endpointSoftware
  | retroMatch
deriving DecidableEq, Repr

/-- The part of an assessment a false-positive verdict is weighed on. -/
structure Assessment where
  severity : Severity
  inKev : Bool
  exploitMaturity : Option String
  networkExposure : Option String
deriving DecidableEq

/-- The `exception_*` columns: the window granted, and the request waiting over it. -/
structure Acceptance where
  state : ExceptionState
  until_ : Option ℤ
  reason : Option String
  grantedBy : Option String
  approvedAt : Option ℤ
  approvedRequestedBy : Option String
  expiredAt : Option ℤ
  requestedBy : Option String
  requestedAt : Option ℤ
  requestedUntil : Option ℤ
  requestedReason : Option String
  decidedBy : Option String
  decidedAt : Option ℤ
  decisionNote : Option String
deriving DecidableEq

def Acceptance.none : Acceptance where
  state := .none
  until_ := Option.none
  reason := Option.none
  grantedBy := Option.none
  approvedAt := Option.none
  approvedRequestedBy := Option.none
  expiredAt := Option.none
  requestedBy := Option.none
  requestedAt := Option.none
  requestedUntil := Option.none
  requestedReason := Option.none
  decidedBy := Option.none
  decidedAt := Option.none
  decisionNote := Option.none

/-- The `fp_*` columns of a false-positive verdict. -/
structure Verdict where
  reason : Option String
  markedBy : Option String
  markedAt : Option ℤ
  suppressUntil : Option ℤ
  observations : ℕ
deriving DecidableEq

def Verdict.none : Verdict := ⟨.none, .none, .none, .none, 0⟩

/-- One row of `vulnerabilities`. -/
structure Vulnerability where
  vulnId : String
  tenantId : String
  assetId : String
  findingKey : String
  source : Source
  deviceId : Option String
  cve : Option String
  scriptId : Option String
  port : Option String
  nonCve : Option NonCve
  detectors : List Detector
  findingEvidence : Option Evidence
  assessment : Assessment
  /-- The execution the row's risk receipt names. -/
  executionId : Option String
  state : State
  stateChangedAt : ℤ
  stateChangedBy : Option String
  assignee : Option String
  ownerTeam : Option String
  dueAt : Option ℤ
  slaDays : Option ℕ
  slaSource : Option SlaSource
  slaStartedAt : ℤ
  exception : Acceptance
  firstSeenAt : ℤ
  lastSeenAt : ℤ
  firstSeenRunId : Option String
  lastSeenRunId : Option String
  observationCount : ℕ
  reopenCount : ℕ
  closedAt : Option ℤ
  closureReason : Option ClosureReason
  machineVerified : Bool
  lastVerifiedAt : Option ℤ
  verificationJobId : Option String
  falsePositive : Verdict
  ticketSystem : Option String
  ticketKey : Option String
  ticketSyncedAt : Option ℤ
  ticketRemoteStatus : Option String
  ticketSyncError : Option String
  updatedAt : ℤ

structure AssetInfo where
  assetId : String
  criticality : Option ℕ
  ownerEmail : Option String
  businessUnit : Option String
deriving DecidableEq

section Sla

structure SlaPolicy where
  tenantId : String
  criticality : Option ℕ
  severity : Severity
  remediationDays : ℕ
  positive : 1 ≤ remediationDays

def defaultSlaDays : Severity → ℕ
  | .critical => 15
  | .high => 30
  | .medium => 90
  | .low => 180
  | .unknown => 90

def policyDays (policies : List SlaPolicy) (tenantId : String) (severity : Severity)
    (criticality : Option ℕ) : Option ℕ :=
  (policies.find? fun p =>
    decide (p.tenantId = tenantId ∧ p.severity = severity ∧ p.criticality = criticality)).map
      (·.remediationDays)

def resolveSlaDays (policies : List SlaPolicy) (tenantId : String) (severity : Severity)
    (criticality : Option ℕ) : ℕ × SlaSource :=
  match criticality.bind (fun c => policyDays policies tenantId severity (some c)) with
  | some days => (days, .policy)
  | none =>
    match policyDays policies tenantId severity none with
    | some days => (days, .policy)
    | none => (defaultSlaDays severity, .default)

theorem defaultSlaDays_pos (severity : Severity) : 1 ≤ defaultSlaDays severity := by
  cases severity <;> decide

theorem policyDays_pos {policies : List SlaPolicy} {tenantId : String} {severity : Severity}
    {criticality : Option ℕ} {d : ℕ}
    (h : policyDays policies tenantId severity criticality = some d) : 1 ≤ d := by
  obtain ⟨p, _, rfl⟩ := Option.map_eq_some_iff.mp h
  exact p.positive

theorem resolveSlaDays_pos (policies : List SlaPolicy) (tenantId : String) (severity : Severity)
    (criticality : Option ℕ) : 1 ≤ (resolveSlaDays policies tenantId severity criticality).1 := by
  unfold resolveSlaDays
  split
  case h_1 d hd =>
    obtain ⟨c, _, hc⟩ := Option.bind_eq_some_iff.mp hd
    exact policyDays_pos hc
  case h_2 =>
    split
    case h_1 d hd => exact policyDays_pos hd
    case h_2 => exact defaultSlaDays_pos severity

theorem resolveSlaDays_source (policies : List SlaPolicy) (tenantId : String)
    (severity : Severity) (criticality : Option ℕ) :
    (resolveSlaDays policies tenantId severity criticality).2 ≠ .exception := by
  unfold resolveSlaDays
  split
  case h_1 => simp
  case h_2 => split <;> simp

end Sla

section FalsePositives

def maturityOrder : List String :=
  ["theoretical", "unproven", "proof_of_concept", "weaponized", "attacked"]

/-- Rank of an exploit maturity level, with `unknown` and junk at the floor. -/
def maturityRank (t : Text) (value : Option String) : ℤ :=
  match maturityOrder.findIdx? (· == t.lower (t.strip (text value))) with
  | some i => i
  | none => -1

/-- Is a false-positive verdict still holding this finding closed? -/
def fpSuppressed (row : Vulnerability) (now : ℤ) : Bool :=
  decide (row.state = .CLOSED) && decide (row.closureReason = some .falsePositive) &&
    match row.falsePositive.suppressUntil with
    | none => false
    | some until_ => decide (now < until_)

/-- Which parts of a suppressed finding's assessment got materially worse. -/
def fpEscalations (t : Text) (row : Vulnerability) (latest : Assessment) : List String :=
  (if row.assessment.severity.rank < latest.severity.rank then ["severity"] else []) ++
    (if latest.inKev = true ∧ row.assessment.inKev = false then ["in_kev"] else []) ++
    (if latest.networkExposure = some "external" ∧
        row.assessment.networkExposure ≠ some "external" then ["network_exposure"] else []) ++
    (if maturityRank t row.assessment.exploitMaturity < maturityRank t latest.exploitMaturity then
      ["exploit_maturity"] else [])

inductive FpOutcome where
  | none
  | held
  | overridden
deriving DecidableEq, Repr

/-- Weigh one re-observation against a false-positive verdict, before it is written. -/
def weighFpVerdict (t : Text) (row : Vulnerability) (latest : Assessment) (now : ℤ) :
    FpOutcome × Vulnerability :=
  if fpSuppressed row now then
    if fpEscalations t row latest ≠ [] then (.overridden, row)
    else
      (.held, { row with falsePositive :=
        { row.falsePositive with observations := row.falsePositive.observations + 1 } })
  else (.none, row)

def dropFpVerdictOnReopen (row : Vulnerability) : Vulnerability :=
  if row.closureReason = some .falsePositive then { row with falsePositive := Verdict.none }
  else row

end FalsePositives

def dropException (row : Vulnerability) : Vulnerability :=
  if row.exception.until_ = none ∧ row.exception.state = .none then row
  else { row with exception := Acceptance.none }

theorem dropException_until (row : Vulnerability) :
    (dropException row).exception.until_ = none := by
  unfold dropException
  split_ifs with h
  · exact h.1
  · rfl

theorem dropException_state (row : Vulnerability) :
    (dropException row).exception.state = .none := by
  unfold dropException
  split_ifs with h
  · exact h.2
  · rfl

theorem dropException_frame (row : Vulnerability) :
    dropException row = { row with exception := (dropException row).exception } := by
  unfold dropException
  split_ifs <;> rfl

end Shapoclyack.Findings
