import Shapoclyack.Findings
import Shapoclyack.Library.KeyedTable

set_option autoImplicit false

namespace Shapoclyack.FindingFold

open FindingEvidence ProductionEvidence ReportEntries Detectors VerificationArtifacts
open VerificationCoverage VulnStates Findings Library

structure Scored where
  exploitActive : Bool
  exploitMaturity : Option String
  networkExposure : Option String
  executionId : Option String

/-- One entry of the run with its score and the id a new row would take. -/
structure Reported where
  entry : Entry
  scored : Scored
  freshId : String

/-- A finished run and what the fold reads about it. -/
structure Run where
  tenantId : String
  runId : String
  now : ℤ
  hasRunDir : Bool
  reported : List Reported
  assetFor : Entry → Option AssetInfo
  vantage : Option Vantage
  artifacts : RunArtifacts
  /-- The jobs whose run this is. -/
  jobIds : List String
  policies : List SlaPolicy
  /-- `_asset_hosts`: every address an asset is known by. -/
  assetHosts : String → List String

structure Observed where
  key : String
  asset : AssetInfo
  freshId : String
  isActionable : Bool
  cve : Option String
  scriptId : Option String
  port : Option String
  latest : Assessment
  executionId : Option String
  nonCve : Option NonCve
  detectors : List Detector
  evidence : Option Evidence

section Prepare

variable (lib : CoverageText) (run : Run)

def observedOf (reported : Reported) (asset : AssetInfo) (key : String) : Observed :=
  let entry := reported.entry
  let isActionable := actionable lib.toText entry
  { key := key
    asset := asset
    freshId := reported.freshId
    isActionable := isActionable
    cve := strippedOrNone lib.toText entry.cve
    scriptId := strippedOrNone lib.toText entry.scriptId
    port := entry.port
    latest := {
      severity := severityOf lib.toTrackerText entry
      inKev := reported.scored.exploitActive
      exploitMaturity := reported.scored.exploitMaturity
      networkExposure := reported.scored.networkExposure }
    executionId := reported.scored.executionId
    nonCve := if isActionable then nonCveMetadata lib.toTrackerText entry else none
    detectors := observedDetectors lib.toText entry run.runId run.now run.vantage
    evidence := scopedEvidence lib.toEvidenceText run.tenantId run.runId entry.findingEvidence }

def resolves (reported : Reported) : Option AssetInfo :=
  match run.assetFor reported.entry with
  | none => none
  | some asset =>
    if strippedOrNone lib.toText reported.entry.cve = none ∧
        strippedOrNone lib.toText reported.entry.scriptId = none then none
    else some asset

/-- The resolved entries in order; none where computing a key raises and the fold rolls back. -/
def prepare : List Reported → Option (List Observed)
  | [] => some []
  | reported :: rest =>
    match resolves lib run reported with
    | none => prepare rest
    | some asset =>
      match observationFindingKey lib.toTrackerText run.tenantId asset.assetId reported.entry with
      | none => none
      | some key => (prepare rest).map (observedOf lib run reported asset key :: ·)

end Prepare

section Observe

variable (lib : CoverageText) (run : Run)

def create (o : Observed) : Vulnerability :=
  let sla := resolveSlaDays run.policies run.tenantId o.latest.severity o.asset.criticality
  { vulnId := o.freshId
    tenantId := run.tenantId
    assetId := o.asset.assetId
    findingKey := o.key
    source := .scan
    deviceId := none
    cve := o.cve
    scriptId := o.scriptId
    port := o.port
    nonCve := o.nonCve
    detectors := mergeDetectors lib.toText [] o.detectors
    findingEvidence := o.evidence
    assessment := o.latest
    executionId := o.executionId
    state := .OPEN
    stateChangedAt := run.now
    stateChangedBy := none
    assignee := o.asset.ownerEmail
    ownerTeam := o.asset.businessUnit
    dueAt := some (run.now + days sla.1)
    slaDays := some sla.1
    slaSource := some sla.2
    slaStartedAt := run.now
    exception := Acceptance.none
    firstSeenAt := run.now
    lastSeenAt := run.now
    firstSeenRunId := some run.runId
    lastSeenRunId := some run.runId
    observationCount := 1
    reopenCount := 0
    closedAt := none
    closureReason := none
    machineVerified := false
    lastVerifiedAt := none
    verificationJobId := none
    falsePositive := Verdict.none
    ticketSystem := none
    ticketKey := none
    ticketSyncedAt := none
    ticketRemoteStatus := none
    ticketSyncError := none
    updatedAt := run.now }

def distinctPublication (row : Vulnerability) (o : Observed) : Bool :=
  truthy o.executionId && o.executionId != row.executionId

/-- `not (evidence or {}).get("observation_count")`. -/
def carriesNoObservation (evidence : Option Evidence) : Bool :=
  match evidence with
  | none => true
  | some e => decide (e.observationCount = 0)

def isReplay (row : Vulnerability) (o : Observed) (disposition : Disposition) : Bool :=
  disposition == .replay ||
    (carriesNoObservation o.evidence && row.lastSeenRunId == some run.runId &&
      (o.evidence.isSome || (o.isActionable && !distinctPublication row o)))

def priorDates (row : Vulnerability) : List (Option String) :=
  ((findingsOf row.findingEvidence).flatMap (·.observations)).filterMap fun o =>
    if o.runId = run.runId ∧ truthy o.observedAt = true then some o.observedAt else none

def incomingDates (evidence : Option Evidence) : List (Option String) :=
  ((findingsOf evidence).map (·.latestObservedAt)).filter truthy

/-- A replay may refresh the run's own context, but not promote an older retained cohort. -/
def currentCohort (row : Vulnerability) (o : Observed) : Bool :=
  row.lastSeenRunId == some run.runId &&
    (priorDates run row == [] ||
      (incomingDates o.evidence != [] &&
        !decide (text (latestOf (incomingDates o.evidence)) <
          text (latestOf (priorDates run row)))))

def writeLatest (row : Vulnerability) (o : Observed) : Vulnerability :=
  { row with
    assessment := o.latest
    executionId := o.executionId
    nonCve := o.nonCve
    updatedAt := run.now }

def retain (row : Vulnerability) (o : Observed) : Vulnerability :=
  { row with findingEvidence := merge lib.toEvidenceText row.findingEvidence o.evidence }

/-- Existing receipts are newer: keep new detector identities behind the recorded ones. -/
def foldHistorical (row : Vulnerability) (o : Observed) : Vulnerability :=
  { row with
    findingEvidence := merge lib.toEvidenceText row.findingEvidence o.evidence
    detectors := mergeDetectors lib.toText o.detectors row.detectors
    observationCount := row.observationCount + 1
    updatedAt := run.now }

/-- `row.sla_days or days`. -/
def slaDaysOr (slaDays : Option ℕ) (fallback : ℕ) : ℕ :=
  match slaDays with
  | none => fallback
  | some 0 => fallback
  | some (n + 1) => n + 1

def unreachableWindowMinDays : ℕ := 30

/-- Seen again soon after an unreachable closure: nothing was fixed, the clock goes on. -/
def continueClock (row : Vulnerability) (policyDays : ℕ) : Bool :=
  decide (row.closureReason = some .endpointUnreachable) &&
    match row.closedAt with
    | none => false
    | some closedAt =>
      decide (run.now - closedAt ≤
        days (max (slaDaysOr row.slaDays policyDays) unreachableWindowMinDays : ℕ))

def reopen (row : Vulnerability) (o : Observed) : Vulnerability :=
  let sla := resolveSlaDays run.policies run.tenantId o.latest.severity o.asset.criticality
  let opened := { row with
    state := .OPEN
    stateChangedAt := run.now
    stateChangedBy := none
    closedAt := none
    machineVerified := false }
  let clocked :=
    if continueClock run row sla.1 then opened
    else { opened with
      slaStartedAt := run.now
      dueAt := some (run.now + days sla.1)
      slaDays := some sla.1
      slaSource := some sla.2 }
  { dropFpVerdictOnReopen { clocked with reopenCount := clocked.reopenCount + 1 } with
    closureReason := none }

def markSeen (row : Vulnerability) (o : Observed) : Vulnerability :=
  { row with
    lastSeenAt := run.now
    lastSeenRunId := some run.runId
    detectors := mergeDetectors lib.toText row.detectors o.detectors
    findingEvidence := merge lib.toEvidenceText row.findingEvidence o.evidence
    observationCount := row.observationCount + 1 }

/-- What the retro matcher inferred becomes a scan finding once a scan observes it. -/
def promote (row : Vulnerability) : Vulnerability :=
  { row with source := if row.source = .retroMatch then .scan else row.source }

def concludeFold (outcome : FpOutcome) (row : Vulnerability) (o : Observed) : Vulnerability :=
  if outcome = .held then row
  else if row.state = .CLOSED then reopen run row o
  else row

def foldCurrent (row : Vulnerability) (o : Observed) : Vulnerability :=
  let weighed := weighFpVerdict lib.toText row o.latest run.now
  concludeFold run weighed.1 (promote (markSeen lib run (writeLatest run weighed.2 o) o)) o

/-- A replay whose assessment broke the suppression: refreshed and reopened, not counted. -/
def foldEscalated (row : Vulnerability) (o : Observed) : Vulnerability :=
  concludeFold run .overridden (promote (writeLatest run row o)) o

def replayEscalates (row : Vulnerability) (o : Observed) : Bool :=
  distinctPublication row o && currentCohort run row o && fpSuppressed row run.now &&
    fpEscalations lib.toText row o.latest != []

def foldReplay (row : Vulnerability) (o : Observed) : Vulnerability :=
  if distinctPublication row o && currentCohort run row o then
    retain lib (writeLatest run row o) o
  else retain lib row o

def observe (row : Vulnerability) (o : Observed) : Vulnerability :=
  let disposition := publicationDisposition row.findingEvidence o.evidence
  if isReplay run row o disposition then
    if replayEscalates lib run row o then
      if disposition = .historical then foldHistorical lib run (retain lib row o) o
      else foldEscalated run (retain lib row o) o
    else foldReplay lib run row o
  else if disposition = .historical then foldHistorical lib run row o
  else foldCurrent lib run row o

end Observe

section Settle

variable (lib : CoverageText) (run : Run)

def observedVantages (row : Vulnerability) : List String :=
  row.detectors.flatMap vantagesOf

def sameVantage (row : Vulnerability) : Bool :=
  match run.vantage with
  | none => false
  | some verifying =>
    verifying.vantage != "" && observedVantages row != [] &&
      (observedVantages row).all (· == verifying.vantage)

def findingHosts (row : Vulnerability) : List String :=
  let ips := ((run.assetHosts row.assetId).map (normalizeHost lib.toText)).filter (isIp lib.toText)
  let hosts := (row.detectors.filterMap (fun e => filled e.host)).map (normalizeHost lib.toText)
  if row.detectors = [] ∨ row.detectors.any (fun e => !truthy e.host) then hosts ++ ips else hosts

def preciseGaps (nonCve : Option NonCve) (cve : Option String) : List Gap :=
  match nonCve with
  | none => []
  | some metadata => if truthy cve then [] else nonCveGaps lib run.artifacts metadata

def exactSubjects (nonCve : Option NonCve) (cve : Option String) : List Subject :=
  match nonCve with
  | none => []
  | some metadata =>
    if truthy cve then []
    else if nonCveGaps lib run.artifacts metadata = [] then [metadata.subject] else []

def evidenceGaps (nonCve : Option NonCve) (cve : Option String) (evidence : Option Evidence) :
    List Gap :=
  match closureGap evidence (exactSubjects lib run nonCve cve) with
  | none => []
  | some reason => [⟨"evidence", none, none, none, reason⟩]

def coverageGaps (row : Vulnerability) : List Gap :=
  assess lib run.artifacts row.port (run.assetHosts row.assetId) row.detectors ++
    preciseGaps lib run row.nonCve row.cve ++
    evidenceGaps lib run row.nonCve row.cve row.findingEvidence

/-- Whether the run shows the finding's port out of reach from the one vantage that saw it. -/
def shownUnreachable (row : Vulnerability) : Bool :=
  evidenceGaps lib run row.nonCve row.cve row.findingEvidence == [] &&
    (endpointUnreachable lib.toText run.artifacts (findingHosts lib run row)
      (portOf lib.toText row.port) (findingProtocol lib.toText row.detectors)).isSome &&
    sameVantage run row

inductive Settlement where
  | failed
  | unreachable
  | inconclusive
  | verified
deriving DecidableEq, Repr

def settlement (row : Vulnerability) : Settlement :=
  if row.lastSeenRunId = some run.runId then .failed
  else if coverageGaps lib run row = [] then .verified
  else if shownUnreachable lib run row then .unreachable
  else .inconclusive

/-- `VERIFYING → FIXING`, whether the finding is still there or nothing was shown. -/
def sendBack (now : ℤ) (row : Vulnerability) : Vulnerability :=
  { row with
    state := .FIXING
    stateChangedAt := now
    stateChangedBy := some "system:verification"
    lastVerifiedAt := some now
    updatedAt := now }

def closeVerifying (row : Vulnerability) (reason : ClosureReason) (machineVerified : Bool) :
    Vulnerability :=
  { dropException { row with
      state := .CLOSED
      stateChangedAt := run.now
      stateChangedBy := some "system:verification"
      closedAt := some run.now
      lastVerifiedAt := some run.now
      machineVerified := machineVerified
      closureReason := some reason } with
    updatedAt := run.now }

def settle (row : Vulnerability) : Vulnerability :=
  match settlement lib run row with
  | .failed => sendBack run.now row
  | .inconclusive => sendBack run.now row
  | .unreachable => closeVerifying run row .endpointUnreachable false
  | .verified => closeVerifying run row .verifiedRemediated true

def awaits (row : Vulnerability) : Bool :=
  decide (row.tenantId = run.tenantId) && decide (row.state = .VERIFYING) &&
    match row.verificationJobId with
    | none => false
    | some jobId => run.jobIds.contains jobId

def settleAwaiting (row : Vulnerability) : Vulnerability :=
  if awaits run row then settle lib run row else row

end Settle

section Frames

variable {lib : CoverageText} {run : Run}

def identityOf (row : Vulnerability) : String × String × String × String :=
  (row.vulnId, row.tenantId, row.assetId, row.findingKey)

theorem dropFpVerdictOnReopen_identity (row : Vulnerability) :
    identityOf (dropFpVerdictOnReopen row) = identityOf row := by
  unfold dropFpVerdictOnReopen
  split_ifs <;> rfl

theorem reopen_identity (row : Vulnerability) (o : Observed) :
    identityOf (reopen run row o) = identityOf row := by
  unfold reopen
  simp only
  refine (dropFpVerdictOnReopen_identity _).trans ?_
  split_ifs <;> rfl

theorem concludeFold_identity (outcome : FpOutcome) (row : Vulnerability) (o : Observed) :
    identityOf (concludeFold run outcome row o) = identityOf row := by
  unfold concludeFold
  split_ifs
  · rfl
  · exact reopen_identity row o
  · rfl

theorem weighFpVerdict_identity (t : Text) (row : Vulnerability) (latest : Assessment) (now : ℤ) :
    identityOf (weighFpVerdict t row latest now).2 = identityOf row := by
  unfold weighFpVerdict
  split_ifs <;> rfl

theorem foldCurrent_identity (row : Vulnerability) (o : Observed) :
    identityOf (foldCurrent lib run row o) = identityOf row := by
  unfold foldCurrent
  simp only
  rw [concludeFold_identity]
  simp only [identityOf, promote, markSeen, writeLatest]
  exact weighFpVerdict_identity lib.toText row o.latest run.now

theorem foldEscalated_identity (row : Vulnerability) (o : Observed) :
    identityOf (foldEscalated run row o) = identityOf row := by
  unfold foldEscalated
  rw [concludeFold_identity]
  simp only [identityOf, promote, writeLatest]

theorem foldReplay_identity (row : Vulnerability) (o : Observed) :
    identityOf (foldReplay lib run row o) = identityOf row := by
  unfold foldReplay
  split_ifs <;> simp only [identityOf, retain, writeLatest]

theorem foldHistorical_identity (row : Vulnerability) (o : Observed) :
    identityOf (foldHistorical lib run row o) = identityOf row := by
  simp only [identityOf, foldHistorical]

theorem retain_identity (row : Vulnerability) (o : Observed) :
    identityOf (retain lib row o) = identityOf row := by
  simp only [identityOf, retain]

theorem observe_identity (row : Vulnerability) (o : Observed) :
    identityOf (observe lib run row o) = identityOf row := by
  unfold observe
  simp only
  split_ifs
  · rw [foldHistorical_identity, retain_identity]
  · rw [foldEscalated_identity, retain_identity]
  · exact foldReplay_identity row o
  · exact foldHistorical_identity row o
  · exact foldCurrent_identity row o

theorem closeVerifying_identity (row : Vulnerability) (reason : ClosureReason) (verified : Bool) :
    identityOf (closeVerifying run row reason verified) = identityOf row := by
  unfold closeVerifying
  rw [dropException_frame]
  rfl

theorem settle_identity (row : Vulnerability) :
    identityOf (settle lib run row) = identityOf row := by
  unfold settle
  split
  · rfl
  · rfl
  · exact closeVerifying_identity row _ _
  · exact closeVerifying_identity row _ _

theorem settleAwaiting_identity (row : Vulnerability) :
    identityOf (settleAwaiting lib run row) = identityOf row := by
  unfold settleAwaiting
  split_ifs
  · exact settle_identity row
  · rfl

end Frames

section Register

def rowKey (row : Vulnerability) : String × String := (row.tenantId, row.findingKey)

abbrev Tracker := Table rowKey

theorem rowKey_of_identity {a b : Vulnerability} (h : identityOf a = identityOf b) :
    rowKey a = rowKey b := by
  simp only [identityOf, Prod.mk.injEq] at h
  simp only [rowKey, h.2.1, h.2.2.2]

variable (lib : CoverageText) (run : Run)

def changeOf (o : Observed) : Change rowKey where
  target := (run.tenantId, o.key)
  fresh := create lib run o
  update := fun row => observe lib run row o
  fresh_key := rfl
  update_key := fun row => rowKey_of_identity (observe_identity row o)

/-- Fold one run's findings into the tracker; none where the fold raises and rolls back. -/
def registerFindingsFromRun (t : Tracker) : Option Tracker :=
  if run.reported = [] ∧ run.hasRunDir = false then some t
  else
    (prepare lib run run.reported).map fun observed =>
      (t.applyAll (observed.map (changeOf lib run))).modify (settleAwaiting lib run)
        (fun row => rowKey_of_identity (settleAwaiting_identity row))

end Register

end Shapoclyack.FindingFold
