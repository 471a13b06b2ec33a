import Shapoclyack.FoldEffects

set_option autoImplicit false

namespace Shapoclyack.VerificationHonesty

open FindingEvidence ProductionEvidence ReportEntries Detectors VerificationArtifacts
open VerificationCoverage VulnStates Findings FindingFold FoldEffects Library

section Retained

variable (lib : CoverageText)

def retainedEvidence (evidence : Option Evidence) (os : List Observed) : Option Evidence :=
  os.foldl (fun held o => merge lib.toEvidenceText held o.evidence) evidence

/-- Every observation repeats, or predates, what the row carries when its turn comes. -/
def allStale (evidence : Option Evidence) : List Observed → Bool
  | [] => true
  | o :: os =>
    publicationDisposition evidence o.evidence != .current &&
      allStale (merge lib.toEvidenceText evidence o.evidence) os

def retainedDetectors (evidence : Option Evidence) (detectors : List Detector) :
    List Observed → List Detector
  | [] => detectors
  | o :: os =>
    retainedDetectors (merge lib.toEvidenceText evidence o.evidence)
      (if publicationDisposition evidence o.evidence = .historical then
        mergeDetectors lib.toText o.detectors detectors else detectors) os

def carriedOn (row : Vulnerability) (os : List Observed) : Vulnerability :=
  { row with
    findingEvidence := retainedEvidence lib row.findingEvidence os
    detectors := retainedDetectors lib row.findingEvidence row.detectors os }

end Retained

section Observing

variable (lib : CoverageText) (run : Run)

/-- The columns coverage is judged on, and the receipt a verification reads. -/
structure Receipts where
  lastSeenRunId : Option String
  assetId : String
  port : Option String
  cve : Option String
  nonCve : Option NonCve
  detectors : List Detector
  findingEvidence : Option Evidence
deriving DecidableEq

def receiptsOf (row : Vulnerability) : Receipts where
  lastSeenRunId := row.lastSeenRunId
  assetId := row.assetId
  port := row.port
  cve := row.cve
  nonCve := row.nonCve
  detectors := row.detectors
  findingEvidence := row.findingEvidence

theorem isReplay_of_not_seen {row : Vulnerability} (h : row.lastSeenRunId ≠ some run.runId)
    (o : Observed) (d : Disposition) : isReplay run row o d = (d == .replay) := by
  have hseen : (row.lastSeenRunId == some run.runId) = false := by simpa using h
  simp [isReplay, hseen]

theorem currentCohort_of_not_seen {row : Vulnerability}
    (h : row.lastSeenRunId ≠ some run.runId) (o : Observed) : currentCohort run row o = false := by
  have hseen : (row.lastSeenRunId == some run.runId) = false := by simpa using h
  simp [currentCohort, hseen]

theorem observe_of_stale {row : Vulnerability} (hseen : row.lastSeenRunId ≠ some run.runId)
    {o : Observed} (hstale : publicationDisposition row.findingEvidence o.evidence ≠ .current) :
    receiptsOf (observe lib run row o) =
      { receiptsOf row with
        findingEvidence := merge lib.toEvidenceText row.findingEvidence o.evidence
        detectors :=
          if publicationDisposition row.findingEvidence o.evidence = .historical then
            mergeDetectors lib.toText o.detectors row.detectors else row.detectors } := by
  have hcohort := currentCohort_of_not_seen run hseen o
  unfold observe
  simp only [isReplay_of_not_seen run hseen]
  cases hd : publicationDisposition row.findingEvidence o.evidence with
  | current => exact absurd hd hstale
  | replay => simp [replayEscalates, foldReplay, hcohort, receiptsOf, retain]
  | historical => simp [receiptsOf, foldHistorical]

theorem concludeFold_lastSeen (outcome : FpOutcome) (row : Vulnerability) (o : Observed) :
    (concludeFold run outcome row o).lastSeenRunId = row.lastSeenRunId := by
  unfold concludeFold
  split_ifs
  · rfl
  · unfold reopen dropFpVerdictOnReopen
    simp only
    split_ifs <;> rfl
  · rfl

theorem observe_of_current {row : Vulnerability} (hseen : row.lastSeenRunId ≠ some run.runId)
    {o : Observed} (hcurrent : publicationDisposition row.findingEvidence o.evidence = .current) :
    (observe lib run row o).lastSeenRunId = some run.runId := by
  unfold observe
  simp only [isReplay_of_not_seen run hseen, hcurrent]
  rw [if_neg (by decide), if_neg (by decide)]
  unfold foldCurrent
  simp only
  rw [concludeFold_lastSeen]
  rfl

theorem observe_keeps_seen {row : Vulnerability} (hseen : row.lastSeenRunId = some run.runId)
    (o : Observed) : (observe lib run row o).lastSeenRunId = some run.runId := by
  unfold observe
  simp only
  split_ifs
  · simpa only [foldHistorical, retain] using hseen
  · unfold foldEscalated
    rw [concludeFold_lastSeen]
    simpa only [promote, writeLatest, retain] using hseen
  · unfold foldReplay
    split_ifs <;> simpa only [retain, writeLatest] using hseen
  · simpa only [foldHistorical] using hseen
  · unfold foldCurrent
    simp only
    rw [concludeFold_lastSeen]
    rfl

theorem foldl_observe_keeps_seen {row : Vulnerability}
    (hseen : row.lastSeenRunId = some run.runId) (os : List Observed) :
    (os.foldl (observe lib run) row).lastSeenRunId = some run.runId := by
  induction os generalizing row with
  | nil => exact hseen
  | cons o os ih => exact ih (observe_keeps_seen lib run hseen o)

theorem foldl_observe_of_stale {row : Vulnerability}
    (hseen : row.lastSeenRunId ≠ some run.runId) (os : List Observed)
    (hstale : allStale lib row.findingEvidence os = true) :
    receiptsOf (os.foldl (observe lib run) row) = receiptsOf (carriedOn lib row os) := by
  induction os generalizing row with
  | nil => rfl
  | cons o os ih =>
    obtain ⟨hhead, htail⟩ := Bool.and_eq_true_iff.mp hstale
    have hstep := observe_of_stale lib run hseen (by simpa using hhead)
    simp only [receiptsOf, Receipts.mk.injEq] at hstep
    obtain ⟨hlast, hasset, hport, hcve, hnon, hdet, hev⟩ := hstep
    rw [List.foldl_cons, ih (by rw [hlast]; exact hseen) (by rw [hev]; exact htail)]
    simp only [receiptsOf, carriedOn, retainedEvidence, retainedDetectors, List.foldl_cons,
      hlast, hasset, hport, hcve, hnon, hdet, hev]

/-- One current observation among them marks the row, whatever else the run brings. -/
theorem foldl_observe_of_current {row : Vulnerability} (os : List Observed)
    (hcurrent : allStale lib row.findingEvidence os = false) :
    (os.foldl (observe lib run) row).lastSeenRunId = some run.runId := by
  induction os generalizing row with
  | nil => cases hcurrent
  | cons o os ih =>
    by_cases hseen : row.lastSeenRunId = some run.runId
    · exact foldl_observe_keeps_seen lib run hseen (o :: os)
    · rw [List.foldl_cons]
      by_cases hhead : publicationDisposition row.findingEvidence o.evidence = .current
      · exact foldl_observe_keeps_seen lib run (observe_of_current lib run hseen hhead) os
      · apply ih
        have hstep := observe_of_stale lib run hseen hhead
        have hev : (observe lib run row o).findingEvidence =
            merge lib.toEvidenceText row.findingEvidence o.evidence :=
          congrArg Receipts.findingEvidence hstep
        have hne : (publicationDisposition row.findingEvidence o.evidence != .current) = true := by
          simpa using hhead
        rw [allStale, hne, Bool.true_and] at hcurrent
        rw [hev]
        exact hcurrent

end Observing

section Settling

variable (lib : CoverageText) (run : Run)

theorem coverageGaps_congr {a b : Vulnerability} (h : receiptsOf a = receiptsOf b) :
    coverageGaps lib run a = coverageGaps lib run b := by
  simp only [receiptsOf, Receipts.mk.injEq] at h
  obtain ⟨_, hasset, hport, hcve, hnon, hdet, hev⟩ := h
  unfold coverageGaps
  rw [hasset, hport, hcve, hnon, hdet, hev]

/-- A closure that asserts the finding was re-checked and is gone. -/
def VerifiedClosed (row : Vulnerability) : Prop :=
  row.state = .CLOSED ∧ row.closureReason = some .verifiedRemediated ∧ row.machineVerified = true

theorem settle_verifiedClosed_iff (row : Vulnerability) :
    VerifiedClosed (settle lib run row) ↔
      row.lastSeenRunId ≠ some run.runId ∧ coverageGaps lib run row = [] := by
  have hlife := settle_lifecycle lib run row
  have hstate := congrArg Lifecycle.state hlife
  have hreason := congrArg Lifecycle.closureReason hlife
  have hverified := congrArg Lifecycle.machineVerified hlife
  simp only [lifecycleOf] at hstate hreason hverified
  unfold VerifiedClosed
  rw [hstate, hreason, hverified]
  unfold settlement
  split_ifs with hseen hgaps hreach
  · simp [hseen]
  · simp [hseen, hgaps]
  · simp [hgaps]
  · simp [hgaps]

/-- The run reports the finding, yet nothing it reports marks the row and no gap is left. -/
def Missed (row : Vulnerability) (os : List Observed) : Prop :=
  row.lastSeenRunId ≠ some run.runId ∧ allStale lib row.findingEvidence os = true ∧
    coverageGaps lib run (carriedOn lib row os) = []

instance (row : Vulnerability) (os : List Observed) : Decidable (Missed lib run row os) :=
  inferInstanceAs (Decidable (_ ∧ _ ∧ _))

theorem settle_after_fold_iff (row : Vulnerability) (os : List Observed) :
    VerifiedClosed (settle lib run (os.foldl (observe lib run) row)) ↔ Missed lib run row os := by
  rw [settle_verifiedClosed_iff]
  by_cases hseen : row.lastSeenRunId = some run.runId
  · have hkept := foldl_observe_keeps_seen lib run hseen os
    simp [Missed, hkept, hseen]
  · by_cases hstale : allStale lib row.findingEvidence os = true
    · have hcarried := foldl_observe_of_stale lib run hseen os hstale
      have hlast : (os.foldl (observe lib run) row).lastSeenRunId = row.lastSeenRunId :=
        congrArg Receipts.lastSeenRunId hcarried
      rw [coverageGaps_congr lib run hcarried, hlast]
      simp [Missed, hseen, hstale]
    · rw [Bool.not_eq_true] at hstale
      have hmarked := foldl_observe_of_current lib run os hstale
      simp [Missed, hmarked, hstale]

end Settling

section Register

variable (lib : CoverageText) (run : Run)

def entriesOf (row : Vulnerability) (os : List Observed) : List Observed :=
  os.filter (fun o => decide (o.key = row.findingKey))

theorem filter_changes (row : Vulnerability) (os : List Observed)
    (htenant : row.tenantId = run.tenantId) :
    (os.map (changeOf lib run)).filter (fun c => decide (c.target = rowKey row)) =
      (entriesOf row os).map (changeOf lib run) := by
  rw [List.filter_map, entriesOf]
  congr 1
  apply List.filter_congr
  intro o _
  simp [changeOf, rowKey, htenant]

/-- A row of the run's tenant, after the run: its own entries folded in order, then settled. -/
theorem get_register {t t' : Tracker} {row : Vulnerability} {os : List Observed}
    (hrow : row ∈ t.rows) (htenant : row.tenantId = run.tenantId)
    (hos : prepare lib run run.reported = some os) (hne : run.reported ≠ [])
    (hfold : registerFindingsFromRun lib run t = some t') :
    t'.get (rowKey row) =
      some (settleAwaiting lib run ((entriesOf row os).foldl (observe lib run) row)) := by
  unfold registerFindingsFromRun at hfold
  rw [if_neg (by simp [hne]), hos, Option.map_some, Option.some.injEq] at hfold
  rw [← hfold, Table.get_modify, Table.get_applyAll, filter_changes lib run row os htenant,
    t.get_self hrow, foldl_result_some, Option.map_some, List.foldl_map]
  rfl

theorem prepare_of_reported_nil {os : List Observed} {o : Observed}
    (hos : prepare lib run run.reported = some os) (ho : o ∈ os) : run.reported ≠ [] := by
  intro hnil
  rw [hnil] at hos
  simp only [prepare, Option.some.injEq] at hos
  rw [← hos] at ho
  cases ho

theorem awaits_congr {a b : Vulnerability} (hid : identityOf a = identityOf b)
    (hlife : lifecycleOf a = lifecycleOf b) : awaits run a = awaits run b := by
  have hstate : a.state = b.state := congrArg Lifecycle.state hlife
  have hjob : a.verificationJobId = b.verificationJobId :=
    congrArg Lifecycle.verificationJobId hlife
  simp only [identityOf, Prod.mk.injEq] at hid
  unfold awaits
  rw [hid.2.1, hstate, hjob]

theorem awaits_state {row : Vulnerability} (h : awaits run row = true) :
    row.tenantId = run.tenantId ∧ row.state = .VERIFYING := by
  unfold awaits at h
  rw [Bool.and_eq_true, Bool.and_eq_true, decide_eq_true_eq, decide_eq_true_eq] at h
  exact h.1

/-- A finding waiting on a run that reports it ends verified exactly when the run misses it. -/
theorem register_verifiedClosed_iff {t t' : Tracker} {row : Vulnerability} {os : List Observed}
    (hrow : row ∈ t.rows) (hawaits : awaits run row = true)
    (hos : prepare lib run run.reported = some os) (hreported : ∃ o ∈ os, o.key = row.findingKey)
    (hfold : registerFindingsFromRun lib run t = some t') :
    (∃ row', t'.get (rowKey row) = some row' ∧ ¬ VerifiedClosed row') ↔
      ¬ Missed lib run row (entriesOf row os) := by
  obtain ⟨o, ho, _⟩ := hreported
  obtain ⟨htenant, hverifying⟩ := awaits_state run hawaits
  have hne := prepare_of_reported_nil lib run hos ho
  have hopen : row.state ≠ .CLOSED := by
    rw [hverifying]
    decide
  have hlife := foldl_observe_lifecycle lib run hopen (entriesOf row os)
  have hid := foldl_observe_identity lib run row (entriesOf row os)
  have hstill : awaits run ((entriesOf row os).foldl (observe lib run) row) = true := by
    rw [awaits_congr run hid hlife]
    exact hawaits
  rw [get_register lib run hrow htenant hos hne hfold, settleAwaiting, if_pos hstill]
  simp only [Option.some.injEq, exists_eq_left', settle_after_fold_iff]

end Register

section Backdated

def hexDigest : String := "00000000000000000000000000000000000000000000000000000000000000ff"

def seenAt (runId date : String) : ObservationData where
  schema := observationSchema
  tenantId := "acme"
  runId := runId
  source := "pulse"
  engineVersion := none
  rulesetVersion := none
  ruleId := some "pulse:local"
  ruleDigest := hexDigest
  matcher := none
  observedAt := some date
  subject := ⟨"10.0.0.5", some 443, "tcp", none, none, none, none⟩
  cve := some "CVE-2026-0001"
  title := "CVE-2026-0001"
  evidenceKind := "version_match"
  confidence := none
  severity := "high"
  requiresConfirmation := true
  preview := ""
  evidenceDigest := hexDigest

def recorded (runId date : String) : Observation where
  toObservationData := seenAt runId date
  observationId := "obs:" ++ asciiLibrary.digestObservation (seenAt runId date)
  artifactRefs := [⟨"report_sources.json", hexDigest, "/0"⟩]
  artifactRefsTruncated := false

def pulseDetector : Detector where
  detector := some pulse
  ref := some "local"
  host := some "10.0.0.5"
  port := some "443"
  protocol := some "tcp"
  ruleset := none
  lastRunId := some "run-1"
  lastSeenAt := some 0
  agentId := none
  agentGroup := none
  vantage := some "local"
  vantages := ["local"]

/-- A finding of the host's port 443 that waits on the job `job-9`. -/
def waiting : Vulnerability where
  vulnId := "vln_1"
  tenantId := "acme"
  assetId := "asset-1"
  findingKey := findingKey asciiLibrary.toTrackerText "asset-1" (some "CVE-2026-0001") none
    (some "443")
  source := .scan
  deviceId := none
  cve := some "CVE-2026-0001"
  scriptId := none
  port := some "443"
  nonCve := none
  detectors := [pulseDetector]
  findingEvidence := some
    ⟨unite asciiLibrary.toEvidenceText [recorded "run-1" "2026-05-02T00:00:00.000000Z"], false⟩
  assessment := ⟨.high, false, none, none⟩
  executionId := none
  state := .VERIFYING
  stateChangedAt := 0
  stateChangedBy := none
  assignee := none
  ownerTeam := none
  dueAt := some (days 30)
  slaDays := some 30
  slaSource := some .default
  slaStartedAt := 0
  exception := Acceptance.none
  firstSeenAt := 0
  lastSeenAt := 0
  firstSeenRunId := some "run-1"
  lastSeenRunId := some "run-1"
  observationCount := 1
  reopenCount := 0
  closedAt := none
  closureReason := none
  machineVerified := false
  lastVerifiedAt := none
  verificationJobId := some "job-9"
  falsePositive := Verdict.none
  ticketSystem := none
  ticketKey := none
  ticketSyncedAt := none
  ticketRemoteStatus := none
  ticketSyncError := none
  updatedAt := 0

def stillReported (date : String) : Reported where
  entry := {
    source := some "pulse"
    scriptId := some "pulse:local"
    protocol := some "tcp"
    rulesetVersion := none
    host := some "10.0.0.5"
    port := some "443"
    cve := some "CVE-2026-0001"
    ruleId := none
    templateId := none
    findingType := none
    nonCvePolicy := none
    severity := some "high"
    matchedAt := none
    alsoDetectedBy := []
    findingEvidence := some (.document evidenceSchema "production"
      [[recorded "unpublished" date]] false 1 1) }
  scored := ⟨false, none, none, none⟩
  freshId := "vln_2"

def verifying (date : String) : Run where
  tenantId := "acme"
  runId := "run-2"
  now := days 10
  hasRunDir := true
  reported := [stillReported date]
  assetFor _ := some ⟨"asset-1", none, none, none⟩
  vantage := none
  artifacts := {
    nuclei := none
    pulse := some ⟨⟨some true, false, none, none⟩,
      some ⟨completionSchema, [⟨"10.0.0.5", some 0, some [443]⟩]⟩, []⟩
    nse := []
    probes := []
    portScans := []
    openLines := [] }
  jobIds := ["job-9"]
  policies := []
  assetHosts _ := ["10.0.0.5"]

def trackedAlone : Tracker := ⟨[waiting], by simp⟩

def outcomeOf (t : Option Tracker) : Option (State × Option ClosureReason × Bool) :=
  (t.bind (fun t => t.get (rowKey waiting))).map
    fun row => (row.state, row.closureReason, row.machineVerified)

/-- The run whose observation is older than the one the row holds. -/
def backdated : Run := verifying "2026-05-01T00:00:00.000000Z"

def timely : Run := verifying "2026-05-03T00:00:00.000000Z"

def observedIn (run : Run) : List Observed := (prepare asciiLibrary run run.reported).getD []

/-- An observation dated before the last known one leaves the finding closed as verified. -/
theorem backdated_observation_closes :
    waiting ∈ trackedAlone.rows ∧ awaits backdated waiting = true ∧
    ((prepare asciiLibrary backdated backdated.reported).map (fun os => os.map (·.key))) =
      some [waiting.findingKey] ∧
    outcomeOf (registerFindingsFromRun asciiLibrary backdated trackedAlone) =
      some (.CLOSED, some .verifiedRemediated, true) := by
  refine ⟨by simp [trackedAlone], ?_, ?_, ?_⟩ <;> decide +kernel

theorem eq_some_getD {α : Type*} {o : Option α} (d : α) (h : o.isSome = true) :
    o = some (o.getD d) := by
  cases o with
  | none => cases h
  | some a => rfl

theorem current_observation_honest :
    ∃ t', registerFindingsFromRun asciiLibrary timely trackedAlone = some t' ∧
      ∃ row', t'.get (rowKey waiting) = some row' ∧ ¬ VerifiedClosed row' := by
  have hos : prepare asciiLibrary timely timely.reported = some (observedIn timely) :=
    eq_some_getD [] (by decide +kernel)
  have hkeys : (observedIn timely).map (·.key) = [waiting.findingKey] := by decide +kernel
  have hreported : ∃ o ∈ observedIn timely, o.key = waiting.findingKey :=
    List.mem_map.mp (by rw [hkeys]; exact List.mem_singleton_self _)
  have hfold : ∃ t', registerFindingsFromRun asciiLibrary timely trackedAlone = some t' := by
    unfold registerFindingsFromRun
    rw [if_neg (by simp [timely, verifying]), hos]
    exact ⟨_, rfl⟩
  obtain ⟨t', ht'⟩ := hfold
  have hmissed : ¬ Missed asciiLibrary timely waiting (entriesOf waiting (observedIn timely)) := by
    decide +kernel
  exact ⟨t', ht', (register_verifiedClosed_iff asciiLibrary timely (by simp [trackedAlone])
    (by decide +kernel) hos hreported ht').mpr hmissed⟩

end Backdated

end Shapoclyack.VerificationHonesty
