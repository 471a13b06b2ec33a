import Shapoclyack.FindingEvents
import Shapoclyack.SoftwareFindings
import Shapoclyack.Library.ReadCommitted

set_option autoImplicit false

namespace Shapoclyack.TrackerTransactions

open ReportEntries VerificationArtifacts VulnStates Findings FindingFold FoldEffects Lifecycle
open SoftwareFindings LifecycleMachine FindingEvents Library

def Event.single : Event → Bool
  | .observed _ _ => false
  | .settled _ => false
  | _ => true

/-- One transaction of the tracker, as a row sees it. -/
inductive Op where
  | scanFold (run : Run) (observed : List Observed)
  | inventoryFold (ctx : DeviceContext)
  | single (e : Event) (single : Event.single e = true)

/-- The row a scan fold settles: every observation of the run that lands on it is folded. -/
def observedRow (lib : CoverageText) (run : Run) (os : List Observed) (row : Vulnerability) :
    Vulnerability :=
  (os.filter fun o => decide ((run.tenantId, o.key) = rowKey row)).foldl (observe lib run) row

def Op.run (lib : CoverageText) (op : Op) (row : Vulnerability) : Option Vulnerability :=
  match op with
  | .scanFold run os => some (settleAwaiting lib run (observedRow lib run os row))
  | .inventoryFold ctx => some (foldRow lib.toTrackerText ctx row)
  | .single e _ => stepEvent lib row e

section Moves

def Reopens (row row' : Vulnerability) : Prop :=
  lifecycleOf row' = lifecycleOf row ∨
    (row.state = .CLOSED ∧ ∃ clock : Clock, clock.Legal ∧
      lifecycleOf row' = (Move.reopen clock).apply (lifecycleOf row))

theorem Reopens.state {row row' : Vulnerability} (h : Reopens row row') :
    row'.state = row.state ∨ (row.state = .CLOSED ∧ row'.state = .OPEN) := by
  rcases h with hsame | ⟨hclosed, clock, _, hreopened⟩
  · exact .inl (congrArg Lifecycle.state hsame)
  · refine .inr ⟨hclosed, (congrArg Lifecycle.state hreopened).trans ?_⟩
    exact clock.set_state _

theorem Reopens.trans {a b c : Vulnerability} (hab : Reopens a b) (hbc : Reopens b c) :
    Reopens a c := by
  rcases hab with hsame | ⟨hclosed, clock, hlegal, hreopened⟩
  · have hstate : b.state = a.state := congrArg Lifecycle.state hsame
    unfold Reopens at hbc ⊢
    rw [hsame, hstate] at hbc
    exact hbc
  · have hopen : b.state = .OPEN :=
      (congrArg Lifecycle.state hreopened).trans (clock.set_state _)
    rcases hbc with hsame' | ⟨hclosed', _⟩
    · exact .inr ⟨hclosed, clock, hlegal, hsame'.trans hreopened⟩
    · exact absurd (hopen.symm.trans hclosed') (by decide)

theorem Reopens.foldl {α : Type*} {f : Vulnerability → α → Vulnerability}
    (hf : ∀ row a, Reopens row (f row a)) (as : List α) (row : Vulnerability) :
    Reopens row (as.foldl f row) := by
  induction as generalizing row with
  | nil => exact .inl rfl
  | cons a as ih => exact (hf row a).trans (ih (f row a))

theorem Reopens.move {row row' : Vulnerability} (h : Reopens row row') :
    ∃ m, IsMove row row' m ∧ Unverified m := by
  rcases h with hsame | ⟨hclosed, clock, hlegal, hreopened⟩
  · exact ⟨.keep, keep_isMove hsame, trivial⟩
  · exact ⟨.reopen clock, ⟨⟨hclosed, hlegal⟩, hreopened⟩, trivial⟩

theorem observe_reopens (lib : CoverageText) (run : Run) (row : Vulnerability) (o : Observed) :
    Reopens row (observe lib run row o) := by
  rcases observe_lifecycle lib run row o with hsame | ⟨hclosed, hreopened⟩
  · exact .inl hsame
  · refine .inr ⟨hclosed, ?_⟩
    cases hcontinues : continues run row o with
    | true => exact ⟨.continued, trivial, by rw [hreopened, hcontinues]; rfl⟩
    | false =>
      exact ⟨.restarted run.now
        (resolveSlaDays run.policies run.tenantId o.latest.severity o.asset.criticality).1
        (resolveSlaDays run.policies run.tenantId o.latest.severity o.asset.criticality).2,
        ⟨resolveSlaDays_pos _ _ _ _, resolveSlaDays_source _ _ _ _⟩,
        by rw [hreopened, hcontinues]; rfl⟩

theorem refresh_reopens (lib : TrackerText) (ctx : DeviceContext) (row : Vulnerability)
    (m : Match) : Reopens row (refresh lib ctx row m) := by
  rcases refresh_lifecycle lib ctx row m with hsame | ⟨hclosed, hreopened⟩
  · exact .inl hsame
  · exact .inr ⟨hclosed, .restarted ctx.observedAt (slaOf lib ctx m).1 (slaOf lib ctx m).2,
      ⟨resolveSlaDays_pos _ _ _ _, resolveSlaDays_source _ _ _ _⟩, hreopened⟩

/-- A transaction closes a finding on the machine's word only for what it showed itself. -/
def WarrantedBy (lib : CoverageText) (row : Vulnerability) (reason : ClosureReason) : Op → Prop
  | .scanFold run os =>
    reason = .verifiedRemediated ∧ VerifiedBy lib run (observedRow lib run os row)
  | .inventoryFold ctx =>
    reason = .patched ∧ row.source = .endpointSoftware ∧ closes lib.toTrackerText ctx row = true
  | .single _ _ => False

def Warranted (lib : CoverageText) (row : Vulnerability) (op : Op) (m : Move) : Prop :=
  Unverified m ∨ ∃ reason verified now acceptance,
    m = .close reason verified now acceptance ∧ WarrantedBy lib row reason op

theorem scanFold_move (lib : CoverageText) (run : Run) (os : List Observed)
    (row : Vulnerability) :
    ∃ m, IsMove row (settleAwaiting lib run (observedRow lib run os row)) m ∧
      Warranted lib row (.scanFold run os) m := by
  have hfolded : Reopens row (observedRow lib run os row) :=
    Reopens.foldl (observe_reopens lib run) _ row
  by_cases hawaits : awaits run (observedRow lib run os row) = true
  · have hverifying : (observedRow lib run os row).state = .VERIFYING := by
      simp only [awaits, Bool.and_eq_true, decide_eq_true_eq] at hawaits
      exact hawaits.1.2
    -- a row still waiting after the observations was not moved by them
    have hsame : lifecycleOf (observedRow lib run os row) = lifecycleOf row := by
      rcases hfolded with hsame | ⟨_, clock, _, hreopened⟩
      · exact hsame
      · have hopen : (observedRow lib run os row).state = .OPEN :=
          (congrArg Lifecycle.state hreopened).trans (clock.set_state _)
        exact absurd (hverifying.symm.trans hopen) (by decide)
    obtain ⟨m, ⟨hlegal, hlife⟩, _, hmade⟩ :=
      settleAwaiting_move lib run (observedRow lib run os row)
    rw [hsame] at hlegal hlife
    refine ⟨m, ⟨hlegal, hlife⟩, ?_⟩
    rcases hmade with hunverified | ⟨hverified, acceptance, hm⟩
    · exact .inl hunverified
    · exact .inr ⟨_, _, _, acceptance, hm, rfl, hverified⟩
  · rw [settleAwaiting, if_neg hawaits]
    obtain ⟨m, hmove, hunverified⟩ := hfolded.move
    exact ⟨m, hmove, .inl hunverified⟩

theorem closes_congr {lib : TrackerText} {ctx : DeviceContext} {row : Vulnerability}
    (row' : Vulnerability) (hkey : row'.findingKey = row.findingKey)
    (hseen : row.findingKey ∈ seenKeys lib ctx) :
    closes lib ctx row' = false := by
  simp [closes, hkey, hseen]

theorem closeAsPatched_isMove {lib : TrackerText} {ctx : DeviceContext} {row : Vulnerability}
    (h : closes lib ctx row = true) :
    IsMove row (closeAsPatched ctx row)
      (.close .patched true ctx.now (closeAsPatched ctx row).exception) := by
  simp only [closes, Bool.and_eq_true, decide_eq_true_eq] at h
  exact ⟨⟨h.1.1.2, fun _ => .inr rfl, fun hne => absurd rfl hne⟩, rfl⟩

theorem foldRow_cases (lib : CoverageText) (ctx : DeviceContext) (row : Vulnerability) :
    (closes lib.toTrackerText ctx row = true ∧
        foldRow lib.toTrackerText ctx row = closeAsPatched ctx row) ∨
      Reopens row (foldRow lib.toTrackerText ctx row) := by
  unfold foldRow
  split_ifs with hexisting
  case neg =>
    have hnot : closes lib.toTrackerText ctx row = false := by
      simp [closes, hexisting]
    rw [closureStep, if_neg (by simp [hnot])]
    exact .inr (.inl rfl)
  case pos =>
    cases hmatches : matchesOf lib.toTrackerText ctx row with
    | nil =>
      rw [List.foldl_nil, closureStep]
      split_ifs with hcloses
      · exact .inl ⟨hcloses, rfl⟩
      · exact .inr (.inl rfl)
    | cons m ms =>
      have hfolded : Reopens row ((m :: ms).foldl (refresh lib.toTrackerText ctx) row) :=
        Reopens.foldl (refresh_reopens lib.toTrackerText ctx) (m :: ms) row
      have hidentity : identityOf ((m :: ms).foldl (refresh lib.toTrackerText ctx) row) =
          identityOf row :=
        List.foldlRecOn (m :: ms) (refresh lib.toTrackerText ctx)
          (motive := fun r => identityOf r = identityOf row) rfl
          (fun r hr x _ => (refresh_identity lib.toTrackerText ctx r x).trans hr)
      have hkey := congrArg (fun i => i.2.2.2) hidentity
      have hseen : row.findingKey ∈ seenKeys lib.toTrackerText ctx := by
        have hm : m ∈ matchesOf lib.toTrackerText ctx row := by rw [hmatches]; simp
        have hmk : (ctx.tenantId, keyOf lib.toTrackerText ctx m) = rowKey row := by
          simpa using (List.mem_filter.mp hm).2
        exact List.mem_map.mpr ⟨m, (List.mem_filter.mp hm).1, congrArg Prod.snd hmk⟩
      have hopen := closes_congr ((m :: ms).foldl (refresh lib.toTrackerText ctx) row)
        hkey hseen
      rw [closureStep, if_neg (by rw [hopen]; decide)]
      exact .inr hfolded

theorem closes_source {lib : TrackerText} {ctx : DeviceContext} {row : Vulnerability}
    (h : closes lib ctx row = true) : row.source = .endpointSoftware := by
  simp only [closes, existing, Bool.and_eq_true, decide_eq_true_eq] at h
  exact h.1.1.1.1.1.2

theorem inventoryFold_move (lib : CoverageText) (ctx : DeviceContext) (row : Vulnerability) :
    ∃ m, IsMove row (foldRow lib.toTrackerText ctx row) m ∧
      Warranted lib row (.inventoryFold ctx) m := by
  rcases foldRow_cases lib ctx row with ⟨hcloses, hrow⟩ | hreopens
  · rw [hrow]
    exact ⟨_, closeAsPatched_isMove hcloses,
      .inr ⟨_, _, _, _, rfl, rfl, closes_source hcloses, hcloses⟩⟩
  · obtain ⟨m, hmove, hunverified⟩ := hreopens.move
    exact ⟨m, hmove, .inl hunverified⟩

/-- Every transaction of the tracker is one legal move of the lifecycle machine. -/
theorem Op.run_move {lib : CoverageText} {op : Op} {row row' : Vulnerability}
    (h : op.run lib row = some row') : ∃ m, IsMove row row' m ∧ Warranted lib row op m := by
  cases op with
  | scanFold run os =>
    rw [← Option.some.inj h]
    exact scanFold_move lib run os row
  | inventoryFold ctx =>
    rw [← Option.some.inj h]
    exact inventoryFold_move lib ctx row
  | single e hsingle =>
    obtain ⟨m, hmove, hmade, _⟩ := apply_move (stepEvent_eq_some h)
    refine ⟨m, hmove, .inl ?_⟩
    rcases hmade with hunverified | ⟨run, acceptance, rfl, _⟩
    · exact hunverified
    · simp [Event.single] at hsingle

end Moves

section Columns

def Assessment.overlay (current seen new : Assessment) : Assessment where
  severity := column current.severity seen.severity new.severity
  inKev := column current.inKev seen.inKev new.inKev
  exploitMaturity := column current.exploitMaturity seen.exploitMaturity new.exploitMaturity
  networkExposure := column current.networkExposure seen.networkExposure new.networkExposure

def Acceptance.overlay (current seen new : Acceptance) : Acceptance where
  state := column current.state seen.state new.state
  until_ := column current.until_ seen.until_ new.until_
  reason := column current.reason seen.reason new.reason
  grantedBy := column current.grantedBy seen.grantedBy new.grantedBy
  approvedAt := column current.approvedAt seen.approvedAt new.approvedAt
  approvedRequestedBy :=
    column current.approvedRequestedBy seen.approvedRequestedBy new.approvedRequestedBy
  expiredAt := column current.expiredAt seen.expiredAt new.expiredAt
  requestedBy := column current.requestedBy seen.requestedBy new.requestedBy
  requestedAt := column current.requestedAt seen.requestedAt new.requestedAt
  requestedUntil := column current.requestedUntil seen.requestedUntil new.requestedUntil
  requestedReason := column current.requestedReason seen.requestedReason new.requestedReason
  decidedBy := column current.decidedBy seen.decidedBy new.decidedBy
  decidedAt := column current.decidedAt seen.decidedAt new.decidedAt
  decisionNote := column current.decisionNote seen.decisionNote new.decisionNote

def Verdict.overlay (current seen new : Verdict) : Verdict where
  reason := column current.reason seen.reason new.reason
  markedBy := column current.markedBy seen.markedBy new.markedBy
  markedAt := column current.markedAt seen.markedAt new.markedAt
  suppressUntil := column current.suppressUntil seen.suppressUntil new.suppressUntil
  observations := column current.observations seen.observations new.observations

/-- The UPDATE of one finding: the columns the transaction changed, over whatever is current. -/
def overlay (current seen new : Vulnerability) : Vulnerability where
  vulnId := column current.vulnId seen.vulnId new.vulnId
  tenantId := column current.tenantId seen.tenantId new.tenantId
  assetId := column current.assetId seen.assetId new.assetId
  findingKey := column current.findingKey seen.findingKey new.findingKey
  source := column current.source seen.source new.source
  deviceId := column current.deviceId seen.deviceId new.deviceId
  cve := column current.cve seen.cve new.cve
  scriptId := column current.scriptId seen.scriptId new.scriptId
  port := column current.port seen.port new.port
  nonCve := column current.nonCve seen.nonCve new.nonCve
  detectors := column current.detectors seen.detectors new.detectors
  findingEvidence := column current.findingEvidence seen.findingEvidence new.findingEvidence
  assessment := Assessment.overlay current.assessment seen.assessment new.assessment
  executionId := column current.executionId seen.executionId new.executionId
  state := column current.state seen.state new.state
  stateChangedAt := column current.stateChangedAt seen.stateChangedAt new.stateChangedAt
  stateChangedBy := column current.stateChangedBy seen.stateChangedBy new.stateChangedBy
  assignee := column current.assignee seen.assignee new.assignee
  ownerTeam := column current.ownerTeam seen.ownerTeam new.ownerTeam
  dueAt := column current.dueAt seen.dueAt new.dueAt
  slaDays := column current.slaDays seen.slaDays new.slaDays
  slaSource := column current.slaSource seen.slaSource new.slaSource
  slaStartedAt := column current.slaStartedAt seen.slaStartedAt new.slaStartedAt
  exception := Acceptance.overlay current.exception seen.exception new.exception
  firstSeenAt := column current.firstSeenAt seen.firstSeenAt new.firstSeenAt
  lastSeenAt := column current.lastSeenAt seen.lastSeenAt new.lastSeenAt
  firstSeenRunId := column current.firstSeenRunId seen.firstSeenRunId new.firstSeenRunId
  lastSeenRunId := column current.lastSeenRunId seen.lastSeenRunId new.lastSeenRunId
  observationCount := column current.observationCount seen.observationCount new.observationCount
  reopenCount := column current.reopenCount seen.reopenCount new.reopenCount
  closedAt := column current.closedAt seen.closedAt new.closedAt
  closureReason := column current.closureReason seen.closureReason new.closureReason
  machineVerified := column current.machineVerified seen.machineVerified new.machineVerified
  lastVerifiedAt := column current.lastVerifiedAt seen.lastVerifiedAt new.lastVerifiedAt
  verificationJobId :=
    column current.verificationJobId seen.verificationJobId new.verificationJobId
  falsePositive := Verdict.overlay current.falsePositive seen.falsePositive new.falsePositive
  ticketSystem := column current.ticketSystem seen.ticketSystem new.ticketSystem
  ticketKey := column current.ticketKey seen.ticketKey new.ticketKey
  ticketSyncedAt := column current.ticketSyncedAt seen.ticketSyncedAt new.ticketSyncedAt
  ticketRemoteStatus :=
    column current.ticketRemoteStatus seen.ticketRemoteStatus new.ticketRemoteStatus
  ticketSyncError := column current.ticketSyncError seen.ticketSyncError new.ticketSyncError
  updatedAt := column current.updatedAt seen.updatedAt new.updatedAt

theorem overlay_self (seen new : Vulnerability) : overlay seen seen new = new := by
  simp only [overlay, Assessment.overlay, Acceptance.overlay, Verdict.overlay, column_self]

abbrev rowStep (lib : CoverageText) :
    Shared Vulnerability → Access Vulnerability Op → Shared Vulnerability → Prop :=
  Shared.step (Op.run lib) overlay

end Columns

end Shapoclyack.TrackerTransactions
