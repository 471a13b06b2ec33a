import Shapoclyack.FoldEffects

set_option autoImplicit false

namespace Shapoclyack.SoftwareFindings

open FindingEvidence ReportEntries VulnStates Findings FindingFold FoldEffects Library

inductive MatchStatus where
  | vulnerable
  | unknown
  | fixed
  | notApplicable
deriving DecidableEq, Repr

/-- One row of `software_cve_matches`, with what scoring says of it. -/
structure Match where
  cveId : Option String
  status : MatchStatus
  severity : Option String
  fixedVersion : Option String
  unknownReason : Option String
  snapshotId : Option String
  assessmentScope : Option String
  scored : Scored

structure SourceState where
  source : Option String
  status : Option String
deriving DecidableEq

structure Device where
  deviceId : String
  osFamily : Option String
  /-- The distribution its OS strings resolve to. -/
  distro : Option String
  softwareSnapshotId : Option String
  sourceStates : List SourceState

/-- Everything one device's fold needs, read once. -/
structure DeviceContext where
  tenantId : String
  device : Device
  asset : AssetInfo
  observedAt : ℤ
  assessmentPossible : Bool
  matches_ : List Match
  minSeverity : Option Severity
  policies : List SlaPolicy
  now : ℤ
  /-- The ids the rows it opens take, by CVE. -/
  freshId : String → String

section Selection

variable (lib : TrackerText)

def issueOf (m : Match) : String :=
  lib.upper (lib.strip (text m.cveId))

def severityAlias (severity : String) : String :=
  if severity = "negligible" then "low" else severity

def severityOfMatch (m : Match) : Severity :=
  Severity.ofText (severityAlias (lib.lower (lib.strip (text m.severity))))

/-- Should this match become a tracked finding with a deadline? -/
def isTrackable (minSeverity : Option Severity) (m : Match) : Bool :=
  decide (m.status = .vulnerable) && decide (lib.strip (text m.fixedVersion) ≠ "") &&
    decide (lib.strip (text m.cveId) ≠ "") &&
    match minSeverity with
    | none => true
    | some floor => decide (floor.rank ≤ (severityOfMatch lib m).rank)

def MatchStatus.rank : MatchStatus → ℕ
  | .vulnerable => 3
  | .unknown => 2
  | .fixed => 1
  | .notApplicable => 0

/-- `tracking_rank(candidate) > tracking_rank(old)`. -/
def outranks (candidate old : Match) : Bool :=
  let severityRank := fun m : Match =>
    if m.status = .vulnerable then (severityOfMatch lib m).rank else 0
  decide (old.status.rank < candidate.status.rank ∨
    (old.status.rank = candidate.status.rank ∧ severityRank old < severityRank candidate))

def trackMatch (tracked : List (String × Match)) (candidate : Match) : List (String × Match) :=
  let cve := issueOf lib candidate
  if cve = "" then tracked
  else
    match tracked.find? (fun entry => entry.1 == cve) with
    | none => tracked ++ [(cve, candidate)]
    | some old =>
      if outranks lib candidate old.2 then
        tracked.map fun entry => if entry.1 = cve then (cve, candidate) else entry
      else tracked

def trackingMatches (matches_ : List Match) : List Match :=
  (matches_.foldl (trackMatch lib) []).map (·.2)

end Selection

section Device

variable (lib : TrackerText) (ctx : DeviceContext)

def keyOf (m : Match) : String :=
  softwareFindingKey lib ctx.asset.assetId ctx.device.deviceId (issueOf lib m)

def trackable : List Match :=
  (trackingMatches lib ctx.matches_).filter (isTrackable lib ctx.minSeverity)

def seenKeys : List String :=
  (trackable lib ctx).map (keyOf lib ctx)

/-- What the host is still vulnerable to, tracked or not. -/
def stillVulnerable : List String :=
  ((trackingMatches lib ctx.matches_).filter fun m =>
    decide (m.status = .vulnerable) && decide (lib.strip (text m.cveId) ≠ "")).map
      (keyOf lib ctx)

def existing (row : Vulnerability) : Bool :=
  decide (row.tenantId = ctx.tenantId) && decide (row.source = .endpointSoftware) &&
    decide (row.deviceId = some ctx.device.deviceId)

def latestOf (m : Match) : Assessment where
  severity := severityOfMatch lib m
  inKev := m.scored.exploitActive
  exploitMaturity := m.scored.exploitMaturity
  networkExposure := m.scored.networkExposure

def slaOf (m : Match) : ℕ × SlaSource :=
  resolveSlaDays ctx.policies ctx.tenantId (severityOfMatch lib m) ctx.asset.criticality

def createSoftware (m : Match) : Vulnerability :=
  let sla := slaOf lib ctx m
  { vulnId := ctx.freshId (issueOf lib m)
    tenantId := ctx.tenantId
    assetId := ctx.asset.assetId
    findingKey := keyOf lib ctx m
    source := .endpointSoftware
    deviceId := some ctx.device.deviceId
    cve := some (issueOf lib m)
    scriptId := none
    port := none
    nonCve := none
    detectors := []
    findingEvidence := none
    assessment := latestOf lib m
    executionId := none
    state := .OPEN
    stateChangedAt := ctx.now
    stateChangedBy := none
    assignee := ctx.asset.ownerEmail
    ownerTeam := ctx.asset.businessUnit
    dueAt := some (ctx.observedAt + days sla.1)
    slaDays := some sla.1
    slaSource := some sla.2
    slaStartedAt := ctx.observedAt
    exception := Acceptance.none
    firstSeenAt := ctx.observedAt
    lastSeenAt := ctx.observedAt
    firstSeenRunId := none
    lastSeenRunId := none
    observationCount := 1
    reopenCount := 0
    closedAt := none
    closureReason := none
    machineVerified := false
    lastVerifiedAt := none
    verificationJobId := none
    falsePositive := Verdict.none
    ticketSystem := none
    ticketKey := none
    ticketSyncedAt := none
    ticketRemoteStatus := none
    ticketSyncError := none
    updatedAt := ctx.now }

def reopenFromInventory (m : Match) (row : Vulnerability) : Vulnerability :=
  let sla := slaOf lib ctx m
  { dropFpVerdictOnReopen { row with
      state := .OPEN
      stateChangedAt := ctx.now
      stateChangedBy := none
      closedAt := none
      machineVerified := false } with
    closureReason := none
    slaStartedAt := ctx.observedAt
    dueAt := some (ctx.observedAt + days sla.1)
    slaDays := some sla.1
    slaSource := some sla.2
    reopenCount := row.reopenCount + 1 }

def refresh (row : Vulnerability) (m : Match) : Vulnerability :=
  if row.lastSeenAt < ctx.observedAt then
    let weighed := weighFpVerdict lib.toText row (latestOf lib m) ctx.now
    let counted := { weighed.2 with
      assessment := latestOf lib m
      updatedAt := ctx.now
      lastSeenAt := ctx.observedAt
      observationCount := weighed.2.observationCount + 1 }
    if weighed.1 = .held then counted
    else if counted.state = .CLOSED then reopenFromInventory lib ctx m counted
    else counted
  else
    -- the same snapshot, re-folded: the assessment alone is new
    { row with
      assessment := latestOf lib m
      updatedAt := ctx.now }

end Device

inductive Created (lib : VerificationArtifacts.CoverageText) : Vulnerability → Prop where
  | byScan (run : Run) (o : Observed) : Created lib (create lib run o)
  | byInventory (ctx : DeviceContext) (m : Match) :
      Created lib (createSoftware lib.toTrackerText ctx m)

section Closure

variable (lib : TrackerText) (ctx : DeviceContext)

def rpmDistros : List String := ["rhel", "sles", "amazonlinux"]

def rpmDevice : Bool :=
  match ctx.device.distro with
  | none => false
  | some distro => rpmDistros.contains distro

/-- The package sources whose collection has to be complete for absence to mean anything. -/
def relevantSources : List String :=
  if lib.lower (lib.strip (text ctx.device.osFamily)) = "windows" then ["kb"]
  else if rpmDevice ctx then ["rpm"]
  else ["apt", "dpkg"]

def inventoryAssessmentComplete : Bool :=
  ctx.device.sourceStates.all fun s =>
    !(relevantSources lib ctx).contains (text s.source) || s.status == some "complete"

def coverageUnknown : Bool :=
  ctx.matches_.any (fun m => decide (m.status = .unknown) &&
    (m.unknownReason == some "no_advisory_data" ||
      m.unknownReason == some "advisory_release_not_covered")) ||
    !inventoryAssessmentComplete lib ctx

def unknownKeys : List String :=
  (ctx.matches_.filter fun m =>
    decide (m.status = .unknown) && decide (lib.strip (text m.cveId) ≠ "")).map (keyOf lib ctx)

def rpmIncomplete : Bool :=
  rpmDevice ctx && ctx.matches_.any fun m =>
    decide (m.status = .unknown) && m.unknownReason != some "non_distro_source"

def confirmedKeys : List String :=
  if rpmDevice ctx then
    (ctx.matches_.filter fun m =>
      decide (m.status = .fixed) && truthy m.cveId &&
        m.snapshotId == ctx.device.softwareSnapshotId &&
        m.assessmentScope == some "installed_binary_rpm").map (keyOf lib ctx)
  else []

/-- The closure gate: a fresh snapshot that could have shown the CVE and did not. -/
def shownPatched (row : Vulnerability) : Bool :=
  decide (row.lastSeenAt < ctx.observedAt) && ctx.assessmentPossible &&
    !coverageUnknown lib ctx && !(unknownKeys lib ctx).contains row.findingKey &&
    (!rpmDevice ctx ||
      (!rpmIncomplete ctx && (confirmedKeys lib ctx).contains row.findingKey))

def closeAsPatched (row : Vulnerability) : Vulnerability :=
  { row with
    state := .CLOSED
    stateChangedAt := ctx.now
    stateChangedBy := some "system:inventory"
    closedAt := some ctx.now
    lastVerifiedAt := some ctx.now
    machineVerified := true
    closureReason := some .patched
    updatedAt := ctx.now
    exception :=
      if row.exception.until_ = none then row.exception
      else { row.exception with
        until_ := none
        reason := none
        grantedBy := none } }

def closes (row : Vulnerability) : Bool :=
  existing ctx row && !(seenKeys lib ctx).contains row.findingKey &&
    decide (row.state ≠ .CLOSED) && !(stillVulnerable lib ctx).contains row.findingKey &&
    shownPatched lib ctx row

def closureStep (row : Vulnerability) : Vulnerability :=
  if closes lib ctx row then closeAsPatched ctx row else row

end Closure

section Frames

variable (lib : TrackerText) (ctx : DeviceContext)

theorem refresh_identity (row : Vulnerability) (m : Match) :
    identityOf (refresh lib ctx row m) = identityOf row := by
  have hweigh := weighFpVerdict_identity lib.toText row (latestOf lib m) ctx.now
  unfold refresh
  simp only
  split_ifs
  · exact hweigh
  · refine Eq.trans ?_ hweigh
    exact dropFpVerdictOnReopen_identity _
  · exact hweigh
  · rfl

theorem closureStep_identity (row : Vulnerability) :
    identityOf (closureStep lib ctx row) = identityOf row := by
  unfold closureStep
  split_ifs <;> rfl

end Frames

section Fold

variable (lib : TrackerText) (ctx : DeviceContext)

/-- One trackable match: refresh the row read back under its key, or insert a new one. -/
def foldMatch (before : Tracker) (t : Tracker) (m : Match) : Option Tracker :=
  let target := (ctx.tenantId, keyOf lib ctx m)
  if (before.get target).any (existing ctx) then
    some (t.modifyAt target (fun row => refresh lib ctx row m)
      (fun row => rowKey_of_identity (refresh_identity lib ctx row m)))
  else if hfree : t.get (rowKey (createSoftware lib ctx m)) = none then
    some (t.append (createSoftware lib ctx m) hfree)
  else none

/-- Reconcile one device's matches; none where an insert meets a held key and rolls back. -/
def foldDevice (t : Tracker) : Option Tracker :=
  ((trackable lib ctx).foldlM (foldMatch lib ctx t) t).map fun folded =>
    folded.modify (closureStep lib ctx)
      (fun row => rowKey_of_identity (closureStep_identity lib ctx row))

end Fold

section Rows

variable {lib : TrackerText} {ctx : DeviceContext}

def matchesOf (lib : TrackerText) (ctx : DeviceContext) (row : Vulnerability) : List Match :=
  (trackable lib ctx).filter fun m => decide ((ctx.tenantId, keyOf lib ctx m) = rowKey row)

/-- What one device's fold does to a row. -/
def foldRow (lib : TrackerText) (ctx : DeviceContext) (row : Vulnerability) : Vulnerability :=
  closureStep lib ctx
    (if existing ctx row then (matchesOf lib ctx row).foldl (refresh lib ctx) row else row)

theorem foldMatch_get {before t t' : Tracker} {m : Match} {k : String × String}
    {row : Vulnerability} (ht : t.get k = some row)
    (h : foldMatch lib ctx before t m = some t') :
    t'.get k = some (if (ctx.tenantId, keyOf lib ctx m) = k ∧ (before.get k).any (existing ctx)
      then refresh lib ctx row m else row) := by
  unfold foldMatch at h
  simp only at h
  split_ifs at h with hexisting hfree
  · rw [← Option.some.inj h]
    by_cases hk : (ctx.tenantId, keyOf lib ctx m) = k
    · rw [hk, Table.get_modifyAt_self, ht, Option.map_some,
        if_pos ⟨rfl, by rw [← hk]; exact hexisting⟩]
    · rw [Table.get_modifyAt_of_ne _ _ _ (fun heq => hk heq.symm), ht,
        if_neg (fun hand => hk hand.1)]
  · rw [← Option.some.inj h, Table.get_append]
    have hne : rowKey (createSoftware lib ctx m) ≠ k := by
      intro heq
      rw [heq, ht] at hfree
      exact absurd hfree (by simp)
    rw [if_neg hne, ht, if_neg (fun hand => hne hand.1)]

theorem foldMatches_get {before t t' : Tracker} {ms : List Match} {k : String × String}
    {row : Vulnerability} (ht : t.get k = some row)
    (h : ms.foldlM (foldMatch lib ctx before) t = some t') :
    t'.get k = some (if (before.get k).any (existing ctx) then
      (ms.filter fun m => decide ((ctx.tenantId, keyOf lib ctx m) = k)).foldl
        (refresh lib ctx) row else row) := by
  induction ms generalizing t row with
  | nil =>
    rw [← Option.some.inj h, ht]
    split_ifs <;> rfl
  | cons m ms ih =>
    rw [List.foldlM_cons] at h
    obtain ⟨u, hu, htail⟩ := Option.bind_eq_some_iff.mp h
    rw [ih (foldMatch_get ht hu) htail]
    by_cases hk : (ctx.tenantId, keyOf lib ctx m) = k
    · by_cases hexisting : ((before.get k).any (existing ctx)) = true <;> simp [hk, hexisting]
    · simp [hk]

theorem foldDevice_get {t t' : Tracker} {row : Vulnerability}
    (hrow : t.get (rowKey row) = some row) (h : foldDevice lib ctx t = some t') :
    t'.get (rowKey row) = some (foldRow lib ctx row) := by
  unfold foldDevice at h
  obtain ⟨folded, hfolded, rfl⟩ := Option.map_eq_some_iff.mp h
  rw [Table.get_modify, foldMatches_get hrow hfolded, hrow]
  rfl

end Rows

section Effects

variable (lib : TrackerText) (ctx : DeviceContext)

def inventoryReopened (ctx : DeviceContext) (sla : ℕ × SlaSource) (l : Lifecycle) : Lifecycle :=
  { l with
    state := .OPEN
    closedAt := none
    closureReason := none
    machineVerified := false
    slaStartedAt := ctx.observedAt
    dueAt := some (ctx.observedAt + days sla.1)
    slaDays := some sla.1
    slaSource := some sla.2 }

theorem reopenFromInventory_lifecycle (m : Match) (row : Vulnerability) :
    lifecycleOf (reopenFromInventory lib ctx m row) =
      inventoryReopened ctx (slaOf lib ctx m) (lifecycleOf row) := by
  unfold reopenFromInventory inventoryReopened dropFpVerdictOnReopen
  simp only
  split_ifs <;> rfl

/-- A match leaves the lifecycle alone, or reopens a closed row. -/
theorem refresh_lifecycle (row : Vulnerability) (m : Match) :
    lifecycleOf (refresh lib ctx row m) = lifecycleOf row ∨
      (row.state = .CLOSED ∧ lifecycleOf (refresh lib ctx row m) =
        inventoryReopened ctx (slaOf lib ctx m) (lifecycleOf row)) := by
  have hweigh := weighFpVerdict_lifecycle lib.toText row (latestOf lib m) ctx.now
  have hstate := congrArg Lifecycle.state hweigh
  unfold refresh
  simp only
  split_ifs with hfresh hheld hclosed
  · exact .inl hweigh
  · refine .inr ⟨hstate.symm.trans hclosed, ?_⟩
    rw [reopenFromInventory_lifecycle, ← hweigh]
    rfl
  · exact .inl hweigh
  · exact .inl rfl

end Effects

end Shapoclyack.SoftwareFindings
