import Shapoclyack.Lifecycle

set_option autoImplicit false

namespace Shapoclyack.VerificationDispatch

open FindingEvidence ReportEntries Detectors VerificationArtifacts VerificationCoverage
open VulnStates Findings FindingFold Lifecycle

/-- What one verification re-scan is sent to do, from the finding's detectors. -/
structure VerificationPlan where
  ips : List String
  names : List String
  templateIds : List String
  nse : Bool
  fromDetectors : Bool
  agentGroup : Option String
  exactTargets : List (String × Subject)
deriving DecidableEq

/-- What the intent key hashes: the lifecycle epoch and the detector plan. -/
structure IntentKey where
  tenantId : String
  vulnId : String
  stateChangedAt : ℤ
  previousJobId : Option String
  port : Option String
  source : Source
  state : State
  plan : VerificationPlan
deriving DecidableEq

section Plan

variable (lib : CoverageText)

def maxNucleiTemplateIds : ℕ := 64

def isAddress (value : String) : Bool :=
  isIp lib.toText (stripChars (fun c => c == '[' || c == ']') (lib.strip value))

def exactTargetsOf (row : Vulnerability) : Except Refusal (List (String × Subject)) :=
  match row.nonCve with
  | none => .ok []
  | some metadata =>
    if truthy row.cve then .ok []
    else
      match validTarget lib metadata with
      | none => .error (.dispatchError
          ("This non-CVE finding has no reproducible exact HTTP subject; "
            ++ "triage it manually instead of verifying a different object."))
      | some target => .ok [target]

/-- Where the detectors saw the finding; every address of the asset when one recorded no host. -/
def planHosts (assetHosts : List String) (row : Vulnerability)
    (exactTargets : List (String × Subject)) : List String :=
  let hosts := row.detectors.filterMap (fun e => (filled e.host).map lib.strip)
  let ips := assetHosts.filter (isAddress lib)
  let hostless := row.detectors = [] ∨ row.detectors.any (fun e => !truthy e.host)
  (if hostless then hosts ++ (if ips = [] then assetHosts else ips) else hosts) ++
    exactTargets.map (fun target => target.2.host)

def templateRefs (row : Vulnerability) : List String :=
  sortedKeys ((row.detectors.filterMap fun e =>
    if e.detector = some nuclei then some (lib.strip (text e.ref)) else none).filter (· ≠ ""))

def hasScript (row : Vulnerability) : Bool :=
  row.detectors.any (fun e => e.detector == some nmapNse)

def canBeCovered (row : Vulnerability) : Bool :=
  row.detectors.any fun e =>
    e.detector == some pulse || e.detector == some nuclei || e.detector == some pulsePlugin

def namedFinding (row : Vulnerability) : String :=
  "Vulnerability '" ++ row.vulnId ++ "'"

/-- Build the re-scan from the finding's detectors; refuse what it cannot re-check. -/
def verificationPlan (assetHosts : List String) (row : Vulnerability) :
    Except Refusal VerificationPlan :=
  match exactTargetsOf lib row with
  | .error refusal => .error refusal
  | .ok exactTargets =>
    let hosts := planHosts lib assetHosts row exactTargets
    let refs := templateRefs lib row
    let refused := refs.filter (fun ref => !lib.templateIdShaped ref)
    if hosts = [] then
      .error (.dispatchError (namedFinding row ++ " has no scannable address on record"))
    else if refused ≠ [] ∨ maxNucleiTemplateIds < refs.length then
      .error (.dispatchError (namedFinding row ++ " was found by nuclei templates a sensor "
        ++ "cannot be asked to load by id: "
        ++ if refused = [] then toString refs.length else ", ".intercalate refused))
    else if hasScript row ∧ ¬ canBeCovered row then
      .error (.dispatchError (namedFinding row ++ " was found only by an Nmap NSE script, and the "
        ++ "Nmap stage was removed, so no re-scan can re-check it. Close the finding by "
        ++ "hand with a reason (docs/nmap-migration.md)."))
    else
      .ok {
        ips := sortedKeys (hosts.filter (isAddress lib))
        names := sortedKeys (hosts.filter (fun host => !isAddress lib host))
        templateIds := refs
        nse := hasScript row
        fromDetectors := row.detectors != [] && row.detectors.all (fun e => truthy e.host)
        agentGroup := (row.detectors.filterMap (fun e => filled e.agentGroup)).head?
        exactTargets := exactTargets }

def verificationIntentKey (row : Vulnerability) (plan : VerificationPlan) : IntentKey where
  tenantId := row.tenantId
  vulnId := row.vulnId
  stateChangedAt := row.stateChangedAt
  previousJobId := row.verificationJobId
  port := row.port
  source := row.source
  state := row.state
  plan := plan

end Plan

section Dispatch

variable (lib : CoverageText)

/-- The first transaction: whether a re-scan may be dispatched, and the key it goes out under. -/
def dispatchIntent (assetHosts : List String) (row : Vulnerability) :
    Except Refusal IntentKey :=
  if row.source = .endpointSoftware then
    .error (.dispatchError (namedFinding row ++ " came from the endpoint software inventory, "
      ++ "which a network re-scan cannot verify: a scan does not observe an "
      ++ "installed package, so a 'machine verified' closure from one would be "
      ++ "false. It is verified by the next accepted inventory snapshot from "
      ++ "its device."))
  else if row.source = .retroMatch then
    .error (.dispatchError (namedFinding row ++ " was inferred by retro matching from a stored "
      ++ "service fingerprint, which a verification scan cannot disprove: the "
      ++ "scan's own CVE checks may not cover it, and their silence would read as "
      ++ "a fix. Re-scan the asset — if the scan observes it, it becomes a scan "
      ++ "finding and can be verified — or close it with a reason."))
  else if canTransition row.state .VERIFYING = false then .error .invalidTransition
  else (verificationPlan lib assetHosts row).map (verificationIntentKey row)

structure VerificationJob where
  jobId : String
  tenantId : String
  status : JobStates.Status
  idempotencyKey : Option IntentKey
  verificationOf : Option String

def awaitable (status : JobStates.Status) : Bool :=
  status == .queued || status == .claimed || status == .running

/-- `VerificationReconciliationRequired`: the keys of its JSON text in their order. -/
def reconciliationRequired (job : VerificationJob) : Refusal :=
  .dispatchError ("\x7b\"error\": \"verification_requires_reconciliation\", \"job_id\": \""
    ++ job.jobId ++ "\", \"job_status\": \"" ++ job.status.value
    ++ "\", \"requires_reconciliation\": true\x7d")

/-- The receipt: under the job's lock, and only while the intent still reads the same. -/
def dispatchReceipt (assetHosts : List String) (job : VerificationJob) (key : IntentKey)
    (actor : Option String) (now : ℤ) (row : Vulnerability) : Outcome :=
  if awaitable job.status = false ∨ job.idempotencyKey ≠ some key ∨
      job.verificationOf ≠ some row.vulnId then
    .error (reconciliationRequired job)
  else
    match verificationPlan lib assetHosts row with
    | .error refusal => .error refusal
    | .ok plan =>
      if verificationIntentKey row plan ≠ key then
        .error (reconciliationRequired job)
      else
        .ok { moveTo row .VERIFYING (some ((filled actor).getD "system:verification")) now with
          verificationJobId := some job.jobId
          lastVerifiedAt := some now }

theorem dispatchIntent_state {assetHosts : List String} {row : Vulnerability} {key : IntentKey}
    (h : dispatchIntent lib assetHosts row = .ok key) :
    key.state = row.state ∧ row.state = .FIXING := by
  unfold dispatchIntent at h
  split_ifs at h with _ _ hmove
  rw [Bool.not_eq_false] at hmove
  have hfixing := (canTransition_verifying_iff row.state).mp hmove
  cases hplan : verificationPlan lib assetHosts row with
  | error refusal => simp [hplan, Except.map] at h
  | ok plan =>
    simp only [hplan, Except.map, Except.ok.injEq] at h
    exact ⟨by rw [← h]; rfl, hfixing⟩

/-- What a receipt that goes through does, and what it rests on. -/
theorem dispatchReceipt_ok {assetHosts : List String} {job : VerificationJob} {key : IntentKey}
    {actor : Option String} {now : ℤ} {row row' : Vulnerability}
    (h : dispatchReceipt lib assetHosts job key actor now row = .ok row') :
    awaitable job.status = true ∧ row.state = key.state ∧ row.vulnId = key.vulnId ∧
      row' = { moveTo row .VERIFYING (some ((filled actor).getD "system:verification")) now with
        verificationJobId := some job.jobId
        lastVerifiedAt := some now } := by
  unfold dispatchReceipt at h
  split_ifs at h with hjob
  have hawait : awaitable job.status = true := by
    by_contra hnot
    exact hjob (.inl (Bool.not_eq_true _ ▸ hnot))
  cases hplan : verificationPlan lib assetHosts row with
  | error refusal => simp [hplan] at h
  | ok plan =>
    simp only [hplan] at h
    split_ifs at h with hkey
    rw [ne_eq, not_not] at hkey
    refine ⟨hawait, ?_, ?_, (Except.ok.inj h).symm⟩
    · rw [← hkey]
      rfl
    · rw [← hkey]
      rfl

end Dispatch

end Shapoclyack.VerificationDispatch
