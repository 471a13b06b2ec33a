import Shapoclyack.VerificationArtifacts

set_option autoImplicit false

namespace Shapoclyack.VerificationCoverage

open FindingEvidence ReportEntries Detectors VerificationArtifacts

structure Gap where
  detector : String
  ref : Option String
  host : Option String
  port : Option String
  reason : String
deriving DecidableEq, Repr

section Rules

variable (lib : CoverageText) (run : RunArtifacts)

def returncodeText : Option ℤ → String
  | none => "None"
  | some code => toString code

def targetEndpoints (coverage : NucleiCoverage) : List (String × Option ℕ) :=
  coverage.targets.filterMap fun url =>
    (lib.urlTarget url).map fun parts => (normalizeHost lib.toText (text parts.1), parts.2)

/-- `host:port` split at its last colon. -/
def endpointOf (value : String) : String × Option ℕ :=
  let reversed := (lib.strip value).toList.reverse
  let port := String.ofList (reversed.takeWhile (· != ':')).reverse
  let host := String.ofList (reversed.drop (port.toList.length + 1)).reverse
  (normalizeHost lib.toText host, portNumber lib.toText port)

def nucleiGap (ref : String) (hosts : List String) (port : Option ℕ) : Option String :=
  match run.nuclei with
  | none => some "nuclei_not_run"
  | some document =>
    if truthy document.skippedReason then
      some ("nuclei_skipped:" ++ text document.skippedReason)
    else
      match document.coverage with
      | none => some "nuclei_coverage_not_recorded"
      | some coverage =>
        if coverage.ran = false then
          some ("nuclei_did_not_complete:" ++ returncodeText coverage.returncode)
        else if coverage.templateIdsMissing.contains ref then some "template_missing"
        else if coverage.templateIdsExcluded.contains ref then some "template_excluded"
        else if ref = "" ∨ coverage.templateIdsRequested.contains ref = false then
          some "template_not_pinned"
        else if coverage.templateIdsAmbiguous.contains ref then some "nuclei_template_ambiguous"
        else
          match coverage.templatesLoaded, coverage.templatesExpected with
          | some loaded, some expected =>
            if loaded ≠ expected then some "nuclei_templates_not_loaded"
            else if port = none then some "no_port"
            else
              let targets := targetEndpoints lib coverage
              let skipped := coverage.skippedTargets.map (endpointOf lib)
              let given := hosts.filter (fun host => targets.contains (host, port))
              if given = [] then some "endpoint_not_targeted"
              else if given.all (fun host => skipped.contains (host, port)) then
                some "nuclei_target_skipped"
              else none
          | _, _ => some "nuclei_templates_loaded_not_recorded"

def rulesetGap (adapter : PulseAdapter) (ruleset : Option String) : Option String :=
  if truthy ruleset then
    if truthy adapter.ruleset then
      match parseRuleset lib.toText (text ruleset),
          parseRuleset lib.toText (text adapter.ruleset) with
      | some foundWith, some runWith =>
        if rulesetBefore runWith foundWith then some "pulse_ruleset_older" else none
      | _, _ => some "pulse_ruleset_unparseable"
    else some "pulse_ruleset_not_recorded"
  else none

def pulseGap (ref : String) (ruleset : Option String) (hosts : List String)
    (port : Option ℕ) : Option String :=
  match run.pulse with
  | none => some "pulse_not_run"
  | some document =>
    match document.adapter.cve with
    | none => some "pulse_cve_matching_not_recorded"
    | some false => some "pulse_cve_matching_off"
    | some true =>
      if ref = "nvd" ∧ document.adapter.cveOnline = false then some "pulse_cve_online_off"
      else
        match rulesetGap lib document.adapter ruleset with
        | some reason => some reason
        | none =>
          if hosts.any (probed lib.toText document port) then none
          else some "endpoint_not_probed"

def rowApplies (ref : String) (hosts : List String) (port : Option ℕ) (row : OpenRow) : Bool :=
  let address := if truthy row.ip then row.ip else row.host
  let rowPort := portOf lib.toText row.port
  hosts.contains (normalizeHost lib.toText (text address)) &&
    (port == none || rowPort == port) &&
    pluginApplies lib.toText ref (text row.service) (rowPort.getD 0) (text row.banner)

def errorCovers (ref : String) (hosts : List String) (port : Option ℕ) (error : PluginError) :
    Bool :=
  let errorHosts := error.hosts.map (normalizeHost lib.toText)
  let errorPorts := error.ports.filterMap (portNumber lib.toText)
  error.plugin == ref && (errorHosts == [] || errorHosts.any (fun h => hosts.contains h)) &&
    (errorPorts == [] ||
      match port with
      | none => true
      | some p => errorPorts.contains p)

def pluginGap (ref : String) (expected : Option String) (hosts : List String)
    (port : Option ℕ) (protocol : Option String) : Option String :=
  if protocol ≠ some "tcp" then some "plugin_transport_not_probed"
  else
    match run.pulse with
    | none => some "pulse_not_run"
    | some document =>
      match document.adapter.plugins with
      | none => some "plugin_receipt_not_recorded"
      | some receipt =>
        match (receipt.loaded.reverse.find? (fun row => row.1 == ref)).map (·.2) with
        | none => some "plugin_not_loaded"
        | some sha256 =>
          if ref = "" then some "plugin_not_loaded"
          else if startsWith "sha256:" (text expected) = false then
            some "plugin_version_not_recorded"
          else if sha256 ≠ dropHead "sha256:" (text expected) then some "plugin_changed"
          else if hosts.any (probed lib.toText document port) = false then
            some "endpoint_not_probed"
          else if document.openRows.any (rowApplies lib ref hosts port) = false then
            some "plugin_not_applicable"
          else if receipt.errors.any (errorCovers lib ref hosts port) then some "plugin_error"
          else none

def nseScanned (port : Option ℕ) (protocol : Option String) (nse : NseRun) (host : String) :
    Bool :=
  match nse.openPorts.find? (fun row => row.1 == host) with
  | none => false
  | some (_, ports) =>
    match port with
    | none => true
    | some p => ports.any fun row =>
        row.1 == p && (protocol == none || protocol == some row.2)

def nseGap (ref : String) (hosts : List String) (port : Option ℕ) (protocol : Option String) :
    Option String :=
  if run.nse.isEmpty then some "nse_not_run"
  else
    let withScript := run.nse.filter (fun nse => ref != "" && nse.scripts.contains ref)
    if withScript.isEmpty then some "script_not_run"
    else if withScript.any (fun nse => hosts.any (nseScanned port protocol nse)) then none
    else some "endpoint_not_scanned"

/-- A detector's own rule on a set of hosts: why it does not cover them, none where it does. -/
def reasonOf (entry : Detector) (hosts : List String) (port : Option ℕ) : Option String :=
  let detector := text entry.detector
  let ref := text entry.ref
  if detector = nuclei then nucleiGap lib run ref hosts port
  else if detector = pulse then pulseGap lib run ref entry.ruleset hosts port
  else if detector = pulsePlugin then
    pluginGap lib run ref entry.ruleset hosts port (detectorProtocol lib.toText entry)
  else if detector = nmapNse then
    nseGap run ref hosts port (detectorProtocol lib.toText entry)
  else some "no_coverage_rule"

end Rules

section Assess

variable (lib : CoverageText) (run : RunArtifacts)

def endpointPort (port : Option String) (entry : Detector) : Option ℕ :=
  if truthy entry.port then portNumber lib.toText (text entry.port) else portOf lib.toText port

def hostlessAddresses (assetHosts : List String) : List String :=
  let known := (assetHosts.filter (· ≠ "")).map (normalizeHost lib.toText)
  let ips := known.filter (isIp lib.toText)
  sortedKeys (if ips = [] then known else ips)

/-- The addresses an entry is held to: its own host, or each address of the asset. -/
def heldTo (assetHosts : List String) (entry : Detector) : List String :=
  if truthy entry.host then [normalizeHost lib.toText (text entry.host)]
  else hostlessAddresses lib assetHosts

/-- The rule of a row no detector was recorded for. -/
def legacyEntry (port : Option String) : Detector where
  detector := some pulse
  ref := none
  host := none
  port := port
  protocol := none
  ruleset := none
  lastRunId := none
  lastSeenAt := none
  agentId := none
  agentGroup := none
  vantage := none
  vantages := []

def judgedEntries (port : Option String) (detectors : List Detector) : List Detector :=
  if detectors = [] then [legacyEntry port] else detectors

structure Verdict where
  entry : Detector
  hosts : List String
  reason : Option String
  place : Option String

def firstFailing (entry : Detector) (port : Option ℕ) : List String → Option (String × String)
  | [] => none
  | host :: rest =>
    match reasonOf lib run entry [host] port with
    | some reason => some (reason, host)
    | none => firstFailing entry port rest

def judge (port : Option String) (assetHosts : List String) (entry : Detector) : Verdict :=
  let at_ := endpointPort lib port entry
  if truthy entry.host then
    let hosts := [normalizeHost lib.toText (text entry.host)]
    ⟨entry, hosts, reasonOf lib run entry hosts at_, none⟩
  else
    let hostless := hostlessAddresses lib assetHosts
    if hostless = [] then ⟨entry, [], some "no_address", none⟩
    else
      match firstFailing lib run entry at_ hostless with
      | none => ⟨entry, hostless, none, none⟩
      | some (reason, host) => ⟨entry, hostless, some reason, some host⟩

def standsIn (verdict : Verdict) : Bool :=
  verdict.reason == none &&
    (verdict.entry.detector == some pulse || verdict.entry.detector == some nuclei)

def standIn (verdicts : List Verdict) (hosts : List String) : Option Verdict :=
  (verdicts.filter standsIn).find? (fun other => other.hosts.any (fun h => hosts.contains h))

def gapRow (port : Option String) (verdict : Verdict) (reason : String) : Gap where
  detector := if text verdict.entry.detector = "" then "unknown" else text verdict.entry.detector
  ref := filled verdict.entry.ref
  host := if truthy verdict.entry.host then verdict.entry.host else verdict.place
  port := if truthy verdict.entry.port then verdict.entry.port else port
  reason := reason

/-- What one verdict adds: nothing, a gap, or a gap another detector excuses. -/
inductive EntryOutcome where
  | covered
  | gap (row : Gap)
  | waived (row : Gap) (coveredBy : Option String)

def outcome (port : Option String) (verdicts : List Verdict) (verdict : Verdict) : EntryOutcome :=
  match verdict.reason with
  | none => .covered
  | some reason =>
    if verdict.entry.detector = some nmapNse then
      match standIn verdicts verdict.hosts with
      | some other => .waived (gapRow port verdict reason) other.entry.detector
      | none => .gap (gapRow port verdict reason)
    else .gap (gapRow port verdict reason)

def verdicts (port : Option String) (assetHosts : List String) (detectors : List Detector) :
    List Verdict :=
  (judgedEntries port detectors).map (judge lib run port assetHosts)

/-- What the run did not demonstrably re-check. -/
def assess (port : Option String) (assetHosts : List String) (detectors : List Detector) :
    List Gap :=
  let all := verdicts lib run port assetHosts detectors
  all.filterMap fun verdict =>
    match outcome port all verdict with
    | .gap row => some row
    | _ => none

/-- The NSE gaps another detector of the finding excuses, and which one does. -/
def waivers (port : Option String) (assetHosts : List String) (detectors : List Detector) :
    List (Gap × Option String) :=
  let all := verdicts lib run port assetHosts detectors
  all.filterMap fun verdict =>
    match outcome port all verdict with
    | .waived row coveredBy => some (row, coveredBy)
    | _ => none

end Assess

section NonCve

variable (lib : CoverageText) (run : RunArtifacts)

/-- `validate_target`: the template and subject of a target whose URL still reads as that
subject. -/
def validTarget (metadata : NonCve) : Option (String × Subject) :=
  match metadata.templateId, metadata.verificationTarget with
  | some templateId, some url =>
    if lib.templateIdShaped templateId = true ∧ lib.targetSubject url = some metadata.subject then
      some (templateId, metadata.subject)
    else none
  | _, _ => none

def stillObserved (templateId : String) (subject : Subject) : List (Option Entry) → Option Bool
  | [] => some false
  | none :: _ => none
  | some finding :: rest =>
    if finding.templateId = some templateId then
      match lib.subject finding with
      | none => none
      | some found => if found = subject then some true else stillObserved templateId subject rest
    else stillObserved templateId subject rest

def receiptMatches (templateId : String) (subject : Subject) (receipt : VerificationReceipt) :
    Bool :=
  receipt.complete && receipt.templateId == some templateId &&
    receipt.inputContract == some "exact-baseurl-v1" &&
    (match receipt.templateSha256 with
      | none => false
      | some sha256 => isHexDigest sha256) &&
    receipt.subject == subject

def exactReceipt (templateId : String) (subject : Subject) : Bool :=
  match run.nuclei with
  | none => false
  | some document =>
    match document.coverage with
    | none => false
    | some coverage =>
      !truthy document.skippedReason && !document.truncated && coverage.ran &&
        coverage.returncode == some 0 && !coverage.errorsLogTruncated &&
        coverage.skippedTargets.isEmpty &&
        nucleiGap lib run templateId [subject.host] subject.port == none &&
        coverage.verificationTargets.any (receiptMatches templateId subject)

def nonCveGap (metadata : NonCve) (host : Option String) (port : Option ℕ) (reason : String) :
    Gap :=
  ⟨nuclei, metadata.templateId, host, port.map toString, reason⟩

/-- An exact-object receipt supplements, never replaces, detector coverage. -/
def nonCveGaps (metadata : NonCve) : List Gap :=
  match validTarget lib metadata with
  | none => [nonCveGap metadata none none "precise_subject_invalid"]
  | some (templateId, subject) =>
    match stillObserved lib templateId subject
        (match run.nuclei with | none => [] | some document => document.findings) with
    | none => [nonCveGap metadata none none "precise_subject_invalid"]
    | some true =>
      [nonCveGap metadata (some subject.host) subject.port "exact_subject_still_observed"]
    | some false =>
      if exactReceipt lib run templateId subject then []
      else [nonCveGap metadata none none "precise_subject_coverage_unproven"]

end NonCve

end Shapoclyack.VerificationCoverage
