import Shapoclyack.Detectors

set_option autoImplicit false

namespace Shapoclyack.VerificationArtifacts

open FindingEvidence ReportEntries Detectors

/-- The library calls coverage rests on. -/
structure CoverageText extends TrackerText where
  /-- Host name and effective port of a URL, none where `urlsplit` raises. -/
  urlTarget : String → Option (Option String × Option ℕ)

/-- A receipt that one exact-object input was checked with one template. -/
structure VerificationReceipt where
  complete : Bool
  templateId : Option String
  inputContract : Option String
  templateSha256 : Option String
  subject : Subject
deriving DecidableEq

structure NucleiCoverage where
  ran : Bool
  returncode : Option ℤ
  templateIdsMissing : List String
  templateIdsExcluded : List String
  templateIdsRequested : List String
  templateIdsAmbiguous : List String
  templatesLoaded : Option ℤ
  templatesExpected : Option ℤ
  targets : List String
  skippedTargets : List String
  errorsLogTruncated : Bool
  verificationTargets : List VerificationReceipt

/-- `nuclei.json`; a finding that is no object is `none`. -/
structure NucleiDocument where
  skippedReason : Option String
  truncated : Bool
  coverage : Option NucleiCoverage
  findings : List (Option Entry)

structure PluginError where
  plugin : String
  hosts : List String
  ports : List String

structure PluginReceipt where
  loaded : List (String × String)
  errors : List PluginError

structure PulseAdapter where
  /-- None where the adapter never recorded whether it matched CVEs. -/
  cve : Option Bool
  cveOnline : Bool
  ruleset : Option String
  plugins : Option PluginReceipt

structure OpenRow where
  ip : Option String
  host : Option String
  port : Option String
  protocol : Option String
  service : Option String
  banner : Option String
  isOpen : Bool

/-- One host of the completion manifest; a field of another type is `none`. -/
structure CompletionRecord where
  host : String
  returncode : Option ℤ
  ports : Option (List ℤ)

structure CompletionManifest where
  schema : String
  hosts : List CompletionRecord

/-- `pulse/raw.json`. -/
structure PulseDocument where
  adapter : PulseAdapter
  completion : Option CompletionManifest
  openRows : List OpenRow

structure NseRun where
  scripts : List String
  openPorts : List (String × List (ℕ × String))

/-- One connect probe of `reachability.json`. -/
structure Probe where
  host : String
  port : String
  result : Option String

structure PortScan where
  protocol : Option String
  complete : Bool
  hosts : List String
  portArgs : List String
  excludePorts : List ℕ

/-- A line of an open-ports file, as `parse_endpoint` reads it. -/
structure Endpoint where
  host : String
  port : String
  protocol : String

/-- One run's coverage evidence. -/
structure RunArtifacts where
  nuclei : Option NucleiDocument
  pulse : Option PulseDocument
  nse : List NseRun
  probes : List Probe
  portScans : List PortScan
  openLines : List Endpoint

def completionSchema : String := "octo.pulse_completion.v1"

def canonicalHost (t : Text) (value : String) : String :=
  (t.ipAddress value).getD value

def receiptPorts (record : CompletionRecord) : Option (List ℤ) :=
  match record.returncode, record.ports with
  | some code, some ports =>
    if code = 0 ∧ ports ≠ [] ∧ ports.all (fun p => decide (1 ≤ p) && decide (p ≤ 65535)) then
      some ports
    else none
  | _, _ => none

/-- Add a host's ports under its canonical name, keeping where that name first stood. -/
def addReceipt (host : String) (ports : List ℤ) :
    List (String × List ℤ) → List (String × List ℤ)
  | [] => [(host, ports)]
  | (seen, held) :: rest =>
    if seen = host then (seen, held ++ ports) :: rest
    else (seen, held) :: addReceipt host ports rest

def successfulTcpPorts (t : Text) (document : PulseDocument) : List (String × List ℤ) :=
  match document.completion with
  | none => []
  | some manifest =>
    if manifest.schema ≠ completionSchema then []
    else
      manifest.hosts.foldl (fun receipts record =>
        match receiptPorts record with
        | none => receipts
        | some ports => addReceipt (canonicalHost t record.host) ports receipts) []

/-- The receipt a host reads, the last one of the spellings that normalise alike. -/
def receiptFor (t : Text) (document : PulseDocument) (host : String) : Option (List ℤ) :=
  ((successfulTcpPorts t document).reverse.find?
    (fun receipt => normalizeHost t receipt.1 == host)).map (·.2)

def probed (t : Text) (document : PulseDocument) (port : Option ℕ) (host : String) : Bool :=
  match receiptFor t document host with
  | none => false
  | some ports =>
    ports != [] &&
      match port with
      | none => true
      | some p => ports.contains (p : ℤ)

section Rulesets

def digitsOf (value : List Char) : Option ℕ :=
  if value ≠ [] && value.all Char.isDigit then
    some (value.foldl (fun n c => 10 * n + (c.toNat - 48)) 0)
  else none

def daysInMonth (year month : ℕ) : ℕ :=
  if month = 2 then
    if year % 4 = 0 ∧ (year % 100 ≠ 0 ∨ year % 400 = 0) then 29 else 28
  else if month = 4 ∨ month = 6 ∨ month = 9 ∨ month = 11 then 30
  else 31

def dateExists (year month day : ℕ) : Bool :=
  decide (1 ≤ year ∧ 1 ≤ month ∧ month ≤ 12 ∧ 1 ≤ day ∧ day ≤ daysInMonth year month)

/-- The day and the hotfix of `DD` or `DD-hN`. -/
def dayHotfix (value : List Char) : Option (ℕ × ℕ) :=
  let day := value.takeWhile (· != '-')
  if 2 < day.length then none
  else
    match digitsOf day, value.drop day.length with
    | some d, [] => some (d, 0)
    | some d, '-' :: 'h' :: hotfix => (digitsOf hotfix).map (fun h => (d, h))
    | _, _ => none

def parseRuleset (t : Text) (value : String) : Option (ℕ × ℕ × ℕ × ℕ) :=
  match (t.lower (t.strip value)).toList.splitOn '.' with
  | [yearText, monthText, rest] =>
    if yearText.length = 4 ∧ monthText.length ≤ 2 then
      match digitsOf yearText, digitsOf monthText, dayHotfix rest with
      | some year, some month, some (day, hotfix) =>
        if dateExists year month day then some (year, month, day, hotfix) else none
      | _, _, _ => none
    else none
  | _ => none

/-- `run_with < found_with` on the parsed tuples. -/
def rulesetBefore (a b : ℕ × ℕ × ℕ × ℕ) : Bool :=
  decide (a.1 < b.1 ∨ a.1 = b.1 ∧ (a.2.1 < b.2.1 ∨ a.2.1 = b.2.1 ∧
    (a.2.2.1 < b.2.2.1 ∨ a.2.2.1 = b.2.2.1 ∧ a.2.2.2 < b.2.2.2)))

end Rulesets

section Plugins

/-- The gate a plugin puts before its check. -/
structure Gate where
  services : List String
  banner : List (String × String)
  ports : List ℕ

def applicability : List (String × Gate) :=
  [("shapo_rsync_modules", ⟨["rsync"], [], [873]⟩),
    ("shapo_zookeeper_envi", ⟨["zookeeper"], [], [2181]⟩),
    ("shapo_redis_info", ⟨["redis"], [], [6379]⟩),
    ("shapo_memcached_stats", ⟨["memcached", "memcache"], [], [11211]⟩),
    ("shapo_ssh_algorithms", ⟨["ssh"], [("ssh-", "")], []⟩),
    ("shapo_ssh_banner", ⟨["ssh"], [("ssh-", "")], []⟩),
    ("shapo_ftp_anonymous", ⟨["ftp"], [("220", "ftp")], []⟩),
    ("shapo_http_trace", ⟨["http"], [("http/", "")], []⟩),
    ("shapo_cleartext_services",
      ⟨["telnet", "ftp", "pop3", "imap", "smtp"],
        [("220", "ftp"), ("+ok", ""), ("* ok", ""), ("220", "smtp")], [23]⟩),
    ("shapo_ssh_hostkey", ⟨["ssh"], [], [22]⟩),
    ("shapo_snmp_info", ⟨["snmp"], [], [161]⟩),
    ("shapo_ms17_010", ⟨["smb", "microsoft-ds", "netbios-ssn"], [], [445, 139]⟩),
    ("shapo_smb_protocols", ⟨["smb", "microsoft-ds", "netbios-ssn"], [], [445, 139]⟩),
    ("shapo_rdp_ntlm_info", ⟨["rdp", "ms-wbt-server"], [], [3389]⟩),
    ("shapo_vnc_security", ⟨["vnc"], [("rfb ", "")], List.range' 5900 10⟩),
    ("shapo_smb1", ⟨["smb", "microsoft-ds"], [], [445]⟩),
    ("shapo_smb_signing", ⟨["smb", "microsoft-ds"], [], [445]⟩),
    ("shapo_rdp_negotiation", ⟨["rdp", "ms-wbt-server"], [], [3389]⟩),
    ("shapo_smb_exposure", ⟨["smb", "microsoft-ds", "netbios-ssn"], [], [445, 139]⟩),
    ("shapo_remote_admin_exposure",
      ⟨["rdp", "ms-wbt-server", "vnc"], [("rfb ", "")], [3389]⟩)]

def pluginApplies (t : Text) (plugin service : String) (port : ℕ) (banner : String) : Bool :=
  match applicability.find? (fun row => row.1 == plugin) with
  | none => false
  | some (_, gate) =>
    let body := t.lower banner
    gate.services.contains service ||
      gate.banner.any (fun row =>
        startsWith row.1 body && decide (row.2.toList <:+: body.toList)) ||
      ((service == "" || service == "unknown") && gate.ports.contains port)

end Plugins

section PortScans

/-- The argument after the first `-p`. -/
def portListArg : List String → Option String
  | [] => none
  | arg :: rest => if arg = "-p" then rest.head? else portListArg rest

/-- Whether one part of a `-p` list names a TCP port. -/
def partNames (t : Text) (port : ℕ) (part : List Char) : Bool :=
  let part := t.strip (String.ofList part)
  if startsWith "u:" part then false
  else
    let low := part.toList.takeWhile (· != '-')
    let high := part.toList.drop (low.length + 1)
    let first := portNumber t (String.ofList low)
    let last := if high = [] then first else portNumber t (String.ofList high)
    match first, last with
    | some a, some b => decide (a ≤ port) && decide (port ≤ b)
    | _, _ => false

/-- `port in _explicit_ports(args)`. -/
def explicitPort (t : Text) (args : List String) (port : ℕ) : Bool :=
  match portListArg args with
  | none => false
  | some list => (list.toList.splitOn ',').any (partNames t port)

def openRowEndpoints (t : Text) (row : OpenRow) : List (String × ℕ) :=
  let proto := t.lower (if truthy row.protocol then text row.protocol else "tcp")
  match portOf t row.port with
  | none => []
  | some port =>
    if (proto = "tcp" ∨ proto = "tcpsyn" ∨ proto = "syn") ∧ row.isOpen = true then
      ([row.ip, row.host].filterMap filled).map (fun h => (normalizeHost t h, port))
    else []

def openLineEndpoints (t : Text) (line : Endpoint) : List (String × ℕ) :=
  if line.protocol = "tcp" then
    match portNumber t line.port with
    | none => []
    | some port => [(normalizeHost t line.host, port)]
  else []

def openTcp (t : Text) (run : RunArtifacts) : List (String × ℕ) :=
  run.openLines.flatMap (openLineEndpoints t) ++
    match run.pulse with
    | none => []
    | some document => document.openRows.flatMap (openRowEndpoints t)

def probeOf (t : Text) (run : RunArtifacts) (host : String) (port : ℕ) : Option Probe :=
  run.probes.reverse.find? fun probe =>
    portNumber t probe.port == some port && normalizeHost t probe.host == host

/-- One host's share of the evidence that a port is out of reach. -/
def hostUnreachable (t : Text) (run : RunArtifacts) (port : ℕ) (host : String) : Bool :=
  let batches := run.portScans.filter fun record =>
    record.protocol == some "tcp" && (record.hosts.map (normalizeHost t)).contains host
  isIp t host && !(openTcp t run).contains (host, port) &&
    (match probeOf t run host port with
      | none => false
      | some probe => probe.result == some "refused") &&
    !batches.isEmpty && batches.all (·.complete) &&
    batches.any (fun record =>
      explicitPort t record.portArgs port && !record.excludePorts.contains port)

/-- Evidence that a port is not reachable on any of the hosts from where the run looked. -/
def endpointUnreachable (t : Text) (run : RunArtifacts) (hosts : List String)
    (port : Option ℕ) (protocol : Option String) : Option (List (String × ℕ)) :=
  match port with
  | none => none
  | some p =>
    if hosts ≠ [] ∧ protocol = some "tcp" ∧ hosts.all (hostUnreachable t run p) then
      some ((sortedKeys hosts).map (fun host => (host, p)))
    else none

end PortScans

section Ascii

def asciiLibrary : CoverageText where
  toText := ascii
  digestIdentity i := join [i.tenantId, i.subject.host, i.subject.protocol, text i.subject.objectId]
  digestObservation d := join [d.runId, text d.observedAt, d.source, d.ruleDigest]
  referenceJson r := join [r.locator, r.path, r.sha256]
  safeText := clip
  timestamp value := some value
  cveShaped value := startsWith "CVE-" value
  endpointSubject s := some s
  httpAuthority value _ := some value
  sha256
    | .scan material => join ["scan", material]
    | .actionable tenantId assetId rule subject =>
      join ["actionable", tenantId, assetId, rule, subject.host, text subject.objectId]
    | .software material => join ["software", material]
  subject e := some ⟨text e.host, portOf ascii e.port, "tcp", none, none, none, none⟩
  targetSubject _ := none
  templateIdShaped _ := true
  urlTarget _ := none

end Ascii

end Shapoclyack.VerificationArtifacts
