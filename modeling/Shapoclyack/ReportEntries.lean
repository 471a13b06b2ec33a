import Shapoclyack.ProductionEvidence

set_option autoImplicit false

namespace Shapoclyack.ReportEntries

open FindingEvidence ProductionEvidence

structure DetectorLabels where
  source : Option String
  scriptId : Option String
  protocol : Option String
  rulesetVersion : Option String
deriving DecidableEq

/-- One row of `vulnerabilities.json`. -/
structure Entry extends DetectorLabels where
  host : Option String
  /-- `str(entry["port"])` when the row has one. -/
  port : Option String
  cve : Option String
  ruleId : Option String
  templateId : Option String
  findingType : Option String
  nonCvePolicy : Option String
  severity : Option String
  matchedAt : Option String
  alsoDetectedBy : List DetectorLabels
  findingEvidence : Option Uploaded

/-- What a finding key hashes, one constructor for each key scheme. -/
inductive KeyMaterial where
  | scan (material : String)
  | actionable (tenantId assetId rule : String) (subject : Subject)
  | software (material : String)
deriving DecidableEq

structure TrackerText extends EvidenceText where
  sha256 : KeyMaterial → String
  /-- `subject(entry)`, none where it raises. -/
  subject : Entry → Option Subject
  /-- `target_subject(url)`, none where it raises. -/
  targetSubject : String → Option Subject
  templateIdShaped : String → Bool

def policy : String := "nuclei-actionable-v1"

def blank (t : Text) (value : Option String) : Bool :=
  match value with
  | none => true
  | some s => decide (t.strip s = "")

/-- Only the scanner's explicit inclusion receipt opts an observation in. -/
def actionable (t : Text) (e : Entry) : Bool :=
  !truthy e.cve && e.nonCvePolicy == some policy && e.source == some "nuclei" &&
    (e.findingType == some "misconfiguration" || e.findingType == some "exposure") &&
    !blank t e.ruleId && !blank t e.templateId

def join (parts : List String) : String :=
  "|".intercalate parts

def findingWhat (t : Text) (cve scriptId : Option String) : String :=
  let issue := t.upper (t.strip (text cve))
  if issue = "" then "script:" ++ t.strip (text scriptId) else issue

/-- Stable identity for one finding on one asset. -/
def findingKey (lib : TrackerText) (assetId : String) (cve scriptId port : Option String) :
    String :=
  lib.sha256 (.scan (join
    [assetId, findingWhat lib.toText cve scriptId, lib.strip (text port)]))

/-- `rule_id or script_id`, stripped. -/
def stableRule (lib : TrackerText) (e : Entry) : String :=
  lib.strip (text (if truthy e.ruleId then e.ruleId else e.scriptId))

/-- The key an observation resolves to; none where the source raises. -/
def observationFindingKey (lib : TrackerText) (tenantId assetId : String) (e : Entry) :
    Option String :=
  if actionable lib.toText e then
    let rule := stableRule lib e
    if rule = "" then none
    else
      match lib.subject e with
      | none => none
      | some subject => some (lib.sha256 (.actionable tenantId assetId rule subject))
  else
    some (findingKey lib assetId e.cve e.scriptId e.port)

def softwareKeyNamespace : String := "endpoint_software"

def softwareFindingKey (lib : TrackerText) (assetId deviceId cve : String) : String :=
  lib.sha256 (.software (join
    [softwareKeyNamespace, assetId, deviceId, lib.upper (lib.strip cve)]))

inductive Severity where
  | unknown
  | low
  | medium
  | high
  | critical
deriving DecidableEq, Repr

/-- `SEVERITY_ORDER`. -/
def Severity.rank : Severity → ℕ
  | .critical => 4
  | .high => 3
  | .medium => 2
  | .low => 1
  | .unknown => 0

def Severity.ofText : String → Severity
  | "critical" => .critical
  | "high" => .high
  | "medium" => .medium
  | "low" => .low
  | _ => .unknown

def severityOf (lib : TrackerText) (e : Entry) : Severity :=
  Severity.ofText (lib.lower (lib.strip (text e.severity)))

/-- `str(value or "").strip() or None`. -/
def strippedOrNone (t : Text) (value : Option String) : Option String :=
  orNone (t.strip (text value))

structure NonCve where
  templateId : Option String
  subject : Subject
  verificationTarget : Option String
deriving DecidableEq

/-- `metadata(entry)`, none where reading the subject raises. -/
def nonCveMetadata (lib : TrackerText) (e : Entry) : Option NonCve :=
  (lib.subject e).map fun subject =>
    let target :=
      match e.matchedAt with
      | none => none
      | some url => if lib.targetSubject url = some subject then some url else none
    ⟨e.templateId, subject, target⟩

end Shapoclyack.ReportEntries
