import Shapoclyack.Advisories
import Shapoclyack.Library.KeyedTable
import Shapoclyack.Library.WorstOf
import Shapoclyack.SoftwareFindings

set_option autoImplicit false

namespace Shapoclyack.SoftwareCveMatch

open Advisories Library PackageIdentities VersionCompare
open SoftwareFindings (MatchStatus)

/-- The installation a v2 inventory tells apart from other copies of a package. -/
structure Installation where
  identity : String
  instanceId : Option String
  scope : Option String
  packageId : Option String
deriving DecidableEq

structure SoftwareItem where
  name : Option String
  version : Option String
  architecture : Option String
  source : Option String
  installationIdentity : Option String
  instanceId : Option String
  scope : Option String
  packageId : Option String
deriving DecidableEq

def SoftwareItem.installation (item : SoftwareItem) : Option Installation :=
  (orNone (text item.installationIdentity)).map fun identity =>
    { identity := identity
      instanceId := item.instanceId
      scope := item.scope
      packageId := item.packageId }

inductive Evidence where
  | statement (rpm : Option RpmContext) (advisoryState : AdvisoryState)
      (sourcePackageLookup comparison : String) (installation : Option Installation)
  | unassessed (reason : Reason) (packageCount : ℕ) (packages : List String) (truncated : Bool)
  | windowsUnknown (reason : Reason) (osVersion : String) (buildFamiliesInFeed : Option ℕ)
  | windowsVerdict (installedBuild fixedBuild kb product : String) (fixedByInstalledKb : Bool)
deriving DecidableEq

def Evidence.installation : Evidence → Option Installation
  | .statement _ _ _ _ installation => installation
  | _ => none

/-- `assessment_scope`, on rows about one installed binary. -/
def Evidence.assessmentScope : Evidence → Option String
  | .statement (some _) _ _ _ _ => some "installed_binary_rpm"
  | _ => none

structure MatchCandidate where
  cveId : String
  status : MatchStatus
  sourcePackage : String
  installedPackage : String
  installedVersion : Option String
  fixedVersion : Option String
  advisoryId : Option String
  advisoryUrl : Option String
  provider : String
  severity : String
  distro : Option String
  distroRelease : Option String
  unknownReason : Option Reason
  feedDate : Option String
  evidence : Evidence
deriving DecidableEq

section Worse

def severityOrder : List String :=
  ["critical", "high", "medium", "low", "negligible", "unknown"]

/-- `_SEVERITY_RANK.get(severity, 5)`. -/
def severityRank (severity : String) : ℕ :=
  min (severityOrder.idxOf severity) 5

/-- `_worse`: the worse status, the graver severity among equals, the first of equals. -/
def worse (left right : MatchCandidate) : MatchCandidate :=
  if right.status.rank < left.status.rank ∨
      (right.status.rank = left.status.rank ∧
        severityRank left.severity ≤ severityRank right.severity)
  then left else right

theorem worse_keepsWorst : KeepsWorst (fun c : MatchCandidate => c.status.rank) worse where
  picks a b := by
    unfold worse
    split_ifs
    · exact .inl rfl
    · exact .inr rfl
  left_le a b := by
    unfold worse
    split_ifs with h
    · exact le_rfl
    · by_contra hlt
      exact h (.inl (not_le.mp hlt))
  right_le a b := by
    unfold worse
    split_ifs with h
    · rcases h with hlt | ⟨heq, _⟩
      · exact hlt.le
      · exact heq.le
    · exact le_rfl

end Worse

section Evaluate

variable (lib : VersionText)

/-- The version that stands for the installed one: its release goes where the fix names none. -/
def comparedWith (installed : String) (installedEvr fixedEvr : Evr) : String :=
  if fixedEvr.release = "" ∧ installedEvr.release ≠ "" then
    ({ installedEvr with release := "" } : Evr).toText
  else installed

/-- `_compare_status`: one fixed version against the installed one, or why it cannot be. -/
def compareStatus (installed fixed : String) (flavor : Flavor) :
    Except ParseError (MatchStatus × Option Reason) :=
  match parseEvr lib installed flavor with
  | .error .versionParse => .ok (.unknown, some .unparsableVersion)
  | .error .value => .error .value
  | .ok installedEvr =>
    match parseEvr lib fixed flavor with
    | .error .versionParse => .ok (.unknown, some .unparsableVersion)
    | .error .value => .error .value
    | .ok fixedEvr =>
      match isFixed lib (comparedWith installed installedEvr fixedEvr) fixed flavor with
      | .error e => .error e
      | .ok true => .ok (.fixed, none)
      | .ok false => .ok (.vulnerable, none)

def recordStatus (installed : String) (flavor : Flavor) (r : AdvisoryRecord) :
    Except ParseError (MatchStatus × Option Reason) :=
  if r.state = .notAffected then .ok (.notApplicable, none)
  else if r.state = .open_ ∨ text r.fixedVersion = "" then .ok (.vulnerable, none)
  else compareStatus lib installed (text r.fixedVersion) flavor

def candidateOf (identity : PackageIdentity) (p : Provider) (matchedPackage : String)
    (r : AdvisoryRecord) (status : MatchStatus) (reason : Option Reason) (cveId : String) :
    MatchCandidate where
  cveId := cveId
  status := status
  sourcePackage := matchedPackage
  installedPackage := identity.name
  installedVersion := identity.version
  fixedVersion := r.fixedVersion
  advisoryId := some r.advisoryId
  advisoryUrl := r.url
  provider := if r.provider = "" then p.name else r.provider
  severity := r.severity
  distro := identity.distro
  distroRelease := identity.distroRelease
  unknownReason := reason
  feedDate := if r.rpm.isSome then r.feedDate else p.feedDate
  evidence := .statement r.rpm r.state
    (if matchedPackage = identity.name then "exact" else "derived_from_binary_name")
    (if text r.fixedVersion = "" then "no fixed version published"
      else text identity.version ++ " vs fixed " ++ text r.fixedVersion)
    none

def evaluateRecords (identity : PackageIdentity) (p : Provider) (matchedPackage : String) :
    List AdvisoryRecord → Except ParseError (List MatchCandidate)
  | [] => .ok []
  | r :: rs =>
    match recordStatus lib (text identity.version) (identity.flavor.getD .deb) r with
    | .error e => .error e
    | .ok (status, reason) =>
      match evaluateRecords identity p matchedPackage rs with
      | .error e => .error e
      | .ok rest =>
        .ok (r.cveIds.map (candidateOf identity p matchedPackage r status reason) ++ rest)

def firstCovered (identity : PackageIdentity) (p : Provider) : String × List AdvisoryRecord :=
  match identity.sourcePackageCandidates.find? fun name =>
      !(p.advisoriesFor (text identity.distroRelease) name).isEmpty with
  | none => ("", [])
  | some name => (name, p.advisoriesFor (text identity.distroRelease) name)

def onRpmDistro (distro : Option String) : Bool := distro.any rpmDistros.contains

def recordsFor (lib : Text) (identity : PackageIdentity) (p : Provider)
    (selected : Option (List AdvisoryRecord)) : String × List AdvisoryRecord :=
  match selected with
  | some records => (identity.name, records)
  | none =>
    if onRpmDistro identity.distro then
      if (selectRecords lib identity p).2.isSome then ("", [])
      else (identity.name, (selectRecords lib identity p).1)
    else firstCovered identity p

/-- `evaluate_package`: every row one installed package produces. -/
def evaluatePackage (identity : PackageIdentity) (provider : Option Provider)
    (selected : Option (List AdvisoryRecord)) : Except ParseError (List MatchCandidate) :=
  match provider with
  | none => .ok []
  | some p =>
    if identity.matchable = false ∨ p.available = false then .ok []
    else
      evaluateRecords lib identity p (recordsFor lib.toText identity p selected).1
        (recordsFor lib.toText identity p selected).2

end Evaluate

section Result

structure DeviceMatchResult where
  deviceId : String
  snapshotId : Option String
  distro : Option String
  distroRelease : Option String
  candidates : List MatchCandidate
  packagesTotal : ℕ
  packagesAssessed : ℕ
  packagesUnassessed : ℕ
deriving DecidableEq

structure MatchDevice where
  deviceId : Option String
  osFamily : Option String
  osName : Option String
  osVersion : Option String
  latestSnapshotId : Option String

/-- A `dict` from keys to rows. -/
abbrev ByCve := Table (Prod.fst : String × MatchCandidate → String)

/-- One candidate into the dict: kept beside, or collapsed with, what its key holds. -/
def collapse (key : String) (c : MatchCandidate) :
    Change (Prod.fst : String × MatchCandidate → String) where
  target := key
  fresh := (key, c)
  update entry := (entry.1, worse entry.2 c)
  fresh_key := rfl
  update_key _ := rfl

/-- `by_cve[key] = c`. -/
def assign (key : String) (c : MatchCandidate) :
    Change (Prod.fst : String × MatchCandidate → String) where
  target := key
  fresh := (key, c)
  update entry := (entry.1, c)
  fresh_key := rfl
  update_key _ := rfl

/-- The key a candidate is collapsed under: its CVE, and its installation where it has one. -/
def candidateKey (c : MatchCandidate) : String :=
  match c.evidence.installation with
  | none => c.cveId
  | some i => c.cveId ++ "|" ++ i.identity

def withInstallation (installation : Option Installation) (c : MatchCandidate) :
    MatchCandidate :=
  match installation, c.evidence with
  | some i, .statement rpm state lookup comparison _ =>
    { c with evidence := .statement rpm state lookup comparison (some i) }
  | _, _ => c

def maxUnknownSamples : ℕ := 25

/-- `sorted(names)[:_MAX_UNKNOWN_SAMPLES]`. -/
def samples (names : List String) : List String :=
  (names.insertionSort (· ≤ ·)).take maxUnknownSamples

end Result

section Linux

variable (lib : OsText)

/-- What a pass makes of one item: rows, or one reason it was not assessed. -/
inductive Outcome where
  | assessed (candidates : List MatchCandidate)
  | unassessed (reason : Reason) (name : String)
deriving DecidableEq

def assess (ctx : DistroContext) (provider : Option Provider) (item : SoftwareItem) :
    Except ParseError Outcome :=
  match identify lib (text item.name) item.version item.architecture
      (if text item.source = "" then "other" else text item.source) ctx with
  | .error e => .error e
  | .ok identity =>
    if identity.matchable = false then
      .ok (.unassessed (identity.reason.getD .unknownDistro) identity.name)
    else
      match provider, coverageReason provider (text ctx.release) with
      | _, some missing => .ok (.unassessed missing identity.name)
      | none, none => .ok (.unassessed .noAdvisoryData identity.name)
      | some p, none =>
        let selected := selectRecords lib.toText identity p
        if onRpmDistro ctx.distro = true ∧ selected.2.isSome then
          .ok (.unassessed (selected.2.getD .unknownDistro) identity.name)
        else
          match evaluatePackage lib.toVersionText identity (some p)
              (if onRpmDistro ctx.distro then some selected.1 else none) with
          | .error e => .error e
          | .ok candidates =>
            .ok (.assessed (candidates.map (withInstallation item.installation)))

structure Tally where
  byCve : ByCve
  unassessed : List (Reason × String)
  assessed : ℕ

def Tally.empty : Tally where
  byCve := .empty _
  unassessed := []
  assessed := 0

def Tally.add (t : Tally) : Outcome → Tally
  | .unassessed reason name => { t with unassessed := t.unassessed ++ [(reason, name)] }
  | .assessed candidates =>
    { t with
      byCve := t.byCve.applyAll (candidates.map fun c => collapse (candidateKey c) c)
      assessed := t.assessed + 1 }

def tally (ctx : DistroContext) (provider : Option Provider) :
    Tally → List SoftwareItem → Except ParseError Tally
  | t, [] => .ok t
  | t, item :: items =>
    match assess lib ctx provider item with
    | .error e => .error e
    | .ok outcome => tally ctx provider (t.add outcome) items

def Tally.names (t : Tally) (reason : Reason) : List String :=
  (t.unassessed.filter fun entry => decide (entry.1 = reason)).map (·.2)

/-- `sorted(unassessed)`: each reason met, once, by its text. -/
def Tally.reasons (t : Tally) : List Reason :=
  (t.unassessed.map (·.1)).dedup.insertionSort fun r r' => r.toText ≤ r'.toText

def unassessedRow (ctx : DistroContext) (provider : Option Provider) (reason : Reason)
    (names : List String) : MatchCandidate where
  cveId := ""
  status := .unknown
  sourcePackage := ""
  installedPackage := if names.length = 1 then names.headD "" else ""
  installedVersion := none
  fixedVersion := none
  advisoryId := none
  advisoryUrl := none
  provider := (provider.map Provider.name).getD ""
  severity := "unknown"
  distro := ctx.distro
  distroRelease := ctx.release
  unknownReason := some reason
  feedDate := provider.bind Provider.feedDate
  evidence := .unassessed reason names.length (samples names)
    (decide (maxUnknownSamples < names.length))

/-- The key of a reason's row: no CVE begins with NUL. -/
def reasonKey (reason : Reason) : String :=
  String.ofList (Char.ofNat 0 :: reason.toText.toList)

def Tally.rows (t : Tally) (ctx : DistroContext) (provider : Option Provider) : ByCve :=
  t.byCve.applyAll (t.reasons.map fun reason =>
    assign (reasonKey reason) (unassessedRow ctx provider reason (t.names reason)))

def matchLinux (providerFor : Option String → Option Provider) (device : MatchDevice)
    (software : List SoftwareItem) : Except ParseError DeviceMatchResult :=
  let ctx := resolveDistro lib device.osFamily device.osName device.osVersion
  let provider := if ctx.supported then providerFor ctx.distro else none
  match tally lib ctx provider .empty software with
  | .error e => .error e
  | .ok t =>
    .ok
      { deviceId := text device.deviceId
        snapshotId := device.latestSnapshotId
        distro := ctx.distro
        distroRelease := ctx.release
        candidates := (t.rows ctx provider).rows.map (·.2)
        packagesTotal := software.length
        packagesAssessed := t.assessed
        packagesUnassessed := t.unassessed.length }

end Linux

section Windows

structure WindowsBuild where
  major : ℤ
  minor : ℤ
  build : ℤ
  ubr : ℤ
deriving DecidableEq

def WindowsBuild.family (b : WindowsBuild) : String :=
  toString b.major ++ "." ++ toString b.minor ++ "." ++ toString b.build

def WindowsBuild.toText (b : WindowsBuild) : String :=
  b.family ++ "." ++ toString b.ubr

structure MsrcRemediation where
  cveId : String
  fixedBuild : WindowsBuild
  kb : String
  product : String
  severity : String
  url : Option String
deriving DecidableEq

structure MsrcDataset where
  remediations : List MsrcRemediation
  feedDate : Option String

def MsrcDataset.available (d : MsrcDataset) : Bool := !d.remediations.isEmpty

def MsrcDataset.families (d : MsrcDataset) : List String :=
  (d.remediations.map fun r => r.fixedBuild.family).dedup

def MsrcDataset.remediationsFor (d : MsrcDataset) (b : WindowsBuild) : List MsrcRemediation :=
  d.remediations.filter fun r => decide (r.fixedBuild.family = b.family)

/-- What build parsing reads besides `int`. -/
structure BuildText extends OsText where
  /-- The groups of `_BUILD_PATTERN`, none where it does not match; the last may be missing. -/
  buildParts : String → Option (String × String × String × Option String)

variable (lib : BuildText)

/-- `int(part or 0)` of the four groups, none where one of them raises. -/
def readParts (parts : String × String × String × Option String) : Option WindowsBuild := do
  let major ← lib.int parts.1
  let minor ← lib.int parts.2.1
  let build ← lib.int parts.2.2.1
  let ubr ← match parts.2.2.2 with
    | none => some 0
    | some part => lib.int part
  return { major := major, minor := minor, build := build, ubr := ubr }

def ntVersions : List (ℤ × ℤ) := [(6, 0), (6, 1), (6, 2), (6, 3), (10, 0)]

def minNtBuild : ℤ := 6000

/-- `parse_build`: none where the text is no Windows build. -/
def parseBuild (value : Option String) : Except ParseError (Option WindowsBuild) :=
  if text value = "" then .ok none
  else
    match lib.buildParts (lib.strip (text value)) with
    | none => .ok none
    | some parts =>
      match readParts lib parts with
      | none => .error .value
      | some b =>
        if ntVersions.contains (b.major, b.minor) && decide (minNtBuild ≤ b.build) then
          .ok (some b)
        else .ok none

/-- Whether the host carries a remediation, and whether only an installed update says so. -/
def carries (installed : WindowsBuild) (kbs : List String) (r : MsrcRemediation) : Bool × Bool :=
  if r.fixedBuild.ubr ≤ installed.ubr then (true, false)
  else if r.kb ≠ "" ∧ kbs.contains r.kb then (true, true)
  else (false, false)

def isKb (item : SoftwareItem) : Bool := decide (lib.lower (text item.source) = "kb")

def installedKbs (software : List SoftwareItem) : List String :=
  (((software.filter (isKb lib)).map fun item => text item.name).filter
    fun kb => decide (lib.strip kb ≠ "")).map fun kb => lib.upper (lib.strip kb)

def products (software : List SoftwareItem) : List String :=
  (software.filter fun item => !isKb lib item).map fun item => text item.name

def msrcProvider : String := "msrc"

def windowsUnknownRow (dataset : MsrcDataset) (release : Option String) (reason : Reason)
    (evidence : Evidence) : MatchCandidate where
  cveId := ""
  status := .unknown
  sourcePackage := ""
  installedPackage := ""
  installedVersion := none
  fixedVersion := none
  advisoryId := none
  advisoryUrl := none
  provider := if dataset.available then msrcProvider else ""
  severity := "unknown"
  distro := some "windows"
  distroRelease := release
  unknownReason := some reason
  feedDate := dataset.feedDate
  evidence := evidence

def windowsRow (device : MatchDevice) (dataset : MsrcDataset) (installed : WindowsBuild)
    (kbs : List String) (r : MsrcRemediation) : MatchCandidate where
  cveId := r.cveId
  status := if (carries installed kbs r).1 then .fixed else .vulnerable
  sourcePackage := if r.product = "" then "windows" else r.product
  installedPackage := if text device.osName = "" then "Windows" else text device.osName
  installedVersion := some installed.toText
  fixedVersion := some r.fixedBuild.toText
  advisoryId := orNone r.kb
  advisoryUrl := r.url
  provider := msrcProvider
  severity := r.severity
  distro := some "windows"
  distroRelease := some installed.family
  unknownReason := none
  feedDate := dataset.feedDate
  evidence := .windowsVerdict installed.toText r.fixedBuild.toText r.kb r.product
    (carries installed kbs r).2

def osRows (device : MatchDevice) (dataset : MsrcDataset) (kbs : List String)
    (installed : Option WindowsBuild) : List MatchCandidate × ℕ :=
  match installed with
  | none =>
    ([windowsUnknownRow dataset none .unparsableOsVersion
      (.windowsUnknown .unparsableOsVersion (text device.osVersion) none)], 0)
  | some b =>
    if dataset.available = false then
      ([windowsUnknownRow dataset (some b.family) .noMsrcData
        (.windowsUnknown .noMsrcData b.toText none)], 0)
    else if (dataset.remediationsFor b).isEmpty then
      ([windowsUnknownRow dataset (some b.family) .unknownWindowsBuild
        (.windowsUnknown .unknownWindowsBuild b.toText (some dataset.families.length))], 0)
    else
      ((((Table.empty (Prod.fst : String × MatchCandidate → String)).applyAll
        ((dataset.remediationsFor b).map fun r =>
          collapse r.cveId (windowsRow device dataset b kbs r))).rows.map (·.2)), 1)

/-- `_match_windows`: the operating system against Microsoft's remediations. -/
def matchWindows (device : MatchDevice) (dataset : MsrcDataset) (software : List SoftwareItem) :
    Except ParseError DeviceMatchResult :=
  match parseBuild lib device.osVersion with
  | .error e => .error e
  | .ok installed =>
    let os := osRows device dataset (installedKbs lib software) installed
    let products := products lib software
    let release := installed.map WindowsBuild.family
    .ok
      { deviceId := text device.deviceId
        snapshotId := device.latestSnapshotId
        distro := some "windows"
        distroRelease := release
        candidates := os.1 ++ if products.isEmpty then [] else
          [windowsUnknownRow dataset release .windowsProduct
            (.unassessed .windowsProduct products.length (samples products)
              (decide (maxUnknownSamples < products.length)))]
        packagesTotal := products.length + 1
        packagesAssessed := os.2
        packagesUnassessed := products.length + (1 - os.2) }

/-- `match_software`: the pure matching pass over one device's software. -/
def matchSoftware (providerFor : Option String → Option Provider) (dataset : MsrcDataset)
    (device : MatchDevice) (software : List SoftwareItem) :
    Except ParseError DeviceMatchResult :=
  if lib.lower (lib.strip (text device.osFamily)) = "windows" then
    matchWindows lib device dataset software
  else matchLinux lib.toOsText providerFor device software

end Windows

end Shapoclyack.SoftwareCveMatch
