import Mathlib.Data.List.Sort
import Shapoclyack.PackageIdentities

set_option autoImplicit false

namespace Shapoclyack.Advisories

open VersionCompare PackageIdentities

inductive AdvisoryState where
  | resolved
  | open_
  | notAffected
deriving DecidableEq, Repr

def AdvisoryState.ofText (state : String) : Option AdvisoryState :=
  if state = "resolved" then some .resolved
  else if state = "open" then some .open_
  else if state = "not_affected" then some .notAffected
  else none

structure RpmContext where
  architecture : String
  productId : String
  sourceSha256 : String
  sourceUrl : String
  sourceUpdated : String
deriving DecidableEq

/-- One distribution statement about one source package in one release. -/
structure AdvisoryRecord where
  advisoryId : String
  cveIds : List String
  release : String
  sourcePackage : String
  fixedVersion : Option String
  severity : String
  state : AdvisoryState
  url : Option String
  provider : String
  feedDate : Option String
  rpm : Option RpmContext
deriving DecidableEq

section Coerce

/-- A dataset entry as its JSON object carries it, scalars as `str` spells them. -/
structure RawEntry where
  release : Option String
  sourcePackage : Option String
  /-- A lone string is a list of one, none where it is neither. -/
  cveIds : Option (List String)
  state : Option String
  fixedVersion : Option String
  advisoryId : Option String
  severity : Option String
  url : Option String

variable (lib : Text)

/-- `sorted({str(cve).strip().upper() …})`. -/
def coerceCves (cves : List String) : List String :=
  (((cves.map lib.strip).filter (· ≠ "")).map lib.upper).dedup.insertionSort (· ≤ ·)

/-- A fix without a version is none: the release is read as open. -/
def coerceState (state : AdvisoryState) (fixedVersion : Option String) : AdvisoryState :=
  if state = .resolved ∧ text fixedVersion = "" then .open_ else state

/-- `_coerce_record`: one dataset entry as a record, none where it is unusable. -/
def coerceRecord (provider : String) (feedDate : Option String) (raw : RawEntry) :
    Option AdvisoryRecord :=
  let release := lib.lower (lib.strip (text raw.release))
  let sourcePackage := lib.lower (lib.strip (text raw.sourcePackage))
  if release = "" ∨ sourcePackage = "" then none
  else
    match raw.cveIds with
    | none => none
    | some cveIds =>
      match coerceCves lib cveIds with
      | [] => none
      | cve :: cves =>
        let named := if text raw.state = "" then "resolved" else text raw.state
        match AdvisoryState.ofText (lib.lower (lib.strip named)) with
        | none => none
        | some state =>
          let fixedVersion := if text raw.fixedVersion = "" then none
            else some (lib.strip (text raw.fixedVersion))
          let state := coerceState state fixedVersion
          let severity := lib.lower (lib.strip
            (if text raw.severity = "" then "unknown" else text raw.severity))
          some
            { advisoryId := lib.strip
                (if text raw.advisoryId = "" then cve else text raw.advisoryId)
              cveIds := cve :: cves
              release := release
              sourcePackage := sourcePackage
              fixedVersion := if state = .resolved then fixedVersion else none
              severity := if severity = "" then "unknown" else severity
              state := state
              url := (orNone (text raw.url)).map lib.strip
              provider := provider
              feedDate := feedDate
              rpm := none }

def AdvisoryRecord.Coherent (r : AdvisoryRecord) : Prop :=
  r.state = .resolved ↔ text r.fixedVersion ≠ ""

theorem coerceRecord_coherent {provider : String} {feedDate : Option String} {raw : RawEntry}
    {r : AdvisoryRecord} (h : coerceRecord lib provider feedDate raw = some r) : r.Coherent := by
  unfold coerceRecord at h
  simp only at h
  split at h
  case isTrue => cases h
  case isFalse =>
    split at h
    case h_1 => cases h
    case h_2 =>
      split at h
      case h_1 => cases h
      case h_2 =>
        split at h
        case h_1 => cases h
        case h_2 state _ =>
          generalize (if text raw.fixedVersion = "" then none
            else some (lib.strip (text raw.fixedVersion))) = fixedVersion at h
          rw [← Option.some.inj h]
          unfold AdvisoryRecord.Coherent coerceState
          by_cases hresolved : state = .resolved ∧ text fixedVersion = ""
          · simp only [if_pos hresolved]
            simp [text]
          · by_cases hstate : state = .resolved
            · have hfixed : text fixedVersion ≠ "" := fun hempty => hresolved ⟨hstate, hempty⟩
              simp [hstate, hfixed]
            · simp [hstate, text]

end Coerce

section Provider

/-- A distribution's advisory source, pinned to one dataset. -/
structure Provider where
  name : String
  available : Bool
  feedDate : Option String
  releases : List String
  /-- The records of a release and a source package, in the order the dataset has them. -/
  advisoriesFor : String → String → List AdvisoryRecord

/-- `coverage_reason`: a missing feed or release is unknown, not a clean package. -/
def coverageReason (provider : Option Provider) (release : String) : Option Reason :=
  match provider with
  | none => some .noAdvisoryData
  | some p =>
    if p.available = false then some .noAdvisoryData
    else if p.releases.contains release then none
    else some .advisoryReleaseNotCovered

def ofModule (version : Option String) : Bool :=
  isIn ".module" (text version)

def ambiguous (records : List AdvisoryRecord) : Bool :=
  records.any fun r => records.any fun s =>
    decide (r.fixedVersion ≠ s.fixedVersion) && r.cveIds.any s.cveIds.contains

/-- `select_records`: the records about this very binary, or why there is none to trust. -/
def selectRecords (lib : Text) (identity : PackageIdentity) (p : Provider) :
    List AdvisoryRecord × Option Reason :=
  match PackageIdentities.architecture lib identity.architecture with
  | none => ([], some .rpmArchitectureUnknown)
  | some arch =>
    if ofModule identity.version then ([], some .rpmModuleContextRequired)
    else
      let records := p.advisoriesFor (text identity.distroRelease) identity.name
      if records.isEmpty then ([], some .rpmPackageNotCovered)
      else if records.any (fun r => r.rpm.isNone) then ([], some .rpmAdvisoryContextMissing)
      else
        let selected := records.filter fun r => r.rpm.any fun c => decide (c.architecture = arch)
        if selected.isEmpty then ([], some .rpmArchitectureNotCovered)
        else if selected.any (fun r => ofModule r.fixedVersion) then
          ([], some .rpmModuleContextRequired)
        else if ambiguous selected then ([], some .rpmAdvisoryAmbiguous)
        else (selected, none)

end Provider

end Shapoclyack.Advisories
