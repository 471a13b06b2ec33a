import Shapoclyack.VersionCompare

set_option autoImplicit false

namespace Shapoclyack.PackageIdentities

open VersionCompare

/-- Why a package, a release or an operating system could not be assessed. -/
inductive Reason where
  | noVersion
  | unparsableVersion
  | nonDistroSource
  | unknownDistro
  | unknownRelease
  | unsupportedDistro
  | packageDistroMismatch
  | invalidPackageName
  | windowsProduct
  | unparsableOsVersion
  | noMsrcData
  | unknownWindowsBuild
  | noAdvisoryData
  | advisoryReleaseNotCovered
  | rpmArchitectureUnknown
  | rpmModuleContextRequired
  | rpmPackageNotCovered
  | rpmAdvisoryContextMissing
  | rpmArchitectureNotCovered
  | rpmAdvisoryAmbiguous
deriving DecidableEq, Repr

def Reason.toText : Reason → String
  | .noVersion => "no_version"
  | .unparsableVersion => "unparsable_version"
  | .nonDistroSource => "non_distro_source"
  | .unknownDistro => "unknown_distro"
  | .unknownRelease => "unknown_release"
  | .unsupportedDistro => "unsupported_distro"
  | .packageDistroMismatch => "package_distro_mismatch"
  | .invalidPackageName => "invalid_package_name"
  | .windowsProduct => "windows_product"
  | .unparsableOsVersion => "unparsable_os_version"
  | .noMsrcData => "no_msrc_data"
  | .unknownWindowsBuild => "unknown_windows_build"
  | .noAdvisoryData => "no_advisory_data"
  | .advisoryReleaseNotCovered => "advisory_release_not_covered"
  | .rpmArchitectureUnknown => "rpm_architecture_unknown"
  | .rpmModuleContextRequired => "rpm_module_context_required"
  | .rpmPackageNotCovered => "rpm_package_not_covered"
  | .rpmAdvisoryContextMissing => "rpm_advisory_context_missing"
  | .rpmArchitectureNotCovered => "rpm_architecture_not_covered"
  | .rpmAdvisoryAmbiguous => "rpm_advisory_ambiguous"

theorem Reason.toText_injective {r r' : Reason} (h : r.toText = r'.toText) : r = r' := by
  revert h
  cases r <;> cases r' <;> decide

/-- The regular expressions an operating system is read by. -/
structure OsText extends VersionText where
  /-- `rpm_identity.distro_id`. -/
  distroId : String → Option String
  /-- `rpm_identity.release_id` of a distribution, a version and a name. -/
  releaseId : String → String → String → Option String
  /-- The split of a version or a name at blanks, parentheses, commas and slashes. -/
  tokens : String → List String

section Rpm

def rpmDistros : List String := ["rhel", "sles", "amazonlinux"]

def rpmArches : List String :=
  ["x86_64", "aarch64", "i386", "i486", "i586", "i686", "ppc64", "ppc64le", "s390", "s390x",
    "armv6hl", "armv7hl", "riscv64", "noarch"]

def archAlias (arch : String) : String :=
  if arch = "amd64" then "x86_64" else if arch = "arm64" then "aarch64" else arch

def architecture (lib : Text) (value : Option String) : Option String :=
  let arch := archAlias (lib.lower (lib.strip (text value)))
  if rpmArches.contains arch then some arch else none

def wellFormed (tail : Char → Bool) (cs : List Char) : Bool :=
  match cs with
  | [] => false
  | c :: cs => isAlnum c && cs.all fun d => isAlnum d || tail d

def validName (value : String) : Bool :=
  wellFormed (fun c => c == '+' || c == '.' || c == '_' || c == '-') value.toList &&
    decide (value.toList.length ≤ 255)

def evrChar (c : Char) : Bool :=
  c == '.' || c == '+' || c == '_' || c == '~' || c == '^'

def dropEpoch (value : String) : String :=
  match partition ':' value with
  | none => value
  | some (head, tail) =>
    if head.toList.all Char.isDigit && decide (1 ≤ head.toList.length) &&
        decide (head.toList.length ≤ 10) then tail
    else value

/-- `value.rsplit(".", 1)[-1]`. -/
def lastDotted (value : String) : String :=
  String.ofList (value.toList.rtakeWhile (· != '.'))

/-- `rpm_identity.valid_evr`: a whole version-release, and no package file name. -/
def validEvr (value : String) : Bool :=
  decide (value.toList.length ≤ 256) &&
    (match partition '-' (dropEpoch value) with
      | none => false
      | some (version, release) =>
        wellFormed evrChar version.toList && wellFormed evrChar release.toList) &&
    !("src" :: "nosrc" :: rpmArches).contains (lastDotted value)

end Rpm

section Distro

/-- The OS half of an identity, resolved once per device. -/
structure DistroContext where
  distro : Option String
  release : Option String
  supported : Bool
  reason : Option Reason
deriving DecidableEq

def ubuntuCodenames : List (String × String) :=
  [("14.04", "trusty"), ("16.04", "xenial"), ("18.04", "bionic"), ("20.04", "focal"),
    ("22.04", "jammy"), ("23.04", "lunar"), ("23.10", "mantic"), ("24.04", "noble"),
    ("24.10", "oracular"), ("25.04", "plucky"), ("25.10", "questing")]

def debianCodenames : List (String × String) :=
  [("8", "jessie"), ("9", "stretch"), ("10", "buster"), ("11", "bullseye"), ("12", "bookworm"),
    ("13", "trixie"), ("14", "forky")]

def codenames (distro : String) : List (String × String) :=
  if distro = "ubuntu" then ubuntuCodenames else debianCodenames

def knownCodenames (distro : String) : List String :=
  (codenames distro).map (·.2) ++ if distro = "ubuntu" then [] else ["sid", "unstable"]

def otherDistroHints : List (String × String) :=
  [("linux mint", "linuxmint"), ("pop!_os", "pop_os"), ("raspbian", "raspbian"),
    ("kali", "kali"), ("red hat", "rhel"), ("rhel", "rhel"), ("centos", "centos"),
    ("rocky", "rocky"), ("almalinux", "almalinux"), ("fedora", "fedora"),
    ("amazon linux", "amazonlinux"), ("opensuse", "opensuse"), ("suse", "sles"),
    ("oracle linux", "oraclelinux")]

/-- `needle in text`. -/
def isIn (needle value : String) : Bool :=
  decide (needle.toList <:+: value.toList)

/-- `token.split(".")`. -/
def dotted (token : String) : List String :=
  (token.toList.splitOn '.').map String.ofList

variable (lib : OsText)

def normalize (value : Option String) : String :=
  lib.lower (lib.strip (text value))

def tokenRelease (distro token : String) : Option String :=
  let token := stripChars (· == '.') (lib.strip token)
  let table := codenames distro
  if token = "" then none
  else if (knownCodenames distro).contains token then some token
  else
    match table.lookup token with
    | some name => some name
    | none =>
      match dotted token with
      | major :: minor :: _ =>
        if distro = "ubuntu" then table.lookup (major ++ "." ++ minor)
        else if distro = "debian" then table.lookup major
        else none
      | [major] => if distro = "debian" then table.lookup major else none
      | [] => none

def resolveRelease (distro value : String) : Option String :=
  if value = "" then none
  else (lib.tokens value).findSome? (tokenRelease lib distro)

/-- `resolve_distro`: a device's OS strings as a distribution and a release. -/
def resolveDistro (osFamily osName osVersion : Option String) : DistroContext :=
  let family := normalize lib osFamily
  let name := normalize lib osName
  let version := normalize lib osVersion
  if family ≠ "" ∧ family ≠ "linux" then
    { distro := none, release := none, supported := false, reason := some .unsupportedDistro }
  else
    match lib.distroId name with
    | some rpmDistro =>
      let release := lib.releaseId rpmDistro version name
      { distro := some rpmDistro
        release := release
        supported := release.isSome
        reason := if release.isSome then none else some .unknownRelease }
    | none =>
      let known := if isIn "ubuntu" name then some "ubuntu"
        else if isIn "debian" name then some "debian" else none
      match known with
      | some distro =>
        match (resolveRelease lib distro version).or (resolveRelease lib distro name) with
        | none =>
          { distro := some distro
            release := none
            supported := false
            reason := some .unknownRelease }
        | some release =>
          { distro := some distro, release := some release, supported := true, reason := none }
      | none =>
        match otherDistroHints.find? (fun hint => isIn hint.1 name) with
        | some hint =>
          { distro := some hint.2
            release := none
            supported := false
            reason := some .unsupportedDistro }
        | none =>
          { distro := none, release := none, supported := false, reason := some .unknownDistro }

end Distro

section Candidates

def binarySuffixes : List String :=
  ["-dev", "-dbg", "-dbgsym", "-doc", "-common", "-data", "-bin", "-utils", "-tools", "-server",
    "-client"]

def stemChar (c : Char) : Bool :=
  c.isLower || c.isDigit || c == '+' || c == '.' || c == '-'

/-- The SONAME decoration: dotted numbers, then at most one dashed word. -/
def isSoversion (rest : List Char) : Bool :=
  let numbers := (rest.takeWhile (· != '-')).splitOn '.'
  let word := rest.dropWhile (· != '-')
  numbers.all (fun n => !n.isEmpty && n.all Char.isDigit) &&
    (word.isEmpty || (!(word.drop 1).isEmpty &&
      (word.drop 1).all fun c => c.isLower || c.isDigit))

/-- What `_SOVERSION_RE` captures: the shortest `lib…` stem a SONAME follows. -/
def soversionStem (base : String) : Option String :=
  if startsWith "lib" base then
    let cs := base.toList
    ((List.range (cs.length + 1)).find? fun k =>
      decide (3 ≤ k) && ((cs.take k).drop 3).all stemChar && isSoversion (cs.drop k)).map
        fun k => String.ofList (cs.take k)
  else none

/-- `source_package_candidates`: the package's own name, then its stripped form. -/
def sourcePackageCandidates (lib : OsText) (name : String) (flavor : Option Flavor) :
    List String :=
  let base := if flavor = some .rpm then lib.strip name else normalize lib (some name)
  if base = "" then []
  else if flavor ≠ some .deb then [base]
  else
    match binarySuffixes.find? (fun suffix =>
        suffix.toList.isSuffixOf base.toList &&
          decide (suffix.toList.length + 1 < base.toList.length)) with
    | some suffix =>
      [base, String.ofList (base.toList.take (base.toList.length - suffix.toList.length))]
    | none =>
      match soversionStem base with
      | none => [base]
      | some stem =>
        let stripped := String.ofList (stem.toList.rdropWhile (· == '-'))
        if stripped ≠ "" ∧ stripped ≠ "lib" then [base, stripped].dedup else [base]

end Candidates

section Identify

/-- One installed package, named the way an advisory names it. -/
structure PackageIdentity where
  name : String
  version : Option String
  architecture : Option String
  source : String
  flavor : Option Flavor
  distro : Option String
  distroRelease : Option String
  sourcePackageCandidates : List String
  matchable : Bool
  reason : Option Reason
  evr : Option Evr

def sourceFlavor (source : String) : Option Flavor :=
  if source = "apt" ∨ source = "dpkg" then some .deb
  else if source = "rpm" then some .rpm
  else none

variable (lib : OsText)

def readVersion (version : Option String) (flavor : Option Flavor) :
    Except ParseError (Option Evr × Option Reason) :=
  if lib.strip (text version) = "" then .ok (none, some .noVersion)
  else if flavor = some .rpm ∧ validEvr (lib.strip (text version)) = false then
    .ok (none, some .unparsableVersion)
  else
    match flavor with
    | none => .ok (none, none)
    | some flavor =>
      match parseEvr lib.toVersionText (text version) flavor with
      | .ok evr => .ok (some evr, none)
      | .error .versionParse => .ok (none, some .unparsableVersion)
      | .error .value => .error .value

/-- The first thing missing, from the package outward to the OS. -/
def identityReason (flavor : Option Flavor) (versionReason : Option Reason) (ctx : DistroContext)
    (name : String) : Option Reason :=
  if flavor = none then some .nonDistroSource
  else if versionReason.isSome then versionReason
  else if ctx.supported = false then some (ctx.reason.getD .unknownDistro)
  else if name = "" ∨ (flavor = some .rpm ∧ validName name = false) then
    some .invalidPackageName
  else if (ctx.distro.any rpmDistros.contains) ≠ decide (flavor = some .rpm) then
    some .packageDistroMismatch
  else none

/-- `identify`: canonical identity for one inventory software record. -/
def identify (name : String) (version architecture : Option String) (source : String)
    (ctx : DistroContext) : Except ParseError PackageIdentity :=
  let source := if normalize lib (some source) = "" then "other" else normalize lib (some source)
  let flavor := sourceFlavor source
  let cleanName := if flavor = some .rpm then lib.strip name else normalize lib (some name)
  match readVersion lib version flavor with
  | .error e => .error e
  | .ok (evr, versionReason) =>
    let reason := identityReason flavor versionReason ctx cleanName
    .ok
      { name := cleanName
        version := version
        architecture := architecture
        source := source
        flavor := flavor
        distro := ctx.distro
        distroRelease := ctx.release
        sourcePackageCandidates := sourcePackageCandidates lib cleanName flavor
        matchable := reason.isNone
        reason := reason
        evr := evr }

end Identify

example : soversionStem "libssl1.1" = some "libssl" := by decide +kernel

end Shapoclyack.PackageIdentities
