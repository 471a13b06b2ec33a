import Shapoclyack.Advisories

set_option autoImplicit false

namespace Shapoclyack.RetroMatch

open Advisories PackageIdentities VersionCompare

inductive Verdict where
  | vulnerable
  | fixed
  | notAffected
  | possible
  | unfixed
deriving DecidableEq, Repr

inductive Confidence where
  | vendorAdvisory
  | versionRange
  | backportPossible
deriving DecidableEq, Repr

/-- What a banner gives away about the packaging behind a listener. -/
structure DistroHint where
  distro : Option String
  release : Option String
  revision : Option String
deriving DecidableEq

def DistroHint.visible (h : DistroHint) : Bool := h.distro.isSome

/-- What a scan recorded about one listener. -/
structure Fingerprint where
  product : String
  version : String
  banner : String
  cpe : List String
  service : String
  distro : String
  distroRevision : String

structure CpeRange where
  cve : String
  exact : Option String
  startIncluding : Option String
  startExcluding : Option String
  endIncluding : Option String
  endExcluding : Option String
deriving DecidableEq

structure RetroText extends OsText where
  /-- `_TOKEN_RE.findall`: the runs of digits and of letters. -/
  versionTokens : String → List String
  /-- The version in front of a portable patch level. -/
  portablePatch : String → Option String
  isalpha : Char → Bool
  /-- The major and minor number a version starts with. -/
  seriesOf : String → Option (String × String)
  /-- `product_keys`: keys, where they came from, and the CPE's version. -/
  productKeys : Fingerprint → (String → Bool) → List String × String × Option String
  /-- The banner names a product that only answers like one of the keys. -/
  lookalike : Fingerprint → List String → Option String → Bool
  /-- `upstream_version` of keys, a CPE version and where they came from. -/
  upstreamVersion : Fingerprint → List String → Option String → String → Option String
  /-- `_banner_own_hint`. -/
  bannerOwnHint : Fingerprint → List String → Option String → DistroHint
  /-- `_release_of`: the release a revision, or the text around it, pins. -/
  releaseOf : String → Option String → String → Option String

variable (lib : RetroText)

section Upstream

abbrev VersionElement := ℕ × ℤ × String

def endElement : VersionElement := (1, 0, "")

def zeroElement : VersionElement := (3, 0, "")

def preRelease : List (String × ℤ) :=
  [("dev", 0), ("alpha", 1), ("beta", 2), ("pre", 3), ("preview", 3), ("rc", 4)]

def preLetters : List (String × ℤ) := [("a", 1), ("b", 2)]

def elementsOf : List String → List VersionElement
  | [] => []
  | token :: rest =>
    let element :=
      if lib.isdigit token then (3, (lib.int token).getD 0, "")
      else
        match preRelease.lookup token with
        | some n => (0, n, token)
        | none =>
          match preLetters.lookup token, rest with
          | some n, next :: _ => if lib.isdigit next then (0, n, token) else (2, 0, token)
          | _, _ => (2, 0, token)
    element :: elementsOf rest

/-- `_version_key`. -/
def upstreamKey (raw : String) : List VersionElement :=
  let value := lib.lower (lib.strip raw)
  let value := if startsWith "v" value && lib.isdigit (clip 1 (dropHead "v" value)) then
    dropHead "v" value else value
  elementsOf lib (lib.versionTokens value)

/-- Elements compared as Python's tuples, a missing one equal to a zero alone. -/
def compareElement (x y : VersionElement) : Ordering :=
  if (x = endElement ∧ y = zeroElement) ∨ (x = zeroElement ∧ y = endElement) then .eq
  else (compare x.1 y.1).then ((compare x.2.1 y.2.1).then (compare x.2.2 y.2.2))

def compareElements : List VersionElement → List VersionElement → Ordering
  | [], [] => .eq
  | x :: xs, [] => (compareElement x endElement).then (compareElements xs [])
  | [], y :: ys => (compareElement endElement y).then (compareElements [] ys)
  | x :: xs, y :: ys => (compareElement x y).then (compareElements xs ys)
termination_by xs ys => xs.length + ys.length

def compareUpstream (left right : String) : Ordering :=
  compareElements (upstreamKey lib left) (upstreamKey lib right)

/-- `_against`: the version as NVD would compare it with a bound. -/
def against (version bound : String) : String :=
  match lib.portablePatch (lib.strip version) with
  | none => version
  | some bare => if bound.toList.any lib.isalpha then version else bare

def satisfies (version : String) (bound : Option String) (ok : Ordering → Bool) : Bool :=
  let bound := text bound
  bound = "" || ok (compareUpstream lib (against lib version bound) bound)

/-- `in_range`: does a statement's window cover a version? -/
def inRange (version : String) (s : CpeRange) : Bool :=
  if text s.exact ≠ "" then compareUpstream lib version (text s.exact) == .eq
  else
    satisfies lib version s.startIncluding (· != .lt) &&
      satisfies lib version s.startExcluding (· == .gt) &&
      satisfies lib version s.endIncluding (· != .gt) &&
      satisfies lib version s.endExcluding (· == .lt)

end Upstream

section Packages

def sourcePackagesTable : List (String × List String) :=
  [("a:openbsd:openssh", ["openssh"]), ("a:apache:http_server", ["apache2"]),
    ("a:f5:nginx", ["nginx"]), ("a:nginx:nginx", ["nginx"]),
    ("a:f5:nginx_open_source", ["nginx"]), ("a:openssl:openssl", ["openssl"]),
    ("a:vsftpd_project:vsftpd", ["vsftpd"]), ("a:proftpd:proftpd", ["proftpd-dfsg"]),
    ("a:exim:exim", ["exim4"]), ("a:lighttpd:lighttpd", ["lighttpd"]),
    ("a:postfix:postfix", ["postfix"]), ("a:dropbear_ssh_project:dropbear_ssh", ["dropbear"]),
    ("a:matt_johnston:dropbear_ssh_server", ["dropbear"]), ("a:isc:bind", ["bind9"]),
    ("a:thekelleys:dnsmasq", ["dnsmasq"]), ("a:samba:samba", ["samba"]),
    ("a:redis:redis", ["redis"]), ("a:redislabs:redis", ["redis"]),
    ("a:sendmail:sendmail", ["sendmail"]), ("a:dovecot:dovecot", ["dovecot"]),
    ("a:pureftpd:pure-ftpd", ["pure-ftpd"]), ("a:memcached:memcached", ["memcached"]),
    ("a:squid-cache:squid", ["squid", "squid3"]), ("a:haproxy:haproxy", ["haproxy"]),
    ("a:nlnetlabs:unbound", ["unbound"]), ("a:powerdns:authoritative_server", ["pdns"]),
    ("a:powerdns:authoritative", ["pdns"]), ("a:powerdns:recursor", ["pdns-recursor"]),
    ("a:libssh:libssh", ["libssh"])]

def seriesSourcePackage (productKey major minor : String) : Option String :=
  if productKey = "a:oracle:mysql" ∨ productKey = "a:mysql:mysql" then
    some ("mysql-" ++ major ++ "." ++ minor)
  else if productKey = "a:mariadb:mariadb" then some ("mariadb-" ++ major ++ "." ++ minor)
  else if productKey = "a:php:php" then some ("php" ++ major ++ "." ++ minor)
  else none

def seriesProducts : List String :=
  ["a:oracle:mysql", "a:mysql:mysql", "a:mariadb:mariadb", "a:php:php"]

def sharedSourcePackage (productKey : String) : Option String :=
  if productKey = "a:mariadb:mariadb" then some "mariadb" else none

/-- Products whose server builds come overwhelmingly from a distribution. -/
def distroPackaged : List String := sourcePackagesTable.map (·.1) ++ seriesProducts

/-- `source_packages`: the source packages that build an upstream version of a product. -/
def sourcePackages (productKey upstream : String) : List String :=
  (sourcePackagesTable.lookup productKey).getD [] ++
    match lib.seriesOf upstream with
    | none => []
    | some series => (seriesSourcePackage productKey series.1 series.2).toList

/-- `_fixed_upstream`: the upstream part of a fixed version, none where it is no version. -/
def fixedUpstream (fixedVersion : String) : Except ParseError (Option String) :=
  match parseEvr lib.toVersionText fixedVersion .deb with
  | .ok evr => .ok (some evr.version)
  | .error .versionParse => .ok none
  | .error .value => .error .value

def newestFix : Option String → List AdvisoryRecord → Except ParseError (Option String)
  | newest, [] => .ok newest
  | newest, r :: rs =>
    if text r.fixedVersion = "" then newestFix newest rs
    else
      match fixedUpstream lib (text r.fixedVersion) with
      | .error e => .error e
      | .ok none => newestFix newest rs
      | .ok (some fixed) =>
        match newest with
        | none => newestFix (some fixed) rs
        | some old =>
          newestFix (if compareUpstream lib fixed old = .gt then some fixed else some old) rs

/-- `_ships_series`: does a release build an upstream version's series from a package? -/
def shipsSeries (p : Provider) (release package upstream : String) : Except ParseError Bool :=
  match lib.seriesOf upstream with
  | none => .ok false
  | some series =>
    match newestFix lib none (p.advisoriesFor release package) with
    | .error e => .error e
    | .ok none => .ok false
    | .ok (some newest) => .ok (decide (lib.seriesOf newest = some series))

def fixesUpstream (upstream : String) : List AdvisoryRecord → Except ParseError Bool
  | [] => .ok false
  | r :: rs =>
    if text r.fixedVersion = "" then fixesUpstream upstream rs
    else
      match fixedUpstream lib (text r.fixedVersion) with
      | .error e => .error e
      | .ok fixed =>
        if compareUpstream lib (text fixed) upstream = .eq then .ok true
        else fixesUpstream upstream rs

def anyPackage (p : Provider) (release upstream : String) :
    List String → Except ParseError Bool
  | [] => .ok false
  | package :: packages =>
    match fixesUpstream lib upstream (p.advisoriesFor release package) with
    | .error e => .error e
    | .ok true => .ok true
    | .ok false => anyPackage p release upstream packages

/-- `_releases_shipping`: the releases whose records fix a build of an upstream version. -/
def releasesShipping (p : Provider) (packages : List String) (upstream : String) :
    List String → Except ParseError (List String)
  | [] => .ok []
  | release :: releases =>
    match anyPackage lib p release upstream packages with
    | .error e => .error e
    | .ok ships =>
      match releasesShipping p packages upstream releases with
      | .error e => .error e
      | .ok rest => .ok (if ships then release :: rest else rest)

end Packages

section Judge

structure VendorEvidence where
  release : Option String
  record : Option AdvisoryRecord
  installedVersion : Option String
  reason : Option String
  releases : List String
deriving DecidableEq

def VendorEvidence.none_ : VendorEvidence where
  release := none
  record := none
  installedVersion := none
  reason := none
  releases := []

def advisoryEvidence (r : AdvisoryRecord) : VendorEvidence :=
  { VendorEvidence.none_ with release := some r.release, record := some r }

def because (reason : String) : VendorEvidence :=
  { VendorEvidence.none_ with reason := some reason }

/-- `_installed_evr`: the installed version rebuilt from what the banner discloses. -/
def installedEvr (upstream revision fixedVersion : String) : Except ParseError String :=
  match parseEvr lib.toVersionText fixedVersion .deb with
  | .error .value => .error .value
  | .error .versionParse => .ok (upstream ++ "-" ++ revision)
  | .ok evr =>
    let head := if evr.epoch = 0 then upstream else toString evr.epoch ++ ":" ++ upstream
    .ok (head ++ "-" ++ revision)

/-- The latest fix among the records of one CVE; what cannot be compared is passed over. -/
def latestFix : AdvisoryRecord → List AdvisoryRecord → Except ParseError AdvisoryRecord
  | record, [] => .ok record
  | record, other :: rest =>
    match compareDpkgVersion lib.toVersionText (text other.fixedVersion)
        (text record.fixedVersion) with
    | .error .value => .error .value
    | .error .versionParse => latestFix record rest
    | .ok order => latestFix (if order = .gt then other else record) rest

def resolvedRecords (records : List AdvisoryRecord) : List AdvisoryRecord :=
  records.filter fun r => decide (r.state = .resolved) && decide (text r.fixedVersion ≠ "")

/-- The verdict on a build whose package revision is known. -/
def judgeRevision (record : AdvisoryRecord) (upstream revision : String) :
    Except ParseError (Verdict × VendorEvidence) :=
  match installedEvr lib upstream revision (text record.fixedVersion) with
  | .error e => .error e
  | .ok installed =>
    let evidence := { advisoryEvidence record with installedVersion := some installed }
    match isFixed lib.toVersionText installed (text record.fixedVersion) .deb with
    | .error .value => .error .value
    | .error .versionParse =>
      .ok (.possible, { evidence with reason := some "unparsable_version" })
    | .ok fixedNow => .ok (if fixedNow then .fixed else .vulnerable, evidence)

/-- The verdict on a build whose package revision is not disclosed. -/
def judgeUpstream (record : AdvisoryRecord) (upstream : String) :
    Except ParseError (Verdict × VendorEvidence) :=
  let evidence := advisoryEvidence record
  match fixedUpstream lib (text record.fixedVersion) with
  | .error e => .error e
  | .ok none => .ok (.possible, { evidence with reason := some "unparsable_fixed_version" })
  | .ok (some fixed) =>
    match compareDpkgVersion lib.toVersionText upstream fixed with
    | .error .value => .error .value
    | .error .versionParse =>
      .ok (.possible, { evidence with reason := some "unparsable_version" })
    | .ok .lt => .ok (.vulnerable, evidence)
    | .ok .gt => .ok (.fixed, evidence)
    | .ok .eq => .ok (.possible, { evidence with reason := some "revision_not_disclosed" })

/-- `_judge_release`: one release's verdict on one CVE, from that release's records. -/
def judgeRelease (records : List AdvisoryRecord) (upstream : String) (revision : Option String) :
    Except ParseError (Verdict × VendorEvidence) :=
  match records with
  | [] => .ok (.possible, because "no_vendor_statement")
  | first :: _ =>
    match records.find? fun r => decide (r.state = .open_) with
    | some r => .ok (.unfixed, advisoryEvidence r)
    | none =>
      match resolvedRecords records with
      | [] => .ok (.notAffected, advisoryEvidence first)
      | record :: others =>
        match latestFix lib record others with
        | .error e => .error e
        | .ok record =>
          if text revision = "" then judgeUpstream lib record upstream
          else judgeRevision lib record upstream (text revision)

end Judge

section Vendor

def packagesIn (p : Provider) (productKey upstream release : String) :
    Except ParseError (List String) :=
  match sharedSourcePackage productKey with
  | none => .ok (sourcePackages lib productKey upstream)
  | some shared =>
    match shipsSeries lib p release shared upstream with
    | .error e => .error e
    | .ok ships =>
      .ok (sourcePackages lib productKey upstream ++ if ships then [shared] else [])

def recordsOn (p : Provider) (release cve : String) (packages : List String) :
    List AdvisoryRecord :=
  packages.flatMap fun package =>
    (p.advisoriesFor release package).filter fun r => r.cveIds.contains cve

def sharing (p : Provider) (shared upstream : String) (known : List String) :
    List String → Except ParseError (List String)
  | [] => .ok []
  | release :: releases =>
    if known.contains release then sharing p shared upstream known releases
    else
      match shipsSeries lib p release shared upstream with
      | .error e => .error e
      | .ok ships =>
        match sharing p shared upstream known releases with
        | .error e => .error e
        | .ok rest => .ok (if ships then release :: rest else rest)

/-- The releases a listener may be running: the one it names, else those its version identifies. -/
def consideredReleases (p : Provider) (hint : DistroHint) (productKey upstream : String) :
    Except ParseError (List String) :=
  if text hint.release ≠ "" then .ok [text hint.release]
  else
    match releasesShipping lib p (sourcePackages lib productKey upstream) upstream p.releases with
    | .error e => .error e
    | .ok releases =>
      match sharedSourcePackage productKey with
      | none => .ok releases
      | some shared =>
        match releasesShipping lib p [shared] upstream p.releases with
        | .error e => .error e
        | .ok candidates =>
          match sharing lib p shared upstream releases candidates with
          | .error e => .error e
          | .ok more => .ok (releases ++ more)

def releaseVerdicts (p : Provider) (hint : DistroHint) (productKey cve upstream : String) :
    List String → Except ParseError (List (Verdict × VendorEvidence))
  | [] => .ok []
  | release :: releases =>
    match packagesIn lib p productKey upstream release with
    | .error e => .error e
    | .ok packages =>
      match judgeRelease lib (recordsOn p release cve packages) upstream hint.revision with
      | .error e => .error e
      | .ok (verdict, evidence) =>
        match releaseVerdicts p hint productKey cve upstream releases with
        | .error e => .error e
        | .ok rest =>
          .ok ((verdict, { evidence with release := some (evidence.release.getD release) }) :: rest)

/-- `vendor_verdict`: what the distribution says about a CVE on this build. -/
def vendorVerdict (lookup : String → Option Provider) (hint : DistroHint)
    (productKey cve upstream : String) : Except ParseError (Verdict × VendorEvidence) :=
  match lookup (text hint.distro) with
  | none => .ok (.possible, because "no_advisory_provider")
  | some p =>
    if p.available = false then .ok (.possible, because "no_advisory_provider")
    else if (sourcePackages lib productKey upstream).isEmpty ∧
        sharedSourcePackage productKey = none then
      .ok (.possible, because "no_source_package")
    else
      match consideredReleases lib p hint productKey upstream with
      | .error e => .error e
      | .ok releases =>
        if releases.isEmpty then .ok (.possible, because "release_not_identified")
        else
          match releaseVerdicts lib p hint productKey cve upstream releases with
          | .error e => .error e
          | .ok [] => .ok (.possible, because "release_not_identified")
          | .ok (first :: rest) =>
            if rest.all fun v => decide (v.1 = first.1) then .ok first
            else
              .ok (.possible, { because "releases_disagree" with
                releases := (first :: rest).filterMap (fun v => v.2.release) })

end Vendor

section Hints

/-- `_structured_hint`: the scanner's own fields as a hint, none when unset. -/
def structuredHint (f : Fingerprint) : Option DistroHint :=
  let distro := lib.lower (lib.strip f.distro)
  if distro = "" then none
  else
    let revision := orNone (lib.strip f.distroRevision)
    some
      { distro := some distro
        release := lib.releaseOf distro revision (text revision)
        revision := revision }

/-- `own_hint`: the distribution, release and package revision of this product. -/
def ownHint (f : Fingerprint) (keys : List String) (cpeVersion : Option String) : DistroHint :=
  let banner := lib.bannerOwnHint f keys cpeVersion
  match structuredHint lib f with
  | none => banner
  | some structured =>
    if text structured.revision ≠ "" then structured
    else if banner.visible then banner else structured

end Hints

section Match

structure CpeRangeDataset where
  available : Bool
  rangesFor : String → List CpeRange
  /-- The NVD severity of a CVE. -/
  severityOf : String → String

inductive HintSource where
  | banner
  | host
deriving DecidableEq, Repr

structure MatchEvidence where
  product : String
  version : String
  upstreamVersion : String
  cpe : String
  via : String
  range : CpeRange
  hint : DistroHint
  hintSource : HintSource
  advisory : Option VendorEvidence
  nvdSeverity : Option String
deriving DecidableEq

structure Match where
  cve : String
  verdict : Verdict
  confidence : Confidence
  severity : String
  evidence : MatchEvidence
deriving DecidableEq

inductive NoMatchReason where
  | noDataset
  | unknownProduct
  | lookalike
  | noVersion
deriving DecidableEq, Repr

structure MatchOutcome where
  matches_ : List Match
  reason : Option NoMatchReason
  productKeys : List String
  upstreamVersion : Option String

def refused (reason : NoMatchReason) (keys : List String) : MatchOutcome where
  matches_ := []
  reason := some reason
  productKeys := keys
  upstreamVersion := none

/-- One statement per CVE: the first product key that covers the version wins. -/
def hitsOf (dataset : CpeRangeDataset) (upstream : String) (keys : List String) :
    List (String × CpeRange) :=
  let covering := keys.flatMap fun key =>
    ((dataset.rangesFor key).filter (inRange lib upstream)).map fun s => (key, s)
  let first := covering.foldl (fun hits hit =>
    if hits.any (fun held => held.2.cve == hit.2.cve) then hits else hits ++ [hit])
    ([] : List (String × CpeRange))
  first.insertionSort fun a b => a.2.cve ≤ b.2.cve

def hintFor (own : DistroHint) (host : Option DistroHint) (key : String) :
    DistroHint × HintSource :=
  match host with
  | none => (own, .banner)
  | some h => if !own.visible && distroPackaged.contains key then (h, .host) else (own, .banner)

def vendorSeverity (severity : String) (verdict : Verdict) (evidence : VendorEvidence) :
    String × Option String :=
  let vendor := lib.lower
    (match evidence.record with
      | none => "unknown"
      | some r => if r.severity = "" then "unknown" else r.severity)
  if verdict ≠ .possible ∧ vendor ≠ "unknown" then (vendor, some severity) else (severity, none)

/-- What one hint makes of one CVE. -/
def judgeHit (lookup : String → Option Provider) (hint : DistroHint)
    (key cve upstream severity : String) :
    Except ParseError (Verdict × Confidence × Option VendorEvidence × String × Option String) :=
  match hint.distro with
  | none => .ok (.vulnerable, .versionRange, none, severity, none)
  | some distro =>
    if distro = "linux" then
      .ok (.possible, .backportPossible, some (because "distro_packaged_on_linux"), severity, none)
    else if distro = "debian" ∨ distro = "ubuntu" then
      match vendorVerdict lib lookup hint key cve upstream with
      | .error e => .error e
      | .ok (verdict, advisory) =>
        let graded := vendorSeverity lib severity verdict advisory
        .ok (verdict, if verdict = .possible then .backportPossible else .vendorAdvisory,
          some advisory, graded.1, graded.2)
    else
      .ok (.possible, .backportPossible, some (because "unsupported_distro"), severity, none)

def matchHit (lookup : String → Option Provider) (dataset : CpeRangeDataset) (f : Fingerprint)
    (via upstream : String) (own : DistroHint) (host : Option DistroHint)
    (hit : String × CpeRange) : Except ParseError Match :=
  let hint := hintFor own host hit.1
  match judgeHit lib lookup hint.1 hit.1 hit.2.cve upstream (dataset.severityOf hit.2.cve) with
  | .error e => .error e
  | .ok (verdict, confidence, advisory, severity, nvdSeverity) =>
    .ok
      { cve := hit.2.cve
        verdict := verdict
        confidence := confidence
        severity := severity
        evidence :=
          { product := f.product
            version := f.version
            upstreamVersion := upstream
            cpe := hit.1
            via := via
            range := hit.2
            hint := hint.1
            hintSource := hint.2
            advisory := advisory
            nvdSeverity := nvdSeverity } }

def matchHits (lookup : String → Option Provider) (dataset : CpeRangeDataset) (f : Fingerprint)
    (via upstream : String) (own : DistroHint) (host : Option DistroHint) :
    List (String × CpeRange) → Except ParseError (List Match)
  | [] => .ok []
  | hit :: hits =>
    match matchHit lib lookup dataset f via upstream own host hit with
    | .error e => .error e
    | .ok m =>
      match matchHits lookup dataset f via upstream own host hits with
      | .error e => .error e
      | .ok rest => .ok (m :: rest)

def fingerprintHint (f : Fingerprint) (keys : List String) (via : String)
    (cpeVersion : Option String) : DistroHint :=
  if via = "banner" then
    ownHint lib
      { product := "", version := "", banner := f.banner, cpe := [], service := f.service,
        distro := "", distroRevision := "" } keys none
  else ownHint lib f keys cpeVersion

/-- `match`: every CVE the dataset says this fingerprint carries, with a verdict each. -/
def matchFingerprint (f : Fingerprint) (dataset : CpeRangeDataset)
    (lookup : String → Option Provider) (host : Option DistroHint) :
    Except ParseError MatchOutcome :=
  if dataset.available = false then .ok (refused .noDataset [])
  else
    match lib.productKeys f fun key => !(dataset.rangesFor key).isEmpty with
    | (keys, via, cpeVersion) =>
      if keys.isEmpty then .ok (refused .unknownProduct [])
      else if lib.lookalike f keys cpeVersion then .ok (refused .lookalike keys)
      else
        match lib.upstreamVersion f keys cpeVersion via with
        | none => .ok (refused .noVersion keys)
        | some upstream =>
          match matchHits lib lookup dataset f via upstream
              (fingerprintHint lib f keys via cpeVersion) host
              (hitsOf lib dataset upstream keys) with
          | .error e => .error e
          | .ok found =>
            .ok
              { matches_ := found
                reason := none
                productKeys := keys
                upstreamVersion := some upstream }

end Match

section Ascii

def asciiTokens (value : String) : List String :=
  ((value.toList.splitBy fun c d => c.isDigit == d.isDigit && c.isLower == d.isLower).filter
    fun run => run.any fun c => c.isDigit || c.isLower).map String.ofList

def asciiSeries (value : String) : Option (String × String) :=
  match (value.toList.splitOn '.').map fun part => part.takeWhile Char.isDigit with
  | major :: minor :: _ =>
    if major.isEmpty || minor.isEmpty then none
    else some (String.ofList major, String.ofList minor)
  | _ => none

def asciiRetro : RetroText :=
  { ascii with
    isdigit := fun value => decide (value ≠ "") && value.toList.all Char.isDigit
    distroId := fun _ => none
    releaseId := fun _ _ _ => none
    tokens := fun value => (value.toList.splitOn ' ').map String.ofList
    versionTokens := asciiTokens
    portablePatch := fun value =>
      match partition 'p' value with
      | none => none
      | some (bare, patch) =>
        if patch ≠ "" && patch.toList.all Char.isDigit &&
            bare.toList.all (fun c => c.isDigit || c == '.') then some bare else none
    isalpha := Char.isAlpha
    seriesOf := asciiSeries
    productKeys := fun f _ =>
      if f.product = "OpenSSH" then (["a:openbsd:openssh"], "product_table", none)
      else ([], "", none)
    lookalike := fun _ _ _ => false
    upstreamVersion := fun f _ _ _ =>
      orNone (String.ofList (f.version.toList.takeWhile (· != ' ')))
    bannerOwnHint := fun _ _ _ => { distro := none, release := none, revision := none }
    releaseOf := fun _ _ _ => none }

example : compareUpstream asciiRetro "1.3.6rc2" "1.3.6" = .lt := by decide +kernel

end Ascii

end Shapoclyack.RetroMatch
