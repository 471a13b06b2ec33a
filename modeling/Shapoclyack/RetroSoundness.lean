import Shapoclyack.VerdictAgreement

set_option autoImplicit false

namespace Shapoclyack.RetroSoundness

open Advisories PackageIdentities RetroMatch VersionCompare VerdictAgreement

variable (lib : RetroText)

section Visibility

def ownHintOf (f : Fingerprint) (dataset : CpeRangeDataset) : DistroHint :=
  match lib.productKeys f fun key => !(dataset.rangesFor key).isEmpty with
  | (keys, via, cpeVersion) => fingerprintHint lib f keys via cpeVersion

/-- A distribution is visible: from the listener, or from its host for a packaged product. -/
def DistributionVisible (f : Fingerprint) (dataset : CpeRangeDataset) (host : Option DistroHint)
    (key : String) : Prop :=
  (ownHintOf lib f dataset).visible = true ∨
    ∃ h, host = some h ∧ h.visible = true ∧ distroPackaged.contains key = true

variable {lib}

theorem hintFor_visible_iff (own : DistroHint) (host : Option DistroHint) (key : String) :
    (hintFor own host key).1.visible = true ↔
      own.visible = true ∨
        ∃ h, host = some h ∧ h.visible = true ∧ distroPackaged.contains key = true := by
  unfold hintFor
  cases host with
  | none => simp
  | some h =>
    by_cases hown : own.visible = true
    · simp [hown]
    · by_cases hkey : key ∈ distroPackaged
      · simp [hown, hkey]
      · simp [hown, hkey]

end Visibility

section Judge

/-- The fix a statement names is above the build: above its revision where that is known. -/
def Below (r : AdvisoryRecord) (upstream : String) (revision : Option String) : Prop :=
  if text revision = "" then
    ∃ fixed, fixedUpstream lib (text r.fixedVersion) = .ok (some fixed) ∧
      compareDpkgVersion lib.toVersionText upstream fixed = .ok .lt
  else
    ∃ installed, installedEvr lib upstream (text revision) (text r.fixedVersion) = .ok installed ∧
      compareDpkgVersion lib.toVersionText installed (text r.fixedVersion) = .ok .lt

def Latest (records : List AdvisoryRecord) (r : AdvisoryRecord) : Prop :=
  ∀ s ∈ resolvedRecords records, ∀ bs b,
    parseEvr lib.toVersionText (text s.fixedVersion) .deb = .ok bs →
    parseEvr lib.toVersionText (text r.fixedVersion) .deb = .ok b →
      (compareDpkgEvr bs b).isLE = true

variable {lib} {record : AdvisoryRecord} {rest records : List AdvisoryRecord}
    {upstream : String} {revision : Option String} {evidence : VendorEvidence}

theorem latestFix_mem {j : AdvisoryRecord} (h : latestFix lib record rest = .ok j) :
    j ∈ record :: rest := by
  induction rest generalizing record with
  | nil =>
    cases h
    simp
  | cons o rest ih =>
    unfold latestFix at h
    split at h
    case h_1 => cases h
    case h_2 =>
      rcases List.mem_cons.mp (ih h) with rfl | hmem
      · simp
      · simp [hmem]
    case h_3 order _ =>
      by_cases hgt : order = .gt
      · rw [if_pos hgt] at h
        exact List.mem_cons_of_mem _ (ih h)
      · rw [if_neg hgt] at h
        rcases List.mem_cons.mp (ih h) with rfl | hmem
        · simp
        · simp [hmem]

/-- The fix judged is at or above every fix that can be read. -/
theorem latestFix_latest {j : AdvisoryRecord} (hresolved : resolvedRecords records = record :: rest)
    (h : latestFix lib record rest = .ok j) : Latest lib records j := by
  intro s hs bs b hbs hb
  rw [hresolved] at hs
  obtain ⟨hrest, hfirst⟩ := latestFix_refused h
  cases hparse : parseEvr lib.toVersionText (text record.fixedVersion) .deb with
  | error e =>
    have hj : j = record := by
      cases e with
      | value => exact hfirst hparse
      | versionParse =>
        rw [latestFix_unreadable hparse hrest] at h
        exact (Except.ok.inj h).symm
    rw [hj, hparse] at hb
    cases hb
  | ok br =>
    obtain ⟨j', bj, hj', _, hbj, hle, hall⟩ := latestFix_readable hparse hrest
    rw [h] at hj'
    rw [← Except.ok.inj hj', hb] at hbj
    rw [Except.ok.inj hbj]
    rcases List.mem_cons.mp hs with rfl | hs
    · rw [hparse] at hbs
      rw [← Except.ok.inj hbs]
      exact hle
    · exact hall s hs bs hbs

theorem isFixed_false {x y : String} (h : isFixed lib.toVersionText x y .deb = .ok false) :
    compareDpkgVersion lib.toVersionText x y = .ok .lt := by
  unfold isFixed compareVersion at h
  simp only at h
  cases horder : compareDpkgVersion lib.toVersionText x y with
  | error e =>
    rw [horder] at h
    cases h
  | ok order =>
    rw [horder] at h
    cases order with
    | lt => rfl
    | eq => cases h
    | gt => cases h

theorem judgeRevision_vulnerable {revision : String} (hrevision : revision ≠ "")
    (h : judgeRevision lib record upstream revision = .ok (.vulnerable, evidence)) :
    Below lib record upstream (some revision) ∧ evidence.record = some record := by
  have htext : text (some revision) = revision := rfl
  unfold judgeRevision at h
  split at h
  case h_1 => cases h
  case h_2 installed hinstalled =>
    simp only at h
    split at h
    case h_1 => cases h
    case h_2 => cases h
    case h_3 fixedNow hfixed =>
      cases fixedNow with
      | true => cases h
      | false =>
        refine ⟨?_, ?_⟩
        · unfold Below
          rw [htext, if_neg hrevision]
          exact ⟨installed, hinstalled, isFixed_false hfixed⟩
        · rw [← (Prod.mk.inj (Except.ok.inj h)).2]
          rfl

theorem judgeUpstream_vulnerable (hrevision : text revision = "")
    (h : judgeUpstream lib record upstream = .ok (.vulnerable, evidence)) :
    Below lib record upstream revision ∧ evidence.record = some record := by
  unfold judgeUpstream at h
  simp only at h
  split at h
  case h_1 => cases h
  case h_2 => cases h
  case h_3 fixed hfixed =>
    split at h
    case h_1 => cases h
    case h_2 => cases h
    case h_3 horder =>
      refine ⟨?_, ?_⟩
      · unfold Below
        rw [if_pos hrevision]
        exact ⟨fixed, hfixed, horder⟩
      · rw [← (Prod.mk.inj (Except.ok.inj h)).2]
        rfl
    case h_4 => cases h
    case h_5 => cases h

theorem judgeRelease_vulnerable
    (h : judgeRelease lib records upstream revision = .ok (.vulnerable, evidence)) :
    ∃ r ∈ records, r.state = .resolved ∧ Latest lib records r ∧ Below lib r upstream revision ∧
      evidence.record = some r := by
  unfold judgeRelease at h
  split at h
  case h_1 => cases h
  case h_2 first others =>
    split at h
    case h_1 => cases h
    case h_2 =>
      split at h
      case h_1 => cases h
      case h_2 record rest hresolved =>
        split at h
        case h_1 => cases h
        case h_2 j hlatest =>
          have hmem : j ∈ resolvedRecords (first :: others) := by
            rw [hresolved]
            exact latestFix_mem hlatest
          unfold resolvedRecords at hmem
          have hj := List.mem_filter.mp hmem
          have hstate : j.state = .resolved := by
            have := hj.2
            simp only [Bool.and_eq_true, decide_eq_true_eq] at this
            exact this.1
          have hbelow : Below lib j upstream revision ∧ evidence.record = some j := by
            by_cases hrevision : text revision = ""
            · rw [if_pos hrevision] at h
              exact judgeUpstream_vulnerable hrevision h
            · rw [if_neg hrevision] at h
              have hjudged := judgeRevision_vulnerable hrevision h
              exact hjudged
          exact ⟨j, hj.1, hstate, latestFix_latest hresolved hlatest, hbelow⟩

end Judge

section Vendor

variable (p : Provider) (hint : DistroHint) (productKey cve upstream : String)

/-- The latest fix of a CVE in a release is above the build. -/
def StatedBelow (release : String) (r : AdvisoryRecord) : Prop :=
  ∃ packages, packagesIn lib p productKey upstream release = .ok packages ∧
    r ∈ recordsOn p release cve packages ∧ r.state = .resolved ∧
    Latest lib (recordsOn p release cve packages) r ∧ Below lib r upstream hint.revision

variable {lib p hint productKey cve upstream}

theorem recordsOn_cve {release : String} {packages : List String} {r : AdvisoryRecord}
    (h : r ∈ recordsOn p release cve packages) : cve ∈ r.cveIds := by
  unfold recordsOn at h
  obtain ⟨package, _, hr⟩ := List.mem_flatMap.mp h
  simpa using (List.mem_filter.mp hr).2

theorem releaseVerdicts_stated {releases : List String} {vs : List (Verdict × VendorEvidence)}
    (h : releaseVerdicts lib p hint productKey cve upstream releases = .ok vs) :
    List.Forall₂ (fun release v => v.1 = .vulnerable →
      ∃ r, StatedBelow lib p hint productKey cve upstream release r ∧ v.2.record = some r)
      releases vs := by
  induction releases generalizing vs with
  | nil =>
    cases h
    exact .nil
  | cons release releases ih =>
    unfold releaseVerdicts at h
    split at h
    case h_1 => cases h
    case h_2 packages hpackages =>
      split at h
      case h_1 => cases h
      case h_2 verdict evidence hjudged =>
        split at h
        case h_1 => cases h
        case h_2 rest hrest =>
          rw [← Except.ok.inj h]
          refine .cons ?_ (ih hrest)
          intro hvulnerable
          simp only at hvulnerable
          rw [hvulnerable] at hjudged
          obtain ⟨r, hr, hstate, hlatest, hbelow, hrecord⟩ := judgeRelease_vulnerable hjudged
          exact ⟨r, ⟨packages, hpackages, hr, hstate, hlatest, hbelow⟩, hrecord⟩

theorem forall_of_forall₂ {α β : Type} {P : α → Prop} {Q : β → Prop} {as : List α} {bs : List β}
    (h : List.Forall₂ (fun a b => Q b → P a) as bs) (hall : ∀ b ∈ bs, Q b) : ∀ a ∈ as, P a := by
  induction h with
  | nil => simp
  | cons hhead _ ih =>
    intro a ha
    rcases List.mem_cons.mp ha with rfl | ha
    · exact hhead (hall _ (by simp))
    · exact ih (fun b hb => hall b (List.mem_cons_of_mem _ hb)) a ha

/-- The vendor calls a build vulnerable where every considered release has a fix above it. -/
theorem vendorVerdict_vulnerable {lookup : String → Option Provider} {advisory : VendorEvidence}
    (h : vendorVerdict lib lookup hint productKey cve upstream = .ok (.vulnerable, advisory)) :
    ∃ p releases, lookup (text hint.distro) = some p ∧
      consideredReleases lib p hint productKey upstream = .ok releases ∧
      (∃ release ∈ releases, ∃ r, advisory.record = some r ∧
        StatedBelow lib p hint productKey cve upstream release r) ∧
      ∀ release ∈ releases, ∃ r, StatedBelow lib p hint productKey cve upstream release r := by
  unfold vendorVerdict at h
  split at h
  case h_1 => cases h
  case h_2 p hlookup =>
    split at h
    case isTrue => cases h
    case isFalse =>
      split at h
      case isTrue => cases h
      case isFalse =>
        split at h
        case h_1 => cases h
        case h_2 releases hreleases =>
          split at h
          case isTrue => cases h
          case isFalse =>
            split at h
            case h_1 => cases h
            case h_2 => cases h
            case h_3 first rest hverdicts =>
              split at h
              case isFalse => cases h
              case isTrue hsame =>
                have hfirst : first = (.vulnerable, advisory) := Except.ok.inj h
                have hall : ∀ v ∈ first :: rest, v.1 = .vulnerable := by
                  intro v hv
                  rcases List.mem_cons.mp hv with rfl | hv
                  · rw [hfirst]
                  · have := List.all_eq_true.mp hsame v hv
                    rw [of_decide_eq_true this, hfirst]
                have hstated := releaseVerdicts_stated hverdicts
                refine ⟨p, releases, hlookup, hreleases, ?_, ?_⟩
                · cases hstated with
                  | cons hhead _ =>
                    obtain ⟨r, hr, hrecord⟩ := hhead (hall first (by simp))
                    rw [hfirst] at hrecord
                    exact ⟨_, by simp, r, hrecord, hr⟩
                · refine forall_of_forall₂ (hstated.imp ?_) hall
                  intro release v hv hvulnerable
                  obtain ⟨r, hr, _⟩ := hv hvulnerable
                  exact ⟨r, hr⟩

end Vendor

section Match

variable {lib} {lookup : String → Option Provider} {dataset : CpeRangeDataset} {f : Fingerprint}
    {host : Option DistroHint}

theorem judgeHit_vulnerable {hint : DistroHint} {key cve upstream severity graded : String}
    {confidence : Confidence} {advisory : Option VendorEvidence} {nvdSeverity : Option String}
    (h : judgeHit lib lookup hint key cve upstream severity =
      .ok (.vulnerable, confidence, advisory, graded, nvdSeverity)) :
    (hint.visible = false ∧ confidence = .versionRange) ∨
      (hint.visible = true ∧ confidence = .vendorAdvisory ∧ ∃ stated, advisory = some stated ∧
        vendorVerdict lib lookup hint key cve upstream = .ok (.vulnerable, stated)) := by
  unfold judgeHit at h
  split at h
  case h_1 hnone =>
    refine .inl ⟨?_, ?_⟩
    · unfold DistroHint.visible
      rw [hnone]
      rfl
    · cases h
      rfl
  case h_2 distro hsome =>
    split at h
    case isTrue => cases h
    case isFalse =>
      split at h
      case isFalse => cases h
      case isTrue =>
        split at h
        case h_1 => cases h
        case h_2 verdict stated hvendor =>
          cases h
          refine .inr ⟨?_, rfl, stated, rfl, hvendor⟩
          unfold DistroHint.visible
          rw [hsome]
          rfl

theorem mem_matchHits {via upstream : String} {own : DistroHint}
    {hits : List (String × CpeRange)} {ms : List Match} {m : Match}
    (h : matchHits lib lookup dataset f via upstream own host hits = .ok ms) (hm : m ∈ ms) :
    ∃ hit ∈ hits, matchHit lib lookup dataset f via upstream own host hit = .ok m := by
  induction hits generalizing ms with
  | nil =>
    cases h
    cases hm
  | cons hit hits ih =>
    unfold matchHits at h
    split at h
    case h_1 => cases h
    case h_2 first hfirst =>
      split at h
      case h_1 => cases h
      case h_2 rest hrest =>
        rw [← Except.ok.inj h] at hm
        rcases List.mem_cons.mp hm with rfl | hm
        · exact ⟨hit, by simp, hfirst⟩
        · obtain ⟨hit', hhit', hmatch⟩ := ih hrest hm
          exact ⟨hit', List.mem_cons_of_mem _ hhit', hmatch⟩

theorem ownHintOf_eq {keys : List String} {via : String} {cpeVersion : Option String}
    (h : (lib.productKeys f fun key => !(dataset.rangesFor key).isEmpty) =
      (keys, via, cpeVersion)) :
    ownHintOf lib f dataset = fingerprintHint lib f keys via cpeVersion := by
  simp only [ownHintOf, h]

theorem mem_matchFingerprint {outcome : MatchOutcome} {m : Match}
    (h : matchFingerprint lib f dataset lookup host = .ok outcome) (hm : m ∈ outcome.matches_) :
    ∃ via upstream hit, matchHit lib lookup dataset f via upstream (ownHintOf lib f dataset) host
      hit = .ok m := by
  unfold matchFingerprint at h
  split at h
  case isTrue =>
    cases h
    cases hm
  case isFalse =>
    split at h
    case h_1 keys via cpeVersion hkeys =>
      rw [ownHintOf_eq hkeys]
      split at h
      case isTrue =>
        cases h
        cases hm
      case isFalse =>
        split at h
        case isTrue =>
          cases h
          cases hm
        case isFalse =>
          split at h
          case h_1 =>
            cases h
            cases hm
          case h_2 upstream _ =>
            split at h
            case h_1 => cases h
            case h_2 found hfound =>
              rw [← Except.ok.inj h] at hm
              obtain ⟨hit, _, hmatch⟩ := mem_matchHits hfound hm
              exact ⟨via, upstream, hit, hmatch⟩

/-- A vulnerable match under a visible distribution rests on its latest fixes, else on a range. -/
theorem match_vulnerable {outcome : MatchOutcome} {m : Match}
    (h : matchFingerprint lib f dataset lookup host = .ok outcome) (hm : m ∈ outcome.matches_)
    (hvulnerable : m.verdict = .vulnerable) :
    (DistributionVisible lib f dataset host m.evidence.cpe →
      m.confidence = .vendorAdvisory ∧
      ∃ p releases advisory r, lookup (text m.evidence.hint.distro) = some p ∧
        consideredReleases lib p m.evidence.hint m.evidence.cpe m.evidence.upstreamVersion =
          .ok releases ∧
        m.evidence.advisory = some advisory ∧ advisory.record = some r ∧
        r.state = .resolved ∧ m.cve ∈ r.cveIds ∧ releases ≠ [] ∧
        ∀ release ∈ releases, ∃ fix, StatedBelow lib p m.evidence.hint m.evidence.cpe m.cve
          m.evidence.upstreamVersion release fix) ∧
    (m.confidence = .versionRange → ¬ DistributionVisible lib f dataset host m.evidence.cpe) := by
  obtain ⟨via, upstream, hit, hmatch⟩ := mem_matchFingerprint h hm
  unfold matchHit at hmatch
  simp only at hmatch
  split at hmatch
  case h_1 => cases hmatch
  case h_2 verdict confidence advisory graded nvdSeverity hjudged =>
    have hvisible := hintFor_visible_iff (ownHintOf lib f dataset) host hit.1
    rw [← Except.ok.inj hmatch] at hvulnerable ⊢
    simp only at hvulnerable
    rw [hvulnerable] at hjudged
    unfold DistributionVisible
    simp only
    rw [← hvisible]
    rcases judgeHit_vulnerable hjudged with ⟨hhidden, hrange⟩ | ⟨hshown, hvendor, stated, hadvisory,
      hverdict⟩
    · refine ⟨?_, ?_⟩
      · intro hshown
        rw [hhidden] at hshown
        cases hshown
      · intro _ hshown
        rw [hhidden] at hshown
        cases hshown
    · refine ⟨?_, ?_⟩
      · intro _
        obtain ⟨p, releases, hlookup, hreleases, ⟨release, hrelease, r, hrecord, hfirst⟩, hall⟩ :=
          vendorVerdict_vulnerable hverdict
        have hstated := hfirst
        obtain ⟨_, _, hr, hstate, _, _⟩ := hstated
        exact ⟨hvendor, p, releases, stated, r, hlookup, hreleases, hadvisory, hrecord, hstate,
          recordsOn_cve hr, List.ne_nil_of_mem hrelease, hall⟩
      · intro hrange
        rw [hvendor] at hrange
        cases hrange

end Match

section Listener

def opensshListener : Fingerprint where
  product := "OpenSSH"
  version := "8.9p1 Ubuntu 3ubuntu0.4"
  banner := ""
  cpe := []
  service := "ssh"
  distro := "ubuntu"
  distroRevision := "3ubuntu0.4"

def opensshWindow : CpeRange where
  cve := "CVE-2024-6387"
  exact := none
  startIncluding := some "8.6"
  startExcluding := none
  endIncluding := none
  endExcluding := some "9.8"

def opensshRanges : CpeRangeDataset where
  available := true
  rangesFor key := if key = "a:openbsd:openssh" then [opensshWindow] else []
  severityOf _ := "high"

def oneFix : List AdvisoryRecord := [opensshRecord "1:8.9p1-3ubuntu0.10"]

def ubuntuLookup (distro : String) : Option Provider :=
  if distro = "ubuntu" then some (opensshFeed oneFix) else none

def opensshMatch : Match where
  cve := "CVE-2024-6387"
  verdict := .vulnerable
  confidence := .vendorAdvisory
  severity := "high"
  evidence :=
    { product := "OpenSSH"
      version := "8.9p1 Ubuntu 3ubuntu0.4"
      upstreamVersion := "8.9p1"
      cpe := "a:openbsd:openssh"
      via := "product_table"
      range := opensshWindow
      hint := { distro := some "ubuntu", release := none, revision := some "3ubuntu0.4" }
      hintSource := .banner
      advisory := some
        { release := some "jammy"
          record := some (opensshRecord "1:8.9p1-3ubuntu0.10")
          installedVersion := some "1:8.9p1-3ubuntu0.4"
          reason := none
          releases := [] }
      nvdSeverity := some "high" }

theorem opensshListener_matches :
    ((matchFingerprint asciiRetro opensshListener opensshRanges ubuntuLookup none).toOption.map
      (·.matches_)) = some [opensshMatch] := by
  decide +kernel

theorem opensshMatch_sound :
    ∃ outcome, matchFingerprint asciiRetro opensshListener opensshRanges ubuntuLookup none =
        .ok outcome ∧ opensshMatch ∈ outcome.matches_ ∧
      ∃ releases, consideredReleases asciiRetro (opensshFeed oneFix) opensshMatch.evidence.hint
          "a:openbsd:openssh" "8.9p1" = .ok releases ∧ releases ≠ [] ∧
        ∀ release ∈ releases, ∃ fix, StatedBelow asciiRetro (opensshFeed oneFix)
          opensshMatch.evidence.hint "a:openbsd:openssh" "CVE-2024-6387" "8.9p1" release fix := by
  have hmatches := opensshListener_matches
  cases h : matchFingerprint asciiRetro opensshListener opensshRanges ubuntuLookup none with
  | error e =>
    rw [h] at hmatches
    cases hmatches
  | ok outcome =>
    rw [h] at hmatches
    have hm : opensshMatch ∈ outcome.matches_ := by
      have : outcome.matches_ = [opensshMatch] := Option.some.inj hmatches
      rw [this]
      simp
    have hvisible : DistributionVisible asciiRetro opensshListener opensshRanges none
        opensshMatch.evidence.cpe := .inl (by decide +kernel)
    obtain ⟨_, p, releases, _, _, hlookup, hreleases, _, _, _, _, hne, hall⟩ :=
      (match_vulnerable h hm rfl).1 hvisible
    have hp : opensshFeed oneFix = p := Option.some.inj hlookup
    rw [← hp] at hreleases hall
    exact ⟨outcome, rfl, hm, releases, hreleases, hne, hall⟩

end Listener

end Shapoclyack.RetroSoundness
