import Shapoclyack.ClosureInvariant
import Shapoclyack.MatchAccounting

set_option autoImplicit false

namespace Shapoclyack.InventoryClosures

open Advisories FindingFold Findings Library MatchAccounting MatchTables PackageIdentities
open ReportEntries SoftwareCveMatch TrackerTransactions VerificationArtifacts VersionCompare
open VulnStates
open SoftwareFindings (DeviceContext Match MatchStatus closes closureStep closeAsPatched
  confirmedKeys coverageUnknown existing foldDevice foldDevice_get foldRow issueOf keyOf outranks
  rpmDevice rpmIncomplete seenKeys shownPatched stillVulnerable trackMatch trackingMatches
  unknownKeys)

section Tracking

variable (lib : TrackerText)

/-- The installation the fold keeps of two for one CVE. -/
def keepWorse (old candidate : Match) : Match :=
  if outranks lib candidate old then candidate else old

theorem keepWorse_keepsWorst :
    KeepsWorst (fun m : Match => m.status.rank) (keepWorse lib) := by
  refine keepsWorst_of_prefers (fun old candidate h => ?_) (fun old candidate h => ?_)
  · unfold outranks at h
    rcases of_decide_eq_true h with hlt | ⟨heq, _⟩
    · exact hlt.le
    · exact heq.le
  · by_contra hlt
    unfold outranks at h
    exact h (decide_eq_true (.inl (not_le.mp hlt)))

def tracked (entries : List (String × Match)) (cve : String) : Option Match :=
  (entries.find? fun entry => entry.1 == cve).map (·.2)

theorem tracked_cons (entry : String × Match) (entries : List (String × Match)) (cve : String) :
    tracked (entry :: entries) cve =
      if entry.1 = cve then some entry.2 else tracked entries cve := by
  unfold tracked
  rw [List.find?_cons]
  by_cases hkey : entry.1 = cve
  · simp [hkey]
  · rw [if_neg hkey, beq_false_of_ne hkey]

theorem tracked_append (entries : List (String × Match)) (entry : String × Match)
    (cve : String) : tracked (entries ++ [entry]) cve =
      (tracked entries cve).or (if entry.1 = cve then some entry.2 else none) := by
  induction entries with
  | nil =>
    rw [List.nil_append, tracked_cons]
    rfl
  | cons first entries ih =>
    rw [List.cons_append, tracked_cons, tracked_cons, ih]
    split_ifs <;> rfl

theorem tracked_replace (entries : List (String × Match)) (key cve : String) (m : Match) :
    tracked (entries.map fun entry => if entry.1 = key then (key, m) else entry) cve =
      if key = cve then (tracked entries cve).map (fun _ => m) else tracked entries cve := by
  induction entries with
  | nil => split_ifs <;> rfl
  | cons entry entries ih =>
    rw [List.map_cons, tracked_cons, tracked_cons, ih]
    by_cases hentry : entry.1 = key
    · by_cases hkey : key = cve
      · simp [hentry, hkey]
      · simp [hentry, hkey]
    · by_cases hcve : entry.1 = cve
      · have hkey : key ≠ cve := fun heq => hentry (hcve.trans heq.symm)
        simp only [if_neg hentry, if_pos hcve, if_neg hkey]
      · simp only [if_neg hentry, if_neg hcve]

theorem trackMatch_tracked (entries : List (String × Match)) (m : Match) {cve : String}
    (hcve : cve ≠ "") : tracked (trackMatch lib entries m) cve =
      if issueOf lib m = cve then
        some (((tracked entries cve).map fun old => keepWorse lib old m).getD m)
      else tracked entries cve := by
  unfold trackMatch
  by_cases hissue : issueOf lib m = cve
  · simp only [hissue, if_neg hcve, if_true]
    cases hfind : entries.find? (fun entry => entry.1 == cve) with
    | none =>
      have hnone : tracked entries cve = none := by
        unfold tracked
        rw [hfind]
        rfl
      simp only
      rw [tracked_append, hnone]
      simp
    | some old =>
      have hsome : tracked entries cve = some old.2 := by
        unfold tracked
        rw [hfind]
        rfl
      simp only [hsome, Option.map_some, Option.getD_some]
      unfold keepWorse
      split_ifs with houtranks
      · rw [tracked_replace, if_pos rfl, hsome]
        rfl
      · exact hsome
  · rw [if_neg hissue]
    by_cases hempty : issueOf lib m = ""
    · rw [if_pos hempty]
    · simp only [if_neg hempty]
      cases hfind : entries.find? (fun entry => entry.1 == issueOf lib m) with
      | none =>
        simp only
        rw [tracked_append, if_neg hissue, Option.or_none]
      | some old =>
        simp only
        split_ifs
        · rw [tracked_replace, if_neg hissue]
        · rfl

theorem foldl_trackMatch (entries : List (String × Match)) (ms : List Match) {cve : String}
    (hcve : cve ≠ "") : tracked (ms.foldl (trackMatch lib) entries) cve =
      (ms.filter fun m => decide (issueOf lib m = cve)).foldl
        (fun held m => some ((held.map fun old => keepWorse lib old m).getD m))
        (tracked entries cve) := by
  induction ms generalizing entries with
  | nil => rfl
  | cons m ms ih =>
    rw [List.foldl_cons, ih, trackMatch_tracked lib entries m hcve]
    by_cases hissue : issueOf lib m = cve
    · simp [hissue]
    · simp [hissue]

theorem foldl_held (m : Match) (ms : List Match) :
    ms.foldl (fun held m => some ((held.map fun old => keepWorse lib old m).getD m)) (some m) =
      some (ms.foldl (keepWorse lib) m) := by
  induction ms generalizing m with
  | nil => rfl
  | cons m' ms ih => exact ih (keepWorse lib m m')

/-- The fold keeps the worst installation of every CVE. -/
theorem tracked_worst (ms : List Match) {cve : String} (hcve : cve ≠ "") :
    tracked (ms.foldl (trackMatch lib) []) cve =
      worstOf (keepWorse lib) (ms.filter fun m => decide (issueOf lib m = cve)) := by
  rw [foldl_trackMatch lib [] ms hcve]
  cases ms.filter fun m => decide (issueOf lib m = cve) with
  | nil => rfl
  | cons m ms' => exact foldl_held lib m ms'

theorem trackingMatches_vulnerable {ms : List Match} {m : Match} (hm : m ∈ ms)
    (hcve : issueOf lib m ≠ "") (hstatus : m.status = .vulnerable) :
    ∃ w ∈ trackingMatches lib ms, issueOf lib w = issueOf lib m ∧ w.status = .vulnerable := by
  have hmem : m ∈ ms.filter fun m' => decide (issueOf lib m' = issueOf lib m) :=
    List.mem_filter.mpr ⟨hm, by simp⟩
  obtain ⟨w, hw⟩ := exists_worstOf (keepWorse lib) _ (List.ne_nil_of_mem hmem)
  have hle : m.status.rank ≤ w.status.rank := le_worstOf (keepWorse_keepsWorst lib) hw m hmem
  have hissue := (List.mem_filter.mp (worstOf_mem (keepWorse_keepsWorst lib) hw)).2
  have htracked := (tracked_worst lib ms hcve).trans hw
  unfold tracked at htracked
  obtain ⟨entry, hentry, hval⟩ := Option.map_eq_some_iff.mp htracked
  refine ⟨w, ?_, of_decide_eq_true hissue, ?_⟩
  · unfold trackingMatches
    rw [← hval]
    exact List.mem_map_of_mem (List.mem_of_find?_eq_some hentry)
  · rw [hstatus] at hle
    cases hw' : w.status with
    | vulnerable => rfl
    | unknown => rw [hw'] at hle; exact absurd hle (by decide)
    | fixed => rw [hw'] at hle; exact absurd hle (by decide)
    | notApplicable => rw [hw'] at hle; exact absurd hle (by decide)

end Tracking

section Closing

variable (lib : TrackerText) (ctx : DeviceContext) (row : Vulnerability)

/-- Why the closing pass leaves a finding as it is. -/
inductive Held : Prop where
  | foreign (h : existing ctx row = false)
  | closed (h : row.state = .CLOSED)
  | seen (h : row.findingKey ∈ seenKeys lib ctx)
  | vulnerable (h : row.findingKey ∈ stillVulnerable lib ctx)
  | stale (h : ctx.observedAt ≤ row.lastSeenAt)
  | impossible (h : ctx.assessmentPossible = false)
  | uncovered (h : coverageUnknown lib ctx = true)
  | unknown (h : row.findingKey ∈ unknownKeys lib ctx)
  | incomplete (h : rpmIncomplete ctx = true)
  | unconfirmed (hrpm : rpmDevice ctx = true) (h : row.findingKey ∉ confirmedKeys lib ctx)

variable {lib ctx row}

theorem rpmIncomplete_rpm (h : rpmIncomplete ctx = true) : rpmDevice ctx = true := by
  unfold rpmIncomplete at h
  exact (Bool.and_eq_true _ _ ▸ h).1

theorem held_iff : Held lib ctx row ↔ closes lib ctx row ≠ true := by
  constructor
  · intro h hcloses
    unfold closes shownPatched at hcloses
    simp only [Bool.and_eq_true, Bool.not_eq_true', Bool.or_eq_true, decide_eq_true_eq,
      List.contains_eq_mem, decide_eq_false_iff_not] at hcloses
    obtain ⟨⟨⟨⟨hexisting, hseen⟩, hstate⟩, hvulnerable⟩, ⟨⟨⟨hfresh, hpossible⟩, hcovered⟩,
      hunknown⟩, hrpm⟩ := hcloses
    cases h with
    | foreign h => rw [hexisting] at h; cases h
    | closed h => exact hstate h
    | seen h => exact hseen h
    | vulnerable h => exact hvulnerable h
    | stale h => omega
    | impossible h => rw [hpossible] at h; cases h
    | uncovered h => rw [hcovered] at h; cases h
    | unknown h => exact hunknown h
    | incomplete h =>
      rcases hrpm with hrpm | ⟨hcomplete, _⟩
      · rw [rpmIncomplete_rpm h] at hrpm
        cases hrpm
      · rw [hcomplete] at h
        cases h
    | unconfirmed hdevice h =>
      rcases hrpm with hrpm | ⟨_, hconfirmed⟩
      · rw [hdevice] at hrpm
        cases hrpm
      · exact h hconfirmed
  · intro h
    by_contra hheld
    refine h ?_
    unfold closes shownPatched
    simp only [Bool.and_eq_true, Bool.not_eq_true', Bool.or_eq_true, decide_eq_true_eq,
      List.contains_eq_mem, decide_eq_false_iff_not]
    refine ⟨⟨⟨⟨?_, ?_⟩, ?_⟩, ?_⟩, ⟨⟨⟨?_, ?_⟩, ?_⟩, ?_⟩, ?_⟩
    · exact Bool.not_eq_false _ ▸ fun h => hheld (.foreign h)
    · exact fun h => hheld (.seen h)
    · exact fun h => hheld (.closed h)
    · exact fun h => hheld (.vulnerable h)
    · by_contra hle
      exact hheld (.stale (not_lt.mp hle))
    · exact Bool.not_eq_false _ ▸ fun h => hheld (.impossible h)
    · exact Bool.not_eq_true _ ▸ fun h => hheld (.uncovered h)
    · exact fun h => hheld (.unknown h)
    · by_cases hrpm : rpmDevice ctx = true
      · refine .inr ⟨Bool.not_eq_true _ ▸ fun h => hheld (.incomplete h), ?_⟩
        by_contra hunconfirmed
        exact hheld (.unconfirmed hrpm hunconfirmed)
      · exact .inl (Bool.not_eq_true _ ▸ hrpm)

def Doubtful (status : MatchStatus) : Prop := status = .vulnerable ∨ status = .unknown

variable {cve : String}

/-- No stored row of a CVE stands against a closure the fold makes for it. -/
theorem closes_quiet (hupper : lib.upper "" = "") (hcve : cve ≠ "")
    (hkey : row.findingKey =
      softwareFindingKey lib ctx.asset.assetId ctx.device.deviceId cve)
    (h : ¬ Held lib ctx row) :
    ∀ m ∈ ctx.matches_, issueOf lib m = cve → ¬ Doubtful m.status := by
  have hnamed : ∀ m, issueOf lib m = cve → lib.strip (text m.cveId) ≠ "" := by
    intro m hm hempty
    unfold issueOf at hm
    rw [hempty, hupper] at hm
    exact hcve hm.symm
  have hkeyOf : ∀ m, issueOf lib m = cve → keyOf lib ctx m = row.findingKey := by
    intro m hm
    unfold keyOf
    rw [hm, hkey]
  rintro m hm hissue (hstatus | hstatus)
  · rw [← hissue] at hcve
    obtain ⟨w, hw, hsame, hvulnerable⟩ := trackingMatches_vulnerable lib hm hcve hstatus
    have hw' := hsame.trans hissue
    refine h (.vulnerable ?_)
    rw [← hkeyOf w hw']
    refine List.mem_map_of_mem (List.mem_filter.mpr ⟨hw, ?_⟩)
    simp [hvulnerable, hnamed w hw']
  · refine h (.unknown ?_)
    rw [← hkeyOf m hissue]
    refine List.mem_map_of_mem (List.mem_filter.mpr ⟨hm, ?_⟩)
    simp [hstatus, hnamed m hissue]

end Closing

section Fold

variable {lib : CoverageText} {ctx : DeviceContext} {row : Vulnerability}

theorem foldRow_of_closes (h : closes lib.toTrackerText ctx row = true) :
    foldRow lib.toTrackerText ctx row = closeAsPatched ctx row := by
  have hheld : ¬ Held lib.toTrackerText ctx row := fun hheld => held_iff.mp hheld h
  have hmatches : SoftwareFindings.matchesOf lib.toTrackerText ctx row = [] := by
    refine List.filter_eq_nil_iff.mpr ?_
    intro m hm hkey
    have hseen : keyOf lib.toTrackerText ctx m = row.findingKey :=
      congrArg Prod.snd (of_decide_eq_true hkey)
    refine hheld (.seen ?_)
    rw [← hseen]
    exact List.mem_map_of_mem hm
  unfold foldRow closureStep
  rw [hmatches, List.foldl_nil, ite_self, if_pos h]

/-- A finding closed as patched on the word of the machine. -/
def Patched (before after : Vulnerability) : Prop :=
  before.state ≠ .CLOSED ∧ after.state = .CLOSED ∧ after.closureReason = some .patched ∧
    after.machineVerified = true

/-- A fold closes exactly the findings nothing holds. -/
theorem foldDevice_patches_iff {t t' : Tracker} (hrow : t.get (rowKey row) = some row)
    (h : foldDevice lib.toTrackerText ctx t = some t') :
    (∃ row', t'.get (rowKey row) = some row' ∧ Patched row row') ↔
      ¬ Held lib.toTrackerText ctx row := by
  rw [foldDevice_get hrow h]
  constructor
  · rintro ⟨row', hrow', hopen, hclosed, _⟩ hheld
    rw [← Option.some.inj hrow'] at hclosed
    rcases foldRow_cases lib ctx row with ⟨hcloses, _⟩ | hreopens
    · exact held_iff.mp hheld hcloses
    · rcases hreopens.state with hsame | ⟨hbefore, _⟩
      · exact hopen (hsame.symm.trans hclosed)
      · exact hopen hbefore
  · intro hheld
    have hcloses : closes lib.toTrackerText ctx row = true := by
      by_contra hnot
      exact hheld (held_iff.mpr hnot)
    refine ⟨_, rfl, fun hclosed => hheld (.closed hclosed), ?_⟩
    rw [foldRow_of_closes hcloses]
    exact ⟨rfl, rfl, rfl⟩

end Fold

section Carriers

variable (lib : OsText) (ctx : DistroContext)

def itemName (item : SoftwareItem) : String :=
  if flavorOf lib item = some .rpm then lib.strip (text item.name)
  else normalize lib (some (text item.name))

/-- A package, of any manager or none, by a name that a provider has a statement of a CVE for. -/
def Carries (p : Provider) (about : String → Prop) (item : SoftwareItem) : Prop :=
  itemName lib item ≠ "" ∧
    ∃ name ∈ sourcePackageCandidates lib (itemName lib item) (flavorOf lib item),
    ∃ r ∈ p.advisoriesFor (text ctx.release) name, ∃ id ∈ r.cveIds, about id

def VersionReads (item : SoftwareItem) : Prop :=
  ∃ evr, readVersion lib item.version (flavorOf lib item) = .ok (some evr, none)

/-- A package of a manager that identities know: on Debian and Ubuntu of the distribution's own,
with a version that reads. -/
def Identified (item : SoftwareItem) : Prop :=
  flavorOf lib item ≠ none ∧
    (onRpmDistro ctx.distro = false → flavorOf lib item = some .deb ∧ VersionReads lib item)

variable {lib ctx} {item : SoftwareItem}

theorem identify_item {identity : PackageIdentity}
    (h : identify lib (text item.name) item.version item.architecture
      (if text item.source = "" then "other" else text item.source) ctx = .ok identity) :
    ∃ evr reason, readVersion lib item.version (flavorOf lib item) = .ok (evr, reason) ∧
      identity.name = itemName lib item ∧
      identity.reason = identityReason (flavorOf lib item) reason ctx (itemName lib item) ∧
      identity.matchable = identity.reason.isNone := by
  unfold identify at h
  simp only at h
  split at h
  case h_1 => cases h
  case h_2 evr reason hread =>
    rw [← Except.ok.inj h]
    exact ⟨evr, reason, hread, rfl, rfl, rfl⟩

theorem identityReason_reads {ctx : DistroContext} {flavor : Flavor} {name : String}
    (hsupported : ctx.supported = true) (hname : name ≠ "") (hdeb : flavor ≠ .rpm)
    (hdistro : onRpmDistro ctx.distro = decide (flavor = .rpm)) :
    identityReason (some flavor) none ctx name = none := by
  unfold identityReason
  unfold onRpmDistro at hdistro
  simp [hsupported, hname, hdeb, hdistro]

theorem readVersion_reason {version : Option String} {flavor : Flavor} {evr : Option Evr}
    (h : readVersion lib version (some flavor) = .ok (evr, none)) : ∃ v, evr = some v := by
  unfold readVersion at h
  split at h
  case isTrue => cases h
  case isFalse =>
    split at h
    case isTrue => cases h
    case isFalse =>
      simp only at h
      split at h
      case h_1 v _ => exact ⟨v, (Prod.mk.inj (Except.ok.inj h)).1.symm⟩
      case h_2 => cases h
      case h_3 => cases h

theorem assessed_matchable {provider : Option Provider} {cs : List MatchCandidate}
    (h : assess lib ctx provider item = .ok (.assessed cs)) :
    ∃ evr reason, readVersion lib item.version (flavorOf lib item) = .ok (evr, reason) ∧
      identityReason (flavorOf lib item) reason ctx (itemName lib item) = none := by
  unfold assess at h
  split at h
  case h_1 => cases h
  case h_2 identity hidentity =>
    obtain ⟨evr, reason, hread, _, hreason, hmatchable⟩ := identify_item hidentity
    split at h
    case isTrue => cases h
    case isFalse hmatch =>
      rw [hmatchable] at hmatch
      refine ⟨evr, reason, hread, ?_⟩
      rw [← hreason]
      exact Option.isNone_iff_eq_none.mp (Bool.not_eq_false _ ▸ hmatch)

theorem assessed_identified {provider : Option Provider} {cs : List MatchCandidate}
    (h : assess lib ctx provider item = .ok (.assessed cs)) : Identified lib ctx item := by
  obtain ⟨evr, reason, hread, hnone⟩ := assessed_matchable h
  unfold identityReason at hnone
  cases hflavor : flavorOf lib item with
  | none =>
    rw [hflavor] at hnone
    simp at hnone
  | some flavor =>
    rw [hflavor] at hnone
    cases reason with
    | some r => simp at hnone
    | none =>
      refine ⟨by rw [hflavor]; simp, fun hdebian => ?_⟩
      rw [hflavor] at hread ⊢
      obtain ⟨v, rfl⟩ := readVersion_reason hread
      have hdeb : flavor = .deb := by
        simp only [reduceCtorEq, if_false, Option.isSome_none, Bool.false_eq_true] at hnone
        unfold onRpmDistro at hdebian
        rw [hdebian] at hnone
        cases flavor with
        | deb => rfl
        | rpm =>
          split_ifs at hnone with _ _ hmismatch
          exact absurd (by simp) hmismatch
      refine ⟨congrArg some hdeb, v, ?_⟩
      rw [hflavor]
      exact hread

theorem unassessed_uncovered {provider : Option Provider} {about : String → Prop} {p : Provider}
    {reason : Reason} {name : String} (hsupported : ctx.supported = true)
    (hrpm : onRpmDistro ctx.distro = false) (hcarries : Carries lib ctx p about item)
    (hidentified : Identified lib ctx item)
    (h : assess lib ctx provider item = .ok (.unassessed reason name)) :
    reason = .noAdvisoryData ∨ reason = .advisoryReleaseNotCovered := by
  have hname := hcarries.1
  obtain ⟨hflavor, v, hv⟩ := hidentified.2 hrpm
  have hdeb : Flavor.deb ≠ .rpm := by decide
  have hdistro : onRpmDistro ctx.distro = decide (Flavor.deb = .rpm) := hrpm
  unfold assess at h
  split at h
  case h_1 => cases h
  case h_2 identity hidentity =>
    obtain ⟨evr, versionReason, hread, _, hreason, hmatchable⟩ := identify_item hidentity
    rw [hv] at hread
    rw [← (Prod.mk.inj (Except.ok.inj hread)).2, hflavor,
      identityReason_reads hsupported hname hdeb hdistro] at hreason
    split at h
    case isTrue hmatch =>
      rw [hmatchable, hreason] at hmatch
      cases hmatch
    case isFalse =>
      split at h
      case h_1 missing hmissing =>
        have heq : reason = missing := by
          cases h
          rfl
        rw [heq]
        unfold coverageReason at hmissing
        split at hmissing
        case h_1 => exact .inl (Option.some.inj hmissing).symm
        case h_2 =>
          split_ifs at hmissing
          · exact .inl (Option.some.inj hmissing).symm
          · exact .inr (Option.some.inj hmissing).symm
      case h_2 =>
        cases h
        exact .inl rfl
      case h_3 =>
        simp only [hrpm] at h
        split at h
        case isTrue hselected => exact absurd hselected.1 (by decide)
        case isFalse =>
          split at h
          case h_1 => cases h
          case h_2 => cases h

theorem readVersion_not_foreign {version : Option String} {flavor : Option Flavor}
    {evr : Option Evr} (h : readVersion lib version flavor = .ok (evr, some .nonDistroSource)) :
    False := by
  unfold readVersion at h
  split at h
  case isTrue => cases h
  case isFalse =>
    split at h
    case isTrue => cases h
    case isFalse =>
      split at h
      case h_1 => cases h
      case h_2 =>
        split at h
        case h_1 => cases h
        case h_2 => cases h
        case h_3 => cases h

theorem selectRecords_not_foreign (identity : PackageIdentity) (p : Provider) :
    (selectRecords lib.toText identity p).2 ≠ some .nonDistroSource := by
  unfold selectRecords
  split
  case h_1 => simp
  case h_2 =>
    simp only
    split_ifs <;> simp

theorem coverageReason_not_foreign (provider : Option Provider) (release : String) :
    coverageReason provider release ≠ some .nonDistroSource := by
  unfold coverageReason
  split
  case h_1 => simp
  case h_2 => split_ifs <;> simp

theorem unassessed_not_foreign {provider : Option Provider} {flavor : Flavor} {name : String}
    (hsupported : ctx.supported = true) (hflavor : flavorOf lib item = some flavor) :
    assess lib ctx provider item ≠ .ok (.unassessed .nonDistroSource name) := by
  intro h
  unfold assess at h
  split at h
  case h_1 => cases h
  case h_2 identity hidentity =>
    obtain ⟨evr, versionReason, hread, _, hreason, _⟩ := identify_item hidentity
    split at h
    case isTrue =>
      have hforeign : identity.reason.getD .unknownDistro = .nonDistroSource :=
        (Outcome.unassessed.inj (Except.ok.inj h)).1
      rw [hreason, hflavor] at hforeign
      unfold identityReason at hforeign
      cases versionReason with
      | some r =>
        have hr : r = .nonDistroSource := by simpa using hforeign
        rw [hr] at hread
        exact readVersion_not_foreign hread
      | none =>
        simp only [reduceCtorEq, if_false, Option.isSome_none, Bool.false_eq_true, hsupported]
          at hforeign
        split_ifs at hforeign <;> simp at hforeign
    case isFalse =>
      split at h
      case h_1 missing hmissing =>
        have heq : missing = .nonDistroSource := by
          cases h
          rfl
        rw [heq] at hmissing
        exact coverageReason_not_foreign _ _ hmissing
      case h_2 => cases h
      case h_3 p _ =>
        simp only at h
        split at h
        case isTrue hselected =>
          have heq : (selectRecords lib.toText identity p).2.getD .unknownDistro =
              .nonDistroSource := (Outcome.unassessed.inj (Except.ok.inj h)).1
          obtain ⟨r, hr⟩ := Option.isSome_iff_exists.mp hselected.2
          rw [hr] at heq
          have hr' : r = .nonDistroSource := heq
          rw [hr'] at hr
          exact selectRecords_not_foreign identity p hr
        case isFalse =>
          split at h
          case h_1 => cases h
          case h_2 => cases h

end Carriers

section Pass

variable {lib : BuildText} {providerFor : Option String → Option Provider}
    {dataset : MsrcDataset} {device : MatchDevice} {software : List SoftwareItem}
    {result : DeviceMatchResult} {item : SoftwareItem}

theorem supported_not_windows (h : (contextOf lib device).supported = true) :
    ¬ onWindows lib device := by
  intro hwindows
  have hfamily : normalize lib.toOsText device.osFamily = "windows" := hwindows
  unfold contextOf resolveDistro at h
  simp only [hfamily] at h
  simp at h

theorem pass_tally (hsupported : (contextOf lib device).supported = true)
    (h : matchSoftware lib providerFor dataset device software = .ok result) :
    ∃ t, tally lib.toOsText (contextOf lib device) (providerOf lib providerFor device) .empty
        software = .ok t ∧
      result.candidates = (t.rows (contextOf lib device)
        (providerOf lib providerFor device)).rows.map (·.2) := by
  have hlinux := supported_not_windows hsupported
  unfold onWindows at hlinux
  unfold matchSoftware at h
  rw [if_neg hlinux] at h
  unfold matchLinux at h
  simp only at h
  split at h
  case h_1 => cases h
  case h_2 t htally =>
    rw [← Except.ok.inj h]
    exact ⟨t, htally, rfl⟩

theorem pass_reads (hsupported : (contextOf lib device).supported = true)
    (h : matchSoftware lib providerFor dataset device software = .ok result)
    (hitem : item ∈ software) :
    ∃ o, assess lib.toOsText (contextOf lib device) (providerOf lib providerFor device) item =
      .ok o := by
  obtain ⟨t, htally, _⟩ := pass_tally hsupported h
  exact ((tally_eq_ok_iff _ _ _).mp htally).1 item hitem

theorem pass_shows_reason (hsupported : (contextOf lib device).supported = true)
    (h : matchSoftware lib providerFor dataset device software = .ok result)
    (hitem : item ∈ software) {reason : Reason} {name : String}
    (hassess : assess lib.toOsText (contextOf lib device) (providerOf lib providerFor device)
      item = .ok (.unassessed reason name)) :
    ∃ row ∈ result.candidates, row.status = .unknown ∧ row.unknownReason = some reason := by
  obtain ⟨t, htally, hcandidates⟩ := pass_tally hsupported h
  obtain ⟨_, ht⟩ := (tally_eq_ok_iff _ _ _).mp htally
  have houtcome : Outcome.unassessed reason name ∈ outcomesOf lib.toOsText
      (contextOf lib device) (providerOf lib providerFor device) software :=
    List.mem_filterMap.mpr ⟨item, hitem, by rw [hassess]; rfl⟩
  have hleft : reason ∈ t.unassessed.map (·.1) := by
    rw [ht, foldl_add_unassessed]
    refine List.mem_map.mpr ⟨(reason, name), ?_, rfl⟩
    exact List.mem_append_right _ (List.mem_filterMap.mpr ⟨_, houtcome, rfl⟩)
  have hget := get_assigned (fun r => unassessedRow (contextOf lib device)
    (providerOf lib providerFor device) r (t.names r)) t.byCve t.reasons
    ((mem_reasons_iff t reason).mpr hleft)
  rw [hcandidates]
  exact ⟨_, (mem_values_iff _ _).mpr ⟨_, hget⟩, rfl, rfl⟩

/-- Identifiers that no key and no reason's row can be mistaken for. -/
def PlainIds (cs : List MatchCandidate) : Prop :=
  ∀ c ∈ cs, '|' ∉ c.cveId.toList ∧ Char.ofNat 0 ∉ c.cveId.toList

def cveOfKey (key : String) : String := String.ofList (key.toList.takeWhile (· != '|'))

theorem takeWhile_plain {cs : List Char} (h : '|' ∉ cs) (rest : List Char) :
    (cs ++ '|' :: rest).takeWhile (· != '|') = cs ∧ cs.takeWhile (· != '|') = cs := by
  induction cs with
  | nil => exact ⟨rfl, rfl⟩
  | cons c cs ih =>
    have hc : (c != '|') = true := by
      rw [bne_iff_ne]
      rintro rfl
      exact h (by simp)
    obtain ⟨hleft, hright⟩ := ih fun hmem => h (List.mem_cons_of_mem _ hmem)
    rw [List.cons_append, List.takeWhile_cons, List.takeWhile_cons, if_pos hc, if_pos hc, hleft,
      hright]
    exact ⟨rfl, rfl⟩

theorem cveOfKey_candidateKey {c : MatchCandidate} (h : '|' ∉ c.cveId.toList) :
    cveOfKey (candidateKey c) = c.cveId := by
  unfold cveOfKey candidateKey
  cases c.evidence.installation with
  | none =>
    simp only
    rw [(takeWhile_plain h []).2, String.ofList_toList]
  | some i =>
    have hkey : (c.cveId ++ "|" ++ i.identity).toList =
        c.cveId.toList ++ '|' :: i.identity.toList := by
      simp [String.toList_append]
    simp only [hkey]
    rw [(takeWhile_plain h _).1, String.ofList_toList]

theorem cveOfKey_reasonKey (reason : Reason) :
    Char.ofNat 0 ∈ (cveOfKey (reasonKey reason)).toList := by
  unfold cveOfKey reasonKey
  cases reason <;> decide +kernel

/-- A pass shows every status of a CVE, or a worse one of the same CVE. -/
theorem pass_shows_worse (hsupported : (contextOf lib device).supported = true)
    (h : matchSoftware lib providerFor dataset device software = .ok result)
    (hplain : PlainIds (candidatesOf lib providerFor dataset device software))
    (hitem : item ∈ software) {cs : List MatchCandidate} {c : MatchCandidate} (hc : c ∈ cs)
    (hassess : assess lib.toOsText (contextOf lib device) (providerOf lib providerFor device)
      item = .ok (.assessed cs)) :
    ∃ row ∈ result.candidates, row.cveId = c.cveId ∧ c.status.rank ≤ row.status.rank := by
  have haccounts := matchSoftware_accountsFor h
  have hcandidate : c ∈ candidatesOf lib providerFor dataset device software := by
    unfold candidatesOf
    rw [if_neg (supported_not_windows hsupported)]
    refine List.mem_flatMap.mpr ⟨.assessed cs, ?_, hc⟩
    exact List.mem_filterMap.mpr ⟨item, hitem, by rw [hassess]; rfl⟩
  obtain ⟨hpipe, hnul⟩ := hplain c hcandidate
  have hvisible : ¬ hiddenKey lib providerFor dataset device software (candidateKey c) := by
    rintro ⟨_, reason, _, hkey⟩
    have hreason := cveOfKey_reasonKey reason
    rw [hkey, cveOfKey_candidateKey hpipe] at hreason
    exact hnul hreason
  obtain ⟨row, hrow, hcounts, hkey⟩ := haccounts.kept c hcandidate hvisible
  obtain ⟨hmem, _, hmax⟩ := haccounts.worst row hrow hcounts
  refine ⟨row, hrow, ?_, hmax c hcandidate hkey.symm⟩
  rw [← cveOfKey_candidateKey (hplain row hmem).1, hkey, cveOfKey_candidateKey hpipe]

end Pass

section Snapshot

/-- A software snapshot, with the advisories its matching pass and its fold find. -/
structure Inventory where
  device : MatchDevice
  software : List SoftwareItem
  dataset : MsrcDataset
  asked : Option String → Option Provider
  live : Option String → Option Provider

/-- `assessment_possible`: could the matcher put the advisory question for a device at all? -/
def assessmentPossible (lib : OsText) (providerFor : Option String → Option Provider)
    (device : MatchDevice) : Bool :=
  let ctx := resolveDistro lib device.osFamily device.osName device.osVersion
  if ctx.supported = false then false
  else
    match providerFor ctx.distro with
    | none => false
    | some p =>
      p.available && p.releases.contains (lib.lower (lib.strip (text ctx.release)))

/-- A fold's context is about this snapshot's device, and asks its live providers. -/
structure Folds (build : BuildText) (ctx : DeviceContext) (inv : Inventory) : Prop where
  possible : ctx.assessmentPossible = assessmentPossible build.toOsText inv.live inv.device
  distro : ctx.device.distro = (contextOf build inv.device).distro

def storedRow (snapshotId : Option String) (scored : MatchCandidate → Scored)
    (c : MatchCandidate) : Match where
  cveId := some c.cveId
  status := c.status
  severity := some c.severity
  fixedVersion := c.fixedVersion
  unknownReason := c.unknownReason.map Reason.toText
  snapshotId := snapshotId
  assessmentScope := c.evidence.assessmentScope
  scored := scored c

/-- The fold reads the rows of a pass over this device that read a list of packages. -/
def StoredFrom (build : BuildText) (ctx : DeviceContext) (inv : Inventory)
    (read : List SoftwareItem) : Prop :=
  ∃ result scored, matchSoftware build inv.asked inv.dataset inv.device read = .ok result ∧
    ctx.matches_ = result.candidates.map (storedRow result.snapshotId scored)

variable (lib : CoverageText) (build : BuildText) (ctx : DeviceContext) (inv : Inventory)
    (cve : String)

def About (id : String) : Prop := lib.upper (lib.strip id) = cve

/-- A listed package that could carry the CVE. -/
def Carrier (item : SoftwareItem) : Prop :=
  item ∈ inv.software ∧ ∃ p, providerOf build inv.live inv.device = some p ∧
    Carries build.toOsText (contextOf build inv.device) p (About lib cve) item

/-- What the pass over the snapshot makes of a package it could assess. -/
def AssessedAs (item : SoftwareItem) (cs : List MatchCandidate) : Prop :=
  assess build.toOsText (contextOf build inv.device) (providerOf build inv.asked inv.device) item =
    .ok (.assessed cs)

/-- Every listed package that could carry the CVE was assessed, and is clear of it. -/
def Cleared : Prop :=
  ∀ item, Carrier lib build inv cve item → ∃ cs, AssessedAs build inv item cs ∧
    ∀ c ∈ cs, About lib cve c.cveId → ¬ Doubtful c.status

variable {lib build ctx inv cve} {read : List SoftwareItem}

theorem Doubtful.of_le {s s' : MatchStatus} (h : Doubtful s) (hle : s.rank ≤ s'.rank) :
    Doubtful s' := by
  revert hle
  rcases h with rfl | rfl
  · cases s' <;> simp [Doubtful, MatchStatus.rank]
  · cases s' <;> simp [Doubtful, MatchStatus.rank]

theorem Folds.supported (h : Folds build ctx inv) (hpossible : ctx.assessmentPossible = true) :
    (contextOf build inv.device).supported = true := by
  rw [h.possible] at hpossible
  by_contra hnot
  unfold assessmentPossible at hpossible
  unfold contextOf at hnot
  simp [hnot] at hpossible

theorem Folds.rpmDevice (h : Folds build ctx inv) :
    SoftwareFindings.rpmDevice ctx = onRpmDistro (contextOf build inv.device).distro := by
  unfold SoftwareFindings.rpmDevice onRpmDistro
  rw [h.distro]
  cases (contextOf build inv.device).distro with
  | none => rfl
  | some distro => rfl

theorem StoredFrom.doubtful (h : StoredFrom build ctx inv read)
    (hsupported : (contextOf build inv.device).supported = true)
    (hplain : PlainIds (candidatesOf build inv.asked inv.dataset inv.device read))
    {item : SoftwareItem} (hitem : item ∈ read) {cs : List MatchCandidate}
    (hcs : AssessedAs build inv item cs) {c : MatchCandidate} (hc : c ∈ cs)
    (habout : About lib cve c.cveId) (hdoubtful : Doubtful c.status) :
    ∃ m ∈ ctx.matches_, issueOf lib.toTrackerText m = cve ∧ Doubtful m.status := by
  obtain ⟨result, scored, hpass, hrows⟩ := h
  obtain ⟨row, hrow, hcve, hle⟩ := pass_shows_worse hsupported hpass hplain hitem hc hcs
  refine ⟨storedRow result.snapshotId scored row, ?_, ?_, hdoubtful.of_le hle⟩
  · rw [hrows]
    exact List.mem_map_of_mem hrow
  · rw [← hcve] at habout
    exact habout

theorem StoredFrom.unassessed (h : StoredFrom build ctx inv read)
    (hsupported : (contextOf build inv.device).supported = true) {item : SoftwareItem}
    (hitem : item ∈ read) {reason : Reason} {name : String}
    (hassess : assess build.toOsText (contextOf build inv.device)
      (providerOf build inv.asked inv.device) item = .ok (.unassessed reason name)) :
    ∃ m ∈ ctx.matches_, m.status = .unknown ∧ m.unknownReason = some reason.toText := by
  obtain ⟨result, scored, hpass, hrows⟩ := h
  obtain ⟨row, hrow, hstatus, hreason⟩ := pass_shows_reason hsupported hpass hitem hassess
  refine ⟨storedRow result.snapshotId scored row, ?_, hstatus, ?_⟩
  · rw [hrows]
    exact List.mem_map_of_mem hrow
  · unfold storedRow
    rw [hreason]
    rfl

/-- An identified carrier that a pass read and left unassessed keeps the fold from closing. -/
theorem StoredFrom.held (h : StoredFrom build ctx inv read) (hfolds : Folds build ctx inv)
    (hsupported : (contextOf build inv.device).supported = true) {item : SoftwareItem}
    (hcarrier : Carrier lib build inv cve item) (hitem : item ∈ read)
    (hidentified : Identified build.toOsText (contextOf build inv.device) item)
    {reason : Reason} {name : String}
    (hassess : assess build.toOsText (contextOf build inv.device)
      (providerOf build inv.asked inv.device) item = .ok (.unassessed reason name))
    (row : Vulnerability) : Held lib.toTrackerText ctx row := by
  obtain ⟨m, hm, hunknown, hreason⟩ := h.unassessed hsupported hitem hassess
  by_cases hrpm : rpmDevice ctx = true
  · refine .incomplete ?_
    obtain ⟨flavor, hflavor⟩ := Option.ne_none_iff_exists'.mp hidentified.1
    have hforeign : m.unknownReason ≠ some "non_distro_source" := by
      intro heq
      rw [hreason] at heq
      have hsame : reason = .nonDistroSource := Reason.toText_injective (Option.some.inj heq)
      rw [hsame] at hassess
      exact unassessed_not_foreign hsupported hflavor hassess
    unfold rpmIncomplete
    rw [hrpm, Bool.true_and]
    refine List.any_eq_true.mpr ⟨m, hm, ?_⟩
    simp [hunknown, hforeign]
  · have hdebian : onRpmDistro (contextOf build inv.device).distro = false := by
      rw [← hfolds.rpmDevice]
      exact Bool.not_eq_true _ ▸ hrpm
    obtain ⟨_, p, _, hcarries⟩ := hcarrier
    refine .uncovered ?_
    unfold coverageUnknown
    have hany : ctx.matches_.any (fun m => decide (m.status = .unknown) &&
        (m.unknownReason == some "no_advisory_data" ||
          m.unknownReason == some "advisory_release_not_covered")) = true := by
      refine List.any_eq_true.mpr ⟨m, hm, ?_⟩
      rcases unassessed_uncovered hsupported hdebian hcarries hidentified hassess with rfl | rfl
      · simp [hunknown, hreason, Reason.toText]
      · simp [hunknown, hreason, Reason.toText]
    rw [hany, Bool.true_or]

/-- A fold that closes a finding over the rows of a pass that read every package that could carry
the CVE closes it on cleared packages exactly where each of these is identified. -/
theorem patched_cleared_iff {t t' : Tracker} {row : Vulnerability}
    (hupper : lib.upper "" = "") (hcve : cve ≠ "")
    (hkey : row.findingKey = softwareFindingKey lib.toTrackerText ctx.asset.assetId
      ctx.device.deviceId cve)
    (hrow : t.get (rowKey row) = some row)
    (hfold : foldDevice lib.toTrackerText ctx t = some t')
    (hpatched : ∃ row', t'.get (rowKey row) = some row' ∧ Patched row row')
    (hfolds : Folds build ctx inv) (hstored : StoredFrom build ctx inv read)
    (hread : ∀ item, Carrier lib build inv cve item → item ∈ read)
    (hplain : PlainIds (candidatesOf build inv.asked inv.dataset inv.device read)) :
    Cleared lib build inv cve ↔ ∀ item, Carrier lib build inv cve item →
      Identified build.toOsText (contextOf build inv.device) item := by
  have hheld : ¬ Held lib.toTrackerText ctx row := (foldDevice_patches_iff hrow hfold).mp hpatched
  have hsupported := hfolds.supported (Bool.not_eq_false _ ▸ fun hnot => hheld (.impossible hnot))
  constructor
  · intro hcleared item hitem
    obtain ⟨cs, hcs, _⟩ := hcleared item hitem
    exact assessed_identified hcs
  · intro hidentified item hitem
    obtain ⟨result, _, hpass, _⟩ := id hstored
    obtain ⟨o, ho⟩ := pass_reads hsupported hpass (hread item hitem)
    cases o with
    | unassessed reason name =>
      exact absurd (hstored.held hfolds hsupported hitem (hread item hitem)
        (hidentified item hitem) ho row) hheld
    | assessed cs =>
      refine ⟨cs, ho, fun c hc habout hdoubtful => ?_⟩
      obtain ⟨m, hm, hissue, hstatus⟩ :=
        hstored.doubtful hsupported hplain (hread item hitem) ho hc habout hdoubtful
      exact closes_quiet hupper hcve hkey hheld m hm hissue hstatus

end Snapshot

section Hosts

def jammySnapshot (software : List SoftwareItem) : Inventory where
  device := jammyHost
  software := software
  dataset := noRemediations
  asked := ubuntuProviders
  live := ubuntuProviders

def unscored (_ : MatchCandidate) : Scored := ⟨false, none, none, none⟩

def passOf (software : List SoftwareItem) : Except ParseError DeviceMatchResult :=
  matchSoftware latinText ubuntuProviders noRemediations jammyHost software

def jammyFold (software : List SoftwareItem) : DeviceContext :=
  ClosureInvariant.inventoryAt 10 (((passOf software).toOption.map fun result =>
    result.candidates.map (storedRow result.snapshotId unscored)).getD [])

def opensslFinding : Vulnerability :=
  let m := { ClosureInvariant.openssl with cveId := some "CVE-2024-1" }
  SoftwareFindings.createSoftware asciiLibrary.toTrackerText (ClosureInvariant.inventoryAt 0 [m]) m

theorem opensslFinding_new : (Table.empty rowKey).get (rowKey opensslFinding) = none := rfl

def oneFinding : Tracker := (Table.empty rowKey).append opensslFinding opensslFinding_new

theorem oneFinding_get : oneFinding.get (rowKey opensslFinding) = some opensslFinding := by
  unfold oneFinding
  rw [Table.get_append, if_pos rfl]

theorem opensslFinding_key (software : List SoftwareItem) : opensslFinding.findingKey =
    softwareFindingKey asciiLibrary.toTrackerText (jammyFold software).asset.assetId
      (jammyFold software).device.deviceId "CVE-2024-1" := by
  change opensslFinding.findingKey =
    softwareFindingKey asciiLibrary.toTrackerText "asset-1" "dev-1" "CVE-2024-1"
  decide +kernel

theorem jammyFold_stored {software : List SoftwareItem} {result : DeviceMatchResult}
    (h : passOf software = .ok result) :
    StoredFrom latinText (jammyFold software) (jammySnapshot software) software := by
  refine ⟨result, unscored, h, ?_⟩
  unfold jammyFold
  rw [h]
  rfl

theorem jammyFold_folds (software : List SoftwareItem) :
    Folds latinText (jammyFold software) (jammySnapshot software) where
  possible := by
    change true = assessmentPossible latinText.toOsText ubuntuProviders jammyHost
    decide +kernel
  distro := by
    change some "ubuntu" = (contextOf latinText jammyHost).distro
    decide +kernel

theorem jammyFold_patches {software : List SoftwareItem}
    (hcloses : closes asciiLibrary.toTrackerText (jammyFold software) opensslFinding = true)
    (hends : (foldDevice asciiLibrary.toTrackerText (jammyFold software) oneFinding).isSome) :
    ∃ t', foldDevice asciiLibrary.toTrackerText (jammyFold software) oneFinding = some t' ∧
      ∃ row', t'.get (rowKey opensslFinding) = some row' ∧ Patched opensslFinding row' := by
  obtain ⟨t', ht'⟩ := Option.isSome_iff_exists.mp hends
  exact ⟨t', ht', (foldDevice_patches_iff oneFinding_get ht').mpr fun hheld =>
    held_iff.mp hheld hcloses⟩

def requests : SoftwareItem :=
  { openssl "2.32.3" none with name := some "requests", source := some "pip" }

def upgraded : List SoftwareItem := [openssl "3.0.2-0ubuntu1.10" none, requests]

theorem jammy_provider : providerOf latinText ubuntuProviders jammyHost = some ubuntuFeed := by
  have hdistro : (contextOf latinText jammyHost).supported = true ∧
      (contextOf latinText jammyHost).distro = some "ubuntu" := by
    decide +kernel
  unfold providerOf
  rw [if_pos hdistro.1, hdistro.2]
  rfl

theorem requests_carries_nothing {cve : String} :
    ¬ Carrier asciiLibrary latinText (jammySnapshot upgraded) cve requests := by
  rintro ⟨_, p, hp, _, name, hname, r, hr, _⟩
  obtain rfl : p = ubuntuFeed := Option.some.inj (hp.symm.trans jammy_provider)
  have hnone : ∀ name ∈ sourcePackageCandidates latinText.toOsText
      (itemName latinText.toOsText requests) (flavorOf latinText.toOsText requests),
        (ubuntuFeed.advisoriesFor (text (contextOf latinText jammyHost).release) name).isEmpty := by
    decide +kernel
  exact List.ne_nil_of_mem hr (List.isEmpty_iff.mp (hnone name hname))

theorem upgraded_cleared :
    ∃ t', foldDevice asciiLibrary.toTrackerText (jammyFold upgraded) oneFinding = some t' ∧
      (∃ row', t'.get (rowKey opensslFinding) = some row' ∧ Patched opensslFinding row') ∧
      Cleared asciiLibrary latinText (jammySnapshot upgraded) "CVE-2024-1" := by
  obtain ⟨t', hfold, hpatched⟩ := @jammyFold_patches upgraded (by decide +kernel)
    (by decide +kernel)
  have hends : (passOf upgraded).toOption.isSome = true := by decide +kernel
  cases hpass : passOf upgraded with
  | error e =>
    rw [hpass] at hends
    cases hends
  | ok result =>
    refine ⟨t', hfold, hpatched, (patched_cleared_iff (by decide +kernel) (by decide)
      (opensslFinding_key _) oneFinding_get hfold hpatched (jammyFold_folds _)
      (jammyFold_stored hpass) (fun item hitem => hitem.1)
      (by unfold PlainIds; decide +kernel)).mpr fun item hitem => ?_⟩
    have hlisted : item ∈ upgraded := hitem.1
    rcases List.mem_pair.mp hlisted with rfl | rfl
    · refine ⟨by decide +kernel, fun _ => ⟨by decide +kernel, ?_⟩⟩
      exact ⟨⟨0, "3.0.2", "0ubuntu1.10", .deb⟩, by decide +kernel⟩
    · exact absurd hitem requests_carries_nothing

def bundled : SoftwareItem := { openssl "3.0.2" none with source := none }

theorem openssl_carries {item : SoftwareItem}
    (hname : itemName latinText.toOsText item ≠ "")
    (hcandidate : "openssl" ∈ sourcePackageCandidates latinText.toOsText
      (itemName latinText.toOsText item) (flavorOf latinText.toOsText item)) :
    Carrier asciiLibrary latinText (jammySnapshot [item]) "CVE-2024-1" item := by
  refine ⟨List.mem_singleton_self _, ubuntuFeed, jammy_provider, hname, "openssl", hcandidate,
    opensslFix, ?_, "CVE-2024-1", ?_, ?_⟩
  · change opensslFix ∈ ubuntuFeed.advisoriesFor (text (contextOf latinText jammyHost).release) _
    decide +kernel
  · decide
  · unfold About
    decide +kernel

theorem not_cleared {item : SoftwareItem} {reason : Reason} {name : String}
    (hcarrier : Carrier asciiLibrary latinText (jammySnapshot [item]) "CVE-2024-1" item)
    (hassess : assess latinText.toOsText (contextOf latinText jammyHost)
      (providerOf latinText ubuntuProviders jammyHost) item = .ok (.unassessed reason name)) :
    ¬ Cleared asciiLibrary latinText (jammySnapshot [item]) "CVE-2024-1" := by
  intro hcleared
  obtain ⟨cs, hcs, _⟩ := hcleared item hcarrier
  cases hassess.symm.trans hcs

/-- The fold of a snapshot that lists one package closes the finding, which it does not clear. -/
def ClosesUncleared (item : SoftwareItem) : Prop :=
  (∃ t', foldDevice asciiLibrary.toTrackerText (jammyFold [item]) oneFinding = some t' ∧
    ∃ row', t'.get (rowKey opensslFinding) = some row' ∧ Patched opensslFinding row') ∧
  StoredFrom latinText (jammyFold [item]) (jammySnapshot [item]) [item] ∧
  Folds latinText (jammyFold [item]) (jammySnapshot [item]) ∧
  ¬ Cleared asciiLibrary latinText (jammySnapshot [item]) "CVE-2024-1"

/-- The fold closes the finding of a host that lists openssl without a version, and of one that
lists it from no package manager, on nothing that was assessed. -/
theorem versionless_closes : ClosesUncleared (openssl "" none) ∧ ClosesUncleared bundled := by
  have hstored : ∀ item, (passOf [item]).toOption.isSome = true →
      StoredFrom latinText (jammyFold [item]) (jammySnapshot [item]) [item] := by
    intro item hends
    cases hpass : passOf [item] with
    | error e =>
      rw [hpass] at hends
      cases hends
    | ok result => exact jammyFold_stored hpass
  refine ⟨?_, ?_⟩
  · refine ⟨jammyFold_patches (by decide +kernel) (by decide +kernel),
      hstored _ (by decide +kernel), jammyFold_folds _,
      @not_cleared _ .noVersion "openssl" (openssl_carries ?_ ?_) ?_⟩
    · decide +kernel
    · decide +kernel
    · decide +kernel
  · refine ⟨jammyFold_patches (by decide +kernel) (by decide +kernel),
      hstored _ (by decide +kernel), jammyFold_folds _,
      @not_cleared _ .nonDistroSource "openssl" (openssl_carries ?_ ?_) ?_⟩
    · decide +kernel
    · decide +kernel
    · decide +kernel

end Hosts

end Shapoclyack.InventoryClosures
