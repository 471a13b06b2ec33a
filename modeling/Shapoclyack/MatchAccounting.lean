import Shapoclyack.MatchTables

set_option autoImplicit false

namespace Shapoclyack.MatchAccounting

open Advisories Library MatchTables PackageIdentities SoftwareCveMatch SoftwareFindings
open VersionCompare

section Accounts

def countedAs (row : MatchCandidate) : Option (Reason × ℕ) :=
  match row.evidence with
  | .unassessed reason n _ _ => some (reason, n)
  | .windowsUnknown reason _ _ => some (reason, 1)
  | _ => none

/-- What a result says of the candidates and the unassessed subjects it was made from. -/
structure Accounts (result : DeviceMatchResult) (candidates : List MatchCandidate)
    (reasons : List Reason) (hidden : String → Prop) : Prop where
  total : result.packagesTotal = result.packagesAssessed + result.packagesUnassessed
  unassessed : result.packagesUnassessed = reasons.length
  /-- One row for each reason that occurs, counting its occurrences. -/
  counted : ∀ reason n, (∃ row ∈ result.candidates, countedAs row = some (reason, n)) ↔
    reason ∈ reasons ∧ n = reasons.count reason
  once : (result.candidates.filterMap fun row => (countedAs row).map (·.1)).Nodup
  /-- A row that counts nothing is the worst of the candidates under its key. -/
  worst : ∀ row ∈ result.candidates, countedAs row = none →
    row ∈ candidates ∧ ¬ hidden (candidateKey row) ∧
      ∀ c ∈ candidates, candidateKey c = candidateKey row → c.status.rank ≤ row.status.rank
  kept : ∀ c ∈ candidates, ¬ hidden (candidateKey c) →
    ∃ row ∈ result.candidates, countedAs row = none ∧ candidateKey row = candidateKey c
  one : ((result.candidates.filter fun row => (countedAs row).isNone).map candidateKey).Nodup

def Shows (result : DeviceMatchResult) (key : String) (status : MatchStatus) : Prop :=
  ∃ row ∈ result.candidates, countedAs row = none ∧ candidateKey row = key ∧ row.status = status

theorem MatchStatus.rank_injective {s s' : MatchStatus} (h : s.rank = s'.rank) : s = s' := by
  revert h
  cases s <;> cases s' <;> decide

theorem Accounts.shows_of_perm {r r' : DeviceMatchResult} {cs cs' : List MatchCandidate}
    {reasons reasons' : List Reason} {hidden : String → Prop}
    (h : Accounts r cs reasons hidden) (h' : Accounts r' cs' reasons' hidden)
    (hperm : cs.Perm cs') {key : String} {status : MatchStatus} (hshows : Shows r key status) :
    Shows r' key status := by
  obtain ⟨row, hrow, hcount, rfl, rfl⟩ := hshows
  obtain ⟨hmem, hvisible, hmax⟩ := h.worst row hrow hcount
  obtain ⟨row', hrow', hcount', hkey⟩ := h'.kept row (hperm.mem_iff.mp hmem) hvisible
  obtain ⟨hmem', _, hmax'⟩ := h'.worst row' hrow' hcount'
  refine ⟨row', hrow', hcount', hkey, MatchStatus.rank_injective ?_⟩
  have hle : row'.status.rank ≤ row.status.rank := hmax row' (hperm.mem_iff.mpr hmem') hkey
  have hge : row.status.rank ≤ row'.status.rank := hmax' row (hperm.mem_iff.mp hmem) hkey.symm
  exact le_antisymm hle hge

end Accounts

section Inputs

variable (lib : BuildText) (providerFor : Option String → Option Provider)
    (dataset : MsrcDataset) (device : MatchDevice)

def onWindows : Prop := lib.lower (lib.strip (text device.osFamily)) = "windows"

instance : Decidable (onWindows lib device) :=
  inferInstanceAs (Decidable (_ = _))

def contextOf : DistroContext :=
  resolveDistro lib.toOsText device.osFamily device.osName device.osVersion

def providerOf : Option Provider :=
  if (contextOf lib device).supported then providerFor (contextOf lib device).distro else none

/-- Every row every package of a device produces, before any is collapsed. -/
def candidatesOf (software : List SoftwareItem) : List MatchCandidate :=
  if onWindows lib device then
    match parseBuild lib device.osVersion with
    | .ok (some b) =>
      (dataset.remediationsFor b).map (windowsRow device dataset b (installedKbs lib software))
    | _ => []
  else
    (outcomesOf lib.toOsText (contextOf lib device) (providerOf lib providerFor device)
      software).flatMap Outcome.candidates

def buildReason (installed : Option WindowsBuild) : List Reason :=
  match installed with
  | none => [.unparsableOsVersion]
  | some b =>
    if dataset.available = false then [.noMsrcData]
    else if (dataset.remediationsFor b).isEmpty then [.unknownWindowsBuild]
    else []

/-- One reason for each package of a device that could not be assessed. -/
def unassessedReasons (software : List SoftwareItem) : List Reason :=
  if onWindows lib device then
    match parseBuild lib device.osVersion with
    | .ok installed =>
      buildReason dataset installed ++ List.replicate (products lib software).length .windowsProduct
    | .error _ => []
  else
    ((outcomesOf lib.toOsText (contextOf lib device) (providerOf lib providerFor device)
      software).filterMap Outcome.left).map (·.1)

/-- The keys a reason's row takes over; no CVE identifier begins with NUL. -/
def hiddenKey (software : List SoftwareItem) (key : String) : Prop :=
  ¬ onWindows lib device ∧
    ∃ reason ∈ unassessedReasons lib providerFor dataset device software, reasonKey reason = key

end Inputs

section Linux

variable {lib : OsText} {ctx : DistroContext} {provider : Option Provider}

theorem candidateOf_counts_nothing {lib : VersionText} {identity : PackageIdentity} {p : Provider}
    {name : String} {rs : List AdvisoryRecord} {cs : List MatchCandidate}
    (h : evaluateRecords lib identity p name rs = .ok cs) :
    ∀ c ∈ cs, countedAs c = none := by
  induction rs generalizing cs with
  | nil =>
    cases h
    simp
  | cons r rs ih =>
    unfold evaluateRecords at h
    split at h
    case h_1 => cases h
    case h_2 =>
      split at h
      case h_1 => cases h
      case h_2 rest hrest =>
        cases h
        intro c hc
        rcases List.mem_append.mp hc with hhead | htail
        · obtain ⟨cve, _, rfl⟩ := List.mem_map.mp hhead
          rfl
        · exact ih hrest c htail

theorem withInstallation_counts (installation : Option Installation) (c : MatchCandidate) :
    countedAs (withInstallation installation c) = countedAs c := by
  unfold withInstallation
  cases installation with
  | none => rfl
  | some i =>
    cases hevidence : c.evidence with
    | statement rpm state lookup comparison old => simp [countedAs, hevidence]
    | unassessed reason n names truncated => rfl
    | windowsUnknown reason version families => rfl
    | windowsVerdict installed fixed kb product byKb => rfl

theorem assessed_counts_nothing {item : SoftwareItem} {cs : List MatchCandidate}
    (h : assess lib ctx provider item = .ok (.assessed cs)) : ∀ c ∈ cs, countedAs c = none := by
  unfold assess at h
  split at h
  case h_1 => cases h
  case h_2 identity _ =>
    split at h
    case isTrue => cases h
    case isFalse =>
      split at h
      case h_1 => cases h
      case h_2 => cases h
      case h_3 p _ =>
        simp only at h
        split at h
        case isTrue => cases h
        case isFalse =>
          split at h
          case h_1 => cases h
          case h_2 candidates heval =>
            cases h
            intro c hc
            obtain ⟨d, hd, rfl⟩ := List.mem_map.mp hc
            rw [withInstallation_counts]
            unfold evaluatePackage at heval
            simp only at heval
            split at heval
            case isTrue =>
              cases heval
              cases hd
            case isFalse => exact candidateOf_counts_nothing heval d hd

theorem candidates_count_nothing (software : List SoftwareItem) :
    ∀ c ∈ (outcomesOf lib ctx provider software).flatMap Outcome.candidates,
      countedAs c = none := by
  intro c hc
  obtain ⟨o, ho, hco⟩ := List.mem_flatMap.mp hc
  obtain ⟨item, _, hitem⟩ := List.mem_filterMap.mp ho
  cases o with
  | unassessed reason name => cases hco
  | assessed cs =>
    cases hassess : assess lib ctx provider item with
    | error e =>
      rw [hassess] at hitem
      cases hitem
    | ok o =>
      rw [hassess] at hitem
      have heq : o = .assessed cs := Option.some.inj hitem
      rw [heq] at hassess
      exact assessed_counts_nothing hassess c hco

theorem mem_reasons_iff (t : Tally) (reason : Reason) :
    reason ∈ t.reasons ↔ reason ∈ t.unassessed.map (·.1) := by
  unfold Tally.reasons
  rw [List.mem_insertionSort, List.mem_dedup]

theorem names_length (t : Tally) (reason : Reason) :
    (t.names reason).length = (t.unassessed.map (·.1)).count reason := by
  unfold Tally.names
  rw [List.length_map, List.count, List.countP_map, List.countP_eq_length_filter]
  congr 1

variable {t : Tally} {cs : List MatchCandidate}

/-- What a finished table holds: a reason's row, or the worst candidate under the key. -/
theorem rows_cases
    (hcs : t.byCve = (Table.empty (Prod.fst : String × MatchCandidate → String)).applyAll
      (cs.map fun c => collapse (candidateKey c) c))
    {k : String} {row : MatchCandidate} (h : (t.rows ctx provider).get k = some (k, row)) :
    (∃ reason ∈ t.reasons, k = reasonKey reason ∧
        row = unassessedRow ctx provider reason (t.names reason)) ∨
      ((∀ reason ∈ t.reasons, reasonKey reason ≠ k) ∧
        worstOf worse (cs.filter fun c => decide (candidateKey c = k)) = some row) := by
  unfold Tally.rows at h
  by_cases hkey : ∃ reason ∈ t.reasons, reasonKey reason = k
  · obtain ⟨reason, hmem, rfl⟩ := hkey
    rw [get_assigned _ _ _ hmem] at h
    have hrow := (Prod.mk.inj (Option.some.inj h)).2
    exact .inl ⟨reason, hmem, rfl, hrow.symm⟩
  · have hfree : ∀ reason ∈ t.reasons, reasonKey reason ≠ k :=
      fun reason hmem heq => hkey ⟨reason, hmem, heq⟩
    rw [get_assigned_of_ne _ _ _ _ hfree, hcs, get_collapsed] at h
    obtain ⟨w, hw, heq⟩ := Option.map_eq_some_iff.mp h
    rw [(Prod.mk.inj heq).2] at hw
    exact .inr ⟨hfree, hw⟩

theorem mem_of_worst {k : String} {row : MatchCandidate}
    (h : worstOf worse (cs.filter fun c => decide (candidateKey c = k)) = some row) :
    row ∈ cs ∧ candidateKey row = k := by
  have hmem := List.mem_filter.mp (worstOf_mem worse_keepsWorst h)
  exact ⟨hmem.1, by simpa using hmem.2⟩

theorem entry_key
    (hcs : t.byCve = (Table.empty (Prod.fst : String × MatchCandidate → String)).applyAll
      (cs.map fun c => collapse (candidateKey c) c))
    (hnone : ∀ c ∈ cs, countedAs c = none)
    {e : String × MatchCandidate} (he : e ∈ (t.rows ctx provider).rows) :
    (∃ reason ∈ t.reasons, e.1 = reasonKey reason ∧
        countedAs e.2 = some (reason, (t.names reason).length)) ∨
      (e.1 = candidateKey e.2 ∧ countedAs e.2 = none) := by
  rcases rows_cases hcs ((t.rows ctx provider).get_self he) with
    ⟨reason, hmem, hkey, hrow⟩ | ⟨_, hworst⟩
  · refine .inl ⟨reason, hmem, hkey, ?_⟩
    rw [hrow]
    rfl
  · obtain ⟨hmem, hkey⟩ := mem_of_worst hworst
    exact .inr ⟨hkey.symm, hnone _ hmem⟩

theorem entries_pairwise (T : ByCve) : T.rows.Pairwise fun e e' => e.1 ≠ e'.1 :=
  List.pairwise_map.mp T.unique

theorem rows_accounts {software : List SoftwareItem} {result : DeviceMatchResult}
    (hcs : t.byCve = (Table.empty (Prod.fst : String × MatchCandidate → String)).applyAll
      (cs.map fun c => collapse (candidateKey c) c))
    (hnone : ∀ c ∈ cs, countedAs c = none)
    (hcount : t.assessed + t.unassessed.length = software.length)
    (hcandidates : result.candidates = (t.rows ctx provider).rows.map (·.2))
    (htotal : result.packagesTotal = software.length)
    (hassessed : result.packagesAssessed = t.assessed)
    (hunassessed : result.packagesUnassessed = t.unassessed.length) :
    Accounts result cs (t.unassessed.map (·.1))
      (fun key => ∃ reason ∈ t.unassessed.map (·.1), reasonKey reason = key) where
  total := by
    rw [htotal, hassessed, hunassessed]
    exact hcount.symm
  unassessed := by rw [hunassessed, List.length_map]
  counted reason n := by
    rw [hcandidates]
    constructor
    · rintro ⟨row, hrow, hrowCount⟩
      obtain ⟨e, he, rfl⟩ := List.mem_map.mp hrow
      rcases entry_key hcs hnone he with ⟨r, hr, _, hr'⟩ | ⟨_, hempty⟩
      · rw [hr'] at hrowCount
        obtain ⟨rfl, rfl⟩ := Prod.mk.inj (Option.some.inj hrowCount)
        exact ⟨(mem_reasons_iff t r).mp hr, names_length t r⟩
      · rw [hempty] at hrowCount
        cases hrowCount
    · rintro ⟨hmem, rfl⟩
      have hget := get_assigned (fun r => unassessedRow ctx provider r (t.names r)) t.byCve
        t.reasons ((mem_reasons_iff t reason).mpr hmem)
      refine ⟨_, (mem_values_iff _ _).mpr ⟨_, hget⟩, ?_⟩
      rw [← names_length]
      rfl
  once := by
    rw [hcandidates, List.filterMap_map, List.Nodup, List.pairwise_filterMap]
    refine (entries_pairwise (t.rows ctx provider)).imp_of_mem ?_
    intro e e' he he' hne r hr r' hr' heq
    obtain ⟨p, hp, rfl⟩ := Option.map_eq_some_iff.mp hr
    obtain ⟨p', hp', rfl⟩ := Option.map_eq_some_iff.mp hr'
    rcases entry_key hcs hnone he with ⟨s, _, hkey, hs⟩ | ⟨_, hempty⟩
    · rcases entry_key hcs hnone he' with ⟨s', _, hkey', hs'⟩ | ⟨_, hempty'⟩
      · rw [hs] at hp
        rw [hs'] at hp'
        rw [← Option.some.inj hp, ← Option.some.inj hp'] at heq
        exact hne (hkey.trans ((congrArg reasonKey heq).trans hkey'.symm))
      · rw [hempty'] at hp'
        cases hp'
    · rw [hempty] at hp
      cases hp
  worst row hrow hrowCount := by
    rw [hcandidates] at hrow
    obtain ⟨k, hk⟩ := (mem_values_iff _ _).mp hrow
    rcases rows_cases hcs hk with ⟨reason, _, _, heq⟩ | ⟨hfree, hworst⟩
    · rw [heq] at hrowCount
      cases hrowCount
    · obtain ⟨hmem, hkey⟩ := mem_of_worst hworst
      refine ⟨hmem, ?_, ?_⟩
      · rintro ⟨reason, hreason, heq⟩
        exact hfree reason ((mem_reasons_iff t reason).mpr hreason) (heq.trans hkey)
      · intro c hc hckey
        refine le_worstOf worse_keepsWorst hworst c (List.mem_filter.mpr ⟨hc, ?_⟩)
        simpa using hckey.trans hkey
  kept c hc hvisible := by
    have hfree : ∀ reason ∈ t.reasons, reasonKey reason ≠ candidateKey c :=
      fun reason hmem heq => hvisible ⟨reason, (mem_reasons_iff t reason).mp hmem, heq⟩
    have hne : cs.filter (fun d => decide (candidateKey d = candidateKey c)) ≠ [] :=
      List.ne_nil_of_mem (List.mem_filter.mpr ⟨hc, by simp⟩)
    obtain ⟨w, hw⟩ := exists_worstOf worse _ hne
    obtain ⟨hmem, hkey⟩ := mem_of_worst hw
    have hget : (t.rows ctx provider).get (candidateKey c) = some (candidateKey c, w) := by
      unfold Tally.rows
      rw [get_assigned_of_ne _ _ _ _ hfree, hcs, get_collapsed, hw]
      rfl
    rw [hcandidates]
    exact ⟨w, (mem_values_iff _ _).mpr ⟨_, hget⟩, hnone w hmem, hkey⟩
  one := by
    rw [hcandidates, List.Nodup, List.pairwise_map, List.pairwise_filter, List.pairwise_map]
    refine (entries_pairwise (t.rows ctx provider)).imp_of_mem ?_
    intro e e' he he' hne hp hp' heq
    rcases entry_key hcs hnone he with ⟨s, _, _, hs⟩ | ⟨hkey, _⟩
    · rw [hs] at hp
      cases hp
    · rcases entry_key hcs hnone he' with ⟨s', _, _, hs'⟩ | ⟨hkey', _⟩
      · rw [hs'] at hp'
        cases hp'
      · exact hne (hkey.trans (heq.trans hkey'.symm))

end Linux

section Windows

variable {lib : BuildText} {dataset : MsrcDataset} {device : MatchDevice} {b : WindowsBuild}

def verdictTable (device : MatchDevice) (dataset : MsrcDataset) (kbs : List String)
    (b : WindowsBuild) : ByCve :=
  (Table.empty (Prod.fst : String × MatchCandidate → String)).applyAll
    ((dataset.remediationsFor b).map fun r => collapse r.cveId (windowsRow device dataset b kbs r))

theorem verdictTable_get {kbs : List String} {k : String} {row : MatchCandidate} :
    (verdictTable device dataset kbs b).get k = some (k, row) ↔
      worstOf worse (((dataset.remediationsFor b).map
        (windowsRow device dataset b kbs)).filter fun c => decide (candidateKey c = k)) =
          some row := by
  have hmap : ((dataset.remediationsFor b).map fun r =>
      collapse r.cveId (windowsRow device dataset b kbs r)) =
        (((dataset.remediationsFor b).map (windowsRow device dataset b kbs)).map fun c =>
          collapse (candidateKey c) c) := by
    rw [List.map_map]
    rfl
  unfold verdictTable
  rw [hmap, get_collapsed, Option.map_eq_some_iff]
  constructor
  · rintro ⟨w, hw, heq⟩
    rw [← (Prod.mk.inj heq).2]
    exact hw
  · intro h
    exact ⟨row, h, rfl⟩

theorem mem_verdicts {kbs : List String} {row : MatchCandidate}
    (h : row ∈ (verdictTable device dataset kbs b).rows.map (·.2)) :
    worstOf worse (((dataset.remediationsFor b).map
      (windowsRow device dataset b kbs)).filter fun c =>
        decide (candidateKey c = candidateKey row)) = some row := by
  obtain ⟨k, hk⟩ := (mem_values_iff _ _).mp h
  have hworst := verdictTable_get.mp hk
  rw [(mem_of_worst hworst).2]
  exact hworst

theorem verdicts_count_nothing {kbs : List String} {row : MatchCandidate}
    (h : row ∈ (verdictTable device dataset kbs b).rows.map (·.2)) : countedAs row = none := by
  obtain ⟨r, _, rfl⟩ := List.mem_map.mp (mem_of_worst (mem_verdicts h)).1
  rfl

theorem osRows_cases (device : MatchDevice) (dataset : MsrcDataset) (kbs : List String)
    (installed : Option WindowsBuild) :
    (∃ b, installed = some b ∧ buildReason dataset installed = [] ∧
        osRows device dataset kbs installed =
          ((verdictTable device dataset kbs b).rows.map (·.2), 1)) ∨
      ∃ reason row, buildReason dataset installed = [reason] ∧ reason ≠ .windowsProduct ∧
        osRows device dataset kbs installed = ([row], 0) ∧
        countedAs row = some (reason, 1) ∧
        (∀ b, installed = some b → dataset.remediationsFor b = []) := by
  cases installed with
  | none => exact .inr ⟨_, _, rfl, by decide, rfl, rfl, by simp⟩
  | some b =>
    by_cases havailable : dataset.available = false
    · refine .inr ⟨.noMsrcData, _, by simp [buildReason, havailable], by decide,
        by simp only [osRows, if_pos havailable]; rfl, rfl, ?_⟩
      intro b' _
      have hempty : dataset.remediations = [] := by
        simpa [MsrcDataset.available] using havailable
      simp [MsrcDataset.remediationsFor, hempty]
    · by_cases hfamily : (dataset.remediationsFor b).isEmpty = true
      · refine .inr ⟨.unknownWindowsBuild, _, by simp [buildReason, havailable, hfamily],
          by decide, by simp only [osRows, if_neg havailable, if_pos hfamily]; rfl, rfl, ?_⟩
        intro b' hb'
        rw [← Option.some.inj hb']
        simpa using hfamily
      · refine .inl ⟨b, rfl, by simp [buildReason, havailable, hfamily], ?_⟩
        simp only [osRows, if_neg havailable, if_neg hfamily]
        rfl

def productRows (dataset : MsrcDataset) (release : Option String) (names : List String) :
    List MatchCandidate :=
  if names.isEmpty then []
  else [windowsUnknownRow dataset release .windowsProduct
    (.unassessed .windowsProduct names.length (samples names)
      (decide (maxUnknownSamples < names.length)))]

theorem mem_productRows {release : Option String} {names : List String} {row : MatchCandidate}
    (h : row ∈ productRows dataset release names) :
    names ≠ [] ∧ countedAs row = some (.windowsProduct, names.length) := by
  unfold productRows at h
  split_ifs at h with hempty
  · cases h
  · rw [List.mem_singleton.mp h]
    exact ⟨by simpa using hempty, rfl⟩

theorem productRows_nonempty (dataset : MsrcDataset) (release : Option String)
    {names : List String} (h : names ≠ []) :
    ∃ row ∈ productRows dataset release names,
      countedAs row = some (.windowsProduct, names.length) := by
  unfold productRows
  rw [if_neg (by simpa using h)]
  exact ⟨_, List.mem_singleton_self _, rfl⟩

theorem productRows_reasons (release : Option String) (names : List String) :
    ((productRows dataset release names).filterMap fun row => (countedAs row).map (·.1)).Nodup := by
  unfold productRows
  split_ifs
  · exact List.nodup_nil
  · exact List.nodup_singleton _

theorem productRows_silent (release : Option String) (names : List String) :
    (productRows dataset release names).filter (fun row => (countedAs row).isNone) = [] := by
  rw [List.filter_eq_nil_iff]
  intro row hrow
  rw [(mem_productRows hrow).2]
  simp

theorem count_products (n : ℕ) (reason : Reason) :
    (List.replicate n Reason.windowsProduct).count reason =
      if reason = .windowsProduct then n else 0 := by
  rw [List.count_replicate]
  by_cases h : reason = .windowsProduct
  · simp [h]
  · simp [h, Ne.symm h]

def buildCandidates (device : MatchDevice) (dataset : MsrcDataset) (kbs : List String)
    (installed : Option WindowsBuild) : List MatchCandidate :=
  match installed with
  | none => []
  | some b => (dataset.remediationsFor b).map (windowsRow device dataset b kbs)

theorem matchWindows_candidates {software : List SoftwareItem} {result : DeviceMatchResult}
    {installed : Option WindowsBuild} (hbuild : parseBuild lib device.osVersion = .ok installed)
    (h : matchWindows lib device dataset software = .ok result) :
    result.candidates = (osRows device dataset (installedKbs lib software) installed).1 ++
        productRows dataset (installed.map WindowsBuild.family) (products lib software) ∧
      result.packagesTotal = (products lib software).length + 1 ∧
      result.packagesAssessed = (osRows device dataset (installedKbs lib software) installed).2 ∧
      result.packagesUnassessed = (products lib software).length +
        (1 - (osRows device dataset (installedKbs lib software) installed).2) := by
  unfold matchWindows at h
  rw [hbuild] at h
  rw [← Except.ok.inj h]
  exact ⟨rfl, rfl, rfl, rfl⟩

theorem assessed_accounts {kbs names : List String} {release : Option String}
    {result : DeviceMatchResult}
    (hcandidates : result.candidates = (verdictTable device dataset kbs b).rows.map (·.2) ++
      productRows dataset release names)
    (htotal : result.packagesTotal = names.length + 1)
    (hassessed : result.packagesAssessed = 1)
    (hunassessed : result.packagesUnassessed = names.length + (1 - 1)) :
    Accounts result (buildCandidates device dataset kbs (some b))
      (List.replicate names.length .windowsProduct) (fun _ => False) where
  total := by omega
  unassessed := by
    rw [hunassessed, List.length_replicate]
    rfl
  counted reason n := by
    rw [hcandidates, count_products]
    constructor
    · rintro ⟨row, hrow, hcount⟩
      rcases List.mem_append.mp hrow with hverdict | hproduct
      · rw [verdicts_count_nothing hverdict] at hcount
        cases hcount
      · obtain ⟨hnames, hproducts⟩ := mem_productRows hproduct
        rw [hproducts] at hcount
        obtain ⟨rfl, rfl⟩ := Prod.mk.inj (Option.some.inj hcount)
        simpa using hnames
    · rintro ⟨hmem, rfl⟩
      obtain ⟨hlen, rfl⟩ := List.mem_replicate.mp hmem
      obtain ⟨row, hrow, hcount⟩ := productRows_nonempty dataset release
        (List.length_pos_iff.mp (Nat.pos_of_ne_zero hlen))
      exact ⟨row, List.mem_append_right _ hrow, hcount⟩
  once := by
    rw [hcandidates, List.filterMap_append]
    have hverdicts : ((verdictTable device dataset kbs b).rows.map (·.2)).filterMap
        (fun row => (countedAs row).map (·.1)) = [] := by
      rw [List.filterMap_eq_nil_iff]
      intro row hrow
      rw [verdicts_count_nothing hrow]
      rfl
    rw [hverdicts]
    exact productRows_reasons release names
  worst row hrow hcount := by
    rw [hcandidates] at hrow
    rcases List.mem_append.mp hrow with hverdict | hproduct
    · have hworst := mem_verdicts hverdict
      refine ⟨(mem_of_worst hworst).1, not_false, ?_⟩
      intro c hc hkey
      exact le_worstOf worse_keepsWorst hworst c (List.mem_filter.mpr ⟨hc, by simpa using hkey⟩)
    · rw [(mem_productRows hproduct).2] at hcount
      cases hcount
  kept c hc _ := by
    have hne : (buildCandidates device dataset kbs (some b)).filter
        (fun d => decide (candidateKey d = candidateKey c)) ≠ [] :=
      List.ne_nil_of_mem (List.mem_filter.mpr ⟨hc, by simp⟩)
    obtain ⟨w, hw⟩ := exists_worstOf worse _ hne
    have hmem : w ∈ (verdictTable device dataset kbs b).rows.map (·.2) :=
      (mem_values_iff _ _).mpr ⟨_, verdictTable_get.mpr hw⟩
    rw [hcandidates]
    exact ⟨w, List.mem_append_left _ hmem, verdicts_count_nothing hmem, (mem_of_worst hw).2⟩
  one := by
    rw [hcandidates, List.filter_append, productRows_silent, List.append_nil, List.Nodup,
      List.pairwise_map, List.pairwise_filter, List.pairwise_map]
    refine (entries_pairwise (verdictTable device dataset kbs b)).imp_of_mem ?_
    intro e e' he he' hne _ _ heq
    have hkey := (mem_of_worst (verdictTable_get.mp (Table.get_self _ he))).2
    have hkey' := (mem_of_worst (verdictTable_get.mp (Table.get_self _ he'))).2
    exact hne (hkey.symm.trans (heq.trans hkey'))

theorem unassessed_accounts {names : List String} {release : Option String}
    {result : DeviceMatchResult} {reason : Reason} {row : MatchCandidate}
    (hreason : reason ≠ .windowsProduct) (hrow : countedAs row = some (reason, 1))
    (hcandidates : result.candidates = [row] ++ productRows dataset release names)
    (htotal : result.packagesTotal = names.length + 1)
    (hassessed : result.packagesAssessed = 0)
    (hunassessed : result.packagesUnassessed = names.length + (1 - 0)) :
    Accounts result [] ([reason] ++ List.replicate names.length .windowsProduct)
      (fun _ => False) where
  total := by omega
  unassessed := by
    rw [hunassessed, List.length_append, List.length_replicate, List.length_singleton]
    omega
  counted r n := by
    rw [hcandidates, List.count_append, count_products]
    constructor
    · rintro ⟨row', hmem, hcount⟩
      rcases List.mem_append.mp hmem with hos | hproduct
      · rw [List.mem_singleton.mp hos, hrow] at hcount
        obtain ⟨rfl, rfl⟩ := Prod.mk.inj (Option.some.inj hcount)
        simp [hreason]
      · obtain ⟨hnames, hproducts⟩ := mem_productRows hproduct
        rw [hproducts] at hcount
        obtain ⟨rfl, rfl⟩ := Prod.mk.inj (Option.some.inj hcount)
        have hcount' : [reason].count Reason.windowsProduct = 0 := by
          rw [List.count_eq_zero]
          simpa using Ne.symm hreason
        rw [hcount']
        refine ⟨List.mem_append_right _ (List.mem_replicate.mpr ⟨?_, rfl⟩), by simp⟩
        simpa using hnames
    · rintro ⟨hmem, rfl⟩
      rcases List.mem_append.mp hmem with hos | hproduct
      · rw [List.mem_singleton.mp hos]
        refine ⟨row, by simp, ?_⟩
        rw [hrow, if_neg hreason]
        simp
      · obtain ⟨hlen, rfl⟩ := List.mem_replicate.mp hproduct
        obtain ⟨row', hrow', hcount⟩ := productRows_nonempty dataset release
          (List.length_pos_iff.mp (Nat.pos_of_ne_zero hlen))
        refine ⟨row', List.mem_append_right _ hrow', ?_⟩
        have hcount' : [reason].count Reason.windowsProduct = 0 := by
          rw [List.count_eq_zero]
          simpa using Ne.symm hreason
        rw [hcount, hcount']
        simp
  once := by
    rw [hcandidates, List.filterMap_append]
    refine List.nodup_append'.mpr ⟨?_, productRows_reasons release names, ?_⟩
    · simp [hrow]
    · intro r hr hr'
      obtain ⟨row', hrow', heq⟩ := List.mem_filterMap.mp hr'
      rw [(mem_productRows hrow').2] at heq
      have hwindows : r = .windowsProduct := (Option.some.inj heq).symm
      simp only [List.filterMap_cons, hrow, Option.map_some, List.filterMap_nil,
        List.mem_singleton] at hr
      exact hreason (hr.symm.trans hwindows)
  worst row' hmem hcount := by
    rw [hcandidates] at hmem
    rcases List.mem_append.mp hmem with hos | hproduct
    · rw [List.mem_singleton.mp hos, hrow] at hcount
      cases hcount
    · rw [(mem_productRows hproduct).2] at hcount
      cases hcount
  kept c hc _ := by cases hc
  one := by
    rw [hcandidates, List.filter_append, productRows_silent]
    simp [hrow]

theorem matchWindows_accounts {software : List SoftwareItem} {result : DeviceMatchResult}
    {installed : Option WindowsBuild} (hbuild : parseBuild lib device.osVersion = .ok installed)
    (h : matchWindows lib device dataset software = .ok result) :
    Accounts result (buildCandidates device dataset (installedKbs lib software) installed)
      (buildReason dataset installed ++
        List.replicate (products lib software).length .windowsProduct) (fun _ => False) := by
  obtain ⟨hcandidates, htotal, hassessed, hunassessed⟩ := matchWindows_candidates hbuild h
  rcases osRows_cases device dataset (installedKbs lib software)
      installed with ⟨b, rfl, hreasons, hrows⟩ | ⟨reason, row, hreasons, hne, hrows, hrow, hnone⟩
  · rw [hrows] at hcandidates hassessed hunassessed
    rw [hreasons]
    exact assessed_accounts hcandidates htotal hassessed hunassessed
  · rw [hrows] at hcandidates hassessed hunassessed
    have hempty : buildCandidates device dataset (installedKbs lib software) installed = [] := by
      cases installed with
      | none => rfl
      | some b =>
        simp [buildCandidates, hnone b rfl]
    rw [hreasons, hempty]
    exact unassessed_accounts hne hrow hcandidates htotal hassessed hunassessed

end Windows

section Readable

/-- The two texts of a comparison, as far as it reads them: no digits in front of a colon that `int`
refuses, and an installed version that is still one where its release is taken off. -/
structure PairReads (lib : VersionText) (flavor : Flavor) (installed fixed : String) : Prop where
  first : parseEvr lib installed flavor ≠ .error .value
  second : ∀ a, parseEvr lib installed flavor = .ok a → parseEvr lib fixed flavor ≠ .error .value
  dropped : ∀ a b, parseEvr lib installed flavor = .ok a → parseEvr lib fixed flavor = .ok b →
    b.release = "" → a.release ≠ "" →
      ∃ e, parseEvr lib ({ a with release := "" } : Evr).toText flavor = .ok e

def compared (r : AdvisoryRecord) : Bool :=
  decide (r.state ≠ .notAffected ∧ r.state ≠ .open_ ∧ text r.fixedVersion ≠ "")

def comparedRecords (lib : Text) (ctx : DistroContext) (provider : Option Provider)
    (identity : PackageIdentity) : List AdvisoryRecord :=
  if identity.matchable = false ∨ coverageReason provider (text ctx.release) ≠ none then []
  else
    match provider with
    | none => []
    | some p =>
      (if onRpmDistro ctx.distro then (selectRecords lib identity p).1
        else (firstCovered identity p).2).filter compared

def sourceOf (item : SoftwareItem) : String :=
  if text item.source = "" then "other" else text item.source

/-- The grammar the version of an item is read in, none where it comes from no distribution. -/
def flavorOf (lib : OsText) (item : SoftwareItem) : Option Flavor :=
  sourceFlavor (if normalize lib (some (sourceOf item)) = "" then "other"
    else normalize lib (some (sourceOf item)))

/-- The texts that are parsed for one item can all be read. -/
structure ItemReads (lib : OsText) (ctx : DistroContext) (provider : Option Provider)
    (item : SoftwareItem) : Prop where
  version : ∀ flavor, flavorOf lib item = some flavor → lib.strip (text item.version) ≠ "" →
    (flavor = .rpm → validEvr (lib.strip (text item.version)) = true) →
      parseEvr lib.toVersionText (text item.version) flavor ≠ .error .value
  pairs : ∀ identity,
    identify lib (text item.name) item.version item.architecture (sourceOf item) ctx =
      .ok identity →
    ∀ r ∈ comparedRecords lib.toText ctx provider identity,
      PairReads lib.toVersionText (identity.flavor.getD .deb) (text identity.version)
        (text r.fixedVersion)

/-- The texts that a pass parses as versions or builds can all be read. -/
structure Readable (lib : BuildText) (providerFor : Option String → Option Provider)
    (device : MatchDevice) (software : List SoftwareItem) : Prop where
  build : onWindows lib device → parseBuild lib device.osVersion ≠ .error .value
  items : ¬ onWindows lib device → ∀ item ∈ software,
    ItemReads lib.toOsText (contextOf lib device) (providerOf lib providerFor device) item

variable {lib : VersionText}

theorem isFixed_ok_iff {installed fixed : String} {flavor : Flavor} {b : Evr}
    (hb : parseEvr lib fixed flavor = .ok b) :
    (∃ v, isFixed lib installed fixed flavor = .ok v) ↔
      ∃ a, parseEvr lib installed flavor = .ok a := by
  unfold isFixed compareVersion
  cases flavor with
  | deb => cases ha : parseEvr lib installed .deb <;> simp [compareDpkgVersion, ha, hb]
  | rpm => cases ha : parseEvr lib installed .rpm <;> simp [compareRpmVersion, ha, hb]

theorem compareStatus_ok_iff {installed fixed : String} {flavor : Flavor} :
    (∃ v, compareStatus lib installed fixed flavor = .ok v) ↔
      PairReads lib flavor installed fixed := by
  unfold compareStatus
  cases ha : parseEvr lib installed flavor with
  | error e =>
    cases e with
    | versionParse =>
      refine iff_of_true ⟨_, rfl⟩ ⟨by simp [ha], fun a h => ?_, fun a b h => ?_⟩ <;>
        exact absurd (ha.symm.trans h) (by simp)
    | value => exact iff_of_false (fun ⟨_, h⟩ => by cases h) fun h => h.first ha
  | ok a =>
    cases hb : parseEvr lib fixed flavor with
    | error e =>
      cases e with
      | versionParse =>
        refine iff_of_true ⟨_, rfl⟩ ⟨by simp [ha], fun _ _ => by simp [hb], fun _ b _ h => ?_⟩
        exact absurd (hb.symm.trans h) (by simp)
      | value => exact iff_of_false (fun ⟨_, h⟩ => by cases h) fun h => h.second a ha hb
    | ok b =>
      have hended : (∃ v, isFixed lib (comparedWith installed a b) fixed flavor = .ok v) ↔
          PairReads lib flavor installed fixed := by
        rw [isFixed_ok_iff hb, comparedWith]
        constructor
        · intro h
          refine ⟨by simp [ha], fun _ _ => by simp [hb], fun a' b' ha' hb' hfix hinst => ?_⟩
          obtain rfl := Except.ok.inj (ha.symm.trans ha')
          obtain rfl := Except.ok.inj (hb.symm.trans hb')
          rw [if_pos ⟨hfix, hinst⟩] at h
          exact h
        · intro h
          split_ifs with hdrop
          · exact h.dropped a b ha hb hdrop.1 hdrop.2
          · exact ⟨a, ha⟩
      rw [← hended]
      cases hanswer : isFixed lib (comparedWith installed a b) fixed flavor with
      | error e => simp [hanswer]
      | ok v => cases v <;> simp [hanswer]

theorem recordStatus_ok_iff {installed : String} {flavor : Flavor} {r : AdvisoryRecord} :
    (∃ v, recordStatus lib installed flavor r = .ok v) ↔
      (compared r = true → PairReads lib flavor installed (text r.fixedVersion)) := by
  unfold recordStatus compared
  rw [decide_eq_true_iff]
  split_ifs with hsafe hopen
  · exact iff_of_true ⟨_, rfl⟩ fun h => absurd hsafe h.1
  · exact iff_of_true ⟨_, rfl⟩ fun h => hopen.elim (absurd · h.2.1) (absurd · h.2.2)
  · rw [compareStatus_ok_iff]
    exact ⟨fun h _ => h, fun h => h ⟨hsafe, not_or.mp hopen⟩⟩

theorem evaluateRecords_ok_iff {identity : PackageIdentity} (p : Provider) (name : String)
    {rs : List AdvisoryRecord} :
    (∃ cs, evaluateRecords lib identity p name rs = .ok cs) ↔
      ∀ r ∈ rs.filter compared, PairReads lib (identity.flavor.getD .deb)
        (text identity.version) (text r.fixedVersion) := by
  induction rs with
  | nil => simp [evaluateRecords]
  | cons r rs ih =>
    have hsplit : (∃ cs, evaluateRecords lib identity p name (r :: rs) = .ok cs) ↔
        (∃ v, recordStatus lib (text identity.version) (identity.flavor.getD .deb) r = .ok v) ∧
          ∃ cs, evaluateRecords lib identity p name rs = .ok cs := by
      rw [evaluateRecords]
      cases recordStatus lib (text identity.version) (identity.flavor.getD .deb) r with
      | error e => simp
      | ok v => cases evaluateRecords lib identity p name rs <;> simp
    rw [hsplit, recordStatus_ok_iff, ih]
    simp only [List.mem_filter, List.forall_mem_cons, and_imp]

theorem readVersion_ok_iff {lib : OsText} {version : Option String} {flavor : Option Flavor} :
    (∃ v, readVersion lib version flavor = .ok v) ↔
      ∀ f, flavor = some f → lib.strip (text version) ≠ "" →
        (f = .rpm → validEvr (lib.strip (text version)) = true) →
          parseEvr lib.toVersionText (text version) f ≠ .error .value := by
  unfold readVersion
  split_ifs with hblank hgrammar
  · exact iff_of_true ⟨_, rfl⟩ fun _ _ h => absurd hblank h
  · refine iff_of_true ⟨_, rfl⟩ fun f hf _ hvalid => ?_
    obtain rfl := Option.some.inj (hf.symm.trans hgrammar.1)
    exact absurd ((hvalid rfl).symm.trans hgrammar.2) (by decide)
  · cases flavor with
    | none => simp
    | some f =>
      have hvalid : f = .rpm → validEvr (lib.strip (text version)) = true := by
        rintro rfl
        exact (Bool.not_eq_false _).mp fun h => hgrammar ⟨rfl, h⟩
      have hreads : (∀ f', some f = some f' → lib.strip (text version) ≠ "" →
          (f' = .rpm → validEvr (lib.strip (text version)) = true) →
            parseEvr lib.toVersionText (text version) f' ≠ .error .value) ↔
          parseEvr lib.toVersionText (text version) f ≠ .error .value := by
        constructor
        · intro h
          exact h f rfl hblank hvalid
        · intro h f' hf' _ _
          rw [← Option.some.inj hf']
          exact h
      rw [hreads]
      cases hparse : parseEvr lib.toVersionText (text version) f with
      | ok evr => simp [hparse]
      | error e => cases e <;> simp [hparse]

theorem identify_ok_iff {lib : OsText} {ctx : DistroContext} {item : SoftwareItem} :
    (∃ identity, identify lib (text item.name) item.version item.architecture (sourceOf item) ctx =
      .ok identity) ↔ ∃ v, readVersion lib item.version (flavorOf lib item) = .ok v := by
  unfold identify flavorOf
  simp only
  cases readVersion lib item.version _ with
  | error e => simp
  | ok v => simp

theorem identify_distro {lib : OsText} {ctx : DistroContext} {name : String}
    {version architecture : Option String} {source : String} {identity : PackageIdentity}
    (h : identify lib name version architecture source ctx = .ok identity) :
    identity.distro = ctx.distro := by
  unfold identify at h
  simp only at h
  split at h
  case h_1 => cases h
  case h_2 => rw [← Except.ok.inj h]

theorem selectRecords_of_reason {lib : Text} {identity : PackageIdentity} {p : Provider}
    (h : (selectRecords lib identity p).2.isSome = true) :
    (selectRecords lib identity p).1 = [] := by
  unfold selectRecords at h ⊢
  cases harch : PackageIdentities.architecture lib identity.architecture with
  | none => rfl
  | some arch =>
    simp only [harch] at h ⊢
    split_ifs at h ⊢ <;> first | rfl | cases h

/-- An item is assessed or counted exactly where the texts that are parsed for it can be read. -/
theorem assess_ok_iff {lib : OsText} {ctx : DistroContext} {provider : Option Provider}
    {item : SoftwareItem} :
    (∃ o, assess lib ctx provider item = .ok o) ↔ ItemReads lib ctx provider item := by
  have hreads : ItemReads lib ctx provider item ↔
      (∃ identity, identify lib (text item.name) item.version item.architecture (sourceOf item)
        ctx = .ok identity) ∧
      ∀ identity, identify lib (text item.name) item.version item.architecture (sourceOf item)
        ctx = .ok identity → ∀ r ∈ comparedRecords lib.toText ctx provider identity,
          PairReads lib.toVersionText (identity.flavor.getD .deb) (text identity.version)
            (text r.fixedVersion) := by
    rw [identify_ok_iff, readVersion_ok_iff]
    exact ⟨fun h => ⟨h.version, h.pairs⟩, fun h => ⟨h.1, h.2⟩⟩
  rw [hreads]
  unfold assess
  rw [show (if text item.source = "" then "other" else text item.source) = sourceOf item from rfl]
  cases hidentity : identify lib (text item.name) item.version item.architecture (sourceOf item)
      ctx with
  | error e => simp
  | ok identity =>
    have hdistro := identify_distro hidentity
    simp only [Except.ok.injEq, exists_eq', true_and, forall_eq']
    unfold comparedRecords
    by_cases hmatchable : identity.matchable = false
    · rw [if_pos hmatchable, if_pos (.inl hmatchable)]
      exact iff_of_true ⟨_, rfl⟩ (List.forall_mem_nil _)
    · rw [if_neg hmatchable]
      cases hcoverage : coverageReason provider (text ctx.release) with
      | some missing =>
        rw [if_pos (.inr (by simp))]
        exact iff_of_true (by cases provider <;> exact ⟨_, rfl⟩) (List.forall_mem_nil _)
      | none =>
        rw [if_neg (by simp [hmatchable])]
        cases provider with
        | none => exact iff_of_true ⟨_, rfl⟩ (List.forall_mem_nil _)
        | some p =>
          have havailable : p.available = true := by
            by_contra hoff
            rw [coverageReason, if_pos ((Bool.not_eq_true _).mp hoff)] at hcoverage
            cases hcoverage
          simp only
          split
          case isTrue hleft =>
            rw [if_pos hleft.1, selectRecords_of_reason hleft.2]
            exact iff_of_true ⟨_, rfl⟩ (List.forall_mem_nil _)
          case isFalse =>
            have hrecords : (recordsFor lib.toText identity p
                (if onRpmDistro ctx.distro then some (selectRecords lib.toText identity p).1
                  else none)).2 =
                if onRpmDistro ctx.distro then (selectRecords lib.toText identity p).1
                  else (firstCovered identity p).2 := by
              split_ifs with hrpm
              · rfl
              · rw [recordsFor, hdistro, if_neg hrpm]
            rw [← hrecords, ← evaluateRecords_ok_iff p (recordsFor lib.toText identity p
              (if onRpmDistro ctx.distro then some (selectRecords lib.toText identity p).1
                else none)).1, evaluatePackage]
            simp only [hmatchable, havailable, Bool.true_eq_false, or_self, if_false]
            cases evaluateRecords lib.toVersionText identity p _ _ with
            | error e => simp
            | ok cs => simp

end Readable

section Order

variable {lib : BuildText} {providerFor : Option String → Option Provider}
  {dataset : MsrcDataset} {device : MatchDevice} {software software' : List SoftwareItem}
  {result result' : DeviceMatchResult}

theorem mem_installedKbs (h : software.Perm software') (kb : String) :
    kb ∈ installedKbs lib software ↔ kb ∈ installedKbs lib software' :=
  ((((h.filter _).map _).filter _).map _).mem_iff

theorem windowsRow_congr {kbs kbs' : List String} (h : ∀ kb, kb ∈ kbs ↔ kb ∈ kbs')
    (b : WindowsBuild) :
    windowsRow device dataset b kbs = windowsRow device dataset b kbs' := by
  have hcarries : carries b kbs = carries b kbs' := by
    funext r
    unfold carries
    simp only [List.contains_iff_mem, h]
  funext r
  unfold windowsRow
  rw [hcarries]

variable (lib) in
theorem products_perm (h : software.Perm software') :
    (products lib software).Perm (products lib software') :=
  (h.filter _).map _

theorem candidatesOf_perm (h : software.Perm software') :
    (candidatesOf lib providerFor dataset device software).Perm
      (candidatesOf lib providerFor dataset device software') := by
  unfold candidatesOf
  split_ifs
  · cases parseBuild lib device.osVersion with
    | error e => exact .refl _
    | ok installed =>
      cases installed with
      | none => exact .refl _
      | some b =>
        simp only
        rw [windowsRow_congr (mem_installedKbs h) b]
  · exact (h.filterMap _).flatMap_right _

theorem unassessedReasons_perm (h : software.Perm software') :
    (unassessedReasons lib providerFor dataset device software).Perm
      (unassessedReasons lib providerFor dataset device software') := by
  unfold unassessedReasons
  split_ifs
  · cases parseBuild lib device.osVersion with
    | error e => exact .refl _
    | ok installed =>
      simp only
      rw [(products_perm lib h).length_eq]
  · exact ((h.filterMap _).filterMap _).map _

theorem hiddenKey_perm (h : software.Perm software') :
    hiddenKey lib providerFor dataset device software =
      hiddenKey lib providerFor dataset device software' := by
  funext key
  unfold hiddenKey
  simp only [(unassessedReasons_perm h).mem_iff]

theorem matchSoftware_ok_perm (h : software.Perm software')
    (hok : matchSoftware lib providerFor dataset device software = .ok result) :
    ∃ result', matchSoftware lib providerFor dataset device software' = .ok result' ∧
      result'.packagesTotal = result.packagesTotal := by
  unfold matchSoftware at hok ⊢
  split_ifs at hok ⊢
  · unfold matchWindows at hok ⊢
    cases hbuild : parseBuild lib device.osVersion with
    | error e =>
      rw [hbuild] at hok
      cases hok
    | ok installed =>
      rw [hbuild] at hok
      refine ⟨_, rfl, ?_⟩
      rw [← Except.ok.inj hok]
      simp only
      rw [(products_perm lib h).length_eq]
  · unfold matchLinux at hok ⊢
    simp only at hok ⊢
    split at hok
    case h_1 => cases hok
    case h_2 t htally =>
      obtain ⟨hall, _⟩ := (tally_eq_ok_iff _ _ _).mp htally
      have htally' := (tally_eq_ok_iff Tally.empty _ _).mpr
        ⟨fun item hitem => hall item (h.mem_iff.mpr hitem), rfl⟩
      rw [htally']
      refine ⟨_, rfl, ?_⟩
      rw [← Except.ok.inj hok]
      exact h.length_eq.symm

end Order

section Main

variable {lib : BuildText} {providerFor : Option String → Option Provider}
  {dataset : MsrcDataset} {device : MatchDevice} {software : List SoftwareItem}
  {result : DeviceMatchResult}

theorem matchSoftware_ok_iff : Readable lib providerFor device software ↔
    ∃ result, matchSoftware lib providerFor dataset device software = .ok result := by
  unfold matchSoftware
  by_cases hwindows : onWindows lib device
  · have hbuild : Readable lib providerFor device software ↔
        parseBuild lib device.osVersion ≠ .error .value :=
      ⟨fun h => h.build hwindows, fun h => ⟨fun _ => h, fun hlinux => absurd hwindows hlinux⟩⟩
    have hon : lib.lower (lib.strip (text device.osFamily)) = "windows" := hwindows
    rw [hbuild, if_pos hon, matchWindows]
    cases hparse : parseBuild lib device.osVersion with
    | error e =>
      cases e with
      | value => simp
      | versionParse => exact absurd hparse (by unfold parseBuild; grind)
    | ok installed => simp
  · have hitems : Readable lib providerFor device software ↔ ∀ item ∈ software,
        ItemReads lib.toOsText (contextOf lib device) (providerOf lib providerFor device) item :=
      ⟨fun h => h.items hwindows, fun h => ⟨fun hon => absurd hon hwindows, fun _ => h⟩⟩
    have htally := @tally_eq_ok_iff lib.toOsText (contextOf lib device)
      (providerOf lib providerFor device) Tally.empty
    have hoff : ¬ lib.lower (lib.strip (text device.osFamily)) = "windows" := hwindows
    rw [hitems, if_neg hoff, matchLinux]
    unfold providerOf contextOf at htally ⊢
    cases htallied : tally lib.toOsText
        (resolveDistro lib.toOsText device.osFamily device.osName device.osVersion) _ .empty
        software with
    | error e =>
      refine iff_of_false (fun hall => ?_) (by simp)
      have hok := (htally _ software).mpr
        ⟨fun item hitem => assess_ok_iff.mpr (hall item hitem), rfl⟩
      exact absurd (htallied.symm.trans hok) (by simp)
    | ok t =>
      refine iff_of_true (fun item hitem => ?_) (by simp)
      exact assess_ok_iff.mp (((htally t software).mp htallied).1 item hitem)

theorem matchSoftware_accountsFor
    (h : matchSoftware lib providerFor dataset device software = .ok result) :
    Accounts result (candidatesOf lib providerFor dataset device software)
      (unassessedReasons lib providerFor dataset device software)
      (hiddenKey lib providerFor dataset device software) := by
  unfold matchSoftware at h
  split at h
  case isTrue hwindows =>
    have honWindows : onWindows lib device := hwindows
    cases hbuild : parseBuild lib device.osVersion with
    | error e =>
      unfold matchWindows at h
      rw [hbuild] at h
      cases h
    | ok installed =>
      have haccounts := matchWindows_accounts hbuild h
      have hcandidates : candidatesOf lib providerFor dataset device software =
          buildCandidates device dataset (installedKbs lib software) installed := by
        unfold candidatesOf buildCandidates
        rw [if_pos honWindows, hbuild]
        cases installed with
        | none => rfl
        | some b => rfl
      have hreasons : unassessedReasons lib providerFor dataset device software =
          buildReason dataset installed ++
            List.replicate (products lib software).length .windowsProduct := by
        unfold unassessedReasons
        rw [if_pos honWindows, hbuild]
      have hhidden : hiddenKey lib providerFor dataset device software = fun _ => False := by
        funext key
        simp [hiddenKey, honWindows]
      rw [hcandidates, hreasons, hhidden]
      exact haccounts
  case isFalse hlinux =>
    have hoffWindows : ¬ onWindows lib device := hlinux
    unfold matchLinux at h
    simp only at h
    split at h
    case h_1 => cases h
    case h_2 t htally =>
      obtain ⟨hall, ht⟩ := (tally_eq_ok_iff _ _ _).mp htally
      have hcs := foldl_add_byCve Tally.empty (outcomesOf lib.toOsText (contextOf lib device)
        (providerOf lib providerFor device) software)
      have hleft := foldl_add_unassessed Tally.empty (outcomesOf lib.toOsText
        (contextOf lib device) (providerOf lib providerFor device) software)
      have hcount := foldl_add_count Tally.empty (outcomesOf lib.toOsText
        (contextOf lib device) (providerOf lib providerFor device) software)
      have hlength := outcomesOf_length hall
      unfold providerOf contextOf at hcs hleft hcount
      rw [← ht] at hcs hleft hcount
      have hcandidates : candidatesOf lib providerFor dataset device software =
          (outcomesOf lib.toOsText (contextOf lib device) (providerOf lib providerFor device)
            software).flatMap Outcome.candidates := if_neg hoffWindows
      have hreasons : unassessedReasons lib providerFor dataset device software =
          t.unassessed.map (·.1) := by
        unfold unassessedReasons providerOf contextOf
        rw [if_neg hoffWindows, hleft]
        rfl
      have hhidden : hiddenKey lib providerFor dataset device software =
          fun key => ∃ reason ∈ t.unassessed.map (·.1), reasonKey reason = key := by
        funext key
        unfold hiddenKey
        rw [hreasons]
        simp [hoffWindows]
      rw [hcandidates, hreasons, hhidden]
      refine rows_accounts hcs (candidates_count_nothing software) ?_
        (congrArg DeviceMatchResult.candidates (Except.ok.inj h).symm)
        (congrArg DeviceMatchResult.packagesTotal (Except.ok.inj h).symm)
        (congrArg DeviceMatchResult.packagesAssessed (Except.ok.inj h).symm)
        (congrArg DeviceMatchResult.packagesUnassessed (Except.ok.inj h).symm)
      rw [hcount, hlength]
      simp [Tally.empty]

/-- A pass ends exactly where the texts that it parses can be read; one that ends counts every
package once, assessed or under one reason, and shows each CVE of each installation with its worst
status, whatever the order of the software list. -/
theorem matchSoftware_accounts (lib : BuildText) (providerFor : Option String → Option Provider)
    (dataset : MsrcDataset) (device : MatchDevice) (software : List SoftwareItem) :
    (Readable lib providerFor device software ↔
      ∃ result, matchSoftware lib providerFor dataset device software = .ok result) ∧
    ∀ result, matchSoftware lib providerFor dataset device software = .ok result →
      Accounts result (candidatesOf lib providerFor dataset device software)
        (unassessedReasons lib providerFor dataset device software)
        (hiddenKey lib providerFor dataset device software) ∧
      ∀ software' : List SoftwareItem, software.Perm software' →
        ∃ result', matchSoftware lib providerFor dataset device software' = .ok result' ∧
          result'.packagesTotal = result.packagesTotal ∧
          result'.packagesAssessed = result.packagesAssessed ∧
          result'.packagesUnassessed = result.packagesUnassessed ∧
          ∀ key status, Shows result' key status ↔ Shows result key status := by
  refine ⟨matchSoftware_ok_iff, ?_⟩
  intro result hok
  have haccounts := matchSoftware_accountsFor hok
  refine ⟨haccounts, ?_⟩
  intro software' hperm
  obtain ⟨result', hok', htotal⟩ := matchSoftware_ok_perm hperm hok
  have haccounts' := matchSoftware_accountsFor hok'
  have hunassessed : result'.packagesUnassessed = result.packagesUnassessed := by
    rw [haccounts'.unassessed, haccounts.unassessed, (unassessedReasons_perm hperm).length_eq]
  have hassessed : result'.packagesAssessed = result.packagesAssessed := by
    have hsum := haccounts.total
    have hsum' := haccounts'.total
    omega
  rw [← hiddenKey_perm hperm] at haccounts'
  refine ⟨result', hok', htotal, hassessed, hunassessed, ?_⟩
  intro key status
  exact ⟨haccounts'.shows_of_perm haccounts (candidatesOf_perm hperm).symm,
    haccounts.shows_of_perm haccounts' (candidatesOf_perm hperm)⟩

end Main

section Hosts

def latinText : BuildText :=
  { ascii with
    isdigit := fun value => decide (value ≠ "") &&
      value.toList.all fun c => c.isDigit || c == '\u00b2' || c == '\u00b3' || c == '\u00b9'
    distroId := fun _ => none
    releaseId := fun _ _ _ => none
    tokens := fun value => (value.toList.splitOn ' ').map String.ofList
    buildParts := fun _ => none }

def jammyHost : MatchDevice where
  deviceId := some "device-1"
  osFamily := some "linux"
  osName := some "Ubuntu"
  osVersion := some "22.04"
  latestSnapshotId := some "snapshot-1"

def opensslFix : AdvisoryRecord where
  advisoryId := "USN-1"
  cveIds := ["CVE-2024-1"]
  release := "jammy"
  sourcePackage := "openssl"
  fixedVersion := some "3.0.2-0ubuntu1.10"
  severity := "high"
  state := .resolved
  url := none
  provider := "ubuntu"
  feedDate := none
  rpm := none

def ubuntuFeed : Provider where
  name := "ubuntu"
  available := true
  feedDate := none
  releases := ["jammy"]
  advisoriesFor release name :=
    if release = "jammy" ∧ name = "openssl" then [opensslFix] else []

def ubuntuProviders (distro : Option String) : Option Provider :=
  if distro = some "ubuntu" then some ubuntuFeed else none

def noRemediations : MsrcDataset := { remediations := [], feedDate := none }

def openssl (version : String) (installation : Option String) : SoftwareItem where
  name := some "openssl"
  version := some version
  architecture := some "amd64"
  source := some "dpkg"
  installationIdentity := installation
  instanceId := none
  scope := none
  packageId := none

def statuses (result : DeviceMatchResult) : List (String × MatchStatus) :=
  result.candidates.map fun c => (c.cveId, c.status)

/-- A superscript epoch stops the whole pass; two copies of a package show one CVE twice. -/
theorem superscript_epoch_raises :
    (matchSoftware latinText ubuntuProviders noRemediations jammyHost
        [openssl "\u00b2:3.0.2-0ubuntu1.10" none]).toOption = none ∧
    (matchSoftware latinText ubuntuProviders noRemediations jammyHost
        [openssl "3.0.2-0ubuntu1.9" (some "copy-1"),
          openssl "3.0.2-0ubuntu1.10" (some "copy-2")]).toOption.map statuses =
      some [("CVE-2024-1", .vulnerable), ("CVE-2024-1", .fixed)] := by
  constructor
  · decide +kernel
  · decide +kernel

def pip : SoftwareItem where
  name := some "requests"
  version := some "\u00b2:1"
  architecture := none
  source := some "pip"
  installationIdentity := none
  instanceId := none
  scope := none
  packageId := none

theorem itemReads_pip (provider : Option Provider) :
    ItemReads latinText.toOsText (contextOf latinText jammyHost) provider pip where
  version flavor hflavor := by
    have hnone : flavorOf latinText.toOsText pip = none := by decide +kernel
    rw [hnone] at hflavor
    cases hflavor
  pairs identity hidentity r hr := by
    have hunmatched : (identify latinText.toOsText (text pip.name) pip.version pip.architecture
        (sourceOf pip) (contextOf latinText jammyHost)).toOption.map PackageIdentity.matchable =
          some false := by decide +kernel
    rw [hidentity] at hunmatched
    unfold comparedRecords at hr
    rw [if_pos (.inl (Option.some.inj hunmatched))] at hr
    cases hr

theorem itemReads_openssl :
    ItemReads latinText.toOsText (contextOf latinText jammyHost) (some ubuntuFeed)
      (openssl "3.0.2-0ubuntu1.9" none) where
  version flavor _ _ _ := by
    cases flavor <;> decide +kernel
  pairs identity hidentity r hr := by
    have hread : (identify latinText.toOsText (text (openssl "3.0.2-0ubuntu1.9" none).name)
        (openssl "3.0.2-0ubuntu1.9" none).version (openssl "3.0.2-0ubuntu1.9" none).architecture
        (sourceOf (openssl "3.0.2-0ubuntu1.9" none)) (contextOf latinText jammyHost)).toOption.map
          (fun identity => (identity.flavor, text identity.version,
            (comparedRecords latinText.toText (contextOf latinText jammyHost) (some ubuntuFeed)
              identity).map fun r => text r.fixedVersion)) =
          some (some .deb, "3.0.2-0ubuntu1.9", ["3.0.2-0ubuntu1.10"]) := by decide +kernel
    rw [hidentity] at hread
    obtain ⟨hflavor, hversion, hrecords⟩ := Prod.mk.inj (Option.some.inj hread) |>.imp id
      Prod.mk.inj
    have hfixed : text r.fixedVersion = "3.0.2-0ubuntu1.10" :=
      List.mem_singleton.mp (hrecords ▸ List.mem_map_of_mem hr)
    rw [hflavor, hversion, hfixed]
    have hfix : (parseEvr latinText.toVersionText "3.0.2-0ubuntu1.10" .deb).toOption.map
        Evr.release = some "0ubuntu1.10" := by decide +kernel
    refine ⟨by decide +kernel, fun _ _ => by decide +kernel, fun a b _ hb hnone => ?_⟩
    change parseEvr latinText.toVersionText "3.0.2-0ubuntu1.10" .deb = .ok b at hb
    rw [hb] at hfix
    exact absurd ((Option.some.inj hfix).symm.trans hnone) (by decide)

theorem matchSoftware_accounts_pip :
    ∃ result result',
      matchSoftware latinText ubuntuProviders noRemediations jammyHost
        [pip, openssl "3.0.2-0ubuntu1.9" none] = .ok result ∧
      result.packagesTotal = result.packagesAssessed + result.packagesUnassessed ∧
      matchSoftware latinText ubuntuProviders noRemediations jammyHost
        [openssl "3.0.2-0ubuntu1.9" none, pip] = .ok result' ∧
      ∀ key status, Shows result' key status ↔ Shows result key status := by
  have hprovider : providerOf latinText ubuntuProviders jammyHost = some ubuntuFeed := by
    have hcontext : (contextOf latinText jammyHost).supported = true ∧
        (contextOf latinText jammyHost).distro = some "ubuntu" := by decide +kernel
    rw [providerOf, if_pos hcontext.1, hcontext.2]
    rfl
  have hreadable : Readable latinText ubuntuProviders jammyHost
      [pip, openssl "3.0.2-0ubuntu1.9" none] := by
    refine ⟨fun hon => absurd hon (by decide +kernel), fun _ item hitem => ?_⟩
    rw [hprovider]
    rcases List.mem_pair.mp hitem with rfl | rfl
    · exact itemReads_pip _
    · exact itemReads_openssl
  obtain ⟨hends, haccounts⟩ := matchSoftware_accounts latinText ubuntuProviders noRemediations
    jammyHost [pip, openssl "3.0.2-0ubuntu1.9" none]
  obtain ⟨result, hresult⟩ := hends.mp hreadable
  obtain ⟨htotals, horder⟩ := haccounts result hresult
  obtain ⟨result', hresult', _, _, _, hshows⟩ := horder
    [openssl "3.0.2-0ubuntu1.9" none, pip] (List.Perm.swap _ _ _)
  exact ⟨result, result', hresult, htotals.total, hresult', hshows⟩

end Hosts

end Shapoclyack.MatchAccounting
