import Shapoclyack.VerificationHonesty

set_option autoImplicit false

namespace Shapoclyack.CoverageSoundness

open FindingEvidence ProductionEvidence ReportEntries Detectors VerificationArtifacts
open VerificationCoverage VulnStates Findings FindingFold FoldEffects VerificationHonesty

section Judging

variable (lib : CoverageText) (run : RunArtifacts)

def Accepts (e : Detector) (port : Option ℕ) (address : String) : Prop :=
  reasonOf lib run e [address] port = none

instance (e : Detector) (port : Option ℕ) (address : String) :
    Decidable (Accepts lib run e port address) :=
  inferInstanceAs (Decidable (_ = _))

/-- The entry's own rule accepts every address it is held to, and there is one. -/
def Covered (port : Option String) (assetHosts : List String) (e : Detector) : Prop :=
  heldTo lib assetHosts e ≠ [] ∧
    ∀ a ∈ heldTo lib assetHosts e, Accepts lib run e (endpointPort lib port e) a

instance (port : Option String) (assetHosts : List String) (e : Detector) :
    Decidable (Covered lib run port assetHosts e) :=
  inferInstanceAs (Decidable (_ ∧ _))

theorem firstFailing_none_iff (e : Detector) (port : Option ℕ) (hosts : List String) :
    firstFailing lib run e port hosts = none ↔ ∀ a ∈ hosts, Accepts lib run e port a := by
  induction hosts with
  | nil => simp [firstFailing]
  | cons host rest ih =>
    rw [List.forall_mem_cons]
    unfold firstFailing Accepts
    cases hreason : reasonOf lib run e [host] port with
    | some reason => simp
    | none => exact ih.trans (by simp [Accepts])

theorem judge_hosts (port : Option String) (assetHosts : List String) (e : Detector) :
    (judge lib run port assetHosts e).hosts = heldTo lib assetHosts e := by
  unfold judge heldTo
  simp only
  split_ifs with hlocated hempty
  · rfl
  · exact hempty.symm
  · split <;> rfl

theorem judge_entry (port : Option String) (assetHosts : List String) (e : Detector) :
    (judge lib run port assetHosts e).entry = e := by
  unfold judge
  simp only
  split_ifs
  · rfl
  · rfl
  · split <;> rfl

theorem judge_reason_none_iff (port : Option String) (assetHosts : List String) (e : Detector) :
    (judge lib run port assetHosts e).reason = none ↔ Covered lib run port assetHosts e := by
  unfold judge Covered heldTo
  simp only
  split_ifs with hlocated hempty
  · simp [Accepts]
  · simp [hempty]
  · cases hfail : firstFailing lib run e (endpointPort lib port e)
        (hostlessAddresses lib assetHosts) with
    | none =>
      have hall := (firstFailing_none_iff lib run e (endpointPort lib port e) _).mp hfail
      exact iff_of_true rfl ⟨hempty, hall⟩
    | some failing =>
      have hnot : ¬ ∀ a ∈ hostlessAddresses lib assetHosts,
          Accepts lib run e (endpointPort lib port e) a := by
        intro hall
        rw [(firstFailing_none_iff lib run e (endpointPort lib port e) _).mpr hall] at hfail
        cases hfail
      simp [hempty, hnot]

def IsStandIn (e : Detector) : Prop := e.detector = some pulse ∨ e.detector = some nuclei

instance (e : Detector) : Decidable (IsStandIn e) := inferInstanceAs (Decidable (_ ∨ _))

/-- A covered Pulse or nuclei entry shares an address with the entry. -/
def Excused (port : Option String) (assetHosts : List String) (entries : List Detector)
    (e : Detector) : Prop :=
  e.detector = some nmapNse ∧ ∃ o ∈ entries, IsStandIn o ∧ Covered lib run port assetHosts o ∧
    ∃ a ∈ heldTo lib assetHosts o, a ∈ heldTo lib assetHosts e

instance (port : Option String) (assetHosts : List String) (entries : List Detector)
    (e : Detector) : Decidable (Excused lib run port assetHosts entries e) :=
  inferInstanceAs (Decidable (_ ∧ _))

theorem standIn_isSome_iff (port : Option String) (assetHosts : List String)
    (entries : List Detector) (hosts : List String) :
    (standIn (entries.map (judge lib run port assetHosts)) hosts).isSome = true ↔
      ∃ o ∈ entries, IsStandIn o ∧ Covered lib run port assetHosts o ∧
        ∃ a ∈ heldTo lib assetHosts o, a ∈ hosts := by
  unfold standIn standsIn IsStandIn
  rw [List.find?_isSome]
  constructor
  · rintro ⟨verdict, hverdict, hshared⟩
    obtain ⟨hmem, hstands⟩ := List.mem_filter.mp hverdict
    obtain ⟨o, ho, rfl⟩ := List.mem_map.mp hmem
    rw [judge_entry] at hstands
    rw [judge_hosts] at hshared
    obtain ⟨hreason, hkind⟩ := Bool.and_eq_true_iff.mp hstands
    refine ⟨o, ho, by simpa using hkind,
      (judge_reason_none_iff lib run port assetHosts o).mp (by simpa using hreason), ?_⟩
    simpa using hshared
  · rintro ⟨o, ho, hkind, hcovered, hshared⟩
    refine ⟨judge lib run port assetHosts o, List.mem_filter.mpr ⟨List.mem_map_of_mem ho, ?_⟩, ?_⟩
    · rw [judge_entry, (judge_reason_none_iff lib run port assetHosts o).mpr hcovered]
      simpa using hkind
    · rw [judge_hosts]
      simpa using hshared

/-- An entry adds no gap exactly when it is covered, or excused by one that is. -/
theorem outcome_not_gap_iff (port : Option String) (assetHosts : List String)
    (entries : List Detector) (e : Detector) :
    (∀ row, outcome port (entries.map (judge lib run port assetHosts))
      (judge lib run port assetHosts e) ≠ .gap row) ↔
        Covered lib run port assetHosts e ∨ Excused lib run port assetHosts entries e := by
  have hclean := judge_reason_none_iff lib run port assetHosts e
  have hstand := standIn_isSome_iff lib run port assetHosts entries (heldTo lib assetHosts e)
  unfold outcome Excused
  rw [judge_entry, judge_hosts]
  cases hreason : (judge lib run port assetHosts e).reason with
  | none => simp [hclean.mp hreason]
  | some reason =>
    have huncovered : ¬ Covered lib run port assetHosts e := by
      rw [← hclean, hreason]
      simp
    by_cases hnse : e.detector = some nmapNse
    · cases hother : standIn (entries.map (judge lib run port assetHosts))
          (heldTo lib assetHosts e) with
      | none =>
        rw [hother] at hstand
        simp only [Option.isSome_none, Bool.false_eq_true, false_iff] at hstand
        simp [hnse, huncovered, hstand]
      | some other =>
        rw [hother] at hstand
        simp only [Option.isSome_some, true_iff] at hstand
        simp [hnse, hstand]
    · simp [hnse, huncovered]

theorem assess_eq_nil_iff (port : Option String) (assetHosts : List String)
    (detectors : List Detector) :
    assess lib run port assetHosts detectors = [] ↔
      ∀ e ∈ judgedEntries port detectors, Covered lib run port assetHosts e ∨
        Excused lib run port assetHosts (judgedEntries port detectors) e := by
  unfold assess verdicts
  simp only [List.filterMap_eq_nil_iff, List.forall_mem_map]
  refine forall₂_congr fun e _ => ?_
  rw [← outcome_not_gap_iff]
  constructor
  · intro h row hrow
    rw [hrow] at h
    cases h
  · intro h
    split
    · rename_i row hrow
      exact absurd hrow (h row)
    · rfl

end Judging

section Artifacts

variable (lib : CoverageText) (run : RunArtifacts)

def PulseEvidence (ref : String) (ruleset : Option String) (address : String)
    (port : Option ℕ) : Prop :=
  ∃ document, run.pulse = some document ∧ document.adapter.cve = some true ∧
    (ref = "nvd" → document.adapter.cveOnline = true) ∧
    rulesetGap lib document.adapter ruleset = none ∧
    probed lib.toText document port address = true

def NucleiEvidence (ref : String) (address : String) (port : Option ℕ) : Prop :=
  ∃ document coverage, run.nuclei = some document ∧ truthy document.skippedReason = false ∧
    document.coverage = some coverage ∧ coverage.ran = true ∧
    ref ∉ coverage.templateIdsMissing ∧ ref ∉ coverage.templateIdsExcluded ∧
    ref ≠ "" ∧ ref ∈ coverage.templateIdsRequested ∧ ref ∉ coverage.templateIdsAmbiguous ∧
    (∃ n, coverage.templatesExpected = some n ∧ coverage.templatesLoaded = some n) ∧
    port ≠ none ∧ (address, port) ∈ targetEndpoints lib coverage ∧
    (address, port) ∉ coverage.skippedTargets.map (endpointOf lib)

theorem refusal_none_iff (refused : Prop) [Decidable refused] (reason : String)
    (rest : Option String) :
    (if refused then some reason else rest) = none ↔ ¬ refused ∧ rest = none := by
  split_ifs with h <;> simp [h]

theorem pulseGap_none_iff (ref : String) (ruleset : Option String) (address : String)
    (port : Option ℕ) :
    pulseGap lib run ref ruleset [address] port = none ↔
      PulseEvidence lib run ref ruleset address port := by
  unfold pulseGap PulseEvidence
  cases run.pulse with
  | none => simp
  | some document =>
    simp only [Option.some.injEq, exists_eq_left']
    cases document.adapter.cve with
    | none => simp
    | some matching =>
      cases matching with
      | false => simp
      | true =>
        simp only [refusal_none_iff, true_and]
        cases rulesetGap lib document.adapter ruleset with
        | some reason => simp
        | none => simp

theorem nucleiGap_none_iff (ref : String) (address : String) (port : Option ℕ) :
    nucleiGap lib run ref [address] port = none ↔
      NucleiEvidence lib run ref address port := by
  unfold nucleiGap NucleiEvidence
  cases run.nuclei with
  | none => simp
  | some document =>
    simp only [refusal_none_iff, Option.some.injEq, exists_eq_left', exists_and_left]
    cases document.coverage with
    | none => simp
    | some coverage =>
      simp only [refusal_none_iff, Option.some.injEq, exists_eq_left']
      cases coverage.templatesLoaded with
      | none => simp
      | some loaded =>
        cases coverage.templatesExpected with
        | none => simp
        | some expected =>
          simp only [refusal_none_iff]
          by_cases htarget : (address, port) ∈ targetEndpoints lib coverage
          · simp [htarget, and_assoc]
          · simp [htarget]

def PluginEvidence (ref : String) (expected : Option String) (address : String)
    (port : Option ℕ) (protocol : Option String) : Prop :=
  protocol = some "tcp" ∧ ∃ document receipt sha256, run.pulse = some document ∧
    document.adapter.plugins = some receipt ∧
    (receipt.loaded.reverse.find? (fun row => row.1 == ref)).map (·.2) = some sha256 ∧
    ref ≠ "" ∧ startsWith "sha256:" (text expected) = true ∧
    sha256 = dropHead "sha256:" (text expected) ∧
    probed lib.toText document port address = true ∧
    document.openRows.any (rowApplies lib ref [address] port) = true ∧
    receipt.errors.any (errorCovers lib ref [address] port) = false

def NseEvidence (ref : String) (address : String) (port : Option ℕ)
    (protocol : Option String) : Prop :=
  ref ≠ "" ∧ ∃ nse ∈ run.nse, ref ∈ nse.scripts ∧ nseScanned port protocol nse address = true

theorem pluginGap_none_iff (ref : String) (expected : Option String) (address : String)
    (port : Option ℕ) (protocol : Option String) :
    pluginGap lib run ref expected [address] port protocol = none ↔
      PluginEvidence lib run ref expected address port protocol := by
  unfold pluginGap PluginEvidence
  simp only [refusal_none_iff, not_not]
  refine and_congr_right fun _ => ?_
  cases run.pulse with
  | none => simp
  | some document =>
    simp only [Option.some.injEq, exists_and_left, exists_eq_left']
    cases document.adapter.plugins with
    | none => simp
    | some receipt =>
      simp only [Option.some.injEq, exists_eq_left']
      cases (receipt.loaded.reverse.find? (fun row => row.1 == ref)).map (·.2) with
      | none => simp
      | some sha256 =>
        simp only [refusal_none_iff, Option.some.injEq, exists_eq_left', List.any_cons,
          List.any_nil, Bool.or_false, not_not, Bool.not_eq_false, Bool.not_eq_true, and_true,
          ne_eq]

theorem nseGap_none_iff (ref : String) (address : String) (port : Option ℕ)
    (protocol : Option String) :
    nseGap run ref [address] port protocol = none ↔
      NseEvidence run ref address port protocol := by
  unfold nseGap NseEvidence
  simp only
  constructor
  · intro h
    split_ifs at h with hnone hscript hseen
    obtain ⟨nse, hnse, hscanned⟩ := List.any_eq_true.mp hseen
    obtain ⟨hmem, hran⟩ := List.mem_filter.mp hnse
    rw [Bool.and_eq_true, bne_iff_ne, List.contains_iff_mem] at hran
    exact ⟨hran.1, nse, hmem, hran.2, by simpa using hscanned⟩
  · rintro ⟨href, nse, hmem, hran, hscanned⟩
    have hscript : nse ∈ run.nse.filter fun nse => ref != "" && nse.scripts.contains ref := by
      simp [List.mem_filter, hmem, href, hran]
    rw [if_neg (by simpa using List.ne_nil_of_mem hmem)]
    rw [if_neg (by simpa using List.ne_nil_of_mem hscript), if_pos]
    exact List.any_eq_true.mpr ⟨nse, hscript, by simpa using hscanned⟩

def TcpEvidence (e : Detector) (port : Option ℕ) (address : String) : Prop :=
  (e.detector = some pulse ∧ PulseEvidence lib run (text e.ref) e.ruleset address port) ∨
    (e.detector = some nuclei ∧ NucleiEvidence lib run (text e.ref) address port)

/-- What a run's artifacts show of an entry's endpoint, by the rule of its own detector. -/
def Evidence (e : Detector) (port : Option ℕ) (address : String) : Prop :=
  TcpEvidence lib run e port address ∨
    (e.detector = some pulsePlugin ∧ PluginEvidence lib run (text e.ref) e.ruleset address port
      (detectorProtocol lib.toText e)) ∨
    (e.detector = some nmapNse ∧ NseEvidence run (text e.ref) address port
      (detectorProtocol lib.toText e))

theorem accepts_iff_evidence (e : Detector) (port : Option ℕ) (address : String) :
    Accepts lib run e port address ↔ Evidence lib run e port address := by
  have hkinds : pulse ≠ nuclei ∧ pulsePlugin ≠ nuclei ∧ pulsePlugin ≠ pulse ∧ nmapNse ≠ nuclei ∧
      nmapNse ≠ pulse ∧ nmapNse ≠ pulsePlugin := by
    decide
  obtain ⟨hpn, hln, hlp, hsn, hsp, hsl⟩ := hkinds
  unfold Accepts Evidence TcpEvidence reasonOf
  cases hdetector : e.detector with
  | none =>
    have hempty : "" ≠ nuclei ∧ "" ≠ pulse ∧ "" ≠ pulsePlugin ∧ "" ≠ nmapNse := by decide
    simp [text, hempty.1, hempty.2.1, hempty.2.2.1, hempty.2.2.2]
  | some name =>
    simp only [text, Option.getD_some, Option.some.injEq]
    by_cases hnuclei : name = nuclei
    · subst hnuclei
      simp [hpn.symm, hln.symm, hsn.symm, nucleiGap_none_iff]
    · by_cases hpulse : name = pulse
      · subst hpulse
        simp [hpn, hlp.symm, hsp.symm, pulseGap_none_iff]
      · by_cases hplugin : name = pulsePlugin
        · subst hplugin
          simp [hln, hlp, hsl.symm, pluginGap_none_iff]
        · by_cases hnse : name = nmapNse
          · subst hnse
            simp [hsn, hsp, hsl, nseGap_none_iff]
          · simp [hnuclei, hpulse, hplugin, hnse]

end Artifacts

section Waivers

variable (lib : CoverageText) (run : RunArtifacts)

/-- Without a gap, every entry is accepted on every address it is held to, by itself or by
another. -/
def CoverageSound (port : Option String) (assetHosts : List String)
    (detectors : List Detector) : Prop :=
  assess lib run port assetHosts detectors = [] →
    ∀ e ∈ judgedEntries port detectors, ∀ a ∈ heldTo lib assetHosts e,
      Accepts lib run e (endpointPort lib port e) a ∨
        (e.detector = some nmapNse ∧ ∃ o ∈ judgedEntries port detectors,
          IsStandIn o ∧ Accepts lib run o (endpointPort lib port e) a)

instance (port : Option String) (assetHosts : List String) (detectors : List Detector) :
    Decidable (CoverageSound lib run port assetHosts detectors) :=
  inferInstanceAs (Decidable (_ = _ → ∀ e ∈ _, ∀ a ∈ _, _))

/-- An entry with no address, or with one that the artifacts do not show. -/
def Unshown (port : Option String) (assetHosts : List String) (e : Detector) : Prop :=
  heldTo lib assetHosts e = [] ∨
    ∃ a ∈ heldTo lib assetHosts e, ¬ Evidence lib run e (endpointPort lib port e) a

/-- An entry that the artifacts do not show, and that is no NSE one with a stand-in's address. -/
def LeftOpen (port : Option String) (assetHosts : List String) (entries : List Detector) : Prop :=
  ∃ e ∈ entries, Unshown lib run port assetHosts e ∧ (e.detector = some nmapNse →
    ∀ o ∈ entries, IsStandIn o → ∀ a ∈ heldTo lib assetHosts o, a ∉ heldTo lib assetHosts e)

def StandsAt (port : Option String) (assetHosts : List String) (entries : List Detector)
    (at_ : Option ℕ) (a : String) : Prop :=
  ∃ o ∈ entries, IsStandIn o ∧ endpointPort lib port o = at_ ∧ a ∈ heldTo lib assetHosts o

/-- The artifacts show an address at a port, for the script or by some stand-in's rule. -/
def ShownAt (entries : List Detector) (e : Detector) (at_ : Option ℕ) (a : String) : Prop :=
  Evidence lib run e at_ a ∨ ∃ o ∈ entries, TcpEvidence lib run o at_ a

theorem covered_iff_shown (port : Option String) (assetHosts : List String) (e : Detector) :
    Covered lib run port assetHosts e ↔ ¬ Unshown lib run port assetHosts e := by
  unfold Covered Unshown
  simp only [accepts_iff_evidence, not_or, not_exists, not_and, not_not, ne_eq]

theorem isStandIn_of_tcpEvidence {e : Detector} {port : Option ℕ} {address : String}
    (h : TcpEvidence lib run e port address) : IsStandIn e :=
  h.imp And.left And.left

theorem not_nse_of_isStandIn {e : Detector} (h : IsStandIn e) : e.detector ≠ some nmapNse := by
  have hdistinct : pulse ≠ nmapNse ∧ nuclei ≠ nmapNse := by decide
  rcases h with h | h
  · rw [h]
    simpa using hdistinct.1
  · rw [h]
    simpa using hdistinct.2

theorem tcpEvidence_iff {e : Detector} (h : IsStandIn e) (port : Option ℕ) (address : String) :
    Accepts lib run e port address ↔ TcpEvidence lib run e port address := by
  have hdistinct : pulse ≠ pulsePlugin ∧ nuclei ≠ pulsePlugin := by decide
  have hnse := not_nse_of_isStandIn h
  have hplugin : e.detector ≠ some pulsePlugin := by
    rcases h with h | h
    · rw [h]
      simpa using hdistinct.1
    · rw [h]
      simpa using hdistinct.2
  rw [accepts_iff_evidence]
  unfold Evidence
  simp [hnse, hplugin]

theorem covered_of_closed {port : Option String} {assetHosts : List String}
    {entries : List Detector} (hclosed : ¬ LeftOpen lib run port assetHosts entries) {e : Detector}
    (he : e ∈ entries) (hkind : e.detector ≠ some nmapNse) :
    Covered lib run port assetHosts e := by
  rw [covered_iff_shown]
  exact fun hunshown => hclosed ⟨e, he, hunshown, fun hnse => absurd hnse hkind⟩

/-- Without a gap every entry is shown, but for NSE ones that share an address with a stand-in. -/
theorem assess_eq_nil_iff_leftOpen (port : Option String) (assetHosts : List String)
    (detectors : List Detector) :
    assess lib run port assetHosts detectors = [] ↔
      ¬ LeftOpen lib run port assetHosts (judgedEntries port detectors) := by
  rw [assess_eq_nil_iff]
  unfold LeftOpen
  constructor
  · rintro hclear ⟨e, he, hunshown, halone⟩
    rcases hclear e he with hcovered | ⟨hnse, o, ho, hkind, -, a, hao, hae⟩
    · exact (covered_iff_shown lib run port assetHosts e).mp hcovered hunshown
    · exact halone hnse o ho hkind a hao hae
  · intro hclosed e he
    by_cases hcovered : Covered lib run port assetHosts e
    · exact .inl hcovered
    · have hunshown := not_not.mp (mt (covered_iff_shown lib run port assetHosts e).mpr hcovered)
      have hshared : ¬ (e.detector = some nmapNse → ∀ o ∈ judgedEntries port detectors,
          IsStandIn o → ∀ a ∈ heldTo lib assetHosts o, a ∉ heldTo lib assetHosts e) :=
        fun halone => hclosed ⟨e, he, hunshown, halone⟩
      push Not at hshared
      obtain ⟨hnse, o, ho, hkind, a, hao, hae⟩ := hshared
      have hstands := covered_of_closed lib run hclosed ho (not_nse_of_isStandIn hkind)
      exact .inr ⟨hnse, o, ho, hkind, hstands, a, hao, hae⟩

/-- Coverage is sound exactly when an entry is left open, or each address of an NSE entry is one
of a stand-in's at the same port, or the artifacts show it there all the same. -/
theorem coverageSound_iff (port : Option String) (assetHosts : List String)
    (detectors : List Detector) :
    CoverageSound lib run port assetHosts detectors ↔
      LeftOpen lib run port assetHosts (judgedEntries port detectors) ∨
      ∀ e ∈ judgedEntries port detectors, e.detector = some nmapNse →
        ∀ a ∈ heldTo lib assetHosts e,
          StandsAt lib port assetHosts (judgedEntries port detectors) (endpointPort lib port e) a ∨
            ShownAt lib run (judgedEntries port detectors) e (endpointPort lib port e) a := by
  unfold CoverageSound
  rw [assess_eq_nil_iff_leftOpen]
  constructor
  · intro hsound
    by_cases hopen : LeftOpen lib run port assetHosts (judgedEntries port detectors)
    · exact .inl hopen
    · refine .inr fun e he _ a ha => .inr ?_
      rcases hsound hopen e he a ha with hown | ⟨-, o, ho, hkind, hother⟩
      · exact .inl ((accepts_iff_evidence lib run e _ a).mp hown)
      · exact .inr ⟨o, ho, (tcpEvidence_iff lib run hkind _ a).mp hother⟩
  · rintro (hopen | hheld) hclosed e he a ha
    · exact absurd hopen hclosed
    · by_cases hnse : e.detector = some nmapNse
      · rcases hheld e he hnse a ha with ⟨o, ho, hkind, hport, hao⟩ | hown | ⟨o, ho, hshown⟩
        · refine .inr ⟨hnse, o, ho, hkind, ?_⟩
          rw [← hport]
          exact (covered_of_closed lib run hclosed ho (not_nse_of_isStandIn hkind)).2 a hao
        · exact .inl ((accepts_iff_evidence lib run e _ a).mpr hown)
        · have hkind := isStandIn_of_tcpEvidence lib run hshown
          exact .inr ⟨hnse, o, ho, hkind, (tcpEvidence_iff lib run hkind _ a).mpr hshown⟩
      · exact .inl ((covered_of_closed lib run hclosed he hnse).2 a ha)

theorem coverageSound_of_single_endpoint (port : Option String) (assetHosts : List String)
    (detectors : List Detector) (address : String) (at_ : Option ℕ)
    (hheld : ∀ e ∈ judgedEntries port detectors, heldTo lib assetHosts e = [address])
    (hport : ∀ e ∈ judgedEntries port detectors, endpointPort lib port e = at_) :
    CoverageSound lib run port assetHosts detectors := by
  intro hclear e he a ha
  rcases (assess_eq_nil_iff lib run port assetHosts detectors).mp hclear e he with
    hcovered | ⟨hnse, o, ho, hkind, hcovered, _⟩
  · exact .inl (hcovered.2 a ha)
  · refine .inr ⟨hnse, o, ho, hkind, ?_⟩
    rw [hport e he, ← hport o ho]
    apply hcovered.2
    rw [hheld o ho, ← hheld e he]
    exact ha

/-- A script finding without a recorded host, from before hosts were kept. -/
def hostlessScript : Detector :=
  { pulseDetector with
    detector := some nmapNse
    ref := some "ssl-cert"
    host := none
    protocol := none }

/-- On an asset with two addresses, Pulse re-checking one of them excuses the script on both. -/
theorem hostless_script_waived :
    ¬ CoverageSound asciiLibrary timely.artifacts (some "443") ["10.0.0.5", "10.0.0.6"]
      [hostlessScript, pulseDetector] := by
  decide +kernel

end Waivers

section Transport

variable (lib : CoverageText) (run : RunArtifacts)

def OffTcp (e : Detector) : Prop :=
  (IsStandIn e ∧ detectorProtocol lib.toText e = some "udp") ∨
    (e.detector = some pulsePlugin ∧ detectorProtocol lib.toText e ≠ some "tcp")

theorem accepts_iff_tcpEvidence {e : Detector} (h : OffTcp lib e) (port : Option ℕ)
    (address : String) : Accepts lib run e port address ↔ TcpEvidence lib run e port address := by
  have hdistinct : pulse ≠ nuclei ∧ pulsePlugin ≠ nuclei ∧ pulsePlugin ≠ pulse := by decide
  unfold Accepts TcpEvidence reasonOf
  rcases h with ⟨hpulse | hnuclei, _⟩ | ⟨hplugin, hprotocol⟩
  · simp [hpulse, text, hdistinct.1, pulseGap_none_iff]
  · simp [hnuclei, text, hdistinct.1.symm, nucleiGap_none_iff]
  · simp [hplugin, text, hdistinct.2.1, hdistinct.2.2, pluginGap, hprotocol]

theorem not_nse_of_offTcp {e : Detector} (h : OffTcp lib e) : e.detector ≠ some nmapNse := by
  rcases h with ⟨hkind, _⟩ | ⟨hplugin, _⟩
  · exact not_nse_of_isStandIn hkind
  · have hdistinct : pulsePlugin ≠ nmapNse := by decide
    rw [hplugin]
    simpa using hdistinct

end Transport

section Closure

variable (lib : CoverageText) (run : Run)

/-- A verified closure covers every detector of the finding that no other may stand in for. -/
theorem covered_of_verifiedClosed {row : Vulnerability}
    (h : VerifiedClosed (settle lib run row)) {e : Detector} (he : e ∈ row.detectors)
    (hnse : e.detector ≠ some nmapNse) :
    Covered lib run.artifacts row.port (run.assetHosts row.assetId) e := by
  obtain ⟨_, hgaps⟩ := (settle_verifiedClosed_iff lib run row).mp h
  unfold coverageGaps at hgaps
  rw [List.append_eq_nil_iff, List.append_eq_nil_iff] at hgaps
  have hmem : e ∈ judgedEntries row.port row.detectors := by
    unfold judgedEntries
    rw [if_neg (List.ne_nil_of_mem he)]
    exact he
  rcases (assess_eq_nil_iff lib run.artifacts _ _ _).mp hgaps.1.1 e hmem with
    hcovered | hexcused
  · exact hcovered
  · exact absurd hexcused.1 hnse

/-- Neither is the entry judged covered by the run, nor does the run close the finding as fixed. -/
def TransportSound (row : Vulnerability) (e : Detector) : Prop :=
  ¬ Covered lib run.artifacts row.port (run.assetHosts row.assetId) e ∧
    ¬ VerifiedClosed (settle lib run row)

/-- An entry off TCP is judged soundly exactly when the run has no TCP re-check of all its
addresses. -/
theorem transportSound_iff {row : Vulnerability} {e : Detector} (he : e ∈ row.detectors)
    (hoff : OffTcp lib e) :
    TransportSound lib run row e ↔
      heldTo lib (run.assetHosts row.assetId) e = [] ∨
        ∃ a ∈ heldTo lib (run.assetHosts row.assetId) e,
          ¬ TcpEvidence lib run.artifacts e (endpointPort lib row.port e) a := by
  have hclosure : ¬ Covered lib run.artifacts row.port (run.assetHosts row.assetId) e →
      ¬ VerifiedClosed (settle lib run row) := by
    intro huncovered hclosed
    exact huncovered (covered_of_verifiedClosed lib run hclosed he (not_nse_of_offTcp lib hoff))
  unfold TransportSound
  rw [and_iff_left_of_imp hclosure]
  unfold Covered
  simp only [accepts_iff_tcpEvidence lib run.artifacts hoff, ne_eq, not_and_or, not_not,
    not_forall, exists_prop]

/-- A plugin entry off TCP is never judged on a TCP receipt. -/
theorem plugin_transportSound {row : Vulnerability} {e : Detector} (he : e ∈ row.detectors)
    (hplugin : e.detector = some pulsePlugin)
    (hprotocol : detectorProtocol lib.toText e ≠ some "tcp") :
    TransportSound lib run row e := by
  have hoff : OffTcp lib e := .inr ⟨hplugin, hprotocol⟩
  have hkinds : pulsePlugin ≠ pulse ∧ pulsePlugin ≠ nuclei := by decide
  rw [transportSound_iff lib run he hoff]
  cases hheld : heldTo lib (run.assetHosts row.assetId) e with
  | nil => exact .inl rfl
  | cons a rest =>
    refine .inr ⟨a, by simp, ?_⟩
    rintro (⟨hpulse, _⟩ | ⟨hnuclei, _⟩)
    · rw [hplugin] at hpulse
      exact hkinds.1 (Option.some.inj hpulse)
    · rw [hplugin] at hnuclei
      exact hkinds.2 (Option.some.inj hnuclei)

end Closure

section UdpSamples

def dnsDetector (name : String) : Detector :=
  { pulseDetector with
    detector := some name
    protocol := some "udp" }

def waitingUdp (name : String) : Vulnerability :=
  { waiting with detectors := [dnsDetector name] }

def tcpOnly : Run := { timely with reported := [] }

/-- The TCP receipt for the port number closes the UDP finding as machine-verified. -/
theorem udp_finding_closed_by_tcp :
    OffTcp asciiLibrary (dnsDetector pulse) ∧
    Covered asciiLibrary tcpOnly.artifacts (waitingUdp pulse).port
      (tcpOnly.assetHosts (waitingUdp pulse).assetId) (dnsDetector pulse) ∧
    VerifiedClosed (settle asciiLibrary tcpOnly (waitingUdp pulse)) := by
  refine ⟨.inl ⟨.inl rfl, by decide +kernel⟩, by decide +kernel, ?_⟩
  rw [settle_verifiedClosed_iff]
  decide +kernel

theorem udp_plugin_not_closed_by_tcp :
    TransportSound asciiLibrary tcpOnly (waitingUdp pulsePlugin) (dnsDetector pulsePlugin) := by
  refine (transportSound_iff asciiLibrary tcpOnly (List.mem_singleton_self _)
    (.inr ⟨rfl, by decide +kernel⟩)).mpr ?_
  refine .inr ⟨"10.0.0.5", by decide +kernel, ?_⟩
  rintro (⟨hpulse, _⟩ | ⟨hnuclei, _⟩)
  · exact absurd (Option.some.inj hpulse) (by decide)
  · exact absurd (Option.some.inj hnuclei) (by decide)

end UdpSamples

end Shapoclyack.CoverageSoundness
