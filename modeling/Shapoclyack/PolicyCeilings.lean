import Mathlib
import Shapoclyack.Library.Lookups
import Shapoclyack.ScanPolicies

set_option autoImplicit false

namespace Shapoclyack.PolicyCeilings

open ScanPolicies Library

section Limits

def toLimit (limit : Option ℕ) : WithTop ℕ := limit

@[simp] theorem toLimit_none : toLimit none = ⊤ := rfl

@[simp] theorem toLimit_some (n : ℕ) : toLimit (some n) = n := rfl

@[simp] theorem ceiling_none (current : Option ℕ) (zero : Bool) :
    ceiling current none zero = current := rfl

@[simp] theorem lowered_none (n : ℕ) : lowered n none = n := rfl

@[simp] theorem lowered_some (n l : ℕ) : lowered n (some l) = min n l := rfl

theorem ceiling_some_eq (n : ℕ) (limit : Option ℕ) :
    ceiling (some n) limit false = some (lowered n limit) := by
  cases limit <;> rfl

theorem toLimit_ceiling (current limit : Option ℕ) :
    toLimit (ceiling current limit false) = min (toLimit current) (toLimit limit) := by
  cases limit with
  | none => simp
  | some l =>
    cases current with
    | none => simp [ceiling]
    | some n => exact WithTop.coe_min n l

theorem toLimit_stricter (stored floor : Option ℕ) :
    toLimit (stricter stored floor) = min (toLimit stored) (toLimit floor) := by
  cases stored with
  | none => simp [stricter]
  | some n =>
    cases floor with
    | none => simp [stricter]
    | some l => exact WithTop.coe_min n l

theorem ceiling_ceiling (current first second : Option ℕ) :
    ceiling (ceiling current first false) second false =
      ceiling current (stricter first second) false := by
  have h : toLimit (ceiling (ceiling current first false) second false) =
      toLimit (ceiling current (stricter first second) false) := by
    simp only [toLimit_ceiling, toLimit_stricter, min_assoc]
  exact h

theorem lowered_lowered (n : ℕ) (first second : Option ℕ) :
    lowered (lowered n first) second = lowered n (stricter first second) := by
  have h := ceiling_ceiling (some n) first second
  simpa only [ceiling_some_eq, Option.some.injEq] using h

theorem ceiling_ceiling_zero (current first second : Option ℕ)
    (hfirst : ∀ n ∈ first, 1 ≤ n) :
    ceiling (ceiling current first true) second true =
      ceiling current (stricter first second) true := by
  cases second with
  | none => cases first <;> rfl
  | some b =>
    cases first with
    | none => rfl
    | some a =>
      have ha : 1 ≤ a := hfirst a rfl
      cases current with
      | none => simp [ceiling, stricter]; omega
      | some n =>
        by_cases hn : n = 0
        · simp [ceiling, stricter, hn]; omega
        · simp [ceiling, stricter, hn]; omega

theorem stricter_self (limit : Option ℕ) : stricter limit limit = limit := by
  cases limit <;> simp [stricter]

theorem isSome_stricter (stored floor : Option ℕ) :
    (stricter stored floor).isSome = (stored.isSome || floor.isSome) := by
  cases stored <;> cases floor <;> rfl

theorem isSome_ceiling (current limit : Option ℕ) :
    (ceiling current limit false).isSome = (limit.isSome || current.isSome) := by
  cases limit <;> cases current <;> rfl

theorem lowered_le (n : ℕ) (limit : Option ℕ) : lowered n limit ≤ n := by
  cases limit <;> simp

theorem lowered_le_limit (n : ℕ) (limit : Option ℕ) :
    (lowered n limit : WithTop ℕ) ≤ toLimit limit := by
  cases limit <;> simp

end Limits

section Gaps

theorem periodFloor_spec {rate : ℕ} (h : 1 ≤ rate) : 1000 ≤ periodFloor rate * rate := by
  have hmax : max 1 rate = rate := by omega
  have hdiv := Nat.div_add_mod (1000 + rate - 1) rate
  have hmod := Nat.mod_lt (1000 + rate - 1) h
  rw [periodFloor, hmax, Nat.mul_comm]
  omega

theorem periodFloor_anti {a b : ℕ} (ha : 1 ≤ a) (h : a ≤ b) : periodFloor b ≤ periodFloor a := by
  have hb : max 1 b = b := by omega
  rw [periodFloor, hb, Nat.div_le_iff_le_mul_add_pred (by omega)]
  have hspec := periodFloor_spec ha
  have hle := Nat.mul_le_mul_left (periodFloor a) h
  rw [Nat.mul_comm b]
  omega

theorem periodFloor_min {a b : ℕ} (ha : 1 ≤ a) (hb : 1 ≤ b) :
    periodFloor (min a b) = max (periodFloor a) (periodFloor b) := by
  rcases le_total a b with h | h
  · have hanti := periodFloor_anti ha h
    rw [min_eq_left h, max_eq_left hanti]
  · have hanti := periodFloor_anti hb h
    rw [min_eq_right h, max_eq_right hanti]

theorem icmpPeriodMs_min (current : Option ℕ) {a b : ℕ} (ha : 1 ≤ a) (hb : 1 ≤ b) :
    icmpPeriodMs (icmpPeriodMs current a) b = icmpPeriodMs current (min a b) := by
  have hmin := periodFloor_min ha hb
  cases current with
  | some ms => simp [icmpPeriodMs, hmin, max_assoc]
  | none =>
    simp only [icmpPeriodMs, hmin, fpingDefaultPeriodMs]
    by_cases hslow : 10 < periodFloor a
    · simp [hslow]
    · by_cases hslower : 10 < periodFloor b
      · simp only [hslow, if_false, hslower, if_true, lt_max_iff, or_true, Option.some.injEq]
        omega
      · simp [hslow, hslower]

end Gaps

section Composition

variable (p q : ScanPolicy)

theorem toFinset_sortedPorts (ports : List ℕ) : (sortedPorts ports).toFinset = ports.toFinset :=
  Finset.sort_toFinset _ _

theorem sortedPorts_congr {a b : List ℕ} (h : a.toFinset = b.toFinset) :
    sortedPorts a = sortedPorts b := by
  rw [sortedPorts, sortedPorts, h]

theorem sortedPorts_eq_nil {ports : List ℕ} : sortedPorts ports = [] ↔ ports = [] := by
  rw [← List.toFinset_eq_empty_iff, toFinset_sortedPorts, List.toFinset_eq_empty_iff]

def excluding (ports avoid : List ℕ) : List ℕ :=
  if avoid = [] then ports else sortedPorts (ports ++ avoid)

theorem excluding_excluding (ports first second : List ℕ) :
    excluding (excluding ports first) second =
      excluding ports (sortedPorts (first ++ second)) := by
  unfold excluding
  simp only [sortedPorts_eq_nil, List.append_eq_nil_iff]
  by_cases hfirst : first = []
  · by_cases hsecond : second = []
    · simp [hfirst, hsecond]
    · simp only [hfirst, if_true, hsecond, if_false, and_false, List.nil_append]
      exact sortedPorts_congr (by simp [toFinset_sortedPorts])
  · simp only [hfirst, if_false, false_and]
    split_ifs with hsecond
    · rw [hsecond, List.append_nil]
      exact sortedPorts_congr (by simp [toFinset_sortedPorts])
    · exact sortedPorts_congr (by simp [toFinset_sortedPorts, Finset.union_assoc])

theorem profile_tightened (c : ProfileConfig) :
    (c.tightened p).tightened q = c.tightened (tighten p q) := by
  have hrate := ceiling_ceiling_zero c.pulse.rate p.perHostRate q.perHostRate
    fun n hn => (p.bounded.perHost n hn).1
  simp only [ProfileConfig.tightened, ProfilePulseConfig.tightened, ProfileNucleiConfig.ceilings,
    tighten, tightenValues, lowered_lowered, ceiling_ceiling, hrate, isSome_stricter]
  cases p.perHostRate <;> cases q.perHostRate <;> rfl

theorem runtime_tightened (c : RuntimeConfig) :
    (c.tightened p).tightened q = c.tightened (tighten p q) := by
  simp only [RuntimeConfig.tightened, tighten, tightenValues, lowered_lowered, ceiling_ceiling]
  cases p.skipServiceProbe <;> cases q.skipServiceProbe <;> rfl

theorem l2_tightened (c : L2DiscoveryConfig) :
    (c.tightened p).tightened q = c.tightened (tighten p q) := by
  simp only [L2DiscoveryConfig.tightened, tighten, tightenValues, lowered_lowered]
  cases p.skipServiceProbe <;> cases q.skipServiceProbe <;> rfl

theorem domainMonitor_tightened (c : DomainMonitorConfig) :
    (c.tightened p).tightened q = c.tightened (tighten p q) := by
  simp only [DomainMonitorConfig.tightened, tighten, tightenValues, lowered_lowered]
  cases p.skipServiceProbe <;> cases q.skipServiceProbe <;> rfl

theorem activeStage_tightened (c : ActiveStage) :
    (c.tightened p).tightened q = c.tightened (tighten p q) := by
  simp only [ActiveStage.tightened, tighten, tightenValues, lowered_lowered]
  cases p.skipServiceProbe <;> cases q.skipServiceProbe <;> rfl

theorem nuclei_tightened (c : NucleiConfig) :
    (c.tightened p).tightened q = c.tightened (tighten p q) := by
  simp only [NucleiConfig.tightened, tighten, tightenValues, lowered_lowered]
  cases p.skipServiceProbe <;> cases q.skipServiceProbe <;> rfl

theorem discovery_tightened (c : DiscoveryConfig) :
    (c.tightened p).tightened q = c.tightened (tighten p q) := by
  have hperiod : ((c.tightened p).tightened q).periodMs = (c.tightened (tighten p q)).periodMs := by
    have hp := fun n hn => (p.bounded.discover n hn).1
    have hq := fun n hn => (q.bounded.discover n hn).1
    simp only [DiscoveryConfig.tightened, tighten, tightenValues]
    cases hfirst : p.maxDiscoverRate with
    | none => cases q.maxDiscoverRate <;> rfl
    | some a =>
      cases hsecond : q.maxDiscoverRate with
      | none => rfl
      | some b => exact icmpPeriodMs_min c.periodMs (hp a hfirst) (hq b hsecond)
  have hrest : ((c.tightened p).tightened q) =
      { c.tightened (tighten p q) with periodMs := ((c.tightened p).tightened q).periodMs } := by
    have hl2 := l2_tightened p q c.l2
    have hmonitor := domainMonitor_tightened p q c.domainMonitor
    simp only [DiscoveryConfig.tightened, hl2, hmonitor, ceiling_ceiling, tighten, tightenValues]
  rw [hrest, hperiod]

theorem applyPolicy_applyPolicy (c : AppConfig) :
    applyPolicy q (applyPolicy p c) = applyPolicy (tighten p q) c := by
  have hports := excluding_excluding c.excludePorts p.avoidPorts q.avoidPorts
  have hprofiles : (c.profiles.map fun entry => (entry.1, (entry.2.tightened p).tightened q)) =
      c.profiles.map fun entry => (entry.1, entry.2.tightened (tighten p q)) :=
    List.map_congr_left fun entry _ => by rw [profile_tightened]
  have hciphers : (applyPolicy q (applyPolicy p c)).enumerateCiphers =
      (applyPolicy (tighten p q) c).enumerateCiphers := by
    simp only [applyPolicy, RuntimeConfig.tightened, tighten, tightenValues, isSome_stricter,
      isSome_ceiling]
    cases p.perHostRate.isSome <;> cases q.perHostRate.isSome <;>
      cases c.runtime.perHostRate.isSome <;> cases p.skipServiceProbe <;>
      cases q.skipServiceProbe <;> rfl
  have hrest : applyPolicy q (applyPolicy p c) = { applyPolicy (tighten p q) c with
      enumerateCiphers := (applyPolicy q (applyPolicy p c)).enumerateCiphers } := by
    simp only [applyPolicy, List.map_map, Function.comp_def, hprofiles, runtime_tightened,
      discovery_tightened, nuclei_tightened, activeStage_tightened]
    simp only [excluding] at hports
    rw [hports]
    rfl
  rw [hrest, hciphers]

theorem applyPolicy_self (c : AppConfig) : applyPolicy p (applyPolicy p c) = applyPolicy p c := by
  have hself := excluding_excluding c.excludePorts p.avoidPorts p.avoidPorts
  rw [applyPolicy_applyPolicy]
  have hports : excluding c.excludePorts (sortedPorts (p.avoidPorts ++ p.avoidPorts)) =
      excluding c.excludePorts p.avoidPorts := by
    unfold excluding
    simp only [sortedPorts_eq_nil, List.append_eq_nil_iff, and_self]
    split_ifs
    · rfl
    · exact sortedPorts_congr (by simp [toFinset_sortedPorts])
  simp only [excluding] at hports
  simp only [applyPolicy, tighten, tightenValues, stricter_self, Bool.or_self, hports,
    ProfileConfig.tightened, ProfilePulseConfig.tightened, ProfileNucleiConfig.ceilings,
    RuntimeConfig.tightened, DiscoveryConfig.tightened, L2DiscoveryConfig.tightened,
    DomainMonitorConfig.tightened, NucleiConfig.tightened, ActiveStage.tightened]

end Composition

section Pace

variable (p : ScanPolicy) (c : AppConfig) (profile : ProfileConfig)

/-- A value no more aggressive than another: a rate or a count is no higher, a gap no shorter. -/
def Gentler : Knob → WithTop ℕ → WithTop ℕ → Prop
  | .icmpPeriod, after, before => before ≤ after
  | _, after, before => after ≤ before

def batchLimit (limit : Option ℕ) (hosts : ℕ) : WithTop ℕ :=
  min (toLimit limit) (if hosts = 1 then toLimit p.perHostRate else ⊤)

def Held : Knob → WithTop ℕ → Prop
  | .batch _ hosts, value => value ≤ batchLimit p p.maxDiscoverRate hosts
  | .tcpProbe _ hosts, value => value ≤ batchLimit p p.maxDiscoverRate hosts
  | .ports hosts, value => value ≤ batchLimit p p.maxPortRate hosts
  | .icmpPeriod, value =>
    ∀ rate ∈ p.maxDiscoverRate, ∃ ms : ℕ, value = ms ∧ 1000 ≤ ms * rate
  | .l2MaxRate, value => value ≤ toLimit p.maxDiscoverRate
  | .pulseRate, value => value ≤ toLimit p.perHostRate
  | .nucleiRateLimit, value => value ≤ toLimit p.perHostRate
  | _, value => value ≤ toLimit p.maxHostConcurrency

/-- A knob after the policy is no more aggressive than before it, and within its ceiling. -/
def Tightens (mode : String) (knob : Knob) : Prop :=
  ∃ profile', (applyPolicy p c).profiles.lookup mode = some profile' ∧
    ∃ before after, effective c profile knob = some before ∧
      effective (applyPolicy p c) profile' knob = some after ∧
      Gentler knob after before ∧ Held p knob after

/-- Where the profile or a pass names no value of its own, the policy's ceiling is no looser than
the value it inherits. -/
structure StricterThanInherited : Prop where
  nucleiRateLimit : profile.nuclei.rateLimit = none →
    ∀ rate ∈ p.perHostRate, rate ≤ c.nuclei.rateLimit
  nucleiConcurrency : profile.nuclei.concurrency = none →
    ∀ n ∈ p.maxHostConcurrency, n ≤ c.nuclei.concurrency
  pulseRate : profile.pulse.rate = none →
    ∀ rate ∈ p.perHostRate, c.pulse.rate = 0 ∨ rate ≤ c.pulse.rate
  pulseConcurrency : profile.pulse.concurrency = none →
    ∀ n ∈ p.maxHostConcurrency, n ≤ c.pulse.concurrency
  pulseHostParallel : profile.pulse.hostParallel = none →
    ∀ n ∈ p.maxHostConcurrency, n ≤ c.pulse.hostParallel
  wave2 : c.discovery.wave2Rate = none →
    ∀ rate ∈ p.maxDiscoverRate, rate ≤ wave2Rate profile none
  verify : c.discovery.verifyRate = none →
    ∀ rate ∈ p.maxDiscoverRate, rate ≤ wave2Rate profile none

variable {p c profile}

theorem chosen_tightened {mode : String} (h : c.profiles.lookup mode = some profile) :
    (applyPolicy p c).profiles.lookup mode = some (profile.tightened p) := by
  rw [applyPolicy, lookup_map, h, Option.map_some]

theorem tightens_iff {mode : String} {knob : Knob} (h : c.profiles.lookup mode = some profile) :
    Tightens p c profile mode knob ↔
      ∃ before after, effective c profile knob = some before ∧
        effective (applyPolicy p c) (profile.tightened p) knob = some after ∧
        Gentler knob after before ∧ Held p knob after := by
  unfold Tightens
  rw [chosen_tightened h]
  simp

theorem singleHostRate_mono {rate rate' hosts : ℕ} {perHost limit : Option ℕ} (h : rate' ≤ rate) :
    singleHostRate rate' hosts (ceiling perHost limit false) ≤
      singleHostRate rate hosts perHost := by
  cases perHost with
  | none =>
    cases limit with
    | none => exact h
    | some l =>
      simp only [ceiling, singleHostRate]
      split_ifs <;> omega
  | some n =>
    rw [ceiling_some_eq]
    have hle := lowered_le n limit
    simp only [singleHostRate]
    split_ifs <;> omega

theorem singleHostRate_le (rate hosts : ℕ) (perHost : Option ℕ) :
    singleHostRate rate hosts perHost ≤ rate := by
  cases perHost with
  | none => exact le_rfl
  | some n =>
    simp only [singleHostRate]
    split_ifs <;> omega

theorem singleHostRate_of_ne (rate : ℕ) {hosts : ℕ} (perHost : Option ℕ) (h : hosts ≠ 1) :
    singleHostRate rate hosts perHost = rate := by
  cases perHost with
  | none => rfl
  | some n => exact if_neg h

theorem singleHostRate_one_le (rate : ℕ) (perHost limit : Option ℕ) :
    (singleHostRate rate 1 (ceiling perHost limit false) : WithTop ℕ) ≤ toLimit limit := by
  cases limit with
  | none => exact le_top
  | some l =>
    cases perHost with
    | none => simp [ceiling, singleHostRate]
    | some n => simp [ceiling, singleHostRate]

theorem batch_held {rate hosts : ℕ} {perHost limit : Option ℕ}
    (h : (rate : WithTop ℕ) ≤ toLimit limit) :
    (singleHostRate rate hosts (ceiling perHost p.perHostRate false) : WithTop ℕ) ≤
      batchLimit p limit hosts := by
  have hle : (singleHostRate rate hosts (ceiling perHost p.perHostRate false) : WithTop ℕ) ≤ rate :=
    WithTop.coe_le_coe.mpr (singleHostRate_le _ _ _)
  refine le_min (hle.trans h) ?_
  split_ifs with hone
  · rw [hone]
    exact singleHostRate_one_le _ _ _
  · exact le_top

theorem derived_tightened_le (p : ScanPolicy) (profile : ProfileConfig) :
    wave2Rate (profile.tightened p) none ≤ wave2Rate profile none := by
  have hle := lowered_le profile.discoverRate p.maxDiscoverRate
  have hquarter := Nat.div_le_div_right (c := 4) hle
  simp only [wave2Rate, ProfileConfig.tightened]
  omega

theorem derived_held (p : ScanPolicy) (profile : ProfileConfig) :
    (wave2Rate (profile.tightened p) none : WithTop ℕ) ≤ toLimit p.maxDiscoverRate := by
  have hlimit := lowered_le_limit profile.discoverRate p.maxDiscoverRate
  have hle : wave2Rate (profile.tightened p) none ≤
      lowered profile.discoverRate p.maxDiscoverRate := min_le_left _ _
  exact (WithTop.coe_le_coe.mpr hle).trans hlimit

theorem followUp_held (p : ScanPolicy) (profile : ProfileConfig) (configured : Option ℕ) :
    (wave2Rate (profile.tightened p) (ceiling configured p.maxDiscoverRate false) : WithTop ℕ) ≤
      toLimit p.maxDiscoverRate := by
  cases configured with
  | some rate =>
    rw [ceiling_some_eq]
    exact lowered_le_limit _ _
  | none =>
    cases hlimit : p.maxDiscoverRate with
    | none => exact le_top
    | some limit => simp [ceiling, wave2Rate]

theorem followUp_le {configured : Option ℕ}
    (h : configured = none → ∀ rate ∈ p.maxDiscoverRate, rate ≤ wave2Rate profile none) :
    wave2Rate (profile.tightened p) (ceiling configured p.maxDiscoverRate false) ≤
      wave2Rate profile configured := by
  cases configured with
  | some rate =>
    rw [ceiling_some_eq]
    exact lowered_le _ _
  | none =>
    cases hlimit : p.maxDiscoverRate with
    | none => exact derived_tightened_le p profile
    | some limit => exact h rfl limit hlimit

theorem verify_eq (profile : ProfileConfig) (configured : Option ℕ) :
    configured.getD (wave2Rate profile none) = wave2Rate profile configured := by
  cases configured <;> rfl

theorem passRate_le (h : StricterThanInherited p c profile) (pass : Pass) :
    passRate (applyPolicy p c) (profile.tightened p) pass ≤ passRate c profile pass := by
  cases pass with
  | wave1 => exact lowered_le _ _
  | refresh => exact derived_tightened_le p profile
  | wave2 => exact followUp_le h.wave2
  | verify =>
    simp only [passRate, verify_eq]
    exact followUp_le h.verify

theorem passRate_held (p : ScanPolicy) (c : AppConfig) (profile : ProfileConfig) (pass : Pass) :
    (passRate (applyPolicy p c) (profile.tightened p) pass : WithTop ℕ) ≤
      toLimit p.maxDiscoverRate := by
  cases pass with
  | wave1 => exact lowered_le_limit _ _
  | refresh => exact derived_held p profile
  | wave2 => exact followUp_held p profile _
  | verify =>
    simp only [passRate, verify_eq]
    exact followUp_held p profile _

theorem batchRate_held (pass : Pass) (hosts : ℕ) :
    (batchRate (applyPolicy p c) (profile.tightened p) pass hosts : WithTop ℕ) ≤
      batchLimit p p.maxDiscoverRate hosts :=
  batch_held (passRate_held p c profile pass)

theorem batchRate_le (h : StricterThanInherited p c profile) (pass : Pass) (hosts : ℕ) :
    batchRate (applyPolicy p c) (profile.tightened p) pass hosts ≤ batchRate c profile pass hosts :=
  singleHostRate_mono (passRate_le h pass)

theorem tcpRate_le_batchRate (c : AppConfig) (profile : ProfileConfig) (pass : Pass) (hosts : ℕ) :
    tcpRate c profile pass hosts ≤ batchRate c profile pass hosts := by
  unfold tcpRate
  split
  · exact le_rfl
  · exact min_le_right _ _

theorem tcpRate_le (h : StricterThanInherited p c profile) (pass : Pass) (hosts : ℕ) :
    tcpRate (applyPolicy p c) (profile.tightened p) pass hosts ≤ tcpRate c profile pass hosts := by
  have hbatch := batchRate_le h pass hosts
  have hafter := tcpRate_le_batchRate (applyPolicy p c) (profile.tightened p) pass hosts
  unfold tcpRate at hafter ⊢
  simp only [applyPolicy, DiscoveryConfig.tightened] at hafter ⊢
  cases hconfigured : c.discovery.tcpProbeRate with
  | none =>
    rw [hconfigured] at hafter
    exact hafter.trans hbatch
  | some rate =>
    have hle := lowered_le rate p.maxDiscoverRate
    rw [ceiling_some_eq]
    exact min_le_min hle hbatch

theorem within_iff {low high n : ℕ} : within low high n = true ↔ low ≤ n ∧ n ≤ high := by
  simp [within]

theorem within_getD {low high n : ℕ} {value : Option ℕ} (hn : within low high n = true)
    (hvalue : withinIfSet low high value = true) : within low high (value.getD n) = true := by
  cases value with
  | none => exact hn
  | some m => exact hvalue

theorem within_lowered {low high n : ℕ} {limit : Option ℕ} (hn : within low high n = true)
    (hlimit : ∀ l ∈ limit, low ≤ l) : within low high (lowered n limit) = true := by
  cases limit with
  | none => exact hn
  | some l =>
    have hlow := hlimit l rfl
    rw [within_iff] at hn ⊢
    rw [lowered_some]
    omega

theorem getD_ceiling {value limit : Option ℕ} {base base' : ℕ}
    (h : value = none → ∀ l ∈ limit, l ≤ base)
    (hbase : limit = none → base' = base) :
    (ceiling value limit false).getD base' = lowered (value.getD base) limit := by
  cases limit with
  | none =>
    rw [ceiling_none, lowered_none, hbase rfl]
  | some l =>
    cases value with
    | none =>
      have hle := h rfl l rfl
      simp only [ceiling, Option.getD_some, Option.getD_none, lowered_some]
      omega
    | some n => rfl

theorem getD_ceiling_zero {value limit : Option ℕ} {base : ℕ}
    (h : value = none → ∀ l ∈ limit, base = 0 ∨ l ≤ base) (hlimit : ∀ l ∈ limit, 1 ≤ l) :
    orNoLimit ((ceiling value limit true).getD base) =
      min (orNoLimit (value.getD base)) (toLimit limit) := by
  cases limit with
  | none => simp
  | some l =>
    have hpos := hlimit l rfl
    have hne : l ≠ 0 := by omega
    cases value with
    | none =>
      rcases h rfl l rfl with hzero | hle
      · simp [ceiling, orNoLimit, hzero, hne]
      · have hbase : base ≠ 0 := by omega
        simp [ceiling, orNoLimit, hne, hbase, hle]
    | some n =>
      by_cases hn : n = 0
      · simp [ceiling, orNoLimit, hn, hne]
      · have hmin : min n l ≠ 0 := by omega
        have hceiling : ceiling (some n) (some l) true = some (min n l) := by simp [ceiling, hn]
        rw [hceiling, Option.getD_some, Option.getD_some, orNoLimit, orNoLimit, if_neg hmin,
          if_neg hn]
        exact WithTop.coe_min n l

theorem withinIfSet_ceiling {low high : ℕ} {value limit : Option ℕ} {zero : Bool}
    (hvalue : withinIfSet low high value = true) (hlimit : ∀ l ∈ limit, low ≤ l ∧ l ≤ high) :
    withinIfSet low high (ceiling value limit zero) = true := by
  cases limit with
  | none => exact hvalue
  | some l =>
    have hl := hlimit l rfl
    cases value with
    | none => exact within_iff.mpr hl
    | some n =>
      have hn : low ≤ n ∧ n ≤ high := within_iff.mp hvalue
      simp only [ceiling]
      split_ifs
      · exact within_iff.mpr hl
      · exact within_iff.mpr (by omega)

/-- A configuration and a profile of it, as the schema accepts them. -/
structure Accepted (c : AppConfig) (mode : String) (profile : ProfileConfig) : Prop where
  config : c.validates = true
  chosen : c.profiles.lookup mode = some profile

variable {mode : String}

theorem Accepted.profile_validates (h : Accepted c mode profile) : profile.validates = true := by
  have hc := h.config
  simp only [AppConfig.validates, Bool.and_eq_true, List.all_eq_true] at hc
  exact hc.1.1.1.1.1.1.1.1.1.1 (mode, profile) (mem_of_lookup h.chosen)

theorem Accepted.pulse_validates (h : Accepted c mode profile) : c.pulse.validates = true := by
  have hc := h.config
  simp only [AppConfig.validates, Bool.and_eq_true] at hc
  exact hc.1.1.1.1.1.1.1.1.2

theorem Accepted.nuclei_validates (h : Accepted c mode profile) : c.nuclei.validates = true := by
  have hc := h.config
  simp only [AppConfig.validates, Bool.and_eq_true] at hc
  exact hc.1.1.1.1.1.1.1.2

theorem Accepted.merge_pulse (h : Accepted c mode profile) :
    mergePulseConfig c.pulse profile.pulse = some {
      concurrency := profile.pulse.concurrency.getD c.pulse.concurrency
      rate := profile.pulse.rate.getD c.pulse.rate
      hostParallel := profile.pulse.hostParallel.getD c.pulse.hostParallel
      plugins := profile.pulse.plugins.getD c.pulse.plugins } := by
  have hbase := h.pulse_validates
  have hprofile := h.profile_validates
  simp only [PulseProbeConfig.validates, ProfileConfig.validates, Bool.and_eq_true]
    at hbase hprofile
  refine if_pos ?_
  simp only [PulseProbeConfig.validates, Bool.and_eq_true]
  exact ⟨⟨within_getD hbase.1.1 hprofile.1.1.1.1.2, within_getD hbase.1.2 hprofile.1.1.1.2⟩,
    within_getD hbase.2 hprofile.1.1.2⟩

theorem Accepted.merge_pulse_tightened (h : Accepted c mode profile) :
    mergePulseConfig (applyPolicy p c).pulse (profile.tightened p).pulse = some {
      concurrency := (ceiling profile.pulse.concurrency p.maxHostConcurrency false).getD
        c.pulse.concurrency
      rate := (ceiling profile.pulse.rate p.perHostRate true).getD c.pulse.rate
      hostParallel := (ceiling profile.pulse.hostParallel p.maxHostConcurrency false).getD
        c.pulse.hostParallel
      plugins := ((profile.tightened p).pulse.plugins).getD c.pulse.plugins } := by
  have hbase := h.pulse_validates
  have hprofile := h.profile_validates
  simp only [PulseProbeConfig.validates, ProfileConfig.validates, Bool.and_eq_true]
    at hbase hprofile
  refine if_pos ?_
  simp only [PulseProbeConfig.validates, Bool.and_eq_true]
  refine ⟨⟨within_getD hbase.1.1 (withinIfSet_ceiling hprofile.1.1.1.1.2 fun l hl => ?_),
    within_getD hbase.1.2 (withinIfSet_ceiling hprofile.1.1.1.2 fun l hl => ?_)⟩,
    within_getD hbase.2 (withinIfSet_ceiling hprofile.1.1.2 fun l hl => ?_)⟩
  · have hbound := p.bounded.concurrency l hl
    omega
  · have hbound := p.bounded.perHost l hl
    omega
  · have hbound := p.bounded.concurrency l hl
    omega

theorem Accepted.merge_nuclei (h : Accepted c mode profile) :
    mergeNucleiConfig c.nuclei profile.nuclei = some {
      enabled := c.nuclei.enabled
      concurrency := profile.nuclei.concurrency.getD c.nuclei.concurrency
      rateLimit := profile.nuclei.rateLimit.getD c.nuclei.rateLimit } := by
  have hbase := h.nuclei_validates
  have hprofile := h.profile_validates
  simp only [NucleiConfig.validates, ProfileConfig.validates, Bool.and_eq_true] at hbase hprofile
  refine if_pos ?_
  simp only [NucleiConfig.validates, Bool.and_eq_true]
  exact ⟨within_getD hbase.1 hprofile.1.2, within_getD hbase.2 hprofile.2⟩

theorem merge_nuclei_tightened {merged : NucleiConfig}
    (h : mergeNucleiConfig (applyPolicy p c).nuclei (profile.tightened p).nuclei = some merged) :
    merged.concurrency = (ceiling profile.nuclei.concurrency p.maxHostConcurrency false).getD
        (lowered c.nuclei.concurrency p.maxHostConcurrency) ∧
      merged.rateLimit = (ceiling profile.nuclei.rateLimit p.perHostRate false).getD
        (lowered c.nuclei.rateLimit p.perHostRate) := by
  unfold mergeNucleiConfig at h
  simp only at h
  split_ifs at h
  rw [← Option.some.inj h]
  exact ⟨rfl, rfl⟩

theorem lowered_of_none {limit : Option ℕ} (n : ℕ) (h : limit = none) : lowered n limit = n := by
  rw [h, lowered_none]

theorem Accepted.nuclei_merges (h : Accepted c mode profile)
    (hrate : profile.nuclei.rateLimit = none → ∀ rate ∈ p.perHostRate, rate ≤ c.nuclei.rateLimit) :
    (mergeNucleiConfig (applyPolicy p c).nuclei (profile.tightened p).nuclei).isSome = true := by
  have hbase := h.nuclei_validates
  have hprofile := h.profile_validates
  simp only [NucleiConfig.validates, ProfileConfig.validates, Bool.and_eq_true] at hbase hprofile
  have hkept := getD_ceiling hrate (lowered_of_none c.nuclei.rateLimit)
  have hconcurrency : within 1 100 ((ceiling profile.nuclei.concurrency p.maxHostConcurrency
      false).getD (lowered c.nuclei.concurrency p.maxHostConcurrency)) = true := by
    refine within_getD (within_lowered hbase.1 fun l hl => (p.bounded.concurrency l hl).1)
      (withinIfSet_ceiling hprofile.1.2 fun l hl => ?_)
    have hbound := p.bounded.concurrency l hl
    omega
  have hlimit : within 1 10000 ((ceiling profile.nuclei.rateLimit p.perHostRate false).getD
      (lowered c.nuclei.rateLimit p.perHostRate)) = true := by
    rw [hkept]
    exact within_lowered (within_getD hbase.2 hprofile.2) fun l hl => (p.bounded.perHost l hl).1
  unfold mergeNucleiConfig
  simp only [NucleiConfig.validates, applyPolicy, NucleiConfig.tightened, ProfileConfig.tightened,
    ProfileNucleiConfig.ceilings, hconcurrency, hlimit, Bool.and_self, if_true, Option.isSome_some]

theorem coe_lowered_le (n : ℕ) (limit : Option ℕ) : (lowered n limit : WithTop ℕ) ≤ n :=
  WithTop.coe_le_coe.mpr (lowered_le n limit)

theorem icmpPeriodMs_spec (current : Option ℕ) {rate : ℕ} (h : 1 ≤ rate) :
    current.getD fpingDefaultPeriodMs ≤ (icmpPeriodMs current rate).getD fpingDefaultPeriodMs ∧
      1000 ≤ (icmpPeriodMs current rate).getD fpingDefaultPeriodMs * rate := by
  have hspec := periodFloor_spec h
  cases current with
  | some ms =>
    have hle := Nat.mul_le_mul_right rate (le_max_right ms (periodFloor rate))
    simp only [icmpPeriodMs, Option.getD_some]
    omega
  | none =>
    by_cases hslow : fpingDefaultPeriodMs < periodFloor rate
    · rw [icmpPeriodMs, if_pos hslow]
      exact ⟨hslow.le, hspec⟩
    · have hle := Nat.mul_le_mul_right rate (not_lt.mp hslow)
      rw [icmpPeriodMs, if_neg hslow]
      exact ⟨le_rfl, hspec.trans hle⟩

/-- Where every inherited value is looser than the policy, no knob is loosened. -/
theorem tightens_of_stricter (hc : Accepted c mode profile)
    (h : StricterThanInherited p c profile) (knob : Knob) : Tightens p c profile mode knob := by
  rw [tightens_iff hc.chosen]
  cases knob with
  | batch pass hosts =>
    exact ⟨_, _, rfl, rfl, WithTop.coe_le_coe.mpr (batchRate_le h pass hosts),
      batchRate_held pass hosts⟩
  | tcpProbe pass hosts =>
    have hle := tcpRate_le_batchRate (applyPolicy p c) (profile.tightened p) pass hosts
    exact ⟨_, _, rfl, rfl, WithTop.coe_le_coe.mpr (tcpRate_le h pass hosts),
      (WithTop.coe_le_coe.mpr hle).trans (batchRate_held pass hosts)⟩
  | ports hosts =>
    exact ⟨_, _, rfl, rfl, WithTop.coe_le_coe.mpr (singleHostRate_mono (lowered_le _ _)),
      batch_held (lowered_le_limit _ _)⟩
  | icmpPeriod =>
    refine ⟨_, _, rfl, rfl, ?_, fun rate hrate => ⟨_, rfl, ?_⟩⟩
    · refine WithTop.coe_le_coe.mpr ?_
      simp only [applyPolicy, DiscoveryConfig.tightened]
      cases hlimit : p.maxDiscoverRate with
      | none => exact le_rfl
      | some rate => exact (icmpPeriodMs_spec _ (p.bounded.discover rate hlimit).1).1
    · have hlimit : p.maxDiscoverRate = some rate := hrate
      simp only [applyPolicy, DiscoveryConfig.tightened, hlimit]
      exact (icmpPeriodMs_spec _ (p.bounded.discover rate hlimit).1).2
  | pulseRate =>
    have hkept := getD_ceiling_zero h.pulseRate fun l hl => (p.bounded.perHost l hl).1
    refine ⟨_, _, by rw [effective, hc.merge_pulse, Option.map_some],
      by rw [effective, hc.merge_pulse_tightened, Option.map_some], ?_, ?_⟩
    · exact hkept.trans_le (min_le_left _ _)
    · exact hkept.trans_le (min_le_right _ _)
  | pulseConcurrency =>
    have hkept := getD_ceiling h.pulseConcurrency fun _ => rfl
    refine ⟨_, _, by rw [effective, hc.merge_pulse, Option.map_some],
      by rw [effective, hc.merge_pulse_tightened, Option.map_some], ?_, ?_⟩
    · rw [hkept]
      exact coe_lowered_le _ _
    · rw [hkept]
      exact lowered_le_limit _ _
  | pulseHostParallel =>
    have hkept := getD_ceiling h.pulseHostParallel fun _ => rfl
    refine ⟨_, _, by rw [effective, hc.merge_pulse, Option.map_some],
      by rw [effective, hc.merge_pulse_tightened, Option.map_some], ?_, ?_⟩
    · rw [hkept]
      exact coe_lowered_le _ _
    · rw [hkept]
      exact lowered_le_limit _ _
  | nucleiRateLimit =>
    obtain ⟨merged, hmerged⟩ := Option.isSome_iff_exists.mp (hc.nuclei_merges h.nucleiRateLimit)
    have hkept := getD_ceiling h.nucleiRateLimit (lowered_of_none c.nuclei.rateLimit)
    refine ⟨_, _, by rw [effective, hc.merge_nuclei, Option.map_some],
      by rw [effective, hmerged, Option.map_some], ?_, ?_⟩
    · rw [(merge_nuclei_tightened hmerged).2, hkept]
      exact coe_lowered_le _ _
    · rw [(merge_nuclei_tightened hmerged).2, hkept]
      exact lowered_le_limit _ _
  | nucleiConcurrency =>
    obtain ⟨merged, hmerged⟩ := Option.isSome_iff_exists.mp (hc.nuclei_merges h.nucleiRateLimit)
    have hkept := getD_ceiling h.nucleiConcurrency (lowered_of_none c.nuclei.concurrency)
    refine ⟨_, _, by rw [effective, hc.merge_nuclei, Option.map_some],
      by rw [effective, hmerged, Option.map_some], ?_, ?_⟩
    · rw [(merge_nuclei_tightened hmerged).1, hkept]
      exact coe_lowered_le _ _
    · rw [(merge_nuclei_tightened hmerged).1, hkept]
      exact lowered_le_limit _ _
  | l2MaxRate | discoverConcurrency | portsConcurrency | takeoverHttp | tlsPosture | fingerprint
  | screenshots | reachability =>
    exact ⟨_, _, rfl, rfl, coe_lowered_le _ _, lowered_le_limit _ _⟩

theorem followUp_stricter {configured : Option ℕ} (hnone : configured = none)
    (h : wave2Rate (profile.tightened p) (ceiling configured p.maxDiscoverRate false) ≤
      wave2Rate profile configured) :
    ∀ rate ∈ p.maxDiscoverRate, rate ≤ wave2Rate profile none := by
  intro rate hrate
  have hlimit : p.maxDiscoverRate = some rate := hrate
  rw [hnone, hlimit] at h
  exact h

theorem stricter_of_tightens (hc : Accepted c mode profile)
    (h : ∀ knob, Tightens p c profile mode knob) : StricterThanInherited p c profile := by
  simp only [tightens_iff hc.chosen] at h
  have hbatch : ∀ pass, passRate (applyPolicy p c) (profile.tightened p) pass ≤
      passRate c profile pass := by
    intro pass
    obtain ⟨before, after, hbefore, hafter, hle, _⟩ := h (.batch pass 2)
    rw [← Option.some.inj hbefore, ← Option.some.inj hafter] at hle
    have hrate := WithTop.coe_le_coe.mp hle
    rw [batchRate, batchRate, singleHostRate_of_ne _ _ (by decide),
      singleHostRate_of_ne _ _ (by decide)] at hrate
    exact hrate
  refine ⟨fun hnone rate hrate => ?_, fun hnone n hn => ?_, fun hnone rate hrate => ?_,
    fun hnone n hn => ?_, fun hnone n hn => ?_, fun hnone => ?_, fun hnone => ?_⟩
  · obtain ⟨before, after, hbefore, hafter, hle, _⟩ := h .nucleiRateLimit
    obtain ⟨merged, hmerged, rfl⟩ := Option.map_eq_some_iff.mp hafter
    rw [effective, hc.merge_nuclei, Option.map_some] at hbefore
    rw [← Option.some.inj hbefore] at hle
    have hle := WithTop.coe_le_coe.mp hle
    rw [(merge_nuclei_tightened hmerged).2, hnone, Option.mem_def.mp hrate] at hle
    exact hle
  · obtain ⟨before, after, hbefore, hafter, hle, _⟩ := h .nucleiConcurrency
    obtain ⟨merged, hmerged, rfl⟩ := Option.map_eq_some_iff.mp hafter
    rw [effective, hc.merge_nuclei, Option.map_some] at hbefore
    rw [← Option.some.inj hbefore] at hle
    have hle := WithTop.coe_le_coe.mp hle
    rw [(merge_nuclei_tightened hmerged).1, hnone, Option.mem_def.mp hn] at hle
    exact hle
  · obtain ⟨before, after, hbefore, hafter, hle, _⟩ := h .pulseRate
    rw [effective, hc.merge_pulse, Option.map_some] at hbefore
    rw [effective, hc.merge_pulse_tightened, Option.map_some] at hafter
    rw [← Option.some.inj hbefore, ← Option.some.inj hafter] at hle
    have hpos := (p.bounded.perHost rate hrate).1
    have hne : rate ≠ 0 := by omega
    by_cases hzero : c.pulse.rate = 0
    · exact .inl hzero
    · right
      simpa [Gentler, hnone, Option.mem_def.mp hrate, ceiling, orNoLimit, hne, hzero] using hle
  · obtain ⟨before, after, hbefore, hafter, hle, _⟩ := h .pulseConcurrency
    rw [effective, hc.merge_pulse, Option.map_some] at hbefore
    rw [effective, hc.merge_pulse_tightened, Option.map_some] at hafter
    rw [← Option.some.inj hbefore, ← Option.some.inj hafter] at hle
    have hle := WithTop.coe_le_coe.mp hle
    rw [hnone, Option.mem_def.mp hn] at hle
    exact hle
  · obtain ⟨before, after, hbefore, hafter, hle, _⟩ := h .pulseHostParallel
    rw [effective, hc.merge_pulse, Option.map_some] at hbefore
    rw [effective, hc.merge_pulse_tightened, Option.map_some] at hafter
    rw [← Option.some.inj hbefore, ← Option.some.inj hafter] at hle
    have hle := WithTop.coe_le_coe.mp hle
    rw [hnone, Option.mem_def.mp hn] at hle
    exact hle
  · exact followUp_stricter hnone (hbatch .wave2)
  · have hverify := hbatch .verify
    simp only [passRate, verify_eq] at hverify
    exact followUp_stricter hnone hverify

/-- A policy loosens no knob and breaks none of its ceilings exactly where each ceiling it writes
over an absent value is no looser than the value inherited there; applying it again changes
nothing, and applying another after it is applying the stricter of the two. -/
theorem policy_tightens_iff (hc : Accepted c mode profile) :
    ((∀ knob, Tightens p c profile mode knob) ∧ applyPolicy p (applyPolicy p c) = applyPolicy p c ∧
      ∀ q, applyPolicy q (applyPolicy p c) = applyPolicy (tighten p q) c) ↔
    StricterThanInherited p c profile :=
  ⟨fun h => stricter_of_tightens hc h.1, fun h => ⟨tightens_of_stricter hc h, applyPolicy_self p c,
    fun q => applyPolicy_applyPolicy p q c⟩⟩

end Pace

section Inherited

def plainProfile : ProfileConfig := ⟨1000, 500, ⟨none, none, none, none⟩, ⟨none, none⟩⟩

def hardened : AppConfig where
  profiles := [("safe", plainProfile)]
  runtime := ⟨1, 1, none, false⟩
  discovery := ⟨none, none, none, none, ⟨1000, true, true⟩, ⟨5, true⟩⟩
  pulse := ⟨500, 100, 1, true⟩
  nuclei := ⟨true, 2, 50⟩
  tlsPosture := ⟨20, true⟩
  enumerateCiphers := true
  fingerprint := ⟨10, true⟩
  screenshots := ⟨4, true⟩
  reachability := ⟨8, false⟩
  excludePorts := []

def ceilings (maxDiscoverRate maxHostConcurrency perHostRate : ℕ)
    (h : (1 ≤ maxDiscoverRate ∧ maxDiscoverRate ≤ 100000) ∧
      (1 ≤ maxHostConcurrency ∧ maxHostConcurrency ≤ 64) ∧
      (1 ≤ perHostRate ∧ perHostRate ≤ 100000)) : ScanPolicy where
  profile := .standard
  safeOnly := false
  skipServiceProbe := false
  avoidPorts := []
  maxDiscoverRate := some maxDiscoverRate
  maxPortRate := none
  maxHostConcurrency := some maxHostConcurrency
  perHostRate := some perHostRate
  bounded := {
    discover := fun n hn => by rw [← Option.some.inj hn]; exact h.1
    port := fun n hn => absurd hn (by simp)
    concurrency := fun n hn => by rw [← Option.some.inj hn]; exact h.2.1
    perHost := fun n hn => by rw [← Option.some.inj hn]; exact h.2.2 }

def looser : ScanPolicy := ceilings 800 4 200 (by decide)

/-- A ceiling of 200 requests a second takes nuclei from the 50 it inherits to 200, one of 800
packets a second takes the second wave from 500 to 800, and one of four hosts takes Pulse from one
host at a time to four. -/
theorem looser_policy_raises :
    hardened.validates = true ∧
    hardened.profiles.lookup "safe" = some plainProfile ∧
    effective hardened plainProfile .nucleiRateLimit = some (50 : ℕ) ∧
    effective (applyPolicy looser hardened) (plainProfile.tightened looser) .nucleiRateLimit =
      some (200 : ℕ) ∧
    effective hardened plainProfile (.batch .wave2 2) = some (500 : ℕ) ∧
    effective (applyPolicy looser hardened) (plainProfile.tightened looser) (.batch .wave2 2) =
      some (800 : ℕ) ∧
    effective hardened plainProfile .pulseHostParallel = some (1 : ℕ) ∧
    effective (applyPolicy looser hardened) (plainProfile.tightened looser) .pulseHostParallel =
      some (4 : ℕ) := by
  decide +kernel

def fragile : ScanPolicy := ceilings 100 1 25 (by decide)

theorem fragile_policy_tightens :
    Tightens fragile hardened plainProfile "safe" .nucleiRateLimit ∧
    applyPolicy fragile (applyPolicy fragile hardened) = applyPolicy fragile hardened := by
  have hc : Accepted hardened "safe" plainProfile := ⟨by decide +kernel, rfl⟩
  have hstricter : StricterThanInherited fragile hardened plainProfile := by
    constructor <;> intro _ n hn <;> obtain rfl := Option.some.inj hn <;> decide +kernel
  have htightens := (policy_tightens_iff hc).mpr hstricter
  exact ⟨htightens.1 .nucleiRateLimit, htightens.2.1⟩

end Inherited

end Shapoclyack.PolicyCeilings
