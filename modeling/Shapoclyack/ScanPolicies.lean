import Mathlib.Algebra.Order.Monoid.Unbundled.WithTop
import Mathlib.Data.Finset.Sort

set_option autoImplicit false

namespace Shapoclyack.ScanPolicies

section Config

structure ProfilePulseConfig where
  concurrency : Option ℕ
  rate : Option ℕ
  hostParallel : Option ℕ
  plugins : Option Bool
deriving DecidableEq

structure ProfileNucleiConfig where
  concurrency : Option ℕ
  rateLimit : Option ℕ
deriving DecidableEq

structure ProfileConfig where
  discoverRate : ℕ
  portRate : ℕ
  pulse : ProfilePulseConfig
  nuclei : ProfileNucleiConfig
deriving DecidableEq

structure PulseProbeConfig where
  concurrency : ℕ
  /-- Zero is no limit. -/
  rate : ℕ
  /-- Zero is one host at a time. -/
  hostParallel : ℕ
  plugins : Bool
deriving DecidableEq

structure NucleiConfig where
  enabled : Bool
  concurrency : ℕ
  rateLimit : ℕ
deriving DecidableEq

structure RuntimeConfig where
  discoverConcurrency : ℕ
  portsConcurrency : ℕ
  perHostRate : Option ℕ
  skipNse : Bool
deriving DecidableEq

structure L2DiscoveryConfig where
  maxRate : ℕ
  mdns : Bool
  netbios : Bool
deriving DecidableEq

structure DomainMonitorConfig where
  takeoverHttpConcurrency : ℕ
  takeoverHttpConfirm : Bool
deriving DecidableEq

structure DiscoveryConfig where
  /-- `adaptive.wave2_rate` -/
  wave2Rate : Option ℕ
  /-- `verify.rate` -/
  verifyRate : Option ℕ
  /-- `tcp_probe.rate` -/
  tcpProbeRate : Option ℕ
  /-- `icmp.period_ms` -/
  periodMs : Option ℕ
  l2 : L2DiscoveryConfig
  domainMonitor : DomainMonitorConfig
deriving DecidableEq

structure ActiveStage where
  concurrency : ℕ
  activeWork : Bool
deriving DecidableEq

structure AppConfig where
  profiles : List (String × ProfileConfig)
  runtime : RuntimeConfig
  discovery : DiscoveryConfig
  pulse : PulseProbeConfig
  nuclei : NucleiConfig
  tlsPosture : ActiveStage
  enumerateCiphers : Bool
  fingerprint : ActiveStage
  screenshots : ActiveStage
  reachability : ActiveStage
  excludePorts : List ℕ
deriving DecidableEq

def within (low high n : ℕ) : Bool := decide (low ≤ n) && decide (n ≤ high)

def withinIfSet (low high : ℕ) : Option ℕ → Bool
  | none => true
  | some n => within low high n

def PulseProbeConfig.validates (c : PulseProbeConfig) : Bool :=
  within 1 10000 c.concurrency && within 0 100000 c.rate && within 0 256 c.hostParallel

def NucleiConfig.validates (c : NucleiConfig) : Bool :=
  within 1 100 c.concurrency && within 1 10000 c.rateLimit

def ProfileConfig.validates (c : ProfileConfig) : Bool :=
  within 1 100000 c.discoverRate && within 1 100000 c.portRate &&
    withinIfSet 1 10000 c.pulse.concurrency && withinIfSet 0 100000 c.pulse.rate &&
    withinIfSet 0 256 c.pulse.hostParallel &&
    withinIfSet 1 100 c.nuclei.concurrency && withinIfSet 1 10000 c.nuclei.rateLimit

def DiscoveryConfig.validates (c : DiscoveryConfig) : Bool :=
  withinIfSet 1 100000 c.wave2Rate && withinIfSet 1 100000 c.verifyRate &&
    withinIfSet 1 100000 c.tcpProbeRate && withinIfSet 1 10000 c.periodMs &&
    within 1 100000 c.l2.maxRate && within 1 20 c.domainMonitor.takeoverHttpConcurrency

def AppConfig.validates (c : AppConfig) : Bool :=
  c.profiles.all (fun entry => entry.2.validates) && c.discovery.validates &&
    c.pulse.validates && c.nuclei.validates &&
    within 1 32 c.runtime.discoverConcurrency && within 1 32 c.runtime.portsConcurrency &&
    withinIfSet 1 100000 c.runtime.perHostRate && within 1 500 c.tlsPosture.concurrency &&
    within 1 50 c.fingerprint.concurrency && within 1 20 c.screenshots.concurrency &&
    within 1 64 c.reachability.concurrency

/-- `merge_pulse_config`: the profile's set fields replace the block's, and the result is validated
again. -/
def mergePulseConfig (base : PulseProbeConfig) (override : ProfilePulseConfig) :
    Option PulseProbeConfig :=
  let merged : PulseProbeConfig := {
    concurrency := override.concurrency.getD base.concurrency
    rate := override.rate.getD base.rate
    hostParallel := override.hostParallel.getD base.hostParallel
    plugins := override.plugins.getD base.plugins }
  if merged.validates then some merged else none

def mergeNucleiConfig (base : NucleiConfig) (override : ProfileNucleiConfig) :
    Option NucleiConfig :=
  let merged : NucleiConfig := {
    enabled := base.enabled
    concurrency := override.concurrency.getD base.concurrency
    rateLimit := override.rateLimit.getD base.rateLimit }
  if merged.validates then some merged else none

end Config

section Policy

inductive PolicyProfile where
  | standard
  | fragile
deriving DecidableEq, Repr

structure PolicyValues where
  profile : PolicyProfile
  safeOnly : Bool
  skipServiceProbe : Bool
  avoidPorts : List ℕ
  maxDiscoverRate : Option ℕ
  maxPortRate : Option ℕ
  maxHostConcurrency : Option ℕ
  perHostRate : Option ℕ
deriving DecidableEq

/-- What a policy is stored within (`_RATE_BOUNDS`, `_CONCURRENCY_BOUNDS`). -/
structure PolicyValues.Bounded (v : PolicyValues) : Prop where
  discover : ∀ n ∈ v.maxDiscoverRate, 1 ≤ n ∧ n ≤ 100000
  port : ∀ n ∈ v.maxPortRate, 1 ≤ n ∧ n ≤ 100000
  concurrency : ∀ n ∈ v.maxHostConcurrency, 1 ≤ n ∧ n ≤ 64
  perHost : ∀ n ∈ v.perHostRate, 1 ≤ n ∧ n ≤ 100000

/-- A policy snapshot, as it is frozen on a job. -/
structure ScanPolicy extends PolicyValues where
  bounded : toPolicyValues.Bounded

def stricter (stored floor : Option ℕ) : Option ℕ :=
  match stored, floor with
  | none, floor => floor
  | some n, none => some n
  | some n, some m => some (min n m)

def sortedPorts (ports : List ℕ) : List ℕ := ports.toFinset.sort (· ≤ ·)

/-- `tighten`, of two policies that are there. -/
def tightenValues (frozen resolved : PolicyValues) : PolicyValues where
  profile :=
    if frozen.profile = .fragile ∨ resolved.profile = .fragile then .fragile
    else resolved.profile
  safeOnly := frozen.safeOnly || resolved.safeOnly
  skipServiceProbe := frozen.skipServiceProbe || resolved.skipServiceProbe
  avoidPorts := sortedPorts (frozen.avoidPorts ++ resolved.avoidPorts)
  maxDiscoverRate := stricter frozen.maxDiscoverRate resolved.maxDiscoverRate
  maxPortRate := stricter frozen.maxPortRate resolved.maxPortRate
  maxHostConcurrency := stricter frozen.maxHostConcurrency resolved.maxHostConcurrency
  perHostRate := stricter frozen.perHostRate resolved.perHostRate

theorem stricter_bounded {low high : ℕ} {stored floor : Option ℕ}
    (hstored : ∀ n ∈ stored, low ≤ n ∧ n ≤ high) (hfloor : ∀ n ∈ floor, low ≤ n ∧ n ≤ high) :
    ∀ n ∈ stricter stored floor, low ≤ n ∧ n ≤ high := by
  intro n hn
  cases stored with
  | none => exact hfloor n hn
  | some a =>
    cases floor with
    | none => exact hstored n hn
    | some b =>
      have ha := hstored a rfl
      have hb := hfloor b rfl
      obtain rfl := Option.some.inj hn
      omega

/-- The stricter of a job's frozen policy and one written after it queued. -/
def tighten (frozen resolved : ScanPolicy) : ScanPolicy where
  toPolicyValues := tightenValues frozen.toPolicyValues resolved.toPolicyValues
  bounded := {
    discover := stricter_bounded frozen.bounded.discover resolved.bounded.discover
    port := stricter_bounded frozen.bounded.port resolved.bounded.port
    concurrency := stricter_bounded frozen.bounded.concurrency resolved.bounded.concurrency
    perHost := stricter_bounded frozen.bounded.perHost resolved.bounded.perHost }

end Policy

section Apply

/-- `_ceiling`: the smaller of two limits, where none, and sometimes zero, is no limit. -/
def ceiling (current limit : Option ℕ) (zeroIsUnlimited : Bool) : Option ℕ :=
  match limit with
  | none => current
  | some l =>
    match current with
    | none => some l
    | some n => if zeroIsUnlimited && n == 0 then some l else some (min n l)

/-- `_ceiling` over a knob that is always set. -/
def lowered (current : ℕ) (limit : Option ℕ) : ℕ :=
  (ceiling (some current) limit false).getD current

def fpingDefaultPeriodMs : ℕ := 10

/-- The shortest gap that holds a rate, in whole milliseconds. -/
def periodFloor (maxDiscoverRate : ℕ) : ℕ :=
  (1000 + max 1 maxDiscoverRate - 1) / max 1 maxDiscoverRate

def icmpPeriodMs (current : Option ℕ) (maxDiscoverRate : ℕ) : Option ℕ :=
  let floor := periodFloor maxDiscoverRate
  match current with
  | none => if fpingDefaultPeriodMs < floor then some floor else none
  | some ms => some (max ms floor)

variable (p : ScanPolicy)

/-- `_nuclei_ceilings`, over a profile's overlay. -/
def ProfileNucleiConfig.ceilings (c : ProfileNucleiConfig) : ProfileNucleiConfig where
  concurrency := ceiling c.concurrency p.maxHostConcurrency false
  rateLimit := ceiling c.rateLimit p.perHostRate false

def ProfilePulseConfig.tightened (c : ProfilePulseConfig) : ProfilePulseConfig where
  concurrency := ceiling c.concurrency p.maxHostConcurrency false
  rate := ceiling c.rate p.perHostRate true
  hostParallel := ceiling c.hostParallel p.maxHostConcurrency false
  plugins := if p.perHostRate.isSome then some false else c.plugins

def ProfileConfig.tightened (c : ProfileConfig) : ProfileConfig where
  discoverRate := lowered c.discoverRate p.maxDiscoverRate
  portRate := lowered c.portRate p.maxPortRate
  pulse := c.pulse.tightened p
  nuclei := c.nuclei.ceilings p

def RuntimeConfig.tightened (c : RuntimeConfig) : RuntimeConfig where
  discoverConcurrency := lowered c.discoverConcurrency p.maxHostConcurrency
  portsConcurrency := lowered c.portsConcurrency p.maxHostConcurrency
  perHostRate := ceiling c.perHostRate p.perHostRate false
  skipNse := p.skipServiceProbe || c.skipNse

def L2DiscoveryConfig.tightened (c : L2DiscoveryConfig) : L2DiscoveryConfig where
  maxRate := lowered c.maxRate p.maxDiscoverRate
  mdns := !p.skipServiceProbe && c.mdns
  netbios := !p.skipServiceProbe && c.netbios

def DomainMonitorConfig.tightened (c : DomainMonitorConfig) : DomainMonitorConfig where
  takeoverHttpConcurrency := lowered c.takeoverHttpConcurrency p.maxHostConcurrency
  takeoverHttpConfirm := !p.skipServiceProbe && c.takeoverHttpConfirm

def DiscoveryConfig.tightened (c : DiscoveryConfig) : DiscoveryConfig where
  wave2Rate := ceiling c.wave2Rate p.maxDiscoverRate false
  verifyRate := ceiling c.verifyRate p.maxDiscoverRate false
  tcpProbeRate := ceiling c.tcpProbeRate p.maxDiscoverRate false
  periodMs :=
    match p.maxDiscoverRate with
    | none => c.periodMs
    | some rate => icmpPeriodMs c.periodMs rate
  l2 := c.l2.tightened p
  domainMonitor := c.domainMonitor.tightened p

def NucleiConfig.tightened (c : NucleiConfig) : NucleiConfig where
  enabled := !p.skipServiceProbe && c.enabled
  concurrency := lowered c.concurrency p.maxHostConcurrency
  rateLimit := lowered c.rateLimit p.perHostRate

/-- `_secondary_active_stage_updates`, of one stage. -/
def ActiveStage.tightened (c : ActiveStage) : ActiveStage where
  concurrency := lowered c.concurrency p.maxHostConcurrency
  activeWork := !p.skipServiceProbe && c.activeWork

/-- A configuration tightened by a policy. -/
def applyPolicy (c : AppConfig) : AppConfig where
  profiles := c.profiles.map fun entry => (entry.1, entry.2.tightened p)
  runtime := c.runtime.tightened p
  discovery := c.discovery.tightened p
  -- the global Pulse block is not among the updates: the ceilings are written on the profiles
  pulse := c.pulse
  nuclei := c.nuclei.tightened p
  tlsPosture := c.tlsPosture.tightened p
  enumerateCiphers :=
    if p.perHostRate.isSome || c.runtime.perHostRate.isSome || p.skipServiceProbe then false
    else c.enumerateCiphers
  fingerprint := c.fingerprint.tightened p
  screenshots := c.screenshots.tightened p
  reachability := c.reachability.tightened p
  excludePorts :=
    if p.avoidPorts = [] then c.excludePorts else sortedPorts (c.excludePorts ++ p.avoidPorts)

end Apply

section Effective

/-- `single_host_rate`: the rate of a batch, held to the per-host ceiling where it is one host. -/
def singleHostRate (rate hosts : ℕ) (perHostRate : Option ℕ) : ℕ :=
  match perHostRate with
  | none => rate
  | some limit => if hosts = 1 then min rate limit else rate

def wave2Rate (profile : ProfileConfig) (configured : Option ℕ) : ℕ :=
  match configured with
  | some rate => rate
  | none => min profile.discoverRate (max 500 (profile.discoverRate / 4))

inductive Pass where
  | wave1
  | refresh
  | wave2
  | verify
deriving DecidableEq, Repr

variable (c : AppConfig) (profile : ProfileConfig)

def passRate : Pass → ℕ
  | .wave1 => profile.discoverRate
  | .refresh => wave2Rate profile none
  | .wave2 => wave2Rate profile c.discovery.wave2Rate
  | .verify => c.discovery.verifyRate.getD (wave2Rate profile none)

def batchRate (pass : Pass) (hosts : ℕ) : ℕ :=
  singleHostRate (passRate c profile pass) hosts c.runtime.perHostRate

/-- The rate of the ladder's TCP step, a second ceiling under the batch's. -/
def tcpRate (pass : Pass) (hosts : ℕ) : ℕ :=
  match c.discovery.tcpProbeRate with
  | none => batchRate c profile pass hosts
  | some rate => min rate (batchRate c profile pass hosts)

inductive Knob where
  | batch (pass : Pass) (hosts : ℕ)
  | tcpProbe (pass : Pass) (hosts : ℕ)
  | ports (hosts : ℕ)
  | icmpPeriod
  | l2MaxRate
  | pulseRate
  | nucleiRateLimit
  | pulseConcurrency
  | pulseHostParallel
  | nucleiConcurrency
  | discoverConcurrency
  | portsConcurrency
  | takeoverHttp
  | tlsPosture
  | fingerprint
  | screenshots
  | reachability
deriving DecidableEq

def orNoLimit (rate : ℕ) : WithTop ℕ := if rate = 0 then ⊤ else rate

/-- The value of a knob as the run computes it, none where a merge raises. -/
def effective : Knob → Option (WithTop ℕ)
  | .batch pass hosts => some (batchRate c profile pass hosts)
  | .tcpProbe pass hosts => some (tcpRate c profile pass hosts)
  | .ports hosts => some (singleHostRate profile.portRate hosts c.runtime.perHostRate)
  | .icmpPeriod => some (c.discovery.periodMs.getD fpingDefaultPeriodMs)
  | .l2MaxRate => some c.discovery.l2.maxRate
  | .pulseRate =>
    (mergePulseConfig c.pulse profile.pulse).map fun merged => orNoLimit merged.rate
  | .nucleiRateLimit =>
    (mergeNucleiConfig c.nuclei profile.nuclei).map fun merged => merged.rateLimit
  | .pulseConcurrency =>
    (mergePulseConfig c.pulse profile.pulse).map fun merged => merged.concurrency
  | .pulseHostParallel =>
    (mergePulseConfig c.pulse profile.pulse).map fun merged => merged.hostParallel
  | .nucleiConcurrency =>
    (mergeNucleiConfig c.nuclei profile.nuclei).map fun merged => merged.concurrency
  | .discoverConcurrency => some c.runtime.discoverConcurrency
  | .portsConcurrency => some c.runtime.portsConcurrency
  | .takeoverHttp => some c.discovery.domainMonitor.takeoverHttpConcurrency
  | .tlsPosture => some c.tlsPosture.concurrency
  | .fingerprint => some c.fingerprint.concurrency
  | .screenshots => some c.screenshots.concurrency
  | .reachability => some c.reachability.concurrency

end Effective

end Shapoclyack.ScanPolicies
