import Mathlib
import Shapoclyack.PolicyCeilings

set_option autoImplicit false

namespace Shapoclyack.PolicyMeet

open ScanPolicies PolicyCeilings

section Documents

/-- `OT_AVOID_PORTS`. -/
def otAvoidPorts : List ℕ :=
  [102, 502, 789, 1911, 2222, 2404, 4000, 4911, 9600, 18245, 20000, 44818, 47808]

/-- `PROFILE_FLOORS`. -/
def profileFloor : PolicyProfile → PolicyValues
  | .standard => ⟨.standard, false, false, [], none, none, none, none⟩
  | .fragile => ⟨.fragile, true, true, otAvoidPorts, some 100, some 50, some 1, some 25⟩

/-- A tenant's policy as an operator wrote it. -/
structure StoredPolicy where
  profile : PolicyProfile
  safeOnly : Bool
  avoidPorts : List ℕ
  maxDiscoverRate : Option ℕ
  maxPortRate : Option ℕ
  maxHostConcurrency : Option ℕ
  perHostRate : Option ℕ
deriving DecidableEq

def StoredPolicy.values (s : StoredPolicy) : PolicyValues :=
  ⟨s.profile, s.safeOnly, false, s.avoidPorts, s.maxDiscoverRate, s.maxPortRate,
    s.maxHostConcurrency, s.perHostRate⟩

/-- A policy as scans are held to it, its ports in order and none twice. -/
structure ResolvedPolicy extends PolicyValues where
  sorted : sortedPorts avoidPorts = avoidPorts
deriving DecidableEq

theorem ResolvedPolicy.ext_values {p q : ResolvedPolicy} (h : p.toPolicyValues = q.toPolicyValues) :
    p = q := by
  cases p with
  | mk values sorted =>
    cases q with
    | mk values' sorted' =>
      obtain rfl : values = values' := h
      rfl

theorem sortedPorts_sortedPorts (ports : List ℕ) :
    sortedPorts (sortedPorts ports) = sortedPorts ports :=
  sortedPorts_congr (toFinset_sortedPorts ports)

/-- `resolve`: the profile's floor folded into a stored policy. -/
def resolve (policy : Option StoredPolicy) : Option ResolvedPolicy :=
  policy.map fun s =>
    let floor := profileFloor s.profile
    { profile := s.profile
      safeOnly := s.safeOnly || floor.safeOnly
      skipServiceProbe := floor.skipServiceProbe
      avoidPorts := sortedPorts (s.avoidPorts ++ floor.avoidPorts)
      maxDiscoverRate := stricter s.maxDiscoverRate floor.maxDiscoverRate
      maxPortRate := stricter s.maxPortRate floor.maxPortRate
      maxHostConcurrency := stricter s.maxHostConcurrency floor.maxHostConcurrency
      perHostRate := stricter s.perHostRate floor.perHostRate
      sorted := sortedPorts_sortedPorts _ }

variable (frozen resolved : Option ResolvedPolicy)

def mergedProfile : PolicyProfile :=
  if frozen.map (·.profile) = some .fragile ∨ resolved.map (·.profile) = some .fragile then .fragile
  else (resolved.map (·.profile)).getD ((frozen.map (·.profile)).getD .standard)

/-- `tighten`, of two policies either of which may be missing. -/
def tightenPolicies : Option ResolvedPolicy :=
  if frozen = none ∧ resolved = none then none
  else some {
    profile := mergedProfile frozen resolved
    safeOnly := frozen.any (·.safeOnly) || resolved.any (·.safeOnly)
    skipServiceProbe := frozen.any (·.skipServiceProbe) || resolved.any (·.skipServiceProbe)
    avoidPorts := sortedPorts ((frozen.map (·.avoidPorts)).getD [] ++
      (resolved.map (·.avoidPorts)).getD [])
    maxDiscoverRate :=
      stricter (frozen.bind (·.maxDiscoverRate)) (resolved.bind (·.maxDiscoverRate))
    maxPortRate := stricter (frozen.bind (·.maxPortRate)) (resolved.bind (·.maxPortRate))
    maxHostConcurrency :=
      stricter (frozen.bind (·.maxHostConcurrency)) (resolved.bind (·.maxHostConcurrency))
    perHostRate := stricter (frozen.bind (·.perHostRate)) (resolved.bind (·.perHostRate))
    sorted := sortedPorts_sortedPorts _ }

/-- A policy as it is frozen on a job, with its fingerprint. -/
structure Snapshot where
  policy : ResolvedPolicy
  digest : String
deriving DecidableEq

variable (digest : PolicyValues → String)

def snapshot (policy : Option ResolvedPolicy) : Option Snapshot :=
  policy.map fun p => ⟨p, digest p.toPolicyValues⟩

/-- `apply_policy_to_queued`, on the snapshot of one queued job. -/
def applyToQueued (policy : Option ResolvedPolicy) (job : Option Snapshot) : Option Snapshot :=
  if policy = none then job
  else
    let merged := snapshot digest (tightenPolicies (job.map (·.policy)) policy)
    if merged = none ∨ merged = job then job else merged

end Documents

section Strictness

/-- `_CEILING_FIELDS`. -/
def ceilingFields : List (PolicyValues → Option ℕ) :=
  [PolicyValues.maxDiscoverRate, PolicyValues.maxPortRate, PolicyValues.maxHostConcurrency,
    PolicyValues.perHostRate]

/-- Whether one policy is at least as strict as another in every dimension. -/
structure AsStrict (p q : Option PolicyValues) : Prop where
  present : q.isSome = true → p.isSome = true
  profile : q.map (·.profile) = some .fragile → p.map (·.profile) = some .fragile
  safeOnly : q.any (·.safeOnly) = true → p.any (·.safeOnly) = true
  skipServiceProbe : q.any (·.skipServiceProbe) = true → p.any (·.skipServiceProbe) = true
  avoidPorts : (q.map (·.avoidPorts)).getD [] ⊆ (p.map (·.avoidPorts)).getD []
  ceilings : ∀ field ∈ ceilingFields, toLimit (p.bind field) ≤ toLimit (q.bind field)

def document (p : Option ResolvedPolicy) : Option PolicyValues := p.map (·.toPolicyValues)

theorem AsStrict.refl (p : Option PolicyValues) : AsStrict p p where
  present := id
  profile := id
  safeOnly := id
  skipServiceProbe := id
  avoidPorts := List.Subset.refl _
  ceilings _ _ := le_rfl

theorem AsStrict.trans {p q r : Option PolicyValues} (h : AsStrict p q) (k : AsStrict q r) :
    AsStrict p r where
  present := h.present ∘ k.present
  profile := h.profile ∘ k.profile
  safeOnly := h.safeOnly ∘ k.safeOnly
  skipServiceProbe := h.skipServiceProbe ∘ k.skipServiceProbe
  avoidPorts _ hport := h.avoidPorts (k.avoidPorts hport)
  ceilings field hfield := (h.ceilings field hfield).trans (k.ceilings field hfield)

theorem AsStrict.antisymm {p q : Option ResolvedPolicy} (h : AsStrict (document p) (document q))
    (k : AsStrict (document q) (document p)) : p = q := by
  cases p with
  | none =>
    cases q with
    | none => rfl
    | some q => exact absurd (h.present rfl) (by decide)
  | some p =>
    cases q with
    | none => exact absurd (k.present rfl) (by decide)
    | some q =>
      have hprofile : p.profile = q.profile := by
        have hpq := h.profile
        have hqp := k.profile
        simp only [document, Option.map_some, Option.some.injEq] at hpq hqp
        cases hp : p.profile <;> cases hq : q.profile <;> simp_all
      have hsafe : p.safeOnly = q.safeOnly := Bool.eq_iff_iff.mpr ⟨k.safeOnly, h.safeOnly⟩
      have hskip : p.skipServiceProbe = q.skipServiceProbe :=
        Bool.eq_iff_iff.mpr ⟨k.skipServiceProbe, h.skipServiceProbe⟩
      have hports : p.avoidPorts = q.avoidPorts := by
        rw [← p.sorted, ← q.sorted]
        refine sortedPorts_congr (Finset.Subset.antisymm ?_ ?_)
        · exact fun port hport => List.mem_toFinset.mpr (k.avoidPorts (List.mem_toFinset.mp hport))
        · exact fun port hport => List.mem_toFinset.mpr (h.avoidPorts (List.mem_toFinset.mp hport))
      have hceiling : ∀ field ∈ ceilingFields, field p.toPolicyValues = field q.toPolicyValues :=
        fun field hfield =>
          le_antisymm (α := WithTop ℕ) (h.ceilings field hfield) (k.ceilings field hfield)
      simp only [ceilingFields, List.forall_mem_cons, List.not_mem_nil, false_implies, implies_true,
        and_true] at hceiling
      have hvalues : p.toPolicyValues = q.toPolicyValues := by
        cases hp : p.toPolicyValues
        cases hq : q.toPolicyValues
        simp_all
      exact congrArg some (ResolvedPolicy.ext_values hvalues)

theorem mem_sortedPorts {ports : List ℕ} {port : ℕ} : port ∈ sortedPorts ports ↔ port ∈ ports := by
  rw [← List.mem_toFinset, toFinset_sortedPorts, List.mem_toFinset]

variable {p q : Option ResolvedPolicy}

theorem mergedProfile_eq_fragile : mergedProfile p q = .fragile ↔
    p.map (·.profile) = some .fragile ∨ q.map (·.profile) = some .fragile := by
  unfold mergedProfile
  by_cases h : p.map (·.profile) = some .fragile ∨ q.map (·.profile) = some .fragile
  · rw [if_pos h]
    exact iff_of_true rfl h
  · rw [if_neg h]
    refine iff_of_false ?_ h
    intro hfragile
    cases q with
    | some q => exact h (.inr (congrArg some hfragile))
    | none =>
      cases p with
      | some p => exact h (.inl (congrArg some hfragile))
      | none => exact absurd hfragile (by decide)

section Dimensions

variable (p q)

theorem isSome_tighten : (document (tightenPolicies p q)).isSome =
    ((document p).isSome || (document q).isSome) := by
  cases p <;> cases q <;> simp [tightenPolicies, document]

theorem fragile_tighten : (document (tightenPolicies p q)).map (·.profile) = some .fragile ↔
    (document p).map (·.profile) = some .fragile ∨
      (document q).map (·.profile) = some .fragile := by
  have hmerged := mergedProfile_eq_fragile (p := p) (q := q)
  cases p <;> cases q <;> simp [tightenPolicies, document] at hmerged ⊢ <;> exact hmerged

theorem safeOnly_tighten : (document (tightenPolicies p q)).any (·.safeOnly) =
    ((document p).any (·.safeOnly) || (document q).any (·.safeOnly)) := by
  cases p <;> cases q <;> simp [tightenPolicies, document]

theorem skipServiceProbe_tighten : (document (tightenPolicies p q)).any (·.skipServiceProbe) =
    ((document p).any (·.skipServiceProbe) || (document q).any (·.skipServiceProbe)) := by
  cases p <;> cases q <;> simp [tightenPolicies, document]

theorem avoidPorts_tighten (port : ℕ) :
    port ∈ ((document (tightenPolicies p q)).map (·.avoidPorts)).getD [] ↔
      port ∈ ((document p).map (·.avoidPorts)).getD [] ∨
        port ∈ ((document q).map (·.avoidPorts)).getD [] := by
  cases p <;> cases q <;> simp [tightenPolicies, document, mem_sortedPorts]

theorem ceilings_tighten : ∀ field ∈ ceilingFields,
    toLimit ((document (tightenPolicies p q)).bind field) =
      min (toLimit ((document p).bind field)) (toLimit ((document q).bind field)) := by
  simp only [ceilingFields, List.forall_mem_cons, List.not_mem_nil, false_implies, implies_true,
    and_true]
  cases p <;> cases q <;> simp [tightenPolicies, document, toLimit_stricter]

end Dimensions

/-- A policy is as strict as the tightened one exactly when it is as strict as both. -/
theorem asStrict_tighten (s : Option PolicyValues) :
    AsStrict s (document (tightenPolicies p q)) ↔
      AsStrict s (document p) ∧ AsStrict s (document q) := by
  constructor
  · intro h
    have hpresent := h.present
    have hsafe := h.safeOnly
    have hskip := h.skipServiceProbe
    rw [isSome_tighten, Bool.or_eq_true] at hpresent
    rw [safeOnly_tighten, Bool.or_eq_true] at hsafe
    rw [skipServiceProbe_tighten, Bool.or_eq_true] at hskip
    constructor
    · exact {
        present := fun hp => hpresent (.inl hp)
        profile := fun hp => h.profile ((fragile_tighten p q).mpr (.inl hp))
        safeOnly := fun hp => hsafe (.inl hp)
        skipServiceProbe := fun hp => hskip (.inl hp)
        avoidPorts := fun port hp => h.avoidPorts ((avoidPorts_tighten p q port).mpr (.inl hp))
        ceilings := fun field hfield => (h.ceilings field hfield).trans (by
          rw [ceilings_tighten p q field hfield]
          exact min_le_left _ _) }
    · exact {
        present := fun hq => hpresent (.inr hq)
        profile := fun hq => h.profile ((fragile_tighten p q).mpr (.inr hq))
        safeOnly := fun hq => hsafe (.inr hq)
        skipServiceProbe := fun hq => hskip (.inr hq)
        avoidPorts := fun port hq => h.avoidPorts ((avoidPorts_tighten p q port).mpr (.inr hq))
        ceilings := fun field hfield => (h.ceilings field hfield).trans (by
          rw [ceilings_tighten p q field hfield]
          exact min_le_right _ _) }
  · intro ⟨h, k⟩
    exact {
      present := fun hboth => by
        rw [isSome_tighten, Bool.or_eq_true] at hboth
        exact hboth.elim h.present k.present
      profile := fun hboth => ((fragile_tighten p q).mp hboth).elim h.profile k.profile
      safeOnly := fun hboth => by
        rw [safeOnly_tighten, Bool.or_eq_true] at hboth
        exact hboth.elim h.safeOnly k.safeOnly
      skipServiceProbe := fun hboth => by
        rw [skipServiceProbe_tighten, Bool.or_eq_true] at hboth
        exact hboth.elim h.skipServiceProbe k.skipServiceProbe
      avoidPorts := fun port hboth =>
        ((avoidPorts_tighten p q port).mp hboth).elim (fun hp => h.avoidPorts hp)
          fun hq => k.avoidPorts hq
      ceilings := fun field hfield => by
        rw [ceilings_tighten p q field hfield]
        exact le_min (h.ceilings field hfield) (k.ceilings field hfield) }

theorem eq_of_asStrict_iff (h : ∀ s, AsStrict s (document p) ↔ AsStrict s (document q)) : p = q :=
  AsStrict.antisymm ((h _).mp (AsStrict.refl _)) ((h _).mpr (AsStrict.refl _))

theorem tighten_comm (p q : Option ResolvedPolicy) :
    tightenPolicies p q = tightenPolicies q p := by
  apply eq_of_asStrict_iff
  intro s
  rw [asStrict_tighten, asStrict_tighten, and_comm]

theorem tighten_assoc (p q r : Option ResolvedPolicy) :
    tightenPolicies (tightenPolicies p q) r = tightenPolicies p (tightenPolicies q r) := by
  apply eq_of_asStrict_iff
  intro s
  rw [asStrict_tighten, asStrict_tighten, asStrict_tighten, asStrict_tighten, and_assoc]

theorem tighten_self (p : Option ResolvedPolicy) : tightenPolicies p p = p := by
  apply eq_of_asStrict_iff
  intro s
  rw [asStrict_tighten, and_self]

theorem tighten_asStrict (p q : Option ResolvedPolicy) :
    AsStrict (document (tightenPolicies p q)) (document p) ∧
      AsStrict (document (tightenPolicies p q)) (document q) :=
  (asStrict_tighten _).mp (AsStrict.refl _)

/-- A resolved policy is as strict as its profile's floor and as what is stored. -/
theorem resolve_asStrict (s : StoredPolicy) :
    AsStrict (document (resolve (some s))) (some (profileFloor s.profile)) ∧
      AsStrict (document (resolve (some s))) (some s.values) := by
  have hfloor : (profileFloor s.profile).profile = s.profile := by
    cases s.profile <;> rfl
  have hceilings : ∀ field ∈ ceilingFields, toLimit ((document (resolve (some s))).bind field) =
      min (toLimit (field s.values)) (toLimit (field (profileFloor s.profile))) := by
    simp only [ceilingFields, List.forall_mem_cons, List.not_mem_nil, false_implies, implies_true,
      and_true]
    exact ⟨toLimit_stricter _ _, toLimit_stricter _ _, toLimit_stricter _ _, toLimit_stricter _ _⟩
  constructor
  · exact {
      present := fun _ => rfl
      profile := fun h => by
        rw [Option.map_some, hfloor] at h
        exact h
      safeOnly := fun h => Bool.or_eq_true_iff.mpr (.inr h)
      skipServiceProbe := id
      avoidPorts := fun port h => mem_sortedPorts.mpr (List.mem_append_right _ h)
      ceilings := fun field hfield => (hceilings field hfield).trans_le (min_le_right _ _) }
  · exact {
      present := fun _ => rfl
      profile := id
      safeOnly := fun h => Bool.or_eq_true_iff.mpr (.inl h)
      skipServiceProbe := fun h => Bool.noConfusion (h : false = true)
      avoidPorts := fun port h => mem_sortedPorts.mpr (List.mem_append_left _ h)
      ceilings := fun field hfield => (hceilings field hfield).trans_le (min_le_left _ _) }

theorem policy_snapshot (digest : PolicyValues → String) (policy : Option ResolvedPolicy) :
    (snapshot digest policy).map (·.policy) = policy := by
  cases policy <;> rfl

theorem applyToQueued_again (digest : PolicyValues → String) (policy : Option ResolvedPolicy)
    (job : Option Snapshot) : applyToQueued digest policy (applyToQueued digest policy job) =
      applyToQueued digest policy job := by
  by_cases hnone : policy = none
  · rw [applyToQueued, if_pos hnone]
  · by_cases hkept : snapshot digest (tightenPolicies (job.map (·.policy)) policy) = none ∨
        snapshot digest (tightenPolicies (job.map (·.policy)) policy) = job
    · have hjob : applyToQueued digest policy job = job := by
        rw [applyToQueued, if_neg hnone]
        exact if_pos hkept
      rw [hjob, hjob]
    · have hmerged : applyToQueued digest policy job =
          snapshot digest (tightenPolicies (job.map (·.policy)) policy) := by
        rw [applyToQueued, if_neg hnone]
        exact if_neg hkept
      rw [hmerged, applyToQueued, if_neg hnone]
      dsimp only
      rw [policy_snapshot, tighten_assoc, tighten_self]
      exact if_pos (.inr rfl)

theorem applyToQueued_admitted (digest : PolicyValues → String) (policy : Option ResolvedPolicy) :
    applyToQueued digest policy (snapshot digest policy) = snapshot digest policy := by
  unfold applyToQueued
  dsimp only
  rw [policy_snapshot, tighten_self]
  split_ifs
  · rfl
  · rfl
  · rfl

/-- Tightening is the meet of policies, resolving keeps to the floor and to what is stored, and a
queued job's snapshot stays as it is while the policy does. -/
theorem tighten_meet (digest : PolicyValues → String) :
    (∀ p q, tightenPolicies p q = tightenPolicies q p) ∧
    (∀ p q r, tightenPolicies (tightenPolicies p q) r = tightenPolicies p (tightenPolicies q r)) ∧
    (∀ p, tightenPolicies p p = p) ∧
    (∀ p q, AsStrict (document (tightenPolicies p q)) (document p) ∧
      AsStrict (document (tightenPolicies p q)) (document q)) ∧
    (∀ p q s, AsStrict s (document p) → AsStrict s (document q) →
      AsStrict s (document (tightenPolicies p q))) ∧
    (∀ s, AsStrict (document (resolve (some s))) (some (profileFloor s.profile)) ∧
      AsStrict (document (resolve (some s))) (some s.values)) ∧
    (∀ stored, applyToQueued digest (resolve stored) (snapshot digest (resolve stored)) =
      snapshot digest (resolve stored)) ∧
    ∀ stored job,
      applyToQueued digest (resolve stored) (applyToQueued digest (resolve stored) job) =
      applyToQueued digest (resolve stored) job :=
  ⟨tighten_comm, tighten_assoc, tighten_self, tighten_asStrict,
    fun _ _ s hp hq => (asStrict_tighten s).mpr ⟨hp, hq⟩, resolve_asStrict,
    fun stored => applyToQueued_admitted digest (resolve stored),
    fun stored job => applyToQueued_again digest (resolve stored) job⟩

example : document (resolve (some ⟨.fragile, false, [80], some 10000, none, none, some 5⟩)) =
    some ⟨.fragile, true, true, sortedPorts (80 :: otAvoidPorts), some 100, some 50, some 1,
      some 5⟩ := by
  rfl

end Strictness

end Shapoclyack.PolicyMeet
