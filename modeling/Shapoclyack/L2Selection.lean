import Mathlib.Algebra.BigOperators.Finprod
import Shapoclyack.Library.CollapsedBlocks
import Shapoclyack.Library.IpNetworks

set_option autoImplicit false

namespace Shapoclyack.L2Selection

open Library Library.Block

/-! An IPv4 network is a block of at most 32 bits. -/

section Networks

def cidr (a b c d length : ℕ) : Block :=
  ⟨32 - length, (((a * 256 + b) * 256 + c) * 256 + d) / 2 ^ (32 - length)⟩

def prefixlen (network : Block) : ℕ := 32 - network.height

def hostCount (network : Block) : ℕ :=
  if prefixlen network ≥ 31 then 2 ^ network.height else 2 ^ network.height - 2

def privateNetworks : List Block :=
  [cidr 0 0 0 0 8, cidr 10 0 0 0 8, cidr 127 0 0 0 8, cidr 169 254 0 0 16, cidr 172 16 0 0 12,
    cidr 192 0 0 0 24, cidr 192 0 0 170 31, cidr 192 0 2 0 24, cidr 192 168 0 0 16,
    cidr 198 18 0 0 15, cidr 198 51 100 0 24, cidr 203 0 113 0 24, cidr 240 0 0 0 4,
    cidr 255 255 255 255 32]

def privateExceptions : List Block := [cidr 192 0 0 9 32, cidr 192 0 0 10 32]

/-- `is_private`: both ends are in one private network and in no exception. -/
def isPrivate (network : Block) : Bool :=
  privateNetworks.any (fun p => network.first ∈ p ∧ network.last ∈ p) &&
    privateExceptions.all fun p => network.first ∉ p ∧ network.last ∉ p

def isLinkLocal (network : Block) : Bool :=
  network.first ∈ cidr 169 254 0 0 16 ∧ network.last ∈ cidr 169 254 0 0 16

end Networks

section Selection

/-- Why a requested network is left out. -/
inductive Reason where
  | outsideScanScope
  | notLocalAddressSpace
  | noHostAddresses
  | hostCapExceeded (maxHosts : ℕ)
deriving DecidableEq

def Reason.text : Reason → String
  | .outsideScanScope => "outside_scan_scope"
  | .notLocalAddressSpace => "not_local_address_space"
  | .noHostAddresses => "no_host_addresses"
  | .hostCapExceeded maxHosts => "host_cap_exceeded:" ++ toString maxHosts

structure Skipped where
  network : Block
  reason : Reason
deriving DecidableEq

/-- `L2DiscoveryConfig`, whose networks are IPv4 ones. -/
structure L2Config where
  networks : List Block
  maxHosts : ℕ
  within : ∀ n ∈ networks, n ≤ Version.v4.space
  maxHosts_pos : 1 ≤ maxHosts
  maxHosts_le : maxHosts ≤ 65536

/-- The IPv4 network a target is, none where it does not parse as one. -/
def targetNetwork (raw : List Char) : Option Block :=
  match ipNetwork raw with
  | some parsed => if parsed.version = .v4 then some parsed.block else none
  | none => none

def targetNetworks (targets : List (List Char)) : List Block :=
  collapse 32 (targets.filterMap targetNetwork)

variable (config : L2Config) (scopes : List Block)

/-- The networks selected and those skipped, of the ones requested from where the running host
count stands. -/
def selectLoop : List Block → ℕ → List Block × List Skipped
  | [], _ => ([], [])
  | network :: rest, totalHosts =>
    let skip (reason : Reason) : List Block × List Skipped :=
      let later := selectLoop rest totalHosts
      (later.1, ⟨network, reason⟩ :: later.2)
    if ¬ ∃ scope ∈ scopes, network ≤ scope then skip .outsideScanScope
    else if config.networks = [] ∧ ¬ (isPrivate network ∨ isLinkLocal network) then
      skip .notLocalAddressSpace
    else
      let count := hostCount network
      if count = 0 then skip .noHostAddresses
      else if totalHosts + count > config.maxHosts then skip (.hostCapExceeded config.maxHosts)
      else
        let later := selectLoop rest (totalHosts + count)
        (network :: later.1, later.2)

def requested : List Block := if config.networks ≠ [] then config.networks else scopes

def selectL2Networks (targets : List (List Char)) : List Block × List Skipped :=
  let scopes := targetNetworks targets
  let found := selectLoop config scopes (requested config scopes) 0
  (collapse 32 found.1, found.2)

end Selection

section Meaning

variable (config : L2Config)

def InScope (targets : List (List Char)) (a : ℕ) : Prop :=
  ∃ raw ∈ targets, ∃ n, ipNetwork raw = some n ∧ n.version = .v4 ∧ a ∈ n.block

def Eligible (scopes : List Block) (network : Block) : Prop :=
  (∃ scope ∈ scopes, network ≤ scope) ∧
    (config.networks = [] → isPrivate network ∨ isLinkLocal network)

instance (scopes : List Block) : DecidablePred (Eligible config scopes) :=
  fun _ => inferInstanceAs (Decidable (_ ∧ _))

def eligible (targets : List (List Char)) : List Block :=
  let scopes := targetNetworks targets
  (requested config scopes).filter fun n => Eligible config scopes n

def room : ℕ → List Block → ℕ
  | cap, [] => cap
  | cap, network :: rest =>
    if hostCount network ≤ cap then room (cap - hostCount network) rest else room cap rest

/-- A requested network in scope that the cap has room for after those before it. -/
def HasRoom (targets : List (List Char)) (network : Block) : Prop :=
  ∃ before after, eligible config targets = before ++ network :: after ∧
    hostCount network ≤ room config.maxHosts before

/-- Neighbours that join: a block that such networks fill, none of them alone. -/
def Joins (targets : List (List Char)) (b : Block) : Prop :=
  (∀ a ∈ b, ∃ n, HasRoom config targets n ∧ a ∈ n) ∧ ∀ n, HasRoom config targets n → ¬ b ≤ n

def Apart (targets : List (List Char)) (network : Block) : Prop :=
  HasRoom config targets network ∧ ∀ n, HasRoom config targets n → network ≤ n → n = network

/-- What the cap has left beside the networks it has room for, a nested one not counted again. -/
noncomputable def left (targets : List (List Char)) : ℕ :=
  config.maxHosts - ∑ᶠ network ∈ { n | Apart config targets n }, hostCount network

/-- The cap has two hosts left for each join of networks of four addresses or more; a join of two
of two addresses takes two back. -/
def JoinedWithin (targets : List (List Char)) : Prop :=
  2 * Set.ncard { b | Joins config targets b ∧ 2 < b.height } ≤
    left config targets + 2 * Set.ncard { b | Joins config targets b ∧ b.height = 2 }

/-- What the selection promises. -/
structure Bounded (targets : List (List Char)) : Prop where
  inScope : ∀ a, Covers (selectL2Networks config targets).1 a → InScope targets a
  localSpace : config.networks = [] →
    ∀ n ∈ (selectL2Networks config targets).1, isPrivate n ∨ isLinkLocal n
  disjoint : (selectL2Networks config targets).1.Pairwise fun p q => ¬ p.Overlaps q
  capped : ((selectL2Networks config targets).1.map hostCount).sum ≤ config.maxHosts
  accounted : ∀ n ∈ requested config (targetNetworks targets),
    (∀ a ∈ n, Covers (selectL2Networks config targets).1 a) ∨
      ∃ s ∈ (selectL2Networks config targets).2, s.network = n

end Meaning

section Hosts

variable {network : Block} {config : L2Config} {targets : List (List Char)}

theorem hostCount_pos (network : Block) : 0 < hostCount network := by
  have hpos : 0 < 2 ^ network.height := Nat.two_pow_pos _
  unfold hostCount prefixlen
  split_ifs with hshort
  · exact hpos
  · have hheight : 2 ≤ network.height := by omega
    have hfour : 2 ^ 2 ≤ 2 ^ network.height := Nat.pow_le_pow_right (by decide) hheight
    omega

theorem hostCount_add (h : network.height ≤ 32) :
    hostCount network + (if 2 ≤ network.height then 2 else 0) = 2 ^ network.height := by
  unfold hostCount prefixlen
  by_cases hheight : 2 ≤ network.height
  · have hfour : 2 ^ 2 ≤ 2 ^ network.height := Nat.pow_le_pow_right (by decide) hheight
    rw [if_neg (by omega), if_pos hheight]
    omega
  · rw [if_pos (by omega), if_neg hheight, Nat.add_zero]

theorem hosts_add {networks : List Block} (h : ∀ n ∈ networks, n.height ≤ 32) :
    (networks.map hostCount).sum + 2 * (networks.filter fun n => 2 ≤ n.height).length =
      (networks.map fun n => 2 ^ n.height).sum := by
  induction networks with
  | nil => rfl
  | cons n rest ih =>
    have hn := hostCount_add (h n List.mem_cons_self)
    have hrest := ih fun m hm => h m (List.mem_cons_of_mem _ hm)
    rw [List.map_cons, List.sum_cons, List.map_cons, List.sum_cons, List.filter_cons]
    by_cases hheight : 2 ≤ n.height
    · rw [if_pos hheight] at hn
      rw [if_pos (decide_eq_true hheight), List.length_cons]
      omega
    · rw [if_neg hheight] at hn
      rw [if_neg (by rw [decide_eq_true_eq]; exact hheight)]
      omega

def fitting (cap : ℕ) : ℕ → List Block → List Block
  | _, [] => []
  | used, network :: rest =>
    if used + hostCount network ≤ cap then network :: fitting cap (used + hostCount network) rest
    else fitting cap used rest

theorem mem_fitting {cap used : ℕ} {networks : List Block} (h : used ≤ cap) :
    network ∈ fitting cap used networks ↔
      ∃ before after, networks = before ++ network :: after ∧
        hostCount network ≤ room (cap - used) before := by
  induction networks generalizing used with
  | nil => simp [fitting]
  | cons first rest ih =>
    have hsplit : (∃ before after, first :: rest = before ++ network :: after ∧
        hostCount network ≤ room (cap - used) before) ↔
          (network = first ∧ hostCount first ≤ cap - used) ∨
            ∃ before after, rest = before ++ network :: after ∧
              hostCount network ≤ room (cap - used) (first :: before) := by
      constructor
      · rintro ⟨before, after, heq, hroom⟩
        cases before with
        | nil =>
          obtain ⟨rfl, -⟩ := List.cons.inj heq
          exact .inl ⟨rfl, hroom⟩
        | cons head before =>
          obtain ⟨rfl, hrest⟩ := List.cons.inj heq
          exact .inr ⟨before, after, hrest, hroom⟩
      · rintro (⟨rfl, hroom⟩ | ⟨before, after, rfl, hroom⟩)
        · exact ⟨[], rest, rfl, hroom⟩
        · exact ⟨first :: before, after, rfl, hroom⟩
    rw [hsplit, fitting]
    simp only [room]
    by_cases hfits : used + hostCount first ≤ cap
    · have hleft : hostCount first ≤ cap - used := by omega
      have hnext : cap - used - hostCount first = cap - (used + hostCount first) := by omega
      rw [if_pos hfits, List.mem_cons, ih hfits]
      simp only [hleft, hnext, if_true, and_true]
    · have hleft : ¬ hostCount first ≤ cap - used := by omega
      rw [if_neg hfits, ih h]
      simp only [hleft, if_false, and_false, false_or]

theorem fitting_sum {cap used : ℕ} (networks : List Block) (h : used ≤ cap) :
    used + ((fitting cap used networks).map hostCount).sum ≤ cap := by
  induction networks generalizing used with
  | nil => exact h
  | cons n rest ih =>
    rw [fitting]
    split_ifs with hfits
    · have hrest := ih hfits
      rw [List.map_cons, List.sum_cons]
      omega
    · exact ih h

theorem fitting_sublist (cap used : ℕ) (networks : List Block) :
    (fitting cap used networks).Sublist networks := by
  induction networks generalizing used with
  | nil => exact List.Sublist.refl _
  | cons n rest ih =>
    rw [fitting]
    split_ifs
    · exact (ih _).cons_cons n
    · exact (ih _).cons n

end Hosts

section Loop

variable {config : L2Config} {scopes : List Block} {targets : List (List Char)}

/-- What the loop selects: the eligible networks that fit. -/
theorem selectLoop_selected (networks : List Block) (totalHosts : ℕ) :
    (selectLoop config scopes networks totalHosts).1 =
      fitting config.maxHosts totalHosts (networks.filter fun n => Eligible config scopes n) := by
  induction networks generalizing totalHosts with
  | nil => rfl
  | cons n rest ih =>
    rw [selectLoop]
    simp only
    by_cases hscope : ∃ scope ∈ scopes, n ≤ scope
    · rw [if_neg (not_not.mpr hscope)]
      by_cases hlocal : config.networks = [] ∧ ¬ (isPrivate n ∨ isLinkLocal n)
      · have hnot : ¬ Eligible config scopes n := fun h => hlocal.2 (h.2 hlocal.1)
        rw [if_pos hlocal, List.filter_cons_of_neg (by simpa using hnot)]
        exact ih totalHosts
      · have heligible : Eligible config scopes n :=
          ⟨hscope, fun hempty => not_not.mp fun h => hlocal ⟨hempty, h⟩⟩
        have hfilter : (n :: rest).filter (fun n => Eligible config scopes n) =
            n :: rest.filter fun n => Eligible config scopes n :=
          List.filter_cons_of_pos (decide_eq_true heligible)
        rw [if_neg hlocal, if_neg (hostCount_pos n).ne', hfilter, fitting]
        by_cases hfits : totalHosts + hostCount n ≤ config.maxHosts
        · rw [if_neg (Nat.not_lt.mpr hfits), if_pos hfits, ih]
        · rw [if_pos (Nat.not_le.mp hfits), if_neg hfits]
          exact ih totalHosts
    · have hnot : ¬ Eligible config scopes n := fun h => hscope h.1
      rw [if_pos hscope, List.filter_cons_of_neg (by simpa using hnot)]
      exact ih totalHosts

theorem selectLoop_accounted (networks : List Block) (totalHosts : ℕ) :
    ∀ n ∈ networks, n ∈ (selectLoop config scopes networks totalHosts).1 ∨
      ∃ s ∈ (selectLoop config scopes networks totalHosts).2, s.network = n := by
  induction networks generalizing totalHosts with
  | nil =>
    intro n hn
    cases hn
  | cons first rest ih =>
    intro n hn
    have hskip (reason : Reason) :
        n ∈ (selectLoop config scopes rest totalHosts).1 ∨
          ∃ s ∈ ⟨first, reason⟩ :: (selectLoop config scopes rest totalHosts).2, s.network = n := by
      cases List.mem_cons.mp hn with
      | inl heq => exact Or.inr ⟨_, List.mem_cons_self, heq.symm⟩
      | inr hrest =>
        refine (ih totalHosts n hrest).imp id fun ⟨s, hs, heq⟩ => ?_
        exact ⟨s, List.mem_cons_of_mem _ hs, heq⟩
    rw [selectLoop]
    simp only
    split_ifs with hscope hlocal hcount hcap
    · exact hskip _
    · exact hskip _
    · exact hskip _
    · cases List.mem_cons.mp hn with
      | inl heq =>
        rw [heq]
        exact Or.inl List.mem_cons_self
      | inr hrest => exact (ih _ n hrest).imp (List.mem_cons_of_mem _) id
    · exact hskip _

/-- The networks that are eligible and fit under the host cap. -/
def admitted (config : L2Config) (targets : List (List Char)) : List Block :=
  fitting config.maxHosts 0 (eligible config targets)

theorem mem_admitted {n : Block} : n ∈ admitted config targets ↔ HasRoom config targets n :=
  mem_fitting (Nat.zero_le _)

theorem selected_eq (targets : List (List Char)) :
    (selectL2Networks config targets).1 = collapse 32 (admitted config targets) := by
  unfold selectL2Networks admitted eligible
  simp only [selectLoop_selected]

end Loop

section Space

variable {config : L2Config} {targets : List (List Char)} {b c : Block}

theorem targetNetwork_within {raw : List Char} (h : targetNetwork raw = some b) :
    ∃ n, ipNetwork raw = some n ∧ n.version = .v4 ∧ b = n.block := by
  unfold targetNetwork at h
  cases hparse : ipNetwork raw with
  | none =>
    rw [hparse] at h
    cases h
  | some n =>
    rw [hparse] at h
    simp only at h
    split_ifs at h with hversion
    exact ⟨n, rfl, hversion, (Option.some.inj h).symm⟩

theorem covers_targetNetworks {a : ℕ} :
    Covers (targetNetworks targets) a ↔ InScope targets a := by
  unfold targetNetworks InScope
  rw [covers_collapse]
  constructor
  · rintro ⟨b, hb, ha⟩
    obtain ⟨raw, hraw, hparse⟩ := List.mem_filterMap.mp hb
    obtain ⟨n, hn, hversion, rfl⟩ := targetNetwork_within hparse
    exact ⟨raw, hraw, n, hn, hversion, ha⟩
  · rintro ⟨raw, hraw, n, hn, hversion, ha⟩
    refine ⟨n.block, List.mem_filterMap.mpr ⟨raw, hraw, ?_⟩, ha⟩
    unfold targetNetwork
    rw [hn]
    exact if_pos hversion

theorem targetNetworks_within : ∀ n ∈ targetNetworks targets, n ≤ ⟨32, 0⟩ := by
  apply collapse_within
  intro b hb
  obtain ⟨raw, _, hparse⟩ := List.mem_filterMap.mp hb
  obtain ⟨n, _, hversion, rfl⟩ := targetNetwork_within hparse
  have hwithin := n.within
  rw [hversion] at hwithin
  exact hwithin

theorem admitted_eligible {n : Block} (h : n ∈ admitted config targets) :
    Eligible config (targetNetworks targets) n ∧
      n ∈ requested config (targetNetworks targets) := by
  have hin := (fitting_sublist _ _ _).subset h
  have hfilter := List.mem_filter.mp hin
  exact ⟨of_decide_eq_true hfilter.2, hfilter.1⟩

theorem admitted_within : ∀ n ∈ admitted config targets, n ≤ ⟨32, 0⟩ := by
  intro n hn
  obtain ⟨scope, hscope, hle⟩ := (admitted_eligible hn).1.1
  exact hle.trans (targetNetworks_within scope hscope)

theorem isPrivate_iff : isPrivate b = true ↔
    (∃ p ∈ privateNetworks, b ≤ p) ∧ ∀ e ∈ privateExceptions, b.first ∉ e ∧ b.last ∉ e := by
  unfold isPrivate
  rw [Bool.and_eq_true, List.any_eq_true, List.all_eq_true]
  simp only [decide_eq_true_eq]
  refine and_congr_left fun _ => exists_congr fun p => and_congr_right fun _ => ?_
  constructor
  · rintro ⟨hfirst, hlast⟩
    exact le_iff_bounds.mpr ⟨(mem_iff.mp hfirst).1, (mem_iff.mp hlast).2⟩
  · intro hle
    exact ⟨mem_of_le hle b.first_mem, mem_of_le hle b.last_mem⟩

theorem linkLocal_not_exception {a : ℕ} (h : a ∈ cidr 169 254 0 0 16) :
    ∀ e ∈ privateExceptions, a ∉ e := by
  intro e he hmem
  rw [mem_def] at h hmem
  simp only [privateExceptions, List.mem_cons, List.not_mem_nil, or_false] at he
  cases he with
  | inl heq =>
    subst heq
    simp only [cidr] at h hmem
    omega
  | inr heq =>
    subst heq
    simp only [cidr] at h hmem
    omega

theorem isPrivate_of_linkLocal (h : isLinkLocal b = true) : isPrivate b = true := by
  obtain ⟨hfirst, hlast⟩ := of_decide_eq_true h
  have hle : b ≤ cidr 169 254 0 0 16 :=
    le_iff_bounds.mpr ⟨(mem_iff.mp hfirst).1, (mem_iff.mp hlast).2⟩
  refine isPrivate_iff.mpr ⟨⟨_, by decide, hle⟩, fun e he => ⟨?_, ?_⟩⟩
  · exact linkLocal_not_exception hfirst e he
  · exact linkLocal_not_exception hlast e he

theorem supernet_ends (hsame : b.supernet 32 = c.supernet 32) (hne : b ≠ c) :
    ((b.supernet 32).first = b.first ∨ (b.supernet 32).first = c.first) ∧
      ((b.supernet 32).last = b.last ∨ (b.supernet 32).last = c.last) := by
  have hb := le_iff_bounds.mp (le_supernet 32 b)
  have hc := le_iff_bounds.mp (le_supernet 32 c)
  rw [← hsame] at hc
  constructor
  · refine ((mem_supernet hsame hne).mp (first_mem _)).imp (fun hmem => ?_) (fun hmem => ?_)
    · exact Nat.le_antisymm hb.1 (mem_iff.mp hmem).1
    · exact Nat.le_antisymm hc.1 (mem_iff.mp hmem).1
  · refine ((mem_supernet hsame hne).mp (last_mem _)).imp (fun hmem => ?_) (fun hmem => ?_)
    · exact Nat.le_antisymm (mem_iff.mp hmem).2 hb.2
    · exact Nat.le_antisymm (mem_iff.mp hmem).2 hc.2

theorem private_unpaired : ∀ p ∈ privateNetworks, ∀ q ∈ privateNetworks,
    p.supernet 32 = q.supernet 32 → p = q := by
  decide +kernel

theorem private_height : ∀ p ∈ privateNetworks, p.height ≤ 32 := by
  decide +kernel

theorem isPrivate_supernet (hsame : b.supernet 32 = c.supernet 32) (hne : b ≠ c)
    (hb : isPrivate b = true) (hc : isPrivate c = true) : isPrivate (b.supernet 32) = true := by
  obtain ⟨⟨p, hp, hbp⟩, hbout⟩ := isPrivate_iff.mp hb
  obtain ⟨⟨q, hq, hcq⟩, hcout⟩ := isPrivate_iff.mp hc
  refine isPrivate_iff.mpr ⟨?_, fun e he => ?_⟩
  · by_cases hbeq : b = p
    · by_cases hceq : c = q
      · have hpq := private_unpaired p hp q hq (hbeq ▸ hceq ▸ hsame)
        exact absurd (hbeq.trans (hpq.trans hceq.symm)) hne
      · have hlt := Nat.lt_of_le_of_ne hcq.1 fun heq => hceq (eq_of_le hcq heq)
        exact ⟨q, hq, hsame ▸ supernet_le hcq hlt (private_height q hq)⟩
    · have hlt := Nat.lt_of_le_of_ne hbp.1 fun heq => hbeq (eq_of_le hbp heq)
      exact ⟨p, hp, supernet_le hbp hlt (private_height p hp)⟩
  · have hends := supernet_ends hsame hne
    constructor
    · cases hends.1 with
      | inl heq => exact heq ▸ (hbout e he).1
      | inr heq => exact heq ▸ (hcout e he).1
    · cases hends.2 with
      | inl heq => exact heq ▸ (hbout e he).2
      | inr heq => exact heq ▸ (hcout e he).2

end Space

section Bound

variable {config : L2Config} {targets : List (List Char)}

theorem hosts_covered {networks : List Block}
    (hdisjoint : networks.Pairwise fun p q => ¬ p.Overlaps q)
    (hheights : ∀ n ∈ networks, n.height ≤ 32) :
    (networks.map hostCount).sum + 2 * Set.ncard { b | b ∈ networks ∧ 2 ≤ b.height } =
      Set.ncard { a | Covers networks a } := by
  have hwide : { b | b ∈ networks ∧ 2 ≤ b.height } =
      ((networks.filter fun n => 2 ≤ n.height).toFinset : Set Block) := by
    ext b
    simp
  have hcount := List.toFinset_card_of_nodup
    ((nodup_of_disjoint hdisjoint).filter fun n => decide (2 ≤ n.height))
  rw [hwide, Set.ncard_coe_finset, hcount, hosts_add hheights, ncard_covers hdisjoint]

/-- The hosts selected: those of the networks admitted, each once, and two for each join. -/
theorem selected_hosts (config : L2Config) (targets : List (List Char)) :
    ((selectL2Networks config targets).1.map hostCount).sum +
        2 * Set.ncard { b | MadeUp (admitted config targets) b ∧ b.height = 2 } =
      ((outermost (admitted config targets)).map hostCount).sum +
        2 * Set.ncard { b | MadeUp (admitted config targets) b ∧ 2 < b.height } := by
  have hselected := @hosts_covered (selectL2Networks config targets).1
    (by rw [selected_eq]; exact collapse_disjoint _ _)
    (by rw [selected_eq]; exact fun n hn => (collapse_within admitted_within n hn).1)
  have houter := hosts_covered (outermost_disjoint (admitted config targets))
    fun n hn => (admitted_within n (mem_outermost.mp hn).1).1
  rw [selected_eq] at hselected ⊢
  simp only [mem_collapse_iff admitted_within, covers_collapse] at hselected
  simp only [mem_outermost, covers_outermost] at houter
  have hjoins := ncard_outermost_add (admitted config targets) 2
  omega

theorem joins_iff {b : Block} : Joins config targets b ↔ MadeUp (admitted config targets) b := by
  unfold Joins MadeUp Covers
  simp only [mem_admitted]

theorem apart_iff {n : Block} : Apart config targets n ↔ Outermost (admitted config targets) n := by
  unfold Apart Outermost
  simp only [mem_admitted]

theorem left_eq (config : L2Config) (targets : List (List Char)) :
    left config targets =
      config.maxHosts - ((outermost (admitted config targets)).map hostCount).sum := by
  have hset : { n | Apart config targets n } =
      ((outermost (admitted config targets)).toFinset : Set Block) := by
    ext n
    simp only [Set.mem_ofPred_eq, List.coe_toFinset, apart_iff, mem_outermost]
  unfold left
  rw [hset, finsum_mem_coe_finset,
    List.sum_toFinset hostCount (nodup_of_disjoint (outermost_disjoint _))]

theorem outermost_within_cap (config : L2Config) (targets : List (List Char)) :
    ((outermost (admitted config targets)).map hostCount).sum ≤ config.maxHosts := by
  have hsum := @fitting_sum config.maxHosts 0 (eligible config targets) (Nat.zero_le _)
  have hless := ((outermost_sublist (admitted config targets)).map hostCount).sum_le_sum
    fun _ _ => Nat.zero_le _
  rw [Nat.zero_add] at hsum
  exact hless.trans hsum

/-- The cap holds on what is selected just when it has hosts left for the joins. -/
theorem joinedWithin_iff : JoinedWithin config targets ↔
    ((selectL2Networks config targets).1.map hostCount).sum ≤ config.maxHosts := by
  have hhosts := selected_hosts config targets
  have hcap := outermost_within_cap config targets
  unfold JoinedWithin
  simp only [joins_iff, left_eq]
  omega

/-- The selection is bounded just when joining neighbours gives back no more hosts than the cap
has left. -/
theorem bounded_iff (config : L2Config) (targets : List (List Char)) :
    Bounded config targets ↔ JoinedWithin config targets := by
  constructor
  · exact fun h => joinedWithin_iff.mpr h.capped
  · intro h
    refine ⟨fun a ha => ?_, fun hempty => ?_, ?_, joinedWithin_iff.mp h, fun n hn => ?_⟩
    · rw [selected_eq, covers_collapse] at ha
      obtain ⟨n, hn, ha⟩ := ha
      obtain ⟨scope, hscope, hle⟩ := (admitted_eligible hn).1.1
      exact covers_targetNetworks.mp ⟨scope, hscope, mem_of_le hle ha⟩
    · have hprivate : ∀ n ∈ collapse 32 (admitted config targets), isPrivate n = true := by
        apply collapse_induction
        · exact fun b c hsame hne => isPrivate_supernet hsame hne
        · exact fun n hn => ((admitted_eligible hn).1.2 hempty).elim id isPrivate_of_linkLocal
      rw [selected_eq]
      exact fun n hn => Or.inl (hprivate n hn)
    · rw [selected_eq]
      exact collapse_disjoint _ _
    · refine (selectLoop_accounted _ 0 n hn).imp (fun hselected a ha => ?_) id
      rw [selected_eq, covers_collapse]
      refine ⟨n, ?_, ha⟩
      rw [selectLoop_selected] at hselected
      exact hselected

theorem joinedWithin_of_derived (h : config.networks = []) : JoinedWithin config targets := by
  have hsublist : (admitted config targets).Sublist (targetNetworks targets) := by
    unfold admitted eligible
    refine (fitting_sublist _ _ _).trans (List.filter_sublist.trans ?_)
    unfold requested
    rw [if_neg (not_not.mpr h)]
  have hcanonical : Canonical 32 (admitted config targets) := by
    refine ⟨fun n hn => (admitted_within n hn).1,
      (collapse_disjoint 32 _).sublist hsublist, fun b hb c hc hsame => ?_⟩
    exact collapse_no_siblings (hsublist.subset hb) (hsublist.subset hc) hsame
  have hperm : (selectL2Networks config targets).1.Perm (admitted config targets) := by
    rw [selected_eq]
    refine (collapse_canonical admitted_within).perm hcanonical (fun a => covers_collapse 32 _) ?_
    exact fun c hc => height_le_of_covered (collapse_within admitted_within) hc
  have hsum := @fitting_sum config.maxHosts 0 (eligible config targets) (Nat.zero_le _)
  rw [joinedWithin_iff, (hperm.map hostCount).sum_eq]
  rwa [Nat.zero_add] at hsum

def halves : L2Config :=
  ⟨[cidr 10 0 0 0 25, cidr 10 0 0 128 25], 252, by decide, by decide, by decide⟩

def wholeNetwork : List Char := ['1', '0', '.', '0', '.', '0', '.', '0', '/', '2', '4']

theorem halves_joined :
    selectL2Networks halves [wholeNetwork] = ([cidr 10 0 0 0 24], []) ∧
      ¬ Bounded halves [wholeNetwork] := by
  have hselected : selectL2Networks halves [wholeNetwork] = ([cidr 10 0 0 0 24], []) := by
    decide +kernel
  refine ⟨hselected, fun h => ?_⟩
  have hcapped := h.capped
  rw [hselected] at hcapped
  exact absurd hcapped (by decide)

end Bound

end Shapoclyack.L2Selection
