import Mathlib.Data.List.Dedup
import Mathlib.Data.List.Pairwise
import Mathlib.Data.List.Sort
import Shapoclyack.Library.Fallible
import Shapoclyack.ScanScopes

set_option autoImplicit false

namespace Shapoclyack.ScannableTargets

open Library ScanScopes
open ResumedBatches (Line strip isSpace)

section Code

def carvePiece (deny piece : Network) : Option (List Network) :=
  if ¬ piece.Overlaps deny then some [piece]
  else if ¬ piece.SubnetOf deny then piece.addressExclude deny
  else some []

def carve (version : Version) (pieces : List Network) (deny : Network) : Option (List Network) :=
  if deny.version ≠ version then some pieces
  else (pieces.mapM (carvePiece deny)).map List.flatten

/-- `_without_denied`: what is left of a range when every denied one is carved out of it, none
where `address_exclude` raises. -/
def withoutDenied (network : Network) (denied : List Network) : Option (List Network) :=
  denied.foldlM (carve network.version) [network]

inductive SkipReason where
  | wildcard
  | invalid
  | denied
deriving DecidableEq, Repr

structure Skipped where
  kind : Kind
  value : Line
  reason : SkipReason
deriving DecidableEq

/-- What the loop over the rows has gathered. -/
structure Gathered where
  networks : List Network
  domains : List Line
  skipped : List Skipped
deriving DecidableEq

def Gathered.skip (g : Gathered) (row : Row) (reason : SkipReason) : Gathered :=
  { g with skipped := g.skipped ++ [⟨row.kind, row.value, reason⟩] }

def gatherNetwork (scope : ScanScope) (g : Gathered) (row : Row) : Option Gathered :=
  if row.value = wildcard then some (g.skip row .wildcard)
  else match network row.value with
    | none => some (g.skip row .invalid)
    | some n =>
      if n.prefixlen = 0 then some (g.skip row .wildcard)
      else (withoutDenied n scope.denyNetworks).map fun pieces =>
        if pieces = [] then g.skip row .denied
        else { g with networks := g.networks ++ pieces }

def gatherDomain (lower : Line → Line) (scope : ScanScope) (g : Gathered) (row : Row) : Gathered :=
  let name := normalizeDomain lower row.value
  if name = wildcard then g.skip row .wildcard
  else if (scope.rejectsDomain lower name).isSome then g.skip row .denied
  else if name ∈ g.domains then g
  else { g with domains := g.domains ++ [name] }

def gatherRow (lower : Line → Line) (scope : ScanScope) (g : Gathered) (row : Row) :
    Option Gathered :=
  if row.effect ≠ .allow then some g
  else match row.kind with
    | .cidr => gatherNetwork scope g row
    | .domain => some (gatherDomain lower scope g row)

def gathered (lower : Line → Line) (scope : ScanScope) (rows : List Row) : Option Gathered :=
  rows.foldlM (gatherRow lower scope) ⟨[], [], []⟩

def NetworkLe (n m : Network) : Prop :=
  n.version.number < m.version.number ∨ n.version.number = m.version.number ∧
    (n.networkAddress < m.networkAddress ∨
      n.networkAddress = m.networkAddress ∧ n.prefixlen ≤ m.prefixlen)

instance (n m : Network) : Decidable (NetworkLe n m) := inferInstanceAs (Decidable (_ ∨ _))

def distinct (networks : List Network) : List Network := networks.dedup.insertionSort NetworkLe

def kept (networks : List Network) : List Network :=
  networks.filter fun n => !networks.any fun other =>
    other ≠ n ∧ other.version = n.version ∧ n.SubnetOf other

inductive Surface where
  | external
  | internal
deriving DecidableEq, Repr

def privateNetworks : List Network :=
  ["10.0.0.0/8", "172.16.0.0/12", "192.168.0.0/16", "127.0.0.0/8", "169.254.0.0/16",
    "100.64.0.0/10", "fc00::/7", "fe80::/10", "::1/128"].filterMap fun cidr =>
      ipNetwork cidr.toList

def networkSurface (n : Network) : Surface :=
  if privateNetworks.any fun held => n.version = held.version ∧ n.SubnetOf held then .internal
  else .external

structure Target where
  kind : Kind
  value : Line
  surface : Surface
deriving DecidableEq

structure Scannable where
  approved : Bool
  targets : List Target
  skipped : List Skipped
deriving DecidableEq

def scannable (scope : ScanScope) (found : Gathered) : Scannable :=
  { approved := scope.approved
    targets :=
      ((kept (distinct found.networks)).map fun n => ⟨.cidr, n.print, networkSurface n⟩) ++
        found.domains.map fun name => ⟨.domain, name, .external⟩
    skipped := found.skipped }

/-- `scannable_targets`, none where it raises. -/
def scannableTargets (lower : Line → Line) (tenantId : String) (rows : List Row) :
    Option Scannable :=
  let scope := scopeFromRows lower tenantId rows
  (gathered lower scope rows).map (scannable scope)

end Code

section Purpose

def checkTarget (lower : Line → Line) (scope : ScanScope) (target : Target) :
    Except ScanScopeDenied Unit :=
  match target.kind with
  | .cidr => scope.check lower [target.value] []
  | .domain => scope.check lower [] [target.value]

def Scannable.networks (result : Scannable) : List Network :=
  result.targets.filterMap fun target =>
    if target.kind = .cidr then network target.value else none

/-- A range that an entry of the scope allows, as one that is read and is not the wildcard. -/
def Allows (rows : List Row) (n : Network) : Prop :=
  ∃ row ∈ rows, row.effect = .allow ∧ row.kind = .cidr ∧ row.value ≠ wildcard ∧
    network row.value = some n

def Undenied (scope : ScanScope) (a : Address) : Prop := ∀ d ∈ scope.denyNetworks, ¬ d.Holds a

/-- Each address of a range that a condition selects is in one of the networks and no other. -/
def CoversOnce (selected : Network → Prop) (rows : List Row) (scope : ScanScope)
    (networks : List Network) : Prop :=
  ∀ n a, Allows rows n → selected n → n.Holds a → Undenied scope a →
    ∃! m, m ∈ networks ∧ m.Holds a

def Disjoint (networks : List Network) : Prop :=
  networks.Pairwise fun n m => ¬ ∃ a, n.Holds a ∧ m.Holds a

def Sound (lower : Line → Line) (scope : ScanScope) (targets : List Target) : Prop :=
  ∀ target ∈ targets, checkTarget lower scope target = .ok ()

/-- It returns, and what it returns is sound, complete for the ranges that are selected, and free
of overlaps. -/
def Exact (lower : Line → Line) (tenantId : String) (selected : Network → Prop)
    (rows : List Row) : Prop :=
  ∃ result, scannableTargets lower tenantId rows = some result ∧
    Sound lower (scopeFromRows lower tenantId rows) result.targets ∧
    CoversOnce selected rows (scopeFromRows lower tenantId rows) result.networks ∧
    Disjoint result.networks

def Fills (rows : List Row) (n : Network) : Prop := Allows rows n ∧ n.prefixlen ≠ 0

def Meets (n m : Network) : Prop := n.version = m.version ∧ n.Overlaps m

instance (n m : Network) : Decidable (Meets n m) := inferInstanceAs (Decidable (_ ∧ _))

def Carvable (n d : Network) : Prop :=
  Meets n d → n.SubnetOf d ∨ n.scopeId = none ∧ d.scopeId = none

instance (n d : Network) : Decidable (Carvable n d) := inferInstanceAs (Decidable (_ → _))

/-- Allowed ranges that meet are of one zone, and a denied one cuts into them in no zone. -/
structure ZonesAgree (rows : List Row) (scope : ScanScope) : Prop where
  allowed : ∀ n m, Fills rows n → Fills rows m → Meets n m → n.scopeId = m.scopeId
  denied : ∀ n, Fills rows n → ∀ d ∈ scope.denyNetworks, Carvable n d

end Purpose

section Carving

variable {n d : Network} {a : Address} {denied : List Network}

/-- The pieces of a network: parts of it, in its zone, that hold no address of a denied range. -/
structure Carved (n : Network) (denied pieces : List Network) : Prop where
  part : ∀ piece ∈ pieces,
    piece.version = n.version ∧ piece.block ≤ n.block ∧ piece.scopeId = n.scopeId
  holds : ∀ a, (∃ piece ∈ pieces, piece.Holds a) ↔ n.Holds a ∧ ∀ d ∈ denied, ¬ d.Holds a

theorem Carvable.of_part {piece : Network} (h : Carvable n d) (hversion : piece.version = n.version)
    (hle : piece.block ≤ n.block) (hscope : piece.scopeId = n.scopeId) : Carvable piece d := by
  rintro ⟨hd, hoverlap⟩
  have hmeets : Meets n d := ⟨hversion.symm.trans hd, Block.overlaps_of_le hle hoverlap⟩
  rcases h hmeets with hsubnet | ⟨hn, hd⟩
  · exact .inl (hsubnet.part hle hscope)
  · exact .inr ⟨hscope.trans hn, hd⟩

theorem carvePiece_carved {piece deny : Network} (h : Carvable piece deny)
    (hversion : deny.version = piece.version) :
    ∃ parts, carvePiece deny piece = some parts ∧ Carved piece [deny] parts := by
  unfold carvePiece
  by_cases hoverlap : piece.Overlaps deny
  · rw [if_neg (not_not.mpr hoverlap)]
    by_cases hsubnet : piece.SubnetOf deny
    · rw [if_neg (not_not.mpr hsubnet)]
      refine ⟨[], rfl, by simp, fun a => ?_⟩
      have hin : piece.Holds a → deny.Holds a := Network.holds_of_le hversion.symm hsubnet.1
      simpa using hin
    · rw [if_pos hsubnet]
      rcases (h ⟨hversion.symm, hoverlap⟩).resolve_left hsubnet with ⟨hpiece, hdeny⟩
      have hscope : deny.scopeId = piece.scopeId := hdeny.trans hpiece.symm
      have hnot : ¬ piece.block ≤ deny.block := fun hle =>
        hsubnet ((Network.subnetOf_of_scopeId hscope.symm).mpr hle)
      have hinside : deny.SubnetOf piece :=
        (Network.subnetOf_of_scopeId hscope).mpr (hoverlap.resolve_left hnot)
      rcases Option.isSome_iff_exists.mp
        (Network.addressExclude_isSome.mpr ⟨hinside, .inr hdeny⟩) with ⟨parts, hparts⟩
      refine ⟨parts, hparts, ?_, fun a => ?_⟩
      · intro part hpart
        rcases (Network.mem_addressExclude hparts).mp hpart with ⟨hblock, hv, hnone⟩
        exact ⟨hv, Block.le_of_mem_exclude hinside.1 hblock, hnone.trans hpiece.symm⟩
      · rw [Network.holds_addressExclude hparts hversion]
        simp
  · rw [if_pos hoverlap]
    refine ⟨[piece], rfl, by simp, fun a => ?_⟩
    have hout : piece.Holds a → ¬ deny.Holds a := fun hp hd =>
      hoverlap ((Network.overlaps_iff hversion.symm).mpr ⟨a, hp, hd⟩)
    simpa using hout

theorem Carved.flatten {pieces : List Network} {deny : Network} {parts : List (List Network)}
    (h : Carved n denied pieces) (hpieces : ∀ piece ∈ pieces, ∃ rest ∈ parts,
      Carved piece [deny] rest)
    (hparts : ∀ rest ∈ parts, ∃ piece ∈ pieces, Carved piece [deny] rest) :
    Carved n (denied ++ [deny]) parts.flatten := by
  refine ⟨?_, fun a => ?_⟩
  · intro part hpart
    rcases List.mem_flatten.mp hpart with ⟨rest, hrest, hmem⟩
    rcases hparts rest hrest with ⟨piece, hpiece, hcarved⟩
    rcases hcarved.part part hmem with ⟨hv, hle, hscope⟩
    rcases h.part piece hpiece with ⟨hpv, hple, hpscope⟩
    exact ⟨hv.trans hpv, hle.trans hple, hscope.trans hpscope⟩
  · have hholds : (∃ part ∈ parts.flatten, part.Holds a) ↔
        (∃ piece ∈ pieces, piece.Holds a) ∧ ¬ deny.Holds a := by
      constructor
      · rintro ⟨part, hpart, ha⟩
        rcases List.mem_flatten.mp hpart with ⟨rest, hrest, hmem⟩
        rcases hparts rest hrest with ⟨piece, hpiece, hcarved⟩
        rcases (hcarved.holds a).mp ⟨part, hmem, ha⟩ with ⟨hin, hout⟩
        exact ⟨⟨piece, hpiece, hin⟩, hout deny (List.mem_singleton_self _)⟩
      · rintro ⟨⟨piece, hpiece, ha⟩, hout⟩
        rcases hpieces piece hpiece with ⟨rest, hrest, hcarved⟩
        rcases (hcarved.holds a).mpr ⟨ha, by simpa using hout⟩ with ⟨part, hmem, hpart⟩
        exact ⟨part, List.mem_flatten.mpr ⟨rest, hrest, hmem⟩, hpart⟩
    rw [hholds, h.holds a, List.forall_mem_append, List.forall_mem_singleton, and_assoc]

/-- Carving one more range out of the pieces. -/
theorem Carved.step {pieces : List Network} (h : Carved n denied pieces) {deny : Network}
    (hcarvable : Carvable n deny) :
    ∃ next, carve n.version pieces deny = some next ∧ Carved n (denied ++ [deny]) next := by
  unfold carve
  by_cases hversion : deny.version = n.version
  · rw [if_neg (not_not.mpr hversion)]
    have hcarved : ∀ piece ∈ pieces,
        ∃ parts, carvePiece deny piece = some parts ∧ Carved piece [deny] parts := by
      intro piece hpiece
      rcases h.part piece hpiece with ⟨hv, hle, hscope⟩
      exact carvePiece_carved (hcarvable.of_part hv hle hscope) (hversion.trans hv.symm)
    rcases exists_mapM hcarved with ⟨parts, hparts, hpieces, hfrom⟩
    exact ⟨parts.flatten, by rw [hparts]; rfl, h.flatten hpieces hfrom⟩
  · rw [if_pos hversion]
    refine ⟨pieces, rfl, h.part, fun a => ?_⟩
    rw [h.holds a, List.forall_mem_append, List.forall_mem_singleton]
    have hother : n.Holds a → ¬ deny.Holds a := fun hn hd => hversion (hd.1.trans hn.1.symm)
    tauto

theorem withoutDenied_carved (h : ∀ d ∈ denied, Carvable n d) :
    ∃ pieces, withoutDenied n denied = some pieces ∧ Carved n denied pieces :=
  foldlM_of_steps (fun _ deny _ hdeny hcarved => hcarved.step (h deny hdeny)) ⟨by simp, by simp⟩

end Carving

section Gathering

variable {lower : Line → Line} {scope : ScanScope}

/-- What the rows read so far have added. -/
structure GatheredFrom (lower : Line → Line) (scope : ScanScope) (rows : List Row)
    (g : Gathered) : Prop where
  networks : ∀ piece, piece ∈ g.networks ↔
    ∃ n, Fills rows n ∧ ∃ pieces ∈ withoutDenied n scope.denyNetworks, piece ∈ pieces
  domains : ∀ name ∈ g.domains, scope.rejectsDomain lower name = none

theorem fills_append {rows : List Row} {row : Row} {n : Network} :
    Fills (rows ++ [row]) n ↔ Fills rows n ∨ Fills [row] n := by
  unfold Fills Allows
  simp only [List.mem_append, or_and_right, exists_or]

theorem fills_singleton {row : Row} {n : Network} :
    Fills [row] n ↔ (row.effect = .allow ∧ row.kind = .cidr ∧ row.value ≠ wildcard ∧
      network row.value = some n) ∧ n.prefixlen ≠ 0 := by
  simp [Fills, Allows]

theorem GatheredFrom.keep {rows : List Row} {g : Gathered} (h : GatheredFrom lower scope rows g)
    {row : Row} (hnone : ∀ n, Fills [row] n → withoutDenied n scope.denyNetworks = some [])
    {next : Gathered} (hnetworks : next.networks = g.networks)
    (hdomains : ∀ name ∈ next.domains, scope.rejectsDomain lower name = none) :
    GatheredFrom lower scope (rows ++ [row]) next := by
  refine ⟨fun piece => ?_, hdomains⟩
  rw [hnetworks, h.networks]
  constructor
  · rintro ⟨n, hn, hrest⟩
    exact ⟨n, fills_append.mpr (.inl hn), hrest⟩
  · rintro ⟨n, hn, pieces, hpieces, hpiece⟩
    rcases fills_append.mp hn with hn | hn
    · exact ⟨n, hn, pieces, hpieces, hpiece⟩
    · rw [hnone n hn] at hpieces
      obtain rfl := Option.some.inj hpieces
      cases hpiece

theorem GatheredFrom.network {rows : List Row} {g : Gathered}
    (h : GatheredFrom lower scope rows g) {row : Row} (heffect : row.effect = .allow)
    (hkind : row.kind = .cidr)
    (hreturns : ∀ n, Fills [row] n → ∃ pieces, withoutDenied n scope.denyNetworks = some pieces) :
    ∃ next, gatherNetwork scope g row = some next ∧
      GatheredFrom lower scope (rows ++ [row]) next := by
  unfold gatherNetwork
  split
  · rename_i hwild
    exact ⟨_, rfl, h.keep (fun n hn => absurd hwild (fills_singleton.mp hn).1.2.2.1) rfl h.domains⟩
  · rename_i hwild
    cases hread : ScanScopes.network row.value with
    | none =>
      refine ⟨_, rfl, h.keep (fun n hn => ?_) rfl h.domains⟩
      rw [(fills_singleton.mp hn).1.2.2.2] at hread
      cases hread
    | some read =>
      have honly : ∀ n, Fills [row] n → n = read := fun n hn =>
        Option.some.inj ((fills_singleton.mp hn).1.2.2.2.symm.trans hread)
      simp only
      split
      · rename_i hlen
        refine ⟨_, rfl, h.keep (fun n hn => ?_) rfl h.domains⟩
        exact absurd (honly n hn ▸ hlen) hn.2
      · rename_i hlen
        have hfills : Fills [row] read :=
          fills_singleton.mpr ⟨⟨heffect, hkind, hwild, hread⟩, hlen⟩
        rcases hreturns read hfills with ⟨pieces, hpieces⟩
        rw [hpieces, Option.map_some]
        refine ⟨_, rfl, ?_⟩
        split
        · rename_i hempty
          exact h.keep (fun n hn => honly n hn ▸ hempty ▸ hpieces) rfl h.domains
        · refine ⟨fun piece => ?_, h.domains⟩
          rw [List.mem_append, h.networks]
          constructor
          · rintro (⟨n, hn, hrest⟩ | hpiece)
            · exact ⟨n, fills_append.mpr (.inl hn), hrest⟩
            · exact ⟨read, fills_append.mpr (.inr hfills), pieces, hpieces, hpiece⟩
          · rintro ⟨n, hn, others, hothers, hpiece⟩
            rcases fills_append.mp hn with hn | hn
            · exact .inl ⟨n, hn, others, hothers, hpiece⟩
            · rw [honly n hn, hpieces] at hothers
              exact .inr (Option.some.inj hothers ▸ hpiece)

theorem GatheredFrom.domain {rows : List Row} {g : Gathered}
    (h : GatheredFrom lower scope rows g) {row : Row} (hkind : row.kind = .domain) :
    GatheredFrom lower scope (rows ++ [row]) (gatherDomain lower scope g row) := by
  have hnone : ∀ n, Fills [row] n → withoutDenied n scope.denyNetworks = some [] := by
    intro n hn
    have hcidr := (fills_singleton.mp hn).1.2.1
    rw [hkind] at hcidr
    cases hcidr
  unfold gatherDomain
  simp only
  split
  · exact h.keep hnone rfl h.domains
  · split
    · exact h.keep hnone rfl h.domains
    · rename_i hrejects
      split
      · exact h.keep hnone rfl h.domains
      · refine h.keep hnone rfl ?_
        rw [List.forall_mem_append, List.forall_mem_singleton]
        exact ⟨h.domains, by simpa using hrejects⟩

theorem GatheredFrom.row {rows : List Row} {g : Gathered} (h : GatheredFrom lower scope rows g)
    {row : Row}
    (hreturns : ∀ n, Fills [row] n → ∃ pieces, withoutDenied n scope.denyNetworks = some pieces) :
    ∃ next, gatherRow lower scope g row = some next ∧
      GatheredFrom lower scope (rows ++ [row]) next := by
  unfold gatherRow
  by_cases heffect : row.effect = .allow
  · rw [if_neg (not_not.mpr heffect)]
    cases hkind : row.kind with
    | cidr => exact h.network heffect hkind hreturns
    | domain => exact ⟨_, rfl, h.domain hkind⟩
  · rw [if_pos heffect]
    exact ⟨g, rfl, h.keep (fun n hn => absurd (fills_singleton.mp hn).1.1 heffect) rfl h.domains⟩

theorem gathered_from {rows : List Row}
    (hreturns : ∀ n, Fills rows n → ∃ pieces, withoutDenied n scope.denyNetworks = some pieces) :
    ∃ g, gathered lower scope rows = some g ∧ GatheredFrom lower scope rows g := by
  refine foldlM_of_steps (fun _ row _ hrow h => h.row fun n hn => hreturns n ?_)
    ⟨by simp [Fills, Allows], by simp⟩
  rcases fills_singleton.mp hn with ⟨hallows, hlen⟩
  exact ⟨⟨row, hrow, hallows⟩, hlen⟩

end Gathering

section Keeping

variable {networks : List Network} {n m : Network} {a : Address}

theorem mem_distinct : n ∈ distinct networks ↔ n ∈ networks := by
  unfold distinct
  rw [List.mem_insertionSort, List.mem_dedup]

theorem nodup_distinct (networks : List Network) : (distinct networks).Nodup :=
  (List.perm_insertionSort NetworkLe networks.dedup).nodup_iff.mpr networks.nodup_dedup

theorem mem_kept : n ∈ kept networks ↔ n ∈ networks ∧
    ∀ other ∈ networks, other ≠ n → other.version = n.version → ¬ n.SubnetOf other := by
  unfold kept
  rw [List.mem_filter]
  simp

def OneZone (networks : List Network) : Prop :=
  ∀ n ∈ networks, ∀ m ∈ networks, Meets n m → n.scopeId = m.scopeId

theorem kept_disjoint (hzone : OneZone networks) (hnodup : networks.Nodup) :
    Disjoint (kept networks) := by
  refine List.Pairwise.imp_of_mem ?_ (List.nodup_iff_pairwise_ne.mp (hnodup.filter _))
  intro p q hp hq hne
  rintro ⟨a, ha, hb⟩
  have hversion : p.version = q.version := ha.1.trans hb.1.symm
  have hscope : p.scopeId = q.scopeId := hzone p (mem_kept.mp hp).1 q (mem_kept.mp hq).1
    ⟨hversion, Block.overlaps_of_mem ha.2 hb.2⟩
  rcases Block.le_or_le ha.2 hb.2 with h | h
  · exact (mem_kept.mp hp).2 q (mem_kept.mp hq).1 hne.symm hversion.symm
      ((Network.subnetOf_of_scopeId hscope).mpr h)
  · exact (mem_kept.mp hq).2 p (mem_kept.mp hp).1 hne hversion
      ((Network.subnetOf_of_scopeId hscope.symm).mpr h)

theorem eq_of_disjoint (h : Disjoint networks) (hn : n ∈ networks) (hm : m ∈ networks)
    (hna : n.Holds a) (hma : m.Holds a) : n = m := by
  have hsymm : Std.Symm fun n m : Network => ¬ ∃ a, n.Holds a ∧ m.Holds a :=
    ⟨fun _ _ hnone hshared => hnone (hshared.imp fun _ => And.symm)⟩
  by_contra hne
  exact h.forall hn hm hne ⟨a, hna, hma⟩

theorem eq_of_block (hversion : n.version = m.version) (hblock : n.block = m.block)
    (hscope : n.scopeId = m.scopeId) : n = m := by
  rcases n with ⟨version, block, scopeId, within, zoned⟩
  rcases m with ⟨version', block', scopeId', within', zoned'⟩
  obtain rfl : version = version' := hversion
  obtain rfl : block = block' := hblock
  obtain rfl : scopeId = scopeId' := hscope
  rfl

theorem exists_kept (hzone : OneZone networks) (hn : n ∈ networks) :
    ∃ m ∈ kept networks, m.version = n.version ∧ n.block ≤ m.block := by
  have hlen := n.prefixlen_le
  generalize hbound : n.prefixlen = length at hlen
  induction length using Nat.strongRecOn generalizing n with
  | ind length ih =>
    by_cases hkept : n ∈ kept networks
    · exact ⟨n, hkept, rfl, le_refl n.block⟩
    · have hwider : ∃ other ∈ networks, other ≠ n ∧ other.version = n.version ∧
          n.SubnetOf other := by
        by_contra hnone
        push Not at hnone
        exact hkept (mem_kept.mpr ⟨hn, hnone⟩)
      rcases hwider with ⟨other, hmem, hne, hversion, hsubnet⟩
      have hheight : n.block.height < other.block.height := by
        refine lt_of_le_of_ne hsubnet.1.1 fun heq => hne ?_
        exact eq_of_block hversion (Block.eq_of_le hsubnet.1 heq).symm
          (hzone other hmem n hn ⟨hversion, .inr hsubnet.1⟩)
      have hshorter : other.prefixlen < length := by
        have hbits := other.height_le
        unfold Network.prefixlen at hbound ⊢
        rw [hversion] at hbits ⊢
        omega
      rcases ih other.prefixlen hshorter hmem rfl other.prefixlen_le with
        ⟨m, hm, hmv, hle⟩
      exact ⟨m, hm, hmv.trans hversion, hsubnet.1.trans hle⟩

end Keeping

section Results

variable {lower : Line → Line} {tenantId : String} {rows : List Row} {scope : ScanScope}
  {found : Gathered}

theorem networks_scannable (scope : ScanScope) (found : Gathered) :
    (scannable scope found).networks = kept (distinct found.networks) := by
  unfold scannable Scannable.networks
  rw [List.filterMap_append, List.filterMap_map, List.filterMap_map]
  have hdomains : ∀ names : List Line, names.filterMap
      ((fun target : Target => if target.kind = .cidr then network target.value else none) ∘
        fun name => ⟨.domain, name, .external⟩) = [] := by
    intro names
    rw [List.filterMap_eq_nil_iff]
    intro name _
    rfl
  rw [hdomains, List.append_nil]
  have hread : ((fun target : Target => if target.kind = .cidr then network target.value
      else none) ∘ fun n : Network => ⟨.cidr, n.print, networkSurface n⟩) = some := by
    funext n
    exact network_print n
  rw [hread, List.filterMap_some]

theorem mem_allowNetworks {n : Network} (h : Allows rows n) :
    n ∈ (scopeFromRows lower tenantId rows).allowNetworks := by
  rcases h with ⟨row, hrow, heffect, hkind, hwild, hread⟩
  rw [scopeFromRows_eq]
  refine mem_rowNetworks.mpr ⟨row, hrow, hkind, heffect, ?_⟩
  unfold entryNetworks
  rw [if_neg hwild, hread]
  exact Option.mem_toList.mpr rfl

theorem approved_of_mem {row : Row} (h : row ∈ rows) :
    (scopeFromRows lower tenantId rows).approved = true := by
  cases rows with
  | nil => cases h
  | cons first rest => rfl

theorem approved_of_domain {name : Line}
    (h : name ∈ found.domains)
    (hfound : gathered lower (scopeFromRows lower tenantId rows) rows = some found) :
    (scopeFromRows lower tenantId rows).approved = true := by
  cases rows with
  | nil =>
    obtain rfl := Option.some.inj hfound
    cases h
  | cons first rest => rfl

theorem piece_of_gathered (hzones : ZonesAgree rows scope)
    (hfrom : GatheredFrom lower scope rows found) {piece : Network}
    (h : piece ∈ found.networks) :
    ∃ n pieces, Fills rows n ∧ withoutDenied n scope.denyNetworks = some pieces ∧
      Carved n scope.denyNetworks pieces ∧ piece ∈ pieces := by
  rcases (hfrom.networks piece).mp h with ⟨n, hn, pieces, hpieces, hpiece⟩
  rcases withoutDenied_carved (hzones.denied n hn) with ⟨others, hothers, hcarved⟩
  obtain rfl := Option.some.inj (hothers.symm.trans hpieces)
  exact ⟨n, others, hn, hpieces, hcarved, hpiece⟩

theorem oneZone_gathered (hzones : ZonesAgree rows scope)
    (hfrom : GatheredFrom lower scope rows found) : OneZone (distinct found.networks) := by
  rintro p hp q hq ⟨hversion, hoverlap⟩
  rcases piece_of_gathered hzones hfrom (mem_distinct.mp hp) with ⟨n, _, hn, -, hpn, hmemp⟩
  rcases piece_of_gathered hzones hfrom (mem_distinct.mp hq) with ⟨m, _, hm, -, hqm, hmemq⟩
  rcases hpn.part p hmemp with ⟨hpv, hple, hps⟩
  rcases hqm.part q hmemq with ⟨hqv, hqle, hqs⟩
  have hwide : n.block.Overlaps m.block :=
    Block.overlaps_comm.mp (Block.overlaps_of_le hqle
      (Block.overlaps_comm.mp (Block.overlaps_of_le hple hoverlap)))
  have hscope := hzones.allowed n m hn hm ⟨hpv.symm.trans (hversion.trans hqv), hwide⟩
  exact hps.trans (hscope.trans hqs.symm)

theorem sound_scannable (hzones : ZonesAgree rows (scopeFromRows lower tenantId rows))
    (hfound : gathered lower (scopeFromRows lower tenantId rows) rows = some found)
    (hfrom : GatheredFrom lower (scopeFromRows lower tenantId rows) rows found) :
    Sound lower (scopeFromRows lower tenantId rows)
      (scannable (scopeFromRows lower tenantId rows) found).targets := by
  intro target htarget
  unfold checkTarget
  rcases List.mem_append.mp htarget with hmem | hmem
  · rcases List.mem_map.mp hmem with ⟨piece, hpiece, rfl⟩
    rcases piece_of_gathered hzones hfrom (mem_distinct.mp (mem_kept.mp hpiece).1) with
      ⟨n, pieces, ⟨hn, -⟩, -, hcarved, hmempiece⟩
    rcases hcarved.part piece hmempiece with ⟨hversion, hle, hscope⟩
    have hdenied : ∀ d ∈ (scopeFromRows lower tenantId rows).denyNetworks,
        d.version = piece.version → ¬ piece.Overlaps d := by
      intro d hd hdv hoverlap
      rcases (Network.overlaps_iff hdv.symm).mp hoverlap with ⟨a, ha, hda⟩
      exact ((hcarved.holds a).mp ⟨piece, hmempiece, ha⟩).2 d hd hda
    refine check_ok_iff.mpr ⟨approved_of_mem hn.choose_spec.1, ?_, by simp⟩
    rw [List.forall_mem_singleton]
    exact (rejectsNetwork_eq_none (network_print piece)).mpr ⟨hdenied, n, mem_allowNetworks hn,
      hversion.symm, (Network.subnetOf_of_scopeId hscope).mpr hle⟩
  · rcases List.mem_map.mp hmem with ⟨name, hname, rfl⟩
    exact check_ok_iff.mpr ⟨approved_of_domain hname hfound, by simp,
      List.forall_mem_singleton.mpr (hfrom.domains name hname)⟩

theorem complete_scannable (hzones : ZonesAgree rows scope)
    (hfrom : GatheredFrom lower scope rows found) :
    CoversOnce (fun n => n.prefixlen ≠ 0) rows scope (scannable scope found).networks := by
  intro n a hn hlen ha hundenied
  have hzone := oneZone_gathered hzones hfrom
  rcases withoutDenied_carved (hzones.denied n ⟨hn, hlen⟩) with ⟨pieces, hpieces, hcarved⟩
  rcases (hcarved.holds a).mpr ⟨ha, hundenied⟩ with ⟨piece, hpiece, hpa⟩
  have hgathered : piece ∈ distinct found.networks :=
    mem_distinct.mpr ((hfrom.networks piece).mpr ⟨n, ⟨hn, hlen⟩, pieces, hpieces, hpiece⟩)
  rcases exists_kept hzone hgathered with ⟨m, hm, hversion, hle⟩
  have hma : m.Holds a := Network.holds_of_le hversion.symm hle hpa
  rw [networks_scannable]
  refine ⟨m, ⟨hm, hma⟩, ?_⟩
  rintro other ⟨hother, hoa⟩
  exact eq_of_disjoint (kept_disjoint hzone (nodup_distinct _)) hother hm hoa hma

/-- Where zones agree, what a scope yields is accepted by it, free of overlaps, and covers every
allowed range but a whole family. -/
theorem scannableTargets_exact (lower : Line → Line) (tenantId : String) (rows : List Row)
    (hzones : ZonesAgree rows (scopeFromRows lower tenantId rows)) :
    Exact lower tenantId (fun n => n.prefixlen ≠ 0) rows := by
  have hreturns : ∀ n, Fills rows n →
      ∃ pieces, withoutDenied n (scopeFromRows lower tenantId rows).denyNetworks = some pieces :=
    fun n hn => (withoutDenied_carved (hzones.denied n hn)).imp fun _ h => h.1
  rcases @gathered_from lower _ _ hreturns with ⟨found, hfound, hfrom⟩
  refine ⟨scannable _ found, ?_, sound_scannable hzones hfound hfrom,
    complete_scannable hzones hfrom, ?_⟩
  · unfold scannableTargets
    simp only [hfound, Option.map_some]
  · rw [networks_scannable]
    exact kept_disjoint (oneZone_gathered hzones hfrom) (nodup_distinct _)

def allowRow (value : String) : Row := ⟨.allow, .cidr, value.toList, []⟩

def denyRow (value : String) : Row := ⟨.deny, .cidr, value.toList, []⟩

def nestedRows : List Row :=
  [allowRow "10.0.0.0/8", allowRow "10.1.0.0/16", denyRow "10.1.2.0/24",
    allowRow "fe80:0:0:1::%eth0/64"]

theorem mem_of_fills {n : Network} (h : Fills rows n) :
    n ∈ rows.filterMap fun row => network row.value := by
  rcases h with ⟨⟨row, hrow, -, -, -, hread⟩, -⟩
  exact List.mem_filterMap.mpr ⟨row, hrow, hread⟩

theorem nestedRows_exact :
    Exact (List.map Char.toLower) "t1" (fun n => n.prefixlen ≠ 0) nestedRows := by
  refine scannableTargets_exact (List.map Char.toLower) "t1" nestedRows ⟨?_, ?_⟩
  · intro n m hn hm
    have hall : ∀ n ∈ nestedRows.filterMap fun row => network row.value,
        ∀ m ∈ nestedRows.filterMap fun row => network row.value,
          Meets n m → n.scopeId = m.scopeId := by
      decide +kernel
    exact hall n (mem_of_fills hn) m (mem_of_fills hm)
  · intro n hn
    have hall : ∀ n ∈ nestedRows.filterMap fun row => network row.value,
        ∀ d ∈ (scopeFromRows (List.map Char.toLower) "t1" nestedRows).denyNetworks,
          Carvable n d := by
      decide +kernel
    exact hall n (mem_of_fills hn)

theorem not_exact {n : Network} {a : Address} (hn : Allows rows n) (ha : n.Holds a)
    (hundenied : Undenied (scopeFromRows lower tenantId rows) a) {result : Scannable}
    (hresult : scannableTargets lower tenantId rows = some result)
    (hnone : result.networks = []) :
    ¬ Exact lower tenantId (fun _ => True) rows := by
  rintro ⟨_, hreturned, -, hcomplete, -⟩
  obtain rfl := Option.some.inj (hresult.symm.trans hreturned)
  rcases hcomplete n a hn trivial ha hundenied with ⟨m, ⟨hm, -⟩, -⟩
  rw [hnone] at hm
  cases hm

/-- A whole family written out is no target, and a denied range in a zone raises. -/
theorem scannableTargets_drops :
    ¬ Exact (List.map Char.toLower) "t1" (fun _ => True) [allowRow "0.0.0.0/0"] ∧
      ¬ Exact (List.map Char.toLower) "t1" (fun _ => True)
        [allowRow "fe80::/64", denyRow "fe80::%eth0/80"] := by
  constructor
  · have hread : ∃ n, network "0.0.0.0/0".toList = some n ∧ n.Holds ⟨.v4, 0⟩ := by
      decide +kernel
    rcases hread with ⟨n, hn, ha⟩
    have hallows : Allows [allowRow "0.0.0.0/0"] n :=
      ⟨_, List.mem_singleton_self _, rfl, rfl, by decide, hn⟩
    have hresult : ∃ result, scannableTargets (List.map Char.toLower) "t1"
        [allowRow "0.0.0.0/0"] = some result ∧ result.networks = [] := by
      decide +kernel
    rcases hresult with ⟨result, hresult, hnone⟩
    exact not_exact hallows ha (by unfold Undenied; decide +kernel) hresult hnone
  · rintro ⟨result, hresult, -⟩
    have hraises : scannableTargets (List.map Char.toLower) "t1"
        [allowRow "fe80::/64", denyRow "fe80::%eth0/80"] = none := by
      decide +kernel
    rw [hraises] at hresult
    cases hresult

end Results

end Shapoclyack.ScannableTargets
