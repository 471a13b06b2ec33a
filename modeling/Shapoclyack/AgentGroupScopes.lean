import Mathlib.Data.Finset.Basic
import Mathlib.Data.Finset.Insert
import Shapoclyack.ScanScopes

set_option autoImplicit false

namespace Shapoclyack.AgentGroupScopes

open Library ScanScopes
open ResumedBatches (Line)

section Code

/-- `_entry_scope`: one entry on its own, none where its value cannot be read. -/
def entryScope (lower : Line → Line) (row : Row) : Option ScanScope :=
  match row.kind with
  | .cidr =>
    if row.value = wildcard then some { emptyScope "" with
      allowNetworks := everyAddress, approved := true }
    else (network row.value).map fun n => { emptyScope "" with
      allowNetworks := [n], approved := true }
  | .domain => some { emptyScope "" with
      allowDomains := [normalizeDomain lower row.value], approved := true }

/-- `_covers`. -/
def scopeCovers (lower : Line → Line) (scope : ScanScope) (target : Line) : Kind → Bool
  | .cidr => (scope.rejectsNetwork target).isNone
  | .domain => (scope.rejectsDomain lower target).isNone

/-- `_specificity`: a prefix length, or how many labels a name has. -/
def specificity (lower : Line → Line) (row : Row) : ℕ :=
  if row.value = wildcard then 0
  else match row.kind with
    | .cidr => ((network row.value).map Network.prefixlen).getD 0
    | .domain =>
      ((((normalizeDomain lower row.value).dropWhile (· == '.')).rdropWhile
        (· == '.')).splitOn '.').length

/-- What the loop over the entries holds of one target. -/
structure Best where
  rank : ℤ
  covering : Finset String
  unrestricted : Bool
deriving DecidableEq

def Best.start : Best := ⟨-1, ∅, false⟩

def Best.at (best : Best) (rank : ℤ) : Best := if best.rank < rank then ⟨rank, ∅, false⟩ else best

def Best.take (best : Best) (groups : List String) : Best :=
  if groups ≠ [] then { best with covering := best.covering ∪ groups.toFinset }
  else { best with unrestricted := true }

def covers (lower : Line → Line) (target : Line) (kind : Kind) (row : Row) : Bool :=
  decide (row.kind = kind) &&
    (entryScope lower row).any fun scope => scopeCovers lower scope target kind

def considerRow (lower : Line → Line) (target : Line) (kind : Kind) (best : Best) (row : Row) :
    Best :=
  if covers lower target kind row = false then best
  else if specificity lower row < best.rank then best
  else (best.at (specificity lower row)).take row.agentGroups

def bestOf (lower : Line → Line) (target : Line) (kind : Kind) (rows : List Row) : Best :=
  rows.foldl (considerRow lower target kind) .start

def narrowed (required : Option (Finset String)) (best : Best) : Option (Finset String) :=
  if best.unrestricted ∨ best.covering = ∅ then required
  else some (required.elim best.covering (· ∩ best.covering))

def targetKind (value : Line) : Kind := if isIpOrCidr value then .cidr else .domain

def allowRows (rows : List Row) : List Row := rows.filter fun row => row.effect = .allow

def targetsOf (rangesText domainsText : Option Line) : List Line :=
  splitTargetLines rangesText ++ splitTargetLines domainsText

/-- `required_agent_groups`: the groups that may run a scan, none where any agent may. -/
def requiredAgentGroups (lower : Line → Line) (rows : List Row)
    (rangesText domainsText : Option Line) : Option (Finset String) :=
  if (allowRows rows).all fun row => row.agentGroups = [] then none
  else (targetsOf rangesText domainsText).foldl (fun required target =>
    narrowed required (bestOf lower target (targetKind target) (allowRows rows))) none

/-- Whether an agent of a group may run what has these requirements. -/
def Permits (required : Option (Finset String)) (group : String) : Prop :=
  ∀ groups ∈ required, group ∈ groups

end Code

section Purpose

variable (lower : Line → Line)

/-- An entry of the rows that covers, and that no narrower one covers beside. -/
structure Narrowest (rows : List Row) (covering : Row → Prop) (row : Row) : Prop where
  mem : row ∈ rows
  covers : covering row
  narrowest : ∀ other ∈ rows, covering other → specificity lower other ≤ specificity lower row

def Restricted (rows : List Row) (covering : Row → Prop) : Prop :=
  (∃ row, Narrowest lower rows covering row) ∧
    ∀ row, Narrowest lower rows covering row → row.agentGroups ≠ []

def NarrowestPermits (rows : List Row) (covering : Row → Prop) (group : String) : Prop :=
  ∃ row, Narrowest lower rows covering row ∧ group ∈ row.agentGroups

def SomePermits (rows : List Row) (covering : Row → Prop) (group : String) : Prop :=
  ∃ row ∈ rows, covering row ∧ (row.agentGroups = [] ∨ group ∈ row.agentGroups)

def CoversAddress (a : Address) (row : Row) : Prop :=
  row.kind = .cidr ∧ ∃ n ∈ entryNetworks row.value, n.Holds a

def CoversName (name : Line) (row : Row) : Prop :=
  row.kind = .domain ∧
    suffixMatches (normalizeDomain lower name) (normalizeDomain lower row.value) = true

/-- What holds at each address of the targets, and of each name among them. -/
def PerAddress (targets : List Line) (holds : (Row → Prop) → Prop) : Prop :=
  (∀ target ∈ targets, isIpOrCidr target = true → ∀ range, network target = some range →
      ∀ a, range.Holds a → holds (CoversAddress a)) ∧
    ∀ target ∈ targets, isIpOrCidr target = false → holds (CoversName lower target)

/-- Where the narrowest entry is restricted, it is to the group. -/
def HeldPerAddress (rows : List Row) (targets : List Line) (group : String) : Prop :=
  PerAddress lower targets fun covering =>
    Restricted lower (allowRows rows) covering →
      NarrowestPermits lower (allowRows rows) covering group

/-- Where the narrowest entry is restricted, some entry permits the group. -/
def CoveredPerAddress (rows : List Row) (targets : List Line) (group : String) : Prop :=
  PerAddress lower targets fun covering =>
    Restricted lower (allowRows rows) covering → SomePermits (allowRows rows) covering group

def SameRange (n m : Network) : Prop := n.version = m.version ∧ n.block = m.block

def Inside (n m : Network) : Prop := n.version = m.version ∧ n.block < m.block

instance (n m : Network) : Decidable (SameRange n m) := inferInstanceAs (Decidable (_ ∧ _))

instance (n m : Network) : Decidable (Inside n m) :=
  decidable_of_iff (n.version = m.version ∧ n.block ≤ m.block ∧ ¬ m.block ≤ n.block)
    (and_congr_right fun _ => lt_iff_le_not_ge.symm)

/-- A range that meets a target without holding it as `subnet_of` has it: it lies inside, or it
begins where the target does, in another zone. -/
def Missed (n range : Network) : Prop :=
  Inside n range ∨ n.version = range.version ∧ range.block ≤ n.block ∧
    n.networkAddress = range.networkAddress ∧ n.scopeId ≠ range.scopeId

instance (n range : Network) : Decidable (Missed n range) := inferInstanceAs (Decidable (_ ∨ _))

/-- A restricted range that misses a target opens to the group, or narrower ones fill what the two
share. -/
def Sheltered (rows : List Row) (range : Network) (group : String) : Prop :=
  ∀ row ∈ rows, row.kind = .cidr → row.agentGroups ≠ [] → ∀ n ∈ entryNetworks row.value,
    Missed n range →
      (∃ other ∈ rows, other.kind = .cidr ∧ (∃ m ∈ entryNetworks other.value, SameRange m n) ∧
        (other.agentGroups = [] ∨ group ∈ other.agentGroups)) ∨
      ∀ a, range.Holds a → n.Holds a → ∃ other ∈ rows, other.kind = .cidr ∧
        ∃ m ∈ entryNetworks other.value, Inside m n ∧ m.Holds a

/-- The same with any range around the restricted one that opens to the group. -/
def Enclosed (rows : List Row) (range : Network) (group : String) : Prop :=
  ∀ row ∈ rows, row.kind = .cidr → row.agentGroups ≠ [] → ∀ n ∈ entryNetworks row.value,
    Missed n range →
      (∃ other ∈ rows, other.kind = .cidr ∧
        (∃ m ∈ entryNetworks other.value, m.version = n.version ∧ n.block ≤ m.block) ∧
        (other.agentGroups = [] ∨ group ∈ other.agentGroups)) ∨
      ∀ a, range.Holds a → n.Holds a → ∃ other ∈ rows, other.kind = .cidr ∧
        ∃ m ∈ entryNetworks other.value, Inside m n ∧ m.Holds a

end Purpose

section Covering

variable {lower : Line → Line}

theorem covers_cidr {target : Line} {row : Row} {range : Network}
    (hread : network target = some range) :
    covers lower target .cidr row = true ↔
      row.kind = .cidr ∧ ∃ n ∈ entryNetworks row.value, n.version = range.version ∧
        range.SubnetOf n := by
  have hallowed : ∀ networks : List Network,
      scopeCovers lower { emptyScope "" with allowNetworks := networks, approved := true }
          target .cidr = true ↔
        ∃ n ∈ networks, n.version = range.version ∧ range.SubnetOf n := by
    intro networks
    unfold scopeCovers
    rw [Option.isNone_iff_eq_none, rejectsNetwork_eq_none hread]
    simp [emptyScope]
  unfold covers
  rw [Bool.and_eq_true, decide_eq_true_eq]
  refine and_congr_right fun hkind => ?_
  unfold entryScope entryNetworks
  rw [hkind]
  by_cases hwild : row.value = wildcard
  · rw [if_pos hwild, if_pos hwild, Option.any_some]
    exact hallowed everyAddress
  · rw [if_neg hwild, if_neg hwild]
    cases network row.value with
    | none => simp
    | some n =>
      rw [Option.map_some, Option.any_some]
      exact hallowed [n]

theorem covers_domain {target : Line} {row : Row} :
    covers lower target .domain row = true ↔ CoversName lower target row := by
  unfold covers CoversName
  rw [Bool.and_eq_true, decide_eq_true_eq]
  refine and_congr_right fun hkind => ?_
  unfold entryScope
  rw [hkind, Option.any_some]
  unfold scopeCovers
  rw [Option.isNone_iff_eq_none, rejectsDomain_eq_none]
  simp [emptyScope]

theorem specificity_of_mem {row : Row} {n : Network} (hkind : row.kind = .cidr)
    (hn : n ∈ entryNetworks row.value) : specificity lower row = n.prefixlen := by
  unfold entryNetworks at hn
  unfold specificity
  split at hn
  · rename_i hwild
    have hall : ∀ m ∈ everyAddress, m.prefixlen = 0 := by decide +kernel
    rw [if_pos hwild, hall n hn]
  · rename_i hwild
    rw [if_neg hwild, hkind, Option.mem_toList.mp hn]
    rfl

end Covering

section Best

variable {lower : Line → Line} {target : Line} {kind : Kind}

/-- What the loop over the entries has found among those read so far. -/
structure BestAmong (lower : Line → Line) (target : Line) (kind : Kind) (rows : List Row)
    (best : Best) : Prop where
  below : ∀ row ∈ rows, covers lower target kind row = true →
    (specificity lower row : ℤ) ≤ best.rank
  reached : best.rank = -1 ∨
    ∃ row ∈ rows, covers lower target kind row = true ∧ (specificity lower row : ℤ) = best.rank
  covering : ∀ group, group ∈ best.covering ↔
    ∃ row ∈ rows, covers lower target kind row = true ∧
      (specificity lower row : ℤ) = best.rank ∧ group ∈ row.agentGroups
  unrestricted : best.unrestricted = true ↔
    ∃ row ∈ rows, covers lower target kind row = true ∧
      (specificity lower row : ℤ) = best.rank ∧ row.agentGroups = []

theorem bestAmong_nil : BestAmong lower target kind [] .start := by
  refine ⟨?_, .inl rfl, ?_, ?_⟩
  · simp
  · simp [Best.start]
  · simp [Best.start]

theorem take_rank (best : Best) (groups : List String) : (best.take groups).rank = best.rank := by
  unfold Best.take
  split
  · rfl
  · rfl

theorem mem_take {best : Best} {groups : List String} {group : String} :
    group ∈ (best.take groups).covering ↔ group ∈ best.covering ∨ group ∈ groups := by
  unfold Best.take
  split
  · simp
  · rename_i hempty
    rw [not_not.mp hempty]
    simp

theorem take_unrestricted {best : Best} {groups : List String} :
    (best.take groups).unrestricted = true ↔ best.unrestricted = true ∨ groups = [] := by
  unfold Best.take
  split
  · rename_i hgroups
    simp [hgroups]
  · rename_i hempty
    simp [not_not.mp hempty]

theorem exists_mem_concat {rows : List Row} {row : Row} {holds : Row → Prop} :
    (∃ other ∈ rows ++ [row], holds other) ↔ (∃ other ∈ rows, holds other) ∨ holds row := by
  simp only [List.mem_append, List.mem_singleton, or_and_right, exists_or, exists_eq_left]

theorem BestAmong.skip {rows : List Row} {best : Best} (h : BestAmong lower target kind rows best)
    {row : Row} (hrow : covers lower target kind row = true →
      (specificity lower row : ℤ) < best.rank) :
    BestAmong lower target kind (rows ++ [row]) best := by
  have hnot : ∀ {holds : Prop}, ¬ (covers lower target kind row = true ∧
      (specificity lower row : ℤ) = best.rank ∧ holds) := by
    rintro holds ⟨hc, hrank, -⟩
    exact (hrow hc).ne hrank
  refine ⟨?_, ?_, fun group => ?_, ?_⟩
  · rw [List.forall_mem_append, List.forall_mem_singleton]
    exact ⟨h.below, fun hc => (hrow hc).le⟩
  · refine h.reached.imp_right ?_
    rintro ⟨found, hfound, hrest⟩
    exact ⟨found, List.mem_append_left _ hfound, hrest⟩
  · rw [h.covering, exists_mem_concat, or_iff_left hnot]
  · rw [h.unrestricted, exists_mem_concat, or_iff_left hnot]

theorem BestAmong.exists_at {rows : List Row} {best : Best}
    (h : BestAmong lower target kind rows best) {rank : ℤ} (hrank : best.rank ≤ rank)
    {holds : Row → Prop} :
    (∃ row ∈ rows, covers lower target kind row = true ∧ (specificity lower row : ℤ) = rank ∧
        holds row) ↔
      best.rank = rank ∧ ∃ row ∈ rows, covers lower target kind row = true ∧
        (specificity lower row : ℤ) = best.rank ∧ holds row := by
  constructor
  · rintro ⟨row, hrow, hc, heq, hholds⟩
    have hbest : best.rank = rank := le_antisymm hrank (heq ▸ h.below row hrow hc)
    exact ⟨hbest, row, hrow, hc, heq.trans hbest.symm, hholds⟩
  · rintro ⟨heq, hrest⟩
    rwa [heq] at hrest

theorem mem_at {best : Best} {rank : ℤ} (hrank : best.rank ≤ rank) {group : String} :
    group ∈ (best.at rank).covering ↔ best.rank = rank ∧ group ∈ best.covering := by
  unfold Best.at
  split
  · rename_i hlt
    simp [hlt.ne]
  · rename_i hnot
    simp [le_antisymm hrank (not_lt.mp hnot)]

theorem at_unrestricted {best : Best} {rank : ℤ} (hrank : best.rank ≤ rank) :
    (best.at rank).unrestricted = true ↔ best.rank = rank ∧ best.unrestricted = true := by
  unfold Best.at
  split
  · rename_i hlt
    simp [hlt.ne]
  · rename_i hnot
    simp [le_antisymm hrank (not_lt.mp hnot)]

theorem at_rank {best : Best} {rank : ℤ} (hrank : best.rank ≤ rank) :
    (best.at rank).rank = rank := by
  unfold Best.at
  split
  · rfl
  · rename_i hnot
    exact le_antisymm hrank (not_lt.mp hnot)

theorem BestAmong.take {rows : List Row} {best : Best} (h : BestAmong lower target kind rows best)
    {row : Row} (hcovers : covers lower target kind row = true)
    (hrank : best.rank ≤ specificity lower row) :
    BestAmong lower target kind (rows ++ [row])
      ((best.at (specificity lower row)).take row.agentGroups) := by
  have htaken : ((best.at (specificity lower row)).take row.agentGroups).rank =
      specificity lower row := (take_rank _ _).trans (at_rank hrank)
  refine ⟨?_, ?_, fun group => ?_, ?_⟩
  · rw [htaken, List.forall_mem_append, List.forall_mem_singleton]
    exact ⟨fun other hother hc => (h.below other hother hc).trans hrank, fun _ => le_refl _⟩
  · exact .inr ⟨row, List.mem_append_right _ (List.mem_singleton_self _), hcovers, htaken.symm⟩
  · rw [htaken, mem_take, mem_at hrank, h.covering, exists_mem_concat, h.exists_at hrank]
    simp [hcovers]
  · rw [htaken, take_unrestricted, at_unrestricted hrank, h.unrestricted, exists_mem_concat,
      h.exists_at hrank]
    simp [hcovers]

theorem BestAmong.consider {rows : List Row} {best : Best}
    (h : BestAmong lower target kind rows best) (row : Row) :
    BestAmong lower target kind (rows ++ [row]) (considerRow lower target kind best row) := by
  unfold considerRow
  split
  · rename_i hnot
    exact h.skip (by simp [hnot])
  · rename_i hcovers
    split
    · rename_i hlt
      exact h.skip fun _ => hlt
    · rename_i hle
      exact h.take (by simpa using hcovers) (not_lt.mp hle)

theorem bestOf_among (lower : Line → Line) (target : Line) (kind : Kind) (rows : List Row) :
    BestAmong lower target kind rows (bestOf lower target kind rows) := by
  have hrun : ∀ (rest before : List Row) (best : Best), BestAmong lower target kind before best →
      BestAmong lower target kind (before ++ rest)
        (rest.foldl (considerRow lower target kind) best) := by
    intro rest
    induction rest with
    | nil =>
      intro before best h
      rwa [List.append_nil]
    | cons row rest ih =>
      intro before best h
      have hnext := ih (before ++ [row]) _ (h.consider row)
      rwa [List.append_assoc] at hnext
  exact hrun rows [] .start bestAmong_nil

end Best

section Required

variable {lower : Line → Line} {group : String}

theorem permits_none : Permits none group := fun _ h => nomatch h

theorem permits_narrowed {required : Option (Finset String)} {best : Best} :
    Permits (narrowed required best) group ↔ Permits required group ∧
      (best.unrestricted = false → best.covering ≠ ∅ → group ∈ best.covering) := by
  unfold narrowed Permits
  split
  · rename_i hopen
    rcases hopen with hopen | hopen
    · simp [hopen]
    · simp [hopen]
  · rename_i hclosed
    rw [not_or, Bool.not_eq_true] at hclosed
    cases required with
    | none => simp [hclosed]
    | some groups => simp [hclosed]

theorem permits_foldl {targets : List Line} {best : Line → Best}
    {required : Option (Finset String)} :
    Permits (targets.foldl (fun required target => narrowed required (best target)) required)
        group ↔
      Permits required group ∧ ∀ target ∈ targets, (best target).unrestricted = false →
        (best target).covering ≠ ∅ → group ∈ (best target).covering := by
  induction targets generalizing required with
  | nil => simp
  | cons target rest ih =>
    rw [List.foldl_cons, ih, permits_narrowed, List.forall_mem_cons, and_assoc]

theorem narrowestPermits_of_permits {rows : List Row} {rangesText domainsText : Option Line}
    (hpermits : Permits (requiredAgentGroups lower rows rangesText domainsText) group)
    {target : Line} (htarget : target ∈ targetsOf rangesText domainsText)
    (hrestricted : Restricted lower (allowRows rows)
      fun row => covers lower target (targetKind target) row = true) :
    NarrowestPermits lower (allowRows rows)
      (fun row => covers lower target (targetKind target) row = true) group := by
  rcases hrestricted with ⟨⟨row, hrow⟩, hall⟩
  have hamong := bestOf_among lower target (targetKind target) (allowRows rows)
  have hrank : (specificity lower row : ℤ) =
      (bestOf lower target (targetKind target) (allowRows rows)).rank := by
    have hbelow := hamong.below row hrow.mem hrow.covers
    rcases hamong.reached with hstart | ⟨other, hother, hc, heq⟩
    · omega
    · have := hrow.narrowest other hother hc
      omega
  have hnarrowest : ∀ other ∈ allowRows rows, covers lower target (targetKind target) other →
      (specificity lower other : ℤ) =
        (bestOf lower target (targetKind target) (allowRows rows)).rank →
      Narrowest lower (allowRows rows)
        (fun row => covers lower target (targetKind target) row = true) other := by
    intro other hother hc heq
    refine ⟨hother, hc, fun third hthird hcthird => ?_⟩
    have := hamong.below third hthird hcthird
    omega
  have hclosed : (bestOf lower target (targetKind target) (allowRows rows)).unrestricted =
      false := by
    rw [Bool.eq_false_iff, Ne, hamong.unrestricted]
    rintro ⟨other, hother, hc, heq, hopen⟩
    exact hall other (hnarrowest other hother hc heq) hopen
  rcases List.exists_mem_of_ne_nil _ (hall row hrow) with ⟨name, hname⟩
  have hcovering : (bestOf lower target (targetKind target) (allowRows rows)).covering ≠ ∅ :=
    Finset.ne_empty_of_mem ((hamong.covering name).mpr ⟨row, hrow.mem, hrow.covers, hrank, hname⟩)
  have hsome : ¬ ((allowRows rows).all fun row => row.agentGroups = []) = true := by
    rw [List.all_eq_true]
    intro hnone
    exact hall row hrow (by simpa using hnone row hrow.mem)
  unfold requiredAgentGroups at hpermits
  rw [if_neg hsome, permits_foldl] at hpermits
  rcases (hamong.covering group).mp (hpermits.2 target htarget hclosed hcovering) with
    ⟨other, hother, hc, heq, hmem⟩
  exact ⟨other, hnarrowest other hother hc heq, hmem⟩

end Required

section Ranges

variable {lower : Line → Line} {rows : List Row} {group : String} {n m range : Network}
  {a : Address}

theorem le_of_prefixlen (hn : n.Holds a) (hm : m.Holds a)
    (h : m.prefixlen ≤ n.prefixlen) : n.block ≤ m.block := by
  refine Block.le_of_mem hn.2 hm.2 ?_
  have hversion : n.version = m.version := hn.1.trans hm.1.symm
  have hnh := n.height_le
  have hmh := m.height_le
  unfold Network.prefixlen at h
  rw [hversion] at h hnh
  omega

theorem prefixlen_le_of_le (hversion : n.version = m.version) (h : n.block ≤ m.block) :
    m.prefixlen ≤ n.prefixlen := by
  unfold Network.prefixlen
  rw [hversion]
  exact Nat.sub_le_sub_left h.1 _

theorem inside_of_not_le (hn : n.Holds a) (hm : m.Holds a) (h : ¬ m.block ≤ n.block) :
    Inside n m :=
  ⟨hn.1.trans hm.1.symm, lt_of_le_not_ge ((Block.le_or_le hn.2 hm.2).resolve_right h) h⟩

theorem missed_of_not_subnetOf (hn : n.Holds a) (hm : m.Holds a) (h : ¬ m.SubnetOf n) :
    Missed n m := by
  by_cases hle : m.block ≤ n.block
  · have hzone : m.networkAddress = n.networkAddress ∧ m.scopeId ≠ n.scopeId := by
      simpa [Network.SubnetOf, hle] using h
    exact .inr ⟨hn.1.trans hm.1.symm, hle, hzone.1.symm, hzone.2.symm⟩
  · exact .inl (inside_of_not_le hn hm hle)

theorem prefixlen_lt_of_inside (h : Inside n m) : m.prefixlen < n.prefixlen := by
  have hlt : n.block.height < m.block.height :=
    lt_of_le_of_ne h.2.le.1 fun heq => h.2.ne (Block.eq_of_le h.2.le heq)
  have hmh := m.height_le
  unfold Network.prefixlen
  rw [h.1]
  omega

theorem holds_of_sameRange (h : SameRange m n) (hn : n.Holds a) : m.Holds a :=
  ⟨h.1.trans hn.1, h.2 ▸ hn.2⟩

theorem sameRange_of_prefixlen (hn : n.Holds a) (hm : m.Holds a)
    (h : m.prefixlen = n.prefixlen) : SameRange m n :=
  ⟨hm.1.trans hn.1.symm, le_antisymm (le_of_prefixlen hm hn h.ge) (le_of_prefixlen hn hm h.le)⟩

theorem coversAddress_of_covers {target : Line} {row : Row} (hread : network target = some range)
    (ha : range.Holds a) (h : covers lower target .cidr row = true) : CoversAddress a row := by
  rcases (covers_cidr hread).mp h with ⟨hkind, m, hm, hversion, hsubnet⟩
  exact ⟨hkind, m, hm, hversion.trans ha.1, Block.mem_of_le hsubnet.1 ha.2⟩

theorem narrowest_of_covers {target : Line} (hread : network target = some range)
    (ha : range.Holds a) {row : Row} (hrow : Narrowest lower rows (CoversAddress a) row)
    (hcovers : covers lower target .cidr row = true) {other : Row}
    (h : Narrowest lower rows (fun row => covers lower target .cidr row = true) other) :
    Narrowest lower rows (CoversAddress a) other :=
  ⟨h.mem, coversAddress_of_covers hread ha h.covers, fun third hthird hc =>
    (hrow.narrowest third hthird hc).trans (h.narrowest row hrow.mem hcovers)⟩

theorem permits_of_sheltered (hsheltered : Sheltered rows range group) {row : Row}
    (hrestricted : Restricted lower rows (CoversAddress a))
    (hrow : Narrowest lower rows (CoversAddress a) row) (hn : n ∈ entryNetworks row.value)
    (ha : range.Holds a) (hna : n.Holds a) (hmissed : Missed n range) :
    NarrowestPermits lower rows (CoversAddress a) group := by
  rcases hsheltered row hrow.mem hrow.covers.1 (hrestricted.2 row hrow) n hn hmissed with
    ⟨other, hother, hkind, ⟨m, hm, hsame⟩, hopen⟩ | hfilled
  · have hma := holds_of_sameRange hsame hna
    have hrank : specificity lower other = specificity lower row := by
      rw [specificity_of_mem hkind hm, specificity_of_mem hrow.covers.1 hn]
      unfold Network.prefixlen
      rw [hsame.1, hsame.2]
    have hnarrowest : Narrowest lower rows (CoversAddress a) other :=
      ⟨hother, ⟨hkind, m, hm, hma⟩, fun third hthird hc =>
        (hrow.narrowest third hthird hc).trans hrank.ge⟩
    refine ⟨other, hnarrowest, hopen.resolve_left (hrestricted.2 other hnarrowest)⟩
  · rcases hfilled a ha hna with ⟨other, hother, hkind, m, hm, hin, hma⟩
    have hrank := hrow.narrowest other hother ⟨hkind, m, hm, hma⟩
    rw [specificity_of_mem hkind hm, specificity_of_mem hrow.covers.1 hn] at hrank
    exact absurd (prefixlen_lt_of_inside hin) (Nat.not_lt.mpr hrank)

theorem narrowest_of_bare {row : Row} (hrow : row ∈ rows) (hkind : row.kind = .cidr)
    (hn : n ∈ entryNetworks row.value) (hna : n.Holds a)
    (hbare : ∀ other ∈ rows, other.kind = .cidr → ∀ m ∈ entryNetworks other.value,
      Inside m n → ¬ m.Holds a) :
    Narrowest lower rows (CoversAddress a) row := by
  refine ⟨hrow, ⟨hkind, n, hn, hna⟩, ?_⟩
  rintro other hmem ⟨hok, m, hm, hma⟩
  rw [specificity_of_mem hok hm, specificity_of_mem hkind hn]
  have hout : n.block ≤ m.block := by
    by_contra hnot
    exact hbare other hmem hok m hm (inside_of_not_le hma hna hnot) hma
  exact prefixlen_le_of_le (hna.1.trans hma.1.symm) hout

theorem sameRange_of_narrowest {row other : Row} (hn : n ∈ entryNetworks row.value)
    (hna : n.Holds a) (hrow : Narrowest lower rows (CoversAddress a) row)
    (hother : Narrowest lower rows (CoversAddress a) other) :
    other.kind = .cidr ∧ ∃ m ∈ entryNetworks other.value, m.Holds a ∧ SameRange m n := by
  rcases hother.covers with ⟨hok, m, hm, hma⟩
  have hrank := le_antisymm (hrow.narrowest other hother.mem hother.covers)
    (hother.narrowest row hrow.mem hrow.covers)
  rw [specificity_of_mem hok hm, specificity_of_mem hrow.covers.1 hn] at hrank
  exact ⟨hok, m, hm, hma, sameRange_of_prefixlen hna hma hrank⟩

theorem sheltered_of_permits (hheld : ∀ a, range.Holds a →
      Restricted lower rows (CoversAddress a) →
        NarrowestPermits lower rows (CoversAddress a) group) :
    Sheltered rows range group := by
  intro row hrow hkind hgroups n hn hmissed
  by_contra hopen
  rw [not_or] at hopen
  rcases hopen with ⟨hsame, hfilled⟩
  push Not at hsame hfilled
  rcases hfilled with ⟨a, ha, hna, hbare⟩
  have hnarrowest : Narrowest lower rows (CoversAddress a) row :=
    narrowest_of_bare hrow hkind hn hna hbare
  have hties : ∀ other, Narrowest lower rows (CoversAddress a) other →
      other.agentGroups ≠ [] ∧ group ∉ other.agentGroups := by
    intro other hnarrow
    rcases sameRange_of_narrowest hn hna hnarrowest hnarrow with ⟨hok, m, hm, -, hrange⟩
    exact hsame other hnarrow.mem hok ⟨m, hm, hrange⟩
  rcases hheld a ha ⟨⟨row, hnarrowest⟩, fun other h => (hties other h).1⟩ with
    ⟨other, hnarrow, hmem⟩
  exact (hties other hnarrow).2 hmem

theorem somePermits_of_enclosed (henclosed : Enclosed rows range group) {row : Row}
    (hrestricted : Restricted lower rows (CoversAddress a))
    (hrow : Narrowest lower rows (CoversAddress a) row) (hn : n ∈ entryNetworks row.value)
    (ha : range.Holds a) (hna : n.Holds a) (hmissed : Missed n range) :
    SomePermits rows (CoversAddress a) group := by
  rcases henclosed row hrow.mem hrow.covers.1 (hrestricted.2 row hrow) n hn hmissed with
    ⟨other, hother, hkind, ⟨m, hm, hversion, hle⟩, hopen⟩ | hfilled
  · exact ⟨other, hother, ⟨hkind, m, hm, Network.holds_of_le hversion.symm hle hna⟩, hopen⟩
  · rcases hfilled a ha hna with ⟨other, hother, hkind, m, hm, hin, hma⟩
    have hrank := hrow.narrowest other hother ⟨hkind, m, hm, hma⟩
    rw [specificity_of_mem hkind hm, specificity_of_mem hrow.covers.1 hn] at hrank
    exact absurd (prefixlen_lt_of_inside hin) (Nat.not_lt.mpr hrank)

theorem enclosed_of_somePermits (hheld : ∀ a, range.Holds a →
      Restricted lower rows (CoversAddress a) → SomePermits rows (CoversAddress a) group) :
    Enclosed rows range group := by
  intro row hrow hkind hgroups n hn hmissed
  by_contra hopen
  rw [not_or] at hopen
  rcases hopen with ⟨haround, hfilled⟩
  push Not at haround hfilled
  rcases hfilled with ⟨a, ha, hna, hbare⟩
  have hnarrowest : Narrowest lower rows (CoversAddress a) row :=
    narrowest_of_bare hrow hkind hn hna hbare
  have hwider : ∀ other ∈ rows, CoversAddress a other →
      other.agentGroups ≠ [] ∧ group ∉ other.agentGroups := by
    rintro other hother ⟨hok, m, hm, hma⟩
    have hrank := hnarrowest.narrowest other hother ⟨hok, m, hm, hma⟩
    rw [specificity_of_mem hok hm, specificity_of_mem hkind hn] at hrank
    exact haround other hother hok
      ⟨m, hm, hma.1.trans hna.1.symm, le_of_prefixlen hna hma hrank⟩
  rcases hheld a ha ⟨⟨row, hnarrowest⟩, fun other h => (hwider other h.mem h.covers).1⟩ with
    ⟨other, hother, hc, hempty | hmem⟩
  · exact (hwider other hother hc).1 hempty
  · exact (hwider other hother hc).2 hmem

end Ranges

section Results

variable {lower : Line → Line} {rows : List Row} {group : String}
  {rangesText domainsText : Option Line} {target : Line}

theorem covers_name (hname : isIpOrCidr target = false) :
    (fun row => covers lower target (targetKind target) row = true) = CoversName lower target := by
  funext row
  unfold targetKind
  rw [if_neg (by simp [hname])]
  exact propext covers_domain

theorem targetKind_of_address (h : isIpOrCidr target = true) : targetKind target = .cidr := by
  unfold targetKind
  rw [if_pos h]

theorem permits_of_covers
    (hpermits : Permits (requiredAgentGroups lower rows rangesText domainsText) group)
    (htarget : target ∈ targetsOf rangesText domainsText) (hip : isIpOrCidr target = true)
    {range : Network} (hread : network target = some range) {a : Address} (ha : range.Holds a)
    (hrestricted : Restricted lower (allowRows rows) (CoversAddress a)) {row : Row}
    (hrow : Narrowest lower (allowRows rows) (CoversAddress a) row)
    (hcovers : covers lower target .cidr row = true) :
    NarrowestPermits lower (allowRows rows) (CoversAddress a) group := by
  have hdown : ∀ other, Narrowest lower (allowRows rows)
      (fun row => covers lower target .cidr row = true) other →
        Narrowest lower (allowRows rows) (CoversAddress a) other := fun _ h =>
    narrowest_of_covers hread ha hrow hcovers h
  have hfirst : Narrowest lower (allowRows rows)
      (fun row => covers lower target .cidr row = true) row :=
    ⟨hrow.mem, hcovers, fun other hother hc =>
      hrow.narrowest other hother (coversAddress_of_covers hread ha hc)⟩
  have hpermitted := narrowestPermits_of_permits hpermits htarget
  rw [targetKind_of_address hip] at hpermitted
  rcases hpermitted ⟨⟨row, hfirst⟩, fun other h => hrestricted.2 other (hdown other h)⟩ with
    ⟨other, hother, hmem⟩
  exact ⟨other, hdown other hother, hmem⟩

theorem permits_at_address
    (hpermits : Permits (requiredAgentGroups lower rows rangesText domainsText) group)
    (htarget : target ∈ targetsOf rangesText domainsText) (hip : isIpOrCidr target = true)
    {range : Network} (hread : network target = some range)
    (hsheltered : Sheltered (allowRows rows) range group) {a : Address} (ha : range.Holds a)
    (hrestricted : Restricted lower (allowRows rows) (CoversAddress a)) :
    NarrowestPermits lower (allowRows rows) (CoversAddress a) group := by
  rcases hrestricted.1 with ⟨row, hrow⟩
  rcases hrow.covers with ⟨hkind, n, hn, hna⟩
  by_cases hsubnet : range.SubnetOf n
  · exact permits_of_covers hpermits htarget hip hread ha hrestricted hrow
      ((covers_cidr hread).mpr ⟨hkind, n, hn, hna.1.trans ha.1.symm, hsubnet⟩)
  · exact permits_of_sheltered hsheltered hrestricted hrow hn ha hna
      (missed_of_not_subnetOf hna ha hsubnet)

theorem somePermits_at_address
    (hpermits : Permits (requiredAgentGroups lower rows rangesText domainsText) group)
    (htarget : target ∈ targetsOf rangesText domainsText) (hip : isIpOrCidr target = true)
    {range : Network} (hread : network target = some range)
    (henclosed : Enclosed (allowRows rows) range group) {a : Address} (ha : range.Holds a)
    (hrestricted : Restricted lower (allowRows rows) (CoversAddress a)) :
    SomePermits (allowRows rows) (CoversAddress a) group := by
  rcases hrestricted.1 with ⟨row, hrow⟩
  rcases hrow.covers with ⟨hkind, n, hn, hna⟩
  by_cases hsubnet : range.SubnetOf n
  · rcases permits_of_covers hpermits htarget hip hread ha hrestricted hrow
      ((covers_cidr hread).mpr ⟨hkind, n, hn, hna.1.trans ha.1.symm, hsubnet⟩) with
      ⟨other, hother, hmem⟩
    exact ⟨other, hother.mem, hother.covers, .inr hmem⟩
  · exact somePermits_of_enclosed henclosed hrestricted hrow hn ha hna
      (missed_of_not_subnetOf hna ha hsubnet)

def InScope (lower : Line → Line) (rows : List Row) (target : Line) : Prop :=
  ∃ row ∈ allowRows rows, covers lower target (targetKind target) row = true

/-- Some entry that covers the whole of a target permits what the requirement permits. -/
theorem somePermits_of_inScope
    (hpermits : Permits (requiredAgentGroups lower rows rangesText domainsText) group)
    (htarget : target ∈ targetsOf rangesText domainsText) (hscope : InScope lower rows target) :
    SomePermits (allowRows rows)
      (fun row => covers lower target (targetKind target) row = true) group := by
  have hamong := bestOf_among lower target (targetKind target) (allowRows rows)
  have hexists : ∃ row, Narrowest lower (allowRows rows)
      (fun row => covers lower target (targetKind target) row = true) row := by
    rcases hamong.reached with hstart | ⟨row, hrow, hc, heq⟩
    · rcases hscope with ⟨row, hrow, hc⟩
      have := hamong.below row hrow hc
      omega
    · refine ⟨row, hrow, hc, fun other hother hcother => ?_⟩
      have := hamong.below other hother hcother
      omega
  by_cases hclosed : ∀ row, Narrowest lower (allowRows rows)
      (fun row => covers lower target (targetKind target) row = true) row → row.agentGroups ≠ []
  · rcases narrowestPermits_of_permits hpermits htarget ⟨hexists, hclosed⟩ with
      ⟨row, hrow, hmem⟩
    exact ⟨row, hrow.mem, hrow.covers, .inr hmem⟩
  · push Not at hclosed
    rcases hclosed with ⟨row, hrow, hopen⟩
    exact ⟨row, hrow.mem, hrow.covers, .inl hopen⟩

def EveryRange (targets : List Line) (holds : Network → Prop) : Prop :=
  ∀ target ∈ targets, isIpOrCidr target = true → ∀ range, network target = some range → holds range

theorem held_iff
    (hpermits : Permits (requiredAgentGroups lower rows rangesText domainsText) group) :
    HeldPerAddress lower rows (targetsOf rangesText domainsText) group ↔
      EveryRange (targetsOf rangesText domainsText) (Sheltered (allowRows rows) · group) := by
  constructor
  · intro hheld target htarget hip range hread
    exact sheltered_of_permits fun a ha => hheld.1 target htarget hip range hread a ha
  · intro hsheltered
    refine ⟨?_, ?_⟩
    · intro target htarget hip range hread a ha hrestricted
      exact permits_at_address hpermits htarget hip hread
        (hsheltered target htarget hip range hread) ha hrestricted
    · intro target htarget hname hrestricted
      rw [← covers_name hname] at hrestricted ⊢
      exact narrowestPermits_of_permits hpermits htarget hrestricted

theorem covered_iff
    (hpermits : Permits (requiredAgentGroups lower rows rangesText domainsText) group) :
    CoveredPerAddress lower rows (targetsOf rangesText domainsText) group ↔
      EveryRange (targetsOf rangesText domainsText) (Enclosed (allowRows rows) · group) := by
  constructor
  · intro hcovered target htarget hip range hread
    exact enclosed_of_somePermits fun a ha => hcovered.1 target htarget hip range hread a ha
  · intro henclosed
    refine ⟨?_, ?_⟩
    · intro target htarget hip range hread a ha hrestricted
      exact somePermits_at_address hpermits htarget hip hread
        (henclosed target htarget hip range hread) ha hrestricted
    · intro target htarget hname hrestricted
      rw [← covers_name hname] at hrestricted ⊢
      rcases narrowestPermits_of_permits hpermits htarget hrestricted with ⟨row, hrow, hmem⟩
      exact ⟨row, hrow.mem, hrow.covers, .inr hmem⟩

theorem covered_of_inScope
    (hpermits : Permits (requiredAgentGroups lower rows rangesText domainsText) group)
    (hscope : ∀ target ∈ targetsOf rangesText domainsText, InScope lower rows target) :
    CoveredPerAddress lower rows (targetsOf rangesText domainsText) group := by
  refine ⟨?_, ?_⟩
  · intro target htarget hip range hread a ha _
    rcases somePermits_of_inScope hpermits htarget (hscope target htarget) with
      ⟨row, hrow, hc, hmem⟩
    rw [targetKind_of_address hip] at hc
    exact ⟨row, hrow, coversAddress_of_covers hread ha hc, hmem⟩
  · intro target htarget hname _
    rw [← covers_name hname]
    exact somePermits_of_inScope hpermits htarget (hscope target htarget)

/-- The requirement holds at each address unless a restricted range misses a target: the narrowest
entries where it is sheltered, some entry where it is enclosed or the target is in scope. -/
theorem requiredAgentGroups_per_address (lower : Line → Line) (rows : List Row)
    (rangesText domainsText : Option Line) (group : String)
    (hpermits : Permits (requiredAgentGroups lower rows rangesText domainsText) group) :
    (HeldPerAddress lower rows (targetsOf rangesText domainsText) group ↔
      EveryRange (targetsOf rangesText domainsText) (Sheltered (allowRows rows) · group)) ∧
    (CoveredPerAddress lower rows (targetsOf rangesText domainsText) group ↔
      EveryRange (targetsOf rangesText domainsText) (Enclosed (allowRows rows) · group)) ∧
    ((∀ target ∈ targetsOf rangesText domainsText, InScope lower rows target) →
      CoveredPerAddress lower rows (targetsOf rangesText domainsText) group) :=
  ⟨held_iff hpermits, covered_iff hpermits, covered_of_inScope hpermits⟩

def allowTo (value : String) (groups : List String) : Row :=
  ⟨.allow, .cidr, value.toList, groups⟩

def carvedRows : List Row := [allowTo "10.0.0.0/8" [], allowTo "10.1.0.0/16" ["pci"]]

theorem carvedRows_pci :
    (HeldPerAddress (List.map Char.toLower) carvedRows
        (targetsOf (some "10.1.0.0/16".toList) none) "pci" ↔
      EveryRange (targetsOf (some "10.1.0.0/16".toList) none)
        (Sheltered (allowRows carvedRows) · "pci")) ∧
    (CoveredPerAddress (List.map Char.toLower) carvedRows
        (targetsOf (some "10.1.0.0/16".toList) none) "pci" ↔
      EveryRange (targetsOf (some "10.1.0.0/16".toList) none)
        (Enclosed (allowRows carvedRows) · "pci")) ∧
    ((∀ target ∈ targetsOf (some "10.1.0.0/16".toList) none,
        InScope (List.map Char.toLower) carvedRows target) →
      CoveredPerAddress (List.map Char.toLower) carvedRows
        (targetsOf (some "10.1.0.0/16".toList) none) "pci") := by
  refine requiredAgentGroups_per_address (List.map Char.toLower) carvedRows
    (some "10.1.0.0/16".toList) none "pci" ?_
  have hrequired : requiredAgentGroups (List.map Char.toLower) carvedRows
      (some "10.1.0.0/16".toList) none = some {"pci"} := by
    decide +kernel
  rw [hrequired]
  rintro groups hgroups
  obtain rfl := Option.mem_some_iff.mp hgroups
  exact Finset.mem_singleton_self _

def loneRows : List Row := [allowTo "10.1.0.0/16" ["pci"]]

def zonedRows : List Row := [allowTo "::/0" [], allowTo "fe80::1/128" ["pci"]]

def wideTarget : Option Line := some "10.0.0.0/8".toList

def zonedTarget : Option Line := some "fe80::1%eth0".toList

theorem not_held (target : Line) (row : Row) (a : Address) {targets : List Line}
    (htarget : target ∈ targets) (hip : isIpOrCidr target = true) (hrow : row ∈ allowRows rows)
    (hclosed : row.kind = .cidr ∧ row.agentGroups ≠ [])
    (hbare : ∃ range, network target = some range ∧ range.Holds a ∧
      ∃ n ∈ entryNetworks row.value, n.Holds a ∧ Missed n range ∧
        (∀ other ∈ allowRows rows, ∀ m ∈ entryNetworks other.value, SameRange m n →
          other.agentGroups ≠ [] ∧ group ∉ other.agentGroups) ∧
        ∀ other ∈ allowRows rows, ∀ m ∈ entryNetworks other.value, ¬ Inside m n) :
    ¬ HeldPerAddress lower rows targets group := by
  rcases hbare with ⟨range, hread, ha, n, hn, hna, hmissed, hsame, hinside⟩
  intro hheld
  have hsheltered : Sheltered (allowRows rows) range group :=
    sheltered_of_permits fun a ha => hheld.1 target htarget hip range hread a ha
  rcases hsheltered row hrow hclosed.1 hclosed.2 n hn hmissed with
    ⟨other, hother, -, ⟨m, hm, hmn⟩, hopen⟩ | hfilled
  · rcases hsame other hother m hm hmn with ⟨hgroups, hgroup⟩
    exact hopen.elim hgroups hgroup
  · rcases hfilled a ha hna with ⟨other, hother, -, m, hm, hin, -⟩
    exact hinside other hother m hm hin

theorem not_covered (target : Line) (row : Row) (a : Address) {targets : List Line}
    (htarget : target ∈ targets) (hip : isIpOrCidr target = true) (hrow : row ∈ allowRows rows)
    (hclosed : row.kind = .cidr ∧ row.agentGroups ≠ [])
    (hbare : ∃ range, network target = some range ∧ range.Holds a ∧
      ∃ n ∈ entryNetworks row.value, n.Holds a ∧ Missed n range ∧
        ∀ other ∈ allowRows rows, ∀ m ∈ entryNetworks other.value, ¬ Inside m n)
    (hothers : ∀ other ∈ allowRows rows, other.agentGroups ≠ [] ∧ group ∉ other.agentGroups) :
    ¬ CoveredPerAddress lower rows targets group := by
  rcases hbare with ⟨range, hread, ha, n, hn, hna, hmissed, hinside⟩
  intro hcovered
  have henclosed : Enclosed (allowRows rows) range group :=
    enclosed_of_somePermits fun a ha => hcovered.1 target htarget hip range hread a ha
  rcases henclosed row hrow hclosed.1 hclosed.2 n hn hmissed with
    ⟨other, hother, -, -, hopen⟩ | hfilled
  · exact hopen.elim (hothers other hother).1 (hothers other hother).2
  · rcases hfilled a ha hna with ⟨other, hother, -, m, hm, hin, -⟩
    exact hinside other hother m hm hin

/-- A wide target runs anywhere, in scope or out of it, whatever it holds inside; so does one that
is named with a zone. -/
theorem wideTarget_escapes :
    (Permits (requiredAgentGroups (List.map Char.toLower) loneRows wideTarget none) "dmz" ∧
      ¬ CoveredPerAddress (List.map Char.toLower) loneRows (targetsOf wideTarget none) "dmz") ∧
    (Permits (requiredAgentGroups (List.map Char.toLower) carvedRows wideTarget none) "dmz" ∧
      ¬ HeldPerAddress (List.map Char.toLower) carvedRows (targetsOf wideTarget none) "dmz") ∧
    Permits (requiredAgentGroups (List.map Char.toLower) zonedRows zonedTarget none) "dmz" ∧
      ¬ HeldPerAddress (List.map Char.toLower) zonedRows (targetsOf zonedTarget none) "dmz" := by
  have hlone : requiredAgentGroups (List.map Char.toLower) loneRows wideTarget none = none := by
    decide +kernel
  have hcarved : requiredAgentGroups (List.map Char.toLower) carvedRows wideTarget none = none := by
    decide +kernel
  have hzoned : requiredAgentGroups (List.map Char.toLower) zonedRows zonedTarget none = none := by
    decide +kernel
  rw [hlone, hcarved, hzoned]
  refine ⟨⟨permits_none, ?_⟩, ⟨permits_none, ?_⟩, permits_none, ?_⟩
  · exact not_covered "10.0.0.0/8".toList (allowTo "10.1.0.0/16" ["pci"])
      ⟨.v4, 167837697⟩ (by decide +kernel) (by decide +kernel) (by decide +kernel)
      (by decide +kernel) (by decide +kernel) (by decide +kernel)
  · exact not_held "10.0.0.0/8".toList (allowTo "10.1.0.0/16" ["pci"])
      ⟨.v4, 167837697⟩ (by decide +kernel) (by decide +kernel) (by decide +kernel)
      (by decide +kernel) (by decide +kernel)
  · exact not_held "fe80::1%eth0".toList (allowTo "fe80::1/128" ["pci"])
      ⟨.v6, 0xfe80 * 2 ^ 112 + 1⟩ (by decide +kernel) (by decide +kernel)
      (by decide +kernel) (by decide +kernel) (by decide +kernel)

end Results

end Shapoclyack.AgentGroupScopes
