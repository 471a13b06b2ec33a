import Shapoclyack.L2Selection
import Shapoclyack.ResumedBatches

set_option autoImplicit false

namespace Shapoclyack.L2Routing

open Library Library.Block
open L2Selection (prefixlen)
open ResumedBatches (Line isLineBreak isSpace)

section Table

/-- `int` in base ten and in base sixteen, none where it raises. -/
structure RouteText where
  int : Line → Option ℤ
  int16 : Line → Option ℤ

/-- A row of the routing table that is up and is not the default. -/
structure Route where
  iface : Line
  network : Block
  onLink : Bool
  metric : ℤ
  height_le : network.height ≤ 32

/-- `bytes.fromhex`. -/
def fromHex : Line → Option (List ℕ)
  | [] => some []
  | [_] => none
  | high :: low :: rest => do
    let first ← hexDigit high
    let second ← hexDigit low
    let bytes ← fromHex rest
    return (first * 16 + second) :: bytes

/-- `_hex_ipv4`: the address whose bytes are printed lowest first. -/
def hexIpv4 (value : Line) : Option ℕ :=
  (fromHex value).bind fun bytes =>
    let address := bytes.foldr (fun byte rest => byte + 256 * rest) 0
    if address < 2 ^ 32 then some address else none

/-- The row that the fields of a line make, none where it is skipped. -/
def parseRoute (t : RouteText) (line : Line) : Option Route :=
  match (line.splitOnP isSpace).filter (· ≠ []) with
  | iface :: destination :: gateway :: flags :: _ :: _ :: metric :: mask :: _ => do
    let flags ← t.int16 flags
    let gateway ← hexIpv4 gateway
    let metric ← t.int metric
    let address ← hexIpv4 destination
    let mask ← hexIpv4 mask
    let length ← netmask4 (printAddress4 mask)
    if flags % 2 = 1 ∧ length > 0 then
      return {
        iface := iface
        network := ⟨32 - length, address / 2 ^ (32 - length)⟩
        onLink := gateway == 0
        metric := metric
        height_le := Nat.sub_le 32 length }
    else none
  | _ => none

def readRoutes (t : RouteText) (table : List Char) : List Route :=
  (table.splitOnP isLineBreak).tail.filterMap (parseRoute t)

end Table

section Interface

/-- `_exclude`. -/
def excludeNetwork (network cut : Block) : List Block :=
  if network ≤ cut then []
  else if cut ≤ network then network.exclude cut
  else [network]

def wins (rival route : Route) : Bool :=
  (prefixlen rival.network > prefixlen route.network ∧ rival.network ≤ route.network) ||
    (rival.network = route.network ∧ ¬ route.metric < rival.metric)

/-- What the rivals of a row leave of its network. -/
def remaining (routes : List Route) (index : ℕ) (route : Route) : List Block :=
  routes.zipIdx.foldl (fun parts (rival, other) =>
    if other = index then parts
    else if wins rival route then parts.flatMap fun part => excludeNetwork part rival.network
    else parts) [route.network]

def routedNetworks (routes : List Route) (interface : Line) : List Block :=
  routes.zipIdx.flatMap fun (route, index) =>
    if route.iface ≠ interface ∨ ¬ route.onLink then [] else remaining routes index route

/-- `interface_networks`, none where the table is unreadable. -/
def interfaceNetworks (t : RouteText) (table : Option (List Char)) (interface : Line) :
    Option (List Block) :=
  table.map fun table => collapse 32 (routedNetworks (readRoutes t table) interface)

end Interface

section Split

/-- The parts of a network that the routes cover. -/
def routedPieces (routes : List Block) (network : Block) : List Block :=
  collapse 32 <| (routes.filter fun route => network ≤ route ∨ route ≤ network).map fun route =>
    if network ≤ route then network else route

def splitByRoutes (networks routes : List Block) : List Block × List Block :=
  let inside := networks.flatMap (routedPieces routes)
  let outside := networks.flatMap fun network =>
    (routedPieces routes network).foldl
      (fun rest piece => rest.flatMap fun part => excludeNetwork part piece) [network]
  (inside.insertionSort Before, (collapse 32 outside).insertionSort Before)

end Split

section Lookup

def Worse (route best : Route) : Prop :=
  prefixlen route.network < prefixlen best.network ∨
    prefixlen route.network = prefixlen best.network ∧ best.metric < route.metric

/-- The longest-prefix, lowest-metric row for an address, every other one being worse. -/
structure Best (routes : List Route) (index : ℕ) (route : Route) (a : ℕ) : Prop where
  row : routes[index]? = some route
  holds : a ∈ route.network
  unmatched : ∀ other rival, routes[other]? = some rival → other ≠ index → a ∈ rival.network →
    Worse rival route

variable {a : ℕ} {routes : List Route} {parts : List Block} {network cut : Block}

theorem covers_flatMap {α : Type} {l : List α} {f : α → List Block} :
    Covers (l.flatMap f) a ↔ ∃ x ∈ l, Covers (f x) a := by
  constructor
  · rintro ⟨b, hb, ha⟩
    obtain ⟨x, hx, hbx⟩ := List.mem_flatMap.mp hb
    exact ⟨x, hx, b, hbx, ha⟩
  · rintro ⟨x, hx, b, hb, ha⟩
    exact ⟨b, List.mem_flatMap.mpr ⟨x, hx, hb⟩, ha⟩

theorem covers_excludeNetwork : Covers (excludeNetwork network cut) a ↔ a ∈ network ∧ a ∉ cut := by
  unfold excludeNetwork
  by_cases hin : network ≤ cut
  · rw [if_pos hin]
    constructor
    · intro h
      exact absurd h covers_nil
    · rintro ⟨ha, hnot⟩
      exact absurd (mem_of_le hin ha) hnot
  · rw [if_neg hin]
    by_cases hcut : cut ≤ network
    · rw [if_pos hcut]
      exact mem_exclude hcut
    · rw [if_neg hcut, covers_cons, or_iff_left covers_nil]
      refine ⟨fun ha => ⟨ha, fun hmem => ?_⟩, fun h => h.1⟩
      exact (le_or_le ha hmem).elim hin hcut

theorem covers_cutAll : Covers (parts.flatMap fun part => excludeNetwork part cut) a ↔
    Covers parts a ∧ a ∉ cut := by
  rw [covers_flatMap]
  simp only [covers_excludeNetwork]
  constructor
  · rintro ⟨part, hpart, ha, hnot⟩
    exact ⟨⟨part, hpart, ha⟩, hnot⟩
  · rintro ⟨⟨part, hpart, ha⟩, hnot⟩
    exact ⟨part, hpart, ha, hnot⟩

theorem covers_foldl {α : Type} {cuts : α → Option Block} (l : List α)
    {step : List Block → α → List Block}
    (hstep : ∀ parts x, Covers (step parts x) a ↔
      Covers parts a ∧ ∀ cut ∈ cuts x, a ∉ cut) :
    Covers (l.foldl step parts) a ↔ Covers parts a ∧ ∀ x ∈ l, ∀ cut ∈ cuts x, a ∉ cut := by
  induction l generalizing parts with
  | nil =>
    refine ⟨fun h => ⟨h, fun x hx => ?_⟩, fun h => h.1⟩
    cases hx
  | cons x rest ih =>
    rw [List.foldl_cons, ih, hstep, and_assoc]
    simp only [List.mem_cons, forall_eq_or_imp]

theorem covers_remaining (index : ℕ) (route : Route) :
    Covers (remaining routes index route) a ↔ a ∈ route.network ∧
      ∀ other rival, routes[other]? = some rival → other ≠ index → wins rival route = true →
        a ∉ rival.network := by
  unfold remaining
  rw [@covers_foldl _ _ _ (fun (rival, other) =>
    if other = index ∨ wins rival route = false then none else some rival.network)]
  · rw [covers_cons, or_iff_left covers_nil]
    refine and_congr_right fun _ => ?_
    constructor
    · intro h other rival hget hne hwins
      have hmem : (rival, other) ∈ routes.zipIdx := List.mk_mem_zipIdx_iff_getElem?.mpr hget
      refine h _ hmem rival.network ?_
      simp [hne, hwins]
    · rintro h ⟨rival, other⟩ hmem cut hcut
      have hget : routes[other]? = some rival := List.mk_mem_zipIdx_iff_getElem?.mp hmem
      simp only at hcut
      split_ifs at hcut with hkeep
      · cases hcut
      · obtain ⟨hne, hwins⟩ := not_or.mp hkeep
        rw [← Option.some.inj hcut]
        exact h other rival hget hne (by simpa using hwins)
  · rintro parts ⟨rival, other⟩
    simp only
    by_cases hsame : other = index
    · simp [hsame]
    · by_cases hwins : wins rival route = true
      · simp [hsame, hwins, covers_cutAll]
      · simp [hsame, hwins]

theorem wins_iff_not_worse {rival route : Route} (hroute : a ∈ route.network)
    (hrival : a ∈ rival.network) : wins rival route = true ↔ ¬ Worse rival route := by
  have hheight := route.height_le
  have hother := rival.height_le
  unfold wins Worse prefixlen
  rw [Bool.or_eq_true, decide_eq_true_eq, decide_eq_true_eq]
  have hequal : rival.network.height = route.network.height ↔ rival.network = route.network := by
    refine ⟨fun h => ?_, fun h => by rw [h]⟩
    exact eq_of_le (le_of_mem hrival hroute h.le) h
  have hnested : rival.network.height ≤ route.network.height → rival.network ≤ route.network :=
    le_of_mem hrival hroute
  rw [← hequal]
  constructor
  · rintro (⟨hlong, _⟩ | ⟨hsame, hmetric⟩) hworse
    · omega
    · omega
  · intro hnot
    by_cases hsame : rival.network.height = route.network.height
    · exact Or.inr ⟨hsame, by omega⟩
    · exact Or.inl ⟨by omega, hnested (by omega)⟩

theorem covers_routedNetworks (interface : Line) :
    Covers (routedNetworks routes interface) a ↔
      ∃ index route, Best routes index route a ∧ route.iface = interface ∧
        route.onLink = true := by
  unfold routedNetworks
  rw [covers_flatMap]
  constructor
  · rintro ⟨⟨route, index⟩, hmem, hcovers⟩
    have hget : routes[index]? = some route := List.mk_mem_zipIdx_iff_getElem?.mp hmem
    simp only at hcovers
    split_ifs at hcovers with hskip
    · exact absurd hcovers covers_nil
    · obtain ⟨hiface, hlink⟩ := not_or.mp hskip
      rw [covers_remaining] at hcovers
      obtain ⟨ha, hrivals⟩ := hcovers
      refine ⟨index, route, ⟨hget, ha, fun other rival hother hne hmem => ?_⟩,
        not_not.mp hiface, not_not.mp hlink⟩
      by_contra hworse
      exact hrivals other rival hother hne ((wins_iff_not_worse ha hmem).mpr hworse) hmem
  · rintro ⟨index, route, hbest, hiface, hlink⟩
    refine ⟨(route, index), List.mk_mem_zipIdx_iff_getElem?.mpr hbest.row, ?_⟩
    simp only
    rw [if_neg (by simp [hiface, hlink]), covers_remaining]
    refine ⟨hbest.holds, fun other rival hget hne hwins hmem => ?_⟩
    have hworse := hbest.unmatched other rival hget hne hmem
    exact (wins_iff_not_worse hbest.holds hmem).mp hwins hworse

end Lookup

section Parts

variable {a : ℕ} {networks routes : List Block} {network : Block}

theorem covers_routedPieces : Covers (routedPieces routes network) a ↔
    a ∈ network ∧ Covers routes a := by
  unfold routedPieces
  rw [covers_collapse]
  constructor
  · rintro ⟨piece, hpiece, ha⟩
    obtain ⟨route, hroute, rfl⟩ := List.mem_map.mp hpiece
    obtain ⟨hmem, hnested⟩ := List.mem_filter.mp hroute
    rw [decide_eq_true_eq] at hnested
    by_cases hle : network ≤ route
    · rw [if_pos hle] at ha
      exact ⟨ha, route, hmem, mem_of_le hle ha⟩
    · rw [if_neg hle] at ha
      exact ⟨mem_of_le (hnested.resolve_left hle) ha, route, hmem, ha⟩
  · rintro ⟨ha, route, hmem, hroute⟩
    refine ⟨if network ≤ route then network else route, List.mem_map.mpr ⟨route, ?_, rfl⟩, ?_⟩
    · exact List.mem_filter.mpr ⟨hmem, decide_eq_true (le_or_le ha hroute)⟩
    · split_ifs
      · exact ha
      · exact hroute

theorem routedPieces_le : ∀ piece ∈ routedPieces routes network, piece ≤ network :=
  fun piece hpiece => le_iff_subset.mpr fun _ ha =>
    (covers_routedPieces.mp ⟨piece, hpiece, ha⟩).1

theorem inside_disjoint (h : networks.Pairwise fun p q => ¬ p.Overlaps q) :
    (networks.flatMap (routedPieces routes)).Pairwise fun p q => ¬ p.Overlaps q := by
  refine List.pairwise_flatMap.mpr ⟨fun network _ => collapse_disjoint 32 _, ?_⟩
  refine h.imp fun {n m} hapart piece hpiece other hother hover => ?_
  obtain ⟨a, ha, hb⟩ := overlaps_iff.mp hover
  exact hapart (overlaps_of_mem (mem_of_le (routedPieces_le piece hpiece) ha)
    (mem_of_le (routedPieces_le other hother) hb))

theorem covers_inside : Covers (splitByRoutes networks routes).1 a ↔
    Covers networks a ∧ Covers routes a := by
  unfold splitByRoutes
  rw [covers_perm (List.perm_insertionSort Before _), covers_flatMap]
  simp only [covers_routedPieces]
  constructor
  · rintro ⟨network, hnetwork, ha, hroutes⟩
    exact ⟨⟨network, hnetwork, ha⟩, hroutes⟩
  · rintro ⟨⟨network, hnetwork, ha⟩, hroutes⟩
    exact ⟨network, hnetwork, ha, hroutes⟩

theorem covers_outside : Covers (splitByRoutes networks routes).2 a ↔
    Covers networks a ∧ ¬ Covers routes a := by
  have hrest (network : Block) :
      Covers ((routedPieces routes network).foldl
        (fun rest piece => rest.flatMap fun part => excludeNetwork part piece) [network]) a ↔
        a ∈ network ∧ ¬ Covers routes a := by
    rw [@covers_foldl _ _ _ some _ _ fun parts piece => by simp [covers_cutAll],
      covers_cons, or_iff_left covers_nil]
    refine and_congr_right fun ha => ?_
    constructor
    · intro h hroutes
      obtain ⟨piece, hpiece, hmem⟩ := covers_routedPieces.mpr ⟨ha, hroutes⟩
      exact h piece hpiece piece rfl hmem
    · rintro hnot piece hpiece cut hcut hmem
      rw [← Option.some.inj hcut] at hmem
      exact hnot (covers_routedPieces.mp ⟨piece, hpiece, hmem⟩).2
  unfold splitByRoutes
  rw [covers_perm (List.perm_insertionSort Before _), covers_collapse, covers_flatMap]
  simp only [hrest]
  constructor
  · rintro ⟨network, hnetwork, ha, hroutes⟩
    exact ⟨⟨network, hnetwork, ha⟩, hroutes⟩
  · rintro ⟨⟨network, hnetwork, ha⟩, hroutes⟩
    exact ⟨network, hnetwork, ha, hroutes⟩

theorem disjoint_of_perm {l l' : List Block} (hperm : l'.Perm l)
    (h : l.Pairwise fun p q => ¬ p.Overlaps q) : l'.Pairwise fun p q => ¬ p.Overlaps q :=
  hperm.symm.pairwise h fun hpq hqp => hpq (overlaps_comm.mp hqp)

/-- What the split gives lies apart, inside and outside alike. -/
theorem split_disjoint (h : networks.Pairwise fun p q => ¬ p.Overlaps q) :
    ((splitByRoutes networks routes).1 ++ (splitByRoutes networks routes).2).Pairwise
      fun p q => ¬ p.Overlaps q := by
  refine List.pairwise_append.mpr ⟨?_, ?_, fun piece hpiece other hother hover => ?_⟩
  · exact disjoint_of_perm (List.perm_insertionSort Before _) (inside_disjoint h)
  · exact disjoint_of_perm (List.perm_insertionSort Before _) (collapse_disjoint 32 _)
  · obtain ⟨a, ha, hb⟩ := overlaps_iff.mp hover
    exact (covers_outside.mp ⟨other, hother, hb⟩).2 (covers_inside.mp ⟨piece, hpiece, ha⟩).2

/-- The routing split agrees with a lookup of each address. -/
theorem routing_split (t : RouteText) (table : List Char) (interface : Line) :
    (∃ found, interfaceNetworks t (some table) interface = some found ∧
      ∀ a, Covers found a ↔ ∃ index route, Best (readRoutes t table) index route a ∧
        route.iface = interface ∧ route.onLink = true) ∧
    ∀ networks routes : List Block, networks.Pairwise (fun p q => ¬ p.Overlaps q) →
      ((splitByRoutes networks routes).1 ++ (splitByRoutes networks routes).2).Pairwise
        (fun p q => ¬ p.Overlaps q) ∧
      ∀ a, (Covers (splitByRoutes networks routes).1 a ∨
          Covers (splitByRoutes networks routes).2 a ↔ Covers networks a) ∧
        (Covers (splitByRoutes networks routes).1 a ↔ Covers networks a ∧ Covers routes a) := by
  refine ⟨⟨_, rfl, fun a => ?_⟩, fun networks routes h => ⟨split_disjoint h, fun a => ⟨?_, ?_⟩⟩⟩
  · rw [covers_collapse]
    exact covers_routedNetworks interface
  · rw [covers_inside, covers_outside]
    tauto
  · exact covers_inside

def plainText : RouteText where
  int text := (numeral 10 decDigit text).map Int.ofNat
  int16 text := (numeral 16 hexDigit text).map Int.ofNat

open L2Selection (cidr) in
theorem routing_split_halves :
    splitByRoutes [cidr 10 0 0 0 24, cidr 10 0 2 0 24] [cidr 10 0 0 128 25, cidr 10 0 2 0 23] =
        ([cidr 10 0 0 128 25, cidr 10 0 2 0 24], [cidr 10 0 0 0 25]) ∧
      [cidr 10 0 0 128 25, cidr 10 0 2 0 24, cidr 10 0 0 0 25].Pairwise
        (fun p q => ¬ p.Overlaps q) := by
  have hsplit : splitByRoutes [cidr 10 0 0 0 24, cidr 10 0 2 0 24]
      [cidr 10 0 0 128 25, cidr 10 0 2 0 23] =
        ([cidr 10 0 0 128 25, cidr 10 0 2 0 24], [cidr 10 0 0 0 25]) := by
    decide +kernel
  have hapart := ((routing_split plainText [] []).2 [cidr 10 0 0 0 24, cidr 10 0 2 0 24]
    [cidr 10 0 0 128 25, cidr 10 0 2 0 23] (by decide)).1
  rw [hsplit] at hapart
  exact ⟨hsplit, hapart⟩

end Parts

end Shapoclyack.L2Routing
