import Shapoclyack.Library.Chunks
import Shapoclyack.Library.CollapsedBlocks
import Shapoclyack.Library.IpNetworks
import Shapoclyack.ResumedBatches

set_option autoImplicit false

namespace Shapoclyack.DiscoveryBatches

open Library
open ResumedBatches (Line strip)

section Settings

/-- `BatchingConfig`. -/
structure BatchSettings where
  ipv4Prefix : ℕ
  ipv6Prefix : ℕ
  maxIpv6Batches : ℕ
  maxTargetsPerBatch : ℕ
  ipv4_bounds : 8 ≤ ipv4Prefix ∧ ipv4Prefix ≤ 30
  ipv6_bounds : 64 ≤ ipv6Prefix ∧ ipv6Prefix ≤ 124
  batches_bounds : 1 ≤ maxIpv6Batches ∧ maxIpv6Batches ≤ 1000000
  targets_bounds : 1 ≤ maxTargetsPerBatch ∧ maxTargetsPerBatch ≤ 1000000

def BatchSettings.prefixOf (s : BatchSettings) : Version → ℕ
  | .v4 => s.ipv4Prefix
  | .v6 => s.ipv6Prefix

/-- What `expand_batches` raises: the size of an IPv6 target, or two versions that do not sort. -/
inductive BatchError where
  | ipv6Size (target : Network) (requested newPrefix limit : ℕ)
  | unlikeVersions
deriving DecidableEq

abbrev Batch := Line × List Line

end Settings

section Batches

variable (digest : Line → Line) (s : BatchSettings)

/-- `subnets(new_prefix=..)`. -/
def subnets (net : Network) (newPrefix : ℕ) : List Network :=
  (net.block.pieces (net.version.bits - newPrefix)).filterMap fun piece =>
    Network.of? net.version piece none

/-- Texts as `sorted` orders them. -/
def sortTexts (texts : List Line) : List Line := texts.insertionSort (· ≤ ·)

/-- `batch_id`, whose hash is a parameter. -/
def batchId (members : List Line) : Line := digest ([','].intercalate (sortTexts members))

/-- What the loop over the targets gathers. -/
structure Gathered where
  subnetBatches : List Network
  singles : List Line
  generatedIpv6 : ℕ

def gather : List Line → Gathered → Except BatchError Gathered
  | [], g => .ok g
  | raw :: rest, g =>
    let value := strip raw
    if value = [] then gather rest g
    else
      match ipNetwork value with
      | some net =>
        if net.version = .v4 ∧ net.prefixlen < s.ipv4Prefix then
          gather rest { g with subnetBatches := g.subnetBatches ++ subnets net s.ipv4Prefix }
        else if net.version = .v6 ∧ net.prefixlen < s.ipv6Prefix then
          let requested := 2 ^ (s.ipv6Prefix - net.prefixlen)
          if g.generatedIpv6 + requested > s.maxIpv6Batches then
            .error (.ipv6Size net requested s.ipv6Prefix s.maxIpv6Batches)
          else
            gather rest {
              subnetBatches := g.subnetBatches ++ subnets net s.ipv6Prefix
              singles := g.singles
              generatedIpv6 := g.generatedIpv6 + requested }
        else gather rest { g with singles := g.singles ++ [value] }
      | none => gather rest { g with singles := g.singles ++ [value] }

/-- How networks of one version compare. -/
def NetBefore (n m : Network) : Prop := Block.Before n.block m.block

instance : DecidableRel NetBefore := fun _ _ => inferInstanceAs (Decidable (Block.Before _ _))

/-- Networks as `sorted` orders them; two of unlike versions do not compare. -/
def sortNetworks (networks : List Network) : Except BatchError (List Network) :=
  if (∃ n ∈ networks, n.version = .v4) ∧ (∃ n ∈ networks, n.version = .v6) then
    .error .unlikeVersions
  else .ok (networks.insertionSort NetBefore)

def expandBatches (targets : List Line) : Except BatchError (List Batch) := do
  let g ← gather s targets ⟨[], [], 0⟩
  let cidrs ← sortNetworks g.subnetBatches.dedup
  return cidrs.map (fun n => (batchId digest [n.print], [n.print])) ++
    (chunks (max 1 s.maxTargetsPerBatch) (sortTexts g.singles.dedup)).map
      fun chunk => (batchId digest chunk, chunk)

end Batches

section Targets

variable (s : BatchSettings)

/-- The network a target is split from, none where it is not wide enough to be. -/
def splitOf (raw : Line) : Option Network :=
  (ipNetwork (strip raw)).filter fun net => net.prefixlen < s.prefixOf net.version

def piecesOf (raw : Line) : List Network :=
  match splitOf s raw with
  | some net => subnets net (s.prefixOf net.version)
  | none => []

def singleOf (raw : Line) : Option Line :=
  if strip raw = [] ∨ (splitOf s raw).isSome then none else some (strip raw)

def requestedBy (raw : Line) : ℕ :=
  match splitOf s raw with
  | some net => if net.version = .v6 then 2 ^ (s.ipv6Prefix - net.prefixlen) else 0
  | none => 0

def Gathered.add (g : Gathered) (raw : Line) : Gathered where
  subnetBatches := g.subnetBatches ++ piecesOf s raw
  singles := g.singles ++ (singleOf s raw).toList
  generatedIpv6 := g.generatedIpv6 + requestedBy s raw

variable {s} {g : Gathered} {raw : Line}

theorem ipNetwork_nil : ipNetwork [] = none := by decide

theorem splitOf_some {net : Network} (hparse : ipNetwork (strip raw) = some net) :
    splitOf s raw = if net.prefixlen < s.prefixOf net.version then some net else none := by
  unfold splitOf
  rw [hparse, Option.filter_some]
  simp only [decide_eq_true_eq]

theorem splitOf_none (hparse : ipNetwork (strip raw) = none) : splitOf s raw = none := by
  unfold splitOf
  rw [hparse, Option.filter_none]

theorem add_whole (hsplit : splitOf s raw = none) (hvalue : strip raw ≠ []) :
    g.add s raw = { g with singles := g.singles ++ [strip raw] } := by
  unfold Gathered.add piecesOf requestedBy singleOf
  rw [hsplit, if_neg (by simpa using hvalue)]
  simp only [List.append_nil, Nat.add_zero, Option.toList_some]

theorem add_blank (hvalue : strip raw = []) : g.add s raw = g := by
  have hsplit : splitOf s raw = none := splitOf_none (by rw [hvalue, ipNetwork_nil])
  unfold Gathered.add piecesOf requestedBy singleOf
  rw [hsplit, if_pos (Or.inl hvalue)]
  simp only [List.append_nil, Nat.add_zero, Option.toList_none]

theorem add_split {net : Network} (hsplit : splitOf s raw = some net) :
    g.add s raw = ⟨g.subnetBatches ++ subnets net (s.prefixOf net.version), g.singles,
      g.generatedIpv6 + requestedBy s raw⟩ := by
  unfold Gathered.add piecesOf singleOf
  rw [hsplit]
  simp only [Option.isSome_some, or_true, if_true, Option.toList_none, List.append_nil]

theorem gather_cons (rest : List Line) :
    (g.generatedIpv6 + requestedBy s raw ≤ s.maxIpv6Batches →
      gather s (raw :: rest) g = gather s rest (g.add s raw)) ∧
    (g.generatedIpv6 ≤ s.maxIpv6Batches → s.maxIpv6Batches < g.generatedIpv6 + requestedBy s raw →
      ∃ net requested, gather s (raw :: rest) g =
        .error (.ipv6Size net requested s.ipv6Prefix s.maxIpv6Batches)) := by
  rw [gather]
  simp only
  by_cases hvalue : strip raw = []
  · have hsplit : splitOf s raw = none := splitOf_none (by rw [hvalue, ipNetwork_nil])
    have hzero : requestedBy s raw = 0 := by
      unfold requestedBy
      rw [hsplit]
    rw [if_pos hvalue, add_blank hvalue, hzero]
    refine ⟨fun _ => rfl, fun hle hlt => ?_⟩
    omega
  · rw [if_neg hvalue]
    cases hparse : ipNetwork (strip raw) with
    | none =>
      have hsplit : splitOf s raw = none := splitOf_none hparse
      have hzero : requestedBy s raw = 0 := by
        unfold requestedBy
        rw [hsplit]
      rw [add_whole hsplit hvalue, hzero]
      refine ⟨fun _ => rfl, fun hle hlt => ?_⟩
      omega
    | some net =>
      have hsplit := splitOf_some (s := s) hparse
      simp only
      cases hversion : net.version with
      | v4 =>
        rw [hversion] at hsplit
        by_cases hwide : net.prefixlen < s.ipv4Prefix
        · rw [if_pos ⟨rfl, hwide⟩]
          rw [show s.prefixOf .v4 = s.ipv4Prefix from rfl, if_pos hwide] at hsplit
          have hzero : requestedBy s raw = 0 := by
            unfold requestedBy
            rw [hsplit]
            exact if_neg (by rw [hversion]; decide)
          rw [add_split hsplit, hzero, hversion]
          refine ⟨fun _ => rfl, fun hle hlt => ?_⟩
          omega
        · rw [if_neg (fun h => hwide h.2), if_neg (fun h => by cases h.1)]
          rw [show s.prefixOf .v4 = s.ipv4Prefix from rfl, if_neg hwide] at hsplit
          have hzero : requestedBy s raw = 0 := by
            unfold requestedBy
            rw [hsplit]
          rw [add_whole hsplit hvalue, hzero]
          refine ⟨fun _ => rfl, fun hle hlt => ?_⟩
          omega
      | v6 =>
        rw [hversion] at hsplit
        rw [if_neg (fun h => by cases h.1)]
        by_cases hwide : net.prefixlen < s.ipv6Prefix
        · rw [if_pos ⟨rfl, hwide⟩]
          rw [show s.prefixOf .v6 = s.ipv6Prefix from rfl, if_pos hwide] at hsplit
          have hrequested : requestedBy s raw = 2 ^ (s.ipv6Prefix - net.prefixlen) := by
            unfold requestedBy
            rw [hsplit]
            exact if_pos hversion
          rw [add_split hsplit, hrequested, hversion]
          constructor
          · intro hle
            rw [if_neg (Nat.not_lt.mpr hle)]
            rfl
          · intro _ hlt
            rw [if_pos hlt]
            exact ⟨_, _, rfl⟩
        · rw [if_neg (fun h => hwide h.2)]
          rw [show s.prefixOf .v6 = s.ipv6Prefix from rfl, if_neg hwide] at hsplit
          have hzero : requestedBy s raw = 0 := by
            unfold requestedBy
            rw [hsplit]
          rw [add_whole hsplit hvalue, hzero]
          refine ⟨fun _ => rfl, fun hle hlt => ?_⟩
          omega

variable (s) in
def requestedTotal (targets : List Line) : ℕ := (targets.map (requestedBy s)).sum

theorem gather_ok {targets : List Line}
    (h : g.generatedIpv6 + requestedTotal s targets ≤ s.maxIpv6Batches) :
    gather s targets g = .ok ⟨g.subnetBatches ++ targets.flatMap (piecesOf s),
      g.singles ++ targets.filterMap (singleOf s), g.generatedIpv6 + requestedTotal s targets⟩ := by
  induction targets generalizing g with
  | nil => simp [gather, requestedTotal]
  | cons raw rest ih =>
    have hsum : requestedTotal s (raw :: rest) = requestedBy s raw + requestedTotal s rest := by
      unfold requestedTotal
      rw [List.map_cons, List.sum_cons]
    rw [hsum] at h ⊢
    rw [(gather_cons rest).1 (by omega), ih (by simp only [Gathered.add]; omega)]
    have hsingles : (singleOf s raw).toList ++ rest.filterMap (singleOf s) =
        (raw :: rest).filterMap (singleOf s) := by
      rw [List.filterMap_cons]
      cases singleOf s raw with
      | none => rfl
      | some value => rfl
    simp only [Gathered.add, List.append_assoc, List.flatMap_cons, hsingles, Nat.add_assoc]

theorem gather_error {targets : List Line} (hfits : g.generatedIpv6 ≤ s.maxIpv6Batches)
    (h : s.maxIpv6Batches < g.generatedIpv6 + requestedTotal s targets) :
    ∃ net requested, gather s targets g =
      .error (.ipv6Size net requested s.ipv6Prefix s.maxIpv6Batches) := by
  induction targets generalizing g with
  | nil =>
    simp only [requestedTotal, List.map_nil, List.sum_nil] at h
    omega
  | cons raw rest ih =>
    have hsum : requestedTotal s (raw :: rest) = requestedBy s raw + requestedTotal s rest := by
      unfold requestedTotal
      rw [List.map_cons, List.sum_cons]
    rw [hsum] at h
    by_cases hnext : g.generatedIpv6 + requestedBy s raw ≤ s.maxIpv6Batches
    · rw [(gather_cons rest).1 hnext]
      exact ih hnext (by simp only [Gathered.add]; omega)
    · exact (gather_cons rest).2 hfits (by omega)

end Targets

section Pieces

variable {s : BatchSettings} {net piece : Network} {newPrefix : ℕ}

theorem mem_subnets : piece ∈ subnets net newPrefix ↔
    piece.block ∈ net.block.pieces (net.version.bits - newPrefix) ∧
      piece.version = net.version ∧ piece.scopeId = none := by
  unfold subnets
  rw [List.mem_filterMap]
  constructor
  · rintro ⟨block, hblock, hof⟩
    obtain ⟨hversion, heq, hscope⟩ := Network.of?_eq_some.mp hof
    exact ⟨heq ▸ hblock, hversion, hscope⟩
  · rintro ⟨hblock, hversion, hscope⟩
    exact ⟨piece.block, hblock, Network.of?_eq_some.mpr ⟨hversion, rfl, hscope⟩⟩

theorem holds_subnets (h : net.prefixlen ≤ newPrefix) {a : Address} :
    (∃ piece ∈ subnets net newPrefix, piece.Holds a) ↔ net.Holds a := by
  have hheight : net.version.bits - newPrefix ≤ net.block.height := by
    have := net.height_le
    unfold Network.prefixlen at h
    omega
  constructor
  · rintro ⟨piece, hpiece, hv, ha⟩
    obtain ⟨hblock, hversion, _⟩ := mem_subnets.mp hpiece
    exact ⟨hversion.symm.trans hv, (Block.mem_pieces hheight).mp ⟨_, hblock, ha⟩⟩
  · rintro ⟨hv, ha⟩
    obtain ⟨block, hblock, hmem⟩ := (Block.mem_pieces hheight).mpr ha
    have hwithin : block ≤ net.version.space :=
      (Block.le_of_mem_pieces hheight hblock).trans net.within
    exact ⟨⟨net.version, block, none, hwithin, fun _ hz => by cases hz⟩,
      mem_subnets.mpr ⟨hblock, rfl, rfl⟩, hv, hmem⟩

theorem splitOf_wide {raw : Line} (h : splitOf s raw = some net) :
    ipNetwork (strip raw) = some net ∧ net.prefixlen < s.prefixOf net.version := by
  obtain ⟨hparse, hwide⟩ := Option.filter_eq_some_iff.mp h
  exact ⟨hparse, of_decide_eq_true hwide⟩

theorem mem_piecesOf {raw : Line} : piece ∈ piecesOf s raw ↔
    ∃ net, splitOf s raw = some net ∧ piece ∈ subnets net (s.prefixOf net.version) := by
  unfold piecesOf
  cases hsplit : splitOf s raw with
  | none =>
    constructor
    · intro h
      cases h
    · rintro ⟨net, heq, _⟩
      cases heq
  | some net =>
    constructor
    · intro h
      exact ⟨net, rfl, h⟩
    · rintro ⟨_, heq, h⟩
      rw [Option.some.inj heq]
      exact h

theorem singleOf_eq {raw value : Line} : singleOf s raw = some value ↔
    strip raw ≠ [] ∧ splitOf s raw = none ∧ value = strip raw := by
  unfold singleOf
  split_ifs with hskip
  · constructor
    · intro h
      cases h
    · rintro ⟨hvalue, hsplit, _⟩
      rw [hsplit] at hskip
      exact absurd hskip (by simpa using hvalue)
  · obtain ⟨hvalue, hsplit⟩ := not_or.mp hskip
    rw [Option.some.injEq]
    refine ⟨fun h => ⟨hvalue, ?_, h.symm⟩, fun h => h.2.2.symm⟩
    exact Option.not_isSome_iff_eq_none.mp hsplit

end Pieces

section Outcome

variable (s : BatchSettings) (targets : List Line)

def allPieces : List Network := targets.flatMap (piecesOf s)

def singles : List Line := sortTexts (targets.filterMap (singleOf s)).dedup

def Unlike : Prop :=
  (∃ raw ∈ targets, ∃ net, splitOf s raw = some net ∧ net.version = .v4) ∧
    ∃ raw ∈ targets, ∃ net, splitOf s raw = some net ∧ net.version = .v6

variable {s targets} {digest : Line → Line}

theorem exists_piece {raw : Line} {net : Network} (h : splitOf s raw = some net) :
    ∃ piece ∈ piecesOf s raw, piece.version = net.version := by
  have hwide := (splitOf_wide h).2
  obtain ⟨piece, hpiece, hv, _⟩ := (holds_subnets hwide.le).mpr net.holds_networkAddress
  exact ⟨piece, mem_piecesOf.mpr ⟨net, h, hpiece⟩, hv⟩

theorem exists_version {version : Version} :
    (∃ n ∈ (allPieces s targets).dedup, n.version = version) ↔
      ∃ raw ∈ targets, ∃ net, splitOf s raw = some net ∧ net.version = version := by
  constructor
  · rintro ⟨piece, hpiece, hversion⟩
    rw [List.mem_dedup] at hpiece
    obtain ⟨raw, hraw, hin⟩ := List.mem_flatMap.mp hpiece
    obtain ⟨net, hsplit, hsub⟩ := mem_piecesOf.mp hin
    exact ⟨raw, hraw, net, hsplit, (mem_subnets.mp hsub).2.1.symm.trans hversion⟩
  · rintro ⟨raw, hraw, net, hsplit, hversion⟩
    obtain ⟨piece, hpiece, hsame⟩ := exists_piece hsplit
    refine ⟨piece, List.mem_dedup.mpr (List.mem_flatMap.mpr ⟨raw, hraw, hpiece⟩), ?_⟩
    exact hsame.trans hversion

def batchesOf (digest : Line → Line) (s : BatchSettings) (targets : List Line) : List Batch :=
  ((allPieces s targets).dedup.insertionSort NetBefore).map
      (fun n => (batchId digest [n.print], [n.print])) ++
    (chunks s.maxTargetsPerBatch (singles s targets)).map fun chunk => (batchId digest chunk, chunk)

def idTexts (s : BatchSettings) (targets : List Line) : List Line :=
  (allPieces s targets).map Network.print ++
    (chunks s.maxTargetsPerBatch (singles s targets)).map [','].intercalate

/-- The hash tells apart what the batches of this list are identified by. -/
def CollisionFree (digest : Line → Line) (s : BatchSettings) (targets : List Line) : Prop :=
  ∀ a ∈ idTexts s targets, ∀ b ∈ idTexts s targets, digest a = digest b → a = b

theorem expandBatches_size (h : s.maxIpv6Batches < requestedTotal s targets) :
    ∃ net requested, expandBatches digest s targets =
      .error (.ipv6Size net requested s.ipv6Prefix s.maxIpv6Batches) := by
  obtain ⟨net, requested, hgather⟩ := @gather_error s ⟨[], [], 0⟩ targets
    (Nat.zero_le _) (by rw [Nat.zero_add]; exact h)
  refine ⟨net, requested, ?_⟩
  unfold expandBatches
  rw [hgather]
  rfl

theorem expandBatches_fits (h : requestedTotal s targets ≤ s.maxIpv6Batches) :
    (Unlike s targets → expandBatches digest s targets = .error .unlikeVersions) ∧
      (¬ Unlike s targets → expandBatches digest s targets = .ok (batchesOf digest s targets)) := by
  have hgather := @gather_ok s ⟨[], [], 0⟩ targets
    (by rw [Nat.zero_add]; exact h)
  have hsize : max 1 s.maxTargetsPerBatch = s.maxTargetsPerBatch :=
    Nat.max_eq_right s.targets_bounds.1
  have hboth : ((∃ n ∈ (allPieces s targets).dedup, n.version = .v4) ∧
      ∃ n ∈ (allPieces s targets).dedup, n.version = .v6) ↔ Unlike s targets := by
    rw [exists_version, exists_version]
    exact Iff.rfl
  have hexpand : expandBatches digest s targets =
      (sortNetworks (allPieces s targets).dedup).bind fun cidrs => .ok
        (cidrs.map (fun n => (batchId digest [n.print], [n.print])) ++
          (chunks s.maxTargetsPerBatch (singles s targets)).map
            fun chunk => (batchId digest chunk, chunk)) := by
    unfold expandBatches
    rw [hgather, hsize]
    rfl
  constructor
  · intro hunlike
    have hsort : sortNetworks (allPieces s targets).dedup = .error .unlikeVersions := by
      unfold sortNetworks
      exact if_pos (hboth.mpr hunlike)
    rw [hexpand, hsort]
    rfl
  · intro hlike
    have hsort : sortNetworks (allPieces s targets).dedup =
        .ok ((allPieces s targets).dedup.insertionSort NetBefore) := by
      unfold sortNetworks
      exact if_neg fun h => hlike (hboth.mp h)
    rw [hexpand, hsort]
    rfl

end Outcome

section Promise

inductive Item where
  | address (a : Address)
  | name (text : Line)

/-- What a list of texts denotes. -/
def Denotes (texts : List Line) : Item → Prop
  | .address a => ∃ text ∈ texts, ∃ n, ipNetwork text = some n ∧ n.Holds a
  | .name text => text ∈ texts ∧ ipNetwork text = none

def Writes (texts : List Line) (n : Network) : Prop := ∃ text ∈ texts, ipNetwork text = some n

def stated (targets : List Line) : List Line := (targets.map strip).filter (· ≠ [])

/-- Two outcomes that agree but for which target an error names. -/
inductive SameOutcome : Except BatchError (List Batch) → Except BatchError (List Batch) → Prop
  | ok (batches : List Batch) : SameOutcome (.ok batches) (.ok batches)
  | size (n m : Network) (p q prefix6 limit : ℕ) :
    SameOutcome (.error (.ipv6Size n p prefix6 limit)) (.error (.ipv6Size m q prefix6 limit))
  | unlike : SameOutcome (.error .unlikeVersions) (.error .unlikeVersions)

/-- What the batches of a target list promise. -/
structure Meets (digest : Line → Line) (s : BatchSettings) (targets : List Line) : Prop where
  documented : ∀ e, expandBatches digest s targets = .error e →
    ∃ net requested, e = .ipv6Size net requested s.ipv6Prefix s.maxIpv6Batches
  covers : ∀ batches, expandBatches digest s targets = .ok batches →
    ∀ item, Denotes (batches.flatMap Prod.snd) item ↔ Denotes (stated targets) item
  apart : ∀ batches, expandBatches digest s targets = .ok batches →
    batches.Pairwise fun p q => ∀ n, ¬ (Writes p.2 n ∧ Writes q.2 n)
  ids : ∀ batches, expandBatches digest s targets = .ok batches →
    batches.Pairwise fun p q => (∃ text, ¬ (text ∈ p.2 ↔ text ∈ q.2)) → p.1 ≠ q.1
  unordered : ∀ others, others.Perm targets →
    SameOutcome (expandBatches digest s others) (expandBatches digest s targets)

/-- When the batches keep it: a list that fits splits networks of one version only, keeps none
whole that is a piece of another, has every spelling of a network in one chunk, and no two chunks
whose members read the same with commas between. -/
structure Separable (s : BatchSettings) (targets : List Line) : Prop where
  alike : ¬ Unlike s targets
  whole : ∀ text ∈ singles s targets, ∀ n ∈ allPieces s targets, ipNetwork text ≠ some n
  spellings : ∀ i j a b n, (singles s targets)[i]? = some a → (singles s targets)[j]? = some b →
    ipNetwork a = some n → ipNetwork b = some n →
    i / s.maxTargetsPerBatch = j / s.maxTargetsPerBatch
  joined : (chunks s.maxTargetsPerBatch (singles s targets)).Pairwise fun c d =>
    [','].intercalate c ≠ [','].intercalate d

end Promise

section Members

variable {s : BatchSettings} {targets : List Line} {digest : Line → Line}

theorem mem_singles {text : Line} :
    text ∈ singles s targets ↔ ∃ raw ∈ targets, singleOf s raw = some text := by
  unfold singles sortTexts
  rw [List.mem_insertionSort, List.mem_dedup, List.mem_filterMap]

theorem singles_nodup : (singles s targets).Nodup :=
  (List.perm_insertionSort _ _).nodup_iff.mpr (List.nodup_dedup _)

theorem singles_sorted : (singles s targets).Pairwise (· ≤ ·) := List.pairwise_insertionSort _ _

theorem mem_members {text : Line} :
    text ∈ (batchesOf digest s targets).flatMap Prod.snd ↔
      (∃ n ∈ allPieces s targets, text = n.print) ∨ text ∈ singles s targets := by
  unfold batchesOf
  rw [List.flatMap_append, List.mem_append]
  refine or_congr ?_ ?_
  · rw [List.mem_flatMap]
    constructor
    · rintro ⟨batch, hbatch, htext⟩
      obtain ⟨n, hn, rfl⟩ := List.mem_map.mp hbatch
      rw [List.mem_insertionSort, List.mem_dedup] at hn
      exact ⟨n, hn, List.mem_singleton.mp htext⟩
    · rintro ⟨n, hn, rfl⟩
      refine ⟨_, List.mem_map_of_mem ?_, List.mem_singleton_self _⟩
      rw [List.mem_insertionSort, List.mem_dedup]
      exact hn
  · rw [List.mem_flatMap, ← @mem_chunks _ _ (singles s targets) s.targets_bounds.1]
    constructor
    · rintro ⟨batch, hbatch, htext⟩
      obtain ⟨chunk, hchunk, rfl⟩ := List.mem_map.mp hbatch
      exact ⟨chunk, hchunk, htext⟩
    · rintro ⟨chunk, hchunk, htext⟩
      exact ⟨_, List.mem_map_of_mem hchunk, htext⟩

theorem mem_stated {text : Line} :
    text ∈ stated targets ↔ ∃ raw ∈ targets, strip raw = text ∧ text ≠ [] := by
  unfold stated
  rw [List.mem_filter, List.mem_map]
  constructor
  · rintro ⟨⟨raw, hraw, heq⟩, hne⟩
    exact ⟨raw, hraw, heq, of_decide_eq_true hne⟩
  · rintro ⟨raw, hraw, heq, hne⟩
    exact ⟨⟨raw, hraw, heq⟩, decide_eq_true hne⟩

theorem ne_nil_of_parses {text : Line} {n : Network} (h : ipNetwork text = some n) :
    text ≠ [] := by
  rintro rfl
  rw [ipNetwork_nil] at h
  cases h

/-- The batches denote what the targets do. -/
theorem denotes_members (item : Item) :
    Denotes ((batchesOf digest s targets).flatMap Prod.snd) item ↔
      Denotes (stated targets) item := by
  cases item with
  | address a =>
    constructor
    · rintro ⟨text, htext, n, hparse, ha⟩
      cases mem_members.mp htext with
      | inl hpiece =>
        obtain ⟨piece, hpiece, rfl⟩ := hpiece
        rw [ipNetwork_print, Option.some.injEq] at hparse
        obtain ⟨raw, hraw, hin⟩ := List.mem_flatMap.mp hpiece
        obtain ⟨net, hsplit, hsub⟩ := mem_piecesOf.mp hin
        obtain ⟨hread, hwide⟩ := splitOf_wide hsplit
        have hholds := (holds_subnets hwide.le).mp ⟨piece, hsub, hparse ▸ ha⟩
        exact ⟨strip raw, mem_stated.mpr ⟨raw, hraw, rfl, ne_nil_of_parses hread⟩, net, hread,
          hholds⟩
      | inr hsingle =>
        obtain ⟨raw, hraw, hsingle⟩ := mem_singles.mp hsingle
        obtain ⟨hne, _, rfl⟩ := singleOf_eq.mp hsingle
        exact ⟨strip raw, mem_stated.mpr ⟨raw, hraw, rfl, hne⟩, n, hparse, ha⟩
    · rintro ⟨text, htext, n, hparse, ha⟩
      obtain ⟨raw, hraw, rfl, hne⟩ := mem_stated.mp htext
      cases hsplit : splitOf s raw with
      | none =>
        have hsingle := singleOf_eq.mpr ⟨hne, hsplit, rfl⟩
        exact ⟨strip raw, mem_members.mpr (Or.inr (mem_singles.mpr ⟨raw, hraw, hsingle⟩)), n,
          hparse, ha⟩
      | some net =>
        obtain ⟨hread, hwide⟩ := splitOf_wide hsplit
        rw [hparse] at hread
        have hsame : n = net := Option.some.inj hread
        obtain ⟨piece, hpiece, hholds⟩ := (holds_subnets hwide.le).mpr (hsame ▸ ha)
        have hin : piece ∈ allPieces s targets :=
          List.mem_flatMap.mpr ⟨raw, hraw, mem_piecesOf.mpr ⟨net, hsplit, hpiece⟩⟩
        exact ⟨piece.print, mem_members.mpr (Or.inl ⟨piece, hin, rfl⟩), piece,
          ipNetwork_print piece, hholds⟩
  | name text =>
    constructor
    · rintro ⟨htext, hparse⟩
      cases mem_members.mp htext with
      | inl hpiece =>
        obtain ⟨piece, _, rfl⟩ := hpiece
        rw [ipNetwork_print] at hparse
        cases hparse
      | inr hsingle =>
        obtain ⟨raw, hraw, hsingle⟩ := mem_singles.mp hsingle
        obtain ⟨hne, _, rfl⟩ := singleOf_eq.mp hsingle
        exact ⟨mem_stated.mpr ⟨raw, hraw, rfl, hne⟩, hparse⟩
    · rintro ⟨htext, hparse⟩
      obtain ⟨raw, hraw, rfl, hne⟩ := mem_stated.mp htext
      have hsingle := singleOf_eq.mpr ⟨hne, splitOf_none (s := s) hparse, rfl⟩
      exact ⟨mem_members.mpr (Or.inr (mem_singles.mpr ⟨raw, hraw, hsingle⟩)), hparse⟩

theorem writes_piece {n k : Network} : Writes [n.print] k ↔ n = k := by
  constructor
  · rintro ⟨text, htext, hparse⟩
    rw [List.mem_singleton.mp htext, ipNetwork_print] at hparse
    exact Option.some.inj hparse
  · rintro rfl
    exact ⟨_, List.mem_singleton_self _, ipNetwork_print n⟩

theorem sorted_pieces_nodup :
    ((allPieces s targets).dedup.insertionSort NetBefore).Nodup :=
  (List.perm_insertionSort _ _).nodup_iff.mpr (List.nodup_dedup _)

theorem mem_sorted_pieces {n : Network} :
    n ∈ (allPieces s targets).dedup.insertionSort NetBefore ↔ n ∈ allPieces s targets := by
  rw [List.mem_insertionSort, List.mem_dedup]

theorem chunks_apart_iff :
    (chunks s.maxTargetsPerBatch (singles s targets)).Pairwise
        (fun c d => ∀ n, ¬ (Writes c n ∧ Writes d n)) ↔
      ∀ i j a b n, (singles s targets)[i]? = some a → (singles s targets)[j]? = some b →
        ipNetwork a = some n → ipNetwork b = some n →
        i / s.maxTargetsPerBatch = j / s.maxTargetsPerBatch := by
  have hsize := s.targets_bounds.1
  have hchunk (place : ℕ) (text : Line) (h : (singles s targets)[place]? = some text) :
      (chunks s.maxTargetsPerBatch (singles s targets))[place / s.maxTargetsPerBatch]? =
        some (chunkAt s.maxTargetsPerBatch (singles s targets) (place / s.maxTargetsPerBatch)) := by
    have hlt := (List.getElem?_eq_some_iff.mp h).1
    have hle := Nat.div_mul_le_self place s.maxTargetsPerBatch
    exact (chunks_getElem? hsize).mpr ⟨by omega, rfl⟩
  rw [List.pairwise_iff_getElem]
  constructor
  · intro h i j a b n ha hb hreada hreadb
    have hwrites (place : ℕ) (text : Line) (hget : (singles s targets)[place]? = some text)
        (hread : ipNetwork text = some n) :
        Writes (chunkAt s.maxTargetsPerBatch (singles s targets)
          (place / s.maxTargetsPerBatch)) n :=
      ⟨text, (mem_chunkAt hsize).mpr ⟨place, hget, rfl⟩, hread⟩
    obtain ⟨hi, hci⟩ := List.getElem?_eq_some_iff.mp (hchunk i a ha)
    obtain ⟨hj, hcj⟩ := List.getElem?_eq_some_iff.mp (hchunk j b hb)
    by_contra hne
    cases Nat.lt_or_gt_of_ne hne with
    | inl hlt =>
      have hno := h _ _ hi hj hlt n
      rw [hci, hcj] at hno
      exact hno ⟨hwrites i a ha hreada, hwrites j b hb hreadb⟩
    | inr hgt =>
      have hno := h _ _ hj hi hgt n
      rw [hci, hcj] at hno
      exact hno ⟨hwrites j b hb hreadb, hwrites i a ha hreada⟩
  · intro h i j hi hj hlt n hboth
    obtain ⟨⟨a, ha, hreada⟩, b, hb, hreadb⟩ := hboth
    have hci := (chunks_getElem? hsize).mp (List.getElem?_eq_getElem hi)
    have hcj := (chunks_getElem? hsize).mp (List.getElem?_eq_getElem hj)
    rw [hci.2] at ha
    rw [hcj.2] at hb
    obtain ⟨p, hp, hpi⟩ := (mem_chunkAt hsize).mp ha
    obtain ⟨q, hq, hqj⟩ := (mem_chunkAt hsize).mp hb
    have hsame := h p q a b n hp hq hreada hreadb
    omega

end Members

section Promised

variable {s : BatchSettings} {targets : List Line} {digest : Line → Line}

theorem print_no_comma (n : Network) (h : n.scopeId = none) : ',' ∉ n.print := by
  intro hmem
  unfold Network.print printScopeId at hmem
  rw [h, List.append_nil, List.mem_append, List.mem_cons] at hmem
  rcases hmem with haddress | hslash | hdigits
  · rcases printAddress_chars haddress with hdot | hcolon | hhex
    · exact absurd hdot (by decide)
    · exact absurd hcolon (by decide)
    · exact absurd hhex (by decide)
  · exact absurd hslash (by decide)
  · exact not_mem_toDigits (by decide) hdigits

theorem scopeId_piece {n : Network} (h : n ∈ allPieces s targets) : n.scopeId = none := by
  obtain ⟨raw, _, hin⟩ := List.mem_flatMap.mp h
  obtain ⟨net, _, hsub⟩ := mem_piecesOf.mp hin
  exact (mem_subnets.mp hsub).2.2

theorem comma_mem_joined {a b : Line} (rest : List Line) :
    ',' ∈ [','].intercalate (a :: b :: rest) := by
  rw [List.intercalate, List.intersperse_cons_cons, List.flatten_cons, List.flatten_cons]
  exact List.mem_append_right _ (List.mem_append_left _ (List.mem_singleton_self _))

theorem joined_single (a : Line) : [','].intercalate [a] = a := by
  rw [List.intercalate, List.intersperse_singleton, List.flatten_singleton]

theorem chunk_of_mem {chunk : List Line}
    (h : chunk ∈ chunks s.maxTargetsPerBatch (singles s targets)) :
    sortTexts chunk = chunk ∧ ∃ text, text ∈ chunk := by
  obtain ⟨i, hi⟩ := List.mem_iff_getElem?.mp h
  obtain ⟨hlt, rfl⟩ := (chunks_getElem? s.targets_bounds.1).mp hi
  constructor
  · have hpart : (chunkAt s.maxTargetsPerBatch (singles s targets) i).Sublist
        (singles s targets) := (List.take_sublist _ _).trans (List.drop_sublist _ _)
    exact List.Pairwise.insertionSort_eq (singles_sorted.sublist hpart)
  · refine ⟨_, (mem_chunkAt s.targets_bounds.1).mpr
      ⟨i * s.maxTargetsPerBatch, List.getElem?_eq_getElem hlt, ?_⟩⟩
    exact Nat.mul_div_cancel _ s.targets_bounds.1

theorem chunks_disjoint : (chunks s.maxTargetsPerBatch (singles s targets)).Pairwise
    fun c d => ∀ text ∈ c, text ∉ d := by
  rw [List.pairwise_iff_getElem]
  intro i j hi hj hlt text hc hd
  have hci := (chunks_getElem? s.targets_bounds.1).mp (List.getElem?_eq_getElem hi)
  have hcj := (chunks_getElem? s.targets_bounds.1).mp (List.getElem?_eq_getElem hj)
  rw [hci.2] at hc
  rw [hcj.2] at hd
  obtain ⟨p, hp, hpi⟩ := (mem_chunkAt s.targets_bounds.1).mp hc
  obtain ⟨q, hq, hqj⟩ := (mem_chunkAt s.targets_bounds.1).mp hd
  have hplt := (List.getElem?_eq_some_iff.mp hp).1
  have hsame : p = q := (List.getElem?_inj hplt singles_nodup).mp (hp.trans hq.symm)
  rw [hsame] at hpi
  omega

theorem apart_iff :
    (batchesOf digest s targets).Pairwise (fun p q => ∀ n, ¬ (Writes p.2 n ∧ Writes q.2 n)) ↔
      (∀ text ∈ singles s targets, ∀ n ∈ allPieces s targets, ipNetwork text ≠ some n) ∧
        ∀ i j a b n, (singles s targets)[i]? = some a → (singles s targets)[j]? = some b →
          ipNetwork a = some n → ipNetwork b = some n →
          i / s.maxTargetsPerBatch = j / s.maxTargetsPerBatch := by
  have hsize := s.targets_bounds.1
  unfold batchesOf
  rw [List.pairwise_append, List.pairwise_map, List.pairwise_map, ← chunks_apart_iff]
  constructor
  · rintro ⟨_, hchunks, hcross⟩
    refine ⟨fun text htext n hn hread => ?_, hchunks⟩
    obtain ⟨chunk, hchunk, hin⟩ := (mem_chunks hsize).mpr htext
    have hno := hcross _ (List.mem_map_of_mem (mem_sorted_pieces.mpr hn)) _
      (List.mem_map_of_mem hchunk) n
    exact hno ⟨writes_piece.mpr rfl, text, hin, hread⟩
  · rintro ⟨hwhole, hchunks⟩
    refine ⟨sorted_pieces_nodup.imp fun hne n hboth => ?_, hchunks, fun p hp q hq n hboth => ?_⟩
    · exact hne ((writes_piece.mp hboth.1).trans (writes_piece.mp hboth.2).symm)
    · obtain ⟨piece, hpiece, rfl⟩ := List.mem_map.mp hp
      obtain ⟨chunk, hchunk, rfl⟩ := List.mem_map.mp hq
      obtain ⟨hown, text, htext, hread⟩ := hboth
      rw [← writes_piece.mp hown] at hread
      exact hwhole text ((mem_chunks hsize).mp ⟨chunk, hchunk, htext⟩) piece
        (mem_sorted_pieces.mp hpiece) hread

theorem print_mem_idTexts {n : Network} (h : n ∈ allPieces s targets) :
    n.print ∈ idTexts s targets :=
  List.mem_append_left _ (List.mem_map_of_mem h)

theorem joined_mem_idTexts {chunk : List Line}
    (h : chunk ∈ chunks s.maxTargetsPerBatch (singles s targets)) :
    [','].intercalate chunk ∈ idTexts s targets :=
  List.mem_append_right _ (List.mem_map_of_mem h)

theorem ids_iff (hfree : CollisionFree digest s targets) :
    (batchesOf digest s targets).Pairwise
        (fun p q => (∃ text, ¬ (text ∈ p.2 ↔ text ∈ q.2)) → p.1 ≠ q.1) ↔
      (chunks s.maxTargetsPerBatch (singles s targets)).Pairwise fun c d =>
        [','].intercalate c ≠ [','].intercalate d := by
  have hid : ∀ c ∈ chunks s.maxTargetsPerBatch (singles s targets),
      batchId digest c = digest ([','].intercalate c) := by
    intro c hc
    unfold batchId
    rw [(chunk_of_mem hc).1]
  have hpiece (n : Network) : batchId digest [n.print] = digest n.print := by
    unfold batchId sortTexts
    rw [List.insertionSort_cons, List.insertionSort_nil, List.orderedInsert_nil, joined_single]
  unfold batchesOf
  rw [List.pairwise_append, List.pairwise_map, List.pairwise_map]
  constructor
  · rintro ⟨_, hchunks, _⟩
    refine ((List.Pairwise.and_mem.mp hchunks).and chunks_disjoint).imp ?_
    rintro c d ⟨⟨hc, hd, hids⟩, hapart⟩ hjoined
    obtain ⟨text, htext⟩ := (chunk_of_mem hc).2
    refine hids ⟨text, fun hiff => hapart text htext (hiff.mp htext)⟩ ?_
    rw [hid c hc, hid d hd, hjoined]
  · intro hjoined
    refine ⟨(List.Pairwise.and_mem.mp sorted_pieces_nodup).imp ?_, ?_,
      fun p hp q hq hdiffer hsame => ?_⟩
    · rintro n m ⟨hn, hm, hne⟩ _ hsame
      rw [hpiece, hpiece] at hsame
      exact hne (print_injective (hfree _ (print_mem_idTexts (mem_sorted_pieces.mp hn)) _
        (print_mem_idTexts (mem_sorted_pieces.mp hm)) hsame))
    · refine (List.Pairwise.and_mem.mp hjoined).imp ?_
      rintro c d ⟨hc, hd, hne⟩ _ hsame
      rw [hid c hc, hid d hd] at hsame
      exact hne (hfree _ (joined_mem_idTexts hc) _ (joined_mem_idTexts hd) hsame)
    · obtain ⟨piece, hin, rfl⟩ := List.mem_map.mp hp
      obtain ⟨chunk, hchunk, rfl⟩ := List.mem_map.mp hq
      simp only at hdiffer hsame
      rw [hpiece, hid chunk hchunk] at hsame
      have hread := hfree _ (print_mem_idTexts (mem_sorted_pieces.mp hin)) _
        (joined_mem_idTexts hchunk) hsame
      have hcomma := print_no_comma piece (scopeId_piece (mem_sorted_pieces.mp hin))
      obtain ⟨text, htext⟩ := (chunk_of_mem hchunk).2
      cases hchunkShape : chunk with
      | nil =>
        rw [hchunkShape] at htext
        cases htext
      | cons a rest =>
        cases rest with
        | nil =>
          rw [hchunkShape, joined_single] at hread
          rw [hchunkShape, hread] at hdiffer
          obtain ⟨text, hno⟩ := hdiffer
          exact hno Iff.rfl
        | cons b rest =>
          rw [hread, hchunkShape] at hcomma
          exact hcomma (comma_mem_joined rest)

theorem block_eq {b c : Block} (hb : Block.Before b c) (hc : Block.Before c b) : b = c := by
  have hfirst : b.first = c.first :=
    Nat.le_antisymm (Block.first_le hb) (Block.first_le hc)
  unfold Block.Before at hb hc
  have hheight : b.height = c.height := by omega
  apply Block.eq_of_le _ hheight
  exact Block.le_of_mem b.first_mem (hfirst ▸ c.first_mem) hheight.le

instance : Std.Total NetBefore := ⟨fun n m => Std.Total.total (r := Block.Before) n.block m.block⟩

instance : IsTrans Network NetBefore :=
  ⟨fun n m k => IsTrans.trans (r := Block.Before) n.block m.block k.block⟩

theorem piece_eq (halike : ¬ Unlike s targets) {n m : Network} (hn : n ∈ allPieces s targets)
    (hm : m ∈ allPieces s targets) (hbefore : NetBefore n m) (hafter : NetBefore m n) : n = m := by
  have hversion : n.version = m.version := by
    by_contra hne
    refine halike ⟨exists_version.mp ?_, exists_version.mp ?_⟩
    · cases hv : n.version with
      | v4 => exact ⟨n, List.mem_dedup.mpr hn, hv⟩
      | v6 =>
        cases hw : m.version with
        | v4 => exact ⟨m, List.mem_dedup.mpr hm, hw⟩
        | v6 => exact absurd (hv.trans hw.symm) hne
    · cases hv : n.version with
      | v6 => exact ⟨n, List.mem_dedup.mpr hn, hv⟩
      | v4 =>
        cases hw : m.version with
        | v6 => exact ⟨m, List.mem_dedup.mpr hm, hw⟩
        | v4 => exact absurd (hv.trans hw.symm) hne
  have hscope := (scopeId_piece hn).trans (scopeId_piece hm).symm
  have hself := Network.of?_self m
  rw [← hversion, ← hscope, ← block_eq hbefore hafter, Network.of?_self n] at hself
  exact Option.some.inj hself

theorem perm_batches {others : List Line} (halike : ¬ Unlike s targets)
    (h : others.Perm targets) : batchesOf digest s others = batchesOf digest s targets := by
  have hsingles : singles s others = singles s targets := by
    unfold singles sortTexts
    refine List.Perm.eq_of_pairwise (fun a b _ _ => le_antisymm) (List.pairwise_insertionSort _ _)
      (List.pairwise_insertionSort _ _) ?_
    refine (List.perm_insertionSort _ _).trans (.trans ?_ (List.perm_insertionSort _ _).symm)
    exact (h.filterMap _).dedup
  have hmem {n : Network} : n ∈ allPieces s others ↔ n ∈ allPieces s targets :=
    (h.flatMap_right (piecesOf s)).mem_iff
  have hpieces : (allPieces s others).dedup.insertionSort NetBefore =
      (allPieces s targets).dedup.insertionSort NetBefore := by
    refine List.Perm.eq_of_pairwise (fun n m hn hm => ?_) (List.pairwise_insertionSort _ _)
      (List.pairwise_insertionSort _ _) ?_
    · exact piece_eq halike (hmem.mp (mem_sorted_pieces.mp hn)) (mem_sorted_pieces.mp hm)
    · refine (List.perm_insertionSort _ _).trans (.trans ?_ (List.perm_insertionSort _ _).symm)
      exact (h.flatMap_right (piecesOf s)).dedup
  unfold batchesOf
  rw [hsingles, hpieces]

theorem perm_outcome {others : List Line} (h : others.Perm targets) :
    SameOutcome (expandBatches digest s others) (expandBatches digest s targets) := by
  have htotal : requestedTotal s others = requestedTotal s targets :=
    (h.map (requestedBy s)).sum_eq
  have hunlike : Unlike s others ↔ Unlike s targets := by
    unfold Unlike
    simp only [h.mem_iff]
  by_cases hfits : requestedTotal s targets ≤ s.maxIpv6Batches
  · have hothers := @expandBatches_fits s others digest (htotal.le.trans hfits)
    have htargets := @expandBatches_fits s targets digest hfits
    by_cases hun : Unlike s targets
    · rw [hothers.1 (hunlike.mpr hun), htargets.1 hun]
      exact .unlike
    · rw [hothers.2 (fun h' => hun (hunlike.mp h')), htargets.2 hun, perm_batches hun h]
      exact .ok _
  · obtain ⟨n, p, hothers⟩ := @expandBatches_size s others digest
      (by omega)
    obtain ⟨m, q, htargets⟩ := @expandBatches_size s targets digest
      (by omega)
    rw [hothers, htargets]
    exact .size n m p q _ _

/-- The batches of a list keep their promise just when the list is refused for its IPv6 size or
its parts are separable. -/
theorem meets_iff (s : BatchSettings) (targets : List Line)
    (hfree : CollisionFree digest s targets) :
    Meets digest s targets ↔
      (requestedTotal s targets ≤ s.maxIpv6Batches → Separable s targets) := by
  constructor
  · intro h hfits
    have hcases := @expandBatches_fits s targets digest hfits
    have halike : ¬ Unlike s targets := by
      intro hun
      obtain ⟨net, requested, he⟩ := h.documented _ (hcases.1 hun)
      cases he
    have hok := hcases.2 halike
    have hapart := apart_iff.mp (h.apart _ hok)
    exact ⟨halike, hapart.1, hapart.2, (ids_iff hfree).mp (h.ids _ hok)⟩
  · intro h
    by_cases hfits : requestedTotal s targets ≤ s.maxIpv6Batches
    · have hsep := h hfits
      have hok := (@expandBatches_fits s targets digest hfits).2 hsep.alike
      refine ⟨fun e he => ?_, fun batches hb => ?_, fun batches hb => ?_, fun batches hb => ?_,
        fun others => perm_outcome⟩
      · rw [hok] at he
        cases he
      · rw [← Except.ok.inj (hok.symm.trans hb)]
        exact denotes_members
      · rw [← Except.ok.inj (hok.symm.trans hb)]
        exact apart_iff.mpr ⟨hsep.whole, hsep.spellings⟩
      · rw [← Except.ok.inj (hok.symm.trans hb)]
        exact (ids_iff hfree).mpr hsep.joined
    · obtain ⟨net, requested, herror⟩ := @expandBatches_size s targets digest (by omega)
      refine ⟨fun e he => ?_, fun batches hb => ?_, fun batches hb => ?_, fun batches hb => ?_,
        fun others => perm_outcome⟩
      · exact ⟨net, requested, (Except.error.inj (herror.symm.trans he)).symm⟩
      · rw [herror] at hb
        cases hb
      · rw [herror] at hb
        cases hb
      · rw [herror] at hb
        cases hb

def defaultSettings : BatchSettings :=
  ⟨20, 120, 4096, 4096, by decide, by decide, by decide, by decide⟩

def wideTarget : Line := ['1', '0', '.', '0', '.', '0', '.', '0', '/', '1', '9']

def wideTarget6 : Line :=
  ['2', '0', '0', '1', ':', 'd', 'b', '8', ':', ':', '/', '1', '1', '9']

def hostTarget : Line := ['d', 'b']

theorem meets_wideTarget : Meets id defaultSettings [wideTarget, hostTarget] := by
  have hsingles : singles defaultSettings [wideTarget, hostTarget] = [hostTarget] := by
    decide +kernel
  have hname : ipNetwork hostTarget = none := by decide
  have hsplit : ∀ raw ∈ [wideTarget, hostTarget], ∀ net ∈ splitOf defaultSettings raw,
      net.version ≠ .v6 := by
    decide +kernel
  refine (meets_iff _ _ fun _ _ _ _ h => h).mpr fun _ => ⟨?_, ?_, ?_, ?_⟩
  · rintro ⟨_, raw, hraw, net, hnet, hversion⟩
    exact hsplit raw hraw net hnet hversion
  · intro text htext n _ hread
    rw [hsingles, List.mem_singleton] at htext
    rw [htext, hname] at hread
    cases hread
  · intro i j a b n ha _ hread _
    have htext := List.mem_of_getElem? ha
    rw [hsingles, List.mem_singleton] at htext
    rw [htext, hname] at hread
    cases hread
  · rw [hsingles]
    exact List.pairwise_singleton _ _

/-- A list that splits an IPv4 network and an IPv6 one raises what is not documented. -/
theorem unlike_targets :
    expandBatches id defaultSettings [wideTarget, wideTarget6] = .error .unlikeVersions ∧
      ¬ Meets id defaultSettings [wideTarget, wideTarget6] := by
  have hfits : requestedTotal defaultSettings [wideTarget, wideTarget6] ≤
      defaultSettings.maxIpv6Batches := by
    decide +kernel
  have hv4 : (splitOf defaultSettings wideTarget).map Network.version = some .v4 := by
    decide +kernel
  have hv6 : (splitOf defaultSettings wideTarget6).map Network.version = some .v6 := by
    decide +kernel
  obtain ⟨n, hn, hnversion⟩ := Option.map_eq_some_iff.mp hv4
  obtain ⟨m, hm, hmversion⟩ := Option.map_eq_some_iff.mp hv6
  have hunlike : Unlike defaultSettings [wideTarget, wideTarget6] :=
    ⟨⟨_, List.mem_cons_self, n, hn, hnversion⟩,
      ⟨_, List.mem_cons_of_mem _ List.mem_cons_self, m, hm, hmversion⟩⟩
  have herror := (@expandBatches_fits _ _ id hfits).1 hunlike
  refine ⟨herror, fun h => ?_⟩
  obtain ⟨net, requested, he⟩ := h.documented _ herror
  cases he

end Promised

end Shapoclyack.DiscoveryBatches
