import Mathlib.Data.List.Sort
import Shapoclyack.Text

set_option autoImplicit false

namespace Shapoclyack.FindingEvidence

def observationSchema : String := "octo.finding_observation.v1"

def evidenceSchema : String := "octo.finding_evidence.v1"

def maxArtifactRefs : ℕ := 8

structure Subject where
  host : String
  port : Option ℕ
  protocol : String
  scheme : Option String
  authority : Option String
  sni : Option String
  objectId : Option String
deriving DecidableEq, Repr

structure ArtifactRef where
  path : String
  sha256 : String
  locator : String
deriving DecidableEq, Repr

/-- The allowlisted content of one observation, which is what its id hashes. -/
structure ObservationData where
  schema : String
  tenantId : String
  runId : String
  source : String
  engineVersion : Option String
  rulesetVersion : Option String
  ruleId : Option String
  ruleDigest : String
  matcher : Option String
  observedAt : Option String
  subject : Subject
  cve : Option String
  title : String
  evidenceKind : String
  confidence : Option ℚ
  severity : String
  requiresConfirmation : Bool
  preview : String
  evidenceDigest : String
deriving DecidableEq

structure Observation extends ObservationData where
  observationId : String
  artifactRefs : List ArtifactRef
  artifactRefsTruncated : Bool
deriving DecidableEq

inductive Issue where
  | cve (id : String)
  | rule (source ruleDigest : String)
deriving DecidableEq, Repr

structure Identity where
  tenantId : String
  subject : Subject
  issue : Issue
deriving DecidableEq, Repr

/-- The library calls evidence rests on, hashing and canonical JSON among them. -/
structure EvidenceText extends Text where
  digestIdentity : Identity → String
  digestObservation : ObservationData → String
  referenceJson : ArtifactRef → String
  safeText : ℕ → String → String
  timestamp : String → Option String
  cveShaped : String → Bool
  /-- `subject` of a bare host, port, protocol and SNI, none where it raises. -/
  endpointSubject : Subject → Option Subject
  httpAuthority : String → ℕ → Option String

def truthy (value : Option String) : Bool :=
  match value with
  | none => false
  | some s => decide (s ≠ "")

/-- `value or None` for a nullable column. -/
def filled (value : Option String) : Option String :=
  if truthy value then value else none

def Observation.identity (o : Observation) : Identity where
  tenantId := o.tenantId
  subject := o.subject
  issue := if truthy o.cve then .cve (text o.cve) else .rule o.source o.ruleDigest

def evidenceKey (lib : EvidenceText) (o : Observation) : String :=
  "evidence:" ++ lib.digestIdentity o.identity

def isHexDigest (value : String) : Bool :=
  decide (value.toList.length = 64) &&
    value.toList.all (fun c => c.isDigit || ('a' ≤ c && c ≤ 'f'))

def printable (value : String) : Bool :=
  value.toList.all (fun c => decide (32 ≤ c.toNat))

def splitPath (value : String) : List String :=
  (value.toList.splitOn '/').map String.ofList

def referenceValid (ref : ArtifactRef) : Bool :=
  decide (ref.path ≠ "") && decide (ref.path.toList.length ≤ 1024) &&
    !ref.path.toList.contains '\\' && !ref.path.toList.contains ':' &&
    (splitPath ref.path).all (fun part => part != "" && part != "." && part != "..") &&
    isHexDigest ref.sha256 && decide (ref.locator ≠ "") &&
    decide (ref.locator.toList.length ≤ 128) && printable (ref.path ++ ref.locator)

/-- What `aggregate` refuses: a row whose id is not its own hash, or a bad reference. -/
def contractHolds (lib : EvidenceText) (o : Observation) : Bool :=
  decide (o.schema = observationSchema) &&
    decide (o.observationId = "obs:" ++ lib.digestObservation o.toObservationData) &&
    o.artifactRefs.all referenceValid

structure Group where
  evidenceId : String
  identity : Identity
  observations : List Observation
  latestObservedAt : Option String
deriving DecidableEq

def sortedKeys (keys : List String) : List String :=
  keys.dedup.insertionSort (· ≤ ·)

/-- One reference for each canonical JSON text, in the order of those texts. -/
def unionRefs (lib : EvidenceText) (refs : List ArtifactRef) : List ArtifactRef :=
  (sortedKeys (refs.map lib.referenceJson)).filterMap
    (fun json => refs.reverse.find? (fun ref => lib.referenceJson ref == json))

/-- The copies of one observation: the first one's content, every reference, up to the cap. -/
def uniteCopies (lib : EvidenceText) (first : Observation) (copies : List Observation) :
    Observation :=
  let refs := unionRefs lib (copies.flatMap (·.artifactRefs))
  { first with
    artifactRefs := refs.take maxArtifactRefs
    artifactRefsTruncated :=
      copies.any (·.artifactRefsTruncated) || decide (maxArtifactRefs < refs.length) }

def uniteMembers (lib : EvidenceText) (members : List Observation) : List Observation :=
  (sortedKeys (members.map (·.observationId))).filterMap fun oid =>
    match members.filter (fun o => o.observationId == oid) with
    | [] => none
    | first :: rest => some (uniteCopies lib first (first :: rest))

def later (a b : String) : String := if a < b then b else a

/-- `max` of the dates that are there. -/
def latestOf (dates : List (Option String)) : Option String :=
  (dates.filter truthy).foldl
    (fun best date =>
      match best, date with
      | none, date => date
      | best, none => best
      | some a, some b => some (later a b)) none

def groupOf (lib : EvidenceText) (key : String) (members : List Observation) : Option Group :=
  match members with
  | [] => none
  | first :: _ =>
    let rows := uniteMembers lib members
    some {
      evidenceId := key
      identity := first.identity
      observations := rows
      latestObservedAt := latestOf (rows.map (·.observedAt)) }

/-- The union `aggregate` builds once every row has met the contract. -/
def unite (lib : EvidenceText) (observations : List Observation) : List Group :=
  (sortedKeys (observations.map (evidenceKey lib))).filterMap fun key =>
    groupOf lib key (observations.filter (fun o => evidenceKey lib o == key))

/-- Deterministic union of observations; none where the source raises `ValueError`. -/
def aggregate (lib : EvidenceText) (observations : List Observation) : Option (List Group) :=
  if observations.all (contractHolds lib) then some (unite lib observations) else none

theorem aggregate_of_contract {lib : EvidenceText} {observations : List Observation}
    (h : ∀ o ∈ observations, contractHolds lib o = true) :
    aggregate lib observations = some (unite lib observations) := by
  unfold aggregate
  rw [if_pos (List.all_eq_true.mpr h)]

@[simp]
theorem unite_nil (lib : EvidenceText) : unite lib [] = [] := rfl

theorem mem_sortedKeys (keys : List String) (k : String) : k ∈ sortedKeys keys ↔ k ∈ keys := by
  unfold sortedKeys
  rw [List.mem_insertionSort, List.mem_dedup]

theorem mem_unionRefs {lib : EvidenceText} {refs : List ArtifactRef} {r : ArtifactRef}
    (h : r ∈ unionRefs lib refs) : r ∈ refs := by
  obtain ⟨json, _, hfind⟩ := List.mem_filterMap.mp h
  exact List.mem_reverse.mp (List.mem_of_find?_eq_some hfind)

theorem mem_uniteMembers {lib : EvidenceText} {members : List Observation} {o : Observation}
    (h : o ∈ uniteMembers lib members) :
    (∃ p ∈ members, o.toObservationData = p.toObservationData ∧
      o.observationId = p.observationId) ∧
    ∀ r ∈ o.artifactRefs, ∃ p ∈ members, r ∈ p.artifactRefs := by
  obtain ⟨oid, _, hmatch⟩ := List.mem_filterMap.mp h
  cases hcopies : members.filter (fun p => p.observationId == oid) with
  | nil => simp [hcopies] at hmatch
  | cons first rest =>
    have hsubset : ∀ p ∈ first :: rest, p ∈ members := by
      intro p hp
      rw [← hcopies] at hp
      exact (List.mem_filter.mp hp).1
    simp only [hcopies, Option.some.injEq] at hmatch
    subst hmatch
    refine ⟨⟨first, hsubset first (by simp), rfl, rfl⟩, ?_⟩
    intro r hr
    have hunion : r ∈ unionRefs lib ((first :: rest).flatMap (·.artifactRefs)) :=
      List.mem_of_mem_take hr
    obtain ⟨p, hp, hrp⟩ := List.mem_flatMap.mp (mem_unionRefs hunion)
    exact ⟨p, hsubset p hp, hrp⟩

theorem groupOf_observations {lib : EvidenceText} {key : String} {members : List Observation}
    {g : Group} (h : groupOf lib key members = some g) :
    g.observations = uniteMembers lib members := by
  cases members with
  | nil => simp [groupOf] at h
  | cons first rest =>
    simp only [groupOf, Option.some.injEq] at h
    rw [← h]

/-- A union keeps the contract of the rows it unites. -/
theorem contractHolds_of_mem_unite {lib : EvidenceText} {observations : List Observation}
    (hrows : ∀ o ∈ observations, contractHolds lib o = true) {g : Group}
    (hg : g ∈ unite lib observations) {o : Observation} (ho : o ∈ g.observations) :
    contractHolds lib o = true := by
  obtain ⟨key, _, hgroup⟩ := List.mem_filterMap.mp hg
  rw [groupOf_observations hgroup] at ho
  obtain ⟨⟨p, hp, hdata, hid⟩, hrefs⟩ := mem_uniteMembers ho
  have hpc := hrows p (List.mem_filter.mp hp).1
  unfold contractHolds at hpc ⊢
  rw [hdata, hid, Bool.and_eq_true_iff]
  refine ⟨(Bool.and_eq_true_iff.mp hpc).1, List.all_eq_true.mpr ?_⟩
  intro r hr
  obtain ⟨q, hq, hrq⟩ := hrefs r hr
  have hqc := hrows q (List.mem_filter.mp hq).1
  exact List.all_eq_true.mp (Bool.and_eq_true_iff.mp hqc).2 r hrq

end Shapoclyack.FindingEvidence
