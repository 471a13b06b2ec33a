import Shapoclyack.FindingEvidence

set_option autoImplicit false

namespace Shapoclyack.ProductionEvidence

open FindingEvidence

def maxHistoryObservations : ℕ := 10000

structure Evidence where
  findings : List Group
  projectionIncomplete : Bool
deriving DecidableEq

def Evidence.observationCount (e : Evidence) : ℕ :=
  (e.findings.map (fun g => g.observations.length)).sum

def Evidence.findingCount (e : Evidence) : ℕ := e.findings.length

def incompleteEvidence : Evidence where
  findings := []
  projectionIncomplete := true

/-- What a report row uploads as its `finding_evidence`. -/
inductive Uploaded where
  | malformed
  | document (schema mode : String) (findings : List (List Observation))
      (projectionIncomplete : Bool) (observationCount findingCount : ℕ)

def textChecked (lib : EvidenceText) (limit : ℕ) (value : Option String) : Bool :=
  match value with
  | none => true
  | some s => s == lib.safeText limit s

def contextValid (value : String) : Bool :=
  decide (value ≠ "") && decide (value.toList.length ≤ 128) && printable value

def objectIdValid (value : String) : Bool :=
  ["url:", "object:", "url-object:"].any fun head =>
    startsWith head value && isHexDigest (dropHead head value)

def schemeValid (lib : EvidenceText) (s : Subject) : Bool :=
  match s.scheme with
  | none => decide (s.authority = none)
  | some scheme =>
    (scheme == "http" || scheme == "https") && s.protocol == "tcp" &&
      match s.port, s.authority with
      | some port, some authority => lib.httpAuthority authority port == some authority
      | _, _ => false

def subjectValid (lib : EvidenceText) (s : Subject) : Bool :=
  match lib.endpointSubject s with
  | none => false
  | some normalized =>
    normalized.host == s.host && normalized.port == s.port &&
      normalized.protocol == s.protocol && normalized.sni == s.sni && schemeValid lib s &&
      match s.objectId with
      | none => true
      | some objectId => objectIdValid objectId

/-- Hashes prove content, never authenticity; false where `validate_observation` raises. -/
def validateObservation (lib : EvidenceText) (o : Observation) : Bool :=
  ["pulse", "pulse-plugin", "nuclei", "nmap-nse", "unknown"].contains o.source &&
    contextValid o.tenantId && contextValid o.runId &&
    textChecked lib 80 o.engineVersion && textChecked lib 80 o.rulesetVersion &&
    textChecked lib 256 o.ruleId && textChecked lib 256 o.matcher &&
    textChecked lib 256 (some o.title) && textChecked lib 512 (some o.preview) &&
    isHexDigest o.ruleDigest && isHexDigest o.evidenceDigest &&
    (match o.cve with | none => true | some cve => lib.cveShaped cve) &&
    (match o.observedAt with | none => true | some date => lib.timestamp date == some date) &&
    (match o.confidence with | none => true | some c => decide (0 ≤ c) && decide (c ≤ 100)) &&
    ["critical", "high", "medium", "low", "info", "unknown"].contains o.severity &&
    ["version_match", "keyword_hypothesis", "exposure", "tls_observation", "template_match",
      "nse_report", "plugin_report", "unclassified"].contains o.evidenceKind &&
    decide (1 ≤ o.artifactRefs.length) && decide (o.artifactRefs.length ≤ maxArtifactRefs) &&
    subjectValid lib o.subject && contractHolds lib o

theorem contractHolds_of_valid {lib : EvidenceText} {o : Observation}
    (h : validateObservation lib o = true) : contractHolds lib o = true := by
  unfold validateObservation at h
  exact (Bool.and_eq_true_iff.mp h).2

/-- The uploaded row under the authenticated tenant and run, with the id that content hashes to. -/
def rebind (lib : EvidenceText) (tenantId runId : String) (o : Observation) : Observation :=
  let material := { o.toObservationData with tenantId := tenantId, runId := runId }
  { toObservationData := material
    observationId := "obs:" ++ lib.digestObservation material
    artifactRefs := o.artifactRefs
    artifactRefsTruncated := o.artifactRefsTruncated }

/-- Validate, then rebind uploader context to authenticated run ownership. -/
def scopedEvidence (lib : EvidenceText) (tenantId runId : String) (evidence : Option Uploaded) :
    Option Evidence :=
  match evidence with
  | none => none
  | some .malformed => some incompleteEvidence
  | some (.document schema mode findings projectionIncomplete observationCount findingCount) =>
    let rows := findings.flatten
    if schema = evidenceSchema ∧ (mode = "shadow" ∨ mode = "production") ∧
        findings.length ≤ maxHistoryObservations ∧ rows.length ≤ maxHistoryObservations ∧
        rows.all (validateObservation lib) then
      match aggregate lib (rows.map (rebind lib tenantId runId)) with
      | none => some incompleteEvidence
      | some groups =>
        let result : Evidence := ⟨groups, projectionIncomplete⟩
        if observationCount = result.observationCount ∧ findingCount = result.findingCount then
          some result
        else
          some incompleteEvidence
    else
      some incompleteEvidence

/-- The first observation of the first group, which is how one id's copies are united. -/
def unitePair (lib : EvidenceText) (held item : Observation) : Observation :=
  match (unite lib [held, item]).head? with
  | none => held
  | some group => group.observations.headD held

def absorbOne (lib : EvidenceText) (acc : List Observation × Bool) (item : Observation) :
    List Observation × Bool :=
  match acc.1.find? (fun o => o.observationId == item.observationId) with
  | some held =>
    (acc.1.map (fun o =>
        if o.observationId = item.observationId then unitePair lib held item else o),
      acc.2)
  | none =>
    if acc.1.length < maxHistoryObservations then (acc.1 ++ [item], acc.2) else (acc.1, true)

/-- One document's rows, up to the first that does not validate. -/
def absorb (lib : EvidenceText) (acc : List Observation × Bool) :
    List Observation → List Observation × Bool
  | [] => acc
  | item :: rest =>
    if validateObservation lib item then absorb lib (absorbOne lib acc item) rest
    else (acc.1, true)

def Evidence.observations (e : Evidence) : List Observation :=
  e.findings.flatMap (·.observations)

/-- The bounded union of what a row holds with what a publication brings. -/
def merge (lib : EvidenceText) (previous current : Option Evidence) : Option Evidence :=
  match current with
  | none => previous
  | some new =>
    let held :=
      match previous with
      | none => ([], false)
      | some old => absorb lib ([], old.projectionIncomplete) old.observations
    let united := absorb lib (held.1, held.2 || new.projectionIncomplete) new.observations
    some ⟨unite lib united.1, united.2⟩

inductive Disposition where
  | replay
  | historical
  | current
deriving DecidableEq, Repr

def Evidence.group? (findings : List Group) (evidenceId : String) : Option Group :=
  findings.reverse.find? (fun g => g.evidenceId == evidenceId)

def predates (prior : List Group) (g : Group) : Bool :=
  match Evidence.group? prior g.evidenceId with
  | none => false
  | some known =>
    truthy known.latestObservedAt &&
      g.observations.all fun o =>
        truthy o.observedAt && decide (text o.observedAt < text known.latestObservedAt)

def findingsOf (evidence : Option Evidence) : List Group :=
  match evidence with
  | none => []
  | some e => e.findings

/-- Classify validated scoped evidence without treating unknown time as old. -/
def publicationDisposition (previous current : Option Evidence) : Disposition :=
  let prior := findingsOf previous
  let incoming := findingsOf current
  let currentIds := incoming.flatMap (fun g => g.observations.map (·.observationId))
  let priorIds := prior.flatMap (fun g => g.observations.map (·.observationId))
  if currentIds ≠ [] ∧ currentIds.all (fun oid => priorIds.contains oid) then .replay
  else if incoming ≠ [] ∧ incoming.all (predates prior) then .historical
  else .current

def closureGap (evidence : Option Evidence) (coveredSubjects : List Subject) : Option String :=
  match evidence with
  | none => none
  | some e =>
    if e.projectionIncomplete then some "evidence_incomplete"
    else
      let subjects := e.findings.map (·.identity.subject)
      if subjects ≠ [] ∧ coveredSubjects ≠ [] ∧
          subjects.all (fun s => coveredSubjects.contains s) then none
      else if subjects.any (fun s => truthy s.authority || truthy s.sni || truthy s.objectId) then
        some "precise_subject_coverage_unproven"
      else if 1 < subjects.dedup.length then some "multiple_subject_coverage_unproven"
      else none

theorem unitePair_contract {lib : EvidenceText} {held item : Observation}
    (hheld : contractHolds lib held = true) (hitem : contractHolds lib item = true) :
    contractHolds lib (unitePair lib held item) = true := by
  unfold unitePair
  split
  case h_1 => exact hheld
  case h_2 group hhead =>
    have hgroup : group ∈ unite lib [held, item] := List.mem_of_head? hhead
    cases hobs : group.observations with
    | nil => exact hheld
    | cons o rest =>
      have ho : o ∈ group.observations := by simp [hobs]
      refine contractHolds_of_mem_unite ?_ hgroup ho
      intro p hp
      rcases List.mem_pair.mp hp with rfl | rfl
      · exact hheld
      · exact hitem

theorem absorb_contract (lib : EvidenceText) (items : List Observation)
    (acc : List Observation × Bool) (hacc : ∀ o ∈ acc.1, contractHolds lib o = true) :
    ∀ o ∈ (absorb lib acc items).1, contractHolds lib o = true := by
  induction items generalizing acc with
  | nil => exact hacc
  | cons item rest ih =>
    unfold absorb
    split_ifs with hvalid
    · apply ih
      have hitem := contractHolds_of_valid hvalid
      intro o ho
      unfold absorbOne at ho
      split at ho
      case h_1 held hfind =>
        obtain ⟨p, hp, rfl⟩ := List.mem_map.mp ho
        split_ifs
        · exact unitePair_contract (hacc held (List.mem_of_find?_eq_some hfind)) hitem
        · exact hacc p hp
      case h_2 =>
        split_ifs at ho
        · rcases List.mem_append.mp ho with hold | hnew
          · exact hacc o hold
          · rw [List.mem_singleton.mp hnew]
            exact hitem
        · exact hacc o ho
    · exact hacc

/-- The final union of `merge` is over validated rows, so `aggregate` does not raise there. -/
theorem merge_eq_aggregate (lib : EvidenceText) (previous : Option Evidence) (new : Evidence) :
    ∃ (rows : List Observation) (incomplete : Bool) (groups : List Group),
      aggregate lib rows = some groups ∧
        merge lib previous (some new) = some ⟨groups, incomplete⟩ := by
  cases previous with
  | none =>
    have hrows := absorb_contract lib new.observations
      ([], false || new.projectionIncomplete) (by simp)
    exact ⟨_, _, _, aggregate_of_contract hrows, rfl⟩
  | some old =>
    have hheld := absorb_contract lib old.observations
      ([], old.projectionIncomplete) (by simp)
    have hrows := absorb_contract lib new.observations
      ((absorb lib ([], old.projectionIncomplete) old.observations).1,
        (absorb lib ([], old.projectionIncomplete) old.observations).2 ||
          new.projectionIncomplete) hheld
    exact ⟨_, _, _, aggregate_of_contract hrows, rfl⟩

end Shapoclyack.ProductionEvidence
