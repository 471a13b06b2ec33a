import Mathlib.Data.String.Basic
import Shapoclyack.Library.Ascending
import Shapoclyack.ProductionEvidence
import Shapoclyack.VerificationArtifacts

set_option autoImplicit false

namespace Shapoclyack.EvidenceUnions

open FindingEvidence ProductionEvidence VerificationArtifacts Library

section Documents

/-- One group of `aggregate`, with what it says of its observations. -/
structure Finding where
  group : Group
  sources : List String
  latestObservationIds : List String
  undatedObservationIds : List String
  differingFields : List String
deriving DecidableEq

def differs {α : Type} [DecidableEq α] (values : List α) : Bool :=
  decide (1 < values.dedup.length)

def differingFields (rows : List Observation) : List String :=
  (if differs (rows.filterMap (·.confidence)) then ["confidence"] else []) ++
    (if differs (rows.map (·.evidenceKind)) then ["evidence_kind"] else []) ++
    (if differs (rows.map (·.requiresConfirmation)) then ["requires_confirmation"] else []) ++
    (if differs (rows.map (·.severity)) then ["severity"] else [])

structure Document where
  findingCount : ℕ
  observationCount : ℕ
  findings : List Finding
deriving DecidableEq

def rows (groups : List Group) : List Observation := groups.flatMap (·.observations)

def Document.observations (d : Document) : List Observation :=
  d.findings.flatMap (·.group.observations)

end Documents

section Supply

variable {lib : EvidenceText} {all xs ys : List Observation} {o p : Observation}

/-- Digests and canonical JSON tell apart what these observations hold. -/
structure CollisionFree (lib : EvidenceText) (all : List Observation) : Prop where
  data : ∀ o ∈ all, ∀ p ∈ all,
    lib.digestObservation o.toObservationData = lib.digestObservation p.toObservationData →
      o.toObservationData = p.toObservationData
  identity : ∀ o ∈ all, ∀ p ∈ all,
    lib.digestIdentity o.identity = lib.digestIdentity p.identity → o.identity = p.identity
  reference : ∀ o ∈ all, ∀ r ∈ o.artifactRefs, ∀ p ∈ all, ∀ q ∈ p.artifactRefs,
    lib.referenceJson r = lib.referenceJson q → r = q

structure Supplied (lib : EvidenceText) (all : List Observation) (o : Observation) : Prop where
  valid : contractHolds lib o = true
  content : ∃ p ∈ all, p.toObservationData = o.toObservationData
  references : ∀ r ∈ o.artifactRefs, ∃ p ∈ all, r ∈ p.artifactRefs

theorem id_of_valid (h : contractHolds lib o = true) :
    o.observationId = "obs:" ++ lib.digestObservation o.toObservationData := by
  rw [contractHolds, Bool.and_eq_true, Bool.and_eq_true, decide_eq_true_iff,
    decide_eq_true_iff] at h
  exact h.1.2

theorem data_of_id (cf : CollisionFree lib all) (ho : Supplied lib all o)
    (hp : Supplied lib all p) (h : o.observationId = p.observationId) :
    o.toObservationData = p.toObservationData := by
  have ⟨o', ho', hodata⟩ := ho.content
  have ⟨p', hp', hpdata⟩ := hp.content
  rw [id_of_valid ho.valid, id_of_valid hp.valid, String.append_right_inj, ← hodata,
    ← hpdata] at h
  rw [← hodata, ← hpdata]
  exact cf.data o' ho' p' hp' h

theorem identity_of_data (h : o.toObservationData = p.toObservationData) :
    o.identity = p.identity := by
  unfold Observation.identity
  rw [h]

theorem evidenceKey_of_data (h : o.toObservationData = p.toObservationData) :
    evidenceKey lib o = evidenceKey lib p := by
  rw [evidenceKey, identity_of_data h, evidenceKey]

theorem identity_of_key (cf : CollisionFree lib all) (ho : Supplied lib all o)
    (hp : Supplied lib all p) (h : evidenceKey lib o = evidenceKey lib p) :
    o.identity = p.identity := by
  have ⟨o', ho', hodata⟩ := ho.content
  have ⟨p', hp', hpdata⟩ := hp.content
  rw [evidenceKey, evidenceKey, String.append_right_inj, ← identity_of_data hodata,
    ← identity_of_data hpdata] at h
  rw [← identity_of_data hodata, ← identity_of_data hpdata]
  exact cf.identity o' ho' p' hp' h

def decode (lib : EvidenceText) (all : List Observation) (json : String) : Option ArtifactRef :=
  (all.flatMap (·.artifactRefs)).find? fun r => lib.referenceJson r == json

theorem find_reference {refs : List ArtifactRef}
    (hinj : ∀ r ∈ refs, ∀ q ∈ refs, lib.referenceJson r = lib.referenceJson q → r = q)
    {r : ArtifactRef} (hr : r ∈ refs) :
    (refs.find? fun q => lib.referenceJson q == lib.referenceJson r) = some r := by
  cases hfind : refs.find? fun q => lib.referenceJson q == lib.referenceJson r with
  | none =>
    have hnone := List.find?_eq_none.mp hfind r hr
    rw [beq_self_eq_true] at hnone
    exact absurd rfl hnone
  | some q =>
    have hjson := beq_iff_eq.mp
      (List.find?_some (p := fun q => lib.referenceJson q == lib.referenceJson r) hfind)
    rw [hinj q (List.mem_of_find?_eq_some hfind) r hr hjson]

theorem decode_json (cf : CollisionFree lib all) {r : ArtifactRef} (ho : o ∈ all)
    (hr : r ∈ o.artifactRefs) : decode lib all (lib.referenceJson r) = some r := by
  refine find_reference (fun q hq t ht hjson => ?_) (List.mem_flatMap_of_mem ho hr)
  have ⟨q', hq', hqr⟩ := List.mem_flatMap.mp hq
  have ⟨t', ht', htr⟩ := List.mem_flatMap.mp ht
  exact cf.reference q' hq' q hqr t' ht' t htr hjson

theorem json_of_decode {json : String} {r : ArtifactRef} (h : decode lib all json = some r) :
    lib.referenceJson r = json :=
  beq_iff_eq.mp (List.find?_some (p := fun r => lib.referenceJson r == json) h)

theorem unionRefs_eq (cf : CollisionFree lib all) {refs : List ArtifactRef}
    (hrefs : ∀ r ∈ refs, ∃ p ∈ all, r ∈ p.artifactRefs) :
    unionRefs lib refs = (ascending (refs.map lib.referenceJson)).filterMap (decode lib all) := by
  refine List.filterMap_congr fun json hjson => ?_
  have ⟨r, hr, hjsonr⟩ := List.mem_map.mp ((mem_sortedKeys _ _).mp hjson)
  have ⟨p, hp, hpr⟩ := hrefs r hr
  have hinj : ∀ r ∈ refs.reverse, ∀ q ∈ refs.reverse,
      lib.referenceJson r = lib.referenceJson q → r = q := by
    intro r hr q hq heq
    have ⟨r', hr', hrr⟩ := hrefs r (List.mem_reverse.mp hr)
    have ⟨q', hq', hqr⟩ := hrefs q (List.mem_reverse.mp hq)
    exact cf.reference r' hr' r hrr q' hq' q hqr heq
  rw [← hjsonr, find_reference hinj (List.mem_reverse.mpr hr), decode_json cf hp hpr]

theorem isSome_decode (cf : CollisionFree lib all) {refs : List ArtifactRef}
    (hrefs : ∀ r ∈ refs, ∃ p ∈ all, r ∈ p.artifactRefs) :
    ∀ json ∈ ascending (refs.map lib.referenceJson), (decode lib all json).isSome = true := by
  intro json hjson
  have ⟨r, hr, hjsonr⟩ := List.mem_map.mp (mem_ascending.mp hjson)
  have ⟨p, hp, hpr⟩ := hrefs r hr
  rw [← hjsonr, decode_json cf hp hpr]
  rfl

theorem filterMap_take {α β : Type} {f : α → Option β} {l : List α}
    (h : ∀ a ∈ l, (f a).isSome = true) (n : ℕ) :
    (l.filterMap f).take n = (l.take n).filterMap f := by
  induction l generalizing n with
  | nil => simp
  | cons a rest ih =>
    have hrest := fun b hb => h b (List.mem_cons_of_mem a hb)
    cases hfa : f a with
    | none =>
      have hsome := h a List.mem_cons_self
      rw [hfa] at hsome
      cases hsome
    | some b =>
      cases n with
      | zero => simp
      | succ n =>
        rw [List.filterMap_cons_some hfa, List.take_succ_cons, List.take_succ_cons,
          List.filterMap_cons_some hfa, ih hrest n]

theorem filterMap_length {α β : Type} {f : α → Option β} {l : List α}
    (h : ∀ a ∈ l, (f a).isSome = true) : (l.filterMap f).length = l.length := by
  induction l with
  | nil => rfl
  | cons a rest ih =>
    have hrest := ih fun b hb => h b (List.mem_cons_of_mem a hb)
    cases hfa : f a with
    | none =>
      have hsome := h a List.mem_cons_self
      rw [hfa] at hsome
      cases hsome
    | some b => rw [List.filterMap_cons_some hfa, List.length_cons, List.length_cons, hrest]

end Supply

section Copies

variable {lib : EvidenceText} {all xs ys : List Observation} {o : Observation} {oid : String}

def copies (xs : List Observation) (oid : String) : List Observation :=
  xs.filter fun o => o.observationId == oid

theorem mem_copies : o ∈ copies xs oid ↔ o ∈ xs ∧ o.observationId = oid := by
  rw [copies, List.mem_filter, beq_iff_eq]

theorem copies_append : copies (xs ++ ys) oid = copies xs oid ++ copies ys oid :=
  List.filter_append xs ys

/-- The canonical JSON of every reference supplied for an id. -/
def refKeys (lib : EvidenceText) (xs : List Observation) (oid : String) : List String :=
  ((copies xs oid).flatMap (·.artifactRefs)).map lib.referenceJson

theorem refKeys_append : refKeys lib (xs ++ ys) oid = refKeys lib xs oid ++ refKeys lib ys oid := by
  rw [refKeys, copies_append, List.flatMap_append, List.map_append]
  rfl

theorem mem_refKeys {json : String} : json ∈ refKeys lib xs oid ↔
    ∃ o ∈ xs, o.observationId = oid ∧ ∃ r ∈ o.artifactRefs, lib.referenceJson r = json := by
  unfold refKeys
  rw [List.mem_map]
  constructor
  · intro ⟨r, hr, hjson⟩
    have ⟨o, ho, hro⟩ := List.mem_flatMap.mp hr
    have ⟨hmem, hid⟩ := mem_copies.mp ho
    exact ⟨o, hmem, hid, r, hro, hjson⟩
  · intro ⟨o, ho, hid, r, hr, hjson⟩
    exact ⟨r, List.mem_flatMap_of_mem (mem_copies.mpr ⟨ho, hid⟩) hr, hjson⟩

def carried (xs : List Observation) (oid : String) : Bool :=
  (copies xs oid).any (·.artifactRefsTruncated)

theorem carried_iff : carried xs oid = true ↔
    ∃ o ∈ xs, o.observationId = oid ∧ o.artifactRefsTruncated = true := by
  rw [carried, List.any_eq_true]
  constructor
  · intro ⟨o, ho, htruncated⟩
    have ⟨hmem, hid⟩ := mem_copies.mp ho
    exact ⟨o, hmem, hid, htruncated⟩
  · intro ⟨o, ho, hid, htruncated⟩
    exact ⟨o, mem_copies.mpr ⟨ho, hid⟩, htruncated⟩

/-- What `aggregate` makes of the copies of one id. -/
def row (lib : EvidenceText) (xs : List Observation) (oid : String) : Option Observation :=
  match copies xs oid with
  | [] => none
  | first :: rest => some (uniteCopies lib first (first :: rest))

theorem row_eq_none (h : ∀ o ∈ xs, o.observationId ≠ oid) : row lib xs oid = none := by
  have hnone : copies xs oid = [] :=
    List.filter_eq_nil_iff.mpr fun o ho => by simpa using h o ho
  rw [row, hnone]

theorem exists_row (lib : EvidenceText) (ho : o ∈ xs) (hid : o.observationId = oid) :
    ∃ r, row lib xs oid = some r := by
  unfold row
  cases hcopies : copies xs oid with
  | nil =>
    have hmem := mem_copies.mpr ⟨ho, hid⟩
    rw [hcopies] at hmem
    exact absurd hmem List.not_mem_nil
  | cons first rest => exact ⟨_, rfl⟩

theorem references_of_supplied (hx : ∀ o ∈ xs, Supplied lib all o) :
    ∀ r ∈ (copies xs oid).flatMap (·.artifactRefs), ∃ p ∈ all, r ∈ p.artifactRefs := by
  intro r hr
  have ⟨o, ho, hro⟩ := List.mem_flatMap.mp hr
  exact (hx o (mem_copies.mp ho).1).references r hro

/-- A row has the content of a copy, the first references in the order of their JSON, and is
truncated when a copy was or there are more of them. -/
theorem row_spec (cf : CollisionFree lib all) (hx : ∀ o ∈ xs, Supplied lib all o)
    {r : Observation} (h : row lib xs oid = some r) :
    r.observationId = oid ∧
      (∃ o ∈ xs, o.observationId = oid ∧ r.toObservationData = o.toObservationData) ∧
      r.artifactRefs =
        ((ascending (refKeys lib xs oid)).take maxArtifactRefs).filterMap (decode lib all) ∧
      (r.artifactRefsTruncated = true ↔
        carried xs oid = true ∨ maxArtifactRefs < (ascending (refKeys lib xs oid)).length) := by
  unfold row at h
  cases hcopies : copies xs oid with
  | nil =>
    rw [hcopies] at h
    cases h
  | cons first rest =>
    rw [hcopies] at h
    have hfirst : first ∈ copies xs oid := by
      rw [hcopies]
      exact List.mem_cons_self
    have ⟨hmem, hid⟩ := mem_copies.mp hfirst
    have hrefs : ∀ r ∈ (copies xs oid).flatMap (·.artifactRefs), ∃ p ∈ all,
        r ∈ p.artifactRefs := references_of_supplied hx
    have hunion := unionRefs_eq cf hrefs
    have hsome := isSome_decode cf hrefs
    rw [← Option.some.inj h]
    refine ⟨hid, ⟨first, hmem, hid, rfl⟩, ?_, ?_⟩
    · rw [uniteCopies, ← hcopies, hunion, filterMap_take hsome]
      rfl
    · rw [uniteCopies, ← hcopies, hunion, filterMap_length hsome, Bool.or_eq_true,
        decide_eq_true_iff]
      rfl

theorem row_supplied (cf : CollisionFree lib all) (hx : ∀ o ∈ xs, Supplied lib all o)
    {r : Observation} (h : row lib xs oid = some r) : Supplied lib all r := by
  have ⟨hid, ⟨o, ho, hoid, hdata⟩, hrefs, _⟩ := row_spec cf hx h
  have hvalid := (hx o ho).valid
  have hfrom : ∀ ref ∈ r.artifactRefs, ∃ p ∈ xs, ref ∈ p.artifactRefs := by
    intro ref href
    rw [hrefs] at href
    have ⟨json, hjson, hdecode⟩ := List.mem_filterMap.mp href
    have ⟨p, hp, _, q, hq, hqjson⟩ :=
      mem_refKeys.mp (mem_ascending.mp (List.mem_of_mem_take hjson))
    have ⟨p', hp', hqp'⟩ := (hx p hp).references q hq
    rw [← hqjson, decode_json cf hp' hqp'] at hdecode
    rw [← Option.some.inj hdecode]
    exact ⟨p, hp, hq⟩
  refine ⟨?_, ?_, fun ref href => ?_⟩
  · rw [contractHolds, Bool.and_eq_true, Bool.and_eq_true] at hvalid ⊢
    rw [hdata, hid, ← hoid]
    refine ⟨hvalid.1, List.all_eq_true.mpr fun ref href => ?_⟩
    have ⟨p, hp, hpref⟩ := hfrom ref href
    have hpvalid := (hx p hp).valid
    rw [contractHolds, Bool.and_eq_true] at hpvalid
    exact List.all_eq_true.mp hpvalid.2 ref hpref
  · have ⟨p, hp, hpdata⟩ := (hx o ho).content
    exact ⟨p, hp, hpdata.trans hdata.symm⟩
  · have ⟨p, hp, hpref⟩ := hfrom ref href
    exact (hx p hp).references ref hpref

end Copies

section Agreement

variable {lib : EvidenceText} {all xs ys : List Observation}

/-- Two lists supply the same ids, and for each of them the same capped references and the same
truncation. -/
structure Agree (lib : EvidenceText) (xs ys : List Observation) : Prop where
  ids : ∀ oid, oid ∈ xs.map (·.observationId) ↔ oid ∈ ys.map (·.observationId)
  references : ∀ oid, (ascending (refKeys lib xs oid)).take maxArtifactRefs =
    (ascending (refKeys lib ys oid)).take maxArtifactRefs
  truncated : ∀ oid,
    (carried xs oid = true ∨ maxArtifactRefs < (ascending (refKeys lib xs oid)).length) ↔
      (carried ys oid = true ∨ maxArtifactRefs < (ascending (refKeys lib ys oid)).length)

theorem Agree.row_eq (cf : CollisionFree lib all) (hx : ∀ o ∈ xs, Supplied lib all o)
    (hy : ∀ o ∈ ys, Supplied lib all o) (h : Agree lib xs ys) (oid : String) :
    row lib xs oid = row lib ys oid := by
  by_cases hmem : oid ∈ xs.map (·.observationId)
  · have ⟨o, ho, hoid⟩ := List.mem_map.mp hmem
    have ⟨p, hp, hpid⟩ := List.mem_map.mp ((h.ids oid).mp hmem)
    have ⟨r, hr⟩ := exists_row lib ho hoid
    have ⟨t, ht⟩ := exists_row lib hp hpid
    have ⟨hrid, ⟨o', ho', ho'id, hrdata⟩, hrrefs, hrtruncated⟩ := row_spec cf hx hr
    have ⟨htid, ⟨p', hp', hp'id, htdata⟩, htrefs, httruncated⟩ := row_spec cf hy ht
    have hdata : r.toObservationData = t.toObservationData := by
      rw [hrdata, htdata]
      exact data_of_id cf (hx o' ho') (hy p' hp') (ho'id.trans hp'id.symm)
    have hrefs : r.artifactRefs = t.artifactRefs := by rw [hrrefs, htrefs, h.references oid]
    have htruncated : r.artifactRefsTruncated = t.artifactRefsTruncated :=
      Bool.eq_iff_iff.mpr (hrtruncated.trans ((h.truncated oid).trans httruncated.symm))
    rw [hr, ht]
    cases r
    cases t
    simp only [Option.some.injEq, Observation.mk.injEq]
    exact ⟨hdata, hrid.trans htid.symm, hrefs, htruncated⟩
  · have hother : oid ∉ ys.map (·.observationId) := fun hin => hmem ((h.ids oid).mpr hin)
    rw [row_eq_none fun o ho hid => hmem (List.mem_map.mpr ⟨o, ho, hid⟩),
      row_eq_none fun o ho hid => hother (List.mem_map.mpr ⟨o, ho, hid⟩)]

def keyed (lib : EvidenceText) (xs : List Observation) (key : String) : List Observation :=
  xs.filter fun o => evidenceKey lib o == key

theorem mem_keyed {key : String} {o : Observation} :
    o ∈ keyed lib xs key ↔ o ∈ xs ∧ evidenceKey lib o = key := by
  rw [keyed, List.mem_filter, beq_iff_eq]

theorem copies_keyed (cf : CollisionFree lib all) (hx : ∀ o ∈ xs, Supplied lib all o)
    {key : String} {o : Observation} (ho : o ∈ keyed lib xs key) :
    copies (keyed lib xs key) o.observationId = copies xs o.observationId := by
  have ⟨hmem, hkey⟩ := mem_keyed.mp ho
  unfold copies keyed
  rw [List.filter_filter]
  refine List.filter_congr fun p hp => ?_
  by_cases hid : p.observationId = o.observationId
  · have hsame := data_of_id cf (hx p hp) (hx o hmem) hid
    rw [evidenceKey_of_data hsame, hkey, hid, beq_self_eq_true, beq_self_eq_true]
    rfl
  · rw [beq_eq_false_iff_ne.mpr hid, Bool.false_and]

theorem uniteMembers_keyed (cf : CollisionFree lib all) (hx : ∀ o ∈ xs, Supplied lib all o)
    (key : String) : uniteMembers lib (keyed lib xs key) =
      (ascending ((keyed lib xs key).map (·.observationId))).filterMap (row lib xs) := by
  refine List.filterMap_congr fun oid hoid => ?_
  have ⟨o, ho, hid⟩ := List.mem_map.mp ((mem_sortedKeys _ _).mp hoid)
  rw [row, ← hid, ← copies_keyed cf hx ho]
  rfl

theorem Agree.keyed_ids (cf : CollisionFree lib all) (hx : ∀ o ∈ xs, Supplied lib all o)
    (hy : ∀ o ∈ ys, Supplied lib all o) (h : Agree lib xs ys) {key oid : String}
    (hin : oid ∈ (keyed lib xs key).map (·.observationId)) :
    oid ∈ (keyed lib ys key).map (·.observationId) := by
  have ⟨o, ho, hid⟩ := List.mem_map.mp hin
  have ⟨hmem, hkey⟩ := mem_keyed.mp ho
  have ⟨p, hp, hpid⟩ := List.mem_map.mp ((h.ids oid).mp (List.mem_map.mpr ⟨o, hmem, hid⟩))
  have hsame := data_of_id cf (hy p hp) (hx o hmem) (hpid.trans hid.symm)
  refine List.mem_map.mpr ⟨p, mem_keyed.mpr ⟨hp, ?_⟩, hpid⟩
  rw [evidenceKey_of_data hsame, hkey]

theorem Agree.symm (h : Agree lib xs ys) : Agree lib ys xs :=
  ⟨fun oid => (h.ids oid).symm, fun oid => (h.references oid).symm,
    fun oid => (h.truncated oid).symm⟩

theorem Agree.group_eq (cf : CollisionFree lib all) (hx : ∀ o ∈ xs, Supplied lib all o)
    (hy : ∀ o ∈ ys, Supplied lib all o) (h : Agree lib xs ys) (key : String) :
    groupOf lib key (keyed lib xs key) = groupOf lib key (keyed lib ys key) := by
  have hids : ∀ oid, oid ∈ (keyed lib xs key).map (·.observationId) ↔
      oid ∈ (keyed lib ys key).map (·.observationId) :=
    fun oid => ⟨h.keyed_ids cf hx hy, h.symm.keyed_ids cf hy hx⟩
  have hrows : uniteMembers lib (keyed lib xs key) = uniteMembers lib (keyed lib ys key) := by
    rw [uniteMembers_keyed cf hx, uniteMembers_keyed cf hy, ascending_congr hids]
    exact List.filterMap_congr fun oid _ => h.row_eq cf hx hy oid
  cases hxs : keyed lib xs key with
  | nil =>
    cases hys : keyed lib ys key with
    | nil => rfl
    | cons p rest =>
      have hin := (hids p.observationId).mpr (by rw [hys]; exact List.mem_cons_self)
      rw [hxs] at hin
      exact absurd hin List.not_mem_nil
  | cons o rest =>
    cases hys : keyed lib ys key with
    | nil =>
      have hin := (hids o.observationId).mp (by rw [hxs]; exact List.mem_cons_self)
      rw [hys] at hin
      exact absurd hin List.not_mem_nil
    | cons p rest' =>
      have ⟨ho, hokey⟩ := mem_keyed.mp (hxs ▸ List.mem_cons_self : o ∈ keyed lib xs key)
      have ⟨hp, hpkey⟩ := mem_keyed.mp (hys ▸ List.mem_cons_self : p ∈ keyed lib ys key)
      have hidentity := identity_of_key cf (hx o ho) (hy p hp) (hokey.trans hpkey.symm)
      rw [hxs, hys] at hrows
      simp only [groupOf]
      rw [hrows, hidentity]

theorem Agree.unite_eq (cf : CollisionFree lib all) (hx : ∀ o ∈ xs, Supplied lib all o)
    (hy : ∀ o ∈ ys, Supplied lib all o) (h : Agree lib xs ys) : unite lib xs = unite lib ys := by
  have hkeys : ascending (xs.map (evidenceKey lib)) = ascending (ys.map (evidenceKey lib)) := by
    have hin : ∀ {xs ys : List Observation}, (∀ o ∈ xs, Supplied lib all o) →
        (∀ o ∈ ys, Supplied lib all o) → Agree lib xs ys → ∀ key,
        key ∈ xs.map (evidenceKey lib) → key ∈ ys.map (evidenceKey lib) := by
      intro xs ys hx hy h key hkey
      have ⟨o, ho, hokey⟩ := List.mem_map.mp hkey
      have ⟨p, hp, hpid⟩ := List.mem_map.mp ((h.ids o.observationId).mp (List.mem_map_of_mem ho))
      refine List.mem_map.mpr ⟨p, hp, ?_⟩
      rw [evidenceKey_of_data (data_of_id cf (hy p hp) (hx o ho) hpid), hokey]
    exact ascending_congr fun key => ⟨hin hx hy h key, hin hy hx h.symm key⟩
  change (ascending (xs.map (evidenceKey lib))).filterMap
      (fun key => groupOf lib key (keyed lib xs key)) =
    (ascending (ys.map (evidenceKey lib))).filterMap
      (fun key => groupOf lib key (keyed lib ys key))
  rw [hkeys]
  exact List.filterMap_congr fun key _ => h.group_eq cf hx hy key

end Agreement

section Absorption

variable {lib : EvidenceText} {all xs ys : List Observation}

/-- The observations of a union are the rows of its ids. -/
theorem mem_rows_iff (cf : CollisionFree lib all) (hx : ∀ o ∈ xs, Supplied lib all o)
    {o : Observation} : o ∈ rows (unite lib xs) ↔ row lib xs o.observationId = some o := by
  constructor
  · intro h
    have ⟨g, hg, hog⟩ := List.mem_flatMap.mp h
    have ⟨key, _, hgroup⟩ := List.mem_filterMap.mp hg
    rw [groupOf_observations hgroup] at hog
    change o ∈ uniteMembers lib (keyed lib xs key) at hog
    rw [uniteMembers_keyed cf hx] at hog
    have ⟨oid, _, hrow⟩ := List.mem_filterMap.mp hog
    rw [(row_spec cf hx hrow).1]
    exact hrow
  · intro h
    have ⟨_, ⟨p, hp, hpid, hdata⟩, _⟩ := row_spec cf hx h
    have hpkeyed : p ∈ keyed lib xs (evidenceKey lib p) := mem_keyed.mpr ⟨hp, rfl⟩
    have hmember : o ∈ uniteMembers lib (keyed lib xs (evidenceKey lib p)) := by
      rw [uniteMembers_keyed cf hx]
      refine List.mem_filterMap.mpr ⟨o.observationId, mem_ascending.mpr ?_, h⟩
      exact List.mem_map.mpr ⟨p, hpkeyed, hpid⟩
    have ⟨g, hg⟩ : ∃ g, groupOf lib (evidenceKey lib p) (keyed lib xs (evidenceKey lib p)) =
        some g := by
      cases hmembers : keyed lib xs (evidenceKey lib p) with
      | nil =>
        rw [hmembers] at hpkeyed
        exact absurd hpkeyed List.not_mem_nil
      | cons first rest => exact ⟨_, rfl⟩
    refine List.mem_flatMap.mpr ⟨g, List.mem_filterMap.mpr ⟨evidenceKey lib p, ?_, hg⟩, ?_⟩
    · exact (mem_sortedKeys _ _).mpr (List.mem_map_of_mem hp)
    · rw [groupOf_observations hg]
      exact hmember

theorem rows_supplied (cf : CollisionFree lib all) (hx : ∀ o ∈ xs, Supplied lib all o) :
    ∀ o ∈ rows (unite lib xs), Supplied lib all o :=
  fun _ ho => row_supplied cf hx ((mem_rows_iff cf hx).mp ho)

theorem rows_ids (cf : CollisionFree lib all) (hx : ∀ o ∈ xs, Supplied lib all o)
    (oid : String) : oid ∈ (rows (unite lib xs)).map (·.observationId) ↔
      oid ∈ xs.map (·.observationId) := by
  rw [List.mem_map, List.mem_map]
  constructor
  · intro ⟨o, ho, hid⟩
    have ⟨_, ⟨p, hp, hpid, _⟩, _⟩ := row_spec cf hx ((mem_rows_iff cf hx).mp ho)
    exact ⟨p, hp, hpid.trans hid⟩
  · intro ⟨o, ho, hid⟩
    have ⟨r, hr⟩ := exists_row lib ho hid
    have hrid := (row_spec cf hx hr).1
    exact ⟨r, (mem_rows_iff cf hx).mpr (by rw [hrid]; exact hr), hrid⟩

theorem rows_refKeys (cf : CollisionFree lib all) (hx : ∀ o ∈ xs, Supplied lib all o)
    (oid json : String) : json ∈ refKeys lib (rows (unite lib xs)) oid ↔
      json ∈ (ascending (refKeys lib xs oid)).take maxArtifactRefs := by
  rw [mem_refKeys]
  constructor
  · intro ⟨o, ho, hid, r, hr, hjson⟩
    have ⟨_, _, hrefs, _⟩ := row_spec cf hx ((mem_rows_iff cf hx).mp ho)
    rw [hrefs, hid] at hr
    have ⟨json', hin, hdecode⟩ := List.mem_filterMap.mp hr
    rw [← hjson, json_of_decode hdecode]
    exact hin
  · intro hin
    have ⟨o, ho, hid, r, hr, hjson⟩ := mem_refKeys.mp (mem_ascending.mp (List.mem_of_mem_take hin))
    have ⟨t, ht⟩ := exists_row lib ho hid
    have ⟨htid, _, htrefs, _⟩ := row_spec cf hx ht
    have ⟨p, hp, hrp⟩ := (hx o ho).references r hr
    refine ⟨t, (mem_rows_iff cf hx).mpr (by rw [htid]; exact ht), htid, r, ?_, hjson⟩
    rw [htrefs]
    refine List.mem_filterMap.mpr ⟨json, hin, ?_⟩
    rw [← hjson]
    exact decode_json cf hp hrp

theorem rows_carried (cf : CollisionFree lib all) (hx : ∀ o ∈ xs, Supplied lib all o)
    (oid : String) : carried (rows (unite lib xs)) oid = true ↔
      carried xs oid = true ∨ maxArtifactRefs < (ascending (refKeys lib xs oid)).length := by
  rw [carried_iff]
  constructor
  · intro ⟨o, ho, hid, htruncated⟩
    have ⟨_, _, _, hflag⟩ := row_spec cf hx ((mem_rows_iff cf hx).mp ho)
    rw [hid] at hflag
    exact hflag.mp htruncated
  · intro h
    have ⟨o, ho, hid⟩ : ∃ o ∈ xs, o.observationId = oid := by
      cases h with
      | inl hcarried =>
        have ⟨o, ho, hid, _⟩ := carried_iff.mp hcarried
        exact ⟨o, ho, hid⟩
      | inr hlong =>
        have ⟨json, hjson⟩ := List.exists_mem_of_length_pos (Nat.zero_lt_of_lt hlong)
        have ⟨o, ho, hid, _⟩ := mem_refKeys.mp (mem_ascending.mp hjson)
        exact ⟨o, ho, hid⟩
    have ⟨t, ht⟩ := exists_row lib ho hid
    have ⟨htid, _, _, hflag⟩ := row_spec cf hx ht
    exact ⟨t, (mem_rows_iff cf hx).mpr (by rw [htid]; exact ht), htid, hflag.mpr h⟩

theorem rows_append_ascending (cf : CollisionFree lib all) (hx : ∀ o ∈ xs, Supplied lib all o)
    (oid : String) : ascending (refKeys lib (rows (unite lib xs) ++ ys) oid) =
      ascending ((ascending (refKeys lib xs oid)).take maxArtifactRefs ++ refKeys lib ys oid) := by
  refine ascending_congr fun json => ?_
  rw [refKeys_append, List.mem_append, List.mem_append, rows_refKeys cf hx]

theorem carried_append (oid : String) :
    carried (xs ++ ys) oid = (carried xs oid || carried ys oid) := by
  rw [carried, copies_append, List.any_append]
  rfl

/-- Uniting a part of the observations first makes no difference. -/
theorem rows_agree (cf : CollisionFree lib all) (hx : ∀ o ∈ xs, Supplied lib all o) :
    Agree lib (rows (unite lib xs) ++ ys) (xs ++ ys) := by
  refine ⟨fun oid => ?_, fun oid => ?_, fun oid => ?_⟩
  · rw [List.map_append, List.map_append, List.mem_append, List.mem_append, rows_ids cf hx]
  · rw [rows_append_ascending cf hx, take_ascending_append, refKeys_append]
  · have hcap := lt_ascending_append maxArtifactRefs (refKeys lib xs oid) (refKeys lib ys oid)
    rw [rows_append_ascending cf hx, refKeys_append, ← hcap, carried_append, carried_append,
      Bool.or_eq_true, Bool.or_eq_true, rows_carried cf hx]
    constructor
    · intro h
      rcases h with ((hcarried | hlong) | hcarried) | hlong
      · exact .inl (.inl hcarried)
      · exact .inr (.inl hlong)
      · exact .inl (.inr hcarried)
      · exact .inr (.inr hlong)
    · intro h
      rcases h with (hcarried | hcarried) | hlong | hlong
      · exact .inl (.inl (.inl hcarried))
      · exact .inl (.inr hcarried)
      · exact .inl (.inl (.inr hlong))
      · exact .inr hlong

theorem unite_absorb (cf : CollisionFree lib all) (hx : ∀ o ∈ xs, Supplied lib all o)
    (hy : ∀ o ∈ ys, Supplied lib all o) :
    unite lib (rows (unite lib xs) ++ ys) = unite lib (xs ++ ys) :=
  (rows_agree cf hx).unite_eq cf
    (List.forall_mem_append.mpr ⟨rows_supplied cf hx, hy⟩) (List.forall_mem_append.mpr ⟨hx, hy⟩)

end Absorption

section Contents

variable {lib : EvidenceText} {all xs : List Observation}

end Contents

section Sidecars

variable {lib : EvidenceText} {all : List Observation}

/-- The rows held are the union of what has been read. -/
structure Absorbed (lib : EvidenceText) (all : List Observation) (held read : List Observation) :
    Prop where
  kept : ∀ o ∈ held, Supplied lib all o
  given : ∀ o ∈ read, Supplied lib all o
  ids : (held.map (·.observationId)).Nodup
  union : unite lib held = unite lib read

theorem Absorbed.append (cf : CollisionFree lib all) {held read rest : List Observation}
    (h : Absorbed lib all held read) (hrest : ∀ o ∈ rest, Supplied lib all o) :
    unite lib (held ++ rest) = unite lib (read ++ rest) := by
  rw [← unite_absorb cf h.kept hrest, h.union, unite_absorb cf h.given hrest]

def others (held : List Observation) (item : Observation) : List Observation :=
  held.filter fun o => o.observationId != item.observationId

section Copy

variable {held : List Observation} {first item : Observation}

end Copy

end Sidecars

section Union

variable {lib : EvidenceText} {xs ys : List Observation}

def sourceDigest : String := "0123456789abcdef0123456789abcdef0123456789abcdef0123456789abcdef"

def matched : ObservationData where
  schema := observationSchema
  tenantId := "acme"
  runId := "run-1"
  source := "pulse"
  engineVersion := none
  rulesetVersion := none
  ruleId := some "pulse:local"
  ruleDigest := sourceDigest
  matcher := none
  observedAt := some "2026-01-02T03:04:05.000000Z"
  subject := ⟨"10.0.0.5", some 443, "tcp", none, none, none, none⟩
  cve := some "CVE-2026-0001"
  title := "CVE-2026-0001"
  evidenceKind := "version_match"
  confidence := some 80
  severity := "high"
  requiresConfirmation := true
  preview := ""
  evidenceDigest := sourceDigest

end Union

end Shapoclyack.EvidenceUnions
