import Mathlib
import Shapoclyack.AssetGroupRules

set_option autoImplicit false

namespace Shapoclyack.AssetGroups

open AssetGroupRules
open ArtifactSchemas (Json)
open ResumedBatches (strip)
open Library (Truth)

section Model

def contextFields : List String :=
  ["owner_email", "business_unit", "business_service", "environment", "data_classification",
    "exposure_level", "asset_criticality"]

inductive ContextSource where
  | operator
  | cmdb
  | ad
  | other
deriving DecidableEq

inductive EventSource where
  | explicit (source : ContextSource)
  | groupRule
deriving DecidableEq

structure Group where
  id : String
  enabled : Bool
  priority : ℕ
  version : ℕ
  rules : Json
  context : List (String × Scalar)

structure Provenance where
  groupId : String
  version : ℕ
  value : Scalar
  previous : Option Scalar
deriving DecidableEq

/-- The context of one asset, who manages its fields, and the sources of their latest events. -/
@[ext]
structure Row where
  context : String → Option Scalar
  managed : String → Option Provenance
  latest : String → Option EventSource

/-- The value of a field before any rule's, which is what predicates see. -/
def external (row : Row) (field : String) : Option Scalar :=
  match row.managed field with
  | some provenance =>
    if row.context field = some provenance.value then provenance.previous else row.context field
  | none => row.context field

def jsonOf (value : Option Scalar) : Json := (value.map Scalar.toJson).getD .null

def snapshotOf (context : String → Option Scalar) (evidence : Snapshot) : Snapshot :=
  contextFields.map (fun field => (field, jsonOf (context field))) ++ evidence

variable (casefold : String → String)

def matched (snapshot : Snapshot) (group : Group) : Except String Bool :=
  if group.enabled then
    (evaluateRules casefold group.rules snapshot).map fun result => decide (result = some true)
  else .ok false

def matchesOf (snapshot : Snapshot) : List Group → Except String (List Group)
  | [] => .ok []
  | group :: groups => do
    let result ← matched casefold snapshot group
    let members ← matchesOf snapshot groups
    return if result then group :: members else members

/-- The outcome of the proposals for one field. -/
inductive Contest where
  | none
  | conflict
  | won (group : Group) (value : Scalar)

def proposals (members : List Group) (field : String) : List (Group × Scalar) :=
  members.filterMap fun group => (group.context.lookup field).map fun value => (group, value)

def leaders (proposed : List (Group × Scalar)) : List (Group × Scalar) :=
  proposed.filter fun proposal => proposed.all fun other =>
    decide (other.1.priority ≤ proposal.1.priority)

def contest (members : List Group) (field : String) : Contest :=
  match leaders (proposals members field) with
  | [] => .none
  | first :: rest =>
    if rest.any fun proposal => decide (proposal.2 ≠ first.2) then .conflict
    else
      let winner := rest.foldl (fun best proposal =>
        if proposal.1.id < best.1.id then proposal else best) first
      .won winner.1 winner.2

def ownerStillProposes (groups members : List Group) (field : String) (provenance : Provenance) :
    Bool :=
  (groups.find? fun group => group.id == provenance.groupId).any fun owner =>
    owner.enabled && members.any (fun group => group.id == owner.id) &&
      (owner.context.lookup field).isSome

structure Change where
  old : Option Scalar
  new : Option Scalar
  groupId : String
  version : ℕ
deriving DecidableEq

def owned (row : Row) (field : String) : Bool :=
  (row.managed field).any fun provenance => decide (row.context field = some provenance.value)

/-- The latest explicit event protects a field, also one that it cleared. -/
def protectedField (row : Row) (field : String) : Bool :=
  !owned row field && ((row.context field).isSome ||
    (row.latest field).any fun source => decide (source ≠ .groupRule))

/-- What `_plan` changes of a field. -/
def planned (groups members : List Group) (row : Row) (field : String) : Option Change :=
  match contest members field, row.managed field with
  | .won group value, provenance =>
    if protectedField row field then none
    else if row.context field ≠ some value ∨ (owned row field = true ∧
        provenance.any (fun p => decide (p.groupId ≠ group.id ∨ p.version ≠ group.version))) then
      some ⟨row.context field, some value, group.id, group.version⟩
    else none
  | .conflict, some provenance =>
    if owned row field && !ownerStillProposes groups members field provenance then
      some ⟨row.context field, provenance.previous, provenance.groupId, provenance.version⟩
    else none
  | .none, some provenance =>
    if owned row field then
      some ⟨row.context field, provenance.previous, provenance.groupId, provenance.version⟩
    else none
  | _, none => none

def written (row : Row) (field : String) : Option Change → Option Scalar
  | some change => change.new
  | none => row.context field

def provenanceAfter (groups members : List Group) (row : Row) (field : String) :
    Option Provenance :=
  let change := planned groups members row field
  let value := written row field change
  match contest members field, row.managed field with
  | .won group winning, provenance =>
    if change = none ∧ provenance.all (fun p => decide (value ≠ some p.value)) then provenance
    else
      match provenance with
      | some p =>
        some { p with groupId := group.id, version := group.version, value := winning }
      | none => some ⟨group.id, group.version, winning, row.context field⟩
  | .conflict, some provenance =>
    if value = some provenance.value ∧
        ownerStillProposes groups members field provenance = true then some provenance
    else none
  | _, none => none
  | .none, some _ => none

/-- What the batch writes on one asset. -/
def applied (groups members : List Group) (row : Row) : Row where
  context field := written row field (planned groups members row field)
  managed field := provenanceAfter groups members row field
  latest field :=
    match planned groups members row field with
    | some change => if change.old = change.new then row.latest field else some .groupRule
    | none => row.latest field

/-- One asset of a batch; where a rule raises, the transaction is rolled back. -/
def recalculated (groups : List Group) (evidence : Snapshot) (row : Row) : Except String Row :=
  (matchesOf casefold (snapshotOf (external row) evidence) groups).map fun members =>
    applied groups members row

def stored : Option Scalar → Option Scalar
  | some (.text text) =>
    if strip text.toList = [] then none else some (.text (String.ofList (strip text.toList)))
  | value => value

def revoked (row : Row) (field : String) : Row :=
  { row with managed := Function.update row.managed field none }

def put (row : Row) (field : String) (value : Option Scalar) (source : ContextSource) : Row where
  context := Function.update row.context field value
  managed := Function.update row.managed field none
  latest := Function.update row.latest field (some (.explicit source))

/-- The write of one field by `update_asset`. -/
def updated (row : Row) (field : String) (value : Option Scalar) (source : ContextSource) : Row :=
  let reclaim := (row.managed field).isSome || (decide (stored value = none) &&
    decide (row.latest field = none ∨ row.latest field = some .groupRule))
  if row.context field = stored value ∧ reclaim = false then revoked row field
  else put row field (stored value) source

inductive Act where
  | recalculate (groups : List Group) (evidence : Snapshot)
  | update (field : String) (value : Option Scalar) (source : ContextSource)
  | importCell (field : String) (value : Scalar) (source : ContextSource)

def step (row : Row) : Act → Row
  | .recalculate groups evidence =>
    match recalculated casefold groups evidence row with
    | .ok row' => row'
    | .error _ => row
  | .update field value source => updated row field value source
  | .importCell field value source => put row field (some value) source

def run (row : Row) (acts : List Act) : Row := acts.foldl (step casefold) row

def Untouched (row : Row) : Prop := ∀ field, row.managed field = none

end Model

section Purpose

variable (casefold : String → String)

/-- What the explicit writes alone make of the context. -/
def explicitly (context : String → Option Scalar) : Act → String → Option Scalar
  | .recalculate _ _ => context
  | .update field value _ => Function.update context field (stored value)
  | .importCell field value _ => Function.update context field (some value)

def Member (groups : List Group) (context : String → Option Scalar) (evidence : Snapshot)
    (group : Group) : Prop :=
  group ∈ groups ∧ group.enabled = true ∧
    evaluateRules casefold group.rules (snapshotOf context evidence) = .ok (some true)

def Proposes (groups : List Group) (context : String → Option Scalar) (evidence : Snapshot)
    (field : String) (group : Group) (value : Scalar) : Prop :=
  Member casefold groups context evidence group ∧ group.context.lookup field = some value

def Act.writes (field : String) : Act → Bool
  | .recalculate _ _ => false
  | .update other _ _ => other == field
  | .importCell other _ _ => other == field

end Purpose

section Steps

variable {casefold : String → String} {groups members : List Group} {row other : Row}
  {field : String} {group : Group} {value : Scalar} {provenance : Provenance}

/-- A managed field holds the value it is managed with. -/
def Inv (row : Row) : Prop :=
  ∀ field provenance, row.managed field = some provenance →
    row.context field = some provenance.value

def fieldOf (row : Row) (field : String) :
    Option Scalar × Option Provenance × Option EventSource :=
  (row.context field, row.managed field, row.latest field)

theorem owned_of_managed (hinv : Inv row) (h : row.managed field = some provenance) :
    owned row field = true := by
  rw [owned, h, Option.any_some, decide_eq_true_eq]
  exact hinv field provenance h

theorem owned_of_free (h : row.managed field = none) : owned row field = false := by
  rw [owned, h, Option.any_none]

theorem external_of_managed (hinv : Inv row) (h : row.managed field = some provenance) :
    external row field = provenance.previous := by
  unfold external
  rw [h]
  exact if_pos (hinv field provenance h)

theorem external_of_free (h : row.managed field = none) :
    external row field = row.context field := by
  unfold external
  rw [h]

theorem protectedField_of_managed (hinv : Inv row) (h : row.managed field = some provenance) :
    protectedField row field = false := by
  rw [protectedField, owned_of_managed hinv h, Bool.not_true, Bool.false_and]

theorem applied_protected (hcontest : contest members field = .won group value)
    (hprotected : protectedField row field = true) (hinv : Inv row) :
    fieldOf (applied groups members row) field = fieldOf row field := by
  have hplanned : planned groups members row field = none := by
    unfold planned
    rw [hcontest]
    exact if_pos hprotected
  have hfree : row.managed field = none := by
    cases hmanaged : row.managed field with
    | none => rfl
    | some provenance =>
      rw [protectedField_of_managed hinv hmanaged] at hprotected
      cases hprotected
  unfold fieldOf applied provenanceAfter
  dsimp only
  rw [hplanned, hcontest, hfree]
  rfl

theorem applied_won (hcontest : contest members field = .won group value)
    (hopen : protectedField row field = false) (hinv : Inv row) :
    (applied groups members row).context field = some value ∧
      (applied groups members row).managed field =
        some ⟨group.id, group.version, value, external row field⟩ := by
  cases hmanaged : row.managed field with
  | none =>
    have hnull : row.context field = none := by
      rw [protectedField, owned_of_free hmanaged, Bool.not_false, Bool.true_and,
        Bool.or_eq_false_iff] at hopen
      exact Option.isSome_eq_false_iff.mp hopen.1 |> Option.isNone_iff_eq_none.mp
    have hplanned : planned groups members row field =
        some ⟨none, some value, group.id, group.version⟩ := by
      unfold planned
      rw [hcontest]
      simp only [hopen, hnull, Bool.false_eq_true, if_false]
      exact if_pos (.inl (by simp))
    refine ⟨?_, ?_⟩
    · show written row field (planned groups members row field) = _
      rw [hplanned]
      rfl
    · show provenanceAfter groups members row field = _
      unfold provenanceAfter
      rw [hplanned, hcontest, hmanaged, external_of_free hmanaged]
      simp
  | some provenance =>
    have howned := owned_of_managed hinv hmanaged
    have hold := hinv field provenance hmanaged
    have hprevious := external_of_managed hinv hmanaged
    by_cases hsame : row.context field ≠ some value ∨ (owned row field = true ∧
        (some provenance).any
          (fun p => decide (p.groupId ≠ group.id ∨ p.version ≠ group.version)))
    · have hplanned : planned groups members row field =
          some ⟨row.context field, some value, group.id, group.version⟩ := by
        unfold planned
        rw [hcontest, hmanaged]
        simp only [hopen, Bool.false_eq_true, if_false]
        exact if_pos hsame
      refine ⟨?_, ?_⟩
      · show written row field (planned groups members row field) = _
        rw [hplanned]
        rfl
      · show provenanceAfter groups members row field = _
        unfold provenanceAfter
        rw [hplanned, hcontest, hmanaged, hprevious]
        simp
    · obtain ⟨hcontext, hgroup⟩ := not_or.mp hsame
      have hvalue : provenance.value = value :=
        Option.some.inj (hold.symm.trans (not_not.mp hcontext))
      have hids : provenance.groupId = group.id ∧ provenance.version = group.version := by
        simpa [howned] using hgroup
      have hplanned : planned groups members row field = none := by
        unfold planned
        rw [hcontest, hmanaged]
        simp only [hopen, Bool.false_eq_true, if_false]
        exact if_neg hsame
      refine ⟨?_, ?_⟩
      · show written row field (planned groups members row field) = _
        rw [hplanned]
        exact not_not.mp hcontext
      · show provenanceAfter groups members row field = _
        unfold provenanceAfter
        rw [hplanned, hcontest, hmanaged, hprevious]
        simp [written, hold, hvalue]

theorem applied_idle (hcontest : ∀ group value, contest members field ≠ .won group value)
    (hmanaged : row.managed field = none) :
    fieldOf (applied groups members row) field = fieldOf row field := by
  have hplanned : planned groups members row field = none := by
    unfold planned
    rw [hmanaged]
    cases houtcome : contest members field with
    | none => rfl
    | conflict => rfl
    | won group value => exact absurd houtcome (hcontest group value)
  have hafter : provenanceAfter groups members row field = none := by
    unfold provenanceAfter
    dsimp only
    rw [hmanaged]
    cases houtcome : contest members field with
    | none => rfl
    | conflict => rfl
    | won group value => exact absurd houtcome (hcontest group value)
  unfold fieldOf applied
  dsimp only
  rw [hplanned, hafter, hmanaged]
  rfl

theorem applied_frozen (hcontest : contest members field = .conflict)
    (hmanaged : row.managed field = some provenance)
    (hstill : ownerStillProposes groups members field provenance = true) (hinv : Inv row) :
    fieldOf (applied groups members row) field = fieldOf row field := by
  have hplanned : planned groups members row field = none := by
    unfold planned
    rw [hcontest, hmanaged]
    simp [hstill]
  unfold fieldOf applied provenanceAfter
  dsimp only
  rw [hplanned, hcontest, hmanaged]
  simp [written, hinv field provenance hmanaged, hstill]

theorem applied_released (hcontest : ∀ group value, contest members field ≠ .won group value)
    (hmanaged : row.managed field = some provenance)
    (hgone : ¬ (contest members field = .conflict ∧
      ownerStillProposes groups members field provenance = true)) (hinv : Inv row) :
    (applied groups members row).context field = provenance.previous ∧
      (applied groups members row).managed field = none := by
  have howned := owned_of_managed hinv hmanaged
  have hplanned : planned groups members row field = some ⟨row.context field,
      provenance.previous, provenance.groupId, provenance.version⟩ := by
    unfold planned
    rw [hmanaged]
    cases houtcome : contest members field with
    | none => exact if_pos howned
    | conflict =>
      have hstill : ownerStillProposes groups members field provenance = false :=
        eq_false_of_ne_true fun hstill => hgone ⟨houtcome, hstill⟩
      exact if_pos (by rw [howned, hstill]; rfl)
    | won group value => exact absurd houtcome (hcontest group value)
  have hafter : provenanceAfter groups members row field = none := by
    unfold provenanceAfter
    dsimp only
    rw [hmanaged]
    cases houtcome : contest members field with
    | none => rfl
    | conflict => exact if_neg fun hkept => hgone ⟨houtcome, hkept.2⟩
    | won group value => exact absurd houtcome (hcontest group value)
  refine ⟨?_, hafter⟩
  show written row field (planned groups members row field) = _
  rw [hplanned]
  rfl

inductive Outcome (groups members : List Group) (row : Row) (field : String) (row' : Row) :
    Prop where
  | kept (same : fieldOf row' field = fieldOf row field)
      (reason : (row.managed field = none ∧
          ((∃ group value, contest members field = .won group value) →
            protectedField row field = true)) ∨
        ∃ provenance, row.managed field = some provenance ∧ contest members field = .conflict ∧
          ownerStillProposes groups members field provenance = true)
  | assigned (group : Group) (value : Scalar) (won : contest members field = .won group value)
      (unprotected : protectedField row field = false)
      (context : row'.context field = some value)
      (managed : row'.managed field =
        some ⟨group.id, group.version, value, external row field⟩)
  | released (provenance : Provenance) (managed : row.managed field = some provenance)
      (lost : ∀ group value, contest members field ≠ .won group value)
      (context : row'.context field = provenance.previous)
      (free : row'.managed field = none)

theorem applied_outcome (hinv : Inv row) (groups members : List Group) (field : String) :
    Outcome groups members row field (applied groups members row) := by
  by_cases hwon : ∃ group value, contest members field = .won group value
  · obtain ⟨group, value, hcontest⟩ := hwon
    cases hprotected : protectedField row field with
    | true =>
      refine .kept (applied_protected hcontest hprotected hinv) (.inl ⟨?_, fun _ => hprotected⟩)
      cases hmanaged : row.managed field with
      | none => rfl
      | some provenance =>
        rw [protectedField_of_managed hinv hmanaged] at hprotected
        cases hprotected
    | false =>
      obtain ⟨hcontext, hmanaged⟩ := @applied_won groups members row field group value hcontest
        hprotected hinv
      exact .assigned group value hcontest hprotected hcontext hmanaged
  · have hlost : ∀ group value, contest members field ≠ .won group value :=
      fun group value hcontest => hwon ⟨group, value, hcontest⟩
    cases hmanaged : row.managed field with
    | none => exact .kept (applied_idle hlost hmanaged) (.inl ⟨hmanaged, fun h => absurd h hwon⟩)
    | some provenance =>
      by_cases hfrozen : contest members field = .conflict ∧
          ownerStillProposes groups members field provenance = true
      · exact .kept (applied_frozen hfrozen.1 hmanaged hfrozen.2 hinv)
          (.inr ⟨provenance, hmanaged, hfrozen⟩)
      · obtain ⟨hcontext, hfree⟩ := @applied_released groups members row field provenance hlost
          hmanaged hfrozen hinv
        exact .released provenance hmanaged hlost hcontext hfree

theorem Inv.applied (hinv : Inv row) (groups members : List Group) :
    Inv (applied groups members row) := by
  intro field provenance hmanaged
  cases applied_outcome hinv groups members field with
  | kept same _ =>
    obtain ⟨hcontext, hsame, _⟩ := Prod.mk.inj same |>.imp id Prod.mk.inj
    rw [hsame] at hmanaged
    rw [hcontext]
    exact hinv field provenance hmanaged
  | assigned group value _ _ context managed =>
    rw [managed] at hmanaged
    obtain rfl := Option.some.inj hmanaged
    exact context
  | released _ _ _ _ free =>
    rw [free] at hmanaged
    cases hmanaged

/-- A batch never shows in what predicates see. -/
theorem external_applied (hinv : Inv row) (groups members : List Group) :
    external (applied groups members row) = external row := by
  funext field
  cases applied_outcome hinv groups members field with
  | kept same _ =>
    obtain ⟨hcontext, hsame, _⟩ := Prod.mk.inj same |>.imp id Prod.mk.inj
    unfold external
    rw [hsame, hcontext]
  | assigned group value _ _ context managed =>
    rw [external_of_managed (hinv.applied groups members) managed]
  | released provenance managed _ context free =>
    rw [external_of_free free, external_of_managed hinv managed, context]

theorem Inv.put (hinv : Inv row) (field : String) (value : Option Scalar)
    (source : ContextSource) : Inv (put row field value source) := by
  intro other provenance hmanaged
  by_cases hsame : other = field
  · simp [AssetGroups.put, hsame] at hmanaged
  · simp only [AssetGroups.put, Function.update_of_ne hsame] at hmanaged ⊢
    exact hinv other provenance hmanaged

theorem external_put (row : Row) (field : String) (value : Option Scalar)
    (source : ContextSource) :
    external (put row field value source) = Function.update (external row) field value := by
  funext other
  by_cases hsame : other = field
  · subst hsame
    rw [external_of_free (by simp [put]), Function.update_self]
    simp [put]
  · rw [Function.update_of_ne hsame]
    simp only [external, put, Function.update_of_ne hsame]

theorem Inv.revoked (hinv : Inv row) (field : String) : Inv (revoked row field) := by
  intro other provenance hmanaged
  by_cases hsame : other = field
  · simp [AssetGroups.revoked, hsame] at hmanaged
  · simp only [AssetGroups.revoked, Function.update_of_ne hsame] at hmanaged ⊢
    exact hinv other provenance hmanaged

theorem revoked_free (h : row.managed field = none) : revoked row field = row := by
  unfold revoked
  rw [← h, Function.update_eq_self]

theorem updated_cases (row : Row) (field : String) (value : Option Scalar)
    (source : ContextSource) :
    updated row field value source = put row field (stored value) source ∨
      (updated row field value source = row ∧ row.managed field = none ∧
        row.context field = stored value ∧
          (stored value = none → ∃ source, row.latest field = some (.explicit source))) := by
  unfold updated
  dsimp only
  split_ifs with hkept
  · obtain ⟨hsame, hreclaim⟩ := hkept
    obtain ⟨hmanaged, hnull⟩ := Bool.or_eq_false_iff.mp hreclaim
    have hfree : row.managed field = none := Option.isNone_iff_eq_none.mp
      (Option.isSome_eq_false_iff.mp hmanaged)
    refine .inr ⟨revoked_free hfree, hfree, hsame, fun hnone => ?_⟩
    simp only [hnone, decide_true, Bool.true_and, decide_eq_false_iff_not, not_or] at hnull
    cases hlatest : row.latest field with
    | none => exact absurd hlatest hnull.1
    | some latest =>
      cases latest with
      | explicit source => exact ⟨source, rfl⟩
      | groupRule => exact absurd hlatest hnull.2
  · exact .inl rfl

theorem recalculate_cases (casefold : String → String) (row : Row) (groups : List Group)
    (evidence : Snapshot) :
    step casefold row (.recalculate groups evidence) = row ∨
      ∃ members, matchesOf casefold (snapshotOf (external row) evidence) groups =
          .ok members ∧
        step casefold row (.recalculate groups evidence) = applied groups members row := by
  cases hmembers : matchesOf casefold (snapshotOf (external row) evidence) groups with
  | error message =>
    refine .inl ?_
    show (match recalculated casefold groups evidence row with
      | .ok row' => row'
      | .error _ => row) = row
    rw [recalculated, hmembers]
    rfl
  | ok members =>
    refine .inr ⟨members, rfl, ?_⟩
    show (match recalculated casefold groups evidence row with
      | .ok row' => row'
      | .error _ => row) = _
    rw [recalculated, hmembers]
    rfl

theorem Inv.step (hinv : Inv row) (act : Act) : Inv (step casefold row act) := by
  cases act with
  | recalculate groups evidence =>
    rcases recalculate_cases casefold row groups evidence with hsame | ⟨members, _, happlied⟩
    · rw [hsame]
      exact hinv
    · rw [happlied]
      exact hinv.applied groups members
  | update field value source =>
    rcases updated_cases row field value source with hput | ⟨hsame, _⟩
    · show Inv (updated row field value source)
      rw [hput]
      exact hinv.put field _ source
    · show Inv (updated row field value source)
      rw [hsame]
      exact hinv
  | importCell field value source => exact hinv.put field _ source

theorem external_step (hinv : Inv row) (act : Act) :
    external (step casefold row act) = explicitly (external row) act := by
  cases act with
  | recalculate groups evidence =>
    rcases recalculate_cases casefold row groups evidence with hsame | ⟨members, _, happlied⟩
    · rw [hsame]
      rfl
    · rw [happlied]
      exact external_applied hinv groups members
  | update field value source =>
    show external (updated row field value source) = _
    rcases updated_cases row field value source with hput | ⟨hsame, hfree, hvalue, _⟩
    · rw [hput, external_put]
      rfl
    · rw [hsame]
      show external row = Function.update (external row) field (stored value)
      rw [← hvalue, ← external_of_free hfree, Function.update_eq_self]
  | importCell field value source => exact external_put row field _ source

theorem Untouched.inv (h : Untouched row) : Inv row := by
  intro field provenance hmanaged
  rw [h field] at hmanaged
  cases hmanaged

theorem Inv.run (hinv : Inv row) (acts : List Act) : Inv (run casefold row acts) := by
  induction acts generalizing row with
  | nil => exact hinv
  | cons act acts ih => exact ih (hinv.step act)

theorem external_run (hinv : Inv row) (acts : List Act) :
    external (run casefold row acts) = acts.foldl explicitly (external row) := by
  induction acts generalizing row with
  | nil => rfl
  | cons act acts ih =>
    rw [List.foldl_cons, ← @external_step casefold row hinv act]
    exact ih (hinv.step act)

/-- What a batch makes of a field it tells from the field alone. -/
theorem Untouched.external_run (h : Untouched row) (acts : List Act) :
    external (AssetGroups.run casefold row acts) = acts.foldl explicitly row.context := by
  rw [AssetGroups.external_run h.inv]
  exact congrArg (acts.foldl explicitly) (funext fun field => external_of_free (h field))

theorem applied_congr (h : fieldOf row field = fieldOf other field) :
    fieldOf (applied groups members row) field = fieldOf (applied groups members other) field := by
  obtain ⟨hcontext, hmanaged, hlatest⟩ := Prod.mk.inj h |>.imp id Prod.mk.inj
  unfold fieldOf applied provenanceAfter planned written protectedField owned
  simp only [hcontext, hmanaged, hlatest]

theorem planned_settled (hcontest : contest members field = .won group value)
    (hopen : protectedField row field = false) (hcontext : row.context field = some value)
    (hmanaged : row.managed field = some provenance) (hid : provenance.groupId = group.id)
    (hversion : provenance.version = group.version) :
    planned groups members row field = none := by
  unfold planned
  rw [hcontest, hmanaged]
  simp [hopen, hcontext, hid, hversion]

theorem latest_of_unplanned (h : planned groups members row field = none) :
    (applied groups members row).latest field = row.latest field := by
  unfold applied
  dsimp only
  rw [h]

theorem applied_again (hinv : Inv row) (groups members : List Group) :
    applied groups members (applied groups members row) = applied groups members row := by
  have hfields : ∀ field, fieldOf (applied groups members (applied groups members row)) field =
      fieldOf (applied groups members row) field := by
    intro field
    cases applied_outcome hinv groups members field with
    | kept same _ => exact applied_congr same
    | assigned group value won _ context managed =>
      have hinv' := hinv.applied groups members
      have hopen := protectedField_of_managed hinv' managed
      obtain ⟨hcontext, hmanaged⟩ :=
        @applied_won groups members (applied groups members row) field group value won hopen hinv'
      have hexternal : external (applied groups members row) field = external row field :=
        congrFun (external_applied hinv groups members) field
      have hplanned :=
        @planned_settled groups members (applied groups members row) field group value _ won hopen
          context managed rfl rfl
      have hlatest : (applied groups members (applied groups members row)).latest field =
          (applied groups members row).latest field := by
        exact latest_of_unplanned hplanned
      have hsame : (applied groups members (applied groups members row)).managed field =
          (applied groups members row).managed field := by
        rw [hmanaged, managed, hexternal]
      exact Prod.ext (hcontext.trans context.symm) (Prod.ext hsame hlatest)
    | released provenance _ lost _ free => exact applied_idle lost free
  have hcontext : ∀ field, _ := fun field => congrArg Prod.fst (hfields field)
  have hmanaged : ∀ field, _ := fun field => congrArg (fun f => f.2.1) (hfields field)
  have hlatest : ∀ field, _ := fun field => congrArg (fun f => f.2.2) (hfields field)
  exact Row.ext (funext hcontext) (funext hmanaged) (funext hlatest)

/-- A field that an explicit write has given its value. -/
def Claimed (field : String) (value : Option Scalar) (row : Row) : Prop :=
  row.context field = value ∧ row.managed field = none ∧
    (value = none → ∃ source, row.latest field = some (.explicit source))

theorem Claimed.protectedField {value : Option Scalar} (h : Claimed field value row) :
    protectedField row field = true := by
  obtain ⟨hcontext, hmanaged, hlatest⟩ := h
  rw [AssetGroups.protectedField, owned_of_free hmanaged, hcontext, Bool.not_false, Bool.true_and,
    Bool.or_eq_true_iff]
  cases value with
  | some value => exact .inl rfl
  | none =>
    obtain ⟨source, hsource⟩ := hlatest rfl
    rw [hsource]
    exact .inr rfl

theorem Claimed.step {value : Option Scalar} (h : Claimed field value row) (hinv : Inv row)
    {act : Act} (hact : act.writes field = false) :
    Claimed field value (step casefold row act) := by
  have hother : ∀ {other : String} (new : Option Scalar) (source : ContextSource),
      (other == field) = false → Claimed field value (put row other new source) := by
    intro other new source hne
    have hdifferent : field ≠ other := fun hsame => by simp [hsame] at hne
    obtain ⟨hcontext, hmanaged, hlatest⟩ := h
    unfold Claimed put
    simp only [Function.update_of_ne hdifferent]
    exact ⟨hcontext, hmanaged, hlatest⟩
  cases act with
  | recalculate groups evidence =>
    rcases recalculate_cases casefold row groups evidence with hsame | ⟨members, _, happlied⟩
    · rw [hsame]
      exact h
    · rw [happlied]
      have hkept : fieldOf (applied groups members row) field = fieldOf row field := by
        cases applied_outcome hinv groups members field with
        | kept same _ => exact same
        | assigned group value' _ unprotected _ _ =>
          rw [h.protectedField] at unprotected
          cases unprotected
        | released provenance managed _ _ _ =>
          rw [h.2.1] at managed
          cases managed
      obtain ⟨hcontext, hmanaged, hlatest⟩ := Prod.mk.inj hkept |>.imp id Prod.mk.inj
      unfold Claimed
      rw [hcontext, hmanaged, hlatest]
      exact h
  | update other new source =>
    show Claimed field value (updated row other new source)
    rcases updated_cases row other new source with hput | ⟨hsame, _⟩
    · rw [hput]
      exact hother _ source hact
    · rw [hsame]
      exact h
  | importCell other new source => exact hother _ source hact

theorem claimed_put (row : Row) (field : String) (value : Option Scalar) (source : ContextSource) :
    Claimed field value (put row field value source) := by
  unfold Claimed put
  simp

theorem claimed_of_writes {act : Act} (h : act.writes field = true) :
    Claimed field (explicitly (external row) act field) (step casefold row act) := by
  cases act with
  | recalculate groups evidence => cases h
  | update other new source =>
    obtain rfl : other = field := beq_iff_eq.mp h
    have hwritten : explicitly (external row) (.update other new source) other = stored new :=
      Function.update_self _ _ _
    rw [hwritten]
    show Claimed other (stored new) (updated row other new source)
    rcases updated_cases row other new source with hput | ⟨hsame, hfree, hvalue, hlatest⟩
    · rw [hput]
      exact claimed_put row other _ source
    · rw [hsame]
      exact ⟨hvalue, hfree, hlatest⟩
  | importCell other new source =>
    obtain rfl : other = field := beq_iff_eq.mp h
    have hwritten : explicitly (external row) (.importCell other new source) other = some new :=
      Function.update_self _ _ _
    rw [hwritten]
    exact claimed_put row other _ source

theorem Claimed.run {value : Option Scalar} (h : Claimed field value row) (hinv : Inv row)
    {acts : List Act} (hacts : ∀ act ∈ acts, act.writes field = false) :
    Claimed field value (run casefold row acts) := by
  induction acts generalizing row with
  | nil => exact h
  | cons act acts ih =>
    exact ih (h.step hinv (hacts act List.mem_cons_self)) (hinv.step act)
      fun later hlater => hacts later (List.mem_cons_of_mem _ hlater)

theorem run_append (row : Row) (acts later : List Act) :
    run casefold row (acts ++ later) = run casefold (run casefold row acts) later :=
  List.foldl_append

theorem matched_true {snapshot : Snapshot} :
    matched casefold snapshot group = .ok true ↔ group.enabled = true ∧
      evaluateRules casefold group.rules snapshot = .ok (some true) := by
  unfold matched
  cases henabled : group.enabled with
  | false => simp
  | true =>
    cases hresult : evaluateRules casefold group.rules snapshot with
    | error message => simp [Except.map]
    | ok result => simp [Except.map]

theorem mem_matchesOf_matched {snapshot : Snapshot}
    (h : matchesOf casefold snapshot groups = .ok members) :
    group ∈ members ↔ group ∈ groups ∧ matched casefold snapshot group = .ok true := by
  induction groups generalizing members with
  | nil =>
    rw [← Except.ok.inj h]
    simp
  | cons first rest ih =>
    unfold matchesOf at h
    cases hfirst : matched casefold snapshot first with
    | error message => simp [hfirst, bind, Except.bind] at h
    | ok result =>
      cases hrest : matchesOf casefold snapshot rest with
      | error message => simp [hfirst, hrest, bind, Except.bind] at h
      | ok others =>
        simp only [hfirst, hrest, bind, Except.bind, pure, Except.pure, Except.ok.injEq] at h
        have hothers := ih hrest
        cases result with
        | true =>
          rw [if_pos rfl] at h
          rw [← h, List.mem_cons, List.mem_cons, hothers]
          constructor
          · rintro (rfl | hlater)
            · exact ⟨.inl rfl, hfirst⟩
            · exact ⟨.inr hlater.1, hlater.2⟩
          · rintro ⟨rfl | hlater, hmatched⟩
            · exact .inl rfl
            · exact .inr ⟨hlater, hmatched⟩
        | false =>
          rw [if_neg (by decide)] at h
          rw [← h, List.mem_cons, hothers]
          constructor
          · rintro ⟨hlater, hmatched⟩
            exact ⟨.inr hlater, hmatched⟩
          · rintro ⟨rfl | hlater, hmatched⟩
            · rw [hfirst] at hmatched
              cases hmatched
            · exact ⟨hlater, hmatched⟩

theorem mem_matchesOf {context : String → Option Scalar} {evidence : Snapshot}
    (h : matchesOf casefold (snapshotOf context evidence) groups = .ok members) :
    group ∈ members ↔ Member casefold groups context evidence group := by
  rw [mem_matchesOf_matched h, matched_true]
  rfl

theorem mem_leaders {proposed : List (Group × Scalar)} {proposal : Group × Scalar} :
    proposal ∈ leaders proposed ↔ proposal ∈ proposed ∧
      ∀ other ∈ proposed, other.1.priority ≤ proposal.1.priority := by
  unfold leaders
  simp only [List.mem_filter, List.all_eq_true, decide_eq_true_eq]

theorem mem_proposals : (group, value) ∈ proposals members field ↔
    group ∈ members ∧ group.context.lookup field = some value := by
  unfold proposals
  rw [List.mem_filterMap]
  constructor
  · rintro ⟨member, hmember, hproposal⟩
    obtain ⟨value', hlookup, hpair⟩ := Option.map_eq_some_iff.mp hproposal
    obtain ⟨rfl, rfl⟩ := Prod.mk.inj hpair
    exact ⟨hmember, hlookup⟩
  · rintro ⟨hmember, hlookup⟩
    exact ⟨group, hmember, by rw [hlookup]; rfl⟩

theorem foldl_choice {α : Type} (prefers : α → α → Bool) (first : α) (rest : List α) :
    rest.foldl (fun best a => if prefers a best then a else best) first ∈ first :: rest := by
  induction rest generalizing first with
  | nil => exact List.mem_singleton_self _
  | cons a rest ih =>
    rw [List.foldl_cons]
    rcases List.mem_cons.mp (ih (if prefers a first then a else first)) with hchosen | hlater
    · rw [hchosen]
      split_ifs
      · exact List.mem_cons_of_mem _ List.mem_cons_self
      · exact List.mem_cons_self
    · exact List.mem_cons_of_mem _ (List.mem_cons_of_mem _ hlater)

theorem contest_won (h : contest members field = .won group value) :
    group ∈ members ∧ group.context.lookup field = some value ∧
      ∀ rival ∈ members, ∀ value', rival.context.lookup field = some value' →
        rival.priority ≤ group.priority ∧ (rival.priority = group.priority → value' = value) := by
  unfold contest at h
  split at h
  · cases h
  · rename_i first rest hleaders
    split_ifs at h with hdiffer
    have hwinner := Contest.won.inj h
    have hsame : ∀ proposal ∈ first :: rest, proposal.2 = first.2 := by
      intro proposal hproposal
      rcases List.mem_cons.mp hproposal with rfl | hrest
      · rfl
      · by_contra hne
        exact hdiffer (List.any_eq_true.mpr ⟨proposal, hrest, decide_eq_true hne⟩)
    have hchosen : (group, value) ∈ first :: rest := by
      have hmem := foldl_choice (fun a best => decide (a.1.id < best.1.id)) first rest
      simp only [decide_eq_true_eq] at hmem
      rw [← hwinner.1, ← hwinner.2]
      exact hmem
    have hvalue := hsame _ hchosen
    rw [← hleaders] at hchosen hsame
    obtain ⟨hproposed, htop⟩ := mem_leaders.mp hchosen
    obtain ⟨hmember, hlookup⟩ := mem_proposals.mp hproposed
    refine ⟨hmember, hlookup, fun rival hrival value' hvalue' => ?_⟩
    have hrivals := mem_proposals.mpr ⟨hrival, hvalue'⟩
    refine ⟨htop _ hrivals, fun htie => ?_⟩
    have hleads : (rival, value') ∈ leaders (proposals members field) :=
      mem_leaders.mpr ⟨hrivals, fun other hother => htie ▸ htop other hother⟩
    exact (hsame _ hleads).trans hvalue.symm

theorem contest_conflict (h : contest members field = .conflict) :
    ∃ first second value value', first ∈ members ∧ first.context.lookup field = some value ∧
      second ∈ members ∧ second.context.lookup field = some value' ∧
        first.priority = second.priority ∧ value ≠ value' := by
  unfold contest at h
  split at h
  · cases h
  · rename_i first rest hleaders
    split_ifs at h with hdiffer
    obtain ⟨second, hsecond, hne⟩ := List.any_eq_true.mp hdiffer
    have hfirst : first ∈ leaders (proposals members field) := by
      rw [hleaders]
      exact List.mem_cons_self
    have hlater : second ∈ leaders (proposals members field) := by
      rw [hleaders]
      exact List.mem_cons_of_mem _ hsecond
    obtain ⟨hproposed, htop⟩ := mem_leaders.mp hfirst
    obtain ⟨hproposed', htop'⟩ := mem_leaders.mp hlater
    obtain ⟨hmember, hlookup⟩ := mem_proposals.mp hproposed
    obtain ⟨hmember', hlookup'⟩ := mem_proposals.mp hproposed'
    exact ⟨first.1, second.1, first.2, second.2, hmember, hlookup, hmember', hlookup',
      le_antisymm (htop' _ hproposed) (htop _ hproposed'), Ne.symm (of_decide_eq_true hne)⟩

theorem owner_of_stillProposes (h : ownerStillProposes groups members field provenance = true) :
    ∃ owner ∈ groups, owner.id = provenance.groupId ∧ owner.enabled = true ∧
      (owner.context.lookup field).isSome = true := by
  obtain ⟨owner, howner, hstill⟩ := (Option.any_eq_true _ _).mp h
  simp only [Bool.and_eq_true] at hstill
  have hid := List.find?_some howner
  exact ⟨owner, List.mem_of_find?_eq_some howner, beq_iff_eq.mp hid, hstill.1.1, hstill.2⟩

theorem run_one (row : Row) (act : Act) : run casefold row [act] = step casefold row act := rfl

theorem run_pair (row : Row) (act later : Act) :
    run casefold row [act, later] = step casefold (step casefold row act) later := rfl

end Steps

section Results

variable (casefold : String → String) {row : Row}

/-- Rules never see what rules have written: whatever batches have run, the values that their
predicates read are those of the explicit writes, and a field that nobody manages holds one. -/
theorem batches_invisible (h : Untouched row) (acts : List Act) :
    external (run casefold row acts) = acts.foldl explicitly row.context ∧
      ∀ field, (run casefold row acts).managed field = none →
        (run casefold row acts).context field = acts.foldl explicitly row.context field := by
  refine ⟨h.external_run acts, fun field hfree => ?_⟩
  rw [← h.external_run acts, external_of_free hfree]

def blank : Row := ⟨fun _ => none, fun _ => none, fun _ => none⟩

def activeRules : Json :=
  .obj [("field", .str "status"), ("op", .str "eq"), ("value", .str "active")]

def production : Group :=
  ⟨"g1", true, 10, 1, activeRules, [("environment", .text "production")]⟩

def activeEvidence : Snapshot := [("status", .str "active")]

theorem batches_invisible_blank :
    external (run id blank [.recalculate [production] activeEvidence]) = blank.context ∧
      ∀ field, (run id blank [.recalculate [production] activeEvidence]).managed field = none →
        (run id blank [.recalculate [production] activeEvidence]).context field = none :=
  batches_invisible id (fun _ => rfl) [.recalculate [production] activeEvidence]

/-- A batch that is run again at once changes nothing: rules do not set each other off. -/
theorem batch_settles (h : Untouched row) (acts : List Act) (groups : List Group)
    (evidence : Snapshot) :
    run casefold row (acts ++ [.recalculate groups evidence, .recalculate groups evidence]) =
      run casefold row (acts ++ [.recalculate groups evidence]) := by
  have hinv : Inv (run casefold row acts) := h.inv.run acts
  rw [run_append, run_append, run_pair, run_one]
  rcases recalculate_cases casefold (run casefold row acts) groups evidence with
    hsame | ⟨members, hmembers, happlied⟩
  · rw [hsame, hsame]
  · rw [happlied]
    rcases recalculate_cases casefold (applied groups members (run casefold row acts)) groups
      evidence with hsame | ⟨members', hmembers', happlied'⟩
    · exact hsame
    · rw [external_applied hinv, hmembers] at hmembers'
      rw [happlied', ← Except.ok.inj hmembers']
      exact applied_again hinv groups members

theorem batch_settles_blank :
    run id blank [.recalculate [production] activeEvidence,
        .recalculate [production] activeEvidence] =
      run id blank [.recalculate [production] activeEvidence] :=
  batch_settles id (fun _ => rfl) [] [production] activeEvidence

/-- What was written by hand stays, through any batches and any writes of other fields. -/
theorem explicit_write_lasts (h : Untouched row) (acts later : List Act) {act : Act}
    {field : String} (hact : act.writes field = true)
    (hlater : ∀ other ∈ later, other.writes field = false) :
    (run casefold row (acts ++ act :: later)).context field =
        (acts ++ [act]).foldl explicitly row.context field ∧
      (run casefold row (acts ++ act :: later)).managed field = none := by
  have hinv : Inv (run casefold row acts) := h.inv.run acts
  have hclaimed := @Claimed.run casefold _ field _
    (@claimed_of_writes casefold (run casefold row acts) field act hact) (hinv.step act) later
    hlater
  have hexternal := @Untouched.external_run casefold row h acts
  rw [hexternal] at hclaimed
  rw [run_append, List.foldl_append]
  exact ⟨hclaimed.1, hclaimed.2.1⟩

theorem explicit_write_lasts_blank :
    (run id blank [.update "environment" none .operator,
        .recalculate [production] activeEvidence]).context "environment" = none ∧
      (run id blank [.update "environment" none .operator,
        .recalculate [production] activeEvidence]).managed "environment" = none :=
  @explicit_write_lasts id blank (fun _ => rfl) [] [.recalculate [production] activeEvidence]
    (.update "environment" none .operator) "environment" (by decide +kernel)
    (by simp [Act.writes])

/-- After a batch each field holds what it held before any rule, or what a group proposes that the
asset is a member of and that no other outranks or contradicts; only while groups of one priority
contradict each other does it keep the value of an owner that still proposes one. -/
theorem batch_warranted (h : Untouched row) (acts : List Act) {groups : List Group}
    {evidence : Snapshot} {row' : Row}
    (hok : recalculated casefold groups evidence (run casefold row acts) = .ok row')
    (field : String) :
    row'.context field = acts.foldl explicitly row.context field ∨
      (∃ group value, Proposes casefold groups (acts.foldl explicitly row.context) evidence field
          group value ∧ row'.context field = some value ∧
        ∀ rival value', Proposes casefold groups (acts.foldl explicitly row.context) evidence field
          rival value' → rival.priority ≤ group.priority ∧
            (rival.priority = group.priority → value' = value)) ∨
      (row'.context field = (run casefold row acts).context field ∧
        (∃ first second value value', Proposes casefold groups
            (acts.foldl explicitly row.context) evidence field first value ∧
          Proposes casefold groups (acts.foldl explicitly row.context) evidence field second
            value' ∧
          first.priority = second.priority ∧ value ≠ value') ∧
        ∃ provenance, (run casefold row acts).managed field = some provenance ∧
          ∃ owner ∈ groups, owner.id = provenance.groupId ∧ owner.enabled = true ∧
            (owner.context.lookup field).isSome = true) := by
  have hinv : Inv (run casefold row acts) := h.inv.run acts
  have hexternal := @Untouched.external_run casefold row h acts
  unfold recalculated at hok
  rw [hexternal] at hok
  cases hmembers : matchesOf casefold
    (snapshotOf (acts.foldl explicitly row.context) evidence) groups with
  | error message =>
    rw [hmembers] at hok
    cases hok
  | ok members =>
    rw [hmembers] at hok
    obtain rfl := Except.ok.inj hok
    cases applied_outcome hinv groups members field with
    | kept same reason =>
      have hcontext : (applied groups members (run casefold row acts)).context field =
          (run casefold row acts).context field := congrArg Prod.fst same
      rcases reason with ⟨hfree, _⟩ | ⟨provenance, hmanaged, hconflict, hstill⟩
      · rw [hcontext, ← external_of_free hfree, hexternal]
        exact .inl rfl
      · obtain ⟨first, second, value, value', hfirst, hvalue, hsecond, hvalue', htie, hne⟩ :=
          contest_conflict hconflict
        refine .inr (.inr ⟨hcontext, ⟨first, second, value, value',
          ⟨(mem_matchesOf hmembers).mp hfirst, hvalue⟩,
          ⟨(mem_matchesOf hmembers).mp hsecond, hvalue'⟩, htie, hne⟩, provenance, hmanaged, ?_⟩)
        exact owner_of_stillProposes hstill
    | released provenance managed _ context _ =>
      rw [context, ← external_of_managed hinv managed, hexternal]
      exact .inl rfl
    | assigned group value won _ context _ =>
      obtain ⟨hmem, hlookup, hrivals⟩ := contest_won won
      refine .inr (.inl ⟨group, value, ⟨(mem_matchesOf hmembers).mp hmem, hlookup⟩, context, ?_⟩)
      rintro rival value' ⟨hrival, hvalue'⟩
      exact hrivals rival ((mem_matchesOf hmembers).mpr hrival) value' hvalue'

theorem matchesOf_production :
    matchesOf id (snapshotOf blank.context activeEvidence) [production] = .ok [production] := by
  have hresult : (evaluateRules id activeRules
      (snapshotOf blank.context activeEvidence)).toOption = some (some true) := by
    decide +kernel
  cases hrules : evaluateRules id activeRules (snapshotOf blank.context activeEvidence) with
  | error message =>
    rw [hrules] at hresult
    cases hresult
  | ok truth =>
    rw [hrules] at hresult
    obtain rfl := Option.some.inj hresult
    have hmatched : matched id (snapshotOf blank.context activeEvidence) production =
        .ok true := by
      unfold matched
      rw [show production.rules = activeRules from rfl, hrules]
      rfl
    unfold matchesOf
    rw [hmatched]
    rfl

theorem batch_warranted_blank :
    (applied [production] [production] blank).context "environment" = none ∨
      (∃ group value, Proposes id [production] blank.context activeEvidence "environment"
          group value ∧
        (applied [production] [production] blank).context "environment" = some value ∧
        ∀ rival value', Proposes id [production] blank.context activeEvidence "environment"
          rival value' → rival.priority ≤ group.priority ∧
            (rival.priority = group.priority → value' = value)) ∨
      ((applied [production] [production] blank).context "environment" = none ∧
        (∃ first second value value', Proposes id [production] blank.context activeEvidence
            "environment" first value ∧
          Proposes id [production] blank.context activeEvidence "environment" second value' ∧
          first.priority = second.priority ∧ value ≠ value') ∧
        ∃ provenance, (run id blank []).managed "environment" = some provenance ∧
          ∃ owner ∈ [production], owner.id = provenance.groupId ∧ owner.enabled = true ∧
            (owner.context.lookup "environment").isSome = true) :=
  batch_warranted id (fun _ => rfl) []
    (congrArg (Except.map fun members => applied [production] members blank)
      matchesOf_production) "environment"

end Results

section Endpoints

def maxOsEndpoints : ℕ := 16

structure EndpointSnapshot where
  collectedAt : ℤ
  receivedAt : ℤ

/-- An endpoint device of an asset, with its latest inventory snapshot. -/
structure Observation where
  osFamily : String
  linked : Bool
  snapshot : Option EndpointSnapshot

/-- What one observation says of the OS. -/
inductive Standing where
  | confirmed
  | conflict
  | stale
  | missing
  | unknown
  | incomplete
deriving DecidableEq

def Standing.name : Standing → String
  | .confirmed => "confirmed"
  | .conflict => "conflict"
  | .stale => "stale"
  | .missing => "missing"
  | .unknown => "unknown"
  | .incomplete => "incomplete"

def osFamilies : List String := ["windows", "linux", "macos"]

variable (casefold : String → String)

def familyOf (observation : Observation) : String :=
  let family := casefold (String.ofList (strip observation.osFamily.toList))
  if family = "darwin" then "macos" else family

def fresh (cutoff future : ℤ) (snapshot : EndpointSnapshot) : Bool :=
  decide (cutoff ≤ snapshot.collectedAt) && decide (snapshot.collectedAt ≤ future) &&
    decide (cutoff ≤ snapshot.receivedAt) && decide (snapshot.receivedAt ≤ future)

def standingOf (cutoff future : ℤ) (observation : Observation) : Standing :=
  if observation.linked = false then .conflict
  else
    match observation.snapshot with
    | none => .missing
    | some snapshot =>
      if familyOf casefold observation ∉ osFamilies then .unknown
      else if fresh cutoff future snapshot then .confirmed
      else .stale

def confirmedFamilies (cutoff future : ℤ) (observations : List Observation) : List String :=
  ((observations.filter fun observation =>
    decide (standingOf casefold cutoff future observation = .confirmed)).map
      (familyOf casefold)).dedup

def consensus (cutoff future : ℤ) (observations : List Observation) : Standing :=
  let standings := observations.map (standingOf casefold cutoff future)
  if observations = [] then .missing
  else if .conflict ∈ standings ∨
      1 < (confirmedFamilies casefold cutoff future observations).length then .conflict
  else if .stale ∈ standings then .stale
  else if .missing ∈ standings then .missing
  else if .unknown ∈ standings then .unknown
  else .confirmed

def cutoffOf (now : ℤ) (freshnessHours : ℕ) : ℤ := now - freshnessHours * 3600 * 1000000

def futureOf (now : ℤ) : ℤ := now + 5 * 60 * 1000000

def endpointOsSnapshot (observations : List Observation) (now : ℤ) (freshnessHours : ℕ) :
    Snapshot :=
  let cutoff := cutoffOf now freshnessHours
  let future := futureOf now
  let seen := observations.take maxOsEndpoints
  let state :=
    if maxOsEndpoints < observations.length then .incomplete
    else consensus casefold cutoff future seen
  let family :=
    if state = .confirmed then
      match confirmedFamilies casefold cutoff future seen with
      | [] => .null
      | family :: _ => .str family
    else .null
  [("os_family", family), ("_os_evidence",
    .obj [("source", .str "endpoint_inventory"), ("state", .str state.name)])]

def registered (status : String) (ips fqdns : List String) (tags : List (String × String)) :
    Snapshot :=
  [("status", .str status), ("ip", .arr (ips.map Json.str)), ("fqdn", .arr (fqdns.map Json.str)),
    ("tags", .obj (tags.map fun tag => (tag.1, .str tag.2)))]

/-- Every endpoint of the asset is linked, fresh and of the one family. -/
def Unanimous (observations : List Observation) (now : ℤ) (freshnessHours : ℕ)
    (family : String) : Prop :=
  observations ≠ [] ∧ observations.length ≤ maxOsEndpoints ∧
    ∀ observation ∈ observations, familyOf casefold observation = family ∧
      standingOf casefold (cutoffOf now freshnessHours) (futureOf now) observation = .confirmed

theorem standingOf_confirmed {cutoff future : ℤ} {observation : Observation} :
    standingOf casefold cutoff future observation = .confirmed ↔ observation.linked = true ∧
      familyOf casefold observation ∈ osFamilies ∧ ∃ snapshot,
        observation.snapshot = some snapshot ∧ fresh cutoff future snapshot = true := by
  unfold standingOf
  cases hlinked : observation.linked with
  | false => simp
  | true =>
    cases hsnapshot : observation.snapshot with
    | none => simp
    | some snapshot =>
      by_cases hfamily : familyOf casefold observation ∈ osFamilies
      · cases hfresh : fresh cutoff future snapshot <;> simp [hfamily, hfresh]
      · simp [hfamily]

theorem standingOf_ne_incomplete (cutoff future : ℤ) (observation : Observation) :
    standingOf casefold cutoff future observation ≠ .incomplete := by
  unfold standingOf
  cases observation.snapshot with
  | none => split_ifs <;> simp
  | some snapshot => dsimp only; split_ifs <;> simp

theorem confirmedFamilies_of_same {cutoff future : ℤ} {observations : List Observation}
    {family : String} (hne : observations ≠ [])
    (hall : ∀ observation ∈ observations, familyOf casefold observation = family ∧
      standingOf casefold cutoff future observation = .confirmed) :
    confirmedFamilies casefold cutoff future observations = [family] := by
  have hfilter : observations.filter (fun observation =>
      decide (standingOf casefold cutoff future observation = .confirmed)) = observations :=
    List.filter_eq_self.mpr fun observation hmem => decide_eq_true (hall observation hmem).2
  have hmap : observations.map (familyOf casefold) = List.replicate observations.length family :=
    List.map_eq_replicate_iff.mpr fun observation hmem => (hall observation hmem).1
  unfold confirmedFamilies
  rw [hfilter, hmap]
  exact List.replicate_dedup (mt List.length_eq_zero_iff.mp hne)

/-- The observations come to a confirmation exactly where all of them confirm one family. -/
theorem consensus_confirmed {cutoff future : ℤ} {observations : List Observation} :
    consensus casefold cutoff future observations = .confirmed ↔ observations ≠ [] ∧
      ∃ family, ∀ observation ∈ observations, familyOf casefold observation = family ∧
        standingOf casefold cutoff future observation = .confirmed := by
  unfold consensus
  dsimp only
  constructor
  · intro h
    split_ifs at h with hnil hconflict hstale hmissing hunknown
    obtain ⟨hnoconflict, hfamilies⟩ := not_or.mp hconflict
    have hall : ∀ observation ∈ observations,
        standingOf casefold cutoff future observation = .confirmed := by
      intro observation hmem
      have hstanding := List.mem_map_of_mem (f := standingOf casefold cutoff future) hmem
      cases hcase : standingOf casefold cutoff future observation with
      | confirmed => rfl
      | conflict => exact absurd (hcase ▸ hstanding) hnoconflict
      | stale => exact absurd (hcase ▸ hstanding) hstale
      | missing => exact absurd (hcase ▸ hstanding) hmissing
      | unknown => exact absurd (hcase ▸ hstanding) hunknown
      | incomplete => exact absurd hcase (standingOf_ne_incomplete casefold _ _ observation)
    obtain ⟨first, rest, rfl⟩ := List.exists_cons_of_ne_nil hnil
    refine ⟨hnil, familyOf casefold first, fun observation hmem => ⟨?_, hall observation hmem⟩⟩
    have hin : ∀ other ∈ first :: rest, familyOf casefold other ∈
        confirmedFamilies casefold cutoff future (first :: rest) := by
      intro other hother
      unfold confirmedFamilies
      exact List.mem_dedup.mpr (List.mem_map_of_mem
        (List.mem_filter.mpr ⟨hother, decide_eq_true (hall other hother)⟩))
    have hshort : (confirmedFamilies casefold cutoff future (first :: rest)).length ≤ 1 :=
      Nat.not_lt.mp hfamilies
    have hfirst := hin first List.mem_cons_self
    have hobservation := hin observation hmem
    obtain ⟨only, honly⟩ := List.length_eq_one_iff.mp
      (le_antisymm hshort (List.length_pos_of_mem hfirst))
    rw [honly] at hfirst hobservation
    rw [List.mem_singleton.mp hfirst, List.mem_singleton.mp hobservation]
  · rintro ⟨hne, family, hall⟩
    have hstandings : ∀ standing ∈ observations.map (standingOf casefold cutoff future),
        standing = .confirmed := by
      intro standing hmem
      obtain ⟨observation, hobservation, rfl⟩ := List.mem_map.mp hmem
      exact (hall observation hobservation).2
    have hnot : ∀ standing : Standing, standing ≠ .confirmed →
        standing ∉ observations.map (standingOf casefold cutoff future) :=
      fun standing hother hmem => hother (hstandings standing hmem)
    have hfamilies := confirmedFamilies_of_same casefold hne hall
    rw [if_neg hne, hfamilies, if_neg (by simp [hnot .conflict (by decide)]),
      if_neg (hnot .stale (by decide)), if_neg (hnot .missing (by decide)),
      if_neg (hnot .unknown (by decide))]

variable {casefold} {now : ℤ} {hours : ℕ} {observations : List Observation} {family : String}
  {context : String → Option Scalar} {status : String} {ips fqdns : List String}
  {tags : List (String × String)}

def osEvidence (family : Json) (state : Standing) : Snapshot :=
  [("os_family", family), ("_os_evidence",
    .obj [("source", .str "endpoint_inventory"), ("state", .str state.name)])]

theorem rawOf_osEvidence (family : Json) (state : Standing) :
    rawOf (snapshotOf context (registered status ips fqdns tags ++ osEvidence family state))
      "os_family" = if state = .confirmed then family else .null := by
  have hevidence : confirmed (snapshotOf context (registered status ips fqdns tags ++
      osEvidence family state)) = decide (state = .confirmed) := by
    have hconfirmed : confirmed (osEvidence .null state) = decide (state = .confirmed) := by
      cases state <;> decide +kernel
    exact hconfirmed
  have hlookup : (snapshotOf context (registered status ips fqdns tags ++
      osEvidence family state)).lookup "os_family" = some family := rfl
  unfold rawOf
  rw [hevidence, hlookup]
  by_cases hstate : state = .confirmed
  · rw [if_pos hstate, if_neg (by simp [hstate]), if_neg (fun h => by simp [tagPrefix] at h)]
    rfl
  · rw [if_neg hstate, if_pos ⟨rfl, decide_eq_false hstate⟩]

theorem rawOf_os_family :
    rawOf (snapshotOf context (registered status ips fqdns tags ++
      endpointOsSnapshot casefold observations now hours)) "os_family" = .null ∧
        (∀ family, ¬ Unanimous casefold observations now hours family) ∨
    ∃ family, family ∈ osFamilies ∧ Unanimous casefold observations now hours family ∧
      rawOf (snapshotOf context (registered status ips fqdns tags ++
        endpointOsSnapshot casefold observations now hours)) "os_family" = .str family := by
  unfold endpointOsSnapshot
  dsimp only
  change rawOf (snapshotOf context (_ ++ osEvidence _ _)) _ = _ ∧ _ ∨
    ∃ family, _ ∧ _ ∧ rawOf (snapshotOf context (_ ++ osEvidence _ _)) _ = _
  simp only [rawOf_osEvidence]
  by_cases hlong : maxOsEndpoints < observations.length
  · refine .inl ⟨?_, fun family h => ?_⟩
    · rw [if_pos hlong]
      rfl
    · exact absurd h.2.1 (Nat.not_le.mpr hlong)
  · rw [if_neg hlong, List.take_of_length_le (Nat.not_lt.mp hlong)]
    by_cases hstate : consensus casefold (cutoffOf now hours) (futureOf now) observations =
        .confirmed
    · obtain ⟨hne, family, hall⟩ := (consensus_confirmed casefold).mp hstate
      obtain ⟨observation, hmem⟩ := List.exists_mem_of_ne_nil _ hne
      refine .inr ⟨family, ?_, ⟨hne, Nat.not_lt.mp hlong, hall⟩, ?_⟩
      · obtain ⟨hfamily, hstanding⟩ := hall observation hmem
        exact hfamily ▸ ((standingOf_confirmed casefold).mp hstanding).2.1
      · rw [if_pos hstate, if_pos hstate, confirmedFamilies_of_same casefold hne hall]
    · refine .inl ⟨if_neg hstate, fun family h => ?_⟩
      exact hstate ((consensus_confirmed casefold).mpr ⟨h.1, family, h.2.2⟩)

theorem scalar_family (h : family ∈ osFamilies) : scalar "os_family" (.str family) =
    .ok (.text family) := by
  have hall : ∀ family ∈ osFamilies, scalar "os_family" (.str family) = .ok (.text family) := by
    decide +kernel
  exact hall family h

theorem evaluate_os_leaf (op : Op) (expected : Expected) (negate : Bool) :
    (∀ family, Unanimous casefold observations now hours family →
      evaluate casefold (snapshotOf context (registered status ips fqdns tags ++
        endpointOsSnapshot casefold observations now hours))
          (.leaf "os_family" op expected negate) =
        some (xor negate (xor (denies op)
          (meets casefold "os_family" op expected (.text family))))) ∧
    ((∀ family, ¬ Unanimous casefold observations now hours family) →
      evaluate casefold (snapshotOf context (registered status ips fqdns tags ++
        endpointOsSnapshot casefold observations now hours))
          (.leaf "os_family" op expected negate) = none) := by
  have hread := @rawOf_os_family casefold now hours observations context status ips fqdns tags
  have hsame : ∀ family family', Unanimous casefold observations now hours family →
      Unanimous casefold observations now hours family' → family = family' := by
    rintro family family' ⟨hne, _, hall⟩ ⟨_, _, hall'⟩
    obtain ⟨observation, hmem⟩ := List.exists_mem_of_ne_nil _ hne
    exact (hall observation hmem).1.symm.trans (hall' observation hmem).1
  generalize snapshotOf context (registered status ips fqdns tags ++
    endpointOsSnapshot casefold observations now hours) = snapshot at hread ⊢
  constructor
  · intro family hunanimous
    obtain ⟨_, hnone⟩ | ⟨family', hfamily, hunanimous', hraw⟩ := hread
    · exact absurd hunanimous (hnone family)
    obtain rfl := hsame family family' hunanimous hunanimous'
    have hvalues : valuesOf snapshot "os_family" = [.str family] := by
      unfold valuesOf
      rw [hraw]
    have hknown : isMissing (.str family) = false := by
      have hall : ∀ family ∈ osFamilies, isMissing (.str family) = false := by decide +kernel
      exact hall family hfamily
    have hresult : resultOf casefold "os_family" op expected (.str family) =
        some (xor (denies op) (meets casefold "os_family" op expected (.text family))) := by
      unfold resultOf
      rw [hknown, scalar_family hfamily]
      cases denies op <;> simp
    simp only [evaluate, condition, hvalues, List.map_cons, List.map_nil, hresult]
    cases denies op <;> cases meets casefold "os_family" op expected (.text family) <;>
      cases negate <;> decide
  · intro hnot
    obtain ⟨hraw, _⟩ | ⟨family, _, hunanimous, _⟩ := hread
    · have hvalues : valuesOf snapshot "os_family" = [.null] := by
        unfold valuesOf
        rw [hraw]
      have hresult : resultOf casefold "os_family" op expected .null = none := if_pos rfl
      simp only [evaluate, condition, hvalues, List.map_cons, List.map_nil, hresult]
      cases denies op <;> cases negate <;> decide
    · exact absurd hunanimous (hnot family)

inductive OnlyOn (field : String) : Rule → Prop where
  | leaf (op : Op) (expected : Expected) (negate : Bool) :
    OnlyOn field (.leaf field op expected negate)
  | branch (all : Bool) (children : List Rule) (negate : Bool) (hne : children ≠ [])
    (hchildren : ∀ child ∈ children, OnlyOn field child) :
    OnlyOn field (.branch all children negate)

theorem negated_isSome (negate : Bool) (truth : Truth) :
    (negated negate truth).isSome = truth.isSome := by
  cases negate <;> cases truth <;> rfl

theorem fold_isSome {all known : Bool} {truths : List Truth} (hne : truths ≠ [])
    (h : ∀ truth ∈ truths, truth.isSome = known) : (fold all truths).isSome = known := by
  obtain ⟨first, hfirst⟩ := List.exists_mem_of_ne_nil _ hne
  unfold fold
  cases known with
  | false =>
    have hnone : ∀ truth ∈ truths, truth = none := fun truth hmem =>
      Option.isNone_iff_eq_none.mp (Option.isSome_eq_false_iff.mp (h truth hmem))
    rw [if_neg (fun hmem => by cases hnone _ hmem), if_pos (hnone first hfirst ▸ hfirst)]
    rfl
  | true =>
    have hsome : none ∉ truths := fun hmem => by cases h none hmem
    rw [if_neg hsome]
    split_ifs <;> rfl

/-- Rules on the OS alone are known exactly where the endpoints are unanimous, so that no asset
enters a group on a scanner's guess of its OS. -/
theorem os_rules_need_consensus {rule : Rule} (h : OnlyOn "os_family" rule) :
    (evaluate casefold (snapshotOf context (registered status ips fqdns tags ++
        endpointOsSnapshot casefold observations now hours)) rule).isSome = true ↔
      ∃ family, Unanimous casefold observations now hours family := by
  have hall : ∀ known : Bool, (∀ op expected negate, (evaluate casefold (snapshotOf context
      (registered status ips fqdns tags ++ endpointOsSnapshot casefold observations now hours))
        (.leaf "os_family" op expected negate)).isSome = known) →
      (evaluate casefold (snapshotOf context (registered status ips fqdns tags ++
        endpointOsSnapshot casefold observations now hours)) rule).isSome = known := by
    intro known hleaf
    induction h with
    | leaf op expected negate => exact hleaf op expected negate
    | branch all children negate hne hchildren ih =>
      rw [evaluate, negated_isSome, evaluateAll_eq]
      refine fold_isSome (by simpa using hne) fun truth hmem => ?_
      obtain ⟨child, hchild, rfl⟩ := List.mem_map.mp hmem
      exact ih child hchild
  by_cases hunanimous : ∃ family, Unanimous casefold observations now hours family
  · obtain ⟨family, hfamily⟩ := hunanimous
    refine iff_of_true (hall true fun op expected negate => ?_) ⟨family, hfamily⟩
    rw [(evaluate_os_leaf op expected negate).1 family hfamily]
    rfl
  · refine iff_of_false (fun hsome => ?_) hunanimous
    rw [hall false fun op expected negate => ?_] at hsome
    · cases hsome
    · rw [(evaluate_os_leaf op expected negate).2 (not_exists.mp hunanimous)]
      rfl

def linkedEndpoint (osFamily : String) (at_ : ℤ) : Observation :=
  ⟨osFamily, true, some ⟨at_, at_⟩⟩

def linuxEndpoints : List Observation := [linkedEndpoint " linux" 0, linkedEndpoint "linux" 60]

def notLinux : Rule := .branch true [.leaf "os_family" .ne (.one (.text "linux")) false] true

theorem os_rules_need_consensus_linux :
    Unanimous id linuxEndpoints 3600000000 1 "linux" ∧
      (evaluate id (snapshotOf blank.context (registered "active" [] [] [] ++
        endpointOsSnapshot id linuxEndpoints 3600000000 1)) notLinux).isSome = true := by
  have hunanimous : Unanimous id linuxEndpoints 3600000000 1 "linux" := by
    refine ⟨List.cons_ne_nil _ _, by decide, ?_⟩
    intro observation hmem
    rcases List.mem_pair.mp hmem with rfl | rfl
    · exact ⟨by decide +kernel, by decide +kernel⟩
    · exact ⟨by decide +kernel, by decide +kernel⟩
  have honly : OnlyOn "os_family" notLinux :=
    .branch _ _ _ (List.cons_ne_nil _ _) (List.forall_mem_singleton.mpr (.leaf _ _ _))
  exact ⟨hunanimous, (os_rules_need_consensus honly).mpr ⟨"linux", hunanimous⟩⟩

end Endpoints

end Shapoclyack.AssetGroups
