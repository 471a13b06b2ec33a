import Mathlib
import Shapoclyack.ArtifactSchemas
import Shapoclyack.ClientIp
import Shapoclyack.Library.ThreeValued
import Shapoclyack.Library.Fallible

set_option autoImplicit false

namespace Shapoclyack.AssetGroupRules

open Library
open ArtifactSchemas (Json)
open ResumedBatches (strip)

section Scalars

def maxDepth : ℕ := 4

def maxNodes : ℕ := 100

def maxValues : ℕ := 50

def maxString : ℕ := 256

def maxRuleBytes : ℕ := 16384

inductive Op where
  | eq
  | ne
  | in_
  | notIn
  | contains
  | startsWith
  | endsWith
  | cidr
deriving DecidableEq

def Op.name : Op → String
  | .eq => "eq"
  | .ne => "ne"
  | .in_ => "in"
  | .notIn => "not_in"
  | .contains => "contains"
  | .startsWith => "starts_with"
  | .endsWith => "ends_with"
  | .cidr => "cidr"

def ops : List Op := [.eq, .ne, .in_, .notIn, .contains, .startsWith, .endsWith, .cidr]

def opOf (name : String) : Option Op := ops.find? fun op => op.name == name

def ruleFields : List String :=
  ["owner_email", "business_unit", "business_service", "environment", "data_classification",
    "exposure_level", "asset_criticality", "ip", "fqdn", "status", "os_family"]

def integers : List String := ["asset_criticality"]

def enums : List (String × List String) :=
  [("environment", ["production", "staging", "development", "lab", "other"]),
    ("data_classification", ["public", "internal", "confidential", "restricted"]),
    ("exposure_level", ["internet", "partner", "internal", "unknown"]),
    ("status", ["active", "stale", "decommissioned"]),
    ("os_family", ["windows", "linux", "macos"])]

def tagPrefix : List Char := "tag:".toList

def isAlnum (c : Char) : Bool :=
  (decide ('A' ≤ c) && decide (c ≤ 'Z')) || (decide ('a' ≤ c) && decide (c ≤ 'z')) ||
    (decide ('0' ≤ c) && decide (c ≤ '9'))

/-- `_TAG`. -/
def isTag (field : String) : Bool :=
  match field.toList.drop 4 with
  | [] => false
  | first :: rest =>
    tagPrefix.isPrefixOf field.toList && isAlnum first && decide (rest.length ≤ 63) &&
      rest.all fun c => isAlnum c || c == '_' || c == '.' || c == '-'

def isControl (c : Char) : Bool := decide (c.toNat < 32) || c.toNat == 127

/-- `str(ip_address(value))`, none where it raises. -/
def printedAddress (text : String) : Option String :=
  (((address4 text.toList).map printAddress4).or
    (if '/' ∈ text.toList then none
    else (splitScopeId text.toList).bind fun split =>
      (address6 split.1).map fun number => printAddress6 number ++ printScopeId split.2)).map
        String.ofList

/-- `str(ip_network(value, strict=False))`, none where it raises. -/
def printedNetwork (text : String) : Option String :=
  (ipNetwork text.toList).map fun network => String.ofList network.print

inductive Scalar where
  | int (value : ℤ)
  | text (value : String)
deriving DecidableEq

def scalar (field : String) (value : Json) : Except String Scalar :=
  if field ∈ integers then
    match value with
    | .int n => if 0 ≤ n ∧ n ≤ 4 then .ok (.int n) else .error (field ++ " must be an integer 0-4")
    | _ => .error (field ++ " must be an integer 0-4")
  else
    match value with
    | .str text =>
      if strip text.toList = [] ∨ maxString < text.length then
        .error (field ++ " must be a nonempty string of at most 256 characters")
      else if text.toList.any isControl then
        .error (field ++ " cannot contain control characters")
      else if (enums.lookup field).any fun allowed => decide (text ∉ allowed) then
        .error ("invalid " ++ field ++ " value")
      else if field = "ip" then
        match printedAddress text with
        | some printed => .ok (.text printed)
        | none => .error "ip requires an IP address"
      else .ok (.text text)
    | _ => .error (field ++ " must be a nonempty string of at most 256 characters")

end Scalars

section Rules

inductive Expected where
  | one (value : Scalar)
  | many (values : List Scalar)
deriving DecidableEq

/-- A canonical rule tree. -/
inductive Rule where
  | leaf (field : String) (op : Op) (value : Expected) (negate : Bool)
  | branch (all : Bool) (children : List Rule) (negate : Bool)

def kindName (all : Bool) : String := if all then "all" else "any"

def Scalar.toJson : Scalar → Json
  | .int value => .int value
  | .text value => .str value

def Expected.toJson : Expected → Json
  | .one value => value.toJson
  | .many values => .arr (values.map Scalar.toJson)

def negateField (negate : Bool) : List (String × Json) :=
  if negate then [("negate", .bool true)] else []

mutual

def Rule.toJson : Rule → Json
  | .leaf field op value negate =>
    .obj ([("field", .str field), ("op", .str op.name), ("value", value.toJson)] ++
      negateField negate)
  | .branch all children negate =>
    .obj ((kindName all, .arr (toJsons children)) :: negateField negate)

def toJsons : List Rule → List Json
  | [] => []
  | rule :: rules => rule.toJson :: toJsons rules

end

def expectedOf (field : String) (op : Op) (value : Json) : Except String Expected :=
  if op = .cidr then
    match value with
    | .str text =>
      if field ≠ "ip" ∨ maxString < text.length then
        .error "cidr requires the ip field and a network"
      else
        match printedNetwork text with
        | some printed => .ok (.one (.text printed))
        | none => .error "invalid IP network"
    | _ => .error "cidr requires the ip field and a network"
  else if op = .in_ ∨ op = .notIn then
    match value with
    | .arr items =>
      if 1 ≤ items.length ∧ items.length ≤ maxValues then
        (items.mapM (scalar field)).map .many
      else .error "in/not_in require 1-50 values"
    | _ => .error "in/not_in require 1-50 values"
  else (scalar field value).map .one

def isListed (op : Op) : Bool := op = .eq ∨ op = .ne ∨ op = .in_ ∨ op = .notIn

def leafOf (field op value : Json) (negate : Bool) : Except String Rule :=
  match field with
  | .str field =>
    if field ∉ ruleFields ∧ isTag field = false then .error "unsupported rule field"
    else
      match op with
      | .str name =>
        match opOf name with
        | none => .error "unsupported rule operator"
        | some op =>
          if field ∈ integers ∧ isListed op = false then
            .error "integer fields only support eq/ne/in/not_in"
          else if field = "os_family" ∧ isListed op = false then
            .error "OS family only supports eq/ne/in/not_in"
          else if field = "ip" ∧ isListed op = false ∧ op ≠ .cidr then
            .error "IP fields only support eq/ne/in/not_in/cidr"
          else (expectedOf field op value).map fun expected => .leaf field op expected negate
      | _ => .error "unsupported rule operator"
  | _ => .error "unsupported rule field"

def visitAll (visit : Json → ℕ → Except String (Rule × ℕ)) :
    List Json → ℕ → Except String (List Rule × ℕ)
  | [], count => .ok ([], count)
  | child :: rest, count => do
    let (rule, count) ← visit child count
    let (rules, count) ← visitAll visit rest count
    return (rule :: rules, count)

def hasKey (fields : List (String × Json)) (key : String) : Bool := (fields.lookup key).isSome

def onlyKeys (fields : List (String × Json)) (keys : List String) : Bool :=
  fields.all fun entry => entry.1 ∈ keys

def negateOf (fields : List (String × Json)) : Except String Bool :=
  match fields.lookup "negate" with
  | none => .ok false
  | some (.bool negate) => .ok negate
  | some _ => .error "negate must be a boolean"

def branchOf (fields : List (String × Json)) : Except String (Bool × List Json) :=
  if (hasKey fields "all" && hasKey fields "any") ||
      !onlyKeys fields [kindName (hasKey fields "all"), "negate"] then
    .error "a branch requires exactly one of all/any"
  else
    match fields.lookup (kindName (hasKey fields "all")) with
    | some (.arr children) =>
      if 1 ≤ children.length ∧ children.length ≤ maxValues then
        .ok (hasKey fields "all", children)
      else .error "a branch needs 1-50 child rules"
    | _ => .error "a branch needs 1-50 child rules"

def conditionOf (fields : List (String × Json)) (negate : Bool) : Except String Rule :=
  match onlyKeys fields ["field", "op", "value", "negate"], fields.lookup "field",
      fields.lookup "op", fields.lookup "value" with
  | true, some field, some op, some value => leafOf field op value negate
  | _, _, _, _ => .error "a condition requires field, op and value"

/-- The visit of a node, under a limit of levels that are left. -/
def visit : ℕ → Json → ℕ → Except String (Rule × ℕ)
  | 0, _, _ => .error "rule tree exceeds depth or node limit"
  | levels + 1, node, count =>
    if maxNodes < count + 1 then .error "rule tree exceeds depth or node limit"
    else
      match node with
      | .obj fields => do
        let negate ← negateOf fields
        if hasKey fields "all" || hasKey fields "any" then
          let (all, children) ← branchOf fields
          let (rules, count) ← visitAll (visit levels) children (count + 1)
          return (.branch all rules negate, count)
        else
          let rule ← conditionOf fields negate
          return (rule, count + 1)
      | _ => .error "each rule must be an object"

/-- A character as `json.dumps` writes it in a text. -/
def escaped (c : Char) : List Char :=
  if c = '"' then ['\\', '"']
  else if c = '\\' then ['\\', '\\']
  else if c = '\n' then ['\\', 'n']
  else if c = '\r' then ['\\', 'r']
  else if c = '\t' then ['\\', 't']
  else if c.toNat = 8 then ['\\', 'b']
  else if c.toNat = 12 then ['\\', 'f']
  else if c.toNat < 32 then ['\\', 'u', '0', '0', Nat.digitChar (c.toNat / 16),
      Nat.digitChar (c.toNat % 16)]
  else [c]

def quoted (text : String) : List Char := '"' :: text.toList.flatMap escaped ++ ['"']

def separated (items : List (List Char)) : List Char := List.intercalate [',', ' '] items

def dumpedArray (items : List (List Char)) : List Char := '[' :: separated items ++ [']']

def dumpedObject (fields : List (String × List Char)) : List Char :=
  '\x7b' :: separated (fields.map fun field => quoted field.1 ++ [':', ' '] ++ field.2) ++ ['\x7d']

def Scalar.dumped : Scalar → List Char
  | .int value => (toString value).toList
  | .text value => quoted value

def Expected.dumped : Expected → List Char
  | .one value => value.dumped
  | .many values => dumpedArray (values.map Scalar.dumped)

def dumpedNegate (negate : Bool) : List (String × List Char) :=
  if negate then [("negate", "true".toList)] else []

mutual

/-- `json.dumps` of a canonical rule. -/
def Rule.dumped : Rule → List Char
  | .leaf field op value negate =>
    dumpedObject ([("field", quoted field), ("op", quoted op.name), ("value", value.dumped)] ++
      dumpedNegate negate)
  | .branch all children negate =>
    dumpedObject ((kindName all, dumpedArray (dumpedAll children)) :: dumpedNegate negate)

def dumpedAll : List Rule → List (List Char)
  | [] => []
  | rule :: rules => rule.dumped :: dumpedAll rules

end

def validateRules (rules : Json) : Except String Rule := do
  let (rule, _) ← visit (maxDepth + 1) rules 0
  if maxRuleBytes < (rule.dumped.map Char.utf8Size).sum then
    .error "rule tree exceeds byte limit"
  else return rule

end Rules

section Evaluation

variable (casefold : String → String)

abbrev Snapshot := List (String × Json)

def confirmed (snapshot : Snapshot) : Bool :=
  match snapshot.lookup "_os_evidence" with
  | some (.obj evidence) =>
    match evidence.lookup "state", evidence.lookup "source" with
    | some (.str state), some (.str source) =>
      state == "confirmed" && source == "endpoint_inventory"
    | _, _ => false
  | _ => false

def rawOf (snapshot : Snapshot) (field : String) : Json :=
  if field = "os_family" ∧ confirmed snapshot = false then .null
  else if tagPrefix.isPrefixOf field.toList ∧ hasKey snapshot field = false then
    match snapshot.lookup "tags" with
    | some (.obj tags) => (tags.lookup (String.ofList (field.toList.drop 4))).getD .null
    | _ => .null
  else (snapshot.lookup field).getD .null

def valuesOf (snapshot : Snapshot) (field : String) : List Json :=
  match rawOf snapshot field with
  | .arr values => values
  | raw => [raw]

def isMissing : Json → Bool
  | .null => true
  | .str text => text == "" || text == "unknown"
  | _ => false

def folded (field : String) : Scalar → Scalar
  | .int value => .int value
  | .text value =>
    .text (casefold (if field = "fqdn" then
      String.ofList (value.toList.rdropWhile fun c => c == '.') else value))

def onTexts (holds : List Char → List Char → Bool) : Scalar → Scalar → Bool
  | .text target, .text actual => holds target.toList actual.toList
  | _, _ => false

def inNetwork (network address : Scalar) : Bool :=
  match network, address with
  | .text network, .text address =>
    (ipNetwork network.toList).any fun network =>
      (ClientIp.ipAddress address.toList).any fun address => decide (network.Holds address)
  | _, _ => false

/-- Whether a known value meets what an operator asks, a denial read as what it denies. -/
def meets (field : String) (op : Op) (expected : Expected) (actual : Scalar) : Bool :=
  let actual' := folded casefold field actual
  match op, expected with
  | .cidr, .one network => inNetwork network actual
  | .eq, .one target | .ne, .one target => actual' == folded casefold field target
  | .in_, .many targets | .notIn, .many targets =>
    decide (actual' ∈ targets.map (folded casefold field))
  | .contains, .one target =>
    onTexts (fun t a => decide (t <:+: a)) (folded casefold field target) actual'
  | .startsWith, .one target =>
    onTexts (fun t a => decide (t <+: a)) (folded casefold field target) actual'
  | .endsWith, .one target =>
    onTexts (fun t a => decide (t <:+ a)) (folded casefold field target) actual'
  | _, _ => false

def denies (op : Op) : Bool := op = .ne ∨ op = .notIn

def resultOf (field : String) (op : Op) (expected : Expected) (value : Json) : Truth :=
  if isMissing value then none
  else
    match scalar field value with
    | .error _ => none
    | .ok actual =>
      let result := meets casefold field op expected actual
      some (if denies op then !result else result)

def fold (all : Bool) (results : List Truth) : Truth :=
  if some (!all) ∈ results then some (!all)
  else if none ∈ results then none
  else some all

def negated (negate : Bool) (result : Truth) : Truth :=
  if negate then result.map Bool.not else result

def condition (field : String) (op : Op) (expected : Expected) (snapshot : Snapshot) : Truth :=
  let results := (valuesOf snapshot field).map (resultOf casefold field op expected)
  fold (denies op) (if results = [] then [none] else results)

mutual

def evaluate (snapshot : Snapshot) : Rule → Truth
  | .leaf field op value negate =>
    negated negate (condition casefold field op value snapshot)
  | .branch all children negate => negated negate (fold all (evaluateAll snapshot children))

def evaluateAll (snapshot : Snapshot) : List Rule → List Truth
  | [] => []
  | rule :: rules => evaluate snapshot rule :: evaluateAll snapshot rules

end

/-- The result of `evaluate_rules`, none where it is unknown. -/
def evaluateRules (rules : Json) (snapshot : Snapshot) : Except String Truth :=
  (validateRules rules).map (evaluate casefold snapshot)

end Evaluation

section Kleene

variable (casefold : String → String)

theorem Rule.induction {P : Rule → Prop}
    (leaf : ∀ field op value negate, P (.leaf field op value negate))
    (branch : ∀ all children negate, (∀ child ∈ children, P child) →
      P (.branch all children negate)) (rule : Rule) : P rule :=
  Rule.rec leaf (fun all children negate h => branch all children negate h)
    (fun _ h => absurd h List.not_mem_nil)
    (fun _ _ hhead htail child hchild => by
      rcases List.mem_cons.mp hchild with rfl | hlater
      · exact hhead
      · exact htail child hlater) rule

def known (field : String) (value : Json) : Option Scalar :=
  if isMissing value then none else (scalar field value).toOption

def listed (snapshot : Snapshot) (field : String) : List Json :=
  if valuesOf snapshot field = [] then [.null] else valuesOf snapshot field

/-- A condition in three values: a denial denies it of every value, any other operator asks it of
one. -/
def leafTruth (field : String) (op : Op) (expected : Expected) (snapshot : Snapshot) : Truth :=
  let truths := (listed snapshot field).map fun value =>
    (known field value).map (meets casefold field op expected)
  if denies op then allOf (truths.map Truth.not) else anyOf truths

def signed (negate : Bool) (truth : Truth) : Truth := if negate then truth.not else truth

mutual

/-- The strong Kleene reading of a rule tree. -/
def kleene (snapshot : Snapshot) : Rule → Truth
  | .leaf field op value negate => signed negate (leafTruth casefold field op value snapshot)
  | .branch all children negate =>
    signed negate (if all then allOf (kleeneAll snapshot children)
      else anyOf (kleeneAll snapshot children))

def kleeneAll (snapshot : Snapshot) : List Rule → List Truth
  | [] => []
  | rule :: rules => kleene snapshot rule :: kleeneAll snapshot rules

end

theorem kleeneAll_eq (snapshot : Snapshot) (rules : List Rule) :
    kleeneAll casefold snapshot rules = rules.map (kleene casefold snapshot) := by
  induction rules with
  | nil => rfl
  | cons rule rules ih => rw [kleeneAll, ih, List.map_cons]

theorem evaluateAll_eq (snapshot : Snapshot) (rules : List Rule) :
    evaluateAll casefold snapshot rules = rules.map (evaluate casefold snapshot) := by
  induction rules with
  | nil => rfl
  | cons rule rules ih => rw [evaluateAll, ih, List.map_cons]

theorem fold_true (results : List Truth) : fold true results = allOf results := by
  unfold fold
  apply Truth.ext
  · rw [allOf_eq_true]
    split_ifs with hfalse hnone
    · simp only [Bool.not_true, Option.some.injEq, Bool.false_eq_true, false_iff, not_forall]
      exact ⟨some false, hfalse, by decide⟩
    · simp only [false_iff, not_forall]
      exact ⟨none, hnone, by decide⟩
    · refine iff_of_true rfl fun truth htruth => ?_
      rcases truth with _ | ⟨_ | _⟩
      · exact absurd htruth hnone
      · exact absurd htruth hfalse
      · rfl
  · rw [allOf_eq_false]
    split_ifs with hfalse hnone
    · exact iff_of_true rfl hfalse
    · exact iff_of_false (by simp) hfalse
    · exact iff_of_false (by simp) hfalse

theorem fold_false (results : List Truth) : fold false results = anyOf results := by
  unfold fold
  apply Truth.ext
  · rw [anyOf_eq_true]
    split_ifs with htrue hnone
    · exact iff_of_true rfl htrue
    · exact iff_of_false (by simp) htrue
    · exact iff_of_false (by simp) htrue
  · rw [anyOf_eq_false]
    split_ifs with htrue hnone
    · simp only [Bool.not_false, Option.some.injEq, Bool.true_eq_false, false_iff, not_forall]
      exact ⟨some true, htrue, by decide⟩
    · simp only [false_iff, not_forall]
      exact ⟨none, hnone, by decide⟩
    · refine iff_of_true rfl fun truth htruth => ?_
      rcases truth with _ | ⟨_ | _⟩
      · exact absurd htruth hnone
      · rfl
      · exact absurd htruth htrue

theorem resultOf_eq (field : String) (op : Op) (expected : Expected) (value : Json) :
    resultOf casefold field op expected value =
      if denies op then Truth.not ((known field value).map (meets casefold field op expected))
      else (known field value).map (meets casefold field op expected) := by
  unfold resultOf known
  split_ifs with hmissing hdenies
  · rfl
  · rfl
  all_goals
    cases scalar field value with
    | error message => rfl
    | ok actual => rfl

theorem condition_eq (field : String) (op : Op) (expected : Expected) (snapshot : Snapshot) :
    condition casefold field op expected snapshot =
      leafTruth casefold field op expected snapshot := by
  have hlisted : (if (valuesOf snapshot field).map (resultOf casefold field op expected) = [] then
      [none] else (valuesOf snapshot field).map (resultOf casefold field op expected)) =
      (listed snapshot field).map (resultOf casefold field op expected) := by
    unfold listed
    by_cases hempty : valuesOf snapshot field = []
    · rw [if_pos hempty, hempty, List.map_nil, if_pos rfl]
      rfl
    · rw [if_neg hempty, if_neg (by simpa using hempty)]
  unfold condition leafTruth
  dsimp only
  rw [hlisted]
  cases hdenies : denies op with
  | true =>
    rw [fold_true, if_pos rfl, List.map_map]
    refine congrArg allOf (List.map_congr_left fun value _ => ?_)
    rw [resultOf_eq, hdenies, if_pos rfl]
    rfl
  | false =>
    rw [fold_false, if_neg (by decide)]
    refine congrArg anyOf (List.map_congr_left fun value _ => ?_)
    rw [resultOf_eq, hdenies, if_neg (by decide)]

theorem evaluate_eq_kleene (snapshot : Snapshot) (rule : Rule) :
    evaluate casefold snapshot rule = kleene casefold snapshot rule := by
  induction rule using Rule.induction with
  | leaf field op value negate =>
    rw [evaluate, kleene, condition_eq]
    rfl
  | branch all children negate ih =>
    rw [evaluate, kleene, evaluateAll_eq, kleeneAll_eq, List.map_congr_left ih]
    cases all with
    | true => rw [fold_true, if_pos rfl]; rfl
    | false => rw [fold_false, if_neg (by decide)]; rfl

theorem denial_holds_iff {field : String} {op : Op} (hop : denies op = true) (expected : Expected)
    (snapshot : Snapshot) :
    leafTruth casefold field op expected snapshot = some true ↔
      ∀ value ∈ listed snapshot field, ∃ actual, known field value = some actual ∧
        meets casefold field op expected actual = false := by
  unfold leafTruth
  dsimp only
  rw [hop, if_pos rfl, allOf_eq_true, List.map_map, List.forall_mem_map]
  refine forall₂_congr fun value _ => ?_
  cases hknown : known field value with
  | none => simp [hknown, Truth.not]
  | some actual => simp [hknown, Truth.not]

inductive Rule.Node : Rule → Rule → Prop where
  | self (rule : Rule) : Node rule rule
  | inside {all : Bool} {children : List Rule} {negate : Bool} {child inner : Rule}
      (mem : child ∈ children) (node : Node child inner) : Node (.branch all children negate) inner

def IsField (field : String) : Prop := field ∈ ruleFields ∨ isTag field = true

/-- The second snapshot only fills in what the first has no value for: a field or a tag that is not
there, an unknown value, or the OS of an endpoint that was not confirmed. -/
def Fills (first second : Snapshot) : Prop :=
  ∀ field, IsField field → (∀ value ∈ valuesOf first field, isMissing value = true) ∨
    List.Forall₂ (fun value filled => isMissing value = true ∨ value = filled)
      (valuesOf first field) (valuesOf second field)

theorem known_of_missing {field : String} {value : Json} (h : isMissing value = true) :
    known field value = none := if_pos h

theorem leafTruth_missing {field : String} {op : Op} {expected : Expected} {snapshot : Snapshot}
    (h : ∀ value ∈ listed snapshot field, isMissing value = true) :
    leafTruth casefold field op expected snapshot = none := by
  have hne : listed snapshot field ≠ [] := by
    unfold listed
    split_ifs with hempty
    · simp
    · exact hempty
  have hnone : (listed snapshot field).map
      (fun value => (known field value).map (meets casefold field op expected)) =
        List.replicate (listed snapshot field).length none := by
    rw [← List.map_const']
    refine List.map_congr_left fun value hvalue => ?_
    rw [known_of_missing (h value hvalue), Option.map_none]
  obtain ⟨n, hn⟩ := Nat.exists_eq_succ_of_ne_zero (mt List.length_eq_zero_iff.mp hne)
  unfold leafTruth
  dsimp only
  rw [hnone, hn]
  split_ifs
  · rw [List.map_replicate]
    apply Truth.ext
    · simp [allOf_eq_true, Truth.not]
    · simp [allOf_eq_false, Truth.not]
  · apply Truth.ext
    · simp [anyOf_eq_true]
    · simp [anyOf_eq_false]

theorem leafTruth_below {first second : Snapshot} (h : Fills first second) {field : String}
    (hfield : IsField field) (op : Op) (expected : Expected) :
    (leafTruth casefold field op expected first).Below
      (leafTruth casefold field op expected second) := by
  rcases h field hfield with hmissing | hfilled
  · have hnone : ∀ value ∈ listed first field, isMissing value = true := by
      intro value hvalue
      unfold listed at hvalue
      split_ifs at hvalue
      · rw [List.mem_singleton.mp hvalue]
        rfl
      · exact hmissing value hvalue
    rw [leafTruth_missing casefold hnone]
    intro known hknown
    cases hknown
  · have hlisted : List.Forall₂ (fun value filled => isMissing value = true ∨ value = filled)
        (listed first field) (listed second field) := by
      have hempty : valuesOf first field = [] ↔ valuesOf second field = [] := by
        rw [← List.length_eq_zero_iff, ← List.length_eq_zero_iff, hfilled.length_eq]
      unfold listed
      by_cases hnil : valuesOf first field = []
      · rw [if_pos hnil, if_pos (hempty.mp hnil)]
        exact .cons (.inr rfl) .nil
      · rw [if_neg hnil, if_neg (mt hempty.mpr hnil)]
        exact hfilled
    have hbelow : ∀ value filled, isMissing value = true ∨ value = filled →
        Truth.Below ((known field value).map (meets casefold field op expected))
          ((known field filled).map (meets casefold field op expected)) := by
      rintro value filled (hmissing | rfl)
      · rw [known_of_missing hmissing]
        intro truth htruth
        cases htruth
      · exact Truth.Below.refl _
    unfold leafTruth
    dsimp only
    split_ifs
    · refine allOf_below ?_
      rw [List.map_map, List.map_map, List.forall₂_map_left_iff, List.forall₂_map_right_iff]
      exact hlisted.imp fun value filled hpair => (hbelow value filled hpair).not
    · refine anyOf_below ?_
      rw [List.forall₂_map_left_iff, List.forall₂_map_right_iff]
      exact hlisted.imp hbelow

/-- What a rule tree says of a snapshot it says of every one that fills in more. -/
theorem kleene_below {first second : Snapshot} (h : Fills first second) (rule : Rule)
    (hfields : ∀ field op value negate, rule.Node (.leaf field op value negate) →
      IsField field) : (kleene casefold first rule).Below (kleene casefold second rule) := by
  have hsigned : ∀ (negate : Bool) {a b : Truth}, a.Below b →
      (signed negate a).Below (signed negate b) := by
    intro negate a b hbelow
    cases negate with
    | true => exact hbelow.not
    | false => exact hbelow
  induction rule using Rule.induction with
  | leaf field op value negate =>
    rw [kleene, kleene]
    exact hsigned negate (leafTruth_below casefold h (hfields _ _ _ _ (.self _)) op value)
  | branch all children negate ih =>
    rw [kleene, kleene, kleeneAll_eq, kleeneAll_eq]
    refine hsigned negate ?_
    have hall : List.Forall₂ Truth.Below (children.map (kleene casefold first))
        (children.map (kleene casefold second)) := by
      rw [List.forall₂_map_left_iff, List.forall₂_map_right_iff]
      exact List.forall₂_same.mpr fun child hchild => ih child hchild
        fun field op value negate hnode => hfields field op value negate (.inside hchild hnode)
    cases all with
    | true => exact allOf_below hall
    | false => exact anyOf_below hall

end Kleene

section Canonical

variable {field text printed : String} {value : Json}

theorem splitScopeId_zone {chars bare : List Char} {zone : Option (List Char)}
    (h : splitScopeId chars = some (bare, zone)) (hslash : '/' ∉ chars) :
    ZoneAllowed .v6 zone ∧ ∀ c ∈ printScopeId zone, c ∈ chars := by
  unfold splitScopeId at h
  split at h
  · rw [← (Prod.mk.inj (Option.some.inj h)).2]
    refine ⟨?_, ?_⟩
    · intro zone' hzone'
      cases hzone'
    · intro c hc
      cases hc
  · rename_i first rest hdrop
    split_ifs at h with hzone
    obtain ⟨_, rfl⟩ := Prod.mk.inj (Option.some.inj h)
    have hsuffix : first :: rest <:+ chars := hdrop ▸ List.dropWhile_suffix _
    have hpercent : first = '%' := by
      have hne : chars.dropWhile (fun c => decide (c ≠ '%')) ≠ [] := by
        rw [hdrop]
        simp
      have hhead := List.head_dropWhile_not (fun c => decide (c ≠ '%')) hne
      simp only [hdrop, List.head_cons] at hhead
      simpa using hhead
    push Not at hzone
    constructor
    · intro zone' hzone'
      cases hzone'
      exact ⟨rfl, hzone.1, hzone.2, fun hmem => hslash (hsuffix.subset (by simp [hmem]))⟩
    · intro c hc
      refine hsuffix.subset ?_
      rw [hpercent]
      exact hc

theorem printedAddress_spec (h : printedAddress text = some printed) :
    printedAddress printed = some printed ∧
      (∀ c ∈ printed.toList, c ∈ text.toList ∨ c = '.' ∨ c = ':' ∨ (hexDigit c).isSome) ∧
        ∃ c ∈ printed.toList, c = '.' ∨ c = ':' ∨ (hexDigit c).isSome := by
  unfold printedAddress at h
  obtain ⟨chars, hchars, rfl⟩ := Option.map_eq_some_iff.mp h
  rw [String.toList_ofList]
  unfold printedAddress
  rw [String.toList_ofList]
  rcases Option.or_eq_some_iff.mp hchars with h4 | ⟨_, h6⟩
  · obtain ⟨n, hn, rfl⟩ := Option.map_eq_some_iff.mp h4
    have hread := address4_print (address4_lt hn)
    have hshape := address4_chars hread
    have hplain : ∀ c ∈ printAddress4 n, c = '.' ∨ c = ':' ∨ (hexDigit c).isSome := by
      intro c hc
      rcases hshape c hc with hdot | hdigit
      · exact .inl hdot
      · exact .inr (.inr (isSome_hexDigit_of_decDigit hdigit))
    refine ⟨by rw [hread]; rfl, fun c hc => .inr (hplain c hc), ?_⟩
    cases hprint : printAddress4 n with
    | nil =>
      rw [hprint] at hread
      simp [address4] at hread
    | cons first rest => exact ⟨first, by simp, hplain first (by simp [hprint])⟩
  · split_ifs at h6 with hslash
    obtain ⟨⟨bare, zone⟩, hsplit, hmap⟩ := Option.bind_eq_some_iff.mp h6
    obtain ⟨n, hn, rfl⟩ := Option.map_eq_some_iff.mp hmap
    obtain ⟨hallowed, hzone⟩ := splitScopeId_zone hsplit hslash
    have hplain : ∀ c ∈ printAddress6 n, c = '.' ∨ c = ':' ∨ (hexDigit c).isSome := by
      intro c hc
      exact .inr (printAddress6_chars hc)
    have hcolon : ':' ∈ printAddress6 n ++ printScopeId zone :=
      List.mem_append_left _ (colon_mem_printAddress6 n)
    have hnoslash : '/' ∉ printAddress6 n ++ printScopeId zone := by
      intro hmem
      rcases List.mem_append.mp hmem with hprint | hscope
      · exact not_mem_printAddress6 (by decide) (by decide) hprint
      · exact hslash (hzone _ hscope)
    refine ⟨?_, ?_, ⟨':', hcolon, .inr (.inl rfl)⟩⟩
    · rw [address4_of_colon hcolon, if_neg hnoslash,
        splitScopeId_print (not_mem_printAddress6 (by decide) (by decide)) hallowed]
      dsimp only [Option.bind_some]
      rw [address6_print (address6_lt hn)]
      rfl
    · intro c hc
      rcases List.mem_append.mp hc with hprint | hscope
      · exact .inr (hplain c hprint)
      · exact .inl (hzone c hscope)

theorem printedNetwork_print (h : printedNetwork text = some printed) :
    printedNetwork printed = some printed := by
  obtain ⟨network, _, rfl⟩ := Option.map_eq_some_iff.mp h
  rw [printedNetwork, String.toList_ofList, ipNetwork_print, Option.map_some]

theorem strip_ne_nil {chars : List Char} {c : Char} (hc : c ∈ chars)
    (hspace : ResumedBatches.isSpace c = false) : strip chars ≠ [] := by
  have hsplit := List.takeWhile_append_dropWhile (p := ResumedBatches.isSpace) (l := chars)
  rw [← hsplit] at hc
  intro hnil
  unfold ResumedBatches.strip at hnil
  rw [List.rdropWhile_eq_nil_iff] at hnil
  rcases List.mem_append.mp hc with htake | hdrop
  · rw [List.mem_takeWhile_imp htake] at hspace
    cases hspace
  · rw [hnil c hdrop] at hspace
    cases hspace

theorem isControl_of_addressChar {c : Char} (h : c = '.' ∨ c = ':' ∨ (hexDigit c).isSome) :
    isControl c = false := by
  have hrange := ScanScopes.toNat_of_addressChar h
  unfold isControl
  simp only [Bool.or_eq_false_iff, decide_eq_false_iff_not, beq_eq_false_iff_ne]
  omega

structure Reads (field text : String) (read : Scalar) : Prop where
  textual : field ∉ integers
  filled : strip text.toList ≠ []
  short : text.length ≤ maxString
  printable : text.toList.any isControl = false
  allowed : ((enums.lookup field).any fun allowed => decide (text ∉ allowed)) = false
  address : field = "ip" → ∃ printed, printedAddress text = some printed ∧ read = .text printed
  plain : field ≠ "ip" → read = .text text

theorem scalar_str {read : Scalar} :
    scalar field (.str text) = .ok read ↔ Reads field text read := by
  unfold scalar
  dsimp only
  constructor
  · intro h
    split_ifs at h with hint hfilled hcontrol hallowed hip
    · obtain ⟨hstrip, hlength⟩ := not_or.mp hfilled
      cases hprinted : printedAddress text with
      | none => simp [hprinted] at h
      | some printed =>
        simp only [hprinted, Except.ok.injEq] at h
        exact ⟨hint, hstrip, Nat.not_lt.mp hlength, eq_false_of_ne_true hcontrol,
          eq_false_of_ne_true hallowed, fun _ => ⟨printed, hprinted, h.symm⟩,
          fun hother => absurd hip hother⟩
    · obtain ⟨hstrip, hlength⟩ := not_or.mp hfilled
      exact ⟨hint, hstrip, Nat.not_lt.mp hlength, eq_false_of_ne_true hcontrol,
        eq_false_of_ne_true hallowed, fun hsame => absurd hsame hip,
        fun _ => (Except.ok.inj h).symm⟩
  · intro h
    have hfilled : ¬ (strip text.toList = [] ∨ maxString < text.length) :=
      not_or.mpr ⟨h.filled, Nat.not_lt.mpr h.short⟩
    rw [if_neg h.textual, if_neg hfilled, if_neg (ne_true_of_eq_false h.printable),
      if_neg (ne_true_of_eq_false h.allowed)]
    split_ifs with hip
    · obtain ⟨printed, hprinted, rfl⟩ := h.address hip
      rw [hprinted]
    · rw [h.plain hip]

theorem scalar_cases {read : Scalar} (h : scalar field value = .ok read) :
    (∃ n, value = .int n ∧ read = .int n) ∨ ∃ text, value = .str text ∧ Reads field text read := by
  cases value with
  | int n =>
    refine .inl ⟨n, rfl, ?_⟩
    unfold scalar at h
    dsimp only at h
    split_ifs at h
    exact (Except.ok.inj h).symm
  | str text => exact .inr ⟨text, rfl, scalar_str.mp h⟩
  | null | bool | float | arr | obj =>
    unfold scalar at h
    dsimp only at h
    split_ifs at h

def Scalar.Short : Scalar → Prop
  | .int _ => True
  | .text text => text.length ≤ maxString

def Expected.Short : Expected → Prop
  | .one value => value.Short
  | .many values => ∀ value ∈ values, value.Short

theorem scalar_toJson {read : Scalar} (h : scalar field value = .ok read) (hshort : read.Short) :
    scalar field read.toJson = .ok read := by
  rcases scalar_cases h with ⟨n, rfl, rfl⟩ | ⟨text, rfl, hreads⟩
  · exact h
  · by_cases hip : field = "ip"
    · obtain ⟨printed, hprinted, rfl⟩ := hreads.address hip
      obtain ⟨hagain, hchars, c, hc, hplain⟩ := printedAddress_spec hprinted
      refine scalar_str.mpr ⟨hreads.textual,
        strip_ne_nil hc (ScanScopes.isSpace_of_addressChar hplain), hshort, ?_, ?_,
        fun _ => ⟨printed, hagain, rfl⟩, fun _ => rfl⟩
      · refine List.any_eq_false.mpr fun d hd => ?_
        rcases hchars d hd with hold | haddress
        · exact List.any_eq_false.mp hreads.printable d hold
        · exact ne_true_of_eq_false (isControl_of_addressChar haddress)
      · rw [hip]
        rfl
    · rw [hreads.plain hip]
      exact scalar_str.mpr ⟨hreads.textual, hreads.filled, hreads.short, hreads.printable,
        hreads.allowed, fun hsame => absurd hsame hip, fun _ => rfl⟩

theorem mapM_ok {α β : Type} {f : α → Except String β} {items : List α} {results : List β} :
    items.mapM f = .ok results ↔
      List.Forall₂ (fun item result => f item = .ok result) items results := by
  induction items generalizing results with
  | nil =>
    cases results with
    | nil => exact iff_of_true rfl .nil
    | cons first rest => exact iff_of_false (by intro h; cases h) (by intro h; cases h)
  | cons first rest ih =>
    cases hfirst : f first with
    | error message =>
      refine iff_of_false ?_ ?_
      · intro h
        simp [List.mapM_cons, hfirst, bind, Except.bind] at h
      · intro h
        cases h with
        | cons hhead _ => rw [hfirst] at hhead; cases hhead
    | ok result =>
      cases hrest : rest.mapM f with
      | error message =>
        refine iff_of_false ?_ ?_
        · intro h
          simp [List.mapM_cons, hfirst, hrest, bind, Except.bind] at h
        · intro h
          cases h with
          | cons _ htail => rw [ih.mpr htail] at hrest; cases hrest
      | ok others =>
        constructor
        · intro h
          simp only [List.mapM_cons, hfirst, hrest, bind, Except.bind, pure, Except.pure,
            Except.ok.injEq] at h
          rw [← h]
          exact .cons hfirst (ih.mp hrest)
        · intro h
          cases h with
          | cons hhead htail =>
            rw [hfirst] at hhead
            rw [ih.mpr htail] at hrest
            simp only [List.mapM_cons, hfirst, ih.mpr htail, bind, Except.bind, pure, Except.pure,
              Except.ok.inj hhead]

theorem partner_of_mem {α β : Type} {R : α → β → Prop} {items : List α} {results : List β}
    (h : List.Forall₂ R items results) {result : β} (hmem : result ∈ results) :
    ∃ item ∈ items, R item result := by
  induction h with
  | nil => cases hmem
  | cons hhead _ ih =>
    rcases List.mem_cons.mp hmem with rfl | hlater
    · exact ⟨_, List.mem_cons_self, hhead⟩
    · obtain ⟨item, hitem, hR⟩ := ih hlater
      exact ⟨item, List.mem_cons_of_mem _ hitem, hR⟩

theorem expectedOf_toJson {op : Op} {expected : Expected}
    (h : expectedOf field op value = .ok expected) (hshort : expected.Short) :
    expectedOf field op expected.toJson = .ok expected := by
  unfold expectedOf at h ⊢
  split_ifs at h ⊢ with hcidr hlist
  · split at h
    · rename_i text
      split_ifs at h with hrefused
      cases hprinted : printedNetwork text with
      | none => simp [hprinted] at h
      | some printed =>
        simp only [hprinted, Except.ok.injEq] at h
        subst h
        have hfield : ¬ (field ≠ "ip" ∨ maxString < printed.length) :=
          not_or.mpr ⟨(not_or.mp hrefused).1, Nat.not_lt.mpr hshort⟩
        simp only [Expected.toJson, Scalar.toJson, if_neg hfield, printedNetwork_print hprinted]
    · cases h
  · split at h
    · rename_i items
      split_ifs at h with hlength
      cases hread : items.mapM (scalar field) with
      | error message => simp [hread, Except.map] at h
      | ok values =>
        simp only [hread, Except.map, Except.ok.injEq] at h
        subst h
        have hall := mapM_ok.mp hread
        have hagain : (values.map Scalar.toJson).mapM (scalar field) = .ok values := by
          refine mapM_ok.mpr ?_
          rw [List.forall₂_map_left_iff]
          refine List.forall₂_same.mpr fun read hmem => ?_
          obtain ⟨item, _, hitem⟩ := partner_of_mem hall hmem
          exact scalar_toJson hitem (hshort read hmem)
        simp only [Expected.toJson, List.length_map, ← hall.length_eq, if_pos hlength, hagain,
          Except.map]
    · cases h
  · cases hread : scalar field value with
    | error message => simp [hread, Except.map] at h
    | ok read =>
      simp only [hread, Except.map, Except.ok.injEq] at h
      subst h
      simp only [Expected.toJson, scalar_toJson hread hshort, Except.map]

theorem opOf_name (op : Op) : opOf op.name = some op := by
  cases op <;> rfl

/-- What makes up a condition that is accepted. -/
structure Accepted (field op value : Json) (name : String) (operator : Op) (expected : Expected) :
    Prop where
  named : field = .str name
  spelled : ∃ text, op = .str text ∧ opOf text = some operator
  known : name ∈ ruleFields ∨ isTag name = true
  integer : ¬ (name ∈ integers ∧ isListed operator = false)
  family : ¬ (name = "os_family" ∧ isListed operator = false)
  address : ¬ (name = "ip" ∧ isListed operator = false ∧ operator ≠ .cidr)
  read : expectedOf name operator value = .ok expected

theorem leafOf_ok {field op value : Json} {negate : Bool} {rule : Rule} :
    leafOf field op value negate = .ok rule ↔ ∃ name operator expected,
      Accepted field op value name operator expected ∧
        rule = .leaf name operator expected negate := by
  constructor
  · intro h
    unfold leafOf at h
    split at h
    · rename_i name
      split_ifs at h with hunknown
      split at h
      · rename_i text
        split at h
        · cases h
        · rename_i operator hop
          split_ifs at h with hint hfamily haddress
          cases hexpected : expectedOf name operator value with
          | error message => simp [hexpected, Except.map] at h
          | ok expected =>
            simp only [hexpected, Except.map, Except.ok.injEq] at h
            refine ⟨name, operator, expected, ⟨rfl, ⟨text, rfl, hop⟩, ?_, hint, hfamily, haddress,
              hexpected⟩, h.symm⟩
            by_contra hneither
            exact hunknown ⟨fun hin => hneither (.inl hin),
              eq_false_of_ne_true fun htag => hneither (.inr htag)⟩
      · cases h
    · cases h
  · rintro ⟨name, operator, expected, haccepted, rfl⟩
    obtain ⟨text, rfl, hop⟩ := haccepted.spelled
    have hknown : ¬ (name ∉ ruleFields ∧ isTag name = false) := by
      rintro ⟨hfield, htag⟩
      rcases haccepted.known with hin | hin
      · exact hfield hin
      · rw [hin] at htag
        cases htag
    unfold leafOf
    rw [haccepted.named]
    simp only [if_neg hknown, hop, if_neg haccepted.integer, if_neg haccepted.family,
      if_neg haccepted.address, haccepted.read, Except.map]

theorem Accepted.toJson {field op value : Json} {name : String} {operator : Op}
    {expected : Expected} (h : Accepted field op value name operator expected)
    (hshort : expected.Short) :
    Accepted (.str name) (.str operator.name) expected.toJson name operator expected where
  named := rfl
  spelled := ⟨operator.name, rfl, opOf_name operator⟩
  known := h.known
  integer := h.integer
  family := h.family
  address := h.address
  read := expectedOf_toJson h.read hshort

end Canonical

section Trees

variable {levels count count' : ℕ} {fields : List (String × Json)} {node : Json} {rule : Rule}
  {negate : Bool}

structure IsLeaf (fields : List (String × Json)) (negate : Bool) (rule : Rule) : Prop where
  noAll : hasKey fields "all" = false
  noAny : hasKey fields "any" = false
  only : onlyKeys fields ["field", "op", "value", "negate"] = true
  read : ∃ field op value, fields.lookup "field" = some field ∧ fields.lookup "op" = some op ∧
    fields.lookup "value" = some value ∧ leafOf field op value negate = .ok rule

structure IsBranch (fields : List (String × Json)) (all : Bool) (children : List Json) : Prop where
  has : hasKey fields (kindName all) = true
  hasNot : hasKey fields (kindName !all) = false
  only : onlyKeys fields [kindName all, "negate"] = true
  list : fields.lookup (kindName all) = some (.arr children)
  sized : 1 ≤ children.length ∧ children.length ≤ maxValues

theorem branchOf_ok {all : Bool} {children : List Json} :
    branchOf fields = .ok (all, children) ↔ IsBranch fields all children := by
  constructor
  · intro h
    unfold branchOf at h
    split_ifs at h with hrefused
    obtain ⟨hboth, honly⟩ := Bool.or_eq_false_iff.mp (eq_false_of_ne_true hrefused)
    split at h
    · rename_i children' hlookup
      split_ifs at h with hsized
      obtain ⟨rfl, rfl⟩ := Prod.mk.inj (Except.ok.inj h)
      refine ⟨?_, ?_, by simpa using honly, hlookup, hsized⟩
      · rw [hasKey, hlookup]
        rfl
      · cases hall : hasKey fields "all" with
        | true =>
          rw [hall] at hboth
          exact hboth
        | false => exact hall
    · cases h
  · intro h
    have hall : hasKey fields "all" = all := by
      cases all with
      | true => exact h.has
      | false => exact h.hasNot
    have hboth : (hasKey fields "all" && hasKey fields "any") = false := by
      cases all with
      | true => exact Bool.and_eq_false_imp.mpr fun _ => h.hasNot
      | false => rw [hall, Bool.false_and]
    unfold branchOf
    rw [hboth, hall, h.only, h.list]
    simp only [Bool.not_true, Bool.or_self, Bool.false_eq_true, if_false, if_pos h.sized]

theorem conditionOf_ok (hall : hasKey fields "all" = false) (hany : hasKey fields "any" = false) :
    conditionOf fields negate = .ok rule ↔ IsLeaf fields negate rule := by
  unfold conditionOf
  constructor
  · intro h
    split at h
    · rename_i field op value honly hfield hop hvalue
      exact ⟨hall, hany, honly, field, op, value, hfield, hop, hvalue, h⟩
    · cases h
  · intro h
    obtain ⟨field, op, value, hfield, hop, hvalue, hread⟩ := h.read
    rw [h.only, hfield, hop, hvalue]
    exact hread

theorem visit_ok :
    visit (levels + 1) node count = .ok (rule, count') ↔
      count + 1 ≤ maxNodes ∧ ∃ fields negate, node = .obj fields ∧ negateOf fields = .ok negate ∧
        ((IsLeaf fields negate rule ∧ count' = count + 1) ∨
          ∃ all children rules, IsBranch fields all children ∧
            visitAll (visit levels) children (count + 1) = .ok (rules, count') ∧
              rule = .branch all rules negate) := by
  constructor
  · intro h
    unfold visit at h
    split_ifs at h with hcount
    refine ⟨Nat.not_lt.mp hcount, ?_⟩
    split at h
    · rename_i fields
      cases hnegate : negateOf fields with
      | error message => simp [hnegate, bind, Except.bind] at h
      | ok negate =>
        refine ⟨fields, negate, rfl, hnegate, ?_⟩
        simp only [hnegate, bind, Except.bind, pure, Except.pure] at h
        split_ifs at h with hkeys
        · cases hbranch : branchOf fields with
          | error message => simp [hbranch] at h
          | ok branch =>
            simp only [hbranch] at h
            cases hvisit : visitAll (visit levels) branch.2 (count + 1) with
            | error message => simp [hvisit] at h
            | ok visited =>
              simp only [hvisit, Except.ok.injEq, Prod.mk.injEq] at h
              exact .inr ⟨branch.1, branch.2, visited.1, branchOf_ok.mp hbranch,
                by rw [hvisit, ← h.2], h.1.symm⟩
        · obtain ⟨hall, hany⟩ := Bool.or_eq_false_iff.mp (eq_false_of_ne_true hkeys)
          cases hcondition : conditionOf fields negate with
          | error message => simp [hcondition] at h
          | ok leaf =>
            simp only [hcondition, Except.ok.injEq, Prod.mk.injEq] at h
            exact .inl ⟨(conditionOf_ok hall hany).mp (h.1 ▸ hcondition), h.2.symm⟩
    · cases h
  · rintro ⟨hcount, fields, negate, rfl, hnegate, hread⟩
    unfold visit
    rw [if_neg (Nat.not_lt.mpr hcount)]
    rcases hread with ⟨hleaf, rfl⟩ | ⟨all, children, rules, hbranch, hvisit, rfl⟩
    · have hkeys : (hasKey fields "all" || hasKey fields "any") = false := by
        rw [hleaf.noAll, hleaf.noAny]
        rfl
      simp only [hnegate, hkeys, (conditionOf_ok hleaf.noAll hleaf.noAny).mpr hleaf, bind,
        Except.bind, pure, Except.pure, Bool.false_eq_true, if_false]
    · have hkeys : (hasKey fields "all" || hasKey fields "any") = true := by
        have hhas := hbranch.has
        cases all with
        | true => exact Bool.or_eq_true_iff.mpr (.inl hhas)
        | false => exact Bool.or_eq_true_iff.mpr (.inr hhas)
      simp only [hnegate, hkeys, branchOf_ok.mpr hbranch, hvisit, bind, Except.bind, pure,
        Except.pure, if_true]

inductive Visited (visit : Json → ℕ → Except String (Rule × ℕ)) :
    List Json → List Rule → ℕ → ℕ → Prop where
  | nil {count : ℕ} : Visited visit [] [] count count
  | cons {child : Json} {children : List Json} {rule : Rule} {rules : List Rule}
      {first next last : ℕ} (head : visit child first = .ok (rule, next))
      (tail : Visited visit children rules next last) :
      Visited visit (child :: children) (rule :: rules) first last

theorem visitAll_ok {visit : Json → ℕ → Except String (Rule × ℕ)} {children : List Json}
    {rules : List Rule} :
    visitAll visit children count = .ok (rules, count') ↔
      Visited visit children rules count count' := by
  induction children generalizing rules count with
  | nil =>
    constructor
    · intro h
      obtain ⟨rfl, rfl⟩ := Prod.mk.inj (Except.ok.inj h)
      exact .nil
    · intro h
      cases h
      rfl
  | cons child children ih =>
    unfold visitAll
    constructor
    · intro h
      cases hchild : visit child count with
      | error message => simp [hchild, bind, Except.bind] at h
      | ok visited =>
        simp only [hchild, bind, Except.bind] at h
        cases hrest : visitAll visit children visited.2 with
        | error message => simp [hrest] at h
        | ok others =>
          simp only [hrest, pure, Except.pure, Except.ok.injEq, Prod.mk.injEq] at h
          obtain ⟨rfl, hlast⟩ := h
          exact .cons hchild (ih.mp (by rw [hrest, ← hlast]))
    · intro h
      cases h with
      | cons hhead htail =>
        simp only [hhead, ih.mpr htail, bind, Except.bind, pure, Except.pure]

theorem Visited.length_eq {visit : Json → ℕ → Except String (Rule × ℕ)} {children : List Json}
    {rules : List Rule} (h : Visited visit children rules count count') :
    rules.length = children.length := by
  induction h with
  | nil => rfl
  | cons _ _ ih => rw [List.length_cons, List.length_cons, ih]

inductive Rule.Asks : Rule → Expected → Prop where
  | leaf {field : String} {op : Op} {value : Expected} {negate : Bool} :
      Asks (.leaf field op value negate) value
  | branch {all : Bool} {children : List Rule} {negate : Bool} {child : Rule} {value : Expected}
      (mem : child ∈ children) (asks : Asks child value) :
      Asks (.branch all children negate) value

def Rule.Fits (rule : Rule) : Prop := ∀ value, rule.Asks value → value.Short

theorem fits_leaf {field : String} {op : Op} {value : Expected} :
    (Rule.leaf field op value negate).Fits ↔ value.Short := by
  constructor
  · intro h
    exact h value .leaf
  · intro h value' hasks
    cases hasks
    exact h

theorem fits_branch {all : Bool} {children : List Rule} :
    (Rule.branch all children negate).Fits ↔ ∀ child ∈ children, child.Fits := by
  constructor
  · intro h child hmem value hasks
    exact h value (.branch hmem hasks)
  · intro h value hasks
    cases hasks with
    | branch hmem hasks => exact h _ hmem value hasks

theorem toJsons_eq (rules : List Rule) : toJsons rules = rules.map Rule.toJson := by
  induction rules with
  | nil => rfl
  | cons rule rules ih => rw [toJsons, ih, List.map_cons]

theorem Visited.toJson {visit : Json → ℕ → Except String (Rule × ℕ)} {children : List Json}
    {rules : List Rule}
    (hvisit : ∀ {node : Json} {count count' : ℕ} {rule : Rule},
      visit node count = .ok (rule, count') → rule.Fits →
        visit rule.toJson count = .ok (rule, count'))
    (h : Visited visit children rules count count') (hfits : ∀ rule ∈ rules, rule.Fits) :
    Visited visit (toJsons rules) rules count count' := by
  induction h with
  | nil => exact .nil
  | cons hhead _ ih =>
    exact .cons (hvisit hhead (hfits _ List.mem_cons_self))
      (ih fun rule hmem => hfits rule (List.mem_cons_of_mem _ hmem))

def leafFields (name : String) (op : Op) (expected : Expected) (negate : Bool) :
    List (String × Json) :=
  [("field", .str name), ("op", .str op.name), ("value", expected.toJson)] ++ negateField negate

def branchFields (all : Bool) (children : List Json) (negate : Bool) : List (String × Json) :=
  (kindName all, .arr children) :: negateField negate

theorem negateOf_leafFields (name : String) (op : Op) (expected : Expected) (negate : Bool) :
    negateOf (leafFields name op expected negate) = .ok negate := by
  cases negate <;> rfl

theorem negateOf_branchFields (all : Bool) (children : List Json) (negate : Bool) :
    negateOf (branchFields all children negate) = .ok negate := by
  cases all <;> cases negate <;> rfl

theorem isLeaf_leafFields {name : String} {op : Op} {expected : Expected} {rule : Rule} :
    IsLeaf (leafFields name op expected negate) negate rule ↔
      leafOf (.str name) (.str op.name) expected.toJson negate = .ok rule := by
  constructor
  · intro h
    obtain ⟨field, spelled, value, hfield, hop, hvalue, hread⟩ := h.read
    cases negate with
    | false =>
      cases hfield
      cases hop
      cases hvalue
      exact hread
    | true =>
      cases hfield
      cases hop
      cases hvalue
      exact hread
  · intro h
    refine ⟨?_, ?_, ?_, .str name, .str op.name, expected.toJson, ?_, ?_, ?_, h⟩
    all_goals cases negate <;> rfl

theorem isBranch_branchFields {all : Bool} {children : List Json}
    (h : 1 ≤ children.length ∧ children.length ≤ maxValues) :
    IsBranch (branchFields all children negate) all children where
  has := by cases all <;> cases negate <;> rfl
  hasNot := by cases all <;> cases negate <;> rfl
  only := by cases all <;> cases negate <;> rfl
  list := by cases all <;> cases negate <;> rfl
  sized := h

theorem visit_toJson (h : visit levels node count = .ok (rule, count')) (hfits : rule.Fits) :
    visit levels rule.toJson count = .ok (rule, count') := by
  induction levels generalizing node count rule count' with
  | zero => cases h
  | succ levels ih =>
    obtain ⟨hcount, fields, negate, rfl, -, hread⟩ := visit_ok.mp h
    rcases hread with ⟨hleaf, rfl⟩ | ⟨all, children, rules, hbranch, hvisit, rfl⟩
    · obtain ⟨field, op, value, -, -, -, hleafOf⟩ := hleaf.read
      obtain ⟨name, operator, expected, haccepted, rfl⟩ := leafOf_ok.mp hleafOf
      refine visit_ok.mpr ⟨hcount, leafFields name operator expected negate, negate, rfl,
        negateOf_leafFields _ _ _ _, .inl ⟨isLeaf_leafFields.mpr ?_, rfl⟩⟩
      exact leafOf_ok.mpr ⟨name, operator, expected, haccepted.toJson (fits_leaf.mp hfits), rfl⟩
    · have hvisited := visitAll_ok.mp hvisit
      have hagain := hvisited.toJson ih (fits_branch.mp hfits)
      refine visit_ok.mpr ⟨hcount, branchFields all (toJsons rules) negate, negate, rfl,
        negateOf_branchFields _ _ _, .inr ⟨all, toJsons rules, rules, ?_, ?_, rfl⟩⟩
      · refine isBranch_branchFields ?_
        rw [toJsons_eq, List.length_map, hvisited.length_eq]
        exact hbranch.sized
      · exact visitAll_ok.mpr hagain

theorem scalar_toJson_short {field : String} {value read : Scalar}
    (h : scalar field value.toJson = .ok read) : value.Short := by
  cases value with
  | int n => exact trivial
  | text text => exact (scalar_str.mp h).short

theorem expected_short {field : String} {op : Op} {value expected : Expected}
    (h : expectedOf field op value.toJson = .ok expected) : value.Short := by
  unfold expectedOf at h
  split_ifs at h with hcidr hlist
  · cases value with
    | many values => cases h
    | one value =>
      cases value with
      | int n => cases h
      | text text =>
        simp only [Expected.toJson, Scalar.toJson] at h
        split_ifs at h with hrefused
        exact Nat.not_lt.mp (not_or.mp hrefused).2
  · cases value with
    | one value => cases value <;> cases h
    | many values =>
      simp only [Expected.toJson] at h
      split_ifs at h with hlength
      cases hread : (values.map Scalar.toJson).mapM (scalar field) with
      | error message => simp [hread, Except.map] at h
      | ok results =>
        intro read hmem
        have hall := mapM_ok.mp hread
        rw [List.forall₂_map_left_iff] at hall
        obtain ⟨result, -, hresult⟩ := partner_of_mem hall.flip hmem
        exact scalar_toJson_short hresult
  · cases value with
    | many values =>
      unfold scalar at h
      simp only [Expected.toJson] at h
      split_ifs at h <;> cases h
    | one value =>
      cases hread : scalar field (Expected.one value).toJson with
      | error message => simp [hread, Except.map] at h
      | ok read => exact scalar_toJson_short hread

theorem Visited.exists_visit {visit : Json → ℕ → Except String (Rule × ℕ)} {children : List Json}
    {rules : List Rule} (h : Visited visit children rules count count') {child : Json}
    (hmem : child ∈ children) :
    ∃ first rule next, rule ∈ rules ∧ visit child first = .ok (rule, next) := by
  induction h with
  | nil => cases hmem
  | cons hhead _ ih =>
    rcases List.mem_cons.mp hmem with rfl | hlater
    · exact ⟨_, _, _, List.mem_cons_self, hhead⟩
    · obtain ⟨first, rule, next, hrule, hvisit⟩ := ih hlater
      exact ⟨first, rule, next, List.mem_cons_of_mem _ hrule, hvisit⟩

theorem not_isBranch_leafFields {name : String} {op : Op} {expected : Expected} {all : Bool}
    {children : List Json} : ¬ IsBranch (leafFields name op expected negate) all children := by
  intro h
  have hhas := h.has
  cases all <;> cases negate <;> cases hhas

theorem isBranch_branchFields_eq {all all' : Bool} {children children' : List Json}
    (h : IsBranch (branchFields all children negate) all' children') :
    all' = all ∧ children' = children := by
  have hhas := h.has
  obtain rfl : all' = all := by
    cases all <;> cases all' <;> cases negate <;> first | rfl | cases hhas
  have hlist : (branchFields all' children negate).lookup (kindName all') =
      some (.arr children) := by
    cases all' <;> cases negate <;> rfl
  exact ⟨rfl, Json.arr.inj (Option.some.inj (h.list.symm.trans hlist))⟩

theorem not_isLeaf_branchFields {all : Bool} {children : List Json} {negate' : Bool} :
    ¬ IsLeaf (branchFields all children negate) negate' rule := by
  intro h
  have hall := h.noAll
  have hany := h.noAny
  cases all with
  | true => cases hall
  | false => cases hany

theorem fits_of_visit {result : Rule} (h : visit levels rule.toJson count = .ok (result, count')) :
    rule.Fits := by
  induction rule using Rule.induction generalizing levels count count' result with
  | leaf name op expected negate =>
    cases levels with
    | zero => cases h
    | succ levels =>
      obtain ⟨-, fields, negate', hfields, hnegate, hread⟩ := visit_ok.mp h
      obtain rfl : fields = leafFields name op expected negate := (Json.obj.inj hfields).symm
      rw [negateOf_leafFields] at hnegate
      obtain rfl := Except.ok.inj hnegate
      rcases hread with ⟨hleaf, -⟩ | ⟨all, children, rules, hbranch, -⟩
      · obtain ⟨name', op', expected', haccepted, -⟩ := leafOf_ok.mp (isLeaf_leafFields.mp hleaf)
        exact fits_leaf.mpr (expected_short haccepted.read)
      · exact absurd hbranch not_isBranch_leafFields
  | branch all children negate ih =>
    cases levels with
    | zero => cases h
    | succ levels =>
      obtain ⟨-, fields, negate', hfields, -, hread⟩ := visit_ok.mp h
      obtain rfl : fields = branchFields all (toJsons children) negate :=
        (Json.obj.inj hfields).symm
      rcases hread with ⟨hleaf, -⟩ | ⟨all', children', rules, hbranch, hvisit, -⟩
      · exact absurd hleaf not_isLeaf_branchFields
      · obtain ⟨-, rfl⟩ := isBranch_branchFields_eq hbranch
        rw [toJsons_eq] at hvisit
        refine fits_branch.mpr fun child hmem => ?_
        obtain ⟨first, result', next, -, hchild⟩ :=
          (visitAll_ok.mp hvisit).exists_visit (List.mem_map_of_mem hmem)
        exact ih child hmem hchild

inductive Holds : Json → List (String × Json) → Prop where
  | here {fields : List (String × Json)} : Holds (.obj fields) fields
  | under {fields : List (String × Json)} {all : Bool} {children : List Json} {child : Json}
      {leaf : List (String × Json)} (list : fields.lookup (kindName all) = some (.arr children))
      (mem : child ∈ children) (holds : Holds child leaf) : Holds (.obj fields) leaf

inductive Names : Json → String → Prop where
  | one {text : String} : Names (.str text) text
  | many {items : List Json} {text : String} (mem : .str text ∈ items) : Names (.arr items) text

def canonical (op text : String) : Option String :=
  if op = "cidr" then printedNetwork text else printedAddress text

def ShortFields (fields : List (String × Json)) : Prop :=
  ∀ op value text printed, fields.lookup "field" = some (.str "ip") →
    fields.lookup "op" = some (.str op) → fields.lookup "value" = some value →
      Names value text → canonical op text = some printed → printed.length ≤ maxString

def Short (rules : Json) : Prop := ∀ fields, Holds rules fields → ShortFields fields

theorem scalar_short {field : String} {value : Json} {read : Scalar}
    (h : scalar field value = .ok read) :
    read.Short ↔ ∀ text printed, value = .str text → field = "ip" →
      printedAddress text = some printed → printed.length ≤ maxString := by
  rcases scalar_cases h with ⟨n, rfl, rfl⟩ | ⟨text, rfl, hreads⟩
  · refine iff_of_true trivial ?_
    rintro text printed ⟨⟩
  · by_cases hip : field = "ip"
    · obtain ⟨printed, hprinted, rfl⟩ := hreads.address hip
      constructor
      · intro hshort text' printed' htext _ hprinted'
        rw [← Json.str.inj htext, hprinted] at hprinted'
        rw [← Option.some.inj hprinted']
        exact hshort
      · intro hall
        exact hall text printed rfl hip hprinted
    · rw [hreads.plain hip]
      exact iff_of_true hreads.short fun _ _ _ hsame => absurd hsame hip

theorem expected_short_iff {name spelled : String} {op : Op} {value : Json} {expected : Expected}
    (hop : opOf spelled = some op) (h : expectedOf name op value = .ok expected) :
    expected.Short ↔ ∀ text printed, name = "ip" → Names value text →
      canonical spelled text = some printed → printed.length ≤ maxString := by
  have hcidr : spelled = "cidr" ↔ op = .cidr := by
    constructor
    · rintro rfl
      exact (Option.some.inj hop).symm
    · rintro rfl
      unfold opOf at hop
      have hname := List.find?_some hop
      exact (beq_iff_eq.mp hname).symm
  have hcanonical : canonical spelled = if op = .cidr then printedNetwork else printedAddress := by
    funext text
    unfold canonical
    by_cases hnetwork : op = .cidr
    · rw [if_pos (hcidr.mpr hnetwork), if_pos hnetwork]
    · rw [if_neg (mt hcidr.mp hnetwork), if_neg hnetwork]
  rw [hcanonical]
  unfold expectedOf at h
  split_ifs at h with hnetwork hlist
  · split at h
    · rename_i text
      split_ifs at h with hrefused
      have hip : name = "ip" := not_not.mp (not_or.mp hrefused).1
      cases hprinted : printedNetwork text with
      | none => simp [hprinted] at h
      | some printed =>
        simp only [hprinted, Except.ok.injEq] at h
        subst h
        rw [if_pos hnetwork]
        constructor
        · intro hshort text' printed' _ hnames hprinted'
          cases hnames
          rw [hprinted] at hprinted'
          rw [← Option.some.inj hprinted']
          exact hshort
        · intro hall
          exact hall text printed hip .one hprinted
    · cases h
  · split at h
    · rename_i items
      split_ifs at h with hlength
      cases hread : items.mapM (scalar name) with
      | error message => simp [hread, Except.map] at h
      | ok values =>
        simp only [hread, Except.map, Except.ok.injEq] at h
        subst h
        have hall := mapM_ok.mp hread
        rw [if_neg hnetwork]
        constructor
        · intro hshort text printed hip hnames hprinted
          cases hnames with
          | many hmem =>
            obtain ⟨read, hvalue, hscalar⟩ := partner_of_mem hall.flip hmem
            exact (scalar_short hscalar).mp (hshort read hvalue) text printed rfl hip hprinted
        · intro hnames read hvalue
          obtain ⟨item, hmem, hscalar⟩ := partner_of_mem hall hvalue
          refine (scalar_short hscalar).mpr ?_
          rintro text printed rfl hip hprinted
          exact hnames text printed hip (.many hmem) hprinted
    · cases h
  · cases hread : scalar name value with
    | error message => simp [hread, Except.map] at h
    | ok read =>
      simp only [hread, Except.map, Except.ok.injEq] at h
      subst h
      rw [if_neg hnetwork]
      refine (scalar_short hread).trans ?_
      constructor
      · intro hshort text printed hip hnames hprinted
        cases hnames with
        | one => exact hshort text printed rfl hip hprinted
        | many hmem =>
          rcases scalar_cases hread with ⟨n, hvalue, -⟩ | ⟨text', hvalue, -⟩
          · cases hvalue
          · cases hvalue
      · rintro hnames text printed rfl hip hprinted
        exact hnames text printed hip .one hprinted

theorem short_leaf (hall : hasKey fields "all" = false) (hany : hasKey fields "any" = false) :
    Short (.obj fields) ↔ ShortFields fields := by
  constructor
  · intro h
    exact h fields .here
  · intro h leaf hholds
    cases hholds with
    | here => exact h
    | @under _ all children child _ hlist _ _ =>
      have hnone : hasKey fields (kindName all) = false := by
        cases all with
        | true => exact hall
        | false => exact hany
      rw [hasKey, hlist] at hnone
      cases hnone

theorem lookup_of_onlyKeys {keys : List String} {key : String} (h : onlyKeys fields keys = true)
    (hkey : key ∉ keys) : fields.lookup key = none := by
  refine List.lookup_eq_none_iff.mpr fun entry hentry => ?_
  have hmem : entry.1 ∈ keys := of_decide_eq_true (List.all_eq_true.mp h entry hentry)
  refine bne_iff_ne.mpr fun hsame => hkey ?_
  rw [hsame]
  exact hmem

theorem short_branch {all : Bool} {children : List Json} (h : IsBranch fields all children) :
    Short (.obj fields) ↔ ∀ child ∈ children, Short child := by
  have hfield : fields.lookup "field" = none :=
    lookup_of_onlyKeys h.only (by cases all <;> decide)
  constructor
  · intro hshort child hmem leaf hholds
    exact hshort leaf (.under h.list hmem hholds)
  · intro hshort leaf hholds
    cases hholds with
    | here =>
      intro op value text printed hip
      rw [hfield] at hip
      cases hip
    | @under _ all' children' child _ hlist hmem hholds =>
      obtain rfl : all' = all := by
        by_contra hne
        have hother := h.hasNot
        rw [← Bool.eq_not.mpr hne, hasKey, hlist] at hother
        cases hother
      rw [h.list] at hlist
      rw [← Json.arr.inj (Option.some.inj hlist)] at hmem
      exact hshort child hmem leaf hholds

theorem Visited.forall_iff {visit : Json → ℕ → Except String (Rule × ℕ)} {children : List Json}
    {rules : List Rule}
    (hvisit : ∀ {node : Json} {count count' : ℕ} {rule : Rule},
      visit node count = .ok (rule, count') → (rule.Fits ↔ Short node))
    (h : Visited visit children rules count count') :
    (∀ rule ∈ rules, rule.Fits) ↔ ∀ child ∈ children, Short child := by
  induction h with
  | nil => simp
  | cons hhead _ ih => rw [List.forall_mem_cons, List.forall_mem_cons, ih, hvisit hhead]

/-- The canonical values are short enough exactly where the tree that was sent in says so. -/
theorem fits_iff (h : visit levels node count = .ok (rule, count')) : rule.Fits ↔ Short node := by
  induction levels generalizing node count rule count' with
  | zero => cases h
  | succ levels ih =>
    obtain ⟨-, fields, negate, rfl, -, hread⟩ := visit_ok.mp h
    rcases hread with ⟨hleaf, -⟩ | ⟨all, children, rules, hbranch, hvisit, rfl⟩
    · obtain ⟨field, op, value, hfield, hop, hvalue, hleafOf⟩ := hleaf.read
      obtain ⟨name, operator, expected, haccepted, rfl⟩ := leafOf_ok.mp hleafOf
      obtain ⟨spelled, hspelled, hoperator⟩ := haccepted.spelled
      rw [fits_leaf, short_leaf hleaf.noAll hleaf.noAny,
        expected_short_iff hoperator haccepted.read]
      rw [haccepted.named] at hfield
      rw [hspelled] at hop
      constructor
      · intro hshort op' value' text printed hfield' hop' hvalue' hnames hprinted
        rw [hfield] at hfield'
        rw [hop] at hop'
        rw [hvalue] at hvalue'
        obtain rfl := Option.some.inj hvalue'
        refine hshort text printed (Json.str.inj (Option.some.inj hfield')) hnames ?_
        rw [Json.str.inj (Option.some.inj hop')]
        exact hprinted
      · rintro hshort text printed rfl hnames hprinted
        exact hshort spelled value text printed hfield hop hvalue hnames hprinted
    · rw [fits_branch, short_branch hbranch]
      exact (visitAll_ok.mp hvisit).forall_iff ih

end Trees

section Bounds

variable {rules : Json} {rule : Rule} {levels count count' : ℕ}

mutual

def Rule.nodes : Rule → ℕ
  | .leaf _ _ _ _ => 1
  | .branch _ children _ => 1 + nodesAll children

def nodesAll : List Rule → ℕ
  | [] => 0
  | rule :: rules => rule.nodes + nodesAll rules

end

mutual

def Rule.depth : Rule → ℕ
  | .leaf _ _ _ _ => 0
  | .branch _ children _ => 1 + depthAll children

def depthAll : List Rule → ℕ
  | [] => 0
  | rule :: rules => max rule.depth (depthAll rules)

end

/-- A value that an operator on a field can ask for: a network in canonical form, or a value that is
read for the field. -/
def ValidValue (field : String) (op : Op) (value : Scalar) : Prop :=
  (op = .cidr → ∃ printed, value = .text printed ∧ printedNetwork printed = some printed) ∧
    (op ≠ .cidr → ∃ raw, scalar field raw = .ok value)

/-- What a node may be, its children apart. -/
def Rule.Sane : Rule → Prop
  | .leaf field op (.one value) _ => (field ∈ ruleFields ∨ isTag field = true) ∧
      (op = .cidr → field = "ip") ∧ op ≠ .in_ ∧ op ≠ .notIn ∧
      (isListed op = false → field ∉ integers ∧ field ≠ "os_family" ∧
        (field = "ip" → op = .cidr)) ∧ ValidValue field op value
  | .leaf field op (.many values) _ => (field ∈ ruleFields ∨ isTag field = true) ∧
      (op = .in_ ∨ op = .notIn) ∧ 1 ≤ values.length ∧ values.length ≤ maxValues ∧
      ∀ value ∈ values, ValidValue field op value
  | .branch _ children _ => 1 ≤ children.length ∧ children.length ≤ maxValues

theorem depthAll_le {rules : List Rule} {bound : ℕ} :
    depthAll rules ≤ bound ↔ ∀ rule ∈ rules, rule.depth ≤ bound := by
  induction rules with
  | nil => simp [depthAll]
  | cons first rest ih => rw [depthAll, Nat.max_le, ih, List.forall_mem_cons]

theorem Accepted.sane {field op value : Json} {name : String} {operator : Op}
    {expected : Expected} (h : Accepted field op value name operator expected) (negate : Bool) :
    (Rule.leaf name operator expected negate).Sane := by
  have hread := h.read
  unfold expectedOf at hread
  split_ifs at hread with hcidr hlist
  · cases value with
    | str text =>
      dsimp only at hread
      split_ifs at hread with hbad
      cases hnetwork : printedNetwork text with
      | none =>
        rw [hnetwork] at hread
        cases hread
      | some printed =>
        rw [hnetwork] at hread
        obtain rfl := Except.ok.inj hread
        subst hcidr
        refine ⟨h.known, fun _ => not_not.mp fun hne => hbad (.inl hne), by simp, by simp,
          fun hlisted => ⟨fun hint => h.integer ⟨hint, hlisted⟩,
            fun hfamily => h.family ⟨hfamily, hlisted⟩, fun _ => rfl⟩,
          fun _ => ⟨printed, rfl, printedNetwork_print hnetwork⟩, fun hne => absurd rfl hne⟩
    | _ => cases hread
  · cases value with
    | arr items =>
      dsimp only at hread
      split_ifs at hread with hsized
      obtain ⟨values, hvalues, rfl⟩ := Except.map_eq_ok.mp hread
      have hmatched := mapM_ok.mp hvalues
      have hlength := hmatched.length_eq
      refine ⟨h.known, hlist, hlength ▸ hsized.1, hlength ▸ hsized.2, fun value hvalue => ?_⟩
      obtain ⟨item, _, hitem⟩ := partner_of_mem hmatched hvalue
      exact ⟨fun hop => absurd hop hcidr, fun _ => ⟨item, hitem⟩⟩
    | _ => cases hread
  · obtain ⟨read, hscalar, rfl⟩ := Except.map_eq_ok.mp hread
    obtain ⟨hin, hnotIn⟩ := not_or.mp hlist
    exact ⟨h.known, fun hop => absurd hop hcidr, hin, hnotIn,
      fun hlisted => ⟨fun hint => h.integer ⟨hint, hlisted⟩,
        fun hfamily => h.family ⟨hfamily, hlisted⟩,
        fun hip => not_not.mp fun hop => h.address ⟨hip, hlisted, hop⟩⟩,
      fun hop => absurd hop hcidr, fun _ => ⟨value, hscalar⟩⟩

theorem Visited.bounds {children : List Json} {rules : List Rule}
    (h : Visited (visit levels) children rules count count') (hcount : count ≤ maxNodes)
    (ih : ∀ {node : Json} {rule : Rule} {first last : ℕ},
      visit levels node first = .ok (rule, last) → last = first + rule.nodes ∧ last ≤ maxNodes ∧
        rule.depth + 1 ≤ levels ∧ ∀ node, rule.Node node → node.Sane) :
    count' = count + nodesAll rules ∧ count' ≤ maxNodes ∧
      ∀ rule ∈ rules, rule.depth + 1 ≤ levels ∧ ∀ node, rule.Node node → node.Sane := by
  induction h with
  | nil => exact ⟨rfl, hcount, by simp⟩
  | cons hhead _ ihtail =>
    obtain ⟨hnodes, hmost, hdepth, hsane⟩ := ih hhead
    obtain ⟨hlater, hbound, hall⟩ := ihtail hmost
    refine ⟨?_, hbound, List.forall_mem_cons.mpr ⟨⟨hdepth, hsane⟩, hall⟩⟩
    rw [hlater, hnodes, nodesAll]
    omega

theorem visit_bounds {node : Json} (h : visit levels node count = .ok (rule, count')) :
    count' = count + rule.nodes ∧ count' ≤ maxNodes ∧ rule.depth + 1 ≤ levels ∧
      ∀ node, rule.Node node → node.Sane := by
  induction levels generalizing node count rule count' with
  | zero => cases h
  | succ levels ih =>
    obtain ⟨hcount, fields, negate, rfl, _, hread⟩ := visit_ok.mp h
    obtain ⟨hleaf, rfl⟩ | ⟨all, children, rules, hbranch, hvisit, rfl⟩ := hread
    · obtain ⟨field, op, value, _, _, _, hok⟩ := hleaf.read
      obtain ⟨name, operator, expected, haccepted, rfl⟩ := leafOf_ok.mp hok
      refine ⟨by rw [Rule.nodes], hcount, by rw [Rule.depth]; omega, fun node hnode => ?_⟩
      cases hnode
      exact haccepted.sane negate
    · have hvisited := visitAll_ok.mp hvisit
      obtain ⟨hnodes, hmost, hall⟩ := hvisited.bounds hcount fun hinner => ih hinner
      have hlength := hvisited.length_eq
      have hsized := hbranch.sized
      refine ⟨by rw [Rule.nodes]; omega, hmost, ?_, fun node hnode => ?_⟩
      · obtain ⟨first, hfirst⟩ : ∃ first, first ∈ rules :=
          List.exists_mem_of_ne_nil _ (by rintro rfl; rw [List.length_nil] at hlength; omega)
        have hfloor := (hall first hfirst).1
        have hdepth : depthAll rules ≤ levels - 1 := depthAll_le.mpr fun rule hrule => by
          have hrest := (hall rule hrule).1
          omega
        rw [Rule.depth]
        omega
      · cases hnode with
        | self => exact ⟨hlength ▸ hsized.1, hlength ▸ hsized.2⟩
        | inside hmem hinner => exact (hall _ hmem).2 _ hinner

theorem Rule.Sane.isField {field : String} {op : Op} {value : Expected} {negate : Bool}
    (h : (Rule.leaf field op value negate).Sane) : IsField field := by
  cases value with
  | one value => exact h.1
  | many values => exact h.1

end Bounds

section Results

variable (casefold : String → String) {rules : Json} {rule : Rule}

theorem validateRules_ok :
    validateRules rules = .ok rule ↔
      (∃ count, visit (maxDepth + 1) rules 0 = .ok (rule, count)) ∧
        (rule.dumped.map Char.utf8Size).sum ≤ maxRuleBytes := by
  unfold validateRules
  cases hvisit : visit (maxDepth + 1) rules 0 with
  | error message => simp [bind, Except.bind]
  | ok visited =>
    obtain ⟨result, count⟩ := visited
    simp only [bind, Except.bind, Except.ok.injEq, Prod.mk.injEq]
    constructor
    · intro h
      split_ifs at h with hbytes
      obtain rfl := Except.ok.inj h
      exact ⟨⟨count, rfl, rfl⟩, Nat.not_lt.mp hbytes⟩
    · rintro ⟨⟨_, rfl, -⟩, hbytes⟩
      rw [if_neg (Nat.not_lt.mpr hbytes)]
      rfl

/-- Rules are settled once they are validated: what the evaluation says is the Kleene reading of
the tree, which further evidence never takes back, and it is the same of the tree as it is kept;
exactly where no address of the tree grows over the limit when it is printed. -/
theorem rules_settled (h : validateRules rules = .ok rule) :
    ((∀ first second, Fills first second → ∀ answer : Bool,
        evaluateRules casefold rules first = .ok (some answer) →
          evaluateRules casefold rules second = .ok (some answer)) ∧
      (∀ snapshot, evaluateRules casefold rules snapshot =
        .ok (kleene casefold snapshot rule)) ∧
      (∀ field op expected snapshot, denies op = true →
        (condition casefold field op expected snapshot = some true ↔
          ∀ value ∈ listed snapshot field, ∃ actual, known field value = some actual ∧
            meets casefold field op expected actual = false)) ∧
      validateRules rule.toJson = .ok rule ∧
      ∀ snapshot, evaluateRules casefold rule.toJson snapshot =
        evaluateRules casefold rules snapshot) ↔ Short rules := by
  have heval : ∀ snapshot, evaluateRules casefold rules snapshot =
      .ok (kleene casefold snapshot rule) := by
    intro snapshot
    rw [evaluateRules, h, Except.map, evaluate_eq_kleene]
  obtain ⟨⟨count, hvisit⟩, hbytes⟩ := validateRules_ok.mp h
  constructor
  · rintro ⟨-, -, -, hagain, -⟩
    obtain ⟨⟨count', hvisit'⟩, -⟩ := validateRules_ok.mp hagain
    exact (fits_iff hvisit).mp (fits_of_visit hvisit')
  · intro hshort
    have hagain : validateRules rule.toJson = .ok rule :=
      validateRules_ok.mpr
        ⟨⟨count, visit_toJson hvisit ((fits_iff hvisit).mpr hshort)⟩, hbytes⟩
    refine ⟨?_, heval, ?_, hagain, ?_⟩
    · intro first second hfills answer hanswer
      rw [heval] at hanswer ⊢
      have hfields := fun field op value negate hnode =>
        ((visit_bounds hvisit).2.2.2 (.leaf field op value negate) hnode).isField
      rw [kleene_below casefold hfills rule hfields answer (Except.ok.inj hanswer)]
    · intro field op expected snapshot hdenies
      rw [condition_eq]
      exact denial_holds_iff casefold hdenies expected snapshot
    · intro snapshot
      rw [evaluateRules, evaluateRules, hagain, h]

theorem visit_condition {levels count : ℕ} {name spelled : String} {value : Json} {op : Op}
    {expected : Expected} (hcount : count + 1 ≤ maxNodes)
    (h : Accepted (.str name) (.str spelled) value name op expected) :
    visit (levels + 1) (.obj [("field", .str name), ("op", .str spelled), ("value", value)]) count =
      .ok (.leaf name op expected false, count + 1) :=
  visit_ok.mpr ⟨hcount, _, false, rfl, rfl, .inl ⟨⟨rfl, rfl, rfl, _, _, _, rfl, rfl, rfl,
    leafOf_ok.mpr ⟨name, op, expected, h, rfl⟩⟩, rfl⟩⟩

def mixedRules : Json :=
  .obj [("all", .arr [
    .obj [("field", .str "fqdn"), ("op", .str "ends_with"), ("value", .str ".example.org")],
    .obj [("field", .str "ip"), ("op", .str "cidr"), ("value", .str "10.1.2.3/8")]]),
    ("negate", .bool true)]

def mixedRule : Rule :=
  .branch true [
    .leaf "fqdn" .endsWith (.one (.text ".example.org")) false,
    .leaf "ip" .cidr (.one (.text "10.0.0.0/8")) false] true

theorem mixedRules_visited : visit (maxDepth + 1) mixedRules 0 = .ok (mixedRule, 3) := by
  have hname : Accepted (.str "fqdn") (.str "ends_with") (.str ".example.org") "fqdn" .endsWith
      (.one (.text ".example.org")) :=
    ⟨rfl, ⟨_, rfl, rfl⟩, by decide, by decide, by decide, by decide, by decide +kernel⟩
  have hnetwork : Accepted (.str "ip") (.str "cidr") (.str "10.1.2.3/8") "ip" .cidr
      (.one (.text "10.0.0.0/8")) :=
    ⟨rfl, ⟨_, rfl, rfl⟩, by decide, by decide, by decide, by decide, by decide +kernel⟩
  refine visit_ok.mpr ⟨by decide, _, true, rfl, rfl, .inr ⟨true, _, _,
    ⟨rfl, rfl, rfl, rfl, by decide⟩, visitAll_ok.mpr ?_, rfl⟩⟩
  exact .cons (visit_condition (by decide) hname)
    (.cons (visit_condition (by decide) hnetwork) .nil)

def named : Snapshot := [("fqdn", .str "host.test"), ("os_family", .str "linux"), ("tags", .obj [])]

/-- The same host once it has a tag and its OS is confirmed. -/
def namedLater : Snapshot :=
  [("fqdn", .str "host.test"), ("os_family", .str "linux"),
    ("tags", .obj [("team", .str "blue")]),
    ("_os_evidence", .obj [("state", .str "confirmed"), ("source", .str "endpoint_inventory")])]

theorem fills_named : Fills named namedLater := by
  intro field hfield
  by_cases hname : field = "fqdn"
  · subst hname
    exact .inr (.cons (.inr rfl) .nil)
  · have hraw : rawOf named field = .null := by
      unfold rawOf
      split_ifs with hfamily
      · rfl
      · rfl
      · have hother : field ≠ "os_family" := fun h => hfamily ⟨h, rfl⟩
        have htags : field ≠ "tags" := by
          rintro rfl
          exact absurd hfield (show ¬ ("tags" ∈ ruleFields ∨ isTag "tags" = true) by decide)
        simp only [named, List.lookup, beq_eq_false_iff_ne.mpr hname,
          beq_eq_false_iff_ne.mpr hother, beq_eq_false_iff_ne.mpr htags, Option.getD_none]
    refine .inl fun value hvalue => ?_
    rw [valuesOf, hraw] at hvalue
    rw [List.mem_singleton.mp hvalue]
    rfl

theorem rules_settled_mixed :
    validateRules mixedRules = .ok mixedRule ∧
      evaluateRules id mixedRules namedLater = .ok (some true) ∧
      validateRules mixedRule.toJson = .ok mixedRule ∧
      ∀ snapshot, evaluateRules id mixedRule.toJson snapshot =
        evaluateRules id mixedRules snapshot := by
  have hvalid : validateRules mixedRules = .ok mixedRule :=
    validateRules_ok.mpr ⟨⟨3, mixedRules_visited⟩, by decide +kernel⟩
  have hfits : mixedRule.Fits := by
    refine fits_branch.mpr fun child hmem => ?_
    rcases List.mem_pair.mp hmem with rfl | rfl
    · exact fits_leaf.mpr (show ".example.org".length ≤ maxString by decide +kernel)
    · exact fits_leaf.mpr (show "10.0.0.0/8".length ≤ maxString by decide +kernel)
  have hsettled := (rules_settled id hvalid).mpr ((fits_iff mixedRules_visited).mp hfits)
  have hfirst : evaluateRules id mixedRules named = .ok (some true) := by
    rw [evaluateRules, hvalid]
    decide +kernel
  exact ⟨hvalid, hsettled.1 named namedLater fills_named true hfirst, hsettled.2.2.2⟩

def cidrRules (text : String) : Json :=
  .obj [("field", .str "ip"), ("op", .str "cidr"), ("value", .str text)]

theorem validateRules_refused {text message : String}
    (h : expectedOf "ip" .cidr (.str text) = .error message) :
    validateRules (cidrRules text) = .error message := by
  have hleaf : conditionOf [("field", .str "ip"), ("op", .str "cidr"), ("value", .str text)] false =
      (expectedOf "ip" .cidr (.str text)).map fun expected => .leaf "ip" .cidr expected false := by
    rfl
  have hvisit : visit (maxDepth + 1) (cidrRules text) 0 = .error message := by
    show (conditionOf [("field", .str "ip"), ("op", .str "cidr"), ("value", .str text)] false).bind
      _ = _
    rw [hleaf, h]
    rfl
  rw [validateRules, hvisit]
  rfl

def zoned : List Char := "::1%".toList ++ List.replicate 252 'a'

def zonedRule : Rule :=
  .leaf "ip" .cidr (.one (.text (String.ofList (zoned ++ "/128".toList)))) false

/-- Its network is longer by the prefix length, so the tree that is kept is refused. -/
theorem zoned_unsettled :
    validateRules (cidrRules (String.ofList zoned)) = .ok zonedRule ∧
      validateRules zonedRule.toJson = .error "cidr requires the ip field and a network" ∧
      ∀ snapshot, evaluateRules id zonedRule.toJson snapshot =
        .error "cidr requires the ip field and a network" := by
  have hprinted : (ipNetwork zoned).map Network.print = some (zoned ++ "/128".toList) := by
    decide +kernel
  have hnetwork : printedNetwork (String.ofList zoned) =
      some (String.ofList (zoned ++ "/128".toList)) := by
    obtain ⟨network, hread, hprint⟩ := Option.map_eq_some_iff.mp hprinted
    rw [printedNetwork, String.toList_ofList, hread, Option.map_some, hprint]
  have hread : expectedOf "ip" .cidr (.str (String.ofList zoned)) =
      .ok (.one (.text (String.ofList (zoned ++ "/128".toList)))) := by
    have hroom : ¬ ("ip" ≠ "ip" ∨ maxString < (String.ofList zoned).length) := by
      rw [String.length_ofList]
      decide +kernel
    rw [expectedOf, if_pos rfl]
    simp only [if_neg hroom, hnetwork]
  have hrefused : expectedOf "ip" .cidr (.str (String.ofList (zoned ++ "/128".toList))) =
      .error "cidr requires the ip field and a network" := by
    have hroom : "ip" ≠ "ip" ∨ maxString < (String.ofList (zoned ++ "/128".toList)).length := by
      rw [String.length_ofList]
      exact .inr (by decide +kernel)
    rw [expectedOf, if_pos rfl]
    simp only [if_pos hroom]
  have hbytes : (zonedRule.dumped.map Char.utf8Size).sum ≤ maxRuleBytes := by
    have hdumped : zonedRule.dumped = dumpedObject [("field", quoted "ip"), ("op", quoted "cidr"),
        ("value", '"' :: (zoned ++ "/128".toList).flatMap escaped ++ ['"'])] := by
      simp only [zonedRule, Rule.dumped, Expected.dumped, Scalar.dumped, dumpedNegate, quoted,
        String.toList_ofList, Op.name, Bool.false_eq_true, if_false, List.append_nil]
    rw [hdumped]
    decide +kernel
  have hagain := validateRules_refused hrefused
  refine ⟨validateRules_ok.mpr ⟨⟨1, visit_condition (by decide) ?_⟩, hbytes⟩, hagain, ?_⟩
  · exact ⟨rfl, ⟨_, rfl, rfl⟩, by decide, by decide, by decide, by decide, hread⟩
  · intro snapshot
    show (validateRules (cidrRules _)).map _ = _
    rw [hagain]
    rfl

/-- Rules that are accepted are a bounded tree of sane nodes, and no longer in print than may be
kept. -/
theorem accepted_bounded (h : validateRules rules = .ok rule) :
    rule.nodes ≤ maxNodes ∧ rule.depth ≤ maxDepth ∧
      (rule.dumped.map Char.utf8Size).sum ≤ maxRuleBytes ∧
        ∀ node, rule.Node node → node.Sane := by
  obtain ⟨⟨count, hvisit⟩, hbytes⟩ := validateRules_ok.mp h
  obtain ⟨hnodes, hmost, hdepth, hsane⟩ := visit_bounds hvisit
  exact ⟨by omega, by omega, hbytes, hsane⟩

theorem accepted_bounded_mixed : mixedRule.nodes ≤ maxNodes ∧ mixedRule.depth ≤ maxDepth ∧
    (mixedRule.dumped.map Char.utf8Size).sum ≤ maxRuleBytes ∧
      ∀ node, mixedRule.Node node → node.Sane :=
  @accepted_bounded mixedRules mixedRule
    (validateRules_ok.mpr ⟨⟨3, mixedRules_visited⟩, by decide +kernel⟩)

end Results

end Shapoclyack.AssetGroupRules
