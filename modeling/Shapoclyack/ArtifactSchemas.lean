import Mathlib.Data.List.Basic
import Mathlib.Data.Rat.Defs

set_option autoImplicit false

namespace Shapoclyack.ArtifactSchemas

section Documents

/-- A number that `json.loads` reads as a float. -/
inductive FloatValue where
  | finite (value : ℚ)
  | infinite (negative : Bool)
  | nan
deriving DecidableEq

inductive Json where
  | null
  | bool (value : Bool)
  | int (value : ℤ)
  | float (value : FloatValue)
  | str (value : String)
  | arr (items : List Json)
  | obj (fields : List (String × Json))

inductive Kind where
  | object
  | array
  | string
  | boolean
  | null
  | integer
  | number
deriving DecidableEq, Repr

def Kind.name : Kind → String
  | .object => "object"
  | .array => "array"
  | .string => "string"
  | .boolean => "boolean"
  | .null => "null"
  | .integer => "integer"
  | .number => "number"

def typeOk : Json → Kind → Bool
  | .obj _, .object => true
  | .arr _, .array => true
  | .str _, .string => true
  | .bool _, .boolean => true
  | .null, .null => true
  | .int _, .integer => true
  | .int _, .number => true
  | .float _, .number => true
  | _, _ => false

/-- `type(value).__name__` -/
def typeName : Json → String
  | .null => "NoneType"
  | .bool _ => "bool"
  | .int _ => "int"
  | .float _ => "float"
  | .str _ => "str"
  | .arr _ => "list"
  | .obj _ => "dict"

def isOfType : Option (List Kind) → Json → Bool
  | none, _ => true
  | some kinds, value => kinds.any (typeOk value)

def isBelow (minimum : ℤ) : Json → Bool
  | .int value => decide (value < minimum)
  | .float (.finite value) => decide (value < minimum)
  | .float (.infinite negative) => negative
  | _ => false

def isShort (minLength : ℕ) : Json → Bool
  | .str value => decide (value.length < minLength)
  | _ => false

/-- The subset of JSON Schema that the checks read. -/
inductive Schema where
  -- an enum is the list as it is printed, and whether a value is in it
  | mk (type : Option (List Kind)) (enum : Option (String × (Json → Bool))) (minLength : ℕ)
    (minimum : Option ℤ) (required : List String) (properties : List (String × Schema))
    (minItems : ℕ) (items : Option Schema)

end Documents

section Validate

def validateItems (check : Json → String → List String → List String) (path : String) :
    ℕ → List Json → List String → List String
  | _, [], errors => errors
  | index, item :: rest, errors =>
    let errors' := check item (path ++ "[" ++ toString index ++ "]") errors
    if 5 ≤ errors'.length then errors' else validateItems check path (index + 1) rest errors'

def validateValue (enum : Option (String × (Json → Bool))) (minLength : ℕ) (minimum : Option ℤ)
    (required : List String) (minItems : ℕ) (value : Json) (path : String) : List String :=
  (match enum with
    | none => []
    | some (listed, mem) => if mem value then [] else [path ++ ": not one of " ++ listed]) ++
  (if isShort minLength value then [path ++ ": must not be empty"] else []) ++
  (match minimum with
    | none => []
    | some least =>
      if isBelow least value then [path ++ ": below minimum " ++ toString least] else []) ++
  (match value with
    | .obj fields =>
      (required.filter fun name => (fields.lookup name).isNone).map fun name =>
        path ++ ": missing required property '" ++ name ++ "'"
    | _ => []) ++
  (match value with
    | .arr items =>
      if items.length < minItems then
        [path ++ ": needs at least " ++ toString minItems ++ " items"]
      else []
    | _ => [])

mutual

/-- `_validate`: the errors so far, with those of a value under a schema. -/
def validate : Schema → Json → String → List String → List String
  | .mk type enum minLength minimum required properties minItems items, value, path, errors =>
    if isOfType type value then
      let errors' := errors ++ validateValue enum minLength minimum required minItems value path
      match value with
      | .obj fields => validateProperties properties fields path errors'
      | .arr values =>
        match items with
        | none => errors'
        | some schema => validateItems (validate schema) path 0 values errors'
      | _ => errors'
    else
      errors ++ [path ++ ": expected " ++ String.intercalate "/" ((type.getD []).map Kind.name) ++
        ", got " ++ typeName value]

def validateProperties :
    List (String × Schema) → List (String × Json) → String → List String → List String
  | [], _, _, errors => errors
  | (name, schema) :: rest, fields, path, errors =>
    validateProperties rest fields path
      (match fields.lookup name with
        | none => errors
        | some value => validate schema value (path ++ "." ++ name) errors)

end

end Validate

section Satisfaction

mutual

/-- What a schema asks of a value. -/
def Satisfies : Schema → Json → Prop
  | .mk type enum minLength minimum required properties minItems items, value =>
    isOfType type value = true ∧
    (∀ allowed, enum = some allowed → allowed.2 value = true) ∧
    isShort minLength value = false ∧
    (∀ least, minimum = some least → isBelow least value = false) ∧
    (∀ fields, value = .obj fields →
      (∀ name ∈ required, (fields.lookup name).isSome = true) ∧
        SatisfiesProperties properties fields) ∧
    ∀ values, value = .arr values → minItems ≤ values.length ∧
      match items with
      | none => True
      | some schema => ∀ item ∈ values, Satisfies schema item

def SatisfiesProperties : List (String × Schema) → List (String × Json) → Prop
  | [], _ => True
  | (name, schema) :: rest, fields =>
    (∀ value, fields.lookup name = some value → Satisfies schema value) ∧
      SatisfiesProperties rest fields

end

def Adds (check : Json → String → List String → List String) : Prop :=
  ∀ value path errors, errors <+: check value path errors

theorem validateItems_extends {check : Json → String → List String → List String}
    (h : Adds check) (path : String) (index : ℕ) (values : List Json) (errors : List String) :
    errors <+: validateItems check path index values errors := by
  induction values generalizing index errors with
  | nil => exact List.prefix_rfl
  | cons item rest ih =>
    have hitem := h item (path ++ "[" ++ toString index ++ "]") errors
    simp only [validateItems]
    split_ifs
    · exact hitem
    · exact hitem.trans (ih _ _)

mutual

theorem validate_extends : ∀ (schema : Schema) (value : Json) (path : String)
    (errors : List String), errors <+: validate schema value path errors
  | .mk type enum minLength minimum required properties minItems items, value, path, errors => by
    unfold validate
    split
    · have hvalue : errors <+: errors ++
          validateValue enum minLength minimum required minItems value path :=
        List.prefix_append _ _
      simp only
      split
      · exact hvalue.trans (validateProperties_extends properties _ path _)
      · split
        · exact hvalue
        · next schema =>
          exact hvalue.trans (validateItems_extends (validate_extends schema) path 0 _ _)
      · exact hvalue
    · exact List.prefix_append _ _

theorem validateProperties_extends : ∀ (properties : List (String × Schema))
    (fields : List (String × Json)) (path : String) (errors : List String),
    errors <+: validateProperties properties fields path errors
  | [], _, _, _ => List.prefix_rfl
  | (name, schema) :: rest, fields, path, errors => by
    unfold validateProperties
    split
    · exact validateProperties_extends rest fields path errors
    · next value _ =>
      exact (validate_extends schema value _ errors).trans
        (validateProperties_extends rest fields path _)

end

theorem eq_of_extends {a b c : List String} (hab : a <+: b) (hbc : b <+: c) (h : c = a) :
    b = a := by
  have hlen := hab.length_le
  have hlen' := hbc.length_le
  rw [h] at hlen'
  exact (hab.eq_of_length (by omega)).symm

theorem validateItems_iff {check : Json → String → List String → List String} {good : Json → Prop}
    (hadds : Adds check) {errors : List String} (hfew : errors.length < 5)
    (hcheck : ∀ value path, check value path errors = errors ↔ good value) (path : String)
    (index : ℕ) (values : List Json) :
    validateItems check path index values errors = errors ↔ ∀ item ∈ values, good item := by
  induction values generalizing index with
  | nil => simp [validateItems]
  | cons item rest ih =>
    have hitem := hadds item (path ++ "[" ++ toString index ++ "]") errors
    rw [List.forall_mem_cons, ← hcheck item (path ++ "[" ++ toString index ++ "]")]
    simp only [validateItems]
    constructor
    · intro h
      split_ifs at h with hmany
      · rw [h] at hmany
        omega
      · have hsame := eq_of_extends hitem (validateItems_extends hadds path _ rest _) h
        rw [hsame] at h
        exact ⟨hsame, (ih _).mp h⟩
    · rintro ⟨hsame, hrest⟩
      rw [hsame, if_neg (by omega)]
      exact (ih _).mpr hrest

theorem validateValue_eq_nil {enum : Option (String × (Json → Bool))} {minLength : ℕ}
    {minimum : Option ℤ} {required : List String} {minItems : ℕ} {value : Json} {path : String} :
    validateValue enum minLength minimum required minItems value path = [] ↔
      (∀ allowed, enum = some allowed → allowed.2 value = true) ∧
      isShort minLength value = false ∧
      (∀ least, minimum = some least → isBelow least value = false) ∧
      (∀ fields, value = .obj fields → ∀ name ∈ required, (fields.lookup name).isSome = true) ∧
      ∀ values, value = .arr values → minItems ≤ values.length := by
  have henum : (match enum with
      | none => []
      | some (listed, mem) => if mem value then [] else [path ++ ": not one of " ++ listed]) = [] ↔
      ∀ allowed, enum = some allowed → allowed.2 value = true := by
    cases enum <;> simp
  have hminimum : (match minimum with
      | none => []
      | some least =>
        if isBelow least value then [path ++ ": below minimum " ++ toString least] else []) = [] ↔
      ∀ least, minimum = some least → isBelow least value = false := by
    cases minimum <;> simp
  unfold validateValue
  rw [List.append_eq_nil_iff, List.append_eq_nil_iff, List.append_eq_nil_iff,
    List.append_eq_nil_iff, henum, hminimum]
  cases value <;> simp [and_assoc, List.filter_eq_nil_iff, Option.isSome_iff_ne_none]

theorem append_eq_self {errors added : List String} : errors ++ added = errors ↔ added = [] := by
  simp

theorem deeper_iff {errors added : List String} {deeper : List String → List String}
    (hextends : errors ++ added <+: deeper (errors ++ added)) :
    deeper (errors ++ added) = errors ↔ added = [] ∧ deeper errors = errors := by
  constructor
  · intro h
    have hsame := eq_of_extends (List.prefix_append errors added) hextends h
    rw [hsame] at h
    exact ⟨append_eq_self.mp hsame, h⟩
  · rintro ⟨hnil, h⟩
    rw [hnil, List.append_nil]
    exact h

mutual

/-- The checks add no error exactly where the value is what the schema asks for. -/
theorem validate_iff : ∀ (schema : Schema) (value : Json) (path : String) {errors : List String},
    errors.length < 5 → (validate schema value path errors = errors ↔ Satisfies schema value)
  | .mk type enum minLength minimum required properties minItems items, value, path, errors,
      hfew => by
    unfold validate Satisfies
    by_cases htype : isOfType type value = true
    · simp only [htype, if_true, true_and]
      cases value with
      | obj fields =>
        simp only
        rw [deeper_iff (validateProperties_extends properties fields path _), validateValue_eq_nil,
          validateProperties_iff properties fields path hfew]
        simp only [Json.obj.injEq, forall_eq', reduceCtorEq, false_implies, implies_true, and_true,
          and_assoc]
      | arr values =>
        cases items with
        | none =>
          simp only
          rw [append_eq_self, validateValue_eq_nil]
          simp only [Json.arr.injEq, forall_eq', reduceCtorEq, false_implies, implies_true,
            and_true, true_and]
        | some schema =>
          have hitems := validateItems_iff (validate_extends schema) hfew
            (fun value path => validate_iff schema value path hfew) path 0 values
          simp only
          rw [deeper_iff (validateItems_extends (validate_extends schema) path 0 values _),
            validateValue_eq_nil, hitems]
          simp only [Json.arr.injEq, forall_eq', reduceCtorEq, false_implies, implies_true,
            true_and, and_assoc]
      | _ =>
        simp only
        rw [append_eq_self, validateValue_eq_nil]
        simp only [reduceCtorEq, false_implies, implies_true, and_true]
    · simp [htype]

theorem validateProperties_iff : ∀ (properties : List (String × Schema))
    (fields : List (String × Json)) (path : String) {errors : List String}, errors.length < 5 →
    (validateProperties properties fields path errors = errors ↔
      SatisfiesProperties properties fields)
  | [], _, _, _, _ => by simp [validateProperties, SatisfiesProperties]
  | (name, schema) :: rest, fields, path, errors, hfew => by
    unfold validateProperties SatisfiesProperties
    cases hfield : fields.lookup name with
    | none =>
      simp only [validateProperties_iff rest fields path hfew]
      simp
    | some value =>
      have hiff := validate_iff schema value (path ++ "." ++ name) hfew
      have hextends := validate_extends schema value (path ++ "." ++ name) errors
      have hrest := validateProperties_extends rest fields path
        (validate schema value (path ++ "." ++ name) errors)
      simp only [Option.some.injEq, forall_eq']
      rw [← hiff]
      constructor
      · intro h
        have hsame := eq_of_extends hextends hrest h
        rw [hsame] at h
        exact ⟨hsame, (validateProperties_iff rest fields path hfew).mp h⟩
      · rintro ⟨hsame, hsat⟩
        rw [hsame]
        exact (validateProperties_iff rest fields path hfew).mpr hsat

end

end Satisfaction

section Artifacts

def ofType (kind : Kind) : Schema := .mk (some [kind]) none 0 none [] [] 0 none

def count : Schema := .mk (some [.integer]) none 0 (some 0) [] [] 0 none

def hostRows : Schema :=
  .mk (some [.array]) none 0 none [] [] 0 (some
    (.mk (some [.object]) none 0 none ["host"]
      [("host", .mk (some [.string, .null]) none 0 none [] [] 0 none)] 0 none))

/-- `ARTIFACT_SCHEMAS` -/
def artifactSchemas : List (String × Schema) :=
  [("run_meta.json", .mk (some [.object]) none 0 none ["run_id"]
      [("run_id", .mk (some [.string]) none 1 none [] [] 0 none), ("profile", ofType .string),
        ("started_at", ofType .string)] 0 none),
    ("summary.json", .mk (some [.object]) none 0 none []
      [("total_targets", count), ("alive_hosts", count), ("potential_vulnerabilities", count),
        ("vulnerabilities_by_severity", ofType .object)] 0 none),
    ("vulnerabilities.json", hostRows), ("findings.json", hostRows),
    ("alive_hosts.json", hostRows), ("hosts_without_open_ports.json", hostRows),
    ("os_findings.json", hostRows), ("script_findings.json", hostRows)]

/-- Schema errors of one parsed artifact. -/
def validateDocument (name : String) (document : Json) : List String :=
  match artifactSchemas.lookup name with
  | none => []
  | some schema => (validate schema document name []).take 5

theorem validateDocument_eq_nil {name : String} {schema : Schema} {document : Json}
    (h : artifactSchemas.lookup name = some schema) :
    validateDocument name document = [] ↔ Satisfies schema document := by
  rw [← validate_iff schema document name (by decide : ([] : List String).length < 5)]
  simp [validateDocument, h]

end Artifacts

end Shapoclyack.ArtifactSchemas
