import Mathlib

set_option autoImplicit false

namespace Shapoclyack.Library

/-- The truth of a condition over rows, none where it is unknown. -/
abbrev Truth := Option Bool

def Truth.and : Truth → Truth → Truth
  | some false, _ => some false
  | _, some false => some false
  | some true, some true => some true
  | _, _ => none

def Truth.or : Truth → Truth → Truth
  | some true, _ => some true
  | _, some true => some true
  | some false, some false => some false
  | _, _ => none

def Truth.holds (truth : Truth) : Bool := truth == some true

section Columns

variable {α : Type*}

def isNull (column : Option α) : Truth := some column.isNone

def isEqual [DecidableEq α] (column : Option α) (value : α) : Truth :=
  column.map fun present => decide (present = value)

def isBefore [LinearOrder α] (column : Option α) (value : α) : Truth :=
  column.map fun present => decide (present < value)

def isNotIn [DecidableEq α] (column : Option α) (values : List α) : Truth :=
  column.map fun present => decide (present ∉ values)

end Columns

variable {α : Type*} {a b : Truth}

@[simp]
theorem Truth.holds_and : (a.and b).holds = (a.holds && b.holds) := by
  rcases a with _ | ⟨_ | _⟩ <;> rcases b with _ | ⟨_ | _⟩ <;> rfl

@[simp]
theorem Truth.holds_or : (a.or b).holds = (a.holds || b.holds) := by
  rcases a with _ | ⟨_ | _⟩ <;> rcases b with _ | ⟨_ | _⟩ <;> rfl

@[simp]
theorem Truth.holds_isNull (column : Option α) : (isNull column).holds = column.isNone := by
  cases column <;> rfl

@[simp]
theorem Truth.holds_isEqual [DecidableEq α] (column : Option α) (value : α) :
    (isEqual column value).holds = decide (column = some value) := by
  cases column with
  | none => rfl
  | some present => by_cases h : present = value <;> simp [isEqual, Truth.holds, h]

@[simp]
theorem Truth.holds_isBefore [LinearOrder α] (column : Option α) (value : α) :
    (isBefore column value).holds = column.any fun present => decide (present < value) := by
  cases column with
  | none => rfl
  | some present => by_cases h : present < value <;> simp [isBefore, Truth.holds, h]

@[simp]
theorem Truth.holds_isNotIn [DecidableEq α] (column : Option α) (values : List α) :
    (isNotIn column values).holds = column.any fun present => decide (present ∉ values) := by
  cases column with
  | none => rfl
  | some present => by_cases h : present ∈ values <;> simp [isNotIn, Truth.holds, h]

def anyClause {R : Type*} : List (R → Truth) → Option (R → Truth)
  | [] => none
  | clause :: rest => some (rest.foldl (fun whole more row => (whole row).or (more row)) clause)

theorem holds_foldl_or {R : Type*} (clauses : List (R → Truth)) (first : R → Truth) (row : R) :
    (clauses.foldl (fun whole more row => (whole row).or (more row)) first row).holds =
      ((first row).holds || clauses.any fun clause => (clause row).holds) := by
  induction clauses generalizing first with
  | nil => simp
  | cons clause clauses ih => rw [List.foldl_cons, ih, Truth.holds_or, List.any_cons, Bool.or_assoc]

theorem anyClause_holds {R : Type*} (clauses : List (R → Truth)) (row : R) :
    ((anyClause clauses).any fun clause => (clause row).holds) =
      clauses.any fun clause => (clause row).holds := by
  cases clauses with
  | nil => rfl
  | cons clause clauses => exact holds_foldl_or clauses clause row

section Kleene

def Truth.not (truth : Truth) : Truth := truth.map Bool.not

def allOf (truths : List Truth) : Truth := truths.foldr Truth.and (some true)

def anyOf (truths : List Truth) : Truth := truths.foldr Truth.or (some false)

theorem Truth.and_eq_true : a.and b = some true ↔ a = some true ∧ b = some true := by
  rcases a with _ | ⟨_ | _⟩ <;> rcases b with _ | ⟨_ | _⟩ <;> decide

theorem Truth.and_eq_false : a.and b = some false ↔ a = some false ∨ b = some false := by
  rcases a with _ | ⟨_ | _⟩ <;> rcases b with _ | ⟨_ | _⟩ <;> decide

theorem Truth.or_eq_true : a.or b = some true ↔ a = some true ∨ b = some true := by
  rcases a with _ | ⟨_ | _⟩ <;> rcases b with _ | ⟨_ | _⟩ <;> decide

theorem Truth.or_eq_false : a.or b = some false ↔ a = some false ∧ b = some false := by
  rcases a with _ | ⟨_ | _⟩ <;> rcases b with _ | ⟨_ | _⟩ <;> decide

theorem allOf_eq_true (truths : List Truth) :
    allOf truths = some true ↔ ∀ truth ∈ truths, truth = some true := by
  induction truths with
  | nil => simp [allOf]
  | cons truth truths ih =>
    rw [List.forall_mem_cons, ← ih]
    exact Truth.and_eq_true

theorem allOf_eq_false (truths : List Truth) :
    allOf truths = some false ↔ some false ∈ truths := by
  induction truths with
  | nil => simp [allOf]
  | cons truth truths ih =>
    rw [List.mem_cons, ← ih]
    exact Truth.and_eq_false.trans (or_congr_left eq_comm)

theorem anyOf_eq_true (truths : List Truth) :
    anyOf truths = some true ↔ some true ∈ truths := by
  induction truths with
  | nil => simp [anyOf]
  | cons truth truths ih =>
    rw [List.mem_cons, ← ih]
    exact Truth.or_eq_true.trans (or_congr_left eq_comm)

theorem anyOf_eq_false (truths : List Truth) :
    anyOf truths = some false ↔ ∀ truth ∈ truths, truth = some false := by
  induction truths with
  | nil => simp [anyOf]
  | cons truth truths ih =>
    rw [List.forall_mem_cons, ← ih]
    exact Truth.or_eq_false

theorem Truth.ext (htrue : a = some true ↔ b = some true)
    (hfalse : a = some false ↔ b = some false) :
    a = b := by
  rcases a with _ | ⟨_ | _⟩ <;> rcases b with _ | ⟨_ | _⟩ <;> simp at htrue hfalse ⊢

/-- What is known of the first is so of the second. -/
def Truth.Below (a b : Truth) : Prop := ∀ known, a = some known → b = some known

theorem Truth.Below.refl (a : Truth) : a.Below a := fun _ h => h

theorem Truth.Below.not (h : a.Below b) : a.not.Below b.not := by
  intro known hknown
  obtain ⟨value, hvalue, rfl⟩ := Option.map_eq_some_iff.mp hknown
  rw [Truth.not, h value hvalue, Option.map_some]

theorem allOf_below {truths others : List Truth} (h : List.Forall₂ Truth.Below truths others) :
    (allOf truths).Below (allOf others) := by
  induction h with
  | nil => exact Truth.Below.refl _
  | @cons a b as bs hfirst _ ih =>
    intro known hknown
    cases known with
    | true =>
      obtain ⟨ha, has⟩ := Truth.and_eq_true.mp hknown
      exact Truth.and_eq_true.mpr ⟨hfirst true ha, ih true has⟩
    | false =>
      rcases Truth.and_eq_false.mp hknown with ha | has
      · exact Truth.and_eq_false.mpr (.inl (hfirst false ha))
      · exact Truth.and_eq_false.mpr (.inr (ih false has))

theorem anyOf_below {truths others : List Truth} (h : List.Forall₂ Truth.Below truths others) :
    (anyOf truths).Below (anyOf others) := by
  induction h with
  | nil => exact Truth.Below.refl _
  | @cons a b as bs hfirst _ ih =>
    intro known hknown
    cases known with
    | true =>
      rcases Truth.or_eq_true.mp hknown with ha | has
      · exact Truth.or_eq_true.mpr (.inl (hfirst true ha))
      · exact Truth.or_eq_true.mpr (.inr (ih true has))
    | false =>
      obtain ⟨ha, has⟩ := Truth.or_eq_false.mp hknown
      exact Truth.or_eq_false.mpr ⟨hfirst false ha, ih false has⟩

end Kleene

end Shapoclyack.Library
