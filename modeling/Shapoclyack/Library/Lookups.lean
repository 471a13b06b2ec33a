import Mathlib.Logic.Function.Basic
import Mathlib.Tactic.Basic

set_option autoImplicit false

namespace Shapoclyack.Library

variable {κ β γ : Type*} [BEq κ]

theorem mem_of_lookup [LawfulBEq κ] {rows : List (κ × β)} {key : κ} {value : β}
    (h : rows.lookup key = some value) : (key, value) ∈ rows := by
  induction rows with
  | nil => simp at h
  | cons entry rest ih =>
    rcases entry with ⟨first, held⟩
    rw [List.lookup_cons] at h
    cases hkey : key == first with
    | true =>
      rw [hkey] at h
      obtain rfl := Option.some.inj h
      obtain rfl := beq_iff_eq.mp hkey
      exact List.mem_cons_self
    | false =>
      rw [hkey] at h
      exact List.mem_cons_of_mem _ (ih h)

theorem lookup_of_mem [LawfulBEq κ] {rows : List (κ × β)} {key : κ} {value : β}
    (hnodup : (rows.map Prod.fst).Nodup) (h : (key, value) ∈ rows) :
    rows.lookup key = some value := by
  induction rows with
  | nil => cases h
  | cons entry rest ih =>
    obtain ⟨hfresh, hrest⟩ := List.nodup_cons.mp hnodup
    rw [List.lookup_cons]
    obtain rfl | hlater := List.mem_cons.mp h
    · rw [beq_self_eq_true]
    · cases hkey : key == entry.1 with
      | true =>
        exact absurd (List.mem_map_of_mem hlater) (beq_iff_eq.mp hkey ▸ hfresh)
      | false => exact ih hrest hlater

theorem lookup_map (f : β → γ) (rows : List (κ × β)) (key : κ) :
    (rows.map fun entry => (entry.1, f entry.2)).lookup key = (rows.lookup key).map f := by
  induction rows with
  | nil => rfl
  | cons entry rest ih =>
    rcases entry with ⟨first, held⟩
    cases h : key == first <;> simp [List.lookup_cons, h, ih]

theorem row_of_update {α : Type*} [DecidableEq α] {f : α → Option β} {key k : α} {value : Option β}
    {row : β} (h : Function.update f key value k = some row) :
    (k = key ∧ value = some row) ∨ (k ≠ key ∧ f k = some row) := by
  by_cases heq : k = key
  · rw [heq, Function.update_self] at h
    exact .inl ⟨heq, h⟩
  · rw [Function.update_of_ne heq] at h
    exact .inr ⟨heq, h⟩

theorem row_of_update_self {α : Type*} [DecidableEq α] {f : α → Option β} {key : α}
    {value : Option β} {row : β} (h : Function.update f key value key = some row) :
    value = some row :=
  (Function.update_self key value f).symm.trans h

end Shapoclyack.Library
