import Mathlib.Data.List.Perm.Basic
import Mathlib.Order.Basic
import Mathlib.Tactic.Linarith

set_option autoImplicit false

namespace Shapoclyack.Library

variable {ρ : Type*}

/-- A choice between two values that keeps the one of higher rank. -/
structure KeepsWorst (rank : ρ → ℕ) (worse : ρ → ρ → ρ) : Prop where
  picks : ∀ a b, worse a b = a ∨ worse a b = b
  left_le : ∀ a b, rank a ≤ rank (worse a b)
  right_le : ∀ a b, rank b ≤ rank (worse a b)

/-- What a preference picks keeps the worst, when it never prefers the lower rank. -/
theorem keepsWorst_of_prefers {rank : ρ → ℕ} {prefers : ρ → ρ → Prop} [DecidableRel prefers]
    (hyes : ∀ a b, prefers a b → rank a ≤ rank b) (hno : ∀ a b, ¬ prefers a b → rank b ≤ rank a) :
    KeepsWorst rank (fun a b => if prefers a b then b else a) where
  picks a b := by
    by_cases h : prefers a b
    · exact .inr (if_pos h)
    · exact .inl (if_neg h)
  left_le a b := by
    by_cases h : prefers a b
    · rw [if_pos h]
      exact hyes a b h
    · rw [if_neg h]
  right_le a b := by
    by_cases h : prefers a b
    · rw [if_pos h]
    · rw [if_neg h]
      exact hno a b h

/-- The values collapsed into one, first to last. -/
def worstOf (worse : ρ → ρ → ρ) : List ρ → Option ρ
  | [] => none
  | r :: rs => some (rs.foldl worse r)

variable {rank : ρ → ℕ} {worse : ρ → ρ → ρ}

theorem foldl_worst (h : KeepsWorst rank worse) (r : ρ) (rs : List ρ) :
    rs.foldl worse r ∈ r :: rs ∧ ∀ x ∈ r :: rs, rank x ≤ rank (rs.foldl worse r) := by
  induction rs generalizing r with
  | nil =>
    refine ⟨by simp, ?_⟩
    intro x hx
    rw [List.mem_singleton.mp hx]
    exact le_rfl
  | cons s rs ih =>
    obtain ⟨hmem, hle⟩ := ih (worse r s)
    have hhead : rank (worse r s) ≤ rank (rs.foldl worse (worse r s)) := hle _ (by simp)
    refine ⟨?_, ?_⟩
    · rw [List.foldl_cons]
      rcases List.mem_cons.mp hmem with heq | hrest
      · rw [heq]
        rcases h.picks r s with hr | hs
        · rw [hr]
          simp
        · rw [hs]
          simp
      · exact List.mem_cons_of_mem _ (List.mem_cons_of_mem _ hrest)
    · intro x hx
      rw [List.foldl_cons]
      rcases List.mem_cons.mp hx with rfl | hx
      · exact (h.left_le x s).trans hhead
      · rcases List.mem_cons.mp hx with rfl | hx
        · exact (h.right_le r x).trans hhead
        · exact hle x (List.mem_cons_of_mem _ hx)

theorem worstOf_eq_none_iff (xs : List ρ) : worstOf worse xs = none ↔ xs = [] := by
  cases xs with
  | nil => simp [worstOf]
  | cons x xs => simp [worstOf]

theorem worstOf_mem (h : KeepsWorst rank worse) {xs : List ρ} {w : ρ}
    (hw : worstOf worse xs = some w) : w ∈ xs := by
  cases xs with
  | nil => cases hw
  | cons x xs =>
    rw [← Option.some.inj hw]
    exact (foldl_worst h x xs).1

theorem le_worstOf (h : KeepsWorst rank worse) {xs : List ρ} {w : ρ}
    (hw : worstOf worse xs = some w) : ∀ x ∈ xs, rank x ≤ rank w := by
  cases xs with
  | nil => cases hw
  | cons x xs =>
    rw [← Option.some.inj hw]
    exact (foldl_worst h x xs).2

theorem exists_worstOf (worse : ρ → ρ → ρ) (xs : List ρ) (h : xs ≠ []) :
    ∃ w, worstOf worse xs = some w := by
  cases xs with
  | nil => exact absurd rfl h
  | cons x xs => exact ⟨_, rfl⟩

end Shapoclyack.Library
