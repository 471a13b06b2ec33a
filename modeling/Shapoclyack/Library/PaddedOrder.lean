import Mathlib.Data.List.Basic
import Mathlib.Order.Basic
import Mathlib.Tactic.Linarith

set_option autoImplicit false

namespace Shapoclyack.Library

section Padded

variable {α : Type*} [Ord α]

/-- Two lists compared place by place, a list that ends read as `d` from there on. -/
def comparePadded (d : α) : List α → List α → Ordering
  | [], [] => .eq
  | x :: xs, [] => (compare x d).then (comparePadded d xs [])
  | [], y :: ys => (compare d y).then (comparePadded d [] ys)
  | x :: xs, y :: ys => (compare x y).then (comparePadded d xs ys)
termination_by xs ys => xs.length + ys.length

variable {d : α}

theorem comparePadded_cons_cons (x y : α) (xs ys : List α) :
    comparePadded d (x :: xs) (y :: ys) = (compare x y).then (comparePadded d xs ys) := by
  rw [comparePadded]

theorem comparePadded_head_tail [Std.ReflOrd α] (xs ys : List α) :
    comparePadded d xs ys =
      (compare (xs.headD d) (ys.headD d)).then (comparePadded d xs.tail ys.tail) := by
  cases xs with
  | nil =>
    cases ys with
    | nil => simp [comparePadded]
    | cons y ys => simp [comparePadded]
  | cons x xs =>
    cases ys with
    | nil => simp [comparePadded]
    | cons y ys => simp [comparePadded]

theorem comparePadded_singleton_left [Std.ReflOrd α] (ys : List α) :
    comparePadded d [d] ys = comparePadded d [] ys := by
  rw [comparePadded_head_tail [d] ys, comparePadded_head_tail [] ys]
  rfl

omit [Ord α] in
theorem rightpad_succ (n : ℕ) (xs : List α) :
    xs.rightpad (n + 1) d = xs.headD d :: xs.tail.rightpad n d := by
  cases xs with
  | nil => simp [List.rightpad, List.replicate_succ]
  | cons x xs => simp [List.rightpad]

/-- Padding both lists out to one length turns the comparison into the lexicographic one. -/
theorem comparePadded_eq_compareLex [Std.ReflOrd α] (n : ℕ) (xs ys : List α)
    (hx : xs.length ≤ n) (hy : ys.length ≤ n) :
    comparePadded d xs ys = List.compareLex compare (xs.rightpad n d) (ys.rightpad n d) := by
  induction n generalizing xs ys with
  | zero =>
    have hxs : xs = [] := List.eq_nil_of_length_eq_zero (by omega)
    have hys : ys = [] := List.eq_nil_of_length_eq_zero (by omega)
    subst hxs hys
    simp [comparePadded, List.rightpad, List.compareLex]
  | succ n ih =>
    rw [comparePadded_head_tail, rightpad_succ, rightpad_succ, List.compareLex_cons_cons,
      ih xs.tail ys.tail (by rw [List.length_tail]; omega) (by rw [List.length_tail]; omega)]

instance [Std.OrientedOrd α] : Std.OrientedCmp (comparePadded d) where
  eq_swap {xs ys} := by
    let n := max xs.length ys.length
    have hx : xs.length ≤ n := le_max_left _ _
    have hy : ys.length ≤ n := le_max_right _ _
    rw [comparePadded_eq_compareLex n xs ys hx hy, comparePadded_eq_compareLex n ys xs hy hx]
    exact Std.OrientedCmp.eq_swap

instance [Std.TransOrd α] : Std.TransCmp (comparePadded d) where
  isLE_trans {xs ys zs} hxy hyz := by
    let n := max xs.length (max ys.length zs.length)
    have hx : xs.length ≤ n := by omega
    have hy : ys.length ≤ n := by omega
    have hz : zs.length ≤ n := by omega
    rw [comparePadded_eq_compareLex n xs ys hx hy] at hxy
    rw [comparePadded_eq_compareLex n ys zs hy hz] at hyz
    rw [comparePadded_eq_compareLex n xs zs hx hz]
    exact Std.TransCmp.isLE_trans hxy hyz

theorem comparePadded_append_left [Std.ReflOrd α] (xs ys zs : List α) :
    comparePadded d (xs ++ ys) (xs ++ zs) = comparePadded d ys zs := by
  induction xs with
  | nil => rfl
  | cons x xs ih =>
    have hx : compare x x = .eq := Std.ReflCmp.compare_self
    rw [List.cons_append, List.cons_append, comparePadded_cons_cons, hx]
    exact ih

theorem comparePadded_append_high [Std.ReflOrd α] {high : α} (h : compare d high = .lt)
    (xs : List α) : comparePadded d xs (xs ++ [high]) = .lt := by
  have hafter := @comparePadded_append_left α _ d _ xs [] [high]
  rw [List.append_nil] at hafter
  rw [hafter]
  simp [comparePadded, h]

theorem comparePadded_append_low [Std.ReflOrd α] {low : α} (h : compare low d = .lt)
    (xs : List α) : comparePadded d (xs ++ [low]) xs = .lt := by
  have hafter := @comparePadded_append_left α _ d _ xs [low] []
  rw [List.append_nil] at hafter
  rw [hafter]
  simp [comparePadded, h]

theorem comparePadded_append_of_lt_nil {xs : List α} (h : comparePadded d xs [] = .lt)
    (more : List α) : comparePadded d (xs ++ more) [] = .lt := by
  induction xs with
  | nil => simp [comparePadded] at h
  | cons x xs ih =>
    rw [comparePadded, Ordering.then_eq_lt] at h
    rw [List.cons_append, comparePadded, Ordering.then_eq_lt]
    exact h.imp_right (And.imp_right ih)

theorem comparePadded_append_of_nil_lt {ys : List α} (h : comparePadded d [] ys = .lt)
    (more : List α) : comparePadded d [] (ys ++ more) = .lt := by
  induction ys with
  | nil => simp [comparePadded] at h
  | cons y ys ih =>
    rw [comparePadded, Ordering.then_eq_lt] at h
    rw [List.cons_append, comparePadded, Ordering.then_eq_lt]
    exact h.imp_right (And.imp_right ih)

theorem comparePadded_append_of_lt {xs ys : List α} (h : comparePadded d xs ys = .lt)
    (after before : List α) :
    comparePadded d xs (ys ++ after) = .lt ∨ comparePadded d (xs ++ before) ys = .lt := by
  induction xs generalizing ys with
  | nil => exact .inl (comparePadded_append_of_nil_lt h after)
  | cons x xs ih =>
    cases ys with
    | nil => exact .inr (comparePadded_append_of_lt_nil h before)
    | cons y ys =>
      rw [comparePadded_cons_cons, Ordering.then_eq_lt] at h
      rw [List.cons_append, List.cons_append, comparePadded_cons_cons, comparePadded_cons_cons,
        Ordering.then_eq_lt, Ordering.then_eq_lt]
      cases h with
      | inl hfirst => exact .inl (.inl hfirst)
      | inr hrest =>
        exact (ih hrest.2).imp (fun hxs => .inr ⟨hrest.1, hxs⟩) fun hys => .inr ⟨hrest.1, hys⟩

theorem comparePadded_between [Std.ReflOrd α] {low high : α} (hlow : compare low d = .lt)
    (hhigh : compare d high = .lt) {xs ys : List α} (h : comparePadded d xs ys = .lt) :
    (comparePadded d xs (ys ++ [low]) = .lt ∧ comparePadded d (ys ++ [low]) ys = .lt) ∨
      comparePadded d xs (xs ++ [high]) = .lt ∧ comparePadded d (xs ++ [high]) ys = .lt :=
  (comparePadded_append_of_lt h [low] [high]).imp
    (fun hys => ⟨hys, comparePadded_append_low hlow ys⟩)
    fun hxs => ⟨comparePadded_append_high hhigh xs, hxs⟩

end Padded

section Comap

variable {α β : Type*} {cmp : β → β → Ordering}

theorem transCmp_comap [Std.TransCmp cmp] (f : α → β) :
    Std.TransCmp fun a b => cmp (f a) (f b) where
  eq_swap := Std.OrientedCmp.eq_swap
  isLE_trans := Std.TransCmp.isLE_trans

end Comap

end Shapoclyack.Library
