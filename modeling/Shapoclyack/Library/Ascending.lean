import Mathlib.Data.List.Dedup
import Mathlib.Data.List.Perm.Subperm
import Mathlib.Data.List.Sort
import Mathlib.Order.Nat

set_option autoImplicit false

namespace Shapoclyack.Library

variable {α : Type*} [LinearOrder α] {xs ys : List α}

/-- The distinct members of a list, the least first. -/
def ascending (xs : List α) : List α := xs.dedup.insertionSort (· ≤ ·)

theorem mem_ascending {a : α} : a ∈ ascending xs ↔ a ∈ xs := by
  rw [ascending, List.mem_insertionSort, List.mem_dedup]

theorem ascending_nodup (xs : List α) : (ascending xs).Nodup :=
  (List.perm_insertionSort (· ≤ ·) xs.dedup).nodup_iff.mpr xs.nodup_dedup

theorem ascending_sorted (xs : List α) : (ascending xs).Pairwise (· < ·) :=
  (List.sortedLE_insertionSort.sortedLT_of_nodup (ascending_nodup xs)).pairwise

theorem eq_of_ascending (hx : xs.Pairwise (· < ·)) (hy : ys.Pairwise (· < ·))
    (h : ∀ a, a ∈ xs ↔ a ∈ ys) : xs = ys :=
  hx.sortedLT.eq_of_mem_iff hy.sortedLT h

theorem ascending_congr (h : ∀ a, a ∈ xs ↔ a ∈ ys) : ascending xs = ascending ys :=
  eq_of_ascending (ascending_sorted xs) (ascending_sorted ys) fun a => by
    rw [mem_ascending, mem_ascending, h]

/-- How many distinct members of a list come before a value. -/
def rank (a : α) (xs : List α) : ℕ := ((ascending xs).filter (· < a)).length

theorem rank_mono (h : xs ⊆ ys) (a : α) : rank a xs ≤ rank a ys := by
  have hsub : (ascending xs).filter (· < a) ⊆ (ascending ys).filter (· < a) := by
    intro b hb
    have ⟨hmem, hlt⟩ := List.mem_filter.mp hb
    exact List.mem_filter.mpr ⟨mem_ascending.mpr (h (mem_ascending.mp hmem)), hlt⟩
  exact (List.Nodup.subperm ((ascending_nodup xs).filter _) hsub).length_le

theorem rank_congr {a : α} (h : ∀ b, b < a → (b ∈ xs ↔ b ∈ ys)) : rank a xs = rank a ys := by
  refine congrArg List.length (eq_of_ascending ((ascending_sorted xs).filter _)
    ((ascending_sorted ys).filter _) fun b => ?_)
  rw [List.mem_filter, List.mem_filter, mem_ascending, mem_ascending, decide_eq_true_iff]
  exact and_congr_left (h b)

theorem mem_take_of_sorted (h : xs.Pairwise (· < ·)) (n : ℕ) (a : α) :
    a ∈ xs.take n ↔ a ∈ xs ∧ (xs.filter (· < a)).length < n := by
  induction xs generalizing n with
  | nil => simp
  | cons b rest ih =>
    have hrest := List.pairwise_cons.mp h
    cases n with
    | zero => simp
    | succ n =>
      rw [List.take_succ_cons, List.mem_cons, List.mem_cons, ih hrest.2 n]
      by_cases hab : a = b
      · rw [hab, List.filter_cons_of_neg (by simp)]
        have hnone : rest.filter (· < b) = [] :=
          List.filter_eq_nil_iff.mpr fun c hc => by
            simpa using (hrest.1 c hc).le
        simp [hnone]
      · by_cases ha : a ∈ rest
        · rw [List.filter_cons_of_pos (by simpa using hrest.1 a ha), List.length_cons]
          simp [hab, ha]
        · simp [hab, ha]

theorem mem_take_ascending (n : ℕ) (a : α) :
    a ∈ (ascending xs).take n ↔ a ∈ xs ∧ rank a xs < n := by
  rw [mem_take_of_sorted (ascending_sorted xs), mem_ascending]
  rfl

/-- What a cap leaves out comes after everything it lets in. -/
theorem rank_of_left_out {n : ℕ} {a b : α} (hb : b ∈ xs) (hout : b ∉ (ascending xs).take n)
    (hlt : b < a) (hsub : (ascending xs).take n ⊆ ys) : n ≤ rank a ys := by
  have hrank : n ≤ rank b xs := by
    by_contra hlow
    exact hout ((mem_take_ascending n b).mpr ⟨hb, by omega⟩)
  have hlength : n ≤ (ascending xs).length := hrank.trans (List.length_filter_le _ _)
  have hbefore : (ascending xs).take n ⊆ (ascending ys).filter (· < a) := by
    intro c hc
    refine List.mem_filter.mpr ⟨mem_ascending.mpr (hsub hc), ?_⟩
    have hclow := ((mem_take_ascending n c).mp hc).2
    rw [decide_eq_true_iff]
    by_contra hle
    -- `b` is before `a`, so before `c`, and has the rank of `c` at most
    have hbc : b < c := hlt.trans_le (not_lt.mp hle)
    have hmono : rank b xs ≤ rank c xs := by
      refine List.Sublist.length_le (List.monotone_filter_right _ fun d hd => ?_)
      rw [decide_eq_true_iff] at hd ⊢
      exact hd.trans hbc
    omega
  have hcount :=
    (List.Nodup.subperm ((ascending_nodup xs).sublist (List.take_sublist n _)) hbefore).length_le
  rw [List.length_take, min_eq_left hlength] at hcount
  exact hcount

theorem take_ascending_append (n : ℕ) (xs ys : List α) :
    (ascending ((ascending xs).take n ++ ys)).take n = (ascending (xs ++ ys)).take n := by
  refine eq_of_ascending ((ascending_sorted _).sublist (List.take_sublist n _))
    ((ascending_sorted _).sublist (List.take_sublist n _)) fun a => ?_
  have hsub : (ascending xs).take n ++ ys ⊆ xs ++ ys := by
    refine List.append_subset.mpr ⟨fun b hb => ?_, List.subset_append_right _ _⟩
    exact List.mem_append_left _ ((mem_take_ascending n b).mp hb).1
  rw [mem_take_ascending, mem_take_ascending]
  constructor
  · intro ⟨hmem, hrank⟩
    refine ⟨hsub hmem, ?_⟩
    -- nothing below `a` has been left out, or `a` would be full itself
    have hsame : rank a (xs ++ ys) = rank a ((ascending xs).take n ++ ys) := by
      refine rank_congr fun b hlt => ⟨fun hb => ?_, fun hb => hsub hb⟩
      by_contra hout
      rw [List.mem_append, not_or] at hout
      have hbx : b ∈ xs := (List.mem_append.mp hb).resolve_right hout.2
      have hfull : n ≤ rank a ((ascending xs).take n ++ ys) :=
        rank_of_left_out hbx hout.1 hlt (List.subset_append_left _ _)
      omega
    omega
  · intro ⟨hmem, hrank⟩
    refine ⟨?_, (rank_mono hsub a).trans_lt hrank⟩
    cases List.mem_append.mp hmem with
    | inl hx =>
      have hlow := rank_mono (List.subset_append_left xs ys) a
      exact List.mem_append_left _ ((mem_take_ascending n a).mpr ⟨hx, by omega⟩)
    | inr hy => exact List.mem_append_right _ hy

theorem ascending_length_mono (h : xs ⊆ ys) : (ascending xs).length ≤ (ascending ys).length := by
  refine (List.Nodup.subperm (ascending_nodup xs) fun a ha => ?_).length_le
  exact mem_ascending.mpr (h (mem_ascending.mp ha))

theorem lt_ascending_append (n : ℕ) (xs ys : List α) :
    (n < (ascending xs).length ∨ n < (ascending ((ascending xs).take n ++ ys)).length) ↔
      n < (ascending (xs ++ ys)).length := by
  have hpart := ascending_length_mono (List.subset_append_left xs ys)
  by_cases hlong : n < (ascending xs).length
  · exact ⟨fun _ => by omega, fun _ => .inl hlong⟩
  · rw [List.take_of_length_le (not_lt.mp hlong)]
    have hsame : ascending (ascending xs ++ ys) = ascending (xs ++ ys) :=
      ascending_congr fun a => by rw [List.mem_append, List.mem_append, mem_ascending]
    rw [hsame]
    exact or_iff_right hlong

end Shapoclyack.Library
