import Mathlib.Data.List.Sort

set_option autoImplicit false

namespace Shapoclyack.Library

variable {α K : Type*} [LinearOrder K] (key : α → K)

def isAfter (after : Option K) (a : α) : Bool := after.all fun cursor => decide (cursor < key a)

def byKey (rows : List α) : List α := rows.insertionSort fun a b => key a ≤ key b

/-- The next rows after a cursor, no more than a limit. -/
def keysetWindow (rows : List α) (after : Option K) (limit : ℕ) : List α :=
  (byKey key (rows.filter (isAfter key after))).take limit

/-- The cursor of the next window: past a window that is full, and back to the start after one
that is not. -/
def nextCursor (window : List α) (limit : ℕ) : Option K :=
  if window.length = limit then window.getLast?.map key else none

variable {key} {rows window : List α} {after : Option K} {limit : ℕ} {a : α}

theorem mem_byKey : a ∈ byKey key rows ↔ a ∈ rows := List.mem_insertionSort _

theorem byKey_sorted (rows : List α) : (byKey key rows).Pairwise fun a b => key a ≤ key b := by
  have htotal : Std.Total fun a b : α => key a ≤ key b := ⟨fun a b => le_total (key a) (key b)⟩
  have htrans : IsTrans α fun a b => key a ≤ key b := ⟨fun a b c => le_trans⟩
  exact List.pairwise_insertionSort _ rows

theorem mem_of_mem_window (h : a ∈ keysetWindow key rows after limit) :
    a ∈ rows ∧ isAfter key after a = true :=
  List.mem_filter.mp (mem_byKey.mp (List.mem_of_mem_take h))

theorem window_left_out (hrow : a ∈ rows) (hafter : isAfter key after a = true)
    (hleft : a ∉ keysetWindow key rows after limit) :
    (keysetWindow key rows after limit).length = limit ∧
      ∀ b ∈ keysetWindow key rows after limit, key b ≤ key a := by
  have hmem : a ∈ byKey key (rows.filter (isAfter key after)) :=
    mem_byKey.mpr (List.mem_filter.mpr ⟨hrow, hafter⟩)
  have hsplit := List.take_append_drop limit (byKey key (rows.filter (isAfter key after)))
  have hdrop : a ∈ (byKey key (rows.filter (isAfter key after))).drop limit := by
    rw [← hsplit] at hmem
    exact (List.mem_append.mp hmem).resolve_left hleft
  constructor
  · have hpos := List.length_pos_of_mem hdrop
    rw [List.length_drop] at hpos
    rw [keysetWindow, List.length_take]
    omega
  · intro b hb
    have hsorted := @byKey_sorted α K _ key (rows.filter (isAfter key after))
    rw [← hsplit] at hsorted
    exact (List.pairwise_append.mp hsorted).2.2 b hb a hdrop

omit [LinearOrder K] in
theorem nextCursor_short (h : window.length ≠ limit) : nextCursor key window limit = none :=
  if_neg h

theorem nextCursor_full (hlimit : 1 ≤ limit)
    (h : (keysetWindow key rows after limit).length = limit) :
    ∃ last ∈ keysetWindow key rows after limit,
      nextCursor key (keysetWindow key rows after limit) limit = some (key last) ∧
        ∀ b ∈ keysetWindow key rows after limit, key b ≤ key last := by
  have hne : keysetWindow key rows after limit ≠ [] := by
    intro hnil
    rw [hnil, List.length_nil] at h
    omega
  have hsorted : (keysetWindow key rows after limit).Pairwise fun a b => key a ≤ key b :=
    (byKey_sorted _).sublist (List.take_sublist _ _)
  refine ⟨(keysetWindow key rows after limit).getLast hne, List.getLast_mem hne, ?_, ?_⟩
  · rw [nextCursor, if_pos h, List.getLast?_eq_some_getLast hne, Option.map_some]
  · intro b hb
    have hsplit := List.dropLast_append_getLast hne
    rw [← hsplit] at hsorted hb
    rcases List.mem_append.mp hb with hinit | hlast
    · exact (List.pairwise_append.mp hsorted).2.2 b hinit _ (List.mem_singleton_self _)
    · rw [List.mem_singleton.mp hlast]

section Passes

variable {fixed : List α}

/-- The rows of a fixed set that are still ahead of a cursor. -/
def ahead (key : α → K) (fixed : List α) (after : Option K) : ℕ :=
  fixed.countP (isAfter key after)

theorem countP_of_imp {p q : α → Bool} (h : ∀ a, q a = true → p a = true) (l : List α) :
    l.countP p = l.countP q + l.countP fun a => p a && !q a := by
  induction l with
  | nil => rfl
  | cons a l ih =>
    rw [List.countP_cons, List.countP_cons, List.countP_cons, ih]
    cases hq : q a with
    | true => simp [h a hq]; omega
    | false => simp; omega

theorem ahead_full (hlimit : 1 ≤ limit) (hrows : (rows.map key).Nodup)
    (hfixed : ∀ a ∈ rows, a ∈ fixed)
    (h : (keysetWindow key rows after limit).length = limit) :
    ahead key fixed (nextCursor key (keysetWindow key rows after limit) limit) + limit ≤
      ahead key fixed after := by
  obtain ⟨last, hlast, hnext, hle⟩ := nextCursor_full hlimit h
  rw [hnext]
  have hnodup : (keysetWindow key rows after limit).Nodup :=
    ((List.perm_insertionSort _ _).nodup_iff.mpr (hrows.of_map.filter _)).sublist
      (List.take_sublist _ _)
  have hpassed : (keysetWindow key rows after limit).length ≤
      (fixed.filter fun a => isAfter key after a && !isAfter key (some (key last)) a).length := by
    refine (List.subperm_of_subset hnodup fun b hb => ?_).length_le
    obtain ⟨hmem, hafter⟩ := mem_of_mem_window hb
    refine List.mem_filter.mpr ⟨hfixed b hmem, ?_⟩
    rw [hafter, Bool.true_and, Bool.not_eq_true']
    exact decide_eq_false (not_lt.mpr (hle b hb))
  have hafterLast : ∀ a, isAfter key (some (key last)) a = true → isAfter key after a = true := by
    intro a ha
    have hcursor := (mem_of_mem_window hlast).2
    cases after with
    | none => rfl
    | some cursor =>
      exact decide_eq_true ((of_decide_eq_true hcursor).trans (of_decide_eq_true ha))
  rw [h, ← List.countP_eq_length_filter] at hpassed
  unfold ahead
  have hsplit := countP_of_imp hafterLast fixed
  omega

/-- A sweep of so many windows, each of which goes on from the cursor that the one before left. -/
structure Sweeps (key : α → K) (limit : ℕ) (fixed : List α) (tables : ℕ → List α)
    (cursors : ℕ → Option K) (windows : ℕ) : Prop where
  goesOn : ∀ k < windows, cursors (k + 1) =
    nextCursor key (keysetWindow key (tables k) (cursors k) limit) limit
  distinct : ∀ k < windows, ((tables k).map key).Nodup
  fixed : ∀ k < windows, ∀ a ∈ tables k, a ∈ fixed

variable {tables : ℕ → List α} {cursors : ℕ → Option K} {windows : ℕ}

theorem ahead_run (hlimit : 1 ≤ limit) (h : Sweeps key limit fixed tables cursors windows) {k n : ℕ}
    (hn : k + n ≤ windows) (hfull : ∀ j, k ≤ j → j < k + n →
      (keysetWindow key (tables j) (cursors j) limit).length = limit) :
    ahead key fixed (cursors (k + n)) + n * limit ≤ ahead key fixed (cursors k) := by
  induction n with
  | zero => simp
  | succ n ih =>
    have hbefore := ih (by omega) fun j hj hless => hfull j hj (by omega)
    have hstep := ahead_full hlimit (h.distinct (k + n) (by omega)) (h.fixed (k + n) (by omega))
      (hfull (k + n) (by omega) (by omega))
    rw [← h.goesOn (k + n) (by omega)] at hstep
    rw [Nat.succ_mul]
    change ahead key fixed (cursors (k + n + 1)) + _ ≤ _
    omega

theorem exists_short (hlimit : 1 ≤ limit) (h : Sweeps key limit fixed tables cursors windows)
    {k : ℕ} (hk : k + fixed.length / limit < windows) :
    ∃ j, k ≤ j ∧ j ≤ k + fixed.length / limit ∧
      (keysetWindow key (tables j) (cursors j) limit).length ≠ limit := by
  by_contra hnone
  push Not at hnone
  have hrun := @ahead_run _ _ _ key limit fixed tables cursors windows hlimit h k
    (fixed.length / limit + 1) (by omega) fun j hj hn => hnone j hj (by omega)
  have hle : ahead key fixed (cursors k) ≤ fixed.length := List.countP_le_length
  have hlt := Nat.lt_mul_div_succ fixed.length hlimit
  rw [Nat.mul_comm] at hlt
  omega

theorem visited_from_start (hlimit : 1 ≤ limit)
    (h : Sweeps key limit fixed tables cursors windows) {k : ℕ}
    (hk : k + fixed.length / limit < windows) (hstart : cursors k = none)
    (hstays : ∀ j < windows, a ∈ tables j) :
    ∃ j, k ≤ j ∧ j ≤ k + fixed.length / limit ∧
      a ∈ keysetWindow key (tables j) (cursors j) limit := by
  by_contra hnever
  push Not at hnever
  -- As long as it is not visited it stays ahead of the cursor, so every window is full.
  have hahead : ∀ n ≤ fixed.length / limit, isAfter key (cursors (k + n)) a = true := by
    intro n
    induction n with
    | zero =>
      intro _
      rw [Nat.add_zero, hstart]
      rfl
    | succ n ih =>
      intro hn
      have hrow := hstays (k + n) (by omega)
      have hleft := hnever (k + n) (by omega) (by omega)
      obtain ⟨hfull, hbefore⟩ := window_left_out hrow (ih (by omega)) hleft
      obtain ⟨last, hlast, hnext, -⟩ := nextCursor_full hlimit hfull
      have hcursor : cursors (k + (n + 1)) = some (key last) := by
        rw [← Nat.add_assoc, h.goesOn (k + n) (by omega), hnext]
      have hne : key last ≠ key a := by
        intro heq
        have hsame := List.inj_on_of_nodup_map (h.distinct (k + n) (by omega))
          (mem_of_mem_window hlast).1 hrow heq
        exact hleft (hsame ▸ hlast)
      rw [hcursor]
      exact decide_eq_true (lt_of_le_of_ne (hbefore last hlast) hne)
  obtain ⟨j, hj, hle, hshort⟩ := exists_short hlimit h hk
  obtain ⟨n, rfl⟩ := Nat.exists_eq_add_of_le hj
  exact hshort (window_left_out (hstays _ (by omega)) (hahead n (by omega)) (hnever _ hj hle)).1

/-- Of a fixed set of rows each is visited within two passes, whatever their keys. -/
theorem visited_within (hlimit : 1 ≤ limit)
    (h : Sweeps key limit fixed tables cursors (2 * (fixed.length / limit + 2)))
    (hstays : ∀ k < 2 * (fixed.length / limit + 2), a ∈ tables k) :
    ∃ k < 2 * (fixed.length / limit + 2), a ∈ keysetWindow key (tables k) (cursors k) limit := by
  obtain ⟨short, -, hwithin, hshort⟩ := @exists_short _ _ _ _ _ _ _ _ _ hlimit h 0 (by omega)
  have hreset : cursors (short + 1) = none := by
    rw [h.goesOn short (by omega), nextCursor_short hshort]
  obtain ⟨k, hk, hle, hvisited⟩ := visited_from_start hlimit h (by omega) hreset hstays
  exact ⟨k, by omega, hvisited⟩

end Passes

end Shapoclyack.Library
