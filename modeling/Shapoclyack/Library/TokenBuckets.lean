import Mathlib.Algebra.Order.Field.Basic
import Mathlib.Tactic.Linarith
import Mathlib.Tactic.Positivity

set_option autoImplicit false

namespace Shapoclyack.Library

variable {K : Type*} [Field K] [LinearOrder K] [IsStrictOrderedRing K]

structure Bucket (K : Type*) where
  tokens : K
  refilledAt : K
deriving DecidableEq

/-- What a bucket holds at a time: refilled since its own, never past its burst. -/
def Bucket.available (rate burst : K) (b : Bucket K) (now : K) : K :=
  min burst (b.tokens + rate * max 0 (now - b.refilledAt))

def stock (rate burst : K) (b : Option (Bucket K)) (now : K) : K :=
  b.elim burst fun b => b.available rate burst now

def Solvent (b : Option (Bucket K)) : Prop := ∀ bucket ∈ b, 0 ≤ bucket.tokens

/-- The draws on a bucket in the order of time, each with whether it was granted: a grant takes a
token that is there, and nothing else adds one. -/
inductive Drawn (rate burst : K) : Option (Bucket K) → K → List (K × Bool) → Prop
  | nil (b : Option (Bucket K)) (since : K) : Drawn rate burst b since []
  | grant {b : Option (Bucket K)} {since now : K} {rest : List (K × Bool)} (hnow : since ≤ now)
      (htoken : 1 ≤ stock rate burst b now)
      (hrest : Drawn rate burst (some ⟨stock rate burst b now - 1, now⟩) now rest) :
      Drawn rate burst b since ((now, true) :: rest)
  | keep {b next : Option (Bucket K)} {since now : K} {rest : List (K × Bool)}
      (hnow : since ≤ now) (hsolvent : Solvent next)
      (hkeep : ∀ later, now ≤ later → stock rate burst next later ≤ stock rate burst b later)
      (hrest : Drawn rate burst next now rest) : Drawn rate burst b since ((now, false) :: rest)

def grantsUntil (finish : K) (events : List (K × Bool)) : ℕ :=
  events.countP fun event => event.2 && decide (event.1 ≤ finish)

def grantsWithin (start finish : K) (events : List (K × Bool)) : ℕ :=
  events.countP fun event => event.2 && decide (start ≤ event.1 ∧ event.1 ≤ finish)

variable {rate burst since start finish : K} {b : Option (Bucket K)} {events : List (K × Bool)}

omit [IsStrictOrderedRing K] in
theorem stock_le (b : Option (Bucket K)) (now : K) : stock rate burst b now ≤ burst := by
  cases b with
  | none => exact le_rfl
  | some b => exact min_le_left _ _

theorem stock_nonneg (hrate : 0 ≤ rate) (hburst : 0 ≤ burst) (h : Solvent b) (now : K) :
    0 ≤ stock rate burst b now := by
  cases b with
  | none => exact hburst
  | some bucket =>
    have htokens := h bucket rfl
    exact le_min hburst (add_nonneg htokens (mul_nonneg hrate (le_max_left _ _)))

theorem stock_later (hrate : 0 ≤ rate) (b : Option (Bucket K)) {now later : K} (h : now ≤ later) :
    stock rate burst b later ≤ stock rate burst b now + rate * (later - now) := by
  have hrefill : 0 ≤ rate * (later - now) := mul_nonneg hrate (sub_nonneg.mpr h)
  cases b with
  | none => exact le_add_of_nonneg_right hrefill
  | some bucket =>
    have hgap : max 0 (later - bucket.refilledAt) ≤
        max 0 (now - bucket.refilledAt) + (later - now) := by
      refine max_le ?_ ?_
      · exact add_nonneg (le_max_left _ _) (sub_nonneg.mpr h)
      · linarith [le_max_right 0 (now - bucket.refilledAt)]
    have hmul := mul_le_mul_of_nonneg_left hgap hrate
    change min burst _ ≤ min burst _ + _
    rcases le_total burst (bucket.tokens + rate * max 0 (now - bucket.refilledAt)) with hfull | hlow
    · rw [min_eq_left hfull]
      exact (min_le_left _ _).trans (le_add_of_nonneg_right hrefill)
    · rw [min_eq_right hlow]
      refine (min_le_right _ _).trans ?_
      linarith

omit [IsStrictOrderedRing K] in
theorem Drawn.since_le (h : Drawn rate burst b since events) :
    ∀ event ∈ events, since ≤ event.1 := by
  induction h with
  | nil => exact fun _ hmem => absurd hmem List.not_mem_nil
  | grant hnow _ _ ih =>
    intro event hmem
    rcases List.mem_cons.mp hmem with rfl | hmem
    · exact hnow
    · exact hnow.trans (ih event hmem)
  | keep hnow _ _ _ ih =>
    intro event hmem
    rcases List.mem_cons.mp hmem with rfl | hmem
    · exact hnow
    · exact hnow.trans (ih event hmem)

omit [IsStrictOrderedRing K] in
theorem Drawn.grantsUntil_eq_zero (h : Drawn rate burst b since events) (hfinish : finish < since) :
    grantsUntil finish events = 0 := by
  refine List.countP_eq_zero.mpr fun event hmem => ?_
  have hlate := hfinish.trans_le (h.since_le event hmem)
  simp [not_le.mpr hlate]

/-- From a time on, no more is granted than is in stock and what the time adds. -/
theorem Drawn.grantsUntil_le (h : Drawn rate burst b since events) (hrate : 0 ≤ rate)
    (hburst : 0 ≤ burst) (hsolvent : Solvent b) (hsince : since ≤ finish) :
    (grantsUntil finish events : K) ≤ stock rate burst b since + rate * (finish - since) := by
  have hzero : ∀ {b' : Option (Bucket K)} {since' : K}, Solvent b' → since' ≤ finish →
      (0 : K) ≤ stock rate burst b' since' + rate * (finish - since') := fun hsolvent' hle =>
    add_nonneg (stock_nonneg hrate hburst hsolvent' _) (mul_nonneg hrate (sub_nonneg.mpr hle))
  induction h with
  | nil b since =>
    rw [grantsUntil, List.countP_nil, Nat.cast_zero]
    exact hzero hsolvent hsince
  | @grant b since now rest hnow htoken hrest ih =>
    by_cases hfinish : now ≤ finish
    · have hafter : Solvent (some (⟨stock rate burst b now - 1, now⟩ : Bucket K)) := by
        rintro bucket ⟨⟩
        exact sub_nonneg.mpr htoken
      have hspent : stock rate burst (some ⟨stock rate burst b now - 1, now⟩) now ≤
          stock rate burst b now - 1 := by
        refine (min_le_right _ _).trans ?_
        simp
      have hcount : grantsUntil finish ((now, true) :: rest) = grantsUntil finish rest + 1 := by
        rw [grantsUntil, List.countP_cons_of_pos (by simp [hfinish])]
        rfl
      have hrest' := ih hafter hfinish
      have hlater := @stock_later _ _ _ _ rate burst hrate b _ _ hnow
      rw [hcount, Nat.cast_add, Nat.cast_one]
      linarith
    · have hcount : grantsUntil finish ((now, true) :: rest) = 0 := by
        rw [grantsUntil, List.countP_cons_of_neg (by simp [hfinish])]
        exact hrest.grantsUntil_eq_zero (not_le.mp hfinish)
      rw [hcount, Nat.cast_zero]
      exact hzero hsolvent hsince
  | @keep b next since now rest hnow hnext hkeep hrest ih =>
    have hcount : grantsUntil finish ((now, false) :: rest) = grantsUntil finish rest := by
      rw [grantsUntil, List.countP_cons_of_neg (by simp)]
      rfl
    rw [hcount]
    by_cases hfinish : now ≤ finish
    · have hrest' := ih hnext hfinish
      have hsame := hkeep now le_rfl
      have hlater := @stock_later _ _ _ _ rate burst hrate b _ _ hnow
      linarith
    · rw [hrest.grantsUntil_eq_zero (not_le.mp hfinish), Nat.cast_zero]
      exact hzero hsolvent hsince

/-- Within an interval no more is granted than a full bucket and what the interval adds. -/
theorem Drawn.grantsWithin_le (h : Drawn rate burst b since events) (hrate : 0 ≤ rate)
    (hburst : 0 ≤ burst) (hsolvent : Solvent b) (hinterval : start ≤ finish) :
    (grantsWithin start finish events : K) ≤ burst + rate * (finish - start) := by
  induction h with
  | nil b since =>
    rw [grantsWithin, List.countP_nil, Nat.cast_zero]
    exact add_nonneg hburst (mul_nonneg hrate (sub_nonneg.mpr hinterval))
  | @grant b since now rest hnow htoken hrest ih =>
    by_cases hstart : start ≤ now
    · -- From here on the interval bounds the grants only from above.
      have hfrom : Drawn rate burst b now ((now, true) :: rest) := .grant le_rfl htoken hrest
      have hwithin : grantsWithin start finish ((now, true) :: rest) ≤
          grantsUntil finish ((now, true) :: rest) := by
        refine List.countP_mono_left fun event _ hevent => ?_
        simp only [Bool.and_eq_true, decide_eq_true_eq] at hevent ⊢
        exact ⟨hevent.1, hevent.2.2⟩
      refine (Nat.cast_le.mpr hwithin).trans ?_
      by_cases hfinish : now ≤ finish
      · refine (hfrom.grantsUntil_le hrate hburst hsolvent hfinish).trans ?_
        have hstock := @stock_le _ _ _ rate burst b now
        have hrefill := mul_le_mul_of_nonneg_left (sub_le_sub_left hstart finish) hrate
        linarith
      · rw [hfrom.grantsUntil_eq_zero (not_le.mp hfinish), Nat.cast_zero]
        exact add_nonneg hburst (mul_nonneg hrate (sub_nonneg.mpr hinterval))
    · have hcount : grantsWithin start finish ((now, true) :: rest) =
          grantsWithin start finish rest := by
        rw [grantsWithin, List.countP_cons_of_neg (by simp [hstart])]
        rfl
      rw [hcount]
      refine ih ?_
      rintro bucket ⟨⟩
      exact sub_nonneg.mpr htoken
  | @keep b next since now rest hnow hnext hkeep hrest ih =>
    have hcount : grantsWithin start finish ((now, false) :: rest) =
        grantsWithin start finish rest := by
      rw [grantsWithin, List.countP_cons_of_neg (by simp)]
      rfl
    rw [hcount]
    exact ih hnext

end Shapoclyack.Library
