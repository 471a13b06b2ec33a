import Mathlib.Data.Nat.Basic
import Mathlib.Tactic.Ring

set_option autoImplicit false

namespace Shapoclyack.Library

structure Date where
  year : ℕ
  month : ℕ
  day : ℕ
deriving DecidableEq

namespace Calendar

def isLeap (year : ℕ) : Bool := year % 4 == 0 && (year % 100 != 0 || year % 400 == 0)

def daysInMonth (year month : ℕ) : ℕ :=
  if month = 2 then if isLeap year then 29 else 28
  else if month = 4 ∨ month = 6 ∨ month = 9 ∨ month = 11 then 30
  else 31

def daysBeforeYear (year : ℕ) : ℕ :=
  (year - 1) * 365 + (year - 1) / 4 - (year - 1) / 100 + (year - 1) / 400

/-- The days of a year before a month, counted from January. -/
def daysBeforeMonth (year : ℕ) : ℕ → ℕ
  | 0 => 0
  | 1 => 0
  | month + 2 => daysBeforeMonth year (month + 1) + daysInMonth year (month + 1)

def monthOf (year : ℕ) : ℕ → ℕ → ℕ → ℕ × ℕ
  | 0, month, n => (month, n + 1)
  | left + 1, month, n =>
    if n < daysInMonth year month then (month, n + 1)
    else monthOf year left (month + 1) (n - daysInMonth year month)

/-- The date of a day counted from one on the first of January of the year one. -/
def dateOf (ordinal : ℕ) : Date :=
  let n := ordinal - 1
  let n400 := n / 146097
  let n100 := n % 146097 / 36524
  let n4 := n % 146097 % 36524 / 1461
  let n1 := n % 146097 % 36524 % 1461 / 365
  let year := n400 * 400 + n100 * 100 + n4 * 4 + n1 + 1
  if n1 = 4 ∨ n100 = 4 then ⟨year - 1, 12, 31⟩
  else
    let place := monthOf year 11 1 (n % 146097 % 36524 % 1461 % 365)
    ⟨year, place.1, place.2⟩

def weekday (ordinal : ℕ) : ℕ := (ordinal + 6) % 7

end Calendar

namespace Date

open Calendar

def Valid (d : Date) : Prop :=
  1 ≤ d.year ∧ 1 ≤ d.month ∧ d.month ≤ 12 ∧ 1 ≤ d.day ∧ d.day ≤ daysInMonth d.year d.month

def toOrdinal (d : Date) : ℕ := daysBeforeYear d.year + daysBeforeMonth d.year d.month + d.day

end Date

namespace Calendar

theorem monthOf_spec (year left month n : ℕ) (hmonth : 1 ≤ month)
    (hn : daysBeforeMonth year month + n < daysBeforeMonth year (month + left + 1)) :
    month ≤ (monthOf year left month n).1 ∧ (monthOf year left month n).1 ≤ month + left ∧
      1 ≤ (monthOf year left month n).2 ∧
      (monthOf year left month n).2 ≤ daysInMonth year (monthOf year left month n).1 ∧
      daysBeforeMonth year (monthOf year left month n).1 + (monthOf year left month n).2 =
        daysBeforeMonth year month + n + 1 := by
  have hnext (m : ℕ) (hm : 1 ≤ m) :
      daysBeforeMonth year (m + 1) = daysBeforeMonth year m + daysInMonth year m := by
    cases m with
    | zero => omega
    | succ m => rfl
  induction left generalizing month n with
  | zero =>
    have hstep := hnext month hmonth
    simp only [monthOf]
    rw [Nat.add_zero] at hn
    refine ⟨Nat.le_refl _, Nat.le_refl _, by omega, by omega, by omega⟩
  | succ left ih =>
    have hstep := hnext month hmonth
    rw [monthOf]
    by_cases h : n < daysInMonth year month
    · rw [if_pos h]
      exact ⟨Nat.le_refl _, Nat.le_add_right _ _, Nat.le_add_left _ _, h, rfl⟩
    · rw [if_neg h]
      have hspec := ih (month + 1) (n - daysInMonth year month) (by omega)
        (by rw [hstep, show month + 1 + left + 1 = month + (left + 1) + 1 by omega]; omega)
      have ⟨hlow, hhigh, hpos, hle, hsum⟩ := hspec
      refine ⟨by omega, by omega, hpos, hle, by omega⟩

theorem daysBeforeMonth_year (year : ℕ) :
    daysBeforeMonth year 13 = 365 + if isLeap year then 1 else 0 := by
  change 0 + 31 + (if isLeap year then 29 else 28) + 31 + 30 + 31 + 30 + 31 + 31 + 30 + 31 + 30 +
    31 = _
  split_ifs
  · rfl
  · rfl

theorem daysBeforeYear_eq {a b c d : ℕ} (hb : b ≤ 3) (hc : c ≤ 24) (hd : d ≤ 3) :
    daysBeforeYear (a * 400 + b * 100 + c * 4 + d + 1) =
      a * 146097 + b * 36524 + c * 1461 + d * 365 := by
  have hfour : (a * 400 + b * 100 + c * 4 + d) / 4 = a * 100 + b * 25 + c := by omega
  have hhundred : (a * 400 + b * 100 + c * 4 + d) / 100 = a * 4 + b := by omega
  have hcycle : (a * 400 + b * 100 + c * 4 + d) / 400 = a := by omega
  unfold daysBeforeYear
  rw [Nat.add_sub_cancel, hfour, hhundred, hcycle]
  omega

theorem lastDay_spec {year : ℕ} (hyear : 1 ≤ year) (hleap : isLeap year = true) :
    (⟨year, 12, 31⟩ : Date).Valid ∧
      (⟨year, 12, 31⟩ : Date).toOrdinal = daysBeforeYear year + 366 := by
  have hmonths := daysBeforeMonth_year year
  have hlast : daysBeforeMonth year 13 = daysBeforeMonth year 12 + 31 := rfl
  rw [if_pos hleap, hlast] at hmonths
  refine ⟨⟨hyear, ?_, Nat.le_refl 12, ?_, Nat.le_refl 31⟩, ?_⟩
  · change 1 ≤ 12
    decide
  · change 1 ≤ 31
    decide
  · change daysBeforeYear year + daysBeforeMonth year 12 + 31 = _
    omega

theorem yearDay_spec (before : ℕ) {n : ℕ} (hn : n < 365) :
    (⟨before + 1, (monthOf (before + 1) 11 1 n).1, (monthOf (before + 1) 11 1 n).2⟩ : Date).Valid ∧
      (⟨before + 1, (monthOf (before + 1) 11 1 n).1,
        (monthOf (before + 1) 11 1 n).2⟩ : Date).toOrdinal =
      daysBeforeYear (before + 1) + n + 1 := by
  have hmonths := daysBeforeMonth_year (before + 1)
  have hfirst : daysBeforeMonth (before + 1) 1 = 0 := rfl
  have hyear : daysBeforeMonth (before + 1) 1 + n < daysBeforeMonth (before + 1) 13 := by
    omega
  have hspec := monthOf_spec (before + 1) 11 1 n (Nat.le_refl 1) hyear
  obtain ⟨hlow, hhigh, hpos, hle, hsum⟩ := hspec
  refine ⟨⟨Nat.le_add_left 1 before, hlow, hhigh, hpos, hle⟩, ?_⟩
  simp only [Date.toOrdinal]
  omega

theorem closing_spec {a b c d ofCycle ofCentury ofFour dayOfYear : ℕ} (hra : ofCycle < 146097)
    (hrb : ofCentury < 36524) (hrc : ofFour < 1461)
    (hb : 36524 * b + ofCentury = ofCycle) (hc : 1461 * c + ofFour = ofCentury)
    (hd : 365 * d + dayOfYear = ofFour) (hlast : d = 4 ∨ b = 4) :
    isLeap (a * 400 + b * 100 + c * 4 + d) = true ∧
      daysBeforeYear (a * 400 + b * 100 + c * 4 + d) + 366 = a * 146097 + ofCycle + 1 := by
  cases hlast with
  | inr hfull =>
    subst hfull
    have hzero : c = 0 ∧ d = 0 ∧ dayOfYear = 0 ∧ ofCycle = 146096 := by omega
    obtain ⟨rfl, rfl, rfl, rfl⟩ := hzero
    have hyear : a * 400 + 4 * 100 + 0 * 4 + 0 = a * 400 + 3 * 100 + 24 * 4 + 3 + 1 := by omega
    have hdays := daysBeforeYear_eq (a := a) (Nat.le_refl 3) (Nat.le_refl 24) (Nat.le_refl 3)
    rw [hyear]
    refine ⟨?_, by omega⟩
    have hcycle : (a * 400 + 3 * 100 + 24 * 4 + 3 + 1) % 400 = 0 := by omega
    have hfour : (a * 400 + 3 * 100 + 24 * 4 + 3 + 1) % 4 = 0 := by omega
    simp only [isLeap, hcycle, hfour, beq_self_eq_true, Bool.or_true, Bool.and_true]
  | inl hspan =>
    subst hspan
    have hsmall : c ≤ 23 ∧ b ≤ 3 ∧ dayOfYear = 0 ∧ ofFour = 1460 := by omega
    obtain ⟨hc23, hb3, rfl, rfl⟩ := hsmall
    have hyear : a * 400 + b * 100 + c * 4 + 4 = a * 400 + b * 100 + c * 4 + 3 + 1 := by omega
    have hdays := daysBeforeYear_eq (a := a) hb3 (show c ≤ 24 by omega) (Nat.le_refl 3)
    rw [hyear]
    refine ⟨?_, by omega⟩
    have hfour : (a * 400 + b * 100 + c * 4 + 3 + 1) % 4 = 0 := by omega
    have hcentury : (a * 400 + b * 100 + c * 4 + 3 + 1) % 100 ≠ 0 := by omega
    simp only [isLeap, hfour, bne_iff_ne.mpr hcentury, beq_self_eq_true, Bool.true_or,
      Bool.and_true]

theorem dateOf_spec {ordinal : ℕ} (h : 1 ≤ ordinal) :
    (dateOf ordinal).Valid ∧ (dateOf ordinal).toOrdinal = ordinal := by
  obtain ⟨n, rfl⟩ : ∃ n, ordinal = n + 1 := ⟨ordinal - 1, by omega⟩
  unfold dateOf
  simp only [Nat.add_sub_cancel]
  have ha := Nat.div_add_mod n 146097
  have hb := Nat.div_add_mod (n % 146097) 36524
  have hc := Nat.div_add_mod (n % 146097 % 36524) 1461
  have hd := Nat.div_add_mod (n % 146097 % 36524 % 1461) 365
  have hra := Nat.mod_lt n (show 146097 > 0 by decide)
  have hrb := Nat.mod_lt (n % 146097) (show 36524 > 0 by decide)
  have hrc := Nat.mod_lt (n % 146097 % 36524) (show 1461 > 0 by decide)
  have hrd := Nat.mod_lt (n % 146097 % 36524 % 1461) (show 365 > 0 by decide)
  generalize n % 146097 % 36524 % 1461 / 365 = d at *
  generalize n % 146097 % 36524 % 1461 % 365 = dayOfYear at *
  generalize n % 146097 % 36524 / 1461 = c at *
  generalize n % 146097 % 36524 % 1461 = ofFour at *
  generalize n % 146097 / 36524 = b at *
  generalize n % 146097 % 36524 = ofCentury at *
  generalize n / 146097 = a at *
  generalize n % 146097 = ofCycle at *
  by_cases hlast : d = 4 ∨ b = 4
  · rw [if_pos hlast]
    have hclose := closing_spec (a := a) hra hrb hrc hb hc hd hlast
    have hyear : 1 ≤ a * 400 + b * 100 + c * 4 + d := by omega
    have hspec := lastDay_spec hyear hclose.1
    refine ⟨hspec.1, hspec.2.trans ?_⟩
    omega
  · rw [if_neg hlast]
    have hbefore := daysBeforeYear_eq (show b ≤ 3 by omega) (show c ≤ 24 by omega)
      (show d ≤ 3 by omega) (a := a)
    have hspec := yearDay_spec (a * 400 + b * 100 + c * 4 + d) hrd
    refine ⟨hspec.1, hspec.2.trans ?_⟩
    omega

end Calendar

end Shapoclyack.Library
