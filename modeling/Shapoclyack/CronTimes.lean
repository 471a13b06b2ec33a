import Mathlib.Order.Bounds.Basic
import Shapoclyack.Library.CivilCalendar
import Shapoclyack.ResumedBatches
import Shapoclyack.Text

set_option autoImplicit false

namespace Shapoclyack.CronTimes

open Library Library.Calendar
open ResumedBatches (isSpace strip)

section Parse

/-- What `parse_cron` and the search raise. -/
inductive CronError where
  | fields
  | number
  | step (field : List Char)
  | range (field : List Char)
  | empty (field : List Char)
  | notFound (expr : List Char)
  | overflow
deriving DecidableEq

variable (lib : Text)

/-- `int` of a part of a field. -/
def intOf (text : List Char) : Except CronError ℤ :=
  match lib.int (String.ofList text) with
  | some n => .ok n
  | none => .error .number

/-- `text.split(sep, 1)`, whole where the separator is not there. -/
def splitOnce (sep : Char) (text : List Char) : List Char × Option (List Char) :=
  if sep ∈ text then (text.takeWhile (· ≠ sep), some ((text.dropWhile (· ≠ sep)).drop 1))
  else (text, none)

/-- The values of `range(start, end + 1, step)`. -/
def rangeBy (first last step : ℤ) : List ℤ :=
  (List.range ((last - first).toNat / step.toNat + 1)).map fun k => first + k * step

def parseStep (field : List Char) (part : Option (List Char)) : Except CronError ℤ :=
  match part with
  | none => .ok 1
  | some text => do
    let step ← intOf lib text
    if step < 1 then .error (.step field) else .ok step

def parseBase (minimum maximum : ℤ) (base : List Char) : Except CronError (ℤ × ℤ) :=
  if base = ['*'] then .ok (minimum, maximum)
  else
    match splitOnce '-' base with
    | (first, some last) => do
      let first ← intOf lib first
      let last ← intOf lib last
      .ok (first, last)
    | (_, none) => do
      let value ← intOf lib base
      .ok (value, value)

def parsePart (field : List Char) (minimum maximum : ℤ) (part : List Char) :
    Except CronError (List ℤ) :=
  let part := strip part
  if part = [] then .ok []
  else if part = ['*'] then .ok (rangeBy minimum maximum 1)
  else
    match splitOnce '/' part with
    | (base, stepText) => do
      let step ← parseStep lib field stepText
      let (first, last) ← parseBase lib minimum maximum base
      if first < minimum ∨ last > maximum ∨ first > last then .error (.range field)
      else .ok (rangeBy first last step)

def parseCronField (field : List Char) (minimum maximum : ℤ) : Except CronError (List ℤ) := do
  let values ← (field.splitOn ',').mapM (parsePart lib field minimum maximum)
  if values.flatten = [] then .error (.empty field) else .ok values.flatten

/-- The minutes, hours, days, months and weekdays an expression fires on. -/
structure CronSets where
  minutes : List ℤ
  hours : List ℤ
  doms : List ℤ
  months : List ℤ
  dows : List ℤ
deriving DecidableEq

def parseCron (expr : List Char) : Except CronError CronSets :=
  match (expr.splitOnP isSpace).filter (· ≠ []) with
  | [minute, hour, dom, month, dow] => do
    let minutes ← parseCronField lib minute 0 59
    let hours ← parseCronField lib hour 0 23
    let doms ← parseCronField lib dom 1 31
    let months ← parseCronField lib month 1 12
    let dows ← parseCronField lib dow 0 6
    .ok ⟨minutes, hours, doms, months, dows⟩
  | _ => .error .fields

end Parse

/-! UTC minutes are counted from the start of the year one, as are the microseconds of an
instant. -/

section Minutes

def minutesPerDay : ℕ := 1440

def microsPerMinute : ℕ := 60000000

/-- The last minute a `datetime` holds. -/
def lastMinute : ℕ := 3652059 * minutesPerDay - 1

def ordinal (m : ℕ) : ℕ := m / minutesPerDay + 1

def hourOf (m : ℕ) : ℕ := m % minutesPerDay / 60

def minuteOf (m : ℕ) : ℕ := m % 60

def dowSunday0 (m : ℕ) : ℕ := (weekday (ordinal m) + 1) % 7

def truncated (instant : ℕ) : ℕ := instant / microsPerMinute

end Minutes

section Search

/-- What the search asks of a minute. -/
def fires (sets : CronSets) (candidate : ℕ) : Bool :=
  let date := dateOf (ordinal candidate)
  decide ((date.month : ℤ) ∈ sets.months) &&
    decide (date.day ≤ daysInMonth date.year date.month) &&
    decide ((date.day : ℤ) ∈ sets.doms) &&
    decide ((hourOf candidate : ℤ) ∈ sets.hours) &&
    decide ((minuteOf candidate : ℤ) ∈ sets.minutes) &&
    decide ((dowSunday0 candidate : ℤ) ∈ sets.dows)

/-- The minutes the search looks at: two years of leap years. -/
def searchBound : ℕ := 60 * 24 * 366 * 2

def search (expr : List Char) (sets : CronSets) : ℕ → ℕ → Except CronError ℕ
  | 0, _ => .error (.notFound expr)
  | left + 1, candidate =>
    if fires sets candidate then .ok candidate
    else if candidate = lastMinute then .error .overflow
    else search expr sets left (candidate + 1)

/-- `next_cron_time` after an instant. -/
def nextCronTime (lib : Text) (expr : List Char) (after : ℕ) : Except CronError ℕ := do
  let sets ← parseCron lib expr
  let start := truncated after + 1
  if start > lastMinute then .error .overflow
  else search expr sets searchBound start

end Search

section Least

variable {sets : CronSets} {expr : List Char}

/-- A minute whose minute, hour, day, month and weekday an expression has. -/
structure Matches (sets : CronSets) (m : ℕ) : Prop where
  minute : (minuteOf m : ℤ) ∈ sets.minutes
  hour : (hourOf m : ℤ) ∈ sets.hours
  day : ((dateOf (ordinal m)).day : ℤ) ∈ sets.doms
  month : ((dateOf (ordinal m)).month : ℤ) ∈ sets.months
  weekday : (dowSunday0 m : ℤ) ∈ sets.dows

/-- The UTC minutes strictly after an instant that an expression matches. -/
def futureMatches (sets : CronSets) (after : ℕ) : Set ℕ :=
  { m | after < m * microsPerMinute ∧ m ≤ lastMinute ∧ Matches sets m }

theorem fires_iff (m : ℕ) : fires sets m = true ↔ Matches sets m := by
  have hvalid := (dateOf_spec (Nat.le_add_left 1 (m / minutesPerDay))).1
  have hday : (dateOf (ordinal m)).day ≤
      daysInMonth (dateOf (ordinal m)).year (dateOf (ordinal m)).month := hvalid.2.2.2.2
  unfold fires
  simp only [Bool.and_eq_true, decide_eq_true_eq]
  constructor
  · intro ⟨⟨⟨⟨⟨hmonth, _⟩, hdom⟩, hhour⟩, hminute⟩, hdow⟩
    exact ⟨hminute, hhour, hdom, hmonth, hdow⟩
  · intro h
    exact ⟨⟨⟨⟨⟨h.month, hday⟩, h.day⟩, h.hour⟩, h.minute⟩, h.weekday⟩

theorem lt_truncated_iff (after : ℕ) (m : ℕ) :
    after < m * microsPerMinute ↔ truncated after + 1 ≤ m := by
  unfold truncated
  rw [Nat.succ_le_iff, Nat.div_lt_iff_lt_mul (by decide)]

/-- The search finds the first minute that fires among those it looks at. -/
theorem search_ok_iff {left : ℕ} {start m : ℕ} (hstart : start ≤ lastMinute) :
    search expr sets left start = .ok m ↔
      start ≤ m ∧ m < start + left ∧ m ≤ lastMinute ∧ fires sets m = true ∧
        ∀ k, start ≤ k → k < m → fires sets k = false := by
  induction left generalizing start with
  | zero =>
    constructor
    · intro h
      cases h
    · intro h
      omega
  | succ left ih =>
    rw [search]
    cases hfires : fires sets start with
    | true =>
      simp only [if_true]
      constructor
      · intro h
        have hm := Except.ok.inj h
        rw [← hm]
        refine ⟨Nat.le_refl _, by omega, hstart, hfires, fun k hk hlt => ?_⟩
        omega
      · intro ⟨hle, _, _, _, hfirst⟩
        by_contra hne
        have hlt : start < m := by
          apply lt_of_le_of_ne hle
          intro heq
          exact hne (congrArg Except.ok heq)
        rw [hfirst start (Nat.le_refl _) hlt] at hfires
        cases hfires
    | false =>
      rw [if_neg Bool.false_ne_true]
      by_cases hlast : start = lastMinute
      · rw [if_pos hlast]
        constructor
        · intro h
          cases h
        · intro ⟨hle, _, hmax, hm, _⟩
          have heq : m = start := by omega
          rw [heq, hfires] at hm
          cases hm
      · rw [if_neg hlast, ih (by omega)]
        constructor
        · intro ⟨hle, hlt, hmax, hm, hfirst⟩
          refine ⟨by omega, by omega, hmax, hm, fun k hk hkm => ?_⟩
          by_cases heq : k = start
          · rw [heq]
            exact hfires
          · exact hfirst k (by omega) hkm
        · intro ⟨hle, hlt, hmax, hm, hfirst⟩
          have hne : m ≠ start := by
            intro heq
            rw [heq, hfires] at hm
            cases hm
          exact ⟨by omega, by omega, hmax, hm, fun k hk hkm => hfirst k (by omega) hkm⟩

theorem search_least_iff {after : ℕ} {m : ℕ} (hstart : truncated after + 1 ≤ lastMinute) :
    search expr sets searchBound (truncated after + 1) = .ok m ↔
      IsLeast (futureMatches sets after) m ∧ m ≤ truncated after + searchBound := by
  rw [search_ok_iff hstart]
  constructor
  · intro ⟨hle, hlt, hmax, hm, hfirst⟩
    refine ⟨⟨⟨(lt_truncated_iff after m).mpr hle, hmax, (fires_iff m).mp hm⟩, ?_⟩, by omega⟩
    intro k ⟨hk, _, hmatch⟩
    by_contra hlt'
    have hno := hfirst k ((lt_truncated_iff after k).mp hk) (by omega)
    rw [(fires_iff k).mpr hmatch] at hno
    cases hno
  · intro ⟨⟨⟨hm, hmax, hmatch⟩, hleast⟩, hbound⟩
    refine ⟨(lt_truncated_iff after m).mp hm, by omega, hmax, (fires_iff m).mpr hmatch, ?_⟩
    intro k hk hkm
    cases hfires : fires sets k with
    | false => rfl
    | true =>
      have hle := hleast ⟨(lt_truncated_iff after k).mpr hk, by omega, (fires_iff k).mp hfires⟩
      omega

theorem next_eq_search {lib : Text} {after : ℕ} (hparse : parseCron lib expr = .ok sets)
    (hstart : truncated after + 1 ≤ lastMinute) :
    nextCronTime lib expr after = search expr sets searchBound (truncated after + 1) := by
  unfold nextCronTime
  rw [hparse]
  exact if_neg (Nat.not_lt.mpr hstart)

/-- A future match is found just when one is near enough. -/
theorem nextCronTime_least_iff {lib : Text} {after : ℕ} (hparse : parseCron lib expr = .ok sets)
    (hfuture : (futureMatches sets after).Nonempty) :
    (∃ m, nextCronTime lib expr after = .ok m ∧ IsLeast (futureMatches sets after) m) ↔
      ∃ m ∈ futureMatches sets after, m ≤ truncated after + searchBound := by
  obtain ⟨k, hk, hmax, _⟩ := id hfuture
  have hstart : truncated after + 1 ≤ lastMinute :=
    ((lt_truncated_iff after k).mp hk).trans hmax
  rw [next_eq_search hparse hstart]
  constructor
  · rintro ⟨m, hm, hleast⟩
    exact ⟨m, hleast.1, ((search_least_iff hstart).mp hm).2⟩
  · rintro ⟨m, hm, hbound⟩
    have hleast : IsLeast (futureMatches sets after) (sInf (futureMatches sets after)) :=
      ⟨Nat.sInf_mem hfuture, fun k hk => Nat.sInf_le hk⟩
    have hnear := (hleast.2 hm).trans hbound
    exact ⟨_, (search_least_iff hstart).mpr ⟨hleast, hnear⟩, hleast⟩

end Least

section LeapDays

def leapDays : List Char := ['0', ' ', '0', ' ', '2', '9', ' ', '2', ' ', '*']

def leapDaySets : CronSets := ⟨[0], [0], [29], [2], [0, 1, 2, 3, 4, 5, 6]⟩

def midnight (day : ℕ) : ℕ := (day - 1) * minutesPerDay * microsPerMinute

theorem parse_leapDays : parseCron ascii leapDays = .ok leapDaySets := by
  decide +kernel

theorem midnight_future {day before : ℕ} (hpos : 1 ≤ before) (hlater : before < day)
    (hday : day ≤ 3652059)
    (hdate : (dateOf day).day = 29 ∧ (dateOf day).month = 2) :
    (day - 1) * minutesPerDay ∈ futureMatches leapDaySets (midnight before) := by
  have hordinal : ordinal ((day - 1) * minutesPerDay) = day := by
    unfold ordinal minutesPerDay
    omega
  have hweekday : ∀ w < 7, ((w : ℕ) : ℤ) ∈ leapDaySets.dows := by decide
  refine ⟨?_, ?_, ⟨?_, ?_, ?_, ?_, ?_⟩⟩
  · unfold midnight minutesPerDay microsPerMinute
    omega
  · unfold lastMinute minutesPerDay
    omega
  · have hminute : minuteOf ((day - 1) * minutesPerDay) = 0 := by
      unfold minuteOf minutesPerDay
      omega
    rw [hminute]
    decide
  · have hhour : hourOf ((day - 1) * minutesPerDay) = 0 := by
      unfold hourOf minutesPerDay
      omega
    rw [hhour]
    decide
  · rw [hordinal, hdate.1]
    decide
  · rw [hordinal, hdate.2]
    decide
  · exact hweekday _ (Nat.mod_lt _ (by decide))

theorem no_match_near {m : ℕ} (hm : m ∈ futureMatches leapDaySets (midnight 740406)) :
    truncated (midnight 740406) + searchBound < m := by
  have hdays : ∀ k < 732, (dateOf (740407 + k)).day ≠ 29 ∨ (dateOf (740407 + k)).month ≠ 2 := by
    decide +kernel
  have htruncated : truncated (midnight 740406) = 740405 * 1440 := by decide +kernel
  have hbound : searchBound = 732 * 1440 := rfl
  obtain ⟨hafter, hmax, hmatch⟩ := hm
  by_contra hnear
  have hlow := (lt_truncated_iff _ _).mp hafter
  have hday : (dateOf (ordinal m)).day = 29 := by
    have h := List.mem_singleton.mp hmatch.day
    omega
  have hmonth : (dateOf (ordinal m)).month = 2 := by
    have h := List.mem_singleton.mp hmatch.month
    omega
  have hminute : minuteOf m = 0 := by
    have h := List.mem_singleton.mp hmatch.minute
    omega
  have hhour : hourOf m = 0 := by
    have h := List.mem_singleton.mp hmatch.hour
    omega
  unfold minuteOf at hminute
  unfold hourOf minutesPerDay at hhour
  have hordinal : ordinal m = m / 1440 + 1 := rfl
  obtain ⟨k, hk⟩ : ∃ k, ordinal m = 740407 + k := ⟨ordinal m - 740407, by omega⟩
  have hno := hdays k (by omega)
  rw [← hk] at hno
  exact hno.elim (fun hne => hne hday) (fun hne => hne hmonth)

theorem nextCronTime_least_leapDay :
    ∃ m, nextCronTime ascii leapDays (midnight 740405) = .ok m ∧
      IsLeast (futureMatches leapDaySets (midnight 740405)) m := by
  have hlater : 740405 < 740406 := by decide
  have hmem := midnight_future (by decide) hlater (by decide) (by decide +kernel)
  exact (nextCronTime_least_iff parse_leapDays ⟨_, hmem⟩).mpr ⟨_, hmem, by decide +kernel⟩

theorem leapDay_not_found :
    parseCron ascii leapDays = .ok leapDaySets ∧
      (futureMatches leapDaySets (midnight 740406)).Nonempty ∧
      ¬ ∃ m, nextCronTime ascii leapDays (midnight 740406) = .ok m ∧
        IsLeast (futureMatches leapDaySets (midnight 740406)) m := by
  have hstart : truncated (midnight 740406) + 1 ≤ lastMinute := by decide +kernel
  have hlater : 740406 < 741867 := by decide
  have hmem := midnight_future (by decide) hlater (by decide) (by decide +kernel)
  refine ⟨parse_leapDays, ⟨_, hmem⟩, ?_⟩
  rintro ⟨m, hm, hleast⟩
  rw [next_eq_search parse_leapDays hstart] at hm
  have hnear := ((search_least_iff hstart).mp hm).2
  have hfar := no_match_near hleast.1
  omega

end LeapDays

end Shapoclyack.CronTimes
