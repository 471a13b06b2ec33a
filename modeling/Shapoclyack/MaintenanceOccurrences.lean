import Mathlib.Algebra.Order.Group.Abs
import Mathlib.Algebra.Order.Group.Int
import Mathlib.Order.Bounds.Basic
import Shapoclyack.Library.CivilCalendar

set_option autoImplicit false

namespace Shapoclyack.MaintenanceOccurrences

open Library Library.Calendar

/-! Instants and wall clocks are microseconds from the start of the year one; a local date is
its ordinal, one on that day. -/

section Rules

def microsPerMinute : ℤ := 60000000

def microsPerDay : ℤ := 86400000000

inductive Frequency where
  | daily
  | weekly
  | monthly
deriving DecidableEq

/-- A parsed RRULE. -/
structure Recurrence where
  freq : Frequency
  interval : ℕ
  byday : List ℕ
  bymonthday : List ℕ
  untilInstant : Option ℤ
  interval_pos : 0 < interval

def dateOfClock (clock : ℤ) : ℤ := clock / microsPerDay + 1

def timeOfClock (clock : ℤ) : ℤ := clock % microsPerDay

def combine (day time : ℤ) : ℤ := (day - 1) * microsPerDay + time

def civil (day : ℤ) : Date := dateOf day.toNat

def weekdayOf (day : ℤ) : ℕ := weekday day.toNat

def monthsBetween (start other : Date) : ℤ :=
  ((other.year : ℤ) - start.year) * 12 + ((other.month : ℤ) - start.month)

def firesOn (rule : Recurrence) (dtstart day : ℤ) : Bool :=
  let first := dateOfClock dtstart
  if day < first then false
  else
    match rule.freq with
    | .daily => (day - first) % rule.interval == 0
    | .weekly =>
      let wanted := if rule.byday = [] then [weekdayOf first] else rule.byday
      if weekdayOf day ∉ wanted then false
      else
        -- Weeks are counted from the Monday of the first one.
        let startWeek := first - weekdayOf first
        let thisWeek := day - weekdayOf day
        (thisWeek - startWeek) / 7 % rule.interval == 0
    | .monthly =>
      let wanted := if rule.bymonthday = [] then [(civil first).day] else rule.bymonthday
      if (civil day).day ∉ wanted then false
      else monthsBetween (civil first) (civil day) % rule.interval == 0

end Rules

section Occurrences

/-- The instant of a wall clock and the wall clock of an instant. -/
structure Zone where
  utcOf : ℤ → ℤ
  localOf : ℤ → ℤ

def maxDurationMinutes : ℤ := 14 * 24 * 60

def lookaheadDays : ℤ := 90

inductive OccurrenceError where
  | duration (minutes : ℤ)
deriving DecidableEq

variable (rule : Recurrence) (dtstart : ℤ) (zone : Zone)

/-- The occurrences of the dates from one on that overlap an interval. -/
def scanDays (length since upto : ℤ) : ℕ → ℤ → List (ℤ × ℤ)
  | 0, _ => []
  | left + 1, day =>
    let found := scanDays length since upto left (day + 1)
    if firesOn rule dtstart day then
      let localStart := combine day (timeOfClock dtstart)
      if localStart ≥ dtstart then
        let start := zone.utcOf localStart
        let finish := start + length
        if (∀ last ∈ rule.untilInstant, start ≤ last) ∧ finish > since ∧ start ≤ upto then
          (start, finish) :: found
        else found
      else found
    else found

def occurrences (durationMinutes since upto : ℤ) : Except OccurrenceError (List (ℤ × ℤ)) :=
  if durationMinutes < 1 ∨ durationMinutes > maxDurationMinutes then
    .error (.duration durationMinutes)
  else
    let length := durationMinutes * microsPerMinute
    let firstLocal := dateOfClock (zone.localOf (since - length))
    let lastLocal := dateOfClock (zone.localOf upto)
    if lastLocal < firstLocal then .ok []
    else
      let day := max firstLocal (dateOfClock dtstart)
      .ok (scanDays rule dtstart zone length since upto (lastLocal + 1 - day).toNat day)

structure Timing where
  rule : Option Recurrence
  dtstart : Option ℤ
  zone : Option Zone
  durationMinutes : ℤ

def windowOccurrences (window : Timing) (since upto : ℤ) : List (ℤ × ℤ) :=
  match window.rule, window.dtstart, window.zone with
  | some rule, some dtstart, some zone =>
    match occurrences rule dtstart zone window.durationMinutes since upto with
    | .ok found => found
    | .error _ => []
  | _, _, _ => []

def openAt (window : Timing) (at' : ℤ) : Option (ℤ × ℤ) :=
  (windowOccurrences window at' at').find? fun span => span.1 ≤ at' ∧ at' < span.2

def nextStartAfter (window : Timing) (at' : ℤ) : Option ℤ :=
  ((windowOccurrences window at' (at' + lookaheadDays * microsPerDay)).find?
    fun span => span.1 > at').map Prod.fst

end Occurrences

section Meaning

variable (rule : Recurrence) (dtstart : ℤ) (zone : Zone)

/-- The offsets of a zone differ by less than a day, whichever way they are read. -/
structure Zone.ShiftsUnderDay (zone : Zone) : Prop where
  clock : ∀ a b, |(a - zone.utcOf a) - (b - zone.utcOf b)| < microsPerDay
  back : ∀ a i, |(a - zone.utcOf a) - (zone.localOf i - i)| < microsPerDay

def startOn (day : ℤ) : ℤ := zone.utcOf (combine day (timeOfClock dtstart))

/-- A rule has an occurrence that starts on a local date. -/
structure Occurs (day : ℤ) : Prop where
  fires : firesOn rule dtstart day = true
  notBefore : dtstart ≤ combine day (timeOfClock dtstart)
  byUntil : ∀ last ∈ rule.untilInstant, startOn dtstart zone day ≤ last

def Overlaps (length since upto start : ℤ) : Prop := start ≤ upto ∧ since < start + length

def Wanted (length since upto : ℤ) : Set (ℤ × ℤ) :=
  { span | ∃ day, Occurs rule dtstart zone day ∧
      Overlaps length since upto (startOn dtstart zone day) ∧
      span = (startOn dtstart zone day, startOn dtstart zone day + length) }

/-- The occurrences that overlap an interval are returned, no others, by increasing start. -/
def Exact (durationMinutes since upto : ℤ) : Prop :=
  ∃ found, occurrences rule dtstart zone durationMinutes since upto = .ok found ∧
    found.Pairwise (fun a b => a.1 < b.1) ∧
    ∀ span, span ∈ found ↔
      span ∈ Wanted rule dtstart zone (durationMinutes * microsPerMinute) since upto

/-- No occurrence that overlaps an interval starts on the local date before the first one looked
at, nor on the one after the last. -/
structure NoneMissed (length since upto : ℤ) : Prop where
  before : ∀ day, day = dateOfClock (zone.localOf (since - length)) - 1 →
    Occurs rule dtstart zone day → ¬ Overlaps length since upto (startOn dtstart zone day)
  after : ∀ day, day = dateOfClock (zone.localOf upto) + 1 →
    Occurs rule dtstart zone day → ¬ Overlaps length since upto (startOn dtstart zone day)

theorem overlaps_iff {length since upto start : ℤ} (h : since ≤ upto) (hlength : 0 < length) :
    Overlaps length since upto start ↔
      ∃ instant, since ≤ instant ∧ instant ≤ upto ∧ start ≤ instant ∧ instant < start + length := by
  unfold Overlaps
  constructor
  · rintro ⟨hstart, hend⟩
    exact ⟨max since start, le_max_left _ _, max_le h hstart, le_max_right _ _,
      max_lt hend (by omega)⟩
  · rintro ⟨instant, hlow, hhigh, hstart, hend⟩
    omega

end Meaning

section Walk

variable {rule : Recurrence} {dtstart : ℤ} {zone : Zone} {length since upto : ℤ}

theorem notBefore_of_fires {day : ℤ} (h : firesOn rule dtstart day = true) :
    dateOfClock dtstart ≤ day ∧ dtstart ≤ combine day (timeOfClock dtstart) := by
  have hday : dateOfClock dtstart ≤ day := by
    by_contra hlt
    unfold firesOn at h
    rw [if_pos (Int.not_le.mp hlt)] at h
    cases h
  refine ⟨hday, ?_⟩
  have hclock := Int.mul_ediv_add_emod dtstart microsPerDay
  unfold combine timeOfClock
  unfold dateOfClock microsPerDay at *
  omega

theorem scanDays_succ_of (left : ℕ) {day : ℤ} (hon : Occurs rule dtstart zone day)
    (hover : Overlaps length since upto (startOn dtstart zone day)) :
    scanDays rule dtstart zone length since upto (left + 1) day =
      (startOn dtstart zone day, startOn dtstart zone day + length) ::
        scanDays rule dtstart zone length since upto left (day + 1) := by
  rw [scanDays, if_pos hon.fires, if_pos hon.notBefore]
  exact if_pos ⟨hon.byUntil, hover.2, hover.1⟩

theorem scanDays_succ_of_not (left : ℕ) {day : ℤ}
    (hoff : ¬ (Occurs rule dtstart zone day ∧
      Overlaps length since upto (startOn dtstart zone day))) :
    scanDays rule dtstart zone length since upto (left + 1) day =
      scanDays rule dtstart zone length since upto left (day + 1) := by
  rw [scanDays]
  simp only
  split_ifs with hfires hstart hkept
  · exact absurd ⟨⟨hfires, hstart, hkept.1⟩, hkept.2.2, hkept.2.1⟩ hoff
  · rfl
  · rfl
  · rfl

theorem mem_scanDays (left : ℕ) (day : ℤ) (span : ℤ × ℤ) :
    span ∈ scanDays rule dtstart zone length since upto left day ↔
      ∃ d, day ≤ d ∧ d < day + left ∧ Occurs rule dtstart zone d ∧
        Overlaps length since upto (startOn dtstart zone d) ∧
        span = (startOn dtstart zone d, startOn dtstart zone d + length) := by
  induction left generalizing day with
  | zero =>
    constructor
    · intro h
      cases h
    · rintro ⟨d, hlow, hhigh, _⟩
      omega
  | succ left ih =>
    have hlater :
        span ∈ scanDays rule dtstart zone length since upto left (day + 1) ↔
          ∃ d, day + 1 ≤ d ∧ d < day + (left + 1 : ℕ) ∧ Occurs rule dtstart zone d ∧
            Overlaps length since upto (startOn dtstart zone d) ∧
            span = (startOn dtstart zone d, startOn dtstart zone d + length) := by
      rw [ih]
      refine exists_congr fun d => and_congr_right fun _ => and_congr_left fun _ => ?_
      push_cast
      omega
    by_cases hon : Occurs rule dtstart zone day ∧
        Overlaps length since upto (startOn dtstart zone day)
    · rw [scanDays_succ_of left hon.1 hon.2, List.mem_cons, hlater]
      constructor
      · rintro (heq | ⟨d, hlow, hhigh, hd⟩)
        · exact ⟨day, le_refl day, by omega, hon.1, hon.2, heq⟩
        · exact ⟨d, by omega, hhigh, hd⟩
      · rintro ⟨d, hlow, hhigh, hd⟩
        by_cases hsame : d = day
        · subst hsame
          exact .inl hd.2.2
        · exact .inr ⟨d, by omega, hhigh, hd⟩
    · rw [scanDays_succ_of_not left hon, hlater]
      constructor
      · rintro ⟨d, hlow, hhigh, hd⟩
        exact ⟨d, by omega, hhigh, hd⟩
      · rintro ⟨d, hlow, hhigh, hd⟩
        have hne : d ≠ day := by
          intro hsame
          subst hsame
          exact hon ⟨hd.1, hd.2.1⟩
        exact ⟨d, by omega, hhigh, hd⟩

theorem startOn_lt (hzone : zone.ShiftsUnderDay) {day later : ℤ} (h : day < later) :
    startOn dtstart zone day < startOn dtstart zone later := by
  have hshift := abs_lt.mp (hzone.clock (combine later (timeOfClock dtstart))
    (combine day (timeOfClock dtstart)))
  have hstep : combine day (timeOfClock dtstart) + microsPerDay ≤
      combine later (timeOfClock dtstart) := by
    unfold combine microsPerDay
    omega
  unfold startOn
  omega

theorem scanDays_increasing (hzone : zone.ShiftsUnderDay) (left : ℕ) (day : ℤ) :
    (scanDays rule dtstart zone length since upto left day).Pairwise
      (fun a b => a.1 < b.1) := by
  induction left generalizing day with
  | zero => exact List.Pairwise.nil
  | succ left ih =>
    by_cases hon : Occurs rule dtstart zone day ∧
        Overlaps length since upto (startOn dtstart zone day)
    · rw [scanDays_succ_of left hon.1 hon.2]
      refine List.Pairwise.cons ?_ (ih (day + 1))
      intro span hspan
      obtain ⟨d, hlow, _, _, _, heq⟩ := (mem_scanDays left (day + 1) span).mp hspan
      rw [heq]
      exact startOn_lt hzone (by omega)
    · rw [scanDays_succ_of_not left hon]
      exact ih (day + 1)

end Walk

section Interval

variable {rule : Recurrence} {dtstart : ℤ} {zone : Zone} {durationMinutes since upto : ℤ}

/-- What is returned: the wanted occurrences of the local dates of the interval, which begins a
duration early. -/
theorem occurrences_spec (hlow : 1 ≤ durationMinutes) (hhigh : durationMinutes ≤ maxDurationMinutes)
    (hzone : zone.ShiftsUnderDay) (since upto : ℤ) :
    ∃ found, occurrences rule dtstart zone durationMinutes since upto = .ok found ∧
      found.Pairwise (fun a b => a.1 < b.1) ∧
      ∀ span, span ∈ found ↔ ∃ day,
        dateOfClock (zone.localOf (since - durationMinutes * microsPerMinute)) ≤ day ∧
        day ≤ dateOfClock (zone.localOf upto) ∧ Occurs rule dtstart zone day ∧
        Overlaps (durationMinutes * microsPerMinute) since upto (startOn dtstart zone day) ∧
        span = (startOn dtstart zone day,
          startOn dtstart zone day + durationMinutes * microsPerMinute) := by
  unfold occurrences
  rw [if_neg (by omega)]
  simp only
  by_cases hempty : dateOfClock (zone.localOf upto) <
      dateOfClock (zone.localOf (since - durationMinutes * microsPerMinute))
  · rw [if_pos hempty]
    refine ⟨[], rfl, List.Pairwise.nil, fun span => ?_⟩
    constructor
    · intro h
      cases h
    · rintro ⟨day, hfirst, hlast, _⟩
      omega
  · rw [if_neg hempty]
    refine ⟨_, rfl, scanDays_increasing hzone _ _, fun span => ?_⟩
    rw [mem_scanDays]
    constructor
    · rintro ⟨day, hfirst, hlast, hday⟩
      exact ⟨day, by omega, by omega, hday⟩
    · rintro ⟨day, hfirst, hlast, hoccurs, hday⟩
      have hstart := (notBefore_of_fires hoccurs.fires).1
      exact ⟨day, by omega, by omega, hoccurs, hday⟩

theorem day_bounds (hzone : zone.ShiftsUnderDay) {day : ℤ} {length : ℤ}
    (hover : Overlaps length since upto (startOn dtstart zone day)) :
    dateOfClock (zone.localOf (since - length)) - 1 ≤ day ∧
      day ≤ dateOfClock (zone.localOf upto) + 1 := by
  have hsince := abs_lt.mp (hzone.back (combine day (timeOfClock dtstart)) (since - length))
  have hupto := abs_lt.mp (hzone.back (combine day (timeOfClock dtstart)) upto)
  have htime : 0 ≤ timeOfClock dtstart ∧ timeOfClock dtstart < microsPerDay := by
    unfold timeOfClock microsPerDay
    omega
  obtain ⟨hstart, hend⟩ := hover
  unfold startOn at hstart hend
  have hclock : combine day (timeOfClock dtstart) =
      (day - 1) * microsPerDay + timeOfClock dtstart := rfl
  unfold dateOfClock
  unfold microsPerDay at *
  omega

theorem exact_of_noneMissed (hlow : 1 ≤ durationMinutes)
    (hhigh : durationMinutes ≤ maxDurationMinutes) (hzone : zone.ShiftsUnderDay)
    (h : NoneMissed rule dtstart zone (durationMinutes * microsPerMinute) since upto) :
    Exact rule dtstart zone durationMinutes since upto := by
  obtain ⟨found, hfound, hsorted, hmem⟩ :=
    @occurrences_spec rule dtstart _ _ hlow hhigh hzone since upto
  refine ⟨found, hfound, hsorted, fun span => (hmem span).trans ?_⟩
  constructor
  · rintro ⟨day, _, _, hday⟩
    exact ⟨day, hday⟩
  · rintro ⟨day, hoccurs, hover, heq⟩
    have hbounds := day_bounds hzone hover
    have hbefore : day ≠ dateOfClock
        (zone.localOf (since - durationMinutes * microsPerMinute)) - 1 :=
      fun hday => h.before day hday hoccurs hover
    have hafter : day ≠ dateOfClock (zone.localOf upto) + 1 :=
      fun hday => h.after day hday hoccurs hover
    exact ⟨day, by omega, by omega, hoccurs, hover, heq⟩

theorem startOn_injective (hzone : zone.ShiftsUnderDay) {day other : ℤ}
    (h : startOn dtstart zone day = startOn dtstart zone other) : day = other := by
  apply le_antisymm
  · by_contra hlt
    have := @startOn_lt dtstart _ hzone _ _ (Int.not_le.mp hlt)
    omega
  · by_contra hlt
    have := @startOn_lt dtstart _ hzone _ _ (Int.not_le.mp hlt)
    omega

theorem noneMissed_of_exact (hlow : 1 ≤ durationMinutes)
    (hhigh : durationMinutes ≤ maxDurationMinutes) (hzone : zone.ShiftsUnderDay)
    (h : Exact rule dtstart zone durationMinutes since upto) :
    NoneMissed rule dtstart zone (durationMinutes * microsPerMinute) since upto := by
  obtain ⟨found, hfound, _, hmem⟩ :=
    @occurrences_spec rule dtstart _ _ hlow hhigh hzone since upto
  obtain ⟨found', hfound', _, hwanted⟩ := h
  have hsame : found' = found := Except.ok.inj (hfound'.symm.trans hfound)
  have hwithin : ∀ day, Occurs rule dtstart zone day →
      Overlaps (durationMinutes * microsPerMinute) since upto (startOn dtstart zone day) →
      dateOfClock (zone.localOf (since - durationMinutes * microsPerMinute)) ≤ day ∧
        day ≤ dateOfClock (zone.localOf upto) := by
    intro day hoccurs hover
    have hin := (hwanted _).mpr ⟨day, hoccurs, hover, rfl⟩
    rw [hsame, hmem] at hin
    obtain ⟨other, hfirst, hlast, _, _, heq⟩ := hin
    rw [startOn_injective hzone (congrArg Prod.fst heq)]
    exact ⟨hfirst, hlast⟩
  refine ⟨fun day hday hoccurs hover => ?_, fun day hday hoccurs hover => ?_⟩
  · have := hwithin day hoccurs hover
    omega
  · have := hwithin day hoccurs hover
    omega

/-- Where local dates never go back and every start has its own, none is missed. -/
theorem noneMissed_of_sameDate {length : ℤ}
    (hforward : ∀ i j, i ≤ j → dateOfClock (zone.localOf i) ≤ dateOfClock (zone.localOf j))
    (hdate : ∀ day, Occurs rule dtstart zone day →
      dateOfClock (zone.localOf (startOn dtstart zone day)) = day) :
    NoneMissed rule dtstart zone length since upto := by
  refine ⟨fun day hday hoccurs hover => ?_, fun day hday hoccurs hover => ?_⟩
  · have hlater := hforward (since - length) (startOn dtstart zone day) (by
      have := hover.2
      omega)
    rw [hdate day hoccurs] at hlater
    omega
  · have hearlier := hforward (startOn dtstart zone day) upto hover.1
    rw [hdate day hoccurs] at hearlier
    omega

end Interval

section Answers

variable {rule : Recurrence} {dtstart : ℤ} {zone : Zone} {durationMinutes : ℤ}

def timing (rule : Recurrence) (dtstart : ℤ) (zone : Zone) (durationMinutes : ℤ) : Timing :=
  ⟨some rule, some dtstart, some zone, durationMinutes⟩

def Containing (rule : Recurrence) (dtstart : ℤ) (zone : Zone) (length instant : ℤ) :
    Set (ℤ × ℤ) :=
  { span | (∃ day, Occurs rule dtstart zone day ∧
      span = (startOn dtstart zone day, startOn dtstart zone day + length)) ∧
      span.1 ≤ instant ∧ instant < span.2 }

def StartsAfter (rule : Recurrence) (dtstart : ℤ) (zone : Zone) (instant : ℤ) : Set ℤ :=
  { start | (∃ day, Occurs rule dtstart zone day ∧ start = startOn dtstart zone day) ∧
      instant < start ∧ start ≤ instant + lookaheadDays * microsPerDay }

structure OpenRight (rule : Recurrence) (dtstart : ℤ) (zone : Zone)
    (durationMinutes instant : ℤ) : Prop where
  found : ∀ span, openAt (timing rule dtstart zone durationMinutes) instant = some span →
    span ∈ Containing rule dtstart zone (durationMinutes * microsPerMinute) instant
  finds : (Containing rule dtstart zone (durationMinutes * microsPerMinute) instant).Nonempty →
    ∃ span, openAt (timing rule dtstart zone durationMinutes) instant = some span

structure NextRight (rule : Recurrence) (dtstart : ℤ) (zone : Zone)
    (durationMinutes instant : ℤ) : Prop where
  least : ∀ start, nextStartAfter (timing rule dtstart zone durationMinutes) instant = some start ↔
    IsLeast (StartsAfter rule dtstart zone instant) start
  none : nextStartAfter (timing rule dtstart zone durationMinutes) instant = none ↔
    StartsAfter rule dtstart zone instant = ∅

theorem windowOccurrences_of_ok {since upto : ℤ} {found : List (ℤ × ℤ)}
    (h : occurrences rule dtstart zone durationMinutes since upto = .ok found) :
    windowOccurrences (timing rule dtstart zone durationMinutes) since upto = found := by
  unfold windowOccurrences timing
  simp only [h]

theorem openRight_of_exact {instant : ℤ}
    (h : Exact rule dtstart zone durationMinutes instant instant) :
    OpenRight rule dtstart zone durationMinutes instant := by
  obtain ⟨found, hfound, _, hmem⟩ := h
  have hopen : openAt (timing rule dtstart zone durationMinutes) instant =
      found.find? fun span => span.1 ≤ instant ∧ instant < span.2 := by
    unfold openAt
    rw [windowOccurrences_of_ok hfound]
  refine ⟨fun span hspan => ?_, fun ⟨span, ⟨day, hoccurs, heq⟩, hin⟩ => ?_⟩
  · rw [hopen] at hspan
    obtain ⟨day, hoccurs, _, heq⟩ := (hmem span).mp (List.mem_of_find?_eq_some hspan)
    have hin := List.find?_some hspan
    exact ⟨⟨day, hoccurs, heq⟩, of_decide_eq_true hin⟩
  · have hover : Overlaps (durationMinutes * microsPerMinute) instant instant
        (startOn dtstart zone day) := by
      rw [heq] at hin
      exact hin
    have hmemSpan := (hmem span).mpr ⟨day, hoccurs, hover, heq⟩
    rw [hopen]
    cases hfind : found.find? fun span => span.1 ≤ instant ∧ instant < span.2 with
    | some other => exact ⟨other, rfl⟩
    | none =>
      have hno := List.find?_eq_none.mp hfind span hmemSpan
      exact absurd (decide_eq_true hin) hno

theorem find_least {found : List (ℤ × ℤ)} {bound start : ℤ}
    (hsorted : found.Pairwise (fun a b => a.1 < b.1)) :
    ((found.find? fun span => span.1 > bound).map Prod.fst) = some start ↔
      IsLeast { first | bound < first ∧ ∃ span ∈ found, span.1 = first } start := by
  induction hsorted with
  | nil =>
    constructor
    · intro h
      cases h
    · rintro ⟨⟨_, span, hspan, _⟩, _⟩
      cases hspan
  | @cons span rest hfirst _ ih =>
    rw [List.find?_cons]
    by_cases hpast : span.1 > bound
    · simp only [hpast, decide_true, Option.map_some, Option.some.injEq]
      have hleast : IsLeast
          { first | bound < first ∧ ∃ other ∈ span :: rest, other.1 = first } span.1 := by
        refine ⟨⟨hpast, span, List.mem_cons_self, rfl⟩, ?_⟩
        rintro first ⟨_, other, hother, rfl⟩
        cases List.mem_cons.mp hother with
        | inl heq => rw [heq]
        | inr hrest => exact (hfirst other hrest).le
      constructor
      · rintro rfl
        exact hleast
      · intro h
        exact hleast.unique h
    · simp only [hpast, decide_false]
      rw [ih]
      have hset : { first | bound < first ∧ ∃ other ∈ span :: rest, other.1 = first } =
          { first | bound < first ∧ ∃ other ∈ rest, other.1 = first } := by
        ext first
        refine and_congr_right fun hlt => ?_
        constructor
        · rintro ⟨other, hother, rfl⟩
          cases List.mem_cons.mp hother with
          | inl heq => exact absurd (heq ▸ hlt) hpast
          | inr hrest => exact ⟨other, hrest, rfl⟩
        · rintro ⟨other, hother, heq⟩
          exact ⟨other, List.mem_cons_of_mem _ hother, heq⟩
      rw [hset]

theorem nextRight_of_exact {instant : ℤ} (hlow : 1 ≤ durationMinutes)
    (h : Exact rule dtstart zone durationMinutes instant
      (instant + lookaheadDays * microsPerDay)) :
    NextRight rule dtstart zone durationMinutes instant := by
  obtain ⟨found, hfound, hsorted, hmem⟩ := h
  have hstarts : StartsAfter rule dtstart zone instant =
      { first | instant < first ∧ ∃ span ∈ found, span.1 = first } := by
    ext start
    constructor
    · rintro ⟨⟨day, hoccurs, heq⟩, hafter, hbound⟩
      have hover : Overlaps (durationMinutes * microsPerMinute) instant
          (instant + lookaheadDays * microsPerDay) (startOn dtstart zone day) := by
        unfold Overlaps microsPerMinute
        omega
      exact ⟨hafter, _, (hmem _).mpr ⟨day, hoccurs, hover, rfl⟩, heq.symm⟩
    · rintro ⟨hafter, span, hspan, heq⟩
      obtain ⟨day, hoccurs, hover, hday⟩ := (hmem span).mp hspan
      rw [← heq, hday] at hafter ⊢
      exact ⟨⟨day, hoccurs, rfl⟩, hafter, hover.1⟩
  have hnext : nextStartAfter (timing rule dtstart zone durationMinutes) instant =
      (found.find? fun span => span.1 > instant).map Prod.fst := by
    unfold nextStartAfter
    rw [windowOccurrences_of_ok hfound]
  refine ⟨fun start => ?_, ?_⟩
  · rw [hnext, hstarts]
    exact find_least hsorted
  · rw [hnext, hstarts, Option.map_eq_none_iff, List.find?_eq_none]
    constructor
    · intro hnone
      rw [Set.eq_empty_iff_forall_notMem]
      rintro start ⟨hafter, span, hspan, heq⟩
      rw [← heq] at hafter
      exact hnone span hspan (decide_eq_true hafter)
    · intro hempty span hspan hafter
      have hin : span.1 ∈ { first | instant < first ∧ ∃ span ∈ found, span.1 = first } :=
        ⟨of_decide_eq_true hafter, span, hspan, rfl⟩
      rw [hempty] at hin
      exact hin

/-- The occurrences returned are exact just when none falls on the dates beside those walked, and
what is read off them is right where they are exact. -/
theorem occurrences_exact_iff (rule : Recurrence) (dtstart : ℤ) (zone : Zone)
    (durationMinutes : ℤ) (hlow : 1 ≤ durationMinutes)
    (hhigh : durationMinutes ≤ maxDurationMinutes) (hzone : zone.ShiftsUnderDay) :
    (∀ since upto, Exact rule dtstart zone durationMinutes since upto ↔
      NoneMissed rule dtstart zone (durationMinutes * microsPerMinute) since upto) ∧
    (∀ instant, NoneMissed rule dtstart zone (durationMinutes * microsPerMinute) instant instant →
      OpenRight rule dtstart zone durationMinutes instant) ∧
    (∀ instant, NoneMissed rule dtstart zone (durationMinutes * microsPerMinute) instant
        (instant + lookaheadDays * microsPerDay) →
      NextRight rule dtstart zone durationMinutes instant) := by
  refine ⟨fun since upto => ⟨?_, ?_⟩, fun instant h => ?_, fun instant h => ?_⟩
  · exact noneMissed_of_exact hlow hhigh hzone
  · exact exact_of_noneMissed hlow hhigh hzone
  · exact openRight_of_exact (exact_of_noneMissed hlow hhigh hzone h)
  · exact nextRight_of_exact hlow (exact_of_noneMissed hlow hhigh hzone h)

end Answers

section Nuuk

/-- Nuuk around the spring of 2027: on 27 March, an hour before midnight, the clocks go on to the
next day. -/
def nuuk : Zone where
  utcOf clock :=
    if clock < 740067 * microsPerDay then clock + 120 * microsPerMinute
    else clock + 60 * microsPerMinute
  localOf instant :=
    if instant < 740067 * microsPerDay + 60 * microsPerMinute then instant - 120 * microsPerMinute
    else instant - 60 * microsPerMinute

theorem nuuk_shifts : nuuk.ShiftsUnderDay := by
  constructor
  · intro a b
    simp only [nuuk, abs_lt, microsPerMinute, microsPerDay]
    split_ifs <;> omega
  · intro a i
    simp only [nuuk, abs_lt, microsPerMinute, microsPerDay]
    split_ifs <;> omega

def nightly : Recurrence := ⟨.daily, 1, [], [], none, by decide⟩

def lateEvening : ℤ := combine 740041 (23 * 60 * microsPerMinute + 30 * microsPerMinute)

def skippedHour : ℤ := 740067 * microsPerDay + 105 * microsPerMinute

theorem nightly_skipped : Occurs nightly lateEvening nuuk 740067 ∧
    startOn lateEvening nuuk 740067 = skippedHour - 15 * microsPerMinute := by
  refine ⟨⟨by decide +kernel, by decide +kernel, ?_⟩, by decide +kernel⟩
  intro last hlast
  cases hlast

theorem nightly_exact :
    Exact nightly lateEvening nuuk 60 (740067 * microsPerDay) (740070 * microsPerDay) := by
  refine ((occurrences_exact_iff nightly lateEvening nuuk 60 (by decide) (by decide)
    nuuk_shifts).1 _ _).mpr ⟨?_, ?_⟩
  · rintro day rfl _ hover
    have hno : ¬ 740067 * microsPerDay < startOn lateEvening nuuk (dateOfClock (nuuk.localOf
        (740067 * microsPerDay - 60 * microsPerMinute)) - 1) + 60 * microsPerMinute := by
      decide +kernel
    exact hno hover.2
  · rintro day rfl _ hover
    have hno : ¬ startOn lateEvening nuuk (dateOfClock (nuuk.localOf
        (740070 * microsPerDay)) + 1) ≤ 740070 * microsPerDay := by
      decide +kernel
    exact hno hover.1

theorem occurrence_dropped :
    nuuk.ShiftsUnderDay ∧ ¬ Exact nightly lateEvening nuuk 30 skippedHour skippedHour ∧
      (Containing nightly lateEvening nuuk (30 * microsPerMinute) skippedHour).Nonempty ∧
      openAt (timing nightly lateEvening nuuk 30) skippedHour = none := by
  have ⟨hoccurs, hstart⟩ := nightly_skipped
  have hover : Overlaps (30 * microsPerMinute) skippedHour skippedHour
      (startOn lateEvening nuuk 740067) := by
    rw [hstart]
    unfold Overlaps microsPerMinute
    omega
  refine ⟨nuuk_shifts, fun hexact => ?_, ⟨_, ⟨740067, hoccurs, rfl⟩, hover⟩, by decide +kernel⟩
  have hmissed := noneMissed_of_exact (by decide) (by decide) nuuk_shifts hexact
  exact hmissed.before 740067 (by decide +kernel) hoccurs hover

end Nuuk

end Shapoclyack.MaintenanceOccurrences
