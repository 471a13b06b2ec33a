import Mathlib.Data.List.Sort
import Mathlib.Data.String.Basic
import Shapoclyack.Library.Fallible
import Shapoclyack.Library.KeyedTable
import Shapoclyack.Library.Lookups
import Shapoclyack.Library.ThreeValued
import Shapoclyack.Text

set_option autoImplicit false

namespace Shapoclyack.RetentionWindows

open Library

section Plans

def maxBoundDays : ℤ := 3650

/-- Bounds that hold a value: what `bounds` accepts of one category. -/
structure Bounds where
  low : ℤ
  high : ℤ
  positive : 1 ≤ low
  ordered : low ≤ high
  bounded : high ≤ maxBoundDays

/-- `bounds`, none where it raises. -/
def bounds (low high : ℤ) : Option Bounds :=
  if h : 1 ≤ low ∧ low ≤ high ∧ high ≤ maxBoundDays then some ⟨low, high, h.1, h.2.1, h.2.2⟩
  else none

def clamp (value : ℤ) (limits : Bounds) : ℤ := min (max value limits.low) limits.high

def defaultDays (setting : Option ℤ) : ℤ := max 0 (setting.getD 0)

/-- What one sweep of a category does for every tenant; no override names a held tenant. -/
structure RetentionPlan where
  defaultDays : ℤ
  overrides : Table (Prod.fst : String × ℤ → String)
  held : List String
  disjoint : ∀ override ∈ overrides.rows, override.1 ∉ held
  positive : ∀ override ∈ overrides.rows, 0 < override.2

abbrev Policies := Table (Prod.fst : String × Option ℤ → String)

def chosen (limits : Bounds) (held : List String) (row : String × Option ℤ) :
    Option (String × ℤ) :=
  if row.1 ∈ held then none else row.2.map fun days => (row.1, clamp days limits)

theorem chosen_spec {limits : Bounds} {held : List String} {row : String × Option ℤ}
    {override : String × ℤ} (h : chosen limits held row = some override) :
    override.1 = row.1 ∧ override.1 ∉ held ∧ 0 < override.2 := by
  unfold chosen at h
  split at h
  · cases h
  · rename_i hfree
    obtain ⟨days, -, rfl⟩ := Option.map_eq_some_iff.mp h
    refine ⟨rfl, hfree, ?_⟩
    have hlow := limits.positive
    have hordered := limits.ordered
    unfold clamp
    omega

theorem filterMap_keys {α β κ : Type} {f : α → Option β} {key : α → κ} {key' : β → κ}
    (h : ∀ a b, f a = some b → key' b = key a) (rows : List α) :
    ((rows.filterMap f).map key').Sublist (rows.map key) := by
  induction rows with
  | nil => exact List.Sublist.slnil
  | cons row rows ih =>
    cases hrow : f row with
    | none =>
      rw [List.filterMap_cons_none hrow]
      exact ih.trans (List.sublist_cons_self _ _)
    | some b =>
      rw [List.filterMap_cons_some hrow, List.map_cons, List.map_cons, h row b hrow]
      exact ih.cons_cons _

def loadPlan (setting : Option ℤ) (limits : Bounds) (policies : Policies) (held : List String) :
    RetentionPlan where
  defaultDays := defaultDays setting
  overrides :=
    ⟨policies.rows.filterMap (chosen limits held), policies.unique.sublist
      (filterMap_keys (fun _ _ h => (chosen_spec h).1) policies.rows)⟩
  held := held
  disjoint override hmem := by
    obtain ⟨row, -, hrow⟩ := List.mem_filterMap.mp hmem
    exact (chosen_spec hrow).2.1
  positive override hmem := by
    obtain ⟨row, -, hrow⟩ := List.mem_filterMap.mp hmem
    exact (chosen_spec hrow).2.2

namespace RetentionPlan

variable (plan : RetentionPlan)

def override (tenant : String) : Option ℤ := (plan.overrides.get tenant).map Prod.snd

/-- The window of a tenant's data; nothing is deleted where it is zero. -/
def daysFor : Option String → ℤ
  | none => plan.defaultDays
  | some tenant =>
    if tenant ∈ plan.held then 0 else (plan.override tenant).getD plan.defaultDays

def active : Bool :=
  0 < plan.defaultDays || plan.overrides.rows.any fun override => 0 < override.2

def tenantSpecific : Bool := !plan.overrides.rows.isEmpty || !plan.held.isEmpty

/-- The tenants that the default pass must not touch. -/
def excluded : List String := plan.overrides.rows.map Prod.fst ++ plan.held

end RetentionPlan

end Plans

section Rows

structure Aged where
  tenant : Option String
  time : Option ℤ

def byTenant (overrides : List (String × ℤ)) : List (String × ℤ) :=
  overrides.insertionSort fun a b => a.1 ≤ b.1

/-- `datetime.min`, the first day of year 1, in microseconds of the epoch. -/
def firstTime : ℤ := -62135596800000000

inductive OverflowError where
  | dateOutOfRange
deriving DecidableEq

/-- `now - timedelta(days=window)`, which is a date or raises. -/
def cutoff (now window : ℤ) : Except OverflowError ℤ :=
  if firstTime ≤ now - days window then .ok (now - days window) else .error .dateOutOfRange

def defaultCut (plan : RetentionPlan) (cut : ℤ) : Aged → Truth := fun row =>
  let old := isBefore row.time cut
  if plan.excluded.isEmpty then old
  else old.and ((isNull row.tenant).or (isNotIn row.tenant plan.excluded))

def overrideCut (tenant : String) (cut : ℤ) : Aged → Truth := fun row =>
  (isEqual row.tenant tenant).and (isBefore row.time cut)

/-- The condition on the rows of a table that are past their tenant's window, none where no row
can be. -/
def expiredClause (plan : RetentionPlan) (now : ℤ) :
    Except OverflowError (Option (Aged → Truth)) :=
  (gather (fun window => (cutoff now window).map (defaultCut plan))
      (if 0 < plan.defaultDays then [plan.defaultDays] else [])).bind fun first =>
    (gather (fun override => (cutoff now override.2).map (overrideCut override.1))
        ((byTenant plan.overrides.rows).filter fun override => 0 < override.2)).map fun rest =>
      anyClause (first ++ rest)

def expired (plan : RetentionPlan) (now : ℤ) (row : Aged) : Bool :=
  match expiredClause plan now with
  | .ok clause => clause.any fun clause => (clause row).holds
  | .error _ => false

end Rows

section Runs

variable (t : Text) (digest : String → String)

def isTenantSegment (value : String) : Bool :=
  match value.toList with
  | [] => false
  | head :: rest =>
    head.isAlphanum && rest.all (fun c => c.isAlphanum || c == '_' || c == '-') &&
      decide (rest.length ≤ 63)

def tenantSegment (tenant : String) : Option String :=
  let value := t.strip tenant
  if value = "" then none
  else if isTenantSegment value && !startsWith "h_" value then some value
  else some ("h_" ++ digest value)

/-- Where a run lives, under the segment of its tenant or in the flat layout. -/
structure RunRef where
  runId : String
  tenant : Option String
deriving DecidableEq

/-- What reading the `tenant.json` of a run gives: the text of its tenant, none where the document
has none. -/
inductive Marker where
  | missing
  | unreadable
  | document (tenantId : Option String)

structure RunStore where
  marker : RunRef → Marker
  /-- When a run last mattered, none where it is gone. -/
  age : RunRef → Option ℤ

def defaultTenantId : String := "default"

/-- The tenants whose window is not the default, by their segments; none where one has none. -/
def segmentMap (plan : RetentionPlan) : Option (List (String × String)) :=
  plan.excluded.mapM fun tenant => (tenantSegment t digest tenant).map fun segment =>
    (segment, tenant)

def markerOwner : Marker → Option String
  | .missing => some defaultTenantId
  | .unreadable => none
  | .document tenantId =>
    let owner := t.strip (text tenantId)
    some (if owner = "" then defaultTenantId else owner)

def runOwner (store : RunStore) (segments : List (String × String)) (run : RunRef) :
    Option String :=
  match run.tenant with
  | some segment => some ((segments.lookup segment).getD segment)
  | none => markerOwner t (store.marker run)

def runDays (plan : RetentionPlan) (store : RunStore) (segments : List (String × String))
    (run : RunRef) : Option ℤ :=
  if plan.tenantSpecific then
    (runOwner t store segments run).map fun owner => plan.daysFor (some owner)
  else some plan.defaultDays

def sweeps (plan : RetentionPlan) (store : RunStore) (segments : List (String × String)) (now : ℤ)
    (run : RunRef) : Bool :=
  (runDays t plan store segments run).any fun window =>
    decide (0 < window) && (store.age run).any fun age => !decide (now - days window < age)

def sweep (plan : RetentionPlan) (store : RunStore) (runs : List RunRef) (now : ℤ) :
    List RunRef :=
  if plan.active then
    (segmentMap t digest plan).elim [] fun segments =>
      runs.filter (sweeps t plan store segments now)
  else []

end Runs

section Purpose

variable (t : Text) (digest : String → String)

/-- These tenants are told apart by their segments: their ids are stripped, none is itself an
encoded segment of one of them, and no two have one digest. -/
structure Apart (tenants : List String) : Prop where
  stripped : ∀ tenant ∈ tenants, t.strip tenant = tenant
  plain : ∀ tenant ∈ tenants, ∀ other ∈ tenants, tenant ≠ "h_" ++ digest other
  distinct : ∀ tenant ∈ tenants, ∀ other ∈ tenants, digest tenant = digest other → tenant = other

/-- Whose run it is: the tenant of its segment, or the one that its marker names. -/
def Owns (store : RunStore) (run : RunRef) (tenant : String) : Prop :=
  match run.tenant with
  | some segment => tenantSegment t digest tenant = some segment
  | none => markerOwner t (store.marker run) = some tenant

def PastWindow (plan : RetentionPlan) (now : ℤ) (tenant : Option String) (time : Option ℤ) : Prop :=
  0 < plan.daysFor tenant ∧ ∃ since ∈ time, since < now - days (plan.daysFor tenant)

/-- The sweep of a table deletes exactly the rows past their window, whatever date they have. -/
def RowsAgree (plan : RetentionPlan) (now : ℤ) : Prop :=
  ∀ row : Aged, (∀ since ∈ row.time, firstTime ≤ since) →
    (expired plan now row = true ↔ PastWindow plan now row.tenant row.time)

/-- The sweep of the runs deletes one only past the window of its owner. -/
def RunsAgree (plan : RetentionPlan) : Prop :=
  ∀ store runs now, ∀ run ∈ sweep t digest plan store runs now, ∀ tenant,
    Apart t digest (tenant :: plan.excluded) → Owns t digest store run tenant →
      0 < plan.daysFor (some tenant) ∧
        ∃ age ∈ store.age run, age ≤ now - days (plan.daysFor (some tenant))

def HoldWins (plan : RetentionPlan) (tenant : String) : Prop :=
  (∀ now row, row.tenant = some tenant → expired plan now row = false) ∧
    (Apart t digest plan.excluded → ∀ store runs now run, Owns t digest store run tenant →
      run ∉ sweep t digest plan store runs now)

def windows (plan : RetentionPlan) : List ℤ :=
  (if 0 < plan.defaultDays then [plan.defaultDays] else []) ++ plan.overrides.rows.map Prod.snd

/-- Every window ends at a date, or none leaves room for a row. -/
def InCalendar (plan : RetentionPlan) (now : ℤ) : Prop :=
  (∀ window ∈ windows plan, firstTime ≤ now - days window) ∨
    ∀ window ∈ windows plan, now - days window ≤ firstTime

end Purpose

section Agreement

variable {plan : RetentionPlan} {now : ℤ} {row : Aged}

theorem any_lt {time : Option ℤ} {cut : ℤ} :
    (time.any fun since => decide (since < cut)) = true ↔ ∃ since ∈ time, since < cut := by
  cases time <;> simp

theorem defaultCut_holds {cut : ℤ} :
    (defaultCut plan cut row).holds = true ↔
      (∃ since ∈ row.time, since < cut) ∧ ∀ tenant ∈ row.tenant, tenant ∉ plan.excluded := by
  unfold defaultCut
  split
  · rename_i hempty
    rw [Truth.holds_isBefore, any_lt, List.isEmpty_iff.mp hempty]
    simp
  · rw [Truth.holds_and, Truth.holds_or, Truth.holds_isBefore, Truth.holds_isNull,
      Truth.holds_isNotIn, Bool.and_eq_true, any_lt]
    refine and_congr_right fun _ => ?_
    cases row.tenant <;> simp

theorem overrideCut_holds {tenant : String} {cut : ℤ} :
    (overrideCut tenant cut row).holds = true ↔
      row.tenant = some tenant ∧ ∃ since ∈ row.time, since < cut := by
  unfold overrideCut
  rw [Truth.holds_and, Truth.holds_isEqual, Truth.holds_isBefore, Bool.and_eq_true,
    decide_eq_true_iff, any_lt]

theorem mem_windows_override {override : String × ℤ} (h : override ∈ plan.overrides.rows) :
    override.2 ∈ windows plan :=
  List.mem_append_right _ (List.mem_map_of_mem h)

theorem mem_windows_default (h : 0 < plan.defaultDays) : plan.defaultDays ∈ windows plan := by
  unfold windows
  rw [if_pos h]
  exact List.mem_append_left _ (List.mem_singleton_self _)

theorem expiredClause_ok (h : ∀ window ∈ windows plan, firstTime ≤ now - days window) :
    expiredClause plan now = .ok (anyClause
      ((if 0 < plan.defaultDays then [plan.defaultDays] else []).map
          (fun window => defaultCut plan (now - days window)) ++
        ((byTenant plan.overrides.rows).filter fun override => 0 < override.2).map
          fun override => overrideCut override.1 (now - days override.2))) := by
  unfold expiredClause
  rw [gather_of_forall (g := fun window => defaultCut plan (now - days window)),
    gather_of_forall (g := fun override : String × ℤ =>
      overrideCut override.1 (now - days override.2))]
  · rfl
  · intro override hmem
    have hrow := (List.mem_insertionSort _).mp (List.mem_filter.mp hmem).1
    rw [cutoff, if_pos (h _ (mem_windows_override hrow))]
    rfl
  · intro window hmem
    rw [cutoff, if_pos (h window (List.mem_append_left _ hmem))]
    rfl

theorem expiredClause_error {window : ℤ} (hmem : window ∈ windows plan)
    (h : ¬ firstTime ≤ now - days window) : ∃ raised, expiredClause plan now = .error raised := by
  cases hclause : expiredClause plan now with
  | error raised => exact ⟨raised, rfl⟩
  | ok clause =>
    obtain ⟨first, hfirst, hrest⟩ := Except.bind_eq_ok.mp hclause
    obtain ⟨rest, hgather, -⟩ := Except.map_eq_ok.mp hrest
    have hcut : cutoff now window = .error .dateOutOfRange := if_neg h
    rcases List.mem_append.mp hmem with hdefault | hoverride
    · obtain ⟨cut, hcuts⟩ := gather_mem hfirst hdefault
      rw [hcut] at hcuts
      cases hcuts
    · obtain ⟨override, hrow, rfl⟩ := List.mem_map.mp hoverride
      have hin : override ∈ (byTenant plan.overrides.rows).filter fun override => 0 < override.2 :=
        List.mem_filter.mpr ⟨(List.mem_insertionSort _).mpr hrow,
          decide_eq_true (plan.positive override hrow)⟩
      obtain ⟨cut, hcuts⟩ := gather_mem hgather hin
      rw [hcut] at hcuts
      cases hcuts

theorem expired_iff_cuts (h : ∀ window ∈ windows plan, firstTime ≤ now - days window) :
    expired plan now row = true ↔
      (0 < plan.defaultDays ∧
        (defaultCut plan (now - days plan.defaultDays) row).holds = true) ∨
        ∃ override ∈ plan.overrides.rows,
          (overrideCut override.1 (now - days override.2) row).holds = true := by
  have hmem : ∀ override, override ∈ byTenant plan.overrides.rows ↔
      override ∈ plan.overrides.rows := fun _ => List.mem_insertionSort _
  unfold expired
  rw [expiredClause_ok h]
  dsimp only
  rw [anyClause_holds, List.any_append, Bool.or_eq_true, List.any_map, List.any_map,
    List.any_filter]
  refine or_congr ?_ ?_
  · split
    · rename_i hpositive
      simp [hpositive]
    · rename_i hzero
      simp [hzero]
  · rw [List.any_eq_true]
    refine exists_congr fun override => ?_
    rw [hmem]
    refine and_congr_right fun hoverride => ?_
    rw [Bool.and_eq_true, decide_eq_true_iff]
    exact and_iff_right (plan.positive override hoverride)

theorem override_eq_some_iff {tenant : String} {window : ℤ} :
    plan.override tenant = some window ↔ (tenant, window) ∈ plan.overrides.rows := by
  unfold RetentionPlan.override
  rw [Option.map_eq_some_iff]
  constructor
  · rintro ⟨override, hget, rfl⟩
    obtain ⟨hmem, rfl⟩ := (plan.overrides.get_eq_some_iff tenant override).mp hget
    exact hmem
  · intro hmem
    exact ⟨(tenant, window), (plan.overrides.get_eq_some_iff tenant _).mpr ⟨hmem, rfl⟩, rfl⟩

theorem mem_excluded {tenant : String} :
    tenant ∈ plan.excluded ↔ (∃ window, plan.override tenant = some window) ∨
      tenant ∈ plan.held := by
  unfold RetentionPlan.excluded
  rw [List.mem_append, List.mem_map]
  refine or_congr_left ?_
  constructor
  · rintro ⟨override, hmem, rfl⟩
    exact ⟨override.2, override_eq_some_iff.mpr hmem⟩
  · rintro ⟨window, hwindow⟩
    exact ⟨(tenant, window), override_eq_some_iff.mp hwindow, rfl⟩

theorem daysFor_held {tenant : String} (h : tenant ∈ plan.held) :
    plan.daysFor (some tenant) = 0 := if_pos h

theorem daysFor_override {tenant : String} {window : ℤ}
    (h : plan.override tenant = some window) : plan.daysFor (some tenant) = window := by
  have hfree : tenant ∉ plan.held := plan.disjoint _ (override_eq_some_iff.mp h)
  rw [RetentionPlan.daysFor, if_neg hfree, h, Option.getD_some]

theorem daysFor_default {tenant : String} (h : tenant ∉ plan.excluded) :
    plan.daysFor (some tenant) = plan.defaultDays := by
  rw [mem_excluded, not_or] at h
  have hnone : plan.override tenant = none := by
    cases hoverride : plan.override tenant with
    | none => rfl
    | some window => exact absurd ⟨window, hoverride⟩ h.1
  rw [RetentionPlan.daysFor, if_neg h.2, hnone, Option.getD_none]

/-- A condition that is built selects the rows that are past the window of their tenant. -/
theorem expired_iff (h : ∀ window ∈ windows plan, firstTime ≤ now - days window) :
    expired plan now row = true ↔ PastWindow plan now row.tenant row.time := by
  rw [expired_iff_cuts h, defaultCut_holds]
  unfold PastWindow
  cases htenant : row.tenant with
  | none =>
    simp only [overrideCut_holds, htenant]
    simp [RetentionPlan.daysFor]
  | some tenant =>
    by_cases hheld : tenant ∈ plan.held
    · rw [daysFor_held hheld]
      constructor
      · rintro (⟨-, -, hexcluded⟩ | ⟨override, hmem, hcut⟩)
        · exact absurd (mem_excluded.mpr (.inr hheld)) (hexcluded tenant rfl)
        · obtain ⟨heq, -⟩ := overrideCut_holds.mp hcut
          rw [htenant, Option.some.injEq] at heq
          exact absurd (heq ▸ hheld) (plan.disjoint override hmem)
      · exact fun h => absurd h.1 (lt_irrefl 0)
    · cases hoverride : plan.override tenant with
      | none =>
        have hplain : tenant ∉ plan.excluded := by
          rw [mem_excluded, hoverride]
          simp [hheld]
        rw [daysFor_default hplain]
        constructor
        · rintro (⟨hpositive, htime, -⟩ | ⟨override, hmem, hcut⟩)
          · exact ⟨hpositive, htime⟩
          · obtain ⟨heq, -⟩ := overrideCut_holds.mp hcut
            rw [htenant, Option.some.injEq] at heq
            rw [heq, override_eq_some_iff.mpr hmem] at hoverride
            cases hoverride
        · rintro ⟨hpositive, htime⟩
          refine .inl ⟨hpositive, htime, ?_⟩
          rintro _ ⟨⟩
          exact hplain
      | some window =>
        have hmem := override_eq_some_iff.mp hoverride
        rw [daysFor_override hoverride]
        constructor
        · rintro (⟨-, -, hexcluded⟩ | ⟨override, hother, hcut⟩)
          · exact absurd (mem_excluded.mpr (.inl ⟨window, hoverride⟩)) (hexcluded tenant rfl)
          · obtain ⟨heq, htime⟩ := overrideCut_holds.mp hcut
            rw [htenant, Option.some.injEq] at heq
            have hsame := override_eq_some_iff.mpr hother
            rw [← heq, hoverride, Option.some.injEq] at hsame
            exact ⟨plan.positive _ hmem, hsame ▸ htime⟩
        · rintro ⟨-, htime⟩
          exact .inr ⟨_, hmem, overrideCut_holds.mpr ⟨htenant, htime⟩⟩

theorem expired_eq_false {window : ℤ} (hmem : window ∈ windows plan)
    (h : ¬ firstTime ≤ now - days window) : expired plan now row = false := by
  obtain ⟨raised, hraised⟩ := expiredClause_error hmem h
  unfold expired
  rw [hraised]

theorem pastWindow_of_expired (h : expired plan now row = true) :
    PastWindow plan now row.tenant row.time := by
  by_cases hdates : ∀ window ∈ windows plan, firstTime ≤ now - days window
  · exact (expired_iff hdates).mp h
  · push Not at hdates
    obtain ⟨window, hmem, hout⟩ := hdates
    rw [expired_eq_false hmem (Int.not_le.mpr hout)] at h
    cases h

theorem daysFor_mem_windows {tenant : Option String} (h : 0 < plan.daysFor tenant) :
    plan.daysFor tenant ∈ windows plan := by
  cases tenant with
  | none => exact mem_windows_default h
  | some tenant =>
    unfold RetentionPlan.daysFor at h ⊢
    dsimp only at h ⊢
    split_ifs at h ⊢ with hheld
    · exact absurd h (lt_irrefl 0)
    · cases hoverride : plan.override tenant with
      | none =>
        rw [hoverride, Option.getD_none] at h
        exact mem_windows_default h
      | some window => exact mem_windows_override (override_eq_some_iff.mp hoverride)

theorem exists_daysFor {window : ℤ} (h : window ∈ windows plan) :
    ∃ tenant, plan.daysFor tenant = window ∧ 0 < window := by
  rcases List.mem_append.mp h with hdefault | hoverride
  · split_ifs at hdefault with hpositive
    · rw [List.mem_singleton.mp hdefault]
      exact ⟨none, rfl, hpositive⟩
    · cases hdefault
  · obtain ⟨override, hrow, rfl⟩ := List.mem_map.mp hoverride
    exact ⟨some override.1, daysFor_override (override_eq_some_iff.mpr hrow),
      plan.positive override hrow⟩

theorem rowsAgree_iff : RowsAgree plan now ↔ InCalendar plan now := by
  by_cases hdates : ∀ window ∈ windows plan, firstTime ≤ now - days window
  · exact iff_of_true (fun row _ => expired_iff hdates) (.inl hdates)
  · have hcalendar : InCalendar plan now ↔
        ∀ window ∈ windows plan, now - days window ≤ firstTime :=
      or_iff_right hdates
    rw [hcalendar]
    push Not at hdates
    obtain ⟨far, hfar, hout⟩ := hdates
    have hnone : ∀ row, expired plan now row = false := fun row =>
      expired_eq_false hfar (Int.not_le.mpr hout)
    constructor
    · intro hagree window hmem
      obtain ⟨tenant, rfl, hpositive⟩ := exists_daysFor hmem
      by_contra hroom
      have hrow := (hagree ⟨tenant, some firstTime⟩ fun since hsince =>
        (Option.some.inj hsince).le).mpr ⟨hpositive, firstTime, rfl, Int.not_le.mp hroom⟩
      exact absurd (hrow.symm.trans (hnone _)) (by decide)
    · intro hfull row hdated
      rw [hnone]
      refine iff_of_false (by decide) fun ⟨hpositive, since, hsince, hpast⟩ => ?_
      have hend := hfull _ (daysFor_mem_windows hpositive)
      have hfirst := hdated since hsince
      omega

end Agreement

section Owners

variable {t : Text} {digest : String → String} {plan : RetentionPlan} {store : RunStore}

theorem tenantSegment_cases {tenant segment : String} (h : t.strip tenant = tenant)
    (hsegment : tenantSegment t digest tenant = some segment) :
    segment = tenant ∨ segment = "h_" ++ digest tenant := by
  simp only [tenantSegment, h] at hsegment
  split_ifs at hsegment with hempty hplain
  · exact .inl (Option.some.inj hsegment).symm
  · exact .inr (Option.some.inj hsegment).symm

theorem Apart.segment_injective {tenants : List String} (h : Apart t digest tenants)
    {a b segment : String} (ha : a ∈ tenants) (hb : b ∈ tenants)
    (hsame : tenantSegment t digest a = some segment)
    (hother : tenantSegment t digest b = some segment) : a = b := by
  rcases tenantSegment_cases (h.stripped a ha) hsame with rfl | hencoded
  · rcases tenantSegment_cases (h.stripped b hb) hother with heq | heq
    · exact heq
    · exact absurd heq (h.plain _ ha b hb)
  · rcases tenantSegment_cases (h.stripped b hb) hother with rfl | heq
    · exact absurd hencoded (h.plain _ hb a ha)
    · have htexts := congrArg String.toList (hencoded.symm.trans heq)
      rw [String.toList_append, String.toList_append] at htexts
      exact h.distinct a ha b hb (String.toList_inj.mp (List.append_cancel_left htexts))

theorem segments_spec {tenants : List String} {segments : List (String × String)}
    (h : (tenants.mapM fun tenant => (tenantSegment t digest tenant).map fun segment =>
      (segment, tenant)) = some segments) :
    segments.map Prod.snd = tenants ∧
      ∀ entry ∈ segments, tenantSegment t digest entry.2 = some entry.1 := by
  induction tenants generalizing segments with
  | nil =>
    cases h
    exact ⟨rfl, fun _ hmem => absurd hmem List.not_mem_nil⟩
  | cons tenant tenants ih =>
    rw [List.mapM_cons] at h
    obtain ⟨entry, hentry, h⟩ := Option.bind_eq_some_iff.mp h
    obtain ⟨rest, hrest, h⟩ := Option.bind_eq_some_iff.mp h
    obtain ⟨segment, hsegment, rfl⟩ := Option.map_eq_some_iff.mp hentry
    obtain ⟨htenants, hall⟩ := ih hrest
    cases h
    refine ⟨by rw [List.map_cons, htenants], fun entry hmem => ?_⟩
    rcases List.mem_cons.mp hmem with rfl | hmem
    · exact hsegment
    · exact hall entry hmem

theorem daysFor_segment {tenant segment : String}
    (hapart : Apart t digest (tenant :: plan.excluded)) {segments : List (String × String)}
    (hsegments : segmentMap t digest plan = some segments)
    (howns : tenantSegment t digest tenant = some segment) :
    plan.daysFor (some ((segments.lookup segment).getD segment)) = plan.daysFor (some tenant) := by
  obtain ⟨htenants, hall⟩ := segments_spec hsegments
  cases hlookup : segments.lookup segment with
  | some owner =>
    have hmem := mem_of_lookup hlookup
    have hexcluded : owner ∈ plan.excluded := htenants ▸ List.mem_map_of_mem hmem
    rw [Option.getD_some, hapart.segment_injective (List.mem_cons_of_mem _ hexcluded)
      List.mem_cons_self (hall _ hmem) howns]
  | none =>
    have hfree : ∀ other ∈ plan.excluded, tenantSegment t digest other ≠ some segment := by
      intro other hother hsame
      rw [← htenants] at hother
      obtain ⟨entry, hentry, rfl⟩ := List.mem_map.mp hother
      have hkey : entry.1 = segment := Option.some.inj ((hall entry hentry).symm.trans hsame)
      have hother := List.lookup_eq_none_iff.mp hlookup entry hentry
      rw [hkey, bne_self_eq_false] at hother
      cases hother
    have hplain : segment ∉ plan.excluded := by
      intro hmem
      rcases tenantSegment_cases (hapart.stripped tenant List.mem_cons_self) howns with
        rfl | hencoded
      · exact hfree _ hmem howns
      · exact hapart.plain segment (List.mem_cons_of_mem _ hmem) tenant List.mem_cons_self hencoded
    rw [Option.getD_none, daysFor_default hplain,
      daysFor_default fun hmem => hfree tenant hmem howns]

end Owners

section Results

variable {t : Text} {digest : String → String} {plan : RetentionPlan} {store : RunStore}

theorem default_of_not_tenantSpecific (h : plan.tenantSpecific = false) (tenant : String) :
    plan.daysFor (some tenant) = plan.defaultDays := by
  unfold RetentionPlan.tenantSpecific at h
  rw [Bool.or_eq_false_iff, Bool.not_eq_false', Bool.not_eq_false', List.isEmpty_iff,
    List.isEmpty_iff] at h
  refine daysFor_default ?_
  unfold RetentionPlan.excluded
  rw [h.1, h.2]
  exact List.not_mem_nil

theorem runDays_owner {tenant : String} (hapart : Apart t digest (tenant :: plan.excluded))
    {segments : List (String × String)} (hsegments : segmentMap t digest plan = some segments)
    {run : RunRef} {window : ℤ} (hwindow : runDays t plan store segments run = some window)
    (howns : Owns t digest store run tenant) : window = plan.daysFor (some tenant) := by
  unfold runDays at hwindow
  split at hwindow
  · obtain ⟨owner, howner, rfl⟩ := Option.map_eq_some_iff.mp hwindow
    unfold runOwner at howner
    unfold Owns at howns
    cases hlayout : run.tenant with
    | none =>
      rw [hlayout] at howner howns
      rw [Option.some.inj (howner.symm.trans howns)]
    | some segment =>
      rw [hlayout] at howner howns
      rw [← Option.some.inj howner]
      exact daysFor_segment hapart hsegments howns
  · rename_i hplain
    rw [default_of_not_tenantSpecific (Bool.eq_false_iff.mpr hplain)]
    exact (Option.some.inj hwindow).symm

/-- A sweep deletes a run only when it is past the window of its owner. -/
theorem sweep_owner : RunsAgree t digest plan := by
  intro store runs now run hswept tenant hapart howns
  unfold sweep at hswept
  split at hswept
  · cases hsegments : segmentMap t digest plan with
    | none =>
      rw [hsegments] at hswept
      cases hswept
    | some segments =>
      rw [hsegments] at hswept
      have hsweeps := (List.mem_filter.mp hswept).2
      unfold sweeps at hsweeps
      obtain ⟨window, hwindow, hpast⟩ := (Option.any_eq_true _ _).mp hsweeps
      rw [Bool.and_eq_true, decide_eq_true_iff] at hpast
      obtain ⟨age, hage, hold⟩ := (Option.any_eq_true _ _).mp hpast.2
      rw [← runDays_owner hapart hsegments hwindow howns]
      refine ⟨hpast.1, age, hage, ?_⟩
      simpa using hold
  · cases hswept

theorem holdWins {tenant : String} (h : tenant ∈ plan.held) : HoldWins t digest plan tenant := by
  have hzero : plan.daysFor (some tenant) = 0 := daysFor_held h
  constructor
  · intro now row htenant
    rw [Bool.eq_false_iff]
    intro hexpired
    have hpast := (pastWindow_of_expired hexpired).1
    rw [htenant, hzero] at hpast
    exact absurd hpast (lt_irrefl 0)
  · intro hapart store runs now run howns hswept
    have hin : tenant ∈ plan.excluded := List.mem_append_right _ h
    have hall : ∀ other, other ∈ tenant :: plan.excluded → other ∈ plan.excluded :=
      fun other hother => (List.mem_cons.mp hother).elim (fun heq => heq ▸ hin) id
    have hpast := sweep_owner store runs now run hswept tenant
      ⟨fun a ha => hapart.stripped a (hall a ha),
        fun a ha b hb => hapart.plain a (hall a ha) b (hall b hb),
        fun a ha b hb => hapart.distinct a (hall a ha) b (hall b hb)⟩ howns
    rw [hzero] at hpast
    exact absurd hpast.1 (lt_irrefl 0)

theorem daysFor_stored {setting : Option ℤ} {limits : Bounds} {policies : Policies}
    {held : List String} {tenant : String} {window : ℤ}
    (hstored : (tenant, some window) ∈ policies.rows) (hfree : tenant ∉ held) :
    (loadPlan setting limits policies held).daysFor (some tenant) = clamp window limits := by
  refine daysFor_override (override_eq_some_iff.mpr ?_)
  exact List.mem_filterMap.mpr ⟨_, hstored, if_neg hfree⟩

/-- Rows and runs are past the same windows, those of their owners, and a held tenant loses none,
exactly where every window ends at a date or none leaves room for a row. -/
theorem retention_agrees (t : Text) (digest : String → String) (setting : Option ℤ)
    (limits : Bounds) (policies : Policies) (held : List String) (now : ℤ) :
    let plan := loadPlan setting limits policies held
    (RowsAgree plan now ∧ RunsAgree t digest plan ∧
      ∀ tenant ∈ held, HoldWins t digest plan tenant) ↔ InCalendar plan now := by
  intro plan
  rw [← rowsAgree_iff]
  exact and_iff_left ⟨sweep_owner, fun tenant hheld => holdWins hheld⟩

def yearly : Bounds := ⟨1, 365, by decide, by decide, by decide⟩

def tenYears : Policies := ⟨[("acme", some 3650), ("initech", none)], by decide⟩

def acmeRun : RunRef := ⟨"run-1", some "acme"⟩

def acmeRuns : RunStore where
  marker _ := .missing
  age _ := some (days (-400))

theorem retention_agrees_acme :
    let plan := loadPlan (some 30) yearly tenYears ["globex"]
    (expired plan 0 ⟨some "acme", some (days (-400))⟩ = true ↔
        PastWindow plan 0 (some "acme") (some (days (-400)))) ∧
      plan.daysFor (some "acme") = 365 ∧
      acmeRun ∈ sweep ascii id plan acmeRuns [acmeRun] 0 ∧
      expired plan 0 ⟨some "globex", some (days (-400))⟩ = false := by
  have hcalendar : InCalendar (loadPlan (some 30) yearly tenYears ["globex"]) 0 :=
    .inl (by decide)
  obtain ⟨hrows, _, hholds⟩ :=
    (retention_agrees ascii id (some 30) yearly tenYears ["globex"] 0).mpr hcalendar
  exact ⟨hrows ⟨some "acme", some (days (-400))⟩ (by decide), by decide, by decide,
    (hholds "globex" (by decide)).1 0 _ rfl⟩

/-- With a default of a million days no row is deleted, though the override of a tenant is past;
its runs are. -/
theorem far_default_keeps_rows :
    let plan := loadPlan (some 1000000) yearly tenYears []
    let row : Aged := ⟨some "acme", some (days (-400))⟩
    ¬ (RowsAgree plan 0 ∧ RunsAgree ascii id plan ∧
      ∀ tenant ∈ ([] : List String), HoldWins ascii id plan tenant) ∧
      expiredClause plan 0 matches .error .dateOutOfRange ∧ PastWindow plan 0 row.tenant row.time ∧
        acmeRun ∈ sweep ascii id plan acmeRuns [acmeRun] 0 := by
  intro plan row
  have hpast : PastWindow plan 0 row.tenant row.time :=
    ⟨by decide, days (-400), rfl, by decide⟩
  refine ⟨fun h => ?_, by decide, hpast, by decide⟩
  have hexpired := (h.1 row (by decide)).mpr hpast
  exact absurd hexpired (by decide)

end Results

end Shapoclyack.RetentionWindows
