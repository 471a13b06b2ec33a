import Shapoclyack.FindingEvents
import Shapoclyack.SoftwareFindings

set_option autoImplicit false

namespace Shapoclyack.DeadlineInvariant

open ReportEntries VerificationArtifacts VulnStates Findings FindingFold FoldEffects Lifecycle
open SoftwareFindings LifecycleMachine FindingEvents Library

/-- The deadline of an open finding: the end of its window, or its own days from its start. -/
def DeadlineOk (row : Vulnerability) : Prop :=
  row.state ≠ .CLOSED →
    (∀ until_, row.exception.until_ = some until_ → row.dueAt = some until_) ∧
    (row.exception.until_ = none →
      (∃ d, row.slaDays = some d ∧ row.dueAt = some (row.slaStartedAt + days d)) ∧
        row.slaSource ≠ some .exception)

theorem clockInv_created {lib : CoverageText} {row : Vulnerability} (h : Created lib row) :
    ClockInv (lifecycleOf row) := by
  cases h with
  | byScan run o =>
    exact {
      positive := ⟨_, rfl, resolveSlaDays_pos run.policies run.tenantId o.latest.severity
        o.asset.criticality⟩
      granted := fun until_ hu => by cases hu
      plain := fun _ _ => ⟨_, rfl, rfl⟩
      source := fun _ _ hsource => resolveSlaDays_source run.policies run.tenantId
        o.latest.severity o.asset.criticality (Option.some.inj hsource)
      closed := fun hclosed => by cases hclosed }
  | byInventory ctx m =>
    exact {
      positive := ⟨_, rfl, resolveSlaDays_pos ctx.policies ctx.tenantId
        (severityOfMatch lib.toTrackerText m) ctx.asset.criticality⟩
      granted := fun until_ hu => by cases hu
      plain := fun _ _ => ⟨_, rfl, rfl⟩
      source := fun _ _ hsource => resolveSlaDays_source ctx.policies ctx.tenantId
        (severityOfMatch lib.toTrackerText m) ctx.asset.criticality (Option.some.inj hsource)
      closed := fun hclosed => by cases hclosed }

theorem clockInv_step {lib : CoverageText} {row row' : Vulnerability} {e : Event}
    (inv : ClockInv (lifecycleOf row)) (hguard : ¬ revivesWindow row e)
    (h : stepEvent lib row e = some row') : ClockInv (lifecycleOf row') := by
  obtain ⟨m, ⟨hlegal, hlife⟩, _, hsound⟩ := apply_move (stepEvent_eq_some h)
  rw [hlife]
  exact inv.apply hlegal (hsound hguard)

theorem deadlineOk_of_clockInv {row : Vulnerability} (inv : ClockInv (lifecycleOf row)) :
    DeadlineOk row := by
  intro hopen
  refine ⟨fun until_ hu => (inv.granted until_ hu).1, fun hnone => ?_⟩
  have hsource := inv.source hopen hnone
  exact ⟨inv.plain hnone hsource, hsource⟩

/-- The steps of one finding that leave alone a closed row whose window set its deadline. -/
abbrev clockSafe (lib : CoverageText) : Vulnerability → Event → Vulnerability → Prop :=
  guarded (ofStep (stepEvent lib)) fun row e => ¬ revivesWindow row e

/-- While no step revives a closed window's days, every reachable finding meets its deadline. -/
theorem reachable_deadlineOk {lib : CoverageText} {start row : Vulnerability} {es : List Event}
    (hcreated : Created lib start) (h : Runs (clockSafe lib) start es row) : DeadlineOk row := by
  have inv : ClockInv (lifecycleOf row) :=
    h.invariant (fun r => ClockInv (lifecycleOf r))
      (fun r e r' hr hstep => clockInv_step hr hstep.1 hstep.2) (clockInv_created hcreated)
  exact deadlineOk_of_clockInv inv

section Revived

def firstRun : Run where
  tenantId := "acme"
  runId := "run-1"
  now := 0
  hasRunDir := true
  reported := []
  assetFor _ := none
  vantage := none
  artifacts := ⟨none, none, [], [], [], []⟩
  jobIds := []
  policies := []
  assetHosts _ := []

def firstSeen : Observed where
  key := "scan|asset-1|CVE-2026-0001|443"
  asset := ⟨"asset-1", none, none, none⟩
  freshId := "vln_1"
  isActionable := false
  cve := some "CVE-2026-0001"
  scriptId := none
  port := some "443"
  latest := ⟨.high, false, none, none⟩
  executionId := none
  nonCve := none
  detectors := []
  evidence := none

def accepted : List Event :=
  [.exceptionRequested (days 60) (some "no patch yet") (some "alice") 1,
    .exceptionApproved "bob" none 2]

def closedAndReopened : List Event :=
  accepted ++ [.moved .CLOSED (some "alice") 3, .moved .OPEN (some "alice") 4]

def opened : Vulnerability := create asciiLibrary firstRun firstSeen

def after (es : List Event) : Vulnerability :=
  (es.foldlM (stepEvent asciiLibrary) opened).getD opened

theorem after_eq {es : List Event}
    (h : (es.foldlM (stepEvent asciiLibrary) opened).isSome = true) :
    es.foldlM (stepEvent asciiLibrary) opened = some (after es) := by
  unfold after
  cases hrun : es.foldlM (stepEvent asciiLibrary) opened with
  | none => simp [hrun] at h
  | some row => rfl

/-- An accepted finding closed and reopened by hand is open under the source of a window it no
longer has. -/
theorem reopened_window_breaks_deadline :
    Created asciiLibrary opened ∧
    Runs (ofStep (stepEvent asciiLibrary)) opened closedAndReopened (after closedAndReopened) ∧
    ¬ DeadlineOk (after closedAndReopened) := by
  refine ⟨.byScan firstRun firstSeen, ?_, ?_⟩
  · exact (Runs.of_foldlM (stepEvent asciiLibrary) (fun _ _ => True) (fun _ _ _ => trivial)
      (after_eq (by decide +kernel))).of_guarded
  · intro hok
    have hopen : (after closedAndReopened).state ≠ .CLOSED := by decide +kernel
    have hnone : (after closedAndReopened).exception.until_ = none := by decide +kernel
    exact ((hok hopen).2 hnone).2 (by decide +kernel)

theorem accepted_due_at_window :
    Runs (clockSafe asciiLibrary) opened accepted (after accepted) ∧ DeadlineOk (after accepted) ∧
      (after accepted).dueAt = some (days 60) := by
  have hrun : Runs (clockSafe asciiLibrary) opened accepted (after accepted) := by
    refine Runs.of_foldlM (stepEvent asciiLibrary) _ ?_ (after_eq (by decide +kernel))
    intro e he row
    simp only [accepted, List.mem_cons, List.not_mem_nil, or_false] at he
    rcases he with rfl | rfl <;> exact fun h => h
  exact ⟨hrun, reachable_deadlineOk (.byScan firstRun firstSeen) hrun, by decide +kernel⟩

end Revived

end Shapoclyack.DeadlineInvariant
