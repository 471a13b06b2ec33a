import Shapoclyack.FindingFold

set_option autoImplicit false

namespace Shapoclyack.FoldEffects

open FindingEvidence ProductionEvidence ReportEntries Detectors VerificationArtifacts
open VerificationCoverage VulnStates Findings FindingFold Library

variable {lib : CoverageText} {run : Run}

structure Lifecycle where
  state : State
  closedAt : Option ℤ
  closureReason : Option ClosureReason
  machineVerified : Bool
  dueAt : Option ℤ
  slaDays : Option ℕ
  slaSource : Option SlaSource
  slaStartedAt : ℤ
  exception : Acceptance
  verificationJobId : Option String

def lifecycleOf (row : Vulnerability) : Lifecycle where
  state := row.state
  closedAt := row.closedAt
  closureReason := row.closureReason
  machineVerified := row.machineVerified
  dueAt := row.dueAt
  slaDays := row.slaDays
  slaSource := row.slaSource
  slaStartedAt := row.slaStartedAt
  exception := row.exception
  verificationJobId := row.verificationJobId

theorem weighFpVerdict_lifecycle (t : Text) (row : Vulnerability) (latest : Assessment) (now : ℤ) :
    lifecycleOf (weighFpVerdict t row latest now).2 = lifecycleOf row := by
  unfold weighFpVerdict
  split_ifs <;> rfl

/-- What a fold does to a row that it reopens, told from the lifecycle columns alone. -/
def Lifecycle.reopened (run : Run) (l : Lifecycle) (o : Observed) (continued : Bool) : Lifecycle :=
  let sla := resolveSlaDays run.policies run.tenantId o.latest.severity o.asset.criticality
  { l with
    state := .OPEN
    closedAt := none
    closureReason := none
    machineVerified := false
    slaStartedAt := if continued then l.slaStartedAt else run.now
    dueAt := if continued then l.dueAt else some (run.now + days sla.1)
    slaDays := if continued then l.slaDays else some sla.1
    slaSource := if continued then l.slaSource else some sla.2 }

def continues (run : Run) (row : Vulnerability) (o : Observed) : Bool :=
  continueClock run row
    (resolveSlaDays run.policies run.tenantId o.latest.severity o.asset.criticality).1

theorem reopen_lifecycle (row : Vulnerability) (o : Observed) :
    lifecycleOf (reopen run row o) =
      (lifecycleOf row).reopened run o (continues run row o) := by
  unfold reopen continues Lifecycle.reopened dropFpVerdictOnReopen
  simp only
  split_ifs <;> rfl

theorem continues_congr {a b : Vulnerability} (h : lifecycleOf a = lifecycleOf b)
    (o : Observed) : continues run a o = continues run b o := by
  simp only [lifecycleOf, Lifecycle.mk.injEq] at h
  obtain ⟨_, hclosed, hreason, _, _, hdays, _⟩ := h
  unfold continues continueClock
  rw [hclosed, hreason, hdays]

/-- Folding an observation leaves the lifecycle alone, or reopens a closed row. -/
theorem concludeFold_lifecycle (outcome : FpOutcome) (row : Vulnerability) (o : Observed) :
    lifecycleOf (concludeFold run outcome row o) = lifecycleOf row ∨
      (row.state = .CLOSED ∧ lifecycleOf (concludeFold run outcome row o) =
        (lifecycleOf row).reopened run o (continues run row o)) := by
  unfold concludeFold
  split_ifs with hheld hclosed
  · exact .inl rfl
  · exact .inr ⟨hclosed, reopen_lifecycle row o⟩
  · exact .inl rfl

theorem concludeFold_lifecycle_of {outcome : FpOutcome} {row before : Vulnerability}
    (h : lifecycleOf row = lifecycleOf before) (o : Observed) :
    lifecycleOf (concludeFold run outcome row o) = lifecycleOf before ∨
      (before.state = .CLOSED ∧ lifecycleOf (concludeFold run outcome row o) =
        (lifecycleOf before).reopened run o (continues run before o)) := by
  have hstate : row.state = before.state := congrArg Lifecycle.state h
  rw [← h, ← hstate, ← continues_congr h o]
  exact concludeFold_lifecycle outcome row o

section Observing

variable (lib : CoverageText) (run : Run)

theorem retain_lifecycle (row : Vulnerability) (o : Observed) :
    lifecycleOf (retain lib row o) = lifecycleOf row := by
  simp only [lifecycleOf, retain]

theorem foldHistorical_lifecycle (row : Vulnerability) (o : Observed) :
    lifecycleOf (foldHistorical lib run row o) = lifecycleOf row := by
  simp only [lifecycleOf, foldHistorical]

theorem foldReplay_lifecycle (row : Vulnerability) (o : Observed) :
    lifecycleOf (foldReplay lib run row o) = lifecycleOf row := by
  unfold foldReplay
  split_ifs <;> simp only [lifecycleOf, retain, writeLatest]

theorem foldEscalated_lifecycle (row : Vulnerability) (o : Observed) :
    lifecycleOf (foldEscalated run row o) = lifecycleOf row ∨
      (row.state = .CLOSED ∧ lifecycleOf (foldEscalated run row o) =
        (lifecycleOf row).reopened run o (continues run row o)) := by
  refine concludeFold_lifecycle_of ?_ o
  simp only [lifecycleOf, promote, writeLatest]

theorem foldCurrent_lifecycle (row : Vulnerability) (o : Observed) :
    lifecycleOf (foldCurrent lib run row o) = lifecycleOf row ∨
      (row.state = .CLOSED ∧ lifecycleOf (foldCurrent lib run row o) =
        (lifecycleOf row).reopened run o (continues run row o)) := by
  refine concludeFold_lifecycle_of ?_ o
  rw [← weighFpVerdict_lifecycle lib.toText row o.latest run.now]
  simp only [lifecycleOf, promote, markSeen, writeLatest]

theorem observe_lifecycle (row : Vulnerability) (o : Observed) :
    lifecycleOf (observe lib run row o) = lifecycleOf row ∨
      (row.state = .CLOSED ∧ lifecycleOf (observe lib run row o) =
        (lifecycleOf row).reopened run o (continues run row o)) := by
  unfold observe
  simp only
  split_ifs
  · exact .inl (by rw [foldHistorical_lifecycle, retain_lifecycle])
  · have hretain := retain_lifecycle lib row o
    have hstate : (retain lib row o).state = row.state := congrArg Lifecycle.state hretain
    rw [← hretain, ← hstate, ← continues_congr hretain o]
    exact foldEscalated_lifecycle run (retain lib row o) o
  · exact .inl (foldReplay_lifecycle lib run row o)
  · exact .inl (foldHistorical_lifecycle lib run row o)
  · exact foldCurrent_lifecycle lib run row o

theorem observe_lifecycle_of_ne_closed {row : Vulnerability} (h : row.state ≠ .CLOSED)
    (o : Observed) : lifecycleOf (observe lib run row o) = lifecycleOf row := by
  rcases observe_lifecycle lib run row o with hsame | ⟨hclosed, _⟩
  · exact hsame
  · exact absurd hclosed h

theorem foldl_observe_lifecycle {row : Vulnerability} (h : row.state ≠ .CLOSED)
    (os : List Observed) :
    lifecycleOf (os.foldl (observe lib run) row) = lifecycleOf row := by
  induction os generalizing row with
  | nil => rfl
  | cons o os ih =>
    have hstep := observe_lifecycle_of_ne_closed lib run h o
    have hstate : (observe lib run row o).state = row.state := congrArg Lifecycle.state hstep
    rw [List.foldl_cons, ih (by rw [hstate]; exact h), hstep]

theorem foldl_observe_identity (row : Vulnerability) (os : List Observed) :
    identityOf (os.foldl (observe lib run) row) = identityOf row := by
  induction os generalizing row with
  | nil => rfl
  | cons o os ih => rw [List.foldl_cons, ih, observe_identity]

end Observing

section Settling

variable (lib : CoverageText) (run : Run)

theorem sendBack_lifecycle (now : ℤ) (row : Vulnerability) :
    lifecycleOf (sendBack now row) = { lifecycleOf row with state := .FIXING } := by
  simp only [lifecycleOf, sendBack]

theorem closeVerifying_lifecycle (row : Vulnerability) (reason : ClosureReason)
    (verified : Bool) :
    lifecycleOf (closeVerifying run row reason verified) =
      { lifecycleOf row with
        state := .CLOSED
        closedAt := some run.now
        closureReason := some reason
        machineVerified := verified
        exception := (dropException row).exception } := by
  unfold closeVerifying dropException
  by_cases h : row.exception.until_ = none ∧ row.exception.state = .none
  · simp only [if_pos h, lifecycleOf]
  · simp only [if_neg h, lifecycleOf]

theorem settle_lifecycle (row : Vulnerability) :
    lifecycleOf (settle lib run row) =
      match settlement lib run row with
      | .failed => { lifecycleOf row with state := .FIXING }
      | .inconclusive => { lifecycleOf row with state := .FIXING }
      | .unreachable =>
        { lifecycleOf row with
          state := .CLOSED
          closedAt := some run.now
          closureReason := some .endpointUnreachable
          machineVerified := false
          exception := (dropException row).exception }
      | .verified =>
        { lifecycleOf row with
          state := .CLOSED
          closedAt := some run.now
          closureReason := some .verifiedRemediated
          machineVerified := true
          exception := (dropException row).exception } := by
  unfold settle
  cases settlement lib run row with
  | failed => exact sendBack_lifecycle run.now row
  | inconclusive => exact sendBack_lifecycle run.now row
  | unreachable => exact closeVerifying_lifecycle run row _ _
  | verified => exact closeVerifying_lifecycle run row _ _

end Settling

end Shapoclyack.FoldEffects
