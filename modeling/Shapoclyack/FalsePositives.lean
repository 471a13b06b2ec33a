import Shapoclyack.DeadlineInvariant

set_option autoImplicit false

namespace Shapoclyack.FalsePositives

open ProductionEvidence VerificationArtifacts VulnStates Findings FindingFold Lifecycle
open FindingEvents
open DeadlineInvariant

section Purpose

/-- An assessment is worse than another: more severe, newly exploited, newly exposed or of a more
mature exploit. -/
def Worse (t : Text) (base latest : Assessment) : Prop :=
  base.severity.rank < latest.severity.rank ∨ (latest.inKev = true ∧ base.inKev = false) ∨
    (latest.networkExposure = some "external" ∧ base.networkExposure ≠ some "external") ∨
    maturityRank t base.exploitMaturity < maturityRank t latest.exploitMaturity

instance (t : Text) (base latest : Assessment) : Decidable (Worse t base latest) :=
  inferInstanceAs (Decidable (_ ∨ _ ∨ _ ∨ _))

/-- The finding is open again, and its verdict gone. -/
structure Reopened (row next : Vulnerability) : Prop where
  state : next.state = .OPEN
  counted : next.reopenCount = row.reopenCount + 1
  dropped : next.falsePositive = Verdict.none

/-- The finding stays closed, its deadline and its count of regressions as they were. -/
structure HeldClosed (row next : Vulnerability) : Prop where
  state : next.state = .CLOSED
  reason : next.closureReason = some .falsePositive
  suppressed : next.falsePositive.suppressUntil = row.falsePositive.suppressUntil
  deadline : (next.dueAt, next.slaDays, next.slaSource, next.slaStartedAt) =
    (row.dueAt, row.slaDays, row.slaSource, row.slaStartedAt)
  reopenCount : next.reopenCount = row.reopenCount

abbrev Observations := List (Run × Observed)

variable (lib : CoverageText)

/-- Each is a new observation of the finding while its verdict still suppresses it: neither a
replay nor older than what the row retains. -/
def Later : Vulnerability → Observations → Prop
  | _, [] => True
  | row, (run, o) :: rest =>
    (∀ until_, row.falsePositive.suppressUntil = some until_ → run.now < until_) ∧
      isReplay run row o (publicationDisposition row.findingEvidence o.evidence) = false ∧
      publicationDisposition row.findingEvidence o.evidence ≠ .historical ∧
      Later (observe lib run row o) rest

/-- Each observation reopens the finding just when it is worse than what the verdict was made on,
until one has. -/
def Judged (base : Assessment) : Vulnerability → Observations → Prop
  | _, [] => True
  | row, (run, o) :: rest =>
    if Worse lib.toText base o.latest then Reopened row (observe lib run row o)
    else HeldClosed row (observe lib run row o) ∧ Judged base (observe lib run row o) rest

/-- Until one is worse than the first, no assessment is worse than the one before it. -/
def NeverRises (t : Text) (base : Assessment) : Assessment → List Assessment → Prop
  | _, [] => True
  | last, latest :: rest =>
    Worse t base latest ∨ (¬ Worse t last latest ∧ NeverRises t base latest rest)

instance decidableNeverRises (t : Text) (base : Assessment) :
    ∀ (last : Assessment) (rest : List Assessment), Decidable (NeverRises t base last rest)
  | _, [] => inferInstanceAs (Decidable True)
  | last, latest :: rest =>
    have := decidableNeverRises t base latest rest
    inferInstanceAs (Decidable (Worse t base latest ∨
      (¬ Worse t last latest ∧ NeverRises t base latest rest)))

end Purpose

section Weighing

variable {run : Run} {row : Vulnerability} {o : Observed}

theorem fpEscalations_ne_nil (t : Text) (row : Vulnerability) (latest : Assessment) :
    fpEscalations t row latest ≠ [] ↔ Worse t row.assessment latest := by
  unfold fpEscalations Worse
  split_ifs with hseverity hkev hexposure hmaturity <;> simp [*]

theorem worse_of_worse_base {t : Text} {base last latest : Assessment}
    (hlast : ¬ Worse t base last) (h : Worse t base latest) : Worse t last latest := by
  unfold Worse at hlast h ⊢
  rw [not_or, not_or, not_or, not_lt, not_lt] at hlast
  rcases hlast with ⟨hseverity, hkev, hexposure, hmaturity⟩
  rcases h with h | ⟨hlatest, hbase⟩ | ⟨hlatest, hbase⟩ | h
  · exact .inl (hseverity.trans_lt h)
  · refine .inr (.inl ⟨hlatest, ?_⟩)
    by_contra hne
    exact hkev ⟨Bool.eq_true_of_not_eq_false hne, hbase⟩
  · exact .inr (.inr (.inl ⟨hlatest, fun heq => hexposure ⟨heq, hbase⟩⟩))
  · exact .inr (.inr (.inr (hmaturity.trans_lt h)))

variable (lib : CoverageText)

theorem observe_eq_foldCurrent
    (hreplay : isReplay run row o (publicationDisposition row.findingEvidence o.evidence) = false)
    (hcurrent : publicationDisposition row.findingEvidence o.evidence ≠ .historical) :
    observe lib run row o = foldCurrent lib run row o := by
  unfold observe
  simp only [hreplay, Bool.false_eq_true, if_false, if_neg hcurrent]

theorem foldCurrent_assessment (run : Run) (row : Vulnerability) (o : Observed) :
    (foldCurrent lib run row o).assessment = o.latest := by
  unfold foldCurrent concludeFold
  dsimp only
  split_ifs
  · rfl
  · unfold reopen dropFpVerdictOnReopen
    dsimp only
    split_ifs <;> rfl
  · rfl

theorem reopen_reopened (run : Run) (row : Vulnerability) (o : Observed)
    (hreason : row.closureReason = some .falsePositive) :
    Reopened row (reopen run row o) := by
  unfold reopen dropFpVerdictOnReopen
  dsimp only
  by_cases hclock : continueClock run row
      (resolveSlaDays run.policies run.tenantId o.latest.severity o.asset.criticality).1 = true
  · rw [if_pos hclock, if_pos hreason]
    exact ⟨rfl, rfl, rfl⟩
  · rw [if_neg hclock, if_pos hreason]
    exact ⟨rfl, rfl, rfl⟩

theorem closed_of_suppressed {now : ℤ} (h : fpSuppressed row now = true) :
    row.state = .CLOSED ∧ row.closureReason = some .falsePositive := by
  unfold fpSuppressed at h
  simp only [Bool.and_eq_true, decide_eq_true_eq] at h
  exact h.1

theorem foldCurrent_held (hsuppressed : fpSuppressed row run.now = true)
    (hworse : ¬ Worse lib.toText row.assessment o.latest) :
    HeldClosed row (foldCurrent lib run row o) := by
  have hnil : fpEscalations lib.toText row o.latest = [] :=
    not_not.mp fun hne => hworse ((fpEscalations_ne_nil lib.toText row o.latest).mp hne)
  have hweighed : weighFpVerdict lib.toText row o.latest run.now =
      (.held, { row with falsePositive :=
        { row.falsePositive with observations := row.falsePositive.observations + 1 } }) := by
    unfold weighFpVerdict
    rw [if_pos hsuppressed, if_neg (not_not.mpr hnil)]
  have hclosed := closed_of_suppressed hsuppressed
  unfold foldCurrent
  rw [hweighed]
  exact ⟨hclosed.1, hclosed.2, rfl, rfl, rfl⟩

theorem foldCurrent_reopened (hsuppressed : fpSuppressed row run.now = true)
    (hworse : Worse lib.toText row.assessment o.latest) :
    Reopened row (foldCurrent lib run row o) := by
  have hne := (fpEscalations_ne_nil lib.toText row o.latest).mpr hworse
  have hweighed : weighFpVerdict lib.toText row o.latest run.now = (.overridden, row) := by
    unfold weighFpVerdict
    rw [if_pos hsuppressed, if_pos hne]
  have hclosed := closed_of_suppressed hsuppressed
  unfold foldCurrent
  rw [hweighed]
  have hconclude : ∀ next : Vulnerability, next.state = .CLOSED →
      concludeFold run .overridden next o = reopen run next o := by
    intro next hnext
    unfold concludeFold
    rw [if_neg (by decide), if_pos hnext]
  change Reopened row (concludeFold run .overridden
    (promote (markSeen lib run (writeLatest run row o) o)) o)
  rw [hconclude (promote (markSeen lib run (writeLatest run row o) o)) hclosed.1]
  have hreopened := reopen_reopened run (promote (markSeen lib run (writeLatest run row o) o)) o
    hclosed.2
  exact ⟨hreopened.state, hreopened.counted, hreopened.dropped⟩

end Weighing

section Sequences

variable {lib : CoverageText} {run : Run} {row next : Vulnerability} {o : Observed}

theorem HeldClosed.suppressed_at {now : ℤ} (h : HeldClosed row next)
    (hrow : row.falsePositive.suppressUntil.isSome = true)
    (hbefore : ∀ until_, row.falsePositive.suppressUntil = some until_ → now < until_) :
    fpSuppressed next now = true := by
  rcases Option.isSome_iff_exists.mp hrow with ⟨until_, huntil⟩
  unfold fpSuppressed
  rw [h.suppressed, huntil, h.state, h.reason]
  simpa using hbefore until_ huntil

theorem judged_iff {base : Assessment} {observations : Observations}
    (hclosed : row.state = .CLOSED) (hreason : row.closureReason = some .falsePositive)
    (huntil : row.falsePositive.suppressUntil.isSome = true)
    (hbase : ¬ Worse lib.toText base row.assessment) (hlater : Later lib row observations) :
    Judged lib base row observations ↔
      NeverRises lib.toText base row.assessment (observations.map fun e => e.2.latest) := by
  induction observations generalizing row with
  | nil => exact Iff.rfl
  | cons entry rest ih =>
    rcases entry with ⟨run, o⟩
    rcases hlater with ⟨hbefore, hreplay, hcurrent, hrest⟩
    have hsuppressed : fpSuppressed row run.now = true :=
      HeldClosed.suppressed_at ⟨hclosed, hreason, rfl, rfl, rfl⟩ huntil hbefore
    have hobserve := observe_eq_foldCurrent lib hreplay hcurrent
    rw [Judged, List.map_cons, NeverRises, hobserve]
    rw [hobserve] at hrest
    by_cases hworse : Worse lib.toText base o.latest
    · -- worse than the verdict, so worse than anything held under it
      rw [if_pos hworse]
      have hlast := worse_of_worse_base hbase hworse
      exact iff_of_true (foldCurrent_reopened lib hsuppressed hlast) (.inl hworse)
    · rw [if_neg hworse]
      by_cases hlast : Worse lib.toText row.assessment o.latest
      · have hreopened := foldCurrent_reopened lib hsuppressed hlast
        refine iff_of_false (fun h => ?_) (fun h => ?_)
        · have hstate := h.1.state.symm.trans hreopened.state
          cases hstate
        · exact h.elim hworse fun h => h.1 hlast
      · have hheld := foldCurrent_held lib hsuppressed hlast
        have hassessment := foldCurrent_assessment lib run row o
        have hstep := ih hheld.state hheld.reason (hheld.suppressed ▸ huntil)
          (hassessment ▸ hworse) hrest
        rw [hassessment] at hstep
        rw [hstep]
        exact ⟨fun h => .inr ⟨hlast, h.2⟩, fun h => ⟨hheld, (h.resolve_left hworse).2⟩⟩

theorem not_worse_self (t : Text) (base : Assessment) : ¬ Worse t base base := by
  unfold Worse
  rintro (h | ⟨h, h'⟩ | ⟨h, h'⟩ | h)
  · exact lt_irrefl _ h
  · rw [h] at h'
    cases h'
  · exact h' h
  · exact lt_irrefl _ h

/-- A finding that was marked is suppressed, and keeps the assessment it was marked on. -/
theorem marked_spec {start : Vulnerability} {reason actor : Option String} {suppressDays : ℕ}
    {now : ℤ}
    (h : markFalsePositive lib.toText reason suppressDays actor now start = .ok row) :
    row.state = .CLOSED ∧ row.closureReason = some .falsePositive ∧
      row.falsePositive.suppressUntil = some (now + days suppressDays) ∧
      row.assessment = start.assessment := by
  unfold markFalsePositive at h
  dsimp only at h
  split_ifs at h
  rcases checked_ok h with ⟨_, rfl⟩
  unfold closeByHand
  rw [dropException_frame]
  exact ⟨rfl, rfl, rfl, rfl⟩

/-- The verdict is judged as it was made just when, until an observation is worse than what it was
made on, none is worse than the one before. -/
theorem verdict_judged_iff {start : Vulnerability} {reason actor : Option String}
    {suppressDays : ℕ} {now : ℤ} {observations : Observations}
    (hmarked : markFalsePositive lib.toText reason suppressDays actor now start = .ok row)
    (hlater : Later lib row observations) :
    Judged lib start.assessment row observations ↔
      NeverRises lib.toText start.assessment start.assessment
        (observations.map fun e => e.2.latest) := by
  rcases marked_spec hmarked with ⟨hclosed, hreason, huntil, hassessment⟩
  rw [← hassessment]
  exact judged_iff hclosed hreason (huntil ▸ rfl) (not_worse_self _ _) hlater

def markedRow : Vulnerability :=
  ((markFalsePositive asciiLibrary.toText (some "test host") 30 none 1 opened).toOption).getD opened

theorem markedRow_eq :
    markFalsePositive asciiLibrary.toText (some "test host") 30 none 1 opened = .ok markedRow := rfl

def runAt (runId : String) (now : ℤ) : Run := { firstRun with runId := runId, now := now }

def seenAs (severity : ReportEntries.Severity) : Observed :=
  { firstSeen with latest := ⟨severity, false, none, none⟩ }

def milder : Observations := [(runAt "run-2" 10, seenAs .low), (runAt "run-3" 20, seenAs .low)]

/-- A milder observation, and then one like the one the verdict was made on. -/
def dip : Observations := [(runAt "run-2" 10, seenAs .low), (runAt "run-3" 20, seenAs .high)]

theorem later_of_runs {severity : ReportEntries.Severity} :
    Later asciiLibrary markedRow
      [(runAt "run-2" 10, seenAs .low), (runAt "run-3" 20, seenAs severity)] := by
  refine ⟨?_, by decide +kernel, by decide +kernel, ?_, ?_, ?_, trivial⟩
  · intro until_ huntil
    rw [← Option.some.inj huntil]
    decide +kernel
  · intro until_ huntil
    rw [← Option.some.inj huntil]
    decide +kernel
  · cases severity <;> decide +kernel
  · cases severity <;> decide +kernel

theorem verdict_judged_milder : Judged asciiLibrary opened.assessment markedRow milder :=
  (verdict_judged_iff markedRow_eq later_of_runs).mpr (by decide +kernel)

/-- A finding of high severity is marked, seen as low and seen as high again: it is reopened. -/
theorem dip_reopens : Later asciiLibrary markedRow dip ∧
    ¬ Judged asciiLibrary opened.assessment markedRow dip := by
  refine ⟨later_of_runs, fun h => ?_⟩
  have hrises := (judged_iff rfl rfl rfl (by decide +kernel) later_of_runs).mp h
  revert hrises
  decide +kernel

end Sequences

end Shapoclyack.FalsePositives
