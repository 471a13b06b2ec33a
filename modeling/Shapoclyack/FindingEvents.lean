import Shapoclyack.LifecycleMachine
import Shapoclyack.VerificationDispatch
import Shapoclyack.Library.Runs

set_option autoImplicit false

namespace Shapoclyack.FindingEvents

open ProductionEvidence ReportEntries VerificationArtifacts VulnStates Findings FindingFold
open FoldEffects Lifecycle
open VerificationDispatch LifecycleMachine Library

/-- One write of the tracker, as a finding sees it. -/
inductive Event where
  | observed (run : Run) (o : Observed)
  | settled (run : Run)
  | moved (new : State) (actor : Option String) (now : ℤ)
  | ticketRead (jobStatus : String → Option JobStates.Status) (reading : TicketReading) (now : ℤ)
  | falsePositiveMarked (reason : Option String) (suppressDays : ℕ) (actor : Option String)
      (now : ℤ)
  | falsePositiveCleared (policies : List SlaPolicy) (criticality : Option ℕ)
      (actor : Option String) (now : ℤ)
  | exceptionRequested (until_ : ℤ) (reason actor : Option String) (now : ℤ)
  | exceptionApproved (actor : String) (note : Option String) (now : ℤ)
  | exceptionRejected (actor : String) (note : Option String) (now : ℤ)
  | exceptionWithdrawn (actor : Option String) (now : ℤ)
  | exceptionRevoked (policies : List SlaPolicy) (criticality : Option ℕ) (now : ℤ)
  | exceptionSwept (now : ℤ)
  /-- The receipt of a re-scan whose intent was keyed on the version `seen`. -/
  | verificationDispatched (seen : Vulnerability) (hostsThen hostsNow : List String)
      (job : VerificationJob) (actor : Option String) (now : ℤ)
  | verificationReleased (tenantId jobId : String) (now : ℤ)

/-- Send a finding a failed or cancelled verification held back to `FIXING`. -/
def releaseUnfinishedVerification (tenantId jobId : String) (now : ℤ) (row : Vulnerability) :
    Vulnerability :=
  if row.tenantId = tenantId ∧ row.state = .VERIFYING ∧ row.verificationJobId = some jobId then
    sendBack now row
  else row

def dispatchVerification (lib : CoverageText) (seen : Vulnerability)
    (hostsThen hostsNow : List String) (job : VerificationJob) (actor : Option String) (now : ℤ)
    (row : Vulnerability) : Outcome :=
  match dispatchIntent lib hostsThen seen with
  | .error refusal => .error refusal
  | .ok key => dispatchReceipt lib hostsNow job key actor now row

def apply (lib : CoverageText) (e : Event) (row : Vulnerability) : Outcome :=
  match e with
  | .observed run o =>
    .ok (if rowKey row = (run.tenantId, o.key) then observe lib run row o else row)
  | .settled run => .ok (settleAwaiting lib run row)
  | .moved new actor now => transition new actor now row
  | .ticketRead jobStatus reading now => applyTicketStatus jobStatus reading now row
  | .falsePositiveMarked reason suppressDays actor now =>
    markFalsePositive lib.toText reason suppressDays actor now row
  | .falsePositiveCleared policies criticality actor now =>
    clearFalsePositive policies criticality actor now row
  | .exceptionRequested until_ reason actor now =>
    requestException lib.toText until_ reason actor now row
  | .exceptionApproved actor note now => approveException lib.toText actor note now row
  | .exceptionRejected actor note now => rejectException lib.toText actor note now row
  | .exceptionWithdrawn actor now => withdrawExceptionRequest lib.toText actor now row
  | .exceptionRevoked policies criticality now => clearException policies criticality now row
  | .exceptionSwept now => expireException now row
  | .verificationDispatched seen hostsThen hostsNow job actor now =>
    dispatchVerification lib seen hostsThen hostsNow job actor now row
  | .verificationReleased tenantId jobId now =>
    .ok (releaseUnfinishedVerification tenantId jobId now row)

/-- The partial step function of one finding: a refused operation is no step. -/
def stepEvent (lib : CoverageText) (row : Vulnerability) (e : Event) : Option Vulnerability :=
  (apply lib e row).toOption

theorem stepEvent_eq_some {lib : CoverageText} {row row' : Vulnerability} {e : Event}
    (h : stepEvent lib row e = some row') : apply lib e row = .ok row' := by
  unfold stepEvent at h
  cases happly : apply lib e row with
  | error refusal => simp [happly, Except.toOption] at h
  | ok new =>
    simp only [happly, Except.toOption, Option.some.injEq] at h
    rw [h]

/-- A write that is one legal move of the machine. -/
def IsMove (row row' : Vulnerability) (m : Move) : Prop :=
  m.Legal (lifecycleOf row) ∧ lifecycleOf row' = m.apply (lifecycleOf row)

/-- A move that does not close on the machine's word. -/
def Unverified : Move → Prop
  | .close reason verified _ _ => verified = false ∧ reason ≠ .patched
  | _ => True

section Writes

theorem dropException_exception (row : Vulnerability) :
    (dropException row).exception =
      if row.exception.until_ = none ∧ row.exception.state = .none then row.exception
      else Acceptance.none := by
  unfold dropException
  split_ifs <;> rfl

theorem closeByHand_lifecycle (row : Vulnerability) (reason : ClosureReason) (now : ℤ) :
    lifecycleOf (closeByHand row reason now) =
      { lifecycleOf row with
        closedAt := some now
        closureReason := some reason
        machineVerified := false
        exception := (dropException row).exception } := by
  unfold closeByHand
  rw [dropException_frame]
  simp only [lifecycleOf, dropException_exception]

theorem closeByHand_isMove {row base : Vulnerability} {reason : ClosureReason} {now : ℤ}
    (hbase : lifecycleOf base = { lifecycleOf row with state := .CLOSED })
    (hopen : row.state ≠ .CLOSED) :
    IsMove row (closeByHand base reason now)
      (.close reason false now (dropException base).exception) := by
  refine ⟨⟨hopen, by simp, fun _ => ⟨dropException_until base, dropException_state base⟩⟩, ?_⟩
  rw [closeByHand_lifecycle, hbase]
  rfl

theorem reopenByHand_isMove {row : Vulnerability} (actor : Option String) (now : ℤ)
    (hclosed : row.state = .CLOSED) :
    IsMove row (reopenByHand (moveTo row .OPEN actor now) now)
      (.reopen (.rewound now (defaultSlaDays row.assessment.severity))) := by
  refine ⟨⟨hclosed, defaultSlaDays_pos _⟩, ?_⟩
  unfold reopenByHand dropFpVerdictOnReopen
  simp only
  split_ifs <;> rfl

theorem moveTo_isMove {row : Vulnerability} {new : State} (actor : Option String) (now : ℤ)
    (hmove : canTransition row.state new = true) (hopen : row.state ≠ .CLOSED)
    (hnew : new ≠ .CLOSED) :
    IsMove row (moveTo row new actor now) (.advance new row.verificationJobId) :=
  ⟨⟨hmove, hopen, hnew⟩, rfl⟩

theorem handMove_isMove {row : Vulnerability} {new : State} (actor : Option String)
    (reason : ClosureReason) (now : ℤ) (hreason : reason ≠ .patched)
    (hmove : canTransition row.state new = true) :
    ∃ m, IsMove row
        (if new = .CLOSED then closeByHand (moveTo row new actor now) reason now
          else if row.state = .CLOSED then reopenByHand (moveTo row new actor now) now
          else moveTo row new actor now) m ∧
      Unverified m ∧
      ((row.state = .CLOSED → row.slaSource ≠ some .exception) → m.Sound (lifecycleOf row)) := by
  split_ifs with hnew hclosed
  · have hopen : row.state ≠ .CLOSED := by
      intro hclosed
      rw [hnew, hclosed] at hmove
      exact absurd hmove (by decide)
    subst hnew
    exact ⟨_, closeByHand_isMove rfl hopen, ⟨rfl, hreason⟩, fun _ => hreason⟩
  · rw [hclosed] at hmove
    rw [canTransition_from_closed hmove]
    exact ⟨_, reopenByHand_isMove actor now hclosed, trivial, fun h => h hclosed⟩
  · exact ⟨_, moveTo_isMove actor now hmove hclosed hnew, trivial, fun _ => trivial⟩

theorem checked_ok {current new : State} {rest row' : Vulnerability}
    (h : checked current new rest = .ok row') : canTransition current new = true ∧ row' = rest := by
  unfold checked at h
  split_ifs at h with hmove
  exact ⟨hmove, (Except.ok.inj h).symm⟩

theorem keep_isMove {row row' : Vulnerability} (h : lifecycleOf row' = lifecycleOf row) :
    IsMove row row' .keep :=
  ⟨trivial, h⟩

theorem transition_move {row row' : Vulnerability} {new : State} {actor : Option String} {now : ℤ}
    (h : transition new actor now row = .ok row') :
    ∃ m, IsMove row row' m ∧ Unverified m ∧
      ((row.state = .CLOSED → row.slaSource ≠ some .exception) → m.Sound (lifecycleOf row)) := by
  obtain ⟨hmove, rfl⟩ := checked_ok h
  exact handMove_isMove actor .manual now (by decide) hmove

theorem ticketMove_allowed {jobStatus : String → Option JobStates.Status}
    {reading : TicketReading} {row : Vulnerability} {new : State}
    (h : ticketMove jobStatus reading row = some new) : canTransition row.state new = true := by
  unfold ticketMove at h
  simp only at h
  split at h
  case h_1 => simp at h
  case h_2 suggested _ =>
    split_ifs at h with hmove
    simp only [Option.some.injEq] at h
    rw [← h]
    exact hmove.2.2.2

theorem recordSync_lifecycle (reading : TicketReading) (now : ℤ) (row : Vulnerability) :
    lifecycleOf (recordSync reading now row) = lifecycleOf row := by
  simp only [lifecycleOf, recordSync]

def ticketMoves (jobStatus : String → Option JobStates.Status) (reading : TicketReading)
    (row : Vulnerability) : Bool :=
  row.ticketSystem.isSome && row.ticketKey.isSome &&
    (ticketMove jobStatus reading row).isSome

theorem applyTicketStatus_move {jobStatus : String → Option JobStates.Status}
    {reading : TicketReading} {now : ℤ} {row row' : Vulnerability}
    (h : applyTicketStatus jobStatus reading now row = .ok row') :
    ∃ m, IsMove row row' m ∧ Unverified m ∧
      ((row.state = .CLOSED → ticketMoves jobStatus reading row = true →
        row.slaSource ≠ some .exception) → m.Sound (lifecycleOf row)) := by
  unfold applyTicketStatus at h
  split at h
  case h_2 =>
    rw [← Except.ok.inj h]
    exact ⟨.keep, keep_isMove rfl, trivial, fun _ => trivial⟩
  case h_1 system key hsystem hkey =>
    simp only at h
    have hrow := (Except.ok.inj h).symm
    cases hticket : ticketMove jobStatus reading row with
    | none =>
      simp only [hticket] at hrow
      refine ⟨.keep, keep_isMove ?_, trivial, fun _ => trivial⟩
      rw [hrow, recordSync_lifecycle]
    | some new =>
      simp only [hticket] at hrow
      have hmoves : ticketMoves jobStatus reading row = true := by
        simp [ticketMoves, hsystem, hkey, hticket]
      obtain ⟨m, ⟨hlegal, hlife⟩, hunverified, hsound⟩ :=
        handMove_isMove (some (reading.actor.getD ("ticket_sync:" ++ system))) .ticketResolved now
          (by decide) (ticketMove_allowed hticket)
      refine ⟨m, ⟨hlegal, ?_⟩, hunverified, fun hguard => hsound fun hclosed =>
        hguard hclosed hmoves⟩
      rw [hrow, recordSync_lifecycle, hlife]

theorem markFalsePositive_move {t : Text} {reason : Option String} {suppressDays : ℕ}
    {actor : Option String} {now : ℤ} {row row' : Vulnerability}
    (h : markFalsePositive t reason suppressDays actor now row = .ok row') :
    ∃ m, IsMove row row' m ∧ Unverified m ∧ m.Sound (lifecycleOf row) := by
  unfold markFalsePositive at h
  simp only at h
  split_ifs at h
  obtain ⟨hmove, rfl⟩ := checked_ok h
  have hopen : row.state ≠ .CLOSED := by
    intro hclosed
    rw [hclosed] at hmove
    exact absurd hmove (by decide)
  have hreason : ClosureReason.falsePositive ≠ .patched := by decide
  exact ⟨_, closeByHand_isMove rfl hopen, ⟨rfl, hreason⟩, hreason⟩

theorem clearFalsePositive_move {policies : List SlaPolicy} {criticality : Option ℕ}
    {actor : Option String} {now : ℤ} {row row' : Vulnerability}
    (h : clearFalsePositive policies criticality actor now row = .ok row') :
    ∃ m, IsMove row row' m ∧ Unverified m ∧ m.Sound (lifecycleOf row) := by
  unfold clearFalsePositive at h
  simp only at h
  split_ifs at h with hclosed
  simp only [not_or, ne_eq, not_not] at hclosed
  refine ⟨.reopen (.restarted now
    (resolveSlaDays policies row.tenantId row.assessment.severity criticality).1
    (resolveSlaDays policies row.tenantId row.assessment.severity criticality).2),
    ⟨⟨hclosed.1, resolveSlaDays_pos _ _ _ _, resolveSlaDays_source _ _ _ _⟩, ?_⟩, trivial, trivial⟩
  rw [← Except.ok.inj h]
  rfl

end Writes

section Acceptances

variable {t : Text} {row row' : Vulnerability}

theorem checkedException_ok {current new : ExceptionState} {rest : Outcome}
    (h : checkedException current new rest = .ok row') :
    canTransitionException current new = true ∧ rest = .ok row' := by
  unfold checkedException at h
  split_ifs at h with hmove
  exact ⟨hmove, h⟩

theorem amend_isMove (huntil : row'.exception.until_ = row.exception.until_)
    (hopen : row.state ≠ .CLOSED ∨ row.exception.state ≠ .none)
    (hrow : lifecycleOf row' = { lifecycleOf row with exception := row'.exception }) :
    ∃ m, IsMove row row' m ∧ Unverified m ∧ m.Sound (lifecycleOf row) :=
  ⟨.amend row'.exception, ⟨⟨huntil, hopen⟩, hrow⟩, trivial, trivial⟩

theorem requestException_ok {until_ now : ℤ} {reason actor : Option String}
    (h : requestException t until_ reason actor now row = .ok row') :
    row.state ≠ .CLOSED ∧ row' = { row with
      exception := { row.exception with
        state := .requested
        requestedBy := actor
        requestedAt := some now
        requestedUntil := some until_
        requestedReason := some (clip 2000 (t.strip (text reason)))
        decidedBy := none
        decidedAt := none
        decisionNote := none }
      updatedAt := now } := by
  unfold requestException at h
  simp only at h
  split_ifs at h with _ _ hclosed hwaiting
  · obtain ⟨_, hrest⟩ := checkedException_ok h
    cases hrest
  · obtain ⟨_, hrest⟩ := checkedException_ok h
    exact ⟨hclosed, (Except.ok.inj hrest).symm⟩

theorem requestException_move {until_ now : ℤ} {reason actor : Option String}
    (h : requestException t until_ reason actor now row = .ok row') :
    ∃ m, IsMove row row' m ∧ Unverified m ∧ m.Sound (lifecycleOf row) := by
  obtain ⟨hclosed, rfl⟩ := requestException_ok h
  exact amend_isMove rfl (.inl hclosed) rfl

theorem canApprove_iff (s : ExceptionState) :
    canTransitionException s .approved = true ↔ s = .requested := by
  cases s <;> decide

theorem canReject_iff (s : ExceptionState) :
    canTransitionException s .rejected = true ↔ s = .requested := by
  cases s <;> decide

theorem approveException_ok {actor : String} {note : Option String} {now : ℤ}
    (h : approveException t actor note now row = .ok row') :
    row.exception.state = .requested ∧
      samePerson t row.exception.requestedBy (some actor) = false ∧
      ∃ until_, row.exception.requestedUntil = some until_ ∧ row' = { row with
        exception := { row.exception with
          state := .approved
          decidedBy := some actor
          decidedAt := some now
          decisionNote := orNone (clip 2000 (t.strip (text note)))
          until_ := some until_
          grantedBy := some actor
          reason :=
            if FindingEvidence.truthy row.exception.requestedReason then
              row.exception.requestedReason
            else row.exception.reason
          approvedAt := some now
          approvedRequestedBy := row.exception.requestedBy
          expiredAt := none }
        dueAt := some until_
        slaSource := some .exception
        updatedAt := now } := by
  unfold approveException at h
  obtain ⟨hmove, hrest⟩ := checkedException_ok h
  split at hrest
  case isTrue => cases hrest
  case isFalse hperson =>
    rw [Bool.not_eq_true] at hperson
    split at hrest
    case h_1 => cases hrest
    case h_2 until_ hwindow =>
      split at hrest
      case isTrue => cases hrest
      case isFalse =>
        exact ⟨(canApprove_iff _).mp hmove, hperson, until_, hwindow,
          (Except.ok.inj hrest).symm⟩

theorem approveException_move {actor : String} {note : Option String} {now : ℤ}
    (h : approveException t actor note now row = .ok row') :
    ∃ m, IsMove row row' m ∧ Unverified m ∧ m.Sound (lifecycleOf row) := by
  obtain ⟨hrequested, _, until_, _, rfl⟩ := approveException_ok h
  exact ⟨.grant _ until_, ⟨⟨rfl, hrequested⟩, rfl⟩, trivial, trivial⟩

theorem rejectException_move {actor : String} {note : Option String} {now : ℤ}
    (h : rejectException t actor note now row = .ok row') :
    ∃ m, IsMove row row' m ∧ Unverified m ∧ m.Sound (lifecycleOf row) := by
  unfold rejectException at h
  obtain ⟨hmove, hrest⟩ := checkedException_ok h
  have hrequested := (canReject_iff _).mp hmove
  split_ifs at hrest
  rw [← Except.ok.inj hrest]
  exact amend_isMove rfl (.inr (by rw [hrequested]; decide)) rfl

theorem withdrawExceptionRequest_move {actor : Option String} {now : ℤ}
    (h : withdrawExceptionRequest t actor now row = .ok row') :
    ∃ m, IsMove row row' m ∧ Unverified m ∧ m.Sound (lifecycleOf row) := by
  unfold withdrawExceptionRequest at h
  split_ifs at h with hstate
  rw [ne_eq, not_not] at hstate
  rw [← Except.ok.inj h]
  exact amend_isMove rfl (.inr (by rw [hstate]; decide)) rfl

theorem clearException_move {policies : List SlaPolicy} {criticality : Option ℕ} {now : ℤ}
    (h : clearException policies criticality now row = .ok row') :
    ∃ m, IsMove row row' m ∧ Unverified m ∧ m.Sound (lifecycleOf row) := by
  unfold clearException at h
  split at h
  case h_1 => simp at h
  case h_2 until_ huntil =>
    have hgranted : row.exception.until_ ≠ none := by simp [huntil]
    simp only at h
    have hrow := (Except.ok.inj h).symm
    refine ⟨.revoke row'.exception
      (resolveSlaDays policies row.tenantId row.assessment.severity criticality).1
      (resolveSlaDays policies row.tenantId row.assessment.severity criticality).2,
      ⟨⟨?_, hgranted, resolveSlaDays_pos _ _ _ _, resolveSlaDays_source _ _ _ _⟩, ?_⟩,
      trivial, trivial⟩
    · rw [hrow]
      simp only
      split_ifs <;> rfl
    · rw [hrow]
      rfl

theorem expireException_move {now : ℤ} (h : expireException now row = .ok row') :
    ∃ m, IsMove row row' m ∧ Unverified m ∧ m.Sound (lifecycleOf row) := by
  unfold expireException at h
  split at h
  case isTrue hlapsed =>
    rw [← Except.ok.inj h]
    have hopen : row.state ≠ .CLOSED := by
      simp only [lapsed, Bool.and_eq_true, decide_eq_true_eq] at hlapsed
      exact hlapsed.1.1.1
    exact amend_isMove rfl (.inl hopen) rfl
  case isFalse =>
    rw [← Except.ok.inj h]
    exact ⟨.keep, keep_isMove rfl, trivial, trivial⟩

end Acceptances

section Verification

variable {lib : CoverageText} {row row' : Vulnerability}

theorem sendBack_isMove (now : ℤ) (h : row.state = .VERIFYING) :
    IsMove row (sendBack now row) (.advance .FIXING row.verificationJobId) := by
  refine ⟨⟨?_, ?_, by decide⟩, sendBack_lifecycle now row⟩
  · change canTransition row.state .FIXING = true
    rw [h]
    rfl
  · change row.state ≠ .CLOSED
    rw [h]
    decide

theorem release_move (tenantId jobId : String) (now : ℤ) (row : Vulnerability) :
    ∃ m, IsMove row (releaseUnfinishedVerification tenantId jobId now row) m ∧ Unverified m ∧
      m.Sound (lifecycleOf row) := by
  unfold releaseUnfinishedVerification
  split_ifs with h
  · exact ⟨_, sendBack_isMove now h.2.1, trivial, trivial⟩
  · exact ⟨.keep, keep_isMove rfl, trivial, trivial⟩

theorem dispatchVerification_ok {seen : Vulnerability} {hostsThen hostsNow : List String}
    {job : VerificationJob} {actor : Option String} {now : ℤ}
    (h : dispatchVerification lib seen hostsThen hostsNow job actor now row = .ok row') :
    awaitable job.status = true ∧ row.state = .FIXING ∧
      row' = { moveTo row .VERIFYING
          (some ((FindingEvidence.filled actor).getD "system:verification")) now with
        verificationJobId := some job.jobId
        lastVerifiedAt := some now } := by
  unfold dispatchVerification at h
  cases hintent : dispatchIntent lib hostsThen seen with
  | error refusal => simp [hintent] at h
  | ok key =>
    simp only [hintent] at h
    obtain ⟨hkey, hfixing⟩ := dispatchIntent_state lib hintent
    obtain ⟨hawait, hstate, _, hrow⟩ := dispatchReceipt_ok lib h
    exact ⟨hawait, by rw [hstate, hkey, hfixing], hrow⟩

theorem dispatchVerification_move {seen : Vulnerability} {hostsThen hostsNow : List String}
    {job : VerificationJob} {actor : Option String} {now : ℤ}
    (h : dispatchVerification lib seen hostsThen hostsNow job actor now row = .ok row') :
    ∃ m, IsMove row row' m ∧ Unverified m ∧ m.Sound (lifecycleOf row) := by
  obtain ⟨_, hfixing, rfl⟩ := dispatchVerification_ok h
  refine ⟨.advance .VERIFYING (some job.jobId), ⟨⟨?_, ?_, by decide⟩, rfl⟩, trivial, trivial⟩
  · change canTransition row.state .VERIFYING = true
    rw [hfixing]
    rfl
  · change row.state ≠ .CLOSED
    rw [hfixing]
    decide

/-- A closure on the run's word: nothing of the run still reports the finding, and no gap. -/
def VerifiedBy (lib : CoverageText) (run : Run) (row : Vulnerability) : Prop :=
  awaits run row = true ∧ row.lastSeenRunId ≠ some run.runId ∧ coverageGaps lib run row = []

theorem settlement_verified {run : Run} (h : settlement lib run row = .verified) :
    row.lastSeenRunId ≠ some run.runId ∧ coverageGaps lib run row = [] := by
  unfold settlement at h
  split_ifs at h with hseen hgaps
  exact ⟨hseen, hgaps⟩

theorem settleAwaiting_move (lib : CoverageText) (run : Run) (row : Vulnerability) :
    ∃ m, IsMove row (settleAwaiting lib run row) m ∧ m.Sound (lifecycleOf row) ∧
      (Unverified m ∨ (VerifiedBy lib run row ∧
        ∃ acceptance, m = .close .verifiedRemediated true run.now acceptance)) := by
  unfold settleAwaiting
  split_ifs with hawaits
  case neg => exact ⟨.keep, keep_isMove rfl, trivial, .inl trivial⟩
  case pos =>
    have hverifying : row.state = .VERIFYING := by
      simp only [awaits, Bool.and_eq_true, decide_eq_true_eq] at hawaits
      exact hawaits.1.2
    have hopen : row.state ≠ .CLOSED := by
      rw [hverifying]
      decide
    have hlife := settle_lifecycle lib run row
    have hdrop := And.intro (dropException_until row) (dropException_state row)
    have hreasons : ClosureReason.endpointUnreachable ≠ .patched ∧
        ClosureReason.verifiedRemediated ≠ .patched := by decide
    cases hsettle : settlement lib run row with
    | failed =>
      rw [hsettle] at hlife
      exact ⟨.advance .FIXING row.verificationJobId,
        ⟨(sendBack_isMove run.now hverifying).1, hlife⟩, trivial, .inl trivial⟩
    | inconclusive =>
      rw [hsettle] at hlife
      exact ⟨.advance .FIXING row.verificationJobId,
        ⟨(sendBack_isMove run.now hverifying).1, hlife⟩, trivial, .inl trivial⟩
    | unreachable =>
      rw [hsettle] at hlife
      exact ⟨.close .endpointUnreachable false run.now (dropException row).exception,
        ⟨⟨hopen, by simp, fun _ => hdrop⟩, hlife⟩, hreasons.1, .inl ⟨rfl, hreasons.1⟩⟩
    | verified =>
      rw [hsettle] at hlife
      obtain ⟨hseen, hgaps⟩ := settlement_verified hsettle
      exact ⟨.close .verifiedRemediated true run.now (dropException row).exception,
        ⟨⟨hopen, fun _ => .inl rfl, fun _ => hdrop⟩, hlife⟩, hreasons.2,
        .inr ⟨⟨hawaits, hseen, hgaps⟩, _, rfl⟩⟩

end Verification

section Observation

variable (lib : CoverageText) (run : Run)

def takenAsCurrent (row : Vulnerability) (o : Observed) : Bool :=
  let disposition := publicationDisposition row.findingEvidence o.evidence
  !isReplay run row o disposition && disposition != .historical

theorem continues_reason {run : Run} {row : Vulnerability} {o : Observed}
    (h : continues run row o = true) : row.closureReason = some .endpointUnreachable := by
  unfold continues continueClock at h
  simp only [Bool.and_eq_true, decide_eq_true_eq] at h
  exact h.1

theorem observe_lifecycle_of_not_current {row : Vulnerability} {o : Observed}
    (hcontinues : continues run row o = true) (h : takenAsCurrent run row o = false) :
    lifecycleOf (observe lib run row o) = lifecycleOf row := by
  have hreason := continues_reason hcontinues
  have hunsuppressed : fpSuppressed row run.now = false := by
    simp [fpSuppressed, hreason]
  have hplain : replayEscalates lib run row o = false := by
    simp [replayEscalates, hunsuppressed]
  unfold takenAsCurrent at h
  unfold observe
  simp only at h ⊢
  by_cases hreplay : isReplay run row o
      (publicationDisposition row.findingEvidence o.evidence) = true
  · rw [if_pos hreplay, if_neg (by simp [hplain])]
    exact foldReplay_lifecycle lib run row o
  · rw [if_neg hreplay]
    have hhistorical :
        publicationDisposition row.findingEvidence o.evidence = .historical := by
      simpa [hreplay] using h
    rw [if_pos hhistorical]
    exact foldHistorical_lifecycle lib run row o

def resumesWindow (row : Vulnerability) (o : Observed) : Prop :=
  row.state = .CLOSED ∧ row.slaSource = some .exception ∧ continues run row o = true ∧
    takenAsCurrent run row o = true

theorem observe_move (row : Vulnerability) (o : Observed) :
    ∃ m, IsMove row (observe lib run row o) m ∧ Unverified m ∧
      (¬ resumesWindow run row o → m.Sound (lifecycleOf row)) := by
  rcases observe_lifecycle lib run row o with hsame | ⟨hclosed, hreopened⟩
  · exact ⟨.keep, keep_isMove hsame, trivial, fun _ => trivial⟩
  · cases hcontinues : continues run row o with
    | false =>
      refine ⟨.reopen (.restarted run.now
        (resolveSlaDays run.policies run.tenantId o.latest.severity o.asset.criticality).1
        (resolveSlaDays run.policies run.tenantId o.latest.severity o.asset.criticality).2),
        ⟨⟨hclosed, resolveSlaDays_pos _ _ _ _, resolveSlaDays_source _ _ _ _⟩, ?_⟩,
        trivial, fun _ => trivial⟩
      rw [hreopened, hcontinues]
      rfl
    | true =>
      by_cases hcurrent : takenAsCurrent run row o = true
      · refine ⟨.reopen .continued, ⟨⟨hclosed, trivial⟩, ?_⟩, trivial, ?_⟩
        · rw [hreopened, hcontinues]
          rfl
        · intro hguard hsource
          exact hguard ⟨hclosed, hsource, hcontinues, hcurrent⟩
      · rw [Bool.not_eq_true] at hcurrent
        exact ⟨.keep, keep_isMove (observe_lifecycle_of_not_current lib run hcontinues hcurrent),
          trivial, fun _ => trivial⟩

end Observation

section Refinement

variable {lib : CoverageText} {row row' : Vulnerability}

/-- The write brings back a closed finding whose deadline was an accepted window's, and keeps
the days and the source that window left behind. -/
def revivesWindow (row : Vulnerability) : Event → Prop
  | .observed run o => rowKey row = (run.tenantId, o.key) ∧ resumesWindow run row o
  | .moved _ _ _ => row.state = .CLOSED ∧ row.slaSource = some .exception
  | .ticketRead jobStatus reading _ =>
    row.state = .CLOSED ∧ row.slaSource = some .exception ∧
      ticketMoves jobStatus reading row = true
  | _ => False

/-- A closure on the machine's word comes from a run that settled the finding with no gap. -/
def MadeBy (lib : CoverageText) (row : Vulnerability) (e : Event) (m : Move) : Prop :=
  Unverified m ∨ ∃ run acceptance, e = .settled run ∧ VerifiedBy lib run row ∧
    m = .close .verifiedRemediated true run.now acceptance

/-- Every write of the tracker is one legal move of the lifecycle machine. -/
theorem apply_move {e : Event} (h : apply lib e row = .ok row') :
    ∃ m, IsMove row row' m ∧ MadeBy lib row e m ∧
      (¬ revivesWindow row e → m.Sound (lifecycleOf row)) := by
  -- the operations that never bring back a window
  have plain : (∃ m, IsMove row row' m ∧ Unverified m ∧ m.Sound (lifecycleOf row)) →
      ∃ m, IsMove row row' m ∧ MadeBy lib row e m ∧
        (¬ revivesWindow row e → m.Sound (lifecycleOf row)) :=
    fun ⟨m, hmove, hunverified, hsound⟩ => ⟨m, hmove, .inl hunverified, fun _ => hsound⟩
  cases e with
  | observed run o =>
    have hrow := (Except.ok.inj h).symm
    by_cases hkey : rowKey row = (run.tenantId, o.key)
    · rw [if_pos hkey] at hrow
      obtain ⟨m, hmove, hunverified, hsound⟩ := observe_move lib run row o
      rw [← hrow] at hmove
      exact ⟨m, hmove, .inl hunverified, fun hguard => hsound fun hresumes =>
        hguard ⟨hkey, hresumes⟩⟩
    · rw [if_neg hkey] at hrow
      exact plain ⟨.keep, keep_isMove (by rw [hrow]), trivial, trivial⟩
  | settled run =>
    have hrow := (Except.ok.inj h).symm
    obtain ⟨m, hmove, hsound, hmade⟩ := settleAwaiting_move lib run row
    rw [← hrow] at hmove
    refine ⟨m, hmove, ?_, fun _ => hsound⟩
    rcases hmade with hunverified | ⟨hverified, acceptance, hm⟩
    · exact .inl hunverified
    · exact .inr ⟨run, acceptance, rfl, hverified, hm⟩
  | moved new actor now =>
    obtain ⟨m, hmove, hunverified, hsound⟩ := transition_move h
    exact ⟨m, hmove, .inl hunverified, fun hguard => hsound fun hclosed hsource =>
      hguard ⟨hclosed, hsource⟩⟩
  | ticketRead jobStatus reading now =>
    obtain ⟨m, hmove, hunverified, hsound⟩ := applyTicketStatus_move h
    exact ⟨m, hmove, .inl hunverified, fun hguard => hsound fun hclosed hmoves hsource =>
      hguard ⟨hclosed, hsource, hmoves⟩⟩
  | falsePositiveMarked reason suppressDays actor now => exact plain (markFalsePositive_move h)
  | falsePositiveCleared policies criticality actor now =>
    exact plain (clearFalsePositive_move h)
  | exceptionRequested until_ reason actor now => exact plain (requestException_move h)
  | exceptionApproved actor note now => exact plain (approveException_move h)
  | exceptionRejected actor note now => exact plain (rejectException_move h)
  | exceptionWithdrawn actor now => exact plain (withdrawExceptionRequest_move h)
  | exceptionRevoked policies criticality now => exact plain (clearException_move h)
  | exceptionSwept now => exact plain (expireException_move h)
  | verificationDispatched seen hostsThen hostsNow job actor now =>
    exact plain (dispatchVerification_move h)
  | verificationReleased tenantId jobId now =>
    rw [← Except.ok.inj h]
    obtain ⟨m, hmove, hunverified, hsound⟩ := release_move tenantId jobId now row
    exact ⟨m, hmove, .inl hunverified, fun _ => hsound⟩

end Refinement

section Folding

variable (lib : CoverageText) (run : Run)

/-- What one fold does to a row, as the events of that row: every observation, then the settling. -/
def foldEvents (observed : List Observed) : List Event :=
  observed.map (Event.observed run) ++ [.settled run]

theorem observed_runs (row : Vulnerability) (os : List Observed) :
    Runs (ofStep (stepEvent lib)) row (os.map (Event.observed run))
      ((os.filter fun o => decide ((run.tenantId, o.key) = rowKey row)).foldl
        (observe lib run) row) := by
  induction os generalizing row with
  | nil => exact .refl row
  | cons o os ih =>
    by_cases hkey : rowKey row = (run.tenantId, o.key)
    · have hkeep : rowKey (observe lib run row o) = rowKey row :=
        rowKey_of_identity (observe_identity row o)
      have htail := ih (observe lib run row o)
      rw [hkeep] at htail
      rw [List.map_cons, List.filter_cons_of_pos (by simpa using hkey.symm), List.foldl_cons]
      exact .next (by simp [ofStep, stepEvent, apply, hkey, Except.toOption]) htail
    · rw [List.map_cons, List.filter_cons_of_neg (by simpa using fun h => hkey h.symm)]
      exact .next (by simp [ofStep, stepEvent, apply, hkey, Except.toOption]) (ih row)

/-- A fold of the whole tracker is, for every row it finds there, a run of that row's events. -/
theorem register_runs {t t' : Tracker} {observed : List Observed}
    (hprepare : prepare lib run run.reported = some observed)
    (hactive : ¬ (run.reported = [] ∧ run.hasRunDir = false))
    (h : registerFindingsFromRun lib run t = some t') {row : Vulnerability}
    (hrow : t.get (rowKey row) = some row) :
    ∃ row', t'.get (rowKey row) = some row' ∧
      Runs (ofStep (stepEvent lib)) row (foldEvents run observed) row' := by
  unfold registerFindingsFromRun at h
  rw [if_neg hactive, hprepare, Option.map_some, Option.some.injEq] at h
  refine ⟨_, ?_, (observed_runs lib run row observed).trans (Runs.one rfl)⟩
  rw [← h, Table.get_modify, Table.get_applyAll, hrow, List.filter_map, foldl_result_some,
    Option.map_some, List.foldl_map]
  rfl

end Folding

end Shapoclyack.FindingEvents
