import Shapoclyack.ClosureInvariant

set_option autoImplicit false

namespace Shapoclyack.Acceptances

open ReportEntries VerificationArtifacts VulnStates Findings FindingFold FoldEffects Lifecycle
open SoftwareFindings LifecycleMachine FindingEvents TrackerTransactions ClosureInvariant Library

def onAcceptance : Op → Bool
  | .single (.exceptionRequested _ _ _ _) _ => true
  | .single (.exceptionApproved _ _ _) _ => true
  | .single (.exceptionRejected _ _ _) _ => true
  | .single (.exceptionWithdrawn _ _) _ => true
  | .single (.exceptionRevoked _ _ _) _ => true
  | .single (.exceptionSwept _) _ => true
  | _ => false

def asksOrGrants : Op → Bool
  | .single (.exceptionRequested _ _ _ _) _ => true
  | .single (.exceptionApproved _ _ _) _ => true
  | _ => false

theorem asksOrGrants_of_not_onAcceptance {op : Op} (h : onAcceptance op = false) :
    asksOrGrants op = false := by
  unfold asksOrGrants
  split <;> first | rfl | simp [onAcceptance] at h

/-- Everything one transaction can do to the `exception_*` columns of a finding. -/
inductive Touched (lib : CoverageText) (row : Vulnerability) : Op → Vulnerability → Prop where
  | kept {op : Op} {row' : Vulnerability} (hop : asksOrGrants op = false)
      (hexc : row'.exception = row.exception)
       (hclosed : row'.state = .CLOSED → row.state = .CLOSED) : Touched lib row op row'
  | closed {op : Op} {row' : Vulnerability} (hop : onAcceptance op = false)
      (hbefore : row.state ≠ .CLOSED) (hafter : row'.state = .CLOSED)
      (hexc : row'.exception = (dropException row).exception) : Touched lib row op row'
  | patched {ctx : DeviceContext} {row' : Vulnerability}
      (hcloses : closes lib.toTrackerText ctx row = true) (hafter : row'.state = .CLOSED)
      (hexc : row'.exception = (closeAsPatched ctx row).exception) :
      Touched lib row (.inventoryFold ctx) row'
  | requested {until_ now : ℤ} {reason actor : Option String} {row' : Vulnerability}
      (hopen : row.state ≠ .CLOSED) (hstate : row'.state = row.state)
      (hexc : row'.exception = { row.exception with
        state := .requested
        requestedBy := actor
        requestedAt := some now
        requestedUntil := some until_
        requestedReason := some (clip 2000 (lib.strip (text reason)))
        decidedBy := none
        decidedAt := none
        decisionNote := none }) :
      Touched lib row (.single (.exceptionRequested until_ reason actor now) rfl) row'
  | approved {actor : String} {note : Option String} {now until_ : ℤ} {row' : Vulnerability}
      (hpending : row.exception.state = .requested)
      (hperson : samePerson lib.toText row.exception.requestedBy (some actor) = false)
      (huntil : row.exception.requestedUntil = some until_) (hstate : row'.state = row.state)
      (hexc : row'.exception = { row.exception with
        state := .approved
        decidedBy := some actor
        decidedAt := some now
        decisionNote := orNone (clip 2000 (lib.strip (text note)))
        until_ := some until_
        grantedBy := some actor
        reason :=
          if FindingEvidence.truthy row.exception.requestedReason then
            row.exception.requestedReason
          else row.exception.reason
        approvedAt := some now
        approvedRequestedBy := row.exception.requestedBy
        expiredAt := none }) :
      Touched lib row (.single (.exceptionApproved actor note now) rfl) row'
  | rejected {actor : String} {note : Option String} {now : ℤ} {row' : Vulnerability}
      (hpending : row.exception.state = .requested) (hstate : row'.state = row.state)
      (hexc : row'.exception = { row.exception with
        state := .rejected
        decidedBy := some actor
        decidedAt := some now
        decisionNote := orNone (clip 2000 (lib.strip (text note))) }) :
      Touched lib row (.single (.exceptionRejected actor note now) rfl) row'
  | withdrawn {actor : Option String} {now : ℤ} {row' : Vulnerability}
      (hpending : row.exception.state = .requested) (hstate : row'.state = row.state)
      (hexc : row'.exception = { row.exception with
        state := stateBehindARequest row now
        requestedBy := none
        requestedAt := none
        requestedUntil := none
        requestedReason := none }) :
      Touched lib row (.single (.exceptionWithdrawn actor now) rfl) row'
  | revoked {policies : List SlaPolicy} {criticality : Option ℕ} {now : ℤ} {row' : Vulnerability}
      (hgranted : row.exception.until_ ≠ none) (hstate : row'.state = row.state)
      (hexc : row'.exception =
        if row.exception.state = .requested then
          { Acceptance.none with
            state := .requested
            requestedBy := row.exception.requestedBy
            requestedAt := row.exception.requestedAt
            requestedUntil := row.exception.requestedUntil
            requestedReason := row.exception.requestedReason }
        else Acceptance.none) :
      Touched lib row (.single (.exceptionRevoked policies criticality now) rfl) row'
  | swept {now : ℤ} {row' : Vulnerability} (hopen : row.state ≠ .CLOSED)
      (hgranted : row.exception.until_ ≠ none) (hstate : row'.state = row.state)
      (hexc : row'.exception = { row.exception with
        expiredAt := some now
        state :=
          if row.exception.state = .approved then .expired else row.exception.state }) :
      Touched lib row (.single (.exceptionSwept now) rfl) row'

section Effects

variable {lib : CoverageText} {row row' : Vulnerability}

theorem dropException_congr {a b : Vulnerability} (h : a.exception = b.exception) :
    (dropException a).exception = (dropException b).exception := by
  rw [dropException_exception, dropException_exception, h]

theorem Touched.of_lifecycle {op : Op} (hop : asksOrGrants op = false)
    (h : lifecycleOf row' = lifecycleOf row) : Touched lib row op row' := by
  have hstate : row'.state = row.state := congrArg Lifecycle.state h
  have hexc : row'.exception = row.exception := congrArg Lifecycle.exception h
  exact .kept hop hexc fun hclosed => hstate ▸ hclosed

theorem Touched.of_open {op : Op} {new : State} (hop : asksOrGrants op = false)
    (hexc : row'.exception = row.exception) (hstate : row'.state = new)
    (hopen : new ≠ .CLOSED) : Touched lib row op row' :=
  .kept hop hexc fun hafter => absurd (hstate.symm.trans hafter) hopen

theorem Touched.of_reopens {op : Op} (hop : asksOrGrants op = false) (h : Reopens row row') :
    Touched lib row op row' := by
  rcases h with hsame | ⟨hclosed, clock, _, hreopened⟩
  · exact .of_lifecycle hop hsame
  · have hexc : row'.exception = row.exception :=
      (congrArg Lifecycle.exception hreopened).trans (Clock.set_exception _ clock)
    exact .kept hop hexc fun _ => hclosed

theorem closeByHand_touched {op : Op} {base : Vulnerability} {reason : ClosureReason} {now : ℤ}
    (hop : onAcceptance op = false) (hbefore : row.state ≠ .CLOSED)
    (h : lifecycleOf row' = lifecycleOf (closeByHand base reason now))
    (hbase : base.state = .CLOSED) (hexc : base.exception = row.exception) :
    Touched lib row op row' := by
  rw [closeByHand_lifecycle] at h
  have hafter : row'.state = .CLOSED := (congrArg Lifecycle.state h).trans hbase
  have hdrop : row'.exception = (dropException base).exception := congrArg Lifecycle.exception h
  exact .closed hop hbefore hafter (hdrop.trans (dropException_congr hexc))

theorem reopenByHand_exception (base : Vulnerability) (now : ℤ) :
    (reopenByHand base now).exception = base.exception := by
  unfold reopenByHand dropFpVerdictOnReopen
  simp only
  split_ifs <;> rfl

theorem handMove_touched {op : Op} {new : State} {actor : Option String} {reason : ClosureReason}
    {now : ℤ} (hop : onAcceptance op = false) (hmove : canTransition row.state new = true)
    (h : lifecycleOf row' = lifecycleOf
      (if new = .CLOSED then closeByHand (moveTo row new actor now) reason now
        else if row.state = .CLOSED then reopenByHand (moveTo row new actor now) now
        else moveTo row new actor now)) : Touched lib row op row' := by
  have hkeeps := asksOrGrants_of_not_onAcceptance hop
  split_ifs at h with hnew hclosed
  · have hopen : row.state ≠ .CLOSED := by
      intro hclosed
      rw [hnew, hclosed] at hmove
      exact absurd hmove (by decide)
    exact closeByHand_touched hop hopen h hnew rfl
  · have hexc := (congrArg Lifecycle.exception h).trans (reopenByHand_exception _ now)
    exact .kept hkeeps hexc fun _ => hclosed
  · have hstate : row'.state = new := congrArg Lifecycle.state h
    have hexc : row'.exception = row.exception := congrArg Lifecycle.exception h
    exact .of_open hkeeps hexc hstate hnew

theorem transition_touched {new : State} {actor : Option String} {now : ℤ}
    (h : transition new actor now row = .ok row') :
    Touched lib row (.single (.moved new actor now) rfl) row' := by
  obtain ⟨hmove, hrow⟩ := checked_ok h
  exact handMove_touched rfl hmove (congrArg lifecycleOf hrow)

theorem applyTicketStatus_touched {jobStatus : String → Option JobStates.Status}
    {reading : TicketReading} {now : ℤ}
    (h : applyTicketStatus jobStatus reading now row = .ok row') :
    Touched lib row (.single (.ticketRead jobStatus reading now) rfl) row' := by
  unfold applyTicketStatus at h
  split at h
  case h_2 =>
    rw [← Except.ok.inj h]
    exact .kept rfl rfl id
  case h_1 system key _ _ =>
    have hrow := (Except.ok.inj h).symm
    cases hticket : ticketMove jobStatus reading row with
    | none =>
      simp only [hticket] at hrow
      rw [hrow]
      exact .of_lifecycle rfl (recordSync_lifecycle reading now row)
    | some new =>
      simp only [hticket] at hrow
      have hlife := (congrArg lifecycleOf hrow).trans (recordSync_lifecycle reading now _)
      exact handMove_touched rfl (ticketMove_allowed hticket) hlife

theorem markFalsePositive_touched {reason : Option String} {suppressDays : ℕ}
    {actor : Option String} {now : ℤ}
    (h : markFalsePositive lib.toText reason suppressDays actor now row = .ok row') :
    Touched lib row (.single (.falsePositiveMarked reason suppressDays actor now) rfl) row' := by
  unfold markFalsePositive at h
  simp only at h
  split_ifs at h
  obtain ⟨hmove, hrow⟩ := checked_ok h
  have hopen : row.state ≠ .CLOSED := by
    intro hclosed
    rw [hclosed] at hmove
    exact absurd hmove (by decide)
  exact closeByHand_touched rfl hopen (congrArg lifecycleOf hrow) rfl rfl

theorem clearFalsePositive_touched {policies : List SlaPolicy} {criticality : Option ℕ}
    {actor : Option String} {now : ℤ}
    (h : clearFalsePositive policies criticality actor now row = .ok row') :
    Touched lib row (.single (.falsePositiveCleared policies criticality actor now) rfl) row' := by
  unfold clearFalsePositive at h
  simp only at h
  split_ifs at h with hclosed
  simp only [not_or, ne_eq, not_not] at hclosed
  rw [← Except.ok.inj h]
  exact .kept rfl rfl fun _ => hclosed.1

theorem requestException_touched {until_ now : ℤ} {reason actor : Option String}
    (h : requestException lib.toText until_ reason actor now row = .ok row') :
    Touched lib row (.single (.exceptionRequested until_ reason actor now) rfl) row' := by
  obtain ⟨hclosed, rfl⟩ := requestException_ok h
  exact .requested hclosed rfl rfl

theorem approveException_touched {actor : String} {note : Option String} {now : ℤ}
    (h : approveException lib.toText actor note now row = .ok row') :
    Touched lib row (.single (.exceptionApproved actor note now) rfl) row' := by
  obtain ⟨hpending, hperson, until_, hwindow, rfl⟩ := approveException_ok h
  exact .approved hpending hperson hwindow rfl rfl

theorem rejectException_touched {actor : String} {note : Option String} {now : ℤ}
    (h : rejectException lib.toText actor note now row = .ok row') :
    Touched lib row (.single (.exceptionRejected actor note now) rfl) row' := by
  unfold rejectException at h
  obtain ⟨hmove, hrest⟩ := checkedException_ok h
  split_ifs at hrest
  rw [← Except.ok.inj hrest]
  exact .rejected ((canReject_iff _).mp hmove) rfl rfl

theorem withdrawExceptionRequest_touched {actor : Option String} {now : ℤ}
    (h : withdrawExceptionRequest lib.toText actor now row = .ok row') :
    Touched lib row (.single (.exceptionWithdrawn actor now) rfl) row' := by
  unfold withdrawExceptionRequest at h
  split_ifs at h with hpending
  rw [ne_eq, not_not] at hpending
  rw [← Except.ok.inj h]
  exact .withdrawn hpending rfl rfl

theorem clearException_touched {policies : List SlaPolicy} {criticality : Option ℕ} {now : ℤ}
    (h : clearException policies criticality now row = .ok row') :
    Touched lib row (.single (.exceptionRevoked policies criticality now) rfl) row' := by
  unfold clearException at h
  split at h
  case h_1 => simp at h
  case h_2 until_ huntil =>
    have hgranted : row.exception.until_ ≠ none := by simp [huntil]
    simp only at h
    rw [← Except.ok.inj h]
    exact .revoked hgranted rfl rfl

theorem expireException_touched {now : ℤ} (h : expireException now row = .ok row') :
    Touched lib row (.single (.exceptionSwept now) rfl) row' := by
  unfold expireException at h
  split at h
  case isTrue hlapsed =>
    simp only [lapsed, Bool.and_eq_true, decide_eq_true_eq] at hlapsed
    have hgranted : row.exception.until_ ≠ none := by
      intro hnone
      simp [hnone] at hlapsed
    rw [← Except.ok.inj h]
    exact .swept hlapsed.1.1.1 hgranted rfl rfl
  case isFalse =>
    rw [← Except.ok.inj h]
    exact .kept rfl rfl id

theorem settleAwaiting_touched {op : Op} (hop : onAcceptance op = false) (run : Run)
    {folded : Vulnerability} (hfolded : Reopens row folded) :
    Touched lib row op (settleAwaiting lib run folded) := by
  have hkeeps := asksOrGrants_of_not_onAcceptance hop
  unfold settleAwaiting
  split_ifs with hawaits
  case neg => exact .of_reopens hkeeps hfolded
  case pos =>
    have hverifying : folded.state = .VERIFYING := by
      simp only [awaits, Bool.and_eq_true, decide_eq_true_eq] at hawaits
      exact hawaits.1.2
    -- a row still waiting after the observations was not moved by them
    have hsame : lifecycleOf folded = lifecycleOf row := by
      rcases hfolded with hsame | ⟨_, clock, _, hreopened⟩
      · exact hsame
      · have hopen : folded.state = .OPEN :=
          (congrArg Lifecycle.state hreopened).trans (clock.set_state _)
        exact absurd (hverifying.symm.trans hopen) (by decide)
    have hopen : row.state ≠ .CLOSED := by
      have hstate : folded.state = row.state := congrArg Lifecycle.state hsame
      rw [← hstate, hverifying]
      decide
    have hexc : folded.exception = row.exception := congrArg Lifecycle.exception hsame
    have hlife := settle_lifecycle lib run folded
    cases hsettle : settlement lib run folded with
    | failed =>
      rw [hsettle] at hlife
      exact .of_open hkeeps ((congrArg Lifecycle.exception hlife).trans hexc)
        (congrArg Lifecycle.state hlife) (by decide : State.FIXING ≠ .CLOSED)
    | inconclusive =>
      rw [hsettle] at hlife
      exact .of_open hkeeps ((congrArg Lifecycle.exception hlife).trans hexc)
        (congrArg Lifecycle.state hlife) (by decide : State.FIXING ≠ .CLOSED)
    | unreachable =>
      rw [hsettle] at hlife
      have hdrop := congrArg Lifecycle.exception hlife
      exact .closed hop hopen (congrArg Lifecycle.state hlife)
        (hdrop.trans (dropException_congr hexc))
    | verified =>
      rw [hsettle] at hlife
      have hdrop := congrArg Lifecycle.exception hlife
      exact .closed hop hopen (congrArg Lifecycle.state hlife)
        (hdrop.trans (dropException_congr hexc))

theorem inventoryFold_touched (ctx : DeviceContext) :
    Touched lib row (.inventoryFold ctx) (foldRow lib.toTrackerText ctx row) := by
  rcases foldRow_cases lib ctx row with ⟨hcloses, hrow⟩ | hreopens
  · rw [hrow]
    exact .patched hcloses rfl rfl
  · exact .of_reopens rfl hreopens

theorem Op.touched {op : Op} (h : op.run lib row = some row') : Touched lib row op row' := by
  cases op with
  | scanFold run os =>
    rw [← Option.some.inj h]
    exact settleAwaiting_touched rfl run (Reopens.foldl (observe_reopens lib run) _ row)
  | inventoryFold ctx =>
    rw [← Option.some.inj h]
    exact inventoryFold_touched ctx
  | single e hsingle =>
    have happly := stepEvent_eq_some h
    cases e with
    | observed run o => simp [Event.single] at hsingle
    | settled run => simp [Event.single] at hsingle
    | moved new actor now => exact transition_touched happly
    | ticketRead jobStatus reading now => exact applyTicketStatus_touched happly
    | falsePositiveMarked reason suppressDays actor now =>
      exact markFalsePositive_touched happly
    | falsePositiveCleared policies criticality actor now =>
      exact clearFalsePositive_touched happly
    | exceptionRequested until_ reason actor now => exact requestException_touched happly
    | exceptionApproved actor note now => exact approveException_touched happly
    | exceptionRejected actor note now => exact rejectException_touched happly
    | exceptionWithdrawn actor now => exact withdrawExceptionRequest_touched happly
    | exceptionRevoked policies criticality now => exact clearException_touched happly
    | exceptionSwept now => exact expireException_touched happly
    | verificationDispatched seen hostsThen hostsNow job actor now =>
      obtain ⟨_, _, rfl⟩ := dispatchVerification_ok happly
      exact .of_open rfl rfl rfl (by decide : State.VERIFYING ≠ .CLOSED)
    | verificationReleased tenantId jobId now =>
      rw [← Except.ok.inj happly]
      unfold releaseUnfinishedVerification
      split_ifs
      · exact .of_open rfl rfl rfl (by decide : State.FIXING ≠ .CLOSED)
      · exact .kept rfl rfl id

end Effects

section Erasure

variable {lib : CoverageText} {row row' start : Vulnerability} {ops : List Op}

/-- A finding without a workflow has an empty acceptance, and every closed one is such. -/
structure Erased (row : Vulnerability) : Prop where
  closed : row.state = .CLOSED → row.exception.state = .none
  empty : row.exception.state = .none → row.exception = Acceptance.none
  ungranted : row.exception.until_ = none →
    row.exception.reason = none ∧ row.exception.grantedBy = none ∧
      row.exception.approvedAt = none ∧ row.exception.approvedRequestedBy = none ∧
      row.exception.expiredAt = none
  undecided : row.exception.state = .requested →
    row.exception.decidedBy = none ∧ row.exception.decidedAt = none ∧
      row.exception.decisionNote = none

theorem Erased.of_none (h : row.exception = Acceptance.none) : Erased row where
  closed := fun _ => by rw [h]; rfl
  empty := fun _ => h
  ungranted := fun _ => by rw [h]; exact ⟨rfl, rfl, rfl, rfl, rfl⟩
  undecided := fun hstate => by rw [h] at hstate; exact absurd hstate (by decide)

theorem Erased.of_created (h : Created lib row) : Erased row := by
  cases h <;> exact .of_none rfl

theorem Erased.open_of_pending (inv : Erased row) (h : row.exception.state = .requested) :
    row.state ≠ .CLOSED := by
  intro hclosed
  exact absurd ((inv.closed hclosed).symm.trans h) (by decide)

theorem Erased.state_of_granted (inv : Erased row) (h : row.exception.until_ ≠ none) :
    row.exception.state ≠ .none := by
  intro hstate
  rw [inv.empty hstate] at h
  exact h rfl

theorem Erased.drop (inv : Erased row) : (dropException row).exception = Acceptance.none := by
  rw [dropException_exception]
  split_ifs with h
  · exact inv.empty h.2
  · rfl

theorem Erased.withdrawn_empty (inv : Erased row) {now : ℤ}
    (hpending : row.exception.state = .requested)
    (hstate : stateBehindARequest row now = .none) :
    ({ row.exception with
        state := stateBehindARequest row now
        requestedBy := none
        requestedAt := none
        requestedUntil := none
        requestedReason := none } : Acceptance) = Acceptance.none := by
  have huntil : row.exception.until_ = none := by
    unfold stateBehindARequest at hstate
    split at hstate
    case h_1 h => exact h
    case h_2 => split_ifs at hstate
  obtain ⟨hreason, hby, hat, hfiler, hexpired⟩ := inv.ungranted huntil
  obtain ⟨hdecider, hdecided, hnote⟩ := inv.undecided hpending
  simp only [hstate, huntil, hreason, hby, hat, hfiler, hexpired, hdecider, hdecided, hnote]
  rfl

theorem stateBehindARequest_decided (row : Vulnerability) (now : ℤ) :
    stateBehindARequest row now ≠ .requested := by
  unfold stateBehindARequest
  split
  case h_1 => decide
  case h_2 => split_ifs <;> decide

theorem Erased.of_workflow {s : ExceptionState} (hworkflow : row.exception.state = s)
    (hs : s ≠ .none) (hopen : row.state ≠ .CLOSED)
    (hungranted : row.exception.until_ = none →
      row.exception.reason = none ∧ row.exception.grantedBy = none ∧
        row.exception.approvedAt = none ∧ row.exception.approvedRequestedBy = none ∧
        row.exception.expiredAt = none)
    (hundecided : row.exception.state = .requested →
      row.exception.decidedBy = none ∧ row.exception.decidedAt = none ∧
        row.exception.decisionNote = none) : Erased row where
  closed := fun hclosed => absurd hclosed hopen
  empty := fun hnone => absurd (hworkflow.symm.trans hnone) hs
  ungranted := hungranted
  undecided := hundecided

/-- The inventory closes as patched only findings with no acceptance, asked for or in force. -/
def patchesUnaccepted (lib : CoverageText) (row : Vulnerability) : Op → Prop
  | .inventoryFold ctx =>
    closes lib.toTrackerText ctx row = true → row.exception.state = .none
  | _ => True

theorem Erased.step {op : Op} (inv : Erased row) (hguard : patchesUnaccepted lib row op)
    (h : Touched lib row op row') : Erased row' := by
  cases h with
  | kept _ hexc hclosed =>
    exact {
      closed := fun hafter => by rw [hexc]; exact inv.closed (hclosed hafter)
      empty := by rw [hexc]; exact inv.empty
      ungranted := by rw [hexc]; exact inv.ungranted
      undecided := by rw [hexc]; exact inv.undecided }
  | closed _ _ _ hexc => exact .of_none (hexc.trans inv.drop)
  | patched hcloses _ hexc =>
    have hnone := inv.empty (hguard hcloses)
    refine .of_none (hexc.trans ?_)
    unfold closeAsPatched
    simp only [hnone]
    rfl
  | requested hopen hstate hexc =>
    have hworkflow : row'.exception.state = .requested := congrArg Acceptance.state hexc
    refine .of_workflow hworkflow (by decide) (hstate ▸ hopen) ?_ fun _ => ?_
    · rw [hexc]
      exact inv.ungranted
    · rw [hexc]
      exact ⟨rfl, rfl, rfl⟩
  | approved hpending _ _ hstate hexc =>
    have hworkflow : row'.exception.state = .approved := congrArg Acceptance.state hexc
    have hgranted := congrArg Acceptance.until_ hexc
    refine .of_workflow hworkflow (by decide) (hstate ▸ inv.open_of_pending hpending) ?_ ?_
    · exact fun hnone => absurd (hgranted.symm.trans hnone) (by simp)
    · exact fun hreq => absurd (hworkflow.symm.trans hreq) (by decide)
  | rejected hpending hstate hexc =>
    have hworkflow : row'.exception.state = .rejected := congrArg Acceptance.state hexc
    refine .of_workflow hworkflow (by decide) (hstate ▸ inv.open_of_pending hpending) ?_ ?_
    · rw [hexc]
      exact inv.ungranted
    · exact fun hreq => absurd (hworkflow.symm.trans hreq) (by decide)
  | @withdrawn _ now _ hpending hstate hexc =>
    have hworkflow : row'.exception.state = stateBehindARequest row now :=
      congrArg Acceptance.state hexc
    by_cases hbehind : stateBehindARequest row now = .none
    · exact .of_none (hexc.trans (inv.withdrawn_empty hpending hbehind))
    · refine .of_workflow hworkflow hbehind (hstate ▸ inv.open_of_pending hpending) ?_ ?_
      · rw [hexc]
        exact inv.ungranted
      · exact fun hreq => absurd (hworkflow.symm.trans hreq) (stateBehindARequest_decided row now)
  | revoked hgranted hstate hexc =>
    have hopen : row.state ≠ .CLOSED := fun hclosed =>
      inv.state_of_granted hgranted (inv.closed hclosed)
    by_cases hpending : row.exception.state = .requested
    · rw [if_pos hpending] at hexc
      have hworkflow : row'.exception.state = .requested := congrArg Acceptance.state hexc
      refine .of_workflow hworkflow (by decide) (hstate ▸ hopen) (fun _ => ?_) fun _ => ?_
      · rw [hexc]
        exact ⟨rfl, rfl, rfl, rfl, rfl⟩
      · rw [hexc]
        exact ⟨rfl, rfl, rfl⟩
    · rw [if_neg hpending] at hexc
      exact .of_none hexc
  | swept hopen hgranted hstate hexc =>
    have hbefore := inv.state_of_granted hgranted
    have huntil := congrArg Acceptance.until_ hexc
    have hworkflow := congrArg Acceptance.state hexc
    simp only at hworkflow
    refine .of_workflow hworkflow ?_ (hstate ▸ hopen) ?_ ?_
    · split_ifs
      · decide
      · exact hbefore
    · exact fun hnone => absurd (huntil.symm.trans hnone) hgranted
    · intro hreq
      have hpending : row.exception.state = .requested := by
        rw [hworkflow] at hreq
        split_ifs at hreq
        exact hreq
      rw [hexc]
      exact inv.undecided hpending

abbrev erasingStep (lib : CoverageText) : Vulnerability → Op → Vulnerability → Prop :=
  guarded (serialStep lib) (patchesUnaccepted lib)

theorem reachable_erased (hcreated : Created lib start)
    (h : Runs (erasingStep lib) start ops row) : Erased row :=
  h.invariant Erased (fun _ _ _ inv hstep => inv.step hstep.1 (Op.touched hstep.2))
    (.of_created hcreated)

theorem Erased.refused {op : Op} (inv : Erased row) (hclosed : row.state = .CLOSED)
    (hop : asksOrGrants op = true) : ¬ serialStep lib row op row' := by
  intro h
  cases Op.touched h with
  | requested hopen _ _ => exact hopen hclosed
  | approved hpending _ _ _ _ => exact inv.open_of_pending hpending hclosed
  | kept hkeeps _ _ => exact absurd (hkeeps.symm.trans hop) (by decide)
  | closed hother _ _ _ =>
    exact absurd ((asksOrGrants_of_not_onAcceptance hother).symm.trans hop) (by decide)
  | _ => simp [asksOrGrants] at hop

/-- While no finding is patched under an acceptance, a closed one has none and can get none. -/
theorem closed_without_acceptance (hcreated : Created lib start)
    (h : Runs (erasingStep lib) start ops row) (hclosed : row.state = .CLOSED) :
    row.exception = Acceptance.none ∧
      ∀ op row', asksOrGrants op = true → ¬ serialStep lib row op row' := by
  have inv := reachable_erased hcreated h
  exact ⟨inv.empty (inv.closed hclosed), fun op row' hop => inv.refused hclosed hop⟩

def ask : Op := .single (.exceptionRequested 100 (some "no patch yet") (some "alice") 5) rfl

def grant : Op := .single (.exceptionApproved "bob" none 20) rfl

def close : Op := .single (.moved .CLOSED (some "alice") 8) rfl

def serial (ops : List Op) : Vulnerability :=
  runFrom (fun row op => Op.run asciiLibrary op row) behind ops

theorem serial_runs (ok : Vulnerability → Op → Prop) {ops : List Op}
    (hok : ∀ op ∈ ops, ∀ row, ok row op)
    (h : (ops.foldlM (fun row op => Op.run asciiLibrary op row) behind).isSome = true) :
    Runs (guarded (serialStep asciiLibrary) ok) behind ops (serial ops) :=
  .of_runFrom _ ok hok h

/-- The inventory patches a finding over a request that waits, and the request is granted then. -/
theorem patched_over_request :
    Created asciiLibrary behind ∧
      Runs (serialStep asciiLibrary) behind [ask, patchedFold] (serial [ask, patchedFold]) ∧
      (serial [ask, patchedFold]).state = .CLOSED ∧
      (serial [ask, patchedFold]).exception.state = .requested ∧
      (serial [ask, patchedFold]).exception.requestedBy = some "alice" ∧
      Runs (serialStep asciiLibrary) behind [ask, patchedFold, grant]
        (serial [ask, patchedFold, grant]) ∧
      (serial [ask, patchedFold, grant]).state = .CLOSED ∧
      (serial [ask, patchedFold, grant]).exception.until_ = some 100 := by
  refine ⟨.byInventory (inventoryAt 0 [openssl]) openssl, ?_, ?_, ?_, ?_, ?_, ?_, ?_⟩
  · exact (serial_runs (fun _ _ => True) (fun _ _ _ => trivial) (by decide +kernel)).of_guarded
  · decide +kernel
  · decide +kernel
  · decide +kernel
  · exact (serial_runs (fun _ _ => True) (fun _ _ _ => trivial) (by decide +kernel)).of_guarded
  · decide +kernel
  · decide +kernel

theorem closed_over_request :
    (serial [ask, close]).state = .CLOSED ∧
      (serial [ask, close]).exception = Acceptance.none ∧
      ∀ op row', asksOrGrants op = true →
        ¬ serialStep asciiLibrary (serial [ask, close]) op row' := by
  have hclosed : (serial [ask, close]).state = .CLOSED := by decide +kernel
  have hrun : Runs (erasingStep asciiLibrary) behind [ask, close] (serial [ask, close]) := by
    refine serial_runs _ ?_ (by decide +kernel)
    intro op hop row
    simp only [List.mem_cons, List.not_mem_nil, or_false] at hop
    rcases hop with rfl | rfl <;> exact trivial
  exact ⟨hclosed,
    closed_without_acceptance (.byInventory (inventoryAt 0 [openssl]) openssl) hrun hclosed⟩

end Erasure

end Shapoclyack.Acceptances
