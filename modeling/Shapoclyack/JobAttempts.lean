import Shapoclyack.SlotCeiling

set_option autoImplicit false

namespace Shapoclyack.JobAttempts

open JobStates Jobs JobConcurrency IngestFencing SlotCeiling Library

section HandOuts

variable (s : Settings)

def localOp : JobOp → Bool
  | .startLocal _ _ _ => true
  | .finishLocal _ _ => true
  | .failLocal _ _ => true
  | _ => false

def agentAccess : Access Job JobOp → Prop
  | .locked op => localOp op = false
  | _ => True

def agentStep (st : Shared Job) (a : Access Job JobOp) (st' : Shared Job) : Prop :=
  agentAccess a ∧ jobStep s st a st'

abbrev landingAgentStep : Shared Job → Access Job JobOp → Shared Job → Prop :=
  guarded (agentStep s) (lands s)

def isClaim : JobOp → Bool
  | .claim _ _ => true
  | _ => false

def handsOut : Access Job JobOp → Bool
  | .locked op => isClaim op
  | _ => false

structure Submitted (row : Job) : Prop where
  execution : row.execution = .agent
  status : row.status = .queued
  attempts : row.attempts = 0
  assigned : row.assignedAgentId = none
  lease : row.claimedUntil = none
  token : row.ingestToken = none

/-- What waits on the queue has a hand-out left and nothing of an earlier one, and what is out has a
lease that can expire. -/
structure Handed (row : Job) : Prop where
  execution : row.execution = .agent
  bounded : row.attempts ≤ s.jobMaxAttempts
  queued : row.status = .queued → row.attempts < s.jobMaxAttempts ∧ row.assignedAgentId = none ∧
    row.claimedUntil = none ∧ row.ingestToken = none
  leased : inFlight row.status = true → row.claimedUntil ≠ none

end HandOuts

section Operations

variable {s : Settings} {row row' : Job}

theorem Handed.submitted (h : Submitted row) (hmax : 1 ≤ s.jobMaxAttempts) : Handed s row where
  execution := h.execution
  bounded := by
    have := h.attempts
    omega
  queued _ := by
    have := h.attempts
    exact ⟨by omega, h.assigned, h.lease, h.token⟩
  leased hflight := by
    rw [h.status] at hflight
    cases hflight

theorem Handed.closed (inv : Handed s row) (hexecution : row'.execution = row.execution)
    (hattempts : row'.attempts = row.attempts) (hqueued : row'.status ≠ .queued)
    (hflight : inFlight row'.status = false) : Handed s row' where
  execution := hexecution.trans inv.execution
  bounded := hattempts ▸ inv.bounded
  queued h := absurd h hqueued
  leased h := by
    rw [hflight] at h
    cases h

theorem Handed.finished (inv : Handed s row) (h : Finished row row') : Handed s row' := by
  refine inv.closed (Finished.fenced h).execution h.attempts ?_ ?_
  · intro hqueued
    have hended := h.ended
    rw [hqueued] at hended
    cases hended
  · cases hflight : inFlight row'.status with
    | false => rfl
    | true =>
      have hopen := inFlight_not_terminal hflight
      rw [h.ended] at hopen
      cases hopen

theorem Handed.stays (inv : Handed s row) (hexecution : row'.execution = row.execution)
    (hattempts : row'.attempts = row.attempts) (hstatus : row'.status = row.status)
    (hqueued : row.status = .queued → row'.assignedAgentId = none ∧ row'.claimedUntil = none ∧
      row'.ingestToken = none)
    (hflight : inFlight row.status = true → row'.claimedUntil ≠ none) : Handed s row' where
  execution := hexecution.trans inv.execution
  bounded := hattempts ▸ inv.bounded
  queued h := by
    rw [hstatus] at h
    exact ⟨hattempts ▸ (inv.queued h).1, hqueued h⟩
  leased h := by
    rw [hstatus] at h
    exact hflight h

theorem claimJob_handed {claimant : Claimant} {now : ℤ} (inv : Handed s row)
    (h : claimJob s claimant now row = some row') :
    Handed s row' ∧ row'.attempts = row.attempts + 1 := by
  unfold claimJob at h
  split at h
  · next hclaim =>
    simp only [eligible, Bool.and_eq_true, beq_iff_eq] at hclaim
    have hleft := (inv.queued hclaim.1.1.1.1.2).1
    rw [← Option.some.inj h]
    refine ⟨⟨inv.execution, ?_, ?_, ?_⟩, rfl⟩
    · exact hleft
    · intro hqueued
      cases hqueued
    · intro _ hlease
      cases hlease
  · cases h

theorem cancelJob_handed {username : String} {now : ℤ} (inv : Handed s row)
    (h : cancelJob s username now row = .ok row') :
    Handed s row' ∧ row'.attempts = row.attempts := by
  unfold cancelJob at h
  by_cases hstopping : row.status = .cancelling
  · rw [if_pos hstopping] at h
    rw [← Except.ok.inj h]
    split_ifs
    · exact ⟨inv.closed rfl rfl (by rw [clearIngest, hstopping]; decide)
        (by rw [clearIngest, hstopping]; rfl), rfl⟩
    · exact ⟨inv, rfl⟩
  · rw [if_neg hstopping] at h
    split at h
    case isTrue => cases h
    case isFalse =>
      split at h
      case h_1 => cases h
      case h_2 =>
        split at h
        all_goals
          rw [← Except.ok.inj h]
          exact ⟨inv.closed rfl rfl (fun hqueued => nomatch hqueued) rfl, rfl⟩

theorem extendLease_claimed (row : Job) (deadline : ℤ) :
    (extendLease row deadline).claimedUntil ≠ none := by
  unfold extendLease
  split
  · simp
  · next held hheld =>
    split_ifs
    · simp
    · rw [hheld]
      simp

theorem beginUpload_handed {u : Upload} {token : String} {now : ℤ} {t : Ticket}
    (inv : Handed s row) (h : beginUpload s token now u row = .ok (some (row', t))) :
    Handed s row' ∧ row'.attempts = row.attempts := by
  have hsame := begin_quiet h
  have ⟨_, howner, _, _, _, _, reserved, hreserve, _, hrow⟩ := beginUpload_ok h
  have hstatus : reserved.status = row.status := by rw [reserve_columns hreserve]
  refine ⟨inv.stays (congrArg (fun i => i.2.2) hsame.identity) hsame.attempts hsame.status
    (fun hqueued => ?_) (fun hflight => ?_), hsame.attempts⟩
  · rw [(inv.queued hqueued).2.1] at howner
    cases howner
  · rw [hrow, openIngestLease]
    simp only [hstatus, hflight, if_true]
    exact extendLease_claimed _ _

theorem recordLate_handed {u : Upload} {t : Ticket} (inv : Handed s row)
    (h : recordLateCancellationArchive u t row = .ok row') :
    Handed s row' ∧ row'.attempts = row.attempts := by
  unfold recordLateCancellationArchive at h
  simp only at h
  split at h
  case isTrue => cases h
  case isFalse =>
    rw [← Except.ok.inj h]
    refine ⟨inv.stays rfl rfl rfl (fun hqueued => ?_) inv.leased, rfl⟩
    have hwaiting := (inv.queued hqueued).2
    exact ⟨hwaiting.1, hwaiting.2.1, rfl⟩

theorem releaseReservation_handed {key : String} {late : Bool} (inv : Handed s row) :
    Handed s (releaseResultsReservation key late row) ∧
      (releaseResultsReservation key late row).attempts = row.attempts := by
  unfold releaseResultsReservation
  split_ifs
  · exact ⟨inv.stays rfl rfl rfl (fun hqueued => (inv.queued hqueued).2) inv.leased, rfl⟩
  · exact ⟨inv, rfl⟩

theorem releaseLease_handed {fence : IngestLease} {now : ℤ} (inv : Handed s row) :
    Handed s (releaseIngestLease s fence now row) ∧
      (releaseIngestLease s fence now row).attempts = row.attempts := by
  unfold releaseIngestLease
  split_ifs with hother hflight
  · exact ⟨inv, rfl⟩
  · refine ⟨inv.stays rfl rfl rfl (fun hqueued => ?_) (fun _ hlease => nomatch hlease), rfl⟩
    rw [hqueued] at hflight
    cases hflight
  · refine ⟨inv.stays rfl rfl rfl (fun hqueued => ?_) inv.leased, rfl⟩
    have hwaiting := (inv.queued hqueued).2
    exact ⟨hwaiting.1, hwaiting.2.1, rfl⟩

theorem reapLease_handed {now : ℤ} (inv : Handed s row) :
    Handed s (reapExpiredLease s now row) ∧
      (reapExpiredLease s now row).attempts = row.attempts := by
  unfold reapExpiredLease
  split_ifs with hexpired hretry
  · refine ⟨⟨inv.execution, inv.bounded, ?_, ?_⟩, rfl⟩
    · exact fun _ => ⟨hretry.2, rfl, rfl, rfl⟩
    · exact fun hflight => nomatch hflight
  · exact ⟨inv.closed rfl rfl (fun hqueued => nomatch hqueued) rfl, rfl⟩
  · exact ⟨inv, rfl⟩

theorem reapCancellation_handed {now : ℤ} (inv : Handed s row) :
    Handed s (reapStaleCancellation s now row) ∧
      (reapStaleCancellation s now row).attempts = row.attempts := by
  unfold reapStaleCancellation
  split_ifs
  · exact ⟨inv.closed rfl rfl (fun hqueued => nomatch hqueued) rfl, rfl⟩
  · exact ⟨inv, rfl⟩

/-- One case for each operation that holds the row's lock: only a claim counts an attempt. -/
theorem locked_handed {op : JobOp} (inv : Handed s row) (hlocked : op.unlocked = false)
    (hagent : localOp op = false) (h : op.run s row = some row') :
    Handed s row' ∧ row'.attempts = row.attempts + (isClaim op).toNat := by
  cases op with
  | heartbeat | renew => cases hlocked
  | startLocal | finishLocal | failLocal => cases hagent
  | claim claimant now => exact claimJob_handed inv h
  | cancel username now => exact cancelJob_handed inv (toOption_eq_some h)
  | begin u token now =>
    simp only [JobOp.run] at h
    split at h
    · next begun hbegin =>
      rw [← Option.some.inj h]
      exact beginUpload_handed (t := begun.2) inv hbegin
    · cases h
  | accept u t now =>
    have hfinished := (acceptUpload_ok (toOption_eq_some h)).2
    exact ⟨inv.finished hfinished, hfinished.attempts⟩
  | reject u t rejection now =>
    have hfinished := (failRejectedUpload_ok (toOption_eq_some h)).2
    exact ⟨inv.finished hfinished, hfinished.attempts⟩
  | lateArchive u t => exact recordLate_handed inv (toOption_eq_some h)
  | releaseReservation key late =>
    rw [← Option.some.inj h]
    exact releaseReservation_handed inv
  | releaseLease fence now =>
    rw [← Option.some.inj h]
    exact releaseLease_handed inv
  | reapLease now =>
    rw [← Option.some.inj h]
    exact reapLease_handed inv
  | reapCancellation now =>
    rw [← Option.some.inj h]
    exact reapCancellation_handed inv

end Operations

section Heartbeats

variable {s : Settings} {row seen new : Job} {op : JobOp}

structure Beat (seen new : Job) : Prop where
  identity : identityOf new = identityOf seen
  attempts : new.attempts = seen.attempts
  assigned : new.assignedAgentId = seen.assignedAgentId
  token : new.ingestToken = seen.ingestToken
  status : new.status = seen.status ∨ new.status = .running
  lease : new.claimedUntil ≠ none

theorem extendLease_beat (row : Job) (deadline : ℤ) : Beat row (extendLease row deadline) := by
  refine ⟨(extendLease_fenced row deadline).identity, ?_, ?_, ?_, .inl ?_,
    extendLease_claimed row deadline⟩
  all_goals rw [extendLease_columns]

theorem unlocked_beat (hop : op.unlocked = true) (h : op.run s seen = some new) :
    new = seen ∨ Beat seen new := by
  cases op with
  | heartbeat agentId now =>
    rw [← Option.some.inj h]
    have hbeat := extendLease_beat seen (leaseDeadline s now)
    unfold markRunning
    simp only
    split_ifs
    · exact .inl rfl
    · exact .inl rfl
    · exact .inr hbeat
    all_goals
      exact .inr ⟨hbeat.identity, hbeat.attempts, hbeat.assigned, hbeat.token, .inr rfl,
        hbeat.lease⟩
  | renew agentId now =>
    rw [← Option.some.inj h]
    unfold renewLease
    split_ifs
    · exact .inl rfl
    · split
      · split_ifs
        · exact .inl rfl
        · exact .inr (extendLease_beat seen _)
      · exact .inr (extendLease_beat seen _)
  | _ => cases hop

/-- The UPDATE of a heartbeat, on a row that is out. -/
theorem overlay_handed (inv : Handed s row) (h : Beat seen new)
    (hflight : inFlight row.status = true) : Handed s (overlay row seen new) := by
  have hidentity : identityOf (overlay row seen new) = identityOf row :=
    overlay_identity h.identity
  have hattempts : (overlay row seen new).attempts = row.attempts := by
    simp only [overlay, h.attempts, column_unchanged]
  refine ⟨(congrArg (fun i => i.2.2) hidentity).trans inv.execution, ?_, fun hqueued => ?_, ?_⟩
  · rw [hattempts]
    exact inv.bounded
  · have hstatus : (overlay row seen new).status = row.status ∨
        (overlay row seen new).status = .running := by
      simp only [overlay, column]
      split_ifs with hsame
      · exact .inl rfl
      · exact .inr (h.status.resolve_left hsame)
    rw [hqueued] at hstatus
    cases hstatus with
    | inl hsame =>
      rw [← hsame] at hflight
      cases hflight
    | inr hrunning => cases hrunning
  · intro _
    simp only [overlay, column]
    split_ifs
    · exact inv.leased hflight
    · exact h.lease

theorem overlay_attempts (h : Beat seen new) :
    (overlay row seen new).attempts = row.attempts := by
  simp only [overlay, h.attempts, column_unchanged]

end Heartbeats

section Runs

variable {s : Settings} {st st' : Shared Job} {a : Access Job JobOp} {as : List (Access Job JobOp)}

/-- One access keeps what is handed out in order, and only a claim counts an attempt. -/
theorem step_handed (inv : Handed s st.row) (h : landingAgentStep s st a st') :
    Handed s st'.row ∧ st'.row.attempts = st.row.attempts + (handsOut a).toNat := by
  have ⟨hlands, hagent, hkind, hstep⟩ := h
  cases hstep with
  | read => exact ⟨inv, rfl⟩
  | locked ran => exact locked_handed inv hkind hagent ran
  | @write seen new op _ ran =>
    cases unlocked_beat hkind ran with
    | inl hsame =>
      rw [hsame, overlay_unchanged]
      exact ⟨inv, rfl⟩
    | inr hbeat =>
      refine ⟨?_, overlay_attempts hbeat⟩
      cases hlands with
      | inl hempty =>
        rw [Option.some.inj (ran.symm.trans hempty), overlay_unchanged]
        exact inv
      | inr hout => exact overlay_handed inv hbeat hout.1

theorem runs_handed (inv : Handed s st.row) (h : Runs (landingAgentStep s) st as st') :
    Handed s st'.row ∧ st'.row.attempts = st.row.attempts + as.countP handsOut := by
  induction h with
  | refl st => exact ⟨inv, rfl⟩
  | next hstep _ ih =>
    have ⟨hnext, hattempts⟩ := step_handed inv hstep
    have ⟨hend, hcount⟩ := ih hnext
    refine ⟨hend, ?_⟩
    rw [hcount, hattempts, List.countP_cons]
    cases handsOut _ <;> simp only [Bool.toNat, cond, Bool.false_eq_true, if_true, if_false] <;>
      omega

/-- A hand-out that is over stays over: what is out later is another one. -/
def Over (row row' : Job) : Prop :=
  row.attempts ≤ row'.attempts ∧
    (inFlight row.status = false → row'.attempts = row.attempts → inFlight row'.status = false)

theorem Over.refl (row : Job) : Over row row := ⟨le_refl _, fun h _ => h⟩

theorem Over.trans {a b c : Job} (hab : Over a b) (hbc : Over b c) : Over a c := by
  refine ⟨hab.1.trans hbc.1, fun hflight hattempts => ?_⟩
  have hle := hab.1
  have hle' := hbc.1
  exact hbc.2 (hab.2 hflight (by omega)) (by omega)

theorem inFlight_of_moves {current new : Status} (h : Moves current new)
    (hout : inFlight current = false) (hnew : inFlight new = true) : current = .queued := by
  revert h hout hnew
  unfold Moves
  cases current <;> cases new <;> decide

theorem slotOp_of_agent {op : JobOp} (hclaim : isClaim op = false) (hagent : localOp op = false) :
    slotOp op = false := by
  cases op with
  | claim => exact nomatch hclaim
  | startLocal => exact nomatch hagent
  | _ => rfl

theorem step_over (inv : Handed s st.row) (h : landingAgentStep s st a st') :
    Over st.row st'.row := by
  have hattempts := (step_handed inv h).2
  have ⟨hlands, hagent, hstep⟩ := h
  have hmoves := (landingStep_sound (s := s) ⟨hlands, hstep⟩).moves
  refine ⟨by omega, fun hout hsame => ?_⟩
  cases hnew : inFlight st'.row.status with
  | false => rfl
  | true =>
    -- only a claim takes a job off the queue, and it counts an attempt
    have hqueued := inFlight_of_moves hmoves hout hnew
    cases hstep.2 with
    | read =>
      rw [hout] at hnew
      cases hnew
    | @write seen new op _ ran =>
      cases hlands with
      | inl hempty =>
        rw [Option.some.inj (ran.symm.trans hempty), overlay_unchanged, hout] at hnew
        cases hnew
      | inr hheld =>
        rw [hout] at hheld
        cases hheld.1
    | @locked new op ran =>
      cases hclaim : isClaim op with
      | true =>
        rw [handsOut, hclaim] at hattempts
        have hcounted : new.attempts = st.row.attempts + 1 := hattempts
        have hkept : new.attempts = st.row.attempts := hsame
        omega
      | false =>
        have hlocked : op.unlocked = false := hstep.1
        have hslot : ¬ (op.unlocked = true ∨ slotOp op = true) := by
          rw [hlocked, slotOp_of_agent hclaim hagent]
          decide
        have hheld := (locked_keepsSlot hslot ran).held (occupying_of_inFlight hnew)
        rw [hqueued] at hheld
        cases hheld

theorem runs_over (inv : Handed s st.row) (h : Runs (landingAgentStep s) st as st') :
    Over st.row st'.row := by
  induction h with
  | refl st => exact .refl st.row
  | next hstep _ ih => exact (step_over inv hstep).trans (ih (step_handed inv hstep).1)

theorem reapLease_expired {now deadline : ℤ} {row : Job} (hagent : row.execution = .agent)
    (hflight : inFlight row.status = true) (hlease : row.claimedUntil = some deadline)
    (hexpired : deadline < now) :
    (reapExpiredLease s now row).status =
      if row.attempts < s.jobMaxAttempts then .queued else .failed := by
  have htaken : leaseExpired s now row = true := by
    rw [leaseExpired, hflight, hlease, before, decide_eq_true hexpired]
    rfl
  unfold reapExpiredLease
  rw [if_pos htaken]
  by_cases hleft : row.attempts < s.jobMaxAttempts
  · rw [if_pos ⟨hagent, hleft⟩, if_pos hleft]
  · rw [if_neg (fun h => hleft h.2), if_neg hleft]

theorem not_inFlight_reaped (s : Settings) (attempts : ℕ) :
    inFlight (if attempts < s.jobMaxAttempts then .queued else .failed) = false := by
  split_ifs <;> rfl

/-- While heartbeats land on jobs still out with their agent: no job is handed out more often than
it may be; whatever is out has a lease, and the sweep that finds it expired takes the hand-out back
or writes the job off; what is out after that is another hand-out; and nothing of an earlier
hand-out is left on a queued job. -/
theorem hand_outs_bounded {start : Job} (hstart : Submitted start) (hmax : 1 ≤ s.jobMaxAttempts)
    (h : Runs (landingAgentStep s) ⟨start, []⟩ as st) :
    as.countP handsOut ≤ s.jobMaxAttempts ∧
    (inFlight st.row.status = true → ∃ deadline, st.row.claimedUntil = some deadline ∧
      ∀ now, deadline < now → ∃ st', landingAgentStep s st (.locked (.reapLease now)) st' ∧
        (st'.row.status = if st.row.attempts < s.jobMaxAttempts then .queued else .failed) ∧
        ∀ later st'', Runs (landingAgentStep s) st' later st'' →
          inFlight st''.row.status = true → st.row.attempts < st''.row.attempts) ∧
    (st.row.status = .queued → st.row.assignedAgentId = none ∧ st.row.claimedUntil = none ∧
      ∀ fence, ingestFenceHolds fence st.row = false) := by
  have ⟨inv, hcount⟩ := runs_handed (Handed.submitted hstart hmax) h
  have hattempts := hstart.attempts
  refine ⟨?_, fun hflight => ?_, fun hqueued => ?_⟩
  · have hbounded := inv.bounded
    simp only at hcount
    omega
  · cases hlease : st.row.claimedUntil with
    | none => exact absurd hlease (inv.leased hflight)
    | some deadline =>
      refine ⟨deadline, rfl, fun now hexpired => ?_⟩
      have hreaped := reapLease_expired (s := s) inv.execution hflight hlease hexpired
      have hsweep : landingAgentStep s st (.locked (.reapLease now))
          ⟨reapExpiredLease s now st.row, st.reads⟩ := ⟨trivial, rfl, rfl, .locked rfl⟩
      have ⟨hswept, hsame⟩ := step_handed inv hsweep
      refine ⟨_, hsweep, hreaped, fun later st'' hlater hout => ?_⟩
      have hover := runs_over hswept hlater
      have hdone : inFlight (reapExpiredLease s now st.row).status = false := by
        rw [hreaped]
        exact not_inFlight_reaped s _
      by_contra hle
      have hge := hover.1
      simp only at hge hsame
      simp only [handsOut, isClaim, Bool.toNat, cond] at hsame
      have hagain := hover.2 hdone (by simp only; omega)
      rw [hout] at hagain
      cases hagain
  · have ⟨_, hassigned, hlease, htoken⟩ := inv.queued hqueued
    refine ⟨hassigned, hlease, fun fence => ?_⟩
    rw [ingestFenceHolds, htoken]
    rfl

end Runs

section LateHeartbeats

theorem submitted_fresh : Submitted submitted := ⟨rfl, rfl, rfl, rfl, rfl, rfl⟩

def requeued : Job := reapExpiredLease defaults 400000000 claimed

/-- A heartbeat that read the job while it was out, and is written after it was requeued. -/
def revived : Job := overlay requeued claimed (markRunning defaults "sensor-1" 399000000 claimed)

def lateHeartbeat : List (Access Job JobOp) :=
  [.locked (.claim sensor 1), .read, .locked (.reapLease 400000000),
    .write claimed (.heartbeat "sensor-1" 399000000)]

/-- The requeued job is running again with no owner, on the hand-out that was taken back, and the
sweep takes it back a second time. -/
theorem late_heartbeat_revives_hand_out :
    Runs (agentStep defaults) ⟨submitted, []⟩ lateHeartbeat ⟨revived, [claimed]⟩ ∧
    requeued.status = .queued ∧ requeued.attempts = 1 ∧
    revived.status = .running ∧ revived.attempts = 1 ∧ revived.assignedAgentId = none ∧
    leaseExpired defaults 400000000 claimed = true ∧
    leaseExpired defaults 700000000 revived = true ∧
    (reapExpiredLease defaults 700000000 revived).status = .queued := by
  refine ⟨?_, ?_⟩
  · refine .next ⟨rfl, rfl, .locked claimed_eq⟩ (.next ⟨trivial, trivial, .read _⟩ ?_)
    exact .next ⟨rfl, rfl, .locked rfl⟩ (.next ⟨trivial, rfl, .write (by simp) rfl⟩ (.refl _))
  · decide +kernel

theorem expired_hand_out_requeued :
    requeued.status = .queued ∧ requeued.assignedAgentId = none ∧ requeued.claimedUntil = none ∧
      ∀ fence, ingestFenceHolds fence requeued = false := by
  have hqueued : requeued.status = .queued := by decide +kernel
  have hrun : Runs (landingAgentStep defaults) ⟨submitted, []⟩
      [.locked (.claim sensor 1), .locked (.reapLease 400000000)] ⟨requeued, []⟩ :=
    .next ⟨trivial, rfl, rfl, .locked claimed_eq⟩
      (.next ⟨trivial, rfl, rfl, .locked rfl⟩ (.refl _))
  exact ⟨hqueued, (hand_outs_bounded submitted_fresh (by decide) hrun).2.2 hqueued⟩

end LateHeartbeats

end Shapoclyack.JobAttempts
