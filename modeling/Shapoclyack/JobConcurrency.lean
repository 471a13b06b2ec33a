import Shapoclyack.Jobs
import Shapoclyack.Library.ReadCommitted

set_option autoImplicit false

namespace Shapoclyack.JobConcurrency

open JobStates Jobs Library

/-- One transaction on one job. -/
inductive JobOp where
  | claim (claimant : Claimant) (now : ℤ)
  | heartbeat (agentId : String) (now : ℤ)
  | renew (agentId : Option String) (now : ℤ)
  | cancel (username : String) (now : ℤ)
  | begin (u : Upload) (token : String) (now : ℤ)
  | accept (u : Upload) (t : Ticket) (now : ℤ)
  | reject (u : Upload) (t : Ticket) (rejection : String) (now : ℤ)
  | lateArchive (u : Upload) (t : Ticket)
  | releaseReservation (key : String) (late : Bool)
  | releaseLease (fence : IngestLease) (now : ℤ)
  | reapLease (now : ℤ)
  | reapCancellation (now : ℤ)
  | startLocal (ready : Bool) (lifetime now : ℤ)
  | finishLocal (run : LocalRun) (now : ℤ)
  | failLocal (reason : String) (now : ℤ)

/-- What a transaction leaves of the row; none where it is refused. -/
def JobOp.run (s : Settings) (op : JobOp) (row : Job) : Option Job :=
  match op with
  | .claim claimant now => claimJob s claimant now row
  | .heartbeat agentId now => some (markRunning s agentId now row)
  | .renew agentId now => some (renewLease s agentId now row)
  | .cancel username now => (cancelJob s username now row).toOption
  | .begin u token now =>
    match beginUpload s token now u row with
    | .ok (some begun) => some begun.1
    | _ => none
  | .accept u t now => (acceptUpload u t now row).toOption
  | .reject u t rejection now => (failRejectedUpload u t rejection now row).toOption
  | .lateArchive u t => (recordLateCancellationArchive u t row).toOption
  | .releaseReservation key late => some (releaseResultsReservation key late row)
  | .releaseLease fence now => some (releaseIngestLease s fence now row)
  | .reapLease now => some (reapExpiredLease s now row)
  | .reapCancellation now => some (reapStaleCancellation s now row)
  | .startLocal ready lifetime now => (Jobs.startLocal s ready lifetime now row).toOption
  | .finishLocal run now => (Jobs.finishLocal run now row).toOption
  | .failLocal reason now => some (Jobs.failLocal reason now row)

/-- The two writers that read the row without locking it. -/
def JobOp.unlocked : JobOp → Bool
  | .heartbeat _ _ => true
  | .renew _ _ => true
  | _ => false

theorem toOption_eq_some {α ε : Type*} {x : Except ε α} {a : α} (h : x.toOption = some a) :
    x = .ok a := by
  cases x with
  | error e => simp [Except.toOption] at h
  | ok b =>
    simp only [Except.toOption, Option.some.injEq] at h
    rw [h]

section Effects

/-- A legal move, or none: what every transaction is to do to a status. -/
def Moves (current new : Status) : Prop :=
  new = current ∨ canTransition current new = true

def LeaseInv (row : Job) : Prop :=
  terminal row.status = true ∨ row.status = .cancelling → row.claimedUntil = none

/-- What a transaction under the row's lock may do to a row. -/
structure Sound (row row' : Job) : Prop where
  moves : Moves row.status row'.status
  lease : LeaseInv row → LeaseInv row'

theorem Sound.of_eq {row row' : Job} (hstatus : row'.status = row.status)
    (hlease : row'.claimedUntil = row.claimedUntil) : Sound row row' where
  moves := .inl hstatus
  lease inv h := by
    rw [hlease]
    exact inv (by rw [← hstatus]; exact h)

theorem Sound.of_move {row row' : Job} (hmove : canTransition row.status row'.status = true)
    (hlease : row'.claimedUntil = none) : Sound row row' where
  moves := .inr hmove
  lease _ _ := hlease

theorem Sound.of_active {row row' : Job} (hmove : Moves row.status row'.status)
    (hactive : terminal row'.status = false ∧ row'.status ≠ .cancelling) : Sound row row' where
  moves := hmove
  lease _ h := by
    rcases h with hterminal | hcancelling
    · rw [hactive.1] at hterminal
      exact absurd hterminal (by decide)
    · exact absurd hcancelling hactive.2

theorem inFlight_active {status : Status} (h : inFlight status = true) :
    terminal status = false ∧ status ≠ .cancelling := by
  cases status <;> first | exact ⟨rfl, by decide⟩ | exact absurd h (by decide)

theorem claimJob_sound {s : Settings} {claimant : Claimant} {now : ℤ} {row row' : Job}
    (h : claimJob s claimant now row = some row') : Sound row row' := by
  unfold claimJob at h
  split at h
  case isTrue hclaim =>
    rw [← Option.some.inj h]
    have hqueued : row.status = .queued := by
      simp only [eligible, Bool.and_eq_true, beq_iff_eq] at hclaim
      exact hclaim.1.1.1.1.2
    exact Sound.of_active (.inr (by rw [hqueued]; rfl)) (inFlight_active rfl)
  case isFalse => simp at h

theorem cancelJob_sound {s : Settings} {username : String} {now : ℤ} {row row' : Job}
    (h : cancelJob s username now row = .ok row') : Sound row row' := by
  unfold cancelJob at h
  by_cases hstopping : row.status = .cancelling
  · rw [if_pos hstopping] at h
    rw [← Except.ok.inj h]
    split_ifs <;> exact Sound.of_eq rfl rfl
  · rw [if_neg hstopping] at h
    split at h
    case isTrue => simp at h
    case isFalse =>
      split at h
      case h_1 => simp at h
      case h_2 hcheck =>
        have hmove := checkTransition_ok hcheck
        split_ifs at h with htarget
        · rw [← Except.ok.inj h]
          exact Sound.of_move (by rw [← htarget]; exact hmove) rfl
        · rw [← Except.ok.inj h]
          have hcancelled : cancelTarget row = .cancelled := by
            unfold cancelTarget at htarget ⊢
            split_ifs at htarget ⊢ with hflight
            · exact absurd rfl htarget
            · rfl
          exact Sound.of_move (by rw [← hcancelled]; exact hmove) rfl

theorem updateJob_sound {new : Status} {fields : Job → Job} {row row' : Job}
    (hterminal : terminal new = true) (h : updateJob new fields row = .ok row') :
    Sound row row' := by
  obtain ⟨hmove, rfl⟩ := updateJob_ok h
  exact Sound.of_move hmove (if_pos hterminal)

theorem openIngestLease_sound (s : Settings) (agentId token : String) (now : ℤ) (row : Job) :
    Sound row (openIngestLease s agentId token now row).1 := by
  unfold openIngestLease
  simp only
  split_ifs with hflight
  · exact Sound.of_active (.inl (by simp)) (by simpa using inFlight_active hflight)
  · exact Sound.of_eq rfl rfl

theorem beginUpload_sound {s : Settings} {token : String} {now : ℤ} {u : Upload} {row row' : Job}
    {t : Ticket} (h : beginUpload s token now u row = .ok (some (row', t))) : Sound row row' := by
  obtain ⟨_, _, _, _, _, _, reserved, hreserve, _, rfl⟩ := beginUpload_ok h
  have hopen := openIngestLease_sound s u.agentId token now reserved
  have hcolumns := reserve_columns hreserve
  have hstatus : reserved.status = row.status := by rw [hcolumns]
  have hlease : reserved.claimedUntil = row.claimedUntil := by rw [hcolumns]
  refine ⟨by rw [← hstatus]; exact hopen.moves, fun inv => hopen.lease ?_⟩
  intro hstopped
  rw [hlease]
  exact inv (by rw [← hstatus]; exact hstopped)

theorem releaseIngestLease_sound (s : Settings) (fence : IngestLease) (now : ℤ) (row : Job) :
    Sound row (releaseIngestLease s fence now row) := by
  unfold releaseIngestLease
  split_ifs with hother hflight
  · exact Sound.of_eq rfl rfl
  · exact Sound.of_active (.inl rfl) (inFlight_active hflight)
  · exact Sound.of_eq rfl rfl

theorem reapExpiredLease_sound (s : Settings) (now : ℤ) (row : Job) :
    Sound row (reapExpiredLease s now row) := by
  unfold reapExpiredLease
  split_ifs with hexpired hretry
  · have hflight : inFlight row.status = true := by
      simp only [leaseExpired, hretry.1, Bool.or_eq_true, Bool.and_eq_true] at hexpired
      rcases hexpired with hheld | hlocal
      · exact hheld.1
      · exact absurd hlocal.1.1 (by decide)
    refine Sound.of_move ?_ rfl
    change canTransition row.status .queued = true
    revert hflight
    cases row.status <;> decide
  · have hactive : inFlight row.status = true ∨ row.status = .queued := by
      simp only [leaseExpired, Bool.or_eq_true, Bool.and_eq_true, beq_iff_eq] at hexpired
      rcases hexpired with hheld | hlocal
      · exact .inl hheld.1
      · exact .inr hlocal.1.2
    refine Sound.of_move ?_ rfl
    change canTransition row.status .failed = true
    revert hactive
    cases row.status <;> decide
  · exact Sound.of_eq rfl rfl

theorem reapStaleCancellation_sound (s : Settings) (now : ℤ) (row : Job) :
    Sound row (reapStaleCancellation s now row) := by
  unfold reapStaleCancellation
  split_ifs with hexpired
  · have hstopping : row.status = .cancelling := by
      simp only [cancellationExpired, Bool.and_eq_true, beq_iff_eq] at hexpired
      exact hexpired.1.1
    refine Sound.of_move ?_ rfl
    change canTransition row.status .cancelled = true
    rw [hstopping]
    rfl
  · exact Sound.of_eq rfl rfl

theorem renewWaitingMark_status (lifetime now : ℤ) (row : Job) :
    (renewWaitingMark lifetime now row).status = row.status := by
  unfold renewWaitingMark
  split
  · rfl
  · split_ifs <;> rfl

theorem canTransition_running_active {status : Status}
    (h : canTransition status .running = true) :
    terminal status = false ∧ status ≠ .cancelling := by
  cases status <;> first | exact ⟨rfl, by decide⟩ | exact absurd h (by decide)

theorem startLocal_sound {s : Settings} {ready : Bool} {lifetime now : ℤ} {row row' : Job}
    (h : startLocal s ready lifetime now row = .ok row') : Sound row row' := by
  unfold startLocal at h
  cases hcheck : checkTransition row .running with
  | error refusal => simp [hcheck] at h
  | ok _ =>
    simp only [hcheck] at h
    have hmove := checkTransition_ok hcheck
    split_ifs at h
    · rw [← Except.ok.inj h]
      exact Sound.of_active (.inr hmove) (inFlight_active rfl)
    · rw [← Except.ok.inj h]
      have hstatus := renewWaitingMark_status lifetime now row
      exact Sound.of_active (.inl hstatus) (by
        rw [hstatus]
        exact canTransition_running_active hmove)

theorem failLocal_sound (reason : String) (now : ℤ) (row : Job) :
    Sound row (failLocal reason now row) := by
  unfold failLocal
  split
  · next failed h => exact updateJob_sound rfl h
  · exact Sound.of_eq rfl rfl

/-- Every transaction that holds the row's lock moves it along the lifecycle. -/
theorem locked_sound {s : Settings} {op : JobOp} {row row' : Job} (hlocked : op.unlocked = false)
    (h : op.run s row = some row') : Sound row row' := by
  cases op with
  | claim claimant now => exact claimJob_sound h
  | heartbeat agentId now => exact absurd hlocked (by simp [JobOp.unlocked])
  | renew agentId now => exact absurd hlocked (by simp [JobOp.unlocked])
  | cancel username now => exact cancelJob_sound (toOption_eq_some h)
  | begin u token now =>
    simp only [JobOp.run] at h
    split at h
    · next begun hbegin =>
      rw [← Option.some.inj h]
      exact beginUpload_sound (t := begun.2) hbegin
    · simp at h
  | accept u t now =>
    obtain ⟨_, hupdate⟩ := finishFenced_ok (toOption_eq_some h)
    exact updateJob_sound t.ends hupdate
  | reject u t rejection now =>
    obtain ⟨_, hupdate⟩ := finishFenced_ok (toOption_eq_some h)
    refine updateJob_sound ?_ hupdate
    split_ifs
    · rfl
    · exact t.ends
  | lateArchive u t =>
    have hrow := toOption_eq_some h
    unfold recordLateCancellationArchive at hrow
    simp only at hrow
    split at hrow
    · simp at hrow
    · rw [← Except.ok.inj hrow]
      exact Sound.of_eq rfl rfl
  | releaseReservation key late =>
    rw [← Option.some.inj h]
    unfold releaseResultsReservation
    split_ifs <;> exact Sound.of_eq rfl rfl
  | releaseLease fence now =>
    rw [← Option.some.inj h]
    exact releaseIngestLease_sound s fence now row
  | reapLease now =>
    rw [← Option.some.inj h]
    exact reapExpiredLease_sound s now row
  | reapCancellation now =>
    rw [← Option.some.inj h]
    exact reapStaleCancellation_sound s now row
  | startLocal ready lifetime now => exact startLocal_sound (toOption_eq_some h)
  | finishLocal run now =>
    refine updateJob_sound ?_ (toOption_eq_some h)
    unfold LocalRun.status
    split_ifs <;> rfl
  | failLocal reason now =>
    rw [← Option.some.inj h]
    exact failLocal_sound reason now row

end Effects

section Heartbeats

/-- The UPDATE of one job: the columns the transaction changed, over whatever is current. -/
def overlay (current seen new : Job) : Job where
  jobId := column current.jobId seen.jobId new.jobId
  tenantId := column current.tenantId seen.tenantId new.tenantId
  execution := column current.execution seen.execution new.execution
  agentGroup := column current.agentGroup seen.agentGroup new.agentGroup
  ownerId := column current.ownerId seen.ownerId new.ownerId
  status := column current.status seen.status new.status
  assignedAgentId := column current.assignedAgentId seen.assignedAgentId new.assignedAgentId
  runId := column current.runId seen.runId new.runId
  queuedAt := column current.queuedAt seen.queuedAt new.queuedAt
  startedAt := column current.startedAt seen.startedAt new.startedAt
  finishedAt := column current.finishedAt seen.finishedAt new.finishedAt
  claimedUntil := column current.claimedUntil seen.claimedUntil new.claimedUntil
  attempts := column current.attempts seen.attempts new.attempts
  exitCode := column current.exitCode seen.exitCode new.exitCode
  error := column current.error seen.error new.error
  resultsIdempotencyKey :=
    column current.resultsIdempotencyKey seen.resultsIdempotencyKey new.resultsIdempotencyKey
  ingestToken := column current.ingestToken seen.ingestToken new.ingestToken
  ingestAttempt := column current.ingestAttempt seen.ingestAttempt new.ingestAttempt
  ingestAgentId := column current.ingestAgentId seen.ingestAgentId new.ingestAgentId
  ingestStartedAt := column current.ingestStartedAt seen.ingestStartedAt new.ingestStartedAt
  cancelRequestedAt :=
    column current.cancelRequestedAt seen.cancelRequestedAt new.cancelRequestedAt

theorem overlay_unchanged (current seen : Job) : overlay current seen seen = current := by
  simp only [overlay, column_unchanged]

/-- A heartbeat that writes anything was read from a job in flight, and promotes it at most. -/
theorem unlocked_reads {s : Settings} {op : JobOp} {seen new : Job} (hop : op.unlocked = true)
    (h : op.run s seen = some new) :
    new = seen ∨ (inFlight seen.status = true ∧
      (new.status = seen.status ∨ (seen.status = .claimed ∧ new.status = .running))) := by
  cases op with
  | heartbeat agentId now =>
    rw [← Option.some.inj h]
    by_cases howner : seen.assignedAgentId = some agentId
    · by_cases hflight : inFlight seen.status = true
      · by_cases hclaimed : seen.status = .claimed
        · rw [hclaimed] at hflight
          exact .inr ⟨by rw [hclaimed]; exact hflight,
            .inr ⟨hclaimed, by simp [markRunning, howner, hflight, hclaimed]⟩⟩
        · exact .inr ⟨hflight, .inl (by simp [markRunning, howner, hflight, hclaimed])⟩
      · exact .inl (by simp [markRunning, hflight])
    · exact .inl (by simp [markRunning, howner])
  | renew agentId now =>
    rw [← Option.some.inj h]
    unfold renewLease
    split_ifs with hflight
    · exact .inl rfl
    · have hheld : inFlight seen.status = true := by simpa using hflight
      cases agentId with
      | none => exact .inr ⟨hheld, .inl (by simp)⟩
      | some agent =>
        simp only
        split_ifs
        · exact .inl rfl
        · exact .inr ⟨hheld, .inl (by simp)⟩
  | _ => simp [JobOp.unlocked] at hop

def JobOp.agent : JobOp → Option String
  | .heartbeat agentId _ => some agentId
  | .renew agentId _ => agentId
  | _ => none

theorem unlocked_holder {s : Settings} {op : JobOp} {seen new : Job} {agent : String}
    (hop : op.unlocked = true) (hagent : op.agent = some agent)
    (h : op.run s seen = some new) : new = seen ∨ seen.assignedAgentId = some agent := by
  cases op with
  | heartbeat agentId now =>
    simp only [JobOp.agent, Option.some.injEq] at hagent
    subst hagent
    rw [← Option.some.inj h]
    unfold markRunning
    split_ifs with howner
    · exact .inl rfl
    all_goals exact .inr (by simpa using howner)
  | renew agentId now =>
    simp only [JobOp.agent] at hagent
    subst hagent
    rw [← Option.some.inj h]
    unfold renewLease
    simp only
    split_ifs with _ howner
    · exact .inl rfl
    · exact .inl rfl
    · exact .inr (by simpa using howner)
  | _ => simp [JobOp.unlocked] at hop

def accessKind : Access Job JobOp → Prop
  | .read => True
  | .write _ op => op.unlocked = true
  | .locked op => op.unlocked = false

def jobStep (s : Settings) (st : Shared Job) (a : Access Job JobOp) (st' : Shared Job) : Prop :=
  accessKind a ∧ Shared.step (JobOp.run s) overlay st a st'

/-- A heartbeat's write lands on a job still out with the agent it was read from, or is empty. -/
def lands (s : Settings) (st : Shared Job) : Access Job JobOp → Prop
  | .write seen op =>
    op.run s seen = some seen ∨
      (inFlight st.row.status = true ∧ st.row.assignedAgentId = seen.assignedAgentId)
  | _ => True

abbrev landingStep (s : Settings) : Shared Job → Access Job JobOp → Shared Job → Prop :=
  guarded (jobStep s) (lands s)

/-- The write of a heartbeat touches a status or a lease only of a job in flight with its agent. -/
def RespectsHolder (row row' : Job) (op : JobOp) : Prop :=
  row'.status ≠ row.status ∨ row'.claimedUntil ≠ row.claimedUntil →
    inFlight row.status = true ∧
      ∀ agent, op.agent = some agent → row.assignedAgentId = some agent

variable {s : Settings} {st st' : Shared Job} {a : Access Job JobOp}

theorem write_sound {seen new : Job} {op : JobOp} (hop : op.unlocked = true)
    (hlands : lands s st (.write seen op)) (h : op.run s seen = some new) :
    Sound st.row (overlay st.row seen new) ∧
      RespectsHolder st.row (overlay st.row seen new) op := by
  by_cases hempty : new = seen
  · subst hempty
    rw [overlay_unchanged]
    exact ⟨Sound.of_eq rfl rfl, fun hchange => by simp at hchange⟩
  · have hrow : inFlight st.row.status = true ∧
        st.row.assignedAgentId = seen.assignedAgentId := by
      rcases hlands with hsame | hrow
      · exact absurd (Option.some.inj (h.symm.trans hsame)) hempty
      · exact hrow
    obtain ⟨_, hstatus⟩ := (unlocked_reads hop h).resolve_left hempty
    refine ⟨?_, fun _ => ⟨hrow.1, fun agent hagent => ?_⟩⟩
    · have hnew : (overlay st.row seen new).status = st.row.status ∨
          (overlay st.row seen new).status = .running := by
        rcases hstatus with hkept | ⟨_, hrunning⟩
        · exact .inl (by simp [overlay, column, hkept])
        · simp only [overlay, column, hrunning]
          split_ifs
          · exact .inl rfl
          · exact .inr rfl
      rcases hnew with hkept | hrunning
      · exact Sound.of_active (.inl hkept) (by rw [hkept]; exact inFlight_active hrow.1)
      · refine Sound.of_active ?_ (by rw [hrunning]; exact inFlight_active rfl)
        rw [hrunning]
        have hflight := hrow.1
        revert hflight
        unfold Moves
        cases st.row.status <;> decide
    · exact hrow.2.trans ((unlocked_holder hop hagent h).resolve_left hempty)

theorem landingStep_sound (h : landingStep s st a st') : Sound st.row st'.row := by
  obtain ⟨hlands, hkind, hstep⟩ := h
  cases hstep with
  | read => exact Sound.of_eq rfl rfl
  | write _ ran => exact (write_sound hkind hlands ran).1
  | locked ran => exact locked_sound hkind ran

theorem landingStep_holder {seen : Job} {op : JobOp}
    (h : landingStep s st (.write seen op) st') : RespectsHolder st.row st'.row op := by
  obtain ⟨hlands, hkind, hstep⟩ := h
  cases hstep with
  | write _ ran => exact (write_sound hkind hlands ran).2

/-- A finished job stays as it ended, and a stopping one only ever ends. -/
def Absorbed (before after : Status) : Prop :=
  (terminal before = true → after = before) ∧
    (before = .cancelling → after = .cancelling ∨ terminal after = true)

theorem Absorbed.refl (status : Status) : Absorbed status status :=
  ⟨fun _ => rfl, fun h => .inl h⟩

theorem Absorbed.trans {a b c : Status} (hab : Absorbed a b) (hbc : Absorbed b c) :
    Absorbed a c := by
  refine ⟨fun hterminal => ?_, fun hstopping => ?_⟩
  · have hb := hab.1 hterminal
    rw [hbc.1 (by rw [hb]; exact hterminal), hb]
  · rcases hab.2 hstopping with hb | hb
    · exact hbc.2 hb
    · exact .inr (by rw [hbc.1 hb]; exact hb)

theorem Absorbed.of_moves {before after : Status} (h : Moves before after) :
    Absorbed before after := by
  rcases h with rfl | hmove
  · exact Absorbed.refl _
  · refine ⟨fun hterminal => ?_, fun hstopping => ?_⟩
    · rw [canTransition_of_terminal hterminal] at hmove
      exact absurd hmove (by decide)
    · rw [hstopping] at hmove
      exact .inr ((canTransition_cancelling_iff after).mp hmove)

/-- While heartbeats land on jobs still out with their agent, statuses follow the lifecycle,
finished and stopping jobs are absorbing and hold no lease, and no heartbeat touches a job that is
not out with the agent it comes from. -/
theorem landing_runs_absorb {start : Job} {as : List (Access Job JobOp)}
    (hstart : start.status = .queued) (h : Runs (landingStep s) ⟨start, []⟩ as st) :
    (∀ a st', landingStep s st a st' → Moves st.row.status st'.row.status) ∧
    (∀ seen op st', landingStep s st (.write seen op) st' →
      RespectsHolder st.row st'.row op) ∧
    (∀ later st', Runs (landingStep s) st later st' →
      Absorbed st.row.status st'.row.status) ∧
    LeaseInv st.row := by
  refine ⟨fun a st' hstep => (landingStep_sound hstep).moves,
    fun seen op st' hstep => landingStep_holder hstep, fun later st' hlater => ?_, ?_⟩
  · exact hlater.relates (fun x y => Absorbed x.row.status y.row.status)
      (fun x => Absorbed.refl x.row.status)
      (fun x y z (hxy : Absorbed x.row.status y.row.status)
        (hyz : Absorbed y.row.status z.row.status) => hxy.trans hyz)
      (fun x b y hstep => Absorbed.of_moves (landingStep_sound hstep).moves)
  · refine h.invariant (fun x => LeaseInv x.row)
      (fun x b y hinv hstep => (landingStep_sound hstep).lease hinv) ?_
    intro hstopped
    rw [hstart] at hstopped
    exact absurd hstopped (by decide)

end Heartbeats

section LostCancellation

def defaults : Settings where
  jobLeaseSeconds := 300
  jobIngestLeaseSeconds := 1800
  jobCancelGraceSeconds := 600
  jobMaxAttempts := 3
  validRunId _ := true

def submitted : Job where
  jobId := "job-1"
  tenantId := "acme"
  execution := .agent
  agentGroup := none
  ownerId := none
  status := .queued
  assignedAgentId := none
  runId := none
  queuedAt := 0
  startedAt := none
  finishedAt := none
  claimedUntil := none
  attempts := 0
  exitCode := none
  error := none
  resultsIdempotencyKey := none
  ingestToken := none
  ingestAttempt := none
  ingestAgentId := none
  ingestStartedAt := none
  cancelRequestedAt := none

def sensor : Claimant := ⟨"sensor-1", "acme", none, true, "run-1"⟩

def claimed : Job := ((JobOp.claim sensor 1).run defaults submitted).getD submitted

def stopping : Job := ((JobOp.cancel "alice" 3).run defaults claimed).getD submitted

def beaten : Job := markRunning defaults "sensor-1" 4 claimed

theorem claimed_eq : (JobOp.claim sensor 1).run defaults submitted = some claimed := by
  decide +kernel

theorem stopping_eq : (JobOp.cancel "alice" 3).run defaults claimed = some stopping := by
  decide +kernel

/-- A heartbeat decided before the stop was asked for puts the stopping job back to running. -/
theorem heartbeat_loses_cancellation :
    submitted.status = .queued ∧
    ∃ st, Runs (jobStep defaults) ⟨submitted, []⟩
        [.locked (.claim sensor 1), .read, .locked (.cancel "alice" 3),
          .write claimed (.heartbeat "sensor-1" 4)] st ∧
      stopping.status = .cancelling ∧ st.row.status = .running ∧
      canTransition .cancelling .running = false := by
  refine ⟨rfl, ⟨overlay stopping claimed beaten, [claimed]⟩, ?_, ?_⟩
  · exact .next ⟨rfl, .locked claimed_eq⟩ (.next ⟨trivial, .read _⟩
      (.next ⟨rfl, .locked stopping_eq⟩ (.next ⟨rfl, .write (by simp) rfl⟩ (.refl _))))
  · decide +kernel

theorem heartbeat_promotes :
    ∃ st, Runs (landingStep defaults) ⟨submitted, []⟩
        [.locked (.claim sensor 1), .read, .write claimed (.heartbeat "sensor-1" 4)] st ∧
      st.row.status = .running ∧ LeaseInv st.row := by
  have hrun : Runs (landingStep defaults) ⟨submitted, []⟩
      [.locked (.claim sensor 1), .read, .write claimed (.heartbeat "sensor-1" 4)]
      ⟨overlay claimed claimed beaten, [claimed]⟩ := by
    refine .next ⟨trivial, rfl, .locked claimed_eq⟩ (.next ⟨trivial, trivial, .read _⟩
      (.next ⟨.inr ?_, rfl, .write (by simp) rfl⟩ (.refl _)))
    decide +kernel
  exact ⟨_, hrun, by decide +kernel, (landing_runs_absorb rfl hrun).2.2.2⟩

end LostCancellation

end Shapoclyack.JobConcurrency
