import Shapoclyack.ResultUploads

set_option autoImplicit false

namespace Shapoclyack.IngestFencing

open JobStates FindingEvidence Jobs JobConcurrency ResultUploads Library

section Rows

def identityOf (row : Job) : String × String × Execution := (row.jobId, row.tenantId, row.execution)

/-- What every transaction keeps of a job: attempts only grow, and an ended job keeps what it ended
with. -/
structure Fenced (row row' : Job) : Prop where
  identity : identityOf row' = identityOf row
  attempts : (row.execution = .local → row.attempts ≤ 1) → row.attempts ≤ row'.attempts
  ended : terminal row.status = true → row'.status = row.status ∧ row'.attempts = row.attempts ∧
    row'.exitCode = row.exitCode ∧ row'.resultsIdempotencyKey = row.resultsIdempotencyKey
  run : row.status = .succeeded → row'.runId = row.runId
  handedOnce : row.execution = .local → row.attempts ≤ 1 → row'.attempts ≤ 1

theorem Fenced.execution {row row' : Job} (h : Fenced row row') :
    row'.execution = row.execution := congrArg (fun i => i.2.2) h.identity

theorem Fenced.of_end {row row' : Job} (hidentity : identityOf row' = identityOf row)
    (hend : (row'.status, row'.attempts, row'.exitCode, row'.resultsIdempotencyKey) =
      (row.status, row.attempts, row.exitCode, row.resultsIdempotencyKey))
    (hrun : row.status = .succeeded → row'.runId = row.runId) : Fenced row row' := by
  simp only [Prod.mk.injEq] at hend
  refine ⟨hidentity, fun _ => le_of_eq hend.2.1.symm, fun _ => hend, hrun, fun _ h => ?_⟩
  rw [hend.2.1]
  exact h

theorem Fenced.of_columns {row row' : Job} (hidentity : identityOf row' = identityOf row)
    (hend : (row'.status, row'.attempts, row'.exitCode, row'.resultsIdempotencyKey) =
      (row.status, row.attempts, row.exitCode, row.resultsIdempotencyKey))
    (hrun : row'.runId = row.runId) : Fenced row row' :=
  Fenced.of_end hidentity hend fun _ => hrun

theorem Fenced.of_open {row row' : Job} (hopen : terminal row.status = false)
    (hidentity : identityOf row' = identityOf row) (hattempts : row'.attempts = row.attempts) :
    Fenced row row' where
  identity := hidentity
  attempts _ := le_of_eq hattempts.symm
  ended h := by
    rw [hopen] at h
    exact absurd h (by decide)
  run h := by
    rw [h] at hopen
    exact absurd hopen (by decide)
  handedOnce _ h := by
    rw [hattempts]
    exact h

theorem open_of_move {current new : Status} (h : canTransition current new = true) :
    terminal current = false := by
  by_cases hterminal : terminal current = true
  · rw [canTransition_of_terminal hterminal] at h
    exact absurd h (by decide)
  · simpa using hterminal

theorem claimJob_fenced {s : Settings} {claimant : Claimant} {now : ℤ} {row row' : Job}
    (h : claimJob s claimant now row = some row') : Fenced row row' := by
  unfold claimJob at h
  split at h
  case isFalse => simp at h
  case isTrue hclaim =>
    rw [← Option.some.inj h]
    simp only [eligible, Bool.and_eq_true, beq_iff_eq] at hclaim
    have hagent : row.execution = .agent := hclaim.1.1.1.1.1
    have hqueued : row.status = .queued := hclaim.1.1.1.1.2
    refine ⟨rfl, fun _ => Nat.le_succ _, fun hended => ?_, fun hended => ?_, fun hlocal => ?_⟩
    · rw [hqueued] at hended
      exact absurd hended (by decide)
    · rw [hqueued] at hended
      exact absurd hended (by decide)
    · rw [hagent] at hlocal
      exact absurd hlocal (by decide)

theorem extendLease_fenced (row : Job) (deadline : ℤ) : Fenced row (extendLease row deadline) := by
  rw [extendLease_columns]
  exact Fenced.of_columns rfl rfl rfl

theorem markRunning_fenced (s : Settings) (agentId : String) (now : ℤ) (row : Job) :
    Fenced row (markRunning s agentId now row) := by
  unfold markRunning
  by_cases howner : row.assignedAgentId ≠ some agentId
  · rw [if_pos howner]
    exact Fenced.of_columns rfl rfl rfl
  · rw [if_neg howner]
    by_cases hflight : inFlight row.status = false
    · rw [if_pos hflight]
      exact Fenced.of_columns rfl rfl rfl
    · rw [if_neg hflight]
      have hrenewed := extendLease_fenced row (leaseDeadline s now)
      have hopen : terminal row.status = false :=
        inFlight_not_terminal (by simpa using hflight)
      simp only
      split
      · exact hrenewed
      · exact Fenced.of_open hopen hrenewed.identity (extendLease_attempts _ _)

theorem renewLease_fenced (s : Settings) (agentId : Option String) (now : ℤ) (row : Job) :
    Fenced row (renewLease s agentId now row) := by
  have hrenewed := extendLease_fenced row (leaseDeadline s now)
  have hsame : Fenced row row := Fenced.of_columns rfl rfl rfl
  unfold renewLease
  split_ifs
  · exact hsame
  · cases agentId with
    | none => exact hrenewed
    | some agent =>
      simp only
      split_ifs
      · exact hsame
      · exact hrenewed

theorem cancelJob_fenced {s : Settings} {username : String} {now : ℤ} {row row' : Job}
    (h : cancelJob s username now row = .ok row') : Fenced row row' := by
  unfold cancelJob at h
  by_cases hstopping : row.status = .cancelling
  · rw [if_pos hstopping] at h
    rw [← Except.ok.inj h]
    split_ifs <;> exact Fenced.of_columns rfl rfl rfl
  · rw [if_neg hstopping] at h
    split at h
    case isTrue => simp at h
    case isFalse =>
      split at h
      case h_1 => simp at h
      case h_2 hcheck =>
        have hopen := open_of_move (checkTransition_ok hcheck)
        split_ifs at h
        · rw [← Except.ok.inj h]
          exact Fenced.of_open hopen rfl rfl
        · rw [← Except.ok.inj h]
          exact Fenced.of_open hopen rfl rfl

theorem reapExpiredLease_fenced (s : Settings) (now : ℤ) (row : Job) :
    Fenced row (reapExpiredLease s now row) := by
  have hopen : leaseExpired s now row = true → terminal row.status = false := by
    intro hexpired
    simp only [leaseExpired, Bool.or_eq_true, Bool.and_eq_true, beq_iff_eq] at hexpired
    rcases hexpired with hheld | hlocal
    · exact inFlight_not_terminal hheld.1
    · rw [hlocal.1.2]
      rfl
  unfold reapExpiredLease
  split_ifs with hexpired hretry
  · exact Fenced.of_open (hopen hexpired) rfl rfl
  · exact Fenced.of_open (hopen hexpired) rfl rfl
  · exact Fenced.of_columns rfl rfl rfl

theorem reapStaleCancellation_fenced (s : Settings) (now : ℤ) (row : Job) :
    Fenced row (reapStaleCancellation s now row) := by
  unfold reapStaleCancellation
  split_ifs with hexpired
  · have hopen : terminal row.status = false := by
      simp only [cancellationExpired, Bool.and_eq_true, beq_iff_eq] at hexpired
      rw [hexpired.1.1]
      rfl
    exact Fenced.of_open hopen rfl rfl
  · exact Fenced.of_columns rfl rfl rfl

theorem startLocal_fenced {s : Settings} {ready : Bool} {lifetime now : ℤ} {row row' : Job}
    (hlocal : row.execution = .local) (h : startLocal s ready lifetime now row = .ok row') :
    Fenced row row' := by
  unfold startLocal at h
  cases hcheck : checkTransition row .running with
  | error refusal => simp [hcheck] at h
  | ok _ =>
    simp only [hcheck] at h
    have hopen := open_of_move (checkTransition_ok hcheck)
    split_ifs at h
    · rw [← Except.ok.inj h]
      refine ⟨rfl, fun honce => honce hlocal, fun hended => ?_, fun _ => rfl, fun _ _ => le_refl 1⟩
      rw [hopen] at hended
      exact absurd hended (by decide)
    · rw [← Except.ok.inj h]
      unfold renewWaitingMark
      split
      · exact Fenced.of_open hopen rfl rfl
      · split_ifs <;> exact Fenced.of_open hopen rfl rfl

theorem failLocal_fenced (reason : String) (now : ℤ) (row : Job) :
    Fenced row (failLocal reason now row) := by
  unfold failLocal
  split
  · next failed h =>
    obtain ⟨hmove, rfl⟩ := updateJob_ok h
    exact Fenced.of_open (open_of_move hmove) rfl rfl
  · exact Fenced.of_columns rfl rfl rfl

/-- The queue's operations never take a job back to an earlier attempt or reopen one. -/
theorem queueOp_fenced {s : Settings} {op : JobOp} {row row' : Job} (hop : queueOp op = true)
    (hthread : threadOp op = true → row.execution = .local) (h : op.run s row = some row') :
    Fenced row row' := by
  cases op with
  | claim claimant now => exact claimJob_fenced h
  | heartbeat agentId now =>
    rw [← Option.some.inj h]
    exact markRunning_fenced s agentId now row
  | renew agentId now =>
    rw [← Option.some.inj h]
    exact renewLease_fenced s agentId now row
  | cancel username now => exact cancelJob_fenced (toOption_eq_some h)
  | reapLease now =>
    rw [← Option.some.inj h]
    exact reapExpiredLease_fenced s now row
  | reapCancellation now =>
    rw [← Option.some.inj h]
    exact reapStaleCancellation_fenced s now row
  | startLocal ready lifetime now =>
    exact startLocal_fenced (hthread rfl) (toOption_eq_some h)
  | failLocal reason now =>
    rw [← Option.some.inj h]
    exact failLocal_fenced reason now row
  | begin | accept | reject | lateArchive | releaseReservation | releaseLease | finishLocal =>
    exact absurd hop (by simp [queueOp])

theorem openIngestLease_fenced (s : Settings) (agentId token : String) (now : ℤ) (row : Job) :
    Fenced row (openIngestLease s agentId token now row).1 := by
  unfold openIngestLease
  simp only
  split_ifs
  · rw [extendLease_columns]
    exact Fenced.of_columns rfl rfl rfl
  · exact Fenced.of_columns rfl rfl rfl

theorem releaseIngestLease_fenced (s : Settings) (fence : IngestLease) (now : ℤ) (row : Job) :
    Fenced row (releaseIngestLease s fence now row) := by
  unfold releaseIngestLease
  split_ifs <;> exact Fenced.of_columns rfl rfl rfl

end Rows

section Invariant

def reserves (p : Pending) : Bool := p.ticket.late && p.phase != .released

/-- A job that takes no further outcome: it has ended, and no late archive may reopen it. -/
def Spent (st : Ingest) : Prop :=
  terminal st.row.status = true ∧
    (st.row.status = .cancelled →
      st.row.exitCode ≠ none ∨ st.row.resultsIdempotencyKey ≠ none) ∧
    ∀ p ∈ st.pending, reserves p = false

structure Formed (p : Pending) : Prop where
  presented : p.upload.attempt = none ∨ p.upload.attempt = some p.ticket.lease.attempt
  late : p.ticket.late = true → p.ticket.status = .cancelled

/-- What holds of a job and its uploads after any number of steps. -/
structure FenceInv (st : Ingest) : Prop where
  attempts : ∀ r ∈ st.recorded, r.attempt ≤ st.row.attempts
  distinct : (st.recorded.map Recorded.attempt).Nodup
  spent : ∀ r ∈ st.recorded, r.attempt = st.row.attempts → Spent st
  reserved : ∀ p ∈ st.pending, reserves p = true →
    st.row.status = .cancelled ∧ st.row.resultsIdempotencyKey = heldReservation p.upload true
  single : st.pending.countP reserves ≤ 1
  published : st.publications = st.recorded.filterMap Recorded.publication
  carried : ∀ r ∈ st.recorded, ∀ p, r.source = some p →
    r.publication.isSome = (r.accepted && p.upload.hasArchive)
  formed : ∀ p ∈ st.pending, Formed p
  handedOnce : st.row.execution = .local → st.row.attempts ≤ 1

theorem heldReservation_late (u : Upload) : heldReservation u true ≠ none := by
  unfold heldReservation
  by_cases hkey : truthy u.idempotencyKey = true
  · rw [if_pos hkey]
    intro hnone
    rw [hnone] at hkey
    exact absurd hkey (by decide)
  · simp [hkey]

variable {s : Settings} {st st' : Ingest} {p : Pending} {row' : Job}

theorem FenceInv.of_row (inv : FenceInv st) (h : Fenced st.row row') :
    FenceInv { st with row := row' } where
  attempts r hr := (inv.attempts r hr).trans (h.attempts inv.handedOnce)
  distinct := inv.distinct
  spent r hr hcurrent := by
    have hsame : r.attempt = st.row.attempts :=
      le_antisymm (inv.attempts r hr) (by
        rw [hcurrent]
        exact h.attempts inv.handedOnce)
    obtain ⟨hended, hcancelled, hpending⟩ := inv.spent r hr hsame
    obtain ⟨hstatus, _, hexit, hkey⟩ := h.ended hended
    refine ⟨?_, ?_, hpending⟩
    · simpa only [hstatus] using hended
    · simpa only [hstatus, hexit, hkey] using hcancelled
  reserved q hq hheld := by
    obtain ⟨hcancelled, hkey⟩ := inv.reserved q hq hheld
    obtain ⟨hstatus, _, _, hkept⟩ := h.ended (by rw [hcancelled]; rfl)
    exact ⟨hstatus.trans hcancelled, hkept.trans hkey⟩
  single := inv.single
  published := inv.published
  carried := inv.carried
  formed := inv.formed
  handedOnce hlocal := by
    have hbefore : st.row.execution = .local := h.execution.symm.trans hlocal
    exact h.handedOnce hbefore (inv.handedOnce hbefore)

theorem FenceInv.no_reservation_open (inv : FenceInv st) (hopen : terminal st.row.status = false) :
    ∀ q ∈ st.pending, reserves q = false := by
  intro q hq
  by_contra hheld
  obtain ⟨hcancelled, _⟩ := inv.reserved q hq (by simpa using hheld)
  rw [hcancelled] at hopen
  exact absurd hopen (by decide)

theorem FenceInv.fresh_open (inv : FenceInv st) (hopen : terminal st.row.status = false) :
    ∀ r ∈ st.recorded, r.attempt ≠ st.row.attempts := by
  intro r hr hcurrent
  obtain ⟨hended, _⟩ := inv.spent r hr hcurrent
  rw [hopen] at hended
  exact absurd hended (by decide)

theorem FenceInv.fresh_reserved (inv : FenceInv st) (hp : p ∈ st.pending)
    (hheld : reserves p = true) : ∀ r ∈ st.recorded, r.attempt ≠ st.row.attempts := by
  intro r hr hcurrent
  rw [(inv.spent r hr hcurrent).2.2 p hp] at hheld
  exact absurd hheld (by decide)

theorem FenceInv.alone (inv : FenceInv st) (hp : p ∈ st.pending) (hheld : reserves p = true) :
    ∀ q ∈ st.pending.erase p, reserves q = false := by
  have hcount : (st.pending.erase p).countP reserves = 0 := by
    have hsingle := inv.single
    rw [List.countP_erase, if_pos ⟨hp, hheld⟩]
    omega
  intro q hq
  simpa using List.countP_eq_zero.mp hcount q hq

theorem FenceInv.erase (inv : FenceInv st) (p : Pending) :
    FenceInv { st with pending := st.pending.erase p } where
  attempts := inv.attempts
  distinct := inv.distinct
  spent r hr hcurrent := by
    obtain ⟨hended, hcancelled, hpending⟩ := inv.spent r hr hcurrent
    exact ⟨hended, hcancelled, fun q hq => hpending q (List.mem_of_mem_erase hq)⟩
  reserved q hq := inv.reserved q (List.mem_of_mem_erase hq)
  single := (List.Sublist.countP_le List.erase_sublist).trans inv.single
  published := inv.published
  carried := inv.carried
  formed q hq := inv.formed q (List.mem_of_mem_erase hq)
  handedOnce := inv.handedOnce

theorem FenceInv.cons (inv : FenceInv st) (hfree : reserves p = false)
    (hformed : Formed p) :
    FenceInv { st with pending := p :: st.pending } where
  attempts := inv.attempts
  distinct := inv.distinct
  spent r hr hcurrent := by
    obtain ⟨hended, hcancelled, hpending⟩ := inv.spent r hr hcurrent
    exact ⟨hended, hcancelled, List.forall_mem_cons.mpr ⟨hfree, hpending⟩⟩
  reserved := List.forall_mem_cons.mpr
    ⟨fun hheld => absurd hheld (by rw [hfree]; decide), inv.reserved⟩
  single := by
    rw [List.countP_cons_of_neg (by rw [hfree]; decide)]
    exact inv.single
  published := inv.published
  carried := inv.carried
  formed := List.forall_mem_cons.mpr ⟨hformed, inv.formed⟩
  handedOnce := inv.handedOnce

theorem FenceInv.cons_reserved (inv : FenceInv st)
    (hfresh : ∀ r ∈ st.recorded, r.attempt ≠ st.row.attempts)
    (halone : ∀ q ∈ st.pending, reserves q = false)
    (hcancelled : st.row.status = .cancelled)
    (hkey : st.row.resultsIdempotencyKey = heldReservation p.upload true)
    (hformed : Formed p) :
    FenceInv { st with pending := p :: st.pending } where
  attempts := inv.attempts
  distinct := inv.distinct
  spent r hr hcurrent := absurd hcurrent (hfresh r hr)
  reserved := List.forall_mem_cons.mpr ⟨fun _ => ⟨hcancelled, hkey⟩, inv.reserved⟩
  single := by
    have hnone : st.pending.countP reserves = 0 :=
      List.countP_eq_zero.mpr fun q hq => by simp [halone q hq]
    change (p :: st.pending).countP reserves ≤ 1
    rw [List.countP_cons, hnone]
    split_ifs <;> simp
  published := inv.published
  carried := inv.carried
  formed := List.forall_mem_cons.mpr ⟨hformed, inv.formed⟩
  handedOnce := inv.handedOnce

theorem FenceInv.advance (inv : FenceInv st) (hp : p ∈ st.pending) {phase : Phase}
    (hheld : reserves { p with phase := phase } = true → reserves p = true) :
    FenceInv (st.advance p phase) := by
  have hformed : Formed { p with phase := phase } :=
    ⟨(inv.formed p hp).presented, (inv.formed p hp).late⟩
  by_cases hafter : reserves { p with phase := phase } = true
  · obtain ⟨hcancelled, hkey⟩ := inv.reserved p hp (hheld hafter)
    exact (inv.erase p).cons_reserved (inv.fresh_reserved hp (hheld hafter))
      (inv.alone hp (hheld hafter)) hcancelled hkey hformed
  · exact (inv.erase p).cons (by simpa using hafter) hformed

theorem FenceInv.record (inv : FenceInv st) {r : Recorded}
    (hfresh : ∀ q ∈ st.recorded, q.attempt ≠ st.row.attempts) (hspent : Spent st)
    (hattempt : r.attempt = st.row.attempts)
    (hcarried : ∀ p, r.source = some p →
      r.publication.isSome = (r.accepted && p.upload.hasArchive)) :
    FenceInv (st.record st.row r) where
  attempts := List.forall_mem_cons.mpr ⟨le_of_eq hattempt, inv.attempts⟩
  distinct := by
    refine List.nodup_cons.mpr ⟨fun hseen => ?_, inv.distinct⟩
    obtain ⟨q, hq, hsame⟩ := List.mem_map.mp hseen
    exact hfresh q hq (hsame.trans hattempt)
  spent _ _ _ := hspent
  reserved := inv.reserved
  single := inv.single
  published := by
    change r.publication.toList ++ st.publications = _
    rw [inv.published]
    cases hpublication : r.publication with
    | none => exact (List.filterMap_cons_none hpublication).symm
    | some publication => exact (List.filterMap_cons_some hpublication).symm
  carried := List.forall_mem_cons.mpr ⟨hcarried, inv.carried⟩
  formed := inv.formed
  handedOnce := inv.handedOnce

theorem start_inv {row : Job} (hnew : row.attempts = 0) : FenceInv (Ingest.start row) where
  attempts := by simp [Ingest.start]
  distinct := List.nodup_nil
  spent := by simp [Ingest.start]
  reserved := by simp [Ingest.start]
  single := by simp [Ingest.start]
  published := rfl
  carried := by simp [Ingest.start]
  formed := by simp [Ingest.start]
  handedOnce _ := by
    change row.attempts ≤ 1
    omega

theorem FenceInv.rekey (inv : FenceInv st)
    (hfresh : ∀ r ∈ st.recorded, r.attempt ≠ st.row.attempts)
    (halone : ∀ q ∈ st.pending, reserves q = false)
    (hattempts : row'.attempts = st.row.attempts) (hexecution : row'.execution = st.row.execution) :
    FenceInv { st with row := row' } where
  attempts r hr := (inv.attempts r hr).trans (le_of_eq hattempts.symm)
  distinct := inv.distinct
  spent r hr hcurrent := absurd (hcurrent.trans hattempts) (hfresh r hr)
  reserved q hq hheld := absurd hheld (by rw [halone q hq]; decide)
  single := inv.single
  published := inv.published
  carried := inv.carried
  formed := inv.formed
  handedOnce hlocal := by
    change row'.attempts ≤ 1
    rw [hattempts]
    exact inv.handedOnce (hexecution.symm.trans hlocal)

end Invariant

section Writes

/-- The terminal write of an outcome: on an open job, at its attempt, with an exit code. -/
structure Finished (row row' : Job) : Prop where
  opened : terminal row.status = false
  identity : identityOf row' = identityOf row
  attempts : row'.attempts = row.attempts
  ended : terminal row'.status = true
  reported : row'.exitCode ≠ none

theorem acceptUpload_ok {u : Upload} {t : Ticket} {now : ℤ} {row row' : Job}
    (h : acceptUpload u t now row = .ok row') :
    ingestFenceHolds t.lease row = true ∧ Finished row row' := by
  obtain ⟨hfence, hupdate⟩ := finishFenced_ok h
  obtain ⟨hmove, rfl⟩ := updateJob_ok hupdate
  exact ⟨hfence, open_of_move hmove, rfl, rfl, t.ends, by simp⟩

theorem failRejectedUpload_ok {u : Upload} {t : Ticket} {rejection : String} {now : ℤ}
    {row row' : Job} (h : failRejectedUpload u t rejection now row = .ok row') :
    ingestFenceHolds t.lease row = true ∧ Finished row row' := by
  obtain ⟨hfence, hupdate⟩ := finishFenced_ok h
  obtain ⟨hmove, rfl⟩ := updateJob_ok hupdate
  refine ⟨hfence, open_of_move hmove, rfl, rfl, ?_, by simp⟩
  change terminal (if t.status = .succeeded then .failed else t.status) = true
  split_ifs
  · rfl
  · exact t.ends

theorem finishLocal_ok {run : LocalRun} {now : ℤ} {row row' : Job}
    (h : finishLocal run now row = .ok row') : Finished row row' := by
  obtain ⟨hmove, rfl⟩ := updateJob_ok h
  refine ⟨open_of_move hmove, rfl, rfl, ?_, by simp⟩
  change terminal run.status = true
  unfold LocalRun.status
  split_ifs <;> rfl

theorem recordLate_ok {u : Upload} {t : Ticket} {row row' : Job}
    (h : recordLateCancellationArchive u t row = .ok row') :
    ingestFenceHolds t.lease row = true ∧ identityOf row' = identityOf row ∧
      row'.status = row.status ∧ row'.resultsIdempotencyKey = row.resultsIdempotencyKey ∧
      (row.status ≠ .succeeded → Fenced row row') := by
  unfold recordLateCancellationArchive at h
  simp only at h
  split at h
  case isTrue => simp at h
  case isFalse hfence =>
    rw [← Except.ok.inj h]
    exact ⟨by simpa using hfence, rfl, rfl, rfl,
      fun hother => Fenced.of_end rfl rfl fun hsucceeded => absurd hsucceeded hother⟩

theorem reserve_late {s : Settings} {now : ℤ} {u : Upload} {row reserved : Job}
    (h : reserve s now u row = .ok (some (reserved, true))) :
    u.cancelled = true ∧ row.status = .cancelled ∧ row.exitCode = none ∧
      row.resultsIdempotencyKey = none ∧
      reserved = { row with resultsIdempotencyKey := heldReservation u true } := by
  unfold reserve at h
  split at h
  case isTrue =>
    split at h
    case h_1 => simp at h
    case h_2 => simp at h
    case h_3 =>
      split at h
      case isTrue hlate =>
        simp only [Except.ok.injEq, Option.some.injEq, Prod.mk.injEq, and_true] at h
        simp only [acceptsLateArchive, Bool.and_eq_true, beq_iff_eq] at hlate
        exact ⟨hlate.1.1.1.1.1.1, hlate.1.1.1.1.2, hlate.1.1.2, hlate.1.2, h.symm⟩
      case isFalse => simp at h
  case isFalse =>
    repeat' split at h
    all_goals simp at h

variable {s : Settings} {st st' : Ingest} {p : Pending} {row' : Job}

theorem Finished.fenced {row : Job} (h : Finished row row') : Fenced row row' :=
  Fenced.of_open h.opened h.identity h.attempts

theorem FenceInv.finish (inv : FenceInv st) (h : Finished st.row row') {r : Recorded}
    (hattempt : r.attempt = st.row.attempts)
    (hcarried : ∀ p, r.source = some p →
      r.publication.isSome = (r.accepted && p.upload.hasArchive)) :
    FenceInv (st.record row' r) := by
  have hspent : Spent { st with row := row' } :=
    ⟨h.ended, fun _ => .inl h.reported, inv.no_reservation_open h.opened⟩
  refine (inv.of_row h.fenced).record (fun q hq => ?_) hspent ?_ hcarried
  · rw [h.attempts]
    exact inv.fresh_open h.opened q hq
  · rw [h.attempts]
    exact hattempt

theorem publication_isSome (p : Pending) (row : Job) :
    (p.publication row).isSome = p.upload.hasArchive := by
  unfold Pending.publication
  cases p.upload.hasArchive <;> rfl

theorem reserves_of_open {p : Pending} (hphase : p.phase ≠ .released) :
    reserves p = p.ticket.late := by
  simp [reserves, hphase]

theorem commit_fenced (inv : FenceInv st) (hp : p ∈ st.pending) (hphase : p.phase = .ingesting)
    {now : ℤ} (h : p.commit now st.row = .ok row') : Fenced st.row row' := by
  unfold Pending.commit at h
  by_cases hlate : p.ticket.late = true
  · rw [if_pos hlate] at h
    have hheld : reserves p = true := by
      rw [reserves_of_open (by rw [hphase]; decide), hlate]
    obtain ⟨_, _, _, _, hkept⟩ := recordLate_ok h
    exact hkept (by rw [(inv.reserved p hp hheld).1]; decide)
  · rw [if_neg hlate] at h
    exact (acceptUpload_ok h).2.fenced

theorem commit_inv (inv : FenceInv st) (hp : p ∈ st.pending) (hphase : p.phase = .ingesting)
    {now : ℤ} (h : p.commit now st.row = .ok row') :
    FenceInv (({ st with pending := st.pending.erase p }).record row'
      ⟨some p, true, st.row.attempts, p.publication st.row⟩) := by
  have hcarried : ∀ q, some p = some q →
      (p.publication st.row).isSome = (true && q.upload.hasArchive) := by
    intro q hq
    rw [← Option.some.inj hq, Bool.true_and, publication_isSome]
  have hrow := commit_fenced inv hp hphase h
  unfold Pending.commit at h
  by_cases hlate : p.ticket.late = true
  · rw [if_pos hlate] at h
    have hheld : reserves p = true := by
      rw [reserves_of_open (by rw [hphase]; decide), hlate]
    obtain ⟨_, _, hstatus, hkey, _⟩ := recordLate_ok h
    obtain ⟨hcancelled, hreserved⟩ := inv.reserved p hp hheld
    have hended : terminal st.row.status = true := by
      rw [hcancelled]
      rfl
    have hattempts : row'.attempts = st.row.attempts := (hrow.ended hended).2.1
    have hspent : Spent { st with row := row', pending := st.pending.erase p } := by
      refine ⟨?_, fun _ => .inr ?_, inv.alone hp hheld⟩
      · change terminal row'.status = true
        rw [hstatus]
        exact hended
      · change row'.resultsIdempotencyKey ≠ none
        rw [hkey, hreserved]
        exact heldReservation_late p.upload
    refine ((inv.erase p).of_row hrow).record (fun r hr => ?_) hspent ?_ hcarried
    · rw [hattempts]
      exact inv.fresh_reserved hp hheld r hr
    · exact hattempts.symm
  · rw [if_neg hlate] at h
    exact (inv.erase p).finish (acceptUpload_ok h).2 rfl hcarried

theorem begin_inv (inv : FenceInv st) {u : Upload} {handOut : ℕ} {token : String} {now : ℤ}
    {t : Ticket} (h : beginUpload s token now u st.row = .ok (some (row', t))) :
    FenceInv { st with row := row', pending := ⟨u, handOut, t, .ingesting⟩ :: st.pending } := by
  obtain ⟨_, _, hattempt, hlease, hstatus, _, reserved, hreserve, hmove, rfl⟩ := beginUpload_ok h
  have hopened := openIngestLease_fenced s u.agentId token now reserved
  have hpresents : u.attempt = none ∨ u.attempt = some t.lease.attempt := by
    rw [hlease]
    exact hattempt
  by_cases hlate : t.late = true
  · rw [hlate] at hreserve
    obtain ⟨hasked, hcancelled, hexit, hkey, rfl⟩ := reserve_late hreserve
    have hformed : Formed ⟨u, handOut, t, .ingesting⟩ :=
      ⟨hpresents, fun _ => by simp [hstatus, reportedStatus, hasked, hcancelled]⟩
    have hfresh : ∀ r ∈ st.recorded, r.attempt ≠ st.row.attempts := by
      intro r hr hcurrent
      rcases (inv.spent r hr hcurrent).2.1 hcancelled with hreported | hheld
      · exact hreported hexit
      · exact hheld hkey
    have halone : ∀ q ∈ st.pending, reserves q = false := by
      intro q hq
      by_contra hheld
      have hheld := (inv.reserved q hq (by simpa using hheld)).2
      exact heldReservation_late q.upload (hheld.symm.trans hkey)
    obtain ⟨hkeptStatus, hattempts, _, hkept⟩ := hopened.ended (by rw [hcancelled]; rfl)
    have hrekeyed := inv.rekey hfresh halone hattempts hopened.execution
    refine hrekeyed.cons_reserved (fun r hr => ?_) halone (hkeptStatus.trans hcancelled) hkept
      hformed
    rw [hattempts]
    exact hfresh r hr
  · have hopen : terminal st.row.status = false := by
      exact open_of_move (hmove (by simpa using hlate))
    have hcolumns := reserve_columns hreserve
    have hkept : Fenced st.row reserved := by
      rw [hcolumns]
      exact Fenced.of_open hopen rfl rfl
    have hstill : terminal reserved.status = false := by
      rw [hcolumns]
      exact hopen
    refine ((inv.of_row hkept).of_row hopened).cons ?_
      ⟨hpresents, fun hbecame => absurd hbecame hlate⟩
    simp [reserves, hlate]

theorem release_inv (inv : FenceInv st) (hp : p ∈ st.pending) (hphase : p.phase = .failed) :
    FenceInv { st.advance p .released with row := p.release st.row } := by
  have hdone : reserves { p with phase := .released } = false := by simp [reserves]
  by_cases hlate : p.ticket.late = true
  · have hheld : reserves p = true := by
      rw [reserves_of_open (by rw [hphase]; decide), hlate]
    have hsame : (p.release st.row).attempts = st.row.attempts ∧
        (p.release st.row).execution = st.row.execution := by
      unfold Pending.release releaseResultsReservation
      split
      · exact ⟨rfl, rfl⟩
      · split_ifs <;> exact ⟨rfl, rfl⟩
    exact ((inv.erase p).rekey (inv.fresh_reserved hp hheld) (inv.alone hp hheld)
      hsame.1 hsame.2).cons hdone
      ⟨(inv.formed p hp).presented, (inv.formed p hp).late⟩
  · have hrow : Fenced st.row (p.release st.row) := by
      unfold Pending.release releaseResultsReservation
      split
      · exact Fenced.of_columns rfl rfl rfl
      · split_ifs with hkey
        · exact Fenced.of_open (hkey.1.resolve_left hlate) rfl rfl
        · exact Fenced.of_columns rfl rfl rfl
    exact (inv.of_row hrow).advance hp fun hheld => absurd hheld (by rw [hdone]; decide)

theorem failed_inv (inv : FenceInv st) (hp : p ∈ st.pending) (hphase : p.phase = .ingesting) :
    FenceInv (st.advance p .failed) := by
  refine inv.advance hp fun hheld => ?_
  have hkept : Phase.failed ≠ .released := by decide
  rw [reserves_of_open hkept] at hheld
  rw [reserves_of_open (by rw [hphase]; decide)]
  exact hheld

/-- Every step of a job and its uploads keeps the invariant. -/
theorem step_inv {e : Event} (inv : FenceInv st) (h : st.step s e = some st') : FenceInv st' := by
  cases step_cases h with
  | queue hop hthread hrow => exact inv.of_row (queueOp_fenced hop hthread hrow)
  | begun hbegin => exact begin_inv inv hbegin
  | committed hp hphase hfileable hcommit => exact commit_inv inv hp hphase hcommit
  | rejected hp hphase hreject =>
    exact (failed_inv inv hp hphase).finish (failRejectedUpload_ok hreject).2 rfl fun _ _ => rfl
  | failed he hp hphase => exact failed_inv inv hp hphase
  | reservationReleased hp hphase => exact release_inv inv hp hphase
  | leaseReleased hp => exact (inv.of_row (releaseIngestLease_fenced s _ _ st.row)).erase _
  | finishedLocal hfinish => exact inv.finish (finishLocal_ok hfinish) rfl fun _ hp => by simp at hp

end Writes

section Fencing

variable {s : Settings} {st st' : Ingest} {e : Event} {p : Pending}

structure SameOutcome (row row' : Job) : Prop where
  identity : identityOf row' = identityOf row
  status : row'.status = row.status
  attempts : row'.attempts = row.attempts
  exitCode : row'.exitCode = row.exitCode
  finishedAt : row'.finishedAt = row.finishedAt
  error : row'.error = row.error
  runId : row'.runId = row.runId

theorem SameOutcome.refl (row : Job) : SameOutcome row row :=
  ⟨rfl, rfl, rfl, rfl, rfl, rfl, rfl⟩

/-- A step that changes nothing of the job's outcome and publishes nothing. -/
structure Quiet (st st' : Ingest) : Prop where
  outcome : SameOutcome st.row st'.row
  recorded : st'.recorded = st.recorded
  publications : st'.publications = st.publications

/-- A step that records one outcome with the publication it owes, under a fence that holds. -/
structure Records (st st' : Ingest) (p : Pending) (r : Recorded) : Prop where
  source : r.source = some p
  fence : ingestFenceHolds p.ticket.lease st.row = true
  attempt : r.attempt = st.row.attempts
  recorded : st'.recorded = r :: st.recorded
  publications : st'.publications = r.publication.toList ++ st.publications

theorem commit_fence {now : ℤ} {row row' : Job} (h : p.commit now row = .ok row') :
    ingestFenceHolds p.ticket.lease row = true := by
  unfold Pending.commit at h
  split_ifs at h
  · exact (recordLate_ok h).1
  · exact (acceptUpload_ok h).1

theorem begin_quiet {u : Upload} {token : String} {now : ℤ} {row row' : Job} {t : Ticket}
    (h : beginUpload s token now u row = .ok (some (row', t))) : SameOutcome row row' := by
  obtain ⟨_, _, _, _, _, _, reserved, hreserve, _, rfl⟩ := beginUpload_ok h
  rw [reserve_columns hreserve]
  unfold openIngestLease
  simp only
  split_ifs
  · rw [extendLease_columns]
    exact ⟨rfl, rfl, rfl, rfl, rfl, rfl, rfl⟩
  · exact ⟨rfl, rfl, rfl, rfl, rfl, rfl, rfl⟩

theorem release_quiet (p : Pending) (row : Job) : SameOutcome row (p.release row) := by
  unfold Pending.release releaseResultsReservation
  split
  · exact SameOutcome.refl row
  · split_ifs <;> exact ⟨rfl, rfl, rfl, rfl, rfl, rfl, rfl⟩

theorem releaseLease_quiet (s : Settings) (fence : IngestLease) (now : ℤ) (row : Job) :
    SameOutcome row (releaseIngestLease s fence now row) := by
  unfold releaseIngestLease
  split_ifs <;> exact ⟨rfl, rfl, rfl, rfl, rfl, rfl, rfl⟩

theorem commit_identity {now : ℤ} {row row' : Job} (h : p.commit now row = .ok row') :
    identityOf row' = identityOf row := by
  unfold Pending.commit at h
  split_ifs at h
  · exact (recordLate_ok h).2.1
  · exact (acceptUpload_ok h).2.identity

theorem step_identity (h : st.step s e = some st') : identityOf st'.row = identityOf st.row := by
  cases step_cases h with
  | queue hop hthread hrow => exact (queueOp_fenced hop hthread hrow).identity
  | begun hbegin => exact (begin_quiet hbegin).identity
  | committed hp hphase hfileable hcommit => exact commit_identity hcommit
  | rejected hp hphase hreject => exact (failRejectedUpload_ok hreject).2.identity
  | failed he hp hphase => rfl
  | reservationReleased hp hphase => exact (release_quiet _ st.row).identity
  | leaseReleased hp => exact (releaseLease_quiet s _ _ st.row).identity
  | finishedLocal hfinish => exact (finishLocal_ok hfinish).identity

theorem advance_quiet (st : Ingest) (p : Pending) (phase : Phase) :
    Quiet st (st.advance p phase) := ⟨SameOutcome.refl st.row, rfl, rfl⟩

theorem pending_step (he : e.pending = some p) (h : st.step s e = some st') :
    p ∈ st.pending ∧ (Quiet st st' ∨ ∃ r, Records st st' p r) := by
  cases step_cases h with
  | queue | begun | finishedLocal => simp [Event.pending] at he
  | committed hp hphase hfileable hcommit =>
    obtain rfl := Option.some.inj he
    exact ⟨hp, .inr ⟨_, rfl, commit_fence hcommit, rfl, rfl, rfl⟩⟩
  | rejected hp hphase hreject =>
    obtain rfl := Option.some.inj he
    exact ⟨hp, .inr ⟨_, rfl, (failRejectedUpload_ok hreject).1, rfl, rfl, rfl⟩⟩
  | failed hq hp hphase =>
    obtain rfl := Option.some.inj (hq.symm.trans he)
    exact ⟨hp, .inl (advance_quiet st _ .failed)⟩
  | reservationReleased hp hphase =>
    obtain rfl := Option.some.inj he
    exact ⟨hp, .inl ⟨release_quiet _ st.row, rfl, rfl⟩⟩
  | leaseReleased hp =>
    obtain rfl := Option.some.inj he
    exact ⟨hp, .inl ⟨releaseLease_quiet s _ _ st.row, rfl, rfl⟩⟩

theorem begun_step {u : Upload} {handOut : ℕ} {token : String} {now : ℤ}
    (h : st.step s (.begun u handOut token now) = some st') : Quiet st st' := by
  cases step_cases h with
  | begun hbegin => exact ⟨begin_quiet hbegin, rfl, rfl⟩
  | failed he => simp [Event.pending] at he

theorem upload_step {u : Upload} (he : e.upload = some u) (h : st.step s e = some st') :
    Quiet st st' ∨ ∃ p r, e.pending = some p ∧ Records st st' p r := by
  cases hpending : e.pending with
  | some p =>
    rcases (pending_step hpending h).2 with hquiet | ⟨r, hrecords⟩
    · exact .inl hquiet
    · exact .inr ⟨p, r, rfl, hrecords⟩
  | none =>
    cases e with
    | begun u handOut token now => exact .inl (begun_step h)
    | queue | finishedLocal => simp [Event.upload, Event.pending] at he
    | committed | rejected | abandoned | reservationReleased | leaseReleased =>
      simp [Event.pending] at hpending

/-- An upload that presents an attempt other than the job's changes nothing of its outcome. -/
theorem FenceInv.stale_quiet (inv : FenceInv st) {u : Upload} {n : ℕ} (he : e.upload = some u)
    (hpresents : u.attempt = some n) (hstale : n ≠ st.row.attempts)
    (h : st.step s e = some st') : Quiet st st' := by
  rcases upload_step he h with hquiet | ⟨p, r, hpending, hrecords⟩
  · exact hquiet
  · have hu : p.upload = u := by
      have hsame : e.upload = e.pending.map Pending.upload := by
        cases e with
        | begun => simp [Event.pending] at hpending
        | _ => rfl
      rw [hsame, hpending] at he
      exact Option.some.inj he
    have hlease := (inv.formed p (pending_step hpending h).1).presented
    rw [hu, hpresents] at hlease
    simp only [reduceCtorEq, Option.some.injEq, false_or] at hlease
    have hfence := hrecords.fence
    simp only [ingestFenceHolds, Bool.and_eq_true, beq_iff_eq] at hfence
    exact absurd (hlease.trans hfence.1.2.symm) hstale

/-- Whatever the order of hand-outs, expiries, requeues, cancellations and uploads: an outcome and
its publication are recorded together, each hand-out has one outcome at most, an upload records
one only under the token, attempt and owner of the moment, and one that presents an attempt gone
by changes nothing. -/
theorem reachable_fenced {row : Job} {es : List Event} (hnew : row.attempts = 0)
    (h : Runs (ofStep (Ingest.step s)) (Ingest.start row) es st) :
    (st.publications = st.recorded.filterMap Recorded.publication ∧
      ∀ r ∈ st.recorded, ∀ p, r.source = some p →
        r.publication.isSome = (r.accepted && p.upload.hasArchive)) ∧
    (st.recorded.map Recorded.attempt).Nodup ∧
    (∀ e u st', e.upload = some u → st.step s e = some st' →
      Quiet st st' ∨ ∃ p r, e.pending = some p ∧ Records st st' p r) ∧
    (∀ e u st' n, e.upload = some u → u.attempt = some n → n ≠ st.row.attempts →
      st.step s e = some st' → Quiet st st') := by
  have inv : FenceInv st := h.invariant FenceInv
    (fun _ _ _ hinv hstep => step_inv hinv hstep) (start_inv hnew)
  exact ⟨⟨inv.published, inv.carried⟩, inv.distinct,
    fun e u st' he hstep => upload_step he hstep,
    fun e u st' n he hpresents hstale hstep => inv.stale_quiet he hpresents hstale hstep⟩

end Fencing

section Stragglers

/-- An upload as agents sent it before they were told to name their attempt. -/
def legacy : Upload where
  agentId := "sensor-1"
  tenantId := none
  exitCode := 0
  error := none
  runId := some "run-1"
  hasArchive := true
  idempotencyKey := none
  attempt := none
  cancelled := false

def ticketOn (token : String) (attempt : ℕ) : Ticket where
  lease := ⟨token, attempt, "sensor-1"⟩
  status := .succeeded
  ends := rfl
  late := false
  requestedReason := none
  runId := some "run-1"

/-- The upload of the first hand-out, begun when the same agent holds the second. -/
def straggler : Pending := ⟨legacy, 1, ticketOn "token-1" 2, .ingesting⟩

def handedOutTwice : List Event :=
  [.queue (.claim sensor 1), .queue (.reapLease 400000000), .queue (.claim sensor 400000001),
    .begun legacy 1 "token-1" 400000002]

def named : Upload := { legacy with attempt := some 1 }

def punctual : Pending := ⟨named, 1, ticketOn "token-1" 1, .ingesting⟩

def handedOutOnce : List Event :=
  [.queue (.claim sensor 1), .begun named 1 "token-1" 2, .committed punctual 3]

theorem runs_of_foldlM {s : Settings} {st st' : Ingest} {es : List Event}
    (h : es.foldlM (Ingest.step s) st = some st') : Runs (ofStep (Ingest.step s)) st es st' :=
  (Runs.of_foldlM (Ingest.step s) (fun _ _ => True) (fun _ _ _ => trivial) h).of_guarded

/-- An upload of the first hand-out that names no attempt finishes the second one. -/
theorem straggler_finishes_second_attempt :
    submitted.attempts = 0 ∧
    ∃ st st', Runs (ofStep (Ingest.step defaults)) (Ingest.start submitted) handedOutTwice st ∧
      st.step defaults (.committed straggler 400000003) = some st' ∧
      straggler.handOut < st.row.attempts ∧ st.row.status = .claimed ∧
      st'.row.status = .succeeded := by
  have hrun : ((handedOutTwice.foldlM (Ingest.step defaults) (Ingest.start submitted)).bind
      fun st => (st.step defaults (.committed straggler 400000003)).map
        fun st' => (decide (straggler.handOut < st.row.attempts), st.row.status,
          st'.row.status)) = some (true, .claimed, .succeeded) := by
    decide +kernel
  obtain ⟨st, hst, hmap⟩ := Option.bind_eq_some_iff.mp hrun
  obtain ⟨st', hst', hsame⟩ := Option.map_eq_some_iff.mp hmap
  simp only [Prod.mk.injEq, decide_eq_true_eq] at hsame
  exact ⟨rfl, st, st', runs_of_foldlM hst, hst', hsame.1, hsame.2.1, hsame.2.2⟩

theorem punctual_recorded :
    ∃ st, Runs (ofStep (Ingest.step defaults)) (Ingest.start submitted) handedOutOnce st ∧
      st.publications.length = 1 ∧ (st.recorded.map Recorded.attempt).Nodup := by
  have hrun : (handedOutOnce.foldlM (Ingest.step defaults) (Ingest.start submitted)).map
      (fun st => st.publications.length) = some 1 := by
    decide +kernel
  obtain ⟨st, hst, hlength⟩ := Option.map_eq_some_iff.mp hrun
  exact ⟨st, runs_of_foldlM hst, hlength,
    (reachable_fenced rfl (runs_of_foldlM hst)).2.1⟩

end Stragglers

end Shapoclyack.IngestFencing
