import Shapoclyack.IngestFencing

set_option autoImplicit false

namespace Shapoclyack.ReplayHonesty

open JobStates FindingEvidence Jobs JobConcurrency ResultUploads IngestFencing Library

section Queue

variable {s : Settings} {row row' : Job} {op : JobOp}

def endsReserved (s : Settings) (row : Job) : JobOp → Prop
  | .reapLease now =>
    leaseExpired s now row = true ∧
      ¬ (row.execution = .agent ∧ row.attempts < s.jobMaxAttempts) ∧
      row.resultsIdempotencyKey ≠ none
  | .reapCancellation now =>
    cancellationExpired s now row = true ∧ row.resultsIdempotencyKey ≠ none
  | _ => False

def resultsOf (row : Job) : Option ℤ × Option String :=
  (row.exitCode, row.resultsIdempotencyKey)

inductive Queued (s : Settings) (row : Job) (op : JobOp) (row' : Job) : Prop where
  | same (hstatus : row'.status = row.status)
      (howner : row'.assignedAgentId = row.assignedAgentId)
      (hresults : resultsOf row' = resultsOf row)
  | active (hopen : terminal row.status = false) (hactive : terminal row'.status = false)
      (htaken : row'.status ≠ .queued) (hresults : resultsOf row' = resultsOf row)
  | requeued (hopen : terminal row.status = false) (hqueued : row'.status = .queued)
      (howner : row'.assignedAgentId = none) (hresults : resultsOf row' = resultsOf row)
  | cancelled (hqueued : row.status = .queued) (hended : row'.status = .cancelled)
      (howner : row'.assignedAgentId = row.assignedAgentId)
      (hresults : resultsOf row' = resultsOf row)
  | ended (hopen : terminal row.status = false) (hended : terminal row'.status = true)
      (hswept : row.resultsIdempotencyKey ≠ none → endsReserved s row op)
      (hresults : resultsOf row' = resultsOf row)

theorem Queued.results (h : Queued s row op row') : resultsOf row' = resultsOf row := by
  cases h <;> assumption

theorem extendLease_same (deadline : ℤ) : Queued s row op (extendLease row deadline) := by
  rw [extendLease_columns]
  exact .same rfl rfl rfl

theorem markRunning_queued (agentId : String) (now : ℤ) :
    Queued s row op (markRunning s agentId now row) := by
  unfold markRunning
  by_cases howner : row.assignedAgentId ≠ some agentId
  · rw [if_pos howner]
    exact .same rfl rfl rfl
  · rw [if_neg howner]
    by_cases hflight : inFlight row.status = false
    · rw [if_pos hflight]
      exact .same rfl rfl rfl
    · rw [if_neg hflight]
      have hopen : terminal row.status = false := inFlight_not_terminal (by simpa using hflight)
      simp only
      split
      · exact extendLease_same _
      · rw [extendLease_columns]
        exact .active hopen rfl (by decide : Status.running ≠ .queued) rfl

theorem renewLease_queued (agentId : Option String) (now : ℤ) :
    Queued s row op (renewLease s agentId now row) := by
  unfold renewLease
  split_ifs
  · exact .same rfl rfl rfl
  · cases agentId with
    | none => exact extendLease_same _
    | some agent =>
      simp only
      split_ifs
      · exact .same rfl rfl rfl
      · exact extendLease_same _

theorem cancelJob_queued {username : String} {now : ℤ}
    (h : cancelJob s username now row = .ok row') : Queued s row op row' := by
  unfold cancelJob at h
  by_cases hstopping : row.status = .cancelling
  · rw [if_pos hstopping] at h
    rw [← Except.ok.inj h]
    split_ifs <;> exact .same rfl rfl rfl
  · rw [if_neg hstopping] at h
    split at h
    case isTrue => simp at h
    case isFalse =>
      split at h
      case h_1 => simp at h
      case h_2 hcheck =>
        have hmove := checkTransition_ok hcheck
        split_ifs at h with htarget
        · rw [← Except.ok.inj h]
          exact .active (open_of_move hmove) rfl (by decide : Status.cancelling ≠ .queued) rfl
        · rw [← Except.ok.inj h]
          have hwaiting : row.status = .queued := by
            unfold cancelTarget at hmove htarget
            split_ifs at hmove htarget with hflight
            · exact absurd rfl htarget
            · cases hstatus : row.status <;> rw [hstatus] at hmove hflight hstopping <;>
                first | rfl | exact absurd hmove (by decide) | exact absurd rfl hstopping
          exact .cancelled hwaiting rfl rfl rfl

theorem leaseExpired_open {now : ℤ} (h : leaseExpired s now row = true) :
    terminal row.status = false := by
  simp only [leaseExpired, Bool.or_eq_true, Bool.and_eq_true, beq_iff_eq] at h
  rcases h with hheld | hlocal
  · exact inFlight_not_terminal hheld.1
  · rw [hlocal.1.2]
    rfl

theorem reapExpiredLease_queued (now : ℤ) :
    Queued s row (.reapLease now) (reapExpiredLease s now row) := by
  unfold reapExpiredLease
  split_ifs with hexpired hretry
  · exact .requeued (leaseExpired_open hexpired) rfl rfl rfl
  · exact .ended (leaseExpired_open hexpired) rfl (fun hkey => ⟨hexpired, hretry, hkey⟩) rfl
  · exact .same rfl rfl rfl

theorem reapStaleCancellation_queued (now : ℤ) :
    Queued s row (.reapCancellation now) (reapStaleCancellation s now row) := by
  unfold reapStaleCancellation
  split_ifs with hexpired
  · have hopen : terminal row.status = false := by
      simp only [cancellationExpired, Bool.and_eq_true, beq_iff_eq] at hexpired
      rw [hexpired.1.1]
      rfl
    exact .ended hopen rfl (fun hkey => ⟨hexpired, hkey⟩) rfl
  · exact .same rfl rfl rfl

theorem claimJob_queued {claimant : Claimant} {now : ℤ}
    (h : claimJob s claimant now row = some row') : Queued s row op row' := by
  unfold claimJob at h
  split at h
  case isFalse => simp at h
  case isTrue hclaim =>
    rw [← Option.some.inj h]
    have hqueued : row.status = .queued := by
      simp only [eligible, Bool.and_eq_true, beq_iff_eq] at hclaim
      exact hclaim.1.1.1.1.2
    exact .active (by rw [hqueued]; rfl) rfl (by decide : Status.claimed ≠ .queued) rfl

theorem queueOp_queued (hagent : row.execution = .agent) (hop : queueOp op = true)
    (hthread : threadOp op = true → row.execution = .local) (h : op.run s row = some row') :
    Queued s row op row' := by
  have hother : threadOp op = true → False := fun hlocal => by
    rw [hagent] at hthread
    exact absurd (hthread hlocal) (by decide)
  cases op with
  | claim claimant now => exact claimJob_queued h
  | heartbeat agentId now =>
    rw [← Option.some.inj h]
    exact markRunning_queued agentId now
  | renew agentId now =>
    rw [← Option.some.inj h]
    exact renewLease_queued agentId now
  | cancel username now => exact cancelJob_queued (toOption_eq_some h)
  | reapLease now =>
    rw [← Option.some.inj h]
    exact reapExpiredLease_queued now
  | reapCancellation now =>
    rw [← Option.some.inj h]
    exact reapStaleCancellation_queued now
  | startLocal ready lifetime now => exact absurd rfl hother
  | failLocal reason now => exact absurd rfl hother
  | begin | accept | reject | lateArchive | releaseReservation | releaseLease | finishLocal =>
    exact absurd hop (by simp [queueOp])

end Queue

section Invariant

def Pending.wrote (p : Pending) (accepted : Bool) : Status × Option ℤ × Option String :=
  if accepted then
    (p.ticket.status, some p.upload.exitCode, filled p.upload.idempotencyKey)
  else
    (if p.ticket.status = .succeeded then .failed else p.ticket.status,
      some (if p.upload.exitCode = 0 then 1 else p.upload.exitCode),
      filled p.upload.idempotencyKey)

/-- The job stands as this upload left it: with the outcome it wrote, or cancelled by the sweep
with its late archive landed. -/
inductive Produced (row : Job) (r : Recorded) (p : Pending) : Prop where
  | outcome (hsource : r.source = some p)
      (hwrote : (row.status, row.exitCode, row.resultsIdempotencyKey) =
        Pending.wrote p r.accepted)
  | lateArchive (hsource : r.source = some p) (haccepted : r.accepted = true)
      (harchive : p.upload.hasArchive = true) (hcancelled : row.status = .cancelled)
      (hkey : row.resultsIdempotencyKey = heldReservation p.upload true)

theorem Produced.congr {row row' : Job} {r : Recorded} {p : Pending} (h : Produced row r p)
    (hstatus : row'.status = row.status) (hresults : resultsOf row' = resultsOf row) :
    Produced row' r p := by
  obtain ⟨hexit, hkey⟩ := Prod.mk.injEq .. ▸ hresults
  cases h with
  | outcome hsource hwrote =>
    refine .outcome hsource ?_
    rw [hstatus, hexit, hkey]
    exact hwrote
  | lateArchive hsource haccepted harchive hcancelled hheld =>
    exact .lateArchive hsource haccepted harchive (hstatus.trans hcancelled) (hkey.trans hheld)

/-- A late archive under this key is being ingested, or has failed without giving the key back. -/
def heldLate (st : Ingest) (key : Option String) : Prop :=
  ∃ p ∈ st.pending, p.ticket.late = true ∧ p.phase ≠ .released ∧
    heldReservation p.upload true = key

/-- What the columns a replay is told by stand for, on an agent's job. -/
structure ReplayInv (st : Ingest) : Prop where
  fence : FenceInv st
  waiting : st.row.status = .queued → st.row.assignedAgentId = none
  unreported : terminal st.row.status = false → st.row.exitCode = none
  reported : terminal st.row.status = true → st.row.exitCode ≠ none →
    ∃ r ∈ st.recorded, ∃ p, Produced st.row r p
  keyed : terminal st.row.status = true → st.row.resultsIdempotencyKey ≠ none →
    st.row.assignedAgentId = none ∨ heldLate st st.row.resultsIdempotencyKey ∨
      ∃ r ∈ st.recorded, ∃ p, Produced st.row r p
  archived : ∀ p ∈ st.pending, p.ticket.late = true → p.upload.hasArchive = true
  pristine : ∀ p ∈ st.pending, reserves p = true → st.row.exitCode = none

variable {s : Settings} {st st' : Ingest} {p : Pending}

theorem ReplayInv.of_open (hfence : FenceInv st) (hopen : terminal st.row.status = false)
    (hwaiting : st.row.status = .queued → st.row.assignedAgentId = none)
    (hunreported : st.row.exitCode = none)
    (harchived : ∀ p ∈ st.pending, p.ticket.late = true → p.upload.hasArchive = true) :
    ReplayInv st where
  fence := hfence
  waiting := hwaiting
  unreported _ := hunreported
  reported hended := absurd (hopen.symm.trans hended) (by decide)
  keyed hended := absurd (hopen.symm.trans hended) (by decide)
  archived := harchived
  pristine _ _ _ := hunreported

theorem ReplayInv.of_produced (hfence : FenceInv st) (hended : terminal st.row.status = true)
    {r : Recorded} (hr : r ∈ st.recorded) (hproduced : Produced st.row r p)
    (harchived : ∀ p ∈ st.pending, p.ticket.late = true → p.upload.hasArchive = true)
    (hfree : ∀ p ∈ st.pending, reserves p = false) : ReplayInv st where
  fence := hfence
  waiting hqueued := by
    rw [hqueued] at hended
    exact absurd hended (by decide)
  unreported hopen := absurd (hopen.symm.trans hended) (by decide)
  reported _ _ := ⟨r, hr, p, hproduced⟩
  keyed _ _ := .inr (.inr ⟨r, hr, p, hproduced⟩)
  archived := harchived
  pristine q hq hheld := absurd ((hfree q hq).symm.trans hheld) (by decide)

theorem ReplayInv.of_same (inv : ReplayInv st) (hfence : FenceInv st')
    (hstatus : st'.row.status = st.row.status)
    (howner : st'.row.assignedAgentId = st.row.assignedAgentId)
    (hresults : resultsOf st'.row = resultsOf st.row) (hrecorded : st'.recorded = st.recorded)
    (hheld : ∀ key, terminal st.row.status = true → heldLate st key → heldLate st' key)
    (harchived : ∀ p ∈ st'.pending, p.ticket.late = true → p.upload.hasArchive = true)
    (hreserves : ∀ p ∈ st'.pending, reserves p = true → ∃ q ∈ st.pending, reserves q = true) :
    ReplayInv st' := by
  have hexit : st'.row.exitCode = st.row.exitCode := congrArg Prod.fst hresults
  have hkey : st'.row.resultsIdempotencyKey = st.row.resultsIdempotencyKey :=
    congrArg Prod.snd hresults
  refine ⟨hfence, ?_, ?_, ?_, ?_, harchived, fun p hp hheld => ?_⟩
  · rw [hstatus, howner]
    exact inv.waiting
  · rw [hstatus, hexit]
    exact inv.unreported
  · rw [hstatus, hexit, hrecorded]
    intro hended hreported
    obtain ⟨r, hr, q, hproduced⟩ := inv.reported hended hreported
    exact ⟨r, hr, q, hproduced.congr hstatus hresults⟩
  · rw [hstatus, howner, hkey, hrecorded]
    intro hended hset
    rcases inv.keyed hended hset with hnone | hlate | ⟨r, hr, q, hproduced⟩
    · exact .inl hnone
    · exact .inr (.inl (hheld _ hended hlate))
    · exact .inr (.inr ⟨r, hr, q, hproduced.congr hstatus hresults⟩)
  · obtain ⟨q, hq, hheld'⟩ := hreserves p hp hheld
    exact hexit.trans (inv.pristine q hq hheld')

structure Fresh (row : Job) : Prop where
  queued : row.status = .queued
  unclaimed : row.assignedAgentId = none
  attempts : row.attempts = 0
  unreported : row.exitCode = none
  unkeyed : row.resultsIdempotencyKey = none

theorem Fresh.inv {row : Job} (h : Fresh row) : ReplayInv (Ingest.start row) :=
  .of_open (start_inv h.attempts) (by change terminal row.status = false; rw [h.queued]; rfl)
    (fun _ => h.unclaimed) h.unreported (fun _ hp => absurd hp (by simp [Ingest.start]))

theorem archived_erase (inv : ReplayInv st) (p : Pending) :
    ∀ q ∈ st.pending.erase p, q.ticket.late = true → q.upload.hasArchive = true :=
  fun q hq => inv.archived q (List.mem_of_mem_erase hq)

theorem archived_advance (inv : ReplayInv st) (hp : p ∈ st.pending) (phase : Phase) :
    ∀ q ∈ (st.advance p phase).pending, q.ticket.late = true → q.upload.hasArchive = true := by
  intro q hq
  rcases List.mem_cons.mp hq with rfl | hrest
  · exact inv.archived p hp
  · exact archived_erase inv p q hrest

theorem heldLate_advance {key : Option String} {phase : Phase}
    (hphase : p.ticket.late = false ∨ phase ≠ .released) (h : heldLate st key) :
    heldLate (st.advance p phase) key := by
  obtain ⟨q, hq, hlate, hkeeps, hkey⟩ := h
  by_cases hsame : q = p
  · subst hsame
    refine ⟨{ q with phase := phase }, List.mem_cons_self, hlate, ?_, hkey⟩
    rcases hphase with hearly | hkeeps'
    · exact absurd (hearly.symm.trans hlate) (by decide)
    · exact hkeeps'
  · exact ⟨q, List.mem_cons_of_mem _ ((List.mem_erase_of_ne hsame).mpr hq), hlate, hkeeps, hkey⟩

theorem reserves_advance {phase : Phase}
    (hheld : reserves { p with phase := phase } = true → reserves p = true ∧ p ∈ st.pending) :
    ∀ q ∈ (st.advance p phase).pending, reserves q = true →
      ∃ q' ∈ st.pending, reserves q' = true := by
  intro q hq hreserves
  rcases List.mem_cons.mp hq with rfl | hrest
  · obtain ⟨hheld', hp⟩ := hheld hreserves
    exact ⟨p, hp, hheld'⟩
  · exact ⟨q, List.mem_of_mem_erase hrest, hreserves⟩

theorem openIngestLease_same (agentId token : String) (now : ℤ) (row : Job) :
    (openIngestLease s agentId token now row).1.status = row.status ∧
      (openIngestLease s agentId token now row).1.assignedAgentId = row.assignedAgentId ∧
      resultsOf (openIngestLease s agentId token now row).1 = resultsOf row := by
  unfold openIngestLease
  simp only
  split_ifs
  · rw [extendLease_columns]
    exact ⟨rfl, rfl, rfl⟩
  · exact ⟨rfl, rfl, rfl⟩

theorem reserve_late_archive {now : ℤ} {u : Upload} {row reserved : Job}
    (h : reserve s now u row = .ok (some (reserved, true))) : u.hasArchive = true := by
  unfold reserve at h
  split at h
  case isTrue =>
    split at h
    case h_1 => simp at h
    case h_2 => simp at h
    case h_3 =>
      split at h
      case isTrue hlate =>
        simp only [acceptsLateArchive, Bool.and_eq_true] at hlate
        exact hlate.1.1.1.1.1.2
      case isFalse => simp at h
  case isFalse =>
    repeat' split at h
    all_goals simp at h

theorem begun_replayInv (inv : ReplayInv st) {u : Upload} {handOut : ℕ} {token : String} {now : ℤ}
    {row' : Job} {t : Ticket} (h : beginUpload s token now u st.row = .ok (some (row', t))) :
    ReplayInv { st with row := row', pending := ⟨u, handOut, t, .ingesting⟩ :: st.pending } := by
  have hfence : FenceInv
      { st with row := row', pending := ⟨u, handOut, t, .ingesting⟩ :: st.pending } :=
    begin_inv inv.fence h
  obtain ⟨_, howner, _, _, _, _, reserved, hreserve, hmove, rfl⟩ := beginUpload_ok h
  obtain ⟨hstatus, howned, hresults⟩ := openIngestLease_same (s := s) u.agentId token now reserved
  have hcolumns := reserve_columns hreserve
  have hreservedStatus : reserved.status = st.row.status := by rw [hcolumns]
  have hreservedOwner : reserved.assignedAgentId = st.row.assignedAgentId := by rw [hcolumns]
  have hreservedExit : reserved.exitCode = st.row.exitCode := by rw [hcolumns]
  have hexit := (congrArg Prod.fst hresults).trans hreservedExit
  have hkey : (openIngestLease s u.agentId token now reserved).1.resultsIdempotencyKey =
      reserved.resultsIdempotencyKey := congrArg Prod.snd hresults
  by_cases hlate : t.late = true
  · rw [hlate] at hreserve
    have harchive := reserve_late_archive hreserve
    obtain ⟨_, hcancelled, hnone, _, hreserved⟩ := reserve_late hreserve
    refine ⟨hfence, fun hqueued => ?_, fun _ => ?_, fun _ hreported => ?_, fun _ _ => ?_, ?_,
      fun _ _ _ => hexit.trans hnone⟩
    · have hstands := hqueued.symm.trans (hstatus.trans (hreservedStatus.trans hcancelled))
      exact absurd hstands (by decide)
    · exact hexit.trans hnone
    · exact absurd (hexit.trans hnone) hreported
    · have hphase : Phase.ingesting ≠ .released := by decide
      refine .inr (.inl ⟨⟨u, handOut, t, .ingesting⟩, List.mem_cons_self, hlate, hphase, ?_⟩)
      refine Eq.trans ?_ hkey.symm
      rw [hreserved]
    · intro q hq hq'
      rcases List.mem_cons.mp hq with rfl | hrest
      · exact harchive
      · exact inv.archived q hrest hq'
  · have hopen : terminal st.row.status = false := open_of_move (hmove (by simpa using hlate))
    refine .of_open hfence ?_ (fun hqueued => ?_) (hexit.trans (inv.unreported hopen)) ?_
    · change terminal (openIngestLease s u.agentId token now reserved).1.status = false
      rw [hstatus, hreservedStatus]
      exact hopen
    · have hwaits := inv.waiting ((hreservedStatus.symm.trans hstatus.symm).trans hqueued)
      exact absurd (howner.symm.trans hwaits) (by simp)
    · intro q hq hq'
      rcases List.mem_cons.mp hq with rfl | hrest
      · exact absurd hq' hlate
      · exact inv.archived q hrest hq'

theorem committed_replayInv (inv : ReplayInv st) (hp : p ∈ st.pending)
    (hphase : p.phase = .ingesting) {now : ℤ} {row' : Job}
    (h : p.commit now st.row = .ok row') :
    ReplayInv (({ st with pending := st.pending.erase p }).record row'
      ⟨some p, true, st.row.attempts, p.publication st.row⟩) := by
  have hfence := commit_inv inv.fence hp hphase h
  unfold Pending.commit at h
  by_cases hlate : p.ticket.late = true
  · rw [if_pos hlate] at h
    have hheld : reserves p = true := by
      rw [reserves_of_open (by rw [hphase]; decide), hlate]
    obtain ⟨hcancelled, hkey⟩ := inv.fence.reserved p hp hheld
    obtain ⟨_, _, hstatus, hkept, _⟩ := recordLate_ok h
    have hended : row'.status = .cancelled := hstatus.trans hcancelled
    refine .of_produced (p := p) hfence ?_ List.mem_cons_self ?_ (archived_erase inv p)
      (inv.fence.alone hp hheld)
    · change terminal row'.status = true
      rw [hended]
      rfl
    · exact .lateArchive rfl rfl (inv.archived p hp hlate) hended (hkept.trans hkey)
  · rw [if_neg hlate] at h
    have hopen := (acceptUpload_ok h).2.opened
    obtain ⟨_, hupdate⟩ := finishFenced_ok h
    obtain ⟨_, rfl⟩ := updateJob_ok hupdate
    exact .of_produced (p := p) hfence p.ticket.ends List.mem_cons_self (.outcome rfl rfl)
      (archived_erase inv p)
      fun q hq => inv.fence.no_reservation_open hopen q (List.mem_of_mem_erase hq)

theorem rejected_replayInv (inv : ReplayInv st) (hp : p ∈ st.pending)
    (hphase : p.phase = .ingesting) {rejection : String} {now : ℤ} {row' : Job}
    (h : failRejectedUpload p.upload p.ticket rejection now st.row = .ok row') :
    ReplayInv ((st.advance p .failed).record row'
      ⟨some p, false, st.row.attempts, none⟩) := by
  have hfinished := (failRejectedUpload_ok h).2
  have hfence : FenceInv ((st.advance p .failed).record row'
      ⟨some p, false, st.row.attempts, none⟩) :=
    (failed_inv inv.fence hp hphase).finish hfinished rfl fun _ _ => rfl
  have hfree := (failed_inv inv.fence hp hphase).no_reservation_open hfinished.opened
  obtain ⟨_, hupdate⟩ := finishFenced_ok h
  obtain ⟨_, rfl⟩ := updateJob_ok hupdate
  exact .of_produced (p := p) hfence hfinished.ended List.mem_cons_self (.outcome rfl rfl)
    (archived_advance inv hp .failed) hfree

theorem release_key (inv : ReplayInv st) (hp : p ∈ st.pending) (hphase : p.phase = .failed)
    (hlate : p.ticket.late = true) : (p.release st.row).resultsIdempotencyKey = none := by
  have hheld : reserves p = true := by
    rw [reserves_of_open (by rw [hphase]; decide), hlate]
  have hkey := (inv.fence.reserved p hp hheld).2
  unfold Pending.release
  rw [hlate]
  cases hreservation : heldReservation p.upload true with
  | none => exact absurd hreservation (heldReservation_late p.upload)
  | some key =>
    simp only
    unfold releaseResultsReservation
    rw [if_pos ⟨.inl rfl, hkey.trans hreservation⟩]

theorem release_columns (p : Pending) (row : Job) :
    (p.release row).status = row.status ∧
      (p.release row).assignedAgentId = row.assignedAgentId ∧
      (p.release row).exitCode = row.exitCode := by
  unfold Pending.release releaseResultsReservation
  split
  · exact ⟨rfl, rfl, rfl⟩
  · split_ifs <;> exact ⟨rfl, rfl, rfl⟩

theorem release_ended {row : Job} (hlate : p.ticket.late = false)
    (hended : terminal row.status = true) : p.release row = row := by
  unfold Pending.release releaseResultsReservation
  split
  · rfl
  · rw [if_neg]
    rintro ⟨hfree | hopen, _⟩
    · exact absurd (hlate.symm.trans hfree) (by decide)
    · exact absurd (hopen.symm.trans hended) (by decide)

theorem released_replayInv (inv : ReplayInv st) (hp : p ∈ st.pending)
    (hphase : p.phase = .failed) :
    ReplayInv { st.advance p .released with row := p.release st.row } := by
  have hfence := release_inv inv.fence hp hphase
  have harchived := archived_advance inv hp .released
  obtain ⟨hstatus, howner, hexit⟩ := release_columns p st.row
  by_cases hended : terminal st.row.status = true
  · by_cases hlate : p.ticket.late = true
    · have hkey := release_key inv hp hphase hlate
      have hheld : reserves p = true := by
        rw [reserves_of_open (by rw [hphase]; decide), hlate]
      have hnone := hexit.trans (inv.pristine p hp hheld)
      exact ⟨hfence, fun hqueued => howner.trans (inv.waiting (hstatus.symm.trans hqueued)),
        fun _ => hnone, fun _ hreported => absurd hnone hreported,
        fun _ hset => absurd hkey hset, harchived, fun _ _ _ => hnone⟩
    · have hearly : p.ticket.late = false := by simpa using hlate
      have hsame := release_ended (p := p) hearly hended
      refine inv.of_same hfence hstatus howner ?_ rfl (fun key _ => ?_) harchived
        (reserves_advance fun hheld => absurd hheld (by simp [reserves]))
      · change resultsOf (p.release st.row) = resultsOf st.row
        rw [hsame]
      · exact heldLate_advance (.inl hearly)
  · have hopen : terminal st.row.status = false := by simpa using hended
    refine .of_open hfence ?_ (fun hqueued => ?_) (hexit.trans (inv.unreported hopen)) harchived
    · change terminal (p.release st.row).status = false
      rw [hstatus]
      exact hopen
    · exact howner.trans (inv.waiting (hstatus.symm.trans hqueued))

theorem leaseReleased_phase {now : ℤ} (h : st.step s (.leaseReleased p now) = some st') :
    p.phase = .released := by
  simp only [Ingest.step] at h
  split at h
  case isTrue hp => exact hp.2
  case isFalse => simp at h

theorem finishedLocal_local {run : LocalRun} {now : ℤ}
    (h : st.step s (.finishedLocal run now) = some st') : st.row.execution = .local := by
  simp only [Ingest.step] at h
  split at h
  case isTrue hlocal => exact hlocal
  case isFalse => simp at h

theorem queue_replayInv (inv : ReplayInv st) (hagent : st.row.execution = .agent) {op : JobOp}
    {row' : Job} (hop : queueOp op = true)
    (hthread : threadOp op = true → st.row.execution = .local)
    (hguard : ¬ endsReserved s st.row op) (h : op.run s st.row = some row') :
    ReplayInv { st with row := row' } := by
  have hfence := inv.fence.of_row (queueOp_fenced hop hthread h)
  have hqueued := queueOp_queued hagent hop hthread h
  have hexit : row'.exitCode = st.row.exitCode := congrArg Prod.fst hqueued.results
  have hkey : row'.resultsIdempotencyKey = st.row.resultsIdempotencyKey :=
    congrArg Prod.snd hqueued.results
  cases hqueued with
  | same hstatus howner hresults =>
    exact inv.of_same hfence hstatus howner hresults rfl (fun _ _ hheld => hheld) inv.archived
      fun q hq hheld => ⟨q, hq, hheld⟩
  | active hopen hactive htaken _ =>
    exact .of_open hfence hactive (fun hwaits => absurd hwaits htaken)
      (hexit.trans (inv.unreported hopen)) inv.archived
  | requeued hopen hwaits howner _ =>
    refine .of_open hfence ?_ (fun _ => howner) (hexit.trans (inv.unreported hopen)) inv.archived
    change terminal row'.status = false
    rw [hwaits]
    rfl
  | cancelled hwaits hended howner _ =>
    have hopen : terminal st.row.status = false := by
      rw [hwaits]
      rfl
    have hnone := hexit.trans (inv.unreported hopen)
    refine ⟨hfence, fun hstill => ?_, fun _ => hnone, fun _ hreported => absurd hnone hreported,
      fun _ _ => .inl (howner.trans (inv.waiting hwaits)), inv.archived, fun _ _ _ => hnone⟩
    exact absurd (hended.symm.trans hstill) (by decide)
  | ended hopen hended hswept _ =>
    have hnone := hexit.trans (inv.unreported hopen)
    refine ⟨hfence, fun hstill => ?_, fun _ => hnone, fun _ hreported => absurd hnone hreported,
      fun _ hset => ?_, inv.archived, fun _ _ _ => hnone⟩
    · change row'.status = .queued at hstill
      rw [hstill] at hended
      exact absurd hended (by decide)
    · exact absurd (hswept fun hunset => hset (hkey.trans hunset)) hguard

/-- The steps of a job in which no sweep ends it while its results key is set. -/
def sparing (s : Settings) (st : Ingest) : Event → Prop
  | .queue op => ¬ endsReserved s st.row op
  | _ => True

theorem ReplayInv.step {e : Event} (inv : ReplayInv st) (hagent : st.row.execution = .agent)
    (hguard : sparing s st e) (h : st.step s e = some st') : ReplayInv st' := by
  cases step_cases h with
  | queue hop hthread hrow => exact queue_replayInv inv hagent hop hthread hguard hrow
  | begun hbegin => exact begun_replayInv inv hbegin
  | committed hp hphase _ hcommit => exact committed_replayInv inv hp hphase hcommit
  | rejected hp hphase hreject => exact rejected_replayInv inv hp hphase hreject
  | @failed _ p _ hp hphase =>
    refine inv.of_same (failed_inv inv.fence hp hphase) rfl rfl rfl rfl
      (fun key _ => heldLate_advance (.inr (by decide))) (archived_advance inv hp .failed)
      (reserves_advance fun hheld => ⟨?_, hp⟩)
    rw [reserves_of_open (by decide : Phase.failed ≠ .released)] at hheld
    rw [reserves_of_open (by rw [hphase]; decide)]
    exact hheld
  | reservationReleased hp hphase => exact released_replayInv inv hp hphase
  | @leaseReleased p now hp =>
    have hreleased := leaseReleased_phase h
    have hcolumns : (releaseIngestLease s p.ticket.lease now st.row).status = st.row.status ∧
        (releaseIngestLease s p.ticket.lease now st.row).assignedAgentId =
          st.row.assignedAgentId ∧
        resultsOf (releaseIngestLease s p.ticket.lease now st.row) = resultsOf st.row := by
      unfold releaseIngestLease
      split_ifs <;> exact ⟨rfl, rfl, rfl⟩
    obtain ⟨hstatus, howner, hresults⟩ := hcolumns
    refine inv.of_same ((inv.fence.of_row (releaseIngestLease_fenced s _ _ st.row)).erase _)
      hstatus howner hresults rfl (fun key _ hheld => ?_) (archived_erase inv p)
      fun q hq hheld => ⟨q, List.mem_of_mem_erase hq, hheld⟩
    obtain ⟨q, hq, hlate, hkeeps, hkey⟩ := hheld
    have hother : q ≠ p := fun hsame => hkeeps (hsame ▸ hreleased)
    exact ⟨q, (List.mem_erase_of_ne hother).mpr hq, hlate, hkeeps, hkey⟩
  | finishedLocal hfinish =>
    exact absurd (hagent.symm.trans (finishedLocal_local h)) (by decide)

end Invariant

section Answers

variable {s : Settings} {st : Ingest} {row : Job} {es : List Event}

def answeredAsReplay (s : Settings) (token : String) (now : ℤ) (u : Upload) (row : Job) : Prop :=
  beginUpload s token now u row = .ok none

theorem reserve_replayed {now : ℤ} {u : Upload} (h : reserve s now u row = .ok none) :
    terminal row.status = true ∧ classifyReplay u row = .replayed := by
  unfold reserve at h
  split at h
  case isTrue hended =>
    split at h
    case h_1 hreplayed => exact ⟨hended, hreplayed⟩
    case h_2 => simp at h
    case h_3 => split at h <;> simp at h
  case isFalse =>
    split at h
    case isTrue => split at h <;> simp at h
    case isFalse => simp at h

theorem answered_ok {token : String} {now : ℤ} {u : Upload}
    (h : answeredAsReplay s token now u row) :
    row.execution = .agent ∧ row.assignedAgentId = some u.agentId ∧
      terminal row.status = true ∧ classifyReplay u row = .replayed := by
  unfold answeredAsReplay beginUpload at h
  split_ifs at h with hexecution howner htenant hattempt
  rw [ne_eq, not_not] at hexecution howner
  cases hreserve : reserve s now u row with
  | error refusal => simp [hreserve] at h
  | ok answer =>
    cases answer with
    | none =>
      obtain ⟨hended, hreplayed⟩ := reserve_replayed hreserve
      exact ⟨hexecution, howner, hended, hreplayed⟩
    | some begun =>
      obtain ⟨reserved, late⟩ := begun
      simp only [hreserve] at h
      split_ifs at h
      split at h <;> simp at h

/-- The two ways a finished job recognises an upload: by its key, or, where it carries none, by
the exit code of an outcome that was not a cancellation. -/
theorem classifyReplay_replayed {u : Upload} (h : classifyReplay u row = .replayed) :
    (truthy u.idempotencyKey = true ∧ row.resultsIdempotencyKey = u.idempotencyKey) ∨
      (truthy u.idempotencyKey = false ∧ row.status ≠ .cancelled ∧
        row.exitCode = some u.exitCode) := by
  unfold classifyReplay at h
  split at h
  case isTrue =>
    split at h
    case isTrue hkey => exact .inl hkey
    case isFalse => simp at h
  case isFalse hother =>
    split at h
    case isTrue hkeyed =>
      split at h
      case isTrue hkey => exact .inl ⟨hkeyed, hkey⟩
      case isFalse => split at h <;> simp at h
    case isFalse hunkeyed =>
      split at h
      case isTrue hexit => exact .inr ⟨by simpa using hunkeyed, hother, hexit⟩
      case isFalse => simp at h

/-- The upload's key is the one a late archive holds, or the server's mark of an unkeyed one. -/
def meetsReservation (st : Ingest) (u : Upload) : Prop :=
  heldLate st u.idempotencyKey ∨ u.idempotencyKey = some lateArchiveReservation

/-- An earlier upload produced what the job stands with. One that carries a key carries the key of
that upload; one without has the exit code that upload left, which left its own key too. -/
def Accounted (st : Ingest) (u : Upload) : Prop :=
  ∃ r ∈ st.recorded, ∃ p, Produced st.row r p ∧
    (truthy u.idempotencyKey = true → p.upload.idempotencyKey = u.idempotencyKey) ∧
    (truthy u.idempotencyKey = false → st.row.exitCode = some u.exitCode ∧
      st.row.resultsIdempotencyKey = filled p.upload.idempotencyKey)

theorem filled_eq_of_truthy {a b : Option String} (htruthy : truthy b = true)
    (h : filled a = b) : a = b := by
  unfold filled at h
  split_ifs at h
  · exact h
  · rw [← h] at htruthy
    exact absurd htruthy (by decide)

theorem heldReservation_eq {u : Upload} {key : Option String}
    (hmark : key ≠ some lateArchiveReservation) (h : heldReservation u true = key) :
    u.idempotencyKey = key := by
  unfold heldReservation at h
  split at h
  case isTrue => exact h
  case isFalse => exact absurd h.symm hmark

theorem accounted_of_answered (inv : ReplayInv st) {token : String} {now : ℤ} {u : Upload}
    (hclear : ¬ meetsReservation st u) (h : answeredAsReplay s token now u st.row) :
    Accounted st u := by
  obtain ⟨_, howner, hended, hreplayed⟩ := answered_ok h
  rcases classifyReplay_replayed hreplayed with ⟨hkeyed, hkey⟩ | ⟨hunkeyed, hother, hexit⟩
  · have hset : st.row.resultsIdempotencyKey ≠ none := by
      intro hnone
      rw [← hkey, hnone] at hkeyed
      exact absurd hkeyed (by decide)
    rcases inv.keyed hended hset with hnone | hheld | ⟨r, hr, p, hproduced⟩
    · exact absurd (howner.symm.trans hnone) (by simp)
    · rw [hkey] at hheld
      exact absurd (.inl hheld) hclear
    · refine ⟨r, hr, p, hproduced, fun _ => ?_, fun hunkeyed => ?_⟩
      · cases hproduced with
        | outcome _ hwrote =>
          have hwritten : filled p.upload.idempotencyKey = st.row.resultsIdempotencyKey := by
            have hkeys := congrArg (fun w => w.2.2) hwrote
            unfold Pending.wrote at hkeys
            split_ifs at hkeys <;> exact hkeys.symm
          exact filled_eq_of_truthy hkeyed (hwritten.trans hkey)
        | lateArchive _ _ _ _ hheld =>
          exact heldReservation_eq (fun hmark => hclear (.inr hmark)) (hheld.symm.trans hkey)
      · exact absurd (hunkeyed.symm.trans hkeyed) (by decide)
  · have hreported : st.row.exitCode ≠ none := by simp [hexit]
    obtain ⟨r, hr, p, hproduced⟩ := inv.reported hended hreported
    refine ⟨r, hr, p, hproduced, fun hkeyed => ?_, fun _ => ⟨hexit, ?_⟩⟩
    · exact absurd (hunkeyed.symm.trans hkeyed) (by decide)
    · cases hproduced with
      | outcome _ hwrote =>
        have hkeys := congrArg (fun w => w.2.2) hwrote
        unfold Pending.wrote at hkeys
        split_ifs at hkeys <;> exact hkeys
      | lateArchive _ _ _ hcancelled _ => exact absurd hcancelled hother

/-- While no sweep ends a job whose results key is set, an upload whose key no late archive holds
is answered as a replay only of an earlier upload that produced what the job stands with. -/
theorem replay_accounted (hfresh : Fresh row)
    (h : Runs (guarded (ofStep (Ingest.step s)) (sparing s)) (Ingest.start row) es st)
    (token : String) (now : ℤ) (u : Upload) (hclear : ¬ meetsReservation st u)
    (hanswer : answeredAsReplay s token now u st.row) : Accounted st u := by
  have hidentity : identityOf st.row = identityOf row :=
    h.of_guarded.invariant (fun st' => identityOf st'.row = identityOf row)
      (fun _ _ _ hsame hstep => (step_identity hstep).trans hsame) rfl
  have hagent : row.execution = .agent :=
    (congrArg (fun i => i.2.2) hidentity).symm.trans (answered_ok hanswer).1
  have inv : ReplayInv st ∧ identityOf st.row = identityOf row :=
    h.invariant (fun st' => ReplayInv st' ∧ identityOf st'.row = identityOf row)
      (fun st₁ _ _ hinv hstep =>
        have hstill : st₁.row.execution = .agent :=
          (congrArg (fun i => i.2.2) hinv.2).trans hagent
        ⟨hinv.1.step hstill hstep.1 hstep.2, (step_identity hstep.2).trans hinv.2⟩)
      ⟨hfresh.inv, rfl⟩
  exact accounted_of_answered inv.1 hclear hanswer

end Answers

section Overtaken

def once : Settings := { defaults with jobMaxAttempts := 1 }

def keyed : Upload := { named with idempotencyKey := some "key-1" }

def sent : Pending := ⟨keyed, 1, ticketOn "token-1" 1, .ingesting⟩

/-- The sweep writes the job off while its upload is being ingested, and the upload fails. -/
def overtaken : List Event :=
  [.queue (.claim sensor 1), .begun keyed 1 "token-1" 2, .queue (.reapLease 4000000000),
    .committed sent 4000000001, .reservationReleased { sent with phase := .failed },
    .leaseReleased { sent with phase := .released } 4000000002]

def stopped : Upload := { keyed with cancelled := true, exitCode := 1 }

/-- The agent's late archive is being ingested on a job the sweep has cancelled. -/
def stillLanding : List Event :=
  [.queue (.claim sensor 1), .queue (.cancel "alice" 3), .queue (.reapCancellation 700000000),
    .begun stopped 1 "token-1" 700000001]

def delivered : List Event :=
  [.queue (.claim sensor 1), .begun keyed 1 "token-1" 2, .committed sent 3]

def ingestAfter (s : Settings) (es : List Event) : Ingest :=
  runFrom (Ingest.step s) (Ingest.start submitted) es

theorem ingestAfter_runs {s : Settings} {es : List Event}
    (h : (es.foldlM (Ingest.step s) (Ingest.start submitted)).isSome = true) :
    Runs (ofStep (Ingest.step s)) (Ingest.start submitted) es (ingestAfter s es) :=
  (Runs.of_runFrom _ (fun _ _ => True) (fun _ _ _ => trivial) h).of_guarded

theorem submitted_fresh : Fresh submitted := ⟨rfl, rfl, rfl, rfl, rfl⟩

/-- With nothing ever recorded, a retry is answered as a replay of the upload the sweep overtook,
and a second copy as a replay of the one still in flight. -/
theorem overtaken_replayed :
    Fresh submitted ∧
      Runs (ofStep (Ingest.step once)) (Ingest.start submitted) overtaken
        (ingestAfter once overtaken) ∧
      (ingestAfter once overtaken).recorded.length = 0 ∧
      answeredAsReplay once "token-2" 4000000003 keyed (ingestAfter once overtaken).row ∧
      Runs (ofStep (Ingest.step defaults)) (Ingest.start submitted) stillLanding
        (ingestAfter defaults stillLanding) ∧
      (ingestAfter defaults stillLanding).recorded.length = 0 ∧
      (ingestAfter defaults stillLanding).pending.length = 1 ∧
      answeredAsReplay defaults "token-2" 700000002 stopped
        (ingestAfter defaults stillLanding).row := by
  refine ⟨submitted_fresh, ingestAfter_runs ?_, ?_, ?_, ingestAfter_runs ?_, ?_, ?_, ?_⟩
  · decide +kernel
  · decide +kernel
  · unfold answeredAsReplay
    decide +kernel
  · decide +kernel
  · decide +kernel
  · decide +kernel
  · unfold answeredAsReplay
    decide +kernel

theorem delivered_accounted :
    answeredAsReplay defaults "token-2" 4 keyed (ingestAfter defaults delivered).row ∧
      Accounted (ingestAfter defaults delivered) keyed := by
  have hanswer : answeredAsReplay defaults "token-2" 4 keyed
      (ingestAfter defaults delivered).row := by
    unfold answeredAsReplay
    decide +kernel
  have hrun : Runs (guarded (ofStep (Ingest.step defaults)) (sparing defaults))
      (Ingest.start submitted) delivered (ingestAfter defaults delivered) := by
    refine Runs.of_runFrom _ _ ?_ (by decide +kernel)
    intro e he st
    simp only [delivered, List.mem_cons, List.not_mem_nil, or_false] at he
    rcases he with rfl | rfl | rfl
    · exact fun h => h
    · exact trivial
    · exact trivial
  have hclear : ¬ meetsReservation (ingestAfter defaults delivered) keyed := by
    have hempty : (ingestAfter defaults delivered).pending = [] := by
      have hlength : (ingestAfter defaults delivered).pending.length = 0 := by decide +kernel
      exact List.length_eq_zero_iff.mp hlength
    rintro (⟨p, hp, _⟩ | hmark)
    · rw [hempty] at hp
      exact absurd hp (by simp)
    · exact absurd hmark (by decide +kernel)
  exact ⟨hanswer, replay_accounted submitted_fresh hrun "token-2" 4 keyed hclear hanswer⟩

end Overtaken

end Shapoclyack.ReplayHonesty
