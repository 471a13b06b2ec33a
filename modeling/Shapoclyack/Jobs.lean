import Shapoclyack.JobStates
import Shapoclyack.FindingEvidence

set_option autoImplicit false

namespace Shapoclyack.Jobs

open JobStates FindingEvidence

inductive Execution where
  | agent
  | local
deriving DecidableEq, Repr

structure Settings where
  jobLeaseSeconds : ℕ
  jobIngestLeaseSeconds : ℕ
  jobCancelGraceSeconds : ℕ
  jobMaxAttempts : ℕ
  /-- `run_ids.validate`, false where it raises. -/
  validRunId : String → Bool

/-- One row of `jobs`. -/
structure Job where
  jobId : String
  tenantId : String
  execution : Execution
  agentGroup : Option String
  ownerId : Option String
  status : Status
  assignedAgentId : Option String
  runId : Option String
  queuedAt : ℤ
  startedAt : Option ℤ
  finishedAt : Option ℤ
  claimedUntil : Option ℤ
  attempts : ℕ
  exitCode : Option ℤ
  error : Option String
  resultsIdempotencyKey : Option String
  ingestToken : Option String
  ingestAttempt : Option ℕ
  ingestAgentId : Option String
  ingestStartedAt : Option ℤ
  cancelRequestedAt : Option ℤ
deriving DecidableEq

inductive Refusal where
  | invalidTransition (current new : Status)
  | staleAttempt
  | permission
  | notAgentJob
  | localInFlight
  | resultsConflict
  | resultsInFlight
  | runIdMismatch
deriving DecidableEq, Repr

abbrev Outcome := Except Refusal Job

/-- `timedelta(seconds=max(n, 1))`. -/
def seconds (n : ℕ) : ℤ := (max n 1 : ℕ) * 1000000

def checkTransition (row : Job) (new : Status) : Except Refusal Unit :=
  if canTransition row.status new then .ok () else .error (.invalidTransition row.status new)

section Leases

def leaseDeadline (s : Settings) (now : ℤ) : ℤ := now + seconds s.jobLeaseSeconds

def extendLease (row : Job) (deadline : ℤ) : Job :=
  match row.claimedUntil with
  | none => { row with claimedUntil := some deadline }
  | some held => if held < deadline then { row with claimedUntil := some deadline } else row

/-- Who is allowed to write a job's outcome when an ingest finishes. -/
structure IngestLease where
  token : String
  attempt : ℕ
  agentId : String
deriving DecidableEq

def clearIngest (row : Job) : Job :=
  { row with
    ingestToken := none
    ingestAttempt := none
    ingestAgentId := none
    ingestStartedAt := none }

def openIngestLease (s : Settings) (agentId token : String) (now : ℤ) (row : Job) :
    Job × IngestLease :=
  let marked := { row with
    ingestToken := some token
    ingestAttempt := some row.attempts
    ingestAgentId := some agentId
    ingestStartedAt := some now }
  (if inFlight row.status then extendLease marked (now + seconds s.jobIngestLeaseSeconds)
    else marked,
    ⟨token, row.attempts, agentId⟩)

def ingestFenceHolds (fence : IngestLease) (row : Job) : Bool :=
  row.ingestToken == some fence.token && row.attempts == fence.attempt &&
    row.assignedAgentId == some fence.agentId

def renewLease (s : Settings) (agentId : Option String) (now : ℤ) (row : Job) : Job :=
  if inFlight row.status = false then row
  else
    match agentId with
    | some agent =>
      if row.assignedAgentId ≠ some agent then row
      else extendLease row (leaseDeadline s now)
    | none => extendLease row (leaseDeadline s now)

def releaseIngestLease (s : Settings) (fence : IngestLease) (now : ℤ) (row : Job) : Job :=
  if row.ingestToken ≠ some fence.token then row
  else if inFlight row.status then
    { clearIngest row with claimedUntil := some (leaseDeadline s now) }
  else clearIngest row

end Leases

section Control

/-- The agent that asks for work, and whether everything that may refuse it a job lets it
through. -/
structure Claimant where
  agentId : String
  tenantId : String
  agentGroup : Option String
  admitted : Bool
  /-- The run id minted for a job that has none. -/
  mintedRunId : String
deriving DecidableEq

def eligible (claimant : Claimant) (row : Job) : Bool :=
  row.execution == .agent && row.status == .queued && row.assignedAgentId == none &&
    row.tenantId == claimant.tenantId &&
    (row.agentGroup == none ||
      (truthy claimant.agentGroup && row.agentGroup == claimant.agentGroup))

/-- Hand a queued job out: a fresh attempt, a lease, an owner. None where nothing is claimed. -/
def claimJob (s : Settings) (claimant : Claimant) (now : ℤ) (row : Job) : Option Job :=
  if eligible claimant row && claimant.admitted then
    some { row with
      status := .claimed
      assignedAgentId := some claimant.agentId
      startedAt := none
      claimedUntil := some (leaseDeadline s now)
      attempts := row.attempts + 1
      runId := if truthy row.runId then row.runId else some claimant.mintedRunId }
  else none

/-- Record an agent's heartbeat: keep the lease alive, promote a claimed job to running. -/
def markRunning (s : Settings) (agentId : String) (now : ℤ) (row : Job) : Job :=
  if row.assignedAgentId ≠ some agentId then row
  else if inFlight row.status = false then row
  else
    let renewed := extendLease row (leaseDeadline s now)
    if row.status ≠ .claimed then renewed
    else
      { renewed with
        status := .running
        startedAt := if row.startedAt = none then some now else row.startedAt }

def stalledIngest (s : Settings) (now : ℤ) (row : Job) : Bool :=
  match row.ingestStartedAt with
  | none => false
  | some started => decide (seconds s.jobIngestLeaseSeconds < now - started)

def cancelTarget (row : Job) : Status :=
  if inFlight row.status then .cancelling else .cancelled

def cancelJob (s : Settings) (username : String) (now : ℤ) (row : Job) : Outcome :=
  if row.status = .cancelling then
    .ok (if stalledIngest s now row then clearIngest row else row)
  else if inFlight row.status = true ∧ row.execution ≠ .agent then .error .localInFlight
  else
    match checkTransition row (cancelTarget row) with
    | .error refusal => .error refusal
    | .ok _ =>
      if cancelTarget row = .cancelling then
        .ok { row with
          status := .cancelling
          cancelRequestedAt := some now
          claimedUntil := none
          error := some (clip 2000 ("Cancellation requested by " ++ username)) }
      else
        .ok { row with
          status := .cancelled
          finishedAt := some now
          claimedUntil := none
          error := some (clip 2000 ("Cancelled by " ++ username)) }

end Control

section Reaping

def before (deadline : Option ℤ) (now : ℤ) : Bool :=
  match deadline with
  | none => false
  | some instant => decide (instant < now)

def leaseExpired (s : Settings) (now : ℤ) (row : Job) : Bool :=
  (inFlight row.status && before row.claimedUntil now) ||
    (row.execution == .local && row.status == .queued &&
      (before row.claimedUntil now ||
        (row.claimedUntil == none && decide (row.queuedAt < now - seconds s.jobLeaseSeconds))))

def expiryReason (row : Job) : String :=
  if row.status = .queued then
    "Waited for a scan slot on replica " ++ (filled row.ownerId).getD "unknown" ++
      ", which stopped reporting; the scan never started"
  else
    "Lease expired after " ++ toString row.attempts ++ " attempt(s): the " ++
      (if row.execution = .agent then "agent" else "local") ++
      " executor stopped reporting and never returned"

/-- One row of the lease sweep: back on the queue while it may be retried, written off after. -/
def reapExpiredLease (s : Settings) (now : ℤ) (row : Job) : Job :=
  if leaseExpired s now row then
    if row.execution = .agent ∧ row.attempts < s.jobMaxAttempts then
      { clearIngest row with
        status := .queued
        assignedAgentId := none
        claimedUntil := none
        startedAt := none }
    else
      { clearIngest row with
        status := .failed
        finishedAt := some now
        claimedUntil := none
        error := some (expiryReason row) }
  else row

def cancellationExpired (s : Settings) (now : ℤ) (row : Job) : Bool :=
  row.status == .cancelling &&
    before row.cancelRequestedAt (now - seconds s.jobCancelGraceSeconds) &&
    (row.ingestStartedAt == none ||
      before row.ingestStartedAt (now - seconds s.jobIngestLeaseSeconds))

/-- One row of the cancellation sweep: finish a job whose agent never confirmed the stop. -/
def reapStaleCancellation (s : Settings) (now : ℤ) (row : Job) : Job :=
  if cancellationExpired s now row then
    { row with
      status := .cancelled
      finishedAt := some now
      claimedUntil := none
      error := some (clip 2000 ((filled row.error).getD "Cancellation requested" ++ "; agent " ++
        (filled row.assignedAgentId).getD "unknown" ++ " did not confirm within " ++
        toString s.jobCancelGraceSeconds ++ "s")) }
  else row

end Reaping

section LocalRunner

def renewWaitingMark (lifetime now : ℤ) (row : Job) : Job :=
  match row.claimedUntil with
  | none => { row with claimedUntil := some (now + lifetime) }
  | some held =>
    if held - now < lifetime / 2 then { row with claimedUntil := some (now + lifetime) } else row

def startLocal (s : Settings) (ready : Bool) (lifetime now : ℤ) (row : Job) : Outcome :=
  match checkTransition row .running with
  | .error refusal => .error refusal
  | .ok _ =>
    if ready then
      .ok { row with
        status := .running
        startedAt := some now
        claimedUntil := some (leaseDeadline s now)
        attempts := 1 }
    else .ok (renewWaitingMark lifetime now row)

/-- `update_job` with a status: the fields, then the lease given up by a terminal move. -/
def updateJob (new : Status) (fields : Job → Job) (row : Job) : Outcome :=
  match checkTransition row new with
  | .error refusal => .error refusal
  | .ok _ =>
    .ok { fields row with
      status := new
      claimedUntil := if terminal new then none else (fields row).claimedUntil }

structure LocalRun where
  exitCode : ℤ
  runId : Option String
  error : Option String
  /-- The run left a directory of its own to publish. -/
  hasDirectory : Bool
deriving DecidableEq

def LocalRun.status (run : LocalRun) : Status :=
  if run.exitCode = 0 then .succeeded else .failed

def finishLocal (run : LocalRun) (now : ℤ) : Job → Outcome :=
  updateJob run.status fun row =>
    { row with
      finishedAt := some now
      exitCode := some run.exitCode
      runId := filled run.runId
      error := run.error }

def failLocal (reason : String) (now : ℤ) (row : Job) : Job :=
  match updateJob .failed (fun row =>
    { row with
      finishedAt := some now
      error := some (clip 2000 reason) }) row with
  | .ok failed => failed
  | .error _ => { row with error := some (clip 2000 reason) }

end LocalRunner

section Uploads

structure Upload where
  agentId : String
  tenantId : Option String
  exitCode : ℤ
  error : Option String
  runId : Option String
  hasArchive : Bool
  idempotencyKey : Option String
  attempt : Option ℕ
  cancelled : Bool
deriving DecidableEq

def reportedStatus (u : Upload) (row : Job) : Status :=
  if u.cancelled = true ∧ (row.status = .cancelling ∨ row.status = .cancelled) then .cancelled
  else if u.exitCode = 0 then .succeeded
  else .failed

theorem reportedStatus_terminal (u : Upload) (row : Job) :
    terminal (reportedStatus u row) = true := by
  unfold reportedStatus
  split_ifs <;> rfl

inductive Replay where
  | replayed
  | conflict
  | new
deriving DecidableEq, Repr

/-- Decide whether an upload for a finished job is a replay. -/
def classifyReplay (u : Upload) (row : Job) : Replay :=
  if row.status = .cancelled then
    if truthy u.idempotencyKey = true ∧ row.resultsIdempotencyKey = u.idempotencyKey then
      .replayed
    else .new
  else if truthy u.idempotencyKey then
    if row.resultsIdempotencyKey = u.idempotencyKey then .replayed
    else if truthy row.resultsIdempotencyKey then .conflict
    else .new
  else if row.exitCode = some u.exitCode then .replayed
  else .new

/-- Whether this upload's archive may be kept on a job the reaper closed. -/
def acceptsLateArchive (s : Settings) (now : ℤ) (u : Upload) (row : Job) : Bool :=
  u.cancelled && u.hasArchive && row.status == .cancelled && row.cancelRequestedAt.isSome &&
    row.exitCode == none && row.resultsIdempotencyKey == none &&
    match row.finishedAt with
    | none => false
    | some finished => decide (now - finished ≤ seconds s.jobCancelGraceSeconds)

def lateArchiveReservation : String := "late-archive:unkeyed"

/-- What an upload carries out of its first transaction. -/
structure Ticket where
  lease : IngestLease
  status : Status
  ends : terminal status = true
  late : Bool
  requestedReason : Option String
  runId : Option String
deriving DecidableEq

def heldReservation (u : Upload) (late : Bool) : Option String :=
  if truthy u.idempotencyKey then u.idempotencyKey
  else if late then some lateArchiveReservation
  else none

/-- The key checks under the row's lock: none for a replay, else the row and whether it is late. -/
def reserve (s : Settings) (now : ℤ) (u : Upload) (row : Job) :
    Except Refusal (Option (Job × Bool)) :=
  if terminal row.status then
    match classifyReplay u row with
    | .replayed => .ok none
    | .conflict => .error .resultsConflict
    | .new =>
      if acceptsLateArchive s now u row then
        .ok (some ({ row with resultsIdempotencyKey := heldReservation u true }, true))
      else .ok (some (row, false))
  else if truthy u.idempotencyKey then
    if row.resultsIdempotencyKey = u.idempotencyKey then .error .resultsInFlight
    else .ok (some ({ row with resultsIdempotencyKey := u.idempotencyKey }, false))
  else .ok (some (row, false))

/-- `run_ids.confirm`. -/
def confirmRunId (s : Settings) (expected offered : Option String) :
    Except Refusal (Option String) :=
  if truthy expected = true ∧ truthy offered = true ∧ offered ≠ expected then
    .error .runIdMismatch
  else
    let resolved := if truthy expected then expected else offered
    match filled resolved with
    | none => .ok resolved
    | some runId => if s.validRunId runId then .ok resolved else .error .runIdMismatch

def requestedReasonOf (u : Upload) (row : Job) : Option String :=
  if reportedStatus u row = .cancelled then row.error else none

/-- The first transaction of an upload: none for a replay, else the row and the upload's ticket. -/
def beginUpload (s : Settings) (token : String) (now : ℤ) (u : Upload) (row : Job) :
    Except Refusal (Option (Job × Ticket)) :=
  if row.execution ≠ .agent then .error .notAgentJob
  else if row.assignedAgentId ≠ some u.agentId then .error .permission
  else if u.tenantId ≠ none ∧ u.tenantId ≠ some row.tenantId then .error .permission
  else if u.attempt ≠ none ∧ u.attempt ≠ some row.attempts then .error .staleAttempt
  else
    match reserve s now u row with
    | .error refusal => .error refusal
    | .ok none =>
      match confirmRunId s row.runId u.runId with
      | .error refusal => .error refusal
      | .ok _ => .ok none
    | .ok (some (reserved, late)) =>
      if late = false ∧ canTransition row.status (reportedStatus u row) = false then
        .error (.invalidTransition row.status (reportedStatus u row))
      else
        match confirmRunId s row.runId u.runId with
        | .error refusal => .error refusal
        | .ok runId =>
          let opened := openIngestLease s u.agentId token now reserved
          .ok (some (opened.1, {
            lease := opened.2
            status := reportedStatus u row
            ends := reportedStatus_terminal u row
            late := late
            requestedReason := requestedReasonOf u row
            runId := runId }))

def mergeCancellationReason (requested reported : Option String) : Option String :=
  filled (some (clip 2000
    ("; ".intercalate ([requested, reported].filterMap filled))))

def finishFenced (fence : IngestLease) (new : Status) (fields : Job → Job) (row : Job) : Outcome :=
  if ingestFenceHolds fence row = false then .error .staleAttempt
  else updateJob new (fun row => fields (clearIngest row)) row

def acceptUpload (u : Upload) (t : Ticket) (now : ℤ) : Job → Outcome :=
  finishFenced t.lease t.status fun row =>
    { row with
      finishedAt := some now
      exitCode := some u.exitCode
      runId := filled t.runId
      error := mergeCancellationReason t.requestedReason u.error
      resultsIdempotencyKey := filled u.idempotencyKey }

/-- The terminal write of an upload whose archive was refused. -/
def failRejectedUpload (u : Upload) (t : Ticket) (rejection : String) (now : ℤ) : Job → Outcome :=
  finishFenced t.lease (if t.status = .succeeded then .failed else t.status) fun row =>
    { row with
      finishedAt := some now
      exitCode := some (if u.exitCode = 0 then 1 else u.exitCode)
      runId := filled t.runId
      error := mergeCancellationReason t.requestedReason (some ("results rejected " ++ rejection))
      resultsIdempotencyKey := filled u.idempotencyKey }

/-- `note in error`. -/
def noted (note error : String) : Bool :=
  decide (1 < (error.splitOn note).length)

/-- Note that a late archive landed, without rewriting how the job ended. -/
def recordLateCancellationArchive (u : Upload) (t : Ticket) (row : Job) : Outcome :=
  let note := "; partial results uploaded late by agent " ++ u.agentId
  if ingestFenceHolds t.lease row = false then .error .staleAttempt
  else
    .ok { clearIngest row with
      runId := if truthy t.runId = true ∧ truthy row.runId = false then t.runId else row.runId
      error :=
        if noted note (text row.error) then row.error
        else some (clip 2000 (text row.error ++ note)) }

def releaseResultsReservation (key : String) (late : Bool) (row : Job) : Job :=
  if (late = true ∨ terminal row.status = false) ∧ row.resultsIdempotencyKey = some key then
    { row with resultsIdempotencyKey := none }
  else row

end Uploads

section Effects

theorem checkTransition_ok {row : Job} {new : Status} {u : Unit}
    (h : checkTransition row new = .ok u) : canTransition row.status new = true := by
  unfold checkTransition at h
  split_ifs at h with hmove
  exact hmove

theorem extendLease_columns (row : Job) (deadline : ℤ) :
    extendLease row deadline =
      { row with claimedUntil := (extendLease row deadline).claimedUntil } := by
  unfold extendLease
  split
  · rfl
  · split_ifs <;> rfl

@[simp]
theorem extendLease_status (row : Job) (deadline : ℤ) :
    (extendLease row deadline).status = row.status := by
  rw [extendLease_columns]

@[simp]
theorem extendLease_assigned (row : Job) (deadline : ℤ) :
    (extendLease row deadline).assignedAgentId = row.assignedAgentId := by
  rw [extendLease_columns]

@[simp]
theorem extendLease_attempts (row : Job) (deadline : ℤ) :
    (extendLease row deadline).attempts = row.attempts := by
  rw [extendLease_columns]

theorem updateJob_ok {new : Status} {fields : Job → Job} {row row' : Job}
    (h : updateJob new fields row = .ok row') :
    canTransition row.status new = true ∧ row' = { fields row with
      status := new
      claimedUntil := if terminal new then none else (fields row).claimedUntil } := by
  unfold updateJob at h
  cases hcheck : checkTransition row new with
  | error refusal => simp [hcheck] at h
  | ok _ =>
    simp only [hcheck] at h
    exact ⟨checkTransition_ok hcheck, (Except.ok.inj h).symm⟩

theorem finishFenced_ok {fence : IngestLease} {new : Status} {fields : Job → Job}
    {row row' : Job} (h : finishFenced fence new fields row = .ok row') :
    ingestFenceHolds fence row = true ∧
      updateJob new (fun row => fields (clearIngest row)) row = .ok row' := by
  unfold finishFenced at h
  split_ifs at h with hfence
  exact ⟨by simpa using hfence, h⟩

theorem reserve_columns {s : Settings} {now : ℤ} {u : Upload} {row reserved : Job} {late : Bool}
    (h : reserve s now u row = .ok (some (reserved, late))) :
    reserved = { row with resultsIdempotencyKey := reserved.resultsIdempotencyKey } := by
  unfold reserve at h
  have hkept : reserved = row ∨ ∃ key, reserved = { row with resultsIdempotencyKey := key } := by
    repeat' split at h
    all_goals simp only [Except.ok.injEq, Option.some.injEq, Prod.mk.injEq, reduceCtorEq] at h
    all_goals first | exact .inl h.1.symm | exact .inr ⟨_, h.1.symm⟩
  rcases hkept with rfl | ⟨key, rfl⟩ <;> rfl

theorem beginUpload_ok {s : Settings} {token : String} {now : ℤ} {u : Upload} {row row' : Job}
    {t : Ticket} (h : beginUpload s token now u row = .ok (some (row', t))) :
    row.execution = .agent ∧ row.assignedAgentId = some u.agentId ∧
      (u.attempt = none ∨ u.attempt = some row.attempts) ∧
      t.lease = ⟨token, row.attempts, u.agentId⟩ ∧ t.status = reportedStatus u row ∧
      confirmRunId s row.runId u.runId = .ok t.runId ∧
      ∃ reserved, reserve s now u row = .ok (some (reserved, t.late)) ∧
        (t.late = false → canTransition row.status t.status = true) ∧
        row' = (openIngestLease s u.agentId token now reserved).1 := by
  unfold beginUpload at h
  split_ifs at h with hexecution howner htenant hattempt
  rw [ne_eq, not_not] at hexecution howner
  cases hreserve : reserve s now u row with
  | error refusal => simp [hreserve] at h
  | ok answer =>
    cases answer with
    | none =>
      simp only [hreserve] at h
      split at h <;> simp at h
    | some begun =>
      obtain ⟨reserved, late⟩ := begun
      simp only [hreserve] at h
      split_ifs at h with hmove
      cases hrun : confirmRunId s row.runId u.runId with
      | error refusal => simp [hrun] at h
      | ok runId =>
        simp only [hrun, Except.ok.injEq, Option.some.injEq, Prod.mk.injEq] at h
        obtain ⟨hrow, rfl⟩ := h
        refine ⟨hexecution, howner, ?_, ?_, rfl, rfl, reserved, rfl, ?_, hrow.symm⟩
        · by_cases hnone : u.attempt = none
          · exact .inl hnone
          · exact .inr (by simpa [hnone] using hattempt)
        · have hcolumns := reserve_columns hreserve
          rw [hcolumns]
          rfl
        · intro hlate
          simp only at hlate
          simpa [hlate] using hmove

end Effects

end Shapoclyack.Jobs
