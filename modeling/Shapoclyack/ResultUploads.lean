import Shapoclyack.JobConcurrency

set_option autoImplicit false

namespace Shapoclyack.ResultUploads

open JobStates FindingEvidence Jobs JobConcurrency

/-- One `run_publications` row: a run the installation still owes its visible copy. -/
structure Publication where
  publicationId : String
  tenantId : String
  jobId : String
  runId : String
  jobStatus : Status
deriving DecidableEq

inductive Phase where
  | ingesting
  /-- Its commit was refused, or its archive was. -/
  | failed
  /-- It failed and has given its key back. -/
  | released
deriving DecidableEq

/-- An upload between its first transaction and its last. -/
structure Pending where
  upload : Upload
  /-- The hand-out the agent ran to produce it, whether or not it says so. -/
  handOut : ℕ
  ticket : Ticket
  phase : Phase
deriving DecidableEq

structure Recorded where
  source : Option Pending
  /-- False for an upload whose archive was refused. -/
  accepted : Bool
  /-- The job's attempt when the outcome was committed. -/
  attempt : ℕ
  publication : Option Publication

/-- A job, the uploads still open on it, and what has been recorded of it so far. -/
structure Ingest where
  row : Job
  pending : List Pending
  publications : List Publication
  recorded : List Recorded

def Ingest.start (row : Job) : Ingest := ⟨row, [], [], []⟩

def Ingest.advance (st : Ingest) (p : Pending) (phase : Phase) : Ingest :=
  { st with pending := { p with phase := phase } :: st.pending.erase p }

/-- Write an outcome: the row, the outcome and the publication it owes are one transaction. -/
def Ingest.record (st : Ingest) (row : Job) (r : Recorded) : Ingest :=
  { st with
    row := row
    publications := r.publication.toList ++ st.publications
    recorded := r :: st.recorded }

/-- `new_publication`, named after the lease that authorised the outcome. -/
def Pending.publication (p : Pending) (row : Job) : Option Publication :=
  if p.upload.hasArchive then
    some ⟨p.ticket.lease.token, row.tenantId, row.jobId, text p.ticket.runId, p.ticket.status⟩
  else none

def Pending.fileable (p : Pending) : Bool := !p.upload.hasArchive || truthy p.ticket.runId

/-- The commit of an upload: its outcome, or for a late archive a note of where it landed. -/
def Pending.commit (p : Pending) (now : ℤ) (row : Job) : Outcome :=
  if p.ticket.late then recordLateCancellationArchive p.upload p.ticket row
  else acceptUpload p.upload p.ticket now row

def Pending.release (p : Pending) (row : Job) : Job :=
  match heldReservation p.upload p.ticket.late with
  | none => row
  | some key => releaseResultsReservation key p.ticket.late row

/-- `new_local_publication`, named after the job. -/
def localPublication (run : LocalRun) (row : Job) : Option Publication :=
  if run.hasDirectory = true ∧ truthy run.runId = true then
    some ⟨"local-" ++ row.jobId, row.tenantId, row.jobId, text run.runId, run.status⟩
  else none

def queueOp : JobOp → Bool
  | .claim _ _ => true
  | .heartbeat _ _ => true
  | .renew _ _ => true
  | .cancel _ _ => true
  | .reapLease _ => true
  | .reapCancellation _ => true
  | .startLocal _ _ _ => true
  | .failLocal _ _ => true
  | _ => false

def threadOp : JobOp → Bool
  | .startLocal _ _ _ => true
  | .failLocal _ _ => true
  | _ => false

inductive Event where
  /-- An operation of the queue. A heartbeat stands here for one that lands on the version it read:
  what an overlapping one does is the subject of `JobConcurrency`. -/
  | queue (op : JobOp)
  | begun (u : Upload) (handOut : ℕ) (token : String) (now : ℤ)
  | committed (p : Pending) (now : ℤ)
  | rejected (p : Pending) (rejection : String) (now : ℤ)
  | abandoned (p : Pending)
  | reservationReleased (p : Pending)
  | leaseReleased (p : Pending) (now : ℤ)
  | finishedLocal (run : LocalRun) (now : ℤ)

/-- An agent sends the attempt it was handed, or, before that was asked of it, none. -/
def presents (u : Upload) (handOut : ℕ) : Bool :=
  u.attempt == none || u.attempt == some handOut

/-- One step of a job and its uploads; none where the transaction is refused. -/
def Ingest.step (s : Settings) (st : Ingest) : Event → Option Ingest
  | .queue op =>
    if queueOp op = true ∧ (threadOp op = true → st.row.execution = .local) then
      (op.run s st.row).map fun row => { st with row := row }
    else none
  | .begun u handOut token now =>
    if presents u handOut = true ∧ handOut ≤ st.row.attempts then
      match beginUpload s token now u st.row with
      | .ok (some (row, t)) =>
        some { st with row := row, pending := ⟨u, handOut, t, .ingesting⟩ :: st.pending }
      | _ => none
    else none
  | .committed p now =>
    if p ∈ st.pending ∧ p.phase = .ingesting ∧ p.fileable = true then
      match p.commit now st.row with
      | .ok row =>
        some (({ st with pending := st.pending.erase p }).record row
          ⟨some p, true, st.row.attempts, p.publication st.row⟩)
      | .error _ => some (st.advance p .failed)
    else none
  | .rejected p rejection now =>
    if p ∈ st.pending ∧ p.phase = .ingesting ∧ p.upload.hasArchive = true ∧
        p.ticket.late = false then
      match failRejectedUpload p.upload p.ticket rejection now st.row with
      | .ok row =>
        some ((st.advance p .failed).record row ⟨some p, false, st.row.attempts, none⟩)
      | .error _ => some (st.advance p .failed)
    else none
  | .abandoned p =>
    if p ∈ st.pending ∧ p.phase = .ingesting then some (st.advance p .failed) else none
  | .reservationReleased p =>
    if p ∈ st.pending ∧ p.phase = .failed then
      some { st.advance p .released with row := p.release st.row }
    else none
  | .leaseReleased p now =>
    if p ∈ st.pending ∧ p.phase = .released then
      some { st with
        row := releaseIngestLease s p.ticket.lease now st.row
        pending := st.pending.erase p }
    else none
  | .finishedLocal run now =>
    if st.row.execution = .local then
      match Jobs.finishLocal run now st.row with
      | .ok row =>
        some (st.record row ⟨none, true, st.row.attempts, localPublication run st.row⟩)
      | .error _ => none
    else none

def Event.pending : Event → Option Pending
  | .committed p _ => some p
  | .rejected p _ _ => some p
  | .abandoned p => some p
  | .reservationReleased p => some p
  | .leaseReleased p _ => some p
  | _ => none

def Event.upload : Event → Option Upload
  | .begun u _ _ _ => some u
  | e => e.pending.map Pending.upload

inductive Stepped (s : Settings) (st : Ingest) : Event → Ingest → Prop where
  | queue {op : JobOp} {row : Job} (hop : queueOp op = true)
      (hthread : threadOp op = true → st.row.execution = .local)
      (hrow : op.run s st.row = some row) : Stepped s st (.queue op) { st with row := row }
  | begun {u : Upload} {handOut : ℕ} {token : String} {now : ℤ} {row : Job} {t : Ticket}
      (hbegin : beginUpload s token now u st.row = .ok (some (row, t))) :
      Stepped s st (.begun u handOut token now)
        { st with row := row, pending := ⟨u, handOut, t, .ingesting⟩ :: st.pending }
  | committed {p : Pending} {now : ℤ} {row : Job} (hp : p ∈ st.pending)
      (hphase : p.phase = .ingesting) (hfileable : p.fileable = true)
      (hcommit : p.commit now st.row = .ok row) :
      Stepped s st (.committed p now)
        (({ st with pending := st.pending.erase p }).record row
          ⟨some p, true, st.row.attempts, p.publication st.row⟩)
  | rejected {p : Pending} {rejection : String} {now : ℤ} {row : Job} (hp : p ∈ st.pending)
      (hphase : p.phase = .ingesting)
      (hreject : failRejectedUpload p.upload p.ticket rejection now st.row = .ok row) :
      Stepped s st (.rejected p rejection now)
        ((st.advance p .failed).record row ⟨some p, false, st.row.attempts, none⟩)
  /-- The commit, the refusal of the archive or the work between them failed. -/
  | failed {e : Event} {p : Pending} (he : e.pending = some p) (hp : p ∈ st.pending)
      (hphase : p.phase = .ingesting) : Stepped s st e (st.advance p .failed)
  | reservationReleased {p : Pending} (hp : p ∈ st.pending) (hphase : p.phase = .failed) :
      Stepped s st (.reservationReleased p)
        { st.advance p .released with row := p.release st.row }
  | leaseReleased {p : Pending} {now : ℤ} (hp : p ∈ st.pending) :
      Stepped s st (.leaseReleased p now)
        { st with
          row := releaseIngestLease s p.ticket.lease now st.row
          pending := st.pending.erase p }
  | finishedLocal {run : LocalRun} {now : ℤ} {row : Job}
      (hfinish : Jobs.finishLocal run now st.row = .ok row) :
      Stepped s st (.finishedLocal run now)
        (st.record row ⟨none, true, st.row.attempts, localPublication run st.row⟩)

theorem step_cases {s : Settings} {st st' : Ingest} {e : Event} (h : st.step s e = some st') :
    Stepped s st e st' := by
  cases e with
  | queue op =>
    simp only [Ingest.step] at h
    split at h
    case isFalse => simp at h
    case isTrue hop =>
      obtain ⟨row, hrow, rfl⟩ := Option.map_eq_some_iff.mp h
      exact .queue hop.1 hop.2 hrow
  | begun u handOut token now =>
    simp only [Ingest.step] at h
    split at h
    case isFalse => simp at h
    case isTrue =>
      split at h
      case h_1 row t hbegin =>
        rw [← Option.some.inj h]
        exact .begun hbegin
      case h_2 => simp at h
  | committed p now =>
    simp only [Ingest.step] at h
    split at h
    case isFalse => simp at h
    case isTrue hp =>
      split at h
      case h_1 row hcommit =>
        rw [← Option.some.inj h]
        exact .committed hp.1 hp.2.1 hp.2.2 hcommit
      case h_2 =>
        rw [← Option.some.inj h]
        exact .failed rfl hp.1 hp.2.1
  | rejected p rejection now =>
    simp only [Ingest.step] at h
    split at h
    case isFalse => simp at h
    case isTrue hp =>
      split at h
      case h_1 row hreject =>
        rw [← Option.some.inj h]
        exact .rejected hp.1 hp.2.1 hreject
      case h_2 =>
        rw [← Option.some.inj h]
        exact .failed rfl hp.1 hp.2.1
  | abandoned p =>
    simp only [Ingest.step] at h
    split at h
    case isFalse => simp at h
    case isTrue hp =>
      rw [← Option.some.inj h]
      exact .failed rfl hp.1 hp.2
  | reservationReleased p =>
    simp only [Ingest.step] at h
    split at h
    case isFalse => simp at h
    case isTrue hp =>
      rw [← Option.some.inj h]
      exact .reservationReleased hp.1 hp.2
  | leaseReleased p now =>
    simp only [Ingest.step] at h
    split at h
    case isFalse => simp at h
    case isTrue hp =>
      rw [← Option.some.inj h]
      exact .leaseReleased hp.1
  | finishedLocal run now =>
    simp only [Ingest.step] at h
    split at h
    case isFalse => simp at h
    case isTrue =>
      split at h
      case h_1 row hfinish =>
        rw [← Option.some.inj h]
        exact .finishedLocal hfinish
      case h_2 => simp at h

end Shapoclyack.ResultUploads
