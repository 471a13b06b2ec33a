import Shapoclyack.JobStates
import Shapoclyack.Library.Runs
import Shapoclyack.Library.TableCounts

set_option autoImplicit false

namespace Shapoclyack.RunPublications

open JobStates Library

inductive PublicationStatus where
  | pending
  | dead
deriving DecidableEq, Repr

inductive ProjectionStep where
  | assets
  | findings
deriving DecidableEq, Repr

structure Settings where
  intervalSeconds : ℕ
  maxAttempts : ℕ
  retryBaseSeconds : ℕ
  retryMaxSeconds : ℕ
  orphanDeadlineSeconds : ℕ

/-- One row of `run_publications`. -/
structure Publication where
  publicationId : String
  jobStatus : Status
  /-- The row owes a risk assessment receipt (`risk_assessment_contract`). -/
  contract : Bool
  replica : Option String
  createdAt : ℤ
  updatedAt : ℤ
  status : PublicationStatus
  attempts : ℕ
  claims : ℕ
  claimsBase : ℕ
  fence : ℕ
  leaseLapses : ℕ
  nextAttemptAt : Option ℤ
  leasedUntil : Option ℤ
  storedAt : Option ℤ
  lastError : Option String
  projected : List ProjectionStep
deriving DecidableEq

def newPublication (publicationId : String) (jobStatus : Status) (instanceId : String) (now : ℤ) :
    Publication where
  publicationId := publicationId
  jobStatus := jobStatus
  contract := jobStatus == .succeeded
  replica := some instanceId
  createdAt := now
  updatedAt := now
  status := .pending
  attempts := 0
  claims := 0
  claimsBase := 0
  fence := 0
  leaseLapses := 0
  nextAttemptAt := some now
  leasedUntil := none
  storedAt := none
  lastError := none
  projected := []

section Rows

variable (s : Settings)

def after (now : ℤ) (seconds : ℕ) : ℤ := now + seconds * 1000000

def leaseHorizonSeconds : ℕ := max 60 s.intervalSeconds

def adoptionSeconds : ℕ := max 300 (10 * s.intervalSeconds)

def orphanDeadlineSeconds : ℕ := max s.orphanDeadlineSeconds (2 * adoptionSeconds s)

def retryDelaySeconds (attempts : ℕ) : ℕ :=
  min (s.retryBaseSeconds * 2 ^ min (attempts - 1) 20) s.retryMaxSeconds

/-- Push one claimed row out of the due window, and count the claim. -/
def hold (now : ℤ) (rows : ℕ) (row : Publication) : Publication :=
  { row with
    nextAttemptAt := some (after now (leaseHorizonSeconds s * max 1 rows))
    claimsBase := if row.claims < row.claimsBase then 0 else row.claimsBase
    claims := row.claims + 1
    fence := row.fence + 1 }

def due (instanceId : String) (now : ℤ) (row : Publication) : Bool :=
  row.status == .pending &&
    (match row.nextAttemptAt with
      | none => false
      | some instant => decide (instant ≤ now)) &&
    (row.replica == some instanceId || row.replica == none ||
      decide (after row.createdAt (adoptionSeconds s) < now))

def claimsSpent (row : Publication) : Bool :=
  decide (max (2 * s.maxAttempts) 4 < row.claims - row.claimsBase)

/-- The row was accepted by another replica, which may hold the only copy of its tree. -/
def foreign (instanceId : String) (row : Publication) : Bool :=
  row.replica != none && row.replica != some instanceId

def isOrphaned (now : ℤ) (row : Publication) : Bool :=
  decide (after row.updatedAt (orphanDeadlineSeconds s) < now)

/-- What an attempt's lease remembers of its own renewals. -/
structure Lease where
  heldUntil : Option ℤ
  unrecordedLapses : ℕ
  superseded : Bool

/-- The lapses one renewal writes down: being superseded counts once, coming late each time. -/
def Lease.lapses (lease : Lease) (superseded : Bool) (now : ℤ) : ℕ :=
  lease.unrecordedLapses +
    if superseded then (if lease.superseded then 0 else 1)
    else match lease.heldUntil with
      | none => 0
      | some instant => if instant < now then 1 else 0

def renew (fence : ℕ) (lease : Lease) (now dbNow : ℤ) (row : Publication) : Publication :=
  let held := after dbNow (leaseHorizonSeconds s)
  let stamped := { row with
    leaseLapses := row.leaseLapses + lease.lapses (row.fence != fence) now
    leasedUntil :=
      match row.leasedUntil with
      | none => some held
      | some instant => some (max instant held) }
  if row.status = .pending then
    { stamped with
      nextAttemptAt := some (after now (leaseHorizonSeconds s))
      updatedAt := now }
  else stamped

def markStored (now : ℤ) (row : Publication) : Publication :=
  { row with storedAt := some now, updatedAt := now }

/-- Whether an attempt's keys are still its own to remove. -/
def mayTakeBack (snapshot row : Publication) : Bool :=
  row.storedAt == none && row.claims == snapshot.claims && row.fence == snapshot.fence

def recordFailure (final : Bool) (reason : String) (now : ℤ) (row : Publication) : Publication :=
  let failed := { row with
    attempts := row.attempts + 1
    updatedAt := now
    claimsBase := row.claims
    lastError := some reason }
  if final = true ∨ s.maxAttempts ≤ row.attempts + 1 then
    { failed with status := .dead, nextAttemptAt := none }
  else
    { failed with
      nextAttemptAt := some (after now (retryDelaySeconds s (row.attempts + 1))) }

/-- Hand a peer's row back, or end it when nobody is coming for it. -/
def giveBack (snapshot : Publication) (now : ℤ) (row : Publication) : Publication :=
  if isOrphaned s now snapshot then
    recordFailure s true "the replica that accepted this upload is gone" now row
  else
    { row with
      nextAttemptAt := some (after now (adoptionSeconds s))
      claimsBase := row.claimsBase + 1 }

def isLeased (dbNow : ℤ) (row : Publication) : Bool :=
  match row.leasedUntil with
  | none => false
  | some instant => decide (dbNow < instant)

/-- `_refuse_while_leased`, where it lets the operator through. -/
def actionable (dbNow : ℤ) (row : Publication) : Bool :=
  row.status == .dead && !isLeased dbNow row

def requeue (now : ℤ) (row : Publication) : Publication :=
  { row with
    status := .pending
    attempts := 0
    claimsBase := row.claims
    fence := row.fence + 1
    nextAttemptAt := some now
    updatedAt := now }

/-- `first_pass`: mark a step under the row's lock; none where it is not fed again. -/
def firstPass (step : ProjectionStep) : Option Publication → Option Publication
  | none => none
  | some row =>
    if step ∈ row.projected then none
    else some { row with projected := row.projected ++ [step] }

/-- What every write keeps of the row, but a claim and a requeue: its outcome, its fence, what has
been fed, and that it was stored. -/
structure Carried (row row' : Publication) : Prop where
  jobStatus : row'.jobStatus = row.jobStatus
  contract : row'.contract = row.contract
  fence : row'.fence = row.fence
  projected : row'.projected = row.projected
  stored : row.storedAt ≠ none → row'.storedAt ≠ none

theorem renew_carried (fence : ℕ) (lease : Lease) (now dbNow : ℤ) (row : Publication) :
    Carried row (renew s fence lease now dbNow row) := by
  unfold renew
  simp only
  split_ifs <;> exact ⟨rfl, rfl, rfl, rfl, fun h => h⟩

theorem markStored_carried (now : ℤ) (row : Publication) : Carried row (markStored now row) :=
  ⟨rfl, rfl, rfl, rfl, fun _ => by simp [markStored]⟩

theorem recordFailure_carried (final : Bool) (reason : String) (now : ℤ) (row : Publication) :
    Carried row (recordFailure s final reason now row) := by
  unfold recordFailure
  simp only
  split_ifs <;> exact ⟨rfl, rfl, rfl, rfl, fun h => h⟩

theorem giveBack_carried (snapshot : Publication) (now : ℤ) (row : Publication) :
    Carried row (giveBack s snapshot now row) := by
  unfold giveBack
  split_ifs
  · exact recordFailure_carried s true _ now row
  · exact ⟨rfl, rfl, rfl, rfl, fun h => h⟩

end Rows

section Projection

/-- The derived updates a published run can feed, in the order they run. -/
inductive Action where
  | scopeDenials
  | assets
  | findings
  | verification
  | services
  | events
  | notify
deriving DecidableEq, Repr

/-- `POST_PUBLICATION`, with the journal alone for any other outcome. -/
def actionsFor : Status → List Action
  | .succeeded => [.scopeDenials, .assets, .findings, .services, .events, .notify]
  | .failed => [.scopeDenials, .verification]
  | .cancelled => [.scopeDenials, .verification]
  | _ => [.scopeDenials]

def Action.marks : Action → Option ProjectionStep
  | .assets => some .assets
  | .findings => some .findings
  | _ => none

end Projection

section Attempts

inductive Phase where
  /-- It has claimed the row. -/
  | held
  | uploading
  /-- The whole tree is up, and not yet stamped. -/
  | uploaded
  /-- The store refused it halfway. -/
  | refused
  /-- It has read that its keys are its own to take back. -/
  | permitted
  /-- The tree is in the store. -/
  | stored
  /-- `_publish` has returned. -/
  | published
  | projecting (rest : List Action)
  | projected
  /-- Nothing is left but to close the row. -/
  | closing
  | failed (reason : String) (final : Bool)
  | ended
deriving DecidableEq

structure Attempt where
  id : ℕ
  instanceId : String
  snapshot : Publication
  phase : Phase
  /-- The keys its transfer has put in the store. -/
  written : List String
  /-- It has stamped `stored_at`. -/
  stamped : Bool
  /-- The row was there when it began to project. -/
  found : Bool
  ran : List Action
  /-- An exception cut its projection short, and was noted on the job. -/
  aborted : Bool
deriving DecidableEq

def Attempt.live (a : Attempt) : Bool :=
  a.phase == .held || a.phase == .uploading || a.phase == .uploaded

/-- One publication: its row while it is owed, its attempts, the run's keys in the store, and the
marked steps that have committed. -/
structure Publishing where
  row : Option Publication
  attempts : Table Attempt.id
  store : List String
  fed : List ProjectionStep
  /-- The risk assessment receipt has been captured. -/
  receipt : Bool

def Publishing.start (row : Publication) : Publishing :=
  ⟨some row, Table.empty Attempt.id, [], [], false⟩

inductive Act where
  /-- The accepting request's own claim. -/
  | publishNow (id : ℕ) (instanceId : String) (now : ℤ)
  /-- A reconciler tick's claim, of a batch of rows. -/
  | claimDue (id : ℕ) (instanceId : String) (rows : ℕ) (now : ℤ)
  | handBack (id : ℕ) (now : ℤ)
  | writeOff (id : ℕ) (now : ℤ)
  | renewLease (id : ℕ) (lease : Lease) (now dbNow : ℤ)
  | put (id : ℕ) (key : String)
  | finishUpload (id : ℕ)
  | refuse (id : ℕ)
  /-- `_may_take_back`. -/
  | ask (id : ℕ)
  /-- `unpublish_run`: the store drops some of the keys it was asked to. -/
  | takeBack (id : ℕ) (keys : List String)
  | rolledBack (id : ℕ) (reason : String)
  | stamp (id : ℕ) (now : ℤ)
  /-- The staging tree is gone, and a finished attempt has stored it. -/
  | foundStored (id : ℕ)
  /-- The tree is promoted, the pointer written and the archive sent. -/
  | announce (id : ℕ)
  | raise (id : ℕ) (reason : String) (final : Bool)
  | project (id : ℕ)
  /-- Run the projection's next action, which commits or fails by itself. -/
  | feed (id : ℕ) (commits : Bool)
  /-- An exception leaves the projections, and is swallowed. -/
  | abort (id : ℕ)
  | checkReceipt (id : ℕ)
  | close (id : ℕ)
  | recordFailure (id : ℕ) (now : ℤ)
  | crash (id : ℕ)
  | requeue (now dbNow : ℤ)
  | discard (dbNow : ℤ)

variable (s : Settings)

namespace Publishing

variable (q : Publishing)

def claim (id : ℕ) (instanceId : String) (held : Publication) : Option Publishing :=
  if h : q.attempts.get id = none then
    some { q with
      row := some held
      attempts := q.attempts.append ⟨id, instanceId, held, .held, [], false, false, [], false⟩ h }
  else none

def moved (a : Attempt) (phase : Phase) : Publishing :=
  { q with attempts := q.attempts.put { a with phase := phase } }

/-- The transaction of a step that marks: the mark and the update commit together. -/
def commitStep (step : ProjectionStep) : Publishing :=
  match firstPass step q.row with
  | none => q
  | some row =>
    { q with
      row := some row
      fed := step :: q.fed
      receipt := q.receipt || step == .findings }

def runAction (action : Action) (commits : Bool) : Publishing :=
  match action.marks with
  | none => q
  | some step => if commits then q.commitStep step else q

/-- `ensure_publication_receipt`, true where it raises nothing. -/
def receiptKept : Bool :=
  match q.row with
  | none => true
  | some row => !(row.contract && row.jobStatus == .succeeded) || q.receipt

end Publishing

/-- What an attempt does next, by where it stands. -/
def attemptStep (q : Publishing) (a : Attempt) : Act → Option Publishing
  | .handBack _ now =>
    if a.phase = .held ∧ foreign a.instanceId a.snapshot = true then
      some { q.moved a .ended with row := q.row.map (giveBack s a.snapshot now) }
    else none
  | .writeOff _ now =>
    if a.phase = .held ∧ claimsSpent s a.snapshot = true then
      some { q.moved a .ended with
        row := q.row.map (recordFailure s true "claimed without an outcome" now) }
    else none
  | .renewLease _ lease now dbNow =>
    if a.phase = .ended then none
    else some { q with row := q.row.map (renew s a.snapshot.fence lease now dbNow) }
  | .put _ key =>
    if a.phase = .held ∨ a.phase = .uploading then
      some { q with
        attempts := q.attempts.put { a with phase := .uploading, written := key :: a.written }
        store := key :: q.store }
    else none
  | .finishUpload _ =>
    if a.phase = .held ∨ a.phase = .uploading then some (q.moved a .uploaded) else none
  | .refuse _ =>
    if a.phase = .held ∨ a.phase = .uploading then some (q.moved a .refused) else none
  | .ask _ =>
    if a.phase = .refused ∧ a.written ≠ [] then
      match q.row with
      | none => some q
      | some row => some (if mayTakeBack a.snapshot row then q.moved a .permitted else q)
    else none
  | .takeBack _ keys =>
    if a.phase = .permitted ∧ ∀ key ∈ keys, key ∈ a.written then
      some { q with store := q.store.filter fun key => decide (key ∉ keys) }
    else none
  | .rolledBack _ reason =>
    if a.phase = .refused ∨ a.phase = .permitted then some (q.moved a (.failed reason false))
    else none
  | .stamp _ now =>
    if a.phase = .uploaded then
      some { q with
        row := q.row.map (markStored now)
        attempts := q.attempts.put { a with phase := .stored, stamped := q.row.isSome } }
    else none
  | .foundStored _ =>
    if a.phase = .held ∧ a.snapshot.storedAt ≠ none then some (q.moved a .stored) else none
  | .announce _ => if a.phase = .stored then some (q.moved a .published) else none
  | .raise _ reason final =>
    if a.phase = .ended then none else some (q.moved a (.failed reason final))
  | .project _ =>
    if a.phase = .published then
      match q.row with
      | none => some (q.moved a .projected)
      | some _ =>
        some { q with
          attempts := q.attempts.put { a with
            phase := .projecting (actionsFor a.snapshot.jobStatus)
            found := true } }
    else none
  | .feed _ commits =>
    match a.phase with
    | .projecting (action :: rest) =>
      some { q.runAction action commits with
        attempts := q.attempts.put { a with
          phase := .projecting rest
          ran := a.ran ++ [action] } }
    | .projecting [] => some (q.moved a .projected)
    | _ => none
  | .abort _ =>
    match a.phase with
    | .projecting rest =>
      some { q with
        attempts := q.attempts.put { a with
          phase := .projecting (rest.filter fun action => action == .notify)
          aborted := true } }
    | _ => none
  | .checkReceipt _ =>
    if a.phase = .projected then
      some (q.moved a
        (if q.receiptKept then .closing
        else .failed "accepted publication risk receipt capture has not completed" false))
    else none
  | .close _ =>
    if a.phase = .closing then some { q.moved a .ended with row := none } else none
  | .recordFailure _ now =>
    match a.phase with
    | .failed reason final =>
      some { q.moved a .ended with row := q.row.map (recordFailure s final reason now) }
    | _ => none
  | .crash _ => some (q.moved a .ended)
  | _ => none

def Act.attempt : Act → Option ℕ
  | .publishNow _ _ _ | .claimDue _ _ _ _ | .requeue _ _ | .discard _ => none
  | .handBack id _ | .writeOff id _ | .renewLease id _ _ _ | .put id _ | .finishUpload id
  | .refuse id | .ask id | .takeBack id _ | .rolledBack id _ | .stamp id _ | .foundStored id
  | .announce id | .raise id _ _ | .project id | .feed id _ | .abort id | .checkReceipt id
  | .close id | .recordFailure id _ | .crash id => some id

/-- One step of the publication. -/
def Publishing.step (q : Publishing) (act : Act) : Option Publishing :=
  match act with
  | .publishNow id instanceId now =>
    match q.row with
    | none => none
    | some row => q.claim id instanceId (hold s now 1 row)
  | .claimDue id instanceId rows now =>
    match q.row with
    | none => none
    | some row =>
      if due s instanceId now row then q.claim id instanceId (hold s now rows row) else none
  | .requeue now dbNow =>
    match q.row with
    | none => none
    | some row =>
      if actionable dbNow row then some { q with row := some (requeue now row) } else none
  | .discard dbNow =>
    match q.row with
    | none => none
    | some row => if actionable dbNow row then some { q with row := none } else none
  | act =>
    match act.attempt.bind q.attempts.get with
    | none => none
    | some a => attemptStep s q a act

abbrev publicationStep : Publishing → Act → Publishing → Prop := ofStep (Publishing.step s)

end Attempts

section Inversion

variable {s : Settings} {q q' : Publishing} {a : Attempt} {act : Act}

inductive Moves (q : Publishing) (a : Attempt) : Act → Phase → Prop where
  | finishUpload (id : ℕ) (h : a.phase = .held ∨ a.phase = .uploading) :
    Moves q a (.finishUpload id) .uploaded
  | refuse (id : ℕ) (h : a.phase = .held ∨ a.phase = .uploading) : Moves q a (.refuse id) .refused
  | permit (id : ℕ) {row : Publication} (h : a.phase = .refused) (hrow : q.row = some row)
    (hmay : mayTakeBack a.snapshot row = true) : Moves q a (.ask id) .permitted
  | rolledBack (id : ℕ) (reason : String) : Moves q a (.rolledBack id reason) (.failed reason false)
  | foundStored (id : ℕ) (h : a.phase = .held) : Moves q a (.foundStored id) .stored
  | announce (id : ℕ) (h : a.phase = .stored) : Moves q a (.announce id) .published
  | raise (id : ℕ) (reason : String) (final : Bool) :
    Moves q a (.raise id reason final) (.failed reason final)
  | project (id : ℕ) (hrow : q.row = none) : Moves q a (.project id) .projected
  | drained (id : ℕ) (commits : Bool) (h : a.phase = .projecting []) :
    Moves q a (.feed id commits) .projected
  | settled (id : ℕ) (h : a.phase = .projected) (hkept : q.receiptKept = true) :
    Moves q a (.checkReceipt id) .closing
  | unsettled (id : ℕ) (reason : String) : Moves q a (.checkReceipt id) (.failed reason false)
  | crash (id : ℕ) : Moves q a (.crash id) .ended

inductive AttemptStep (s : Settings) (q : Publishing) (a : Attempt) : Act → Publishing → Prop where
  | moved {act : Act} {phase : Phase} (h : Moves q a act phase) :
    AttemptStep s q a act (q.moved a phase)
  | refused (id : ℕ) : AttemptStep s q a (.ask id) q
  | handBack (id : ℕ) (now : ℤ) : AttemptStep s q a (.handBack id now)
      { q.moved a .ended with row := q.row.map (giveBack s a.snapshot now) }
  | writeOff (id : ℕ) (now : ℤ) (hspent : claimsSpent s a.snapshot = true) :
    AttemptStep s q a (.writeOff id now) { q.moved a .ended with
      row := q.row.map (recordFailure s true "claimed without an outcome" now) }
  | recordFailure (id : ℕ) (reason : String) (final : Bool) (now : ℤ) :
    AttemptStep s q a (.recordFailure id now)
      { q.moved a .ended with row := q.row.map (recordFailure s final reason now) }
  | renewLease (id : ℕ) (lease : Lease) (now dbNow : ℤ) :
    AttemptStep s q a (.renewLease id lease now dbNow)
      { q with row := q.row.map (renew s a.snapshot.fence lease now dbNow) }
  | put (id : ℕ) (key : String) (h : a.phase = .held ∨ a.phase = .uploading) :
    AttemptStep s q a (.put id key) { q with
      attempts := q.attempts.put { a with phase := .uploading, written := key :: a.written }
      store := key :: q.store }
  | takeBack (id : ℕ) (keys : List String) (h : a.phase = .permitted)
    (hown : ∀ key ∈ keys, key ∈ a.written) : AttemptStep s q a (.takeBack id keys)
      { q with store := q.store.filter fun key => decide (key ∉ keys) }
  | stamp (id : ℕ) (now : ℤ) (h : a.phase = .uploaded) : AttemptStep s q a (.stamp id now) { q with
      row := q.row.map (markStored now)
      attempts := q.attempts.put { a with phase := .stored, stamped := q.row.isSome } }
  | project (id : ℕ) (h : a.phase = .published) : AttemptStep s q a (.project id) { q with
      attempts := q.attempts.put { a with
        phase := .projecting (actionsFor a.snapshot.jobStatus)
        found := true } }
  | feed (id : ℕ) (commits : Bool) {action : Action} {rest : List Action}
    (h : a.phase = .projecting (action :: rest)) : AttemptStep s q a (.feed id commits)
      { q.runAction action commits with
        attempts := q.attempts.put { a with
          phase := .projecting rest
          ran := a.ran ++ [action] } }
  | abort (id : ℕ) {rest : List Action} (h : a.phase = .projecting rest) :
    AttemptStep s q a (.abort id) { q with
      attempts := q.attempts.put { a with
        phase := .projecting (rest.filter fun action => action == .notify)
        aborted := true } }
  | close (id : ℕ) (h : a.phase = .closing) :
    AttemptStep s q a (.close id) { q.moved a .ended with row := none }

theorem ask_cases {id : ℕ} (h : attemptStep s q a (.ask id) = some q') :
    AttemptStep s q a (.ask id) q' := by
  simp only [attemptStep] at h
  split_ifs at h with hphase
  split at h
  · obtain rfl := Option.some.inj h
    exact .refused id
  · next row hrow =>
    split_ifs at h with hmay
    · obtain rfl := Option.some.inj h
      exact .moved (.permit id hphase.1 hrow hmay)
    · obtain rfl := Option.some.inj h
      exact .refused id

theorem project_cases {id : ℕ} (h : attemptStep s q a (.project id) = some q') :
    AttemptStep s q a (.project id) q' := by
  simp only [attemptStep] at h
  split_ifs at h with hphase
  split at h
  · next hrow =>
    obtain rfl := Option.some.inj h
    exact .moved (.project id hrow)
  · obtain rfl := Option.some.inj h
    exact .project id hphase

theorem feed_cases {id : ℕ} {commits : Bool} (h : attemptStep s q a (.feed id commits) = some q') :
    AttemptStep s q a (.feed id commits) q' := by
  simp only [attemptStep] at h
  split at h
  · next action rest hphase =>
    obtain rfl := Option.some.inj h
    exact .feed id commits hphase
  · next hphase =>
    obtain rfl := Option.some.inj h
    exact .moved (.drained id commits hphase)
  · cases h

theorem checkReceipt_cases {id : ℕ} (h : attemptStep s q a (.checkReceipt id) = some q') :
    AttemptStep s q a (.checkReceipt id) q' := by
  simp only [attemptStep] at h
  split_ifs at h with hphase hkept
  · obtain rfl := Option.some.inj h
    exact .moved (.settled id hphase hkept)
  · obtain rfl := Option.some.inj h
    exact .moved (.unsettled id _)

/-- A step of an attempt does one of these. -/
theorem attemptStep_cases (h : attemptStep s q a act = some q') : AttemptStep s q a act q' := by
  cases act with
  | ask id => exact ask_cases h
  | project id => exact project_cases h
  | feed id commits => exact feed_cases h
  | checkReceipt id => exact checkReceipt_cases h
  | publishNow | claimDue | requeue | discard => cases h
  | crash id =>
    obtain rfl := Option.some.inj h
    exact .moved (.crash id)
  | abort id =>
    simp only [attemptStep] at h
    split at h
    · next rest hphase =>
      obtain rfl := Option.some.inj h
      exact .abort id hphase
    · cases h
  | recordFailure id now =>
    simp only [attemptStep] at h
    split at h
    · next reason final _ =>
      obtain rfl := Option.some.inj h
      exact .recordFailure id reason final now
    · cases h
  | _ =>
    -- the acts whose only guard is on the phase of the attempt
    simp only [attemptStep] at h
    split_ifs at h with hphase
    obtain rfl := Option.some.inj h
    first
      | exact .moved (.finishUpload _ hphase)
      | exact .moved (.refuse _ hphase)
      | exact .moved (.rolledBack _ _)
      | exact .moved (.foundStored _ hphase.1)
      | exact .moved (.announce _ hphase)
      | exact .moved (.raise _ _ _)
      | exact .handBack _ _
      | exact .writeOff _ _ hphase.2
      | exact .renewLease _ _ _ _
      | exact .put _ _ hphase
      | exact .takeBack _ _ hphase.1 hphase.2
      | exact .stamp _ _ hphase
      | exact .close _ hphase

inductive PublishingStep (s : Settings) (q : Publishing) : Act → Publishing → Prop where
  | publishNow (id : ℕ) (instanceId : String) (now : ℤ) {row : Publication} {q' : Publishing}
    (hrow : q.row = some row) (h : q.claim id instanceId (hold s now 1 row) = some q') :
    PublishingStep s q (.publishNow id instanceId now) q'
  | claimDue (id : ℕ) (instanceId : String) (rows : ℕ) (now : ℤ) {row : Publication}
    {q' : Publishing} (hrow : q.row = some row)
    (h : q.claim id instanceId (hold s now rows row) = some q') :
    PublishingStep s q (.claimDue id instanceId rows now) q'
  | requeue (now dbNow : ℤ) {row : Publication} (hrow : q.row = some row) :
    PublishingStep s q (.requeue now dbNow) { q with row := some (requeue now row) }
  | discard (dbNow : ℤ) : PublishingStep s q (.discard dbNow) { q with row := none }
  | attempt {act : Act} {id : ℕ} {a : Attempt} {q' : Publishing} (hid : act.attempt = some id)
    (hget : q.attempts.get id = some a) (h : attemptStep s q a act = some q') :
    PublishingStep s q act q'

/-- A step of the publication does one of these. -/
theorem publishing_cases (h : q.step s act = some q') : PublishingStep s q act q' := by
  cases act with
  | publishNow id instanceId now =>
    simp only [Publishing.step] at h
    split at h
    · cases h
    · next row hrow => exact .publishNow id instanceId now hrow h
  | claimDue id instanceId rows now =>
    simp only [Publishing.step] at h
    split at h
    · cases h
    · next row hrow =>
      split_ifs at h
      exact .claimDue id instanceId rows now hrow h
  | requeue now dbNow =>
    simp only [Publishing.step] at h
    split at h
    · cases h
    · next row hrow =>
      split_ifs at h
      obtain rfl := Option.some.inj h
      exact .requeue now dbNow hrow
  | discard dbNow =>
    simp only [Publishing.step] at h
    split at h
    · cases h
    · split_ifs at h
      obtain rfl := Option.some.inj h
      exact .discard dbNow
  | _ =>
    simp only [Publishing.step] at h
    split at h
    · cases h
    · next a hget =>
      rw [Act.attempt, Option.bind_some] at hget
      exact .attempt rfl hget h

end Inversion

end Shapoclyack.RunPublications
