import Mathlib.Data.List.Sort
import Shapoclyack.Findings
import Shapoclyack.Library.Runs
import Shapoclyack.Library.TableCounts

set_option autoImplicit false

namespace Shapoclyack.CampaignLedger

open Library VulnStates Findings

section Tables

/-- A row of `vulnerabilities`, as far as a campaign reads it. -/
structure Finding where
  vulnId : String
  tenantId : String
  assetId : String
  state : State
  stateChangedAt : ℤ
  closureReason : Option ClosureReason
  machineVerified : Bool
  exceptionUntil : Option ℤ
  reopenCount : ℕ
  ticketSystem : Option String
  ticketKey : Option String
deriving DecidableEq

inductive EventKind where
  | verificationInconclusive
  | verificationUnreachable
  | other (name : String)
deriving DecidableEq

structure FindingEvent where
  vulnId : String
  kind : EventKind
  occurredAt : ℤ
deriving DecidableEq

inductive MemberStatus where
  | included
  | excluded
deriving DecidableEq

inductive VerifyOutcome where
  | dispatched
  | conflict
  | unsupported
  | failed
deriving DecidableEq

structure Member where
  tenantId : String
  campaignId : String
  vulnId : String
  status : MemberStatus
  reopenBaseline : ℕ
  lastVerifyAt : Option ℤ
  lastVerifyOutcome : Option VerifyOutcome
deriving DecidableEq

/-- `uq_campaign_member`. -/
def Member.key (member : Member) : String × String := (member.campaignId, member.vulnId)

inductive Status where
  | active
  | completed
  | cancelled
deriving DecidableEq

structure Campaign where
  campaignId : String
  tenantId : String
  status : Status
  statusChangedAt : ℤ
  completedAt : Option ℤ
  reopenCount : ℕ
  compositionHash : String
  snapshotSize : ℕ
  trackedMembers : ℕ
deriving DecidableEq

structure Db where
  findings : Table Finding.vulnId
  events : List FindingEvent
  members : Table Member.key
  campaigns : Table Campaign.campaignId

/-- A checked selection: the test its problem keys and filters put to a finding, and finding ids. -/
structure Selection where
  problems : Option (Finding → Bool)
  vulnIds : List String
  distinct : vulnIds.Nodup

end Tables

section Progress

def maxMembers : ℕ := 2000

inductive Category where
  | open_
  | fixing
  | awaitingVerification
  | verified
  | acceptedRisk
  | falsePositive
  | closedUnverified
  | unavailable
deriving DecidableEq

def allCategories : List Category :=
  [.open_, .fixing, .awaitingVerification, .verified, .acceptedRisk, .falsePositive,
    .closedUnverified, .unavailable]

def resolvedCategories : List Category := [.verified, .acceptedRisk, .falsePositive]

def inconclusive (events : List FindingEvent) (finding : Finding) : Bool :=
  events.any fun event =>
    event.vulnId == finding.vulnId &&
      (event.kind == .verificationInconclusive || event.kind == .verificationUnreachable) &&
      decide (finding.stateChangedAt ≤ event.occurredAt)

-- A comparison with a missing outcome or time is unknown, which no branch of the `CASE` takes.
def refused (member : Member) (finding : Finding) : Bool :=
  (member.lastVerifyOutcome == some .unsupported || member.lastVerifyOutcome == some .failed) &&
    member.lastVerifyAt.any fun at_ => decide (finding.stateChangedAt ≤ at_)

/-- `_category_expr`. -/
def category (events : List FindingEvent) (now : ℤ) (member : Member) (finding : Finding) :
    Category :=
  if finding.state = .CLOSED ∧ finding.closureReason = some .falsePositive then .falsePositive
  else if finding.state = .CLOSED ∧ finding.machineVerified = true then .verified
  else if finding.state = .CLOSED ∧ finding.closureReason = some .endpointUnreachable then
    .unavailable
  else if finding.state = .CLOSED then .closedUnverified
  else if (finding.exceptionUntil.any fun until_ => decide (now < until_)) = true then .acceptedRisk
  else if finding.state = .VERIFYING then .awaitingVerification
  else if (refused member finding || inconclusive events finding) = true then .unavailable
  else if finding.state = .PLANNED ∨ finding.state = .FIXING then .fixing
  else .open_

structure Progress where
  total : ℕ
  excluded : ℕ
  categories : Category → ℕ
  recurred : ℕ
  vanished : ℕ
  assets : ℕ
  linkedFindings : ℕ
  distinctTickets : ℕ
  unresolved : ℕ

def included (db : Db) (campaignId : String) : List Member :=
  db.members.rows.filter fun member =>
    member.campaignId == campaignId && member.status == .included

def excluded (db : Db) (campaignId : String) : List Member :=
  db.members.rows.filter fun member =>
    member.campaignId == campaignId && member.status == .excluded

def joins (member : Member) (finding : Finding) : Bool :=
  finding.vulnId == member.vulnId && finding.tenantId == member.tenantId

def joined (db : Db) (campaignId : String) : List (Member × Finding) :=
  (included db campaignId).flatMap fun member =>
    (db.findings.rows.filter (joins member)).map fun finding => (member, finding)

def ticket (finding : Finding) : Option String :=
  finding.ticketKey.bind fun key => finding.ticketSystem.map fun system => system ++ ":" ++ key

/-- `_progress` of one campaign. -/
def progress (db : Db) (now : ℤ) (campaign : Campaign) : Progress :=
  let rows := joined db campaign.campaignId
  let categories := fun name => rows.countP fun row => category db.events now row.1 row.2 == name
  let total := (allCategories.map categories).sum
  let outside := (excluded db campaign.campaignId).length
  { total := total
    excluded := outside
    categories := categories
    recurred := rows.countP fun row => decide (row.1.reopenBaseline < row.2.reopenCount)
    -- Subtraction on the naturals stops at 0, as `max(0, …)` does.
    vanished := campaign.trackedMembers - total - outside
    assets := (rows.map fun row => row.2.assetId).dedup.length
    linkedFindings := rows.countP fun row => row.2.ticketKey.isSome
    distinctTickets := (rows.filterMap fun row => ticket row.2).dedup.length
    unresolved := total - (resolvedCategories.map categories).sum }

end Progress

section Reconciliation

/-- What `_reconcile` makes of a campaign's own row. -/
def reconciled (now : ℤ) (campaign : Campaign) (counts : Progress) : Campaign :=
  match campaign.status with
  | .cancelled => campaign
  | .active =>
    if 0 < counts.total ∧ counts.unresolved = 0 ∧ counts.vanished = 0 then
      { campaign with status := .completed, statusChangedAt := now, completedAt := some now }
    else campaign
  | .completed =>
    if 0 < counts.unresolved then
      { campaign with
        status := .active
        statusChangedAt := now
        completedAt := none
        reopenCount := campaign.reopenCount + 1 }
    else campaign

theorem reconciled_id (now : ℤ) (campaign : Campaign) (counts : Progress) :
    (reconciled now campaign counts).campaignId = campaign.campaignId := by
  unfold reconciled
  split
  · rfl
  · split_ifs <;> rfl
  · split_ifs <;> rfl

theorem reconciled_tracked (now : ℤ) (campaign : Campaign) (counts : Progress) :
    (reconciled now campaign counts).trackedMembers = campaign.trackedMembers := by
  unfold reconciled
  split
  · rfl
  · split_ifs <;> rfl
  · split_ifs <;> rfl

section Statuses

variable {now : ℤ} {campaign : Campaign} {counts : Progress}

theorem reconciled_of_cancelled (h : campaign.status = .cancelled) :
    reconciled now campaign counts = campaign := by
  unfold reconciled
  rw [h]

theorem reconciled_of_active (h : campaign.status = .active) :
    (reconciled now campaign counts).status = .completed ↔
      0 < counts.total ∧ counts.unresolved = 0 ∧ counts.vanished = 0 := by
  unfold reconciled
  rw [h]
  dsimp only
  split_ifs with hcase
  · exact iff_of_true rfl hcase
  · exact iff_of_false (by simp [h]) hcase

theorem reconciled_of_completed (h : campaign.status = .completed) :
    (reconciled now campaign counts).status = .completed ↔ counts.unresolved = 0 := by
  unfold reconciled
  rw [h]
  dsimp only
  split_ifs with hcase
  · exact iff_of_false (by simp) (Nat.pos_iff_ne_zero.mp hcase)
  · exact iff_of_true h (Nat.eq_zero_of_not_pos hcase)

end Statuses

/-- The compare-and-set of `_reconcile` on the campaigns of a page, each with the counts the page
was read with. -/
def reconcile (now : ℤ) (page : List String) (db : Db) : Db :=
  { db with
    campaigns := db.campaigns.modify
      (fun campaign =>
        if campaign.campaignId ∈ page then reconciled now campaign (progress db now campaign)
        else campaign)
      (by
        intro campaign
        split_ifs
        · exact reconciled_id now campaign _
        · rfl) }

def load (db : Db) (tenantId campaignId : String) : Option Campaign :=
  (db.campaigns.get campaignId).filter fun campaign => campaign.tenantId == tenantId

end Reconciliation

section Operations

variable (sha256 : String → String)

def insertAll {α κ : Type*} [DecidableEq κ] {key : α → κ} (table : Table key) (rows : List α) :
    Option (Table key) :=
  if h : (rows.map key).Nodup ∧ ∀ row ∈ rows, table.get (key row) = none then
    some (table.appendAll rows h.1 h.2)
  else none

def inIdOrder (findings : List Finding) : List Finding :=
  findings.insertionSort fun a b => a.vulnId ≤ b.vulnId

def resolve (db : Db) (tenantId : String) (selection : Selection) : Option (List Finding) :=
  let matching := match selection.problems with
    | none => []
    | some problems =>
      (inIdOrder (db.findings.rows.filter fun finding =>
        finding.tenantId == tenantId && problems finding)).take (maxMembers + 1)
  let named := (selection.vulnIds.filterMap db.findings.get).filter fun finding =>
    finding.tenantId == tenantId && finding.state != .CLOSED
  let resolved := matching ++ named.filter fun finding => decide (finding ∉ matching)
  if maxMembers < resolved.length then none else some (inIdOrder resolved)

def compositionHash (findings : List Finding) : String :=
  sha256 (String.intercalate "\n" (findings.map Finding.vulnId))

def member (tenantId campaignId : String) (finding : Finding) : Member where
  tenantId := tenantId
  campaignId := campaignId
  vulnId := finding.vulnId
  status := .included
  reopenBaseline := finding.reopenCount
  lastVerifyAt := none
  lastVerifyOutcome := none

def createCampaign (db : Db) (tenantId campaignId : String) (selection : Selection)
    (expectedHash : Option String) (now : ℤ) : Option Db := do
  let resolved ← resolve db tenantId selection
  if resolved = [] then none
  else
    let digest := compositionHash sha256 resolved
    if expectedHash.any (fun expected => expected != "" && expected != digest) then none
    else
      let campaigns ← insertAll db.campaigns [{
        campaignId := campaignId
        tenantId := tenantId
        status := .active
        statusChangedAt := now
        completedAt := none
        reopenCount := 0
        compositionHash := digest
        snapshotSize := resolved.length
        trackedMembers := resolved.length }]
      let members ← insertAll db.members (resolved.map (member tenantId campaignId))
      return reconcile now [campaignId] { db with campaigns := campaigns, members := members }

def getCampaign (db : Db) (tenantId campaignId : String) (now : ℤ) : Option Db := do
  let _ ← load db tenantId campaignId
  return reconcile now [campaignId] db

def listCampaigns (db : Db) (page : List String) (now : ℤ) : Db := reconcile now page db

/-- `update_campaign`: the fields it edits are no part of the progress. -/
def updateCampaign (db : Db) (tenantId campaignId : String) (now : ℤ) : Option Db := do
  let campaign ← load db tenantId campaignId
  if campaign.status = .cancelled then none
  else return reconcile now [campaignId] db

inductive StatusAction where
  | cancel
  | resume
deriving DecidableEq

def StatusAction.applies : StatusAction → Status → Option Status
  | .cancel, .cancelled => none
  | .cancel, _ => some .cancelled
  | .resume, .cancelled => some .active
  | .resume, _ => none

def setStatus (db : Db) (tenantId campaignId : String) (action : StatusAction) (now : ℤ) :
    Option Db := do
  let campaign ← load db tenantId campaignId
  let status ← action.applies campaign.status
  let completedAt := if action = .cancel then none else campaign.completedAt
  return reconcile now [campaignId] { db with
    campaigns := db.campaigns.modifyAt campaignId
      (fun row => { row with
        status := status, completedAt := completedAt, statusChangedAt := now })
      (fun _ => rfl) }

inductive Outcome where
  | alreadyMember
  | limit
  | added
  | readded
deriving DecidableEq

/-- The loop of `add_members` over the resolved findings, `room` the members still taken. -/
def outcomes (existing : Finding → Option Member) : ℕ → List Finding → List (Finding × Outcome)
  | _, [] => []
  | room, finding :: rest =>
    match existing finding with
    | some row =>
      if row.status = .included then (finding, .alreadyMember) :: outcomes existing room rest
      else if room = 0 then (finding, .limit) :: outcomes existing room rest
      else (finding, .readded) :: outcomes existing (room - 1) rest
    | none =>
      if room = 0 then (finding, .limit) :: outcomes existing room rest
      else (finding, .added) :: outcomes existing (room - 1) rest

def having (outcome : Outcome) (report : List (Finding × Outcome)) : List Finding :=
  (report.filter fun row => row.2 == outcome).map Prod.fst

def readd (campaignId : String) (findings : List Finding) (row : Member) : Member :=
  match findings.find? fun finding => finding.vulnId == row.vulnId with
  | some finding =>
    if row.campaignId = campaignId then
      { row with status := .included, reopenBaseline := finding.reopenCount }
    else row
  | none => row

theorem readd_key (campaignId : String) (findings : List Finding) (row : Member) :
    (readd campaignId findings row).key = row.key := by
  unfold readd
  split
  · split_ifs <;> rfl
  · rfl

def addMembers (db : Db) (tenantId campaignId : String) (selection : Selection) (now : ℤ) :
    Option Db := do
  let campaign ← load db tenantId campaignId
  if campaign.status = .cancelled then none
  else
    let resolved ← resolve db tenantId selection
    let report := outcomes (fun finding => db.members.get (campaignId, finding.vulnId))
      (maxMembers - (included db campaignId).length) resolved
    let added := having .added report
    let members ← insertAll
      (db.members.modify (readd campaignId (having .readded report))
        (readd_key campaignId (having .readded report)))
      (added.map (member tenantId campaignId))
    return reconcile now [campaignId] { db with
      members := members
      campaigns := db.campaigns.modifyAt campaignId
        (fun row => { row with trackedMembers := row.trackedMembers + added.length })
        (fun _ => rfl) }

def exclude (tenantId campaignId : String) (vulnIds : List String) (row : Member) : Member :=
  if row.campaignId = campaignId ∧ row.tenantId = tenantId ∧ row.vulnId ∈ vulnIds then
    { row with status := .excluded }
  else row

theorem exclude_key (tenantId campaignId : String) (vulnIds : List String) (row : Member) :
    (exclude tenantId campaignId vulnIds row).key = row.key := by
  unfold exclude
  split_ifs <;> rfl

def excludeMembers (db : Db) (tenantId campaignId : String) (vulnIds : List String) (now : ℤ) :
    Option Db := do
  let campaign ← load db tenantId campaignId
  if vulnIds = [] ∨ maxMembers < vulnIds.length ∨ campaign.status = .cancelled then none
  else return reconcile now [campaignId] { db with
    members := db.members.modify (exclude tenantId campaignId vulnIds)
      (exclude_key tenantId campaignId vulnIds) }

def rememberVerify (db : Db) (campaignId vulnId : String) (outcome : VerifyOutcome) (now : ℤ) :
    Db :=
  { db with
    members := db.members.modifyAt (campaignId, vulnId)
      (fun row => { row with lastVerifyAt := some now, lastVerifyOutcome := some outcome })
      (fun _ => rfl) }

end Operations

section Runs

variable (sha256 : String → String)

/-- The database, and the membership rows that went with their finding, as they stood. -/
structure World where
  db : Db
  gone : List Member

inductive Act where
  | create (tenantId campaignId : String) (selection : Selection) (expectedHash : Option String)
      (now : ℤ)
  | read (tenantId campaignId : String) (now : ℤ)
  | list (page : List String) (now : ℤ)
  | edit (tenantId campaignId : String) (now : ℤ)
  | setStatus (tenantId campaignId : String) (action : StatusAction) (now : ℤ)
  | add (tenantId campaignId : String) (selection : Selection) (now : ℤ)
  | exclude (tenantId campaignId : String) (vulnIds : List String) (now : ℤ)
  | rememberVerify (campaignId vulnId : String) (outcome : VerifyOutcome) (now : ℤ)
  | observe (finding : Finding)
  | change (finding : Finding)
  | record (event : FindingEvent)
  | delete (vulnId : String)

def changeFinding (db : Db) (finding : Finding) : Option Db :=
  ((db.findings.get finding.vulnId).filter fun row => row.tenantId == finding.tenantId).map fun _ =>
    { db with findings := db.findings.put finding }

/-- A finding row deleted, and by `ON DELETE CASCADE` the membership rows that name it. -/
def deleteFinding (w : World) (vulnId : String) : World where
  db := { w.db with
    findings := w.db.findings.remove vulnId
    members := w.db.members.keep fun row => row.vulnId != vulnId }
  gone := (w.db.members.rows.filter fun row => row.vulnId == vulnId) ++ w.gone

def step (w : World) : Act → Option World
  | .create tenantId campaignId selection expectedHash now =>
    (createCampaign sha256 w.db tenantId campaignId selection expectedHash now).map fun db =>
      { w with db := db }
  | .read tenantId campaignId now =>
    (getCampaign w.db tenantId campaignId now).map fun db => { w with db := db }
  | .list page now => some { w with db := listCampaigns w.db page now }
  | .edit tenantId campaignId now =>
    (updateCampaign w.db tenantId campaignId now).map fun db => { w with db := db }
  | .setStatus tenantId campaignId action now =>
    (setStatus w.db tenantId campaignId action now).map fun db => { w with db := db }
  | .add tenantId campaignId selection now =>
    (addMembers w.db tenantId campaignId selection now).map fun db => { w with db := db }
  | .exclude tenantId campaignId vulnIds now =>
    (excludeMembers w.db tenantId campaignId vulnIds now).map fun db => { w with db := db }
  | .rememberVerify campaignId vulnId outcome now =>
    some { w with db := rememberVerify w.db campaignId vulnId outcome now }
  | .observe finding =>
    (insertAll w.db.findings [finding]).map fun findings =>
      { w with db := { w.db with findings := findings } }
  | .change finding => (changeFinding w.db finding).map fun db => { w with db := db }
  | .record event => some { w with db := { w.db with events := event :: w.db.events } }
  | .delete vulnId => some (deleteFinding w vulnId)

/-- The campaigns an operation reconciles, and when. -/
def Act.reconciles : Act → Option (List String × ℤ)
  | .create _ campaignId _ _ now => some ([campaignId], now)
  | .read _ campaignId now => some ([campaignId], now)
  | .list page now => some (page, now)
  | .edit _ campaignId now => some ([campaignId], now)
  | .setStatus _ campaignId _ now => some ([campaignId], now)
  | .add _ campaignId _ now => some ([campaignId], now)
  | .exclude _ campaignId _ now => some ([campaignId], now)
  | _ => none

structure Started (w : World) : Prop where
  members : w.db.members.rows = []
  campaigns : w.db.campaigns.rows = []
  gone : w.gone = []

/-- Whether the act deletes no finding while a campaign holds it as excluded. -/
def Undisturbed (w : World) : Act → Prop
  | .delete vulnId => ∀ row ∈ w.db.members.rows, row.vulnId = vulnId → row.status = .included
  | _ => True

end Runs

section Promise

def Falls (db : Db) (now : ℤ) (name : Category) (row : Member) : Prop :=
  ∃ finding ∈ db.findings.rows, joins row finding = true ∧
    category db.events now row finding = name

instance (db : Db) (now : ℤ) (name : Category) : DecidablePred (Falls db now name) :=
  fun row => inferInstanceAs (Decidable (∃ finding ∈ db.findings.rows,
    joins row finding = true ∧ category db.events now row finding = name))

def lost (w : World) (campaignId : String) : List Member :=
  w.gone.filter fun row => row.campaignId == campaignId && row.status == .included

structure Counted (w : World) (now : ℤ) (campaign : Campaign) : Prop where
  once : ∀ row ∈ included w.db campaign.campaignId, ∃! name, Falls w.db now name row
  counts : ∀ name, (progress w.db now campaign).categories name =
    (included w.db campaign.campaignId).countP fun row => decide (Falls w.db now name row)
  total : (progress w.db now campaign).total = (included w.db campaign.campaignId).length
  vanished : (progress w.db now campaign).vanished = (lost w campaign.campaignId).length

def AllResolved (w : World) (now : ℤ) (campaignId : String) : Prop :=
  ∀ row ∈ included w.db campaignId, ∃ name ∈ resolvedCategories, Falls w.db now name row

structure Done (w : World) (now : ℤ) (campaignId : String) : Prop where
  some_ : included w.db campaignId ≠ []
  noneLost : lost w campaignId = []
  resolved : AllResolved w now campaignId

def statusOf (db : Db) (campaignId : String) : Option Status :=
  (db.campaigns.get campaignId).map Campaign.status

/-- The status a reconciliation leaves a campaign with that is not cancelled. -/
def Settled (before after : World) (now : ℤ) (campaign : Campaign) : Prop :=
  campaign.status = .completed ↔
    Done after now campaign.campaignId ∨
      (statusOf before.db campaign.campaignId = some .completed ∧
        AllResolved after now campaign.campaignId)

end Promise

section Counting

def held (rows : List Member) (campaignId : String) : ℕ :=
  rows.countP fun row => row.campaignId == campaignId

structure Sound (db : Db) (gone : List Member) : Prop where
  found : ∀ row ∈ db.members.rows, ∃ finding ∈ db.findings.rows, joins row finding = true
  owned : ∀ row ∈ db.members.rows ++ gone, ∃ campaign ∈ db.campaigns.rows,
    campaign.campaignId = row.campaignId
  tracked : ∀ campaign ∈ db.campaigns.rows,
    campaign.trackedMembers =
      held db.members.rows campaign.campaignId + held gone campaign.campaignId

theorem held_split (rows : List Member) (campaignId : String) :
    held rows campaignId =
      (rows.filter fun row => row.campaignId == campaignId && row.status == .included).length +
        (rows.filter fun row =>
          row.campaignId == campaignId && row.status == .excluded).length := by
  unfold held
  rw [← List.countP_eq_length_filter, ← List.countP_eq_length_filter]
  induction rows with
  | nil => rfl
  | cons row rows ih =>
    rw [List.countP_cons, List.countP_cons, List.countP_cons, ih]
    cases hstatus : row.status with
    | included => simp; omega
    | excluded => simp; omega

theorem filter_joins {db : Db} {row : Member} {finding : Finding}
    (hmem : finding ∈ db.findings.rows) (hjoins : joins row finding = true) :
    db.findings.rows.filter (joins row) = [finding] := by
  have hkey : ∀ other ∈ db.findings.rows, joins row other = true → other = finding := by
    intro other hother hjoin
    simp only [joins, Bool.and_eq_true, beq_iff_eq] at hjoin hjoins
    exact eq_of_key_eq db.findings.unique hother hmem (hjoin.1.trans hjoins.1.symm)
  have hnodup : (db.findings.rows.filter (joins row)).Nodup :=
    (List.Nodup.of_map _ db.findings.unique).filter _
  have hin : finding ∈ db.findings.rows.filter (joins row) := List.mem_filter.mpr ⟨hmem, hjoins⟩
  have hall : ∀ other ∈ db.findings.rows.filter (joins row), other = finding := by
    intro other hother
    exact hkey other (List.mem_filter.mp hother).1 (List.mem_filter.mp hother).2
  cases hrows : db.findings.rows.filter (joins row) with
  | nil => simp [hrows] at hin
  | cons first rest =>
    rw [hrows] at hnodup hall
    have hfirst : first = finding := hall first (by simp)
    have hrest : rest = [] := by
      refine List.eq_nil_iff_forall_not_mem.mpr fun other hother => ?_
      have hsame := hall other (by simp [hother])
      exact (List.nodup_cons.mp hnodup).1 (hfirst.trans hsame.symm ▸ hother)
    rw [hfirst, hrest]

theorem falls_iff {db : Db} {now : ℤ} {name : Category} {row : Member} {finding : Finding}
    (hmem : finding ∈ db.findings.rows) (hjoins : joins row finding = true) :
    Falls db now name row ↔ category db.events now row finding = name := by
  constructor
  · rintro ⟨other, hother, hjoin, hname⟩
    have hsame : other ∈ db.findings.rows.filter (joins row) := List.mem_filter.mpr ⟨hother, hjoin⟩
    rw [filter_joins hmem hjoins, List.mem_singleton] at hsame
    rwa [hsame] at hname
  · exact fun hname => ⟨finding, hmem, hjoins, hname⟩

theorem countP_joined {db : Db} {now : ℤ} {rows : List Member}
    (hfound : ∀ row ∈ rows, ∃ finding ∈ db.findings.rows, joins row finding = true)
    (name : Category) :
    ((rows.flatMap fun row =>
      (db.findings.rows.filter (joins row)).map fun finding => (row, finding)).countP
        fun pair => category db.events now pair.1 pair.2 == name) =
      rows.countP fun row => decide (Falls db now name row) := by
  induction rows with
  | nil => rfl
  | cons row rows ih =>
    obtain ⟨finding, hmem, hjoins⟩ := hfound row (by simp)
    rw [List.flatMap_cons, List.countP_append,
      ih fun other hother => hfound other (by simp [hother]),
      filter_joins hmem hjoins, List.countP_cons, List.map_singleton, List.countP_singleton]
    have hfalls := @falls_iff db now name _ _ hmem hjoins
    by_cases hname : category db.events now row finding = name
    · simp [hfalls, hname, Nat.add_comm]
    · simp [hfalls, hname]

theorem sum_categories {β : Type*} (kind : β → Category) (rows : List β) :
    (allCategories.map fun name => rows.countP fun row => kind row == name).sum = rows.length := by
  induction rows with
  | nil => rfl
  | cons row rows ih =>
    simp only [allCategories, List.map_cons, List.map_nil, List.sum_cons, List.sum_nil,
      List.countP_cons, List.length_cons] at ih ⊢
    cases kind row <;> simp <;> omega

theorem sum_resolved {β : Type*} (kind : β → Category) (rows : List β) :
    (allCategories.map fun name => rows.countP fun row => kind row == name).sum =
      (resolvedCategories.map fun name => rows.countP fun row => kind row == name).sum +
        rows.countP fun row => decide (kind row ∉ resolvedCategories) := by
  induction rows with
  | nil => rfl
  | cons row rows ih =>
    simp only [allCategories, resolvedCategories, List.map_cons, List.map_nil, List.sum_cons,
      List.sum_nil, List.countP_cons] at ih ⊢
    cases kind row <;> simp at ih ⊢ <;> omega

theorem mem_joined {db : Db} {campaignId : String} {pair : Member × Finding} :
    pair ∈ joined db campaignId ↔
      pair.1 ∈ included db campaignId ∧ pair.2 ∈ db.findings.rows ∧ joins pair.1 pair.2 = true := by
  unfold joined
  constructor
  · intro hpair
    obtain ⟨row, hrow, hmap⟩ := List.mem_flatMap.mp hpair
    obtain ⟨finding, hfinding, rfl⟩ := List.mem_map.mp hmap
    exact ⟨hrow, List.mem_filter.mp hfinding⟩
  · rintro ⟨hrow, hfinding⟩
    exact List.mem_flatMap.mpr ⟨pair.1, hrow, List.mem_map.mpr
      ⟨pair.2, List.mem_filter.mpr hfinding, rfl⟩⟩

variable {db : Db} {gone : List Member} {now : ℤ} {campaign : Campaign}

theorem Sound.found_included (h : Sound db gone) {campaignId : String} {row : Member}
    (hrow : row ∈ included db campaignId) :
    ∃ finding ∈ db.findings.rows, joins row finding = true :=
  h.found row (List.mem_filter.mp hrow).1

theorem Sound.counts (h : Sound db gone) (name : Category) :
    (progress db now campaign).categories name =
      (included db campaign.campaignId).countP fun row => decide (Falls db now name row) :=
  countP_joined (fun _ hrow => h.found_included hrow) name

theorem Sound.length_joined (h : Sound db gone) (campaignId : String) :
    (joined db campaignId).length = (included db campaignId).length := by
  have hone : ∀ row ∈ included db campaignId,
      ((db.findings.rows.filter (joins row)).map fun finding => (row, finding)).length = 1 := by
    intro row hrow
    obtain ⟨finding, hmem, hjoins⟩ := h.found_included hrow
    rw [filter_joins hmem hjoins]
    rfl
  rw [joined, List.length_flatMap, List.map_congr_left hone, List.map_const', List.sum_replicate]
  exact Nat.mul_one _

theorem Sound.total (h : Sound db gone) :
    (progress db now campaign).total = (included db campaign.campaignId).length :=
  (sum_categories (fun pair : Member × Finding => category db.events now pair.1 pair.2)
    (joined db campaign.campaignId)).trans (h.length_joined campaign.campaignId)

theorem Sound.once (h : Sound db gone) {row : Member}
    (hrow : row ∈ included db campaign.campaignId) : ∃! name, Falls db now name row := by
  obtain ⟨finding, hmem, hjoins⟩ := h.found_included hrow
  refine ⟨category db.events now row finding, (falls_iff hmem hjoins).mpr rfl, ?_⟩
  exact fun name hname => ((falls_iff hmem hjoins).mp hname).symm

/-- The shortfall is what was deleted, whatever status it was deleted with. -/
theorem Sound.vanished (h : Sound db gone) (hcampaign : campaign ∈ db.campaigns.rows) :
    (progress db now campaign).vanished = held gone campaign.campaignId := by
  have htotal := @Sound.total db gone now campaign h
  have htracked := h.tracked campaign hcampaign
  have hsplit := held_split db.members.rows campaign.campaignId
  change campaign.trackedMembers - (progress db now campaign).total -
    (excluded db campaign.campaignId).length = _
  unfold included at htotal
  unfold excluded
  omega

theorem Sound.unresolved (h : Sound db gone) :
    (progress db now campaign).unresolved = 0 ↔
      AllResolved ⟨db, gone⟩ now campaign.campaignId := by
  have hsum := sum_resolved (fun pair : Member × Finding => category db.events now pair.1 pair.2)
    (joined db campaign.campaignId)
  have hzero : (progress db now campaign).unresolved =
      (joined db campaign.campaignId).countP fun pair =>
        decide (category db.events now pair.1 pair.2 ∉ resolvedCategories) := by
    change (allCategories.map fun name => (joined db campaign.campaignId).countP fun pair =>
      category db.events now pair.1 pair.2 == name).sum - _ = _
    rw [hsum]
    exact Nat.add_sub_cancel_left _ _
  rw [hzero, List.countP_eq_zero]
  constructor
  · intro hall row hrow
    obtain ⟨finding, hmem, hjoins⟩ := h.found_included hrow
    refine ⟨category db.events now row finding, ?_, (falls_iff hmem hjoins).mpr rfl⟩
    simpa using hall (row, finding) (mem_joined.mpr ⟨hrow, hmem, hjoins⟩)
  · intro hall pair hpair
    obtain ⟨hrow, hmem, hjoins⟩ := mem_joined.mp hpair
    obtain ⟨name, hname, hfalls⟩ := hall pair.1 hrow
    rw [(falls_iff hmem hjoins).mp hfalls]
    simpa using hname

end Counting

section Preservation

variable {db : Db} {gone : List Member}

def Stays (f : Member → Member) : Prop :=
  ∀ row, (f row).campaignId = row.campaignId ∧ (f row).vulnId = row.vulnId ∧
    (f row).tenantId = row.tenantId

theorem readd_stays (campaignId : String) (findings : List Finding) :
    Stays (readd campaignId findings) := by
  intro row
  unfold readd
  split
  · split_ifs <;> exact ⟨rfl, rfl, rfl⟩
  · exact ⟨rfl, rfl, rfl⟩

theorem exclude_stays (tenantId campaignId : String) (vulnIds : List String) :
    Stays (exclude tenantId campaignId vulnIds) := by
  intro row
  unfold exclude
  split_ifs <;> exact ⟨rfl, rfl, rfl⟩

theorem held_map {f : Member → Member} (hf : Stays f) (rows : List Member) (campaignId : String) :
    held (rows.map f) campaignId = held rows campaignId := by
  unfold held
  rw [List.countP_map]
  refine List.countP_congr fun row _ => ?_
  simp [(hf row).1]

theorem Stays.joins {f : Member → Member} (hf : Stays f) (row : Member) (finding : Finding) :
    joins (f row) finding = joins row finding := by
  unfold CampaignLedger.joins
  rw [(hf row).2.1, (hf row).2.2]

theorem Sound.rewrite (h : Sound db gone) {f : Member → Member} (hf : Stays f)
    {hkey : ∀ row, (f row).key = row.key} :
    Sound { db with members := db.members.modify f hkey } gone where
  found := by
    intro row hrow
    obtain ⟨earlier, hearlier, rfl⟩ := List.mem_map.mp hrow
    obtain ⟨finding, hmem, hjoins⟩ := h.found earlier hearlier
    exact ⟨finding, hmem, (hf.joins earlier finding).trans hjoins⟩
  owned := by
    intro row hrow
    rcases List.mem_append.mp hrow with hnow | hgone
    · obtain ⟨earlier, hearlier, rfl⟩ := List.mem_map.mp hnow
      obtain ⟨campaign, hmem, hid⟩ := h.owned earlier (List.mem_append_left _ hearlier)
      exact ⟨campaign, hmem, hid.trans (hf earlier).1.symm⟩
    · exact h.owned row (List.mem_append_right _ hgone)
  tracked := by
    intro campaign hcampaign
    dsimp only
    rw [Table.modify_rows, held_map hf]
    exact h.tracked campaign hcampaign

theorem Sound.recampaign (h : Sound db gone) {f : Campaign → Campaign}
    (hkey : ∀ campaign, (f campaign).campaignId = campaign.campaignId)
    (htracked : ∀ campaign, (f campaign).trackedMembers = campaign.trackedMembers) :
    Sound { db with campaigns := db.campaigns.modify f hkey } gone where
  found := h.found
  owned := by
    intro row hrow
    obtain ⟨campaign, hmem, hid⟩ := h.owned row hrow
    exact ⟨f campaign, List.mem_map_of_mem hmem, (hkey campaign).trans hid⟩
  tracked := by
    intro campaign hcampaign
    obtain ⟨earlier, hearlier, rfl⟩ := List.mem_map.mp hcampaign
    rw [htracked, hkey]
    exact h.tracked earlier hearlier

theorem Sound.reconcile (h : Sound db gone) (now : ℤ) (page : List String) :
    Sound (reconcile now page db) gone := by
  refine h.recampaign _ fun campaign => ?_
  split_ifs
  · exact reconciled_tracked now campaign _
  · rfl

theorem held_append (rows others : List Member) (campaignId : String) :
    held (rows ++ others) campaignId = held rows campaignId + held others campaignId :=
  List.countP_append

theorem held_members (tenantId campaignId id : String) (findings : List Finding) :
    held (findings.map (member tenantId campaignId)) id =
      if campaignId = id then findings.length else 0 := by
  unfold held
  rw [List.countP_map]
  split_ifs with hid
  · refine List.countP_eq_length.mpr fun finding _ => ?_
    simp [member, hid]
  · refine List.countP_eq_zero.mpr fun finding _ => ?_
    simp [member, hid]

theorem held_eq_zero {rows : List Member} {campaignId : String}
    (h : ∀ row ∈ rows, row.campaignId ≠ campaignId) : held rows campaignId = 0 := by
  refine List.countP_eq_zero.mpr fun row hrow => ?_
  simpa using h row hrow

theorem insertAll_spec {α κ : Type*} [DecidableEq κ] {key : α → κ} {table table' : Table key}
    {rows : List α} (h : insertAll table rows = some table') :
    table'.rows = table.rows ++ rows ∧ ∀ row ∈ rows, table.get (key row) = none := by
  unfold insertAll at h
  split_ifs at h with hfree
  rw [← Option.some.inj h]
  exact ⟨rfl, hfree.2⟩

theorem resolve_spec {tenantId : String} {selection : Selection} {findings : List Finding}
    (h : resolve db tenantId selection = some findings) {finding : Finding}
    (hfinding : finding ∈ findings) :
    finding ∈ db.findings.rows ∧ finding.tenantId = tenantId := by
  unfold resolve at h
  dsimp only at h
  split_ifs at h
  rw [← Option.some.inj h, inIdOrder, List.mem_insertionSort, List.mem_append] at hfinding
  rcases hfinding with hmatching | hnamed
  · cases hproblems : selection.problems with
    | none => simp [hproblems] at hmatching
    | some problems =>
      simp only [hproblems] at hmatching
      have hrow := List.mem_of_mem_take hmatching
      rw [inIdOrder, List.mem_insertionSort, List.mem_filter] at hrow
      exact ⟨hrow.1, by simpa using (Bool.and_eq_true_iff.mp hrow.2).1⟩
  · obtain ⟨hget, htenant⟩ := List.mem_filter.mp (List.mem_filter.mp hnamed).1
    obtain ⟨id, _, hid⟩ := List.mem_filterMap.mp hget
    exact ⟨((db.findings.get_eq_some_iff id finding).mp hid).1,
      by simpa using (Bool.and_eq_true_iff.mp htenant).1⟩

theorem mem_of_outcomes (existing : Finding → Option Member) {findings : List Finding} {room : ℕ}
    {row : Finding × Outcome} (h : row ∈ outcomes existing room findings) : row.1 ∈ findings := by
  induction findings generalizing room with
  | nil => simp [outcomes] at h
  | cons finding findings ih =>
    unfold outcomes at h
    split at h
    all_goals
      split_ifs at h
      all_goals
        rcases List.mem_cons.mp h with rfl | hlater
        · exact List.mem_cons_self
        · exact List.mem_cons_of_mem _ (ih hlater)

theorem mem_of_having {existing : Finding → Option Member} {room : ℕ} {findings : List Finding}
    {outcome : Outcome} {finding : Finding}
    (h : finding ∈ having outcome (outcomes existing room findings)) : finding ∈ findings := by
  obtain ⟨row, hrow, rfl⟩ := List.mem_map.mp h
  exact mem_of_outcomes existing (List.mem_filter.mp hrow).1

end Preservation

section Preparation

variable {sha256 : String → String} {db db' : Db} {tenantId campaignId : String} {now : ℤ}

structure Prepared (before after : Db) : Prop where
  sound : ∀ gone, Sound before gone → Sound after gone
  status : ∀ campaign ∈ after.campaigns.rows, campaign.status ≠ .cancelled →
    (campaign.status = .completed ↔ statusOf before campaign.campaignId = some .completed)

theorem statusOf_mem {campaign : Campaign} (h : campaign ∈ db.campaigns.rows) :
    statusOf db campaign.campaignId = some campaign.status := by
  rw [statusOf, db.campaigns.get_self h]
  rfl

theorem Prepared.refl (db : Db) : Prepared db db where
  sound := fun _ h => h
  status := by
    intro campaign hcampaign _
    rw [statusOf_mem hcampaign, Option.some_inj]

theorem createCampaign_prepared {selection : Selection} {expectedHash : Option String}
    (h : createCampaign sha256 db tenantId campaignId selection expectedHash now = some db') :
    ∃ middle, db' = reconcile now [campaignId] middle ∧ Prepared db middle := by
  unfold createCampaign at h
  obtain ⟨resolved, hresolved, h⟩ := Option.bind_eq_some_iff.mp h
  dsimp only at h
  split_ifs at h
  obtain ⟨campaigns, hcampaigns, h⟩ := Option.bind_eq_some_iff.mp h
  obtain ⟨members, hmembers, h⟩ := Option.bind_eq_some_iff.mp h
  obtain ⟨hrows, hfree⟩ := insertAll_spec hcampaigns
  obtain ⟨hjoined, _⟩ := insertAll_spec hmembers
  have hnew : ∀ campaign ∈ db.campaigns.rows, campaign.campaignId ≠ campaignId :=
    (db.campaigns.get_eq_none_iff campaignId).mp (hfree _ (List.mem_singleton_self _))
  refine ⟨_, (Option.some.inj h).symm, ⟨?_, ?_⟩⟩
  · intro gone hsound
    have hnone : ∀ row ∈ db.members.rows ++ gone, row.campaignId ≠ campaignId := by
      intro row hrow hid
      obtain ⟨campaign, hmem, hcampaign⟩ := hsound.owned row hrow
      exact hnew campaign hmem (hcampaign.trans hid)
    refine ⟨?_, ?_, ?_⟩
    · intro row hrow
      rw [hjoined] at hrow
      rcases List.mem_append.mp hrow with hold | hadded
      · exact hsound.found row hold
      · obtain ⟨finding, hfinding, rfl⟩ := List.mem_map.mp hadded
        obtain ⟨hmem, htenant⟩ := resolve_spec hresolved hfinding
        exact ⟨finding, hmem, by simp [joins, member, htenant]⟩
    · intro row hrow
      dsimp only at hrow ⊢
      rw [hjoined, List.append_assoc] at hrow
      rw [hrows]
      rcases List.mem_append.mp hrow with hold | hlater
      · obtain ⟨campaign, hmem, hid⟩ := hsound.owned row (List.mem_append_left _ hold)
        exact ⟨campaign, List.mem_append_left _ hmem, hid⟩
      rcases List.mem_append.mp hlater with hadded | hgone
      · obtain ⟨finding, _, rfl⟩ := List.mem_map.mp hadded
        exact ⟨_, List.mem_append_right _ (List.mem_singleton_self _), rfl⟩
      · obtain ⟨campaign, hmem, hid⟩ := hsound.owned row (List.mem_append_right _ hgone)
        exact ⟨campaign, List.mem_append_left _ hmem, hid⟩
    · intro campaign hcampaign
      dsimp only at hcampaign ⊢
      rw [hjoined, held_append, held_members]
      rw [hrows] at hcampaign
      rcases List.mem_append.mp hcampaign with hold | hadded
      · rw [if_neg (hnew campaign hold).symm, Nat.add_zero]
        exact hsound.tracked campaign hold
      · rw [List.mem_singleton.mp hadded]
        dsimp only
        rw [held_eq_zero fun row hrow => hnone row (List.mem_append_left _ hrow),
          held_eq_zero fun row hrow => hnone row (List.mem_append_right _ hrow), if_pos rfl]
        omega
  · intro campaign hcampaign _
    dsimp only at hcampaign
    rw [hrows] at hcampaign
    rcases List.mem_append.mp hcampaign with hold | hadded
    · rw [statusOf_mem hold, Option.some_inj]
    · rw [List.mem_singleton.mp hadded]
      dsimp only
      rw [statusOf, hfree _ (List.mem_singleton_self _)]
      simp

theorem getCampaign_prepared (h : getCampaign db tenantId campaignId now = some db') :
    ∃ middle, db' = reconcile now [campaignId] middle ∧ Prepared db middle := by
  obtain ⟨_, _, hdb⟩ := Option.bind_eq_some_iff.mp h
  exact ⟨db, (Option.some.inj hdb).symm, .refl db⟩

theorem updateCampaign_prepared (h : updateCampaign db tenantId campaignId now = some db') :
    ∃ middle, db' = reconcile now [campaignId] middle ∧ Prepared db middle := by
  obtain ⟨campaign, _, hdb⟩ := Option.bind_eq_some_iff.mp h
  split_ifs at hdb
  exact ⟨db, (Option.some.inj hdb).symm, .refl db⟩

theorem load_spec {campaign : Campaign} (h : load db tenantId campaignId = some campaign) :
    db.campaigns.get campaignId = some campaign :=
  (Option.filter_eq_some_iff.mp h).1

theorem setStatus_prepared {action : StatusAction}
    (h : setStatus db tenantId campaignId action now = some db') :
    ∃ middle, db' = reconcile now [campaignId] middle ∧ Prepared db middle := by
  obtain ⟨campaign, hload, h⟩ := Option.bind_eq_some_iff.mp h
  obtain ⟨status, hstatus, h⟩ := Option.bind_eq_some_iff.mp h
  refine ⟨_, (Option.some.inj h).symm, ⟨?_, ?_⟩⟩
  · intro gone hsound
    refine hsound.recampaign _ fun row => ?_
    split_ifs <;> rfl
  · intro row hrow hopen
    obtain ⟨earlier, hearlier, rfl⟩ := List.mem_map.mp hrow
    have hbefore := statusOf_mem hearlier
    by_cases hid : earlier.campaignId = campaignId
    · rw [if_pos hid] at hopen ⊢
      have hsame : campaign = earlier := by
        have hget := db.campaigns.get_self hearlier
        rw [hid, load_spec hload] at hget
        exact Option.some.inj hget
      dsimp only at hopen ⊢
      rw [hbefore, ← hsame]
      cases action with
      | cancel =>
        cases hnow : campaign.status <;> simp [StatusAction.applies, hnow] at hstatus
        · exact absurd hstatus.symm hopen
        · exact absurd hstatus.symm hopen
      | resume =>
        cases hnow : campaign.status <;> simp [StatusAction.applies, hnow] at hstatus
        simp [← hstatus]
    · rw [if_neg hid] at hopen ⊢
      rw [hbefore, Option.some_inj]

theorem addMembers_prepared {selection : Selection}
    (h : addMembers db tenantId campaignId selection now = some db') :
    ∃ middle, db' = reconcile now [campaignId] middle ∧ Prepared db middle := by
  obtain ⟨campaign, hload, h⟩ := Option.bind_eq_some_iff.mp h
  split_ifs at h
  obtain ⟨resolved, hresolved, h⟩ := Option.bind_eq_some_iff.mp h
  dsimp only at h
  obtain ⟨members, hmembers, h⟩ := Option.bind_eq_some_iff.mp h
  obtain ⟨hrows, _⟩ := insertAll_spec hmembers
  have hstays := readd_stays campaignId (having .readded (outcomes
    (fun finding => db.members.get (campaignId, finding.vulnId))
    (maxMembers - (included db campaignId).length) resolved))
  have hid : campaign.campaignId = campaignId :=
    ((db.campaigns.get_eq_some_iff campaignId campaign).mp (load_spec hload)).2
  have hmem : campaign ∈ db.campaigns.rows :=
    ((db.campaigns.get_eq_some_iff campaignId campaign).mp (load_spec hload)).1
  refine ⟨_, (Option.some.inj h).symm, ⟨?_, ?_⟩⟩
  · intro gone hsound
    have hkept := @Sound.rewrite db gone hsound _ hstays (readd_key campaignId _)
    refine ⟨?_, ?_, ?_⟩
    · intro row hrow
      dsimp only at hrow
      rw [hrows] at hrow
      rcases List.mem_append.mp hrow with hold | hadded
      · exact hkept.found row hold
      · obtain ⟨finding, hfinding, rfl⟩ := List.mem_map.mp hadded
        obtain ⟨hmem, htenant⟩ := resolve_spec hresolved (mem_of_having hfinding)
        exact ⟨finding, hmem, by simp [joins, member, htenant]⟩
    · have howned : ∀ row ∈ members.rows ++ gone, ∃ campaign ∈ db.campaigns.rows,
          campaign.campaignId = row.campaignId := by
        intro row hrow
        rw [hrows, List.append_assoc] at hrow
        rcases List.mem_append.mp hrow with hold | hlater
        · exact hkept.owned row (List.mem_append_left _ hold)
        rcases List.mem_append.mp hlater with hadded | hgone
        · obtain ⟨finding, _, rfl⟩ := List.mem_map.mp hadded
          exact ⟨campaign, hmem, hid⟩
        · exact hsound.owned row (List.mem_append_right _ hgone)
      intro row hrow
      obtain ⟨owner, howner, hsame⟩ := howned row hrow
      refine ⟨_, List.mem_map_of_mem howner, ?_⟩
      split_ifs <;> exact hsame
    · intro row hrow
      obtain ⟨earlier, hearlier, rfl⟩ := List.mem_map.mp hrow
      have htracked := hsound.tracked earlier hearlier
      dsimp only
      rw [hrows, held_append, held_members, Table.modify_rows, held_map hstays]
      by_cases hown : earlier.campaignId = campaignId
      · simp only [hown, if_true] at htracked ⊢
        omega
      · rw [if_neg hown, if_neg (Ne.symm hown)]
        omega
  · intro row hrow _
    obtain ⟨earlier, hearlier, rfl⟩ := List.mem_map.mp hrow
    split_ifs <;> rw [statusOf_mem hearlier, Option.some_inj]

theorem excludeMembers_prepared {vulnIds : List String}
    (h : excludeMembers db tenantId campaignId vulnIds now = some db') :
    ∃ middle, db' = reconcile now [campaignId] middle ∧ Prepared db middle := by
  obtain ⟨campaign, hload, h⟩ := Option.bind_eq_some_iff.mp h
  split_ifs at h
  refine ⟨_, (Option.some.inj h).symm, ⟨?_, ?_⟩⟩
  · intro gone hsound
    exact hsound.rewrite (exclude_stays tenantId campaignId vulnIds)
  · exact (Prepared.refl db).status

end Preparation

section Settlement

variable {sha256 : String → String} {w w' : World} {act : Act} {page : List String} {now : ℤ}

theorem step_reconciles (hstep : step sha256 w act = some w')
    (hact : act.reconciles = some (page, now)) :
    ∃ middle, w' = ⟨reconcile now page middle, w.gone⟩ ∧ Prepared w.db middle := by
  have hlift : ∀ {result : Option Db} {campaignId : String} {at_ : ℤ},
      (∀ db', result = some db' →
        ∃ middle, db' = reconcile at_ [campaignId] middle ∧ Prepared w.db middle) →
      (result.map fun db => { w with db := db }) = some w' →
      some ([campaignId], at_) = some (page, now) →
      ∃ middle, w' = ⟨reconcile now page middle, w.gone⟩ ∧ Prepared w.db middle := by
    intro result campaignId at_ hprepared hmap hpage
    obtain ⟨db', hdb, rfl⟩ := Option.map_eq_some_iff.mp hmap
    obtain ⟨middle, rfl, hmiddle⟩ := hprepared db' hdb
    obtain ⟨rfl, rfl⟩ := Prod.mk.inj (Option.some.inj hpage)
    exact ⟨middle, rfl, hmiddle⟩
  cases act with
  | create tenantId campaignId selection expectedHash at_ =>
    exact hlift (fun _ => createCampaign_prepared) hstep hact
  | read tenantId campaignId at_ => exact hlift (fun _ => getCampaign_prepared) hstep hact
  | list ids at_ =>
    obtain ⟨rfl, rfl⟩ := Prod.mk.inj (Option.some.inj hact)
    exact ⟨w.db, (Option.some.inj hstep).symm, .refl w.db⟩
  | edit tenantId campaignId at_ => exact hlift (fun _ => updateCampaign_prepared) hstep hact
  | setStatus tenantId campaignId action at_ =>
    exact hlift (fun _ => setStatus_prepared) hstep hact
  | add tenantId campaignId selection at_ =>
    exact hlift (fun _ => addMembers_prepared) hstep hact
  | exclude tenantId campaignId vulnIds at_ =>
    exact hlift (fun _ => excludeMembers_prepared) hstep hact
  | rememberVerify | observe | change | record | delete => simp [Act.reconciles] at hact

theorem changeFinding_sound {db db' : Db} {gone : List Member} {finding : Finding}
    (h : changeFinding db finding = some db') (hsound : Sound db gone) : Sound db' gone := by
  obtain ⟨earlier, hfilter, rfl⟩ := Option.map_eq_some_iff.mp h
  obtain ⟨hget, htenant⟩ := Option.filter_eq_some_iff.mp hfilter
  refine ⟨?_, hsound.owned, hsound.tracked⟩
  intro row hrow
  obtain ⟨found, hmem, hjoins⟩ := hsound.found row hrow
  refine ⟨_, List.mem_map_of_mem hmem, ?_⟩
  split_ifs with hid
  · have hsame : found = earlier := by
      have hfound := db.findings.get_self hmem
      rw [hid, hget] at hfound
      exact (Option.some.inj hfound).symm
    simp only [joins, Bool.and_eq_true, beq_iff_eq] at hjoins htenant ⊢
    exact ⟨hid ▸ hjoins.1, htenant ▸ hsame ▸ hjoins.2⟩
  · exact hjoins

theorem deleteFinding_sound {vulnId : String} (h : Sound w.db w.gone) :
    Sound (deleteFinding w vulnId).db (deleteFinding w vulnId).gone where
  found := by
    intro row hrow
    obtain ⟨hmem, hkept⟩ := List.mem_filter.mp hrow
    obtain ⟨finding, hfinding, hjoins⟩ := h.found row hmem
    refine ⟨finding, List.mem_filter.mpr ⟨hfinding, ?_⟩, hjoins⟩
    simp only [joins, Bool.and_eq_true, beq_iff_eq] at hjoins
    rw [hjoins.1]
    simpa using hkept
  owned := by
    intro row hrow
    rcases List.mem_append.mp hrow with hkept | hlater
    · exact h.owned row (List.mem_append_left _ (List.mem_filter.mp hkept).1)
    rcases List.mem_append.mp hlater with hnow | hgone
    · exact h.owned row (List.mem_append_left _ (List.mem_filter.mp hnow).1)
    · exact h.owned row (List.mem_append_right _ hgone)
  tracked := by
    intro campaign hcampaign
    have htracked := h.tracked campaign hcampaign
    have hsplit := List.countP_eq_countP_filter_add w.db.members.rows
      (fun row => row.campaignId == campaign.campaignId) (fun row => row.vulnId == vulnId)
    change _ = held (w.db.members.rows.filter fun row => !(row.vulnId == vulnId)) _ +
      held ((w.db.members.rows.filter fun row => row.vulnId == vulnId) ++ w.gone) _
    rw [held_append]
    unfold held at htracked ⊢
    omega

theorem step_sound (hstep : step sha256 w act = some w') (h : Sound w.db w.gone) :
    Sound w'.db w'.gone := by
  cases hact : act.reconciles with
  | some when_ =>
    obtain ⟨middle, rfl, hprepared⟩ := step_reconciles hstep hact
    exact (hprepared.sound w.gone h).reconcile when_.2 when_.1
  | none =>
    cases act with
    | rememberVerify campaignId vulnId outcome at_ =>
      rw [← Option.some.inj hstep]
      refine h.rewrite fun row => ?_
      split_ifs <;> exact ⟨rfl, rfl, rfl⟩
    | observe finding =>
      obtain ⟨findings, hinsert, rfl⟩ := Option.map_eq_some_iff.mp hstep
      refine ⟨fun row hrow => ?_, h.owned, h.tracked⟩
      obtain ⟨found, hmem, hjoins⟩ := h.found row hrow
      refine ⟨found, ?_, hjoins⟩
      rw [(insertAll_spec hinsert).1]
      exact List.mem_append_left _ hmem
    | change finding =>
      obtain ⟨db', hdb, rfl⟩ := Option.map_eq_some_iff.mp hstep
      exact changeFinding_sound hdb h
    | record event =>
      rw [← Option.some.inj hstep]
      exact ⟨h.found, h.owned, h.tracked⟩
    | delete vulnId =>
      rw [← Option.some.inj hstep]
      exact deleteFinding_sound h
    | create | read | list | edit | setStatus | add | exclude => simp [Act.reconciles] at hact

theorem step_gone (hstep : step sha256 w act = some w') (hundisturbed : Undisturbed w act)
    (h : ∀ row ∈ w.gone, row.status = .included) : ∀ row ∈ w'.gone, row.status = .included := by
  cases hact : act.reconciles with
  | some when_ =>
    obtain ⟨middle, rfl, _⟩ := step_reconciles hstep hact
    exact h
  | none =>
    cases act with
    | rememberVerify | record =>
      rw [← Option.some.inj hstep]
      exact h
    | observe finding =>
      obtain ⟨findings, _, rfl⟩ := Option.map_eq_some_iff.mp hstep
      exact h
    | change finding =>
      obtain ⟨db', _, rfl⟩ := Option.map_eq_some_iff.mp hstep
      exact h
    | delete vulnId =>
      rw [← Option.some.inj hstep]
      intro row hrow
      rcases List.mem_append.mp hrow with hnow | hgone
      · obtain ⟨hmem, hid⟩ := List.mem_filter.mp hnow
        exact hundisturbed row hmem (by simpa using hid)
      · exact h row hgone
    | create | read | list | edit | setStatus | add | exclude => simp [Act.reconciles] at hact

theorem lost_length (h : ∀ row ∈ w.gone, row.status = .included) (campaignId : String) :
    (lost w campaignId).length = held w.gone campaignId := by
  rw [lost, held, ← List.countP_eq_length_filter]
  refine List.countP_congr fun row hrow => ?_
  simp [h row hrow]

theorem reconcile_settled {before : World} {middle : Db} {gone : List Member}
    (hprepared : Prepared before.db middle) (hsound : Sound middle gone)
    (hgone : ∀ row ∈ gone, row.status = .included) {campaign : Campaign}
    (hmem : campaign ∈ (reconcile now page middle).campaigns.rows)
    (hpage : campaign.campaignId ∈ page) (hopen : campaign.status ≠ .cancelled) :
    Settled before ⟨reconcile now page middle, gone⟩ now campaign := by
  obtain ⟨earlier, hearlier, hwritten⟩ := List.mem_map.mp hmem
  have hid : campaign.campaignId = earlier.campaignId := by
    rw [← hwritten]
    split_ifs
    · exact reconciled_id now earlier _
    · rfl
  have hrow : campaign = reconciled now earlier (progress middle now earlier) := by
    rw [← hwritten, if_pos (hid ▸ hpage)]
  have htotal := @Sound.total middle gone now earlier hsound
  have hunresolved := @Sound.unresolved middle gone now earlier hsound
  have hvanished := @Sound.vanished middle gone now earlier hsound hearlier
  rw [← @lost_length ⟨middle, gone⟩ hgone] at hvanished
  have hdone : Done ⟨reconcile now page middle, gone⟩ now earlier.campaignId ↔
      0 < (progress middle now earlier).total ∧ (progress middle now earlier).unresolved = 0 ∧
        (progress middle now earlier).vanished = 0 := by
    rw [htotal, hunresolved, hvanished, List.length_pos_iff, List.length_eq_zero_iff]
    constructor
    · exact fun h => ⟨h.some_, h.resolved, h.noneLost⟩
    · rintro ⟨hsome, hall, hnone⟩
      exact ⟨hsome, hnone, hall⟩
  have hall : AllResolved ⟨reconcile now page middle, gone⟩ now earlier.campaignId ↔
      (progress middle now earlier).unresolved = 0 := hunresolved.symm
  have hstatus := hprepared.status earlier hearlier
  unfold Settled
  rw [hid, hdone, hall]
  cases hnow : earlier.status with
  | cancelled =>
    rw [hrow, reconciled_of_cancelled hnow] at hopen
    exact absurd hnow hopen
  | active =>
    rw [hnow] at hstatus
    have hbefore : statusOf before.db earlier.campaignId ≠ some .completed := by
      intro hcompleted
      exact absurd ((hstatus (by decide)).mpr hcompleted) (by decide)
    rw [hrow, reconciled_of_active hnow]
    simp [hbefore]
  | completed =>
    rw [hnow] at hstatus
    have hbefore := (hstatus (by decide)).mp rfl
    rw [hrow, reconciled_of_completed hnow]
    constructor
    · exact fun hzero => .inr ⟨hbefore, hzero⟩
    · rintro (⟨_, hzero, _⟩ | ⟨_, hzero⟩)
      · exact hzero
      · exact hzero

/-- A campaign's progress counts every included member once and the deleted ones, and a
reconciliation completes it exactly when all of them are accounted for. -/
theorem campaigns_settled (sha256 : String → String) {start w : World} {acts : List Act}
    (hstart : Started start)
    (hrun : Runs (guarded (ofStep (step sha256)) Undisturbed) start acts w) :
    (∀ campaign ∈ w.db.campaigns.rows, ∀ now, Counted w now campaign) ∧
      ∀ act w', step sha256 w act = some w' → ∀ page now, act.reconciles = some (page, now) →
        ∀ campaign ∈ w'.db.campaigns.rows, campaign.campaignId ∈ page →
          campaign.status ≠ .cancelled → Settled w w' now campaign := by
  have hinvariant : Sound w.db w.gone ∧ ∀ row ∈ w.gone, row.status = .included := by
    refine hrun.invariant (fun w => Sound w.db w.gone ∧ ∀ row ∈ w.gone, row.status = .included)
      ?_ ?_
    · rintro s act u ⟨hsound, hgone⟩ ⟨hundisturbed, hstep⟩
      exact ⟨step_sound hstep hsound, step_gone hstep hundisturbed hgone⟩
    · refine ⟨⟨?_, ?_, ?_⟩, ?_⟩
      · simp [hstart.members]
      · simp [hstart.members, hstart.gone]
      · simp [hstart.campaigns]
      · simp [hstart.gone]
  obtain ⟨hsound, hgone⟩ := hinvariant
  constructor
  · intro campaign hcampaign now
    refine ⟨fun row hrow => hsound.once hrow, hsound.counts, hsound.total, ?_⟩
    rw [hsound.vanished hcampaign, lost_length hgone]
  · intro act w' hstep page now hact campaign hcampaign hpage hopen
    obtain ⟨middle, rfl, hprepared⟩ := step_reconciles hstep hact
    exact reconcile_settled hprepared (hprepared.sound w.gone hsound) hgone hcampaign hpage hopen

end Settlement

section Samples

instance (w : World) : DecidablePred (Undisturbed w) := fun act => by
  unfold Undisturbed
  split <;> infer_instance

instance (w : World) (now : ℤ) (campaignId : String) : Decidable (AllResolved w now campaignId) :=
  inferInstanceAs (Decidable (∀ row ∈ included w.db campaignId, ∃ name ∈ resolvedCategories,
    Falls w.db now name row))

def openFinding (vulnId : String) : Finding where
  vulnId := vulnId
  tenantId := "acme"
  assetId := "host-1"
  state := .OPEN
  stateChangedAt := 0
  closureReason := none
  machineVerified := false
  exceptionUntil := none
  reopenCount := 0
  ticketSystem := none
  ticketKey := none

def patchedFinding (vulnId : String) : Finding :=
  { openFinding vulnId with
    state := .CLOSED
    stateChangedAt := 3
    closureReason := some .verifiedRemediated
    machineVerified := true }

def twoFindings : World where
  db :=
    { findings := ⟨[openFinding "vuln-1", openFinding "vuln-2"], by decide⟩
      events := []
      members := Table.empty _
      campaigns := Table.empty _ }
  gone := []

theorem twoFindings_started : Started twoFindings := ⟨rfl, rfl, rfl⟩

def bothFindings : Selection := ⟨none, ["vuln-1", "vuln-2"], by decide⟩

/-- The second finding deleted after its campaign excluded it, the first one patched. -/
def disowned : List Act :=
  [.create "acme" "cmp-1" bothFindings none 1, .exclude "acme" "cmp-1" ["vuln-2"] 2,
    .delete "vuln-2", .change (patchedFinding "vuln-1")]

def disownedWorld : World := runFrom (step id) twoFindings disowned

def readWorld : World := runFrom (step id) disownedWorld [.read "acme" "cmp-1" 4]

/-- A member excluded before its finding was deleted is reported as vanished, and the campaign
never completes. -/
theorem disowned_unsettled :
    ∃ campaign, Started twoFindings ∧ Runs (ofStep (step id)) twoFindings disowned disownedWorld ∧
      step id disownedWorld (.read "acme" "cmp-1" 4) = some readWorld ∧
      readWorld.db.campaigns.get "cmp-1" = some campaign ∧ campaign.status = .active ∧
      (progress readWorld.db 4 campaign).vanished = 1 ∧ lost readWorld "cmp-1" = [] ∧
      Done readWorld 4 "cmp-1" ∧ ¬ Counted readWorld 4 campaign ∧
      ¬ Settled disownedWorld readWorld 4 campaign := by
  have hstep : (step id disownedWorld (.read "acme" "cmp-1" 4)) = some readWorld := by rfl
  have hdone : Done readWorld 4 "cmp-1" := ⟨by decide +kernel, by decide +kernel, by decide +kernel⟩
  have hsome : (readWorld.db.campaigns.get "cmp-1").isSome = true := by decide +kernel
  obtain ⟨campaign, hget⟩ := Option.isSome_iff_exists.mp hsome
  have hactive : ∀ row ∈ readWorld.db.campaigns.rows, row.campaignId = "cmp-1" ∧
      row.status = .active ∧ (progress readWorld.db 4 row).vanished = 1 := by decide +kernel
  obtain ⟨hid, hstatus, hvanished⟩ :=
    hactive campaign ((readWorld.db.campaigns.get_eq_some_iff "cmp-1" campaign).mp hget).1
  refine ⟨campaign, twoFindings_started, Runs.runFrom _ (by decide +kernel), hstep, hget, hstatus,
    hvanished, hdone.noneLost, hdone, ?_, ?_⟩
  · intro hcounted
    have hlost := hcounted.vanished
    rw [hvanished, hid, hdone.noneLost] at hlost
    exact absurd hlost (by decide)
  · intro hsettled
    have hcompleted := hsettled.mpr (.inl (hid ▸ hdone))
    rw [hstatus] at hcompleted
    exact absurd hcompleted (by decide)

/-- The second finding deleted while its campaign holds it as included. -/
def deletedActs : List Act :=
  [.create "acme" "cmp-1" bothFindings none 1, .delete "vuln-2", .change (patchedFinding "vuln-1")]

def deletedWorld : World := runFrom (guardedStep (step id) Undisturbed) twoFindings deletedActs

def deletedRead : World := runFrom (step id) deletedWorld [.read "acme" "cmp-1" 4]

theorem campaigns_settled_deleted :
    (∀ campaign ∈ deletedWorld.db.campaigns.rows, Counted deletedWorld 4 campaign) ∧
      ∀ campaign ∈ deletedRead.db.campaigns.rows, Settled deletedWorld deletedRead 4 campaign := by
  have hrun : Runs (guarded (ofStep (step id)) Undisturbed) twoFindings deletedActs deletedWorld :=
    (Runs.runFrom _ (by decide +kernel)).of_guardedStep
  have hsettled := campaigns_settled id twoFindings_started hrun
  have hrows : ∀ row ∈ deletedRead.db.campaigns.rows, row.campaignId ∈ ["cmp-1"] ∧
      row.status ≠ .cancelled := by decide +kernel
  refine ⟨fun campaign hcampaign => hsettled.1 campaign hcampaign 4, ?_⟩
  intro campaign hcampaign
  obtain ⟨hpage, hopen⟩ := hrows campaign hcampaign
  exact hsettled.2 (.read "acme" "cmp-1" 4) deletedRead rfl ["cmp-1"] 4 rfl campaign hcampaign
    hpage hopen

end Samples

end Shapoclyack.CampaignLedger
