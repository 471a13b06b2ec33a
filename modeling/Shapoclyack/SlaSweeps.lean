import Mathlib.Data.Prod.Lex
import Mathlib.Data.Rat.Floor
import Shapoclyack.Library.KeysetSweep
import Shapoclyack.RetentionWindows

set_option autoImplicit false

namespace Shapoclyack.SlaSweeps

open Library RetentionWindows

section Tables

structure Finding where
  vulnId : String
  tenant : String
  closed : Bool
  dueAt : Option ℤ
  exceptionUntil : Option ℤ
deriving DecidableEq

structure Agent where
  agentId : String
  tenant : String
  active : Bool
  scanner : Bool
  lastSeenAt : ℤ
  healthySince : Option ℤ
deriving DecidableEq

structure Policy where
  enabled : Bool
  escalateAfterDays : ℤ

structure Settings where
  maxFindings : ℤ
  agentStaleSeconds : ℤ
  eventsEnabled : Bool

def Settings.limit (settings : Settings) : ℕ := (max 1 settings.maxFindings).toNat

inductive Kind where
  | slaBreached
  | slaDueSoon
  | exceptionExpiring
  | escalation
  | agentOffline
deriving DecidableEq

/-- What makes one occurrence distinct from the next. -/
inductive Marker where
  | deadline (at_ : ℤ)
  | threshold (window warnDays : ℤ)
  | offline
deriving DecidableEq

structure MarkerKey where
  tenant : String
  kind : Kind
  subject : String
  marker : Marker
deriving DecidableEq

structure Faults where
  claimFails : MarkerKey → Bool
  releaseFails : MarkerKey → Bool
  fanOutFails : MarkerKey → Bool

structure Input where
  now : ℤ
  tenants : List String
  findings : Table Finding.vulnId
  agents : Table Agent.agentId
  policy : String → Policy
  plan : RetentionPlan
  faults : Faults

end Tables

section Windows

def dueSoonDays : ℤ := 7

def exceptionWarnDays : List ℤ := [30, 14, 7]

def exceptionHorizonDays : ℤ := exceptionWarnDays.foldl max 0

def agentRecoveryFactor : ℤ := 2

def second : ℤ := 1000000

inductive SlaState where
  | none
  | accepted
  | breached
  | dueSoon
  | onTrack
deriving DecidableEq

def slaState (now : ℤ) (finding : Finding) : SlaState :=
  if finding.closed then .none
  else match finding.dueAt with
    | Option.none => .none
    | some due =>
      if finding.exceptionUntil.any fun until_ => now < until_ then .accepted
      else if due ≤ now then .breached
      else if due - now ≤ days dueSoonDays then .dueSoon
      else .onTrack

def dueClause (tenant : String) (now : ℤ) (finding : Finding) : Bool :=
  finding.tenant == tenant && !finding.closed &&
    finding.dueAt.any (fun due => due ≤ now + days dueSoonDays) &&
    finding.exceptionUntil.all fun until_ => until_ ≤ now

def exceptionClause (tenant : String) (now : ℤ) (finding : Finding) : Bool :=
  finding.tenant == tenant && !finding.closed && finding.exceptionUntil.any fun until_ =>
    now < until_ && until_ ≤ now + days exceptionHorizonDays

def agentClause (settings : Settings) (tenants : List String) (now : ℤ) (agent : Agent) : Bool :=
  agent.active && agent.scanner && tenants.contains agent.tenant &&
    agent.lastSeenAt < now - settings.agentStaleSeconds * second

abbrev Cursor := ℤ ×ₗ String

def dueKey (finding : Finding) : Cursor := toLex (finding.dueAt.getD 0, finding.vulnId)

def exceptionKey (finding : Finding) : Cursor :=
  toLex (finding.exceptionUntil.getD 0, finding.vulnId)

def agentKey (agent : Agent) : Cursor := toLex (agent.lastSeenAt, agent.agentId)

def dueFindings (input : Input) (tenant : String) : List Finding :=
  input.findings.rows.filter (dueClause tenant input.now)

def expiringExceptions (input : Input) (tenant : String) : List Finding :=
  input.findings.rows.filter (exceptionClause tenant input.now)

def silentAgents (settings : Settings) (input : Input) : List Agent :=
  input.agents.rows.filter (agentClause settings input.tenants input.now)

/-- The cursors that a worker keeps from tick to tick, and when it last pruned. -/
structure Worker where
  dueCursor : String → Option Cursor
  exceptionCursor : String → Option Cursor
  agentCursor : Option Cursor
  lastPrune : Option ℤ

def newWorker : Worker := ⟨fun _ => none, fun _ => none, none, none⟩

variable (settings : Settings)

def Worker.dueWindow (w : Worker) (input : Input) (tenant : String) : List Finding :=
  keysetWindow dueKey (dueFindings input tenant) (w.dueCursor tenant) settings.limit

def Worker.exceptionWindow (w : Worker) (input : Input) (tenant : String) : List Finding :=
  keysetWindow exceptionKey (expiringExceptions input tenant) (w.exceptionCursor tenant)
    settings.limit

def Worker.agentWindow (w : Worker) (input : Input) : List Agent :=
  keysetWindow agentKey (silentAgents settings input) w.agentCursor settings.limit

def Worker.prunes (w : Worker) (now : ℤ) : Bool :=
  w.lastPrune.all fun last => 3600 * second ≤ now - last

/-- The cursors after a tick, which has gone through the windows of every active tenant. -/
def Worker.tick (w : Worker) (input : Input) : Worker where
  dueCursor tenant :=
    if tenant ∈ input.tenants then
      nextCursor dueKey (w.dueWindow settings input tenant) settings.limit
    else w.dueCursor tenant
  exceptionCursor tenant :=
    if tenant ∈ input.tenants then
      nextCursor exceptionKey (w.exceptionWindow settings input tenant) settings.limit
    else w.exceptionCursor tenant
  agentCursor := nextCursor agentKey (w.agentWindow settings input) settings.limit
  lastPrune := if w.prunes input.now then some input.now else w.lastPrune

end Windows

section Markers

inductive Reason where
  | fanOutFailed
  | recovered
  | pruned (window claimedAt now : ℤ)
deriving DecidableEq

inductive Entry where
  | claimed (key : MarkerKey)
  | givenBack (key : MarkerKey) (reason : Reason)
deriving DecidableEq

structure World where
  markers : Table (Prod.fst : MarkerKey × ℤ → MarkerKey)
  log : List Entry

def emptyWorld : World := ⟨Table.empty _, []⟩

variable (faults : Faults) (now : ℤ)

def claim (key : MarkerKey) (world : World) : World × Bool :=
  if faults.claimFails key then (world, false)
  else if h : world.markers.get key = none then
    (⟨world.markers.append (key, now) h, .claimed key :: world.log⟩, true)
  else (world, false)

def release (key : MarkerKey) (reason : Reason) (world : World) : World :=
  if faults.releaseFails key then world
  else if (world.markers.get key).isSome then
    ⟨world.markers.remove key, .givenBack key reason :: world.log⟩
  else world

/-- Claims an occurrence and emits it; a fan-out that fails gives the claim back. -/
def emitOnce (eventsEnabled : Bool) (key : MarkerKey) (world : World) : World :=
  let (world, claimed) := claim faults now key world
  if claimed && eventsEnabled && faults.fanOutFails key then
    release faults key .fanOutFailed world
  else world

end Markers

section Ticks

variable (settings : Settings) (input : Input)

def escalationKey (finding : Finding) (due : ℤ) : MarkerKey :=
  ⟨finding.tenant, .escalation, finding.vulnId, .deadline due⟩

def escalate (finding : Finding) (due : ℤ) (world : World) : World :=
  let policy := input.policy finding.tenant
  if policy.enabled && decide (due + days policy.escalateAfterDays ≤ input.now) then
    (claim input.faults input.now (escalationKey finding due) world).1
  else world

def announceDue (world : World) (finding : Finding) : World :=
  let due := finding.dueAt.getD 0
  match slaState input.now finding with
  | .breached =>
    emitOnce input.faults input.now settings.eventsEnabled
      ⟨finding.tenant, .slaBreached, finding.vulnId, .deadline due⟩
      (escalate input finding due world)
  | .dueSoon =>
    emitOnce input.faults input.now settings.eventsEnabled
      ⟨finding.tenant, .slaDueSoon, finding.vulnId, .deadline due⟩ world
  | _ => world

def daysLeft (until_ : ℤ) : ℤ := ⌈((until_ - input.now : ℤ) : ℚ) / (days 1 : ℤ)⌉

def thresholdKey (finding : Finding) (until_ warnDays : ℤ) : MarkerKey :=
  ⟨finding.tenant, .exceptionExpiring, finding.vulnId, .threshold until_ warnDays⟩

def warnException (world : World) (finding : Finding) : World :=
  let until_ := finding.exceptionUntil.getD 0
  (exceptionWarnDays.filter fun warnDays => daysLeft input until_ ≤ warnDays).foldl
    (fun world warnDays => (claim input.faults input.now (thresholdKey finding until_ warnDays)
      world).1) world

def offlineKey (agent : Agent) : MarkerKey := ⟨agent.tenant, .agentOffline, agent.agentId, .offline⟩

def announceOffline (world : World) (agent : Agent) : World :=
  emitOnce input.faults input.now settings.eventsEnabled (offlineKey agent) world

/-- An agent has kept a run of heartbeats, begun after its claim and long enough to be a return. -/
def recovered (row : MarkerKey × ℤ) : Bool :=
  row.1.kind == .agentOffline && row.1.marker == .offline &&
    (input.agents.get row.1.subject).any fun agent => agent.healthySince.any fun since =>
      row.2 < since && decide
        (since + settings.agentStaleSeconds * agentRecoveryFactor * second ≤ agent.lastSeenAt)

def agentRecoveries (world : World) : World :=
  (((world.markers.rows.filter (recovered settings input)).insertionSort fun a b =>
      a.1.subject ≤ b.1.subject).take settings.limit).foldl
    (fun world row => release input.faults row.1 .recovered world) world

def pruneMarkers (world : World) : World :=
  let gone := world.markers.rows.filter fun row =>
    expired input.plan input.now ⟨some row.1.tenant, some row.2⟩
  gone.foldl (fun world row =>
    ⟨world.markers.remove row.1, .givenBack row.1
      (.pruned (input.plan.daysFor (some row.1.tenant)) row.2 input.now) :: world.log⟩) world

def tenantTick (w : Worker) (world : World) (tenant : String) : World :=
  let world := (w.dueWindow settings input tenant).foldl (announceDue settings input) world
  (w.exceptionWindow settings input tenant).foldl (warnException input) world

def worldTick (w : Worker) (world : World) : World :=
  let world := if w.prunes input.now then pruneMarkers input world else world
  let world := input.tenants.foldl (tenantTick settings input w) world
  let world := (w.agentWindow settings input).foldl (announceOffline settings input) world
  agentRecoveries settings input world

/-- The workers of the replicas, over the one marker table. -/
structure Fleet where
  workers : ℕ → Worker
  world : World

def newFleet : Fleet := ⟨fun _ => newWorker, emptyWorld⟩

def Fleet.tick (fleet : Fleet) (by_ : ℕ) (input : Input) : Fleet where
  workers := Function.update fleet.workers by_ ((fleet.workers by_).tick settings input)
  world := worldTick settings input (fleet.workers by_) fleet.world

def Fleet.run (fleet : Fleet) (ticks : List (ℕ × Input)) : Fleet :=
  ticks.foldl (fun fleet tick => fleet.tick settings tick.1 tick.2) fleet

end Ticks

section Purpose

/-- Whether a claim of an occurrence stands, by what was done to the marker table. -/
def standing (key : MarkerKey) : List Entry → Bool
  | [] => false
  | .claimed other :: earlier => if other = key then true else standing key earlier
  | .givenBack other _ :: earlier => if other = key then false else standing key earlier

/-- Nothing is claimed while its claim stands, and nothing else is given back. -/
def Honest : List Entry → Prop
  | [] => True
  | .claimed key :: earlier => standing key earlier = false ∧ Honest earlier
  | .givenBack key _ :: earlier => standing key earlier = true ∧ Honest earlier

def Kind.announced : Kind → Bool
  | .slaBreached | .slaDueSoon | .agentOffline => true
  | .exceptionExpiring | .escalation => false

/-- Only an announcement whose fan-out failed is given back for it, only an agent recovers, and
retention reaches only what is past its window. -/
def Permitted : Entry → Prop
  | .claimed _ => True
  | .givenBack key .fanOutFailed => key.kind.announced = true
  | .givenBack key .recovered => key.kind = .agentOffline
  | .givenBack _ (.pruned window claimedAt now) => 0 < window ∧ claimedAt < now - days window

structure Journaled (world : World) : Prop where
  markers : ∀ key, (world.markers.get key).isSome = standing key world.log
  honest : Honest world.log
  permitted : ∀ entry ∈ world.log, Permitted entry

/-- Between two claims of an occurrence its marker was given back; but for an announcement whose
fan-out failed, or an agent that recovered, only retention did. -/
def ClaimedOnce (log : List Entry) : Prop :=
  ∀ key newer between older,
    log = newer ++ .claimed key :: (between ++ .claimed key :: older) →
      ∃ reason, .givenBack key reason ∈ between ∧
        (key.kind.announced = false → ∃ window claimedAt now,
          reason = .pruned window claimedAt now ∧ 0 < window ∧ claimedAt < now - days window) ∧
        (reason = .recovered → key.kind = .agentOffline)

end Purpose

section Journal

variable {settings : Settings} {input : Input} {faults : Faults} {now : ℤ} {world : World}

theorem journaled_empty : Journaled emptyWorld where
  markers _ := rfl
  honest := trivial
  permitted _ h := absurd h List.not_mem_nil

theorem journaled_claim (h : Journaled world) (key : MarkerKey) :
    Journaled (claim faults now key world).1 := by
  unfold claim
  split
  · exact h
  · split
    · rename_i hfree
      refine ⟨fun other => ?_, ⟨?_, h.honest⟩, ?_⟩
      · rw [Table.get_append]
        unfold standing
        split
        · rfl
        · exact h.markers other
      · rw [← h.markers key, hfree]
        rfl
      · exact List.forall_mem_cons.mpr ⟨trivial, h.permitted⟩
    · exact h

theorem journaled_remove (h : Journaled world) {key : MarkerKey} {reason : Reason}
    (hstands : (world.markers.get key).isSome = true)
    (hpermitted : Permitted (.givenBack key reason)) :
    Journaled ⟨world.markers.remove key, .givenBack key reason :: world.log⟩ := by
  refine ⟨fun other => ?_, ⟨?_, h.honest⟩, List.forall_mem_cons.mpr ⟨hpermitted, h.permitted⟩⟩
  · rw [Table.get_remove]
    unfold standing
    by_cases hsame : other = key
    · rw [if_pos hsame, if_pos hsame.symm]
      rfl
    · rw [if_neg hsame, if_neg (Ne.symm hsame)]
      exact h.markers other
  · rw [← h.markers key, hstands]

theorem journaled_release (h : Journaled world) {key : MarkerKey} {reason : Reason}
    (hpermitted : Permitted (.givenBack key reason)) :
    Journaled (release faults key reason world) := by
  unfold release
  split
  · exact h
  · split
    · rename_i hstands
      exact journaled_remove h hstands hpermitted
    · exact h

theorem journaled_emitOnce (h : Journaled world) {eventsEnabled : Bool} {key : MarkerKey}
    (hkind : key.kind.announced = true) :
    Journaled (emitOnce faults now eventsEnabled key world) := by
  have hclaimed : Journaled (claim faults now key world).1 := journaled_claim h key
  have hpermitted : Permitted (.givenBack key .fanOutFailed) := hkind
  unfold emitOnce
  generalize claim faults now key world = result at hclaimed ⊢
  obtain ⟨next, claimed⟩ := result
  dsimp only at hclaimed ⊢
  split
  · exact journaled_release hclaimed hpermitted
  · exact hclaimed

theorem journaled_escalate (h : Journaled world) (finding : Finding) (due : ℤ) :
    Journaled (escalate input finding due world) := by
  simp only [escalate]
  split
  · exact journaled_claim h _
  · exact h

theorem journaled_announceDue (h : Journaled world) (finding : Finding) :
    Journaled (announceDue settings input world finding) := by
  unfold announceDue
  cases slaState input.now finding with
  | breached => exact journaled_emitOnce (journaled_escalate h finding _) rfl
  | dueSoon => exact journaled_emitOnce h rfl
  | none => exact h
  | accepted => exact h
  | onTrack => exact h

theorem journaled_foldl {α : Type} {f : World → α → World} (l : List α)
    (hf : ∀ world, Journaled world → ∀ a ∈ l, Journaled (f world a)) (h : Journaled world) :
    Journaled (l.foldl f world) :=
  List.foldlRecOn l f (motive := Journaled) h fun world hworld a ha => hf world hworld a ha

theorem journaled_warnException (h : Journaled world) (finding : Finding) :
    Journaled (warnException input world finding) :=
  journaled_foldl _ (fun _ hworld _ _ => journaled_claim hworld _) h

theorem journaled_tenantTick (h : Journaled world) (w : Worker) (tenant : String) :
    Journaled (tenantTick settings input w world tenant) := by
  refine journaled_foldl _ (fun _ hworld finding _ => journaled_warnException hworld finding) ?_
  exact journaled_foldl _ (fun _ hworld finding _ => journaled_announceDue hworld finding) h

theorem journaled_gone {gone : List (MarkerKey × ℤ)} {reason : MarkerKey × ℤ → Reason}
    (hdistinct : (gone.map Prod.fst).Nodup)
    (hstand : ∀ row ∈ gone, (world.markers.get row.1).isSome = true)
    (hpermitted : ∀ row ∈ gone, Permitted (.givenBack row.1 (reason row))) (h : Journaled world) :
    Journaled (gone.foldl (fun world row =>
      ⟨world.markers.remove row.1, .givenBack row.1 (reason row) :: world.log⟩) world) := by
  induction gone generalizing world with
  | nil => exact h
  | cons row gone ih =>
    rw [List.map_cons, List.nodup_cons] at hdistinct
    refine ih hdistinct.2 ?_ (fun other hother => hpermitted other (List.mem_cons_of_mem _ hother))
      (journaled_remove h (hstand row List.mem_cons_self) (hpermitted row List.mem_cons_self))
    intro other hother
    have hne : other.1 ≠ row.1 := fun heq => hdistinct.1 (heq ▸ List.mem_map_of_mem hother)
    rw [Table.get_remove, if_neg hne]
    exact hstand other (List.mem_cons_of_mem _ hother)

theorem journaled_pruneMarkers (h : Journaled world) : Journaled (pruneMarkers input world) := by
  refine journaled_gone (world.markers.unique.sublist (List.filter_sublist.map _)) ?_ ?_ h
  · intro row hrow
    rw [world.markers.get_self (List.mem_of_mem_filter hrow)]
    rfl
  · intro row hrow
    obtain ⟨hpositive, since, hsince, hlate⟩ :=
      pastWindow_of_expired (List.mem_filter.mp hrow).2
    cases hsince
    exact ⟨hpositive, hlate⟩

theorem journaled_agentRecoveries (h : Journaled world) :
    Journaled (agentRecoveries settings input world) := by
  refine journaled_foldl _ (fun next hnext row hrow => journaled_release hnext ?_) h
  have hmem := (List.mem_insertionSort _).mp (List.mem_of_mem_take hrow)
  have hrecovered := (List.mem_filter.mp hmem).2
  unfold recovered at hrecovered
  simp only [Bool.and_eq_true, beq_iff_eq] at hrecovered
  exact hrecovered.1.1

theorem journaled_worldTick (h : Journaled world) (w : Worker) :
    Journaled (worldTick settings input w world) := by
  refine journaled_agentRecoveries (journaled_foldl _ ?_ (journaled_foldl _ ?_ ?_))
  · exact fun _ hworld agent _ => journaled_emitOnce hworld rfl
  · exact fun _ hworld tenant _ => journaled_tenantTick hworld w tenant
  · split
    · exact journaled_pruneMarkers h
    · exact h

theorem journaled_run (fleet : Fleet) (h : Journaled fleet.world) (ticks : List (ℕ × Input)) :
    Journaled (fleet.run settings ticks).world := by
  induction ticks generalizing fleet with
  | nil => exact h
  | cons tick ticks ih => exact ih _ (journaled_worldTick h (fleet.workers tick.1))

theorem honest_of_append {newer older : List Entry} (h : Honest (newer ++ older)) :
    Honest older := by
  induction newer with
  | nil => exact h
  | cons entry newer ih =>
    cases entry with
    | claimed key => exact ih h.2
    | givenBack key reason => exact ih h.2

theorem givenBack_between {key : MarkerKey} {between older : List Entry}
    (h : standing key (between ++ .claimed key :: older) = false) :
    ∃ reason, .givenBack key reason ∈ between := by
  induction between with
  | nil =>
    rw [List.nil_append, standing, if_pos rfl] at h
    cases h
  | cons entry between ih =>
    cases entry with
    | claimed other =>
      rw [List.cons_append, standing] at h
      split at h
      · cases h
      · obtain ⟨reason, hreason⟩ := ih h
        exact ⟨reason, List.mem_cons_of_mem _ hreason⟩
    | givenBack other reason =>
      rw [List.cons_append, standing] at h
      split at h
      · rename_i hsame
        exact ⟨reason, hsame ▸ List.mem_cons_self⟩
      · obtain ⟨earlier, hearlier⟩ := ih h
        exact ⟨earlier, List.mem_cons_of_mem _ hearlier⟩

theorem claimedOnce_of_journaled (h : Journaled world) : ClaimedOnce world.log := by
  intro key newer between older hlog
  have hhonest := h.honest
  rw [hlog] at hhonest
  obtain ⟨reason, hreason⟩ := givenBack_between (honest_of_append hhonest).1
  have hpermitted : Permitted (.givenBack key reason) := by
    refine h.permitted _ (hlog ▸ List.mem_append_right _ (List.mem_cons_of_mem _ ?_))
    exact List.mem_append_left _ hreason
  refine ⟨reason, hreason, ?_, ?_⟩
  · intro hkind
    cases reason with
    | fanOutFailed =>
      rw [Permitted, hkind] at hpermitted
      cases hpermitted
    | recovered =>
      rw [Permitted] at hpermitted
      rw [hpermitted] at hkind
      cases hkind
    | pruned window claimedAt now => exact ⟨window, claimedAt, now, rfl, hpermitted⟩
  · rintro rfl
    exact hpermitted

end Journal

section Visits

variable {settings : Settings} {workers : ℕ → Worker} {inputs : ℕ → Input}

theorem one_le_limit (settings : Settings) : 1 ≤ settings.limit := by
  unfold Settings.limit
  omega

def Ticks (settings : Settings) (workers : ℕ → Worker) (inputs : ℕ → Input) : Prop :=
  ∀ k, workers (k + 1) = (workers k).tick settings (inputs k)

theorem cursors_nodup {α : Type} {id : α → String} {time : α → ℤ} {rows : List α}
    (h : (rows.map id).Nodup) :
    (rows.map fun row => (toLex (time row, id row) : Cursor)).Nodup := by
  have hids : ((rows.map fun row => (toLex (time row, id row) : Cursor)).map fun cursor =>
      (ofLex cursor).2).Nodup := by
    rw [List.map_map]
    exact h
  exact hids.of_map

/-- A table of which a clause selects the rows is swept, where each window goes on from the last. -/
theorem table_sweeps {α : Type} {id : α → String} {time : α → ℤ} {tables : ℕ → Table id}
    {clause : ℕ → α → Bool} {cursors : ℕ → Option Cursor} {fixed : List α} {n : ℕ}
    (hgoesOn : ∀ k < n, cursors (k + 1) = nextCursor (fun row => toLex (time row, id row))
      (keysetWindow (fun row => toLex (time row, id row)) ((tables k).rows.filter (clause k))
        (cursors k) settings.limit) settings.limit)
    (hfixed : ∀ k < n, ∀ row ∈ (tables k).rows.filter (clause k), row ∈ fixed) :
    Sweeps (fun row => toLex (time row, id row)) settings.limit fixed
      (fun k => (tables k).rows.filter (clause k)) cursors n where
  goesOn := hgoesOn
  distinct k _ := cursors_nodup ((tables k).unique.sublist (List.filter_sublist.map _))
  fixed := hfixed

def visitTicks (settings : Settings) (size : ℕ) : ℕ := 2 * (size / settings.limit + 2)

structure VisitsAll (settings : Settings) (workers : ℕ → Worker) (inputs : ℕ → Input) : Prop where
  due : ∀ (tenant : String) (fixed : List Finding),
    (∀ k < visitTicks settings fixed.length, tenant ∈ (inputs k).tenants) →
    (∀ k < visitTicks settings fixed.length, ∀ other ∈ dueFindings (inputs k) tenant,
      other ∈ fixed) →
    ∀ finding, (∀ k < visitTicks settings fixed.length,
      finding ∈ dueFindings (inputs k) tenant) →
    ∃ k < visitTicks settings fixed.length,
      finding ∈ (workers k).dueWindow settings (inputs k) tenant
  exceptions : ∀ (tenant : String) (fixed : List Finding),
    (∀ k < visitTicks settings fixed.length, tenant ∈ (inputs k).tenants) →
    (∀ k < visitTicks settings fixed.length, ∀ other ∈ expiringExceptions (inputs k) tenant,
      other ∈ fixed) →
    ∀ finding, (∀ k < visitTicks settings fixed.length,
      finding ∈ expiringExceptions (inputs k) tenant) →
    ∃ k < visitTicks settings fixed.length,
      finding ∈ (workers k).exceptionWindow settings (inputs k) tenant
  agents : ∀ fixed : List Agent,
    (∀ k < visitTicks settings fixed.length, ∀ other ∈ silentAgents settings (inputs k),
      other ∈ fixed) →
    ∀ agent, (∀ k < visitTicks settings fixed.length,
      agent ∈ silentAgents settings (inputs k)) →
    ∃ k < visitTicks settings fixed.length, agent ∈ (workers k).agentWindow settings (inputs k)

theorem visitsAll_of_ticks (h : Ticks settings workers inputs) :
    VisitsAll settings workers inputs where
  due tenant fixed hactive hfixed _ hstays := by
    have hgoesOn : ∀ k < visitTicks settings fixed.length, (workers (k + 1)).dueCursor tenant =
        nextCursor dueKey ((workers k).dueWindow settings (inputs k) tenant) settings.limit := by
      intro k hk
      rw [h k]
      exact if_pos (hactive k hk)
    exact visited_within (one_le_limit settings) (table_sweeps hgoesOn hfixed) hstays
  exceptions tenant fixed hactive hfixed _ hstays := by
    have hgoesOn : ∀ k < visitTicks settings fixed.length,
        (workers (k + 1)).exceptionCursor tenant = nextCursor exceptionKey
          ((workers k).exceptionWindow settings (inputs k) tenant) settings.limit := by
      intro k hk
      rw [h k]
      exact if_pos (hactive k hk)
    exact visited_within (one_le_limit settings) (table_sweeps hgoesOn hfixed) hstays
  agents fixed hfixed _ hstays := by
    have hgoesOn : ∀ k < visitTicks settings fixed.length, (workers (k + 1)).agentCursor =
        nextCursor agentKey ((workers k).agentWindow settings (inputs k)) settings.limit := by
      intro k _
      rw [h k]
      rfl
    exact visited_within (one_le_limit settings) (table_sweeps hgoesOn hfixed) hstays

end Visits

section Results

/-- An occurrence is claimed again only when its claim was given back, and no sweep starves. -/
theorem sla_announces (settings : Settings) :
    (∀ ticks, ClaimedOnce (newFleet.run settings ticks).world.log) ∧
      ∀ workers inputs, Ticks settings workers inputs → VisitsAll settings workers inputs :=
  ⟨fun ticks => claimedOnce_of_journaled (journaled_run newFleet journaled_empty ticks),
    fun _ _ h => visitsAll_of_ticks h⟩

def hundred : Settings := ⟨100, 300, true⟩

def overdue : Finding := ⟨"vuln-1", "acme", false, some 0, none⟩

def breachKey : MarkerKey := ⟨"acme", .slaBreached, "vuln-1", .deadline 0⟩

def yearPlan : RetentionPlan := loadPlan (some 365) yearly (Table.empty _) []

def tickAt (now : ℤ) (fanOutFails : Bool) : Input where
  now := now
  tenants := ["acme"]
  findings := ⟨[overdue], List.pairwise_singleton _ _⟩
  agents := Table.empty _
  policy _ := ⟨true, 0⟩
  plan := yearPlan
  faults := ⟨fun _ => false, fun _ => false, fun _ => fanOutFails⟩

/-- A fan-out that fails has its breach claimed again, and retention has a deadline escalated
again. -/
theorem claimed_twice :
    (newFleet.run hundred [(0, tickAt 1 true), (0, tickAt 2 false)]).world.log.count
        (.claimed breachKey) = 2 ∧
      (newFleet.run hundred [(0, tickAt 1 false), (0, tickAt (days 366) false)]).world.log.count
        (.claimed (escalationKey overdue 0)) = 2 := by
  decide +kernel

def stillWorkers : ℕ → Worker
  | 0 => newWorker
  | k + 1 => (stillWorkers k).tick hundred (tickAt 1 false)

theorem sla_announces_overdue :
    ClaimedOnce (newFleet.run hundred [(0, tickAt 1 true), (0, tickAt 2 false)]).world.log ∧
      ∃ k < visitTicks hundred 1,
        overdue ∈ (stillWorkers k).dueWindow hundred (tickAt 1 false) "acme" := by
  have hannounces := sla_announces hundred
  refine ⟨hannounces.1 _, ?_⟩
  refine (hannounces.2 stillWorkers (fun _ => tickAt 1 false) fun _ => rfl).due "acme" [overdue]
    ?_ ?_ overdue ?_
  · exact fun _ _ => List.mem_singleton_self _
  · exact fun _ _ other hother => List.mem_of_mem_filter hother
  · exact fun _ _ => List.mem_filter.mpr ⟨List.mem_singleton_self _, by decide⟩

end Results

end Shapoclyack.SlaSweeps
