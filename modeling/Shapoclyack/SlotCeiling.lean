import Shapoclyack.IngestFencing
import Shapoclyack.Library.TableCounts

set_option autoImplicit false

namespace Shapoclyack.SlotCeiling

open JobStates Jobs JobConcurrency IngestFencing Library

def occupying (status : Status) : Bool :=
  status == .claimed || status == .running || status == .cancelling

structure Ceilings where
  settings : Settings
  concurrencyLimit : String → Option ℕ
  claimLock : String → ℤ

inductive Purpose where
  | claim (claimant : Claimant)
  | start (jobId : String)
deriving DecidableEq

structure Slot where
  txn : ℕ
  tenantId : String
  purpose : Purpose
  /-- It holds its tenant's claim lock, and will until it ends. -/
  locked : Bool
  /-- What `hold_slot` answered, none before it has counted. -/
  granted : Option Bool
deriving DecidableEq

/-- The jobs, the open slot transactions, and the versions that heartbeats have read. -/
structure Queue where
  jobs : Table Job.jobId
  slots : Table Slot.txn
  reads : List Job

def Queue.empty : Queue := ⟨Table.empty Job.jobId, Table.empty Slot.txn, []⟩

def Queue.occupied (q : Queue) (tenantId : String) : ℕ :=
  q.jobs.count fun row => row.tenantId == tenantId && occupying row.status

/-- The operations that take a slot before the row. -/
def slotOp : JobOp → Bool
  | .claim _ _ => true
  | .startLocal _ _ _ => true
  | _ => false

inductive Act where
  | submit (row : Job)
  /-- The first half of `hold_slot`: read the ceiling and take the claim lock. -/
  | ask (txn : ℕ) (purpose : Purpose)
  /-- The second half: count the jobs that are out. -/
  | count (txn : ℕ)
  | claim (txn : ℕ) (jobId : String) (now : ℤ)
  | start (txn : ℕ) (ready : Bool) (lifetime now : ℤ)
  | giveUp (txn : ℕ)
  /-- A transaction under the row's lock that asks for no slot. -/
  | write (jobId : String) (op : JobOp)
  | read (jobId : String)
  /-- The UPDATE of a heartbeat or a renewal, decided on a version read before. -/
  | land (seen : Job) (op : JobOp)

section Steps

variable (cfg : Ceilings) (q : Queue)

def Queue.tenantOf : Purpose → Option String
  | .claim claimant => some claimant.tenantId
  | .start jobId => (q.jobs.get jobId).map Job.tenantId

def Queue.lockFree (tenantId : String) : Bool :=
  q.slots.rows.all fun slot =>
    !(slot.locked && cfg.claimLock slot.tenantId == cfg.claimLock tenantId)

/-- What asking for a slot leaves; none while a claim waits for the lock. -/
def Queue.asked (txn : ℕ) (purpose : Purpose) (tenantId : String) : Option Slot :=
  if cfg.concurrencyLimit tenantId = none then some ⟨txn, tenantId, purpose, false, some true⟩
  else if q.lockFree cfg tenantId then some ⟨txn, tenantId, purpose, true, none⟩
  else
    match purpose with
    | .claim _ => none
    | .start _ => some ⟨txn, tenantId, purpose, false, some false⟩

def Queue.roomFor (tenantId : String) : Bool :=
  match cfg.concurrencyLimit tenantId with
  | none => true
  | some limit => decide (q.occupied tenantId < limit)

def Queue.commit (jobId : String) (run : Job → Option Job) : Option Queue :=
  match q.jobs.get jobId with
  | none => none
  | some row => (run row).map fun row' => { q with jobs := q.jobs.put row' }

def Queue.step : Act → Option Queue
  | .submit row =>
    if h : q.jobs.get row.jobId = none then
      if row.status = .queued then some { q with jobs := q.jobs.append row h } else none
    else none
  | .ask txn purpose =>
    match (q.tenantOf purpose).bind (q.asked cfg txn purpose) with
    | none => none
    | some slot =>
      if h : q.slots.get slot.txn = none then some { q with slots := q.slots.append slot h }
      else none
  | .count txn =>
    match q.slots.get txn with
    | none => none
    | some slot =>
      if slot.locked = true ∧ slot.granted = none then
        some { q with
          slots := q.slots.put { slot with granted := some (q.roomFor cfg slot.tenantId) } }
      else none
  | .claim txn jobId now =>
    match q.slots.get txn with
    | some ⟨_, _, .claim claimant, _, some true⟩ =>
      (q.commit jobId (claimJob cfg.settings claimant now)).map fun q' =>
        { q' with slots := q.slots.remove txn }
    | _ => none
  | .start txn ready lifetime now =>
    match q.slots.get txn with
    | some ⟨_, _, .start jobId, _, some slot⟩ =>
      (q.commit jobId fun row =>
        (startLocal cfg.settings (slot && ready) lifetime now row).toOption).map fun q' =>
          { q' with slots := q.slots.remove txn }
    | _ => none
  | .giveUp txn => some { q with slots := q.slots.remove txn }
  | .write jobId op =>
    if op.unlocked = true ∨ slotOp op = true then none
    else q.commit jobId (op.run cfg.settings)
  | .read jobId => (q.jobs.get jobId).map fun row => { q with reads := row :: q.reads }
  | .land seen op =>
    if op.unlocked = true ∧ seen ∈ q.reads then
      q.commit seen.jobId fun row => (op.run cfg.settings seen).map (overlay row seen)
    else none

/-- A heartbeat read while its job was claimed is written while the job still holds a slot. -/
def landsInSlot : Act → Prop
  | .land seen (.heartbeat agentId _) =>
    seen.status = .claimed → seen.assignedAgentId = some agentId →
      ∀ row, q.jobs.get seen.jobId = some row → occupying row.status = true
  | _ => True

end Steps

section Rows

/-- What a write that takes no slot may do: the same job, out only if it was out before. -/
structure KeepsSlot (row row' : Job) : Prop where
  identity : identityOf row' = identityOf row
  held : occupying row'.status = true → occupying row.status = true

theorem occupying_of_inFlight {status : Status} (h : inFlight status = true) :
    occupying status = true := by
  cases status <;> first | rfl | exact absurd h (by decide)

theorem not_occupying_of_terminal {status : Status} (h : terminal status = true) :
    occupying status = false := by
  cases status <;> first | rfl | exact absurd h (by decide)

theorem KeepsSlot.of_status {row row' : Job} (hidentity : identityOf row' = identityOf row)
    (h : row'.status = row.status) : KeepsSlot row row' :=
  ⟨hidentity, fun hout => by rw [← h]; exact hout⟩

theorem KeepsSlot.of_vacant {row row' : Job} (hidentity : identityOf row' = identityOf row)
    (h : occupying row'.status = false) : KeepsSlot row row' :=
  ⟨hidentity, fun hout => by rw [h] at hout; exact absurd hout (by decide)⟩

theorem KeepsSlot.of_finished {row row' : Job} (h : Finished row row') : KeepsSlot row row' :=
  .of_vacant h.identity (not_occupying_of_terminal h.ended)

theorem KeepsSlot.of_same {row row' : Job} (h : SameOutcome row row') : KeepsSlot row row' :=
  .of_status h.identity h.status

theorem cancelJob_keepsSlot {s : Settings} {username : String} {now : ℤ} {row row' : Job}
    (h : cancelJob s username now row = .ok row') : KeepsSlot row row' := by
  refine ⟨(cancelJob_fenced h).identity, fun hout => ?_⟩
  unfold cancelJob at h
  by_cases hstopping : row.status = .cancelling
  · rw [hstopping]
    rfl
  · rw [if_neg hstopping] at h
    split at h
    case isTrue => simp at h
    case isFalse =>
      split at h
      case h_1 => simp at h
      case h_2 =>
        split at h
        case isTrue htarget =>
          unfold cancelTarget at htarget
          split_ifs at htarget with hflight
          exact occupying_of_inFlight hflight
        case isFalse =>
          rw [← Except.ok.inj h] at hout
          exact absurd (show occupying .cancelled = true from hout) (by decide)

theorem reapExpiredLease_keepsSlot (s : Settings) (now : ℤ) (row : Job) :
    KeepsSlot row (reapExpiredLease s now row) := by
  unfold reapExpiredLease
  split_ifs
  · exact .of_vacant rfl rfl
  · exact .of_vacant rfl rfl
  · exact .of_status rfl rfl

theorem reapStaleCancellation_keepsSlot (s : Settings) (now : ℤ) (row : Job) :
    KeepsSlot row (reapStaleCancellation s now row) := by
  unfold reapStaleCancellation
  split_ifs
  · exact .of_vacant rfl rfl
  · exact .of_status rfl rfl

theorem failLocal_keepsSlot (reason : String) (now : ℤ) (row : Job) :
    KeepsSlot row (failLocal reason now row) := by
  unfold failLocal
  split
  · next failed h =>
    obtain ⟨_, rfl⟩ := updateJob_ok h
    exact .of_vacant rfl rfl
  · exact .of_status rfl rfl

theorem locked_keepsSlot {s : Settings} {op : JobOp} {row row' : Job}
    (hop : ¬ (op.unlocked = true ∨ slotOp op = true)) (h : op.run s row = some row') :
    KeepsSlot row row' := by
  cases op with
  | claim | heartbeat | renew | startLocal => exact absurd hop (by simp [JobOp.unlocked, slotOp])
  | cancel username now => exact cancelJob_keepsSlot (toOption_eq_some h)
  | begin u token now =>
    simp only [JobOp.run] at h
    split at h
    · next begun hbegin =>
      rw [← Option.some.inj h]
      exact .of_same (begin_quiet (t := begun.2) hbegin)
    · simp at h
  | accept u t now => exact .of_finished (acceptUpload_ok (toOption_eq_some h)).2
  | reject u t rejection now =>
    exact .of_finished (failRejectedUpload_ok (toOption_eq_some h)).2
  | lateArchive u t =>
    have hlate := recordLate_ok (toOption_eq_some h)
    exact .of_status hlate.2.1 hlate.2.2.1
  | releaseReservation key late =>
    rw [← Option.some.inj h]
    unfold releaseResultsReservation
    split_ifs <;> exact .of_status rfl rfl
  | releaseLease fence now =>
    rw [← Option.some.inj h]
    exact .of_same (releaseLease_quiet s fence now row)
  | reapLease now =>
    rw [← Option.some.inj h]
    exact reapExpiredLease_keepsSlot s now row
  | reapCancellation now =>
    rw [← Option.some.inj h]
    exact reapStaleCancellation_keepsSlot s now row
  | finishLocal run now => exact .of_finished (finishLocal_ok (toOption_eq_some h))
  | failLocal reason now =>
    rw [← Option.some.inj h]
    exact failLocal_keepsSlot reason now row

theorem startLocal_identity {s : Settings} {ready : Bool} {lifetime now : ℤ} {row row' : Job}
    (h : startLocal s ready lifetime now row = .ok row') : identityOf row' = identityOf row := by
  unfold startLocal at h
  split at h
  · simp at h
  · split_ifs at h
    · rw [← Except.ok.inj h]
      rfl
    · rw [← Except.ok.inj h]
      unfold renewWaitingMark
      split
      · rfl
      · split_ifs <;> rfl

theorem startLocal_waits {s : Settings} {lifetime now : ℤ} {row row' : Job}
    (h : startLocal s false lifetime now row = .ok row') : KeepsSlot row row' := by
  refine .of_status (startLocal_identity h) ?_
  unfold startLocal at h
  split at h
  · simp at h
  · rw [if_neg (by decide)] at h
    rw [← Except.ok.inj h]
    unfold renewWaitingMark
    split
    · rfl
    · split_ifs <;> rfl

theorem unlocked_identity {s : Settings} {op : JobOp} {seen new : Job} (hop : op.unlocked = true)
    (h : op.run s seen = some new) : identityOf new = identityOf seen := by
  cases op with
  | heartbeat agentId now =>
    rw [← Option.some.inj h]
    exact (markRunning_fenced s agentId now seen).identity
  | renew agentId now =>
    rw [← Option.some.inj h]
    exact (renewLease_fenced s agentId now seen).identity
  | _ => simp [JobOp.unlocked] at hop

theorem overlay_identity {current seen new : Job} (h : identityOf new = identityOf seen) :
    identityOf (overlay current seen new) = identityOf current := by
  simp only [identityOf, Prod.mk.injEq] at h
  simp only [identityOf, overlay, h.1, h.2.1, h.2.2, column_unchanged]

theorem unlocked_promotes {s : Settings} {op : JobOp} {seen new : Job} (hop : op.unlocked = true)
    (h : op.run s seen = some new) :
    new.status = seen.status ∨
      (new.status = .running ∧ seen.status = .claimed ∧
        ∃ agentId now, op = .heartbeat agentId now ∧ seen.assignedAgentId = some agentId) := by
  rcases unlocked_reads hop h with rfl | ⟨_, hkept | ⟨hclaimed, hrunning⟩⟩
  · exact .inl rfl
  · exact .inl hkept
  · refine .inr ⟨hrunning, hclaimed, ?_⟩
    have hchanged : new ≠ seen := by
      rintro rfl
      rw [hclaimed] at hrunning
      exact absurd hrunning (by decide)
    cases op with
    | heartbeat agentId now =>
      exact ⟨agentId, now, rfl, (unlocked_holder hop rfl h).resolve_left hchanged⟩
    | renew agentId now =>
      rw [← Option.some.inj h] at hrunning
      have hsame : (renewLease s agentId now seen).status = seen.status := by
        unfold renewLease
        split_ifs
        · rfl
        · cases agentId with
          | none => simp
          | some agent =>
            simp only
            split_ifs
            · rfl
            · simp
      rw [hsame, hclaimed] at hrunning
      exact absurd hrunning (by decide)
    | _ => simp [JobOp.unlocked] at hop

theorem landing_keepsSlot {s : Settings} {op : JobOp} {row seen new : Job}
    (hop : op.unlocked = true) (h : op.run s seen = some new)
    (hlands : ∀ agentId now, op = .heartbeat agentId now → seen.status = .claimed →
      seen.assignedAgentId = some agentId → occupying row.status = true) :
    KeepsSlot row (overlay row seen new) := by
  have hidentity : identityOf (overlay row seen new) = identityOf row :=
    overlay_identity (unlocked_identity hop h)
  rcases unlocked_promotes hop h with hkept | ⟨_, hclaimed, agentId, now, hbeat, hagent⟩
  · exact .of_status hidentity (by simp [overlay, hkept, column_unchanged])
  · exact ⟨hidentity, fun _ => hlands agentId now hbeat hclaimed hagent⟩

end Rows

section Invariant

variable {cfg : Ceilings} {q q' : Queue} {row row' : Job} {slot : Slot}

theorem tenantId_of_identity (h : identityOf row' = identityOf row) :
    row'.tenantId = row.tenantId := congrArg (fun i => i.2.1) h

theorem jobId_of_identity (h : identityOf row' = identityOf row) : row'.jobId = row.jobId :=
  congrArg Prod.fst h

theorem commit_ok {jobId : String} {run : Job → Option Job} (h : q.commit jobId run = some q') :
    ∃ row row', q.jobs.get row.jobId = some row ∧ jobId = row.jobId ∧ run row = some row' ∧
      q' = { q with jobs := q.jobs.put row' } := by
  unfold Queue.commit at h
  split at h
  · simp at h
  · next row hget =>
    obtain ⟨row', hrun, hq⟩ := Option.map_eq_some_iff.mp h
    have hid := ((q.jobs.get_eq_some_iff jobId row).mp hget).2
    exact ⟨row, row', by rw [hid]; exact hget, hid.symm, hrun, hq.symm⟩

theorem occupied_put (hget : q.jobs.get row.jobId = some row)
    (hidentity : identityOf row' = identityOf row) (tenantId : String) :
    Queue.occupied { q with jobs := q.jobs.put row' } tenantId +
        (if row.tenantId = tenantId ∧ occupying row.status = true then 1 else 0) =
      q.occupied tenantId +
        if row.tenantId = tenantId ∧ occupying row'.status = true then 1 else 0 := by
  have hheld : q.jobs.get row'.jobId = some row := by
    rw [jobId_of_identity hidentity]
    exact hget
  have hcount := q.jobs.count_put
    (fun row => row.tenantId == tenantId && occupying row.status) hheld
  simp only [Bool.and_eq_true, beq_iff_eq, tenantId_of_identity hidentity] at hcount
  exact hcount

theorem occupied_keeps (hget : q.jobs.get row.jobId = some row) (h : KeepsSlot row row')
    (tenantId : String) :
    Queue.occupied { q with jobs := q.jobs.put row' } tenantId ≤ q.occupied tenantId := by
  have hput := occupied_put hget h.identity tenantId
  have hheld := h.held
  split_ifs at hput with hbefore hafter hafter
  · omega
  · omega
  · exact absurd ⟨hafter.1, hheld hafter.2⟩ hbefore
  · omega

theorem occupied_takes (hget : q.jobs.get row.jobId = some row)
    (hidentity : identityOf row' = identityOf row) (tenantId : String) :
    Queue.occupied { q with jobs := q.jobs.put row' } tenantId ≤
      q.occupied tenantId + if row.tenantId = tenantId then 1 else 0 := by
  have hput := occupied_put hget hidentity tenantId
  by_cases hown : row.tenantId = tenantId
  · simp only [hown, true_and] at hput ⊢
    split_ifs at hput ⊢ <;> omega
  · simp only [hown, false_and, if_false] at hput ⊢
    omega

theorem tenantOf_put (hget : q.jobs.get row.jobId = some row)
    (hidentity : identityOf row' = identityOf row) (purpose : Purpose) :
    Queue.tenantOf { q with jobs := q.jobs.put row' } purpose = q.tenantOf purpose := by
  cases purpose with
  | claim claimant => rfl
  | start jobId =>
    simp only [Queue.tenantOf]
    rw [Table.get_put]
    split_ifs with hself
    · rw [hself, jobId_of_identity hidentity, hget]
      exact congrArg some (tenantId_of_identity hidentity)
    · rfl

/-- What the slot protocol keeps: no ceiling is passed, a granted slot still has room under a lock
that is held, and no two transactions hold one lock. -/
structure CeilingInv (cfg : Ceilings) (q : Queue) : Prop where
  bounded : ∀ tenantId limit, cfg.concurrencyLimit tenantId = some limit →
    q.occupied tenantId ≤ limit
  room : ∀ slot ∈ q.slots.rows, slot.granted = some true →
    ∀ limit, cfg.concurrencyLimit slot.tenantId = some limit →
      slot.locked = true ∧ q.occupied slot.tenantId < limit
  alone : ∀ x ∈ q.slots.rows, ∀ y ∈ q.slots.rows, x.locked = true → y.locked = true →
    cfg.claimLock x.tenantId = cfg.claimLock y.tenantId → x = y
  tenant : ∀ slot ∈ q.slots.rows, q.tenantOf slot.purpose = some slot.tenantId

theorem ceilingInv_empty : CeilingInv cfg Queue.empty where
  bounded _ _ _ := by simp [Queue.occupied, Queue.empty]
  room slot hslot := by simp [Queue.empty, Table.empty] at hslot
  alone x hx := by simp [Queue.empty, Table.empty] at hx
  tenant slot hslot := by simp [Queue.empty, Table.empty] at hslot

theorem CeilingInv.of_le (inv : CeilingInv cfg q)
    (hjobs : ∀ tenantId, q'.occupied tenantId ≤ q.occupied tenantId)
    (htenant : ∀ purpose tenantId, q.tenantOf purpose = some tenantId →
      q'.tenantOf purpose = some tenantId)
    (hslots : ∀ slot ∈ q'.slots.rows, slot ∈ q.slots.rows) : CeilingInv cfg q' where
  bounded tenantId limit hlimit := (hjobs tenantId).trans (inv.bounded tenantId limit hlimit)
  room slot hslot hgranted limit hlimit := by
    obtain ⟨hlocked, hroom⟩ := inv.room slot (hslots slot hslot) hgranted limit hlimit
    exact ⟨hlocked, (hjobs slot.tenantId).trans_lt hroom⟩
  alone x hx y hy := inv.alone x (hslots x hx) y (hslots y hy)
  tenant slot hslot := htenant _ _ (inv.tenant slot (hslots slot hslot))

theorem CeilingInv.keeps (inv : CeilingInv cfg q) (hget : q.jobs.get row.jobId = some row)
    (h : KeepsSlot row row') : CeilingInv cfg { q with jobs := q.jobs.put row' } :=
  inv.of_le (occupied_keeps hget h)
    (fun purpose _ hold => (tenantOf_put hget h.identity purpose).trans hold)
    (fun _ hslot => hslot)

theorem CeilingInv.close (inv : CeilingInv cfg q) (txn : ℕ) :
    CeilingInv cfg { q with slots := q.slots.remove txn } :=
  inv.of_le (fun _ => le_refl _) (fun _ _ h => h) (fun _ hslot => (Table.mem_remove hslot).1)

theorem CeilingInv.take (inv : CeilingInv cfg q) (hslot : slot ∈ q.slots.rows)
    (hgranted : slot.granted = some true) (hget : q.jobs.get row.jobId = some row)
    (hidentity : identityOf row' = identityOf row) (hown : row.tenantId = slot.tenantId) :
    CeilingInv cfg { q with jobs := q.jobs.put row', slots := q.slots.remove slot.txn } where
  bounded tenantId limit hlimit := by
    refine (occupied_takes hget hidentity tenantId).trans ?_
    split_ifs with htenant
    · have hsame : slot.tenantId = tenantId := hown.symm.trans htenant
      rw [← hsame] at hlimit ⊢
      exact (inv.room slot hslot hgranted limit hlimit).2
    · exact inv.bounded tenantId limit hlimit
  room other hother hgranted' limit hlimit := by
    obtain ⟨hmem, hne⟩ := Table.mem_remove hother
    obtain ⟨hlocked', hroom⟩ := inv.room other hmem hgranted' limit hlimit
    refine ⟨hlocked', (occupied_takes hget hidentity other.tenantId).trans_lt ?_⟩
    split_ifs with htenant
    · -- both would hold the tenant's claim lock
      have hsame : slot.tenantId = other.tenantId := hown.symm.trans htenant
      have hlocked := (inv.room slot hslot hgranted limit (by rw [hsame]; exact hlimit)).1
      have heq := inv.alone slot hslot other hmem hlocked hlocked' (by rw [hsame])
      exact absurd (congrArg Slot.txn heq).symm hne
    · exact hroom
  alone x hx y hy := inv.alone x (Table.mem_remove hx).1 y (Table.mem_remove hy).1
  tenant other hother := by
    rw [← inv.tenant other (Table.mem_remove hother).1]
    exact tenantOf_put hget hidentity other.purpose

theorem asked_ok {txn : ℕ} {purpose : Purpose} {tenantId : String}
    (h : q.asked cfg txn purpose tenantId = some slot) :
    slot.tenantId = tenantId ∧ slot.purpose = purpose ∧
      (slot.granted = some true → cfg.concurrencyLimit tenantId = none) ∧
      (slot.locked = true → q.lockFree cfg tenantId = true) := by
  unfold Queue.asked at h
  split_ifs at h with hlimit hfree
  · rw [← Option.some.inj h]
    exact ⟨rfl, rfl, fun _ => hlimit, fun hlocked => absurd hlocked (by simp)⟩
  · rw [← Option.some.inj h]
    exact ⟨rfl, rfl, fun hgranted => absurd hgranted (by simp), fun _ => hfree⟩
  · cases purpose with
    | claim claimant => simp at h
    | start jobId =>
      rw [← Option.some.inj h]
      exact ⟨rfl, rfl, fun hgranted => absurd hgranted (by simp),
        fun hlocked => absurd hlocked (by simp)⟩

theorem lockFree_iff {tenantId : String} : q.lockFree cfg tenantId = true ↔
    ∀ slot ∈ q.slots.rows, slot.locked = true →
      cfg.claimLock slot.tenantId ≠ cfg.claimLock tenantId := by
  simp only [Queue.lockFree, List.all_eq_true, Bool.not_eq_true', Bool.and_eq_false_imp,
    beq_eq_false_iff_ne]

theorem CeilingInv.ask (inv : CeilingInv cfg q) {txn : ℕ} {purpose : Purpose} {tenantId : String}
    (htenant : q.tenantOf purpose = some tenantId)
    (hasked : q.asked cfg txn purpose tenantId = some slot)
    (hfresh : q.slots.get slot.txn = none) :
    CeilingInv cfg { q with slots := q.slots.append slot hfresh } := by
  obtain ⟨hslot, hpurpose, hgranted, hlock⟩ := asked_ok hasked
  have hmem : ∀ x ∈ (q.slots.append slot hfresh).rows, x ∈ q.slots.rows ∨ x = slot := by
    intro x hx
    rcases List.mem_append.mp hx with hold | hnew
    · exact .inl hold
    · exact .inr (List.mem_singleton.mp hnew)
  refine ⟨inv.bounded, fun x hx hx' limit hlimit => ?_, fun x hx y hy hxl hyl hxy => ?_,
    fun x hx => ?_⟩
  · rcases hmem x hx with hold | rfl
    · exact inv.room x hold hx' limit hlimit
    · rw [hslot, hgranted hx'] at hlimit
      exact absurd hlimit (by simp)
  · rcases hmem x hx with hxold | rfl
    · rcases hmem y hy with hyold | rfl
      · exact inv.alone x hxold y hyold hxl hyl hxy
      · rw [hslot] at hxy
        exact absurd hxy (lockFree_iff.mp (hlock hyl) x hxold hxl)
    · rcases hmem y hy with hyold | rfl
      · rw [hslot] at hxy
        exact absurd hxy.symm (lockFree_iff.mp (hlock hxl) y hyold hyl)
      · rfl
  · rcases hmem x hx with hold | rfl
    · exact inv.tenant x hold
    · rw [hpurpose, hslot]
      exact htenant

theorem roomFor_iff {tenantId : String} {limit : ℕ}
    (hlimit : cfg.concurrencyLimit tenantId = some limit) :
    q.roomFor cfg tenantId = true ↔ q.occupied tenantId < limit := by
  simp [Queue.roomFor, hlimit]

theorem CeilingInv.count (inv : CeilingInv cfg q) (hslot : slot ∈ q.slots.rows)
    (hlocked : slot.locked = true) :
    CeilingInv cfg { q with
      slots := q.slots.put { slot with granted := some (q.roomFor cfg slot.tenantId) } } := by
  refine ⟨inv.bounded, fun x hx hgranted limit hlimit => ?_, fun x hx y hy hxl hyl hxy => ?_,
    fun x hx => ?_⟩
  · rcases Table.mem_put hx with rfl | ⟨hold, _⟩
    · exact ⟨hlocked, (roomFor_iff hlimit).mp (Option.some.inj hgranted)⟩
    · exact inv.room x hold hgranted limit hlimit
  · rcases Table.mem_put hx with rfl | ⟨hxold, hxne⟩
    · rcases Table.mem_put hy with rfl | ⟨hyold, hyne⟩
      · rfl
      · have heq := inv.alone slot hslot y hyold hlocked hyl hxy
        exact absurd (congrArg Slot.txn heq).symm hyne
    · rcases Table.mem_put hy with rfl | ⟨hyold, hyne⟩
      · have heq := inv.alone x hxold slot hslot hxl hlocked hxy
        exact absurd (congrArg Slot.txn heq) hxne
      · exact inv.alone x hxold y hyold hxl hyl hxy
  · rcases Table.mem_put hx with rfl | ⟨hold, _⟩
    · exact inv.tenant slot hslot
    · exact inv.tenant x hold

theorem CeilingInv.submit (inv : CeilingInv cfg q) (hfresh : q.jobs.get row.jobId = none)
    (hqueued : row.status = .queued) :
    CeilingInv cfg { q with jobs := q.jobs.append row hfresh } := by
  refine inv.of_le (fun tenantId => ?_) (fun purpose tenantId hold => ?_) (fun _ hslot => hslot)
  · unfold Queue.occupied
    rw [Table.count_append, hqueued]
    simp [occupying]
  · cases purpose with
    | claim claimant => exact hold
    | start jobId =>
      simp only [Queue.tenantOf] at hold ⊢
      rw [Table.get_append]
      split_ifs with hself
      · rw [← hself, hfresh] at hold
        exact absurd hold (by simp)
      · exact hold

theorem claimJob_tenant {s : Settings} {claimant : Claimant} {now : ℤ}
    (h : claimJob s claimant now row = some row') : row.tenantId = claimant.tenantId := by
  unfold claimJob at h
  split at h
  case isFalse => simp at h
  case isTrue hclaim =>
    simp only [eligible, Bool.and_eq_true, beq_iff_eq] at hclaim
    exact hclaim.1.1.2

theorem claim_inv (inv : CeilingInv cfg q) {txn : ℕ} {jobId : String} {now : ℤ}
    (h : q.step cfg (.claim txn jobId now) = some q') : CeilingInv cfg q' := by
  simp only [Queue.step] at h
  split at h
  · next slotTenant claimant _ hget =>
    obtain ⟨hslot, htxn⟩ := (q.slots.get_eq_some_iff _ _).mp hget
    obtain ⟨u, hcommit, rfl⟩ := Option.map_eq_some_iff.mp h
    obtain ⟨row, row', hrow, _, hclaim, rfl⟩ := commit_ok hcommit
    have htenant : claimant.tenantId = slotTenant := Option.some.inj (inv.tenant _ hslot)
    rw [← htxn]
    exact inv.take hslot rfl hrow (claimJob_fenced hclaim).identity
      ((claimJob_tenant hclaim).trans htenant)
  · simp at h

theorem start_inv (inv : CeilingInv cfg q) {txn : ℕ} {ready : Bool} {lifetime now : ℤ}
    (h : q.step cfg (.start txn ready lifetime now) = some q') : CeilingInv cfg q' := by
  simp only [Queue.step] at h
  split at h
  · next slotTenant jobId _ granted hget =>
    obtain ⟨hslot, htxn⟩ := (q.slots.get_eq_some_iff _ _).mp hget
    obtain ⟨u, hcommit, rfl⟩ := Option.map_eq_some_iff.mp h
    obtain ⟨row, row', hrow, rfl, hrun, rfl⟩ := commit_ok hcommit
    have hstart := toOption_eq_some hrun
    cases granted with
    | false => exact (inv.keeps hrow (startLocal_waits hstart)).close txn
    | true =>
      have htenant : (q.jobs.get row.jobId).map Job.tenantId = some slotTenant :=
        inv.tenant _ hslot
      rw [hrow] at htenant
      rw [← htxn]
      exact inv.take hslot rfl hrow (startLocal_identity hstart) (Option.some.inj htenant)
  · simp at h

/-- A step whose heartbeat lands in a slot keeps every ceiling. -/
theorem step_inv (inv : CeilingInv cfg q) {a : Act} (hlands : landsInSlot q a)
    (h : q.step cfg a = some q') : CeilingInv cfg q' := by
  cases a with
  | claim txn jobId now => exact claim_inv inv h
  | start txn ready lifetime now => exact start_inv inv h
  | submit row =>
    simp only [Queue.step] at h
    split_ifs at h with hfresh hqueued
    rw [← Option.some.inj h]
    exact inv.submit hfresh hqueued
  | ask txn purpose =>
    simp only [Queue.step] at h
    split at h
    · simp at h
    · next slot hasked =>
      obtain ⟨tenantId, htenant, hslot⟩ := Option.bind_eq_some_iff.mp hasked
      split_ifs at h with hfresh
      rw [← Option.some.inj h]
      exact inv.ask htenant hslot hfresh
  | count txn =>
    simp only [Queue.step] at h
    split at h
    · simp at h
    · next slot hget =>
      split_ifs at h with hasked
      rw [← Option.some.inj h]
      exact inv.count ((q.slots.get_eq_some_iff _ _).mp hget).1 hasked.1
  | giveUp txn =>
    rw [← Option.some.inj h]
    exact inv.close txn
  | write jobId op =>
    simp only [Queue.step] at h
    split_ifs at h with hop
    obtain ⟨row, row', hrow, _, hrun, rfl⟩ := commit_ok h
    exact inv.keeps hrow (locked_keepsSlot hop hrun)
  | read jobId =>
    obtain ⟨row, _, rfl⟩ := Option.map_eq_some_iff.mp h
    exact inv.of_le (fun _ => le_refl _) (fun _ _ hold => hold) (fun _ hslot => hslot)
  | land seen op =>
    simp only [Queue.step] at h
    split_ifs at h with hop
    obtain ⟨row, row', hrow, hid, hland, rfl⟩ := commit_ok h
    obtain ⟨new, hrun, rfl⟩ := Option.map_eq_some_iff.mp hland
    refine inv.keeps hrow (landing_keepsSlot hop.1 hrun fun agentId now hbeat hclaimed hagent => ?_)
    subst hbeat
    exact hlands hclaimed hagent row (by rw [hid]; exact hrow)

abbrev queueStep (cfg : Ceilings) : Queue → Act → Queue → Prop := ofStep (Queue.step cfg)

/-- However claims, local starts, heartbeats, uploads, cancels and reapers interleave, no tenant
has more jobs out than its ceiling, while no heartbeat puts out a job that has left its slot. -/
theorem ceiling_holds {as : List Act}
    (h : Runs (guarded (queueStep cfg) landsInSlot) Queue.empty as q) :
    ∀ tenantId limit, cfg.concurrencyLimit tenantId = some limit →
      q.occupied tenantId ≤ limit :=
  (h.invariant (CeilingInv cfg) (fun _ _ _ inv hstep => step_inv inv hstep.1 hstep.2)
    ceilingInv_empty).bounded

end Invariant

section LateHeartbeat

def oneAtATime : Ceilings := ⟨defaults, fun _ => some 1, fun _ => 0⟩

def second : Job := { submitted with jobId := "job-2" }

def relief : Claimant := { sensor with agentId := "sensor-2", mintedRunId := "run-2" }

def handOut (txn : ℕ) (claimant : Claimant) (jobId : String) (now : ℤ) : List Act :=
  [.ask txn (.claim claimant), .count txn, .claim txn jobId now]

def beating : List Act :=
  [.submit submitted, .submit second] ++ handOut 1 sensor "job-1" 1 ++ [.read "job-1"]

def heartbeat : Act := .land claimed (.heartbeat "sensor-1" 4)

/-- The reaper takes the job back and the slot goes to the other job before the heartbeat writes. -/
def overtaken : List Act :=
  beating ++ .write "job-1" (.reapLease 400000000) :: handOut 2 relief "job-2" 400000001 ++
    [heartbeat]

theorem late_heartbeat_passes_ceiling :
    oneAtATime.concurrencyLimit "acme" = some 1 ∧
    ∃ q, Runs (queueStep oneAtATime) Queue.empty overtaken q ∧ q.occupied "acme" = 2 := by
  refine ⟨rfl, runFrom (Queue.step oneAtATime) Queue.empty overtaken, ?_, by decide +kernel⟩
  exact (Runs.of_runFrom (Queue.step oneAtATime) (fun _ _ => True) (fun _ _ _ => trivial)
    (by decide +kernel)).of_guarded

def underway : Queue := runFrom (Queue.step oneAtATime) Queue.empty beating

def promoted : Queue := runFrom (Queue.step oneAtATime) underway [heartbeat]

theorem punctual_heartbeat_keeps_ceiling :
    Runs (guarded (queueStep oneAtATime) landsInSlot) Queue.empty (beating ++ [heartbeat])
        promoted ∧
      (promoted.jobs.get "job-1").map Job.status = some .running ∧
      promoted.occupied "acme" ≤ 1 := by
  have hbeating : Runs (guarded (queueStep oneAtATime) landsInSlot) Queue.empty beating
      underway := by
    refine Runs.of_runFrom _ _ (fun a ha _ => ?_) (by decide +kernel)
    simp only [beating, handOut, List.cons_append, List.nil_append, List.mem_cons,
      List.not_mem_nil, or_false] at ha
    rcases ha with rfl | rfl | rfl | rfl | rfl | rfl <;> trivial
  have hstep : queueStep oneAtATime underway heartbeat promoted :=
    (Runs.of_runFrom (Queue.step oneAtATime) (fun _ _ => True) (fun _ _ _ => trivial)
      (by decide +kernel)).of_one.2
  have hout : (underway.jobs.get "job-1").all (fun row => occupying row.status) = true := by
    decide +kernel
  have hlands : landsInSlot underway heartbeat := by
    intro _ _ row hrow
    have hrow' : underway.jobs.get "job-1" = some row := hrow
    rw [hrow'] at hout
    exact hout
  have hrun := hbeating.trans (Runs.one ⟨hlands, hstep⟩)
  exact ⟨hrun, by decide +kernel, ceiling_holds hrun "acme" 1 rfl⟩

end LateHeartbeat

end Shapoclyack.SlotCeiling
