import Shapoclyack.IngestFencing
import Shapoclyack.TrackerTransactions
import Shapoclyack.VerificationHonesty

set_option autoImplicit false

namespace Shapoclyack.VerificationQueue

open FindingEvidence VerificationArtifacts VulnStates Findings FindingFold FoldEffects Lifecycle
open VerificationDispatch FindingEvents TrackerTransactions Jobs JobConcurrency ResultUploads
open IngestFencing Library

/-- A stored job: its row with the uploads on it, and what it was dispatched to verify. -/
structure Scan where
  ingest : Ingest
  idempotencyKey : Option IntentKey
  verificationOf : Option String

def scanKey (scan : Scan) : String := scan.ingest.row.jobId

def Scan.verification (scan : Scan) : VerificationJob where
  jobId := scanKey scan
  tenantId := scan.ingest.row.tenantId
  status := scan.ingest.row.status
  idempotencyKey := scan.idempotencyKey
  verificationOf := scan.verificationOf

/-- The queue, the publications it still owes, and the tracker they feed. -/
structure World where
  jobs : Table scanKey
  outbox : List Publication
  /-- Publications closed without having fed the tracker: the best-effort step raised, or found no
  run to read, or an operator discarded the row. -/
  unfed : List Publication
  tracker : Tracker

section Steps

/-- A write of the queue, of the tracker, or of a publication's projection. -/
inductive Event where
  | submitted (row : Job) (key : Option IntentKey) (verificationOf : Option String)
  | job (jobId : String) (e : ResultUploads.Event)
  | dispatched (k : String × String) (seen : Vulnerability) (hostsThen hostsNow : List String)
      (jobId : String) (actor : Option String) (now : ℤ)
  | moved (k : String × String) (new : State) (actor : Option String) (now : ℤ)
  | fed (p : Publication) (run : Run)
  | released (p : Publication) (now : ℤ)
  | unfed (p : Publication)

variable (s : Settings) (lib : CoverageText)

def written (f : Vulnerability → Lifecycle.Outcome) (row : Vulnerability) : Vulnerability :=
  match f row with
  | .ok row' => row'
  | .error _ => row

def Scan.take (e : ResultUploads.Event) (scan : Scan) : Scan :=
  match scan.ingest.step s e with
  | some ingest => { scan with ingest := ingest }
  | none => scan

def insertedBy (before after : Ingest) : List Publication :=
  after.publications.take (after.publications.length - before.publications.length)

/-- `select(Job.job_id).where(Job.run_id == run_id)`. -/
def World.jobsOfRun (w : World) (runId : String) : List String :=
  (w.jobs.rows.filter fun scan => scan.ingest.row.runId == some runId).map scanKey

def World.publishedRun (w : World) (p : Publication) (run : Run) : Run :=
  { run with
    tenantId := p.tenantId
    runId := p.runId
    jobIds := w.jobsOfRun p.runId }

theorem scan_take_key (e : ResultUploads.Event) (scan : Scan) :
    scanKey (scan.take s e) = scanKey scan := by
  unfold Scan.take
  split
  · next ingest h => exact congrArg Prod.fst (step_identity h)
  · rfl

theorem written_key {f : Vulnerability → Lifecycle.Outcome}
    (hf : ∀ row row', f row = .ok row' → rowKey row' = rowKey row) (row : Vulnerability) :
    rowKey (written f row) = rowKey row := by
  unfold written
  split
  · next row' h => exact hf row row' h
  · rfl

theorem dispatchVerification_key {seen : Vulnerability} {hostsThen hostsNow : List String}
    {job : VerificationJob} {actor : Option String} {now : ℤ} (row row' : Vulnerability)
    (h : dispatchVerification lib seen hostsThen hostsNow job actor now row = .ok row') :
    rowKey row' = rowKey row := by
  obtain ⟨_, _, rfl⟩ := dispatchVerification_ok h
  rfl

theorem transition_state {new : State} {actor : Option String} {now : ℤ} {row row' : Vulnerability}
    (h : transition new actor now row = .ok row') : row'.state = new := by
  obtain ⟨_, rfl⟩ := checked_ok h
  split_ifs
  · unfold closeByHand
    rw [dropException_frame]
    rfl
  · unfold reopenByHand dropFpVerdictOnReopen
    simp only
    split_ifs <;> rfl
  · rfl

theorem transition_key {new : State} {actor : Option String} {now : ℤ} (row row' : Vulnerability)
    (h : transition new actor now row = .ok row') : rowKey row' = rowKey row := by
  obtain ⟨_, rfl⟩ := checked_ok h
  split_ifs
  · unfold closeByHand
    rw [dropException_frame]
    rfl
  · unfold reopenByHand dropFpVerdictOnReopen
    simp only
    split_ifs <;> rfl
  · rfl

theorem release_key (tenantId jobId : String) (now : ℤ) (row : Vulnerability) :
    rowKey (releaseUnfinishedVerification tenantId jobId now row) = rowKey row := by
  unfold releaseUnfinishedVerification
  split_ifs <;> rfl

def World.step (w : World) : Event → Option World
  | .submitted row key verificationOf =>
    if h : w.jobs.get row.jobId = none then
      if row.status = .queued ∧ row.attempts = 0 then
        some { w with jobs := w.jobs.append ⟨Ingest.start row, key, verificationOf⟩ h }
      else none
    else none
  | .job jobId e =>
    match w.jobs.get jobId with
    | none => none
    | some scan =>
      (scan.ingest.step s e).map fun ingest =>
        { w with
          jobs := w.jobs.modifyAt jobId (Scan.take s e) (scan_take_key s e)
          outbox := insertedBy scan.ingest ingest ++ w.outbox }
  | .dispatched k seen hostsThen hostsNow jobId actor now =>
    match w.jobs.get jobId, w.tracker.get k with
    | some scan, some row =>
      if scan.ingest.row.tenantId = row.tenantId then
        let receipt :=
          dispatchVerification lib seen hostsThen hostsNow scan.verification actor now
        match receipt row with
        | .ok _ =>
          some { w with
            tracker := w.tracker.modifyAt k (written receipt)
              (written_key fun row row' => dispatchVerification_key lib row row') }
        | .error _ => none
      else none
    | _, _ => none
  | .moved k new actor now =>
    if new = .VERIFYING then none
    else
      some { w with
        tracker := w.tracker.modifyAt k (written (transition new actor now))
          (written_key transition_key) }
  | .fed p run =>
    if p ∈ w.outbox ∧ p.jobStatus = .succeeded ∧ (run.reported = [] → run.hasRunDir = true) then
      (registerFindingsFromRun lib (w.publishedRun p run) w.tracker).map fun t =>
        { w with tracker := t, outbox := w.outbox.erase p }
    else none
  | .released p now =>
    if p ∈ w.outbox ∧ p.jobStatus ≠ .succeeded then
      some { w with
        tracker := w.tracker.modify (releaseUnfinishedVerification p.tenantId p.jobId now)
          (release_key p.tenantId p.jobId now)
        outbox := w.outbox.erase p }
    else none
  | .unfed p =>
    if p ∈ w.outbox then
      some { w with outbox := w.outbox.erase p, unfed := p :: w.unfed }
    else none

end Steps

section Publications

/-- What no step takes back: which job it is, how it ended, and which run a success left. -/
structure Lasting (row row' : Job) : Prop where
  identity : IngestFencing.identityOf row' = IngestFencing.identityOf row
  ended : JobStates.terminal row.status = true → row'.status = row.status
  run : row.status = .succeeded → row'.runId = row.runId

structure Describes (p : Publication) (row : Job) : Prop where
  job : p.jobId = row.jobId
  tenant : p.tenantId = row.tenantId
  ended : JobStates.terminal row.status = true
  outcome : p.jobStatus = row.status
  run : row.status = .succeeded → row.runId = some p.runId

variable {s : Settings} {st st' : Ingest} {p : Publication} {row row' : Job}

theorem Fenced.lasting (h : Fenced row row') : Lasting row row' where
  identity := h.identity
  ended hended := (h.ended hended).1
  run := h.run

theorem SameOutcome.lasting (h : SameOutcome row row') : Lasting row row' where
  identity := h.identity
  ended _ := h.status
  run _ := h.runId

theorem Lasting.refl (row : Job) : Lasting row row := ⟨rfl, fun _ => rfl, fun _ => rfl⟩

theorem Lasting.job (h : Lasting row row') : row'.jobId = row.jobId :=
  congrArg Prod.fst h.identity

theorem Lasting.tenant (h : Lasting row row') : row'.tenantId = row.tenantId :=
  congrArg (fun i => i.2.1) h.identity

theorem Describes.lasts (h : Describes p row) (hlast : Lasting row row') : Describes p row' := by
  have hstatus := hlast.ended h.ended
  refine ⟨h.job.trans hlast.job.symm, h.tenant.trans hlast.tenant.symm, ?_,
    h.outcome.trans hstatus.symm, fun hsucceeded => ?_⟩
  · rw [hstatus]
    exact h.ended
  · rw [hstatus] at hsucceeded
    rw [hlast.run hsucceeded]
    exact h.run hsucceeded

theorem filled_eq_some_text {value : Option String} (h : truthy value = true) :
    filled value = some (text value) := by
  unfold filled
  rw [if_pos h]
  cases value with
  | none => simp [truthy] at h
  | some v => rfl

theorem commit_describes {q : Pending} {now : ℤ} (inv : FenceInv st) (hq : q ∈ st.pending)
    (hphase : q.phase = .ingesting) (hfileable : q.fileable = true)
    (hcommit : q.commit now st.row = .ok row') (hp : q.publication st.row = some p) :
    Describes p row' := by
  have hidentity := commit_identity hcommit
  have hjob : row'.jobId = st.row.jobId := congrArg Prod.fst hidentity
  have htenant : row'.tenantId = st.row.tenantId := congrArg (fun i => i.2.1) hidentity
  unfold Pending.publication at hp
  split_ifs at hp with harchive
  rw [← Option.some.inj hp]
  unfold Pending.commit at hcommit
  by_cases hlate : q.ticket.late = true
  · rw [if_pos hlate] at hcommit
    obtain ⟨_, _, hstatus, _, _⟩ := recordLate_ok hcommit
    have hheld : reserves q = true := by
      rw [reserves_of_open (by rw [hphase]; decide), hlate]
    have hcancelled : row'.status = .cancelled := hstatus.trans (inv.reserved q hq hheld).1
    refine ⟨hjob.symm, htenant.symm, by rw [hcancelled]; rfl, ?_, fun hsucceeded => ?_⟩
    · exact ((inv.formed q hq).late hlate).trans hcancelled.symm
    · rw [hcancelled] at hsucceeded
      exact absurd hsucceeded (by decide)
  · rw [if_neg hlate] at hcommit
    obtain ⟨_, hupdate⟩ := finishFenced_ok hcommit
    obtain ⟨_, rfl⟩ := updateJob_ok hupdate
    have htruthy : truthy q.ticket.runId = true := by
      simpa [Pending.fileable, harchive] using hfileable
    exact ⟨hjob.symm, htenant.symm, q.ticket.ends, rfl, fun _ => filled_eq_some_text htruthy⟩

theorem finishLocal_describes {run : LocalRun} {now : ℤ}
    (hfinish : finishLocal run now row = .ok row') (hp : localPublication run row = some p) :
    Describes p row' := by
  have hended := (finishLocal_ok hfinish).ended
  unfold localPublication at hp
  split_ifs at hp with hdirectory
  rw [← Option.some.inj hp]
  obtain ⟨_, rfl⟩ := updateJob_ok hfinish
  exact ⟨rfl, rfl, hended, rfl, fun _ => filled_eq_some_text hdirectory.2⟩

/-- A step keeps what a job ended with, and inserts one publication at most, of the outcome it
leaves. -/
theorem step_effect {e : ResultUploads.Event} (inv : FenceInv st) (h : st.step s e = some st') :
    Lasting st.row st'.row ∧ (st'.publications = st.publications ∨
      ∃ p, st'.publications = p :: st.publications ∧ Describes p st'.row) := by
  cases step_cases h with
  | queue hop hthread hrow => exact ⟨Fenced.lasting (queueOp_fenced hop hthread hrow), .inl rfl⟩
  | begun hbegin => exact ⟨SameOutcome.lasting (begin_quiet hbegin), .inl rfl⟩
  | failed he hp hphase => exact ⟨Lasting.refl st.row, .inl rfl⟩
  | reservationReleased hp hphase =>
    exact ⟨SameOutcome.lasting (release_quiet _ st.row), .inl rfl⟩
  | leaseReleased hp => exact ⟨SameOutcome.lasting (releaseLease_quiet s _ _ st.row), .inl rfl⟩
  | rejected hp hphase hreject =>
    exact ⟨Fenced.lasting (failRejectedUpload_ok hreject).2.fenced, .inl rfl⟩
  | @committed q now row hq hphase hfileable hcommit =>
    refine ⟨Fenced.lasting (commit_fenced inv hq hphase hcommit), ?_⟩
    cases hpublication : q.publication st.row with
    | none => exact .inl rfl
    | some p =>
      exact .inr ⟨p, rfl, commit_describes inv hq hphase hfileable hcommit hpublication⟩
  | @finishedLocal run now row hfinish =>
    refine ⟨Fenced.lasting (finishLocal_ok hfinish).fenced, ?_⟩
    cases hpublication : localPublication run st.row with
    | none => exact .inl rfl
    | some p => exact .inr ⟨p, rfl, finishLocal_describes hfinish hpublication⟩

end Publications

section Tracker

variable {lib : CoverageText} {run : Run}

/-- A verifying row that a write of the tracker left verifying: the same finding, behind the same
job. -/
def Waited (t : Tracker) (row' : Vulnerability) : Prop :=
  ∃ row ∈ t.rows, row.state = .VERIFYING ∧ rowKey row' = rowKey row ∧
    row'.verificationJobId = row.verificationJobId

theorem waited_of_lifecycle {t : Tracker} {row row' : Vulnerability} (hrow : row ∈ t.rows)
    (hkey : rowKey row' = rowKey row) (hsame : lifecycleOf row' = lifecycleOf row)
    (hverifying : row'.state = .VERIFYING) : Waited t row' :=
  ⟨row, hrow, (congrArg Lifecycle.state hsame).symm.trans hverifying, hkey,
    congrArg Lifecycle.verificationJobId hsame⟩

theorem reopens_verifying {row row' : Vulnerability} (h : Reopens row row')
    (hverifying : row'.state = .VERIFYING) : lifecycleOf row' = lifecycleOf row := by
  rcases h with hsame | ⟨_, clock, _, hreopened⟩
  · exact hsame
  · have hopen : row'.state = .OPEN :=
      (congrArg Lifecycle.state hreopened).trans (clock.set_state _)
    exact absurd (hverifying.symm.trans hopen) (by decide)

theorem observed_waited {t : Tracker} {observed : List Observed} {row' : Vulnerability}
    (hrow : row' ∈ (t.applyAll (observed.map (changeOf lib run))).rows)
    (hverifying : row'.state = .VERIFYING) : Waited t row' := by
  have hget := Table.get_self _ hrow
  rw [Table.get_applyAll, List.filter_map, List.foldl_map] at hget
  cases hbefore : t.get (rowKey row') with
  | some row =>
    obtain ⟨hmem, hkey⟩ := (t.get_eq_some_iff _ _).mp hbefore
    have hfold := foldl_result_some
      ((observed.filter ((fun c => decide (c.target = rowKey row')) ∘ changeOf lib run)).map
        (changeOf lib run)) row
    rw [List.foldl_map, List.foldl_map] at hfold
    rw [hbefore, hfold, Option.some.injEq] at hget
    have hreopens : Reopens row row' := by
      rw [← hget]
      exact Reopens.foldl (observe_reopens lib run) _ row
    exact waited_of_lifecycle hmem hkey.symm (reopens_verifying hreopens hverifying) hverifying
  | none =>
    rw [hbefore] at hget
    cases hmade : observed.filter
        ((fun c => decide (c.target = rowKey row')) ∘ changeOf lib run) with
    | nil =>
      rw [hmade] at hget
      simp at hget
    | cons o os =>
      have hfold := foldl_result_some (os.map (changeOf lib run))
        (create lib run o)
      rw [List.foldl_map, List.foldl_map] at hfold
      rw [hmade, List.foldl_cons] at hget
      have hresult : row' = os.foldl (observe lib run) (create lib run o) :=
        (Option.some.inj (hfold.symm.trans hget)).symm
      have hreopens : Reopens (create lib run o) row' := by
        rw [hresult]
        exact Reopens.foldl (observe_reopens lib run) os _
      have hopen : row'.state = .OPEN :=
        congrArg Lifecycle.state (reopens_verifying hreopens hverifying)
      exact absurd (hverifying.symm.trans hopen) (by decide)

theorem settle_leaves (row : Vulnerability) : (settle lib run row).state ≠ .VERIFYING := by
  unfold settle
  split
  · simp [sendBack]
  · simp [sendBack]
  · unfold closeVerifying
    rw [dropException_frame]
    simp
  · unfold closeVerifying
    rw [dropException_frame]
    simp

/-- What is still verifying after a fold was so before it, and is not behind the run's jobs. -/
theorem register_waited {t t' : Tracker} (hread : run.reported = [] → run.hasRunDir = true)
    (h : registerFindingsFromRun lib run t = some t') {row' : Vulnerability}
    (hrow : row' ∈ t'.rows) (hverifying : row'.state = .VERIFYING) :
    Waited t row' ∧ awaits run row' = false := by
  unfold registerFindingsFromRun at h
  have hactive : ¬ (run.reported = [] ∧ run.hasRunDir = false) := by
    rintro ⟨hnone, hmissing⟩
    rw [hread hnone] at hmissing
    exact absurd hmissing (by decide)
  rw [if_neg hactive] at h
  obtain ⟨observed, _, rfl⟩ := Option.map_eq_some_iff.mp h
  rw [Table.modify_rows] at hrow
  obtain ⟨row, hmem, rfl⟩ := List.mem_map.mp hrow
  by_cases hawaits : awaits run row = true
  · rw [settleAwaiting, if_pos hawaits] at hverifying
    exact absurd hverifying (settle_leaves row)
  · rw [settleAwaiting, if_neg hawaits] at hverifying ⊢
    exact ⟨observed_waited hmem hverifying, by simpa using hawaits⟩

theorem release_waited {t : Tracker} {tenantId jobId : String} {now : ℤ} {row' : Vulnerability}
    (hrow : row' ∈ (t.modify (releaseUnfinishedVerification tenantId jobId now)
      (release_key tenantId jobId now)).rows)
    (hverifying : row'.state = .VERIFYING) :
    Waited t row' ∧ ¬ (row'.tenantId = tenantId ∧ row'.verificationJobId = some jobId) := by
  rw [Table.modify_rows] at hrow
  obtain ⟨row, hmem, rfl⟩ := List.mem_map.mp hrow
  by_cases hheld : row.tenantId = tenantId ∧ row.state = .VERIFYING ∧
      row.verificationJobId = some jobId
  · rw [releaseUnfinishedVerification, if_pos hheld] at hverifying
    simp [sendBack] at hverifying
  · rw [releaseUnfinishedVerification, if_neg hheld] at hverifying ⊢
    exact ⟨waited_of_lifecycle hmem rfl rfl hverifying,
      fun hthis => hheld ⟨hthis.1, hverifying, hthis.2⟩⟩

theorem modifyAt_waited {t : Tracker} {k : String × String} {f : Vulnerability → Vulnerability}
    {hf : ∀ row, rowKey (f row) = rowKey row} {row' : Vulnerability}
    (hrow : row' ∈ (t.modifyAt k f hf).rows) (hverifying : row'.state = .VERIFYING) :
    Waited t row' ∨ ∃ row ∈ t.rows, rowKey row = k ∧ row' = f row := by
  unfold Table.modifyAt at hrow
  rw [Table.modify_rows] at hrow
  obtain ⟨row, hmem, rfl⟩ := List.mem_map.mp hrow
  by_cases hkey : rowKey row = k
  · rw [if_pos hkey]
    exact .inr ⟨row, hmem, hkey, rfl⟩
  · rw [if_neg hkey] at hverifying ⊢
    exact .inl (waited_of_lifecycle hmem rfl rfl hverifying)

end Tracker

section Invariant

variable {s : Settings} {lib : CoverageText} {w w' : World} {row : Vulnerability}

/-- A scan that has not ended, or that ended in one of these ways. -/
def Attended (w : World) (scan : Scan) : Prop :=
  JobStates.terminal scan.ingest.row.status = false ∨ scan.ingest.publications = [] ∨
    ∃ p ∈ scan.ingest.publications, p ∈ w.outbox ∨ p ∈ w.unfed

/-- The scan a finding waits on. -/
def Awaits (row : Vulnerability) (scan : Scan) : Prop :=
  row.verificationJobId = some (scanKey scan) ∧ scan.ingest.row.tenantId = row.tenantId

structure QueueInv (w : World) : Prop where
  fenced : ∀ scan ∈ w.jobs.rows, FenceInv scan.ingest
  described : ∀ scan ∈ w.jobs.rows, ∀ p ∈ scan.ingest.publications, Describes p scan.ingest.row
  held : ∀ row ∈ w.tracker.rows, row.state = .VERIFYING →
    ∃ scan ∈ w.jobs.rows, Awaits row scan ∧ Attended w scan

theorem awaits_congr {row row' : Vulnerability} {scan : Scan} (hkey : rowKey row' = rowKey row)
    (hjob : row'.verificationJobId = row.verificationJobId) (h : Awaits row scan) :
    Awaits row' scan :=
  ⟨hjob.trans h.1, h.2.trans (congrArg Prod.fst hkey).symm⟩

theorem fed_elsewhere {p : Publication} {run : Run} {scan : Scan} {row' : Vulnerability}
    (hscan : scan ∈ w.jobs.rows) (hdescribes : Describes p scan.ingest.row)
    (hstatus : p.jobStatus = .succeeded) (hverifying : row'.state = .VERIFYING)
    (hunsettled : awaits (w.publishedRun p run) row' = false) (h : Awaits row' scan) : False := by
  have hrun : scan.ingest.row.runId = some p.runId :=
    hdescribes.run (hdescribes.outcome.symm.trans hstatus)
  have hmem : scanKey scan ∈ w.jobsOfRun p.runId :=
    List.mem_map.mpr ⟨scan, List.mem_filter.mpr ⟨hscan, by simp [hrun]⟩, rfl⟩
  have htenant : row'.tenantId = p.tenantId := h.2.symm.trans hdescribes.tenant.symm
  have hawaits : awaits (w.publishedRun p run) row' = true := by
    simp [awaits, World.publishedRun, htenant, hverifying, h.1, hmem]
  rw [hawaits] at hunsettled
  exact absurd hunsettled (by decide)

theorem released_elsewhere {p : Publication} {scan : Scan} {row' : Vulnerability}
    (hdescribes : Describes p scan.ingest.row)
    (hother : ¬ (row'.tenantId = p.tenantId ∧ row'.verificationJobId = some p.jobId))
    (h : Awaits row' scan) : False :=
  hother ⟨h.2.symm.trans hdescribes.tenant.symm, by
    rw [h.1, hdescribes.job]
    rfl⟩

theorem attended_mono {scan : Scan} (houtbox : ∀ p, p ∈ w.outbox ∨ p ∈ w.unfed →
    p ∈ w'.outbox ∨ p ∈ w'.unfed) (h : Attended w scan) : Attended w' scan := by
  rcases h with hopen | hnone | ⟨p, hp, howed⟩
  · exact .inl hopen
  · exact .inr (.inl hnone)
  · exact .inr (.inr ⟨p, hp, houtbox p howed⟩)

theorem attended_erase {p : Publication} {scan : Scan} {t : Tracker}
    (hother : p ∉ scan.ingest.publications) (h : Attended w scan) :
    Attended { w with tracker := t, outbox := w.outbox.erase p } scan := by
  rcases h with hopen | hnone | ⟨q, hq, howed⟩
  · exact .inl hopen
  · exact .inr (.inl hnone)
  · refine .inr (.inr ⟨q, hq, ?_⟩)
    have hne : q ≠ p := fun hsame => hother (hsame ▸ hq)
    rcases howed with houtbox | hunfed
    · exact .inl ((List.mem_erase_of_ne hne).mpr houtbox)
    · exact .inr hunfed

theorem take_eq {e : ResultUploads.Event} {scan : Scan} {ingest : Ingest}
    (h : scan.ingest.step s e = some ingest) : scan.take s e = { scan with ingest := ingest } := by
  unfold Scan.take
  rw [h]

/-- A step of one job: the others stay, and what it inserts is owed. -/
theorem job_inv (inv : QueueInv w) {jobId : String} {e : ResultUploads.Event} {scan : Scan}
    {ingest : Ingest} (hget : w.jobs.get jobId = some scan)
    (hstep : scan.ingest.step s e = some ingest) :
    QueueInv { w with
      jobs := w.jobs.modifyAt jobId (Scan.take s e) (scan_take_key s e)
      outbox := insertedBy scan.ingest ingest ++ w.outbox } := by
  obtain ⟨hscan, hid⟩ := (w.jobs.get_eq_some_iff jobId scan).mp hget
  have hfenced := inv.fenced scan hscan
  obtain ⟨hlast, heffect⟩ := step_effect hfenced hstep
  have hmoved : ∀ other ∈ w.jobs.rows, scanKey other = jobId → other = scan := by
    intro other hother hkey
    exact eq_of_key_eq w.jobs.unique hother hscan (hkey.trans hid.symm)
  have hdescribed : ∀ p ∈ ingest.publications, Describes p ingest.row := by
    intro p hp
    rcases heffect with hsame | ⟨q, hcons, hq⟩
    · rw [hsame] at hp
      exact (inv.described scan hscan p hp).lasts hlast
    · rw [hcons] at hp
      rcases List.mem_cons.mp hp with rfl | hold
      · exact hq
      · exact (inv.described scan hscan p hold).lasts hlast
  refine ⟨fun x hx => ?_, fun x hx => ?_, fun row hrow hverifying => ?_⟩
  · obtain ⟨other, hother, rfl⟩ := List.mem_map.mp hx
    by_cases hkey : scanKey other = jobId
    · rw [if_pos hkey, hmoved other hother hkey, take_eq hstep]
      exact step_inv hfenced hstep
    · rw [if_neg hkey]
      exact inv.fenced other hother
  · obtain ⟨other, hother, rfl⟩ := List.mem_map.mp hx
    by_cases hkey : scanKey other = jobId
    · rw [if_pos hkey, hmoved other hother hkey, take_eq hstep]
      exact hdescribed
    · rw [if_neg hkey]
      exact inv.described other hother
  · obtain ⟨held, hheld, hawaits, hattended⟩ := inv.held row hrow hverifying
    refine ⟨if scanKey held = jobId then held.take s e else held,
      List.mem_map.mpr ⟨held, hheld, rfl⟩, ?_⟩
    by_cases hkey : scanKey held = jobId
    · have hsame := hmoved held hheld hkey
      rw [if_pos hkey, hsame, take_eq hstep]
      rw [hsame] at hawaits hattended
      refine ⟨⟨hawaits.1.trans (congrArg some hlast.job.symm), hlast.tenant.trans hawaits.2⟩, ?_⟩
      rcases heffect with hpublications | ⟨p, hcons, hp⟩
      · rcases hattended with hopen | hnone | ⟨q, hq, howed⟩
        · refine .inr (.inl ?_)
          have hnone : scan.ingest.publications = [] := by
            refine List.eq_nil_iff_forall_not_mem.mpr fun q hq => ?_
            have hended := (inv.described scan hscan q hq).ended
            rw [hopen] at hended
            exact absurd hended (by decide)
          exact hpublications.trans hnone
        · exact .inr (.inl (hpublications.trans hnone))
        · refine .inr (.inr ⟨q, ?_, ?_⟩)
          · change q ∈ ingest.publications
            rw [hpublications]
            exact hq
          · rcases howed with houtbox | hunfed
            · exact .inl (List.mem_append_right _ houtbox)
            · exact .inr hunfed
      · refine .inr (.inr ⟨p, ?_, .inl (List.mem_append_left _ ?_)⟩)
        · change p ∈ ingest.publications
          rw [hcons]
          exact List.mem_cons_self
        · simp [insertedBy, hcons]
    · rw [if_neg hkey]
      refine ⟨hawaits, attended_mono (fun q howed => ?_) hattended⟩
      rcases howed with houtbox | hunfed
      · exact .inl (List.mem_append_right _ houtbox)
      · exact .inr hunfed

theorem submitted_inv (inv : QueueInv w) {row : Job} {key : Option IntentKey}
    {verificationOf : Option String} (h : w.jobs.get row.jobId = none) (hnew : row.attempts = 0) :
    QueueInv { w with jobs := w.jobs.append ⟨Ingest.start row, key, verificationOf⟩ h } where
  fenced := by
    intro scan hscan
    rcases List.mem_append.mp hscan with hold | hadded
    · exact inv.fenced scan hold
    · rw [List.mem_singleton.mp hadded]
      exact start_inv hnew
  described := by
    intro scan hscan p hp
    rcases List.mem_append.mp hscan with hold | hadded
    · exact inv.described scan hold p hp
    · rw [List.mem_singleton.mp hadded] at hp
      simp [Ingest.start] at hp
  held row hrow hverifying := by
    obtain ⟨scan, hscan, hawaits, hattended⟩ := inv.held row hrow hverifying
    exact ⟨scan, List.mem_append_left _ hscan, hawaits, hattended⟩

theorem tracker_inv (inv : QueueInv w) {t : Tracker}
    (h : ∀ row ∈ t.rows, row.state = .VERIFYING → Waited w.tracker row ∨
      ∃ scan ∈ w.jobs.rows, Awaits row scan ∧ Attended w scan) :
    QueueInv { w with tracker := t } where
  fenced := inv.fenced
  described := inv.described
  held row hrow hverifying := by
    rcases h row hrow hverifying with ⟨before, hbefore, hwas, hkey, hjob⟩ | hheld
    · obtain ⟨scan, hscan, hawaits, hattended⟩ := inv.held before hbefore hwas
      exact ⟨scan, hscan, awaits_congr hkey hjob hawaits, hattended⟩
    · exact hheld

/-- A projection takes every finding behind its job out of `VERIFYING`, and no other with it. -/
theorem projected_inv (inv : QueueInv w) {p : Publication} {t : Tracker}
    (h : ∀ row ∈ t.rows, row.state = .VERIFYING → Waited w.tracker row ∧
      ∀ scan ∈ w.jobs.rows, p ∈ scan.ingest.publications → ¬ Awaits row scan) :
    QueueInv { w with tracker := t, outbox := w.outbox.erase p } where
  fenced := inv.fenced
  described := inv.described
  held row hrow hverifying := by
    obtain ⟨⟨before, hbefore, hwas, hkey, hjob⟩, helsewhere⟩ := h row hrow hverifying
    obtain ⟨scan, hscan, hawaits, hattended⟩ := inv.held before hbefore hwas
    have hstill := awaits_congr hkey hjob hawaits
    exact ⟨scan, hscan, hstill,
      attended_erase (fun hp => helsewhere scan hscan hp hstill) hattended⟩

theorem unfed_inv (inv : QueueInv w) (p : Publication) :
    QueueInv { w with outbox := w.outbox.erase p, unfed := p :: w.unfed } where
  fenced := inv.fenced
  described := inv.described
  held row hrow hverifying := by
    obtain ⟨scan, hscan, hawaits, hattended⟩ := inv.held row hrow hverifying
    refine ⟨scan, hscan, hawaits, attended_mono (fun q howed => ?_) hattended⟩
    by_cases hsame : q = p
    · exact .inr (by rw [hsame]; exact List.mem_cons_self)
    · rcases howed with houtbox | hunfed
      · exact .inl ((List.mem_erase_of_ne hsame).mpr houtbox)
      · exact .inr (List.mem_cons_of_mem p hunfed)

theorem fed_step {p : Publication} {run : Run} (inv : QueueInv w)
    (h : w.step s lib (.fed p run) = some w') :
    ∃ t, w' = { w with tracker := t, outbox := w.outbox.erase p } ∧
      ∀ row ∈ t.rows, row.state = .VERIFYING → Waited w.tracker row ∧
        ∀ scan ∈ w.jobs.rows, p ∈ scan.ingest.publications → ¬ Awaits row scan := by
  simp only [World.step] at h
  split at h
  case isFalse => simp at h
  case isTrue hp =>
    obtain ⟨t, hregister, rfl⟩ := Option.map_eq_some_iff.mp h
    refine ⟨t, rfl, fun row hrow hverifying => ?_⟩
    have hread : (w.publishedRun p run).reported = [] →
        (w.publishedRun p run).hasRunDir = true := hp.2.2
    obtain ⟨hwaited, hunsettled⟩ := register_waited hread hregister hrow hverifying
    exact ⟨hwaited, fun scan hscan hmem hawaits => fed_elsewhere hscan
      (inv.described scan hscan p hmem) hp.2.1 hverifying hunsettled hawaits⟩

theorem released_step {p : Publication} {now : ℤ} (inv : QueueInv w)
    (h : w.step s lib (.released p now) = some w') :
    ∃ t, w' = { w with tracker := t, outbox := w.outbox.erase p } ∧
      ∀ row ∈ t.rows, row.state = .VERIFYING → Waited w.tracker row ∧
        ∀ scan ∈ w.jobs.rows, p ∈ scan.ingest.publications → ¬ Awaits row scan := by
  simp only [World.step] at h
  split at h
  case isFalse => simp at h
  case isTrue =>
    rw [← Option.some.inj h]
    refine ⟨_, rfl, fun row hrow hverifying => ?_⟩
    obtain ⟨hwaited, hother⟩ := release_waited hrow hverifying
    exact ⟨hwaited, fun scan hscan hmem hawaits =>
      released_elsewhere (inv.described scan hscan p hmem) hother hawaits⟩

theorem dispatched_inv (inv : QueueInv w) {k : String × String} {seen row : Vulnerability}
    {hostsThen hostsNow : List String} {jobId : String} {actor : Option String} {now : ℤ}
    {scan : Scan} (hget : w.jobs.get jobId = some scan) (hrow : w.tracker.get k = some row)
    (htenant : scan.ingest.row.tenantId = row.tenantId) {receipted : Vulnerability}
    (hreceipt : dispatchVerification lib seen hostsThen hostsNow scan.verification actor now row =
      .ok receipted) {hkeep} :
    QueueInv { w with
      tracker := w.tracker.modifyAt k (written
        (dispatchVerification lib seen hostsThen hostsNow scan.verification actor now))
          hkeep } := by
  obtain ⟨hscan, _⟩ := (w.jobs.get_eq_some_iff jobId scan).mp hget
  obtain ⟨hmem, hkey⟩ := (w.tracker.get_eq_some_iff k row).mp hrow
  obtain ⟨hawaitable, _, hwritten⟩ := dispatchVerification_ok hreceipt
  have hopen : JobStates.terminal scan.ingest.row.status = false := by
    have hstates : awaitable scan.ingest.row.status = true := hawaitable
    revert hstates
    cases scan.ingest.row.status <;> decide
  refine tracker_inv inv fun row' hrow' hverifying => ?_
  rcases modifyAt_waited hrow' hverifying with hwaited | ⟨before, hbefore, hat, rfl⟩
  · exact .inl hwaited
  · right
    have hsame : before = row := eq_of_key_eq w.tracker.unique hbefore hmem (hat.trans hkey.symm)
    refine ⟨scan, hscan, ?_, .inl hopen⟩
    rw [hsame, written, hreceipt, hwritten]
    exact ⟨rfl, htenant⟩

theorem moved_inv (inv : QueueInv w) {k : String × String} {new : State} {actor : Option String}
    {now : ℤ} (hnew : new ≠ .VERIFYING) {hkeep} :
    QueueInv { w with
      tracker := w.tracker.modifyAt k (written (transition new actor now)) hkeep } := by
  refine tracker_inv inv fun row' hrow' hverifying => .inl ?_
  rcases modifyAt_waited hrow' hverifying with hwaited | ⟨before, hbefore, _, rfl⟩
  · exact hwaited
  · unfold written at hverifying ⊢
    cases htransition : transition new actor now before with
    | error refusal =>
      simp only [htransition] at hverifying
      exact waited_of_lifecycle hbefore rfl rfl hverifying
    | ok moved =>
      simp only [htransition] at hverifying
      rw [transition_state htransition] at hverifying
      exact absurd hverifying hnew

theorem world_inv {e : Event} (inv : QueueInv w) (h : w.step s lib e = some w') : QueueInv w' := by
  cases e with
  | submitted row key verificationOf =>
    simp only [World.step] at h
    split at h
    case isFalse => simp at h
    case isTrue hfree =>
      split at h
      case isFalse => simp at h
      case isTrue hnew =>
        rw [← Option.some.inj h]
        exact submitted_inv inv hfree hnew.2
  | job jobId e =>
    simp only [World.step] at h
    split at h
    case h_1 => simp at h
    case h_2 scan hget =>
      obtain ⟨ingest, hstep, rfl⟩ := Option.map_eq_some_iff.mp h
      exact job_inv inv hget hstep
  | dispatched k seen hostsThen hostsNow jobId actor now =>
    simp only [World.step] at h
    split at h
    case h_2 => simp at h
    case h_1 scan row hget hrow =>
      split at h
      case isFalse => simp at h
      case isTrue htenant =>
        split at h
        case h_2 => simp at h
        case h_1 receipted hreceipt =>
          rw [← Option.some.inj h]
          exact dispatched_inv inv hget hrow htenant hreceipt
  | moved k new actor now =>
    simp only [World.step] at h
    split at h
    case isTrue => simp at h
    case isFalse hnew =>
      rw [← Option.some.inj h]
      exact moved_inv inv hnew
  | fed p run =>
    obtain ⟨t, rfl, hleft⟩ := fed_step inv h
    exact projected_inv inv hleft
  | released p now =>
    obtain ⟨t, rfl, hleft⟩ := released_step inv h
    exact projected_inv inv hleft
  | unfed p =>
    simp only [World.step] at h
    split at h
    case isFalse => simp at h
    case isTrue =>
      rw [← Option.some.inj h]
      exact unfed_inv inv p

end Invariant

section Attendance

variable {s : Settings} {lib : CoverageText} {w w' : World}

structure Initial (w : World) : Prop where
  jobs : w.jobs.rows = []
  outbox : w.outbox = []
  unverified : ∀ row ∈ w.tracker.rows, row.state ≠ .VERIFYING

theorem initial_inv (h : Initial w) : QueueInv w where
  fenced := by simp [h.jobs]
  described := by simp [h.jobs]
  held row hrow hverifying := absurd hverifying (h.unverified row hrow)

def Event.projects : Event → Option Publication
  | .fed p _ => some p
  | .released p _ => some p
  | _ => none

/-- However its projection goes through, no finding stays verifying behind the scan. -/
def Releases (s : Settings) (lib : CoverageText) (w : World) (p : Publication) (scan : Scan) :
    Prop :=
  ∀ e w', e.projects = some p → w.step s lib e = some w' →
    ∀ row ∈ w'.tracker.rows, Awaits row scan → row.state ≠ .VERIFYING

theorem releases (inv : QueueInv w) {p : Publication} {scan : Scan} (hscan : scan ∈ w.jobs.rows)
    (hp : p ∈ scan.ingest.publications) : Releases s lib w p scan := by
  intro e w' he h row hrow hawaits hverifying
  cases e with
  | fed q run =>
    obtain rfl := Option.some.inj he
    obtain ⟨t, rfl, hleft⟩ := fed_step inv h
    exact (hleft row hrow hverifying).2 scan hscan hp hawaits
  | released q now =>
    obtain rfl := Option.some.inj he
    obtain ⟨t, rfl, hleft⟩ := released_step inv h
    exact (hleft row hrow hverifying).2 scan hscan hp hawaits
  | submitted | job | dispatched | moved | unfed => simp [Event.projects] at he

/-- The terminal writes that carry no publication: a cancellation, a write-off or a failure of the
queue, an upload without an archive or with a refused one, a local scan that left no run. -/
def carriesNone : ResultUploads.Event → Bool
  | .queue _ => true
  | .committed p _ => !p.upload.hasArchive
  | .rejected _ _ _ => true
  | .finishedLocal run _ => !(run.hasDirectory && truthy run.runId)
  | _ => false

/-- Every other terminal write inserts the publication of its outcome. -/
theorem ends_published {st st' : Ingest} {e : ResultUploads.Event} (h : st.step s e = some st')
    (hopen : JobStates.terminal st.row.status = false)
    (hended : JobStates.terminal st'.row.status = true) (hcarries : carriesNone e = false) :
    ∃ p, st'.publications = p :: st.publications := by
  have hstill : st'.row.status ≠ st.row.status := by
    intro hsame
    rw [hsame, hopen] at hended
    exact absurd hended (by decide)
  cases step_cases h with
  | queue | rejected => simp [carriesNone] at hcarries
  | begun hbegin => exact absurd (begin_quiet hbegin).status hstill
  | failed => exact absurd rfl hstill
  | reservationReleased => exact absurd (release_quiet _ st.row).status hstill
  | leaseReleased => exact absurd (releaseLease_quiet s _ _ st.row).status hstill
  | @committed q now row hq hphase hfileable hcommit =>
    have harchive : q.upload.hasArchive = true := by simpa [carriesNone] using hcarries
    obtain ⟨p, hp⟩ := Option.isSome_iff_exists.mp
      ((publication_isSome q st.row).trans harchive)
    exact ⟨p, by simp [Ingest.record, hp]⟩
  | @finishedLocal run now row hfinish =>
    have hdirectory : run.hasDirectory = true ∧ truthy run.runId = true := by
      simpa [carriesNone] using hcarries
    obtain ⟨p, hp⟩ : ∃ p, localPublication run st.row = some p := ⟨_, if_pos hdirectory⟩
    exact ⟨p, by simp [Ingest.record, hp]⟩

theorem job_step {scan : Scan} {e : ResultUploads.Event} {ingest : Ingest}
    (hscan : scan ∈ w.jobs.rows) (hstep : scan.ingest.step s e = some ingest) :
    w.step s lib (.job (scanKey scan) e) = some { w with
      jobs := w.jobs.modifyAt (scanKey scan) (Scan.take s e) (scan_take_key s e)
      outbox := insertedBy scan.ingest ingest ++ w.outbox } := by
  simp only [World.step, w.jobs.get_self hscan, hstep, Option.map_some]

/-- In every run of the queue and the tracker, a verifying finding is behind a job that has not
ended, or whose publication is owed and will move it, or was closed without being fed, or that
ended without one; and only the writes that carry no publication end a job without one. -/
theorem verifying_attended {start : World} {es : List Event} (hinitial : Initial start)
    (h : Runs (ofStep (World.step s lib)) start es w) :
    (∀ row ∈ w.tracker.rows, row.state = .VERIFYING → ∃ scan ∈ w.jobs.rows, Awaits row scan ∧
      (JobStates.terminal scan.ingest.row.status = false ∨
        (∃ p ∈ scan.ingest.publications, p ∈ w.outbox ∧ Releases s lib w p scan) ∨
        (∃ p ∈ scan.ingest.publications, p ∈ w.unfed) ∨ scan.ingest.publications = [])) ∧
    (∀ scan ∈ w.jobs.rows, ∀ e ingest, scan.ingest.step s e = some ingest →
      JobStates.terminal scan.ingest.row.status = false →
      JobStates.terminal ingest.row.status = true → carriesNone e = false →
      ∃ p w', w.step s lib (.job (scanKey scan) e) = some w' ∧ p ∈ w'.outbox ∧
        p.jobId = scanKey scan) := by
  have inv : QueueInv w := h.invariant QueueInv
    (fun _ _ _ hinv hstep => world_inv hinv hstep) (initial_inv hinitial)
  refine ⟨fun row hrow hverifying => ?_, fun scan hscan e ingest hstep hopen hended hcarries => ?_⟩
  · obtain ⟨scan, hscan, hawaits, hattended⟩ := inv.held row hrow hverifying
    refine ⟨scan, hscan, hawaits, ?_⟩
    rcases hattended with hopen | hnone | ⟨p, hp, houtbox | hunfed⟩
    · exact .inl hopen
    · exact .inr (.inr (.inr hnone))
    · exact .inr (.inl ⟨p, hp, houtbox, releases inv hscan hp⟩)
    · exact .inr (.inr (.inl ⟨p, hp, hunfed⟩))
  · obtain ⟨p, hp⟩ := ends_published hstep hopen hended hcarries
    obtain ⟨hlast, heffect⟩ := step_effect (inv.fenced scan hscan) hstep
    have hdescribes : Describes p ingest.row := by
      rcases heffect with hsame | ⟨q, hq, hdescribes⟩
      · rw [hp] at hsame
        simp at hsame
      · rw [hp, List.cons.injEq] at hq
        rw [hq.1]
        exact hdescribes
    refine ⟨p, _, job_step hscan hstep, ?_, hdescribes.job.trans hlast.job⟩
    simp [insertedBy, hp]

end Attendance

section Stranded

def fixing : Vulnerability :=
  { VerificationHonesty.waiting with state := .FIXING, verificationJobId := none }

def hosts : List String := ["10.0.0.5"]

def tracked : World where
  jobs := Table.empty scanKey
  outbox := []
  unfed := []
  tracker := ⟨[fixing], by simp⟩

def intent : Option IntentKey := (dispatchIntent asciiLibrary hosts fixing).toOption

def dispatch : List Event :=
  [.submitted submitted intent (some fixing.vulnId),
    .dispatched (rowKey fixing) fixing hosts hosts submitted.jobId none 1]

def cancelledWhileQueued : List Event :=
  dispatch ++ [.job submitted.jobId (.queue (.cancel "alice" 2))]

def failedUpload : Upload := { named with exitCode := 1 }

def failedPending : Pending :=
  ⟨failedUpload, 1, { ticketOn "token-1" 1 with status := .failed, ends := rfl }, .ingesting⟩

def failedWithArchive : List Event :=
  dispatch ++ [.job submitted.jobId (.queue (.claim sensor 2)),
    .job submitted.jobId (.begun failedUpload 1 "token-1" 3),
    .job submitted.jobId (.committed failedPending 4)]

theorem tracked_initial : Initial tracked where
  jobs := rfl
  outbox := rfl
  unverified row hrow := by
    rw [List.mem_singleton.mp hrow]
    decide

theorem world_runs {s : Settings} {lib : CoverageText} {w w' : World} {es : List Event}
    (h : es.foldlM (World.step s lib) w = some w') : Runs (ofStep (World.step s lib)) w es w' :=
  (Runs.of_foldlM (World.step s lib) (fun _ _ => True) (fun _ _ _ => trivial) h).of_guarded

structure Glance where
  findings : List (State × Option String)
  jobs : List (String × JobStates.Status × ℕ)
  owed : ℕ
deriving DecidableEq

def glance (w : World) : Glance where
  findings := w.tracker.rows.map fun row => (row.state, row.verificationJobId)
  jobs := w.jobs.rows.map fun scan =>
    (scanKey scan, scan.ingest.row.status, scan.ingest.publications.length)
  owed := w.outbox.length

/-- A verification job cancelled before any agent took it leaves its finding verifying. -/
theorem queued_cancellation_strands :
    Initial tracked ∧
    ∃ w, Runs (ofStep (World.step defaults asciiLibrary)) tracked cancelledWhileQueued w ∧
      glance w = ⟨[(.VERIFYING, some "job-1")], [("job-1", .cancelled, 0)], 0⟩ := by
  have hrun : (cancelledWhileQueued.foldlM (World.step defaults asciiLibrary) tracked).map glance =
      some ⟨[(.VERIFYING, some "job-1")], [("job-1", .cancelled, 0)], 0⟩ := by
    decide +kernel
  obtain ⟨w, hw, hglance⟩ := Option.map_eq_some_iff.mp hrun
  exact ⟨tracked_initial, w, world_runs hw, hglance⟩

theorem failed_verification_owed :
    ∃ w, Runs (ofStep (World.step defaults asciiLibrary)) tracked failedWithArchive w ∧
      glance w = ⟨[(.VERIFYING, some "job-1")], [("job-1", .failed, 1)], 1⟩ ∧
      ∀ row ∈ w.tracker.rows, row.state = .VERIFYING →
        ∃ scan ∈ w.jobs.rows, Awaits row scan := by
  have hrun : (failedWithArchive.foldlM (World.step defaults asciiLibrary) tracked).map glance =
      some ⟨[(.VERIFYING, some "job-1")], [("job-1", .failed, 1)], 1⟩ := by
    decide +kernel
  obtain ⟨w, hw, hglance⟩ := Option.map_eq_some_iff.mp hrun
  refine ⟨w, world_runs hw, hglance, fun row hrow hverifying => ?_⟩
  obtain ⟨scan, hscan, hawaits, _⟩ :=
    (verifying_attended tracked_initial (world_runs hw)).1 row hrow hverifying
  exact ⟨scan, hscan, hawaits⟩

end Stranded

end Shapoclyack.VerificationQueue
