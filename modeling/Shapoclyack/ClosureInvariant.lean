import Shapoclyack.TrackerTransactions

set_option autoImplicit false

namespace Shapoclyack.ClosureInvariant

open ReportEntries VerificationArtifacts VulnStates Findings FindingFold FoldEffects Lifecycle
open SoftwareFindings LifecycleMachine FindingEvents TrackerTransactions Library

variable {lib : CoverageText}

theorem closedInv_created {row : Vulnerability} (h : Created lib row) :
    ClosedInv (lifecycleOf row) := by
  have hopen : State.OPEN ≠ .CLOSED := by decide
  cases h with
  | byScan run o => exact ClosedInv.of_fresh hopen rfl rfl rfl
  | byInventory ctx m => exact ClosedInv.of_fresh hopen rfl rfl rfl

abbrev serialStep (lib : CoverageText) : Vulnerability → Op → Vulnerability → Prop :=
  ofStep fun row op => Op.run lib op row

theorem closedInv_step {row row' : Vulnerability} {op : Op} (inv : ClosedInv (lifecycleOf row))
    (h : serialStep lib row op row') : ClosedInv (lifecycleOf row') := by
  obtain ⟨m, ⟨hlegal, hlife⟩, _⟩ := Op.run_move h
  rw [hlife]
  exact inv.apply hlegal

theorem serialStep_edge {row row' : Vulnerability} {op : Op} (h : serialStep lib row op row') :
    row'.state = row.state ∨ canTransition row.state row'.state = true := by
  obtain ⟨m, ⟨hlegal, hlife⟩, _⟩ := Op.run_move h
  have hstate : row'.state = (m.apply (lifecycleOf row)).state := congrArg Lifecycle.state hlife
  rw [hstate]
  exact Move.edge hlegal

/-- A row whose closure the machine vouches for under a given reason. -/
def Vouched (reason : ClosureReason) (row : Vulnerability) : Prop :=
  row.machineVerified = true ∧ row.closureReason = some reason

/-- A step into a vouched closure is the transaction that showed it. -/
theorem warranted_of_entry {row row' : Vulnerability} {op : Op} {reason : ClosureReason}
    (inv : ClosedInv (lifecycleOf row)) (h : serialStep lib row op row')
    (hbefore : ¬ Vouched reason row) (hafter : Vouched reason row') :
    WarrantedBy lib row reason op := by
  obtain ⟨m, ⟨hlegal, hlife⟩, hwarranted⟩ := Op.run_move h
  have hverified : (m.apply (lifecycleOf row)).machineVerified = true := by
    rw [← hlife]
    exact hafter.1
  have hreason : (m.apply (lifecycleOf row)).closureReason = some reason := by
    rw [← hlife]
    exact hafter.2
  by_cases hword : row.machineVerified = true
  · -- a row already vouched for keeps its reason until the reopening drops both
    have hclosed : (lifecycleOf row).state = .CLOSED := (inv.verified hword).1
    have hkept : (m.apply (lifecycleOf row)).closureReason = row.closureReason := by
      cases m with
      | advance new job => exact absurd hclosed hlegal.2.1
      | close r v now acceptance => exact absurd hclosed hlegal.1
      | reopen clock => simp [Move.apply] at hverified
      | _ => rfl
    exact absurd ⟨hword, hkept.symm.trans hreason⟩ hbefore
  · obtain ⟨r, now, acceptance, rfl⟩ := Move.verifies (Bool.not_eq_true _ ▸ hword) hverified
    have hr : r = reason := Option.some.inj hreason
    subst hr
    rcases hwarranted with hunverified | ⟨r', v, now', acceptance', hm, hby⟩
    · exact absurd hunverified.1 (by decide)
    · obtain ⟨rfl, _⟩ := Move.close.inj hm
      exact hby

/-- A vouched closure that no later transaction has touched since it was shown. -/
def ShownBy (lib : CoverageText) (start : Vulnerability) (ops : List Op) (row : Vulnerability) :
    Prop :=
  ∃ reason before op rest mid next,
    ops = before ++ op :: rest ∧ Runs (serialStep lib) start before mid ∧
    serialStep lib mid op next ∧ WarrantedBy lib mid reason op ∧
    Runs (fun a i b => serialStep lib a i b ∧ Vouched reason b) next rest row ∧
    Vouched reason row

theorem shownBy_of_verified {start row : Vulnerability} {ops : List Op}
    (hcreated : Created lib start) (h : Runs (serialStep lib) start ops row)
    (hverified : row.machineVerified = true) : ShownBy lib start ops row := by
  have inv : ClosedInv (lifecycleOf row) :=
    h.invariant (fun r => ClosedInv (lifecycleOf r))
      (fun r op r' hr hstep => closedInv_step hr hstep) (closedInv_created hcreated)
  obtain ⟨_, reason, hreason, _⟩ := inv.verified hverified
  have hvouched : Vouched reason row := ⟨hverified, hreason⟩
  rcases h.last_entry (Vouched reason) hvouched with ⟨hstart, _⟩ |
    ⟨before, op, rest, mid, next, hops, hbefore, hmid, hstep, hnext, hrest⟩
  · -- a finding comes into the tracker open and unverified
    have hunverified : start.machineVerified = false := by
      cases hcreated <;> rfl
    exact absurd (hunverified.symm.trans hstart.1) (by decide)
  · have hmidInv : ClosedInv (lifecycleOf mid) :=
      hbefore.invariant (fun r => ClosedInv (lifecycleOf r))
        (fun r op r' hr hstep => closedInv_step hr hstep) (closedInv_created hcreated)
    exact ⟨reason, before, op, rest, mid, next, hops, hbefore, hstep,
      warranted_of_entry hmidInv hstep hmid hnext, hrest, hvouched⟩

/-- One finding's history under READ COMMITTED in which no write lands on a newer version. -/
abbrev freshStep (lib : CoverageText) :
    Shared Vulnerability → Access Vulnerability Op → Shared Vulnerability → Prop :=
  guarded (rowStep lib) Access.fresh

theorem freshStep_edge {s s' : Shared Vulnerability} {a : Access Vulnerability Op}
    (h : freshStep lib s a s') :
    s'.row.state = s.row.state ∨ canTransition s.row.state s'.row.state = true := by
  have hserial := Shared.step_serial (Op.run lib) overlay overlay_self h
  cases a with
  | read => exact .inl (by rw [hserial.eq_of_nil])
  | write seen op => exact serialStep_edge hserial.of_one
  | locked op => exact serialStep_edge hserial.of_one

/-- While every write lands on the version its transaction read, states move along the lifecycle,
closed rows say when and why, and the machine's word stands only for what a fold showed. -/
theorem history_consistent {start : Vulnerability} {as : List (Access Vulnerability Op)}
    {s : Shared Vulnerability} (hcreated : Created lib start)
    (h : Runs (freshStep lib) ⟨start, []⟩ as s) :
    (∀ a s', freshStep lib s a s' →
      s'.row.state = s.row.state ∨ canTransition s.row.state s'.row.state = true) ∧
    ((s.row.state = .CLOSED ↔ s.row.closedAt.isSome = true) ∧
      (s.row.state = .CLOSED ↔ s.row.closureReason.isSome = true)) ∧
    (s.row.machineVerified = true →
      s.row.state = .CLOSED ∧ ShownBy lib start (Access.ops as) s.row) := by
  have hserial : Runs (serialStep lib) start (Access.ops as) s.row :=
    Shared.serial (Op.run lib) overlay overlay_self h
  have inv : ClosedInv (lifecycleOf s.row) :=
    hserial.invariant (fun r => ClosedInv (lifecycleOf r))
      (fun r op r' hr hstep => closedInv_step hr hstep) (closedInv_created hcreated)
  exact ⟨fun a s' hstep => freshStep_edge hstep, ⟨inv.closedAt, inv.reason⟩,
    fun hverified => ⟨(inv.verified hverified).1, shownBy_of_verified hcreated hserial hverified⟩⟩

section Race

def openssl : Match where
  cveId := some "CVE-2026-0002"
  status := .vulnerable
  severity := some "high"
  fixedVersion := some "3.0.2-0ubuntu1.15"
  unknownReason := none
  snapshotId := some "snap-1"
  assessmentScope := none
  scored := ⟨false, none, none, none⟩

def inventoryAt (observedAt : ℤ) (matches_ : List Match) : DeviceContext where
  tenantId := "acme"
  device := ⟨"dev-1", some "linux", some "ubuntu", some "snap-1", []⟩
  asset := ⟨"asset-1", none, none, none⟩
  observedAt := observedAt
  assessmentPossible := true
  matches_ := matches_
  minSeverity := none
  policies := []
  now := observedAt
  freshId cve := "vln_" ++ cve

def behind : Vulnerability :=
  createSoftware asciiLibrary.toTrackerText (inventoryAt 0 [openssl]) openssl

def patchedFold : Op := .inventoryFold (inventoryAt 10 [])

def acknowledge : Op := .single (.moved .ACKNOWLEDGED (some "alice") 11) rfl

def patchedRow : Vulnerability := (patchedFold.run asciiLibrary behind).getD behind

def acknowledgedRow : Vulnerability := (acknowledge.run asciiLibrary behind).getD behind

theorem patchedFold_run : patchedFold.run asciiLibrary behind = some patchedRow := rfl

theorem acknowledge_run : acknowledge.run asciiLibrary behind = some acknowledgedRow := by
  unfold acknowledgedRow
  cases h : acknowledge.run asciiLibrary behind with
  | none => exact absurd (congrArg Option.isSome h) (by decide +kernel)
  | some row => rfl

/-- An acknowledgement decided on the version before the inventory closed the finding leaves it
open, closed at an instant, and vouched for. -/
theorem stale_acknowledgement :
    ∃ s, Created asciiLibrary behind ∧
      Runs (rowStep asciiLibrary) ⟨behind, []⟩
        [.read, .read, .write behind patchedFold, .write behind acknowledge] s ∧
      patchedRow.state = .CLOSED ∧
      canTransition .CLOSED s.row.state = false ∧ s.row.state = .ACKNOWLEDGED ∧
      s.row.closedAt.isSome = true ∧ s.row.closureReason.isSome = true ∧
      s.row.machineVerified = true := by
  have hrun : Runs (rowStep asciiLibrary) ⟨behind, []⟩
      [.read, .read, .write behind patchedFold, .write behind acknowledge]
      ⟨overlay (overlay behind behind patchedRow) behind acknowledgedRow, [behind, behind]⟩ :=
    .next (.read _) (.next (.read _) (.next (.write (by simp) patchedFold_run)
      (.next (.write (by simp) acknowledge_run) (.refl _))))
  rw [overlay_self] at hrun
  refine ⟨_, .byInventory (inventoryAt 0 [openssl]) openssl, hrun, ?_⟩
  decide +kernel

theorem patched_history_consistent :
    Runs (freshStep asciiLibrary) ⟨behind, []⟩ [.read, .write behind patchedFold]
        ⟨patchedRow, [behind]⟩ ∧
      ShownBy asciiLibrary behind [patchedFold] patchedRow := by
  have hrun : Runs (freshStep asciiLibrary) ⟨behind, []⟩ [.read, .write behind patchedFold]
      ⟨overlay behind behind patchedRow, [behind]⟩ :=
    .next ⟨trivial, .read _⟩ (.next ⟨rfl, .write (by simp) patchedFold_run⟩ (.refl _))
  rw [overlay_self] at hrun
  have hconsistent :=
    history_consistent (.byInventory (inventoryAt 0 [openssl]) openssl) hrun
  exact ⟨hrun, (hconsistent.2.2 (by decide +kernel)).2⟩

end Race

end Shapoclyack.ClosureInvariant
