import Shapoclyack.Acceptances

set_option autoImplicit false

namespace Shapoclyack.FourEyes

open ReportEntries VerificationArtifacts VulnStates Findings FindingFold FoldEffects Lifecycle
open SoftwareFindings LifecycleMachine FindingEvents TrackerTransactions ClosureInvariant
open Acceptances Library

variable {lib : CoverageText} {row row' start : Vulnerability} {op : Op} {ops : List Op}

structure Request where
  requestedBy : Option String
  requestedAt : Option ℤ
  requestedUntil : Option ℤ
  requestedReason : Option String

def pendingRequest (a : Acceptance) : Option Request :=
  if a.state = .requested then
    some ⟨a.requestedBy, a.requestedAt, a.requestedUntil, a.requestedReason⟩
  else none

structure Grant where
  until_ : Option ℤ
  grantedBy : Option String
  reason : Option String
  approvedAt : Option ℤ
  approvedRequestedBy : Option String

def grantOf (a : Acceptance) : Grant :=
  ⟨a.until_, a.grantedBy, a.reason, a.approvedAt, a.approvedRequestedBy⟩

/-- What may rewrite the window in force: an approval of a pending request, the revocation of a
granted window, or a transaction that closes the finding. -/
def Rewrites (row row' : Vulnerability) : Op → Prop
  | .single (.exceptionApproved _ _ _) _ => row.exception.state = .requested
  | .single (.exceptionRevoked _ _ _) _ => row.exception.until_ ≠ none
  | .single (.exceptionRequested _ _ _ _) _ => False
  | .single (.exceptionRejected _ _ _) _ => False
  | .single (.exceptionWithdrawn _ _) _ => False
  | .single (.exceptionSwept _) _ => False
  | _ => row.state ≠ .CLOSED ∧ row'.state = .CLOSED

theorem rewrites_of_closing (hop : onAcceptance op = false) (hbefore : row.state ≠ .CLOSED)
    (hafter : row'.state = .CLOSED) : Rewrites row row' op := by
  unfold Rewrites
  split <;> first | exact ⟨hbefore, hafter⟩ | simp [onAcceptance] at hop

theorem closes_open {lib : TrackerText} {ctx : DeviceContext} (h : closes lib ctx row = true) :
    row.state ≠ .CLOSED := by
  simp only [closes, Bool.and_eq_true, decide_eq_true_eq] at h
  exact h.1.1.2

theorem touched_rewrites (h : Touched lib row op row')
    (hchanged : grantOf row'.exception ≠ grantOf row.exception) : Rewrites row row' op := by
  cases h with
  | kept _ hexc _ => exact absurd (congrArg grantOf hexc) hchanged
  | closed hop hbefore hafter _ => exact rewrites_of_closing hop hbefore hafter
  | patched hcloses hafter _ => exact ⟨closes_open hcloses, hafter⟩
  | approved hpending _ _ _ _ => exact hpending
  | revoked hgranted _ _ => exact hgranted
  | requested _ _ hexc => exact absurd (congrArg grantOf hexc) hchanged
  | rejected _ _ hexc => exact absurd (congrArg grantOf hexc) hchanged
  | withdrawn _ _ hexc => exact absurd (congrArg grantOf hexc) hchanged
  | swept _ _ _ hexc => exact absurd (congrArg grantOf hexc) hchanged

/-- A window comes into force by the approval of a request of that window by somebody else. -/
theorem touched_granting {g : Grant} {until_ : ℤ} (h : Touched lib row op row')
    (hbefore : grantOf row.exception ≠ g) (hafter : grantOf row'.exception = g)
    (huntil : g.until_ = some until_) :
    ∃ actor note now q, op = .single (.exceptionApproved actor note now) rfl ∧
      pendingRequest row.exception = some q ∧ q.requestedUntil = some until_ ∧
      samePerson lib.toText q.requestedBy (some actor) = false ∧
      g.grantedBy = some actor ∧ g.approvedRequestedBy = q.requestedBy := by
  have hwindow : row'.exception.until_ = some until_ := by
    rw [← huntil, ← hafter]
    rfl
  cases h with
  | kept _ hexc _ => exact absurd ((congrArg grantOf hexc).symm.trans hafter) hbefore
  | closed _ _ _ hexc =>
    rw [hexc, dropException_until] at hwindow
    exact absurd hwindow (by simp)
  | patched _ _ hexc =>
    rw [hexc] at hwindow
    unfold closeAsPatched at hwindow
    simp only at hwindow
    split_ifs at hwindow with hnone
    exact absurd (hnone.symm.trans hwindow) (by simp)
  | @approved actor note now u _ hpending hperson hrequested _ hexc =>
    have hgrant := hafter.symm.trans (congrArg grantOf hexc)
    have hu : until_ = u := Option.some.inj (huntil.symm.trans (congrArg Grant.until_ hgrant))
    refine ⟨actor, note, now, ⟨row.exception.requestedBy, row.exception.requestedAt,
      row.exception.requestedUntil, row.exception.requestedReason⟩, rfl, ?_, ?_, hperson, ?_, ?_⟩
    · rw [pendingRequest, if_pos hpending]
    · rw [hu]
      exact hrequested
    · exact congrArg Grant.grantedBy hgrant
    · exact congrArg Grant.approvedRequestedBy hgrant
  | revoked _ _ hexc =>
    have hnone : row'.exception.until_ = none := by
      rw [hexc]
      split_ifs <;> rfl
    exact absurd (hnone.symm.trans hwindow) (by simp)
  | requested _ _ hexc => exact absurd ((congrArg grantOf hexc).symm.trans hafter) hbefore
  | rejected _ _ hexc => exact absurd ((congrArg grantOf hexc).symm.trans hafter) hbefore
  | withdrawn _ _ hexc => exact absurd ((congrArg grantOf hexc).symm.trans hafter) hbefore
  | swept _ _ _ hexc => exact absurd ((congrArg grantOf hexc).symm.trans hafter) hbefore

theorem touched_filing {q : Request} (h : Touched lib row op row')
    (hbefore : pendingRequest row.exception ≠ some q)
    (hafter : pendingRequest row'.exception = some q) :
    ∃ until_ reason actor now, op = .single (.exceptionRequested until_ reason actor now) rfl ∧
      q.requestedBy = actor ∧ q.requestedUntil = some until_ := by
  have hpending : row'.exception.state = .requested := by
    unfold pendingRequest at hafter
    split_ifs at hafter with hstate
    exact hstate
  cases h with
  | kept _ hexc _ => exact absurd ((congrArg pendingRequest hexc).symm.trans hafter) hbefore
  | closed _ _ _ hexc =>
    rw [hexc, dropException_state] at hpending
    exact absurd hpending (by decide)
  | patched _ _ hexc =>
    refine absurd ?_ hbefore
    rw [← hafter, hexc]
    unfold closeAsPatched pendingRequest
    simp only
    split_ifs <;> rfl
  | @requested until_ now reason actor _ _ _ hexc =>
    have hq := (congrArg pendingRequest hexc).symm.trans hafter
    rw [← Option.some.inj hq]
    exact ⟨until_, reason, actor, now, rfl, rfl, rfl⟩
  | approved _ _ _ _ hexc =>
    have hworkflow : row'.exception.state = .approved := congrArg Acceptance.state hexc
    exact absurd (hworkflow.symm.trans hpending) (by decide)
  | rejected _ _ hexc =>
    have hworkflow : row'.exception.state = .rejected := congrArg Acceptance.state hexc
    exact absurd (hworkflow.symm.trans hpending) (by decide)
  | withdrawn _ _ hexc =>
    exact absurd ((congrArg Acceptance.state hexc).symm.trans hpending)
      (stateBehindARequest_decided row _)
  | revoked _ _ hexc =>
    refine absurd ?_ hbefore
    split_ifs at hexc with hwaiting
    · rw [← hafter, hexc, pendingRequest, if_pos hwaiting]
      rfl
    · rw [hexc] at hpending
      exact absurd hpending (by decide)
  | swept _ _ _ hexc =>
    refine absurd ?_ hbefore
    have hstate := congrArg Acceptance.state hexc
    simp only at hstate
    rw [hpending] at hstate
    split_ifs at hstate with happroved
    rw [← hafter, pendingRequest, pendingRequest, if_pos hpending, if_pos hstate.symm, hexc]

def foldedName (t : Text) (name : Option String) : String :=
  t.casefold (t.strip (text name))

def signed (t : Text) (_ : Vulnerability) : Op → Prop
  | .single (.exceptionRequested _ _ actor _) _ => t.strip (text actor) ≠ ""
  | .single (.exceptionApproved actor _ _) _ => t.strip actor ≠ ""
  | .single (.exceptionRejected actor _ _) _ => t.strip actor ≠ ""
  | .single (.exceptionWithdrawn actor _) _ => t.strip (text actor) ≠ ""
  | _ => True

abbrev signedStep (lib : CoverageText) : Vulnerability → Op → Vulnerability → Prop :=
  guarded (serialStep lib) (signed lib.toText)

/-- The window in force was asked for, waited as it was asked for, was approved by somebody
else, and has stayed as it was approved. -/
def Countersigned (lib : CoverageText) (start : Vulnerability) (ops : List Op)
    (row : Vulnerability) (until_ : ℤ) : Prop :=
  ∃ reason filer askedAt approver note grantedAt q earlier waiting since asked pending answered
      granted,
    ops = earlier ++ .single (.exceptionRequested until_ reason filer askedAt) rfl ::
      (waiting ++ .single (.exceptionApproved approver note grantedAt) rfl :: since) ∧
    Runs (serialStep lib) start earlier asked ∧
    serialStep lib asked (.single (.exceptionRequested until_ reason filer askedAt) rfl) pending ∧
    Runs (fun a op b => serialStep lib a op b ∧ pendingRequest b.exception = some q) pending
      waiting answered ∧
    pendingRequest answered.exception = some q ∧ q.requestedBy = filer ∧
    q.requestedUntil = some until_ ∧
    serialStep lib answered (.single (.exceptionApproved approver note grantedAt) rfl) granted ∧
    Runs (fun a op b => serialStep lib a op b ∧ grantOf b.exception = grantOf row.exception)
      granted since row ∧
    row.exception.grantedBy = some approver ∧ row.exception.approvedRequestedBy = filer ∧
    foldedName lib.toText (some approver) ≠ foldedName lib.toText filer

theorem foldedName_ne {t : Text} {one : Option String} {actor : String}
    (hcasefold : ∀ s, t.casefold s = "" → s = "") (hactor : t.strip actor ≠ "")
    (h : samePerson t one (some actor) = false) :
    foldedName t (some actor) ≠ foldedName t one := by
  intro heq
  have hsame : t.casefold (t.strip (text one)) = t.casefold (t.strip actor) := heq.symm
  have hblank : t.casefold (t.strip actor) = "" := by
    unfold samePerson at h
    rw [hsame] at h
    simpa [text] using h
  exact hactor (hcasefold _ hblank)

theorem ungranted_created (h : Created lib row) : row.exception = Acceptance.none := by
  cases h <;> rfl

theorem filed_of_pending (hcreated : Created lib start) (h : Runs (serialStep lib) start ops row)
    {q : Request} (hpending : pendingRequest row.exception = some q) :
    ∃ until_ reason filer askedAt earlier waiting asked pending,
      ops = earlier ++ .single (.exceptionRequested until_ reason filer askedAt) rfl :: waiting ∧
      Runs (serialStep lib) start earlier asked ∧
      serialStep lib asked (.single (.exceptionRequested until_ reason filer askedAt) rfl)
        pending ∧
      Runs (fun a op b => serialStep lib a op b ∧ pendingRequest b.exception = some q) pending
        waiting row ∧
      q.requestedBy = filer ∧ q.requestedUntil = some until_ := by
  rcases h.last_entry (fun r => pendingRequest r.exception = some q) hpending with
    ⟨hstart, _⟩ | ⟨earlier, op, waiting, asked, pending, hops, hearlier, hbefore, hstep, hafter,
      hwaiting⟩
  · rw [ungranted_created hcreated] at hstart
    exact absurd hstart (by simp [pendingRequest, Acceptance.none])
  · obtain ⟨until_, reason, filer, askedAt, rfl, hfiler, huntil⟩ :=
      touched_filing (Op.touched hstep) hbefore hafter
    exact ⟨until_, reason, filer, askedAt, earlier, waiting, asked, pending, hops, hearlier,
      hstep, hwaiting, hfiler, huntil⟩

theorem countersigned_of_granted (hcasefold : ∀ s, lib.casefold s = "" → s = "")
    (hcreated : Created lib start) (h : Runs (signedStep lib) start ops row) {until_ : ℤ}
    (hgranted : row.exception.until_ = some until_) :
    Countersigned lib start ops row until_ := by
  rcases h.last_entry (fun r => grantOf r.exception = grantOf row.exception) rfl with
    ⟨hstart, _⟩ | ⟨before, op, since, answered, granted, hops, hbefore, hold, hstep, hnew,
      hsince⟩
  · have hnone : start.exception.until_ = none := by
      rw [ungranted_created hcreated]
      rfl
    have hsame : start.exception.until_ = row.exception.until_ := congrArg Grant.until_ hstart
    exact absurd (hnone.symm.trans (hsame.trans hgranted)) (by simp)
  · obtain ⟨approver, note, grantedAt, q, rfl, hpending, hwindow, hperson, hby, hfiler⟩ :=
      touched_granting (Op.touched hstep.2) hold hnew hgranted
    obtain ⟨u, reason, filer, askedAt, earlier, waiting, asked, pending, rfl, hearlier, hask,
      hwaiting, hq, hqu⟩ := filed_of_pending hcreated hbefore.of_guarded hpending
    have hu : u = until_ := Option.some.inj (hqu.symm.trans hwindow)
    subst hu
    have hdiffer := foldedName_ne hcasefold hstep.1 hperson
    rw [hq] at hdiffer
    refine ⟨reason, filer, askedAt, approver, note, grantedAt, q, earlier, waiting, since, asked,
      pending, answered, granted, ?_, hearlier, hask, hwaiting, hpending, hq, hqu, hstep.2, ?_,
      hby, hfiler.trans hq, hdiffer⟩
    · rw [hops, List.append_assoc, List.cons_append]
    · exact hsince.mono fun _ _ _ hs => ⟨hs.1.2, hs.2⟩

/-- Every window in force was asked for by one person and approved by another, and nothing but
an approval, a revocation or a closure rewrites it. -/
theorem acceptance_countersigned (hcasefold : ∀ s, lib.casefold s = "" → s = "")
    (hcreated : Created lib start) (h : Runs (signedStep lib) start ops row) :
    (∀ until_, row.exception.until_ = some until_ →
      Countersigned lib start ops row until_) ∧
    (∀ op row', serialStep lib row op row' →
      grantOf row'.exception ≠ grantOf row.exception → Rewrites row row' op) :=
  ⟨fun _ hgranted => countersigned_of_granted hcasefold hcreated h hgranted,
    fun _ _ hstep hchanged => touched_rewrites (Op.touched hstep) hchanged⟩

theorem ascii_casefold_eq_empty {s : String} (h : asciiLibrary.casefold s = "") : s = "" := by
  have hlist : (s.toList.map Char.toLower) = [] := by
    have := congrArg String.toList h
    simpa [asciiLibrary, ascii] using this
  have hnil : s.toList = [] := List.map_eq_nil_iff.mp hlist
  exact String.toList_eq_nil_iff.mp hnil

theorem granted_countersigned :
    (serial [ask, grant]).exception.until_ = some 100 ∧
      Countersigned asciiLibrary behind [ask, grant] (serial [ask, grant]) 100 := by
  have hgranted : (serial [ask, grant]).exception.until_ = some 100 := by decide +kernel
  have hrun : Runs (signedStep asciiLibrary) behind [ask, grant] (serial [ask, grant]) := by
    refine serial_runs _ ?_ (by decide +kernel)
    intro op hop row
    simp only [List.mem_cons, List.not_mem_nil, or_false] at hop
    rcases hop with rfl | rfl
    · change asciiLibrary.strip "alice" ≠ ""
      decide +kernel
    · change asciiLibrary.strip "bob" ≠ ""
      decide +kernel
  exact ⟨hgranted, (acceptance_countersigned (fun _ => ascii_casefold_eq_empty)
    (.byInventory (inventoryAt 0 [openssl]) openssl) hrun).1 100 hgranted⟩

end Shapoclyack.FourEyes
