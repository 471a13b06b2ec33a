import Shapoclyack.TrackerTransactions

set_option autoImplicit false

namespace Shapoclyack.FindingColumns

open FindingEvidence ReportEntries VerificationArtifacts VulnStates Findings FindingFold Lifecycle
open SoftwareFindings VerificationDispatch FindingEvents TrackerTransactions Library

/-- The columns a finding is named by, which only a merge of its asset rewrites. -/
structure Columns where
  tenantId : String
  assetId : String
  findingKey : String
  /-- It came from the endpoint inventory rather than from a scan. -/
  software : Bool
  deviceId : Option String
  cve : Option String
  scriptId : Option String
  port : Option String
deriving DecidableEq

def columnsOf (row : Vulnerability) : Columns where
  tenantId := row.tenantId
  assetId := row.assetId
  findingKey := row.findingKey
  software := decide (row.source = .endpointSoftware)
  deviceId := row.deviceId
  cve := row.cve
  scriptId := row.scriptId
  port := row.port

def named (row : Vulnerability) : Columns × Option NonCve := (columnsOf row, row.nonCve)

theorem rowKey_of_columns {a b : Vulnerability} (h : columnsOf a = columnsOf b) :
    rowKey a = rowKey b := by
  simp only [columnsOf, Columns.mk.injEq] at h
  simp only [rowKey, h.1, h.2.2.1]

theorem rowKey_of_named {a b : Vulnerability} (h : named a = named b) : rowKey a = rowKey b :=
  rowKey_of_columns (congrArg Prod.fst h)

section Operators

variable {row row' : Vulnerability}

theorem dropException_named (row : Vulnerability) : named (dropException row) = named row := by
  rw [dropException_frame]
  rfl

theorem dropFpVerdictOnReopen_named (row : Vulnerability) :
    named (dropFpVerdictOnReopen row) = named row := by
  unfold dropFpVerdictOnReopen
  split_ifs <;> rfl

theorem closeByHand_named (row : Vulnerability) (reason : ClosureReason) (now : ℤ) :
    named (closeByHand row reason now) = named row :=
  dropException_named _

theorem reopenByHand_named (row : Vulnerability) (now : ℤ) :
    named (reopenByHand row now) = named row := by
  unfold reopenByHand dropFpVerdictOnReopen
  simp only
  split_ifs <;> rfl

theorem handMove_named (row : Vulnerability) (new : VulnStates.State) (actor : Option String)
    (reason : ClosureReason) (now : ℤ) :
    named (if new = .CLOSED then closeByHand (moveTo row new actor now) reason now
      else if row.state = .CLOSED then reopenByHand (moveTo row new actor now) now
      else moveTo row new actor now) = named row := by
  split_ifs
  · exact closeByHand_named _ reason now
  · exact reopenByHand_named _ now
  · rfl

theorem transition_named {new : VulnStates.State} {actor : Option String} {now : ℤ}
    (h : transition new actor now row = .ok row') : named row' = named row := by
  obtain ⟨_, rfl⟩ := checked_ok h
  exact handMove_named row new actor .manual now

theorem applyTicketStatus_named {jobStatus : String → Option JobStates.Status}
    {reading : TicketReading} {now : ℤ}
    (h : applyTicketStatus jobStatus reading now row = .ok row') : named row' = named row := by
  unfold applyTicketStatus at h
  split at h
  case h_2 => rw [← Except.ok.inj h]
  case h_1 =>
    have hrow := (Except.ok.inj h).symm
    cases hticket : ticketMove jobStatus reading row with
    | none =>
      simp only [hticket] at hrow
      rw [hrow]
      rfl
    | some new =>
      simp only [hticket] at hrow
      rw [hrow]
      exact handMove_named row new _ .ticketResolved now

theorem markFalsePositive_named {t : Text} {reason : Option String} {suppressDays : ℕ}
    {actor : Option String} {now : ℤ}
    (h : markFalsePositive t reason suppressDays actor now row = .ok row') :
    named row' = named row := by
  unfold markFalsePositive at h
  simp only at h
  split_ifs at h
  obtain ⟨_, rfl⟩ := checked_ok h
  exact closeByHand_named _ .falsePositive now

theorem clearFalsePositive_named {policies : List SlaPolicy} {criticality : Option ℕ}
    {actor : Option String} {now : ℤ}
    (h : clearFalsePositive policies criticality actor now row = .ok row') :
    named row' = named row := by
  unfold clearFalsePositive at h
  simp only at h
  split_ifs at h
  rw [← Except.ok.inj h]
  rfl

theorem requestException_named {t : Text} {until_ now : ℤ} {reason actor : Option String}
    (h : requestException t until_ reason actor now row = .ok row') : named row' = named row := by
  obtain ⟨_, rfl⟩ := requestException_ok h
  rfl

theorem approveException_named {t : Text} {actor : String} {note : Option String} {now : ℤ}
    (h : approveException t actor note now row = .ok row') : named row' = named row := by
  obtain ⟨_, _, _, _, rfl⟩ := approveException_ok h
  rfl

theorem rejectException_named {t : Text} {actor : String} {note : Option String} {now : ℤ}
    (h : rejectException t actor note now row = .ok row') : named row' = named row := by
  unfold rejectException at h
  obtain ⟨_, hrest⟩ := checkedException_ok h
  split_ifs at hrest
  rw [← Except.ok.inj hrest]
  rfl

theorem withdrawExceptionRequest_named {t : Text} {actor : Option String} {now : ℤ}
    (h : withdrawExceptionRequest t actor now row = .ok row') : named row' = named row := by
  unfold withdrawExceptionRequest at h
  split_ifs at h
  rw [← Except.ok.inj h]
  rfl

theorem clearException_named {policies : List SlaPolicy} {criticality : Option ℕ} {now : ℤ}
    (h : clearException policies criticality now row = .ok row') : named row' = named row := by
  unfold clearException at h
  split at h
  case h_1 => simp at h
  case h_2 =>
    rw [← Except.ok.inj h]
    rfl

theorem expireException_named {now : ℤ} (h : expireException now row = .ok row') :
    named row' = named row := by
  unfold expireException at h
  split at h
  case isTrue =>
    rw [← Except.ok.inj h]
    rfl
  case isFalse => rw [← Except.ok.inj h]

theorem releaseUnfinishedVerification_named (tenantId jobId : String) (now : ℤ)
    (row : Vulnerability) :
    named (releaseUnfinishedVerification tenantId jobId now row) = named row := by
  unfold releaseUnfinishedVerification
  split_ifs <;> rfl

theorem single_named {lib : CoverageText} {e : Event} (hsingle : Event.single e = true)
    (h : stepEvent lib row e = some row') : named row' = named row := by
  have happly := stepEvent_eq_some h
  cases e with
  | observed run o => simp [Event.single] at hsingle
  | settled run => simp [Event.single] at hsingle
  | moved new actor now => exact transition_named happly
  | ticketRead jobStatus reading now => exact applyTicketStatus_named happly
  | falsePositiveMarked reason suppressDays actor now => exact markFalsePositive_named happly
  | falsePositiveCleared policies criticality actor now => exact clearFalsePositive_named happly
  | exceptionRequested until_ reason actor now => exact requestException_named happly
  | exceptionApproved actor note now => exact approveException_named happly
  | exceptionRejected actor note now => exact rejectException_named happly
  | exceptionWithdrawn actor now => exact withdrawExceptionRequest_named happly
  | exceptionRevoked policies criticality now => exact clearException_named happly
  | exceptionSwept now => exact expireException_named happly
  | verificationDispatched seen hostsThen hostsNow job actor now =>
    obtain ⟨_, _, rfl⟩ := dispatchVerification_ok happly
    rfl
  | verificationReleased tenantId jobId now =>
    rw [← Except.ok.inj happly]
    exact releaseUnfinishedVerification_named tenantId jobId now row

end Operators

section ScanFold

variable {lib : CoverageText} {run : Run}

theorem weighFpVerdict_named (t : Text) (row : Vulnerability) (latest : Assessment) (now : ℤ) :
    named (weighFpVerdict t row latest now).2 = named row := by
  unfold weighFpVerdict
  split_ifs <;> rfl

theorem promote_named (row : Vulnerability) : named (promote row) = named row := by
  have hsource : ((if row.source = .retroMatch then Source.scan else row.source) =
      .endpointSoftware) ↔ row.source = .endpointSoftware := by
    cases row.source <;> decide
  simp only [named, columnsOf, promote, hsource]

theorem reopen_named (row : Vulnerability) (o : Observed) :
    named (reopen run row o) = named row := by
  unfold reopen
  simp only
  refine (dropFpVerdictOnReopen_named _).trans ?_
  split_ifs <;> rfl

theorem concludeFold_named (outcome : FpOutcome) (row : Vulnerability) (o : Observed) :
    named (concludeFold run outcome row o) = named row := by
  unfold concludeFold
  split_ifs
  · rfl
  · exact reopen_named row o
  · rfl

/-- An observation rewrites at most what the row says of a finding without a CVE. -/
def Reread (o : Observed) (row row' : Vulnerability) : Prop :=
  columnsOf row' = columnsOf row ∧ (row'.nonCve = row.nonCve ∨ row'.nonCve = o.nonCve)

theorem reread_of_named {o : Observed} {row row' : Vulnerability}
    (h : named row' = named row) : Reread o row row' :=
  ⟨congrArg Prod.fst h, .inl (congrArg Prod.snd h)⟩

theorem reread_of_written {o : Observed} {row row' : Vulnerability} (written : Vulnerability)
    (hcolumns : columnsOf written = columnsOf row) (hnonCve : written.nonCve = o.nonCve)
    (h : named row' = named written) : Reread o row row' :=
  ⟨(congrArg Prod.fst h).trans hcolumns, .inr ((congrArg Prod.snd h).trans hnonCve)⟩

theorem foldHistorical_named (row : Vulnerability) (o : Observed) :
    named (foldHistorical lib run row o) = named row := rfl

theorem foldEscalated_reread (row : Vulnerability) (o : Observed) :
    Reread o row (foldEscalated run row o) := by
  refine reread_of_written (writeLatest run row o) rfl rfl ?_
  exact (concludeFold_named _ _ o).trans (promote_named _)

theorem foldCurrent_reread (row : Vulnerability) (o : Observed) :
    Reread o row (foldCurrent lib run row o) := by
  have hweigh := congrArg Prod.fst (weighFpVerdict_named lib.toText row o.latest run.now)
  refine reread_of_written (writeLatest run
    (weighFpVerdict lib.toText row o.latest run.now).2 o) hweigh rfl ?_
  exact (concludeFold_named _ _ o).trans (promote_named _)

theorem foldReplay_reread (row : Vulnerability) (o : Observed) :
    Reread o row (foldReplay lib run row o) := by
  unfold foldReplay
  split_ifs
  · exact ⟨rfl, .inr rfl⟩
  · exact ⟨rfl, .inl rfl⟩

theorem observe_reread (row : Vulnerability) (o : Observed) :
    Reread o row (observe lib run row o) := by
  unfold observe
  simp only
  split_ifs
  · exact reread_of_named (foldHistorical_named (retain lib row o) o)
  · exact foldEscalated_reread (retain lib row o) o
  · exact foldReplay_reread row o
  · exact reread_of_named (foldHistorical_named row o)
  · exact foldCurrent_reread row o

theorem settleAwaiting_named (row : Vulnerability) :
    named (settleAwaiting lib run row) = named row := by
  unfold settleAwaiting settle
  split_ifs
  · split
    · rfl
    · rfl
    · exact dropException_named _
    · exact dropException_named _
  · rfl

/-- Where an observation of a run comes from: an entry whose asset is known and that names an
issue. -/
def ComesFrom (lib : CoverageText) (run : Run) (o : Observed) : Prop :=
  ∃ reported ∈ run.reported, ∃ asset,
    run.assetFor reported.entry = some asset ∧
      observationFindingKey lib.toTrackerText run.tenantId asset.assetId reported.entry =
        some o.key ∧
      o = observedOf lib run reported asset o.key

theorem resolves_asset {reported : Reported} {asset : AssetInfo}
    (h : resolves lib run reported = some asset) : run.assetFor reported.entry = some asset := by
  unfold resolves at h
  split at h
  · simp at h
  · split_ifs at h
    rw [← h]
    assumption

theorem prepare_comesFrom {reported : List Reported} {os : List Observed}
    (hin : ∀ r ∈ reported, r ∈ run.reported) (h : prepare lib run reported = some os)
    {o : Observed} (ho : o ∈ os) : ComesFrom lib run o := by
  induction reported generalizing os with
  | nil =>
    rw [prepare, Option.some.injEq] at h
    rw [← h] at ho
    simp at ho
  | cons r rest ih =>
    have hrest := fun x hx => hin x (List.mem_cons_of_mem r hx)
    unfold prepare at h
    split at h
    · exact ih hrest h ho
    · next asset hasset =>
      split at h
      · simp at h
      · next key hkey =>
        obtain ⟨tail, htail, rfl⟩ := Option.map_eq_some_iff.mp h
        rcases List.mem_cons.mp ho with rfl | hmem
        · exact ⟨r, hin r List.mem_cons_self, asset, resolves_asset hasset, hkey, rfl⟩
        · exact ih hrest htail hmem

/-- A property of the columns a run may create, which its observations and settlements keep, holds
of every row the fold leaves. -/
theorem register_all {P : Vulnerability → Prop} {t t' : Tracker} (ht : t.All P)
    (fresh : ∀ o, ComesFrom lib run o → P (create lib run o))
    (observed : ∀ o, ComesFrom lib run o → ∀ row row', rowKey row = (run.tenantId, o.key) →
      Reread o row row' → P row → P row')
    (settled : ∀ row row', named row' = named row → P row → P row')
    (h : registerFindingsFromRun lib run t = some t') : t'.All P := by
  unfold registerFindingsFromRun at h
  split_ifs at h
  · rw [← Option.some.inj h]
    exact ht
  · obtain ⟨os, hos, rfl⟩ := Option.map_eq_some_iff.mp h
    have hfrom := fun o (ho : o ∈ os) => prepare_comesFrom (fun _ hr => hr) hos ho
    have hfolded : (t.applyAll (os.map (changeOf lib run))).All P := by
      refine ht.applyAll (fun c hc => ?_) (fun c hc row hkey hrow => ?_)
      · obtain ⟨o, ho, rfl⟩ := List.mem_map.mp hc
        exact fresh o (hfrom o ho)
      · obtain ⟨o, ho, rfl⟩ := List.mem_map.mp hc
        exact observed o (hfrom o ho) row _ hkey (observe_reread row o) hrow
    exact hfolded.modify fun row hrow => settled row _ (settleAwaiting_named row) hrow

end ScanFold

section InventoryFold

variable {lib : TrackerText} {ctx : DeviceContext}

theorem refresh_named (row : Vulnerability) (m : Match) :
    named (refresh lib ctx row m) = named row := by
  have hweigh := weighFpVerdict_named lib.toText row (latestOf lib m) ctx.now
  unfold refresh
  simp only
  split_ifs
  · exact hweigh
  · refine Eq.trans ?_ hweigh
    exact dropFpVerdictOnReopen_named _
  · exact hweigh
  · rfl

theorem closureStep_named (row : Vulnerability) :
    named (closureStep lib ctx row) = named row := by
  unfold closureStep
  split_ifs <;> rfl

theorem foldMatch_all {P : Vulnerability → Prop} {before t t' : Tracker} {m : Match}
    (ht : t.All P) (fresh : P (createSoftware lib ctx m))
    (kept : ∀ row row', named row' = named row → P row → P row')
    (h : foldMatch lib ctx before t m = some t') : t'.All P := by
  unfold foldMatch at h
  simp only at h
  split_ifs at h
  · rw [← Option.some.inj h]
    exact ht.modifyAt fun row _ hrow => kept row _ (refresh_named row m) hrow
  · rw [← Option.some.inj h]
    exact ht.append fresh

theorem foldDevice_all {P : Vulnerability → Prop} {t t' : Tracker} (ht : t.All P)
    (fresh : ∀ m ∈ trackable lib ctx, P (createSoftware lib ctx m))
    (kept : ∀ row row', named row' = named row → P row → P row')
    (h : foldDevice lib ctx t = some t') : t'.All P := by
  unfold foldDevice at h
  obtain ⟨folded, hfolded, rfl⟩ := Option.map_eq_some_iff.mp h
  have hall : ∀ ms : List Match, (∀ m ∈ ms, P (createSoftware lib ctx m)) → ∀ u u' : Tracker,
      u.All P → ms.foldlM (foldMatch lib ctx t) u = some u' → u'.All P := by
    intro ms
    induction ms with
    | nil =>
      intro _ u u' hu hfold
      rw [← Option.some.inj hfold]
      exact hu
    | cons m ms ih =>
      intro hms u u' hu hfold
      rw [List.foldlM_cons] at hfold
      obtain ⟨v, hv, htail⟩ := Option.bind_eq_some_iff.mp hfold
      exact ih (fun x hx => hms x (List.mem_cons_of_mem m hx)) v u'
        (foldMatch_all hu (hms m List.mem_cons_self) kept hv) htail
  exact (hall _ fresh t folded ht hfolded).modify fun row hrow =>
    kept row _ (closureStep_named row) hrow

theorem trackMatch_named {tracked : List (String × Match)} {candidate : Match}
    (h : ∀ entry ∈ tracked, issueOf lib entry.2 ≠ "") :
    ∀ entry ∈ trackMatch lib tracked candidate, issueOf lib entry.2 ≠ "" := by
  unfold trackMatch
  simp only
  split_ifs with hcve
  · exact h
  · split
    · intro entry hentry
      rcases List.mem_append.mp hentry with hold | hnew
      · exact h entry hold
      · rw [List.mem_singleton.mp hnew]
        exact hcve
    · split_ifs
      · intro entry hentry
        obtain ⟨old, hold, rfl⟩ := List.mem_map.mp hentry
        split_ifs
        · exact hcve
        · exact h old hold
      · exact h

theorem trackable_issue {m : Match} (hm : m ∈ trackable lib ctx) : issueOf lib m ≠ "" := by
  have htracked := (List.mem_filter.mp hm).1
  obtain ⟨entry, hentry, rfl⟩ := List.mem_map.mp htracked
  have hall : ∀ entry ∈ ctx.matches_.foldl (trackMatch lib) [], issueOf lib entry.2 ≠ "" :=
    List.foldlRecOn ctx.matches_ (trackMatch lib)
      (motive := fun tracked => ∀ entry ∈ tracked, issueOf lib entry.2 ≠ "") (by simp)
      fun _ h _ _ => trackMatch_named h
  exact hall entry hentry

end InventoryFold

end Shapoclyack.FindingColumns
