import Shapoclyack.RunPublications

set_option autoImplicit false

namespace Shapoclyack.DerivedFeed

open JobStates RunPublications Library

/-- The projection found the row and ran to its end, unless an exception cut it short. -/
def Ran (a : Attempt) : Prop :=
  a.found = true ∧ (a.aborted = true ∨ a.ran = actionsFor a.snapshot.jobStatus)

def ReceiptSettled (q : Publishing) : Prop :=
  ∀ row, q.row = some row → row.contract = true → row.jobStatus = .succeeded →
    ProjectionStep.findings ∈ q.fed

/-- What the phase of an attempt says of its projection. -/
def Progress (q : Publishing) (a : Attempt) : Prop :=
  match a.phase with
  | .projecting rest =>
    a.found = true ∧ (a.aborted = true ∨ a.ran ++ rest = actionsFor a.snapshot.jobStatus)
  | .projected => q.row = none ∨ Ran a
  | .closing => q.row = none ∨ (Ran a ∧ ReceiptSettled q)
  | .failed _ _ | .ended => True
  | _ => a.ran = []

/-- No step is fed twice, the row's marks are the steps fed, and every attempt is where it says. -/
structure FeedInv (q : Publishing) : Prop where
  once : q.fed.Nodup
  marked : ∀ row, q.row = some row → ∀ step, step ∈ q.fed ↔ step ∈ row.projected
  receipt : q.receipt = true → ProjectionStep.findings ∈ q.fed
  progress : ∀ a ∈ q.attempts.rows, Progress q a

section Steps

variable {s : Settings} {q q' : Publishing} {a a' : Attempt} {act : Act}

structure SameMarks (row row' : Publication) : Prop where
  projected : row'.projected = row.projected
  contract : row'.contract = row.contract
  jobStatus : row'.jobStatus = row.jobStatus

theorem SameMarks.refl (row : Publication) : SameMarks row row := ⟨rfl, rfl, rfl⟩

theorem SameMarks.of_carried {row row' : Publication} (h : Carried row row') : SameMarks row row' :=
  ⟨h.projected, h.contract, h.jobStatus⟩

/-- A step that feeds nothing: every row it leaves has the marks of the row before. -/
structure Quiet (q q' : Publishing) : Prop where
  row : ∀ row', q'.row = some row' → ∃ row, q.row = some row ∧ SameMarks row row'
  fed : q'.fed = q.fed
  receipt : q'.receipt = q.receipt

theorem Quiet.gone (h : Quiet q q') (hgone : q.row = none) : q'.row = none := by
  cases hrow : q'.row with
  | none => rfl
  | some row' =>
    obtain ⟨row, hsome, _⟩ := h.row row' hrow
    rw [hgone] at hsome
    exact absurd hsome (by simp)

theorem Quiet.settled (h : Quiet q q') (hsettled : ReceiptSettled q) : ReceiptSettled q' := by
  intro row' hrow' hcontract hstatus
  obtain ⟨row, hrow, hsame⟩ := h.row row' hrow'
  rw [h.fed]
  exact hsettled row hrow (by rw [← hsame.contract]; exact hcontract)
    (by rw [← hsame.jobStatus]; exact hstatus)

theorem Progress.quiet (h : Quiet q q') (hprogress : Progress q a) : Progress q' a := by
  unfold Progress at hprogress ⊢
  split at hprogress
  · exact hprogress
  · exact hprogress.imp_left h.gone
  · exact hprogress.imp h.gone fun hran => ⟨hran.1, h.settled hran.2⟩
  · trivial
  · trivial
  · exact hprogress

theorem FeedInv.quiet (inv : FeedInv q) (h : Quiet q q')
    (hattempts : ∀ b ∈ q'.attempts.rows, b ∈ q.attempts.rows ∨ Progress q' b) : FeedInv q' where
  once := by
    rw [h.fed]
    exact inv.once
  marked row' hrow' step := by
    obtain ⟨row, hrow, hsame⟩ := h.row row' hrow'
    rw [h.fed, hsame.projected]
    exact inv.marked row hrow step
  receipt hreceipt := by
    rw [h.fed]
    exact inv.receipt (by rw [← h.receipt]; exact hreceipt)
  progress b hb := by
    rcases hattempts b hb with hold | hnew
    · exact (inv.progress b hold).quiet h
    · exact hnew

theorem FeedInv.put (inv : FeedInv q) (h : Quiet q q')
    (hattempts : q'.attempts = q.attempts.put a') (hprogress : Progress q' a') : FeedInv q' := by
  refine inv.quiet h fun b hb => ?_
  rw [hattempts] at hb
  rcases Table.mem_put hb with rfl | ⟨hold, _⟩
  · exact .inr hprogress
  · exact .inl hold

theorem quiet_same (hrow : q'.row = q.row) (hfed : q'.fed = q.fed)
    (hreceipt : q'.receipt = q.receipt) : Quiet q q' :=
  ⟨fun row' h => ⟨row', by rw [← hrow]; exact h, SameMarks.refl row'⟩, hfed, hreceipt⟩

theorem quiet_carried {f : Publication → Publication} (hf : ∀ row, Carried row (f row))
    (hrow : q'.row = q.row.map f) (hfed : q'.fed = q.fed) (hreceipt : q'.receipt = q.receipt) :
    Quiet q q' := by
  refine ⟨fun row' h => ?_, hfed, hreceipt⟩
  rw [hrow] at h
  obtain ⟨row, hsome, rfl⟩ := Option.map_eq_some_iff.mp h
  exact ⟨row, hsome, SameMarks.of_carried (hf row)⟩

theorem quiet_gone (hrow : q'.row = none) (hfed : q'.fed = q.fed)
    (hreceipt : q'.receipt = q.receipt) : Quiet q q' :=
  ⟨fun row' h => by rw [hrow] at h; exact absurd h (by simp), hfed, hreceipt⟩

def beforeProjection : Phase → Bool
  | .projecting _ | .projected | .closing | .failed _ _ | .ended => false
  | _ => true

def finished : Phase → Bool
  | .failed _ _ | .ended => true
  | _ => false

theorem progress_finished (h : finished a.phase = true) : Progress q a := by
  unfold Progress
  cases hphase : a.phase with
  | failed | ended => trivial
  | _ => rw [hphase] at h; exact absurd h (by simp [finished])

theorem progress_before (h : beforeProjection a.phase = true) :
    Progress q a ↔ a.ran = [] := by
  unfold Progress
  cases hphase : a.phase with
  | projecting | projected | closing | failed | ended =>
    rw [hphase] at h
    exact absurd h (by simp [beforeProjection])
  | _ => rfl

theorem FeedInv.ran_nil (inv : FeedInv q) (ha : a ∈ q.attempts.rows)
    (h : beforeProjection a.phase = true) : a.ran = [] :=
  (progress_before h).mp (inv.progress a ha)

theorem FeedInv.moved (inv : FeedInv q) {phase : Phase} (h : finished phase = true) :
    FeedInv (q.moved a phase) :=
  inv.put (quiet_same rfl rfl rfl) rfl (progress_finished h)

theorem FeedInv.advance (inv : FeedInv q) (ha : a ∈ q.attempts.rows)
    (hphase : beforeProjection a.phase = true) {phase : Phase}
    (h : beforeProjection phase = true) : FeedInv (q.moved a phase) := by
  have hran : a.ran = [] := inv.ran_nil ha hphase
  exact inv.put (quiet_same rfl rfl rfl) rfl ((progress_before h).mpr hran)

theorem FeedInv.marks (inv : FeedInv q) {f : Publication → Publication}
    (hf : ∀ row, Carried row (f row)) {phase : Phase} (h : finished phase = true) :
    FeedInv { q.moved a phase with row := q.row.map f } :=
  inv.put (quiet_carried hf rfl rfl rfl) rfl (progress_finished h)

theorem firstPass_eq_some {step : ProjectionStep} {row : Option Publication}
    {marked : Publication} (h : firstPass step row = some marked) :
    ∃ before, row = some before ∧ step ∉ before.projected ∧
      marked = { before with projected := before.projected ++ [step] } := by
  unfold firstPass at h
  split at h
  · simp at h
  · next before =>
    split_ifs at h with hmem
    exact ⟨before, rfl, hmem, (Option.some.inj h).symm⟩

theorem Progress.fed {step : ProjectionStep} {before : Publication} (hrow : q.row = some before)
    (hprogress : Progress q a) :
    Progress { q with
      row := some { before with projected := before.projected ++ [step] }
      fed := step :: q.fed
      receipt := q.receipt || step == .findings } a := by
  unfold Progress at hprogress ⊢
  split at hprogress
  · exact hprogress
  · exact hprogress.imp_left fun h => absurd (hrow.symm.trans h) (by simp)
  · refine .inr ((hprogress.resolve_left (by rw [hrow]; simp)).imp_right fun hsettled => ?_)
    intro row hsome hcontract hstatus
    obtain rfl := Option.some.inj hsome
    exact List.mem_cons_of_mem _ (hsettled before hrow hcontract hstatus)
  · trivial
  · trivial
  · exact hprogress

theorem FeedInv.commit (inv : FeedInv q) (step : ProjectionStep) : FeedInv (q.commitStep step) := by
  unfold Publishing.commitStep
  split
  · exact inv
  · next marked hfirst =>
    obtain ⟨before, hrow, hfresh, rfl⟩ := firstPass_eq_some hfirst
    have hnew : step ∉ q.fed := fun hmem => hfresh ((inv.marked before hrow step).mp hmem)
    refine ⟨List.nodup_cons.mpr ⟨hnew, inv.once⟩, fun row hsome other => ?_, fun hreceipt => ?_,
      fun b hb => (inv.progress b hb).fed hrow⟩
    · obtain rfl := Option.some.inj hsome
      simp only [List.mem_cons, List.mem_append, List.not_mem_nil, or_false]
      rw [inv.marked before hrow other]
      exact Or.comm
    · rcases Bool.or_eq_true_iff.mp hreceipt with hold | hfindings
      · exact List.mem_cons_of_mem _ (inv.receipt hold)
      · rw [beq_iff_eq] at hfindings
        simp [hfindings]

theorem FeedInv.run (inv : FeedInv q) (action : Action) (commits : Bool) :
    FeedInv (q.runAction action commits) := by
  unfold Publishing.runAction
  split
  · exact inv
  · next step _ =>
    split_ifs
    · exact inv.commit step
    · exact inv

theorem runAction_attempts (action : Action) (commits : Bool) :
    (q.runAction action commits).attempts = q.attempts := by
  unfold Publishing.runAction Publishing.commitStep
  split
  · rfl
  · split_ifs
    · split <;> rfl
    · rfl

theorem FeedInv.feed (inv : FeedInv q) {action : Action} {rest : List Action} {commits : Bool}
    (hprogress : Progress q a) (hphase : a.phase = .projecting (action :: rest)) :
    FeedInv { q.runAction action commits with
      attempts := q.attempts.put
        { a with phase := .projecting rest, ran := a.ran ++ [action] } } := by
  have hran := hprogress
  simp only [Progress, hphase] at hran
  refine @FeedInv.put (q.runAction action commits) _
    { a with phase := .projecting rest, ran := a.ran ++ [action] }
    (inv.run action commits) (quiet_same rfl rfl rfl) ?_ ?_
  · rw [runAction_attempts]
  · refine ⟨hran.1, hran.2.imp_right fun hall => ?_⟩
    rw [← hall]
    simp

theorem receiptSettled_of_kept (inv : FeedInv q) (h : q.receiptKept = true) : ReceiptSettled q := by
  intro row hrow hcontract hstatus
  unfold Publishing.receiptKept at h
  rw [hrow] at h
  simp only [hcontract, hstatus, BEq.rfl, Bool.and_self, Bool.not_true, Bool.false_or] at h
  exact inv.receipt h

theorem moves_inv (inv : FeedInv q) (ha : a ∈ q.attempts.rows) {phase : Phase}
    (h : Moves q a act phase) : FeedInv (q.moved a phase) := by
  have hprogress := inv.progress a ha
  cases h with
  | finishUpload _ hphase | refuse _ hphase =>
    exact inv.advance ha (by rcases hphase with heq | heq <;> rw [heq] <;> rfl) rfl
  | permit _ hphase | foundStored _ hphase | announce _ hphase =>
    exact inv.advance ha (by rw [hphase]; rfl) rfl
  | project _ hrow => exact inv.put (quiet_same rfl rfl rfl) rfl (.inl hrow)
  | drained _ _ hphase =>
    simp only [Progress, hphase, List.append_nil] at hprogress
    exact inv.put (quiet_same rfl rfl rfl) rfl (.inr hprogress)
  | settled _ hphase hkept =>
    simp only [Progress, hphase] at hprogress
    have hsettled : ReceiptSettled q := receiptSettled_of_kept inv hkept
    exact inv.put (quiet_same rfl rfl rfl) rfl (hprogress.imp_right fun hran =>
      ⟨hran, Quiet.settled (quiet_same rfl rfl rfl) hsettled⟩)
  | rolledBack | raise | unsettled | crash => exact inv.moved rfl

/-- What each step of an attempt does to the feed. -/
theorem attemptStep_inv (inv : FeedInv q) (ha : a ∈ q.attempts.rows)
    (h : attemptStep s q a act = some q') : FeedInv q' := by
  have hprogress := inv.progress a ha
  cases attemptStep_cases h with
  | moved hmoves => exact moves_inv inv ha hmoves
  | refused => exact inv
  | handBack _ now => exact inv.marks (giveBack_carried s a.snapshot now) rfl
  | writeOff _ now => exact inv.marks (recordFailure_carried s true _ now) rfl
  | recordFailure _ reason final now =>
    exact inv.marks (recordFailure_carried s final reason now) rfl
  | renewLease _ lease now dbNow =>
    exact inv.quiet (quiet_carried (renew_carried s a.snapshot.fence lease now dbNow) rfl rfl rfl)
      fun b hb => .inl hb
  | put _ key hphase =>
    have hran : a.ran = [] := inv.ran_nil ha (by rcases hphase with heq | heq <;> rw [heq] <;> rfl)
    exact inv.put (quiet_same rfl rfl rfl) rfl ((progress_before rfl).mpr hran)
  | takeBack => exact inv.quiet (quiet_same rfl rfl rfl) fun b hb => .inl hb
  | stamp _ now hphase =>
    have hran : a.ran = [] := inv.ran_nil ha (by rw [hphase]; rfl)
    exact inv.put (quiet_carried (markStored_carried now) rfl rfl rfl) rfl
      ((progress_before rfl).mpr hran)
  | project _ hphase =>
    have hran : a.ran = [] := inv.ran_nil ha (by rw [hphase]; rfl)
    exact inv.put (quiet_same rfl rfl rfl) rfl ⟨rfl, .inr (by simp [hran])⟩
  | feed _ commits hphase => exact inv.feed hprogress hphase
  | abort _ hphase =>
    simp only [Progress, hphase] at hprogress
    exact inv.put (quiet_same rfl rfl rfl) rfl ⟨hprogress.1, .inl rfl⟩
  | close => exact inv.put (quiet_gone rfl rfl rfl) rfl (progress_finished rfl)

theorem hold_marks (now : ℤ) (rows : ℕ) (row : Publication) : SameMarks row (hold s now rows row) :=
  ⟨rfl, rfl, rfl⟩

theorem requeue_marks (now : ℤ) (row : Publication) : SameMarks row (requeue now row) :=
  ⟨rfl, rfl, rfl⟩

theorem FeedInv.claim (inv : FeedInv q) {row held : Publication} (hrow : q.row = some row)
    (hsame : SameMarks row held) {id : ℕ} {instanceId : String}
    (h : q.claim id instanceId held = some q') : FeedInv q' := by
  unfold Publishing.claim at h
  split_ifs at h
  rw [← Option.some.inj h]
  refine inv.quiet ⟨fun row' hrow' => ?_, rfl, rfl⟩ fun b hb => ?_
  · obtain rfl := Option.some.inj hrow'
    exact ⟨row, hrow, hsame⟩
  · rcases List.mem_append.mp hb with hold | hnew
    · exact .inl hold
    · obtain rfl := List.mem_singleton.mp hnew
      exact .inr ((progress_before rfl).mpr rfl)

/-- Every step of a publication keeps what has been fed and what the attempts say of it. -/
theorem step_inv (inv : FeedInv q) (h : publicationStep s q act q') : FeedInv q' := by
  cases publishing_cases h with
  | @publishNow id instanceId now row _ hrow hclaim =>
    exact inv.claim hrow (hold_marks now 1 row) hclaim
  | @claimDue id instanceId rows now row _ hrow hclaim =>
    exact inv.claim hrow (hold_marks now rows row) hclaim
  | @requeue now dbNow row hrow =>
    refine inv.quiet ⟨fun row' hrow' => ?_, rfl, rfl⟩ fun b hb => .inl hb
    obtain rfl := Option.some.inj hrow'
    exact ⟨row, hrow, requeue_marks now row⟩
  | discard => exact inv.quiet (quiet_gone rfl rfl rfl) fun b hb => .inl hb
  | attempt _ hget hstep =>
    exact attemptStep_inv inv ((q.attempts.get_eq_some_iff _ _).mp hget).1 hstep

theorem start_inv {publication : Publication} (h : publication.projected = []) :
    FeedInv (Publishing.start publication) where
  once := List.nodup_nil
  marked row hrow step := by
    rw [← Option.some.inj hrow, h]
    rfl
  receipt hreceipt := absurd hreceipt (by simp [Publishing.start])
  progress a ha := absurd ha (by simp [Publishing.start, Table.empty])

theorem commitStep_isSome (step : ProjectionStep) :
    (q.commitStep step).row.isSome = q.row.isSome := by
  unfold Publishing.commitStep
  split
  · rfl
  · next marked hfirst =>
    obtain ⟨before, hrow, _, _⟩ := firstPass_eq_some hfirst
    rw [hrow]
    rfl

theorem runAction_isSome (action : Action) (commits : Bool) :
    (q.runAction action commits).row.isSome = q.row.isSome := by
  unfold Publishing.runAction
  split
  · rfl
  · split_ifs
    · exact commitStep_isSome _
    · rfl

theorem attemptStep_isSome (h : attemptStep s q a act = some q') :
    q'.row.isSome = q.row.isSome ∨ ∃ id, act = .close id ∧ a.phase = .closing ∧ q'.row = none := by
  cases attemptStep_cases h with
  | close id hphase => exact .inr ⟨id, rfl, hphase, rfl⟩
  | feed _ commits => exact .inl (runAction_isSome _ commits)
  | handBack | writeOff | recordFailure | renewLease | stamp => exact .inl Option.isSome_map
  | _ => exact .inl rfl

/-- A row that is gone is never written again. -/
theorem step_gone (hgone : q.row = none) (h : publicationStep s q act q') : q'.row = none := by
  cases publishing_cases h with
  | publishNow _ _ _ hrow | claimDue _ _ _ _ hrow | requeue _ _ hrow =>
    rw [hgone] at hrow
    cases hrow
  | discard => rfl
  | attempt _ _ hstep =>
    rcases attemptStep_isSome hstep with hkeeps | ⟨_, _, _, hnone⟩
    · rw [hgone] at hkeeps
      exact Option.not_isSome_iff_eq_none.mp (by rw [hkeeps]; simp)
    · exact hnone

theorem step_closes (inv : FeedInv q) {row : Publication} (hrow : q.row = some row)
    (h : publicationStep s q act q') (hgone : q'.row = none) :
    (∃ dbNow, act = .discard dbNow) ∨
      ∃ id a, act = .close id ∧ q.attempts.get id = some a ∧ Ran a ∧ ReceiptSettled q := by
  cases publishing_cases h with
  | discard dbNow => exact .inl ⟨dbNow, rfl⟩
  | publishNow _ _ _ _ hclaim | claimDue _ _ _ _ _ hclaim =>
    rw [Publishing.claim] at hclaim
    split_ifs at hclaim
    rw [← Option.some.inj hclaim] at hgone
    exact absurd hgone (by simp)
  | requeue => exact absurd hgone (by simp)
  | @attempt _ _ a _ hid hget hstep =>
    right
    rcases attemptStep_isSome hstep with hkeeps | ⟨id, rfl, hphase, _⟩
    · rw [hgone, hrow] at hkeeps
      exact absurd hkeeps (by simp)
    · obtain rfl := Option.some.inj hid
      have hprogress := inv.progress a ((q.attempts.get_eq_some_iff id a).mp hget).1
      simp only [Progress, hphase] at hprogress
      exact ⟨id, a, rfl, hget, hprogress.resolve_left (by simp [hrow])⟩

/-- Whatever the attempts, the crashes, the requeues and the discards of a publication, each marked
step is fed at most once, and the row goes, never to come back, with a discard or with an attempt
that found it when its projection began and ran every action of its outcome, unless an exception
that is swallowed cut it short. -/
theorem derived_feed_once {publication : Publication} (hfresh : publication.projected = [])
    {acts : List Act} (h : Runs (publicationStep s) (Publishing.start publication) acts q) :
    q.fed.count .assets ≤ 1 ∧ q.fed.count .findings ≤ 1 ∧
    (∀ act q', q.row.isSome = true → publicationStep s q act q' → q'.row = none →
      (∃ dbNow, act = .discard dbNow) ∨
        ∃ id a, act = .close id ∧ q.attempts.get id = some a ∧ Ran a ∧ ReceiptSettled q) ∧
    (q.row = none → ∀ later q', Runs (publicationStep s) q later q' → q'.row = none) := by
  have inv : FeedInv q := h.invariant FeedInv
    (fun _ _ _ inv hstep => step_inv inv hstep) (start_inv hfresh)
  refine ⟨List.nodup_iff_count_le_one.mp inv.once _, List.nodup_iff_count_le_one.mp inv.once _,
    fun act q' hsome hstep hgone => ?_, fun hgone later q' hlater => ?_⟩
  · obtain ⟨row, hrow⟩ := Option.isSome_iff_exists.mp hsome
    exact step_closes inv hrow hstep hgone
  · exact hlater.invariant (fun q => q.row = none) (fun _ _ _ hgone hstep => step_gone hgone hstep)
      hgone

end Steps

section Swallowed

def publisher : Settings := ⟨30, 5, 10, 300, 3600⟩

def owed (status : Status) : Publication := newPublication "lease-1" status "api-1" 0

def publishing (status : Status) (acts : List Act) : Publishing :=
  runFrom (Publishing.step publisher) (Publishing.start (owed status)) acts

theorem publishing_runs {status : Status} {acts : List Act}
    (h : (acts.foldlM (Publishing.step publisher) (Publishing.start (owed status))).isSome = true) :
    Runs (publicationStep publisher) (Publishing.start (owed status)) acts
      (publishing status acts) :=
  Runs.runFrom (Publishing.step publisher) h

def published (id : ℕ) : List Act :=
  [.publishNow id "api-1" 0, .put id "summary.json", .finishUpload id, .stamp id 0, .announce id,
    .project id]

/-- The first action of a failed run's projection raises, and the row is closed all the same. -/
def swallowed : List Act := published 1 ++ [.abort 1, .feed 1 true, .checkReceipt 1]

/-- The row is closed by an attempt whose projection has run nothing. -/
theorem swallowed_projection_closes :
    Runs (publicationStep publisher) (Publishing.start (owed .failed)) swallowed
      (publishing .failed swallowed) ∧
    ((publishing .failed swallowed).row.isSome = true ∧
      ((publishing .failed swallowed).attempts.get 1).map Attempt.ran = some [] ∧
      actionsFor .failed = [.scopeDenials, .verification]) ∧
    (publishing .failed (swallowed ++ [.close 1])).row = none :=
  ⟨publishing_runs (by decide +kernel), by decide +kernel, by decide +kernel⟩

/-- The hold of the first attempt lapses as it is about to close, and a peer feeds the run again. -/
def twice : List Act :=
  published 1 ++ List.replicate 7 (.feed 1 true) ++
    [.checkReceipt 1, .claimDue 2 "api-1" 1 60000000, .foundStored 2, .announce 2, .project 2] ++
    List.replicate 7 (.feed 2 true)

theorem fed_twice_closes_once :
    (publishing .succeeded twice).fed.count .assets ≤ 1 ∧
    ∃ a, (publishing .succeeded twice).attempts.get 1 = some a ∧ Ran a := by
  have hrun : Runs (publicationStep publisher) (Publishing.start (owed .succeeded)) twice
      (publishing .succeeded twice) := publishing_runs (by decide +kernel)
  have hstep : publicationStep publisher (publishing .succeeded twice) (.close 1)
      (runFrom (Publishing.step publisher) (publishing .succeeded twice) [.close 1]) :=
    (Runs.runFrom (Publishing.step publisher) (by decide +kernel)).of_one
  obtain ⟨hassets, _, hcloses, _⟩ := derived_feed_once (by rfl) hrun
  refine ⟨hassets, ?_⟩
  rcases hcloses _ _ (by decide +kernel) hstep (by decide +kernel) with ⟨dbNow, hact⟩ | hclose
  · exact absurd hact (by simp)
  · obtain ⟨id, a, hact, hget, hran, _⟩ := hclose
    obtain rfl : 1 = id := by simpa using hact
    exact ⟨a, hget, hran⟩

end Swallowed

end Shapoclyack.DerivedFeed
