import Mathlib.Data.Int.Notation
import Shapoclyack.RollbackFence

set_option autoImplicit false

namespace Shapoclyack.ClaimAccounting

open RunPublications RollbackFence Library

section Books

variable (s : Settings)

/-- A hand-back whose transaction has read the row, and not written it yet. -/
structure HandingBack where
  id : ℕ
  base : ℕ
  now : ℤ
deriving DecidableEq

/-- A publication with the hand-backs under way, and the claims since the last recorded outcome or
requeue that were not handed back. -/
structure Accounts where
  publishing : Publishing
  handing : List HandingBack
  outstanding : List ℕ

def Accounts.start (row : Publication) : Accounts :=
  ⟨Publishing.start row, [], []⟩

/-- What an act is to the books. -/
inductive Entry where
  | claimed (id : ℕ)
  | recorded
  | requeued
  | unrelated
deriving DecidableEq

def entry : Act → Entry
  | .publishNow id _ _ => .claimed id
  | .claimDue id _ _ _ => .claimed id
  | .handBack _ _ => .recorded
  | .writeOff _ _ => .recorded
  | .recordFailure _ _ => .recorded
  | .requeue _ _ => .requeued
  | _ => .unrelated

def Entry.outstanding (claims : List ℕ) : Entry → List ℕ
  | .claimed id => id :: claims
  | .recorded => []
  | .requeued => []
  | .unrelated => claims

inductive Move where
  | act (act : Act)
  /-- `_give_back` reads the row, without locking it. -/
  | readBase (id : ℕ) (now : ℤ)
  /-- Its transaction commits. -/
  | writeBase (id : ℕ)

/-- A hand-back is one act only where it ends an orphaned row, under the lock of the failure. -/
def atOnce (q : Publishing) : Act → Bool
  | .handBack id now => (q.attempts.get id).any fun a => isOrphaned s now a.snapshot
  | _ => true

def HandingBack.write (h : HandingBack) (row : Publication) : Publication :=
  { row with
    nextAttemptAt := some (after h.now (adoptionSeconds s))
    claimsBase := h.base + 1 }

def Accounts.step (x : Accounts) : Move → Option Accounts
  | .act act =>
    if atOnce s x.publishing act then
      (x.publishing.step s act).map fun q =>
        { x with
          publishing := q
          outstanding := (entry act).outstanding x.outstanding }
    else none
  | .readBase id now =>
    match x.publishing.attempts.get id with
    | none => none
    | some a =>
      if a.phase = .held ∧ foreign a.instanceId a.snapshot = true ∧
          isOrphaned s now a.snapshot = false then
        let read := x.publishing.row.map fun row => HandingBack.mk id row.claimsBase now
        some { x with
          publishing := x.publishing.moved a .ended
          handing := read.toList ++ x.handing }
      else none
  | .writeBase id =>
    match x.handing.find? (fun h => h.id == id) with
    | none => none
    | some h =>
      some {
        publishing := { x.publishing with row := x.publishing.row.map (h.write s) }
        handing := x.handing.filter fun other => other.id != id
        outstanding := x.outstanding.erase id }

/-- A hand-back finds the base it has read, and a claim left to take off the budget. -/
def inPlace (x : Accounts) : Move → Prop
  | .writeBase id => ∀ h ∈ x.handing, h.id = id → ∀ row, x.publishing.row = some row →
      row.claimsBase = h.base ∧ row.claimsBase < row.claims
  | _ => True

/-- The claims on the budget are some of those outstanding. -/
def Balanced (x : Accounts) : Prop :=
  ∀ row, x.publishing.row = some row →
    0 ≤ (row.claims : ℤ) - row.claimsBase ∧
      (row.claims : ℤ) - row.claimsBase ≤ x.outstanding.length

end Books

section Effects

variable {s : Settings} {q q' : Publishing} {a : Attempt} {act : Act}

def Effect (row row' : Publication) : Entry → Prop
  | .claimed _ => row'.claims = row.claims + 1 ∧ row'.fence = row.fence + 1 ∧
      row'.claimsBase = if row.claims < row.claimsBase then 0 else row.claimsBase
  | .recorded => row'.claims = row.claims ∧ row'.fence = row.fence ∧ row'.claimsBase = row.claims
  | .requeued => row'.claims = row.claims ∧ row'.fence = row.fence + 1 ∧
      row'.claimsBase = row.claims
  | .unrelated => row'.claims = row.claims ∧ row'.fence = row.fence ∧
      row'.claimsBase = row.claimsBase

def Effective (q q' : Publishing) (e : Entry) : Prop :=
  ∀ row', q'.row = some row' → ∃ row, q.row = some row ∧ Effect row row' e

theorem effective_same (h : q'.row = q.row) : Effective q q' .unrelated :=
  fun row' hrow' => ⟨row', h ▸ hrow', rfl, rfl, rfl⟩

theorem effective_gone (h : q'.row = none) (e : Entry) : Effective q q' e := by
  intro row' hrow'
  rw [h] at hrow'
  cases hrow'

theorem effective_map {f : Publication → Publication} {e : Entry} (h : q'.row = q.row.map f)
    (hf : ∀ row, Effect row (f row) e) : Effective q q' e := by
  intro row' hrow'
  rw [h] at hrow'
  cases hrow : q.row with
  | none =>
    rw [hrow] at hrow'
    cases hrow'
  | some row =>
    rw [hrow] at hrow'
    exact ⟨row, rfl, Option.some.inj hrow' ▸ hf row⟩

theorem recordFailure_effect (final : Bool) (reason : String) (now : ℤ) (row : Publication) :
    Effect row (recordFailure s final reason now row) .recorded := by
  unfold recordFailure
  simp only
  split_ifs <;> exact ⟨rfl, rfl, rfl⟩

theorem renew_effect (fence : ℕ) (lease : Lease) (now dbNow : ℤ) (row : Publication) :
    Effect row (renew s fence lease now dbNow row) .unrelated := by
  unfold renew
  simp only
  split_ifs <;> exact ⟨rfl, rfl, rfl⟩

theorem commitStep_effect (step : ProjectionStep) : Effective q (q.commitStep step) .unrelated := by
  cases hfirst : firstPass step q.row with
  | none =>
    refine effective_same ?_
    rw [Publishing.commitStep, hfirst]
  | some marked =>
    have hmarked : (q.commitStep step).row = some marked := by
      rw [Publishing.commitStep, hfirst]
    intro row' hrow'
    rw [hmarked] at hrow'
    cases hrow'
    cases hrow : q.row with
    | none =>
      rw [hrow] at hfirst
      cases hfirst
    | some row =>
      rw [hrow, firstPass] at hfirst
      split_ifs at hfirst
      rw [← Option.some.inj hfirst]
      exact ⟨row, rfl, rfl, rfl, rfl⟩

theorem runAction_effect (action : Action) (commits : Bool) :
    Effective q (q.runAction action commits) .unrelated := by
  unfold Publishing.runAction
  split
  · exact effective_same rfl
  · split_ifs
    · exact commitStep_effect _
    · exact effective_same rfl

theorem attemptStep_effect (h : attemptStep s q a act = some q')
    (hatOnce : ∀ id now, act = .handBack id now → isOrphaned s now a.snapshot = true) :
    Effective q q' (entry act) := by
  cases attemptStep_cases h with
  | moved hmoves => cases hmoves <;> exact effective_same rfl
  | handBack id now =>
    refine effective_map (f := giveBack s a.snapshot now) rfl fun row => ?_
    rw [giveBack, if_pos (hatOnce id now rfl)]
    exact recordFailure_effect true _ now row
  | writeOff _ now => exact effective_map rfl (recordFailure_effect true _ now)
  | recordFailure _ reason final now =>
    exact effective_map rfl (recordFailure_effect final reason now)
  | renewLease _ lease now dbNow =>
    exact effective_map rfl (renew_effect a.snapshot.fence lease now dbNow)
  | stamp _ now => exact effective_map (f := markStored now) rfl fun _ => ⟨rfl, rfl, rfl⟩
  | close => exact effective_gone rfl _
  | feed _ commits => exact runAction_effect _ commits
  | refused | put | takeBack | project | abort => exact effective_same rfl

theorem claim_effect {id : ℕ} {instanceId : String} {rows : ℕ} {now : ℤ} {row : Publication}
    (hrow : q.row = some row) (h : q.claim id instanceId (hold s now rows row) = some q') :
    Effective q q' (.claimed id) := by
  unfold Publishing.claim at h
  split_ifs at h
  rw [← Option.some.inj h]
  intro row' hrow'
  cases hrow'
  exact ⟨row, hrow, rfl, rfl, rfl⟩

theorem step_effect (h : q.step s act = some q') (hatOnce : atOnce s q act = true) :
    Effective q q' (entry act) := by
  cases publishing_cases h with
  | publishNow _ _ _ hrow hclaim => exact claim_effect hrow hclaim
  | claimDue _ _ _ _ hrow hclaim => exact claim_effect hrow hclaim
  | @requeue now dbNow row hrow =>
    intro row' hrow'
    cases hrow'
    exact ⟨row, hrow, rfl, rfl, rfl⟩
  | discard => exact effective_gone rfl _
  | attempt hid hget hstep =>
    refine attemptStep_effect hstep fun id now heq => ?_
    cases heq
    cases hid
    rw [atOnce, hget] at hatOnce
    exact hatOnce

theorem Effective.fence {e : Entry} (h : Effective q q' e) {row row' : Publication}
    (hrow : q.row = some row) (hrow' : q'.row = some row') : row.fence ≤ row'.fence := by
  have ⟨before, hbefore, heffect⟩ := h row' hrow'
  cases hrow.symm.trans hbefore
  cases e with
  | claimed id =>
    have := heffect.2.1
    omega
  | recorded => exact heffect.2.1.ge
  | requeued =>
    have := heffect.2.1
    omega
  | unrelated => exact heffect.2.1.ge

end Effects

section Provenance

variable {s : Settings} {q q' : Publishing} {a a' : Attempt} {act : Act} {id : ℕ}

theorem get_of_evolves (h : Evolves q q') (hget : q'.attempts.get id = some a') :
    ∃ a, q.attempts.get id = some a ∧ a.snapshot = a'.snapshot := by
  have ⟨hmem, hid⟩ := (q'.attempts.get_eq_some_iff id a').mp hget
  have ⟨a, ha, hev⟩ := h.attempts a' hmem
  refine ⟨a, (q.attempts.get_eq_some_iff id a).mpr ⟨ha, ?_⟩, hev.snapshot.symm⟩
  exact hev.id.symm.trans hid

theorem get_of_moved (ha : a ∈ q.attempts.rows) {phase : Phase}
    (hget : (q.moved a phase).attempts.get id = some a') :
    ∃ b, q.attempts.get id = some b ∧ b.snapshot = a'.snapshot := by
  have ⟨hmem, hid⟩ := ((q.moved a phase).attempts.get_eq_some_iff id a').mp hget
  cases Table.mem_put hmem with
  | inl heq =>
    refine ⟨a, (q.attempts.get_eq_some_iff id a).mpr ⟨ha, ?_⟩, by rw [heq]⟩
    rw [heq] at hid
    exact hid
  | inr hother =>
    exact ⟨a', (q.attempts.get_eq_some_iff id a').mpr ⟨hother.1, hid⟩, rfl⟩

theorem get_of_claim {claimant : ℕ} {instanceId : String} {held : Publication}
    (h : q.claim claimant instanceId held = some q') (hget : q'.attempts.get id = some a') :
    (∃ a, q.attempts.get id = some a ∧ a.snapshot = a'.snapshot) ∨
      (claimant = id ∧ q'.row = some a'.snapshot) := by
  unfold Publishing.claim at h
  split_ifs at h with hfresh
  rw [← Option.some.inj h] at hget ⊢
  rw [Table.get_append] at hget
  split_ifs at hget with hid
  · right
    rw [← Option.some.inj hget]
    exact ⟨hid, rfl⟩
  · exact .inl ⟨a', hget, rfl⟩

theorem step_snapshot (h : q.step s act = some q') (hget : q'.attempts.get id = some a') :
    (∃ a, q.attempts.get id = some a ∧ a.snapshot = a'.snapshot) ∨
      (entry act = .claimed id ∧ q'.row = some a'.snapshot) := by
  cases publishing_cases h with
  | publishNow _ _ _ _ hclaim | claimDue _ _ _ _ _ hclaim =>
    exact (get_of_claim hclaim hget).imp_right fun hnew =>
      ⟨congrArg Entry.claimed hnew.1, hnew.2⟩
  | requeue | discard => exact .inl ⟨a', hget, rfl⟩
  | @attempt _ taker a _ _ hfound hstep =>
    have ha := ((q.attempts.get_eq_some_iff taker a).mp hfound).1
    by_cases hask : ∃ asker, act = .ask asker
    · obtain ⟨asker, rfl⟩ := hask
      cases attemptStep_cases hstep with
      | refused => exact .inl ⟨a', hget, rfl⟩
      | moved => exact .inl (get_of_moved ha hget)
    · exact .inl (get_of_evolves
        (attemptStep_evolves ha (fun asker heq => hask ⟨asker, heq⟩) hstep) hget)

end Provenance

section Accounting

variable {s : Settings} {x x' : Accounts} {move : Move}

theorem step_act {act : Act} (h : x.step s (.act act) = some x') :
    atOnce s x.publishing act = true ∧
      x.publishing.step s act = some x'.publishing ∧
      x'.outstanding = (entry act).outstanding x.outstanding := by
  simp only [Accounts.step] at h
  split_ifs at h with hatOnce
  cases hstep : x.publishing.step s act with
  | none =>
    rw [hstep] at h
    cases h
  | some q =>
    rw [hstep] at h
    rw [← Option.some.inj h]
    exact ⟨hatOnce, rfl, rfl⟩

theorem step_readBase {id : ℕ} {now : ℤ} (h : x.step s (.readBase id now) = some x') :
    ∃ a ∈ x.publishing.attempts.rows, x'.publishing = x.publishing.moved a .ended ∧
      x'.outstanding = x.outstanding := by
  simp only [Accounts.step] at h
  split at h
  · cases h
  · next a hget =>
    split_ifs at h
    rw [← Option.some.inj h]
    exact ⟨a, ((x.publishing.attempts.get_eq_some_iff id a).mp hget).1, rfl, rfl⟩

theorem step_writeBase {id : ℕ} (h : x.step s (.writeBase id) = some x') :
    ∃ handing ∈ x.handing, handing.id = id ∧
      x'.publishing = { x.publishing with row := x.publishing.row.map (handing.write s) } ∧
      x'.outstanding = x.outstanding.erase id := by
  simp only [Accounts.step] at h
  split at h
  · cases h
  · next handing hfind =>
    rw [← Option.some.inj h]
    refine ⟨handing, List.mem_of_find?_eq_some hfind, ?_, rfl, rfl⟩
    exact beq_iff_eq.mp (List.find?_some (p := fun h : HandingBack => h.id == id) hfind)

/-- One case for each kind of entry: a claim counts on both sides, an outcome and a requeue empty
both. -/
theorem Effect.balanced {e : Entry} {row row' : Publication} {claims : List ℕ}
    (h : Effect row row' e)
    (hrow : 0 ≤ (row.claims : ℤ) - row.claimsBase ∧
      (row.claims : ℤ) - row.claimsBase ≤ claims.length) :
    0 ≤ (row'.claims : ℤ) - row'.claimsBase ∧
      (row'.claims : ℤ) - row'.claimsBase ≤ (e.outstanding claims).length := by
  cases e with
  | claimed id =>
    have ⟨hclaims, _, hbase⟩ := h
    rw [if_neg (by omega)] at hbase
    rw [hclaims, hbase, Entry.outstanding, List.length_cons]
    omega
  | recorded =>
    have ⟨hclaims, _, hbase⟩ := h
    rw [hclaims, hbase, Entry.outstanding]
    omega
  | requeued =>
    have ⟨hclaims, _, hbase⟩ := h
    rw [hclaims, hbase, Entry.outstanding]
    omega
  | unrelated =>
    have ⟨hclaims, _, hbase⟩ := h
    rw [hclaims, hbase]
    exact hrow

theorem length_erase_ge (claims : List ℕ) (id : ℕ) :
    claims.length ≤ (claims.erase id).length + 1 := by
  rw [List.length_erase]
  split_ifs <;> omega

/-- A step that hands back only what is on the budget keeps the accounts balanced. -/
theorem Balanced.step (inv : Balanced x) (hplace : inPlace x move) (h : x.step s move = some x') :
    Balanced x' := by
  intro row' hrow'
  cases move with
  | act act =>
    have ⟨hatOnce, hstep, houtstanding⟩ := step_act h
    have ⟨row, hrow, heffect⟩ := step_effect hstep hatOnce row' hrow'
    rw [houtstanding]
    exact heffect.balanced (inv row hrow)
  | readBase id now =>
    have ⟨a, _, hpublishing, houtstanding⟩ := step_readBase h
    rw [houtstanding]
    rw [hpublishing] at hrow'
    exact inv row' hrow'
  | writeBase id =>
    have ⟨handing, hmem, hid, hpublishing, houtstanding⟩ := step_writeBase h
    rw [hpublishing] at hrow'
    cases hrow : x.publishing.row with
    | none =>
      simp only [hrow] at hrow'
      cases hrow'
    | some row =>
      simp only [hrow] at hrow'
      have ⟨hbase, hlt⟩ := hplace handing hmem hid row hrow
      have ⟨hlow, hhigh⟩ := inv row hrow
      have hlength := length_erase_ge x.outstanding id
      rw [← Option.some.inj hrow', houtstanding, HandingBack.write]
      simp only
      omega

theorem step_row (h : x.step s move = some x') {row row' : Publication}
    (hrow : x.publishing.row = some row) (hrow' : x'.publishing.row = some row') :
    row.fence ≤ row'.fence := by
  cases move with
  | act act =>
    have ⟨hatOnce, hstep, _⟩ := step_act h
    exact (step_effect hstep hatOnce).fence hrow hrow'
  | readBase id now =>
    have ⟨a, _, hpublishing, _⟩ := step_readBase h
    rw [hpublishing] at hrow'
    cases hrow.symm.trans hrow'
    exact le_refl _
  | writeBase id =>
    have ⟨handing, _, _, hpublishing, _⟩ := step_writeBase h
    rw [hpublishing] at hrow'
    simp only [hrow] at hrow'
    rw [← Option.some.inj hrow']
    exact le_refl _

def Move.entry : Move → Entry
  | .act taken => ClaimAccounting.entry taken
  | _ => .unrelated

theorem step_fence (h : x.step s move = some x') {row row' : Publication}
    (hrow : x.publishing.row = some row) (hrow' : x'.publishing.row = some row')
    (hmove : (∃ id, move.entry = .claimed id) ∨ move.entry = .requeued) :
    row.fence < row'.fence := by
  cases move with
  | act act =>
    have ⟨hatOnce, hstep, _⟩ := step_act h
    have ⟨before, hbefore, heffect⟩ := step_effect hstep hatOnce row' hrow'
    cases hrow.symm.trans hbefore
    cases hmove with
    | inl hclaimed =>
      have ⟨id, hentry⟩ := hclaimed
      rw [show entry act = .claimed id from hentry] at heffect
      have := heffect.2.1
      omega
    | inr hrequeued =>
      rw [show entry act = .requeued from hrequeued] at heffect
      have := heffect.2.1
      omega
  | readBase | writeBase => simp [Move.entry] at hmove

theorem step_begun (h : x.step s move = some x') {id : ℕ} {a' : Attempt}
    (hget : x'.publishing.attempts.get id = some a') :
    (∃ a, x.publishing.attempts.get id = some a ∧ a.snapshot = a'.snapshot) ∨
      (move.entry = .claimed id ∧ x'.publishing.row = some a'.snapshot) := by
  cases move with
  | act act => exact step_snapshot (step_act h).2.1 hget
  | readBase other now =>
    have ⟨a, ha, hpublishing, _⟩ := step_readBase h
    rw [hpublishing] at hget
    exact .inl (get_of_moved ha hget)
  | writeBase other =>
    have ⟨handing, _, _, hpublishing, _⟩ := step_writeBase h
    rw [hpublishing] at hget
    exact .inl ⟨a', hget, rfl⟩

abbrev accountStep (s : Settings) : Accounts → Move → Accounts → Prop := ofStep (Accounts.step s)

theorem start_balanced (publicationId : String) (jobStatus : JobStates.Status)
    (instanceId : String) (now : ℤ) :
    Balanced (Accounts.start (newPublication publicationId jobStatus instanceId now)) := by
  intro row hrow
  rw [← Option.some.inj hrow]
  exact ⟨le_refl _, le_refl _⟩

theorem begun_by {ok : Accounts → Move → Prop} {moves : List Move}
    (h : Runs (guarded (accountStep s) ok) x moves x') {id : ℕ} {a : Attempt}
    (hget : x'.publishing.attempts.get id = some a) :
    (∃ b, x.publishing.attempts.get id = some b ∧ b.snapshot = a.snapshot) ∨
      ∃ earlier claim later u w, moves = earlier ++ claim :: later ∧
        Runs (guarded (accountStep s) ok) x earlier u ∧
        guarded (accountStep s) ok u claim w ∧
        Runs (guarded (accountStep s) ok) w later x' ∧
        claim.entry = .claimed id ∧ w.publishing.row = some a.snapshot := by
  induction h with
  | refl y => exact .inl ⟨a, hget, rfl⟩
  | @next y u v move rest hstep htail ih =>
    cases ih hget with
    | inl hheld =>
      have ⟨b, hb, hsnapshot⟩ := hheld
      cases step_begun hstep.2 hb with
      | inl hbefore =>
        have ⟨c, hc, hcb⟩ := hbefore
        exact .inl ⟨c, hc, hcb.trans hsnapshot⟩
      | inr hclaimed =>
        rw [hsnapshot] at hclaimed
        exact .inr ⟨[], move, rest, y, u, rfl, .refl y, hstep, htail, hclaimed⟩
    | inr hlater =>
      have ⟨earlier, claim, later, z, w, hmoves, hearlier, hrest⟩ := hlater
      exact .inr ⟨move :: earlier, claim, later, z, w, by rw [hmoves, List.cons_append],
        .next hstep hearlier, hrest⟩

theorem writeOff_spent {id : ℕ} {now : ℤ} (h : x.step s (.act (.writeOff id now)) = some x') :
    ∃ a, x.publishing.attempts.get id = some a ∧ claimsSpent s a.snapshot = true := by
  have hstep := (step_act h).2.1
  generalize x'.publishing = q at hstep
  cases publishing_cases hstep with
  | @attempt _ _ a _ hid hget hstep =>
    cases hid
    cases attemptStep_cases hstep with
    | moved hmoves => cases hmoves
    | writeOff _ _ hspent => exact ⟨a, hget, hspent⟩

/-- While a hand-back lands only on the base it has read, with a claim left on the budget: the
claims on the budget are among those since the last outcome or requeue that were not handed back,
the fence grows with every claim and requeue, and a publication is written off unattempted only
after a claim that left more of them outstanding than the budget. -/
theorem claims_accounted {publicationId instanceId : String} {jobStatus : JobStates.Status}
    {created : ℤ} {moves : List Move}
    (h : Runs (guarded (accountStep s) inPlace)
      (Accounts.start (newPublication publicationId jobStatus instanceId created)) moves x) :
    Balanced x ∧
      (∀ move x' row row', accountStep s x move x' → x.publishing.row = some row →
        x'.publishing.row = some row' → row.fence ≤ row'.fence ∧
          ((∃ id, move.entry = .claimed id) ∨ move.entry = .requeued → row.fence < row'.fence)) ∧
      ∀ id now x', accountStep s x (.act (.writeOff id now)) x' →
        ∃ earlier claim later u w, moves = earlier ++ claim :: later ∧
          Runs (guarded (accountStep s) inPlace)
            (Accounts.start (newPublication publicationId jobStatus instanceId created)) earlier u ∧
          accountStep s u claim w ∧ Runs (guarded (accountStep s) inPlace) w later x ∧
          claim.entry = .claimed id ∧ max (2 * s.maxAttempts) 4 < w.outstanding.length := by
  have hbalanced : ∀ {moves : List Move} {y : Accounts}, Runs (guarded (accountStep s) inPlace)
      (Accounts.start (newPublication publicationId jobStatus instanceId created)) moves y →
      Balanced y := fun hruns =>
    hruns.invariant Balanced (fun _ _ _ inv hstep => inv.step hstep.1 hstep.2)
      (start_balanced publicationId jobStatus instanceId created)
  refine ⟨hbalanced h, fun move x' row row' hstep hrow hrow' => ?_, fun id now x' hstep => ?_⟩
  · exact ⟨step_row hstep hrow hrow', step_fence hstep hrow hrow'⟩
  · obtain ⟨a, hget, hspent⟩ := writeOff_spent hstep
    cases begun_by h hget with
    | inl hstart =>
      obtain ⟨b, hb, _⟩ := hstart
      exact absurd hb (by simp [Accounts.start, Publishing.start, Table.empty, Table.get])
    | inr hclaim =>
      obtain ⟨earlier, claim, later, u, w, hmoves, hearlier, hclaimed, hlater, hentry, hrow⟩ :=
          hclaim
      refine ⟨earlier, claim, later, u, w, hmoves, hearlier, hclaimed.2, hlater, hentry, ?_⟩
      obtain ⟨hlow, hhigh⟩ := hbalanced (hearlier.trans (Runs.one hclaimed)) a.snapshot hrow
      have hbudget : max (2 * s.maxAttempts) 4 < a.snapshot.claims - a.snapshot.claimsBase :=
        of_decide_eq_true hspent
      omega

end Accounting

section LateHandBack

def twice : Settings := ⟨30, 2, 10, 300, 3600⟩

def books (moves : List Move) : Accounts :=
  runFrom (Accounts.step twice) (Accounts.start upload) moves

theorem books_runs {moves : List Move}
    (h : (moves.foldlM (Accounts.step twice) (Accounts.start upload)).isSome = true) :
    Runs (accountStep twice) (Accounts.start upload) moves (books moves) :=
  Runs.runFrom (Accounts.step twice) h

def adopted : List Move := [.act (.claimDue 1 "api-2" 1 400000000), .readBase 1 401000000]

/-- It hands the row back only after three more claims, the last of which recorded a failure. -/
def overtakenHandBack : List Move :=
  [.act (.claimDue 1 "api-2" 1 400000000), .act (.claimDue 2 "api-2" 1 500000000),
    .act (.claimDue 3 "api-2" 1 600000000), .act (.claimDue 4 "api-3" 1 700000000),
    .act (.raise 4 "the store refused the tree" false), .act (.recordFailure 4 701000000),
    .readBase 1 720000000, .writeBase 1]

def nextClaim : Move := .act (.claimDue 5 "api-2" 1 1100000000)

/-- A hand-back after a peer's failure takes the base past the claims, and the next claim puts the
base back to zero: it is written off unattempted with one claim outstanding. -/
theorem late_hand_back_spends_budget :
    Runs (accountStep twice) (Accounts.start upload) overtakenHandBack (books overtakenHandBack) ∧
    ¬ Balanced (books overtakenHandBack) ∧
    Runs (accountStep twice) (books overtakenHandBack) [nextClaim]
      (books (overtakenHandBack ++ [nextClaim])) ∧
    (books (overtakenHandBack ++ [nextClaim])).outstanding = [5] ∧
    ∃ x', accountStep twice (books (overtakenHandBack ++ [nextClaim]))
      (.act (.writeOff 5 1101000000)) x' := by
  refine ⟨books_runs (by decide +kernel), fun hbalanced => ?_, Runs.one rfl, by decide +kernel,
    _, rfl⟩
  have hcounts : (books overtakenHandBack).publishing.row.map
      (fun row => (row.claims, row.claimsBase)) = some (4, 5) := by decide +kernel
  cases hrow : (books overtakenHandBack).publishing.row with
  | none =>
    rw [hrow] at hcounts
    cases hcounts
  | some row =>
    rw [hrow, Option.map_some, Option.some.injEq, Prod.mk.injEq] at hcounts
    have hlow := (hbalanced row hrow).1
    omega

theorem prompt_hand_back_balanced : Balanced (books (adopted ++ [.writeBase 1])) := by
  have hadopted : Runs (guarded (accountStep twice) inPlace) (Accounts.start upload) adopted
      (books adopted) := by
    refine Runs.of_runFrom (Accounts.step twice) inPlace ?_ (by decide +kernel)
    intro move hmove y
    rcases List.mem_cons.mp hmove with rfl | hmove
    · trivial
    · rw [List.mem_singleton.mp hmove]
      trivial
  have hhanding : (books adopted).handing = [⟨1, 0, 401000000⟩] := by decide +kernel
  have hcounts : (books adopted).publishing.row.map
      (fun row => (row.claimsBase, row.claims)) = some (0, 1) := by decide +kernel
  have hplace : inPlace (books adopted) (.writeBase 1) := by
    intro h hmem _ row hrow
    rw [hhanding, List.mem_singleton] at hmem
    rw [hrow, Option.map_some, Option.some.injEq, Prod.mk.injEq] at hcounts
    rw [hmem]
    exact ⟨hcounts.1, by omega⟩
  exact (claims_accounted (hadopted.trans (Runs.one ⟨hplace, rfl⟩))).1

end LateHandBack

end Shapoclyack.ClaimAccounting
