import Shapoclyack.RunPublications

set_option autoImplicit false

namespace Shapoclyack.RollbackFence

open RunPublications Library

/-- Nobody claims the row between the moment an attempt is allowed to take its keys back and the
moment it has, and it is allowed to only once every earlier attempt is off the store. -/
def exclusive (q : Publishing) : Act → Prop
  | .publishNow _ _ _ => ∀ a ∈ q.attempts.rows, a.phase ≠ .permitted
  | .claimDue _ _ _ _ => ∀ a ∈ q.attempts.rows, a.phase ≠ .permitted
  | .ask id => ∀ a, q.attempts.get id = some a →
      ∀ b ∈ q.attempts.rows, b.snapshot.fence < a.snapshot.fence → b.live = false
  | _ => True

/-- An attempt that held the row before another, has not stored the run and is off the store. -/
structure Behind (b a : Attempt) : Prop where
  earlier : b.snapshot.fence < a.snapshot.fence
  unstamped : b.stamped = false
  idle : b.live = false

/-- What the fence and the claims keep: fences tell attempts apart and grow with the row's, a stamp
stays on the row, and all others are behind an attempt that may take its keys back. -/
structure FenceInv (q : Publishing) : Prop where
  bounded : ∀ a ∈ q.attempts.rows, ∀ row, q.row = some row → a.snapshot.fence ≤ row.fence
  apart : ∀ a ∈ q.attempts.rows, ∀ b ∈ q.attempts.rows,
    a.snapshot.fence = b.snapshot.fence → a.id = b.id
  stamped : ∀ a ∈ q.attempts.rows, a.stamped = true →
    ∀ row, q.row = some row → row.storedAt ≠ none
  permitted : ∀ a ∈ q.attempts.rows, a.phase = .permitted →
    ∀ b ∈ q.attempts.rows, b.id ≠ a.id → Behind b a

section Evolution

variable {s : Settings} {q q' : Publishing} {a a' : Attempt} {act : Act}

/-- What an attempt may become in a step that neither claims nor permits. -/
structure Evolved (q' : Publishing) (a a' : Attempt) : Prop where
  id : a'.id = a.id
  snapshot : a'.snapshot = a.snapshot
  live : a'.live = true → a.live = true
  stamped : a'.stamped = true → a.stamped = true ∨
    (a.live = true ∧ ∀ row, q'.row = some row → row.storedAt ≠ none)
  permitted : a'.phase = .permitted → a.phase = .permitted

theorem Evolved.refl (q' : Publishing) (a : Attempt) : Evolved q' a a :=
  ⟨rfl, rfl, fun h => h, .inl, fun h => h⟩

structure Evolves (q q' : Publishing) : Prop where
  row : ∀ row', q'.row = some row' → ∃ row, q.row = some row ∧ row.fence ≤ row'.fence ∧
    (row.storedAt ≠ none → row'.storedAt ≠ none)
  attempts : ∀ a' ∈ q'.attempts.rows, ∃ a ∈ q.attempts.rows, Evolved q' a a'

theorem FenceInv.evolve (inv : FenceInv q) (h : Evolves q q') : FenceInv q' where
  bounded a' ha' row' hrow' := by
    obtain ⟨a, ha, hev⟩ := h.attempts a' ha'
    obtain ⟨row, hrow, hfence, _⟩ := h.row row' hrow'
    rw [hev.snapshot]
    exact (inv.bounded a ha row hrow).trans hfence
  apart a' ha' b' hb' hfence := by
    obtain ⟨a, ha, hea⟩ := h.attempts a' ha'
    obtain ⟨b, hb, heb⟩ := h.attempts b' hb'
    rw [hea.snapshot, heb.snapshot] at hfence
    rw [hea.id, heb.id]
    exact inv.apart a ha b hb hfence
  stamped a' ha' hstamped row' hrow' := by
    obtain ⟨a, ha, hev⟩ := h.attempts a' ha'
    obtain ⟨row, hrow, _, hkept⟩ := h.row row' hrow'
    rcases hev.stamped hstamped with hbefore | ⟨_, hnow⟩
    · exact hkept (inv.stamped a ha hbefore row hrow)
    · exact hnow row' hrow'
  permitted a' ha' hpermitted b' hb' hne := by
    obtain ⟨a, ha, hea⟩ := h.attempts a' ha'
    obtain ⟨b, hb, heb⟩ := h.attempts b' hb'
    have hbehind := inv.permitted a ha (hea.permitted hpermitted) b hb
      (by rw [← hea.id, ← heb.id]; exact hne)
    refine ⟨?_, ?_, ?_⟩
    · rw [heb.snapshot, hea.snapshot]
      exact hbehind.earlier
    · -- an attempt off the store has nothing left to stamp
      by_contra hstamped
      rcases heb.stamped (by simpa using hstamped) with hbefore | ⟨hlive, _⟩
      · rw [hbehind.unstamped] at hbefore
        exact absurd hbefore (by decide)
      · rw [hbehind.idle] at hlive
        exact absurd hlive (by decide)
    · by_contra hlive
      have hbefore := heb.live (by simpa using hlive)
      rw [hbehind.idle] at hbefore
      exact absurd hbefore (by decide)

theorem evolves_put (ha : a ∈ q.attempts.rows) (hattempts : q'.attempts = q.attempts.put a')
    (hrow : ∀ row', q'.row = some row' → ∃ row, q.row = some row ∧ row.fence ≤ row'.fence ∧
      (row.storedAt ≠ none → row'.storedAt ≠ none))
    (hev : Evolved q' a a') : Evolves q q' := by
  refine ⟨hrow, fun b' hb' => ?_⟩
  rw [hattempts] at hb'
  rcases Table.mem_put hb' with rfl | ⟨hb, _⟩
  · exact ⟨a, ha, hev⟩
  · exact ⟨b', hb, Evolved.refl q' b'⟩

theorem row_kept (hrow : q'.row = q.row) :
    ∀ row', q'.row = some row' → ∃ row, q.row = some row ∧ row.fence ≤ row'.fence ∧
      (row.storedAt ≠ none → row'.storedAt ≠ none) := by
  intro row' h
  exact ⟨row', by rw [← hrow]; exact h, le_refl _, fun h => h⟩

theorem row_carried {f : Publication → Publication} (hf : ∀ row, Carried row (f row))
    (hrow : q'.row = q.row.map f) :
    ∀ row', q'.row = some row' → ∃ row, q.row = some row ∧ row.fence ≤ row'.fence ∧
      (row.storedAt ≠ none → row'.storedAt ≠ none) := by
  intro row' h
  rw [hrow] at h
  obtain ⟨row, hsome, rfl⟩ := Option.map_eq_some_iff.mp h
  exact ⟨row, hsome, (hf row).fence.ge, (hf row).stored⟩

theorem row_gone (hrow : q'.row = none) :
    ∀ row', q'.row = some row' → ∃ row, q.row = some row ∧ row.fence ≤ row'.fence ∧
      (row.storedAt ≠ none → row'.storedAt ≠ none) := by
  intro row' h
  rw [hrow] at h
  exact absurd h (by simp)

theorem commitStep_row (step : ProjectionStep) :
    ∀ row', (q.commitStep step).row = some row' → ∃ row, q.row = some row ∧
      row.fence ≤ row'.fence ∧ (row.storedAt ≠ none → row'.storedAt ≠ none) := by
  intro row' h
  unfold Publishing.commitStep at h
  split at h
  · exact ⟨row', h, le_refl _, fun h => h⟩
  · next marked hfirst =>
    obtain rfl := Option.some.inj h
    unfold firstPass at hfirst
    split at hfirst
    · simp at hfirst
    · next row hrow =>
      split at hfirst
      case isTrue => simp at hfirst
      case isFalse =>
        rw [← Option.some.inj hfirst]
        exact ⟨row, hrow, le_refl _, fun h => h⟩

theorem runAction_row (action : Action) (commits : Bool) :
    ∀ row', (q.runAction action commits).row = some row' → ∃ row, q.row = some row ∧
      row.fence ≤ row'.fence ∧ (row.storedAt ≠ none → row'.storedAt ≠ none) := by
  unfold Publishing.runAction
  split
  · exact row_kept rfl
  · next step _ =>
    split_ifs
    · exact commitStep_row step
    · exact row_kept rfl

def offStore : Phase → Bool
  | .held | .uploading | .uploaded | .permitted => false
  | _ => true

theorem off_evolved {phase : Phase} (h : offStore phase = true) :
    Evolved q' a { a with phase := phase } := by
  refine ⟨rfl, rfl, fun hlive => ?_, .inl, fun hpermitted => ?_⟩
  · cases phase <;> first | exact absurd h (by decide) | exact absurd hlive (by simp [Attempt.live])
  · rw [show phase = .permitted from hpermitted] at h
    exact absurd h (by decide)

theorem moved_off (ha : a ∈ q.attempts.rows) {phase : Phase} (h : offStore phase = true) :
    Evolves q (q.moved a phase) :=
  evolves_put ha rfl (row_kept rfl) (off_evolved h)

theorem marked_off (ha : a ∈ q.attempts.rows) {f : Publication → Publication}
    (hf : ∀ row, Carried row (f row)) {phase : Phase} (h : offStore phase = true) :
    Evolves q { q.moved a phase with row := q.row.map f } :=
  evolves_put ha rfl (row_carried hf rfl) (off_evolved h)

theorem live_of_phase (h : a.phase = .held ∨ a.phase = .uploading ∨ a.phase = .uploaded) :
    a.live = true := by
  rcases h with h | h | h <;> simp [Attempt.live, h]

theorem moves_evolves (ha : a ∈ q.attempts.rows) (hask : ∀ id, act ≠ .ask id) {phase : Phase}
    (h : Moves q a act phase) : Evolves q (q.moved a phase) := by
  cases h with
  | finishUpload id hphase =>
    exact evolves_put ha rfl (row_kept rfl)
      ⟨rfl, rfl, fun _ => live_of_phase (hphase.imp_right .inl), .inl, by simp⟩
  | permit id => exact absurd rfl (hask id)
  | _ => exact moved_off ha rfl

theorem stamp_evolves (ha : a ∈ q.attempts.rows) (hphase : a.phase = .uploaded) (now : ℤ) :
    Evolves q { q with
      row := q.row.map (markStored now)
      attempts := q.attempts.put { a with phase := .stored, stamped := q.row.isSome } } := by
  refine evolves_put ha rfl (row_carried (markStored_carried now) rfl)
    ⟨rfl, rfl, fun h => absurd h (by simp [Attempt.live]), fun _ => ?_, by simp⟩
  refine .inr ⟨live_of_phase (.inr (.inr hphase)), fun row hrow => ?_⟩
  obtain ⟨before, _, rfl⟩ := Option.map_eq_some_iff.mp hrow
  simp [markStored]

/-- Every step of an attempt but the permission is an evolution. -/
theorem attemptStep_evolves (ha : a ∈ q.attempts.rows) (hask : ∀ id, act ≠ .ask id)
    (h : attemptStep s q a act = some q') : Evolves q q' := by
  have hstill : ∀ {q'' : Publishing} (b : Attempt), b ∈ q.attempts.rows →
      ∃ c ∈ q.attempts.rows, Evolved q'' c b := fun b hb => ⟨b, hb, Evolved.refl _ b⟩
  cases attemptStep_cases h with
  | moved hmoves => exact moves_evolves ha hask hmoves
  | refused id => exact absurd rfl (hask id)
  | handBack _ now => exact marked_off ha (giveBack_carried s a.snapshot now) rfl
  | writeOff _ now => exact marked_off ha (recordFailure_carried s true _ now) rfl
  | recordFailure _ reason final now =>
    exact marked_off ha (recordFailure_carried s final reason now) rfl
  | renewLease _ lease now dbNow =>
    exact ⟨row_carried (renew_carried s a.snapshot.fence lease now dbNow) rfl, hstill⟩
  | put _ key hphase =>
    have hlive : a.live = true := live_of_phase (hphase.imp_right .inl)
    exact evolves_put ha rfl (row_kept rfl) ⟨rfl, rfl, fun _ => hlive, .inl, by simp⟩
  | takeBack _ keys => exact ⟨row_kept rfl, hstill⟩
  | stamp _ now hphase => exact stamp_evolves ha hphase now
  | feed _ commits =>
    exact evolves_put ha rfl (runAction_row _ commits)
      ⟨rfl, rfl, fun h => absurd h (by simp [Attempt.live]), .inl, by simp⟩
  | project | abort =>
    exact evolves_put ha rfl (row_kept rfl)
      ⟨rfl, rfl, fun h => absurd h (by simp [Attempt.live]), .inl, by simp⟩
  | close =>
    exact evolves_put ha rfl (row_gone rfl)
      ⟨rfl, rfl, fun h => absurd h (by simp [Attempt.live]), .inl, by simp⟩

end Evolution

section Fence

variable {s : Settings} {q q' : Publishing} {a : Attempt} {act : Act} {row held : Publication}

/-- A permission is granted only on the fence the attempt holds, with nothing stored yet. -/
theorem mayTakeBack_iff {snapshot row : Publication} : mayTakeBack snapshot row = true ↔
    row.storedAt = none ∧ row.claims = snapshot.claims ∧ row.fence = snapshot.fence := by
  simp [mayTakeBack, and_assoc]

theorem FenceInv.behind (inv : FenceInv q) (ha : a ∈ q.attempts.rows) (hrow : q.row = some row)
    (hmay : mayTakeBack a.snapshot row = true)
    (hearlier : ∀ b ∈ q.attempts.rows, b.snapshot.fence < a.snapshot.fence → b.live = false)
    {b : Attempt} (hb : b ∈ q.attempts.rows) (hne : b.id ≠ a.id) : Behind b a := by
  obtain ⟨hstored, _, hfence⟩ := mayTakeBack_iff.mp hmay
  have hle : b.snapshot.fence ≤ a.snapshot.fence := by
    rw [← hfence]
    exact inv.bounded b hb row hrow
  have hlt : b.snapshot.fence < a.snapshot.fence :=
    lt_of_le_of_ne hle fun heq => hne (inv.apart b hb a ha heq)
  refine ⟨hlt, ?_, hearlier b hb hlt⟩
  by_contra hstamped
  exact inv.stamped b hb (by simpa using hstamped) row hrow hstored

theorem FenceInv.permit (inv : FenceInv q) (ha : a ∈ q.attempts.rows) (hrow : q.row = some row)
    (hmay : mayTakeBack a.snapshot row = true)
    (hearlier : ∀ b ∈ q.attempts.rows, b.snapshot.fence < a.snapshot.fence → b.live = false) :
    FenceInv (q.moved a .permitted) := by
  refine ⟨fun c hc => ?_, fun c hc d hd => ?_, fun c hc => ?_, fun c hc hpermitted d hd hne => ?_⟩
  · rcases Table.mem_put hc with rfl | ⟨hc, _⟩
    · exact inv.bounded a ha
    · exact inv.bounded c hc
  · rcases Table.mem_put hc with rfl | ⟨hc, _⟩
    · rcases Table.mem_put hd with rfl | ⟨hd, _⟩
      · exact fun _ => rfl
      · exact inv.apart a ha d hd
    · rcases Table.mem_put hd with rfl | ⟨hd, _⟩
      · exact inv.apart c hc a ha
      · exact inv.apart c hc d hd
  · rcases Table.mem_put hc with rfl | ⟨hc, _⟩
    · exact inv.stamped a ha
    · exact inv.stamped c hc
  · rcases Table.mem_put hc with rfl | ⟨hc, hcne⟩
    · rcases Table.mem_put hd with rfl | ⟨hd, _⟩
      · exact absurd rfl hne
      · have hbehind := inv.behind ha hrow hmay hearlier hd hne
        exact ⟨hbehind.earlier, hbehind.unstamped, hbehind.idle⟩
    · -- an attempt allowed before would be ahead of this one, and this one of it
      have hahead := inv.permitted c hc hpermitted a ha (fun h => hcne h.symm)
      have hbehind := inv.behind ha hrow hmay hearlier hc hcne
      exact absurd hahead.earlier (lt_asymm hbehind.earlier)

theorem FenceInv.claim (inv : FenceInv q) {id : ℕ} {instanceId : String}
    (hrow : q.row = some row) (h : q.claim id instanceId held = some q')
    (hheld : row.fence < held.fence) (hstored : row.storedAt ≠ none → held.storedAt ≠ none)
    (halone : ∀ a ∈ q.attempts.rows, a.phase ≠ .permitted) : FenceInv q' := by
  unfold Publishing.claim at h
  split_ifs at h with hfresh
  rw [← Option.some.inj h]
  have hmem : ∀ c ∈ (q.attempts.append ⟨id, instanceId, held, .held, [], false, false, [], false⟩
      hfresh).rows, c ∈ q.attempts.rows ∨
        c = ⟨id, instanceId, held, .held, [], false, false, [], false⟩ := by
    intro c hc
    rcases List.mem_append.mp hc with hold | hnew
    · exact .inl hold
    · exact .inr (List.mem_singleton.mp hnew)
  have hlow : ∀ c ∈ q.attempts.rows, c.snapshot.fence < held.fence :=
    fun c hc => (inv.bounded c hc row hrow).trans_lt hheld
  refine ⟨fun c hc row' hrow' => ?_, fun c hc d hd hfence => ?_, fun c hc hstamped row' hrow' => ?_,
    fun c hc hpermitted => ?_⟩
  · obtain rfl := Option.some.inj hrow'
    rcases hmem c hc with hold | rfl
    · exact (hlow c hold).le
    · exact le_refl _
  · rcases hmem c hc with hcold | rfl
    · rcases hmem d hd with hdold | rfl
      · exact inv.apart c hcold d hdold hfence
      · exact absurd hfence (hlow c hcold).ne
    · rcases hmem d hd with hdold | rfl
      · exact absurd hfence.symm (hlow d hdold).ne
      · rfl
  · obtain rfl := Option.some.inj hrow'
    rcases hmem c hc with hold | rfl
    · exact hstored (inv.stamped c hold hstamped row hrow)
    · exact absurd hstamped (by simp)
  · rcases hmem c hc with hold | rfl
    · exact absurd hpermitted (halone c hold)
    · exact absurd hpermitted (by simp)

theorem ask_inv (inv : FenceInv q) (ha : a ∈ q.attempts.rows) {id : ℕ}
    (hearlier : ∀ b ∈ q.attempts.rows, b.snapshot.fence < a.snapshot.fence → b.live = false)
    (h : attemptStep s q a (.ask id) = some q') : FenceInv q' := by
  cases attemptStep_cases h with
  | refused => exact inv
  | moved hmoves =>
    cases hmoves with
    | permit _ _ hrow hmay => exact inv.permit ha hrow hmay hearlier

theorem evolves_row {row' : Option Publication}
    (hrow : ∀ after, row' = some after → ∃ before, q.row = some before ∧
      before.fence ≤ after.fence ∧ (before.storedAt ≠ none → after.storedAt ≠ none)) :
    Evolves q { q with row := row' } :=
  ⟨hrow, fun b hb => ⟨b, hb, Evolved.refl _ b⟩⟩

theorem attempt_inv (inv : FenceInv q) (hexclusive : exclusive q act) {id : ℕ}
    (hid : act.attempt = some id) (hget : q.attempts.get id = some a)
    (hstep : attemptStep s q a act = some q') : FenceInv q' := by
  have ha := ((q.attempts.get_eq_some_iff id a).mp hget).1
  by_cases hask : ∃ asker, act = .ask asker
  · obtain ⟨asker, rfl⟩ := hask
    obtain rfl := Option.some.inj hid
    exact ask_inv inv ha (hexclusive a hget) hstep
  · exact inv.evolve (attemptStep_evolves ha (fun asker heq => hask ⟨asker, heq⟩) hstep)

/-- A step that leaves a rollback to itself keeps the fence. -/
theorem step_inv (inv : FenceInv q) (hexclusive : exclusive q act)
    (h : q.step s act = some q') : FenceInv q' := by
  cases publishing_cases h with
  | publishNow id instanceId now hrow hclaim =>
    exact inv.claim hrow hclaim (Nat.lt_succ_self _) (fun h => h) hexclusive
  | claimDue id instanceId rows now hrow hclaim =>
    exact inv.claim hrow hclaim (Nat.lt_succ_self _) (fun h => h) hexclusive
  | @requeue now dbNow row hrow =>
    refine inv.evolve (evolves_row fun after hafter => ⟨row, hrow, ?_⟩)
    rw [← Option.some.inj hafter]
    exact ⟨Nat.le_succ _, fun h => h⟩
  | discard dbNow => exact inv.evolve (evolves_row fun after hafter => absurd hafter (by simp))
  | attempt hid hget hstep => exact attempt_inv inv hexclusive hid hget hstep

theorem start_inv (row : Publication) : FenceInv (Publishing.start row) := by
  constructor <;> intro a ha <;> simp [Publishing.start, Table.empty] at ha

/-- While nobody claims the row under an open permission, and none is granted beside an earlier
attempt that may still be uploading, a rollback removes keys that its own attempt wrote, when every
other attempt held the row before it, has not stored the run and is off the store. -/
theorem rollback_spares {publication : Publication} {as : List Act}
    (h : Runs (guarded (publicationStep s) exclusive) (Publishing.start publication) as q)
    {id : ℕ} {keys : List String} (hstep : publicationStep s q (.takeBack id keys) q') :
    ∃ a, q.attempts.get id = some a ∧
      (∀ key ∈ q.store, key ∉ q'.store → key ∈ a.written) ∧
      ∀ b ∈ q.attempts.rows, b.id ≠ id → Behind b a := by
  have inv : FenceInv q := h.invariant FenceInv
    (fun _ _ _ inv hstep => step_inv inv hstep.1 hstep.2) (start_inv publication)
  cases publishing_cases hstep with
  | @attempt _ _ a _ hact hget htaken =>
    cases hact
    obtain ⟨ha, hid⟩ := (q.attempts.get_eq_some_iff id a).mp hget
    cases attemptStep_cases htaken with
    | moved hmoves => cases hmoves
    | takeBack _ _ hpermitted hown =>
      refine ⟨a, hget, fun key hkey hgone => ?_, fun b hb hne => ?_⟩
      · by_contra hunwritten
        refine hgone (List.mem_filter.mpr ⟨hkey, ?_⟩)
        simpa using fun hmem => hunwritten (hown key hmem)
      · exact inv.permitted a ha hpermitted b hb (by rw [hid]; exact hne)

end Fence

section Overtaken

def publisher : Settings := ⟨30, 5, 10, 300, 3600⟩

def upload : Publication := newPublication "lease-1" .succeeded "api-1" 0

def publishing (acts : List Act) : Publishing :=
  runFrom (Publishing.step publisher) (Publishing.start upload) acts

theorem publishing_runs {acts : List Act}
    (h : (acts.foldlM (Publishing.step publisher) (Publishing.start upload)).isSome = true) :
    Runs (publicationStep publisher) (Publishing.start upload) acts (publishing acts) :=
  Runs.runFrom (Publishing.step publisher) h

def refused : List Act := [.publishNow 1 "api-1" 0, .put 1 "tenant.json", .refuse 1]

/-- It is allowed to take the key back, and its hold lapses there: another attempt claims the row,
uploads the tree and stamps it. -/
def overtaken : List Act :=
  refused ++ [.ask 1, .claimDue 2 "api-1" 1 60000000, .put 2 "tenant.json", .finishUpload 2,
    .stamp 2 61000000]

def takenBack : Act := .takeBack 1 ["tenant.json"]

/-- The late rollback removes a key of the run that the other attempt has stored. -/
theorem late_rollback_removes_stored_key :
    Runs (publicationStep publisher) (Publishing.start upload) overtaken (publishing overtaken) ∧
    ∃ q', publicationStep publisher (publishing overtaken) takenBack q' ∧
      ((publishing overtaken).attempts.get 2).map Attempt.stamped = some true ∧
      "tenant.json" ∈ (publishing overtaken).store ∧ "tenant.json" ∉ q'.store := by
  refine ⟨publishing_runs (by decide +kernel),
    runFrom (Publishing.step publisher) (publishing overtaken) [takenBack], ?_, ?_⟩
  · exact (Runs.runFrom (Publishing.step publisher) (by decide +kernel)).of_one
  · decide +kernel

/-- The first attempt's hold lapses while it uploads; the second claims the row, fails and is
allowed to take back a key that the first has written too. -/
def undercut : List Act :=
  [.publishNow 1 "api-1" 0, .put 1 "tenant.json", .claimDue 2 "api-1" 1 60000000,
    .put 2 "tenant.json", .refuse 2, .ask 2, .takeBack 2 ["tenant.json"], .finishUpload 1,
    .stamp 1 61000000]

/-- The fence does not see an earlier attempt that is still uploading: it stores a run with a key
missing. -/
theorem undercut_upload_loses_key :
    Runs (publicationStep publisher) (Publishing.start upload) undercut (publishing undercut) ∧
    ((publishing undercut).attempts.get 1).map (fun a => (a.stamped, a.written)) =
      some (true, ["tenant.json"]) ∧
    (publishing undercut).store = [] :=
  ⟨publishing_runs (by decide +kernel), by decide +kernel⟩

def failed : List Act :=
  refused ++ [.rolledBack 1 "the store refused the tree", .recordFailure 1 1000000]

def retried : List Act :=
  failed ++ [.claimDue 2 "api-1" 1 60000000, .put 2 "tenant.json", .refuse 2]

theorem retried_rollback_spares :
    ∃ a, (publishing (retried ++ [.ask 2])).attempts.get 2 = some a ∧ a.written = ["tenant.json"] ∧
      ((publishing (retried ++ [.ask 2])).attempts.get 1).isSome = true ∧
      ∀ b ∈ (publishing (retried ++ [.ask 2])).attempts.rows, b.id ≠ 2 → Behind b a := by
  have hfailed : Runs (guarded (publicationStep publisher) exclusive) (Publishing.start upload)
      failed (publishing failed) := by
    have hfirst : ∀ a ∈ (Publishing.start upload).attempts.rows, a.phase ≠ .permitted := by
      simp [Publishing.start, Table.empty]
    exact .next ⟨hfirst, rfl⟩ (.next ⟨trivial, rfl⟩ (.next ⟨trivial, rfl⟩
      (.next ⟨trivial, rfl⟩ (.next ⟨trivial, rfl⟩ (.refl _)))))
  have hretried : Runs (guarded (publicationStep publisher) exclusive) (publishing failed)
      [.claimDue 2 "api-1" 1 60000000, .put 2 "tenant.json", .refuse 2] (publishing retried) := by
    have hclosed : ∀ a ∈ (publishing failed).attempts.rows, a.phase ≠ .permitted := by
      decide +kernel
    exact .next ⟨hclosed, rfl⟩ (.next ⟨trivial, rfl⟩ (.next ⟨trivial, rfl⟩ (.refl _)))
  have hask : guarded (publicationStep publisher) exclusive (publishing retried) (.ask 2)
      (publishing (retried ++ [.ask 2])) := by
    have hoff : ∀ b ∈ (publishing retried).attempts.rows, b.snapshot.fence < 2 →
        b.live = false := by
      decide +kernel
    have hfence : ((publishing retried).attempts.get 2).map (·.snapshot.fence) = some 2 := by
      decide +kernel
    refine ⟨fun a ha b hb hlt => hoff b hb ?_, rfl⟩
    rw [ha] at hfence
    exact hlt.trans_eq (Option.some.inj hfence)
  have hrun := hfailed.trans (hretried.trans (Runs.one hask))
  have hstep : publicationStep publisher (publishing (retried ++ [.ask 2]))
      (.takeBack 2 ["tenant.json"])
      (runFrom (Publishing.step publisher) (publishing (retried ++ [.ask 2]))
        [.takeBack 2 ["tenant.json"]]) :=
    (Runs.runFrom (Publishing.step publisher) (by decide +kernel)).of_one
  obtain ⟨a, hget, _, hothers⟩ := rollback_spares hrun hstep
  have hwritten : ((publishing (retried ++ [.ask 2])).attempts.get 2).map Attempt.written =
      some ["tenant.json"] := by decide +kernel
  rw [hget] at hwritten
  exact ⟨a, hget, Option.some.inj hwritten, by decide +kernel, hothers⟩

end Overtaken

end Shapoclyack.RollbackFence
