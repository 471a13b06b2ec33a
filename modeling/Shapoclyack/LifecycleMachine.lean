import Shapoclyack.FoldEffects

set_option autoImplicit false

namespace Shapoclyack.LifecycleMachine

open VulnStates Findings FoldEffects

inductive Clock where
  /-- The one that was running when it closed. -/
  | continued
  /-- The finding's own number of days, from the reopening. -/
  | rewound (now : ℤ) (fallback : ℕ)
  /-- The policy's number of days, from the reopening. -/
  | restarted (start : ℤ) (policyDays : ℕ) (source : SlaSource)

/-- The moves of one finding: its states, its clock and the risk accepted over it. -/
inductive Move where
  | keep
  | advance (new : State) (job : Option String)
  | close (reason : ClosureReason) (verified : Bool) (now : ℤ) (acceptance : Acceptance)
  | reopen (clock : Clock)
  | amend (acceptance : Acceptance)
  | grant (acceptance : Acceptance) (until_ : ℤ)
  | revoke (acceptance : Acceptance) (policyDays : ℕ) (source : SlaSource)

def Clock.set (l : Lifecycle) : Clock → Lifecycle
  | .continued => l
  | .rewound now fallback =>
    { l with
      slaStartedAt := now
      dueAt := some (now + days (FindingFold.slaDaysOr l.slaDays fallback)) }
  | .restarted start policyDays source =>
    { l with
      slaStartedAt := start
      dueAt := some (start + days policyDays)
      slaDays := some policyDays
      slaSource := some source }

def Move.apply (l : Lifecycle) : Move → Lifecycle
  | .keep => l
  | .advance new job => { l with state := new, verificationJobId := job }
  | .close reason verified now acceptance =>
    { l with
      state := .CLOSED
      closedAt := some now
      closureReason := some reason
      machineVerified := verified
      exception := acceptance }
  | .reopen clock =>
    clock.set { l with
      state := .OPEN
      closedAt := none
      closureReason := none
      machineVerified := false }
  | .amend acceptance => { l with exception := acceptance }
  | .grant acceptance until_ =>
    { l with
      exception := acceptance
      dueAt := some until_
      slaSource := some .exception }
  | .revoke acceptance policyDays source =>
    { l with
      exception := acceptance
      slaDays := some policyDays
      slaSource := some source
      dueAt := some (l.slaStartedAt + days policyDays) }

def Clock.Legal : Clock → Prop
  | .continued => True
  | .rewound _ fallback => 1 ≤ fallback
  | .restarted _ policyDays source => 1 ≤ policyDays ∧ source ≠ .exception

/-- The reasons a closure may carry along with the machine's own word for it. -/
def earned (reason : ClosureReason) : Prop :=
  reason = .verifiedRemediated ∨ reason = .patched

/-- When a move may be made. -/
def Move.Legal (l : Lifecycle) : Move → Prop
  | .keep => True
  | .advance new _ => canTransition l.state new = true ∧ l.state ≠ .CLOSED ∧ new ≠ .CLOSED
  | .close reason verified _ acceptance =>
    l.state ≠ .CLOSED ∧ (verified = true → earned reason) ∧
      (reason ≠ .patched → acceptance.until_ = none ∧ acceptance.state = .none)
  | .reopen clock => l.state = .CLOSED ∧ clock.Legal
  | .amend acceptance =>
    acceptance.until_ = l.exception.until_ ∧
      (l.state ≠ .CLOSED ∨ l.exception.state ≠ .none)
  | .grant acceptance until_ =>
    acceptance.until_ = some until_ ∧ l.exception.state = .requested
  | .revoke acceptance policyDays source =>
    acceptance.until_ = none ∧ l.exception.until_ ≠ none ∧
      1 ≤ policyDays ∧ source ≠ .exception

@[simp]
theorem Clock.set_state (l : Lifecycle) (c : Clock) : (c.set l).state = l.state := by
  cases c <;> rfl

@[simp]
theorem Clock.set_closedAt (l : Lifecycle) (c : Clock) : (c.set l).closedAt = l.closedAt := by
  cases c <;> rfl

@[simp]
theorem Clock.set_closureReason (l : Lifecycle) (c : Clock) :
    (c.set l).closureReason = l.closureReason := by
  cases c <;> rfl

@[simp]
theorem Clock.set_machineVerified (l : Lifecycle) (c : Clock) :
    (c.set l).machineVerified = l.machineVerified := by
  cases c <;> rfl

@[simp]
theorem Clock.set_exception (l : Lifecycle) (c : Clock) : (c.set l).exception = l.exception := by
  cases c <;> rfl

section States

/-- A legal move stays where it is or takes an edge of the lifecycle. -/
theorem Move.edge {l : Lifecycle} {m : Move} (h : m.Legal l) :
    (m.apply l).state = l.state ∨ canTransition l.state (m.apply l).state = true := by
  cases m with
  | keep => exact .inl rfl
  | advance new job => exact .inr h.1
  | close reason verified now acceptance =>
    right
    have hstate := h.1
    simp only [Move.apply]
    cases hs : l.state <;> first | rfl | exact absurd hs hstate
  | reopen clock =>
    right
    simp only [Move.apply, Clock.set_state]
    rw [h.1]
    rfl
  | amend acceptance => exact .inl rfl
  | grant acceptance until_ => exact .inl rfl
  | revoke acceptance policyDays source => exact .inl rfl

end States

section Closure

/-- A closed finding says when and why, an open one says neither, and only a closure that was
earned carries the machine's word. -/
structure ClosedInv (l : Lifecycle) : Prop where
  closedAt : l.state = .CLOSED ↔ l.closedAt.isSome = true
  reason : l.state = .CLOSED ↔ l.closureReason.isSome = true
  verified : l.machineVerified = true →
    l.state = .CLOSED ∧ ∃ reason, l.closureReason = some reason ∧ earned reason

theorem ClosedInv.of_fresh {l : Lifecycle} (hstate : l.state ≠ .CLOSED)
    (hclosed : l.closedAt = none) (hreason : l.closureReason = none)
    (hverified : l.machineVerified = false) : ClosedInv l where
  closedAt := by simp [hstate, hclosed]
  reason := by simp [hstate, hreason]
  verified := by simp [hverified]

theorem ClosedInv.not_verified {l : Lifecycle} (inv : ClosedInv l) (h : l.state ≠ .CLOSED) :
    l.machineVerified = false := by
  cases hv : l.machineVerified with
  | false => rfl
  | true => exact absurd (inv.verified hv).1 h

theorem ClosedInv.apply {l : Lifecycle} (inv : ClosedInv l) {m : Move} (h : m.Legal l) :
    ClosedInv (m.apply l) := by
  cases m with
  | keep => exact inv
  | advance new job =>
    have hclosed : l.closedAt = none := by
      simpa [h.2.1] using inv.closedAt
    have hreason : l.closureReason = none := by
      simpa [h.2.1] using inv.reason
    exact ClosedInv.of_fresh h.2.2 hclosed hreason (inv.not_verified h.2.1)
  | close reason verified now acceptance =>
    exact ⟨by simp [Move.apply], by simp [Move.apply],
      fun hv => ⟨rfl, reason, rfl, h.2.1 hv⟩⟩
  | reopen clock =>
    exact ClosedInv.of_fresh (by simp [Move.apply]) (by simp [Move.apply])
      (by simp [Move.apply]) (by simp [Move.apply])
  | amend acceptance => exact ⟨inv.closedAt, inv.reason, inv.verified⟩
  | grant acceptance until_ => exact ⟨inv.closedAt, inv.reason, inv.verified⟩
  | revoke acceptance policyDays source => exact ⟨inv.closedAt, inv.reason, inv.verified⟩

theorem Move.verifies {l : Lifecycle} {m : Move} (hbefore : l.machineVerified = false)
    (hafter : (m.apply l).machineVerified = true) :
    ∃ reason now acceptance, m = .close reason true now acceptance := by
  cases m with
  | close reason verified now acceptance =>
    simp only [Move.apply] at hafter
    subst hafter
    exact ⟨reason, now, acceptance, rfl⟩
  | _ => simp_all [Move.apply]

end Closure

section Clocks

/-- What the deadline of a finding has to agree with. -/
structure ClockInv (l : Lifecycle) : Prop where
  positive : ∃ d, l.slaDays = some d ∧ 1 ≤ d
  granted : ∀ until_, l.exception.until_ = some until_ →
    l.dueAt = some until_ ∧ l.slaSource = some .exception
  plain : l.exception.until_ = none → l.slaSource ≠ some .exception →
    ∃ d, l.slaDays = some d ∧ l.dueAt = some (l.slaStartedAt + days d)
  source : l.state ≠ .CLOSED → l.exception.until_ = none → l.slaSource ≠ some .exception
  closed : l.state = .CLOSED → l.exception.until_ = none ∧ l.exception.state = .none

/-- A reopening that keeps the old number of days keeps its source, so it must not be a window. -/
def Move.Sound (l : Lifecycle) : Move → Prop
  | .reopen .continued => l.slaSource ≠ some .exception
  | .reopen (.rewound _ _) => l.slaSource ≠ some .exception
  | .close reason _ _ _ => reason ≠ .patched
  | _ => True

theorem slaDaysOr_pos {d fallback : ℕ} (h : 1 ≤ d) :
    FindingFold.slaDaysOr (some d) fallback = d := by
  obtain ⟨k, rfl⟩ : ∃ k, d = k + 1 := ⟨d - 1, by omega⟩
  rfl

theorem ClockInv.reopen {l : Lifecycle} (inv : ClockInv l) {clock : Clock}
    (hclosed : l.state = .CLOSED) (hlegal : clock.Legal)
    (hsound : (Move.reopen clock).Sound l) : ClockInv ((Move.reopen clock).apply l) := by
  obtain ⟨hnone, _⟩ := inv.closed hclosed
  obtain ⟨d, hd, hpos⟩ := inv.positive
  cases clock with
  | continued =>
    exact {
      positive := inv.positive
      granted := inv.granted
      plain := inv.plain
      source := fun _ _ => hsound
      closed := fun h => by simp [Move.apply, Clock.set] at h }
  | rewound now fallback =>
    exact {
      positive := inv.positive
      granted := fun until_ h => by
        simp only [Move.apply, Clock.set, hnone] at h
        exact absurd h (by simp)
      plain := fun _ _ => ⟨d, hd, by
        simp only [Move.apply, Clock.set, hd, slaDaysOr_pos hpos]⟩
      source := fun _ _ => hsound
      closed := fun h => by simp [Move.apply, Clock.set] at h }
  | restarted start policyDays source =>
    exact {
      positive := ⟨policyDays, rfl, hlegal.1⟩
      granted := fun until_ h => by
        simp only [Move.apply, Clock.set, hnone] at h
        exact absurd h (by simp)
      plain := fun _ _ => ⟨policyDays, rfl, rfl⟩
      source := fun _ _ => by simpa [Move.apply, Clock.set] using hlegal.2
      closed := fun h => by simp [Move.apply, Clock.set] at h }

theorem ClockInv.apply {l : Lifecycle} (inv : ClockInv l) {m : Move} (h : m.Legal l)
    (hsound : m.Sound l) : ClockInv (m.apply l) := by
  cases m with
  | keep => exact inv
  | advance new job =>
    exact {
      positive := inv.positive
      granted := inv.granted
      plain := inv.plain
      source := fun _ hnone => inv.source h.2.1 hnone
      closed := fun hclosed => absurd hclosed h.2.2 }
  | close reason verified now acceptance =>
    obtain ⟨hnone, hstate⟩ := h.2.2 hsound
    exact {
      positive := inv.positive
      granted := fun until_ hu => by
        simp only [Move.apply, hnone] at hu
        exact absurd hu (by simp)
      plain := fun _ hsource => by
        -- a window still granted would have been the deadline's source
        cases hgrant : l.exception.until_ with
        | none => exact inv.plain hgrant hsource
        | some until_ => exact absurd (inv.granted until_ hgrant).2 hsource
      source := fun hopen => absurd rfl hopen
      closed := fun _ => ⟨hnone, hstate⟩ }
  | reopen clock => exact inv.reopen h.1 h.2 hsound
  | amend acceptance =>
    have hopen : l.state ≠ .CLOSED := fun hclosed =>
      h.2.elim (fun hne => hne hclosed) (fun hne => hne (inv.closed hclosed).2)
    exact {
      positive := inv.positive
      granted := fun until_ hu => inv.granted until_ (by rw [← h.1]; exact hu)
      plain := fun hnone => inv.plain (by rw [← h.1]; exact hnone)
      source := fun _ hnone => inv.source hopen (by rw [← h.1]; exact hnone)
      closed := fun hclosed => absurd hclosed hopen }
  | grant acceptance until_ =>
    have hopen : l.state ≠ .CLOSED := fun hclosed =>
      absurd ((inv.closed hclosed).2.symm.trans h.2) (by decide)
    exact {
      positive := inv.positive
      granted := fun u hu => by
        simp only [Move.apply, h.1, Option.some.injEq] at hu
        subst hu
        exact ⟨rfl, rfl⟩
      plain := fun hnone => by
        simp only [Move.apply, h.1] at hnone
        exact absurd hnone (by simp)
      source := fun _ hnone => by
        simp only [Move.apply, h.1] at hnone
        exact absurd hnone (by simp)
      closed := fun hclosed => absurd hclosed hopen }
  | revoke acceptance policyDays source =>
    have hopen : l.state ≠ .CLOSED := fun hclosed => h.2.1 (inv.closed hclosed).1
    exact {
      positive := ⟨policyDays, rfl, h.2.2.1⟩
      granted := fun u hu => by
        simp only [Move.apply, h.1] at hu
        exact absurd hu (by simp)
      plain := fun _ _ => ⟨policyDays, rfl, rfl⟩
      source := fun _ _ => by simpa [Move.apply] using h.2.2.2
      closed := fun hclosed => absurd hclosed hopen }

end Clocks

end Shapoclyack.LifecycleMachine
