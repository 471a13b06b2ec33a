import Mathlib
import Shapoclyack.Library.Lookups
import Shapoclyack.Library.ReadCommitted

set_option autoImplicit false

namespace Shapoclyack.NatsOutbox

open Library

section Rows

inductive Kind where
  | ingest
  | assetEvent
deriving DecidableEq, Repr

structure Message where
  subject : String
  msgId : String
deriving DecidableEq

/-- What a row is about, which no operation changes; `archiveInline` is a field of its payload. -/
structure Content where
  kind : Kind
  message : Message
  archiveInline : Option Bool
deriving DecidableEq

def isReplayable (content : Content) : Bool :=
  content.kind != .ingest || content.archiveInline != some false

inductive Status where
  | pending
  | dead
deriving DecidableEq, Repr

structure Row where
  content : Content
  status : Status
  attempts : ℕ
  nextAttemptAt : Option ℤ
deriving DecidableEq

structure Settings where
  maxAttempts : ℕ
  retryBase : ℕ
  retryMax : ℕ

def recorded (content : Content) (now : ℤ) : Row where
  content := content
  status := if isReplayable content then .pending else .dead
  attempts := 0
  nextAttemptAt := if isReplayable content then some now else none

def Row.due (now : ℤ) (row : Row) : Bool :=
  row.status == .pending && row.nextAttemptAt.any (· ≤ now)

variable (cfg : Settings)

def retryDelay (attempts : ℕ) : ℕ := min (cfg.retryBase * 2 ^ min (attempts - 1) 20) cfg.retryMax

/-- A row that is claimed stays out of the due window for as long as its whole batch may take. -/
def Row.claimed (now : ℤ) (batch : ℕ) (row : Row) : Row :=
  { row with
    attempts := row.attempts + 1
    nextAttemptAt := some (now + (max 30 cfg.retryBase * max 1 batch : ℕ)) }

def Row.failed (now : ℤ) (row : Row) : Row :=
  if cfg.maxAttempts ≤ row.attempts then { row with status := .dead, nextAttemptAt := none }
  else { row with nextAttemptAt := some (now + retryDelay cfg row.attempts) }

def Row.requeued (now : ℤ) (row : Row) : Row :=
  { row with status := .pending, attempts := 0, nextAttemptAt := some now }

/-- The columns that an unlocked update changed, over the row that is there by then. -/
def Row.overlay (current seen new : Row) : Row where
  content := current.content
  status := column current.status seen.status new.status
  attempts := column current.attempts seen.attempts new.attempts
  nextAttemptAt := column current.nextAttemptAt seen.nextAttemptAt new.nextAttemptAt

end Rows

section Model

/-- A row that a transaction has read, with the claims and requeues it had been through. -/
structure Seen where
  id : ℕ
  row : Row
  claims : ℕ
  requeues : ℕ
deriving DecidableEq

structure Attempt where
  id : ℕ
  message : Message
  ok : Option Bool
  seen : Option Seen
deriving DecidableEq

structure State where
  rows : ℕ → Option Row
  claims : ℕ → ℕ
  requeues : ℕ → ℕ
  attempts : ℕ → Option Attempt
  requeuing : ℕ → Option Seen
  discarding : ℕ → Option Seen
  inserted : List (ℕ × Content)
  accepted : List Message
  -- the rows that were dead when an operator's command deleted them
  discarded : List ℕ

inductive Action where
  | record (id : ℕ) (content : Content) (now : ℤ)
  | publish (message : Message)
  | forget (message : Message)
  | claim (tx id : ℕ) (now : ℤ) (batch : ℕ)
  | republish (tx : ℕ) (took ok : Bool)
  | recordRead (tx : ℕ)
  | recordWrite (tx : ℕ) (now : ℤ)
  | requeueRead (tx id : ℕ)
  | requeueWrite (tx : ℕ) (now : ℤ)
  | discardRead (tx id : ℕ)
  | discardWrite (tx : ℕ)
deriving DecidableEq

def State.see (s : State) (id : ℕ) (row : Row) : Seen := ⟨id, row, s.claims id, s.requeues id⟩

def State.write (s : State) (id : ℕ) (row : Option Row) : State :=
  { s with rows := Function.update s.rows id row }

def State.withAttempt (s : State) (tx : ℕ) (attempt : Option Attempt) : State :=
  { s with attempts := Function.update s.attempts tx attempt }

def State.find (s : State) (message : Message) (p : Row → Bool) : Option ℕ :=
  (s.inserted.find? fun entry => entry.2.message == message && (s.rows entry.1).any p).map Prod.fst

def State.insert (s : State) (id : ℕ) (content : Content) (now : ℤ) : State :=
  { s with
    rows := Function.update s.rows id (some (recorded content now))
    inserted := (id, content) :: s.inserted }

variable (cfg : Settings)

def State.claim (s : State) (tx id : ℕ) (row : Row) (now : ℤ) (batch : ℕ) : State :=
  { s with
    rows := Function.update s.rows id (some (row.claimed cfg now batch))
    claims := Function.update s.claims id (s.claims id + 1)
    attempts := Function.update s.attempts tx (some ⟨id, row.content.message, none, none⟩) }

def State.answer (s : State) (tx : ℕ) (attempt : Attempt) (took ok : Bool) : State :=
  { s.withAttempt tx (some { attempt with ok := some ok }) with
    accepted := if took then attempt.message :: s.accepted else s.accepted }

/-- What `_record_attempt` writes, over a row that may have changed since it was read. -/
def State.recordAttempt (s : State) (tx : ℕ) (seen : Seen) (ok : Bool) (now : ℤ) : State :=
  (if ok then s.write seen.id none
  else s.write seen.id
    ((s.rows seen.id).map fun row => row.overlay seen.row (seen.row.failed cfg now))).withAttempt
      tx none

def State.requeue (s : State) (tx : ℕ) (seen : Seen) (row : Row) (now : ℤ) : State :=
  { s with
    rows := Function.update s.rows seen.id
      (some (row.overlay seen.row (seen.row.requeued now)))
    requeues := Function.update s.requeues seen.id (s.requeues seen.id + 1)
    requeuing := Function.update s.requeuing tx none }

def State.discard (s : State) (tx : ℕ) (seen : Seen) : State :=
  { s with
    rows := Function.update s.rows seen.id none
    discarding := Function.update s.discarding tx none
    discarded := if (s.rows seen.id).any fun row => row.status == .dead then
      seen.id :: s.discarded else s.discarded }

def State.requeueRead (s : State) (tx id : ℕ) (row : Row) : State :=
  { s with requeuing := Function.update s.requeuing tx (some (s.see id row)) }

def State.discardRead (s : State) (tx id : ℕ) (row : Row) : State :=
  { s with discarding := Function.update s.discarding tx (some (s.see id row)) }

/-- One statement on one row; none where there is nothing for it to do. -/
def step (s : State) : Action → Option State
  | .record id content now =>
    if s.inserted.any fun entry => entry.1 == id then none
    else if (s.find content.message fun _ => true).isSome then some s
    else some (s.insert id content now)
  | .publish message => some { s with accepted := message :: s.accepted }
  | .forget message => do
    guard (message ∈ s.accepted)
    let id ← s.find message fun row => row.status == .pending
    some (s.write id none)
  | .claim tx id now batch => do
    let row ← s.rows id
    guard (row.due now = true)
    some (s.claim cfg tx id row now batch)
  | .republish tx took ok => do
    let attempt ← s.attempts tx
    guard (ok = true → took = true)
    some (s.answer tx attempt took ok)
  | .recordRead tx => do
    let attempt ← s.attempts tx
    some (s.withAttempt tx ((s.rows attempt.id).map fun row =>
      { attempt with seen := some (s.see attempt.id row) }))
  | .recordWrite tx now => do
    let attempt ← s.attempts tx
    let seen ← attempt.seen
    let ok ← attempt.ok
    some (s.recordAttempt cfg tx seen ok now)
  | .requeueRead tx id => do
    let row ← s.rows id
    guard (row.status = .dead ∧ isReplayable row.content = true)
    some (s.requeueRead tx id row)
  | .requeueWrite tx now => do
    let seen ← s.requeuing tx
    -- an update of a row that is gone fails the transaction
    let row ← s.rows seen.id
    some (s.requeue tx seen row now)
  | .discardRead tx id => do
    let row ← s.rows id
    guard (row.status = .dead)
    some (s.discardRead tx id row)
  | .discardWrite tx => do
    let seen ← s.discarding tx
    some (s.discard tx seen)

def start : State where
  rows _ := none
  claims _ := 0
  requeues _ := 0
  attempts _ := none
  requeuing _ := none
  discarding _ := none
  inserted := []
  accepted := []
  discarded := []

end Model

section Purpose

/-- Every row is in the table, unless its message was accepted or it was discarded dead. -/
def Kept (s : State) : Prop :=
  ∀ id content, (id, content) ∈ s.inserted →
    (s.rows id).isSome = true ∨ content.message ∈ s.accepted ∨ id ∈ s.discarded

def UnreplayableStaysDead (s u : State) : Prop :=
  ∀ id row later, s.rows id = some row → row.status = .dead → isReplayable row.content = false →
    u.rows id = some later → later.status = .dead

variable (cfg : Settings)

/-- The row of an operator's deletion has not been requeued since it was read. -/
def discardUndisturbed (s : State) : Action → Bool
  | .discardWrite tx => (s.discarding tx).all fun seen => s.requeues seen.id == seen.requeues
  | _ => true

/-- The row of a recorded failure has not been claimed or requeued since it was read. -/
def failureUndisturbed (s : State) (tx : ℕ) : Bool :=
  (s.attempts tx).all fun attempt => attempt.seen.all fun seen =>
    s.claims seen.id == seen.claims && s.requeues seen.id == seen.requeues

def Undisturbed (s : State) (a : Action) : Prop := discardUndisturbed s a = true

instance (s : State) : DecidablePred (Undisturbed s) := fun a =>
  inferInstanceAs (Decidable (discardUndisturbed s a = true))

def DiscardsDead (s : State) : Prop :=
  ∀ tx u seen row, guarded (ofStep (step cfg)) Undisturbed s (.discardWrite tx) u →
    s.discarding tx = some seen → s.rows seen.id = some row → row.status = .dead

/-- A failure that is recorded of a row past its attempts leaves it dead. -/
def Exhausts (s : State) : Prop :=
  ∀ tx now u attempt seen row, step cfg s (.recordWrite tx now) = some u →
    failureUndisturbed s tx = true → s.attempts tx = some attempt → attempt.seen = some seen →
    attempt.ok = some false → s.rows seen.id = some row → cfg.maxAttempts < row.attempts →
      ∃ later, u.rows seen.id = some later ∧ later.status = .dead

end Purpose

section Steps

variable {cfg : Settings} {s u : State} {a : Action}

inductive Moves (cfg : Settings) (s : State) : Action → State → Prop where
  | known (id : ℕ) (content : Content) (now : ℤ) : Moves cfg s (.record id content now) s
  | record {id : ℕ} {content : Content} (now : ℤ) (fresh : ∀ other, (id, other) ∉ s.inserted) :
      Moves cfg s (.record id content now) (s.insert id content now)
  | publish (message : Message) :
      Moves cfg s (.publish message) { s with accepted := message :: s.accepted }
  | forget {message : Message} {id : ℕ} {content : Content} (published : message ∈ s.accepted)
      (known : (id, content) ∈ s.inserted) (same : content.message = message) :
      Moves cfg s (.forget message) (s.write id none)
  | claim {tx id : ℕ} {row : Row} (now : ℤ) (batch : ℕ) (found : s.rows id = some row) :
      Moves cfg s (.claim tx id now batch) (s.claim cfg tx id row now batch)
  | republish {tx : ℕ} {attempt : Attempt} {took ok : Bool} (claimed : s.attempts tx = some attempt)
      (honest : ok = true → took = true) :
      Moves cfg s (.republish tx took ok) (s.answer tx attempt took ok)
  | recordRead {tx : ℕ} {attempt : Attempt} (claimed : s.attempts tx = some attempt) :
      Moves cfg s (.recordRead tx) (s.withAttempt tx ((s.rows attempt.id).map fun row =>
        { attempt with seen := some (s.see attempt.id row) }))
  | recordWrite {tx : ℕ} {attempt : Attempt} {seen : Seen} {ok : Bool} (now : ℤ)
      (claimed : s.attempts tx = some attempt) (read : attempt.seen = some seen)
      (answered : attempt.ok = some ok) :
      Moves cfg s (.recordWrite tx now) (s.recordAttempt cfg tx seen ok now)
  | requeueRead {tx id : ℕ} {row : Row} (found : s.rows id = some row) (dead : row.status = .dead)
      (replayable : isReplayable row.content = true) :
      Moves cfg s (.requeueRead tx id) (s.requeueRead tx id row)
  | requeueWrite {tx : ℕ} {seen : Seen} {row : Row} (now : ℤ) (read : s.requeuing tx = some seen)
      (found : s.rows seen.id = some row) :
      Moves cfg s (.requeueWrite tx now) (s.requeue tx seen row now)
  | discardRead {tx id : ℕ} {row : Row} (found : s.rows id = some row)
      (dead : row.status = .dead) : Moves cfg s (.discardRead tx id) (s.discardRead tx id row)
  | discardWrite {tx : ℕ} {seen : Seen} (read : s.discarding tx = some seen) :
      Moves cfg s (.discardWrite tx) (s.discard tx seen)

theorem find_spec {message : Message} {p : Row → Bool} {id : ℕ} (h : s.find message p = some id) :
    ∃ content, (id, content) ∈ s.inserted ∧ content.message = message := by
  rcases Option.map_eq_some_iff.mp h with ⟨entry, hentry, rfl⟩
  have hp := List.find?_some hentry
  rw [Bool.and_eq_true, beq_iff_eq] at hp
  exact ⟨entry.2, List.mem_of_find?_eq_some hentry, hp.1⟩

theorem moves_of_step (h : step cfg s a = some u) : Moves cfg s a u := by
  cases a with
  | record id content now =>
    simp only [step] at h
    split at h
    · cases h
    · rename_i hfresh
      split at h
      · obtain rfl := Option.some.inj h
        exact .known id content now
      · obtain rfl := Option.some.inj h
        refine .record now fun other hother => hfresh ?_
        exact List.any_eq_true.mpr ⟨_, hother, beq_self_eq_true id⟩
  | publish message =>
    obtain rfl := Option.some.inj h
    exact .publish message
  | forget message =>
    simp only [step, Option.bind_eq_bind, Option.bind_eq_some_iff, Option.guard_eq_some'] at h
    rcases h with ⟨_, hpublished, id, hid, hu⟩
    obtain rfl := Option.some.inj hu
    rcases find_spec hid with ⟨content, hknown, hsame⟩
    exact .forget hpublished hknown hsame
  | claim tx id now batch =>
    simp only [step, Option.bind_eq_bind, Option.bind_eq_some_iff, Option.guard_eq_some'] at h
    rcases h with ⟨row, hrow, _, _, hu⟩
    obtain rfl := Option.some.inj hu
    exact .claim now batch hrow
  | republish tx took ok =>
    simp only [step, Option.bind_eq_bind, Option.bind_eq_some_iff, Option.guard_eq_some'] at h
    rcases h with ⟨attempt, hattempt, _, hhonest, hu⟩
    obtain rfl := Option.some.inj hu
    exact .republish hattempt hhonest
  | recordRead tx =>
    rcases Option.bind_eq_some_iff.mp h with ⟨attempt, hattempt, hu⟩
    obtain rfl := Option.some.inj hu
    exact .recordRead hattempt
  | recordWrite tx now =>
    simp only [step, Option.bind_eq_bind, Option.bind_eq_some_iff] at h
    rcases h with ⟨attempt, hattempt, seen, hseen, ok, hok, hu⟩
    obtain rfl := Option.some.inj hu
    exact .recordWrite now hattempt hseen hok
  | requeueRead tx id =>
    simp only [step, Option.bind_eq_bind, Option.bind_eq_some_iff, Option.guard_eq_some'] at h
    rcases h with ⟨row, hrow, _, hdead, hu⟩
    obtain rfl := Option.some.inj hu
    exact .requeueRead hrow hdead.1 hdead.2
  | requeueWrite tx now =>
    simp only [step, Option.bind_eq_bind, Option.bind_eq_some_iff] at h
    rcases h with ⟨seen, hseen, row, hrow, hu⟩
    obtain rfl := Option.some.inj hu
    exact .requeueWrite now hseen hrow
  | discardRead tx id =>
    simp only [step, Option.bind_eq_bind, Option.bind_eq_some_iff, Option.guard_eq_some'] at h
    rcases h with ⟨row, hrow, _, hdead, hu⟩
    obtain rfl := Option.some.inj hu
    exact .discardRead hrow hdead
  | discardWrite tx =>
    rcases Option.bind_eq_some_iff.mp h with ⟨seen, hseen, hu⟩
    obtain rfl := Option.some.inj hu
    exact .discardWrite hseen

/-- What a step does to one row: it stays what it is about, turns from dead to pending by a
requeue alone, and changes its attempts by a requeue or a claim. -/
structure RowStep (s u : State) (id : ℕ) : Prop where
  claims : s.claims id ≤ u.claims id
  requeues : s.requeues id ≤ u.requeues id
  row : ∀ later, u.rows id = some later →
    ((∀ content, (id, content) ∉ s.inserted) ∧ (id, later.content) ∈ u.inserted ∧
      (isReplayable later.content = false → later.status = .dead)) ∨
    ∃ row, s.rows id = some row ∧ later.content = row.content ∧
      (u.requeues id = s.requeues id → row.status = .dead → later.status = .dead) ∧
      (u.claims id = s.claims id → u.requeues id = s.requeues id → later.attempts = row.attempts)

theorem RowStep.same {id : ℕ} (hclaims : u.claims id = s.claims id)
    (hrequeues : u.requeues id = s.requeues id) (hrow : u.rows id = s.rows id) :
    RowStep s u id where
  claims := hclaims.ge
  requeues := hrequeues.ge
  row later hlater := .inr ⟨later, hrow.symm.trans hlater, rfl, fun _ h => h, fun _ _ => rfl⟩

theorem RowStep.gone {id : ℕ} (hclaims : u.claims id = s.claims id)
    (hrequeues : u.requeues id = s.requeues id) (hrow : u.rows id = none) : RowStep s u id where
  claims := hclaims.ge
  requeues := hrequeues.ge
  row later hlater := by
    rw [hrow] at hlater
    cases hlater

theorem rowStep_write {id other : ℕ} {row : Option Row} {next : State}
    (hrows : next.rows = Function.update s.rows id row) (hclaims : next.claims = s.claims)
    (hrequeues : next.requeues = s.requeues) (h : other = id → RowStep s next id) :
    RowStep s next other := by
  by_cases heq : other = id
  · rw [heq]
    exact h heq
  · refine .same (congrFun hclaims other) (congrFun hrequeues other) ?_
    rw [hrows, Function.update_of_ne heq]

theorem column_eq_or {α : Type} [DecidableEq α] (current seen new : α) :
    column current seen new = current ∨ new ≠ seen ∧ column current seen new = new := by
  unfold column
  split
  · exact .inl rfl
  · rename_i h
    exact .inr ⟨h, rfl⟩

theorem overlay_failed_dead {current seen : Row} {now : ℤ} (h : current.status = .dead) :
    (current.overlay seen (seen.failed cfg now)).status = .dead := by
  change column current.status seen.status (seen.failed cfg now).status = .dead
  rcases column_eq_or current.status seen.status (seen.failed cfg now).status with heq | ⟨hne, heq⟩
  · rw [heq, h]
  · rw [heq]
    unfold Row.failed at hne ⊢
    split
    · rfl
    · rename_i hfew
      rw [if_neg hfew] at hne
      exact absurd rfl hne

theorem failed_attempts (row : Row) (now : ℤ) : (row.failed cfg now).attempts = row.attempts := by
  unfold Row.failed
  split <;> rfl

theorem overlay_failed_attempts (current seen : Row) (now : ℤ) :
    (current.overlay seen (seen.failed cfg now)).attempts = current.attempts := by
  change column current.attempts seen.attempts (seen.failed cfg now).attempts = _
  rw [failed_attempts, column_unchanged]

theorem step_row (h : step cfg s a = some u) (id : ℕ) : RowStep s u id := by
  cases moves_of_step h with
  | known => exact .same rfl rfl rfl
  | record now fresh =>
    rename_i new content
    refine rowStep_write rfl rfl rfl fun _ => ⟨le_refl _, le_refl _, fun later hlater => ?_⟩
    obtain rfl := Option.some.inj (row_of_update_self hlater)
    refine .inl ⟨fresh, List.mem_cons_self, fun hfalse => ?_⟩
    change isReplayable content = false at hfalse
    change (if isReplayable content then Status.pending else Status.dead) = .dead
    rw [hfalse]
    rfl
  | publish => exact .same rfl rfl rfl
  | forget =>
    exact rowStep_write rfl rfl rfl fun _ => .gone rfl rfl (Function.update_self _ _ _)
  | claim now batch found =>
    rename_i tx claimed row
    by_cases heq : id = claimed
    · subst heq
      have hclaims : (s.claim cfg tx id row now batch).claims id = s.claims id + 1 :=
        Function.update_self _ _ _
      refine ⟨?_, le_refl _, fun later hlater => .inr ⟨row, found, ?_⟩⟩
      · rw [hclaims]
        exact Nat.le_succ _
      · obtain rfl := Option.some.inj (row_of_update_self hlater)
        refine ⟨rfl, fun _ hdead => hdead, fun hsame => ?_⟩
        rw [hclaims] at hsame
        omega
    · exact .same (Function.update_of_ne heq _ _) rfl (Function.update_of_ne heq _ _)
  | republish => exact .same rfl rfl rfl
  | recordRead => exact .same rfl rfl rfl
  | recordWrite now claimed read answered =>
    rename_i tx attempt seen ok
    cases ok with
    | true =>
      exact rowStep_write rfl rfl rfl fun _ => .gone rfl rfl (Function.update_self _ _ _)
    | false =>
      refine rowStep_write rfl rfl rfl fun heq => ⟨le_refl _, le_refl _, fun later hlater => ?_⟩
      rcases Option.map_eq_some_iff.mp (row_of_update_self hlater) with ⟨row, hrow, rfl⟩
      exact .inr ⟨row, hrow, rfl, fun _ => overlay_failed_dead,
        fun _ _ => overlay_failed_attempts row seen.row now⟩
  | requeueRead => exact .same rfl rfl rfl
  | requeueWrite now read found =>
    rename_i tx seen row
    by_cases heq : id = seen.id
    · subst heq
      have hrequeues : (s.requeue tx seen row now).requeues seen.id = s.requeues seen.id + 1 :=
        Function.update_self _ _ _
      refine ⟨le_refl _, ?_, fun later hlater => .inr ⟨row, found, ?_⟩⟩
      · rw [hrequeues]
        exact Nat.le_succ _
      · obtain rfl := Option.some.inj (row_of_update_self hlater)
        refine ⟨rfl, fun hsame => ?_, fun _ hsame => ?_⟩
        all_goals
          rw [hrequeues] at hsame
          omega
    · exact .same rfl (Function.update_of_ne heq _ _) (Function.update_of_ne heq _ _)
  | discardRead => exact .same rfl rfl rfl
  | discardWrite read =>
    exact rowStep_write rfl rfl rfl fun _ => .gone rfl rfl (Function.update_self _ _ _)

theorem step_inserted (h : step cfg s a = some u) {entry : ℕ × Content}
    (hentry : entry ∈ s.inserted) :
    entry ∈ u.inserted := by
  cases moves_of_step h with
  | record => exact List.mem_cons_of_mem _ hentry
  | recordWrite =>
    rename_i ok _ _ _ _
    cases ok <;> exact hentry
  | _ => exact hentry

end Steps

section Invariant

variable {cfg : Settings} {s u : State} {a : Action}

inductive Reads (s : State) : Seen → Prop where
  | recording {tx : ℕ} {attempt : Attempt} {seen : Seen} (h : s.attempts tx = some attempt)
      (read : attempt.seen = some seen) : Reads s seen
  | requeuing {tx : ℕ} {seen : Seen} (h : s.requeuing tx = some seen) : Reads s seen
  | discarding {tx : ℕ} {seen : Seen} (h : s.discarding tx = some seen) : Reads s seen

/-- What a row that was read still says of the row that is there. -/
structure Holds (s : State) (seen : Seen) : Prop where
  known : ∃ content, (seen.id, content) ∈ s.inserted
  claims : seen.claims ≤ s.claims seen.id
  requeues : seen.requeues ≤ s.requeues seen.id
  row : ∀ row, s.rows seen.id = some row → row.content = seen.row.content ∧
    (s.requeues seen.id = seen.requeues → seen.row.status = .dead → row.status = .dead) ∧
    (s.claims seen.id = seen.claims → s.requeues seen.id = seen.requeues →
      row.attempts = seen.row.attempts)

theorem Holds.step {seen : Seen} (h : Holds s seen) (hstep : step cfg s a = some u) :
    Holds u seen := by
  have hafter := step_row hstep seen.id
  have hclaims := h.claims
  have hrequeues := h.requeues
  have hclaims_le := hafter.claims
  have hrequeues_le := hafter.requeues
  rcases h.known with ⟨content, hcontent⟩
  refine ⟨⟨content, step_inserted hstep hcontent⟩, by omega, by omega, fun later hlater => ?_⟩
  rcases hafter.row later hlater with ⟨hfresh, _⟩ | ⟨row, hrow, hsame, hdead, hattempts⟩
  · exact absurd hcontent (hfresh content)
  · rcases h.row row hrow with ⟨hseen, hseen_dead, hseen_attempts⟩
    refine ⟨hsame.trans hseen, fun hq hd => ?_, fun hc hq => ?_⟩
    · exact hdead (by omega) (hseen_dead (by omega) hd)
    · exact (hattempts (by omega) (by omega)).trans (hseen_attempts (by omega) (by omega))

theorem holds_see {id : ℕ} {row : Row} (hrow : s.rows id = some row)
    (hknown : (id, row.content) ∈ s.inserted) : Holds s (s.see id row) := by
  refine ⟨⟨row.content, hknown⟩, le_refl _, le_refl _, fun other hother => ?_⟩
  obtain rfl := Option.some.inj (hrow.symm.trans hother)
  exact ⟨rfl, fun _ h => h, fun _ _ => rfl⟩

theorem step_reads (h : step cfg s a = some u) {seen : Seen} (hread : Reads u seen) :
    Reads s seen ∨ ∃ id row, s.rows id = some row ∧ seen = s.see id row := by
  cases moves_of_step h with
  | claim now batch found =>
    cases hread with
    | recording hattempt hseen =>
      rcases row_of_update hattempt with ⟨_, heq⟩ | ⟨_, hattempt⟩
      · obtain rfl := Option.some.inj heq
        cases hseen
      · exact .inl (.recording hattempt hseen)
    | requeuing hread => exact .inl (.requeuing hread)
    | discarding hread => exact .inl (.discarding hread)
  | republish claimed honest =>
    cases hread with
    | recording hattempt hseen =>
      rcases row_of_update hattempt with ⟨_, heq⟩ | ⟨_, hattempt⟩
      · obtain rfl := Option.some.inj heq
        exact .inl (.recording claimed hseen)
      · exact .inl (.recording hattempt hseen)
    | requeuing hread => exact .inl (.requeuing hread)
    | discarding hread => exact .inl (.discarding hread)
  | recordRead claimed =>
    cases hread with
    | recording hattempt hseen =>
      rcases row_of_update hattempt with ⟨_, heq⟩ | ⟨_, hattempt⟩
      · rcases Option.map_eq_some_iff.mp heq with ⟨row, hrow, rfl⟩
        exact .inr ⟨_, row, hrow, (Option.some.inj hseen).symm⟩
      · exact .inl (.recording hattempt hseen)
    | requeuing hread => exact .inl (.requeuing hread)
    | discarding hread => exact .inl (.discarding hread)
  | recordWrite now claimed read answered =>
    rename_i tx attempt before ok
    have hsame : (s.recordAttempt cfg tx before ok now).requeuing = s.requeuing ∧
        (s.recordAttempt cfg tx before ok now).discarding = s.discarding ∧
        (s.recordAttempt cfg tx before ok now).attempts = Function.update s.attempts tx none := by
      cases ok <;> exact ⟨rfl, rfl, rfl⟩
    cases hread with
    | recording hattempt hseen =>
      rw [hsame.2.2] at hattempt
      rcases row_of_update hattempt with ⟨_, hnone⟩ | ⟨_, hattempt⟩
      · cases hnone
      · exact .inl (.recording hattempt hseen)
    | requeuing hread => exact .inl (.requeuing ((congrFun hsame.1 _).symm.trans hread))
    | discarding hread => exact .inl (.discarding ((congrFun hsame.2.1 _).symm.trans hread))
  | requeueRead found =>
    cases hread with
    | recording hattempt hseen => exact .inl (.recording hattempt hseen)
    | requeuing hread =>
      rcases row_of_update hread with ⟨_, heq⟩ | ⟨_, hread⟩
      · exact .inr ⟨_, _, found, (Option.some.inj heq).symm⟩
      · exact .inl (.requeuing hread)
    | discarding hread => exact .inl (.discarding hread)
  | requeueWrite now read found =>
    cases hread with
    | recording hattempt hseen => exact .inl (.recording hattempt hseen)
    | requeuing hread =>
      rcases row_of_update hread with ⟨_, hnone⟩ | ⟨_, hread⟩
      · cases hnone
      · exact .inl (.requeuing hread)
    | discarding hread => exact .inl (.discarding hread)
  | discardRead found =>
    cases hread with
    | recording hattempt hseen => exact .inl (.recording hattempt hseen)
    | requeuing hread => exact .inl (.requeuing hread)
    | discarding hread =>
      rcases row_of_update hread with ⟨_, heq⟩ | ⟨_, hread⟩
      · exact .inr ⟨_, _, found, (Option.some.inj heq).symm⟩
      · exact .inl (.discarding hread)
  | discardWrite read =>
    cases hread with
    | recording hattempt hseen => exact .inl (.recording hattempt hseen)
    | requeuing hread => exact .inl (.requeuing hread)
    | discarding hread =>
      rcases row_of_update hread with ⟨_, hnone⟩ | ⟨_, hread⟩
      · cases hnone
      · exact .inl (.discarding hread)
  | _ =>
    cases hread with
    | recording hattempt hseen => exact .inl (.recording hattempt hseen)
    | requeuing hread => exact .inl (.requeuing hread)
    | discarding hread => exact .inl (.discarding hread)

structure Claimed (s : State) (attempt : Attempt) : Prop where
  known : ∃ content, (attempt.id, content) ∈ s.inserted ∧ content.message = attempt.message
  accepted : attempt.ok = some true → attempt.message ∈ s.accepted
  seen : ∀ seen, attempt.seen = some seen → seen.id = attempt.id

/-- What holds of rows and of the transactions under way in every state. -/
structure Inv (s : State) : Prop where
  present : ∀ id row, s.rows id = some row → (id, row.content) ∈ s.inserted
  once : ∀ id content other, (id, content) ∈ s.inserted → (id, other) ∈ s.inserted →
    content = other
  unreplayable : ∀ id row, s.rows id = some row → isReplayable row.content = false →
    row.status = .dead
  reads : ∀ seen, Reads s seen → Holds s seen
  requeuing : ∀ tx seen, s.requeuing tx = some seen → seen.row.status = .dead ∧
    isReplayable seen.row.content = true
  discarding : ∀ tx seen, s.discarding tx = some seen → seen.row.status = .dead
  claimed : ∀ tx attempt, s.attempts tx = some attempt → Claimed s attempt

theorem inv_start : Inv start where
  present := by simp [start]
  once := by simp [start]
  unreplayable := by simp [start]
  reads seen h := by
    cases h with
    | recording h => cases h
    | requeuing h => cases h
    | discarding h => cases h
  requeuing := by simp [start]
  discarding := by simp [start]
  claimed := by simp [start]

theorem step_accepted (h : step cfg s a = some u) {message : Message}
    (hmessage : message ∈ s.accepted) : message ∈ u.accepted := by
  cases moves_of_step h with
  | publish => exact List.mem_cons_of_mem _ hmessage
  | republish =>
    rename_i tx attempt took ok _ _
    cases took with
    | true => exact List.mem_cons_of_mem _ hmessage
    | false => exact hmessage
  | recordWrite =>
    rename_i ok _ _ _ _
    cases ok <;> exact hmessage
  | _ => exact hmessage

theorem Claimed.step {attempt : Attempt} (h : Claimed s attempt) (hstep : step cfg s a = some u) :
    Claimed u attempt := by
  rcases h.known with ⟨content, hcontent, hmessage⟩
  exact ⟨⟨content, step_inserted hstep hcontent, hmessage⟩,
    fun hok => step_accepted hstep (h.accepted hok), h.seen⟩

theorem step_claimed (h : Inv s) (hstep : step cfg s a = some u) {tx : ℕ} {attempt : Attempt}
    (hattempt : u.attempts tx = some attempt) : Claimed u attempt := by
  have hold : s.attempts tx = some attempt → Claimed u attempt :=
    fun hattempt => (h.claimed tx attempt hattempt).step hstep
  cases moves_of_step hstep with
  | claim now batch found =>
    rcases row_of_update hattempt with ⟨_, heq⟩ | ⟨_, hattempt⟩
    · obtain rfl := Option.some.inj heq
      exact ⟨⟨_, h.present _ _ found, rfl⟩, nofun, nofun⟩
    · exact hold hattempt
  | republish claimed honest =>
    rename_i other before took ok
    rcases row_of_update hattempt with ⟨_, heq⟩ | ⟨_, hattempt⟩
    · obtain rfl := Option.some.inj heq
      have hbefore := h.claimed _ _ claimed
      refine ⟨hbefore.known, fun hok => ?_, hbefore.seen⟩
      have htook := honest (Option.some.inj hok)
      subst htook
      exact List.mem_cons_self
    · exact hold hattempt
  | recordRead claimed =>
    rcases row_of_update hattempt with ⟨_, heq⟩ | ⟨_, hattempt⟩
    · rcases Option.map_eq_some_iff.mp heq with ⟨row, _, rfl⟩
      have hbefore := h.claimed _ _ claimed
      refine ⟨hbefore.known, hbefore.accepted, fun seen hseen => ?_⟩
      rw [← Option.some.inj hseen]
      rfl
    · exact hold hattempt
  | recordWrite now claimed read answered =>
    rename_i other before seen ok
    have hsame : (s.recordAttempt cfg other seen ok now).attempts =
        Function.update s.attempts other none := by
      cases ok <;> rfl
    rw [hsame] at hattempt
    rcases row_of_update hattempt with ⟨_, hnone⟩ | ⟨_, hattempt⟩
    · cases hnone
    · exact hold hattempt
  | _ => exact hold hattempt

/-- A row that was read to be requeued or discarded was dead when it was read. -/
theorem step_dead (h : Inv s) (hstep : step cfg s a = some u) (tx : ℕ) (seen : Seen) :
    (u.requeuing tx = some seen →
      seen.row.status = .dead ∧ isReplayable seen.row.content = true) ∧
    (u.discarding tx = some seen → seen.row.status = .dead) := by
  have hrequeuing := h.requeuing tx seen
  have hdiscarding := h.discarding tx seen
  cases moves_of_step hstep with
  | requeueRead found dead replayable =>
    refine ⟨fun hseen => ?_, hdiscarding⟩
    rcases row_of_update hseen with ⟨_, heq⟩ | ⟨_, hseen⟩
    · rw [← Option.some.inj heq]
      exact ⟨dead, replayable⟩
    · exact hrequeuing hseen
  | requeueWrite =>
    refine ⟨fun hseen => ?_, hdiscarding⟩
    rcases row_of_update hseen with ⟨_, hnone⟩ | ⟨_, hseen⟩
    · cases hnone
    · exact hrequeuing hseen
  | discardRead found dead =>
    refine ⟨hrequeuing, fun hseen => ?_⟩
    rcases row_of_update hseen with ⟨_, heq⟩ | ⟨_, hseen⟩
    · rw [← Option.some.inj heq]
      exact dead
    · exact hdiscarding hseen
  | discardWrite =>
    refine ⟨hrequeuing, fun hseen => ?_⟩
    rcases row_of_update hseen with ⟨_, hnone⟩ | ⟨_, hseen⟩
    · cases hnone
    · exact hdiscarding hseen
  | recordWrite =>
    rename_i ok _ _ _ _
    cases ok <;> exact ⟨hrequeuing, hdiscarding⟩
  | _ => exact ⟨hrequeuing, hdiscarding⟩

theorem step_once (h : Inv s) (hstep : step cfg s a = some u) {id : ℕ} {content other : Content}
    (hcontent : (id, content) ∈ u.inserted) (hother : (id, other) ∈ u.inserted) :
    content = other := by
  cases moves_of_step hstep with
  | record now fresh =>
    rcases List.mem_cons.mp hcontent with heq | hcontent
    · rcases List.mem_cons.mp hother with heq' | hother
      · exact (Prod.mk.inj heq).2.trans (Prod.mk.inj heq').2.symm
      · exact absurd ((Prod.mk.inj heq).1 ▸ hother) (fresh other)
    · rcases List.mem_cons.mp hother with heq' | hother
      · exact absurd ((Prod.mk.inj heq').1 ▸ hcontent) (fresh content)
      · exact h.once id content other hcontent hother
  | recordWrite =>
    rename_i ok _ _ _ _
    cases ok <;> exact h.once id content other hcontent hother
  | _ => exact h.once id content other hcontent hother

theorem step_requeues (h : Inv s) (hstep : step cfg s a = some u) {id : ℕ} {row : Row}
    (hrow : s.rows id = some row) (hfalse : isReplayable row.content = false) :
    u.requeues id = s.requeues id := by
  cases moves_of_step hstep with
  | requeueWrite now read found =>
    rename_i tx seen other
    refine Function.update_of_ne ?_ _ _
    rintro rfl
    have hcontent := ((h.reads seen (.requeuing read)).row row hrow).1
    rw [hcontent, (h.requeuing tx seen read).2] at hfalse
    cases hfalse
  | recordWrite =>
    rename_i ok _ _ _ _
    cases ok <;> rfl
  | _ => rfl

theorem inv_step (h : Inv s) (hstep : step cfg s a = some u) : Inv u where
  present id later hlater := by
    rcases (step_row hstep id).row later hlater with ⟨_, hnew, _⟩ | ⟨row, hrow, hsame, _⟩
    · exact hnew
    · rw [hsame]
      exact step_inserted hstep (h.present id row hrow)
  once _ _ _ hcontent hother := step_once h hstep hcontent hother
  unreplayable id later hlater hfalse := by
    rcases (step_row hstep id).row later hlater with ⟨_, _, hdead⟩ | ⟨row, hrow, hsame, hdead, _⟩
    · exact hdead hfalse
    · rw [hsame] at hfalse
      exact hdead (step_requeues h hstep hrow hfalse) (h.unreplayable id row hrow hfalse)
  reads seen hseen := by
    rcases step_reads hstep hseen with hbefore | ⟨id, row, hrow, rfl⟩
    · exact (h.reads seen hbefore).step hstep
    · exact (holds_see hrow (h.present id row hrow)).step hstep
  requeuing tx seen hseen := (step_dead h hstep tx seen).1 hseen
  discarding tx seen hseen := (step_dead h hstep tx seen).2 hseen
  claimed _ _ hattempt := step_claimed h hstep hattempt

theorem inv_of_runs {is : List Action} (h : Runs (ofStep (step cfg)) start is s) : Inv s :=
  h.invariant Inv (fun _ _ _ hs hstep => inv_step hs hstep) inv_start

end Invariant

section Results

variable {cfg : Settings} {s u : State} {a : Action}

theorem dead_of_discarding (h : Inv s) {tx : ℕ} {seen : Seen} {row : Row}
    (hseen : s.discarding tx = some seen) (hrequeues : s.requeues seen.id = seen.requeues)
    (hrow : s.rows seen.id = some row) : row.status = .dead :=
  ((h.reads seen (.discarding hseen)).row row hrow).2.1 hrequeues (h.discarding tx seen hseen)

theorem requeues_of_undisturbed {tx : ℕ} {seen : Seen} (h : Undisturbed s (.discardWrite tx))
    (hseen : s.discarding tx = some seen) : s.requeues seen.id = seen.requeues := by
  change Option.all _ (s.discarding tx) = true at h
  rw [hseen] at h
  exact eq_of_beq h

theorem discardsDead_of_inv (h : Inv s) : DiscardsDead cfg s :=
  fun _ _ _ _ hstep hseen hrow =>
    dead_of_discarding h hseen (requeues_of_undisturbed hstep.1 hseen) hrow

theorem overlay_failed_exhausted {current seen : Row} {now : ℤ}
    (hattempts : current.attempts = seen.attempts) (hmax : cfg.maxAttempts ≤ current.attempts)
    (hdead : seen.status = .dead → current.status = .dead) :
    (current.overlay seen (seen.failed cfg now)).status = .dead := by
  have hfailed : (seen.failed cfg now).status = .dead := by
    unfold Row.failed
    rw [if_pos (hattempts ▸ hmax)]
  change column current.status seen.status (seen.failed cfg now).status = .dead
  rw [hfailed]
  unfold column
  split
  · rename_i heq
    exact hdead heq.symm
  · rfl

theorem exhausts_of_inv (h : Inv s) : Exhausts cfg s := by
  intro tx now u attempt seen row hstep hundisturbed hattempt hseen hok hrow hmax
  have hsame : s.claims seen.id = seen.claims ∧ s.requeues seen.id = seen.requeues := by
    unfold failureUndisturbed at hundisturbed
    rw [hattempt, Option.all_some, hseen, Option.all_some] at hundisturbed
    simpa using hundisturbed
  have hholds := (h.reads seen (.recording hattempt hseen)).row row hrow
  cases moves_of_step hstep with
  | recordWrite now claimed read answered =>
    obtain rfl := Option.some.inj (hattempt.symm.trans claimed)
    obtain rfl := Option.some.inj (hseen.symm.trans read)
    obtain rfl := Option.some.inj (hok.symm.trans answered)
    refine ⟨row.overlay seen.row (seen.row.failed cfg now), ?_, ?_⟩
    · change Function.update s.rows seen.id _ seen.id = _
      rw [Function.update_self, hrow]
      rfl
    · exact overlay_failed_exhausted (hholds.2.2 hsame.1 hsame.2) hmax.le (hholds.2.1 hsame.2)

theorem step_present (h : Inv s) (hstep : guarded (ofStep (step cfg)) Undisturbed s a u) {id : ℕ}
    {content : Content} (hcontent : (id, content) ∈ s.inserted) (hrow : (s.rows id).isSome = true) :
    (u.rows id).isSome = true ∨ content.message ∈ u.accepted ∨ id ∈ u.discarded := by
  rcases hstep with ⟨hundisturbed, hstep⟩
  have hwritten : ∀ {written : ℕ} {row : Option Row} {P : Prop}, (written = id → P) →
      (Function.update s.rows written row id).isSome = true ∨ P := by
    intro written row P h
    by_cases heq : written = id
    · exact .inr (h heq)
    · rw [Function.update_of_ne (Ne.symm heq)]
      exact .inl hrow
  have hkept : ∀ {written : ℕ} {row : Row},
      (Function.update s.rows written (some row) id).isSome = true := by
    intro written row
    by_cases heq : id = written
    · rw [heq, Function.update_self]
      rfl
    · rw [Function.update_of_ne heq]
      exact hrow
  cases moves_of_step hstep with
  | record => exact .inl hkept
  | forget published known same =>
    refine hwritten fun heq => .inl ?_
    subst heq
    rw [h.once _ _ _ hcontent known, same]
    exact published
  | claim => exact .inl hkept
  | recordWrite now claimed read answered =>
    rename_i tx attempt seen ok
    have hattempt := h.claimed tx attempt claimed
    cases ok with
    | true =>
      refine hwritten fun heq => .inl ?_
      rcases hattempt.known with ⟨other, hother, hmessage⟩
      rw [← hattempt.seen seen read, heq] at hother
      rw [h.once _ _ _ hcontent hother, hmessage]
      exact hattempt.accepted answered
    | false =>
      left
      change (Function.update s.rows seen.id _ id).isSome = true
      by_cases heq : id = seen.id
      · rw [heq, Function.update_self, Option.isSome_map, ← heq]
        exact hrow
      · rw [Function.update_of_ne heq]
        exact hrow
  | requeueWrite => exact .inl hkept
  | discardWrite read =>
    rename_i tx seen
    refine hwritten fun heq => .inr ?_
    subst heq
    rcases Option.isSome_iff_exists.mp hrow with ⟨row, hrow⟩
    have hdead := dead_of_discarding h read (requeues_of_undisturbed hundisturbed read) hrow
    change seen.id ∈ if (s.rows seen.id).any _ then seen.id :: s.discarded else s.discarded
    rw [hrow, if_pos (by simp [hdead])]
    exact List.mem_cons_self
  | _ => exact .inl hrow

theorem step_discarded (h : step cfg s a = some u) {id : ℕ} (hid : id ∈ s.discarded) :
    id ∈ u.discarded := by
  cases moves_of_step h with
  | recordWrite =>
    rename_i ok _ _ _ _
    cases ok <;> exact hid
  | discardWrite =>
    rename_i tx seen _
    change id ∈ if (s.rows seen.id).any _ then seen.id :: s.discarded else s.discarded
    split
    · exact List.mem_cons_of_mem _ hid
    · exact hid
  | _ => exact hid

theorem kept_step (h : Inv s) (hkept : Kept s)
    (hstep : guarded (ofStep (step cfg)) Undisturbed s a u) : Kept u := by
  intro id content hcontent
  by_cases hold : (id, content) ∈ s.inserted
  · rcases hkept id content hold with hrow | haccepted | hdiscarded
    · exact step_present h hstep hold hrow
    · exact .inr (.inl (step_accepted hstep.2 haccepted))
    · exact .inr (.inr (step_discarded hstep.2 hdiscarded))
  · cases moves_of_step hstep.2 with
    | record =>
      rcases List.mem_cons.mp hcontent with heq | hcontent
      · obtain ⟨rfl, _⟩ := Prod.mk.inj heq
        left
        change (Function.update s.rows id _ id).isSome = true
        rw [Function.update_self]
        rfl
      · exact absurd hcontent hold
    | recordWrite =>
      rename_i ok _ _ _ _
      cases ok <;> exact absurd hcontent hold
    | _ => exact absurd hcontent hold

theorem kept_of_runs {is : List Action}
    (h : Runs (guarded (ofStep (step cfg)) Undisturbed) start is s) : Inv s ∧ Kept s := by
  refine h.invariant (fun s => Inv s ∧ Kept s) ?_ ⟨inv_start, by simp [Kept, start]⟩
  exact fun s a u hs hstep => ⟨inv_step hs.1 hstep.2, kept_step hs.1 hs.2 hstep⟩

theorem step_content (h : Inv s) {id : ℕ} {row : Row} (hrow : s.rows id = some row)
    {is : List Action} (hruns : Runs (ofStep (step cfg)) s is u) {later : Row}
    (hlater : u.rows id = some later) (hu : Inv u) : later.content = row.content := by
  have hknown : (id, row.content) ∈ u.inserted :=
    hruns.invariant (fun s => (id, row.content) ∈ s.inserted)
      (fun _ _ _ hs hstep => step_inserted hstep hs) (h.present id row hrow)
  exact hu.once id _ _ (hu.present id later hlater) hknown

/-- A row that cannot be replayed stays dead, and a row past its attempts dies at a failure that
is recorded of it as it was read; no row is lost while no deletion lands on a requeued one. -/
theorem outbox_keeps {is : List Action} (h : Runs (ofStep (step cfg)) start is s) :
    (∀ js u, Runs (ofStep (step cfg)) s js u → UnreplayableStaysDead s u) ∧
      DiscardsDead cfg s ∧ Exhausts cfg s ∧
      (Runs (guarded (ofStep (step cfg)) Undisturbed) start is s → Kept s) := by
  have hinv := inv_of_runs h
  refine ⟨fun js u hruns id row later hrow _ hfalse hlater => ?_, discardsDead_of_inv hinv,
    exhausts_of_inv hinv, fun hguarded => (kept_of_runs hguarded).2⟩
  have hu := inv_of_runs (h.trans hruns)
  rw [← step_content hinv hrow hruns hlater hu] at hfalse
  exact hu.unreplayable id later hlater hfalse

def once : Settings := ⟨1, 15, 900⟩

def event : Content := ⟨.assetEvent, ⟨"asset.vulnerability.new", "e1"⟩, none⟩

def refused : List Action :=
  [.record 1 event 0, .claim 1 1 0 1, .republish 1 false false, .recordRead 1, .recordWrite 1 0]

def refusedState : State := runFrom (guardedStep (step once) Undisturbed) start refused

theorem guarded_refused :
    Runs (guarded (ofStep (step once)) Undisturbed) start refused refusedState :=
  (Runs.runFrom _ (by decide +kernel)).of_guardedStep

theorem outbox_keeps_refused :
    (∀ js u, Runs (ofStep (step once)) refusedState js u → UnreplayableStaysDead refusedState u) ∧
      DiscardsDead once refusedState ∧ Exhausts once refusedState ∧ Kept refusedState :=
  have hall := outbox_keeps guarded_refused.of_guarded
  ⟨hall.1, hall.2.1, hall.2.2.1, hall.2.2.2 guarded_refused⟩

def discarded : List Action :=
  refused ++ [.discardRead 2 1, .requeueRead 3 1, .requeueWrite 3 10, .discardWrite 2]

def discardedState : State := runFrom (step once) start discarded

theorem not_kept_discarded :
    Runs (ofStep (step once)) start discarded discardedState ∧ ¬ Kept discardedState := by
  refine ⟨Runs.runFrom _ (by decide +kernel), fun h => ?_⟩
  have hlost := h 1 event (by decide +kernel)
  revert hlost
  decide +kernel

end Results

end Shapoclyack.NatsOutbox
