import Shapoclyack.Library.Runs
import Shapoclyack.Library.TableCounts

set_option autoImplicit false

namespace Shapoclyack.IdempotencyKeys

open Library

section Records

/-- A stored response, with the request that produced it. -/
structure Answer where
  producer : ℕ
  body : String
deriving DecidableEq

structure Record where
  id : ℕ
  digest : String
  response : Option Answer
  createdAt : ℤ
  /-- The request that inserted the row, or the last to take it over: the row does not say. -/
  holder : ℕ
deriving DecidableEq

def reservationLeaseSeconds : ℕ := 15 * 60

def retentionSeconds : ℕ := 24 * 3600

def reserveAttempts : ℕ := 2

def before (now : ℤ) (seconds : ℕ) : ℤ := now - seconds * 1000000

def leased (now : ℤ) (row : Record) : Bool :=
  decide (now - row.createdAt < reservationLeaseSeconds * 1000000)

end Records

section Requests

/-- How far one request has come with its key. -/
inductive Phase where
  /-- About to insert the row, with so many attempts after this one. -/
  | inserting (left : ℕ)
  /-- The insert lost, and the row that is there is read next. -/
  | looking (left : ℕ)
  /-- It has read a reservation whose lease is up. -/
  | claiming (row : ℕ)
  /-- The key is its own to execute. -/
  | executing
  /-- `complete` has read the row that it is about to write. -/
  | completing (row : ℕ)
  | replayed (answer : Answer)
  | refused
  | ended
deriving DecidableEq

structure Request where
  id : ℕ
  digest : String
  phase : Phase
deriving DecidableEq

structure Keyed where
  record : Option Record
  nextId : ℕ
  requests : Table Request.id

def Keyed.start : Keyed := ⟨none, 0, Table.empty Request.id⟩

inductive Act where
  | arrive (id : ℕ) (digest : String)
  | insert (id : ℕ) (now : ℤ)
  | look (id : ℕ) (now : ℤ)
  /-- `_claim_expired` -/
  | claimExpired (id : ℕ) (now stampedAt : ℤ)
  /-- `complete` reads the row. -/
  | find (id : ℕ)
  /-- `complete` writes the answer on the row that it read. -/
  | store (id : ℕ) (body : String)
  | release (id : ℕ)
  | crash (id : ℕ)
  | purge (now : ℤ)

def Act.request : Act → Option ℕ
  | .insert id _ | .look id _ | .claimExpired id _ _ | .find id | .store id _ | .release id
  | .crash id => some id
  | .arrive _ _ | .purge _ => none

/-- What one step of a request does: the row it leaves, and where the request stands. -/
def requestStep (q : Keyed) (a : Request) : Act → Option (Option Record × Phase)
  | .insert _ now =>
    match a.phase, q.record with
    | .inserting _, none => some (some ⟨q.nextId, a.digest, none, now, a.id⟩, .executing)
    | .inserting left, some row => some (some row, .looking left)
    | _, _ => none
  | .look _ now =>
    match a.phase, q.record with
    | .looking 0, none => some (none, .refused)
    | .looking (left + 1), none => some (none, .inserting left)
    | .looking _, some row =>
      match row.response with
      | none => some (some row, if leased now row then .refused else .claiming row.id)
      | some answer =>
        some (some row,
          if row.digest ≠ "" ∧ row.digest ≠ a.digest then .refused else .replayed answer)
    | _, _ => none
  | .claimExpired _ now stampedAt =>
    match a.phase, q.record with
    | .claiming id, some row =>
      if row.id = id ∧ row.response = none ∧
          row.createdAt < before now reservationLeaseSeconds then
        some (some { row with digest := a.digest, createdAt := stampedAt, holder := a.id },
          .executing)
      else some (some row, .refused)
    | .claiming _, none => some (none, .refused)
    | _, _ => none
  | .find _ =>
    match a.phase, q.record with
    | .executing, none => some (none, .ended)
    | .executing, some row => some (some row, .completing row.id)
    | _, _ => none
  | .store _ body =>
    match a.phase, q.record with
    | .completing id, some row =>
      if row.id = id then some (some { row with response := some ⟨a.id, body⟩ }, .ended)
      else some (some row, .ended)
    | .completing _, none => some (none, .ended)
    | _, _ => none
  | .release _ =>
    if a.phase = .executing then
      some (q.record.filter fun row => row.response.isSome, .ended)
    else none
  | .crash _ => some (q.record, .ended)
  | .arrive _ _ => none
  | .purge _ => none

def Keyed.step (q : Keyed) (act : Act) : Option Keyed :=
  match act with
  | .arrive id digest =>
    -- a digest is a hash in hexadecimal, and never empty
    if h : q.requests.get id = none then
      if digest = "" then none
      else some { q with
        requests := q.requests.append ⟨id, digest, .inserting (reserveAttempts - 1)⟩ h }
    else none
  | .purge now =>
    some { q with
      record := q.record.filter fun row => decide (before now retentionSeconds ≤ row.createdAt) }
  | act =>
    match act.request.bind q.requests.get with
    | none => none
    | some a =>
      (requestStep q a act).map fun outcome => {
        record := outcome.1
        -- no id is given twice
        nextId := q.nextId + 1
        requests := q.requests.put { a with phase := outcome.2 } }

abbrev keyStep : Keyed → Act → Keyed → Prop := ofStep Keyed.step

end Requests

section Steps

variable {q q' : Keyed} {a : Request} {act : Act}

/-- What a step of a request can do to the row. -/
inductive Effect (q : Keyed) (a : Request) : Act → Option Record → Phase → Prop where
  | reads (act : Act) (phase : Phase)
      (honest : ∀ answer, phase = .replayed answer → ∃ row, q.record = some row ∧
        row.response = some answer ∧ (row.digest = "" ∨ row.digest = a.digest)) :
      Effect q a act q.record phase
  | inserts (id : ℕ) (now : ℤ) (free : q.record = none) :
      Effect q a (.insert id now) (some ⟨q.nextId, a.digest, none, now, a.id⟩) .executing
  | takesOver (id : ℕ) (now stampedAt : ℤ) (row : Record) (held : q.record = some row)
      (unanswered : row.response = none) :
      Effect q a (.claimExpired id now stampedAt)
        (some { row with digest := a.digest, createdAt := stampedAt, holder := a.id }) .executing
  | stores (id : ℕ) (body : String) (row : Record) (completing : a.phase = .completing row.id)
      (held : q.record = some row) :
      Effect q a (.store id body) (some { row with response := some ⟨a.id, body⟩ }) .ended
  | releases (id : ℕ) (row : Record) (held : q.record = some row)
      (unanswered : row.response = none) : Effect q a (.release id) none .ended

theorem Effect.quiet {phase : Phase} (h : ∀ answer, phase ≠ .replayed answer)
    {record : Option Record} (hrecord : q.record = record) : Effect q a act record phase := by
  rw [← hrecord]
  exact .reads act phase fun answer heq => absurd heq (h answer)

/-- Every step of a request is one of the five. -/
theorem requestStep_effect {outcome : Option Record × Phase}
    (h : requestStep q a act = some outcome) : Effect q a act outcome.1 outcome.2 := by
  cases act with
  | arrive | purge => simp [requestStep] at h
  | insert id now =>
    simp only [requestStep] at h
    split at h
    · next hfree =>
      rw [← Option.some.inj h]
      exact .inserts id now hfree
    · next hheld =>
      rw [← Option.some.inj h]
      exact .quiet (by simp) hheld
    · simp at h
  | look id now =>
    simp only [requestStep] at h
    split at h
    · next hfree =>
      rw [← Option.some.inj h]
      exact .quiet (by simp) hfree
    · next hfree =>
      rw [← Option.some.inj h]
      exact .quiet (by simp) hfree
    · next row _ hheld =>
      split at h
      · rw [← Option.some.inj h]
        refine .quiet (fun answer => ?_) hheld
        split_ifs <;> simp
      · next answer hanswer =>
        rw [← Option.some.inj h, ← hheld]
        refine .reads _ _ fun given hgiven => ?_
        split_ifs at hgiven with hother
        · obtain rfl : answer = given := by simpa using hgiven
          refine ⟨row, hheld, hanswer, ?_⟩
          by_cases hempty : row.digest = ""
          · exact .inl hempty
          · exact .inr (not_not.mp fun hne => hother ⟨hempty, hne⟩)
    · simp at h
  | claimExpired id now stampedAt =>
    simp only [requestStep] at h
    split at h
    · next row _ hheld =>
      split_ifs at h with hexpired
      · rw [← Option.some.inj h]
        exact .takesOver id now stampedAt row hheld hexpired.2.1
      · rw [← Option.some.inj h]
        exact .quiet (by simp) hheld
    · next hfree =>
      rw [← Option.some.inj h]
      exact .quiet (by simp) hfree
    · simp at h
  | find id =>
    simp only [requestStep] at h
    split at h
    · next hfree =>
      rw [← Option.some.inj h]
      exact .quiet (by simp) hfree
    · next hheld =>
      rw [← Option.some.inj h]
      exact .quiet (by simp) hheld
    · simp at h
  | store id body =>
    simp only [requestStep] at h
    split at h
    · next rowId row hphase hheld =>
      split_ifs at h with hid
      · rw [← Option.some.inj h]
        exact .stores id body row (by rw [hphase, hid]) hheld
      · rw [← Option.some.inj h]
        exact .quiet (by simp) hheld
    · next hfree =>
      rw [← Option.some.inj h]
      exact .quiet (by simp) hfree
    · simp at h
  | release id =>
    simp only [requestStep] at h
    split_ifs at h
    rw [← Option.some.inj h]
    cases hrecord : q.record with
    | none => exact .quiet (by simp) (by rw [hrecord]; rfl)
    | some row =>
      cases hresponse : row.response with
      | none =>
        simp only [Option.filter_some, hresponse, Option.isSome_none, Bool.false_eq_true, if_false]
        exact .releases id row hrecord hresponse
      | some answer =>
        simp only [Option.filter_some, hresponse, Option.isSome_some, if_true]
        exact .quiet (by simp) hrecord
  | crash id =>
    rw [← Option.some.inj h]
    exact .quiet (by simp) rfl

/-- A request stores its answer, or gives its key back, only where the row is still the one it
reserved: no other request has taken it over, or made it anew, in between. -/
def stillHeld (q : Keyed) : Act → Prop
  | .store id _ => ∀ a row, q.requests.get id = some a → q.record = some row →
      a.phase = .completing row.id → row.holder = id
  | .release id => ∀ row, q.record = some row → row.response = none → row.holder = id
  | _ => True

def Sent (q : Keyed) (id : ℕ) (digest : String) : Prop :=
  ∃ b, q.requests.get id = some b ∧ b.digest = digest

def Over (q : Keyed) (id : ℕ) : Prop :=
  ∃ b, q.requests.get id = some b ∧ b.phase = .ended

/-- A row carries its holder's digest, an answered row an answer to that digest whose holder is
done, and an answer handed back answers the digest it was asked for. -/
structure KeyInv (q : Keyed) : Prop where
  held : ∀ row, q.record = some row → row.digest ≠ "" ∧ Sent q row.holder row.digest
  answered : ∀ row answer, q.record = some row → row.response = some answer →
    Sent q answer.producer row.digest ∧ Over q row.holder
  sent : ∀ a ∈ q.requests.rows, a.digest ≠ ""
  replayed : ∀ a ∈ q.requests.rows, ∀ answer, a.phase = .replayed answer →
    Sent q answer.producer a.digest

theorem start_inv : KeyInv Keyed.start where
  held row h := absurd h (by simp [Keyed.start])
  answered row answer h := absurd h (by simp [Keyed.start])
  sent a h := absurd h (by simp [Keyed.start, Table.empty])
  replayed a h := absurd h (by simp [Keyed.start, Table.empty])

structure Keeps (q q' : Keyed) : Prop where
  sent : ∀ id digest, Sent q id digest → Sent q' id digest
  ended : ∀ id, Over q id → Over q' id

theorem keeps_append {id : ℕ} {digest : String} {phase : Phase} {record : Option Record} {n : ℕ}
    (h : q.requests.get id = none) :
    Keeps q ⟨record, n, q.requests.append ⟨id, digest, phase⟩ h⟩ := by
  have hget : ∀ other b, q.requests.get other = some b →
      (q.requests.append ⟨id, digest, phase⟩ h).get other = some b := by
    intro other b hb
    have hne : id ≠ other := fun heq => by
      rw [← heq, h] at hb
      exact absurd hb (by simp)
    rw [Table.get_append, if_neg hne]
    exact hb
  constructor
  · rintro other digest ⟨b, hb, hdigest⟩
    exact ⟨b, hget other b hb, hdigest⟩
  · rintro other ⟨b, hb, hover⟩
    exact ⟨b, hget other b hb, hover⟩

theorem get_moved {phase : Phase} (ha : q.requests.get a.id = some a) (other : ℕ) :
    (q.requests.put { a with phase := phase }).get other =
      if other = a.id then some { a with phase := phase } else q.requests.get other := by
  rw [Table.get_put]
  split_ifs with heq
  · rw [heq, ha]
    rfl
  · rfl

theorem keeps_moved {phase : Phase} {record : Option Record} {n : ℕ}
    (ha : q.requests.get a.id = some a) (hphase : a.phase = .ended → phase = .ended) :
    Keeps q ⟨record, n, q.requests.put { a with phase := phase }⟩ := by
  constructor
  · rintro other digest ⟨b, hb, hdigest⟩
    by_cases heq : other = a.id
    · rw [heq, ha] at hb
      rw [← Option.some.inj hb] at hdigest
      exact ⟨{ a with phase := phase }, by rw [get_moved ha, if_pos heq], hdigest⟩
    · exact ⟨b, by rw [get_moved ha, if_neg heq, hb], hdigest⟩
  · rintro other ⟨b, hb, hover⟩
    by_cases heq : other = a.id
    · rw [heq, ha] at hb
      rw [← Option.some.inj hb] at hover
      exact ⟨{ a with phase := phase }, by rw [get_moved ha, if_pos heq], hphase hover⟩
    · exact ⟨b, by rw [get_moved ha, if_neg heq, hb], hover⟩

theorem KeyInv.keep (inv : KeyInv q) (hkeeps : Keeps q q')
    (hrecord : ∀ row, q'.record = some row → q.record = some row)
    (hsent : ∀ b ∈ q'.requests.rows, b.digest ≠ "")
    (hreplayed : ∀ b ∈ q'.requests.rows, ∀ answer, b.phase = .replayed answer →
      Sent q' answer.producer b.digest) : KeyInv q' where
  held row hrow := by
    obtain ⟨hne, hholder⟩ := inv.held row (hrecord row hrow)
    exact ⟨hne, hkeeps.sent _ _ hholder⟩
  answered row answer hrow hanswer := by
    obtain ⟨hsentby, hover⟩ := inv.answered row answer (hrecord row hrow) hanswer
    exact ⟨hkeeps.sent _ _ hsentby, hkeeps.ended _ hover⟩
  sent := hsent
  replayed := hreplayed

theorem moved_sent (inv : KeyInv q) (ha : q.requests.get a.id = some a) {phase : Phase} :
    ∀ b ∈ (q.requests.put { a with phase := phase }).rows, b.digest ≠ "" := by
  intro b hb
  rcases Table.mem_put hb with rfl | ⟨hold, _⟩
  · exact inv.sent a ((q.requests.get_eq_some_iff a.id a).mp ha).1
  · exact inv.sent b hold

theorem moved_replayed (inv : KeyInv q) {phase : Phase} {record : Option Record} {n : ℕ}
    (hkeeps : Keeps q ⟨record, n, q.requests.put { a with phase := phase }⟩)
    (hphase : ∀ answer, phase = .replayed answer → Sent q answer.producer a.digest) :
    ∀ b ∈ (q.requests.put { a with phase := phase }).rows, ∀ answer,
      b.phase = .replayed answer →
        Sent ⟨record, n, q.requests.put { a with phase := phase }⟩ answer.producer b.digest := by
  intro b hb answer hanswer
  rcases Table.mem_put hb with rfl | ⟨hold, _⟩
  · exact hkeeps.sent _ _ (hphase answer hanswer)
  · exact hkeeps.sent _ _ (inv.replayed b hold answer hanswer)

theorem ended_stays {outcome : Option Record × Phase} (hphase : a.phase = .ended)
    (h : requestStep q a act = some outcome) : outcome.2 = .ended := by
  cases act with
  | crash id => rw [← Option.some.inj h]
  | _ => simp [requestStep, hphase] at h

/-- Every step of a request that still holds what it writes keeps the invariant. -/
theorem effect_inv (inv : KeyInv q) (hheld : stillHeld q act)
    (ha : q.requests.get a.id = some a) (hact : act.request = some a.id)
    {outcome : Option Record × Phase} (h : requestStep q a act = some outcome) {n : ℕ} :
    KeyInv ⟨outcome.1, n, q.requests.put { a with phase := outcome.2 }⟩ := by
  have hkeeps : Keeps q ⟨outcome.1, n, q.requests.put { a with phase := outcome.2 }⟩ :=
    keeps_moved ha fun hphase => ended_stays hphase h
  have hdigest : a.digest ≠ "" := inv.sent a ((q.requests.get_eq_some_iff a.id a).mp ha).1
  have hself : Sent ⟨outcome.1, n, q.requests.put { a with phase := outcome.2 }⟩ a.id a.digest :=
    hkeeps.sent a.id a.digest ⟨a, ha, rfl⟩
  have hsent : ∀ b ∈ (q.requests.put { a with phase := outcome.2 }).rows, b.digest ≠ "" :=
    moved_sent inv ha
  have heffect := requestStep_effect h
  generalize outcome.1 = record at *
  generalize outcome.2 = phase at *
  cases heffect with
  | reads _ _ honest =>
    refine inv.keep hkeeps (fun row hrow => hrow) hsent (moved_replayed inv hkeeps ?_)
    intro answer hanswer
    obtain ⟨row, hrow, hresponse, hmatch⟩ := honest answer hanswer
    have hrowDigest : row.digest = a.digest := hmatch.resolve_left (inv.held row hrow).1
    rw [← hrowDigest]
    exact (inv.answered row answer hrow hresponse).1
  | inserts id now free =>
    refine ⟨fun row hrow => ?_, fun row answer hrow hanswer => ?_, hsent,
      moved_replayed inv hkeeps (by simp)⟩
    · obtain rfl := Option.some.inj hrow
      exact ⟨hdigest, hself⟩
    · obtain rfl := Option.some.inj hrow
      exact absurd hanswer (by simp)
  | takesOver id now stampedAt row held unanswered =>
    refine ⟨fun row' hrow => ?_, fun row' answer hrow hanswer => ?_, hsent,
      moved_replayed inv hkeeps (by simp)⟩
    · obtain rfl := Option.some.inj hrow
      exact ⟨hdigest, hself⟩
    · obtain rfl := Option.some.inj hrow
      exact absurd hanswer (by simp [unanswered])
  | stores id body row completing held =>
    obtain rfl : id = a.id := Option.some.inj hact
    have hholder : row.holder = a.id := hheld a row ha held completing
    have hrowDigest : Sent q row.holder row.digest := (inv.held row held).2
    have hproducer : Sent q a.id row.digest := by
      rw [← hholder]
      exact hrowDigest
    refine ⟨fun row' hrow => ?_, fun row' answer hrow hanswer => ?_, hsent,
      moved_replayed inv hkeeps (by simp)⟩
    · obtain rfl := Option.some.inj hrow
      exact ⟨(inv.held row held).1, hkeeps.sent _ _ hrowDigest⟩
    · obtain rfl := Option.some.inj hrow
      obtain rfl := Option.some.inj hanswer
      refine ⟨hkeeps.sent _ _ hproducer, ?_⟩
      rw [hholder]
      exact ⟨{ a with phase := .ended }, by rw [get_moved ha, if_pos rfl], rfl⟩
  | releases id row held unanswered =>
    exact inv.keep hkeeps (fun row' hrow => absurd hrow (by simp)) hsent
      (moved_replayed inv hkeeps (by simp))

theorem step_inv (inv : KeyInv q) (hheld : stillHeld q act) (h : keyStep q act q') :
    KeyInv q' := by
  unfold keyStep ofStep at h
  cases act with
  | arrive id digest =>
    simp only [Keyed.step] at h
    split_ifs at h with hfree hdigest
    rw [← Option.some.inj h]
    refine inv.keep (keeps_append hfree) (fun row hrow => hrow) (fun b hb => ?_)
      fun b hb answer hanswer => ?_
    · rcases List.mem_append.mp hb with hold | hnew
      · exact inv.sent b hold
      · obtain rfl := List.mem_singleton.mp hnew
        exact hdigest
    · rcases List.mem_append.mp hb with hold | hnew
      · exact (keeps_append hfree).sent _ _ (inv.replayed b hold answer hanswer)
      · obtain rfl := List.mem_singleton.mp hnew
        exact absurd hanswer (by simp)
  | purge now =>
    rw [← Option.some.inj h]
    refine inv.keep ⟨fun _ _ h => h, fun _ h => h⟩ (fun row hrow => ?_) inv.sent inv.replayed
    exact (Option.filter_eq_some_iff.mp hrow).1
  | _ =>
    simp only [Keyed.step] at h
    split at h
    · simp at h
    · next a hget =>
      obtain ⟨outcome, hstep, rfl⟩ := Option.map_eq_some_iff.mp h
      rw [Act.request, Option.bind_some] at hget
      have ha := (q.requests.get_eq_some_iff _ a).mp hget
      rw [← ha.2] at hget
      exact effect_inv inv hheld hget (by rw [Act.request, ha.2]) hstep

theorem effect_answered (inv : KeyInv q) (hheld : stillHeld q act) {id : ℕ}
    (hget : q.requests.get id = some a) {record : Option Record} {phase : Phase}
    (heffect : Effect q a act record phase) (hid : act.request = some id) {row : Record}
    {answer : Answer} (hrow : q.record = some row) (hanswer : row.response = some answer) :
    ∃ row', record = some row' ∧ row'.response = some answer := by
  cases heffect with
  | reads => exact ⟨row, hrow, hanswer⟩
  | inserts _ _ free => exact absurd (hrow.symm.trans free) (by simp)
  | takesOver _ _ _ other held unanswered =>
    obtain rfl := Option.some.inj (hrow.symm.trans held)
    exact absurd (hanswer.symm.trans unanswered) (by simp)
  | releases _ other held unanswered =>
    obtain rfl := Option.some.inj (hrow.symm.trans held)
    exact absurd (hanswer.symm.trans unanswered) (by simp)
  | stores given body other completing held =>
    -- the holder of an answered row is done, and the request that stores still holds its row
    obtain rfl : given = id := Option.some.inj hid
    obtain rfl := Option.some.inj (hrow.symm.trans held)
    have hholder := hheld a row hget hrow completing
    obtain ⟨b, hb, hover⟩ := (inv.answered row answer hrow hanswer).2
    rw [hholder, hget] at hb
    rw [← Option.some.inj hb, completing] at hover
    exact absurd hover (by simp)

theorem answer_kept (inv : KeyInv q) (hheld : stillHeld q act) (h : keyStep q act q')
    {row : Record} {answer : Answer} (hrow : q.record = some row)
    (hanswer : row.response = some answer) :
    (∃ row', q'.record = some row' ∧ row'.response = some answer) ∨
      ∃ now, act = .purge now ∧ row.createdAt < before now retentionSeconds := by
  unfold keyStep ofStep at h
  cases act with
  | arrive id digest =>
    simp only [Keyed.step] at h
    split_ifs at h
    rw [← Option.some.inj h]
    exact .inl ⟨row, hrow, hanswer⟩
  | purge now =>
    rw [← Option.some.inj h]
    by_cases hexpired : row.createdAt < before now retentionSeconds
    · exact .inr ⟨now, rfl, hexpired⟩
    · refine .inl ⟨row, ?_, hanswer⟩
      simp only [hrow, Option.filter_some, not_lt.mp hexpired, decide_true, if_true]
  | _ =>
    left
    simp only [Keyed.step] at h
    split at h
    · simp at h
    · next a hget =>
      obtain ⟨outcome, hstep, rfl⟩ := Option.map_eq_some_iff.mp h
      rw [Act.request, Option.bind_some] at hget
      exact effect_answered inv hheld hget (requestStep_effect hstep) rfl hrow hanswer

theorem late_harmless (hheld : stillHeld q act) (h : keyStep q act q') {row : Record}
    (hrow : q.record = some row) {id : ℕ}
    (hact : (∃ body, act = .store id body) ∨ act = .release id) (hother : row.holder ≠ id) :
    q'.record = some row := by
  unfold keyStep ofStep at h
  have hrequest : act.request = some id := by rcases hact with ⟨body, rfl⟩ | rfl <;> rfl
  have hstep : ∃ a outcome, q.requests.get id = some a ∧ requestStep q a act = some outcome ∧
      q'.record = outcome.1 := by
    rcases hact with ⟨body, rfl⟩ | rfl
    all_goals
      simp only [Keyed.step] at h
      split at h
      · simp at h
      · next a hget =>
        obtain ⟨outcome, hstep, rfl⟩ := Option.map_eq_some_iff.mp h
        exact ⟨a, outcome, hget, hstep, rfl⟩
  obtain ⟨a, outcome, hget, hstep, hrecord⟩ := hstep
  rw [hrecord]
  have heffect := requestStep_effect hstep
  generalize outcome.1 = record at *
  generalize outcome.2 = phase at *
  cases heffect with
  | reads => exact hrow
  | inserts | takesOver => rcases hact with ⟨body, hact⟩ | hact <;> exact absurd hact (by simp)
  | stores given body held completing hsome =>
    obtain rfl : given = id := Option.some.inj hrequest
    obtain rfl := Option.some.inj (hrow.symm.trans hsome)
    exact absurd (hheld a row hget hrow completing) hother
  | releases given held hsome unanswered =>
    obtain rfl : given = id := Option.some.inj hrequest
    obtain rfl := Option.some.inj (hrow.symm.trans hsome)
    exact absurd (hheld row hrow unanswered) hother

/-- Where no request stores or gives back after another has reserved the key: every answer handed
back was produced by a request with the same digest, a stored answer stays until it is purged, and
a store or a release leaves another request's reservation as it was. -/
theorem replays_honest {acts : List Act}
    (h : Runs (guarded keyStep stillHeld) Keyed.start acts q) :
    (∀ a ∈ q.requests.rows, ∀ answer, a.phase = .replayed answer →
      Sent q answer.producer a.digest) ∧
    ∀ act q', guarded keyStep stillHeld q act q' → ∀ row, q.record = some row →
      (∀ answer, row.response = some answer →
        (∃ row', q'.record = some row' ∧ row'.response = some answer) ∨
          ∃ now, act = .purge now ∧ row.createdAt < before now retentionSeconds) ∧
      ∀ id, (∃ body, act = .store id body) ∨ act = .release id → row.holder ≠ id →
        q'.record = some row := by
  have inv : KeyInv q := h.invariant KeyInv
    (fun _ _ _ inv hstep => step_inv inv hstep.1 hstep.2) start_inv
  refine ⟨inv.replayed, fun act q' hstep row hrow => ⟨fun answer hanswer => ?_,
    fun id hact hother => ?_⟩⟩
  · exact answer_kept inv hstep.1 hstep.2 hrow hanswer
  · exact late_harmless hstep.1 hstep.2 hrow hact hother

end Steps

section Overrun

def minutes (n : ℕ) : ℤ := n * 60 * 1000000

def keyed (acts : List Act) : Keyed := runFrom Keyed.step Keyed.start acts

/-- A request reserves the key and runs past its lease, a second one takes the key over for another
body, and a third asks for what the second sent. -/
def overrun : List Act :=
  [.arrive 1 "a", .insert 1 0, .arrive 2 "b", .insert 2 (minutes 16), .look 2 (minutes 16),
    .claimExpired 2 (minutes 16) (minutes 16), .find 1, .store 1 "first", .arrive 3 "b",
    .insert 3 (minutes 17), .look 3 (minutes 17)]

/-- The third request is handed the first one's answer, made for another body. -/
theorem overrun_replays_other :
    Runs keyStep Keyed.start overrun (keyed overrun) ∧
    (keyed overrun).requests.get 3 = some ⟨3, "b", .replayed ⟨1, "first"⟩⟩ ∧
    ((keyed overrun).requests.get 1).map Request.digest = some "a" ∧
    ((keyed overrun).requests.get 2).map Request.phase = some .executing :=
  ⟨Runs.runFrom Keyed.step (by decide +kernel), by decide +kernel⟩

/-- A request that runs past its lease and fails gives back the reservation of the one that took
its key over. -/
theorem overrun_releases_other :
    (keyed (overrun.take 6)).record.map Record.holder = some 2 ∧
    (keyed (overrun.take 6 ++ [.release 1])).record = none := by
  decide +kernel

def answered : List Act :=
  [.arrive 1 "a", .insert 1 0, .find 1, .store 1 "first", .arrive 2 "a", .insert 2 (minutes 1),
    .look 2 (minutes 1)]

theorem answered_replays :
    Sent (keyed answered) 1 "a" ∧
      (keyed answered).requests.get 2 = some ⟨2, "a", .replayed ⟨1, "first"⟩⟩ := by
  have hstored : guarded keyStep stillHeld (keyed (answered.take 3)) (.store 1 "first")
      (keyed (answered.take 4)) := by
    refine ⟨fun a row _ hrow _ => ?_, rfl⟩
    have hholder : (keyed (answered.take 3)).record.map Record.holder = some 1 := by
      decide +kernel
    rw [hrow] at hholder
    exact Option.some.inj hholder
  have hbefore : Runs (guarded keyStep stillHeld) Keyed.start (answered.take 3)
      (keyed (answered.take 3)) :=
    .next ⟨trivial, rfl⟩ (.next ⟨trivial, rfl⟩ (.next ⟨trivial, rfl⟩ (.refl _)))
  have hafter : Runs (guarded keyStep stillHeld) (keyed (answered.take 4)) (answered.drop 4)
      (keyed answered) :=
    .next ⟨trivial, rfl⟩ (.next ⟨trivial, rfl⟩ (.next ⟨trivial, rfl⟩ (.refl _)))
  have hrun := (hbefore.trans (Runs.one hstored)).trans hafter
  have hreplayed : (keyed answered).requests.get 2 = some ⟨2, "a", .replayed ⟨1, "first"⟩⟩ := by
    decide +kernel
  have hmem := ((keyed answered).requests.get_eq_some_iff 2 _).mp hreplayed
  exact ⟨(replays_honest hrun).1 _ hmem.1 ⟨1, "first"⟩ rfl, hreplayed⟩

end Overrun

end Shapoclyack.IdempotencyKeys
