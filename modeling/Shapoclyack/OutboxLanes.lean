import Mathlib.Data.List.Sort
import Mathlib.Data.Prod.Lex
import Shapoclyack.Library.TableCounts
import Shapoclyack.NatsOutbox

set_option autoImplicit false

namespace Shapoclyack.OutboxLanes

open Library NatsOutbox

section Claims

variable {Id : Type} [LinearOrder Id]

structure Entry (Id : Type) where
  id : Id
  createdAt : ℤ
  row : Row
deriving DecidableEq

def Entry.place (entry : Entry Id) : ℤ ×ₗ ℤ ×ₗ Id :=
  toLex (entry.row.nextAttemptAt.getD 0, toLex (entry.createdAt, entry.id))

def Entry.ahead (a b : Entry Id) : Prop := a.place ≤ b.place

instance : DecidableRel (@Entry.ahead Id _) := fun a b =>
  inferInstanceAs (Decidable (a.place ≤ b.place))

def isIngest (entry : Entry Id) : Bool := entry.row.content.kind == .ingest

def isOther (entry : Entry Id) : Bool := entry.row.content.kind != .ingest

/-- The pending rows whose time has come and that no peer holds. -/
def due (entries : List (Entry Id)) (held : Id → Bool) (now : ℤ) : List (Entry Id) :=
  entries.filter fun entry => entry.row.due now && !held entry.id

def inOrder (entries : List (Entry Id)) : List (Entry Id) := entries.insertionSort Entry.ahead

/-- `_take`. -/
def window (ready : List (Entry Id)) (lane : Entry Id → Bool) (limit : ℕ) : List (Entry Id) :=
  (inOrder (ready.filter lane)).take limit

/-- The rows that `_claim_due` takes. -/
def claimDue (ready : List (Entry Id)) (limit : ℕ) : List (Entry Id) :=
  if limit = 0 then []
  else if limit = 1 then window ready (fun _ => true) 1
  else
    let ingest := window ready isIngest (limit / 2)
    let rows := ingest ++ window ready isOther (limit - ingest.length)
    rows ++ window ready (fun entry => isIngest entry && !(rows.map Entry.id).contains entry.id)
      (limit - rows.length)

/-- What a batch owes the rows that are due: as many as it may take, each kind its share and in
the order of due time. -/
structure Shares (ready rows : List (Entry Id)) (limit : ℕ) : Prop where
  length : rows.length = min limit ready.length
  distinct : (rows.map Entry.id).Nodup
  due : ∀ entry ∈ rows, entry ∈ ready
  ingest : min (ready.countP isIngest) (limit / 2) ≤ rows.countP isIngest
  other : min (ready.countP isOther) (limit - limit / 2) ≤ rows.countP isOther
  ingestFirst : rows.filter isIngest =
    (inOrder (ready.filter isIngest)).take (rows.countP isIngest)
  otherFirst : rows.filter isOther = (inOrder (ready.filter isOther)).take (rows.countP isOther)

end Claims

section Windows

variable {Id : Type} [LinearOrder Id] {ready : List (Entry Id)}

theorem mem_inOrder {entry : Entry Id} : entry ∈ inOrder ready ↔ entry ∈ ready :=
  List.mem_insertionSort Entry.ahead

theorem inOrder_perm (ready : List (Entry Id)) : (inOrder ready).Perm ready :=
  List.perm_insertionSort Entry.ahead ready

theorem inOrder_sorted (ready : List (Entry Id)) : (inOrder ready).Pairwise Entry.ahead := by
  have htotal : Std.Total (@Entry.ahead Id _) := ⟨fun a b => le_total a.place b.place⟩
  have htrans : IsTrans (Entry Id) Entry.ahead := ⟨fun a b c => le_trans⟩
  exact List.pairwise_insertionSort Entry.ahead ready

omit [LinearOrder Id] in
theorem id_of_place {a b : Entry Id} (h : a.place = b.place) : a.id = b.id :=
  (Prod.mk.inj (toLex.injective (Prod.mk.inj (toLex.injective h)).2)).2

theorem due_of_ahead {a b : Entry Id} {first later : ℤ} (h : a.ahead b)
    (hfirst : first ∈ a.row.nextAttemptAt) (hlater : later ∈ b.row.nextAttemptAt) :
    first ≤ later := by
  have hle := Prod.Lex.monotone_fst a.place b.place h
  simp only [Entry.place, ofLex_toLex, Option.mem_def.mp hfirst, Option.mem_def.mp hlater] at hle
  exact hle

theorem inOrder_filter (hids : (ready.map Entry.id).Nodup) (lane : Entry Id → Bool) :
    inOrder (ready.filter lane) = (inOrder ready).filter lane := by
  refine List.Perm.eq_of_pairwise ?_ (inOrder_sorted _) ((inOrder_sorted ready).filter _) ?_
  · intro a b ha hb hab hba
    have hready : a ∈ ready := (List.mem_filter.mp (mem_inOrder.mp ha)).1
    have hother : b ∈ ready := mem_inOrder.mp (List.mem_filter.mp hb).1
    exact eq_of_key_eq hids hready hother (id_of_place (le_antisymm hab hba))
  · exact (inOrder_perm _).trans ((inOrder_perm ready).symm.filter lane)

theorem inOrder_nodup (hids : (ready.map Entry.id).Nodup) : (inOrder ready).Nodup :=
  (inOrder_perm ready).nodup_iff.mpr (List.Nodup.of_map Entry.id hids)

theorem filter_not_mem_take {α : Type} [DecidableEq α] {l : List α} (h : l.Nodup) (k : ℕ) :
    (l.filter fun a => decide (a ∉ l.take k)) = l.drop k := by
  have hsplit : ((l.take k ++ l.drop k).filter fun a => decide (a ∉ l.take k)) = l.drop k := by
    have hdisjoint := List.disjoint_take_drop h (le_refl k)
    rw [List.filter_append, List.filter_eq_nil_iff.mpr (by simp), List.nil_append]
    refine List.filter_eq_self.mpr fun a ha => decide_eq_true fun hmem => ?_
    exact hdisjoint hmem ha
  rwa [List.take_append_drop] at hsplit

omit [LinearOrder Id] in
theorem isOther_eq (entry : Entry Id) : isOther entry = !isIngest entry := rfl

theorem claimDue_eq (hids : (ready.map Entry.id).Nodup) {limit : ℕ} (hlimit : 2 ≤ limit) :
    let ingest := (inOrder ready).filter isIngest
    let other := (inOrder ready).filter isOther
    let rows := ingest.take (limit / 2) ++ other.take (limit - (ingest.take (limit / 2)).length)
    claimDue ready limit =
      rows ++ (ingest.drop (limit / 2)).take (limit - rows.length) := by
  intro ingest other rows
  unfold claimDue window
  rw [if_neg (by omega), if_neg (by omega)]
  simp only [inOrder_filter hids]
  have hrest : (inOrder ready).filter (fun entry => isIngest entry &&
      !(rows.map Entry.id).contains entry.id) = ingest.drop (limit / 2) := by
    have hnodup : ingest.Nodup := (inOrder_nodup hids).filter isIngest
    rw [← filter_not_mem_take hnodup, List.filter_filter]
    refine List.filter_congr fun entry hentry => ?_
    rw [Bool.and_comm]
    cases hlane : isIngest entry with
    | false => rw [Bool.and_false, Bool.and_false]
    | true =>
      rw [Bool.and_true, Bool.and_true, Bool.eq_iff_iff, Bool.not_eq_true', decide_eq_true_iff,
        ← Bool.not_eq_true, List.contains_iff_mem, not_iff_not, List.mem_map]
      constructor
      · rintro ⟨taken, htaken, hid⟩
        have hready : taken ∈ inOrder ready := by
          rcases List.mem_append.mp htaken with h | h
          · exact List.mem_of_mem_filter (List.mem_of_mem_take h)
          · exact List.mem_of_mem_filter (List.mem_of_mem_take h)
        have hsame : taken = entry :=
          eq_of_key_eq hids (mem_inOrder.mp hready) (mem_inOrder.mp hentry) hid
        rw [hsame] at htaken
        rcases List.mem_append.mp htaken with h | h
        · exact h
        · have hother := (List.mem_filter.mp (List.mem_of_mem_take h)).2
          rw [isOther_eq, hlane] at hother
          cases hother
      · exact fun h => ⟨entry, List.mem_append_left _ h, rfl⟩
  exact congrArg (fun more => rows ++ List.take (limit - rows.length) more) hrest

omit [LinearOrder Id] in
theorem filter_isIngest_other {entries : List (Entry Id)}
    (h : ∀ entry ∈ entries, isOther entry = true) : entries.filter isIngest = [] := by
  refine List.filter_eq_nil_iff.mpr fun entry hentry hlane => ?_
  have hother := h entry hentry
  rw [isOther_eq, hlane] at hother
  cases hother

omit [LinearOrder Id] in
theorem filter_isOther_ingest {entries : List (Entry Id)}
    (h : ∀ entry ∈ entries, isIngest entry = true) : entries.filter isOther = [] := by
  refine List.filter_eq_nil_iff.mpr fun entry hentry hlane => ?_
  rw [isOther_eq, h entry hentry] at hlane
  cases hlane

omit [LinearOrder Id] in
theorem countP_lanes (entries : List (Entry Id)) :
    entries.countP isIngest + entries.countP isOther = entries.length := by
  rw [List.length_eq_countP_add_countP isIngest]
  congr 1
  exact List.countP_congr fun entry _ => by simp [isOther_eq]

theorem length_lane (ready : List (Entry Id)) (lane : Entry Id → Bool) :
    ((inOrder ready).filter lane).length = ready.countP lane := by
  rw [← List.countP_eq_length_filter, (inOrder_perm ready).countP_eq]

/-- What a batch takes of each lane: the rest of a batch is ingest only where the others are dry. -/
theorem claimDue_lanes (hids : (ready.map Entry.id).Nodup) {limit : ℕ} (hlimit : 2 ≤ limit) :
    ∃ more, more = limit - (min (limit / 2) (ready.countP isIngest) +
        min (limit - min (limit / 2) (ready.countP isIngest)) (ready.countP isOther)) ∧
      (claimDue ready limit).filter isIngest =
        ((inOrder ready).filter isIngest).take (limit / 2 + more) ∧
      (claimDue ready limit).filter isOther = ((inOrder ready).filter isOther).take
        (limit - min (limit / 2) (ready.countP isIngest)) := by
  have heq := claimDue_eq hids hlimit
  have hingest : ∀ entry ∈ (inOrder ready).filter isIngest, isIngest entry = true :=
    fun _ h => (List.mem_filter.mp h).2
  have hother : ∀ entry ∈ (inOrder ready).filter isOther, isOther entry = true :=
    fun _ h => (List.mem_filter.mp h).2
  have hp := length_lane ready isIngest
  have hq := length_lane ready isOther
  simp only [List.length_append, List.length_take, hp, hq] at heq
  refine ⟨_, rfl, ?_, ?_⟩
  · rw [heq, List.filter_append, List.filter_append, List.take_add,
      List.filter_eq_self.mpr fun entry h => hingest entry (List.mem_of_mem_take h),
      filter_isIngest_other fun entry h => hother entry (List.mem_of_mem_take h), List.append_nil,
      List.filter_eq_self.mpr fun entry h =>
        hingest entry (List.mem_of_mem_drop (List.mem_of_mem_take h))]
  · rw [heq, List.filter_append, List.filter_append,
      filter_isOther_ingest fun entry h => hingest entry (List.mem_of_mem_take h),
      List.filter_eq_self.mpr fun entry h => hother entry (List.mem_of_mem_take h),
      filter_isOther_ingest fun entry h =>
        hingest entry (List.mem_of_mem_drop (List.mem_of_mem_take h)),
      List.append_nil, List.nil_append]

theorem claimDue_shares (hids : (ready.map Entry.id).Nodup) {limit : ℕ} (hlimit : 2 ≤ limit) :
    Shares ready (claimDue ready limit) limit := by
  obtain ⟨more, hmore, hingest, hother⟩ := claimDue_lanes hids hlimit
  have hp : (claimDue ready limit).countP isIngest =
      min (limit / 2 + more) (ready.countP isIngest) := by
    rw [List.countP_eq_length_filter, hingest, List.length_take, length_lane]
  have hq : (claimDue ready limit).countP isOther =
      min (limit - min (limit / 2) (ready.countP isIngest)) (ready.countP isOther) := by
    rw [List.countP_eq_length_filter, hother, List.length_take, length_lane]
  have hready := countP_lanes ready
  have hrows := countP_lanes (claimDue ready limit)
  have hrowsPerm : (claimDue ready limit).Perm ((claimDue ready limit).filter isIngest ++
      (claimDue ready limit).filter isOther) := (List.filter_append_perm isIngest _).symm
  have hreadyPerm :
      ((inOrder ready).filter isIngest ++ (inOrder ready).filter isOther).Perm ready :=
    (List.filter_append_perm isIngest _).trans (inOrder_perm ready)
  have hsub : ((claimDue ready limit).filter isIngest ++
      (claimDue ready limit).filter isOther).Sublist
        ((inOrder ready).filter isIngest ++ (inOrder ready).filter isOther) := by
    rw [hingest, hother]
    exact (List.take_sublist _ _).append (List.take_sublist _ _)
  constructor
  · omega
  · rw [(hrowsPerm.map Entry.id).nodup_iff]
    exact ((hreadyPerm.map Entry.id).nodup_iff.mpr hids).sublist (hsub.map Entry.id)
  · intro entry hentry
    exact hreadyPerm.mem_iff.mp (hsub.subset (hrowsPerm.mem_iff.mp hentry))
  · omega
  · omega
  · rw [hingest, inOrder_filter hids, hp, List.take_eq_take_min, length_lane]
  · rw [hother, inOrder_filter hids, hq, List.take_eq_take_min, length_lane]

theorem claimDue_one (ready : List (Entry Id)) : claimDue ready 1 = (inOrder ready).take 1 := by
  unfold claimDue window
  rw [if_neg (by decide), if_pos rfl, List.filter_true]

theorem ahead_of_take {sorted : List (Entry Id)} (hsorted : sorted.Pairwise Entry.ahead) {k : ℕ}
    (hk : 1 ≤ k) {entry : Entry Id} (hentry : entry ∈ sorted) (hleft : entry ∉ sorted.take k) :
    ∃ first ∈ sorted.take k, first.ahead entry := by
  have hsplit := List.take_append_drop k sorted
  have hdrop : entry ∈ sorted.drop k := by
    rw [← hsplit] at hentry
    exact (List.mem_append.mp hentry).resolve_left hleft
  have hlength : 0 < (sorted.take k).length := by
    have hpos := List.length_pos_of_mem hentry
    rw [List.length_take]
    omega
  obtain ⟨first, hfirst⟩ := List.exists_mem_of_length_pos hlength
  rw [← hsplit] at hsorted
  exact ⟨first, hfirst, (List.pairwise_append.mp hsorted).2.2 first hfirst entry hdrop⟩

/-- A row that is ready and not taken waits for one that is taken and was due before it. -/
theorem claimDue_front (hids : (ready.map Entry.id).Nodup) {limit : ℕ} (hlimit : 1 ≤ limit)
    {entry : Entry Id} (hready : entry ∈ ready) (hleft : entry ∉ claimDue ready limit) :
    ∃ first ∈ claimDue ready limit, first.ahead entry := by
  have hentry : entry ∈ inOrder ready := mem_inOrder.mpr hready
  by_cases hone : limit = 1
  · subst hone
    rw [claimDue_one] at hleft ⊢
    exact ahead_of_take (inOrder_sorted ready) le_rfl hentry hleft
  · obtain ⟨more, -, hingest, hother⟩ := claimDue_lanes hids (by omega : 2 ≤ limit)
    have hlane : ∀ lane : Entry Id → Bool, ∀ k, 1 ≤ k → lane entry = true →
        (claimDue ready limit).filter lane = ((inOrder ready).filter lane).take k →
        ∃ first ∈ claimDue ready limit, first.ahead entry := by
      intro lane k hk hkind htaken
      obtain ⟨first, hfirst, hahead⟩ := ahead_of_take ((inOrder_sorted ready).filter lane) hk
        (List.mem_filter.mpr ⟨hentry, hkind⟩)
        (fun h => hleft (List.mem_of_mem_filter (htaken ▸ h)))
      exact ⟨first, List.mem_of_mem_filter (htaken ▸ hfirst), hahead⟩
    cases hkind : isIngest entry with
    | true => exact hlane isIngest _ (by omega) hkind hingest
    | false => exact hlane isOther _ (by omega) (by rw [isOther_eq, hkind]; rfl) hother

theorem mem_of_mem_claimDue (hids : (ready.map Entry.id).Nodup) {limit : ℕ} {entry : Entry Id}
    (h : entry ∈ claimDue ready limit) : entry ∈ ready := by
  by_cases htwo : 2 ≤ limit
  · exact (claimDue_shares hids htwo).due entry h
  · by_cases hone : limit = 1
    · rw [hone, claimDue_one] at h
      exact mem_inOrder.mp (List.mem_of_mem_take h)
    · have hzero : limit = 0 := by omega
      rw [hzero] at h
      cases h

end Windows

section Ticks

variable {Id : Type} [LinearOrder Id]

/-- The rows that the transaction of a tick has taken, and locks until it commits. -/
structure Batch (Id : Type) where
  now : ℤ
  ids : List Id
deriving DecidableEq

/-- A claimed row on its way to the broker, which refuses it. -/
structure Flight (Id : Type) where
  id : Id
  now : ℤ
deriving DecidableEq

/-- A refusal that is about to be written back, with the row as it was read. -/
structure Refusal (Id : Type) where
  id : Id
  now : ℤ
  seen : Row
deriving DecidableEq

structure Outbox (Id : Type) where
  table : Table (@Entry.id Id)
  used : List Id
  taken : List (Batch Id)
  flights : List (Flight Id)
  refusals : List (Refusal Id)

inductive Event (Id : Type) where
  | insert (id : Id) (createdAt : ℤ) (content : Content) (now : ℤ)
  | delete (id : Id)
  | take (now : ℤ)
  | commit (batch : Batch Id)
  | recordRead (flight : Flight Id)
  | recordWrite (refusal : Refusal Id)
deriving DecidableEq

def Event.moment : Event Id → Option ℤ
  | .insert _ _ _ now => some now
  | .take now => some now
  | _ => none

def Outbox.held (s : Outbox Id) (id : Id) : Bool := s.taken.any fun batch => batch.ids.contains id

def Outbox.ready (s : Outbox Id) (now : ℤ) : List (Entry Id) := due s.table.rows s.held now

def Entry.withRow (entry : Entry Id) (row : Row) : Entry Id := { entry with row := row }

variable (cfg : Settings) (limit : ℕ)

def Batch.claim (batch : Batch Id) (entry : Entry Id) : Entry Id :=
  if entry.id ∈ batch.ids then entry.withRow (entry.row.claimed cfg batch.now batch.ids.length)
  else entry

/-- What `_record_attempt` writes of a refusal, over a row that may have changed since. -/
def Refusal.write (refusal : Refusal Id) (entry : Entry Id) : Entry Id :=
  entry.withRow (entry.row.overlay refusal.seen (refusal.seen.failed cfg refusal.now))

def step (s : Outbox Id) : Event Id → Option (Outbox Id)
  | .insert id createdAt content now =>
    if h : s.table.get id = none ∧ id ∉ s.used then
      some { s with
        table := s.table.append ⟨id, createdAt, recorded content now⟩ h.1
        used := id :: s.used }
    else none
  | .delete id => if s.held id then none else some { s with table := s.table.remove id }
  | .take now => some { s with
      taken := ⟨now, (claimDue (s.ready now) limit).map Entry.id⟩ :: s.taken }
  | .commit batch =>
    if batch ∈ s.taken then
      some { s with
        table := s.table.modify (batch.claim cfg) (by intro a; unfold Batch.claim; split <;> rfl)
        taken := s.taken.erase batch
        flights := batch.ids.map (fun id => ⟨id, batch.now⟩) ++ s.flights }
    else none
  | .recordRead flight =>
    if flight ∈ s.flights then
      some { s with
        flights := s.flights.erase flight
        refusals := (s.table.get flight.id).elim s.refusals fun entry =>
          ⟨flight.id, flight.now, entry.row⟩ :: s.refusals }
    else none
  | .recordWrite refusal =>
    if refusal ∈ s.refusals ∧ s.held refusal.id = false then
      some { s with
        table := s.table.modifyAt refusal.id (refusal.write cfg) fun _ => rfl
        refusals := s.refusals.erase refusal }
    else none

def empty : Outbox Id := ⟨Table.empty _, [], [], [], []⟩

/-- A run of ticks against a broker that refuses all of them: what the clock reads grows without
bound, ticks go on, and each of them commits. -/
structure Refused (states : ℕ → Outbox Id) (events : ℕ → Event Id) : Prop where
  start : states 0 = empty
  step : ∀ k, step cfg limit (states k) (events k) = some (states (k + 1))
  time : ∀ d : ℤ, ∃ last, ∀ k ≥ last, ∀ now ∈ (events k).moment, d < now
  ticks : ∀ k, ∃ j ≥ k, ∃ now, events j = .take now
  commits : ∀ k, ∀ batch ∈ (states k).taken, ∃ j ≥ k, events j = .commit batch

/-- A row that is pending is claimed, unless it is delivered or dead. -/
def ClaimedAgain (states : ℕ → Outbox Id) (events : ℕ → Event Id) : Prop :=
  ∀ k entry, entry ∈ (states k).table.rows → entry.row.status = .pending → ∃ j ≥ k,
    (∃ batch, events j = .commit batch ∧ entry.id ∈ batch.ids) ∨
      ∀ later ∈ (states j).table.rows, later.id = entry.id → later.row.status = .dead

end Ticks

section Rows

variable {Id : Type} [LinearOrder Id] {cfg : Settings} {limit : ℕ} {s u : Outbox Id}

/-- A row that is pending has a due time, and a refusal of a dead row finds it dead. -/
structure Sound (s : Outbox Id) : Prop where
  timed : ∀ entry ∈ s.table.rows, entry.row.status = .pending →
    entry.row.nextAttemptAt.isSome = true
  dead : ∀ refusal ∈ s.refusals, refusal.seen.status = .dead →
    ∀ entry ∈ s.table.rows, entry.id = refusal.id → entry.row.status = .dead
  used : ∀ entry ∈ s.table.rows, entry.id ∈ s.used
  refused : ∀ refusal ∈ s.refusals, refusal.id ∈ s.used

theorem pending_of_write {current seen : Row} {now : ℤ}
    (hdead : seen.status = .dead → current.status = .dead)
    (h : (current.overlay seen (seen.failed cfg now)).status = .pending) :
    current.status = .pending ∧
      ((current.overlay seen (seen.failed cfg now)).nextAttemptAt = current.nextAttemptAt ∨
        (current.overlay seen (seen.failed cfg now)).nextAttemptAt =
          some (now + retryDelay cfg seen.attempts)) := by
  have hcurrent : current.status = .pending := by
    cases hstatus : current.status with
    | pending => rfl
    | dead =>
      rw [overlay_failed_dead hstatus] at h
      cases h
  refine ⟨hcurrent, ?_⟩
  have hseen : seen.status = .pending := by
    cases hstatus : seen.status with
    | pending => rfl
    | dead =>
      rw [hdead hstatus] at hcurrent
      cases hcurrent
  by_cases hspent : cfg.maxAttempts ≤ seen.attempts
  · simp [Row.overlay, Row.failed, hspent, column, hseen] at h
  · rw [Row.failed, if_neg hspent]
    rcases column_eq_or current.nextAttemptAt seen.nextAttemptAt
        (some (now + retryDelay cfg seen.attempts : ℤ)) with hsame | ⟨-, hlater⟩
    · exact .inl hsame
    · exact .inr hlater

omit [LinearOrder Id] in
theorem sound_empty : Sound (empty : Outbox Id) where
  timed _ h := absurd h List.not_mem_nil
  dead _ h := absurd h List.not_mem_nil
  used _ h := absurd h List.not_mem_nil
  refused _ h := absurd h List.not_mem_nil

theorem mem_write {refusal : Refusal Id} {later : Entry Id}
    (h : later ∈ s.table.rows.map fun entry =>
      if entry.id = refusal.id then refusal.write cfg entry else entry) :
    ∃ entry ∈ s.table.rows, entry.id = later.id ∧
      ((later.id ≠ refusal.id ∧ later = entry) ∨
        (later.id = refusal.id ∧ later = refusal.write cfg entry)) := by
  obtain ⟨entry, hentry, rfl⟩ := List.mem_map.mp h
  by_cases hid : entry.id = refusal.id
  · rw [if_pos hid]
    exact ⟨entry, hentry, rfl, .inr ⟨hid, rfl⟩⟩
  · rw [if_neg hid]
    exact ⟨entry, hentry, rfl, .inl ⟨hid, rfl⟩⟩

theorem sound_insert (h : Sound s) {id : Id} {createdAt : ℤ} {content : Content} {now : ℤ}
    (hstep : step cfg limit s (.insert id createdAt content now) = some u) : Sound u := by
  simp only [step] at hstep
  split at hstep
  · rename_i hfree
    cases hstep
    have hnew : ∀ entry ∈ s.table.rows ++ [⟨id, createdAt, recorded content now⟩],
        entry ∈ s.table.rows ∨ entry = ⟨id, createdAt, recorded content now⟩ :=
      fun entry hentry => (List.mem_append.mp hentry).imp_right List.mem_singleton.mp
    constructor
    · intro entry hentry hpending
      rcases hnew entry hentry with hold | rfl
      · exact h.timed entry hold hpending
      · unfold recorded at hpending ⊢
        split at hpending
        · rename_i hreplayable
          simp [hreplayable]
        · cases hpending
    · intro refusal hrefusal hdead entry hentry hid
      rcases hnew entry hentry with hold | rfl
      · exact h.dead refusal hrefusal hdead entry hold hid
      · have hsame : id = refusal.id := hid
        exact absurd (hsame ▸ h.refused refusal hrefusal) hfree.2
    · intro entry hentry
      rcases hnew entry hentry with hold | rfl
      · exact List.mem_cons_of_mem _ (h.used entry hold)
      · exact List.mem_cons_self
    · exact fun refusal hrefusal => List.mem_cons_of_mem _ (h.refused refusal hrefusal)
  · cases hstep

theorem sound_delete (h : Sound s) {id : Id}
    (hstep : step cfg limit s (.delete id) = some u) : Sound u := by
  simp only [step] at hstep
  split at hstep
  · cases hstep
  · cases hstep
    have hmem : ∀ entry ∈ (s.table.remove id).rows, entry ∈ s.table.rows :=
      fun _ hentry => (Table.mem_remove hentry).1
    exact ⟨fun entry hentry => h.timed entry (hmem entry hentry),
      fun refusal hrefusal hdead entry hentry =>
        h.dead refusal hrefusal hdead entry (hmem entry hentry),
      fun entry hentry => h.used entry (hmem entry hentry), h.refused⟩

theorem sound_commit (h : Sound s) {batch : Batch Id}
    (hstep : step cfg limit s (.commit batch) = some u) : Sound u := by
  simp only [step] at hstep
  split at hstep
  · cases hstep
    have hmem : ∀ later ∈ s.table.rows.map (batch.claim cfg), ∃ entry ∈ s.table.rows,
        entry.id = later.id ∧ entry.row.status = later.row.status ∧
          (later = entry ∨ later.row.nextAttemptAt.isSome = true) := by
      intro later hlater
      obtain ⟨entry, hentry, rfl⟩ := List.mem_map.mp hlater
      refine ⟨entry, hentry, ?_⟩
      unfold Batch.claim
      split
      · exact ⟨rfl, rfl, .inr rfl⟩
      · exact ⟨rfl, rfl, .inl rfl⟩
    constructor
    · intro later hlater hpending
      obtain ⟨entry, hentry, -, hstatus, rfl | htimed⟩ := hmem later hlater
      · exact h.timed _ hentry hpending
      · exact htimed
    · intro refusal hrefusal hdead later hlater hid
      obtain ⟨entry, hentry, hsame, hstatus, -⟩ := hmem later hlater
      rw [← hstatus]
      exact h.dead refusal hrefusal hdead entry hentry (hsame.trans hid)
    · intro later hlater
      obtain ⟨entry, hentry, hsame, -⟩ := hmem later hlater
      exact hsame ▸ h.used entry hentry
    · exact h.refused
  · cases hstep

theorem sound_recordRead (h : Sound s) {flight : Flight Id}
    (hstep : step cfg limit s (.recordRead flight) = some u) : Sound u := by
  simp only [step] at hstep
  split at hstep
  · cases hstep
    cases hget : s.table.get flight.id with
    | none => exact ⟨h.timed, h.dead, h.used, h.refused⟩
    | some entry =>
      obtain ⟨hentry, hid⟩ := (s.table.get_eq_some_iff _ _).mp hget
      refine ⟨h.timed, ?_, h.used, ?_⟩
      · intro refusal hrefusal hdead other hother hsame
        rcases List.mem_cons.mp hrefusal with rfl | hold
        · rw [eq_of_key_eq s.table.unique hother hentry (hsame.trans hid.symm)]
          exact hdead
        · exact h.dead refusal hold hdead other hother hsame
      · intro refusal hrefusal
        rcases List.mem_cons.mp hrefusal with rfl | hold
        · exact hid ▸ h.used entry hentry
        · exact h.refused refusal hold
  · cases hstep

theorem sound_recordWrite (h : Sound s) {refusal : Refusal Id}
    (hstep : step cfg limit s (.recordWrite refusal) = some u) : Sound u := by
  simp only [step] at hstep
  split at hstep
  · rename_i hready
    cases hstep
    constructor
    · intro later hlater hpending
      obtain ⟨entry, hentry, hid, ⟨-, rfl⟩ | ⟨htarget, rfl⟩⟩ := mem_write hlater
      · exact h.timed _ hentry hpending
      · obtain ⟨hbefore, hsame | hlater⟩ := pending_of_write
          (fun hdead => h.dead refusal hready.1 hdead entry hentry (hid.trans htarget)) hpending
        · exact hsame ▸ h.timed entry hentry hbefore
        · exact hlater ▸ rfl
    · intro other hother hdead later hlater hid
      have hother := List.mem_of_mem_erase hother
      obtain ⟨entry, hentry, hsame, ⟨-, rfl⟩ | ⟨-, rfl⟩⟩ := mem_write hlater
      · exact h.dead other hother hdead _ hentry hid
      · exact overlay_failed_dead (h.dead other hother hdead entry hentry (hsame.trans hid))
    · intro later hlater
      obtain ⟨entry, hentry, hsame, -⟩ := mem_write hlater
      exact hsame ▸ h.used entry hentry
    · exact fun other hother => h.refused other (List.mem_of_mem_erase hother)
  · cases hstep

theorem sound_step (h : Sound s) {event : Event Id} (hstep : step cfg limit s event = some u) :
    Sound u := by
  cases event with
  | insert => exact sound_insert h hstep
  | delete => exact sound_delete h hstep
  | take =>
    cases hstep
    exact ⟨h.timed, h.dead, h.used, h.refused⟩
  | commit => exact sound_commit h hstep
  | recordRead => exact sound_recordRead h hstep
  | recordWrite => exact sound_recordWrite h hstep

end Rows

section Waiting

variable {Id : Type} [LinearOrder Id] {cfg : Settings} {limit : ℕ} {s u : Outbox Id}

/-- What is ahead of a due time: the rows that are due by then, and what is under way that may make
one so. -/
def waiting (d : ℤ) (s : Outbox Id) : ℕ :=
  (s.ready d).length +
    (s.taken.map fun batch => if batch.now ≤ d then 4 * batch.ids.length + 1 else 0).sum +
    3 * s.flights.countP (fun flight => decide (flight.now ≤ d)) +
    2 * s.refusals.countP (fun refusal => decide (refusal.now ≤ d))

theorem countP_le_add {α : Type} {l : List α} {p q r : α → Bool}
    (h : ∀ a ∈ l, p a = true → q a = true ∨ r a = true) :
    l.countP p ≤ l.countP q + l.countP r := by
  induction l with
  | nil => exact le_rfl
  | cons a l ih =>
    have hrest := ih fun b hb => h b (List.mem_cons_of_mem _ hb)
    have hfirst := h a List.mem_cons_self
    rw [List.countP_cons, List.countP_cons, List.countP_cons]
    by_cases hp : p a = true
    · rcases hfirst hp with hq | hr
      · rw [if_pos hp, if_pos hq]
        omega
      · rw [if_pos hp, if_pos hr]
        omega
    · rw [if_neg hp]
      omega

theorem countP_ids_le (t : Table (@Entry.id Id)) (ids : List Id) :
    t.rows.countP (fun entry => ids.contains entry.id) ≤ ids.length := by
  rw [List.countP_eq_length_filter, ← List.length_map Entry.id]
  have hnodup : ((t.rows.filter fun entry => ids.contains entry.id).map Entry.id).Nodup :=
    t.unique.sublist (List.filter_sublist.map _)
  refine (List.subperm_of_subset hnodup ?_).length_le
  intro id hid
  obtain ⟨entry, hentry, rfl⟩ := List.mem_map.mp hid
  simpa using (List.mem_filter.mp hentry).2

theorem length_ready (s : Outbox Id) (d : ℤ) :
    (s.ready d).length =
      s.table.rows.countP fun entry => entry.row.due d && !s.held entry.id :=
  List.countP_eq_length_filter.symm

theorem due_iff {row : Row} {d : ℤ} :
    row.due d = true ↔ row.status = .pending ∧ ∃ at_ ∈ row.nextAttemptAt, at_ ≤ d := by
  unfold Row.due
  rw [Bool.and_eq_true, beq_iff_eq, Option.any_eq_true]
  simp only [decide_eq_true_eq, Option.mem_def]

theorem not_due_of_lt {row : Row} {at_ d : ℤ} (h : d < at_) (hrow : row.nextAttemptAt = some at_) :
    row.due d = false := by
  simp [Row.due, hrow, h]

theorem claim_not_due {batch : Batch Id} {entry : Entry Id} {d : ℤ} (h : d < batch.now)
    (hmem : entry.id ∈ batch.ids) : (batch.claim cfg entry).row.due d = false := by
  rw [Batch.claim, if_pos hmem]
  refine not_due_of_lt (?_ : d < batch.now + _) rfl
  omega

theorem held_erase {batch : Batch Id} {id : Id} (htaken : u.taken = s.taken.erase batch)
    (h : id ∉ batch.ids) : u.held id = s.held id := by
  unfold Outbox.held
  rw [htaken, Bool.eq_iff_iff, List.any_eq_true, List.any_eq_true]
  constructor
  · rintro ⟨other, hother, hid⟩
    exact ⟨other, List.mem_of_mem_erase hother, hid⟩
  · rintro ⟨other, hother, hid⟩
    have hne : other ≠ batch := by
      rintro rfl
      exact h (by simpa using hid)
    exact ⟨other, (List.mem_erase_of_ne hne).mpr hother, hid⟩

theorem ready_take (s : Outbox Id) (d : ℤ) (batch : Batch Id) :
    ({ s with taken := batch :: s.taken } : Outbox Id).ready d =
      (s.ready d).filter fun entry => !batch.ids.contains entry.id := by
  unfold Outbox.ready due
  rw [List.filter_filter]
  refine List.filter_congr fun entry _ => ?_
  simp only [Outbox.held, List.any_cons, Bool.not_or]
  rw [Bool.and_left_comm]

theorem waiting_take {d now : ℤ} (hnow : d < now) (ids : List Id) :
    waiting d { s with taken := ⟨now, ids⟩ :: s.taken } + (s.ready d).length =
      waiting d s + ((s.ready d).filter fun entry => !ids.contains entry.id).length := by
  unfold waiting
  rw [ready_take]
  simp only [List.map_cons, List.sum_cons, if_neg (not_le.mpr hnow)]
  omega

theorem waiting_commit {batch : Batch Id} {d : ℤ} (htaken : batch ∈ s.taken)
    (hstep : step cfg limit s (.commit batch) = some u) : waiting d u ≤ waiting d s := by
  simp only [step, if_pos htaken, Option.some.injEq] at hstep
  have hsum := ((List.perm_cons_erase htaken).map fun other =>
    if other.now ≤ d then 4 * other.ids.length + 1 else 0).sum_eq
  rw [List.map_cons, List.sum_cons] at hsum
  obtain ⟨htable, hrest, hqueued, hrefusals⟩ : u.table.rows = s.table.rows.map (batch.claim cfg) ∧
      u.taken = s.taken.erase batch ∧
      u.flights = batch.ids.map (fun id => ⟨id, batch.now⟩) ++ s.flights ∧
      u.refusals = s.refusals := by
    subst hstep
    exact ⟨rfl, rfl, rfl, rfl⟩
  unfold waiting
  rw [length_ready, length_ready, htable, hrest, hqueued, hrefusals, hsum, List.countP_map,
    List.countP_append, List.countP_map]
  by_cases hold : batch.now ≤ d
  · have hrows := @countP_le_add _ s.table.rows
      ((fun entry => entry.row.due d && !u.held entry.id) ∘ batch.claim cfg)
      (fun entry => entry.row.due d && !s.held entry.id)
      (fun entry => batch.ids.contains entry.id) fun entry _ hdue => by
        by_cases hmem : entry.id ∈ batch.ids
        · exact .inr (by simpa using hmem)
        · refine .inl ?_
          rw [Function.comp_apply, Batch.claim, if_neg hmem, held_erase hrest hmem] at hdue
          exact hdue
    have hids := countP_ids_le s.table batch.ids
    have hflights : batch.ids.countP ((fun flight : Flight Id => decide (flight.now ≤ d)) ∘
        fun id => ⟨id, batch.now⟩) ≤ batch.ids.length := List.countP_le_length
    rw [if_pos hold]
    omega
  · have hrows : s.table.rows.countP
        ((fun entry => entry.row.due d && !u.held entry.id) ∘ batch.claim cfg) ≤
        s.table.rows.countP fun entry => entry.row.due d && !s.held entry.id := by
      refine List.countP_mono_left fun entry _ hdue => ?_
      by_cases hmem : entry.id ∈ batch.ids
      · rw [Function.comp_apply, claim_not_due (not_le.mp hold) hmem, Bool.false_and] at hdue
        cases hdue
      · rw [Function.comp_apply, Batch.claim, if_neg hmem, held_erase hrest hmem] at hdue
        exact hdue
    have hflights : batch.ids.countP ((fun flight : Flight Id => decide (flight.now ≤ d)) ∘
        fun id => ⟨id, batch.now⟩) = 0 :=
      List.countP_eq_zero.mpr fun _ _ => by simpa using hold
    rw [if_neg hold]
    omega

theorem waiting_recordRead {flight : Flight Id} {d : ℤ} (hflight : flight ∈ s.flights)
    (hstep : step cfg limit s (.recordRead flight) = some u) : waiting d u ≤ waiting d s := by
  simp only [step, if_pos hflight, Option.some.injEq] at hstep
  have hflights := (List.perm_cons_erase hflight).countP_eq fun other => decide (other.now ≤ d)
  rw [List.countP_cons] at hflights
  have hrefusals : u.refusals.countP (fun refusal => decide (refusal.now ≤ d)) ≤
      s.refusals.countP (fun refusal => decide (refusal.now ≤ d)) +
        if decide (flight.now ≤ d) = true then 1 else 0 := by
    subst hstep
    cases s.table.get flight.id with
    | none => exact Nat.le_add_right _ _
    | some entry => exact (List.countP_cons).le
  obtain ⟨hready, htaken, hqueued⟩ : u.ready d = s.ready d ∧ u.taken = s.taken ∧
      u.flights = s.flights.erase flight := by
    subst hstep
    exact ⟨rfl, rfl, rfl⟩
  unfold waiting
  rw [hready, htaken, hqueued, hflights]
  omega

theorem waiting_recordWrite (h : Sound s) {refusal : Refusal Id} {d : ℤ}
    (hready : refusal ∈ s.refusals ∧ s.held refusal.id = false)
    (hstep : step cfg limit s (.recordWrite refusal) = some u) : waiting d u ≤ waiting d s := by
  simp only [step, if_pos hready, Option.some.injEq] at hstep
  have hrefusals := (List.perm_cons_erase hready.1).countP_eq fun other => decide (other.now ≤ d)
  rw [List.countP_cons] at hrefusals
  obtain ⟨htable, htaken, hflights, hrest⟩ : u.table.rows = s.table.rows.map (fun entry =>
        if entry.id = refusal.id then refusal.write cfg entry else entry) ∧
      u.taken = s.taken ∧ u.flights = s.flights ∧ u.refusals = s.refusals.erase refusal := by
    subst hstep
    exact ⟨rfl, rfl, rfl, rfl⟩
  have hheld : u.held = s.held := by
    unfold Outbox.held
    rw [htaken]
  unfold waiting
  rw [length_ready, length_ready, htable, htaken, hflights, hrest, hrefusals, List.countP_map,
    hheld]
  by_cases hold : refusal.now ≤ d
  · have hrows := @countP_le_add _ s.table.rows
      ((fun entry => entry.row.due d && !s.held entry.id) ∘ fun entry =>
        if entry.id = refusal.id then refusal.write cfg entry else entry)
      (fun entry => entry.row.due d && !s.held entry.id)
      (fun entry => [refusal.id].contains entry.id) fun entry _ hdue => by
        by_cases hid : entry.id = refusal.id
        · exact .inr (by simpa using hid)
        · refine .inl ?_
          rw [Function.comp_apply, if_neg hid] at hdue
          exact hdue
    have hids := countP_ids_le s.table [refusal.id]
    rw [if_pos (decide_eq_true hold)]
    rw [List.length_singleton] at hids
    omega
  · have hrows : s.table.rows.countP
        ((fun entry => entry.row.due d && !s.held entry.id) ∘ fun entry =>
          if entry.id = refusal.id then refusal.write cfg entry else entry) ≤
        s.table.rows.countP fun entry => entry.row.due d && !s.held entry.id := by
      refine List.countP_mono_left fun entry hentry hdue => ?_
      by_cases hid : entry.id = refusal.id
      · -- A refusal of after the time does not bring a row back before it.
        rw [Function.comp_apply, if_pos hid, Bool.and_eq_true, due_iff] at hdue
        obtain ⟨⟨hpending, later, hlater, hle⟩, hfree⟩ := hdue
        obtain ⟨hbefore, hsame | hdelayed⟩ := pending_of_write
          (fun hdead => h.dead refusal hready.1 hdead entry hentry hid) hpending
        · rw [Bool.and_eq_true, due_iff]
          exact ⟨⟨hbefore, later, hsame ▸ hlater, hle⟩, hfree⟩
        · rw [Refusal.write, Entry.withRow, hdelayed, Option.mem_some_iff] at hlater
          omega
      · rw [Function.comp_apply, if_neg hid] at hdue
        exact hdue
    rw [if_neg (by simpa using hold)]
    omega

theorem waiting_step (h : Sound s) {event : Event Id} (hstep : step cfg limit s event = some u)
    {d : ℤ} (hmoment : ∀ now ∈ event.moment, d < now) : waiting d u ≤ waiting d s := by
  cases event with
  | insert id createdAt content now =>
    simp only [step] at hstep
    split at hstep
    · cases hstep
      have hlate : (recorded content now).due d = false := by
        have hnow : d < now := hmoment now rfl
        unfold recorded Row.due
        split
        · simp [hnow]
        · rfl
      unfold waiting
      rw [length_ready, length_ready]
      simp [Table.append, Outbox.held, hlate]
    · cases hstep
  | delete id =>
    simp only [step] at hstep
    split at hstep
    · cases hstep
    · cases hstep
      have hrows : (s.table.rows.filter fun entry => decide (entry.id ≠ id)).countP
          (fun entry => entry.row.due d && !s.held entry.id) ≤
          s.table.rows.countP fun entry => entry.row.due d && !s.held entry.id :=
        List.filter_sublist.countP_le
      unfold waiting
      rw [length_ready, length_ready]
      exact Nat.add_le_add_right (Nat.add_le_add_right (Nat.add_le_add_right hrows _) _) _
  | take now =>
    cases hstep
    have htaken := @waiting_take _ _ s d now (hmoment now rfl)
      ((claimDue (s.ready now) limit).map Entry.id)
    have hrows := List.length_filter_le (fun entry : Entry Id =>
      !((claimDue (s.ready now) limit).map Entry.id).contains entry.id) (s.ready d)
    omega
  | commit batch =>
    have htaken : batch ∈ s.taken := by
      by_contra hfree
      simp [step, hfree] at hstep
    exact waiting_commit htaken hstep
  | recordRead flight =>
    have hflight : flight ∈ s.flights := by
      by_contra hfree
      simp [step, hfree] at hstep
    exact waiting_recordRead hflight hstep
  | recordWrite refusal =>
    have hready : refusal ∈ s.refusals ∧ s.held refusal.id = false := by
      by_contra hfree
      simp [step, hfree] at hstep
    exact waiting_recordWrite h hready hstep

theorem waiting_take_lt {d now : ℤ} (hlimit : 1 ≤ limit) (hnow : d < now) {entry : Entry Id}
    (hentry : entry ∈ s.ready d)
    (hleft : entry.id ∉ (claimDue (s.ready now) limit).map Entry.id)
    (hstep : step cfg limit s (.take now) = some u) : waiting d u < waiting d s := by
  cases hstep
  have htaken := @waiting_take _ _ s d now hnow ((claimDue (s.ready now) limit).map Entry.id)
  have hids : ((s.ready now).map Entry.id).Nodup :=
    s.table.unique.sublist (List.filter_sublist.map _)
  obtain ⟨hmem, hdue⟩ := List.mem_filter.mp hentry
  rw [Bool.and_eq_true, due_iff] at hdue
  obtain ⟨⟨hpending, at_, hat, hle⟩, hfree⟩ := hdue
  have hready : entry ∈ s.ready now := by
    refine List.mem_filter.mpr ⟨hmem, ?_⟩
    rw [Bool.and_eq_true, due_iff]
    exact ⟨⟨hpending, at_, hat, hle.trans hnow.le⟩, hfree⟩
  obtain ⟨first, hfirst, hahead⟩ := claimDue_front hids hlimit hready
    fun h => hleft (List.mem_map_of_mem h)
  have hgone : ((s.ready d).filter fun other =>
      !((claimDue (s.ready now) limit).map Entry.id).contains other.id).length <
      (s.ready d).length := by
    rw [List.length_filter_lt_length_iff_exists]
    refine ⟨first, ?_, by simpa using ⟨first, hfirst, rfl⟩⟩
    obtain ⟨hrow, hbefore⟩ := List.mem_filter.mp (mem_of_mem_claimDue hids hfirst)
    rw [Bool.and_eq_true, due_iff] at hbefore
    obtain ⟨⟨hwaits, time, htime, -⟩, hother⟩ := hbefore
    refine List.mem_filter.mpr ⟨hrow, ?_⟩
    rw [Bool.and_eq_true, due_iff]
    exact ⟨⟨hwaits, time, htime, (due_of_ahead hahead htime hat).trans hle⟩, hother⟩
  omega

end Waiting

section Runs

variable {Id : Type} [LinearOrder Id] {cfg : Settings} {limit : ℕ} {s u : Outbox Id}
  {states : ℕ → Outbox Id} {events : ℕ → Event Id}

theorem sound_of_refused (h : Refused cfg limit states events) (k : ℕ) : Sound (states k) := by
  induction k with
  | zero => exact h.start ▸ sound_empty
  | succ k ih => exact sound_step ih (h.step k)

def outstanding (id : Id) (s : Outbox Id) : ℕ :=
  2 * s.flights.countP (fun flight => decide (flight.id = id)) +
    s.refusals.countP (fun refusal => decide (refusal.id = id))

theorem outstanding_step {event : Event Id} {id : Id} (hstep : step cfg limit s event = some u)
    (hclaim : ∀ batch, event = .commit batch → id ∉ batch.ids) :
    outstanding id u ≤ outstanding id s ∧
      ∀ refusal, event = .recordWrite refusal → refusal.id = id →
        outstanding id u < outstanding id s := by
  cases event with
  | insert other createdAt content now =>
    simp only [step] at hstep
    split at hstep
    · cases hstep
      exact ⟨le_rfl, fun _ heq => by cases heq⟩
    · cases hstep
  | delete other =>
    simp only [step] at hstep
    split at hstep
    · cases hstep
    · cases hstep
      exact ⟨le_rfl, fun _ heq => by cases heq⟩
  | take now =>
    cases hstep
    exact ⟨le_rfl, fun _ heq => by cases heq⟩
  | commit batch =>
    simp only [step] at hstep
    split at hstep
    · cases hstep
      have hnone : batch.ids.countP ((fun flight : Flight Id => decide (flight.id = id)) ∘
          fun id => ⟨id, batch.now⟩) = 0 := by
        refine List.countP_eq_zero.mpr fun other hother heq => ?_
        exact hclaim batch rfl (of_decide_eq_true heq ▸ hother)
      unfold outstanding
      rw [List.countP_append, List.countP_map, hnone, Nat.zero_add]
      exact ⟨le_rfl, fun _ heq => by cases heq⟩
    · cases hstep
  | recordRead flight =>
    simp only [step] at hstep
    split at hstep
    · rename_i hflight
      cases hstep
      have hflights := (List.perm_cons_erase hflight).countP_eq fun other => decide (other.id = id)
      rw [List.countP_cons] at hflights
      refine ⟨?_, fun _ heq => by cases heq⟩
      unfold outstanding
      change 2 * (s.flights.erase flight).countP _ + _ ≤ _
      rw [hflights]
      cases s.table.get flight.id with
      | none =>
        change _ + s.refusals.countP _ ≤ _
        omega
      | some entry =>
        change _ + (_ :: s.refusals).countP _ ≤ _
        rw [List.countP_cons]
        dsimp only
        omega
    · cases hstep
  | recordWrite refusal =>
    simp only [step] at hstep
    split at hstep
    · rename_i hready
      cases hstep
      have hrefusals := (List.perm_cons_erase hready.1).countP_eq fun other =>
        decide (other.id = id)
      rw [List.countP_cons] at hrefusals
      refine ⟨?_, fun other heq hid => ?_⟩
      · unfold outstanding
        rw [hrefusals]
        change 2 * s.flights.countP _ + (s.refusals.erase refusal).countP _ ≤ _
        omega
      · cases heq
        unfold outstanding
        rw [hrefusals, if_pos (decide_eq_true hid)]
        change 2 * s.flights.countP _ + (s.refusals.erase refusal).countP _ < _
        omega
    · cases hstep

theorem row_step {event : Event Id} {entry later : Entry Id}
    (hstep : step cfg limit s event = some u) (hentry : entry ∈ s.table.rows)
    (hlater : later ∈ u.table.rows) (hid : later.id = entry.id)
    (hclaim : ∀ batch, event = .commit batch → entry.id ∉ batch.ids)
    (hwrite : ∀ refusal, event = .recordWrite refusal → refusal.id ≠ entry.id) : later = entry := by
  have hsame : ∀ other ∈ s.table.rows, other.id = entry.id → other = entry := fun other hother =>
    eq_of_key_eq s.table.unique hother hentry
  cases event with
  | insert id createdAt content now =>
    simp only [step] at hstep
    split at hstep
    · rename_i hfree
      cases hstep
      rcases List.mem_append.mp hlater with hold | hnew
      · exact hsame later hold hid
      · rw [List.mem_singleton.mp hnew] at hid
        exact absurd hid.symm ((s.table.get_eq_none_iff id).mp hfree.1 entry hentry)
    · cases hstep
  | delete id =>
    simp only [step] at hstep
    split at hstep
    · cases hstep
    · cases hstep
      exact hsame later (Table.mem_remove hlater).1 hid
  | take now =>
    cases hstep
    exact hsame later hlater hid
  | commit batch =>
    simp only [step] at hstep
    split at hstep
    · cases hstep
      obtain ⟨other, hother, rfl⟩ := List.mem_map.mp hlater
      have hkept : batch.claim cfg other = other := by
        refine if_neg fun hmem => hclaim batch rfl ?_
        rw [← hid, Batch.claim, if_pos hmem]
        exact hmem
      rw [hkept] at hid ⊢
      exact hsame other hother hid
    · cases hstep
  | recordRead flight =>
    simp only [step] at hstep
    split at hstep
    · cases hstep
      exact hsame later hlater hid
    · cases hstep
  | recordWrite refusal =>
    simp only [step] at hstep
    split at hstep
    · cases hstep
      obtain ⟨other, hother, hkey, ⟨-, rfl⟩ | ⟨htarget, -⟩⟩ := mem_write hlater
      · exact hsame _ hother hid
      · exact absurd (htarget.symm.trans hid) (hwrite refusal rfl)
    · cases hstep

/-- In a run of refusals a row is not left waiting for ever. -/
theorem claimedAgain_of_refused (hlimit : 1 ≤ limit) (h : Refused cfg limit states events) :
    ClaimedAgain states events := by
  intro start entry hentry hpending
  by_contra hnever
  push Not at hnever
  -- The row is never claimed again, stays, and stays pending.
  have hclaim : ∀ k ≥ start, ∀ batch, events k = .commit batch → entry.id ∉ batch.ids :=
    fun k hk => (hnever k hk).1
  have hthere : ∀ k ≥ start, ∃ row ∈ (states k).table.rows, row.id = entry.id ∧
      row.row.status = .pending := by
    intro k hk
    obtain ⟨row, hrow, hid, hstatus⟩ := (hnever k hk).2
    refine ⟨row, hrow, hid, ?_⟩
    cases hcase : row.row.status with
    | pending => rfl
    | dead => exact absurd hcase hstatus
  have hfree : ∀ k ≥ start, (states k).held entry.id = false := by
    intro k hk
    refine Bool.eq_false_iff.mpr fun hheld => ?_
    obtain ⟨batch, htaken, hmem⟩ := List.any_eq_true.mp hheld
    obtain ⟨j, hj, hcommit⟩ := h.commits k batch htaken
    exact hclaim j (le_trans hk hj) batch hcommit (by simpa using hmem)
  -- The attempts on it run out, and from then on it does not change.
  obtain ⟨still, hstill, hattempts⟩ := eventually_still
    (f := fun k => outstanding entry.id (states k)) (a := start)
    fun k hk => (outstanding_step (h.step k) (hclaim k hk)).1
  have hwrite : ∀ k ≥ still, ∀ refusal, events k = .recordWrite refusal →
      refusal.id ≠ entry.id := by
    intro k hk refusal heq hid
    have hless := (outstanding_step (h.step k) (hclaim k (hstill.trans hk))).2 refusal heq hid
    have hbefore := hattempts k hk
    have hafter := hattempts (k + 1) (Nat.le_succ_of_le hk)
    omega
  obtain ⟨row, hrow, hid, hwaits⟩ := hthere still hstill
  have hkept : ∀ k ≥ still, row ∈ (states k).table.rows := by
    intro k hk
    induction k, hk using Nat.le_induction with
    | base => exact hrow
    | succ k hk ih =>
      obtain ⟨later, hlater, hsame, -⟩ := hthere (k + 1) (hstill.trans (Nat.le_succ_of_le hk))
      have heq := row_step (h.step k) ih hlater (hsame.trans hid.symm)
        (hid ▸ hclaim k (hstill.trans hk)) (hid ▸ hwrite k hk)
      exact heq ▸ hlater
  obtain ⟨d, hd⟩ := Option.isSome_iff_exists.mp
    ((sound_of_refused h still).timed row hrow hwaits)
  -- The clock passes its due time, and every tick takes a row from before it.
  obtain ⟨late, hlate⟩ := h.time d
  obtain ⟨last, hlast, hahead⟩ := eventually_still
    (f := fun k => waiting d (states k)) (a := max still late)
    fun k hk => waiting_step (sound_of_refused h k) (h.step k)
      (hlate k ((le_max_right _ _).trans hk))
  obtain ⟨k, hk, now, htick⟩ := h.ticks last
  have hpast : still ≤ k := (le_max_left _ _).trans (hlast.trans hk)
  have hnow : d < now :=
    hlate k ((le_max_right _ _).trans (hlast.trans hk)) now (by rw [htick]; rfl)
  have hstep := h.step k
  rw [htick] at hstep
  have hready : row ∈ (states k).ready d := by
    refine List.mem_filter.mpr ⟨hkept k hpast, ?_⟩
    rw [Bool.and_eq_true, due_iff, hid, hfree k (hstill.trans hpast)]
    exact ⟨⟨hwaits, d, hd, le_rfl⟩, rfl⟩
  have hless := waiting_take_lt hlimit hnow hready ?_ hstep
  · have hbefore := hahead k hk
    have hafter := hahead (k + 1) (Nat.le_succ_of_le hk)
    omega
  · -- A tick that took it would hold it.
    intro hmem
    have hheld := hfree (k + 1) (hstill.trans (Nat.le_succ_of_le hpast))
    have hnext := Option.some.inj hstep
    rw [← hnext, Outbox.held, List.any_cons, Bool.or_eq_false_iff] at hheld
    rw [hid] at hmem
    exact absurd hmem (by simpa using hheld.1)

end Runs

section Results

/-- A batch gives each lane its share, a batch of one is first in first out, and no row starves. -/
theorem outbox_starves_none {Id : Type} [LinearOrder Id] (cfg : Settings) :
    (∀ (t : Table (@Entry.id Id)) (held : Id → Bool) (now : ℤ) (limit : ℕ), 2 ≤ limit →
      Shares (due t.rows held now) (claimDue (due t.rows held now) limit) limit) ∧
    (∀ (t : Table (@Entry.id Id)) (held : Id → Bool) (now : ℤ),
      claimDue (due t.rows held now) 1 = (inOrder (due t.rows held now)).take 1) ∧
    ∀ limit ≥ 1, ∀ (states : ℕ → Outbox Id) (events : ℕ → Event Id),
      Refused cfg limit states events → ClaimedAgain states events := by
  refine ⟨?_, fun t held now => claimDue_one _, ?_⟩
  · intro t held now limit hlimit
    exact claimDue_shares (t.unique.sublist (List.filter_sublist.map _)) hlimit
  · exact fun limit hlimit states events h => claimedAgain_of_refused hlimit h

def fiveAttempts : Settings := ⟨5, 10, 100⟩

def archive : Content := ⟨.ingest, ⟨"ingest", "1"⟩, none⟩

def claimedRow (claims : ℕ) : Entry ℕ :=
  ⟨7, 0, archive, .pending, claims, some (if claims = 0 then 0 else 1000 * claims + 30)⟩

def claimedBatch (claims : ℕ) : Batch ℕ := ⟨1000 * (claims + 1), [7]⟩

def claimedTable (claims : ℕ) : Table (@Entry.id ℕ) :=
  ⟨[claimedRow claims], List.pairwise_singleton _ _⟩

def claimedFlights : ℕ → List (Flight ℕ)
  | 0 => []
  | claims + 1 => ⟨7, 1000 * (claims + 1)⟩ :: claimedFlights claims

def claimedStates : ℕ → Outbox ℕ
  | 0 => empty
  | k + 1 => ⟨claimedTable (k / 2), [7], if k % 2 = 0 then [] else [claimedBatch (k / 2)],
      claimedFlights (k / 2), []⟩

def claimedEvents : ℕ → Event ℕ
  | 0 => .insert 7 0 archive 0
  | k + 1 => if k % 2 = 0 then .take (1000 * (k / 2 + 1 : ℕ)) else .commit (claimedBatch (k / 2))

theorem claimedRow_taken (claims : ℕ) :
    claimDue (due [claimedRow claims] (fun _ => false) (1000 * (claims + 1 : ℕ))) 2 =
      [claimedRow claims] := by
  have hdue : (claimedRow claims).row.due (1000 * (claims + 1 : ℕ)) = true := by
    rw [due_iff]
    refine ⟨rfl, _, rfl, ?_⟩
    split
    · omega
    · push_cast
      omega
  have hready : due [claimedRow claims] (fun _ => false) (1000 * (claims + 1 : ℕ)) =
      [claimedRow claims] :=
    List.filter_cons_of_pos (by rw [hdue]; rfl)
  rw [hready]
  rfl

theorem claimedRow_claimed (claims : ℕ) :
    (claimedBatch claims).claim fiveAttempts (claimedRow claims) = claimedRow (claims + 1) := by
  have hnext : (1000 * (claims + 1) : ℤ) + (max 30 10 * max 1 1 : ℕ) =
      if claims + 1 = 0 then 0 else 1000 * (claims + 1 : ℕ) + 30 := by
    rw [if_neg (by omega)]
    push_cast
    rfl
  exact congrArg (fun next => (⟨7, 0, archive, .pending, claims + 1, some next⟩ : Entry ℕ)) hnext

theorem refused_claimed : Refused fiveAttempts 2 claimedStates claimedEvents where
  start := rfl
  step k := by
    cases k with
    | zero => rfl
    | succ k =>
      by_cases heven : k % 2 = 0
      · have hhalf : (k + 1) / 2 = k / 2 := by omega
        have hodd : ¬ (k + 1) % 2 = 0 := by omega
        have htaken := claimedRow_taken (k / 2)
        simp only [claimedStates, claimedEvents, step, if_pos heven, if_neg hodd, hhalf]
        exact congrArg (fun rows => some (⟨claimedTable (k / 2), [7],
          [⟨1000 * (k / 2 + 1 : ℕ), rows.map Entry.id⟩], claimedFlights (k / 2), []⟩ :
            Outbox ℕ)) htaken
      · have hhalf : (k + 1) / 2 = k / 2 + 1 := by omega
        have hnext : (k + 1) % 2 = 0 := by omega
        have hclaimed := claimedRow_claimed (k / 2)
        have htable : ∀ hkey, (claimedTable (k / 2)).modify
            ((claimedBatch (k / 2)).claim fiveAttempts) hkey = claimedTable (k / 2 + 1) := by
          intro hkey
          simp only [claimedTable, Table.modify, List.map_singleton, hclaimed]
        simp only [claimedStates, claimedEvents, step, if_neg heven, if_pos hnext, hhalf, htable,
          List.mem_singleton_self, if_true, List.erase_cons_head]
        rfl
  time d := by
    refine ⟨2 * d.toNat + 1, fun k hk now hnow => ?_⟩
    obtain _ | k := k
    · omega
    · by_cases heven : k % 2 = 0
      · simp only [claimedEvents, if_pos heven] at hnow
        have htime : (1000 * (k / 2 + 1 : ℕ) : ℤ) = now := Option.some.inj hnow
        omega
      · simp only [claimedEvents, if_neg heven] at hnow
        cases hnow
  ticks k := ⟨2 * k + 1, by omega, _, if_pos (by omega)⟩
  commits k batch hbatch := by
    obtain _ | k := k
    · cases hbatch
    · by_cases heven : k % 2 = 0
      · simp only [claimedStates, if_pos heven] at hbatch
        cases hbatch
      · simp only [claimedStates, if_neg heven] at hbatch
        rw [List.mem_singleton.mp hbatch]
        exact ⟨k + 1, le_rfl, if_neg heven⟩

theorem outbox_starves_none_archive :
    Refused fiveAttempts 2 claimedStates claimedEvents ∧
      ClaimedAgain claimedStates claimedEvents :=
  ⟨refused_claimed, (outbox_starves_none fiveAttempts).2.2 2 (by decide) _ _ refused_claimed⟩

end Results

end Shapoclyack.OutboxLanes
