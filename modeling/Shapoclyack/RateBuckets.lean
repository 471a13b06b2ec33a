import Mathlib.Data.Rat.Floor
import Mathlib.Tactic.FieldSimp
import Mathlib.Tactic.NormNum
import Shapoclyack.Library.KeyedTable
import Shapoclyack.Library.TokenBuckets

set_option autoImplicit false

namespace Shapoclyack.RateBuckets

open Library

section Limits

inductive Scope where
  | user
  | serviceToken
  | agent
  | tenant
  | legacyAgent
deriving DecidableEq, Repr

structure Settings where
  principalPerSecond : ℚ
  principalBurst : ℕ
  tenantPerSecond : ℚ
  tenantBurst : ℕ
  agentPerSecond : ℚ
  agentBurst : ℕ
  legacyAgentsPerAddress : ℕ

structure Limit where
  perSecond : ℚ
  burst : ℕ

def Limit.enabled (limit : Limit) : Bool := 0 < limit.perSecond

def principalLimit (settings : Settings) : Scope → Limit
  | .agent => ⟨settings.agentPerSecond, settings.agentBurst⟩
  | .legacyAgent =>
    let fleet := settings.legacyAgentsPerAddress
    ⟨settings.agentPerSecond * fleet, settings.agentBurst * fleet⟩
  | .tenant => ⟨settings.tenantPerSecond, settings.tenantBurst⟩
  | .user | .serviceToken => ⟨settings.principalPerSecond, settings.principalBurst⟩

def minPruneHorizon : ℚ := 3600

def memoryMaxKeys : ℕ := 10000

def pruneHorizon (settings : Settings) : ℚ :=
  [Scope.user, .agent, .legacyAgent, .tenant].foldl (fun horizon scope =>
    let limit := principalLimit settings scope
    if limit.enabled then max horizon (limit.burst / limit.perSecond) else horizon) minPruneHorizon

end Limits

section Stores

abbrev Key := Scope × String

abbrev Store := Table (Prod.fst : Key × Bucket ℚ → Key)

def bucketOf (t : Store) (key : Key) : Option (Bucket ℚ) := (t.get key).map Prod.snd

def put (t : Store) (key : Key) (bucket : Bucket ℚ) : Store :=
  t.apply ⟨key, (key, bucket), fun row => (row.1, bucket), rfl, fun _ => rfl⟩

def dropIf (t : Store) (p : Bucket ℚ → Bool) : Store :=
  ⟨t.rows.filter fun row => !p row.2, t.unique.sublist (List.filter_sublist.map _)⟩

def waitForToken (available : ℚ) (limit : Limit) : ℚ := max 0 ((1 - available) / limit.perSecond)

/-- A store of buckets. A take answers how long to wait, or none where a token is spent; what it
answers is read off the row that its snapshot sees. -/
structure Buckets where
  take (snapshot : Option (Bucket ℚ)) (key : Key) (limit : Limit) (now : ℚ) (t : Store) :
    Store × Option ℚ
  prune (horizon now : ℚ) (t : Store) : Store

/-- The row that `_TAKE` writes, none where its condition holds the update back. -/
def spent (limit : Limit) (now : ℚ) : Option (Bucket ℚ) → Option (Bucket ℚ)
  | none => some ⟨limit.burst - 1, now⟩
  | some bucket =>
    if 1 ≤ bucket.available limit.perSecond limit.burst now then
      some ⟨bucket.available limit.perSecond limit.burst now - 1, max bucket.refilledAt now⟩
    else none

def databaseBuckets : Buckets where
  take snapshot key limit now t :=
    match spent limit now (bucketOf t key) with
    | some bucket => (put t key bucket, none)
    | none =>
      let available := snapshot.elim 0 fun b => b.available limit.perSecond limit.burst now
      (t, some (waitForToken available limit))
  prune horizon now t := dropIf t fun bucket => bucket.refilledAt < now - horizon

def dropIdle (now horizon : ℚ) (t : Store) : Store :=
  dropIf t fun bucket => horizon < now - bucket.refilledAt

def memoryBuckets : Buckets where
  take _ key limit now t :=
    let bucket := (bucketOf t key).getD ⟨limit.burst, now⟩
    let available := bucket.available limit.perSecond limit.burst now
    if available < 1 then (t, some (waitForToken available limit))
    else
      let t := put t key ⟨available - 1, now⟩
      (if memoryMaxKeys < t.rows.length then dropIdle now minPruneHorizon t else t, none)
  prune horizon now t := dropIdle now horizon t

inductive Act where
  | charge (snapshot : Option (Bucket ℚ)) (key : Key) (now : ℚ)
  | prune (now : ℚ)

def Act.time : Act → ℚ
  | .charge _ _ now => now
  | .prune now => now

def Act.touches (key : Key) : Act → Bool
  | .charge _ other _ => other == key
  | .prune _ => true

def Buckets.step (buckets : Buckets) (settings : Settings) (t : Store) : Act → Store × Option Key
  | .charge snapshot key now =>
    let limit := principalLimit settings key.1
    if limit.enabled then
      let (t, wait) := buckets.take snapshot key limit now t
      (t, wait.elim (some key) fun _ => none)
    else (t, none)
  | .prune now => (buckets.prune (pruneHorizon settings) now t, none)

def Buckets.events (buckets : Buckets) (settings : Settings) (key : Key) :
    Store → List Act → List (Act × Bool)
  | _, [] => []
  | t, act :: rest =>
    let next := buckets.step settings t act
    (act, next.2 == some key) :: buckets.events settings key next.1 rest

def emptyStore : Store := Table.empty _

def Buckets.grants (buckets : Buckets) (settings : Settings) (key : Key) (acts : List Act)
    (start finish : ℚ) : ℕ :=
  grantsWithin start finish
    ((buckets.events settings key emptyStore acts).map fun event => (event.1.time, event.2))

/-- No interval sees more grants than a full bucket and what it refills. -/
def Bounded (buckets : Buckets) (settings : Settings) (key : Key) (acts : List Act) : Prop :=
  let limit := principalLimit settings key.1
  ∀ start finish, start ≤ finish → (buckets.grants settings key acts start finish : ℚ) ≤
    limit.burst + limit.perSecond * (finish - start)

/-- A take that is refused leaves every bucket as it was. -/
def RefusalFree (buckets : Buckets) : Prop :=
  ∀ snapshot key limit now t,
    (buckets.take snapshot key limit now t).2 ≠ none →
      (buckets.take snapshot key limit now t).1 = t

def Buckets.clocks (buckets : Buckets) (settings : Settings) (key : Key) :
    Store → List Act → List (ℚ × Bool)
  | _, [] => []
  | t, act :: rest =>
    let next := buckets.step settings t act
    ((bucketOf next.1 key).elim act.time Bucket.refilledAt, next.2 == some key) ::
      buckets.clocks settings key next.1 rest

/-- The bound of an interval on the clock of the bucket itself. -/
def ClockBounded (buckets : Buckets) (settings : Settings) (key : Key) (acts : List Act) : Prop :=
  let limit := principalLimit settings key.1
  ∀ start finish, start ≤ finish →
    (grantsWithin start finish (buckets.clocks settings key emptyStore acts) : ℚ) ≤
      limit.burst + limit.perSecond * (finish - start)

/-- The statements that reach a row carry times that do not go back. -/
def Forward (key : Key) (acts : List Act) : Prop :=
  (acts.filter (Act.touches key)).Pairwise fun a b => a.time ≤ b.time

/-- No take of the key carries a time before that of a prune that came before it. -/
def PruneForward (key : Key) (acts : List Act) : Prop :=
  acts.Pairwise fun a b => ∀ horizon, a = .prune horizon → ∀ snapshot now,
    b = .charge snapshot key now → horizon ≤ now

def stateAfter (buckets : Buckets) (settings : Settings) (acts : List Act) : Store :=
  acts.foldl (fun t act => (buckets.step settings t act).1) emptyStore

/-- A take that overfills the store finds the bucket of the key in use, or full again. -/
def Spares (settings : Settings) (key : Key) (t : Store) : Act → Prop
  | .charge _ other now =>
    memoryMaxKeys < ((t.rows.map Prod.fst).insert other).length →
      ∀ bucket ∈ bucketOf t key, minPruneHorizon < now - bucket.refilledAt →
        let limit := principalLimit settings key.1
        (limit.burst : ℚ) ≤ bucket.tokens + limit.perSecond * (now - bucket.refilledAt)
  | .prune _ => True

end Stores

section Rows

variable {t : Store} {key other : Key} {bucket : Bucket ℚ}

theorem bucketOf_empty : bucketOf emptyStore key = none := rfl

theorem bucketOf_put :
    bucketOf (put t other bucket) key = if other = key then some bucket else bucketOf t key := by
  unfold bucketOf put
  rw [Table.get_apply]
  by_cases hkey : other = key
  · rw [if_pos hkey, if_pos hkey]
    cases t.get key <;> rfl
  · rw [if_neg hkey, if_neg hkey]

theorem bucketOf_dropIf (p : Bucket ℚ → Bool) :
    bucketOf (dropIf t p) key = (bucketOf t key).filter fun bucket => !p bucket := by
  unfold bucketOf
  cases h : t.get key with
  | none =>
    have hnone : (dropIf t p).get key = none := by
      rw [Table.get_eq_none_iff] at h ⊢
      exact fun row hrow => h row (List.mem_of_mem_filter hrow)
    rw [hnone]
    rfl
  | some row =>
    obtain ⟨hrow, hkey⟩ := (t.get_eq_some_iff key row).mp h
    by_cases hp : p row.2 = true
    · have hnone : (dropIf t p).get key = none := by
        rw [Table.get_eq_none_iff]
        intro kept hkept heq
        obtain ⟨hmem, hstays⟩ := List.mem_filter.mp hkept
        have hsame : kept = row := eq_of_key_eq t.unique hmem hrow (heq.trans hkey.symm)
        rw [hsame, hp] at hstays
        cases hstays
      rw [hnone, Option.map_some, Option.filter_some, if_neg (by simp [hp])]
      rfl
    · have hsome : (dropIf t p).get key = some row :=
        ((dropIf t p).get_eq_some_iff key row).mpr
          ⟨List.mem_filter.mpr ⟨hrow, by simp [hp]⟩, hkey⟩
      rw [hsome, Option.map_some, Option.filter_some, if_pos (by simp [hp])]

theorem length_put :
    (put t key bucket).rows.length = ((t.rows.map Prod.fst).insert key).length := by
  unfold put Table.apply
  by_cases hfree : t.get key = none
  · have hnew : key ∉ t.rows.map Prod.fst := by
      rw [List.mem_map]
      rintro ⟨row, hrow, heq⟩
      exact (t.get_eq_none_iff key).mp hfree row hrow heq
    rw [dif_pos hfree, List.length_insert_of_not_mem hnew]
    simp [Table.append]
  · obtain ⟨row, hget⟩ := Option.ne_none_iff_exists'.mp hfree
    obtain ⟨hrow, hkey⟩ := (t.get_eq_some_iff key row).mp hget
    have hold : key ∈ t.rows.map Prod.fst := List.mem_map.mpr ⟨row, hrow, hkey⟩
    rw [dif_neg hfree, List.length_insert_of_mem hold]
    simp [Table.modifyAt]

theorem length_put_new (hfresh : bucketOf t key = none) :
    (put t key bucket).rows.length = t.rows.length + 1 := by
  have hnew : key ∉ t.rows.map Prod.fst := by
    rw [List.mem_map]
    rintro ⟨row, hrow, heq⟩
    exact (t.get_eq_none_iff key).mp (Option.map_eq_none_iff.mp hfresh) row hrow heq
  rw [length_put, List.length_insert_of_not_mem hnew, List.length_map]

end Rows

section Horizon

variable {settings : Settings} {scope : Scope}

theorem le_foldl_horizon (scopes : List Scope) (start : ℚ) :
    start ≤ scopes.foldl (fun horizon scope =>
      let limit := principalLimit settings scope
      if limit.enabled then max horizon (limit.burst / limit.perSecond) else horizon) start := by
  induction scopes generalizing start with
  | nil => exact le_rfl
  | cons first scopes ih =>
    refine le_trans ?_ (ih _)
    simp only
    split
    · exact le_max_left _ _
    · exact le_rfl

theorem refill_le_foldl {scopes : List Scope} (start : ℚ) (hmem : scope ∈ scopes)
    (henabled : (principalLimit settings scope).enabled = true) :
    (principalLimit settings scope).burst / (principalLimit settings scope).perSecond ≤
      scopes.foldl (fun horizon scope =>
        let limit := principalLimit settings scope
        if limit.enabled then max horizon (limit.burst / limit.perSecond) else horizon) start := by
  induction scopes generalizing start with
  | nil => cases hmem
  | cons first scopes ih =>
    rcases List.mem_cons.mp hmem with rfl | hmem
    · refine le_trans ?_ (le_foldl_horizon scopes _)
      simp only [if_pos henabled]
      exact le_max_right _ _
    · exact ih _ hmem

theorem pruneHorizon_nonneg : 0 ≤ pruneHorizon settings := by
  have hle := @le_foldl_horizon settings [Scope.user, .agent, .legacyAgent, .tenant] minPruneHorizon
  exact le_trans (by norm_num [minPruneHorizon]) hle

theorem refill_le_horizon (hrate : 0 < (principalLimit settings scope).perSecond) :
    ((principalLimit settings scope).burst : ℚ) ≤
      (principalLimit settings scope).perSecond * pruneHorizon settings := by
  have henabled : (principalLimit settings scope).enabled = true := decide_eq_true hrate
  have hle : (principalLimit settings scope).burst / (principalLimit settings scope).perSecond ≤
      pruneHorizon settings := by
    cases scope with
    | serviceToken => exact @refill_le_foldl settings .user _ _ (by decide) henabled
    | user => exact refill_le_foldl _ (by decide) henabled
    | agent => exact refill_le_foldl _ (by decide) henabled
    | tenant => exact refill_le_foldl _ (by decide) henabled
    | legacyAgent => exact refill_le_foldl _ (by decide) henabled
  rw [div_le_iff₀ hrate] at hle
  rw [mul_comm]
  exact hle

end Horizon

section Draws

variable {settings : Settings} {key : Key} {t : Store}

theorem stock_filter_le {rate burst now : ℚ} {b : Option (Bucket ℚ)} (hrate : 0 ≤ rate)
    (hsolvent : Solvent b) {p : Bucket ℚ → Bool}
    (hfull : ∀ bucket ∈ b, p bucket = true →
      burst ≤ bucket.tokens + rate * (now - bucket.refilledAt)) {later : ℚ} (hlater : now ≤ later) :
    stock rate burst (b.filter fun bucket => !p bucket) later ≤ stock rate burst b later := by
  cases b with
  | none => exact le_rfl
  | some bucket =>
    by_cases hp : p bucket = true
    · rw [Option.filter_some, if_neg (by simp [hp])]
      refine le_min le_rfl ((hfull bucket rfl hp).trans (add_le_add_right ?_ _))
      refine mul_le_mul_of_nonneg_left ?_ hrate
      refine le_trans ?_ (le_max_right _ _)
      linarith
    · rw [Option.filter_some, if_pos (by simp [hp])]

theorem available_max {rate burst now : ℚ} {b : Bucket ℚ} :
    b.available rate burst now = b.available rate burst (max b.refilledAt now) := by
  unfold Bucket.available
  rcases le_total now b.refilledAt with hearlier | hlater
  · rw [max_eq_left hearlier, sub_self, max_self, max_eq_left (sub_nonpos.mpr hearlier)]
  · rw [max_eq_right hlater]

theorem max_le_elim_filter {b : Option (Bucket ℚ)} {since horizon now : ℚ} {p : Bucket ℚ → Bool}
    (hbefore : since ≤ b.elim now fun bucket => max bucket.refilledAt now) (hafter : horizon ≤ now)
    (hold : ∀ bucket ∈ b, p bucket = true → bucket.refilledAt ≤ horizon) :
    max since horizon ≤
      (b.filter fun bucket => !p bucket).elim now fun bucket => max bucket.refilledAt now := by
  cases b with
  | none => exact max_le hbefore hafter
  | some bucket =>
    by_cases hp : p bucket = true
    · rw [Option.filter_some, if_neg (by simp [hp])]
      have hclock : max bucket.refilledAt now = now :=
        max_eq_right ((hold bucket rfl hp).trans hafter)
      exact max_le (hbefore.trans_eq hclock) hafter
    · rw [Option.filter_some, if_pos (by simp [hp])]
      exact max_le hbefore (hafter.trans (le_max_right _ _))

theorem solvent_filter {b : Option (Bucket ℚ)} (h : Solvent b) (p : Bucket ℚ → Bool) :
    Solvent (b.filter p) := fun bucket hmem => h bucket (Option.mem_filter_iff.mp hmem).1

theorem full_of_idle {bucket : Bucket ℚ} {now : ℚ}
    (hrate : 0 < (principalLimit settings key.1).perSecond) (htokens : 0 ≤ bucket.tokens)
    (hidle : pruneHorizon settings ≤ now - bucket.refilledAt) :
    ((principalLimit settings key.1).burst : ℚ) ≤
      bucket.tokens + (principalLimit settings key.1).perSecond * (now - bucket.refilledAt) := by
  have hrefill := refill_le_horizon hrate
  have hgrown := mul_le_mul_of_nonneg_left hidle hrate.le
  linarith

/-- A charge of a key in the database spends a token that is there, or does nothing. -/
theorem database_charge (hrate : 0 < (principalLimit settings key.1).perSecond)
    (hburst : 1 ≤ (principalLimit settings key.1).burst) (snapshot : Option (Bucket ℚ)) (now : ℚ) :
    let limit := principalLimit settings key.1
    let held := stock limit.perSecond limit.burst (bucketOf t key) now
    let next := databaseBuckets.step settings t (.charge snapshot key now)
    (1 ≤ held ∧ next.2 = some key ∧ bucketOf next.1 key =
        some ⟨held - 1, (bucketOf t key).elim now fun b => max b.refilledAt now⟩) ∨
      next = (t, none) := by
  have henabled : (principalLimit settings key.1).enabled = true := decide_eq_true hrate
  cases hrow : bucketOf t key with
  | none =>
    refine .inl ⟨?_, ?_, ?_⟩
    · exact Nat.one_le_cast.mpr hburst
    · simp [Buckets.step, databaseBuckets, henabled, hrow, spent]
    · simp [Buckets.step, databaseBuckets, henabled, hrow, spent, bucketOf_put, stock]
  | some bucket =>
    by_cases htoken : 1 ≤ bucket.available (principalLimit settings key.1).perSecond
        (principalLimit settings key.1).burst now
    · refine .inl ⟨htoken, ?_, ?_⟩
      · simp [Buckets.step, databaseBuckets, henabled, hrow, spent, htoken]
      · simp [Buckets.step, databaseBuckets, henabled, hrow, spent, htoken, bucketOf_put, stock]
    · refine .inr ?_
      simp [Buckets.step, databaseBuckets, henabled, hrow, spent, htoken]

theorem database_other {other : Key} (hother : other ≠ key) (snapshot : Option (Bucket ℚ))
    (now : ℚ) :
    bucketOf (databaseBuckets.step settings t (.charge snapshot other now)).1 key =
      bucketOf t key := by
  by_cases henabled : (principalLimit settings other.1).enabled = true
  · cases hspent : spent (principalLimit settings other.1) now (bucketOf t other) with
    | none => simp [Buckets.step, databaseBuckets, henabled, hspent]
    | some bucket =>
      simp [Buckets.step, databaseBuckets, henabled, hspent, bucketOf_put, hother]
  · simp [Buckets.step, henabled]

theorem not_granted_other {buckets : Buckets} {other : Key} (hother : other ≠ key)
    (snapshot : Option (Bucket ℚ)) (now : ℚ) :
    (buckets.step settings t (.charge snapshot other now)).2 ≠ some key := by
  simp only [Buckets.step]
  split
  · cases (buckets.take snapshot other (principalLimit settings other.1) now t).2 with
    | none => simpa using hother
    | some wait => rintro ⟨⟩
  · rintro ⟨⟩

def Act.idle (since : ℚ) : Act → ℚ
  | .charge _ _ _ => since
  | .prune now => max since now

def ticks (settings : Settings) (key : Key) : ℚ → Store → List Act → List (ℚ × Bool)
  | _, _, [] => []
  | since, t, act :: rest =>
    let next := databaseBuckets.step settings t act
    let now := if next.2 = some key then (bucketOf next.1 key).elim act.time Bucket.refilledAt
      else act.idle since
    (now, next.2 == some key) :: ticks settings key now next.1 rest

theorem grantsWithin_ticks {since start finish : ℚ} {acts : List Act} :
    grantsWithin start finish (ticks settings key since t acts) =
      grantsWithin start finish (databaseBuckets.clocks settings key t acts) := by
  induction acts generalizing since t with
  | nil => rfl
  | cons act acts ih =>
    have hrest := @ih (databaseBuckets.step settings t act).1
    unfold grantsWithin at hrest ⊢
    simp only [ticks, Buckets.clocks, List.countP_cons, hrest]
    by_cases hgranted : (databaseBuckets.step settings t act).2 = some key
    · rw [if_pos hgranted]
    · rw [if_neg hgranted, beq_eq_false_iff_ne.mpr hgranted]
      rfl

theorem database_drawn (hrate : 0 < (principalLimit settings key.1).perSecond)
    (hburst : 1 ≤ (principalLimit settings key.1).burst) {acts : List Act} {since : ℚ}
    (hsolvent : Solvent (bucketOf t key)) (hforward : PruneForward key acts)
    (hsince : ∀ snapshot now, .charge snapshot key now ∈ acts →
      since ≤ (bucketOf t key).elim now fun bucket => max bucket.refilledAt now) :
    Drawn (principalLimit settings key.1).perSecond (principalLimit settings key.1).burst
      (bucketOf t key) since (ticks settings key since t acts) := by
  induction acts generalizing t since with
  | nil => exact .nil _ _
  | cons act acts ih =>
    unfold PruneForward at hforward
    rw [List.pairwise_cons] at hforward
    have hrest : ∀ snapshot now, .charge snapshot key now ∈ acts →
        since ≤ (bucketOf t key).elim now fun bucket => max bucket.refilledAt now :=
      fun snapshot now hmem => hsince snapshot now (List.mem_cons_of_mem _ hmem)
    simp only [ticks]
    cases act with
    | charge snapshot other now =>
      by_cases hother : other = key
      · subst hother
        rcases @database_charge settings other t hrate hburst snapshot now with
          ⟨htoken, hgranted, hnext⟩ | hkept
        · have hnow : since ≤ (bucketOf t other).elim now fun b => max b.refilledAt now :=
            hsince snapshot now List.mem_cons_self
          rw [if_pos hgranted, hgranted, beq_self_eq_true, hnext]
          have hspent := @ih (databaseBuckets.step settings t (.charge snapshot other now)).1
            ((bucketOf t other).elim now fun b => max b.refilledAt now) ?_ hforward.2 ?_
          · rw [hnext] at hspent
            have hheld : stock (principalLimit settings other.1).perSecond
                (principalLimit settings other.1).burst (bucketOf t other) now =
                stock (principalLimit settings other.1).perSecond
                  (principalLimit settings other.1).burst (bucketOf t other)
                  ((bucketOf t other).elim now fun b => max b.refilledAt now) := by
              cases bucketOf t other with
              | none => rfl
              | some b => exact available_max
            rw [hheld] at htoken hspent ⊢
            exact .grant hnow htoken hspent
          · rw [hnext]
            rintro b ⟨⟩
            exact sub_nonneg.mpr htoken
          · intro _ later _
            rw [hnext]
            exact le_max_left _ later
        · rw [hkept]
          exact .keep le_rfl hsolvent (fun _ _ => le_rfl) (ih hsolvent hforward.2 hrest)
      · have hsame := @database_other settings key t other hother snapshot now
        have hgranted := @not_granted_other settings key t databaseBuckets other hother snapshot now
        rw [if_neg hgranted, beq_eq_false_iff_ne.mpr hgranted]
        have hnext := @ih (databaseBuckets.step settings t (.charge snapshot other now)).1 since
          (hsame ▸ hsolvent) hforward.2 (hsame ▸ hrest)
        exact .keep le_rfl (hsame ▸ hsolvent) (fun _ _ => by rw [hsame]) hnext
    | prune horizon =>
      have hnext : bucketOf (databaseBuckets.step settings t (.prune horizon)).1 key =
          (bucketOf t key).filter fun b =>
            !decide (b.refilledAt < horizon - pruneHorizon settings) :=
        bucketOf_dropIf _
      have hsolvent' := solvent_filter hsolvent fun b =>
        !decide (b.refilledAt < horizon - pruneHorizon settings)
      have hpruned := @ih (databaseBuckets.step settings t (.prune horizon)).1 (max since horizon)
        (hnext ▸ hsolvent') hforward.2 ?_
      · rw [hnext] at hpruned
        refine .keep (le_max_left _ _) hsolvent' (fun later hlater => ?_) hpruned
        refine stock_filter_le hrate.le hsolvent (fun b hb hidle => ?_)
          ((le_max_right _ _).trans hlater)
        refine full_of_idle hrate (hsolvent b hb) ?_
        have hlate : b.refilledAt < horizon - pruneHorizon settings := of_decide_eq_true hidle
        change pruneHorizon settings ≤ horizon - b.refilledAt
        linarith
      · intro snapshot now hmem
        have hafter : horizon ≤ now := hforward.1 _ hmem horizon rfl snapshot now rfl
        have hbefore := hrest snapshot now hmem
        rw [hnext]
        exact max_le_elim_filter hbefore hafter fun b _ hidle => by
          have hlate : b.refilledAt < horizon - pruneHorizon settings := of_decide_eq_true hidle
          linarith [@pruneHorizon_nonneg settings]

/-- A charge of a key in process spends a token that is there, or does nothing. -/
theorem memory_charge (hrate : 0 < (principalLimit settings key.1).perSecond)
    (snapshot : Option (Bucket ℚ)) (now : ℚ) :
    let limit := principalLimit settings key.1
    let held := stock limit.perSecond limit.burst (bucketOf t key) now
    let next := memoryBuckets.step settings t (.charge snapshot key now)
    (1 ≤ held ∧ next.2 = some key ∧ bucketOf next.1 key = some ⟨held - 1, now⟩) ∨
      next = (t, none) := by
  have henabled : (principalLimit settings key.1).enabled = true := decide_eq_true hrate
  have hheld : ((bucketOf t key).getD ⟨(principalLimit settings key.1).burst, now⟩).available
      (principalLimit settings key.1).perSecond (principalLimit settings key.1).burst now =
      stock (principalLimit settings key.1).perSecond (principalLimit settings key.1).burst
        (bucketOf t key) now := by
    cases bucketOf t key with
    | none => simp [stock, Bucket.available]
    | some bucket => rfl
  by_cases htoken : 1 ≤ stock (principalLimit settings key.1).perSecond
      (principalLimit settings key.1).burst (bucketOf t key) now
  · refine .inl ⟨htoken, ?_, ?_⟩
    · simp [Buckets.step, memoryBuckets, henabled, hheld, not_lt.mpr htoken]
    · simp only [Buckets.step, memoryBuckets, henabled, hheld, if_true, if_neg (not_lt.mpr htoken)]
      -- The bucket just written is not idle.
      split
      · rw [dropIdle, bucketOf_dropIf, bucketOf_put, if_pos rfl, Option.filter_some, if_pos]
        simp [minPruneHorizon]
      · rw [bucketOf_put, if_pos rfl]
  · refine .inr ?_
    simp [Buckets.step, memoryBuckets, henabled, hheld, not_le.mp htoken]

/-- A charge of another key leaves a bucket as it was, or drops it where it may. -/
theorem memory_other {other : Key} (hother : other ≠ key) (snapshot : Option (Bucket ℚ))
    (now : ℚ) :
    let next := memoryBuckets.step settings t (.charge snapshot other now)
    next.2 ≠ some key ∧
      (bucketOf next.1 key = bucketOf t key ∨
        (memoryMaxKeys < ((t.rows.map Prod.fst).insert other).length ∧
          bucketOf next.1 key = (bucketOf t key).filter fun b =>
            !decide (minPruneHorizon < now - b.refilledAt))) := by
  by_cases henabled : (principalLimit settings other.1).enabled = true
  · by_cases htoken : ((bucketOf t other).getD ⟨(principalLimit settings other.1).burst,
        now⟩).available (principalLimit settings other.1).perSecond
        (principalLimit settings other.1).burst now < 1
    · simp [Buckets.step, memoryBuckets, henabled, htoken]
    · simp only [Buckets.step, memoryBuckets, henabled, if_true, if_neg htoken, length_put]
      refine ⟨by simpa using hother, ?_⟩
      split
      · rename_i hfull
        refine .inr ⟨hfull, ?_⟩
        rw [dropIdle, bucketOf_dropIf, bucketOf_put, if_neg hother]
      · rw [bucketOf_put, if_neg hother]
        exact .inl rfl
  · simp [Buckets.step, henabled]

theorem memory_drawn (hrate : 0 < (principalLimit settings key.1).perSecond) {acts : List Act}
    {since : ℚ}
    (hsolvent : Solvent (bucketOf t key)) (hclock : acts.Pairwise fun a b => a.time ≤ b.time)
    (hsince : ∀ act ∈ acts, since ≤ act.time)
    (hspares : ∀ earlier act later, acts = earlier ++ act :: later → Spares settings key
      (earlier.foldl (fun t act => (memoryBuckets.step settings t act).1) t) act) :
    Drawn (principalLimit settings key.1).perSecond (principalLimit settings key.1).burst
      (bucketOf t key) since ((memoryBuckets.events settings key t acts).map fun event =>
        (event.1.time, event.2)) := by
  induction acts generalizing t since with
  | nil => exact .nil _ _
  | cons act acts ih =>
    rw [List.pairwise_cons] at hclock
    have hnow : since ≤ act.time := hsince _ List.mem_cons_self
    have hspares' : ∀ earlier x later, acts = earlier ++ x :: later → Spares settings key
        (earlier.foldl (fun t act => (memoryBuckets.step settings t act).1)
          (memoryBuckets.step settings t act).1) x := by
      intro earlier x later heq
      exact hspares (act :: earlier) x later (by rw [heq]; rfl)
    have hrest : Solvent (bucketOf (memoryBuckets.step settings t act).1 key) → _ :=
      fun hsolvent' => ih hsolvent' hclock.2 hclock.1 hspares'
    unfold Buckets.events
    rw [List.map_cons]
    cases act with
    | charge snapshot other now =>
      by_cases hother : other = key
      · subst hother
        rcases @memory_charge settings other t hrate snapshot now with
          ⟨htoken, hgranted, hnext⟩ | hkept
        · have hspent := hrest ?_
          · rw [hnext] at hspent
            rw [hgranted, beq_self_eq_true]
            exact .grant hnow htoken hspent
          · rw [hnext]
            rintro b ⟨⟩
            exact sub_nonneg.mpr htoken
        · rw [hkept] at hrest ⊢
          exact .keep hnow hsolvent (fun _ _ => le_rfl) (hrest hsolvent)
      · obtain ⟨hgranted, hnext⟩ := @memory_other settings key t other hother snapshot now
        have hfalse : ((memoryBuckets.step settings t (.charge snapshot other now)).2 ==
            some key) = false := by simpa using hgranted
        rw [hfalse]
        rcases hnext with hsame | ⟨hfull, hdropped⟩
        · have hkept := hrest (hsame ▸ hsolvent)
          rw [hsame] at hkept
          exact .keep hnow hsolvent (fun _ _ => le_rfl) hkept
        · have hsolvent' := solvent_filter hsolvent fun b =>
            !decide (minPruneHorizon < now - b.refilledAt)
          have hkept := hrest (hdropped ▸ hsolvent')
          rw [hdropped] at hkept
          refine .keep hnow hsolvent' (fun later hlater => ?_) hkept
          refine stock_filter_le hrate.le hsolvent (fun b hb hidle => ?_) hlater
          exact hspares [] _ acts rfl hfull b hb (of_decide_eq_true hidle)
    | prune now =>
      have hnext : bucketOf (memoryBuckets.step settings t (.prune now)).1 key =
          (bucketOf t key).filter fun b =>
            !decide (pruneHorizon settings < now - b.refilledAt) := bucketOf_dropIf _
      have hsolvent' := solvent_filter hsolvent fun b =>
        !decide (pruneHorizon settings < now - b.refilledAt)
      have hpruned := hrest (hnext ▸ hsolvent')
      rw [hnext] at hpruned
      refine .keep hnow hsolvent' (fun later hlater => ?_) hpruned
      refine stock_filter_le hrate.le hsolvent (fun b hb hidle => ?_) hlater
      exact full_of_idle hrate (hsolvent b hb) (of_decide_eq_true hidle).le

end Draws

section Bounds

variable {settings : Settings} {key : Key} {t : Store} {buckets : Buckets} {acts : List Act}

theorem pruneForward_of_forward (h : Forward key acts) : PruneForward key acts := by
  unfold Forward at h
  rw [List.pairwise_filter] at h
  refine h.imp ?_
  rintro _ _ hforward horizon rfl snapshot now rfl
  exact hforward rfl (by simp [Act.touches])

theorem grantsWithin_clocks (hrate : 0 < (principalLimit settings key.1).perSecond)
    (hburst : 1 ≤ (principalLimit settings key.1).burst) (hforward : Forward key acts)
    (hclock : ∀ bucket ∈ bucketOf t key, ∀ act ∈ acts, act.touches key = true →
      bucket.refilledAt ≤ act.time) (start finish : ℚ) :
    grantsWithin start finish (databaseBuckets.clocks settings key t acts) =
      grantsWithin start finish ((databaseBuckets.events settings key t acts).map fun event =>
        (event.1.time, event.2)) := by
  induction acts generalizing t with
  | nil => rfl
  | cons act acts ih =>
    unfold Forward at hforward
    have hforward' : Forward key acts := by
      unfold Forward
      refine hforward.sublist (List.Sublist.filter _ (List.sublist_cons_self _ _))
    have hrest : ∀ bucket ∈ bucketOf t key, ∀ later ∈ acts, later.touches key = true →
        bucket.refilledAt ≤ later.time :=
      fun b hb later hlater => hclock b hb later (List.mem_cons_of_mem _ hlater)
    unfold Buckets.clocks Buckets.events
    rw [List.map_cons]
    cases act with
    | charge snapshot other now =>
      by_cases hother : other = key
      · subst hother
        have htouches : (Act.charge snapshot other now).touches other = true :=
          beq_self_eq_true other
        rw [List.filter_cons_of_pos htouches, List.pairwise_cons] at hforward
        rcases @database_charge settings other t hrate hburst snapshot now with
          ⟨htoken, hgranted, hnext⟩ | hkept
        · have hnow : ((bucketOf t other).elim now fun b => max b.refilledAt now) = now := by
            cases hrow : bucketOf t other with
            | none => rfl
            | some b => exact max_eq_right (hclock b hrow _ List.mem_cons_self htouches)
          have hsame := @ih (databaseBuckets.step settings t (.charge snapshot other now)).1
            hforward' ?_
          · unfold grantsWithin at hsame ⊢
            rw [List.countP_cons, List.countP_cons, hsame, hnext, hnow]
            rfl
          · rw [hnext, hnow]
            rintro _ ⟨⟩ later hlater htouched
            exact hforward.1 later (List.mem_filter.mpr ⟨hlater, htouched⟩)
        · have hsame := @ih t hforward' hrest
          unfold grantsWithin at hsame ⊢
          rw [List.countP_cons, List.countP_cons, hkept, hsame]
          rfl
      · have hrow := @database_other settings key t other hother snapshot now
        have hgranted := @not_granted_other settings key t databaseBuckets other hother snapshot now
        have hsame := @ih (databaseBuckets.step settings t (.charge snapshot other now)).1
          hforward' (hrow ▸ hrest)
        unfold grantsWithin at hsame ⊢
        rw [List.countP_cons, List.countP_cons, beq_eq_false_iff_ne.mpr hgranted, hsame]
        rfl
    | prune horizon =>
      have hnext : bucketOf (databaseBuckets.step settings t (.prune horizon)).1 key =
          (bucketOf t key).filter fun b =>
            !decide (b.refilledAt < horizon - pruneHorizon settings) :=
        bucketOf_dropIf _
      have hsame := @ih (databaseBuckets.step settings t (.prune horizon)).1 hforward' ?_
      · unfold grantsWithin at hsame ⊢
        rw [List.countP_cons, List.countP_cons, hsame]
        rfl
      · rw [hnext]
        exact fun b hb => hrest b (Option.mem_filter_iff.mp hb).1

theorem exists_since (acts : List Act) : ∃ since, ∀ act ∈ acts, since ≤ act.time := by
  induction acts with
  | nil => exact ⟨0, fun _ h => absurd h List.not_mem_nil⟩
  | cons act acts ih =>
    obtain ⟨since, hsince⟩ := ih
    refine ⟨min since act.time, ?_⟩
    intro x hx
    rcases List.mem_cons.mp hx with rfl | hx
    · exact min_le_right _ _
    · exact (min_le_left _ _).trans (hsince x hx)

theorem solvent_none : Solvent (none : Option (Bucket ℚ)) := fun _ h => by cases h

/-- On the clock of the bucket the bound holds in any order of the statements, where a prune is not
followed by a take from before it. -/
theorem database_clockBounded (hrate : 0 < (principalLimit settings key.1).perSecond)
    (hburst : 1 ≤ (principalLimit settings key.1).burst) (hforward : PruneForward key acts) :
    ClockBounded databaseBuckets settings key acts := by
  intro start finish hinterval
  obtain ⟨since, hsince⟩ := exists_since acts
  have hdrawn := @database_drawn settings key emptyStore hrate hburst acts since
    (bucketOf_empty ▸ solvent_none) hforward fun snapshot now hmem => hsince _ hmem
  rw [← @grantsWithin_ticks settings key emptyStore since start finish acts]
  exact hdrawn.grantsWithin_le hrate.le (Nat.cast_nonneg _) solvent_none hinterval

theorem database_bounded (hrate : 0 < (principalLimit settings key.1).perSecond)
    (hburst : 1 ≤ (principalLimit settings key.1).burst) (hforward : Forward key acts) :
    Bounded databaseBuckets settings key acts := by
  intro start finish hinterval
  have hclocked := database_clockBounded hrate hburst (pruneForward_of_forward hforward)
    start finish hinterval
  rw [grantsWithin_clocks hrate hburst hforward (fun _ h => by cases h)] at hclocked
  exact hclocked

theorem memory_bounded (hrate : 0 < (principalLimit settings key.1).perSecond)
    (hclock : acts.Pairwise fun a b => a.time ≤ b.time)
    (hspares : ∀ earlier act later, acts = earlier ++ act :: later →
      Spares settings key (stateAfter memoryBuckets settings earlier) act) :
    Bounded memoryBuckets settings key acts := by
  intro start finish hinterval
  obtain ⟨since, hsince⟩ := exists_since acts
  have hdrawn := @memory_drawn settings key emptyStore hrate acts since
    (bucketOf_empty ▸ solvent_none) hclock hsince hspares
  exact hdrawn.grantsWithin_le hrate.le (Nat.cast_nonneg _) solvent_none hinterval

theorem database_refusalFree : RefusalFree databaseBuckets := by
  intro snapshot key limit now t hwait
  simp only [databaseBuckets] at hwait ⊢
  split
  · rename_i bucket hspent
    rw [hspent] at hwait
    exact absurd rfl hwait
  · rfl

theorem memory_refusalFree : RefusalFree memoryBuckets := by
  intro snapshot key limit now t hwait
  simp only [memoryBuckets] at hwait ⊢
  split
  · rfl
  · rename_i htoken
    rw [if_neg htoken] at hwait
    exact absurd rfl hwait

theorem spares_of_refill (hrate : 0 ≤ (principalLimit settings key.1).perSecond)
    (hrefill : ((principalLimit settings key.1).burst : ℚ) ≤
      (principalLimit settings key.1).perSecond * minPruneHorizon)
    (hsolvent : Solvent (bucketOf t key)) (act : Act) : Spares settings key t act := by
  cases act with
  | prune now => trivial
  | charge snapshot other now =>
    intro _ bucket hbucket hidle
    have htokens := hsolvent bucket hbucket
    have hgrown := mul_le_mul_of_nonneg_left hidle.le hrate
    linarith

/-- The bound holds of the database on the clock of the bucket, and by the times of the statements
where they do not go back, and in process where no drop takes a bucket before it is full; a refusal
changes nothing. -/
theorem buckets_bounded (hrate : 0 < (principalLimit settings key.1).perSecond)
    (hburst : 1 ≤ (principalLimit settings key.1).burst) :
    (∀ acts, PruneForward key acts → ClockBounded databaseBuckets settings key acts) ∧
      (∀ acts, Forward key acts → Bounded databaseBuckets settings key acts) ∧
      (∀ acts : List Act, acts.Pairwise (fun a b => a.time ≤ b.time) →
        (∀ earlier act later, acts = earlier ++ act :: later →
          Spares settings key (stateAfter memoryBuckets settings earlier) act) →
        Bounded memoryBuckets settings key acts) ∧
      RefusalFree databaseBuckets ∧ RefusalFree memoryBuckets :=
  ⟨fun _ hforward => database_clockBounded hrate hburst hforward,
    fun _ hforward => database_bounded hrate hburst hforward,
    fun _ hclock hspares => memory_bounded hrate hclock hspares,
    database_refusalFree, memory_refusalFree⟩

def slow : Settings := ⟨1 / 10000, 1, 1 / 10000, 1, 1 / 10000, 1, 1⟩

def clerk : Key := (.user, "clerk")

theorem buckets_bounded_slow :
    0 < (principalLimit slow clerk.1).perSecond ∧ 1 ≤ (principalLimit slow clerk.1).burst ∧
      (∀ acts, PruneForward clerk acts → ClockBounded databaseBuckets slow clerk acts) ∧
      (∀ acts, Forward clerk acts → Bounded databaseBuckets slow clerk acts) ∧
      (∀ acts : List Act, acts.Pairwise (fun a b => a.time ≤ b.time) →
        (∀ earlier act later, acts = earlier ++ act :: later →
          Spares slow clerk (stateAfter memoryBuckets slow earlier) act) →
        Bounded memoryBuckets slow clerk acts) ∧
      RefusalFree databaseBuckets ∧ RefusalFree memoryBuckets := by
  have hrate : 0 < (principalLimit slow clerk.1).perSecond := by
    norm_num [principalLimit, slow, clerk]
  have hburst : 1 ≤ (principalLimit slow clerk.1).burst := le_rfl
  exact ⟨hrate, hburst, buckets_bounded hrate hburst⟩

end Bounds

section Crowd

variable {t : Store}

def agentNamed (k : ℕ) : Key := (.agent, String.ofList (List.replicate k 'x'))

def crowd (size : ℕ) : List Act :=
  (List.range size).map fun k => .charge none (agentNamed k) 3601

/-- The clerk draws, as many agents as the store keeps draw an hour later, and the clerk with
them. -/
def crowded : List Act :=
  .charge none clerk 0 :: (crowd memoryMaxKeys ++ [.charge none clerk 3601])

theorem agentNamed_injective : Function.Injective agentNamed := by
  intro a b heq
  have hnames := String.ofList_injective (congrArg Prod.snd heq)
  simpa using congrArg List.length hnames

theorem agentNamed_ne_clerk (k : ℕ) : agentNamed k ≠ clerk := by
  intro heq
  have hscope := congrArg Prod.fst heq
  cases hscope

theorem events_append (earlier later : List Act) :
    memoryBuckets.events slow clerk t (earlier ++ later) =
      memoryBuckets.events slow clerk t earlier ++ memoryBuckets.events slow clerk
        (earlier.foldl (fun t act => (memoryBuckets.step slow t act).1) t) later := by
  induction earlier generalizing t with
  | nil => rfl
  | cons act earlier ih =>
    rw [List.cons_append, Buckets.events, Buckets.events, ih, List.cons_append, List.foldl_cons]

theorem memory_fresh {key : Key} {now : ℚ} (hfresh : bucketOf t key = none)
    (henabled : (principalLimit slow key.1).enabled = true)
    (hburst : (principalLimit slow key.1).burst = 1) :
    memoryBuckets.step slow t (.charge none key now) =
      (if memoryMaxKeys < t.rows.length + 1 then
        dropIdle now minPruneHorizon (put t key ⟨0, now⟩)
      else put t key ⟨0, now⟩, some key) := by
  have hlength := @length_put_new t key ⟨0, now⟩ hfresh
  have hfull : Bucket.available (principalLimit slow key.1).perSecond
      (principalLimit slow key.1).burst ⟨(principalLimit slow key.1).burst, now⟩ now = 1 := by
    simp [Bucket.available, hburst]
  simp [Buckets.step, memoryBuckets, henabled, hfresh, hfull, hlength]

theorem memory_fresh_granted {key : Key} {now : ℚ} (hfresh : bucketOf t key = none)
    (henabled : (principalLimit slow key.1).enabled = true)
    (hburst : (principalLimit slow key.1).burst = 1) :
    (memoryBuckets.step slow t (.charge none key now)).2 = some key :=
  congrArg Prod.snd (memory_fresh hfresh henabled hburst)

theorem crowd_fills {size : ℕ} (hsize : size < memoryMaxKeys)
    (hclerk : bucketOf t clerk = some ⟨0, 0⟩) (hlength : t.rows.length = 1)
    (hfresh : ∀ k, bucketOf t (agentNamed k) = none) :
    let filled := (crowd size).foldl (fun t act => (memoryBuckets.step slow t act).1) t
    bucketOf filled clerk = some ⟨0, 0⟩ ∧ filled.rows.length = size + 1 ∧
      ∀ k, size ≤ k → bucketOf filled (agentNamed k) = none := by
  induction size with
  | zero => exact ⟨hclerk, hlength, fun k _ => hfresh k⟩
  | succ size ih =>
    obtain ⟨hkept, hcount, hnone⟩ := ih (by omega)
    have henabled : (principalLimit slow Scope.agent).enabled = true := by decide +kernel
    have hstep := @memory_fresh _ (agentNamed size) 3601 (hnone size le_rfl) henabled rfl
    have hroom : ¬ memoryMaxKeys < size + 1 + 1 := by omega
    rw [hcount, if_neg hroom] at hstep
    have hnext : (crowd (size + 1)).foldl (fun t act => (memoryBuckets.step slow t act).1) t =
        put ((crowd size).foldl (fun t act => (memoryBuckets.step slow t act).1) t)
          (agentNamed size) ⟨0, 3601⟩ := by
      rw [crowd, List.range_succ, List.map_append, List.foldl_append]
      exact congrArg Prod.fst hstep
    simp only [hnext]
    refine ⟨?_, ?_, ?_⟩
    · rw [bucketOf_put, if_neg (agentNamed_ne_clerk size), hkept]
    · rw [length_put_new (hnone size le_rfl), hcount]
    · intro k hk
      have hother : agentNamed size ≠ agentNamed k := fun heq => by
        have hsame := agentNamed_injective heq
        omega
      rw [bucketOf_put, if_neg hother]
      exact hnone k (by omega)

theorem crowd_drops {size : ℕ} (hsize : size + 1 = memoryMaxKeys)
    (hclerk : bucketOf t clerk = some ⟨0, 0⟩) (hlength : t.rows.length = 1)
    (hfresh : ∀ k, bucketOf t (agentNamed k) = none) :
    bucketOf ((crowd memoryMaxKeys).foldl (fun t act => (memoryBuckets.step slow t act).1) t)
      clerk = none := by
  obtain ⟨hkept, hcount, hnone⟩ := @crowd_fills t size (by omega) hclerk hlength hfresh
  have henabled : (principalLimit slow Scope.agent).enabled = true := by decide +kernel
  have hstep := @memory_fresh _ (agentNamed size) 3601 (hnone size le_rfl) henabled rfl
  rw [hcount, if_pos (by omega)] at hstep
  rw [← hsize, crowd, List.range_succ, List.map_append, List.foldl_append]
  refine (congrArg (fun next : Store × Option Key => bucketOf next.1 clerk) hstep).trans ?_
  rw [dropIdle, bucketOf_dropIf, bucketOf_put, if_neg (agentNamed_ne_clerk size), hkept]
  decide +kernel

theorem granted_twice {acts : List Act}
    (hdropped : bucketOf (acts.foldl (fun t act => (memoryBuckets.step slow t act).1)
      (put emptyStore clerk ⟨0, 0⟩)) clerk = none) :
    2 ≤ memoryBuckets.grants slow clerk
      (.charge none clerk 0 :: (acts ++ [.charge none clerk 3601])) 0 3601 := by
  have henabled : (principalLimit slow clerk.1).enabled = true := by decide +kernel
  have hfirst : memoryBuckets.step slow emptyStore (.charge none clerk 0) =
      (put emptyStore clerk ⟨0, 0⟩, some clerk) := memory_fresh rfl henabled rfl
  have hlast := @memory_fresh_granted _ clerk 3601 hdropped henabled rfl
  unfold Buckets.grants grantsWithin
  rw [Buckets.events, events_append, hfirst]
  simp only [Buckets.events, hlast, List.map_cons, List.map_append, List.countP_cons,
    List.countP_append, Act.time]
  norm_num

theorem crowded_unbounded : ¬ Bounded memoryBuckets slow clerk crowded := by
  intro hbounded
  have hdropped := @crowd_drops (put emptyStore clerk ⟨0, 0⟩) 9999 rfl
    (by rw [bucketOf_put, if_pos rfl]) (length_put_new rfl)
    fun k => by rw [bucketOf_put, if_neg (agentNamed_ne_clerk k).symm]; rfl
  have hgrants : (2 : ℚ) ≤ memoryBuckets.grants slow clerk crowded 0 3601 :=
    Nat.ofNat_le_cast.mpr (granted_twice hdropped)
  have hlimit := hgrants.trans (hbounded 0 3601 (by norm_num))
  have hrate : (principalLimit slow clerk.1).perSecond = 1 / 10000 := rfl
  have hburst : (principalLimit slow clerk.1).burst = 1 := rfl
  rw [hrate, hburst] at hlimit
  norm_num at hlimit

end Crowd

end Shapoclyack.RateBuckets
