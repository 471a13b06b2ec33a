import Mathlib.Data.List.Nodup
import Shapoclyack.Library.Lookups
import Shapoclyack.Library.ReadCommitted
import Shapoclyack.ResumedBatches

set_option autoImplicit false

namespace Shapoclyack.SecondFactors

open Library
open ResumedBatches (Line strip)

section Codes

/-- What is called of `hmac`, `str` and `passlib`; none is where a call raises. -/
structure Primitives where
  hotp : Line → ℕ → Option Line
  isDigit : Char → Bool
  lower : Line → Line
  verifyPassword : Line → String → Option Bool

def digits : ℕ := 6

def windowSteps : ℕ := 1

def recoveryCodeCount : ℕ := 10

/-- `hmac.compare_digest`, which raises for a text that is not ASCII. -/
def compareDigest (expected given : Line) : Option Bool :=
  if given.all fun c => decide (c.toNat < 128) then some (expected == given) else none

def candidates (current : ℤ) : List ℤ :=
  (List.range (2 * windowSteps + 1)).map fun k => current + windowSteps - k

variable (p : Primitives)

def walk (secret cleaned : Line) (lastStep : Option ℤ) : List ℤ → Option (Option ℤ)
  | [] => some none
  | candidate :: rest =>
    if candidate < 0 ∨ lastStep.any (candidate ≤ ·) then walk secret cleaned lastStep rest
    else do
      let value ← p.hotp secret candidate.toNat
      let same ← compareDigest value cleaned
      if same then some (some candidate) else walk secret cleaned lastStep rest

/-- `totp.verify` at the step that holds the moment. -/
def verify (secret code : Line) (current : ℤ) (lastStep : Option ℤ) : Option (Option ℤ) :=
  let cleaned := strip (code.filter fun c => c != ' ' && c != '-')
  if cleaned.all p.isDigit && cleaned.length == digits then
    walk p secret cleaned lastStep (candidates current)
  else some none

def normaliseRecoveryCode (value : Line) : Line :=
  (p.lower (strip value)).filter fun c => c != ' ' && c != '-'

/-- An entry of `mfa_recovery_codes`, with the enrolment that issued it. -/
structure Entry where
  hash : String
  used : Bool
  enrolment : ℕ
deriving DecidableEq

/-- Where the comparison of a recovery code stops, among the entries that were read. -/
def matchCode (supplied : Line) : ℕ → List Entry → Option (ℕ × String)
  | _, [] => none
  | index, entry :: rest =>
    if !entry.used && entry.hash != "" && p.verifyPassword supplied entry.hash == some true then
      some (index, entry.hash)
    else matchCode supplied (index + 1) rest

end Codes

section Model

/-- The second factor's columns of a row of `users`. -/
structure Account where
  secret : Option Line
  enabled : Bool
  lastStep : Option ℤ
  recoveryCodes : List Entry
deriving DecidableEq

/-- A recovery code that a request has compared, and the entry it is about to stamp. -/
structure Match where
  supplied : Line
  index : ℕ
  hash : String
deriving DecidableEq

structure State where
  row : Account
  -- the row that a setup under way has read
  begins : ℕ → Option Account
  spends : ℕ → Option Match
  enrolment : ℕ
  -- the secret that the last confirming code was verified against
  confirmed : Option Line
  accepted : List (ℕ × ℤ)
  spent : List (ℕ × ℕ)

inductive Action where
  | beginRead (tx : ℕ)
  | beginWrite (tx : ℕ) (secret : Line)
  | confirmSetup (code : Line) (current : ℤ) (hashes : List String)
  | verify (code : Line) (current : ℤ)
  | recoveryRead (tx : ℕ) (code : Line)
  | recoverySpend (tx : ℕ)
  | disable
  | adminReset
deriving DecidableEq

def Action.writesSetup : Action → Bool
  | .beginWrite _ _ => true
  | _ => false

def beginSetup (secret : Line) (row : Account) : Account :=
  { row with secret := some secret, lastStep := none }

/-- The columns that an unlocked update changed, over the row that is there by then. -/
def overlay (current seen new : Account) : Account where
  secret := column current.secret seen.secret new.secret
  enabled := column current.enabled seen.enabled new.enabled
  lastStep := column current.lastStep seen.lastStep new.lastStep
  recoveryCodes := column current.recoveryCodes seen.recoveryCodes new.recoveryCodes

def clear : Account := ⟨none, false, none, []⟩

def Account.enable (row : Account) (step : ℤ) (hashes : List String) (enrolment : ℕ) : Account :=
  { row with
    enabled := true
    lastStep := some step
    recoveryCodes := hashes.map fun hash => ⟨hash, false, enrolment⟩ }

def State.confirm (s : State) (step : ℤ) (hashes : List String) : State :=
  { s with
    row := s.row.enable step hashes (s.enrolment + 1)
    enrolment := s.enrolment + 1
    confirmed := s.row.secret
    accepted := (s.enrolment + 1, step) :: s.accepted }

def State.accept (s : State) (step : ℤ) : State :=
  { s with
    row := { s.row with lastStep := some step }
    accepted := (s.enrolment, step) :: s.accepted }

def State.compared (s : State) (tx : ℕ) (m : Match) : State :=
  { s with spends := Function.update s.spends tx (some m) }

def State.stamp (s : State) (tx index : ℕ) (entry : Entry) : State :=
  { s with
    row := { s.row with
      recoveryCodes := s.row.recoveryCodes.set index { entry with used := true } }
    spends := Function.update s.spends tx none
    spent := (entry.enrolment, index) :: s.spent }

/-- The entry that `_spend_recovery_code` stamps, once it holds the row's lock. -/
def Account.unspent (row : Account) (m : Match) : Option Entry :=
  if row.enabled then
    row.recoveryCodes[m.index]?.filter fun entry => entry.hash == m.hash && !entry.used
  else none

variable (p : Primitives)

/-- One transaction, or the read of one that does not lock the row; none where it is refused. -/
def step (s : State) : Action → Option State
  | .beginRead tx =>
    if s.row.enabled then none
    else some { s with begins := Function.update s.begins tx (some s.row) }
  | .beginWrite tx secret =>
    (s.begins tx).map fun seen =>
      { s with
        row := overlay s.row seen (beginSetup secret seen)
        begins := Function.update s.begins tx none }
  | .confirmSetup code current hashes => do
    guard (s.row.enabled = false ∧ hashes.length = recoveryCodeCount)
    let secret ← s.row.secret
    guard (secret ≠ [])
    let step ← (← SecondFactors.verify p secret code current s.row.lastStep)
    some (s.confirm step hashes)
  | .verify code current => do
    guard (s.row.enabled = true)
    let step ← (← SecondFactors.verify p (s.row.secret.getD []) code current s.row.lastStep)
    some (s.accept step)
  | .recoveryRead tx code => do
    guard (s.row.enabled = true ∧ normaliseRecoveryCode p code ≠ [])
    let found ← matchCode p (normaliseRecoveryCode p code) 0 s.row.recoveryCodes
    some (s.compared tx ⟨normaliseRecoveryCode p code, found.1, found.2⟩)
  | .recoverySpend tx => do
    let m ← s.spends tx
    let entry ← s.row.unspent m
    some (s.stamp tx m.index entry)
  | .disable => some { s with row := clear }
  | .adminReset => some { s with row := clear }

def start : State where
  row := clear
  begins _ := none
  spends _ := none
  enrolment := 0
  confirmed := none
  accepted := []
  spent := []

end Model

section Purpose

/-- The secret in force is the one a code was confirmed against. -/
def Proven (s : State) : Prop := s.row.enabled = true → s.row.secret = s.confirmed

/-- A recovery code is accepted as an unspent one of the enrolment in force. -/
def SpendsCurrent (p : Primitives) (s : State) : Prop :=
  ∀ tx u, step p s (.recoverySpend tx) = some u →
    s.row.enabled = true ∧ ∃ m entry, s.spends tx = some m ∧
      s.row.recoveryCodes[m.index]? = some entry ∧ entry.used = false ∧
      entry.enrolment = s.enrolment ∧ p.verifyPassword m.supplied entry.hash = some true ∧
      u.spent = (s.enrolment, m.index) :: s.spent

def NeverBack (s u : State) : Prop :=
  s.row.enabled = true → u.row.enabled = true → s.enrolment = u.enrolment →
    ∀ n, s.row.lastStep = some n → ∃ m, u.row.lastStep = some m ∧ n ≤ m

/-- A setup that writes does so on an account that is not enrolled by then. -/
def LandsUnenrolled (s : State) (a : Action) : Prop :=
  a.writesSetup = true → s.row.enabled = false

instance (s : State) : DecidablePred (LandsUnenrolled s) := fun a =>
  inferInstanceAs (Decidable (a.writesSetup = true → s.row.enabled = false))

end Purpose

section Verification

variable {p : Primitives}

/-- A step that is accepted is newer than the last one, and its code is the one given. -/
theorem walk_spec {secret cleaned : Line} {lastStep : Option ℤ} {steps : List ℤ} {n : ℤ}
    (h : walk p secret cleaned lastStep steps = some (some n)) :
    n ∈ steps ∧ 0 ≤ n ∧ (∀ last, lastStep = some last → last < n) ∧
      p.hotp secret n.toNat = some cleaned := by
  induction steps with
  | nil => cases Option.some.inj h
  | cons candidate rest ih =>
    rw [walk] at h
    split at h
    · rcases ih h with ⟨hmem, hrest⟩
      exact ⟨List.mem_cons_of_mem _ hmem, hrest⟩
    · rename_i hcandidate
      rcases Option.bind_eq_some_iff.mp h with ⟨value, hvalue, h⟩
      rcases Option.bind_eq_some_iff.mp h with ⟨same, hsame, h⟩
      cases same with
      | false =>
        rcases ih h with ⟨hmem, hrest⟩
        exact ⟨List.mem_cons_of_mem _ hmem, hrest⟩
      | true =>
        obtain rfl := Option.some.inj (Option.some.inj h)
        have hequal : value = cleaned := by
          unfold compareDigest at hsame
          split at hsame
          · exact eq_of_beq (Option.some.inj hsame)
          · cases hsame
        rw [not_or] at hcandidate
        refine ⟨List.mem_cons_self, not_lt.mp hcandidate.1, ?_, hequal ▸ hvalue⟩
        rintro last rfl
        simpa using hcandidate.2

theorem verify_newer {secret code : Line} {current n last : ℤ} {lastStep : Option ℤ}
    (h : verify p secret code current lastStep = some (some n)) (hlast : lastStep = some last) :
    last < n := by
  unfold verify at h
  dsimp only at h
  split at h
  · exact (walk_spec h).2.2.1 last hlast
  · cases Option.some.inj h

/-- The entry that matched was unspent, and its hash verifies the code. -/
theorem matchCode_spec {supplied : Line} {entries : List Entry} {start : ℕ} {found : ℕ × String}
    (h : matchCode p supplied start entries = some found) :
    p.verifyPassword supplied found.2 = some true := by
  induction entries generalizing start with
  | nil => cases h
  | cons entry rest ih =>
    rw [matchCode] at h
    split at h
    · rename_i hmatch
      rw [← Option.some.inj h]
      simp only [Bool.and_eq_true, beq_iff_eq] at hmatch
      exact hmatch.2
    · exact ih h

theorem unspent_spec {row : Account} {m : Match} {entry : Entry} (h : row.unspent m = some entry) :
    row.enabled = true ∧ row.recoveryCodes[m.index]? = some entry ∧ entry.hash = m.hash ∧
      entry.used = false := by
  unfold Account.unspent at h
  split at h
  · rename_i henabled
    rcases Option.filter_eq_some_iff.mp h with ⟨hget, hmatch⟩
    simp only [Bool.and_eq_true, beq_iff_eq, Bool.not_eq_true'] at hmatch
    exact ⟨henabled, hget, hmatch⟩
  · cases h

end Verification

section Steps

variable {p : Primitives} {s u : State}

inductive Moves (p : Primitives) (s : State) : Action → State → Prop where
  | beginRead (tx : ℕ) (idle : s.row.enabled = false) :
      Moves p s (.beginRead tx) { s with begins := Function.update s.begins tx (some s.row) }
  | beginWrite {tx : ℕ} {seen : Account} (secret : Line) (begun : s.begins tx = some seen) :
      Moves p s (.beginWrite tx secret)
        { s with
          row := overlay s.row seen (beginSetup secret seen)
          begins := Function.update s.begins tx none }
  | confirmSetup {secret code : Line} {current n : ℤ} {hashes : List String}
      (idle : s.row.enabled = false) (pending : s.row.secret = some secret)
      (valid : verify p secret code current s.row.lastStep = some (some n)) :
      Moves p s (.confirmSetup code current hashes) (s.confirm n hashes)
  | verify {code : Line} {current n : ℤ} (enabled : s.row.enabled = true)
      (valid : SecondFactors.verify p (s.row.secret.getD []) code current s.row.lastStep =
        some (some n)) :
      Moves p s (.verify code current) (s.accept n)
  | recoveryRead {tx : ℕ} {code : Line} {m : Match}
      (valid : p.verifyPassword m.supplied m.hash = some true) :
      Moves p s (.recoveryRead tx code) (s.compared tx m)
  | recoverySpend {tx : ℕ} {m : Match} {entry : Entry} (matched : s.spends tx = some m)
      (unspent : s.row.unspent m = some entry) :
      Moves p s (.recoverySpend tx) (s.stamp tx m.index entry)
  | disable : Moves p s .disable { s with row := clear }
  | adminReset : Moves p s .adminReset { s with row := clear }

theorem moves_of_step {a : Action} (h : step p s a = some u) : Moves p s a u := by
  cases a with
  | beginRead tx =>
    simp only [step] at h
    split at h
    · cases h
    · rename_i hidle
      obtain rfl := Option.some.inj h
      exact .beginRead tx (Bool.eq_false_iff.mpr hidle)
  | beginWrite tx secret =>
    rcases Option.map_eq_some_iff.mp h with ⟨seen, hseen, rfl⟩
    exact .beginWrite secret hseen
  | confirmSetup code current hashes =>
    simp only [step, Option.bind_eq_bind, Option.bind_eq_some_iff, Option.guard_eq_some'] at h
    rcases h with ⟨_, hidle, secret, hsecret, _, _, found, hvalid, n, hfound, hu⟩
    obtain rfl := Option.some.inj hu
    subst hfound
    exact .confirmSetup hidle.1 hsecret hvalid
  | verify code current =>
    simp only [step, Option.bind_eq_bind, Option.bind_eq_some_iff, Option.guard_eq_some'] at h
    rcases h with ⟨_, henabled, found, hvalid, n, hfound, hu⟩
    obtain rfl := Option.some.inj hu
    subst hfound
    exact .verify henabled hvalid
  | recoveryRead tx code =>
    simp only [step, Option.bind_eq_bind, Option.bind_eq_some_iff, Option.guard_eq_some'] at h
    rcases h with ⟨_, _, found, hfound, hu⟩
    obtain rfl := Option.some.inj hu
    exact .recoveryRead (m := ⟨_, found.1, found.2⟩) (matchCode_spec hfound)
  | recoverySpend tx =>
    simp only [step, Option.bind_eq_bind, Option.bind_eq_some_iff] at h
    rcases h with ⟨m, hm, entry, hentry, hu⟩
    obtain rfl := Option.some.inj hu
    exact .recoverySpend hm hentry
  | disable =>
    obtain rfl := Option.some.inj h
    exact .disable
  | adminReset =>
    obtain rfl := Option.some.inj h
    exact .adminReset

end Steps

section Invariant

variable {p : Primitives} {s u : State} {a : Action}

/-- What has been accepted is spent on the row, as far as its enrolment is in force. -/
structure Inv (p : Primitives) (s : State) : Prop where
  idle : s.row.enabled = false → s.row.lastStep = none
  begun : ∀ tx seen, s.begins tx = some seen → seen.lastStep = none
  matched : ∀ tx m, s.spends tx = some m → p.verifyPassword m.supplied m.hash = some true
  issued : ∀ entry ∈ s.row.recoveryCodes, entry.enrolment = s.enrolment
  acceptedBy : ∀ e ∈ s.accepted, e.1 ≤ s.enrolment
  latest : s.row.enabled = true → ∀ n, (s.enrolment, n) ∈ s.accepted →
    ∃ last, s.row.lastStep = some last ∧ n ≤ last
  accepted : s.accepted.Nodup
  spentBy : ∀ e ∈ s.spent, e.1 ≤ s.enrolment
  stamped : s.row.enabled = true → ∀ i, (s.enrolment, i) ∈ s.spent →
    ∃ entry, s.row.recoveryCodes[i]? = some entry ∧ entry.used = true
  spent : s.spent.Nodup

theorem inv_start : Inv p start where
  idle _ := rfl
  begun := by simp [start]
  matched := by simp [start]
  issued := by simp [start, clear]
  acceptedBy := by simp [start]
  latest := by simp [start]
  accepted := List.nodup_nil
  spentBy := by simp [start]
  stamped := by simp [start]
  spent := List.nodup_nil

theorem overlay_beginSetup {current seen : Account} (h : seen.lastStep = none) (secret : Line) :
    overlay current seen (beginSetup secret seen) =
      { current with secret := column current.secret seen.secret (some secret) } := by
  unfold overlay beginSetup
  simp only [h, column_unchanged]

theorem inv_beginWrite (h : Inv p s) {tx : ℕ} {seen : Account} (secret : Line)
    (begun : s.begins tx = some seen) :
    Inv p { s with
      row := overlay s.row seen (beginSetup secret seen)
      begins := Function.update s.begins tx none } := by
  rw [overlay_beginSetup (h.begun tx seen begun)]
  refine { h with begun := ?_ }
  intro other row hrow
  rcases row_of_update hrow with ⟨_, hnone⟩ | ⟨_, hrow⟩
  · cases hnone
  · exact h.begun other row hrow

theorem inv_confirm (h : Inv p s) (n : ℤ) (hashes : List String) : Inv p (s.confirm n hashes) := by
  have hfresh : ∀ {β : Type} {events : List (ℕ × β)}, (∀ e ∈ events, e.1 ≤ s.enrolment) →
      ∀ x, (s.enrolment + 1, x) ∉ events := by
    intro β events hevents x hmem
    have := hevents _ hmem
    dsimp only at this
    omega
  refine ⟨nofun, h.begun, h.matched, ?_, ?_, ?_, ?_, ?_, ?_, h.spent⟩
  · intro entry hentry
    rcases List.mem_map.mp hentry with ⟨hash, _, rfl⟩
    rfl
  · intro e he
    rcases List.mem_cons.mp he with rfl | he
    · exact le_refl _
    · exact (h.acceptedBy e he).trans (Nat.le_succ _)
  · intro _ m hm
    rcases List.mem_cons.mp hm with heq | hm
    · exact ⟨n, rfl, (Prod.mk.inj heq).2.le⟩
    · exact absurd hm (hfresh h.acceptedBy m)
  · exact List.nodup_cons.mpr ⟨hfresh h.acceptedBy n, h.accepted⟩
  · exact fun e he => (h.spentBy e he).trans (Nat.le_succ _)
  · exact fun _ i hi => absurd hi (hfresh h.spentBy i)

theorem inv_accept (h : Inv p s) {n : ℤ} (enabled : s.row.enabled = true)
    (newer : ∀ last, s.row.lastStep = some last → last < n) : Inv p (s.accept n) := by
  have hbound : ∀ m, (s.enrolment, m) ∈ s.accepted → m < n := by
    intro m hm
    rcases h.latest enabled m hm with ⟨last, hlast, hle⟩
    exact hle.trans_lt (newer last hlast)
  refine { h with idle := ?_, acceptedBy := ?_, latest := ?_, accepted := ?_ }
  · exact fun hidle => absurd (hidle.symm.trans enabled) (by decide)
  · intro e he
    rcases List.mem_cons.mp he with rfl | he
    · exact le_refl _
    · exact h.acceptedBy e he
  · intro _ m hm
    rcases List.mem_cons.mp hm with heq | hm
    · exact ⟨n, rfl, (Prod.mk.inj heq).2.le⟩
    · exact ⟨n, rfl, (hbound m hm).le⟩
  · exact List.nodup_cons.mpr ⟨fun hm => lt_irrefl n (hbound n hm), h.accepted⟩

theorem inv_stamp (h : Inv p s) {tx : ℕ} {m : Match} {entry : Entry}
    (unspent : s.row.unspent m = some entry) : Inv p (s.stamp tx m.index entry) := by
  rcases unspent_spec unspent with ⟨enabled, hget, _, hunused⟩
  have hissued := h.issued entry (List.mem_of_getElem? hget)
  have hlt := (List.getElem?_eq_some_iff.mp hget).1
  refine { h with matched := ?_, issued := ?_, spentBy := ?_, stamped := ?_, spent := ?_ }
  · intro other m' hm'
    rcases row_of_update hm' with ⟨_, hnone⟩ | ⟨_, hm'⟩
    · cases hnone
    · exact h.matched other m' hm'
  · intro other hother
    rcases List.mem_or_eq_of_mem_set hother with hother | rfl
    · exact h.issued other hother
    · exact hissued
  · intro e he
    rcases List.mem_cons.mp he with rfl | he
    · exact hissued.le
    · exact h.spentBy e he
  · intro _ i hi
    change ∃ e, (s.row.recoveryCodes.set m.index _)[i]? = some e ∧ _
    by_cases heq : m.index = i
    · subst heq
      exact ⟨_, List.getElem?_set_self hlt, rfl⟩
    · rw [List.getElem?_set_ne heq]
      refine h.stamped enabled i ?_
      rcases List.mem_cons.mp hi with hnew | hold
      · exact absurd (Prod.mk.inj hnew).2.symm heq
      · exact hold
  · refine List.nodup_cons.mpr ⟨fun hmem => ?_, h.spent⟩
    rw [hissued] at hmem
    rcases h.stamped enabled m.index hmem with ⟨other, hother, hused⟩
    obtain rfl := Option.some.inj (hget.symm.trans hother)
    exact absurd (hunused.symm.trans hused) (by decide)

theorem inv_clear (h : Inv p s) : Inv p { s with row := clear } where
  idle _ := rfl
  begun := h.begun
  matched := h.matched
  issued := by simp [clear]
  acceptedBy := h.acceptedBy
  latest := nofun
  accepted := h.accepted
  spentBy := h.spentBy
  stamped := nofun
  spent := h.spent

theorem inv_step (h : Inv p s) (hstep : step p s a = some u) : Inv p u := by
  cases moves_of_step hstep with
  | beginRead tx idle =>
    refine { h with begun := ?_ }
    intro other row hrow
    rcases row_of_update hrow with ⟨_, heq⟩ | ⟨_, hrow⟩
    · rw [← Option.some.inj heq]
      exact h.idle idle
    · exact h.begun other row hrow
  | beginWrite secret begun => exact inv_beginWrite h secret begun
  | confirmSetup => exact inv_confirm h _ _
  | verify enabled valid => exact inv_accept h enabled fun last hlast => verify_newer valid hlast
  | recoveryRead valid =>
    refine { h with matched := ?_ }
    intro other m hm
    rcases row_of_update hm with ⟨_, heq⟩ | ⟨_, hm⟩
    · rw [← Option.some.inj heq]
      exact valid
    · exact h.matched other m hm
  | recoverySpend matched unspent => exact inv_stamp h unspent
  | disable => exact inv_clear h
  | adminReset => exact inv_clear h

theorem inv_of_runs {is : List Action} (h : Runs (ofStep (step p)) start is s) : Inv p s :=
  h.invariant (Inv p) (fun _ _ _ hs hstep => inv_step hs hstep) inv_start

theorem spendsCurrent_of_inv (h : Inv p s) : SpendsCurrent p s := by
  intro tx u hstep
  cases moves_of_step hstep with
  | recoverySpend matched unspent =>
    rename_i m entry
    rcases unspent_spec unspent with ⟨enabled, hget, hhash, hunused⟩
    have hissued := h.issued entry (List.mem_of_getElem? hget)
    refine ⟨enabled, m, entry, matched, hget, hunused, hissued, ?_, ?_⟩
    · rw [hhash]
      exact h.matched tx m matched
    · rw [← hissued]
      rfl

end Invariant

section Runs

variable {p : Primitives} {s u : State} {a : Action}

structure Later (s u : State) : Prop where
  enrolment : s.enrolment ≤ u.enrolment
  enabled : u.row.enabled = true → s.enrolment = u.enrolment → s.row.enabled = true
  back : NeverBack s u

theorem Later.of_row (henrolment : s.enrolment = u.enrolment)
    (henabled : s.row.enabled = u.row.enabled) (hstep : s.row.lastStep = u.row.lastStep) :
    Later s u :=
  ⟨henrolment.le, fun h _ => henabled.trans h,
    fun _ _ _ n hn => ⟨n, hstep.symm.trans hn, le_refl n⟩⟩

theorem Later.refl (s : State) : Later s s := .of_row rfl rfl rfl

theorem Later.trans {v : State} (h : Later s u) (h' : Later u v) : Later s v := by
  have hmid : s.enrolment = v.enrolment →
      s.enrolment = u.enrolment ∧ u.enrolment = v.enrolment := by
    have := h.enrolment
    have := h'.enrolment
    omega
  refine ⟨h.enrolment.trans h'.enrolment, ?_, ?_⟩
  · intro hv heq
    exact h.enabled (h'.enabled hv (hmid heq).2) (hmid heq).1
  · intro hs hv heq n hn
    have hu := h'.enabled hv (hmid heq).2
    rcases h.back hs hu (hmid heq).1 n hn with ⟨m, hm, hnm⟩
    rcases h'.back hu hv (hmid heq).2 m hm with ⟨k, hk, hmk⟩
    exact ⟨k, hk, hnm.trans hmk⟩

theorem later_step (h : Inv p s) (hstep : step p s a = some u) : Later s u := by
  cases moves_of_step hstep with
  | beginRead => exact .of_row rfl rfl rfl
  | beginWrite secret begun =>
    rw [overlay_beginSetup (h.begun _ _ begun)]
    exact .of_row rfl rfl rfl
  | confirmSetup idle =>
    refine ⟨Nat.le_succ _, fun _ heq => ?_, fun hs => ?_⟩
    · exact absurd heq (Nat.succ_ne_self _).symm
    · exact absurd (idle.symm.trans hs) (by decide)
  | verify enabled valid =>
    refine ⟨le_refl _, fun _ _ => enabled, fun _ _ _ m hm => ?_⟩
    exact ⟨_, rfl, (verify_newer valid hm).le⟩
  | recoveryRead => exact .of_row rfl rfl rfl
  | recoverySpend => exact .of_row rfl rfl rfl
  | disable => exact ⟨le_refl _, nofun, nofun⟩
  | adminReset => exact ⟨le_refl _, nofun, nofun⟩

theorem later_of_runs (h : Inv p s) {is : List Action} (hruns : Runs (ofStep (step p)) s is u) :
    Later s u := by
  refine (hruns.relates (fun s u => Inv p s → Inv p u ∧ Later s u) ?_ ?_ ?_ h).2
  · exact fun s hs => ⟨hs, .refl s⟩
  · intro s u v hsu huv hs
    rcases hsu hs with ⟨hu, hlater⟩
    exact ⟨(huv hu).1, hlater.trans (huv hu).2⟩
  · exact fun s a u hstep hs => ⟨inv_step hs hstep, later_step hs hstep⟩

theorem proven_step (h : Proven s) (hstep : guarded (ofStep (step p)) LandsUnenrolled s a u) :
    Proven u := by
  rcases hstep with ⟨hlands, hstep⟩
  cases moves_of_step hstep with
  | beginRead => exact h
  | beginWrite secret begun =>
    intro henabled
    rename_i tx seen
    have hidle : s.row.enabled = false := hlands rfl
    have hkept : (overlay s.row seen (beginSetup secret seen)).enabled = s.row.enabled :=
      column_unchanged s.row.enabled seen.enabled
    exact absurd (hidle.symm.trans (hkept.symm.trans henabled)) (by decide)
  | confirmSetup => exact fun _ => rfl
  | verify => exact h
  | recoveryRead => exact h
  | recoverySpend => exact h
  | disable => exact nofun
  | adminReset => exact nofun

/-- Steps and recovery codes are spent once, and the secret in force is a proven one where no
setup has written over an enrolment. -/
theorem factors_spent_once {is : List Action} (h : Runs (ofStep (step p)) start is s) :
    s.accepted.Nodup ∧ s.spent.Nodup ∧ SpendsCurrent p s ∧
      (∀ js u, Runs (ofStep (step p)) s js u → NeverBack s u) ∧
      (Runs (guarded (ofStep (step p)) LandsUnenrolled) start is s → Proven s) :=
  have hinv := inv_of_runs h
  ⟨hinv.accepted, hinv.spent, spendsCurrent_of_inv hinv,
    fun _ _ hruns => (later_of_runs hinv hruns).back,
    fun hguarded => hguarded.invariant Proven (fun _ _ _ hs hstep => proven_step hs hstep) nofun⟩

def testSecret : Line := "GEZDGNBVGY3TQOJQGEZDGNBVGY3TQOJQ".toList

def testValues : List String := ["755224", "287082", "359152", "969429", "338314", "254676"]

def testPrimitives : Primitives where
  hotp secret step := if secret = testSecret then testValues[step]?.map String.toList else none
  isDigit c := c.isDigit
  lower := List.map Char.toLower
  verifyPassword _ _ := none

def hashes : List String := List.replicate recoveryCodeCount "$2b$12$"

def enrolled : List Action :=
  [.beginRead 1, .beginWrite 1 testSecret, .confirmSetup "287 082".toList 1 hashes,
    .verify "359152".toList 2]

def enrolledState : State :=
  runFrom (guardedStep (step testPrimitives) LandsUnenrolled) start enrolled

theorem guarded_enrolled :
    Runs (guarded (ofStep (step testPrimitives)) LandsUnenrolled) start enrolled enrolledState :=
  (Runs.runFrom _ (by decide +kernel)).of_guardedStep

theorem factors_spent_once_enrolled :
    enrolledState.accepted.Nodup ∧ enrolledState.spent.Nodup ∧
      SpendsCurrent testPrimitives enrolledState ∧
      (∀ js u, Runs (ofStep (step testPrimitives)) enrolledState js u →
        NeverBack enrolledState u) ∧ Proven enrolledState := by
  have hall := factors_spent_once guarded_enrolled.of_guarded
  exact ⟨hall.1, hall.2.1, hall.2.2.1, hall.2.2.2.1, hall.2.2.2.2 guarded_enrolled⟩

/-- A second setup has read the account before the first is confirmed, and writes after it. -/
def swapped : List Action :=
  [.beginRead 1, .beginWrite 1 testSecret, .beginRead 2, .confirmSetup "287082".toList 1 hashes,
    .beginWrite 2 "JBSWY3DPEHPK3PXP".toList]

def swappedState : State := runFrom (step testPrimitives) start swapped

theorem not_proven_swapped :
    Runs (ofStep (step testPrimitives)) start swapped swappedState ∧ ¬ Proven swappedState := by
  refine ⟨Runs.runFrom _ (by decide +kernel), fun h => ?_⟩
  have hsecret : swappedState.row.secret = swappedState.confirmed := h (by decide +kernel)
  exact absurd hsecret (by decide +kernel)

end Runs

end Shapoclyack.SecondFactors
