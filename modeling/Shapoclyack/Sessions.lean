import Mathlib.Data.Int.Notation
import Mathlib.Tactic.Common
import Shapoclyack.Library.Lookups
import Shapoclyack.Library.Runs

set_option autoImplicit false

namespace Shapoclyack.Sessions

open Library

section Model

inductive EndReason where
  | logout
  | reuse
  | idle
  | expired
  | revoked
  | tenantClosed
deriving DecidableEq, Repr

/-- A row of `session_families`; `readAt` counts the revocations before its generation was read. -/
structure Family where
  version : ℕ
  expiresAt : ℤ
  lastUsedAt : ℤ
  ended : Option EndReason
  readAt : ℕ
deriving DecidableEq

def Family.live (family : Family) : Bool := family.ended.isNone

/-- A row of `refresh_tokens`. -/
structure Refresh where
  family : ℕ
  used : Bool
deriving DecidableEq

structure Access where
  version : ℕ
  jti : ℕ
  session : Option ℕ
  readAt : ℕ
deriving DecidableEq

/-- What is committed of one account, its families and its tokens. -/
structure Database where
  version : ℕ
  disabled : Bool
  families : ℕ → Option Family
  tokens : ℕ → Option Refresh
  denied : List ℕ

/-- `check_session`, whose three lookups each read what is committed by then. -/
def checkSession (account denylist sessions : Database) (token : Access) : Bool :=
  !account.disabled && account.version == token.version && !denylist.denied.contains token.jti &&
    token.session.all fun family => (sessions.families family).any Family.live

/-- What `rotate` decides about a refresh token of a live family. -/
inductive Verdict where
  | reuse
  | expired
  | idle
  | revoked
  | exchanged
deriving DecidableEq, Repr

def verdict (idle now : ℤ) (token : Refresh) (family : Family) (account : Database) : Verdict :=
  if token.used then .reuse
  else if family.expiresAt ≤ now then .expired
  else if idle ≠ 0 ∧ idle < now - family.lastUsedAt then .idle
  else if account.disabled ∨ account.version ≠ family.version then .revoked
  else .exchanged

def Verdict.reason : Verdict → Option EndReason
  | .reuse => some .reuse
  | .expired => some .expired
  | .idle => some .idle
  | .revoked => some .revoked
  | .exchanged => none

/-- A revocation under way: the generation it read, and the families its update found live. -/
structure Revocation where
  read : ℕ
  reason : EndReason
  ends : Option (ℕ → Bool)

structure Generation where
  version : ℕ
  readAt : ℕ
deriving DecidableEq

/-- A rotation that holds the lock of its family: what it decided, once it has read the account. -/
structure Rotation where
  token : ℕ
  now : ℤ
  decided : Option (Verdict × Generation)

structure State where
  db : Database
  accountLock : Option ℕ
  revocations : ℕ → Option Revocation
  openings : ℕ → Option Generation
  -- a rotation in flight is found under the family whose row it has locked
  rotations : ℕ → Option Rotation
  access : List Access
  known : List ℕ
  committed : ℕ

def State.generation (s : State) : Generation := ⟨s.db.version, s.committed⟩

def State.liveFamily (s : State) (family : ℕ) : Bool := (s.db.families family).any Family.live

inductive Action where
  | revokeRead (tx : ℕ) (reason : EndReason)
  | revokeWrite (tx : ℕ)
  | revokeCommit (tx : ℕ)
  | revokeAbort (tx : ℕ)
  | openRead (tx : ℕ)
  | openCommit (tx family token jti : ℕ) (now expiresAt : ℤ)
  | mint (jti : ℕ) (session : Option ℕ)
  | rotateLock (family token : ℕ) (now : ℤ)
  | rotateRead (family : ℕ)
  | rotateCommit (family successor jti : ℕ)
  | rotateAbort (family : ℕ)
  | endSession (family : ℕ) (reason : EndReason)
  | revokeToken (jti : ℕ)
  | sweep (family : ℕ) (now : ℤ)
  | setDisabled (disabled : Bool)

def Family.end (reason : EndReason) (family : Family) : Family :=
  if family.live then { family with ended := some reason } else family

def Family.touch (now : ℤ) (family : Family) : Family := { family with lastUsedAt := now }

/-- The update of `revoke_all_in_session`, over the families its statement found. -/
def endAll (ends : ℕ → Bool) (reason : EndReason) (families : ℕ → Option Family) :
    ℕ → Option Family :=
  fun family => if ends family then (families family).map (Family.end reason) else families family

def endFamily (family : ℕ) (reason : EndReason) (families : ℕ → Option Family) :
    ℕ → Option Family :=
  Function.update families family ((families family).map (Family.end reason))

def State.withRotation (s : State) (family : ℕ) (r : Option Rotation) : State :=
  { s with rotations := Function.update s.rotations family r }

def State.commitRevocation (s : State) (tx : ℕ) (r : Revocation) (ends : ℕ → Bool) : State :=
  { s with
    db := { s.db with version := r.read + 1, families := endAll ends r.reason s.db.families }
    accountLock := none
    revocations := Function.update s.revocations tx none
    committed := s.committed + 1 }

def State.commitOpening (s : State) (tx family token jti : ℕ) (now expiresAt : ℤ)
    (g : Generation) : State :=
  { s with
    db := { s.db with
      families := Function.update s.db.families family
        (some ⟨g.version, expiresAt, now, none, g.readAt⟩)
      tokens := Function.update s.db.tokens token (some ⟨family, false⟩) }
    openings := Function.update s.openings tx none
    access := ⟨g.version, jti, some family, g.readAt⟩ :: s.access
    known := family :: s.known }

def State.commitExchange (s : State) (family successor jti : ℕ) (r : Rotation) (g : Generation) :
    State :=
  { s with
    db := { s.db with
      families := Function.update s.db.families family
        ((s.db.families family).map (Family.touch r.now))
      tokens := Function.update (Function.update s.db.tokens r.token (some ⟨family, true⟩))
        successor (some ⟨family, false⟩) }
    rotations := Function.update s.rotations family none
    access := ⟨g.version, jti, some family, g.readAt⟩ :: s.access }

def State.commitRefusal (s : State) (family : ℕ) (reason : EndReason) : State :=
  { s with
    db := { s.db with families := endFamily family reason s.db.families }
    rotations := Function.update s.rotations family none }

/-- The statements of the transactions, each on what is committed when it runs. -/
inductive Step (idle : ℤ) : State → Action → State → Prop where
  | revokeRead {s : State} {tx : ℕ} (reason : EndReason) (idle_tx : s.revocations tx = none) :
      Step idle s (.revokeRead tx reason)
        { s with revocations :=
            Function.update s.revocations tx (some ⟨s.db.version, reason, none⟩) }
  | revokeWrite {s : State} {tx : ℕ} {r : Revocation} (running : s.revocations tx = some r)
      (unwritten : r.ends = none) (unlocked : s.accountLock = none) :
      Step idle s (.revokeWrite tx)
        { s with
          accountLock := some tx
          revocations := Function.update s.revocations tx
            (some { r with ends := some s.liveFamily }) }
  | revokeCommit {s : State} {tx : ℕ} {r : Revocation} {ends : ℕ → Bool}
      (running : s.revocations tx = some r) (written : r.ends = some ends)
      -- the update waits for the rows that a rotation has locked
      (unlocked : ∀ family, ends family = true → s.liveFamily family = true →
        s.rotations family = none) :
      Step idle s (.revokeCommit tx) (s.commitRevocation tx r ends)
  | revokeAbort {s : State} {tx : ℕ} {r : Revocation} (running : s.revocations tx = some r) :
      Step idle s (.revokeAbort tx)
        { s with
          accountLock := if s.accountLock = some tx then none else s.accountLock
          revocations := Function.update s.revocations tx none }
  | openRead {s : State} {tx : ℕ} (idle_tx : s.openings tx = none) :
      Step idle s (.openRead tx)
        { s with openings := Function.update s.openings tx (some s.generation) }
  | openCommit {s : State} {tx family token : ℕ} {g : Generation} (jti : ℕ) (now expiresAt : ℤ)
      (running : s.openings tx = some g) (fresh : family ∉ s.known)
      (fresh_token : s.db.tokens token = none) :
      Step idle s (.openCommit tx family token jti now expiresAt)
        (s.commitOpening tx family token jti now expiresAt g)
  | mint {s : State} (jti : ℕ) (session : Option ℕ) :
      Step idle s (.mint jti session)
        { s with access := ⟨s.db.version, jti, session, s.committed⟩ :: s.access }
  | rotateLock {s : State} {family token : ℕ} {row : Refresh} (now : ℤ)
      (found : s.db.tokens token = some row) (owner : row.family = family)
      (live : s.liveFamily family = true) (unlocked : s.rotations family = none) :
      Step idle s (.rotateLock family token now)
        (s.withRotation family (some ⟨token, now, none⟩))
  | rotateRead {s : State} {family : ℕ} {r : Rotation} {token : Refresh} {row : Family}
      (running : s.rotations family = some r) (unread : r.decided = none)
      (found : s.db.tokens r.token = some token) (owner : s.db.families family = some row) :
      Step idle s (.rotateRead family)
        (s.withRotation family
          (some { r with decided := some (verdict idle r.now token row s.db, s.generation) }))
  | exchange {s : State} {family successor : ℕ} {r : Rotation} {g : Generation} (jti : ℕ)
      (running : s.rotations family = some r) (decided : r.decided = some (.exchanged, g))
      (fresh : s.db.tokens successor = none) :
      Step idle s (.rotateCommit family successor jti)
        (s.commitExchange family successor jti r g)
  | refuse {s : State} {family : ℕ} {r : Rotation} {v : Verdict} {g : Generation}
      {reason : EndReason} (successor jti : ℕ) (running : s.rotations family = some r)
      (decided : r.decided = some (v, g)) (refused : v.reason = some reason) :
      Step idle s (.rotateCommit family successor jti) (s.commitRefusal family reason)
  | rotateAbort {s : State} {family : ℕ} {r : Rotation} (running : s.rotations family = some r) :
      Step idle s (.rotateAbort family) (s.withRotation family none)
  | endSession {s : State} {family : ℕ} (reason : EndReason)
      (unlocked : s.rotations family = none) :
      Step idle s (.endSession family reason)
        { s with db := { s.db with families := endFamily family reason s.db.families } }
  | revokeToken {s : State} (jti : ℕ) :
      Step idle s (.revokeToken jti)
        { s with db := { s.db with denied := jti :: s.db.denied } }
  | sweep {s : State} {family : ℕ} {row : Family} {now : ℤ}
      (found : s.db.families family = some row) (expired : row.expiresAt < now)
      (unlocked : s.rotations family = none) :
      Step idle s (.sweep family now)
        { s with db := { s.db with
            families := Function.update s.db.families family none
            tokens := fun token => (s.db.tokens token).filter fun row => row.family ≠ family } }
  | setDisabled {s : State} (disabled : Bool) :
      Step idle s (.setDisabled disabled) { s with db := { s.db with disabled := disabled } }

def start (version : ℕ) (disabled : Bool) : State where
  db := ⟨version, disabled, fun _ => none, fun _ => none, []⟩
  accountLock := none
  revocations _ := none
  openings _ := none
  rotations _ := none
  access := []
  known := []
  committed := 0

end Model

section Purpose

/-- No token whose generation was read before the last revocation is accepted. -/
structure Final (idle : ℤ) (s : State) : Prop where
  access : ∀ token ∈ s.access, token.readAt < s.committed → ∀ denylist sessions,
    checkSession s.db denylist sessions token = false
  refresh : ∀ family row, s.db.families family = some row → row.readAt < s.committed →
    ∀ token now, verdict idle now token row s.db ≠ .exchanged

def OneUnspent (s : State) : Prop :=
  ∀ family t u, s.db.tokens t = some ⟨family, false⟩ → s.db.tokens u = some ⟨family, false⟩ →
    t = u

def StaysEnded (s u : State) : Prop :=
  ∀ family row reason, s.db.families family = some row → row.ended = some reason →
    u.db.families family = none ∨
      ∃ later, u.db.families family = some later ∧ later.ended = some reason

def SpentEnds (idle : ℤ) (s : State) : Prop :=
  ∀ family r successor jti u token, s.rotations family = some r →
    s.db.tokens r.token = some token → token.used = true →
    Step idle s (.rotateCommit family successor jti) u →
      ∃ row, u.db.families family = some row ∧ row.ended = some .reuse

/-- The revocation that commits replaces the generation it read. -/
def ReadLast (s : State) : Action → Prop
  | .revokeCommit tx => ∀ r, s.revocations tx = some r → r.read = s.db.version
  | _ => True

end Purpose

section Families

variable {idle : ℤ} {s u : State} {a : Action}

theorem end_ended {row : Family} {reason first : EndReason} (h : row.ended = some first) :
    (row.end reason).ended = some first := by
  unfold Family.end Family.live
  rw [h]
  exact h

theorem end_of_live {row : Family} {reason : EndReason} (h : row.live = true) :
    (row.end reason).ended = some reason := by
  unfold Family.end
  rw [if_pos h]

structure SameFamily (row later : Family) : Prop where
  version : later.version = row.version
  readAt : later.readAt = row.readAt
  ended : ∀ reason, row.ended = some reason → later.ended = some reason

theorem SameFamily.refl (row : Family) : SameFamily row row := ⟨rfl, rfl, fun _ h => h⟩

theorem sameFamily_end (row : Family) (reason : EndReason) : SameFamily row (row.end reason) := by
  refine ⟨?_, ?_, fun _ h => end_ended h⟩
  all_goals unfold Family.end
  all_goals split
  all_goals rfl

theorem sameFamily_touch (row : Family) (now : ℤ) : SameFamily row (row.touch now) :=
  ⟨rfl, rfl, fun _ h => h⟩

/-- What a step may do to the family of a known sign-in. -/
def FamilyAfter (before after : Option Family) : Prop :=
  after = none ∨ ∃ row later, before = some row ∧ after = some later ∧ SameFamily row later

theorem familyAfter_self (before : Option Family) : FamilyAfter before before := by
  cases before with
  | none => exact .inl rfl
  | some row => exact .inr ⟨row, row, rfl, rfl, .refl row⟩

theorem familyAfter_map {f : Family → Family} (hf : ∀ row, SameFamily row (f row))
    (before : Option Family) : FamilyAfter before (before.map f) := by
  cases before with
  | none => exact .inl rfl
  | some row => exact .inr ⟨row, f row, rfl, rfl, hf row⟩

theorem familyAfter_update {families : ℕ → Option Family} {family : ℕ} {row : Option Family}
    (h : FamilyAfter (families family) row) (other : ℕ) :
    FamilyAfter (families other) (Function.update families family row other) := by
  by_cases heq : other = family
  · rw [heq, Function.update_self]
    exact h
  · rw [Function.update_of_ne heq]
    exact familyAfter_self _

theorem step_families (h : Step idle s a u) (family : ℕ) :
    FamilyAfter (s.db.families family) (u.db.families family) ∨
      (family ∉ s.known ∧ ∃ tx g, s.openings tx = some g ∧ ∃ now expiresAt,
        u.db.families family = some ⟨g.version, expiresAt, now, none, g.readAt⟩) := by
  cases h with
  | revokeCommit running written unlocked =>
    rename_i tx r ends
    refine .inl ?_
    change FamilyAfter _ (endAll ends r.reason s.db.families family)
    unfold endAll
    split
    · exact familyAfter_map (fun row => sameFamily_end row _) _
    · exact familyAfter_self _
  | openCommit jti now expiresAt running fresh fresh_token =>
    rename_i tx opened token g
    change FamilyAfter _ (Function.update s.db.families opened _ family) ∨ _ ∧ ∃ tx g, _ ∧
      ∃ now expiresAt, Function.update s.db.families opened _ family = _
    by_cases heq : family = opened
    · subst heq
      exact .inr ⟨fresh, tx, g, running, now, expiresAt, Function.update_self _ _ _⟩
    · rw [Function.update_of_ne heq]
      exact .inl (familyAfter_self _)
  | exchange jti running decided fresh =>
    exact .inl (familyAfter_update (familyAfter_map (fun row => sameFamily_touch row _) _) family)
  | refuse successor jti running decided refused =>
    exact .inl (familyAfter_update (familyAfter_map (fun row => sameFamily_end row _) _) family)
  | endSession reason unlocked =>
    exact .inl (familyAfter_update (familyAfter_map (fun row => sameFamily_end row _) _) family)
  | sweep found expired unlocked => exact .inl (familyAfter_update (.inl rfl) family)
  | revokeRead => exact .inl (familyAfter_self _)
  | revokeWrite => exact .inl (familyAfter_self _)
  | revokeAbort => exact .inl (familyAfter_self _)
  | openRead => exact .inl (familyAfter_self _)
  | mint => exact .inl (familyAfter_self _)
  | rotateLock => exact .inl (familyAfter_self _)
  | rotateRead => exact .inl (familyAfter_self _)
  | rotateAbort => exact .inl (familyAfter_self _)
  | revokeToken => exact .inl (familyAfter_self _)
  | setDisabled => exact .inl (familyAfter_self _)

theorem step_family (h : Step idle s a u) {family : ℕ} (hknown : family ∈ s.known) :
    FamilyAfter (s.db.families family) (u.db.families family) :=
  (step_families h family).resolve_right fun hopened => hopened.1 hknown

theorem step_known (h : Step idle s a u) {family : ℕ} (hknown : family ∈ s.known) :
    family ∈ u.known := by
  cases h with
  | openCommit => exact List.mem_cons_of_mem _ hknown
  | _ => exact hknown

def FamiliesKept (s u : State) : Prop :=
  ∀ family ∈ s.known, family ∈ u.known ∧
    FamilyAfter (s.db.families family) (u.db.families family)

theorem FamilyAfter.trans {first second third : Option Family} (h : FamilyAfter first second)
    (h' : FamilyAfter second third) : FamilyAfter first third := by
  rcases h' with h' | ⟨row, later, hrow, hlater, hsame⟩
  · exact .inl h'
  · rcases h with h | ⟨row', later', hrow', hlater', hsame'⟩
    · rw [h] at hrow
      cases hrow
    · obtain rfl := Option.some.inj (hlater'.symm.trans hrow)
      exact .inr ⟨row', later, hrow', hlater, hsame.version.trans hsame'.version,
        hsame.readAt.trans hsame'.readAt, fun r hr => hsame.ended r (hsame'.ended r hr)⟩

theorem familiesKept_of_runs {is : List Action} (h : Runs (Step idle) s is u) :
    FamiliesKept s u := by
  refine h.relates FamiliesKept ?_ ?_ ?_
  · exact fun s family hknown => ⟨hknown, familyAfter_self _⟩
  · intro s u v hsu huv family hknown
    rcases hsu family hknown with ⟨hmid, hfirst⟩
    exact ⟨(huv family hmid).1, hfirst.trans (huv family hmid).2⟩
  · exact fun s a u hstep family hknown => ⟨step_known hstep hknown, step_family hstep hknown⟩

end Families

section Invariant

variable {idle : ℤ} {s u : State} {a : Action}

/-- What holds of families, tokens and rotations in every state. -/
structure Inv (s : State) : Prop where
  owned : ∀ t family used, s.db.tokens t = some ⟨family, used⟩ →
    ∃ row, s.db.families family = some row
  known : ∀ family row, s.db.families family = some row → family ∈ s.known
  locked : ∀ family r, s.rotations family = some r → s.liveFamily family = true ∧
    ∃ used, s.db.tokens r.token = some ⟨family, used⟩ ∧
      ∀ v g, r.decided = some (v, g) → (used = true ↔ v = .reuse)
  unspent : OneUnspent s

theorem verdict_eq_reuse {now : ℤ} {token : Refresh} {row : Family} {account : Database} :
    verdict idle now token row account = .reuse ↔ token.used = true := by
  unfold verdict
  cases token.used with
  | true => simp
  | false =>
    simp only [Bool.false_eq_true, if_false, iff_false]
    split
    · simp
    · split
      · simp
      · split
        · simp
        · simp

theorem inv_start (version : ℕ) (disabled : Bool) : Inv (start version disabled) where
  owned := by simp [start]
  known := by simp [start]
  locked := by simp [start]
  unspent := by simp [start, OneUnspent]

theorem Inv.of_families (h : Inv s) {families : ℕ → Option Family}
    (hsame : ∀ family, (families family).isSome = (s.db.families family).isSome)
    (hlive : ∀ family r, s.rotations family = some r → families family = s.db.families family)
    {next : State} (hdb : next.db.families = families) (htokens : next.db.tokens = s.db.tokens)
    (hrotations : ∀ family r, next.rotations family = some r → s.rotations family = some r)
    (hknown : next.known = s.known) : Inv next := by
  refine ⟨?_, ?_, ?_, ?_⟩
  · intro t family used ht
    rw [htokens] at ht
    rcases h.owned t family used ht with ⟨row, hrow⟩
    rw [hdb, ← Option.isSome_iff_exists, hsame, hrow]
    rfl
  · intro family row hrow
    rw [hdb] at hrow
    have hsome : (s.db.families family).isSome = true := by
      rw [← hsame, hrow]
      rfl
    rcases Option.isSome_iff_exists.mp hsome with ⟨before, hbefore⟩
    rw [hknown]
    exact h.known family before hbefore
  · intro family r hr
    have hheld := hrotations family r hr
    rcases h.locked family r hheld with ⟨hfamily, hrest⟩
    unfold State.liveFamily at hfamily ⊢
    rw [hdb, hlive family r hheld, htokens]
    exact ⟨hfamily, hrest⟩
  · intro family t u ht hu
    rw [htokens] at ht hu
    exact h.unspent family t u ht hu

theorem endAll_isSome (ends : ℕ → Bool) (reason : EndReason) (families : ℕ → Option Family)
    (family : ℕ) : (endAll ends reason families family).isSome = (families family).isSome := by
  unfold endAll
  split
  · exact Option.isSome_map
  · rfl

theorem endFamily_isSome (ended : ℕ) (reason : EndReason) (families : ℕ → Option Family)
    (family : ℕ) : (endFamily ended reason families family).isSome = (families family).isSome := by
  unfold endFamily
  by_cases heq : family = ended
  · rw [heq, Function.update_self, Option.isSome_map]
  · rw [Function.update_of_ne heq]

theorem inv_revokeCommit (h : Inv s) {tx : ℕ} {r : Revocation} {ends : ℕ → Bool}
    (unlocked : ∀ family, ends family = true → s.liveFamily family = true →
      s.rotations family = none) : Inv (s.commitRevocation tx r ends) := by
  refine h.of_families (endAll_isSome ends r.reason s.db.families) ?_ rfl rfl
    (fun _ _ h => h) rfl
  intro family held hheld
  have hlive := (h.locked family held hheld).1
  have hout : ends family ≠ true := by
    intro hends
    rw [unlocked family hends hlive] at hheld
    cases hheld
  unfold endAll
  rw [if_neg hout]

theorem inv_endSession (h : Inv s) {family : ℕ} (reason : EndReason)
    (unlocked : s.rotations family = none) :
    Inv { s with db := { s.db with families := endFamily family reason s.db.families } } := by
  refine h.of_families (endFamily_isSome family reason s.db.families) ?_ rfl rfl
    (fun _ _ h => h) rfl
  intro other held hheld
  have hne : other ≠ family := by
    rintro rfl
    rw [unlocked] at hheld
    cases hheld
  unfold endFamily
  rw [Function.update_of_ne hne]

theorem inv_unlock (h : Inv s) (family : ℕ) : Inv (s.withRotation family none) := by
  refine h.of_families (fun _ => rfl) (fun _ _ _ => rfl) rfl rfl ?_ rfl
  intro other r hr
  by_cases heq : other = family
  · rw [heq] at hr
    simp [State.withRotation] at hr
  · simpa [State.withRotation, heq] using hr

theorem inv_refuse (h : Inv s) (family : ℕ) (reason : EndReason) :
    Inv (s.commitRefusal family reason) :=
  inv_endSession (inv_unlock h family) reason (Function.update_self _ _ _)

theorem inv_sweep (h : Inv s) {family : ℕ} (unlocked : s.rotations family = none) :
    Inv { s with db := { s.db with
      families := Function.update s.db.families family none
      tokens := fun token => (s.db.tokens token).filter fun row => row.family ≠ family } } := by
  have htoken : ∀ {t : ℕ} {row : Refresh},
      (s.db.tokens t).filter (fun row => row.family ≠ family) = some row ↔
        s.db.tokens t = some row ∧ row.family ≠ family := by
    intro t row
    rw [Option.filter_eq_some_iff]
    simp
  refine ⟨?_, ?_, ?_, ?_⟩
  · intro t other used ht
    rcases htoken.mp ht with ⟨ht, hne⟩
    rcases h.owned t other used ht with ⟨row, hrow⟩
    exact ⟨row, (Function.update_of_ne hne _ _).trans hrow⟩
  · intro other row hrow
    by_cases heq : other = family
    · rw [heq] at hrow
      simp at hrow
    · exact h.known other row ((Function.update_of_ne heq _ _).symm.trans hrow)
  · intro other r hr
    have hne : other ≠ family := by
      rintro rfl
      exact absurd (unlocked.symm.trans hr) (by simp)
    rcases h.locked other r hr with ⟨hlive, used, ht, hverdict⟩
    refine ⟨?_, used, htoken.mpr ⟨ht, hne⟩, hverdict⟩
    change Option.any Family.live (Function.update s.db.families family none other) = true
    rw [Function.update_of_ne hne]
    exact hlive
  · intro other t u ht hu
    exact h.unspent other t u (htoken.mp ht).1 (htoken.mp hu).1

theorem known_of_live (h : Inv s) {family : ℕ} (hlive : s.liveFamily family = true) :
    family ∈ s.known := by
  rcases (Option.any_eq_true _ _).mp hlive with ⟨row, hrow, _⟩
  exact h.known family row hrow

theorem inv_openCommit (h : Inv s) {tx family token : ℕ} (jti : ℕ) (now expiresAt : ℤ)
    (g : Generation) (fresh : family ∉ s.known) (fresh_token : s.db.tokens token = none) :
    Inv (s.commitOpening tx family token jti now expiresAt g) := by
  have hunknown : ∀ t used, s.db.tokens t ≠ some ⟨family, used⟩ := by
    intro t used ht
    rcases h.owned t family used ht with ⟨row, hrow⟩
    exact fresh (h.known family row hrow)
  refine ⟨?_, ?_, ?_, ?_⟩
  · intro t other used ht
    change ∃ row, Function.update s.db.families family _ other = some row
    rcases row_of_update ht with ⟨_, hrow⟩ | ⟨_, ht⟩
    · obtain rfl := congrArg Refresh.family (Option.some.inj hrow)
      exact ⟨_, Function.update_self _ _ _⟩
    · have hne : other ≠ family := fun heq => hunknown t used (heq ▸ ht)
      rw [Function.update_of_ne hne]
      exact h.owned t other used ht
  · intro other row hrow
    rcases row_of_update hrow with ⟨rfl, _⟩ | ⟨_, hrow⟩
    · exact List.mem_cons_self
    · exact List.mem_cons_of_mem _ (h.known other row hrow)
  · intro other r hr
    rcases h.locked other r hr with ⟨hlive, used, ht, hverdict⟩
    have hne : other ≠ family := fun heq => fresh (heq ▸ known_of_live h hlive)
    have hne_token : r.token ≠ token := by
      intro heq
      rw [heq, fresh_token] at ht
      cases ht
    refine ⟨?_, used, (Function.update_of_ne hne_token _ _).trans ht, hverdict⟩
    change Option.any Family.live (Function.update s.db.families family _ other) = true
    rw [Function.update_of_ne hne]
    exact hlive
  · intro other t u ht hu
    rcases row_of_update ht with ⟨rfl, hrow⟩ | ⟨_, ht⟩
    · obtain rfl := congrArg Refresh.family (Option.some.inj hrow)
      rcases row_of_update hu with ⟨rfl, _⟩ | ⟨_, hu⟩
      · rfl
      · exact absurd hu (hunknown u false)
    · rcases row_of_update hu with ⟨_, hrow⟩ | ⟨_, hu⟩
      · obtain rfl := congrArg Refresh.family (Option.some.inj hrow)
        exact absurd ht (hunknown t false)
      · exact h.unspent other t u ht hu

theorem inv_exchange (h : Inv s) {family successor : ℕ} {r : Rotation} {g : Generation} (jti : ℕ)
    (running : s.rotations family = some r) (decided : r.decided = some (.exchanged, g))
    (fresh : s.db.tokens successor = none) :
    Inv (s.commitExchange family successor jti r g) := by
  rcases h.locked family r running with ⟨_, used, hspent, hverdict⟩
  -- the token that was exchanged was the family's unspent one
  obtain rfl : used = false := by
    cases used with
    | false => rfl
    | true => exact absurd ((hverdict _ _ decided).mp rfl) (by simp)
  have hfamily : ∀ t row, Function.update (Function.update s.db.tokens r.token
      (some ⟨family, true⟩)) successor (some ⟨family, false⟩) t = some row →
      (t = successor ∧ row = ⟨family, false⟩) ∨ (t = r.token ∧ row = ⟨family, true⟩) ∨
        (t ≠ r.token ∧ s.db.tokens t = some row) := by
    intro t row ht
    rcases row_of_update ht with ⟨heq, hrow⟩ | ⟨_, ht⟩
    · exact .inl ⟨heq, (Option.some.inj hrow).symm⟩
    · rcases row_of_update ht with ⟨heq, hrow⟩ | ⟨hne, ht⟩
      · exact .inr (.inl ⟨heq, (Option.some.inj hrow).symm⟩)
      · exact .inr (.inr ⟨hne, ht⟩)
  have hkept : ∀ other row, s.db.families other = some row → ∃ later,
      Function.update s.db.families family ((s.db.families family).map (Family.touch r.now))
        other = some later := by
    intro other row hrow
    by_cases heq : other = family
    · rw [heq, Function.update_self, ← heq, hrow]
      exact ⟨_, rfl⟩
    · exact ⟨row, (Function.update_of_ne heq _ _).trans hrow⟩
  refine ⟨?_, ?_, ?_, ?_⟩
  · intro t other flag ht
    rcases h.owned r.token family false hspent with ⟨row, hrow⟩
    rcases hfamily t _ ht with ⟨_, heq⟩ | ⟨_, heq⟩ | ⟨_, ht⟩
    · obtain rfl := congrArg Refresh.family heq
      exact hkept other row hrow
    · obtain rfl := congrArg Refresh.family heq
      exact hkept other row hrow
    · rcases h.owned t other flag ht with ⟨row, hrow⟩
      exact hkept other row hrow
  · intro other row hrow
    rcases row_of_update hrow with ⟨rfl, hrow⟩ | ⟨_, hrow⟩
    · rcases Option.map_eq_some_iff.mp hrow with ⟨before, hbefore, _⟩
      exact h.known other before hbefore
    · exact h.known other row hrow
  · intro other held hheld
    rcases row_of_update hheld with ⟨_, hnone⟩ | ⟨hne, hheld⟩
    · cases hnone
    · rcases h.locked other held hheld with ⟨hlive, flag, ht, hdecided⟩
      have hne_spent : held.token ≠ r.token := by
        intro heq
        rw [heq, hspent] at ht
        exact hne (congrArg Refresh.family (Option.some.inj ht)).symm
      have hne_successor : held.token ≠ successor := by
        intro heq
        rw [heq, fresh] at ht
        cases ht
      refine ⟨?_, flag, ?_, hdecided⟩
      · change Option.any Family.live (Function.update s.db.families family _ other) = true
        rw [Function.update_of_ne hne]
        exact hlive
      · change Function.update (Function.update s.db.tokens r.token _) successor _ held.token = _
        rw [Function.update_of_ne hne_successor, Function.update_of_ne hne_spent]
        exact ht
  · -- an unspent token of the family is the one that was exchanged, or its successor
    have hone : ∀ other t, t ≠ r.token → s.db.tokens t = some ⟨other, false⟩ →
        other ≠ family := by
      rintro other t hne ht rfl
      exact hne (h.unspent other t r.token ht hspent)
    intro other t u ht hu
    rcases hfamily t _ ht with ⟨rfl, heq⟩ | ⟨_, heq⟩ | ⟨hne, ht⟩
    · rcases hfamily u _ hu with ⟨rfl, _⟩ | ⟨_, heq'⟩ | ⟨hne, hu⟩
      · rfl
      · cases congrArg Refresh.used heq'
      · exact absurd (congrArg Refresh.family heq) (hone other u hne hu)
    · cases congrArg Refresh.used heq
    · rcases hfamily u _ hu with ⟨_, heq'⟩ | ⟨_, heq'⟩ | ⟨_, hu⟩
      · exact absurd (congrArg Refresh.family heq') (hone other t hne ht)
      · cases congrArg Refresh.used heq'
      · exact h.unspent other t u ht hu

theorem inv_rotation (h : Inv s) {family : ℕ} {r : Rotation} {used : Bool}
    (hlive : s.liveFamily family = true) (htoken : s.db.tokens r.token = some ⟨family, used⟩)
    (hverdict : ∀ v g, r.decided = some (v, g) → (used = true ↔ v = .reuse)) :
    Inv (s.withRotation family (some r)) := by
  refine ⟨h.owned, h.known, ?_, h.unspent⟩
  intro other held hheld
  rcases row_of_update hheld with ⟨rfl, heq⟩ | ⟨_, hheld⟩
  · obtain rfl := Option.some.inj heq
    exact ⟨hlive, used, htoken, hverdict⟩
  · exact h.locked other held hheld

theorem inv_rotateRead (h : Inv s) {family : ℕ} {r : Rotation} {token : Refresh} {row : Family}
    (running : s.rotations family = some r) (found : s.db.tokens r.token = some token) :
    Inv (s.withRotation family
      (some { r with decided := some (verdict idle r.now token row s.db, s.generation) })) := by
  rcases h.locked family r running with ⟨hlive, used, htoken, _⟩
  refine inv_rotation h hlive htoken fun v g hdecided => ?_
  obtain rfl := Option.some.inj (found.symm.trans htoken)
  rw [← (Prod.mk.inj (Option.some.inj hdecided)).1]
  exact Iff.symm verdict_eq_reuse

theorem Inv.same (h : Inv s) {next : State} (hfamilies : next.db.families = s.db.families)
    (htokens : next.db.tokens = s.db.tokens) (hrotations : next.rotations = s.rotations)
    (hknown : next.known = s.known) : Inv next :=
  h.of_families (fun _ => rfl) (fun _ _ _ => rfl) hfamilies htokens
    (fun family _ hr => (congrFun hrotations family).symm.trans hr) hknown

theorem inv_step (h : Inv s) (hstep : Step idle s a u) : Inv u := by
  cases hstep with
  | revokeRead => exact h.same rfl rfl rfl rfl
  | revokeWrite => exact h.same rfl rfl rfl rfl
  | revokeCommit running written unlocked => exact inv_revokeCommit h unlocked
  | revokeAbort => exact h.same rfl rfl rfl rfl
  | openRead => exact h.same rfl rfl rfl rfl
  | openCommit jti now expiresAt running fresh fresh_token =>
    exact inv_openCommit h jti now expiresAt _ fresh fresh_token
  | mint => exact h.same rfl rfl rfl rfl
  | rotateLock now found owner live unlocked =>
    rename_i family token row
    subst owner
    have hrow : s.db.tokens token = some ⟨row.family, row.used⟩ := found
    exact inv_rotation h live hrow fun _ _ hdecided => by cases hdecided
  | rotateRead running unread found owner => exact inv_rotateRead h running found
  | exchange jti running decided fresh => exact inv_exchange h jti running decided fresh
  | refuse => exact inv_refuse h _ _
  | rotateAbort => exact inv_unlock h _
  | endSession reason unlocked => exact inv_endSession h reason unlocked
  | revokeToken => exact h.same rfl rfl rfl rfl
  | sweep found expired unlocked => exact inv_sweep h unlocked
  | setDisabled => exact h.same rfl rfl rfl rfl

theorem inv_of_runs {version : ℕ} {disabled : Bool} {is : List Action}
    (h : Runs (Step idle) (start version disabled) is s) : Inv s :=
  h.invariant Inv (fun _ _ _ hs hstep => inv_step hs hstep) (inv_start version disabled)

theorem spentEnds_of_inv (h : Inv s) : SpentEnds idle s := by
  intro family r successor jti u token hr htoken hused hstep
  rcases h.locked family r hr with ⟨hlive, used, htoken', hverdict⟩
  obtain rfl := Option.some.inj (htoken.symm.trans htoken')
  cases hstep with
  | exchange _ running decided fresh =>
    obtain rfl := Option.some.inj (hr.symm.trans running)
    exact absurd ((hverdict _ _ decided).mp hused) (by simp)
  | refuse _ _ running decided refused =>
    obtain rfl := Option.some.inj (hr.symm.trans running)
    obtain rfl := (hverdict _ _ decided).mp hused
    obtain rfl := Option.some.inj refused
    rcases (Option.any_eq_true _ _).mp hlive with ⟨row, hrow, hrowlive⟩
    refine ⟨row.end .reuse, ?_, end_of_live hrowlive⟩
    change endFamily family .reuse s.db.families family = _
    unfold endFamily
    rw [Function.update_self, hrow]
    rfl

theorem staysEnded_of_runs (h : Inv s) {is : List Action} (hruns : Runs (Step idle) s is u) :
    StaysEnded s u := by
  intro family row reason hrow hended
  rcases (familiesKept_of_runs hruns family (h.known family row hrow)).2 with hnone | hsome
  · exact .inl hnone
  · rcases hsome with ⟨before, later, hbefore, hlater, hsame⟩
    obtain rfl := Option.some.inj (hrow.symm.trans hbefore)
    exact .inr ⟨later, hlater, hsame.ended reason hended⟩

end Invariant

section Generations

variable {idle : ℤ} {s u : State} {a : Action}

inductive Quoted (s : State) : Generation → Prop where
  | opening {tx : ℕ} {g : Generation} (h : s.openings tx = some g) : Quoted s g
  | family {id : ℕ} {row : Family} (h : s.db.families id = some row) :
      Quoted s ⟨row.version, row.readAt⟩
  | rotation {family : ℕ} {r : Rotation} {v : Verdict} {g : Generation}
      (h : s.rotations family = some r) (decided : r.decided = some (v, g)) : Quoted s g
  | access {token : Access} (h : token ∈ s.access) : Quoted s ⟨token.version, token.readAt⟩

theorem step_openings (h : Step idle s a u) {tx : ℕ} {g : Generation}
    (hg : u.openings tx = some g) : s.openings tx = some g ∨ g = s.generation := by
  cases h with
  | openRead =>
    rcases row_of_update hg with ⟨_, heq⟩ | ⟨_, hg⟩
    · exact .inr (Option.some.inj heq).symm
    · exact .inl hg
  | openCommit =>
    rcases row_of_update hg with ⟨_, hnone⟩ | ⟨_, hg⟩
    · cases hnone
    · exact .inl hg
  | _ => exact .inl hg

theorem step_rotations (h : Step idle s a u) {family : ℕ} {r : Rotation} {v : Verdict}
    {g : Generation} (hr : u.rotations family = some r) (hdecided : r.decided = some (v, g)) :
    s.rotations family = some r ∨ g = s.generation := by
  cases h with
  | rotateLock =>
    rcases row_of_update hr with ⟨_, heq⟩ | ⟨_, hr⟩
    · obtain rfl := Option.some.inj heq
      cases hdecided
    · exact .inl hr
  | rotateRead =>
    rcases row_of_update hr with ⟨_, heq⟩ | ⟨_, hr⟩
    · obtain rfl := Option.some.inj heq
      exact .inr (Prod.mk.inj (Option.some.inj hdecided)).2.symm
    · exact .inl hr
  | exchange =>
    rcases row_of_update hr with ⟨_, hnone⟩ | ⟨_, hr⟩
    · cases hnone
    · exact .inl hr
  | refuse =>
    rcases row_of_update hr with ⟨_, hnone⟩ | ⟨_, hr⟩
    · cases hnone
    · exact .inl hr
  | rotateAbort =>
    rcases row_of_update hr with ⟨_, hnone⟩ | ⟨_, hr⟩
    · cases hnone
    · exact .inl hr
  | _ => exact .inl hr

theorem step_access (h : Step idle s a u) {token : Access} (htoken : token ∈ u.access) :
    Quoted s ⟨token.version, token.readAt⟩ ∨ ⟨token.version, token.readAt⟩ = s.generation := by
  cases h with
  | openCommit jti now expiresAt running =>
    rcases List.mem_cons.mp htoken with rfl | htoken
    · exact .inl (.opening running)
    · exact .inl (.access htoken)
  | mint =>
    rcases List.mem_cons.mp htoken with rfl | htoken
    · exact .inr rfl
    · exact .inl (.access htoken)
  | exchange jti running decided =>
    rcases List.mem_cons.mp htoken with rfl | htoken
    · exact .inl (.rotation running decided)
    · exact .inl (.access htoken)
  | _ => exact .inl (.access htoken)

theorem step_quoted (h : Step idle s a u) {g : Generation} (hg : Quoted u g) :
    Quoted s g ∨ g = s.generation := by
  cases hg with
  | opening hopening => exact (step_openings h hopening).imp_left .opening
  | family hrow =>
    rename_i family row
    rcases step_families h family with hafter | ⟨_, tx, g, hopening, _, _, hopened⟩
    · rcases hafter with hnone | ⟨before, later, hbefore, hlater, hsame⟩
      · rw [hnone] at hrow
        cases hrow
      · obtain rfl := Option.some.inj (hrow.symm.trans hlater)
        rw [hsame.version, hsame.readAt]
        exact .inl (.family hbefore)
    · obtain rfl := Option.some.inj (hrow.symm.trans hopened)
      exact .inl (.opening hopening)
  | rotation hr hdecided =>
    exact (step_rotations h hr hdecided).imp_left fun hr => .rotation hr hdecided
  | access htoken => exact step_access h htoken

/-- A revocation that replaces what it read raises the generation, and nothing else touches it. -/
theorem step_account (h : guarded (Step idle) ReadLast s a u) :
    ∃ n, u.committed = s.committed + n ∧ u.db.version = s.db.version + n := by
  rcases h with ⟨hread, h⟩
  cases h with
  | revokeCommit running written unlocked =>
    refine ⟨1, rfl, ?_⟩
    rw [← hread _ running]
    rfl
  | _ => exact ⟨0, rfl, rfl⟩

structure Counted (base : ℕ) (s : State) : Prop where
  account : s.db.version = base + s.committed
  quoted : ∀ g, Quoted s g → g.version = base + g.readAt ∧ g.readAt ≤ s.committed

theorem counted_start (version : ℕ) (disabled : Bool) :
    Counted version (start version disabled) := by
  refine ⟨rfl, fun g hg => ?_⟩
  cases hg with
  | opening h => cases h
  | family h => cases h
  | rotation h => cases h
  | access h => cases h

theorem counted_step {base : ℕ} (hs : Counted base s) (h : guarded (Step idle) ReadLast s a u) :
    Counted base u := by
  rcases step_account h with ⟨n, hcommitted, hversion⟩
  have haccount := hs.account
  constructor
  · omega
  · intro g hg
    rcases step_quoted h.2 hg with hbefore | rfl
    · have hbefore := hs.quoted g hbefore
      omega
    · exact ⟨haccount, by change s.committed ≤ u.committed; omega⟩

theorem counted_of_runs {version : ℕ} {disabled : Bool} {is : List Action}
    (h : Runs (guarded (Step idle) ReadLast) (start version disabled) is s) :
    Counted version s :=
  h.invariant (Counted version) (fun _ _ _ hs hstep => counted_step hs hstep)
    (counted_start version disabled)

theorem checkSession_eq_false {account denylist sessions : Database} {token : Access}
    (h : account.version ≠ token.version) :
    checkSession account denylist sessions token = false := by
  unfold checkSession
  rw [beq_eq_false_iff_ne.mpr h, Bool.and_false, Bool.false_and, Bool.false_and]

theorem verdict_ne_exchanged {now : ℤ} {token : Refresh} {row : Family} {account : Database}
    (h : account.version ≠ row.version) : verdict idle now token row account ≠ .exchanged := by
  unfold verdict
  rw [if_pos (Or.inr h)]
  split
  · simp
  · split
    · simp
    · split
      · simp
      · simp

theorem final_of_counted {base : ℕ} (h : Counted base s) : Final idle s := by
  have hne : ∀ g, Quoted s g → g.readAt < s.committed → s.db.version ≠ g.version := by
    intro g hg hlt
    have haccount := h.account
    have hquoted := h.quoted g hg
    omega
  constructor
  · intro token htoken hlt denylist sessions
    exact checkSession_eq_false (hne _ (.access htoken) hlt)
  · intro family row hrow hlt token now
    exact verdict_ne_exchanged (hne _ (.family hrow) hlt)

/-- Families end once, with one unspent token each; a revocation is final where every one so far
has replaced the generation it read. -/
theorem sessions_end {version : ℕ} {disabled : Bool} {is : List Action}
    (h : Runs (Step idle) (start version disabled) is s) :
    OneUnspent s ∧ SpentEnds idle s ∧
      (∀ js u, Runs (Step idle) s js u → StaysEnded s u) ∧
      (Runs (guarded (Step idle) ReadLast) (start version disabled) is s → Final idle s) :=
  have hinv := inv_of_runs h
  ⟨hinv.unspent, spentEnds_of_inv hinv, fun _ _ hruns => staysEnded_of_runs hinv hruns,
    fun hguarded => final_of_counted (counted_of_runs hguarded)⟩

def revoked : List Action :=
  [.mint 1 none, .revokeRead 1 .revoked, .revokeWrite 1, .revokeCommit 1]

theorem guarded_revoked : ∃ s, Runs (guarded (Step 0) ReadLast) (start 0 false) revoked s ∧
    s.access = [⟨0, 1, none, 0⟩] ∧ s.committed = 1 := by
  refine ⟨_, .next ⟨trivial, .mint 1 none⟩ (.next ⟨trivial, .revokeRead .revoked rfl⟩
    (.next ⟨trivial, .revokeWrite rfl rfl rfl⟩ (.next ⟨?_, .revokeCommit rfl rfl ?_⟩
      (.refl _)))), rfl, rfl⟩
  · intro r hr
    obtain rfl := Option.some.inj hr
    rfl
  · exact fun _ _ _ => rfl

theorem sessions_end_revoked : ∃ s, Runs (Step 0) (start 0 false) revoked s ∧
    OneUnspent s ∧ SpentEnds 0 s ∧ (∀ js u, Runs (Step 0) s js u → StaysEnded s u) ∧
    checkSession s.db s.db s.db ⟨0, 1, none, 0⟩ = false := by
  rcases guarded_revoked with ⟨s, hruns, haccess, hcommitted⟩
  have hall := sessions_end hruns.of_guarded
  refine ⟨s, hruns.of_guarded, hall.1, hall.2.1, hall.2.2.1, ?_⟩
  refine (hall.2.2.2 hruns).access ⟨0, 1, none, 0⟩ ?_ ?_ s.db s.db
  · rw [haccess]
    exact List.mem_singleton_self _
  · rw [hcommitted]
    exact Nat.zero_lt_one

/-- Two revocations read one generation, and a sign-in falls between their commits. -/
def overlapping : List Action :=
  [.revokeRead 1 .revoked, .revokeRead 2 .revoked, .revokeWrite 1, .revokeCommit 1,
    .revokeWrite 2, .openRead 3, .openCommit 3 10 20 30 0 100, .revokeCommit 2]

theorem accepted_overlapping : ∃ s, Runs (Step 0) (start 0 false) overlapping s ∧
    ∃ token ∈ s.access, token.readAt < s.committed ∧
      checkSession s.db s.db s.db token = true := by
  refine ⟨_, .next (.revokeRead .revoked rfl) (.next (.revokeRead .revoked rfl)
    (.next (.revokeWrite rfl rfl rfl) (.next (.revokeCommit rfl rfl fun _ _ _ => rfl)
      (.next (.revokeWrite rfl rfl rfl) (.next (.openRead rfl)
        (.next (.openCommit 30 0 100 rfl List.not_mem_nil rfl)
          (.next (.revokeCommit rfl rfl fun _ _ _ => rfl) (.refl _)))))))),
    ⟨1, 30, some 10, 1⟩, List.mem_singleton_self _, by decide, rfl⟩

theorem not_final_overlapping : ∃ s, Runs (Step 0) (start 0 false) overlapping s ∧
    ¬ Final 0 s := by
  rcases accepted_overlapping with ⟨s, hruns, token, htoken, hlt, haccepted⟩
  refine ⟨s, hruns, fun hfinal => ?_⟩
  rw [hfinal.access token htoken hlt s.db s.db] at haccepted
  cases haccepted

end Generations

end Shapoclyack.Sessions
