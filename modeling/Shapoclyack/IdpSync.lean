import Mathlib.Data.String.Basic
import Shapoclyack.Library.Ascending
import Shapoclyack.Library.KeyedTable
import Shapoclyack.Library.WorstOf
import Shapoclyack.ResumedBatches

set_option autoImplicit false

namespace Shapoclyack.IdpSync

open Library
open ResumedBatches (Line strip)

section Maps

structure MapEntry where
  tenantId : String
  role : String

structure GroupGrants where
  group : String
  entries : List MapEntry

structure RoleGrant where
  group : String
  role : String

structure Settings where
  oidcRoleMap : Table RoleGrant.group
  idpGroupMap : Table GroupGrants.group
  oidcDefaultRole : String
  oidcTenantClaim : Line
  breakGlassUsers : List String

/-- `oidc_role_map.get(group)` -/
def Settings.roleOf (s : Settings) (group : String) : Option String :=
  (s.oidcRoleMap.get group).map RoleGrant.role

/-- `idp_group_map.get(group, [])` -/
def Settings.entriesOf (s : Settings) (group : String) : List MapEntry :=
  ((s.idpGroupMap.get group).map GroupGrants.entries).getD []

structure RoleDefinition where
  tenantId : String
  roleId : String
  rank : ℤ

structure Directory where
  tenants : List String
  roles : List RoleDefinition

/-- The rank of a built-in tenant role: `platform-admin` is not one. -/
def builtinRank : String → Option ℕ
  | "viewer" | "auditor" | "scope-approver" | "token-admin" | "risk-approver" => some 1
  | "operator" | "scan-operator" => some 2
  | "admin" => some 3
  | _ => none

def Directory.roleInSession (d : Directory) (tenantId role : String) : Option ℕ :=
  match builtinRank role with
  | some rank => some rank
  | none =>
    (d.roles.find? fun row => row.roleId = role ∧ row.tenantId = tenantId).map
      fun row => (min (max row.rank 1) 3).toNat

end Maps

section Scopes

/-- What one reconcile may change, or one group may grant: no tenant ids are every tenant. -/
structure SyncScope where
  tenantIds : Option (List String)
  manageRole : Bool
  manageActive : Bool
  allowAdmin : Bool

def SyncScope.covers (scope : SyncScope) (tenantId : String) : Bool :=
  match scope.tenantIds with
  | none => true
  | some ids => decide (tenantId ∈ ids)

def loginScope : SyncScope := ⟨none, true, true, true⟩

def grantsNothing : SyncScope := ⟨some [], false, false, false⟩

def capOf (caps : Option (String → Option SyncScope)) (group : String) : SyncScope :=
  match caps with
  | none => loginScope
  | some caps => (caps group).getD grantsNothing

def roleAllowed (cap : SyncScope) (role : String) : Bool :=
  cap.manageRole && (decide (role ≠ "admin") || cap.allowAdmin)

def placesTenants (s : Settings) : Bool :=
  !s.idpGroupMap.rows.isEmpty || !(strip s.oidcTenantClaim).isEmpty

/-- An account that only the fallback to the default tenant would let in. -/
def isUnplaced (s : Settings) (role : String) (placed : Bool) : Bool :=
  placesTenants s && decide (role ≠ "admin") && !placed

/-- What a resync is given, the account apart. -/
structure Sync where
  settings : Settings
  directory : Directory
  groups : List String
  scope : SyncScope
  caps : Option (String → Option SyncScope)

variable (x : Sync)

def isMapped (group : String) : Bool :=
  (match x.settings.roleOf group with
    | none => false
    | some role => x.scope.manageRole && roleAllowed (capOf x.caps group) role) ||
  (x.settings.entriesOf group).any fun entry =>
    x.scope.covers entry.tenantId && (capOf x.caps group).covers entry.tenantId

def mappedGroups : List String := (ascending x.groups).filter (isMapped x)

/-- `_GLOBAL_RANK`, and zero for any other name. -/
def globalRank : String → ℕ
  | "viewer" => 1
  | "operator" => 2
  | "admin" => 3
  | _ => 0

/-- The one that `max` keeps of two roles. -/
def higherRole (a b : String) : String := if globalRank a < globalRank b then b else a

def mappedRoles : List String :=
  let mapped := (ascending x.groups).filterMap fun group =>
    (x.settings.roleOf group).filter (roleAllowed (capOf x.caps group))
  if x.scope.allowAdmin then mapped else mapped.filter fun role => decide (role ≠ "admin")

def desiredRole : String := (worstOf higherRole (mappedRoles x)).getD x.settings.oidcDefaultRole

end Scopes

section Grants

structure Grant where
  tenantId : String
  rank : ℕ
  role : String

variable (x : Sync)

def entriesInScope : List MapEntry :=
  (ascending x.groups).flatMap fun group =>
    (x.settings.entriesOf group).filter fun entry =>
      x.scope.covers entry.tenantId && (capOf x.caps group).covers entry.tenantId &&
        decide (entry.tenantId ∈ x.directory.tenants)

def grantOf (d : Directory) (entry : MapEntry) : Option Grant :=
  (d.roleInSession entry.tenantId entry.role).map fun rank => ⟨entry.tenantId, rank, entry.role⟩

def raise (g held : Grant) : Grant :=
  if held.rank < g.rank then { held with rank := g.rank, role := g.role } else held

def consider (g : Grant) : Change Grant.tenantId where
  target := g.tenantId
  fresh := g
  update := raise g
  fresh_key := rfl
  update_key held := by
    unfold raise
    split_ifs <;> rfl

def grants : List Grant := (entriesInScope x).filterMap (grantOf x.directory)

/-- `_desired_memberships`: the best grant for each tenant. -/
def desired : Table Grant.tenantId :=
  (Table.empty Grant.tenantId).applyAll ((grants x).map consider)

def unresolved : List String :=
  ((entriesInScope x).filter fun entry => (grantOf x.directory entry).isNone).map MapEntry.tenantId

def explainedRoles (s : Settings) (tenantId : String) : List String :=
  ((s.idpGroupMap.rows.flatMap GroupGrants.entries).filter
    fun entry => decide (entry.tenantId = tenantId)).map MapEntry.role

end Grants

section Accounts

inductive Source where
  | byHand
  | idp
deriving DecidableEq

inductive DisabledBy where
  | idp
  | scim
deriving DecidableEq

structure Membership where
  tenantId : String
  role : String
  source : Source
  createdAt : ℤ
  createdBy : String
deriving DecidableEq

/-- An account with its memberships; the token version counts how often its sessions were ended. -/
structure Account where
  username : String
  role : String
  erasedAt : Option ℤ
  disabledAt : Option ℤ
  disabledSource : Option DisabledBy
  updatedAt : ℤ
  tokenVersion : ℕ
  memberships : Table Membership.tenantId

structure SyncResult where
  granted : List String := []
  changed : List String := []
  revoked : List String := []
  role : Option (String × String) := none
  disabled : Bool := false
  enabled : Bool := false
  skipped : Option String := none
deriving DecidableEq

def SyncResult.reduced (r : SyncResult) : Bool :=
  !r.changed.isEmpty || !r.revoked.isEmpty || r.role.isSome || r.disabled

variable (x : Sync)

/-- What becomes of one membership. -/
inductive Review where
  | stays
  | revoked
  | changed (role : String)
deriving DecidableEq

def review (m : Membership) : Review :=
  if m.source ≠ .idp ∨ x.scope.covers m.tenantId = false then .stays
  else if m.tenantId ∈ unresolved x ∧ m.role ∉ explainedRoles x.settings m.tenantId then .stays
  else
    match (desired x).get m.tenantId with
    | none => .revoked
    | some want => if want.role ≠ m.role then .changed want.role else .stays

def reviewed (m : Membership) : Option Membership :=
  match review x m with
  | .stays => some m
  | .revoked => none
  | .changed role => some { m with role := role }

theorem reviewed_key (m n : Membership) (h : reviewed x m = some n) : n.tenantId = m.tenantId := by
  unfold reviewed at h
  split at h
  · rw [Option.some.inj h]
  · cases h
  · rw [← Option.some.inj h]

def missing (held : Table Membership.tenantId) : List Grant :=
  ((ascending ((desired x).rows.map Grant.tenantId)).filterMap (desired x).get).filter
    fun g => (held.get g.tenantId).isNone

def membershipOf (now : ℤ) (actor : String) (g : Grant) : Membership :=
  ⟨g.tenantId, g.role, .idp, now, actor⟩

theorem missing_unique (held : Table Membership.tenantId) (now : ℤ) (actor : String) :
    (((missing x held).map (membershipOf now actor)).map Membership.tenantId).Nodup := by
  rw [List.map_map]
  change ((missing x held).map Grant.tenantId).Nodup
  have hsub := (List.filter_sublist (p := fun g : Grant => (held.get g.tenantId).isNone)
    (l := (ascending ((desired x).rows.map Grant.tenantId)).filterMap (desired x).get)).map
      Grant.tenantId
  exact ((ascending_nodup _).sublist ((desired x).keys_get_sublist _)).sublist hsub

theorem missing_free (held : Table Membership.tenantId) (now : ℤ) (actor : String) :
    ∀ m ∈ (missing x held).map (membershipOf now actor),
      (held.review (reviewed x) (reviewed_key x)).get m.tenantId = none := by
  intro m hm
  obtain ⟨g, hg, hgm⟩ := List.mem_map.mp hm
  have hfree : held.get g.tenantId = none := by simpa using (List.mem_filter.mp hg).2
  rw [Table.get_eq_none_iff, ← hgm]
  intro n hn
  obtain ⟨m₀, hm₀, hreviewed⟩ := List.mem_filterMap.mp hn
  rw [reviewed_key x m₀ n hreviewed]
  exact (held.get_eq_none_iff _).mp hfree m₀ hm₀

def settledMemberships (now : ℤ) (actor : String) (held : Table Membership.tenantId) :
    Table Membership.tenantId :=
  (held.review (reviewed x) (reviewed_key x)).appendAll
    ((missing x held).map (membershipOf now actor)) (missing_unique x held now actor)
    (missing_free x held now actor)

/-- A scope that may not grant admin may not take it away either. -/
def nextRole (role : String) : String :=
  if x.scope.manageRole = true ∧ desiredRole x ≠ role ∧
      (x.scope.allowAdmin = true ∨ role ≠ "admin") then desiredRole x else role

inductive Lifecycle where
  | stays
  | disabled
  | enabled
deriving DecidableEq

/-- What becomes of the account, as its enabled state was and the memberships are now. -/
def lifecycle (disabledAt : Option ℤ) (source : Option DisabledBy)
    (unplaced granted revoked : Bool) : Lifecycle :=
  let hasMapped := !(mappedGroups x).isEmpty
  if x.scope.manageActive then
    if disabledAt.isNone && (!hasMapped || unplaced) then .disabled
    else if hasMapped && !unplaced && disabledAt.isSome && decide (source = some .idp) then .enabled
    else .stays
  else if disabledAt.isNone && unplaced && revoked then .disabled
  else if disabledAt.isSome && decide (source = some .idp) && granted && hasMapped && !unplaced then
    .enabled
  else .stays

def revokedIn (held : Table Membership.tenantId) : List String :=
  (held.rows.filter fun m => decide (review x m = .revoked)).map Membership.tenantId

def leftUnplaced (now : ℤ) (actor : String) (a : Account) : Bool :=
  isUnplaced x.settings (nextRole x a.role)
    (!(settledMemberships x now actor a.memberships).rows.isEmpty)

def becomes (now : ℤ) (actor : String) (a : Account) : Lifecycle :=
  lifecycle x a.disabledAt a.disabledSource (leftUnplaced x now actor a)
    (!(missing x a.memberships).isEmpty) (!(revokedIn x a.memberships).isEmpty)

def outcome (now : ℤ) (actor : String) (a : Account) : SyncResult where
  granted := (missing x a.memberships).map Grant.tenantId
  changed := (a.memberships.rows.filter fun m =>
    decide (review x m ≠ .stays ∧ review x m ≠ .revoked)).map Membership.tenantId
  revoked := revokedIn x a.memberships
  role := if nextRole x a.role = a.role then none else some (a.role, nextRole x a.role)
  disabled := decide (becomes x now actor a = .disabled)
  enabled := decide (becomes x now actor a = .enabled)

def afterwards (now : ℤ) (becomes : Lifecycle) (disabledAt : Option ℤ) : Option ℤ :=
  if becomes = .disabled then some now else if becomes = .enabled then none else disabledAt

def sourceAfter (becomes : Lifecycle) (source : Option DisabledBy) : Option DisabledBy :=
  if becomes = .disabled then some .idp else if becomes = .enabled then none else source

def reconcile (now : ℤ) (actor : String) (a : Account) : Account × SyncResult :=
  if a.erasedAt.isSome then (a, { skipped := some "erased" })
  else if a.username ∈ x.settings.breakGlassUsers then (a, { skipped := some "break-glass" })
  else
    let result := outcome x now actor a
    ({ a with
        role := nextRole x a.role
        memberships := settledMemberships x now actor a.memberships
        disabledAt := afterwards now (becomes x now actor a) a.disabledAt
        disabledSource := sourceAfter (becomes x now actor a) a.disabledSource
        updatedAt := if result.reduced || result.enabled then now else a.updatedAt
        tokenVersion := if result.reduced then a.tokenVersion + 1 else a.tokenVersion }, result)

end Accounts

section Choice

variable {x : Sync} {t : String}

def better (held g : Grant) : Grant := if held.rank < g.rank then g else held

theorem better_keepsWorst : KeepsWorst Grant.rank better :=
  keepsWorst_of_prefers (fun _ _ h => le_of_lt h) (fun _ _ h => not_lt.mp h)

theorem raise_eq_better {g held : Grant} (h : held.tenantId = g.tenantId) :
    raise g held = better held g := by
  unfold raise better
  split_ifs
  · rw [h]
  · rfl

theorem foldl_raise {g : Grant} (gs : List Grant) (hg : g.tenantId = t)
    (hgs : ∀ h ∈ gs, h.tenantId = t) :
    (gs.map consider).foldl (fun held c => c.update held) g = gs.foldl better g := by
  induction gs generalizing g with
  | nil => rfl
  | cons h gs ih =>
    have hh : h.tenantId = t := hgs h List.mem_cons_self
    have hstep : (consider h).update g = better g h := raise_eq_better (hg.trans hh.symm)
    have htenant : (better g h).tenantId = t := by
      cases better_keepsWorst.picks g h with
      | inl heq => rw [heq, hg]
      | inr heq => rw [heq, hh]
    rw [List.map_cons, List.foldl_cons, List.foldl_cons, hstep]
    exact ih htenant fun k hk => hgs k (List.mem_cons_of_mem _ hk)

theorem get_desired (x : Sync) (t : String) :
    (desired x).get t =
      worstOf better ((grants x).filter fun g => decide (g.tenantId = t)) := by
  have hfilter : ((grants x).map consider).filter (fun c => decide (c.target = t)) =
      ((grants x).filter fun g => decide (g.tenantId = t)).map consider := List.filter_map
  have hempty : (Table.empty Grant.tenantId).get t = none := rfl
  rw [desired, Table.get_applyAll, hfilter, hempty]
  have htenant : ∀ g ∈ (grants x).filter fun g => decide (g.tenantId = t), g.tenantId = t :=
    fun g hg => of_decide_eq_true (List.mem_filter.mp hg).2
  cases hgrants : (grants x).filter fun g => decide (g.tenantId = t) with
  | nil => rfl
  | cons g gs =>
    rw [hgrants] at htenant
    rw [List.map_cons, List.foldl_cons, worstOf]
    change List.foldl _ (some g) _ = _
    rw [foldl_result_some, foldl_raise gs (htenant g List.mem_cons_self)
      fun h hh => htenant h (List.mem_cons_of_mem _ hh)]

/-- What is desired in a tenant is a grant of the highest rank there. -/
theorem desired_spec {g : Grant} (h : (desired x).get t = some g) :
    g ∈ grants x ∧ g.tenantId = t ∧ ∀ k ∈ grants x, k.tenantId = t → k.rank ≤ g.rank := by
  rw [get_desired] at h
  have ⟨hmem, htenant⟩ := List.mem_filter.mp (worstOf_mem better_keepsWorst h)
  refine ⟨hmem, of_decide_eq_true htenant, fun k hk hkt => ?_⟩
  exact le_worstOf better_keepsWorst h k (List.mem_filter.mpr ⟨hk, decide_eq_true hkt⟩)

theorem desired_of_grant {g : Grant} (h : g ∈ grants x) :
    ∃ k, (desired x).get g.tenantId = some k := by
  rw [get_desired]
  apply exists_worstOf
  apply List.ne_nil_of_mem
  exact List.mem_filter.mpr ⟨h, decide_eq_true rfl⟩

theorem mem_entriesInScope {entry : MapEntry} :
    entry ∈ entriesInScope x ↔ ∃ group ∈ x.groups, entry ∈ x.settings.entriesOf group ∧
      x.scope.covers entry.tenantId = true ∧ (capOf x.caps group).covers entry.tenantId = true ∧
      entry.tenantId ∈ x.directory.tenants := by
  simp only [entriesInScope, List.mem_flatMap, mem_ascending, List.mem_filter, Bool.and_eq_true,
    decide_eq_true_eq, and_assoc]

/-- A role, with its rank, that some group with a covering cap grants in a tenant. -/
def Granted (x : Sync) (tenantId role : String) (rank : ℕ) : Prop :=
  ∃ group ∈ x.groups, ⟨tenantId, role⟩ ∈ x.settings.entriesOf group ∧
    (capOf x.caps group).covers tenantId = true ∧ tenantId ∈ x.directory.tenants ∧
    x.directory.roleInSession tenantId role = some rank

theorem mem_grants {g : Grant} :
    g ∈ grants x ↔ x.scope.covers g.tenantId = true ∧ Granted x g.tenantId g.role g.rank := by
  simp only [grants, List.mem_filterMap, mem_entriesInScope, grantOf, Option.map_eq_some_iff]
  constructor
  · rintro ⟨entry, ⟨group, hgroup, hentry, hscope, hcap, htenant⟩, rank, hrank, rfl⟩
    exact ⟨hscope, group, hgroup, hentry, hcap, htenant, hrank⟩
  · rintro ⟨hscope, group, hgroup, hentry, hcap, htenant, hrank⟩
    exact ⟨⟨g.tenantId, g.role⟩, ⟨group, hgroup, hentry, hscope, hcap, htenant⟩, g.rank, hrank, rfl⟩

/-- Every role that the groups are mapped to, in a tenant there is, is one that tenant has. -/
def Resolves (x : Sync) : Prop :=
  ∀ group ∈ x.groups, ∀ entry ∈ x.settings.entriesOf group,
    entry.tenantId ∈ x.directory.tenants →
      (x.directory.roleInSession entry.tenantId entry.role).isSome = true

theorem unresolved_eq_nil (h : Resolves x) : unresolved x = [] := by
  rw [unresolved, List.map_eq_nil_iff, List.filter_eq_nil_iff]
  intro entry hentry hnone
  have ⟨group, hgroup, hmem, _, _, htenant⟩ := mem_entriesInScope.mp hentry
  have hsome := h group hgroup entry hmem htenant
  rw [grantOf, Option.isNone_map, ← Option.not_isSome, hsome] at hnone
  cases hnone

end Choice

section Memberships

variable {x : Sync} {held : Table Membership.tenantId} {m : Membership} {now : ℤ} {actor : String}

theorem mem_missing {g : Grant} :
    g ∈ missing x held ↔ (desired x).get g.tenantId = some g ∧ held.get g.tenantId = none := by
  simp only [missing, List.mem_filter, List.mem_filterMap, mem_ascending, List.mem_map,
    Option.isNone_iff_eq_none]
  constructor
  · rintro ⟨⟨t, _, hget⟩, hfree⟩
    obtain rfl := (((desired x).get_eq_some_iff t g).mp hget).2
    exact ⟨hget, hfree⟩
  · rintro ⟨hget, hfree⟩
    exact ⟨⟨g.tenantId, ⟨g, (((desired x).get_eq_some_iff _ g).mp hget).1, rfl⟩, hget⟩, hfree⟩

theorem mem_settled :
    m ∈ (settledMemberships x now actor held).rows ↔
      (∃ n ∈ held.rows, reviewed x n = some m) ∨
        ∃ g, (desired x).get g.tenantId = some g ∧ held.get g.tenantId = none ∧
          membershipOf now actor g = m := by
  simp only [settledMemberships, Table.appendAll, Table.review, List.mem_append,
    List.mem_filterMap, List.mem_map, mem_missing, and_assoc]

theorem reviewed_of_outside (h : m.source = .byHand ∨ x.scope.covers m.tenantId = false) :
    reviewed x m = some m := by
  have hreview : review x m = .stays := by
    unfold review
    rw [if_pos]
    cases h with
    | inl hsource => exact .inl (by rw [hsource]; decide)
    | inr hscope => exact .inr hscope
  rw [reviewed, hreview]

theorem reviewed_source {n : Membership} (h : reviewed x m = some n) : n.source = m.source := by
  unfold reviewed at h
  split at h
  · rw [Option.some.inj h]
  · cases h
  · rw [← Option.some.inj h]

theorem reviewed_of_resolves (hresolves : Resolves x) (hsource : m.source = .idp)
    (hscope : x.scope.covers m.tenantId = true) :
    reviewed x m = ((desired x).get m.tenantId).map fun g => { m with role := g.role } := by
  unfold reviewed review
  rw [if_neg (by simp [hsource, hscope]), unresolved_eq_nil hresolves, if_neg (by simp)]
  cases (desired x).get m.tenantId with
  | none => rfl
  | some g =>
    simp only [Option.map_some]
    split_ifs with hrole
    · rfl
    · rw [not_not.mp hrole]

theorem reviewed_again {n : Membership} (h : reviewed x m = some n) : review x n = .stays := by
  unfold reviewed at h
  cases hreview : review x m with
  | stays =>
    rw [hreview] at h
    rw [← Option.some.inj h, hreview]
  | revoked =>
    rw [hreview] at h
    cases h
  | changed role =>
    rw [hreview] at h
    obtain rfl := Option.some.inj h
    unfold review at hreview ⊢
    split_ifs at hreview with hout hexplained
    rw [if_neg hout]
    split_ifs with hfrozen
    · rfl
    · cases hdesired : (desired x).get m.tenantId with
      | none =>
        rw [hdesired] at hreview
        cases hreview
      | some want =>
        rw [hdesired] at hreview
        simp only at hreview ⊢
        split_ifs at hreview
        rw [Review.changed.inj hreview, if_neg (fun hne => hne rfl)]

theorem review_granted {g : Grant} (h : (desired x).get g.tenantId = some g) :
    review x (membershipOf now actor g) = .stays := by
  unfold review membershipOf
  split_ifs
  · rfl
  · rfl
  · simp only [h]
    rw [if_neg (fun hne => hne rfl)]

theorem review_settled (hm : m ∈ (settledMemberships x now actor held).rows) :
    review x m = .stays := by
  cases mem_settled.mp hm with
  | inl hkept =>
    have ⟨n, _, hn⟩ := hkept
    exact reviewed_again hn
  | inr hnew =>
    have ⟨g, hdesired, _, hg⟩ := hnew
    rw [← hg]
    exact review_granted hdesired

theorem reviewed_isSome {g : Grant} (h : (desired x).get m.tenantId = some g) :
    ∃ n, reviewed x m = some n := by
  unfold reviewed review
  rw [h]
  split_ifs
  · exact ⟨m, rfl⟩
  · exact ⟨m, rfl⟩
  · simp only
    split_ifs
    · exact ⟨_, rfl⟩
    · exact ⟨m, rfl⟩

theorem missing_settled (now : ℤ) (actor : String) (held : Table Membership.tenantId) :
    missing x (settledMemberships x now actor held) = [] := by
  rw [List.eq_nil_iff_forall_not_mem]
  intro g hg
  have ⟨hdesired, hfree⟩ := mem_missing.mp hg
  have hnone := (Table.get_eq_none_iff _ _).mp hfree
  cases hheld : held.get g.tenantId with
  | none =>
    exact hnone (membershipOf now actor g) (mem_settled.mpr (.inr ⟨g, hdesired, hheld, rfl⟩)) rfl
  | some m =>
    have ⟨hmem, htenant⟩ := (held.get_eq_some_iff _ _).mp hheld
    rw [← htenant] at hdesired
    have ⟨n, hn⟩ := reviewed_isSome hdesired
    exact hnone n (mem_settled.mpr (.inl ⟨m, hmem, hn⟩)) ((reviewed_key x m n hn).trans htenant)

theorem eq_of_rows {t u : Table Membership.tenantId} (h : t.rows = u.rows) : t = u := by
  cases t
  cases u
  congr

theorem settled_again (now now' : ℤ) (actor actor' : String) (held : Table Membership.tenantId) :
    settledMemberships x now' actor' (settledMemberships x now actor held) =
      settledMemberships x now actor held := by
  apply eq_of_rows
  change List.filterMap _ _ ++ List.map _ (missing x _) = _
  rw [missing_settled, List.map_nil, List.append_nil]
  have hkeeps : ∀ m ∈ (settledMemberships x now actor held).rows, reviewed x m = some m := by
    intro m hm
    rw [reviewed, review_settled hm]
  rw [List.filterMap_congr hkeeps, List.filterMap_some]

end Memberships

section Roles

variable {x : Sync} {role : String}

theorem higherRole_keepsWorst : KeepsWorst globalRank higherRole :=
  keepsWorst_of_prefers (fun _ _ h => le_of_lt h) (fun _ _ h => not_lt.mp h)

def Contributes (x : Sync) (group role : String) : Prop :=
  x.settings.roleOf group = some role ∧ roleAllowed (capOf x.caps group) role = true ∧
    (role = "admin" → x.scope.allowAdmin = true)

theorem mem_mappedRoles : role ∈ mappedRoles x ↔ ∃ group ∈ x.groups, Contributes x group role := by
  have hroles : role ∈ (ascending x.groups).filterMap (fun group =>
      (x.settings.roleOf group).filter (roleAllowed (capOf x.caps group))) ↔
        ∃ group ∈ x.groups, x.settings.roleOf group = some role ∧
          roleAllowed (capOf x.caps group) role = true := by
    simp only [List.mem_filterMap, mem_ascending, Option.filter_eq_some_iff]
  unfold mappedRoles Contributes
  cases x.scope.allowAdmin with
  | true => simpa using hroles
  | false =>
    simp only [Bool.false_eq_true, if_false, List.mem_filter, hroles, decide_eq_true_eq, imp_false]
    constructor
    · intro ⟨⟨group, hgroup, hrole, hallowed⟩, hne⟩
      exact ⟨group, hgroup, hrole, hallowed, hne⟩
    · intro ⟨group, hgroup, hrole, hallowed, hne⟩
      exact ⟨⟨group, hgroup, hrole, hallowed⟩, hne⟩

theorem desiredRole_cases (x : Sync) :
    (∃ group ∈ x.groups, Contributes x group (desiredRole x)) ∨
      desiredRole x = x.settings.oidcDefaultRole ∧
        ∀ group ∈ x.groups, ∀ role, ¬ Contributes x group role := by
  unfold desiredRole
  cases h : worstOf higherRole (mappedRoles x) with
  | none =>
    refine .inr ⟨rfl, fun group hgroup role hrole => ?_⟩
    have hmem : role ∈ mappedRoles x := mem_mappedRoles.mpr ⟨group, hgroup, hrole⟩
    rw [(worstOf_eq_none_iff (mappedRoles x)).mp h] at hmem
    exact List.not_mem_nil hmem
  | some w => exact .inl (mem_mappedRoles.mp (worstOf_mem higherRole_keepsWorst h))

theorem nextRole_again (x : Sync) (role : String) :
    nextRole x (nextRole x role) = nextRole x role := by
  by_cases h : x.scope.manageRole = true ∧ desiredRole x ≠ role ∧
      (x.scope.allowAdmin = true ∨ role ≠ "admin")
  · have hnext : nextRole x role = desiredRole x := if_pos h
    rw [hnext]
    exact if_neg fun hagain => hagain.2.1 rfl
  · have hnext : nextRole x role = role := if_neg h
    rw [hnext, hnext]

end Roles

section Lives

variable {x : Sync} {disabledAt : Option ℤ} {source : Option DisabledBy}
  {unplaced granted revoked : Bool}

theorem lifecycle_disabled_person (hdisabled : disabledAt ≠ none) (hsource : source ≠ some .idp) :
    lifecycle x disabledAt source unplaced granted revoked = .stays := by
  have hnone : disabledAt.isNone = false := by
    cases disabledAt with
    | none => exact absurd rfl hdisabled
    | some _ => rfl
  simp [lifecycle, hnone, hsource]

theorem lifecycle_alive (hactive : x.scope.manageActive = true)
    (halive : lifecycle x disabledAt source unplaced granted revoked = .enabled ∨
      lifecycle x disabledAt source unplaced granted revoked = .stays ∧ disabledAt = none) :
    mappedGroups x ≠ [] ∧ unplaced = false := by
  unfold lifecycle at halive
  rw [if_pos hactive] at halive
  cases hmapped : mappedGroups x with
  | nil => cases disabledAt <;> simp [hmapped] at halive
  | cons group groups =>
    refine ⟨List.cons_ne_nil _ _, ?_⟩
    cases unplaced with
    | false => rfl
    | true => cases disabledAt <;> simp [hmapped] at halive

theorem lifecycle_again (now : ℤ) {becomes : Lifecycle}
    (h : lifecycle x disabledAt source unplaced granted revoked = becomes) :
    lifecycle x (afterwards now becomes disabledAt) (sourceAfter becomes source) unplaced false
      false = .stays := by
  unfold lifecycle at h
  cases hactive : x.scope.manageActive <;> cases hmapped : (mappedGroups x).isEmpty <;>
    cases unplaced <;> cases disabledAt <;> by_cases hsource : source = some .idp <;>
    simp only [hactive, hmapped, hsource] at h <;> subst h <;>
    simp [lifecycle, afterwards, sourceAfter, hactive, hmapped, hsource]

end Lives

section Authority

variable (x : Sync) (now : ℤ) (actor : String) (a : Account)

/-- An account that a reconcile may touch is neither erased nor a break-glass one. -/
def MayTouch : Prop := a.erasedAt = none ∧ a.username ∉ x.settings.breakGlassUsers

def resynced : Account := (reconcile x now actor a).1

def Mapped (group : String) : Prop :=
  (∃ role, x.settings.roleOf group = some role ∧ x.scope.manageRole = true ∧
      roleAllowed (capOf x.caps group) role = true) ∨
    ∃ entry ∈ x.settings.entriesOf group, x.scope.covers entry.tenantId = true ∧
      (capOf x.caps group).covers entry.tenantId = true

/-- A reconcile stays within its authority. -/
structure WithinAuthority : Prop where
  untouched : ∀ m, m.source = .byHand ∨ x.scope.covers m.tenantId = false →
    (m ∈ (resynced x now actor a).memberships.rows ↔ m ∈ a.memberships.rows)
  placed : MayTouch x a → Resolves x → ∀ t, x.scope.covers t = true →
    ((∃ m ∈ (resynced x now actor a).memberships.rows, m.tenantId = t ∧ m.source = .idp) ↔
      (∃ role rank, Granted x t role rank) ∧
        ∀ m ∈ a.memberships.rows, m.tenantId = t → m.source ≠ .byHand)
  ranked : MayTouch x a → Resolves x → ∀ m ∈ (resynced x now actor a).memberships.rows,
    m.source = .idp → x.scope.covers m.tenantId = true →
      ∃ rank, Granted x m.tenantId m.role rank ∧
        ∀ role other, Granted x m.tenantId role other → other ≤ rank
  promoted : (resynced x now actor a).role = "admin" → a.role ≠ "admin" →
    x.scope.allowAdmin = true ∧ ∃ group ∈ x.groups, x.settings.roleOf group = some "admin" ∧
      roleAllowed (capOf x.caps group) "admin" = true
  demoted : (resynced x now actor a).role ≠ "admin" → a.role = "admin" → x.scope.allowAdmin = true
  alive : MayTouch x a → x.scope.manageActive = true →
    (resynced x now actor a).disabledAt = none →
      (∃ group ∈ x.groups, Mapped x group) ∧
        (placesTenants x.settings = true → (resynced x now actor a).role ≠ "admin" →
          (resynced x now actor a).memberships.rows ≠ [])
  kept : a.disabledAt ≠ none → a.disabledSource ≠ some .idp →
    (resynced x now actor a).disabledAt = a.disabledAt
  settled : ∀ now' actor', resynced x now' actor' (resynced x now actor a) = resynced x now actor a

/-- No group contributes a global role under the scope, and the default that is left is admin. -/
def DefaultPromotes : Prop :=
  MayTouch x a ∧ x.scope.manageRole = true ∧ a.role ≠ "admin" ∧
    x.settings.oidcDefaultRole = "admin" ∧ ∀ group ∈ x.groups, ∀ role, ¬ Contributes x group role

variable {x now actor a}

theorem resynced_of_untouchable (h : ¬ MayTouch x a) : resynced x now actor a = a := by
  unfold resynced reconcile
  unfold MayTouch at h
  cases herased : a.erasedAt with
  | some at_ => rfl
  | none =>
    have hglass : a.username ∈ x.settings.breakGlassUsers := by
      by_contra hout
      exact h ⟨herased, hout⟩
    rw [if_neg (by simp), if_pos hglass]

theorem reconcile_of_mayTouch (h : MayTouch x a) :
    resynced x now actor a = { a with
      role := nextRole x a.role
      memberships := settledMemberships x now actor a.memberships
      disabledAt := afterwards now (becomes x now actor a) a.disabledAt
      disabledSource := sourceAfter (becomes x now actor a) a.disabledSource
      updatedAt := if (outcome x now actor a).reduced || (outcome x now actor a).enabled then now
        else a.updatedAt
      tokenVersion := if (outcome x now actor a).reduced then a.tokenVersion + 1
        else a.tokenVersion } := by
  unfold resynced reconcile
  rw [h.1, if_neg (by simp), if_neg h.2]

theorem resynced_untouched (m : Membership)
    (h : m.source = .byHand ∨ x.scope.covers m.tenantId = false) :
    m ∈ (resynced x now actor a).memberships.rows ↔ m ∈ a.memberships.rows := by
  by_cases htouch : MayTouch x a
  · rw [reconcile_of_mayTouch htouch]
    constructor
    · intro hm
      cases mem_settled.mp hm with
      | inl hkept =>
        have ⟨n, hn, hreviewed⟩ := hkept
        have hn' : n.source = .byHand ∨ x.scope.covers n.tenantId = false := by
          rw [← reviewed_source hreviewed, ← reviewed_key x n m hreviewed]
          exact h
        rw [reviewed_of_outside hn'] at hreviewed
        rw [← Option.some.inj hreviewed]
        exact hn
      | inr hnew =>
        -- what is granted is the identity provider's, and inside the scope
        have ⟨g, hdesired, _, hg⟩ := hnew
        have hscope := (mem_grants.mp (desired_spec hdesired).1).1
        rw [← hg] at h
        cases h with
        | inl hsource => cases hsource
        | inr hout => exact absurd (hscope.symm.trans hout) (by decide)
    · intro hm
      exact mem_settled.mpr (.inl ⟨m, hm, reviewed_of_outside h⟩)
  · rw [resynced_of_untouchable htouch]

theorem mem_settled_idp (hresolves : Resolves x) {held : Table Membership.tenantId}
    {m : Membership} (hm : m ∈ (settledMemberships x now actor held).rows)
    (hsource : m.source = .idp) (hscope : x.scope.covers m.tenantId = true) :
    ∃ g, (desired x).get m.tenantId = some g ∧ g.role = m.role ∧
      ∀ n ∈ held.rows, n.tenantId = m.tenantId → n.source ≠ .byHand := by
  cases mem_settled.mp hm with
  | inl hkept =>
    have ⟨n, hn, hreviewed⟩ := hkept
    have hkey := reviewed_key x n m hreviewed
    have hidp : n.source = .idp := (reviewed_source hreviewed).symm.trans hsource
    have hreview := hreviewed
    rw [reviewed_of_resolves hresolves hidp (hkey ▸ hscope)] at hreview
    have ⟨g, hg, hgm⟩ := Option.map_eq_some_iff.mp hreview
    refine ⟨g, hkey ▸ hg, by rw [← hgm], fun k hk hkt => ?_⟩
    obtain rfl := eq_of_key_eq held.unique hk hn (hkt.trans hkey)
    rw [hidp]
    decide
  | inr hnew =>
    have ⟨g, hdesired, hfree, hg⟩ := hnew
    rw [← hg]
    refine ⟨g, hdesired, rfl, fun k hk hkt => ?_⟩
    exact absurd hkt ((held.get_eq_none_iff _).mp hfree k hk)

theorem resynced_placed (htouch : MayTouch x a) (hresolves : Resolves x) (t : String)
    (hscope : x.scope.covers t = true) :
    (∃ m ∈ (resynced x now actor a).memberships.rows, m.tenantId = t ∧ m.source = .idp) ↔
      (∃ role rank, Granted x t role rank) ∧
        ∀ m ∈ a.memberships.rows, m.tenantId = t → m.source ≠ .byHand := by
  rw [reconcile_of_mayTouch htouch]
  constructor
  · rintro ⟨m, hm, rfl, hsource⟩
    have ⟨g, hdesired, _, hfree⟩ := mem_settled_idp hresolves hm hsource hscope
    have ⟨hgrant, htenant, _⟩ := desired_spec hdesired
    have hgranted := (mem_grants.mp hgrant).2
    rw [htenant] at hgranted
    exact ⟨⟨g.role, g.rank, hgranted⟩, hfree⟩
  · intro ⟨⟨role, rank, hgranted⟩, hfree⟩
    have hgrant : (⟨t, rank, role⟩ : Grant) ∈ grants x := mem_grants.mpr ⟨hscope, hgranted⟩
    have ⟨g, hdesired⟩ := desired_of_grant hgrant
    have htenant := (desired_spec hdesired).2.1
    cases hheld : a.memberships.get t with
    | none =>
      refine ⟨membershipOf now actor g, mem_settled.mpr (.inr ⟨g, ?_, ?_, rfl⟩), htenant, rfl⟩
      · rw [htenant]
        exact hdesired
      · rw [htenant]
        exact hheld
    | some m =>
      have ⟨hmem, hmt⟩ := (a.memberships.get_eq_some_iff _ _).mp hheld
      have hsource : m.source = .idp := by
        cases hm : m.source with
        | byHand => exact absurd hm (hfree m hmem hmt)
        | idp => rfl
      have hreviewed := reviewed_of_resolves hresolves hsource (hmt ▸ hscope)
      rw [hmt, hdesired] at hreviewed
      exact ⟨_, mem_settled.mpr (.inl ⟨m, hmem, hreviewed⟩), rfl, hsource⟩

theorem resynced_ranked (htouch : MayTouch x a) (hresolves : Resolves x) (m : Membership)
    (hm : m ∈ (resynced x now actor a).memberships.rows) (hsource : m.source = .idp)
    (hscope : x.scope.covers m.tenantId = true) :
    ∃ rank, Granted x m.tenantId m.role rank ∧
      ∀ role other, Granted x m.tenantId role other → other ≤ rank := by
  rw [reconcile_of_mayTouch htouch] at hm
  have ⟨g, hdesired, hrole, _⟩ := mem_settled_idp hresolves hm hsource hscope
  have ⟨hgrant, htenant, hbest⟩ := desired_spec hdesired
  have hgranted := (mem_grants.mp hgrant).2
  rw [htenant, hrole] at hgranted
  refine ⟨g.rank, hgranted, fun role other hother => ?_⟩
  exact hbest ⟨m.tenantId, other, role⟩ (mem_grants.mpr ⟨hscope, hother⟩) rfl

theorem resynced_role (h : (resynced x now actor a).role ≠ a.role) :
    MayTouch x a ∧ (resynced x now actor a).role = desiredRole x ∧ x.scope.manageRole = true ∧
      (x.scope.allowAdmin = true ∨ a.role ≠ "admin") := by
  by_cases htouch : MayTouch x a
  · rw [reconcile_of_mayTouch htouch] at h ⊢
    simp only at h ⊢
    unfold nextRole at h ⊢
    split_ifs at h ⊢ with hchange
    · exact ⟨htouch, rfl, hchange.1, hchange.2.2⟩
    · exact absurd rfl h
  · rw [resynced_of_untouchable htouch] at h
    exact absurd rfl h

theorem resynced_demoted (h : (resynced x now actor a).role ≠ "admin") (hadmin : a.role = "admin") :
    x.scope.allowAdmin = true := by
  have hchange : (resynced x now actor a).role ≠ a.role := by rwa [hadmin]
  exact (resynced_role hchange).2.2.2.resolve_right (not_not.mpr hadmin)

theorem resynced_promoted (hdefault : ¬ DefaultPromotes x a)
    (h : (resynced x now actor a).role = "admin") (hne : a.role ≠ "admin") :
    x.scope.allowAdmin = true ∧ ∃ group ∈ x.groups, x.settings.roleOf group = some "admin" ∧
      roleAllowed (capOf x.caps group) "admin" = true := by
  have hchange : (resynced x now actor a).role ≠ a.role := by
    rw [h]
    exact fun heq => hne heq.symm
  have ⟨htouch, hdesired, hmanage, _⟩ := resynced_role hchange
  rw [h] at hdesired
  cases desiredRole_cases x with
  | inl hgroup =>
    have ⟨group, hmem, hrole, hallowed, hadmin⟩ := hgroup
    rw [← hdesired] at hrole hallowed hadmin
    exact ⟨hadmin rfl, group, hmem, hrole, hallowed⟩
  | inr hnone =>
    exact absurd ⟨htouch, hmanage, hne, hnone.1.symm.trans hdesired.symm, hnone.2⟩ hdefault

theorem not_within_of_default (now : ℤ) (actor : String) (h : DefaultPromotes x a) :
    (resynced x now actor a).role = "admin" ∧ a.role ≠ "admin" ∧
      ¬ (x.scope.allowAdmin = true ∧ ∃ group ∈ x.groups, x.settings.roleOf group = some "admin" ∧
        roleAllowed (capOf x.caps group) "admin" = true) := by
  have ⟨htouch, hmanage, hne, hdefault, hnone⟩ := h
  refine ⟨?_, hne, ?_⟩
  · have hdesired : desiredRole x = "admin" := by
      cases desiredRole_cases x with
      | inl hgroup =>
        have ⟨group, hmem, hcontributes⟩ := hgroup
        exact absurd hcontributes (hnone group hmem _)
      | inr hdefaulted => exact hdefaulted.1.trans hdefault
    rw [reconcile_of_mayTouch htouch]
    simp only [nextRole, hdesired, hmanage, true_and]
    rw [if_pos ⟨fun heq => hne heq.symm, .inr hne⟩]
  · intro ⟨hallow, group, hmem, hrole, hallowed⟩
    exact hnone group hmem "admin" ⟨hrole, hallowed, fun _ => hallow⟩

theorem isMapped_iff (group : String) : isMapped x group = true ↔ Mapped x group := by
  unfold isMapped Mapped
  rw [Bool.or_eq_true]
  apply or_congr
  · cases x.settings.roleOf group <;> simp
  · simp

theorem resynced_alive (htouch : MayTouch x a) (hactive : x.scope.manageActive = true)
    (h : (resynced x now actor a).disabledAt = none) :
    (∃ group ∈ x.groups, Mapped x group) ∧
      (placesTenants x.settings = true → (resynced x now actor a).role ≠ "admin" →
        (resynced x now actor a).memberships.rows ≠ []) := by
  rw [reconcile_of_mayTouch htouch] at h ⊢
  simp only at h ⊢
  have halive : becomes x now actor a = .enabled ∨
      becomes x now actor a = .stays ∧ a.disabledAt = none := by
    cases hbecomes : becomes x now actor a with
    | stays =>
      rw [hbecomes] at h
      exact .inr ⟨rfl, h⟩
    | disabled =>
      rw [hbecomes] at h
      cases h
    | enabled => exact .inl rfl
  have ⟨hmapped, hplaced⟩ := lifecycle_alive hactive halive
  have ⟨group, hgroup⟩ := List.exists_mem_of_ne_nil _ hmapped
  have ⟨hmem, hgrants⟩ := List.mem_filter.mp hgroup
  refine ⟨⟨group, mem_ascending.mp hmem, (isMapped_iff group).mp hgrants⟩, ?_⟩
  intro hplaces hrole hempty
  rw [leftUnplaced, isUnplaced, hplaces, hempty, decide_eq_true hrole] at hplaced
  cases hplaced

theorem resynced_kept (hdisabled : a.disabledAt ≠ none) (hsource : a.disabledSource ≠ some .idp) :
    (resynced x now actor a).disabledAt = a.disabledAt := by
  by_cases htouch : MayTouch x a
  · rw [reconcile_of_mayTouch htouch]
    simp only [becomes, lifecycle_disabled_person hdisabled hsource]
    rfl
  · rw [resynced_of_untouchable htouch]

theorem outcome_again {b : Account} (hreview : ∀ m ∈ b.memberships.rows, review x m = .stays)
    (hrole : nextRole x b.role = b.role)
    (hbecomes : becomes x now actor b = .stays) :
    (outcome x now actor b).reduced = false ∧ (outcome x now actor b).enabled = false := by
  have hrevoked : revokedIn x b.memberships = [] := by
    rw [revokedIn, List.map_eq_nil_iff, List.filter_eq_nil_iff]
    intro m hm
    rw [hreview m hm]
    decide
  have hchanged : (outcome x now actor b).changed = [] := by
    rw [outcome, List.map_eq_nil_iff, List.filter_eq_nil_iff]
    intro m hm
    rw [hreview m hm]
    decide
  refine ⟨?_, by rw [outcome, hbecomes]; rfl⟩
  rw [SyncResult.reduced, hchanged]
  simp [outcome, hrevoked, hrole, hbecomes]

/-- A reconcile that runs again with the same inputs changes nothing. -/
theorem resynced_settled (now' : ℤ) (actor' : String) :
    resynced x now' actor' (resynced x now actor a) = resynced x now actor a := by
  by_cases htouch : MayTouch x a
  · have hagain : MayTouch x (resynced x now actor a) := by
      rw [reconcile_of_mayTouch htouch]
      exact htouch
    have hmemberships : (resynced x now actor a).memberships =
        settledMemberships x now actor a.memberships := by rw [reconcile_of_mayTouch htouch]
    have hrole : (resynced x now actor a).role = nextRole x a.role := by
      rw [reconcile_of_mayTouch htouch]
    have hreview : ∀ m ∈ (resynced x now actor a).memberships.rows, review x m = .stays := by
      rw [hmemberships]
      exact fun m hm => review_settled hm
    have hmissing : missing x (resynced x now actor a).memberships = [] := by
      rw [hmemberships]
      exact missing_settled now actor a.memberships
    have hrevoked : revokedIn x (resynced x now actor a).memberships = [] := by
      rw [revokedIn, List.map_eq_nil_iff, List.filter_eq_nil_iff]
      intro m hm
      rw [hreview m hm]
      decide
    have hrole' : nextRole x (resynced x now actor a).role = (resynced x now actor a).role := by
      rw [hrole, nextRole_again]
    have hunplaced : leftUnplaced x now' actor' (resynced x now actor a) =
        leftUnplaced x now actor a := by
      rw [leftUnplaced, hrole', hmemberships, settled_again, hrole, leftUnplaced]
    have hbecomes : becomes x now' actor' (resynced x now actor a) = .stays := by
      rw [becomes, hunplaced, hmissing, hrevoked, reconcile_of_mayTouch htouch]
      exact lifecycle_again now rfl
    have ⟨hreduced, henabled⟩ := outcome_again hreview hrole' hbecomes
    rw [reconcile_of_mayTouch hagain, hbecomes, hreduced, henabled, hrole', hmemberships,
      settled_again, ← hmemberships]
    rfl
  · rw [resynced_of_untouchable htouch, resynced_of_untouchable htouch]

/-- A reconcile stays within its authority exactly where the default role does not promote. -/
theorem reconcile_within_iff (x : Sync) (now : ℤ) (actor : String) (a : Account) :
    WithinAuthority x now actor a ↔ ¬ DefaultPromotes x a := by
  constructor
  · intro h hdefault
    have hpromoted := not_within_of_default now actor hdefault
    exact hpromoted.2.2 (h.promoted hpromoted.1 hpromoted.2.1)
  · intro hdefault
    exact ⟨resynced_untouched, resynced_placed, resynced_ranked, resynced_promoted hdefault,
      resynced_demoted, resynced_alive, resynced_kept, resynced_settled⟩

def defaulting : Sync where
  settings := {
    oidcRoleMap := Table.empty RoleGrant.group
    idpGroupMap := ⟨[⟨"ops", [⟨"acme", "viewer"⟩]⟩], by decide⟩
    oidcDefaultRole := "admin"
    oidcTenantClaim := []
    breakGlassUsers := [] }
  directory := ⟨["acme"], []⟩
  groups := ["ops"]
  scope := ⟨none, true, true, false⟩
  caps := some fun _ => some ⟨none, true, true, false⟩

def viewer : Account :=
  ⟨"alice", "viewer", none, none, none, 0, 0, Table.empty Membership.tenantId⟩

/-- Under a scope that may not grant admin, the default role makes a viewer a platform admin. -/
theorem default_promotes :
    (resynced defaulting 1 "scim" viewer).role = "admin" ∧
      ¬ WithinAuthority defaulting 1 "scim" viewer := by
  have hadmin : (resynced defaulting 1 "scim" viewer).role = "admin" := by decide +kernel
  refine ⟨hadmin, fun h => ?_⟩
  have hallow := (h.promoted hadmin (by decide)).1
  exact absurd hallow (by decide)

end Authority

end Shapoclyack.IdpSync
