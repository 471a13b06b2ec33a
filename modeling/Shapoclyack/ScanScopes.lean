import Shapoclyack.Library.IpNetworks
import Shapoclyack.ResumedBatches

set_option autoImplicit false

namespace Shapoclyack.ScanScopes

open Library
open ResumedBatches (Line strip readLines isContent isSpace isSpace_of_printable)

section Rows

inductive Effect where
  | allow
  | deny
deriving DecidableEq, Repr

inductive Kind where
  | cidr
  | domain
deriving DecidableEq, Repr

def Effect.text : Effect → String
  | .allow => "allow"
  | .deny => "deny"

def Kind.text : Kind → String
  | .cidr => "cidr"
  | .domain => "domain"

/-- A row of `tenant_scan_scopes`. -/
structure Row where
  effect : Effect
  kind : Kind
  value : Line
  agentGroups : List String
deriving DecidableEq

def wildcard : Line := ['*']

def splitTargetLines : Option Line → List Line
  | none => []
  | some text =>
    (readLines text).flatMap fun line => ((line.splitOn ',').map strip).filter isContent

/-- `normalize_domain`, by what `str.lower` makes of a text. -/
def normalizeDomain (lower : Line → Line) (value : Line) : Line :=
  lower ((strip value).rdropWhile (· == '.'))

/-- `is_ip_or_cidr`, for which an address alone is a network of one. -/
def isIpOrCidr (value : Line) : Bool := (ipNetwork value).isSome

/-- `_network`, none where it raises. -/
def network (value : Line) : Option Network := ipNetwork (strip value)

theorem toNat_of_addressChar {c : Char} (h : c = '.' ∨ c = ':' ∨ (hexDigit c).isSome) :
    (46 ≤ c.toNat ∧ c.toNat ≤ 58) ∨ (65 ≤ c.toNat ∧ c.toNat ≤ 70) ∨
      (97 ≤ c.toNat ∧ c.toNat ≤ 102) := by
  rcases h with rfl | rfl | h
  · decide
  · decide
  · have hbetween : ∀ first last : Char, first ≤ c ∧ c ≤ last →
        first.toNat ≤ c.toNat ∧ c.toNat ≤ last.toNat := fun _ _ hc => hc
    unfold hexDigit at h
    split at h
    · rename_i hc
      have := hbetween '0' '9' hc
      simp only [Char.reduceToNat] at this
      omega
    · split at h
      · rename_i hc
        exact .inr (.inr (hbetween 'a' 'f' hc))
      · split at h
        · rename_i hc
          exact .inr (.inl (hbetween 'A' 'F' hc))
        · cases h

theorem isSpace_of_addressChar {c : Char} (h : c = '.' ∨ c = ':' ∨ (hexDigit c).isSome) :
    isSpace c = false := by
  have hrange := toNat_of_addressChar h
  exact isSpace_of_printable (by omega)

theorem strip_of_ends {first last : Char} {rest front : Line} {value : Line}
    (hfirst : value = first :: rest) (hlast : value = front ++ [last])
    (hhead : isSpace first = false) (hend : isSpace last = false) : strip value = value := by
  have hdrop : value.dropWhile isSpace = value := by
    rw [hfirst]
    exact List.dropWhile_cons_of_neg (by simp [hhead])
  unfold strip
  rw [hdrop, hlast]
  exact List.rdropWhile_concat_neg isSpace front last (by simp [hend])

theorem strip_print (n : Network) : strip n.print = n.print := by
  rcases print_head n with ⟨first, rest, hfirst, hhead⟩
  rcases print_last n with ⟨front, last, hlast, hend⟩
  exact strip_of_ends hfirst hlast (isSpace_of_addressChar hhead)
    (isSpace_of_addressChar (.inr (.inr (isSome_hexDigit_of_decDigit hend))))

theorem network_print (n : Network) : network n.print = some n := by
  unfold network
  rw [strip_print, ipNetwork_print]

/-- The two ranges that `*` stands for. -/
def everyAddress : List Network := ["0.0.0.0/0".toList, "::/0".toList].filterMap network

end Rows

section Scope

/-- One tenant's approved scope, in a form that can be matched. -/
structure ScanScope where
  tenantId : String
  allowNetworks : List Network
  denyNetworks : List Network
  allowDomains : List Line
  denyDomains : List Line
  approved : Bool
deriving DecidableEq

def suffixMatches (name entry : Line) : Bool :=
  entry == wildcard || name == entry || ('.' :: entry).isSuffixOf name

def deniedBy (entry : Line) : Line := "denied by ".toList ++ entry

def ScanScope.rejectsNetwork (scope : ScanScope) (value : Line) : Option Line :=
  match network value with
  | none => some "not an IP or CIDR".toList
  | some target =>
    match scope.denyNetworks.find? fun denied =>
        denied.version = target.version ∧ target.Overlaps denied with
    | some denied => some (deniedBy denied.print)
    | none =>
      if scope.allowNetworks.any fun allowed =>
          allowed.version = target.version ∧ target.SubnetOf allowed then none
      else some "not inside any allowed range".toList

def ScanScope.rejectsDomain (lower : Line → Line) (scope : ScanScope) (value : Line) :
    Option Line :=
  match scope.denyDomains.find? (suffixMatches (normalizeDomain lower value)) with
  | some denied => some (deniedBy denied)
  | none =>
    if scope.allowDomains.any (suffixMatches (normalizeDomain lower value)) then none
    else some "not under any allowed domain".toList

structure ScanScopeDenied where
  message : String
  targets : List Line

def sample (values : List Line) : String :=
  let more := if 8 < values.length then s!" (+{values.length - 8} more)" else ""
  String.intercalate ", " ((values.take 8).map String.ofList) ++ more

def ScanScope.requireApproved (scope : ScanScope) : Except ScanScopeDenied Unit :=
  if scope.approved then .ok ()
  else .error
    ⟨s!"tenant {scope.tenantId} has no approved scan scope: an admin must " ++
      s!"approve one (PUT /api/tenants/{scope.tenantId}/scan-scope) before " ++
      "any scan can start", []⟩

def refusal (target reason : Line) : Line := target ++ " (".toList ++ reason ++ [')']

/-- The target and the reason, for every target the scope refuses. -/
def ScanScope.rejections (lower : Line → Line) (scope : ScanScope) (ranges domains : List Line) :
    List Line :=
  (ranges.filterMap fun item => (scope.rejectsNetwork item).map (refusal item)) ++
    domains.filterMap fun item => (scope.rejectsDomain lower item).map (refusal item)

def ScanScope.check (lower : Line → Line) (scope : ScanScope) (ranges domains : List Line) :
    Except ScanScopeDenied Unit :=
  scope.requireApproved.bind fun _ =>
    let refused := scope.rejections lower ranges domains
    if refused = [] then .ok ()
    else .error
      ⟨s!"targets outside the approved scan scope of tenant {scope.tenantId}: " ++ sample refused,
        refused⟩

variable {lower : Line → Line} {scope : ScanScope}

/-- A range is in scope when no denied range overlaps it and an allowed one holds all of it. -/
theorem rejectsNetwork_eq_none {value : Line} {target : Network}
    (hread : network value = some target) :
    scope.rejectsNetwork value = none ↔
      (∀ denied ∈ scope.denyNetworks, denied.version = target.version →
        ¬ target.Overlaps denied) ∧
      ∃ allowed ∈ scope.allowNetworks, allowed.version = target.version ∧
        target.SubnetOf allowed := by
  unfold ScanScope.rejectsNetwork
  rw [hread]
  simp only
  split
  · rename_i denied hfind
    have hdenied := List.find?_some hfind
    have hmem := List.mem_of_find?_eq_some hfind
    simp only [decide_eq_true_eq] at hdenied
    constructor
    · intro h
      cases h
    · intro h
      exact absurd hdenied.2 (h.1 denied hmem hdenied.1)
  · rename_i hfind
    have hnone : ∀ denied ∈ scope.denyNetworks, denied.version = target.version →
        ¬ target.Overlaps denied := by
      simpa using hfind
    split
    · rename_i hany
      have hallowed : ∃ allowed ∈ scope.allowNetworks, allowed.version = target.version ∧
          target.SubnetOf allowed := by
        simpa using hany
      exact ⟨fun _ => ⟨hnone, hallowed⟩, fun _ => rfl⟩
    · rename_i hany
      constructor
      · intro h
        cases h
      · rintro ⟨-, hallowed⟩
        exact absurd (by simpa using hallowed) hany

theorem rejectsDomain_eq_none {value : Line} :
    scope.rejectsDomain lower value = none ↔
      (∀ denied ∈ scope.denyDomains,
        suffixMatches (normalizeDomain lower value) denied = false) ∧
      ∃ allowed ∈ scope.allowDomains,
        suffixMatches (normalizeDomain lower value) allowed = true := by
  unfold ScanScope.rejectsDomain
  generalize normalizeDomain lower value = name
  split
  · rename_i denied hfind
    have hdenied := List.find?_some hfind
    have hmem := List.mem_of_find?_eq_some hfind
    constructor
    · intro h
      cases h
    · intro h
      rw [h.1 denied hmem] at hdenied
      cases hdenied
  · rename_i hfind
    have hnone : ∀ denied ∈ scope.denyDomains, suffixMatches name denied = false := fun denied hd =>
      Bool.eq_false_of_not_eq_true (List.find?_eq_none.mp hfind denied hd)
    split
    · rename_i hany
      exact ⟨fun _ => ⟨hnone, List.any_eq_true.mp hany⟩, fun _ => rfl⟩
    · rename_i hany
      constructor
      · intro h
        cases h
      · rintro ⟨-, hallowed⟩
        exact absurd (List.any_eq_true.mpr hallowed) hany

theorem check_ok_iff {ranges domains : List Line} :
    scope.check lower ranges domains = .ok () ↔
      scope.approved = true ∧ (∀ item ∈ ranges, scope.rejectsNetwork item = none) ∧
        ∀ item ∈ domains, scope.rejectsDomain lower item = none := by
  have hrefused : scope.rejections lower ranges domains = [] ↔
      (∀ item ∈ ranges, scope.rejectsNetwork item = none) ∧
        ∀ item ∈ domains, scope.rejectsDomain lower item = none := by
    simp [ScanScope.rejections, List.filterMap_eq_nil_iff]
  unfold ScanScope.check ScanScope.requireApproved
  cases scope.approved with
  | false => simp [Except.bind]
  | true =>
    by_cases h : scope.rejections lower ranges domains = []
    · simpa [Except.bind, h] using hrefused.mp h
    · have hnot := fun hall => h (hrefused.mpr hall)
      simpa [Except.bind, h] using hnot

end Scope

section FromRows

def emptyScope (tenantId : String) : ScanScope := ⟨tenantId, [], [], [], [], false⟩

def addNetworks (effect : Effect) (networks : List Network) (scope : ScanScope) : ScanScope :=
  match effect with
  | .allow => { scope with allowNetworks := scope.allowNetworks ++ networks }
  | .deny => { scope with denyNetworks := scope.denyNetworks ++ networks }

def addDomain (effect : Effect) (name : Line) (scope : ScanScope) : ScanScope :=
  match effect with
  | .allow => { scope with allowDomains := scope.allowDomains ++ [name] }
  | .deny => { scope with denyDomains := scope.denyDomains ++ [name] }

/-- What an entry of kind `cidr` is matched as; one that cannot be read is left out. -/
def entryNetworks (value : Line) : List Network :=
  if value = wildcard then everyAddress else (network value).toList

/-- The body of the loop of `_scope_from_rows`. -/
def addRow (lower : Line → Line) (scope : ScanScope) (row : Row) : ScanScope :=
  match row.kind with
  | .cidr => addNetworks row.effect (entryNetworks row.value) scope
  | .domain => addDomain row.effect (normalizeDomain lower row.value) scope

def scopeFromRows (lower : Line → Line) (tenantId : String) (rows : List Row) : ScanScope :=
  { rows.foldl (addRow lower) (emptyScope tenantId) with approved := !rows.isEmpty }

def rowNetworks (effect : Effect) (row : Row) : List Network :=
  if row.kind = .cidr ∧ row.effect = effect then entryNetworks row.value else []

def rowDomains (lower : Line → Line) (effect : Effect) (row : Row) : List Line :=
  if row.kind = .domain ∧ row.effect = effect then [normalizeDomain lower row.value] else []

variable {lower : Line → Line}

theorem foldl_addRow (rows : List Row) (scope : ScanScope) :
    rows.foldl (addRow lower) scope =
      { scope with
        allowNetworks := scope.allowNetworks ++ rows.flatMap (rowNetworks .allow)
        denyNetworks := scope.denyNetworks ++ rows.flatMap (rowNetworks .deny)
        allowDomains := scope.allowDomains ++ rows.flatMap (rowDomains lower .allow)
        denyDomains := scope.denyDomains ++ rows.flatMap (rowDomains lower .deny) } := by
  induction rows generalizing scope with
  | nil => simp
  | cons row rest ih =>
    rcases row with ⟨effect, kind, value, groups⟩
    rw [List.foldl_cons, ih]
    cases effect <;> cases kind <;>
      simp [addRow, addNetworks, addDomain, rowNetworks, rowDomains]

/-- The scope as lists over the rows. -/
theorem scopeFromRows_eq (tenantId : String) (rows : List Row) :
    scopeFromRows lower tenantId rows =
      { tenantId := tenantId
        allowNetworks := rows.flatMap (rowNetworks .allow)
        denyNetworks := rows.flatMap (rowNetworks .deny)
        allowDomains := rows.flatMap (rowDomains lower .allow)
        denyDomains := rows.flatMap (rowDomains lower .deny)
        approved := !rows.isEmpty } := by
  unfold scopeFromRows
  rw [foldl_addRow]
  rfl

theorem mem_rowNetworks {effect : Effect} {rows : List Row} {n : Network} :
    n ∈ rows.flatMap (rowNetworks effect) ↔
      ∃ row ∈ rows, row.kind = .cidr ∧ row.effect = effect ∧ n ∈ entryNetworks row.value := by
  rw [List.mem_flatMap]
  constructor
  · rintro ⟨row, hrow, hn⟩
    unfold rowNetworks at hn
    split at hn
    · rename_i h
      exact ⟨row, hrow, h.1, h.2, hn⟩
    · cases hn
  · rintro ⟨row, hrow, hkind, heffect, hn⟩
    refine ⟨row, hrow, ?_⟩
    unfold rowNetworks
    rwa [if_pos ⟨hkind, heffect⟩]

end FromRows

end Shapoclyack.ScanScopes
