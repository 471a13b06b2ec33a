import Mathlib
import Shapoclyack.ArtifactSchemas
import Shapoclyack.Library.Lookups
import Shapoclyack.ScanScopes

set_option autoImplicit false

namespace Shapoclyack.ScopeDocuments

open Library ScanScopes
open ArtifactSchemas (Json FloatValue)
open ResumedBatches (Line strip isSpace)

section Validation

def isLabelChar (c : Char) : Bool := c.isAlphanum || c == '-'

def isLabel (label : Line) : Bool :=
  decide (1 ≤ label.length) && decide (label.length ≤ 63) && label.all isLabelChar &&
    label.head? != some '-' && label.getLast? != some '-'

def withoutLast (c : Char) (text : Line) : Line :=
  if text.getLast? = some c then text.dropLast else text

/-- `is_fqdn`; the pattern's end is also before a newline that ends the text. -/
def isFqdn (value : Line) : Bool :=
  !isIpOrCidr value &&
    let body := withoutLast '\n' value
    decide (body.length ≤ 253) && ((withoutLast '.' body).splitOn '.').all isLabel

inductive InvalidEntry where
  | effect (value : Line)
  | kind (value : Line)
  | notAddress (value : Line)
  | notDomain (value : Line)
  | groups (value : Json)
  | groupName (value : Json)
  | groupsOnDeny
deriving Inhabited

/-- `str` of a value, by how a value that is no text is printed. -/
def strOf (render : Json → Line) : Json → Line
  | .str value => value.toList
  | value => render value

def truthy : Json → Bool
  | .null => false
  | .bool value => value
  | .int value => value != 0
  | .float value => value != .finite 0
  | .str value => value != ""
  | .arr items => !items.isEmpty
  | .obj fields => !fields.isEmpty

variable (lower : Line → Line) (render : Json → Line)

/-- `str(entry.get(field, "")).strip()`. -/
def fieldText (entry : List (String × Json)) (field : String) : Line :=
  strip (strOf render ((entry.lookup field).getD (.str "")))

def readEffect (text : Line) : Option Effect :=
  if text = Effect.allow.text.toList then some .allow
  else if text = Effect.deny.text.toList then some .deny
  else none

def readKind (text : Line) : Option Kind :=
  if text = Kind.cidr.text.toList then some .cidr
  else if text = Kind.domain.text.toList then some .domain
  else none

/-- `normalize_name`: a lowercase group name of at most 63 characters. -/
def normalizeName (value : Json) : Except InvalidEntry Line :=
  let name := lower (strip (strOf render (if truthy value then value else .str "")))
  let body := withoutLast '\n' name
  if body.all (fun c => c.isLower || c.isDigit || c == '-') && body.head? != some '-' &&
      body != [] && decide (body.length ≤ 63) then .ok name
  else .error (.groupName value)

def storedValue (kind : Kind) (value : Line) : Except InvalidEntry Line :=
  if value = wildcard then .ok wildcard
  else match kind with
    | .cidr =>
      match isIpOrCidr value, network value with
      | true, some n => .ok n.print
      | _, _ => .error (.notAddress value)
    | .domain =>
      if isFqdn (normalizeDomain lower value) then .ok (normalizeDomain lower value)
      else .error (.notDomain value)

def groupNames (entry : List (String × Json)) : Except InvalidEntry (List Line) :=
  match (entry.lookup "agent_groups").getD .null with
  | .arr items => (items.mapM (normalizeName lower render)).map fun names =>
      names.dedup.insertionSort (· ≤ ·)
  | value => if truthy value then .error (.groups value) else .ok []

/-- `_validated`: one submitted entry, normalised. -/
def validated (entry : List (String × Json)) : Except InvalidEntry Row :=
  let effectText := lower (fieldText render entry "effect")
  let kindText := lower (fieldText render entry "kind")
  match readEffect effectText, readKind kindText with
  | none, _ => .error (.effect effectText)
  | some _, none => .error (.kind kindText)
  | some effect, some kind =>
    (storedValue lower kind (fieldText render entry "value")).bind fun value =>
      (groupNames lower render entry).bind fun names =>
        if names ≠ [] ∧ effect = .deny then .error .groupsOnDeny
        else .ok ⟨effect, kind, value, names.map String.ofList⟩

end Validation

section Document

def documentVersion : ℤ := 1

def entryDocument (effect : Effect) (kind : Kind) (value : Line) : Json :=
  .obj [("effect", .str effect.text), ("kind", .str kind.text),
    ("value", .str (String.ofList value))]

/-- The entries of a scope as they travel. -/
def documentEntries (scope : ScanScope) : List Json :=
  (scope.allowNetworks.map fun n => entryDocument .allow .cidr n.print) ++
    (scope.denyNetworks.map fun n => entryDocument .deny .cidr n.print) ++
    (scope.allowDomains.map fun name => entryDocument .allow .domain name) ++
    scope.denyDomains.map fun name => entryDocument .deny .domain name

def documentFields (scope : ScanScope) : List (String × Json) :=
  [("version", .int documentVersion), ("tenant_id", .str scope.tenantId),
    ("approved", .bool scope.approved), ("entries", .arr (documentEntries scope))]

def toDocument (scope : ScanScope) : Json := .obj (documentFields scope)

variable (lower : Line → Line) (render : Json → Line)

/-- The body of the loop of `from_document`. -/
def addEntry (scope : ScanScope) : Json → ScanScope
  | .obj entry =>
    let value := fieldText render entry "value"
    match readEffect (lower (fieldText render entry "effect")),
        readKind (lower (fieldText render entry "kind")) with
    | some effect, kind =>
      if value = [] then scope
      else match kind with
        | some .cidr => addNetworks effect (entryNetworks value) scope
        | some .domain => addDomain effect (normalizeDomain lower value) scope
        | none => scope
    | none, _ => scope
  | _ => scope

/-- `str(data.get("tenant_id") or "")`. -/
def readTenantId (data : List (String × Json)) : String :=
  let value := (data.lookup "tenant_id").getD .null
  if truthy value then String.ofList (strOf render value) else ""

/-- `from_document`, none for what is not a scope document. -/
def fromDocument : Json → Option ScanScope
  | .obj data =>
    match data.lookup "entries" with
    | some (.arr entries) =>
      some { entries.foldl (addEntry lower render) (emptyScope (readTenantId render data)) with
        approved := truthy ((data.lookup "approved").getD (.bool (!entries.isEmpty))) }
    | _ => none
  | _ => none

end Document

section Names

variable {lower : Line → Line}

/-- `str.lower` on ASCII text. -/
def LowersAscii (lower : Line → Line) : Prop :=
  ∀ text, (∀ c ∈ text, c.toNat < 128) → lower text = text.map Char.toLower

/-- A name that reading and normalising it leave as it is. -/
structure Settled (lower : Line → Line) (name : Line) : Prop where
  stripped : strip name = name
  nonempty : name ≠ []
  normalized : normalizeDomain lower name = name

def isNameChar (c : Char) : Bool := isLabelChar c || c == '.' || c == '*'

structure NameChar (c : Char) : Prop where
  ascii : c.toNat < 128
  visible : isSpace c = false
  lowered : isNameChar c.toLower = true
  idempotent : c.toLower.toLower = c.toLower
  dot : c.toLower = '.' → c = '.'

theorem nameChar {c : Char} (h : isNameChar c = true) : NameChar c := by
  have hall : ∀ code < 128, isNameChar (Char.ofNat code) = true →
      isSpace (Char.ofNat code) = false ∧ isNameChar (Char.ofNat code).toLower = true ∧
        (Char.ofNat code).toLower.toLower = (Char.ofNat code).toLower ∧
        ((Char.ofNat code).toLower = '.' → Char.ofNat code = '.') := by
    decide +kernel
  have hascii : c.toNat < 128 := by
    have hbound : ∀ code : UInt32, c.val ≤ code → c.toNat ≤ code.toNat := fun _ hc => hc
    simp only [isNameChar, isLabelChar, Char.isAlphanum, Char.isAlpha, Char.isUpper,
      Char.isLower, Char.isDigit, Bool.or_eq_true, Bool.and_eq_true, decide_eq_true_eq,
      beq_iff_eq] at h
    rcases h with ((((hupper | hlower) | hdigit) | rfl) | rfl) | rfl
    · exact (hbound _ hupper.2).trans_lt (by decide)
    · exact (hbound _ hlower.2).trans_lt (by decide)
    · exact (hbound _ hdigit.2).trans_lt (by decide)
    · decide
    · decide
    · decide
  have hc := hall c.toNat hascii
  rw [Char.ofNat_toNat] at hc
  rcases hc h with ⟨hspace, hlower, hidem, hdot⟩
  exact ⟨hascii, hspace, hlower, hidem, hdot⟩

theorem strip_of_visible {text : Line} (h : ∀ c ∈ text, isSpace c = false) :
    strip text = text := by
  rcases List.eq_nil_or_concat text with rfl | ⟨front, last, heq⟩
  · rfl
  · rcases List.exists_cons_of_ne_nil (show text ≠ [] by simp [heq]) with ⟨first, rest, hcons⟩
    rw [List.concat_eq_append] at heq
    exact strip_of_ends hcons heq (h first (by simp [hcons])) (h last (by simp [heq]))

theorem strip_newline {text : Line} (h : ∀ c ∈ text, isSpace c = false) :
    strip (text ++ ['\n']) = text := by
  cases text with
  | nil => decide
  | cons first rest =>
    have hfirst : isSpace first = false := h first List.mem_cons_self
    have hself := strip_of_visible h
    unfold strip at hself ⊢
    rw [List.cons_append, List.dropWhile_cons_of_neg (by simp [hfirst]), ← List.cons_append,
      List.rdropWhile_concat_pos isSpace _ _ (by decide)]
    rwa [List.dropWhile_cons_of_neg (by simp [hfirst])] at hself

theorem settled_of_chars (hlower : LowersAscii lower) {text : Line}
    (hchars : ∀ c ∈ text, isNameChar c = true) (hne : text ≠ [])
    (hlast : text.getLast hne ≠ '.') : Settled lower (text.map Char.toLower) := by
  have hlowered : ∀ c ∈ text.map Char.toLower, isNameChar c = true := by
    intro c hc
    rcases List.mem_map.mp hc with ⟨d, hd, rfl⟩
    exact (nameChar (hchars d hd)).lowered
  have hstrip : strip (text.map Char.toLower) = text.map Char.toLower :=
    strip_of_visible fun c hc => (nameChar (hlowered c hc)).visible
  have hdots : (text.map Char.toLower).rdropWhile (· == '.') = text.map Char.toLower := by
    rw [List.rdropWhile_eq_self_iff]
    intro _
    rw [List.getLast_map, beq_iff_eq]
    exact fun hdot => hlast ((nameChar (hchars _ (List.getLast_mem hne))).dot hdot)
  have hagain : (text.map Char.toLower).map Char.toLower = text.map Char.toLower := by
    rw [List.map_map]
    exact List.map_congr_left fun c hc => (nameChar (hchars c hc)).idempotent
  refine ⟨hstrip, by simpa using hne, ?_⟩
  unfold normalizeDomain
  rw [hstrip, hdots, hlower _ fun c hc => (nameChar (hlowered c hc)).ascii, hagain]

theorem settled_normalizeDomain (hlower : LowersAscii lower) {value body : Line}
    (hvalue : value = body ∨ value = body ++ ['\n'])
    (hchars : ∀ c ∈ body, isNameChar c = true) (hletter : ∃ c ∈ body, c ≠ '.') :
    Settled lower (normalizeDomain lower value) := by
  have hvisible : ∀ c ∈ body, isSpace c = false := fun c hc => (nameChar (hchars c hc)).visible
  have hstrip : strip value = body := by
    rcases hvalue with rfl | rfl
    · exact strip_of_visible hvisible
    · exact strip_newline hvisible
  have hbody : body.rdropWhile (· == '.') <+: body := List.rdropWhile_prefix _ _
  have hkept : ∀ c ∈ body.rdropWhile (· == '.'), isNameChar c = true := fun c hc =>
    hchars c (hbody.subset hc)
  have hne : body.rdropWhile (· == '.') ≠ [] := by
    intro hnil
    rcases hletter with ⟨c, hc, hdot⟩
    exact hdot (beq_iff_eq.mp (List.rdropWhile_eq_nil_iff.mp hnil c hc))
  have hlast := List.rdropWhile_last_not _ _ hne
  unfold normalizeDomain
  rw [hstrip, hlower _ fun c hc => (nameChar (hkept c hc)).ascii]
  exact settled_of_chars hlower hkept hne (by simpa using hlast)

theorem withoutLast_spec (c : Char) (text : Line) :
    text = withoutLast c text ∨ text = withoutLast c text ++ [c] := by
  unfold withoutLast
  split
  · rename_i hlast
    exact .inr (List.dropLast_append_getLast? c hlast).symm
  · exact .inl rfl

theorem chars_of_isFqdn {value : Line} (h : isFqdn value = true) :
    (∀ c ∈ withoutLast '\n' value, isNameChar c = true) ∧
      ∃ c ∈ withoutLast '\n' value, c ≠ '.' := by
  unfold isFqdn at h
  simp only [Bool.and_eq_true, decide_eq_true_eq] at h
  rcases h with ⟨-, -, hlabels⟩
  generalize withoutLast '\n' value = body at hlabels ⊢
  have hdotted : ∀ c ∈ withoutLast '.' body, isNameChar c = true := by
    intro c hc
    have hjoin : ['.'].intercalate ((withoutLast '.' body).splitOn '.') = withoutLast '.' body :=
      List.intercalate_splitOn '.'
    rw [← hjoin] at hc
    rcases mem_of_mem_intercalate hc with rfl | ⟨label, hlabel, hmem⟩
    · decide
    · have hchar := List.all_eq_true.mp hlabels label hlabel
      unfold isLabel at hchar
      simp only [Bool.and_eq_true, List.all_eq_true] at hchar
      unfold isNameChar
      rw [hchar.1.1.2 c hmem]
      rfl
  have hletter : ∃ c ∈ withoutLast '.' body, c ≠ '.' := by
    cases hcase : withoutLast '.' body with
    | nil =>
      rw [hcase] at hlabels
      exact absurd hlabels (by decide)
    | cons first rest =>
      refine ⟨first, List.mem_cons_self, ?_⟩
      rintro rfl
      have hsplit : ('.' :: rest).splitOn '.' = [] :: rest.splitOn '.' :=
        List.splitOn_append_cons_self [] rest
      rw [hcase, hsplit, List.all_cons] at hlabels
      simp [isLabel] at hlabels
  rcases withoutLast_spec '.' body with heq | heq
  · rw [heq]
    exact ⟨hdotted, hletter⟩
  · rw [heq]
    refine ⟨?_, hletter.imp fun _ hc => ⟨List.mem_append_left _ hc.1, hc.2⟩⟩
    rw [List.forall_mem_append, List.forall_mem_singleton]
    exact ⟨hdotted, by decide⟩

end Names

section Rebuilding

variable {lower : Line → Line} {render : Json → Line}

theorem LowersAscii.of_all (hlower : LowersAscii lower) {text : Line}
    (h : (text.all fun c => decide (c.toNat < 128)) = true) :
    lower text = text.map Char.toLower :=
  hlower text fun c hc => of_decide_eq_true (List.all_eq_true.mp h c hc)

theorem readEffect_text (hlower : LowersAscii lower) (effect : Effect) :
    readEffect (lower (strip effect.text.toList)) = some effect := by
  cases effect with
  | allow =>
    rw [hlower.of_all (by decide +kernel)]
    decide +kernel
  | deny =>
    rw [hlower.of_all (by decide +kernel)]
    decide +kernel

theorem readKind_text (hlower : LowersAscii lower) (kind : Kind) :
    readKind (lower (strip kind.text.toList)) = some kind := by
  cases kind with
  | cidr =>
    rw [hlower.of_all (by decide +kernel)]
    decide +kernel
  | domain =>
    rw [hlower.of_all (by decide +kernel)]
    decide +kernel

theorem addEntry_entryDocument (hlower : LowersAscii lower) (scope : ScanScope) (effect : Effect)
    (kind : Kind) {value : Line} (hstrip : strip value = value) (hne : value ≠ []) :
    addEntry lower render scope (entryDocument effect kind value) =
      addRow lower scope ⟨effect, kind, value, []⟩ := by
  have heffect := readEffect_text hlower effect
  have hkind := readKind_text hlower kind
  unfold entryDocument addEntry
  have hvalue : fieldText render [("effect", .str effect.text), ("kind", .str kind.text),
      ("value", .str (String.ofList value))] "value" = value := by
    simpa [fieldText, strOf, List.lookup] using hstrip
  have heffectText : fieldText render [("effect", .str effect.text), ("kind", .str kind.text),
      ("value", .str (String.ofList value))] "effect" = strip effect.text.toList := by
    simp [fieldText, strOf, List.lookup]
  have hkindText : fieldText render [("effect", .str effect.text), ("kind", .str kind.text),
      ("value", .str (String.ofList value))] "kind" = strip kind.text.toList := by
    simp [fieldText, strOf, List.lookup]
  simp only [hvalue, heffectText, hkindText, heffect, hkind, if_neg hne]
  cases kind with
  | cidr => rfl
  | domain => rfl

theorem entryNetworks_print (n : Network) : entryNetworks n.print = [n] := by
  have hwild : n.print ≠ wildcard := by
    intro heq
    rcases print_head n with ⟨c, rest, hcons, hc⟩
    rw [heq] at hcons
    obtain rfl : c = '*' := (List.cons.inj hcons).1.symm
    revert hc
    decide
  unfold entryNetworks
  rw [if_neg hwild, network_print]
  rfl

def documentRows (scope : ScanScope) : List Row :=
  (scope.allowNetworks.map fun n => ⟨.allow, .cidr, n.print, []⟩) ++
    (scope.denyNetworks.map fun n => ⟨.deny, .cidr, n.print, []⟩) ++
    (scope.allowDomains.map fun name => ⟨.allow, .domain, name, []⟩) ++
    scope.denyDomains.map fun name => ⟨.deny, .domain, name, []⟩

def rowDocument (row : Row) : Json := entryDocument row.effect row.kind row.value

theorem documentEntries_eq (scope : ScanScope) :
    documentEntries scope = (documentRows scope).map rowDocument := by
  simp [documentEntries, documentRows, rowDocument, Function.comp_def]

theorem foldl_addEntry (hlower : LowersAscii lower) {rows : List Row}
    (hrows : ∀ row ∈ rows, strip row.value = row.value ∧ row.value ≠ []) (scope : ScanScope) :
    (rows.map rowDocument).foldl (addEntry lower render) scope =
      rows.foldl (addRow lower) scope := by
  induction rows generalizing scope with
  | nil => rfl
  | cons row rest ih =>
    rcases List.forall_mem_cons.mp hrows with ⟨⟨hstrip, hne⟩, hrest⟩
    rw [List.map_cons, List.foldl_cons, List.foldl_cons]
    have hrow := @addEntry_entryDocument lower render hlower scope row.effect row.kind row.value
      hstrip hne
    rw [show rowDocument row = entryDocument row.effect row.kind row.value from rfl, hrow]
    exact ih hrest _

theorem print_ne_nil (n : Network) : n.print ≠ [] := by
  rcases print_head n with ⟨c, rest, hcons, -⟩
  simp [hcons]

def SettledNames (lower : Line → Line) (scope : ScanScope) : Prop :=
  (∀ name ∈ scope.allowDomains, Settled lower name) ∧
    ∀ name ∈ scope.denyDomains, Settled lower name

theorem documentRows_readable {scope : ScanScope} (h : SettledNames lower scope) :
    ∀ row ∈ documentRows scope, strip row.value = row.value ∧ row.value ≠ [] := by
  unfold documentRows
  simp only [List.forall_mem_append, List.forall_mem_map]
  exact ⟨⟨⟨fun n _ => ⟨strip_print n, print_ne_nil n⟩, fun n _ => ⟨strip_print n, print_ne_nil n⟩⟩,
    fun name hname => ⟨(h.1 name hname).stripped, (h.1 name hname).nonempty⟩⟩,
    fun name hname => ⟨(h.2 name hname).stripped, (h.2 name hname).nonempty⟩⟩

theorem flatMap_nil {α β : Type} (items : List α) : items.flatMap (fun _ => ([] : List β)) = [] :=
  List.flatMap_eq_nil_iff.mpr fun _ _ => rfl

theorem networks_documentRows (scope : ScanScope) :
    (documentRows scope).flatMap (rowNetworks .allow) = scope.allowNetworks ∧
      (documentRows scope).flatMap (rowNetworks .deny) = scope.denyNetworks := by
  unfold documentRows
  simp only [List.flatMap_append, List.flatMap_map, rowNetworks, entryNetworks_print]
  simp [flatMap_nil]

theorem domains_documentRows {scope : ScanScope} (h : SettledNames lower scope) :
    (documentRows scope).flatMap (rowDomains lower .allow) = scope.allowDomains ∧
      (documentRows scope).flatMap (rowDomains lower .deny) = scope.denyDomains := by
  have hnames : ∀ names : List Line, (∀ name ∈ names, Settled lower name) →
      (names.flatMap fun name => [normalizeDomain lower name]) = names := by
    intro names hsettled
    induction names with
    | nil => rfl
    | cons name rest ih =>
      rcases List.forall_mem_cons.mp hsettled with ⟨hname, hrest⟩
      rw [List.flatMap_cons, hname.normalized, ih hrest]
      rfl
  unfold documentRows
  simp only [List.flatMap_append, List.flatMap_map, rowDomains]
  constructor
  · simpa [flatMap_nil] using hnames _ h.1
  · simpa [flatMap_nil] using hnames _ h.2

theorem readTenantId_toDocument (scope : ScanScope) :
    readTenantId render (documentFields scope) = scope.tenantId := by
  have hlookup : (documentFields scope).lookup "tenant_id" = some (.str scope.tenantId) := rfl
  unfold readTenantId
  rw [hlookup]
  by_cases hempty : scope.tenantId = ""
  · simp [truthy, hempty]
  · simp [truthy, strOf, hempty]

/-- A scope with settled names is rebuilt from its document. -/
theorem fromDocument_toDocument (hlower : LowersAscii lower) {scope : ScanScope}
    (h : SettledNames lower scope) :
    fromDocument lower render (toDocument scope) = some scope := by
  have hfold := @foldl_addEntry lower render hlower _ (documentRows_readable h)
    (emptyScope scope.tenantId)
  rw [← documentEntries_eq, foldl_addRow, (networks_documentRows scope).1,
    (networks_documentRows scope).2, (domains_documentRows h).1,
    (domains_documentRows h).2] at hfold
  have htenant := @readTenantId_toDocument render scope
  have hentries : (documentFields scope).lookup "entries" =
      some (.arr (documentEntries scope)) := rfl
  have happroved : (documentFields scope).lookup "approved" = some (.bool scope.approved) := rfl
  unfold toDocument fromDocument
  simp only [hentries, happroved, htenant, hfold]
  rfl

theorem value_of_stored {text value : Line}
    (h : storedValue lower .domain text = .ok value) : value = wildcard ∨ isFqdn value = true := by
  unfold storedValue at h
  split at h
  · exact .inl (Except.ok.inj h).symm
  · simp only at h
    split at h
    · rename_i hfqdn
      exact .inr (Except.ok.inj h ▸ hfqdn)
    · cases h

theorem value_of_validated {entry : List (String × Json)} {row : Row}
    (h : validated lower render entry = .ok row) (hkind : row.kind = .domain) :
    row.value = wildcard ∨ isFqdn row.value = true := by
  unfold validated at h
  simp only at h
  split at h
  · cases h
  · cases h
  · rename_i effect kind _ _
    cases hstored : storedValue lower kind (fieldText render entry "value") with
    | error refused => simp [hstored, Except.bind] at h
    | ok value =>
      rw [hstored] at h
      cases hnames : groupNames lower render entry with
      | error refused => simp [hnames, Except.bind] at h
      | ok names =>
        simp only [hnames, Except.bind] at h
        split at h
        · cases h
        · obtain rfl := Except.ok.inj h
          obtain rfl : kind = .domain := hkind
          exact value_of_stored hstored

theorem settledNames_scopeFromRows (hlower : LowersAscii lower) (tenantId : String)
    {rows : List Row} (hrows : ∀ row ∈ rows, row.kind = .domain →
      row.value = wildcard ∨ isFqdn row.value = true) :
    SettledNames lower (scopeFromRows lower tenantId rows) := by
  have hname : ∀ row ∈ rows, row.kind = .domain →
      Settled lower (normalizeDomain lower row.value) := by
    intro row hrow hkind
    rcases hrows row hrow hkind with hwild | hfqdn
    · rw [hwild]
      refine settled_normalizeDomain hlower (.inl rfl) ?_
        ⟨'*', List.mem_singleton_self _, by decide⟩
      intro c hc
      rw [List.mem_singleton.mp hc]
      decide
    · rcases chars_of_isFqdn hfqdn with ⟨hchars, hletter⟩
      exact settled_normalizeDomain hlower (withoutLast_spec _ _) hchars hletter
  have hdomains : ∀ effect, ∀ name ∈ rows.flatMap (rowDomains lower effect),
      Settled lower name := by
    intro effect name hmem
    rcases List.mem_flatMap.mp hmem with ⟨row, hrow, hin⟩
    unfold rowDomains at hin
    split at hin
    · rename_i hkind
      rw [List.mem_singleton.mp hin]
      exact hname row hrow hkind.1
    · cases hin
  rw [scopeFromRows_eq]
  exact ⟨hdomains .allow, hdomains .deny⟩

/-- The scope that the scanner rebuilds from the document answers as the stored rows do. -/
theorem rebuilt_scope_agrees (lower : Line → Line) (hlower : LowersAscii lower)
    (render : Json → Line) (tenantId : String) (rows : List Row)
    (hrows : ∀ row ∈ rows, ∃ entry, validated lower render entry = .ok row) :
    ∃ rebuilt, fromDocument lower render (toDocument (scopeFromRows lower tenantId rows)) =
        some rebuilt ∧
      rebuilt.approved = (scopeFromRows lower tenantId rows).approved ∧
      (∀ value, rebuilt.rejectsNetwork value =
        (scopeFromRows lower tenantId rows).rejectsNetwork value) ∧
      ∀ value, rebuilt.rejectsDomain lower value =
        (scopeFromRows lower tenantId rows).rejectsDomain lower value := by
  have hsettled := settledNames_scopeFromRows hlower tenantId fun row hrow hkind =>
    (hrows row hrow).elim fun _ hvalid => value_of_validated hvalid hkind
  exact ⟨_, fromDocument_toDocument hlower hsettled, rfl, fun _ => rfl, fun _ => rfl⟩

theorem ok_of_toOption {ε α : Type} {outcome : Except ε α} {value : α}
    (h : outcome.toOption = some value) : outcome = .ok value := by
  cases outcome with
  | error _ => cases h
  | ok _ => exact congrArg Except.ok (Option.some.inj h)

def submitted (effect kind value : String) : List (String × Json) :=
  [("effect", .str effect), ("kind", .str kind), ("value", .str value)]

def storedRows : List Row :=
  [⟨.allow, .cidr, "10.0.0.0/8".toList, []⟩, ⟨.allow, .domain, ['*'], []⟩,
    ⟨.deny, .domain, "www.example.com".toList, []⟩]

theorem storedRows_agree : ∃ rebuilt,
    fromDocument (List.map Char.toLower) (fun _ => [])
        (toDocument (scopeFromRows (List.map Char.toLower) "t1" storedRows)) = some rebuilt ∧
      rebuilt.approved = (scopeFromRows (List.map Char.toLower) "t1" storedRows).approved ∧
      (∀ value, rebuilt.rejectsNetwork value =
        (scopeFromRows (List.map Char.toLower) "t1" storedRows).rejectsNetwork value) ∧
      ∀ value, rebuilt.rejectsDomain (List.map Char.toLower) value =
        (scopeFromRows (List.map Char.toLower) "t1" storedRows).rejectsDomain
          (List.map Char.toLower) value := by
  refine rebuilt_scope_agrees (List.map Char.toLower) (fun _ _ => rfl) (fun _ => []) "t1"
    storedRows ?_
  unfold storedRows
  simp only [List.forall_mem_cons, List.not_mem_nil, false_implies, implies_true, and_true]
  exact ⟨⟨submitted "allow" "cidr" "10.1.2.3/8", ok_of_toOption (by decide +kernel)⟩,
    ⟨submitted "allow" "domain" "*", ok_of_toOption (by decide +kernel)⟩,
    ⟨submitted "deny" "domain" "WWW.Example.com.", ok_of_toOption (by decide +kernel)⟩⟩

end Rebuilding

end Shapoclyack.ScopeDocuments
