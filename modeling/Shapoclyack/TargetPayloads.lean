import Mathlib
import Shapoclyack.ScopeDocuments

set_option autoImplicit false

namespace Shapoclyack.TargetPayloads

open Library ScanScopes
open ScopeDocuments (isFqdn)
open ResumedBatches (Line strip isSpace isContent)

section Tokens

/-- The standard library's reading of port text. -/
structure PortText where
  /-- The value of what `\d` matches. -/
  decimal : Char → Option ℕ
  isdigit : Line → Bool
  /-- `int`, none where it raises. -/
  int : Line → Option ℤ
  lower : Line → Line

variable (lib : PortText)

/-- `\d{1,5}`, the whole text. -/
def isPort (text : Line) : Bool :=
  decide (1 ≤ text.length) && decide (text.length ≤ 5) && text.all fun c => (lib.decimal c).isSome

/-- `value.removeprefix(start)`. -/
def removePrefix (start value : Line) : Line :=
  if start.isPrefixOf value then value.drop start.length else value

/-- `value.partition("-")`, none where there is no hyphen. -/
def cutHyphen (value : Line) : Option (Line × Line) :=
  if '-' ∈ value then
    some (value.takeWhile (· != '-'), (value.dropWhile (· != '-')).drop 1)
  else none

/-- `_PORT_TOKEN_RE.fullmatch`: the texts of a token's first and last port. -/
def matchPort (token : Line) : Option (Line × Line) :=
  let body := removePrefix "u:".toList token
  match cutHyphen body with
  | some (lo, hi) => if isPort lib lo && isPort lib hi then some (lo, hi) else none
  | none => if isPort lib body then some (body, body) else none

def validPortToken (token : Line) : Bool :=
  match matchPort lib token with
  | none => false
  | some (lo, hi) =>
    match lib.int lo, lib.int hi with
    | some first, some last =>
      decide (1 ≤ first ∧ first ≤ 65535 ∧ 1 ≤ last ∧ last ≤ 65535 ∧ first ≤ last)
    | _, _ => false

def normalizePortToken (token : Line) (udp : Bool) : Line :=
  if udp then removePrefix "u:".toList token else token

end Tokens

section Payload

/-- Validated target overrides; a field that is none keeps the server's own file. -/
structure ParsedTargets where
  ranges : Option (List Line)
  domains : Option (List Line)
  ports : Option (List Line)
  portsUdp : Option (List Line)
deriving DecidableEq

/-- What a payload is refused with. -/
inductive PayloadError where
  | denied (denial : ScanScopeDenied)
  | value (message : String)

/-- `sorted(set(values))`. -/
def sortedSet (values : List Line) : List Line := values.dedup.insertionSort (· ≤ ·)

def rejectedTargets (lib : PortText) (ranges domains ports portsUdp : List Line) : List Line :=
  ranges.filter (fun item => !isIpOrCidr item) ++ (domains.filter (fun item => !isFqdn item) ++
    (ports.filter (fun item => !validPortToken lib item) ++
      portsUdp.filter fun item => !validPortToken lib item))

def parseTargetPayload (lib : PortText) (scope : ScanScope)
    (rangesText domainsText portsText portsUdpText : Option Line) :
    Except PayloadError (Option ParsedTargets) :=
  match scope.requireApproved with
  | .error denial => .error (.denied denial)
  | .ok _ =>
    let rangesRaw := splitTargetLines rangesText
    let domainsRaw := splitTargetLines domainsText
    let portsRaw := splitTargetLines portsText
    let portsUdpRaw := splitTargetLines portsUdpText
    let hostOverride := rangesRaw ≠ [] ∨ domainsRaw ≠ []
    if ¬hostOverride ∧ portsRaw = [] ∧ portsUdpRaw = [] then .ok none
    else
      let rejected := rejectedTargets lib rangesRaw domainsRaw portsRaw portsUdpRaw
      if rejected ≠ [] then .error (.value ("invalid scan targets: " ++ sample rejected))
      else
        let domains := domainsRaw.map fun item => item.rdropWhile (· == '.')
        match scope.check lib.lower rangesRaw domains with
        | .error denial => .error (.denied denial)
        | .ok _ => .ok (some {
            ranges := if hostOverride then some (sortedSet rangesRaw) else none
            domains := if hostOverride then some (sortedSet domains) else none
            ports := if portsRaw ≠ [] then
              some (sortedSet (portsRaw.map fun item => normalizePortToken item false)) else none
            portsUdp := if portsUdpRaw ≠ [] then
              some (sortedSet (portsUdpRaw.map fun item => normalizePortToken item true))
            else none })

end Payload

section Avoided

variable (lib : PortText)

/-- `_note_port`, none where `int` raises. -/
def notePort (item : Line) (avoid named : Finset ℤ) : Option (Finset ℤ) :=
  match cutHyphen item with
  | some (lo, hi) =>
    if lib.isdigit lo && lib.isdigit hi then
      match lib.int lo, lib.int hi with
      | some first, some last =>
        if 0 < first ∧ first ≤ last ∧ last ≤ 65535 then
          some (named ∪ avoid.filter fun port => first ≤ port ∧ port ≤ last)
        else some named
      | _, _ => none
    else some named
  | none =>
    if lib.isdigit item then
      match lib.int item with
      | some port => if port ∈ avoid then some (insert port named) else some named
      | none => none
    else some named

/-- `entry.split()`. -/
def words (entry : Line) : List Line := (entry.splitOnP isSpace).filter (· ≠ [])

/-- The chunks of an entry before a comment. -/
def chunksOf (entry : Line) : List Line :=
  (words entry).takeWhile fun chunk => chunk.head? != some '#'

def noteChunk (avoid named : Finset ℤ) (chunk : Line) : Option (Finset ℤ) :=
  let item := removePrefix "t:".toList (removePrefix "u:".toList (lib.lower (strip chunk)))
  if item = [] then some named else notePort lib item avoid named

/-- `_forbidden_ports`: the avoided ports that a request names. -/
def forbiddenPorts (text : Option Line) (avoid : Finset ℤ) : Option (Finset ℤ) :=
  ((splitTargetLines text).flatMap chunksOf).foldlM (noteChunk lib avoid) ∅

end Avoided

section Agreement

/-- What the standard library documents of decimal digits: they make numbers up for `str.isdigit`
too, are no separators, and have no case. -/
structure Documented (lib : PortText) : Prop where
  isdigit : ∀ text, text ≠ [] → (∀ c ∈ text, (lib.decimal c).isSome) → lib.isdigit text = true
  plain : ∀ c, (lib.decimal c).isSome →
    isSpace c = false ∧ c ≠ '-' ∧ c ≠ '#' ∧ c ≠ 'u' ∧ c ≠ 't'
  lower : ∀ text, (∀ c ∈ text, (lib.decimal c).isSome ∨ c = 'u' ∨ c = ':' ∨ c = '-') →
    lib.lower text = text

variable {lib : PortText}

/-- The ports that a token stands for. -/
def Denotes (lib : PortText) (token : Line) (port : ℤ) : Prop :=
  ∃ lo hi first last, matchPort lib token = some (lo, hi) ∧ lib.int lo = some first ∧
    lib.int hi = some last ∧ first ≤ port ∧ port ≤ last

theorem isPort_spec {text : Line} (h : isPort lib text = true) :
    text ≠ [] ∧ ∀ c ∈ text, (lib.decimal c).isSome := by
  simp only [isPort, Bool.and_eq_true, decide_eq_true_eq, List.all_eq_true] at h
  refine ⟨?_, h.2⟩
  rintro rfl
  exact absurd h.1.1 (by decide)

theorem cutHyphen_some {value lo hi : Line} (h : cutHyphen value = some (lo, hi)) :
    value = lo ++ '-' :: hi := by
  unfold cutHyphen at h
  split_ifs at h with hmem
  have hpair := Option.some.inj h
  simp only [Prod.mk.injEq] at hpair
  have hne : value.dropWhile (· != '-') ≠ [] := by
    rw [Ne, List.dropWhile_eq_nil_iff]
    intro hall
    exact absurd (hall '-' hmem) (by decide)
  have hhead : (value.dropWhile (· != '-')).head hne = '-' := by
    simpa using List.head_dropWhile_not (· != '-') (l := value) (w := hne)
  have hrest := List.cons_head_tail hne
  rw [hhead] at hrest
  rw [← hpair.1, ← hpair.2, List.drop_one, hrest, List.takeWhile_append_dropWhile]

theorem matchPort_spec {token lo hi : Line} (h : matchPort lib token = some (lo, hi)) :
    isPort lib lo = true ∧ isPort lib hi = true ∧
      (cutHyphen (removePrefix "u:".toList token) = some (lo, hi) ∨
        cutHyphen (removePrefix "u:".toList token) = none ∧
          removePrefix "u:".toList token = lo ∧ hi = lo) := by
  unfold matchPort at h
  cases hcut : cutHyphen (removePrefix "u:".toList token) with
  | some cut =>
    simp only [hcut] at h
    split_ifs at h with hports
    have hpair := Option.some.inj h
    simp only [Prod.mk.injEq] at hpair
    rw [Bool.and_eq_true, hpair.1, hpair.2] at hports
    refine ⟨hports.1, hports.2, .inl ?_⟩
    rw [← hpair.1, ← hpair.2]
  | none =>
    simp only [hcut] at h
    split_ifs at h with hport
    have hpair := Option.some.inj h
    simp only [Prod.mk.injEq] at hpair
    rw [← hpair.1, ← hpair.2]
    exact ⟨hport, hport, .inr ⟨rfl, rfl, rfl⟩⟩

theorem validPortToken_spec {token : Line} (h : validPortToken lib token = true) :
    ∃ lo hi first last, matchPort lib token = some (lo, hi) ∧ lib.int lo = some first ∧
      lib.int hi = some last ∧ 1 ≤ first ∧ first ≤ last ∧ last ≤ 65535 := by
  unfold validPortToken at h
  cases hmatch : matchPort lib token with
  | none =>
    rw [hmatch] at h
    cases h
  | some cut =>
    rw [hmatch] at h
    cases hfirst : lib.int cut.1 with
    | none => simp [hfirst] at h
    | some first =>
      cases hlast : lib.int cut.2 with
      | none => simp [hfirst, hlast] at h
      | some last =>
        simp only [hfirst, hlast, decide_eq_true_eq] at h
        exact ⟨cut.1, cut.2, first, last, rfl, hfirst, hlast, h.1, h.2.2.2.2, h.2.2.2.1⟩

theorem removePrefix_cases (start value : Line) :
    (∃ rest, value = start ++ rest ∧ removePrefix start value = rest) ∨
      ¬start <+: value ∧ removePrefix start value = value := by
  unfold removePrefix
  by_cases h : start <+: value
  · have ⟨rest, hrest⟩ := h
    rw [if_pos (by rwa [List.isPrefixOf_iff_prefix])]
    exact .inl ⟨rest, hrest.symm, by rw [← hrest, List.drop_left]⟩
  · rw [if_neg (by rwa [List.isPrefixOf_iff_prefix])]
    exact .inr ⟨h, rfl⟩

section Accepted

variable {token lo hi : Line} (hlib : Documented lib) (hmatch : matchPort lib token = some (lo, hi))

include hmatch

omit hlib in
theorem body_chars : (∃ c rest, removePrefix "u:".toList token = c :: rest ∧
      (lib.decimal c).isSome) ∧
    ∀ c ∈ removePrefix "u:".toList token, (lib.decimal c).isSome ∨ c = '-' := by
  have ⟨hlo, hhi, hcases⟩ := matchPort_spec hmatch
  have ⟨hne, hlodigits⟩ := isPort_spec hlo
  have ⟨_, hhidigits⟩ := isPort_spec hhi
  have ⟨c, rest, hcons⟩ := List.exists_cons_of_ne_nil hne
  cases hcases with
  | inl hcut =>
    rw [cutHyphen_some hcut]
    refine ⟨⟨c, rest ++ '-' :: hi, by rw [hcons]; rfl, hlodigits c (by simp [hcons])⟩, ?_⟩
    intro d hd
    cases List.mem_append.mp hd with
    | inl hin => exact .inl (hlodigits d hin)
    | inr hin =>
      cases List.mem_cons.mp hin with
      | inl hhyphen => exact .inr hhyphen
      | inr hlater => exact .inl (hhidigits d hlater)
  | inr hwhole =>
    rw [hwhole.2.1]
    exact ⟨⟨c, rest, hcons, hlodigits c (by simp [hcons])⟩, fun d hd => .inl (hlodigits d hd)⟩

omit hlib in
theorem token_chars : ∀ c ∈ token, (lib.decimal c).isSome ∨ c = 'u' ∨ c = ':' ∨ c = '-' := by
  have hbody := (body_chars hmatch).2
  intro c hc
  cases removePrefix_cases "u:".toList token with
  | inl hcut =>
    have ⟨rest, htoken, hrest⟩ := hcut
    rw [hrest] at hbody
    rw [htoken] at hc
    cases List.mem_append.mp hc with
    | inl hstart =>
      have hmem : c = 'u' ∨ c = ':' := by simpa using hstart
      exact .inr (hmem.imp_right .inl)
    | inr hin => exact (hbody c hin).imp_right fun h => .inr (.inr h)
  | inr hwhole =>
    rw [hwhole.2] at hbody
    exact (hbody c hc).imp_right fun h => .inr (.inr h)

include hlib

theorem token_visible : ∀ c ∈ token, isSpace c = false := by
  intro c hc
  cases token_chars hmatch c hc with
  | inl hdecimal => exact (hlib.plain c hdecimal).1
  | inr hother =>
    rcases hother with rfl | rfl | rfl <;> decide

theorem token_start : ∃ c rest, token = c :: rest ∧ c ≠ '#' := by
  have ⟨⟨c, rest, hcons, hdecimal⟩, _⟩ := body_chars hmatch
  cases removePrefix_cases "u:".toList token with
  | inl hcut =>
    have ⟨later, htoken, _⟩ := hcut
    exact ⟨'u', ':' :: later, htoken, by decide⟩
  | inr hwhole =>
    rw [hwhole.2] at hcons
    exact ⟨c, rest, hcons, (hlib.plain c hdecimal).2.2.1⟩

theorem chunksOf_token : chunksOf token = [token] := by
  have ⟨c, rest, htoken, hc⟩ := token_start hlib hmatch
  have hwords : words token = [token] := by
    rw [words, List.splitOnP_eq_singleton (token_visible hlib hmatch), htoken]
    rfl
  rw [chunksOf, hwords, List.takeWhile_cons_of_pos, List.takeWhile_nil]
  rw [htoken, List.head?_cons, bne_iff_ne]
  exact fun heq => hc (Option.some.inj heq)

theorem noteChunk_token (avoid named : Finset ℤ) : noteChunk lib avoid named token =
    notePort lib (removePrefix "u:".toList token) avoid named := by
  have ⟨⟨c, rest, hcons, hdecimal⟩, _⟩ := body_chars hmatch
  have hbody : removePrefix "t:".toList (removePrefix "u:".toList token) =
      removePrefix "u:".toList token := by
    cases removePrefix_cases "t:".toList (removePrefix "u:".toList token) with
    | inl hcut =>
      have ⟨later, hstart, _⟩ := hcut
      rw [hcons] at hstart
      have hc : c = 't' := (List.cons.inj hstart).1
      exact absurd hc (hlib.plain c hdecimal).2.2.2.2
    | inr hwhole => exact hwhole.2
  unfold noteChunk
  rw [ScopeDocuments.strip_of_visible (token_visible hlib hmatch),
    hlib.lower token (token_chars hmatch), hbody]
  exact if_neg (by rw [hcons]; exact List.cons_ne_nil c rest)

theorem matchPort_normalize (udp : Bool) :
    matchPort lib (normalizePortToken token udp) = some (lo, hi) := by
  have ⟨⟨c, rest, hcons, hdecimal⟩, _⟩ := body_chars hmatch
  cases udp with
  | false => exact hmatch
  | true =>
    have hagain : removePrefix "u:".toList (removePrefix "u:".toList token) =
        removePrefix "u:".toList token := by
      cases removePrefix_cases "u:".toList (removePrefix "u:".toList token) with
      | inl hcut =>
        have ⟨later, hstart, _⟩ := hcut
        rw [hcons] at hstart
        have hc : c = 'u' := (List.cons.inj hstart).1
        exact absurd hc (hlib.plain c hdecimal).2.2.2.1
      | inr hwhole => exact hwhole.2
    unfold matchPort at hmatch ⊢
    change removePrefix "u:".toList (normalizePortToken token true) = _ at hagain
    rw [hagain]
    exact hmatch

end Accepted

variable (hlib : Documented lib)

include hlib

theorem noteChunk_valid {token : Line} (hvalid : validPortToken lib token = true)
    (avoid named : Finset ℤ) : ∃ noted, noteChunk lib avoid named token = some noted ∧
      ∀ port, port ∈ noted ↔ port ∈ named ∨ port ∈ avoid ∧ Denotes lib token port := by
  have ⟨lo, hi, first, last, hmatch, hfirst, hlast, hpos, horder, hmax⟩ :=
    validPortToken_spec hvalid
  have ⟨hlo, hhi, hcases⟩ := matchPort_spec hmatch
  have hdenotes : ∀ port, Denotes lib token port ↔ first ≤ port ∧ port ≤ last := by
    intro port
    constructor
    · intro ⟨lo', hi', first', last', hmatch', hfirst', hlast', hbounds⟩
      rw [hmatch, Option.some.injEq, Prod.mk.injEq] at hmatch'
      rw [← hmatch'.1, hfirst, Option.some.injEq] at hfirst'
      rw [← hmatch'.2, hlast, Option.some.injEq] at hlast'
      rw [hfirst', hlast']
      exact hbounds
    · exact fun h => ⟨lo, hi, first, last, hmatch, hfirst, hlast, h⟩
  have hdigits : ∀ text, isPort lib text = true → lib.isdigit text = true :=
    fun text h => hlib.isdigit text (isPort_spec h).1 (isPort_spec h).2
  rw [noteChunk_token hlib hmatch]
  unfold notePort
  cases hcases with
  | inl hcut =>
    simp only [hcut, hdigits lo hlo, hdigits hi hhi, hfirst, hlast, Bool.and_self, if_true]
    rw [if_pos ⟨by omega, horder, hmax⟩]
    refine ⟨_, rfl, fun port => ?_⟩
    rw [Finset.mem_union, Finset.mem_filter, hdenotes]
  | inr hwhole =>
    have hsame : last = first := by
      rw [hwhole.2.2, hfirst] at hlast
      exact (Option.some.inj hlast).symm
    rw [hwhole.1, hwhole.2.1]
    simp only [hdigits lo hlo, hfirst, if_true]
    by_cases hin : first ∈ avoid
    · rw [if_pos hin]
      refine ⟨_, rfl, fun port => ?_⟩
      rw [Finset.mem_insert, hdenotes, hsame]
      constructor
      · intro h
        cases h with
        | inl heq => exact .inr ⟨heq ▸ hin, by omega⟩
        | inr hnamed => exact .inl hnamed
      · intro h
        cases h with
        | inl hnamed => exact .inr hnamed
        | inr hboth => exact .inl (by omega)
    · rw [if_neg hin]
      refine ⟨_, rfl, fun port => ?_⟩
      rw [hdenotes, hsame]
      constructor
      · exact .inl
      · intro h
        cases h with
        | inl hnamed => exact hnamed
        | inr hboth =>
          have heq : port = first := by omega
          exact absurd (heq ▸ hboth.1) hin

theorem noteChunks_valid {tokens : List Line}
    (hvalid : ∀ token ∈ tokens, validPortToken lib token = true) (avoid named : Finset ℤ) :
    ∃ noted, (tokens.flatMap chunksOf).foldlM (noteChunk lib avoid) named = some noted ∧
      ∀ port, port ∈ noted ↔
        port ∈ named ∨ port ∈ avoid ∧ ∃ token ∈ tokens, Denotes lib token port := by
  induction tokens generalizing named with
  | nil => exact ⟨named, rfl, by simp⟩
  | cons token tokens ih =>
    have hhere := hvalid token List.mem_cons_self
    have ⟨lo, hi, _, _, hmatch, _⟩ := validPortToken_spec hhere
    have ⟨noted, hnoted, hmem⟩ := noteChunk_valid hlib hhere avoid named
    have ⟨later, hlater, hmem'⟩ := ih (fun t ht => hvalid t (List.mem_cons_of_mem _ ht)) noted
    refine ⟨later, ?_, fun port => ?_⟩
    · rw [List.flatMap_cons, chunksOf_token hlib hmatch, List.cons_append, List.nil_append,
        List.foldlM_cons, hnoted]
      exact hlater
    · rw [hmem', hmem]
      simp only [List.mem_cons, exists_eq_or_imp]
      tauto

theorem denotes_sortedSet {tokens : List Line}
    (hvalid : ∀ token ∈ tokens, validPortToken lib token = true) (udp : Bool) (port : ℤ) :
    (∃ token ∈ sortedSet (tokens.map fun item => normalizePortToken item udp),
        Denotes lib token port) ↔ ∃ token ∈ tokens, Denotes lib token port := by
  have hsame : ∀ token ∈ tokens,
      (Denotes lib (normalizePortToken token udp) port ↔ Denotes lib token port) := by
    intro token htoken
    have ⟨lo, hi, first, last, hmatch, _⟩ := validPortToken_spec (hvalid token htoken)
    unfold Denotes
    rw [matchPort_normalize hlib hmatch, hmatch]
  constructor
  · intro ⟨token, htoken, hport⟩
    rw [sortedSet, List.mem_insertionSort, List.mem_dedup, List.mem_map] at htoken
    have ⟨item, hitem, heq⟩ := htoken
    exact ⟨item, hitem, (hsame item hitem).mp (heq ▸ hport)⟩
  · intro ⟨token, htoken, hport⟩
    refine ⟨normalizePortToken token udp, ?_, (hsame token htoken).mpr hport⟩
    rw [sortedSet, List.mem_insertionSort, List.mem_dedup]
    exact List.mem_map_of_mem htoken

end Agreement

section Payloads

variable {lib : PortText}

def keptPorts (udp : Bool) (parsed : Option ParsedTargets) : List Line :=
  (parsed.bind fun targets => if udp then targets.portsUdp else targets.ports).getD []

/-- An accepted payload has valid port tokens only, and keeps all of them. -/
theorem accepted_ports {scope : ScanScope}
    {rangesText domainsText portsText portsUdpText : Option Line}
    {parsed : Option ParsedTargets}
    (h : parseTargetPayload lib scope rangesText domainsText portsText portsUdpText = .ok parsed)
    (udp : Bool) :
    (∀ token ∈ splitTargetLines (if udp then portsUdpText else portsText),
        validPortToken lib token = true) ∧
      keptPorts udp parsed =
        sortedSet ((splitTargetLines (if udp then portsUdpText else portsText)).map
        fun item => normalizePortToken item udp) := by
  have hkept : ∀ (raw : List Line) (udp : Bool), (if raw ≠ [] then
      some (sortedSet (raw.map fun item => normalizePortToken item udp)) else none).getD [] =
        sortedSet (raw.map fun item => normalizePortToken item udp) := by
    intro raw udp
    cases raw with
    | nil => rfl
    | cons token tokens => rw [if_pos (List.cons_ne_nil token tokens), Option.getD_some]
  unfold parseTargetPayload at h
  cases happroved : scope.requireApproved with
  | error denial =>
    rw [happroved] at h
    cases h
  | ok _ =>
    rw [happroved] at h
    dsimp only at h
    by_cases hempty : ¬(splitTargetLines rangesText ≠ [] ∨ splitTargetLines domainsText ≠ []) ∧
        splitTargetLines portsText = [] ∧ splitTargetLines portsUdpText = []
    · rw [if_pos hempty] at h
      have hnone := Except.ok.inj h
      have hraw : splitTargetLines (if udp then portsUdpText else portsText) = [] := by
        cases udp with
        | false => exact hempty.2.1
        | true => exact hempty.2.2
      rw [hraw, ← hnone]
      exact ⟨fun token htoken => absurd htoken List.not_mem_nil, rfl⟩
    · rw [if_neg hempty] at h
      by_cases hrejected : rejectedTargets lib (splitTargetLines rangesText)
          (splitTargetLines domainsText) (splitTargetLines portsText)
          (splitTargetLines portsUdpText) ≠ []
      · rw [if_pos hrejected] at h
        cases h
      · rw [if_neg hrejected] at h
        have hvalid := not_not.mp hrejected
        simp only [rejectedTargets, List.append_eq_nil_iff, List.filter_eq_nil_iff,
          Bool.not_eq_true', Bool.not_eq_false] at hvalid
        cases hcheck : scope.check lib.lower (splitTargetLines rangesText)
            ((splitTargetLines domainsText).map fun item => item.rdropWhile (· == '.')) with
        | error denial =>
          rw [hcheck] at h
          cases h
        | ok _ =>
          rw [hcheck] at h
          rw [← Except.ok.inj h]
          cases udp with
          | false => exact ⟨hvalid.2.2.1, hkept _ false⟩
          | true => exact ⟨hvalid.2.2.2, hkept _ true⟩

/-- The ports that admission refuses are the avoided ones among those the accepted tokens stand
for. -/
theorem forbiddenPorts_exact (lib : PortText) (hlib : Documented lib) (scope : ScanScope)
    (rangesText domainsText portsText portsUdpText : Option Line) (parsed : Option ParsedTargets)
    (h : parseTargetPayload lib scope rangesText domainsText portsText portsUdpText = .ok parsed)
    (avoid : Finset ℤ) (udp : Bool) :
    ∃ named, forbiddenPorts lib (if udp then portsUdpText else portsText) avoid = some named ∧
      ∀ port, port ∈ named ↔
        port ∈ avoid ∧ ∃ token ∈ keptPorts udp parsed, Denotes lib token port := by
  have ⟨hvalid, hkept⟩ := accepted_ports h udp
  have ⟨named, hnamed, hmem⟩ := noteChunks_valid hlib hvalid avoid ∅
  refine ⟨named, hnamed, fun port => ?_⟩
  rw [hmem, hkept, denotes_sortedSet hlib hvalid]
  simp

def asciiPorts : PortText where
  decimal := decDigit
  isdigit text := text ≠ [] && text.all fun c => (decDigit c).isSome
  int text := (numeral 10 decDigit text).map Nat.cast
  lower text := text.map Char.toLower

theorem asciiPorts_documented : Documented asciiPorts where
  isdigit text hne hall := by
    change (decide (text ≠ []) && text.all fun c => (decDigit c).isSome) = true
    rw [Bool.and_eq_true, decide_eq_true_eq, List.all_eq_true]
    exact ⟨hne, hall⟩
  plain c hc := by
    refine ⟨isSpace_of_addressChar (.inr (.inr (isSome_hexDigit_of_decDigit hc))), ?_⟩
    refine ⟨?_, ?_, ?_, ?_⟩ <;> rintro rfl <;> exact absurd hc (by decide)
  lower text hall := by
    change text.map Char.toLower = text
    conv_rhs => rw [← List.map_id text]
    refine List.map_congr_left fun c hc => ?_
    cases hall c hc with
    | inl hdecimal =>
      have hdigits : c.toNat ≤ 57 := by
        change (decDigit c).isSome = true at hdecimal
        unfold decDigit at hdecimal
        split_ifs at hdecimal with hrange
        · exact UInt32.le_iff_toNat_le.mp hrange.2
        · cases hdecimal
      unfold Char.toLower
      rw [dif_neg]
      · rfl
      · intro hupper
        have hlow : 65 ≤ c.toNat := UInt32.le_iff_toNat_le.mp hupper.1
        omega
    | inr hother =>
      rcases hother with rfl | rfl | rfl <;> rfl

def openScope : ScanScope := ⟨"acme", everyAddress, [], [], [], true⟩

theorem forbiddenPorts_exact_sample :
    parseTargetPayload asciiPorts openScope none none
        (some "80-90, u:502\n# never 22\n00443".toList) none =
      .ok (some ⟨none, none, some ["00443".toList, "80-90".toList, "u:502".toList], none⟩) ∧
    ∃ named, forbiddenPorts asciiPorts
        (if false then none else some "80-90, u:502\n# never 22\n00443".toList)
        {22, 85, 443, 502} = some named ∧
      ∀ port, port ∈ named ↔ port ∈ ({22, 85, 443, 502} : Finset ℤ) ∧
        ∃ token ∈ keptPorts false
          (some ⟨none, none, some ["00443".toList, "80-90".toList, "u:502".toList], none⟩),
          Denotes asciiPorts token port :=
  have hparse : parseTargetPayload asciiPorts openScope none none
      (some "80-90, u:502\n# never 22\n00443".toList) none =
        .ok (some ⟨none, none, some ["00443".toList, "80-90".toList, "u:502".toList], none⟩) := by
    rfl
  ⟨hparse, forbiddenPorts_exact asciiPorts asciiPorts_documented openScope none none _ none _ hparse
    {22, 85, 443, 502} false⟩

end Payloads

end Shapoclyack.TargetPayloads
