import Mathlib
import Shapoclyack.AssetGroupRules
import Shapoclyack.Library.Chunks
import Shapoclyack.Library.Fallible
import Shapoclyack.ScopeDocuments
import Shapoclyack.Text

set_option autoImplicit false

namespace Shapoclyack.PulseResume

open Library
open ArtifactSchemas (Json)
open AssetGroupRules (partner_of_mem printedAddress)
open ResumedBatches (strip)
open ScopeDocuments (strOf truthy)

section Model

def completionSchema : String := "octo.pulse_completion.v1"

/-- A dictionary: a row of a section, or a whole payload. -/
abbrev Row := List (String × Json)

inductive Raised where
  | notIterable
  | overflow
deriving DecidableEq

structure Plan where
  entries : List (String × List ℤ)
  nodup : (entries.map Prod.fst).Nodup

def normalizeHost (value : String) : String := (printedAddress value).getD value

def get (row : Row) (key : String) : Json := (row.lookup key).getD .null

variable (lib : Text) (render : Json → List Char)

def identities (row : Row) : List String :=
  (["ip", "host"].filter fun key => truthy (get row key)).map fun key =>
    normalizeHost (String.ofList (strip (strOf render (get row key))))

/-- `_port`: `int` of what stands there, 0 where there is none or it raises; an infinite number
raises what nobody catches. -/
def portOf (row : Row) : Except Raised ℤ :=
  match get row "port" with
  | .bool true => .ok 1
  | .int number => .ok number
  | .float (.finite number) => .ok (number.num.tdiv number.den)
  | .float (.infinite _) => .error .overflow
  | .str text => .ok (if text = "" then 0 else (lib.int text).getD 0)
  | _ => .ok 0

/-- `str(row.get(key) or default).lower()`. -/
def wordOf (row : Row) (key default : String) : String :=
  lib.lower (if truthy (get row key) then String.ofList (strOf render (get row key)) else default)

def tcp (row : Row) : Bool :=
  decide (wordOf lib render row "protocol" "tcp" ∈ ["tcp", "tcpsyn", "syn"])

def isFalse : Json → Bool
  | .bool value => !value
  | _ => false

/-- The dictionaries of `payload.get(field) or []`; keys and characters are none. -/
def rowsOf (payload : Row) (field : String) : Except Raised (List Row) :=
  match get payload field with
  | .arr items => .ok (items.filterMap fun
    | .obj row => some row
    | _ => none)
  | .bool value => if truthy (.bool value) then .error .notIterable else .ok []
  | .int value => if truthy (.int value) then .error .notIterable else .ok []
  | .float value => if truthy (.float value) then .error .notIterable else .ok []
  | _ => .ok []

def inRange (port : ℤ) : Bool := decide (1 ≤ port) && decide (port ≤ 65535)

def observedRow (row : Row) : Except Raised (List (String × ℤ)) :=
  if !tcp lib render row || wordOf lib render row "state" "open" != "open" ||
      isFalse (get row "open") then .ok []
  else
    (portOf lib row).map fun port =>
      if inRange port then (identities render row).map fun name => (name, port) else []

/-- `_observed_tcp_ports`, as pairs of an identity and a port. -/
def observedTcpPorts (payload : Row) : Except Raised (List (String × ℤ)) :=
  (rowsOf payload "open").bind fun rows =>
    (gather (observedRow lib render) rows).map List.flatten

def completedHosts (grouped : List (String × List ℤ)) (payload : Row) (returncode : ℤ) :
    Except Raised (List String) :=
  if returncode ≠ 0 then .ok []
  else
    (observedTcpPorts lib render payload).map fun observed =>
      (grouped.filter fun entry => decide (entry.2 ≠ []) && entry.2.all fun port =>
        decide ((normalizeHost entry.1, port) ∈ observed)).map Prod.fst

def receipt (ports : List ℤ) : Json :=
  .obj [("ports", .arr ((ports.dedup.insertionSort (· ≤ ·)).map .int)), ("returncode", .int 0)]

def completionManifest (completed : List (String × List ℤ)) : Json :=
  .obj [("schema", .str completionSchema),
    ("hosts", .obj ((completed.insertionSort fun first second => first.1 ≤ second.1).map
      fun entry => (entry.1, receipt entry.2)))]

def receiptPort : Json → Option ℤ
  | .int port => if inRange port then some port else none
  | _ => none

/-- The ports of a record of success. -/
def receiptPorts : Json → Option (List ℤ)
  | .obj record =>
    match get record "returncode", get record "ports" with
    | .int 0, .arr ports => if ports.isEmpty then none else ports.mapM receiptPort
    | _, _ => none
  | _ => none

/-- `_successful_tcp_ports`, as pairs of a host and a port. -/
def successfulTcpPorts (payload : Row) : List (String × ℤ) :=
  match get payload "completion" with
  | .obj manifest =>
    match get manifest "schema", get manifest "hosts" with
    | .str schema, .obj records =>
      if schema = completionSchema then
        records.flatMap fun entry =>
          ((receiptPorts entry.2).getD []).map fun port => (normalizeHost entry.1, port)
      else []
    | _, _ => []
  | _ => []

/-- The expected hosts that stay done. -/
def retainedEntries (grouped : Plan) (doneHosts : List String)
    (successful observed : List (String × ℤ)) : List (String × List ℤ) :=
  grouped.entries.filter fun entry =>
    decide (normalizeHost entry.1 ∈ doneHosts.map normalizeHost) && decide (entry.2 ≠ []) &&
      entry.2.all (fun port => decide ((normalizeHost entry.1, port) ∈ successful)) &&
      entry.2.all (fun port => decide ((normalizeHost entry.1, port) ∈ observed))

def allowedOf (done : List (String × List ℤ)) : List (String × ℤ) :=
  done.flatMap fun entry => entry.2.map fun port => (normalizeHost entry.1, port)

def keptRow (allowed : List (String × ℤ)) (field : String) (row : Row) : Except Raised Bool :=
  let names := (identities render row).filter fun name => decide (name ∈ allowed.map Prod.fst)
  if names = [] then .ok false
  else if field = "os" then .ok true
  else
    (portOf lib row).map fun port =>
      names.any (fun name => decide ((name, port) ∈ allowed)) &&
        (decide (field ≠ "open") || tcp lib render row)

def keptFields : List String := ["open", "os", "cves", "findings", "tls"]

def keptRows (payload : Row) (allowed : List (String × ℤ)) (field : String) :
    Except Raised (List Row) :=
  (rowsOf payload field).bind (keep (keptRow lib render allowed field))

def keptPayload (completion : Json) (sections : List (List Row)) : Row :=
  ("completion", completion) ::
    (keptFields.zip sections).map fun part => (part.1, .arr (part.2.map .obj))

def retainCompletedPayload (grouped : Plan) (doneHosts : List String) (payload : Row) :
    Except Raised (List String × Row) :=
  (observedTcpPorts lib render payload).bind fun observed =>
    let done := retainedEntries grouped doneHosts (successfulTcpPorts payload) observed
    (gather (keptRows lib render payload (allowedOf done)) keptFields).map fun sections =>
      (done.map Prod.fst, keptPayload (completionManifest done) sections)

/-- `TcpProbeChunk`. -/
structure TcpProbeChunk where
  hosts : List String
  ports : List ℤ
deriving DecidableEq

def firstSeen {α : Type} [DecidableEq α] (items : List α) : List α := items.reverse.dedup.reverse

def signature (ports : List ℤ) : List ℤ := ports.dedup.insertionSort (· ≤ ·)

def pending (grouped : Plan) (doneHosts : List String) : List (String × List ℤ) :=
  (((grouped.entries.map Prod.fst).insertionSort (· ≤ ·)).filter fun host =>
    decide (host ∉ doneHosts)).filterMap fun host =>
      let ports := signature ((grouped.entries.lookup host).getD [])
      if ports = [] then none else some (host, ports)

def planTcpProbe (grouped : Plan) (chunkHosts : ℕ) (doneHosts : List String) :
    List TcpProbeChunk :=
  let hosts := pending grouped doneHosts
  (firstSeen (hosts.map Prod.snd)).flatMap fun ports =>
    (chunks (max 1 chunkHosts) ((hosts.filter fun entry => decide (entry.2 = ports)).map
      Prod.fst)).map fun part => ⟨part, ports⟩

end Model

section Purpose

variable (lib : Text) (render : Json → List Char)

/-- A record of the payload says that a port of a host was probed with success. -/
def Receipt (payload : Row) (name : String) (port : ℤ) : Prop :=
  ∃ (manifest : Row) (records : List (String × Json)) (host : String) (record : Row)
      (ports : List ℤ),
    payload.lookup "completion" = some (.obj manifest) ∧
      manifest.lookup "schema" = some (.str completionSchema) ∧
      manifest.lookup "hosts" = some (.obj records) ∧
      (host, .obj record) ∈ records ∧ normalizeHost host = name ∧
      record.lookup "returncode" = some (.int 0) ∧
      record.lookup "ports" = some (.arr (ports.map Json.int)) ∧
      (∀ other ∈ ports, 1 ≤ other ∧ other ≤ 65535) ∧ port ∈ ports

def addressOf (text : String) : Option (ℕ ⊕ (ℕ × Option (List Char))) :=
  ((address4 text.toList).map .inl).or
    (if '/' ∈ text.toList then none
    else (splitScopeId text.toList).bind fun split =>
      (address6 split.1).map fun number => .inr (number, split.2))

def SameHost (first second : String) : Prop :=
  first = second ∨ ∃ address, addressOf first = some address ∧ addressOf second = some address

def Holds (payload : Row) (field : String) (row : Row) : Prop :=
  ∃ rows, rowsOf payload field = .ok rows ∧ row ∈ rows

/-- Rows that tell the same of the same hosts. -/
def SameRow (first second : Row) : Prop :=
  identities render first = identities render second ∧
    ∀ key, key ∉ ["ip", "host"] → get first key = get second key

/-- Payloads that differ in how they spell their hosts. -/
structure Respelled (first second : Row) : Prop where
  receipts : ∀ name port, Receipt first name port ↔ Receipt second name port
  sections : ∀ field ∈ keptFields, ∀ rows, rowsOf first field = .ok rows →
    ∃ rows', rowsOf second field = .ok rows' ∧ List.Forall₂ (SameRow render) rows rows'

end Purpose

section Receipts

variable {lib : Text} {render : Json → List Char} {payload : Row} {name : String} {port : ℤ}

theorem printedAddress_eq (text : String) : printedAddress text = (addressOf text).map fun
    | .inl number => String.ofList (printAddress4 number)
    | .inr (number, zone) => String.ofList (printAddress6 number ++ printScopeId zone) := by
  unfold printedAddress addressOf
  cases address4 text.toList with
  | some number => rfl
  | none =>
    dsimp only [Option.map_none, Option.none_or]
    split_ifs with hslash
    · rfl
    · cases splitScopeId text.toList with
      | none => rfl
      | some split =>
        dsimp only [Option.bind_some]
        cases address6 split.1 <;> rfl

theorem SameHost.normalize {first second : String} (h : SameHost first second) :
    normalizeHost first = normalizeHost second := by
  obtain rfl | ⟨address, hfirst, hsecond⟩ := h
  · rfl
  · unfold normalizeHost
    rw [printedAddress_eq, printedAddress_eq, hfirst, hsecond]
    rfl

theorem get_eq {row : Row} {key : String} {value : Json} (hvalue : value ≠ .null) :
    get row key = value ↔ row.lookup key = some value := by
  unfold get
  cases row.lookup key with
  | none => exact iff_of_false (fun h => hvalue h.symm) (by simp)
  | some held => simp

theorem receiptPort_eq_some {value : Json} :
    receiptPort value = some port ↔ value = .int port ∧ 1 ≤ port ∧ port ≤ 65535 := by
  unfold receiptPort
  cases value with
  | int number =>
    simp only [inRange, Bool.and_eq_true, decide_eq_true_eq, Json.int.injEq]
    split_ifs with hrange
    · constructor
      · intro h
        obtain rfl := Option.some.inj h
        exact ⟨rfl, hrange⟩
      · rintro ⟨rfl, _⟩
        rfl
    · refine iff_of_false (by simp) ?_
      rintro ⟨rfl, h⟩
      exact hrange h
  | _ => simp

theorem receiptPorts_of_all {values : List Json} {ports : List ℤ} :
    values.mapM receiptPort = some ports ↔
      values = ports.map .int ∧ ∀ port ∈ ports, 1 ≤ port ∧ port ≤ 65535 := by
  induction values generalizing ports with
  | nil => cases ports <;> simp
  | cons first rest ih =>
    rw [List.mapM_cons]
    constructor
    · intro h
      obtain ⟨port, hport, hbind⟩ := Option.bind_eq_some_iff.mp h
      obtain ⟨others, hothers, hresult⟩ := Option.bind_eq_some_iff.mp hbind
      obtain rfl := Option.some.inj hresult
      obtain ⟨rfl, hall⟩ := ih.mp hothers
      obtain ⟨rfl, hrange⟩ := receiptPort_eq_some.mp hport
      exact ⟨rfl, List.forall_mem_cons.mpr ⟨hrange, hall⟩⟩
    · rintro ⟨hvalues, hall⟩
      cases ports with
      | nil => cases hvalues
      | cons port others =>
        obtain ⟨rfl, rfl⟩ := List.cons.inj hvalues
        obtain ⟨hrange, hall⟩ := List.forall_mem_cons.mp hall
        rw [receiptPort_eq_some.mpr ⟨rfl, hrange⟩, ih.mpr ⟨rfl, hall⟩]
        rfl

theorem receiptPorts_eq_some {value : Json} {ports : List ℤ} :
    receiptPorts value = some ports ↔ ∃ record, value = .obj record ∧
      record.lookup "returncode" = some (.int 0) ∧
      record.lookup "ports" = some (.arr (ports.map .int)) ∧ ports ≠ [] ∧
      ∀ port ∈ ports, 1 ≤ port ∧ port ≤ 65535 := by
  constructor
  · intro h
    unfold receiptPorts at h
    split at h
    · rename_i record
      split at h
      · rename_i values hcode hports
        split_ifs at h with hempty
        obtain ⟨rfl, hall⟩ := receiptPorts_of_all.mp h
        refine ⟨record, rfl, (get_eq (by simp)).mp hcode, (get_eq (by simp)).mp hports, ?_, hall⟩
        rintro rfl
        exact hempty rfl
      · cases h
    · cases h
  · rintro ⟨record, rfl, hcode, hports, hne, hall⟩
    unfold receiptPorts
    dsimp only
    rw [(get_eq (by simp)).mpr hcode, (get_eq (by simp)).mpr hports]
    change (if (ports.map Json.int).isEmpty = true then none
      else (ports.map Json.int).mapM receiptPort) = some ports
    rw [if_neg (by simpa using hne)]
    exact receiptPorts_of_all.mpr ⟨rfl, hall⟩

theorem mem_successfulTcpPorts :
    (name, port) ∈ successfulTcpPorts payload ↔ Receipt payload name port := by
  constructor
  · intro h
    unfold successfulTcpPorts at h
    split at h
    · rename_i manifest hmanifest
      split at h
      · rename_i schema records hschema hrecords
        split_ifs at h with hname
        · subst hname
          obtain ⟨entry, hentry, hpair⟩ := List.mem_flatMap.mp h
          obtain ⟨other, hother, hsame⟩ := List.mem_map.mp hpair
          obtain ⟨rfl, rfl⟩ := Prod.mk.inj hsame
          cases hports : receiptPorts entry.2 with
          | none =>
            rw [hports] at hother
            cases hother
          | some ports =>
            rw [hports] at hother
            obtain ⟨record, hrecord, hcode, hvalues, _, hall⟩ := receiptPorts_eq_some.mp hports
            refine ⟨manifest, records, entry.1, record, ports, (get_eq (by simp)).mp hmanifest,
              (get_eq (by simp)).mp hschema, (get_eq (by simp)).mp hrecords, ?_, rfl, hcode,
              hvalues, hall, hother⟩
            rw [← hrecord]
            exact hentry
        · cases h
      · cases h
    · cases h
  · rintro ⟨manifest, records, host, record, ports, hmanifest, hschema, hrecords, hmem, rfl,
      hcode, hports, hall, hport⟩
    have hread : receiptPorts (.obj record) = some ports :=
      receiptPorts_eq_some.mpr ⟨record, rfl, hcode, hports, List.ne_nil_of_mem hport, hall⟩
    unfold successfulTcpPorts
    rw [(get_eq (by simp)).mpr hmanifest]
    dsimp only
    rw [(get_eq (by simp)).mpr hschema, (get_eq (by simp)).mpr hrecords]
    dsimp only
    rw [if_pos rfl]
    refine List.mem_flatMap.mpr ⟨(host, .obj record), hmem, ?_⟩
    rw [hread]
    exact List.mem_map.mpr ⟨port, hport, rfl⟩

theorem mem_receipt {listed ports : List ℤ} {record : Row} (hrecord : .obj record = receipt listed)
    (hports : record.lookup "ports" = some (.arr (ports.map .int))) :
    port ∈ ports ↔ port ∈ listed := by
  obtain rfl := Json.obj.inj hrecord
  have hsame := Json.arr.inj (Option.some.inj hports)
  have hinj : Function.Injective Json.int := fun _ _ h => Json.int.inj h
  rw [← hinj.list_map hsame, (List.perm_insertionSort _ _).mem_iff, List.mem_dedup]

theorem receipt_manifest {done : List (String × List ℤ)} {sections : List (List Row)}
    (hrange : ∀ entry ∈ done, ∀ port ∈ entry.2, 1 ≤ port ∧ port ≤ 65535) :
    Receipt (keptPayload (completionManifest done) sections) name port ↔
      ∃ entry ∈ done, normalizeHost entry.1 = name ∧ port ∈ entry.2 := by
  constructor
  · rintro ⟨manifest, records, host, record, ports, hmanifest, hschema, hrecords, hmem, rfl,
      hcode, hvalues, hall, hport⟩
    obtain rfl := Json.obj.inj (Option.some.inj hmanifest)
    obtain rfl := Json.obj.inj (Option.some.inj hrecords)
    obtain ⟨entry, hentry, hpair⟩ := List.mem_map.mp hmem
    obtain ⟨rfl, hrecord⟩ := Prod.mk.inj hpair
    exact ⟨entry, (List.perm_insertionSort _ _).mem_iff.mp hentry, rfl,
      (mem_receipt hrecord.symm hvalues).mp hport⟩
  · rintro ⟨entry, hentry, rfl, hport⟩
    refine ⟨_, _, entry.1, _, entry.2.dedup.insertionSort (· ≤ ·), rfl, rfl, rfl,
      List.mem_map.mpr ⟨entry, (List.perm_insertionSort _ _).mem_iff.mpr hentry, rfl⟩, rfl, rfl,
      rfl, ?_, (mem_receipt rfl rfl).mpr hport⟩
    intro other hother
    exact hrange entry hentry other ((mem_receipt rfl rfl).mp hother)

end Receipts

section Evidence

variable {lib : Text} {render : Json → List Char} {payload : Row} {grouped : Plan}
  {doneHosts : List String} {name : String} {port : ℤ}

def Observes (lib : Text) (render : Json → List Char) (row : Row) (name : String) (port : ℤ) :
    Prop :=
  ∃ pairs, observedRow lib render row = .ok pairs ∧ (name, port) ∈ pairs

theorem Observes.spec {row : Row} (h : Observes lib render row name port) :
    tcp lib render row = true ∧ portOf lib row = .ok port ∧ name ∈ identities render row := by
  obtain ⟨pairs, hpairs, hmem⟩ := h
  unfold observedRow at hpairs
  split_ifs at hpairs with hskip
  · obtain rfl := Except.ok.inj hpairs
    cases hmem
  · obtain ⟨read, hread, rfl⟩ := Except.map_eq_ok.mp hpairs
    split_ifs at hmem with hrange
    · obtain ⟨other, hother, hsame⟩ := List.mem_map.mp hmem
      obtain ⟨rfl, rfl⟩ := Prod.mk.inj hsame
      refine ⟨?_, hread, hother⟩
      cases htcp : tcp lib render row with
      | true => rfl
      | false => simp [htcp] at hskip
    · cases hmem

theorem observed_ok {observed : List (String × ℤ)}
    (h : observedTcpPorts lib render payload = .ok observed) :
    ∃ rows, rowsOf payload "open" = .ok rows ∧
      (∀ row ∈ rows, ∃ pairs, observedRow lib render row = .ok pairs) ∧
      ∀ name port, (name, port) ∈ observed ↔ ∃ row ∈ rows, Observes lib render row name port := by
  obtain ⟨rows, hrows, hmap⟩ := Except.bind_eq_ok.mp h
  obtain ⟨pairs, hpairs, rfl⟩ := Except.map_eq_ok.mp hmap
  obtain ⟨g, hg, rfl⟩ := gather_ok hpairs
  refine ⟨rows, hrows, fun row hmem => ⟨g row, hg row hmem⟩, fun name port => ?_⟩
  rw [List.mem_flatten]
  constructor
  · rintro ⟨part, hpart, hmem⟩
    obtain ⟨row, hrow, rfl⟩ := List.mem_map.mp hpart
    exact ⟨row, hrow, g row, hg row hrow, hmem⟩
  · rintro ⟨row, hrow, part, hpart, hmem⟩
    rw [hg row hrow] at hpart
    obtain rfl := Except.ok.inj hpart
    exact ⟨g row, List.mem_map_of_mem hrow, hmem⟩

theorem observed_of_rows {rows : List Row} (hrows : rowsOf payload "open" = .ok rows)
    (hall : ∀ row ∈ rows, ∃ pairs, observedRow lib render row = .ok pairs) :
    ∃ observed, observedTcpPorts lib render payload = .ok observed := by
  choose! g hg using hall
  refine ⟨(rows.map g).flatten, ?_⟩
  unfold observedTcpPorts
  rw [hrows]
  dsimp only [Except.bind]
  rw [gather_of_forall hg]
  rfl

theorem mem_retainedEntries {successful observed : List (String × ℤ)}
    {entry : String × List ℤ} :
    entry ∈ retainedEntries grouped doneHosts successful observed ↔ entry ∈ grouped.entries ∧
      normalizeHost entry.1 ∈ doneHosts.map normalizeHost ∧ entry.2 ≠ [] ∧
      (∀ port ∈ entry.2, (normalizeHost entry.1, port) ∈ successful) ∧
      ∀ port ∈ entry.2, (normalizeHost entry.1, port) ∈ observed := by
  unfold retainedEntries
  simp only [List.mem_filter, Bool.and_eq_true, decide_eq_true_eq, List.all_eq_true, and_assoc]

theorem mem_allowedOf {done : List (String × List ℤ)} :
    (name, port) ∈ allowedOf done ↔ ∃ entry ∈ done, normalizeHost entry.1 = name ∧
      port ∈ entry.2 := by
  unfold allowedOf
  simp only [List.mem_flatMap, List.mem_map, Prod.mk.injEq]
  constructor
  · rintro ⟨entry, hentry, other, hother, rfl, rfl⟩
    exact ⟨entry, hentry, rfl, hother⟩
  · rintro ⟨entry, hentry, rfl, hport⟩
    exact ⟨entry, hentry, port, hport, rfl, rfl⟩

theorem retainedEntries_congr {again : List String}
    {successful observed successful' observed' : List (String × ℤ)}
    (h : ∀ entry, entry ∈ retainedEntries grouped again successful' observed' ↔
      entry ∈ retainedEntries grouped doneHosts successful observed) :
    retainedEntries grouped again successful' observed' =
      retainedEntries grouped doneHosts successful observed := by
  refine List.filter_congr fun entry hentry => ?_
  have hiff := h entry
  unfold retainedEntries at hiff
  rw [List.mem_filter, List.mem_filter, and_iff_right hentry, and_iff_right hentry] at hiff
  exact Bool.eq_iff_iff.mpr hiff

theorem keptRow_true {allowed : List (String × ℤ)} {field : String} {row : Row}
    (h : keptRow lib render allowed field row = .ok true) :
    ∃ name ∈ identities render row, ∃ port, (name, port) ∈ allowed ∧
      (field = "os" ∨ portOf lib row = .ok port) := by
  unfold keptRow at h
  dsimp only at h
  split_ifs at h with hnames hos
  · cases h
  · obtain ⟨name, hname⟩ := List.exists_mem_of_ne_nil _ hnames
    obtain ⟨hidentity, hallowed⟩ := List.mem_filter.mp hname
    obtain ⟨⟨other, port⟩, hpair, hfirst⟩ := List.mem_map.mp (of_decide_eq_true hallowed)
    obtain rfl : other = name := hfirst
    exact ⟨other, hidentity, port, hpair, .inl hos⟩
  · obtain ⟨port, hport, hkept⟩ := Except.map_eq_ok.mp h
    obtain ⟨hany, _⟩ := Bool.and_eq_true_iff.mp hkept
    obtain ⟨name, hname, hpair⟩ := List.any_eq_true.mp hany
    exact ⟨name, (List.mem_filter.mp hname).1, port, of_decide_eq_true hpair, .inr hport⟩

theorem keptRow_observed {allowed : List (String × ℤ)} {row : Row}
    (h : Observes lib render row name port) (hallowed : (name, port) ∈ allowed) :
    keptRow lib render allowed "open" row = .ok true := by
  obtain ⟨htcp, hport, hidentity⟩ := h.spec
  have hname : name ∈ (identities render row).filter fun name =>
      decide (name ∈ allowed.map Prod.fst) :=
    List.mem_filter.mpr ⟨hidentity, decide_eq_true (List.mem_map_of_mem hallowed)⟩
  unfold keptRow
  dsimp only
  rw [if_neg (List.ne_nil_of_mem hname), if_neg (by decide), hport, htcp]
  dsimp only [Except.map]
  rw [Bool.or_true, Bool.and_true]
  exact congrArg Except.ok (List.any_eq_true.mpr ⟨name, hname, decide_eq_true hallowed⟩)

theorem rowsOf_keptPayload {completion : Json} {rows : String → List Row} {field : String}
    (hfield : field ∈ keptFields) :
    rowsOf (keptPayload completion (keptFields.map rows)) field = .ok (rows field) := by
  have hget : get (keptPayload completion (keptFields.map rows)) field =
      .arr ((rows field).map .obj) := by
    simp only [keptFields, List.mem_cons, List.not_mem_nil, or_false] at hfield
    obtain rfl | rfl | rfl | rfl | rfl := hfield <;> rfl
  unfold rowsOf
  rw [hget]
  dsimp only
  rw [List.filterMap_map]
  exact congrArg Except.ok (List.filterMap_some)

theorem retain_ok {done : List String} {kept : Row}
    (h : retainCompletedPayload lib render grouped doneHosts payload = .ok (done, kept)) :
    ∃ observed rows, observedTcpPorts lib render payload = .ok observed ∧
      done = (retainedEntries grouped doneHosts (successfulTcpPorts payload) observed).map
        Prod.fst ∧
      (∀ field ∈ keptFields, keptRows lib render payload
        (allowedOf
          (retainedEntries grouped doneHosts (successfulTcpPorts payload) observed)) field =
          .ok (rows field)) ∧
      kept = keptPayload (completionManifest (retainedEntries grouped doneHosts
        (successfulTcpPorts payload) observed)) (keptFields.map rows) := by
  obtain ⟨observed, hobserved, hmap⟩ := Except.bind_eq_ok.mp h
  obtain ⟨sections, hsections, hresult⟩ := Except.map_eq_ok.mp hmap
  obtain ⟨rows, hrows, rfl⟩ := gather_ok hsections
  obtain ⟨rfl, rfl⟩ := Prod.mk.inj hresult
  exact ⟨observed, rows, hobserved, rfl, hrows, rfl⟩

theorem retain_of_parts {observed : List (String × ℤ)} {rows : String → List Row}
    (hobserved : observedTcpPorts lib render payload = .ok observed)
    (hrows : ∀ field ∈ keptFields, keptRows lib render payload (allowedOf (retainedEntries grouped
      doneHosts (successfulTcpPorts payload) observed)) field = .ok (rows field)) :
    retainCompletedPayload lib render grouped doneHosts payload =
      .ok ((retainedEntries grouped doneHosts (successfulTcpPorts payload) observed).map Prod.fst,
        keptPayload (completionManifest (retainedEntries grouped doneHosts
          (successfulTcpPorts payload) observed)) (keptFields.map rows)) := by
  unfold retainCompletedPayload
  rw [hobserved]
  dsimp only [Except.bind]
  rw [gather_of_forall hrows]
  rfl

theorem retainedEntries_range {observed : List (String × ℤ)} :
    ∀ entry ∈ retainedEntries grouped doneHosts (successfulTcpPorts payload) observed,
      ∀ port ∈ entry.2, 1 ≤ port ∧ port ≤ 65535 := by
  intro entry hentry port hport
  obtain ⟨_, _, _, hsuccessful, _⟩ := mem_retainedEntries.mp hentry
  obtain ⟨_, _, _, _, _, _, _, _, _, _, _, _, hall, hmem⟩ :=
    mem_successfulTcpPorts.mp (hsuccessful port hport)
  exact hall port hmem

/-- A retained payload retains the same again, whichever other hosts are said to be done. -/
theorem retain_again {done : List String} {kept : Row}
    (h : retainCompletedPayload lib render grouped doneHosts payload = .ok (done, kept))
    {again : List String}
    (hagain : ∀ host ∈ done, normalizeHost host ∈ again.map normalizeHost) :
    retainCompletedPayload lib render grouped again kept = .ok (done, kept) := by
  obtain ⟨observed, rows, hobserved, rfl, hrows, rfl⟩ := retain_ok h
  generalize hentries : retainedEntries grouped doneHosts (successfulTcpPorts payload) observed =
    entries at *
  have hrange := @retainedEntries_range payload grouped doneHosts observed
  rw [hentries] at hrange
  obtain ⟨all, hall, hpairs, hmem⟩ := observed_ok hobserved
  obtain ⟨original, horiginal, hkeep⟩ := Except.bind_eq_ok.mp (hrows "open" (by decide))
  obtain rfl := Except.ok.inj (hall.symm.trans horiginal)
  have hopen := @rowsOf_keptPayload (completionManifest entries) rows "open" (by decide)
  obtain ⟨observed', hobserved'⟩ := observed_of_rows hopen (fun row hrow =>
    hpairs row ((mem_keep hkeep).mp hrow).1)
  obtain ⟨all', hall', _, hmem'⟩ := observed_ok hobserved'
  obtain rfl := Except.ok.inj (hopen.symm.trans hall')
  have hsame : retainedEntries grouped again (successfulTcpPorts (keptPayload
      (completionManifest entries) (keptFields.map rows))) observed' = entries := by
    rw [← hentries]
    refine retainedEntries_congr fun entry => ?_
    rw [hentries]
    constructor
    · intro hentry
      obtain ⟨hplanned, _, hne, hsuccessful, hobserving⟩ := mem_retainedEntries.mp hentry
      have hreceipt : ∀ port ∈ entry.2, ∃ other ∈ entries,
          normalizeHost other.1 = normalizeHost entry.1 ∧ port ∈ other.2 := fun port hport =>
        (receipt_manifest hrange).mp (mem_successfulTcpPorts.mp (hsuccessful port hport))
      rw [← hentries]
      refine mem_retainedEntries.mpr ⟨hplanned, ?_, hne, fun port hport => ?_, fun port hport => ?_⟩
      · obtain ⟨first, hfirst⟩ := List.exists_mem_of_ne_nil _ hne
        obtain ⟨other, hother, hname, _⟩ := hreceipt first hfirst
        rw [← hname]
        rw [← hentries] at hother
        exact (mem_retainedEntries.mp hother).2.1
      · obtain ⟨other, hother, hname, hin⟩ := hreceipt port hport
        rw [← hname]
        rw [← hentries] at hother
        exact (mem_retainedEntries.mp hother).2.2.2.1 port hin
      · obtain ⟨row, hrow, hobserves⟩ := (hmem' _ _).mp (hobserving port hport)
        exact (hmem _ _).mpr ⟨row, ((mem_keep hkeep).mp hrow).1, hobserves⟩
    · intro hentry
      have hheld := hentry
      rw [← hentries] at hheld
      obtain ⟨hplanned, _, hne, _, hobserving⟩ := mem_retainedEntries.mp hheld
      refine mem_retainedEntries.mpr ⟨hplanned, hagain entry.1 (List.mem_map_of_mem hentry), hne,
        fun port hport => ?_, fun port hport => ?_⟩
      · exact mem_successfulTcpPorts.mpr ((receipt_manifest hrange).mpr ⟨entry, hentry, rfl, hport⟩)
      · obtain ⟨row, hrow, hobserves⟩ := (hmem _ _).mp (hobserving port hport)
        have hallowed := mem_allowedOf.mpr ⟨entry, hentry, rfl, hport⟩
        exact (hmem' _ _).mpr ⟨row, (mem_keep hkeep).mpr
          ⟨hrow, keptRow_observed hobserves hallowed⟩, hobserves⟩
  have hresult := @retain_of_parts lib render (keptPayload (completionManifest entries)
    (keptFields.map rows)) grouped again observed' rows hobserved' ?_
  · rw [hsame] at hresult
    exact hresult
  · intro field hfield
    unfold keptRows
    rw [hsame, rowsOf_keptPayload hfield]
    obtain ⟨before, _, hkept⟩ := Except.bind_eq_ok.mp (hrows field hfield)
    exact keep_again hkept

end Evidence

section Spellings

variable {lib : Text} {render : Json → List Char} {first second : Row}

theorem SameRow.portOf (h : SameRow render first second) :
    PulseResume.portOf lib first = PulseResume.portOf lib second := by
  unfold PulseResume.portOf
  rw [h.2 "port" (by decide)]

theorem SameRow.wordOf (h : SameRow render first second) {key : String}
    (hkey : key ∉ ["ip", "host"]) (default : String) :
    PulseResume.wordOf lib render first key default =
      PulseResume.wordOf lib render second key default := by
  unfold PulseResume.wordOf
  rw [h.2 key hkey]

theorem SameRow.tcp (h : SameRow render first second) :
    PulseResume.tcp lib render first = PulseResume.tcp lib render second := by
  unfold PulseResume.tcp
  rw [h.wordOf (by decide)]

theorem SameRow.observedRow (h : SameRow render first second) :
    PulseResume.observedRow lib render first = PulseResume.observedRow lib render second := by
  unfold PulseResume.observedRow
  rw [h.tcp, h.wordOf (by decide), h.2 "open" (by decide), h.portOf, h.1]

theorem SameRow.keptRow (h : SameRow render first second) (allowed : List (String × ℤ))
    (field : String) : PulseResume.keptRow lib render allowed field first =
      PulseResume.keptRow lib render allowed field second := by
  unfold PulseResume.keptRow
  rw [h.tcp, h.portOf, h.1]

/-- Entries of one plan and of one that spells its hosts in another way. -/
def SameEntry (first second : String × List ℤ) : Prop :=
  SameHost first.1 second.1 ∧ first.2 = second.2

theorem allowedOf_forall₂ {done done' : List (String × List ℤ)}
    (h : List.Forall₂ SameEntry done done') : allowedOf done = allowedOf done' := by
  induction h with
  | nil => rfl
  | cons hhead _ ih =>
    unfold allowedOf at ih ⊢
    rw [List.flatMap_cons, List.flatMap_cons, ih, hhead.1.normalize, hhead.2]

/-- However plan, marks and payload spell their hosts, the same hosts stay done and the same rows
are kept. -/
theorem retain_respelled {grouped grouped' : Plan} {doneHosts doneHosts' : List String}
    {payload payload' : Row} {done : List String} {kept : Row}
    (hplan : List.Forall₂ SameEntry grouped.entries grouped'.entries)
    (hdone : ∀ name, name ∈ doneHosts.map normalizeHost ↔ name ∈ doneHosts'.map normalizeHost)
    (hpayload : Respelled render payload payload')
    (h : retainCompletedPayload lib render grouped doneHosts payload = .ok (done, kept)) :
    ∃ done' kept',
      retainCompletedPayload lib render grouped' doneHosts' payload' = .ok (done', kept') ∧
        List.Forall₂ SameHost done done' ∧ Respelled render kept kept' := by
  obtain ⟨observed, rows, hobserved, rfl, hrows, rfl⟩ := retain_ok h
  have hobserved' : observedTcpPorts lib render payload' = .ok observed := by
    obtain ⟨all, hall, hmap⟩ := Except.bind_eq_ok.mp hobserved
    obtain ⟨all', hall', hmatched⟩ := hpayload.sections "open" (by decide) all hall
    unfold observedTcpPorts
    rw [hall']
    dsimp only [Except.bind]
    rw [← gather_forall₂ hmatched fun _ _ hsame => hsame.observedRow]
    exact hmap
  have hentries : List.Forall₂ SameEntry
      (retainedEntries grouped doneHosts (successfulTcpPorts payload) observed)
      (retainedEntries grouped' doneHosts' (successfulTcpPorts payload') observed) := by
    refine List.rel_filter ?_ hplan
    intro entry entry' hentry
    obtain ⟨hhost, hports⟩ := hentry
    simp only [Bool.and_eq_true, decide_eq_true_eq, List.all_eq_true, hhost.normalize, hports,
      hdone, mem_successfulTcpPorts, hpayload.receipts]
  have hrange := @retainedEntries_range payload grouped doneHosts observed
  have hrange' := @retainedEntries_range payload' grouped' doneHosts' observed
  generalize retainedEntries grouped doneHosts (successfulTcpPorts payload) observed = entries at *
  have hsections : ∀ field ∈ keptFields, ∃ rows', keptRows lib render payload' (allowedOf entries)
      field = .ok rows' ∧ List.Forall₂ (SameRow render) (rows field) rows' := by
    intro field hfield
    obtain ⟨before, hbefore, hkept⟩ := Except.bind_eq_ok.mp (hrows field hfield)
    obtain ⟨before', hbefore', hmatched⟩ := hpayload.sections field hfield before hbefore
    obtain ⟨rows', hrows', hresult⟩ :=
      keep_forall₂ hmatched (fun _ _ hsame => hsame.keptRow (allowedOf entries) field) hkept
    refine ⟨rows', ?_, hresult⟩
    unfold keptRows
    rw [hbefore']
    exact hrows'
  choose! rows' hrows' hmatched using hsections
  rw [allowedOf_forall₂ hentries] at hrows'
  refine ⟨_, _, retain_of_parts hobserved' hrows', ?_, ⟨fun name port => ?_, ?_⟩⟩
  · rw [List.forall₂_map_left_iff, List.forall₂_map_right_iff]
    exact hentries.imp fun _ _ hentry => hentry.1
  · rw [receipt_manifest hrange, receipt_manifest hrange']
    constructor
    · rintro ⟨entry, hentry, rfl, hport⟩
      obtain ⟨entry', hentry', hhost, hports⟩ := partner_of_mem hentries.flip hentry
      exact ⟨entry', hentry', hhost.normalize.symm, hports ▸ hport⟩
    · rintro ⟨entry', hentry', rfl, hport⟩
      obtain ⟨entry, hentry, hhost, hports⟩ := partner_of_mem hentries hentry'
      exact ⟨entry, hentry, hhost.normalize, hports ▸ hport⟩
  · intro field hfield held hheld
    rw [rowsOf_keptPayload hfield] at hheld
    obtain rfl := Except.ok.inj hheld
    exact ⟨rows' field, rowsOf_keptPayload hfield, hmatched field hfield⟩

end Spellings

section Plans

variable {grouped : Plan} {doneHosts : List String} {host : String} {ports : List ℤ} {port : ℤ}

theorem mem_firstSeen {α : Type} [DecidableEq α] {items : List α} {item : α} :
    item ∈ firstSeen items ↔ item ∈ items := by
  unfold firstSeen
  rw [List.mem_reverse, List.mem_dedup, List.mem_reverse]

theorem mem_signature : port ∈ signature ports ↔ port ∈ ports := by
  unfold signature
  rw [(List.perm_insertionSort _ _).mem_iff, List.mem_dedup]

theorem mem_pending : (host, ports) ∈ pending grouped doneHosts ↔ host ∉ doneHosts ∧
    ports ≠ [] ∧ ∃ listed, (host, listed) ∈ grouped.entries ∧ ports = signature listed := by
  have hlookup : ∀ listed, grouped.entries.lookup host = some listed ↔
      (host, listed) ∈ grouped.entries :=
    fun listed => ⟨mem_of_lookup, lookup_of_mem grouped.nodup⟩
  unfold pending
  rw [List.mem_filterMap]
  constructor
  · rintro ⟨other, hother, hsome⟩
    obtain ⟨hlisted, hpending⟩ := List.mem_filter.mp hother
    dsimp only at hsome
    split_ifs at hsome with hports
    obtain ⟨rfl, rfl⟩ := Prod.mk.inj (Option.some.inj hsome)
    obtain ⟨⟨name, listed⟩, hentry, hname⟩ :=
      List.mem_map.mp ((List.perm_insertionSort _ _).mem_iff.mp hlisted)
    obtain rfl : name = other := hname
    refine ⟨of_decide_eq_true hpending, hports, listed, hentry, ?_⟩
    rw [(hlookup listed).mpr hentry]
    rfl
  · rintro ⟨hpending, hports, listed, hentry, rfl⟩
    refine ⟨host, List.mem_filter.mpr ⟨(List.perm_insertionSort _ _).mem_iff.mpr
      (List.mem_map_of_mem hentry), decide_eq_true hpending⟩, ?_⟩
    rw [(hlookup listed).mpr hentry]
    exact if_neg hports

theorem mem_planTcpProbe (chunkHosts : ℕ) :
    (∃ chunk ∈ planTcpProbe grouped chunkHosts doneHosts, host ∈ chunk.hosts ∧
      port ∈ chunk.ports) ↔
      host ∉ doneHosts ∧ ∃ listed, (host, listed) ∈ grouped.entries ∧ port ∈ listed := by
  have hsize : 0 < max 1 chunkHosts := by omega
  unfold planTcpProbe
  constructor
  · rintro ⟨chunk, hchunk, hhost, hport⟩
    obtain ⟨ports, _, hpart⟩ := List.mem_flatMap.mp hchunk
    obtain ⟨part, hcut, rfl⟩ := List.mem_map.mp hpart
    obtain ⟨⟨name, listed⟩, hentry, hname⟩ :=
      List.mem_map.mp ((mem_chunks hsize).mp ⟨part, hcut, hhost⟩)
    obtain rfl : name = host := hname
    obtain ⟨hpending, hsame⟩ := List.mem_filter.mp hentry
    obtain rfl : listed = ports := of_decide_eq_true hsame
    obtain ⟨hnot, _, original, horiginal, rfl⟩ := mem_pending.mp hpending
    exact ⟨hnot, original, horiginal, mem_signature.mp hport⟩
  · rintro ⟨hnot, listed, hentry, hport⟩
    have hpending : (host, signature listed) ∈ pending grouped doneHosts :=
      mem_pending.mpr ⟨hnot, List.ne_nil_of_mem (mem_signature.mpr hport), listed, hentry, rfl⟩
    have hgrouped : (host, signature listed) ∈ (pending grouped doneHosts).filter fun entry =>
        decide (entry.2 = signature listed) :=
      List.mem_filter.mpr ⟨hpending, decide_eq_true rfl⟩
    obtain ⟨part, hpart, hmem⟩ := (mem_chunks hsize).mpr (List.mem_map_of_mem hgrouped)
    exact ⟨⟨part, signature listed⟩, List.mem_flatMap.mpr ⟨signature listed,
      mem_firstSeen.mpr (List.mem_map_of_mem hpending), List.mem_map_of_mem hpart⟩, hmem,
      mem_signature.mpr hport⟩

end Plans

section Results

variable {lib : Text} {render : Json → List Char} {grouped : Plan} {doneHosts : List String}
  {payload : Row} {done : List String} {kept : Row}

theorem done_entry (h : retainCompletedPayload lib render grouped doneHosts payload =
    .ok (done, kept)) {host : String} {ports : List ℤ} (hentry : (host, ports) ∈ grouped.entries)
    (hdone : host ∈ done) : ∀ port ∈ ports, Receipt payload (normalizeHost host) port := by
  obtain ⟨observed, _, _, rfl, _, _⟩ := retain_ok h
  obtain ⟨⟨name, listed⟩, hretained, hname⟩ := List.mem_map.mp hdone
  obtain rfl : name = host := hname
  obtain ⟨hplanned, _, _, hsuccessful, _⟩ := mem_retainedEntries.mp hretained
  have hsame := Option.some.inj ((lookup_of_mem grouped.nodup hentry).symm.trans
    (lookup_of_mem grouped.nodup hplanned))
  intro port hport
  rw [hsame] at hport
  exact mem_successfulTcpPorts.mp (hsuccessful port hport)

theorem kept_row (h : retainCompletedPayload lib render grouped doneHosts payload =
    .ok (done, kept)) {field : String} (hfield : field ∈ keptFields) {row : Row}
    (hrow : Holds kept field row) : Holds payload field row ∧ ∃ host ports,
      (host, ports) ∈ grouped.entries ∧ host ∈ done ∧
        normalizeHost host ∈ identities render row ∧
          (field = "os" ∨ ∃ port ∈ ports, portOf lib row = .ok port) := by
  obtain ⟨observed, rows, _, rfl, hrows, rfl⟩ := retain_ok h
  obtain ⟨held, hheld, hmem⟩ := hrow
  rw [rowsOf_keptPayload hfield] at hheld
  obtain rfl := Except.ok.inj hheld
  obtain ⟨before, hbefore, hkeep⟩ := Except.bind_eq_ok.mp (hrows field hfield)
  obtain ⟨hwas, htest⟩ := (mem_keep hkeep).mp hmem
  obtain ⟨name, hname, port, hallowed, hport⟩ := keptRow_true htest
  obtain ⟨⟨host, ports⟩, hentry, rfl, hin⟩ := mem_allowedOf.mp hallowed
  refine ⟨⟨before, hbefore, hwas⟩, host, ports, (mem_retainedEntries.mp hentry).1,
    List.mem_map_of_mem hentry, hname, ?_⟩
  exact hport.imp_right fun hread => ⟨port, hin, hread⟩

theorem done_planned (h : retainCompletedPayload lib render grouped doneHosts payload =
    .ok (done, kept)) : ∀ host ∈ done, normalizeHost host ∈ doneHosts.map normalizeHost := by
  obtain ⟨_, _, _, rfl, _, _⟩ := retain_ok h
  intro host hhost
  obtain ⟨entry, hentry, rfl⟩ := List.mem_map.mp hhost
  exact (mem_retainedEntries.mp hentry).2.1

/-- A resume is honest: a host stays done on receipts for all its ports, a row is kept for a kept
host and port, spellings do not matter, what was kept is kept again, and a port without a receipt is
probed. -/
theorem resume_honest
    (h : retainCompletedPayload lib render grouped doneHosts payload = .ok (done, kept)) :
    (∀ host ports, (host, ports) ∈ grouped.entries → host ∈ done →
      ∀ port ∈ ports, Receipt payload (normalizeHost host) port) ∧
    (∀ field ∈ keptFields, ∀ row, Holds kept field row → Holds payload field row ∧ ∃ host ports,
      (host, ports) ∈ grouped.entries ∧ host ∈ done ∧ normalizeHost host ∈ identities render row ∧
        (field = "os" ∨ ∃ port ∈ ports, portOf lib row = .ok port)) ∧
    ((∀ first second, SameHost first second → normalizeHost first = normalizeHost second) ∧
      ∀ (grouped' : Plan) (doneHosts' : List String) (payload' : Row),
        List.Forall₂ SameEntry grouped.entries grouped'.entries →
        List.Forall₂ SameHost doneHosts doneHosts' → Respelled render payload payload' →
        ∃ done' kept',
          retainCompletedPayload lib render grouped' doneHosts' payload' = .ok (done', kept') ∧
            List.Forall₂ SameHost done done' ∧ Respelled render kept kept') ∧
    (retainCompletedPayload lib render grouped doneHosts kept = .ok (done, kept) ∧
      retainCompletedPayload lib render grouped done kept = .ok (done, kept)) ∧
    ∀ chunkHosts host ports port, (host, ports) ∈ grouped.entries → port ∈ ports →
      ¬ Receipt payload (normalizeHost host) port →
        ∃ chunk ∈ planTcpProbe grouped chunkHosts done, host ∈ chunk.hosts ∧
          port ∈ chunk.ports := by
  refine ⟨fun host ports hentry hhost => done_entry h hentry hhost,
    fun field hfield row hrow => kept_row h hfield hrow,
    ⟨fun first second hsame => hsame.normalize, fun grouped' doneHosts' payload' hplan hdone hpay =>
      retain_respelled hplan (fun name => ?_) hpay h⟩,
    ⟨retain_again h (done_planned h), retain_again h fun host hhost => List.mem_map_of_mem hhost⟩,
    fun chunkHosts host ports port hentry hport hnone => ?_⟩
  · have hnames : doneHosts.map normalizeHost = doneHosts'.map normalizeHost := by
      have hmatched := hdone.imp fun _ _ hsame => hsame.normalize
      rw [← List.forall₂_eq_eq_eq, List.forall₂_map_left_iff, List.forall₂_map_right_iff]
      exact hmatched
    rw [hnames]
  · refine (mem_planTcpProbe chunkHosts).mpr ⟨fun hhost => ?_, ports, hentry, hport⟩
    exact hnone (done_entry h hentry hhost port hport)

def spelledPlan : Plan := ⟨[("0:0:0:0:0:0:0:1", [443]), ("10.0.0.1", [22])], by decide⟩

def spelledPayload : Row :=
  keptPayload (completionManifest [("::1", [443])])
    [[[("ip", .str "::1"), ("port", .str "443")]], [], [], [], []]

theorem resume_honest_spelled : ∃ kept,
    retainCompletedPayload ascii (fun _ => []) spelledPlan ["0::1", "10.0.0.1"]
        spelledPayload = .ok (["0:0:0:0:0:0:0:1"], kept) ∧
      retainCompletedPayload ascii (fun _ => []) spelledPlan ["0:0:0:0:0:0:0:1"] kept =
        .ok (["0:0:0:0:0:0:0:1"], kept) := by
  have hdone : (retainCompletedPayload ascii (fun _ => []) spelledPlan ["0::1", "10.0.0.1"]
      spelledPayload).toOption.map Prod.fst = some ["0:0:0:0:0:0:0:1"] := by
    decide +kernel
  cases hretain : retainCompletedPayload ascii (fun _ => []) spelledPlan
      ["0::1", "10.0.0.1"] spelledPayload with
  | error raised =>
    rw [hretain] at hdone
    cases hdone
  | ok result =>
    obtain ⟨done, kept⟩ := result
    rw [hretain] at hdone
    obtain rfl := Option.some.inj hdone
    exact ⟨kept, rfl, (resume_honest hretain).2.2.2.1.2⟩

end Results

section Chunked

variable {grouped grouped' : Plan} {doneHosts : List String} {host : String} {port : ℤ}

def TcpProbeChunk.endpoints (chunk : TcpProbeChunk) : List (String × ℤ) :=
  chunk.hosts.flatMap fun host => chunk.ports.map fun port => (host, port)

theorem TcpProbeChunk.mem_endpoints {chunk : TcpProbeChunk} :
    (host, port) ∈ chunk.endpoints ↔ host ∈ chunk.hosts ∧ port ∈ chunk.ports := by
  unfold TcpProbeChunk.endpoints
  simp only [List.mem_flatMap, List.mem_map, Prod.mk.injEq]
  constructor
  · rintro ⟨other, hhost, number, hport, rfl, rfl⟩
    exact ⟨hhost, hport⟩
  · rintro ⟨hhost, hport⟩
    exact ⟨host, hhost, port, hport, rfl, rfl⟩

theorem nodup_firstSeen {α : Type} [DecidableEq α] (items : List α) : (firstSeen items).Nodup := by
  unfold firstSeen
  exact List.nodup_reverse.mpr (List.nodup_dedup _)

theorem nodup_signature (ports : List ℤ) : (signature ports).Nodup :=
  (List.perm_insertionSort _ _).nodup_iff.mpr (List.nodup_dedup ports)

theorem nodup_pending : ((pending grouped doneHosts).map Prod.fst).Nodup := by
  have hhosts : (((grouped.entries.map Prod.fst).insertionSort (· ≤ ·)).filter fun host =>
      decide (host ∉ doneHosts)).Nodup :=
    ((List.perm_insertionSort _ _).nodup_iff.mpr grouped.nodup).filter _
  unfold pending
  generalize ((grouped.entries.map Prod.fst).insertionSort (· ≤ ·)).filter _ = hosts at hhosts
  refine hhosts.sublist ?_
  rw [List.map_filterMap]
  clear hhosts
  induction hosts with
  | nil => exact .slnil
  | cons host rest ih =>
    rw [List.filterMap_cons]
    dsimp only
    split_ifs with hports
    · exact ih.cons _
    · exact ih.cons_cons _

theorem pending_perm (h : grouped.entries.Perm grouped'.entries) :
    pending grouped' doneHosts = pending grouped doneHosts := by
  have hsorted : (grouped'.entries.map Prod.fst).insertionSort (· ≤ ·) =
      (grouped.entries.map Prod.fst).insertionSort (· ≤ ·) :=
    List.Perm.eq_of_pairwise' (List.pairwise_insertionSort (· ≤ ·) _)
      (List.pairwise_insertionSort (· ≤ ·) _) (((List.perm_insertionSort _ _).trans
        (h.map Prod.fst).symm).trans (List.perm_insertionSort _ _).symm)
  have hlookup : ∀ host, grouped'.entries.lookup host = grouped.entries.lookup host := by
    intro host
    refine Option.ext fun ports => ⟨fun hfound => ?_, fun hfound => ?_⟩
    · exact lookup_of_mem grouped.nodup (h.mem_iff.mpr (mem_of_lookup hfound))
    · exact lookup_of_mem grouped'.nodup (h.mem_iff.mp (mem_of_lookup hfound))
  unfold pending
  rw [hsorted]
  simp only [hlookup]

theorem endpoints_of_signature {hosts : List String} {ports : List ℤ} {chunkHosts : ℕ} :
    (((chunks (max 1 chunkHosts) hosts).map fun part => (⟨part, ports⟩ : TcpProbeChunk)).flatMap
      TcpProbeChunk.endpoints) = hosts.flatMap fun host => ports.map fun port => (host, port) := by
  have hflat : (chunks (max 1 chunkHosts) hosts).flatMap id = hosts := by
    rw [List.flatMap_id]
    exact flatten_chunks (by omega)
  conv_rhs => rw [← hflat]
  rw [List.flatMap_map, List.flatMap_assoc]
  rfl

theorem nodup_endpoints (grouped : Plan) (chunkHosts : ℕ) (doneHosts : List String) :
    ((planTcpProbe grouped chunkHosts doneHosts).flatMap TcpProbeChunk.endpoints).Nodup := by
  have hone : ∀ {name : String} {ports ports' : List ℤ},
      (name, ports) ∈ pending grouped doneHosts → (name, ports') ∈ pending grouped doneHosts →
        ports = ports' := by
    intro name ports ports' hfirst hsecond
    have hkeys : ((pending grouped doneHosts).map Prod.fst).Nodup := nodup_pending
    exact Option.some.inj ((lookup_of_mem hkeys hfirst).symm.trans (lookup_of_mem hkeys hsecond))
  have hsigned : ∀ {name : String} {ports : List ℤ},
      name ∈ ((pending grouped doneHosts).filter fun entry => decide (entry.2 = ports)).map
        Prod.fst → (name, ports) ∈ pending grouped doneHosts := by
    intro name ports hname
    obtain ⟨⟨other, held⟩, hentry, hsame⟩ := List.mem_map.mp hname
    obtain ⟨hpending, hports⟩ := List.mem_filter.mp hentry
    obtain rfl : other = name := hsame
    obtain rfl : held = ports := of_decide_eq_true hports
    exact hpending
  unfold planTcpProbe
  dsimp only
  rw [List.flatMap_assoc]
  simp only [endpoints_of_signature]
  rw [List.nodup_flatMap]
  constructor
  · intro ports hports
    obtain ⟨⟨name, held⟩, hpending, hsame⟩ := List.mem_map.mp (mem_firstSeen.mp hports)
    obtain rfl : held = ports := hsame
    obtain ⟨_, _, listed, _, rfl⟩ := mem_pending.mp hpending
    rw [List.nodup_flatMap]
    constructor
    · intro other _
      exact (nodup_signature listed).map fun _ _ h => (Prod.mk.inj h).2
    · have hhosts := (@nodup_pending grouped doneHosts).sublist
        (List.Sublist.map Prod.fst (List.filter_sublist (p := fun entry =>
          decide (entry.2 = signature listed))))
      refine List.Pairwise.imp (fun {first second} hne => ?_) hhosts
      intro endpoint hfirst hsecond
      obtain ⟨_, _, rfl⟩ := List.mem_map.mp hfirst
      obtain ⟨_, _, hsame⟩ := List.mem_map.mp hsecond
      exact hne (Prod.mk.inj hsame).1.symm
  · refine List.Pairwise.imp (fun {first second} hne => ?_) (nodup_firstSeen _)
    intro endpoint hfirst hsecond
    obtain ⟨name, hname, hmem⟩ := List.mem_flatMap.mp hfirst
    obtain ⟨port, _, rfl⟩ := List.mem_map.mp hmem
    obtain ⟨other, hother, hmem'⟩ := List.mem_flatMap.mp hsecond
    obtain ⟨_, _, hsame⟩ := List.mem_map.mp hmem'
    obtain ⟨rfl, _⟩ := Prod.mk.inj hsame
    exact hne (hone (hsigned hname) (hsigned hother))

/-- The planned chunks probe every pending endpoint once and nothing else, each for at most so many
hosts, and do not depend on the order of the plan. -/
theorem planTcpProbe_partition (grouped : Plan) (chunkHosts : ℕ) (doneHosts : List String) :
    ((planTcpProbe grouped chunkHosts doneHosts).flatMap TcpProbeChunk.endpoints).Nodup ∧
    (∀ host port, (host, port) ∈ (planTcpProbe grouped chunkHosts doneHosts).flatMap
        TcpProbeChunk.endpoints ↔
      host ∉ doneHosts ∧ ∃ listed, (host, listed) ∈ grouped.entries ∧ port ∈ listed) ∧
    (∀ chunk ∈ planTcpProbe grouped chunkHosts doneHosts,
      chunk.hosts ≠ [] ∧ chunk.hosts.length ≤ max 1 chunkHosts) ∧
    ∀ grouped' : Plan, grouped.entries.Perm grouped'.entries →
      planTcpProbe grouped' chunkHosts doneHosts = planTcpProbe grouped chunkHosts doneHosts := by
  refine ⟨nodup_endpoints grouped chunkHosts doneHosts, fun host port => ?_,
    fun chunk hchunk => ?_, fun grouped' hperm => ?_⟩
  · rw [← mem_planTcpProbe chunkHosts, List.mem_flatMap]
    simp only [TcpProbeChunk.mem_endpoints]
  · obtain ⟨ports, _, hpart⟩ := List.mem_flatMap.mp hchunk
    obtain ⟨part, hcut, rfl⟩ := List.mem_map.mp hpart
    exact length_of_mem_chunks (by omega) hcut
  · unfold planTcpProbe
    rw [pending_perm hperm]

end Chunked

section Passes

variable (lib : Text) (render : Json → List Char)

structure Answer where
  payload : Row
  returncode : ℤ

structure Probe where
  chunk : TcpProbeChunk
  answer : Answer

/-- What one pass is asked, and what it meets; it breaks off where answers are missing. -/
structure Pass where
  grouped : Plan
  marked : List String
  reusable : Bool
  chunkHosts : ℕ
  answers : List Answer

structure Merged where
  sections : String → List Json
  receipts : List (String × Json)

def Merged.raw (merged : Merged) : Row :=
  ("completion", .obj [("schema", .str completionSchema), ("hosts", .obj merged.receipts)]) ::
    keptFields.map fun field => (field, .arr (merged.sections field))

/-- The values of `payload.get(field) or []`. -/
def itemsOf (payload : Row) (field : String) : Except Raised (List Json) :=
  match get payload field with
  | .arr items => .ok items
  | .obj fields => .ok (fields.map fun entry => .str entry.1)
  | .str text => .ok (text.toList.map fun c => .str (String.ofList [c]))
  | value => if truthy value then .error .notIterable else .ok []

/-- What a payload adds to a section; findings stand in for by matches of CVEs. -/
def mergedItems (payload : Row) (field : String) : Except Raised (List Json) :=
  if field = "findings" ∧ truthy (get payload "findings") = false then itemsOf payload "cves"
  else itemsOf payload field

/-- `fields.update(news)`. -/
def updated (fields news : List (String × Json)) : List (String × Json) :=
  (fields.map fun entry => (entry.1, (news.lookup entry.1).getD entry.2)) ++
    news.filter fun entry => (fields.lookup entry.1).isNone

/-- The `hosts` of a manifest. -/
def receiptsOf (completed : List (String × List ℤ)) : List (String × Json) :=
  (completed.insertionSort fun first second => first.1 ≤ second.1).map fun entry =>
    (entry.1, receipt entry.2)

def probed (merged : Merged) (probe : Probe) : Except Raised Merged :=
  (completedHosts lib render (probe.chunk.hosts.map fun host => (host, probe.chunk.ports))
    probe.answer.payload probe.answer.returncode).bind fun resolved =>
      (gather (mergedItems probe.answer.payload) keptFields).map fun items =>
        { sections := fun field =>
            merged.sections field ++ ((keptFields.zip items).lookup field).getD []
          receipts := updated merged.receipts
            (receiptsOf (resolved.map fun host => (host, probe.chunk.ports))) }

/-- The loop over the chunks: what was probed, and what it came to where the loop ends. -/
def runChunks (merged : Merged) : List TcpProbeChunk → List Answer → List Probe × Option Merged
  | [], _ => ([], some merged)
  | _ :: _, [] => ([], none)
  | chunk :: chunks, answer :: answers =>
    match probed lib render merged ⟨chunk, answer⟩ with
    | .error _ => ([⟨chunk, answer⟩], none)
    | .ok next =>
      let later := runChunks next chunks answers
      (⟨chunk, answer⟩ :: later.1, later.2)

/-- What a pass takes over from the artefact of the last one; unusable evidence counts as none. -/
def reuse (raw : Option Row) (pass : Pass) : Except Raised (List String × Row) :=
  if pass.marked = [] ∨ pass.reusable = false then .ok ([], [])
  else
    match raw with
    | none => .ok ([], [])
    | some raw =>
      match retainCompletedPayload lib render pass.grouped (pass.marked.map normalizeHost) raw with
      | .error .notIterable => .ok ([], [])
      | result => result

def started (grouped : Plan) (done : List String) (cached : Row) : Merged where
  sections field := ((mergedItems cached field).toOption).getD []
  receipts := receiptsOf (done.map fun host => (host, (grouped.entries.lookup host).getD []))

/-- The artefact on disk, and all that was probed. -/
structure World where
  raw : Option Row
  history : List Probe

/-- `run_pulse_probe`, as far as it decides what is probed and what is receipted. -/
def World.pass (world : World) (pass : Pass) : World :=
  match reuse lib render world.raw pass with
  | .error _ => world
  | .ok (done, cached) =>
    let result := runChunks lib render (started pass.grouped done cached)
      (planTcpProbe pass.grouped pass.chunkHosts done) pass.answers
    { raw := (result.2.map Merged.raw).or world.raw
      history := world.history ++ result.1 }

def World.run (world : World) (passes : List Pass) : World :=
  passes.foldl (World.pass lib render) world

def World.fresh : World := ⟨none, []⟩

/-- Pulse was asked for a port of a host, ended well, and showed the port open. -/
def Probed (history : List Probe) (name : String) (port : ℤ) : Prop :=
  ∃ probe ∈ history, probe.answer.returncode = 0 ∧ port ∈ probe.chunk.ports ∧
    (∃ host ∈ probe.chunk.hosts, normalizeHost host = name) ∧
      ∃ row, Holds probe.answer.payload "open" row ∧ Observes lib render row name port

def Backed (history : List Probe) (receipts : List (String × Json)) : Prop :=
  ∀ entry ∈ receipts, ∃ ports, entry.2 = receipt ports ∧
    ∀ port ∈ ports, Probed lib render history (normalizeHost entry.1) port

/-- Every receipt of the artefact tells of a probe. -/
def World.Honest (world : World) : Prop :=
  ∀ raw, world.raw = some raw → ∀ name port, Receipt raw name port →
    Probed lib render world.history name port

variable {lib render} {history : List Probe} {name : String} {port : ℤ}

theorem Probed.append (h : Probed lib render history name port) (later : List Probe) :
    Probed lib render (history ++ later) name port := by
  obtain ⟨probe, hprobe, hrest⟩ := h
  exact ⟨probe, List.mem_append_left _ hprobe, hrest⟩

theorem Backed.append {receipts : List (String × Json)} (h : Backed lib render history receipts)
    (later : List Probe) : Backed lib render (history ++ later) receipts := by
  intro entry hentry
  obtain ⟨ports, hports, hall⟩ := h entry hentry
  exact ⟨ports, hports, fun port hport => (hall port hport).append later⟩

theorem backed_receiptsOf {completed : List (String × List ℤ)}
    (h : ∀ entry ∈ completed, ∀ port ∈ entry.2,
      Probed lib render history (normalizeHost entry.1) port) :
    Backed lib render history (receiptsOf completed) := by
  intro entry hentry
  obtain ⟨held, hheld, rfl⟩ := List.mem_map.mp hentry
  exact ⟨held.2, rfl, h held ((List.perm_insertionSort _ _).mem_iff.mp hheld)⟩

theorem Backed.updated {fields news : List (String × Json)}
    (hfields : Backed lib render history fields) (hnews : Backed lib render history news) :
    Backed lib render history (PulseResume.updated fields news) := by
  intro entry hentry
  obtain hold | hnew := List.mem_append.mp hentry
  · obtain ⟨held, hheld, rfl⟩ := List.mem_map.mp hold
    dsimp only
    cases hlookup : news.lookup held.1 with
    | none => exact hfields held hheld
    | some value => exact hnews (held.1, value) (mem_of_lookup hlookup)
  · exact hnews entry (List.mem_filter.mp hnew).1

theorem Backed.receipt {merged : Merged} (h : Backed lib render history merged.receipts)
    (hreceipt : Receipt merged.raw name port) : Probed lib render history name port := by
  obtain ⟨manifest, records, host, record, ports, hmanifest, _, hrecords, hmem, rfl, _, hports, _,
    hport⟩ := hreceipt
  obtain rfl := Json.obj.inj (Option.some.inj hmanifest)
  obtain rfl := Json.obj.inj (Option.some.inj hrecords)
  obtain ⟨held, hheld, hall⟩ := h _ hmem
  exact hall port ((mem_receipt hheld hports).mp hport)

theorem completed_observed {grouped : List (String × List ℤ)} {payload : Row} {returncode : ℤ}
    {resolved : List String}
    (h : completedHosts lib render grouped payload returncode = .ok resolved) {host : String}
    (hhost : host ∈ resolved) : returncode = 0 ∧ ∃ ports, (host, ports) ∈ grouped ∧
      ∀ port ∈ ports, ∃ row, Holds payload "open" row ∧
        Observes lib render row (normalizeHost host) port := by
  unfold completedHosts at h
  split_ifs at h with hcode
  · obtain rfl := Except.ok.inj h
    cases hhost
  · obtain ⟨observed, hobserved, rfl⟩ := Except.map_eq_ok.mp h
    obtain ⟨⟨held, ports⟩, hheld, hname⟩ := List.mem_map.mp hhost
    obtain rfl : held = host := hname
    obtain ⟨hentry, htest⟩ := List.mem_filter.mp hheld
    obtain ⟨rows, hrows, _, hmem⟩ := observed_ok hobserved
    refine ⟨not_not.mp hcode, ports, hentry, fun port hport => ?_⟩
    have hall := List.all_eq_true.mp (Bool.and_eq_true_iff.mp htest).2 port hport
    obtain ⟨row, hrow, hobserves⟩ := (hmem _ _).mp (of_decide_eq_true hall)
    exact ⟨row, ⟨rows, hrows, hrow⟩, hobserves⟩

theorem probed_backed {merged next : Merged} {probe : Probe}
    (h : probed lib render merged probe = .ok next)
    (hbacked : Backed lib render history merged.receipts) :
    Backed lib render (history ++ [probe]) next.receipts := by
  obtain ⟨resolved, hresolved, hmap⟩ := Except.bind_eq_ok.mp h
  obtain ⟨items, _, rfl⟩ := Except.map_eq_ok.mp hmap
  refine (hbacked.append [probe]).updated (backed_receiptsOf ?_)
  intro entry hentry port hport
  obtain ⟨host, hhost, rfl⟩ := List.mem_map.mp hentry
  obtain ⟨hcode, ports, hports, hshown⟩ := completed_observed hresolved hhost
  obtain ⟨other, hother, hsame⟩ := List.mem_map.mp hports
  obtain ⟨rfl, rfl⟩ := Prod.mk.inj hsame
  exact ⟨probe, List.mem_append_right _ List.mem_cons_self, hcode, hport, ⟨other, hother, rfl⟩,
    hshown port hport⟩

theorem runChunks_backed {merged last : Merged} {chunks : List TcpProbeChunk}
    {answers : List Answer} (hbacked : Backed lib render history merged.receipts)
    (hlast : (runChunks lib render merged chunks answers).2 = some last) :
    Backed lib render (history ++ (runChunks lib render merged chunks answers).1)
      last.receipts := by
  induction chunks generalizing merged answers history with
  | nil =>
    obtain rfl := Option.some.inj hlast
    exact hbacked.append _
  | cons chunk chunks ih =>
    cases answers with
    | nil => cases hlast
    | cons answer answers =>
      unfold runChunks at hlast ⊢
      cases hprobed : probed lib render merged ⟨chunk, answer⟩ with
      | error raised =>
        rw [hprobed] at hlast
        cases hlast
      | ok next =>
        rw [hprobed] at hlast
        dsimp only at hlast ⊢
        have hlater := ih (probed_backed hprobed hbacked) hlast
        rw [List.append_assoc] at hlater
        exact hlater

theorem reuse_cases {raw : Option Row} {pass : Pass} {done : List String} {cached : Row}
    (h : reuse lib render raw pass = .ok (done, cached)) : done = [] ∨ ∃ before,
      raw = some before ∧ retainCompletedPayload lib render pass.grouped
        (pass.marked.map normalizeHost) before = .ok (done, cached) := by
  unfold reuse at h
  split_ifs at h with hnone
  · exact .inl (Prod.mk.inj (Except.ok.inj h)).1.symm
  · cases raw with
    | none => exact .inl (Prod.mk.inj (Except.ok.inj h)).1.symm
    | some before =>
      dsimp only at h
      split at h
      · exact .inl (Prod.mk.inj (Except.ok.inj h)).1.symm
      · exact .inr ⟨before, rfl, h⟩

theorem reused_probed {world : World} (hhonest : world.Honest lib render) {pass : Pass}
    {done : List String} {cached : Row}
    (h : reuse lib render world.raw pass = .ok (done, cached)) {host : String} {ports : List ℤ}
    (hentry : (host, ports) ∈ pass.grouped.entries) (hhost : host ∈ done) (hport : port ∈ ports) :
    Probed lib render world.history (normalizeHost host) port := by
  obtain rfl | ⟨before, hbefore, hretain⟩ := reuse_cases h
  · cases hhost
  · exact hhonest before hbefore _ _ (done_entry hretain hentry hhost port hport)

theorem started_backed {world : World} (hhonest : world.Honest lib render) {pass : Pass}
    {done : List String} {cached : Row}
    (h : reuse lib render world.raw pass = .ok (done, cached)) :
    Backed lib render world.history (started pass.grouped done cached).receipts := by
  refine backed_receiptsOf fun entry hentry port hport => ?_
  obtain ⟨host, hhost, rfl⟩ := List.mem_map.mp hentry
  cases hlookup : pass.grouped.entries.lookup host with
  | none =>
    rw [hlookup] at hport
    cases hport
  | some ports =>
    rw [hlookup] at hport
    exact reused_probed hhonest h (mem_of_lookup hlookup) hhost hport

theorem World.Honest.pass {world : World} (h : world.Honest lib render) (pass : Pass) :
    (world.pass lib render pass).Honest lib render := by
  unfold World.pass
  cases hreuse : reuse lib render world.raw pass with
  | error raised => exact h
  | ok taken =>
    obtain ⟨done, cached⟩ := taken
    dsimp only
    have hstarted := started_backed h hreuse
    intro raw hraw name port hreceipt
    dsimp only at hraw ⊢
    cases hlast : (runChunks lib render (started pass.grouped done cached)
      (planTcpProbe pass.grouped pass.chunkHosts done) pass.answers).2 with
    | none =>
      rw [hlast, Option.map_none, Option.none_or] at hraw
      exact (h raw hraw name port hreceipt).append _
    | some last =>
      rw [hlast, Option.map_some, Option.some_or] at hraw
      obtain rfl := Option.some.inj hraw
      exact (runChunks_backed hstarted hlast).receipt hreceipt

theorem World.Honest.run {world : World} (h : world.Honest lib render) (passes : List Pass) :
    (world.run lib render passes).Honest lib render := by
  induction passes generalizing world with
  | nil => exact h
  | cons pass passes ih => exact ih (h.pass pass)

theorem World.fresh_honest : World.fresh.Honest lib render := by
  rintro raw hraw
  cases hraw

/-- Through any passes, broken off or not, over any plans: an endpoint that the next pass does not
probe is one that Pulse has been asked for before, with success, and has shown open. -/
theorem passes_never_skip (passes : List Pass) (pass : Pass) {done : List String} {cached : Row}
    (h : reuse lib render (World.fresh.run lib render passes).raw pass = .ok (done, cached))
    {host : String} {ports : List ℤ} (hentry : (host, ports) ∈ pass.grouped.entries)
    (hport : port ∈ ports) :
    (∃ chunk ∈ planTcpProbe pass.grouped pass.chunkHosts done, host ∈ chunk.hosts ∧
      port ∈ chunk.ports) ∨
    Probed lib render (World.fresh.run lib render passes).history (normalizeHost host) port := by
  by_cases hhost : host ∈ done
  · exact .inr (reused_probed (World.fresh_honest.run passes) h hentry hhost hport)
  · exact .inl ((mem_planTcpProbe pass.chunkHosts).mpr ⟨hhost, ports, hentry, hport⟩)

def answeredPass : Pass where
  grouped := spelledPlan
  marked := ["0::1"]
  reusable := true
  chunkHosts := 64
  answers := [⟨spelledPayload, 0⟩, ⟨[], 1⟩]

theorem passes_never_skip_answered : ∃ done cached,
    reuse ascii (fun _ => []) (World.fresh.run ascii (fun _ => []) [answeredPass]).raw
        answeredPass = .ok (done, cached) ∧ done = ["0:0:0:0:0:0:0:1"] ∧
      ((∃ chunk ∈ planTcpProbe answeredPass.grouped answeredPass.chunkHosts done,
          "0:0:0:0:0:0:0:1" ∈ chunk.hosts ∧ (443 : ℤ) ∈ chunk.ports) ∨
        Probed ascii (fun _ => [])
          (World.fresh.run ascii (fun _ => []) [answeredPass]).history
            (normalizeHost "0:0:0:0:0:0:0:1") 443) := by
  have hdone : (reuse ascii (fun _ => []) (World.fresh.run ascii (fun _ => [])
      [answeredPass]).raw answeredPass).toOption.map Prod.fst = some ["0:0:0:0:0:0:0:1"] := by
    decide +kernel
  cases hreuse : reuse ascii (fun _ => []) (World.fresh.run ascii (fun _ => [])
      [answeredPass]).raw answeredPass with
  | error raised =>
    rw [hreuse] at hdone
    cases hdone
  | ok taken =>
    obtain ⟨done, cached⟩ := taken
    rw [hreuse] at hdone
    obtain rfl := Option.some.inj hdone
    exact ⟨_, cached, rfl, rfl, passes_never_skip [answeredPass] answeredPass hreuse
      List.mem_cons_self List.mem_cons_self⟩

end Passes

end Shapoclyack.PulseResume
