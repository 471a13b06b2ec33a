import Shapoclyack.FindingColumns
import Shapoclyack.Library.Runs

set_option autoImplicit false

namespace Shapoclyack.AssetRegistry

open FindingEvidence ReportEntries VerificationArtifacts Findings FindingFold SoftwareFindings
open Library

inductive AssetStatus where
  | active
  | stale
  | decommissioned
deriving DecidableEq, Repr

inductive IdentifierKind where
  | ip
  | fqdn
  | certSha256
deriving DecidableEq, Repr

/-- The shape of an asset id: hex digits, after `ep_` for an endpoint. -/
def plainId (id : String) : Bool :=
  decide (id ≠ "") && !id.toList.contains '|' && id.toList.head? != some '[' &&
    decide (id ≠ softwareKeyNamespace)

abbrev AssetId := {id : String // plainId id = true}

/-- The library calls of the registry, with the hashes asset ids are made of. -/
structure RegistryText extends CoverageText where
  identityKey : (tenantId : String) → IdentifierKind → String → AssetId
  endpointId : String → AssetId

/-- The operator-set context of an asset, in the order of `CONTEXT_FIELDS`. -/
structure Context where
  ownerEmail : Option String
  businessUnit : Option String
  businessService : Option String
  environment : Option String
  dataClassification : Option String
  exposureLevel : Option String
  assetCriticality : Option ℕ
deriving DecidableEq

def Context.empty : Context := ⟨none, none, none, none, none, none, none⟩

structure Asset where
  assetId : AssetId
  tenantId : String
  status : AssetStatus
  firstSeen : ℤ
  lastSeen : ℤ
  lastScannedAt : Option ℤ
  lastScanRunId : Option String
  lastVulnScanAt : Option ℤ
  context : Context

structure Identifier where
  assetId : AssetId
  tenantId : String
  kind : IdentifierKind
  value : String
deriving DecidableEq

/-- One row of `asset_services`: a listener as a scan last fingerprinted it. -/
structure Service where
  assetId : AssetId
  port : ℕ
  protocol : String
  lastSeenAt : ℤ
  matchedDatasetVersion : Option String
deriving DecidableEq

structure OsGuess where
  assetId : AssetId
  osName : String
  lastSeenAt : ℤ
deriving DecidableEq

structure Tag where
  assetId : AssetId
  key : String
  value : String
deriving DecidableEq

structure ContextEvent where
  assetId : AssetId
  occurredAt : ℤ
  field : String
  oldValue : Option String
  newValue : Option String
deriving DecidableEq

def Identifier.identity (i : Identifier) : String × IdentifierKind × String :=
  (i.tenantId, i.kind, i.value)

def Service.listener (s : Service) : AssetId × ℕ × String := (s.assetId, s.port, s.protocol)

def Tag.place (t : Tag) : AssetId × String := (t.assetId, t.key)

/-- The registry's tables with the findings tracked on its assets. -/
structure Registry where
  assets : Table Asset.assetId
  identifiers : Table Identifier.identity
  services : Table Service.listener
  oses : Table OsGuess.assetId
  tags : Table Tag.place
  contextEvents : List ContextEvent
  findings : Tracker

def Registry.empty : Registry where
  assets := Table.empty _
  identifiers := Table.empty _
  services := Table.empty _
  oses := Table.empty _
  tags := Table.empty _
  contextEvents := []
  findings := Table.empty _

section Candidates

structure IdentityCandidate where
  kind : IdentifierKind
  value : String
  key : AssetId

variable (lib : RegistryText) (tenantId : String)

def identityCandidate (name : String) : Option IdentityCandidate :=
  let value := lib.strip name
  if value = "" then none
  else if isIp lib.toText value then some ⟨.ip, value, lib.identityKey tenantId .ip value⟩
  else
    some ⟨.fqdn, lib.lower value,
      lib.identityKey tenantId .fqdn (lib.lower (lib.strip value))⟩

/-- `add`: an empty value or one already listed is dropped. -/
def addCandidate (candidates : List IdentityCandidate) (c : IdentityCandidate) :
    List IdentityCandidate :=
  if c.value = "" ∨ candidates.any (fun d => d.kind == c.kind && d.value == c.value) then candidates
  else candidates ++ [c]

def identityCandidatesForHost (hostIp : Option String) (hostnames : List String) :
    List IdentityCandidate :=
  ((text hostIp :: hostnames).filterMap (identityCandidate lib tenantId)).foldl addCandidate []

def primary (first : IdentityCandidate) (rest : List IdentityCandidate) : IdentityCandidate :=
  ((first :: rest).find? (fun c => c.kind == .ip)).getD first

end Candidates

section Upsert

variable (reg : Registry) (tenantId : String)

def identifierAssetId (kind : IdentifierKind) (value : String) : Option AssetId :=
  (reg.identifiers.get (tenantId, kind, value)).map (·.assetId)

def findExistingAssetId (candidates : List IdentityCandidate) : Option AssetId :=
  candidates.findSome? fun c => identifierAssetId reg tenantId c.kind c.value

/-- Claim an identifier for an asset unless some asset of the tenant holds it. -/
def ensureIdentifier (assetId : AssetId) (kind : IdentifierKind) (value : String)
    (reg : Registry) : Registry :=
  { reg with identifiers := reg.identifiers.apply {
      target := (tenantId, kind, value)
      fresh := ⟨assetId, tenantId, kind, value⟩
      update := id
      fresh_key := rfl
      update_key := fun _ => rfl } }

structure SeenHost where
  tenantId : String
  runId : String
  hostIp : Option String
  hostnames : List String
  /-- Whether the run assessed vulnerabilities. -/
  vulnScanned : Bool
  /-- Whether the tenant's quota has room for one more billed asset. -/
  admitted : Bool
  now : ℤ

def covered (host : SeenHost) (asset : Asset) : Asset :=
  { asset with
    lastScannedAt := some host.now
    lastScanRunId := some host.runId
    lastVulnScanAt := if host.vulnScanned then some host.now else asset.lastVulnScanAt }

def newAsset (assetId : AssetId) (tenantId : String) (now : ℤ) : Asset where
  assetId := assetId
  tenantId := tenantId
  status := .active
  firstSeen := now
  lastSeen := now
  lastScannedAt := none
  lastScanRunId := none
  lastVulnScanAt := none
  context := Context.empty

def sighting (host : SeenHost) (assetId : AssetId) : Change Asset.assetId where
  target := assetId
  fresh := covered host (newAsset assetId host.tenantId host.now)
  update := fun asset => covered host { asset with lastSeen := host.now, status := .active }
  fresh_key := rfl
  update_key := fun _ => rfl

def claimsCapacity (asset : Option Asset) : Bool :=
  match asset with
  | none => true
  | some a => a.status == .decommissioned

def upsertHost (lib : RegistryText) (reg : Registry) (host : SeenHost) : Registry :=
  match identityCandidatesForHost lib host.tenantId host.hostIp host.hostnames with
  | [] => reg
  | first :: rest =>
    let assetId := (findExistingAssetId reg host.tenantId (first :: rest)).getD
      (primary first rest).key
    if claimsCapacity (reg.assets.get assetId) && !host.admitted then reg
    else
      (first :: rest).foldl
        (fun reg c => ensureIdentifier host.tenantId assetId c.kind c.value reg)
        { reg with assets := reg.assets.apply (sighting host assetId) }

end Upsert

section Merge

/-- A value is not in `(None, "")`. -/
def adopt (mine theirs : Option String) : Option String :=
  if truthy mine then mine else if truthy theirs then theirs else mine

/-- The survivor's own context, its empty fields filled from the absorbed asset. -/
def adoptContext (mine theirs : Context) : Context where
  ownerEmail := adopt mine.ownerEmail theirs.ownerEmail
  businessUnit := adopt mine.businessUnit theirs.businessUnit
  businessService := adopt mine.businessService theirs.businessService
  environment := adopt mine.environment theirs.environment
  dataClassification := adopt mine.dataClassification theirs.dataClassification
  exposureLevel := adopt mine.exposureLevel theirs.exposureLevel
  assetCriticality := if mine.assetCriticality.isSome then mine.assetCriticality
    else theirs.assetCriticality

def contextCount (c : Context) : ℕ :=
  ([c.ownerEmail, c.businessUnit, c.businessService, c.environment, c.dataClassification,
    c.exposureLevel].filter truthy).length + (if c.assetCriticality.isSome then 1 else 0)

/-- `score(other) > score(asset)`: context first, then being active, then age. -/
def outscores (other asset : Asset) : Bool :=
  let active := fun a : Asset => if a.status = .active then (0 : ℤ) else -1
  decide (contextCount asset.context < contextCount other.context ∨
    (contextCount asset.context = contextCount other.context ∧
      (active asset < active other ∨
        (active asset = active other ∧ other.firstSeen < asset.firstSeen))))

def pickSurvivor (reg : Registry) (leftId rightId : AssetId) : Option (Asset × Asset) :=
  match reg.assets.get leftId, reg.assets.get rightId with
  | none, none => none
  | none, some right => some (right, right)
  | some left, none => some (left, left)
  | some left, some right => if outscores right left then some (right, left) else some (left, right)

variable (lib : TrackerText) (tenantId : String) (survivorId absorbedId : AssetId)

/-- `count or 1`. -/
def countOr1 (count : ℕ) : ℕ := if count = 0 then 1 else count

/-- The key a finding takes on the survivor; none for a software row that cannot be re-keyed. -/
def rekey (row : Vulnerability) : Option String :=
  if row.source = .endpointSoftware then
    if truthy row.deviceId && truthy row.cve then
      some (softwareFindingKey lib survivorId (text row.deviceId) (text row.cve))
    else none
  else some (findingKey lib survivorId row.cve row.scriptId row.port)

def repointed (row : Vulnerability) : Vulnerability :=
  { row with
    assetId := survivorId
    findingKey := (rekey lib survivorId row).getD row.findingKey }

/-- What the row that already holds the new key takes over from the one it displaces. -/
def absorbCounters (row clash : Vulnerability) : Vulnerability :=
  { clash with
    observationCount := countOr1 clash.observationCount + countOr1 row.observationCount
    lastSeenAt := if clash.lastSeenAt < row.lastSeenAt then row.lastSeenAt else clash.lastSeenAt
    lastSeenRunId :=
      if clash.lastSeenAt < row.lastSeenAt then row.lastSeenRunId else clash.lastSeenRunId }

def repointing : Relocation rowKey where
  move := repointed lib survivorId
  meet := absorbCounters
  meet_key := fun _ _ _ => rfl

def repointFinding (t : Tracker) (k : String × String) : Tracker :=
  match t.get k with
  | none => t
  | some row =>
    match rekey lib survivorId row with
    | none => t.modifyAt k (fun row => { row with assetId := survivorId }) (fun _ => rfl)
    | some _ => t.relocate (repointing lib survivorId) row

def absorbedFindings (t : Tracker) : List Vulnerability :=
  t.rows.filter fun row => decide (row.tenantId = tenantId ∧ row.assetId = absorbedId)

/-- Move the absorbed asset's findings onto the survivor, re-keyed. -/
def repointFindings (t : Tracker) : Tracker :=
  ((absorbedFindings tenantId absorbedId t).map rowKey).foldl (repointFinding lib survivorId) t

def moveIdentifier (t : Table Identifier.identity) (k : String × IdentifierKind × String) :
    Table Identifier.identity :=
  match t.get k with
  | none => t
  | some ident =>
    let moved := t.modifyAt k (fun ident => { ident with assetId := survivorId }) (fun _ => rfl)
    match t.get (tenantId, ident.kind, ident.value) with
    | none => moved
    | some taken => if taken.assetId = survivorId then t.remove k else moved

def moveIdentifiers (t : Table Identifier.identity) : Table Identifier.identity :=
  ((t.rows.filter fun ident => decide (ident.assetId = absorbedId)).map
    Identifier.identity).foldl (moveIdentifier tenantId survivorId) t

def retagging : Relocation Tag.place where
  move := fun tag => { tag with assetId := survivorId }
  meet := fun _ clash => clash
  meet_key := fun _ _ _ => rfl

def relistening : Relocation Service.listener where
  move := fun row => { row with assetId := survivorId }
  meet := fun row clash =>
    if clash.lastSeenAt < row.lastSeenAt then { row with assetId := survivorId } else clash
  meet_key := by
    intro row clash h
    split_ifs
    · exact h.symm
    · rfl

def reguessing : Relocation OsGuess.assetId where
  move := fun os => { os with assetId := survivorId }
  meet := fun os clash =>
    if clash.lastSeenAt < os.lastSeenAt then { os with assetId := survivorId } else clash
  meet_key := by
    intro os clash h
    split_ifs
    · exact h.symm
    · rfl

def moveTags (t : Table Tag.place) : Table Tag.place :=
  ((t.rows.filter fun tag => decide (tag.assetId = absorbedId)).map Tag.place).foldl
    (Table.relocateKey (retagging survivorId)) t

def mergeServices (t : Table Service.listener) : Table Service.listener :=
  (((t.rows.filter fun row => decide (row.assetId = absorbedId)).map Service.listener).foldl
    (Table.relocateKey (relistening survivorId)) t).modify
      (fun row =>
        if row.assetId = survivorId then { row with matchedDatasetVersion := none } else row)
      (by intro row; split_ifs <;> rfl)

def mergeOses (t : Table OsGuess.assetId) : Table OsGuess.assetId :=
  Table.relocateKey (reguessing survivorId) t absorbedId

def survivorRow (survivor absorbed : Asset) (now : ℤ) : Asset :=
  { survivor with
    context := adoptContext survivor.context absorbed.context
    firstSeen := if absorbed.firstSeen < survivor.firstSeen then absorbed.firstSeen
      else survivor.firstSeen
    status := if survivor.status = .stale ∧ absorbed.status = .active then .active
      else survivor.status
    lastSeen := now }

def mergeAssets (reg : Registry) (survivor absorbed : Asset) (now : ℤ) : Registry :=
  if survivor.assetId = absorbed.assetId then reg
  else
    { assets :=
        (reg.assets.modifyAt survivor.assetId
          (fun row => { survivorRow survivor absorbed now with assetId := row.assetId })
          (fun _ => rfl)).remove absorbed.assetId
      identifiers := moveIdentifiers tenantId survivor.assetId absorbed.assetId reg.identifiers
      services := mergeServices survivor.assetId absorbed.assetId reg.services
      oses := mergeOses survivor.assetId absorbed.assetId reg.oses
      tags := moveTags survivor.assetId absorbed.assetId reg.tags
      contextEvents := reg.contextEvents.map fun event =>
        if event.assetId = absorbed.assetId then { event with assetId := survivor.assetId }
        else event
      findings :=
        repointFindings lib tenantId survivor.assetId absorbed.assetId reg.findings }

end Merge

section Correlation

inductive CorrelationSource where
  | forwardDns
  | certificate
deriving DecidableEq, Repr

/-- One address and name, and the evidence that they might be the same asset. -/
structure IdentityCorrelation where
  ip : String
  fqdn : String
  sources : List CorrelationSource
  shared : Bool

def IdentityCorrelation.mergeable (link : IdentityCorrelation) : Bool :=
  link.sources.contains .forwardDns && link.sources.contains .certificate && !link.shared

def merging (reg : Registry) (tenantId : String) (link : IdentityCorrelation) :
    Option (Asset × Asset) :=
  if link.mergeable then
    match identifierAssetId reg tenantId .ip link.ip,
        identifierAssetId reg tenantId .fqdn link.fqdn with
    | some ipAsset, some fqdnAsset =>
      if ipAsset = fqdnAsset then none
      else
        match pickSurvivor reg ipAsset fqdnAsset with
        | none => none
        | some (survivor, absorbed) =>
          if survivor.status = .decommissioned ∨ absorbed.status = .decommissioned then none
          else some (survivor, absorbed)
    | _, _ => none
  else none

def attaching (reg : Registry) (tenantId : String) (link : IdentityCorrelation) :
    Option AssetId :=
  if link.mergeable then
    let ipAsset := identifierAssetId reg tenantId .ip link.ip
    let fqdnAsset := identifierAssetId reg tenantId .fqdn link.fqdn
    if ipAsset.isSome ∧ fqdnAsset.isSome ∧ ipAsset ≠ fqdnAsset then none
    else
      match ipAsset <|> fqdnAsset with
      | none => none
      | some target =>
        match reg.assets.get target with
        | none => none
        | some asset => if asset.status = .decommissioned then none else some target
  else none

def applyOneCorrelation (lib : TrackerText) (reg : Registry) (tenantId : String)
    (link : IdentityCorrelation) (now : ℤ) : Registry :=
  match merging reg tenantId link with
  | some (survivor, absorbed) => mergeAssets lib tenantId reg survivor absorbed now
  | none =>
    match attaching reg tenantId link with
    | some target =>
      ensureIdentifier tenantId target .fqdn link.fqdn
        (ensureIdentifier tenantId target .ip link.ip reg)
    | none => reg

end Correlation

section Machine

/-- One write to the registry or to the findings on it. -/
inductive Event where
  | hostSeen (host : SeenHost)
  /-- An endpoint whose name no asset carries registers one of its own. -/
  | endpointRegistered (tenantId uuid : String) (now : ℤ)
  | correlated (tenantId : String) (link : IdentityCorrelation) (now : ℤ)
  | statusSet (assetId : AssetId) (status : AssetStatus)
  | contextSet (assetId : AssetId) (context : Context) (changes : List ContextEvent)
  | tagged (tag : Tag)
  | fingerprinted (service : Service)
  | osGuessed (os : OsGuess)
  | scanned (run : Run)
  | inventoried (ctx : DeviceContext)
  | operated (target : String × String) (e : FindingEvents.Event)
  | ticketLinked (target : String × String) (system key : Option String)

def registered (reg : Registry) (tenantId assetId : String) : Bool :=
  reg.assets.rows.any fun a => a.tenantId == tenantId && a.assetId.val == assetId

def known (reg : Registry) (assetId : AssetId) : Bool :=
  (reg.assets.get assetId).isSome

/-- `dev_` and hex digits. -/
def deviceShaped (deviceId : String) : Bool :=
  decide (deviceId ≠ "") && !deviceId.toList.contains '|'

/-- A run's entries resolve to assets read back under its tenant. -/
def resolvesWithin (reg : Registry) (run : Run) : Bool :=
  run.reported.all fun reported =>
    match run.assetFor reported.entry with
    | none => true
    | some asset => registered reg run.tenantId asset.assetId

def enrolment (assetId : AssetId) (tenantId : String) (now : ℤ) : Change Asset.assetId where
  target := assetId
  fresh := newAsset assetId tenantId now
  update := id
  fresh_key := rfl
  update_key := fun _ => rfl

def registerEndpoint (lib : RegistryText) (reg : Registry) (tenantId uuid : String) (now : ℤ) :
    Option Registry :=
  if known reg (lib.endpointId uuid) then none
  else some { reg with
    assets := reg.assets.apply (enrolment (lib.endpointId uuid) tenantId now) }

def setStatus (reg : Registry) (assetId : AssetId) (status : AssetStatus) : Registry :=
  { reg with
    assets := reg.assets.modifyAt assetId (fun row => { row with status := status })
      (fun _ => rfl) }

def setContext (reg : Registry) (assetId : AssetId) (context : Context)
    (changes : List ContextEvent) : Registry :=
  { reg with
    assets := reg.assets.modifyAt assetId (fun row => { row with context := context })
      (fun _ => rfl)
    contextEvents := reg.contextEvents ++ changes.map fun c => { c with assetId := assetId } }

def tagging (tag : Tag) : Change Tag.place where
  target := tag.place
  fresh := tag
  update := fun row => { row with value := tag.value }
  fresh_key := rfl
  update_key := fun _ => rfl

def fingerprinting (service : Service) : Change Service.listener where
  target := service.listener
  fresh := service
  update := fun row =>
    { row with
      lastSeenAt := service.lastSeenAt
      matchedDatasetVersion := service.matchedDatasetVersion }
  fresh_key := rfl
  update_key := fun _ => rfl

def guessing (os : OsGuess) : Change OsGuess.assetId where
  target := os.assetId
  fresh := os
  update := fun row => { row with osName := os.osName, lastSeenAt := os.lastSeenAt }
  fresh_key := rfl
  update_key := fun _ => rfl

def operatedRow (lib : CoverageText) (e : FindingEvents.Event) (row : Vulnerability) :
    Vulnerability :=
  if TrackerTransactions.Event.single e then (FindingEvents.stepEvent lib row e).getD row else row

theorem operatedRow_named (lib : CoverageText) (e : FindingEvents.Event) (row : Vulnerability) :
    FindingColumns.named (operatedRow lib e row) = FindingColumns.named row := by
  unfold operatedRow
  split_ifs with hsingle
  · cases hstep : FindingEvents.stepEvent lib row e with
    | none => rfl
    | some row' => exact FindingColumns.single_named hsingle hstep
  · rfl

def linkTicket (system key : Option String) (row : Vulnerability) : Vulnerability :=
  { row with ticketSystem := system, ticketKey := key }

/-- One step of the registry; none where the database refuses the write and it rolls back. -/
def Registry.step (lib : RegistryText) (reg : Registry) (e : Event) : Option Registry :=
  match e with
  | .hostSeen host => some (upsertHost lib reg host)
  | .endpointRegistered tenantId uuid now => registerEndpoint lib reg tenantId uuid now
  | .correlated tenantId link now =>
    some (applyOneCorrelation lib.toTrackerText reg tenantId link now)
  | .statusSet assetId status => some (setStatus reg assetId status)
  | .contextSet assetId context changes =>
    if known reg assetId then some (setContext reg assetId context changes) else none
  | .tagged tag =>
    if known reg tag.assetId then some { reg with tags := reg.tags.apply (tagging tag) } else none
  | .fingerprinted service =>
    if known reg service.assetId then
      some { reg with services := reg.services.apply (fingerprinting service) }
    else none
  | .osGuessed os =>
    if known reg os.assetId then some { reg with oses := reg.oses.apply (guessing os) } else none
  | .scanned run =>
    if resolvesWithin reg run then
      (registerFindingsFromRun lib.toCoverageText run reg.findings).map fun t =>
        { reg with findings := t }
    else none
  | .inventoried ctx =>
    if registered reg ctx.tenantId ctx.asset.assetId && deviceShaped ctx.device.deviceId then
      (foldDevice lib.toTrackerText ctx reg.findings).map fun t => { reg with findings := t }
    else none
  | .operated target e =>
    some { reg with
      findings := reg.findings.modifyAt target (operatedRow lib.toCoverageText e)
        (fun row => FindingColumns.rowKey_of_named (operatedRow_named lib.toCoverageText e row)) }
  | .ticketLinked target system key =>
    some { reg with
      findings := reg.findings.modifyAt target (linkTicket system key) (fun _ => rfl) }

end Machine

end Shapoclyack.AssetRegistry
