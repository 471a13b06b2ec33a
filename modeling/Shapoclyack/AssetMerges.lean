import Shapoclyack.FindingIdentity

set_option autoImplicit false

namespace Shapoclyack.AssetMerges

open ReportEntries VerificationArtifacts Findings FindingFold SoftwareFindings FindingColumns
open AssetRegistry FindingProblems FindingMoves FindingIdentity Library

/-- The id could found an asset for the host. -/
def FoundedBy (lib : RegistryText) (host : SeenHost) (assetId : AssetId) : Prop :=
  ∃ c ∈ identityCandidatesForHost lib host.tenantId host.hostIp host.hostnames, c.key = assetId

/-- No id these events compute is one of two tenants, or of a host and an endpoint. -/
structure DistinctIds (lib : RegistryText) (events : List Event) : Prop where
  tenant : ∀ host other, .hostSeen host ∈ events → .hostSeen other ∈ events → ∀ assetId,
    FoundedBy lib host assetId → FoundedBy lib other assetId → host.tenantId = other.tenantId
  endpoint : ∀ host tenantId uuid now, .hostSeen host ∈ events →
    .endpointRegistered tenantId uuid now ∈ events → ¬ FoundedBy lib host (lib.endpointId uuid)

section Ownership

variable {lib : RegistryText} {events : List Event} {reg : Registry}

def Owns (assets : Table Asset.assetId) (assetId : AssetId) (tenantId : String) : Prop :=
  ∃ a, assets.get assetId = some a ∧ a.tenantId = tenantId

def Founded (lib : RegistryText) (events : List Event) (a : Asset) : Prop :=
  (∃ host, .hostSeen host ∈ events ∧ host.tenantId = a.tenantId ∧
      FoundedBy lib host a.assetId) ∨
    ∃ tenantId uuid now, .endpointRegistered tenantId uuid now ∈ events ∧
      a.assetId = lib.endpointId uuid

/-- Every identifier belongs to a registered asset of its own tenant. -/
structure Owned (lib : RegistryText) (events : List Event) (reg : Registry) : Prop where
  identifier : reg.identifiers.All fun i => Owns reg.assets i.assetId i.tenantId
  founded : reg.assets.All (Founded lib events)

theorem owns_of_get {assets assets' : Table Asset.assetId} {assetId : AssetId}
    {tenantId : String} (h : Owns assets assetId tenantId)
    (hkeep : ∀ a, assets.get assetId = some a →
      ∃ a', assets'.get assetId = some a' ∧ a'.tenantId = a.tenantId) :
    Owns assets' assetId tenantId := by
  obtain ⟨a, ha, htenant⟩ := h
  obtain ⟨a', ha', hsame⟩ := hkeep a ha
  exact ⟨a', ha', hsame.trans htenant⟩

theorem modifyAt_keeps {assets : Table Asset.assetId} (k : AssetId) (f : Asset → Asset)
    (hf : ∀ a, (f a).assetId = a.assetId) (htenant : ∀ a, (f a).tenantId = a.tenantId)
    (assetId : AssetId) (a : Asset) (ha : assets.get assetId = some a) :
    ∃ a', (assets.modifyAt k f hf).get assetId = some a' ∧ a'.tenantId = a.tenantId := by
  by_cases hk : assetId = k
  · subst hk
    rw [Table.get_modifyAt_self, ha]
    exact ⟨f a, rfl, htenant a⟩
  · rw [Table.get_modifyAt_of_ne _ _ _ hk]
    exact ⟨a, ha, rfl⟩

theorem modifyAt_founded {assets : Table Asset.assetId} (k : AssetId) (f : Asset → Asset)
    (hf : ∀ a, (f a).assetId = a.assetId) (htenant : ∀ a, (f a).tenantId = a.tenantId)
    (h : assets.All (Founded lib events)) : (assets.modifyAt k f hf).All (Founded lib events) :=
  h.modifyAt fun a _ ha => by
    unfold Founded at *
    rw [hf, htenant]
    exact ha

section Candidates

variable {tenantId : String}

theorem identityCandidate_key {name : String} {c : IdentityCandidate}
    (h : identityCandidate lib tenantId name = some c) :
    ∃ kind value, c.key = lib.identityKey tenantId kind value := by
  unfold identityCandidate at h
  simp only at h
  split_ifs at h
  · rw [← Option.some.inj h]
    exact ⟨_, _, rfl⟩
  · rw [← Option.some.inj h]
    exact ⟨_, _, rfl⟩

theorem candidates_keys (lib : RegistryText) (tenantId : String) (hostIp : Option String)
    (hostnames : List String) :
    ∀ c ∈ identityCandidatesForHost lib tenantId hostIp hostnames,
      ∃ kind value, c.key = lib.identityKey tenantId kind value := by
  unfold identityCandidatesForHost
  refine List.foldlRecOn _ addCandidate (motive := fun cs : List IdentityCandidate =>
    ∀ c ∈ cs, ∃ kind value, c.key = lib.identityKey tenantId kind value) (by simp) ?_
  intro cs hcs c hc d hd
  unfold addCandidate at hd
  split_ifs at hd
  · exact hcs d hd
  · rcases List.mem_append.mp hd with hold | hnew
    · exact hcs d hold
    · rw [List.mem_singleton.mp hnew]
      obtain ⟨name, _, hname⟩ := List.mem_filterMap.mp hc
      exact identityCandidate_key hname

theorem primary_mem (first : IdentityCandidate) (rest : List IdentityCandidate) :
    primary first rest ∈ first :: rest := by
  unfold primary
  cases hfind : (first :: rest).find? (fun c => c.kind == .ip) with
  | none => exact List.mem_cons_self
  | some c => exact List.mem_of_find?_eq_some hfind

end Candidates

theorem identifier_owned (h : Owned lib events reg) {tenantId value : String}
    {kind : IdentifierKind}
    {assetId : AssetId} (hfound : identifierAssetId reg tenantId kind value = some assetId) :
    Owns reg.assets assetId tenantId := by
  obtain ⟨i, hi, hasset⟩ := Option.map_eq_some_iff.mp hfound
  obtain ⟨hrow, hkey⟩ := (reg.identifiers.get_eq_some_iff _ _).mp hi
  have howns : Owns reg.assets i.assetId i.tenantId := h.identifier i hrow
  have htenant : i.tenantId = tenantId := congrArg Prod.fst hkey
  rw [hasset, htenant] at howns
  exact howns

theorem ensureIdentifier_owned (h : Owned lib events reg) {tenantId : String} {assetId : AssetId}
    (howns : Owns reg.assets assetId tenantId) (kind : IdentifierKind) (value : String) :
    Owned lib events (ensureIdentifier tenantId assetId kind value reg) :=
  ⟨h.identifier.apply howns fun _ _ hi => hi, h.founded⟩

theorem ensureIdentifiers_owned (h : Owned lib events reg) {tenantId : String} {assetId : AssetId}
    (howns : Owns reg.assets assetId tenantId) (cs : List IdentityCandidate) :
    Owned lib events
      (cs.foldl (fun reg c => ensureIdentifier tenantId assetId c.kind c.value reg) reg) := by
  induction cs generalizing reg with
  | nil => exact h
  | cons c cs ih =>
    rw [List.foldl_cons]
    exact ih (ensureIdentifier_owned h howns c.kind c.value) howns

theorem hostAsset_cases (ids : DistinctIds lib events) (h : Owned lib events reg) {host : SeenHost}
    (hseen : .hostSeen host ∈ events) {first : IdentityCandidate} {rest : List IdentityCandidate}
    (hcandidates : identityCandidatesForHost lib host.tenantId host.hostIp host.hostnames =
      first :: rest) :
    let assetId := (findExistingAssetId reg host.tenantId (first :: rest)).getD
      (primary first rest).key
    Owns reg.assets assetId host.tenantId ∨
      (reg.assets.get assetId = none ∧ FoundedBy lib host assetId) := by
  intro assetId
  cases hexisting : findExistingAssetId reg host.tenantId (first :: rest) with
  | some found =>
    have hid : assetId = found := by simp only [assetId, hexisting, Option.getD_some]
    obtain ⟨c, _, hc⟩ := List.exists_of_findSome?_eq_some hexisting
    rw [hid]
    exact .inl (identifier_owned h hc)
  | none =>
    have hid : assetId = (primary first rest).key := by
      simp only [assetId, hexisting, Option.getD_none]
    have hfound : FoundedBy lib host assetId :=
      ⟨primary first rest, by rw [hcandidates]; exact primary_mem first rest, hid.symm⟩
    cases hget : reg.assets.get assetId with
    | none => exact .inr ⟨rfl, hfound⟩
    | some a =>
      obtain ⟨hrow, haid⟩ := (reg.assets.get_eq_some_iff _ _).mp hget
      refine .inl ⟨a, hget, ?_⟩
      rw [← haid] at hfound
      rcases h.founded a hrow with ⟨other, hother, htenant, hfounded⟩ |
        ⟨tenantId, uuid, now, hregistered, hendpoint⟩
      · rw [← htenant]
        exact ids.tenant other host hother hseen _ hfounded hfound
      · rw [hendpoint] at hfound
        exact absurd hfound (ids.endpoint host tenantId uuid now hseen hregistered)

theorem upsertHost_owned (ids : DistinctIds lib events) (h : Owned lib events reg)
    {host : SeenHost} (hseen : .hostSeen host ∈ events) :
    Owned lib events (upsertHost lib reg host) := by
  unfold upsertHost
  split
  · exact h
  · next first rest hcandidates =>
    have hcases := hostAsset_cases ids h hseen hcandidates
    simp only at hcases ⊢
    generalize (findExistingAssetId reg host.tenantId (first :: rest)).getD
      (primary first rest).key = assetId at hcases ⊢
    split_ifs
    · exact h
    · have hget := reg.assets.get_apply (sighting host assetId)
      have hkeep : ∀ id a, reg.assets.get id = some a →
          ∃ a', (reg.assets.apply (sighting host assetId)).get id = some a' ∧
            a'.tenantId = a.tenantId := by
        intro id a ha
        rw [hget]
        split_ifs with htarget
        · rw [ha]
          exact ⟨_, rfl, rfl⟩
        · exact ⟨a, ha, rfl⟩
      have howns : Owns (reg.assets.apply (sighting host assetId)) assetId host.tenantId := by
        rcases hcases with howns | ⟨hfree, _⟩
        · exact owns_of_get howns (hkeep assetId)
        · refine ⟨(sighting host assetId).fresh, ?_, rfl⟩
          rw [hget, if_pos (show (sighting host assetId).target = assetId from rfl), hfree]
          rfl
      have hfounded : (reg.assets.apply (sighting host assetId)).All (Founded lib events) := by
        unfold Table.apply
        split_ifs with hfree
        · refine h.founded.append ?_
          rcases hcases with ⟨a, ha, _⟩ | ⟨_, hfound⟩
          · rw [show (sighting host assetId).target = assetId from rfl, ha] at hfree
            simp at hfree
          · exact .inl ⟨host, hseen, rfl, hfound⟩
        · exact h.founded.modifyAt fun a _ ha => ha
      have howned : Owned lib events { reg with
          assets := reg.assets.apply (sighting host assetId) } :=
        ⟨fun i hi => owns_of_get (h.identifier i hi) (hkeep i.assetId), hfounded⟩
      exact ensureIdentifiers_owned howned howns (first :: rest)

end Ownership

section Pairs

variable {lib : RegistryText} {events : List Event} {reg : Registry} {tenantId : String}
  {link : IdentityCorrelation} {survivor absorbed : Asset}

theorem pickSurvivor_cases {left right : AssetId} {l r : Asset}
    (hl : reg.assets.get left = some l) (hr : reg.assets.get right = some r)
    (h : pickSurvivor reg left right = some (survivor, absorbed)) :
    (survivor = l ∧ absorbed = r) ∨ (survivor = r ∧ absorbed = l) := by
  unfold pickSurvivor at h
  rw [hl, hr] at h
  simp only at h
  split_ifs at h
  · obtain ⟨hs, ha⟩ := Prod.mk.inj (Option.some.inj h)
    exact .inr ⟨hs.symm, ha.symm⟩
  · obtain ⟨hs, ha⟩ := Prod.mk.inj (Option.some.inj h)
    exact .inl ⟨hs.symm, ha.symm⟩

structure Pair (reg : Registry) (tenantId : String) (survivor absorbed : Asset) : Prop where
  survivorHere : reg.assets.get survivor.assetId = some survivor
  absorbedHere : reg.assets.get absorbed.assetId = some absorbed
  survivorTenant : survivor.tenantId = tenantId
  absorbedTenant : absorbed.tenantId = tenantId
  apart : survivor.assetId ≠ absorbed.assetId

theorem Pair.symm (h : Pair reg tenantId survivor absorbed) :
    Pair reg tenantId absorbed survivor :=
  ⟨h.absorbedHere, h.survivorHere, h.absorbedTenant, h.survivorTenant, h.apart.symm⟩

theorem merging_pair (howned : Owned lib events reg)
    (h : merging reg tenantId link = some (survivor, absorbed)) :
    Pair reg tenantId survivor absorbed := by
  unfold merging at h
  split_ifs at h
  split at h
  case h_2 => simp at h
  case h_1 ipAsset fqdnAsset hip hfqdn =>
    split_ifs at h with hsame
    obtain ⟨l, hl, hltenant⟩ := identifier_owned howned hip
    obtain ⟨r, hr, hrtenant⟩ := identifier_owned howned hfqdn
    have hlid := ((reg.assets.get_eq_some_iff _ _).mp hl).2
    have hrid := ((reg.assets.get_eq_some_iff _ _).mp hr).2
    have hpair : Pair reg tenantId l r := by
      refine ⟨?_, ?_, hltenant, hrtenant, ?_⟩
      · rw [hlid]
        exact hl
      · rw [hrid]
        exact hr
      · rw [hlid, hrid]
        exact hsame
    split at h
    case h_1 => simp at h
    case h_2 s a hpick =>
      split_ifs at h
      obtain ⟨hs, ha⟩ := Prod.mk.inj (Option.some.inj h)
      rw [← hs, ← ha]
      rcases pickSurvivor_cases hl hr hpick with ⟨rfl, rfl⟩ | ⟨rfl, rfl⟩
      · exact hpair
      · exact hpair.symm

end Pairs

section Children

variable {tenantId : String} {survivorId absorbedId : AssetId}

def reowned (survivorId absorbedId : AssetId) (i : Identifier) : Identifier :=
  if i.assetId = absorbedId then { i with assetId := survivorId } else i

theorem moveIdentifiers_get {t : Table Identifier.identity} (hne : survivorId ≠ absorbedId)
    (htenant : ∀ i ∈ t.rows, i.assetId = absorbedId → i.tenantId = tenantId)
    (j : String × IdentifierKind × String) :
    (moveIdentifiers tenantId survivorId absorbedId t).get j =
      (t.get j).map (reowned survivorId absorbedId) := by
  unfold moveIdentifiers
  rw [Table.get_foldl_modifyAt (fun ident => { ident with assetId := survivorId })
    (fun _ => rfl) (moveIdentifier tenantId survivorId)]
  · cases hget : t.get j with
    | none => simp
    | some i =>
      obtain ⟨hi, hkey⟩ := (t.get_eq_some_iff j i).mp hget
      have hmem : j ∈ (t.rows.filter fun ident => decide (ident.assetId = absorbedId)).map
          Identifier.identity ↔ i.assetId = absorbedId := by
        constructor
        · intro h
          obtain ⟨i', hi', hkey'⟩ := List.mem_map.mp h
          obtain ⟨hin, hasset⟩ := List.mem_filter.mp hi'
          rw [← eq_of_key_eq t.unique hin hi (hkey'.trans hkey.symm)]
          simpa using hasset
        · intro h
          rw [← hkey]
          exact List.mem_map_of_mem (List.mem_filter.mpr ⟨hi, by simpa using h⟩)
      simp only [hmem, reowned, Option.map_some]
      split_ifs <;> rfl
  · intro k hk u hu
    obtain ⟨i, hi, rfl⟩ := List.mem_map.mp hk
    obtain ⟨hin, hasset⟩ := List.mem_filter.mp hi
    have habsorbed : i.assetId = absorbedId := by simpa using hasset
    rw [t.get_self hin] at hu
    -- the row that takes the identifier is the identifier itself
    have hself : u.get (tenantId, i.kind, i.value) = some i := by
      rw [← htenant i hin habsorbed]
      exact hu
    have hother : i.assetId ≠ survivorId := by
      rw [habsorbed]
      exact hne.symm
    simp only [moveIdentifier, hu, hself, if_neg hother]
  · exact List.Nodup.sublist (List.Sublist.map _ List.filter_sublist) t.unique

theorem moveTags_lands {t : Table Tag.place} (hne : survivorId ≠ absorbedId) {tag : Tag}
    (htag : tag ∈ t.rows) (hasset : tag.assetId = absorbedId) :
    ∃ tag' ∈ (moveTags survivorId absorbedId t).rows,
      tag'.assetId = survivorId ∧ tag'.key = tag.key := by
  have hin : ∀ b ∈ t.rows.filter fun b => decide (b.assetId = absorbedId),
      b ∈ t.rows ∧ b.assetId = absorbedId := by
    intro b hb
    simpa using List.mem_filter.mp hb
  obtain ⟨tag', htag'⟩ := Table.foldl_relocate_lands (retagging survivorId)
    (Table.relocateKey (retagging survivorId))
    (t.rows.filter fun b => decide (b.assetId = absorbedId)) t
    (fun b _ u hu => Table.relocateKey_of_get (retagging survivorId) b u hu)
    (fun b hb => t.get_self (hin b hb).1)
    (List.Nodup.sublist (List.Sublist.map _ List.filter_sublist) t.unique)
    (fun b _ c hc h => hne ((congrArg Prod.fst h).trans (hin c hc).2))
    (List.mem_filter.mpr ⟨htag, by simpa using hasset⟩)
  obtain ⟨hrow, hkey⟩ := ((moveTags survivorId absorbedId t).get_eq_some_iff _ tag').mp htag'
  exact ⟨tag', hrow, congrArg Prod.fst hkey, congrArg Prod.snd hkey⟩

theorem mergeServices_lands {t : Table Service.listener} (hne : survivorId ≠ absorbedId)
    {row : Service} (hrow : row ∈ t.rows) (hasset : row.assetId = absorbedId) :
    ∃ row' ∈ (mergeServices survivorId absorbedId t).rows,
      row'.assetId = survivorId ∧ row'.port = row.port ∧ row'.protocol = row.protocol := by
  have hin : ∀ b ∈ t.rows.filter fun b => decide (b.assetId = absorbedId),
      b ∈ t.rows ∧ b.assetId = absorbedId := by
    intro b hb
    simpa using List.mem_filter.mp hb
  obtain ⟨moved, hmoved⟩ := Table.foldl_relocate_lands (relistening survivorId)
    (Table.relocateKey (relistening survivorId))
    (t.rows.filter fun b => decide (b.assetId = absorbedId)) t
    (fun b _ u hu => Table.relocateKey_of_get (relistening survivorId) b u hu)
    (fun b hb => t.get_self (hin b hb).1)
    (List.Nodup.sublist (List.Sublist.map _ List.filter_sublist) t.unique)
    (fun b _ c hc h => hne ((congrArg Prod.fst h).trans (hin c hc).2))
    (List.mem_filter.mpr ⟨hrow, by simpa using hasset⟩)
  have hqueued : (mergeServices survivorId absorbedId t).get
      (Service.listener ((relistening survivorId).move row)) = some
        (if moved.assetId = survivorId then { moved with matchedDatasetVersion := none }
          else moved) := by
    unfold mergeServices
    rw [Table.get_modify, hmoved]
    rfl
  obtain ⟨hmem, hkey⟩ := ((mergeServices survivorId absorbedId t).get_eq_some_iff _ _).mp hqueued
  exact ⟨_, hmem, congrArg Prod.fst hkey, congrArg (fun k => k.2.1) hkey,
    congrArg (fun k => k.2.2) hkey⟩

end Children

section Reachable

variable {lib : RegistryText} {events : List Event} {reg reg' : Registry}

theorem identifier_tenant (howned : Owned lib events reg) {a : Asset}
    (ha : reg.assets.get a.assetId = some a) {i : Identifier} (hi : i ∈ reg.identifiers.rows)
    (hasset : i.assetId = a.assetId) : i.tenantId = a.tenantId := by
  obtain ⟨b, hb, htenant⟩ : Owns reg.assets i.assetId i.tenantId := howned.identifier i hi
  rw [hasset, ha] at hb
  rw [← htenant, Option.some.inj hb]

theorem mergeAssets_owned {tenantId : String} {survivor absorbed : Asset}
    (howned : Owned lib events reg) (hpair : Pair reg tenantId survivor absorbed) (now : ℤ) :
    Owned lib events (mergeAssets lib.toTrackerText tenantId reg survivor absorbed now) := by
  have htenants : ∀ i ∈ reg.identifiers.rows, i.assetId = absorbed.assetId →
      i.tenantId = tenantId := fun i hi hasset =>
    (identifier_tenant howned hpair.absorbedHere hi hasset).trans hpair.absorbedTenant
  have hkept : ∀ id, id ≠ absorbed.assetId → ∀ a, reg.assets.get id = some a →
      ∃ a', ((reg.assets.modifyAt survivor.assetId
        (fun row => { survivorRow survivor absorbed now with assetId := row.assetId })
        (fun _ => rfl)).remove absorbed.assetId).get id = some a' ∧ a'.tenantId = a.tenantId := by
    intro id hid a ha
    rw [Table.get_remove, if_neg hid]
    by_cases hs : id = survivor.assetId
    · subst hs
      rw [hpair.survivorHere] at ha
      rw [Table.get_modifyAt_self, hpair.survivorHere, ← Option.some.inj ha]
      exact ⟨_, rfl, rfl⟩
    · rw [Table.get_modifyAt_of_ne _ _ _ hs]
      exact ⟨a, ha, rfl⟩
  rw [mergeAssets, if_neg hpair.apart]
  refine ⟨?_, ?_⟩
  · rw [Table.all_iff_get]
    intro j i' hi'
    rw [moveIdentifiers_get hpair.apart htenants, Option.map_eq_some_iff] at hi'
    obtain ⟨i, hi, rfl⟩ := hi'
    obtain ⟨hrow, _⟩ := (reg.identifiers.get_eq_some_iff j i).mp hi
    unfold reowned
    split_ifs with hasset
    · -- the identifier is the survivor's now, and of the survivor's tenant
      change Owns _ survivor.assetId i.tenantId
      rw [htenants i hrow hasset]
      exact owns_of_get ⟨survivor, hpair.survivorHere, hpair.survivorTenant⟩
        (hkept survivor.assetId hpair.apart)
    · exact owns_of_get (howned.identifier i hrow) (hkept i.assetId hasset)
  · have hmodified : (reg.assets.modifyAt survivor.assetId
        (fun row => { survivorRow survivor absorbed now with assetId := row.assetId })
        (fun _ => rfl)).All (Founded lib events) := by
      refine howned.founded.modifyAt fun a hkey _ => ?_
      have hs := howned.founded survivor
        ((reg.assets.get_eq_some_iff _ _).mp hpair.survivorHere).1
      unfold Founded at hs ⊢
      rw [hkey]
      exact hs
    intro a ha
    exact hmodified a (List.mem_filter.mp ha).1

/-- A registry whose assets and identifiers have stayed as they were. -/
theorem Owned.unmoved (howned : Owned lib events reg) (hassets : reg'.assets = reg.assets)
    (hidentifiers : reg'.identifiers = reg.identifiers) : Owned lib events reg' where
  identifier := by
    rw [hassets, hidentifiers]
    exact howned.identifier
  founded := by
    rw [hassets]
    exact howned.founded

theorem rewritten_owned (howned : Owned lib events reg) (assetId : AssetId) (f : Asset → Asset)
    (hf : ∀ a, (f a).assetId = a.assetId) (htenant : ∀ a, (f a).tenantId = a.tenantId) :
    Owned lib events { reg with assets := reg.assets.modifyAt assetId f hf } where
  identifier i hi :=
    owns_of_get (howned.identifier i hi) (modifyAt_keeps assetId f hf htenant i.assetId)
  founded := modifyAt_founded assetId f hf htenant howned.founded

theorem registerEndpoint_owned (howned : Owned lib events reg) {tenantId uuid : String} {now : ℤ}
    (he : .endpointRegistered tenantId uuid now ∈ events)
    (h : registerEndpoint lib reg tenantId uuid now = some reg') : Owned lib events reg' := by
  unfold registerEndpoint at h
  split_ifs at h
  rw [← Option.some.inj h]
  refine ⟨fun i hi => owns_of_get (howned.identifier i hi) ?_,
    howned.founded.apply (.inr ⟨tenantId, uuid, now, he, rfl⟩) fun a _ ha => ha⟩
  intro a ha
  rw [Table.get_apply]
  split_ifs
  · rw [ha]
    exact ⟨a, rfl, rfl⟩
  · exact ⟨a, ha, rfl⟩

theorem attaching_owns (howned : Owned lib events reg) {tenantId : String}
    {link : IdentityCorrelation} {target : AssetId}
    (htarget : attaching reg tenantId link = some target) : Owns reg.assets target tenantId := by
  unfold attaching at htarget
  simp only at htarget
  split_ifs at htarget
  split at htarget
  · cases htarget
  · next found hfound =>
    have hof : Owns reg.assets found tenantId := by
      cases hip : identifierAssetId reg tenantId .ip link.ip with
      | some ipAsset =>
        rw [hip] at hfound
        exact identifier_owned howned (hip.trans hfound)
      | none =>
        rw [hip] at hfound
        exact identifier_owned howned hfound
    split at htarget
    · cases htarget
    · split_ifs at htarget
      rw [← Option.some.inj htarget]
      exact hof

theorem applyOneCorrelation_owned (howned : Owned lib events reg) (tenantId : String)
    (link : IdentityCorrelation) (now : ℤ) :
    Owned lib events (applyOneCorrelation lib.toTrackerText reg tenantId link now) := by
  unfold applyOneCorrelation
  split
  · next survivor absorbed hmerging =>
    exact mergeAssets_owned howned (merging_pair howned hmerging) now
  · split
    · next target htarget =>
      have howns := attaching_owns howned htarget
      exact ensureIdentifier_owned (ensureIdentifier_owned howned howns .ip link.ip) howns
        .fqdn link.fqdn
    · exact howned

theorem step_owned (ids : DistinctIds lib events) {e : Event} (he : e ∈ events)
    (h : reg.step lib e = some reg') (howned : Owned lib events reg) :
    Owned lib events reg' := by
  cases e with
  | hostSeen host =>
    rw [← Option.some.inj h]
    exact upsertHost_owned ids howned he
  | endpointRegistered tenantId uuid now => exact registerEndpoint_owned howned he h
  | correlated tenantId link now =>
    rw [← Option.some.inj h]
    exact applyOneCorrelation_owned howned tenantId link now
  | statusSet assetId status =>
    rw [← Option.some.inj h]
    exact rewritten_owned howned assetId (fun row => { row with status := status })
      (fun _ => rfl) fun _ => rfl
  | contextSet assetId context changes =>
    simp only [Registry.step] at h
    split_ifs at h
    rw [← Option.some.inj h]
    exact (rewritten_owned howned assetId (fun row => { row with context := context })
      (fun _ => rfl) fun _ => rfl).unmoved rfl rfl
  | tagged tag =>
    simp only [Registry.step] at h
    split_ifs at h
    rw [← Option.some.inj h]
    exact howned.unmoved rfl rfl
  | fingerprinted service =>
    simp only [Registry.step] at h
    split_ifs at h
    rw [← Option.some.inj h]
    exact howned.unmoved rfl rfl
  | osGuessed os =>
    simp only [Registry.step] at h
    split_ifs at h
    rw [← Option.some.inj h]
    exact howned.unmoved rfl rfl
  | scanned run =>
    simp only [Registry.step] at h
    split_ifs at h
    obtain ⟨t, _, rfl⟩ := Option.map_eq_some_iff.mp h
    exact howned.unmoved rfl rfl
  | inventoried ctx =>
    simp only [Registry.step] at h
    split_ifs at h
    obtain ⟨t, _, rfl⟩ := Option.map_eq_some_iff.mp h
    exact howned.unmoved rfl rfl
  | operated target e =>
    rw [← Option.some.inj h]
    exact howned.unmoved rfl rfl
  | ticketLinked target system key =>
    rw [← Option.some.inj h]
    exact howned.unmoved rfl rfl

theorem reachable_owned (ids : DistinctIds lib events)
    (h : Runs (ofStep (Registry.step lib)) Registry.empty events reg) : Owned lib events reg :=
  Runs.invariant (Owned lib events)
    (fun _ _ _ howned hstep => step_owned ids hstep.1 hstep.2 howned) h.labelled
    ⟨Table.all_empty, Table.all_empty⟩

end Reachable

section OpenWork

/-- What a finding is about, read off its own columns. -/
def matter (lib : TrackerText) (row : Vulnerability) : Problem × Option FindingEvidence.Subject :=
  (columnProblem lib row, row.nonCve.map (·.subject))

def Open (row : Vulnerability) : Prop :=
  row.state ≠ .CLOSED ∨ row.exception.until_ ≠ none ∨ row.ticketKey ≠ none ∨
    row.state = .VERIFYING

def noLater (a b : Option ℤ) : Prop :=
  match a, b with
  | _, none => True
  | none, some _ => False
  | some due, some due' => due ≤ due'

theorem noLater_refl (due : Option ℤ) : noLater due due := by
  cases due with
  | none => trivial
  | some due => exact le_refl due

variable (lib : TrackerText) (tenantId : String) (survivorId absorbedId : AssetId)

/-- A row that is open and due no later than any finding of the same matter on the two assets. -/
def Carries (t : Tracker) (r row : Vulnerability) : Prop :=
  matter lib row = matter lib r ∧ row.state ≠ .CLOSED ∧
    ∀ q ∈ t.rows, OfEither tenantId survivorId absorbedId q → matter lib q = matter lib r →
      noLater row.dueAt q.dueAt

/-- What a merge of two assets has to keep of what hangs on them. -/
structure KeepsWork (reg reg' : Registry) : Prop where
  work : ∀ r ∈ reg.findings.rows, OfEither tenantId survivorId absorbedId r → Open r →
    ∃ row' ∈ reg'.findings.rows, row'.tenantId = tenantId ∧ row'.assetId = survivorId ∧
      Carries lib tenantId survivorId absorbedId reg.findings r row'
  identifiers : ∀ i ∈ reg.identifiers.rows, i.assetId = absorbedId →
    { i with assetId := survivorId } ∈ reg'.identifiers.rows
  listeners : ∀ s ∈ reg.services.rows, s.assetId = absorbedId →
    ∃ s' ∈ reg'.services.rows, s'.assetId = survivorId ∧ s'.port = s.port ∧
      s'.protocol = s.protocol
  tags : ∀ tag ∈ reg.tags.rows, tag.assetId = absorbedId →
    ∃ tag' ∈ reg'.tags.rows, tag'.assetId = survivorId ∧ tag'.key = tag.key
  contextEvents : ∀ e ∈ reg.contextEvents, e.assetId = absorbedId →
    { e with assetId := survivorId } ∈ reg'.contextEvents
  exclusive : ∀ i ∈ reg.identifiers.rows,
    ∃! assetId, ∃ j ∈ reg'.identifiers.rows, j.identity = i.identity ∧ j.assetId = assetId

end OpenWork

section Merge

variable {lib : TrackerText} {seen : Set KeyMaterial} {tenantId : String}
  {survivorId absorbedId : AssetId} {t : Tracker}

theorem relabelled_matter (row : Vulnerability) :
    matter lib (relabelled lib tenantId survivorId absorbedId row) = matter lib row := by
  by_cases habsorbed : Absorbed tenantId absorbedId row
  · rw [relabelled_absorbed habsorbed]
    rfl
  · rw [relabelled_other habsorbed]

theorem relabelled_state (row : Vulnerability) :
    (relabelled lib tenantId survivorId absorbedId row).state = row.state ∧
      (relabelled lib tenantId survivorId absorbedId row).dueAt = row.dueAt := by
  by_cases habsorbed : Absorbed tenantId absorbedId row
  · rw [relabelled_absorbed habsorbed]
    exact ⟨rfl, rfl⟩
  · rw [relabelled_other habsorbed]
    exact ⟨rfl, rfl⟩

theorem carries_of_carried {r q row' : Vulnerability}
    (h : Carried (relabelled lib tenantId survivorId absorbedId q) row') :
    Carries lib tenantId survivorId absorbedId t r row' ↔
      Carries lib tenantId survivorId absorbedId t r q := by
  have hmatter : matter lib row' = matter lib q := by
    rw [h]
    exact relabelled_matter q
  have hstate : row'.state = q.state := by
    rw [h]
    exact (relabelled_state q).1
  have hdue : row'.dueAt = q.dueAt := by
    rw [h]
    exact (relabelled_state q).2
  simp only [Carries, hmatter, hstate, hdue]

/-- The work of a finding is carried over exactly when a row that keeps its place carries it. -/
theorem repoint_carries_iff (hash : Collisionless lib seen) (ht : t.All (Rooted lib seen))
    (hmoved : movedMaterials lib tenantId survivorId absorbedId t ⊆ seen)
    (hne : survivorId ≠ absorbedId) (r : Vulnerability) :
    (∃ row' ∈ (repointFindings lib tenantId survivorId absorbedId t).rows,
        row'.tenantId = tenantId ∧ row'.assetId = survivorId ∧
          Carries lib tenantId survivorId absorbedId t r row') ↔
      ∃ q, Keeps lib tenantId survivorId absorbedId t q ∧
        OfEither tenantId survivorId absorbedId q ∧
          Carries lib tenantId survivorId absorbedId t r q := by
  constructor
  · rintro ⟨row', hrow', htenant, hasset, hcarries⟩
    obtain ⟨q, hkeeps, _, hcarried⟩ :=
      lands_keeps hash ht hmoved hne (Table.get_self _ hrow')
    have hcolumns := congrArg Prod.fst hcarried.named
    simp only [named, columnsOf, Columns.mk.injEq] at hcolumns
    have hqtenant : q.tenantId = tenantId := by
      rw [← relabelled_tenant lib tenantId survivorId absorbedId q, ← hcolumns.1, htenant]
    have hqasset : (relabelled lib tenantId survivorId absorbedId q).assetId = survivorId := by
      rw [← hcolumns.2.1, hasset]
    exact ⟨q, hkeeps, ofEither_of_relabelled hqtenant hqasset,
      (carries_of_carried hcarried).mp hcarries⟩
  · rintro ⟨q, hkeeps, heither, hcarries⟩
    obtain ⟨row', hrow', hcarried⟩ := keeps_lands hash ht hmoved hne hkeeps
    have hcolumns := congrArg Prod.fst hcarried.named
    simp only [named, columnsOf, Columns.mk.injEq] at hcolumns
    refine ⟨row', ((Table.get_eq_some_iff _ _ _).mp hrow').1, ?_, ?_,
      (carries_of_carried hcarried).mpr hcarries⟩
    · rw [hcolumns.1, relabelled_tenant, heither.1]
    · rw [hcolumns.2.1, relabelled_asset lib heither]

end Merge

section Runs

variable {lib : RegistryText} {seen : Set KeyMaterial} {reg : Registry}

/-- A merge in any reachable state keeps everything that hangs on the two assets, except that an
open finding of either stays open under its earliest deadline exactly when some row that keeps its
place through the merge does so for it. -/
theorem merge_keeps_work_iff (hash : Collisionless lib.toTrackerText seen) {events : List Event}
    (ids : DistinctIds lib events)
    (h : Runs (guarded (ofStep (Registry.step lib)) (Within lib seen)) Registry.empty events reg)
    {tenantId : String} {link : IdentityCorrelation} {survivor absorbed : Asset}
    (hmerging : merging reg tenantId link = some (survivor, absorbed)) (now : ℤ)
    (hwithin : Within lib seen reg (.correlated tenantId link now)) :
    KeepsWork lib.toTrackerText tenantId survivor.assetId absorbed.assetId reg
        (applyOneCorrelation lib.toTrackerText reg tenantId link now) ↔
      ∀ r ∈ reg.findings.rows,
        OfEither tenantId survivor.assetId absorbed.assetId r → Open r →
        ∃ q, Keeps lib.toTrackerText tenantId survivor.assetId absorbed.assetId reg.findings q ∧
          OfEither tenantId survivor.assetId absorbed.assetId q ∧
          Carries lib.toTrackerText tenantId survivor.assetId absorbed.assetId reg.findings r
            q := by
  have howned := reachable_owned ids h.of_guarded
  have hpair := merging_pair howned hmerging
  have hiff :=
    repoint_carries_iff hash (reachable_rooted hash h) (hwithin.moved hmerging) hpair.apart
  have hmerged : applyOneCorrelation lib.toTrackerText reg tenantId link now =
      mergeAssets lib.toTrackerText tenantId reg survivor absorbed now := by
    unfold applyOneCorrelation
    rw [hmerging]
  have htenants : ∀ i ∈ reg.identifiers.rows, i.assetId = absorbed.assetId →
      i.tenantId = tenantId := fun i hi hasset =>
    (identifier_tenant howned hpair.absorbedHere hi hasset).trans hpair.absorbedTenant
  have hids := moveIdentifiers_get hpair.apart htenants
  rw [hmerged, mergeAssets, if_neg hpair.apart]
  constructor
  · intro hkeeps r hr heither hopen
    exact (hiff r).mp (hkeeps.work r hr heither hopen)
  · intro hcondition
    refine ⟨fun r hr heither hopen => (hiff r).mpr (hcondition r hr heither hopen), ?_,
      fun s hs hasset => mergeServices_lands hpair.apart hs hasset,
      fun tag htag hasset => moveTags_lands hpair.apart htag hasset, ?_, ?_⟩
    · intro i hi hasset
      have hget := hids i.identity
      rw [reg.identifiers.get_self hi, Option.map_some, reowned, if_pos hasset] at hget
      exact ((Table.get_eq_some_iff _ _ _).mp hget).1
    · intro e he hasset
      exact List.mem_map.mpr ⟨e, he, if_pos hasset⟩
    · intro i hi
      have hget := hids i.identity
      rw [reg.identifiers.get_self hi, Option.map_some] at hget
      obtain ⟨hrow, hkey⟩ := (Table.get_eq_some_iff _ _ _).mp hget
      refine ⟨(reowned survivor.assetId absorbed.assetId i).assetId,
        ⟨_, hrow, hkey, rfl⟩, ?_⟩
      rintro assetId ⟨j, hj, hjkey, rfl⟩
      rw [eq_of_key_eq (Table.unique _) hj hrow (hjkey.trans hkey.symm)]

end Runs

section Sample

theorem letters_inj {a b x y : List Char}
    (h : a.flatMap (fun c => List.replicate c.toNat 'a' ++ ['b']) ++ 'c' :: x =
      b.flatMap (fun c => List.replicate c.toNat 'a' ++ ['b']) ++ 'c' :: y) : a = b ∧ x = y := by
  have hclosed : ∀ (n : ℕ) (u v : List Char), List.replicate n 'a' ++ 'b' :: u ≠ 'c' :: v := by
    intro n u v
    cases n <;> simp [List.replicate_succ]
  induction a generalizing b with
  | nil =>
    cases b with
    | nil => simpa using h
    | cons d b =>
      simp only [List.flatMap_nil, List.nil_append, List.flatMap_cons, List.append_assoc,
        List.cons_append] at h
      exact absurd h.symm (hclosed _ _ _)
  | cons c a ih =>
    cases b with
    | nil =>
      simp only [List.flatMap_nil, List.nil_append, List.flatMap_cons, List.append_assoc,
        List.cons_append] at h
      exact absurd h (hclosed _ _ _)
    | cons d b =>
      simp only [List.flatMap_cons, List.append_assoc, List.cons_append, List.nil_append] at h
      have hfree : ∀ n, 'b' ∉ List.replicate n 'a' := by simp
      obtain ⟨hcount, hrest⟩ := split_first (hfree _) (hfree _) h
      obtain ⟨hab, hxy⟩ := ih hrest
      have hcd : c = d := Char.toNat_inj.mp (by simpa using congrArg List.length hcount)
      exact ⟨by rw [hcd, hab], hxy⟩

theorem letters_append {a b : String} {x y : List Char} (h : letters a ++ x = letters b ++ y) :
    a = b := by
  simp only [letters, List.append_assoc, List.cons_append, List.nil_append] at h
  exact String.toList_inj.mp (letters_inj h).1

theorem sample_distinctIds (events : List AssetRegistry.Event) :
    DistinctIds sampleLibrary events where
  tenant host other _ _ assetId hfound hother := by
    obtain ⟨c, hc, rfl⟩ := hfound
    obtain ⟨d, hd, hsame⟩ := hother
    obtain ⟨k, v, hkey⟩ := candidates_keys _ _ _ _ c hc
    obtain ⟨k', v', hkey'⟩ := candidates_keys _ _ _ _ d hd
    rw [hkey, hkey'] at hsame
    have htext := String.ofList_inj.mp (congrArg Subtype.val hsame)
    exact (letters_append (List.cons.inj htext).2).symm
  endpoint host tenantId uuid now _ _ hfound := by
    obtain ⟨c, hc, hsame⟩ := hfound
    obtain ⟨k, v, hkey⟩ := candidates_keys _ _ _ _ c hc
    rw [hkey] at hsame
    have htext := String.ofList_inj.mp (congrArg Subtype.val hsame)
    have hfirst := (List.cons.inj htext).1
    cases k <;> exact absurd hfirst (by decide)

/-- Both assets have the finding; the one on the address is closed by hand. -/
def closedRun : List AssetRegistry.Event :=
  [hostEvent "1" 0, hostEvent "w" 1,
    .scanned (reportingRun "r1" 2 [some "CVE-1"] (sampleAsset .fqdn "w")),
    .scanned (reportingRun "r2" 5 [some "CVE-1"] (sampleAsset .ip "1")),
    .operated ("t", (Problem.reported "CVE-1" "443").key sampleLibrary.toTrackerText "t"
      (sampleAsset .ip "1").val) (.moved .CLOSED none 6)]

theorem closedRun_spares : ∀ e ∈ closedRun, ∀ reg, Spares sampleLibrary reg e := by
  intro e he reg
  simp only [closedRun, hostEvent, List.mem_cons, List.not_mem_nil, or_false] at he
  rcases he with rfl | rfl | rfl | rfl | rfl <;> trivial

end Sample

/-- The survivor's closed finding takes the place of the open one it absorbs: nothing of the
problem is open any more. -/
theorem closed_finding_swallows_open :
    ∃ events reg survivor absorbed,
      Runs (ofStep (Registry.step sampleLibrary)) Registry.empty events reg ∧
        merging reg "t" sampleLink = some (survivor, absorbed) ∧
        ¬ KeepsWork sampleLibrary.toTrackerText "t" survivor.assetId absorbed.assetId reg
          (applyOneCorrelation sampleLibrary.toTrackerText reg "t" sampleLink 7) := by
  have hruns := sample_guarded (by decide +kernel) closedRun_spares
  obtain ⟨survivor, absorbed, hmerging, hs, ha⟩ :=
    sampleMerge_spec closedRun (by decide +kernel)
  have hrows : sampleFindings closedRun =
      [((.OPEN, some (2 + days 30)), "t", (sampleAsset .fqdn "w").val, .reported "CVE-1" "443",
          none),
        ((.CLOSED, some (5 + days 30)), "t", (sampleAsset .ip "1").val, .reported "CVE-1" "443",
          none)] := by
    decide +kernel
  obtain ⟨ht, hid⟩ := sparing_recorded sample_collisionless sample_strip hruns
  have hne : survivor.assetId ≠ absorbed.assetId := by
    rw [hs, ha]
    exact sampleAssets_ne
  refine ⟨closedRun, sampleRegistry closedRun, survivor, absorbed, hruns.of_guarded, hmerging, ?_⟩
  intro hkeeps
  obtain ⟨b, rest, hsplit, hb, hrest⟩ := List.map_eq_cons_iff.mp hrows
  obtain ⟨c, hc, hccolumns⟩ := List.map_eq_singleton_iff.mp hrest
  subst hc
  simp only [summary, Prod.mk.injEq] at hb hccolumns
  obtain ⟨⟨hbstate, _⟩, hbtenant, hbasset, hbproblem, _⟩ := hb
  obtain ⟨⟨hcstate, _⟩, hctenant, hcasset, hcproblem, hcnone⟩ := hccolumns
  have hbin : b ∈ (sampleRegistry closedRun).findings.rows := by rw [hsplit]; simp
  have hcin : c ∈ (sampleRegistry closedRun).findings.rows := by rw [hsplit]; simp
  have hbabsorbed : Absorbed "t" absorbed.assetId b := ⟨hbtenant, by rw [hbasset, ha]⟩
  have hopen : b.state ≠ .CLOSED := by
    rw [hbstate]
    decide
  obtain ⟨row', hrow', htenant, hasset, hcarries⟩ :=
    hkeeps.work b hbin ⟨hbtenant, .inr hbabsorbed.2⟩ (.inl hopen)
  rw [applyOneCorrelation_findings, hmerging] at hrow'
  simp only [if_neg hne] at hrow'
  obtain ⟨q, ⟨hq, hfirst⟩, _, hqcarries⟩ := (repoint_carries_iff sample_collisionless ht
    (Set.subset_univ _) hne b).mp ⟨row', hrow', htenant, hasset, hcarries⟩
  rw [hsplit] at hq
  simp only [List.mem_cons, List.not_mem_nil, or_false] at hq
  rcases hq with rfl | rfl
  · -- the open finding's new key is the closed one's
    have hheld : newKey sampleLibrary.toTrackerText survivor.assetId q = rowKey c := by
      obtain ⟨P, ⟨hstands, hkey⟩, _⟩ := hid c hcin
      rw [newKey_eq (ht q hbin).2.1, hbtenant, hbproblem, rowKey, hkey, hctenant, hcasset,
        ← standsFor_plain hstands hcnone, hcproblem, hs]
    have hfree := (hfirst hbabsorbed).1
    rw [hheld, Table.get_self _ hcin] at hfree
    simp at hfree
  · exact hqcarries.2.1 hcstate

theorem sample_keys_ne (tenantId tenantId' : String) (assetId : AssetId) :
    (Problem.reported "CVE-1" "443").key sampleLibrary.toTrackerText tenantId assetId ≠
      (Problem.reported "CVE-2" "443").key sampleLibrary.toTrackerText tenantId' assetId := by
  intro h
  have hport : '|' ∉ "443".toList := by decide
  have hsame := material_inj (P := .reported "CVE-1" "443") (Q := .reported "CVE-2" "443")
    assetId.property hport hport
    (sample_collisionless _ (Set.mem_univ _) _ (Set.mem_univ _) h)
  simp at hsame

theorem merge_of_shared_keeps_work :
    ∃ survivor absorbed, merging (sampleRegistry sharedProblem) "t" sampleLink =
        some (survivor, absorbed) ∧
      KeepsWork sampleLibrary.toTrackerText "t" survivor.assetId absorbed.assetId
        (sampleRegistry sharedProblem)
        (applyOneCorrelation sampleLibrary.toTrackerText (sampleRegistry sharedProblem) "t"
          sampleLink 7) := by
  have hruns := sample_guarded (by decide +kernel) sharedProblem_spares
  obtain ⟨ht, hid⟩ := sparing_recorded sample_collisionless sample_strip hruns
  obtain ⟨survivor, absorbed, hmerging, hs, ha⟩ :=
    sampleMerge_spec sharedProblem (by decide +kernel)
  have hne : survivor.assetId ≠ absorbed.assetId := by
    rw [hs, ha]
    exact sampleAssets_ne
  refine ⟨survivor, absorbed, hmerging, (merge_keeps_work_iff sample_collisionless
    (sample_distinctIds _) (hruns.mono fun _ _ _ hstep => ⟨hstep.1.1, hstep.2⟩) hmerging 7
    (Set.subset_univ _)).mpr ?_⟩
  obtain ⟨kept, rest, hrows, hkept, hrest⟩ := List.map_eq_cons_iff.mp sharedProblem_findings
  obtain ⟨shared, rest, rfl, hshared, hrest⟩ := List.map_eq_cons_iff.mp hrest
  obtain ⟨other, rfl, hother⟩ := List.map_eq_singleton_iff.mp hrest
  simp only [summary, Prod.mk.injEq] at hkept hshared hother
  obtain ⟨⟨hkstate, hkdue⟩, hktenant, hkasset, hkproblem, hknone⟩ := hkept
  obtain ⟨⟨_, hsdue⟩, hstenant, hsasset, hsproblem, hsnone⟩ := hshared
  obtain ⟨⟨hostate, hodue⟩, hotenant, hoasset, hoproblem, honone⟩ := hother
  have hkin : kept ∈ (sampleRegistry sharedProblem).findings.rows := by rw [hrows]; simp
  have hsin : shared ∈ (sampleRegistry sharedProblem).findings.rows := by rw [hrows]; simp
  have hoin : other ∈ (sampleRegistry sharedProblem).findings.rows := by rw [hrows]; simp
  have hthree : ∀ q ∈ (sampleRegistry sharedProblem).findings.rows,
      q = kept ∨ q = shared ∨ q = other := by
    intro q hq
    rw [hrows] at hq
    simpa using hq
  have hsurvivor : kept.assetId = survivor.assetId.val := hkasset.trans (by rw [hs])
  have habsorbed : Absorbed "t" absorbed.assetId other := ⟨hotenant, hoasset.trans (by rw [ha])⟩
  have hstays : ¬ Absorbed "t" absorbed.assetId kept := fun h =>
    hne (Subtype.ext (hsurvivor.symm.trans h.2))
  -- the survivor's own finding carries the shared problem, due first
  have hcarries : ∀ r, matter sampleLibrary.toTrackerText kept =
      matter sampleLibrary.toTrackerText r →
      Carries sampleLibrary.toTrackerText "t" survivor.assetId absorbed.assetId
        (sampleRegistry sharedProblem).findings r kept := by
    refine fun r hmatter => ⟨hmatter, by rw [hkstate]; decide, fun q hq _ _ => ?_⟩
    rcases hthree q hq with rfl | rfl | rfl
    · exact noLater_refl _
    · rw [hkdue, hsdue]
      change (2 : ℤ) + days 30 ≤ 5 + days 30
      omega
    · rw [hkdue, hodue]
      change (2 : ℤ) + days 30 ≤ 5 + days 30
      omega
  have hkeeps : Keeps sampleLibrary.toTrackerText "t" survivor.assetId absorbed.assetId
      (sampleRegistry sharedProblem).findings other := by
    refine keeps_of_apart hoin ?_ ?_
    · intro b hb hkey
      by_cases hbasset : b.assetId = absorbed.assetId
      · exact newKey_ne sample_collisionless hne (ht other hoin) (Set.mem_univ _) (ht b hb) hbasset
          hkey.symm
      · rcases hthree b hb with rfl | rfl | rfl
        · obtain ⟨P, ⟨hstands, hP⟩, _⟩ := hid b hkin
          have hkeys := congrArg Prod.snd hkey
          rw [newKey_eq (ht other hoin).2.1, hoproblem] at hkeys
          simp only [rowKey, hP, ← standsFor_plain hstands hknone, hkproblem, hsurvivor] at hkeys
          exact sample_keys_ne _ _ _ hkeys
        · exact hbasset (hsasset.trans (by rw [ha]))
        · exact hbasset habsorbed.2
    · intro a hmem haabsorbed hkey
      rcases hthree a hmem with rfl | rfl | rfl
      · exact absurd haabsorbed hstays
      · rw [newKey_eq (ht a hsin).2.1, newKey_eq (ht other hoin).2.1, hsproblem, hoproblem] at hkey
        exact absurd (congrArg Prod.snd hkey)
          (sample_keys_ne a.tenantId other.tenantId survivor.assetId)
      · rfl
  intro r hr heither _
  rcases hthree r hr with rfl | rfl | rfl
  · exact ⟨r, ⟨hkin, fun h => absurd h hstays⟩, heither, hcarries r rfl⟩
  · refine ⟨kept, ⟨hkin, fun h => absurd h hstays⟩, ⟨hktenant, .inl hsurvivor⟩, hcarries r ?_⟩
    rw [matter, matter, hkproblem, hknone, hsproblem, hsnone]
  · refine ⟨r, hkeeps, heither, rfl, by rw [hostate]; decide, fun q hq _ hmatter => ?_⟩
    have hsame := congrArg Prod.fst hmatter
    simp only [matter, hoproblem] at hsame
    rcases hthree q hq with rfl | rfl | rfl
    · rw [hkproblem] at hsame
      simp at hsame
    · rw [hsproblem] at hsame
      simp at hsame
    · exact noLater_refl _

end Shapoclyack.AssetMerges
