import Shapoclyack.FindingMoves

set_option autoImplicit false

namespace Shapoclyack.FindingIdentity

open FindingEvidence ReportEntries VerificationArtifacts Findings FindingFold SoftwareFindings
open FindingColumns AssetRegistry FindingProblems FindingMoves Library

section Steps

variable {lib : RegistryText} {seen : Set KeyMaterial} {reg reg' : Registry}

theorem foldl_ensureIdentifier_findings (tenantId : String) (assetId : AssetId)
    (cs : List IdentityCandidate) (reg : Registry) :
    (cs.foldl (fun reg c => ensureIdentifier tenantId assetId c.kind c.value reg) reg).findings =
      reg.findings := by
  induction cs generalizing reg with
  | nil => rfl
  | cons c cs ih => exact ih (ensureIdentifier tenantId assetId c.kind c.value reg)

theorem upsertHost_findings (host : SeenHost) :
    (upsertHost lib reg host).findings = reg.findings := by
  unfold upsertHost
  split
  · rfl
  · simp only
    split_ifs
    · rfl
    · exact foldl_ensureIdentifier_findings host.tenantId _ _ _

theorem applyOneCorrelation_findings (lib : TrackerText) (reg : Registry) (tenantId : String)
    (link : IdentityCorrelation) (now : ℤ) :
    (applyOneCorrelation lib reg tenantId link now).findings =
      match merging reg tenantId link with
      | none => reg.findings
      | some (survivor, absorbed) =>
        if survivor.assetId = absorbed.assetId then reg.findings
        else repointFindings lib tenantId survivor.assetId absorbed.assetId reg.findings := by
  unfold applyOneCorrelation
  cases merging reg tenantId link with
  | none =>
    simp only
    cases attaching reg tenantId link <;> rfl
  | some pair =>
    simp only [mergeAssets]
    split_ifs <;> rfl

theorem registered_plain {tenantId assetId : String} (h : registered reg tenantId assetId = true) :
    plainId assetId = true := by
  unfold registered at h
  obtain ⟨a, _, ha⟩ := List.any_eq_true.mp h
  simp only [Bool.and_eq_true, beq_iff_eq] at ha
  rw [← ha.2]
  exact a.assetId.property

theorem comesFrom_plain {run : Run} {o : Observed} (hwithin : resolvesWithin reg run = true)
    (h : ComesFrom lib.toCoverageText run o) : plainId o.asset.assetId = true := by
  obtain ⟨reported, hin, hasset, _⟩ := comesFrom_problem h
  have hresolved := List.all_eq_true.mp hwithin reported hin
  rw [hasset] at hresolved
  exact registered_plain hresolved

/-- How one step changes the findings, by what writes them. -/
inductive FindingStep (lib : RegistryText) (reg : Registry) : Event → Tracker → Prop where
  | same (e : Event) : FindingStep lib reg e reg.findings
  | merged {tenantId : String} {link : IdentityCorrelation} {now : ℤ} {survivor absorbed : Asset}
      (hmerging : merging reg tenantId link = some (survivor, absorbed))
      (hne : survivor.assetId ≠ absorbed.assetId) :
      FindingStep lib reg (.correlated tenantId link now)
        (repointFindings lib.toTrackerText tenantId survivor.assetId absorbed.assetId reg.findings)
  | scanned {run : Run} {t : Tracker} (hwithin : resolvesWithin reg run = true)
      (h : registerFindingsFromRun lib.toCoverageText run reg.findings = some t) :
      FindingStep lib reg (.scanned run) t
  | inventoried {ctx : DeviceContext} {t : Tracker}
      (hasset : registered reg ctx.tenantId ctx.asset.assetId = true)
      (hdevice : deviceShaped ctx.device.deviceId = true)
      (h : foldDevice lib.toTrackerText ctx reg.findings = some t) :
      FindingStep lib reg (.inventoried ctx) t
  | rewritten (e : Event) (target : String × String) (f : Vulnerability → Vulnerability)
      (hf : ∀ row, named (f row) = named row) :
      FindingStep lib reg e
        (reg.findings.modifyAt target f (fun row => rowKey_of_named (hf row)))

/-- Everything a step of the registry can do to the findings. -/
theorem step_findings {e : Event} (h : reg.step lib e = some reg') :
    FindingStep lib reg e reg'.findings := by
  cases e with
  | hostSeen host =>
    rw [← Option.some.inj h, upsertHost_findings]
    exact .same _
  | endpointRegistered tenantId uuid now =>
    simp only [Registry.step, registerEndpoint] at h
    split_ifs at h
    rw [← Option.some.inj h]
    exact .same _
  | correlated tenantId link now =>
    rw [← Option.some.inj h, applyOneCorrelation_findings]
    cases hmerging : merging reg tenantId link with
    | none => exact .same _
    | some pair =>
      simp only
      split_ifs with hsame
      · exact .same _
      · exact .merged hmerging hsame
  | statusSet assetId status =>
    rw [← Option.some.inj h]
    exact .same _
  | contextSet assetId context changes =>
    simp only [Registry.step] at h
    split_ifs at h
    rw [← Option.some.inj h]
    exact .same _
  | tagged tag =>
    simp only [Registry.step] at h
    split_ifs at h
    rw [← Option.some.inj h]
    exact .same _
  | fingerprinted service =>
    simp only [Registry.step] at h
    split_ifs at h
    rw [← Option.some.inj h]
    exact .same _
  | osGuessed os =>
    simp only [Registry.step] at h
    split_ifs at h
    rw [← Option.some.inj h]
    exact .same _
  | scanned run =>
    simp only [Registry.step] at h
    split_ifs at h with hwithin
    obtain ⟨t, ht, rfl⟩ := Option.map_eq_some_iff.mp h
    exact .scanned hwithin ht
  | inventoried ctx =>
    simp only [Registry.step] at h
    split_ifs at h with hguard
    obtain ⟨t, ht, rfl⟩ := Option.map_eq_some_iff.mp h
    rw [Bool.and_eq_true] at hguard
    exact .inventoried hguard.1 hguard.2 ht
  | operated target e =>
    rw [← Option.some.inj h]
    exact .rewritten _ target _ (operatedRow_named lib.toCoverageText e)
  | ticketLinked target system key =>
    rw [← Option.some.inj h]
    exact .rewritten _ target (linkTicket system key) (fun _ => rfl)

/-- What the finding keys that an event computes are the hashes of. -/
def Hashed (lib : RegistryText) (reg : Registry) : Event → Set KeyMaterial
  | .scanned run => runMaterials lib.toCoverageText run
  | .inventoried ctx => deviceMaterials lib.toTrackerText ctx
  | .correlated tenantId link _ =>
    {k | ∃ survivor absorbed, merging reg tenantId link = some (survivor, absorbed) ∧
      k ∈ movedMaterials lib.toTrackerText tenantId survivor.assetId absorbed.assetId reg.findings}
  | _ => ∅

def Within (lib : RegistryText) (seen : Set KeyMaterial) (reg : Registry) (e : Event) : Prop :=
  Hashed lib reg e ⊆ seen

theorem Within.moved {tenantId : String} {link : IdentityCorrelation} {now : ℤ}
    {survivor absorbed : Asset} (h : Within lib seen reg (.correlated tenantId link now))
    (hmerging : merging reg tenantId link = some (survivor, absorbed)) :
    movedMaterials lib.toTrackerText tenantId survivor.assetId absorbed.assetId reg.findings ⊆
      seen :=
  fun _ hk => h ⟨survivor, absorbed, hmerging, hk⟩

/-- In every state, each finding lies under a key of the asset it is on. -/
theorem step_rooted (hash : Collisionless lib.toTrackerText seen) {e : Event}
    (hwithin : Within lib seen reg e) (h : reg.step lib e = some reg')
    (ht : reg.findings.All (Rooted lib.toTrackerText seen)) :
    reg'.findings.All (Rooted lib.toTrackerText seen) := by
  have hstep := step_findings h
  generalize reg'.findings = t at hstep ⊢
  cases hstep with
  | same => exact ht
  | merged hmerging hne => exact repoint_rooted hash ht (hwithin.moved hmerging) hne
  | scanned hresolved hfold =>
    refine register_all ht
      (fun o ho => create_rooted hwithin (comesFrom_plain hresolved ho) ho) ?_ ?_ hfold
    · intro o _ row row' _ hreread hrow
      exact (rooted_congr hreread.1).mpr hrow
    · intro row row' hnamed hrow
      exact (rooted_congr (congrArg Prod.fst hnamed)).mpr hrow
  | inventoried hasset hdevice hfold =>
    refine foldDevice_all ht
      (fun m hm => createSoftware_rooted hwithin (registered_plain hasset) hdevice hm) ?_ hfold
    intro row row' hnamed hrow
    exact (rooted_congr (congrArg Prod.fst hnamed)).mpr hrow
  | rewritten _ _ _ hf =>
    exact ht.modifyAt fun row _ hrow => (rooted_congr (congrArg Prod.fst (hf row))).mpr hrow

theorem reachable_rooted (hash : Collisionless lib.toTrackerText seen) {events : List Event}
    (h : Runs (guarded (ofStep (Registry.step lib)) (Within lib seen)) Registry.empty events reg) :
    reg.findings.All (Rooted lib.toTrackerText seen) :=
  Runs.invariant (fun reg => reg.findings.All (Rooted lib.toTrackerText seen))
    (fun _ _ _ ht hstep => step_rooted hash hstep.1 hstep.2 ht) h Table.all_empty

end Steps

section Merging

variable {lib : TrackerText} {seen : Set KeyMaterial} {tenantId : String}
  {survivorId absorbedId : AssetId} {t : Tracker}

def OfEither (tenantId : String) (survivorId absorbedId : AssetId) (row : Vulnerability) : Prop :=
  row.tenantId = tenantId ∧ (row.assetId = survivorId ∨ row.assetId = absorbedId)

/-- The row records the problem, and the texts of its keys on the row's asset and on the survivor
are at hand. -/
structure Traced (lib : TrackerText) (seen : Set KeyMaterial) (survivorId : AssetId)
    (row : Vulnerability) (P : Problem) : Prop where
  names : Names lib row P
  before : P.material row.tenantId row.assetId ∈ seen
  after : P.material row.tenantId survivorId ∈ seen

/-- What a merge of two assets keeps of their findings. -/
structure Resolves (lib : TrackerText) (seen : Set KeyMaterial) (tenantId : String)
    (survivorId absorbedId : AssetId) (t t' : Tracker) : Prop where
  /-- The next observation of a finding's problem finds a row of it on the survivor. -/
  found : ∀ row ∈ t.rows, OfEither tenantId survivorId absorbedId row →
    ∀ P, Traced lib seen survivorId row P →
      ∃ row', t'.get (tenantId, P.key lib tenantId survivorId) = some row' ∧
        row'.assetId = survivorId ∧ Names lib row' P
  /-- Findings of different problems stay two findings. -/
  apart : ∀ a ∈ t.rows, OfEither tenantId survivorId absorbedId a →
    ∀ b ∈ t.rows, OfEither tenantId survivorId absorbedId b →
    ∀ P Q, Traced lib seen survivorId a P → Traced lib seen survivorId b Q → P ≠ Q →
      P.key lib tenantId survivorId ≠ Q.key lib tenantId survivorId

/-- A merge that moves no finding without a CVE, and no two findings whose issue and port read
the same across the separator. -/
structure Sparing (lib : TrackerText) (tenantId : String) (survivorId absorbedId : AssetId)
    (t : Tracker) : Prop where
  noneActionable : ∀ row ∈ t.rows, Absorbed tenantId absorbedId row → row.nonCve = none
  unambiguous : ∀ a ∈ t.rows, OfEither tenantId survivorId absorbedId a → a.nonCve = none →
    ∀ b ∈ t.rows, OfEither tenantId survivorId absorbedId b → b.nonCve = none →
    ∀ what port what' port', columnProblem lib a = .reported what port →
      columnProblem lib b = .reported what' port' →
      join [what, port] = join [what', port'] → what = what' ∧ port = port'

theorem standsFor_plain {row : Vulnerability} {P : Problem} (h : StandsFor lib row P)
    (hnone : row.nonCve = none) : columnProblem lib row = P := by
  cases P with
  | actionable rule subject =>
    obtain ⟨_, metadata, hmetadata, _⟩ := h
    rw [hnone] at hmetadata
    simp at hmetadata
  | reported what port => exact h.2
  | software deviceId cve => exact h.2

theorem repointed_names {row : Vulnerability} {P : Problem} (hrekey : Rekeyable row)
    (hnone : row.nonCve = none) (h : Names lib row P) :
    Names lib (repointed lib survivorId row) P := by
  have hcolumns := standsFor_plain h.1 hnone
  refine ⟨?_, ?_⟩
  · have hstands := h.1
    cases P with
    | actionable rule subject => exact hstands
    | reported what port => exact hstands
    | software deviceId cve => exact hstands
  · simp [repointed, rekey_eq hrekey, hcolumns]

theorem names_unique (hash : Collisionless lib seen) {row : Vulnerability}
    (hplain : plainId row.assetId = true) {P Q : Problem} (hP : Traced lib seen survivorId row P)
    (hQ : Traced lib seen survivorId row Q) : P = Q := by
  by_cases hnone : row.nonCve = none
  · exact (standsFor_plain hP.names.1 hnone).symm.trans (standsFor_plain hQ.names.1 hnone)
  · have hkeys := hash _ hP.before _ hQ.before (hP.names.2.symm.trans hQ.names.2)
    cases P with
    | actionable rule subject => exact (actionable_kind hplain hkeys).symm
    | reported what port => exact absurd hP.names.1.1 hnone
    | software deviceId cve => exact absurd hP.names.1.1 hnone

section Spared

variable (hash : Collisionless lib seen) (ht : t.All (Rooted lib seen))
  (hid : t.All (Recorded lib seen))
  (hmoved : movedMaterials lib tenantId survivorId absorbedId t ⊆ seen)
  (hne : survivorId ≠ absorbedId) (hspare : Sparing lib tenantId survivorId absorbedId t)

include hspare ht

theorem relabelled_names {row : Vulnerability} (hrow : row ∈ t.rows) {P : Problem}
    (h : Names lib row P) :
    Names lib (relabelled lib tenantId survivorId absorbedId row) P := by
  by_cases habsorbed : Absorbed tenantId absorbedId row
  · rw [relabelled_absorbed habsorbed]
    exact repointed_names (ht row hrow).2.1 (hspare.noneActionable row hrow habsorbed) h
  · rw [relabelled_other habsorbed]
    exact h

include hmoved

omit ht in
theorem relabelled_material {row : Vulnerability} (hrow : row ∈ t.rows) {P : Problem}
    (h : Names lib row P) (hmaterial : P.material row.tenantId row.assetId ∈ seen) :
    P.material (relabelled lib tenantId survivorId absorbedId row).tenantId
      (relabelled lib tenantId survivorId absorbedId row).assetId ∈ seen := by
  by_cases habsorbed : Absorbed tenantId absorbedId row
  · rw [relabelled_absorbed habsorbed,
      ← standsFor_plain h.1 (hspare.noneActionable row hrow habsorbed)]
    have hnew := hmoved (mem_movedMaterials hrow habsorbed)
    exact hnew
  · rw [relabelled_other habsorbed]
    exact hmaterial

include hash hid hne

theorem repoint_recorded :
    (repointFindings lib tenantId survivorId absorbedId t).All (Recorded lib seen) := by
  rw [Table.all_iff_get]
  intro j row' hrow'
  obtain ⟨row, ⟨hrow, _⟩, _, hcarried⟩ := lands_keeps hash ht hmoved hne hrow'
  obtain ⟨P, hP, hmaterial⟩ := hid row hrow
  exact (recorded_congr hcarried.named).mpr ⟨P, relabelled_names ht hspare hrow hP,
    relabelled_material hmoved hspare hrow hP hmaterial⟩

omit hash hne hspare ht hid hmoved in
theorem relabelled_tenant (lib : TrackerText) (tenantId : String)
    (survivorId absorbedId : AssetId) (row : Vulnerability) :
    (relabelled lib tenantId survivorId absorbedId row).tenantId = row.tenantId := by
  by_cases habsorbed : Absorbed tenantId absorbedId row
  · rw [relabelled_absorbed habsorbed]
    rfl
  · rw [relabelled_other habsorbed]

omit hash hne hspare ht hid hmoved in
theorem ofEither_of_relabelled {row : Vulnerability} (htenant : row.tenantId = tenantId)
    (h : (relabelled lib tenantId survivorId absorbedId row).assetId = survivorId) :
    OfEither tenantId survivorId absorbedId row := by
  by_cases habsorbed : Absorbed tenantId absorbedId row
  · exact ⟨htenant, .inr habsorbed.2⟩
  · rw [relabelled_other habsorbed] at h
    exact ⟨htenant, .inl h⟩

omit hash hne hspare ht hid hmoved in
theorem relabelled_asset (lib : TrackerText) {row : Vulnerability}
    (h : OfEither tenantId survivorId absorbedId row) :
    (relabelled lib tenantId survivorId absorbedId row).assetId = survivorId := by
  by_cases habsorbed : Absorbed tenantId absorbedId row
  · rw [relabelled_absorbed habsorbed]
    rfl
  · rw [relabelled_other habsorbed]
    exact h.2.resolve_right fun hasset => habsorbed ⟨h.1, hasset⟩

omit hash hne hid hmoved in
theorem sameKey_sameProblem {a b : Vulnerability} (ha : a ∈ t.rows) (hb : b ∈ t.rows)
    (hea : OfEither tenantId survivorId absorbedId a)
    (heb : OfEither tenantId survivorId absorbedId b) {P Q : Problem} (hP : Names lib a P)
    (hQ : Names lib b Q)
    (h : SameText (P.material tenantId survivorId) (Q.material tenantId survivorId)) :
    P = Q := by
  cases P with
  | reported what port =>
    obtain ⟨what', port', rfl⟩ := reported_kind survivorId.property h
    have hjoin := (reported_split survivorId.property survivorId.property h).2
    obtain ⟨hwhat, hport⟩ := hspare.unambiguous a ha hea hP.1.1 b hb heb hQ.1.1 what port what'
      port' hP.1.2 hQ.1.2 hjoin
    rw [hwhat, hport]
  | actionable rule subject => exact (actionable_kind survivorId.property h).symm
  | software deviceId cve =>
    obtain ⟨deviceId', cve', rfl⟩ := software_kind survivorId.property h
    have hdelimited : ∀ row ∈ t.rows, ∀ d c, StandsFor lib row (.software d c) →
        (Problem.software d c).delimited := by
      intro row hrow d c hstands
      have hcolumns := hstands.2
      unfold columnProblem at hcolumns
      split_ifs at hcolumns with hsoftware
      injection hcolumns with hdevice _
      have hshaped := ((ht row hrow).2.1 hsoftware).1
      rw [hdevice] at hshaped
      exact deviceShaped_delimiter hshaped
    exact material_inj survivorId.property (hdelimited a ha _ _ hP.1) (hdelimited b hb _ _ hQ.1) h

/-- A sparing merge keeps the identity of every finding of the two assets. -/
theorem repoint_resolves :
    Resolves lib seen tenantId survivorId absorbedId t
      (repointFindings lib tenantId survivorId absorbedId t) := by
  refine ⟨?_, ?_⟩
  · intro row hrow heither P hP
    have hlands := relabelled_names ht hspare hrow hP.names
    have hasset := relabelled_asset lib heither
    have htenant :=
      (relabelled_tenant lib tenantId survivorId absorbedId row).trans heither.1
    have hplace : rowKey (relabelled lib tenantId survivorId absorbedId row) =
        (tenantId, P.key lib tenantId survivorId) := by
      rw [rowKey, hlands.2, htenant, hasset]
    obtain ⟨row', hrow'⟩ := represented hash ht hmoved hne hrow
    rw [hplace] at hrow'
    obtain ⟨q, ⟨hq, _⟩, hqplace, hcarried⟩ := lands_keeps hash ht hmoved hne hrow'
    obtain ⟨Q, hQ, hQmaterial⟩ := hid q hq
    have hafter := relabelled_material hmoved hspare hq hQ hQmaterial
    have hPafter := hP.after
    rw [heither.1] at hPafter
    have hqmoved := relabelled_names ht hspare hq hQ
    have hqtenant : q.tenantId = tenantId := by
      rw [← relabelled_tenant lib tenantId survivorId absorbedId q]
      exact congrArg Prod.fst hqplace
    have hqkey : Q.key lib tenantId (relabelled lib tenantId survivorId absorbedId q).assetId =
        P.key lib tenantId survivorId := by
      have hkey := hqmoved.2
      rw [relabelled_tenant, hqtenant] at hkey
      rw [← hkey]
      exact congrArg Prod.snd hqplace
    rw [relabelled_tenant, hqtenant] at hafter
    have hsame := hash _ hafter _ hPafter hqkey
    have hqasset : (relabelled lib tenantId survivorId absorbedId q).assetId = survivorId :=
      material_asset (relabelled_rooted hmoved hq (ht q hq)).1 survivorId.property hsame
    rw [hqasset] at hsame
    have hPQ : Q = P := sameKey_sameProblem ht hspare hq hrow
      (ofEither_of_relabelled hqtenant hqasset) heither hQ hP.names hsame
    refine ⟨row', hrow', ?_, ?_⟩
    · have hcolumns := congrArg Prod.fst hcarried.named
      simp only [named, columnsOf, Columns.mk.injEq] at hcolumns
      rw [hcolumns.2.1, hqasset]
    · rw [names_congr hcarried.named, ← hPQ]
      exact hqmoved
  · intro a ha hea b hb heb P Q hP hQ hPQ hkey
    have hPafter := hP.after
    have hQafter := hQ.after
    rw [hea.1] at hPafter
    rw [heb.1] at hQafter
    exact hPQ (sameKey_sameProblem ht hspare ha hb hea heb hP.names hQ.names
      (hash _ hPafter _ hQafter hkey))

end Spared

theorem resolves_refl (hash : Collisionless lib seen) (ht : t.All (Rooted lib seen))
    (assetId : AssetId) : Resolves lib seen tenantId assetId assetId t t := by
  have hfound : ∀ row ∈ t.rows, OfEither tenantId assetId assetId row → ∀ P, Names lib row P →
      t.get (tenantId, P.key lib tenantId assetId) = some row := by
    intro row hrow heither P hP
    have hkey : rowKey row = (tenantId, P.key lib tenantId assetId) := by
      rw [rowKey, hP.2, heither.1, heither.2.elim id id]
    rw [← hkey]
    exact t.get_self hrow
  refine ⟨fun row hrow heither P hP => ⟨row, hfound row hrow heither P hP.names,
    heither.2.elim id id, hP.names⟩, ?_⟩
  intro a ha hea b hb heb P Q hP hQ hPQ hkey
  have hsame := hfound a ha hea P hP.names
  rw [hkey, hfound b hb heb Q hQ.names] at hsame
  rw [Option.some.inj hsame] at hQ
  exact hPQ (names_unique hash (ht a ha).1 hP hQ)

theorem moved_unidentified (hash : Collisionless lib Set.univ)
    (ht : t.All (Rooted lib Set.univ)) (hne : survivorId ≠ absorbedId) {row : Vulnerability}
    (hkeeps : Keeps lib tenantId survivorId absorbedId t row)
    (habsorbed : Absorbed tenantId absorbedId row) (hnonCve : row.nonCve ≠ none) :
    ∃ row' ∈ (repointFindings lib tenantId survivorId absorbedId t).rows,
      ¬ Identified lib row' := by
  obtain ⟨row', hrow', hcarried⟩ := keeps_lands hash ht (Set.subset_univ _) hne hkeeps
  refine ⟨row', (((repointFindings lib tenantId survivorId absorbedId t).get_eq_some_iff _ _).mp
    hrow').1, ?_⟩
  rw [identified_congr hcarried.named, relabelled_absorbed habsorbed]
  rintro ⟨P, hstands, hkey⟩
  cases P with
  | reported what port => exact hnonCve hstands.1
  | software deviceId cve => exact hnonCve hstands.1
  | actionable rule subject =>
    have hmoved : (repointed lib survivorId row).findingKey =
        (columnProblem lib row).key lib row.tenantId survivorId := by
      simp [repointed, rekey_eq (ht row hkeeps.1).2.1]
    have hproblem := actionable_kind survivorId.property
      (hash _ (Set.mem_univ _) _ (Set.mem_univ _) (hkey.symm.trans hmoved))
    unfold columnProblem at hproblem
    split_ifs at hproblem

theorem keeps_of_apart {row : Vulnerability} (hrow : row ∈ t.rows)
    (hfree : ∀ b ∈ t.rows, rowKey b ≠ newKey lib survivorId row)
    (hfirst : ∀ a ∈ t.rows, Absorbed tenantId absorbedId a →
      newKey lib survivorId a = newKey lib survivorId row → a = row) :
    Keeps lib tenantId survivorId absorbedId t row := by
  refine ⟨hrow, fun habsorbed => ⟨(Table.get_eq_none_iff _ _).mpr hfree, ?_⟩⟩
  have hcomes : row ∈ (absorbedFindings tenantId absorbedId t).filter fun a =>
      decide (newKey lib survivorId a = newKey lib survivorId row) :=
    List.mem_filter.mpr ⟨mem_absorbedFindings.mpr ⟨hrow, habsorbed⟩, decide_eq_true rfl⟩
  obtain ⟨a, rest, hsplit⟩ := List.exists_cons_of_ne_nil (List.ne_nil_of_mem hcomes)
  have ha : a ∈ (absorbedFindings tenantId absorbedId t).filter fun a =>
      decide (newKey lib survivorId a = newKey lib survivorId row) := by
    rw [hsplit]
    exact List.mem_cons_self
  obtain ⟨hmem, hkey⟩ := List.mem_filter.mp ha
  obtain ⟨hin, haabsorbed⟩ := mem_absorbedFindings.mp hmem
  rw [hsplit, List.head?_cons, hfirst a hin haabsorbed (of_decide_eq_true hkey)]

/-- Where every finding is a plain one, with no separator inside its port, a merge is sparing. -/
theorem sparing_of_delimited (hnone : ∀ row ∈ t.rows, row.nonCve = none)
    (hdelimited : ∀ row ∈ t.rows, (columnProblem lib row).delimited) :
    Sparing lib tenantId survivorId absorbedId t := by
  refine ⟨fun row hrow _ => hnone row hrow, ?_⟩
  intro a ha _ _ b hb _ _ what port what' port' hwhat hwhat' hjoin
  have hport := hdelimited a ha
  have hport' := hdelimited b hb
  rw [hwhat] at hport
  rw [hwhat'] at hport'
  exact join_pair_last hport hport' hjoin

end Merging

section Runs

variable {lib : RegistryText} {seen : Set KeyMaterial} {reg reg' : Registry}

/-- The runs whose merges all spare the findings the merge cannot name. -/
def Spares (lib : RegistryText) (reg : Registry) : Event → Prop
  | .correlated tenantId link _ =>
    ∀ survivor absorbed, merging reg tenantId link = some (survivor, absorbed) →
      Sparing lib.toTrackerText tenantId survivor.assetId absorbed.assetId reg.findings
  | _ => True

theorem step_recorded (hash : Collisionless lib.toTrackerText seen)
    (hstrip : ∀ v, lib.strip (lib.strip v) = lib.strip v) {e : Event}
    (hwithin : Within lib seen reg e) (hspares : Spares lib reg e)
    (h : reg.step lib e = some reg') (ht : reg.findings.All (Rooted lib.toTrackerText seen))
    (hid : reg.findings.All (Recorded lib.toTrackerText seen)) :
    reg'.findings.All (Recorded lib.toTrackerText seen) := by
  have hstep := step_findings h
  generalize reg'.findings = t at hstep ⊢
  cases hstep with
  | same => exact hid
  | merged hmerging hne =>
    exact repoint_recorded hash ht hid (hwithin.moved hmerging) hne (hspares _ _ hmerging)
  | scanned hresolved hfold =>
    have hboth : t.All fun row =>
        Rooted lib.toTrackerText seen row ∧ Recorded lib.toTrackerText seen row := by
      refine register_all (fun row hrow => ⟨ht row hrow, hid row hrow⟩) ?_ ?_ ?_ hfold
      · intro o ho
        exact ⟨create_rooted hwithin (comesFrom_plain hresolved ho) ho,
          create_recorded hstrip hwithin ho⟩
      · intro o ho row row' hkey hreread hrow
        exact ⟨(rooted_congr hreread.1).mpr hrow.1,
          observed_recorded hash hwithin (comesFrom_plain hresolved ho) ho hrow.1.1 hkey hreread
            hrow.2⟩
      · intro row row' hnamed hrow
        exact ⟨(rooted_congr (congrArg Prod.fst hnamed)).mpr hrow.1,
          (recorded_congr hnamed).mpr hrow.2⟩
    exact fun row hrow => (hboth row hrow).2
  | inventoried hasset hdevice hfold =>
    exact foldDevice_all hid (fun m hm => createSoftware_recorded hwithin hm)
      (fun row row' hnamed hrow => (recorded_congr hnamed).mpr hrow) hfold
  | rewritten _ _ _ hf =>
    exact hid.modifyAt fun row _ hrow => (recorded_congr (hf row)).mpr hrow

theorem sparing_recorded (hash : Collisionless lib.toTrackerText seen)
    (hstrip : ∀ v, lib.strip (lib.strip v) = lib.strip v) {events : List Event}
    (h : Runs (guarded (ofStep (Registry.step lib)) fun reg e =>
      Within lib seen reg e ∧ Spares lib reg e) Registry.empty events reg) :
    reg.findings.All (Rooted lib.toTrackerText seen) ∧
      reg.findings.All (Recorded lib.toTrackerText seen) :=
  Runs.invariant (fun reg => reg.findings.All (Rooted lib.toTrackerText seen) ∧
      reg.findings.All (Recorded lib.toTrackerText seen))
    (fun _ _ _ hinv hstep => ⟨step_rooted hash hstep.1.1 hstep.2 hinv.1,
      step_recorded hash hstrip hstep.1.1 hstep.1.2 hstep.2 hinv.1 hinv.2⟩) h
    ⟨Table.all_empty, Table.all_empty⟩

/-- In a run whose merges are all sparing, every finding lies under the key of its problem on its
present asset, and the next merge, if it is sparing too, keeps every problem's finding findable
and the findings of different problems apart. The hash is trusted on the texts the run hashes. -/
theorem sparing_runs_keep_identity (hash : Collisionless lib.toTrackerText seen)
    (hstrip : ∀ v, lib.strip (lib.strip v) = lib.strip v) {events : List Event}
    (h : Runs (guarded (ofStep (Registry.step lib)) fun reg e =>
      Within lib seen reg e ∧ Spares lib reg e) Registry.empty events reg) :
    (∀ row ∈ reg.findings.rows, Identified lib.toTrackerText row) ∧
      ∀ tenantId link now survivor absorbed,
        Within lib seen reg (.correlated tenantId link now) →
        Spares lib reg (.correlated tenantId link now) →
        merging reg tenantId link = some (survivor, absorbed) →
        Resolves lib.toTrackerText seen tenantId survivor.assetId absorbed.assetId reg.findings
          (applyOneCorrelation lib.toTrackerText reg tenantId link now).findings := by
  obtain ⟨ht, hid⟩ := sparing_recorded hash hstrip h
  refine ⟨fun row hrow => (hid row hrow).identified, ?_⟩
  intro tenantId link now survivor absorbed hwithin hspares hmerging
  rw [applyOneCorrelation_findings, hmerging]
  simp only
  split_ifs with hsame
  · rw [hsame]
    exact resolves_refl hash ht absorbed.assetId
  · exact repoint_resolves hash ht hid (hwithin.moved hmerging) hsame (hspares _ _ hmerging)

end Runs

section Sample

def quoted (value : String) : List Char :=
  value.toList.flatMap (fun c => ['+', c]) ++ ['.']

theorem quoted_inj {a b x y : List Char}
    (h : a.flatMap (fun c => ['+', c]) ++ '.' :: x = b.flatMap (fun c => ['+', c]) ++ '.' :: y) :
    a = b ∧ x = y := by
  induction a generalizing b with
  | nil =>
    cases b with
    | nil => simpa using h
    | cons d b => simp at h
  | cons c a ih =>
    cases b with
    | nil => simp at h
    | cons d b =>
      simp only [List.flatMap_cons, List.cons_append, List.nil_append, List.cons.injEq, true_and]
        at h
      obtain ⟨hab, hxy⟩ := ih h.2
      exact ⟨by rw [h.1, hab], hxy⟩

theorem quoted_append {a b : String} {x y : List Char} (h : quoted a ++ x = quoted b ++ y) :
    a = b ∧ x = y := by
  simp only [quoted, List.append_assoc, List.cons_append, List.nil_append] at h
  obtain ⟨hab, hxy⟩ := quoted_inj h
  exact ⟨String.toList_inj.mp hab, hxy⟩

def quotedOption (value : Option String) : List Char :=
  match value with
  | none => ['-']
  | some s => '=' :: quoted s

theorem quotedOption_append {a b : Option String} {x y : List Char}
    (h : quotedOption a ++ x = quotedOption b ++ y) : a = b ∧ x = y := by
  cases a with
  | none =>
    cases b with
    | none => simpa [quotedOption] using h
    | some b => simp [quotedOption] at h
  | some a =>
    cases b with
    | none => simp [quotedOption] at h
    | some b =>
      simp only [quotedOption, List.cons_append, List.cons.injEq, true_and] at h
      obtain ⟨hab, hxy⟩ := quoted_append h
      exact ⟨by rw [hab], hxy⟩

def tallied (n : ℕ) : List Char := List.replicate n '1' ++ ['.']

theorem tallied_append {m n : ℕ} {x y : List Char} (h : tallied m ++ x = tallied n ++ y) :
    m = n ∧ x = y := by
  induction m generalizing n with
  | zero =>
    cases n with
    | zero => simpa [tallied] using h
    | succ n => simp [tallied, List.replicate_succ] at h
  | succ m ih =>
    cases n with
    | zero => simp [tallied, List.replicate_succ] at h
    | succ n =>
      simp only [tallied, List.replicate_succ, List.cons_append, List.cons.injEq, true_and] at h
      obtain ⟨hmn, hxy⟩ := ih h
      exact ⟨by rw [hmn], hxy⟩

def listText (assetId rule : String) (subject : Subject) : String :=
  String.ofList ('[' :: (quoted assetId ++ (quoted rule ++ (quoted subject.host ++
    (tallied (subject.port.elim 0 (· + 1)) ++ (quoted subject.protocol ++
      (quotedOption subject.scheme ++ (quotedOption subject.authority ++
        (quotedOption subject.sni ++ (quotedOption subject.objectId ++ []))))))))))

theorem listText_inj {a a' r r' : String} {s s' : Subject}
    (h : listText a r s = listText a' r' s') : a = a' ∧ r = r' ∧ s = s' := by
  have htext := (List.cons.inj (String.ofList_inj.mp h)).2
  obtain ⟨ha, htext⟩ := quoted_append htext
  obtain ⟨hr, htext⟩ := quoted_append htext
  obtain ⟨hhost, htext⟩ := quoted_append htext
  obtain ⟨hport, htext⟩ := tallied_append htext
  obtain ⟨hprotocol, htext⟩ := quoted_append htext
  obtain ⟨hscheme, htext⟩ := quotedOption_append htext
  obtain ⟨hauthority, htext⟩ := quotedOption_append htext
  obtain ⟨hsni, htext⟩ := quotedOption_append htext
  obtain ⟨hobject, _⟩ := quotedOption_append htext
  refine ⟨ha, hr, ?_⟩
  obtain ⟨host, port, protocol, scheme, authority, sni, objectId⟩ := s
  obtain ⟨host', port', protocol', scheme', authority', sni', objectId'⟩ := s'
  simp only at hhost hport hprotocol hscheme hauthority hsni hobject
  have hports : port = port' := by
    cases port <;> cases port' <;> simp_all
  rw [hhost, hports, hprotocol, hscheme, hauthority, hsni, hobject]

def plainHash : KeyMaterial → String
  | .scan material => material
  | .software material => material
  | .actionable _ assetId rule subject => listText assetId rule subject

def letters (value : String) : List Char :=
  value.toList.flatMap (fun c => List.replicate c.toNat 'a' ++ ['b']) ++ ['c']

def kindLetter : IdentifierKind → Char
  | .ip => 'i'
  | .fqdn => 'f'
  | .certSha256 => 'x'

theorem letters_plain (value : String) (c : Char) (h : c ∈ letters value) :
    c = 'a' ∨ c = 'b' ∨ c = 'c' := by
  simp only [letters, List.mem_append, List.mem_flatMap, List.mem_replicate, List.mem_cons,
    List.not_mem_nil, or_false] at h
  rcases h with ⟨_, _, ⟨_, rfl⟩ | rfl⟩ | rfl
  · exact .inl rfl
  · exact .inr (.inl rfl)
  · exact .inr (.inr rfl)

theorem plain_of_lettered {first : Char} {rest : List Char}
    (h : ∀ c ∈ first :: rest, c.isAlpha = true) :
    plainId (String.ofList (first :: rest)) = true := by
  have hbar : '|' ∉ first :: rest := fun hm => absurd (h _ hm) (by decide)
  have hbracket : first ≠ '[' := by
    intro heq
    exact absurd (h first List.mem_cons_self) (by rw [heq]; decide)
  have hname : String.ofList (first :: rest) ≠ softwareKeyNamespace := by
    intro heq
    have hunder : '_' ∈ softwareKeyNamespace.toList := by decide
    rw [← heq, String.toList_ofList] at hunder
    exact absurd (h _ hunder) (by decide)
  have hempty : String.ofList (first :: rest) ≠ "" := by
    intro heq
    have := congrArg String.toList heq
    simp at this
  simp only [plainId, hname, hempty, String.toList_ofList, List.contains_eq_mem,
    List.head?_cons, ne_eq, not_false_eq_true, decide_true, hbar, decide_false, Bool.not_false,
    Bool.and_true, Bool.true_and, bne_iff_ne, Option.some.injEq, hbracket]

theorem letters_alpha (value : String) (c : Char) (h : c ∈ letters value) :
    c.isAlpha = true := by
  rcases letters_plain value c h with rfl | rfl | rfl <;> decide

theorem letter_alpha (kind : IdentifierKind) : (kindLetter kind).isAlpha = true := by
  cases kind <;> decide

def spelledId (kind : Char) (hkind : kind.isAlpha = true) (tenantId value : String) : AssetId :=
  ⟨String.ofList (kind :: (letters tenantId ++ letters value)), by
    refine plain_of_lettered fun c hc => ?_
    rcases List.mem_cons.mp hc with rfl | hrest
    · exact hkind
    · rcases List.mem_append.mp hrest with hmem | hmem
      · exact letters_alpha tenantId c hmem
      · exact letters_alpha value c hmem⟩

/-- ASCII text, and hashes that can be read back. -/
def sampleLibrary : RegistryText where
  toCoverageText := { asciiLibrary with sha256 := plainHash }
  identityKey tenantId kind value :=
    spelledId (kindLetter kind) (letter_alpha kind) tenantId value
  endpointId uuid := spelledId 'e' (by decide) "" uuid

theorem sample_collisionless : Collisionless sampleLibrary.toTrackerText Set.univ := by
  rintro (m | ⟨t, a, r, s⟩ | m) - (m' | ⟨t', a', r', s'⟩ | m') - h
  · exact h
  · change m = listText a' r' s' at h
    simp [SameText, h, listText]
  · exact h
  · change listText a r s = m' at h
    simp [SameText, ← h, listText]
  · exact listText_inj h
  · change listText a r s = m' at h
    simp [SameText, ← h, listText]
  · exact h
  · change m = listText a' r' s' at h
    simp [SameText, h, listText]
  · exact h

theorem stripChars_strip (p : Char → Bool) (value : String) :
    stripChars p (stripChars p value) = stripChars p value := by
  unfold stripChars
  rw [String.toList_ofList]
  congr 1
  have hfirst : List.dropWhile p ((value.toList.dropWhile p).rdropWhile p) =
      (value.toList.dropWhile p).rdropWhile p := by
    cases hkept : (value.toList.dropWhile p).rdropWhile p with
    | nil => rfl
    | cons c kept =>
      obtain ⟨rest, hrest⟩ := List.rdropWhile_prefix p (value.toList.dropWhile p)
      have hhead := List.head?_dropWhile_not p value.toList
      rw [← hrest, hkept, List.cons_append, List.head?_cons] at hhead
      rw [List.dropWhile_cons_of_neg (by simpa using hhead)]
  rw [hfirst, List.rdropWhile_idempotent]

theorem sample_strip (value : String) :
    sampleLibrary.strip (sampleLibrary.strip value) = sampleLibrary.strip value :=
  stripChars_strip _ value

/-- A scan of tenant `t` sees one host. -/
def hostEvent (host : String) (now : ℤ) : Event :=
  .hostSeen ⟨"t", "r", some host, [], true, true, now⟩

def sampleAsset (kind : IdentifierKind) (host : String) : AssetId :=
  sampleLibrary.identityKey "t" kind host

/-- A finding of one template on the host `w`. -/
def templateEntry (cve : Option String) : Entry where
  source := some "nuclei"
  scriptId := some "panel"
  protocol := some "tcp"
  rulesetVersion := none
  host := some "w"
  port := some "443"
  cve := cve
  ruleId := some "panel"
  templateId := some "panel"
  findingType := some "exposure"
  nonCvePolicy := some policy
  severity := some "high"
  matchedAt := none
  alsoDetectedBy := []
  findingEvidence := none

def reportingRun (runId : String) (now : ℤ) (cves : List (Option String)) (asset : AssetId) :
    Run where
  tenantId := "t"
  runId := runId
  now := now
  hasRunDir := true
  reported := cves.map fun cve => ⟨templateEntry cve, ⟨false, none, none, none⟩, runId⟩
  assetFor _ := some ⟨asset.val, none, none, none⟩
  vantage := none
  artifacts := ⟨none, none, [], [], [], []⟩
  jobIds := []
  policies := []
  assetHosts _ := []

/-- The address and the name are seen apart, and the name is found to have a problem without a
CVE. -/
def twoAssets : List Event :=
  [hostEvent "1" 0, hostEvent "w" 1,
    .scanned (reportingRun "r1" 2 [none] (sampleAsset .fqdn "w"))]

/-- They are seen apart; the address has one problem, and the name has it too and one more. -/
def sharedProblem : List Event :=
  [hostEvent "1" 0, hostEvent "w" 1,
    .scanned (reportingRun "r1" 2 [some "CVE-1"] (sampleAsset .ip "1")),
    .scanned (reportingRun "r2" 5 [some "CVE-1", some "CVE-2"] (sampleAsset .fqdn "w"))]

def sampleLink : IdentityCorrelation := ⟨"1", "w", [.certificate, .forwardDns], false⟩

def sampleRegistry (events : List Event) : Registry :=
  (events.foldlM (Registry.step sampleLibrary) Registry.empty).getD Registry.empty

theorem sample_runs {events : List Event}
    (h : (events.foldlM (Registry.step sampleLibrary) Registry.empty).isSome = true) :
    events.foldlM (Registry.step sampleLibrary) Registry.empty = some (sampleRegistry events) := by
  unfold sampleRegistry
  cases hrun : events.foldlM (Registry.step sampleLibrary) Registry.empty with
  | none => simp [hrun] at h
  | some reg => rfl

theorem sample_guarded {events : List Event}
    (h : (events.foldlM (Registry.step sampleLibrary) Registry.empty).isSome = true)
    (hok : ∀ e ∈ events, ∀ reg, Spares sampleLibrary reg e) :
    Runs (guarded (ofStep (Registry.step sampleLibrary)) fun reg e =>
      Within sampleLibrary Set.univ reg e ∧ Spares sampleLibrary reg e) Registry.empty
      events (sampleRegistry events) :=
  Runs.of_foldlM (Registry.step sampleLibrary) _
    (fun e he reg => ⟨Set.subset_univ _, hok e he reg⟩) (sample_runs h)

theorem twoAssets_spare : ∀ e ∈ twoAssets, ∀ reg, Spares sampleLibrary reg e := by
  intro e he reg
  simp only [twoAssets, hostEvent, List.mem_cons, List.not_mem_nil, or_false] at he
  rcases he with rfl | rfl | rfl <;> trivial

theorem sharedProblem_spares : ∀ e ∈ sharedProblem, ∀ reg, Spares sampleLibrary reg e := by
  intro e he reg
  simp only [sharedProblem, hostEvent, List.mem_cons, List.not_mem_nil, or_false] at he
  rcases he with rfl | rfl | rfl | rfl <;> trivial

def sampleMerge (events : List Event) : Option (AssetId × AssetId) :=
  (merging (sampleRegistry events) "t" sampleLink).map fun p => (p.1.assetId, p.2.assetId)

theorem sampleMerge_spec (events : List Event)
    (h : sampleMerge events = some (sampleAsset .ip "1", sampleAsset .fqdn "w")) :
    ∃ survivor absorbed, merging (sampleRegistry events) "t" sampleLink =
      some (survivor, absorbed) ∧ survivor.assetId = sampleAsset .ip "1" ∧
        absorbed.assetId = sampleAsset .fqdn "w" := by
  obtain ⟨⟨survivor, absorbed⟩, hpair, hids⟩ := Option.map_eq_some_iff.mp h
  obtain ⟨hs, ha⟩ := Prod.mk.inj hids
  exact ⟨survivor, absorbed, hpair, hs, ha⟩

def summary (row : Vulnerability) :
    (VulnStates.State × Option ℤ) × String × String × Problem × Option NonCve :=
  ((row.state, row.dueAt), row.tenantId, row.assetId,
    columnProblem sampleLibrary.toTrackerText row, row.nonCve)

def sampleFindings (events : List Event) :
    List ((VulnStates.State × Option ℤ) × String × String × Problem × Option NonCve) :=
  (sampleRegistry events).findings.rows.map summary

theorem sharedProblem_findings :
    sampleFindings sharedProblem =
      [((.OPEN, some (2 + days 30)), "t", (sampleAsset .ip "1").val, .reported "CVE-1" "443", none),
        ((.OPEN, some (5 + days 30)), "t", (sampleAsset .fqdn "w").val,
          .reported "CVE-1" "443", none),
        ((.OPEN, some (5 + days 30)), "t", (sampleAsset .fqdn "w").val,
          .reported "CVE-2" "443", none)] := by
  decide +kernel

theorem sampleAssets_ne : sampleAsset .ip "1" ≠ sampleAsset .fqdn "w" := by
  intro h
  have := congrArg (fun id => id.val.toList.head?) h
  simp [sampleAsset, sampleLibrary, spelledId, kindLetter] at this

end Sample

/-- A reachable state in which a finding without a CVE, moved by a merge, lies under the key of
another problem: its next observation will not find it. -/
theorem merge_unidentifies :
    ∃ events reg, Runs (ofStep (Registry.step sampleLibrary)) Registry.empty events reg ∧
      ∃ row ∈ reg.findings.rows, ¬ Identified sampleLibrary.toTrackerText row := by
  have hruns := sample_guarded (by decide +kernel) twoAssets_spare
  obtain ⟨survivor, absorbed, hmerging, hs, ha⟩ := sampleMerge_spec twoAssets (by decide +kernel)
  have hcolumns : (sampleRegistry twoAssets).findings.rows.map
      (fun r => ((r.tenantId, r.assetId), r.nonCve.isSome)) =
        [(("t", (sampleAsset .fqdn "w").val), true)] := by
    decide +kernel
  obtain ⟨row, hrows, hrow⟩ := List.map_eq_singleton_iff.mp hcolumns
  obtain ⟨hplace, hnonCve⟩ := Prod.mk.inj hrow
  obtain ⟨htenant, hasset⟩ := Prod.mk.inj hplace
  have habsorbed : Absorbed "t" absorbed.assetId row := ⟨htenant, by rw [hasset, ha]⟩
  have hin : row ∈ (sampleRegistry twoAssets).findings.rows := by
    rw [hrows]
    exact List.mem_singleton_self row
  have hne : survivor.assetId ≠ absorbed.assetId := by
    rw [hs, ha]
    exact sampleAssets_ne
  have hmerge : ofStep (Registry.step sampleLibrary) (sampleRegistry twoAssets)
      (.correlated "t" sampleLink 3) (applyOneCorrelation sampleLibrary.toTrackerText
        (sampleRegistry twoAssets) "t" sampleLink 3) := rfl
  refine ⟨_, _, hruns.of_guarded.trans (Runs.one hmerge), ?_⟩
  have ht := (sparing_recorded sample_collisionless sample_strip hruns).1
  rw [applyOneCorrelation_findings, hmerging]
  simp only [if_neg hne]
  refine moved_unidentified sample_collisionless ht hne (keeps_of_apart hin ?_ ?_) habsorbed ?_
  · intro b hb hkey
    rw [hrows, List.mem_singleton] at hb
    subst hb
    exact newKey_ne sample_collisionless hne (ht b hin) (Set.mem_univ _) (ht b hin) habsorbed.2
      hkey.symm
  · intro a hmem _ _
    rw [hrows, List.mem_singleton] at hmem
    exact hmem
  · exact fun hnone => by simp [hnone] at hnonCve

theorem merge_of_shared_resolves :
    ∃ survivor absorbed, merging (sampleRegistry sharedProblem) "t" sampleLink =
        some (survivor, absorbed) ∧
      survivor.assetId ≠ absorbed.assetId ∧
      Resolves sampleLibrary.toTrackerText Set.univ "t" survivor.assetId absorbed.assetId
        (sampleRegistry sharedProblem).findings
        (applyOneCorrelation sampleLibrary.toTrackerText (sampleRegistry sharedProblem) "t"
          sampleLink 7).findings := by
  have hruns := sample_guarded (by decide +kernel) sharedProblem_spares
  obtain ⟨survivor, absorbed, hmerging, hs, ha⟩ :=
    sampleMerge_spec sharedProblem (by decide +kernel)
  have hproblems : ∀ row ∈ (sampleRegistry sharedProblem).findings.rows, row.nonCve = none ∧
      (columnProblem sampleLibrary.toTrackerText row).delimited := by
    intro row hrow
    have hsummary : summary row ∈ sampleFindings sharedProblem := List.mem_map_of_mem hrow
    rw [sharedProblem_findings] at hsummary
    simp only [summary, List.mem_cons, List.not_mem_nil, or_false, Prod.mk.injEq] at hsummary
    rcases hsummary with ⟨_, _, _, hproblem, hnone⟩ | ⟨_, _, _, hproblem, hnone⟩ |
      ⟨_, _, _, hproblem, hnone⟩
    all_goals
      refine ⟨hnone, ?_⟩
      rw [hproblem]
      change '|' ∉ "443".toList
      decide
  refine ⟨survivor, absorbed, hmerging, by rw [hs, ha]; exact sampleAssets_ne, ?_⟩
  refine (sparing_runs_keep_identity sample_collisionless sample_strip hruns).2 "t" sampleLink 7
    survivor absorbed (Set.subset_univ _) ?_ hmerging
  intro survivor' absorbed' _
  exact sparing_of_delimited (fun row hrow => (hproblems row hrow).1)
    fun row hrow => (hproblems row hrow).2

end Shapoclyack.FindingIdentity
