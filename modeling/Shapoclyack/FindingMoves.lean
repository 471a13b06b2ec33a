import Shapoclyack.FindingProblems

set_option autoImplicit false

namespace Shapoclyack.FindingMoves

open FindingEvidence ReportEntries Findings FindingFold FindingColumns AssetRegistry
open FindingProblems Library

variable {lib : TrackerText} {seen : Set KeyMaterial} {tenantId : String}
  {survivorId absorbedId : AssetId} {t : Tracker}

/-- Where a moved finding lands. -/
def newKey (lib : TrackerText) (survivorId : AssetId) (row : Vulnerability) : String × String :=
  rowKey (repointed lib survivorId row)

def Absorbed (tenantId : String) (absorbedId : AssetId) (row : Vulnerability) : Prop :=
  row.tenantId = tenantId ∧ row.assetId = absorbedId

/-- What the keys that a merge computes are the hashes of. -/
def movedMaterials (lib : TrackerText) (tenantId : String) (survivorId absorbedId : AssetId)
    (t : Tracker) : Set KeyMaterial :=
  {k | ∃ row ∈ t.rows, Absorbed tenantId absorbedId row ∧
    k = (columnProblem lib row).material tenantId survivorId}

theorem mem_movedMaterials {row : Vulnerability} (hrow : row ∈ t.rows)
    (h : Absorbed tenantId absorbedId row) :
    (columnProblem lib row).material row.tenantId survivorId ∈
      movedMaterials lib tenantId survivorId absorbedId t := by
  rw [h.1]
  exact ⟨row, hrow, h, rfl⟩

theorem mem_absorbedFindings {row : Vulnerability} :
    row ∈ absorbedFindings tenantId absorbedId t ↔
      row ∈ t.rows ∧ Absorbed tenantId absorbedId row := by
  simp [absorbedFindings, Absorbed]

theorem newKey_eq {row : Vulnerability} (h : Rekeyable row) :
    newKey lib survivorId row =
      (row.tenantId, (columnProblem lib row).key lib row.tenantId survivorId) := by
  simp [newKey, rowKey, repointed, rekey_eq h]

theorem newKey_ne (hash : Collisionless lib seen) (hne : survivorId ≠ absorbedId)
    {a b : Vulnerability} (ha : Rooted lib seen a)
    (hnew : (columnProblem lib a).material a.tenantId survivorId ∈ seen)
    (hb : Rooted lib seen b) (hasset : b.assetId = absorbedId) :
    newKey lib survivorId a ≠ rowKey b := by
  obtain ⟨_, harekey, _⟩ := ha
  obtain ⟨hplain, _, P, hmaterial, hP⟩ := hb
  rw [newKey_eq harekey]
  intro h
  have hkey := congrArg Prod.snd h
  simp only [rowKey, hP] at hkey
  have hsame := material_asset survivorId.property hplain (hash _ hnew _ hmaterial hkey)
  exact hne (Subtype.ext (hsame.trans hasset))

/-- Every key after the merge, from the rows before it. -/
theorem repoint_get (hash : Collisionless lib seen) (ht : t.All (Rooted lib seen))
    (hmoved : movedMaterials lib tenantId survivorId absorbedId t ⊆ seen)
    (hne : survivorId ≠ absorbedId) (j : String × String) :
    (repointFindings lib tenantId survivorId absorbedId t).get j =
      if j ∈ (absorbedFindings tenantId absorbedId t).map rowKey then none
      else ((absorbedFindings tenantId absorbedId t).filter fun a =>
        decide (newKey lib survivorId a = j)).foldl
          (fun held a => some ((repointing lib survivorId).land held a)) (t.get j) := by
  have hrooted : ∀ a ∈ absorbedFindings tenantId absorbedId t, Rooted lib seen a := fun a ha =>
    ht a (mem_absorbedFindings.mp ha).1
  have hget := Table.get_foldl_relocate (repointing lib survivorId)
    (repointFinding lib survivorId) (absorbedFindings tenantId absorbedId t) t
    (by
      intro a ha u hu
      simp only [repointFinding, hu, rekey_eq (hrooted a ha).2.1])
    (fun a ha => t.get_self (mem_absorbedFindings.mp ha).1)
    (List.Nodup.sublist (List.Sublist.map rowKey List.filter_sublist) t.unique)
    (fun a ha b hb =>
      newKey_ne hash hne (hrooted a ha)
        (hmoved (mem_movedMaterials (mem_absorbedFindings.mp ha).1 (mem_absorbedFindings.mp ha).2))
        (hrooted b hb) (mem_absorbedFindings.mp hb).2.2) j
  refine hget.trans ?_
  congr

section Carrying

/-- A row that a merge changed in nothing but its observation counters. -/
def Carried (before after : Vulnerability) : Prop :=
  after = { before with
    observationCount := after.observationCount
    lastSeenAt := after.lastSeenAt
    lastSeenRunId := after.lastSeenRunId }

theorem Carried.refl (row : Vulnerability) : Carried row row := rfl

theorem Carried.trans {a b c : Vulnerability} (hab : Carried a b) (hbc : Carried b c) :
    Carried a c := by
  unfold Carried at *
  rw [hbc, hab]

theorem absorbCounters_carried (row clash : Vulnerability) :
    Carried clash (absorbCounters row clash) := rfl

theorem Carried.named {a b : Vulnerability} (h : Carried a b) :
    FindingColumns.named b = FindingColumns.named a := by
  rw [h]
  rfl

theorem Carried.key {a b : Vulnerability} (h : Carried a b) : rowKey b = rowKey a :=
  rowKey_of_named h.named

theorem foldl_land_some (lib : TrackerText) (survivorId : AssetId) (as : List Vulnerability)
    (b : Vulnerability) :
    ∃ row, as.foldl (fun held a => some ((repointing lib survivorId).land held a)) (some b) =
      some row ∧ Carried b row := by
  induction as generalizing b with
  | nil => exact ⟨b, rfl, .refl b⟩
  | cons a as ih =>
    obtain ⟨row, hrow, hcarried⟩ := ih (absorbCounters a b)
    exact ⟨row, hrow, (absorbCounters_carried a b).trans hcarried⟩

end Carrying

section Keeping

/-- The row of a finding, or the one it is folded into, keeps its place. -/
def Keeps (lib : TrackerText) (tenantId : String) (survivorId absorbedId : AssetId) (t : Tracker)
    (row : Vulnerability) : Prop :=
  row ∈ t.rows ∧ (Absorbed tenantId absorbedId row →
    t.get (newKey lib survivorId row) = none ∧
      ((absorbedFindings tenantId absorbedId t).filter fun a =>
        decide (newKey lib survivorId a = newKey lib survivorId row)).head? = some row)

open Classical in
noncomputable def relabelled (lib : TrackerText) (tenantId : String)
    (survivorId absorbedId : AssetId) (row : Vulnerability) : Vulnerability :=
  if Absorbed tenantId absorbedId row then repointed lib survivorId row else row

theorem relabelled_absorbed {row : Vulnerability} (h : Absorbed tenantId absorbedId row) :
    relabelled lib tenantId survivorId absorbedId row = repointed lib survivorId row :=
  if_pos h

theorem relabelled_other {row : Vulnerability} (h : ¬ Absorbed tenantId absorbedId row) :
    relabelled lib tenantId survivorId absorbedId row = row :=
  if_neg h

theorem not_mem_old {row : Vulnerability} (hrow : row ∈ t.rows)
    (h : ¬ Absorbed tenantId absorbedId row) :
    rowKey row ∉ (absorbedFindings tenantId absorbedId t).map rowKey := by
  intro hmem
  obtain ⟨a, ha, hkey⟩ := List.mem_map.mp hmem
  obtain ⟨hin, habsorbed⟩ := mem_absorbedFindings.mp ha
  rw [eq_of_key_eq t.unique hin hrow hkey] at habsorbed
  exact h habsorbed

theorem newKey_not_old (hash : Collisionless lib seen) (ht : t.All (Rooted lib seen))
    (hmoved : movedMaterials lib tenantId survivorId absorbedId t ⊆ seen)
    (hne : survivorId ≠ absorbedId) {row : Vulnerability} (hrow : row ∈ t.rows)
    (habsorbed : Absorbed tenantId absorbedId row) :
    newKey lib survivorId row ∉ (absorbedFindings tenantId absorbedId t).map rowKey := by
  intro hmem
  obtain ⟨a, ha, hkey⟩ := List.mem_map.mp hmem
  obtain ⟨hin, _, hasset⟩ := mem_absorbedFindings.mp ha
  exact newKey_ne hash hne (ht row hrow) (hmoved (mem_movedMaterials hrow habsorbed)) (ht a hin)
    hasset hkey.symm

theorem keeps_lands (hash : Collisionless lib seen) (ht : t.All (Rooted lib seen))
    (hmoved : movedMaterials lib tenantId survivorId absorbedId t ⊆ seen)
    (hne : survivorId ≠ absorbedId) {row : Vulnerability}
    (h : Keeps lib tenantId survivorId absorbedId t row) :
    ∃ row', (repointFindings lib tenantId survivorId absorbedId t).get
        (rowKey (relabelled lib tenantId survivorId absorbedId row)) = some row' ∧
      Carried (relabelled lib tenantId survivorId absorbedId row) row' := by
  obtain ⟨hrow, hfirst⟩ := h
  rw [repoint_get hash ht hmoved hne]
  by_cases habsorbed : Absorbed tenantId absorbedId row
  · obtain ⟨hfree, hhead⟩ := hfirst habsorbed
    rw [relabelled_absorbed habsorbed]
    change ∃ row', (if newKey lib survivorId row ∈ _ then _ else
      List.foldl _ (t.get (newKey lib survivorId row)) (List.filter (fun a =>
        decide (newKey lib survivorId a = newKey lib survivorId row)) _)) = _ ∧ _
    rw [if_neg (newKey_not_old hash ht hmoved hne hrow habsorbed), hfree]
    obtain ⟨rest, hrest⟩ := List.head?_eq_some_iff.mp hhead
    rw [hrest, List.foldl_cons]
    exact foldl_land_some lib survivorId rest (repointed lib survivorId row)
  · rw [relabelled_other habsorbed, if_neg (not_mem_old hrow habsorbed), t.get_self hrow]
    exact foldl_land_some lib survivorId _ row

theorem lands_keeps (hash : Collisionless lib seen) (ht : t.All (Rooted lib seen))
    (hmoved : movedMaterials lib tenantId survivorId absorbedId t ⊆ seen)
    (hne : survivorId ≠ absorbedId) {j : String × String} {row' : Vulnerability}
    (h : (repointFindings lib tenantId survivorId absorbedId t).get j = some row') :
    ∃ row, Keeps lib tenantId survivorId absorbedId t row ∧
      rowKey (relabelled lib tenantId survivorId absorbedId row) = j ∧
      Carried (relabelled lib tenantId survivorId absorbedId row) row' := by
  rw [repoint_get hash ht hmoved hne] at h
  split_ifs at h with hold
  cases hget : t.get j with
  | some b =>
    obtain ⟨hb, hkey⟩ := (t.get_eq_some_iff j b).mp hget
    have hother : ¬ Absorbed tenantId absorbedId b := by
      intro habsorbed
      rw [← hkey] at hold
      exact hold (List.mem_map_of_mem (mem_absorbedFindings.mpr ⟨hb, habsorbed⟩))
    rw [hget] at h
    obtain ⟨row, hrow, hcarried⟩ := foldl_land_some lib survivorId
      ((absorbedFindings tenantId absorbedId t).filter fun a =>
        decide (newKey lib survivorId a = j)) b
    rw [hrow, Option.some.injEq] at h
    refine ⟨b, ⟨hb, fun habsorbed => absurd habsorbed hother⟩, ?_, ?_⟩
    · rw [relabelled_other hother, hkey]
    · rw [relabelled_other hother, ← h]
      exact hcarried
  | none =>
    rw [hget] at h
    cases hcomers : (absorbedFindings tenantId absorbedId t).filter fun a =>
        decide (newKey lib survivorId a = j) with
    | nil => simp [hcomers] at h
    | cons a rest =>
      have ha : a ∈ (absorbedFindings tenantId absorbedId t).filter fun a =>
          decide (newKey lib survivorId a = j) := by
        rw [hcomers]
        exact List.mem_cons_self
      obtain ⟨hmem, hj⟩ := List.mem_filter.mp ha
      obtain ⟨hrows, habsorbed⟩ := mem_absorbedFindings.mp hmem
      have hj' : newKey lib survivorId a = j := by simpa using hj
      rw [hcomers, List.foldl_cons] at h
      obtain ⟨row, hrow, hcarried⟩ := foldl_land_some lib survivorId
        rest (repointed lib survivorId a)
      have hsame : row = row' := Option.some.inj (hrow.symm.trans h)
      refine ⟨a, ⟨hrows, fun _ => ⟨by rw [hj', hget], ?_⟩⟩, ?_, ?_⟩
      · rw [hj', hcomers]
        rfl
      · rw [relabelled_absorbed habsorbed]
        exact hj'
      · rw [relabelled_absorbed habsorbed, ← hsame]
        exact hcarried

/-- Every finding is represented: some row keeps the place it would have. -/
theorem represented (hash : Collisionless lib seen) (ht : t.All (Rooted lib seen))
    (hmoved : movedMaterials lib tenantId survivorId absorbedId t ⊆ seen)
    (hne : survivorId ≠ absorbedId) {row : Vulnerability} (hrow : row ∈ t.rows) :
    ∃ row', (repointFindings lib tenantId survivorId absorbedId t).get
      (rowKey (relabelled lib tenantId survivorId absorbedId row)) = some row' := by
  by_cases habsorbed : Absorbed tenantId absorbedId row
  · rw [relabelled_absorbed habsorbed]
    change ∃ row', (repointFindings lib tenantId survivorId absorbedId t).get
      (newKey lib survivorId row) = some row'
    rw [repoint_get hash ht hmoved hne, if_neg (newKey_not_old hash ht hmoved hne hrow habsorbed)]
    cases hget : t.get (newKey lib survivorId row) with
    | some b =>
      obtain ⟨row', hrow', _⟩ := foldl_land_some lib survivorId _ b
      exact ⟨row', hrow'⟩
    | none =>
      have hin : row ∈ (absorbedFindings tenantId absorbedId t).filter fun a =>
          decide (newKey lib survivorId a = newKey lib survivorId row) :=
        List.mem_filter.mpr ⟨mem_absorbedFindings.mpr ⟨hrow, habsorbed⟩, by simp⟩
      obtain ⟨a, rest, hcomers⟩ := List.exists_cons_of_ne_nil (List.ne_nil_of_mem hin)
      rw [hcomers, List.foldl_cons]
      obtain ⟨row', hrow', _⟩ := foldl_land_some lib survivorId rest
        (repointed lib survivorId a)
      exact ⟨row', hrow'⟩
  · have hkeeps : Keeps lib tenantId survivorId absorbedId t row :=
      ⟨hrow, fun h => absurd h habsorbed⟩
    obtain ⟨row', hrow', _⟩ := keeps_lands hash ht hmoved hne hkeeps
    exact ⟨row', hrow'⟩

end Keeping

section Rooting

theorem repointed_rooted {row : Vulnerability} (h : Rooted lib seen row)
    (hnew : (columnProblem lib row).material row.tenantId survivorId ∈ seen) :
    Rooted lib seen (repointed lib survivorId row) := by
  obtain ⟨_, hrekey, _⟩ := h
  refine ⟨survivorId.property, hrekey, columnProblem lib row, hnew, ?_⟩
  simp [repointed, rekey_eq hrekey]

theorem relabelled_rooted (hmoved : movedMaterials lib tenantId survivorId absorbedId t ⊆ seen)
    {row : Vulnerability} (hrow : row ∈ t.rows) (h : Rooted lib seen row) :
    Rooted lib seen (relabelled lib tenantId survivorId absorbedId row) := by
  by_cases habsorbed : Absorbed tenantId absorbedId row
  · rw [relabelled_absorbed habsorbed]
    exact repointed_rooted h (hmoved (mem_movedMaterials hrow habsorbed))
  · rw [relabelled_other habsorbed]
    exact h

/-- A merge leaves every finding under a key of the asset it is on. -/
theorem repoint_rooted (hash : Collisionless lib seen) (ht : t.All (Rooted lib seen))
    (hmoved : movedMaterials lib tenantId survivorId absorbedId t ⊆ seen)
    (hne : survivorId ≠ absorbedId) :
    (repointFindings lib tenantId survivorId absorbedId t).All (Rooted lib seen) := by
  rw [Table.all_iff_get]
  intro j row' hrow'
  obtain ⟨row, ⟨hrow, _⟩, _, hcarried⟩ := lands_keeps hash ht hmoved hne hrow'
  exact (rooted_congr (congrArg Prod.fst hcarried.named)).mpr
    (relabelled_rooted hmoved hrow (ht row hrow))

end Rooting

end Shapoclyack.FindingMoves
