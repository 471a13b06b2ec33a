import Shapoclyack.AssetRegistry

set_option autoImplicit false

namespace Shapoclyack.FindingProblems

open FindingEvidence ProductionEvidence ReportEntries VerificationArtifacts Findings FindingFold
open SoftwareFindings FindingColumns AssetRegistry

section Delimited

variable {α : Type*} {c : α}

theorem split_first {a b x y : List α} (ha : c ∉ a) (hb : c ∉ b)
    (h : a ++ c :: x = b ++ c :: y) : a = b ∧ x = y := by
  induction a generalizing b with
  | nil =>
    cases b with
    | nil => exact ⟨rfl, (List.cons.inj h).2⟩
    | cons d b =>
      have hd : c = d := (List.cons.inj h).1
      exact absurd (by rw [hd]; exact List.mem_cons_self) hb
  | cons d a ih =>
    cases b with
    | nil =>
      have hd : d = c := (List.cons.inj h).1
      exact absurd (by rw [hd]; exact List.mem_cons_self) ha
    | cons e b =>
      obtain ⟨hde, htail⟩ := List.cons.inj h
      obtain ⟨hab, hxy⟩ := ih (fun hm => ha (List.mem_cons_of_mem d hm))
        (fun hm => hb (List.mem_cons_of_mem e hm)) htail
      exact ⟨by rw [hde, hab], hxy⟩

theorem split_last {a b x y : List α} (hx : c ∉ x) (hy : c ∉ y)
    (h : a ++ c :: x = b ++ c :: y) : a = b ∧ x = y := by
  have hreversed : x.reverse ++ c :: a.reverse = y.reverse ++ c :: b.reverse := by
    simpa using congrArg List.reverse h
  obtain ⟨hxy, hab⟩ := split_first (by simpa using hx) (by simpa using hy) hreversed
  exact ⟨List.reverse_injective hab, List.reverse_injective hxy⟩

theorem join_toList (part next : String) (rest : List String) :
    (join (part :: next :: rest)).toList = part.toList ++ '|' :: (join (next :: rest)).toList := by
  unfold join
  rw [String.intercalate_cons_cons, String.toList_append, String.toList_append]
  simp

theorem join_singleton (part : String) : join [part] = part :=
  String.intercalate_singleton

theorem join_first {a b next next' : String} {rest rest' : List String}
    (ha : '|' ∉ a.toList) (hb : '|' ∉ b.toList)
    (h : join (a :: next :: rest) = join (b :: next' :: rest')) :
    a = b ∧ join (next :: rest) = join (next' :: rest') := by
  have htext := congrArg String.toList h
  rw [join_toList, join_toList] at htext
  obtain ⟨hab, hrest⟩ := split_first ha hb htext
  exact ⟨String.toList_inj.mp hab, String.toList_inj.mp hrest⟩

theorem join_pair_last {a b x y : String} (hx : '|' ∉ x.toList) (hy : '|' ∉ y.toList)
    (h : join [a, x] = join [b, y]) : a = b ∧ x = y := by
  have htext := congrArg String.toList h
  rw [join_toList, join_toList, join_singleton, join_singleton] at htext
  obtain ⟨hab, hxy⟩ := split_last hx hy htext
  exact ⟨String.toList_inj.mp hab, String.toList_inj.mp hxy⟩

end Delimited

section PlainIds

variable {id : String}

theorem plainId_delimiter (h : plainId id = true) : '|' ∉ id.toList := by
  simp only [plainId, Bool.and_eq_true, Bool.not_eq_true', List.contains_eq_mem,
    decide_eq_false_iff_not] at h
  exact h.1.1.2

theorem plainId_namespace (h : plainId id = true) : id ≠ softwareKeyNamespace := by
  simp only [plainId, Bool.and_eq_true, decide_eq_true_eq] at h
  exact h.2

theorem plainId_head (h : plainId id = true) (rest : List Char) :
    (id.toList ++ rest).head? ≠ some '[' := by
  simp only [plainId, Bool.and_eq_true, bne_iff_ne, decide_eq_true_eq] at h
  obtain ⟨⟨⟨hne, _⟩, hhead⟩, _⟩ := h
  rw [List.head?_append_of_ne_nil]
  · exact hhead
  · intro hnil
    exact hne (String.toList_inj.mp hnil)

end PlainIds

/-- What a finding is about, apart from the asset it is on. -/
inductive Problem where
  /-- A scanner's CVE or script on a port. -/
  | reported (what port : String)
  /-- A rule without a CVE, and the subject it fired on. -/
  | actionable (rule : String) (subject : Subject)
  /-- A CVE of a package on an endpoint. -/
  | software (deviceId cve : String)
deriving DecidableEq

def Problem.material (tenantId assetId : String) : Problem → KeyMaterial
  | .reported what port => .scan (join [assetId, what, port])
  | .actionable rule subject => .actionable tenantId assetId rule subject
  | .software deviceId cve => .software (join [softwareKeyNamespace, assetId, deviceId, cve])

/-- The key under which a problem is tracked on an asset. -/
def Problem.key (lib : TrackerText) (tenantId assetId : String) (P : Problem) : String :=
  lib.sha256 (P.material tenantId assetId)

/-- The problem a scanner's entry observes; none where naming it raises. -/
def Problem.ofEntry (lib : TrackerText) (e : Entry) : Option Problem :=
  if ReportEntries.actionable lib.toText e then
    if stableRule lib e = "" then none
    else (lib.subject e).map (Problem.actionable (stableRule lib e))
  else some (.reported (findingWhat lib.toText e.cve e.scriptId) (lib.strip (text e.port)))

theorem observationFindingKey_eq (lib : TrackerText) (tenantId assetId : String) (e : Entry) :
    observationFindingKey lib tenantId assetId e =
      (Problem.ofEntry lib e).map (Problem.key lib tenantId assetId) := by
  unfold observationFindingKey Problem.ofEntry
  simp only
  split_ifs
  · rfl
  · cases lib.subject e <;> rfl
  · rfl

def Problem.ofMatch (lib : TrackerText) (ctx : DeviceContext) (m : Match) : Problem :=
  .software ctx.device.deviceId (lib.upper (lib.strip (issueOf lib m)))

theorem keyOf_eq (lib : TrackerText) (ctx : DeviceContext) (m : Match) :
    keyOf lib ctx m =
      (Problem.ofMatch lib ctx m).key lib ctx.tenantId ctx.asset.assetId := rfl

/-- Two key materials are one text: software and scan keys hash plain text, and an actionable one
the text of a list. -/
def SameText : KeyMaterial → KeyMaterial → Prop
  | .scan m, .scan m' => m = m'
  | .software m, .software m' => m = m'
  | .scan m, .software m' => m = m'
  | .software m, .scan m' => m = m'
  | .actionable _ a r s, .actionable _ a' r' s' => a = a' ∧ r = r' ∧ s = s'
  | .scan m, .actionable _ _ _ _ => m.toList.head? = some '['
  | .software m, .actionable _ _ _ _ => m.toList.head? = some '['
  | .actionable _ _ _ _, .scan m => m.toList.head? = some '['
  | .actionable _ _ _ _, .software m => m.toList.head? = some '['

/-- The hash of the finding keys tells the texts at hand apart. -/
def Collisionless (lib : TrackerText) (seen : Set KeyMaterial) : Prop :=
  ∀ a ∈ seen, ∀ b ∈ seen, lib.sha256 a = lib.sha256 b → SameText a b

section Keys

variable {tenantId tenantId' assetId assetId' : String}

theorem scan_ne_software (ha : plainId assetId = true) (what port deviceId cve : String) :
    join [assetId, what, port] ≠ join [softwareKeyNamespace, assetId', deviceId, cve] := by
  intro h
  have hname : '|' ∉ softwareKeyNamespace.toList := by decide
  exact plainId_namespace ha (join_first (plainId_delimiter ha) hname h).1

theorem scan_ne_list (ha : plainId assetId = true) (what port : String) :
    (join [assetId, what, port]).toList.head? ≠ some '[' := by
  rw [join_toList]
  exact plainId_head ha _

theorem software_ne_list (deviceId cve : String) :
    (join [softwareKeyNamespace, assetId, deviceId, cve]).toList.head? ≠ some '[' := by
  rw [join_toList]
  simp [softwareKeyNamespace]

theorem software_split (ha : plainId assetId = true) (ha' : plainId assetId' = true)
    {deviceId deviceId' cve cve' : String}
    (h : SameText ((Problem.software deviceId cve).material tenantId assetId)
      ((Problem.software deviceId' cve').material tenantId' assetId')) :
    assetId = assetId' ∧ join [deviceId, cve] = join [deviceId', cve'] := by
  have hname : '|' ∉ softwareKeyNamespace.toList := by decide
  exact join_first (plainId_delimiter ha) (plainId_delimiter ha') (join_first hname hname h).2

theorem reported_split (ha : plainId assetId = true) (ha' : plainId assetId' = true)
    {what what' port port' : String}
    (h : SameText ((Problem.reported what port).material tenantId assetId)
      ((Problem.reported what' port').material tenantId' assetId')) :
    assetId = assetId' ∧ join [what, port] = join [what', port'] :=
  join_first (plainId_delimiter ha) (plainId_delimiter ha') h

theorem material_asset (ha : plainId assetId = true) (ha' : plainId assetId' = true)
    {P Q : Problem} (h : SameText (P.material tenantId assetId) (Q.material tenantId' assetId')) :
    assetId = assetId' := by
  cases P with
  | reported what port =>
    cases Q with
    | reported what' port' => exact (reported_split ha ha' h).1
    | actionable rule subject => exact absurd h (scan_ne_list ha _ _)
    | software deviceId cve => exact absurd h (scan_ne_software ha _ _ _ _)
  | actionable rule subject =>
    cases Q with
    | reported what port => exact absurd h (scan_ne_list ha' _ _)
    | actionable rule' subject' => exact h.1
    | software deviceId cve => exact absurd h (software_ne_list _ _)
  | software deviceId cve =>
    cases Q with
    | reported what port => exact absurd (Eq.symm h) (scan_ne_software ha' _ _ _ _)
    | actionable rule subject => exact absurd h (software_ne_list _ _)
    | software deviceId' cve' => exact (software_split ha ha' h).1

theorem reported_kind (ha : plainId assetId = true) {what port : String} {Q : Problem}
    (h : SameText ((Problem.reported what port).material tenantId assetId)
      (Q.material tenantId' assetId')) : ∃ what' port', Q = .reported what' port' := by
  cases Q with
  | reported what' port' => exact ⟨what', port', rfl⟩
  | actionable rule subject => exact absurd h (scan_ne_list ha _ _)
  | software deviceId cve => exact absurd h (scan_ne_software ha _ _ _ _)

theorem actionable_kind (ha' : plainId assetId' = true) {rule : String} {subject : Subject}
    {Q : Problem}
    (h : SameText ((Problem.actionable rule subject).material tenantId assetId)
      (Q.material tenantId' assetId')) : Q = .actionable rule subject := by
  cases Q with
  | reported what port => exact absurd h (scan_ne_list ha' _ _)
  | actionable rule' subject' =>
    obtain ⟨_, hrule, hsubject⟩ := h
    rw [hrule, hsubject]
  | software deviceId cve => exact absurd h (software_ne_list _ _)

theorem software_kind (ha' : plainId assetId' = true) {deviceId cve : String} {Q : Problem}
    (h : SameText ((Problem.software deviceId cve).material tenantId assetId)
      (Q.material tenantId' assetId')) : ∃ deviceId' cve', Q = .software deviceId' cve' := by
  cases Q with
  | reported what port => exact absurd (Eq.symm h) (scan_ne_software ha' _ _ _ _)
  | actionable rule subject => exact absurd h (software_ne_list _ _)
  | software deviceId' cve' => exact ⟨deviceId', cve', rfl⟩

/-- No delimiter stands where it would move the boundary between two parts of the key. -/
def Problem.delimited : Problem → Prop
  | .reported _ port => '|' ∉ port.toList
  | .actionable _ _ => True
  | .software deviceId _ => '|' ∉ deviceId.toList

/-- The keys of one asset tell delimited problems apart. -/
theorem material_inj (ha : plainId assetId = true) {P Q : Problem} (hP : P.delimited)
    (hQ : Q.delimited)
    (h : SameText (P.material tenantId assetId) (Q.material tenantId' assetId)) : P = Q := by
  cases P with
  | reported what port =>
    obtain ⟨what', port', rfl⟩ := reported_kind ha h
    obtain ⟨hwhat, hport⟩ := join_pair_last hP hQ (reported_split ha ha h).2
    rw [hwhat, hport]
  | actionable rule subject => exact (actionable_kind ha h).symm
  | software deviceId cve =>
    obtain ⟨deviceId', cve', rfl⟩ := software_kind ha h
    obtain ⟨hdevice, hcve⟩ := join_first hP hQ (software_split ha ha h).2
    rw [join_singleton, join_singleton] at hcve
    rw [hdevice, hcve]

end Keys

section Rows

variable {lib : TrackerText} {seen : Set KeyMaterial}

def columnProblem (lib : TrackerText) (row : Vulnerability) : Problem :=
  if row.source = .endpointSoftware then
    .software (text row.deviceId) (lib.upper (lib.strip (text row.cve)))
  else .reported (findingWhat lib.toText row.cve row.scriptId) (lib.strip (text row.port))

/-- The row is the record of a problem: its columns say what the problem is. -/
def StandsFor (lib : TrackerText) (row : Vulnerability) : Problem → Prop
  | .actionable _ subject =>
    row.source ≠ .endpointSoftware ∧ ∃ metadata, row.nonCve = some metadata ∧
      metadata.subject = subject
  | P => row.nonCve = none ∧ columnProblem lib row = P

/-- The row lies under the key of the problem it records, on the asset it is on. -/
def Names (lib : TrackerText) (row : Vulnerability) (P : Problem) : Prop :=
  StandsFor lib row P ∧ row.findingKey = P.key lib row.tenantId row.assetId

/-- The next observation of the row's problem on its asset will find it. -/
def Identified (lib : TrackerText) (row : Vulnerability) : Prop := ∃ P, Names lib row P

/-- The row lies under the key of the problem it records, and that key's text is at hand. -/
def Recorded (lib : TrackerText) (seen : Set KeyMaterial) (row : Vulnerability) : Prop :=
  ∃ P, Names lib row P ∧ P.material row.tenantId row.assetId ∈ seen

theorem Recorded.identified {row : Vulnerability} (h : Recorded lib seen row) :
    Identified lib row := by
  obtain ⟨P, hP, _⟩ := h
  exact ⟨P, hP⟩

def Rekeyable (row : Vulnerability) : Prop :=
  row.source = .endpointSoftware →
    deviceShaped (text row.deviceId) = true ∧ truthy row.deviceId = true ∧ truthy row.cve = true

/-- The row lies under some problem's key on the asset it is on, of a text at hand. -/
def Rooted (lib : TrackerText) (seen : Set KeyMaterial) (row : Vulnerability) : Prop :=
  plainId row.assetId = true ∧ Rekeyable row ∧
    ∃ P : Problem, P.material row.tenantId row.assetId ∈ seen ∧
      row.findingKey = P.key lib row.tenantId row.assetId

theorem source_iff_of_columns {a b : Vulnerability} (h : columnsOf a = columnsOf b) :
    a.source = .endpointSoftware ↔ b.source = .endpointSoftware := by
  have hsoftware := congrArg Columns.software h
  simpa [columnsOf] using hsoftware

theorem columnProblem_congr {a b : Vulnerability} (h : columnsOf a = columnsOf b) :
    columnProblem lib a = columnProblem lib b := by
  have hsource := source_iff_of_columns h
  simp only [columnsOf, Columns.mk.injEq] at h
  obtain ⟨_, _, _, _, hdevice, hcve, hscript, hport⟩ := h
  simp only [columnProblem, hsource, hdevice, hcve, hscript, hport]

theorem standsFor_congr {a b : Vulnerability} (h : named a = named b) (P : Problem) :
    StandsFor lib a P ↔ StandsFor lib b P := by
  have hcolumns := congrArg Prod.fst h
  have hnonCve : a.nonCve = b.nonCve := congrArg Prod.snd h
  have hsource := source_iff_of_columns hcolumns
  cases P with
  | actionable rule subject => simp only [StandsFor, ne_eq, hsource, hnonCve]
  | reported what port => simp only [StandsFor, hnonCve, columnProblem_congr hcolumns]
  | software deviceId cve => simp only [StandsFor, hnonCve, columnProblem_congr hcolumns]

theorem names_congr {a b : Vulnerability} (h : named a = named b) (P : Problem) :
    Names lib a P ↔ Names lib b P := by
  have hcolumns := congrArg Prod.fst h
  simp only [named, columnsOf, Columns.mk.injEq] at hcolumns
  simp only [Names, standsFor_congr h, hcolumns.1, hcolumns.2.1, hcolumns.2.2.1]

theorem identified_congr {a b : Vulnerability} (h : named a = named b) :
    Identified lib a ↔ Identified lib b := by
  simp only [Identified, names_congr h]

theorem recorded_congr {a b : Vulnerability} (h : named a = named b) :
    Recorded lib seen a ↔ Recorded lib seen b := by
  have hcolumns := congrArg Prod.fst h
  simp only [named, columnsOf, Columns.mk.injEq] at hcolumns
  simp only [Recorded, names_congr h, hcolumns.1, hcolumns.2.1]

theorem rooted_congr {a b : Vulnerability} (h : columnsOf a = columnsOf b) :
    Rooted lib seen a ↔ Rooted lib seen b := by
  have hsource := source_iff_of_columns h
  simp only [columnsOf, Columns.mk.injEq] at h
  obtain ⟨htenant, hasset, hkey, _, hdevice, hcve, _, _⟩ := h
  simp only [Rooted, Rekeyable, hsource, htenant, hasset, hkey, hdevice, hcve]

theorem deviceShaped_delimiter {deviceId : String} (h : deviceShaped deviceId = true) :
    '|' ∉ deviceId.toList := by
  simp only [deviceShaped, Bool.and_eq_true, Bool.not_eq_true', List.contains_eq_mem,
    decide_eq_false_iff_not] at h
  exact h.2

theorem rekey_eq {row : Vulnerability} (h : Rekeyable row) (survivorId : AssetId) :
    rekey lib survivorId row =
      some ((columnProblem lib row).key lib row.tenantId survivorId) := by
  unfold rekey columnProblem
  split_ifs with hsoftware hfilled
  · rfl
  · obtain ⟨_, hdevice, hcve⟩ := h hsoftware
    exact absurd (by rw [hdevice, hcve]; rfl) hfilled
  · rfl

end Rows

section Folds

variable {lib : CoverageText} {seen : Set KeyMaterial} {run : Run}

def runMaterials (lib : CoverageText) (run : Run) : Set KeyMaterial :=
  {k | ∃ reported ∈ run.reported, ∃ asset, run.assetFor reported.entry = some asset ∧
    ∃ P, Problem.ofEntry lib.toTrackerText reported.entry = some P ∧
      k = P.material run.tenantId asset.assetId}

theorem text_strippedOrNone (t : Text) (value : Option String) :
    text (strippedOrNone t value) = t.strip (text value) := by
  unfold strippedOrNone orNone
  split_ifs with h
  · rw [h]
    rfl
  · rfl

theorem findingWhat_stripped {t : Text} (hstrip : ∀ v, t.strip (t.strip v) = t.strip v)
    (cve scriptId : Option String) :
    findingWhat t (strippedOrNone t cve) (strippedOrNone t scriptId) =
      findingWhat t cve scriptId := by
  simp only [findingWhat, text_strippedOrNone, hstrip]

theorem comesFrom_problem {o : Observed} (h : ComesFrom lib run o) :
    ∃ reported ∈ run.reported, run.assetFor reported.entry = some o.asset ∧
      o = observedOf lib run reported o.asset o.key ∧
      ∃ P, Problem.ofEntry lib.toTrackerText reported.entry = some P ∧
        P.material run.tenantId o.asset.assetId ∈ runMaterials lib run ∧
        o.key = P.key lib.toTrackerText run.tenantId o.asset.assetId := by
  obtain ⟨reported, hin, asset, hasset, hkey, hobserved⟩ := h
  rw [observationFindingKey_eq, Option.map_eq_some_iff] at hkey
  obtain ⟨P, hP, hPkey⟩ := hkey
  have hsame : o.asset = asset := by
    rw [hobserved]
    rfl
  rw [← hsame] at hasset hobserved hPkey
  exact ⟨reported, hin, hasset, hobserved, P, hP, ⟨reported, hin, o.asset, hasset, P, hP, rfl⟩,
    hPkey.symm⟩

theorem observed_nonCve (run : Run) {reported : Reported} (asset : AssetInfo) (key : String)
    {P : Problem} (hP : Problem.ofEntry lib.toTrackerText reported.entry = some P) :
    (∃ rule subject metadata, P = .actionable rule subject ∧
        (observedOf lib run reported asset key).nonCve = some metadata ∧
        metadata.subject = subject) ∨
      ((observedOf lib run reported asset key).nonCve = none ∧
        P = .reported (findingWhat lib.toText reported.entry.cve reported.entry.scriptId)
          (lib.strip (text reported.entry.port))) := by
  unfold Problem.ofEntry at hP
  simp only [observedOf]
  split_ifs at hP with hact hrule
  · obtain ⟨subject, hsubject, hPsubject⟩ := Option.map_eq_some_iff.mp hP
    rw [if_pos hact, nonCveMetadata, hsubject]
    exact .inl ⟨_, subject, _, hPsubject.symm, rfl, rfl⟩
  · rw [if_neg hact]
    exact .inr ⟨rfl, (Option.some.inj hP).symm⟩

theorem create_recorded (hstrip : ∀ v, lib.strip (lib.strip v) = lib.strip v)
    (hseen : runMaterials lib run ⊆ seen) {o : Observed} (h : ComesFrom lib run o) :
    Recorded lib.toTrackerText seen (create lib run o) := by
  obtain ⟨reported, _, _, hobserved, P, hP, hmaterial, hkey⟩ := comesFrom_problem h
  refine ⟨P, ⟨?_, hkey⟩, hseen hmaterial⟩
  have hsource : (create lib run o).source ≠ .endpointSoftware := by simp [create]
  have hnonCve : (create lib run o).nonCve = o.nonCve := rfl
  rcases observed_nonCve run o.asset o.key hP with
    ⟨rule, subject, metadata, rfl, hmetadata, hsubject⟩ | ⟨hnone, rfl⟩
  · rw [← hobserved] at hmetadata
    exact ⟨hsource, metadata, hnonCve.trans hmetadata, hsubject⟩
  · rw [← hobserved] at hnone
    refine ⟨hnonCve.trans hnone, ?_⟩
    rw [columnProblem, if_neg hsource]
    have hcve : (create lib run o).cve = strippedOrNone lib.toText reported.entry.cve := by
      simp only [create]
      rw [hobserved]
      rfl
    have hscript :
        (create lib run o).scriptId = strippedOrNone lib.toText reported.entry.scriptId := by
      simp only [create]
      rw [hobserved]
      rfl
    have hport : (create lib run o).port = reported.entry.port := by
      simp only [create]
      rw [hobserved]
      rfl
    rw [hcve, hscript, hport, findingWhat_stripped hstrip]

theorem create_rooted (hseen : runMaterials lib run ⊆ seen) {o : Observed}
    (hasset : plainId o.asset.assetId = true) (h : ComesFrom lib run o) :
    Rooted lib.toTrackerText seen (create lib run o) := by
  obtain ⟨_, _, _, _, P, _, hmaterial, hkey⟩ := comesFrom_problem h
  exact ⟨hasset, fun hsoftware => by simp [create] at hsoftware, P, hseen hmaterial, hkey⟩

/-- An observation that finds a row under its key leaves it the record of the same problem. -/
theorem observed_recorded (hash : Collisionless lib.toTrackerText seen)
    (hseen : runMaterials lib run ⊆ seen) {o : Observed}
    (hasset : plainId o.asset.assetId = true) (h : ComesFrom lib run o)
    {row row' : Vulnerability} (hplain : plainId row.assetId = true)
    (hkey : rowKey row = (run.tenantId, o.key)) (hreread : Reread o row row')
    (hrow : Recorded lib.toTrackerText seen row) : Recorded lib.toTrackerText seen row' := by
  obtain ⟨hcolumns, hnonCve⟩ := hreread
  by_cases hsame : row'.nonCve = row.nonCve
  · have hnamed : named row' = named row := by
      rw [named, named, hcolumns, hsame]
    exact (recorded_congr hnamed).mpr hrow
  have hwritten : row'.nonCve = o.nonCve := hnonCve.resolve_left hsame
  obtain ⟨reported, _, _, hobserved, Q, hQ, hQmaterial, hQkey⟩ := comesFrom_problem h
  obtain ⟨P, ⟨hstands, hPkey⟩, hPmaterial⟩ := hrow
  have hkeys : P.key lib.toTrackerText row.tenantId row.assetId =
      Q.key lib.toTrackerText run.tenantId o.asset.assetId := by
    rw [← hPkey, ← hQkey]
    exact congrArg Prod.snd hkey
  have hmeet := hash _ hPmaterial _ (hseen hQmaterial) hkeys
  have hread := observed_nonCve run o.asset o.key hQ
  rw [← hobserved] at hread
  cases P with
  | reported what port =>
    obtain ⟨_, _, rfl⟩ := reported_kind hplain hmeet
    rcases hread with ⟨_, _, _, habsurd, _, _⟩ | ⟨hnone, _⟩
    · simp at habsurd
    · exact absurd (hwritten.trans (hnone.trans hstands.1.symm)) hsame
  | actionable rule subject =>
    have hQP := actionable_kind hasset hmeet
    rcases hread with ⟨rule', subject', metadata, hQ', hmetadata, hsubject⟩ | ⟨_, hreported⟩
    · rw [hQP] at hQ'
      injection hQ' with _ hsubject'
      refine ⟨.actionable rule subject, ⟨⟨?_, metadata, hwritten.trans hmetadata, ?_⟩, ?_⟩, ?_⟩
      · rw [ne_eq, source_iff_of_columns hcolumns]
        exact hstands.1
      · rw [hsubject, hsubject']
      · simp only [columnsOf, Columns.mk.injEq] at hcolumns
        rw [hcolumns.1, hcolumns.2.1, hcolumns.2.2.1]
        exact hPkey
      · simp only [columnsOf, Columns.mk.injEq] at hcolumns
        rw [hcolumns.1, hcolumns.2.1]
        exact hPmaterial
    · rw [hQP] at hreported
      simp at hreported
  | software deviceId cve =>
    obtain ⟨_, _, rfl⟩ := software_kind hasset hmeet
    rcases hread with ⟨_, _, _, habsurd, _, _⟩ | ⟨_, habsurd⟩
    · simp at habsurd
    · simp at habsurd

end Folds

section Inventory

variable {lib : TrackerText} {seen : Set KeyMaterial} {ctx : DeviceContext}

def deviceMaterials (lib : TrackerText) (ctx : DeviceContext) : Set KeyMaterial :=
  {k | ∃ m ∈ trackable lib ctx,
    k = (Problem.ofMatch lib ctx m).material ctx.tenantId ctx.asset.assetId}

theorem createSoftware_recorded (hseen : deviceMaterials lib ctx ⊆ seen) {m : Match}
    (hm : m ∈ trackable lib ctx) : Recorded lib seen (createSoftware lib ctx m) :=
  ⟨Problem.ofMatch lib ctx m, ⟨⟨rfl, rfl⟩, keyOf_eq lib ctx m⟩, hseen ⟨m, hm, rfl⟩⟩

theorem truthy_some {value : String} (h : value ≠ "") : truthy (some value) = true := by
  simp [truthy, h]

theorem createSoftware_rooted (hseen : deviceMaterials lib ctx ⊆ seen)
    (hasset : plainId ctx.asset.assetId = true)
    (hdevice : deviceShaped ctx.device.deviceId = true) {m : Match} (hm : m ∈ trackable lib ctx) :
    Rooted lib seen (createSoftware lib ctx m) := by
  have hnonempty : ctx.device.deviceId ≠ "" := by
    simp only [deviceShaped, Bool.and_eq_true, decide_eq_true_eq] at hdevice
    exact hdevice.1
  exact ⟨hasset, fun _ => ⟨hdevice, truthy_some hnonempty, truthy_some (trackable_issue hm)⟩,
    Problem.ofMatch lib ctx m, hseen ⟨m, hm, rfl⟩, keyOf_eq lib ctx m⟩

end Inventory

end Shapoclyack.FindingProblems
