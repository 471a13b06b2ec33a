import Shapoclyack.RetroMatch
import Shapoclyack.SoftwareCveMatch
import Shapoclyack.VersionOrder

set_option autoImplicit false

namespace Shapoclyack.VerdictAgreement

open Advisories Library PackageIdentities RetroMatch SoftwareCveMatch SoftwareFindings
open VersionCompare VersionOrder

section Sides

def verdictOf (judged : Except ParseError (Verdict × VendorEvidence)) : Option Verdict :=
  judged.toOption.map (·.1)

def endpointStatus (lib : RetroText) (identity : PackageIdentity) (p : Provider)
    (records : List AdvisoryRecord) (cve : String) : Option MatchStatus :=
  match evaluatePackage lib.toVersionText identity (some p) (some records) with
  | .error _ => none
  | .ok cs => (worstOf worse (cs.filter fun c => decide (c.cveId = cve))).map (·.status)

/-- The two vocabularies say the same. -/
def Agree (verdict : Option Verdict) (status : Option MatchStatus) : Prop :=
  ((verdict = some .vulnerable ∨ verdict = some .unfixed) ↔ status = some .vulnerable) ∧
    (verdict = some .fixed ↔ status = some .fixed) ∧
    (verdict = some .notAffected ↔ status = some .notApplicable)

instance (v : Option Verdict) (s : Option MatchStatus) : Decidable (Agree v s) := by
  unfold Agree
  infer_instance

def fixes (records : List AdvisoryRecord) : List String :=
  (resolvedRecords records).map fun r => text r.fixedVersion

end Sides

section Fixes

variable (lib : VersionText) (installed : String) (a : Evr)

def Unreadable (f : String) : Prop := parseEvr lib f .deb = .error .versionParse

/-- A fixed version whose epoch `int` refuses. -/
def Refused (f : String) : Prop := parseEvr lib f .deb = .error .value

/-- The installed version is no version any more without its release, and the fix names none. -/
def Undroppable (f : String) : Prop :=
  ∃ b e, parseEvr lib f .deb = .ok b ∧
    parseEvr lib (comparedWith installed a b) .deb = .error e

def Above (f : String) : Prop :=
  ∃ b, parseEvr lib f .deb = .ok b ∧ compareDpkgEvr a b = .lt

/-- A fix above the installed version with its release dropped where the fix names none. -/
def AboveDropped (f : String) : Prop :=
  ∃ b c, parseEvr lib f .deb = .ok b ∧
    parseEvr lib (comparedWith installed a b) .deb = .ok c ∧ compareDpkgEvr c b = .lt

/-- Where both sides read the same out of the statements on one CVE. -/
def Comparable (records : List AdvisoryRecord) : Prop :=
  if ∃ r ∈ records, r.state = .open_ then
    ¬ ∃ f ∈ fixes records, Refused lib f ∨ Undroppable lib installed a f
  else
    match fixes records with
    | [] => True
    | first :: rest =>
      (∃ f ∈ first :: rest, Refused lib f) ∨
        (Unreadable lib first ∧
          ((∃ f ∈ first :: rest, Undroppable lib installed a f) ∨
            ¬ ∃ f ∈ first :: rest, AboveDropped lib installed a f)) ∨
        (¬ Unreadable lib first ∧ (¬ ∃ f ∈ first :: rest, Undroppable lib installed a f) ∧
          ((¬ ∃ f ∈ first :: rest, Unreadable lib f) →
            ((∃ f ∈ first :: rest, Above lib a f) ↔
              ∃ f ∈ first :: rest, AboveDropped lib installed a f)) ∧
          ((∃ f ∈ first :: rest, Unreadable lib f) →
            (∃ f ∈ first :: rest, Above lib a f) ∧
              ∃ f ∈ first :: rest, AboveDropped lib installed a f))

variable {lib installed a} {f : String}

theorem above_iff_aboveDropped {b : Evr} (ha : parseEvr lib installed .deb = .ok a)
    (hf : parseEvr lib f .deb = .ok b) (hrelease : b.release ≠ "") :
    ¬ Undroppable lib installed a f ∧ (Above lib a f ↔ AboveDropped lib installed a f) := by
  have hsame : comparedWith installed a b = installed := by
    unfold comparedWith
    rw [if_neg (fun h => hrelease h.1)]
  refine ⟨?_, ?_, ?_⟩
  · rintro ⟨b', e, hb', hdrop⟩
    rw [hf] at hb'
    rw [← Except.ok.inj hb', hsame, ha] at hdrop
    cases hdrop
  · rintro ⟨b', hb', hlt⟩
    rw [hf] at hb'
    rw [← Except.ok.inj hb'] at hlt
    exact ⟨b, a, hf, by rw [hsame, ha], hlt⟩
  · rintro ⟨b', c, hb', hc, hlt⟩
    rw [hf] at hb'
    rw [← Except.ok.inj hb', hsame, ha] at hc
    rw [← Except.ok.inj hb', ← Except.ok.inj hc] at hlt
    exact ⟨b, hf, hlt⟩

theorem comparable_of_readable {records : List AdvisoryRecord}
    (ha : parseEvr lib installed .deb = .ok a)
    (hall : ∀ f ∈ fixes records, ∃ b, parseEvr lib f .deb = .ok b ∧ b.release ≠ "") :
    Comparable lib installed a records := by
  have hrefused : ∀ f ∈ fixes records, ¬ Refused lib f := by
    intro f hf hrefused
    obtain ⟨b, hb, _⟩ := hall f hf
    rw [Refused, hb] at hrefused
    cases hrefused
  have hreadable : ∀ f ∈ fixes records, ¬ Unreadable lib f := by
    intro f hf hunreadable
    obtain ⟨b, hb, _⟩ := hall f hf
    rw [Unreadable, hb] at hunreadable
    cases hunreadable
  have hdropped : ∀ f ∈ fixes records, ¬ Undroppable lib installed a f ∧
      (Above lib a f ↔ AboveDropped lib installed a f) := by
    intro f hf
    obtain ⟨b, hb, hrelease⟩ := hall f hf
    exact above_iff_aboveDropped ha hb hrelease
  unfold Comparable
  split_ifs with hopen
  · rintro ⟨f, hf, hraises | hraises⟩
    · exact hrefused f hf hraises
    · exact (hdropped f hf).1 hraises
  · cases hfixes : fixes records with
    | nil => trivial
    | cons first rest =>
      rw [hfixes] at hreadable hdropped
      refine .inr (.inr ⟨hreadable first (by simp), ?_, ?_, ?_⟩)
      · rintro ⟨f, hf, hraises⟩
        exact (hdropped f hf).1 hraises
      · intro _
        constructor
        · rintro ⟨f, hf, habove⟩
          exact ⟨f, hf, (hdropped f hf).2.mp habove⟩
        · rintro ⟨f, hf, habove⟩
          exact ⟨f, hf, (hdropped f hf).2.mpr habove⟩
      · rintro ⟨f, hf, hunreadable⟩
        exact absurd hunreadable (hreadable f hf)

theorem isFixed_deb {b c : Evr} {x : String} (hx : parseEvr lib x .deb = .ok c)
    (hf : parseEvr lib f .deb = .ok b) :
    isFixed lib x f .deb = .ok (compareDpkgEvr c b).isGE := by
  unfold isFixed compareVersion compareDpkgVersion
  simp only [hx, hf]

theorem compareStatus_refused (ha : parseEvr lib installed .deb = .ok a) (h : Refused lib f) :
    compareStatus lib installed f .deb = .error .value := by
  unfold Refused at h
  unfold compareStatus
  simp only [ha, h]

theorem compareStatus_unreadable (ha : parseEvr lib installed .deb = .ok a)
    (h : Unreadable lib f) :
    compareStatus lib installed f .deb = .ok (.unknown, some .unparsableVersion) := by
  unfold Unreadable at h
  unfold compareStatus
  simp only [ha, h]

theorem compareStatus_undroppable (ha : parseEvr lib installed .deb = .ok a)
    (h : Undroppable lib installed a f) :
    ∃ e, compareStatus lib installed f .deb = .error e := by
  obtain ⟨b, e, hf, hdropped⟩ := h
  have hraises : isFixed lib (comparedWith installed a b) f .deb = .error e := by
    unfold isFixed compareVersion compareDpkgVersion
    simp only [hdropped]
  refine ⟨e, ?_⟩
  unfold compareStatus
  simp only [ha, hf, hraises]

theorem compareStatus_readable {b c : Evr} (ha : parseEvr lib installed .deb = .ok a)
    (hf : parseEvr lib f .deb = .ok b)
    (hc : parseEvr lib (comparedWith installed a b) .deb = .ok c) :
    compareStatus lib installed f .deb =
      .ok (if compareDpkgEvr c b = .lt then .vulnerable else .fixed, none) := by
  unfold compareStatus
  simp only [ha, hf, isFixed_deb hc hf]
  cases compareDpkgEvr c b with
  | lt => rfl
  | eq => rfl
  | gt => rfl

theorem compareStatus_cases (ha : parseEvr lib installed .deb = .ok a) (f : String) :
    ((Refused lib f ∨ Undroppable lib installed a f) ∧
        ∃ e, compareStatus lib installed f .deb = .error e) ∨
      (Unreadable lib f ∧ ¬ AboveDropped lib installed a f ∧
        ∃ reason, compareStatus lib installed f .deb = .ok (.unknown, reason)) ∨
      (¬ Unreadable lib f ∧ AboveDropped lib installed a f ∧
        ∃ reason, compareStatus lib installed f .deb = .ok (.vulnerable, reason)) ∨
      (¬ Unreadable lib f ∧ ¬ AboveDropped lib installed a f ∧
        ∃ reason, compareStatus lib installed f .deb = .ok (.fixed, reason)) := by
  cases hf : parseEvr lib f .deb with
  | error e =>
    cases e with
    | value => exact .inl ⟨.inl hf, _, compareStatus_refused ha hf⟩
    | versionParse =>
      refine .inr (.inl ⟨hf, ?_, _, compareStatus_unreadable ha hf⟩)
      rintro ⟨b, c, hb, _⟩
      rw [hf] at hb
      cases hb
  | ok b =>
    have hread : ¬ Unreadable lib f := by
      unfold Unreadable
      rw [hf]
      simp
    cases hc : parseEvr lib (comparedWith installed a b) .deb with
    | error e =>
      have hdrop : Undroppable lib installed a f := ⟨b, e, hf, hc⟩
      exact .inl ⟨.inr hdrop, compareStatus_undroppable ha hdrop⟩
    | ok c =>
      have hstatus := compareStatus_readable ha hf hc
      by_cases hlt : compareDpkgEvr c b = .lt
      · rw [if_pos hlt] at hstatus
        exact .inr (.inr (.inl ⟨hread, ⟨b, c, hf, hc, hlt⟩, _, hstatus⟩))
      · rw [if_neg hlt] at hstatus
        refine .inr (.inr (.inr ⟨hread, ?_, _, hstatus⟩))
        rintro ⟨b', c', hb', hc', hlt'⟩
        rw [hf] at hb'
        rw [← Except.ok.inj hb', hc] at hc'
        rw [← Except.ok.inj hb', ← Except.ok.inj hc'] at hlt'
        exact hlt hlt'

end Fixes

section Endpoint

variable {lib : RetroText} {identity : PackageIdentity} {p : Provider} {cve : String}
    {records : List AdvisoryRecord} {installed : String}

variable (p) in
theorem evaluateRecords_raises (name : String)
    (h : ∃ r ∈ records, ∃ e, recordStatus lib.toVersionText (text identity.version)
      (identity.flavor.getD .deb) r = .error e) :
    ∃ e, evaluateRecords lib.toVersionText identity p name records = .error e := by
  induction records with
  | nil =>
    obtain ⟨r, hr, _⟩ := h
    cases hr
  | cons r rs ih =>
    unfold evaluateRecords
    cases hhead : recordStatus lib.toVersionText (text identity.version)
        (identity.flavor.getD .deb) r with
    | error e => exact ⟨e, rfl⟩
    | ok v =>
      obtain ⟨s, hs, e, he⟩ := h
      have htail : s ∈ rs := by
        rcases List.mem_cons.mp hs with rfl | htail
        · rw [hhead] at he
          cases he
        · exact htail
      obtain ⟨e', he'⟩ := ih ⟨s, htail, e, he⟩
      simp only [he']
      exact ⟨e', rfl⟩

theorem mem_evaluateRecords {name : String} {cs : List MatchCandidate}
    (h : evaluateRecords lib.toVersionText identity p name records = .ok cs)
    (c : MatchCandidate) :
    c ∈ cs ↔ ∃ r ∈ records, ∃ status reason, ∃ id ∈ r.cveIds,
      recordStatus lib.toVersionText (text identity.version) (identity.flavor.getD .deb) r =
        .ok (status, reason) ∧
      c = candidateOf identity p name r status reason id := by
  induction records generalizing cs with
  | nil =>
    cases h
    simp
  | cons r rs ih =>
    unfold evaluateRecords at h
    cases hhead : recordStatus lib.toVersionText (text identity.version)
        (identity.flavor.getD .deb) r with
    | error e =>
      rw [hhead] at h
      cases h
    | ok v =>
      rw [hhead] at h
      simp only at h
      split at h
      case h_1 => cases h
      case h_2 rest hrest =>
        rw [← Except.ok.inj h, List.mem_append, ih hrest, List.mem_map]
        constructor
        · rintro (⟨id, hid, rfl⟩ | ⟨s, hs, hrow⟩)
          · exact ⟨r, by simp, v.1, v.2, id, hid, hhead, rfl⟩
          · exact ⟨s, List.mem_cons_of_mem _ hs, hrow⟩
        · rintro ⟨s, hs, status, reason, id, hid, hstatus, rfl⟩
          rcases List.mem_cons.mp hs with rfl | htail
          · rw [hhead] at hstatus
            rw [Except.ok.inj hstatus]
            exact .inl ⟨id, hid, rfl⟩
          · exact .inr ⟨s, htail, status, reason, id, hid, hstatus, rfl⟩

theorem evaluateRecords_total {name : String}
    (h : ∀ r ∈ records, ∃ v, recordStatus lib.toVersionText (text identity.version)
      (identity.flavor.getD .deb) r = .ok v) :
    ∃ cs, evaluateRecords lib.toVersionText identity p name records = .ok cs := by
  induction records with
  | nil => exact ⟨_, rfl⟩
  | cons r rs ih =>
    obtain ⟨v, hv⟩ := h r (by simp)
    obtain ⟨cs, hcs⟩ := ih fun s hs => h s (List.mem_cons_of_mem _ hs)
    unfold evaluateRecords
    simp only [hv, hcs]
    exact ⟨_, rfl⟩

/-- A matchable Debian package of an available provider. -/
structure Assessable (identity : PackageIdentity) (p : Provider) (installed : String) : Prop where
  matchable : identity.matchable = true
  available : p.available = true
  flavor : identity.flavor = some .deb
  version : identity.version = some installed

theorem Assessable.evaluate (h : Assessable identity p installed) :
    evaluatePackage lib.toVersionText identity (some p) (some records) =
      evaluateRecords lib.toVersionText identity p identity.name records := by
  unfold evaluatePackage recordsFor
  simp [h.matchable, h.available]

theorem Assessable.recordStatus (h : Assessable identity p installed) (r : AdvisoryRecord) :
    SoftwareCveMatch.recordStatus lib.toVersionText (text identity.version)
        (identity.flavor.getD .deb) r =
      SoftwareCveMatch.recordStatus lib.toVersionText installed .deb r := by
  rw [h.version, h.flavor]
  rfl

theorem endpointStatus_raises (h : Assessable identity p installed)
    (hraises : ∃ r ∈ records, ∃ e,
      recordStatus lib.toVersionText installed .deb r = .error e) :
    endpointStatus lib identity p records cve = none := by
  obtain ⟨r, hr, e, he⟩ := hraises
  rw [← h.recordStatus r] at he
  obtain ⟨e', he'⟩ := evaluateRecords_raises p identity.name ⟨r, hr, e, he⟩
  unfold endpointStatus
  rw [h.evaluate, he']

theorem endpointStatus_eq (h : Assessable identity p installed) {s : MatchStatus}
    (hcve : ∀ r ∈ records, cve ∈ r.cveIds)
    (hall : ∀ r ∈ records, ∃ v, recordStatus lib.toVersionText installed .deb r = .ok v)
    (hattained : ∃ r ∈ records, ∃ reason,
      recordStatus lib.toVersionText installed .deb r = .ok (s, reason))
    (hmax : ∀ r ∈ records, ∀ status reason,
      recordStatus lib.toVersionText installed .deb r = .ok (status, reason) →
        status.rank ≤ s.rank) :
    endpointStatus lib identity p records cve = some s := by
  obtain ⟨cs, hcs⟩ :
      ∃ cs, evaluateRecords lib.toVersionText identity p identity.name records = .ok cs :=
    evaluateRecords_total fun r hr => by
      rw [h.recordStatus r]
      exact hall r hr
  have hmem := mem_evaluateRecords hcs
  obtain ⟨r, hr, reason, hstatus⟩ := hattained
  have hrow : candidateOf identity p identity.name r s reason cve ∈
      cs.filter fun c => decide (c.cveId = cve) := by
    refine List.mem_filter.mpr ⟨?_, by simp [candidateOf]⟩
    exact (hmem _).mpr ⟨r, hr, s, reason, cve, hcve r hr, by rw [h.recordStatus r, hstatus], rfl⟩
  obtain ⟨w, hw⟩ := exists_worstOf worse _ (List.ne_nil_of_mem hrow)
  have hge : s.rank ≤ w.status.rank := le_worstOf worse_keepsWorst hw _ hrow
  obtain ⟨r', hr', status, reason', id, _, hstatus', rfl⟩ :=
    (hmem w).mp (List.mem_filter.mp (worstOf_mem worse_keepsWorst hw)).1
  have hle : status.rank ≤ s.rank :=
    hmax r' hr' status reason' (by rw [← h.recordStatus r', hstatus'])
  have heq : status = s := by
    have hrank : status.rank = s.rank := le_antisymm hle hge
    revert hrank
    cases status <;> cases s <;> decide
  unfold endpointStatus
  rw [h.evaluate, hcs]
  simp only [hw, Option.map_some]
  rw [← heq]
  rfl

end Endpoint

section Statuses

variable {lib : RetroText} {records : List AdvisoryRecord} {installed : String} {a : Evr}

theorem mem_fixes {f : String} :
    f ∈ fixes records ↔
      ∃ r ∈ records, r.state = .resolved ∧ text r.fixedVersion ≠ "" ∧ text r.fixedVersion = f := by
  unfold fixes resolvedRecords
  rw [List.mem_map]
  constructor
  · rintro ⟨r, hr, rfl⟩
    have hmem := List.mem_filter.mp hr
    exact ⟨r, hmem.1, by simpa using hmem.2⟩
  · rintro ⟨r, hr, hstate, hfixed, rfl⟩
    exact ⟨r, List.mem_filter.mpr ⟨hr, by simp [hstate, hfixed]⟩, rfl⟩

theorem recordStatus_open {r : AdvisoryRecord} (h : r.state = .open_) :
    recordStatus lib.toVersionText installed .deb r = .ok (.vulnerable, none) := by
  simp [recordStatus, h]

theorem recordStatus_notAffected {r : AdvisoryRecord} (h : r.state = .notAffected) :
    recordStatus lib.toVersionText installed .deb r = .ok (.notApplicable, none) := by
  simp [recordStatus, h]

theorem recordStatus_resolved {r : AdvisoryRecord} (h : r.state = .resolved)
    (hfixed : text r.fixedVersion ≠ "") :
    recordStatus lib.toVersionText installed .deb r =
      compareStatus lib.toVersionText installed (text r.fixedVersion) .deb := by
  simp [recordStatus, h, hfixed]

theorem statement_cases {r : AdvisoryRecord} (hr : r ∈ records) (hcoherent : r.Coherent) :
    r.state = .open_ ∨ r.state = .notAffected ∨
      (r.state = .resolved ∧ text r.fixedVersion ≠ "" ∧ text r.fixedVersion ∈ fixes records) := by
  cases hstate : r.state with
  | open_ => exact .inl rfl
  | notAffected => exact .inr (.inl rfl)
  | resolved =>
    have hfixed := hcoherent.mp hstate
    exact .inr (.inr ⟨rfl, hfixed, mem_fixes.mpr ⟨r, hr, hstate, hfixed, rfl⟩⟩)

theorem exists_raising (ha : parseEvr lib.toVersionText installed .deb = .ok a) {f : String}
    (hf : f ∈ fixes records)
    (h : Refused lib.toVersionText f ∨ Undroppable lib.toVersionText installed a f) :
    ∃ r ∈ records, ∃ e, recordStatus lib.toVersionText installed .deb r = .error e := by
  obtain ⟨r, hr, hstate, hfixed, rfl⟩ := mem_fixes.mp hf
  refine ⟨r, hr, ?_⟩
  rw [recordStatus_resolved hstate hfixed]
  rcases h with hrefused | hdrop
  · exact ⟨_, compareStatus_refused ha hrefused⟩
  · exact compareStatus_undroppable ha hdrop

theorem statuses_total (ha : parseEvr lib.toVersionText installed .deb = .ok a)
    (hcoherent : ∀ r ∈ records, r.Coherent)
    (h : ¬ ∃ f ∈ fixes records,
      Refused lib.toVersionText f ∨ Undroppable lib.toVersionText installed a f) :
    ∀ r ∈ records, ∃ v, recordStatus lib.toVersionText installed .deb r = .ok v := by
  intro r hr
  rcases statement_cases hr (hcoherent r hr) with hopen | hnot | ⟨hstate, hfixed, hmem⟩
  · exact ⟨_, recordStatus_open hopen⟩
  · exact ⟨_, recordStatus_notAffected hnot⟩
  · rw [recordStatus_resolved hstate hfixed]
    rcases compareStatus_cases ha (text r.fixedVersion) with
      ⟨hraises, _⟩ | ⟨_, _, reason, hstatus⟩ | ⟨_, _, reason, hstatus⟩ | ⟨_, _, reason, hstatus⟩
    · exact absurd ⟨_, hmem, hraises⟩ h
    · exact ⟨_, hstatus⟩
    · exact ⟨_, hstatus⟩
    · exact ⟨_, hstatus⟩

variable {identity : PackageIdentity} {p : Provider} {cve : String}

theorem endpoint_open (h : Assessable identity p installed)
    (ha : parseEvr lib.toVersionText installed .deb = .ok a)
    (hcoherent : ∀ r ∈ records, r.Coherent) (hcve : ∀ r ∈ records, cve ∈ r.cveIds)
    (hopen : ∃ r ∈ records, r.state = .open_)
    (hquiet : ¬ ∃ f ∈ fixes records,
      Refused lib.toVersionText f ∨ Undroppable lib.toVersionText installed a f) :
    endpointStatus lib identity p records cve = some .vulnerable := by
  obtain ⟨r, hr, hstate⟩ := hopen
  refine endpointStatus_eq h hcve (statuses_total ha hcoherent hquiet)
    ⟨r, hr, none, recordStatus_open hstate⟩ ?_
  intro s _ status _ _
  cases status <;> decide

theorem endpoint_notAffected (h : Assessable identity p installed)
    (hcve : ∀ r ∈ records, cve ∈ r.cveIds) (hne : records ≠ [])
    (hall : ∀ r ∈ records, r.state = .notAffected) :
    endpointStatus lib identity p records cve = some .notApplicable := by
  obtain ⟨r, hr⟩ := List.exists_mem_of_ne_nil _ hne
  have hstatus : ∀ r ∈ records,
      recordStatus lib.toVersionText installed .deb r = .ok (.notApplicable, none) :=
    fun r hr => recordStatus_notAffected (hall r hr)
  refine endpointStatus_eq h hcve (fun r hr => ⟨_, hstatus r hr⟩) ⟨r, hr, none, hstatus r hr⟩ ?_
  intro s hs status reason hstatus'
  rw [hstatus s hs] at hstatus'
  rw [← (Prod.mk.inj (Except.ok.inj hstatus')).1]

theorem endpoint_resolved (h : Assessable identity p installed)
    (ha : parseEvr lib.toVersionText installed .deb = .ok a)
    (hcoherent : ∀ r ∈ records, r.Coherent) (hcve : ∀ r ∈ records, cve ∈ r.cveIds)
    (hclosed : ¬ ∃ r ∈ records, r.state = .open_) (hfixes : fixes records ≠ [])
    (hquiet : ¬ ∃ f ∈ fixes records,
      Refused lib.toVersionText f ∨ Undroppable lib.toVersionText installed a f) :
    ((∃ f ∈ fixes records, AboveDropped lib.toVersionText installed a f) →
        endpointStatus lib identity p records cve = some .vulnerable) ∧
      ((¬ ∃ f ∈ fixes records, AboveDropped lib.toVersionText installed a f) →
        (∃ f ∈ fixes records, Unreadable lib.toVersionText f) →
          endpointStatus lib identity p records cve = some .unknown) ∧
      ((¬ ∃ f ∈ fixes records, AboveDropped lib.toVersionText installed a f) →
        (¬ ∃ f ∈ fixes records, Unreadable lib.toVersionText f) →
          endpointStatus lib identity p records cve = some .fixed) := by
  have htotal := statuses_total ha hcoherent hquiet
  -- what one statement's status says of its fix
  have hread : ∀ r ∈ records, ∀ status reason,
      recordStatus lib.toVersionText installed .deb r = .ok (status, reason) →
        status = .notApplicable ∨
        (status = .unknown ∧ Unreadable lib.toVersionText (text r.fixedVersion) ∧
          text r.fixedVersion ∈ fixes records) ∨
        (status = .vulnerable ∧ AboveDropped lib.toVersionText installed a (text r.fixedVersion) ∧
          text r.fixedVersion ∈ fixes records) ∨
        status = .fixed := by
    intro r hr status reason hstatus
    rcases statement_cases hr (hcoherent r hr) with hopen | hnot | ⟨hstate, hfixed, hmem⟩
    · exact absurd ⟨r, hr, hopen⟩ hclosed
    · rw [recordStatus_notAffected hnot] at hstatus
      exact .inl (Prod.mk.inj (Except.ok.inj hstatus)).1.symm
    · rw [recordStatus_resolved hstate hfixed] at hstatus
      rcases compareStatus_cases ha (text r.fixedVersion) with
        ⟨hraises, _⟩ | ⟨hun, _, _, heq⟩ | ⟨_, habove, _, heq⟩ | ⟨_, _, _, heq⟩
      · exact absurd ⟨_, hmem, hraises⟩ hquiet
      · rw [heq] at hstatus
        exact .inr (.inl ⟨(Prod.mk.inj (Except.ok.inj hstatus)).1.symm, hun, hmem⟩)
      · rw [heq] at hstatus
        exact .inr (.inr (.inl ⟨(Prod.mk.inj (Except.ok.inj hstatus)).1.symm, habove, hmem⟩))
      · rw [heq] at hstatus
        exact .inr (.inr (.inr (Prod.mk.inj (Except.ok.inj hstatus)).1.symm))
  -- what one fix gives the statement that names it
  have hgives : ∀ f ∈ fixes records, ∃ r ∈ records, text r.fixedVersion = f ∧
      recordStatus lib.toVersionText installed .deb r =
        compareStatus lib.toVersionText installed f .deb := by
    intro f hf
    obtain ⟨r, hr, hstate, hfixed, rfl⟩ := mem_fixes.mp hf
    exact ⟨r, hr, rfl, recordStatus_resolved hstate hfixed⟩
  refine ⟨?_, ?_, ?_⟩
  · rintro ⟨f, hf, habove⟩
    obtain ⟨r, hr, rfl, hstatus⟩ := hgives f hf
    rcases compareStatus_cases ha (text r.fixedVersion) with
      ⟨hraises, _⟩ | ⟨_, hnot, _⟩ | ⟨_, _, reason, heq⟩ | ⟨_, hnot, _⟩
    · exact absurd ⟨_, hf, hraises⟩ hquiet
    · exact absurd habove hnot
    · refine endpointStatus_eq h hcve htotal ⟨r, hr, reason, hstatus.trans heq⟩ ?_
      intro s _ status _ _
      cases status <;> decide
    · exact absurd habove hnot
  · rintro hnone ⟨f, hf, hun⟩
    obtain ⟨r, hr, rfl, hstatus⟩ := hgives f hf
    refine endpointStatus_eq h hcve htotal
      ⟨r, hr, _, hstatus.trans (compareStatus_unreadable ha hun)⟩ ?_
    intro s hs status reason hstatus'
    rcases hread s hs status reason hstatus' with rfl | ⟨rfl, _⟩ | ⟨_, habove, hmem⟩ | rfl
    · decide
    · decide
    · exact absurd ⟨_, hmem, habove⟩ hnone
    · decide
  · intro hnone hreadable
    obtain ⟨f, hf⟩ := List.exists_mem_of_ne_nil _ hfixes
    obtain ⟨r, hr, rfl, hstatus⟩ := hgives f hf
    rcases compareStatus_cases ha (text r.fixedVersion) with
      ⟨hraises, _⟩ | ⟨hun, _⟩ | ⟨_, habove, _⟩ | ⟨_, _, reason, heq⟩
    · exact absurd ⟨_, hf, hraises⟩ hquiet
    · exact absurd ⟨_, hf, hun⟩ hreadable
    · exact absurd ⟨_, hf, habove⟩ hnone
    · refine endpointStatus_eq h hcve htotal ⟨r, hr, reason, hstatus.trans heq⟩ ?_
      intro s hs status reason' hstatus'
      rcases hread s hs status reason' hstatus' with
        rfl | ⟨_, hun, hmem⟩ | ⟨_, habove, hmem⟩ | rfl
      · decide
      · exact absurd ⟨_, hmem, hun⟩ hreadable
      · exact absurd ⟨_, hmem, habove⟩ hnone
      · decide

end Statuses

section Judge

variable {lib : RetroText} {record : AdvisoryRecord} {rest : List AdvisoryRecord}

theorem latestFix_unreadable (h : Unreadable lib.toVersionText (text record.fixedVersion))
    (hrest : ∀ o ∈ rest, ¬ Refused lib.toVersionText (text o.fixedVersion)) :
    latestFix lib record rest = .ok record := by
  induction rest with
  | nil => rfl
  | cons o rest ih =>
    have hcompare : compareDpkgVersion lib.toVersionText (text o.fixedVersion)
        (text record.fixedVersion) = .error .versionParse := by
      unfold compareDpkgVersion
      unfold Unreadable at h
      cases ho : parseEvr lib.toVersionText (text o.fixedVersion) .deb with
      | ok b => simp only [h]
      | error e =>
        cases e with
        | versionParse => rfl
        | value => exact absurd ho (hrest o (by simp))
    unfold latestFix
    rw [hcompare]
    exact ih fun s hs => hrest s (List.mem_cons_of_mem _ hs)

theorem latestFix_readable {b : Evr}
    (hb : parseEvr lib.toVersionText (text record.fixedVersion) .deb = .ok b)
    (hrest : ∀ o ∈ rest, ¬ Refused lib.toVersionText (text o.fixedVersion)) :
    ∃ j bj, latestFix lib record rest = .ok j ∧ j ∈ record :: rest ∧
      parseEvr lib.toVersionText (text j.fixedVersion) .deb = .ok bj ∧
      (compareDpkgEvr b bj).isLE = true ∧
      ∀ o ∈ rest, ∀ bo, parseEvr lib.toVersionText (text o.fixedVersion) .deb = .ok bo →
        (compareDpkgEvr bo bj).isLE = true := by
  induction rest generalizing record b with
  | nil =>
    refine ⟨record, b, rfl, by simp, hb, ?_, by simp⟩
    have hself : compareDpkgEvr b b = .eq := Std.ReflCmp.compare_self
    rw [hself]
    rfl
  | cons o rest ih =>
    have hrest' : ∀ s ∈ rest, ¬ Refused lib.toVersionText (text s.fixedVersion) :=
      fun s hs => hrest s (List.mem_cons_of_mem _ hs)
    cases ho : parseEvr lib.toVersionText (text o.fixedVersion) .deb with
    | error e =>
      cases e with
      | value => exact absurd ho (hrest o (by simp))
      | versionParse =>
        obtain ⟨j, bj, hj, hmem, hbj, hle, hall⟩ := ih hb hrest'
        refine ⟨j, bj, ?_, ?_, hbj, hle, ?_⟩
        · unfold latestFix compareDpkgVersion
          simp only [ho]
          exact hj
        · rcases List.mem_cons.mp hmem with rfl | hmem
          · simp
          · simp [hmem]
        · intro s hs bs hbs
          rcases List.mem_cons.mp hs with rfl | hs
          · rw [ho] at hbs
            cases hbs
          · exact hall s hs bs hbs
    | ok bo =>
      have hcompare : compareDpkgVersion lib.toVersionText (text o.fixedVersion)
          (text record.fixedVersion) = .ok (compareDpkgEvr bo b) := by
        unfold compareDpkgVersion
        simp only [ho, hb]
      by_cases hgt : compareDpkgEvr bo b = .gt
      · obtain ⟨j, bj, hj, hmem, hbj, hle, hall⟩ := ih ho hrest'
        have hswap : (compareDpkgEvr b bo).isLE = true := by
          have hback : compareDpkgEvr b bo = (compareDpkgEvr bo b).swap := Std.OrientedCmp.eq_swap
          rw [hback, hgt]
          rfl
        refine ⟨j, bj, ?_, List.mem_cons_of_mem _ hmem, hbj,
          Std.TransCmp.isLE_trans hswap hle, ?_⟩
        · unfold latestFix
          rw [hcompare]
          simp only [if_pos hgt]
          exact hj
        · intro s hs bs hbs
          rcases List.mem_cons.mp hs with rfl | hs
          · rw [ho] at hbs
            rw [← Except.ok.inj hbs]
            exact hle
          · exact hall s hs bs hbs
      · obtain ⟨j, bj, hj, hmem, hbj, hle, hall⟩ := ih hb hrest'
        have hbo : (compareDpkgEvr bo b).isLE = true := by
          cases hcmp : compareDpkgEvr bo b with
          | gt => exact absurd hcmp hgt
          | lt => rfl
          | eq => rfl
        refine ⟨j, bj, ?_, ?_, hbj, hle, ?_⟩
        · unfold latestFix
          rw [hcompare]
          simp only [if_neg hgt]
          exact hj
        · rcases List.mem_cons.mp hmem with rfl | hmem
          · simp
          · simp [hmem]
        · intro s hs bs hbs
          rcases List.mem_cons.mp hs with rfl | hs
          · rw [ho] at hbs
            rw [← Except.ok.inj hbs]
            exact Std.TransCmp.isLE_trans hbo hle
          · exact hall s hs bs hbs

theorem latestFix_refused {j : AdvisoryRecord} (h : latestFix lib record rest = .ok j) :
    (∀ o ∈ rest, ¬ Refused lib.toVersionText (text o.fixedVersion)) ∧
      (Refused lib.toVersionText (text record.fixedVersion) → j = record) := by
  induction rest generalizing record with
  | nil =>
    cases h
    exact ⟨by simp, fun _ => rfl⟩
  | cons o rest ih =>
    unfold latestFix at h
    split at h
    case h_1 => cases h
    case h_2 hcompare =>
      obtain ⟨hrest, hfirst⟩ := ih h
      refine ⟨?_, hfirst⟩
      intro s hs hrefused
      rcases List.mem_cons.mp hs with rfl | hs
      · unfold compareDpkgVersion at hcompare
        unfold Refused at hrefused
        simp only [hrefused] at hcompare
        cases hcompare
      · exact hrest s hs hrefused
    case h_3 order hcompare =>
      have hparsed : (∃ bo, parseEvr lib.toVersionText (text o.fixedVersion) .deb = .ok bo) ∧
          ∃ b, parseEvr lib.toVersionText (text record.fixedVersion) .deb = .ok b := by
        unfold compareDpkgVersion at hcompare
        split at hcompare
        case h_1 => cases hcompare
        case h_2 bo hbo =>
          split at hcompare
          case h_1 => cases hcompare
          case h_2 b hb => exact ⟨⟨bo, hbo⟩, b, hb⟩
      obtain ⟨⟨bo, hbo⟩, b, hb⟩ := hparsed
      obtain ⟨hrest, _⟩ := ih h
      refine ⟨?_, ?_⟩
      · intro s hs hrefused
        rcases List.mem_cons.mp hs with rfl | hs
        · unfold Refused at hrefused
          rw [hbo] at hrefused
          cases hrefused
        · exact hrest s hs hrefused
      · intro hrefused
        unfold Refused at hrefused
        rw [hb] at hrefused
        cases hrefused

variable {records : List AdvisoryRecord} {upstream revision installed : String} {a : Evr}

theorem judgeRelease_open (hopen : ∃ r ∈ records, r.state = .open_) :
    verdictOf (judgeRelease lib records upstream (some revision)) = some .unfixed := by
  obtain ⟨r, hr, hstate⟩ := hopen
  have hfound : (records.find? fun r => decide (r.state = .open_)).isSome = true :=
    List.find?_isSome.mpr ⟨r, hr, by simp [hstate]⟩
  obtain ⟨s, hs⟩ := Option.isSome_iff_exists.mp hfound
  cases records with
  | nil => cases hr
  | cons first rest =>
    unfold judgeRelease
    simp only [hs]
    rfl

theorem judgeRelease_notAffected (hne : records ≠ [])
    (hclosed : ¬ ∃ r ∈ records, r.state = .open_) (hfixes : fixes records = []) :
    verdictOf (judgeRelease lib records upstream (some revision)) = some .notAffected := by
  have hresolved : resolvedRecords records = [] := List.map_eq_nil_iff.mp hfixes
  have hfind : records.find? (fun r => decide (r.state = .open_)) = none := by
    refine List.find?_eq_none.mpr ?_
    intro r hr hopen
    exact hclosed ⟨r, hr, of_decide_eq_true hopen⟩
  cases records with
  | nil => exact absurd rfl hne
  | cons first rest =>
    unfold judgeRelease
    simp only [hfind, hresolved]
    rfl

theorem judgeRelease_resolved (hrevision : revision ≠ "")
    (hclosed : ¬ ∃ r ∈ records, r.state = .open_)
    (hresolved : resolvedRecords records = record :: rest) :
    judgeRelease lib records upstream (some revision) =
      (latestFix lib record rest).bind fun j => judgeRevision lib j upstream revision := by
  have hfind : records.find? (fun r => decide (r.state = .open_)) = none := by
    refine List.find?_eq_none.mpr ?_
    intro r hr hopen
    exact hclosed ⟨r, hr, of_decide_eq_true hopen⟩
  have htext : text (some revision) = revision := rfl
  cases records with
  | nil => cases hresolved
  | cons first others =>
    unfold judgeRelease
    simp only [hfind, hresolved, htext, if_neg hrevision]
    cases latestFix lib record rest with
    | error e => rfl
    | ok j => rfl

def Silent (verdict : Option Verdict) : Prop := verdict = none ∨ verdict = some .possible

theorem judgeRevision_refused (h : Refused lib.toVersionText (text record.fixedVersion)) :
    verdictOf (judgeRevision lib record upstream revision) = none := by
  unfold Refused at h
  unfold judgeRevision installedEvr
  simp only [h]
  rfl

theorem judgeRevision_unreadable (h : Unreadable lib.toVersionText (text record.fixedVersion)) :
    Silent (verdictOf (judgeRevision lib record upstream revision)) := by
  unfold Unreadable at h
  unfold judgeRevision installedEvr isFixed compareVersion compareDpkgVersion
  simp only [h]
  cases parseEvr lib.toVersionText (upstream ++ "-" ++ revision) .deb with
  | ok b => exact .inr rfl
  | error e =>
    cases e with
    | versionParse => exact .inr rfl
    | value => exact .inl rfl

theorem judgeRevision_readable {b : Evr} (ha : parseEvr lib.toVersionText installed .deb = .ok a)
    (hb : parseEvr lib.toVersionText (text record.fixedVersion) .deb = .ok b)
    (hinstalled : installedEvr lib upstream revision (text record.fixedVersion) = .ok installed) :
    verdictOf (judgeRevision lib record upstream revision) =
      some (if compareDpkgEvr a b = .lt then .vulnerable else .fixed) := by
  unfold judgeRevision
  simp only [hinstalled, isFixed_deb ha hb]
  cases compareDpkgEvr a b with
  | lt => rfl
  | eq => rfl
  | gt => rfl

/-- The installed version is the one the banner rebuilds with the epoch of the latest fix. -/
def CarriesEpoch (lib : RetroText) (records : List AdvisoryRecord)
    (upstream revision installed : String) : Prop :=
  ∀ record rest fix b, resolvedRecords records = record :: rest →
    latestFix lib record rest = .ok fix →
    parseEvr lib.toVersionText (text fix.fixedVersion) .deb = .ok b →
    installedEvr lib upstream revision (text fix.fixedVersion) = .ok installed

section Closed

variable (hresolved : resolvedRecords records = record :: rest)

include hresolved

theorem rest_not_refused (h : ¬ ∃ f ∈ fixes records, Refused lib.toVersionText f) :
    ∀ o ∈ rest, ¬ Refused lib.toVersionText (text o.fixedVersion) := by
  intro o ho hrefused
  refine h ⟨_, ?_, hrefused⟩
  unfold fixes
  rw [hresolved]
  exact List.mem_map_of_mem (List.mem_cons_of_mem _ ho)

variable (hrevision : revision ≠ "") (hclosed : ¬ ∃ r ∈ records, r.state = .open_)

include hrevision hclosed

theorem judge_refused (h : ∃ f ∈ fixes records, Refused lib.toVersionText f) :
    verdictOf (judgeRelease lib records upstream (some revision)) = none := by
  rw [judgeRelease_resolved hrevision hclosed hresolved]
  cases hlatest : latestFix lib record rest with
  | error e => rfl
  | ok j =>
    obtain ⟨hrest, hfirst⟩ := latestFix_refused hlatest
    obtain ⟨f, hf, hrefused⟩ := h
    unfold fixes at hf
    rw [hresolved, List.map_cons] at hf
    rcases List.mem_cons.mp hf with rfl | hf
    · rw [hfirst hrefused]
      exact judgeRevision_refused hrefused
    · obtain ⟨o, ho, rfl⟩ := List.mem_map.mp hf
      exact absurd hrefused (hrest o ho)

theorem judge_unreadable (h : ¬ ∃ f ∈ fixes records, Refused lib.toVersionText f)
    (hfirst : Unreadable lib.toVersionText (text record.fixedVersion)) :
    Silent (verdictOf (judgeRelease lib records upstream (some revision))) := by
  have hrest := rest_not_refused hresolved h
  rw [judgeRelease_resolved hrevision hclosed hresolved, latestFix_unreadable hfirst hrest]
  exact judgeRevision_unreadable hfirst

theorem judge_readable (ha : parseEvr lib.toVersionText installed .deb = .ok a)
    (hepoch : CarriesEpoch lib records upstream revision installed)
    (h : ¬ ∃ f ∈ fixes records, Refused lib.toVersionText f)
    (hfirst : ¬ Unreadable lib.toVersionText (text record.fixedVersion)) :
    ((∃ f ∈ fixes records, Above lib.toVersionText a f) →
        verdictOf (judgeRelease lib records upstream (some revision)) = some .vulnerable) ∧
      ((¬ ∃ f ∈ fixes records, Above lib.toVersionText a f) →
        verdictOf (judgeRelease lib records upstream (some revision)) = some .fixed) := by
  have hrest := rest_not_refused hresolved h
  have hfixes : fixes records = (record :: rest).map fun r => text r.fixedVersion := by
    unfold fixes
    rw [hresolved]
  obtain ⟨b, hb⟩ : ∃ b, parseEvr lib.toVersionText (text record.fixedVersion) .deb = .ok b := by
    cases hparse : parseEvr lib.toVersionText (text record.fixedVersion) .deb with
    | ok b => exact ⟨b, rfl⟩
    | error e =>
      cases e with
      | versionParse => exact absurd hparse hfirst
      | value =>
        refine absurd ⟨text record.fixedVersion, ?_, hparse⟩ h
        rw [hfixes]
        simp
  obtain ⟨j, bj, hj, hmem, hbj, hle, hall⟩ := latestFix_readable hb hrest
  have hinstalled := hepoch record rest j bj hresolved hj hbj
  have hverdict : verdictOf (judgeRelease lib records upstream (some revision)) =
      some (if compareDpkgEvr a bj = .lt then .vulnerable else .fixed) := by
    rw [judgeRelease_resolved hrevision hclosed hresolved, hj]
    exact judgeRevision_readable ha hbj hinstalled
  have habove : (∃ f ∈ fixes records, Above lib.toVersionText a f) ↔
      compareDpkgEvr a bj = .lt := by
    rw [hfixes]
    constructor
    · rintro ⟨f, hf, bf, hbf, hlt⟩
      rw [List.map_cons] at hf
      have hjudged : (compareDpkgEvr bf bj).isLE = true := by
        rcases List.mem_cons.mp hf with rfl | hf
        · rw [hb] at hbf
          rw [← Except.ok.inj hbf]
          exact hle
        · obtain ⟨o, ho, rfl⟩ := List.mem_map.mp hf
          exact hall o ho bf hbf
      exact Std.TransCmp.lt_of_lt_of_isLE hlt hjudged
    · intro hlt
      exact ⟨_, List.mem_map_of_mem hmem, bj, hbj, hlt⟩
  rw [habove, hverdict]
  refine ⟨fun hlt => by rw [if_pos hlt], fun hlt => by rw [if_neg hlt]⟩

end Closed

end Judge

section Agreement

theorem agree_silent {v : Option Verdict} {s : Option MatchStatus} (h : Silent v) :
    Agree v s ↔ s = none ∨ s = some .unknown := by
  rcases h with rfl | rfl
  · rcases s with _ | status
    · decide
    · cases status <;> decide
  · rcases s with _ | status
    · decide
    · cases status <;> decide

variable {lib : RetroText} {identity : PackageIdentity} {p : Provider} {cve : String}
    {records : List AdvisoryRecord} {upstream revision installed : String} {a : Evr}

/-- An open statement is unfixed on one side, vulnerable on the other unless a fix raises there. -/
theorem agree_open (h : Assessable identity p installed)
    (ha : parseEvr lib.toVersionText installed .deb = .ok a)
    (hcoherent : ∀ r ∈ records, r.Coherent) (hcve : ∀ r ∈ records, cve ∈ r.cveIds)
    (hopen : ∃ r ∈ records, r.state = .open_) :
    Agree (verdictOf (judgeRelease lib records upstream (some revision)))
        (endpointStatus lib identity p records cve) ↔
      Comparable lib.toVersionText installed a records := by
  unfold Comparable
  rw [if_pos hopen, judgeRelease_open hopen]
  by_cases hquiet : ∃ f ∈ fixes records,
      Refused lib.toVersionText f ∨ Undroppable lib.toVersionText installed a f
  · obtain ⟨f, hf, hraises⟩ := hquiet
    rw [endpointStatus_raises h (exists_raising ha hf hraises)]
    refine iff_of_false (by decide) ?_
    exact fun hnot => hnot ⟨f, hf, hraises⟩
  · rw [endpoint_open h ha hcoherent hcve hopen hquiet]
    exact iff_of_true (by decide) hquiet

theorem agree_notAffected (h : Assessable identity p installed)
    (hcoherent : ∀ r ∈ records, r.Coherent) (hcve : ∀ r ∈ records, cve ∈ r.cveIds)
    (hclosed : ¬ ∃ r ∈ records, r.state = .open_) (hfixes : fixes records = []) :
    Agree (verdictOf (judgeRelease lib records upstream (some revision)))
      (endpointStatus lib identity p records cve) := by
  by_cases hne : records = []
  · subst hne
    have hendpoint : endpointStatus lib identity p [] cve = none := by
      unfold endpointStatus
      rw [h.evaluate]
      rfl
    rw [hendpoint]
    exact (agree_silent (.inr rfl)).mpr (.inl rfl)
  · rw [judgeRelease_notAffected hne hclosed hfixes]
    rw [endpoint_notAffected h hcve hne]
    · decide
    · intro r hr
      rcases statement_cases hr (hcoherent r hr) with hopen | hnot | ⟨_, _, hmem⟩
      · exact absurd ⟨r, hr, hopen⟩ hclosed
      · exact hnot
      · rw [hfixes] at hmem
        cases hmem

/-- Fixes are read alike where dropping the release and unreadable ones change nothing. -/
theorem agree_fixes {first : String} {others : List String} (h : Assessable identity p installed)
    (ha : parseEvr lib.toVersionText installed .deb = .ok a)
    (hcoherent : ∀ r ∈ records, r.Coherent) (hcve : ∀ r ∈ records, cve ∈ r.cveIds)
    (hrevision : revision ≠ "") (hepoch : CarriesEpoch lib records upstream revision installed)
    (hclosed : ¬ ∃ r ∈ records, r.state = .open_) (hfixes : fixes records = first :: others) :
    Agree (verdictOf (judgeRelease lib records upstream (some revision)))
        (endpointStatus lib identity p records cve) ↔
      Comparable lib.toVersionText installed a records := by
  obtain ⟨record, rest, hresolved, rfl, rfl⟩ := List.map_eq_cons_iff.mp hfixes
  have hne : fixes records ≠ [] := by simp [hfixes]
  unfold Comparable
  rw [if_neg hclosed]
  simp only [hfixes]
  rw [← hfixes]
  -- an epoch `int` refuses raises on both sides
  by_cases hrefused : ∃ f ∈ fixes records, Refused lib.toVersionText f
  · obtain ⟨f, hf, hraises⟩ := hrefused
    rw [judge_refused hresolved hrevision hclosed ⟨f, hf, hraises⟩,
      endpointStatus_raises h (exists_raising ha hf (.inl hraises))]
    exact iff_of_true (by decide) (.inl ⟨f, hf, hraises⟩)
  have hraising : (∃ f ∈ fixes records, Undroppable lib.toVersionText installed a f) →
      endpointStatus lib identity p records cve = none := by
    rintro ⟨f, hf, hdrop⟩
    exact endpointStatus_raises h (exists_raising ha hf (.inr hdrop))
  have hquiet : (¬ ∃ f ∈ fixes records, Undroppable lib.toVersionText installed a f) →
      ¬ ∃ f ∈ fixes records,
        Refused lib.toVersionText f ∨ Undroppable lib.toVersionText installed a f := by
    rintro hdrop ⟨f, hf, hraises | hraises⟩
    · exact hrefused ⟨f, hf, hraises⟩
    · exact hdrop ⟨f, hf, hraises⟩
  have hendpoint := fun hdrop =>
    endpoint_resolved h ha hcoherent hcve hclosed hne (hquiet hdrop)
  by_cases hfirst : Unreadable lib.toVersionText (text record.fixedVersion)
  · -- the network side is silent: so must the endpoint be
    have hsilent : Silent (verdictOf (judgeRelease lib records upstream (some revision))) :=
      judge_unreadable hresolved hrevision hclosed hrefused hfirst
    have hunreadable : ∃ f ∈ fixes records, Unreadable lib.toVersionText f :=
      ⟨text record.fixedVersion, by simp [hfixes], hfirst⟩
    rw [agree_silent hsilent]
    by_cases hdrop : ∃ f ∈ fixes records, Undroppable lib.toVersionText installed a f
    · exact iff_of_true (.inl (hraising hdrop)) (.inr (.inl ⟨hfirst, .inl hdrop⟩))
    · by_cases habove : ∃ f ∈ fixes records, AboveDropped lib.toVersionText installed a f
      · rw [(hendpoint hdrop).1 habove]
        simp [hfirst, hrefused, hdrop, habove]
      · rw [(hendpoint hdrop).2.1 habove hunreadable]
        exact iff_of_true (.inr rfl) (.inr (.inl ⟨hfirst, .inr habove⟩))
  · obtain ⟨hvulnerable, hfixed⟩ :=
      judge_readable hresolved hrevision hclosed ha hepoch hrefused hfirst
    by_cases hdrop : ∃ f ∈ fixes records, Undroppable lib.toVersionText installed a f
    · rw [hraising hdrop]
      by_cases habove : ∃ f ∈ fixes records, Above lib.toVersionText a f
      · rw [hvulnerable habove]
        exact iff_of_false (by decide) (by simp [hfirst, hrefused, hdrop])
      · rw [hfixed habove]
        exact iff_of_false (by decide) (by simp [hfirst, hrefused, hdrop])
    · obtain ⟨hdropped, hunknown, hcleared⟩ := hendpoint hdrop
      by_cases habove : ∃ f ∈ fixes records, Above lib.toVersionText a f
      · rw [hvulnerable habove]
        by_cases hboth : ∃ f ∈ fixes records, AboveDropped lib.toVersionText installed a f
        · rw [hdropped hboth]
          exact iff_of_true (by decide) (.inr (.inr ⟨hfirst, hdrop,
            fun _ => iff_of_true habove hboth, fun _ => ⟨habove, hboth⟩⟩))
        · by_cases hun : ∃ f ∈ fixes records, Unreadable lib.toVersionText f
          · rw [hunknown hboth hun]
            exact iff_of_false (by decide) (by simp [hfirst, hrefused, hun, hboth])
          · rw [hcleared hboth hun]
            exact iff_of_false (by decide) (by simp [hfirst, hrefused, hun, hboth, habove])
      · rw [hfixed habove]
        by_cases hboth : ∃ f ∈ fixes records, AboveDropped lib.toVersionText installed a f
        · rw [hdropped hboth]
          by_cases hun : ∃ f ∈ fixes records, Unreadable lib.toVersionText f
          · exact iff_of_false (by decide) (by simp [hfirst, hrefused, hun, habove])
          · exact iff_of_false (by decide) (by simp [hfirst, hrefused, hun, hboth, habove])
        · by_cases hun : ∃ f ∈ fixes records, Unreadable lib.toVersionText f
          · rw [hunknown hboth hun]
            exact iff_of_false (by decide) (by simp [hfirst, hrefused, hun, habove])
          · rw [hcleared hboth hun]
            exact iff_of_true (by decide) (.inr (.inr ⟨hfirst, hdrop,
              fun _ => iff_of_false habove hboth, fun hsome => absurd hsome hun⟩))

/-- The two sides agree on a known Debian build exactly where its statements are comparable. -/
theorem verdicts_agree_iff
    (hcoerced : ∀ r ∈ records, ∃ provider feedDate raw,
      coerceRecord lib.toText provider feedDate raw = some r)
    (hcve : ∀ r ∈ records, cve ∈ r.cveIds) (hrevision : revision ≠ "")
    (h : Assessable identity p installed)
    (ha : parseEvr lib.toVersionText installed .deb = .ok a)
    (hepoch : CarriesEpoch lib records upstream revision installed) :
    Agree (verdictOf (judgeRelease lib records upstream (some revision)))
        (endpointStatus lib identity p records cve) ↔
      Comparable lib.toVersionText installed a records := by
  have hcoherent : ∀ r ∈ records, r.Coherent := by
    intro r hr
    obtain ⟨provider, feedDate, raw, hraw⟩ := hcoerced r hr
    exact coerceRecord_coherent lib.toText hraw
  by_cases hopen : ∃ r ∈ records, r.state = .open_
  · exact agree_open h ha hcoherent hcve hopen
  · cases hfixes : fixes records with
    | nil =>
      refine iff_of_true (agree_notAffected h hcoherent hcve hopen hfixes) ?_
      unfold Comparable
      rw [if_neg hopen, hfixes]
      trivial
    | cons first others =>
      exact agree_fixes h ha hcoherent hcve hrevision hepoch hopen hfixes

end Agreement

section Hosts

def opensshEntry (fixedVersion : String) : RawEntry where
  release := some "jammy"
  sourcePackage := some "openssh"
  cveIds := some ["CVE-2024-6387"]
  state := some "resolved"
  fixedVersion := some fixedVersion
  advisoryId := some "USN-6859-1"
  severity := some "high"
  url := none

def opensshRecord (fixedVersion : String) : AdvisoryRecord where
  advisoryId := "USN-6859-1"
  cveIds := ["CVE-2024-6387"]
  release := "jammy"
  sourcePackage := "openssh"
  fixedVersion := some fixedVersion
  severity := "high"
  state := .resolved
  url := none
  provider := "ubuntu"
  feedDate := none
  rpm := none

def opensshFeed (records : List AdvisoryRecord) : Provider where
  name := "ubuntu"
  available := true
  feedDate := none
  releases := ["jammy"]
  advisoriesFor release name := if release = "jammy" ∧ name = "openssh" then records else []

def opensshVersion : Evr where
  epoch := 1
  version := "8.9p1"
  release := "3ubuntu0.4"
  flavor := .deb

def opensshPackage : PackageIdentity where
  name := "openssh"
  version := some "1:8.9p1-3ubuntu0.4"
  architecture := some "amd64"
  source := "dpkg"
  flavor := some .deb
  distro := some "ubuntu"
  distroRelease := some "jammy"
  sourcePackageCandidates := ["openssh"]
  matchable := true
  reason := none
  evr := some opensshVersion

theorem opensshPackage_assessable (records : List AdvisoryRecord) :
    Assessable opensshPackage (opensshFeed records) "1:8.9p1-3ubuntu0.4" :=
  ⟨rfl, rfl, rfl, rfl⟩

theorem opensshVersion_parsed :
    parseEvr asciiRetro.toVersionText "1:8.9p1-3ubuntu0.4" .deb = .ok opensshVersion := by
  decide +kernel

/-- The second statement's fix is a release without a version. -/
def brokenReissue : List AdvisoryRecord :=
  [opensshRecord "1:8.9p1-3ubuntu0.4", opensshRecord "-5"]

def reissued : List AdvisoryRecord :=
  ["1:8.9p1-3ubuntu0.4", "1:8.9p1-3ubuntu0.10", "1:8.9p1-3ubuntu0.3"].map opensshRecord

theorem reissued_verdicts_agree :
    (latestFix asciiRetro (opensshRecord "1:8.9p1-3ubuntu0.4") reissued.tail).toOption =
        some (opensshRecord "1:8.9p1-3ubuntu0.10") ∧
      Agree (verdictOf (judgeRelease asciiRetro reissued "8.9p1" (some "3ubuntu0.4")))
        (endpointStatus asciiRetro opensshPackage (opensshFeed reissued) reissued
          "CVE-2024-6387") ∧
      Comparable asciiRetro.toVersionText "1:8.9p1-3ubuntu0.4" opensshVersion reissued := by
  have hlatest : (latestFix asciiRetro (opensshRecord "1:8.9p1-3ubuntu0.4")
      reissued.tail).toOption = some (opensshRecord "1:8.9p1-3ubuntu0.10") := by decide +kernel
  have hagree : Agree (verdictOf (judgeRelease asciiRetro reissued "8.9p1" (some "3ubuntu0.4")))
      (endpointStatus asciiRetro opensshPackage (opensshFeed reissued) reissued
        "CVE-2024-6387") := by decide +kernel
  refine ⟨hlatest, hagree, (verdicts_agree_iff ?_ ?_ (by decide)
    (opensshPackage_assessable reissued) opensshVersion_parsed ?_).mp hagree⟩
  · have hcoerced : ∀ fixedVersion ∈
        ["1:8.9p1-3ubuntu0.4", "1:8.9p1-3ubuntu0.10", "1:8.9p1-3ubuntu0.3"],
        coerceRecord asciiRetro.toText "ubuntu" none (opensshEntry fixedVersion) =
          some (opensshRecord fixedVersion) := by decide +kernel
    rintro r hr
    obtain ⟨fixedVersion, hmem, rfl⟩ := List.mem_map.mp hr
    exact ⟨"ubuntu", none, opensshEntry fixedVersion, hcoerced fixedVersion hmem⟩
  · rintro r hr
    obtain ⟨fixedVersion, _, rfl⟩ := List.mem_map.mp hr
    exact List.mem_singleton_self _
  · intro record rest fix b hresolved hfix _
    have hall : resolvedRecords reissued = reissued := by decide +kernel
    rw [hall] at hresolved
    cases hresolved
    have hfix' : some fix = some (opensshRecord "1:8.9p1-3ubuntu0.10") := by
      rw [← hlatest]
      exact (congrArg Except.toOption hfix).symm
    cases hfix'
    decide +kernel

/-- A reissue that is no version: cleared from the network, unknown on the endpoint. -/
theorem brokenReissue_verdicts_differ :
    brokenReissue.map some = ["1:8.9p1-3ubuntu0.4", "-5"].map (fun fixedVersion =>
        coerceRecord asciiRetro.toText "ubuntu" none (opensshEntry fixedVersion)) ∧
      (latestFix asciiRetro (opensshRecord "1:8.9p1-3ubuntu0.4") [opensshRecord "-5"]).toOption =
        some (opensshRecord "1:8.9p1-3ubuntu0.4") ∧
      (installedEvr asciiRetro "8.9p1" "3ubuntu0.4" "1:8.9p1-3ubuntu0.4").toOption =
        some "1:8.9p1-3ubuntu0.4" ∧
      verdictOf (judgeRelease asciiRetro brokenReissue "8.9p1" (some "3ubuntu0.4")) =
        some .fixed ∧
      endpointStatus asciiRetro opensshPackage (opensshFeed brokenReissue) brokenReissue
        "CVE-2024-6387" = some .unknown ∧
      ¬ Agree (verdictOf (judgeRelease asciiRetro brokenReissue "8.9p1" (some "3ubuntu0.4")))
        (endpointStatus asciiRetro opensshPackage (opensshFeed brokenReissue) brokenReissue
          "CVE-2024-6387") := by
  refine ⟨?_, ?_, ?_, ?_, ?_, ?_⟩ <;> decide +kernel

end Hosts

end Shapoclyack.VerdictAgreement
