import Shapoclyack.SoftwareCveMatch

set_option autoImplicit false

namespace Shapoclyack.MatchTables

open Advisories Library PackageIdentities SoftwareCveMatch VersionCompare

section Collapse

variable {key : MatchCandidate → String}

theorem foldl_collapse (key : MatchCandidate → String) (k : String) (c : MatchCandidate)
    (cs : List MatchCandidate) :
    (cs.map fun d => collapse (key d) d).foldl (fun row d => d.update row) (k, c) =
      (k, cs.foldl worse c) := by
  induction cs generalizing c with
  | nil => rfl
  | cons d cs ih => exact ih (worse c d)

/-- A table filled by collapsing holds under a key the worst of the candidates with that key. -/
theorem get_collapsed (key : MatchCandidate → String) (cs : List MatchCandidate) (k : String) :
    ((Table.empty (Prod.fst : String × MatchCandidate → String)).applyAll
        (cs.map fun c => collapse (key c) c)).get k =
      (worstOf worse (cs.filter fun c => decide (key c = k))).map fun w => (k, w) := by
  have htarget : (fun d => decide (Change.target d = k)) ∘ (fun c => collapse (key c) c) =
      fun c => decide (key c = k) := rfl
  rw [Table.get_applyAll, List.filter_map, htarget]
  cases hcs : cs.filter fun c => decide (key c = k) with
  | nil => rfl
  | cons c cs' =>
    have hc : key c = k := by
      have hmem : c ∈ cs.filter fun c => decide (key c = k) := by simp [hcs]
      simpa using (List.mem_filter.mp hmem).2
    rw [List.map_cons, List.foldl_cons]
    change (cs'.map fun d => collapse (key d) d).foldl _ (some (key c, c)) = _
    rw [foldl_result_some, foldl_collapse, hc]
    rfl

theorem applyAll_append (t : ByCve)
    (xs ys : List (Change (Prod.fst : String × MatchCandidate → String))) :
    t.applyAll (xs ++ ys) = (t.applyAll xs).applyAll ys := by
  unfold Table.applyAll
  rw [List.foldl_append]

theorem mem_values_iff (t : ByCve) (c : MatchCandidate) :
    c ∈ t.rows.map (·.2) ↔ ∃ k, t.get k = some (k, c) := by
  constructor
  · intro h
    obtain ⟨e, he, rfl⟩ := List.mem_map.mp h
    exact ⟨e.1, t.get_self he⟩
  · rintro ⟨k, hk⟩
    exact List.mem_map.mpr ⟨(k, c), ((t.get_eq_some_iff k _).mp hk).1, rfl⟩

end Collapse

section Reasons

theorem reasonKey_injective {r r' : Reason} (h : reasonKey r = reasonKey r') : r = r' := by
  unfold reasonKey at h
  have htext := (List.cons.inj (String.ofList_injective h)).2
  exact Reason.toText_injective (String.toList_injective htext)

variable (row : Reason → MatchCandidate)

theorem get_assigned_of_ne (t : ByCve) (rs : List Reason) (k : String)
    (h : ∀ r ∈ rs, reasonKey r ≠ k) :
    (t.applyAll (rs.map fun r => assign (reasonKey r) (row r))).get k = t.get k := by
  rw [Table.get_applyAll, List.filter_map]
  have hnone : rs.filter ((fun c => decide (Change.target c = k)) ∘
      fun r => assign (reasonKey r) (row r)) = [] := by
    rw [List.filter_eq_nil_iff]
    intro r hr
    simpa [assign] using h r hr
  rw [hnone]
  rfl

theorem get_assigned (t : ByCve) (rs : List Reason) {r : Reason} (hr : r ∈ rs) :
    (t.applyAll (rs.map fun r => assign (reasonKey r) (row r))).get (reasonKey r) =
      some (reasonKey r, row r) := by
  induction rs generalizing t with
  | nil => cases hr
  | cons r' rs ih =>
    change ((t.apply (assign (reasonKey r') (row r'))).applyAll
      (rs.map fun r => assign (reasonKey r) (row r))).get (reasonKey r) = _
    by_cases hrest : r ∈ rs
    · exact ih _ hrest
    · have hhead : r = r' := (List.mem_cons.mp hr).resolve_right hrest
      subst hhead
      have hne : ∀ s ∈ rs, reasonKey s ≠ reasonKey r := by
        intro s hs heq
        rw [reasonKey_injective heq] at hs
        exact hrest hs
      have htarget : (assign (reasonKey r) (row r)).target = reasonKey r := rfl
      rw [get_assigned_of_ne row _ rs _ hne, Table.get_apply, if_pos htarget]
      cases hget : t.get (reasonKey r) with
      | none => rfl
      | some e =>
        have hkey : e.1 = reasonKey r := ((t.get_eq_some_iff _ _).mp hget).2
        change some (e.1, row r) = _
        rw [hkey]

end Reasons

section Loop

variable (lib : OsText) (ctx : DistroContext) (provider : Option Provider)

def Outcome.candidates : Outcome → List MatchCandidate
  | .assessed cs => cs
  | .unassessed _ _ => []

/-- The reason and the name an outcome leaves unassessed. -/
def Outcome.left : Outcome → Option (Reason × String)
  | .assessed _ => none
  | .unassessed reason name => some (reason, name)

def outcomesOf (software : List SoftwareItem) : List Outcome :=
  software.filterMap fun item => (assess lib ctx provider item).toOption

variable {lib ctx provider}

theorem assess_candidates_outcome {item : SoftwareItem} {o : Outcome}
    (h : assess lib ctx provider item = .ok o) (software : List SoftwareItem) :
    outcomesOf lib ctx provider (item :: software) =
      o :: outcomesOf lib ctx provider software := by
  unfold outcomesOf
  rw [List.filterMap_cons, h]
  rfl

/-- The loop ends exactly where every item can be read, on the tallies of their outcomes. -/
theorem tally_eq_ok_iff (t t' : Tally) (software : List SoftwareItem) :
    tally lib ctx provider t software = .ok t' ↔
      (∀ item ∈ software, ∃ o, assess lib ctx provider item = .ok o) ∧
        t' = (outcomesOf lib ctx provider software).foldl Tally.add t := by
  induction software generalizing t with
  | nil =>
    simp only [tally, Except.ok.injEq, outcomesOf, List.filterMap_nil, List.foldl_nil,
      List.not_mem_nil, false_implies, implies_true, true_and]
    exact eq_comm
  | cons item software ih =>
    rw [tally]
    cases hitem : assess lib ctx provider item with
    | error e =>
      simp only [reduceCtorEq, false_iff, not_and]
      intro hall
      obtain ⟨o, ho⟩ := hall item (by simp)
      rw [hitem] at ho
      cases ho
    | ok o =>
      simp only
      rw [ih, assess_candidates_outcome hitem, List.foldl_cons]
      refine and_congr_left fun _ => ⟨?_, ?_⟩
      · intro hall it hit
        rcases List.mem_cons.mp hit with rfl | hrest
        · exact ⟨o, hitem⟩
        · exact hall it hrest
      · intro hall it hit
        exact hall it (List.mem_cons_of_mem _ hit)

theorem foldl_add_byCve (t : Tally) (os : List Outcome) :
    (os.foldl Tally.add t).byCve =
      t.byCve.applyAll ((os.flatMap Outcome.candidates).map fun c =>
        collapse (candidateKey c) c) := by
  induction os generalizing t with
  | nil => rfl
  | cons o os ih =>
    rw [List.foldl_cons, ih, List.flatMap_cons, List.map_append, applyAll_append]
    cases o with
    | assessed cs => rfl
    | unassessed reason name => rfl

theorem foldl_add_unassessed (t : Tally) (os : List Outcome) :
    (os.foldl Tally.add t).unassessed = t.unassessed ++ os.filterMap Outcome.left := by
  induction os generalizing t with
  | nil => simp
  | cons o os ih =>
    rw [List.foldl_cons, ih]
    cases o with
    | assessed cs => rfl
    | unassessed reason name => simp [Tally.add, Outcome.left]

theorem foldl_add_count (t : Tally) (os : List Outcome) :
    (os.foldl Tally.add t).assessed + (os.foldl Tally.add t).unassessed.length =
      t.assessed + t.unassessed.length + os.length := by
  induction os generalizing t with
  | nil => rfl
  | cons o os ih =>
    rw [List.foldl_cons, ih]
    cases o with
    | assessed cs =>
      simp only [Tally.add, List.length_cons]
      omega
    | unassessed reason name =>
      simp only [Tally.add, List.length_append, List.length_cons, List.length_nil]
      omega

theorem outcomesOf_length {software : List SoftwareItem}
    (h : ∀ item ∈ software, ∃ o, assess lib ctx provider item = .ok o) :
    (outcomesOf lib ctx provider software).length = software.length := by
  induction software with
  | nil => rfl
  | cons item software ih =>
    obtain ⟨o, ho⟩ := h item (by simp)
    rw [assess_candidates_outcome ho, List.length_cons, List.length_cons,
      ih fun it hit => h it (List.mem_cons_of_mem _ hit)]

end Loop

end Shapoclyack.MatchTables
