import Mathlib.Data.List.Dedup
import Shapoclyack.FindingFold
import Shapoclyack.VerificationArtifacts

set_option autoImplicit false

namespace Shapoclyack.DetectorMemory

open Detectors VerificationArtifacts

section Purpose

variable (t : Text)

/-- A fold of what a run observed, as the newest entries or behind those a row has. -/
inductive Fold where
  | newer (observed : List Detector)
  | older (observed : List Detector)

def Fold.observed : Fold → List Detector
  | .newer observed => observed
  | .older observed => observed

def Fold.apply (held : List Detector) : Fold → List Detector
  | .newer observed => mergeDetectors t held observed
  | .older observed => mergeDetectors t observed held

/-- What a row holds after folds, the oldest first. -/
def memory (start : List Detector) (folds : List Fold) : List Detector :=
  folds.foldl (Fold.apply t) start

/-- Every entry that was ever observed. -/
def witnessed (start : List Detector) (folds : List Fold) : List Detector :=
  start ++ folds.flatMap Fold.observed

def pairOf (e : Detector) : Option String × Option String :=
  (e.detector, FindingEvidence.filled e.ref)

structure WellFormed (entries : List Detector) : Prop where
  capped : entries.length ≤ maxDetectors
  distinct : (entries.map (detectorKey t)).Nodup

/-- An unknown vantage is carried by host-less entries alone, which are not seen again as they are
and which located ones replace. -/
def Forgets (existing observed : List Detector) : Prop :=
  (∀ e ∈ observed, unknownVantage ∉ vantagesOf e) ∧
    ∀ e ∈ existing, unknownVantage ∈ vantagesOf e → FindingEvidence.truthy e.host = false ∧
      (∀ new ∈ observed, detectorKey t e ≠ detectorKey t new) ∧
      ∃ new ∈ observed, FindingEvidence.truthy new.host = true ∧
        looseDetectorKey t e = looseDetectorKey t new

def Fold.Forgets (held : List Detector) : Fold → Prop
  | .newer observed => DetectorMemory.Forgets t held observed
  | .older observed => DetectorMemory.Forgets t observed held

def union (entries : List Detector) : List String := entries.flatMap vantagesOf

/-- Nothing but host-less entries from before vantages were kept carries an unknown vantage, and a
located observation of the same detector, ref and port replaces each of them. -/
def Backfilled (start : List Detector) (folds : List Fold) : Prop :=
  (∀ e ∈ folds.flatMap Fold.observed, unknownVantage ∉ vantagesOf e) ∧
    ∀ e ∈ start, unknownVantage ∈ vantagesOf e →
      FindingEvidence.truthy e.host = false ∧ e.vantages = [] ∧
        ∃ new ∈ folds.flatMap Fold.observed, FindingEvidence.truthy new.host = true ∧
          looseDetectorKey t e = looseDetectorKey t new

/-- What a row remembers of all that was folded into it. -/
structure Remembers (start : List Detector) (folds : List Fold) : Prop where
  wellFormed : WellFormed t (memory t start folds)
  pairs : ((witnessed start folds).map pairOf).dedup.length ≤ maxDetectors →
    ∀ e ∈ witnessed start folds, ∃ e' ∈ memory t start folds, pairOf e' = pairOf e
  truthful : ∀ v, (∀ w, w ∈ union (memory t start folds) ↔ w = v) →
    ∀ w ∈ union (witnessed start folds),
      w = v ∨ (w = unknownVantage ∧ Backfilled t start folds)

/-- Before the fold one known vantage is on the entries, held and observed. -/
def Single (entries : List Detector) : Prop :=
  ∃ v ∈ union entries, v ≠ unknownVantage ∧ ∀ w ∈ union entries, w = v ∨ w = unknownVantage

/-- The fold forgets an unknown vantage that some observation did record. -/
def Loses (start : List Detector) (before : List Fold) (fold : Fold) : Prop :=
  fold.Forgets t (memory t start before) ∧ Single (memory t start before ++ fold.observed) ∧
    ¬ Backfilled t start (before ++ [fold])

end Purpose

section Vantages

theorem mem_addVantages (values out : List String) (v : String) :
    v ∈ values.foldl addVantage out ↔ v ∈ out ∨ v ∈ values := by
  induction values generalizing out with
  | nil => simp
  | cons value rest ih =>
    rw [List.foldl_cons, ih]
    unfold addVantage
    by_cases h : out.contains value = true
    · rw [if_pos h, List.mem_cons]
      have hmem := List.contains_iff_mem.mp h
      constructor
      · exact fun hv => hv.imp_right Or.inr
      · rintro (hv | rfl | hv)
        · exact .inl hv
        · exact .inl hmem
        · exact .inr hv
    · rw [if_neg h, List.mem_append, List.mem_singleton, List.mem_cons, or_assoc]

theorem nodup_addVantages {values out : List String} (h : out.Nodup) :
    (values.foldl addVantage out).Nodup := by
  induction values generalizing out with
  | nil => exact h
  | cons value rest ih =>
    rw [List.foldl_cons]
    refine ih ?_
    unfold addVantage
    by_cases hin : out.contains value = true
    · rw [if_pos hin]
      exact h
    · rw [if_neg hin]
      refine List.Nodup.append h (List.nodup_singleton value) ?_
      rw [List.disjoint_singleton]
      exact fun hmem => hin (List.contains_iff_mem.mpr hmem)

theorem nodup_unionVantages (lists : List (List String)) : (unionVantages lists).Nodup :=
  (nodup_addVantages List.nodup_nil).take

theorem mem_unionVantages {lists : List (List String)} {values : List String} {v : String}
    (hvalues : values ∈ lists) (hv : v ∈ values) :
    v ∈ unionVantages lists ∨ (unionVantages lists).length = maxVantages := by
  have hmem : v ∈ lists.flatten.foldl addVantage [] :=
    (mem_addVantages _ _ _).mpr (.inr (List.mem_flatten_of_mem hvalues hv))
  unfold unionVantages
  by_cases hlong : maxVantages ≤ (lists.flatten.foldl addVantage []).length
  · exact .inr (List.length_take_of_le hlong)
  · left
    rw [List.take_of_length_le (by omega)]
    exact hmem

theorem of_mem_unionVantages {lists : List (List String)} {v : String}
    (h : v ∈ unionVantages lists) : ∃ values ∈ lists, v ∈ values := by
  have hmem := (mem_addVantages _ _ _).mp (List.mem_of_mem_take h)
  exact List.mem_flatten.mp (hmem.resolve_left List.not_mem_nil)

def Mixed (entries : List Detector) : Prop :=
  ∃ v ∈ union entries, ∃ w ∈ union entries, v ≠ w ∧ v ≠ unknownVantage ∧ w ≠ unknownVantage

theorem mixed_of_full {entries : List Detector} {e : Detector} (he : e ∈ entries)
    (hnodup : (vantagesOf e).Nodup) (hfull : (vantagesOf e).length = maxVantages) :
    Mixed entries := by
  have hknown : 1 < ((vantagesOf e).erase unknownVantage).length := by
    have hlength : (vantagesOf e).length = 8 := hfull
    rw [List.length_erase]
    split <;> omega
  have hknown_nodup := hnodup.erase unknownVantage
  rcases hlist : (vantagesOf e).erase unknownVantage with _ | ⟨v, _ | ⟨w, rest⟩⟩
  · rw [hlist] at hknown
    simp at hknown
  · rw [hlist] at hknown
    simp at hknown
  · have hmem : ∀ x ∈ v :: w :: rest, x ∈ union entries ∧ x ≠ unknownVantage := by
      intro x hx
      rw [← hlist] at hx
      have hx := (hnodup.mem_erase_iff).mp hx
      exact ⟨List.mem_flatMap_of_mem he hx.2, hx.1⟩
    rw [hlist] at hknown_nodup
    have hne : v ≠ w := by
      rintro rfl
      exact (List.nodup_cons.mp hknown_nodup).1 List.mem_cons_self
    have hv := hmem v List.mem_cons_self
    have hw := hmem w (List.mem_cons_of_mem _ List.mem_cons_self)
    exact ⟨v, hv.1, w, hw.1, hne, hv.2, hw.2⟩

theorem Mixed.mono {entries others : List Detector} (h : Mixed entries)
    (hsub : ∀ v ∈ union entries, v ∈ union others) : Mixed others := by
  rcases h with ⟨v, hv, w, hw, hne⟩
  exact ⟨v, hsub v hv, w, hsub w hw, hne⟩

theorem vantagesOf_of_ne_nil {e : Detector} (h : e.vantages ≠ []) : vantagesOf e = e.vantages :=
  if_pos h

theorem vantagesOf_ne_nil (e : Detector) : vantagesOf e ≠ [] := by
  unfold vantagesOf
  split
  · assumption
  · exact List.cons_ne_nil _ _

theorem unionVantages_ne_nil {lists : List (List String)} {values : List String} {v : String}
    (hvalues : values ∈ lists) (hv : v ∈ values) : unionVantages lists ≠ [] := by
  rcases mem_unionVantages hvalues hv with hmem | hfull
  · exact List.ne_nil_of_mem hmem
  · exact List.ne_nil_of_length_pos (by rw [hfull]; decide)

theorem of_vantagesOf_union {e newest : Detector} {lists : List (List String)} {v : String}
    (hunion : e.vantages = unionVantages (vantagesOf newest :: lists)) (hv : v ∈ vantagesOf e) :
    v ∈ vantagesOf newest ∨ ∃ values ∈ lists, v ∈ values := by
  obtain ⟨first, hfirst⟩ := List.exists_mem_of_ne_nil _ (vantagesOf_ne_nil newest)
  have hne : e.vantages ≠ [] := by
    rw [hunion]
    exact unionVantages_ne_nil List.mem_cons_self hfirst
  rw [vantagesOf_of_ne_nil hne, hunion] at hv
  rcases of_mem_unionVantages hv with ⟨values, hvalues, hmem⟩
  rcases List.mem_cons.mp hvalues with rfl | hvalues
  · exact .inl hmem
  · exact .inr ⟨values, hvalues, hmem⟩

theorem vantage_of_union {entries : List Detector} {e : Detector} {lists : List (List String)}
    (he : e ∈ entries) (hunion : e.vantages = unionVantages lists) {values : List String}
    {v : String} (hvalues : values ∈ lists) (hv : v ∈ values) :
    v ∈ union entries ∨ Mixed entries := by
  have hne : e.vantages ≠ [] := by
    rw [hunion]
    exact unionVantages_ne_nil hvalues hv
  have hvantages : vantagesOf e = unionVantages lists := (vantagesOf_of_ne_nil hne).trans hunion
  rcases mem_unionVantages hvalues hv with hmem | hfull
  · exact .inl (List.mem_flatMap_of_mem he (hvantages ▸ hmem))
  · exact .inr (mixed_of_full he (hvantages ▸ nodup_unionVantages lists) (hvantages ▸ hfull))

end Vantages

section Cap

theorem markRepeats_fst (held : List (Option String × Option String)) (entries : List Detector) :
    (markRepeats held entries).map Prod.fst = entries := by
  induction entries generalizing held with
  | nil => rfl
  | cons e rest ih => exact congrArg (e :: ·) (ih _)

theorem dropRepeats_fst (excess : ℕ) (marked : List (Detector × Bool)) :
    (dropRepeats excess marked).map Prod.fst = marked.map Prod.fst := by
  induction marked generalizing excess with
  | nil =>
    cases excess <;> rfl
  | cons entry rest ih =>
    rcases entry with ⟨e, isRepeat⟩
    cases excess with
    | zero => exact congrArg (e :: ·) (ih 0)
    | succ excess =>
      rw [dropRepeats]
      split
      · exact congrArg (e :: ·) (ih excess)
      · exact congrArg (e :: ·) (ih (excess + 1))

def kept (marked : List (Detector × Bool)) : List Detector :=
  (marked.filter fun entry => !entry.2).map Prod.fst

theorem kept_cons_true (e : Detector) (rest : List (Detector × Bool)) :
    kept ((e, true) :: rest) = kept rest := rfl

theorem kept_cons_false (e : Detector) (rest : List (Detector × Bool)) :
    kept ((e, false) :: rest) = e :: kept rest := rfl

theorem kept_reverse (marked : List (Detector × Bool)) :
    kept marked.reverse = (kept marked).reverse := by
  unfold kept
  rw [List.filter_reverse, List.map_reverse]

theorem kept_dropRepeats_length (excess : ℕ) (marked : List (Detector × Bool)) :
    (kept (dropRepeats excess marked)).length + min excess (marked.length - (kept marked).length) =
      marked.length := by
  have hle : ∀ rest : List (Detector × Bool), (kept rest).length ≤ rest.length := fun rest => by
    unfold kept
    rw [List.length_map]
    exact List.length_filter_le _ _
  induction marked generalizing excess with
  | nil => cases excess <;> rfl
  | cons entry rest ih =>
    rcases entry with ⟨e, isRepeat⟩
    have hrest := hle rest
    cases excess with
    | zero =>
      have hzero := ih 0
      rw [dropRepeats, kept_cons_false, List.length_cons, List.length_cons]
      omega
    | succ excess =>
      rw [dropRepeats]
      cases isRepeat with
      | true =>
        have hdrop := ih excess
        rw [if_pos rfl, kept_cons_true, kept_cons_true, List.length_cons]
        omega
      | false =>
        have hkeep := ih (excess + 1)
        rw [if_neg (by decide), kept_cons_false, kept_cons_false, List.length_cons,
          List.length_cons, List.length_cons]
        omega

theorem kept_subset_dropRepeats (excess : ℕ) (marked : List (Detector × Bool)) :
    ∀ e ∈ kept marked, e ∈ kept (dropRepeats excess marked) := by
  induction marked generalizing excess with
  | nil => exact fun _ he => absurd he List.not_mem_nil
  | cons entry rest ih =>
    rcases entry with ⟨first, isRepeat⟩
    intro e he
    cases excess with
    | zero =>
      rw [dropRepeats, kept_cons_false]
      cases isRepeat with
      | true => exact List.mem_cons_of_mem _ (ih 0 e he)
      | false =>
        rcases List.mem_cons.mp he with rfl | he
        · exact List.mem_cons_self
        · exact List.mem_cons_of_mem _ (ih 0 e he)
    | succ excess =>
      rw [dropRepeats]
      cases isRepeat with
      | true =>
        rw [if_pos rfl, kept_cons_true]
        exact ih excess e he
      | false =>
        rw [if_neg (by decide), kept_cons_false]
        rcases List.mem_cons.mp he with rfl | he
        · exact List.mem_cons_self
        · exact List.mem_cons_of_mem _ (ih (excess + 1) e he)

theorem splitSurvivors_fst (room : ℕ) (marked : List (Detector × Bool)) :
    (splitSurvivors room marked).1 = (kept marked).take room := by
  induction marked generalizing room with
  | nil => cases room <;> rfl
  | cons entry rest ih =>
    rcases entry with ⟨e, dropped⟩
    cases room with
    | zero =>
      rw [splitSurvivors, List.take_zero]
      exact (ih 0).trans (List.take_zero)
    | succ room =>
      rw [splitSurvivors]
      cases dropped with
      | true =>
        rw [if_pos rfl, kept_cons_true]
        exact ih (room + 1)
      | false =>
        rw [if_neg (by decide), kept_cons_false, List.take_succ_cons]
        exact congrArg (e :: ·) (ih room)

theorem mem_splitSurvivors (room : ℕ) (marked : List (Detector × Bool)) :
    ∀ e ∈ marked.map Prod.fst,
      e ∈ (splitSurvivors room marked).1 ∨ e ∈ (splitSurvivors room marked).2 := by
  induction marked generalizing room with
  | nil => exact fun _ he => absurd he List.not_mem_nil
  | cons entry rest ih =>
    rcases entry with ⟨first, dropped⟩
    intro e he
    cases room with
    | zero =>
      rcases List.mem_cons.mp he with rfl | he
      · exact .inr List.mem_cons_self
      · exact (ih 0 e he).imp_right (List.mem_cons_of_mem _)
    | succ room =>
      rw [splitSurvivors]
      cases dropped with
      | true =>
        rw [if_pos rfl]
        rcases List.mem_cons.mp he with rfl | he
        · exact .inr List.mem_cons_self
        · exact (ih (room + 1) e he).imp_right (List.mem_cons_of_mem _)
      | false =>
        rw [if_neg (by decide)]
        rcases List.mem_cons.mp he with rfl | he
        · exact .inl List.mem_cons_self
        · exact (ih room e he).imp_left (List.mem_cons_of_mem _)

theorem splitSurvivors_lost (room : ℕ) (marked : List (Detector × Bool)) :
    ∀ e ∈ (splitSurvivors room marked).2, e ∈ marked.map Prod.fst := by
  induction marked generalizing room with
  | nil =>
    cases room <;> exact fun _ he => absurd he List.not_mem_nil
  | cons entry rest ih =>
    rcases entry with ⟨first, dropped⟩
    intro e he
    cases room with
    | zero =>
      rcases List.mem_cons.mp he with rfl | he
      · exact List.mem_cons_self
      · exact List.mem_cons_of_mem _ (ih 0 e he)
    | succ room =>
      rw [splitSurvivors] at he
      cases dropped with
      | true =>
        rw [if_pos rfl] at he
        rcases List.mem_cons.mp he with rfl | he
        · exact List.mem_cons_self
        · exact List.mem_cons_of_mem _ (ih (room + 1) e he)
      | false =>
        rw [if_neg (by decide)] at he
        exact List.mem_cons_of_mem _ (ih room e he)

theorem kept_markRepeats (held : List (Option String × Option String)) (entries : List Detector) :
    ((kept (markRepeats held entries)).map pairOf).Nodup ∧
      (∀ p ∈ (kept (markRepeats held entries)).map pairOf, p ∉ held) ∧
      ∀ e ∈ entries, pairOf e ∈ held ∨ pairOf e ∈ (kept (markRepeats held entries)).map pairOf := by
  induction entries generalizing held with
  | nil =>
    exact ⟨List.nodup_nil, fun _ hp => absurd hp List.not_mem_nil,
      fun _ he => absurd he List.not_mem_nil⟩
  | cons e rest ih =>
    rcases ih (pairOf e :: held) with ⟨hnodup, hout, hall⟩
    by_cases hheld : held.contains (pairOf e) = true
    · have hmark : markRepeats held (e :: rest) =
          (e, true) :: markRepeats (pairOf e :: held) rest := by
        rw [markRepeats]
        exact congrArg (fun b => (e, b) :: _) hheld
      have hmem := List.contains_iff_mem.mp hheld
      rw [hmark, kept_cons_true]
      refine ⟨hnodup, fun p hp hin => hout p hp (List.mem_cons_of_mem _ hin), ?_⟩
      intro other hother
      rcases List.mem_cons.mp hother with rfl | hother
      · exact .inl hmem
      · rcases hall other hother with hin | hin
        · rcases List.mem_cons.mp hin with heq | hin
          · exact .inl (heq ▸ hmem)
          · exact .inl hin
        · exact .inr hin
    · have hmark : markRepeats held (e :: rest) =
          (e, false) :: markRepeats (pairOf e :: held) rest := by
        rw [markRepeats]
        exact congrArg (fun b => (e, b) :: _) (Bool.eq_false_of_not_eq_true hheld)
      rw [hmark, kept_cons_false, List.map_cons]
      refine ⟨List.nodup_cons.mpr ⟨fun hin => hout _ hin List.mem_cons_self, hnodup⟩, ?_, ?_⟩
      · intro p hp
        rcases List.mem_cons.mp hp with rfl | hp
        · exact fun hin => hheld (List.contains_iff_mem.mpr hin)
        · exact fun hin => hout p hp (List.mem_cons_of_mem _ hin)
      · intro other hother
        rcases List.mem_cons.mp hother with rfl | hother
        · exact .inr List.mem_cons_self
        · rcases hall other hother with hin | hin
          · rcases List.mem_cons.mp hin with heq | hin
            · exact .inr (heq ▸ List.mem_cons_self)
            · exact .inl hin
          · exact .inr (List.mem_cons_of_mem _ hin)

end Cap

section Survivors

variable {merged : List Detector}

def marked (merged : List Detector) : List (Detector × Bool) :=
  (dropRepeats (merged.length - maxDetectors) (markRepeats [] merged).reverse).reverse

def survivors (merged : List Detector) : List Detector := (kept (marked merged)).take maxDetectors

def lost (merged : List Detector) : List Detector :=
  (splitSurvivors maxDetectors (marked merged)).2

theorem marked_fst (merged : List Detector) : (marked merged).map Prod.fst = merged := by
  unfold marked
  rw [List.map_reverse, dropRepeats_fst, List.map_reverse, List.reverse_reverse, markRepeats_fst]

theorem survivors_sublist (merged : List Detector) : (survivors merged).Sublist merged := by
  have hkept : (kept (marked merged)).Sublist ((marked merged).map Prod.fst) :=
    List.filter_sublist.map Prod.fst
  rw [marked_fst] at hkept
  exact (List.take_sublist _ _).trans hkept

theorem kept_marked_length (hlong : maxDetectors < merged.length) :
    maxDetectors ≤ (kept (marked merged)).length := by
  have hlength := kept_dropRepeats_length (merged.length - maxDetectors)
    (markRepeats [] merged).reverse
  have hmarks : (markRepeats [] merged).reverse.length = merged.length := by
    rw [List.length_reverse, ← List.length_map, markRepeats_fst]
  unfold marked
  rw [kept_reverse, List.length_reverse]
  omega

theorem mem_survivors_or_lost {e : Detector} (he : e ∈ merged) :
    e ∈ survivors merged ∨ e ∈ lost merged := by
  have hmem := mem_splitSurvivors maxDetectors (marked merged) e (by rw [marked_fst]; exact he)
  rw [splitSurvivors_fst] at hmem
  exact hmem

def heir (lost : List Detector) (newest : Detector) : Detector :=
  { newest with vantages := unionVantages [vantagesOf newest, lost.flatMap vantagesOf] }

/-- Over the cap, the newest survivor takes over the vantages of what is lost. -/
theorem capDetectors_spec (hlong : maxDetectors < merged.length) :
    ∃ newest rest, survivors merged = newest :: rest ∧
      capDetectors merged = heir (lost merged) newest :: rest := by
  have hne : survivors merged ≠ [] := by
    have hkept := kept_marked_length hlong
    refine List.ne_nil_of_length_pos ?_
    rw [survivors, List.length_take_of_le hkept]
    decide
  rcases List.exists_cons_of_ne_nil hne with ⟨newest, rest, hcons⟩
  refine ⟨newest, rest, hcons, ?_⟩
  have hsplit : splitSurvivors maxDetectors (marked merged) = (newest :: rest, lost merged) :=
    Prod.ext ((splitSurvivors_fst maxDetectors (marked merged)).trans hcons) rfl
  unfold marked at hsplit
  unfold capDetectors
  rw [if_neg (by omega)]
  simp only [hsplit]
  rfl

theorem map_capDetectors {β : Type} (f : Detector → β)
    (hf : ∀ e vantages, f { e with vantages := vantages } = f e)
    (hlong : maxDetectors < merged.length) :
    (capDetectors merged).map f = (survivors merged).map f := by
  rcases capDetectors_spec hlong with ⟨newest, rest, hsurvivors, hcap⟩
  rw [hcap, hsurvivors, List.map_cons, List.map_cons, heir, hf]

theorem capDetectors_wellFormed {t : Text} (h : (merged.map (detectorKey t)).Nodup) :
    WellFormed t (capDetectors merged) := by
  by_cases hshort : merged.length ≤ maxDetectors
  · unfold capDetectors
    rw [if_pos hshort]
    exact ⟨hshort, h⟩
  · have hlong : maxDetectors < merged.length := by omega
    constructor
    · have hlength := congrArg List.length (map_capDetectors (fun _ => ()) (fun _ _ => rfl) hlong)
      rw [List.length_map, List.length_map] at hlength
      rw [hlength]
      exact List.length_take_le _ _
    · rw [map_capDetectors (detectorKey t) (fun _ _ => rfl) hlong]
      exact h.sublist ((survivors_sublist merged).map _)

theorem capDetectors_pairs {pairs : List (Option String × Option String)}
    (hfew : pairs.dedup.length ≤ maxDetectors) (hpairs : ∀ e ∈ merged, pairOf e ∈ pairs)
    {e : Detector} (he : e ∈ merged) : ∃ e' ∈ capDetectors merged, pairOf e' = pairOf e := by
  by_cases hshort : merged.length ≤ maxDetectors
  · unfold capDetectors
    rw [if_pos hshort]
    exact ⟨e, he, rfl⟩
  · have hlong : maxDetectors < merged.length := by omega
    rcases kept_markRepeats [] merged with ⟨hnodup, _, hall⟩
    have hfirsts : (kept (markRepeats [] merged)).length ≤ maxDetectors := by
      have hsub : (kept (markRepeats [] merged)).map pairOf ⊆ pairs.dedup := by
        intro p hp
        rcases List.mem_map.mp hp with ⟨first, hfirst, rfl⟩
        have hmem : first ∈ merged := by
          have hin := (List.filter_sublist.map Prod.fst).subset hfirst
          rw [markRepeats_fst] at hin
          exact hin
        exact List.mem_dedup.mpr (hpairs first hmem)
      have hle := (List.subperm_of_subset hnodup hsub).length_le
      rw [List.length_map] at hle
      exact hle.trans hfew
    have hmarks : (markRepeats [] merged).reverse.length = merged.length := by
      rw [List.length_reverse, ← List.length_map, markRepeats_fst]
    have hkept : (kept (marked merged)).length ≤ maxDetectors := by
      have hlength := kept_dropRepeats_length (merged.length - maxDetectors)
        (markRepeats [] merged).reverse
      have hfirsts_reverse : (kept (markRepeats [] merged).reverse).length ≤ maxDetectors := by
        rw [kept_reverse, List.length_reverse]
        exact hfirsts
      unfold marked
      rw [kept_reverse, List.length_reverse]
      omega
    rcases List.mem_map.mp ((hall e he).resolve_left List.not_mem_nil) with ⟨first, hfirst, hpair⟩
    have hsurvives : first ∈ survivors merged := by
      unfold survivors
      rw [List.take_of_length_le hkept]
      unfold marked
      rw [kept_reverse, List.mem_reverse]
      refine kept_subset_dropRepeats _ _ first ?_
      rw [kept_reverse, List.mem_reverse]
      exact hfirst
    have hin := List.mem_map_of_mem (f := pairOf) hsurvives
    rw [← map_capDetectors pairOf (fun _ _ => rfl) hlong] at hin
    rcases List.mem_map.mp hin with ⟨e', he', hpair'⟩
    exact ⟨e', he', hpair'.trans hpair⟩

theorem lost_subset {e : Detector} (he : e ∈ lost merged) : e ∈ merged := by
  have hmem := splitSurvivors_lost maxDetectors (marked merged) e he
  rwa [marked_fst] at hmem

theorem of_union_capDetectors {v : String} (hv : v ∈ union (capDetectors merged)) :
    v ∈ union merged := by
  by_cases hshort : merged.length ≤ maxDetectors
  · unfold capDetectors at hv
    rwa [if_pos hshort] at hv
  · rcases capDetectors_spec (Nat.lt_of_not_le hshort) with ⟨newest, rest, hsurvivors, hcap⟩
    have hsub : ∀ e ∈ newest :: rest, e ∈ merged := fun e he =>
      (survivors_sublist merged).subset (hsurvivors ▸ he)
    rw [hcap] at hv
    rcases List.mem_flatMap.mp hv with ⟨e, he, hve⟩
    rcases List.mem_cons.mp he with rfl | hrest
    · rcases of_vantagesOf_union rfl hve with hnewest | ⟨values, hvalues, hmem⟩
      · exact List.mem_flatMap_of_mem (hsub newest List.mem_cons_self) hnewest
      · rw [List.mem_singleton.mp hvalues] at hmem
        rcases List.mem_flatMap.mp hmem with ⟨gone, hgone, hvgone⟩
        exact List.mem_flatMap_of_mem (lost_subset hgone) hvgone
    · exact List.mem_flatMap_of_mem (hsub e (List.mem_cons_of_mem _ hrest)) hve

theorem capDetectors_vantage {v : String} (hv : v ∈ union merged) :
    v ∈ union (capDetectors merged) ∨ Mixed (capDetectors merged) := by
  rcases List.mem_flatMap.mp hv with ⟨e, he, hve⟩
  by_cases hshort : merged.length ≤ maxDetectors
  · unfold capDetectors
    rw [if_pos hshort]
    exact .inl hv
  · have hlong : maxDetectors < merged.length := by omega
    rcases capDetectors_spec hlong with ⟨newest, rest, hsurvivors, hcap⟩
    rw [hcap]
    have hnewest : ∀ values ∈ [vantagesOf newest, (lost merged).flatMap vantagesOf], v ∈ values →
        v ∈ union (heir (lost merged) newest :: rest) ∨
          Mixed (heir (lost merged) newest :: rest) := fun values hvalues hin =>
      vantage_of_union List.mem_cons_self rfl hvalues hin
    rcases mem_survivors_or_lost he with hsurvives | hlost
    · rw [hsurvivors] at hsurvives
      rcases List.mem_cons.mp hsurvives with rfl | hrest
      · exact hnewest _ List.mem_cons_self hve
      · exact .inl (List.mem_flatMap_of_mem (List.mem_cons_of_mem _ hrest) hve)
    · exact hnewest _ (List.mem_cons_of_mem _ List.mem_cons_self)
        (List.mem_flatMap_of_mem hlost hve)

end Survivors

section Merge

variable (t : Text) {existing observed : List Detector}

def mergedOf (existing observed : List Detector) : List Detector :=
  observed.map (renew t existing) ++ existing.filter (keptBehind t observed)

theorem mergedOf_distinct (hexisting : (existing.map (detectorKey t)).Nodup)
    (hobserved : (observed.map (detectorKey t)).Nodup) :
    ((mergedOf t existing observed).map (detectorKey t)).Nodup := by
  unfold mergedOf
  rw [List.map_append, List.map_map]
  have hrenewed : (observed.map (detectorKey t ∘ renew t existing)) =
      observed.map (detectorKey t) := rfl
  rw [hrenewed]
  refine hobserved.append (hexisting.sublist (List.filter_sublist.map _)) ?_
  intro key hkey hkept
  rcases List.mem_map.mp hkey with ⟨e, he, rfl⟩
  rcases List.mem_map.mp hkept with ⟨old, hold, heq⟩
  have hbehind := (List.mem_filter.mp hold).2
  unfold keptBehind at hbehind
  rw [Bool.and_eq_true, Bool.not_eq_true'] at hbehind
  have hany : observed.any (fun e => detectorKey t e == detectorKey t old) = true :=
    List.any_eq_true.mpr ⟨e, he, beq_iff_eq.mpr heq.symm⟩
  exact absurd (hbehind.1.symm.trans hany) (by decide)

theorem mergeDetectors_wellFormed (hexisting : (existing.map (detectorKey t)).Nodup)
    (hobserved : (observed.map (detectorKey t)).Nodup) :
    WellFormed t (mergeDetectors t existing observed) :=
  capDetectors_wellFormed (mergedOf_distinct t hexisting hobserved)

theorem replaced_of_not_kept {old : Detector} (h : keptBehind t observed old = false) :
    (∃ e ∈ observed, detectorKey t old = detectorKey t e) ∨
      (FindingEvidence.truthy old.host = false ∧ ∃ e ∈ observed,
        FindingEvidence.truthy e.host = true ∧ looseDetectorKey t old = looseDetectorKey t e) := by
  unfold keptBehind at h
  rw [Bool.and_eq_false_iff, Bool.not_eq_false', Bool.not_eq_false'] at h
  rcases h with h | h
  · rcases List.any_eq_true.mp h with ⟨e, he, heq⟩
    exact .inl ⟨e, he, (beq_iff_eq.mp heq).symm⟩
  · rw [Bool.and_eq_true, Bool.not_eq_true'] at h
    rcases List.any_eq_true.mp h.2 with ⟨e, he, heq⟩
    rw [Bool.and_eq_true] at heq
    exact .inr ⟨h.1, e, he, heq.1, (beq_iff_eq.mp heq.2).symm⟩

theorem pairOf_of_detectorKey {old e : Detector} (h : detectorKey t old = detectorKey t e) :
    pairOf old = pairOf e := by
  unfold detectorKey at h
  rw [Prod.mk.injEq, Prod.mk.injEq] at h
  exact Prod.ext h.1 h.2.1

theorem pairOf_of_looseDetectorKey {old e : Detector}
    (h : looseDetectorKey t old = looseDetectorKey t e) : pairOf old = pairOf e := by
  unfold looseDetectorKey at h
  rw [Prod.mk.injEq, Prod.mk.injEq] at h
  exact Prod.ext h.1 h.2.1

theorem mergedOf_pair {e : Detector} (he : e ∈ existing ∨ e ∈ observed) :
    ∃ e' ∈ mergedOf t existing observed, pairOf e' = pairOf e := by
  have hobserved : ∀ new ∈ observed, ∃ e' ∈ mergedOf t existing observed, pairOf e' = pairOf new :=
    fun new hnew => ⟨renew t existing new,
      List.mem_append_left _ (List.mem_map_of_mem hnew), rfl⟩
  rcases he with he | he
  · cases hkept : keptBehind t observed e with
    | true => exact ⟨e, List.mem_append_right _ (List.mem_filter.mpr ⟨he, hkept⟩), rfl⟩
    | false =>
      rcases replaced_of_not_kept t hkept with ⟨new, hnew, hkey⟩ | ⟨_, new, hnew, _, hkey⟩
      · rw [pairOf_of_detectorKey t hkey]
        exact hobserved new hnew
      · rw [pairOf_of_looseDetectorKey t hkey]
        exact hobserved new hnew
  · exact hobserved e he

theorem pair_of_mergedOf {e : Detector} (he : e ∈ mergedOf t existing observed) :
    ∃ before, (before ∈ existing ∨ before ∈ observed) ∧ pairOf before = pairOf e := by
  rcases List.mem_append.mp he with he | he
  · rcases List.mem_map.mp he with ⟨new, hnew, rfl⟩
    exact ⟨new, .inr hnew, rfl⟩
  · exact ⟨e, .inl (List.mem_filter.mp he).1, rfl⟩

theorem pair_of_mergeDetectors {e : Detector} (he : e ∈ mergeDetectors t existing observed) :
    ∃ before, (before ∈ existing ∨ before ∈ observed) ∧ pairOf before = pairOf e := by
  have hin : ∃ e' ∈ mergedOf t existing observed, pairOf e' = pairOf e := by
    by_cases hshort : (mergedOf t existing observed).length ≤ maxDetectors
    · refine ⟨e, ?_, rfl⟩
      change e ∈ capDetectors (mergedOf t existing observed) at he
      unfold capDetectors at he
      rw [if_pos hshort] at he
      exact he
    · have hmap := List.mem_map_of_mem (f := pairOf) he
      change pairOf e ∈ (capDetectors (mergedOf t existing observed)).map pairOf at hmap
      rw [map_capDetectors pairOf (fun _ _ => rfl) (by omega)] at hmap
      rcases List.mem_map.mp hmap with ⟨e', he', hpair⟩
      exact ⟨e', (survivors_sublist _).subset he', hpair⟩
  rcases hin with ⟨e', he', hpair⟩
  rcases pair_of_mergedOf t he' with ⟨before, hbefore, hpair'⟩
  exact ⟨before, hbefore, hpair'.trans hpair⟩

theorem renewed_vantage {new : Detector} {values : List String} {v : String}
    (hnew : new ∈ observed)
    (hvalues : values = vantagesOf new ∨ ∃ old ∈ existing, replacedBy t old new = true ∧
      values = handedOn t old new) (hv : v ∈ values) :
    v ∈ union (mergedOf t existing observed) ∨ Mixed (mergedOf t existing observed) := by
  refine vantage_of_union (List.mem_append_left _ (List.mem_map_of_mem hnew)) rfl ?_ hv
  rcases hvalues with rfl | ⟨old, hold, hreplaced, rfl⟩
  · exact List.mem_cons_self
  · refine List.mem_cons_of_mem _ (List.mem_map.mpr ⟨old, ?_, rfl⟩)
    exact List.mem_filter.mpr ⟨hold, hreplaced⟩

theorem existing_vantage {old : Detector} {v : String} (hold : old ∈ existing)
    (hv : v ∈ vantagesOf old)
    (hspared : v = unknownVantage → ¬ (FindingEvidence.truthy old.host = false ∧
      (∀ new ∈ observed, detectorKey t old ≠ detectorKey t new) ∧
      ∃ new ∈ observed, FindingEvidence.truthy new.host = true ∧
        looseDetectorKey t old = looseDetectorKey t new)) :
    v ∈ union (mergedOf t existing observed) ∨ Mixed (mergedOf t existing observed) := by
  by_cases hagain : ∃ new ∈ observed, detectorKey t old = detectorKey t new
  · rcases hagain with ⟨new, hnew, hkey⟩
    refine renewed_vantage t hnew (.inr ⟨old, hold, ?_, rfl⟩) ?_
    · unfold replacedBy
      rw [hkey, beq_self_eq_true, Bool.true_or]
    · unfold handedOn
      rw [if_pos hkey]
      exact hv
  · have hunseen : ∀ new ∈ observed, detectorKey t old ≠ detectorKey t new :=
      fun new hnew hkey => hagain ⟨new, hnew, hkey⟩
    cases hkept : keptBehind t observed old with
    | true =>
      have hmem : old ∈ mergedOf t existing observed :=
        List.mem_append_right _ (List.mem_filter.mpr ⟨hold, hkept⟩)
      exact .inl (List.mem_flatMap_of_mem hmem hv)
    | false =>
      rcases (replaced_of_not_kept t hkept).resolve_left hagain with
        ⟨hhost, new, hnew, hlocated, hkey⟩
      refine renewed_vantage t hnew (.inr ⟨old, hold, ?_, rfl⟩) ?_
      · unfold replacedBy
        rw [hhost, hlocated, hkey, beq_self_eq_true, Bool.not_false, Bool.and_self, Bool.and_self,
          Bool.or_true]
      · unfold handedOn
        rw [if_neg (hunseen new hnew)]
        refine List.mem_filter.mpr ⟨hv, decide_eq_true fun heq => ?_⟩
        exact hspared heq ⟨hhost, hunseen, new, hnew, hlocated, hkey⟩

theorem mergedOf_vantage {v : String} (hv : v ∈ union existing ∨ v ∈ union observed) :
    v ∈ union (mergedOf t existing observed) ∨ Mixed (mergedOf t existing observed) ∨
      (v = unknownVantage ∧ Forgets t existing observed) := by
  rw [← or_assoc]
  rcases hv with hv | hv
  · rcases List.mem_flatMap.mp hv with ⟨old, hold, hvold⟩
    by_cases hforgets : v = unknownVantage ∧ Forgets t existing observed
    · exact .inr hforgets
    · left
      by_cases hunknown : v = unknownVantage
      · -- another entry than a replaced host-less one carries the unknown vantage
        have hnot : ¬ Forgets t existing observed := fun h => hforgets ⟨hunknown, h⟩
        unfold Forgets at hnot
        rw [not_and_or] at hnot
        push Not at hnot
        rcases hnot with ⟨new, hnew, hin⟩ | ⟨other, hother, hin, hkept⟩
        · rw [hunknown]
          exact renewed_vantage t hnew (.inl rfl) hin
        · rw [hunknown]
          refine existing_vantage t hother hin fun _ ⟨hhost, hunseen, new, hnew, hlocated, hkey⟩ =>
            ?_
          exact hkept hhost hunseen new hnew hlocated hkey
      · exact existing_vantage t hold hvold fun h => absurd h hunknown
  · rcases List.mem_flatMap.mp hv with ⟨new, hnew, hvnew⟩
    exact .inl (renewed_vantage t hnew (.inl rfl) hvnew)

theorem mixed_capDetectors {merged : List Detector} (h : Mixed merged) :
    Mixed (capDetectors merged) := by
  rcases h with ⟨v, hv, w, hw, hne⟩
  rcases capDetectors_vantage hv with hv | hmixed
  · rcases capDetectors_vantage hw with hw | hmixed
    · exact ⟨v, hv, w, hw, hne⟩
    · exact hmixed
  · exact hmixed

/-- A vantage on either side of a merge is kept, unless it is an unknown one that is forgotten. -/
theorem mergeDetectors_vantage {v : String} (hv : v ∈ union existing ∨ v ∈ union observed) :
    v ∈ union (mergeDetectors t existing observed) ∨ Mixed (mergeDetectors t existing observed) ∨
      (v = unknownVantage ∧ Forgets t existing observed) := by
  rcases mergedOf_vantage t hv with hmerged | hmixed | hforgets
  · exact (capDetectors_vantage hmerged).imp_right .inl
  · exact .inr (.inl (mixed_capDetectors hmixed))
  · exact .inr (.inr hforgets)

theorem mergeDetectors_mixed (h : Mixed (existing ++ observed)) :
    Mixed (mergeDetectors t existing observed) := by
  have hknown : ∀ v ∈ union (existing ++ observed), v ≠ unknownVantage →
      v ∈ union (mergeDetectors t existing observed) ∨
        Mixed (mergeDetectors t existing observed) := by
    intro v hv hne
    unfold union at hv
    rw [List.flatMap_append, List.mem_append] at hv
    rcases mergeDetectors_vantage t hv with hin | hmixed | ⟨heq, _⟩
    · exact .inl hin
    · exact .inr hmixed
    · exact absurd heq hne
  rcases h with ⟨v, hv, w, hw, hne, hvknown, hwknown⟩
  rcases hknown v hv hvknown with hvin | hmixed
  · rcases hknown w hw hwknown with hwin | hmixed
    · exact ⟨v, hvin, w, hwin, hne, hvknown, hwknown⟩
    · exact hmixed
  · exact hmixed

theorem of_union_mergeDetectors {v : String}
    (hv : v ∈ union (mergeDetectors t existing observed)) : v ∈ union (existing ++ observed) := by
  rcases List.mem_flatMap.mp (of_union_capDetectors hv) with ⟨e, he, hve⟩
  rcases List.mem_append.mp he with hrenewed | hkept
  · rcases List.mem_map.mp hrenewed with ⟨new, hnew, rfl⟩
    rcases of_vantagesOf_union rfl hve with hown | ⟨values, hvalues, hmem⟩
    · exact List.mem_flatMap_of_mem (List.mem_append_right _ hnew) hown
    · rcases List.mem_map.mp hvalues with ⟨old, hold, rfl⟩
      refine List.mem_flatMap_of_mem (List.mem_append_left _ (List.mem_filter.mp hold).1) ?_
      unfold handedOn at hmem
      split_ifs at hmem
      · exact hmem
      · exact (List.mem_filter.mp hmem).1
  · exact List.mem_flatMap_of_mem (List.mem_append_left _ (List.mem_filter.mp hkept).1) hve

theorem unknown_of_forgets (h : Forgets t existing observed) :
    unknownVantage ∉ union (mergeDetectors t existing observed) := by
  intro hv
  rcases List.mem_flatMap.mp (of_union_capDetectors hv) with ⟨e, he, hve⟩
  rcases List.mem_append.mp he with hrenewed | hkept
  · rcases List.mem_map.mp hrenewed with ⟨new, hnew, rfl⟩
    rcases of_vantagesOf_union rfl hve with hown | ⟨values, hvalues, hmem⟩
    · exact h.1 new hnew hown
    · rcases List.mem_map.mp hvalues with ⟨old, hold, rfl⟩
      unfold handedOn at hmem
      split_ifs at hmem with hkey
      · exact (h.2 old (List.mem_filter.mp hold).1 hmem).2.1 new hnew hkey
      · exact absurd rfl (of_decide_eq_true (List.mem_filter.mp hmem).2)
  · rcases List.mem_filter.mp hkept with ⟨hold, hbehind⟩
    rcases h.2 e hold hve with ⟨hhost, _, new, hnew, hlocated, hkey⟩
    unfold keptBehind at hbehind
    rw [Bool.and_eq_true, Bool.not_eq_true', Bool.not_eq_true', Bool.and_eq_false_iff,
      Bool.not_eq_false'] at hbehind
    have hany : observed.any (fun e' => FindingEvidence.truthy e'.host &&
        looseDetectorKey t e' == looseDetectorKey t e) = true :=
      List.any_eq_true.mpr ⟨new, hnew, by rw [hlocated, hkey, beq_self_eq_true, Bool.and_self]⟩
    rcases hbehind.2 with hlocated' | hnone
    · rw [hhost] at hlocated'
      cases hlocated'
    · exact absurd (hany.symm.trans hnone) (by decide)

theorem mergeDetectors_pairs {pairs : List (Option String × Option String)}
    (hfew : pairs.dedup.length ≤ maxDetectors)
    (hpairs : ∀ e, e ∈ existing ∨ e ∈ observed → pairOf e ∈ pairs) {e : Detector}
    (he : e ∈ existing ∨ e ∈ observed) :
    ∃ e' ∈ mergeDetectors t existing observed, pairOf e' = pairOf e := by
  rcases mergedOf_pair t he with ⟨merged, hmerged, hpair⟩
  have hall : ∀ e ∈ mergedOf t existing observed, pairOf e ∈ pairs := by
    intro e he
    rcases pair_of_mergedOf t he with ⟨before, hbefore, heq⟩
    rw [← heq]
    exact hpairs before hbefore
  rcases capDetectors_pairs hfew hall hmerged with ⟨e', he', hpair'⟩
  exact ⟨e', he', hpair'.trans hpair⟩

end Merge

section Histories

variable (t : Text)

theorem memory_append (start : List Detector) (folds : List Fold) (fold : Fold) :
    memory t start (folds ++ [fold]) = fold.apply t (memory t start folds) := by
  unfold memory
  rw [List.foldl_append]
  rfl

theorem mem_witnessed_append {start : List Detector} {folds : List Fold} {fold : Fold}
    {e : Detector} (he : e ∈ witnessed start (folds ++ [fold])) :
    e ∈ witnessed start folds ∨ e ∈ fold.observed := by
  unfold witnessed at he ⊢
  rw [List.flatMap_append, ← List.append_assoc, List.flatMap_singleton] at he
  exact List.mem_append.mp he

theorem memory_wellFormed {start : List Detector} {folds : List Fold} (hstart : WellFormed t start)
    (hfolds : ∀ fold ∈ folds, (fold.observed.map (detectorKey t)).Nodup) :
    WellFormed t (memory t start folds) := by
  induction folds using List.reverseRecOn with
  | nil => exact hstart
  | append_singleton folds fold ih =>
    have hheld := ih fun other hother => hfolds other (List.mem_append_left _ hother)
    have hobserved := hfolds fold (List.mem_append_right _ (List.mem_singleton_self fold))
    rw [memory_append]
    cases fold with
    | newer observed => exact mergeDetectors_wellFormed t hheld.distinct hobserved
    | older observed => exact mergeDetectors_wellFormed t hobserved hheld.distinct

theorem memory_pairs {start : List Detector} {folds : List Fold}
    {pairs : List (Option String × Option String)} (hfew : pairs.dedup.length ≤ maxDetectors)
    (hpairs : ∀ e ∈ witnessed start folds, pairOf e ∈ pairs) :
    (∀ e ∈ memory t start folds, pairOf e ∈ pairs) ∧
      ∀ e ∈ witnessed start folds, ∃ e' ∈ memory t start folds, pairOf e' = pairOf e := by
  induction folds using List.reverseRecOn with
  | nil =>
    unfold witnessed at hpairs ⊢
    rw [List.flatMap_nil, List.append_nil] at hpairs ⊢
    exact ⟨hpairs, fun e he => ⟨e, he, rfl⟩⟩
  | append_singleton folds fold ih =>
    have hwitnessed : ∀ e, e ∈ witnessed start folds ∨ e ∈ fold.observed →
        e ∈ witnessed start (folds ++ [fold]) := by
      intro e he
      unfold witnessed at he ⊢
      rw [List.flatMap_append, ← List.append_assoc, List.flatMap_singleton]
      exact List.mem_append.mpr he
    rcases ih fun e he => hpairs e (hwitnessed e (.inl he)) with ⟨hheld, hcovers⟩
    have hobserved : ∀ e ∈ fold.observed, pairOf e ∈ pairs :=
      fun e he => hpairs e (hwitnessed e (.inr he))
    have hboth : (∀ e ∈ fold.apply t (memory t start folds), pairOf e ∈ pairs) ∧
        ∀ e, e ∈ memory t start folds ∨ e ∈ fold.observed →
          ∃ e' ∈ fold.apply t (memory t start folds), pairOf e' = pairOf e := by
      cases fold with
      | newer observed =>
        have hall : ∀ e, e ∈ memory t start folds ∨ e ∈ observed → pairOf e ∈ pairs :=
          fun e he => he.elim (hheld e) (hobserved e)
        refine ⟨fun e he => ?_, fun e he => mergeDetectors_pairs t hfew hall he⟩
        rcases pair_of_mergeDetectors t he with ⟨before, hbefore, heq⟩
        exact heq ▸ hall before hbefore
      | older observed =>
        have hall : ∀ e, e ∈ observed ∨ e ∈ memory t start folds → pairOf e ∈ pairs :=
          fun e he => he.elim (hobserved e) (hheld e)
        refine ⟨fun e he => ?_, fun e he => mergeDetectors_pairs t hfew hall he.symm⟩
        rcases pair_of_mergeDetectors t he with ⟨before, hbefore, heq⟩
        exact heq ▸ hall before hbefore
    rw [memory_append]
    refine ⟨hboth.1, fun e he => ?_⟩
    rcases mem_witnessed_append he with hold | hnew
    · rcases hcovers e hold with ⟨held, hheld_mem, hpair⟩
      rcases hboth.2 held (.inl hheld_mem) with ⟨e', he', hpair'⟩
      exact ⟨e', he', hpair'.trans hpair⟩
    · exact hboth.2 e (.inr hnew)

theorem mem_union_append {xs ys : List Detector} {v : String} :
    v ∈ union (xs ++ ys) ↔ v ∈ union xs ∨ v ∈ union ys := by
  unfold union
  rw [List.flatMap_append, List.mem_append]

/-- What one fold does to the vantages: they stay, or are two known ones at least, or what is gone
is an unknown one that the fold forgets. -/
theorem apply_vantage (held : List Detector) (fold : Fold) {v : String}
    (hv : v ∈ union (held ++ fold.observed)) :
    v ∈ union (fold.apply t held) ∨ Mixed (fold.apply t held) ∨
      (v = unknownVantage ∧ fold.Forgets t held) := by
  rw [mem_union_append] at hv
  cases fold with
  | newer observed => exact mergeDetectors_vantage t hv
  | older observed => exact mergeDetectors_vantage t hv.symm

theorem apply_mixed (held : List Detector) (fold : Fold) (h : Mixed (held ++ fold.observed)) :
    Mixed (fold.apply t held) := by
  cases fold with
  | newer observed => exact mergeDetectors_mixed t h
  | older observed =>
    refine mergeDetectors_mixed t (h.mono fun v hv => ?_)
    exact mem_union_append.mpr (mem_union_append.mp hv).symm

theorem of_union_apply (held : List Detector) (fold : Fold) {v : String}
    (hv : v ∈ union (fold.apply t held)) : v ∈ union (held ++ fold.observed) := by
  cases fold with
  | newer observed => exact of_union_mergeDetectors t hv
  | older observed =>
    exact mem_union_append.mpr (mem_union_append.mp (of_union_mergeDetectors t hv)).symm

theorem unknown_of_apply (held : List Detector) (fold : Fold) (h : fold.Forgets t held) :
    unknownVantage ∉ union (fold.apply t held) := by
  cases fold with
  | newer observed => exact unknown_of_forgets t h
  | older observed => exact unknown_of_forgets t h

theorem Backfilled.mono {start : List Detector} {before : List Fold} {fold : Fold}
    {after : List Fold} (hseen : ∀ e ∈ (before ++ fold :: after).flatMap Fold.observed,
      unknownVantage ∉ vantagesOf e) (h : Backfilled t start (before ++ [fold])) :
    Backfilled t start (before ++ fold :: after) := by
  refine ⟨hseen, fun e he hunknown => ?_⟩
  rcases h.2 e he hunknown with ⟨hhost, hnone, new, hnew, hlocated, hkey⟩
  refine ⟨hhost, hnone, new, ?_, hlocated, hkey⟩
  rw [← List.singleton_append, ← List.append_assoc, List.flatMap_append]
  exact List.mem_append_left _ hnew

theorem known_of_forgets {held : List Detector} {fold : Fold} (h : fold.Forgets t held)
    (hunknown : unknownVantage ∈ union (held ++ fold.observed)) :
    ∃ v ∈ union (held ++ fold.observed), v ≠ unknownVantage := by
  have hforgets : ∀ existing observed : List Detector, Forgets t existing observed →
      unknownVantage ∈ union (existing ++ observed) →
        ∃ v ∈ union (existing ++ observed), v ≠ unknownVantage := by
    intro existing observed hforgets hin
    rcases List.mem_flatMap.mp hin with ⟨e, he, hve⟩
    rcases List.mem_append.mp he with hold | hnew
    · rcases hforgets.2 e hold hve with ⟨_, _, new, hnew, _⟩
      rcases List.exists_mem_of_ne_nil _ (vantagesOf_ne_nil new) with ⟨v, hv⟩
      exact ⟨v, List.mem_flatMap_of_mem (List.mem_append_right _ hnew) hv,
        fun heq => hforgets.1 new hnew (heq ▸ hv)⟩
    · exact absurd hve (hforgets.1 e hnew)
  cases fold with
  | newer observed => exact hforgets held observed h hunknown
  | older observed =>
    have hswap : ∀ v, v ∈ union (observed ++ held) ↔ v ∈ union (held ++ observed) := fun v =>
      mem_union_append.trans (or_comm.trans mem_union_append.symm)
    rcases hforgets observed held h ((hswap _).mpr hunknown) with ⟨v, hv, hne⟩
    exact ⟨v, (hswap v).mp hv, hne⟩

/-- A vantage of anything observed is held, or beside two known ones, or it is an unknown one that a
later fold forgets. -/
theorem memory_vantage (start : List Detector) (folds : List Fold) {e : Detector} {v : String}
    (he : e ∈ witnessed start folds) (hv : v ∈ vantagesOf e) :
    v ∈ union (memory t start folds) ∨ Mixed (memory t start folds) ∨
      (v = unknownVantage ∧ ∃ before fold after, folds = before ++ fold :: after ∧
        fold.Forgets t (memory t start before) ∧
        unknownVantage ∈ union (memory t start before ++ fold.observed) ∧
        ¬ Mixed (fold.apply t (memory t start before)) ∧
        (e ∈ folds.flatMap Fold.observed → e ∈ (before ++ [fold]).flatMap Fold.observed)) := by
  induction folds using List.reverseRecOn with
  | nil =>
    unfold witnessed at he
    rw [List.flatMap_nil, List.append_nil] at he
    exact .inl (List.mem_flatMap_of_mem he hv)
  | append_singleton folds fold ih =>
    rw [memory_append]
    by_cases hmixed : Mixed (fold.apply t (memory t start folds))
    · exact .inr (.inl hmixed)
    have hstep : v ∈ union (memory t start folds ++ fold.observed) →
        v ∈ union (fold.apply t (memory t start folds)) ∨
          (v = unknownVantage ∧ fold.Forgets t (memory t start folds)) := fun hin =>
      (apply_vantage t _ fold hin).imp_right fun h => h.resolve_left hmixed
    have hhere : v ∈ union (memory t start folds ++ fold.observed) →
        v = unknownVantage ∧ fold.Forgets t (memory t start folds) →
        v = unknownVantage ∧ ∃ before fold' after, folds ++ [fold] = before ++ fold' :: after ∧
          fold'.Forgets t (memory t start before) ∧
          unknownVantage ∈ union (memory t start before ++ fold'.observed) ∧
          ¬ Mixed (fold'.apply t (memory t start before)) ∧
          (e ∈ (folds ++ [fold]).flatMap Fold.observed →
            e ∈ (before ++ [fold']).flatMap Fold.observed) := fun hin h =>
      ⟨h.1, folds, fold, [], rfl, h.2, h.1 ▸ hin, hmixed, id⟩
    by_cases hnew : e ∈ fold.observed
    · have hin : v ∈ union (memory t start folds ++ fold.observed) :=
        mem_union_append.mpr (.inr (List.mem_flatMap_of_mem hnew hv))
      exact (hstep hin).imp_right fun h => .inr (hhere hin h)
    · rcases ih ((mem_witnessed_append he).resolve_right hnew) with hheld | hold | hgone
      · have hin : v ∈ union (memory t start folds ++ fold.observed) :=
          mem_union_append.mpr (.inl hheld)
        exact (hstep hin).imp_right fun h => .inr (hhere hin h)
      · exact absurd (apply_mixed t _ _ (hold.mono fun v hv => mem_union_append.mpr (.inl hv)))
          hmixed
      · rcases hgone with ⟨hunknown, before, fold', after, rfl, hforgets, hin, hpure, hseen⟩
        refine .inr (.inr ⟨hunknown, before, fold', after ++ [fold], by simp, hforgets, hin, hpure,
          fun hobserved => hseen ?_⟩)
        rw [List.flatMap_append, List.flatMap_singleton] at hobserved
        exact (List.mem_append.mp hobserved).resolve_right hnew

theorem single_of_pure {held : List Detector} {fold : Fold} {v : String}
    (hv : v ∈ union (held ++ fold.observed)) (hne : v ≠ unknownVantage)
    (hpure : ¬ Mixed (fold.apply t held)) : Single (held ++ fold.observed) := by
  refine ⟨v, hv, hne, fun w hw => ?_⟩
  by_contra hother
  rw [not_or] at hother
  exact hpure (apply_mixed t held fold ⟨v, hv, w, hw, fun h => hother.1 h.symm, hne, hother.2⟩)

/-- Where no fold loses an unknown vantage, a single vantage is what all was observed from. -/
theorem truthful_of_kept {start : List Detector} {folds : List Fold}
    (hkeeps : ∀ before fold after, folds = before ++ fold :: after → ¬ Loses t start before fold)
    {v : String} (hsingle : ∀ w, w ∈ union (memory t start folds) ↔ w = v) {w : String}
    (hw : w ∈ union (witnessed start folds)) :
    w = v ∨ (w = unknownVantage ∧ Backfilled t start folds) := by
  have hpure : ¬ Mixed (memory t start folds) := by
    rintro ⟨a, ha, b, hb, hne, _⟩
    exact hne (((hsingle a).mp ha).trans ((hsingle b).mp hb).symm)
  by_cases hsame : w = v
  · exact .inl hsame
  have hgone : ∀ e ∈ witnessed start folds, w ∈ vantagesOf e →
      w = unknownVantage ∧ ∃ before fold after, folds = before ++ fold :: after ∧
        Single (memory t start before ++ fold.observed) ∧
        fold.Forgets t (memory t start before) ∧
        (e ∈ folds.flatMap Fold.observed → e ∈ (before ++ [fold]).flatMap Fold.observed) := by
    intro e he hve
    rcases memory_vantage t start folds he hve with hin | hmixed | hforgotten
    · exact absurd ((hsingle w).mp hin) hsame
    · exact absurd hmixed hpure
    · rcases hforgotten with ⟨hunknown, before, fold, after, hfolds, hforgets, hin, hpure, hseen⟩
      rcases known_of_forgets t hforgets hin with ⟨known, hknown, hne⟩
      exact ⟨hunknown, before, fold, after, hfolds, single_of_pure t hknown hne hpure, hforgets,
        hseen⟩
  rcases List.mem_flatMap.mp hw with ⟨e, he, hve⟩
  have hunknown := (hgone e he hve).1
  refine .inr ⟨hunknown, ?_⟩
  by_contra hback
  by_cases hobserved : ∃ e ∈ folds.flatMap Fold.observed, unknownVantage ∈ vantagesOf e
  · rcases hobserved with ⟨seen, hseen, hcarries⟩
    have hmem : seen ∈ witnessed start folds := List.mem_append_right _ hseen
    rcases hgone seen hmem (hunknown ▸ hcarries) with
      ⟨_, before, fold, after, hfolds, hone, hforgets, hearlier⟩
    exact hkeeps before fold after hfolds
      ⟨hforgets, hone, fun h => h.1 seen (hearlier hseen) hcarries⟩
  · rcases hgone e he hve with ⟨_, before, fold, after, rfl, hone, hforgets, _⟩
    refine hkeeps before fold after rfl ⟨hforgets, hone, fun h => hback (h.mono t ?_)⟩
    exact fun e he hcarries => hobserved ⟨e, he, hcarries⟩

/-- A fold that loses an unknown vantage leaves a single one that not all was observed from. -/
theorem not_remembers_of_loses {start : List Detector} {before : List Fold} {fold : Fold}
    (h : Loses t start before fold) : ¬ Remembers t start (before ++ [fold]) := by
  intro hremembers
  rcases h with ⟨hforgets, ⟨v, hv, hne, hall⟩, hback⟩
  have hafter : ∀ w ∈ union (memory t start (before ++ [fold])), w = v := by
    intro w hw
    rw [memory_append] at hw
    rcases hall w (of_union_apply t _ fold hw) with rfl | rfl
    · rfl
    · exact absurd hw (unknown_of_apply t _ fold hforgets)
  have hheld : v ∈ union (memory t start (before ++ [fold])) := by
    rw [memory_append]
    rcases apply_vantage t _ fold hv with hin | ⟨a, ha, b, hb, hab, _⟩ | ⟨hunknown, _⟩
    · exact hin
    · rw [← memory_append] at ha hb
      exact absurd ((hafter a ha).trans (hafter b hb).symm) hab
    · exact absurd hunknown hne
  have hwitnessed : unknownVantage ∈ union (witnessed start (before ++ [fold])) := by
    by_contra hnone
    have hclean : ∀ e ∈ witnessed start (before ++ [fold]), unknownVantage ∉ vantagesOf e :=
      fun e he hcarries => hnone (List.mem_flatMap_of_mem he hcarries)
    exact hback ⟨fun e he => hclean e (List.mem_append_right _ he),
      fun e he hcarries => absurd hcarries (hclean e (List.mem_append_left _ he))⟩
  rcases hremembers.truthful v (fun w => ⟨hafter w, fun h => h ▸ hheld⟩) _ hwitnessed with heq | h
  · exact hne heq.symm
  · exact hback h.2

/-- The memory of a finding's detectors is capped, has one entry an endpoint, loses no pair while
all of them fit and shows a single vantage only where all was observed from it, in every state of a
history exactly where no fold of it loses an unknown vantage that was recorded. -/
theorem detectors_remember (start : List Detector) (folds : List Fold)
    (hstart : WellFormed t start)
    (hfolds : ∀ fold ∈ folds, (fold.observed.map (detectorKey t)).Nodup) :
    (∀ before after, folds = before ++ after → Remembers t start before) ↔
      ∀ before fold after, folds = before ++ fold :: after → ¬ Loses t start before fold := by
  constructor
  · rintro h before fold after rfl hloses
    refine not_remembers_of_loses t hloses (h (before ++ [fold]) after ?_)
    rw [List.append_assoc, List.singleton_append]
  · rintro h before after rfl
    refine ⟨?_, fun hfew => ?_, fun v hsingle w hw => ?_⟩
    · exact memory_wellFormed t hstart fun fold hfold =>
        hfolds fold (List.mem_append_left _ hfold)
    · exact (memory_pairs t hfew fun e he => List.mem_map_of_mem he).2
    · refine truthful_of_kept t (fun first fold rest heq => ?_) hsingle hw
      exact h first fold (rest ++ after) (by rw [heq]; simp)

def hostless : Detector where
  detector := some nuclei
  ref := some "exposed-panel"
  host := none
  port := some "443"
  protocol := none
  ruleset := none
  lastRunId := some "run-1"
  lastSeenAt := some 1
  agentId := none
  agentGroup := none
  vantage := none
  vantages := []

def located : Detector :=
  { hostless with
    host := some "192.0.2.10"
    lastRunId := some "run-2"
    lastSeenAt := some 2
    vantage := some "group:a" }

def locatedLater : List Fold := [.newer [hostless], .newer [located]]

theorem detectors_remember_located :
    Remembers asciiLibrary.toText [hostless] [.newer [located]] := by
  have hkeeps : ∀ before fold after, [Fold.newer [located]] = before ++ fold :: after →
      ¬ Loses asciiLibrary.toText [hostless] before fold := by
    rintro before fold after h ⟨_, _, hback⟩
    obtain ⟨rfl, rfl⟩ : before = [] ∧ fold = .newer [located] := by
      cases before with
      | nil => exact ⟨rfl, (List.cons.inj h).1.symm⟩
      | cons first rest => cases rest <;> simp at h
    refine hback ⟨?_, ?_⟩
    · decide +kernel
    · intro e he _
      rw [List.mem_singleton.mp he]
      exact ⟨rfl, rfl, located, List.mem_singleton_self _, by decide, by decide +kernel⟩
  refine (detectors_remember asciiLibrary.toText [hostless] [.newer [located]] ?_ ?_).mpr hkeeps
    [.newer [located]] [] rfl
  · exact ⟨by decide, List.nodup_singleton _⟩
  · intro fold hfold
    rw [List.mem_singleton.mp hfold]
    exact List.nodup_singleton _

/-- With nothing backfilled, one vantage is left of two: the observed unknown one is forgotten. -/
theorem unknown_observation_forgotten : ¬ Remembers asciiLibrary.toText [] locatedLater := by
  have hheld : union (memory asciiLibrary.toText [] locatedLater) = ["group:a"] := by
    decide +kernel
  have hseen : unknownVantage ∈ union (witnessed [] locatedLater) := by decide +kernel
  intro h
  rcases h.truthful "group:a" (fun w => by rw [hheld, List.mem_singleton]) unknownVantage hseen with
    heq | ⟨_, hback⟩
  · exact absurd heq (by decide)
  · exact hback.1 hostless (by decide) (by decide +kernel)

end Histories

end Shapoclyack.DetectorMemory
