import Mathlib
import Shapoclyack.Library.BreadthFirst
import Shapoclyack.ResumedBatches

set_option autoImplicit false

namespace Shapoclyack.SpfCycles

open Library.BreadthFirst
open ResumedBatches (Line isSpace strip)

section Terms

/-- `partition`: what is before the first separator, and what is after it. -/
def partition (sep : Char) (text : Line) : Line × Line :=
  (text.takeWhile (· ≠ sep), (text.dropWhile (· ≠ sep)).drop 1)

def txtValues (raws : List Line) : List Line :=
  raws.filterMap fun raw =>
    let text := strip raw
    let text :=
      if text.head? = some '"' ∧ text.getLast? = some '"' ∧ 2 ≤ text.length then
        (text.drop 1).dropLast
      else text
    let text := strip text
    if text = [] then none else some text

def spfVersion : Line := ['v', '=', 's', 'p', 'f', '1']

def spfRecords (lower : Line → Line) (values : List Line) : List Line :=
  values.filter fun value => spfVersion <+: lower value

def spfTerms (record : Line) : List Line := ((record.splitOnP isSpace).filter (· ≠ [])).drop 1

def spfTermName (lower : Line → Line) (term : Line) : Line × Line :=
  let body :=
    match term with
    | [] => []
    | c :: rest => if c ∈ ['-', '~', '?', '+'] then rest else term
  let sep := if '=' ∈ body ∧ ':' ∉ (partition '=' body).1 then '=' else ':'
  let (name, value) := partition sep body
  (lower (strip name), lower (strip value))

def includeName : Line := ['i', 'n', 'c', 'l', 'u', 'd', 'e']

def redirectName : Line := ['r', 'e', 'd', 'i', 'r', 'e', 'c', 't']

def spfLookupTerms : List Line :=
  [['a'], ['m', 'x'], ['p', 't', 'r'], ['e', 'x', 'i', 's', 't', 's'], includeName]

end Terms

section Walking

def spfMaxLookups : ℕ := 10

def spfMaxDepth : ℕ := 10

structure Walk where
  visited : List Line
  parentOf : List (Line × Line)
  lookups : ℕ
  cycles : List Line
  nextNames : List Line

/-- The walk up from a name, which stops at what it has seen. -/
def climbFor (parentOf : List (Line × Line)) (candidate : Line) :
    ℕ → Option Line → List Line → Bool
  | 0, _, _ => false
  | _ + 1, none, _ => false
  | fuel + 1, some walker, seen =>
    if walker ∈ seen then false
    else if walker = candidate then true
    else climbFor parentOf candidate fuel (parentOf.lookup walker) (walker :: seen)

/-- `_is_ancestor`; no walk up is longer than the table of parents and one. -/
def isAncestor (parentOf : List (Line × Line)) (candidate ofName : Line) : Bool :=
  climbFor parentOf candidate (parentOf.length + 1) (some ofName) []

def edgeText (owner value : Line) : Line := owner ++ ['-', '>'] ++ value

variable (lower : Line → Line)

def readTerm (owner : Line) (w : Walk) (term : Line) : Walk :=
  let (name, value) := spfTermName lower term
  if name ∉ spfLookupTerms ∧ name ≠ redirectName then w
  else
    let w := { w with lookups := w.lookups + 1 }
    if (name ≠ includeName ∧ name ≠ redirectName) ∨ value = [] then w
    else if isAncestor w.parentOf value owner then
      { w with cycles := w.cycles ++ [edgeText owner value] }
    else if value ∈ w.visited then w
    else
      { w with
        visited := value :: w.visited
        parentOf := (value, owner) :: w.parentOf
        nextNames := w.nextNames ++ [value] }

def readRecord (w : Walk) (entry : Line × Line) : Walk :=
  (spfTerms entry.2).foldl (readTerm lower entry.1) w

/-- What the lookup of a batch answers: the texts of each name, none where it fails. -/
abbrev Dnsx := List Line → Option (Line → List Line)

def walkLevels (dnsx : Dnsx) : ℕ → ℕ → List (Line × Line) → Walk → ℕ × Walk
  | 0, depth, _, w => (depth, w)
  | left + 1, depth, frontier, w =>
    let w := frontier.foldl (readRecord lower) { w with nextNames := [] }
    if w.nextNames = [] ∨ spfMaxLookups < w.lookups then (depth + 1, w)
    else
      match dnsx w.nextNames with
      | none => (depth + 1, w)
      | some answers =>
        let frontier := w.nextNames.filterMap fun name =>
          (spfRecords lower (txtValues (answers name))).head?.map (name, ·)
        if frontier = [] then (depth + 1, w) else walkLevels dnsx left (depth + 1) frontier w

structure Evaluation where
  lookups : ℕ
  lookupLimitExceeded : Bool
  depth : ℕ
  depthLimitReached : Bool
  cycles : List Line
  visited : List Line

def sortedTexts (texts : List Line) : List Line := texts.dedup.insertionSort (· ≤ ·)

def evaluateSpf (dnsx : Dnsx) (domain record : Line) : Evaluation :=
  let (depth, w) := walkLevels lower dnsx spfMaxDepth 0 [(domain, record)] ⟨[domain], [], 0, [], []⟩
  { lookups := w.lookups
    lookupLimitExceeded := spfMaxLookups < w.lookups
    depth
    depthLimitReached := spfMaxDepth ≤ depth
    cycles := sortedTexts w.cycles
    visited := sortedTexts w.visited }

end Walking

section Graph

variable (lower : Line → Line) (txt : Line → List Line) (domain record : Line)

def recordOf (name : Line) : Option Line :=
  if name = domain then some record else (spfRecords lower (txtValues (txt name))).head?

def termsOf (name : Line) : List Line :=
  match recordOf lower txt domain record name with
  | some text => spfTerms text
  | none => []

def costs (term : Line) : Bool :=
  (spfTermName lower term).1 ∈ spfLookupTerms ∨ (spfTermName lower term).1 = redirectName

def edgeOf (term : Line) : Option Line :=
  let (name, value) := spfTermName lower term
  if (name = includeName ∨ name = redirectName) ∧ value ≠ [] then some value else none

/-- The names a record includes or redirects to, in the order of its terms. -/
def named (name : Line) : List Line :=
  (termsOf lower txt domain record name).filterMap (edgeOf lower)

def lookupsOf (name : Line) : ℕ := (termsOf lower txt domain record name).countP (costs lower)

def Leads (a b : Line) : Prop := b ∈ named lower txt domain record a

def Reachable (name : Line) : Prop :=
  Relation.ReflTransGen (Leads lower txt domain record) domain name

/-- A directed cycle is reachable from the root. -/
def Cyclic : Prop :=
  ∃ name, Reachable lower txt domain record name ∧
    Relation.TransGen (Leads lower txt domain record) name name

/-- The records within reach cost no more lookups than the limit. -/
def WithinLimits : Prop :=
  ∀ names : Finset Line, (∀ name ∈ names, Reachable lower txt domain record name) →
    ∑ name ∈ names, lookupsOf lower txt domain record name ≤ spfMaxLookups

/-- A record that names one on its own first route from the root, or itself. -/
def NamesBack (owner value : Line) : Prop :=
  ∃ up, First (named lower txt domain record) domain (owner :: up) ∧
    value ∈ named lower txt domain record owner ∧ value ∈ owner :: up

def Resolves (dnsx : Dnsx) : Prop :=
  ∀ names, ∃ answers, dnsx names = some answers ∧ ∀ name ∈ names, answers name = txt name

end Graph

section Ancestors

variable {parents : List (Line × Line)} {domain candidate name : Line}

theorem climbFor_eq (h : Rooted domain parents)
    (hname : (⟨parents, []⟩ : SearchTree Line).Known domain name) {fuel : ℕ} {seen : List Line}
    (hfuel : (climb parents name).length ≤ fuel) (hseen : ∀ x ∈ climb parents name, x ∉ seen) :
    climbFor parents candidate fuel (some name) seen = decide (candidate ∈ climb parents name) := by
  induction fuel generalizing name seen with
  | zero =>
    obtain ⟨up, hup⟩ := climb_head parents name
    rw [hup] at hfuel
    simp at hfuel
  | succ fuel ih =>
    obtain ⟨up, hup⟩ := climb_head parents name
    have hself : name ∉ seen := hseen name (by simp [hup])
    have hstep := climb_eq h hname
    unfold climbFor
    rw [if_neg hself]
    by_cases hfound : name = candidate
    · rw [if_pos hfound, hup, hfound]
      simp
    · rw [if_neg hfound]
      cases hlookup : parents.lookup name with
      | none =>
        rw [hlookup] at hstep
        simp only at hstep
        rw [hstep]
        cases fuel <;> simp [climbFor, Ne.symm hfound]
      | some owner =>
        rw [hlookup] at hstep
        simp only at hstep
        have hnodup := nodup_climb h hname
        rw [hstep] at hfuel hseen hnodup ⊢
        rw [List.length_cons] at hfuel
        rw [List.nodup_cons] at hnodup
        rw [ih (h.known_lookup hlookup) (by omega)]
        · simp [Ne.symm hfound]
        · intro x hx
          rw [List.mem_cons, not_or]
          refine ⟨?_, hseen x (List.mem_cons_of_mem _ hx)⟩
          rintro rfl
          exact hnodup.1 hx

/-- The ancestors of a name are those on its way up. -/
theorem isAncestor_iff (h : Rooted domain parents)
    (hname : (⟨parents, []⟩ : SearchTree Line).Known domain name) :
    isAncestor parents candidate name = true ↔ candidate ∈ climb parents name := by
  unfold isAncestor
  rw [climbFor_eq h hname (length_climb parents name) fun _ _ => List.not_mem_nil,
    decide_eq_true_eq]

end Ancestors

section Levels

variable {lower : Line → Line} {txt : Line → List Line} {domain record owner term : Line}
  {w : Walk} {t : SearchTree Line}

structure Matches (domain : Line) (w : Walk) (t : SearchTree Line) : Prop where
  visited : ∀ name, name ∈ w.visited ↔ t.Known domain name
  parentOf : w.parentOf = t.parents
  nextNames : w.nextNames = t.fresh

theorem costs_of_edge {value : Line} (h : edgeOf lower term = some value) :
    costs lower term = true := by
  unfold edgeOf at h
  unfold costs
  simp only at h
  split at h
  · rename_i hname
    rw [decide_eq_true_eq]
    rcases hname.1 with hname | hname
    · rw [hname]
      decide
    · exact .inr hname
  · cases h

theorem readTerm_edge {value : Line} (h : edgeOf lower term = some value) :
    readTerm lower owner w term =
      let w := { w with lookups := w.lookups + 1 }
      if isAncestor w.parentOf value owner then
        { w with cycles := w.cycles ++ [edgeText owner value] }
      else if value ∈ w.visited then w
      else
        { w with
          visited := value :: w.visited
          parentOf := (value, owner) :: w.parentOf
          nextNames := w.nextNames ++ [value] } := by
  have hcosts := costs_of_edge h
  unfold edgeOf at h
  unfold costs at hcosts
  unfold readTerm
  rw [decide_eq_true_eq] at hcosts
  simp only at h ⊢
  split at h
  · rename_i hname
    rw [Option.some.injEq] at h
    have hcosting : ¬ ((spfTermName lower term).1 ∉ spfLookupTerms ∧
        (spfTermName lower term).1 ≠ redirectName) := fun hout => hcosts.elim hout.1 hout.2
    have hleading : ¬ (((spfTermName lower term).1 ≠ includeName ∧
        (spfTermName lower term).1 ≠ redirectName) ∨ (spfTermName lower term).2 = []) := by
      rintro (⟨hinclude, hredirect⟩ | hempty)
      · exact hname.1.elim hinclude hredirect
      · exact hname.2 hempty
    rw [if_neg hcosting, if_neg hleading, h]
  · cases h

theorem readTerm_plain (h : edgeOf lower term = none) :
    readTerm lower owner w term =
      { w with lookups := w.lookups + if costs lower term then 1 else 0 } := by
  unfold edgeOf at h
  unfold readTerm costs
  simp only [decide_eq_true_eq] at h ⊢
  split at h
  · cases h
  · rename_i hname
    by_cases hcosts : (spfTermName lower term).1 ∉ spfLookupTerms ∧
        (spfTermName lower term).1 ≠ redirectName
    · rw [if_pos hcosts, if_neg fun h => h.elim hcosts.1 hcosts.2]
      rfl
    · have hcosting : (spfTermName lower term).1 ∈ spfLookupTerms ∨
          (spfTermName lower term).1 = redirectName := by
        rw [not_and_or, not_not, ne_eq, not_not] at hcosts
        exact hcosts
      have hstaying : ((spfTermName lower term).1 ≠ includeName ∧
          (spfTermName lower term).1 ≠ redirectName) ∨ (spfTermName lower term).2 = [] := by
        rw [not_and_or, not_or, not_not] at hname
        exact hname
      rw [if_neg hcosts, if_pos hstaying, if_pos hcosting]

theorem matches_plain (hm : Matches domain w t) (lookups : ℕ) (cycles : List Line) :
    Matches domain { w with lookups := lookups, cycles := cycles } t :=
  ⟨hm.visited, hm.parentOf, hm.nextNames⟩

theorem readTerm_lands (hm : Matches domain w t) (hrooted : Rooted domain t.parents)
    (howner : t.Known domain owner) :
    Matches domain (readTerm lower owner w term)
        ((edgeOf lower term).toList.foldl (visit domain owner) t) ∧
      (readTerm lower owner w term).lookups =
        w.lookups + (if costs lower term then 1 else 0) ∧
      ∀ c, c ∈ (readTerm lower owner w term).cycles ↔
        c ∈ w.cycles ∨ ∃ value ∈ (edgeOf lower term).toList,
          value ∈ climb t.parents owner ∧ c = edgeText owner value := by
  cases hedge : edgeOf lower term with
  | none =>
    rw [readTerm_plain hedge]
    exact ⟨matches_plain hm _ _, rfl, fun c => by simp⟩
  | some value =>
    have hancestor : isAncestor w.parentOf value owner = true ↔
        value ∈ climb t.parents owner := by
      rw [hm.parentOf]
      exact isAncestor_iff hrooted howner
    rw [readTerm_edge hedge, costs_of_edge hedge]
    simp only [Option.toList_some, List.foldl_cons, List.foldl_nil, List.mem_singleton,
      exists_eq_left, if_true]
    by_cases hup : value ∈ climb t.parents owner
    · -- An ancestor is known, so that the tree stays as it is.
      have hknown : t.Known domain value := known_climb hrooted howner hup
      rw [if_pos (hancestor.mpr hup), visit, if_pos hknown]
      refine ⟨matches_plain hm _ _, rfl, ?_⟩
      intro c
      simp only [List.mem_append, List.mem_singleton, hup, true_and]
    · rw [if_neg (fun h => hup (hancestor.mp h))]
      by_cases hknown : t.Known domain value
      · rw [if_pos ((hm.visited value).mpr hknown), visit, if_pos hknown]
        refine ⟨matches_plain hm _ _, rfl, ?_⟩
        intro c
        simp only [hup, false_and, or_false]
      · rw [if_neg fun h => hknown ((hm.visited value).mp h), visit, if_neg hknown]
        refine ⟨⟨?_, ?_, ?_⟩, rfl, ?_⟩
        · intro name
          rw [List.mem_cons, known_cons, hm.visited name]
        · simp only [hm.parentOf]
        · simp only [hm.nextNames]
        · intro c
          simp only [hup, false_and, or_false]

theorem readTerms_land {terms : List Line} (hm : Matches domain w t)
    (hrooted : Rooted domain t.parents) (howner : t.Known domain owner) :
    Matches domain (terms.foldl (readTerm lower owner) w)
        ((terms.filterMap (edgeOf lower)).foldl (visit domain owner) t) ∧
      (terms.foldl (readTerm lower owner) w).lookups = w.lookups + terms.countP (costs lower) ∧
      ∀ c, c ∈ (terms.foldl (readTerm lower owner) w).cycles ↔
        c ∈ w.cycles ∨ ∃ value ∈ terms.filterMap (edgeOf lower),
          value ∈ climb t.parents owner ∧ c = edgeText owner value := by
  induction terms generalizing w t with
  | nil => exact ⟨hm, rfl, fun c => by simp⟩
  | cons term terms ih =>
    obtain ⟨hmatches, hlookups, hcycles⟩ :=
      @readTerm_lands lower domain owner term w t hm hrooted howner
    have hkeeps := @foldl_visit_keeps _ _ domain t owner owner (edgeOf lower term).toList howner
    obtain ⟨hmatches', hlookups', hcycles'⟩ :=
      ih hmatches (rooted_foldl_visit hrooted howner) hkeeps.1
    have hsplit : (term :: terms).filterMap (edgeOf lower) =
        (edgeOf lower term).toList ++ terms.filterMap (edgeOf lower) := by
      rw [List.filterMap_cons]
      cases edgeOf lower term <;> rfl
    rw [List.foldl_cons, hsplit, List.foldl_append]
    refine ⟨hmatches', ?_, ?_⟩
    · rw [hlookups', hlookups, List.countP_cons]
      omega
    · intro c
      rw [hcycles', hcycles, hkeeps.2]
      simp only [List.mem_append, or_and_right, exists_or, or_assoc]

def frontierOf (lower : Line → Line) (txt : Line → List Line) (domain record : Line)
    (names : List Line) : List (Line × Line) :=
  names.filterMap fun name => (recordOf lower txt domain record name).map (name, ·)

/-- A level leaves the walk with the names of all its owners visited. -/
theorem readLevel_lands {names : List Line} (hm : Matches domain w t)
    (hrooted : Rooted domain t.parents) (hknown : ∀ name ∈ names, t.Known domain name) :
    let read := (frontierOf lower txt domain record names).foldl (readRecord lower) w
    Matches domain read (names.foldl (visitOwner (named lower txt domain record) domain) t) ∧
      read.lookups = w.lookups + (names.map (lookupsOf lower txt domain record)).sum ∧
      ∀ c, c ∈ read.cycles ↔
        c ∈ w.cycles ∨ ∃ owner ∈ names, ∃ value ∈ named lower txt domain record owner,
          value ∈ climb t.parents owner ∧ c = edgeText owner value := by
  induction names generalizing w t with
  | nil => exact ⟨hm, rfl, fun c => by simp [frontierOf]⟩
  | cons name names ih =>
    have hname := hknown name List.mem_cons_self
    have hkeeps : ∀ x, t.Known domain x → _ := fun x hx =>
      @foldl_visit_keeps _ _ domain t name x
        ((termsOf lower txt domain record name).filterMap (edgeOf lower)) hx
    obtain ⟨hmatches, hlookups, hcycles⟩ := @readTerms_land lower domain name w t
      (termsOf lower txt domain record name) hm hrooted hname
    obtain ⟨hmatches', hlookups', hcycles'⟩ := ih hmatches (rooted_foldl_visit hrooted hname)
      fun x hx => (hkeeps x (hknown x (List.mem_cons_of_mem _ hx))).1
    have hread : (frontierOf lower txt domain record (name :: names)).foldl (readRecord lower) w =
        (frontierOf lower txt domain record names).foldl (readRecord lower)
          ((termsOf lower txt domain record name).foldl (readTerm lower name) w) := by
      unfold frontierOf termsOf
      rw [List.filterMap_cons]
      cases recordOf lower txt domain record name <;> rfl
    rw [hread]
    refine ⟨hmatches', ?_, ?_⟩
    · rw [hlookups', hlookups, List.map_cons, List.sum_cons]
      unfold lookupsOf
      omega
    · intro c
      rw [hcycles', hcycles, List.exists_mem_cons_iff, or_assoc]
      refine or_congr_right (or_congr_right ?_)
      constructor
      · rintro ⟨owner, howner, value, hvalue, hup, heq⟩
        rw [(hkeeps owner (hknown owner (List.mem_cons_of_mem _ howner))).2] at hup
        exact ⟨owner, howner, value, hvalue, hup, heq⟩
      · rintro ⟨owner, howner, value, hvalue, hup, heq⟩
        refine ⟨owner, howner, value, hvalue, ?_, heq⟩
        rw [(hkeeps owner (hknown owner (List.mem_cons_of_mem _ howner))).2]
        exact hup

end Levels

section Runs

variable {lower : Line → Line} {txt : Line → List Line} {domain record : Line}

/-- The walk after some levels, with the names it has explored. -/
structure Explored (lower : Line → Line) (txt : Line → List Line) (domain record : Line)
    (depth : ℕ) (t : SearchTree Line) (w : Walk) (explored : List Line) : Prop where
  grown : Grown (named lower txt domain record) domain depth t
  rooted : Rooted domain t.parents
  agrees : Matches domain w t
  nodup : explored.Nodup
  mem : ∀ name, name ∈ explored ↔
    t.Known domain name ∧ (climb t.parents name).length ≤ depth
  lookups : w.lookups = (explored.map (lookupsOf lower txt domain record)).sum
  cycles : ∀ c, c ∈ w.cycles ↔
    ∃ owner ∈ explored, ∃ value ∈ named lower txt domain record owner,
      value ∈ climb t.parents owner ∧ c = edgeText owner value

theorem explored_root :
    Explored lower txt domain record 0 ⟨[], [domain]⟩ ⟨[domain], [], 0, [], [domain]⟩ [] := by
  refine ⟨grown_root, .nil, ⟨?_, rfl, rfl⟩, List.nodup_nil, ?_, rfl, fun c => by simp⟩
  · intro name
    simp [SearchTree.Known]
  · intro name
    simp [climb]

variable {depth : ℕ} {t : SearchTree Line} {w : Walk} {explored : List Line}

theorem Explored.nodup_fresh (h : Explored lower txt domain record depth t w explored) :
    (explored ++ t.fresh).Nodup := by
  rw [List.nodup_append]
  refine ⟨h.nodup, ?_, ?_⟩
  · refine h.grown.sorted.imp fun {a b} hab => ?_
    rintro rfl
    exact Sooner.irrefl hab
  · rintro a ha b hb rfl
    have hshort := ((h.mem a).mp ha).2
    have hlong := ((h.grown.level a).mp hb).2
    omega

theorem Explored.level (h : Explored lower txt domain record depth t w explored) :
    Explored lower txt domain record (depth + 1)
      (grow (named lower txt domain record) domain t)
      ((frontierOf lower txt domain record t.fresh).foldl (readRecord lower)
        { w with nextNames := [] }) (explored ++ t.fresh) := by
  have hfresh : ∀ name ∈ t.fresh, t.Known domain name := fun name hname =>
    ((h.grown.level name).mp hname).1
  have hstart : Matches domain { w with nextNames := [] } { t with fresh := [] } :=
    ⟨h.agrees.visited, h.agrees.parentOf, rfl⟩
  obtain ⟨hmatches, hlookups, hcycles⟩ := @readLevel_lands lower txt domain record _ _ t.fresh
    hstart h.rooted hfresh
  have hgrowing := growing_grow h.grown
  have hkeeps : ∀ name ∈ explored ++ t.fresh, t.Known domain name := by
    intro name hname
    rcases List.mem_append.mp hname with hname | hname
    · exact ((h.mem name).mp hname).1
    · exact hfresh name hname
  refine ⟨h.grown.grow, rooted_grow h.rooted hfresh, hmatches, h.nodup_fresh, ?_, ?_, ?_⟩
  · intro name
    constructor
    · intro hname
      obtain ⟨hknown, hclimb⟩ := hgrowing.keeps name (hkeeps name hname)
      refine ⟨hknown, ?_⟩
      rw [hclimb]
      exact h.grown.short name (hkeeps name hname)
    · rintro ⟨hknown, hlength⟩
      rcases hgrowing.added name hknown with hold | hnew
      · rw [(hgrowing.keeps name hold).2] at hlength
        rcases hlength.lt_or_eq with hlt | heq
        · exact List.mem_append_left _ ((h.mem name).mpr ⟨hold, Nat.le_of_lt_succ hlt⟩)
        · exact List.mem_append_right _ ((h.grown.level name).mpr ⟨hold, heq⟩)
      · have := ((h.grown.grow.level name).mp hnew).2
        omega
  · rw [hlookups, List.map_append, List.sum_append]
    exact congrArg (· + _) h.lookups
  · intro c
    rw [hcycles]
    have hbefore := h.cycles c
    simp only [List.mem_append, or_and_right, exists_or]
    refine or_congr (hbefore.trans ?_) ?_
    · refine exists_congr fun owner => and_congr_right fun howner => ?_
      rw [(hgrowing.keeps owner (hkeeps owner (List.mem_append_left _ howner))).2]
    · refine exists_congr fun owner => and_congr_right fun howner => ?_
      rw [(hgrowing.keeps owner (hkeeps owner (List.mem_append_right _ howner))).2]

theorem lookups_pos {name value : Line} (h : value ∈ named lower txt domain record name) :
    1 ≤ lookupsOf lower txt domain record name := by
  obtain ⟨term, hterm, hedge⟩ := List.mem_filterMap.mp h
  exact List.countP_pos_iff.mpr ⟨term, hterm, costs_of_edge hedge⟩

theorem Explored.reachable (h : Explored lower txt domain record depth t w explored) {name : Line}
    (hname : t.Known domain name) : Reachable lower txt domain record name := by
  have hroute := (h.grown.first name hname).isRoute
  obtain ⟨up, hup⟩ := climb_head t.parents name
  have hroot := hroute.root_mem
  rw [hup] at hroute hroot
  exact hroute.reaches hroot

theorem Explored.lookups_le (h : Explored lower txt domain record depth t w explored)
    (hwithin : WithinLimits lower txt domain record) : w.lookups ≤ spfMaxLookups := by
  rw [h.lookups, ← List.sum_toFinset _ h.nodup]
  refine hwithin explored.toFinset fun name hname => ?_
  exact h.reachable ((h.mem name).mp (List.mem_toFinset.mp hname)).1

theorem lookups_of_route {route : List Line}
    (h : Route (named lower txt domain record) domain route) :
    ∀ name ∈ route.tail, 1 ≤ lookupsOf lower txt domain record name := by
  induction h with
  | root =>
    intro name hname
    cases hname
  | step before hstop ih =>
    intro name hname
    rcases List.mem_cons.mp hname with rfl | hname
    · exact lookups_pos hstop
    · exact ih name hname

theorem Explored.silent_of_deep (h : Explored lower txt domain record spfMaxDepth t w explored)
    (hwithin : WithinLimits lower txt domain record) :
    ∀ name ∈ t.fresh, named lower txt domain record name = [] := by
  intro name hname
  obtain ⟨hknown, hlength⟩ := (h.grown.level name).mp hname
  by_contra hnamed
  obtain ⟨value, rest, hvalue⟩ := List.exists_cons_of_ne_nil hnamed
  obtain ⟨up, hup⟩ := climb_head t.parents name
  have htail := lookups_of_route (h.grown.first name hknown).isRoute
  have hcosts : ∀ x ∈ (climb t.parents name).toFinset,
      1 ≤ lookupsOf lower txt domain record x := by
    intro x hx
    rw [List.mem_toFinset, hup, List.mem_cons] at hx
    rcases hx with rfl | hx
    · exact lookups_pos (by rw [hvalue]; exact List.mem_cons_self)
    · exact htail x (by rw [hup]; exact hx)
  have hcard : (climb t.parents name).toFinset.card = spfMaxDepth + 1 := by
    rw [List.toFinset_card_of_nodup (nodup_climb h.rooted hknown), hlength]
  have hle := hwithin (climb t.parents name).toFinset fun x hx =>
    h.reachable (known_climb h.rooted hknown (List.mem_toFinset.mp hx))
  have hge := Finset.card_nsmul_le_sum _ _ 1 hcosts
  rw [hcard, smul_eq_mul, mul_one] at hge
  exact absurd (hge.trans hle) (by decide)

theorem frontier_next {answers : Line → List Line} {names : List Line}
    (hanswers : ∀ name ∈ names, answers name = txt name) (hroot : domain ∉ names) :
    names.filterMap
        (fun name => (spfRecords lower (txtValues (answers name))).head?.map (name, ·)) =
      frontierOf lower txt domain record names := by
  refine List.filterMap_congr fun name hname => ?_
  have hne : name ≠ domain := fun heq => hroot (heq ▸ hname)
  unfold recordOf
  rw [if_neg hne, hanswers name hname]

theorem silent_of_frontier {names : List Line}
    (h : frontierOf lower txt domain record names = []) :
    ∀ name ∈ names, named lower txt domain record name = [] := by
  intro name hname
  have hnone := List.filterMap_eq_nil_iff.mp h name hname
  rw [Option.map_eq_none_iff] at hnone
  unfold named termsOf
  rw [hnone]
  rfl

/-- The walk ends with every record that leads somewhere explored. -/
theorem walkLevels_explored {dnsx : Dnsx} (hwithin : WithinLimits lower txt domain record)
    (hresolves : Resolves txt dnsx) {left : ℕ} (hleft : left + depth = spfMaxDepth)
    (h : Explored lower txt domain record depth t w explored) :
    ∃ depth' t' explored', Explored lower txt domain record depth' t'
        (walkLevels lower dnsx left depth (frontierOf lower txt domain record t.fresh) w).2
        explored' ∧
      ∀ name ∈ t'.fresh, named lower txt domain record name = [] := by
  induction left generalizing depth t w explored with
  | zero =>
    rw [Nat.zero_add] at hleft
    subst hleft
    exact ⟨_, t, explored, h, h.silent_of_deep hwithin⟩
  | succ left ih =>
    have hlevel := h.level
    have hlookups := hlevel.lookups_le hwithin
    have hroot : domain ∉ (grow (named lower txt domain record) domain t).fresh := fun hmem =>
      ((growing_grow h.grown).fresh domain hmem).1 (.inl rfl)
    unfold walkLevels
    simp only
    generalize hread : (frontierOf lower txt domain record t.fresh).foldl (readRecord lower)
      { w with nextNames := [] } = read at hlevel hlookups ⊢
    have hnames := hlevel.agrees.nextNames
    by_cases hend : read.nextNames = [] ∨ spfMaxLookups < read.lookups
    · rw [if_pos hend]
      refine ⟨_, _, _, hlevel, ?_⟩
      rcases hend with hend | hend
      · rw [← hnames, hend]
        exact fun name hname => by cases hname
      · exact absurd hlookups (not_le.mpr hend)
    · rw [if_neg hend]
      obtain ⟨answers, hdnsx, hanswers⟩ := hresolves read.nextNames
      have hfrontier := @frontier_next lower txt domain record answers read.nextNames hanswers
        (hnames ▸ hroot)
      simp only [hdnsx, hfrontier]
      by_cases hnone : frontierOf lower txt domain record read.nextNames = []
      · rw [if_pos hnone]
        exact ⟨_, _, _, hlevel, hnames ▸ silent_of_frontier hnone⟩
      · rw [if_neg hnone, hnames]
        exact ih (by omega) hlevel

theorem Explored.known_of_reachable (h : Explored lower txt domain record depth t w explored)
    (hsilent : ∀ name ∈ t.fresh, named lower txt domain record name = []) {name : Line}
    (hname : Reachable lower txt domain record name) : t.Known domain name := by
  induction hname with
  | refl => exact .inl rfl
  | @tail above below _ hleads ih =>
    obtain ⟨up, hup⟩ := climb_head t.parents above
    have hroute := (h.grown.first above ih).isRoute
    have hlength := h.grown.short above ih
    have hshort : (climb t.parents above).length ≠ depth + 1 := by
      intro heq
      have hnone := hsilent above ((h.grown.level above).mpr ⟨ih, heq⟩)
      unfold Leads at hleads
      rw [hnone] at hleads
      cases hleads
    rw [hup] at hroute hlength hshort
    exact h.grown.complete below _ (hroute.step hleads) (by omega)

/-- The loops reported are those of the records that name one on their own first route. -/
theorem mem_cycles {dnsx : Dnsx} (hwithin : WithinLimits lower txt domain record)
    (hresolves : Resolves txt dnsx) (c : Line) :
    c ∈ (evaluateSpf lower dnsx domain record).cycles ↔
      ∃ owner value, NamesBack lower txt domain record owner value ∧
        c = edgeText owner value := by
  have hstart : frontierOf lower txt domain record [domain] = [(domain, record)] := by
    simp [frontierOf, recordOf]
  obtain ⟨depth, t, explored, hexplored, hsilent⟩ :=
    walkLevels_explored hwithin hresolves (show spfMaxDepth + 0 = spfMaxDepth from rfl)
      explored_root
  simp only [hstart] at hexplored
  have hmem : c ∈ (evaluateSpf lower dnsx domain record).cycles ↔
      c ∈ (walkLevels lower dnsx spfMaxDepth 0 [(domain, record)]
        ⟨[domain], [], 0, [], [domain]⟩).2.cycles := by
    unfold evaluateSpf sortedTexts
    exact (List.perm_insertionSort _ _).mem_iff.trans List.mem_dedup
  rw [hmem, hexplored.cycles]
  constructor
  · rintro ⟨owner, howner, value, hvalue, hup, rfl⟩
    obtain ⟨up, hclimb⟩ := climb_head t.parents owner
    have hfirst := hexplored.grown.first owner ((hexplored.mem owner).mp howner).1
    rw [hclimb] at hfirst hup
    exact ⟨owner, value, ⟨up, hfirst, hvalue, hup⟩, rfl⟩
  · rintro ⟨owner, value, ⟨up, hfirst, hvalue, hup⟩, rfl⟩
    have hreach : Reachable lower txt domain record owner :=
      hfirst.isRoute.reaches hfirst.isRoute.root_mem
    have hknown := hexplored.known_of_reachable hsilent hreach
    obtain ⟨up', hclimb⟩ := climb_head t.parents owner
    have hsame : climb t.parents owner = owner :: up :=
      (hexplored.grown.first owner hknown).unique hfirst (by simp [hclimb])
    refine ⟨owner, (hexplored.mem owner).mpr ⟨hknown, ?_⟩, value, hvalue, hsame ▸ hup, rfl⟩
    have hlength := hexplored.grown.short owner hknown
    have hne : (climb t.parents owner).length ≠ depth + 1 := by
      intro heq
      rw [hsilent owner ((hexplored.grown.level owner).mpr ⟨hknown, heq⟩)] at hvalue
      cases hvalue
    omega

theorem NamesBack.cyclic {owner value : Line} (h : NamesBack lower txt domain record owner value) :
    Cyclic lower txt domain record := by
  obtain ⟨up, hfirst, hvalue, hup⟩ := h
  refine ⟨owner, hfirst.isRoute.reaches hfirst.isRoute.root_mem, ?_⟩
  exact Relation.TransGen.head' hvalue (hfirst.isRoute.reaches hup)

/-- Within the limits a reachable loop is reported exactly where some record names one on its own
first route from the root. -/
theorem reports_iff {dnsx : Dnsx} (hwithin : WithinLimits lower txt domain record)
    (hresolves : Resolves txt dnsx) :
    ((evaluateSpf lower dnsx domain record).cycles ≠ [] ↔ Cyclic lower txt domain record) ↔
      (Cyclic lower txt domain record →
        ∃ owner value, NamesBack lower txt domain record owner value) := by
  have hreports : (evaluateSpf lower dnsx domain record).cycles ≠ [] ↔
      ∃ owner value, NamesBack lower txt domain record owner value := by
    constructor
    · intro hne
      obtain ⟨c, rest, hcons⟩ := List.exists_cons_of_ne_nil hne
      obtain ⟨owner, value, hback, -⟩ := (mem_cycles hwithin hresolves c).mp (by simp [hcons])
      exact ⟨owner, value, hback⟩
    · rintro ⟨owner, value, hback⟩
      exact List.ne_nil_of_mem ((mem_cycles hwithin hresolves (edgeText owner value)).mpr
        ⟨owner, value, hback, rfl⟩)
  have hsound : (∃ owner value, NamesBack lower txt domain record owner value) →
      Cyclic lower txt domain record := fun h => by
    obtain ⟨owner, value, hback⟩ := h
    exact hback.cyclic
  rw [hreports]
  exact ⟨Iff.mpr, fun h => ⟨hsound, h⟩⟩

def including (names : List Line) : Line :=
  spfVersion ++ names.flatMap fun name => ' ' :: includeName ++ ':' :: name

def twins (name : Line) : List Line :=
  if name = ['a'] then [including [['b']]] else if name = ['b'] then [including [['a']]] else []

def overTwins : Line := including [['a'], ['b']]

theorem twins_reachable {name : Line} (h : Reachable id twins ['r'] overTwins name) :
    name = ['r'] ∨ name = ['a'] ∨ name = ['b'] := by
  have hroot : named id twins ['r'] overTwins ['r'] = [['a'], ['b']] := by decide
  have ha : named id twins ['r'] overTwins ['a'] = [['b']] := by decide
  have hb : named id twins ['r'] overTwins ['b'] = [['a']] := by decide
  induction h with
  | refl => exact .inl rfl
  | tail _ hleads ih =>
    unfold Leads at hleads
    rcases ih with rfl | rfl | rfl
    · rw [hroot] at hleads
      simpa using Or.inr (List.mem_cons.mp hleads)
    · rw [ha, List.mem_singleton] at hleads
      exact .inr (.inr hleads)
    · rw [hb, List.mem_singleton] at hleads
      exact .inr (.inl hleads)

theorem twins_within : WithinLimits id twins ['r'] overTwins := by
  intro names hnames
  have hsub : names ⊆ {['r'], ['a'], ['b']} := by
    intro name hname
    simpa using twins_reachable (hnames name hname)
  refine (Finset.sum_le_sum_of_subset hsub).trans ?_
  decide

theorem twins_resolve : Resolves twins fun _ => some twins := fun _ =>
  ⟨twins, rfl, fun _ _ => rfl⟩

theorem reports_iff_twins :
    ((evaluateSpf id (fun _ => some twins) ['r'] overTwins).cycles ≠ [] ↔
        Cyclic id twins ['r'] overTwins) ↔
      (Cyclic id twins ['r'] overTwins →
        ∃ owner value, NamesBack id twins ['r'] overTwins owner value) :=
  reports_iff twins_within twins_resolve

/-- The loop between the twins is not reported. -/
theorem twins_missed :
    (evaluateSpf id (fun _ => some twins) ['r'] overTwins).cycles = [] ∧
      Cyclic id twins ['r'] overTwins ∧ WithinLimits id twins ['r'] overTwins := by
  have hstep : Leads id twins ['r'] overTwins ['r'] ['a'] := by
    unfold Leads
    decide
  have hthere : Leads id twins ['r'] overTwins ['a'] ['b'] := by
    unfold Leads
    decide
  have hback : Leads id twins ['r'] overTwins ['b'] ['a'] := by
    unfold Leads
    decide
  refine ⟨by decide, ⟨['a'], .single hstep, ?_⟩, twins_within⟩
  exact (Relation.TransGen.single hthere).tail hback

end Runs

end Shapoclyack.SpfCycles
