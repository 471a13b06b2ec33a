import Mathlib
import Shapoclyack.ClientIp
import Shapoclyack.ScopeDocuments

set_option autoImplicit false

namespace Shapoclyack.PublicSuffixes

open ClientIp (ipAddress)
open ResumedBatches (Line strip)
open ScopeDocuments (withoutLast)

section Model

/-- The rules of one reading of the list: plain, `*.base`, and exceptions. -/
structure RuleSet where
  rules : List Line
  wildcards : List Line
  exceptions : List Line

def isLabelChar (c : Char) : Bool := c.isLower || c.isDigit || c == '_' || c == '-'

/-- `_LABEL_RE`; the pattern's end is also before a newline that ends the label. -/
def isLabel (label : Line) : Bool :=
  let body := withoutLast '\n' label
  body != [] && decide (body.length ≤ 63) && body.all isLabelChar &&
    body.head? != some '-' && body.getLast? != some '-'

def join (labels : List Line) : Line := ['.'].intercalate labels

variable (lower punycode : Line → Line)

def asciiLabel (label : Line) : Line :=
  if label.all fun c => decide (c.toNat < 128) then label
  else 'x' :: 'n' :: '-' :: '-' :: punycode label

/-- `_labels`: the labels as given and their ASCII forms, none where the name is no host name. -/
def labelsOf (name : Line) : Option (List Line × List Line) :=
  let candidate := lower ((strip name).rdropWhile fun c => c == '.')
  if candidate = [] ∨ 253 < candidate.length then none
  else if (ipAddress candidate).isSome then none
  else
    let labels := candidate.splitOn '.'
    let ascii := labels.map (asciiLabel punycode)
    if ascii.all isLabel then some (labels, ascii) else none

def suffixLength (set : RuleSet) (labels : List Line) : ℕ :=
  let count := labels.length
  match (List.range count).find? fun start =>
      decide (join (labels.drop start) ∈ set.exceptions) with
  | some start => count - start - 1
  | none =>
    match (List.range count).find? fun start =>
        decide (join (labels.drop start) ∈ set.rules) ||
          (decide (start + 1 < count) &&
            decide (join (labels.drop (start + 1)) ∈ set.wildcards)) with
    | some start => count - start
    | none => 1

def registrableDomain (set : RuleSet) (name : Line) : Line :=
  match labelsOf lower punycode name with
  | none => []
  | some (labels, ascii) =>
    let size := suffixLength set ascii
    if labels.length ≤ size then [] else join (labels.drop (labels.length - (size + 1)))

end Model

section Purpose

def parts (rule : Line) : List Line := rule.splitOn '.'

def Matches (rule : Line) (labels : List Line) : Prop := parts rule <:+ labels

/-- A base matches with one more label before it. -/
def MatchesWild (base : Line) (labels : List Line) : Prop :=
  Matches base labels ∧ (parts base).length < labels.length

/-- The public suffix has so many labels: one less than the longest exception that matches, or as
many as the longest rule that matches, of which `*` always does. -/
def IsSuffixLength (set : RuleSet) (labels : List Line) (size : ℕ) : Prop :=
  (∃ rule ∈ set.exceptions, Matches rule labels ∧ (parts rule).length = size + 1 ∧
    ∀ other ∈ set.exceptions, Matches other labels → (parts other).length ≤ size + 1) ∨
  ((∀ rule ∈ set.exceptions, ¬ Matches rule labels) ∧
    (size = 1 ∨ (∃ rule ∈ set.rules, Matches rule labels ∧ (parts rule).length = size) ∨
      ∃ base ∈ set.wildcards, MatchesWild base labels ∧ (parts base).length + 1 = size) ∧
    1 ≤ size ∧ (∀ rule ∈ set.rules, Matches rule labels → (parts rule).length ≤ size) ∧
    ∀ base ∈ set.wildcards, MatchesWild base labels → (parts base).length + 1 ≤ size)

end Purpose

section Labels

variable {set : RuleSet} {labels shorter : List Line} {size other : ℕ}

theorem not_mem_of_mem_splitOn {c : Char} {text part : Line} (h : part ∈ text.splitOn c) :
    c ∉ part := by
  induction text generalizing part with
  | nil =>
    rw [List.splitOn_nil, List.mem_singleton] at h
    rw [h]
    exact List.not_mem_nil
  | cons first rest ih =>
    rw [List.splitOn_cons_eq_if_modifyHead] at h
    split_ifs at h with hfirst
    · obtain rfl | hrest := List.mem_cons.mp h
      · exact List.not_mem_nil
      · exact ih hrest
    · obtain ⟨head, tail, hsplit⟩ := List.exists_cons_of_ne_nil (List.splitOn_ne_nil c rest)
      rw [hsplit, List.modifyHead_cons] at h
      obtain rfl | htail := List.mem_cons.mp h
      · have hhead : c ∉ head := ih (hsplit ▸ List.mem_cons_self)
        intro hc
        obtain rfl | hin := List.mem_cons.mp hc
        · exact hfirst (beq_self_eq_true c)
        · exact hhead hin
      · exact ih (hsplit ▸ List.mem_cons_of_mem _ htail)

theorem parts_join (hdots : ∀ label ∈ labels, '.' ∉ label) (hne : labels ≠ []) :
    parts (join labels) = labels :=
  List.splitOn_intercalate '.' hdots hne

theorem join_parts (rule : Line) : join (parts rule) = rule := List.intercalate_splitOn '.'

theorem parts_ne_nil (rule : Line) : parts rule ≠ [] := List.splitOn_ne_nil '.' rule

theorem parts_pos (rule : Line) : 0 < (parts rule).length :=
  List.length_pos_of_ne_nil (parts_ne_nil rule)

theorem isLabel_no_dot {label : Line} (h : isLabel label = true) : '.' ∉ label := by
  unfold isLabel at h
  simp only [Bool.and_eq_true] at h
  have hall := List.all_eq_true.mp h.1.1.2
  intro hdot
  have hbody : '.' ∈ withoutLast '\n' label := by
    unfold withoutLast
    split_ifs with hlast
    · obtain ⟨front, rfl⟩ := List.getLast?_eq_some_iff.mp hlast
      rw [List.dropLast_concat]
      obtain hin | hin := List.mem_append.mp hdot
      · exact hin
      · simp at hin
    · exact hdot
  exact absurd (hall _ hbody) (by decide)

theorem drop_eq_of_suffix {tail : List Line} (h : tail <:+ labels) :
    tail = labels.drop (labels.length - tail.length) := List.suffix_iff_eq_drop.mp h

theorem matches_of_join (hdots : ∀ label ∈ labels, '.' ∉ label) {rules : List Line} {start : ℕ}
    (hstart : start < labels.length) (h : join (labels.drop start) ∈ rules) :
    ∃ rule ∈ rules, Matches rule labels ∧ (parts rule).length = labels.length - start := by
  have hne : labels.drop start ≠ [] := by
    rw [Ne, List.drop_eq_nil_iff]
    omega
  have hparts : parts (join (labels.drop start)) = labels.drop start :=
    parts_join (fun label hlabel => hdots label (List.mem_of_mem_drop hlabel)) hne
  refine ⟨_, h, ?_, ?_⟩
  · unfold Matches
    rw [hparts]
    exact List.drop_suffix _ _
  · rw [hparts, List.length_drop]

theorem join_of_matches {rules : List Line} {rule : Line} (hrule : rule ∈ rules)
    (h : Matches rule labels) :
    join (labels.drop (labels.length - (parts rule).length)) ∈ rules := by
  rw [← drop_eq_of_suffix h, join_parts]
  exact hrule

theorem Matches.place {rule : Line} (h : Matches rule labels) :
    labels.length - (parts rule).length < labels.length := by
  have hlength := h.length_le
  have hpos := parts_pos rule
  omega

/-- `_suffix_length` finds the length that the algorithm asks for. -/
theorem suffixLength_spec (hdots : ∀ label ∈ labels, '.' ∉ label) :
    IsSuffixLength set labels (suffixLength set labels) := by
  unfold suffixLength
  dsimp only
  cases hexception : (List.range labels.length).find? fun start =>
      decide (join (labels.drop start) ∈ set.exceptions) with
  | some start =>
    obtain ⟨hheld, hrange, hbefore⟩ := List.find?_range_eq_some.mp hexception
    have hstart := List.mem_range.mp hrange
    obtain ⟨rule, hrule, hmatch, hlength⟩ := matches_of_join hdots hstart (of_decide_eq_true hheld)
    refine .inl ⟨rule, hrule, hmatch, ?_, fun longer hlonger hmatches => ?_⟩
    · dsimp only
      omega
    · dsimp only
      by_contra hlong
      have hplace := hmatches.length_le
      have hearlier := hbefore (labels.length - (parts longer).length) (by omega)
      rw [Bool.not_eq_true', decide_eq_false_iff_not] at hearlier
      exact hearlier (join_of_matches hlonger hmatches)
  | none =>
    have hnone : ∀ rule ∈ set.exceptions, ¬ Matches rule labels := by
      intro rule hrule hmatch
      have hmissing := List.find?_range_eq_none.mp hexception _ hmatch.place
      rw [Bool.not_eq_true', decide_eq_false_iff_not] at hmissing
      exact hmissing (join_of_matches hrule hmatch)
    dsimp only
    cases hrule : (List.range labels.length).find? fun start =>
        decide (join (labels.drop start) ∈ set.rules) ||
          (decide (start + 1 < labels.length) &&
            decide (join (labels.drop (start + 1)) ∈ set.wildcards)) with
    | some start =>
      obtain ⟨hheld, hrange, hbefore⟩ := List.find?_range_eq_some.mp hrule
      have hstart := List.mem_range.mp hrange
      refine .inr ⟨hnone, ?_, ?_, fun rule hmem hmatch => ?_, fun base hmem hmatch => ?_⟩
      · obtain hplain | hwild := Bool.or_eq_true_iff.mp hheld
        · obtain ⟨rule, hmem, hmatch, hlength⟩ :=
            matches_of_join hdots hstart (of_decide_eq_true hplain)
          exact .inr (.inl ⟨rule, hmem, hmatch, hlength⟩)
        · obtain ⟨hinside, hbase⟩ := Bool.and_eq_true_iff.mp hwild
          have hlater := of_decide_eq_true hinside
          obtain ⟨base, hmem, hmatch, hlength⟩ :=
            matches_of_join hdots hlater (of_decide_eq_true hbase)
          exact .inr (.inr ⟨base, hmem, ⟨hmatch, by omega⟩, by dsimp only; omega⟩)
      · dsimp only
        omega
      · by_contra hlong
        dsimp only at hlong
        have hplace := hmatch.length_le
        have hearlier := hbefore (labels.length - (parts rule).length) (by omega)
        rw [Bool.not_eq_true', Bool.or_eq_false_iff, decide_eq_false_iff_not] at hearlier
        exact hearlier.1 (join_of_matches hmem hmatch)
      · by_contra hlong
        dsimp only at hlong
        have hpos := parts_pos base
        have hlength := hmatch.2
        have hearlier := hbefore (labels.length - (parts base).length - 1) (by omega)
        rw [Bool.not_eq_true', Bool.or_eq_false_iff, Bool.and_eq_false_iff,
          decide_eq_false_iff_not, decide_eq_false_iff_not] at hearlier
        have hplace : labels.length - (parts base).length - 1 + 1 =
            labels.length - (parts base).length := by omega
        rw [hplace] at hearlier
        obtain houtside | hmissing := hearlier.2
        · exact houtside hmatch.1.place
        · exact of_decide_eq_false hmissing (join_of_matches hmem hmatch.1)
    | none =>
      have hmissing := List.find?_range_eq_none.mp hrule
      refine .inr ⟨hnone, .inl rfl, le_refl 1, fun rule hmem hmatch => ?_,
        fun base hmem hmatch => ?_⟩
      · have hplace := hmissing _ hmatch.place
        rw [Bool.not_eq_true', Bool.or_eq_false_iff, decide_eq_false_iff_not] at hplace
        exact absurd (join_of_matches hmem hmatch) hplace.1
      · have hpos := parts_pos base
        have hlength := hmatch.2
        have hearlier := hmissing (labels.length - (parts base).length - 1) (by omega)
        rw [Bool.not_eq_true', Bool.or_eq_false_iff, Bool.and_eq_false_iff,
          decide_eq_false_iff_not, decide_eq_false_iff_not] at hearlier
        have hplace : labels.length - (parts base).length - 1 + 1 =
            labels.length - (parts base).length := by omega
        rw [hplace] at hearlier
        obtain houtside | hgone := hearlier.2
        · exact absurd hmatch.1.place houtside
        · exact absurd (join_of_matches hmem hmatch.1) (of_decide_eq_false hgone)

theorem IsSuffixLength.le (h : IsSuffixLength set labels size)
    (h' : IsSuffixLength set labels other) : size ≤ other := by
  obtain ⟨rule, hrule, hmatch, hlength, _⟩ | ⟨hnone, hsize, _⟩ := h
  · obtain ⟨_, _, _, _, hbound⟩ | ⟨hnone', _⟩ := h'
    · have hle := hbound rule hrule hmatch
      omega
    · exact absurd hmatch (hnone' rule hrule)
  · obtain ⟨rule', hrule', hmatch', _⟩ | ⟨_, _, hpos, hrules, hwild⟩ := h'
    · exact absurd hmatch' (hnone rule' hrule')
    · obtain rfl | ⟨rule, hrule, hmatch, rfl⟩ | ⟨base, hbase, hmatch, rfl⟩ := hsize
      · exact hpos
      · exact hrules rule hrule hmatch
      · exact hwild base hbase hmatch

theorem IsSuffixLength.unique (h : IsSuffixLength set labels size)
    (h' : IsSuffixLength set labels other) : size = other := le_antisymm (h.le h') (h'.le h)

theorem IsSuffixLength.shorten (h : IsSuffixLength set labels size)
    (hshorter : shorter <:+ labels) (hsize : size < shorter.length) :
    IsSuffixLength set shorter size := by
  have hup : ∀ rule, Matches rule shorter → Matches rule labels := fun rule hmatch =>
    List.IsSuffix.trans hmatch hshorter
  have hdown : ∀ rule, Matches rule labels → (parts rule).length ≤ shorter.length →
      Matches rule shorter := fun rule hmatch hlength =>
    List.suffix_of_suffix_length_le hmatch hshorter hlength
  have hlength := hshorter.length_le
  obtain ⟨rule, hrule, hmatch, hcount, hbound⟩ | ⟨hnone, hreached, hpos, hrules, hwild⟩ := h
  · exact .inl ⟨rule, hrule, hdown rule hmatch (by omega), hcount,
      fun longer hlonger hmatches => hbound longer hlonger (hup longer hmatches)⟩
  · refine .inr ⟨fun rule hrule hmatch => hnone rule hrule (hup rule hmatch), ?_, hpos,
      fun rule hrule hmatch => hrules rule hrule (hup rule hmatch),
      fun base hbase hmatch => hwild base hbase ⟨hup base hmatch.1, by
        have hinside := hmatch.2
        omega⟩⟩
    obtain hone | ⟨rule, hrule, hmatch, hcount⟩ | ⟨base, hbase, hmatch, hcount⟩ := hreached
    · exact .inl hone
    · exact .inr (.inl ⟨rule, hrule, hdown rule hmatch (by omega), hcount⟩)
    · exact .inr (.inr ⟨base, hbase, ⟨hdown base hmatch.1 (by omega), by omega⟩, hcount⟩)

end Labels

section Names

variable {lower punycode : Line → Line} {set : RuleSet} {name longer : Line}
  {labels front ascii ascii' : List Line} {size : ℕ}

theorem labelsOf_some (h : labelsOf lower punycode name = some (labels, ascii)) :
    ascii = labels.map (asciiLabel punycode) ∧ labels ≠ [] ∧ (∀ label ∈ labels, '.' ∉ label) ∧
      ∀ label ∈ ascii, isLabel label = true := by
  unfold labelsOf at h
  dsimp only at h
  split_ifs at h with hbounds haddress hall
  obtain ⟨rfl, rfl⟩ := Prod.mk.inj (Option.some.inj h)
  exact ⟨rfl, List.splitOn_ne_nil _ _, fun label hlabel => not_mem_of_mem_splitOn hlabel,
    List.all_eq_true.mp hall⟩

theorem registrableDomain_of (h : labelsOf lower punycode name = some (labels, ascii))
    (hsize : IsSuffixLength set ascii size) : registrableDomain lower punycode set name =
      if labels.length ≤ size then [] else join (labels.drop (labels.length - (size + 1))) := by
  obtain ⟨_, _, _, hlabels⟩ := labelsOf_some h
  have hspec := @suffixLength_spec set ascii fun label hlabel =>
    isLabel_no_dot (hlabels label hlabel)
  unfold registrableDomain
  rw [h]
  dsimp only
  rw [hspec.unique hsize]

theorem labelsOf_nil : labelsOf lower punycode [] ≠ some (parts [], ascii) := by
  intro h
  obtain ⟨rfl, _, _, hall⟩ := labelsOf_some h
  have hempty := hall [] (by simp [parts, asciiLabel])
  exact absurd hempty (by decide)

theorem registrableDomain_nil (h : lower [] = []) :
    registrableDomain lower punycode set [] = [] := by
  have hname : labelsOf lower punycode [] = none := by
    unfold labelsOf
    exact if_pos (.inl h)
  unfold registrableDomain
  rw [hname]

theorem parts_drop (hdots : ∀ label ∈ labels, '.' ∉ label) {start : ℕ}
    (hstart : start < labels.length) : parts (join (labels.drop start)) = labels.drop start := by
  refine parts_join (fun label hlabel => hdots label (List.mem_of_mem_drop hlabel)) ?_
  rw [Ne, List.drop_eq_nil_iff]
  omega

/-- A result that reads back as the host name it spells is its own registrable domain. -/
theorem registrableDomain_again (hread : labelsOf lower punycode
    (registrableDomain lower punycode set name) =
      some (parts (registrableDomain lower punycode set name), ascii')) :
    registrableDomain lower punycode set (registrableDomain lower punycode set name) =
      registrableDomain lower punycode set name := by
  cases hname : labelsOf lower punycode name with
  | none =>
    have hnil : registrableDomain lower punycode set name = [] := by
      unfold registrableDomain
      rw [hname]
    rw [hnil] at hread
    exact absurd hread labelsOf_nil
  | some found =>
    obtain ⟨labels, ascii⟩ := found
    obtain ⟨rfl, _, hdots, hall⟩ := labelsOf_some hname
    have hspec := @suffixLength_spec set (labels.map (asciiLabel punycode)) fun label hlabel =>
      isLabel_no_dot (hall label hlabel)
    have hresult := registrableDomain_of hname hspec
    generalize suffixLength set (labels.map (asciiLabel punycode)) = size at hspec hresult
    split_ifs at hresult with hshort
    · rw [hresult] at hread
      exact absurd hread labelsOf_nil
    · have hparts := @parts_drop labels hdots (labels.length - (size + 1)) (by omega)
      rw [hresult] at hread ⊢
      rw [hparts] at hread
      obtain ⟨rfl, _⟩ := labelsOf_some hread
      have hlength : (labels.drop (labels.length - (size + 1))).length = size + 1 := by
        rw [List.length_drop]
        omega
      have hsuffix : (labels.drop (labels.length - (size + 1))).map (asciiLabel punycode) <:+
          labels.map (asciiLabel punycode) := by
        rw [List.map_drop]
        exact List.drop_suffix _ _
      have hshorter := hspec.shorten hsuffix (by rw [List.length_map, hlength]; omega)
      rw [registrableDomain_of hread hshorter, hlength, if_neg (by omega), Nat.sub_self,
        List.drop_zero]

/-- A name with labels before it has the same registrable domain where the suffix of the longer
name leaves a label of the shorter one, and nowhere else. -/
theorem registrableDomain_prepend (hname : labelsOf lower punycode name = some (labels, ascii))
    (hlonger : labelsOf lower punycode longer = some (front ++ labels, ascii'))
    (hne : registrableDomain lower punycode set name ≠ []) :
    registrableDomain lower punycode set longer = registrableDomain lower punycode set name ↔
      ∃ size < labels.length, IsSuffixLength set ascii' size := by
  obtain ⟨rfl, _, hdots, hall⟩ := labelsOf_some hname
  obtain ⟨rfl, _, hdots', hall'⟩ := labelsOf_some hlonger
  have hspec := @suffixLength_spec set (labels.map (asciiLabel punycode)) fun label hlabel =>
    isLabel_no_dot (hall label hlabel)
  have hspec' := @suffixLength_spec set ((front ++ labels).map (asciiLabel punycode))
    fun label hlabel => isLabel_no_dot (hall' label hlabel)
  have hresult := registrableDomain_of hname hspec
  have hresult' := registrableDomain_of hlonger hspec'
  generalize suffixLength set (labels.map (asciiLabel punycode)) = size at hspec hresult
  generalize suffixLength set ((front ++ labels).map (asciiLabel punycode)) = size' at *
  have hsuffix : labels.map (asciiLabel punycode) <:+
      (front ++ labels).map (asciiLabel punycode) := by
    rw [List.map_append]
    exact List.suffix_append _ _
  have hsize : size < labels.length := by
    by_contra hlong
    rw [if_pos (Nat.not_lt.mp hlong)] at hresult
    exact hne hresult
  rw [if_neg (Nat.not_le.mpr hsize)] at hresult
  rw [List.length_append] at hresult'
  constructor
  · intro hsame
    refine ⟨size', ?_, hspec'⟩
    rw [hresult, hresult'] at hsame
    split_ifs at hsame with hshort
    · exact absurd (hresult.trans hsame.symm) hne
    · have hparts := @parts_drop labels hdots (labels.length - (size + 1)) (by omega)
      have hparts' := @parts_drop (front ++ labels) hdots'
        (front.length + labels.length - (size' + 1)) (by rw [List.length_append]; omega)
      have hlists := congrArg List.length (hparts'.symm.trans ((congrArg parts hsame).trans hparts))
      rw [List.length_drop, List.length_drop, List.length_append] at hlists
      omega
  · rintro ⟨held, hheld, hlength⟩
    obtain rfl := hlength.unique hspec'
    have hshorter := hlength.shorten hsuffix (by rw [List.length_map]; exact hheld)
    obtain rfl := hshorter.unique hspec
    rw [hresult, hresult', if_neg (by omega)]
    have hplace : front.length + labels.length - (held + 1) =
        front.length + (labels.length - (held + 1)) := by omega
    rw [hplace, List.drop_length_add_append]

end Names

section Results

variable (lower punycode : Line → Line) (set : RuleSet)

/-- `registrable_domain` is the algorithm of the list; a result that reads back as a host name is
its own, and labels before a name change nothing where the suffix of the longer name leaves a label
of the name. -/
theorem registrableDomain_algorithm (name : Line) :
    (labelsOf lower punycode name = none → registrableDomain lower punycode set name = []) ∧
    (∀ labels ascii, labelsOf lower punycode name = some (labels, ascii) →
      ∃ size, IsSuffixLength set ascii size ∧
        (∀ other, IsSuffixLength set ascii other → other = size) ∧
        registrableDomain lower punycode set name =
          if labels.length ≤ size then []
          else join (labels.drop (labels.length - (size + 1)))) ∧
    (∀ ascii, labelsOf lower punycode (registrableDomain lower punycode set name) =
        some (parts (registrableDomain lower punycode set name), ascii) →
      registrableDomain lower punycode set (registrableDomain lower punycode set name) =
        registrableDomain lower punycode set name) ∧
    (lower [] = [] → registrableDomain lower punycode set [] = []) ∧
    ∀ longer labels front ascii ascii', labelsOf lower punycode name = some (labels, ascii) →
      labelsOf lower punycode longer = some (front ++ labels, ascii') →
      registrableDomain lower punycode set name ≠ [] →
      (registrableDomain lower punycode set longer = registrableDomain lower punycode set name ↔
        ∃ size < labels.length, IsSuffixLength set ascii' size) := by
  refine ⟨fun hnone => ?_, fun labels ascii hname => ?_, fun ascii hread => ?_,
    registrableDomain_nil, fun longer labels front ascii ascii' hname hlonger hne => ?_⟩
  · unfold registrableDomain
    rw [hnone]
  · obtain ⟨_, _, _, hall⟩ := labelsOf_some hname
    have hspec := @suffixLength_spec set ascii fun label hlabel =>
      isLabel_no_dot (hall label hlabel)
    exact ⟨_, hspec, fun other hother => hother.unique hspec, registrableDomain_of hname hspec⟩
  · exact registrableDomain_again hread
  · exact registrableDomain_prepend hname hlonger hne

def hosting : RuleSet := ⟨["com".toList, "s3.amazonaws.com".toList], [], []⟩

def numbered : RuleSet := ⟨["2.3.4".toList], [], []⟩

def hostedDomain (name : Line) : Line :=
  registrableDomain (List.map Char.toLower) id hosting name

theorem hosted_read : ∀ name ∈ ["b.example.com", "a.b.example.com", "example.com", "amazonaws.com",
    "x.s3.amazonaws.com"].map String.toList,
    labelsOf (List.map Char.toLower) id name = some (parts name, parts name) := by
  decide +kernel

theorem hostedDomain_example : hostedDomain "b.example.com".toList = "example.com".toList := by
  decide +kernel

theorem registrableDomain_hosting :
    (∃ size, IsSuffixLength hosting (parts "b.example.com".toList) size ∧
        hostedDomain "b.example.com".toList = if 3 ≤ size then [] else
          join ((parts "b.example.com".toList).drop (3 - (size + 1)))) ∧
      hostedDomain (hostedDomain "b.example.com".toList) = hostedDomain "b.example.com".toList ∧
      (∃ size < 3, IsSuffixLength hosting (parts "a.b.example.com".toList) size) ∧
      ¬ ∃ size < 2, IsSuffixLength hosting (parts "x.s3.amazonaws.com".toList) size := by
  have hlaws := @registrableDomain_algorithm (List.map Char.toLower) id hosting
  obtain ⟨_, hspec, hagain, _, hprepend⟩ := hlaws "b.example.com".toList
  obtain ⟨_, _, _, _, hhosted⟩ := hlaws "amazonaws.com".toList
  have hname := hosted_read "b.example.com".toList (by simp)
  refine ⟨?_, ?_, ?_, ?_⟩
  · obtain ⟨size, hsize, _, heq⟩ := hspec _ _ hname
    exact ⟨size, hsize, heq⟩
  · refine hagain (parts "example.com".toList) ?_
    change labelsOf _ _ (hostedDomain _) = some (parts (hostedDomain _), _)
    rw [hostedDomain_example]
    exact hosted_read _ (by simp)
  · exact (hprepend _ _ ["a".toList] _ _ hname (hosted_read "a.b.example.com".toList (by simp))
      (by decide +kernel)).mp (by decide +kernel)
  · exact mt (hhosted _ _ ["x".toList, "s3".toList] _ _
      (hosted_read "amazonaws.com".toList (by simp))
      (hosted_read "x.s3.amazonaws.com".toList (by simp)) (by decide +kernel)).mpr
        (by decide +kernel)

/-- Labels before a name can bring a longer rule in, and a result can be an address. -/
theorem registrableDomain_unstable :
    registrableDomain (List.map Char.toLower) id hosting "amazonaws.com".toList =
        "amazonaws.com".toList ∧
      registrableDomain (List.map Char.toLower) id hosting "x.s3.amazonaws.com".toList =
        "x.s3.amazonaws.com".toList ∧
      registrableDomain (List.map Char.toLower) id numbered "a.1.2.3.4".toList =
        "1.2.3.4".toList ∧
      registrableDomain (List.map Char.toLower) id numbered "1.2.3.4".toList = [] := by
  decide +kernel

end Results

end Shapoclyack.PublicSuffixes
