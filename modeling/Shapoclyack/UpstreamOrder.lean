import Shapoclyack.EvrPrinting
import Shapoclyack.VersionElements

set_option autoImplicit false

namespace Shapoclyack.UpstreamOrder

open Advisories VersionCompare VersionElements RetroMatch
open EvrPrinting (Stripped strip_of_stripped)

section Words

/-- `_TOKEN_RE.findall`: the runs of digits and of letters. -/
def tokenRuns (decimal : Char → Bool) : List Char → List (List Char)
  | [] => []
  | c :: cs =>
    if decimal c then (c :: cs.takeWhile decimal) :: tokenRuns decimal (cs.dropWhile decimal)
    else if c.isLower then
      (c :: cs.takeWhile Char.isLower) :: tokenRuns decimal (cs.dropWhile Char.isLower)
    else tokenRuns decimal cs
termination_by cs => cs.length
decreasing_by
  · exact Nat.lt_succ_of_le (List.dropWhile_sublist _).length_le
  · exact Nat.lt_succ_of_le (List.dropWhile_sublist _).length_le
  · exact Nat.lt_succ_self _

inductive Dotted (decimal : Char → Bool) : List Char → Prop
  | number (digits : List Char) (hne : digits ≠ []) (hall : ∀ c ∈ digits, decimal c = true) :
    Dotted decimal digits
  | dot (digits rest : List Char) (hne : digits ≠ []) (hall : ∀ c ∈ digits, decimal c = true)
    (hrest : Dotted decimal rest) : Dotted decimal (digits ++ '.' :: rest)

/-- `_PORTABLE_PATCH`, with the version it captures. -/
def Portable (decimal : Char → Bool) (value bare : String) : Prop :=
  ∃ c digits, value = bare ++ String.ofList (c :: digits) ∧ (c = 'p' ∨ c = 'P') ∧ digits ≠ [] ∧
    (∀ d ∈ digits, decimal d = true) ∧ Dotted decimal bare.toList

def PatchChar (decimal : Char → Bool) (c : Char) : Prop :=
  decimal c = true ∨ c = '.' ∨ c = 'p' ∨ c = 'P'

def lowerPatch (c : Char) : Char := if c = 'P' then 'p' else c

/-- What Python and its regular expressions document of the calls made on a version. -/
structure Documented (lib : RetroText) (decimal : Char → Bool) : Prop where
  strip : ∀ raw, lib.strip raw = String.ofList (ResumedBatches.strip raw.toList)
  plain : ∀ c, decimal c = true → ResumedBatches.isSpace c = false ∧ c.isLower = false ∧
    c.isUpper = false ∧ c ≠ '.' ∧ lib.isalpha c = false
  dot : lib.isalpha '.' = false
  versionTokens : ∀ s, lib.versionTokens s = (tokenRuns decimal s.toList).map String.ofList
  portablePatch : ∀ raw bare, lib.portablePatch (lib.strip raw) = some bare ↔
    Portable decimal (lib.strip raw) bare
  lower : ∀ s, (∀ c ∈ s.toList, PatchChar decimal c) →
    (lib.lower s).toList = s.toList.map lowerPatch
  lower_letter : ∀ s, (∃ c ∈ (lib.lower s).toList, c.isLower = true) →
    s.toList.any lib.isalpha = true
  isdigit : ∀ s, s.toList ≠ [] → (∀ c ∈ s.toList, decimal c = true) → lib.isdigit s = true
  isdigit_letter : ∀ s, (∃ c ∈ s.toList, c.isLower = true) → lib.isdigit s = false
  int : ∀ s, s.toList ≠ [] → (∀ c ∈ s.toList, decimal c = true) →
    if s.toList.length ≤ 4300 then ∃ n : ℕ, lib.int s = some (n : ℤ) else lib.int s = none

variable {lib : RetroText} {decimal : Char → Bool}

theorem Dotted.chars {cs : List Char} (h : Dotted decimal cs) :
    ∀ c ∈ cs, decimal c = true ∨ c = '.' := by
  induction h with
  | number _ _ hall => exact fun c hc => .inl (hall c hc)
  | dot digits rest _ hall _ ih =>
    intro c hc
    cases List.mem_append.mp hc with
    | inl hc => exact .inl (hall c hc)
    | inr hc =>
      cases List.mem_cons.mp hc with
      | inl hc => exact .inr hc
      | inr hc => exact ih c hc

theorem Dotted.head {cs : List Char} (h : Dotted decimal cs) :
    ∃ c rest, cs = c :: rest ∧ decimal c = true := by
  cases h with
  | number _ hne hall =>
    have ⟨c, rest, heq⟩ := List.exists_cons_of_ne_nil hne
    exact ⟨c, rest, heq, hall c (by rw [heq]; exact List.mem_cons_self)⟩
  | dot digits rest hne hall _ =>
    have ⟨c, more, heq⟩ := List.exists_cons_of_ne_nil hne
    exact ⟨c, more ++ '.' :: rest, by rw [heq]; rfl,
      hall c (by rw [heq]; exact List.mem_cons_self)⟩

theorem mem_tokenRuns {cs run : List Char} (h : run ∈ tokenRuns decimal cs) :
    run ≠ [] ∧ run ⊆ cs ∧
      ((∀ c ∈ run, decimal c = true) ∨ ∀ c ∈ run, c.isLower = true) := by
  fun_induction tokenRuns decimal cs with
  | case1 => exact absurd h List.not_mem_nil
  | case2 c cs hc ih =>
    cases List.mem_cons.mp h with
    | inl h =>
      rw [h]
      refine ⟨List.cons_ne_nil _ _, ?_, .inl ?_⟩
      · exact List.cons_subset_cons c (List.takeWhile_sublist _).subset
      · intro d hd
        cases List.mem_cons.mp hd with
        | inl hd => rw [hd]; exact hc
        | inr hd => exact List.mem_takeWhile_imp hd
    | inr h =>
      have ⟨hne, hsub, hall⟩ := ih h
      exact ⟨hne, fun d hd => List.mem_cons_of_mem c
        ((List.dropWhile_sublist _).subset (hsub hd)), hall⟩
  | case3 c cs _ hc ih =>
    cases List.mem_cons.mp h with
    | inl h =>
      rw [h]
      refine ⟨List.cons_ne_nil _ _, ?_, .inr ?_⟩
      · exact List.cons_subset_cons c (List.takeWhile_sublist _).subset
      · intro d hd
        cases List.mem_cons.mp hd with
        | inl hd => rw [hd]; exact hc
        | inr hd => exact List.mem_takeWhile_imp hd
    | inr h =>
      have ⟨hne, hsub, hall⟩ := ih h
      exact ⟨hne, fun d hd => List.mem_cons_of_mem c
        ((List.dropWhile_sublist _).subset (hsub hd)), hall⟩
  | case4 c cs _ _ ih =>
    have ⟨hne, hsub, hall⟩ := ih h
    exact ⟨hne, fun d hd => List.mem_cons_of_mem c (hsub hd), hall⟩

theorem tokenRuns_digits {digits : List Char} (hne : digits ≠ [])
    (hall : ∀ c ∈ digits, decimal c = true) : tokenRuns decimal digits = [digits] := by
  have ⟨c, cs, heq⟩ := List.exists_cons_of_ne_nil hne
  rw [heq] at hall ⊢
  have hcs : ∀ d ∈ cs, decimal d = true := fun d hd => hall d (List.mem_cons_of_mem c hd)
  rw [tokenRuns, if_pos (hall c List.mem_cons_self), List.takeWhile_eq_self_iff.mpr hcs,
    List.dropWhile_eq_nil_iff.mpr hcs, tokenRuns]

theorem tokenRuns_append {d : Char} {cs : List Char} (hd : decimal d = false)
    (hcs : ∀ c ∈ cs, c.isLower = false) (rest : List Char) :
    tokenRuns decimal (cs ++ d :: rest) =
      tokenRuns decimal cs ++ tokenRuns decimal (d :: rest) := by
  fun_induction tokenRuns decimal cs with
  | case1 => rfl
  | case2 c cs hc ih =>
    have ⟨htake, hdrop⟩ := VersionOrder.span_append hd cs rest
    rw [List.cons_append, tokenRuns, if_pos hc, htake, hdrop,
      ih fun e he => hcs e (List.mem_cons_of_mem c ((List.dropWhile_sublist _).subset he))]
    rfl
  | case3 c cs _ hc ih =>
    rw [hcs c List.mem_cons_self] at hc
    cases hc
  | case4 c cs hc hl ih =>
    rw [List.cons_append, tokenRuns, if_neg hc, if_neg hl,
      ih fun e he => hcs e (List.mem_cons_of_mem c he)]

end Words

section Reading

variable (lib : RetroText)

/-- The words `_version_key` reads a version by. -/
def words (raw : String) : List String :=
  let value := lib.lower (lib.strip raw)
  let value := if startsWith "v" value && lib.isdigit (clip 1 (dropHead "v" value)) then
    dropHead "v" value else value
  lib.versionTokens value

theorem upstreamKey_eq (raw : String) : upstreamKey lib raw = elementsOf lib (words lib raw) := rfl

variable {lib} {decimal : Char → Bool}

theorem number_of_word (hlib : Documented lib decimal) {run : List Char} (hne : run ≠ [])
    (hall : ∀ c ∈ run, decimal c = true) :
    ∃ n : ℕ, (lib.int (String.ofList run)).getD 0 = n := by
  have hint := hlib.int (String.ofList run) (by rw [String.toList_ofList]; exact hne)
    (by rw [String.toList_ofList]; exact hall)
  split_ifs at hint with hshort
  · have ⟨n, hn⟩ := hint
    exact ⟨n, by rw [hn]; rfl⟩
  · exact ⟨0, by rw [hint]; rfl⟩

theorem elementsOf_key {ts : List String}
    (h : ∀ t ∈ ts, lib.isdigit t = true → ∃ n : ℕ, (lib.int t).getD 0 = n) :
    Key (elementsOf lib ts) := by
  induction ts with
  | nil => exact fun x hx => absurd hx List.not_mem_nil
  | cons t ts ih =>
    intro x hx
    cases List.mem_cons.mp hx with
    | inr hx => exact ih (fun u hu => h u (List.mem_cons_of_mem t hu)) x hx
    | inl hx =>
      rw [hx]
      by_cases hdigit : lib.isdigit t = true
      · have ⟨n, hn⟩ := h t List.mem_cons_self hdigit
        rw [if_pos hdigit, hn]
        exact number_element n
      · rw [if_neg hdigit]
        cases preRelease.lookup t with
        | some n => exact .inl rfl
        | none =>
          cases preLetters.lookup t with
          | none => exact letters_element t
          | some n =>
            cases ts with
            | nil => exact letters_element t
            | cons u ts =>
              by_cases hnext : lib.isdigit u = true
              · simp only [hnext, if_true]
                exact .inl rfl
              · simp only [hnext]
                exact letters_element t

theorem elementsOf_numbers {ts : List String}
    (h : ∀ t ∈ ts, lib.isdigit t = true ∧ ∃ n : ℕ, (lib.int t).getD 0 = n) :
    Numbers (elementsOf lib ts) := by
  induction ts with
  | nil => exact fun x hx => absurd hx List.not_mem_nil
  | cons t ts ih =>
    intro x hx
    cases List.mem_cons.mp hx with
    | inr hx => exact ih (fun u hu => h u (List.mem_cons_of_mem t hu)) x hx
    | inl hx =>
      have ⟨hdigit, n, hn⟩ := h t List.mem_cons_self
      rw [hx, if_pos hdigit, hn]
      exact ⟨n, rfl⟩

theorem elementsOf_digit {t : String} (h : lib.isdigit t = true) (us : List String) :
    elementsOf lib (t :: us) = (3, (lib.int t).getD 0, "") :: elementsOf lib us :=
  congrArg (fun x => x :: elementsOf lib us) (if_pos h)

theorem elementsOf_append {ts : List String} (h : ∀ t ∈ ts, lib.isdigit t = true)
    (us : List String) : elementsOf lib (ts ++ us) = elementsOf lib ts ++ elementsOf lib us := by
  induction ts with
  | nil => rfl
  | cons t ts ih =>
    have ht := h t List.mem_cons_self
    rw [List.cons_append, elementsOf_digit ht, elementsOf_digit ht,
      ih fun u hu => h u (List.mem_cons_of_mem t hu)]
    rfl

theorem mem_words (hlib : Documented lib decimal) {raw word : String} (h : word ∈ words lib raw) :
    ∃ run, word = String.ofList run ∧ run ≠ [] ∧ run ⊆ (lib.lower (lib.strip raw)).toList ∧
      ((∀ c ∈ run, decimal c = true) ∨ ∀ c ∈ run, c.isLower = true) := by
  unfold words at h
  simp only at h
  rw [hlib.versionTokens] at h
  have ⟨run, hrun, hword⟩ := List.mem_map.mp h
  have ⟨hne, hsub, hall⟩ := mem_tokenRuns hrun
  refine ⟨run, hword.symm, hne, ?_, hall⟩
  split_ifs at hsub with hv
  · intro c hc
    have hmem := hsub hc
    rw [dropHead, String.toList_ofList] at hmem
    exact List.mem_of_mem_drop hmem
  · exact hsub

theorem isdigit_run (hlib : Documented lib decimal) {run : List Char} (hne : run ≠ [])
    (hall : ∀ c ∈ run, decimal c = true) : lib.isdigit (String.ofList run) = true :=
  hlib.isdigit _ (by rw [String.toList_ofList]; exact hne)
    (by rw [String.toList_ofList]; exact hall)

theorem isdigit_letters (hlib : Documented lib decimal) {run : List Char} (hne : run ≠ [])
    (hall : ∀ c ∈ run, c.isLower = true) : lib.isdigit (String.ofList run) = false := by
  have ⟨c, rest, heq⟩ := List.exists_cons_of_ne_nil hne
  apply hlib.isdigit_letter
  rw [String.toList_ofList]
  exact ⟨c, by rw [heq]; exact List.mem_cons_self, hall c (by rw [heq]; exact List.mem_cons_self)⟩

theorem key_upstream (hlib : Documented lib decimal) (raw : String) :
    Key (upstreamKey lib raw) := by
  rw [upstreamKey_eq]
  apply elementsOf_key
  intro word hword hdigit
  have ⟨run, heq, hne, _, hall⟩ := mem_words hlib hword
  rw [heq] at hdigit ⊢
  cases hall with
  | inl hall => exact number_of_word hlib hne hall
  | inr hall =>
    rw [isdigit_letters hlib hne hall] at hdigit
    cases hdigit

theorem any_isalpha_strip (hlib : Documented lib decimal) {raw : String}
    (h : raw.toList.any lib.isalpha = false) : (lib.strip raw).toList.any lib.isalpha = false := by
  rw [hlib.strip, String.toList_ofList]
  rw [List.any_eq_false] at h ⊢
  intro c hc
  exact h c ((List.dropWhile_sublist _).subset ((List.rdropWhile_prefix _ _).subset hc))

theorem numbers_of_letterless (hlib : Documented lib decimal) {raw : String}
    (h : raw.toList.any lib.isalpha = false) : Numbers (upstreamKey lib raw) := by
  rw [upstreamKey_eq]
  apply elementsOf_numbers
  intro word hword
  have ⟨run, heq, hne, hsub, hall⟩ := mem_words hlib hword
  rw [heq]
  cases hall with
  | inl hall => exact ⟨isdigit_run hlib hne hall, number_of_word hlib hne hall⟩
  | inr hall =>
    have ⟨c, rest, hrun⟩ := List.exists_cons_of_ne_nil hne
    have hc : c ∈ run := by
      rw [hrun]
      exact List.mem_cons_self
    have halpha := hlib.lower_letter (lib.strip raw) ⟨c, hsub hc, hall c hc⟩
    rw [any_isalpha_strip hlib h] at halpha
    cases halpha

theorem lower_of_decimal (hlib : Documented lib decimal) {c : Char} (h : decimal c = true) :
    lowerPatch c = c ∧ c ≠ 'p' ∧ c ≠ 'P' ∧ c ≠ 'v' := by
  have ⟨_, hlower, hupper, _⟩ := hlib.plain c h
  have hletter : ∀ d : Char, d.isLower = true ∨ d.isUpper = true → c ≠ d := by
    intro d hd heq
    rw [heq] at hlower hupper
    cases hd with
    | inl hd => rw [hlower] at hd; cases hd
    | inr hd => rw [hupper] at hd; cases hd
  exact ⟨if_neg (hletter 'P' (.inr (by decide))), hletter 'p' (.inl (by decide)),
    hletter 'P' (.inr (by decide)), hletter 'v' (.inl (by decide))⟩

theorem lower_of_dotted (hlib : Documented lib decimal) {cs : List Char}
    (h : ∀ c ∈ cs, decimal c = true ∨ c = '.') : cs.map lowerPatch = cs := by
  induction cs with
  | nil => rfl
  | cons c cs ih =>
    rw [List.map_cons, ih fun d hd => h d (List.mem_cons_of_mem c hd)]
    cases h c List.mem_cons_self with
    | inl hc => rw [(lower_of_decimal hlib hc).1]
    | inr hc => rw [hc]; rfl

theorem words_of_start (hlib : Documented lib decimal) {raw : String} {value : List Char}
    (hvalue : (lib.lower (lib.strip raw)).toList = value) (h : value.head? ≠ some 'v') :
    words lib raw = (tokenRuns decimal value).map String.ofList := by
  have hstart : startsWith "v" (lib.lower (lib.strip raw)) = false := by
    unfold startsWith
    rw [hvalue]
    cases value with
    | nil => rfl
    | cons c cs =>
      change (List.isPrefixOf ['v'] (c :: cs)) = false
      rw [List.isPrefixOf_cons_cons]
      have hne : ('v' == c) = false := by
        rw [beq_eq_false_iff_ne]
        intro heq
        exact h (by rw [heq]; rfl)
      rw [hne]
      rfl
  unfold words
  simp only [hstart, Bool.false_and]
  rw [hlib.versionTokens, if_neg Bool.false_ne_true, hvalue]

theorem lower_letters_free (hlib : Documented lib decimal) {cs : List Char}
    (h : ∀ c ∈ cs, decimal c = true ∨ c = '.') : ∀ c ∈ cs, c.isLower = false := by
  intro c hc
  cases h c hc with
  | inl hc => exact (hlib.plain c hc).2.1
  | inr hc => rw [hc]; decide

theorem strip_dotted (hlib : Documented lib decimal) {bare : String}
    (h : Dotted decimal bare.toList) : lib.strip bare = bare := by
  have hspace : ∀ c ∈ bare.toList, ResumedBatches.isSpace c = false := by
    intro c hc
    cases h.chars c hc with
    | inl hc => exact (hlib.plain c hc).1
    | inr hc => rw [hc]; decide
  have hstripped : Stripped bare.toList :=
    ⟨fun c hc => hspace c (List.mem_of_mem_head? hc),
      fun c hc => hspace c (List.mem_of_mem_getLast? hc)⟩
  rw [hlib.strip, strip_of_stripped hstripped, String.ofList_toList]

theorem dotted_key (hlib : Documented lib decimal) {bare : String}
    (h : Dotted decimal bare.toList) :
    words lib bare = (tokenRuns decimal bare.toList).map String.ofList ∧
      bare.toList.any lib.isalpha = false ∧ lib.portablePatch (lib.strip bare) = none ∧
      bare ≠ "" := by
  have hstrip := strip_dotted hlib h
  have ⟨c, rest, heq, hc⟩ := h.head
  refine ⟨?_, ?_, ?_, ?_⟩
  · apply words_of_start hlib
    · rw [hstrip, hlib.lower _ fun d hd => (h.chars d hd).imp id Or.inl,
        lower_of_dotted hlib h.chars]
    · intro hv
      rw [heq] at hv
      exact (lower_of_decimal hlib hc).2.2.2 (Option.some.inj hv)
  · rw [List.any_eq_false]
    intro d hd
    cases h.chars d hd with
    | inl hd => rw [(hlib.plain d hd).2.2.2.2]; exact Bool.false_ne_true
    | inr hd => rw [hd, hlib.dot]; exact Bool.false_ne_true
  · cases hport : lib.portablePatch (lib.strip bare) with
    | none => rfl
    | some front =>
      have ⟨p, digits, hcut, hp, _⟩ := (hlib.portablePatch bare front).mp hport
      have hmem : p ∈ bare.toList := by
        rw [← hstrip, hcut, String.toList_append, String.toList_ofList]
        exact List.mem_append_right _ List.mem_cons_self
      cases h.chars p hmem with
      | inl hd =>
        have ⟨_, hlow, hup, _⟩ := lower_of_decimal hlib hd
        exact absurd hp fun hor => hor.elim hlow hup
      | inr hd =>
        rw [hd] at hp
        exact absurd hp (by decide)
  · intro hempty
    rw [hempty] at heq
    cases heq

theorem portable_key (hlib : Documented lib decimal) {raw bare : String}
    (h : lib.portablePatch (lib.strip raw) = some bare) :
    Numbers (upstreamKey lib bare) ∧
      ∃ m : ℕ, upstreamKey lib raw = patched (upstreamKey lib bare) m := by
  have ⟨p, digits, hcut, hp, hne, hall, hdotted⟩ := (hlib.portablePatch raw bare).mp h
  have ⟨hbare, halpha, _⟩ := dotted_key hlib hdotted
  refine ⟨numbers_of_letterless hlib halpha, ?_⟩
  have ⟨d, rest, hdigits⟩ := List.exists_cons_of_ne_nil hne
  have hd : decimal d = true := hall d (by rw [hdigits]; exact List.mem_cons_self)
  have hpno : decimal 'p' = false := by
    rw [← Bool.not_eq_true]
    intro hyes
    exact (lower_of_decimal hlib hyes).2.1 rfl
  have hlowered : (lib.lower (lib.strip raw)).toList = bare.toList ++ 'p' :: digits := by
    have hpatch : ∀ c ∈ (lib.strip raw).toList, PatchChar decimal c := by
      intro c hc
      rw [hcut, String.toList_append, String.toList_ofList] at hc
      cases List.mem_append.mp hc with
      | inl hc => exact (hdotted.chars c hc).imp id Or.inl
      | inr hc =>
        cases List.mem_cons.mp hc with
        | inl hc => rw [hc]; exact .inr (.inr hp)
        | inr hc => exact .inl (hall c hc)
    have hlow : lowerPatch p = 'p' := by
      cases hp with
      | inl hp => rw [hp]; rfl
      | inr hp => rw [hp]; rfl
    rw [hlib.lower _ hpatch, hcut, String.toList_append, String.toList_ofList, List.map_append,
      List.map_cons, hlow, lower_of_dotted hlib hdotted.chars,
      lower_of_dotted hlib fun c hc => .inl (hall c hc)]
  have hwords : words lib raw =
      words lib bare ++ ["p", String.ofList digits] := by
    have ⟨c, more, heq, hc⟩ := hdotted.head
    rw [words_of_start hlib hlowered (by
      intro hv
      rw [heq] at hv
      exact (lower_of_decimal hlib hc).2.2.2 (Option.some.inj hv)),
      tokenRuns_append hpno (lower_letters_free hlib hdotted.chars), hbare]
    have hstop : (List.takeWhile Char.isLower digits = []) ∧
        List.dropWhile Char.isLower digits = digits := by
      rw [hdigits]
      simp [(hlib.plain d hd).2.1]
    rw [tokenRuns, if_neg (by rw [hpno]; exact Bool.false_ne_true), if_pos (by decide), hstop.1,
      hstop.2, tokenRuns_digits hne hall, List.map_append]
    rfl
  have hfront : ∀ t ∈ words lib bare, lib.isdigit t = true := by
    intro t ht
    rw [hbare] at ht
    have ⟨run, hrun, hword⟩ := List.mem_map.mp ht
    have ⟨hrunne, hsub, hruns⟩ := mem_tokenRuns hrun
    rw [← hword]
    cases hruns with
    | inl hruns => exact isdigit_run hlib hrunne hruns
    | inr hruns =>
      have ⟨c, more, heq⟩ := List.exists_cons_of_ne_nil hrunne
      have hc : c ∈ run := by
        rw [heq]
        exact List.mem_cons_self
      have hfree := lower_letters_free hlib hdotted.chars c (hsub hc)
      rw [hruns c hc] at hfree
      cases hfree
  have ⟨m, hm⟩ := number_of_word hlib hne hall
  have hletter : lib.isdigit "p" = false := hlib.isdigit_letter "p" ⟨'p', by decide, by decide⟩
  refine ⟨m, ?_⟩
  rw [upstreamKey_eq, upstreamKey_eq, hwords, elementsOf_append hfront, patched]
  have hlast : elementsOf lib ["p", String.ofList digits] = [(2, 0, "p"), (3, (m : ℤ), "")] := by
    have htail : elementsOf lib [String.ofList digits] = [(3, (m : ℤ), "")] := by
      rw [elementsOf_digit (isdigit_run hlib hne hall), hm]
      rfl
    rw [← htail]
    exact congrArg (fun x => x :: elementsOf lib [String.ofList digits])
      (if_neg (by rw [hletter]; exact Bool.false_ne_true))
  rw [hlast]

end Reading

section Families

variable (lib : RetroText)

/-- The versions of a family, and what `_against` leaves of them. -/
def compared (S : Set String) : Set String :=
  { v | v ∈ S ∨ ∃ w ∈ S, lib.portablePatch (lib.strip w) = some v }

/-- No number of a version is too long for `int`. -/
def reads (raw : String) : Bool :=
  (words lib raw).all fun word => !lib.isdigit word || (lib.int word).isSome

/-- `compare_upstream`, with the `ValueError` of a number `int` does not read. -/
def compareChecked (left right : String) : Except ParseError Ordering :=
  if reads lib left && reads lib right then .ok (compareUpstream lib left right)
  else .error .value

/-- One version does not rank above another. -/
def Below (a b : String) : Prop := (compareUpstream lib a b).isLE = true

def Bounded (S : Set String) (s : CpeRange) : Prop :=
  ∀ bound ∈ [s.exact, s.startIncluding, s.startExcluding, s.endIncluding, s.endExcluding],
    text bound = "" ∨ text bound ∈ S

/-- A record fixes its package in an upstream version. -/
def FixedBy (r : AdvisoryRecord) (upstream : String) : Prop :=
  text r.fixedVersion ≠ "" ∧ fixedUpstream lib (text r.fixedVersion) = .ok (some upstream)

def FixesIn (S : Set String) (records : List AdvisoryRecord) : Prop :=
  ∀ r ∈ records, ∀ upstream, FixedBy lib r upstream → upstream ∈ S

/-- What the callers of `compare_upstream` need of it on a family of versions. -/
structure Orders (S : Set String) : Prop where
  returns : ∀ a ∈ S, ∀ b ∈ S, ∃ verdict, compareChecked lib a b = .ok verdict
  antisymm : ∀ a ∈ S, ∀ b ∈ S, compareUpstream lib a b = (compareUpstream lib b a).swap
  trans : ∀ a ∈ S, ∀ b ∈ S, ∀ c ∈ S, Below lib a b → Below lib b c → Below lib a c
  congr : ∀ a ∈ S, ∀ b ∈ S, ∀ c ∈ S, compareUpstream lib a b = .eq →
    compareUpstream lib a c = compareUpstream lib b c
  convex : ∀ s, Bounded S s → ∀ x ∈ S, ∀ y ∈ S, ∀ z ∈ S, Below lib x y → Below lib y z →
    inRange lib x s = true → inRange lib z s = true → inRange lib y s = true
  newest : ∀ (p p' : Provider) release package upstream,
    (p.advisoriesFor release package).Perm (p'.advisoriesFor release package) →
    FixesIn lib S (p.advisoriesFor release package) →
      shipsSeries lib p release package upstream = shipsSeries lib p' release package upstream ∧
      ∀ u u', newestFix lib none (p.advisoriesFor release package) = .ok (some u) →
        newestFix lib none (p'.advisoriesFor release package) = .ok (some u') →
          compareUpstream lib u u' = .eq

def Same (a b : List VersionElement) : Prop :=
  ∃ n, a = b ++ List.replicate n zeroElement ∨ b = a ++ List.replicate n zeroElement

/-- A family without a number `int` refuses, without letters between a version and the same
version with a zero more, without letters that rank below a patch level and are none, and without
fixes of one version in two series. -/
structure Unmixed (S : Set String) : Prop where
  short : ∀ v ∈ S, ∀ word ∈ words lib v, lib.isdigit word = true → word.toList.length ≤ 4300
  apart : ∀ a ∈ S, ∀ b ∈ S, ∀ c ∈ S,
    ¬Clash (upstreamKey lib a) (upstreamKey lib b) (upstreamKey lib c)
  alone : ∀ y ∈ S, ∀ z ∈ S, lib.portablePatch (lib.strip y) = none →
    lib.portablePatch (lib.strip z) ≠ none → ¬Beside (upstreamKey lib y) (upstreamKey lib z)
  series : ∀ u ∈ S, ∀ v ∈ S, (∃ r, FixedBy lib r u) → (∃ r, FixedBy lib r v) →
    Same (upstreamKey lib u) (upstreamKey lib v) → lib.seriesOf u = lib.seriesOf v

variable {lib} {decimal : Char → Bool} {S : Set String}

theorem compareUpstream_swap (a b : String) :
    compareUpstream lib a b = (compareUpstream lib b a).swap :=
  compareElements_swap _ _

theorem below_self (a : String) : Below lib a a := by
  unfold Below compareUpstream
  rw [compareElements_self]
  rfl

theorem verdict_ext {o o' : Ordering} (h : o.isLE = true ↔ o'.isLE = true)
    (h' : o.swap.isLE = true ↔ o'.swap.isLE = true) : o = o' := by
  cases o <;> cases o' <;> simp_all

theorem not_lt_iff {a b : String} : (compareUpstream lib a b != .lt) = true ↔ Below lib b a := by
  unfold Below
  rw [compareUpstream_swap b a]
  cases compareUpstream lib a b <;> decide

theorem gt_iff {a b : String} : (compareUpstream lib a b == .gt) = true ↔ ¬Below lib a b := by
  unfold Below
  cases compareUpstream lib a b <;> decide

theorem not_gt_iff {a b : String} : (compareUpstream lib a b != .gt) = true ↔ Below lib a b := by
  unfold Below
  cases compareUpstream lib a b <;> decide

theorem lt_iff {a b : String} : (compareUpstream lib a b == .lt) = true ↔ ¬Below lib b a := by
  unfold Below
  rw [compareUpstream_swap b a]
  cases compareUpstream lib a b <;> decide

theorem eq_iff {a b : String} :
    compareUpstream lib a b = .eq ↔ Below lib a b ∧ Below lib b a := by
  unfold Below
  rw [compareUpstream_swap b a]
  cases compareUpstream lib a b <;> decide

theorem zeros_of_eq {key : List VersionElement} (h : Key key)
    (heq : compareElements [] key = .eq) : key = List.replicate key.length zeroElement := by
  induction key with
  | nil => rfl
  | cons x key ih =>
    rw [compareElements_nil_cons, Ordering.then_eq_eq] at heq
    have hx := eq_zero_of_tied_end (h x List.mem_cons_self) heq.1
    have htail : key = List.replicate key.length zeroElement := ih h.tail heq.2
    rw [List.length_cons, List.replicate_succ, ← htail, hx]

theorem compareElements_of_same {a b : List VersionElement} (h : Same a b) :
    compareElements a b = .eq := by
  have hzeros : ∀ (key : List VersionElement) n,
      compareElements (key ++ List.replicate n zeroElement) key = .eq := by
    intro key n
    have happend := compareElements_append key (List.replicate n zeroElement) []
    have hnil := compareElements_zeros n []
    rw [List.append_nil] at happend hnil
    rw [happend, hnil, compareElements]
  obtain ⟨n, hor⟩ := h
  cases hor with
  | inl h => rw [h, hzeros]
  | inr h => rw [h, compareElements_swap, hzeros]; rfl

theorem compareElements_eq_iff {a b : List VersionElement} (ha : Key a) (hb : Key b) :
    compareElements a b = .eq ↔ Same a b := by
  refine ⟨fun heq => ?_, compareElements_of_same⟩
  induction a generalizing b with
  | nil => exact ⟨b.length, .inr (zeros_of_eq hb heq)⟩
  | cons x a ih =>
    cases b with
    | nil =>
      rw [compareElements_swap, Ordering.swap_eq_eq] at heq
      exact ⟨(x :: a).length, .inl (zeros_of_eq ha heq)⟩
    | cons y b =>
      rw [compareElements_cons, Ordering.then_eq_eq] at heq
      have hxy := eq_of_tied_elements (ha x List.mem_cons_self) (hb y List.mem_cons_self) heq.1
      have ⟨n, hor⟩ := ih ha.tail hb.tail heq.2
      have hor' : a = b ++ List.replicate n zeroElement ∨ b = a ++ List.replicate n zeroElement :=
        hor
      refine ⟨n, ?_⟩
      rw [hxy]
      exact hor'.imp (congrArg (List.cons y)) (congrArg (List.cons y))

theorem below_trans (hlib : Documented lib decimal) (h : Unmixed lib S) {a b c : String}
    (ha : a ∈ S) (hb : b ∈ S) (hc : c ∈ S) (hab : Below lib a b) (hbc : Below lib b c) :
    Below lib a c :=
  isLE_trans_of_apart (key_upstream hlib a) (key_upstream hlib b) (key_upstream hlib c)
    (h.apart b hb a ha c hc) (h.apart c hc b hb a ha) (h.apart a ha c hc b hb) hab hbc

variable (lib) in
theorem against_cases (version bound : String) :
    against lib version bound = version ∨
      bound.toList.any lib.isalpha = false ∧
        lib.portablePatch (lib.strip version) = some (against lib version bound) := by
  unfold against
  cases lib.portablePatch (lib.strip version) with
  | none => exact .inl rfl
  | some bare =>
    by_cases h : bound.toList.any lib.isalpha = true
    · exact .inl (if_pos h)
    · exact .inr ⟨eq_false_of_ne_true h, congrArg some (if_neg h).symm⟩

theorem bare_below (hlib : Documented lib decimal) {version bare : String}
    (h : lib.portablePatch (lib.strip version) = some bare) : Below lib bare version := by
  have ⟨_, m, hm⟩ := portable_key hlib h
  unfold Below compareUpstream
  rw [hm, lt_patched]
  rfl

theorem against_mono (hlib : Documented lib decimal) (h : Unmixed lib S)
    (hclosed : ∀ v ∈ S, ∀ bare, lib.portablePatch (lib.strip v) = some bare → bare ∈ S)
    {v w : String} (hv : v ∈ S) (hw : w ∈ S) (hvw : Below lib v w) (bound : String) :
    Below lib (against lib v bound) (against lib w bound) := by
  have hlow : Below lib (against lib v bound) v := by
    cases against_cases lib v bound with
    | inl heq => rw [heq]; exact below_self v
    | inr hbare => exact bare_below hlib hbare.2
  have hmem : against lib v bound ∈ S := by
    cases against_cases lib v bound with
    | inl heq => rw [heq]; exact hv
    | inr hbare => exact hclosed v hv _ hbare.2
  have hle := below_trans hlib h hmem hv hw hlow hvw
  cases against_cases lib w bound with
  | inl heq => rw [heq]; exact hle
  | inr hbare =>
    have ⟨hfree, hw'⟩ := hbare
    have ⟨hnumbers, m, hm⟩ := portable_key hlib hw'
    by_contra hgt
    have hlt : compareUpstream lib (against lib w bound) (against lib v bound) = .lt :=
      eq_of_beq (lt_iff.mpr hgt)
    cases hport : lib.portablePatch (lib.strip v) with
    | some bare =>
      have heq : against lib v bound = bare := by
        rw [against, hport]
        simp only [hfree]
        exact if_neg Bool.false_ne_true
      rw [heq] at hlt hle
      have hlt' := patched_lt m hnumbers (portable_key hlib hport).1 hlt
      rw [← hm] at hlt'
      have hno : ¬Below lib bare w := lt_iff.mp (beq_iff_eq.mpr hlt')
      exact hno hle
    | none =>
      have heq : against lib v bound = v := by
        rw [against, hport]
      rw [heq] at hlt
      apply h.alone v hv w hw hport (by rw [hw']; exact Option.some_ne_none _)
      rw [hm]
      refine (beside_iff hnumbers (key_upstream hlib v)).mpr ⟨hlt, ?_⟩
      rw [← hm]
      exact hvw

theorem satisfies_iff {version : String} {bound : Option String} {ok : Ordering → Bool} :
    satisfies lib version bound ok = true ↔
      text bound = "" ∨
        ok (compareUpstream lib (against lib version (text bound)) (text bound)) = true := by
  unfold satisfies
  simp only [Bool.or_eq_true, decide_eq_true_eq]

theorem convex_of_unmixed (hlib : Documented lib decimal) (h : Unmixed lib S)
    (hclosed : ∀ v ∈ S, ∀ bare, lib.portablePatch (lib.strip v) = some bare → bare ∈ S)
    {s : CpeRange} (hs : Bounded S s) {x y z : String} (hx : x ∈ S) (hy : y ∈ S) (hz : z ∈ S)
    (hxy : Below lib x y) (hyz : Below lib y z) (hinx : inRange lib x s = true)
    (hinz : inRange lib z s = true) : inRange lib y s = true := by
  have hmem : ∀ v ∈ S, ∀ bound, against lib v bound ∈ S := by
    intro v hv bound
    cases against_cases lib v bound with
    | inl heq => rw [heq]; exact hv
    | inr hbare => exact hclosed v hv _ hbare.2
  have hlow := fun bound => against_mono hlib h hclosed hx hy hxy bound
  have hhigh := fun bound => against_mono hlib h hclosed hy hz hyz bound
  unfold inRange at hinx hinz ⊢
  by_cases hexact : text s.exact ≠ ""
  · rw [if_pos hexact, beq_iff_eq, eq_iff] at hinx hinz ⊢
    have hE : text s.exact ∈ S := (hs s.exact (by simp)).resolve_left hexact
    exact ⟨below_trans hlib h hy hz hE hyz hinz.1, below_trans hlib h hE hx hy hinx.2 hxy⟩
  · rw [if_neg hexact] at hinx hinz ⊢
    simp only [Bool.and_eq_true, satisfies_iff, not_lt_iff, gt_iff, not_gt_iff, lt_iff]
      at hinx hinz ⊢
    have ⟨⟨⟨hsi, hse⟩, _⟩, _⟩ := hinx
    have ⟨⟨_, hei⟩, hee⟩ := hinz
    refine ⟨⟨⟨?_, ?_⟩, ?_⟩, ?_⟩
    · cases hs s.startIncluding (by simp) with
      | inl hempty => exact .inl hempty
      | inr hL =>
        exact hsi.imp id fun hle => below_trans hlib h hL (hmem x hx _) (hmem y hy _) hle (hlow _)
    · cases hs s.startExcluding (by simp) with
      | inl hempty => exact .inl hempty
      | inr hL =>
        exact hse.imp id fun hno hle =>
          hno (below_trans hlib h (hmem x hx _) (hmem y hy _) hL (hlow _) hle)
    · cases hs s.endIncluding (by simp) with
      | inl hempty => exact .inl hempty
      | inr hH =>
        exact hei.imp id fun hle =>
          below_trans hlib h (hmem y hy _) (hmem z hz _) hH (hhigh _) hle
    · cases hs s.endExcluding (by simp) with
      | inl hempty => exact .inl hempty
      | inr hH =>
        exact hee.imp id fun hno hle =>
          hno (below_trans hlib h hH (hmem y hy _) (hmem z hz _) hle (hhigh _))

theorem fixedUpstream_error {value : String} {e : ParseError}
    (h : fixedUpstream lib value = .error e) : e = .value := by
  unfold fixedUpstream at h
  cases hparse : parseEvr lib.toVersionText value .deb with
  | ok evr =>
    rw [hparse] at h
    cases h
  | error err =>
    rw [hparse] at h
    cases err with
    | versionParse => cases h
    | value => exact (Except.error.inj h).symm

/-- A record whose fixed version `int` refuses. -/
def Refused (lib : RetroText) (r : AdvisoryRecord) : Prop :=
  text r.fixedVersion ≠ "" ∧ fixedUpstream lib (text r.fixedVersion) = .error .value

theorem newestFix_error_iff {newest : Option String} {records : List AdvisoryRecord}
    {e : ParseError} :
    newestFix lib newest records = .error e ↔ e = .value ∧ ∃ r ∈ records, Refused lib r := by
  induction records generalizing newest with
  | nil =>
    refine ⟨fun h => ?_, fun h => ?_⟩
    · cases h
    · have ⟨_, r, hr, _⟩ := h
      exact absurd hr List.not_mem_nil
  | cons r records ih =>
    have hskip : ¬Refused lib r →
        ((∃ s ∈ r :: records, Refused lib s) ↔ ∃ s ∈ records, Refused lib s) := by
      intro hno
      refine ⟨fun h => ?_, fun h => ?_⟩
      · have ⟨s, hs, hrefused⟩ := h
        cases List.mem_cons.mp hs with
        | inl hs => exact absurd (by rw [← hs]; exact hrefused) hno
        | inr hs => exact ⟨s, hs, hrefused⟩
      · have ⟨s, hs, hrefused⟩ := h
        exact ⟨s, List.mem_cons_of_mem r hs, hrefused⟩
    rw [newestFix]
    by_cases hempty : text r.fixedVersion = ""
    · rw [if_pos hempty, ih, hskip fun hrefused => hrefused.1 hempty]
    · rw [if_neg hempty]
      cases hfix : fixedUpstream lib (text r.fixedVersion) with
      | error err =>
        have herr := fixedUpstream_error hfix
        rw [herr] at hfix ⊢
        refine ⟨fun h => ⟨(Except.error.inj h).symm, r, List.mem_cons_self, hempty, hfix⟩,
          fun h => ?_⟩
        rw [h.1]
      | ok found =>
        have hno : ¬Refused lib r := by
          intro hrefused
          have hbad := hrefused.2
          rw [hfix] at hbad
          cases hbad
        rw [hskip hno]
        cases found with
        | none => exact ih
        | some fixed =>
          cases newest with
          | none => exact ih
          | some old => exact ih

/-- The result is the newest of the fix held so far and the fixes of the records: it is one of them,
and none of them ranks above it. -/
structure IsNewest (lib : RetroText) (S : Set String) (newest : Option String)
    (records : List AdvisoryRecord) (result : Option String) : Prop where
  given : ∀ u, result = some u → newest = some u ∨ ∃ r ∈ records, FixedBy lib r u
  tops : ∀ w, newest = some w ∨ (∃ r ∈ records, FixedBy lib r w) →
    ∃ u, result = some u ∧ u ∈ S ∧ Below lib w u

theorem IsNewest.nil {newest : Option String} (hnewest : ∀ u, newest = some u → u ∈ S) :
    IsNewest lib S newest [] newest where
  given u hu := .inl hu
  tops w hw := by
    cases hw with
    | inl hw => exact ⟨w, hw, hnewest w hw, below_self w⟩
    | inr hw =>
      have ⟨r, hr, _⟩ := hw
      exact absurd hr List.not_mem_nil

theorem IsNewest.skip {newest result : Option String} {r : AdvisoryRecord}
    {records : List AdvisoryRecord} (hno : ∀ w, ¬FixedBy lib r w)
    (h : IsNewest lib S newest records result) : IsNewest lib S newest (r :: records) result where
  given u hu := by
    refine (h.given u hu).imp id fun hs => ?_
    have ⟨s, hs, hfix⟩ := hs
    exact ⟨s, List.mem_cons_of_mem r hs, hfix⟩
  tops w hw := by
    refine h.tops w (hw.imp id fun hs => ?_)
    have ⟨s, hs, hfix⟩ := hs
    cases List.mem_cons.mp hs with
    | inl hs => exact absurd (by rw [← hs]; exact hfix) (hno w)
    | inr hs => exact ⟨s, hs, hfix⟩

theorem IsNewest.keep (hlib : Documented lib decimal) (h : Unmixed lib S)
    {newest result : Option String} {r : AdvisoryRecord} {records : List AdvisoryRecord}
    {fixed kept : String} (hnewest : ∀ u, newest = some u → u ∈ S)
    (hfixed : ∀ w, FixedBy lib r w ↔ w = fixed) (hin : fixed ∈ S) (hkept : kept ∈ S)
    (hfrom : newest = some kept ∨ kept = fixed) (hold : ∀ w, newest = some w → Below lib w kept)
    (hnew : Below lib fixed kept) (hrest : IsNewest lib S (some kept) records result) :
    IsNewest lib S newest (r :: records) result where
  given u hu := by
    cases hrest.given u hu with
    | inl hsame =>
      rw [← Option.some.inj hsame]
      exact hfrom.imp id fun hkept =>
        ⟨r, List.mem_cons_self, (hfixed kept).mpr hkept⟩
    | inr hs =>
      have ⟨s, hs, hfix⟩ := hs
      exact .inr ⟨s, List.mem_cons_of_mem r hs, hfix⟩
  tops w hw := by
    have ⟨top, htop, htopin, hkeptle⟩ := hrest.tops kept (.inl rfl)
    cases hw with
    | inl hw =>
      exact ⟨top, htop, htopin,
        below_trans hlib h (hnewest w hw) hkept htopin (hold w hw) hkeptle⟩
    | inr hw =>
      have ⟨s, hs, hfix⟩ := hw
      cases List.mem_cons.mp hs with
      | inr hs => exact hrest.tops w (.inr ⟨s, hs, hfix⟩)
      | inl hs =>
        rw [hs] at hfix
        rw [(hfixed w).mp hfix]
        exact ⟨top, htop, htopin, below_trans hlib h hin hkept htopin hnew hkeptle⟩

/-- The newest fix is one of the fixes, and none of them ranks above it. -/
theorem newestFix_ok (hlib : Documented lib decimal) (h : Unmixed lib S)
    {newest result : Option String} {records : List AdvisoryRecord}
    (hnewest : ∀ u, newest = some u → u ∈ S) (hfixes : FixesIn lib S records)
    (hok : newestFix lib newest records = .ok result) : IsNewest lib S newest records result := by
  induction records generalizing newest with
  | nil =>
    rw [← Except.ok.inj hok]
    exact .nil hnewest
  | cons r records ih =>
    have hrest : FixesIn lib S records := fun s hs => hfixes s (List.mem_cons_of_mem r hs)
    rw [newestFix] at hok
    by_cases hempty : text r.fixedVersion = ""
    · rw [if_pos hempty] at hok
      exact .skip (fun w hw => hw.1 hempty) (ih hnewest hrest hok)
    rw [if_neg hempty] at hok
    cases hfix : fixedUpstream lib (text r.fixedVersion) with
    | error err =>
      rw [hfix] at hok
      cases hok
    | ok found =>
      rw [hfix] at hok
      cases found with
      | none =>
        refine .skip (fun w hw => ?_) (ih hnewest hrest hok)
        have hsome := hw.2
        rw [hfix] at hsome
        cases hsome
      | some fixed =>
        have hfixed : ∀ w, FixedBy lib r w ↔ w = fixed := by
          refine fun w => ⟨fun hw => ?_, fun hw => hw ▸ ⟨hempty, hfix⟩⟩
          have hsome := hw.2
          rw [hfix] at hsome
          exact (Option.some.inj (Except.ok.inj hsome)).symm
        have hin : fixed ∈ S := hfixes r List.mem_cons_self fixed ((hfixed fixed).mpr rfl)
        have hgoesOn : ∀ kept ∈ S, newestFix lib (some kept) records = .ok result →
            IsNewest lib S (some kept) records result := fun kept hkept hok =>
          ih (fun u hu => by rw [← Option.some.inj hu]; exact hkept) hrest hok
        cases newest with
        | none =>
          exact .keep hlib h hnewest hfixed hin hin (.inr rfl) (fun w hw => nomatch hw)
            (below_self fixed) (hgoesOn fixed hin hok)
        | some old =>
          have hold := hnewest old rfl
          by_cases hgt : compareUpstream lib fixed old = .gt
          · simp only [if_pos hgt] at hok
            refine .keep hlib h hnewest hfixed hin hin (.inr rfl) (fun w hw => ?_)
              (below_self fixed) (hgoesOn fixed hin hok)
            rw [← Option.some.inj hw]
            unfold Below
            rw [compareUpstream_swap, hgt]
            rfl
          · simp only [if_neg hgt] at hok
            refine .keep hlib h hnewest hfixed hin hold (.inl rfl) (fun w hw => ?_) ?_
              (hgoesOn old hold hok)
            · rw [← Option.some.inj hw]
              exact below_self old
            · exact not_gt_iff.mp (bne_iff_ne.mpr hgt)

theorem fixedBy_perm {records records' : List AdvisoryRecord} (h : records.Perm records')
    {P : AdvisoryRecord → Prop} (hex : ∃ r ∈ records, P r) : ∃ r ∈ records', P r := by
  have ⟨r, hr, hp⟩ := hex
  exact ⟨r, h.mem_iff.mp hr, hp⟩

theorem newestFix_perm (hlib : Documented lib decimal) (h : Unmixed lib S)
    {records records' : List AdvisoryRecord} (hperm : records.Perm records')
    (hfixes : FixesIn lib S records) {result result' : Option String}
    (hok : newestFix lib none records = .ok result)
    (hok' : newestFix lib none records' = .ok result') {u : String} (hu : result = some u) :
    ∃ u', result' = some u' ∧ u ∈ S ∧ u' ∈ S ∧ (∃ r, FixedBy lib r u) ∧ Below lib u u' := by
  have hfixes' : FixesIn lib S records' := fun r hr => hfixes r (hperm.mem_iff.mpr hr)
  have hnone : ∀ v, (none : Option String) = some v → v ∈ S := fun v hv => nomatch hv
  have hfrom := ((newestFix_ok hlib h hnone hfixes hok).1 u hu).resolve_left (fun hv => nomatch hv)
  have ⟨r, hr, hby⟩ := hfrom
  have ⟨u', hu', hin', hle⟩ := (newestFix_ok hlib h hnone hfixes' hok').2 u
    (.inr (fixedBy_perm hperm hfrom))
  exact ⟨u', hu', hfixes r hr u hby, hin', ⟨r, hby⟩, hle⟩

theorem newest_of_unmixed (hlib : Documented lib decimal) (h : Unmixed lib S) (p p' : Provider)
    (release package upstream : String)
    (hperm : (p.advisoriesFor release package).Perm (p'.advisoriesFor release package))
    (hfixes : FixesIn lib S (p.advisoriesFor release package)) :
    shipsSeries lib p release package upstream = shipsSeries lib p' release package upstream ∧
      ∀ u u', newestFix lib none (p.advisoriesFor release package) = .ok (some u) →
        newestFix lib none (p'.advisoriesFor release package) = .ok (some u') →
          compareUpstream lib u u' = .eq := by
  have hfixes' : FixesIn lib S (p'.advisoriesFor release package) :=
    fun r hr => hfixes r (hperm.mem_iff.mpr hr)
  have htied : ∀ u u', newestFix lib none (p.advisoriesFor release package) = .ok (some u) →
      newestFix lib none (p'.advisoriesFor release package) = .ok (some u') →
        compareUpstream lib u u' = .eq := by
    intro u u' hok hok'
    have ⟨v', hv', _, _, _, hle⟩ := newestFix_perm hlib h hperm hfixes hok hok' rfl
    have ⟨v, hv, _, _, _, hge⟩ := newestFix_perm hlib h hperm.symm hfixes' hok' hok rfl
    rw [← Option.some.inj hv'] at hle
    rw [← Option.some.inj hv] at hge
    exact eq_iff.mpr ⟨hle, hge⟩
  refine ⟨?_, htied⟩
  unfold shipsSeries
  cases lib.seriesOf upstream with
  | none => rfl
  | some series =>
    cases hok : newestFix lib none (p.advisoriesFor release package) with
    | error e =>
      have ⟨he, hrefused⟩ := newestFix_error_iff.mp hok
      rw [newestFix_error_iff.mpr ⟨he, fixedBy_perm hperm hrefused⟩]
    | ok result =>
      cases hok' : newestFix lib none (p'.advisoriesFor release package) with
      | error e =>
        have ⟨he, hrefused⟩ := newestFix_error_iff.mp hok'
        rw [newestFix_error_iff.mpr ⟨he, fixedBy_perm hperm.symm hrefused⟩] at hok
        cases hok
      | ok result' =>
        cases result with
        | none =>
          cases result' with
          | none => rfl
          | some u' =>
            have ⟨u, hu, _⟩ := newestFix_perm hlib h hperm.symm hfixes' hok' hok rfl
            cases hu
        | some u =>
          have ⟨v', hv', hin, hin', hfix, _⟩ := newestFix_perm hlib h hperm hfixes hok hok' rfl
          cases result' with
          | none => cases hv'
          | some u' =>
            have ⟨_, _, _, _, hfix', _⟩ := newestFix_perm hlib h hperm.symm hfixes' hok' hok rfl
            rw [← Option.some.inj hv'] at hin'
            have hsame := (compareElements_eq_iff (key_upstream hlib u) (key_upstream hlib u')).mp
              (htied u u' hok hok')
            simp only [h.series u hin u' hin' hfix hfix' hsame]

end Families

section Exactness

variable {lib : RetroText} {decimal : Char → Bool} {S : Set String}

theorem reads_iff (hlib : Documented lib decimal) {raw : String} :
    reads lib raw = true ↔
      ∀ word ∈ words lib raw, lib.isdigit word = true → word.toList.length ≤ 4300 := by
  unfold reads
  rw [List.all_eq_true]
  refine forall₂_congr fun word hword => ?_
  have ⟨run, heq, hne, _, hall⟩ := mem_words hlib hword
  rw [heq]
  cases hall with
  | inr hall =>
    rw [isdigit_letters hlib hne hall]
    simp
  | inl hall =>
    have hint := hlib.int (String.ofList run) (by rw [String.toList_ofList]; exact hne)
      (by rw [String.toList_ofList]; exact hall)
    rw [isdigit_run hlib hne hall]
    split_ifs at hint with hshort
    · have ⟨n, hn⟩ := hint
      rw [hn]
      exact ⟨fun _ _ => hshort, fun _ => rfl⟩
    · rw [hint]
      exact ⟨fun hfalse => Bool.noConfusion hfalse, fun hle => absurd (hle rfl) hshort⟩

theorem congr_of_trans
    (h : ∀ a ∈ S, ∀ b ∈ S, ∀ c ∈ S, Below lib a b → Below lib b c → Below lib a c)
    {a b c : String} (ha : a ∈ S) (hb : b ∈ S) (hc : c ∈ S) (heq : compareUpstream lib a b = .eq) :
    compareUpstream lib a c = compareUpstream lib b c := by
  have ⟨hab, hba⟩ := eq_iff.mp heq
  apply verdict_ext
  · exact ⟨h b hb a ha c hc hba, h a ha b hb c hc hab⟩
  · rw [← compareUpstream_swap, ← compareUpstream_swap]
    exact ⟨fun hca => h c hc a ha b hb hca hab, fun hcb => h c hc b hb a ha hcb hba⟩

theorem orders_of_unmixed (hlib : Documented lib decimal) (h : Unmixed lib S)
    (hclosed : ∀ v ∈ S, ∀ bare, lib.portablePatch (lib.strip v) = some bare → bare ∈ S) :
    Orders lib S where
  returns a ha b hb := by
    refine ⟨compareUpstream lib a b, ?_⟩
    unfold compareChecked
    rw [(reads_iff hlib).mpr (h.short a ha), (reads_iff hlib).mpr (h.short b hb)]
    rfl
  antisymm a _ b _ := compareUpstream_swap a b
  trans a ha b hb c hc := below_trans hlib h ha hb hc
  congr a ha b hb c hc := congr_of_trans
    (fun a ha b hb c hc => below_trans hlib h ha hb hc) ha hb hc
  convex s hs x hx y hy z hz := convex_of_unmixed hlib h hclosed hs hx hy hz
  newest := newest_of_unmixed hlib h

def upTo (bound : String) : CpeRange :=
  { cve := ""
    exact := none
    startIncluding := none
    startExcluding := none
    endIncluding := some bound
    endExcluding := none }

theorem inRange_upTo {version bound : String} (h : bound ≠ "") :
    inRange lib version (upTo bound) = true ↔ Below lib (against lib version bound) bound := by
  have hnone : ∀ ok, satisfies lib version none ok = true := fun ok => rfl
  unfold inRange upTo
  rw [if_neg (by simp [text])]
  simp only [hnone, Bool.true_and, Bool.and_true, satisfies_iff, not_gt_iff]
  exact or_iff_right h

theorem alone_of_convex (hlib : Documented lib decimal)
    (hclosed : ∀ v ∈ S, ∀ bare, lib.portablePatch (lib.strip v) = some bare → bare ∈ S)
    (h : Orders lib S) {y z : String} (hy : y ∈ S) (hz : z ∈ S)
    (hport : lib.portablePatch (lib.strip y) = none)
    (hport' : lib.portablePatch (lib.strip z) ≠ none) :
    ¬Beside (upstreamKey lib y) (upstreamKey lib z) := by
  intro hbeside
  have ⟨bare, hbare⟩ := Option.ne_none_iff_exists'.mp hport'
  have hin := hclosed z hz bare hbare
  have ⟨hnumbers, m, hm⟩ := portable_key hlib hbare
  have ⟨_, _, _, _, _, _, hdotted⟩ := (hlib.portablePatch z bare).mp hbare
  have ⟨_, hfree, hnone, hne⟩ := dotted_key hlib hdotted
  rw [hm] at hbeside
  have ⟨hlt, hle⟩ := (beside_iff hnumbers (key_upstream hlib y)).mp hbeside
  have hlt' : compareUpstream lib bare y = .lt := hlt
  have hle' : Below lib y z := by
    unfold Below compareUpstream
    rw [hm]
    exact hle
  have hbounded : Bounded S (upTo bare) := by
    intro bound hbound
    simp only [upTo, List.mem_cons, List.not_mem_nil, or_false] at hbound
    cases hbound with
    | inl hbound => exact .inl (by rw [hbound]; rfl)
    | inr hbound =>
      rcases hbound with hbound | hbound | hbound | hbound
      · exact .inl (by rw [hbound]; rfl)
      · exact .inl (by rw [hbound]; rfl)
      · exact .inr (by rw [hbound]; exact hin)
      · exact .inl (by rw [hbound]; rfl)
  have hself : against lib bare bare = bare := by
    rw [against, hnone]
  have hstripped : against lib z bare = bare := by
    rw [against, hbare]
    simp only [hfree]
    exact if_neg Bool.false_ne_true
  have hkept : against lib y bare = y := by
    rw [against, hport]
  have hwindow := h.convex (upTo bare) hbounded bare hin y hy z hz
    (by unfold Below; rw [hlt']; rfl) hle'
    ((inRange_upTo hne).mpr (by rw [hself]; exact below_self bare))
    ((inRange_upTo hne).mpr (by rw [hstripped]; exact below_self bare))
  rw [inRange_upTo hne, hkept] at hwindow
  exact lt_iff.mp (beq_iff_eq.mpr hlt') hwindow

def feed (records : List AdvisoryRecord) : Provider :=
  { name := ""
    available := true
    feedDate := none
    releases := []
    advisoriesFor := fun _ _ => records }

theorem newestFix_pair {r s : AdvisoryRecord} {u v : String} (hr : FixedBy lib r u)
    (hs : FixedBy lib s v) (heq : compareUpstream lib u v = .eq) :
    newestFix lib none [r, s] = .ok (some u) := by
  have hkeep : compareUpstream lib v u ≠ .gt := by
    rw [compareUpstream_swap, heq]
    exact fun h => Ordering.noConfusion h
  rw [newestFix, if_neg hr.1, hr.2]
  simp only
  rw [newestFix, if_neg hs.1, hs.2]
  simp only
  rw [if_neg hkeep, newestFix]

theorem shipsSeries_of_newest {p : Provider} {release package upstream newest : String}
    {series : String × String} (hseries : lib.seriesOf upstream = some series)
    (hok : newestFix lib none (p.advisoriesFor release package) = .ok (some newest)) :
    shipsSeries lib p release package upstream =
      .ok (decide (lib.seriesOf newest = some series)) := by
  unfold shipsSeries
  rw [hseries]
  simp only [hok]

theorem series_of_newest (h : Orders lib S) {u v : String} (hu : u ∈ S) (hv : v ∈ S)
    {r s : AdvisoryRecord} (hr : FixedBy lib r u) (hs : FixedBy lib s v)
    (hsame : Same (upstreamKey lib u) (upstreamKey lib v)) {series : String × String}
    (hseries : lib.seriesOf u = some series) : lib.seriesOf v = some series := by
  have heq : compareUpstream lib u v = .eq := compareElements_of_same hsame
  have hfixes : FixesIn lib S [r, s] := by
    intro t ht w hw
    have honly : ∀ {x y}, FixedBy lib t x → FixedBy lib t y → x = y := fun hx hy =>
      Option.some.inj (Except.ok.inj (hx.2.symm.trans hy.2))
    cases List.mem_cons.mp ht with
    | inl ht =>
      rw [ht] at honly hw
      rw [honly hw hr]
      exact hu
    | inr ht =>
      rw [List.mem_singleton.mp ht] at honly hw
      rw [honly hw hs]
      exact hv
  have hships := (h.newest (feed [r, s]) (feed [s, r]) "" "" u (List.Perm.swap s r []) hfixes).1
  have hback : compareUpstream lib v u = .eq := by
    rw [compareUpstream_swap, heq]
    rfl
  rw [shipsSeries_of_newest (p := feed [r, s]) hseries (newestFix_pair hr hs heq),
    shipsSeries_of_newest (p := feed [s, r]) hseries (newestFix_pair hs hr hback),
    decide_eq_true hseries] at hships
  exact of_decide_eq_true (Except.ok.inj hships).symm

theorem unmixed_of_orders (hlib : Documented lib decimal) (h : Orders lib S)
    (hclosed : ∀ v ∈ S, ∀ bare, lib.portablePatch (lib.strip v) = some bare → bare ∈ S) :
    Unmixed lib S where
  short v hv := by
    apply (reads_iff hlib).mp
    have ⟨verdict, hok⟩ := h.returns v hv v hv
    unfold compareChecked at hok
    cases hreads : reads lib v with
    | true => rfl
    | false =>
      rw [hreads] at hok
      cases hok
  apart a ha b hb c hc hclash := by
    have ⟨hlt, hlt', hle⟩ := circle_of_clash (key_upstream hlib b) hclash
    have hcb : Below lib c b := by
      unfold Below compareUpstream
      rw [hlt']
      rfl
    have hca := h.trans c hc b hb a ha hcb hle
    unfold Below compareUpstream at hca
    rw [compareElements_swap, hlt] at hca
    exact Bool.noConfusion hca
  alone y hy z hz := alone_of_convex hlib hclosed h hy hz
  series u hu v hv hfix hfix' hsame := by
    have ⟨r, hr⟩ := hfix
    have ⟨s, hs⟩ := hfix'
    have hback : Same (upstreamKey lib v) (upstreamKey lib u) := by
      have ⟨n, hor⟩ := hsame
      exact ⟨n, Or.symm hor⟩
    apply Option.ext
    intro series
    exact ⟨series_of_newest h hu hv hr hs hsame, series_of_newest h hv hu hs hr hback⟩

theorem compared_closed (hlib : Documented lib decimal) (S : Set String) :
    ∀ v ∈ compared lib S, ∀ bare, lib.portablePatch (lib.strip v) = some bare →
      bare ∈ compared lib S := by
  intro v hv bare hbare
  cases hv with
  | inl hv => exact .inr ⟨v, hv, hbare⟩
  | inr hv =>
    have ⟨w, _, hw⟩ := hv
    have ⟨_, _, _, _, _, _, hdotted⟩ := (hlib.portablePatch w v).mp hw
    rw [(dotted_key hlib hdotted).2.2.1] at hbare
    cases hbare

/-- A family of versions is ordered as the range check and the choice of the newest fix need it
exactly where no letters come between a version and itself with a zero more, nor, unless they are a
patch level, under a patch level of the same numbers, no number is too long for `int`, and no two
fixes of one version name different series. -/
theorem orders_iff (lib : RetroText) (decimal : Char → Bool) (hlib : Documented lib decimal)
    (S : Set String) : Orders lib (compared lib S) ↔ Unmixed lib (compared lib S) :=
  ⟨fun h => unmixed_of_orders hlib h (compared_closed hlib S),
    fun h => orders_of_unmixed hlib h (compared_closed hlib S)⟩

end Exactness

section Python

def isDotted : Bool → List Char → Bool
  | seen, [] => seen
  | seen, c :: cs => if c.isDigit then isDotted true cs else seen && c == '.' && isDotted false cs

theorem isDotted_digits {digits : List Char} (hne : digits ≠ [])
    (hall : ∀ c ∈ digits, c.isDigit = true) (seen : Bool) (rest : List Char) :
    isDotted seen (digits ++ rest) = isDotted true rest := by
  induction digits generalizing seen with
  | nil => exact absurd rfl hne
  | cons c cs ih =>
    rw [List.cons_append, isDotted, if_pos (hall c List.mem_cons_self)]
    cases cs with
    | nil => rfl
    | cons d ds =>
      exact ih (List.cons_ne_nil d ds) (fun e he => hall e (List.mem_cons_of_mem c he)) true

theorem isDotted_of_dotted {cs : List Char} (h : Dotted Char.isDigit cs) :
    isDotted false cs = true := by
  induction h with
  | number digits hne hall =>
    have hrun := isDotted_digits hne hall false []
    rw [List.append_nil] at hrun
    rw [hrun, isDotted]
  | dot digits rest hne hall _ ih =>
    rw [isDotted_digits hne hall, isDotted, if_neg (by decide), ih]
    rfl

theorem dotted_of_isDotted (cs : List Char) :
    (isDotted false cs = true → Dotted Char.isDigit cs) ∧
      (isDotted true cs = true → ∀ front, front ≠ [] → (∀ c ∈ front, c.isDigit = true) →
        Dotted Char.isDigit (front ++ cs)) := by
  induction cs with
  | nil =>
    refine ⟨fun h => Bool.noConfusion h, fun _ front hne hall => ?_⟩
    rw [List.append_nil]
    exact .number front hne hall
  | cons c cs ih =>
    by_cases hc : c.isDigit = true
    · have hrun : ∀ seen, isDotted seen (c :: cs) = true → ∀ front,
          (∀ d ∈ front, d.isDigit = true) → Dotted Char.isDigit (front ++ c :: cs) := by
        intro seen h front hall
        rw [isDotted, if_pos hc] at h
        have hlong := ih.2 h (front ++ [c]) (List.append_ne_nil_of_right_ne_nil _ (by simp)) (by
          intro d hd
          cases List.mem_append.mp hd with
          | inl hd => exact hall d hd
          | inr hd => rw [List.mem_singleton.mp hd]; exact hc)
        rw [List.append_assoc] at hlong
        exact hlong
      exact ⟨fun h => hrun false h [] (by simp), fun h front _ hall => hrun true h front hall⟩
    · refine ⟨fun h => ?_, fun h front hne hall => ?_⟩
      · rw [isDotted, if_neg hc] at h
        exact Bool.noConfusion h
      · rw [isDotted, if_neg hc] at h
        simp only [Bool.true_and, Bool.and_eq_true, beq_iff_eq] at h
        rw [h.1]
        exact .dot front cs hne hall (ih.1 h.2)

/-- `_PORTABLE_PATCH.match`, of ASCII digits. -/
def portablePrefix (value : String) : Option String :=
  let front := value.toList.rdropWhile Char.isDigit
  if value.toList.rtakeWhile Char.isDigit ≠ [] ∧
      (front.getLast? = some 'p' ∨ front.getLast? = some 'P') ∧
      isDotted false front.dropLast = true then
    some (String.ofList front.dropLast)
  else none

theorem rspan_append (front : List Char) {digits : List Char} {c : Char}
    (hall : ∀ d ∈ digits, d.isDigit = true) (hc : c.isDigit = false) :
    (front ++ c :: digits).rdropWhile Char.isDigit = front ++ [c] ∧
      (front ++ c :: digits).rtakeWhile Char.isDigit = digits := by
  have hrev : ∀ d ∈ digits.reverse, d.isDigit = true := fun d hd => hall d (List.mem_reverse.mp hd)
  have heq : (front ++ c :: digits).reverse = digits.reverse ++ c :: front.reverse := by simp
  unfold List.rdropWhile List.rtakeWhile
  rw [heq, List.dropWhile_append_of_pos hrev, List.takeWhile_append_of_pos hrev]
  simp [hc]

theorem portablePrefix_iff (value bare : String) :
    portablePrefix value = some bare ↔ Portable Char.isDigit value bare := by
  constructor
  · intro h
    unfold portablePrefix at h
    simp only at h
    split_ifs at h with hcut
    have ⟨hne, hlast, hdotted⟩ := hcut
    have hc : ∃ c, (value.toList.rdropWhile Char.isDigit).getLast? = some c ∧
        (c = 'p' ∨ c = 'P') := by
      cases hlast with
      | inl hlast => exact ⟨'p', hlast, .inl rfl⟩
      | inr hlast => exact ⟨'P', hlast, .inr rfl⟩
    have ⟨c, hget, hletter⟩ := hc
    have hfront := List.dropLast_append_getLast? c hget
    refine ⟨c, value.toList.rtakeWhile Char.isDigit, ?_, hletter, hne, ?_, ?_⟩
    · apply String.toList_injective
      rw [← Option.some.inj h, String.toList_append, String.toList_ofList, String.toList_ofList,
        ← List.singleton_append, ← List.append_assoc, hfront]
      exact List.rdropWhile_append_rtakeWhile.symm
    · exact fun d hd => List.mem_rtakeWhile_imp hd
    · rw [← Option.some.inj h, String.toList_ofList]
      exact (dotted_of_isDotted _).1 hdotted
  · intro ⟨c, digits, hvalue, hletter, hne, hall, hdotted⟩
    have hc : c.isDigit = false := by
      cases hletter with
      | inl hletter => rw [hletter]; decide
      | inr hletter => rw [hletter]; decide
    have hlist : value.toList = bare.toList ++ c :: digits := by
      rw [hvalue, String.toList_append, String.toList_ofList]
    have ⟨hdrop, htake⟩ := rspan_append bare.toList hall hc
    unfold portablePrefix
    simp only [hlist, hdrop, htake, List.dropLast_concat, List.getLast?_concat,
      String.ofList_toList]
    apply if_pos
    exact ⟨hne, hletter.imp (congrArg some) (congrArg some), isDotted_of_dotted hdotted⟩

def pythonRetro : RetroText :=
  { asciiRetro with
    strip := fun raw => String.ofList (ResumedBatches.strip raw.toList)
    int := fun raw => if raw.toList.length ≤ 4300 then ascii.int raw else none
    isdigit := fun raw => decide (raw ≠ "") && raw.toList.all Char.isDigit
    versionTokens := fun raw => (tokenRuns Char.isDigit raw.toList).map String.ofList
    portablePatch := portablePrefix
    isalpha := Char.isAlpha }

theorem digit_plain {c : Char} (h : c.isDigit = true) :
    c.isLower = false ∧ c.isUpper = false ∧ c ≠ '.' ∧ c.isAlpha = false := by
  have ⟨hlow, hhigh⟩ := VersionTokens.digit_bounds h
  have hcode : c.val.toNat = c.toNat := rfl
  have hlower : c.isLower = false := by
    rw [← Bool.not_eq_true]
    intro hyes
    have : 97 ≤ c.val.toNat := of_decide_eq_true (p := c.val ≥ 97) (Bool.and_eq_true_iff.mp hyes).1
    omega
  have hupper : c.isUpper = false := by
    rw [← Bool.not_eq_true]
    intro hyes
    have hbounds := of_decide_eq_true (p := c.val ≥ 65 ∧ c.val ≤ 90) hyes
    have : 65 ≤ c.val.toNat := hbounds.1
    omega
  refine ⟨hlower, hupper, ?_, ?_⟩
  · intro heq
    rw [heq] at h
    exact absurd h (by decide)
  · change (c.isUpper || c.isLower) = false
    rw [hlower, hupper]
    rfl

theorem toLower_of_not_upper {c : Char} (h : c.isUpper = false) : c.toLower = c := by
  exact dif_neg (of_decide_eq_false h)

theorem int_digits (digits : List Char) (h : ∀ c ∈ digits, c.isDigit = true) (start : ℕ) :
    ∃ n : ℕ, digits.foldl (fun total c => 10 * total + ((c.toNat : ℤ) - 48)) (start : ℤ) = n := by
  induction digits generalizing start with
  | nil => exact ⟨start, rfl⟩
  | cons c cs ih =>
    have ⟨hlow, _⟩ := VersionTokens.digit_bounds (h c List.mem_cons_self)
    have hstep : 10 * (start : ℤ) + ((c.toNat : ℤ) - 48) =
        ((10 * start + (c.toNat - 48) : ℕ) : ℤ) := by
      omega
    rw [List.foldl_cons, hstep]
    exact ih (fun d hd => h d (List.mem_cons_of_mem c hd)) _

theorem portablePatch_python : pythonRetro.portablePatch = portablePrefix := rfl

theorem portable_python (raw bare : String) :
    pythonRetro.portablePatch (pythonRetro.strip raw) = some bare ↔
      Portable Char.isDigit (pythonRetro.strip raw) bare := by
  rw [portablePatch_python]
  exact portablePrefix_iff _ bare

theorem int_python (s : String) (hne : s.toList ≠ []) (hall : ∀ c ∈ s.toList, c.isDigit = true) :
    if s.toList.length ≤ 4300 then ∃ n : ℕ, pythonRetro.int s = some (n : ℤ)
    else pythonRetro.int s = none := by
  have hs : s ≠ "" := fun heq => hne (by rw [heq]; rfl)
  have hint : pythonRetro.int s = if s.toList.length ≤ 4300 then ascii.int s else none := rfl
  rw [hint]
  by_cases hshort : s.toList.length ≤ 4300
  · rw [if_pos hshort, if_pos hshort]
    have ⟨n, hn⟩ := int_digits s.toList hall 0
    refine ⟨n, ?_⟩
    have hascii : ascii.int s = if (decide (s ≠ "") && s.toList.all Char.isDigit) = true then
        some (s.toList.foldl (fun total c => 10 * total + ((c.toNat : ℤ) - 48)) 0) else none := rfl
    rw [hascii, decide_eq_true hs, List.all_eq_true.mpr hall]
    exact congrArg some hn
  · rw [if_neg hshort, if_neg hshort]

theorem pythonRetro_documented : Documented pythonRetro Char.isDigit where
  strip _ := rfl
  plain c hc := by
    have ⟨hlower, hupper, hdot, halpha⟩ := digit_plain hc
    exact ⟨EvrPrinting.digit_not_space hc, hlower, hupper, hdot, halpha⟩
  dot := by decide
  versionTokens _ := rfl
  portablePatch := portable_python
  lower s h := by
    change (String.ofList (s.toList.map Char.toLower)).toList = _
    rw [String.toList_ofList]
    apply List.map_congr_left
    intro c hc
    rcases h c hc with hdigit | hdot | hp | hp
    · have ⟨_, hupper, _, _⟩ := digit_plain hdigit
      rw [toLower_of_not_upper hupper]
      refine (if_neg ?_).symm
      intro heq
      rw [heq] at hdigit
      exact absurd hdigit (by decide)
    · rw [hdot]; decide
    · rw [hp]; decide
    · rw [hp]; decide
  lower_letter s h := by
    have ⟨c, hc, hlower⟩ := h
    change c ∈ (String.ofList (s.toList.map Char.toLower)).toList at hc
    rw [String.toList_ofList] at hc
    have ⟨d, hd, heq⟩ := List.mem_map.mp hc
    refine List.any_eq_true.mpr ⟨d, hd, ?_⟩
    change (d.isUpper || d.isLower) = true
    cases hupper : d.isUpper with
    | true => rfl
    | false =>
      rw [toLower_of_not_upper hupper] at heq
      rw [heq, hlower]
      rfl
  isdigit s hne hall := by
    have hs : s ≠ "" := fun heq => hne (by rw [heq]; rfl)
    change (decide (s ≠ "") && s.toList.all Char.isDigit) = true
    rw [decide_eq_true hs, List.all_eq_true.mpr hall]
    rfl
  isdigit_letter s h := by
    have ⟨c, hc, hlower⟩ := h
    change (decide (s ≠ "") && s.toList.all Char.isDigit) = false
    rw [Bool.and_eq_false_iff]
    right
    rw [List.all_eq_false]
    refine ⟨c, hc, fun hdigit => ?_⟩
    rw [(digit_plain hdigit).1] at hlower
    cases hlower
  int := int_python

theorem orders_iff_python : Documented pythonRetro Char.isDigit ∧
    ∀ S, Orders pythonRetro (compared pythonRetro S) ↔
      Unmixed pythonRetro (compared pythonRetro S) :=
  ⟨pythonRetro_documented, orders_iff pythonRetro Char.isDigit pythonRetro_documented⟩

def fixedIn (version : String) : AdvisoryRecord :=
  { advisoryId := ""
    cveIds := []
    release := ""
    sourcePackage := ""
    fixedVersion := some version
    severity := ""
    state := .resolved
    url := none
    provider := ""
    feedDate := none
    rpm := none }

/-- A patch level ranks above its version and below the version with a zero more, which are one;
the newest fix hangs on their order, and a window on what it reads of a patch level. -/
theorem patch_in_circle :
    (compareUpstream pythonRetro "8.2" "8.2p1" = .lt ∧
      compareUpstream pythonRetro "8.2p1" "8.2.0" = .lt ∧
      compareUpstream pythonRetro "8.2.0" "8.2" = .eq) ∧
    (¬∀ a b c, Below pythonRetro a b → Below pythonRetro b c → Below pythonRetro a c) ∧
    (newestFix pythonRetro none [fixedIn "8.2-1", fixedIn "8.2.0-1", fixedIn "8.2p1-1"] =
        .ok (some "8.2p1") ∧
      newestFix pythonRetro none [fixedIn "8.2p1-1", fixedIn "8.2-1", fixedIn "8.2.0-1"] =
        .ok (some "8.2.0")) ∧
    (compareUpstream pythonRetro "8.2" "8.2a" = .lt ∧
      compareUpstream pythonRetro "8.2a" "8.2p1" = .lt ∧
      inRange pythonRetro "8.2" (upTo "8.2") = true ∧
      inRange pythonRetro "8.2a" (upTo "8.2") = false ∧
      inRange pythonRetro "8.2p1" (upTo "8.2") = true) := by
  refine ⟨by decide +kernel, fun htrans => ?_, ⟨?_, ?_⟩, by decide +kernel⟩
  · have hbelow := htrans "8.2p1" "8.2.0" "8.2"
    unfold Below at hbelow
    exact absurd (hbelow (by decide +kernel) (by decide +kernel)) (by decide +kernel)
  · decide +kernel
  · decide +kernel

end Python

end Shapoclyack.UpstreamOrder
