import Shapoclyack.ScanScopes
import Shapoclyack.SoftwareCveMatch
import Shapoclyack.VersionTokens

set_option autoImplicit false

namespace Shapoclyack.EvrPrinting

open Library VersionCompare VersionOrder VersionTokens
open ResumedBatches (isSpace isSpace_of_printable strip)
open SoftwareCveMatch (comparedWith compareStatus)

section Separators

variable {sep : Char} {raw head tail : String}

theorem partition_eq_some :
    partition sep raw = some (head, tail) ↔
      sep ∉ head.toList ∧ raw = head ++ String.ofList [sep] ++ tail := by
  unfold partition
  constructor
  · intro h
    split_ifs at h with hmem
    have hmem' : sep ∈ raw.toList := by simpa using hmem
    have hpair := Option.some.inj h
    simp only [Prod.mk.injEq] at hpair
    have hne : raw.toList.dropWhile (· != sep) ≠ [] := by
      rw [Ne, List.dropWhile_eq_nil_iff]
      intro hall
      exact absurd (hall sep hmem') (by simp)
    have hhead : (raw.toList.dropWhile (· != sep)).head hne = sep := by
      simpa using List.head_dropWhile_not (· != sep) (l := raw.toList) (w := hne)
    constructor
    · rw [← hpair.1, String.toList_ofList]
      intro hin
      have hno := List.mem_takeWhile_imp (p := (· != sep)) hin
      exact absurd hno (by simp)
    · apply String.toList_injective
      rw [← hpair.1, ← hpair.2, String.toList_append, String.toList_append, String.toList_ofList,
        String.toList_ofList, String.toList_ofList, List.append_assoc]
      have hrest : [sep] ++ (raw.toList.dropWhile (· != sep)).drop 1 =
          raw.toList.dropWhile (· != sep) := by
        have hcons := List.cons_head_tail hne
        rw [hhead] at hcons
        rw [List.drop_one]
        exact hcons
      rw [hrest, List.takeWhile_append_dropWhile]
  · intro ⟨hout, hraw⟩
    have hlist : raw.toList = head.toList ++ sep :: tail.toList := by
      rw [hraw, String.toList_append, String.toList_append, String.toList_ofList,
        List.append_assoc]
      rfl
    have hall : ∀ c ∈ head.toList, (c != sep) = true := by
      intro c hc
      rw [bne_iff_ne]
      rintro rfl
      exact hout hc
    rw [if_pos (by rw [hlist]; simp), hlist, List.takeWhile_append_of_pos hall,
      List.dropWhile_append_of_pos hall]
    simp

theorem partition_eq_none : partition sep raw = none ↔ sep ∉ raw.toList := by
  unfold partition
  split_ifs with h
  · simpa using h
  · simpa using h

theorem rpartition_eq_some :
    rpartition sep raw = some (head, tail) ↔
      sep ∉ tail.toList ∧ raw = head ++ String.ofList [sep] ++ tail := by
  unfold rpartition
  constructor
  · intro h
    split_ifs at h with hmem
    have hmem' : sep ∈ raw.toList := by simpa using hmem
    have hpair := Option.some.inj h
    simp only [Prod.mk.injEq] at hpair
    have hne : raw.toList.rdropWhile (· != sep) ≠ [] := by
      rw [Ne, List.rdropWhile_eq_nil_iff]
      intro hall
      exact absurd (hall sep hmem') (by simp)
    have hlast : (raw.toList.rdropWhile (· != sep)).getLast hne = sep := by
      simpa using List.rdropWhile_last_not (· != sep) raw.toList hne
    constructor
    · rw [← hpair.2, String.toList_ofList]
      intro hin
      have hno := List.mem_rtakeWhile_imp hin
      exact absurd hno (by simp)
    · apply String.toList_injective
      rw [← hpair.1, ← hpair.2, String.toList_append, String.toList_append, String.toList_ofList,
        String.toList_ofList, String.toList_ofList]
      have hfront : (raw.toList.rdropWhile (· != sep)).dropLast ++ [sep] =
          raw.toList.rdropWhile (· != sep) := by
        have hconcat := List.dropLast_append_getLast hne
        rw [hlast] at hconcat
        exact hconcat
      rw [hfront, List.rdropWhile, List.rtakeWhile, ← List.reverse_append,
        List.takeWhile_append_dropWhile, List.reverse_reverse]
  · intro ⟨hout, hraw⟩
    have hlist : raw.toList = head.toList ++ [sep] ++ tail.toList := by
      rw [hraw, String.toList_append, String.toList_append, String.toList_ofList]
    have hall : ∀ c ∈ tail.toList.reverse, (c != sep) = true := by
      intro c hc
      rw [bne_iff_ne]
      rintro rfl
      exact hout (List.mem_reverse.mp hc)
    rw [if_pos (by rw [hlist]; simp), hlist, List.rdropWhile, List.rtakeWhile,
      List.reverse_append, List.dropWhile_append_of_pos hall, List.takeWhile_append_of_pos hall]
    simp

theorem rpartition_eq_none : rpartition sep raw = none ↔ sep ∉ raw.toList := by
  unfold rpartition
  split_ifs with h
  · simpa using h
  · simpa using h

end Separators

section Ends

def Stripped (text : List Char) : Prop :=
  (∀ c, text.head? = some c → isSpace c = false) ∧ ∀ c, text.getLast? = some c → isSpace c = false

theorem length_strip_le (text : List Char) : (strip text).length ≤ text.length :=
  ((List.rdropWhile_prefix isSpace _).sublist.trans (List.dropWhile_sublist _)).length_le

theorem strip_of_stripped {text : List Char} (h : Stripped text) : strip text = text := by
  cases text with
  | nil => rfl
  | cons c cs =>
    have hne : c :: cs ≠ [] := List.cons_ne_nil c cs
    have hlast := h.2 _ (List.getLast?_eq_some_getLast hne)
    exact ScanScopes.strip_of_ends rfl (List.dropLast_append_getLast hne).symm (h.1 c rfl) hlast

theorem stripped_strip (text : List Char) : Stripped (strip text) := by
  constructor
  · intro c hc
    have hne : strip text ≠ [] := by
      intro hnil
      rw [hnil] at hc
      cases hc
    -- the first character of what a drop at the end leaves is the first one it was given
    have hdrop : text.dropWhile isSpace ≠ [] := by
      intro hnil
      apply hne
      rw [strip, hnil]
      rfl
    have ⟨rest, hrest⟩ := List.rdropWhile_prefix isSpace (text.dropWhile isSpace)
    have hhead : (text.dropWhile isSpace).head? = some c := by
      rw [← hrest]
      change (strip text ++ rest).head? = some c
      rw [List.head?_append_of_ne_nil _ hne, hc]
    have hno := List.head_dropWhile_not isSpace (l := text) (w := hdrop)
    rw [List.head?_eq_some_head hdrop] at hhead
    rw [← Option.some.inj hhead]
    exact hno
  · intro c hc
    have hne : strip text ≠ [] := by
      intro hnil
      rw [hnil] at hc
      cases hc
    have hno := List.rdropWhile_last_not isSpace (text.dropWhile isSpace) hne
    have hlast := List.getLast?_eq_some_getLast hne
    rw [hc] at hlast
    rw [Option.some.inj hlast]
    exact eq_false_of_ne_true hno

end Ends

section Reading

variable {lib : VersionText} {s : String} {flavor : Flavor} {e : Evr}

/-- `sys.int_info.default_max_str_digits`. -/
def maxDigits : ℕ := 4300

/-- What `int` reads and `str` prints is below this. -/
def maxInt : ℕ := 10 ^ maxDigits

theorem maxInt_pos : 0 < maxInt := by
  unfold maxInt
  positivity

/-- The standard library's documented behaviour that printing and reading rely on. -/
structure Documented (lib : VersionText) : Prop where
  strip : ∀ raw, lib.strip raw = String.ofList (ResumedBatches.strip raw.toList)
  numeral : ∀ n < maxInt, lib.isdigit (toString n) = true ∧ lib.int (toString n) = some n
  unsigned : ∀ raw k, lib.isdigit raw = true → lib.int raw = some k → ∃ n < maxInt, k = n

def Body (rest version release : String) : Prop :=
  ('-' ∉ rest.toList ∧ version = rest ∧ release = "") ∨
    (rest = version ++ "-" ++ release ∧ '-' ∉ release.toList)

theorem body_of_rpartition (rest : String) :
    Body rest ((rpartition '-' rest).getD (rest, "")).1
      ((rpartition '-' rest).getD (rest, "")).2 := by
  cases h : rpartition '-' rest with
  | none => exact .inl ⟨rpartition_eq_none.mp h, rfl, rfl⟩
  | some cut =>
    have hcut := rpartition_eq_some.mp (h : _ = some (cut.1, cut.2))
    exact .inr ⟨hcut.2, hcut.1⟩

theorem rpartition_of_body {rest version release : String} (h : Body rest version release) :
    (rpartition '-' rest).getD (rest, "") = (version, release) := by
  cases h with
  | inl h =>
    rw [rpartition_eq_none.mpr h.1, h.2.1, h.2.2]
    rfl
  | inr h =>
    rw [rpartition_eq_some.mpr ⟨h.2, h.1⟩]
    rfl

theorem parseEvr_ok :
    parseEvr lib s flavor = .ok e ↔
      ∃ rest, lib.strip s ≠ "" ∧ splitEpoch lib (lib.strip s) = .ok (e.epoch, rest) ∧ rest ≠ "" ∧
        Body rest e.version e.release ∧ e.version ≠ "" ∧ e.flavor = flavor := by
  unfold parseEvr
  constructor
  · intro h
    simp only at h
    split_ifs at h with hempty
    cases hsplit : splitEpoch lib (lib.strip s) with
    | error err =>
      rw [hsplit] at h
      cases h
    | ok cut =>
      rw [hsplit] at h
      simp only at h
      split_ifs at h with hrest hversion
      rw [← Except.ok.inj h]
      exact ⟨cut.2, hempty, rfl, hrest, body_of_rpartition cut.2, hversion, rfl⟩
  · intro ⟨rest, hempty, hsplit, hrest, hbody, hversion, hflavor⟩
    simp only [hsplit]
    rw [if_neg hempty, if_neg hrest, rpartition_of_body hbody, if_neg hversion, ← hflavor]

theorem splitEpoch_ok {t rest : String} {epoch : ℤ} :
    splitEpoch lib t = .ok (epoch, rest) ↔
      (∃ head, partition ':' t = some (head, rest) ∧ lib.isdigit head = true ∧
          lib.int head = some epoch) ∨
        epoch = 0 ∧ rest = t ∧
          ∀ head tail, partition ':' t = some (head, tail) → lib.isdigit head = false := by
  unfold splitEpoch
  cases hcut : partition ':' t with
  | none =>
    simp only [reduceCtorEq, false_and, exists_false, false_or, false_implies, implies_true,
      and_true, Except.ok.injEq, Prod.mk.injEq]
    exact and_congr eq_comm eq_comm
  | some cut =>
    simp only [Option.some.injEq]
    cases hdigits : lib.isdigit cut.1 with
    | false =>
      simp only [Bool.false_eq_true, if_false, Except.ok.injEq, Prod.mk.injEq]
      constructor
      · intro ⟨hepoch, hrest⟩
        refine .inr ⟨hepoch.symm, hrest.symm, fun head tail h => ?_⟩
        rw [h] at hdigits
        exact hdigits
      · intro h
        cases h with
        | inl h =>
          have ⟨head, hhead, hisdigit, _⟩ := h
          rw [hhead] at hdigits
          exact absurd (hisdigit.symm.trans hdigits) (by decide)
        | inr h => exact ⟨h.1.symm, h.2.1.symm⟩
    | true =>
      simp only [if_true]
      constructor
      · intro h
        cases hint : lib.int cut.1 with
        | none =>
          rw [hint] at h
          cases h
        | some n =>
          rw [hint] at h
          have hpair := Except.ok.inj h
          simp only [Prod.mk.injEq] at hpair
          refine .inl ⟨cut.1, ?_, hdigits, hint.trans (congrArg some hpair.1)⟩
          rw [← hpair.2]
      · intro h
        cases h with
        | inl h =>
          have ⟨head, hhead, _, hint⟩ := h
          rw [hhead]
          simp only [hint]
        | inr h => exact absurd (h.2.2 cut.1 cut.2 rfl) (by rw [hdigits]; decide)

end Reading

section Printing

variable {lib : VersionText} {s : String} {flavor : Flavor} {e : Evr}

def epochText (e : Evr) : String := if e.epoch = 0 then "" else toString e.epoch ++ ":"

def bodyText (e : Evr) : String :=
  if e.release = "" then e.version else e.version ++ "-" ++ e.release

theorem toText_eq (e : Evr) : e.toText = epochText e ++ bodyText e := by
  unfold Evr.toText epochText bodyText
  by_cases hepoch : e.epoch = 0 <;> by_cases hrelease : e.release = "" <;>
    simp [hepoch, hrelease, String.append_assoc]

theorem toList_append_sep (v r : String) (sep : Char) :
    (v ++ String.ofList [sep] ++ r).toList = v.toList ++ sep :: r.toList := by
  rw [String.toList_append, String.toList_append, String.toList_ofList, List.append_assoc]
  rfl

theorem numeral_chars {n : ℕ} {c : Char} (h : c ∈ (toString n).toList) : c.isDigit = true := by
  rw [Nat.toString_eq_repr, Nat.toList_repr] at h
  exact Nat.isDigit_of_mem_toDigits (by decide) (by decide) h

theorem numeral_ne_nil (n : ℕ) : (toString n).toList ≠ [] := by
  rw [Nat.toString_eq_repr, Nat.toList_repr]
  exact Nat.toDigits_ne_nil

theorem digit_not_space {c : Char} (h : c.isDigit = true) : isSpace c = false := by
  have hbounds := digit_bounds h
  exact isSpace_of_printable (by omega)

/-- Whether a text printed without an epoch is read without one. -/
def NoEpoch (lib : VersionText) (body : String) : Prop :=
  (∀ c, body.toList.head? = some c → isSpace c = false) ∧
    ∀ head tail, partition ':' body = some (head, tail) → lib.isdigit head = false

/-- What lets the printed form of a version be read back: after an explicit zero epoch there is no
other one and no space, and before a final hyphen there is no other one and no space. -/
structure Printable (lib : VersionText) (s : String) : Prop where
  zeroEpoch : ∀ head tail, partition ':' (lib.strip s) = some (head, tail) →
    lib.isdigit head = true → lib.int head = some 0 → NoEpoch lib tail
  hyphen : ∀ epoch version, splitEpoch lib (lib.strip s) = .ok (epoch, version ++ "-") →
    '-' ∉ version.toList ∧ ∀ c, version.toList.getLast? = some c → isSpace c = false

theorem bodyText_cases {rest : String} (h : Body rest e.version e.release) :
    (bodyText e = rest ∧ (e.release = "" → '-' ∉ e.version.toList)) ∨
      e.release = "" ∧ bodyText e = e.version ∧ rest = e.version ++ "-" := by
  unfold bodyText
  cases h with
  | inl h =>
    rw [if_pos h.2.2, h.2.1]
    exact .inl ⟨rfl, fun _ => h.1⟩
  | inr h =>
    by_cases hrelease : e.release = ""
    · rw [if_pos hrelease]
      refine .inr ⟨hrelease, rfl, ?_⟩
      rw [h.1, hrelease, String.append_empty]
    · rw [if_neg hrelease]
      exact .inl ⟨h.1.symm, fun hempty => absurd hempty hrelease⟩

theorem body_bodyText {rest : String} (h : Body rest e.version e.release)
    (hhyphen : e.release = "" → '-' ∉ e.version.toList) :
    Body (bodyText e) e.version e.release := by
  unfold bodyText
  split_ifs with hrelease
  · exact .inl ⟨hhyphen hrelease, rfl, hrelease⟩
  · cases h with
    | inl h => exact absurd h.2.2 hrelease
    | inr h => exact .inr ⟨rfl, h.2⟩

theorem toList_ne_nil {t : String} (h : t ≠ "") : t.toList ≠ [] := by
  intro hnil
  apply h
  apply String.toList_injective
  rw [hnil]
  rfl

theorem append_ne_empty {t : String} (h : t ≠ "") (more : String) : t ++ more ≠ "" := by
  intro hempty
  have hlist := congrArg String.toList hempty
  rw [String.toList_append] at hlist
  exact toList_ne_nil h (List.append_eq_nil_iff.mp hlist).1

theorem stripped_lib (hlib : Documented lib) (raw : String) : Stripped (lib.strip raw).toList := by
  rw [hlib.strip, String.toList_ofList]
  exact stripped_strip _

theorem rest_last (hlib : Documented lib) {epoch : ℤ} {rest : String}
    (hsplit : splitEpoch lib (lib.strip s) = .ok (epoch, rest)) (hrest : rest ≠ "") :
    ∀ c, rest.toList.getLast? = some c → isSpace c = false := by
  intro c hc
  apply (stripped_lib hlib s).2 c
  cases splitEpoch_ok.mp hsplit with
  | inl h =>
    have ⟨head, hcut, _⟩ := h
    rw [(partition_eq_some.mp hcut).2, String.toList_append,
      List.getLast?_append_of_ne_nil _ (toList_ne_nil hrest), hc]
  | inr h => rw [← h.2.1, hc]

theorem epoch_natural (hlib : Documented lib) {t rest : String} {epoch : ℤ}
    (hsplit : splitEpoch lib t = .ok (epoch, rest)) : ∃ n < maxInt, epoch = n := by
  cases splitEpoch_ok.mp hsplit with
  | inl h =>
    have ⟨head, _, hdigits, hint⟩ := h
    exact hlib.unsigned head epoch hdigits hint
  | inr h => exact ⟨0, maxInt_pos, h.1⟩

theorem epochText_numeral (hepoch : e.epoch ≠ 0) {n : ℕ} (hn : e.epoch = n) :
    epochText e = toString n ++ String.ofList [':'] := by
  rw [epochText, if_neg hepoch, hn]
  rfl

theorem numeral_no_colon (n : ℕ) : ':' ∉ (toString n).toList := by
  intro hmem
  exact absurd (numeral_chars hmem) (by decide)

theorem splitEpoch_numeral (hlib : Documented lib) {n : ℕ} (hn : n < maxInt) (rest : String) :
    splitEpoch lib (toString n ++ String.ofList [':'] ++ rest) = .ok ((n : ℤ), rest) := by
  have ⟨hdigits, hint⟩ := hlib.numeral n hn
  exact splitEpoch_ok.mpr
    (.inl ⟨toString n, partition_eq_some.mpr ⟨numeral_no_colon n, rfl⟩, hdigits, hint⟩)

theorem partition_append_hyphen {body head tail : String}
    (h : partition ':' body = some (head, tail)) :
    partition ':' (body ++ "-") = some (head, tail ++ "-") := by
  have ⟨hout, hbody⟩ := partition_eq_some.mp h
  refine partition_eq_some.mpr ⟨hout, ?_⟩
  rw [hbody, String.append_assoc]

theorem partition_of_hyphen {body head tail : String}
    (h : partition ':' (body ++ "-") = some (head, tail)) :
    ∃ tail', partition ':' body = some (head, tail') := by
  have ⟨hout, hbody⟩ := partition_eq_some.mp h
  cases hcut : partition ':' body with
  | some cut =>
    have hcut' := partition_append_hyphen (hcut : _ = some (cut.1, cut.2))
    rw [h] at hcut'
    have hpair := Option.some.inj hcut'
    simp only [Prod.mk.injEq] at hpair
    exact ⟨cut.2, by rw [hpair.1]⟩
  | none =>
    have hno := partition_eq_none.mp hcut
    have hmem : ':' ∈ (body ++ "-").toList := by
      rw [hbody, toList_append_sep]
      simp
    rw [String.toList_append] at hmem
    cases List.mem_append.mp hmem with
    | inl hin => exact absurd hin hno
    | inr hin => exact absurd hin (by decide)

theorem length_bodyText_le {rest : String} (h : Body rest e.version e.release)
    (hle : rest.toList.length ≤ (bodyText e).toList.length) :
    rest = bodyText e ∧ (e.release = "" → '-' ∉ e.version.toList) := by
  cases bodyText_cases h with
  | inl hsame => exact ⟨hsame.1.symm, hsame.2⟩
  | inr htrail =>
    rw [htrail.2.2, htrail.2.1, String.toList_append, List.length_append] at hle
    have hone : ("-" : String).toList.length = 1 := rfl
    omega

theorem length_rest_le (hlib : Documented lib) {n : ℕ} (hn : e.epoch = n) {rest : String}
    (hsplit : splitEpoch lib (lib.strip e.toText) = .ok (e.epoch, rest)) :
    rest.toList.length ≤ (bodyText e).toList.length := by
  have hshorter : (lib.strip e.toText).toList.length ≤ e.toText.toList.length := by
    rw [hlib.strip, String.toList_ofList]
    exact length_strip_le _
  by_cases hepoch : e.epoch = 0
  · have hprinted : e.toText = bodyText e := by
      rw [toText_eq, epochText, if_pos hepoch, String.empty_append]
    rw [hprinted] at hshorter hsplit
    cases splitEpoch_ok.mp hsplit with
    | inl h =>
      have ⟨head, hcut, _⟩ := h
      have hlist := congrArg String.toList (partition_eq_some.mp hcut).2
      rw [toList_append_sep] at hlist
      rw [hlist, List.length_append, List.length_cons] at hshorter
      omega
    | inr h =>
      rw [h.2.1]
      exact hshorter
  · have htext := epochText_numeral hepoch hn
    cases splitEpoch_ok.mp hsplit with
    | inr h => exact absurd h.1 hepoch
    | inl h =>
      have ⟨head, hcut, _⟩ := h
      -- the numeral starts with no space, so that only the end of the printed text is cut off
      have hstart : (lib.strip e.toText).toList <+: e.toText.toList := by
        rw [hlib.strip, String.toList_ofList, strip]
        have hstart : e.toText.toList.dropWhile isSpace = e.toText.toList := by
          rw [toText_eq, htext, toList_append_sep]
          cases hnumeral : (toString n).toList with
          | nil => exact absurd hnumeral (numeral_ne_nil n)
          | cons c cs =>
            have hdigit : c.isDigit = true :=
              numeral_chars (by rw [hnumeral]; exact List.mem_cons_self)
            have hno : ¬isSpace c = true := by
              rw [digit_not_space hdigit]
              decide
            rw [List.cons_append, List.dropWhile_cons_of_neg hno]
        rw [hstart]
        exact List.rdropWhile_prefix _ _
      have ⟨cutoff, hcutoff⟩ := hstart
      have ⟨hout, hstripped⟩ := partition_eq_some.mp hcut
      have hfirst : partition ':' e.toText = some (head, rest ++ String.ofList cutoff) := by
        refine partition_eq_some.mpr ⟨hout, ?_⟩
        apply String.toList_injective
        rw [← hcutoff, hstripped]
        simp [String.toList_append, List.append_assoc]
      have hsecond : partition ':' e.toText = some (toString n, bodyText e) :=
        partition_eq_some.mpr ⟨numeral_no_colon n, by rw [toText_eq, htext]⟩
      rw [hfirst] at hsecond
      have hpair := Option.some.inj hsecond
      simp only [Prod.mk.injEq] at hpair
      rw [← hpair.2, String.toList_append, List.length_append]
      omega

theorem bodyText_ne_empty (h : e.version ≠ "") : bodyText e ≠ "" := by
  unfold bodyText
  split_ifs
  · exact h
  · rw [String.append_assoc]
    exact append_ne_empty h _

theorem parseEvr_toText (hlib : Documented lib) {n : ℕ} (hmax : n < maxInt) (hn : e.epoch = n)
    (hversion : e.version ≠ "") (hbody : Body (bodyText e) e.version e.release)
    (hlast : ∀ c, (bodyText e).toList.getLast? = some c → isSpace c = false)
    (hzero : e.epoch = 0 → NoEpoch lib (bodyText e)) : parseEvr lib e.toText e.flavor = .ok e := by
  have hnonempty := bodyText_ne_empty hversion
  have hne := toList_ne_nil hnonempty
  have hdone : Stripped e.toText.toList ∧ splitEpoch lib e.toText = .ok (e.epoch, bodyText e) := by
    rw [toText_eq]
    by_cases hepoch : e.epoch = 0
    · have ⟨hfirst, hdigits⟩ := hzero hepoch
      rw [epochText, if_pos hepoch, String.empty_append, hepoch]
      exact ⟨⟨hfirst, hlast⟩, splitEpoch_ok.mpr (.inr ⟨rfl, rfl, hdigits⟩)⟩
    · rw [epochText_numeral hepoch hn, hn]
      refine ⟨⟨fun c hc => ?_, fun c hc => ?_⟩, splitEpoch_numeral hlib hmax _⟩
      · rw [toList_append_sep, List.head?_append_of_ne_nil _ (numeral_ne_nil n)] at hc
        exact digit_not_space (numeral_chars (List.mem_of_mem_head? hc))
      · rw [String.toList_append, List.getLast?_append_of_ne_nil _ hne] at hc
        exact hlast c hc
  have hstrip : lib.strip e.toText = e.toText := by
    apply String.toList_injective
    rw [hlib.strip, String.toList_ofList, strip_of_stripped hdone.1]
  refine parseEvr_ok.mpr ⟨bodyText e, ?_, ?_, hnonempty, hbody, hversion, rfl⟩
  · rw [hstrip, toText_eq]
    intro hempty
    have hlist := congrArg String.toList hempty
    rw [String.toList_append] at hlist
    exact hne (List.append_eq_nil_iff.mp hlist).2
  · rw [hstrip]
    exact hdone.2

variable (hlib : Documented lib) (hparse : parseEvr lib s flavor = .ok e)
include hlib hparse

/-- A version whose text allows it is read back from its printed form. -/
theorem read_of_printable (h : Printable lib s) : parseEvr lib e.toText flavor = .ok e := by
  have ⟨rest, _, hsplit, hrest, hbody, hversion, hflavor⟩ := parseEvr_ok.mp hparse
  have hcases : (bodyText e = rest ∨ bodyText e ++ "-" = rest) ∧
      (e.release = "" → '-' ∉ e.version.toList) ∧
      ∀ c, (bodyText e).toList.getLast? = some c → isSpace c = false := by
    cases bodyText_cases hbody with
    | inl hsame => exact ⟨.inl hsame.1, hsame.2, by rw [hsame.1]; exact rest_last hlib hsplit hrest⟩
    | inr htrail =>
      rw [htrail.2.2] at hsplit
      have hhyphen := h.hyphen e.epoch e.version hsplit
      rw [htrail.2.1]
      exact ⟨.inr htrail.2.2.symm, fun _ => hhyphen.1, hhyphen.2⟩
  have ⟨hrests, hfree, hlast⟩ := hcases
  have hne := toList_ne_nil (bodyText_ne_empty hversion)
  -- the first character of the body is the first one after the epoch
  have hfirst : (bodyText e).toList.head? = rest.toList.head? := by
    cases hrests with
    | inl hsame => rw [hsame]
    | inr htrail => rw [← htrail, String.toList_append, List.head?_append_of_ne_nil _ hne]
  have hcolon : ∀ head tail, partition ':' (bodyText e) = some (head, tail) →
      ∃ tail', partition ':' rest = some (head, tail') := by
    intro head tail hcut
    cases hrests with
    | inl hsame => exact ⟨tail, hsame ▸ hcut⟩
    | inr htrail => exact ⟨_, htrail ▸ partition_append_hyphen hcut⟩
  have ⟨n, hmax, hn⟩ := epoch_natural hlib hsplit
  rw [← hflavor]
  refine parseEvr_toText hlib hmax hn hversion (body_bodyText hbody hfree) hlast fun hepoch => ?_
  rw [hepoch] at hsplit
  cases splitEpoch_ok.mp hsplit with
  | inl hcut =>
    have ⟨head, hhead, hdigits, hint⟩ := hcut
    have ⟨hspace, hdigits'⟩ := h.zeroEpoch head rest hhead hdigits hint
    refine ⟨fun c hc => hspace c (hfirst ▸ hc), fun head' tail hcut' => ?_⟩
    have ⟨tail', hcut''⟩ := hcolon head' tail hcut'
    exact hdigits' head' tail' hcut''
  | inr hwhole =>
    have hstart := (stripped_lib hlib s).1
    rw [← hwhole.2.1] at hstart
    refine ⟨fun c hc => hstart c (hfirst ▸ hc), fun head' tail hcut' => ?_⟩
    have ⟨tail', hcut''⟩ := hcolon head' tail hcut'
    exact hwhole.2.2 head' tail' (hwhole.2.1 ▸ hcut'')

/-- A version that is read back from its printed form has a text that allows it. -/
theorem printable_of_read (h : parseEvr lib e.toText flavor = .ok e) : Printable lib s := by
  have ⟨rest, _, hsplit, hrest, hbody, hversion, _⟩ := parseEvr_ok.mp hparse
  have ⟨rest', _, hsplit', hrest', hbody', _, _⟩ := parseEvr_ok.mp h
  have ⟨n, _, hn⟩ := epoch_natural hlib hsplit
  have hle := length_rest_le hlib hn hsplit'
  have ⟨hsame, hfree⟩ := length_bodyText_le hbody' hle
  rw [hsame] at hsplit' hrest'
  have hlast := rest_last hlib hsplit' hrest'
  constructor
  · intro head tail hcut hdigits hint
    have hzero := hsplit.symm.trans (splitEpoch_ok.mpr (.inl ⟨head, hcut, hdigits, hint⟩))
    have hpair := Except.ok.inj hzero
    simp only [Prod.mk.injEq] at hpair
    rw [← hpair.2]
    have hprinted : e.toText = bodyText e := by
      rw [toText_eq, epochText, if_pos hpair.1, String.empty_append]
    rw [hprinted] at hsplit'
    cases splitEpoch_ok.mp hsplit' with
    | inl hlonger =>
      have ⟨front, hfront, _⟩ := hlonger
      have hlist := congrArg String.toList (partition_eq_some.mp hfront).2
      have hshorter : (lib.strip (bodyText e)).toList.length ≤ (bodyText e).toList.length := by
        rw [hlib.strip, String.toList_ofList]
        exact length_strip_le _
      rw [toList_append_sep] at hlist
      rw [hlist, List.length_append, List.length_cons] at hshorter
      omega
    | inr hwhole =>
      have hstart := (stripped_lib hlib (bodyText e)).1
      rw [← hwhole.2.1] at hstart
      rw [← hwhole.2.1] at hwhole
      cases bodyText_cases hbody with
      | inl hbodies =>
        rw [hbodies.1] at hstart hwhole
        exact ⟨hstart, hwhole.2.2⟩
      | inr htrail =>
        rw [htrail.2.1] at hstart hwhole
        rw [htrail.2.2]
        constructor
        · intro c hc
          rw [String.toList_append, List.head?_append_of_ne_nil _ (toList_ne_nil hversion)] at hc
          exact hstart c hc
        · intro head' tail' hcut'
          have ⟨tail'', hbefore⟩ := partition_of_hyphen hcut'
          exact hwhole.2.2 head' tail'' hbefore
  · intro epoch version hhyphen
    have hpair := Except.ok.inj (hsplit.symm.trans hhyphen)
    simp only [Prod.mk.injEq] at hpair
    have htrailing : Body rest version "" := .inr ⟨by rw [hpair.2, String.append_empty], by simp⟩
    have hboth := (rpartition_of_body hbody).symm.trans (rpartition_of_body htrailing)
    simp only [Prod.mk.injEq] at hboth
    have hbodyText : bodyText e = version := by rw [bodyText, if_pos hboth.2, hboth.1]
    rw [hbodyText] at hlast
    rw [← hboth.1]
    exact ⟨hfree hboth.2, hboth.1 ▸ hlast⟩

theorem read_iff : parseEvr lib e.toText flavor = .ok e ↔ Printable lib s :=
  ⟨printable_of_read hlib hparse, read_of_printable hlib hparse⟩

end Printing

section Comparing

variable {lib : VersionText} {flavor : Flavor} {installed fixed : String} {e f : Evr}

def verCmp : Flavor → String → String → Ordering
  | .deb => dpkgVerrevcmp
  | .rpm => rpmvercmp

instance : Std.TransCmp (verCmp flavor) := by
  cases flavor with
  | deb => exact inferInstanceAs (Std.TransCmp dpkgVerrevcmp)
  | rpm => exact inferInstanceAs (Std.TransCmp rpmvercmp)

/-- Versions by their epoch and upstream version, whatever the release. -/
def upstreamCmp (flavor : Flavor) : Evr → Evr → Ordering :=
  compareLex (compareOn Evr.epoch) fun a b => verCmp flavor a.version b.version

instance : Std.TransCmp (upstreamCmp flavor) := by
  have hversion : Std.TransCmp fun a b : Evr => verCmp flavor a.version b.version :=
    transCmp_comap Evr.version
  unfold upstreamCmp
  infer_instance

theorem upstreamCmp_eq (flavor : Flavor) (a b : Evr) : upstreamCmp flavor a b =
    (compare a.epoch b.epoch).then (verCmp flavor a.version b.version) :=
  rfl

theorem compareRpmEvr_eq (a b : Evr) : compareRpmEvr a b =
    (compare a.epoch b.epoch).then
      ((rpmvercmp a.version b.version).then (rpmvercmp a.release b.release)) := by
  unfold compareRpmEvr
  split_ifs with hepoch hversion
  · have hne : compare a.epoch b.epoch ≠ .eq := by simpa using hepoch
    exact (then_of_ne hne).symm
  · have heq : compare a.epoch b.epoch = .eq := by simpa using hepoch
    rw [heq, then_of_ne hversion]
    rfl
  · have heq : compare a.epoch b.epoch = .eq := by simpa using hepoch
    have hversion' : rpmvercmp a.version b.version = .eq := by simpa using hversion
    rw [heq, hversion']
    rfl

theorem compareRpmVersion_ok {left right : String} {o : Ordering} :
    compareRpmVersion lib left right = .ok o ↔ ∃ a b, parseEvr lib left .rpm = .ok a ∧
      parseEvr lib right .rpm = .ok b ∧ compareRpmEvr a b = o := by
  unfold compareRpmVersion
  cases parseEvr lib left .rpm with
  | error e => simp
  | ok a =>
    cases parseEvr lib right .rpm with
    | error e => simp
    | ok b => simp

theorem compareVersion_ok {left right : String} {o : Ordering} :
    compareVersion lib left right flavor = .ok o ↔ ∃ a b, parseEvr lib left flavor = .ok a ∧
      parseEvr lib right flavor = .ok b ∧
      (upstreamCmp flavor a b).then (verCmp flavor a.release b.release) = o := by
  have hassoc : ∀ a b : Evr, (upstreamCmp flavor a b).then (verCmp flavor a.release b.release) =
      (compare a.epoch b.epoch).then
        ((verCmp flavor a.version b.version).then (verCmp flavor a.release b.release)) := by
    intro a b
    rw [upstreamCmp_eq]
    cases compare a.epoch b.epoch <;> rfl
  simp only [hassoc]
  cases flavor with
  | deb =>
    change compareDpkgVersion lib left right = .ok o ↔ _
    rw [compareDpkgVersion_ok, compareDpkgEvr_eq]
    exact Iff.rfl
  | rpm =>
    change compareRpmVersion lib left right = .ok o ↔ _
    simp only [compareRpmVersion_ok, compareRpmEvr_eq]
    exact Iff.rfl

theorem isFixed_eq_true : isFixed lib installed fixed flavor = .ok true ↔
    ∃ o, compareVersion lib installed fixed flavor = .ok o ∧ o.isGE = true := by
  unfold isFixed
  cases compareVersion lib installed fixed flavor with
  | error err => simp
  | ok o => simp

theorem compareStatus_fixed (he : parseEvr lib installed flavor = .ok e)
    (hf : parseEvr lib fixed flavor = .ok f) (hrelease : f.release = "") :
    compareStatus lib installed fixed flavor = .ok (.fixed, none) ↔
      ∃ a, parseEvr lib (comparedWith installed e f) flavor = .ok a ∧
        ((upstreamCmp flavor a f).then (verCmp flavor a.release "")).isGE = true := by
  have hstatus : compareStatus lib installed fixed flavor = .ok (.fixed, none) ↔
      isFixed lib (comparedWith installed e f) fixed flavor = .ok true := by
    unfold compareStatus
    rw [he, hf]
    simp only
    cases isFixed lib (comparedWith installed e f) fixed flavor with
    | error err => simp
    | ok verdict => cases verdict <;> simp
  rw [hstatus, isFixed_eq_true]
  constructor
  · intro ⟨o, hcompare, hge⟩
    have ⟨a, b, ha, hb, ho⟩ := compareVersion_ok.mp hcompare
    obtain rfl := Except.ok.inj (hf.symm.trans hb)
    rw [hrelease] at ho
    exact ⟨a, ha, ho ▸ hge⟩
  · intro ⟨a, ha, hge⟩
    exact ⟨_, compareVersion_ok.mpr ⟨a, f, ha, hf, rfl⟩, hrelease.symm ▸ hge⟩

def fixedText (epoch : ℕ) (version : String) : String :=
  toString epoch ++ String.ofList [':'] ++ (version ++ "-")

theorem parseEvr_fixedText (hlib : Documented lib) (flavor : Flavor) {n : ℕ} (hn : n < maxInt)
    {version : String} (hversion : version ≠ "") : parseEvr lib (fixedText n version) flavor =
      .ok { epoch := n, version := version, release := "", flavor := flavor } := by
  have hstripped : Stripped (fixedText n version).toList := by
    unfold fixedText
    constructor
    · intro c hc
      rw [toList_append_sep, List.head?_append_of_ne_nil _ (numeral_ne_nil n)] at hc
      exact digit_not_space (numeral_chars (List.mem_of_mem_head? hc))
    · intro c hc
      have hlast : ("-" : String).toList ≠ [] := by decide
      rw [String.toList_append, String.toList_append (s := version),
        List.getLast?_append_of_ne_nil _ (List.append_ne_nil_of_right_ne_nil _ hlast),
        List.getLast?_append_of_ne_nil _ hlast] at hc
      have hhyphen : c = '-' := (Option.some.inj hc).symm
      rw [hhyphen]
      decide
  have hstrip : lib.strip (fixedText n version) = fixedText n version := by
    apply String.toList_injective
    rw [hlib.strip, String.toList_ofList, strip_of_stripped hstripped]
  refine parseEvr_ok.mpr ⟨version ++ "-", ?_, ?_, append_ne_empty hversion _, ?_, hversion, rfl⟩
  · rw [hstrip]
    intro hempty
    have hlist := congrArg String.toList hempty
    rw [fixedText, toList_append_sep] at hlist
    exact numeral_ne_nil n (List.append_eq_nil_iff.mp hlist).1
  · rw [hstrip]
    exact splitEpoch_numeral hlib hn _
  · exact .inr ⟨by rw [String.append_empty], by simp⟩

theorem verCmp_between {v w : String} (h : verCmp flavor v w = .lt) (hv : v ≠ "") (hw : w ≠ "") :
    ∃ u, u ≠ "" ∧ verCmp flavor v u = .lt ∧ verCmp flavor u w = .lt := by
  cases flavor with
  | deb =>
    have hkey : ∀ (text : String) (d : Char), d.isDigit = false →
        versionKey (text ++ String.ofList [d]).toList =
          versionKey text.toList ++ [dpkgOrder d] := by
      intro text d hd
      rw [String.toList_append, String.toList_ofList, versionKey_append hd]
    simp only [verCmp, dpkgVerrevcmp_eq] at h ⊢
    have hlow : compare (dpkgOrder '~') 0 = .lt := by decide
    have hhigh : compare 0 (dpkgOrder '^') = .lt := by decide
    cases comparePadded_between hlow hhigh h with
    | inl hbetween =>
      refine ⟨w ++ String.ofList ['~'], append_ne_empty hw _, ?_⟩
      rw [hkey w '~' (by decide)]
      exact hbetween
    | inr hbetween =>
      refine ⟨v ++ String.ofList ['^'], append_ne_empty hv _, ?_⟩
      rw [hkey v '^' (by decide)]
      exact hbetween
  | rpm =>
    have htokens : ∀ (text : String) (d : Char), d.isDigit = false → d.isAlpha = false →
        rpmTokens (text ++ String.ofList [d]).toList = rpmTokens text.toList ++ rpmTokens [d] := by
      intro text d hdigit halpha
      rw [String.toList_append, String.toList_ofList, rpmTokens_append hdigit halpha]
    simp only [verCmp, rpmvercmp_eq] at h ⊢
    have hlow : compare Token.tilde Token.finish = .lt := by decide
    have hhigh : compare Token.finish Token.caret = .lt := by decide
    have htilde : rpmTokens ['~'] = [.tilde] := by decide +kernel
    have hcaret : rpmTokens ['^'] = [.caret] := by decide +kernel
    cases comparePadded_between hlow hhigh h with
    | inl hbetween =>
      refine ⟨w ++ String.ofList ['~'], append_ne_empty hw _, ?_⟩
      rw [htokens w '~' (by decide) (by decide), htilde]
      exact hbetween
    | inr hbetween =>
      refine ⟨v ++ String.ofList ['^'], append_ne_empty hv _, ?_⟩
      rw [htokens v '^' (by decide) (by decide), hcaret]
      exact hbetween

theorem verCmp_tilde (flavor : Flavor) (w : String) :
    verCmp flavor (w ++ String.ofList ['~']) w = .lt := by
  cases flavor with
  | deb =>
    change dpkgVerrevcmp _ _ = _
    rw [dpkgVerrevcmp_eq, String.toList_append, String.toList_ofList, versionKey_append (by decide)]
    exact comparePadded_append_low (by decide) _
  | rpm =>
    have htilde : rpmTokens ['~'] = [.tilde] := by decide +kernel
    change rpmvercmp _ _ = _
    rw [rpmvercmp_eq, String.toList_append, String.toList_ofList,
      rpmTokens_append (by decide) (by decide), htilde]
    exact comparePadded_append_low (by decide) _

/-- Between two versions, releases aside, there is one that a text without a release is read as. -/
theorem upstreamCmp_between (h : upstreamCmp flavor e f = .lt) {n : ℕ} (hn : f.epoch = n)
    (he : e.version ≠ "") (hf : f.version ≠ "") : ∃ version : String, version ≠ "" ∧
      upstreamCmp flavor e ⟨n, version, "", flavor⟩ = .lt ∧
      upstreamCmp flavor ⟨n, version, "", flavor⟩ f = .lt := by
  have hself : compare (n : ℤ) (n : ℤ) = .eq := Std.ReflCmp.compare_self
  rw [upstreamCmp_eq, hn, Ordering.then_eq_lt] at h
  simp only [upstreamCmp_eq, hn, Ordering.then_eq_lt]
  cases h with
  | inl hlt =>
    exact ⟨f.version ++ String.ofList ['~'], append_ne_empty hf _, .inl hlt,
      .inr ⟨hself, verCmp_tilde flavor f.version⟩⟩
  | inr hrest =>
    have ⟨u, hu, hleft, hright⟩ := verCmp_between hrest.2 he hf
    exact ⟨u, hu, .inr ⟨hrest.1, hleft⟩, .inr ⟨hself, hright⟩⟩

/-- Whether an installed version counts as itself once its release is left out: what is printed of
it without one is read as a version that is neither before nor after it. -/
def ReleaseReads (lib : VersionText) (flavor : Flavor) (e : Evr) : Prop :=
  e.release = "" ∨ ∃ a, parseEvr lib ({ e with release := "" } : Evr).toText flavor = .ok a ∧
    upstreamCmp flavor a e = .eq ∧ (verCmp flavor a.release "").isGE = true

theorem releaseReads_of_plain (hlib : Documented lib) (he : parseEvr lib installed flavor = .ok e)
    (hhyphen : '-' ∉ e.version.toList)
    (hlast : ∀ c, e.version.toList.getLast? = some c → isSpace c = false)
    (hzero : e.epoch = 0 → NoEpoch lib e.version) : ReleaseReads lib flavor e := by
  have ⟨rest, _, hsplit, _, _, hversion, hflavor⟩ := parseEvr_ok.mp he
  have ⟨n, hmax, hn⟩ := epoch_natural hlib hsplit
  have hbody : bodyText { e with release := "" } = e.version := if_pos rfl
  have hread := parseEvr_toText (e := { e with release := "" }) hlib hmax hn hversion
    (by rw [hbody]; exact .inl ⟨hhyphen, rfl, rfl⟩) (by rw [hbody]; exact hlast)
    (by rw [hbody]; exact hzero)
  rw [← hflavor]
  refine .inr ⟨_, hread, ?_, ?_⟩
  · have hself : upstreamCmp e.flavor e e = .eq := Std.ReflCmp.compare_self
    exact hself
  · have hempty : verCmp e.flavor "" "" = .eq := Std.ReflCmp.compare_self
    rw [hempty]
    rfl

theorem then_isGE {o o' : Ordering} (h : o'.isGE = true) : (o.then o').isGE = o.isGE := by
  cases o with
  | eq => exact h
  | lt => rfl
  | gt => rfl

theorem releaseReads_iff (hlib : Documented lib) (he : parseEvr lib installed flavor = .ok e) :
    (∀ fixed f, parseEvr lib fixed flavor = .ok f → f.release = "" →
      (compareStatus lib installed fixed flavor = .ok (.fixed, none) ↔
        (upstreamCmp flavor e f).isGE = true)) ↔ ReleaseReads lib flavor e := by
  have hempty : verCmp flavor "" "" = .eq := Std.ReflCmp.compare_self
  constructor
  · intro h
    by_cases hrelease : e.release = ""
    · exact .inl hrelease
    · have ⟨rest, _, hsplit, _, _, hversion, _⟩ := parseEvr_ok.mp he
      have ⟨n, hmax, hn⟩ := epoch_natural hlib hsplit
      -- the installed version, written as a fixed one without a release
      have hown := parseEvr_fixedText hlib flavor hmax hversion
      have hsame : upstreamCmp flavor e ⟨n, e.version, "", flavor⟩ = .eq := by
        have hepoch : compare e.epoch (n : ℤ) = .eq := by
          rw [hn]
          exact Std.ReflCmp.compare_self
        have hversion' : verCmp flavor e.version e.version = .eq := Std.ReflCmp.compare_self
        rw [upstreamCmp_eq, hepoch, hversion']
        rfl
      have hfixed := (h _ _ hown rfl).mpr (by rw [hsame]; rfl)
      have ⟨a, ha, hge⟩ := (compareStatus_fixed he hown rfl).mp hfixed
      have hprinted : comparedWith installed e ⟨n, e.version, "", flavor⟩ =
          ({ e with release := "" } : Evr).toText := if_pos ⟨rfl, hrelease⟩
      rw [hprinted] at ha
      have hswap : upstreamCmp flavor a ⟨n, e.version, "", flavor⟩ = upstreamCmp flavor a e :=
        (Std.TransCmp.congr_right hsame).symm
      rw [hswap] at hge
      refine .inr ⟨a, ha, ?_⟩
      cases horder : upstreamCmp flavor a e with
      | lt =>
        rw [horder] at hge
        change Ordering.lt.isGE = true at hge
        exact absurd hge (by decide)
      | eq =>
        rw [horder] at hge
        exact ⟨rfl, hge⟩
      | gt =>
        -- a version strictly between is reached by what was printed but not by what is installed
        have hlt : upstreamCmp flavor e a = .lt := Std.OrientedCmp.lt_of_gt horder
        have ⟨rest', _, hsplit', _, _, hversion', _⟩ := parseEvr_ok.mp ha
        have ⟨m, hmax', hm⟩ := epoch_natural hlib hsplit'
        have ⟨u, hu, hleft, hright⟩ := upstreamCmp_between hlt hm hversion hversion'
        have hbetween := parseEvr_fixedText hlib flavor hmax' hu
        have hreached :
            compareStatus lib installed (fixedText m u) flavor = .ok (.fixed, none) := by
          refine (compareStatus_fixed he hbetween rfl).mpr ⟨a, ?_, ?_⟩
          · rw [comparedWith, if_pos ⟨rfl, hrelease⟩]
            exact ha
          · rw [Std.OrientedCmp.gt_of_lt hright]
            rfl
        have hnot := (h _ _ hbetween rfl).mp hreached
        rw [hleft] at hnot
        exact absurd hnot (by decide)
  · intro h fixed f hf hfree
    rw [compareStatus_fixed he hf hfree]
    by_cases hrelease : e.release = ""
    · have hwhole : comparedWith installed e f = installed := by
        rw [comparedWith, if_neg (fun hboth => hboth.2 hrelease)]
      rw [hwhole]
      constructor
      · intro ⟨a, ha, hge⟩
        obtain rfl := Except.ok.inj (he.symm.trans ha)
        rw [hrelease, then_isGE (by rw [hempty]; rfl)] at hge
        exact hge
      · intro hge
        refine ⟨e, he, ?_⟩
        rw [hrelease, then_isGE (by rw [hempty]; rfl)]
        exact hge
    · cases h with
      | inl hnone => exact absurd hnone hrelease
      | inr hread =>
        have ⟨a, ha, hsame, hrel⟩ := hread
        have hprinted : comparedWith installed e f = ({ e with release := "" } : Evr).toText :=
          if_pos ⟨hfree, hrelease⟩
        rw [hprinted]
        constructor
        · intro ⟨a', ha', hge⟩
          obtain rfl := Except.ok.inj (ha.symm.trans ha')
          rw [then_isGE hrel, Std.TransCmp.congr_left hsame] at hge
          exact hge
        · intro hge
          refine ⟨a, ha, ?_⟩
          rw [then_isGE hrel, Std.TransCmp.congr_left hsame]
          exact hge

end Comparing

section Soundness

def pythonText : VersionText where
  toText := { ascii with
    strip := fun raw => String.ofList (ResumedBatches.strip raw.toList)
    int := fun raw => ((numeral 10 decDigit raw.toList).filter (· < maxInt)).map Nat.cast }
  isdigit := fun raw => raw ≠ "" && raw.toList.all Char.isDigit

theorem pythonText_documented : Documented pythonText where
  strip _ := rfl
  numeral n hn := by
    have hread : numeral 10 decDigit (toString n).toList = some n := by
      rw [Nat.toString_eq_repr, Nat.toList_repr]
      exact numeral_toDigits (by decide) decDigit_digitChar n
    constructor
    · have hne : toString n ≠ "" := by
        intro hempty
        exact numeral_ne_nil n (by rw [hempty]; rfl)
      have hall : (toString n).toList.all Char.isDigit = true :=
        List.all_eq_true.mpr fun c hc => numeral_chars hc
      change (decide (toString n ≠ "") && (toString n).toList.all Char.isDigit) = true
      rw [hall, decide_eq_true hne]
      rfl
    · change ((numeral 10 decDigit (toString n).toList).filter _).map Nat.cast = _
      rw [hread, Option.filter_some, if_pos (decide_eq_true hn)]
      rfl
  unsigned raw k _ hint := by
    change ((numeral 10 decDigit raw.toList).filter _).map Nat.cast = some k at hint
    have ⟨n, hn, hk⟩ := Option.map_eq_some_iff.mp hint
    have hmax := (Option.filter_eq_some_iff.mp hn).2
    exact ⟨n, of_decide_eq_true hmax, hk.symm⟩

/-- A version is read back from its printed form exactly when its text allows it, two such versions
compare as they do printed, and an installed version meets the fixed versions without a release that
it is at least at exactly when it counts as itself without its own release. -/
theorem printing_iff (lib : VersionText) (hlib : Documented lib) :
    (∀ s flavor e, parseEvr lib s flavor = .ok e →
      (parseEvr lib e.toText flavor = .ok e ↔ Printable lib s)) ∧
    (∀ s s' flavor e e', parseEvr lib s flavor = .ok e → parseEvr lib s' flavor = .ok e' →
      Printable lib s → Printable lib s' →
        compareVersion lib e.toText e'.toText flavor = compareVersion lib s s' flavor) ∧
    ∀ installed flavor e, parseEvr lib installed flavor = .ok e →
      ((∀ fixed f, parseEvr lib fixed flavor = .ok f → f.release = "" →
        (compareStatus lib installed fixed flavor = .ok (.fixed, none) ↔
          (upstreamCmp flavor e f).isGE = true)) ↔ ReleaseReads lib flavor e) ∧
      ('-' ∉ e.version.toList → (∀ c, e.version.toList.getLast? = some c → isSpace c = false) →
        (e.epoch = 0 → NoEpoch lib e.version) → ReleaseReads lib flavor e) := by
  refine ⟨fun s flavor e h => read_iff hlib h, fun s s' flavor e e' h h' hs hs' => ?_,
    fun installed flavor e h => ⟨releaseReads_iff hlib h, releaseReads_of_plain hlib h⟩⟩
  have hread := read_of_printable hlib h hs
  have hread' := read_of_printable hlib h' hs'
  have hok : compareVersion lib e.toText e'.toText flavor = .ok
      ((upstreamCmp flavor e e').then (verCmp flavor e.release e'.release)) :=
    compareVersion_ok.mpr ⟨e, e', hread, hread', rfl⟩
  rw [hok, compareVersion_ok.mpr ⟨e, e', h, h', rfl⟩]

theorem printing_iff_python : Documented pythonText ∧
    ((∀ s flavor e, parseEvr pythonText s flavor = .ok e →
      (parseEvr pythonText e.toText flavor = .ok e ↔ Printable pythonText s)) ∧
    (∀ s s' flavor e e', parseEvr pythonText s flavor = .ok e →
      parseEvr pythonText s' flavor = .ok e' → Printable pythonText s → Printable pythonText s' →
        compareVersion pythonText e.toText e'.toText flavor =
          compareVersion pythonText s s' flavor) ∧
    ∀ installed flavor e, parseEvr pythonText installed flavor = .ok e →
      ((∀ fixed f, parseEvr pythonText fixed flavor = .ok f → f.release = "" →
        (compareStatus pythonText installed fixed flavor = .ok (.fixed, none) ↔
          (upstreamCmp flavor e f).isGE = true)) ↔ ReleaseReads pythonText flavor e) ∧
      ('-' ∉ e.version.toList → (∀ c, e.version.toList.getLast? = some c → isSpace c = false) →
        (e.epoch = 0 → NoEpoch pythonText e.version) → ReleaseReads pythonText flavor e)) :=
  ⟨pythonText_documented, printing_iff pythonText pythonText_documented⟩

/-- An explicit zero epoch before another colon is printed as that other epoch, and a hyphen in the
upstream version is read as a release once the release is left out. -/
theorem printing_misreads :
    (∃ e, parseEvr pythonText "0:1:2" .deb = .ok e ∧ e.epoch = 0 ∧ e.toText = "1:2" ∧
      parseEvr pythonText e.toText .deb ≠ .ok e) ∧
    ∃ e f, parseEvr pythonText "1.2-3-1" .deb = .ok e ∧ parseEvr pythonText "1.2+1" .deb = .ok f ∧
      f.release = "" ∧ (upstreamCmp .deb e f).isGE = true ∧
      compareStatus pythonText "1.2-3-1" "1.2+1" .deb = .ok (.vulnerable, none) :=
  ⟨⟨⟨0, "1:2", "", .deb⟩, by decide +kernel, rfl, by decide +kernel, by decide +kernel⟩,
    ⟨0, "1.2-3", "1", .deb⟩, ⟨0, "1.2+1", "", .deb⟩, by decide +kernel, by decide +kernel, rfl,
    by decide +kernel, by decide +kernel⟩

end Soundness

end Shapoclyack.EvrPrinting
