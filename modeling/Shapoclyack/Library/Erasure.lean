import Mathlib.Data.List.Infix
import Mathlib.Tactic.Common

set_option autoImplicit false

namespace Shapoclyack.Library

section Definitions

variable {α : Type*} [DecidableEq α]

/-- A text without the occurrences of a pattern, from left to right. -/
def eraseAll (pat : List α) : List α → List α
  | [] => []
  | c :: cs =>
    if pat.isPrefixOf (c :: cs) then eraseAll pat (cs.drop (pat.length - 1))
    else c :: eraseAll pat cs
termination_by text => text.length
decreasing_by
  · rw [List.length_drop, List.length_cons]
    omega
  · simp

def skipTo (stop : List α → Bool) : List α → List α
  | [] => []
  | c :: cs => if stop (c :: cs) then c :: cs else skipTo stop cs

omit [DecidableEq α] in
theorem skipTo_suffix (stop : List α → Bool) (text : List α) : skipTo stop text <:+ text := by
  induction text with
  | nil => exact List.suffix_rfl
  | cons c cs ih =>
    unfold skipTo
    split_ifs
    · exact List.suffix_rfl
    · exact ih.trans (List.suffix_cons c cs)

/-- A text without the occurrences of a pattern and what stands after each up to its stop. -/
def eraseSpans (pat : List α) (stop : List α → Bool) : List α → List α
  | [] => []
  | c :: cs =>
    if pat.isPrefixOf (c :: cs) then
      eraseSpans pat stop (skipTo stop (cs.drop (pat.length - 1)))
    else c :: eraseSpans pat stop cs
termination_by text => text.length
decreasing_by
  · have hle := (skipTo_suffix stop (cs.drop (pat.length - 1))).length_le
    rw [List.length_drop] at hle
    rw [List.length_cons]
    omega
  · simp

end Definitions

section Marks

variable {α : Type*} [DecidableEq α] {mark : α}

def AtMark (mark : α) (rest : List α) : Prop := ∀ c, rest.head? = some c → c = mark

omit [DecidableEq α] in
theorem atMark_nil : AtMark mark [] := by
  intro c hc
  cases hc

omit [DecidableEq α] in
theorem atMark_cons (rest : List α) : AtMark mark (mark :: rest) := by
  intro c hc
  exact (Option.some.inj hc).symm

omit [DecidableEq α] in
theorem prefix_append_atMark {w x y : List α} (hw : mark ∉ w) (hy : AtMark mark y) :
    w <+: x ++ y ↔ w <+: x := by
  constructor
  · intro h
    induction w generalizing x with
    | nil => exact List.nil_prefix
    | cons c w ih =>
      have ⟨hc, hw'⟩ : mark ≠ c ∧ mark ∉ w := by simpa using hw
      cases x with
      | nil =>
        have ⟨rest, hrest⟩ := h
        rw [List.nil_append] at hrest
        exact absurd (hy c (by rw [← hrest]; rfl)).symm hc
      | cons d x =>
        rw [List.cons_append, List.cons_prefix_cons] at h
        rw [List.cons_prefix_cons]
        exact h.imp_right (ih hw')
  · intro h
    exact h.trans (List.prefix_append x y)

variable {p t : List α} {stop : List α → Bool}

theorem eraseAll_cons_of_not {c : α} {cs : List α} (h : ¬p <+: c :: cs) :
    eraseAll p (c :: cs) = c :: eraseAll p cs := by
  rw [eraseAll, if_neg (by rwa [List.isPrefixOf_iff_prefix])]

theorem eraseAll_append {x y : List α}
    (h : ∀ u, u ≠ [] → u <:+ x → ¬mark :: p <+: u ++ y) :
    eraseAll (mark :: p ++ t) (x ++ y) = x ++ eraseAll (mark :: p ++ t) y := by
  induction x with
  | nil => rfl
  | cons c x ih =>
    have hhere : ¬mark :: p ++ t <+: c :: (x ++ y) := fun hp =>
      h (c :: x) (List.cons_ne_nil c x) List.suffix_rfl ((List.prefix_append _ t).trans hp)
    change eraseAll (mark :: p ++ t) (c :: (x ++ y)) = c :: (x ++ eraseAll (mark :: p ++ t) y)
    rw [eraseAll_cons_of_not hhere, ih fun u hu hux => h u hu (hux.trans (List.suffix_cons c x))]

theorem eraseSpans_append {x y : List α}
    (h : ∀ u, u ≠ [] → u <:+ x → ¬mark :: p <+: u ++ y) :
    eraseSpans (mark :: p) stop (x ++ y) = x ++ eraseSpans (mark :: p) stop y := by
  induction x with
  | nil => rfl
  | cons c x ih =>
    have hhere : ¬mark :: p <+: c :: (x ++ y) := h (c :: x) (List.cons_ne_nil c x) List.suffix_rfl
    rw [List.cons_append, eraseSpans, if_neg (by rwa [List.isPrefixOf_iff_prefix]),
      List.cons_append,
      ih fun u hu hux => h u hu (hux.trans (List.suffix_cons c x))]

omit [DecidableEq α] in
theorem no_start_of_unmarked {x y : List α} (hx : mark ∉ x) :
    ∀ u, u ≠ [] → u <:+ x → ¬mark :: p <+: u ++ y := by
  intro u hu hux hp
  cases u with
  | nil => exact hu rfl
  | cons c u =>
    rw [List.cons_append, List.cons_prefix_cons] at hp
    exact hx (hux.subset (by rw [hp.1]; exact List.mem_cons_self))

omit [DecidableEq α] in
theorem no_start_of_absent {x y : List α} (hp : mark ∉ p) (hy : AtMark mark y)
    (hx : ¬mark :: p <:+: x) : ∀ u, u ≠ [] → u <:+ x → ¬mark :: p <+: u ++ y := by
  intro u hu hux hstart
  cases u with
  | nil => exact hu rfl
  | cons c u =>
    rw [List.cons_append, List.cons_prefix_cons, prefix_append_atMark hp hy] at hstart
    apply hx
    have hcu : mark :: p <+: c :: u := List.cons_prefix_cons.mpr hstart
    exact hcu.isInfix.trans hux.isInfix

theorem eraseAll_start (p t rest : List α) :
    eraseAll (mark :: p ++ t) (mark :: p ++ t ++ rest) = eraseAll (mark :: p ++ t) rest := by
  have hpre : (mark :: p ++ t).isPrefixOf (mark :: (p ++ t ++ rest)) = true := by
    rw [List.isPrefixOf_iff_prefix]
    exact List.prefix_append (mark :: p ++ t) rest
  rw [List.cons_append, List.cons_append, eraseAll]
  rw [List.cons_append] at hpre
  rw [if_pos hpre]
  simp

theorem eraseAll_pass (hp : mark ∉ p) {r rest : List α} (hr : mark ∉ r) (h : ¬t <+: r ++ rest) :
    eraseAll (mark :: p ++ t) (mark :: p ++ r ++ rest) =
      mark :: p ++ r ++ eraseAll (mark :: p ++ t) rest := by
  have hstart : ¬mark :: p ++ t <+: mark :: (p ++ r ++ rest) := by
    intro hpre
    rw [List.cons_append, List.cons_prefix_cons, List.append_assoc,
      List.prefix_append_right_inj] at hpre
    exact h hpre.2
  have hinner : mark ∉ p ++ r := by
    rw [List.mem_append, not_or]
    exact ⟨hp, hr⟩
  change eraseAll (mark :: p ++ t) (mark :: (p ++ r ++ rest)) = mark :: (p ++ r ++ _)
  rw [eraseAll_cons_of_not hstart, eraseAll_append (no_start_of_unmarked hinner)]

theorem eraseSpans_start (p rest : List α) :
    eraseSpans (mark :: p) stop (mark :: p ++ rest) =
      eraseSpans (mark :: p) stop (skipTo stop rest) := by
  have hpre : (mark :: p).isPrefixOf (mark :: (p ++ rest)) = true := by
    rw [List.isPrefixOf_iff_prefix]
    exact List.prefix_append (mark :: p) rest
  rw [List.cons_append, eraseSpans, if_pos hpre]
  simp

omit [DecidableEq α] in
theorem skipTo_append {x y : List α} (hx : ∀ u, u ≠ [] → u <:+ x → stop (u ++ y) = false)
    (hy : y = [] ∨ stop y = true) : skipTo stop (x ++ y) = y := by
  induction x with
  | nil =>
    cases y with
    | nil => rfl
    | cons c y =>
      cases hy with
      | inl hnil => cases hnil
      | inr hstop =>
        rw [List.nil_append, skipTo, if_pos hstop]
  | cons c x ih =>
    have hhere := hx (c :: x) (List.cons_ne_nil c x) List.suffix_rfl
    rw [List.cons_append] at hhere
    rw [List.cons_append, skipTo, hhere]
    exact ih fun u hu hux => hx u hu (hux.trans (List.suffix_cons c x))

end Marks

section Loose

variable {α : Type*} [DecidableEq α] {mark : α} {p t : List α} {stop : List α → Bool}

/-- The number of marks in a text that start no occurrence of a pattern. -/
def loose (mark : α) (p : List α) : List α → ℕ
  | [] => 0
  | c :: cs => (if c = mark ∧ ¬p <+: cs then 1 else 0) + loose mark p cs

theorem loose_le_count (text : List α) : loose mark p text ≤ text.count mark := by
  induction text with
  | nil => exact Nat.le_refl 0
  | cons c cs ih =>
    rw [loose, List.count_cons]
    by_cases hc : c = mark
    · rw [hc]
      simp only [true_and, BEq.rfl, if_true]
      split_ifs <;> omega
    · simp [hc, ih]

theorem loose_lt_count {text : List α} (h : mark :: p <:+: text) :
    loose mark p text < text.count mark := by
  induction text with
  | nil =>
    have hnil := List.infix_nil.mp h
    cases hnil
  | cons c cs ih =>
    rw [loose, List.count_cons]
    cases List.infix_cons_iff.mp h with
    | inl hstart =>
      rw [List.cons_prefix_cons] at hstart
      have hle : loose mark p cs ≤ cs.count mark := loose_le_count cs
      rw [if_neg (fun hboth => hboth.2 hstart.2), ← hstart.1]
      simp only [BEq.rfl, if_true]
      omega
    | inr hlater =>
      have hlt := ih hlater
      by_cases hc : c = mark
      · rw [hc]
        simp only [true_and, BEq.rfl, if_true]
        split_ifs <;> omega
      · simpa [hc] using hlt

theorem loose_suffix {x y : List α} (h : x <:+ y) : loose mark p x ≤ loose mark p y := by
  induction y with
  | nil =>
    rw [List.suffix_nil.mp h]
  | cons c y ih =>
    cases List.suffix_cons_iff.mp h with
    | inl hall => rw [hall]
    | inr hlater =>
      rw [loose]
      exact (ih hlater).trans (Nat.le_add_left _ _)

theorem loose_append (hp : mark ∉ p) (x : List α) {y : List α} (hy : AtMark mark y) :
    loose mark p (x ++ y) = loose mark p x + loose mark p y := by
  induction x with
  | nil => simp [loose]
  | cons c x ih =>
    rw [List.cons_append, loose, loose, ih]
    simp only [prefix_append_atMark hp hy]
    omega

theorem loose_unmarked {x : List α} (hx : mark ∉ x) (y : List α) :
    loose mark p (x ++ y) = loose mark p y := by
  induction x with
  | nil => rfl
  | cons c x ih =>
    have ⟨hc, hx'⟩ : mark ≠ c ∧ mark ∉ x := by simpa using hx
    rw [List.cons_append, loose, ih hx', if_neg (fun hboth => hc hboth.1.symm), Nat.zero_add]

theorem loose_start (hp : mark ∉ p) {r : List α} (hr : mark ∉ r) (y : List α) :
    loose mark p (mark :: p ++ r ++ y) = loose mark p y := by
  have hstart : p <+: p ++ r ++ y := by
    rw [List.append_assoc]
    exact List.prefix_append _ _
  rw [List.cons_append, List.cons_append, loose, if_neg (fun hboth => hboth.2 hstart), Nat.zero_add,
    List.append_assoc, loose_unmarked hp, loose_unmarked hr]

theorem loose_lt_of_start {x y : List α} {u : List α} (hu : u ≠ []) (hux : u <:+ x)
    (hstart : mark :: p <+: u ++ y) : loose mark p (x ++ y) < x.count mark + loose mark p y := by
  have hle : ∀ x : List α, loose mark p (x ++ y) ≤ x.count mark + loose mark p y := by
    intro x
    induction x with
    | nil => simp
    | cons c x ih =>
      rw [List.cons_append, loose, List.count_cons]
      by_cases hc : c = mark
      · rw [hc]
        simp only [true_and, BEq.rfl, if_true]
        split_ifs <;> omega
      · simpa [hc] using ih
  induction x with
  | nil => exact absurd (List.suffix_nil.mp hux) hu
  | cons c x ih =>
    rw [List.cons_append, loose, List.count_cons]
    cases List.suffix_cons_iff.mp hux with
    | inl hall =>
      rw [hall, List.cons_append, List.cons_prefix_cons] at hstart
      have hlater := hle x
      rw [if_neg (fun hboth => hboth.2 hstart.2), ← hstart.1]
      simp only [BEq.rfl, if_true]
      omega
    | inr hsuffix =>
      have hlater := ih hsuffix
      by_cases hc : c = mark
      · rw [hc]
        simp only [true_and, BEq.rfl, if_true]
        split_ifs <;> omega
      · simpa [hc] using hlater

theorem prefix_eraseAll {w x : List α} (hw : mark ∉ w) (h : w <+: x) (q : List α) :
    w <+: eraseAll (mark :: q) x := by
  induction w generalizing x with
  | nil => exact List.nil_prefix
  | cons c w ih =>
    have ⟨hc, hw'⟩ : mark ≠ c ∧ mark ∉ w := by simpa using hw
    cases x with
    | nil => exact absurd (List.prefix_nil.mp h) (List.cons_ne_nil c w)
    | cons d x =>
      rw [List.cons_prefix_cons] at h
      have hno : ¬mark :: q <+: d :: x := by
        intro hp
        rw [List.cons_prefix_cons] at hp
        exact hc (hp.1.trans h.1.symm)
      rw [eraseAll_cons_of_not hno, List.cons_prefix_cons]
      exact ⟨h.1, ih hw' h.2⟩

theorem loose_eraseAll (hp : mark ∉ p) (q text : List α) :
    loose mark p (eraseAll (mark :: q) text) ≤ loose mark p text := by
  fun_induction eraseAll (mark :: q) text with
  | case1 => exact Nat.le_refl 0
  | case2 c cs h ih =>
    exact ih.trans (loose_suffix ((List.drop_suffix _ _).trans (List.suffix_cons c cs)))
  | case3 c cs h ih =>
    rw [loose, loose]
    by_cases hboth : c = mark ∧ ¬p <+: eraseAll (mark :: q) cs
    · have hcs : ¬p <+: cs := fun hpre => hboth.2 (prefix_eraseAll hp hpre q)
      rw [if_pos hboth, if_pos ⟨hboth.1, hcs⟩]
      omega
    · rw [if_neg hboth]
      omega

theorem count_eraseSpans (text : List α) :
    (eraseSpans (mark :: p) stop text).count mark ≤ loose mark p text := by
  fun_induction eraseSpans (mark :: p) stop text with
  | case1 => exact Nat.le_refl 0
  | case2 c cs h ih =>
    exact ih.trans (loose_suffix (((skipTo_suffix _ _).trans (List.drop_suffix _ _)).trans
      (List.suffix_cons c cs)))
  | case3 c cs h ih =>
    rw [List.isPrefixOf_iff_prefix, List.cons_prefix_cons] at h
    rw [loose, List.count_cons]
    by_cases hc : c = mark
    · have hloose : c = mark ∧ ¬p <+: cs := ⟨hc, fun hpre => h ⟨hc.symm, hpre⟩⟩
      rw [if_pos hloose, hc]
      simp only [BEq.rfl, if_true]
      omega
    · simpa [hc] using ih

end Loose

section Segments

variable {α ν : Type*} [DecidableEq α] {mark final : α} {p t : List α} {stop : List α → Bool}
variable {text : ν → List α} {own : ν → Option (List α)}

def render (text : ν → List α) (notes : List ν) : List α := notes.flatMap text

/-- Notes that start with a mark, those of one owner with a pattern of its own before a reason. -/
structure Marked (mark : α) (p : List α) (text : ν → List α) (own : ν → Option (List α)) :
    Prop where
  starts : ∀ n, ∃ rest, text n = mark :: rest
  owned : ∀ n r, own n = some r → text n = mark :: p ++ r
  unmarked : ∀ n r, own n = some r → mark ∉ r

variable (hmarked : Marked mark p text own)

include hmarked

omit [DecidableEq α] in
theorem render_atMark (notes : List ν) {y : List α} (hy : AtMark mark y) :
    AtMark mark (render text notes ++ y) := by
  cases notes with
  | nil => exact hy
  | cons n notes =>
    have ⟨rest, hrest⟩ := hmarked.starts n
    rw [render, List.flatMap_cons, hrest]
    exact atMark_cons _

theorem eraseAll_render (hp : mark ∉ p) {notes : List ν} {y : List α} (hy : AtMark mark y)
    (hforeign : ∀ n ∈ notes, own n = none → ¬mark :: p <:+: text n)
    (hexact : ∀ n ∈ notes, ∀ r, own n = some r → ∀ z, AtMark mark z → t <+: r ++ z → r = t) :
    eraseAll (mark :: p ++ t) (render text notes ++ y) =
      render text (notes.filter fun n => own n ≠ some t) ++ eraseAll (mark :: p ++ t) y := by
  induction notes with
  | nil => rfl
  | cons n notes ih =>
    have hlater := ih (fun m hm => hforeign m (List.mem_cons_of_mem _ hm))
      fun m hm => hexact m (List.mem_cons_of_mem _ hm)
    have hmark := render_atMark hmarked notes hy
    have hsplit : render text (n :: notes) ++ y = text n ++ (render text notes ++ y) := by
      rw [render, List.flatMap_cons, List.append_assoc]
      rfl
    rw [hsplit]
    have hkept (h : own n ≠ some t) :
        render text ((n :: notes).filter fun n => own n ≠ some t) ++ eraseAll (mark :: p ++ t) y =
          text n ++ (render text (notes.filter fun n => own n ≠ some t) ++
            eraseAll (mark :: p ++ t) y) := by
      rw [List.filter_cons_of_pos (by simpa using h), render, List.flatMap_cons, List.append_assoc]
      rfl
    cases hown : own n with
    | none =>
      rw [hkept (by simp [hown]), ← hlater]
      exact eraseAll_append (no_start_of_absent hp hmark (hforeign n List.mem_cons_self hown))
    | some r =>
      rw [hmarked.owned n r hown]
      by_cases hr : r = t
      · rw [List.filter_cons_of_neg (by simp [hown, hr]), ← hlater, hr]
        exact eraseAll_start p t _
      · have hne : own n ≠ some t := by
          rw [hown]
          exact fun heq => hr (Option.some.inj heq)
        rw [hkept hne, ← hlater, hmarked.owned n r hown]
        have hpass := eraseAll_pass hp (hmarked.unmarked n r hown) fun hpre =>
          hr (hexact n List.mem_cons_self r hown _ hmark hpre)
        rw [hpass, List.append_assoc]

omit hmarked in
theorem skipTo_unmarked {x : List α} (hx : mark ∉ x)
    (hstop : ∀ c cs, c ≠ mark → (stop (c :: cs) = true ↔ c = final ∧ cs = [])) :
    skipTo stop x = if x.getLast? = some final then [final] else [] := by
  induction x with
  | nil => rfl
  | cons c cs ih =>
    have ⟨hc, hcs⟩ : mark ≠ c ∧ mark ∉ cs := by simpa using hx
    rw [skipTo]
    cases cs with
    | nil =>
      by_cases hfinal : c = final
      · rw [if_pos ((hstop c [] hc.symm).mpr ⟨hfinal, rfl⟩), hfinal]
        exact (if_pos rfl).symm
      · rw [if_neg (fun h => hfinal ((hstop c [] hc.symm).mp h).1)]
        simp [skipTo, hfinal]
    | cons d ds =>
      rw [if_neg (fun h => List.cons_ne_nil d ds ((hstop c _ hc.symm).mp h).2), ih hcs,
        List.getLast?_cons_cons]

/-- Erasing every note of the owner leaves the others, and a final character at the end of a last
note of the owner. -/
theorem eraseSpans_render (hp : mark ∉ p) (hfinal : final ≠ mark) {notes : List ν}
    (hforeign : ∀ n ∈ notes, own n = none → ¬mark :: p <:+: text n)
    (hnotes : ∀ n rest, stop (text n ++ rest) = true)
    (hstop : ∀ c cs, c ≠ mark → (stop (c :: cs) = true ↔ c = final ∧ cs = [])) :
    eraseSpans (mark :: p) stop (render text notes) =
      render text (notes.filter fun n => (own n).isNone) ++
        if (notes.getLast?.bind own).bind List.getLast? = some final then [final] else [] := by
  induction notes with
  | nil => simp [render, eraseSpans]
  | cons n notes ih =>
    have hlater := ih fun m hm => hforeign m (List.mem_cons_of_mem _ hm)
    have hmark : AtMark mark (render text notes) := by
      have h := render_atMark hmarked notes (y := []) atMark_nil
      rwa [List.append_nil] at h
    have hlast : notes ≠ [] → (n :: notes).getLast? = notes.getLast? := by
      intro hne
      cases notes with
      | nil => exact absurd rfl hne
      | cons m notes => exact List.getLast?_cons_cons
    change eraseSpans (mark :: p) stop (text n ++ render text notes) = _
    cases hown : own n with
    | none =>
      rw [eraseSpans_append (no_start_of_absent hp hmark (hforeign n List.mem_cons_self hown)),
        hlater, List.filter_cons_of_pos (by rw [hown]; rfl)]
      change text n ++ (render text _ ++ _) = text n ++ render text _ ++ _
      rw [List.append_assoc]
      cases notes with
      | nil => simp [hown]
      | cons m notes => rw [hlast (List.cons_ne_nil m notes)]
    | some r =>
      have hr := hmarked.unmarked n r hown
      rw [hmarked.owned n r hown, List.append_assoc, eraseSpans_start,
        List.filter_cons_of_neg (by simp [hown])]
      cases notes with
      | nil =>
        rw [show render text ([] : List ν) = [] from rfl, List.append_nil,
          skipTo_unmarked hr hstop]
        have hpre : ¬mark :: p <+: [final] := by
          intro hpre
          rw [List.cons_prefix_cons] at hpre
          exact hfinal hpre.1.symm
        have hlone : eraseSpans (mark :: p) stop [final] = [final] := by
          rw [eraseSpans, if_neg (by rwa [List.isPrefixOf_iff_prefix]), eraseSpans]
        have hnil : eraseSpans (mark :: p) stop [] = [] := by rw [eraseSpans]
        simp [hown, render, apply_ite (eraseSpans (mark :: p) stop), hlone, hnil]
      | cons m notes =>
        have ⟨rest, hrest⟩ := hmarked.starts m
        have hhere : stop (render text (m :: notes)) = true := hnotes m _
        have hinner : ∀ u, u ≠ [] → u <:+ r → stop (u ++ render text (m :: notes)) = false := by
          intro u hu hur
          cases u with
          | nil => exact absurd rfl hu
          | cons c u =>
            have hc : c ≠ mark := by
              rintro rfl
              exact hr (hur.subset List.mem_cons_self)
            apply eq_false_of_ne_true
            intro hbad
            have hnil := ((hstop c _ hc).mp hbad).2
            rw [render, List.flatMap_cons, hrest] at hnil
            simp at hnil
        rw [skipTo_append hinner (.inr hhere), hlater, hlast (List.cons_ne_nil m notes)]

theorem loose_render (hp : mark ∉ p) (notes : List ν) :
    loose mark p (render text notes) =
      loose mark p (render text (notes.filter fun n => (own n).isNone)) := by
  induction notes with
  | nil => rfl
  | cons n notes ih =>
    have hmark (ns : List ν) : AtMark mark (render text ns) := by
      have h := render_atMark hmarked ns (y := []) atMark_nil
      rwa [List.append_nil] at h
    change loose mark p (text n ++ render text notes) = _
    cases hown : own n with
    | none =>
      rw [List.filter_cons_of_pos (by rw [hown]; rfl), loose_append hp _ (hmark notes), ih,
        ← loose_append hp _ (hmark _)]
      rfl
    | some r =>
      rw [List.filter_cons_of_neg (by simp [hown]), ← ih, hmarked.owned n r hown,
        loose_start hp (hmarked.unmarked n r hown)]

omit hmarked [DecidableEq α] in
theorem infix_append_atMark {q x y : List α} (hq : mark ∉ q) (hy : AtMark mark y)
    (h : mark :: q <:+: x ++ y) : mark :: q <:+: x ∨ mark :: q <:+: y := by
  induction x with
  | nil => exact .inr h
  | cons c x ih =>
    rw [List.cons_append, List.infix_cons_iff] at h
    cases h with
    | inl hhere =>
      rw [List.cons_prefix_cons, prefix_append_atMark hq hy, ← List.cons_prefix_cons] at hhere
      exact .inl hhere.isInfix
    | inr hlater => exact (ih hlater).imp_left fun hx => hx.trans (List.suffix_cons c x).isInfix

omit [DecidableEq α] in
theorem infix_render (hp : mark ∉ p) {w : List α} (hw : mark ∉ w) {notes : List ν}
    (hforeign : ∀ n ∈ notes, own n = none → ¬mark :: p <:+: text n)
    (h : mark :: p ++ w <:+: render text notes) : ∃ n ∈ notes, ∃ r, own n = some r ∧ w <+: r := by
  have hq : mark ∉ p ++ w := by
    rw [List.mem_append, not_or]
    exact ⟨hp, hw⟩
  induction notes with
  | nil =>
    have hnil := List.infix_nil.mp h
    cases hnil
  | cons n notes ih =>
    have hmark : AtMark mark (render text notes) := by
      have hnotes := render_atMark hmarked notes (y := []) atMark_nil
      rwa [List.append_nil] at hnotes
    cases infix_append_atMark hq hmark (h : mark :: (p ++ w) <:+: text n ++ render text notes) with
    | inr hlater =>
      have ⟨m, hm, r, hr⟩ := ih (fun m hm => hforeign m (List.mem_cons_of_mem _ hm)) hlater
      exact ⟨m, List.mem_cons_of_mem _ hm, r, hr⟩
    | inl hhere =>
      cases hown : own n with
      | none =>
        have hpat : mark :: p <:+: mark :: (p ++ w) := (List.prefix_append (mark :: p) w).isInfix
        exact absurd (hpat.trans hhere) (hforeign n List.mem_cons_self hown)
      | some r =>
        rw [hmarked.owned n r hown, List.cons_append, List.infix_cons_iff] at hhere
        cases hhere with
        | inl hstart =>
          rw [List.cons_prefix_cons, List.prefix_append_right_inj] at hstart
          exact ⟨n, List.mem_cons_self, r, hown, hstart.2⟩
        | inr hinside =>
          have hmem : mark ∈ p ++ r := hinside.subset List.mem_cons_self
          rw [List.mem_append] at hmem
          exact absurd hmem (not_or.mpr ⟨hp, hmarked.unmarked n r hown⟩)

end Segments

end Shapoclyack.Library
