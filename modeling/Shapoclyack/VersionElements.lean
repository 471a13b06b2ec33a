import Mathlib.Data.String.Basic
import Shapoclyack.RetroMatch

set_option autoImplicit false

namespace Shapoclyack.VersionElements

open RetroMatch

section Elements

/-- The elements a version is read into: pre-releases, letters and numbers. -/
def Element (x : VersionElement) : Prop :=
  x.1 = 0 ∨ (∃ t, x = (2, 0, t)) ∨ ∃ n : ℕ, x = (3, (n : ℤ), "")

def tupleOrder : VersionElement → VersionElement → Ordering :=
  compareLex (compareOn fun x => x.1)
    (compareLex (compareOn fun x => x.2.1) (compareOn fun x => x.2.2))

instance : Std.TransCmp tupleOrder :=
  inferInstanceAs (Std.TransCmp (compareLex (compareOn fun x : VersionElement => x.1)
    (compareLex (compareOn fun x : VersionElement => x.2.1)
      (compareOn fun x : VersionElement => x.2.2))))

theorem tupleOrder_self (x : VersionElement) : tupleOrder x x = .eq := Std.ReflCmp.compare_self

theorem tupleOrder_eq {x y : VersionElement} : tupleOrder x y = .eq ↔ x = y := by
  change ((compare x.1 y.1).then ((compare x.2.1 y.2.1).then (compare x.2.2 y.2.2))) = .eq ↔ _
  rw [Ordering.then_eq_eq, Ordering.then_eq_eq, compare_eq_iff_eq, compare_eq_iff_eq,
    compare_eq_iff_eq, Prod.ext_iff, Prod.ext_iff]

theorem tupleOrder_of_kind {x y : VersionElement} (h : x.1 < y.1) : tupleOrder x y = .lt := by
  change ((compare x.1 y.1).then _) = .lt
  rw [Ordering.then_eq_lt]
  exact .inl (compare_lt_iff_lt.mpr h)

theorem kind_le_of_lt {x y : VersionElement} (h : tupleOrder x y = .lt) : x.1 ≤ y.1 := by
  apply le_of_not_gt
  intro hlt
  have hgt := Std.OrientedCmp.gt_of_lt (tupleOrder_of_kind hlt)
  rw [h] at hgt
  cases hgt

theorem tupleOrder_numbers {m n : ℤ} : tupleOrder (3, m, "") (3, n, "") = compare m n := by
  change ((compare 3 3).then ((compare m n).then (compare "" ""))) = _
  have hempty : compare "" "" = Ordering.eq := Std.ReflCmp.compare_self
  rw [hempty, Ordering.then_eq]
  rfl

theorem tupleOrder_letters {s t : String} : tupleOrder (2, 0, s) (2, 0, t) = compare s t := by
  change ((compare 2 2).then ((compare 0 0).then (compare s t))) = _
  rfl

def Tied (x y : VersionElement) : Prop :=
  (x = endElement ∧ y = zeroElement) ∨ (x = zeroElement ∧ y = endElement)

theorem compareElement_of_tied {x y : VersionElement} (h : Tied x y) : compareElement x y = .eq :=
  if_pos h

theorem compareElement_of_not_tied {x y : VersionElement} (h : ¬Tied x y) :
    compareElement x y = tupleOrder x y :=
  if_neg h

theorem Tied.symm {x y : VersionElement} (h : Tied x y) : Tied y x :=
  (Or.symm h).imp And.symm And.symm

theorem compareElement_swap (x y : VersionElement) :
    compareElement x y = (compareElement y x).swap := by
  by_cases h : Tied x y
  · rw [compareElement_of_tied h, compareElement_of_tied h.symm]
    rfl
  · rw [compareElement_of_not_tied h, compareElement_of_not_tied fun h' => h h'.symm]
    exact Std.OrientedCmp.eq_swap

theorem compareElement_self (x : VersionElement) : compareElement x x = .eq := by
  by_cases h : Tied x x
  · exact compareElement_of_tied h
  · rw [compareElement_of_not_tied h]
    exact Std.ReflCmp.compare_self

theorem compareElement_eq {x y : VersionElement} : compareElement x y = .eq ↔ x = y ∨ Tied x y := by
  constructor
  · intro heq
    by_cases h : Tied x y
    · exact .inr h
    · rw [compareElement_of_not_tied h] at heq
      exact .inl (tupleOrder_eq.mp heq)
  · intro h
    cases h with
    | inl h => rw [h, compareElement_self]
    | inr h => exact compareElement_of_tied h

theorem compareElement_lt {x y : VersionElement} :
    compareElement x y = .lt ↔ tupleOrder x y = .lt ∧ ¬Tied x y := by
  by_cases h : Tied x y
  · rw [compareElement_of_tied h]
    exact ⟨fun hlt => Ordering.noConfusion hlt, fun hlt => absurd h hlt.2⟩
  · rw [compareElement_of_not_tied h]
    exact ⟨fun hlt => ⟨hlt, h⟩, And.left⟩

theorem end_lt_zero : tupleOrder endElement zeroElement = .lt := tupleOrder_of_kind (by decide)

theorem end_ne_zero : endElement ≠ zeroElement := by decide

theorem Element.ne_end {x : VersionElement} (h : Element x) : x ≠ endElement := by
  intro hx
  rw [hx] at h
  cases h with
  | inl h => exact absurd h (by decide)
  | inr h =>
    cases h with
    | inl h =>
      have ⟨t, ht⟩ := h
      exact absurd (congrArg Prod.fst ht) (by decide : (1 : ℕ) ≠ 2)
    | inr h =>
      have ⟨n, hn⟩ := h
      exact absurd (congrArg Prod.fst hn) (by decide : (1 : ℕ) ≠ 3)

theorem letters_of_between {x : VersionElement} (h : Element x)
    (hlow : tupleOrder endElement x = .lt) (hhigh : tupleOrder x zeroElement = .lt) :
    ∃ t, x = (2, 0, t) := by
  cases h with
  | inl h =>
    have hle : 1 ≤ x.1 := kind_le_of_lt hlow
    omega
  | inr h =>
    cases h with
    | inl h => exact h
    | inr h =>
      have ⟨n, hn⟩ := h
      rw [hn] at hhigh
      have hneg := compare_lt_iff_lt.mp (tupleOrder_numbers.symm.trans hhigh)
      omega

def Place (x : VersionElement) : Prop := x = endElement ∨ Element x

def Mixed (e o p : VersionElement) : Prop :=
  e = endElement ∧ o = zeroElement ∧ ∃ t, p = (2, 0, t)

theorem tie_trans {x y z : VersionElement} (hxy : compareElement x y = .eq)
    (hyz : compareElement y z = .eq) : compareElement x z = .eq := by
  rw [compareElement_eq] at *
  cases hxy with
  | inl hxy => rw [hxy]; exact hyz
  | inr hxy =>
    cases hyz with
    | inl hyz => rw [← hyz]; exact .inr hxy
    | inr hyz =>
      cases hxy with
      | inl hxy =>
        cases hyz with
        | inl hyz => exact absurd (hyz.1.symm.trans hxy.2) end_ne_zero
        | inr hyz => exact .inl (hxy.1.trans hyz.2.symm)
      | inr hxy =>
        cases hyz with
        | inl hyz => exact .inl (hxy.1.trans hyz.2.symm)
        | inr hyz => exact absurd (hxy.2.symm.trans hyz.1) end_ne_zero

theorem lt_of_tie_of_lt {x y z : VersionElement} (hz : Place z) (hxy : compareElement x y = .eq)
    (hyz : compareElement y z = .lt) : compareElement x z = .lt ∨ Mixed y x z := by
  cases compareElement_eq.mp hxy with
  | inl hxy => exact .inl (by rw [hxy]; exact hyz)
  | inr hxy =>
    have ⟨hlt, hfree⟩ := compareElement_lt.mp hyz
    cases hxy with
    | inl hxy =>
      left
      rw [hxy.2] at hlt hfree
      rw [hxy.1]
      refine compareElement_lt.mpr ⟨Std.TransCmp.lt_trans end_lt_zero hlt, ?_⟩
      intro htied
      cases htied with
      | inl h =>
        rw [h.2, tupleOrder_self] at hlt
        cases hlt
      | inr h => exact end_ne_zero h.1
    | inr hxy =>
      rw [hxy.2] at hlt hfree
      cases hz with
      | inl hz =>
        rw [hz, tupleOrder_self] at hlt
        cases hlt
      | inr hz =>
        cases hzero : tupleOrder zeroElement z with
        | lt =>
          left
          rw [hxy.1]
          refine compareElement_lt.mpr ⟨hzero, ?_⟩
          intro htied
          cases htied with
          | inl h => exact end_ne_zero h.1.symm
          | inr h => exact hz.ne_end h.2
        | eq => exact absurd (.inl ⟨rfl, (tupleOrder_eq.mp hzero).symm⟩) hfree
        | gt =>
          exact .inr ⟨hxy.2, hxy.1,
            letters_of_between hz hlt (Std.OrientedCmp.lt_of_gt hzero)⟩

theorem lt_of_lt_of_tie {x y z : VersionElement} (hx : Place x) (hxy : compareElement x y = .lt)
    (hyz : compareElement y z = .eq) : compareElement x z = .lt ∨ Mixed z y x := by
  cases compareElement_eq.mp hyz with
  | inl hyz => exact .inl (by rw [← hyz]; exact hxy)
  | inr hyz =>
    have ⟨hlt, hfree⟩ := compareElement_lt.mp hxy
    cases hyz with
    | inl hyz =>
      left
      rw [hyz.1] at hlt
      rw [hyz.2]
      refine compareElement_lt.mpr ⟨Std.TransCmp.lt_trans hlt end_lt_zero, ?_⟩
      intro htied
      cases htied with
      | inl h =>
        rw [h.1, tupleOrder_self] at hlt
        cases hlt
      | inr h => exact end_ne_zero h.2.symm
    | inr hyz =>
      rw [hyz.1] at hlt hfree
      cases hx with
      | inl hx => exact absurd (.inl ⟨hx, rfl⟩) hfree
      | inr hx =>
        cases hend : tupleOrder x endElement with
        | lt =>
          left
          rw [hyz.2]
          refine compareElement_lt.mpr ⟨hend, ?_⟩
          intro htied
          cases htied with
          | inl h => exact hx.ne_end h.1
          | inr h =>
            rw [h.1, tupleOrder_self] at hlt
            cases hlt
        | eq => exact absurd (tupleOrder_eq.mp hend) hx.ne_end
        | gt =>
          exact .inr ⟨hyz.2, hyz.1,
            letters_of_between hx (Std.OrientedCmp.lt_of_gt hend) hlt⟩

theorem lt_trans_or {x y z : VersionElement} (hy : Place y) (hxy : compareElement x y = .lt)
    (hyz : compareElement y z = .lt) : compareElement x z = .lt ∨ Mixed x z y := by
  have hlow := (compareElement_lt.mp hxy).1
  have hhigh := (compareElement_lt.mp hyz).1
  have hlt : tupleOrder x z = .lt := Std.TransCmp.lt_trans hlow hhigh
  by_cases h : Tied x z
  · right
    cases h with
    | inl h =>
      rw [h.1] at hlow
      rw [h.2] at hhigh
      cases hy with
      | inl hy =>
        rw [hy, tupleOrder_self] at hlow
        cases hlow
      | inr hy => exact ⟨h.1, h.2, letters_of_between hy hlow hhigh⟩
    | inr h =>
      rw [h.1, h.2] at hlt
      cases hlt.symm.trans (Std.OrientedCmp.gt_of_lt end_lt_zero)
  · exact .inl (compareElement_lt.mpr ⟨hlt, h⟩)

end Elements

section Keys

def Key (key : List VersionElement) : Prop := ∀ x ∈ key, Element x

theorem Key.tail {key : List VersionElement} (h : Key key) : Key key.tail :=
  fun x hx => h x (List.mem_of_mem_tail hx)

theorem Key.place {key : List VersionElement} (h : Key key) : Place (key.headD endElement) := by
  cases key with
  | nil => exact .inl rfl
  | cons x key => exact .inr (h x List.mem_cons_self)

theorem headD_eq_end {key : List VersionElement} (h : Key key)
    (hend : key.headD endElement = endElement) : key = [] := by
  cases key with
  | nil => rfl
  | cons x key => exact absurd hend (h x List.mem_cons_self).ne_end

theorem headD_eq {key : List VersionElement} {x : VersionElement} (hx : x ≠ endElement)
    (h : key.headD endElement = x) : key = x :: key.tail := by
  cases key with
  | nil => exact absurd h.symm hx
  | cons y key => rw [← h]; rfl

theorem compareElements_head_tail (a b : List VersionElement) :
    compareElements a b =
      (compareElement (a.headD endElement) (b.headD endElement)).then
        (compareElements a.tail b.tail) := by
  cases a with
  | nil =>
    cases b with
    | nil => simp [compareElements, compareElement_self]
    | cons y b => simp [compareElements]
  | cons x a =>
    cases b with
    | nil => simp [compareElements]
    | cons y b => simp [compareElements]

theorem compareElements_cons (x y : VersionElement) (a b : List VersionElement) :
    compareElements (x :: a) (y :: b) = (compareElement x y).then (compareElements a b) :=
  compareElements_head_tail (x :: a) (y :: b)

theorem compareElements_cons_nil (x : VersionElement) (a : List VersionElement) :
    compareElements (x :: a) [] = (compareElement x endElement).then (compareElements a []) :=
  compareElements_head_tail (x :: a) []

theorem compareElements_nil_cons (y : VersionElement) (b : List VersionElement) :
    compareElements [] (y :: b) = (compareElement endElement y).then (compareElements [] b) :=
  compareElements_head_tail [] (y :: b)

theorem compareElements_swap (a b : List VersionElement) :
    compareElements a b = (compareElements b a).swap := by
  fun_induction compareElements a b with
  | case1 => rw [compareElements]; rfl
  | case2 x a ih =>
    rw [ih, compareElement_swap, ← Ordering.swap_then, ← compareElements_nil_cons]
  | case3 y b ih =>
    rw [ih, compareElement_swap, ← Ordering.swap_then, ← compareElements_cons_nil]
  | case4 x a y b ih =>
    rw [ih, compareElement_swap, ← Ordering.swap_then, ← compareElements_cons]

theorem compareElements_self (a : List VersionElement) : compareElements a a = .eq := by
  induction a with
  | nil => rw [compareElements]
  | cons x a ih => rw [compareElements_cons, compareElement_self, ih]; rfl

theorem compareElements_append (ns a b : List VersionElement) :
    compareElements (ns ++ a) (ns ++ b) = compareElements a b := by
  induction ns with
  | nil => rfl
  | cons x ns ih =>
    rw [List.cons_append, List.cons_append, compareElements_cons, compareElement_self, ih]
    rfl

/-- A version that does not rank above one that ends before it: zeros, then nothing or a
pre-release. -/
def Trailing : List VersionElement → Prop
  | [] => True
  | x :: rest => x.1 = 0 ∨ x = zeroElement ∧ Trailing rest

theorem tied_zero_end : compareElement zeroElement endElement = .eq :=
  compareElement_of_tied (.inr ⟨rfl, rfl⟩)

theorem compareElement_of_kind {x y : VersionElement} (h : x.1 < y.1) (hx : x ≠ endElement) :
    compareElement x y = .lt := by
  refine compareElement_lt.mpr ⟨tupleOrder_of_kind h, ?_⟩
  intro htied
  cases htied with
  | inl htied => exact hx htied.1
  | inr htied =>
    rw [htied.1, htied.2] at h
    exact absurd h (by decide)

theorem end_lt {x : VersionElement} (h : Element x) (hkind : x.1 ≠ 0) (hzero : x ≠ zeroElement) :
    compareElement endElement x = .lt := by
  have hlt : tupleOrder endElement x = .lt := by
    apply tupleOrder_of_kind
    cases h with
    | inl h => exact absurd h hkind
    | inr h =>
      cases h with
      | inl h =>
        have ⟨t, ht⟩ := h
        rw [ht]
        exact (by decide : (1 : ℕ) < 2)
      | inr h =>
        have ⟨n, hn⟩ := h
        rw [hn]
        exact (by decide : (1 : ℕ) < 3)
  refine compareElement_lt.mpr ⟨hlt, ?_⟩
  intro htied
  cases htied with
  | inl htied => exact hzero htied.2
  | inr htied => exact h.ne_end htied.2

theorem isLE_nil_iff {key : List VersionElement} (h : Key key) :
    (compareElements key []).isLE = true ↔ Trailing key := by
  induction key with
  | nil =>
    rw [compareElements]
    exact ⟨fun _ => trivial, fun _ => rfl⟩
  | cons x key ih =>
    have hx : Element x := h x List.mem_cons_self
    rw [compareElements_cons_nil]
    by_cases hzero : x = zeroElement
    · rw [hzero, tied_zero_end, Ordering.eq_then, ih h.tail]
      exact ⟨fun htail => .inr ⟨rfl, htail⟩,
        fun htail => htail.elim (fun hkind => absurd hkind (by decide)) And.right⟩
    · by_cases hkind : x.1 = 0
      · rw [compareElement_of_kind (by rw [hkind]; decide) hx.ne_end]
        exact ⟨fun _ => .inl hkind, fun _ => rfl⟩
      · rw [compareElement_swap, end_lt hx hkind hzero]
        exact ⟨fun hfalse => Bool.noConfusion hfalse,
          fun htail => htail.elim (fun h' => absurd h' hkind) (fun h' => absurd h'.1 hzero)⟩

/-- A version, the version with a zero more, and the version with letters more. -/
def Clash (e o p : List VersionElement) : Prop :=
  ∃ n t rest more,
    o = e ++ List.replicate n zeroElement ++ zeroElement :: rest ∧ Trailing rest ∧
    p = e ++ List.replicate n zeroElement ++ (2, 0, t) :: more

theorem clash_of_mixed {a b c : List VersionElement} (ha : Key a)
    (h : Mixed (a.headD endElement) (b.headD endElement) (c.headD endElement))
    (hrest : Trailing b.tail) : Clash a b c := by
  have ⟨hend, hzero, t, ht⟩ := h
  have hb := headD_eq end_ne_zero.symm hzero
  have hc := headD_eq (fun h' => absurd (congrArg Prod.fst h') (by decide : (2 : ℕ) ≠ 1)) ht
  rw [headD_eq_end ha hend]
  exact ⟨0, t, b.tail, c.tail, hb, hrest, hc⟩

theorem eq_of_tied_elements {x y : VersionElement} (hx : Element x) (hy : Element y)
    (h : compareElement x y = .eq) : x = y := by
  cases compareElement_eq.mp h with
  | inl h => exact h
  | inr h =>
    cases h with
    | inl h => exact absurd h.1 hx.ne_end
    | inr h => exact absurd h.2 hy.ne_end

theorem eq_zero_of_tied_end {x : VersionElement} (hx : Element x)
    (h : compareElement endElement x = .eq) : x = zeroElement := by
  cases compareElement_eq.mp h with
  | inl h => exact absurd h.symm hx.ne_end
  | inr h =>
    cases h with
    | inl h => exact h.2
    | inr h => exact absurd h.2 hx.ne_end

theorem clash_of_tails {a b c : List VersionElement} (ha : Key a) (hb : Key b) (hc : Key c)
    (hab : compareElement (a.headD endElement) (b.headD endElement) = .eq)
    (hac : compareElement (a.headD endElement) (c.headD endElement) = .eq)
    (h : Clash a.tail b.tail c.tail) : Clash a b c := by
  have ⟨n, t, rest, more, hbt, hrest, hct⟩ := h
  cases b with
  | nil => simp at hbt
  | cons y b =>
    cases c with
    | nil => simp at hct
    | cons z c =>
      have hy : Element y := hb y List.mem_cons_self
      have hz : Element z := hc z List.mem_cons_self
      rw [List.headD_cons] at hab hac
      rw [List.tail_cons] at hbt hct
      cases a with
      | nil =>
        rw [eq_zero_of_tied_end hy hab, eq_zero_of_tied_end hz hac, hbt, hct]
        exact ⟨n + 1, t, rest, more, rfl, hrest, rfl⟩
      | cons x a =>
        have hx : Element x := ha x List.mem_cons_self
        rw [← eq_of_tied_elements hx hy hab, ← eq_of_tied_elements hx hz hac, hbt, hct]
        exact ⟨n, t, rest, more, rfl, hrest, rfl⟩

theorem isLE_trans_of_apart {a b c : List VersionElement} (ha : Key a) (hb : Key b) (hc : Key c)
    (hfirst : ¬Clash b a c) (hlast : ¬Clash c b a) (hmiddle : ¬Clash a c b)
    (hab : (compareElements a b).isLE = true) (hbc : (compareElements b c).isLE = true) :
    (compareElements a c).isLE = true := by
  have hlen : ∃ n, a.length ≤ n ∧ b.length ≤ n ∧ c.length ≤ n :=
    ⟨a.length + b.length + c.length, by omega, by omega, by omega⟩
  have ⟨n, hn⟩ := hlen
  clear hlen
  induction n generalizing a b c with
  | zero =>
    rw [List.eq_nil_of_length_eq_zero (Nat.le_zero.mp hn.1),
      List.eq_nil_of_length_eq_zero (Nat.le_zero.mp hn.2.2), compareElements_self]
    rfl
  | succ n ih =>
    have hab' := hab
    have hbc' := hbc
    rw [compareElements_head_tail] at hab' hbc' ⊢
    cases hxy : compareElement (a.headD endElement) (b.headD endElement) with
    | gt =>
      rw [hxy] at hab'
      exact Bool.noConfusion hab'
    | lt =>
      cases hyz : compareElement (b.headD endElement) (c.headD endElement) with
      | gt =>
        rw [hyz] at hbc'
        exact Bool.noConfusion hbc'
      | lt =>
        cases lt_trans_or hb.place hxy hyz with
        | inl hlt => rw [hlt]; rfl
        | inr hmixed =>
          by_cases hrest : Trailing c.tail
          · exact absurd (clash_of_mixed ha hmixed hrest) hmiddle
          · have hend := headD_eq_end ha hmixed.1
            have hgt : (compareElements c.tail []).isLE ≠ true :=
              fun h => hrest ((isLE_nil_iff hc.tail).mp h)
            rw [hmixed.1, hmixed.2.1, hend, List.tail_nil, compareElements_swap,
              compareElement_swap, tied_zero_end]
            cases hcmp : compareElements c.tail [] with
            | gt => rfl
            | lt => exact absurd (by rw [hcmp]; rfl) hgt
            | eq => exact absurd (by rw [hcmp]; rfl) hgt
      | eq =>
        cases lt_of_lt_of_tie ha.place hxy hyz with
        | inl hlt => rw [hlt]; rfl
        | inr hmixed =>
          rw [hyz, Ordering.eq_then, headD_eq_end hc hmixed.1, List.tail_nil] at hbc'
          exact absurd (clash_of_mixed hc hmixed ((isLE_nil_iff hb.tail).mp hbc')) hlast
    | eq =>
      cases hyz : compareElement (b.headD endElement) (c.headD endElement) with
      | gt =>
        rw [hyz] at hbc'
        exact Bool.noConfusion hbc'
      | lt =>
        cases lt_of_tie_of_lt hc.place hxy hyz with
        | inl hlt => rw [hlt]; rfl
        | inr hmixed =>
          rw [hxy, Ordering.eq_then, headD_eq_end hb hmixed.1, List.tail_nil] at hab'
          exact absurd (clash_of_mixed hb hmixed ((isLE_nil_iff ha.tail).mp hab')) hfirst
      | eq =>
        have hxz := tie_trans hxy hyz
        have hyx : compareElement (b.headD endElement) (a.headD endElement) = .eq := by
          rw [compareElement_swap, hxy]
          rfl
        have hzy : compareElement (c.headD endElement) (b.headD endElement) = .eq := by
          rw [compareElement_swap, hyz]
          rfl
        rw [hxy, Ordering.eq_then] at hab'
        rw [hyz, Ordering.eq_then] at hbc'
        rw [hxz, Ordering.eq_then]
        refine ih ha.tail hb.tail hc.tail
          (fun h => hfirst (clash_of_tails hb ha hc hyx hyz h))
          (fun h => hlast (clash_of_tails hc hb ha hzy (tie_trans hzy hyx) h))
          (fun h => hmiddle (clash_of_tails ha hc hb hxz hxy h)) hab' hbc' ?_
        simp only [List.length_tail]
        omega

theorem compareElements_zeros (n : ℕ) (key : List VersionElement) :
    compareElements (List.replicate n zeroElement ++ key) [] = compareElements key [] := by
  induction n with
  | zero => rfl
  | succ n ih =>
    rw [List.replicate_succ, List.cons_append, compareElements_cons_nil, tied_zero_end,
      Ordering.eq_then, ih]

/-- Versions that clash are compared in a circle. -/
theorem circle_of_clash {e o p : List VersionElement} (ho : Key o) (h : Clash e o p) :
    compareElements e p = .lt ∧ compareElements p o = .lt ∧
      (compareElements o e).isLE = true := by
  have ⟨n, t, rest, more, heq, hrest, hp⟩ := h
  have hletters : Element (2, 0, t) := .inr (.inl ⟨t, rfl⟩)
  have hover : compareElement endElement (2, 0, t) = .lt := by
    apply end_lt hletters (by decide : (2 : ℕ) ≠ 0)
    intro heq
    exact absurd (congrArg Prod.fst heq) (by decide : (2 : ℕ) ≠ 3)
  have hunder : compareElement (2, 0, t) zeroElement = .lt :=
    compareElement_of_kind (by decide : (2 : ℕ) < 3) hletters.ne_end
  have hsplit := compareElements_append e
  refine ⟨?_, ?_, ?_⟩
  · have hnil := hsplit [] (List.replicate n zeroElement ++ (2, 0, t) :: more)
    rw [List.append_nil, ← List.append_assoc] at hnil
    rw [hp, hnil, compareElements_swap, compareElements_zeros, compareElements_cons_nil,
      compareElement_swap, hover]
    rfl
  · rw [hp, heq, compareElements_append, compareElements_cons, hunder]
    rfl
  · have hnil := hsplit (List.replicate n zeroElement ++ zeroElement :: rest) []
    rw [List.append_nil, ← List.append_assoc] at hnil
    rw [heq, hnil, compareElements_zeros, compareElements_cons_nil, tied_zero_end,
      Ordering.eq_then, isLE_nil_iff]
    · exact hrest
    · intro x hx
      apply ho
      rw [heq]
      exact List.mem_append_right _ (List.mem_cons_of_mem _ hx)

end Keys

section Patches

def Numbers (key : List VersionElement) : Prop := ∀ x ∈ key, ∃ n : ℕ, x = (3, (n : ℤ), "")

theorem Numbers.key {key : List VersionElement} (h : Numbers key) : Key key :=
  fun x hx => .inr (.inr (h x hx))

theorem Numbers.of_cons {x : VersionElement} {key : List VersionElement}
    (h : Numbers (x :: key)) : Numbers key :=
  fun y hy => h y (List.mem_cons_of_mem x hy)

def patched (ns : List VersionElement) (m : ℕ) : List VersionElement :=
  ns ++ [(2, 0, "p"), (3, (m : ℤ), "")]

theorem letters_element (t : String) : Element (2, 0, t) := .inr (.inl ⟨t, rfl⟩)

theorem number_element (n : ℕ) : Element (3, (n : ℤ), "") := .inr (.inr ⟨n, rfl⟩)

theorem end_lt_letters (t : String) : compareElement endElement (2, 0, t) = .lt := by
  apply end_lt (letters_element t) (by decide : (2 : ℕ) ≠ 0)
  intro heq
  exact absurd (congrArg Prod.fst heq) (by decide : (2 : ℕ) ≠ 3)

theorem letters_lt_number (t : String) (n : ℕ) :
    compareElement (2, 0, t) (3, (n : ℤ), "") = .lt :=
  compareElement_of_kind (by decide : (2 : ℕ) < 3) (letters_element t).ne_end

theorem end_le_number (n : ℕ) : (compareElement endElement (3, (n : ℤ), "")).isLE = true := by
  by_cases hzero : (3, (n : ℤ), "") = zeroElement
  · rw [hzero, compareElement_swap, tied_zero_end]
    rfl
  · rw [end_lt (number_element n) (by decide : (3 : ℕ) ≠ 0) hzero]
    rfl

theorem end_le_numbers {key : List VersionElement} (h : Numbers key) :
    (compareElements [] key).isLE = true := by
  induction key with
  | nil => rw [compareElements]; rfl
  | cons x key ih =>
    obtain ⟨n, hn⟩ := h x List.mem_cons_self
    have hle := end_le_number n
    rw [compareElements_nil_cons, hn]
    cases hcmp : compareElement endElement (3, (n : ℤ), "") with
    | lt => rfl
    | eq => exact ih h.of_cons
    | gt =>
      rw [hcmp] at hle
      exact Bool.noConfusion hle

theorem lt_patched (ns : List VersionElement) (m : ℕ) :
    compareElements ns (patched ns m) = .lt := by
  have h := compareElements_append ns [] [(2, 0, "p"), (3, (m : ℤ), "")]
  rw [List.append_nil] at h
  rw [patched, h, compareElements_nil_cons, end_lt_letters]
  rfl

theorem patched_lt {ns key : List VersionElement} (m : ℕ) (hns : Numbers ns) (hkey : Numbers key)
    (h : compareElements ns key = .lt) : compareElements (patched ns m) key = .lt := by
  induction ns generalizing key with
  | nil =>
    cases key with
    | nil =>
      rw [compareElements] at h
      cases h
    | cons x key =>
      obtain ⟨n, hn⟩ := hkey x List.mem_cons_self
      rw [hn]
      change compareElements ((2, 0, "p") :: [(3, (m : ℤ), "")]) _ = _
      rw [compareElements_cons, letters_lt_number]
      rfl
  | cons x ns ih =>
    cases key with
    | nil =>
      have hle := end_le_numbers hns
      rw [compareElements_swap, h] at hle
      exact Bool.noConfusion hle
    | cons y key =>
      rw [compareElements_cons] at h
      change compareElements (x :: patched ns m) (y :: key) = _
      rw [compareElements_cons]
      cases hxy : compareElement x y with
      | lt => rfl
      | gt =>
        rw [hxy] at h
        cases h
      | eq =>
        rw [hxy] at h
        exact ih hns.of_cons hkey.of_cons h

def UpTo (m : ℕ) : List VersionElement → Prop
  | [] => True
  | x :: rest => x.1 < 3 ∨ x.2.1 < m ∨ x.2.1 = m ∧ Trailing rest

theorem isLE_number_iff {m : ℕ} {rest : List VersionElement} (h : Key rest) :
    (compareElements rest [(3, (m : ℤ), "")]).isLE = true ↔ UpTo m rest := by
  cases rest with
  | nil =>
    exact ⟨fun _ => trivial, fun _ => end_le_numbers fun x hx => ⟨m, List.mem_singleton.mp hx⟩⟩
  | cons x rest =>
    have hx : Element x := h x List.mem_cons_self
    rw [compareElements_cons]
    by_cases hkind : x.1 < 3
    · rw [compareElement_of_kind hkind hx.ne_end]
      exact ⟨fun _ => .inl hkind, fun _ => rfl⟩
    · cases hx with
      | inl hx => exact absurd (by rw [hx]; decide) hkind
      | inr hx =>
        cases hx with
        | inl hx =>
          have ⟨t, ht⟩ := hx
          exact absurd (by rw [ht]; exact (by decide : (2 : ℕ) < 3)) hkind
        | inr hx =>
          have ⟨n, hn⟩ := hx
          have hfree : ¬Tied (3, (n : ℤ), "") (3, (m : ℤ), "") := by
            intro htied
            cases htied with
            | inl htied => exact (number_element n).ne_end htied.1
            | inr htied => exact (number_element m).ne_end htied.2
          rw [hn, compareElement_of_not_tied hfree, tupleOrder_numbers]
          change _ ↔ (3 : ℕ) < 3 ∨ (n : ℤ) < m ∨ (n : ℤ) = m ∧ Trailing rest
          cases hcmp : compare (n : ℤ) m with
          | lt =>
            exact ⟨fun _ => .inr (.inl (compare_lt_iff_lt.mp hcmp)), fun _ => rfl⟩
          | eq =>
            have htail : Key rest := h.tail
            rw [Ordering.eq_then, isLE_nil_iff htail]
            have heq := compare_eq_iff_eq.mp hcmp
            refine ⟨fun htail => .inr (.inr ⟨heq, htail⟩), fun hor => ?_⟩
            cases hor with
            | inl hor => omega
            | inr hor =>
              cases hor with
              | inl hor => omega
              | inr hor => exact hor.2
          | gt =>
            have hgt := compare_gt_iff_gt.mp hcmp
            refine ⟨fun hle => Bool.noConfusion hle, fun hor => ?_⟩
            omega

def Beside (y z : List VersionElement) : Prop :=
  ∃ ns m t rest, z = patched ns m ∧ y = ns ++ (2, 0, t) :: rest ∧ (t < "p" ∨ t = "p" ∧ UpTo m rest)

theorem letters_compare (s t : String) : compareElement (2, 0, s) (2, 0, t) = compare s t := by
  rw [compareElement_of_not_tied, tupleOrder_letters]
  intro htied
  cases htied with
  | inl htied => exact (letters_element s).ne_end htied.1
  | inr htied => exact (letters_element t).ne_end htied.2

theorem beside_iff {ns y : List VersionElement} {m : ℕ} (hns : Numbers ns) (hy : Key y) :
    Beside y (patched ns m) ↔
      compareElements ns y = .lt ∧ (compareElements y (patched ns m)).isLE = true := by
  constructor
  · rintro ⟨ns', m', t, rest, hz, heq, hor⟩
    have hsame := List.append_inj' hz rfl
    have hm : m = m' := by
      have := hsame.2
      simp only [List.cons.injEq, Prod.mk.injEq, Nat.cast_inj, and_true, true_and] at this
      exact this
    rw [← hsame.1] at heq
    rw [← hm] at hor
    have hrest : Key rest := by
      intro x hx
      apply hy
      rw [heq]
      exact List.mem_append_right _ (List.mem_cons_of_mem _ hx)
    have hlow := compareElements_append ns [] ((2, 0, t) :: rest)
    rw [List.append_nil] at hlow
    constructor
    · rw [heq, hlow, compareElements_nil_cons, end_lt_letters]
      rfl
    · rw [heq, patched, compareElements_append, compareElements_cons, letters_compare]
      cases hor with
      | inl hlt => rw [compare_lt_iff_lt.mpr hlt]; rfl
      | inr hup =>
        rw [hup.1, compare_eq_iff_eq.mpr rfl, Ordering.eq_then]
        exact (isLE_number_iff hrest).mpr hup.2
  · rintro ⟨hlow, hhigh⟩
    suffices hsuff : ∃ t rest, y = ns ++ (2, 0, t) :: rest ∧ (t < "p" ∨ t = "p" ∧ UpTo m rest) by
      obtain ⟨t, rest, heq, hor⟩ := hsuff
      exact ⟨ns, m, t, rest, rfl, heq, hor⟩
    induction ns generalizing y with
    | nil =>
      cases y with
      | nil =>
        rw [compareElements] at hlow
        cases hlow
      | cons x y =>
        have hx : Element x := hy x List.mem_cons_self
        rw [compareElements_nil_cons] at hlow
        change (compareElements (x :: y) ((2, 0, "p") :: [(3, (m : ℤ), "")])).isLE = true at hhigh
        rw [compareElements_cons] at hhigh
        cases hx with
        | inl hx =>
          have hpre : compareElement x endElement = .lt :=
            compareElement_of_kind (by rw [hx]; decide) (hy x List.mem_cons_self).ne_end
          rw [compareElement_swap, hpre] at hlow
          cases hlow
        | inr hx =>
          cases hx with
          | inr hx =>
            obtain ⟨n, hn⟩ := hx
            rw [hn, compareElement_swap, letters_lt_number] at hhigh
            exact Bool.noConfusion hhigh
          | inl hx =>
            obtain ⟨t, ht⟩ := hx
            rw [ht, letters_compare] at hhigh
            refine ⟨t, y, by rw [ht]; rfl, ?_⟩
            cases hcmp : compare t "p" with
            | lt => exact .inl (compare_lt_iff_lt.mp hcmp)
            | eq =>
              rw [hcmp, Ordering.eq_then] at hhigh
              exact .inr ⟨compare_eq_iff_eq.mp hcmp, (isLE_number_iff hy.tail).mp hhigh⟩
            | gt =>
              rw [hcmp] at hhigh
              exact Bool.noConfusion hhigh
    | cons n ns ih =>
      cases y with
      | nil =>
        have hle := end_le_numbers hns
        rw [compareElements_swap, hlow] at hle
        exact Bool.noConfusion hle
      | cons x y =>
        change (compareElements (x :: y) (n :: patched ns m)).isLE = true at hhigh
        rw [compareElements_cons] at hlow hhigh
        cases hcmp : compareElement n x with
        | gt =>
          rw [hcmp] at hlow
          cases hlow
        | lt =>
          rw [compareElement_swap, hcmp] at hhigh
          exact Bool.noConfusion hhigh
        | eq =>
          have hsame := eq_of_tied_elements (hns.key n List.mem_cons_self)
            (hy x List.mem_cons_self) hcmp
          rw [hcmp] at hlow
          rw [compareElement_swap, hcmp] at hhigh
          obtain ⟨t, rest, heq, hor⟩ := ih hns.of_cons hy.tail hlow hhigh
          have heq' : y = ns ++ (2, 0, t) :: rest := heq
          exact ⟨t, rest, by rw [hsame, heq']; rfl, hor⟩

end Patches

end Shapoclyack.VersionElements
