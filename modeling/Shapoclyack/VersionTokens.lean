import Shapoclyack.VersionOrder

set_option autoImplicit false

namespace Shapoclyack.VersionTokens

open VersionCompare VersionOrder Library

section Digits

def digitsValue : List Char → ℕ
  | [] => 0
  | c :: cs => (c.toNat - 48) * 10 ^ cs.length + digitsValue cs

theorem digit_bounds {c : Char} (h : c.isDigit = true) : 48 ≤ c.toNat ∧ c.toNat ≤ 57 := by
  simp only [Char.isDigit, Bool.and_eq_true, decide_eq_true_eq] at h
  exact ⟨h.1, h.2⟩

theorem digitsValue_lt {ds : List Char} (h : ∀ c ∈ ds, c.isDigit = true) :
    digitsValue ds < 10 ^ ds.length := by
  induction ds with
  | nil => decide
  | cons d ds ih =>
    have hd := digit_bounds (h d List.mem_cons_self)
    have hds := ih fun c hc => h c (List.mem_cons_of_mem _ hc)
    have hplace : (d.toNat - 48) * 10 ^ ds.length ≤ 9 * 10 ^ ds.length :=
      Nat.mul_le_mul_right _ (by omega)
    rw [digitsValue, List.length_cons, pow_succ]
    omega

theorem digitsValue_skipZeros (ds : List Char) : digitsValue (skipZeros ds) = digitsValue ds := by
  induction ds with
  | nil => rfl
  | cons d ds ih =>
    by_cases hd : d = '0'
    · subst hd
      simpa [skipZeros, digitsValue] using ih
    · simp [skipZeros, hd]

theorem le_digitsValue {d : Char} {ds : List Char} (hd : d.isDigit = true) (hne : d ≠ '0') :
    10 ^ ds.length ≤ digitsValue (d :: ds) := by
  have hbounds := digit_bounds hd
  have hpos : 1 ≤ d.toNat - 48 := by
    by_contra hzero
    have hcode : d.toNat = 48 := by omega
    apply hne
    rw [← Char.ofNat_toNat d, hcode]
  have hplace : 1 * 10 ^ ds.length ≤ (d.toNat - 48) * 10 ^ ds.length :=
    Nat.mul_le_mul_right _ hpos
  rw [digitsValue]
  omega

theorem skipZeros_head {ds : List Char} {d : Char} {rest : List Char}
    (h : skipZeros ds = d :: rest) : d ≠ '0' := by
  have hhead := List.head_dropWhile_not (fun c => c == '0') (l := ds)
    (w := by change skipZeros ds ≠ []; rw [h]; simp)
  intro heq
  have hd : (skipZeros ds).head? = some d := by rw [h]; rfl
  rw [skipZeros, List.head?_eq_some_head (by change skipZeros ds ≠ []; rw [h]; simp)] at hd
  rw [Option.some.inj hd, heq] at hhead
  exact absurd hhead (by decide)

theorem digitsValue_lt_of_length {ds es : List Char} (hds : ∀ c ∈ ds, c.isDigit = true)
    (hes : ∀ c ∈ es, c.isDigit = true)
    (h : (skipZeros ds).length < (skipZeros es).length) : digitsValue ds < digitsValue es := by
  rw [← digitsValue_skipZeros ds, ← digitsValue_skipZeros es]
  have hskipped : ∀ c ∈ skipZeros ds, c.isDigit = true :=
    fun c hc => hds c ((List.dropWhile_sublist _).subset hc)
  cases hrest : skipZeros es with
  | nil =>
    rw [hrest] at h
    exact absurd h (Nat.not_lt_zero _)
  | cons e rest =>
    have he : e.isDigit = true :=
      hes e ((List.dropWhile_sublist _).subset (by change e ∈ skipZeros es; rw [hrest]; simp))
    rw [hrest, List.length_cons] at h
    calc digitsValue (skipZeros ds) < 10 ^ (skipZeros ds).length := digitsValue_lt hskipped
      _ ≤ 10 ^ rest.length := Nat.pow_le_pow_right (by decide) (by omega)
      _ ≤ digitsValue (e :: rest) := le_digitsValue he (skipZeros_head hrest)

theorem digitOrder_eq {ds es : List Char} (hlength : ds.length = es.length)
    (hds : ∀ c ∈ ds, c.isDigit = true) (hes : ∀ c ∈ es, c.isDigit = true) :
    digitOrder ds es = compare (digitsValue ds) (digitsValue es) := by
  induction ds generalizing es with
  | nil =>
    have hnil : es = [] := List.eq_nil_of_length_eq_zero hlength.symm
    rw [hnil]
    rfl
  | cons d ds ih =>
    cases es with
    | nil => simp at hlength
    | cons e es =>
      have hlength' : ds.length = es.length := by simpa using hlength
      have hd := digit_bounds (hds d List.mem_cons_self)
      have he := digit_bounds (hes e List.mem_cons_self)
      have hdv := digitsValue_lt fun c hc => hds c (List.mem_cons_of_mem _ hc)
      have hev := digitsValue_lt fun c hc => hes c (List.mem_cons_of_mem _ hc)
      have hrest := ih hlength' (fun c hc => hds c (List.mem_cons_of_mem _ hc))
        fun c hc => hes c (List.mem_cons_of_mem _ hc)
      have hstep : digitOrder (d :: ds) (e :: es) =
          (compare (d.toNat : ℤ) (e.toNat : ℤ)).then (digitOrder ds es) := by
        simp only [digitOrder, List.compareLex_cons_cons]
        rfl
      rw [hstep, hrest, digitsValue, digitsValue, hlength']
      rw [hlength'] at hdv
      cases lt_trichotomy d.toNat e.toNat with
      | inl hlt =>
        have hplace : (d.toNat - 48 + 1) * 10 ^ es.length ≤ (e.toNat - 48) * 10 ^ es.length :=
          Nat.mul_le_mul_right _ (by omega)
        rw [Nat.add_mul, Nat.one_mul] at hplace
        have hfirst : compare (d.toNat : ℤ) (e.toNat : ℤ) = .lt := by
          rw [compare_lt_iff_lt]
          exact_mod_cast hlt
        rw [hfirst]
        symm
        change compare _ _ = Ordering.lt
        rw [Nat.compare_eq_lt]
        omega
      | inr hge =>
        cases hge with
        | inl heq =>
          rw [heq]
          have hfirst : compare (e.toNat : ℤ) (e.toNat : ℤ) = .eq := Std.ReflCmp.compare_self
          rw [hfirst]
          change compare (digitsValue ds) (digitsValue es) = _
          simp only [compare, compareOfLessAndEq, Nat.add_lt_add_iff_left, Nat.add_left_cancel_iff]
        | inr hgt =>
          have hplace : (e.toNat - 48 + 1) * 10 ^ es.length ≤ (d.toNat - 48) * 10 ^ es.length :=
            Nat.mul_le_mul_right _ (by omega)
          rw [Nat.add_mul, Nat.one_mul] at hplace
          have hfirst : compare (d.toNat : ℤ) (e.toNat : ℤ) = .gt := by
            rw [compare_gt_iff_gt]
            exact_mod_cast hgt
          rw [hfirst]
          symm
          change compare _ _ = Ordering.gt
          rw [Nat.compare_eq_gt]
          omega

theorem number_order {ds es : List Char} (hds : ∀ c ∈ ds, c.isDigit = true)
    (hes : ∀ c ∈ es, c.isDigit = true) :
    (compare (skipZeros ds).length (skipZeros es).length).then
        (digitOrder (skipZeros ds) (skipZeros es)) =
      compare (digitsValue ds) (digitsValue es) := by
  cases lt_trichotomy (skipZeros ds).length (skipZeros es).length with
  | inl hlt =>
    rw [Nat.compare_eq_lt.mpr hlt, Nat.compare_eq_lt.mpr (digitsValue_lt_of_length hds hes hlt)]
    rfl
  | inr hge =>
    cases hge with
    | inl heq =>
      rw [Nat.compare_eq_eq.mpr heq]
      change digitOrder _ _ = _
      rw [digitOrder_eq heq (fun c hc => hds c ((List.dropWhile_sublist _).subset hc))
        fun c hc => hes c ((List.dropWhile_sublist _).subset hc), digitsValue_skipZeros,
        digitsValue_skipZeros]
    | inr hgt =>
      rw [Nat.compare_eq_gt.mpr hgt, Nat.compare_eq_gt.mpr (digitsValue_lt_of_length hes hds hgt)]
      rfl

end Digits

section Dpkg

/-- A stretch of non-digits with the number after it. -/
structure Part where
  word : List Char
  number : ℕ
deriving DecidableEq

def dpkgParts : List Char → List Part
  | [] => []
  | c :: cs =>
    let rest := (c :: cs).dropWhile fun d => !d.isDigit
    ⟨(c :: cs).takeWhile fun d => !d.isDigit, digitsValue (rest.takeWhile Char.isDigit)⟩ ::
      dpkgParts (rest.dropWhile Char.isDigit)
termination_by cs => cs.length
decreasing_by
  simp only [List.length_cons]
  by_cases hc : c.isDigit = true
  · have hle := (List.dropWhile_sublist Char.isDigit (l := cs)).length_le
    simp only [List.dropWhile_cons, hc, Bool.not_true]
    simp only [Bool.false_eq_true, if_false, List.dropWhile_cons, hc, if_true]
    omega
  · have hle := (List.dropWhile_sublist (fun d : Char => !d.isDigit) (l := cs)).length_le
    have hle' := (List.dropWhile_sublist Char.isDigit
      (l := cs.dropWhile fun d => !d.isDigit)).length_le
    simp only [List.dropWhile_cons, hc, Bool.not_false, if_true]
    omega

def compareWords (w v : List Char) : Ordering := comparePadded 0 (w.map dpkgOrder) (v.map dpkgOrder)

instance : Ord Part where
  compare p q := (compareWords p.word q.word).then (compare p.number q.number)

instance : Std.ReflOrd Part where
  compare_self {p} := by
    have hword : compareWords p.word p.word = .eq := by
      unfold compareWords
      exact Std.ReflCmp.compare_self
    change (compareWords p.word p.word).then (compare p.number p.number) = .eq
    rw [hword]
    exact Nat.compare_eq_eq.mpr rfl

/-- Two versions part by part, where a part that is missing is an empty stretch and a zero. -/
def compareParts (xs ys : List Part) : Ordering := comparePadded ⟨[], 0⟩ xs ys

def afterPart (a : List Char) : List Char :=
  (a.dropWhile fun d => !d.isDigit).dropWhile Char.isDigit

theorem dpkgParts_head_tail (a : List Char) :
    (dpkgParts a).headD ⟨[], 0⟩ = ⟨a.takeWhile fun d => !d.isDigit,
        digitsValue ((a.dropWhile fun d => !d.isDigit).takeWhile Char.isDigit)⟩ ∧
      (dpkgParts a).tail = dpkgParts (afterPart a) := by
  cases a with
  | nil => simp [dpkgParts, afterPart, digitsValue]
  | cons c cs =>
    rw [dpkgParts]
    exact ⟨rfl, rfl⟩

theorem dpkgOrder_ne {c : Char} (h : (!c.isDigit) = true) : dpkgOrder c ≠ 0 :=
  dpkgOrder_ne_zero (by simpa using h)

theorem comparePadded_words {w v : List Char} (hw : ∀ c ∈ w, (!c.isDigit) = true)
    (hv : ∀ c ∈ v, (!c.isDigit) = true) (ks ls : List ℤ) :
    comparePadded 0 (w.map dpkgOrder ++ 0 :: ks) (v.map dpkgOrder ++ 0 :: ls) =
      (compareWords w v).then (comparePadded 0 ks ls) := by
  have hfirst : ∀ n : ℤ, n ≠ 0 →
      ∀ o o' : Ordering, (compare n 0).then o = (compare n 0).then o' := by
    intro n hn o o'
    have hne : compare n 0 ≠ .eq := by simpa using hn
    rw [then_of_ne hne, then_of_ne hne]
  have hsecond : ∀ n : ℤ, n ≠ 0 → ∀ o o' : Ordering,
      (compare 0 n).then o = (compare 0 n).then o' := by
    intro n hn o o'
    have hne : compare 0 n ≠ .eq := by simpa using fun h => hn h.symm
    rw [then_of_ne hne, then_of_ne hne]
  unfold compareWords
  induction w generalizing v with
  | nil =>
    cases v with
    | nil => simp [comparePadded]
    | cons d v =>
      have hd := dpkgOrder_ne (hv d List.mem_cons_self)
      simp only [List.map_nil, List.nil_append, List.map_cons, List.cons_append,
        comparePadded_cons_cons]
      rw [comparePadded_head_tail [] (dpkgOrder d :: _), List.headD_nil, List.headD_cons,
        Ordering.then_assoc]
      exact hsecond _ hd _ _
  | cons c w ih =>
    have hc := dpkgOrder_ne (hw c List.mem_cons_self)
    cases v with
    | nil =>
      simp only [List.map_nil, List.nil_append, List.map_cons, List.cons_append,
        comparePadded_cons_cons]
      rw [comparePadded_head_tail (dpkgOrder c :: _) [], List.headD_nil, List.headD_cons,
        Ordering.then_assoc]
      exact hfirst _ hc _ _
    | cons d v =>
      simp only [List.map_cons, List.cons_append, comparePadded_cons_cons, Ordering.then_assoc]
      rw [ih (fun e he => hw e (List.mem_cons_of_mem _ he)) fun e he =>
        hv e (List.mem_cons_of_mem _ he)]

theorem versionKey_words (a : List Char) :
    versionKey a = (a.takeWhile fun d => !d.isDigit).map dpkgOrder ++
      versionKey (a.dropWhile fun d => !d.isDigit) := by
  induction a with
  | nil => rfl
  | cons c cs ih =>
    by_cases hc : c.isDigit = true
    · simp [hc]
    · have hc' : c.isDigit = false := by simpa using hc
      rw [versionKey_nondigit hc', ih]
      simp [hc']

theorem comparePadded_append_congr {us us' : List ℤ}
    (h : ∀ ys, comparePadded 0 us ys = comparePadded 0 us' ys) (xs ys : List ℤ) :
    comparePadded 0 (xs ++ us) ys = comparePadded 0 (xs ++ us') ys := by
  induction xs generalizing ys with
  | nil => exact h ys
  | cons x xs ih =>
    rw [comparePadded_head_tail (x :: xs ++ us), comparePadded_head_tail (x :: xs ++ us')]
    simp only [List.cons_append, List.headD_cons, List.tail_cons, ih]

theorem startsNonDigit_dropWhile (a : List Char) :
    startsNonDigit (a.dropWhile fun d => !d.isDigit) = false := by
  cases h : a.dropWhile fun d => !d.isDigit with
  | nil => rfl
  | cons c cs =>
    have hc := List.head_dropWhile_not (fun d : Char => !d.isDigit) (l := a) (w := by rw [h]; simp)
    simpa [startsNonDigit, h] using hc

theorem comparePadded_versionKey (a : List Char) (ys : List ℤ) :
    comparePadded 0 (versionKey a) ys =
      comparePadded 0 ((a.takeWhile fun d => !d.isDigit).map dpkgOrder ++
        numberedKey (a.dropWhile fun d => !d.isDigit)) ys := by
  rw [versionKey_words]
  exact comparePadded_append_congr
    (fun ys => comparePadded_numbered_left (startsNonDigit_dropWhile a) ys) _ ys

theorem length_afterPart_lt {a : List Char} (h : a ≠ []) : (afterPart a).length < a.length := by
  cases a with
  | nil => exact absurd rfl h
  | cons c cs =>
    by_cases hc : c.isDigit = true
    · have hstart : (c :: cs).dropWhile (fun d => !d.isDigit) = c :: cs := by simp [hc]
      rw [afterPart, hstart]
      exact length_dropWhile_lt (by simp [startsNonDigit, hc]) (by simp)
    · have hle := (List.dropWhile_sublist (fun d : Char => !d.isDigit) (l := cs)).length_le
      have hle' := (List.dropWhile_sublist Char.isDigit
        (l := cs.dropWhile fun d => !d.isDigit)).length_le
      have hstart : (c :: cs).dropWhile (fun d => !d.isDigit) =
          cs.dropWhile fun d => !d.isDigit := by simp [hc]
      rw [afterPart, hstart, List.length_cons]
      omega

theorem comparePadded_parts {n : ℕ} {a b : List Char} (hn : a.length + b.length ≤ n) :
    comparePadded 0 (versionKey a) (versionKey b) = compareParts (dpkgParts a) (dpkgParts b) := by
  induction n using Nat.strong_induction_on generalizing a b with
  | _ n ih =>
    by_cases hempty : a = [] ∧ b = []
    · rw [hempty.1, hempty.2]
      simp [versionKey, dpkgParts, comparePadded, compareParts]
    · have hshorter : (afterPart a).length + (afterPart b).length < n := by
        have hle : ∀ c : List Char, (afterPart c).length ≤ c.length := by
          intro c
          by_cases hc : c = []
          · rw [hc]
            exact le_rfl
          · exact (length_afterPart_lt hc).le
        have hla := hle a
        have hlb := hle b
        by_cases ha : a = []
        · have hlt := length_afterPart_lt fun hb => hempty ⟨ha, hb⟩
          omega
        · have hlt := length_afterPart_lt ha
          omega
      have hswap : ∀ xs ys : List ℤ, comparePadded 0 xs ys = (comparePadded 0 ys xs).swap :=
        fun _ _ => Std.OrientedCmp.eq_swap
      have hdigits : ∀ xs : List Char, ∀ c ∈ xs.takeWhile Char.isDigit, c.isDigit = true :=
        fun xs c hc => List.mem_takeWhile_imp hc
      have hwords : ∀ xs : List Char, ∀ c ∈ xs.takeWhile (fun d => !d.isDigit),
          (!c.isDigit) = true :=
        fun xs c hc => List.mem_takeWhile_imp (p := fun d : Char => !d.isDigit) hc
      rw [comparePadded_versionKey, hswap, comparePadded_versionKey, ← hswap]
      unfold numberedKey
      rw [comparePadded_words (hwords a) (hwords b), comparePadded_number, ← Ordering.then_assoc
        (compare (skipZeros _).length _), number_order (hdigits _) (hdigits _)]
      change Ordering.then _ (Ordering.then _
        (comparePadded 0 (versionKey (afterPart a)) (versionKey (afterPart b)))) = _
      rw [ih _ hshorter le_rfl, compareParts, compareParts,
        comparePadded_head_tail (dpkgParts a) (dpkgParts b), (dpkgParts_head_tail a).1,
        (dpkgParts_head_tail b).1, (dpkgParts_head_tail a).2, (dpkgParts_head_tail b).2]
      exact (Ordering.then_assoc _ _ _).symm

/-- Where a character stands with respect to the end of a stretch: `~` before it, then letters,
then every other one. -/
def debianClass (c : Char) : ℤ := if c = '~' then -1 else if c.isAlpha then 1 else 2

theorem alpha_bounds {c : Char} (h : c.isAlpha = true) : 65 ≤ c.toNat ∧ c.toNat ≤ 122 := by
  have hcase : c.isUpper = true ∨ c.isLower = true := Bool.or_eq_true_iff.mp h
  have hbounds : (65 ≤ c.toNat ∧ c.toNat ≤ 90) ∨ (97 ≤ c.toNat ∧ c.toNat ≤ 122) := by
    refine hcase.imp (fun hupper => ?_) (fun hlower => ?_)
    · exact of_decide_eq_true (p := c.val ≥ 65 ∧ c.val ≤ 90) hupper
    · have ⟨hlow, hhigh⟩ := Bool.and_eq_true_iff.mp hlower
      exact ⟨of_decide_eq_true (p := c.val ≥ 97) hlow, of_decide_eq_true (p := c.val ≤ 122) hhigh⟩
  omega

theorem dpkgOrder_cases {c : Char} (h : c.isDigit = false) :
    (dpkgOrder c = -1 ∧ debianClass c = -1 ∧ c.toNat = '~'.toNat) ∨
      (dpkgOrder c = c.toNat ∧ debianClass c = 1 ∧ 65 ≤ c.toNat ∧ c.toNat ≤ 122) ∨
      (dpkgOrder c = c.toNat + 256 ∧ debianClass c = 2) := by
  unfold dpkgOrder debianClass
  rw [if_neg (by simp [h])]
  by_cases htilde : c = '~'
  · rw [htilde]
    decide
  · by_cases hletter : c.isAlpha = true
    · have hbounds := alpha_bounds hletter
      simp [hletter, htilde, hbounds]
    · simp [hletter, htilde]

/-- dpkg's order of two characters is Debian's: by class, and by code within one. -/
theorem dpkgOrder_debian {c d : Char} (hc : c.isDigit = false) (hd : d.isDigit = false) :
    compare (dpkgOrder c) (dpkgOrder d) =
        (compare (debianClass c) (debianClass d)).then (compare c.toNat d.toNat) ∧
      compare (dpkgOrder c) 0 = compare (debianClass c) 0 := by
  cases dpkgOrder_cases hc with
  | inl h =>
    cases dpkgOrder_cases hd with
    | inl k => rw [h.1, h.2.1, h.2.2, k.1, k.2.1, k.2.2]; decide
    | inr k =>
      have hlt : compare (-1 : ℤ) (dpkgOrder d) = .lt := by
        rw [compare_lt_iff_lt]
        cases k with
        | inl k => omega
        | inr k => omega
      have hclass : compare (-1 : ℤ) (debianClass d) = .lt := by
        rw [compare_lt_iff_lt]
        cases k with
        | inl k => omega
        | inr k => omega
      rw [h.1, h.2.1, hlt, hclass]
      exact ⟨rfl, rfl⟩
  | inr h =>
    have hend : compare (dpkgOrder c) 0 = .gt ∧ compare (debianClass c) 0 = .gt := by
      rw [compare_gt_iff_gt, compare_gt_iff_gt]
      cases h with
      | inl h => exact ⟨by omega, by omega⟩
      | inr h => exact ⟨by omega, by omega⟩
    refine ⟨?_, hend.1.trans hend.2.symm⟩
    have hcode : ∀ n : ℤ, compare ((c.toNat : ℤ) + n) ((d.toNat : ℤ) + n) =
        compare c.toNat d.toNat := by
      intro n
      simp only [compare, compareOfLessAndEq, add_lt_add_iff_right, add_left_inj, Nat.cast_lt,
        Nat.cast_inj]
    cases h with
    | inl h =>
      cases dpkgOrder_cases hd with
      | inl k =>
        have hgt : compare (dpkgOrder c) (dpkgOrder d) = .gt := by
          rw [compare_gt_iff_gt]
          omega
        rw [hgt, h.2.1, k.2.1]
        rfl
      | inr k =>
        cases k with
        | inl k =>
          have hzero := hcode 0
          rw [add_zero, add_zero] at hzero
          rw [h.1, k.1, h.2.1, k.2.1, hzero]
          rfl
        | inr k =>
          have hlt : compare (dpkgOrder c) (dpkgOrder d) = .lt := by
            rw [compare_lt_iff_lt]
            omega
          rw [hlt, h.2.1, k.2]
          rfl
    | inr h =>
      cases dpkgOrder_cases hd with
      | inl k =>
        have hgt : compare (dpkgOrder c) (dpkgOrder d) = .gt := by
          rw [compare_gt_iff_gt]
          omega
        rw [hgt, h.2, k.2.1]
        rfl
      | inr k =>
        cases k with
        | inl k =>
          have hgt : compare (dpkgOrder c) (dpkgOrder d) = .gt := by
            rw [compare_gt_iff_gt]
            omega
          rw [hgt, h.2, k.2.1]
          rfl
        | inr k =>
          rw [h.1, k.1, h.2, k.2, hcode]
          rfl

theorem compareDpkgVersion_ok {lib : VersionText} {left right : String} {o : Ordering} :
    compareDpkgVersion lib left right = .ok o ↔ ∃ a b, parseEvr lib left .deb = .ok a ∧
      parseEvr lib right .deb = .ok b ∧ compareDpkgEvr a b = o := by
  unfold compareDpkgVersion
  cases parseEvr lib left .deb with
  | error e => simp
  | ok a =>
    cases parseEvr lib right .deb with
    | error e => simp
    | ok b => simp

/-- dpkg's comparison is the declared one, part by part, and a total preorder on the strings that
can be read. -/
theorem dpkg_order (lib : VersionText) :
    (∀ left right, dpkgVerrevcmp left right =
      compareParts (dpkgParts left.toList) (dpkgParts right.toList)) ∧
    (∀ c d : Char, c.isDigit = false → d.isDigit = false →
      compare (dpkgOrder c) (dpkgOrder d) =
          (compare (debianClass c) (debianClass d)).then (compare c.toNat d.toNat) ∧
        compare (dpkgOrder c) 0 = compare (debianClass c) 0) ∧
    (∀ left right, (∃ o, compareDpkgVersion lib left right = .ok o) ↔
      (∃ a, parseEvr lib left .deb = .ok a) ∧ ∃ b, parseEvr lib right .deb = .ok b) ∧
    (∀ left o, compareDpkgVersion lib left left = .ok o → o = .eq) ∧
    (∀ left right o, compareDpkgVersion lib left right = .ok o →
      compareDpkgVersion lib right left = .ok o.swap) ∧
    ∀ left middle right o o', compareDpkgVersion lib left middle = .ok o → o.isLE = true →
      compareDpkgVersion lib middle right = .ok o' → o'.isLE = true →
        ∃ o'', compareDpkgVersion lib left right = .ok o'' ∧ o''.isLE = true := by
  refine ⟨fun left right => ?_, fun c d hc hd => dpkgOrder_debian hc hd, fun left right => ?_,
    fun left o h => ?_, fun left right o h => ?_, fun left middle right o o' h hle h' hle' => ?_⟩
  · rw [dpkgVerrevcmp_eq]
    exact comparePadded_parts le_rfl
  · constructor
    · intro ⟨o, h⟩
      have ⟨a, b, ha, hb, _⟩ := compareDpkgVersion_ok.mp h
      exact ⟨⟨a, ha⟩, b, hb⟩
    · intro ⟨⟨a, ha⟩, b, hb⟩
      exact ⟨_, compareDpkgVersion_ok.mpr ⟨a, b, ha, hb, rfl⟩⟩
  · have ⟨a, b, ha, hb, ho⟩ := compareDpkgVersion_ok.mp h
    obtain rfl := Except.ok.inj (ha.symm.trans hb)
    rw [← ho]
    exact Std.ReflCmp.compare_self
  · have ⟨a, b, ha, hb, ho⟩ := compareDpkgVersion_ok.mp h
    refine compareDpkgVersion_ok.mpr ⟨b, a, hb, ha, ?_⟩
    rw [← ho]
    exact Std.OrientedCmp.eq_swap
  · have ⟨a, b, ha, hb, ho⟩ := compareDpkgVersion_ok.mp h
    have ⟨b', c, hb', hc, ho'⟩ := compareDpkgVersion_ok.mp h'
    obtain rfl := Except.ok.inj (hb.symm.trans hb')
    rw [← ho] at hle
    rw [← ho'] at hle'
    exact ⟨_, compareDpkgVersion_ok.mpr ⟨a, c, ha, hc, rfl⟩, Std.TransCmp.isLE_trans hle hle'⟩

example : dpkgParts "1.0~rc1-2".toList =
    [⟨[], 1⟩, ⟨['.'], 0⟩, ⟨['~', 'r', 'c'], 1⟩, ⟨['-'], 2⟩] := by decide +kernel

end Dpkg

section Rpm

/-- What an rpm version is made of, its end among them. -/
inductive Token where
  | tilde
  | finish
  | caret
  | word (text : List Char)
  | number (value : ℕ)
deriving DecidableEq

def Token.rank : Token → ℕ
  | .tilde => 0
  | .finish => 1
  | .caret => 2
  | .word _ => 3
  | .number _ => 4

def Token.text : Token → List Char
  | .word text => text
  | _ => []

def Token.value : Token → ℕ
  | .number value => value
  | _ => 0

def rpmTokens : List Char → List Token
  | [] => []
  | c :: cs =>
    if c.isDigit then
      .number (digitsValue ((c :: cs).takeWhile Char.isDigit)) ::
        rpmTokens (cs.dropWhile Char.isDigit)
    else if c.isAlpha then
      .word ((c :: cs).takeWhile Char.isAlpha) :: rpmTokens (cs.dropWhile Char.isAlpha)
    else if c = '~' then .tilde :: rpmTokens cs
    else if c = '^' then .caret :: rpmTokens cs
    else rpmTokens cs
termination_by cs => cs.length
decreasing_by
  · have hle := (List.dropWhile_sublist Char.isDigit (l := cs)).length_le
    simp only [List.length_cons]
    omega
  · have hle := (List.dropWhile_sublist Char.isAlpha (l := cs)).length_le
    simp only [List.length_cons]
    omega
  · simp
  · simp
  · simp

theorem rpmTokens_append {d : Char} (hdigit : d.isDigit = false) (halpha : d.isAlpha = false)
    (cs : List Char) : rpmTokens (cs ++ [d]) = rpmTokens cs ++ rpmTokens [d] := by
  fun_induction rpmTokens cs with
  | case1 => rfl
  | case2 c cs hc ih =>
    have ⟨htake, hdrop⟩ := span_append hdigit cs []
    rw [List.cons_append, rpmTokens, if_pos hc, List.takeWhile_cons, if_pos hc, htake, hdrop, ih,
      List.takeWhile_cons, if_pos hc, List.cons_append]
  | case3 c cs hc hword ih =>
    have ⟨htake, hdrop⟩ := span_append halpha cs []
    rw [List.cons_append, rpmTokens, if_neg hc, if_pos hword, List.takeWhile_cons, if_pos hword,
      htake, hdrop, ih, List.takeWhile_cons, if_pos hword, List.cons_append]
  | case4 cs hc hword ih =>
    rw [List.cons_append, rpmTokens, if_neg hc, if_neg hword, if_pos rfl, ih, List.cons_append]
  | case5 cs hc hword htilde ih =>
    rw [List.cons_append, rpmTokens, if_neg hc, if_neg hword, if_neg htilde, if_pos rfl, ih,
      List.cons_append]
  | case6 c cs hc hword htilde hcaret ih =>
    rw [List.cons_append, rpmTokens, if_neg hc, if_neg hword, if_neg htilde, if_neg hcaret, ih]

def compareText (w v : List Char) : Ordering := List.compareLex (compareOn Char.toNat) w v

instance : Std.TransCmp compareText :=
  inferInstanceAs (Std.TransCmp (List.compareLex (compareOn Char.toNat)))

instance : Ord Token where
  compare := compareLex (compareOn Token.rank)
    (compareLex (fun t u => compareText t.text u.text) (compareOn Token.value))

instance : Std.TransOrd Token := by
  have htext : Std.TransCmp fun t u : Token => compareText t.text u.text :=
    transCmp_comap Token.text
  change Std.TransCmp (compareLex (compareOn Token.rank)
    (compareLex (fun t u => compareText t.text u.text) (compareOn Token.value)))
  infer_instance

def compareTokens (xs ys : List Token) : Ordering := comparePadded .finish xs ys

instance : Std.TransCmp compareTokens :=
  inferInstanceAs (Std.TransCmp (comparePadded Token.finish))

theorem compare_of_rank {t u : Token} (h : t.rank ≠ u.rank) :
    compare t u = compare t.rank u.rank := by
  have hne : compare t.rank u.rank ≠ .eq := by simpa using h
  change (compare t.rank u.rank).then _ = _
  exact then_of_ne hne

theorem compare_words (w v : List Char) :
    compare (Token.word w) (Token.word v) = compareText w v := by
  change Ordering.then .eq ((compareText w v).then .eq) = _
  cases compareText w v <;> rfl

theorem compare_numbers (n m : ℕ) : compare (Token.number n) (Token.number m) = compare n m := by
  change Ordering.then .eq (Ordering.then .eq (compare n m)) = _
  rfl

def isSeparator (c : Char) : Bool := !isAlnum c && c != '~' && c != '^'

theorem rpmTokens_separator {c : Char} (h : isSeparator c = true) (cs : List Char) :
    rpmTokens (c :: cs) = rpmTokens cs := by
  simp only [isSeparator, isAlnum, Bool.and_eq_true, Bool.not_eq_true', Bool.or_eq_false_iff,
    bne_iff_ne] at h
  rw [rpmTokens]
  simp [h.1.1.1, h.1.1.2, h.1.2, h.2]

theorem rpmTokens_skip (a : List Char) : rpmTokens (skipSeparators a) = rpmTokens a := by
  induction a with
  | nil => rfl
  | cons c cs ih =>
    by_cases hc : isSeparator c = true
    · have hskip : skipSeparators (c :: cs) = skipSeparators cs := List.dropWhile_cons_of_pos hc
      rw [hskip, ih, rpmTokens_separator hc]
    · have hskip : skipSeparators (c :: cs) = c :: cs := List.dropWhile_cons_of_neg hc
      rw [hskip]

theorem skipSeparators_head {a : List Char} {c : Char} {cs : List Char}
    (h : skipSeparators a = c :: cs) : isSeparator c = false := by
  have hne : skipSeparators a ≠ [] := by simp [h]
  have hhead := List.head_dropWhile_not isSeparator (l := a) (w := hne)
  have hc : (skipSeparators a).head hne = c := by simp [h]
  exact hc ▸ hhead

/-- The token that a string starts with, and what is left after it. -/
inductive Stands (c : Char) (cs : List Char) : Token → List Char → Prop where
  | tilde (is : c = '~') : Stands c cs .tilde cs
  | caret (is : c = '^') : Stands c cs .caret cs
  | number (digit : c.isDigit = true) :
      Stands c cs (.number (digitsValue ((c :: cs).takeWhile Char.isDigit)))
        ((c :: cs).dropWhile Char.isDigit)
  | word (letter : c.isAlpha = true) :
      Stands c cs (.word ((c :: cs).takeWhile Char.isAlpha)) ((c :: cs).dropWhile Char.isAlpha)

theorem rpmTokens_stands {c : Char} (h : isSeparator c = false) (cs : List Char) :
    ∃ t rest, Stands c cs t rest ∧ rpmTokens (c :: cs) = t :: rpmTokens rest := by
  by_cases htilde : c = '~'
  · refine ⟨_, _, .tilde htilde, ?_⟩
    rw [rpmTokens, htilde]
    simp
  · by_cases hcaret : c = '^'
    · refine ⟨_, _, .caret hcaret, ?_⟩
      rw [rpmTokens, hcaret]
      simp
    · by_cases hdigit : c.isDigit = true
      · refine ⟨_, _, .number hdigit, ?_⟩
        rw [rpmTokens, if_pos hdigit, List.dropWhile_cons, if_pos hdigit]
      · have hletter : c.isAlpha = true := by
          simpa [isSeparator, isAlnum, hdigit, htilde, hcaret] using h
        refine ⟨_, _, .word hletter, ?_⟩
        rw [rpmTokens, if_neg hdigit, if_pos hletter, List.dropWhile_cons, if_pos hletter]

theorem digit_not_alpha {c : Char} (h : c.isDigit = true) : c.isAlpha = false := by
  have hbounds := digit_bounds h
  by_contra halpha
  have hletter := alpha_bounds (by simpa using halpha : c.isAlpha = true)
  omega

theorem alpha_not_digit {c : Char} (h : c.isAlpha = true) : c.isDigit = false := by
  by_contra hdigit
  have hdigit' : c.isDigit = true := by simpa using hdigit
  rw [digit_not_alpha hdigit'] at h
  cases h

theorem alnum_ne {c : Char} (h : c.isDigit = true ∨ c.isAlpha = true) : c ≠ '~' ∧ c ≠ '^' := by
  constructor <;> (rintro rfl; revert h; decide)

theorem compareTokens_cons (t u : Token) (xs ys : List Token) :
    compareTokens (t :: xs) (u :: ys) = (compare t u).then (compareTokens xs ys) :=
  comparePadded_cons_cons t u xs ys

theorem compareTokens_of_rank {t u : Token} (h : t.rank ≠ u.rank) (xs ys : List Token) :
    compareTokens (t :: xs) (u :: ys) = compare t.rank u.rank := by
  have hne : compare t.rank u.rank ≠ .eq := by simpa using h
  rw [compareTokens_cons, compare_of_rank h, then_of_ne hne]

theorem compareTokens_nil_left {u : Token} (h : u.rank ≠ 1) (ys : List Token) :
    compareTokens [] (u :: ys) = compare 1 u.rank := by
  have hne : compare 1 u.rank ≠ .eq := by simpa using h.symm
  rw [compareTokens, comparePadded_head_tail, List.headD_nil, List.headD_cons,
    compare_of_rank (fun heq => h heq.symm)]
  exact then_of_ne hne

theorem compareText_eq_digitOrder (ds es : List Char) :
    List.compareLex (compareOn Char.toNat) ds es = digitOrder ds es := by
  have hcast : (compareOn fun c : Char => (c.toNat : ℤ)) = compareOn Char.toNat := by
    funext c d
    simp only [compareOn, compare, compareOfLessAndEq, Nat.cast_lt, Nat.cast_inj]
  rw [digitOrder, hcast]

theorem compareSegments_number {ds es : List Char} (hds : ∀ c ∈ ds, c.isDigit = true)
    (hes : ∀ c ∈ es, c.isDigit = true) :
    compareSegments true ds es =
      compare (Token.number (digitsValue ds)) (.number (digitsValue es)) := by
  rw [compare_numbers, ← number_order hds hes, ← compareText_eq_digitOrder]
  rfl

theorem compareTokens_same {t : Token} (xs ys : List Token) :
    compareTokens (t :: xs) (t :: ys) = compareTokens xs ys := by
  have hsame : compare t t = .eq := Std.ReflCmp.compare_self
  rw [compareTokens_cons, hsame]
  rfl

theorem length_dropWhile_cons_lt {p : Char → Bool} {c : Char} (h : p c = true) (cs : List Char) :
    ((c :: cs).dropWhile p).length < (c :: cs).length := by
  have hle := (List.dropWhile_sublist p (l := cs)).length_le
  rw [List.dropWhile_cons_of_pos h, List.length_cons]
  omega

theorem length_skipSeparators_le (a : List Char) : (skipSeparators a).length ≤ a.length :=
  (List.dropWhile_sublist _).length_le

section Rounds

variable {n : ℕ} {a b xs ys : List Char} {x y : Char}

theorem rpmLoop_left_ends (ha : skipSeparators a = []) (hb : skipSeparators b = y :: ys) :
    rpmLoop (n + 1) a b = if y = '~' then .gt else .lt := by
  rw [rpmLoop, ha, hb]

theorem rpmLoop_right_ends (ha : skipSeparators a = x :: xs) (hb : skipSeparators b = []) :
    rpmLoop (n + 1) a b = if x = '~' then .lt else .gt := by
  rw [rpmLoop, ha, hb]

theorem rpmLoop_tilde (ha : skipSeparators a = x :: xs) (hb : skipSeparators b = y :: ys)
    (h : x = '~' ∨ y = '~') :
    rpmLoop (n + 1) a b =
      if x ≠ '~' then .gt else if y ≠ '~' then .lt else rpmLoop n xs ys := by
  rw [rpmLoop, ha, hb]
  exact if_pos h

theorem rpmLoop_caret (ha : skipSeparators a = x :: xs) (hb : skipSeparators b = y :: ys)
    (hx : x ≠ '~') (hy : y ≠ '~') (h : x = '^' ∨ y = '^') :
    rpmLoop (n + 1) a b =
      if x ≠ '^' then .gt else if y ≠ '^' then .lt else rpmLoop n xs ys := by
  rw [rpmLoop, ha, hb]
  simp only [hx, hy, or_self, if_false]
  exact if_pos h

theorem rpmLoop_number (ha : skipSeparators a = x :: xs) (hb : skipSeparators b = y :: ys)
    (hx : x.isDigit = true) (hy : y ≠ '~' ∧ y ≠ '^') :
    rpmLoop (n + 1) a b =
      if ((y :: ys).takeWhile Char.isDigit).isEmpty then .gt
      else (compareSegments true ((x :: xs).takeWhile Char.isDigit)
          ((y :: ys).takeWhile Char.isDigit)).then
        (rpmLoop n ((x :: xs).dropWhile Char.isDigit) ((y :: ys).dropWhile Char.isDigit)) := by
  have hne := alnum_ne (.inl hx)
  rw [rpmLoop, ha, hb]
  simp only [hne.1, hne.2, hy.1, hy.2, or_self, if_false, hx, if_true]

theorem rpmLoop_word (ha : skipSeparators a = x :: xs) (hb : skipSeparators b = y :: ys)
    (hx : x.isAlpha = true) (hy : y ≠ '~' ∧ y ≠ '^') :
    rpmLoop (n + 1) a b =
      if ((y :: ys).takeWhile Char.isAlpha).isEmpty then .lt
      else (compareSegments false ((x :: xs).takeWhile Char.isAlpha)
          ((y :: ys).takeWhile Char.isAlpha)).then
        (rpmLoop n ((x :: xs).dropWhile Char.isAlpha) ((y :: ys).dropWhile Char.isAlpha)) := by
  have hne := alnum_ne (.inr hx)
  rw [rpmLoop, ha, hb]
  simp only [hne.1, hne.2, hy.1, hy.2, or_self, if_false, alpha_not_digit hx, Bool.false_eq_true]

theorem rpmLoop_left_ends_eq (ha : skipSeparators a = []) (hb : skipSeparators b = y :: ys) :
    rpmLoop (n + 1) a b = compareTokens (rpmTokens []) (rpmTokens (y :: ys)) := by
  obtain ⟨u, rest, hstands, htokens⟩ := rpmTokens_stands (skipSeparators_head hb) ys
  rw [htokens, rpmTokens, rpmLoop_left_ends ha hb]
  cases hstands with
  | tilde is =>
    rw [compareTokens_nil_left (by decide), if_pos is]
    rfl
  | caret is =>
    rw [compareTokens_nil_left (by decide), is]
    rfl
  | number digit =>
    rw [compareTokens_nil_left (by simp [Token.rank]), if_neg (alnum_ne (.inl digit)).1]
    rfl
  | word letter =>
    rw [compareTokens_nil_left (by simp [Token.rank]), if_neg (alnum_ne (.inr letter)).1]
    rfl

theorem rpmLoop_right_ends_eq (ha : skipSeparators a = x :: xs) (hb : skipSeparators b = []) :
    rpmLoop (n + 1) a b = compareTokens (rpmTokens (x :: xs)) (rpmTokens []) := by
  have hleft : rpmLoop (n + 1) b a = compareTokens (rpmTokens []) (rpmTokens (x :: xs)) :=
    rpmLoop_left_ends_eq hb ha
  rw [rpmLoop_left_ends hb ha] at hleft
  rw [rpmLoop_right_ends ha hb, @Std.OrientedCmp.eq_swap _ compareTokens _ _ _, ← hleft]
  split_ifs
  · rfl
  · rfl

/-- The rounds that are left compare the tokens of what is left of both strings. -/
def RestCompared (n : ℕ) (xs ys : List Char) : Prop :=
  ∀ c d : List Char, c.length ≤ xs.length → d.length ≤ ys.length →
    rpmLoop n c d = compareTokens (rpmTokens c) (rpmTokens d)

theorem RestCompared.dropWhile (h : RestCompared n xs ys) {p : Char → Bool} (hx : p x = true)
    (hy : p y = true) :
    rpmLoop n ((x :: xs).dropWhile p) ((y :: ys).dropWhile p) =
      compareTokens (rpmTokens ((x :: xs).dropWhile p)) (rpmTokens ((y :: ys).dropWhile p)) :=
  h _ _ (Nat.le_of_lt_succ (length_dropWhile_cons_lt hx xs))
    (Nat.le_of_lt_succ (length_dropWhile_cons_lt hy ys))

/-! One round, by the token the left string starts with; `u` is the one the right string does. -/

variable {u : Token} {rest : List Char} (ha : skipSeparators a = x :: xs)
  (hb : skipSeparators b = y :: ys) (hrest : RestCompared n xs ys) (hstands : Stands y ys u rest)

include ha hb hrest hstands

theorem rpmLoop_tilde_eq (is : x = '~') :
    rpmLoop (n + 1) a b = compareTokens (.tilde :: rpmTokens xs) (u :: rpmTokens rest) := by
  rw [rpmLoop_tilde ha hb (.inl is), if_neg (not_not.mpr is)]
  cases hstands with
  | tilde isB =>
    rw [compareTokens_same, ← hrest xs ys le_rfl le_rfl, if_neg (not_not.mpr isB)]
  | caret isB =>
    rw [compareTokens_of_rank (by decide), isB]
    rfl
  | number digit =>
    rw [compareTokens_of_rank (by simp [Token.rank]), if_pos (alnum_ne (.inl digit)).1]
    rfl
  | word letter =>
    rw [compareTokens_of_rank (by simp [Token.rank]), if_pos (alnum_ne (.inr letter)).1]
    rfl

theorem rpmLoop_caret_eq (is : x = '^') :
    rpmLoop (n + 1) a b = compareTokens (.caret :: rpmTokens xs) (u :: rpmTokens rest) := by
  have hne : x ≠ '~' := by rw [is]; decide
  cases hstands with
  | tilde isB =>
    rw [rpmLoop_tilde ha hb (.inr isB), if_pos hne, compareTokens_of_rank (by decide)]
    rfl
  | caret isB =>
    rw [rpmLoop_caret ha hb hne (by rw [isB]; decide) (.inl is), compareTokens_same,
      ← hrest xs ys le_rfl le_rfl, if_neg (not_not.mpr is), if_neg (not_not.mpr isB)]
  | number digit =>
    have hneB := alnum_ne (.inl digit)
    rw [rpmLoop_caret ha hb hne hneB.1 (.inl is), if_neg (not_not.mpr is), if_pos hneB.2,
      compareTokens_of_rank (by simp [Token.rank])]
    rfl
  | word letter =>
    have hneB := alnum_ne (.inr letter)
    rw [rpmLoop_caret ha hb hne hneB.1 (.inl is), if_neg (not_not.mpr is), if_pos hneB.2,
      compareTokens_of_rank (by simp [Token.rank])]
    rfl

theorem rpmLoop_number_eq (digit : x.isDigit = true) :
    rpmLoop (n + 1) a b =
      compareTokens (.number (digitsValue ((x :: xs).takeWhile Char.isDigit)) ::
        rpmTokens ((x :: xs).dropWhile Char.isDigit)) (u :: rpmTokens rest) := by
  have hne := alnum_ne (.inl digit)
  cases hstands with
  | tilde isB =>
    rw [rpmLoop_tilde ha hb (.inr isB), if_pos hne.1, compareTokens_of_rank (by simp [Token.rank])]
    rfl
  | caret isB =>
    rw [rpmLoop_caret ha hb hne.1 (by rw [isB]; decide) (.inr isB), if_pos hne.2,
      compareTokens_of_rank (by simp [Token.rank])]
    rfl
  | number digitB =>
    have hsegB : ((y :: ys).takeWhile Char.isDigit).isEmpty = false := by simp [digitB]
    rw [rpmLoop_number ha hb digit (alnum_ne (.inl digitB)), hsegB, compareTokens_cons,
      ← compareSegments_number (fun c hc => List.mem_takeWhile_imp (p := Char.isDigit) hc)
        (fun c hc => List.mem_takeWhile_imp (p := Char.isDigit) hc),
      ← hrest.dropWhile digit digitB]
    rfl
  | word letterB =>
    have hsegB : ((y :: ys).takeWhile Char.isDigit).isEmpty = true := by
      simp [alpha_not_digit letterB]
    rw [rpmLoop_number ha hb digit (alnum_ne (.inr letterB)), hsegB,
      compareTokens_of_rank (by simp [Token.rank])]
    rfl

theorem rpmLoop_word_eq (letter : x.isAlpha = true) :
    rpmLoop (n + 1) a b =
      compareTokens (.word ((x :: xs).takeWhile Char.isAlpha) ::
        rpmTokens ((x :: xs).dropWhile Char.isAlpha)) (u :: rpmTokens rest) := by
  have hne := alnum_ne (.inr letter)
  cases hstands with
  | tilde isB =>
    rw [rpmLoop_tilde ha hb (.inr isB), if_pos hne.1, compareTokens_of_rank (by simp [Token.rank])]
    rfl
  | caret isB =>
    rw [rpmLoop_caret ha hb hne.1 (by rw [isB]; decide) (.inr isB), if_pos hne.2,
      compareTokens_of_rank (by simp [Token.rank])]
    rfl
  | number digitB =>
    have hsegB : ((y :: ys).takeWhile Char.isAlpha).isEmpty = true := by
      simp [digit_not_alpha digitB]
    rw [rpmLoop_word ha hb letter (alnum_ne (.inl digitB)), hsegB,
      compareTokens_of_rank (by simp [Token.rank])]
    rfl
  | word letterB =>
    have hsegB : ((y :: ys).takeWhile Char.isAlpha).isEmpty = false := by simp [letterB]
    rw [rpmLoop_word ha hb letter (alnum_ne (.inr letterB)), hsegB, compareTokens_cons,
      compare_words, ← hrest.dropWhile letter letterB]
    rfl

end Rounds

/-- rpm's loop, given a round more than there are characters, compares the tokens. -/
theorem rpmLoop_eq {n : ℕ} {a b : List Char} (hn : a.length + b.length < n) :
    rpmLoop n a b = compareTokens (rpmTokens a) (rpmTokens b) := by
  induction n generalizing a b with
  | zero => omega
  | succ n ih =>
    have hla := length_skipSeparators_le a
    have hlb := length_skipSeparators_le b
    rw [← rpmTokens_skip a, ← rpmTokens_skip b]
    cases ha : skipSeparators a with
    | nil =>
      cases hb : skipSeparators b with
      | nil =>
        rw [rpmLoop, ha, hb]
        simp [rpmTokens, compareTokens, comparePadded]
      | cons y ys => exact rpmLoop_left_ends_eq ha hb
    | cons x xs =>
      cases hb : skipSeparators b with
      | nil => exact rpmLoop_right_ends_eq ha hb
      | cons y ys =>
        rw [ha, List.length_cons] at hla
        rw [hb, List.length_cons] at hlb
        have hrest : RestCompared n xs ys := fun c d hc hd => ih (by omega)
        obtain ⟨u, restB, hstandsB, htokensB⟩ := rpmTokens_stands (skipSeparators_head hb) ys
        obtain ⟨t, restA, hstandsA, htokensA⟩ := rpmTokens_stands (skipSeparators_head ha) xs
        rw [htokensA, htokensB]
        cases hstandsA with
        | tilde is => exact rpmLoop_tilde_eq ha hb hrest hstandsB is
        | caret is => exact rpmLoop_caret_eq ha hb hrest hstandsB is
        | number digit => exact rpmLoop_number_eq ha hb hrest hstandsB digit
        | word letter => exact rpmLoop_word_eq ha hb hrest hstandsB letter

theorem rpmvercmp_eq (left right : String) :
    rpmvercmp left right = compareTokens (rpmTokens left.toList) (rpmTokens right.toList) := by
  unfold rpmvercmp
  split_ifs with hsame
  · rw [hsame]
    exact Std.ReflCmp.compare_self.symm
  · exact rpmLoop_eq (Nat.lt_succ_self _)

instance : Std.TransCmp rpmvercmp := by
  have heq : rpmvercmp =
      fun left right => compareTokens (rpmTokens left.toList) (rpmTokens right.toList) := by
    funext left right
    exact rpmvercmp_eq left right
  rw [heq]
  exact transCmp_comap fun text : String => rpmTokens text.toList

/-- rpm's comparison is the declared one, token by token, whatever number of rounds past the
characters the loop is given, and a total preorder. -/
theorem rpm_order :
    (∀ left right, rpmvercmp left right =
      compareTokens (rpmTokens left.toList) (rpmTokens right.toList)) ∧
    (∀ n (left right : String), left.toList.length + right.toList.length < n →
      rpmLoop n left.toList right.toList = rpmvercmp left right) ∧
    (∀ left, rpmvercmp left left = .eq) ∧
    (∀ left right, rpmvercmp right left = (rpmvercmp left right).swap) ∧
    ∀ left middle right, (rpmvercmp left middle).isLE = true →
      (rpmvercmp middle right).isLE = true → (rpmvercmp left right).isLE = true := by
  refine ⟨rpmvercmp_eq, fun n left right hn => ?_, fun left => ?_, fun left right => ?_,
    fun left middle right hleft hright => Std.TransCmp.isLE_trans hleft hright⟩
  · rw [rpmvercmp_eq]
    exact rpmLoop_eq hn
  · exact Std.ReflCmp.compare_self
  · exact Std.OrientedCmp.eq_swap

example : rpmTokens "1.0~rc1^a".toList =
    [.number 1, .number 0, .tilde, .word ['r', 'c'], .number 1, .caret, .word ['a']] := by
  decide +kernel

end Rpm

end Shapoclyack.VersionTokens
