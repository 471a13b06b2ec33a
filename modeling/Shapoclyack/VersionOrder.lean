import Shapoclyack.VersionCompare

set_option autoImplicit false

namespace Shapoclyack.VersionOrder

open VersionCompare Library

section Keys

/-- A number as it is compared: its length without leading zeros, then its digits. -/
def numberKey (digits : List Char) : List ℤ :=
  ((skipZeros digits).length : ℤ) :: (skipZeros digits).map fun c => (c.toNat : ℤ)

/-- The places a version is compared at: non-digits by their order, a zero before each number. -/
def versionKey : List Char → List ℤ
  | [] => []
  | c :: cs =>
    if c.isDigit then
      0 :: numberKey ((c :: cs).takeWhile Char.isDigit) ++ versionKey (cs.dropWhile Char.isDigit)
    else dpkgOrder c :: versionKey cs
termination_by cs => cs.length
decreasing_by
  · have hle := (List.dropWhile_sublist Char.isDigit (l := cs)).length_le
    simp only [List.length_cons]
    omega
  · simp

theorem dpkgOrder_digit {c : Char} (h : c.isDigit = true) : dpkgOrder c = 0 := by
  simp [dpkgOrder, h]

theorem dpkgOrder_ne_zero {c : Char} (h : c.isDigit = false) : dpkgOrder c ≠ 0 := by
  unfold dpkgOrder
  split_ifs with hd ha ht
  · simp [h] at hd
  · intro hzero
    have hnull : c.toNat = 0 := by exact_mod_cast hzero
    have hc : c = Char.ofNat 0 := by rw [← hnull, Char.ofNat_toNat]
    rw [hc] at ha
    exact absurd ha (by decide)
  · decide
  · omega

theorem versionKey_nondigit {c : Char} {cs : List Char} (h : c.isDigit = false) :
    versionKey (c :: cs) = dpkgOrder c :: versionKey cs := by
  rw [versionKey]
  simp [h]

theorem span_append {p : Char → Bool} {d : Char} (h : p d = false) (cs rest : List Char) :
    (cs ++ d :: rest).takeWhile p = cs.takeWhile p ∧
      (cs ++ d :: rest).dropWhile p = cs.dropWhile p ++ d :: rest := by
  induction cs with
  | nil => simp [h]
  | cons c cs ih =>
    by_cases hc : p c = true
    · simp [hc, ih.1, ih.2]
    · simp [hc]

theorem versionKey_append {d : Char} (h : d.isDigit = false) (cs : List Char) :
    versionKey (cs ++ [d]) = versionKey cs ++ [dpkgOrder d] := by
  fun_induction versionKey cs with
  | case1 => rw [List.nil_append, versionKey_nondigit h, versionKey, List.nil_append]
  | case2 c cs hc ih =>
    have ⟨htake, hdrop⟩ := span_append h cs []
    rw [List.cons_append, versionKey, if_pos hc, List.takeWhile_cons, if_pos hc, htake, hdrop, ih,
      List.takeWhile_cons, if_pos hc, List.append_assoc]
  | case3 c cs hc ih =>
    rw [List.cons_append, versionKey, if_neg hc, ih, List.cons_append]

theorem versionKey_headD (cs : List Char) : (versionKey cs).headD 0 = headOrder cs := by
  cases cs with
  | nil => simp [versionKey, headOrder]
  | cons c cs =>
    by_cases h : c.isDigit = true
    · rw [versionKey]
      simp [h, headOrder, dpkgOrder_digit h]
    · rw [versionKey_nondigit (by simpa using h)]
      rfl

theorem versionKey_tail {cs : List Char} (h : startsNonDigit cs = true) :
    (versionKey cs).tail = versionKey cs.tail := by
  cases cs with
  | nil => simp [startsNonDigit] at h
  | cons c cs =>
    rw [versionKey_nondigit (by simpa [startsNonDigit] using h)]
    rfl

theorem headOrder_eq_zero {cs : List Char} (h : startsNonDigit cs = false) : headOrder cs = 0 := by
  cases cs with
  | nil => rfl
  | cons c cs => exact dpkgOrder_digit (by simpa [startsNonDigit] using h)

theorem headOrder_ne_zero {cs : List Char} (h : startsNonDigit cs = true) : headOrder cs ≠ 0 := by
  cases cs with
  | nil => simp [startsNonDigit] at h
  | cons c cs => exact dpkgOrder_ne_zero (by simpa [startsNonDigit] using h)

end Keys

section Stretch

theorem both_nondigit {a b : List Char} (h : startsNonDigit a = true ∨ startsNonDigit b = true)
    (heq : headOrder a = headOrder b) : startsNonDigit a = true ∧ startsNonDigit b = true := by
  rcases h with ha | hb
  · refine ⟨ha, ?_⟩
    by_contra hb
    have hzero := headOrder_eq_zero (by simpa using hb)
    exact headOrder_ne_zero ha (heq.trans hzero)
  · refine ⟨?_, hb⟩
    by_contra ha
    have hzero := headOrder_eq_zero (by simpa using ha)
    exact headOrder_ne_zero hb (heq.symm.trans hzero)

theorem length_tail_lt {a : List Char} (h : startsNonDigit a = true) :
    a.tail.length + 1 = a.length := by
  cases a with
  | nil => simp [startsNonDigit] at h
  | cons c cs => simp

theorem nonDigits_ok {n : ℕ} {a b a' b' : List Char} (hn : a.length + b.length ≤ n)
    (h : nonDigits n a b = .ok (a', b')) :
    comparePadded 0 (versionKey a) (versionKey b) =
        comparePadded 0 (versionKey a') (versionKey b') ∧
      startsNonDigit a' = false ∧ startsNonDigit b' = false ∧
      a'.length ≤ a.length ∧ b'.length ≤ b.length := by
  induction n generalizing a b with
  | zero =>
    have ha : a = [] := List.eq_nil_of_length_eq_zero (by omega)
    have hb : b = [] := List.eq_nil_of_length_eq_zero (by omega)
    subst ha hb
    simp only [nonDigits, Except.ok.injEq, Prod.mk.injEq] at h
    obtain ⟨rfl, rfl⟩ := h
    exact ⟨rfl, rfl, rfl, le_rfl, le_rfl⟩
  | succ n ih =>
    unfold nonDigits at h
    split at h
    case isTrue hstart =>
      split at h
      case isTrue => cases h
      case isFalse heq =>
        have heq' : headOrder a = headOrder b := by simpa using heq
        obtain ⟨ha, hb⟩ := both_nondigit (by simpa using hstart) heq'
        have hla := length_tail_lt ha
        have hlb := length_tail_lt hb
        obtain ⟨hkey, hrest⟩ := ih (by omega) h
        refine ⟨?_, hrest.1, hrest.2.1, by omega, by omega⟩
        rw [comparePadded_head_tail, versionKey_headD, versionKey_headD, heq',
          versionKey_tail ha, versionKey_tail hb, hkey]
        simp
    case isFalse hstop =>
      simp only [Except.ok.injEq, Prod.mk.injEq] at h
      obtain ⟨rfl, rfl⟩ := h
      simp only [Bool.or_eq_true, not_or, Bool.not_eq_true] at hstop
      exact ⟨rfl, hstop.1, hstop.2, le_rfl, le_rfl⟩

theorem nonDigits_error {n : ℕ} {a b : List Char} {verdict : Ordering}
    (h : nonDigits n a b = .error verdict) :
    comparePadded 0 (versionKey a) (versionKey b) = verdict := by
  induction n generalizing a b with
  | zero => cases h
  | succ n ih =>
    unfold nonDigits at h
    split at h
    case isTrue hstart =>
      split at h
      case isTrue hne =>
        cases h
        rw [comparePadded_head_tail, versionKey_headD, versionKey_headD]
        have hcmp : compare (headOrder a) (headOrder b) ≠ .eq := by
          simpa using hne
        cases hc : compare (headOrder a) (headOrder b) with
        | eq => exact absurd hc hcmp
        | lt => rfl
        | gt => rfl
      case isFalse heq =>
        have heq' : headOrder a = headOrder b := by simpa using heq
        obtain ⟨ha, hb⟩ := both_nondigit (by simpa using hstart) heq'
        rw [comparePadded_head_tail, versionKey_headD, versionKey_headD, heq',
          versionKey_tail ha, versionKey_tail hb, ih h]
        simp
    case isFalse => cases h

end Stretch

section Numbers

def digitOrder (ds es : List Char) : Ordering :=
  List.compareLex (compareOn fun c : Char => (c.toNat : ℤ)) ds es

def numberedKey (a : List Char) : List ℤ :=
  0 :: (numberKey (a.takeWhile Char.isDigit) ++ versionKey (a.dropWhile Char.isDigit))

theorem versionKey_numbered {a : List Char} (h : startsNonDigit a = false) (ha : a ≠ []) :
    versionKey a = numberedKey a := by
  cases a with
  | nil => exact absurd rfl ha
  | cons c cs =>
    have hc : c.isDigit = true := by simpa [startsNonDigit] using h
    rw [versionKey, numberedKey]
    simp [hc]

theorem comparePadded_numbered_left {a : List Char} (h : startsNonDigit a = false)
    (ys : List ℤ) :
    comparePadded 0 (versionKey a) ys = comparePadded 0 (numberedKey a) ys := by
  cases a with
  | nil =>
    have hkey : numberedKey [] = [0, 0] := by simp [numberedKey, numberKey, skipZeros, versionKey]
    rw [hkey, comparePadded_head_tail [0, 0] ys, comparePadded_head_tail (versionKey []) ys]
    simp [versionKey, comparePadded_singleton_left]
  | cons c cs => rw [versionKey_numbered h (by simp)]

theorem comparePadded_numbered {a b : List Char} (ha : startsNonDigit a = false)
    (hb : startsNonDigit b = false) :
    comparePadded 0 (versionKey a) (versionKey b) =
      comparePadded 0 (numberedKey a) (numberedKey b) := by
  have hswap : ∀ xs ys : List ℤ, comparePadded 0 xs ys = (comparePadded 0 ys xs).swap :=
    fun _ _ => Std.OrientedCmp.eq_swap
  rw [comparePadded_numbered_left ha, hswap, comparePadded_numbered_left hb, ← hswap]

theorem comparePadded_digits (ds es : List Char) (hlen : ds.length = es.length) (xs ys : List ℤ) :
    comparePadded 0 (ds.map (fun c => (c.toNat : ℤ)) ++ xs)
        (es.map (fun c => (c.toNat : ℤ)) ++ ys) =
      (digitOrder ds es).then (comparePadded 0 xs ys) := by
  induction ds generalizing es with
  | nil =>
    have hes : es = [] := List.eq_nil_of_length_eq_zero hlen.symm
    subst hes
    simp [digitOrder, List.compareLex]
  | cons d ds ih =>
    cases es with
    | nil => simp at hlen
    | cons e es =>
      have hlen' : ds.length = es.length := by simpa using hlen
      simp only [List.map_cons, List.cons_append, comparePadded_cons_cons, ih es hlen',
        digitOrder, List.compareLex_cons_cons, Ordering.then_assoc]
      rfl

theorem comparePadded_number (ds es : List Char) (xs ys : List ℤ) :
    comparePadded 0 (numberKey ds ++ xs) (numberKey es ++ ys) =
      (compare (skipZeros ds).length (skipZeros es).length).then
        ((digitOrder (skipZeros ds) (skipZeros es)).then (comparePadded 0 xs ys)) := by
  have hcast : compare ((skipZeros ds).length : ℤ) ((skipZeros es).length : ℤ) =
      compare (skipZeros ds).length (skipZeros es).length := by
    simp only [compare, compareOfLessAndEq, Nat.cast_lt, Nat.cast_inj]
  unfold numberKey
  rw [List.cons_append, List.cons_append, comparePadded_cons_cons, hcast]
  cases hcmp : compare (skipZeros ds).length (skipZeros es).length with
  | eq => rw [comparePadded_digits _ _ (by simpa using hcmp)]
  | lt => rfl
  | gt => rfl

theorem skipZeros_append {ds r : List Char} (hr : startsDigit r = false) :
    skipZeros (ds ++ r) = skipZeros ds ++ r := by
  induction ds with
  | nil =>
    cases r with
    | nil => rfl
    | cons c cs =>
      have hc : c ≠ '0' := by
        rintro rfl
        cases hr
      simp [skipZeros, hc]
  | cons d ds ih =>
    by_cases hd : d = '0'
    · subst hd
      simpa [skipZeros] using ih
    · simp [skipZeros, hd]

/-- What `verrevLoop` makes of the end of a walk over two numbers. -/
def numberVerdict (rest : List Char → List Char → Ordering)
    (walk : Ordering × List Char × List Char) : Ordering :=
  if startsDigit walk.2.1 then .gt
  else if startsDigit walk.2.2 then .lt
  else walk.1.then (rest walk.2.1 walk.2.2)

theorem sharedDigits_stop_left {first : Ordering} {a b : List Char} (ha : startsDigit a = false) :
    sharedDigits first a b = (first, a, b) := by
  cases a with
  | nil => simp [sharedDigits]
  | cons x a =>
    cases b with
    | nil => simp [sharedDigits]
    | cons y b =>
      have hx : x.isDigit = false := ha
      simp [sharedDigits, hx]

theorem sharedDigits_stop_right {first : Ordering} {a b : List Char} (hb : startsDigit b = false) :
    sharedDigits first a b = (first, a, b) := by
  cases a with
  | nil => simp [sharedDigits]
  | cons x a =>
    cases b with
    | nil => simp [sharedDigits]
    | cons y b =>
      have hy : y.isDigit = false := hb
      simp [sharedDigits, hy]

theorem sharedDigits_verdict (rest : List Char → List Char → Ordering) {r s : List Char}
    (hr : startsDigit r = false) (hs : startsDigit s = false) (ds es : List Char)
    (hds : ∀ c ∈ ds, c.isDigit = true) (hes : ∀ c ∈ es, c.isDigit = true) (first : Ordering) :
    numberVerdict rest (sharedDigits first (ds ++ r) (es ++ s)) =
      (compare ds.length es.length).then
        ((first.then (digitOrder ds es)).then (rest r s)) := by
  induction ds generalizing es first with
  | nil =>
    cases es with
    | nil =>
      rw [List.nil_append, List.nil_append, sharedDigits_stop_left hr]
      simp [numberVerdict, hr, hs, digitOrder, List.compareLex]
    | cons e es =>
      have he : e.isDigit = true := hes e (by simp)
      rw [List.nil_append, sharedDigits_stop_left hr]
      have hcmp : compare ([] : List Char).length (e :: es).length = .lt := by
        rw [Nat.compare_eq_lt]
        simp
      have hhead : startsDigit (e :: es ++ s) = true := he
      rw [hcmp]
      simp only [numberVerdict, hr, hhead]
      rfl
  | cons d ds ih =>
    have hd : d.isDigit = true := hds d (by simp)
    cases es with
    | nil =>
      rw [List.nil_append, sharedDigits_stop_right hs]
      have hcmp : compare (d :: ds).length ([] : List Char).length = .gt := by
        rw [Nat.compare_eq_gt]
        simp
      have hhead : startsDigit (d :: ds ++ r) = true := hd
      rw [hcmp]
      simp only [numberVerdict, hhead]
      rfl
    | cons e es =>
      have he : e.isDigit = true := hes e (by simp)
      have hstep : sharedDigits first (d :: ds ++ r) (e :: es ++ s) =
          sharedDigits (first.then (compare (d.toNat : ℤ) (e.toNat : ℤ))) (ds ++ r) (es ++ s) := by
        simp only [List.cons_append, sharedDigits, hd, he, Bool.and_self, if_true]
      have hlen : compare (d :: ds).length (e :: es).length = compare ds.length es.length := by
        simp only [List.length_cons, compare, compareOfLessAndEq, Nat.add_lt_add_iff_right,
          Nat.add_right_cancel_iff]
      rw [hstep, ih es (fun c hc => hds c (by simp [hc])) (fun c hc => hes c (by simp [hc])), hlen]
      simp only [digitOrder, List.compareLex_cons_cons, Ordering.then_assoc]
      rfl

end Numbers

section Loop

theorem startsDigit_dropWhile (a : List Char) :
    startsDigit (a.dropWhile Char.isDigit) = false := by
  cases h : a.dropWhile Char.isDigit with
  | nil => rfl
  | cons c cs =>
    have hc := List.head_dropWhile_not Char.isDigit (w := by rw [h]; simp)
    simpa [startsDigit, h] using hc

theorem length_dropWhile_lt {a : List Char} (h : startsNonDigit a = false) (ha : a ≠ []) :
    (a.dropWhile Char.isDigit).length < a.length := by
  cases a with
  | nil => exact absurd rfl ha
  | cons c cs =>
    have hc : c.isDigit = true := by simpa [startsNonDigit] using h
    have hle := (List.dropWhile_sublist Char.isDigit (l := cs)).length_le
    simp only [List.dropWhile_cons, hc, if_true, List.length_cons]
    omega

theorem number_round (rest : List Char → List Char → Ordering) {a b : List Char} :
    numberVerdict rest (sharedDigits .eq (skipZeros a) (skipZeros b)) =
      (compare (skipZeros (a.takeWhile Char.isDigit)).length
          (skipZeros (b.takeWhile Char.isDigit)).length).then
        ((digitOrder (skipZeros (a.takeWhile Char.isDigit))
            (skipZeros (b.takeWhile Char.isDigit))).then
          (rest (a.dropWhile Char.isDigit) (b.dropWhile Char.isDigit))) := by
  have hdigits : ∀ xs : List Char,
      ∀ c ∈ skipZeros (xs.takeWhile Char.isDigit), c.isDigit = true := by
    intro xs c hc
    have hmem : c ∈ xs.takeWhile Char.isDigit := (List.dropWhile_sublist _).subset hc
    exact List.mem_takeWhile_imp hmem
  have hsplit : ∀ xs : List Char, skipZeros xs =
      skipZeros (xs.takeWhile Char.isDigit) ++ xs.dropWhile Char.isDigit := by
    intro xs
    rw [← skipZeros_append (startsDigit_dropWhile xs), List.takeWhile_append_dropWhile]
  rw [hsplit a, hsplit b,
    sharedDigits_verdict rest (startsDigit_dropWhile a) (startsDigit_dropWhile b) _ _
      (hdigits a) (hdigits b)]
  rfl

/-- dpkg's loop, given a round for each character, compares the keys of the two strings. -/
theorem verrevLoop_eq {n : ℕ} {a b : List Char} (hn : a.length + b.length ≤ n) :
    verrevLoop n a b = comparePadded 0 (versionKey a) (versionKey b) := by
  induction n generalizing a b with
  | zero =>
    have ha : a = [] := List.eq_nil_of_length_eq_zero (by omega)
    have hb : b = [] := List.eq_nil_of_length_eq_zero (by omega)
    subst ha hb
    simp [verrevLoop, versionKey, comparePadded]
  | succ n ih =>
    unfold verrevLoop
    split
    case isTrue hempty =>
      simp only [Bool.and_eq_true, List.isEmpty_iff] at hempty
      rw [hempty.1, hempty.2]
      simp [versionKey, comparePadded]
    case isFalse hsome =>
      cases hwalk : nonDigits (a.length + b.length) a b with
      | error verdict => exact (nonDigits_error hwalk).symm
      | ok left =>
        obtain ⟨a', b'⟩ := left
        obtain ⟨hkey, ha', hb', hla, hlb⟩ := nonDigits_ok le_rfl hwalk
        have hround := number_round (verrevLoop n) (a := a') (b := b')
        have hleft :
            (a'.dropWhile Char.isDigit).length + (b'.dropWhile Char.isDigit).length ≤ n := by
          have hla' := (List.dropWhile_sublist Char.isDigit (l := a')).length_le
          have hlb' := (List.dropWhile_sublist Char.isDigit (l := b')).length_le
          by_cases hna : a' = []
          · by_cases hnb : b' = []
            · subst hna hnb
              have hpos : 0 < a.length + b.length := by
                by_contra hzero
                have hae : a = [] := List.eq_nil_of_length_eq_zero (by omega)
                have hbe : b = [] := List.eq_nil_of_length_eq_zero (by omega)
                exact hsome (by simp [hae, hbe])
              simp only [List.dropWhile_nil, List.length_nil]
              omega
            · have hlt := length_dropWhile_lt hb' hnb
              omega
          · have hlt := length_dropWhile_lt ha' hna
            omega
        rw [hkey, comparePadded_numbered ha' hb']
        unfold numberedKey
        rw [comparePadded_cons_cons, comparePadded_number, ← ih hleft]
        simpa [numberVerdict] using hround

theorem dpkgVerrevcmp_eq (left right : String) :
    dpkgVerrevcmp left right =
      comparePadded 0 (versionKey left.toList) (versionKey right.toList) :=
  verrevLoop_eq le_rfl

end Loop

section Order

instance : Std.TransCmp dpkgVerrevcmp := by
  have heq : dpkgVerrevcmp =
      fun left right => comparePadded 0 (versionKey left.toList) (versionKey right.toList) := by
    funext left right
    exact dpkgVerrevcmp_eq left right
  rw [heq]
  exact transCmp_comap fun text : String => versionKey text.toList

theorem then_of_ne {o o' : Ordering} (h : o ≠ .eq) : o.then o' = o := by
  cases o with
  | eq => exact absurd rfl h
  | lt => rfl
  | gt => rfl

theorem compareDpkgEvr_eq : compareDpkgEvr =
    compareLex (compareOn Evr.epoch)
      (compareLex (fun a b => dpkgVerrevcmp a.version b.version)
        fun a b => dpkgVerrevcmp a.release b.release) := by
  funext a b
  change compareDpkgEvr a b = (compare a.epoch b.epoch).then
    ((dpkgVerrevcmp a.version b.version).then (dpkgVerrevcmp a.release b.release))
  unfold compareDpkgEvr
  split_ifs with hepoch hversion
  · have hne : compare a.epoch b.epoch ≠ .eq := by simpa using hepoch
    exact (then_of_ne hne).symm
  · have heq : compare a.epoch b.epoch = .eq := by simpa using hepoch
    rw [heq, then_of_ne hversion]
    rfl
  · have heq : compare a.epoch b.epoch = .eq := by simpa using hepoch
    have hversion' : dpkgVerrevcmp a.version b.version = .eq := by simpa using hversion
    rw [heq, hversion']
    rfl

instance : Std.TransCmp compareDpkgEvr := by
  rw [compareDpkgEvr_eq]
  have hversion : Std.TransCmp fun a b : Evr => dpkgVerrevcmp a.version b.version :=
    transCmp_comap Evr.version
  have hrelease : Std.TransCmp fun a b : Evr => dpkgVerrevcmp a.release b.release :=
    transCmp_comap Evr.release
  infer_instance

example : dpkgVerrevcmp "1.0~rc1" "1.0" = .lt := by decide +kernel

end Order

end Shapoclyack.VersionOrder
