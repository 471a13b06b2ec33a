import Mathlib.Data.List.Infix
import Mathlib.Data.Nat.Digits.Defs
import Mathlib.Tactic.Common
import Mathlib.Tactic.Ring

set_option autoImplicit false

namespace Shapoclyack.Library

section Numerals

def decDigit (c : Char) : Option ℕ :=
  if '0' ≤ c ∧ c ≤ '9' then some (c.toNat - 48) else none

def hexDigit (c : Char) : Option ℕ :=
  if '0' ≤ c ∧ c ≤ '9' then some (c.toNat - 48)
  else if 'a' ≤ c ∧ c ≤ 'f' then some (c.toNat - 87)
  else if 'A' ≤ c ∧ c ≤ 'F' then some (c.toNat - 55)
  else none

/-- `int(text, base)` of a text that may hold digits only. -/
def numeral (base : ℕ) (digit : Char → Option ℕ) (text : List Char) : Option ℕ :=
  if text = [] then none
  else text.foldlM (fun total c => (digit c).map fun d => total * base + d) 0

variable {base : ℕ} {digit : Char → Option ℕ}

theorem numeral_chars {text : List Char} {n : ℕ} (h : numeral base digit text = some n) :
    ∀ c ∈ text, (digit c).isSome := by
  have hfold : ∀ (start : ℕ) (chars : List Char) (m : ℕ),
      chars.foldlM (fun total c => (digit c).map fun d => total * base + d) start = some m →
        ∀ c ∈ chars, (digit c).isSome := by
    intro start chars
    induction chars generalizing start with
    | nil => simp
    | cons first rest ih =>
      intro m hm
      rw [List.foldlM_cons] at hm
      cases hfirst : digit first with
      | none => simp [hfirst] at hm
      | some d =>
        rw [hfirst] at hm
        refine List.forall_mem_cons.mpr ⟨by rw [hfirst]; rfl, ih _ m hm⟩
  unfold numeral at h
  split at h
  · cases h
  · exact hfold 0 text n h

theorem numeral_toDigits (hbase : 1 < base) (hdigit : ∀ d < base, digit d.digitChar = some d)
    (n : ℕ) : numeral base digit (Nat.toDigits base n) = some n := by
  unfold numeral
  rw [if_neg Nat.toDigits_ne_nil]
  induction n using Nat.strongRecOn with
  | ind n ih =>
    by_cases hn : n < base
    · rw [Nat.toDigits_of_lt_base hn]
      simp [hdigit n hn]
    · have hle : base ≤ n := Nat.le_of_not_lt hn
      have hlt : n / base < n := Nat.div_lt_self (by omega) hbase
      rw [Nat.toDigits_of_base_le hbase hle, List.foldlM_append, ih _ hlt]
      have hmod := hdigit (n % base) (Nat.mod_lt _ (by omega))
      simp [hmod, Nat.div_add_mod']

theorem decDigit_digitChar : ∀ d < 10, decDigit d.digitChar = some d := by decide

theorem hexDigit_digitChar : ∀ d < 16, hexDigit d.digitChar = some d := by decide

theorem isSome_hexDigit_of_decDigit {c : Char} (h : (decDigit c).isSome) :
    (hexDigit c).isSome := by
  unfold decDigit at h
  unfold hexDigit
  split at h
  · rename_i hc
    rw [if_pos hc]
    rfl
  · cases h

theorem length_toDigits_le (hbase : 1 < base) {k n : ℕ} (h : n < base ^ (k + 1)) :
    (Nat.toDigits base n).length ≤ k + 1 := by
  induction k generalizing n with
  | zero =>
    rw [Nat.zero_add, pow_one] at h
    rw [Nat.toDigits_of_lt_base h]
    rfl
  | succ k ih =>
    by_cases hn : n < base
    · rw [Nat.toDigits_of_lt_base hn]
      simp
    · have hdiv : n / base < base ^ (k + 1) :=
        Nat.div_lt_of_lt_mul (by rw [mul_comm, ← pow_succ]; exact h)
      rw [Nat.toDigits_of_base_le hbase (Nat.le_of_not_lt hn), List.length_append]
      exact Nat.add_le_add_right (ih hdiv) 1

end Numerals

section Places

/-- The lowest `places` digits of a number in a base, the highest first. -/
def places (base : ℕ) : ℕ → ℕ → List ℕ
  | 0, _ => []
  | count + 1, n => places base count (n / base) ++ [n % base]

def placesValue (base : ℕ) (digits : List ℕ) : ℕ :=
  digits.foldl (fun total d => total * base + d) 0

variable {base : ℕ}

@[simp] theorem length_places (count n : ℕ) : (places base count n).length = count := by
  induction count generalizing n with
  | zero => rfl
  | succ count ih => simp [places, ih]

theorem places_lt (hbase : 0 < base) {count n d : ℕ} (h : d ∈ places base count n) :
    d < base := by
  induction count generalizing n with
  | zero => simp [places] at h
  | succ count ih =>
    rcases List.mem_append.mp h with h | h
    · exact ih h
    · rw [List.mem_singleton.mp h]
      exact Nat.mod_lt _ hbase

theorem placesValue_places {count n : ℕ} (h : n < base ^ count) :
    placesValue base (places base count n) = n := by
  induction count generalizing n with
  | zero =>
    rw [pow_zero] at h
    exact (Nat.lt_one_iff.mp h).symm
  | succ count ih =>
    have hdiv : n / base < base ^ count :=
      Nat.div_lt_of_lt_mul (by rw [mul_comm, ← pow_succ]; exact h)
    have hvalue := ih hdiv
    unfold placesValue at hvalue ⊢
    rw [places, List.foldl_append, hvalue]
    exact Nat.div_add_mod' n base

end Places

section Version4

def octet (text : List Char) : Option ℕ :=
  if text.length ≤ 3 ∧ (text = ['0'] ∨ text.head? ≠ some '0') then
    (numeral 10 decDigit text).filter (· ≤ 255)
  else none

/-- `IPv4Address` of a text, none where it raises. -/
def address4 (text : List Char) : Option ℕ :=
  if (text.splitOn '.').length = 4 then
    ((text.splitOn '.').mapM octet).map (placesValue 256)
  else none

def printAddress4 (address : ℕ) : List Char :=
  ['.'].intercalate ((places 256 4 address).map (Nat.toDigits 10))

theorem octet_toDigits : ∀ n < 256, octet (Nat.toDigits 10 n) = some n := by decide +kernel

theorem octet_chars {text : List Char} {n : ℕ} (h : octet text = some n) :
    ∀ c ∈ text, (decDigit c).isSome := by
  unfold octet at h
  split at h
  · exact numeral_chars (Option.filter_eq_some_iff.mp h).1
  · cases h

theorem mapM_of_forall {α β : Type} {f : α → Option β} {g : β → α} {items : List β}
    (h : ∀ item ∈ items, f (g item) = some item) : (items.map g).mapM f = some items := by
  induction items with
  | nil => rfl
  | cons first rest ih =>
    rcases List.forall_mem_cons.mp h with ⟨hfirst, hrest⟩
    simp [hfirst, ih hrest]

theorem forall_of_mapM {α β : Type} {f : α → Option β} {items : List α} {results : List β}
    (h : items.mapM f = some results) : ∀ item ∈ items, (f item).isSome := by
  induction items generalizing results with
  | nil => simp
  | cons first rest ih =>
    cases hfirst : f first with
    | none => simp [hfirst] at h
    | some result =>
      cases hrest : rest.mapM f with
      | none => simp [hfirst, hrest] at h
      | some others => exact List.forall_mem_cons.mpr ⟨by rw [hfirst]; rfl, ih hrest⟩

theorem not_mem_toDigits {n : ℕ} {c : Char} (hc : hexDigit c = none) :
    c ∉ Nat.toDigits 10 n := by
  intro hmem
  have hsome := isSome_hexDigit_of_decDigit
    (numeral_chars (numeral_toDigits (by decide) decDigit_digitChar n) c hmem)
  rw [hc] at hsome
  cases hsome

theorem address4_print {address : ℕ} (h : address < 2 ^ 32) :
    address4 (printAddress4 address) = some address := by
  have hsplit : (printAddress4 address).splitOn '.' =
      (places 256 4 address).map (Nat.toDigits 10) := by
    refine List.splitOn_intercalate '.' ?_ (List.ne_nil_of_length_pos (by simp))
    intro part hpart
    rcases List.mem_map.mp hpart with ⟨n, -, rfl⟩
    exact not_mem_toDigits (by decide)
  have hparts : ((places 256 4 address).map (Nat.toDigits 10)).mapM octet =
      some (places 256 4 address) :=
    mapM_of_forall fun n hn => octet_toDigits n (places_lt (by decide) hn)
  unfold address4
  rw [hsplit, if_pos (by simp), hparts]
  exact congrArg some (placesValue_places h)

theorem mem_of_mem_intercalate {α : Type} {separator a : α} {parts : List (List α)}
    (h : a ∈ [separator].intercalate parts) : a = separator ∨ ∃ part ∈ parts, a ∈ part := by
  induction parts with
  | nil => simp at h
  | cons first rest ih =>
    cases rest with
    | nil => exact .inr ⟨first, List.mem_cons_self, by simpa using h⟩
    | cons second others =>
      rw [List.intercalate_cons_cons] at h
      rcases List.mem_append.mp h with h | h
      · rcases List.mem_append.mp h with h | h
        · exact .inr ⟨first, List.mem_cons_self, h⟩
        · exact .inl (List.mem_singleton.mp h)
      · rcases ih h with h | ⟨part, hpart, hmem⟩
        · exact .inl h
        · exact .inr ⟨part, List.mem_cons_of_mem _ hpart, hmem⟩

theorem address4_chars {text : List Char} {n : ℕ} (h : address4 text = some n) :
    ∀ c ∈ text, c = '.' ∨ (decDigit c).isSome := by
  intro c hc
  unfold address4 at h
  split at h
  · rcases Option.map_eq_some_iff.mp h with ⟨octets, hoctets, -⟩
    have hjoin : ['.'].intercalate (text.splitOn '.') = text := List.intercalate_splitOn '.'
    rw [← hjoin] at hc
    rcases mem_of_mem_intercalate hc with hdot | ⟨part, hpart, hmem⟩
    · exact .inl hdot
    · rcases Option.isSome_iff_exists.mp (forall_of_mapM hoctets part hpart) with ⟨m, hm⟩
      exact .inr (octet_chars hm c hmem)
  · cases h

end Version4

section Version6

def hextet (text : List Char) : Option ℕ :=
  if text.length ≤ 4 then numeral 16 hexDigit text else none

/-- A side of `::`, which holds an empty text where the address begins or ends there. -/
def sideOf (parts : List (List Char)) : List (List Char) := if parts = [[]] then [] else parts

/-- The eight parts, the ones that `::` leaves out filled in. -/
def expand (parts : List (List Char)) : Option (List ℕ) :=
  let inner := parts.tail.dropLast
  if inner.count [] = 0 then
    if parts.length = 8 then parts.mapM hextet else none
  else if inner.count [] = 1 then
    let skip := inner.idxOf [] + 1
    let high := sideOf (parts.take skip)
    let low := sideOf (parts.drop (skip + 1))
    if high.length + low.length < 8 then
      (high.mapM hextet).bind fun highest => (low.mapM hextet).map fun lowest =>
        highest ++ List.replicate (8 - (high.length + low.length)) 0 ++ lowest
    else none
  else none

def embedded (parts : List (List Char)) : Option (List (List Char)) :=
  let ending := parts.getLastD []
  if '.' ∈ ending then
    (address4 ending).map fun address =>
      parts.dropLast ++ [Nat.toDigits 16 (address / 65536), Nat.toDigits 16 (address % 65536)]
  else some parts

/-- `IPv6Address` of a text without a zone, none where it raises. -/
def address6 (text : List Char) : Option ℕ :=
  if (text.splitOn ':').length < 3 then none
  else (embedded (text.splitOn ':')).bind fun parts =>
    if parts.length > 9 then none else (expand parts).map (placesValue 65536)

def longestZeros : List ℕ → ℕ → ℕ → ℕ × ℕ → ℕ × ℕ
  | [], _, _, best => best
  | part :: rest, index, run, best =>
    if part = 0 then
      longestZeros rest (index + 1) (run + 1)
        (if best.2 < run + 1 then (index - run, run + 1) else best)
    else longestZeros rest (index + 1) 0 best

def printSide (parts : List ℕ) : List (List Char) :=
  if parts = [] then [[]] else parts.map (Nat.toDigits 16)

/-- `_compress_hextets`. -/
def compress (parts : List ℕ) : List (List Char) :=
  let zeros := longestZeros parts 0 0 (0, 0)
  if 1 < zeros.2 then
    printSide (parts.take zeros.1) ++ [] :: printSide (parts.drop (zeros.1 + zeros.2))
  else parts.map (Nat.toDigits 16)

def printAddress6 (address : ℕ) : List Char :=
  [':'].intercalate (compress (places 65536 8 address))

theorem hextet_toDigits {n : ℕ} (h : n < 65536) : hextet (Nat.toDigits 16 n) = some n := by
  have hlength : (Nat.toDigits 16 n).length ≤ 4 := length_toDigits_le (k := 3) (by decide) h
  unfold hextet
  rw [if_pos hlength]
  exact numeral_toDigits (by decide) hexDigit_digitChar n

theorem hexDigit_of_mem {n : ℕ} {c : Char} (h : c ∈ Nat.toDigits 16 n) : (hexDigit c).isSome :=
  numeral_chars (numeral_toDigits (by decide) hexDigit_digitChar n) c h

/-- What the scan of the parts has found when it has read `done`. -/
structure ZerosIn (done : List ℕ) (run : ℕ) (best : ℕ × ℕ) : Prop where
  running : ∃ before, done = before ++ List.replicate run 0
  found : ∃ before after, done = before ++ List.replicate best.2 0 ++ after ∧
    before.length = best.1

theorem zerosIn_longestZeros {done rest : List ℕ} {run : ℕ} {best : ℕ × ℕ}
    (h : ZerosIn done run best) :
    ∃ before after, done ++ rest = before ++
        List.replicate (longestZeros rest done.length run best).2 0 ++ after ∧
      before.length = (longestZeros rest done.length run best).1 := by
  induction rest generalizing done run best with
  | nil =>
    rw [List.append_nil]
    exact h.found
  | cons part rest ih =>
    have hlength : (done ++ [part]).length = done.length + 1 := by simp
    have hfound : ∃ before after, done ++ [part] =
        before ++ List.replicate best.2 0 ++ after ∧ before.length = best.1 := by
      rcases h.found with ⟨before, after, heq, hbefore⟩
      exact ⟨before, after ++ [part], by rw [heq]; simp, hbefore⟩
    have happend : done ++ part :: rest = (done ++ [part]) ++ rest := by simp
    rw [happend]
    unfold longestZeros
    by_cases hpart : part = 0
    · rw [if_pos hpart, ← hlength]
      refine ih ⟨?_, ?_⟩
      all_goals rcases h.running with ⟨before, heq⟩
      · refine ⟨before, ?_⟩
        rw [heq, hpart, List.replicate_succ']
        simp
      · split
        · refine ⟨before, [], ?_, ?_⟩
          · rw [heq, hpart, List.replicate_succ']
            simp
          · have := congrArg List.length heq
            rw [List.length_append, List.length_replicate] at this
            omega
        · exact hfound
    · rw [if_neg hpart, ← hlength]
      exact ih ⟨⟨done ++ [part], by simp⟩, hfound⟩

theorem longestZeros_spec (parts : List ℕ) :
    ∃ before after, parts = before ++
        List.replicate (longestZeros parts 0 0 (0, 0)).2 0 ++ after ∧
      before.length = (longestZeros parts 0 0 (0, 0)).1 := by
  have hstart : ZerosIn [] 0 (0, 0) := ⟨⟨[], rfl⟩, ⟨[], [], rfl, rfl⟩⟩
  exact @zerosIn_longestZeros [] parts 0 (0, 0) hstart

theorem printSide_ne_nil (parts : List ℕ) : printSide parts ≠ [] := by
  unfold printSide
  split
  · simp
  · rename_i h
    simpa using h

theorem nil_not_mem_map (parts : List ℕ) : [] ∉ parts.map (Nat.toDigits 16) := by
  intro h
  rcases List.mem_map.mp h with ⟨n, -, hn⟩
  exact Nat.toDigits_ne_nil hn

theorem nil_not_mem_tail (parts : List ℕ) : [] ∉ (printSide parts).tail := by
  unfold printSide
  split
  · simp
  · exact fun h => nil_not_mem_map parts (List.mem_of_mem_tail h)

theorem nil_not_mem_dropLast (parts : List ℕ) : [] ∉ (printSide parts).dropLast := by
  unfold printSide
  split
  · simp
  · exact fun h => nil_not_mem_map parts (List.mem_of_mem_dropLast h)

theorem sideOf_printSide (parts : List ℕ) :
    sideOf (printSide parts) = parts.map (Nat.toDigits 16) := by
  unfold printSide sideOf
  by_cases h : parts = []
  · rw [if_pos h, if_pos rfl, h]
    rfl
  · rw [if_neg h, if_neg]
    intro heq
    exact nil_not_mem_map parts (heq ▸ List.mem_singleton_self _)

theorem mapM_hextet {parts : List ℕ} (h : ∀ part ∈ parts, part < 65536) :
    (parts.map (Nat.toDigits 16)).mapM hextet = some parts :=
  mapM_of_forall fun part hpart => hextet_toDigits (h part hpart)

theorem expand_sides {before after : List ℕ} (hlength : before.length + after.length < 8)
    (hbefore : ∀ part ∈ before, part < 65536) (hafter : ∀ part ∈ after, part < 65536) :
    expand (printSide before ++ [] :: printSide after) =
      some (before ++ List.replicate (8 - (before.length + after.length)) 0 ++ after) := by
  have hinner : (printSide before ++ [] :: printSide after).tail.dropLast =
      (printSide before).tail ++ [] :: (printSide after).dropLast := by
    rw [List.tail_append_of_ne_nil (printSide_ne_nil before),
      List.dropLast_append_of_ne_nil (List.cons_ne_nil _ _),
      List.dropLast_cons_of_ne_nil (printSide_ne_nil after)]
  have hcount : ((printSide before).tail ++ [] :: (printSide after).dropLast).count [] = 1 := by
    rw [List.count_append, List.count_cons_self, List.count_eq_zero.mpr (nil_not_mem_tail before),
      List.count_eq_zero.mpr (nil_not_mem_dropLast after)]
  have hindex : ((printSide before).tail ++ [] :: (printSide after).dropLast).idxOf [] + 1 =
      (printSide before).length := by
    rw [List.idxOf_append_of_notMem (nil_not_mem_tail before), List.idxOf_cons_self,
      Nat.add_zero, List.length_tail]
    exact Nat.sub_add_cancel (List.length_pos_iff_ne_nil.mpr (printSide_ne_nil before))
  have htake : (printSide before ++ [] :: printSide after).take (printSide before).length =
      printSide before := List.take_left
  have hdrop : (printSide before ++ [] :: printSide after).drop ((printSide before).length + 1) =
      printSide after := by
    rw [← List.drop_drop, List.drop_left, List.drop_one, List.tail_cons]
  unfold expand
  simp only [hinner, hcount, hindex, htake, hdrop, sideOf_printSide, List.length_map,
    if_pos hlength, mapM_hextet hbefore, mapM_hextet hafter]
  simp

theorem expand_map {parts : List ℕ} (hlength : parts.length = 8)
    (hparts : ∀ part ∈ parts, part < 65536) :
    expand (parts.map (Nat.toDigits 16)) = some parts := by
  have hcount : ((parts.map (Nat.toDigits 16)).tail.dropLast).count [] = 0 :=
    List.count_eq_zero.mpr fun h =>
      nil_not_mem_map parts (List.mem_of_mem_tail (List.mem_of_mem_dropLast h))
  unfold expand
  simp only [hcount, if_true, List.length_map, if_pos hlength]
  exact mapM_hextet hparts

theorem expand_compress {parts : List ℕ} (hlength : parts.length = 8)
    (hparts : ∀ part ∈ parts, part < 65536) : expand (compress parts) = some parts := by
  rcases longestZeros_spec parts with ⟨before, after, heq, hbefore⟩
  unfold compress
  generalize longestZeros parts 0 0 (0, 0) = zeros at heq hbefore
  by_cases hlong : 1 < zeros.2
  · have htake : parts.take zeros.1 = before := by
      rw [heq, ← hbefore, List.append_assoc, List.take_left]
    have hdrop : parts.drop (zeros.1 + zeros.2) = after := by
      have hrun : zeros.1 + zeros.2 = (before ++ List.replicate zeros.2 0).length := by
        simp [hbefore]
      rw [heq, hrun, List.drop_left]
    have htotal : before.length + zeros.2 + after.length = 8 := by
      rw [← hlength, heq]
      simp [Nat.add_assoc]
    have hzeros : 8 - (before.length + after.length) = zeros.2 := by omega
    simp only [if_pos hlong, htake, hdrop]
    rw [expand_sides (by omega), hzeros, ← heq]
    · exact fun part hpart => hparts part (heq ▸ by simp [hpart])
    · exact fun part hpart => hparts part (heq ▸ by simp [hpart])
  · rw [if_neg hlong]
    exact expand_map hlength hparts

theorem compress_chars {parts : List ℕ} {part : List Char} {c : Char}
    (hpart : part ∈ compress parts) (hc : c ∈ part) : (hexDigit c).isSome := by
  have hmap : ∀ {chosen : List ℕ}, part ∈ chosen.map (Nat.toDigits 16) → (hexDigit c).isSome := by
    intro chosen hmem
    rcases List.mem_map.mp hmem with ⟨n, -, rfl⟩
    exact hexDigit_of_mem hc
  have hside : ∀ {chosen : List ℕ}, part ∈ printSide chosen → (hexDigit c).isSome := by
    intro chosen hmem
    unfold printSide at hmem
    split at hmem
    · rw [List.mem_singleton.mp hmem] at hc
      cases hc
    · exact hmap hmem
  unfold compress at hpart
  simp only at hpart
  split at hpart
  · rcases List.mem_append.mp hpart with hmem | hmem
    · exact hside hmem
    · rcases List.mem_cons.mp hmem with rfl | hmem
      · cases hc
      · exact hside hmem
  · exact hmap hpart

theorem length_printSide (parts : List ℕ) : (printSide parts).length = max 1 parts.length := by
  unfold printSide
  split
  · rename_i h
    simp [h]
  · rename_i h
    have := List.length_pos_iff_ne_nil.mpr h
    simp only [List.length_map]
    omega

theorem length_compress {parts : List ℕ} (hlength : parts.length = 8) :
    3 ≤ (compress parts).length ∧ (compress parts).length ≤ 9 := by
  rcases longestZeros_spec parts with ⟨before, after, heq, hbefore⟩
  have htotal := congrArg List.length heq
  rw [hlength, List.length_append, List.length_append, List.length_replicate, hbefore] at htotal
  unfold compress
  generalize longestZeros parts 0 0 (0, 0) = zeros at htotal
  simp only
  split
  · simp only [List.length_append, List.length_cons, length_printSide, List.length_take,
      List.length_drop, hlength]
    omega
  · simp only [List.length_map, hlength]
    omega

theorem splitOn_printAddress6 (address : ℕ) :
    (printAddress6 address).splitOn ':' = compress (places 65536 8 address) := by
  have hlength := (length_compress (@length_places 65536 8 address)).1
  refine List.splitOn_intercalate ':' ?_ (List.ne_nil_of_length_pos (by omega))
  intro part hpart hmem
  have := compress_chars hpart hmem
  revert this
  decide

theorem embedded_compress (parts : List ℕ) : embedded (compress parts) = some (compress parts) := by
  have hdot : '.' ∉ (compress parts).getLastD [] := by
    intro hmem
    rcases List.eq_nil_or_concat (compress parts) with hnil | ⟨first, final, heq⟩
    · rw [hnil] at hmem
      cases hmem
    · have hfinal : final ∈ compress parts := by simp [heq]
      rw [heq] at hmem
      have := compress_chars hfinal (c := '.') (by simpa using hmem)
      revert this
      decide
  unfold embedded
  simp only [if_neg hdot]

theorem address6_print {address : ℕ} (h : address < 2 ^ 128) :
    address6 (printAddress6 address) = some address := by
  have hlength := length_compress (@length_places 65536 8 address)
  have hexpand := expand_compress (@length_places 65536 8 address)
    fun part hpart => places_lt (by decide) hpart
  unfold address6
  rw [splitOn_printAddress6, if_neg (by omega), embedded_compress, Option.bind_some,
    if_neg (by omega), hexpand]
  exact congrArg some (placesValue_places (h.trans_le (by decide)))

theorem printAddress6_chars {address : ℕ} {c : Char} (hc : c ∈ printAddress6 address) :
    c = ':' ∨ (hexDigit c).isSome := by
  rcases mem_of_mem_intercalate hc with hcolon | ⟨part, hpart, hmem⟩
  · exact .inl hcolon
  · exact .inr (compress_chars hpart hmem)

theorem colon_mem_printAddress6 (address : ℕ) : ':' ∈ printAddress6 address := by
  by_contra hmem
  have hsplit := List.splitOn_eq_singleton hmem
  have hlength := (length_compress (@length_places 65536 8 address)).1
  rw [← splitOn_printAddress6, hsplit] at hlength
  simp at hlength

end Version6

section Readings

variable {text : List Char}

theorem length_splitOn (c : Char) (chars : List Char) :
    (chars.splitOn c).length = chars.count c + 1 := by
  induction chars with
  | nil => rfl
  | cons first rest ih =>
    rw [List.splitOn_cons_eq_if_modifyHead, List.count_cons]
    split_ifs
    · rw [List.length_cons, ih]
    · rw [List.length_modifyHead, ih, Nat.add_zero]

theorem hextet_chars {part : List Char} (h : (hextet part).isSome) :
    ∀ c ∈ part, (hexDigit c).isSome := by
  obtain ⟨n, hn⟩ := Option.isSome_iff_exists.mp h
  unfold hextet at hn
  split at hn
  · exact numeral_chars hn
  · cases hn

theorem expand_parts {parts : List (List Char)} {values : List ℕ} (h : expand parts = some values) :
    ∀ part ∈ parts, part = [] ∨ (hextet part).isSome := by
  have hside : ∀ {chosen : List (List Char)} {read : List ℕ},
      (sideOf chosen).mapM hextet = some read →
        ∀ part ∈ chosen, part = [] ∨ (hextet part).isSome := by
    intro chosen read hread part hpart
    unfold sideOf at hread
    split at hread
    · rename_i hempty
      rw [hempty, List.mem_singleton] at hpart
      exact .inl hpart
    · exact .inr (forall_of_mapM hread part hpart)
  unfold expand at h
  dsimp only at h
  split_ifs at h with hnone hlength hone hshort
  · intro part hpart
    exact .inr (forall_of_mapM h part hpart)
  · obtain ⟨highest, hhigh, hrest⟩ := Option.bind_eq_some_iff.mp h
    obtain ⟨lowest, hlow, _⟩ := Option.map_eq_some_iff.mp hrest
    intro part hpart
    have hgap : parts[parts.tail.dropLast.idxOf [] + 1]? = some [] := by
      have hmem : [] ∈ parts.tail.dropLast := List.count_pos_iff.mp (by omega)
      have hget := List.getElem?_idxOf hmem
      have hlt := List.idxOf_lt_length_of_mem hmem
      rw [List.length_dropLast, List.length_tail] at hlt
      rw [List.getElem?_dropLast, List.getElem?_tail] at hget
      split at hget
      · exact hget
      · cases hget
    rw [← List.take_append_drop (parts.tail.dropLast.idxOf [] + 1) parts] at hpart
    rcases List.mem_append.mp hpart with hbefore | hafter
    · exact hside hhigh part hbefore
    · rw [List.drop_eq_getElem?_toList_append, hgap] at hafter
      rcases List.mem_append.mp hafter with hempty | hlater
      · exact .inl (by simpa using hempty)
      · exact hside hlow part hlater

theorem address6_chars {n : ℕ} (h : address6 text = some n) :
    ∀ c ∈ text, c = ':' ∨ c = '.' ∨ (hexDigit c).isSome := by
  unfold address6 at h
  split at h
  · cases h
  obtain ⟨parts, hembedded, h⟩ := Option.bind_eq_some_iff.mp h
  split at h
  · cases h
  obtain ⟨values, hvalues, _⟩ := Option.map_eq_some_iff.mp h
  have hparts := expand_parts hvalues
  have hread : ∀ part ∈ parts, ∀ c ∈ part, (hexDigit c).isSome := by
    intro part hpart c hc
    rcases hparts part hpart with rfl | hpart
    · cases hc
    · exact hextet_chars hpart c hc
  intro c hc
  have hjoin : [':'].intercalate (text.splitOn ':') = text := List.intercalate_splitOn ':'
  rw [← hjoin] at hc
  rcases mem_of_mem_intercalate hc with hcolon | ⟨part, hpart, hmem⟩
  · exact .inl hcolon
  refine .inr ?_
  unfold embedded at hembedded
  dsimp only at hembedded
  split at hembedded
  · obtain ⟨ending, hending, rfl⟩ := Option.map_eq_some_iff.mp hembedded
    have hne : text.splitOn ':' ≠ [] := List.splitOn_ne_nil ':' text
    rw [← List.dropLast_append_getLast hne] at hpart
    rcases List.mem_append.mp hpart with hfront | hlast
    · exact .inr (hread part (List.mem_append_left _ hfront) c hmem)
    · have hfinal : (text.splitOn ':').getLastD [] = (text.splitOn ':').getLast hne := by
        rw [List.getLastD_eq_getLast?, List.getLast?_eq_some_getLast hne, Option.getD_some]
      rw [List.mem_singleton.mp hlast, ← hfinal] at hmem
      rcases address4_chars hending c hmem with hdot | hdigit
      · exact .inl hdot
      · exact .inr (isSome_hexDigit_of_decDigit hdigit)
  · rw [← Option.some.inj hembedded] at hread
    exact .inr (hread part hpart c hmem)

theorem mapM_spec {α β : Type} {f : α → Option β} {items : List α} {results : List β}
    (h : items.mapM f = some results) :
    results.length = items.length ∧ ∀ result ∈ results, ∃ item ∈ items, f item = some result := by
  induction items generalizing results with
  | nil =>
    rw [← Option.some.inj h]
    exact ⟨rfl, by simp⟩
  | cons first rest ih =>
    cases hfirst : f first with
    | none => simp [hfirst] at h
    | some result =>
      cases hrest : rest.mapM f with
      | none => simp [hfirst, hrest] at h
      | some others =>
        obtain ⟨hlength, hmem⟩ := ih hrest
        simp only [List.mapM_cons, hfirst, hrest, Option.bind_eq_bind, Option.bind_some,
          Option.pure_def, Option.some.injEq] at h
        rw [← h]
        refine ⟨by rw [List.length_cons, List.length_cons, hlength], ?_⟩
        intro chosen hchosen
        rcases List.mem_cons.mp hchosen with rfl | hlater
        · exact ⟨first, by simp, hfirst⟩
        · obtain ⟨item, hitem, hread⟩ := hmem chosen hlater
          exact ⟨item, by simp [hitem], hread⟩

theorem numeral_lt {base : ℕ} {digit : Char → Option ℕ}
    (hdigit : ∀ c d, digit c = some d → d < base) {n : ℕ}
    (h : numeral base digit text = some n) : n < base ^ text.length := by
  have hfold : ∀ (chars : List Char) (start m : ℕ),
      chars.foldlM (fun total c => (digit c).map fun d => total * base + d) start = some m →
        m < (start + 1) * base ^ chars.length := by
    intro chars
    induction chars with
    | nil =>
      intro start m hm
      rw [← Option.some.inj hm]
      simp
    | cons first rest ih =>
      intro start m hm
      rw [List.foldlM_cons] at hm
      obtain ⟨next, hnext, hrest⟩ := Option.bind_eq_some_iff.mp hm
      obtain ⟨d, hd, rfl⟩ := Option.map_eq_some_iff.mp hnext
      have hle : start * base + d + 1 ≤ (start + 1) * base := by
        have := hdigit first d hd
        rw [Nat.succ_mul]
        omega
      calc m < (start * base + d + 1) * base ^ rest.length := ih _ m hrest
        _ ≤ (start + 1) * base * base ^ rest.length := Nat.mul_le_mul_right _ hle
        _ = (start + 1) * base ^ (first :: rest).length := by
          rw [List.length_cons, pow_succ]
          ring
  unfold numeral at h
  split at h
  · cases h
  · simpa using hfold text 0 n h

theorem placesValue_lt {base : ℕ} {digits : List ℕ} (h : ∀ d ∈ digits, d < base) :
    placesValue base digits < base ^ digits.length := by
  have hfold : ∀ (rest : List ℕ) (start : ℕ), (∀ d ∈ rest, d < base) →
      rest.foldl (fun total d => total * base + d) start < (start + 1) * base ^ rest.length := by
    intro rest
    induction rest with
    | nil =>
      intro start _
      simp
    | cons d rest ih =>
      intro start hrest
      obtain ⟨hd, hlater⟩ := List.forall_mem_cons.mp hrest
      have hle : start * base + d + 1 ≤ (start + 1) * base := by
        rw [Nat.succ_mul]
        omega
      calc (d :: rest).foldl (fun total d => total * base + d) start
          < (start * base + d + 1) * base ^ rest.length := ih _ hlater
        _ ≤ (start + 1) * base * base ^ rest.length := Nat.mul_le_mul_right _ hle
        _ = (start + 1) * base ^ (d :: rest).length := by
          rw [List.length_cons, pow_succ]
          ring
  simpa [placesValue] using hfold digits 0 h

theorem hexDigit_lt {c : Char} {d : ℕ} (h : hexDigit c = some d) : d < 16 := by
  have hle : ∀ {a : Char}, c ≤ a → c.toNat ≤ a.toNat := fun hca => hca
  unfold hexDigit at h
  split_ifs at h with hdigit hlower hupper
  · have := hle hdigit.2
    have hnine : '9'.toNat = 57 := rfl
    rw [← Option.some.inj h]
    omega
  · have := hle hlower.2
    have hf : 'f'.toNat = 102 := rfl
    rw [← Option.some.inj h]
    omega
  · have := hle hupper.2
    have hf : 'F'.toNat = 70 := rfl
    rw [← Option.some.inj h]
    omega

theorem octet_lt {n : ℕ} (h : octet text = some n) : n < 256 := by
  unfold octet at h
  split at h
  · have := of_decide_eq_true (Option.filter_eq_some_iff.mp h).2
    omega
  · cases h

theorem hextet_lt {n : ℕ} (h : hextet text = some n) : n < 65536 := by
  unfold hextet at h
  split at h
  · rename_i hshort
    have hlt := numeral_lt (fun _ _ => hexDigit_lt) h
    calc n < 16 ^ text.length := hlt
      _ ≤ 16 ^ 4 := Nat.pow_le_pow_right (by decide) hshort
      _ = 65536 := by norm_num
  · cases h

theorem address4_lt {n : ℕ} (h : address4 text = some n) : n < 2 ^ 32 := by
  unfold address4 at h
  split at h
  · rename_i hfour
    obtain ⟨octets, hoctets, rfl⟩ := Option.map_eq_some_iff.mp h
    obtain ⟨hlength, hread⟩ := mapM_spec hoctets
    have hlt := @placesValue_lt 256 octets fun d hd => by
      obtain ⟨part, _, hpart⟩ := hread d hd
      exact octet_lt hpart
    rw [hlength, hfour] at hlt
    exact hlt
  · cases h

theorem expand_values {parts : List (List Char)} {values : List ℕ}
    (h : expand parts = some values) : values.length = 8 ∧ ∀ value ∈ values, value < 65536 := by
  have hread : ∀ {chosen : List (List Char)} {read : List ℕ}, chosen.mapM hextet = some read →
      read.length = chosen.length ∧ ∀ value ∈ read, value < 65536 := by
    intro chosen read hmap
    obtain ⟨hlength, hmem⟩ := mapM_spec hmap
    refine ⟨hlength, fun value hvalue => ?_⟩
    obtain ⟨part, _, hpart⟩ := hmem value hvalue
    exact hextet_lt hpart
  unfold expand at h
  dsimp only at h
  split_ifs at h with hnone hlength hone hshort
  · obtain ⟨hsame, hlt⟩ := hread h
    exact ⟨hsame.trans hlength, hlt⟩
  · obtain ⟨highest, hhigh, hrest⟩ := Option.bind_eq_some_iff.mp h
    obtain ⟨lowest, hlow, rfl⟩ := Option.map_eq_some_iff.mp hrest
    obtain ⟨hhighLength, hhighLt⟩ := hread hhigh
    obtain ⟨hlowLength, hlowLt⟩ := hread hlow
    constructor
    · rw [List.length_append, List.length_append, List.length_replicate, hhighLength, hlowLength]
      omega
    · intro value hvalue
      rcases List.mem_append.mp hvalue with hfront | hback
      · rcases List.mem_append.mp hfront with hfirst | hzero
        · exact hhighLt value hfirst
        · rw [List.eq_of_mem_replicate hzero]
          decide
      · exact hlowLt value hback

theorem address6_lt {n : ℕ} (h : address6 text = some n) : n < 2 ^ 128 := by
  unfold address6 at h
  split at h
  · cases h
  obtain ⟨parts, _, h⟩ := Option.bind_eq_some_iff.mp h
  split at h
  · cases h
  obtain ⟨values, hvalues, rfl⟩ := Option.map_eq_some_iff.mp h
  obtain ⟨hlength, hlt⟩ := expand_values hvalues
  have hbound := placesValue_lt hlt
  rw [hlength] at hbound
  exact hbound.trans_le (by norm_num)

end Readings

end Shapoclyack.Library
