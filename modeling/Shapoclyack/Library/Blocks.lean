import Mathlib.Data.Nat.Bits
import Mathlib.Order.Basic
import Mathlib.Tactic.Common
import Mathlib.Tactic.Ring

set_option autoImplicit false

namespace Shapoclyack.Library

/-- The numbers that agree with `index` above their lowest `height` bits. -/
structure Block where
  height : ℕ
  index : ℕ
deriving DecidableEq

namespace Block

instance : Membership ℕ Block where
  mem block number := number / 2 ^ block.height = block.index

variable {a : ℕ} {b c d : Block}

theorem mem_def : a ∈ b ↔ a / 2 ^ b.height = b.index := Iff.rfl

instance (a : ℕ) (b : Block) : Decidable (a ∈ b) := inferInstanceAs (Decidable (_ = _))

def first (b : Block) : ℕ := b.index * 2 ^ b.height

def last (b : Block) : ℕ := b.first + (2 ^ b.height - 1)

theorem mem_iff : a ∈ b ↔ b.first ≤ a ∧ a ≤ b.last := by
  have hpos : 0 < 2 ^ b.height := Nat.two_pow_pos _
  rw [mem_def, Nat.div_eq_iff hpos]
  unfold last first
  omega

theorem first_mem (b : Block) : b.first ∈ b := mem_iff.mpr ⟨le_rfl, Nat.le_add_right _ _⟩

theorem last_mem (b : Block) : b.last ∈ b := mem_iff.mpr ⟨Nat.le_add_right _ _, le_rfl⟩

def ancestor (b : Block) (height : ℕ) : Block := ⟨height, b.index / 2 ^ (height - b.height)⟩

theorem mem_ancestor {height : ℕ} (h : b.height ≤ height) (ha : a ∈ b) :
    a ∈ b.ancestor height := by
  have hpow : 2 ^ height = 2 ^ b.height * 2 ^ (height - b.height) := by
    rw [← pow_add, Nat.add_sub_cancel' h]
  rw [mem_def] at ha ⊢
  change a / 2 ^ height = b.index / 2 ^ (height - b.height)
  rw [hpow, ← Nat.div_div_eq_div_mul, ha]

instance : LE Block where
  le b c := b.height ≤ c.height ∧ b.ancestor c.height = c

instance (b c : Block) : Decidable (b ≤ c) := inferInstanceAs (Decidable (_ ∧ _))

theorem mem_of_le (h : b ≤ c) (ha : a ∈ b) : a ∈ c := by
  have hmem := mem_ancestor h.1 ha
  rwa [h.2] at hmem

theorem le_of_mem (hb : a ∈ b) (hc : a ∈ c) (h : b.height ≤ c.height) : b ≤ c := by
  refine ⟨h, ?_⟩
  have hmem := mem_ancestor h hb
  rcases c with ⟨height, index⟩
  exact congrArg (Block.mk height) ((mem_def.mp hmem).symm.trans (mem_def.mp hc))

theorem le_or_le (hb : a ∈ b) (hc : a ∈ c) : b ≤ c ∨ c ≤ b :=
  (Nat.le_total b.height c.height).imp (le_of_mem hb hc) (le_of_mem hc hb)

theorem height_le_of_bounds (hfirst : c.first ≤ b.first) (hlast : b.last ≤ c.last) :
    b.height ≤ c.height := by
  have hspan : 2 ^ b.height ≤ 2 ^ c.height := by
    have hb : 0 < 2 ^ b.height := Nat.two_pow_pos _
    have hc : 0 < 2 ^ c.height := Nat.two_pow_pos _
    unfold last at hlast
    omega
  exact (Nat.pow_le_pow_iff_right (by omega)).mp hspan

theorem le_iff_bounds : b ≤ c ↔ c.first ≤ b.first ∧ b.last ≤ c.last := by
  constructor
  · intro h
    exact ⟨(mem_iff.mp (mem_of_le h b.first_mem)).1, (mem_iff.mp (mem_of_le h b.last_mem)).2⟩
  · intro h
    have hmem : b.first ∈ c :=
      mem_iff.mpr ⟨h.1, (mem_iff.mp b.first_mem).2.trans h.2⟩
    exact le_of_mem b.first_mem hmem (height_le_of_bounds h.1 h.2)

theorem le_iff_subset : b ≤ c ↔ ∀ a ∈ b, a ∈ c := by
  constructor
  · exact fun h a ha => mem_of_le h ha
  · intro h
    exact le_iff_bounds.mpr
      ⟨(mem_iff.mp (h _ b.first_mem)).1, (mem_iff.mp (h _ b.last_mem)).2⟩

theorem eq_of_le (h : b ≤ c) (hheight : b.height = c.height) : b = c := by
  have hanc := h.2
  rw [← hheight] at hanc
  have hself : b.ancestor b.height = b := by simp [ancestor]
  exact hself.symm.trans hanc

instance : PartialOrder Block where
  le_refl b := le_iff_subset.mpr fun _ h => h
  le_trans b c d hb hc := le_iff_subset.mpr fun _ h => mem_of_le hc (mem_of_le hb h)
  le_antisymm _ _ hb hc := eq_of_le hb (Nat.le_antisymm hb.1 hc.1)

def Overlaps (b c : Block) : Prop := b ≤ c ∨ c ≤ b

instance (b c : Block) : Decidable (b.Overlaps c) := inferInstanceAs (Decidable (_ ∨ _))

theorem overlaps_of_mem (hb : a ∈ b) (hc : a ∈ c) : b.Overlaps c := le_or_le hb hc

theorem overlaps_iff : b.Overlaps c ↔ ∃ a, a ∈ b ∧ a ∈ c := by
  constructor
  · rintro (h | h)
    · exact ⟨b.first, b.first_mem, mem_of_le h b.first_mem⟩
    · exact ⟨c.first, mem_of_le h c.first_mem, c.first_mem⟩
  · rintro ⟨a, hb, hc⟩
    exact overlaps_of_mem hb hc

theorem overlaps_comm : b.Overlaps c ↔ c.Overlaps b := or_comm

def half (b : Block) (bit : Bool) : Block := ⟨b.height - 1, 2 * b.index + bit.toNat⟩

theorem mem_half (h : 0 < b.height) (bit : Bool) :
    a ∈ b.half bit ↔ a ∈ b ∧ a / 2 ^ (b.height - 1) % 2 = bit.toNat := by
  have hpow : 2 ^ b.height = 2 ^ (b.height - 1) * 2 := by
    rw [← pow_succ, Nat.sub_add_cancel h]
  rw [mem_def, mem_def, hpow, ← Nat.div_div_eq_div_mul]
  change a / 2 ^ (b.height - 1) = 2 * b.index + bit.toNat ↔ _
  cases bit with
  | false => simp only [Bool.toNat_false]; omega
  | true => simp only [Bool.toNat_true]; omega

theorem mem_half_or (h : 0 < b.height) :
    a ∈ b ↔ a ∈ b.half false ∨ a ∈ b.half true := by
  rw [mem_half h, mem_half h]
  simp only [Bool.toNat_false, Bool.toNat_true]
  have := Nat.mod_two_eq_zero_or_one (a / 2 ^ (b.height - 1))
  tauto

theorem not_mem_half (h : 0 < b.height) {bit : Bool} (ha : a ∈ b.half bit) :
    a ∉ b.half !bit := by
  rw [mem_half h] at ha ⊢
  intro hother
  have := ha.2.symm.trans hother.2
  cases bit <;> simp at this

theorem half_le (h : 0 < b.height) (bit : Bool) : b.half bit ≤ b :=
  le_iff_subset.mpr fun _ ha => ((mem_half h bit).mp ha).1

theorem le_half (hc : c ≤ b) (h : c.height < b.height) : ∃ bit, c ≤ b.half bit := by
  have hpos : 0 < b.height := Nat.zero_lt_of_lt h
  have hheight : c.height ≤ b.height - 1 := Nat.le_sub_one_of_lt h
  rcases (mem_half_or hpos).mp (mem_of_le hc c.first_mem) with hmem | hmem
  · exact ⟨false, le_of_mem c.first_mem hmem hheight⟩
  · exact ⟨true, le_of_mem c.first_mem hmem hheight⟩

/-- What is left of a block, largest part first, when one `levels` below it is taken out. -/
def excludeLoop (removed : Block) : ℕ → Block → List Block
  | 0, _ => []
  | levels + 1, b =>
    if removed ≤ b.half false then b.half true :: excludeLoop removed levels (b.half false)
    else b.half false :: excludeLoop removed levels (b.half true)

def exclude (b removed : Block) : List Block :=
  excludeLoop removed (b.height - removed.height) b

theorem excludeLoop_succ {levels : ℕ} (hle : c ≤ b) (hlevels : b.height = c.height + (levels + 1)) :
    ∃ bit, c ≤ b.half bit ∧
      excludeLoop c (levels + 1) b = b.half (!bit) :: excludeLoop c levels (b.half bit) := by
  rcases le_half hle (by omega) with ⟨bit, hbit⟩
  by_cases hfalse : c ≤ b.half false
  · exact ⟨false, hfalse, if_pos hfalse⟩
  · cases bit with
    | false => exact absurd hbit hfalse
    | true => exact ⟨true, hbit, if_neg hfalse⟩

theorem mem_excludeLoop {levels : ℕ} (hle : c ≤ b) (hlevels : b.height = c.height + levels) :
    (∃ piece ∈ excludeLoop c levels b, a ∈ piece) ↔ a ∈ b ∧ a ∉ c := by
  induction levels generalizing b with
  | zero =>
    have heq : c = b := eq_of_le hle hlevels.symm
    subst heq
    simp [excludeLoop]
  | succ levels ih =>
    have hpos : 0 < b.height := by omega
    rcases excludeLoop_succ hle hlevels with ⟨bit, hbit, hloop⟩
    have hheight : (b.half bit).height = c.height + levels := by
      change b.height - 1 = _
      omega
    have hsplit : a ∈ b ↔ a ∈ b.half (!bit) ∨ a ∈ b.half bit := by
      rw [mem_half_or hpos]
      cases bit with
      | false => exact or_comm
      | true => exact Iff.rfl
    have hout : a ∈ b.half (!bit) → a ∉ c := by
      intro ha hc
      have := not_mem_half hpos (mem_of_le hbit hc)
      exact this ha
    have hrest := ih hbit hheight
    have hin : a ∈ b.half bit → a ∉ b.half (!bit) := fun ha => not_mem_half hpos ha
    rw [hloop, hsplit]
    simp only [List.mem_cons, exists_eq_or_imp, hrest]
    tauto

theorem mem_exclude (h : c ≤ b) : (∃ piece ∈ b.exclude c, a ∈ piece) ↔ a ∈ b ∧ a ∉ c :=
  mem_excludeLoop h (Nat.add_sub_cancel' h.1).symm

theorem le_of_mem_exclude (h : c ≤ b) (hd : d ∈ b.exclude c) : d ≤ b :=
  le_iff_subset.mpr fun _ ha => ((mem_exclude h).mp ⟨d, hd, ha⟩).1

theorem overlaps_of_le (h : b ≤ c) (hd : b.Overlaps d) : c.Overlaps d := by
  rcases overlaps_iff.mp hd with ⟨a, hb, ha⟩
  exact overlaps_of_mem (mem_of_le h hb) ha

def pieces (b : Block) (height : ℕ) : List Block :=
  (List.range (2 ^ (b.height - height))).map fun k =>
    ⟨height, b.index * 2 ^ (b.height - height) + k⟩

theorem mem_pieces {height : ℕ} (h : height ≤ b.height) :
    (∃ piece ∈ b.pieces height, a ∈ piece) ↔ a ∈ b := by
  have hpow : 2 ^ b.height = 2 ^ height * 2 ^ (b.height - height) := by
    rw [← pow_add, Nat.add_sub_cancel' h]
  have hpos : 0 < 2 ^ (b.height - height) := Nat.two_pow_pos _
  have hmem : a ∈ b ↔ a / 2 ^ height / 2 ^ (b.height - height) = b.index := by
    rw [mem_def, hpow, Nat.div_div_eq_div_mul]
  rw [hmem]
  constructor
  · rintro ⟨piece, hpiece, ha⟩
    obtain ⟨k, hk, rfl⟩ := List.mem_map.mp hpiece
    have hindex : a / 2 ^ height = b.index * 2 ^ (b.height - height) + k := ha
    rw [hindex, Nat.add_comm, Nat.add_mul_div_right _ _ hpos,
      Nat.div_eq_of_lt (List.mem_range.mp hk), Nat.zero_add]
  · intro hindex
    refine ⟨_, List.mem_map.mpr ⟨a / 2 ^ height % 2 ^ (b.height - height),
      List.mem_range.mpr (Nat.mod_lt _ hpos), rfl⟩, ?_⟩
    change a / 2 ^ height = _
    have hdiv := Nat.div_add_mod (a / 2 ^ height) (2 ^ (b.height - height))
    rw [hindex, Nat.mul_comm] at hdiv
    exact hdiv.symm

theorem le_of_mem_pieces {height : ℕ} (h : height ≤ b.height) (hc : c ∈ b.pieces height) :
    c ≤ b :=
  le_iff_subset.mpr fun _ ha => (mem_pieces h).mp ⟨c, hc, ha⟩

end Block

end Shapoclyack.Library
