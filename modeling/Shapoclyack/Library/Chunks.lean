import Mathlib.Data.List.Basic
import Mathlib.Tactic.Common

set_option autoImplicit false

namespace Shapoclyack.Library

section Chunks

variable {α : Type} {size : ℕ} {items : List α}

def chunkAt (size : ℕ) (items : List α) (i : ℕ) : List α := (items.drop (i * size)).take size

/-- A list cut into parts of one size, the last of what is left. -/
def chunks (size : ℕ) (items : List α) : List (List α) :=
  (List.range ((items.length + size - 1) / size)).map (chunkAt size items)

theorem mem_chunkAt (hsize : 0 < size) {i : ℕ} {x : α} :
    x ∈ chunkAt size items i ↔ ∃ place, items[place]? = some x ∧ place / size = i := by
  unfold chunkAt
  rw [List.mem_iff_getElem?]
  constructor
  · rintro ⟨k, hk⟩
    rw [List.getElem?_take] at hk
    split_ifs at hk with hlt
    · rw [List.getElem?_drop] at hk
      refine ⟨i * size + k, hk, ?_⟩
      rw [Nat.add_comm, Nat.add_mul_div_right _ _ hsize, Nat.div_eq_of_lt hlt, Nat.zero_add]
  · rintro ⟨place, hplace, rfl⟩
    refine ⟨place % size, ?_⟩
    have hdiv := Nat.div_add_mod place size
    rw [List.getElem?_take, if_pos (Nat.mod_lt place hsize), List.getElem?_drop,
      Nat.mul_comm (place / size), hdiv]
    exact hplace

theorem chunks_getElem? (hsize : 0 < size) {i : ℕ} {part : List α} :
    (chunks size items)[i]? = some part ↔
      i * size < items.length ∧ part = chunkAt size items i := by
  have hbound : i < (items.length + size - 1) / size ↔ i * size < items.length := by
    rw [Nat.lt_iff_add_one_le, Nat.le_div_iff_mul_le hsize, Nat.add_mul, Nat.one_mul]
    omega
  unfold chunks
  rw [List.getElem?_map]
  by_cases hi : i < (items.length + size - 1) / size
  · rw [List.getElem?_range hi, Option.map_some, Option.some.injEq]
    exact ⟨fun h => ⟨hbound.mp hi, h.symm⟩, fun h => h.2.symm⟩
  · have hnone : (List.range ((items.length + size - 1) / size))[i]? = none :=
      List.getElem?_eq_none (by rw [List.length_range]; omega)
    rw [hnone]
    constructor
    · intro h
      cases h
    · intro h
      exact absurd (hbound.mpr h.1) hi

theorem mem_chunks (hsize : 0 < size) {x : α} :
    (∃ part ∈ chunks size items, x ∈ part) ↔ x ∈ items := by
  constructor
  · rintro ⟨part, hpart, hx⟩
    obtain ⟨i, _, rfl⟩ := List.mem_map.mp hpart
    obtain ⟨place, hplace, _⟩ := (mem_chunkAt hsize).mp hx
    exact List.mem_of_getElem? hplace
  · intro hx
    obtain ⟨place, hplace⟩ := List.mem_iff_getElem?.mp hx
    have hlt : place < items.length := (List.getElem?_eq_some_iff.mp hplace).1
    have hle : place / size * size ≤ place := Nat.div_mul_le_self place size
    have hget := (@chunks_getElem? α size items hsize _ _).mpr
      ⟨Nat.lt_of_le_of_lt hle hlt, rfl⟩
    exact ⟨_, List.mem_of_getElem? hget, (mem_chunkAt hsize).mpr ⟨place, hplace, rfl⟩⟩

theorem flatten_chunkAt (count : ℕ) :
    ((List.range count).map (chunkAt size items)).flatten = items.take (count * size) := by
  induction count with
  | zero => simp
  | succ count ih =>
    rw [List.range_succ, List.map_append, List.flatten_append, ih, List.map_singleton,
      List.flatten_singleton, Nat.succ_mul, List.take_add]
    rfl

theorem flatten_chunks (hsize : 0 < size) : (chunks size items).flatten = items := by
  have hcover : items.length ≤ (items.length + size - 1) / size * size := by
    have hdiv := Nat.div_add_mod (items.length + size - 1) size
    have hmod := Nat.mod_lt (items.length + size - 1) hsize
    rw [Nat.mul_comm] at hdiv
    omega
  unfold chunks
  rw [flatten_chunkAt, List.take_of_length_le hcover]

theorem length_of_mem_chunks (hsize : 0 < size) {part : List α} (h : part ∈ chunks size items) :
    part ≠ [] ∧ part.length ≤ size := by
  obtain ⟨i, hi⟩ := List.mem_iff_getElem?.mp h
  obtain ⟨hlt, rfl⟩ := (chunks_getElem? hsize).mp hi
  have hlength : (chunkAt size items i).length = min size (items.length - i * size) := by
    unfold chunkAt
    rw [List.length_take, List.length_drop]
  refine ⟨fun hnil => ?_, by omega⟩
  rw [hnil, List.length_nil] at hlength
  omega

end Chunks

end Shapoclyack.Library
