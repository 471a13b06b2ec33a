import Mathlib.Data.List.Count
import Mathlib.Tactic.Ring
import Shapoclyack.Library.KeyedTable

set_option autoImplicit false

namespace Shapoclyack.Library

variable {α κ : Type*} [DecidableEq κ] {key : α → κ}

def Table.put (t : Table key) (a : α) : Table key :=
  t.modify (fun b => if key b = key a then a else b) (by
    intro b
    split_ifs with h
    · exact h.symm
    · rfl)

theorem Table.get_put (t : Table key) (a : α) (k : κ) :
    (t.put a).get k = if k = key a then (t.get k).map (fun _ => a) else t.get k := by
  unfold Table.put
  rw [Table.get_modify]
  cases h : t.get k with
  | none => simp
  | some b =>
    have hkey := ((t.get_eq_some_iff k b).mp h).2
    by_cases hk : k = key a
    · simp [hkey, hk]
    · simp [hkey, hk]

theorem Table.mem_put {t : Table key} {a c : α} (h : c ∈ (t.put a).rows) :
    c = a ∨ (c ∈ t.rows ∧ key c ≠ key a) := by
  obtain ⟨b, hb, rfl⟩ := List.mem_map.mp h
  split_ifs with hkey
  · exact .inl rfl
  · exact .inr ⟨hb, hkey⟩

theorem Table.mem_remove {t : Table key} {k : κ} {c : α} (h : c ∈ (t.remove k).rows) :
    c ∈ t.rows ∧ key c ≠ k := by
  obtain ⟨hmem, hkey⟩ := List.mem_filter.mp h
  exact ⟨hmem, by simpa using hkey⟩

def Table.keep (t : Table key) (p : α → Bool) : Table key :=
  ⟨t.rows.filter p, t.unique.sublist (List.Sublist.map key List.filter_sublist)⟩

def Table.count (t : Table key) (p : α → Bool) : ℕ := t.rows.countP p

omit [DecidableEq κ] in
@[simp]
theorem Table.count_empty (p : α → Bool) : (Table.empty key).count p = 0 := rfl

theorem Table.count_append (t : Table key) (p : α → Bool) (a : α) (h : t.get (key a) = none) :
    (t.append a h).count p = t.count p + if p a = true then 1 else 0 := by
  simp [Table.count, Table.append, List.countP_append, List.countP_singleton]

theorem countP_replace (p : α → Bool) {rows : List α} (unique : (rows.map key).Nodup) {a b : α}
    (hb : b ∈ rows) (hkey : key b = key a) :
    (rows.map fun c => if key c = key a then a else c).countP p + (if p b = true then 1 else 0) =
      rows.countP p + if p a = true then 1 else 0 := by
  induction rows with
  | nil => simp at hb
  | cons c rows ih =>
    rw [List.map_cons, List.nodup_cons] at unique
    rw [List.map_cons, List.countP_cons, List.countP_cons]
    rcases List.mem_cons.mp hb with rfl | hlater
    · have hothers : rows.map (fun c => if key c = key a then a else c) = rows := by
        refine (List.map_congr_left fun c hc => if_neg fun h => ?_).trans (List.map_id rows)
        exact unique.1 (hkey.trans h.symm ▸ List.mem_map_of_mem hc)
      rw [hothers, if_pos hkey]
      omega
    · have hne : key c ≠ key a := by
        intro h
        exact unique.1 (h.trans hkey.symm ▸ List.mem_map_of_mem hlater)
      have hrest := ih unique.2 hlater
      rw [if_neg hne]
      omega

theorem Table.count_put (t : Table key) (p : α → Bool) {a b : α} (h : t.get (key a) = some b) :
    (t.put a).count p + (if p b = true then 1 else 0) =
      t.count p + if p a = true then 1 else 0 := by
  obtain ⟨hmem, hkey⟩ := (t.get_eq_some_iff (key a) b).mp h
  exact countP_replace p t.unique hmem hkey

end Shapoclyack.Library
