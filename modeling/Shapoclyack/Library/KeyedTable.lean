import Mathlib.Data.List.Nodup
import Mathlib.Tactic.Basic

set_option autoImplicit false

namespace Shapoclyack.Library

variable {α κ : Type*} [DecidableEq κ] {key : α → κ}

/-- The rows of a relation under a unique constraint on `key`. -/
structure Table {α κ : Type*} (key : α → κ) where
  rows : List α
  unique : (rows.map key).Nodup

def Table.empty {α κ : Type*} (key : α → κ) : Table key :=
  ⟨[], List.nodup_nil⟩

def Table.get (t : Table key) (k : κ) : Option α :=
  t.rows.find? (fun a => decide (key a = k))

omit [DecidableEq κ] in
theorem eq_of_key_eq {rows : List α} (unique : (rows.map key).Nodup) {a b : α}
    (ha : a ∈ rows) (hb : b ∈ rows) (h : key a = key b) : a = b :=
  List.inj_on_of_nodup_map unique ha hb h

theorem Table.get_eq_some_iff (t : Table key) (k : κ) (a : α) :
    t.get k = some a ↔ a ∈ t.rows ∧ key a = k := by
  unfold Table.get
  constructor
  · intro h
    exact ⟨List.mem_of_find?_eq_some h, by simpa using List.find?_some h⟩
  · rintro ⟨hmem, hkey⟩
    cases hfind : t.rows.find? (fun b => decide (key b = k)) with
    | none =>
      have hnone := List.find?_eq_none.mp hfind a hmem
      simp [hkey] at hnone
    | some b =>
      have hb : b ∈ t.rows := List.mem_of_find?_eq_some hfind
      have hkb : key b = k := by simpa using List.find?_some hfind
      rw [eq_of_key_eq t.unique hb hmem (hkb.trans hkey.symm)]

theorem Table.get_eq_none_iff (t : Table key) (k : κ) :
    t.get k = none ↔ ∀ a ∈ t.rows, key a ≠ k := by
  simp [Table.get]

theorem Table.get_self (t : Table key) {a : α} (ha : a ∈ t.rows) : t.get (key a) = some a :=
  (t.get_eq_some_iff (key a) a).mpr ⟨ha, rfl⟩

def Table.modify (t : Table key) (f : α → α) (hf : ∀ a, key (f a) = key a) : Table key :=
  ⟨t.rows.map f, by
    have hcomp : key ∘ f = key := funext hf
    rw [List.map_map, hcomp]
    exact t.unique⟩

omit [DecidableEq κ] in
@[simp]
theorem Table.modify_rows (t : Table key) (f : α → α) (hf : ∀ a, key (f a) = key a) :
    (t.modify f hf).rows = t.rows.map f := rfl

theorem Table.get_modify (t : Table key) (f : α → α) (hf : ∀ a, key (f a) = key a) (k : κ) :
    (t.modify f hf).get k = (t.get k).map f := by
  unfold Table.get
  rw [Table.modify_rows, List.find?_map]
  have hkeys : (fun a => decide (key a = k)) ∘ f = fun a => decide (key a = k) := by
    funext a
    simp [hf]
  rw [hkeys]

/-- Rewrite the row holding `k` and leave the others alone. -/
def Table.modifyAt (t : Table key) (k : κ) (f : α → α) (hf : ∀ a, key (f a) = key a) :
    Table key :=
  t.modify (fun a => if key a = k then f a else a) (by intro a; split_ifs <;> simp [hf])

theorem Table.get_modifyAt_self (t : Table key) (k : κ) (f : α → α)
    (hf : ∀ a, key (f a) = key a) : (t.modifyAt k f hf).get k = (t.get k).map f := by
  unfold Table.modifyAt
  rw [Table.get_modify]
  cases h : t.get k with
  | none => rfl
  | some a => simp [((t.get_eq_some_iff k a).mp h).2]

theorem Table.get_modifyAt_of_ne (t : Table key) {k j : κ} (f : α → α)
    (hf : ∀ a, key (f a) = key a) (h : j ≠ k) : (t.modifyAt k f hf).get j = t.get j := by
  unfold Table.modifyAt
  rw [Table.get_modify]
  cases hj : t.get j with
  | none => rfl
  | some a => simp [((t.get_eq_some_iff j a).mp hj).2, h]

def Table.append (t : Table key) (a : α) (h : t.get (key a) = none) : Table key :=
  ⟨t.rows ++ [a], by
    rw [List.map_append, List.nodup_append]
    refine ⟨t.unique, by simp, ?_⟩
    intro x hx y hy
    obtain ⟨b, hb, rfl⟩ := List.mem_map.mp hx
    simp only [List.map_cons, List.map_nil, List.mem_singleton] at hy
    rw [hy]
    exact (t.get_eq_none_iff (key a)).mp h b hb⟩

theorem Table.get_append (t : Table key) (a : α) (h : t.get (key a) = none) (k : κ) :
    (t.append a h).get k = if key a = k then some a else t.get k := by
  unfold Table.append Table.get
  rw [List.find?_append]
  by_cases hk : key a = k
  · subst hk
    rw [Table.get] at h
    simp [h]
  · simp [hk]

/-- One write under a key: a row made when the key is free, an update when it is held. -/
structure Change {α κ : Type*} (key : α → κ) where
  target : κ
  fresh : α
  update : α → α
  fresh_key : key fresh = target
  update_key : ∀ a, key (update a) = key a

def Change.result (c : Change key) : Option α → α
  | none => c.fresh
  | some a => c.update a

/-- Insert-or-update under the change's key. -/
def Table.apply (t : Table key) (c : Change key) : Table key :=
  if h : t.get c.target = none then
    t.append c.fresh (by rw [c.fresh_key]; exact h)
  else
    t.modifyAt c.target c.update c.update_key

theorem Table.get_apply (t : Table key) (c : Change key) (k : κ) :
    (t.apply c).get k = if c.target = k then some (c.result (t.get k)) else t.get k := by
  unfold Table.apply
  split_ifs with hfree hk hk
  · subst hk
    rw [Table.get_append, if_pos c.fresh_key, hfree, Change.result]
  · rw [Table.get_append, if_neg (by rw [c.fresh_key]; exact hk)]
  · subst hk
    rw [Table.get_modifyAt_self]
    cases h : t.get c.target with
    | none => exact absurd h hfree
    | some a => rfl
  · exact t.get_modifyAt_of_ne c.update c.update_key (fun h => hk h.symm)

def Table.applyAll (t : Table key) (cs : List (Change key)) : Table key :=
  cs.foldl Table.apply t

/-- A sequence of changes acts on one key as the changes under that key alone. -/
theorem Table.get_applyAll (t : Table key) (cs : List (Change key)) (k : κ) :
    (t.applyAll cs).get k =
      (cs.filter (fun c => decide (c.target = k))).foldl
        (fun row c => some (c.result row)) (t.get k) := by
  unfold Table.applyAll
  induction cs generalizing t with
  | nil => rfl
  | cons c cs ih =>
    rw [List.foldl_cons, ih, Table.get_apply]
    by_cases hk : c.target = k
    · rw [List.filter_cons_of_pos (by simpa using hk), List.foldl_cons, if_pos hk]
    · rw [List.filter_cons_of_neg (by simpa using hk), if_neg hk]

omit [DecidableEq κ] in
theorem foldl_result_some (cs : List (Change key)) (a : α) :
    cs.foldl (fun row c => some (c.result row)) (some a) =
      some (cs.foldl (fun row c => c.update row) a) := by
  induction cs generalizing a with
  | nil => rfl
  | cons c cs ih => exact ih (c.update a)

section Every

def Table.All (P : α → Prop) (t : Table key) : Prop := ∀ a ∈ t.rows, P a

variable {P : α → Prop} {t : Table key}

omit [DecidableEq κ] in
theorem Table.all_empty : (Table.empty key).All P := by
  intro a ha
  simp [Table.empty] at ha

theorem Table.all_iff_get : t.All P ↔ ∀ k a, t.get k = some a → P a := by
  constructor
  · intro h k a hget
    exact h a ((t.get_eq_some_iff k a).mp hget).1
  · intro h a ha
    exact h (key a) a (t.get_self ha)

omit [DecidableEq κ] in
theorem Table.All.modify {f : α → α} {hf : ∀ a, key (f a) = key a} (h : t.All P)
    (keeps : ∀ a, P a → P (f a)) : (t.modify f hf).All P := by
  intro a ha
  obtain ⟨b, hb, rfl⟩ := List.mem_map.mp ha
  exact keeps b (h b hb)

theorem Table.All.modifyAt {k : κ} {f : α → α} {hf : ∀ a, key (f a) = key a} (h : t.All P)
    (keeps : ∀ a, key a = k → P a → P (f a)) : (t.modifyAt k f hf).All P := by
  refine h.modify fun a ha => ?_
  split_ifs with hk
  · exact keeps a hk ha
  · exact ha

theorem Table.All.append {a : α} {hfree : t.get (key a) = none} (h : t.All P) (ha : P a) :
    (t.append a hfree).All P := by
  intro b hb
  rcases List.mem_append.mp hb with hold | hnew
  · exact h b hold
  · rw [List.mem_singleton.mp hnew]
    exact ha

theorem Table.All.apply {c : Change key} (h : t.All P) (fresh : P c.fresh)
    (update : ∀ a, key a = c.target → P a → P (c.update a)) : (t.apply c).All P := by
  unfold Table.apply
  split_ifs
  · exact h.append fresh
  · exact h.modifyAt update

theorem Table.All.applyAll {cs : List (Change key)} (h : t.All P)
    (fresh : ∀ c ∈ cs, P c.fresh)
    (update : ∀ c ∈ cs, ∀ a, key a = c.target → P a → P (c.update a)) :
    (t.applyAll cs).All P :=
  List.foldlRecOn cs Table.apply (motive := fun u => u.All P) h
    fun _ hu c hc => hu.apply (fresh c hc) (update c hc)

end Every

section Relocation

def Table.remove (t : Table key) (k : κ) : Table key :=
  ⟨t.rows.filter (fun a => decide (key a ≠ k)),
    List.Nodup.sublist (List.Sublist.map key List.filter_sublist) t.unique⟩

theorem Table.get_remove (t : Table key) (k j : κ) :
    (t.remove k).get j = if j = k then none else t.get j := by
  unfold Table.remove Table.get
  rw [List.find?_filter]
  split_ifs with hk
  · subst hk
    rw [List.find?_eq_none]
    intro a _
    simp
  · congr 1
    funext a
    by_cases hj : key a = j
    · simp [hj, hk]
    · simp [hj]

/-- How rows are moved to new keys, and what becomes of a row already there. -/
structure Relocation {α κ : Type*} (key : α → κ) where
  move : α → α
  meet : α → α → α
  meet_key : ∀ a b, key b = key (move a) → key (meet a b) = key b

def Relocation.land (r : Relocation key) (held : Option α) (a : α) : α :=
  match held with
  | none => r.move a
  | some b => r.meet a b

def Relocation.met (r : Relocation key) (a b : α) : α :=
  if key b = key (r.move a) then r.meet a b else b

theorem Relocation.met_key (r : Relocation key) (a b : α) : key (r.met a b) = key b := by
  unfold Relocation.met
  split_ifs with h
  · exact r.meet_key a b h
  · rfl

def Relocation.insertion (r : Relocation key) (a : α) : Change key where
  target := key (r.move a)
  fresh := r.move a
  update := r.met a
  fresh_key := rfl
  update_key := r.met_key a

/-- Move one row: into a free key, or into the row that holds it. -/
def Table.relocate (t : Table key) (r : Relocation key) (a : α) : Table key :=
  match t.get (key (r.move a)) with
  | none => (t.remove (key a)).apply (r.insertion a)
  | some _ => (t.modifyAt (key (r.move a)) (r.met a) (r.met_key a)).remove (key a)

theorem Table.get_relocate (t : Table key) (r : Relocation key) {a : α}
    (hmoves : key (r.move a) ≠ key a) (j : κ) :
    (t.relocate r a).get j =
      if j = key (r.move a) then some (r.land (t.get j) a)
      else if j = key a then none else t.get j := by
  unfold Table.relocate
  split
  · next hfree =>
    rw [Table.get_apply, Table.get_remove]
    by_cases hj : j = key (r.move a)
    · subst hj
      rw [if_pos rfl, if_pos (by rfl), if_neg hmoves, hfree]
      rfl
    · rw [if_neg hj, if_neg (fun h => hj h.symm)]
  · next held hheld =>
    rw [Table.get_remove]
    by_cases hj : j = key (r.move a)
    · subst hj
      have hkey := ((t.get_eq_some_iff _ _).mp hheld).2
      rw [if_neg hmoves, if_pos rfl, Table.get_modifyAt_self, hheld, Option.map_some,
        Relocation.met, if_pos hkey]
      rfl
    · rw [if_neg hj, Table.get_modifyAt_of_ne t (r.met a) (r.met_key a) hj]

/-- Rows moved one after another, none of them to where another still is, leave each new key with
the row that held it, met by the rows that came to it in order. -/
theorem Table.get_foldl_relocate (r : Relocation key) (f : Table key → κ → Table key)
    (as : List α) (t : Table key)
    (hf : ∀ a ∈ as, ∀ u : Table key, u.get (key a) = some a → f u (key a) = u.relocate r a)
    (hmem : ∀ a ∈ as, t.get (key a) = some a) (hnodup : (as.map key).Nodup)
    (hapart : ∀ a ∈ as, ∀ b ∈ as, key (r.move a) ≠ key b) (j : κ) :
    ((as.map key).foldl f t).get j =
      if j ∈ as.map key then none
      else (as.filter fun a => decide (key (r.move a) = j)).foldl
        (fun held a => some (r.land held a)) (t.get j) := by
  induction as generalizing t with
  | nil => simp
  | cons a as ih =>
    have ha : a ∈ a :: as := List.mem_cons_self
    have hstep : f t (key a) = t.relocate r a := hf a ha t (hmem a ha)
    have hget := t.get_relocate r (hapart a ha a ha)
    rw [List.map_cons, List.nodup_cons] at hnodup
    have hstay : ∀ b ∈ as, (t.relocate r a).get (key b) = some b := by
      intro b hb
      have hother : key b ≠ key a := fun h => hnodup.1 (h ▸ List.mem_map_of_mem hb)
      rw [hget, if_neg (fun h => hapart a ha b (List.mem_cons_of_mem a hb) h.symm), if_neg hother]
      exact hmem b (List.mem_cons_of_mem a hb)
    rw [List.map_cons, List.foldl_cons, hstep,
      ih (t.relocate r a) (fun b hb => hf b (List.mem_cons_of_mem a hb)) hstay hnodup.2
        (fun b hb c hc =>
          hapart b (List.mem_cons_of_mem a hb) c (List.mem_cons_of_mem a hc)), hget]
    by_cases hold : j = key a
    · -- the row's own key: emptied now, and nothing comes to it later
      subst hold
      have hnone : (as.filter fun b => decide (key (r.move b) = key a)) = [] := by
        rw [List.filter_eq_nil_iff]
        intro b hb
        simpa using hapart b (List.mem_cons_of_mem a hb) a ha
      rw [if_neg hnodup.1, hnone, if_neg (fun h => hapart a ha a ha h.symm), if_pos rfl,
        if_pos List.mem_cons_self]
      rfl
    · have hmemiff : j ∈ key a :: as.map key ↔ j ∈ as.map key := by simp [hold]
      simp only [hmemiff]
      split_ifs with hin hnew
      · rfl
      · rw [List.filter_cons_of_pos (by simpa using hnew.symm), List.foldl_cons]
      · rw [List.filter_cons_of_neg (by simpa using fun h => hnew h.symm)]

theorem Table.foldl_relocate_lands (r : Relocation key) (f : Table key → κ → Table key)
    (as : List α) (t : Table key)
    (hf : ∀ a ∈ as, ∀ u : Table key, u.get (key a) = some a → f u (key a) = u.relocate r a)
    (hmem : ∀ a ∈ as, t.get (key a) = some a) (hnodup : (as.map key).Nodup)
    (hapart : ∀ a ∈ as, ∀ b ∈ as, key (r.move a) ≠ key b) {a : α} (ha : a ∈ as) :
    ∃ b, ((as.map key).foldl f t).get (key (r.move a)) = some b := by
  have hleft : key (r.move a) ∉ as.map key := by
    intro hin
    obtain ⟨b, hb, hkey⟩ := List.mem_map.mp hin
    exact hapart a ha b hb hkey.symm
  have hcame : a ∈ as.filter fun b => decide (key (r.move b) = key (r.move a)) :=
    List.mem_filter.mpr ⟨ha, by simp⟩
  rw [Table.get_foldl_relocate r f as t hf hmem hnodup hapart, if_neg hleft]
  generalize t.get (key (r.move a)) = held
  obtain ⟨first, rest, hsplit⟩ := List.exists_cons_of_ne_nil (List.ne_nil_of_mem hcame)
  rw [hsplit, List.foldl_cons]
  generalize r.land held first = b
  clear hsplit
  induction rest generalizing b with
  | nil => exact ⟨b, rfl⟩
  | cons c rest ih => exact ih (r.land (some b) c)

theorem Table.get_foldl_modifyAt (f : α → α) (hf : ∀ a, key (f a) = key a)
    (g : Table key → κ → Table key) (ks : List κ) (t : Table key)
    (hg : ∀ k ∈ ks, ∀ u : Table key, u.get k = t.get k → g u k = u.modifyAt k f hf)
    (hnodup : ks.Nodup) (j : κ) :
    (ks.foldl g t).get j = if j ∈ ks then (t.get j).map f else t.get j := by
  induction ks generalizing t with
  | nil => simp
  | cons k ks ih =>
    rw [List.nodup_cons] at hnodup
    have hstep : g t k = t.modifyAt k f hf := hg k List.mem_cons_self t rfl
    have hlater : ∀ l ∈ ks, ∀ u : Table key, u.get l = (t.modifyAt k f hf).get l →
        g u l = u.modifyAt l f hf := by
      intro l hl u hu
      have hne : l ≠ k := fun h => hnodup.1 (h ▸ hl)
      rw [Table.get_modifyAt_of_ne t f hf hne] at hu
      exact hg l (List.mem_cons_of_mem k hl) u hu
    rw [List.foldl_cons, hstep, ih (t.modifyAt k f hf) hlater hnodup.2]
    by_cases hk : j = k
    · subst hk
      rw [if_neg hnodup.1, if_pos List.mem_cons_self, Table.get_modifyAt_self]
    · rw [Table.get_modifyAt_of_ne t f hf hk]
      simp [hk]

def Table.relocateKey (r : Relocation key) (t : Table key) (k : κ) : Table key :=
  match t.get k with
  | none => t
  | some a => t.relocate r a

theorem Table.relocateKey_of_get (r : Relocation key) (a : α) (t : Table key)
    (h : t.get (key a) = some a) : t.relocateKey r (key a) = t.relocate r a := by
  unfold Table.relocateKey
  rw [h]

end Relocation

section Review

omit [DecidableEq κ] in
theorem keys_filterMap_sublist {f : α → Option α} (hf : ∀ a b, f a = some b → key b = key a)
    (rows : List α) : ((rows.filterMap f).map key).Sublist (rows.map key) := by
  induction rows with
  | nil => exact List.Sublist.refl _
  | cons a rows ih =>
    cases h : f a with
    | none =>
      rw [List.filterMap_cons_none h]
      exact ih.cons (key a)
    | some b =>
      rw [List.filterMap_cons_some h, List.map_cons, List.map_cons, hf a b h]
      exact ih.cons_cons (key a)

theorem Table.keys_get_sublist (t : Table key) (ks : List κ) :
    ((ks.filterMap t.get).map key).Sublist ks := by
  induction ks with
  | nil => exact List.Sublist.refl _
  | cons k ks ih =>
    cases h : t.get k with
    | none =>
      rw [List.filterMap_cons_none h]
      exact ih.cons k
    | some a =>
      rw [List.filterMap_cons_some h, List.map_cons, ((t.get_eq_some_iff k a).mp h).2]
      exact ih.cons_cons k

def Table.review (t : Table key) (f : α → Option α)
    (hf : ∀ a b, f a = some b → key b = key a) : Table key :=
  ⟨t.rows.filterMap f, t.unique.sublist (keys_filterMap_sublist hf t.rows)⟩

def Table.appendAll (t : Table key) (as : List α) (unique : (as.map key).Nodup)
    (free : ∀ a ∈ as, t.get (key a) = none) : Table key :=
  ⟨t.rows ++ as, by
    rw [List.map_append, List.nodup_append]
    refine ⟨t.unique, unique, ?_⟩
    intro x hx y hy
    have ⟨a, ha, hax⟩ := List.mem_map.mp hx
    have ⟨b, hb, hby⟩ := List.mem_map.mp hy
    rw [← hax, ← hby]
    exact (t.get_eq_none_iff (key b)).mp (free b hb) a ha⟩

end Review

end Shapoclyack.Library
