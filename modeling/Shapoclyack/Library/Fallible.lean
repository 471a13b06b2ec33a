import Mathlib.Data.List.Forall2
import Mathlib.Tactic.Common

set_option autoImplicit false

namespace Shapoclyack.Library

variable {α β ε : Type}

theorem Except.bind_eq_ok {value : Except ε α} {f : α → Except ε β} {result : β} :
    value.bind f = .ok result ↔ ∃ inner, value = .ok inner ∧ f inner = .ok result := by
  cases value with
  | error raised => exact iff_of_false (by intro h; cases h) (by rintro ⟨_, h, _⟩; cases h)
  | ok inner =>
    constructor
    · exact fun h => ⟨inner, rfl, h⟩
    · rintro ⟨_, h, hf⟩
      rw [Except.ok.inj h]
      exact hf

theorem Except.map_eq_ok {value : Except ε α} {f : α → β} {result : β} :
    value.map f = .ok result ↔ ∃ inner, value = .ok inner ∧ f inner = result := by
  have hbind : value.map f = value.bind fun inner => .ok (f inner) := by
    cases value <;> rfl
  rw [hbind, Except.bind_eq_ok]
  simp only [Except.ok.injEq]

/-- A pass over a list that fails where one item fails. -/
def gather (f : α → Except ε β) : List α → Except ε (List β)
  | [] => .ok []
  | item :: items => (f item).bind fun result => (gather f items).map (result :: ·)

theorem gather_of_forall {f : α → Except ε β} {g : α → β} {items : List α}
    (h : ∀ item ∈ items, f item = .ok (g item)) : gather f items = .ok (items.map g) := by
  induction items with
  | nil => rfl
  | cons first rest ih =>
    unfold gather
    rw [h first List.mem_cons_self, ih fun item hmem => h item (List.mem_cons_of_mem _ hmem)]
    rfl

theorem gather_mem {f : α → Except ε β} {items : List α} {results : List β}
    (h : gather f items = .ok results) {item : α} (hmem : item ∈ items) :
    ∃ result, f item = .ok result := by
  induction items generalizing results with
  | nil => exact absurd hmem List.not_mem_nil
  | cons first rest ih =>
    obtain ⟨result, hresult, hrest⟩ := Except.bind_eq_ok.mp h
    obtain ⟨others, hothers, -⟩ := Except.map_eq_ok.mp hrest
    rcases List.mem_cons.mp hmem with rfl | hlater
    · exact ⟨result, hresult⟩
    · exact ih hothers hlater

theorem gather_ok [Inhabited β] {f : α → Except ε β} {items : List α} {results : List β}
    (h : gather f items = .ok results) :
    ∃ g : α → β, (∀ item ∈ items, f item = .ok (g item)) ∧ results = items.map g := by
  refine ⟨fun item => (f item).toOption.getD default, ?_⟩
  induction items generalizing results with
  | nil => exact ⟨by simp, (Except.ok.inj h).symm⟩
  | cons first rest ih =>
    obtain ⟨result, hresult, hrest⟩ := Except.bind_eq_ok.mp h
    obtain ⟨others, hothers, rfl⟩ := Except.map_eq_ok.mp hrest
    obtain ⟨hall, rfl⟩ := ih hothers
    refine ⟨List.forall_mem_cons.mpr ⟨?_, hall⟩, ?_⟩
    · dsimp only
      rw [hresult]
      rfl
    · rw [List.map_cons, hresult]
      rfl

theorem foldlM_of_steps {σ : Type} {f : σ → α → Option σ} {holds : List α → σ → Prop}
    {items : List α} {start : σ}
    (hstep : ∀ before item state, item ∈ items → holds before state →
      ∃ next, f state item = some next ∧ holds (before ++ [item]) next)
    (hstart : holds [] start) :
    ∃ result, items.foldlM f start = some result ∧ holds items result := by
  have hrun : ∀ (rest before : List α) (state : σ), (∀ item ∈ rest, item ∈ items) →
      holds before state →
        ∃ result, rest.foldlM f state = some result ∧ holds (before ++ rest) result := by
    intro rest
    induction rest with
    | nil =>
      intro before state _ h
      exact ⟨state, rfl, by rwa [List.append_nil]⟩
    | cons item rest ih =>
      intro before state hrest h
      rcases hstep before item state (hrest item List.mem_cons_self) h with ⟨next, hnext, hkept⟩
      rcases ih (before ++ [item]) next
            (fun other hmem => hrest other (List.mem_cons_of_mem _ hmem))
        hkept with ⟨result, hresult, hend⟩
      refine ⟨result, ?_, ?_⟩
      · rw [List.foldlM_cons, hnext]
        exact hresult
      · rwa [List.append_assoc] at hend
  exact hrun items [] start (fun _ h => h) hstart

theorem exists_mapM {f : α → Option β} {R : α → β → Prop} {items : List α}
    (h : ∀ item ∈ items, ∃ result, f item = some result ∧ R item result) :
    ∃ results, items.mapM f = some results ∧ (∀ item ∈ items, ∃ result ∈ results, R item result) ∧
      ∀ result ∈ results, ∃ item ∈ items, R item result := by
  induction items with
  | nil => exact ⟨[], rfl, by simp, by simp⟩
  | cons first rest ih =>
    rcases h first List.mem_cons_self with ⟨result, hresult, hfirst⟩
    rcases ih fun item hmem => h item (List.mem_cons_of_mem _ hmem) with
      ⟨results, hresults, hitems, hfrom⟩
    refine ⟨result :: results, ?_, ?_, ?_⟩
    · rw [List.mapM_cons, hresult, hresults]
      rfl
    · rw [List.forall_mem_cons]
      refine ⟨⟨result, List.mem_cons_self, hfirst⟩, fun item hmem => ?_⟩
      exact (hitems item hmem).imp fun _ hother => hother.imp_left (List.mem_cons_of_mem _)
    · rw [List.forall_mem_cons]
      refine ⟨⟨first, List.mem_cons_self, hfirst⟩, fun other hmem => ?_⟩
      exact (hfrom other hmem).imp fun _ hitem => hitem.imp_left (List.mem_cons_of_mem _)

/-- Passes that agree on matched items come to the same. -/
theorem gather_forall₂ {γ : Type} {R : α → β → Prop} {f : α → Except ε γ}
    {g : β → Except ε γ} {items : List α} {others : List β} (h : List.Forall₂ R items others)
    (hsame : ∀ item other, R item other → f item = g other) :
    gather f items = gather g others := by
  induction h with
  | nil => rfl
  | cons hhead _ ih =>
    unfold gather
    rw [hsame _ _ hhead, ih]

/-- The items that a fallible test keeps. -/
def keep (test : α → Except ε Bool) : List α → Except ε (List α)
  | [] => .ok []
  | item :: items =>
    (test item).bind fun held => (keep test items).map fun kept =>
      if held then item :: kept else kept

theorem mem_keep {test : α → Except ε Bool} {items kept : List α} (h : keep test items = .ok kept)
    {item : α} : item ∈ kept ↔ item ∈ items ∧ test item = .ok true := by
  induction items generalizing kept with
  | nil =>
    obtain rfl := Except.ok.inj h
    simp
  | cons first rest ih =>
    obtain ⟨held, hheld, hrest⟩ := Except.bind_eq_ok.mp h
    obtain ⟨others, hothers, rfl⟩ := Except.map_eq_ok.mp hrest
    have hold := ih hothers
    by_cases hitem : item = first
    · subst hitem
      cases held with
      | false =>
        refine iff_of_false (fun hmem => ?_) fun hmem => ?_
        · have := (hold.mp hmem).2
          rw [hheld] at this
          cases this
        · rw [hheld] at hmem
          cases hmem.2
      | true => simp [hheld]
    · cases held <;> simp [hitem, hold]

theorem keep_again {test : α → Except ε Bool} {items kept : List α}
    (h : keep test items = .ok kept) : keep test kept = .ok kept := by
  have hall : ∀ item ∈ kept, test item = .ok true := fun item hmem => ((mem_keep h).mp hmem).2
  clear h
  induction kept with
  | nil => rfl
  | cons first rest ih =>
    unfold keep
    rw [hall first List.mem_cons_self, ih fun item hmem => hall item (List.mem_cons_of_mem _ hmem)]
    rfl

theorem keep_forall₂ {γ : Type} {R : α → γ → Prop} {test : α → Except ε Bool}
    {test' : γ → Except ε Bool} {items : List α} {items' : List γ} {kept : List α}
    (hitems : List.Forall₂ R items items')
    (hsame : ∀ item item', R item item' → test item = test' item')
    (h : keep test items = .ok kept) :
    ∃ kept', keep test' items' = .ok kept' ∧ List.Forall₂ R kept kept' := by
  induction hitems generalizing kept with
  | nil =>
    obtain rfl := Except.ok.inj h
    exact ⟨[], rfl, .nil⟩
  | cons hfirst _ ih =>
    obtain ⟨held, hheld, hrest⟩ := Except.bind_eq_ok.mp h
    obtain ⟨others, hothers, rfl⟩ := Except.map_eq_ok.mp hrest
    obtain ⟨others', hothers', hmatched⟩ := ih hothers
    rw [hsame _ _ hfirst] at hheld
    unfold keep
    rw [hheld, hothers']
    cases held with
    | false => exact ⟨others', rfl, hmatched⟩
    | true => exact ⟨_, rfl, .cons hfirst hmatched⟩

end Shapoclyack.Library
