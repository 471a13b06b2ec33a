import Mathlib.Order.Basic
import Mathlib.Order.Nat
import Mathlib.Tactic.Basic
import Mathlib.Tactic.Push

set_option autoImplicit false

namespace Shapoclyack.Library

variable {σ ι : Type*}

/-- A finite run of a labelled step relation, with the labels it takes, oldest first. -/
inductive Runs (step : σ → ι → σ → Prop) : σ → List ι → σ → Prop where
  | refl (s : σ) : Runs step s [] s
  | next {s u v : σ} {i : ι} {is : List ι} (h : step s i u)
      (tail : Runs step u is v) : Runs step s (i :: is) v

variable {step : σ → ι → σ → Prop}

theorem Runs.one {s u : σ} {i : ι} (h : step s i u) : Runs step s [i] u :=
  .next h (.refl u)

theorem Runs.eq_of_nil {s v : σ} (h : Runs step s [] v) : v = s := by
  cases h
  rfl

theorem Runs.of_one {s v : σ} {i : ι} (h : Runs step s [i] v) : step s i v := by
  obtain _ | ⟨hstep, htail⟩ := h
  rw [htail.eq_of_nil]
  exact hstep

theorem Runs.trans {s u v : σ} {is js : List ι}
    (h : Runs step s is u) (h' : Runs step u js v) : Runs step s (is ++ js) v := by
  induction h with
  | refl _ => simpa using h'
  | next hs _ ih => exact .next hs (ih h')

/-- A property every step keeps holds at the end of a run that starts with it. -/
theorem Runs.invariant (I : σ → Prop)
    (keeps : ∀ s i u, I s → step s i u → I u)
    {s v : σ} {is : List ι} (h : Runs step s is v) (hs : I s) : I v := by
  induction h with
  | refl _ => exact hs
  | next hstep _ ih => exact ih (keeps _ _ _ hs hstep)

/-- A reflexive and transitive relation that every step respects relates the ends of a run. -/
theorem Runs.relates (R : σ → σ → Prop) (refl : ∀ s, R s s)
    (trans : ∀ s u v, R s u → R u v → R s v)
    (keeps : ∀ s i u, step s i u → R s u)
    {s v : σ} {is : List ι} (h : Runs step s is v) : R s v := by
  induction h with
  | refl s => exact refl s
  | next hstep _ ih => exact trans _ _ _ (keeps _ _ _ hstep) ih

theorem Runs.mono {step' : σ → ι → σ → Prop} (hle : ∀ s i u, step s i u → step' s i u)
    {s v : σ} {is : List ι} (h : Runs step s is v) : Runs step' s is v := by
  induction h with
  | refl s => exact .refl s
  | next hstep _ ih => exact .next (hle _ _ _ hstep) ih

/-- A run whose every step meets a side condition on the state it starts from. -/
def guarded (step : σ → ι → σ → Prop) (ok : σ → ι → Prop) (s : σ) (i : ι) (u : σ) : Prop :=
  ok s i ∧ step s i u

theorem Runs.of_guarded {ok : σ → ι → Prop} {s v : σ} {is : List ι}
    (h : Runs (guarded step ok) s is v) : Runs step s is v :=
  h.mono fun _ _ _ hstep => hstep.2

theorem Runs.labelled {s v : σ} {is : List ι} (h : Runs step s is v) :
    Runs (guarded step fun _ i => i ∈ is) s is v := by
  induction h with
  | refl s => exact .refl s
  | next hstep _ ih =>
    exact .next ⟨List.mem_cons_self, hstep⟩
      (ih.mono fun _ _ _ hlater => ⟨List.mem_cons_of_mem _ hlater.1, hlater.2⟩)

/-- A run that ends where `P` holds has kept `P` all along, or took a last step into it. -/
theorem Runs.last_entry (P : σ → Prop) {s v : σ} {is : List ι} (h : Runs step s is v)
    (hv : P v) :
    (P s ∧ Runs (fun a j b => step a j b ∧ P b) s is v) ∨
      ∃ before i after u w, is = before ++ i :: after ∧ Runs step s before u ∧ ¬ P u ∧
        step u i w ∧ P w ∧ Runs (fun a j b => step a j b ∧ P b) w after v := by
  induction h with
  | refl s => exact .inl ⟨hv, .refl s⟩
  | @next s u v i is hstep _ ih =>
    rcases ih hv with ⟨hu, hstays⟩ | ⟨before, j, after, x, w, rfl, hbefore, hx, hj, hw, hafter⟩
    · by_cases hs : P s
      · exact .inl ⟨hs, .next ⟨hstep, hu⟩ hstays⟩
      · exact .inr ⟨[], i, is, s, u, rfl, .refl s, hs, hstep, hu, hstays⟩
    · exact .inr ⟨i :: before, j, after, x, w, rfl, .next hstep hbefore, hx, hj, hw, hafter⟩

def ofStep (f : σ → ι → Option σ) (s : σ) (i : ι) (u : σ) : Prop :=
  f s i = some u

/-- Running a partial step function over a list of labels is a run of its relation, and a guarded
one when the guard holds of these labels wherever they are taken. -/
theorem Runs.of_foldlM (f : σ → ι → Option σ) (ok : σ → ι → Prop) {s v : σ} {is : List ι}
    (hok : ∀ i ∈ is, ∀ a, ok a i) (h : is.foldlM f s = some v) :
    Runs (guarded (ofStep f) ok) s is v := by
  induction is generalizing s with
  | nil =>
    rw [← Option.some.inj h]
    exact .refl s
  | cons i is ih =>
    rw [List.foldlM_cons] at h
    obtain ⟨u, hu, htail⟩ := Option.bind_eq_some_iff.mp h
    exact .next ⟨hok i (by simp) s, hu⟩ (ih (fun j hj => hok j (by simp [hj])) htail)

/-- A measure that never grows along an endless run is still from some step on. -/
theorem eventually_still {f : ℕ → ℕ} {a : ℕ} (h : ∀ k ≥ a, f (k + 1) ≤ f k) :
    ∃ b ≥ a, ∀ k ≥ b, f k = f b := by
  have hdescends : ∀ b ≥ a, ∀ k ≥ b, f k ≤ f b := by
    intro b hb k hk
    induction k, hk using Nat.le_induction with
    | base => exact le_rfl
    | succ k hk ih => exact (h k (hb.trans hk)).trans ih
  have hreach : ∀ n, ∀ b ≥ a, f b = n → ∃ c ≥ a, ∀ k ≥ c, f k = f c := by
    intro n
    induction n using Nat.strong_induction_on with
    | _ n ih =>
      intro b hb hn
      by_cases hstill : ∀ k ≥ b, f k = f b
      · exact ⟨b, hb, hstill⟩
      · push Not at hstill
        obtain ⟨k, hk, hne⟩ := hstill
        have hless : f k < n := hn ▸ lt_of_le_of_ne (hdescends b hb k hk) hne
        exact ih (f k) hless k (hb.trans hk) rfl
  exact hreach (f a) a le_rfl rfl

def runFrom (f : σ → ι → Option σ) (s : σ) (is : List ι) : σ :=
  (is.foldlM f s).getD s

theorem Runs.of_runFrom (f : σ → ι → Option σ) (ok : σ → ι → Prop) {s : σ} {is : List ι}
    (hok : ∀ i ∈ is, ∀ a, ok a i) (h : (is.foldlM f s).isSome = true) :
    Runs (guarded (ofStep f) ok) s is (runFrom f s is) := by
  obtain ⟨v, hv⟩ := Option.isSome_iff_exists.mp h
  have hend : runFrom f s is = v := by rw [runFrom, hv, Option.getD_some]
  rw [hend]
  exact .of_foldlM f ok hok hv

theorem Runs.runFrom (f : σ → ι → Option σ) {s : σ} {is : List ι}
    (h : (is.foldlM f s).isSome = true) : Runs (ofStep f) s is (runFrom f s is) :=
  (Runs.of_runFrom f (fun _ _ => True) (fun _ _ _ => trivial) h).of_guarded

def guardedStep (f : σ → ι → Option σ) (ok : σ → ι → Prop) [∀ s, DecidablePred (ok s)] (s : σ)
    (i : ι) : Option σ :=
  if ok s i then f s i else none

theorem Runs.of_guardedStep {f : σ → ι → Option σ} {ok : σ → ι → Prop}
    [∀ s, DecidablePred (ok s)] {s v : σ} {is : List ι}
    (h : Runs (ofStep (guardedStep f ok)) s is v) : Runs (guarded (ofStep f) ok) s is v := by
  refine h.mono fun s i u hstep => ?_
  unfold ofStep guardedStep at hstep
  split at hstep
  · rename_i hok
    exact ⟨hok, hstep⟩
  · cases hstep

end Shapoclyack.Library
