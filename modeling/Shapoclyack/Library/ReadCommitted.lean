import Mathlib.Tactic.SplitIfs
import Shapoclyack.Library.Runs

set_option autoImplicit false

namespace Shapoclyack.Library

variable {σ ι : Type*}

def column {α : Type*} [DecidableEq α] (current seen new : α) : α :=
  if new = seen then current else new

@[simp]
theorem column_self {α : Type*} [DecidableEq α] (seen new : α) : column seen seen new = new := by
  unfold column
  split_ifs with h
  · exact h.symm
  · rfl

theorem column_unchanged {α : Type*} [DecidableEq α] (current seen : α) :
    column current seen seen = current := by
  simp [column]

/-- A row under READ COMMITTED, and the versions that open transactions have read of it. -/
structure Shared (σ : Type*) where
  row : σ
  reads : List σ

inductive Access (σ ι : Type*) where
  /-- Read the row without locking it. -/
  | read
  /-- Compute an operation on the version read, and write the columns it changed. -/
  | write (seen : σ) (op : ι)
  /-- Run an operation under the row's lock, from read to commit. -/
  | locked (op : ι)

variable (op : ι → σ → Option σ) (overlay : σ → σ → σ → σ)

/-- The steps of a shared row: reads, writes over a version read before, and locked operations. -/
inductive Shared.step : Shared σ → Access σ ι → Shared σ → Prop where
  | read (s : Shared σ) : Shared.step s .read ⟨s.row, s.row :: s.reads⟩
  | write {s : Shared σ} {seen new : σ} {i : ι} (known : seen ∈ s.reads)
      (ran : op i seen = some new) :
      Shared.step s (.write seen i) ⟨overlay s.row seen new, s.reads⟩
  | locked {s : Shared σ} {new : σ} {i : ι} (ran : op i s.row = some new) :
      Shared.step s (.locked i) ⟨new, s.reads⟩

/-- The version a transaction writes over is the one it read. -/
def Access.fresh (s : Shared σ) : Access σ ι → Prop
  | .write seen _ => seen = s.row
  | _ => True

def Access.ops : List (Access σ ι) → List ι
  | [] => []
  | .read :: rest => Access.ops rest
  | .write _ i :: rest => i :: Access.ops rest
  | .locked i :: rest => i :: Access.ops rest

theorem Shared.step_serial (overlay_self : ∀ seen new, overlay seen seen new = new)
    {s u : Shared σ} {a : Access σ ι}
    (h : guarded (Shared.step op overlay) Access.fresh s a u) :
    Runs (ofStep fun row i => op i row) s.row (Access.ops [a]) u.row := by
  obtain ⟨hfresh, hstep⟩ := h
  cases hstep with
  | read => exact .refl _
  | write _ ran =>
    simp only [Access.fresh] at hfresh
    subst hfresh
    rw [overlay_self]
    exact Runs.one ran
  | locked ran => exact Runs.one ran

theorem Access.ops_cons (a : Access σ ι) (rest : List (Access σ ι)) :
    Access.ops (a :: rest) = Access.ops [a] ++ Access.ops rest := by
  cases a <;> rfl

/-- While no write lands on a version newer than it read, a history is a serial one. -/
theorem Shared.serial (overlay_self : ∀ seen new, overlay seen seen new = new)
    {s u : Shared σ} {as : List (Access σ ι)}
    (h : Runs (guarded (Shared.step op overlay) Access.fresh) s as u) :
    Runs (ofStep fun row i => op i row) s.row (Access.ops as) u.row := by
  induction h with
  | refl s => exact .refl s.row
  | next hstep _ ih =>
    rw [Access.ops_cons]
    exact (Shared.step_serial op overlay overlay_self hstep).trans ih

end Shapoclyack.Library
