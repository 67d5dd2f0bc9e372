import Mathlib.Data.Option.Basic

/-! # A lock and the threads inside of its sections

The value of a lock is the thread that has it. It guards its sections when the
threads inside of one are those that have the lock. What a step does to the
sections is said by how the set of threads inside changes.
-/

namespace Lock

variable {τ : Type} {mux : Option τ} {inside inside' : τ → Prop} {w : τ}

def Guards (mux : Option τ) (inside : τ → Prop) : Prop := ∀ v, inside v ↔ mux = some v

theorem Guards.exclusive (h : Guards mux inside) {v : τ} (hv : inside v) (hw : inside w) :
    v = w :=
  Option.some.inj (((h v).mp hv).symm.trans ((h w).mp hw))

theorem Guards.empty (h : Guards none inside) (v : τ) : ¬ inside v := by
  intro hv
  have hnone := (h v).mp hv
  cases hnone

theorem Guards.congr (h : Guards mux inside) (hsame : ∀ v, inside' v ↔ inside v) :
    Guards mux inside' :=
  fun v => (hsame v).trans (h v)

theorem Guards.acquire (h : Guards none inside) (hin : ∀ v, inside' v ↔ inside v ∨ v = w) :
    Guards (some w) inside' := by
  intro v
  rw [hin v, Option.some.injEq, eq_comm]
  exact or_iff_right (h.empty v)

theorem Guards.release (h : Guards mux inside) (hw : inside w)
    (hout : ∀ v, inside' v ↔ inside v ∧ v ≠ w) : Guards none inside' := by
  intro v
  rw [hout v]
  constructor
  · intro hv
    exact absurd (h.exclusive hv.1 hw) hv.2
  · intro hnone
    cases hnone

end Lock
