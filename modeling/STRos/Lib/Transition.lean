import Mathlib.Logic.Function.Basic
import Mathlib.Logic.Relation

/-! # Systems that take one step after another

A system has initial states and a partial step function on labelled steps. The
runs that are considered may be restricted by a condition on each step, given
the state before it, its label and the state after it.
-/

namespace Transition

variable {σ α : Type}

structure System (σ α : Type) where
  init : σ → Prop
  step : σ → α → Option σ

/-- The states reached by runs whose steps all meet `ok`. -/
inductive Reaches (S : System σ α) (ok : σ → α → σ → Prop) : σ → Prop
  | init {s : σ} (h : S.init s) : Reaches S ok s
  | step {s t : σ} {a : α} (h : Reaches S ok s) (hstep : S.step s a = some t) (hok : ok s a t) :
      Reaches S ok t

abbrev Reachable (S : System σ α) : σ → Prop := Reaches S fun _ _ _ => True

/-- What holds initially and is kept by every step that meets the condition
holds in every state reached. -/
theorem Reaches.invariant {S : System σ α} {ok : σ → α → σ → Prop} {Inv : σ → Prop}
    (hinit : ∀ s, S.init s → Inv s)
    (hstep : ∀ s a t, Inv s → S.step s a = some t → ok s a t → Inv t) {s : σ}
    (h : Reaches S ok s) : Inv s := by
  induction h with
  | init h => exact hinit _ h
  | step _ hs hok ih => exact hstep _ _ _ ih hs hok

theorem Reaches.mono {S : System σ α} {ok ok' : σ → α → σ → Prop}
    (hle : ∀ s a t, ok s a t → ok' s a t) {s : σ} (h : Reaches S ok s) : Reaches S ok' s := by
  induction h with
  | init h => exact .init h
  | step _ hs hok ih => exact .step ih hs (hle _ _ _ hok)

def exec (S : System σ α) : σ → List α → Option σ
  | s, [] => some s
  | s, a :: as =>
      match S.step s a with
      | some t => exec S t as
      | none => none

theorem exec_cons {S : System σ α} {s u : σ} {a : α} {as : List α}
    (h : exec S s (a :: as) = some u) : ∃ t, S.step s a = some t ∧ exec S t as = some u := by
  simp only [exec] at h
  cases hstep : S.step s a with
  | none => simp [hstep] at h
  | some t =>
      simp only [hstep] at h
      exact ⟨t, rfl, h⟩

/-- A trace reaches its last state when a property of states and labels along it
gives the condition on steps. -/
theorem Reaches.exec {S : System σ α} {ok : σ → α → σ → Prop} {P : σ → Prop} {Q : α → Prop}
    (hkeep : ∀ s a t, P s → Q a → S.step s a = some t → ok s a t ∧ P t) {as : List α} {s t : σ}
    (hs : Reaches S ok s) (hP : P s) (hQ : ∀ a ∈ as, Q a) (h : Transition.exec S s as = some t) :
    Reaches S ok t := by
  induction as generalizing s with
  | nil => cases h; exact hs
  | cons a as ih =>
      obtain ⟨u, hstep, hrest⟩ := exec_cons h
      obtain ⟨hok, hu⟩ := hkeep s a u hP (hQ a (by simp)) hstep
      exact ih (.step hs hstep hok) hu (fun b hb => hQ b (by simp [hb])) hrest

theorem Reachable.run {S : System σ α} {as : List α} {s t : σ} (hs : Reachable S s)
    (h : Transition.exec S s as = some t) : Reachable S t :=
  Reaches.exec (P := fun _ => True) (Q := fun _ => True) (fun _ _ _ _ _ _ => ⟨trivial, trivial⟩)
    hs trivial (fun _ _ => trivial) h

theorem Reachable.exec {S : System σ α} {as : List α} {s t : σ} (hs : S.init s)
    (h : Transition.exec S s as = some t) : Reachable S t := Reachable.run (.init hs) h

def execAllowed (S : System σ α) (allows : σ → α → Bool) : σ → List α → Option σ
  | s, [] => some s
  | s, a :: as =>
      if allows s a then
        match S.step s a with
        | some t => execAllowed S allows t as
        | none => none
      else none

theorem Reaches.execAllowed {S : System σ α} {ok : σ → α → σ → Prop} {allows : σ → α → Bool}
    (hallows : ∀ s a t, allows s a = true → S.step s a = some t → ok s a t) {as : List α}
    {s t : σ} (hs : Reaches S ok s) (h : Transition.execAllowed S allows s as = some t) :
    Reaches S ok t := by
  induction as generalizing s with
  | nil => cases h; exact hs
  | cons a as ih =>
      simp only [Transition.execAllowed] at h
      by_cases hallowed : allows s a = true
      · rw [if_pos hallowed] at h
        cases hstep : S.step s a with
        | none => simp [hstep] at h
        | some u =>
            simp only [hstep] at h
            exact ih (.step hs hstep (hallows s a u hallowed hstep)) h
      · rw [if_neg hallowed] at h
        cases h

inductive Trace (S : System σ α) (ok : σ → α → σ → Prop) : σ → List α → σ → Prop
  | nil {s : σ} : Trace S ok s [] s
  | cons {s t u : σ} {a : α} {as : List α} (hstep : S.step s a = some t) (hok : ok s a t)
      (hrest : Trace S ok t as u) : Trace S ok s (a :: as) u

/-! ## Progress -/

/-- The second state is reached from the first by steps that meet the condition. -/
def Leads (S : System σ α) (ok : σ → α → σ → Prop) : σ → σ → Prop :=
  Relation.ReflTransGen fun s t => ∃ a, S.step s a = some t ∧ ok s a t

theorem Reaches.leads {S : System σ α} {ok : σ → α → σ → Prop} {s t : σ} (hs : Reaches S ok s)
    (h : Leads S ok s t) : Reaches S ok t := by
  induction h with
  | refl => exact hs
  | tail _ hstep ih =>
      obtain ⟨a, hstep, hok⟩ := hstep
      exact .step ih hstep hok

/-- A state in which `Goal` does not hold is left by a step that keeps `P` and lowers the rank,
so that a state with `Goal` can be reached. -/
theorem exists_leads {S : System σ α} {ok : σ → α → σ → Prop} {P Goal : σ → Prop} (rank : σ → Nat)
    (hstep : ∀ s, P s → ¬ Goal s → ∃ a t, S.step s a = some t ∧ ok s a t ∧ P t ∧ rank t < rank s)
    {s : σ} (hs : P s) : ∃ t, Leads S ok s t ∧ P t ∧ Goal t := by
  induction hrank : rank s using Nat.strongRecOn generalizing s with
  | ind n ih =>
      by_cases hgoal : Goal s
      · exact ⟨s, .refl, hs, hgoal⟩
      · obtain ⟨a, t, hnext, hok, ht, hlt⟩ := hstep s hs hgoal
        obtain ⟨u, hrun, hu⟩ := ih (rank t) (hrank ▸ hlt) ht rfl
        exact ⟨u, .head ⟨a, hnext, hok⟩ hrun, hu⟩

/-! ## Simulation -/

section Simulation

variable {τ β : Type}

theorem exec_append {S : System σ α} {s t u : σ} {as bs : List α} (h : exec S s as = some t)
    (hrest : exec S t bs = some u) : exec S s (as ++ bs) = some u := by
  induction as generalizing s with
  | nil =>
      cases h
      exact hrest
  | cons a as ih =>
      obtain ⟨s', hstep, hrun⟩ := exec_cons h
      rw [List.cons_append]
      simp only [exec, hstep]
      exact ih hrun

/-- A run of `S` beside one of `T`: every step of `S` is matched by any number of steps of `T`,
and the states before and behind it are related. -/
inductive Follows (S : System σ α) (T : System τ β) (R : σ → τ → Prop) :
    σ → List α → τ → List (List β) → Prop
  | nil {s : σ} {t : τ} (related : R s t) : Follows S T R s [] t []
  | cons {s s' : σ} {t t' : τ} {a : α} {as : List α} {bs : List β} {bss : List (List β)}
      (related : R s t) (hstep : S.step s a = some s') (hrun : exec T t bs = some t')
      (hrest : Follows S T R s' as t' bss) : Follows S T R s (a :: as) t (bs :: bss)

variable {S : System σ α} {T : System τ β} {R R' : σ → τ → Prop}

theorem Follows.mono (hle : ∀ s t, R s t → R' s t) {s : σ} {t : τ} {as : List α}
    {bss : List (List β)} (h : Follows S T R s as t bss) : Follows S T R' s as t bss := by
  induction h with
  | nil related => exact .nil (hle _ _ related)
  | cons related hstep hrun _ ih => exact .cons (hle _ _ related) hstep hrun ih

theorem Follows.last {s u : σ} {t : τ} {as : List α} {bss : List (List β)}
    (h : Follows S T R s as t bss) (hrun : exec S s as = some u) :
    ∃ t', exec T t bss.flatten = some t' ∧ R u t' := by
  induction h with
  | nil related =>
      cases hrun
      exact ⟨_, rfl, related⟩
  | cons related hstep hmatch _ ih =>
      obtain ⟨s', hnext, hrest⟩ := exec_cons hrun
      obtain rfl : _ = s' := Option.some.inj (hstep.symm.trans hnext)
      obtain ⟨t', hflat, hlast⟩ := ih hrest
      exact ⟨t', exec_append hmatch hflat, hlast⟩

/-- When every step of `S` is matched from related states, so is every run. -/
theorem exec_follows
    (hstep : ∀ s t a s', R s t → S.step s a = some s' →
      ∃ bs t', exec T t bs = some t' ∧ R s' t')
    {s u : σ} {t : τ} {as : List α} (related : R s t) (hrun : exec S s as = some u) :
    ∃ bss, Follows S T R s as t bss := by
  induction as generalizing s t with
  | nil => exact ⟨[], .nil related⟩
  | cons a as ih =>
      obtain ⟨s', hnext, hrest⟩ := exec_cons hrun
      obtain ⟨bs, t', hmatch, hrelated⟩ := hstep s t a s' related hnext
      obtain ⟨bss, hfollows⟩ := ih hrelated hrest
      exact ⟨bs :: bss, .cons related hnext hmatch hfollows⟩

end Simulation

end Transition
