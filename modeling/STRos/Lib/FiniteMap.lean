import Mathlib.Data.List.Induction
import Mathlib.Data.List.Nodup
import Mathlib.Logic.Function.Basic

/-! # Finite maps and association lists

A finite map is a function to `Option`. `Update` is the log of what was done to
one, and an association list with distinct keys is one of its representations.
-/

namespace FiniteMap

variable {K V : Type}

/-! ## Puts and removals -/

inductive Update (K V : Type)
  | put (key : K) (value : V)
  | remove (key : K)

def Update.key : Update K V → K
  | .put key _ => key
  | .remove key => key

/-- What the update leaves at its own key. -/
def Update.result : Update K V → Option V
  | .put _ value => some value
  | .remove _ => none

section Updates

variable [DecidableEq K]

def Update.apply (m : K → Option V) (u : Update K V) : K → Option V :=
  Function.update m u.key u.result

theorem foldl_apply_of_ne (us : List (Update K V)) (m : K → Option V) {key : K}
    (h : ∀ u ∈ us, u.key ≠ key) : us.foldl Update.apply m key = m key := by
  induction us generalizing m with
  | nil => rfl
  | cons u us ih =>
      rw [List.foldl_cons, ih _ fun u' hu' => h u' (List.mem_cons_of_mem u hu')]
      exact Function.update_of_ne (h u List.mem_cons_self).symm _ _

/-- A key is bound by its last put, provided no removal came later. -/
theorem foldl_apply_eq_some_iff (us : List (Update K V)) {key : K} {value : V} :
    us.foldl Update.apply (fun _ => none) key = some value ↔
      ∃ before after, us = before ++ .put key value :: after ∧ ∀ u ∈ after, u.key ≠ key := by
  constructor
  · intro h
    induction us using List.reverseRecOn with
    | nil => cases h
    | append_singleton us u ih =>
        rw [List.foldl_append, List.foldl_cons, List.foldl_nil] at h
        by_cases hu : u.key = key
        · subst hu
          rw [Update.apply, Function.update_self] at h
          cases u with
          | put key' value' =>
              cases h
              exact ⟨us, [], rfl, by simp⟩
          | remove key' => cases h
        · rw [Update.apply, Function.update_of_ne (Ne.symm hu)] at h
          obtain ⟨before, after, rfl, hafter⟩ := ih h
          refine ⟨before, after ++ [u], by simp, ?_⟩
          intro u' hu'
          rcases List.mem_append.mp hu' with hmem | hmem
          · exact hafter u' hmem
          · rw [List.mem_singleton.mp hmem]
            exact hu
  · rintro ⟨before, after, rfl, hafter⟩
    rw [List.foldl_append, List.foldl_cons, foldl_apply_of_ne after _ hafter]
    exact Function.update_self _ _ _

end Updates

/-! ## Association lists with distinct keys -/

def keys (l : List (K × V)) : List K := l.map Prod.fst

@[simp] theorem keys_nil : keys ([] : List (K × V)) = [] := rfl

@[simp] theorem keys_cons (np : K × V) (l : List (K × V)) : keys (np :: l) = np.1 :: keys l := rfl

theorem mem_keys_of_mem {key : K} {value : V} {l : List (K × V)} (h : (key, value) ∈ l) :
    key ∈ keys l :=
  List.mem_map_of_mem (f := Prod.fst) h

section Lookup

variable [DecidableEq K]

def lookup (l : List (K × V)) (key : K) : Option V :=
  (l.find? fun np => np.1 = key).map (·.2)

theorem lookup_cons (np : K × V) (l : List (K × V)) (key : K) :
    lookup (np :: l) key = if np.1 = key then some np.2 else lookup l key := by
  unfold lookup
  by_cases h : np.1 = key <;> simp [h]

theorem lookup_eq_none_iff {l : List (K × V)} {key : K} : lookup l key = none ↔ key ∉ keys l := by
  induction l with
  | nil => simp [lookup]
  | cons np l ih =>
      rw [lookup_cons, keys_cons, List.mem_cons, not_or, ← ih]
      by_cases h : np.1 = key
      · simp [h]
      · simp [h, Ne.symm h]

/-- A lookup stops at the first pair with the key. -/
theorem lookup_split {before after : List (K × V)} {key : K} {value : V}
    (hbefore : key ∉ keys before) :
    lookup (before ++ (key, value) :: after) key = some value := by
  induction before with
  | nil => simp [lookup_cons]
  | cons np before ih =>
      rw [keys_cons, List.mem_cons, not_or] at hbefore
      rw [List.cons_append, lookup_cons, if_neg (Ne.symm hbefore.1), ih hbefore.2]

/-- With distinct keys a lookup finds exactly the pairs of the list. -/
theorem lookup_eq_some_iff {l : List (K × V)} (h : (keys l).Nodup) {key : K} {value : V} :
    lookup l key = some value ↔ (key, value) ∈ l := by
  induction l with
  | nil => simp [lookup]
  | cons np l ih =>
      obtain ⟨hnew, hrest⟩ := List.nodup_cons.mp h
      rw [lookup_cons, List.mem_cons]
      by_cases hnp : np.1 = key
      · subst hnp
        have hout : (np.1, value) ∉ l := fun hmem => hnew (mem_keys_of_mem hmem)
        rw [if_pos rfl, Option.some.injEq]
        constructor
        · intro hv
          exact Or.inl (by rw [← hv])
        · intro hv
          rw [← hv.resolve_right hout]
      · rw [if_neg hnp, ih hrest]
        refine ⟨Or.inr, fun hv => hv.resolve_left ?_⟩
        intro hv
        exact hnp (by rw [← hv])

/-- Dropping the first pair with a key unbinds that key and no other. -/
theorem lookup_eraseP_self {l : List (K × V)} (h : (keys l).Nodup) (key : K) :
    lookup (l.eraseP fun np => np.1 = key) key = none := by
  induction l with
  | nil => rfl
  | cons np l ih =>
      obtain ⟨hnew, hrest⟩ := List.nodup_cons.mp h
      by_cases hnp : np.1 = key
      · rw [List.eraseP_cons_of_pos (by simpa using hnp)]
        exact lookup_eq_none_iff.mpr (hnp ▸ hnew)
      · rw [List.eraseP_cons_of_neg (by simpa using hnp), lookup_cons, if_neg hnp, ih hrest]

theorem lookup_eraseP_ne (l : List (K × V)) {key key' : K} (hne : key' ≠ key) :
    lookup (l.eraseP fun np => np.1 = key) key' = lookup l key' := by
  induction l with
  | nil => rfl
  | cons np l ih =>
      by_cases hnp : np.1 = key
      · rw [List.eraseP_cons_of_pos (by simpa using hnp), lookup_cons,
          if_neg fun h => hne (h.symm.trans hnp)]
      · rw [List.eraseP_cons_of_neg (by simpa using hnp), lookup_cons, lookup_cons, ih]

end Lookup

theorem keys_nodup_eraseP {l : List (K × V)} (h : (keys l).Nodup) (p : K × V → Bool) :
    (keys (l.eraseP p)).Nodup :=
  h.sublist (List.eraseP_sublist.map Prod.fst)

end FiniteMap
