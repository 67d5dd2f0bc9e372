import STRos.Dictionary.FiniteMap
import STRos.Model.Associations

/-! # The loops on one chain of associations

The place of a key on a chain is the address of its first association. A lookup gives the
place, and a removal takes the association there out of the chain.
-/

namespace STRos.Associations

open CString Memory FiniteMap

variable {α : Type} {xs : List (Nat × (Bytes × α))} {key : Bytes}

/-! ## Places -/

def place (key : Bytes) (xs : List (Nat × (Bytes × α))) : Ptr :=
  (xs.find? fun x => x.2.1 = key).map (·.1)

theorem place_cons (key : Bytes) (x : Nat × (Bytes × α)) (xs : List (Nat × (Bytes × α))) :
    place key (x :: xs) = if x.2.1 = key then some x.1 else place key xs := by
  unfold place
  rw [List.find?_cons]
  by_cases hx : x.2.1 = key <;> simp [hx]

theorem place_eq_none : place key xs = none ↔ key ∉ keys (xs.map (·.2)) := by
  induction xs with
  | nil => simp [place, keys]
  | cons x xs ih =>
      rw [place_cons, List.map_cons, keys_cons, List.mem_cons, not_or, ← ih]
      by_cases hx : x.2.1 = key
      · simp [hx]
      · simp [hx, Ne.symm hx]

/-- The association of a key, between those in front of it, which have other keys, and the
rest. -/
theorem place_split {p : Nat} (hplace : place key xs = some p) :
    ∃ before value after, xs = before ++ (p, (key, value)) :: after ∧
      key ∉ keys (before.map (·.2)) := by
  induction xs with
  | nil => simp [place] at hplace
  | cons x xs ih =>
      obtain ⟨q, k, v⟩ := x
      rw [place_cons] at hplace
      by_cases hk : k = key
      · rw [if_pos hk] at hplace
        cases hplace
        exact ⟨[], v, xs, by simp [hk], by simp [keys]⟩
      · rw [if_neg hk] at hplace
        obtain ⟨before, value, after, rfl, hbefore⟩ := ih hplace
        refine ⟨(q, (k, v)) :: before, value, after, rfl, ?_⟩
        rw [List.map_cons, keys_cons, List.mem_cons]
        simp [Ne.symm hk, hbefore]

theorem place_revalue (before after : List (Nat × (Bytes × α))) (p : Nat) (key key' : Bytes)
    (old value : α) :
    place key' (before ++ (p, (key, value)) :: after) =
      place key' (before ++ (p, (key, old)) :: after) := by
  induction before with
  | nil => simp [place_cons]
  | cons x before ih => rw [List.cons_append, List.cons_append, place_cons, place_cons, ih]

theorem place_eraseP_ne {key' : Bytes} (hne : key' ≠ key) :
    place key' (xs.eraseP fun x => x.2.1 = key) = place key' xs := by
  induction xs with
  | nil => rfl
  | cons x xs ih =>
      by_cases hx : x.2.1 = key
      · rw [List.eraseP_cons_of_pos (by simp [hx]), place_cons, if_neg (by rw [hx]; exact hne.symm)]
      · rw [List.eraseP_cons_of_neg (by simp [hx]), place_cons, place_cons, ih]

theorem mem_of_place {p : Nat} (hplace : place key xs = some p) : p ∈ xs.map (·.1) := by
  obtain ⟨before, value, after, rfl, -⟩ := place_split hplace
  simp

theorem not_mem_eraseP {p : Nat} (hnodup : (xs.map Prod.fst).Nodup)
    (hplace : place key xs = some p) :
    p ∉ (xs.eraseP fun x => x.2.1 = key).map (·.1) := by
  induction xs with
  | nil => simp
  | cons x xs ih =>
      rw [List.map_cons, List.nodup_cons] at hnodup
      rw [place_cons] at hplace
      by_cases hx : x.2.1 = key
      · rw [if_pos hx] at hplace
        cases hplace
        rw [List.eraseP_cons_of_pos (by simp [hx])]
        exact hnodup.1
      · rw [if_neg hx] at hplace
        rw [List.eraseP_cons_of_neg (by simp [hx]), List.map_cons, List.mem_cons, not_or]
        refine ⟨?_, ih hnodup.2 hplace⟩
        rintro rfl
        exact hnodup.1 (mem_of_place hplace)

/-! ## The loops -/

section Loops

variable {h : AssocHeap α} {l : Ptr}

theorem deref_of_cell {p : Nat} {c : Assoc α} (hp : h.cell p = some c) : deref h p = .ok c := by
  rw [deref, hp]
  rfl

theorem lookupLoop_chain (hl : Chain h l xs) {fuel : Nat} (hfuel : xs.length ≤ fuel) :
    lookupLoop h key fuel l = .ok (place key xs) := by
  induction hl generalizing fuel with
  | null => cases fuel <;> rfl
  | @node p np next rest hp hrest ih =>
      cases fuel with
      | zero => cases hfuel
      | succ fuel =>
          rw [lookupLoop, deref_of_cell hp, place_cons]
          simp only [bind, Except.bind]
          by_cases hkey : key = np.1
          · rw [if_pos hkey, if_pos hkey.symm]
            rfl
          · rw [if_neg hkey, if_neg (Ne.symm hkey), ih (Nat.le_of_succ_le_succ hfuel)]

theorem forEachLoop_chain (hl : Chain h l xs) {fuel : Nat} (hfuel : xs.length ≤ fuel) :
    forEachLoop h fuel l = .ok (xs.map (·.1)) := by
  induction hl generalizing fuel with
  | null => cases fuel <;> rfl
  | node hp hrest ih =>
      cases fuel with
      | zero => cases hfuel
      | succ fuel =>
          rw [forEachLoop, deref_of_cell hp]
          simp only [bind, Except.bind]
          rw [ih (Nat.le_of_succ_le_succ hfuel)]
          rfl

/-- Behind the first association the loop unlinks the first one with the key, which is left as
it is. -/
theorem removeLoop_chain {p : Nat} {np : Bytes × α} (hl : Chain h (some p) ((p, np) :: xs))
    {fuel : Nat} (hfuel : xs.length < fuel) :
    ∃ h', removeLoop h key fuel (some p) =
        .ok (h', if key ∈ keys (xs.map (·.2)) then 1 else 0) ∧
      Chain h' (some p) ((p, np) :: xs.eraseP fun x => x.2.1 = key) ∧
      (∀ r, r ∉ ((p, np) :: xs).map (·.1) → h'.cell r = h.cell r) ∧
      ∀ r, place key xs = some r → h'.cell r = h.cell r := by
  induction xs generalizing p np fuel with
  | nil =>
      obtain ⟨-, next, hp, hrest⟩ := Chain.cons_iff.mp hl
      rw [Chain.nil_iff] at hrest
      subst hrest
      cases fuel with
      | zero => cases hfuel
      | succ fuel =>
          refine ⟨h, ?_, hl, fun _ _ => rfl, fun _ _ => rfl⟩
          rw [removeLoop, deref_of_cell hp]
          rfl
  | cons x xs ih =>
      obtain ⟨q, e⟩ := x
      obtain ⟨-, next, hp, hrest⟩ := Chain.cons_iff.mp hl
      obtain ⟨rfl, next', hq, hrest'⟩ := Chain.cons_iff.mp hrest
      have hnodup := hl.nodup
      simp only [List.map_cons, List.nodup_cons, List.mem_cons, not_or] at hnodup
      obtain ⟨⟨hpq, hpxs⟩, -⟩ := hnodup
      cases fuel with
      | zero => cases hfuel
      | succ fuel =>
          rw [removeLoop, deref_of_cell hp, place_cons]
          simp only [bind, Except.bind, deref_of_cell hq, List.map_cons, keys_cons, List.mem_cons]
          by_cases hkey : key = e.1
          · refine ⟨h.put p ⟨np, next'⟩, by simp [hkey]; rfl, ?_, ?_, ?_⟩
            · rw [List.eraseP_cons_of_pos (by simp [hkey])]
              have hrelink : Chain (h.put p ⟨np, next'⟩) (some p) ([] ++ (p, np) :: xs) :=
                Chain.relink hl hrest' hpxs
              exact hrelink
            · intro r hr
              exact h.put_of_ne (fun heq => hr (by simp [heq])) _
            · intro r hr
              rw [if_pos hkey.symm] at hr
              cases hr
              exact h.put_of_ne (Ne.symm hpq) _
          · obtain ⟨h', hrun, hchain, hframe, hremoved⟩ := ih hrest (Nat.lt_of_succ_lt_succ hfuel)
            have hp' : h'.cell p = some ⟨np, some q⟩ := by
              rw [hframe p (by simp [hpq, hpxs]), hp]
            refine ⟨h', by simp [hkey, hrun], ?_, fun r hr => ?_, fun r hr => ?_⟩
            · rw [List.eraseP_cons_of_neg (by simp [Ne.symm hkey])]
              exact .node hp' hchain
            · exact hframe r fun hmem => hr (Or.inr (List.mem_cons.mp hmem))
            · rw [if_neg (Ne.symm hkey)] at hr
              exact hremoved r hr

end Loops

/-! ## The bindings of the chain of a key -/

theorem setFirst_split {before after : List (Bytes × α)} {key : Bytes} (old value : α)
    (hbefore : key ∉ keys before) :
    setFirst key value (before ++ (key, old) :: after) = before ++ (key, value) :: after := by
  induction before with
  | nil => simp [setFirst]
  | cons np before ih =>
      rw [keys_cons, List.mem_cons, not_or] at hbefore
      rw [List.cons_append, setFirst, if_neg (Ne.symm hbefore.1), ih hbefore.2, List.cons_append]

theorem dremove_eraseP (dic : Dictionary α) (key : Bytes) :
    STRos.dremove dic key =
      (if key ∈ keys (dic.chain (hash key dHashSize)) then 1 else 0,
        ⟨Function.update dic.chain (hash key dHashSize)
          ((dic.chain (hash key dHashSize)).eraseP fun np => np.1 = key)⟩) := by
  have hbound : (STRos.dvalue dic key).isSome ↔ key ∈ keys (dic.chain (hash key dHashSize)) := by
    rw [Option.isSome_iff_ne_none, dvalue_eq_lookup, Ne, lookup_eq_none_iff, not_not]
  rw [dremove_eq]
  by_cases hkey : key ∈ keys (dic.chain (hash key dHashSize))
  · rw [if_pos (hbound.mpr hkey), if_pos hkey]
  · have hother : ∀ np ∈ dic.chain (hash key dHashSize), ¬ (decide (np.1 = key) = true) := by
      intro np hnp heq
      have hmem : np.1 ∈ keys (dic.chain (hash key dHashSize)) := mem_keys_of_mem hnp
      rw [of_decide_eq_true heq] at hmem
      exact hkey hmem
    rw [if_neg fun hdic => hkey (hbound.mp hdic), if_neg hkey, List.eraseP_of_forall_not hother,
      Function.update_eq_self]

theorem dremove_fst (dic : Dictionary α) (key : Bytes) :
    (STRos.dremove dic key).1 = if (STRos.dvalue dic key).isSome then 1 else 0 := by
  rw [dremove_eq]
  split <;> rfl

end STRos.Associations
