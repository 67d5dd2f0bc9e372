import STRos.Lists.Sequence

/-! # What list_remove leaves

The pointer is passed by value, so the first cell cannot be taken off; every other one is,
but the path that does it ends without a `return`.
-/

namespace STRos.Cells

open CString Memory

section Chains

variable {h : CellHeap} {l : Ptr} {xs : List (Nat × CellValue)}

theorem listRemove_outside (hl : Chain h l xs) {idx : Int}
    (hidx : idx < 0 ∨ (if emptyChain xs then 0 else xs.length : Nat) ≤ idx) :
    listRemove h l idx = .ok (h, some 0) := by
  cases hl with
  | null => rfl
  | node hp hrest =>
      rw [listRemove]
      by_cases hneg : idx < 0
      · rw [if_pos hneg]
      · rw [if_neg hneg, listSize_chain (.node hp hrest)]
        simp only [bind, Except.bind]
        rw [if_pos (hidx.resolve_left hneg)]
        rfl

/-- Only the parameter is moved to the second cell. -/
theorem listRemove_first (hl : Chain h l xs) (hne : emptyChain xs = false) :
    listRemove h l 0 = .ok (h, some 1) := by
  cases hl with
  | null => cases hne
  | node hp hrest =>
      rw [listRemove, if_neg (by omega), listSize_chain (.node hp hrest), hne]
      simp only [bind, Except.bind]
      rw [if_neg Bool.false_ne_true, if_neg (by rw [List.length_cons]; omega),
        if_pos trivial, deref_of_cell hp]
      rfl

/-- The cell in front of the one that goes points behind it; nothing is returned. -/
theorem listRemove_behind {before after : List (Nat × CellValue)} {p q : Nat}
    {value gone : CellValue} (hl : Chain h l (before ++ (p, value) :: (q, gone) :: after))
    (hne : emptyChain (before ++ (p, value) :: (q, gone) :: after) = false) :
    ∃ h', listRemove h l (before.length + 1 : Nat) = .ok (h', none) ∧
      Chain h' l (before ++ (p, value) :: after) := by
  obtain ⟨-, next, hp, hq⟩ := Chain.cons_iff.mp hl.of_append
  obtain ⟨rfl, next', hq, hafter⟩ := Chain.cons_iff.mp hq
  have hnotmem : p ∉ after.map Prod.fst := by
    have hnodup := hl.of_append.nodup
    simp only [List.map_cons, List.nodup_cons, List.mem_cons, not_or] at hnodup
    exact hnodup.1.2
  have hlinked := hl.relink hafter hnotmem
  have hfound : listAt h l ((before.length + 1 : Nat) - 1) = .ok (some p) := by
    have hat := listAt_chain hl hne before.length
    have hpred : ((before.length + 1 : Nat) : Int) - 1 = before.length := by omega
    rw [List.getElem?_append_right (Nat.le_refl _), Nat.sub_self] at hat
    rw [hpred, hat]
    rfl
  refine ⟨h.put p ⟨value, next'⟩, ?_, hlinked⟩
  have hsome : l ≠ none := by
    rintro rfl
    cases before with
    | nil => cases hl
    | cons x before => cases hl
  cases l with
  | none => exact absurd rfl hsome
  | some first =>
      have hsize : ¬ ((before ++ (p, value) :: (q, gone) :: after).length : Int) ≤
          (before.length + 1 : Nat) := by
        rw [List.length_append, List.length_cons, List.length_cons]
        omega
      rw [listRemove, if_neg (by omega), listSize_chain hl, hne, if_neg Bool.false_ne_true]
      simp only [bind, Except.bind]
      rw [if_neg hsize, if_neg (by omega), hfound]
      simp only [deref_of_cell hp, deref_of_cell hq]
      rfl

end Chains

/-! ## Of a list that was built -/

/-- A call does what removal is: the caller's list loses the element at the index and the
call returns 1; where there is none it stays as it is and the call returns 0. -/
def Removes (h : CellHeap) (l : Ptr) (calls : List Put) (idx : Int) : Prop :=
  ∃ h' ret, listRemove h l idx = .ok (h', ret) ∧
    if 0 ≤ idx ∧ idx < calls.length then
      Holds h' l ((calls.map Put.value).eraseIdx idx.toNat) ∧ ret = some 1
    else (∀ xs, Chain h l xs → Chain h' l xs) ∧ ret = some 0

theorem Holds.unique {h : CellHeap} {l : Ptr} {values values' : List CellValue}
    (hl : Holds h l values) (hl' : Holds h l values') : values = values' := by
  obtain ⟨xs, hchain, rfl⟩ := hl
  obtain ⟨ys, hchain', rfl⟩ := hl'
  rw [hchain.unique hchain']

theorem exists_neighbours {α : Type} {xs : List α} {k : Nat} (hk : k + 1 < xs.length) :
    ∃ before x y after, xs = before ++ x :: y :: after ∧ before.length = k := by
  refine ⟨xs.take k, xs[k], xs[k + 1], xs.drop (k + 2), ?_, by rw [List.length_take]; omega⟩
  rw [← List.drop_eq_getElem_cons hk, ← List.drop_eq_getElem_cons, List.take_append_drop]

/-- Within the list the call fails, at the first index and behind it for its own reason. -/
theorem removes_inside {h : CellHeap} {l : Ptr} {calls : List Put}
    (hl : Holds h l (calls.map Put.value)) {k : Nat} (hk : k < calls.length) :
    ¬ Removes h l calls k := by
  rintro ⟨h', ret, hcall, hprop⟩
  rw [if_pos ⟨by omega, by omega⟩] at hprop
  obtain ⟨hholds, hret⟩ := hprop
  obtain ⟨xs, hchain, hvalues⟩ := id hl
  have hne : emptyChain xs = false := by
    rw [Bool.eq_false_iff]
    intro hempty
    rw [kept, hempty, if_pos rfl] at hvalues
    have hnil := List.map_eq_nil_iff.mp hvalues.symm
    rw [hnil] at hk
    cases hk
  have hlen : xs.length = calls.length := by
    rw [kept, hne, if_neg Bool.false_ne_true] at hvalues
    simpa using congrArg List.length hvalues
  cases k with
  | zero =>
      -- The caller's list is what it was.
      rw [Int.ofNat_zero, listRemove_first hchain hne] at hcall
      cases hcall
      have hsame := congrArg List.length (hl.unique hholds)
      have hpos : ((0 : Nat) : Int).toNat < calls.length := hk
      rw [List.length_eraseIdx, List.length_map, if_pos hpos] at hsame
      omega
  | succ k =>
      -- Nothing is returned.
      obtain ⟨before, ⟨p, value⟩, ⟨q, gone⟩, after, rfl, rfl⟩ :=
        exists_neighbours (show k + 1 < xs.length by omega)
      obtain ⟨h₁, hremove, -⟩ := listRemove_behind hchain hne
      rw [hremove] at hcall
      cases hcall
      cases hret

/-- Of a list that was built, `list_remove` is what removal is exactly for the indices that
have no element. -/
theorem removes_iff (malloc : Allocator Cell) {h : CellHeap} {l : Ptr} {calls : List Put}
    (hl : Built malloc h l calls) (idx : Int) :
    Removes h l calls idx ↔ idx < 0 ∨ calls.length ≤ idx := by
  have hholds := hl.holds
  constructor
  · intro hremoves
    by_contra hinside
    rw [not_or] at hinside
    have hidx : idx = (idx.toNat : Int) := by omega
    rw [hidx] at hremoves
    exact removes_inside hholds (by omega) hremoves
  · intro houtside
    obtain ⟨xs, hchain, hvalues⟩ := hholds
    have hsize : (if emptyChain xs then 0 else xs.length) = calls.length := by
      have hlen := congrArg List.length hvalues
      rw [List.length_map, List.length_map, kept] at hlen
      rw [← hlen]
      split
      · rfl
      · rfl
    refine ⟨h, some 0, ?_, ?_⟩
    · apply listRemove_outside hchain
      rw [hsize]
      exact houtside
    · rw [if_neg (by omega)]
      exact ⟨fun _ hxs => hxs, rfl⟩

theorem removes_iff_beyond :
    ∃ h l, runPuts Allocator.fresh Heap.empty none [.i 45, .s (str "hello"), .b 1] = .ok (h, l) ∧
      Removes h l [.i 45, .s (str "hello"), .b 1] 3 := by
  obtain ⟨h, l, hrun, hbuilt⟩ :=
    (Built.null Heap.empty : Built Allocator.fresh _ _ _).runPuts
      [.i 45, .s (str "hello"), .b 1]
  exact ⟨h, l, hrun, (removes_iff Allocator.fresh hbuilt 3).mpr (Or.inr (by decide))⟩

/-- Of two elements neither the first nor the second is removed as it should be. -/
theorem removes_broken :
    ¬ ∀ (malloc : Allocator Cell) (h : CellHeap) (l : Ptr) (calls : List Put),
      Built malloc h l calls → ∀ idx, Removes h l calls idx := by
  intro hall
  obtain ⟨h, l, -, hbuilt⟩ :=
    (Built.null Heap.empty : Built Allocator.fresh _ _ _).runPuts [.i 45, .s (str "hello")]
  have hlen : 0 < ([] ++ [Put.i 45, .s (str "hello")]).length := by decide
  exact removes_inside hbuilt.holds hlen (hall _ _ _ _ hbuilt _)

end STRos.Cells
