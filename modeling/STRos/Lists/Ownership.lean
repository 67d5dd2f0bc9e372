import STRos.Lists.Tokens

/-! # Lists that own their cells

A list of items is represented by the cells it owns: one for each item, and those of the
list inside where the item is an array. Every function of `list.c` that builds, reads or frees
a list does on its cells what the function on items does, and leaves the cells alone that the
list does not own.
-/

namespace STRos.Cells

open CString Memory

/-- The item of a cell that points to no other list. -/
def CellValue.plain : CellValue → Option Item
  | .nil => some .nil
  | .int i => some (.int i)
  | .bool b => some (.bool b)
  | .string s => some (.string s)
  | .double d => some (.double d)
  | .date s => some (.date s)
  | .base64 s => some (.base64 s)
  | .array _ => none

/-- The items a pointer leads to, with the cells that hold them. -/
inductive Owns (h : CellHeap) : Ptr → RList → List Nat → Prop
  | null : Owns h none [] []
  | plain {p : Nat} {value : CellValue} {next : Ptr} {it : Item} {rest : RList}
      {cells : List Nat} (hp : h.cell p = some ⟨value, next⟩) (hvalue : value.plain = some it)
      (hrest : Owns h next rest cells) : Owns h (some p) (it :: rest) (p :: cells)
  | array {p : Nat} {inner next : Ptr} {items rest : RList} {cells cells' : List Nat}
      (hp : h.cell p = some ⟨.array inner, next⟩) (hinner : Owns h inner items cells)
      (hrest : Owns h next rest cells') :
      Owns h (some p) (.array items :: rest) (p :: (cells ++ cells'))

/-- The item a cell's value stands for, with the cells of the list inside. -/
inductive Stands (h : CellHeap) : CellValue → Item → List Nat → Prop
  | plain {value : CellValue} {it : Item} (hvalue : value.plain = some it) : Stands h value it []
  | array {inner : Ptr} {items : RList} {cells : List Nat} (hinner : Owns h inner items cells) :
      Stands h (.array inner) (.array items) cells

theorem specialValue_plain (s : Bytes) : (specialValue s).plain = some (specialItem s) := by
  unfold specialValue specialItem
  split
  · rfl
  · split
    · rfl
    · rfl

section Owning

variable {h h' : CellHeap} {l : Ptr} {items : RList} {cells : List Nat}

theorem Owns.allocated (ho : Owns h l items cells) : ∀ p ∈ cells, ∃ c, h.cell p = some c := by
  induction ho with
  | null => simp
  | plain hp hvalue hrest ih =>
      rw [List.forall_mem_cons]
      exact ⟨⟨_, hp⟩, ih⟩
  | array hp hinner hrest ihInner ihRest =>
      rw [List.forall_mem_cons, List.forall_mem_append]
      exact ⟨⟨_, hp⟩, ihInner, ihRest⟩

theorem Owns.of_null (ho : Owns h none items cells) : items = [] := by
  cases ho
  rfl

theorem Owns.of_nil (ho : Owns h l [] cells) : cells = [] := by
  cases ho
  rfl

/-- What other code does to cells the list does not own leaves it as it is. -/
theorem Owns.frame (ho : Owns h l items cells) (heq : ∀ p ∈ cells, h'.cell p = h.cell p) :
    Owns h' l items cells := by
  induction ho with
  | null => exact .null
  | plain hp hvalue hrest ih =>
      rw [List.forall_mem_cons] at heq
      exact .plain (heq.1.trans hp) hvalue (ih heq.2)
  | array hp hinner hrest ihInner ihRest =>
      rw [List.forall_mem_cons, List.forall_mem_append] at heq
      exact .array (heq.1.trans hp) (ihInner heq.2.1) (ihRest heq.2.2)

theorem Stands.frame {value : CellValue} {it : Item} (hv : Stands h value it cells)
    (heq : ∀ p ∈ cells, h'.cell p = h.cell p) : Stands h' value it cells := by
  cases hv with
  | plain hvalue => exact .plain hvalue
  | array hinner => exact .array (hinner.frame heq)

theorem Stands.isNil {value : CellValue} {it : Item} (hv : Stands h value it cells) :
    value.isNil = it.isNil := by
  cases hv with
  | plain hvalue =>
      cases value with
      | array inner => cases hvalue
      | _ =>
          cases hvalue
          rfl
  | array hinner => rfl

theorem Owns.node {p : Nat} {value : CellValue} {next : Ptr} {it : Item} {rest : RList}
    {inner : List Nat} (hp : h.cell p = some ⟨value, next⟩) (hv : Stands h value it inner)
    (hrest : Owns h next rest cells) :
    Owns h (some p) (it :: rest) (p :: (inner ++ cells)) := by
  cases hv with
  | plain hvalue => exact .plain hp hvalue hrest
  | array hinner => exact .array hp hinner hrest

/-- The items of a chain, one for each cell, with the cells they own. -/
inductive Spine (h : CellHeap) : List (Nat × CellValue) → RList → List Nat → Prop
  | nil : Spine h [] [] []
  | cons {p : Nat} {value : CellValue} {xs : List (Nat × CellValue)} {it : Item} {rest : RList}
      {inner cells : List Nat} (hv : Stands h value it inner) (hrest : Spine h xs rest cells) :
      Spine h ((p, value) :: xs) (it :: rest) (p :: (inner ++ cells))

theorem Owns.spine (ho : Owns h l items cells) : ∃ xs, Chain h l xs ∧ Spine h xs items cells := by
  induction ho with
  | null => exact ⟨[], .null, .nil⟩
  | plain hp hvalue hrest ih =>
      obtain ⟨xs, hchain, hspine⟩ := ih
      exact ⟨_, .node hp hchain, .cons (.plain hvalue) hspine⟩
  | array hp hinner hrest ihInner ihRest =>
      obtain ⟨xs, hchain, hspine⟩ := ihRest
      exact ⟨_, .node hp hchain, .cons (.array hinner) hspine⟩

theorem Spine.owns {xs : List (Nat × CellValue)} (hspine : Spine h xs items cells)
    (hchain : Chain h l xs) : Owns h l items cells := by
  induction hspine generalizing l with
  | nil =>
      cases hchain
      exact .null
  | cons hv hrest ih =>
      cases hchain with
      | node hp hnext => exact .node hp hv (ih hnext)

namespace Spine

variable {xs : List (Nat × CellValue)}

theorem length (hspine : Spine h xs items cells) : xs.length = items.length := by
  induction hspine with
  | nil => rfl
  | cons hv hrest ih => rw [List.length_cons, List.length_cons, ih]

theorem subset (hspine : Spine h xs items cells) : ∀ x ∈ xs, x.1 ∈ cells := by
  induction hspine with
  | nil => simp
  | cons hv hrest ih =>
      rw [List.forall_mem_cons]
      refine ⟨List.mem_cons_self, ?_⟩
      intro x hx
      exact List.mem_cons_of_mem _ (List.mem_append_right _ (ih x hx))

theorem empty (hspine : Spine h xs items cells) : emptyChain xs = STRos.listEmpty items := by
  cases hspine with
  | nil => rfl
  | cons hv hrest => exact hv.isNil

/-- The cell with a number stands for the item with it. -/
theorem get (hspine : Spine h xs items cells) {k : Nat} {p : Nat} {value : CellValue}
    (hx : xs[k]? = some (p, value)) :
    ∃ it inner, items[k]? = some it ∧ Stands h value it inner := by
  induction hspine generalizing k with
  | nil => cases hx
  | cons hv hrest ih =>
      cases k with
      | zero =>
          cases hx
          exact ⟨_, _, rfl, hv⟩
      | succ k => exact ih hx

/-- The lists inside are not touched by what is done to the chain. -/
theorem frame (hspine : Spine h xs items cells) (hnodup : cells.Nodup)
    (heq : ∀ p ∈ cells, p ∉ xs.map Prod.fst → h'.cell p = h.cell p) :
    Spine h' xs items cells := by
  induction hspine with
  | nil => exact .nil
  | @cons p value xs it rest inner cells hv hrest ih =>
      obtain ⟨hp, happend⟩ := List.nodup_cons.mp hnodup
      obtain ⟨-, hcells, hapart⟩ := List.nodup_append.mp happend
      have hinner : ∀ q ∈ inner, h'.cell q = h.cell q := by
        intro q hq
        apply heq q (List.mem_cons_of_mem _ (List.mem_append_left _ hq))
        rw [List.map_cons, List.mem_cons]
        rintro (hqp | hmem)
        · obtain rfl : q = p := hqp
          exact hp (List.mem_append_left _ hq)
        · obtain ⟨x, hx, hxq⟩ := List.mem_map.mp hmem
          exact hapart q hq x.1 (hrest.subset x hx) hxq.symm
      refine .cons (hv.frame hinner) (ih hcells ?_)
      intro q hq hnot
      apply heq q (List.mem_cons_of_mem _ (List.mem_append_right _ hq))
      rw [List.map_cons, List.mem_cons]
      rintro (hqp | hmem)
      · obtain rfl : q = p := hqp
        exact hp (List.mem_append_right _ hq)
      · exact hnot hmem

theorem append {ys : List (Nat × CellValue)} {more : RList} {cells' : List Nat}
    (hx : Spine h xs items cells) (hy : Spine h ys more cells') :
    Spine h (xs ++ ys) (items ++ more) (cells ++ cells') := by
  induction hx with
  | nil => exact hy
  | cons hv hrest ih =>
      rw [List.cons_append, List.cons_append, List.cons_append, List.append_assoc]
      exact .cons hv ih

end Spine

/-! ## Reading -/

/-- The readers of a pointer give what those of the items do. -/
structure Reads (h : CellHeap) (l : Ptr) (items : RList) : Prop where
  empty : listEmpty h l = .ok (STRos.listEmpty items)
  size : listSize h l = .ok (STRos.listSize items)
  at_item : ∀ idx it, STRos.listAt items idx = some it → ∃ p value next inner,
    listAt h l idx = .ok (some p) ∧ h.cell p = some ⟨value, next⟩ ∧ Stands h value it inner
  at_outside : ∀ idx, STRos.listAt items idx = none → listAt h l idx = .ok none

theorem Owns.reads (ho : Owns h l items cells) : Reads h l items := by
  obtain ⟨xs, hchain, hspine⟩ := ho.spine
  have hsize : STRos.listSize items = if emptyChain xs then 0 else xs.length := by
    rw [STRos.listSize, hspine.empty, hspine.length]
  constructor
  · rw [listEmpty_chain hchain, hspine.empty]
  · rw [listSize_chain hchain, hsize]
  · intro idx it hit
    unfold STRos.listAt at hit
    by_cases hout : idx < 0 ∨ (STRos.listSize items : Int) ≤ idx
    · rw [if_pos hout] at hit
      cases hit
    · rw [if_neg hout] at hit
      obtain ⟨k, rfl⟩ := Int.eq_ofNat_of_zero_le (by omega : 0 ≤ idx)
      have hne : emptyChain xs = false := by
        rw [Bool.eq_false_iff]
        intro hempty
        rw [hsize, hempty, if_pos rfl] at hout
        omega
      have hlt : k < xs.length := by
        rw [hsize, hne, if_neg Bool.false_ne_true] at hout
        omega
      obtain ⟨it', inner, hit', hstands⟩ := hspine.get (List.getElem?_eq_getElem hlt)
      obtain ⟨next, hcell⟩ := hchain.allocated _ (List.getElem_mem hlt)
      rw [Int.toNat_natCast, hit'] at hit
      cases hit
      refine ⟨_, _, next, inner, ?_, hcell, hstands⟩
      rw [listAt_chain hchain hne, List.getElem?_eq_getElem hlt]
      rfl
  · intro idx hit
    apply listAt_outside hchain
    rw [← hsize]
    by_contra hin
    unfold STRos.listAt at hit
    rw [if_neg hin, List.getElem?_eq_none_iff, ← hspine.length] at hit
    rw [hsize] at hin
    split at hin
    · omega
    · omega

end Owning

/-! ## What a call does to the cells -/

/-- A call that takes some cells and gives others: new ones were not in use, no cell of
others is changed, and a cell that is not given and not freed is the NIL cell of a fresh
list. -/
structure Takes (h h' : CellHeap) (before after : List Nat) : Prop where
  nodup : after.Nodup
  fresh : ∀ p ∈ after, p ∈ before ∨ h.cell p = none
  frame : ∀ p c, h.cell p = some c → p ∉ before → h'.cell p = some c
  left : ∀ p c, h'.cell p = some c →
    p ∈ after ∨ c = ⟨.nil, none⟩ ∨ (p ∉ before ∧ h.cell p = some c)

namespace Takes

variable {h h₁ h' : CellHeap} {before middle after : List Nat}

theorem trans (hfirst : Takes h h₁ before middle) (hsecond : Takes h₁ h' middle after) :
    Takes h h' before after where
  nodup := hsecond.nodup
  fresh p hp := by
    cases hsecond.fresh p hp with
    | inl hmiddle => exact hfirst.fresh p hmiddle
    | inr hnone =>
        by_cases hmem : p ∈ before
        · exact Or.inl hmem
        · right
          cases hcell : h.cell p with
          | none => rfl
          | some c =>
              rw [hfirst.frame p c hcell hmem] at hnone
              cases hnone
  frame p c hp hnot := by
    apply hsecond.frame p c (hfirst.frame p c hp hnot)
    intro hmiddle
    cases hfirst.fresh p hmiddle with
    | inl hmem => exact hnot hmem
    | inr hnone =>
        rw [hp] at hnone
        cases hnone
  left p c hp := by
    rcases hsecond.left p c hp with hafter | hnil | ⟨hmiddle, hcell⟩
    · exact Or.inl hafter
    · exact Or.inr (Or.inl hnil)
    · exact Or.inr ((hfirst.left p c hcell).resolve_left hmiddle)

theorem refl {h : CellHeap} {cells : List Nat} (hnodup : cells.Nodup) : Takes h h cells cells where
  nodup := hnodup
  fresh p hp := Or.inl hp
  frame p c hp hnot := hp
  left p c hp := by
    by_cases hmem : p ∈ cells
    · exact Or.inl hmem
    · exact Or.inr (Or.inr ⟨hmem, hp⟩)

end Takes

/-! ## The NIL cell -/

/-- A list that starts with NIL is the fresh one. -/
def Sound (items : RList) : Prop :=
  STRos.listEmpty items = true → items = [] ∨ items = STRos.listInit

theorem Sound.put {it : Item} (hit : it.isNil = false) (items : RList) :
    Sound (STRos.listPut items it) := by
  intro hempty
  rw [listEmpty_listPut hit] at hempty
  cases hempty

theorem listPut_eq (items : RList) (it : Item) :
    STRos.listPut items it = contents items ++ [it] := by
  unfold STRos.listPut contents
  split
  · rfl
  · rfl

def contentCells (items : RList) (cells : List Nat) : List Nat :=
  if STRos.listEmpty items then [] else cells

theorem contentCells_sublist (items : RList) (cells : List Nat) :
    (contentCells items cells).Sublist cells := by
  unfold contentCells
  split
  · exact List.nil_sublist cells
  · exact List.Sublist.refl cells

section Owning

variable {h h' : CellHeap} {l : Ptr} {items : RList} {cells : List Nat}

theorem Spine.kept {xs : List (Nat × CellValue)} (hspine : Spine h xs items cells) :
    Spine h (Cells.kept xs) (contents items) (contentCells items cells) := by
  unfold Cells.kept contents contentCells
  rw [hspine.empty]
  split
  · exact .nil
  · exact hspine

/-- What holds no contents is a NIL cell. -/
theorem Owns.nilCell (ho : Owns h l items cells) (hsound : Sound items) {p : Nat} {c : Cell}
    (hp : p ∈ cells) (hnot : p ∉ contentCells items cells) (hcell : h.cell p = some c) :
    c = ⟨.nil, none⟩ := by
  unfold contentCells at hnot
  cases hempty : STRos.listEmpty items with
  | false =>
      rw [hempty, if_neg Bool.false_ne_true] at hnot
      exact absurd hp hnot
  | true =>
      rcases hsound hempty with rfl | rfl
      · cases ho
        cases hp
      · cases ho with
        | @plain q value next it rest cells hq hvalue hrest =>
            cases hrest
            obtain rfl := List.mem_singleton.mp hp
            rw [hq] at hcell
            cases hcell
            cases value with
            | nil => rfl
            | _ => cases hvalue

theorem Takes.content {before : List Nat} (htakes : Takes h h' before cells)
    (ho : Owns h' l items cells) (hsound : Sound items) :
    Takes h h' before (contentCells items cells) where
  nodup := (contentCells_sublist items cells).nodup htakes.nodup
  fresh p hp := htakes.fresh p ((contentCells_sublist items cells).subset hp)
  frame := htakes.frame
  left p c hcell := by
    by_cases hcontent : p ∈ contentCells items cells
    · exact Or.inl hcontent
    · right
      cases htakes.left p c hcell with
      | inl hmem => exact Or.inl (ho.nilCell hsound hmem hcontent hcell)
      | inr hrest => exact hrest

/-! ## Building -/

theorem Owns.init (malloc : Allocator Cell) (h : CellHeap) :
    Owns (listInit malloc h).1 (listInit malloc h).2 STRos.listInit [malloc.address h] ∧
      Takes h (listInit malloc h).1 [] [malloc.address h] := by
  have hcell : (listInit malloc h).1.cell (malloc.address h) = some ⟨.nil, none⟩ :=
    Heap.put_self _ _ _
  refine ⟨.plain hcell rfl .null, List.nodup_singleton _, ?_, ?_, ?_⟩
  · intro p hp
    rw [List.mem_singleton.mp hp]
    exact Or.inr (malloc.free h)
  · intro p c hp _
    exact (malloc.alloc_frame h _ hp).trans hp
  · intro p c hp
    by_cases heq : p = malloc.address h
    · exact Or.inl (List.mem_singleton.mpr heq)
    · have hsame : (listInit malloc h).1.cell p = h.cell p := Heap.put_of_ne _ heq _
      exact Or.inr (Or.inr ⟨List.not_mem_nil, hsame.symm.trans hp⟩)

theorem Stands.allocated {value : CellValue} {it : Item} (hv : Stands h value it cells) :
    ∀ p ∈ cells, ∃ c, h.cell p = some c := by
  cases hv with
  | plain hvalue => simp
  | array hinner => exact hinner.allocated

section Putting

variable {l' : Ptr} {xs : List (Nat × CellValue)} {value : CellValue} {it : Item} {p : Nat}
  {inner : List Nat}

theorem Spine.not_kept (hspine : Spine h xs items cells) {q : Nat}
    (hnot : q ∉ contentCells items cells) : q ∉ (Cells.kept xs).map Prod.fst := by
  intro hmem
  obtain ⟨x, hx, rfl⟩ := List.mem_map.mp hmem
  exact hnot (hspine.kept.subset x hx)

theorem PutTo.ne (hdone : PutTo h xs value h' l' p) {q : Nat} {c : Cell}
    (hq : h.cell q = some c) : q ≠ p := by
  rintro rfl
  rw [hdone.fresh] at hq
  cases hq

theorem PutTo.same (hdone : PutTo h xs value h' l' p) (hspine : Spine h xs items cells) {q : Nat}
    {c : Cell} (hq : h.cell q = some c) (hnot : q ∉ contentCells items cells) :
    h'.cell q = some c := by
  rw [hdone.frame q (hspine.not_kept hnot) (hdone.ne hq)]
  exact hq

theorem PutTo.owns (hdone : PutTo h xs value h' l' p) (hchain : Chain h l xs)
    (hspine : Spine h xs items cells) (hv : Stands h value it inner)
    (hnodup : (cells ++ inner).Nodup) :
    Owns h' l' (STRos.listPut items it) (contentCells items cells ++ p :: inner) := by
  have hsub := contentCells_sublist items cells
  obtain ⟨hcells, -, hapart⟩ := List.nodup_append.mp hnodup
  have hkept : Spine h' (kept xs) (STRos.contents items) (contentCells items cells) := by
    apply hspine.kept.frame (hsub.nodup hcells)
    intro q hq hnot
    obtain ⟨c, hc⟩ := (hspine.owns hchain).allocated q (hsub.subset hq)
    exact hdone.frame q hnot (hdone.ne hc)
  have hv' : Stands h' value it inner := by
    apply hv.frame
    intro q hq
    obtain ⟨c, hc⟩ := hv.allocated q hq
    rw [hc]
    exact hdone.same hspine hc fun hmem => hapart q (hsub.subset hmem) q hq rfl
  have hspine' := hkept.append (.cons (p := p) hv' .nil)
  rw [← listPut_eq, List.append_nil] at hspine'
  exact hspine'.owns hdone.chain

theorem PutTo.takes (hdone : PutTo h xs value h' l' p) (hchain : Chain h l xs)
    (hspine : Spine h xs items cells) (hsound : Sound items) (hv : Stands h value it inner)
    (hnodup : (cells ++ inner).Nodup) :
    Takes h h' (cells ++ inner) (contentCells items cells ++ p :: inner) := by
  have hsub := contentCells_sublist items cells
  have ho := hspine.owns hchain
  obtain ⟨hcells, hinner, hapart⟩ := List.nodup_append.mp hnodup
  constructor
  · rw [List.nodup_append, List.nodup_cons]
    refine ⟨hsub.nodup hcells, ⟨?_, hinner⟩, ?_⟩
    · intro hmem
      obtain ⟨c, hc⟩ := hv.allocated p hmem
      exact hdone.ne hc rfl
    · intro q hq r hr
      cases List.mem_cons.mp hr with
      | inl hrp =>
          obtain ⟨c, hc⟩ := ho.allocated q (hsub.subset hq)
          rw [hrp]
          exact hdone.ne hc
      | inr hr => exact hapart q (hsub.subset hq) r hr
  · intro q hq
    rcases List.mem_append.mp hq with hq | hq
    · exact Or.inl (List.mem_append_left _ (hsub.subset hq))
    · cases List.mem_cons.mp hq with
      | inl hqp =>
          rw [hqp]
          exact Or.inr hdone.fresh
      | inr hq => exact Or.inl (List.mem_append_right _ hq)
  · intro q c hq hnot
    apply hdone.same hspine hq
    exact fun hmem => hnot (List.mem_append_left _ (hsub.subset hmem))
  · intro q c hq
    by_cases hafter : q ∈ contentCells items cells ++ p :: inner
    · exact Or.inl hafter
    · right
      rw [List.mem_append, List.mem_cons, not_or, not_or] at hafter
      obtain ⟨hcontent, hqp, hqinner⟩ := hafter
      rw [hdone.frame q (hspine.not_kept hcontent) hqp] at hq
      by_cases hmem : q ∈ cells
      · exact Or.inl (ho.nilCell hsound hmem hcontent hq)
      · refine Or.inr ⟨?_, hq⟩
        rw [List.mem_append, not_or]
        exact ⟨hmem, hqinner⟩

/-- A put takes the list and, when it puts one, the list inside. -/
theorem Owns.put (malloc : Allocator Cell) (ho : Owns h l items cells) (hsound : Sound items)
    (hv : Stands h value it inner) (hnodup : (cells ++ inner).Nodup) :
    ∃ h' l' after, putItem malloc h l value = .ok (h', l') ∧
      Owns h' l' (STRos.listPut items it) after ∧ Takes h h' (cells ++ inner) after := by
  obtain ⟨xs, hchain, hspine⟩ := ho.spine
  obtain ⟨h', l', p, hput, hdone⟩ := putItem_chain malloc hchain value
  exact ⟨h', l', _, hput, hdone.owns hchain hspine hv hnodup,
    hdone.takes hchain hspine hsound hv hnodup⟩

end Putting

theorem Owns.putTokens (malloc : Allocator Cell) (ho : Owns h l items cells)
    (hsound : Sound items) (hnodup : cells.Nodup) (ts : List Bytes) :
    ∃ h' l' after, runPuts malloc h l (ts.map Put.special) = .ok (h', l') ∧
      Owns h' l' (ts.foldl STRos.listPutSpecial items) after ∧
      Sound (ts.foldl STRos.listPutSpecial items) ∧ Takes h h' cells after := by
  induction ts generalizing h l items cells with
  | nil => exact ⟨h, l, cells, rfl, ho, hsound, .refl hnodup⟩
  | cons t ts ih =>
      have hv : Stands h (specialValue t) (specialItem t) [] := .plain (specialValue_plain t)
      obtain ⟨h₁, l₁, middle, hput, ho₁, htakes₁⟩ :=
        ho.put malloc hsound hv (by rwa [List.append_nil])
      rw [List.append_nil] at htakes₁
      have hsound₁ : Sound (STRos.listPutSpecial items t) := Sound.put (specialItem_isNil t) items
      obtain ⟨h', l', after, hrun, ho', hsound', htakes'⟩ := ih ho₁ hsound₁ htakes₁.nodup
      refine ⟨h', l', after, ?_, ho', hsound', htakes₁.trans htakes'⟩
      rw [List.map_cons, runPuts, Put.call_eq]
      simp only [Put.value, hput, bind, Except.bind]
      exact hrun

theorem Owns.contents (ho : Owns h l items cells) :
    Owns h (if STRos.listEmpty items then none else l) (STRos.contents items)
      (contentCells items cells) := by
  unfold STRos.contents contentCells
  split
  · exact .null
  · exact ho

theorem foldl_listPutSpecial_ne_nil (hne : items ≠ []) (ts : List Bytes) :
    ts.foldl STRos.listPutSpecial items ≠ [] := by
  induction ts generalizing items with
  | nil => exact hne
  | cons t ts ih =>
      apply ih
      rw [STRos.listPutSpecial, listPut_eq]
      exact List.append_ne_nil_of_right_ne_nil _ (List.cons_ne_nil _ _)

/-- `split` builds the list of the items of the tokens. -/
theorem split_owns (malloc : Allocator Cell) (h : CellHeap) (s delim : Bytes) :
    ∃ h' l after, split malloc h (some s) (some delim) = .ok (h', l) ∧
      Owns h' l (STRos.split s delim) after ∧ Sound (STRos.split s delim) ∧
      Takes h h' [] after := by
  obtain ⟨hfresh, htakes⟩ := Owns.init malloc h
  obtain ⟨h', l, after, hrun, ho, hsound, htakes'⟩ :=
    hfresh.putTokens malloc (fun _ => Or.inr rfl) htakes.nodup (tokens delim s)
  have hresult : STRos.split s delim =
      STRos.contents ((tokens delim s).foldl STRos.listPutSpecial STRos.listInit) := rfl
  have hsound' : Sound (STRos.split s delim) := by
    rw [hresult]
    unfold STRos.contents
    split
    · exact fun _ => Or.inl rfl
    · exact hsound
  refine ⟨h', _, _, ?_, hresult ▸ ho.contents, hsound', (htakes.trans htakes').content ho hsound⟩
  have hsome : l ≠ none := by
    rintro rfl
    exact foldl_listPutSpecial_ne_nil (List.cons_ne_nil _ _) (tokens delim s) ho.of_null
  obtain ⟨p, rfl⟩ := Option.ne_none_iff_exists'.mp hsome
  obtain ⟨c, hderef, hempty⟩ := bind_eq_ok.mp ho.reads.empty
  rw [← Except.ok.inj hempty]
  simp only [split, splitLoop_eq]
  rw [hrun]
  simp only [bind, Except.bind, hderef]
  cases c.value.isNil with
  | true => rfl
  | false => rfl

end Owning

/-! ## Freeing -/

structure Erased (h h' : CellHeap) (cells : List Nat) : Prop where
  gone : ∀ p ∈ cells, h'.cell p = none
  frame : ∀ p, p ∉ cells → h'.cell p = h.cell p

namespace Erased

variable {h h₁ h' : CellHeap} {cells cells' : List Nat}

theorem append (hfirst : Erased h h₁ cells) (hsecond : Erased h₁ h' cells') :
    Erased h h' (cells ++ cells') where
  gone p hp := by
    by_cases hmem : p ∈ cells'
    · exact hsecond.gone p hmem
    · rw [hsecond.frame p hmem]
      exact hfirst.gone p ((List.mem_append.mp hp).resolve_right hmem)
  frame p hp := by
    rw [List.mem_append, not_or] at hp
    rw [hsecond.frame p hp.2, hfirst.frame p hp.1]

theorem perm (he : Erased h h' cells) (hperm : cells.Perm cells') : Erased h h' cells' where
  gone p hp := he.gone p (hperm.mem_iff.mpr hp)
  frame p hp := he.frame p fun hmem => hp (hperm.mem_iff.mp hmem)

theorem single (h : CellHeap) (p : Nat) : Erased h (h.erase p) [p] where
  gone q hq := by
    rw [List.mem_singleton.mp hq, Heap.erase_self]
  frame q hq := Heap.erase_of_ne h fun heq => hq (List.mem_singleton.mpr heq)

/-- What is written into a cell before it is freed does not matter. -/
theorem put_single (h : CellHeap) (p : Nat) (c : Cell) :
    Erased h ((h.put p c).erase p) [p] where
  gone q hq := by
    rw [List.mem_singleton.mp hq, Heap.erase_self]
  frame q hq := by
    have hne : q ≠ p := fun heq => hq (List.mem_singleton.mpr heq)
    rw [Heap.erase_of_ne _ hne, Heap.put_of_ne _ hne]

theorem same (he : Erased h h' cells) {base : CellHeap}
    (hsame : ∀ p ∈ cells ++ cells', h.cell p = base.cell p) (hapart : ∀ p ∈ cells', p ∉ cells) :
    ∀ p ∈ cells', h'.cell p = base.cell p := by
  intro p hp
  rw [he.frame p (hapart p hp)]
  exact hsame p (List.mem_append_right _ hp)

theorem takes (he : Erased h h' cells) : Takes h h' cells [] where
  nodup := List.nodup_nil
  fresh p hp := absurd hp List.not_mem_nil
  frame p c hp hnot := (he.frame p hnot).trans hp
  left p c hp := by
    by_cases hmem : p ∈ cells
    · rw [he.gone p hmem] at hp
      cases hp
    · exact Or.inr (Or.inr ⟨hmem, (he.frame p hmem).symm.trans hp⟩)

end Erased

section Owning

variable {h : CellHeap} {l : Ptr} {items : RList} {cells : List Nat}

/-- The loop frees what the list owns. It gets to it in a heap in which other cells were
freed before. -/
theorem Owns.freeLoop (ho : Owns h l items cells) (hnodup : cells.Nodup) {h₁ : CellHeap}
    (hsame : ∀ p ∈ cells, h₁.cell p = h.cell p) {fuel : Nat} (hfuel : cells.length ≤ fuel) :
    ∃ h', Cells.freeLoop h₁ fuel l = .ok h' ∧ Erased h₁ h' cells := by
  induction ho generalizing h₁ fuel with
  | null => exact ⟨h₁, by cases fuel <;> rfl, by simp, fun p _ => rfl⟩
  | @plain p value next it rest cells hp hvalue hrest ih =>
      cases fuel with
      | zero => cases hfuel
      | succ fuel =>
          obtain ⟨hapart, hnodup'⟩ := List.nodup_cons.mp hnodup
          have hcell := (hsame p List.mem_cons_self).trans hp
          have hfirst := Erased.single h₁ p
          have hsame' : ∀ q ∈ cells, (h₁.erase p).cell q = h.cell q := by
            apply hfirst.same hsame
            intro q hq hmem
            exact hapart (List.mem_singleton.mp hmem ▸ hq)
          obtain ⟨h', hloop, herased⟩ := ih hnodup' hsame' (Nat.le_of_succ_le_succ hfuel)
          refine ⟨h', ?_, hfirst.append herased⟩
          rw [Cells.freeLoop, deref_of_cell hcell]
          cases value with
          | array inner => cases hvalue
          | _ => exact hloop
  | @array p inner next items rest cells cells' hp hinner hrest ihInner ihRest =>
      cases fuel with
      | zero => cases hfuel
      | succ fuel =>
          obtain ⟨hapart, happend⟩ := List.nodup_cons.mp hnodup
          obtain ⟨hnodup₁, hnodup₂, hapart'⟩ := List.nodup_append.mp happend
          rw [List.mem_append, not_or] at hapart
          rw [List.length_cons, List.length_append] at hfuel
          have hcell := (hsame p List.mem_cons_self).trans hp
          have hsame₁ : ∀ q ∈ cells, h₁.cell q = h.cell q := fun q hq =>
            hsame q (List.mem_cons_of_mem _ (List.mem_append_left _ hq))
          obtain ⟨h₂, hloop, herased⟩ := ihInner hnodup₁ hsame₁ (by omega : cells.length ≤ fuel)
          have hcell₂ := (herased.frame p hapart.1).trans hcell
          have hgone := herased.append (Erased.put_single h₂ p ⟨.array none, next⟩)
          have hsame₂ : ∀ q ∈ cells',
              ((h₂.put p ⟨.array none, next⟩).erase p).cell q = h.cell q := by
            apply hgone.same
            · intro q hq
              apply hsame q
              rw [List.append_assoc, List.mem_append, List.mem_append, List.mem_singleton] at hq
              rw [List.mem_cons, List.mem_append]
              rcases hq with hq | hq | hq
              · exact Or.inr (Or.inl hq)
              · exact Or.inl hq
              · exact Or.inr (Or.inr hq)
            · intro q hq hmem
              cases List.mem_append.mp hmem with
              | inl hmem => exact hapart' q hmem q hq rfl
              | inr hmem => exact hapart.2 (List.mem_singleton.mp hmem ▸ hq)
          obtain ⟨h', hloop', herased'⟩ := ihRest hnodup₂ hsame₂ (by omega : cells'.length ≤ fuel)
          refine ⟨h', ?_, (hgone.append herased').perm ?_⟩
          · rw [Cells.freeLoop, deref_of_cell hcell]
            simp only [bind, Except.bind, hloop, deref_of_cell hcell₂]
            exact hloop'
          · rw [List.append_assoc]
            exact List.perm_middle

/-- `list_free` ends and frees what the list owns, each cell once. -/
theorem Owns.listFree (ho : Owns h l items cells) (hnodup : cells.Nodup) :
    ∃ h', Cells.listFree h l = .ok (h', none) ∧ Erased h h' cells := by
  have hsub : cells ⊆ List.range h.top := by
    intro p hp
    obtain ⟨c, hc⟩ := ho.allocated p hp
    exact List.mem_range.mpr (h.lt_top hc)
  have hfuel := (hnodup.subperm hsub).length_le
  rw [List.length_range] at hfuel
  obtain ⟨h', hloop, herased⟩ := ho.freeLoop hnodup (fun p _ => rfl) hfuel
  refine ⟨h', ?_, herased⟩
  rw [Cells.listFree, hloop]
  rfl

end Owning

end STRos.Cells
