import STRos.Model.Cells

/-! # A list is the sequence of what was put into it

The chain of a list holds one cell for each call, or the NIL cell of a fresh list when
there was none. Other code may change any other cell of the heap in between.
-/

namespace STRos.Cells

open CString Memory

inductive Put
  | i (v : Int32)
  | d (v : Binary64)
  | b (v : Int32)
  | b64 (v : Bytes)
  | date (v : Bytes)
  | s (v : Bytes)
  | array (v : Ptr)
  | special (text : Bytes)

def Put.value : Put → CellValue
  | .i v => .int v
  | .d v => .double v
  | .b v => .bool v
  | .b64 v => .base64 v
  | .date v => .date v
  | .s v => .string v
  | .array v => .array v
  | .special text => specialValue text

def Put.call (malloc : Allocator Cell) (h : CellHeap) (l : Ptr) : Put → C (CellHeap × Ptr)
  | .i v => listPutI malloc h l v
  | .d v => listPutD malloc h l v
  | .b v => listPutB malloc h l v
  | .b64 v => listPutB64 malloc h l v
  | .date v => listPutDate malloc h l v
  | .s v => listPutS malloc h l v
  | .array v => listPutArray malloc h l v
  | .special text => listPutSpecial malloc h l text

theorem Put.call_eq (malloc : Allocator Cell) (h : CellHeap) (l : Ptr) (p : Put) :
    p.call malloc h l = putItem malloc h l p.value := by
  cases p <;> rfl

theorem specialValue_isNil (s : Bytes) : (specialValue s).isNil = false := by
  unfold specialValue
  split
  · rfl
  · split <;> rfl

theorem Put.value_isNil (p : Put) : p.value.isNil = false := by
  cases p with
  | special text => exact specialValue_isNil text
  | _ => rfl

/-! ## The loops on a chain -/

section Loops

variable {h : CellHeap} {l : Ptr} {xs : List (Nat × CellValue)}

theorem deref_of_cell {p : Nat} {c : Cell} (hp : h.cell p = some c) : deref h p = .ok c := by
  rw [deref, hp]
  rfl

theorem lastLoop_chain (hl : Chain h l xs) {fuel : Nat} (hfuel : xs.length ≤ fuel) :
    lastLoop h fuel l = .ok (xs.getLast?.map Prod.fst) := by
  induction hl generalizing fuel with
  | null => cases fuel <;> rfl
  | @node p value next rest hp hrest ih =>
      cases fuel with
      | zero => cases hfuel
      | succ fuel =>
          have hfuel' : rest.length ≤ fuel := Nat.le_of_succ_le_succ hfuel
          rw [lastLoop, deref_of_cell hp]
          simp only [bind, Except.bind]
          cases hrest with
          | null => rfl
          | node hq hrest' =>
              rw [if_pos (by simp), ih hfuel', List.getLast?_cons_cons]

theorem sizeLoop_chain (hl : Chain h l xs) {fuel : Nat} (hfuel : xs.length ≤ fuel) (i : Nat) :
    sizeLoop h fuel l i = .ok (i + xs.length) := by
  induction hl generalizing fuel i with
  | null => cases fuel <;> rfl
  | node hp hrest ih =>
      cases fuel with
      | zero => cases hfuel
      | succ fuel =>
          rw [sizeLoop, deref_of_cell hp]
          simp only [bind, Except.bind]
          rw [ih (Nat.le_of_succ_le_succ hfuel), List.length_cons]
          congr 1
          omega

/-- From the cell with the number `i` on the loop looks for the one with the number `idx`. -/
theorem atLoop_chain (hl : Chain h l xs) {fuel : Nat} (hfuel : xs.length ≤ fuel) (i k : Nat) :
    atLoop h (i + k : Nat) fuel l i = .ok (xs[k]?.map Prod.fst) := by
  induction hl generalizing fuel i k with
  | null => cases fuel <;> rfl
  | node hp hrest ih =>
      cases fuel with
      | zero => cases hfuel
      | succ fuel =>
          cases k with
          | zero =>
              rw [atLoop, if_pos (by rw [Nat.add_zero])]
              rfl
          | succ k =>
              have hne : ¬ (i : Int) = ((i + (k + 1) : Nat) : Int) := by omega
              have hnext := ih (Nat.le_of_succ_le_succ hfuel) (i + 1) k
              rw [atLoop, if_neg hne, deref_of_cell hp, List.getElem?_cons_succ, ← hnext,
                Nat.add_right_comm]
              rfl

/-- What the test of `list_empty` sees: no cell, or the NIL cell of a fresh list. -/
def emptyChain (xs : List (Nat × CellValue)) : Bool :=
  match xs with
  | [] => true
  | (_, value) :: _ => value.isNil

theorem listEmpty_chain (hl : Chain h l xs) : listEmpty h l = .ok (emptyChain xs) := by
  cases hl with
  | null => rfl
  | node hp hrest =>
      rw [listEmpty, deref_of_cell hp]
      rfl

theorem listLast_chain (hl : Chain h l xs) : listLast h l = .ok (xs.getLast?.map Prod.fst) :=
  lastLoop_chain hl hl.length_le_top

theorem listSize_chain (hl : Chain h l xs) :
    listSize h l = .ok (if emptyChain xs then 0 else xs.length) := by
  rw [listSize, listEmpty_chain hl]
  simp only [bind, Except.bind]
  cases emptyChain xs with
  | true => rfl
  | false =>
      rw [if_neg Bool.false_ne_true, if_neg Bool.false_ne_true,
        sizeLoop_chain hl hl.length_le_top, Nat.zero_add]

theorem listAt_chain (hl : Chain h l xs) (hne : emptyChain xs = false) (k : Nat) :
    listAt h l k = .ok (xs[k]?.map Prod.fst) := by
  have hsome : l ≠ none := by
    rintro rfl
    cases hl
    cases hne
  have hcond : ¬ (l = none ∨ (k : Int) < 0) := by
    rintro (hl | hk)
    · exact hsome hl
    · omega
  rw [listAt, if_neg hcond, listSize_chain hl, hne, if_neg Bool.false_ne_true]
  simp only [bind, Except.bind]
  by_cases hk : (xs.length : Int) ≤ k
  · have hle : xs.length ≤ k := by omega
    rw [if_pos hk, List.getElem?_eq_none hle]
    rfl
  · have hloop := atLoop_chain hl hl.length_le_top 0 k
    rw [Nat.zero_add] at hloop
    rw [if_neg hk, hloop]

theorem listAt_outside (hl : Chain h l xs) {idx : Int}
    (hidx : idx < 0 ∨ (if emptyChain xs then 0 else xs.length : Nat) ≤ idx) :
    listAt h l idx = .ok none := by
  rw [listAt]
  by_cases hcond : l = none ∨ idx < 0
  · rw [if_pos hcond]
  · have hsize := hidx.resolve_left fun hneg => hcond (Or.inr hneg)
    rw [if_neg hcond, listSize_chain hl]
    simp only [bind, Except.bind]
    rw [if_pos hsize]
    rfl

end Loops

/-! ## One call -/

theorem emptyChain_append {xs : List (Nat × CellValue)} (h : emptyChain xs = false)
    (ys : List (Nat × CellValue)) : emptyChain (xs ++ ys) = false := by
  cases xs with
  | nil => cases h
  | cons x xs => exact h

def kept (xs : List (Nat × CellValue)) : List (Nat × CellValue) :=
  if emptyChain xs then [] else xs

theorem kept_append_item {xs : List (Nat × CellValue)} {p : Nat} {value : CellValue}
    (hvalue : value.isNil = false) : kept (kept xs ++ [(p, value)]) = kept xs ++ [(p, value)] := by
  have hne : emptyChain (kept xs ++ [(p, value)]) = false := by
    cases hempty : emptyChain xs with
    | true =>
        rw [kept, hempty, if_pos rfl]
        exact hvalue
    | false =>
        rw [kept, hempty, if_neg Bool.false_ne_true]
        exact emptyChain_append hempty _
  rw [kept, hne, if_neg Bool.false_ne_true]

/-- The values of the cells of a list, but for the NIL cell of a fresh one. -/
def Holds (h : CellHeap) (l : Ptr) (values : List CellValue) : Prop :=
  ∃ xs, Chain h l xs ∧ (kept xs).map Prod.snd = values

theorem cell_of_last {h : CellHeap} {l : Ptr} {before : List (Nat × CellValue)} {p : Nat}
    {value : CellValue} (hl : Chain h l (before ++ [(p, value)])) :
    h.cell p = some ⟨value, none⟩ := by
  obtain ⟨-, next, hp, hrest⟩ := Chain.cons_iff.mp hl.of_append
  rw [Chain.nil_iff.mp hrest] at hp
  exact hp

/-- What a put leaves of the heap: the list has one more cell, and the other cells are as
they were. -/
structure PutTo (h : CellHeap) (xs : List (Nat × CellValue)) (value : CellValue) (h' : CellHeap)
    (l' : Ptr) (p : Nat) : Prop where
  fresh : h.cell p = none
  chain : Chain h' l' (kept xs ++ [(p, value)])
  frame : ∀ q, q ∉ (kept xs).map Prod.fst → q ≠ p → h'.cell q = h.cell q

theorem putItem_chain (malloc : Allocator Cell) {h : CellHeap} {l : Ptr}
    {xs : List (Nat × CellValue)} (hl : Chain h l xs) (value : CellValue) :
    ∃ h' l' p, putItem malloc h l value = .ok (h', l') ∧ PutTo h xs value h' l' p := by
  have hfree := malloc.free h
  have hnew : malloc.address h ∉ xs.map Prod.fst := by
    intro hmem
    obtain ⟨x, hx, heq⟩ := List.mem_map.mp hmem
    obtain ⟨next, hcell⟩ := hl.allocated x hx
    rw [heq, hfree] at hcell
    cases hcell
  have hl₁ := hl.alloc malloc ⟨value, none⟩
  have hcell₁ : (malloc.alloc h ⟨value, none⟩).1.cell (malloc.address h) =
      some ⟨value, none⟩ := Heap.put_self _ _ _
  have hframe₁ : ∀ q, q ≠ malloc.address h →
      (malloc.alloc h ⟨value, none⟩).1.cell q = h.cell q := fun q hq => Heap.put_of_ne _ hq _
  have hitem : Chain (malloc.alloc h ⟨value, none⟩).1 (some (malloc.address h))
      [(malloc.address h, value)] := .node hcell₁ .null
  simp only [putItem, listItem, listPut, listEmpty_chain hl₁, bind, Except.bind]
  cases hempty : emptyChain xs with
  | true =>
      rw [if_pos rfl]
      refine ⟨_, _, _, rfl, hfree, ?_, fun q _ hq => hframe₁ q hq⟩
      rw [kept, hempty, if_pos rfl]
      exact hitem
  | false =>
      rw [if_neg Bool.false_ne_true, listLast_chain hl₁]
      cases List.eq_nil_or_concat xs with
      | inl hnil =>
          rw [hnil] at hempty
          cases hempty
      | inr hconcat =>
          obtain ⟨before, ⟨a, w⟩, rfl⟩ := hconcat
          rw [List.concat_eq_append] at hl₁ hnew hempty ⊢
          have hlast := cell_of_last hl₁
          simp only [List.getLast?_concat, Option.map_some, deref_of_cell hlast]
          refine ⟨_, _, _, rfl, hfree, ?_, ?_⟩
          · rw [kept, hempty, if_neg Bool.false_ne_true, List.append_assoc]
            apply hl₁.relink hitem
            intro hmem
            have heq : a = malloc.address h := by simpa using hmem
            apply hnew
            rw [← heq]
            simp
          · intro q hq hne
            rw [kept, hempty, if_neg Bool.false_ne_true] at hq
            have hqa : q ≠ a := by
              rintro rfl
              apply hq
              simp
            exact (Heap.put_of_ne _ hqa _).trans (hframe₁ q hne)

/-! ## Call after call -/

section Runs

variable (malloc : Allocator Cell)

/-- The lists that calls make of a fresh list, of NULL or of a list that was freed. Between
two calls other code may run that leaves the cells of the list alone. -/
inductive Built : CellHeap → Ptr → List Put → Prop
  | init (h : CellHeap) : Built (listInit malloc h).1 (listInit malloc h).2 []
  | null (h : CellHeap) : Built h none []
  | freed {h h' : CellHeap} {l l' : Ptr} (hfree : listFree h l = .ok (h', l')) : Built h' l' []
  | put {h h' : CellHeap} {l l' : Ptr} {calls : List Put} {p : Put} (hl : Built h l calls)
      (hcall : p.call malloc h l = .ok (h', l')) : Built h' l' (calls ++ [p])
  | other {h h' : CellHeap} {l : Ptr} {calls : List Put} (hl : Built h l calls)
      (hcells : ∀ xs, Chain h l xs → ∀ x ∈ xs, h'.cell x.1 = h.cell x.1) : Built h' l calls

variable {malloc}

theorem Holds.put {h h' : CellHeap} {l l' : Ptr} {calls : List Put} {p : Put}
    (hl : Holds h l (calls.map Put.value)) (hcall : p.call malloc h l = .ok (h', l')) :
    Holds h' l' ((calls ++ [p]).map Put.value) := by
  obtain ⟨xs, hchain, hvalues⟩ := hl
  obtain ⟨h₁, l₁, a, hput, hdone⟩ := putItem_chain malloc hchain p.value
  rw [p.call_eq, hput] at hcall
  cases hcall
  refine ⟨_, hdone.chain, ?_⟩
  rw [kept_append_item p.value_isNil, List.map_append, List.map_append, hvalues]
  rfl

/-- However a list was built, it holds its calls. -/
theorem Built.holds {h : CellHeap} {l : Ptr} {calls : List Put}
    (hl : Built malloc h l calls) : Holds h l (calls.map Put.value) := by
  induction hl with
  | init h => exact ⟨_, .node (Heap.put_self _ _ _) .null, rfl⟩
  | null h => exact ⟨[], .null, rfl⟩
  | freed hfree =>
      obtain ⟨h₁, -, hret⟩ := bind_eq_ok.mp hfree
      cases hret
      exact ⟨[], .null, rfl⟩
  | put hl hcall ih => exact ih.put hcall
  | other hl hcells ih =>
      obtain ⟨xs, hchain, hvalues⟩ := ih
      exact ⟨xs, hchain.frame (hcells xs hchain), hvalues⟩

end Runs

/-! ## What the readers see -/

structure Represents (h : CellHeap) (l : Ptr) (calls : List Put) : Prop where
  size : listSize h l = .ok calls.length
  at_call : ∀ (i : Nat) (p : Put), calls[i]? = some p →
    ∃ a next, listAt h l i = .ok (some a) ∧ h.cell a = some ⟨p.value, next⟩
  at_outside : ∀ idx : Int, idx < 0 ∨ calls.length ≤ idx → listAt h l idx = .ok none
  last : ∀ p, calls.getLast? = some p →
    ∃ a, listLast h l = .ok (some a) ∧ h.cell a = some ⟨p.value, none⟩
  empty : listEmpty h l = .ok calls.isEmpty
  noNil : calls ≠ [] → ∃ xs, Chain h l xs ∧ ∀ x ∈ xs, x.2.isNil = false

theorem Holds.represents {h : CellHeap} {l : Ptr} {calls : List Put}
    (hl : Holds h l (calls.map Put.value)) : Represents h l calls := by
  obtain ⟨xs, hchain, hvalues⟩ := hl
  cases hempty : emptyChain xs with
  | true =>
      have hcalls : calls = [] := by
        rw [kept, hempty, if_pos rfl] at hvalues
        exact List.map_eq_nil_iff.mp hvalues.symm
      subst hcalls
      refine ⟨?_, by simp, ?_, by simp, ?_, by simp⟩
      · rw [listSize_chain hchain, hempty]
        rfl
      · intro idx hidx
        apply listAt_outside hchain
        rw [hempty]
        exact hidx
      · rw [listEmpty_chain hchain, hempty]
        rfl
  | false =>
      rw [kept, hempty, if_neg Bool.false_ne_true] at hvalues
      have hlen : xs.length = calls.length := by simpa using congrArg List.length hvalues
      have hne : calls ≠ [] := by
        rintro rfl
        rw [List.map_nil, List.map_eq_nil_iff] at hvalues
        rw [hvalues] at hempty
        cases hempty
      constructor
      · rw [listSize_chain hchain, hempty, if_neg Bool.false_ne_true, hlen]
      · intro i p hp
        have hvalue := congrArg (·[i]?) hvalues
        simp only [List.getElem?_map, hp, Option.map_some] at hvalue
        obtain ⟨⟨a, value⟩, hx, rfl⟩ := Option.map_eq_some_iff.mp hvalue
        obtain ⟨next, hcell⟩ := hchain.allocated _ (List.mem_of_getElem? hx)
        refine ⟨a, next, ?_, hcell⟩
        rw [listAt_chain hchain hempty, hx]
        rfl
      · intro idx hidx
        apply listAt_outside hchain
        rw [hempty, if_neg Bool.false_ne_true, hlen]
        exact hidx
      · intro p hp
        have hvalue := congrArg List.getLast? hvalues
        rw [List.getLast?_map, List.getLast?_map, hp] at hvalue
        obtain ⟨⟨a, value⟩, hx, rfl⟩ := Option.map_eq_some_iff.mp hvalue
        obtain ⟨before, rfl⟩ := List.getLast?_eq_some_iff.mp hx
        refine ⟨a, ?_, cell_of_last hchain⟩
        rw [listLast_chain hchain, hx]
        rfl
      · rw [listEmpty_chain hchain, hempty, List.isEmpty_eq_false_iff.mpr hne]
      · intro _
        refine ⟨xs, hchain, ?_⟩
        intro x hx
        have hmem : x.2 ∈ calls.map Put.value := hvalues ▸ List.mem_map_of_mem hx
        obtain ⟨p, -, hp⟩ := List.mem_map.mp hmem
        rw [← hp]
        exact p.value_isNil

def runPuts (malloc : Allocator Cell) : CellHeap → Ptr → List Put → C (CellHeap × Ptr)
  | h, l, [] => .ok (h, l)
  | h, l, p :: ps => do
      let (h, l) ← p.call malloc h l
      runPuts malloc h l ps

theorem Built.runPuts {malloc : Allocator Cell} {h : CellHeap} {l : Ptr} {calls : List Put}
    (hl : Built malloc h l calls) (ps : List Put) :
    ∃ h' l', Cells.runPuts malloc h l ps = .ok (h', l') ∧ Built malloc h' l' (calls ++ ps) := by
  induction ps generalizing h l calls with
  | nil => exact ⟨h, l, rfl, by rwa [List.append_nil]⟩
  | cons p ps ih =>
      obtain ⟨xs, hchain, -⟩ := hl.holds
      obtain ⟨h₁, l₁, -, hput, -⟩ := putItem_chain malloc hchain p.value
      have hcall : p.call malloc h l = .ok (h₁, l₁) := by rw [p.call_eq, hput]
      obtain ⟨h', l', hrun, hbuilt⟩ := ih (hl.put hcall)
      refine ⟨h', l', ?_, by rwa [List.append_cons]⟩
      rw [Cells.runPuts, hcall]
      exact hrun

/-- A list stands for the calls that built it, from any start and whatever other code does
to other cells in between, and every further sequence of calls goes through. -/
theorem built_represents (malloc : Allocator Cell) {h : CellHeap} {l : Ptr} {calls : List Put}
    (hl : Built malloc h l calls) :
    Represents h l calls ∧ ∀ ps, ∃ h' l', runPuts malloc h l ps = .ok (h', l') ∧
      Represents h' l' (calls ++ ps) := by
  constructor
  · exact hl.holds.represents
  · intro ps
    obtain ⟨h', l', hrun, hbuilt⟩ := hl.runPuts ps
    exact ⟨h', l', hrun, hbuilt.holds.represents⟩

/-- A fresh list with another one in it, between a number and a text. -/
theorem built_represents_nested :
    ∃ (h₁ h₂ : CellHeap) (v l : Ptr),
      runPuts Allocator.fresh (listInit Allocator.fresh Heap.empty).1 (some 0)
        [.special (str "12")] = .ok (h₁, v) ∧
      runPuts Allocator.fresh (listInit Allocator.fresh h₁).1 (listInit Allocator.fresh h₁).2
        [.i 45, .array v, .s (str "-1.5")] = .ok (h₂, l) ∧
      Represents h₁ v [.special (str "12")] ∧
      Represents h₂ l [.i 45, .array v, .s (str "-1.5")] := by
  obtain ⟨h₁, v, hinner, hv⟩ := (built_represents Allocator.fresh (.init Heap.empty)).2
    [.special (str "12")]
  obtain ⟨h₂, l, houter, hl⟩ := (built_represents Allocator.fresh (.init h₁)).2
    [.i 45, .array v, .s (str "-1.5")]
  exact ⟨h₁, h₂, v, l, hinner, houter, hv, hl⟩

end STRos.Cells
