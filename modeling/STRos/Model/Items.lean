import STRos.Model.Utils

/-! # list.c: chains of tagged values

A `list` is a pointer to a chain of cells, so it is modelled by the list of the
cells' values: `[]` is the NULL pointer and `[.nil]` the chain `list_init`
returns, whose only cell has the type `RPC_TYPE_NIL`. The constructor of an
`Item` is the type tag together with the union member the tag selects.
-/

namespace STRos

open CString

inductive Item
  | nil
  | int (i : Int32)
  | bool (b : Int32)
  | string (s : Bytes)
  | double (d : Binary64)
  | date (s : Bytes)
  | base64 (s : Bytes)
  | array (l : List Item)

/-- `list` and `rpc_value_t`. -/
abbrev RList := List Item

def Item.isNil : Item → Bool
  | .nil => true
  | _ => false

/-! ## Building -/

def listInit : RList := [.nil]

def listEmpty (l : RList) : Bool :=
  match l with
  | [] => true
  | it :: _ => it.isNil

/-- The NIL cell of a fresh list is replaced, any other chain is appended to. -/
def listPut (l : RList) (it : Item) : RList :=
  if listEmpty l then [it] else l ++ [it]

/-- The item `list_put_special` makes of a text. -/
def specialItem (s : Bytes) : Item :=
  if matchInt s then .int (atoi s)
  else if matchFloat s then .double (atof s)
  else .string s

def listPutSpecial (l : RList) (s : Bytes) : RList := listPut l (specialItem s)
def listPutI (l : RList) (v : Int32) : RList := listPut l (.int v)
def listPutB (l : RList) (v : Int32) : RList := listPut l (.bool v)
def listPutB64 (l : RList) (v : Bytes) : RList := listPut l (.base64 v)
def listPutDate (l : RList) (v : Bytes) : RList := listPut l (.date v)
def listPutS (l : RList) (v : Bytes) : RList := listPut l (.string v)
def listPutArray (l : RList) (v : RList) : RList := listPut l (.array v)

/-- `strdup` of a pointer that may be NULL. -/
def strdup : Option Bytes → C Bytes
  | some s => .ok s
  | none => .error .nullText

/-! ## Reading -/

/-- The counter is an `int`: no list has 2147483648 cells. -/
def listSize (l : RList) : Nat := if listEmpty l then 0 else l.length

/-- The cell at a position; `none` is the NULL pointer. -/
def listAt (l : RList) (idx : Int) : Option Item :=
  if idx < 0 ∨ listSize l ≤ idx then none else l[idx.toNat]?

/-- `p->value.s` for a pointer that may be NULL. The other texts lie in the same place. -/
def valueS : Option Item → C Bytes
  | none => .error .nullItem
  | some (.string s) => .ok s
  | some (.date s) => .ok s
  | some (.base64 s) => .ok s
  | some _ => .error .wrongMember

/-- `p->value.i`, which is the place of a bool as well. -/
def valueI : Option Item → C Int32
  | none => .error .nullItem
  | some (.int i) => .ok i
  | some (.bool b) => .ok b
  | some _ => .error .wrongMember

/-- `p->value.array`. -/
def valueArray : Option Item → C RList
  | none => .error .nullItem
  | some (.array l) => .ok l
  | some _ => .error .wrongMember

/-- The loop of `split` over the non-empty tokens, and its NULL for none. -/
def split (s delim : Bytes) : RList :=
  let l := (tokens delim s).foldl listPutSpecial listInit
  if listEmpty l then [] else l

/-! ## The chain as a sequence -/

/-- A chain without the sentinel: what every operation but `list_init` leaves. -/
def Proper (l : RList) : Prop := ∀ it ∈ l, it.isNil = false

theorem Proper.nil : Proper [] := by simp [Proper]

theorem proper_cons {it : Item} {l : RList} :
    Proper (it :: l) ↔ it.isNil = false ∧ Proper l := by
  simp [Proper]

/-- The items a list stands for: none for NULL and for a fresh list. -/
def contents (l : RList) : List Item := if listEmpty l then [] else l

@[simp] theorem contents_nil : contents [] = [] := rfl

@[simp] theorem contents_listInit : contents listInit = [] := rfl

theorem contents_of_proper {l : RList} (h : Proper l) : contents l = l := by
  cases l with
  | nil => rfl
  | cons it l => simp [contents, listEmpty, h it (by simp)]

theorem listSize_eq (l : RList) : listSize l = (contents l).length := by
  unfold listSize contents
  split <;> rfl

@[simp] theorem listEmpty_nil : listEmpty [] = true := rfl

@[simp] theorem listEmpty_cons (it : Item) (l : RList) : listEmpty (it :: l) = it.isNil := rfl

@[simp] theorem listEmpty_listInit : listEmpty listInit = true := rfl

theorem contents_of_not_empty {l : RList} (h : listEmpty l = false) : contents l = l := by
  simp [contents, h]

theorem listEmpty_append {l : RList} (h : listEmpty l = false) (m : RList) :
    listEmpty (l ++ m) = false := by
  cases l with
  | nil => cases h
  | cons it l => simpa using h

theorem listPut_listInit (it : Item) : listPut listInit it = [it] := rfl

theorem listPut_of_not_empty {l : RList} (h : listEmpty l = false) (it : Item) :
    listPut l it = l ++ [it] := by
  simp [listPut, h]

theorem listEmpty_listPut {l : RList} {it : Item} (hit : it.isNil = false) :
    listEmpty (listPut l it) = false := by
  unfold listPut
  split
  · simpa using hit
  · rename_i h
    exact listEmpty_append (by simpa using h) _

/-- A put appends to the sequence, whichever of the two empty lists it meets. -/
theorem contents_listPut {l : RList} {it : Item} (hit : it.isNil = false) :
    contents (listPut l it) = contents l ++ [it] := by
  rw [contents_of_not_empty (listEmpty_listPut hit)]
  unfold listPut contents
  split <;> simp

theorem listAt_ofNat (l : RList) (n : Nat) : listAt l n = (contents l)[n]? := by
  unfold listAt
  rw [listSize_eq]
  by_cases hn : n < (contents l).length
  · have hl : contents l = l := by
      unfold contents at hn ⊢
      split at hn
      · simp at hn
      · split <;> first | contradiction | rfl
    rw [hl] at hn ⊢
    simp [Nat.not_le.mpr hn, show ¬ (n : Int) < 0 by omega]
  · simp [Nat.not_lt.mp hn]

/-! ## Tokenised strings -/

theorem specialItem_isNil (s : Bytes) : (specialItem s).isNil = false := by
  unfold specialItem
  split
  · rfl
  · split <;> rfl

theorem specialItem_cases (t : Bytes) :
    (∃ i, specialItem t = .int i) ∨ (∃ d, specialItem t = .double d) ∨
      specialItem t = .string t := by
  unfold specialItem
  split
  · exact Or.inl ⟨_, rfl⟩
  · split
    · exact Or.inr (Or.inl ⟨_, rfl⟩)
    · exact Or.inr (Or.inr rfl)

theorem specialItem_of_wordlike {s : Bytes} (h : Wordlike s) : specialItem s = .string s := by
  simp [specialItem, h.1, h.2]

theorem contents_foldl_listPutSpecial (ts : List Bytes) (l : RList) :
    contents (ts.foldl listPutSpecial l) = contents l ++ ts.map specialItem := by
  induction ts generalizing l with
  | nil => simp
  | cons t ts ih =>
      rw [List.foldl_cons, ih, listPutSpecial, contents_listPut (specialItem_isNil t)]
      simp

/-- `split` classifies the non-empty tokens one by one, in order. -/
theorem split_eq (s delim : Bytes) : split s delim = (tokens delim s).map specialItem := by
  have h := contents_foldl_listPutSpecial (tokens delim s) listInit
  rw [contents_listInit, List.nil_append] at h
  rw [← h]
  rfl

theorem split_proper (s delim : Bytes) : Proper (split s delim) := by
  rw [split_eq]
  intro it hit
  obtain ⟨t, _, rfl⟩ := List.mem_map.mp hit
  exact specialItem_isNil t

theorem listAt_split_cases (t delim : Bytes) (idx : Int) :
    listAt (split t delim) idx = none ∨
      ∃ tok, listAt (split t delim) idx = some (specialItem tok) := by
  unfold listAt
  split
  · exact Or.inl rfl
  · rw [split_eq, List.getElem?_map]
    cases (tokens delim t)[idx.toNat]? with
    | none => exact Or.inl rfl
    | some tok => exact Or.inr ⟨tok, rfl⟩

/-- Of a token no other text is read than a string. -/
theorem valueS_split {t delim s : Bytes} {idx : Int} :
    valueS (listAt (split t delim) idx) = .ok s ↔
      listAt (split t delim) idx = some (.string s) := by
  rcases listAt_split_cases t delim idx with h | ⟨tok, h⟩
  · simp [h, valueS]
  · rcases specialItem_cases tok with ⟨i, htok⟩ | ⟨d, htok⟩ | htok <;> simp [h, htok, valueS]

theorem valueI_split {t delim : Bytes} {i : Int32} {idx : Int} :
    valueI (listAt (split t delim) idx) = .ok i ↔ listAt (split t delim) idx = some (.int i) := by
  rcases listAt_split_cases t delim idx with h | ⟨tok, h⟩
  · simp [h, valueI]
  · rcases specialItem_cases tok with ⟨i, htok⟩ | ⟨d, htok⟩ | htok <;> simp [h, htok, valueI]

@[simp] theorem split_nil (delim : Bytes) : split [] delim = [] := by simp [split_eq]

example : (split (str "12,-34.567,this is a string") (str ",")).length = 3 := by decide

end STRos
