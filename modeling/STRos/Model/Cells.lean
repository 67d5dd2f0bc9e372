import STRos.Lib.Heap
import STRos.Model.Utils

/-! # list.c on the heap

The cells of `list.c` with their pointers. A `list *` is the pointer it holds before and
after the call. A loop that goes through more cells than there are addresses has come
back to one of them and does not end.
-/

namespace STRos.Cells

open CString Memory

/-- The type tag of a cell, with the union member it selects. -/
inductive CellValue
  | nil
  | int (i : Int32)
  | bool (b : Int32)
  | string (s : Bytes)
  | double (d : Binary64)
  | date (s : Bytes)
  | base64 (s : Bytes)
  | array (l : Ptr)

def CellValue.isNil : CellValue → Bool
  | .nil => true
  | _ => false

abbrev Cell := Node CellValue

abbrev CellHeap := Heap Cell

/-- `*p`, for a cell that was not freed. -/
def deref (h : CellHeap) (p : Nat) : C Cell := inBounds (h.cell p)

/-! ## Reading -/

def lastLoop (h : CellHeap) : Nat → Ptr → C Ptr
  | _, none => .ok none
  | 0, some _ => .error .diverges
  | fuel + 1, some p => do
      let c ← deref h p
      if c.next ≠ none then lastLoop h fuel c.next else return some p

def listLast (h : CellHeap) (l : Ptr) : C Ptr := lastLoop h h.top l

/-- `list_empty`, the test that `list_put` and `list_size` start with as well. -/
def listEmpty (h : CellHeap) (l : Ptr) : C Bool :=
  match l with
  | none => .ok true
  | some p => do
      let c ← deref h p
      return c.value.isNil

/-- The counter is an `int`: no list has 2147483648 cells. -/
def sizeLoop (h : CellHeap) : Nat → Ptr → Nat → C Nat
  | _, none, i => .ok i
  | 0, some _, _ => .error .diverges
  | fuel + 1, some np, i => do
      let c ← deref h np
      sizeLoop h fuel c.next (i + 1)

def listSize (h : CellHeap) (l : Ptr) : C Nat := do
  if ← listEmpty h l then return 0 else sizeLoop h h.top l 0

def atLoop (h : CellHeap) (idx : Int) : Nat → Ptr → Nat → C Ptr
  | _, none, _ => .ok none
  | 0, some _, _ => .error .diverges
  | fuel + 1, some np, i =>
      if i = idx then .ok (some np)
      else do
        let c ← deref h np
        atLoop h idx fuel c.next (i + 1)

def listAt (h : CellHeap) (l : Ptr) (idx : Int) : C Ptr :=
  if l = none ∨ idx < 0 then .ok none
  else do
    let size ← listSize h l
    if size ≤ idx then return none else atLoop h idx h.top l 0

/-! ## Building -/

section Allocating

variable (malloc : Allocator Cell)

/-- `list_item`, with the member its callers assign. -/
def listItem (h : CellHeap) (value : CellValue) : CellHeap × Nat :=
  malloc.alloc h ⟨value, none⟩

def listInit (h : CellHeap) : CellHeap × Ptr :=
  let (h, ret) := listItem malloc h .nil
  (h, some ret)

def listPut (h : CellHeap) (l : Ptr) (it : Nat) : C (CellHeap × Ptr) := do
  if ← listEmpty h l then return (h, some it)
  else
    match ← listLast h l with
    | none => .error .nullItem
    | some np =>
        let c ← deref h np
        return (h.put np { c with next := some it }, l)

/-- The functions `list_put_*`: a new cell is put. -/
def putItem (h : CellHeap) (l : Ptr) (value : CellValue) : C (CellHeap × Ptr) :=
  let (h, it) := listItem malloc h value
  listPut h l it

def listPutI (h : CellHeap) (l : Ptr) (v : Int32) : C (CellHeap × Ptr) :=
  putItem malloc h l (.int v)
def listPutD (h : CellHeap) (l : Ptr) (v : Binary64) : C (CellHeap × Ptr) :=
  putItem malloc h l (.double v)
def listPutB (h : CellHeap) (l : Ptr) (v : Int32) : C (CellHeap × Ptr) :=
  putItem malloc h l (.bool v)
def listPutB64 (h : CellHeap) (l : Ptr) (v : Bytes) : C (CellHeap × Ptr) :=
  putItem malloc h l (.base64 v)
def listPutDate (h : CellHeap) (l : Ptr) (v : Bytes) : C (CellHeap × Ptr) :=
  putItem malloc h l (.date v)
def listPutS (h : CellHeap) (l : Ptr) (v : Bytes) : C (CellHeap × Ptr) :=
  putItem malloc h l (.string v)
def listPutArray (h : CellHeap) (l : Ptr) (v : Ptr) : C (CellHeap × Ptr) :=
  putItem malloc h l (.array v)

/-- The value of the cell that `list_put_special` makes of a text. -/
def specialValue (s : Bytes) : CellValue :=
  if matchInt s then .int (atoi s)
  else if matchFloat s then .double (atof s)
  else .string s

def listPutSpecial (h : CellHeap) (l : Ptr) (s : Bytes) : C (CellHeap × Ptr) :=
  putItem malloc h l (specialValue s)

end Allocating

/-! ## Taking apart -/

/-- `list_remove` gets the pointer by value, and its last path ends without a `return`. -/
def listRemove (h : CellHeap) (l : Ptr) (idx : Int) : C (CellHeap × Option Int32) :=
  match l with
  | none => .ok (h, some 0)
  | some p =>
      if idx < 0 then .ok (h, some 0)
      else do
        let size ← listSize h l
        if size ≤ idx then return (h, some 0)
        else if idx = 0 then
          let _ ← deref h p
          return (h, some 1)
        else
          match ← listAt h l (idx - 1) with
          | none => return (h, some 0)
          | some np =>
              let c ← deref h np
              match c.next with
              | none => return (h, some 1)
              | some q =>
                  let d ← deref h q
                  return (h.put np { c with next := d.next }, none)

/-- The loop of `list_free`; what it calls for an array leaves NULL in its cell. -/
def freeLoop (h : CellHeap) : Nat → Ptr → C CellHeap
  | _, none => .ok h
  | 0, some _ => .error .diverges
  | fuel + 1, some curr => do
      let c ← deref h curr
      match c.value with
      | .array l =>
          let h ← freeLoop h fuel l
          let d ← deref h curr
          let h := h.put curr { d with value := .array none }
          freeLoop (h.erase curr) fuel c.next
      | _ => freeLoop (h.erase curr) fuel c.next

def listFree (h : CellHeap) (l : Ptr) : C (CellHeap × Ptr) := do
  let h ← freeLoop h h.top l
  return (h, none)

/-! ## split -/

/-- `strsep (&s, delim)` for a set of delimiters: the token, and the rest unless it is
NULL. -/
def strsepSet (delim s : Bytes) : Bytes × Option Bytes :=
  let token := s.takeWhile (· ∉ delim)
  match s.drop token.length with
  | [] => (token, none)
  | _ :: rest => (token, some rest)

/-- What the loop of `split` has not read. -/
def remaining : Option Bytes → Nat
  | none => 0
  | some s => s.length + 1

theorem remaining_strsepSet (delim s : Bytes) :
    remaining (strsepSet delim s).2 < remaining (some s) := by
  simp only [strsepSet]
  cases hrest : s.drop (s.takeWhile (· ∉ delim)).length with
  | nil => exact Nat.succ_pos _
  | cons c rest =>
      have hlen := congrArg List.length hrest
      rw [List.length_drop, List.length_cons] at hlen
      simp only [remaining]
      omega

/-- The loop of `split`, with `str_cpy` before the next call of `strsep`. -/
def splitLoop (malloc : Allocator Cell) (delim : Bytes) (h : CellHeap) (l : Ptr) :
    Option Bytes → C (CellHeap × Ptr)
  | none => .ok (h, l)
  | some s =>
      if 0 < (strsepSet delim s).1.length then do
        let (h, l) ← listPutSpecial malloc h l (strsepSet delim s).1
        splitLoop malloc delim h l (strsepSet delim s).2
      else splitLoop malloc delim h l (strsepSet delim s).2
  termination_by str_cpy => remaining str_cpy
  decreasing_by
    · exact remaining_strsepSet delim s
    · exact remaining_strsepSet delim s

def split (malloc : Allocator Cell) (h : CellHeap) (str delim : Option Bytes) :
    C (CellHeap × Ptr) :=
  match str, delim with
  | some str, some delim => do
      let (h, l) := listInit malloc h
      let (h, l) ← splitLoop malloc delim h l (some str)
      match l with
      | none => .error .nullItem
      | some p =>
          let c ← deref h p
          if c.value.isNil then return (h, none) else return (h, l)
  | _, _ => .ok (h, none)

end STRos.Cells
