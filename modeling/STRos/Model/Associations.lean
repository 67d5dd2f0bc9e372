import STRos.Lib.Heap
import STRos.Model.Dictionary

/-! # dictionary.c on the heap

The associations of `dictionary.c` with their pointers. Several dictionaries may share the
heap. A loop that goes through more associations than there are addresses does not end.
-/

namespace STRos.Associations

open CString Memory

variable {α : Type}

/-- `struct __assoc`: the key with the value, and the next one. -/
abbrev Assoc (α : Type) := Node (Bytes × α)

abbrev AssocHeap (α : Type) := Heap (Assoc α)

/-- A `dictionary` with the heap its pointers lead into. -/
structure Table (α : Type) where
  heap : AssocHeap α
  slot : Nat → Ptr

/-- `*np` -/
def deref (h : AssocHeap α) (np : Nat) : C (Assoc α) := inBounds (h.cell np)

/-- `dic[i]`, in an array of `HASHSIZE` pointers. -/
def slotAt (dic : Table α) (i : Nat) : C Ptr :=
  if i < hashSize then .ok (dic.slot i) else .error .outOfBounds

def dict (h : AssocHeap α) : Table α := ⟨h, fun _ => none⟩

def lookupLoop (h : AssocHeap α) (key : Bytes) : Nat → Ptr → C Ptr
  | _, none => .ok none
  | 0, some _ => .error .diverges
  | fuel + 1, some np => do
      let c ← deref h np
      if key = c.value.1 then return some np else lookupLoop h key fuel c.next

def dlookup (dic : Table α) (key : Bytes) : C Ptr := do
  let np ← slotAt dic (hash key dHashSize)
  lookupLoop dic.heap key dic.heap.top np

/-- `__put_el_with_key`; `old` is what the new block holds where the value will be. -/
def putElWithKey (malloc : Allocator (Assoc α)) (old : α) (dic : Table α) (key : Bytes) :
    C (Table α × Nat) := do
  match ← dlookup dic key with
  | some np => return (dic, np)
  | none =>
      let hashval := hash key dHashSize
      let next ← slotAt dic hashval
      let (h, np) := malloc.alloc dic.heap ⟨(key, old), next⟩
      return (⟨h, Function.update dic.slot hashval (some np)⟩, np)

/-- The dictionary afterwards, and the association that is returned. -/
def dput (malloc : Allocator (Assoc α)) (old : α) (dic : Table α) (key : Bytes) (value : α) :
    C (Table α × Nat) := do
  let (dic, np) ← putElWithKey malloc old dic key
  let c ← deref dic.heap np
  return ({ dic with heap := dic.heap.put np { c with value := (c.value.1, value) } }, np)

/-- The loop of `dremove`; the association that is skipped is not freed. -/
def removeLoop (h : AssocHeap α) (key : Bytes) : Nat → Ptr → C (AssocHeap α × Int32)
  | _, none => .ok (h, 0)
  | 0, some _ => .error .diverges
  | fuel + 1, some np => do
      let c ← deref h np
      match c.next with
      | none => return (h, 0)
      | some q =>
          let d ← deref h q
          if key = d.value.1 then return (h.put np { c with next := d.next }, 1)
          else removeLoop h key fuel (some q)

def dremove (dic : Table α) (key : Bytes) : C (Table α × Int32) := do
  let hashval := hash key dHashSize
  match ← slotAt dic hashval with
  | none => return (dic, 0)
  | some np =>
      let c ← deref dic.heap np
      if key = c.value.1 then
        return ({ dic with slot := Function.update dic.slot hashval c.next }, 1)
      else do
        let (h, found) ← removeLoop dic.heap key dic.heap.top (some np)
        return ({ dic with heap := h }, found)

def dvalue (dic : Table α) (key : Bytes) : C (Option α) := do
  match ← dlookup dic key with
  | none => return none
  | some np =>
      let c ← deref dic.heap np
      return some c.value.2

/-- The inner loop of `for_each_assoc`, with the associations it comes to. -/
def forEachLoop (h : AssocHeap α) : Nat → Ptr → C (List Nat)
  | _, none => .ok []
  | 0, some _ => .error .diverges
  | fuel + 1, some np => do
      let c ← deref h np
      let rest ← forEachLoop h fuel c.next
      return np :: rest

def forEachAssoc (dic : Table α) : C (List Nat) := do
  let chains ← (List.range hashSize).mapM fun i => do
    let np ← slotAt dic i
    forEachLoop dic.heap dic.heap.top np
  return chains.flatten

end STRos.Associations
