import Mathlib.Data.List.Basic

/-! # Blocks of memory

A block is the list of what it holds. Reading is `getElem?`; a store changes one
place, a push fills the next place of a block that is filled from its start, and a
move copies a part of the block to its start. Each gives nothing outside the block.
-/

namespace Block

variable {α : Type}

def store (b : List α) (i : Nat) (x : α) : Option (List α) :=
  if i < b.length then some (b.set i x) else none

/-- `b` is what was written so far. -/
def push (cap : Nat) (b : List α) (x : α) : Option (List α) :=
  if b.length < cap then some (b ++ [x]) else none

/-- `memmove` of `n` places from `p` on to the start. -/
def moveToStart (b : List α) (p n : Nat) : Option (List α) :=
  if p + n ≤ b.length then some ((b.drop p).take n ++ b.drop n) else none

theorem store_append_cons (b : List α) (x y : α) (c : List α) :
    store (b ++ x :: c) b.length y = some (b ++ y :: c) := by
  have hlt : b.length < (b ++ x :: c).length := by simp
  rw [store, if_pos hlt, List.set_append_right _ _ (Nat.le_refl _), Nat.sub_self,
    List.set_cons_zero]

theorem push_of_lt {cap : Nat} {b : List α} (h : b.length < cap) (x : α) :
    push cap b x = some (b ++ [x]) := if_pos h

theorem moveToStart_append (a b c : List α) :
    moveToStart (a ++ (b ++ c)) a.length b.length =
      some (b ++ (a ++ (b ++ c)).drop b.length) := by
  have hle : a.length + b.length ≤ (a ++ (b ++ c)).length := by
    rw [List.length_append, List.length_append]
    omega
  rw [moveToStart, if_pos hle, List.drop_left, List.take_left]

end Block
