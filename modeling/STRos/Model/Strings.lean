import STRos.Lib.Block
import STRos.Model.Rpc

/-! # trim and ext

The two on the blocks they work in: a string and its NUL. `trim` keeps the length in an
`int`, and `ext` gives the pointer that `strsep` has moved to `free`.
-/

namespace STRos

open CString

/-! ## trim -/

/-- `int l = strlen (p)` -/
def strlenInt (s : Bytes) : Int := sint32 (s.length % 4294967296)

/-- `while (p[l - 1] == delim) p[--l] = 0;` -/
def trimBack (delim : Byte) (block : Bytes) (l : Int) : C (Bytes × Int) :=
  if l ≤ 0 then .error .outOfBounds
  else do
    let c ← inBounds block[(l - 1).toNat]?
    if c = delim then
      let block ← inBounds (Block.store block (l - 1).toNat 0)
      trimBack delim block (l - 1)
    else return (block, l)
  termination_by l.toNat

/-- `while (*p && (*p) == delim) ++p, --l;` -/
def trimFront (delim : Byte) (block : Bytes) (p : Nat) (l : Int) : C (Nat × Int) :=
  if _h : p < block.length then
    if block[p] ≠ 0 ∧ block[p] = delim then trimFront delim block (p + 1) (l - 1) else .ok (p, l)
  else .error .outOfBounds
  termination_by block.length - p

def trimBlock (block : Bytes) (delim : Byte) : C Bytes := do
  let (block, l) ← trimBack delim block (strlenInt (cstr block))
  let (p, l) ← trimFront delim block 0 l
  if l + 1 < 0 then .error .negativeLength
  else inBounds (Block.moveToStart block p (l + 1).toNat)

/-! ## ext -/

/-- What `strsep` has not read, for the place and the text of `str_cpy`. -/
def unread : Option (Nat × Bytes) → Nat
  | none => 0
  | some (_, s) => s.length + 1

/-- `strsep (&str_cpy, ".")` at a place. -/
def strsepAt (place : Nat) (s : Bytes) : Bytes × Option (Nat × Bytes) :=
  let (token, rest) := strsep 46 s
  (token, rest.map fun rest => (place + token.length + 1, rest))

theorem unread_strsepAt (place : Nat) (s : Bytes) :
    unread (strsepAt place s).2 < unread (some (place, s)) := by
  simp only [strsepAt, strsep]
  cases hrest : s.drop (s.takeWhile (· ≠ 46)).length with
  | nil => exact Nat.succ_pos _
  | cons c rest =>
      have hlen := congrArg List.length hrest
      rw [List.length_drop, List.length_cons] at hlen
      simp only [unread, Option.map_some]
      omega

/-- The loop of `ext`: its last token, and the pointer that is freed. -/
def extLoop (ltoken : Bytes) : Option (Nat × Bytes) → Bytes × Option Nat
  | none => (ltoken, none)
  | some (place, s) =>
      if 0 < (strsepAt place s).1.length then
        extLoop (strsepAt place s).1 (strsepAt place s).2
      else (ltoken, (strsepAt place s).2.map Prod.fst)
  termination_by str_cpy => unread str_cpy
  decreasing_by exact unread_strsepAt place s

/-- What a call returns, and the pointers it frees: NULL, or how far they are into the block
that was allocated. -/
structure ExtCall where
  result : Option Bytes
  freed : List (Option Nat)

/-- `str_cpy` in front of the loop. -/
def extCopy (file : Bytes) : C Bytes :=
  if file.head? = some 46 then do
    let block ← trimBlock (file ++ [0]) 46
    return cstr block
  else .ok file

def ext (file : Option Bytes) : C ExtCall :=
  match file with
  | none => .ok ⟨none, []⟩
  | some file =>
      if 46 ∉ file then .ok ⟨some [], []⟩
      else do
        let str_cpy ← extCopy file
        let (ltoken, freed) := extLoop [] (some (0, str_cpy))
        return ⟨some ltoken, [freed]⟩

end STRos
