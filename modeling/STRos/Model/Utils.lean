import STRos.Lib.Binary64

/-! # utils.c: printed texts, hashing and token classes

`Fault` collects the ways the C code can leave the language. A modelled
function that can do so returns `C`; a fault is the whole program's, so nothing
after it is executed.
-/

namespace STRos

open CString

/-- Undefined behaviour of the C code, by its immediate cause. -/
inductive Fault
  /-- The NULL that `send_post_request` returns is dereferenced. -/
  | nullResponse
  /-- The NULL that `list_at` returns for a missing position is dereferenced. -/
  | nullItem
  /-- A union member is read that the item's type tag does not select. -/
  | wrongMember
  /-- A NULL `char *` is given to a string function. -/
  | nullText
  /-- A read or write outside the object. -/
  | outOfBounds
  /-- A negative `int` is used as the size of a copy or an allocation. -/
  | negativeLength
  /-- A variable is used that was never assigned. -/
  | uninitialised
  /-- The call does not return. -/
  | diverges
  deriving DecidableEq, Repr

abbrev C (α : Type) := Except Fault α

/-- A sequence that returns has gone through both of its parts. -/
theorem bind_eq_ok {α β : Type} {x : C α} {f : α → C β} {r : β} :
    x >>= f = .ok r ↔ ∃ a, x = .ok a ∧ f a = .ok r := by
  cases x with
  | error e => simp [bind, Except.bind]
  | ok a => simp [bind, Except.bind]

/-- An access that leaves its block is undefined. -/
def inBounds {α : Type} : Option α → C α
  | some a => .ok a
  | none => .error .outOfBounds

def hashSize : Nat := 1024
def dHashSize : Nat := 50
def maxBuff : Nat := 1024

/-! ## Printed texts -/

/-- `__s` of what its arguments print. The size is counted in an `int`: from `INT_MAX` bytes on
there is no block or one of size 0, and the text is empty. -/
def sFormat (text : Bytes) : Bytes := if text.length < 2147483647 then text else []

theorem sFormat_fits {text : Bytes} (h : text.length < 2147483647) : sFormat text = text :=
  if_pos h

theorem sFormat_overflow {text : Bytes} (h : 2147483647 ≤ text.length) : sFormat text = [] :=
  if_neg (Nat.not_lt.mpr h)

/-! ## The rolling hash -/

/-- `hashval = *key + 31 * hashval` on `unsigned`, over signed characters. -/
def simpleHash (key : Bytes) : UInt32 :=
  key.foldl (fun hashval c => UInt32.ofInt (schar c) + 31 * hashval) 0

def hash (key : Bytes) (size : Nat) : Nat := (simpleHash key).toNat % size

/-! ## Token classes -/

/-- Drop the one optional sign both patterns start with. -/
def afterSign (s : Bytes) : Bytes :=
  match s with
  | 43 :: t => t
  | 45 :: t => t
  | t => t

/-- `^[-+]?[0-9]+$` -/
def matchInt (s : Bytes) : Bool :=
  afterSign s ≠ [] && (afterSign s).all isDigit

/-- `^[+-]?[0-9]*\.[0-9]+$` -/
def matchFloat (s : Bytes) : Bool :=
  match (afterSign s).dropWhile isDigit with
  | 46 :: frac => frac ≠ [] && frac.all isDigit
  | _ => false

/-- A token that neither pattern accepts: `list_put_special` keeps its text. -/
def Wordlike (s : Bytes) : Prop := matchInt s = false ∧ matchFloat s = false

instance (s : Bytes) : Decidable (Wordlike s) := inferInstanceAs (Decidable (_ ∧ _))

example : hash (str "publisherUpdate") hashSize = 485 := by decide

end STRos
