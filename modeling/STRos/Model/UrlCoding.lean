import STRos.Lib.Block
import STRos.Model.Rpc

/-! # url_encode and url_decode

A pointer into a string is the part of its block from there on. What was written to the
buffer is a block that is filled from its start, up to the size that was allocated.
-/

namespace STRos

open CString

/-- `*pstr`, `pstr[1]` and `pstr[2]` -/
def charAt (pstr : Bytes) (i : Nat) : C Byte := inBounds pstr[i]?

def isAlnum (b : Byte) : Bool :=
  isDigit b || (65 ≤ b.toNat && b.toNat ≤ 90) || (97 ≤ b.toNat && b.toNat ≤ 122)

def hexDigits : Bytes := str "0123456789abcdef"

/-- The `char` that is left of an `int`. -/
def toChar (n : Int) : Byte := UInt8.ofInt n

def toHex (code : Byte) : C Byte := charAt hexDigits (code &&& 15).toNat

def fromHex (c : Byte) : Byte := if isDigit c then c - 48 else toLower c - 97 + 10

/-- `*pbuf++ = c` -/
def putChar (cap : Nat) (buf : Bytes) (c : Byte) : C Bytes := inBounds (Block.push cap buf c)

def isUnreserved (c : Byte) : Bool := isAlnum c || c = 45 || c = 95 || c = 46 || c = 126

def urlEncodeLoop (cap : Nat) : Bytes → Bytes → C Bytes
  | [], _ => .error .outOfBounds
  | c :: pstr, buf =>
      if c = 0 then putChar cap buf 0
      else if isUnreserved c then do
        let buf ← putChar cap buf c
        urlEncodeLoop cap pstr buf
      else if c = 32 then do
        let buf ← putChar cap buf 43
        urlEncodeLoop cap pstr buf
      else do
        let buf ← putChar cap buf 37
        let high ← toHex (toChar (schar c >>> (4 : Nat)))
        let buf ← putChar cap buf high
        let low ← toHex (c &&& 15)
        let buf ← putChar cap buf low
        urlEncodeLoop cap pstr buf

/-- `url_encode`: the block at `str` and what is written into the new one. -/
def urlEncode (str : Bytes) : C Bytes := urlEncodeLoop ((cstr str).length * 3 + 1) str []

/-- Both characters behind a `%` are there. -/
def escapes (pstr : Bytes) : C Bool := do
  let first ← charAt pstr 1
  if first = 0 then return false
  else
    let second ← charAt pstr 2
    return second ≠ 0

def urlDecodeLoop (cap : Nat) (pstr buf : Bytes) : C Bytes :=
  match pstr with
  | [] => .error .outOfBounds
  | c :: rest =>
      if c = 0 then putChar cap buf 0
      else if c = 37 then do
        if ← escapes (c :: rest) then
          let first ← charAt (c :: rest) 1
          let second ← charAt (c :: rest) 2
          let buf ← putChar cap buf (fromHex first <<< 4 ||| fromHex second)
          urlDecodeLoop cap (rest.drop 2) buf
        else urlDecodeLoop cap rest buf
      else if c = 43 then do
        let buf ← putChar cap buf 32
        urlDecodeLoop cap rest buf
      else do
        let buf ← putChar cap buf c
        urlDecodeLoop cap rest buf
  termination_by pstr.length

def urlDecode (str : Bytes) : C Bytes := urlDecodeLoop ((cstr str).length + 1) str []

end STRos
