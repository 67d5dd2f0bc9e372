import STRos.Lib.Block
import STRos.Model.Api

/-! # The lines of a request in their buffers

`rpc_read_buf` with the buffer it writes, and the three loops of `stros_accept_request`
over what it read.
-/

namespace STRos

open CString

/-! ## rpc_read_buf -/

/-- What a call leaves: the buffer, the number of bytes it returns and the stream. -/
structure Reading where
  buf : Bytes
  count : Nat
  rest : Bytes

/-- The loop of `rpc_read_buf`. A `recv` that gives nothing makes `c` a newline. -/
def readBufLoop (size : Nat) (buf : Bytes) (i : Nat) (c : Byte) (sock : Bytes) : C Reading :=
  if i + 1 < size ∧ c ≠ 10 then
    match sock with
    | x :: sock => do
        let buf ← inBounds (Block.store buf i x)
        readBufLoop size buf (i + 1) x sock
    | [] => readBufLoop size buf i 10 []
  else do
    let buf ← inBounds (Block.store buf i 0)
    return ⟨buf, i, sock⟩
  termination_by (sock.length, if c = 10 then 0 else 1)
  decreasing_by
    · exact Prod.Lex.left _ _ (Nat.lt_succ_self _)
    · rename_i h
      rw [if_neg h.2, if_pos trivial]
      exact Prod.Lex.right _ Nat.one_pos

def rpcReadBufInto (size : Nat) (buf sock : Bytes) : C Reading := readBufLoop size buf 0 0 sock

/-! ## stros_accept_request -/

def sizeofMethod : Nat := 255
def sizeofUrl : Nat := 255

/-- The loops that fill `method` and `url`, and the NUL behind them. Of the two only the
second one, `bounded`, compares `j` with the size of the buffer. -/
def scanToken (bounded : Bool) (size : Nat) (buf : Nat → Byte) (token : Bytes) (i j : Nat) :
    C (Bytes × Nat) :=
  if isSpace (buf j) = false ∧ i + 1 < size ∧ (bounded = true → j < maxBuff) then do
    let token ← inBounds (Block.store token i (buf j))
    scanToken bounded size buf token (i + 1) (j + 1)
  else do
    let token ← inBounds (Block.store token i 0)
    return (token, j)
  termination_by size - i

def scanMethod (buf : Nat → Byte) (method : Bytes) : C (Bytes × Nat) :=
  scanToken false sizeofMethod buf method 0 0

def scanUrl (buf : Nat → Byte) (url : Bytes) (j : Nat) : C (Bytes × Nat) :=
  scanToken true sizeofUrl buf url 0 j

def skipSpaces (buf : Nat → Byte) (j : Nat) : Nat :=
  if isSpace (buf j) = true ∧ j < maxBuff then skipSpaces buf (j + 1) else j
  termination_by maxBuff - j

/-- The three ways out of `stros_accept_request`. -/
inductive Verdict
  | notPost
  | notRpc
  | parses
  deriving DecidableEq

/-- From the first loop to the comparison with `RPC_URI`. -/
def scanRequest (buf : Nat → Byte) (method url : Bytes) : C Verdict := do
  let (method, j) ← scanMethod buf method
  if ¬ sameNoCase (cstr method) (str "POST") then return .notPost
  else
    let (url, _) ← scanUrl buf url (skipSpaces buf j)
    if cstr url ≠ str "/RPC2" then return .notRpc else return .parses

/-- `stros_accept_request` up to `parse_request`, with what it leaves of the stream. The
three arrays hold what was on the stack, and `behind` is the byte behind `buf`. -/
def acceptScan (behind : Byte) (buf method url sock : Bytes) : C (Verdict × Bytes) := do
  let r ← rpcReadBufInto maxBuff buf sock
  let verdict ← scanRequest (fun j => r.buf[j]?.getD behind) method url
  return (verdict, r.rest)

end STRos
