import STRos.Model.Topic

/-! # The TCPROS wire: connection headers, frames and the receive loop

Buffers are lists of exactly the bytes of the C array, so a copy that leaves
the array is `outOfBounds`. What an earlier use left in a buffer is a
parameter of the function that reads it.
-/

namespace STRos

open CString

/-- `memcpy (buf + off, src, |src|)`. -/
def memcpyTo (buf : Bytes) (off : Nat) (src : Bytes) : C Bytes :=
  if off + src.length ≤ buf.length then
    .ok (buf.take off ++ src ++ buf.drop (off + src.length))
  else .error .outOfBounds

/-- `memcpy (_, buf + off, size)` with an `int` size. No byte is read for the size 0. -/
def memcpyFrom (buf : Bytes) (off : Nat) (size : Int) : C Bytes :=
  if size < 0 then .error .negativeLength
  else if 0 < size ∧ buf.length < off + size.toNat then .error .outOfBounds
  else .ok ((buf.drop off).take size.toNat)

/-! ## The connection header -/

/-- The locals of `gen_tcp_header_for`: the buffer, `ptr - buf` and `header_size`. -/
structure HeaderWriter where
  buf : Bytes
  ptr : Nat
  headerSize : Nat

/-- One of the five blocks: length, text, running total. All but the last move
the cursor over the text. -/
def putField (tmp : Bytes) (last : Bool) (w : HeaderWriter) : C HeaderWriter := do
  let size := tmp.length
  let buf ← memcpyTo w.buf w.ptr (le32 size)
  let ptr := w.ptr + 4
  let buf ← memcpyTo buf ptr tmp
  return ⟨buf, if last then ptr else ptr + size, w.headerSize + (size + 4)⟩

/-- What the five fields are printed from. -/
def messageDefinitionField : Bytes := str "message_definition=stros node"
def calleridField (sub : Topic) : Bytes := str "callerid=" ++ sub.callerid
def topicField (sub : Topic) : Bytes := str "topic=" ++ sub.topic
def md5sumField (sub : Topic) : Bytes := str "md5sum=" ++ md5sumOf sub.type
def typeField (sub : Topic) : Bytes := str "type=" ++ sub.type

/-- The buffer afterwards and the number of bytes to send. -/
def genTcpHeaderFor (sub : Topic) (buf : Bytes) : C (Bytes × Nat) := do
  let w ← putField (sFormat messageDefinitionField) false ⟨buf, 4, 0⟩
  let w ← putField (sFormat (calleridField sub)) false w
  let w ← putField (sFormat (topicField sub)) false w
  let w ← putField (sFormat (md5sumField sub)) false w
  let w ← putField (sFormat (typeField sub)) true w
  let buf ← memcpyTo w.buf 0 (le32 w.headerSize)
  return (buf, w.headerSize + 4)

/-- The three pointers the field loop of `verify_ros_header` looks for, `none` for NULL.
A pointer is kept with the item it was taken from. -/
structure HeaderFields where
  msgtype : Option Item
  md5sum : Option Item
  topic : Option Item

def HeaderFields.complete (st : HeaderFields) : Bool :=
  st.msgtype.isSome && st.md5sum.isSome && st.topic.isSome

/-- `value.s` of an item, taken and not followed. The place of a number holds its bytes, so
the pointer is NULL for zeros; an `int` fills half of the place, and `spare` tells whether the
other half, which `malloc` left as it was, holds zeros. -/
def takenS (spare : Bool) : Item → Option Item
  | .int i => if i = 0 ∧ spare = true then none else some (.int i)
  | .double d => if d.bits = 0 then none else some (.double d)
  | it => some it

/-- The body of the loop after `split`: a field that is not `key=value` is
skipped. The key is compared here, the value only after the loop. -/
def noteField (spare : Bool) (l : RList) (st : HeaderFields) : C HeaderFields :=
  if listSize l ≠ 2 then .ok st
  else do
    let key ← valueS (listAt l 0)
    let val := (listAt l 1).bind (takenS spare)
    if key = str "topic" then return { st with topic := val }
    else if key = str "md5sum" then return { st with md5sum := val }
    else if key = str "type" then return { st with msgtype := val }
    else return st

/-- The field loop; `ptr` is the cursor's offset into `header`, and `spare` is asked with
the offset of the field. The size of a field is read from one signed character, although four
bytes are skipped. -/
def verifyFields (spare : Nat → Bool) (header : Bytes) (hsize : Int) (ptr : Nat)
    (st : HeaderFields) : C HeaderFields :=
  if st.complete = false ∧ (ptr : Int) < hsize then
    match header[ptr]? with
    | none => .error .outOfBounds
    | some c =>
        match memcpyFrom header (ptr + 4) (schar c) with
        | .error e => .error e
        | .ok field =>
            match noteField (spare ptr) (split (cstr field) (str "=")) st with
            | .error e => .error e
            | .ok st' => verifyFields spare header hsize (ptr + 4 + (schar c).toNat) st'
  else .ok st
  termination_by hsize.toNat - ptr

/-- The checks after the loop. Zero refuses the peer, any other value is the
hash of the type the peer announced. -/
def checkFields (sub : Topic) (st : HeaderFields) : C Nat :=
  if st.complete = false then .ok 0
  else do
    let topic ← valueS st.topic
    if topic ≠ sub.topic then return 0
    let msgtype ← valueS st.msgtype
    if msgtype ≠ sub.type ∧ msgtype ≠ str "*" then return 0
    let md5sum ← valueS st.md5sum
    if md5sum ≠ md5sumOf msgtype ∧ md5sum ≠ str "*" then return 0
    return hash msgtype hashSize

def verifyRosHeader (spare : Nat → Bool) (sub : Topic) (header : Bytes) (hsize : Int) : C Nat := do
  let st ← verifyFields spare header hsize 0 ⟨none, none, none⟩
  checkFields sub st

/-! ## Message frames -/

/-- What the last write of `tcp_send_string` is given. Its size is an `int` there; one that is
negative makes a `size_t` greater than any text. -/
def sentText (data : Bytes) : Bytes :=
  if sint32 (data.length % 4294967296) < 0 then data else data.take (data.length % 4294967296)

/-- The three writes of `tcp_send_string`: frame length, string length, text. -/
def tcpSendStringWrites (data : Bytes) : List Bytes :=
  [le32 (data.length + 4), le32 data.length, sentText data]

/-- What a peer gets when all three succeed. -/
def tcpSendString (data : Bytes) : Bytes := (tcpSendStringWrites data).flatten

/-- `ros_string`: the length is `(int) *raw`, the low byte of the length word,
sign-extended. The result is the C string in the new block. -/
def rosString (raw : Bytes) : C Bytes :=
  match raw[0]? with
  | none => .error .outOfBounds
  | some c => do
      let data ← memcpyFrom raw 4 (schar c)
      return cstr data

/-- `ros_data`: any other type gets the raw buffer. -/
def rosData (raw : Bytes) (typeH : Nat) : C Bytes :=
  if typeH = typeString then rosString raw else .ok raw

/-! ## The receive loop of `tcp_ros_request`

`recv` is a function of the socket's state: it is asked for a number of bytes
and gives `none` for -1 or the bytes it returned, none of them at the end of
the stream. -/

/-- The effect of `recv (sockfd, &size, 4, 0)` on the four bytes of `size`:
bytes that did not arrive keep their old value. -/
def overwrite (word : Bytes) (got : Option Bytes) : Bytes :=
  match got with
  | none => word
  | some bs => bs ++ word.drop bs.length

/-- `memset (buf, 0, MAX_BUFF)` and a read that returned `payload`. -/
def receiveBuffer (payload : Bytes) : C Bytes :=
  memcpyTo (List.replicate maxBuff 0) 0 payload

/-- One turn of the loop: what the handler got, what `bytes_read` is, and the
state of `size` and of the socket. `handed` is `none` on the return after a
failed read. -/
structure Turn (σ : Type) where
  handed : Option Bytes
  sizeGot : Option Bytes
  asked : Int
  payload : Option Bytes
  size : Bytes
  sock : σ

variable {σ : Type}

/-- `memset`, the two reads, `ros_data` and the callback. -/
def receiveTurn (recv : Int → σ → Option Bytes × σ) (dtype : Nat) (size : Bytes) (sock : σ) :
    C (Turn σ) :=
  let (sizeGot, sock) := recv 4 sock
  let size := overwrite size sizeGot
  let asked := sint32 (readLe32 size)
  let (payload, sock) := recv asked sock
  match payload with
  | none => .ok ⟨none, sizeGot, asked, none, size, sock⟩
  | some bs => do
      let buf ← receiveBuffer bs
      let data ← rosData buf dtype
      return ⟨some data, sizeGot, asked, some bs, size, sock⟩

def Turn.goesOn (t : Turn σ) : Bool :=
  match t.payload with
  | some (_ :: _) => true
  | _ => false

/-- The first `n` turns of the loop while the node is running and the topic
active, from a socket at the first frame; fewer when the loop is left earlier. -/
def receiveTurns (recv : Int → σ → Option Bytes × σ) (dtype : Nat) :
    Nat → Bytes → σ → C (List (Turn σ))
  | 0, _, _ => .ok []
  | n + 1, size, sock => do
      let t ← receiveTurn recv dtype size sock
      if t.goesOn then
        let ts ← receiveTurns recv dtype n t.size t.sock
        return t :: ts
      else return [t]

def callbacks (ts : List (Turn σ)) : List Bytes := ts.filterMap (·.handed)

end STRos
