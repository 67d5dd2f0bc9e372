import STRos.Model.Items

/-! # rpc.c: values as XML, and the lines of a request

The tree of sxmlc is modelled with the fields this code reads. A text that was
not there is the NULL pointer.
-/

namespace STRos

open CString

inductive XMLNode
  | mk (tag : Bytes) (text : Option Bytes) (children : List XMLNode)

def XMLNode.tag : XMLNode → Bytes
  | .mk tag _ _ => tag

def XMLNode.text : XMLNode → Option Bytes
  | .mk _ text _ => text

def XMLNode.children : XMLNode → List XMLNode
  | .mk _ _ children => children

@[simp] theorem XMLNode.tag_mk (tag : Bytes) (text : Option Bytes) (children : List XMLNode) :
    (XMLNode.mk tag text children).tag = tag := rfl

@[simp] theorem XMLNode.text_mk (tag : Bytes) (text : Option Bytes) (children : List XMLNode) :
    (XMLNode.mk tag text children).text = text := rfl

@[simp] theorem XMLNode.children_mk (tag : Bytes) (text : Option Bytes) (children : List XMLNode) :
    (XMLNode.mk tag text children).children = children := rfl

/-- `XMLDoc`: the nodes of the document and the index of its root. -/
structure XMLDoc where
  nodes : List XMLNode
  iRoot : Int

def XMLDoc.root (doc : XMLDoc) : C XMLNode :=
  if doc.iRoot < 0 then .error .outOfBounds
  else
    match doc.nodes[doc.iRoot.toNat]? with
    | some node => .ok node
    | none => .error .outOfBounds

/-- `RPC_TYPE_*`, the hashes of the tags. -/
def rpcTypeArray : Nat := 601
def rpcTypeBase64 : Nat := 335
def rpcTypeBool : Nat := 40
def rpcTypeDouble : Nat := 977
def rpcTypeDate : Nat := 49
def rpcTypeInt : Nat := 1007
def rpcTypeI4 : Nat := 235
def rpcTypeString : Nat := 17

/-! ## Reading values -/

mutual

/-- A value is the node itself or its first child. -/
def parseRpcValue (l : RList) : XMLNode → C RList
  | .mk tag _ children =>
      if tag = str "value" then parseRpcTyped l children
      else
        match children with
        | [] => .ok l
        | .mk tag' _ children' :: _ =>
            if tag' ≠ str "value" then .ok l else parseRpcTyped l children'

/-- The switch over the first child of `<value>`. -/
def parseRpcTyped (l : RList) : List XMLNode → C RList
  | [] => .ok l
  | .mk tag text children :: _ =>
      let type := hash tag hashSize
      if type = rpcTypeBase64 then do
        let s ← strdup text
        return listPutB64 l s
      else if type = rpcTypeBool then do
        let s ← strdup text
        return listPutB l (atoi s)
      else if type = rpcTypeDouble then do
        let s ← strdup text
        return listPutSpecial l s
      else if type = rpcTypeDate then do
        let s ← strdup text
        return listPutDate l s
      else if type = rpcTypeInt ∨ type = rpcTypeI4 then do
        let s ← strdup text
        return listPutI l (atoi s)
      else if type = rpcTypeString then do
        let s ← strdup text
        return listPutS l s
      else if type = rpcTypeArray then
        match children with
        | [.mk tag' _ children'] =>
            if tag' ≠ str "data" then .ok l
            else do
              let arr ← parseRpcValues listInit children'
              return listPutArray l arr
        | _ => .ok l
      else .ok l

/-- The loops over the children of `<data>` and of `<params>`. -/
def parseRpcValues (l : RList) : List XMLNode → C RList
  | [] => .ok l
  | node :: nodes => do
      let l ← parseRpcValue l node
      parseRpcValues l nodes

end

/-! ## Printing values -/

def crlf : Bytes := [13, 10]

/-- `<tag>%s</tag>` -/
def inTag (tag : String) (s : Bytes) : Bytes :=
  str "<" ++ str tag ++ str ">" ++ s ++ str "</" ++ str tag ++ str ">"

theorem inTag_length (tag : String) (s : Bytes) :
    (inTag tag s).length = s.length + 2 * tag.toList.length + 5 := by
  simp only [inTag, List.length_append, str, List.length_map]
  simp
  omega

def xmlInt (i : Int32) : Bytes := inTag "int" (decimal i.toInt)
def xmlBool (b : Int32) : Bytes := inTag "boolean" (decimal b.toInt)
def xmlB64 (s : Bytes) : Bytes := inTag "base64" s
def xmlDate (s : Bytes) : Bytes := inTag "dateTime.iso8601" s
def xmlDble (d : Binary64) : Bytes := inTag "double" d.print
def xmlStr (s : Bytes) : Bytes := inTag "string" s
def xmlArr (s : Bytes) : Bytes := inTag "array" (crlf ++ inTag "data" (crlf ++ s) ++ crlf) ++ crlf
def xmlNil : Bytes := str "<nil/>" ++ crlf
def xmlValue (s : Bytes) : Bytes := inTag "value" s ++ crlf
def xmlPar (s : Bytes) : Bytes := inTag "param" (crlf ++ s ++ crlf) ++ crlf
def xmlPars (s : Bytes) : Bytes := inTag "params" (crlf ++ s ++ crlf) ++ crlf
def xmlVer : Bytes := str "<?xml version=\"1.0\"?>" ++ crlf

mutual

def itemToXml : Item → Bytes
  | .base64 s => sFormat (xmlValue (sFormat (xmlB64 s)))
  | .bool b => sFormat (xmlValue (sFormat (xmlBool b)))
  | .double d => sFormat (xmlValue (sFormat (xmlDble d)))
  | .date s => sFormat (xmlValue (sFormat (xmlDate s)))
  | .int i => sFormat (xmlValue (sFormat (xmlInt i)))
  | .string s => sFormat (xmlValue (sFormat (xmlStr s)))
  | .array l => sFormat (xmlValue (sFormat (xmlArr (itemsToXml [] l))))
  | .nil => sFormat (xmlValue xmlNil)

/-- The loop over the cells of an array. -/
def itemsToXml (dnode : Bytes) : List Item → Bytes
  | [] => dnode
  | it :: l => itemsToXml (sFormat (dnode ++ itemToXml it)) l

end

/-- The loop over the cells of the parameters. -/
def parsToXml (pnode : Bytes) : List Item → Bytes
  | [] => pnode
  | np :: l => parsToXml (sFormat (pnode ++ sFormat (xmlPar (itemToXml np)))) l

def listToXmlParams (l : RList) : Bytes := sFormat (xmlPars (parsToXml [] l))

/-! ## Lines and bodies

`sock` is what the peer has sent and this side has not read; reading at its end
is an error of `recv`. -/

/-- `rpc_read_buf`: the bytes before the terminating NUL, and what is left. -/
def rpcReadBuf : Nat → Bytes → Bytes × Bytes
  | 0, sock => ([], sock)
  | _ + 1, [] => ([], [])
  | n + 1, c :: sock =>
      if c = 10 then ([c], sock)
      else
        let (buf, rest) := rpcReadBuf n sock
        (c :: buf, rest)

/-- `rpc_read_line`: `strdup` stops at the first NUL of the buffer. -/
def rpcReadLine (sock : Bytes) : Bytes × Bytes :=
  let (buf, rest) := rpcReadBuf (maxBuff - 1) sock
  (cstr buf, rest)

/-- `strsep (&line, delim)`: the token, and the rest unless it is NULL. -/
def strsep (delim : Byte) (line : Bytes) : Bytes × Option Bytes :=
  let token := line.takeWhile (· ≠ delim)
  match line.drop token.length with
  | [] => (token, none)
  | _ :: rest => (token, some rest)

def strip (delim : Byte) (s : Bytes) : Bytes :=
  ((s.dropWhile (· = delim)).reverse.dropWhile (· = delim)).reverse

/-- `trim`: a text of nothing but delimiters makes it look in front of the text. -/
def trim (s : Bytes) (delim : Byte) : C Bytes :=
  if s.all (· = delim) then .error .outOfBounds else .ok (strip delim s)

/-- `trim` of a text behind the byte `front` of its block. -/
def trimBehind (front : Byte) (s : Bytes) (delim : Byte) : C Bytes :=
  if front = delim then trim s delim else .ok (strip delim s)

def toLower (b : Byte) : Byte := if 65 ≤ b.toNat ∧ b.toNat ≤ 90 then b + 32 else b

/-- `strcasecmp (s, t) == 0` -/
def sameNoCase (s t : Bytes) : Prop := s.map toLower = t.map toLower

instance (s t : Bytes) : Decidable (sameNoCase s t) := inferInstanceAs (Decidable (_ = _))

/-- `ctype` and `clen`. -/
structure HeaderInfo where
  ctype : Option Bytes
  clen : Int32
  deriving DecidableEq

/-- The body of the header loop. In front of the second token stands the NUL that `strsep` wrote
over the colon. -/
def headerLine (line : Bytes) (st : HeaderInfo) : C HeaderInfo := do
  let (token, line) := strsep 58 line
  let token ← trim token 32
  if sameNoCase token (str "Content-Type") then
    let line ← strdup line
    let ctype ← trimBehind 0 (strsep 58 line).1 32
    let ctype ← trimBehind 0 ctype 10
    let ctype ← trimBehind 0 ctype 13
    return { st with ctype := some ctype }
  else if sameNoCase token (str "Content-Length") then
    let line ← strdup line
    let token ← trimBehind 0 (strsep 58 line).1 32
    return { st with clen := atoi token }
  else return st

theorem rpcReadBuf_length (n : Nat) (sock : Bytes) :
    (rpcReadBuf n sock).1.length + (rpcReadBuf n sock).2.length = sock.length := by
  induction n generalizing sock with
  | zero => simp [rpcReadBuf]
  | succ n ih =>
      cases sock with
      | nil => rfl
      | cons c sock =>
          simp only [rpcReadBuf]
          split
          · simp
            omega
          · have := ih sock
            simp only [List.length_cons]
            omega

theorem rpcReadLine_length {sock : Bytes} (h : (rpcReadLine sock).1 ≠ []) :
    (rpcReadLine sock).2.length < sock.length := by
  have hlen := rpcReadBuf_length (maxBuff - 1) sock
  have hle := cstr_length_le (rpcReadBuf (maxBuff - 1) sock).1
  have hpos := List.length_pos_iff.mpr h
  simp only [rpcReadLine] at hpos ⊢
  omega

/-- The header loop: it ends at an empty line or with the stream. -/
def headerLines (st : HeaderInfo) (sock : Bytes) : C (HeaderInfo × Bytes) :=
  if _h : (rpcReadLine sock).1 = [] ∨ (rpcReadLine sock).1 = crlf then
    .ok (st, (rpcReadLine sock).2)
  else
    match headerLine (rpcReadLine sock).1 st with
    | .error e => .error e
    | .ok st' => headerLines st' (rpcReadLine sock).2
  termination_by sock.length
  decreasing_by exact rpcReadLine_length (not_or.mp _h).1

/-- `decode_rpc_data`. Bytes of the body that do not arrive are what `malloc`
returned, `heap`. -/
def decodeRpcData (heap : Nat → Byte) (sock : Bytes) : C (Option Bytes) := do
  let (st, sock) ← headerLines ⟨none, -1⟩ sock
  if st.ctype = none ∨ st.clen = -1 then return none
  else if st.clen < 0 ∨ st.clen = 2147483647 then .error .negativeLength
  else
    let got := sock.take st.clen.toInt.toNat
    let missing :=
      (List.range (st.clen.toInt.toNat - got.length)).map fun i => heap (got.length + i)
    return some (got ++ missing)

/-- `decode_rpc_data` with the part of the stream it does not read. -/
def decodeRpcStream (heap : Nat → Byte) (sock : Bytes) : C (Option Bytes × Bytes) := do
  let (st, sock) ← headerLines ⟨none, -1⟩ sock
  if st.ctype = none ∨ st.clen = -1 then return (none, sock)
  else if st.clen < 0 ∨ st.clen = 2147483647 then .error .negativeLength
  else
    let got := sock.take st.clen.toInt.toNat
    let missing :=
      (List.range (st.clen.toInt.toNat - got.length)).map fun i => heap (got.length + i)
    return (some (got ++ missing), sock.drop st.clen.toInt.toNat)

theorem decodeRpcData_eq (heap : Nat → Byte) (sock : Bytes) :
    decodeRpcData heap sock = (decodeRpcStream heap sock).map (·.1) := by
  unfold decodeRpcData decodeRpcStream
  cases headerLines ⟨none, -1⟩ sock with
  | error e => rfl
  | ok p =>
      simp only [bind, Except.bind]
      split
      · rfl
      · split <;> rfl

end STRos
