import STRos.Model.Rpc

/-! # request.c and response.c: calls, replies and their trees

The parser of the XML library is a parameter, `parseXml`: it is given the text
of a document and gives NULL when it rejects it.
-/

namespace STRos

open CString

/-! ## Calls -/

structure RpcRequest where
  method : Option Bytes
  nParams : Nat
  params : RList

/-- `%d` with a `size_t`. -/
def percentD (n : Nat) : Bytes := decimal (Int32.ofNat n).toInt

def requestPattern (data : Bytes) : Bytes :=
  str "POST /RPC2 HTTP/1.0\r\nHost: stROS\r\nUser-Agent: stROS\r\nContent-Type: text/xml\r\n" ++
    str "Content-Length: " ++ percentD data.length ++ crlf ++ crlf ++ data

/-- `request`, the text that `send_post_request` sends. -/
def postRequest (data : Bytes) : Bytes := sFormat (requestPattern data)

/-- `gen_rpc_call`; `printf` shows a NULL method as `(null)`. -/
def genRpcCall (rq : RpcRequest) : Bytes :=
  let xmldoc := sFormat (inTag "methodName" (rq.method.getD (str "(null)")) ++ crlf)
  let xmldoc := sFormat (xmldoc ++ listToXmlParams rq.params)
  let xmldoc := sFormat (inTag "methodCall" (crlf ++ xmldoc ++ crlf))
  sFormat (xmlVer ++ xmldoc)

/-- The loop of `parse_rpc_method`; anything else than a `<param>` ends it with NULL. -/
def parseParams (l : RList) : List XMLNode → C (Option RList)
  | [] => .ok (some l)
  | node :: nodes =>
      if node.tag ≠ str "param" then .ok none
      else do
        let l ← parseRpcValue l node
        parseParams l nodes

def parseRpcMethod (mnode : XMLNode) : C (Option RpcRequest) :=
  match mnode.children with
  | [name, params] =>
      if name.tag ≠ str "methodName" then .ok none
      else do
        let method ← strdup name.text
        if params.tag ≠ str "params" then return none
        else
          let l ← parseParams listInit params.children
          return l.map fun l => ⟨some method, params.children.length, l⟩
  | _ => .ok none

/-! ## Replies -/

structure RpcResponse where
  code : Nat
  nValue : Nat
  /-- `none` as long as the field was not assigned. -/
  data : Option RList

def respOk : Nat := 1
def respFault : Nat := 0

def genRpcResponse (rq : RList) : Bytes :=
  sFormat (xmlVer ++ sFormat (inTag "methodResponse" (crlf ++ listToXmlParams rq ++ crlf)))

def serverString : Bytes := str "Server: stros-xmlprc\r\n"

def responsePattern (data : Bytes) : Bytes :=
  str "HTTP/1.0 200 OK\r\nConnection: close\r\nContent-Length: " ++ percentD data.length ++
    str "\r\nContent-Type: text/xml\r\nServer: " ++ serverString ++ crlf ++ data

/-- What a handler sent to its client. -/
inductive Reply
  | badRequest
  | dummyResponse
  | response (xml : Bytes)
  deriving DecidableEq

/-- `sprintf (buf, text)` into a buffer that keeps its other bytes. -/
def sprintf (buf text : Bytes) : Bytes := text ++ 0 :: buf.drop (text.length + 1)

/-- The five lines of `rpc_bad_request`; `sizeof (buf)` bytes are sent for each. -/
def rpcBadRequest (buf : Bytes) : Bytes :=
  let buf₁ := sprintf buf (str "HTTP/1.0 400 BAD REQUEST\r\n")
  let buf₂ := sprintf buf₁ (str "Content-type: text/html\r\n")
  let buf₃ := sprintf buf₂ crlf
  let buf₄ := sprintf buf₃ (str "<P>This is a XML-PRC server, ")
  let buf₅ := sprintf buf₄ (str "you must respect this protocol.\r\n")
  buf₁ ++ buf₂ ++ buf₃ ++ buf₄ ++ buf₅

def rpcDummyResponse : Bytes :=
  str "HTTP/1.0  200 OK\r\n" ++ serverString ++ str "Content-Type: text/xml\r\n" ++ crlf ++
    str "<result>OK got it</result>\r\n"

/-- The bytes of a reply; `buf` is what the buffer of `rpc_bad_request` held. -/
def Reply.bytes (buf : Bytes) : Reply → Bytes
  | .badRequest => rpcBadRequest buf
  | .dummyResponse => rpcDummyResponse
  | .response xml => sFormat (responsePattern xml)

def parseFaultMembers (l : RList) : List XMLNode → C RList
  | [] => .ok l
  | member :: members =>
      match member.children with
      | [_, value] => do
          let l ← parseRpcValue l value
          parseFaultMembers l members
      | _ => parseFaultMembers l members

def parseFaultResponse (l : RList) (enode : XMLNode) : C RList :=
  match enode.children with
  | [] => .ok l
  | node :: _ =>
      if enode.tag ≠ str "value" then .ok l
      else if node.children = [] ∨ node.tag ≠ str "struct" then .ok l
      else parseFaultMembers l node.children

/-- `parse_response` from the root of the document on. -/
def parseResponseRoot (root : XMLNode) : C (Option RpcResponse) :=
  match root.children with
  | [node] =>
      if root.tag ≠ str "methodResponse" then .ok none
      else if node.tag = str "params" then do
        let data ← parseRpcValues listInit node.children
        return some ⟨respOk, node.children.length, some data⟩
      else if node.tag = str "fault" then
        match node.children with
        | [] => .ok (some ⟨respFault, 2, none⟩)
        | enode :: _ => do
            let data ← parseFaultResponse listInit enode
            return some ⟨respFault, 2, some data⟩
      else .ok none
  | _ => .ok none

def parseResponse (parseXml : Bytes → C (Option XMLDoc)) (heap : Nat → Byte) (sock : Bytes) :
    C (Option RpcResponse) := do
  match ← decodeRpcData heap sock with
  | none => return none
  | some resp =>
      match ← parseXml (cstr resp) with
      | none => return none
      | some doc =>
          let root ← doc.root
          parseResponseRoot root

end STRos
