import STRos.Model.Dictionary
import STRos.Model.Request
import STRos.Model.Topic

/-! # The XML-RPC server of a node and the exchange of a subscriber

A handler gets the request and gives the reply it sent and the node it leaves;
of the node the handlers use the two dictionaries.
-/

namespace STRos

open CString

structure RosNode where
  subscribers : Dictionary Topic
  publishers : Dictionary Topic

/-! ## The handlers of api.c -/

/-- Under the lock the three fields are set in one go. -/
def extractUrl (sub : Topic) (l : RList) : C Topic :=
  if listSize l = 0 then .ok { sub with uri := none, port := 0, status := .refresh }
  else do
    let url ← valueS (listAt l 0)
    let l := split url (str "/")
    let url ← valueS (listAt l 1)
    let l := split url (str ":")
    let uri ← valueS (listAt l 0)
    let port ← valueI (listAt l 1)
    return { sub with uri := some uri, port := port, status := .refresh }

theorem extractUrl_fields {sub sub' : Topic} {l : RList} (h : extractUrl sub l = .ok sub') :
    ∃ uri port, sub' = { sub with uri := uri, port := port, status := .refresh } := by
  unfold extractUrl at h
  split at h
  · cases h
    exact ⟨none, 0, rfl⟩
  · obtain ⟨url, -, h⟩ := bind_eq_ok.mp h
    obtain ⟨hostport, -, h⟩ := bind_eq_ok.mp h
    obtain ⟨host, -, h⟩ := bind_eq_ok.mp h
    obtain ⟨port, -, h⟩ := bind_eq_ok.mp h
    cases h
    exact ⟨some host, port, rfl⟩

def publisherUpdate (node : RosNode) (params : RList) : C (Reply × RosNode) := do
  let topic ← valueS (listAt params 1)
  match dvalue node.subscribers topic with
  | none => return (.badRequest, node)
  | some sub =>
      let l ← valueArray (listAt params 2)
      let sub ← extractUrl sub l
      return (.dummyResponse, { node with subscribers := dput node.subscribers topic sub })

def requestTopic (node : RosNode) (params : RList) (n : Nat) : C Reply :=
  if n ≠ 3 then .ok .badRequest
  else do
    let topic ← valueS (listAt params 1)
    match dvalue node.publishers topic with
    | none => return .badRequest
    | some pub =>
        let uri ← strdup pub.uri
        let l2 := listPutI (listPutS (listPutS listInit (str "TCPROS")) uri) pub.port
        let ready := sFormat (str "ready on " ++ uri ++ str ":" ++ decimal pub.port.toInt)
        let l1 := listPutArray (listPutS (listPutI listInit 1) ready) l2
        return .response (genRpcResponse (listPutArray listInit l1))

def rqPublisherUpdate : Nat := 485
def rqRequestTopic : Nat := 992

/-- An unknown method gets no reply. -/
def xmlRpcApiHandler (request : RpcRequest) (node : RosNode) : C (Option Reply × RosNode) :=
  match request.method with
  | none => .ok (some .badRequest, node)
  | some method =>
      if hash method hashSize = rqPublisherUpdate then do
        let (reply, node) ← publisherUpdate node request.params
        return (some reply, node)
      else if hash method hashSize = rqRequestTopic then do
        let reply ← requestTopic node request.params request.nParams
        return (some reply, node)
      else .ok (none, node)

/-! ## The server -/

section Server

variable (parseXml : Bytes → C (Option XMLDoc)) (heap : Nat → Byte)

def parseRequest (sock : Bytes) (node : RosNode) : C (Option Reply × RosNode) := do
  match ← decodeRpcData heap sock with
  | none => return (some .badRequest, node)
  | some request =>
      match ← parseXml (cstr request) with
      | none => return (some .badRequest, node)
      | some doc =>
          let root ← doc.root
          if root.tag ≠ str "methodCall" then return (some .badRequest, node)
          else
            match ← parseRpcMethod root with
            | none => return (some .badRequest, node)
            | some m => xmlRpcApiHandler m node

/-- The buffer after `rpc_read_buf (client, buf, sizeof (buf))`; the bytes behind
the NUL are what the buffer held before. -/
def requestBuffer (junk : Bytes) (sock : Bytes) : Bytes × Bytes :=
  let (line, rest) := rpcReadBuf (maxBuff - 1) sock
  (line ++ 0 :: junk.drop (line.length + 1), rest)

def strosAcceptRequest (junk : Bytes) (sock : Bytes) (node : RosNode) :
    C (Option Reply × RosNode) :=
  let (buf, rest) := requestBuffer junk sock
  let method := (buf.takeWhile fun c => !isSpace c).take 254
  if ¬ sameNoCase (cstr method) (str "POST") then .ok (some .badRequest, node)
  else
    let buf := (buf.drop method.length).dropWhile isSpace
    let url := (buf.takeWhile fun c => !isSpace c).take 254
    if cstr url ≠ str "/RPC2" then .ok (some .badRequest, node)
    else parseRequest parseXml heap rest node

end Server

/-! ## The exchange of subscriber_listener -/

/-- The call every exchange of a subscriber sends. -/
def listenerRequest (callerid topic : Bytes) : RpcRequest :=
  let l2 := listPutS listInit (str "TCPROS")
  let l1 := listPutArray listInit l2
  ⟨some (str "requestTopic"), 3, listPutArray (listPutS (listPutS listInit callerid) topic) l1⟩

/-- The address the listener takes from a response: `none` when it leaves its
own as it is. The first cell of `resp->data` is read without a check. -/
def replyAddress (resp : Option RpcResponse) : C (Option (Bytes × Int32)) :=
  match resp with
  | none => .ok none
  | some resp =>
      if resp.code = respFault then .ok none
      else
        match resp.data with
        | none => .error .uninitialised
        | some data => do
            let arr ← valueArray data.head?
            let l1 ← valueArray (listAt arr 2)
            if listSize l1 = 3 then
              let ip ← valueS (listAt l1 1)
              let port ← valueI (listAt l1 2)
              return some (ip, port)
            else return none

end STRos
