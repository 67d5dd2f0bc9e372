import STRos.Lib.Http
import STRos.Subscribe.Negotiation

/-! # What a client of the server gets

Every path of `stros_accept_request` writes and closes on its own: the one that is
not a POST leaves the socket open, the error reply is padded to the size of its
buffer, the reply to `publisherUpdate` says nothing about its length, and a method
that is not known gets no reply. What is left is `requestTopic` for a publisher
that has an address.
-/

namespace STRos

open CString Http

/-! ## The run of a connection -/

/-- What `stros_accept_request` did when it returned: the reply it sent, how often
it closed the client, and the node it left. -/
structure Accepted where
  reply : Option Reply
  closes : Nat
  node : RosNode

def requestMethod (buf : Bytes) : Bytes := (buf.takeWhile fun c => !isSpace c).take 254

def requestUrl (buf : Bytes) : Bytes :=
  let buf := (buf.drop (requestMethod buf).length).dropWhile isSpace
  (buf.takeWhile fun c => !isSpace c).take 254

/-- `stros_accept_request`, whose first path returns in front of the `close`. -/
def serveClient (parseXml : Bytes → C (Option XMLDoc)) (heap : Nat → Byte) (junk : Bytes)
    (sock : Bytes) (node : RosNode) : C Accepted :=
  let (buf, rest) := requestBuffer junk sock
  if ¬ sameNoCase (cstr (requestMethod buf)) (str "POST") then .ok ⟨some .badRequest, 0, node⟩
  else if cstr (requestUrl buf) ≠ str "/RPC2" then .ok ⟨some .badRequest, 1, node⟩
  else do
    let (reply, node) ← parseRequest parseXml heap rest node
    return ⟨reply, 1, node⟩

/-- A connection gets the reply of `strosAcceptRequest`. -/
theorem serveClient_reply (parseXml : Bytes → C (Option XMLDoc)) (heap : Nat → Byte)
    (junk sock : Bytes) (node : RosNode) :
    (serveClient parseXml heap junk sock node).map (fun s => (s.reply, s.node)) =
      strosAcceptRequest parseXml heap junk sock node := by
  unfold serveClient strosAcceptRequest requestUrl requestMethod
  simp only
  split
  · rfl
  · split
    · rfl
    · cases parseRequest parseXml heap (requestBuffer junk sock).2 node <;> rfl

/-- The bytes sent to the client; `stack` is what the buffer of `rpc_bad_request`
held. -/
def Accepted.written (s : Accepted) (stack : Bytes) : Bytes :=
  match s.reply with
  | none => []
  | some reply => reply.bytes stack

def Accepted.success (s : Accepted) : Prop :=
  match s.reply with
  | none => False
  | some .badRequest => False
  | some .dummyResponse => True
  | some (.response _) => True

/-- One complete response, which `parse_response` can decode when the call was
handled, and one close. -/
structure AnsweredOnce (parseXml : Bytes → C (Option XMLDoc)) (heap : Nat → Byte) (stack : Bytes)
    (s : Accepted) : Prop where
  complete : IsResponse (s.written stack)
  decodable : s.success →
    ∃ resp, parseResponse parseXml heap (s.written stack) = .ok (some resp)
  closed : s.closes = 1

/-! ## Calls that ask for a published topic -/

def Calls (parseXml : Bytes → C (Option XMLDoc)) (heap : Nat → Byte) (sock : Bytes)
    (m : RpcRequest) : Prop :=
  ∃ request doc root, decodeRpcData heap sock = .ok (some request) ∧
    parseXml (cstr request) = .ok (some doc) ∧ doc.root = .ok root ∧
    root.tag = str "methodCall" ∧ parseRpcMethod root = .ok (some m)

/-- It goes to `requestTopic`, with three parameters of which the second is the
topic of a publisher that has an address. -/
def AsksPublished (node : RosNode) (m : RpcRequest) : Prop :=
  ∃ method topic pub uri, m.method = some method ∧ hash method hashSize = rqRequestTopic ∧
    m.nParams = 3 ∧ valueS (listAt m.params 1) = .ok topic ∧
    dvalue node.publishers topic = some pub ∧ pub.uri = some uri

/-- A POST to `RPC_URI` that carries such a call. -/
structure PostsPublished (parseXml : Bytes → C (Option XMLDoc)) (heap : Nat → Byte) (junk : Bytes)
    (sock : Bytes) (node : RosNode) : Prop where
  isPost : sameNoCase (cstr (requestMethod (requestBuffer junk sock).1)) (str "POST")
  isRpc : cstr (requestUrl (requestBuffer junk sock).1) = str "/RPC2"
  asks : ∃ m, Calls parseXml heap (requestBuffer junk sock).2 m ∧ AsksPublished node m

/-- The texts of `get_ip_address`: dotted decimals. -/
def IsAddress (uri : Bytes) : Prop :=
  uri ≠ [] ∧ uri.length ≤ 15 ∧ uri.all (fun b => isDigit b || b = 46) = true

/-- What `publisher_listener` stores. -/
def AddressesStored (node : RosNode) : Prop :=
  ∀ topic pub uri, dvalue node.publishers topic = some pub → pub.uri = some uri → IsAddress uri

/-- `create_publisher` stores no uri, and `publisher_listener` one it got from
`get_ip_address`. -/
theorem AddressesStored.dput {node : RosNode} (h : AddressesStored node) (topic : Bytes)
    {pub : Topic} (huri : ∀ uri, pub.uri = some uri → IsAddress uri) :
    AddressesStored { node with publishers := dput node.publishers topic pub } := by
  intro topic' pub' uri hpub' huri'
  by_cases htopic : topic' = topic
  · subst htopic
    rw [dvalue_dput_self] at hpub'
    cases hpub'
    exact huri uri huri'
  · rw [dvalue_dput_ne _ _ htopic] at hpub'
    exact h topic' pub' uri hpub' huri'

/-! ## The handlers -/

theorem requestTopic_response {node : RosNode} {params : RList} {n : Nat} {xml : Bytes}
    (h : requestTopic node params n = .ok (.response xml)) :
    n = 3 ∧ ∃ topic pub uri, valueS (listAt params 1) = .ok topic ∧
      dvalue node.publishers topic = some pub ∧ pub.uri = some uri := by
  unfold requestTopic at h
  split at h
  · cases h
  · rename_i hn
    obtain ⟨topic, htopic, h⟩ := bind_eq_ok.mp h
    cases hpub : dvalue node.publishers topic with
    | none =>
        rw [hpub] at h
        cases h
    | some pub =>
        rw [hpub] at h
        obtain ⟨uri, huri, -⟩ := bind_eq_ok.mp h
        refine ⟨not_not.mp hn, topic, pub, uri, htopic, hpub, ?_⟩
        cases hopt : pub.uri with
        | none =>
            rw [hopt] at huri
            cases huri
        | some s =>
            rw [hopt] at huri
            cases huri
            rfl

/-- Only `requestTopic` sends a document. -/
theorem xmlRpcApiHandler_response {m : RpcRequest} {node node' : RosNode} {xml : Bytes}
    (h : xmlRpcApiHandler m node = .ok (some (.response xml), node')) : AsksPublished node m := by
  unfold xmlRpcApiHandler at h
  cases hmethod : m.method with
  | none =>
      rw [hmethod] at h
      cases h
  | some method =>
      simp only [hmethod] at h
      split at h
      · obtain ⟨⟨reply, left⟩, hreply, h⟩ := bind_eq_ok.mp h
        cases h
        obtain ⟨topic, -, hreply⟩ := bind_eq_ok.mp hreply
        split at hreply
        · cases hreply
        · obtain ⟨l, -, hreply⟩ := bind_eq_ok.mp hreply
          obtain ⟨sub, -, hreply⟩ := bind_eq_ok.mp hreply
          cases hreply
      · split at h
        · rename_i hhash
          obtain ⟨reply, hreply, h⟩ := bind_eq_ok.mp h
          cases h
          obtain ⟨hn, topic, pub, uri, htopic, hpub, huri⟩ := requestTopic_response hreply
          exact ⟨method, topic, pub, uri, hmethod, hhash, hn, htopic, hpub, huri⟩
        · cases h

theorem xmlRpcApiHandler_asksPublished {m : RpcRequest} {node : RosNode}
    (h : AsksPublished node m) :
    ∃ topic pub uri, dvalue node.publishers topic = some pub ∧ pub.uri = some uri ∧
      xmlRpcApiHandler m node =
        .ok (some (.response (genRpcResponse (topicReply uri pub.port))), node) := by
  obtain ⟨method, topic, pub, uri, hmethod, hhash, hn, htopic, hpub, huri⟩ := h
  have hne : rqRequestTopic ≠ rqPublisherUpdate := by decide
  refine ⟨topic, pub, uri, hpub, huri, ?_⟩
  simp only [xmlRpcApiHandler, hmethod, hhash, if_neg hne, if_true, hn,
    requestTopic_eq htopic hpub huri, bind, Except.bind]
  rfl

/-! ## The paths to the handlers -/

section Paths

variable {parseXml : Bytes → C (Option XMLDoc)} {heap : Nat → Byte}

theorem parseRequest_calls {sock : Bytes} {m : RpcRequest} (h : Calls parseXml heap sock m)
    (node : RosNode) : parseRequest parseXml heap sock node = xmlRpcApiHandler m node := by
  obtain ⟨request, doc, root, hrequest, hdoc, hroot, htag, hm⟩ := h
  simp only [parseRequest, hrequest, hdoc, hroot, htag, hm, bind, Except.bind, ne_eq,
    not_true_eq_false, if_false]

/-- All paths but the last answer with an error. -/
theorem parseRequest_response {sock : Bytes} {node node' : RosNode} {xml : Bytes}
    (h : parseRequest parseXml heap sock node = .ok (some (.response xml), node')) :
    ∃ m, Calls parseXml heap sock m ∧ AsksPublished node m := by
  unfold parseRequest at h
  obtain ⟨request, hrequest, h⟩ := bind_eq_ok.mp h
  cases request with
  | none => cases h
  | some request =>
      obtain ⟨doc, hdoc, h⟩ := bind_eq_ok.mp h
      cases doc with
      | none => cases h
      | some doc =>
          obtain ⟨root, hroot, h⟩ := bind_eq_ok.mp h
          split at h
          · cases h
          · rename_i htag
            obtain ⟨m, hm, h⟩ := bind_eq_ok.mp h
            cases m with
            | none => cases h
            | some m =>
                exact ⟨m, ⟨request, doc, root, hrequest, hdoc, hroot, not_not.mp htag, hm⟩,
                  xmlRpcApiHandler_response h⟩

theorem serveClient_response {junk sock : Bytes} {node : RosNode} {s : Accepted} {xml : Bytes}
    (h : serveClient parseXml heap junk sock node = .ok s)
    (hreply : s.reply = some (.response xml)) :
    PostsPublished parseXml heap junk sock node := by
  simp only [serveClient] at h
  split at h
  · cases h
    cases hreply
  · rename_i hpost
    split at h
    · cases h
      cases hreply
    · rename_i hrpc
      obtain ⟨⟨reply, left⟩, hparse, h⟩ := bind_eq_ok.mp h
      cases h
      simp only at hreply
      rw [hreply] at hparse
      exact ⟨not_not.mp hpost, not_not.mp hrpc, parseRequest_response hparse⟩

theorem serveClient_postsPublished {junk sock : Bytes} {node : RosNode}
    (h : PostsPublished parseXml heap junk sock node) :
    ∃ topic pub uri, dvalue node.publishers topic = some pub ∧ pub.uri = some uri ∧
      serveClient parseXml heap junk sock node =
        .ok ⟨some (.response (genRpcResponse (topicReply uri pub.port))), 1, node⟩ := by
  obtain ⟨m, hcalls, hasks⟩ := h.asks
  obtain ⟨topic, pub, uri, hpub, huri, hhandler⟩ := xmlRpcApiHandler_asksPublished hasks
  refine ⟨topic, pub, uri, hpub, huri, ?_⟩
  simp only [serveClient, h.isPost, h.isRpc, not_true_eq_false, ne_eq, if_false,
    parseRequest_calls hcalls, hhandler, bind, Except.bind]
  rfl

end Paths

/-! ## The replies on the wire -/

/-- The line behind the status line of an error begins with a NUL. -/
theorem not_isResponse_badRequest (buf : Bytes) : ¬ IsResponse (rpcBadRequest buf) := by
  rintro ⟨r, hr⟩
  have hwire : ∃ rest, rpcBadRequest buf =
      str "HTTP/1.0 400 BAD REQUEST" ++ newline ++ 0 :: rest := by
    have hline : str "HTTP/1.0 400 BAD REQUEST\r\n" =
        str "HTTP/1.0 400 BAD REQUEST" ++ newline := by rfl
    simp only [rpcBadRequest, sprintf, hline, List.append_assoc, List.cons_append]
    exact ⟨_, rfl⟩
  obtain ⟨rest, hrest⟩ := hwire
  obtain ⟨b, hb, hchar⟩ := r.head_behind_status (by decide) (hr.trans hrest)
  obtain rfl : 0 = b := Option.some.inj hb
  revert hchar
  decide

/-- Without a length the other side takes no body. -/
theorem parseResponse_dummy (parseXml : Bytes → C (Option XMLDoc)) (heap : Nat → Byte) :
    parseResponse parseXml heap rpcDummyResponse = .ok none := by
  have hlines : rpcDummyResponse =
      str "HTTP/1.0  200 OK\r" ++ 10 :: (str "Server: stros-xmlprc\r" ++ 10 ::
        (str "Content-Type: text/xml\r" ++ 10 ::
          (crlf ++ str "<result>OK got it</result>\r\n"))) := by rfl
  have hstatus := headerLine_skip (str "HTTP/1.0  200 OK\r" ++ [10])
    (str "HTTP/1.0  200 OK\r\n") rfl (by decide) (by decide) ⟨none, -1⟩
  have hserver := headerLine_skip (str "Server: stros-xmlprc\r" ++ [10])
    (str "Server") rfl (by decide) (by decide) ⟨none, -1⟩
  have hheaders : headerLines ⟨none, -1⟩ rpcDummyResponse =
      .ok (⟨some (str "text/xml"), -1⟩, str "<result>OK got it</result>\r\n") := by
    rw [hlines, headerLines_line (by decide) (by decide) hstatus,
      headerLines_line (by decide) (by decide) hserver,
      headerLines_line (by decide) (by decide) (headerLine_contentType ⟨none, -1⟩),
      headerLines_end]
  rw [parseResponse, decodeRpcData, hheaders]
  rfl

theorem percentD_of_lt {n : Nat} (h : n < 2147483648) : percentD n = decimalNat n := by
  rw [percentD, Int32.toInt_ofNat_of_lt (by omega)]
  rfl

/-- The status line and the headers of `RESPONSE_PATTERN`. -/
def okStatus : StatusLine := ⟨49, 48, 0, str "200", str "OK", by decide, by decide, by decide⟩

def connectionField : Field := ⟨str "Connection", str " close", by decide, by decide⟩

def contentLengthField (n : Nat) : Field where
  name := str "Content-Length"
  value := 32 :: percentD n
  isName := by decide
  isValue := by
    have hmem : ∀ b ∈ percentD n, b ≠ 0 ∧ b ≠ 10 ∧ b ≠ 13 := by
      intro b hb
      refine ⟨?_, ?_, ?_⟩
      all_goals
        rintro rfl
        exact decimal_not_mem _ (by decide) (by decide) hb
    rw [isLineText, List.all_cons, Bool.and_eq_true]
    refine ⟨by decide, List.all_eq_true.mpr fun b hb => ?_⟩
    simp [hmem b hb]

def contentTypeField : Field := ⟨str "Content-Type", str " text/xml", by decide, by decide⟩

def serverField : Field := ⟨str "Server", str " Server: stros-xmlprc", by decide, by decide⟩

theorem contentLengthField_states {n : Nat} (h : n < 2147483648) :
    (contentLengthField n).states n := by
  have hdigits : (decimalNat n).dropWhile (· = 32) = decimalNat n := by
    obtain ⟨b, s, hs⟩ := List.exists_cons_of_ne_nil (decimalNat_ne_nil n)
    have hb : isDigit b = true := decimalNat_isDigit (n := n) (by simp [hs])
    have hne : b ≠ 32 := by
      rintro rfl
      cases hb
    rw [hs, List.dropWhile_cons_of_neg (by simpa using hne)]
  have hvalue : (contentLengthField n).value = 32 :: decimalNat n := by
    rw [← percentD_of_lt h]
    rfl
  rw [Field.states, hvalue, List.dropWhile_cons_of_pos (by simp), hdigits]

/-- A document in `RESPONSE_PATTERN` is a response, as long as its length is an `int`. -/
theorem isResponse_responsePattern {data : Bytes} (h : data.length < 2147483648) :
    IsResponse (responsePattern data) := by
  refine ⟨⟨okStatus,
    [connectionField, contentLengthField data.length, contentTypeField, serverField], data, ?_⟩, ?_⟩
  · intro f hf hname
    simp only [List.mem_cons, List.not_mem_nil, or_false] at hf
    rcases hf with rfl | rfl | rfl | rfl
    · exact absurd hname (by decide)
    · exact contentLengthField_states h
    · exact absurd hname (by decide)
    · exact absurd hname (by decide)
  · rw [responsePattern_eq, responseHeaders_lines]
    simp [Response.render, StatusLine.render, Field.render, okStatus, connectionField,
      contentLengthField, contentTypeField, serverField, newline, crlf, str, ch]

/-! ## The documents of the replies -/

theorem IsAddress.payload {beyond : Byte → Prop} {uri : Bytes} (h : IsAddress uri) :
    Payload beyond uri := by
  refine payload_ascii h.1 (List.all_eq_true.mpr fun b hb => ?_)
  have hchar := List.all_eq_true.mp h.2.2 b hb
  rw [Bool.or_eq_true, decide_eq_true_eq] at hchar
  rcases hchar with hdigit | rfl
  · simp only [isDigit, Bool.and_eq_true, decide_eq_true_eq] at hdigit
    simp only [ne_eq, decide_not, Bool.and_eq_true, decide_eq_true_eq, Bool.not_eq_eq_eq_not,
      Bool.not_true, decide_eq_false_iff_not]
    refine ⟨⟨⟨⟨by omega, ?_⟩, ?_⟩, ?_⟩, ?_⟩
    all_goals
      rintro rfl
      revert hdigit
      decide
  · decide

theorem responsePattern_length (data : Bytes) :
    (responsePattern data).length = data.length + (percentD data.length).length + 110 := by
  have hfront : (str "HTTP/1.0 200 OK\r\nConnection: close\r\nContent-Length: ").length = 52 := by
    decide
  have hback : (str "\r\nContent-Type: text/xml\r\nServer: ").length = 34 := by decide
  have hserver : serverString.length = 22 := by decide
  have hcrlf : crlf.length = 2 := rfl
  simp only [responsePattern, List.length_append, hfront, hback, hserver, hcrlf]
  omega

open Markup in
theorem replyFits_address {uri : Bytes} (h : uri.length ≤ 15) (port : Int32) :
    ReplyFits uri port := by
  have hlen : (str "ready on " ++ uri ++ str ":" ++ decimal port.toInt).length < 2147483647 := by
    have hport := decimal_length port
    have hready : (str "ready on ").length = 9 := rfl
    have hcolon : (str ":").length = 1 := rfl
    simp only [List.length_append, hready, hcolon]
    omega
  have hparams : topicReply uri port =
      [.array [.int 1, .string (str "ready on " ++ uri ++ str ":" ++ decimal port.toInt),
        .array [.string (str "TCPROS"), .string uri, .int port]]] := by
    rw [← sFormat_fits hlen]
    rfl
  have hport := decimal_length port
  have hone : (decimal (1 : Int32).toInt).length = 1 := rfl
  have hver : xmlVer.length = 23 := rfl
  have hcrlf : crlf.length = 2 := rfl
  have htcp : (str "TCPROS").length = 6 := rfl
  have hready : (str "ready on ").length = 9 := rfl
  have hcolon : (str ":").length = 1 := rfl
  have hpercent := percentD_length (responseDocument (topicReply uri port)).length
  rw [ReplyFits, responsePattern_length]
  refine @Nat.lt_of_le_of_lt _ ((responseDocument (topicReply uri port)).length + 121) _
    (by omega) ?_
  simp only [hparams, responseDocument_eq, paramsMarkup, parsMarkup_cons, itemMarkup, itemsMarkup,
    renders_valueMarkup, renders_blockMarkup, render_element, render_textElement, renders_cons,
    renders_append, render_text, xmlValue, List.length_append, inTag_length, hver, hcrlf, htcp,
    hready, hcolon, hone]
  simp [parsMarkup]
  omega

/-- A connection is answered and closed as it should exactly when it asks for a
publisher with an address. -/
theorem answeredOnce_iff {beyond : Byte → Prop} {parseXml : Bytes → C (Option XMLDoc)}
    (hparser : ParsesDocuments beyond parseXml) (heap heap' : Nat → Byte) (junk stack sock : Bytes)
    {node : RosNode} (haddr : AddressesStored node) :
    (∃ s, serveClient parseXml heap junk sock node = .ok s ∧
        AnsweredOnce parseXml heap' stack s) ↔
      PostsPublished parseXml heap junk sock node := by
  constructor
  · rintro ⟨⟨reply, closes, left⟩, hserve, hanswered⟩
    match reply with
    | none => exact absurd hanswered.complete not_isResponse_nil
    | some .badRequest => exact absurd hanswered.complete (not_isResponse_badRequest stack)
    | some .dummyResponse =>
        obtain ⟨resp, hresp⟩ := hanswered.decodable trivial
        have hdummy : parseResponse parseXml heap' rpcDummyResponse = .ok (some resp) := hresp
        rw [parseResponse_dummy] at hdummy
        cases hdummy
    | some (.response xml) => exact serveClient_response hserve rfl
  · intro h
    obtain ⟨topic, pub, uri, hpub, huri, hserve⟩ := serveClient_postsPublished h
    have haddress := haddr topic pub uri hpub huri
    have hfits := replyFits_address haddress.2.1 pub.port
    have hlen := length_of_responsePattern hfits
    refine ⟨_, hserve, ?_, fun _ => ⟨_, parseResponse_response hparser heap' stack
      (built_topicReply haddress.payload hfits.uri)
      (by simp [topicReply, listPutArray, listPut_listInit, listSize, Item.isNil]) hfits⟩, rfl⟩
    have hbytes : (Reply.response (genRpcResponse (topicReply uri pub.port))).bytes stack =
        responsePattern (responseDocument (topicReply uri pub.port)) := by
      rw [genRpcResponse_eq hlen, responseBytes_fits hfits]
    have hresponse : IsResponse (responsePattern (responseDocument (topicReply uri pub.port))) :=
      isResponse_responsePattern (by omega)
    change IsResponse ((Reply.response (genRpcResponse (topicReply uri pub.port))).bytes stack)
    rw [hbytes]
    exact hresponse

/-! ## Two connections -/

def chatterNode : RosNode := ⟨dict, publishersOf [chatterPublisher]⟩

theorem addressesStored_chatter : AddressesStored chatterNode := by
  have hempty : AddressesStored ⟨dict, dict⟩ := nofun
  refine hempty.dput chatterPublisher.topic fun uri huri => ?_
  cases huri
  exact ⟨by decide, by decide, by decide⟩

def chatterCall : Bytes :=
  postRequest (genRpcCall (listenerRequest (str "/listener") (str "/chatter")))

theorem answeredOnce_chatter :
    (∃ s, serveClient plainParser (fun _ => 0) [] chatterCall chatterNode = .ok s ∧
        AnsweredOnce plainParser (fun _ => 0) (List.replicate 1024 0) s) ↔
      PostsPublished plainParser (fun _ => 0) [] chatterCall chatterNode :=
  answeredOnce_iff (plainParser_parsesDocuments fun _ => True) _ _ _ _ _ addressesStored_chatter

/-- A browser gets five padded lines, and its socket stays open. -/
theorem get_notAnsweredOnce :
    ¬ ∃ s, serveClient plainParser (fun _ => 0) [] (str "GET / HTTP/1.0\r\n\r\n") chatterNode =
        .ok s ∧
      AnsweredOnce plainParser (fun _ => 0) (List.replicate 1024 0) s := by
  rintro ⟨s, hserve, hanswered⟩
  have hget : serveClient plainParser (fun _ => 0) [] (str "GET / HTTP/1.0\r\n\r\n")
      chatterNode = .ok ⟨some .badRequest, 0, chatterNode⟩ := rfl
  rw [hget] at hserve
  cases hserve
  exact absurd hanswered.closed (by decide)

end STRos
