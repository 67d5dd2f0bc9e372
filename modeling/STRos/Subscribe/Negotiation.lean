import STRos.Rpc.RoundTrip
import STRos.Rpc.Framing
import STRos.Model.Listener

/-! # A listener asks a node for a topic

The call of `subscriber_listener` goes through the server of the other node and
the reply back, and the listener takes the address from it. `__s` has to count both
messages in an `int`, the documents with what is around them.
-/

namespace STRos

open CString Markup Transition

/-- What the listener decodes from the reply of a node to its call. -/
def negotiate (parseXml : Bytes → C (Option XMLDoc)) (heap heap' : Nat → Byte)
    (junk buf : Bytes) (node : RosNode) (sub : Topic) : C (Option RpcResponse) := do
  let xml := genRpcCall (listenerRequest sub.callerid sub.topic)
  let (reply, _) ← strosAcceptRequest parseXml heap junk (postRequest xml) node
  match reply with
  | none => parseResponse parseXml heap' []
  | some reply => parseResponse parseXml heap' (reply.bytes buf)

/-- The publishers of a node, in the order of their `create_publisher`. -/
def publishersOf (pubs : List Topic) : Dictionary Topic :=
  pubs.foldl (fun publishers pub => dput publishers pub.topic pub) dict

/-- The publisher of a topic: the last one that was created for it. -/
def Publishes (pubs : List Topic) (topic : Bytes) (pub : Topic) : Prop :=
  ∃ before after, pubs = before ++ pub :: after ∧ pub.topic = topic ∧
    ∀ p ∈ after, p.topic ≠ topic

/-- Its listener has set the address other nodes are told. -/
def Started (beyond : Byte → Prop) (pub : Topic) (uri : Bytes) : Prop :=
  pub.uri = some uri ∧ Payload beyond uri ∧ 0 < pub.port

/-! ## The dictionary of the publishers -/

theorem dvalue_foldl_dput (pubs : List Topic) (publishers : Dictionary Topic) {topic : Bytes}
    (h : ∀ p ∈ pubs, p.topic ≠ topic) :
    dvalue (pubs.foldl (fun publishers pub => dput publishers pub.topic pub) publishers) topic =
      dvalue publishers topic := by
  induction pubs generalizing publishers with
  | nil => rfl
  | cons pub pubs ih =>
      rw [List.foldl_cons, ih _ fun p hp => h p (List.mem_cons_of_mem _ hp)]
      exact dvalue_dput_ne publishers pub (h pub List.mem_cons_self).symm

theorem Publishes.dvalue {pubs : List Topic} {topic : Bytes} {pub : Topic}
    (h : Publishes pubs topic pub) : dvalue (publishersOf pubs) topic = some pub := by
  obtain ⟨before, after, rfl, rfl, hafter⟩ := h
  rw [publishersOf, List.foldl_append, List.foldl_cons, dvalue_foldl_dput after _ hafter]
  exact dvalue_dput_self _ pub.topic pub

theorem dvalue_publishersOf_none {pubs : List Topic} {topic : Bytes}
    (h : ∀ p ∈ pubs, p.topic ≠ topic) : dvalue (publishersOf pubs) topic = none := by
  rw [publishersOf, dvalue_foldl_dput pubs dict h, dvalue_dict]

/-! ## The server -/

section Exchange

variable {beyond : Byte → Prop} {parseXml : Bytes → C (Option XMLDoc)}

theorem nulFree_call {method : Bytes} (hmethod : Payload beyond method) {l : RList}
    (hl : Built beyond l) : NulFree (callDocument method l) := by
  rw [callDocument, nulFree_append]
  exact ⟨by decide, (legal_call hmethod hl).nulFree⟩

theorem nulFree_response {l : RList} (hl : Built beyond l) : NulFree (responseDocument l) := by
  rw [responseDocument, nulFree_append]
  exact ⟨by decide, (legal_response hl).nulFree⟩

/-- The call is all the peer sends. -/
theorem strosAcceptRequest_alone (parseXml : Bytes → C (Option XMLDoc)) (heap : Nat → Byte)
    (junk data : Bytes) (node : RosNode) :
    strosAcceptRequest parseXml heap junk (requestPattern data) node =
      parseRequest parseXml heap (requestHeaders data.length ++ data) node := by
  have haccept := strosAcceptRequest_pattern parseXml heap junk data [] node
  rwa [requestBuffer_pattern, List.append_nil, List.append_nil] at haccept

theorem strosAcceptRequest_call (hparser : ParsesDocuments beyond parseXml) (heap : Nat → Byte)
    (junk : Bytes) {method : Bytes} (hmethod : Payload beyond method) (n : Nat) {l : RList}
    (hl : Built beyond l) (hne : listSize l ≠ 0)
    (hfits : (requestPattern (callDocument method l)).length < 2147483647) (node : RosNode) :
    strosAcceptRequest parseXml heap junk (postRequest (genRpcCall ⟨some method, n, l⟩)) node =
      xmlRpcApiHandler ⟨some method, listSize l, l⟩ node := by
  obtain ⟨doc, root, hdoc, hroot, htag, hcall⟩ := call_readsBack hparser hmethod hl hne
  have hlen := length_of_requestPattern hfits
  have hdecode := decodeRpcData_of_stream (decodeRpcStream_request heap hlen [])
  rw [List.append_nil] at hdecode
  rw [genRpcCall_eq n hlen, postRequest_fits hfits, strosAcceptRequest_alone, parseRequest,
    hdecode]
  simp only [bind, Except.bind, cstr_of_nulFree (nulFree_call hmethod hl), hdoc, hroot, htag,
    ne_eq, not_true_eq_false, if_false, hcall]

theorem parseResponse_response (hparser : ParsesDocuments beyond parseXml) (heap : Nat → Byte)
    (buf : Bytes) {l : RList} (hl : Built beyond l) (hne : listSize l ≠ 0)
    (hfits : (responsePattern (responseDocument l)).length < 2147483647) :
    parseResponse parseXml heap ((Reply.response (genRpcResponse l)).bytes buf) =
      .ok (some ⟨respOk, listSize l, some l⟩) := by
  obtain ⟨doc, root, hdoc, hroot, hresp⟩ := response_readsBack hparser hl hne
  have hlen := length_of_responsePattern hfits
  have hdecode := decodeRpcData_of_stream (decodeRpcStream_response heap hlen [])
  rw [List.append_nil] at hdecode
  rw [genRpcResponse_eq hlen, responseBytes_fits hfits, parseResponse, hdecode]
  simp only [bind, Except.bind, cstr_of_nulFree (nulFree_response hl), hdoc, hroot, hresp]

theorem parseResponse_badRequest (parseXml : Bytes → C (Option XMLDoc)) (heap : Nat → Byte)
    (buf : Bytes) : parseResponse parseXml heap (rpcBadRequest buf) = .ok none := by
  rw [parseResponse, decodeRpcData_badRequest]
  rfl

end Exchange

/-! ## The call of a listener and its reply -/

section Negotiation

variable {beyond : Byte → Prop} {parseXml : Bytes → C (Option XMLDoc)}

def listenerParams (callerid topic : Bytes) : RList :=
  listPutArray (listPutS (listPutS listInit callerid) topic)
    (listPutArray listInit (listPutS listInit (str "TCPROS")))

/-- `__s` can count the request with the call. -/
def CallFits (callerid topic : Bytes) : Prop :=
  (requestPattern (callDocument (str "requestTopic") (listenerParams callerid topic))).length <
    2147483647

instance (callerid topic : Bytes) : Decidable (CallFits callerid topic) :=
  inferInstanceAs (Decidable (_ < _))

def topicReply (uri : Bytes) (port : Int32) : RList :=
  let l2 := listPutI (listPutS (listPutS listInit (str "TCPROS")) uri) port
  let ready := sFormat (str "ready on " ++ uri ++ str ":" ++ decimal port.toInt)
  listPutArray listInit (listPutArray (listPutS (listPutI listInit 1) ready) l2)

theorem built_listenerParams {callerid topic : Bytes} (hc : Payload beyond callerid)
    (ht : Payload beyond topic) : Built beyond (listenerParams callerid topic) :=
  ((Built.init.putS hc).putS ht).putArray
    (Built.init.putArray (Built.init.putS (payload_ascii (by decide) (by decide))))

/-- The `uri` is in the document once more than in the text before it. -/
theorem uri_length_lt {uri : Bytes} {port : Int32} {n : Nat}
    (h : (responseDocument (topicReply uri port)).length < n) : uri.length + 21 < n := by
  have hparams : topicReply uri port =
      [.array [.int 1, .string (sFormat (str "ready on " ++ uri ++ str ":" ++
        decimal port.toInt)), .array [.string (str "TCPROS"), .string uri, .int port]]] := rfl
  have hver : xmlVer.length = 23 := rfl
  simp only [hparams, responseDocument_eq, paramsMarkup, parsMarkup_cons, itemMarkup, itemsMarkup,
    renders_valueMarkup, renders_blockMarkup, render_element, render_textElement, renders_cons,
    renders_append, render_text, xmlValue, List.length_append, inTag_length, hver] at h
  omega

theorem built_topicReply {uri : Bytes} (huri : Payload beyond uri) {port : Int32}
    (hfits : uri.length + 21 < 2147483647) : Built beyond (topicReply uri port) := by
  have hlen : (str "ready on " ++ uri ++ str ":" ++ decimal port.toInt).length < 2147483647 := by
    have hport := decimal_length port
    have hready : (str "ready on ").length = 9 := rfl
    have hcolon : (str ":").length = 1 := rfl
    simp only [List.length_append, hready, hcolon]
    omega
  have hready : Payload beyond (sFormat (str "ready on " ++ uri ++ str ":" ++
      decimal port.toInt)) := by
    rw [sFormat_fits hlen]
    refine ⟨by simp [str], ?_⟩
    simp only [isText_append]
    exact ⟨⟨⟨isText_ascii (by decide), huri.2⟩, isText_ascii (by decide)⟩,
      (payload_decimal beyond port.toInt).2⟩
  exact Built.init.putArray (((Built.init.putI 1).putS hready).putArray
    (((Built.init.putS (payload_ascii (by decide) (by decide))).putS huri).putI port))

theorem replyAddress_topicReply (n : Nat) (uri : Bytes) (port : Int32) :
    replyAddress (some ⟨respOk, n, some (topicReply uri port)⟩) = .ok (some (uri, port)) := by
  rfl

theorem requestTopic_eq {node : RosNode} {params : RList} {topic : Bytes} {pub : Topic}
    {uri : Bytes} (htopic : valueS (listAt params 1) = .ok topic)
    (hpub : dvalue node.publishers topic = some pub) (huri : pub.uri = some uri) :
    requestTopic node params 3 = .ok (.response (genRpcResponse (topicReply uri pub.port))) := by
  simp only [requestTopic, ne_eq, not_true_eq_false, if_false, htopic, bind, Except.bind, hpub,
    huri, strdup]
  rfl

theorem requestTopic_published {node : RosNode} (callerid : Bytes) {topic : Bytes} {pub : Topic}
    (hpub : dvalue node.publishers topic = some pub) {uri : Bytes} (huri : pub.uri = some uri) :
    requestTopic node (listenerParams callerid topic) 3 =
      .ok (.response (genRpcResponse (topicReply uri pub.port))) :=
  requestTopic_eq rfl hpub huri

theorem requestTopic_unpublished {node : RosNode} (callerid : Bytes) {topic : Bytes}
    (hpub : dvalue node.publishers topic = none) :
    requestTopic node (listenerParams callerid topic) 3 = .ok .badRequest := by
  have htopic : valueS (listAt (listenerParams callerid topic) 1) = .ok topic := rfl
  simp only [requestTopic, ne_eq, not_true_eq_false, if_false, htopic, bind, Except.bind, hpub]
  rfl

theorem xmlRpcApiHandler_requestTopic (params : RList) (n : Nat) {node : RosNode} {reply : Reply}
    (h : requestTopic node params n = .ok reply) :
    xmlRpcApiHandler ⟨some (str "requestTopic"), n, params⟩ node = .ok (some reply, node) := by
  have hhash : hash (str "requestTopic") hashSize = rqRequestTopic := by decide
  have hne : rqRequestTopic ≠ rqPublisherUpdate := by decide
  simp only [xmlRpcApiHandler, hhash, if_neg hne, if_true, h, bind, Except.bind]
  rfl

/-- `__s` can count the reply with the address. -/
def ReplyFits (uri : Bytes) (port : Int32) : Prop :=
  (responsePattern (responseDocument (topicReply uri port))).length < 2147483647

instance (uri : Bytes) (port : Int32) : Decidable (ReplyFits uri port) :=
  inferInstanceAs (Decidable (_ < _))

theorem ReplyFits.uri {uri : Bytes} {port : Int32} (h : ReplyFits uri port) :
    uri.length + 21 < 2147483647 := uri_length_lt (length_of_responsePattern h)

/-- What the node replies is what the listener's exchange decodes. -/
theorem negotiate_eq (hparser : ParsesDocuments beyond parseXml) (heap heap' : Nat → Byte)
    (junk buf : Bytes) {node : RosNode} {sub : Topic} (hc : Payload beyond sub.callerid)
    (ht : Payload beyond sub.topic)
    (hfits : CallFits sub.callerid sub.topic) {reply : Reply}
    (h : requestTopic node (listenerParams sub.callerid sub.topic) 3 = .ok reply) :
    negotiate parseXml heap heap' junk buf node sub =
      parseResponse parseXml heap' (reply.bytes buf) := by
  have hmethod : Payload beyond (str "requestTopic") := payload_ascii (by decide) (by decide)
  have hsize : listSize (listenerParams sub.callerid sub.topic) = 3 := rfl
  have hne : listSize (listenerParams sub.callerid sub.topic) ≠ 0 := by
    rw [hsize]
    decide
  have hcall := strosAcceptRequest_call hparser heap junk hmethod 3
    (built_listenerParams hc ht) hne hfits node
  have hreply := xmlRpcApiHandler_requestTopic (listenerParams sub.callerid sub.topic) 3 h
  rw [hsize, hreply] at hcall
  rw [negotiate]
  change (strosAcceptRequest parseXml heap junk (postRequest (genRpcCall
    ⟨some (str "requestTopic"), 3, listenerParams sub.callerid sub.topic⟩)) node >>= _) = _
  rw [hcall]
  rfl

end Negotiation

/-! ## The listener -/

def Connects (s : SubState) (resp : Option RpcResponse) (ip : Bytes) (port : Int32) : Prop :=
  ∃ t, exec subSystem s [.listen (.reply resp), .listen .go] = some t ∧
    t.ip = some ip ∧ t.port = port ∧ t.sub.status = .active

def Keeps (s : SubState) (resp : Option RpcResponse) : Prop :=
  ∃ t, exec subSystem s [.listen (.reply resp)] = some t ∧
    t.ip = s.ip ∧ t.port = s.port ∧ t.sub = s.sub

theorem connects_of_replyAddress {s : SubState} {host : Bytes} {hostPort : Int32}
    (hpc : s.pc = .exchange (some host) hostPort) {resp : Option RpcResponse} {ip : Bytes}
    {port : Int32} (h : replyAddress resp = .ok (some (ip, port))) : Connects s resp ip port := by
  refine ⟨{ s with
      sub := { s.sub with status := .active }
      pc := .connect
      ip := some ip
      port := port
      asked := some (some host, hostPort) }, ?_, rfl, rfl, rfl⟩
  simp only [exec, subSystem, subStep, subscriberListener, hpc, h]

theorem keeps_of_replyAddress {s : SubState} {host : Bytes} {hostPort : Int32}
    (hpc : s.pc = .exchange (some host) hostPort) {resp : Option RpcResponse}
    (h : replyAddress resp = .ok none) : Keeps s resp := by
  refine ⟨{ s with pc := .connect }, ?_, rfl, rfl, rfl⟩
  simp only [exec, subSystem, subStep, subscriberListener, hpc, h]

/-- The listener gets the address of the publisher from a node that has one, and
nothing from a node that does not publish the topic. -/
theorem negotiation_agrees {beyond : Byte → Prop} {parseXml : Bytes → C (Option XMLDoc)}
    (hparser : ParsesDocuments beyond parseXml) (heap heap' : Nat → Byte) (junk buf : Bytes)
    (subscribers : Dictionary Topic) (pubs : List Topic) {s : SubState} {host : Bytes}
    {hostPort : Int32} (hpc : s.pc = .exchange (some host) hostPort)
    (hc : Payload beyond s.sub.callerid) (ht : Payload beyond s.sub.topic)
    (hfits : CallFits s.sub.callerid s.sub.topic) :
    (∀ pub uri, Publishes pubs s.sub.topic pub → Started beyond pub uri →
        ReplyFits uri pub.port →
        ∃ resp, negotiate parseXml heap heap' junk buf ⟨subscribers, publishersOf pubs⟩ s.sub =
            .ok resp ∧ Connects s resp uri pub.port) ∧
      ((∀ p ∈ pubs, p.topic ≠ s.sub.topic) →
        ∃ resp, negotiate parseXml heap heap' junk buf ⟨subscribers, publishersOf pubs⟩ s.sub =
            .ok resp ∧ Keeps s resp) := by
  constructor
  · rintro pub uri hpub ⟨huri, hpayload, -⟩ hreplyFits
    have hdvalue : dvalue (RosNode.mk subscribers (publishersOf pubs)).publishers s.sub.topic =
        some pub := hpub.dvalue
    have hreply := requestTopic_published s.sub.callerid hdvalue huri
    have hresp := parseResponse_response hparser heap' buf
      (built_topicReply hpayload hreplyFits.uri)
      (by simp [topicReply, listPutArray, listPut_listInit, listSize, Item.isNil]) hreplyFits
    refine ⟨some ⟨respOk, listSize (topicReply uri pub.port), some (topicReply uri pub.port)⟩, ?_,
      connects_of_replyAddress hpc (replyAddress_topicReply _ uri pub.port)⟩
    rw [negotiate_eq hparser heap heap' junk buf hc ht hfits hreply, hresp]
  · intro hnone
    have hdvalue : dvalue (RosNode.mk subscribers (publishersOf pubs)).publishers s.sub.topic =
        none := dvalue_publishersOf_none hnone
    have hreply := requestTopic_unpublished s.sub.callerid hdvalue
    refine ⟨none, ?_, keeps_of_replyAddress hpc rfl⟩
    rw [negotiate_eq hparser heap heap' junk buf hc ht hfits hreply, Reply.bytes,
      parseResponse_badRequest]

/-! ## Two nodes -/

def chatterPublisher : Topic :=
  ⟨str "/talker", str "/chatter", str "std_msgs/String", some (str "10.0.0.1"), 11311, .active⟩

def chatterListener : SubState where
  rosOk := true
  sub := ⟨str "/listener", str "/chatter", str "std_msgs/String", some (str "10.0.0.1"), 8080,
    .refresh⟩
  pc := .exchange (some (str "10.0.0.1")) 8080
  ip := none
  port := 0
  installed := (some (str "10.0.0.1"), 8080)
  asked := none

theorem chatterPublisher_started :
    Started (fun _ => True) chatterPublisher (str "10.0.0.1") :=
  ⟨rfl, payload_ascii (by decide) (by decide), by decide⟩

theorem chatterListener_callerid :
    Payload (fun _ => True) chatterListener.sub.callerid := payload_ascii (by decide) (by decide)

/-- With the publisher the listener connects, with an empty node it does not. -/
theorem negotiation_agrees_chatter :
    (∃ resp, negotiate plainParser (fun _ => 0) (fun _ => 0) [] []
        ⟨dict, publishersOf [chatterPublisher]⟩ chatterListener.sub = .ok resp ∧
        Connects chatterListener resp (str "10.0.0.1") 11311) ∧
      ∃ resp, negotiate plainParser (fun _ => 0) (fun _ => 0) [] [] ⟨dict, publishersOf []⟩
          chatterListener.sub = .ok resp ∧
        Keeps chatterListener resp := by
  have hparser := plainParser_parsesDocuments fun _ => True
  have htopic : Payload (fun _ => True) chatterListener.sub.topic :=
    payload_ascii (by decide) (by decide)
  constructor
  · exact (negotiation_agrees hparser _ _ _ _ dict [chatterPublisher] rfl
      chatterListener_callerid htopic (by decide +kernel)).1 chatterPublisher (str "10.0.0.1")
      ⟨[], [], rfl, rfl, by simp⟩ chatterPublisher_started (by decide +kernel)
  · exact (negotiation_agrees hparser _ _ _ _ dict [] rfl chatterListener_callerid htopic
      (by decide +kernel)).2 (by simp)

/-! ## A topic of 2 GiB -/

theorem callDocument_length (callerid topic : Bytes) :
    (callDocument (str "requestTopic") (listenerParams callerid topic)).length =
      callerid.length + topic.length + 391 := by
  have hparams : listenerParams callerid topic =
      [.string callerid, .string topic, .array [.array [.string (str "TCPROS")]]] := rfl
  have hver : xmlVer.length = 23 := rfl
  have hcrlf : crlf.length = 2 := rfl
  have hname : (str "requestTopic").length = 12 := rfl
  have htcp : (str "TCPROS").length = 6 := rfl
  simp only [hparams, callDocument_eq, paramsMarkup, parsMarkup_cons, itemMarkup, itemsMarkup,
    renders_valueMarkup, renders_blockMarkup, render_element, render_textElement, renders_cons,
    renders_append, render_text, xmlValue, List.length_append, inTag_length, hver, hcrlf, hname,
    htcp]
  simp [parsMarkup]
  omega

theorem requestPattern_length (data : Bytes) :
    (requestPattern data).length = data.length + (percentD data.length).length + 97 := by
  have hheaders : (str "POST /RPC2 HTTP/1.0\r\nHost: stROS\r\nUser-Agent: stROS\r\nContent-Type: text/xml\r\n").length = 77 := by
    decide
  have hlength : (str "Content-Length: ").length = 16 := rfl
  have hcrlf : crlf.length = 2 := rfl
  simp only [requestPattern, List.length_append, hheaders, hlength, hcrlf]
  omega

/-- Names of this length have a call that fits, and a request that does not: the server gets
nothing. -/
theorem negotiate_noRoom (parseXml : Bytes → C (Option XMLDoc)) (heap heap' : Nat → Byte)
    (buf : Bytes) (node : RosNode) {sub : Topic}
    (hmin : 2147483159 ≤ sub.callerid.length + sub.topic.length)
    (hmax : sub.callerid.length + sub.topic.length < 2147483256) :
    negotiate parseXml heap heap' [] buf node sub = .ok none := by
  have hlen := callDocument_length sub.callerid sub.topic
  have hfits : (callDocument (str "requestTopic")
      (listenerParams sub.callerid sub.topic)).length < 2147483647 := by omega
  have hcall : genRpcCall (listenerRequest sub.callerid sub.topic) =
      callDocument (str "requestTopic") (listenerParams sub.callerid sub.topic) :=
    genRpcCall_eq 3 hfits
  have hrequest : postRequest (genRpcCall (listenerRequest sub.callerid sub.topic)) = [] := by
    refine sFormat_overflow ?_
    rw [hcall, requestPattern_length]
    omega
  have hserver : strosAcceptRequest parseXml heap [] [] node = .ok (some .badRequest, node) := rfl
  simp only [negotiate, hrequest, hserver]
  exact parseResponse_badRequest parseXml heap' buf

def publisherOf (topic : Bytes) : Topic := { chatterPublisher with topic := topic }

def listenerOf (topic : Bytes) : SubState :=
  { chatterListener with sub := { chatterListener.sub with topic := topic } }

/-- The listener of a topic of nearly 2 GiB does not get the address of its publisher. -/
theorem negotiation_noRoom :
    ∃ topic, topic = List.replicate 2147483200 97 ∧
      Payload (fun _ => True) (listenerOf topic).sub.callerid ∧
      Payload (fun _ => True) (listenerOf topic).sub.topic ∧
      Publishes [publisherOf topic] (listenerOf topic).sub.topic (publisherOf topic) ∧
      Started (fun _ => True) (publisherOf topic) (str "10.0.0.1") ∧
      ¬ ∃ resp, negotiate plainParser (fun _ => 0) (fun _ => 0) [] []
          ⟨dict, publishersOf [publisherOf topic]⟩ (listenerOf topic).sub = .ok resp ∧
        Connects (listenerOf topic) resp (str "10.0.0.1") 11311 := by
  obtain ⟨topic, htopic⟩ : ∃ topic, topic = List.replicate 2147483200 (97 : Byte) := ⟨_, rfl⟩
  have hlen : topic.length = 2147483200 := by rw [htopic, List.length_replicate]
  have hpayload : Payload (fun _ => True) topic := by
    rw [htopic]
    exact payload_replicate (by decide)
  have hcaller : (listenerOf topic).sub.callerid.length = 9 := rfl
  have hsub : (listenerOf topic).sub.topic.length = 2147483200 := hlen
  refine ⟨topic, htopic, chatterListener_callerid, hpayload, ⟨[], [], rfl, rfl, by simp⟩,
    chatterPublisher_started, ?_⟩
  rintro ⟨resp, hresp, t, ht, hip, -⟩
  rw [negotiate_noRoom _ _ _ _ _ (by rw [hcaller, hsub]; decide)
    (by rw [hcaller, hsub]; decide)] at hresp
  cases hresp
  have hrun : ∃ t, exec subSystem (listenerOf topic) [.listen (.reply none), .listen .go] =
      some t ∧ t.ip = none := ⟨_, rfl, rfl⟩
  obtain ⟨t', ht', hip'⟩ := hrun
  rw [ht'] at ht
  cases ht
  rw [hip'] at hip
  cases hip

end STRos
