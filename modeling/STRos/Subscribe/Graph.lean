import STRos.Subscribe.Node

/-! # Listeners and the nodes they ask

The answers to the listeners of a node come from the nodes of a graph: at an address there may
be nodes, each in some state of its own. A listener then connects to publishers of its topic
only, and one whose subscriber was told a node that publishes the topic connects to it.
-/

namespace STRos

open CString Transition

/-- The states of the nodes that may be met at an address. -/
abbrev Graph := Bytes → Int32 → RosNode → Prop

section Answers

variable {beyond : Byte → Prop} {parseXml : Bytes → C (Option XMLDoc)}

/-- A node in this state answers the call of a listener, whatever is on the heaps and stacks. -/
def AnsweredBy (parseXml : Bytes → C (Option XMLDoc)) (remote : RosNode) (sub : Topic)
    (resp : Option RpcResponse) : Prop :=
  ∃ heap heap' junk buf, negotiate parseXml heap heap' junk buf remote sub = .ok resp

/-- There is no connection, or a node of the graph answers. -/
def FromGraph (parseXml : Bytes → C (Option XMLDoc)) (graph : Graph) (host : Bytes) (port : Int32)
    (sub : Topic) (resp : Option RpcResponse) : Prop :=
  resp = none ∨ ∃ remote, graph host port remote ∧ AddressesStored remote ∧
    AnsweredBy parseXml remote sub resp

structure Named (beyond : Byte → Prop) (sub : Topic) : Prop where
  callerid : Payload beyond sub.callerid
  topic : Payload beyond sub.topic
  fits : CallFits sub.callerid sub.topic

def PublishedAt (remote : RosNode) (topic ip : Bytes) (port : Int32) : Prop :=
  ∃ pub, dvalue remote.publishers topic = some pub ∧ pub.uri = some ip ∧ pub.port = port

def addressReply (ip : Bytes) (port : Int32) : Option RpcResponse :=
  some ⟨respOk, listSize (topicReply ip port), some (topicReply ip port)⟩

theorem negotiate_published (hparser : ParsesDocuments beyond parseXml) {sub : Topic}
    (hsub : Named beyond sub) {remote : RosNode} (hstored : AddressesStored remote) {ip : Bytes}
    {port : Int32} (hpub : PublishedAt remote sub.topic ip port) (heap heap' : Nat → Byte)
    (junk buf : Bytes) :
    negotiate parseXml heap heap' junk buf remote sub = .ok (addressReply ip port) := by
  obtain ⟨pub, hpub, huri, rfl⟩ := hpub
  have haddress := hstored _ _ _ hpub huri
  rw [negotiate_eq hparser heap heap' junk buf hsub.callerid hsub.topic hsub.fits
    (requestTopic_published sub.callerid hpub huri),
    parseResponse_response hparser heap' buf
      (built_topicReply haddress.payload (replyFits_address haddress.2.1 pub.port).uri)
      (by simp [topicReply, listPutArray, listPut_listInit, listSize, Item.isNil])
      (replyFits_address haddress.2.1 pub.port)]
  rfl

/-- A node with a publisher of the topic answers, and with its address. -/
theorem answeredBy_published (hparser : ParsesDocuments beyond parseXml) {sub : Topic}
    (hsub : Named beyond sub) {remote : RosNode} (hstored : AddressesStored remote) {ip : Bytes}
    {port : Int32} (hpub : PublishedAt remote sub.topic ip port) {resp : Option RpcResponse} :
    AnsweredBy parseXml remote sub resp ↔ resp = addressReply ip port := by
  have hanswer := negotiate_published hparser hsub hstored hpub
  constructor
  · rintro ⟨heap, heap', junk, buf, h⟩
    rw [hanswer] at h
    exact (Except.ok.inj h).symm
  · rintro rfl
    exact ⟨fun _ => 0, fun _ => 0, [], [], hanswer _ _ _ _⟩

theorem replyAddress_addressReply (ip : Bytes) (port : Int32) :
    replyAddress (addressReply ip port) = .ok (some (ip, port)) :=
  replyAddress_topicReply _ ip port

/-- The other node does not live to answer. -/
theorem negotiate_error (hparser : ParsesDocuments beyond parseXml) (heap heap' : Nat → Byte)
    (junk buf : Bytes) {remote : RosNode} {sub : Topic} (hsub : Named beyond sub) {e : Fault}
    (h : requestTopic remote (listenerParams sub.callerid sub.topic) 3 = .error e) :
    negotiate parseXml heap heap' junk buf remote sub = .error e := by
  have hmethod : Payload beyond (str "requestTopic") := payload_ascii (by decide) (by decide)
  have hsize : listSize (listenerParams sub.callerid sub.topic) = 3 := rfl
  have hhash : hash (str "requestTopic") hashSize = rqRequestTopic := by decide
  have hother : rqRequestTopic ≠ rqPublisherUpdate := by decide
  have hcall := strosAcceptRequest_call hparser heap junk hmethod 3
    (built_listenerParams hsub.callerid hsub.topic) (by rw [hsize]; decide) hsub.fits remote
  rw [hsize] at hcall
  simp only [xmlRpcApiHandler, hhash, if_neg hother, if_true, h, bind, Except.bind] at hcall
  rw [negotiate]
  change (strosAcceptRequest parseXml heap junk (postRequest (genRpcCall
    ⟨some (str "requestTopic"), 3, listenerParams sub.callerid sub.topic⟩)) remote >>= _) = _
  rw [hcall]
  rfl

/-- A node without the topic gives no address, and one that has no address for it does not
answer. -/
theorem replyAddress_unpublished (hparser : ParsesDocuments beyond parseXml) {sub : Topic}
    (hsub : Named beyond sub) {remote : RosNode} {resp : Option RpcResponse}
    (hnone : ∀ ip port, ¬ PublishedAt remote sub.topic ip port)
    (h : AnsweredBy parseXml remote sub resp) : replyAddress resp = .ok none := by
  obtain ⟨heap, heap', junk, buf, h⟩ := h
  cases hpub : dvalue remote.publishers sub.topic with
  | none =>
      rw [negotiate_eq hparser heap heap' junk buf hsub.callerid hsub.topic hsub.fits
        (requestTopic_unpublished sub.callerid hpub), Reply.bytes, parseResponse_badRequest] at h
      cases h
      rfl
  | some pub =>
      have huri : pub.uri = none := by
        cases hip : pub.uri with
        | none => rfl
        | some ip => exact absurd ⟨pub, hpub, hip, rfl⟩ (hnone ip pub.port)
      have hdies : ∃ e, requestTopic remote (listenerParams sub.callerid sub.topic) 3 =
          .error e := by
        have htopic : valueS (listAt (listenerParams sub.callerid sub.topic) 1) =
          .ok sub.topic := rfl
        simp only [requestTopic, ne_eq, not_true_eq_false, if_false, htopic, bind, Except.bind,
          hpub, huri, strdup]
        exact ⟨_, rfl⟩
      obtain ⟨e, hdies⟩ := hdies
      rw [negotiate_error hparser heap heap' junk buf hsub hdies] at h
      cases h

end Answers

/-! ## Where a listener may connect -/

/-- A node of the graph at the first pair has a publisher of the topic at the second one. -/
def GivenBy (graph : Graph) (topic : Bytes) (asked : Option Bytes × Int32) (ip : Bytes)
    (port : Int32) : Prop :=
  ∃ host remote, asked.1 = some host ∧ graph host asked.2 remote ∧
    PublishedAt remote topic ip port

/-- The condition on a step: a reply to a listener comes from the graph. -/
def Meets (parseXml : Bytes → C (Option XMLDoc)) (graph : Graph) (s : NodeState) (a : NodeAct)
    (_ : NodeState) : Prop :=
  ∀ topic resp v host port, a = .listen topic (.reply resp) → s.subscriber topic = some v →
    v.pc = .exchange (some host) port → FromGraph parseXml graph host port v.sub resp

structure PublisherInv (graph : Graph) (topic : Bytes) (v : SubState) : Prop where
  activate : ∀ uri port ip ipPort, v.pc = .activate uri port ip ipPort →
    GivenBy graph topic (uri, port) ip ipPort
  holds : ∀ ip, v.ip = some ip → ∃ asked, v.asked = some asked ∧
    GivenBy graph topic asked ip v.port

/-- A listener gets an address by a reply and takes it over behind that. -/
theorem subscriberListener_address {v w : SubState} {choice : Choice}
    (h : subscriberListener v choice = some w) :
    (w.ip = v.ip ∧ w.port = v.port ∧ w.asked = v.asked ∧
        ∀ uri port ip ipPort, w.pc ≠ .activate uri port ip ipPort) ∨
      (∃ host port resp ip ipPort, v.pc = .exchange (some host) port ∧ choice = .reply resp ∧
        replyAddress resp = .ok (some (ip, ipPort)) ∧
        w = { v with pc := .activate (some host) port ip ipPort }) ∨
      ∃ uri port ip ipPort, v.pc = .activate uri port ip ipPort ∧ w.pc = .connect ∧
        w.ip = some ip ∧ w.port = ipPort ∧ w.asked = some (uri, port) := by
  unfold subscriberListener at h
  split at h
  case h_9 hpc =>
    split at h
    · cases h
    · cases h
      exact Or.inl ⟨rfl, rfl, rfl, by simp⟩
    · rename_i ip ipPort hreply
      cases h
      exact Or.inr (Or.inl ⟨_, _, _, ip, ipPort, hpc, rfl, hreply, rfl⟩)
  case h_10 hpc =>
    cases h
    exact Or.inr (Or.inr ⟨_, _, _, _, hpc, rfl, rfl, rfl, rfl⟩)
  case h_12 hpc =>
    cases h
    exact Or.inl ⟨rfl, rfl, rfl, by simp [hpc]⟩
  all_goals
    cases h
    try exact Or.inl ⟨rfl, rfl, rfl, by dsimp only; intros; (repeat' split) <;> simp⟩

section Safety

variable {beyond : Byte → Prop} {parseXml : Bytes → C (Option XMLDoc)} {graph : Graph}

theorem givenBy_of_reply (hparser : ParsesDocuments beyond parseXml) {sub : Topic}
    (hsub : Named beyond sub) {host : Bytes} {port : Int32} {resp : Option RpcResponse}
    (h : FromGraph parseXml graph host port sub resp) {ip : Bytes} {ipPort : Int32}
    (hreply : replyAddress resp = .ok (some (ip, ipPort))) :
    GivenBy graph sub.topic (some host, port) ip ipPort := by
  cases h with
  | inl hnone =>
      rw [hnone] at hreply
      cases hreply
  | inr hremote =>
      obtain ⟨remote, hgraph, hstored, hanswer⟩ := hremote
      by_cases hpub : ∃ ip' port', PublishedAt remote sub.topic ip' port'
      · obtain ⟨ip', port', hpub⟩ := hpub
        rw [(answeredBy_published hparser hsub hstored hpub).mp hanswer,
          replyAddress_addressReply] at hreply
        cases hreply
        exact ⟨host, remote, rfl, hgraph, hpub⟩
      · rw [replyAddress_unpublished hparser hsub (fun ip' port' h => hpub ⟨ip', port', h⟩)
          hanswer] at hreply
        cases hreply

theorem PublisherInv.listen (hparser : ParsesDocuments beyond parseXml) {v w : SubState}
    {choice : Choice} (hv : PublisherInv graph v.sub.topic v) (hsub : Named beyond v.sub)
    (h : subscriberListener v choice = some w)
    (hmeets : ∀ resp host port, choice = .reply resp → v.pc = .exchange (some host) port →
      FromGraph parseXml graph host port v.sub resp) :
    PublisherInv graph v.sub.topic w := by
  rcases subscriberListener_address h with ⟨hip, hport, hasked, hpc⟩ |
    ⟨host, port, resp, ip, ipPort, hpc, hchoice, hreply, rfl⟩ |
    ⟨uri, port, ip, ipPort, hpc, hpc', hip, hport, hasked⟩
  · refine ⟨fun uri port ip ipPort hact => absurd hact (hpc uri port ip ipPort), ?_⟩
    rw [hip, hport, hasked]
    exact hv.holds
  · refine ⟨fun uri port' ip' ipPort' hact => ?_, hv.holds⟩
    cases hact
    exact givenBy_of_reply hparser hsub (hmeets resp host port hchoice hpc) hreply
  · refine ⟨fun _ _ _ _ hact => ?_, fun ip' hip' => ?_⟩
    · rw [hpc'] at hact
      cases hact
    · rw [hip] at hip'
      cases hip'
      rw [hport]
      exact ⟨_, hasked, hv.activate uri port ip ipPort hpc⟩

/-- The records are kept under their topics, and the listeners hold what they were given. -/
structure GraphInv (beyond : Byte → Prop) (graph : Graph) (s : NodeState) : Prop where
  named : ∀ topic sub, dvalue s.node.subscribers topic = some sub →
    sub.topic = topic ∧ Named beyond sub
  given : ∀ topic v, s.subscriber topic = some v → PublisherInv graph topic v

theorem GraphInv.step (hparser : ParsesDocuments beyond parseXml) {s t : NodeState} {a : NodeAct}
    (hs : GraphInv beyond graph s) (h : nodeStep parseXml s a = some t)
    (hmeets : Meets parseXml graph s a t) : GraphInv beyond graph t := by
  constructor
  · intro topic sub' hsub'
    obtain ⟨sub, hsub, htopic, hcallerid⟩ := nodeStep_names h hsub'
    obtain ⟨hkey, hnamed⟩ := hs.named topic sub hsub
    refine ⟨htopic.trans hkey, ?_, ?_, ?_⟩
    · exact hcallerid ▸ hnamed.callerid
    · exact htopic ▸ hnamed.topic
    · rw [hcallerid, htopic]
      exact hnamed.fits
  · intro topic w hw
    cases a with
    | request heap junk sock =>
        rcases request_subscriber h topic with hsame | ⟨v, l, w', hv, hupdate, hw'⟩
        · exact hs.given topic w (hsame ▸ hw)
        · rw [hw] at hw'
          cases hw'
          have hinv := hs.given topic v hv
          simp only [subStep] at hupdate
          split at hupdate
          · cases hupdate
          · cases hupdate
            exact ⟨hinv.activate, hinv.holds⟩
    | stop =>
        rw [stop_subscriber h, Option.map_eq_some_iff] at hw
        obtain ⟨v, hv, rfl⟩ := hw
        have hinv := hs.given topic v hv
        exact ⟨hinv.activate, hinv.holds⟩
    | deploy topic' l =>
        rcases deploy_subscriber h topic with hsame | ⟨-, -, sub, sub', -, -, hw'⟩
        · exact hs.given topic w (hsame ▸ hw)
        · rw [hw] at hw'
          cases hw'
          exact ⟨by simp, by simp⟩
    | listen topic' choice =>
        rcases listen_subscriber h topic with ⟨-, hsame⟩ | ⟨rfl, v, w', hv, hlisten, hw'⟩
        · exact hs.given topic w (hsame ▸ hw)
        · rw [hw] at hw'
          cases hw'
          obtain ⟨-, -, hsub⟩ := NodeState.subscriber_installed hv
          obtain ⟨hkey, hnamed⟩ := hs.named topic v.sub hsub
          have hinv := hs.given topic v hv
          rw [← hkey] at hinv ⊢
          refine hinv.listen hparser hnamed hlisten fun resp host port hchoice hpc => ?_
          exact hmeets topic resp v host port (by rw [hchoice]) hv hpc

/-- Whatever clients send to the node, a listener is in `tcp_ros_request` only with the address
of a publisher of its topic, which a node of the graph gave for it. -/
theorem connects_to_publishers (hparser : ParsesDocuments beyond parseXml) {node : RosNode}
    (hnamed : ∀ topic sub, dvalue node.subscribers topic = some sub →
      sub.topic = topic ∧ Named beyond sub)
    {s : NodeState} (h : Reaches (nodeSystem parseXml node) (Meets parseXml graph) s)
    {topic : Bytes} {v : SubState} (hv : s.subscriber topic = some v) (hpc : v.pc = .receiving) :
    ∃ ip asked, v.ip = some ip ∧ 0 < v.port ∧ v.asked = some asked ∧
      GivenBy graph topic asked ip v.port := by
  have hinv : GraphInv beyond graph s := by
    refine h.invariant ?_ fun s a t hs hstep hmeets => hs.step hparser hstep hmeets
    rintro s rfl
    exact ⟨hnamed, fun topic v hv => by simp [NodeState.subscriber] at hv⟩
  have hreach : Reachable (nodeSystem parseXml node) s := h.mono fun _ _ _ _ => trivial
  have haddress : AddressInv v := (listeners_refine hreach hv).invariant
    (fun _ => addressInv_init) fun _ _ _ hs hstep _ => hs.step hstep
  obtain ⟨hip, hport⟩ := haddress hpc
  obtain ⟨ip, hip⟩ := Option.isSome_iff_exists.mp hip
  obtain ⟨asked, hasked, hgiven⟩ := (hinv.given topic v hv).holds ip hip
  exact ⟨ip, asked, hip, hport, hasked, hgiven⟩

end Safety

def chatterGraph : Graph := fun _ _ remote => remote = chatterNode

theorem publishedAt_chatter :
    PublishedAt chatterNode (str "/chatter") (str "10.0.0.1") 11311 :=
  ⟨chatterPublisher, rfl, rfl, rfl⟩

theorem named_chatter {sub : Topic} (htopic : sub.topic = str "/chatter")
    (hcallerid : sub.callerid = str "/listener") : Named (fun _ => True) sub := by
  refine ⟨?_, ?_, ?_⟩
  · rw [hcallerid]
    exact payload_ascii (by decide) (by decide)
  · rw [htopic]
    exact payload_ascii (by decide) (by decide)
  · rw [hcallerid, htopic]
    decide +kernel

def OnlyChatter (node : RosNode) : Prop :=
  ∀ topic sub, dvalue node.subscribers topic = some sub →
    topic = str "/chatter" ∧ sub.topic = str "/chatter" ∧ sub.callerid = str "/listener"

theorem onlyChatter_listenerNode : OnlyChatter listenerNode := by
  intro topic sub hsub
  by_cases htopic : topic = str "/chatter"
  · subst htopic
    rw [listenerNode, dvalue_dput_self] at hsub
    cases hsub
    exact ⟨rfl, rfl, rfl⟩
  · rw [listenerNode, dvalue_dput_ne _ _ htopic, dvalue_dict] at hsub
    cases hsub

theorem OnlyChatter.step {s t : NodeState} {a : NodeAct} (hs : OnlyChatter s.node)
    (h : nodeStep plainParser s a = some t) : OnlyChatter t.node := by
  intro topic sub' hsub'
  obtain ⟨sub, hsub, htopic, hcallerid⟩ := nodeStep_names h hsub'
  rw [htopic, hcallerid]
  exact hs topic sub hsub

/-- The listener is deployed, asks, and connects. -/
def connectChatter : List NodeAct :=
  deployChatter :: List.replicate 6 (.listen (str "/chatter") .go) ++
    [.listen (str "/chatter") (.reply (addressReply (str "10.0.0.1") 11311)),
      .listen (str "/chatter") .go, .listen (str "/chatter") .go]

theorem connects_to_publishers_chatter :
    ∃ s v ip asked, exec (nodeSystem plainParser listenerNode)
        ⟨true, listenerNode, fun _ => none⟩ connectChatter = some s ∧
      s.subscriber (str "/chatter") = some v ∧ v.pc = .receiving ∧ v.ip = some ip ∧
      v.asked = some asked ∧ GivenBy chatterGraph (str "/chatter") asked ip v.port := by
  have hparser := plainParser_parsesDocuments fun _ => True
  have hrun : ∃ s v, exec (nodeSystem plainParser listenerNode)
      ⟨true, listenerNode, fun _ => none⟩ connectChatter = some s ∧
      s.subscriber (str "/chatter") = some v ∧ v.pc = .receiving := ⟨_, _, rfl, rfl, rfl⟩
  obtain ⟨s, v, hexec, hv, hpc⟩ := hrun
  have hreach : Reaches (nodeSystem plainParser listenerNode) (Meets plainParser chatterGraph)
      s := by
    refine Reaches.exec (P := fun s => OnlyChatter s.node)
      (Q := fun a => ∀ topic resp, a = .listen topic (.reply resp) →
        resp = addressReply (str "10.0.0.1") 11311)
      (fun s a t hs hQ hstep => ⟨?_, hs.step hstep⟩) (.init rfl) onlyChatter_listenerNode
      (by simp [connectChatter, deployChatter]) hexec
    intro topic resp v host port ha hv _
    obtain ⟨-, -, hsub⟩ := NodeState.subscriber_installed hv
    obtain ⟨-, htopic, hcallerid⟩ := hs topic v.sub hsub
    refine Or.inr ⟨chatterNode, rfl, addressesStored_chatter, ?_⟩
    rw [hQ topic resp ha]
    have hpub := publishedAt_chatter
    rw [← htopic] at hpub
    exact (answeredBy_published hparser (named_chatter htopic hcallerid) addressesStored_chatter
      hpub).mpr rfl
  obtain ⟨ip, asked, hip, -, hasked, hgiven⟩ := connects_to_publishers hparser
    (fun topic sub hsub => by
      obtain ⟨hkey, htopic, hcallerid⟩ := onlyChatter_listenerNode topic sub hsub
      exact ⟨htopic.trans hkey.symm, named_chatter htopic hcallerid⟩) hreach hv hpc
  exact ⟨s, v, ip, asked, hexec, hv, hpc, hip, hasked, hgiven⟩

end STRos
