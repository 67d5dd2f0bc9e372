import STRos.Api.PublisherUrl
import STRos.Subscribe.Graph

/-! # From an update to the connection

The call `publisherUpdate` of a master goes through the server of a node and sets the address
in the record of the subscriber. When the listener is not just asking, it leaves its old
publisher, asks the node at that address, and connects to the publisher it is told.
-/

namespace STRos

open CString Transition

/-! ## The steps to the connection -/

/-- Steps of the listener up to `tcp_ros_request` with the address of an update. -/
def SubState.stepsToGo (v : SubState) : Nat :=
  match v.pc with
  | .connect => if v.sub.status = .refresh then 11 else 1
  | .receiving => if v.sub.status = .refresh then 10 else 0
  | .headRos => 9
  | .headStatus => 8
  | .checkUri => 7
  | .checkRefresh => 6
  | .args => 5
  | .argUri _ => 4
  | .argPort _ => 4
  | .exchange _ _ => 3
  | .activate _ _ _ _ => 2
  | .exited => 0

/-- What the listener has read, and what it was told, is the address of the update and that
of the publisher. -/
def Stage (host : Bytes) (port : Int32) (ip : Bytes) (ipPort : Int32) (v : SubState) : Prop :=
  match v.pc with
  | .argUri p => v.sub.status = .refresh ∧ p = port
  | .argPort uri => v.sub.status = .refresh ∧ uri = some host
  | .exchange uri p => v.sub.status = .refresh ∧ uri = some host ∧ p = port
  | .activate uri p ip' ipPort' => uri = some host ∧ p = port ∧ ip' = ip ∧ ipPort' = ipPort
  | .connect => v.sub.status = .refresh ∨
      (v.sub.status = .active ∧ v.ip = some ip ∧ v.port = ipPort ∧
        v.asked = some (some host, port))
  | .receiving => v.sub.status = .refresh ∨
      (v.sub.status = .active ∧ v.ip = some ip ∧ v.port = ipPort ∧
        v.asked = some (some host, port))
  | .exited => False
  | _ => v.sub.status = .refresh

structure Heading (host : Bytes) (port : Int32) (ip : Bytes) (ipPort : Int32) (v : SubState) :
    Prop where
  rosOk : v.rosOk = true
  subUri : v.sub.uri = some host
  subPort : v.sub.port = port
  stage : Stage host port ip ipPort v

/-- The choices of a listener that goes on: `tcp_ros_request` is left for an update and for
nothing else, and a reply is the one of the node that was asked. -/
def ListensOn (told : Bytes → Int32 → Option RpcResponse → Prop) (v : SubState) (choice : Choice) :
    Prop :=
  (v.pc = .receiving → (choice = .leave ↔ v.sub.status = .refresh)) ∧
    ∀ resp host port, choice = .reply resp → v.pc = .exchange (some host) port →
      told host port resp

section Steps

variable {host ip : Bytes} {port ipPort : Int32} {told : Bytes → Int32 → Option RpcResponse → Prop}

theorem Heading.listen (hport : 0 < ipPort)
    (htold : ∀ resp, told host port resp → replyAddress resp = .ok (some (ip, ipPort)))
    {v w : SubState} {choice : Choice} (hv : Heading host port ip ipPort v)
    (hgo : ListensOn told v choice) (h : subscriberListener v choice = some w) :
    Heading host port ip ipPort w ∧ w.stepsToGo ≤ v.stepsToGo - 1 := by
  obtain ⟨hok, huri, hp, hstage⟩ := hv
  obtain ⟨hleave, hreply⟩ := hgo
  unfold subscriberListener at h
  unfold Stage at hstage
  split at h
  case h_1 hpc =>
    simp only [hpc] at hstage
    cases h
    refine ⟨⟨hok, huri, hp, ?_⟩, by simp [SubState.stepsToGo, hok, hpc]⟩
    simpa [Stage, hok] using hstage
  case h_2 hpc =>
    simp only [hpc] at hstage
    cases h
    refine ⟨⟨hok, huri, hp, ?_⟩, by simp [SubState.stepsToGo, hstage, hpc]⟩
    simp [Stage, hstage]
  case h_3 hpc =>
    simp only [hpc] at hstage
    cases h
    refine ⟨⟨hok, huri, hp, ?_⟩, by simp [SubState.stepsToGo, huri, hpc]⟩
    simpa [Stage, huri] using hstage
  case h_4 hpc =>
    simp only [hpc] at hstage
    cases h
    refine ⟨⟨hok, huri, hp, ?_⟩, by simp [SubState.stepsToGo, hstage, hpc]⟩
    simp [Stage, hstage]
  case h_5 hpc =>
    simp only [hpc] at hstage
    cases h
    exact ⟨⟨hok, huri, hp, hstage, huri⟩, by simp [SubState.stepsToGo, hpc]⟩
  case h_6 hpc =>
    simp only [hpc] at hstage
    cases h
    exact ⟨⟨hok, huri, hp, hstage, hp⟩, by simp [SubState.stepsToGo, hpc]⟩
  case h_7 hpc =>
    simp only [hpc] at hstage
    cases h
    exact ⟨⟨hok, huri, hp, hstage.1, huri, hstage.2⟩, by simp [SubState.stepsToGo, hpc]⟩
  case h_8 hpc =>
    simp only [hpc] at hstage
    cases h
    exact ⟨⟨hok, huri, hp, hstage.1, hstage.2, hp⟩, by simp [SubState.stepsToGo, hpc]⟩
  case h_9 uri p resp hpc =>
    simp only [hpc, Option.some.injEq] at hstage
    obtain ⟨-, rfl, rfl⟩ := hstage
    rw [htold resp (hreply resp uri p rfl hpc)] at h
    cases h
    exact ⟨⟨hok, huri, hp, rfl, rfl, rfl, rfl⟩, by simp [SubState.stepsToGo, hpc]⟩
  case h_10 hpc =>
    simp only [hpc] at hstage
    obtain ⟨rfl, rfl, rfl, rfl⟩ := hstage
    cases h
    exact ⟨⟨hok, huri, hp, Or.inr ⟨rfl, rfl, rfl, rfl⟩⟩, by simp [SubState.stepsToGo, hpc]⟩
  case h_11 hpc =>
    simp only [hpc] at hstage
    cases h
    by_cases hholds : v.ip.isSome ∧ 0 < v.port
    · rw [if_pos hholds]
      refine ⟨⟨hok, huri, hp, hstage⟩, ?_⟩
      simp only [SubState.stepsToGo, hpc]
      split <;> simp
    · have hrefresh : v.sub.status = .refresh := by
        cases hstage with
        | inl hrefresh => exact hrefresh
        | inr hactive =>
            obtain ⟨-, hip, hp', -⟩ := hactive
            exact absurd ⟨by rw [hip]; rfl, by rw [hp']; exact hport⟩ hholds
      rw [if_neg hholds]
      exact ⟨⟨hok, huri, hp, hrefresh⟩, by simp [SubState.stepsToGo, hrefresh, hpc]⟩
  case h_12 hpc =>
    simp only [hpc] at hstage
    cases h
    have hstatus : v.sub.status ≠ .refresh := fun hrefresh => by
      cases (hleave hpc).mpr hrefresh
    refine ⟨⟨hok, huri, hp, ?_⟩, by simp [SubState.stepsToGo, hstatus, hpc]⟩
    simp only [Stage, hpc]
    exact hstage
  case h_13 hpc =>
    cases h
    have hrefresh : v.sub.status = .refresh := (hleave hpc).mp rfl
    exact ⟨⟨hok, huri, hp, hrefresh⟩, by simp [SubState.stepsToGo, hrefresh, hpc]⟩
  case h_14 => cases h

theorem Heading.arrived {v : SubState} (hv : Heading host port ip ipPort v)
    (hzero : v.stepsToGo = 0) :
    v.pc = .receiving ∧ v.sub.status = .active ∧ v.ip = some ip ∧ v.port = ipPort ∧
      v.asked = some (some host, port) := by
  have hstage := hv.stage
  unfold SubState.stepsToGo at hzero
  unfold Stage at hstage
  cases hpc : v.pc with
  | receiving =>
      simp only [hpc] at hzero hstage
      have hstatus : v.sub.status ≠ .refresh := by
        intro hrefresh
        rw [if_pos hrefresh] at hzero
        cases hzero
      exact ⟨rfl, hstage.resolve_left hstatus⟩
  | connect =>
      simp only [hpc] at hzero
      split at hzero <;> cases hzero
  | exited => simp only [hpc] at hstage
  | _ =>
      simp only [hpc] at hzero
      cases hzero

/-- It can go on when there is a node to ask. -/
theorem Heading.listensOn {v : SubState} (hv : Heading host port ip ipPort v)
    (hanswer : ∃ resp, told host port resp ∧ replyAddress resp = .ok (some (ip, ipPort))) :
    ∃ choice, ListensOn told v choice ∧ ∃ w, subscriberListener v choice = some w := by
  obtain ⟨hok, huri, hp, hstage⟩ := hv
  unfold Stage at hstage
  cases hpc : v.pc with
  | exchange uri p =>
      simp only [hpc] at hstage
      obtain ⟨-, rfl, rfl⟩ := hstage
      obtain ⟨resp, htold, hreply⟩ := hanswer
      refine ⟨.reply resp, ⟨fun hrec => ?_, fun resp' host' port' hchoice hex => ?_⟩, ?_⟩
      · rw [hpc] at hrec
        cases hrec
      · rw [hpc] at hex
        cases hex
        cases hchoice
        exact htold
      · simp only [subscriberListener, hpc, hreply]
        exact ⟨_, rfl⟩
  | receiving =>
      by_cases hstatus : v.sub.status = .refresh
      · refine ⟨.leave, ⟨fun _ => by simp [hstatus], fun _ _ _ hchoice => by cases hchoice⟩, ?_⟩
        simp only [subscriberListener, hpc]
        exact ⟨_, rfl⟩
      · refine ⟨.go, ⟨fun _ => by simp [hstatus], fun _ _ _ hchoice => by cases hchoice⟩, ?_⟩
        simp only [subscriberListener, hpc]
        exact ⟨_, rfl⟩
  | exited =>
      simp only [hpc] at hstage
  | _ =>
      refine ⟨.go, ⟨fun hrec => ?_, fun _ _ _ hchoice => by cases hchoice⟩, ?_⟩
      · rw [hpc] at hrec
        cases hrec
      · simp only [subscriberListener, hpc]
        exact ⟨_, rfl⟩

end Steps

/-! ## The node while the listener goes on -/

def NodeAct.isListen (topic : Bytes) : NodeAct → Bool
  | .listen topic' _ => topic' = topic
  | _ => false

def listensOf (topic : Bytes) (acts : List NodeAct) : Nat := acts.countP (·.isListen topic)

def ToldBy (parseXml : Bytes → C (Option XMLDoc)) (graph : Graph) (sub : Topic) (host : Bytes)
    (port : Int32) (resp : Option RpcResponse) : Prop :=
  ∃ remote, graph host port remote ∧ AnsweredBy parseXml remote sub resp

/-- The condition on a step: the node goes on, no request changes the subscriber, and its
listener goes on with answers from the graph. -/
def LeftAlone (parseXml : Bytes → C (Option XMLDoc)) (graph : Graph) (topic : Bytes)
    (s : NodeState) (a : NodeAct) (t : NodeState) : Prop :=
  match a with
  | .request _ _ _ => dvalue t.node.subscribers topic = dvalue s.node.subscribers topic
  | .stop => False
  | .deploy _ _ => True
  | .listen topic' choice => topic' = topic → ∀ v, s.subscriber topic = some v →
      ListensOn (ToldBy parseXml graph v.sub) v choice

section Runs

variable {beyond : Byte → Prop} {parseXml : Bytes → C (Option XMLDoc)} {graph : Graph}
  {host ip topic : Bytes} {port ipPort : Int32}

structure Underway (beyond : Byte → Prop) (host : Bytes) (port : Int32) (ip : Bytes)
    (ipPort : Int32) (topic : Bytes) (v : SubState) : Prop where
  key : v.sub.topic = topic
  named : Named beyond v.sub
  heading : Heading host port ip ipPort v

theorem replyAddress_graph (hparser : ParsesDocuments beyond parseXml)
    (hgraph : ∀ remote, graph host port remote →
      AddressesStored remote ∧ PublishedAt remote topic ip ipPort) {v : SubState}
    (hv : Underway beyond host port ip ipPort topic v) {resp : Option RpcResponse}
    (h : ToldBy parseXml graph v.sub host port resp) :
    replyAddress resp = .ok (some (ip, ipPort)) := by
  obtain ⟨remote, hremote, hanswer⟩ := h
  obtain ⟨hstored, hpub⟩ := hgraph remote hremote
  rw [← hv.key] at hpub
  rw [(answeredBy_published hparser hv.named hstored hpub).mp hanswer, replyAddress_addressReply]

theorem Underway.step (hparser : ParsesDocuments beyond parseXml)
    (hgraph : ∀ remote, graph host port remote →
      AddressesStored remote ∧ PublishedAt remote topic ip ipPort) (hport : 0 < ipPort)
    {s t : NodeState} {a : NodeAct} (h : nodeStep parseXml s a = some t)
    (halone : LeftAlone parseXml graph topic s a t) {v : SubState}
    (hv : s.subscriber topic = some v) (hunder : Underway beyond host port ip ipPort topic v) :
    ∃ w, t.subscriber topic = some w ∧ Underway beyond host port ip ipPort topic w ∧
      w.stepsToGo ≤ v.stepsToGo - listensOf topic [a] := by
  cases a with
  | request heap junk sock =>
      have hsame : t.subscriber topic = s.subscriber topic := by
        simp only [nodeStep] at h
        split at h
        · cases h
        · cases h
          simp only [LeftAlone] at halone
          simp only [NodeState.subscriber, halone]
      exact ⟨v, hsame.trans hv, hunder, Nat.le_refl _⟩
  | stop => cases halone
  | deploy topic' l =>
      rcases deploy_subscriber h topic with hsame | ⟨-, hnone, -⟩
      · exact ⟨v, hsame.trans hv, hunder, Nat.le_refl _⟩
      · rw [hv] at hnone
        cases hnone
  | listen topic' choice =>
      rcases listen_subscriber h topic with ⟨hne, hsame⟩ | ⟨rfl, u, w, hu, hlisten, hw⟩
      · refine ⟨v, hsame.trans hv, hunder, ?_⟩
        have hcount : listensOf topic [.listen topic' choice] = 0 := by
          simp [listensOf, NodeAct.isListen, Ne.symm hne]
        rw [hcount]
        exact Nat.le_refl _
      · rw [hv] at hu
        cases hu
        obtain ⟨hheading, hsteps⟩ := hunder.heading.listen hport
          (fun resp htold => replyAddress_graph hparser hgraph hunder htold) (halone rfl v hv)
          hlisten
        obtain ⟨-, -, hkeeps⟩ := subscriberListener_keeps hlisten
        have hcount : listensOf topic [.listen topic choice] = 1 := by
          simp [listensOf, NodeAct.isListen]
        rw [hcount]
        refine ⟨w, hw, ⟨?_, ?_, hheading⟩, hsteps⟩
        · rw [hkeeps]
          exact hunder.key
        · rw [hkeeps]
          exact ⟨hunder.named.callerid, hunder.named.topic, hunder.named.fits⟩

theorem Underway.trace (hparser : ParsesDocuments beyond parseXml)
    (hgraph : ∀ remote, graph host port remote →
      AddressesStored remote ∧ PublishedAt remote topic ip ipPort) (hport : 0 < ipPort)
    {node : RosNode} {s t : NodeState} {acts : List NodeAct}
    (h : Trace (nodeSystem parseXml node) (LeftAlone parseXml graph topic) s acts t)
    {v : SubState} (hv : s.subscriber topic = some v)
    (hunder : Underway beyond host port ip ipPort topic v) :
    ∃ w, t.subscriber topic = some w ∧ Underway beyond host port ip ipPort topic w ∧
      w.stepsToGo ≤ v.stepsToGo - listensOf topic acts := by
  induction h generalizing v with
  | nil => exact ⟨v, hv, hunder, Nat.le_refl _⟩
  | @cons s t u a acts hstep hok _ ih =>
      obtain ⟨w, hw, hunder', hsteps⟩ := hunder.step hparser hgraph hport hstep hok hv
      obtain ⟨w', hw', hunder'', hsteps'⟩ := ih hw hunder'
      refine ⟨w', hw', hunder'', ?_⟩
      have hcount : listensOf topic (a :: acts) = listensOf topic [a] + listensOf topic acts := by
        rw [listensOf, listensOf, listensOf, ← List.countP_append]
        rfl
      omega

theorem Underway.canGoOn (hparser : ParsesDocuments beyond parseXml)
    (hgraph : ∀ remote, graph host port remote →
      AddressesStored remote ∧ PublishedAt remote topic ip ipPort)
    (hsome : ∃ remote, graph host port remote) {s : NodeState} {v : SubState}
    (hv : s.subscriber topic = some v) (hunder : Underway beyond host port ip ipPort topic v) :
    ∃ choice t, nodeStep parseXml s (.listen topic choice) = some t ∧
      LeftAlone parseXml graph topic s (.listen topic choice) t := by
  obtain ⟨remote, hremote⟩ := hsome
  obtain ⟨hstored, hpub⟩ := hgraph remote hremote
  rw [← hunder.key] at hpub
  have htold : ToldBy parseXml graph v.sub host port (addressReply ip ipPort) :=
    ⟨remote, hremote, (answeredBy_published hparser hunder.named hstored hpub).mpr rfl⟩
  obtain ⟨choice, hgo, w, hlisten⟩ := hunder.heading.listensOn
    ⟨_, htold, replyAddress_graph hparser hgraph hunder htold⟩
  refine ⟨choice, s.setSubscriber topic w, ?_, fun _ u hu => ?_⟩
  · simp only [nodeStep, hv, hlisten, Option.map_some]
  · rw [hv] at hu
    cases hu
    exact hgo

/-! ## The update -/

/-- The call of the master: `[callerid, topic, urls]`. -/
def updateCall (callerid topic : Bytes) (urls : RList) : RpcRequest :=
  ⟨some (str "publisherUpdate"), 3,
    listPutArray (listPutS (listPutS listInit callerid) topic) urls⟩

/-- `__s` can count the request with it. -/
def UpdateFits (callerid topic : Bytes) (urls : RList) : Prop :=
  (requestPattern (callDocument (str "publisherUpdate")
    (updateCall callerid topic urls).params)).length < 2147483647

instance (callerid topic : Bytes) (urls : RList) : Decidable (UpdateFits callerid topic urls) :=
  inferInstanceAs (Decidable (_ < _))

theorem extractUrl_publisherUrl (sub : Topic) {scheme host : Bytes} (path : Bytes) {p : Nat}
    (more : RList) (hscheme : scheme ≠ []) (hslash : ch '/' ∉ scheme) (hhost : HostName host)
    (hp : p < 2147483648) :
    extractUrl sub (.string (publisherUrl scheme host p path) :: more) =
      .ok { sub with uri := some host, port := Int32.ofNat p, status := .refresh } := by
  have hsize : listSize (Item.string (publisherUrl scheme host p path) :: more) ≠ 0 := by
    simp [listSize, Item.isNil]
  have hfirst : listAt (Item.string (publisherUrl scheme host p path) :: more) 0 =
      some (.string (publisherUrl scheme host p path)) := by
    rw [show (0 : Int) = ((0 : Nat) : Int) from rfl, listAt_ofNat]
    rfl
  rw [extractUrl, if_neg hsize, hfirst]
  simp only [valueS, bind, Except.bind]
  rw [listAt_split_slash p path hscheme hslash hhost]
  simp only [split_colon hhost hp]
  rfl

theorem request_update (hparser : ParsesDocuments beyond parseXml) (heap : Nat → Byte)
    (junk : Bytes) {s : NodeState} {callerid : Bytes} {urls : RList} {sub sub' : Topic}
    (hcallerid : Payload beyond callerid) (htopic : Payload beyond topic)
    (hurls : Built beyond urls)
    (hfits : UpdateFits callerid topic urls)
    (hsub : dvalue s.node.subscribers topic = some sub) (hurl : extractUrl sub urls = .ok sub') :
    nodeStep parseXml s
        (.request heap junk (postRequest (genRpcCall (updateCall callerid topic urls)))) =
      some { s with
        node := { s.node with subscribers := dput s.node.subscribers topic sub' } } := by
  have hmethod : Payload beyond (str "publisherUpdate") := payload_ascii (by decide) (by decide)
  have hhash : hash (str "publisherUpdate") hashSize = rqPublisherUpdate := by decide
  have hbuilt : Built beyond (listPutArray (listPutS (listPutS listInit callerid) topic) urls) :=
    ((Built.init.putS hcallerid).putS htopic).putArray hurls
  have hsize : listSize (listPutArray (listPutS (listPutS listInit callerid) topic) urls) = 3 :=
    rfl
  have hserver := strosAcceptRequest_call hparser heap junk hmethod 3 hbuilt
    (by rw [hsize]; decide) hfits s.node
  have hfirst : valueS (listAt (listPutArray (listPutS (listPutS listInit callerid) topic) urls)
      1) = .ok topic := rfl
  have hsecond : valueArray (listAt
      (listPutArray (listPutS (listPutS listInit callerid) topic) urls) 2) = .ok urls := rfl
  simp only [xmlRpcApiHandler, hhash, if_true, publisherUpdate, hfirst, hsecond, hsub, hurl,
    bind, Except.bind, pure, Except.pure] at hserver
  simp only [nodeStep, updateCall]
  rw [hserver]

/-- The listener of a topic with a publisher of its own, when it has read nothing of an address
yet that it still has to ask. -/
theorem underway_of_update (host ip : Bytes) (port ipPort : Int32) {v w : SubState}
    (hnamed : Named beyond v.sub) (hkey : v.sub.topic = topic) (hok : v.rosOk = true)
    (hquiet : v.pc.asking = false) (hlive : v.pc ≠ .exited)
    (hw : w = { v with
      sub := { v.sub with uri := some host, port := port, status := .refresh }
      installed := (some host, port) }) :
    Underway beyond host port ip ipPort topic w ∧ w.stepsToGo ≤ 11 := by
  subst hw
  refine ⟨⟨hkey, ⟨hnamed.callerid, hnamed.topic, hnamed.fits⟩, hok, rfl, rfl, ?_⟩, ?_⟩
  · cases hpc : v.pc with
    | connect => simp [Stage]
    | receiving => simp [Stage]
    | exited => exact absurd hpc hlive
    | argUri p => simp [hpc, ListenPc.asking] at hquiet
    | argPort uri => simp [hpc, ListenPc.asking] at hquiet
    | exchange uri p => simp [hpc, ListenPc.asking] at hquiet
    | activate uri p ip' ipPort' => simp [hpc, ListenPc.asking] at hquiet
    | _ => simp [Stage]
  · cases v.pc <;> simp [SubState.stepsToGo]

/-- An update reaches its publisher: after the call of the master, when the listener is not just
asking, it is in `tcp_ros_request` with the address that the named node gives after at most
eleven of its steps, however the node goes on otherwise, and up to then and beyond it can make
its next step. -/
theorem update_connects (hparser : ParsesDocuments beyond parseXml) (node : RosNode)
    (heap : Nat → Byte) (junk : Bytes) {s : NodeState} {v : SubState} {callerid : Bytes}
    {urls more : RList} {scheme path : Bytes} {p : Nat} (hcallerid : Payload beyond callerid)
    (hurls : Built beyond urls)
    (hfirst : urls = .string (publisherUrl scheme host p path) :: more) (hscheme : scheme ≠ [])
    (hslash : ch '/' ∉ scheme) (hhost : HostName host) (hp : p ≤ 65535)
    (hfits : UpdateFits callerid topic urls)
    (hv : s.subscriber topic = some v) (hkey : v.sub.topic = topic) (hnamed : Named beyond v.sub)
    (hok : s.rosOk = true) (hquiet : v.pc.asking = false) (hlive : v.pc ≠ .exited)
    (hgraph : ∀ remote, graph host (Int32.ofNat p) remote →
      AddressesStored remote ∧ PublishedAt remote topic ip ipPort)
    (hsome : ∃ remote, graph host (Int32.ofNat p) remote) (hport : 0 < ipPort) :
    ∃ s', nodeStep parseXml s
        (.request heap junk (postRequest (genRpcCall (updateCall callerid topic urls)))) =
        some s' ∧
      ∀ acts t, Trace (nodeSystem parseXml node) (LeftAlone parseXml graph topic) s' acts t →
        (11 ≤ listensOf topic acts → ∃ w, t.subscriber topic = some w ∧ w.pc = .receiving ∧
          w.sub.status = .active ∧ w.ip = some ip ∧ w.port = ipPort ∧
          w.asked = some (some host, Int32.ofNat p)) ∧
        ∃ choice u, nodeStep parseXml t (.listen topic choice) = some u ∧
          LeftAlone parseXml graph topic t (.listen topic choice) u := by
  obtain ⟨hrosOk, -, hsub⟩ := NodeState.subscriber_installed hv
  have hurl : extractUrl v.sub urls =
      .ok { v.sub with uri := some host, port := Int32.ofNat p, status := .refresh } := by
    rw [hfirst]
    exact extractUrl_publisherUrl v.sub path more hscheme hslash hhost (by omega)
  refine ⟨_, request_update hparser heap junk hcallerid (hkey ▸ hnamed.topic) hurls hfits hsub hurl,
    fun acts t htrace => ?_⟩
  obtain ⟨sub, l, hrecord, hl, rfl⟩ := NodeState.subscriber_eq_some.mp hv
  obtain ⟨hunder, hsteps⟩ := underway_of_update host ip (Int32.ofNat p) ipPort hnamed hkey
    (hrosOk.trans hok) hquiet hlive rfl
  obtain ⟨w, hw, hunder', hsteps'⟩ := Underway.trace hparser hgraph hport htrace
    (NodeState.subscriber_eq_some.mpr ⟨_, l, dvalue_dput_self _ _ _, hl, rfl⟩) hunder
  refine ⟨fun hcount => ?_, hunder'.canGoOn hparser hgraph hsome hw⟩
  have hle : w.stepsToGo ≤ 11 - listensOf topic acts :=
    hsteps'.trans (Nat.sub_le_sub_right hsteps _)
  exact ⟨w, hw, hunder'.heading.arrived (by omega)⟩

end Runs

def movedUrls : RList :=
  listPutS listInit (publisherUrl (str "http:") (str "10.0.0.2") 9090 [])

/-- The listener is connected when the update comes. -/
theorem update_connects_moved :
    ∃ s s', exec (nodeSystem plainParser listenerNode) ⟨true, listenerNode, fun _ => none⟩
        connectChatter = some s ∧
      nodeStep plainParser s (.request (fun _ => 0) [] (postRequest
        (genRpcCall (updateCall (str "/master") (str "/chatter") movedUrls)))) = some s' ∧
      ∀ acts t, Trace (nodeSystem plainParser listenerNode)
          (LeftAlone plainParser chatterGraph (str "/chatter")) s' acts t →
        11 ≤ listensOf (str "/chatter") acts →
        ∃ w, t.subscriber (str "/chatter") = some w ∧ w.pc = .receiving ∧
          w.asked = some (some (str "10.0.0.2"), Int32.ofNat 9090) := by
  have hparser := plainParser_parsesDocuments fun _ => True
  have hrun : ∃ s v, exec (nodeSystem plainParser listenerNode)
      ⟨true, listenerNode, fun _ => none⟩ connectChatter = some s ∧
      s.subscriber (str "/chatter") = some v ∧ v.pc = .receiving ∧ s.rosOk = true ∧
      v.sub.topic = str "/chatter" ∧ v.sub.callerid = str "/listener" :=
    ⟨_, _, rfl, rfl, rfl, rfl, rfl, rfl⟩
  obtain ⟨s, v, hexec, hv, hpc, hok, htopic, hcallerid⟩ := hrun
  have hmaster : Payload (fun _ => True) (str "/master") := payload_ascii (by decide) (by decide)
  have hurls : Built (fun _ => True) movedUrls :=
    Built.init.putS (payload_ascii (by decide) (by decide))
  have hgraph : ∀ remote, chatterGraph (str "10.0.0.2") (Int32.ofNat 9090) remote →
      AddressesStored remote ∧ PublishedAt remote (str "/chatter") (str "10.0.0.1") 11311 := by
    rintro remote rfl
    exact ⟨addressesStored_chatter, publishedAt_chatter⟩
  obtain ⟨s', hrequest, hconnects⟩ := update_connects hparser listenerNode (fun _ => 0) [] hmaster
    hurls rfl (by decide) (by decide) ⟨by decide, by decide, Or.inr (by decide)⟩ (by decide)
    (by decide +kernel) hv htopic (named_chatter htopic hcallerid) hok (by rw [hpc]; rfl)
    (by rw [hpc]; simp) hgraph ⟨chatterNode, rfl⟩ (by decide)
  refine ⟨s, s', hexec, hrequest, fun acts t htrace hcount => ?_⟩
  obtain ⟨w, hw, hrec, -, -, -, hasked⟩ := (hconnects acts t htrace).1 hcount
  exact ⟨w, hw, hrec, hasked⟩

end STRos
