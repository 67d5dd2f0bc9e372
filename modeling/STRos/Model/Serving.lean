import STRos.Lib.Transition
import STRos.Model.Deploy

/-! # Deployment while calls come in

The main thread in `stros_node_deploy`, the server, a listener thread for each
publisher that was registered, and a thread for each call of `requestTopic`. Every
read and every store of a field of a publisher is one step. Others that take
`node_mux` only delay a listener, and any delay is among the orders of the steps.
-/

namespace STRos

open CString Transition

inductive PublisherPc
  /-- Its thread was not created. -/
  | absent
  | startup
  /-- `socket_startup` has bound a socket to the port. -/
  | bound (port : Int32)
  /-- The block under `node_mux`, before and behind its two stores. -/
  | locked (port : Int32)
  | uriStored (uri : Bytes) (port : Int32)
  | portStored (uri : Bytes) (port : Int32)
  /-- The loop around `select`. -/
  | serving (uri : Bytes) (port : Int32)
  /-- There was no socket. -/
  | returned

def PublisherPc.uri : PublisherPc → Option Bytes
  | .uriStored uri _ => some uri
  | .portStored uri _ => some uri
  | .serving uri _ => some uri
  | _ => none

/-- The port it has stored, behind the uri. -/
def PublisherPc.port : PublisherPc → Option Int32
  | .portStored _ port => some port
  | .serving _ port => some port
  | _ => none

def PublisherPc.socket : PublisherPc → Option Int32
  | .bound port => some port
  | .locked port => some port
  | .uriStored _ port => some port
  | .portStored _ port => some port
  | .serving _ port => some port
  | _ => none

/-- Where a call of `requestTopic` stands, with what it has read so far. -/
inductive RequestPc
  | start (params : RList) (n : Nat)
  /-- The two cells of `l2`. -/
  | cellUri (topic : Bytes)
  | cellPort (topic uri : Bytes)
  /-- The arguments of `__s`; C leaves their order open. -/
  | text (topic uri : Bytes) (port : Int32)
  | textPort (topic uri : Bytes) (port : Int32) (uri' : Option Bytes)
  | textUri (topic uri : Bytes) (port port' : Int32)
  | send (topic uri : Bytes) (port : Int32) (uri' : Option Bytes) (port' : Int32)
  | replied (topic : Bytes) (reply : RList)
  /-- It got `rpc_bad_request`. -/
  | refused

/-- A call, and whether the listener had not stored its address yet when the call
found the publisher. Nothing reads `early`. -/
structure Request where
  pc : RequestPc
  early : Bool

inductive ServerPc
  | absent
  | startup
  | running
  deriving DecidableEq

inductive DeployPc
  | createServer
  | waitPort
  | subscribers
  /-- The loop of `stros_deploy_publishers` in front of the next association. -/
  | publishers (rest : List (Bytes × Topic))
  /-- In front of the `pthread_create` of a listener. -/
  | starting (topic : Bytes) (rest : List (Bytes × Topic))
  | deployed
  | stopped

structure ServingState where
  publishers : Dictionary Topic
  /-- By the topic of the publisher. -/
  listeners : Bytes → PublisherPc
  deploy : DeployPc
  server : ServerPc
  /-- A listener holds `node_mux`. -/
  locked : Bool
  requests : List Request
  /-- A call gave the NULL of an unset uri to `strdup`. -/
  crashed : Bool

/-- What the code of the main thread and of the listeners does not decide. -/
inductive ServingChoice
  | go
  /-- Whether `pthread_create` succeeds. -/
  | thread (starts : Bool)
  /-- The answer to `registerPublisher`. -/
  | answer (resp : Option RpcResponse)
  /-- The port of `socket_startup`, unless it fails. -/
  | socket (port : Option UInt16)
  /-- The result of `get_ip_address`. -/
  | address (uri : Bytes)

inductive ServingAct
  | deploy (choice : ServingChoice)
  | server
  | listen (topic : Bytes) (choice : ServingChoice)
  /-- The server accepts a call of `requestTopic`. -/
  | call (params : RList) (n : Nat)
  | handle (i : Nat) (portFirst : Bool)

def ServingState.setListener (s : ServingState) (topic : Bytes) (pc : PublisherPc) : ServingState :=
  { s with listeners := Function.update s.listeners topic pc }

def ServingState.pubUri (s : ServingState) (topic : Bytes) : Option Bytes :=
  (dvalue s.publishers topic).bind (·.uri)

def ServingState.pubPort (s : ServingState) (topic : Bytes) : Int32 :=
  ((dvalue s.publishers topic).map (·.port)).getD 0

/-! ## The threads -/

/-- `stros_node_deploy`. The loop visits the associations there are when it begins;
a NULL answer of the master ends the process. -/
def nodeDeploy (s : ServingState) (choice : ServingChoice) : Option ServingState :=
  match s.deploy, choice with
  | .createServer, .thread true => some { s with deploy := .waitPort, server := .startup }
  | .createServer, .thread false => some { s with deploy := .stopped }
  | .waitPort, .go => if s.server = .running then some { s with deploy := .subscribers } else none
  | .subscribers, .go => some { s with deploy := .publishers (forEachAssoc s.publishers) }
  | .publishers [], .go => some { s with deploy := .deployed }
  | .publishers (assoc :: rest), .answer resp =>
      match responseCode resp with
      | .error _ => none
      | .ok code =>
          let next := if code = respFault then .publishers rest else .starting assoc.1 rest
          some { s with deploy := next }
  | .starting topic rest, .thread true =>
      some { s.setListener topic .startup with deploy := .publishers rest }
  | .starting _ rest, .thread false => some { s with deploy := .publishers rest }
  | _, _ => none

/-- The startup of `publisher_listener`; the port of its socket has to be set. -/
def publisherListener (s : ServingState) (topic : Bytes) (choice : ServingChoice) :
    Option ServingState :=
  match s.listeners topic, choice with
  | .startup, .socket none => some (s.setListener topic .returned)
  | .startup, .socket (some port) =>
      some (s.setListener topic (if port = 0 then .returned else .bound (Int32.ofNat port.toNat)))
  | .bound port, .go =>
      if s.locked then none else some { s.setListener topic (.locked port) with locked := true }
  | .locked port, .address uri =>
      match dvalue s.publishers topic with
      | none => none
      | some pub =>
          some
            { s.setListener topic (.uriStored uri port) with
              publishers := dput s.publishers topic { pub with uri := some uri } }
  | .uriStored uri port, .go =>
      match dvalue s.publishers topic with
      | none => none
      | some pub =>
          some
            { s.setListener topic (.portStored uri port) with
              publishers := dput s.publishers topic { pub with port := port } }
  | .portStored uri port, .go =>
      some { s.setListener topic (.serving uri port) with locked := false }
  | _, _ => none

/-- The checks of `requestTopic`: the topic of the publisher it finds. -/
def publisherAsked (publishers : Dictionary Topic) (params : RList) (n : Nat) : C (Option Bytes) :=
  if n ≠ 3 then .ok none
  else do
    let topic ← valueS (listAt params 1)
    return if (dvalue publishers topic).isSome then some topic else none

/-- The values of a reply whose fields were read one after the other. -/
def replyOf (uri : Bytes) (port : Int32) (uri' : Option Bytes) (port' : Int32) : RList :=
  let l2 := listPutI (listPutS (listPutS listInit (str "TCPROS")) uri) port
  let ready := sFormat
    (str "ready on " ++ uri'.getD (str "(null)") ++ str ":" ++ decimal port'.toInt)
  listPutArray listInit (listPutArray (listPutS (listPutI listInit 1) ready) l2)

/-- One step of `requestTopic`: where the call stands afterwards, and nothing when
it gives NULL to `strdup`. There is no step when a parameter is not there. -/
def requestStep (s : ServingState) (pc : RequestPc) (portFirst : Bool) : Option (C RequestPc) :=
  match pc with
  | .start params n =>
      match publisherAsked s.publishers params n with
      | .error _ => none
      | .ok none => some (.ok .refused)
      | .ok (some topic) => some (.ok (.cellUri topic))
  | .cellUri topic => some ((strdup (s.pubUri topic)).map (.cellPort topic))
  | .cellPort topic uri => some (.ok (.text topic uri (s.pubPort topic)))
  | .text topic uri port =>
      some (.ok
        (if portFirst then .textUri topic uri port (s.pubPort topic)
        else .textPort topic uri port (s.pubUri topic)))
  | .textPort topic uri port uri' => some (.ok (.send topic uri port uri' (s.pubPort topic)))
  | .textUri topic uri port port' => some (.ok (.send topic uri port (s.pubUri topic) port'))
  | .send topic uri port uri' port' => some (.ok (.replied topic (replyOf uri port uri' port')))
  | .replied _ _ => none
  | .refused => none

/-- The step of a call finds a publisher whose listener has not stored its address. -/
def ServingState.findsUnset (s : ServingState) (pc : RequestPc) : Bool :=
  match pc with
  | .start params n =>
      match publisherAsked s.publishers params n with
      | .ok (some topic) => (s.listeners topic).port.isNone
      | _ => false
  | _ => false

def handleRequest (s : ServingState) (i : Nat) (portFirst : Bool) : Option ServingState :=
  match s.requests[i]? with
  | none => none
  | some r =>
      match requestStep s r.pc portFirst with
      | none => none
      | some (.error _) => some { s with crashed := true }
      | some (.ok pc) =>
          some { s with requests := s.requests.set i ⟨pc, r.early || s.findsUnset r.pc⟩ }

/-! ## The system -/

/-- The process ends when its server gets no socket, so that is no step. -/
def servingStep (s : ServingState) (a : ServingAct) : Option ServingState :=
  if s.crashed then none
  else
    match a with
    | .deploy choice => nodeDeploy s choice
    | .server => if s.server = .startup then some { s with server := .running } else none
    | .listen topic choice => publisherListener s topic choice
    | .call params n =>
        if s.server = .running then
          some { s with requests := s.requests ++ [⟨.start params n, false⟩] }
        else none
    | .handle i portFirst => handleRequest s i portFirst

/-- The publishers of the calls of `create_publisher`, each with topic and type. -/
def createPublishers (node : StrosNode) (topics : List (Bytes × Bytes)) : StrosNode :=
  topics.foldl (fun node t => createPublisher node t.1 t.2) node

/-- `stros_node_deploy` is called for a node whose publishers were created. -/
def ServingInit (s : ServingState) : Prop :=
  ∃ node topics, node.publishers = dict ∧
    s =
      { publishers := (createPublishers node topics).publishers
        listeners := fun _ => .absent
        deploy := .createServer
        server := .absent
        locked := false
        requests := []
        crashed := false }

def servingSystem : System ServingState ServingAct := ⟨ServingInit, servingStep⟩

end STRos
