import STRos.Model.Api

/-! # A node and its master

Configuration, creation of topics, registration and deregistration. The master
answers every call; what it answers, and whether threads and sockets start, is
a parameter of the functions that ask.
-/

namespace STRos

open CString

/-- `ros_node_t`; its `api` is set by the deployment. -/
structure StrosNode extends RosNode where
  id : Bytes
  masterUri : Bytes
  masterPort : Int32
  api : Bytes

/-! ## Configuration and creation -/

/-- A NULL string and a port that is not positive leave their fields alone. -/
def strosSetConfig (node : StrosNode) (name uri : Option Bytes) (port : Int32) : StrosNode :=
  { node with
    id := name.getD node.id
    masterUri := uri.getD node.masterUri
    masterPort := if 0 < port then port else node.masterPort }

/-- An entry of the configuration file, as `ini_parse` hands it over. -/
structure ConfigEntry where
  «section» : Bytes
  name : Bytes
  value : Bytes

def strosConfigHandler (node : StrosNode) (entry : ConfigEntry) : StrosNode :=
  if entry.section = str "MASTER" ∧ entry.name = str "uri" then
    { node with masterUri := entry.value }
  else if entry.section = str "MASTER" ∧ entry.name = str "port" then
    { node with masterPort := atoi entry.value }
  else if entry.section = str "NODE" ∧ entry.name = str "remap" then
    { node with id := entry.value }
  else node

/-- `DEFAULT_MASTER_URI`, `DEFAULT_MASTER_PORT` and two empty dictionaries. -/
def defaultNode (name : Bytes) : StrosNode where
  subscribers := dict
  publishers := dict
  id := name
  masterUri := str "127.0.0.1"
  masterPort := 11311
  api := []

/-- `conf` is what the file holds, nothing when there is none; `time` is the clock. -/
def strosInitNode (name : Bytes) (conf : List ConfigEntry) (time : UInt32) : StrosNode :=
  let node := conf.foldl strosConfigHandler (defaultNode name)
  { node with id := sFormat (node.id ++ str "_" ++ decimal time.toNat) }

def subscribeTo (node : StrosNode) (topic type : Bytes) : StrosNode :=
  let sub : Topic :=
    { callerid := node.id
      topic := topic
      type := type
      uri := none
      port := 0
      status := .down }
  { node with subscribers := dput node.subscribers topic sub }

def createPublisher (node : StrosNode) (topic type : Bytes) : StrosNode :=
  let pub : Topic :=
    { callerid := node.id
      topic := topic
      type := type
      uri := none
      port := 0
      status := .active }
  { node with publishers := dput node.publishers topic pub }

/-! ## Calls to the master

The number of parameters of a call that is sent is not read by `gen_rpc_call`. -/

def registerCall (node : StrosNode) (method : Bytes) (tp : Topic) : RpcRequest :=
  ⟨some method, 4,
    listPutS (listPutS (listPutS (listPutS listInit node.id) tp.topic) tp.type) node.api⟩

def unregisterCall (node : StrosNode) (methd : Bytes) (tp : Topic) : RpcRequest :=
  ⟨some methd, 3, listPutS (listPutS (listPutS listInit tp.callerid) tp.topic) node.api⟩

/-- `data->code` of a response that may be NULL. -/
def responseCode : Option RpcResponse → C Nat
  | none => .error .nullResponse
  | some data => .ok data.code

/-- `free_response`: the list is looked at, and freed unless it is NULL. -/
def freeResponse : Option RpcResponse → C Unit
  | none => .error .nullResponse
  | some data =>
      match data.data with
      | none => .error .uninitialised
      | some _ => .ok ()

/-- The call it sends; of the answer it looks at the code and keeps nothing. -/
def unregister (node : StrosNode) (methd : Bytes) (tp : Topic) (resp : Option RpcResponse) :
    C (List RpcRequest) := do
  let _ ← responseCode resp
  return [unregisterCall node methd tp]

/-- What one topic meets: the answer to its registration, whether its thread and
the socket of a publisher's thread start, and the answer to the deregistration
that follows when they do not. -/
structure Answers where
  registered : Option RpcResponse
  threadStarts : Bool
  socketStarts : Bool
  unregistered : Option RpcResponse

def startPublisher (node : StrosNode) (pub : Topic) (a : Answers) : C (List RpcRequest) :=
  if a.threadStarts ∧ a.socketStarts then .ok []
  else unregister node (str "unregisterPublisher") pub a.unregistered

/-- The body of the loop of `stros_deploy_publishers`. -/
def deployPublisher (node : StrosNode) (pub : Topic) (a : Answers) : C (List RpcRequest) := do
  let code ← responseCode a.registered
  let calls ← (if code = respFault then .ok [] else startPublisher node pub a)
  freeResponse a.registered
  return registerCall node (str "registerPublisher") pub :: calls

/-- `answers` is asked for every association that is visited, by its key. -/
def deployPublishers (node : StrosNode) (answers : Bytes → Answers) :
    List (Bytes × Topic) → C (List RpcRequest)
  | [] => .ok []
  | assoc :: rest => do
      let calls ← deployPublisher node assoc.2 (answers assoc.1)
      let more ← deployPublishers node answers rest
      return calls ++ more

def strosDeployPublishers (node : StrosNode) (answers : Bytes → Answers) : C (List RpcRequest) :=
  deployPublishers node answers (forEachAssoc node.publishers)

/-- `data->data->value.array` -/
def responseArray : Option RpcResponse → C RList
  | none => .error .nullResponse
  | some resp =>
      match resp.data with
      | none => .error .uninitialised
      | some data => valueArray data.head?

/-- `extract_url` on the reply, and `pthread_create`. -/
def startSubscriber (node : StrosNode) (sub : Topic) (a : Answers) :
    C (List RpcRequest × Topic) := do
  let arr ← responseArray a.registered
  let l ← valueArray (listAt arr 2)
  let sub ← extractUrl sub l
  let calls ←
    (if a.threadStarts then .ok []
    else unregister node (str "unregisterSubscriber") sub a.unregistered)
  return (calls, sub)

/-- The body of the loop of `stros_deploy_subscribers`: the calls and the
subscriber afterwards. -/
def deploySubscriber (node : StrosNode) (sub : Topic) (a : Answers) :
    C (List RpcRequest × Topic) := do
  let code ← responseCode a.registered
  let (calls, sub') ← (if code = respFault then .ok ([], sub) else startSubscriber node sub a)
  freeResponse a.registered
  return (registerCall node (str "registerSubscriber") sub :: calls, sub')

/-- The dictionary is updated through the pointers it holds. -/
def deploySubscribers (node : StrosNode) (answers : Bytes → Answers) :
    List (Bytes × Topic) → Dictionary Topic → C (List RpcRequest × Dictionary Topic)
  | [], subscribers => .ok ([], subscribers)
  | assoc :: rest, subscribers => do
      let (calls, sub) ← deploySubscriber node assoc.2 (answers assoc.1)
      let (more, subscribers) ←
        deploySubscribers node answers rest (dput subscribers assoc.1 sub)
      return (calls ++ more, subscribers)

def strosDeploySubscribers (node : StrosNode) (answers : Bytes → Answers) :
    C (List RpcRequest × Dictionary Topic) :=
  deploySubscribers node answers (forEachAssoc node.subscribers) node.subscribers

/-- `http://%s:%d` -/
def nodeApi (ip : Bytes) (port : UInt16) : Bytes :=
  sFormat (str "http://" ++ ip ++ str ":" ++ decimal port.toNat)

/-- The calls of `stros_node_deploy`, once its server has got a port, and the node
it leaves. -/
def strosNodeDeploy (node : StrosNode) (ip : Bytes) (port : UInt16)
    (subscribed published : Bytes → Answers) : C (List RpcRequest × StrosNode) := do
  let node := { node with api := nodeApi ip port }
  let (calls, subscribers) ← strosDeploySubscribers node subscribed
  let more ← strosDeployPublishers node published
  return (calls ++ more, { node with subscribers := subscribers })

def unregisterAll (node : StrosNode) (methd : Bytes) (answers : Bytes → Option RpcResponse) :
    List (Bytes × Topic) → C (List RpcRequest)
  | [] => .ok []
  | assoc :: rest => do
      let calls ← unregister node methd assoc.2 (answers assoc.1)
      let more ← unregisterAll node methd answers rest
      return calls ++ more

/-- The calls of `stros_stop`: first the publishers, then the subscribers. -/
def strosStop (node : StrosNode) (published subscribed : Bytes → Option RpcResponse) :
    C (List RpcRequest) := do
  let calls ←
    unregisterAll node (str "unregisterPublisher") published (forEachAssoc node.publishers)
  let more ←
    unregisterAll node (str "unregisterSubscriber") subscribed (forEachAssoc node.subscribers)
  return calls ++ more

end STRos
