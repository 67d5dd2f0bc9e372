import STRos.Model.Publish

/-! # node_mux, statement by statement

`publish`, the flag reset of `publish_tcp_data` and `stros_toggle` take the
mutex, write and give it back. A signal makes `stros_stop` run on the thread it
is delivered to, wherever that thread is; the mutex is not recursive.
-/

namespace STRos

open CString Transition

/-- The threads that ever take `node_mux` here: those that call `publish`, and those of
`publish_tcp_data`. -/
inductive Thread
  | caller (k : Nat)
  | conn (i : Nat)
  deriving DecidableEq, Repr

inductive CallPc
  /-- Not in a call. -/
  | idle
  | lock (msg : Option Bytes)
  | storeFlag (msg : Option Bytes)
  | storeData (msg : Option Bytes)
  | unlock
  deriving DecidableEq, Repr

/-- `.run .reset` is in front of the lock; the two others are behind it. -/
inductive MuxPc
  | run (pc : PubPc)
  | clearFlag
  | unlock
  deriving DecidableEq, Repr

structure MuxConn where
  pc : MuxPc
  since : Nat
  sent : List Datum
  deriving DecidableEq, Repr

/-- The statement of `stros_toggle (false)` that comes next, when the thread runs the signal
handler. What the handler does before it takes no lock; after it the thread ends. -/
inductive HandlerPc
  | none
  | lock
  | store
  | unlock
  | exited
  deriving DecidableEq, Repr

structure MuxState where
  mux : Option Thread
  rosOk : Bool
  pub : Topic
  dataOk : Bool
  data : Datum
  /-- The calls of `publish` that stored their data so far. -/
  history : List Datum
  caller : Nat → CallPc
  conn : Nat → MuxConn
  handler : Thread → HandlerPc

inductive MuxAct
  /-- A thread that is in no call calls `publish`. -/
  | call (k : Nat) (msg : Option Bytes)
  /-- The signal is delivered to a thread. -/
  | interrupt (w : Thread)
  /-- The next statement of a thread; `ok` says whether its socket calls succeed. -/
  | step (w : Thread) (ok : Bool)
  deriving DecidableEq, Repr

/-- What the threads read and write without the mutex. -/
def MuxState.shared (s : MuxState) : PubState where
  rosOk := s.rosOk
  pub := s.pub
  dataOk := s.dataOk
  data := s.data
  history := s.history
  conn := fun _ => ⟨.handshake, 0, []⟩

def MuxState.setCaller (s : MuxState) (k : Nat) (pc : CallPc) : MuxState :=
  { s with caller := Function.update s.caller k pc }

def MuxState.setConn (s : MuxState) (i : Nat) (c : MuxConn) : MuxState :=
  { s with conn := Function.update s.conn i c }

def MuxState.setHandler (s : MuxState) (w : Thread) (pc : HandlerPc) : MuxState :=
  { s with handler := Function.update s.handler w pc }

/-- `pthread_mutex_lock` returns when nobody has the mutex. -/
def MuxState.lock (s : MuxState) (w : Thread) : Option MuxState :=
  if s.mux = none then some { s with mux := some w } else none

/-- `publish` -/
def callerStep (s : MuxState) (k : Nat) : Option MuxState :=
  match s.caller k with
  | .idle => none
  | .lock msg => (s.lock (.caller k)).map fun s => s.setCaller k (.storeFlag msg)
  | .storeFlag msg => some ({ s with dataOk := true }.setCaller k (.storeData msg))
  | .storeData msg =>
      let d : Datum := ⟨some s.history.length, msg⟩
      some ({ s with data := d, history := s.history ++ [d] }.setCaller k .unlock)
  | .unlock => some ({ s with mux := none }.setCaller k .idle)

/-- `publish_tcp_data` -/
def connStep (s : MuxState) (i : Nat) (ok : Bool) : Option MuxState :=
  match (s.conn i).pc with
  | .run .reset => (s.lock (.conn i)).map fun t => t.setConn i { s.conn i with pc := .clearFlag }
  | .clearFlag => some ({ s with dataOk := false }.setConn i { s.conn i with pc := .unlock })
  | .unlock => some ({ s with mux := none }.setConn i { s.conn i with pc := .run .nullCheck })
  | .run pc =>
      (publishTcpData s.shared ⟨pc, (s.conn i).since, (s.conn i).sent⟩ ok).map fun c =>
        s.setConn i ⟨.run c.pc, c.since, c.sent⟩

/-- `stros_stop` from its call of `stros_toggle` on, while the thread is in it. -/
def handlerStep (s : MuxState) (w : Thread) : Option MuxState :=
  match s.handler w with
  | .none => none
  | .lock => (s.lock w).map fun s => s.setHandler w .store
  | .store => some ({ s with rosOk := false }.setHandler w .unlock)
  | .unlock => some ({ s with mux := none }.setHandler w .exited)
  | .exited => none

def muxStep (s : MuxState) : MuxAct → Option MuxState
  | .call k msg =>
      if s.caller k = .idle ∧ s.handler (.caller k) = .none then
        some (s.setCaller k (.lock msg))
      else none
  | .interrupt w => if s.handler w = .none then some (s.setHandler w .lock) else none
  | .step w ok =>
      if s.handler w = .none then
        match w with
        | .caller k => callerStep s k
        | .conn i => connStep s i ok
      else handlerStep s w

def MuxInit (s : MuxState) : Prop :=
  s.mux = none ∧ s.rosOk = true ∧ s.pub.status = .active ∧ s.dataOk = false ∧
    s.data = placeholder ∧ s.history = [] ∧ (∀ k, s.caller k = .idle) ∧
    (∀ i, s.conn i = ⟨.run .handshake, 0, []⟩) ∧ ∀ w, s.handler w = .none

def muxSystem : System MuxState MuxAct := ⟨MuxInit, muxStep⟩

/-- A node that publishes text on one topic. -/
def muxStart : MuxState where
  mux := none
  rosOk := true
  pub :=
    { callerid := str "talker"
      topic := str "chatter"
      type := str "std_msgs/String"
      uri := none
      port := 0
      status := .active }
  dataOk := false
  data := placeholder
  history := []
  caller := fun _ => .idle
  conn := fun _ => ⟨.run .handshake, 0, []⟩
  handler := fun _ => .none

theorem muxStart_init : MuxInit muxStart :=
  ⟨rfl, rfl, rfl, rfl, rfl, rfl, fun _ => rfl, fun _ => rfl, fun _ => rfl⟩

end STRos
