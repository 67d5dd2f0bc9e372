import STRos.Lib.Transition
import STRos.Model.Api

/-! # subscriber_listener and publisherUpdate

One subscriber with its listener thread and any number of updates. The block of
`extract_url` under `node_mux` is one step, and so are the listener's own block,
every single read of a field of `sub` or of `ros_ok`, and an exchange.
-/

namespace STRos

open CString Transition

inductive ListenPc
  /-- The two reads of the loop condition. -/
  | headRos
  | headStatus
  | checkUri
  | checkRefresh
  /-- The arguments of `send_post_request`; C leaves their order open. -/
  | args
  | argUri (port : Int32)
  | argPort (uri : Option Bytes)
  | exchange (uri : Option Bytes) (port : Int32)
  /-- The block that sets `TOPIC_ACTIVE`, after an exchange with the first pair
  that gave the second one. -/
  | activate (uri : Option Bytes) (port : Int32) (ip : Bytes) (ipPort : Int32)
  | connect
  /-- In `tcp_ros_request`. -/
  | receiving
  | exited
  deriving DecidableEq, Repr

structure SubState where
  rosOk : Bool
  sub : Topic
  pc : ListenPc
  ip : Option Bytes
  port : Int32
  /-- The pair `extract_url` installed last. -/
  installed : Option Bytes × Int32
  /-- The pair the exchange that gave `ip` and `port` was sent to. -/
  asked : Option (Option Bytes × Int32)

/-- What the code of the listener does not decide. -/
inductive Choice
  | go
  /-- The port is read before the uri. -/
  | portFirst
  | reply (resp : Option RpcResponse)
  /-- `tcp_ros_request` returns. -/
  | leave

inductive SubAct
  /-- `extract_url (sub, l)`, called by `publisherUpdate` -/
  | update (l : RList)
  /-- `stros_toggle (false)` -/
  | stop
  | listen (choice : Choice)

/-- One step of `subscriber_listener`. There is none after it has returned, and
none when a pointer it uses is NULL or a member is not there. -/
def subscriberListener (s : SubState) (choice : Choice) : Option SubState :=
  match s.pc, choice with
  | .headRos, .go => some { s with pc := if s.rosOk then .headStatus else .exited }
  | .headStatus, .go =>
      some { s with pc := if s.sub.status ≠ .down then .checkUri else .exited }
  | .checkUri, .go => some { s with pc := if s.sub.uri.isSome then .checkRefresh else .headRos }
  | .checkRefresh, .go =>
      some { s with pc := if s.sub.status = .refresh then .args else .connect }
  | .args, .go => some { s with pc := .argPort s.sub.uri }
  | .args, .portFirst => some { s with pc := .argUri s.sub.port }
  | .argUri port, .go => some { s with pc := .exchange s.sub.uri port }
  | .argPort uri, .go => some { s with pc := .exchange uri s.sub.port }
  | .exchange (some uri) port, .reply resp =>
      match replyAddress resp with
      | .error _ => none
      | .ok none => some { s with pc := .connect }
      | .ok (some (ip, ipPort)) => some { s with pc := .activate (some uri) port ip ipPort }
  | .activate uri port ip ipPort, .go =>
      some
        { s with
          sub := { s.sub with status := .active }
          pc := .connect
          ip := some ip
          port := ipPort
          asked := some (uri, port) }
  | .connect, .go =>
      some { s with pc := if s.ip.isSome ∧ 0 < s.port then .receiving else .headRos }
  | .receiving, .go => some s
  | .receiving, .leave => some { s with pc := .headRos }
  | _, _ => none

def subStep (s : SubState) : SubAct → Option SubState
  | .update l =>
      match extractUrl s.sub l with
      | .error _ => none
      | .ok sub => some { s with sub := sub, installed := (sub.uri, sub.port) }
  | .stop => some { s with rosOk := false }
  | .listen choice => subscriberListener s choice

/-- `stros_deploy_subscribers` has installed a pair and starts the listener. -/
def SubInit (s : SubState) : Prop :=
  s.sub.status = .refresh ∧ s.pc = .headRos ∧ s.ip = none ∧ s.port = 0 ∧
    s.installed = (s.sub.uri, s.sub.port) ∧ s.asked = none

def subSystem : System SubState SubAct := ⟨SubInit, subStep⟩

def ListenPc.atHead : ListenPc → Bool
  | .headRos => true
  | .headStatus => true
  | _ => false

/-! ## What one step does -/

theorem extractUrl_status {sub sub' : Topic} {l : RList} (h : extractUrl sub l = .ok sub') :
    sub'.status = .refresh := by
  obtain ⟨uri, port, rfl⟩ := extractUrl_fields h
  rfl

/-- The listener leaves the fields of the subscriber alone, but in its own block. -/
theorem subscriberListener_cases {s t : SubState} {choice : Choice}
    (h : subscriberListener s choice = some t) :
    (t.sub = s.sub ∧ t.installed = s.installed ∧ t.asked = s.asked) ∨
      ∃ uri port ip ipPort, s.pc = .activate uri port ip ipPort ∧
        t = { s with
              sub := { s.sub with status := .active }
              pc := .connect
              ip := some ip
              port := ipPort
              asked := some (uri, port) } := by
  unfold subscriberListener at h
  split at h
  case h_9 =>
    split at h
    · cases h
    all_goals
      cases h
      exact Or.inl ⟨rfl, rfl, rfl⟩
  case h_10 hpc =>
    cases h
    exact Or.inr ⟨_, _, _, _, hpc, rfl⟩
  all_goals
    cases h
    try exact Or.inl ⟨rfl, rfl, rfl⟩

theorem subStep_cases {s t : SubState} {a : SubAct} (h : subStep s a = some t) :
    (∃ l sub, a = .update l ∧ extractUrl s.sub l = .ok sub ∧
        t = { s with sub := sub, installed := (sub.uri, sub.port) }) ∨
      (a = .stop ∧ t = { s with rosOk := false }) ∨
      ∃ choice, a = .listen choice ∧ subscriberListener s choice = some t := by
  cases a with
  | update l =>
      simp only [subStep] at h
      cases hsub : extractUrl s.sub l with
      | error e => simp [hsub] at h
      | ok sub =>
          simp only [hsub, Option.some.injEq] at h
          exact Or.inl ⟨l, sub, rfl, hsub, h.symm⟩
  | stop => exact Or.inr (Or.inl ⟨rfl, (Option.some.inj h).symm⟩)
  | listen choice => exact Or.inr (Or.inr ⟨choice, rfl, h⟩)

end STRos
