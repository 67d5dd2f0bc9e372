import STRos.Lib.Transition
import STRos.Model.Topic

/-! # publish and the threads of publish_tcp_data

One publisher with any number of connections, each served by a thread. A block
under `node_mux` is one step, and so is every single read of `data_ok`, `data`,
`status` or `ros_ok`. The accept loop gives a number to every connection.
-/

namespace STRos

open CString Transition

/-- What `pub->data` points to: its text, unless the pointer is NULL, and the
call of `publish` that put it there. -/
structure Datum where
  call : Option Nat
  text : Option Bytes
  deriving DecidableEq, Repr

/-- The value `create_publisher` sets. -/
def placeholder : Datum := ⟨none, some (str "Hello from stros, here")⟩

inductive PubPc
  /-- Up to the answer to the subscriber's header. -/
  | handshake
  /-- The three reads of the wait loop. -/
  | waitOk
  | waitStatus
  | waitRos
  | reset
  /-- The two reads of `tp->data`, by `tcp_send_data` and `tcp_send_string`. -/
  | nullCheck
  | read
  | send (d : Datum)
  /-- The condition of the outer loop; `io` is false for -1. -/
  | loopRos (io : Bool)
  | loopStatus (io : Bool)
  | exited
  deriving DecidableEq, Repr

/-- A connection: its thread, the number of calls of `publish` before it was
established, and what was transmitted on it. -/
structure Conn where
  pc : PubPc
  since : Nat
  sent : List Datum
  deriving DecidableEq, Repr

structure PubState where
  rosOk : Bool
  pub : Topic
  dataOk : Bool
  data : Datum
  /-- The calls of `publish` so far. -/
  history : List Datum
  conn : Nat → Conn

inductive PubAct
  | publish (msg : Option Bytes)
  /-- `stros_toggle (false)` -/
  | stop
  /-- The next step of a thread; `ok` says whether its socket calls succeed. -/
  | thread (c : Nat) (ok : Bool)
  deriving DecidableEq, Repr

def publish (s : PubState) (msg : Option Bytes) : PubState :=
  let d : Datum := ⟨some s.history.length, msg⟩
  { s with dataOk := true, data := d, history := s.history ++ [d] }

/-- One step of `publish_tcp_data`. There is none after the thread has returned,
and none for `strlen (NULL)`. -/
def publishTcpData (s : PubState) (c : Conn) (ok : Bool) : Option Conn :=
  match c.pc with
  | .handshake =>
      if ok then some { c with pc := .waitOk, since := s.history.length }
      else some { c with pc := .exited }
  | .waitOk => some { c with pc := if s.dataOk then .reset else .waitStatus }
  | .waitStatus => some { c with pc := if s.pub.status = .down then .reset else .waitRos }
  | .waitRos => some { c with pc := if s.rosOk then .waitOk else .reset }
  | .reset => some { c with pc := .nullCheck }
  | .nullCheck =>
      -- `tcp_send_data` returns -1 for a NULL pointer and for any other type.
      if s.data.text = none ∨ hash s.pub.type hashSize ≠ typeString then
        some { c with pc := .loopRos false }
      else some { c with pc := .read }
  | .read => if s.data.text = none then none else some { c with pc := .send s.data }
  | .send d =>
      if ok then some { c with pc := .loopRos true, sent := c.sent ++ [d] }
      else some { c with pc := .loopRos false }
  | .loopRos io => some { c with pc := if s.rosOk then .loopStatus io else .exited }
  | .loopStatus io =>
      some { c with pc := if s.pub.status ≠ .down ∧ io = true then .waitOk else .exited }
  | .exited => none

/-- The flag is set by `publish` and cleared by the step of a thread at `reset`. -/
def pubStep (s : PubState) : PubAct → Option PubState
  | .publish msg => some (publish s msg)
  | .stop => some { s with rosOk := false }
  | .thread i ok =>
      match publishTcpData s (s.conn i) ok with
      | none => none
      | some c => some
          { s with
            dataOk := if (s.conn i).pc = .reset then false else s.dataOk
            conn := Function.update s.conn i c }

/-- The node runs, and `create_publisher` has returned. -/
def PubInit (s : PubState) : Prop :=
  s.rosOk = true ∧ s.pub.status = .active ∧ s.dataOk = false ∧ s.data = placeholder ∧
    s.history = [] ∧ ∀ i, s.conn i = ⟨.handshake, 0, []⟩

def pubSystem : System PubState PubAct := ⟨PubInit, pubStep⟩

/-- The connection is past the handshake and its thread has not returned. -/
def PubPc.live : PubPc → Bool
  | .handshake => false
  | .exited => false
  | _ => true

/-- The thread is in `while (data_ok == TOPIC_DATA_NOK && status && stros_ok ())`. -/
def PubPc.waiting : PubPc → Bool
  | .waitOk => true
  | .waitStatus => true
  | .waitRos => true
  | _ => false

/-! ## What one step does -/

/-- Everything a step can do, by its label. -/
theorem pubStep_cases {s t : PubState} {a : PubAct} (h : pubStep s a = some t) :
    (∃ msg, a = .publish msg ∧ t = publish s msg) ∨
      (a = .stop ∧ t = { s with rosOk := false }) ∨
      ∃ i ok c, a = .thread i ok ∧ publishTcpData s (s.conn i) ok = some c ∧
        t = { s with
              dataOk := if (s.conn i).pc = .reset then false else s.dataOk
              conn := Function.update s.conn i c } := by
  cases a with
  | publish msg => exact Or.inl ⟨msg, rfl, (Option.some.inj h).symm⟩
  | stop => exact Or.inr (Or.inl ⟨rfl, (Option.some.inj h).symm⟩)
  | thread i ok =>
      refine Or.inr (Or.inr ⟨i, ok, ?_⟩)
      simp only [pubStep] at h
      cases hc : publishTcpData s (s.conn i) ok with
      | none => simp [hc] at h
      | some c =>
          simp only [hc, Option.some.injEq] at h
          exact ⟨c, rfl, rfl, h.symm⟩

theorem publishTcpData_since {s : PubState} {c c' : Conn} {ok : Bool}
    (h : publishTcpData s c ok = some c') (hpc : c.pc ≠ .handshake) : c'.since = c.since := by
  unfold publishTcpData at h
  split at h
  · exact absurd ‹_› hpc
  all_goals
    try split at h
    all_goals
      cases h
      try rfl

/-- Behind the flag reset comes the first look at the data. -/
theorem publishTcpData_reset {s : PubState} {c c' : Conn} {ok : Bool}
    (h : publishTcpData s c ok = some c') (hpc : c.pc = .reset) : c'.pc.live = true := by
  simp only [publishTcpData, hpc] at h
  cases h
  rfl

end STRos
