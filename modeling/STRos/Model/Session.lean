import STRos.Lib.Transition
import STRos.Model.Connection

/-! # A subscriber and a publisher at the two ends of a connection

`tcp_ros_request` runs in one node and `publish_tcp_data` in the other, each one
call on its socket after the other; between them are the bytes under way in each
direction. What a call did is a part of the step, so that every way a network can
cut the streams, fail or delay is a run.
-/

namespace STRos

open CString Transition

/-- The next call of `tcp_ros_request` on its socket, which is connected. -/
inductive TcpRequestPc
  /-- In front of `gen_tcp_header_for`. -/
  | start
  | sendHeader
  | headerSize
  | header
  | frameSize (dtype : Nat)
  | frame (dtype : Nat)
  /-- The condition of the loop; `more` is `bytes_read > 0`. -/
  | condition (dtype : Nat) (more : Bool)
  | closed
  | fault
  deriving DecidableEq, Repr

/-- The next call of `publish_tcp_data`. The three sends are those of `tcp_send_string`. -/
inductive TcpPublishPc
  | headerSize
  | header
  | sendHeader
  /-- Waiting for data. -/
  | ready
  | frameLength (data : Bytes)
  | textLength (data : Bytes)
  | text (data : Bytes)
  | condition
  | gone
  | fault
  deriving DecidableEq, Repr

/-- `size` and `buf` of either function, what is under way in either direction, what the
handler was given, and what `tcp_send_string` was called with. -/
structure SessionState where
  sub : TcpRequestPc
  subSize : Bytes
  subBuf : Bytes
  pub : TcpPublishPc
  pubSize : Bytes
  pubBuf : Bytes
  toPub : Bytes
  toSub : Bytes
  handed : List Bytes
  offered : List Bytes
  deriving DecidableEq, Repr

inductive SessionAct
  /-- The next call of either end; its result, `none` for -1. -/
  | request (result : Option Nat)
  | publish (result : Option Nat)
  /-- What the subscriber finds in `status` and `ros_ok` behind a message. -/
  | subGoesOn (goesOn : Bool)
  /-- The publisher stops waiting with this in `data`. -/
  | offer (data : Option Bytes)
  /-- What the publisher finds in `status` and `ros_ok` behind a message. -/
  | pubGoesOn (goesOn : Bool)
  deriving DecidableEq, Repr

/-- `send` takes some of the bytes it is given. -/
def sendTo (chan data : Bytes) : Option Nat → Option Bytes
  | none => some chan
  | some k => if k ≤ data.length ∧ (k = 0 → data = []) then some (chan ++ data.take k) else none

/-- `recv` gives some of the bytes that are there; none only at the end of the stream, or when
none are asked for. -/
def recvFrom (chan : Bytes) (ended : Bool) (asked : Nat) :
    Option Nat → Option (Option Bytes × Bytes)
  | none => some (none, chan)
  | some k =>
      if k ≤ asked ∧ k ≤ chan.length ∧ (k = 0 → asked = 0 ∨ chan = [] ∧ ended = true) then
        some (some (chan.take k), chan.drop k)
      else none

/-- An `int` as the length of a `recv`, which is unsigned. -/
def sizeT (n : Int) : Nat := if n < 0 then (n + 18446744073709551616).toNat else n.toNat

def sizeVar (word : Bytes) : Int := sint32 (readLe32 word)

variable (spare spare' : Nat → Bool) (sub pub : Topic)

/-- The subscriber closes its socket on all its ways out, the publisher on none. -/
def SessionState.subEnded (s : SessionState) : Bool := decide (s.sub = .closed)

/-- `tcp_ros_request` -/
def tcpRequestStep (s : SessionState) (result : Option Nat) : Option SessionState :=
  match s.sub with
  | .start =>
      match genTcpHeaderFor sub s.subBuf with
      | .error _ => some { s with sub := .fault }
      | .ok out => some { s with sub := .sendHeader, subBuf := out.1, subSize := le32 out.2 }
  | .sendHeader =>
      (sendTo s.toPub (s.subBuf.take (sizeT (sizeVar s.subSize))) result).map fun chan =>
        { s with sub := .headerSize, toPub := chan }
  | .headerSize =>
      (recvFrom s.toSub false 4 result).map fun got =>
        match got.1 with
        | none => { s with sub := .closed }
        | some [] => { s with sub := .closed, toSub := got.2 }
        | some (b :: bs) =>
            { s with sub := .header, subSize := overwrite s.subSize (some (b :: bs)),
                     toSub := got.2 }
  | .header =>
      (recvFrom s.toSub false (sizeT (sizeVar s.subSize)) result).map fun got =>
        match got.1 with
        | none => { s with sub := .closed }
        | some [] => { s with sub := .closed, toSub := got.2 }
        | some (b :: bs) =>
            match acceptHeader spare sub s.subBuf (b :: bs) (sizeVar s.subSize) with
            | .error _ => { s with sub := .fault, toSub := got.2 }
            | .ok 0 => { s with sub := .closed, toSub := got.2 }
            | .ok (dtype + 1) => { s with sub := .frameSize (dtype + 1), toSub := got.2 }
  | .frameSize dtype =>
      (recvFrom s.toSub false 4 result).map fun got =>
        { s with sub := .frame dtype, subBuf := List.replicate maxBuff 0,
                 subSize := overwrite s.subSize got.1, toSub := got.2 }
  | .frame dtype =>
      (recvFrom s.toSub false (sizeT (sizeVar s.subSize)) result).map fun got =>
        match got.1 with
        | none => { s with sub := .closed }
        | some bs =>
            match memcpyTo s.subBuf 0 bs >>= fun buf => rosData buf dtype with
            | .error _ => { s with sub := .fault, toSub := got.2 }
            | .ok data =>
                { s with sub := .condition dtype (!bs.isEmpty), toSub := got.2,
                         handed := s.handed ++ [data] }
  | .condition _ _ => none
  | .closed => none
  | .fault => none

/-- `publish_tcp_data` with `tcp_send_string` -/
def tcpPublishStep (s : SessionState) (result : Option Nat) : Option SessionState :=
  match s.pub with
  | .headerSize =>
      (recvFrom s.toPub s.subEnded 4 result).map fun got =>
        match got.1 with
        | none => { s with pub := .gone }
        | some bs =>
            { s with pub := .header, pubSize := overwrite s.pubSize (some bs), toPub := got.2 }
  | .header =>
      (recvFrom s.toPub s.subEnded (sizeT (sizeVar s.pubSize)) result).map fun got =>
        match got.1 with
        | none => { s with pub := .gone }
        | some [] => { s with pub := .gone, toPub := got.2 }
        | some (b :: bs) =>
            match acceptHeader spare pub s.pubBuf (b :: bs) (sizeVar s.pubSize) with
            | .error _ => { s with pub := .fault, toPub := got.2 }
            | .ok 0 => { s with pub := .gone, toPub := got.2 }
            | .ok (_ + 1) =>
                match genTcpHeaderFor pub (List.replicate maxBuff 0) with
                | .error _ => { s with pub := .fault, toPub := got.2 }
                | .ok out =>
                    { s with pub := .sendHeader, pubBuf := out.1, pubSize := le32 out.2,
                             toPub := got.2 }
  | .sendHeader =>
      (sendTo s.toSub (s.pubBuf.take (sizeT (sizeVar s.pubSize))) result).map fun chan =>
        { s with pub := if result = none then .gone else .ready, toSub := chan }
  | .ready => none
  | .frameLength data =>
      (sendTo s.toSub (le32 (data.length + 4)) result).map fun chan =>
        { s with pub := if result = none then .gone else .textLength data, toSub := chan }
  | .textLength data =>
      (sendTo s.toSub (le32 data.length) result).map fun chan =>
        { s with pub := if result = none then .gone else .text data, toSub := chan }
  | .text data =>
      (sendTo s.toSub (sentText data) result).map fun chan =>
        { s with pub := if result = none then .gone else .condition, toSub := chan }
  | .condition => none
  | .gone => none
  | .fault => none

/-- `tcp_send_data` in front of `tcp_send_string` -/
def offerStep (s : SessionState) (data : Option Bytes) : Option SessionState :=
  if s.pub = .ready then
    match data with
    | none => some { s with pub := .gone }
    | some data =>
        if hash pub.type hashSize = typeString then
          some { s with pub := .frameLength (cstr data), offered := s.offered ++ [cstr data] }
        else some { s with pub := .gone }
  else none

def sessionStep (s : SessionState) : SessionAct → Option SessionState
  | .request result => tcpRequestStep spare sub s result
  | .publish result => tcpPublishStep spare' pub s result
  | .subGoesOn goesOn =>
      match s.sub with
      | .condition dtype more =>
          some { s with sub := if more && goesOn then .frameSize dtype else .closed }
      | _ => none
  | .offer data => offerStep pub s data
  | .pubGoesOn goesOn =>
      if s.pub = .condition then some { s with pub := if goesOn then .ready else .gone } else none

/-- The connection has just been made; `size` and `buf` hold what the stacks held. -/
structure SessionState.Init (s : SessionState) : Prop where
  sub : s.sub = .start
  subSize : s.subSize.length = 4
  subBuf : s.subBuf.length = maxBuff
  pub : s.pub = .headerSize
  pubSize : s.pubSize.length = 4
  pubBuf : s.pubBuf.length = maxBuff
  toPub : s.toPub = []
  toSub : s.toSub = []
  handed : s.handed = []
  offered : s.offered = []

def session : System SessionState SessionAct where
  init := SessionState.Init
  step := sessionStep spare spare' sub pub

end STRos
