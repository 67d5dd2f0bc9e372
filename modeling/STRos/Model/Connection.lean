import STRos.Model.Wire

/-! # One TCPROS connection from its header to its end

The two ends of a connection: `tcp_ros_request` reads, `publish_tcp_data` writes.
What the functions here keep of a run is what it did to the buffers and to the
wire; a run that leaves the language ends there.
-/

namespace STRos

open CString

variable {σ : Type}

/-! ## Receives into a buffer -/

/-- A `recv (sock, buf, size, 0)`: what the read of `size` in front of it gave, and
the value `size` had. -/
structure BufRecv where
  sizeGot : Option Bytes
  asked : Int

/-- What a run did with `buf`: the receives in their order, and the result of
`gen_tcp_header_for` when it was called. -/
structure BufferUse where
  recvs : List BufRecv
  header : Option (C (Bytes × Nat))

/-- The receives of the loop of `tcp_ros_request`, in at most as many turns. -/
def loopRecvs (recv : Int → σ → Option Bytes × σ) (dtype : Nat) : Nat → Bytes → σ → List BufRecv
  | 0, _, _ => []
  | turns + 1, size, sock =>
      let sizeGot := (recv 4 sock).1
      ⟨sizeGot, sint32 (readLe32 (overwrite size sizeGot))⟩ ::
        match receiveTurn recv dtype size sock with
        | .error _ => []
        | .ok t => if t.goesOn then loopRecvs recv dtype turns t.size t.sock else []

/-- What `verify_ros_header` makes of bytes that were received into `buf`. -/
def acceptHeader (spare : Nat → Bool) (sub : Topic) (buf header : Bytes) (size : Int) : C Nat := do
  let buf ← memcpyTo buf 0 header
  verifyRosHeader spare sub buf size

/-- The receives of `tcp_ros_request` behind its `send`, with the values `buf` and
`size` have then. -/
def requestRecvs (recv : Int → σ → Option Bytes × σ) (turns : Nat) (spare : Nat → Bool)
    (sub : Topic) (buf size : Bytes) (sock : σ) : List BufRecv :=
  match recv 4 sock with
  | (none, _) => []
  | (some [], _) => []
  | (some (b :: bs), sock) =>
      let size := overwrite size (some (b :: bs))
      let asked := sint32 (readLe32 size)
      ⟨some (b :: bs), asked⟩ ::
        match recv asked sock with
        | (none, _) => []
        | (some [], _) => []
        | (some (c :: cs), sock) =>
            match acceptHeader spare sub buf (c :: cs) asked with
            | .error _ => []
            | .ok dtype => if dtype = 0 then [] else loopRecvs recv dtype turns size sock

/-- `tcp_ros_request`; `buf` is what the stack held, and `connected` says whether
`request_socket` succeeds. -/
def tcpRosRequest (recv : Int → σ → Option Bytes × σ) (turns : Nat) (spare : Nat → Bool)
    (sub : Topic) (buf : Bytes) (connected : Bool) (sock : σ) : BufferUse :=
  match genTcpHeaderFor sub buf with
  | .error e => ⟨[], some (.error e)⟩
  | .ok (buf, n) =>
      ⟨if connected then requestRecvs recv turns spare sub buf (le32 n) sock else [],
        some (.ok (buf, n))⟩

/-- The header exchange of `publish_tcp_data`; `buf` and `size` are what the stack
held. -/
def publishHeader (recv : Int → σ → Option Bytes × σ) (spare : Nat → Bool) (pub : Topic)
    (buf size : Bytes) (sock : σ) : BufferUse :=
  match recv 4 sock with
  | (none, _) => ⟨[], none⟩
  | (some word, sock) =>
      let asked := sint32 (readLe32 (overwrite size (some word)))
      let header :=
        match recv asked sock with
        | (none, _) => none
        | (some [], _) => none
        | (some (c :: cs), _) =>
            match acceptHeader spare pub buf (c :: cs) asked with
            | .error _ => none
            | .ok dtype =>
                if dtype = 0 then none
                else some (genTcpHeaderFor pub (List.replicate maxBuff 0))
      ⟨[⟨some word, asked⟩], header⟩

/-! ## Sends -/

/-- A `send` that did not fail: the bytes it was given and how many it took. -/
structure Sent where
  bytes : Bytes
  taken : Nat
  deriving DecidableEq

def onWire (log : List Sent) : Bytes := log.flatMap fun s => s.bytes.take s.taken

/-- The sends of `tcp_send_string`, the first of them number `c` of the connection,
and whether its result is not -1. `result` is what each `send` returns, `none`
for -1. -/
def tcpSendStringLog (result : Nat → Option Nat) (c : Nat) (data : Bytes) : List Sent × Bool :=
  match result c with
  | none => ([], false)
  | some k₁ =>
      match result (c + 1) with
      | none => ([⟨le32 (data.length + 4), k₁⟩], false)
      | some k₂ =>
          match result (c + 2) with
          | none => ([⟨le32 (data.length + 4), k₁⟩, ⟨le32 data.length, k₂⟩], false)
          | some k₃ =>
              ([⟨le32 (data.length + 4), k₁⟩, ⟨le32 data.length, k₂⟩, ⟨sentText data, k₃⟩], true)

def publishLoop (result : Nat → Option Nat) : Nat → List Bytes → List Sent
  | _, [] => []
  | c, data :: messages =>
      let (log, ok) := tcpSendStringLog result c data
      if ok then log ++ publishLoop result (c + 3) messages else log

end STRos
