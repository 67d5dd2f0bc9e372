import STRos.Model.Session

/-! # What a complete call does

A call on a socket is complete when it moves all the bytes it was asked for. Each of
the two functions has one move for each of its calls and for each way it may go on
from there.
-/

namespace STRos

open CString Transition

/-- What the next call of the subscriber asks for. -/
def SessionState.requestAsked (s : SessionState) : Nat :=
  match s.sub with
  | .sendHeader => sizeT (sizeVar s.subSize)
  | .headerSize => 4
  | .header => sizeT (sizeVar s.subSize)
  | .frameSize _ => 4
  | .frame _ => sizeT (sizeVar s.subSize)
  | _ => 0

def SessionState.publishAsked (s : SessionState) : Nat :=
  match s.pub with
  | .headerSize => 4
  | .header => sizeT (sizeVar s.pubSize)
  | .sendHeader => sizeT (sizeVar s.pubSize)
  | .frameLength _ => 4
  | .textLength _ => 4
  | .text data => (sentText data).length
  | _ => 0

/-! ## Calls -/

theorem recvFrom_whole {chan bs rest : Bytes} {n : Nat} (hchan : chan = bs ++ rest)
    (hlen : bs.length = n) (ended : Bool) :
    recvFrom chan ended n (some n) = some (some bs, rest) := by
  subst hchan hlen
  have hfits : bs.length ≤ bs.length ∧ bs.length ≤ (bs ++ rest).length ∧
      (bs.length = 0 → bs.length = 0 ∨ bs ++ rest = [] ∧ ended = true) :=
    ⟨Nat.le_refl _, by simp, Or.inl⟩
  simp only [recvFrom]
  rw [if_pos hfits, List.take_left, List.drop_left]

theorem recvFrom_complete {chan : Bytes} {ended : Bool} {n : Nat} {got : Option Bytes × Bytes}
    (h : recvFrom chan ended n (some n) = some got) :
    ∃ bs rest, got = (some bs, rest) ∧ chan = bs ++ rest ∧ bs.length = n := by
  simp only [recvFrom] at h
  split at h
  · rename_i hfits
    cases h
    refine ⟨_, _, rfl, (List.take_append_drop n chan).symm, ?_⟩
    rw [List.length_take]
    omega
  · cases h

theorem sendTo_whole (chan data : Bytes) :
    sendTo chan data (some data.length) = some (chan ++ data) := by
  simp [sendTo]

theorem sendTo_complete {chan chan' data : Bytes} {n : Nat}
    (h : sendTo chan (data.take n) (some n) = some chan') :
    n ≤ data.length ∧ chan' = chan ++ data.take n := by
  simp only [sendTo] at h
  split at h
  · rename_i hfits
    cases h
    rw [List.length_take] at hfits
    exact ⟨by omega, by rw [List.take_take, Nat.min_self]⟩
  · cases h

/-! ## The subscriber -/

variable {spare : Nat → Bool} {sub pub : Topic}

/-- The complete calls of `tcp_ros_request`. -/
inductive TcpRequestMove (spare : Nat → Bool) (sub : Topic) (s : SessionState) : SessionState → Prop
  | overrun {e : Fault} (pc : s.sub = .start) (written : genTcpHeaderFor sub s.subBuf = .error e) :
      TcpRequestMove spare sub s { s with sub := .fault }
  | start {out : Bytes × Nat} (pc : s.sub = .start)
      (written : genTcpHeaderFor sub s.subBuf = .ok out) :
      TcpRequestMove spare sub s
        { s with sub := .sendHeader, subBuf := out.1, subSize := le32 out.2 }
  | sendHeader (pc : s.sub = .sendHeader)
      (whole : sizeT (sizeVar s.subSize) ≤ s.subBuf.length) :
      TcpRequestMove spare sub s
        { s with sub := .headerSize, toPub := s.toPub ++ s.subBuf.take (sizeT (sizeVar s.subSize)) }
  | headerSize {word rest : Bytes} (pc : s.sub = .headerSize) (chan : s.toSub = word ++ rest)
      (size : word.length = 4) :
      TcpRequestMove spare sub s
        { s with sub := .header, subSize := overwrite s.subSize (some word), toSub := rest }
  | noHeader (pc : s.sub = .header) (none : sizeT (sizeVar s.subSize) = 0) :
      TcpRequestMove spare sub s { s with sub := .closed }
  | unreadable {e : Fault} {header rest : Bytes} (pc : s.sub = .header)
      (chan : s.toSub = header ++ rest) (size : header.length = sizeT (sizeVar s.subSize))
      (nonempty : header ≠ [])
      (verified : acceptHeader spare sub s.subBuf header (sizeVar s.subSize) = .error e) :
      TcpRequestMove spare sub s { s with sub := .fault, toSub := rest }
  | refuse {header rest : Bytes} (pc : s.sub = .header) (chan : s.toSub = header ++ rest)
      (size : header.length = sizeT (sizeVar s.subSize)) (nonempty : header ≠ [])
      (verified : acceptHeader spare sub s.subBuf header (sizeVar s.subSize) = .ok 0) :
      TcpRequestMove spare sub s { s with sub := .closed, toSub := rest }
  | accept {dtype : Nat} {header rest : Bytes} (pc : s.sub = .header)
      (chan : s.toSub = header ++ rest) (size : header.length = sizeT (sizeVar s.subSize))
      (nonempty : header ≠ [])
      (verified : acceptHeader spare sub s.subBuf header (sizeVar s.subSize) = .ok (dtype + 1)) :
      TcpRequestMove spare sub s { s with sub := .frameSize (dtype + 1), toSub := rest }
  | frameSize {dtype : Nat} {word rest : Bytes} (pc : s.sub = .frameSize dtype)
      (chan : s.toSub = word ++ rest) (size : word.length = 4) :
      TcpRequestMove spare sub s
        { s with sub := .frame dtype, subBuf := List.replicate maxBuff 0,
                 subSize := overwrite s.subSize (some word), toSub := rest }
  | undecodable {dtype : Nat} {e : Fault} {bs rest : Bytes} (pc : s.sub = .frame dtype)
      (chan : s.toSub = bs ++ rest) (size : bs.length = sizeT (sizeVar s.subSize))
      (decoded : (memcpyTo s.subBuf 0 bs >>= fun buf => rosData buf dtype) = .error e) :
      TcpRequestMove spare sub s { s with sub := .fault, toSub := rest }
  | frame {dtype : Nat} {bs rest data : Bytes} (pc : s.sub = .frame dtype)
      (chan : s.toSub = bs ++ rest) (size : bs.length = sizeT (sizeVar s.subSize))
      (decoded : (memcpyTo s.subBuf 0 bs >>= fun buf => rosData buf dtype) = .ok data) :
      TcpRequestMove spare sub s
        { s with sub := .condition dtype (!bs.isEmpty), toSub := rest,
                 handed := s.handed ++ [data] }

theorem tcpRequestStep_move {s t : SessionState}
    (h : tcpRequestStep spare sub s (some s.requestAsked) = some t) :
    TcpRequestMove spare sub s t := by
  unfold tcpRequestStep SessionState.requestAsked at h
  cases hpc : s.sub with
  | start =>
      simp only [hpc] at h
      cases hout : genTcpHeaderFor sub s.subBuf with
      | error e =>
          rw [hout] at h
          cases h
          exact .overrun hpc hout
      | ok out =>
          rw [hout] at h
          cases h
          exact .start hpc hout
  | sendHeader =>
      simp only [hpc, Option.map_eq_some_iff] at h
      obtain ⟨chan, hsend, rfl⟩ := h
      obtain ⟨hwhole, rfl⟩ := sendTo_complete hsend
      exact .sendHeader hpc hwhole
  | headerSize =>
      simp only [hpc, Option.map_eq_some_iff] at h
      obtain ⟨_, hrecv, rfl⟩ := h
      obtain ⟨bs, rest, rfl, hchan, hlen⟩ := recvFrom_complete hrecv
      cases bs with
      | nil => cases hlen
      | cons b bs => exact .headerSize hpc hchan hlen
  | header =>
      simp only [hpc, Option.map_eq_some_iff] at h
      obtain ⟨_, hrecv, rfl⟩ := h
      obtain ⟨bs, rest, rfl, hchan, hlen⟩ := recvFrom_complete hrecv
      cases bs with
      | nil =>
          rw [List.nil_append] at hchan
          subst hchan
          exact .noHeader hpc hlen.symm
      | cons b bs =>
          simp only
          cases hverify : acceptHeader spare sub s.subBuf (b :: bs) (sizeVar s.subSize) with
          | error e => exact .unreadable hpc hchan hlen (by simp) hverify
          | ok dtype =>
              cases dtype with
              | zero => exact .refuse hpc hchan hlen (by simp) hverify
              | succ dtype => exact .accept hpc hchan hlen (by simp) hverify
  | frameSize dtype =>
      simp only [hpc, Option.map_eq_some_iff] at h
      obtain ⟨_, hrecv, rfl⟩ := h
      obtain ⟨bs, rest, rfl, hchan, hlen⟩ := recvFrom_complete hrecv
      exact .frameSize hpc hchan hlen
  | frame dtype =>
      simp only [hpc, Option.map_eq_some_iff] at h
      obtain ⟨_, hrecv, rfl⟩ := h
      obtain ⟨bs, rest, rfl, hchan, hlen⟩ := recvFrom_complete hrecv
      simp only
      cases hdata : memcpyTo s.subBuf 0 bs >>= fun buf => rosData buf dtype with
      | error e => exact .undecodable hpc hchan hlen hdata
      | ok data => exact .frame hpc hchan hlen hdata
  | condition dtype more => simp [hpc] at h
  | closed => simp [hpc] at h
  | fault => simp [hpc] at h

theorem TcpRequestMove.step {s t : SessionState} (h : TcpRequestMove spare sub s t) :
    tcpRequestStep spare sub s (some s.requestAsked) = some t := by
  unfold tcpRequestStep SessionState.requestAsked
  cases h with
  | overrun pc written => simp [pc, written]
  | start pc written => simp [pc, written]
  | sendHeader pc whole =>
      have hsend := sendTo_whole s.toPub (s.subBuf.take (sizeT (sizeVar s.subSize)))
      rw [List.length_take, Nat.min_eq_left whole] at hsend
      simp [pc, hsend]
  | @headerSize word rest pc chan size =>
      cases word with
      | nil => cases size
      | cons b bs => simp [pc, recvFrom_whole chan size]
  | noHeader pc none =>
      have hrecv : recvFrom s.toSub false 0 (some 0) = some (some [], s.toSub) :=
        recvFrom_whole (List.nil_append _).symm rfl false
      simp [pc, none, hrecv]
  | @unreadable e header rest pc chan size nonempty verified =>
      obtain ⟨b, bs, rfl⟩ := List.exists_cons_of_ne_nil nonempty
      simp [pc, recvFrom_whole chan size, verified]
  | @refuse header rest pc chan size nonempty verified =>
      obtain ⟨b, bs, rfl⟩ := List.exists_cons_of_ne_nil nonempty
      simp [pc, recvFrom_whole chan size, verified]
  | @accept dtype header rest pc chan size nonempty verified =>
      obtain ⟨b, bs, rfl⟩ := List.exists_cons_of_ne_nil nonempty
      simp [pc, recvFrom_whole chan size, verified]
  | frameSize pc chan size => simp [pc, recvFrom_whole chan size]
  | undecodable pc chan size decoded => simp [pc, recvFrom_whole chan size, decoded]
  | frame pc chan size decoded => simp [pc, recvFrom_whole chan size, decoded]

/-! ## The publisher -/

/-- The complete calls of `publish_tcp_data`. -/
inductive TcpPublishMove (spare : Nat → Bool) (pub : Topic) (s : SessionState) : SessionState → Prop
  | headerSize {word rest : Bytes} (pc : s.pub = .headerSize) (chan : s.toPub = word ++ rest)
      (size : word.length = 4) :
      TcpPublishMove spare pub s
        { s with pub := .header, pubSize := overwrite s.pubSize (some word), toPub := rest }
  | noHeader (pc : s.pub = .header) (none : sizeT (sizeVar s.pubSize) = 0) :
      TcpPublishMove spare pub s { s with pub := .gone }
  | unreadable {e : Fault} {header rest : Bytes} (pc : s.pub = .header)
      (chan : s.toPub = header ++ rest) (size : header.length = sizeT (sizeVar s.pubSize))
      (nonempty : header ≠ [])
      (verified : acceptHeader spare pub s.pubBuf header (sizeVar s.pubSize) = .error e) :
      TcpPublishMove spare pub s { s with pub := .fault, toPub := rest }
  | refuse {header rest : Bytes} (pc : s.pub = .header) (chan : s.toPub = header ++ rest)
      (size : header.length = sizeT (sizeVar s.pubSize)) (nonempty : header ≠ [])
      (verified : acceptHeader spare pub s.pubBuf header (sizeVar s.pubSize) = .ok 0) :
      TcpPublishMove spare pub s { s with pub := .gone, toPub := rest }
  | overrun {dtype : Nat} {e : Fault} {header rest : Bytes} (pc : s.pub = .header)
      (chan : s.toPub = header ++ rest) (size : header.length = sizeT (sizeVar s.pubSize))
      (nonempty : header ≠ [])
      (verified : acceptHeader spare pub s.pubBuf header (sizeVar s.pubSize) = .ok (dtype + 1))
      (written : genTcpHeaderFor pub (List.replicate maxBuff 0) = .error e) :
      TcpPublishMove spare pub s { s with pub := .fault, toPub := rest }
  | accept {dtype : Nat} {out : Bytes × Nat} {header rest : Bytes} (pc : s.pub = .header)
      (chan : s.toPub = header ++ rest) (size : header.length = sizeT (sizeVar s.pubSize))
      (nonempty : header ≠ [])
      (verified : acceptHeader spare pub s.pubBuf header (sizeVar s.pubSize) = .ok (dtype + 1))
      (written : genTcpHeaderFor pub (List.replicate maxBuff 0) = .ok out) :
      TcpPublishMove spare pub s
        { s with pub := .sendHeader, pubBuf := out.1, pubSize := le32 out.2, toPub := rest }
  | sendHeader (pc : s.pub = .sendHeader)
      (whole : sizeT (sizeVar s.pubSize) ≤ s.pubBuf.length) :
      TcpPublishMove spare pub s
        { s with pub := .ready, toSub := s.toSub ++ s.pubBuf.take (sizeT (sizeVar s.pubSize)) }
  | frameLength {data : Bytes} (pc : s.pub = .frameLength data) :
      TcpPublishMove spare pub s
        { s with pub := .textLength data, toSub := s.toSub ++ le32 (data.length + 4) }
  | textLength {data : Bytes} (pc : s.pub = .textLength data) :
      TcpPublishMove spare pub s { s with pub := .text data, toSub := s.toSub ++ le32 data.length }
  | text {data : Bytes} (pc : s.pub = .text data) :
      TcpPublishMove spare pub s { s with pub := .condition, toSub := s.toSub ++ sentText data }

theorem tcpPublishStep_move {s t : SessionState}
    (h : tcpPublishStep spare pub s (some s.publishAsked) = some t) :
    TcpPublishMove spare pub s t := by
  unfold tcpPublishStep SessionState.publishAsked at h
  cases hpc : s.pub with
  | headerSize =>
      simp only [hpc, Option.map_eq_some_iff] at h
      obtain ⟨_, hrecv, rfl⟩ := h
      obtain ⟨bs, rest, rfl, hchan, hlen⟩ := recvFrom_complete hrecv
      exact .headerSize hpc hchan hlen
  | header =>
      simp only [hpc, Option.map_eq_some_iff] at h
      obtain ⟨_, hrecv, rfl⟩ := h
      obtain ⟨bs, rest, rfl, hchan, hlen⟩ := recvFrom_complete hrecv
      cases bs with
      | nil =>
          rw [List.nil_append] at hchan
          subst hchan
          exact .noHeader hpc hlen.symm
      | cons b bs =>
          simp only
          cases hverify : acceptHeader spare pub s.pubBuf (b :: bs) (sizeVar s.pubSize) with
          | error e => exact .unreadable hpc hchan hlen (by simp) hverify
          | ok dtype =>
              cases dtype with
              | zero => exact .refuse hpc hchan hlen (by simp) hverify
              | succ dtype =>
                  simp only
                  cases hout : genTcpHeaderFor pub (List.replicate maxBuff 0) with
                  | error e => exact .overrun hpc hchan hlen (by simp) hverify hout
                  | ok out => exact .accept hpc hchan hlen (by simp) hverify hout
  | sendHeader =>
      simp only [hpc, Option.map_eq_some_iff, reduceCtorEq, if_false] at h
      obtain ⟨chan, hsend, rfl⟩ := h
      obtain ⟨hwhole, rfl⟩ := sendTo_complete hsend
      exact .sendHeader hpc hwhole
  | ready => simp [hpc] at h
  | frameLength data =>
      simp only [hpc, Option.map_eq_some_iff, reduceCtorEq, if_false] at h
      obtain ⟨chan, hsend, rfl⟩ := h
      have hwhole := sendTo_whole s.toSub (le32 (data.length + 4))
      obtain rfl := Option.some.inj (hwhole.symm.trans hsend)
      exact .frameLength hpc
  | textLength data =>
      simp only [hpc, Option.map_eq_some_iff, reduceCtorEq, if_false] at h
      obtain ⟨chan, hsend, rfl⟩ := h
      have hwhole := sendTo_whole s.toSub (le32 data.length)
      obtain rfl := Option.some.inj (hwhole.symm.trans hsend)
      exact .textLength hpc
  | text data =>
      simp only [hpc, Option.map_eq_some_iff, reduceCtorEq, if_false] at h
      obtain ⟨chan, hsend, rfl⟩ := h
      obtain rfl := Option.some.inj ((sendTo_whole s.toSub (sentText data)).symm.trans hsend)
      exact .text hpc
  | condition => simp [hpc] at h
  | gone => simp [hpc] at h
  | fault => simp [hpc] at h

theorem TcpPublishMove.step {s t : SessionState} (h : TcpPublishMove spare pub s t) :
    tcpPublishStep spare pub s (some s.publishAsked) = some t := by
  unfold tcpPublishStep SessionState.publishAsked
  cases h with
  | headerSize pc chan size => simp [pc, recvFrom_whole chan size]
  | noHeader pc none =>
      have hrecv : ∀ ended, recvFrom s.toPub ended 0 (some 0) = some (some [], s.toPub) :=
        fun ended => recvFrom_whole (List.nil_append _).symm rfl ended
      simp [pc, none, hrecv]
  | @unreadable e header rest pc chan size nonempty verified =>
      obtain ⟨b, bs, rfl⟩ := List.exists_cons_of_ne_nil nonempty
      simp [pc, recvFrom_whole chan size, verified]
  | @refuse header rest pc chan size nonempty verified =>
      obtain ⟨b, bs, rfl⟩ := List.exists_cons_of_ne_nil nonempty
      simp [pc, recvFrom_whole chan size, verified]
  | @overrun dtype e header rest pc chan size nonempty verified written =>
      obtain ⟨b, bs, rfl⟩ := List.exists_cons_of_ne_nil nonempty
      simp [pc, recvFrom_whole chan size, verified, written]
  | @accept dtype out header rest pc chan size nonempty verified written =>
      obtain ⟨b, bs, rfl⟩ := List.exists_cons_of_ne_nil nonempty
      simp [pc, recvFrom_whole chan size, verified, written]
  | sendHeader pc whole =>
      have hsend := sendTo_whole s.toSub (s.pubBuf.take (sizeT (sizeVar s.pubSize)))
      rw [List.length_take, Nat.min_eq_left whole] at hsend
      simp [pc, hsend]
  | @frameLength data pc =>
      have hsend := sendTo_whole s.toSub (le32 (data.length + 4))
      rw [le32_length] at hsend
      simp [pc, hsend]
  | @textLength data pc =>
      have hsend := sendTo_whole s.toSub (le32 data.length)
      rw [le32_length] at hsend
      simp [pc, hsend]
  | @text data pc => simp [pc, sendTo_whole]

end STRos
