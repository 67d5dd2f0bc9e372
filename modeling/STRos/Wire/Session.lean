import STRos.Wire.Buffers
import STRos.Wire.EndOfStream
import STRos.Wire.Handshake
import STRos.Wire.SessionMoves

/-! # The session of two compatible ends

The calls of the two ends may come in any order. As long as every call moves all of its
bytes, either stream consists of what its reader has taken, what is under way and what its
writer has yet to send, and the reader stands at a boundary of it. So the handler gets the
messages in the order they were published, and none is ever stuck on the way.
-/

namespace STRos

open CString Transition

/-- The header of this end is accepted by a compatible one. -/
structure HeaderOk (tp : Topic) : Prop where
  chain : FieldChain (calleridBlock tp)
  named : 1 ≤ tp.topic.length
  short : tp.topic.length ≤ 121

/-- A string that fits the signed character its length is read from. -/
def Short (data : Bytes) : Prop := NulFree data ∧ data.length < 128

instance (data : Bytes) : Decidable (Short data) := inferInstanceAs (Decidable (_ ∧ _))

/-- A call that moves all it was asked for, and publishes short strings only. -/
def Complete (s : SessionState) (a : SessionAct) (_ : SessionState) : Prop :=
  match a with
  | .request result => result = some s.requestAsked
  | .publish result => result = some s.publishAsked
  | .offer (some data) => (cstr data).length < 128
  | _ => True

/-! ## Headers -/

section Headers

variable {spare : Nat → Bool} {sub peer : Topic}

theorem sizeVar_le32 {n : Nat} (h : n < 2147483648) : sizeVar (le32 n) = n := by
  rw [sizeVar, readLe32_le32 (by omega), sint32_of_lt h]

theorem sizeT_le32 {n : Nat} (h : n < 2147483648) : sizeT (sizeVar (le32 n)) = n := by
  rw [sizeVar_le32 h, sizeT, if_neg (by omega), Int.toNat_natCast]

theorem frameOf_length (payload : Bytes) : (frameOf payload).length = payload.length + 4 := by
  rw [frameOf, List.length_append, le32_length, Nat.add_comm]

theorem headerBody_le {tp : Topic} (h : HeaderFits tp) : (headerBody tp).length ≤ 1020 := by
  rw [headerBody_length]
  unfold HeaderFits at h
  omega

theorem headerBody_pos (tp : Topic) : 0 < (headerBody tp).length := by
  rw [headerBody_length]
  omega

/-- What the writer leaves in the buffer, and the bytes it announces. -/
theorem genTcpHeaderFor_frame {tp : Topic} {buf : Bytes} {out : Bytes × Nat}
    (hbuf : buf.length = maxBuff) (h : genTcpHeaderFor tp buf = .ok out) :
    HeaderFits tp ∧ out.1.length = maxBuff ∧ out.2 = (frameOf (headerBody tp)).length ∧
      out.1.take out.2 = frameOf (headerBody tp) := by
  have hfits := (genTcpHeaderFor_inBounds_iff tp hbuf).mp ⟨out, h⟩
  have hlen := headerBody_le hfits
  have hmax : maxBuff = 1024 := rfl
  have hroom : 4 + (headerBody tp).length ≤ buf.length := by omega
  rw [genTcpHeaderFor_ok tp hroom] at h
  cases h
  refine ⟨hfits, ?_, (frameOf_length _).symm, ?_⟩
  · simp only [List.length_append, le32_length, List.length_drop]
    omega
  · exact List.take_left' (frameOf_length _)

/-- The body of a header in a buffer, with what the buffer held behind it. -/
theorem acceptHeader_body {buf : Bytes} (hbuf : buf.length = maxBuff) (hfits : HeaderFits peer) :
    acceptHeader spare sub buf (headerBody peer) (headerBody peer).length =
      verifyRosHeader spare sub (headerBody peer ++ buf.drop (headerBody peer).length)
        (headerBody peer).length := by
  have hlen := headerBody_le hfits
  have hmax : maxBuff = 1024 := rfl
  rw [acceptHeader, memcpyTo_ok (by omega)]
  simp [bind, Except.bind]

theorem acceptHeader_ok {buf : Bytes} (hc : Compatible sub peer) (hbuf : buf.length = maxBuff)
    (hfits : HeaderFits peer) (hok : HeaderOk peer) :
    acceptHeader spare sub buf (headerBody peer) (headerBody peer).length =
      .ok (hash sub.type hashSize) := by
  rw [acceptHeader_body hbuf hfits]
  exact verifyRosHeader_headerBody hc hok.chain hok.named hok.short _

theorem headerOk_of_accepted {buf : Bytes} {dtype : Nat} (hc : Compatible sub peer)
    (hbuf : buf.length = maxBuff) (hfits : HeaderFits peer)
    (h : acceptHeader spare sub buf (headerBody peer) (headerBody peer).length = .ok (dtype + 1)) :
    HeaderOk peer := by
  rw [acceptHeader_body hbuf hfits] at h
  obtain ⟨hchain, hnamed, hshort⟩ :=
    (accepts_headerBody_iff hc _).mp ⟨dtype + 1, h, by omega⟩
  exact ⟨hchain, hnamed, hshort⟩

end Headers

/-! ## What is ahead of a reader -/

def SessionState.subMissing (sub : Topic) (s : SessionState) : Bytes :=
  match s.sub with
  | .sendHeader => frameOf (headerBody sub)
  | _ => []

def SessionState.pubMissing (pub : Topic) (s : SessionState) : Bytes :=
  match s.pub with
  | .sendHeader => frameOf (headerBody pub)
  | .frameLength data => tcpSendString data
  | .textLength data => le32 data.length ++ sentText data
  | .text data => sentText data
  | _ => []

def SessionState.toPubAhead (sub : Topic) (s : SessionState) : Bytes := s.toPub ++ s.subMissing sub

def SessionState.toSubAhead (pub : Topic) (s : SessionState) : Bytes := s.toSub ++ s.pubMissing pub

def TcpRequestPc.Asks (pc : TcpRequestPc) : Prop :=
  pc = .start ∨ pc = .sendHeader ∨ pc = .headerSize

def TcpPublishPc.Behind (pc : TcpPublishPc) : Prop :=
  pc ≠ .headerSize ∧ pc ≠ .header ∧ pc ≠ .fault

structure Written (sub pub : Topic) (s : SessionState) : Prop where
  behind : s.pub.Behind
  ok : HeaderOk sub
  fits : HeaderFits pub

inductive Serves (sub pub : Topic) (s : SessionState) : Prop
  | unsent (writer : s.sub = .start ∨ s.sub = .fault ∧ ¬ HeaderFits sub)
      (reader : s.pub = .headerSize) (ahead : s.toPubAhead sub = [])
  | size (writer : s.sub ≠ .start) (fits : HeaderFits sub) (reader : s.pub = .headerSize)
      (ahead : s.toPubAhead sub = frameOf (headerBody sub))
  | body (writer : s.sub ≠ .start) (fits : HeaderFits sub) (reader : s.pub = .header)
      (size : s.pubSize = le32 (headerBody sub).length)
      (ahead : s.toPubAhead sub = headerBody sub)
  | accepted (writer : s.sub ≠ .start) (fits : HeaderFits sub) (written : Written sub pub s)
  | refused (writer : s.sub ≠ .start) (bad : ¬ (HeaderOk sub ∧ HeaderFits pub))
      (reader : s.pub = .gone ∨ s.pub = .fault)

/-- How far the subscriber is with the header of the publisher and with its messages, of which
these are not handed over yet. -/
inductive Requests (sub pub : Topic) (s : SessionState) : List Bytes → Prop
  | unsent (writer : s.pub = .headerSize ∨ s.pub = .header ∨
        (s.pub = .gone ∨ s.pub = .fault) ∧ ¬ (HeaderOk sub ∧ HeaderFits pub))
      (reader : s.sub.Asks) (ahead : s.toSubAhead pub = []) : Requests sub pub s []
  | size {pending : List Bytes} (writer : Written sub pub s)
      (reader : s.sub.Asks)
      (ahead : s.toSubAhead pub = frameOf (headerBody pub) ++ framesOf pending) :
      Requests sub pub s pending
  | body {pending : List Bytes} (writer : Written sub pub s)
      (reader : s.sub = .header) (size : s.subSize = le32 (headerBody pub).length)
      (ahead : s.toSubAhead pub = headerBody pub ++ framesOf pending) : Requests sub pub s pending
  | turn {pending : List Bytes} (writer : Written sub pub s) (ok : HeaderOk pub)
      (reader : s.sub = .frameSize (hash sub.type hashSize) ∨
        s.sub = .condition (hash sub.type hashSize) true)
      (ahead : s.toSubAhead pub = framesOf pending) : Requests sub pub s pending
  | frame {data : Bytes} {pending : List Bytes} (writer : Written sub pub s) (ok : HeaderOk pub)
      (reader : s.sub = .frame (hash sub.type hashSize))
      (cleared : s.subBuf = List.replicate maxBuff 0) (size : s.subSize = le32 (data.length + 4))
      (ahead : s.toSubAhead pub = (le32 data.length ++ data) ++ framesOf pending) :
      Requests sub pub s (data :: pending)
  | closed {pending : List Bytes} (reader : s.sub = .closed) : Requests sub pub s pending
  | fault {pending : List Bytes} (reader : s.sub = .fault)
      (bad : ¬ (HeaderFits sub ∧ HeaderOk pub)) : Requests sub pub s pending

structure SessionInv (sub pub : Topic) (s : SessionState) : Prop where
  subSize : s.subSize.length = 4
  subBuf : s.subBuf.length = maxBuff
  pubSize : s.pubSize.length = 4
  pubBuf : s.pubBuf.length = maxBuff
  short : ∀ data ∈ s.offered, Short data
  typed : s.offered ≠ [] → hash pub.type hashSize = typeString
  subWrote : s.sub = .sendHeader → s.subSize = le32 (frameOf (headerBody sub)).length ∧
    HeaderFits sub ∧
    s.subBuf.take (frameOf (headerBody sub)).length = frameOf (headerBody sub)
  pubWrote : s.pub = .sendHeader → s.pubSize = le32 (frameOf (headerBody pub)).length ∧
    HeaderFits pub ∧
    s.pubBuf.take (frameOf (headerBody pub)).length = frameOf (headerBody pub)
  handed : s.handed ≠ [] → HeaderFits sub ∧ HeaderFits pub ∧ HeaderOk sub ∧ HeaderOk pub
  serves : Serves sub pub s
  requests : ∃ pending, s.offered = s.handed ++ pending ∧ Requests sub pub s pending

section Invariant

variable {spare spare' : Nat → Bool} {sub pub : Topic} {s t : SessionState}

/-- A reader that takes as much as there is in front takes what is in front. -/
theorem ahead_split {taken rest missing front behind : Bytes}
    (h : (taken ++ rest) ++ missing = front ++ behind) (hlen : taken.length = front.length) :
    taken = front ∧ rest ++ missing = behind := by
  rw [List.append_assoc] at h
  exact List.append_inj h hlen

theorem not_ahead_nil {taken rest missing : Bytes} (hlen : taken.length = 4) :
    (taken ++ rest) ++ missing ≠ [] := by
  intro h
  simp only [List.append_eq_nil_iff] at h
  rw [h.1.1] at hlen
  cases hlen

theorem header_split {header rest missing behind : Bytes} {size : Bytes} {tp : Topic}
    (hfits : HeaderFits tp) (hsize : size = le32 (headerBody tp).length)
    (hahead : (header ++ rest) ++ missing = headerBody tp ++ behind)
    (hlen : header.length = sizeT (sizeVar size)) :
    header = headerBody tp ∧ rest ++ missing = behind ∧
      sizeVar size = (headerBody tp).length := by
  have hle := headerBody_le hfits
  subst hsize
  rw [sizeT_le32 (by omega)] at hlen
  obtain ⟨hheader, hrest⟩ := ahead_split hahead hlen
  exact ⟨hheader, hrest, sizeVar_le32 (by omega)⟩

theorem subMissing_of_ne (h : s.sub ≠ .sendHeader) : s.subMissing sub = [] := by
  unfold SessionState.subMissing
  split
  · exact absurd ‹_› h
  · rfl

/-! ### Where the readers are -/

theorem Written.congr (h : Written sub pub s) (ht : t.pub.Behind) : Written sub pub t :=
  ⟨ht, h.ok, h.fits⟩

theorem Serves.request (h : Serves sub pub s) (hstart : s.sub ≠ .start) (hfault : s.sub ≠ .fault)
    (htstart : t.sub ≠ .start) (hpub : t.pub = s.pub) (hsize : t.pubSize = s.pubSize)
    (hahead : t.toPubAhead sub = s.toPubAhead sub) : Serves sub pub t := by
  cases h with
  | unsent writer =>
      rcases writer with hsub | ⟨hsub, -⟩
      · exact absurd hsub hstart
      · exact absurd hsub hfault
  | size _ fits reader ahead =>
      exact .size htstart fits (hpub.trans reader) (hahead.trans ahead)
  | body _ fits reader size ahead =>
      exact .body htstart fits (hpub.trans reader) (hsize.trans size) (hahead.trans ahead)
  | accepted _ fits written => exact .accepted htstart fits (written.congr (hpub ▸ written.behind))
  | refused _ bad reader => exact .refused htstart bad (hpub ▸ reader)

/-- Behind its headers the publisher has accepted one. -/
theorem Serves.behind (h : Serves sub pub s) (hbehind : s.pub.Behind) (hgone : s.pub ≠ .gone) :
    s.sub ≠ .start ∧ HeaderFits sub ∧ Written sub pub s := by
  obtain ⟨hsize, hbody, hfault⟩ := hbehind
  cases h with
  | unsent _ reader => exact absurd reader hsize
  | size _ _ reader => exact absurd reader hsize
  | body _ _ reader => exact absurd reader hbody
  | accepted writer fits written => exact ⟨writer, fits, written⟩
  | refused _ _ reader => exact absurd reader (by simp [hgone, hfault])

theorem Serves.fits_of_written (h : Serves sub pub s) (hwritten : Written sub pub s) :
    HeaderFits sub := by
  obtain ⟨hsize, hbody, -⟩ := hwritten.behind
  cases h with
  | unsent _ reader => exact absurd reader hsize
  | size _ fits => exact fits
  | body _ fits => exact fits
  | accepted _ fits => exact fits
  | refused _ bad => exact absurd ⟨hwritten.ok, hwritten.fits⟩ bad

theorem Serves.at_body (h : Serves sub pub s) (hpc : s.pub = .header) :
    s.sub ≠ .start ∧ HeaderFits sub ∧ s.pubSize = le32 (headerBody sub).length ∧
      s.toPubAhead sub = headerBody sub := by
  cases h with
  | unsent _ reader => simp [hpc] at reader
  | size _ _ reader => simp [hpc] at reader
  | body writer fits _ size ahead => exact ⟨writer, fits, size, ahead⟩
  | accepted _ _ written => exact absurd hpc written.behind.2.1
  | refused _ _ reader => simp [hpc] at reader

/-- What a complete receive takes there is the header of the subscriber. -/
theorem Serves.header_eq {header rest : Bytes} (h : Serves sub pub s) (hpc : s.pub = .header)
    (hchan : s.toPub = header ++ rest) (hlen : header.length = sizeT (sizeVar s.pubSize)) :
    s.sub ≠ .start ∧ HeaderFits sub ∧ header = headerBody sub ∧
      sizeVar s.pubSize = (headerBody sub).length := by
  obtain ⟨hwriter, hfits, hsize, hahead⟩ := h.at_body hpc
  rw [SessionState.toPubAhead, hchan] at hahead
  obtain ⟨hheader, -, hvar⟩ :=
    header_split hfits hsize (hahead.trans (List.append_nil _).symm) hlen
  exact ⟨hwriter, hfits, hheader, hvar⟩

/-- In front of the header of the publisher nothing changes for the subscriber. -/
theorem Requests.asks {pending : List Bytes} (h : Requests sub pub s pending) (hs : s.sub.Asks)
    (ht : t.sub.Asks) (hpub : t.pub = s.pub)
    (hahead : t.toSubAhead pub = s.toSubAhead pub) : Requests sub pub t pending := by
  unfold TcpRequestPc.Asks at hs
  cases h with
  | unsent writer _ ahead => exact .unsent (hpub ▸ writer) ht (hahead.trans ahead)
  | size writer _ ahead =>
      exact .size (writer.congr (hpub ▸ writer.behind)) ht (hahead.trans ahead)
  | body _ reader => simp [reader] at hs
  | turn _ _ reader => rcases reader with reader | reader <;> simp [reader] at hs
  | frame _ _ reader => simp [reader] at hs
  | closed reader => simp [reader] at hs
  | fault reader => simp [reader] at hs

/-- Steps of the publisher behind its headers, which may publish one more message. -/
theorem Requests.publish {pending more : List Bytes} (h : Requests sub pub s pending)
    (hs : Written sub pub s) (hgone : s.pub ≠ .gone) (ht : t.pub.Behind) (hsub : t.sub = s.sub)
    (hsize : t.subSize = s.subSize) (hbuf : t.subBuf = s.subBuf)
    (hahead : t.toSubAhead pub = s.toSubAhead pub ++ framesOf more) :
    Requests sub pub t (pending ++ more) := by
  have hframes : ∀ ss : List Bytes, framesOf (ss ++ more) = framesOf ss ++ framesOf more := by
    intro ss
    simp [framesOf]
  have hwritten := hs.congr ht
  cases h with
  | unsent writer =>
      obtain ⟨hsizePc, hbodyPc, hfault⟩ := hs.behind
      simp [hsizePc, hbodyPc, hfault, hgone] at writer
  | size _ reader ahead =>
      refine .size hwritten (hsub ▸ reader) ?_
      rw [hahead, ahead, hframes, List.append_assoc]
  | body _ reader size ahead =>
      refine .body hwritten (hsub.trans reader) (hsize.trans size) ?_
      rw [hahead, ahead, hframes, List.append_assoc]
  | turn _ ok reader ahead =>
      refine .turn hwritten ok (hsub ▸ reader) ?_
      rw [hahead, ahead, hframes]
  | frame _ ok reader cleared size ahead =>
      rw [List.cons_append]
      refine .frame hwritten ok (hsub.trans reader) (hbuf.trans cleared) (hsize.trans size) ?_
      rw [hahead, ahead, hframes, List.append_assoc]
  | closed reader => exact .closed (hsub.trans reader)
  | fault reader bad => exact .fault (hsub.trans reader) bad

/-! ### Moves of the subscriber -/

theorem Requests.at_start {pending : List Bytes} (h : Requests sub pub s pending)
    (hpc : s.sub.Asks) : pending = [] ∧ s.toSubAhead pub = [] ∨
      Written sub pub s ∧
        s.toSubAhead pub = frameOf (headerBody pub) ++ framesOf pending := by
  unfold TcpRequestPc.Asks at hpc
  cases h with
  | unsent _ _ ahead => exact Or.inl ⟨rfl, ahead⟩
  | size writer _ ahead => exact Or.inr ⟨writer, ahead⟩
  | body _ reader => simp [reader] at hpc
  | turn _ _ reader => rcases reader with reader | reader <;> simp [reader] at hpc
  | frame _ _ reader => simp [reader] at hpc
  | closed reader => simp [reader] at hpc
  | fault reader => simp [reader] at hpc

theorem Requests.at_header {pending : List Bytes} (h : Requests sub pub s pending)
    (hpc : s.sub = .header) : Written sub pub s ∧ s.subSize = le32 (headerBody pub).length ∧
      s.toSubAhead pub = headerBody pub ++ framesOf pending := by
  cases h with
  | unsent _ reader => simp [hpc, TcpRequestPc.Asks] at reader
  | size _ reader => simp [hpc, TcpRequestPc.Asks] at reader
  | body writer _ size ahead => exact ⟨writer, size, ahead⟩
  | turn _ _ reader => simp [hpc] at reader
  | frame _ _ reader => simp [hpc] at reader
  | closed reader => simp [hpc] at reader
  | fault reader => simp [hpc] at reader

theorem Requests.at_turn {pending : List Bytes} {dtype : Nat} (h : Requests sub pub s pending)
    (hpc : s.sub = .frameSize dtype ∨ ∃ more, s.sub = .condition dtype more) :
    Written sub pub s ∧ HeaderOk pub ∧ dtype = hash sub.type hashSize ∧
      (∀ more, s.sub = .condition dtype more → more = true) ∧
      s.toSubAhead pub = framesOf pending := by
  cases h with
  | unsent _ reader => rcases hpc with hpc | ⟨_, hpc⟩ <;> simp [hpc, TcpRequestPc.Asks] at reader
  | size _ reader => rcases hpc with hpc | ⟨_, hpc⟩ <;> simp [hpc, TcpRequestPc.Asks] at reader
  | body _ reader => rcases hpc with hpc | ⟨_, hpc⟩ <;> simp [hpc] at reader
  | turn writer ok reader ahead =>
      refine ⟨writer, ok, ?_, ?_, ahead⟩
      · rcases hpc with hpc | ⟨_, hpc⟩ <;> rw [hpc] at reader <;> simp at reader
        · exact reader
        · exact reader.1
      · intro more hmore
        simp only [hmore, reduceCtorEq, TcpRequestPc.condition.injEq, false_or] at reader
        exact reader.2
  | frame _ _ reader => rcases hpc with hpc | ⟨_, hpc⟩ <;> simp [hpc] at reader
  | closed reader => rcases hpc with hpc | ⟨_, hpc⟩ <;> simp [hpc] at reader
  | fault reader => rcases hpc with hpc | ⟨_, hpc⟩ <;> simp [hpc] at reader

theorem Requests.at_frame {pending : List Bytes} {dtype : Nat} (h : Requests sub pub s pending)
    (hpc : s.sub = .frame dtype) : ∃ data rest, pending = data :: rest ∧ Written sub pub s ∧
      HeaderOk pub ∧ dtype = hash sub.type hashSize ∧ s.subBuf = List.replicate maxBuff 0 ∧
      s.subSize = le32 (data.length + 4) ∧
      s.toSubAhead pub = (le32 data.length ++ data) ++ framesOf rest := by
  cases h with
  | unsent _ reader => simp [hpc, TcpRequestPc.Asks] at reader
  | size _ reader => simp [hpc, TcpRequestPc.Asks] at reader
  | body _ reader => simp [hpc] at reader
  | turn _ _ reader => simp [hpc] at reader
  | @frame data rest writer ok reader cleared size ahead =>
      rw [hpc] at reader
      exact ⟨data, rest, rfl, writer, ok, TcpRequestPc.frame.inj reader, cleared, size, ahead⟩
  | closed reader => simp [hpc] at reader
  | fault reader => simp [hpc] at reader

/-- The bytes of a frame in the cleared buffer are the message. -/
theorem decode_frame {data : Bytes} {dtype : Nat} (hshort : Short data)
    (hdtype : dtype = typeString) :
    (memcpyTo (List.replicate maxBuff 0) 0 (le32 data.length ++ data) >>= fun buf =>
      rosData buf dtype) = .ok data := by
  have hfits : (le32 data.length ++ data).length ≤ maxBuff := by
    have hlen := hshort.2
    rw [List.length_append, le32_length, maxBuff]
    omega
  have hbuf := receiveBuffer_ok hfits
  rw [receiveBuffer] at hbuf
  rw [hbuf]
  simp only [bind, Except.bind, rosData, hdtype, if_true]
  exact rosString_of_lt hshort.1 hshort.2 _

/-- What a complete receive takes at a frame is the next message. -/
theorem SessionInv.taken {bs rest : Bytes} {dtype : Nat} (hc : Compatible sub pub)
    (hinv : SessionInv sub pub s) (hpc : s.sub = .frame dtype) (hchan : s.toSub = bs ++ rest)
    (hlen : bs.length = sizeT (sizeVar s.subSize)) :
    ∃ data pending, s.offered = s.handed ++ data :: pending ∧ bs ≠ [] ∧ Written sub pub s ∧
      HeaderOk pub ∧ dtype = hash sub.type hashSize ∧
      rest ++ s.pubMissing pub = framesOf pending ∧
      (memcpyTo s.subBuf 0 bs >>= fun buf => rosData buf dtype) = .ok data := by
  obtain ⟨pending, hoffered, hreq⟩ := hinv.requests
  obtain ⟨data, pending, rfl, hwritten, hok, rfl, hbuf, hsize, hahead⟩ := hreq.at_frame hpc
  have hmem : data ∈ s.offered := by simp [hoffered]
  have hshort := hinv.short data hmem
  have htype : hash sub.type hashSize = typeString := by
    rw [hc.type]
    exact hinv.typed (List.ne_nil_of_mem hmem)
  have hshortLen := hshort.2
  rw [hsize, sizeT_le32 (by omega)] at hlen
  have hframe : (le32 data.length ++ data).length = data.length + 4 := by
    rw [List.length_append, le32_length, Nat.add_comm]
  rw [SessionState.toSubAhead, hchan] at hahead
  obtain ⟨rfl, hrest⟩ := ahead_split hahead (hlen.trans hframe.symm)
  refine ⟨data, pending, hoffered, List.ne_nil_of_length_pos (by omega), hwritten, hok,
    rfl, hrest, ?_⟩
  rw [hbuf]
  exact decode_frame hshort htype

/-- A receive of the subscriber leaves the publisher and its own header alone. -/
theorem SessionInv.receive {pc : TcpRequestPc} {size buf rest : Bytes}
    (hinv : SessionInv sub pub s) (hstart : s.sub ≠ .start) (hsend : s.sub ≠ .sendHeader)
    (hfault : s.sub ≠ .fault) (hpc : pc ≠ .start ∧ pc ≠ .sendHeader) (hsize : size.length = 4)
    (hbuf : buf.length = maxBuff) {pending : List Bytes}
    (hoffered : s.offered = s.handed ++ pending)
    (hreq : Requests sub pub { s with sub := pc, subSize := size, subBuf := buf, toSub := rest }
      pending) :
    SessionInv sub pub { s with sub := pc, subSize := size, subBuf := buf, toSub := rest } := by
  refine { hinv with
    subSize := hsize, subBuf := hbuf, subWrote := fun h => absurd h hpc.2, serves := ?_,
    requests := ⟨pending, hoffered, hreq⟩ }
  refine hinv.serves.request hstart hfault hpc.1 rfl rfl ?_
  simp only [SessionState.toPubAhead]
  rw [subMissing_of_ne hsend, subMissing_of_ne hpc.2]

theorem SessionInv.request (hc : Compatible sub pub) (hinv : SessionInv sub pub s)
    (h : TcpRequestMove spare sub s t) : SessionInv sub pub t := by
  obtain ⟨pending, hoffered, hreq⟩ := hinv.requests
  have hserves := hinv.serves
  cases h with
  | overrun pc written =>
      have hfits : ¬ HeaderFits sub := by
        intro hfits
        obtain ⟨out, hout⟩ := (genTcpHeaderFor_inBounds_iff sub hinv.subBuf).mpr hfits
        rw [written] at hout
        cases hout
      refine { hinv with subWrote := by simp, serves := ?_, requests := ⟨pending, hoffered, ?_⟩ }
      · cases hserves with
        | unsent _ reader ahead =>
            refine .unsent (Or.inr ⟨rfl, hfits⟩) reader ?_
            simpa [SessionState.toPubAhead, SessionState.subMissing, pc] using ahead
        | size writer => exact absurd pc writer
        | body writer => exact absurd pc writer
        | accepted writer => exact absurd pc writer
        | refused writer => exact absurd pc writer
      · exact .fault rfl fun hbad => hfits hbad.1
  | @start out pc written =>
      obtain ⟨hfits, hlen, hsize, htake⟩ := genTcpHeaderFor_frame hinv.subBuf written
      have hwrote := And.intro (congrArg le32 hsize) (And.intro hfits (hsize ▸ htake))
      refine { hinv with
        subSize := le32_length _, subBuf := hlen, subWrote := fun _ => hwrote, serves := ?_,
        requests := ⟨pending, hoffered, hreq.asks (Or.inl pc) (Or.inr (Or.inl rfl)) rfl rfl⟩ }
      cases hserves with
      | unsent _ reader ahead =>
          refine .size (by simp) hfits reader ?_
          have hnil : s.toPub = [] := (List.append_eq_nil_iff.mp ahead).1
          simp [SessionState.toPubAhead, SessionState.subMissing, hnil]
      | size writer => exact absurd pc writer
      | body writer => exact absurd pc writer
      | accepted writer => exact absurd pc writer
      | refused writer => exact absurd pc writer
  | sendHeader pc whole =>
      obtain ⟨hsize, hfits, htake⟩ := hinv.subWrote pc
      have hle := headerBody_le hfits
      have hframe := frameOf_length (headerBody sub)
      have hsent : s.subBuf.take (sizeT (sizeVar s.subSize)) = frameOf (headerBody sub) := by
        rw [hsize, sizeT_le32 (by omega), htake]
      rw [hsent]
      refine { hinv with
        subWrote := by simp, serves := ?_,
        requests := ⟨pending, hoffered,
          hreq.asks (Or.inr (Or.inl pc)) (Or.inr (Or.inr rfl)) rfl rfl⟩ }
      refine hserves.request (by simp [pc]) (by simp [pc]) (by simp) rfl rfl ?_
      simp [SessionState.toPubAhead, SessionState.subMissing, pc]
  | @headerSize word rest pc chan size =>
      have hword := overwrite_word hinv.subSize size
      rw [hword]
      refine hinv.receive (by simp [pc]) (by simp [pc]) (by simp [pc]) (by simp) size hinv.subBuf
        hoffered ?_
      rcases hreq.at_start (Or.inr (Or.inr pc)) with ⟨-, hahead⟩ | ⟨hwritten, hahead⟩
      · rw [SessionState.toSubAhead, chan] at hahead
        exact absurd hahead (not_ahead_nil size)
      · rw [SessionState.toSubAhead, chan, frameOf, List.append_assoc (le32 _)] at hahead
        obtain ⟨rfl, hrest⟩ := ahead_split hahead (size.trans (le32_length _).symm)
        exact .body (hwritten.congr hwritten.behind) rfl rfl hrest
  | noHeader pc none =>
      obtain ⟨hwritten, hsize, -⟩ := hreq.at_header pc
      have hle := headerBody_le hwritten.fits
      have hpos := headerBody_pos pub
      rw [hsize, sizeT_le32 (by omega)] at none
      omega
  | @unreadable e header rest pc chan size nonempty verified =>
      obtain ⟨hwritten, hsize, hahead⟩ := hreq.at_header pc
      rw [SessionState.toSubAhead, chan] at hahead
      obtain ⟨rfl, -, hvar⟩ := header_split hwritten.fits hsize hahead size
      rw [hvar] at verified
      refine hinv.receive (by simp [pc]) (by simp [pc]) (by simp [pc]) (by simp) hinv.subSize
        hinv.subBuf hoffered (.fault rfl fun hok => ?_)
      rw [acceptHeader_ok hc hinv.subBuf hwritten.fits hok.2] at verified
      cases verified
  | refuse pc =>
      exact hinv.receive (by simp [pc]) (by simp [pc]) (by simp [pc]) (by simp) hinv.subSize
        hinv.subBuf hoffered (.closed rfl)
  | @accept dtype header rest pc chan size nonempty verified =>
      obtain ⟨hwritten, hsize, hahead⟩ := hreq.at_header pc
      rw [SessionState.toSubAhead, chan] at hahead
      obtain ⟨rfl, hrest, hvar⟩ := header_split hwritten.fits hsize hahead size
      rw [hvar] at verified
      have hok := headerOk_of_accepted hc hinv.subBuf hwritten.fits verified
      rw [acceptHeader_ok hc hinv.subBuf hwritten.fits hok] at verified
      rw [← Except.ok.inj verified]
      exact hinv.receive (by simp [pc]) (by simp [pc]) (by simp [pc]) (by simp) hinv.subSize
        hinv.subBuf hoffered
        (.turn (hwritten.congr hwritten.behind) hok (Or.inl rfl) hrest)
  | @frameSize dtype word rest pc chan size =>
      obtain ⟨hwritten, hok, rfl, -, hahead⟩ := hreq.at_turn (Or.inl pc)
      have hword := overwrite_word hinv.subSize size
      rw [hword]
      refine hinv.receive (by simp [pc]) (by simp [pc]) (by simp [pc]) (by simp) size
        List.length_replicate hoffered ?_
      rw [SessionState.toSubAhead, chan] at hahead
      cases pending with
      | nil => exact absurd hahead (not_ahead_nil size)
      | cons data pending =>
          have hshort : data.length < 128 := (hinv.short data (by rw [hoffered]; simp)).2
          rw [framesOf_cons, tcpSendString_of_lt (by omega), List.append_assoc (le32 _)] at hahead
          obtain ⟨rfl, hrest⟩ := ahead_split hahead (size.trans (le32_length _).symm)
          exact .frame (hwritten.congr hwritten.behind) hok rfl rfl rfl hrest
  | @undecodable dtype e bs rest pc chan size decoded =>
      obtain ⟨_, _, -, -, -, -, -, -, hdata⟩ := hinv.taken hc pc chan size
      rw [decoded] at hdata
      cases hdata
  | @frame dtype bs rest data pc chan size decoded =>
      obtain ⟨data', later, hnext, hne, hwritten, hok, rfl, hrest, hdata⟩ :=
        hinv.taken hc pc chan size
      rw [decoded] at hdata
      cases hdata
      have hmore : (!bs.isEmpty) = true := by
        cases bs with
        | nil => exact absurd rfl hne
        | cons b bs => rfl
      rw [hmore]
      have hoffered' : s.offered = (s.handed ++ [data]) ++ later := by simp [hnext]
      have hfits := hserves.fits_of_written hwritten
      refine { hinv with
        subWrote := by simp, handed := fun _ => ⟨hfits, hwritten.fits, hwritten.ok, hok⟩,
        serves := ?_,
        requests := ⟨later, hoffered',
          .turn (hwritten.congr hwritten.behind) hok (Or.inr rfl) hrest⟩ }
      refine hserves.request (by simp [pc]) (by simp [pc]) (by simp) rfl rfl ?_
      simp [SessionState.toPubAhead, SessionState.subMissing, pc]

/-! ### Moves of the publisher -/

theorem Requests.unanswered {pending : List Bytes} (h : Requests sub pub s pending)
    (hs : ¬ s.pub.Behind) (hsub : t.sub = s.sub)
    (ht : t.pub = .header ∨
      (t.pub = .gone ∨ t.pub = .fault) ∧ ¬ (HeaderOk sub ∧ HeaderFits pub))
    (hahead : t.toSubAhead pub = s.toSubAhead pub) : Requests sub pub t pending := by
  cases h with
  | unsent _ reader ahead => exact .unsent (Or.inr ht) (hsub ▸ reader) (hahead.trans ahead)
  | size writer => exact absurd writer.behind hs
  | body writer => exact absurd writer.behind hs
  | turn writer => exact absurd writer.behind hs
  | frame writer => exact absurd writer.behind hs
  | closed reader => exact .closed (hsub.trans reader)
  | fault reader bad => exact .fault (hsub.trans reader) bad

theorem SessionInv.refused {pc : TcpPublishPc} {rest : Bytes} (hinv : SessionInv sub pub s)
    (hs : s.pub = .header) (hbad : ¬ (HeaderOk sub ∧ HeaderFits pub))
    (hpc : pc = .gone ∨ pc = .fault) :
    SessionInv sub pub { s with pub := pc, toPub := rest } := by
  obtain ⟨pending, hoffered, hreq⟩ := hinv.requests
  have hwriter := (hinv.serves.at_body hs).1
  refine { hinv with
    pubWrote := ?_, serves := .refused hwriter hbad hpc, requests := ⟨pending, hoffered, ?_⟩ }
  · intro hsend
    change pc = .sendHeader at hsend
    simp [hsend] at hpc
  · refine hreq.unanswered (fun hbehind => hbehind.2.1 hs) rfl (Or.inr ⟨hpc, hbad⟩) ?_
    rcases hpc with rfl | rfl <;> simp [SessionState.toSubAhead, SessionState.pubMissing, hs]

theorem SessionInv.sent {pc : TcpPublishPc} {chan : Bytes} (hinv : SessionInv sub pub s)
    (hbehind : s.pub.Behind) (hgone : s.pub ≠ .gone) (hpc : pc.Behind ∧ pc ≠ .sendHeader)
    (hahead : SessionState.toSubAhead pub { s with pub := pc, toSub := chan } =
      s.toSubAhead pub) :
    SessionInv sub pub { s with pub := pc, toSub := chan } := by
  obtain ⟨pending, hoffered, hreq⟩ := hinv.requests
  obtain ⟨hwriter, hfits, hwritten⟩ := hinv.serves.behind hbehind hgone
  have hreq' : Requests sub pub { s with pub := pc, toSub := chan } (pending ++ []) :=
    hreq.publish hwritten hgone hpc.1 rfl rfl rfl (hahead.trans (List.append_nil _).symm)
  rw [List.append_nil] at hreq'
  exact { hinv with
    pubWrote := fun hsend => absurd hsend hpc.2,
    serves := .accepted hwriter hfits (hwritten.congr hpc.1),
    requests := ⟨pending, hoffered, hreq'⟩ }

theorem SessionInv.offered_short {data : Bytes} (hinv : SessionInv sub pub s) (hpc : s.pub = .ready)
    (htype : hash pub.type hashSize = typeString) (hlen : (cstr data).length < 128) :
    SessionInv sub pub
      { s with pub := .frameLength (cstr data), offered := s.offered ++ [cstr data] } := by
  have hready : s.pub.Behind ∧ s.pub ≠ .gone := by simp [hpc, TcpPublishPc.Behind]
  have hbehind : (TcpPublishPc.frameLength (cstr data)).Behind := by simp [TcpPublishPc.Behind]
  obtain ⟨pending, hoffered, hreq⟩ := hinv.requests
  obtain ⟨hwriter, hfits, hwritten⟩ := hinv.serves.behind hready.1 hready.2
  have hoffered' : s.offered ++ [cstr data] = s.handed ++ (pending ++ [cstr data]) := by
    rw [hoffered, List.append_assoc]
  refine { hinv with
    short := ?_, typed := fun _ => htype, pubWrote := by simp,
    serves := .accepted hwriter hfits (hwritten.congr hbehind),
    requests := ⟨_, hoffered', hreq.publish hwritten hready.2 hbehind rfl rfl rfl ?_⟩ }
  · intro data' hmem
    rcases List.mem_append.mp hmem with hmem | hmem
    · exact hinv.short data' hmem
    · rw [List.mem_singleton.mp hmem]
      exact ⟨cstr_nulFree data, hlen⟩
  · simp [SessionState.toSubAhead, SessionState.pubMissing, hpc, framesOf]

theorem SessionInv.publish (hc : Compatible pub sub) (hinv : SessionInv sub pub s)
    (h : TcpPublishMove spare pub s t) : SessionInv sub pub t := by
  obtain ⟨pending, hoffered, hreq⟩ := hinv.requests
  have hserves := hinv.serves
  cases h with
  | @headerSize word rest pc chan size =>
      have hword := overwrite_word hinv.pubSize size
      rw [hword]
      have hreq' : Requests sub pub
          { s with pub := .header, pubSize := word, toPub := rest } pending := by
        refine hreq.unanswered (fun hbehind => hbehind.1 pc) rfl (Or.inl rfl) ?_
        simp [SessionState.toSubAhead, SessionState.pubMissing, pc]
      refine { hinv with
        pubSize := size, pubWrote := by simp, serves := ?_, requests := ⟨pending, hoffered, hreq'⟩ }
      cases hserves with
      | unsent _ _ ahead =>
          rw [SessionState.toPubAhead, chan] at ahead
          exact absurd ahead (not_ahead_nil size)
      | size writer fits _ ahead =>
          rw [SessionState.toPubAhead, chan, frameOf] at ahead
          obtain ⟨rfl, hrest⟩ := ahead_split ahead (size.trans (le32_length _).symm)
          exact .body writer fits rfl rfl hrest
      | body _ _ reader => simp [pc] at reader
      | accepted _ _ written => exact absurd pc written.behind.1
      | refused _ _ reader => simp [pc] at reader
  | noHeader pc none =>
      obtain ⟨-, hfits, hsize, -⟩ := hserves.at_body pc
      have hle := headerBody_le hfits
      have hpos := headerBody_pos sub
      rw [hsize, sizeT_le32 (by omega)] at none
      omega
  | @unreadable e header rest pc chan size nonempty verified =>
      obtain ⟨-, hfits, rfl, hvar⟩ := hserves.header_eq pc chan size
      refine hinv.refused pc (fun hok => ?_) (Or.inr rfl)
      rw [hvar, acceptHeader_ok hc hinv.pubBuf hfits hok.1] at verified
      cases verified
  | @refuse header rest pc chan size nonempty verified =>
      obtain ⟨-, hfits, rfl, hvar⟩ := hserves.header_eq pc chan size
      refine hinv.refused pc (fun hok => ?_) (Or.inl rfl)
      rw [hvar, acceptHeader_ok hc hinv.pubBuf hfits hok.1] at verified
      have hpos := hash_pos_of_isMsgType hc.standard
      rw [← hc.type, Except.ok.inj verified] at hpos
      exact absurd hpos (Nat.lt_irrefl 0)
  | overrun pc chan size nonempty verified written =>
      refine hinv.refused pc (fun hok => ?_) (Or.inr rfl)
      obtain ⟨out, hout⟩ :=
        (genTcpHeaderFor_inBounds_iff pub List.length_replicate).mpr hok.2
      rw [written] at hout
      cases hout
  | @accept dtype out header rest pc chan size nonempty verified written =>
      obtain ⟨hwriter, hfits, rfl, hvar⟩ := hserves.header_eq pc chan size
      rw [hvar] at verified
      have hok := headerOk_of_accepted hc hinv.pubBuf hfits verified
      obtain ⟨hpubFits, hlen, hsize, htake⟩ := genTcpHeaderFor_frame List.length_replicate written
      have hwritten : Written sub pub
          { s with
            pub := .sendHeader, pubBuf := out.1, pubSize := le32 out.2, toPub := rest } :=
        ⟨by simp [TcpPublishPc.Behind], hok, hpubFits⟩
      refine { hinv with
        pubSize := le32_length _, pubBuf := hlen,
        pubWrote := fun _ => ⟨congrArg le32 hsize, hpubFits, hsize ▸ htake⟩,
        serves := .accepted hwriter hfits hwritten, requests := ⟨pending, hoffered, ?_⟩ }
      cases hreq with
      | unsent _ reader ahead =>
          refine .size hwritten reader ?_
          have hnil : s.toSub = [] := (List.append_eq_nil_iff.mp ahead).1
          simp [SessionState.toSubAhead, SessionState.pubMissing, hnil, framesOf]
      | size writer => exact absurd pc writer.behind.2.1
      | body writer => exact absurd pc writer.behind.2.1
      | turn writer => exact absurd pc writer.behind.2.1
      | frame writer => exact absurd pc writer.behind.2.1
      | closed reader => exact .closed reader
      | fault reader bad => exact .fault reader bad
  | sendHeader pc whole =>
      obtain ⟨hsize, hfits, htake⟩ := hinv.pubWrote pc
      have hle := headerBody_le hfits
      have hframe := frameOf_length (headerBody pub)
      have hsent : s.pubBuf.take (sizeT (sizeVar s.pubSize)) = frameOf (headerBody pub) := by
        rw [hsize, sizeT_le32 (by omega), htake]
      rw [hsent]
      refine hinv.sent (by simp [pc, TcpPublishPc.Behind]) (by simp [pc])
        (by simp [TcpPublishPc.Behind]) ?_
      simp [SessionState.toSubAhead, SessionState.pubMissing, pc]
  | frameLength pc =>
      refine hinv.sent (by simp [pc, TcpPublishPc.Behind]) (by simp [pc])
        (by simp [TcpPublishPc.Behind]) ?_
      simp [SessionState.toSubAhead, SessionState.pubMissing, pc, tcpSendString_eq]
  | textLength pc =>
      refine hinv.sent (by simp [pc, TcpPublishPc.Behind]) (by simp [pc])
        (by simp [TcpPublishPc.Behind]) ?_
      simp [SessionState.toSubAhead, SessionState.pubMissing, pc]
  | text pc =>
      refine hinv.sent (by simp [pc, TcpPublishPc.Behind]) (by simp [pc])
        (by simp [TcpPublishPc.Behind]) ?_
      simp [SessionState.toSubAhead, SessionState.pubMissing, pc]

theorem SessionInv.step {a : SessionAct} (hc : Compatible sub pub) (hc' : Compatible pub sub)
    (hinv : SessionInv sub pub s) (h : sessionStep spare spare' sub pub s a = some t)
    (hok : Complete s a t) :
    SessionInv sub pub t := by
  cases a with
  | request result =>
      obtain rfl : result = some s.requestAsked := hok
      exact hinv.request hc (tcpRequestStep_move h)
  | publish result =>
      obtain rfl : result = some s.publishAsked := hok
      exact hinv.publish hc' (tcpPublishStep_move h)
  | subGoesOn goesOn =>
      simp only [sessionStep] at h
      split at h
      · rename_i dtype more pc
        cases h
        obtain ⟨pending, hoffered, hreq⟩ := hinv.requests
        obtain ⟨hwritten, hheader, rfl, -, hahead⟩ := hreq.at_turn (Or.inr ⟨more, pc⟩)
        refine hinv.receive (by simp [pc]) (by simp [pc]) (by simp [pc]) ?_ hinv.subSize hinv.subBuf
          hoffered ?_
        · split <;> simp
        · split
          · exact .turn (hwritten.congr hwritten.behind) hheader (Or.inl rfl) hahead
          · exact .closed rfl
      · cases h
  | offer data =>
      simp only [sessionStep, offerStep] at h
      split at h
      · rename_i pc
        have hready : s.pub.Behind ∧ s.pub ≠ .gone := by simp [pc, TcpPublishPc.Behind]
        have hleave : SessionInv sub pub { s with pub := .gone } := by
          refine hinv.sent hready.1 hready.2 (by simp [TcpPublishPc.Behind]) ?_
          simp [SessionState.toSubAhead, SessionState.pubMissing, pc]
        cases data with
        | none =>
            cases h
            exact hleave
        | some data =>
            simp only at h
            split at h
            · rename_i htype
              cases h
              exact hinv.offered_short pc htype hok
            · cases h
              exact hleave
      · cases h
  | pubGoesOn goesOn =>
      simp only [sessionStep] at h
      split at h
      · rename_i pc
        cases h
        refine hinv.sent (by simp [pc, TcpPublishPc.Behind]) (by simp [pc])
          (by cases goesOn <;> simp [TcpPublishPc.Behind]) ?_
        cases goesOn <;> simp [SessionState.toSubAhead, SessionState.pubMissing, pc]
      · cases h

/-! ## Runs -/

theorem SessionInv.init (h : s.Init) : SessionInv sub pub s where
  subSize := h.subSize
  subBuf := h.subBuf
  pubSize := h.pubSize
  pubBuf := h.pubBuf
  short := by simp [h.offered]
  typed := fun hne => absurd h.offered hne
  subWrote := fun hpc => by simp [h.sub] at hpc
  pubWrote := fun hpc => by simp [h.pub] at hpc
  handed := fun hne => absurd h.handed hne
  serves := by
    refine .unsent (Or.inl h.sub) h.pub ?_
    simp [SessionState.toPubAhead, SessionState.subMissing, h.toPub, h.sub]
  requests := by
    refine ⟨[], by simp [h.offered, h.handed], .unsent (Or.inl h.pub) (Or.inl h.sub) ?_⟩
    simp [SessionState.toSubAhead, SessionState.pubMissing, h.toSub, h.pub]

theorem sessionInv (hc : Compatible sub pub) (hc' : Compatible pub sub)
    (h : Reaches (session spare spare' sub pub) Complete s) : SessionInv sub pub s :=
  h.invariant (fun _ hs => .init hs) fun _ _ _ hinv hstep hok => hinv.step hc hc' hstep hok

end Invariant

end STRos
