import STRos.Wire.Session

/-! # Everything published can arrive

From every state of a session whose headers are in order, and in which the subscriber has
not left its loop, complete calls lead to one in which the handler got all that was
published. So the session cannot get stuck half way, whichever calls came first.
-/

namespace STRos

open CString Transition

/-- Both ends accept each other, in nodes with names that fit. -/
structure Agreed (sub pub : Topic) : Prop where
  subFits : HeaderFits sub
  pubFits : HeaderFits pub
  subOk : HeaderOk sub
  pubOk : HeaderOk pub

/-! ## Steps that get nearer -/

def TcpRequestPc.rank : TcpRequestPc → Nat
  | .start => 5
  | .sendHeader => 4
  | .headerSize => 3
  | .header => 2
  | .condition _ _ => 2
  | .frameSize _ => 1
  | _ => 0

def TcpPublishPc.rank : TcpPublishPc → Nat
  | .headerSize => 7
  | .header => 6
  | .sendHeader => 5
  | .frameLength _ => 4
  | .textLength _ => 3
  | .text _ => 2
  | .condition => 1
  | _ => 0

def SessionState.rank (s : SessionState) : Nat :=
  3 * (s.offered.length - s.handed.length) + s.sub.rank + s.pub.rank

variable {spare spare' : Nat → Bool} {sub pub : Topic} {s t : SessionState}

/-- A complete step that publishes nothing, leaves neither loop, and gets nearer. -/
def Advances (spare spare' : Nat → Bool) (sub pub : Topic) (s : SessionState) : Prop :=
  ∃ a t, sessionStep spare spare' sub pub s a = some t ∧ Complete s a t ∧ t.sub ≠ .closed ∧
    t.offered = s.offered ∧ (s.pub ≠ .gone → t.pub ≠ .gone) ∧ t.rank < s.rank

theorem TcpRequestMove.advances (h : TcpRequestMove spare sub s t) (hclosed : t.sub ≠ .closed)
    (hoffered : t.offered = s.offered) (hpub : t.pub = s.pub) (hrank : t.rank < s.rank) :
    Advances spare spare' sub pub s :=
  ⟨.request (some s.requestAsked), t, h.step, rfl, hclosed, hoffered, fun h => hpub ▸ h, hrank⟩

theorem TcpPublishMove.advances (h : TcpPublishMove spare' pub s t) (hclosed : s.sub ≠ .closed)
    (hsub : t.sub = s.sub) (hoffered : t.offered = s.offered) (hgone : t.pub ≠ .gone)
    (hrank : t.rank < s.rank) : Advances spare spare' sub pub s :=
  ⟨.publish (some s.publishAsked), t, h.step, rfl, hsub ▸ hclosed, hoffered, fun _ => hgone, hrank⟩

/-- The subscriber can always write and send its header. -/
theorem SessionInv.start_advances (hinv : SessionInv sub pub s) (hfits : HeaderFits sub)
    (hpc : s.sub = .start) : Advances spare spare' sub pub s := by
  obtain ⟨out, hout⟩ := (genTcpHeaderFor_inBounds_iff sub hinv.subBuf).mpr hfits
  refine (TcpRequestMove.start hpc hout).advances (by simp) rfl rfl ?_
  simp [SessionState.rank, TcpRequestPc.rank, hpc]

theorem SessionInv.sendHeader_advances (hinv : SessionInv sub pub s) (hpc : s.sub = .sendHeader) :
    Advances spare spare' sub pub s := by
  obtain ⟨hsize, hfits, -⟩ := hinv.subWrote hpc
  have hle := headerBody_le hfits
  have hframe := frameOf_length (headerBody sub)
  have hmax : maxBuff = 1024 := rfl
  have hwhole : sizeT (sizeVar s.subSize) ≤ s.subBuf.length := by
    rw [hsize, sizeT_le32 (by omega), hinv.subBuf]
    omega
  refine (TcpRequestMove.sendHeader hpc hwhole).advances (by simp) rfl rfl ?_
  simp [SessionState.rank, TcpRequestPc.rank, hpc]

/-- The size and the body of a header that is written can be read. -/
theorem toPub_eq {bytes : Bytes} (hahead : s.toPubAhead sub = bytes) (hsend : s.sub ≠ .sendHeader) :
    s.toPub = bytes := by
  rw [← hahead, SessionState.toPubAhead, subMissing_of_ne hsend, List.append_nil]

/-- In front of its own header the publisher reads that of the subscriber, once it is sent. -/
theorem SessionInv.headers_advance (hinv : SessionInv sub pub s) (hc : Compatible pub sub)
    (hagreed : Agreed sub pub) (hclosed : s.sub ≠ .closed)
    (hpc : s.pub = .headerSize ∨ s.pub = .header) : Advances spare spare' sub pub s := by
  by_cases hsend : s.sub = .sendHeader
  · exact hinv.sendHeader_advances hsend
  have hle := headerBody_le hagreed.subFits
  cases hinv.serves with
  | unsent writer =>
      rcases writer with hstart | ⟨-, hbad⟩
      · exact hinv.start_advances hagreed.subFits hstart
      · exact absurd hagreed.subFits hbad
  | size _ _ reader ahead =>
      have hchan := toPub_eq ahead hsend
      rw [frameOf] at hchan
      refine (TcpPublishMove.headerSize reader hchan (le32_length _)).advances hclosed rfl rfl
        (by simp) ?_
      simp [SessionState.rank, TcpPublishPc.rank, reader]
  | body _ _ reader size ahead =>
      have hchan := (toPub_eq ahead hsend).trans (List.append_nil _).symm
      have hlen : (headerBody sub).length = sizeT (sizeVar s.pubSize) := by
        rw [size, sizeT_le32 (by omega)]
      have hverified : acceptHeader spare' pub s.pubBuf (headerBody sub) (sizeVar s.pubSize) =
          .ok (hash pub.type hashSize) := by
        rw [size, sizeVar_le32 (by omega)]
        exact acceptHeader_ok hc hinv.pubBuf hagreed.subFits hagreed.subOk
      have hpos := hash_pos_of_isMsgType hc.standard
      obtain ⟨dtype, hdtype⟩ := Nat.exists_eq_succ_of_ne_zero (Nat.pos_iff_ne_zero.mp hpos)
      rw [hc.type, hdtype] at hverified
      obtain ⟨out, hout⟩ :=
        (genTcpHeaderFor_inBounds_iff pub List.length_replicate).mpr hagreed.pubFits
      refine (TcpPublishMove.accept reader hchan hlen
        (List.ne_nil_of_length_pos (headerBody_pos sub)) hverified hout).advances hclosed rfl rfl
        (by simp) ?_
      simp [SessionState.rank, TcpPublishPc.rank, reader]
  | accepted _ _ written =>
      obtain ⟨hsize, hbody, -⟩ := written.behind
      simp [hsize, hbody] at hpc
  | refused _ bad => exact absurd ⟨hagreed.subOk, hagreed.pubFits⟩ bad

theorem SessionInv.send_advances (hinv : SessionInv sub pub s) (hclosed : s.sub ≠ .closed)
    (hpc : s.pub = .sendHeader ∨ ∃ data, s.pub = .frameLength data ∨ s.pub = .textLength data ∨
      s.pub = .text data) : Advances spare spare' sub pub s := by
  rcases hpc with hpc | ⟨data, hpc | hpc | hpc⟩
  · obtain ⟨hsize, hfits, -⟩ := hinv.pubWrote hpc
    have hle := headerBody_le hfits
    have hframe := frameOf_length (headerBody pub)
    have hmax : maxBuff = 1024 := rfl
    have hwhole : sizeT (sizeVar s.pubSize) ≤ s.pubBuf.length := by
      rw [hsize, sizeT_le32 (by omega), hinv.pubBuf]
      omega
    refine (TcpPublishMove.sendHeader hpc hwhole).advances hclosed rfl rfl (by simp) ?_
    simp [SessionState.rank, TcpPublishPc.rank, hpc]
  · refine (TcpPublishMove.frameLength hpc).advances hclosed rfl rfl (by simp) ?_
    simp [SessionState.rank, TcpPublishPc.rank, hpc]
  · refine (TcpPublishMove.textLength hpc).advances hclosed rfl rfl (by simp) ?_
    simp [SessionState.rank, TcpPublishPc.rank, hpc]
  · refine (TcpPublishMove.text hpc).advances hclosed rfl rfl (by simp) ?_
    simp [SessionState.rank, TcpPublishPc.rank, hpc]

theorem condition_advances (hclosed : s.sub ≠ .closed) (hpc : s.pub = .condition) :
    Advances spare spare' sub pub s := by
  refine ⟨.pubGoesOn true, { s with pub := .ready }, ?_, trivial, hclosed, rfl, by simp, ?_⟩
  · simp [sessionStep, hpc]
  · simp [SessionState.rank, TcpPublishPc.rank, hpc]

/-! ### With nothing left to send -/

theorem toSub_eq {bytes : Bytes} (hahead : s.toSubAhead pub = bytes)
    (hpub : s.pub = .ready ∨ s.pub = .gone) : s.toSub = bytes := by
  rw [← hahead]
  rcases hpub with hpub | hpub <;> simp [SessionState.toSubAhead, SessionState.pubMissing, hpub]

/-- The handler got everything, and both ends wait, if the publisher has not returned. -/
structure SessionState.Delivered (s : SessionState) : Prop where
  sub : ∃ dtype, s.sub = .frameSize dtype
  pub : s.pub = .ready ∨ s.pub = .gone
  handed : s.handed = s.offered

theorem SessionInv.asks_advances (hinv : SessionInv sub pub s) (hagreed : Agreed sub pub)
    (hpub : s.pub = .ready ∨ s.pub = .gone) (hpc : s.sub.Asks) {pending : List Bytes}
    (hreq : Requests sub pub s pending) : Advances spare spare' sub pub s := by
  rcases hpc with hpc | hpc | hpc
  · exact hinv.start_advances hagreed.subFits hpc
  · exact hinv.sendHeader_advances hpc
  · cases hreq with
    | unsent writer =>
        rcases writer with hpub' | hpub' | ⟨-, hbad⟩
        · simp [hpub'] at hpub
        · simp [hpub'] at hpub
        · exact absurd ⟨hagreed.subOk, hagreed.pubFits⟩ hbad
    | size _ _ ahead =>
        have hchan := toSub_eq ahead hpub
        rw [frameOf, List.append_assoc] at hchan
        refine (TcpRequestMove.headerSize hpc hchan (le32_length _)).advances (by simp) rfl rfl ?_
        simp [SessionState.rank, TcpRequestPc.rank, hpc]
    | body _ reader => simp [hpc] at reader
    | turn _ _ reader => simp [hpc] at reader
    | frame _ _ reader => simp [hpc] at reader
    | closed reader => simp [hpc] at reader
    | fault reader => simp [hpc] at reader

theorem SessionInv.body_advances (hinv : SessionInv sub pub s) (hc : Compatible sub pub)
    (hagreed : Agreed sub pub) (hpub : s.pub = .ready ∨ s.pub = .gone) (hpc : s.sub = .header)
    {pending : List Bytes} (hreq : Requests sub pub s pending) :
    Advances spare spare' sub pub s := by
  obtain ⟨-, hsize, hahead⟩ := hreq.at_header hpc
  have hle := headerBody_le hagreed.pubFits
  have hlen : (headerBody pub).length = sizeT (sizeVar s.subSize) := by
    rw [hsize, sizeT_le32 (by omega)]
  have hverified : acceptHeader spare sub s.subBuf (headerBody pub) (sizeVar s.subSize) =
      .ok (hash sub.type hashSize) := by
    rw [hsize, sizeVar_le32 (by omega)]
    exact acceptHeader_ok hc hinv.subBuf hagreed.pubFits hagreed.pubOk
  have hpos := hash_pos_of_isMsgType hc.standard
  obtain ⟨dtype, hdtype⟩ := Nat.exists_eq_succ_of_ne_zero (Nat.pos_iff_ne_zero.mp hpos)
  rw [hc.type, hdtype] at hverified
  refine (TcpRequestMove.accept hpc (toSub_eq hahead hpub) hlen
    (List.ne_nil_of_length_pos (headerBody_pos pub)) hverified).advances (by simp) rfl rfl ?_
  simp [SessionState.rank, TcpRequestPc.rank, hpc]

/-- A message that is under way is taken in its two receives. -/
theorem SessionInv.frame_advances (hinv : SessionInv sub pub s) (hc : Compatible sub pub)
    (hpub : s.pub = .ready ∨ s.pub = .gone) {dtype : Nat} (hpc : s.sub = .frame dtype) :
    Advances spare spare' sub pub s := by
  obtain ⟨pending, hoffered, hreq⟩ := hinv.requests
  obtain ⟨data, later, rfl, -, -, -, -, hsize, hahead⟩ := hreq.at_frame hpc
  have hchan := toSub_eq hahead hpub
  have hmem : data ∈ s.offered := by simp [hoffered]
  have hshort := (hinv.short data hmem).2
  have hlen : (le32 data.length ++ data).length = sizeT (sizeVar s.subSize) := by
    rw [hsize, sizeT_le32 (by omega), List.length_append, le32_length, Nat.add_comm]
  obtain ⟨data', later', hnext, -, -, -, -, -, hdata⟩ := hinv.taken hc hpc hchan hlen
  refine (TcpRequestMove.frame hpc hchan hlen hdata).advances (by simp) rfl rfl ?_
  have hcount := congrArg List.length hnext
  simp only [List.length_append, List.length_cons] at hcount
  simp only [SessionState.rank, TcpRequestPc.rank, hpc, List.length_append, List.length_singleton]
  omega

theorem Requests.turn_advances {pending : List Bytes} (hreq : Requests sub pub s pending)
    (hpub : s.pub = .ready ∨ s.pub = .gone) {dtype : Nat} (hpc : s.sub = .frameSize dtype)
    (hpending : pending ≠ []) : Advances spare spare' sub pub s := by
  obtain ⟨-, -, -, -, hahead⟩ := hreq.at_turn (Or.inl hpc)
  have hchan := toSub_eq hahead hpub
  cases pending with
  | nil => exact absurd rfl hpending
  | cons data later =>
      rw [framesOf_cons, tcpSendString_eq, List.append_assoc (le32 _)] at hchan
      refine (TcpRequestMove.frameSize hpc hchan (le32_length _)).advances (by simp) rfl rfl ?_
      simp [SessionState.rank, TcpRequestPc.rank, hpc]

theorem Requests.goesOn_advances {pending : List Bytes} (hreq : Requests sub pub s pending)
    {dtype : Nat} {more : Bool} (hpc : s.sub = .condition dtype more) :
    Advances spare spare' sub pub s := by
  obtain ⟨-, -, -, hmore, -⟩ := hreq.at_turn (Or.inr ⟨more, hpc⟩)
  obtain rfl := hmore more hpc
  refine ⟨.subGoesOn true, { s with sub := .frameSize dtype }, ?_, trivial, by simp, rfl, id, ?_⟩
  · simp [sessionStep, hpc]
  · simp [SessionState.rank, TcpRequestPc.rank, hpc]

theorem SessionInv.advances (hinv : SessionInv sub pub s) (hc : Compatible sub pub)
    (hc' : Compatible pub sub) (hagreed : Agreed sub pub) (hclosed : s.sub ≠ .closed)
    (hsettled : ¬ s.Delivered) : Advances spare spare' sub pub s := by
  have hwaiting : s.pub = .ready ∨ s.pub = .gone → Advances spare spare' sub pub s := by
    intro hpub
    obtain ⟨pending, hoffered, hreq⟩ := hinv.requests
    cases hpc : s.sub with
    | start => exact hinv.asks_advances hagreed hpub (Or.inl hpc) hreq
    | sendHeader => exact hinv.asks_advances hagreed hpub (Or.inr (Or.inl hpc)) hreq
    | headerSize => exact hinv.asks_advances hagreed hpub (Or.inr (Or.inr hpc)) hreq
    | header => exact hinv.body_advances hc hagreed hpub hpc hreq
    | frameSize dtype =>
        refine hreq.turn_advances hpub hpc fun hnil => hsettled ⟨⟨dtype, hpc⟩, hpub, ?_⟩
        rw [hoffered, hnil, List.append_nil]
    | frame dtype => exact hinv.frame_advances hc hpub hpc
    | condition dtype more => exact hreq.goesOn_advances hpc
    | closed => exact absurd hpc hclosed
    | fault =>
        cases hreq with
        | unsent _ reader => simp [hpc, TcpRequestPc.Asks] at reader
        | size _ reader => simp [hpc, TcpRequestPc.Asks] at reader
        | body _ reader => simp [hpc] at reader
        | turn _ _ reader => simp [hpc] at reader
        | frame _ _ reader => simp [hpc] at reader
        | closed reader => simp [hpc] at reader
        | fault _ bad => exact absurd ⟨hagreed.subFits, hagreed.pubOk⟩ bad
  cases hpc : s.pub with
  | headerSize => exact hinv.headers_advance hc' hagreed hclosed (Or.inl hpc)
  | header => exact hinv.headers_advance hc' hagreed hclosed (Or.inr hpc)
  | sendHeader => exact hinv.send_advances hclosed (Or.inl hpc)
  | ready => exact hwaiting (Or.inl hpc)
  | frameLength data => exact hinv.send_advances hclosed (Or.inr ⟨data, Or.inl hpc⟩)
  | textLength data => exact hinv.send_advances hclosed (Or.inr ⟨data, Or.inr (Or.inl hpc)⟩)
  | text data => exact hinv.send_advances hclosed (Or.inr ⟨data, Or.inr (Or.inr hpc)⟩)
  | condition => exact condition_advances hclosed hpc
  | gone => exact hwaiting (Or.inr hpc)
  | fault =>
      cases hinv.serves with
      | unsent _ reader => simp [hpc] at reader
      | size _ _ reader => simp [hpc] at reader
      | body _ _ reader => simp [hpc] at reader
      | accepted _ _ written => exact absurd hpc written.behind.2.2
      | refused _ bad => exact absurd ⟨hagreed.subOk, hagreed.pubFits⟩ bad

/-! ## A talker and a listener -/

theorem chatter_agreed : Agreed (chatter (str "/listener")) (chatter (str "/talker")) where
  subFits := by unfold HeaderFits; decide
  pubFits := by unfold HeaderFits; decide
  subOk := ⟨fieldChain_lenPrefixed (by decide), by decide, by decide⟩
  pubOk := ⟨fieldChain_lenPrefixed (by decide), by decide, by decide⟩

theorem chatter_both : Compatible (chatter (str "/listener")) (chatter (str "/talker")) ∧
    Compatible (chatter (str "/talker")) (chatter (str "/listener")) :=
  ⟨chatter_compatible (by decide) (by decide), chatter_compatible (by decide) (by decide)⟩

/-! ## Runs -/

theorem exists_delivered (hc : Compatible sub pub) (hc' : Compatible pub sub)
    (hagreed : Agreed sub pub) (h : Reaches (session spare spare' sub pub) Complete s)
    (hclosed : s.sub ≠ .closed) :
    ∃ t, Leads (session spare spare' sub pub) Complete s t ∧ t.Delivered ∧ t.offered = s.offered ∧
      (s.pub ≠ .gone → t.pub = .ready) := by
  have hrun : ∃ t, Leads (session spare spare' sub pub) Complete s t ∧
      (SessionInv sub pub t ∧ t.sub ≠ .closed ∧ t.offered = s.offered ∧
        (s.pub ≠ .gone → t.pub ≠ .gone)) ∧ t.Delivered := by
    refine exists_leads SessionState.rank ?_ ⟨sessionInv hc hc' h, hclosed, rfl, id⟩
    intro u hu hgoal
    obtain ⟨hinv, hopen, hoffered, hgone⟩ := hu
    obtain ⟨a, v, hstep, hok, hopen', hoffered', hgone', hrank⟩ :=
      hinv.advances hc hc' hagreed hopen hgoal
    exact ⟨a, v, hstep, hok, ⟨hinv.step hc hc' hstep hok, hopen', hoffered'.trans hoffered,
      fun hpub => hgone' (hgone hpub)⟩, hrank⟩
  obtain ⟨t, hleads, ⟨-, -, hoffered, hgone⟩, hdelivered⟩ := hrun
  exact ⟨t, hleads, hdelivered, hoffered, fun hpub => hdelivered.pub.resolve_right (hgone hpub)⟩

/-- The next message of a session in which everything has arrived. -/
theorem exists_offered {data : Bytes} (hs : Reaches (session spare spare' sub pub) Complete s)
    (hdelivered : s.Delivered) (hpub : s.pub = .ready)
    (htype : hash pub.type hashSize = typeString) (hshort : Short data) :
    ∃ t, Reaches (session spare spare' sub pub) Complete t ∧ t.sub ≠ .closed ∧ t.pub ≠ .gone ∧
      t.handed = s.handed ∧ t.offered = s.offered ++ [data] := by
  have hcstr := cstr_of_nulFree hshort.1
  let next : SessionState := { s with pub := .frameLength data, offered := s.offered ++ [data] }
  have hstep : (session spare spare' sub pub).step s (.offer (some data)) = some next := by
    simp [session, sessionStep, offerStep, hpub, htype, hcstr, next]
  have hok : Complete s (.offer (some data)) next := by
    change (cstr data).length < 128
    rw [hcstr]
    exact hshort.2
  have hopen : next.sub ≠ .closed := by
    obtain ⟨dtype, hsub⟩ := hdelivered.sub
    change s.sub ≠ .closed
    rw [hsub]
    simp
  exact ⟨next, hs.step hstep hok, hopen, by simp [next], rfl, rfl⟩

theorem exists_session (hc : Compatible sub pub) (hc' : Compatible pub sub)
    (hagreed : Agreed sub pub) (htype : hash pub.type hashSize = typeString)
    {messages : List Bytes} (hshort : ∀ data ∈ messages, Short data) :
    ∃ s, Reaches (session spare spare' sub pub) Complete s ∧ s.Delivered ∧ s.offered = messages ∧
      s.pub = .ready := by
  induction messages using List.reverseRecOn with
  | nil =>
      let start : SessionState :=
        ⟨.start, le32 0, List.replicate maxBuff 0, .headerSize, le32 0, List.replicate maxBuff 0,
          [], [], [], []⟩
      have hinit : start.Init :=
        ⟨rfl, le32_length 0, List.length_replicate, rfl, le32_length 0, List.length_replicate, rfl,
          rfl, rfl, rfl⟩
      have hreach : Reaches (session spare spare' sub pub) Complete start := .init hinit
      obtain ⟨t, hleads, hdelivered, hoffered, hpub⟩ :=
        exists_delivered hc hc' hagreed hreach (by simp [start])
      exact ⟨t, hreach.leads hleads, hdelivered, hoffered, hpub (by simp)⟩
  | append_singleton messages data ih =>
      obtain ⟨s, hs, hdelivered, rfl, hpub⟩ :=
        ih fun data' hmem => hshort data' (List.mem_append_left _ hmem)
      obtain ⟨t, ht, hopen, hgone, -, hnext⟩ :=
        exists_offered hs hdelivered hpub htype (hshort data (by simp))
      obtain ⟨u, hleads, hdelivered', hoffered', hpub'⟩ :=
        exists_delivered hc hc' hagreed ht hopen
      exact ⟨u, ht.leads hleads, hdelivered', hoffered'.trans hnext, hpub' hgone⟩

/-! ## The session -/

/-- The subscriber waits for a frame, the publisher for data, and nothing is under way. -/
structure SessionState.Quiet (s : SessionState) : Prop where
  sub : ∃ dtype, s.sub = .frameSize dtype
  pub : s.pub = .ready
  toSub : s.toSub = []

theorem framesOf_eq_nil {ss : List Bytes} (h : framesOf ss = []) : ss = [] := by
  cases ss with
  | nil => rfl
  | cons s ss =>
      rw [framesOf_cons, tcpSendString_eq] at h
      cases h

/-- In every order of the calls the handler gets the messages in the order they were published,
and all of them once nothing is under way; and an end leaves the language only if one of the
headers is not in order. -/
theorem session_in_order (hc : Compatible sub pub) (hc' : Compatible pub sub)
    (h : Reaches (session spare spare' sub pub) Complete s) :
    s.handed <+: s.offered ∧ (s.Quiet → s.handed = s.offered) ∧
      (s.sub = .fault → ¬ (HeaderFits sub ∧ HeaderOk pub)) ∧
      (s.pub = .fault → ¬ (HeaderOk sub ∧ HeaderFits pub)) := by
  have hinv := sessionInv hc hc' h
  obtain ⟨pending, hoffered, hreq⟩ := hinv.requests
  refine ⟨⟨pending, hoffered.symm⟩, fun hquiet => ?_, fun hfault => ?_, fun hfault => ?_⟩
  · obtain ⟨⟨dtype, hsub⟩, hpub, htoSub⟩ := hquiet
    obtain ⟨-, -, -, -, hahead⟩ := hreq.at_turn (Or.inl hsub)
    have hnil : s.toSubAhead pub = [] := by
      simp [SessionState.toSubAhead, SessionState.pubMissing, hpub, htoSub]
    rw [hoffered, framesOf_eq_nil (hahead.symm.trans hnil), List.append_nil]
  · cases hreq with
    | unsent _ reader => simp [hfault, TcpRequestPc.Asks] at reader
    | size _ reader => simp [hfault, TcpRequestPc.Asks] at reader
    | body _ reader => simp [hfault] at reader
    | turn _ _ reader => simp [hfault] at reader
    | frame _ _ reader => simp [hfault] at reader
    | closed reader => simp [hfault] at reader
    | fault _ bad => exact bad
  · cases hinv.serves with
    | unsent _ reader => simp [hfault] at reader
    | size _ _ reader => simp [hfault] at reader
    | body _ _ reader => simp [hfault] at reader
    | accepted _ _ written => exact absurd hfault written.behind.2.2
    | refused _ bad => exact bad

abbrev chatterSession : System SessionState SessionAct :=
  session (fun _ => true) (fun _ => true) (chatter (str "/listener")) (chatter (str "/talker"))

theorem session_in_order_chatter :
    ∃ s, Reaches chatterSession Complete s ∧ s.offered = [str "hello", str "there"] ∧
      s.handed <+: [str "hello", str "there"] := by
  have hshort : ∀ data ∈ [str "hello", str "there"], Short data := by decide
  obtain ⟨s, hs, -, hoffered, -⟩ :=
    exists_session chatter_both.1 chatter_both.2 chatter_agreed (by decide) hshort
  have hprefix := (session_in_order chatter_both.1 chatter_both.2 hs).1
  rw [hoffered] at hprefix
  exact ⟨s, hs, hoffered, hprefix⟩

/-- Whatever calls came first, complete ones bring the handler all that was published, unless
the subscriber has left its loop. -/
theorem session_never_stuck (hc : Compatible sub pub) (hc' : Compatible pub sub)
    (hagreed : Agreed sub pub) (h : Reaches (session spare spare' sub pub) Complete s)
    (hclosed : s.sub ≠ .closed) :
    ∃ t, Leads (session spare spare' sub pub) Complete s t ∧ t.offered = s.offered ∧
      t.handed = s.offered := by
  obtain ⟨t, hleads, hdelivered, hoffered, -⟩ := exists_delivered hc hc' hagreed h hclosed
  exact ⟨t, hleads, hoffered, hdelivered.handed.trans hoffered⟩

/-- The talker has been given a message and has not sent anything of it. -/
theorem session_never_stuck_chatter :
    ∃ s t, Reaches chatterSession Complete s ∧ s.handed = [] ∧ t.handed = [str "hello"] ∧
      Leads chatterSession Complete s t := by
  have hnone : ∀ data ∈ ([] : List Bytes), Short data := by simp
  have hhello : Short (str "hello") := by decide
  obtain ⟨s, hs, hdelivered, hoffered, hpub⟩ :=
    exists_session chatter_both.1 chatter_both.2 chatter_agreed (by decide) hnone
  obtain ⟨t, ht, hopen, -, hhanded, hnext⟩ :=
    exists_offered hs hdelivered hpub (by decide) hhello
  obtain ⟨u, hleads, -, hall⟩ :=
    session_never_stuck chatter_both.1 chatter_both.2 chatter_agreed ht hopen
  rw [hnext, hoffered] at hall
  exact ⟨t, u, ht, hhanded.trans (hdelivered.handed.trans hoffered), hall, hleads⟩

/-- A message is ever handed over exactly between ends that accept each other, in nodes with
names that fit, of a topic of strings; and between such ends any messages can be. -/
theorem session_delivers_iff (hc : Compatible sub pub) (hc' : Compatible pub sub) :
    ((∃ s, Reaches (session spare spare' sub pub) Complete s ∧ s.handed ≠ []) ↔
        Agreed sub pub ∧ hash pub.type hashSize = typeString) ∧
      (Agreed sub pub → hash pub.type hashSize = typeString → ∀ messages : List Bytes,
        (∀ data ∈ messages, Short data) →
          ∃ s, Reaches (session spare spare' sub pub) Complete s ∧ s.handed = messages) := by
  have hany : Agreed sub pub → hash pub.type hashSize = typeString → ∀ messages : List Bytes,
      (∀ data ∈ messages, Short data) →
        ∃ s, Reaches (session spare spare' sub pub) Complete s ∧ s.handed = messages := by
    intro hagreed htype messages hshort
    obtain ⟨s, hs, hdelivered, hoffered, -⟩ := exists_session hc hc' hagreed htype hshort
    exact ⟨s, hs, hdelivered.handed.trans hoffered⟩
  refine ⟨⟨?_, ?_⟩, hany⟩
  · intro hsome
    obtain ⟨s, hs, hne⟩ := hsome
    have hinv := sessionInv hc hc' hs
    obtain ⟨hsub, hpub, hsubOk, hpubOk⟩ := hinv.handed hne
    obtain ⟨pending, hoffered, -⟩ := hinv.requests
    refine ⟨⟨hsub, hpub, hsubOk, hpubOk⟩, hinv.typed ?_⟩
    rw [hoffered]
    exact List.append_ne_nil_of_left_ne_nil hne pending
  · intro hboth
    have hshort : ∀ data ∈ [([] : Bytes)], Short data := by decide
    obtain ⟨s, hs, hhanded⟩ := hany hboth.1 hboth.2 [[]] hshort
    exact ⟨s, hs, by simp [hhanded]⟩

theorem session_delivers_iff_chatter :
    ∃ s, Reaches chatterSession Complete s ∧ s.handed = [str "hello", str "there"] :=
  (session_delivers_iff chatter_both.1 chatter_both.2).2 chatter_agreed (by decide) _ (by decide)

end STRos
