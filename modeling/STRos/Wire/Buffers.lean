import STRos.Model.Connection
import STRos.Wire.HeaderWriter
import STRos.Wire.Segmentation

/-! # What a peer can make of the buffers

A receive into a buffer is good when its length has just been received and the
buffer has room for it. The code checks neither, so both are up to the peer; for
the connection header they are up to the names of the node.
-/

namespace STRos

open CString

variable {σ : Type}

/-- The length came whole with the read before, and fits the buffer. -/
def BufRecv.Good (r : BufRecv) : Prop :=
  ∃ word, r.sizeGot = some word ∧ word.length = 4 ∧ r.asked = sint32 (readLe32 word) ∧
    0 ≤ r.asked ∧ r.asked ≤ maxBuff

/-- All receives are good, and the header writer stayed in its buffer. -/
def BufferUse.InBounds (u : BufferUse) : Prop :=
  (∀ r ∈ u.recvs, r.Good) ∧ ∀ h, u.header = some h → ∃ out, h = .ok out

/-! ## What is asked of the peer and of the names -/

/-- The peer sent a whole word, with a value between 0 and `MAX_BUFF`. -/
def SizeWord (word : Bytes) : Prop :=
  word.length = 4 ∧ 0 ≤ sint32 (readLe32 word) ∧ sint32 (readLe32 word) ≤ maxBuff

instance (word : Bytes) : Decidable (SizeWord word) := inferInstanceAs (Decidable (_ ∧ _ ∧ _))

/-- The names have room in a connection header of `MAX_BUFF` bytes. -/
def NamesFit (tp : Topic) : Prop :=
  tp.callerid.length + tp.topic.length + tp.type.length ≤ 912

/-- The connection header has room in `MAX_BUFF` bytes. -/
def HeaderFits (tp : Topic) : Prop :=
  (sFormat (calleridField tp)).length + (sFormat (topicField tp)).length +
    (sFormat (typeField tp)).length ≤ 932

def LoopSizes (recv : Int → σ → Option Bytes × σ) (dtype : Nat) : Nat → Bytes → σ → Prop
  | 0, _, _ => True
  | turns + 1, size, sock =>
      (∃ word, (recv 4 sock).1 = some word ∧ SizeWord word) ∧
        ∀ t, receiveTurn recv dtype size sock = .ok t → t.goesOn = true →
          LoopSizes recv dtype turns t.size t.sock

/-- If the peer answers the header, it does so with a good size, and if its own
header is accepted, the sizes in the loop are good as well. -/
def RequestSizes (recv : Int → σ → Option Bytes × σ) (turns : Nat) (spare : Nat → Bool)
    (sub : Topic) (buf : Bytes) (sock : σ) : Prop :=
  match recv 4 sock with
  | (some (b :: bs), sock) =>
      SizeWord (b :: bs) ∧
        match recv (sint32 (readLe32 (b :: bs))) sock with
        | (some (c :: cs), sock) => ∀ dtype, dtype ≠ 0 →
            acceptHeader spare sub buf (c :: cs) (sint32 (readLe32 (b :: bs))) = .ok dtype →
              LoopSizes recv dtype turns (b :: bs) sock
        | _ => True
  | _ => True

/-- Unless the first read fails, it gives a good size, and if the header of the peer
is accepted, the answer has room. -/
def PublishSizes (recv : Int → σ → Option Bytes × σ) (spare : Nat → Bool) (pub : Topic)
    (buf : Bytes) (sock : σ) : Prop :=
  match recv 4 sock with
  | (some word, sock) =>
      SizeWord word ∧
        match recv (sint32 (readLe32 word)) sock with
        | (some (c :: cs), _) => ∀ dtype, dtype ≠ 0 →
            acceptHeader spare pub buf (c :: cs) (sint32 (readLe32 word)) = .ok dtype →
              HeaderFits pub
        | _ => True
  | _ => True

/-! ## Sizes -/

theorem overwrite_word {size word : Bytes} (hsize : size.length = 4) (hword : word.length = 4) :
    overwrite size (some word) = word := by
  rw [overwrite, hword, List.drop_of_length_le (by omega), List.append_nil]

theorem good_iff {size : Bytes} (hsize : size.length = 4) (got : Option Bytes) :
    (⟨got, sint32 (readLe32 (overwrite size got))⟩ : BufRecv).Good ↔
      ∃ word, got = some word ∧ SizeWord word := by
  constructor
  · rintro ⟨word, rfl, hlen, -, hmin, hmax⟩
    simp only [overwrite_word hsize hlen] at hmin hmax
    exact ⟨word, rfl, hlen, hmin, hmax⟩
  · rintro ⟨word, rfl, hlen, hmin, hmax⟩
    simp only [overwrite_word hsize hlen]
    exact ⟨word, rfl, hlen, rfl, hmin, hmax⟩

/-- The size a turn leaves, once its word was good. -/
theorem receiveTurn_size {recv : Int → σ → Option Bytes × σ} {dtype : Nat} {size word : Bytes}
    {sock : σ} {t : Turn σ} (hsize : size.length = 4) (hword : (recv 4 sock).1 = some word)
    (hlen : word.length = 4) (h : receiveTurn recv dtype size sock = .ok t) : t.size = word := by
  obtain ⟨-, htsize, -⟩ := receiveTurn_ok h
  rw [htsize, hword, overwrite_word hsize hlen]

theorem loopRecvs_good_iff (recv : Int → σ → Option Bytes × σ) (dtype turns : Nat) {size : Bytes}
    (hsize : size.length = 4) (sock : σ) :
    (∀ r ∈ loopRecvs recv dtype turns size sock, r.Good) ↔
      LoopSizes recv dtype turns size sock := by
  induction turns generalizing size sock with
  | zero => simp [loopRecvs, LoopSizes]
  | succ turns ih =>
      rw [loopRecvs, LoopSizes, List.forall_mem_cons, good_iff hsize]
      refine and_congr_right fun ⟨word, hword, hlen, _⟩ => ?_
      cases hturn : receiveTurn recv dtype size sock with
      | error e => simp
      | ok t =>
          have htsize := receiveTurn_size hsize hword hlen hturn
          simp only [Except.ok.injEq, forall_eq']
          by_cases hgo : t.goesOn = true
          · simp only [hgo, if_true, forall_const]
            exact ih (by rw [htsize, hlen]) t.sock
          · simp [hgo]

/-! ## Headers -/

theorem headerBody_length (tp : Topic) :
    (headerBody tp).length = (sFormat (calleridField tp)).length +
      (sFormat (topicField tp)).length + (sFormat (typeField tp)).length + 88 := by
  have hdef : messageDefinitionField.length = 29 := by decide
  rw [headerBody_eq]
  simp only [List.length_append, lenPrefixed_length, hdef, calleridBlock, topicBlock, typeBlock,
    md5sumField_length]
  omega

/-- Of names that a field can be printed from, the header fits exactly if the names do. -/
theorem headerFits_iff_namesFit {tp : Topic} (hcallerid : tp.callerid.length < 2147483638)
    (htopic : tp.topic.length < 2147483641) (htype : tp.type.length < 2147483642) :
    HeaderFits tp ↔ NamesFit tp := by
  have hlen₁ := calleridField_length tp
  have hlen₂ := topicField_length tp
  have hlen₃ := typeField_length tp
  rw [HeaderFits, NamesFit, sFormat_fits (by omega), sFormat_fits (by omega),
    sFormat_fits (by omega)]
  omega

/-- The header writer stays in its buffer exactly when the header fits. -/
theorem genTcpHeaderFor_inBounds_iff (tp : Topic) {buf : Bytes} (hbuf : buf.length = maxBuff) :
    (∃ out, genTcpHeaderFor tp buf = .ok out) ↔ HeaderFits tp := by
  have hlen := headerBody_length tp
  have hmax : maxBuff = 1024 := rfl
  constructor
  · rintro ⟨out, hout⟩
    have hfits := genTcpHeaderFor_fits hout
    unfold HeaderFits
    omega
  · intro hfits
    unfold HeaderFits at hfits
    exact ⟨_, genTcpHeaderFor_ok tp (by omega)⟩

/-! ## The two exchanges -/

theorem inBounds_error (e : Fault) (rs : List BufRecv) :
    ¬ (⟨rs, some (.error e)⟩ : BufferUse).InBounds := by
  rintro ⟨-, hheader⟩
  obtain ⟨out, hout⟩ := hheader _ rfl
  cases hout

theorem inBounds_ok (out : Bytes × Nat) (rs : List BufRecv) :
    (⟨rs, some (.ok out)⟩ : BufferUse).InBounds ↔ ∀ r ∈ rs, r.Good := by
  refine and_iff_left fun h hh => ?_
  cases hh
  exact ⟨out, rfl⟩

theorem inBounds_none (rs : List BufRecv) :
    (⟨rs, none⟩ : BufferUse).InBounds ↔ ∀ r ∈ rs, r.Good :=
  and_iff_left fun _ h => nomatch h

theorem inBounds_single {size word : Bytes} (hsize : size.length = 4)
    (header : Option (C (Bytes × Nat))) :
    (⟨[⟨some word, sint32 (readLe32 (overwrite size (some word)))⟩], header⟩ :
        BufferUse).InBounds ↔
      SizeWord word ∧ ∀ h, header = some h → ∃ out, h = .ok out := by
  unfold BufferUse.InBounds
  simp only [List.forall_mem_singleton, good_iff hsize, Option.some.injEq, exists_eq_left']

theorem requestRecvs_good_iff (recv : Int → σ → Option Bytes × σ) (turns : Nat)
    (spare : Nat → Bool) (sub : Topic) (buf : Bytes) {size : Bytes} (hsize : size.length = 4)
    (sock : σ) :
    (∀ r ∈ requestRecvs recv turns spare sub buf size sock, r.Good) ↔
      RequestSizes recv turns spare sub buf sock := by
  unfold requestRecvs RequestSizes
  rcases recv 4 sock with ⟨_ | ⟨_ | ⟨b, bs⟩⟩, sock⟩
  · simp
  · simp
  · simp only [List.forall_mem_cons, good_iff hsize, Option.some.injEq, exists_eq_left']
    refine and_congr_right fun hword => ?_
    rw [overwrite_word hsize hword.1]
    rcases recv (sint32 (readLe32 (b :: bs))) sock with ⟨_ | ⟨_ | ⟨c, cs⟩⟩, sock⟩
    · simp
    · simp
    · simp only
      cases acceptHeader spare sub buf (c :: cs) (sint32 (readLe32 (b :: bs))) with
      | error e => simp
      | ok dtype =>
          simp only [Except.ok.injEq]
          by_cases hdtype : dtype = 0
          · rw [if_pos hdtype]
            exact iff_of_true (by simp) fun _ hne hd => absurd (hd ▸ hdtype) hne
          · rw [if_neg hdtype, loopRecvs_good_iff recv dtype turns hword.1]
            exact ⟨fun h _ _ hd => hd ▸ h, fun h => h dtype hdtype rfl⟩

theorem tcpRosRequest_inBounds_iff (recv : Int → σ → Option Bytes × σ) (turns : Nat)
    (spare : Nat → Bool) (sub : Topic) {buf : Bytes} (hbuf : buf.length = maxBuff)
    (connected : Bool) (sock : σ) :
    (tcpRosRequest recv turns spare sub buf connected sock).InBounds ↔
      HeaderFits sub ∧ ∀ buf' n, genTcpHeaderFor sub buf = .ok (buf', n) → connected = true →
        RequestSizes recv turns spare sub buf' sock := by
  rw [← genTcpHeaderFor_inBounds_iff sub hbuf, tcpRosRequest]
  cases hgen : genTcpHeaderFor sub buf with
  | error e => exact iff_of_false (inBounds_error e []) (by simp)
  | ok out =>
      obtain ⟨buf', n⟩ := out
      have hsizes := requestRecvs_good_iff recv turns spare sub buf' (le32_length n) sock
      simp only [inBounds_ok, Except.ok.injEq, exists_eq', true_and, Prod.mk.injEq, and_imp]
      cases connected with
      | false => simp
      | true =>
          simp only [if_true, hsizes, forall_const]
          exact ⟨fun h _ _ hbuf' _ => hbuf' ▸ h, fun h => h buf' n rfl rfl⟩

theorem publishHeader_inBounds_iff (recv : Int → σ → Option Bytes × σ) (spare : Nat → Bool)
    (pub : Topic) (buf : Bytes) {size : Bytes} (hsize : size.length = 4) (sock : σ) :
    (publishHeader recv spare pub buf size sock).InBounds ↔
      PublishSizes recv spare pub buf sock := by
  unfold publishHeader PublishSizes
  rcases recv 4 sock with ⟨_ | word, sock⟩
  · simp [inBounds_none]
  · simp only [inBounds_single hsize]
    refine and_congr_right fun hword => ?_
    rw [overwrite_word hsize hword.1]
    rcases recv (sint32 (readLe32 word)) sock with ⟨_ | ⟨_ | ⟨c, cs⟩⟩, sock⟩
    · simp
    · simp
    · simp only
      have hmax : (List.replicate maxBuff (0 : Byte)).length = maxBuff := List.length_replicate
      cases acceptHeader spare pub buf (c :: cs) (sint32 (readLe32 word)) with
      | error e => simp
      | ok dtype =>
          simp only [Except.ok.injEq]
          by_cases hdtype : dtype = 0
          · rw [if_pos hdtype]
            exact iff_of_true (by simp) fun _ hne hd => absurd (hd ▸ hdtype) hne
          · rw [if_neg hdtype, ← genTcpHeaderFor_inBounds_iff pub hmax]
            simp only [Option.some.injEq, forall_eq']
            exact ⟨fun h _ _ _ => h, fun h => h dtype hdtype rfl⟩

/-- The buffers of both ends of a connection are safe exactly from peers with good
sizes, in a node with names that fit. -/
theorem buffers_inBounds_iff (recv : Int → σ → Option Bytes × σ) (turns : Nat)
    (spare : Nat → Bool) (tp : Topic) {buf size : Bytes} (hbuf : buf.length = maxBuff)
    (hsize : size.length = 4) (connected : Bool)
    (sock : σ) :
    ((tcpRosRequest recv turns spare tp buf connected sock).InBounds ↔
        HeaderFits tp ∧ ∀ buf' n, genTcpHeaderFor tp buf = .ok (buf', n) → connected = true →
          RequestSizes recv turns spare tp buf' sock) ∧
      ((publishHeader recv spare tp buf size sock).InBounds ↔
        PublishSizes recv spare tp buf sock) :=
  ⟨tcpRosRequest_inBounds_iff recv turns spare tp hbuf connected sock,
    publishHeader_inBounds_iff recv spare tp buf hsize sock⟩

def streamRecv (n : Int) (sock : Bytes) : Option Bytes × Bytes :=
  (some (sock.take n.toNat), sock.drop n.toNat)

def chatterTopic : Topic where
  callerid := str "talker"
  topic := str "chatter"
  type := str "std_msgs/String"
  uri := none
  port := 0
  status := .active

theorem streamRecv_append {bs : Bytes} {n : Nat} (hbs : bs.length = n) (rest : Bytes) :
    streamRecv n (bs ++ rest) = (some bs, rest) := by
  rw [streamRecv, Int.toNat_natCast, List.take_left' hbs, List.drop_left' hbs]

/-- A turn on a frame that has come whole leaves its size and what follows it. -/
theorem receiveTurn_stream {dtype : Nat} {size payload rest : Bytes} {t : Turn Bytes}
    (hsize : size.length = 4) (hlen : payload.length < 2147483648)
    (h : receiveTurn streamRecv dtype size (le32 payload.length ++ (payload ++ rest)) = .ok t) :
    t.size = le32 payload.length ∧ t.payload = some payload ∧ t.sock = rest := by
  have hword : streamRecv 4 (le32 payload.length ++ (payload ++ rest)) =
      (some (le32 payload.length), payload ++ rest) :=
    streamRecv_append (n := 4) (le32_length _) _
  obtain ⟨-, htsize, hasked, hpayload, hsock, -⟩ := receiveTurn_ok h
  rw [hword] at htsize hpayload hsock
  rw [overwrite_word hsize (le32_length _)] at htsize
  rw [htsize, readLe32_le32 (by omega), sint32_of_lt hlen] at hasked
  rw [hasked, streamRecv_append rfl rest] at hpayload hsock
  exact ⟨htsize, hpayload, hsock⟩

def talkerStream : Bytes :=
  le32 (headerBody chatterTopic).length ++ (headerBody chatterTopic ++
    (tcpSendString (str "hello") ++ le32 0))

theorem loopSizes_talker (dtype : Nat) {size : Bytes} (hsize : size.length = 4) :
    LoopSizes streamRecv dtype 3 size (tcpSendString (str "hello") ++ le32 0) := by
  have hframe : tcpSendString (str "hello") ++ le32 0 =
      le32 (le32 5 ++ str "hello").length ++ ((le32 5 ++ str "hello") ++ le32 0) := by decide
  refine ⟨⟨le32 9, by decide, by decide⟩, fun t ht _ => ?_⟩
  rw [hframe] at ht
  obtain ⟨htsize, -, hsock⟩ := receiveTurn_stream hsize (by decide) ht
  rw [htsize, hsock]
  refine ⟨⟨le32 0, by decide, by decide⟩, fun t' ht' hgo => ?_⟩
  have hlast : le32 0 = le32 ([] : Bytes).length ++ ([] ++ []) := by decide
  rw [hlast] at ht'
  -- The second frame has no payload, so the loop ends with it.
  obtain ⟨-, hpayload, -⟩ := receiveTurn_stream (le32_length _) (by decide) ht'
  rw [Turn.goesOn, hpayload] at hgo
  cases hgo

theorem chatterTopic_body : (headerBody chatterTopic).length = 136 := by
  rw [headerBody_length]
  rfl

theorem buffers_inBounds_chatter :
    (tcpRosRequest streamRecv 3 (fun _ => true) chatterTopic (List.replicate maxBuff 0) true
        talkerStream).InBounds ∧
      (publishHeader streamRecv (fun _ => true) chatterTopic (List.replicate maxBuff 0)
        [0, 0, 0, 0] talkerStream).InBounds := by
  obtain ⟨hrequest, hpublish⟩ := @buffers_inBounds_iff Bytes streamRecv 3 (fun _ => true)
    chatterTopic (List.replicate maxBuff 0) [0, 0, 0, 0] List.length_replicate rfl true
    talkerStream
  have hnames : HeaderFits chatterTopic := by
    unfold HeaderFits
    decide
  have hword : SizeWord (le32 (headerBody chatterTopic).length) := by
    rw [chatterTopic_body]
    decide
  have hread : streamRecv 4 talkerStream = (some (le32 (headerBody chatterTopic).length),
      headerBody chatterTopic ++ (tcpSendString (str "hello") ++ le32 0)) :=
    streamRecv_append (n := 4) (le32_length _) _
  have hasked : sint32 (readLe32 (le32 (headerBody chatterTopic).length)) =
      (headerBody chatterTopic).length := by
    rw [chatterTopic_body]
    decide
  have hbody := streamRecv_append (n := (headerBody chatterTopic).length) rfl
    (tcpSendString (str "hello") ++ le32 0)
  obtain ⟨c, cs, hcs⟩ : ∃ c cs, headerBody chatterTopic = c :: cs :=
    List.exists_cons_of_length_pos (by rw [chatterTopic_body]; decide)
  constructor
  · refine hrequest.mpr ⟨hnames, fun buf' n _ _ => ?_⟩
    obtain ⟨b, bs, hbs⟩ : ∃ b bs, le32 (headerBody chatterTopic).length = b :: bs :=
      List.exists_cons_of_length_pos (by rw [le32_length]; decide)
    rw [hbs] at hread hasked hword
    simp only [RequestSizes, hread, hasked, hbody]
    rw [hcs]
    exact ⟨hword, fun dtype _ _ => loopSizes_talker dtype hword.1⟩
  · refine hpublish.mpr ?_
    simp only [PublishSizes, hread, hasked, hbody]
    rw [hcs] at hword ⊢
    exact ⟨hword, fun _ _ _ => hnames⟩

/-- A peer that announces a header of 2000 bytes, and a node with a name of 1000. -/
theorem buffers_overrun :
    (¬ (publishHeader streamRecv (fun _ => true) chatterTopic (List.replicate maxBuff 0)
        [0, 0, 0, 0] (le32 2000)).InBounds) ∧
      ¬ (tcpRosRequest streamRecv 0 (fun _ => true)
        { chatterTopic with callerid := List.replicate 1000 97 } (List.replicate maxBuff 0) true
        []).InBounds := by
  constructor
  · intro h
    have hsizes := (publishHeader_inBounds_iff streamRecv _ chatterTopic _ rfl _).mp h
    exact absurd hsizes.1 (by decide)
  · intro h
    have hnames :=
      ((tcpRosRequest_inBounds_iff streamRecv 0 _ _ List.length_replicate _ _).mp h).1
    rw [headerFits_iff_namesFit (by rw [List.length_replicate]; decide) (by decide) (by decide)]
      at hnames
    simp only [NamesFit, List.length_replicate] at hnames
    omega

end STRos
