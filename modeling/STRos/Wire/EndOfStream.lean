import STRos.Wire.HeaderWriter
import STRos.Wire.Segmentation

/-! # Time-outs and the end of the stream

The loop of `tcp_ros_request` calls the handler after every second read that does
not fail, whatever the first one gave. So there is one call for every frame as
long as no size is missing; when one is, because of a time-out or because the
stream is at its end, only a failing second read keeps the handler from being
called once more.
-/

namespace STRos

open CString

/-! ## A peer that sends frames and closes -/

structure Line where
  rest : Bytes
  calls : Nat
  deriving DecidableEq

/-- All bytes asked for, none of them at the end of the stream, and -1 with
nothing consumed for the reads that time out. -/
def timedRecv (timeout : Nat → Bool) (n : Int) (line : Line) : Option Bytes × Line :=
  if timeout line.calls then (none, ⟨line.rest, line.calls + 1⟩)
  else (some (line.rest.take n.toNat), ⟨line.rest.drop n.toNat, line.calls + 1⟩)

def frameOf (payload : Bytes) : Bytes := le32 payload.length ++ payload

/-- The buffer a payload is read into, and what `ros_data` makes of it. -/
def decodePayload (dtype : Nat) (payload : Bytes) : C Bytes := do
  let buf ← receiveBuffer payload
  rosData buf dtype

/-- The turn read the size and the payload of the frame, and gave it to the handler. -/
def Turn.Delivers {σ : Type} (dtype : Nat) (t : Turn σ) (payload : Bytes) : Prop :=
  t.sizeGot = some (le32 payload.length) ∧ t.payload = some payload ∧
    ∃ data, decodePayload dtype payload = .ok data ∧ t.handed = some data

def handedTurns {σ : Type} (ts : List (Turn σ)) : List (Turn σ) :=
  ts.filter fun t => t.handed.isSome

/-- The calls of the handler are those for the first frames, one for each. -/
def OncePerFrame {σ : Type} (dtype : Nat) (frames : List Bytes) (run : C (List (Turn σ))) : Prop :=
  ∃ ts k, run = .ok ts ∧ List.Forall₂ (Turn.Delivers dtype) (handedTurns ts) (frames.take k)

/-- The payload fits the buffer, and for a string its first byte is not negative
as a character. -/
def Readable (dtype : Nat) (payload : Bytes) : Prop :=
  payload.length ≤ maxBuff ∧ (dtype = typeString → ∀ b ∈ payload.head?, b.toNat < 128)

/-- Whenever the first read of a turn gets no size, the second one times out; and
the frames that are read can be. A frame without payload ends the loop. -/
def CleanTurns (dtype : Nat) (timeout : Nat → Bool) : Nat → Nat → List Bytes → Prop
  | 0, _, _ => True
  | _ + 1, calls, [] => timeout (calls + 1) = true
  | turns + 1, calls, payload :: frames =>
      timeout (calls + 1) = true ∨
        timeout calls = false ∧ Readable dtype payload ∧
          (payload ≠ [] → CleanTurns dtype timeout turns (calls + 2) frames)

/-! ## One turn -/

/-- In a whole buffer only the sign of the first character matters. -/
theorem rosString_returns_iff {c : Byte} {raw : Bytes} (hraw : (c :: raw).length = maxBuff) :
    (∃ data, rosString (c :: raw) = .ok data) ↔ c.toNat < 128 := by
  have hmax : maxBuff = 1024 := rfl
  by_cases hc : c.toNat < 128
  · have hcopy : memcpyFrom (c :: raw) 4 (schar c) =
        .ok (((c :: raw).drop 4).take c.toNat) := by
      rw [schar_of_lt hc]
      exact memcpyFrom_ok (Or.inr (by omega))
    refine iff_of_true ⟨cstr (((c :: raw).drop 4).take c.toNat), ?_⟩ hc
    simp only [rosString, List.getElem?_cons_zero, hcopy]
    rfl
  · have hneg : schar c < 0 := by
      have := c.toNat_lt
      unfold schar
      split <;> omega
    have hcopy : memcpyFrom (c :: raw) 4 (schar c) = .error .negativeLength := by
      simp [memcpyFrom, hneg]
    refine iff_of_false ?_ hc
    rintro ⟨data, hdata⟩
    simp only [rosString, List.getElem?_cons_zero, hcopy] at hdata
    cases hdata

theorem decodePayload_returns_iff (dtype : Nat) (payload : Bytes) :
    (∃ data, decodePayload dtype payload = .ok data) ↔ Readable dtype payload := by
  unfold Readable decodePayload
  by_cases hfit : payload.length ≤ maxBuff
  · rw [receiveBuffer_ok hfit]
    simp only [bind, Except.bind, hfit, true_and, rosData]
    by_cases hdtype : dtype = typeString
    · simp only [hdtype, if_true, forall_const]
      cases payload with
      | nil =>
          have hzero : (∃ data, rosString (0 :: List.replicate 1023 0) = .ok data) :=
            (rosString_returns_iff (by rw [List.length_cons, List.length_replicate]; rfl)).mpr
              (by decide)
          exact iff_of_true hzero (by simp)
      | cons c payload =>
          have hwhole : (c :: (payload ++
              List.replicate (maxBuff - (c :: payload).length) 0)).length = maxBuff := by
            rw [List.length_cons, List.length_append, List.length_replicate]
            rw [List.length_cons] at hfit ⊢
            omega
          rw [List.cons_append, rosString_returns_iff hwhole]
          simp
    · simp [hdtype]
  · refine iff_of_false ?_ fun h => hfit h.1
    rintro ⟨data, hdata⟩
    obtain ⟨buf, hbuf, -⟩ := bind_eq_ok.mp hdata
    have := (memcpyTo_eq_ok hbuf).1
    simp only [List.length_replicate] at this
    omega

theorem timedRecv_calls (timeout : Nat → Bool) (n : Int) (line : Line) :
    (timedRecv timeout n line).2.calls = line.calls + 1 := by
  unfold timedRecv
  split <;> rfl

theorem timedRecv_none {timeout : Nat → Bool} {line : Line} (h : timeout line.calls = true)
    (n : Int) : (timedRecv timeout n line).1 = none := by
  simp [timedRecv, h]

theorem receiveTurn_timeout {timeout : Nat → Bool} (dtype : Nat) (size rest : Bytes) {calls : Nat}
    (h : timeout (calls + 1) = true) :
    ∃ t, receiveTurn (timedRecv timeout) dtype size ⟨rest, calls⟩ = .ok t ∧ t.handed = none ∧
      t.goesOn = false := by
  have hsecond : timeout (timedRecv timeout 4 ⟨rest, calls⟩).2.calls = true := by
    rw [timedRecv_calls]
    exact h
  unfold receiveTurn
  simp only
  split
  · exact ⟨_, rfl, rfl, rfl⟩
  · rename_i hpayload
    rw [timedRecv_none hsecond] at hpayload
    cases hpayload

/-- The second read of a turn does not fail: the handler is called, or decoding
leaves the language. -/
theorem receiveTurn_handed {timeout : Nat → Bool} {dtype : Nat} {size rest : Bytes} {calls : Nat}
    (h : timeout (calls + 1) = false) {t : Turn Line}
    (ht : receiveTurn (timedRecv timeout) dtype size ⟨rest, calls⟩ = .ok t) :
    t.handed.isSome := by
  obtain ⟨-, -, -, hpayload, -, hhanded⟩ := receiveTurn_ok ht
  refine hhanded ?_
  rw [hpayload, timedRecv, timedRecv_calls, h]
  rfl

theorem receiveTurn_frame {timeout : Nat → Bool} (dtype : Nat) {size payload : Bytes}
    (hsize : size.length = 4) (hlen : payload.length < 2147483648) (rest : Bytes) {calls : Nat}
    (h₁ : timeout calls = false) (h₂ : timeout (calls + 1) = false) :
    receiveTurn (timedRecv timeout) dtype size ⟨frameOf payload ++ rest, calls⟩ =
      (decodePayload dtype payload).map fun data =>
        ⟨some data, some (le32 payload.length), payload.length, some payload,
          le32 payload.length, ⟨rest, calls + 2⟩⟩ := by
  have hasked : sint32 (readLe32 (le32 payload.length)) = payload.length := by
    rw [readLe32_le32 (by omega), sint32_of_lt hlen]
  have hfirst : timedRecv timeout 4 ⟨frameOf payload ++ rest, calls⟩ =
      (some (le32 payload.length), ⟨payload ++ rest, calls + 1⟩) := by
    simp only [timedRecv, h₁, frameOf, List.append_assoc]
    rfl
  have hsecond : timedRecv timeout payload.length ⟨payload ++ rest, calls + 1⟩ =
      (some payload, ⟨rest, calls + 2⟩) := by
    simp [timedRecv, h₂]
  unfold receiveTurn
  simp only [hfirst, overwrite_full hsize, hasked, hsecond, decodePayload]
  cases receiveBuffer payload with
  | error e => rfl
  | ok buf =>
      simp only [bind, Except.bind]
      cases rosData buf dtype <;> rfl

/-! ## Runs -/

theorem receiveTurns_head {σ : Type} {recv : Int → σ → Option Bytes × σ} {dtype n : Nat}
    {size : Bytes} {sock : σ} {ts : List (Turn σ)}
    (h : receiveTurns recv dtype (n + 1) size sock = .ok ts) :
    ∃ t ts', receiveTurn recv dtype size sock = .ok t ∧ ts = t :: ts' := by
  obtain ⟨t, ht, h⟩ := bind_eq_ok.mp h
  refine ⟨t, ?_⟩
  split at h
  · obtain ⟨ts', -, h⟩ := bind_eq_ok.mp h
    cases h
    exact ⟨ts', ht, rfl⟩
  · cases h
    exact ⟨[], ht, rfl⟩

theorem handedTurns_cons {σ : Type} {t : Turn σ} (h : t.handed.isSome) (ts : List (Turn σ)) :
    handedTurns (t :: ts) = t :: handedTurns ts :=
  List.filter_cons_of_pos h

/-- A call of the handler without a size of its own is one too many. -/
theorem not_oncePerFrame {σ : Type} {dtype : Nat} {frames : List Bytes} {t : Turn σ}
    {ts : List (Turn σ)} (hhanded : t.handed.isSome)
    (hsize : ∀ n, t.sizeGot ≠ some (le32 n)) :
    ¬ OncePerFrame dtype frames (.ok (t :: ts)) := by
  rintro ⟨_, k, hts, hall⟩
  cases hts
  rw [handedTurns_cons hhanded] at hall
  cases hframes : frames.take k with
  | nil =>
      rw [hframes] at hall
      cases hall
  | cons payload rest =>
      rw [hframes] at hall
      cases hall with
      | cons hfirst _ => exact hsize _ hfirst.1

theorem oncePerFrame_cons {σ : Type} {dtype : Nat} {payload : Bytes} {frames : List Bytes}
    {t : Turn σ} (ht : t.Delivers dtype payload) (run : C (List (Turn σ))) :
    OncePerFrame dtype (payload :: frames) (run.map (t :: ·)) ↔ OncePerFrame dtype frames run := by
  have hhanded : t.handed.isSome := by
    obtain ⟨-, -, data, -, hdata⟩ := ht
    rw [hdata]
    rfl
  constructor
  · rintro ⟨ts, k, hts, hall⟩
    cases run with
    | error e => cases hts
    | ok ts' =>
        cases hts
        rw [show handedTurns _ = _ from handedTurns_cons hhanded ts'] at hall
        cases k with
        | zero => cases hall
        | succ k =>
            cases hall with
            | cons _ hrest => exact ⟨ts', k, rfl, hrest⟩
  · rintro ⟨ts, k, rfl, hall⟩
    refine ⟨t :: ts, k + 1, rfl, ?_⟩
    rw [handedTurns_cons hhanded, List.take_succ_cons]
    exact List.Forall₂.cons ht hall

theorem oncePerFrame_of_timeout {timeout : Nat → Bool} (dtype n : Nat) (size rest : Bytes)
    {calls : Nat} (h : timeout (calls + 1) = true) (frames : List Bytes) :
    OncePerFrame dtype frames
      (receiveTurns (timedRecv timeout) dtype (n + 1) size ⟨rest, calls⟩) := by
  obtain ⟨t, ht, hhanded, hgo⟩ := receiveTurn_timeout dtype size rest h
  rw [receiveTurns_last ht hgo]
  refine ⟨[t], 0, rfl, ?_⟩
  rw [handedTurns, List.filter_cons_of_neg (by simp [hhanded])]
  exact List.Forall₂.nil

/-- Without a size the handler is called one time too many, unless the second read
fails. -/
theorem not_oncePerFrame_of_noSize {timeout : Nat → Bool} {dtype n : Nat} {size rest : Bytes}
    {calls : Nat} (h : timeout (calls + 1) = false)
    (hsize : ∀ m, (timedRecv timeout 4 ⟨rest, calls⟩).1 ≠ some (le32 m)) (frames : List Bytes) :
    ¬ OncePerFrame dtype frames
      (receiveTurns (timedRecv timeout) dtype (n + 1) size ⟨rest, calls⟩) := by
  intro honce
  obtain ⟨ts, k, hts, hall⟩ := honce
  obtain ⟨t, ts', ht, rfl⟩ := receiveTurns_head hts
  have hsizeGot : ∀ m, t.sizeGot ≠ some (le32 m) := by
    intro m
    rw [(receiveTurn_ok ht).1]
    exact hsize m
  exact not_oncePerFrame (receiveTurn_handed h ht) hsizeGot ⟨t :: ts', k, rfl, hall⟩

/-- A turn that reads a frame is right when the frame can be read, and so are the
turns behind it, unless the frame is empty and ends the loop. -/
theorem oncePerFrame_frame {timeout : Nat → Bool} (dtype turns : Nat) {size payload : Bytes}
    (hsize : size.length = 4) (hlen : payload.length < 2147483648) {calls : Nat}
    (hfirst : timeout calls = false) (hlast : timeout (calls + 1) = false) (frames : List Bytes) :
    OncePerFrame dtype (payload :: frames)
        (receiveTurns (timedRecv timeout) dtype (turns + 1) size
          ⟨(payload :: frames).flatMap frameOf, calls⟩) ↔
      Readable dtype payload ∧ (payload ≠ [] → OncePerFrame dtype frames
        (receiveTurns (timedRecv timeout) dtype turns (le32 payload.length)
          ⟨frames.flatMap frameOf, calls + 2⟩)) := by
  have hturn := receiveTurn_frame dtype hsize hlen (frames.flatMap frameOf) hfirst hlast
  rw [← decodePayload_returns_iff, List.flatMap_cons]
  cases hdata : decodePayload dtype payload with
  | error e =>
      rw [hdata] at hturn
      refine iff_of_false ?_ (by simp)
      rintro ⟨ts, k, hts, -⟩
      obtain ⟨t, -, ht, -⟩ := receiveTurns_head hts
      rw [hturn] at ht
      cases ht
  | ok data =>
      rw [hdata] at hturn
      have hdelivers : (⟨some data, some (le32 payload.length), payload.length, some payload,
          le32 payload.length, ⟨frames.flatMap frameOf, calls + 2⟩⟩ : Turn Line).Delivers dtype
            payload := ⟨rfl, rfl, data, hdata, rfl⟩
      simp only [Except.ok.injEq, exists_eq', true_and]
      by_cases hempty : payload = []
      · refine iff_of_true ?_ fun hne => absurd hempty hne
        rw [receiveTurns_last hturn (by rw [hempty]; rfl)]
        exact (oncePerFrame_cons hdelivers (.ok [])).mpr ⟨[], 0, rfl, List.Forall₂.nil⟩
      · have hgo : ∀ t : Turn Line, t.payload = some payload → t.goesOn = true := by
          intro t ht
          obtain ⟨b, bs, rfl⟩ := List.exists_cons_of_ne_nil hempty
          rw [Turn.goesOn, ht]
        rw [receiveTurns_succ hturn (hgo _ rfl), oncePerFrame_cons hdelivers]
        exact ⟨fun h _ => h, fun h => h hempty⟩

/-- From a peer that sends whole frames and closes, the loop calls the handler once
for each frame it reads and not otherwise exactly if it is not disturbed. -/
theorem oncePerFrame_iff (dtype : Nat) (timeout : Nat → Bool) (turns calls : Nat) {size : Bytes}
    (hsize : size.length = 4) {frames : List Bytes}
    (hframes : ∀ payload ∈ frames, payload.length < 2147483648) :
    OncePerFrame dtype frames
        (receiveTurns (timedRecv timeout) dtype turns size ⟨frames.flatMap frameOf, calls⟩) ↔
      CleanTurns dtype timeout turns calls frames := by
  induction turns generalizing size calls frames with
  | zero =>
      refine iff_of_true ⟨[], 0, rfl, List.Forall₂.nil⟩ ?_
      cases frames <;> trivial
  | succ turns ih =>
      by_cases hlast : timeout (calls + 1) = true
      · refine iff_of_true (oncePerFrame_of_timeout dtype turns size _ hlast frames) ?_
        cases frames with
        | nil => exact hlast
        | cons payload frames => exact Or.inl hlast
      · rw [Bool.not_eq_true] at hlast
        cases frames with
        | nil =>
            refine iff_of_false (not_oncePerFrame_of_noSize hlast ?_ [])
              (by simp [CleanTurns, hlast])
            intro m
            unfold timedRecv
            split <;> simp [le32]
        | cons payload frames =>
            by_cases hfirst : timeout calls = true
            · refine iff_of_false (not_oncePerFrame_of_noSize hlast ?_ _) ?_
              · intro m
                simp [timedRecv, hfirst]
              · simp [CleanTurns, hlast, hfirst]
            · rw [Bool.not_eq_true] at hfirst
              have hlen := hframes payload List.mem_cons_self
              have hrest : ∀ p ∈ frames, p.length < 2147483648 :=
                fun p hp => hframes p (List.mem_cons_of_mem _ hp)
              rw [oncePerFrame_frame dtype turns hsize hlen hfirst hlast frames,
                ih (calls + 2) (le32_length _) hrest]
              simp only [CleanTurns, hlast, hfirst, Bool.false_eq_true, false_or, true_and]

def helloPayload : Bytes := le32 5 ++ str "hello"

theorem oncePerFrame_hello :
    OncePerFrame typeString [helloPayload]
        (receiveTurns (timedRecv fun call => call = 3) typeString 2 (le32 0)
          ⟨[helloPayload].flatMap frameOf, 0⟩) ↔
      CleanTurns typeString (fun call => call = 3) 2 0 [helloPayload] :=
  oncePerFrame_iff typeString (fun call => call = 3) 2 0 (le32_length 0) (by decide)

theorem decodePayload_hello : decodePayload typeString helloPayload = .ok (str "hello") := by
  have hfit : helloPayload.length ≤ maxBuff := by decide
  simp only [decodePayload, receiveBuffer_ok hfit, bind, Except.bind, rosData, if_true]
  exact rosString_of_lt (s := str "hello") (by decide) (by decide) _

/-- One frame, no time-outs, and the peer closes: the handler is called for the end
of the stream as well. -/
theorem handler_calledAtEnd :
    ¬ OncePerFrame typeString [helloPayload]
      (receiveTurns (timedRecv fun _ => false) typeString 2 (le32 0)
        ⟨[helloPayload].flatMap frameOf, 0⟩) := by
  have hturn : receiveTurn (timedRecv fun _ => false) typeString (le32 0)
        ⟨frameOf helloPayload ++ [], 0⟩ =
      .ok ⟨some (str "hello"), some (le32 helloPayload.length), helloPayload.length,
        some helloPayload, le32 helloPayload.length, ⟨[], 2⟩⟩ := by
    rw [receiveTurn_frame typeString (le32_length 0) (by decide) [] rfl rfl, decodePayload_hello]
    rfl
  have hstream : [helloPayload].flatMap frameOf = frameOf helloPayload ++ [] := rfl
  rw [hstream, receiveTurns_succ hturn rfl,
    oncePerFrame_cons ⟨rfl, rfl, _, decodePayload_hello, rfl⟩]
  have hnoSize : ∀ m, (timedRecv (fun _ => false) 4 ⟨[], 2⟩).1 ≠ some (le32 m) := by
    intro m
    simp [timedRecv, le32]
  exact not_oncePerFrame_of_noSize rfl hnoSize []

end STRos
