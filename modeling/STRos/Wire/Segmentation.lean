import STRos.Wire.StringFrame

/-! # Frames on a segmented stream

TCP may hand out any part of what was asked for. The receive loop issues one
`recv` for the length word and one for the payload and never looks at the
counts, so it stays at a frame boundary exactly when no read is short.
-/

namespace STRos

open CString

/-! ## The stream and what has arrived -/

/-- A connected socket: the bytes still in the stream and the number of reads
issued so far. -/
structure Link where
  stream : Bytes
  calls : Nat
  deriving DecidableEq, Repr

/-- The number of bytes a read of `n` may return at most. A negative size is
converted to a huge unsigned one. -/
def Link.limit (l : Link) (n : Int) : Nat :=
  if n < 0 then l.stream.length else min n.toNat l.stream.length

/-- The count of the next read: `cut` proposes one for every read of the run,
and any count from 1 to the limit is possible. -/
def Link.count (cut : Nat → Nat) (l : Link) (n : Int) : Nat :=
  if l.limit n = 0 then 0 else max 1 (min (cut l.calls) (l.limit n))

def segmentedRecv (cut : Nat → Nat) (n : Int) (l : Link) : Option Bytes × Link :=
  (some (l.stream.take (l.count cut n)), ⟨l.stream.drop (l.count cut n), l.calls + 1⟩)

def framesOf (ss : List Bytes) : Bytes := (ss.map tcpSendString).flatten

/-- The strings whose frames lie within the first `n` bytes of the stream. -/
def arrived : List Bytes → Nat → List Bytes
  | [], _ => []
  | s :: ss, n =>
      if (tcpSendString s).length ≤ n then s :: arrived ss (n - (tcpSendString s).length) else []

variable {σ : Type}

/-- A read of this turn found the stream at its end. -/
def Turn.sawEnd (t : Turn σ) : Bool :=
  t.sizeGot = some [] || (t.asked ≠ 0 && t.payload = some [])

def Turn.bytesRead (t : Turn σ) : Nat := (t.sizeGot.getD []).length + (t.payload.getD []).length

def consumed (ts : List (Turn σ)) : Nat := (ts.map Turn.bytesRead).sum

/-- From a socket at a frame boundary: after any number of turns, none of which
met the end of the stream, the handler has got the strings that have arrived. -/
def DeliversFrom (ss : List Bytes) (cut : Nat → Nat) (calls : Nat) (size : Bytes) : Prop :=
  ∀ n, ∃ ts, receiveTurns (segmentedRecv cut) typeString n size ⟨framesOf ss, calls⟩ = .ok ts ∧
    ((∀ t ∈ ts, t.sawEnd = false) → callbacks ts = arrived ss (consumed ts))

/-- Delivery is right whatever the handshake left in the variable `size`. -/
def Delivers (ss : List Bytes) (cut : Nat → Nat) : Prop :=
  ∀ size : Bytes, size.length = 4 → DeliversFrom ss cut 0 size

/-- Every read of a frame, counted from `calls`, returns all it was asked for. -/
def FullReads (cut : Nat → Nat) : List Bytes → Nat → Prop
  | [], _ => True
  | s :: ss, calls =>
      4 ≤ cut calls ∧ s.length + 4 ≤ cut (calls + 1) ∧ FullReads cut ss (calls + 2)

theorem framesOf_cons (s : Bytes) (ss : List Bytes) :
    framesOf (s :: ss) = tcpSendString s ++ framesOf ss := by
  simp [framesOf]

theorem arrived_zero (ss : List Bytes) : arrived ss 0 = [] := by
  cases ss with
  | nil => rfl
  | cons s ss => simp [arrived, tcpSendString_eq]

theorem arrived_frame (s : Bytes) (ss : List Bytes) (n : Nat) :
    arrived (s :: ss) ((tcpSendString s).length + n) = s :: arrived ss n := by
  simp [arrived]

/-! ## One turn -/

theorem receiveTurn_ok {recv : Int → σ → Option Bytes × σ} {dtype : Nat} {size : Bytes}
    {sock : σ} {t : Turn σ} (h : receiveTurn recv dtype size sock = .ok t) :
    t.sizeGot = (recv 4 sock).1 ∧
    t.size = overwrite size (recv 4 sock).1 ∧
    t.asked = sint32 (readLe32 t.size) ∧
    t.payload = (recv t.asked (recv 4 sock).2).1 ∧
    t.sock = (recv t.asked (recv 4 sock).2).2 ∧
    (t.payload.isSome → t.handed.isSome) := by
  unfold receiveTurn at h
  simp only at h
  split at h
  · rename_i hp
    cases h
    simp [hp]
  · rename_i bs hp
    obtain ⟨buf, -, h⟩ := bind_eq_ok.mp h
    obtain ⟨data, -, h⟩ := bind_eq_ok.mp h
    cases h
    simp [hp]

theorem count_of_le {cut : Nat → Nat} {l : Link} {n : Nat} (hn : 0 < n)
    (hle : n ≤ l.stream.length) : l.count cut n = max 1 (min (cut l.calls) n) := by
  have hl : l.limit n = n := by
    simp only [Link.limit, Int.toNat_natCast]
    split <;> omega
  simp only [Link.count, hl]
  split <;> omega

theorem segmentedRecv_full (cut : Nat → Nat) {bs : Bytes} (rest : Bytes) {calls n : Nat}
    (hbs : bs.length = n) (hn : 0 < n) (hcut : n ≤ cut calls) :
    segmentedRecv cut n ⟨bs ++ rest, calls⟩ = (some bs, ⟨rest, calls + 1⟩) := by
  have hcount : Link.count cut ⟨bs ++ rest, calls⟩ n = n := by
    rw [count_of_le hn (by simp [hbs])]
    simp only
    omega
  simp only [segmentedRecv, hcount]
  subst hbs
  simp

/-- The length word of a short frame is its low byte and three NULs, so a
short read of it leaves the right number in a variable with the same NULs. -/
theorem overwrite_prefix {m k : Nat} (hm : m < 256) (hk : 1 ≤ k) (x : Byte) :
    overwrite [x, 0, 0, 0] (some ((le32 m).take k)) = le32 m := by
  rw [le32_of_lt hm]
  match k, hk with
  | 1, _ => rfl
  | 2, _ => rfl
  | 3, _ => rfl
  | k + 4, _ => simp [overwrite]

theorem overwrite_full {size : Bytes} (hsize : size.length = 4) (m : Nat) :
    overwrite size (some (le32 m)) = le32 m := by
  simp [overwrite, hsize]

theorem asked_eq {m : Nat} (hm : m < 256) : sint32 (readLe32 (le32 m)) = m := by
  rw [readLe32_le32 (by omega), sint32_of_lt (by omega)]

theorem receiveTurn_full {cut : Nat → Nat} {calls : Nat} {s size : Bytes} (rest : Bytes)
    (hsize : size.length = 4) (hs : NulFree s) (hlen : s.length < 128)
    (h₁ : 4 ≤ cut calls) (h₂ : s.length + 4 ≤ cut (calls + 1)) :
    receiveTurn (segmentedRecv cut) typeString size ⟨tcpSendString s ++ rest, calls⟩ =
      .ok ⟨some s, some (le32 (s.length + 4)), (s.length + 4 : Nat), some (le32 s.length ++ s),
        le32 (s.length + 4), ⟨rest, calls + 2⟩⟩ := by
  have hstream : tcpSendString s ++ rest =
      le32 (s.length + 4) ++ ((le32 s.length ++ s) ++ rest) := by
    simp [tcpSendString_of_lt (show s.length < 2147483648 by omega)]
  have hpay : (le32 s.length ++ s).length = s.length + 4 := by simp; omega
  have hfirst : segmentedRecv cut 4 ⟨tcpSendString s ++ rest, calls⟩ =
      (some (le32 (s.length + 4)), ⟨(le32 s.length ++ s) ++ rest, calls + 1⟩) := by
    rw [hstream]
    exact segmentedRecv_full cut (n := 4) _ (le32_length _) (by omega) h₁
  have hsecond := segmentedRecv_full cut rest hpay (by omega) h₂
  have hbuf := receiveBuffer_ok (show (le32 s.length ++ s).length ≤ maxBuff by
    rw [hpay, maxBuff]
    omega)
  have hdata := rosString_of_lt hs hlen
    (List.replicate (maxBuff - (le32 s.length ++ s).length) 0)
  unfold receiveTurn
  simp only [hfirst, overwrite_full hsize, asked_eq (show s.length + 4 < 256 by omega), hsecond,
    hbuf]
  simp only [rosData, if_true, bind, Except.bind, hdata, pure, Except.pure]

theorem receiveTurn_end (cut : Nat → Nat) (calls : Nat) (size : Bytes) :
    receiveTurn (segmentedRecv cut) typeString size ⟨[], calls⟩ =
      .ok ⟨some [], some [], sint32 (readLe32 size), some [], size, ⟨[], calls + 2⟩⟩ := by
  have hread : ∀ (n : Int) (k : Nat), segmentedRecv cut n ⟨[], k⟩ = (some [], ⟨[], k + 1⟩) := by
    intro n k
    simp [segmentedRecv]
  have hbuf : receiveBuffer [] = .ok (le32 0 ++ [] ++ List.replicate (maxBuff - 4) 0) := by
    rw [receiveBuffer_ok (by simp)]
    rfl
  have hdata : rosString (le32 0 ++ [] ++ List.replicate (maxBuff - 4) 0) = .ok [] :=
    rosString_of_lt NulFree.nil (by decide) _
  unfold receiveTurn
  simp only [hread, overwrite, List.nil_append, List.length_nil, List.drop_zero, hbuf, rosData,
    if_true, bind, Except.bind, hdata, pure, Except.pure]

/-- Whatever the counts, a turn at a frame boundary asks for the frame's own
length and reads at least one byte in either read. -/
theorem receiveTurn_read {cut : Nat → Nat} {calls : Nat} {s : Bytes} {x : Byte} (rest : Bytes)
    (hlen : s.length < 128) {t : Turn Link}
    (h : receiveTurn (segmentedRecv cut) typeString [x, 0, 0, 0]
      ⟨tcpSendString s ++ rest, calls⟩ = .ok t) :
    t.bytesRead = max 1 (min (cut calls) 4) + max 1 (min (cut (calls + 1)) (s.length + 4)) ∧
      t.sawEnd = false ∧ t.handed.isSome := by
  obtain ⟨hgot, hword, hasked, hpayload, _, hhanded⟩ := receiveTurn_ok h
  let l : Link := ⟨tcpSendString s ++ rest, calls⟩
  have hstream : l.stream = le32 (s.length + 4) ++ ((le32 s.length ++ s) ++ rest) := by
    simp [l, tcpSendString_of_lt (show s.length < 2147483648 by omega)]
  have hcount : l.count cut 4 = max 1 (min (cut calls) 4) :=
    count_of_le (n := 4) (by omega) (by simp [hstream])
  have hk : l.count cut 4 ≤ 4 := by rw [hcount]; omega
  have htake : l.stream.take (l.count cut 4) = (le32 (s.length + 4)).take (l.count cut 4) := by
    rw [hstream, List.take_append_of_le_length (by simpa using hk)]
  have hgot' : t.sizeGot = some ((le32 (s.length + 4)).take (l.count cut 4)) := by
    rw [hgot, ← htake]
    rfl
  have hsize : t.size = le32 (s.length + 4) := by
    rw [hword, ← hgot, hgot']
    exact overwrite_prefix (by omega) (by rw [hcount]; omega) x
  have hn : t.asked = (s.length + 4 : Nat) := by
    rw [hasked, hsize, asked_eq (by omega)]
  let l' : Link := (segmentedRecv cut 4 l).2
  have hcount' : l'.count cut (s.length + 4 : Nat) =
      max 1 (min (cut (calls + 1)) (s.length + 4)) := by
    refine count_of_le (by omega) ?_
    simp only [l', segmentedRecv, List.length_drop, hstream, List.length_append, le32_length]
    omega
  have hlen' : (l'.stream.take (l'.count cut (s.length + 4 : Nat))).length =
      max 1 (min (cut (calls + 1)) (s.length + 4)) := by
    rw [List.length_take, hcount']
    simp only [l', segmentedRecv, List.length_drop, hstream, List.length_append, le32_length]
    omega
  have hpayload' : t.payload = some (l'.stream.take (l'.count cut (s.length + 4 : Nat))) := by
    rw [hpayload, hn]
    rfl
  have hgotlen : ((le32 (s.length + 4)).take (l.count cut 4)).length =
      max 1 (min (cut calls) 4) := by
    rw [List.length_take, hcount, le32_length]
    omega
  refine ⟨?_, ?_, ?_⟩
  · simp only [Turn.bytesRead, hgot', hpayload', Option.getD_some, hgotlen, hlen']
  · have hne₁ : (le32 (s.length + 4)).take (l.count cut 4) ≠ [] := by
      intro h0
      rw [h0] at hgotlen
      simp at hgotlen
      omega
    have hne₂ : l'.stream.take (l'.count cut (s.length + 4 : Nat)) ≠ [] := by
      intro h0
      rw [h0] at hlen'
      simp at hlen'
      omega
    simp only [Turn.sawEnd, hgot', hpayload', Option.some.injEq, hne₁, hne₂]
    simp
  · exact hhanded (by rw [hpayload']; rfl)

/-! ## Runs of the loop -/

theorem receiveTurns_succ {recv : Int → σ → Option Bytes × σ} {dtype n : Nat} {size : Bytes}
    {sock : σ} {t : Turn σ} (ht : receiveTurn recv dtype size sock = .ok t)
    (hgo : t.goesOn = true) :
    receiveTurns recv dtype (n + 1) size sock =
      (receiveTurns recv dtype n t.size t.sock).map (t :: ·) := by
  simp only [receiveTurns, ht, hgo, if_true, bind, Except.bind]
  cases receiveTurns recv dtype n t.size t.sock <;> rfl

theorem receiveTurns_last {recv : Int → σ → Option Bytes × σ} {dtype n : Nat} {size : Bytes}
    {sock : σ} {t : Turn σ} (ht : receiveTurn recv dtype size sock = .ok t)
    (hgo : t.goesOn = false) : receiveTurns recv dtype (n + 1) size sock = .ok [t] := by
  simp [receiveTurns, ht, hgo, bind, Except.bind, pure, Except.pure]

def frameTurn (s rest : Bytes) (calls : Nat) : Turn Link :=
  ⟨some s, some (le32 (s.length + 4)), (s.length + 4 : Nat), some (le32 s.length ++ s),
    le32 (s.length + 4), ⟨rest, calls + 2⟩⟩

theorem frameTurn_bytesRead {s : Bytes} (hlen : s.length < 128) (rest : Bytes) (calls : Nat) :
    (frameTurn s rest calls).bytesRead = (tcpSendString s).length := by
  simp [frameTurn, Turn.bytesRead, tcpSendString_length (show s.length < 2147483648 by omega)]
  omega

theorem receiveTurns_frame {cut : Nat → Nat} {calls n : Nat} {s size : Bytes} {ss : List Bytes}
    (hsize : size.length = 4) (hs : NulFree s) (hlen : s.length < 128)
    (h₁ : 4 ≤ cut calls) (h₂ : s.length + 4 ≤ cut (calls + 1)) :
    receiveTurns (segmentedRecv cut) typeString (n + 1) size ⟨framesOf (s :: ss), calls⟩ =
      (receiveTurns (segmentedRecv cut) typeString n (le32 (s.length + 4))
        ⟨framesOf ss, calls + 2⟩).map (frameTurn s (framesOf ss) calls :: ·) := by
  rw [framesOf_cons]
  exact receiveTurns_succ (receiveTurn_full (framesOf ss) hsize hs hlen h₁ h₂) rfl

theorem receiveTurns_drained (cut : Nat → Nat) (calls n : Nat) (size : Bytes) :
    receiveTurns (segmentedRecv cut) typeString (n + 1) size ⟨framesOf [], calls⟩ =
      .ok [⟨some [], some [], sint32 (readLe32 size), some [], size, ⟨[], calls + 2⟩⟩] :=
  receiveTurns_last (receiveTurn_end cut calls size) rfl

/-- Full reads keep the receiver at frame boundaries, so every turn hands over
the next string. -/
theorem deliversFrom_of_fullReads {cut : Nat → Nat} {ss : List Bytes} {calls : Nat} {size : Bytes}
    (hss : ∀ s ∈ ss, NulFree s ∧ s.length < 128) (hsize : size.length = 4)
    (hcut : FullReads cut ss calls) : DeliversFrom ss cut calls size := by
  intro n
  induction n generalizing ss calls size with
  | zero => exact ⟨[], rfl, fun _ => by simp [callbacks, consumed, arrived_zero]⟩
  | succ n ih =>
      cases ss with
      | nil =>
          refine ⟨_, receiveTurns_drained cut calls n size, fun hend => ?_⟩
          have := hend _ (List.mem_singleton_self _)
          simp [Turn.sawEnd] at this
      | cons s ss =>
          obtain ⟨h₁, h₂, hrest⟩ := hcut
          obtain ⟨hs, hlen⟩ := hss s (by simp)
          obtain ⟨ts, hrun, hts⟩ := ih
            (fun s' hs' => hss s' (by simp [hs'])) (le32_length (s.length + 4)) hrest
          refine ⟨frameTurn s (framesOf ss) calls :: ts, ?_, fun hend => ?_⟩
          · rw [receiveTurns_frame hsize hs hlen h₁ h₂, hrun]
            rfl
          · have htail := hts fun t ht => hend t (by simp [ht])
            have hsum : consumed (frameTurn s (framesOf ss) calls :: ts) =
                (tcpSendString s).length + consumed ts := by
              simp [consumed, frameTurn_bytesRead hlen]
            rw [hsum, arrived_frame, ← htail]
            rfl

/-- Two segmentations without short reads give the same callbacks. -/
theorem callbacks_eq_of_fullReads {cut cut' : Nat → Nat} {ss : List Bytes} {calls calls' : Nat}
    {size size' : Bytes} (hss : ∀ s ∈ ss, NulFree s ∧ s.length < 128)
    (hsize : size.length = 4) (hsize' : size'.length = 4)
    (hcut : FullReads cut ss calls) (hcut' : FullReads cut' ss calls') (n : Nat) :
    (receiveTurns (segmentedRecv cut) typeString n size ⟨framesOf ss, calls⟩).map callbacks =
      (receiveTurns (segmentedRecv cut') typeString n size' ⟨framesOf ss, calls'⟩).map
        callbacks := by
  induction n generalizing ss calls calls' size size' with
  | zero => rfl
  | succ n ih =>
      cases ss with
      | nil =>
          simp [receiveTurns_drained, Except.map, callbacks]
      | cons s ss =>
          obtain ⟨h₁, h₂, hrest⟩ := hcut
          obtain ⟨h₁', h₂', hrest'⟩ := hcut'
          obtain ⟨hs, hlen⟩ := hss s (by simp)
          have hih := ih (fun s' hs' => hss s' (by simp [hs'])) (le32_length (s.length + 4))
            (le32_length (s.length + 4)) hrest hrest'
          rw [receiveTurns_frame hsize hs hlen h₁ h₂, receiveTurns_frame hsize' hs hlen h₁' h₂']
          have hcons : ∀ (k : Nat) (r : C (List (Turn Link))),
              (r.map (frameTurn s (framesOf ss) k :: ·)).map callbacks =
                (r.map callbacks).map (s :: ·) := by
            intro k r
            cases r <;> rfl
          rw [hcons, hcons, hih]

theorem frameTurn_sawEnd (s rest : Bytes) (calls : Nat) :
    (frameTurn s rest calls).sawEnd = false := by
  simp [Turn.sawEnd, frameTurn, le32]

/-- Delivery from a boundary forces the two reads of the first frame to be
full: otherwise one string is handed over while no frame has arrived. -/
theorem reads_of_deliversFrom {cut : Nat → Nat} {s : Bytes} {ss : List Bytes} {calls : Nat}
    {x : Byte} (hlen : s.length < 128) (h : DeliversFrom (s :: ss) cut calls [x, 0, 0, 0]) :
    4 ≤ cut calls ∧ s.length + 4 ≤ cut (calls + 1) := by
  obtain ⟨ts, hrun, hts⟩ := h (0 + 1)
  rw [framesOf_cons] at hrun
  cases ht : receiveTurn (segmentedRecv cut) typeString [x, 0, 0, 0]
      ⟨tcpSendString s ++ framesOf ss, calls⟩ with
  | error e => simp [receiveTurns, ht, bind, Except.bind] at hrun
  | ok t =>
      obtain ⟨hread, hend, hhanded⟩ := receiveTurn_read (framesOf ss) hlen ht
      have htst : ts = [t] := by
        cases hgo : t.goesOn with
        | false =>
            rw [receiveTurns_last ht hgo] at hrun
            exact (Except.ok.inj hrun).symm
        | true =>
            rw [receiveTurns_succ ht hgo] at hrun
            exact (Except.ok.inj hrun).symm
      subst htst
      have hone : (arrived (s :: ss) (consumed [t])).length = 1 := by
        rw [← hts (by simpa using hend)]
        obtain ⟨v, hv⟩ := Option.isSome_iff_exists.mp hhanded
        simp [callbacks, hv]
      have hframe : (tcpSendString s).length ≤ t.bytesRead := by
        by_contra hlt
        simp [arrived, consumed, hlt] at hone
      rw [hread, tcpSendString_length (by omega)] at hframe
      omega

theorem deliversFrom_tail {cut : Nat → Nat} {s size : Bytes} {ss : List Bytes} {calls : Nat}
    (hs : NulFree s) (hlen : s.length < 128) (hsize : size.length = 4)
    (h₁ : 4 ≤ cut calls) (h₂ : s.length + 4 ≤ cut (calls + 1))
    (h : DeliversFrom (s :: ss) cut calls size) :
    DeliversFrom ss cut (calls + 2) (le32 (s.length + 4)) := by
  intro n
  obtain ⟨ts, hrun, hts⟩ := h (n + 1)
  rw [receiveTurns_frame hsize hs hlen h₁ h₂] at hrun
  cases hrest : receiveTurns (segmentedRecv cut) typeString n (le32 (s.length + 4))
      ⟨framesOf ss, calls + 2⟩ with
  | error e => rw [hrest] at hrun; cases hrun
  | ok ts' =>
      rw [hrest] at hrun
      cases hrun
      refine ⟨ts', rfl, fun hend => ?_⟩
      have hlist := hts fun t ht => by
        rcases List.mem_cons.mp ht with rfl | ht
        · exact frameTurn_sawEnd _ _ _
        · exact hend t ht
      have hsum : consumed (frameTurn s (framesOf ss) calls :: ts') =
          (tcpSendString s).length + consumed ts' := by
        simp [consumed, frameTurn_bytesRead hlen]
      rw [hsum, arrived_frame] at hlist
      exact (List.cons.inj hlist).2

theorem fullReads_of_deliversFrom {cut : Nat → Nat} {ss : List Bytes} {calls : Nat} {x : Byte}
    (hss : ∀ s ∈ ss, NulFree s ∧ s.length < 128)
    (h : DeliversFrom ss cut calls [x, 0, 0, 0]) : FullReads cut ss calls := by
  induction ss generalizing calls x with
  | nil => trivial
  | cons s ss ih =>
      obtain ⟨hs, hlen⟩ := hss s (by simp)
      obtain ⟨h₁, h₂⟩ := reads_of_deliversFrom hlen h
      have htail := deliversFrom_tail hs hlen rfl h₁ h₂ h
      rw [le32_of_lt (by omega)] at htail
      exact ⟨h₁, h₂, ih (fun s' hs' => hss s' (by simp [hs'])) htail⟩

/-- Strings are delivered as their frames arrive exactly when no read is short,
and then the segmentation cannot be told from the callbacks. -/
theorem delivers_iff_fullReads (ss : List Bytes) (hss : ∀ s ∈ ss, NulFree s ∧ s.length < 128) :
    (∀ cut, Delivers ss cut ↔ FullReads cut ss 0) ∧
    ∀ cut cut', FullReads cut ss 0 → FullReads cut' ss 0 →
      ∀ (size size' : Bytes), size.length = 4 → size'.length = 4 → ∀ n,
        (receiveTurns (segmentedRecv cut) typeString n size ⟨framesOf ss, 0⟩).map callbacks =
          (receiveTurns (segmentedRecv cut') typeString n size' ⟨framesOf ss, 0⟩).map
            callbacks := by
  refine ⟨fun cut => ⟨fun h => ?_, fun h size hsize => ?_⟩, ?_⟩
  · exact fullReads_of_deliversFrom hss (h [0, 0, 0, 0] rfl)
  · exact deliversFrom_of_fullReads hss hsize h
  · intro cut cut' hcut hcut' size size' hsize hsize' n
    exact callbacks_eq_of_fullReads hss hsize hsize' hcut hcut' n

theorem delivers_hello :
    Delivers [str "hello"] (fun _ => maxBuff) ↔ FullReads (fun _ => maxBuff) [str "hello"] 0 :=
  (delivers_iff_fullReads [str "hello"] (by decide)).1 _

/-- One byte at a time is a legal segmentation that loses the string. -/
theorem delivers_not_bytewise :
    ¬ ∀ (ss : List Bytes) (cut : Nat → Nat),
      (∀ s ∈ ss, NulFree s ∧ s.length < 128) → Delivers ss cut := by
  intro h
  have hss : ∀ s ∈ [str "hello"], NulFree s ∧ s.length < 128 := by decide
  have hfull := fullReads_of_deliversFrom hss (h [str "hello"] (fun _ => 1) hss [0, 0, 0, 0] rfl)
  exact absurd hfull.1 (by decide)

end STRos
