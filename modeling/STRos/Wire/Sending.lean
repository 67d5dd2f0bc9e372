import Mathlib.Data.List.Pairwise
import STRos.Model.Connection
import STRos.Wire.StringFrame

/-! # The stream of a publisher

A frame is three sends, and a send may take only a part of its bytes. The loop of
`publish_tcp_data` goes on unless a send fails, so the stream is made of whole
frames exactly when after a short send no bytes are taken any more.
-/

namespace STRos

open CString

def Sent.put (s : Sent) : Bytes := s.bytes.take s.taken

/-- The sends put complete frames on the wire, in the order of the messages, and at
most one that breaks off. -/
def FramesOnWire (messages : List Bytes) (wire : Bytes) : Prop :=
  ∃ n tail, wire = (messages.take n).flatMap tcpSendString ++ tail ∧
    (tail = [] ∨ ∃ data, messages[n]? = some data ∧ tail <+: tcpSendString data ∧
      tail ≠ tcpSendString data)

/-- The stream is made of whole frames, and behind a send that did not take all its
bytes nothing more is written. -/
structure WholeStream (messages : List Bytes) (log : List Sent) : Prop where
  frames : FramesOnWire messages (onWire log)
  nothingAfter : log.Pairwise fun s s' => s.put = s.bytes ∨ s'.put = []

def sendParts (messages : List Bytes) : List Bytes := messages.flatMap tcpSendStringWrites

/-- Once a send took only a part of its bytes, the later ones take none of theirs,
as long as none has failed. -/
def QuietAfterShort (result : Nat → Option Nat) (c : Nat) (parts : List Bytes) : Prop :=
  ∀ i j p q k l, i < j → parts[i]? = some p → parts[j]? = some q →
    (∀ m < j, result (c + m) ≠ none) → result (c + i) = some k → result (c + j) = some l →
    k < p.length → q.take l = []

/-! ## The sends of a connection -/

def sends (result : Nat → Option Nat) : Nat → List Bytes → List Sent
  | _, [] => []
  | c, p :: parts =>
      match result c with
      | none => []
      | some k => ⟨p, k⟩ :: sends result (c + 1) parts

theorem publishLoop_eq (result : Nat → Option Nat) (c : Nat) (messages : List Bytes) :
    publishLoop result c messages = sends result c (sendParts messages) := by
  induction messages generalizing c with
  | nil => rfl
  | cons data messages ih =>
      have hparts : sendParts (data :: messages) =
          le32 (data.length + 4) :: le32 data.length :: sentText data :: sendParts messages := rfl
      rw [hparts]
      unfold publishLoop tcpSendStringLog
      simp only [sends]
      rcases result c with _ | k₁
      · rfl
      rcases result (c + 1) with _ | k₂
      · rfl
      rcases result (c + 2) with _ | k₃
      · rfl
      exact congrArg (fun rest => _ :: _ :: _ :: rest) (ih (c + 3))

/-- The send with a number is made when all before it have succeeded. -/
theorem sends_getElem? (result : Nat → Option Nat) (c : Nat) (parts : List Bytes) (i : Nat)
    (s : Sent) :
    (sends result c parts)[i]? = some s ↔
      parts[i]? = some s.bytes ∧ result (c + i) = some s.taken ∧
        ∀ m < i, result (c + m) ≠ none := by
  induction parts generalizing c i with
  | nil => simp [sends]
  | cons p parts ih =>
      cases hresult : result c with
      | none =>
          simp only [sends, hresult, List.getElem?_nil, reduceCtorEq, false_iff, not_and]
          intro _ hi hm
          cases i with
          | zero =>
              rw [Nat.add_zero, hresult] at hi
              cases hi
          | succ i => exact hm 0 (by omega) hresult
      | some k =>
          obtain ⟨bytes, taken⟩ := s
          simp only [sends, hresult]
          cases i with
          | zero =>
              simp [hresult]
          | succ i =>
              rw [List.getElem?_cons_succ, List.getElem?_cons_succ, ih]
              have hshift : c + 1 + i = c + (i + 1) := by omega
              rw [hshift]
              refine and_congr_right fun _ => and_congr_right fun _ => ?_
              constructor
              · intro h m hm
                cases m with
                | zero => simp [hresult]
                | succ m =>
                    have := h m (by omega)
                    rwa [show c + 1 + m = c + (m + 1) by omega] at this
              · intro h m hm
                have := h (m + 1) (by omega)
                rwa [show c + (m + 1) = c + 1 + m by omega] at this

/-! ## Bytes and frames -/

theorem onWire_cons (s : Sent) (log : List Sent) : onWire (s :: log) = s.put ++ onWire log := rfl

theorem onWire_quiet {log : List Sent} (h : ∀ s ∈ log, s.put = []) : onWire log = [] :=
  List.flatMap_eq_nil_iff.mpr h

/-- When nothing follows a short send, the wire has a prefix of what was given. -/
theorem onWire_sends_le (result : Nat → Option Nat) (c : Nat) (parts : List Bytes)
    (h : (sends result c parts).Pairwise fun s s' => s.put = s.bytes ∨ s'.put = []) :
    onWire (sends result c parts) <+: parts.flatten := by
  induction parts generalizing c with
  | nil => exact List.nil_prefix
  | cons p parts ih =>
      unfold sends at h ⊢
      cases hresult : result c with
      | none => exact List.nil_prefix
      | some k =>
          rw [hresult] at h
          obtain ⟨hfirst, hrest⟩ := List.pairwise_cons.mp h
          rw [onWire_cons, List.flatten_cons]
          by_cases hput : (⟨p, k⟩ : Sent).put = p
          · rw [hput]
            exact (List.prefix_append_right_inj p).mpr (ih (c + 1) hrest)
          · rw [onWire_quiet fun s hs => (hfirst s hs).resolve_left hput, List.append_nil]
            exact (List.take_prefix k p).trans (List.prefix_append p _)

/-- The beginnings of the stream of all frames are the streams of whole frames with
at most one that breaks off. -/
theorem framesOnWire_iff (messages : List Bytes) (wire : Bytes) :
    FramesOnWire messages wire ↔ wire <+: messages.flatMap tcpSendString := by
  constructor
  · rintro ⟨n, tail, rfl, htail⟩
    have hsplit : messages.flatMap tcpSendString =
        (messages.take n).flatMap tcpSendString ++ (messages.drop n).flatMap tcpSendString := by
      rw [← List.flatMap_append, List.take_append_drop]
    rw [hsplit, List.prefix_append_right_inj]
    rcases htail with rfl | ⟨data, hdata, htail, -⟩
    · exact List.nil_prefix
    · obtain ⟨hn, rfl⟩ := List.getElem?_eq_some_iff.mp hdata
      rw [List.drop_eq_getElem_cons hn, List.flatMap_cons]
      exact htail.trans (List.prefix_append _ _)
  · intro h
    induction messages generalizing wire with
    | nil =>
        rw [List.flatMap_nil, List.prefix_nil] at h
        exact ⟨0, [], by simp [h], Or.inl rfl⟩
    | cons data messages ih =>
        rw [List.flatMap_cons] at h
        by_cases hwhole : tcpSendString data <+: wire
        · obtain ⟨wire', rfl⟩ := hwhole
          obtain ⟨n, tail, rfl, htail⟩ := ih wire' ((List.prefix_append_right_inj _).mp h)
          exact ⟨n + 1, tail, by simp, htail⟩
        · have hshort : wire <+: tcpSendString data :=
            (List.prefix_or_prefix_of_prefix h (List.prefix_append _ _)).resolve_right hwhole
          refine ⟨0, wire, rfl, Or.inr ⟨data, rfl, hshort, ?_⟩⟩
          rintro rfl
          exact hwhole (List.prefix_refl _)

theorem sendParts_flatten (messages : List Bytes) :
    (sendParts messages).flatten = messages.flatMap tcpSendString := by
  rw [sendParts, List.flatMap_def, List.flatMap_def, List.flatten_flatten, List.map_map]
  rfl

/-- The short sends of the log and what follows them, told by the results. -/
theorem sends_pairwise_iff (result : Nat → Option Nat) (c : Nat) (parts : List Bytes) :
    ((sends result c parts).Pairwise fun s s' => s.put = s.bytes ∨ s'.put = []) ↔
      QuietAfterShort result c parts := by
  rw [List.pairwise_iff_getElem]
  constructor
  · intro h i j p q k l hij hp hq hmade hk hl hshort
    have hi : (sends result c parts)[i]? = some ⟨p, k⟩ :=
      (sends_getElem? result c parts i _).mpr ⟨hp, hk, fun m hm => hmade m (by omega)⟩
    have hj : (sends result c parts)[j]? = some ⟨q, l⟩ :=
      (sends_getElem? result c parts j _).mpr ⟨hq, hl, hmade⟩
    obtain ⟨hilt, hi⟩ := List.getElem?_eq_some_iff.mp hi
    obtain ⟨hjlt, hj⟩ := List.getElem?_eq_some_iff.mp hj
    have hpair := h i j hilt hjlt hij
    rw [hi, hj] at hpair
    refine hpair.resolve_left fun hput => ?_
    have hlen := congrArg List.length hput
    simp only [Sent.put, List.length_take] at hlen
    omega
  · intro h i j hilt hjlt hij
    obtain ⟨hp, hk, -⟩ := (sends_getElem? result c parts i _).mp (List.getElem?_eq_getElem hilt)
    obtain ⟨hq, hl, hmade⟩ :=
      (sends_getElem? result c parts j _).mp (List.getElem?_eq_getElem hjlt)
    by_cases hshort : (sends result c parts)[i].taken < (sends result c parts)[i].bytes.length
    · exact Or.inr (h i j _ _ _ _ hij hp hq hmade hk hl hshort)
    · exact Or.inl (List.take_of_length_le (by omega))

/-- What the loop writes is made of whole frames exactly when the peer takes nothing
after a short send. -/
theorem wholeStream_iff (result : Nat → Option Nat) (c : Nat) (messages : List Bytes) :
    WholeStream messages (publishLoop result c messages) ↔
      QuietAfterShort result c (sendParts messages) := by
  rw [← sends_pairwise_iff, publishLoop_eq]
  constructor
  · intro h
    exact h.nothingAfter
  · intro h
    refine ⟨(framesOnWire_iff _ _).mpr ?_, h⟩
    rw [← sendParts_flatten]
    exact onWire_sends_le result c _ h

/-- The peer takes two bytes of the first length word and all bytes of the sends
behind it. -/
theorem wholeStream_broken :
    ¬ WholeStream [str "hello"]
      (publishLoop (fun c => if c = 0 then some 2 else some 9) 0 [str "hello"]) := by
  intro h
  have hwire := (framesOnWire_iff _ _).mp h.frames
  revert hwire
  decide

end STRos
