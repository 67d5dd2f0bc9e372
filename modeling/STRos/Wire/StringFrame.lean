import STRos.Model.Wire

/-! # String frames: what the reader makes of what the writer sent

The writer puts the length of a string into a 32-bit word, the reader takes it
from the word's low byte as a signed character. The two agree on lengths below
128 and on no other.
-/

namespace STRos

open CString

/-! ## Buffers -/

theorem memcpyTo_ok {buf src : Bytes} {off : Nat} (h : off + src.length ≤ buf.length) :
    memcpyTo buf off src = .ok (buf.take off ++ src ++ buf.drop (off + src.length)) := by
  simp [memcpyTo, h]

theorem memcpyFrom_ok {buf : Bytes} {off n : Nat} (h : n = 0 ∨ off + n ≤ buf.length) :
    memcpyFrom buf off n = .ok ((buf.drop off).take n) := by
  rw [memcpyFrom, if_neg (by omega), Int.toNat_natCast, if_neg (by omega)]

theorem memcpyFrom_eq_ok {buf field : Bytes} {off : Nat} {size : Int}
    (h : memcpyFrom buf off size = .ok field) :
    ∃ n : Nat, size = n ∧ (n = 0 ∨ off + n ≤ buf.length) ∧ field = (buf.drop off).take n := by
  unfold memcpyFrom at h
  split at h
  · cases h
  · rename_i hneg
    split at h
    · cases h
    · rename_i hlen
      obtain ⟨n, rfl⟩ := Int.eq_ofNat_of_zero_le (Int.not_lt.mp hneg)
      cases h
      rw [Int.toNat_natCast] at hlen
      exact ⟨n, rfl, by omega, rfl⟩

theorem memcpyFrom_length {buf field : Bytes} {off : Nat} {size : Int}
    (h : memcpyFrom buf off size = .ok field) : field.length ≤ size.toNat := by
  obtain ⟨n, rfl, -, rfl⟩ := memcpyFrom_eq_ok h
  exact List.length_take_le _ _

theorem receiveBuffer_ok {payload : Bytes} (h : payload.length ≤ maxBuff) :
    receiveBuffer payload = .ok (payload ++ List.replicate (maxBuff - payload.length) 0) := by
  rw [receiveBuffer, memcpyTo_ok (by simpa using h)]
  simp

/-! ## The frame -/

theorem tcpSendString_eq (s : Bytes) :
    tcpSendString s = le32 (s.length + 4) ++ (le32 s.length ++ sentText s) := by
  simp [tcpSendString, tcpSendStringWrites]

theorem sentText_eq {s : Bytes} (h : s.length < 2147483648) : sentText s = s := by
  have hlen : s.length % 4294967296 = s.length := Nat.mod_eq_of_lt (by omega)
  rw [sentText, hlen, sint32_of_lt h, if_neg (by omega), List.take_length]

theorem tcpSendString_of_lt {s : Bytes} (h : s.length < 2147483648) :
    tcpSendString s = le32 (s.length + 4) ++ (le32 s.length ++ s) := by
  rw [tcpSendString_eq, sentText_eq h]

theorem tcpSendString_length {s : Bytes} (h : s.length < 2147483648) :
    (tcpSendString s).length = 8 + s.length := by
  simp [tcpSendString_of_lt h]
  omega

theorem tcpSendString_payload {s : Bytes} (h : s.length < 2147483648) :
    (tcpSendString s).drop 4 = le32 s.length ++ s := by
  rw [tcpSendString_of_lt h, le32_append_drop]

/-- The first character of the payload holds the length modulo 256. -/
theorem payload_head (s rest : Bytes) :
    (le32 s.length ++ s ++ rest)[0]? = some (UInt8.ofNat s.length) := rfl

theorem rosString_of_lt {s : Bytes} (hs : NulFree s) (hlt : s.length < 128) (rest : Bytes) :
    rosString (le32 s.length ++ s ++ rest) = .ok s := by
  have hsize : schar (UInt8.ofNat s.length) = s.length := schar_ofNat hlt
  have hdrop : (le32 s.length ++ s ++ rest).drop 4 = s ++ rest := by
    rw [List.append_assoc, le32_append_drop]
  have hcopy : memcpyFrom (le32 s.length ++ s ++ rest) 4 s.length = .ok s := by
    rw [memcpyFrom_ok (Or.inr (by simp)), hdrop, List.take_left]
  simp only [rosString, payload_head, hsize, hcopy]
  exact congrArg Except.ok (cstr_of_nulFree hs)

/-- A result is never longer than the low byte of the length allows. -/
theorem rosString_length {s rest data : Bytes}
    (h : rosString (le32 s.length ++ s ++ rest) = .ok data) : data.length < 128 := by
  simp only [rosString, payload_head] at h
  cases hc : memcpyFrom (le32 s.length ++ s ++ rest) 4 (schar (UInt8.ofNat s.length)) with
  | error e => rw [hc] at h; cases h
  | ok field =>
      rw [hc] at h
      cases h
      have h₁ := memcpyFrom_length hc
      have h₂ := cstr_length_le field
      have h₃ := schar_lt (UInt8.ofNat s.length)
      omega

/-- The reader's side of one frame that arrived whole. -/
def readFrame (frame : Bytes) : C Bytes := do
  let buf ← receiveBuffer (frame.drop 4)
  rosData buf typeString

theorem readFrame_tcpSendString {s : Bytes} (hfit : 4 + s.length ≤ maxBuff) :
    readFrame (tcpSendString s) =
      rosString (le32 s.length ++ s ++ List.replicate (maxBuff - (4 + s.length)) 0) := by
  have hlen : (le32 s.length ++ s).length = 4 + s.length := by simp
  have hshort : s.length < 2147483648 := by
    rw [maxBuff] at hfit
    omega
  unfold readFrame
  rw [tcpSendString_payload hshort, receiveBuffer_ok (by omega), hlen]
  simp [rosData, bind, Except.bind]

/-- A string survives the wire exactly when its length fits a signed character. -/
theorem readFrame_eq_iff (s : Bytes) (hs : NulFree s) (hfit : 4 + s.length ≤ maxBuff) :
    readFrame (tcpSendString s) = .ok s ↔ s.length ≤ 127 := by
  rw [readFrame_tcpSendString hfit]
  constructor
  · intro h
    have := rosString_length h
    omega
  · intro h
    exact rosString_of_lt hs (by omega) _

theorem readFrame_hello :
    readFrame (tcpSendString (str "hello")) = .ok (str "hello") ↔ (str "hello").length ≤ 127 :=
  readFrame_eq_iff (str "hello") (by decide) (by decide)

/-- A string of 128 characters makes the reader copy `-128` bytes. -/
theorem readFrame_lost :
    ¬ ∀ s : Bytes, NulFree s → 4 + s.length ≤ maxBuff → readFrame (tcpSendString s) = .ok s := by
  intro h
  obtain ⟨s, hs, hlen⟩ : ∃ s : Bytes, NulFree s ∧ s.length = 128 :=
    ⟨List.replicate 128 (ch 'a'), nulFree_replicate 128 (by decide), List.length_replicate⟩
  have hfit : 4 + s.length ≤ maxBuff := by rw [hlen]; decide
  have hok := h s hs hfit
  rw [readFrame_tcpSendString hfit] at hok
  have := rosString_length hok
  omega

end STRos
