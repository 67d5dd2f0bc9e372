import STRos.Model.RequestLine
import STRos.Rpc.HeaderDecoding

/-! # A stream is read in pieces

Successive calls of `rpc_read_buf` cut a stream behind each newline, and where the
buffer is full. The newline that stands for the end of the stream is never stored.
-/

namespace STRos

open CString

/-! ## One call -/

theorem readBufLoop_stop {size i : Nat} {c : Byte} (h : ¬ (i + 1 < size ∧ c ≠ 10))
    {written : Bytes} (hi : written.length = i) (x : Byte) (junk sock : Bytes) :
    readBufLoop size (written ++ x :: junk) i c sock = .ok ⟨written ++ 0 :: junk, i, sock⟩ := by
  rw [readBufLoop.eq_def, if_neg h, ← hi, Block.store_append_cons]
  rfl

/-- From a part of the buffer that is written the loop goes on with the next bytes of the
stream. -/
theorem readBufLoop_eq {size : Nat} {c : Byte} (hc : c ≠ 10) (written junk sock : Bytes)
    (hsize : written.length + junk.length = size) (hroom : written.length < size) :
    readBufLoop size (written ++ junk) written.length c sock =
      .ok ⟨written ++ (rpcReadBuf (size - 1 - written.length) sock).1 ++
          0 :: junk.drop ((rpcReadBuf (size - 1 - written.length) sock).1.length + 1),
        written.length + (rpcReadBuf (size - 1 - written.length) sock).1.length,
        (rpcReadBuf (size - 1 - written.length) sock).2⟩ := by
  induction sock generalizing written junk c with
  | nil =>
      cases junk with
      | nil =>
          rw [List.length_nil] at hsize
          omega
      | cons y junk =>
          have hread : rpcReadBuf (size - 1 - written.length) [] = ([], []) := by
            cases size - 1 - written.length <;> rfl
          rw [hread]
          by_cases hmore : written.length + 1 < size
          · rw [readBufLoop, if_pos ⟨hmore, hc⟩, readBufLoop_stop (by simp) rfl]
            simp
          · rw [readBufLoop_stop (fun h => hmore h.1) rfl]
            simp
  | cons x sock ih =>
      cases junk with
      | nil =>
          rw [List.length_nil] at hsize
          omega
      | cons y junk =>
          rw [List.length_cons] at hsize
          by_cases hmore : written.length + 1 < size
          · have hpred : size - 1 - written.length = (size - 1 - (written.length + 1)) + 1 := by
              omega
            have hwritten : (written ++ [x]).length = written.length + 1 := by simp
            have hstored : written ++ x :: junk = written ++ [x] ++ junk := by simp
            rw [readBufLoop, if_pos ⟨hmore, hc⟩, Block.store_append_cons, hpred]
            simp only [inBounds, bind, Except.bind, rpcReadBuf]
            cases junk with
            | nil =>
                rw [List.length_nil] at hsize
                omega
            | cons z junk =>
                by_cases hx : x = 10
                · rw [if_pos hx, hstored, readBufLoop_stop (fun h => h.2 hx) hwritten]
                  simp
                · have hrest := ih hx (written ++ [x]) (z :: junk) (by rw [hwritten]; omega)
                    (by rw [hwritten]; omega)
                  rw [hwritten] at hrest
                  rw [if_neg hx, hstored, hrest]
                  simp only [List.append_assoc, List.cons_append,
                    List.length_cons, List.drop_succ_cons]
                  congr 2
                  omega
          · have hzero : size - 1 - written.length = 0 := by omega
            rw [readBufLoop_stop (fun h => hmore h.1) rfl, hzero]
            simp [rpcReadBuf]

/-- The piece a call gets from a stream. -/
def pieceOf (size : Nat) (sock : Bytes) : Bytes := uptoNewline (sock.take (size - 1))

theorem rpcReadBufInto_eq {size : Nat} (hsize : 1 ≤ size) {buf : Bytes} (hbuf : buf.length = size)
    (sock : Bytes) :
    rpcReadBufInto size buf sock =
      .ok ⟨pieceOf size sock ++ 0 :: buf.drop ((pieceOf size sock).length + 1),
        (pieceOf size sock).length, sock.drop (pieceOf size sock).length⟩ := by
  have hc : (0 : Byte) ≠ 10 := by decide
  have hlen : ([] : Bytes).length + buf.length = size := by simpa using hbuf
  have hloop := readBufLoop_eq hc [] buf sock hlen (by rw [List.length_nil]; omega)
  rw [rpcReadBuf_eq] at hloop
  simpa [rpcReadBufInto, pieceOf] using hloop

theorem pieceOf_le (size : Nat) (sock : Bytes) : pieceOf size sock <+: sock :=
  (uptoNewline_le _).trans (List.take_prefix _ _)

theorem pieceOf_length_le (size : Nat) (sock : Bytes) : (pieceOf size sock).length ≤ size - 1 :=
  (uptoNewline_le _).length_le.trans (List.length_take_le _ _)

theorem pieceOf_append_drop (size : Nat) (sock : Bytes) :
    pieceOf size sock ++ sock.drop (pieceOf size sock).length = sock :=
  List.prefix_iff_eq_append.mp (pieceOf_le size sock)

theorem pieceOf_ne_nil {size : Nat} (hsize : 2 ≤ size) {sock : Bytes} (h : sock ≠ []) :
    pieceOf size sock ≠ [] := by
  cases sock with
  | nil => exact absurd rfl h
  | cons c sock =>
      have hpred : size - 1 = (size - 2) + 1 := by omega
      rw [pieceOf, hpred, List.take_succ_cons]
      by_cases hc : c = 10
      · rw [hc, uptoNewline_newline]
        simp
      · rw [uptoNewline_cons hc]
        simp

theorem uptoNewline_dropLast (head : Bytes) : 10 ∉ (uptoNewline head).dropLast := by
  have hline : 10 ∉ head.takeWhile (· ≠ 10) := by
    intro hmem
    simpa using List.mem_takeWhile_imp hmem
  rw [uptoNewline]
  cases head.dropWhile (· ≠ 10) with
  | nil =>
      rw [List.take_nil, List.append_nil]
      exact fun hmem => hline (List.mem_of_mem_dropLast hmem)
  | cons c rest =>
      rw [List.take_succ_cons, List.take_zero, List.dropLast_concat]
      exact hline

/-- Without a newline nothing is cut off. -/
theorem uptoNewline_getLast {head : Bytes} (h : (uptoNewline head).getLast? ≠ some 10) :
    uptoNewline head = head := by
  have hsplit := List.takeWhile_append_dropWhile (p := fun c : Byte => decide (c ≠ 10)) (l := head)
  rw [uptoNewline] at h ⊢
  cases hrest : head.dropWhile (· ≠ 10) with
  | nil =>
      rw [hrest, List.append_nil] at hsplit
      rw [List.take_nil, List.append_nil, hsplit]
  | cons c rest =>
      have hc : c = 10 := by
        have hhead := List.head_dropWhile_not (fun c : Byte => decide (c ≠ 10))
          (l := head) (by rw [hrest]; simp)
        simp only [hrest, List.head_cons] at hhead
        simpa using hhead
      rw [hrest, hc, List.take_succ_cons, List.take_zero] at h
      exact absurd (List.getLast?_concat) h

/-! ## Call after call -/

theorem readBufLoop_length {size i : Nat} {buf sock : Bytes} {c : Byte} {r : Reading}
    (h : readBufLoop size buf i c sock = .ok r) : r.count + r.rest.length = i + sock.length := by
  fun_induction readBufLoop size buf i c sock with
  | case1 buf i c hgo x sock ih =>
      obtain ⟨buf', -, h⟩ := bind_eq_ok.mp h
      have hrest := ih buf' h
      rw [List.length_cons]
      omega
  | case2 buf i c hgo ih => exact ih h
  | case3 buf i c sock hstop =>
      obtain ⟨buf', -, h⟩ := bind_eq_ok.mp h
      cases h
      rfl

/-- The calls on a stream, each with the buffer the one before it left, up to the one that
returns 0. -/
def readAll (size : Nat) (buf sock : Bytes) : C (List Reading) :=
  match _h : rpcReadBufInto size buf sock with
  | .error e => .error e
  | .ok r => if _hr : r.count = 0 then .ok [] else (readAll size r.buf r.rest).map (r :: ·)
  termination_by sock.length
  decreasing_by
    have hlen := readBufLoop_length _h
    omega

theorem readAll_of_read {size : Nat} {buf sock : Bytes} {r : Reading}
    (h : rpcReadBufInto size buf sock = .ok r) :
    readAll size buf sock =
      if r.count = 0 then .ok [] else (readAll size r.buf r.rest).map (r :: ·) := by
  rw [readAll]
  split
  · rename_i heq
    rw [h] at heq
    cases heq
  · rename_i heq
    rw [h] at heq
    cases heq
    rfl

def Reading.piece (r : Reading) : Bytes := r.buf.take r.count

/-- The readings make up the stream, a line or a full buffer each. -/
structure Partitions (size : Nat) (sock : Bytes) (readings : List Reading) : Prop where
  flatten : (readings.map Reading.piece).flatten = sock
  nonempty : ∀ r ∈ readings, r.piece ≠ []
  fits : ∀ r ∈ readings, r.piece.length ≤ size - 1
  oneNewline : ∀ r ∈ readings, 10 ∉ r.piece.dropLast
  shortLast : ∀ before r after, readings = before ++ r :: after → r.piece.length < size - 1 →
    r.piece.getLast? ≠ some 10 → after = []
  terminated : ∀ r ∈ readings, r.buf.length = size ∧ r.count < size ∧ r.buf[r.count]? = some 0 ∧
    r.piece.length = r.count

/-- A short piece without a newline is all of the stream. -/
theorem pieceOf_short {size : Nat} {sock : Bytes} (hshort : (pieceOf size sock).length < size - 1)
    (hlast : (pieceOf size sock).getLast? ≠ some 10) :
    sock.drop (pieceOf size sock).length = [] := by
  have hall : pieceOf size sock = sock.take (size - 1) := uptoNewline_getLast hlast
  rw [hall, List.length_take] at hshort ⊢
  exact List.drop_eq_nil_of_le (by omega)

theorem Partitions.eq_nil {size : Nat} {readings : List Reading}
    (h : Partitions size [] readings) : readings = [] := by
  cases readings with
  | nil => rfl
  | cons r readings =>
      have hflat := h.flatten
      rw [List.map_cons, List.flatten_cons] at hflat
      exact absurd (List.append_eq_nil_iff.mp hflat).1 (h.nonempty r List.mem_cons_self)

theorem Partitions.nil (size : Nat) : Partitions size [] [] :=
  ⟨rfl, by simp, by simp, by simp, by simp, by simp⟩

section Cons

variable {size : Nat} (hsize : 2 ≤ size) {sock : Bytes} (hsock : sock ≠ []) {r : Reading}
  (hpiece : r.piece = pieceOf size sock) (hcount : r.count = (pieceOf size sock).length)
  (hlen : r.buf.length = size) (hnul : r.buf[r.count]? = some 0)

include hsize hsock hpiece hcount hlen hnul

theorem Partitions.cons {readings : List Reading}
    (h : Partitions size (sock.drop (pieceOf size sock).length) readings) :
    Partitions size sock (r :: readings) where
  flatten := by
    rw [List.map_cons, List.flatten_cons, hpiece, h.flatten, pieceOf_append_drop]
  nonempty := by
    rw [List.forall_mem_cons, hpiece]
    exact ⟨pieceOf_ne_nil hsize hsock, h.nonempty⟩
  fits := by
    rw [List.forall_mem_cons, hpiece]
    exact ⟨pieceOf_length_le size sock, h.fits⟩
  oneNewline := by
    rw [List.forall_mem_cons, hpiece]
    exact ⟨uptoNewline_dropLast _, h.oneNewline⟩
  shortLast := by
    intro before q after heq hshort hlast
    cases before with
    | nil =>
        rw [List.nil_append, List.cons.injEq] at heq
        obtain ⟨rfl, rfl⟩ := heq
        rw [hpiece] at hshort hlast
        rw [pieceOf_short hshort hlast] at h
        exact h.eq_nil
    | cons p before =>
        rw [List.cons_append, List.cons.injEq] at heq
        exact h.shortLast before q after heq.2 hshort hlast
  terminated := by
    rw [List.forall_mem_cons]
    refine ⟨⟨hlen, ?_, hnul, by rw [hpiece, hcount]⟩, h.terminated⟩
    have hle := pieceOf_length_le size sock
    omega

end Cons

/-- A call gives the piece, and sets the byte behind it to NUL. -/
theorem rpcReadBufInto_reading {size : Nat} (hsize : 1 ≤ size) {buf : Bytes}
    (hbuf : buf.length = size) (sock : Bytes) :
    ∃ r, rpcReadBufInto size buf sock = .ok r ∧ r.piece = pieceOf size sock ∧
      r.count = (pieceOf size sock).length ∧ r.rest = sock.drop (pieceOf size sock).length ∧
      r.buf.length = size ∧ r.buf[r.count]? = some 0 := by
  refine ⟨_, rpcReadBufInto_eq hsize hbuf sock, List.take_left, rfl, rfl, ?_, ?_⟩
  · have hle := pieceOf_length_le size sock
    simp only [List.length_append, List.length_cons, List.length_drop]
    omega
  · simp

/-- The calls read the whole stream, piece by piece, and stay in their buffer. -/
theorem readAll_partitions {size : Nat} (hsize : 2 ≤ size) {buf : Bytes}
    (hbuf : buf.length = size) (sock : Bytes) :
    ∃ readings, readAll size buf sock = .ok readings ∧ Partitions size sock readings := by
  induction hn : sock.length using Nat.strong_induction_on generalizing sock buf with
  | _ n ih =>
      obtain ⟨r, hread, hpiece, hcount, hrest, hlen, hnul⟩ :=
        rpcReadBufInto_reading (Nat.le_of_succ_le hsize) hbuf sock
      rw [readAll_of_read hread]
      by_cases hsock : sock = []
      · have hzero : r.count = 0 := by
          rw [hcount, hsock, pieceOf, List.take_nil]
          rfl
        rw [if_pos hzero, hsock]
        exact ⟨[], rfl, Partitions.nil size⟩
      · have hpos := List.length_pos_iff.mpr (pieceOf_ne_nil hsize hsock)
        have hpos' := List.length_pos_iff.mpr hsock
        have hdrop : (sock.drop (pieceOf size sock).length).length < n := by
          rw [List.length_drop]
          omega
        obtain ⟨readings, hrun, hparts⟩ := ih _ hdrop hlen _ rfl
        refine ⟨r :: readings, ?_, hparts.cons hsize hsock hpiece hcount hlen hnul⟩
        rw [if_neg (by omega), hrest, hrun]
        rfl

/-- Five bytes of buffer for a line that does not fit and one that is not ended. -/
theorem readAll_partitions_lines :
    ∃ readings, readAll 5 [1, 2, 3, 4, 5] (str "POST /\nab") = .ok readings ∧
      Partitions 5 (str "POST /\nab") readings :=
  @readAll_partitions 5 (by decide) [1, 2, 3, 4, 5] rfl (str "POST /\nab")

end STRos
