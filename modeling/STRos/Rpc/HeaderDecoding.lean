import STRos.Rpc.Framing
import STRos.Rpc.Trees

/-! # When the body of a message is what was sent

The reader cuts the stream behind each newline, and after 1023 bytes without one.
What it takes for the header are these pieces up to their first NUL, and not the
lines: a piece of a long line is read like a header line, or like the empty line.
Of the pieces it reads it asks for texts without looking whether they are there.
-/

namespace STRos

open CString

/-! ## Pieces of a stream -/

def uptoNewline (head : Bytes) : Bytes :=
  head.takeWhile (· ≠ 10) ++ (head.dropWhile (· ≠ 10)).take 1

def firstPiece (sock : Bytes) : Bytes := uptoNewline (sock.take (maxBuff - 1))

theorem uptoNewline_newline (head : Bytes) : uptoNewline (10 :: head) = [10] := by
  simp [uptoNewline]

theorem uptoNewline_cons {c : Byte} (hc : c ≠ 10) (head : Bytes) :
    uptoNewline (c :: head) = c :: uptoNewline head := by
  simp [uptoNewline, hc]

theorem uptoNewline_le (head : Bytes) : uptoNewline head <+: head := by
  refine ⟨(head.dropWhile (· ≠ 10)).drop 1, ?_⟩
  rw [uptoNewline, List.append_assoc, List.take_append_drop, List.takeWhile_append_dropWhile]

theorem firstPiece_le (sock : Bytes) : firstPiece sock <+: sock :=
  (uptoNewline_le _).trans (List.take_prefix _ _)

theorem firstPiece_append_drop (sock : Bytes) :
    firstPiece sock ++ sock.drop (firstPiece sock).length = sock :=
  List.prefix_iff_eq_append.mp (firstPiece_le sock)

theorem firstPiece_length_pos {sock : Bytes} (h : sock ≠ []) : 0 < (firstPiece sock).length := by
  cases sock with
  | nil => exact absurd rfl h
  | cons c sock =>
      rw [firstPiece, maxBuff, List.take_succ_cons]
      by_cases hc : c = 10
      · rw [hc, uptoNewline_newline]
        exact Nat.one_pos
      · rw [uptoNewline_cons hc]
        exact Nat.succ_pos _

/-- What the calls of `rpc_read_buf` get, up to the end of the stream. -/
def pieces (sock : Bytes) : List Bytes :=
  if _h : sock = [] then []
  else firstPiece sock :: pieces (sock.drop (firstPiece sock).length)
  termination_by sock.length
  decreasing_by
    have hpos := firstPiece_length_pos _h
    have hlen := List.length_pos_iff.mpr _h
    rw [List.length_drop]
    omega

/-- The loop is entered with this piece. -/
def goesOn (piece : Bytes) : Bool := cstr piece ≠ [] && cstr piece ≠ crlf

def headerPieces (sock : Bytes) : List Bytes := ((pieces sock).takeWhile goesOn).map cstr

def behindHeader (sock : Bytes) : Bytes := ((pieces sock).dropWhile goesOn).tail.flatten

theorem pieces_nil : pieces [] = [] := by
  rw [pieces]
  exact dif_pos rfl

theorem pieces_of_ne_nil {sock : Bytes} (h : sock ≠ []) :
    pieces sock = firstPiece sock :: pieces (sock.drop (firstPiece sock).length) := by
  rw [pieces]
  exact dif_neg h

theorem pieces_flatten (sock : Bytes) : (pieces sock).flatten = sock := by
  induction hn : sock.length using Nat.strong_induction_on generalizing sock with
  | _ n ih =>
      by_cases hne : sock = []
      · subst hne
        rw [pieces_nil, List.flatten_nil]
      · have hpos := firstPiece_length_pos hne
        have hlen := List.length_pos_iff.mpr hne
        rw [pieces_of_ne_nil hne, List.flatten_cons,
          ih _ (by rw [List.length_drop]; omega) _ rfl, firstPiece_append_drop]

/-! ## The header loop over pieces -/

theorem rpcReadBuf_eq (n : Nat) (sock : Bytes) :
    rpcReadBuf n sock =
      (uptoNewline (sock.take n), sock.drop (uptoNewline (sock.take n)).length) := by
  induction n generalizing sock with
  | zero => rfl
  | succ n ih =>
      cases sock with
      | nil => rfl
      | cons c sock =>
          rw [List.take_succ_cons, rpcReadBuf]
          by_cases hc : c = 10
          · rw [if_pos hc, hc, uptoNewline_newline]
            rfl
          · rw [if_neg hc, uptoNewline_cons hc, ih]
            rfl

theorem rpcReadLine_eq (sock : Bytes) :
    rpcReadLine sock = (cstr (firstPiece sock), sock.drop (firstPiece sock).length) := by
  rw [rpcReadLine, rpcReadBuf_eq]
  rfl

theorem goesOn_iff (piece : Bytes) :
    goesOn piece = true ↔ ¬ (cstr piece = [] ∨ cstr piece = crlf) := by
  simp [goesOn]

def readHeader (st : HeaderInfo) (lines : List Bytes) : C HeaderInfo :=
  match lines with
  | [] => .ok st
  | line :: lines =>
      match headerLine line st with
      | .error e => .error e
      | .ok st' => readHeader st' lines

/-- The loop reads the header pieces and stops behind the next one. -/
theorem headerLines_eq (st : HeaderInfo) (sock : Bytes) :
    headerLines st sock =
      (readHeader st (headerPieces sock)).map fun st' => (st', behindHeader sock) := by
  induction hn : sock.length using Nat.strong_induction_on generalizing st sock with
  | _ n ih =>
      by_cases hne : sock = []
      · subst hne
        rw [headerLines, rpcReadLine_eq]
        simp [firstPiece, uptoNewline, headerPieces, behindHeader, pieces_nil, readHeader,
          Except.map]
      · have hpos := firstPiece_length_pos hne
        have hlen := List.length_pos_iff.mpr hne
        have hrest := ih (sock.drop (firstPiece sock).length).length
          (by rw [List.length_drop]; omega)
        rw [headerLines, rpcReadLine_eq]
        simp only [headerPieces, behindHeader]
        rw [pieces_of_ne_nil hne]
        by_cases hstop : cstr (firstPiece sock) = [] ∨ cstr (firstPiece sock) = crlf
        · have hgo : goesOn (firstPiece sock) = false := by
            rw [Bool.eq_false_iff, ne_eq, goesOn_iff]
            exact not_not_intro hstop
          rw [dif_pos hstop, List.takeWhile_cons_of_neg (by simp [hgo]),
            List.dropWhile_cons_of_neg (by simp [hgo])]
          simp [readHeader, Except.map, pieces_flatten]
        · have hgo : goesOn (firstPiece sock) = true := (goesOn_iff _).mpr hstop
          rw [dif_neg hstop, List.takeWhile_cons_of_pos hgo, List.dropWhile_cons_of_pos hgo,
            List.map_cons, readHeader]
          cases headerLine (cstr (firstPiece sock)) st with
          | error e => rfl
          | ok st' => exact hrest st' _ rfl

/-! ## What a header piece has to bring -/

theorem strip_eq_nil_iff {delim : Byte} {s : Bytes} : strip delim s = [] ↔ s.all (· = delim) := by
  rw [strip, List.reverse_eq_nil_iff, List.dropWhile_eq_nil_iff, List.all_eq_true]
  constructor
  · intro h
    apply List.dropWhile_eq_nil_iff.mp
    by_contra hne
    have hhead : decide (_ = delim) = false :=
      List.head_dropWhile_not (fun b => decide (b = delim)) hne
    have hall := h _ (List.mem_reverse.mpr (List.head_mem hne))
    rw [hall] at hhead
    cases hhead
  · intro h b hb
    rw [List.dropWhile_eq_nil_iff.mpr h] at hb
    cases hb

theorem trim_eq (s : Bytes) (delim : Byte) :
    trim s delim = if strip delim s = [] then .error .outOfBounds else .ok (strip delim s) := by
  rw [trim]
  by_cases h : s.all (· = delim) = true
  · rw [if_pos h, if_pos (strip_eq_nil_iff.mpr h)]
  · rw [if_neg h, if_neg (mt strip_eq_nil_iff.mp h)]

theorem trim_ok_iff {s r : Bytes} {delim : Byte} :
    trim s delim = .ok r ↔ strip delim s ≠ [] ∧ strip delim s = r := by
  rw [trim_eq]
  by_cases h : strip delim s = []
  · simp [h]
  · simp [h]

/-- The text in front of the first colon, without spaces around it. -/
def pieceName (piece : Bytes) : Bytes := strip 32 (strsep 58 piece).1

/-- The text between the first colon and the next one. -/
def pieceValue (piece : Bytes) : Option Bytes :=
  (strsep 58 piece).2.map fun line => (strsep 58 line).1

def NamesType (piece : Bytes) : Prop := sameNoCase (pieceName piece) (str "Content-Type")
def NamesLength (piece : Bytes) : Prop := sameNoCase (pieceName piece) (str "Content-Length")

instance (piece : Bytes) : Decidable (NamesType piece) :=
  inferInstanceAs (Decidable (sameNoCase _ _))
instance (piece : Bytes) : Decidable (NamesLength piece) :=
  inferInstanceAs (Decidable (sameNoCase _ _))

/-- There is a name, and a value behind the two names that are looked for. -/
structure Legible (piece : Bytes) : Prop where
  name : pieceName piece ≠ []
  value : NamesType piece ∨ NamesLength piece → ∃ v, pieceValue piece = some v

/-- Something is left of what is trimmed. -/
structure Digestible (piece : Bytes) : Prop where
  name : pieceName piece ≠ []
  type : NamesType piece → ∃ v, pieceValue piece = some v ∧ strip 13 (strip 10 (strip 32 v)) ≠ []
  length : NamesLength piece → ∃ v, pieceValue piece = some v ∧ strip 32 v ≠ []

theorem Digestible.legible {piece : Bytes} (h : Digestible piece) : Legible piece where
  name := h.name
  value := by
    rintro (htype | hlength)
    · obtain ⟨v, hv, -⟩ := h.type htype
      exact ⟨v, hv⟩
    · obtain ⟨v, hv, -⟩ := h.length hlength
      exact ⟨v, hv⟩

theorem not_namesLength_of_namesType {piece : Bytes} (h : NamesType piece) :
    ¬ NamesLength piece := by
  intro hl
  have heq : (str "Content-Type").map toLower = (str "Content-Length").map toLower :=
    Eq.trans (Eq.symm h) hl
  exact absurd heq (by decide)

def pieceNumber (piece : Bytes) : Option Int32 :=
  if NamesLength piece then (pieceValue piece).map fun v => atoi (strip 32 v) else none

def statedLength (ps : List Bytes) : Option Int32 := (ps.filterMap pieceNumber).getLast?

/-- What a piece leaves in the two fields. -/
def readInto (st : HeaderInfo) (piece : Bytes) : HeaderInfo where
  ctype := if NamesType piece then (pieceValue piece).map fun v => strip 13 (strip 10 (strip 32 v))
    else st.ctype
  clen := (pieceNumber piece).getD st.clen

theorem headerLine_named {piece : Bytes} (h : pieceName piece ≠ []) (st : HeaderInfo) :
    headerLine piece st =
      if NamesType piece then do
        let line ← strdup (strsep 58 piece).2
        return { st with ctype := some (strip 13 (strip 10 (strip 32 (strsep 58 line).1))) }
      else if NamesLength piece then do
        let line ← strdup (strsep 58 piece).2
        return { st with clen := atoi (strip 32 (strsep 58 line).1) }
      else return st := by
  have htrim : trim (strsep 58 piece).1 32 = .ok (pieceName piece) := trim_ok_iff.mpr ⟨h, rfl⟩
  have hspace : ∀ s, trimBehind 0 s 32 = .ok (strip 32 s) := trimBehind_nul (by decide)
  have hnewline : ∀ s, trimBehind 0 s 10 = .ok (strip 10 s) := trimBehind_nul (by decide)
  have hreturn : ∀ s, trimBehind 0 s 13 = .ok (strip 13 s) := trimBehind_nul (by decide)
  simp only [headerLine, htrim, hspace, hnewline, hreturn, NamesType, NamesLength]
  rfl

theorem headerLine_unnamed {piece : Bytes} (h : pieceName piece = []) (st : HeaderInfo) :
    headerLine piece st = .error .outOfBounds := by
  have htrim : trim (strsep 58 piece).1 32 = .error .outOfBounds := by
    rw [trim_eq]
    exact if_pos h
  simp only [headerLine, htrim]
  rfl

theorem pieceValue_of_eq_none {piece : Bytes} (h : (strsep 58 piece).2 = none) :
    pieceValue piece = none := by
  rw [pieceValue, h]
  rfl

theorem pieceValue_of_eq_some {piece line : Bytes} (h : (strsep 58 piece).2 = some line) :
    pieceValue piece = some (strsep 58 line).1 := by
  rw [pieceValue, h]
  rfl

/-- The loop body returns on the legible pieces. -/
theorem headerLine_ok_iff {piece : Bytes} {st st' : HeaderInfo} :
    headerLine piece st = .ok st' ↔ Legible piece ∧ readInto st piece = st' := by
  by_cases hname : pieceName piece = []
  · rw [headerLine_unnamed hname]
    constructor
    · intro h
      cases h
    · intro h
      exact absurd hname h.1.name
  · rw [headerLine_named hname, readInto, pieceNumber]
    cases hline : (strsep 58 piece).2 with
    | none =>
        have hnone := pieceValue_of_eq_none hline
        by_cases hasked : NamesType piece ∨ NamesLength piece
        · have hillegible : ¬ Legible piece := by
            intro h
            obtain ⟨v, hv⟩ := h.value hasked
            cases hnone.symm.trans hv
          simp only [hillegible, false_and, iff_false]
          intro h
          rcases hasked with htype | hlength
          · rw [if_pos htype] at h
            cases h
          · rw [if_neg fun htype => not_namesLength_of_namesType htype hlength,
              if_pos hlength] at h
            cases h
        · obtain ⟨htype, hlength⟩ := not_or.mp hasked
          have hlegible : Legible piece := ⟨hname, fun h => absurd h hasked⟩
          simp [htype, hlength, hlegible, pure, Except.pure]
    | some line =>
        have hvalue := pieceValue_of_eq_some hline
        have hlegible : Legible piece := ⟨hname, fun _ => ⟨_, hvalue⟩⟩
        simp only [strdup, hvalue, hlegible, true_and, Option.map_some]
        by_cases htype : NamesType piece
        · have hlength := not_namesLength_of_namesType htype
          simp [htype, hlength, bind, Except.bind, pure, Except.pure]
        · by_cases hlength : NamesLength piece
          · simp [htype, hlength, bind, Except.bind, pure, Except.pure]
          · simp [htype, hlength, pure, Except.pure]

theorem readHeader_ok_iff {st st' : HeaderInfo} {ps : List Bytes} :
    readHeader st ps = .ok st' ↔ (∀ p ∈ ps, Legible p) ∧ ps.foldl readInto st = st' := by
  induction ps generalizing st with
  | nil => simp [readHeader]
  | cons p ps ih =>
      rw [readHeader, List.foldl_cons, List.forall_mem_cons]
      cases hp : headerLine p st with
      | error e =>
          constructor
          · intro h
            cases h
          · intro h
            have hok : headerLine p st = .ok (readInto st p) := headerLine_ok_iff.mpr ⟨h.1.1, rfl⟩
            rw [hp] at hok
            cases hok
      | ok st₁ =>
          obtain ⟨hlegible, rfl⟩ := headerLine_ok_iff.mp hp
          exact ih.trans ⟨fun h => ⟨⟨hlegible, h.1⟩, h.2⟩, fun h => ⟨h.1.2, h.2⟩⟩

theorem foldl_ctype {st : HeaderInfo} {ps : List Bytes} (hps : ∀ p ∈ ps, Legible p) :
    (ps.foldl readInto st).ctype = none ↔ st.ctype = none ∧ ∀ p ∈ ps, ¬ NamesType p := by
  induction ps generalizing st with
  | nil => simp
  | cons p ps ih =>
      rw [List.forall_mem_cons] at hps
      rw [List.foldl_cons, ih hps.2, List.forall_mem_cons, readInto]
      by_cases htype : NamesType p
      · obtain ⟨v, hv⟩ := hps.1.value (Or.inl htype)
        simp [htype, hv]
      · simp [htype]

theorem foldl_clen (st : HeaderInfo) (ps : List Bytes) :
    (ps.foldl readInto st).clen = (statedLength ps).getD st.clen := by
  induction ps generalizing st with
  | nil => rfl
  | cons p ps ih =>
      rw [List.foldl_cons, ih, statedLength, statedLength, readInto]
      cases hp : pieceNumber p with
      | none => rw [List.filterMap_cons_none hp, Option.getD_none]
      | some n =>
          rw [List.filterMap_cons_some hp, List.getLast?_cons]
          cases (ps.filterMap pieceNumber).getLast? <;> rfl

/-! ## Cuts behind a newline -/

def WholeLines (s : Bytes) : Prop := ∀ b ∈ s.getLast?, b = 10

theorem WholeLines.mem {s : Bytes} (h : WholeLines s) (hne : s ≠ []) : 10 ∈ s := by
  have hlast := h (s.getLast hne) (by rw [List.getLast?_eq_some_getLast hne]; rfl)
  rw [← hlast]
  exact List.getLast_mem hne

theorem WholeLines.drop {s : Bytes} (h : WholeLines s) (n : Nat) : WholeLines (s.drop n) := by
  intro b hb
  rw [List.getLast?_drop] at hb
  split at hb
  · cases hb
  · exact h b hb

theorem uptoNewline_append {s : Bytes} (h : 10 ∈ s) (t : Bytes) :
    uptoNewline (s ++ t) = uptoNewline s := by
  induction s with
  | nil => cases h
  | cons c s ih =>
      rw [List.cons_append]
      by_cases hc : c = 10
      · rw [hc, uptoNewline_newline, uptoNewline_newline]
      · have hs : 10 ∈ s := (List.mem_cons.mp h).resolve_left (Ne.symm hc)
        rw [uptoNewline_cons hc, uptoNewline_cons hc, ih hs]

theorem firstPiece_append {s : Bytes} (h : 10 ∈ s) (t : Bytes) :
    firstPiece (s ++ t) = firstPiece s := by
  rw [firstPiece, firstPiece]
  by_cases hlen : maxBuff - 1 ≤ s.length
  · rw [List.take_append_of_le_length hlen]
  · have hshort : s.length ≤ maxBuff - 1 := by omega
    rw [List.take_append, List.take_of_length_le hshort, uptoNewline_append h]

/-- What follows a whole line is cut as if it stood alone. -/
theorem pieces_append {s : Bytes} (h : WholeLines s) (t : Bytes) :
    pieces (s ++ t) = pieces s ++ pieces t := by
  induction hn : s.length using Nat.strong_induction_on generalizing s with
  | _ n ih =>
      by_cases hne : s = []
      · rw [hne, pieces_nil]
        rfl
      · have hpos := firstPiece_length_pos hne
        have hlen := List.length_pos_iff.mpr hne
        have hrest := ih (s.drop (firstPiece s).length).length
          (by rw [List.length_drop]; omega) (h.drop _) rfl
        rw [pieces_of_ne_nil hne, pieces_of_ne_nil (by simp [hne]), firstPiece_append (h.mem hne),
          List.drop_append_of_le_length (firstPiece_le s).length_le, hrest, List.cons_append]

theorem pieces_crlf_append (after : Bytes) : pieces (crlf ++ after) = crlf :: pieces after := by
  have hfirst : firstPiece crlf = crlf := by decide
  have hlines : WholeLines crlf := fun b hb => (Option.some.inj hb).symm
  have hcrlf : pieces crlf = [crlf] := by
    rw [pieces_of_ne_nil (by decide), hfirst, List.drop_length, pieces_nil]
  rw [pieces_append hlines, hcrlf]
  rfl

/-! ## Messages -/

def headerBytes (lines : List Bytes) : Bytes := (lines.map (· ++ [10])).flatten

theorem headerBytes_wholeLines (lines : List Bytes) : WholeLines (headerBytes lines) := by
  induction lines with
  | nil =>
      intro b hb
      cases hb
  | cons line lines ih =>
      intro b hb
      rw [headerBytes, List.map_cons, List.flatten_cons, List.getLast?_append] at hb
      cases hlast : (headerBytes lines).getLast? with
      | none =>
          rw [headerBytes] at hlast
          rw [hlast] at hb
          simpa [eq_comm] using hb
      | some c =>
          rw [headerBytes] at hlast ih
          rw [hlast] at hb
          exact ih b (hlast ▸ hb)

theorem goesOn_crlf : goesOn crlf = false := by decide

/-- When no piece of the lines ends the loop, the blank line does. -/
theorem behindHeader_eq {lines : List Bytes} (h : ∀ p ∈ pieces (headerBytes lines), goesOn p = true)
    (after : Bytes) :
    headerPieces (headerBytes lines ++ (crlf ++ after)) = (pieces (headerBytes lines)).map cstr ∧
      behindHeader (headerBytes lines ++ (crlf ++ after)) = after := by
  rw [headerPieces, behindHeader, pieces_append (headerBytes_wholeLines lines), pieces_crlf_append,
    List.takeWhile_append_of_pos h, List.dropWhile_append_of_pos h,
    List.takeWhile_cons_of_neg (by simp [goesOn_crlf]),
    List.dropWhile_cons_of_neg (by simp [goesOn_crlf]), List.append_nil, List.tail_cons,
    pieces_flatten]
  exact ⟨rfl, rfl⟩

/-- When a piece of the lines ends the loop, more is left than what follows the blank line. -/
theorem behindHeader_gt {lines : List Bytes}
    (h : ¬ ∀ p ∈ pieces (headerBytes lines), goesOn p = true) (after : Bytes) :
    after.length < (behindHeader (headerBytes lines ++ (crlf ++ after))).length := by
  have hne : (pieces (headerBytes lines)).dropWhile goesOn ≠ [] := by
    rw [ne_eq, List.dropWhile_eq_nil_iff]
    exact h
  obtain ⟨p, ps, hps⟩ := List.exists_cons_of_ne_nil hne
  have hdrop : ∀ qs, (pieces (headerBytes lines) ++ qs).dropWhile goesOn = p :: (ps ++ qs) := by
    intro qs
    rw [List.dropWhile_append, hps]
    rfl
  rw [behindHeader, pieces_append (headerBytes_wholeLines lines), hdrop, List.tail_cons,
    List.flatten_append, pieces_flatten, List.length_append, List.length_append]
  simp only [crlf, List.length_cons, List.length_nil]
  omega

def stripSpace (s : Bytes) : Bytes := ((s.dropWhile isSpace).reverse.dropWhile isSpace).reverse

/-- The number behind the first colon of a line, when there is nothing else. -/
def lineNumber (line : Bytes) : Option Int :=
  match (strsep 58 line).2.map stripSpace with
  | some v => if matchInt v then some (leadingInt v) else none
  | none => none

/-- The last line named `Content-Length`. -/
def lengthLine (lines : List Bytes) : Option Bytes :=
  (lines.filter fun line =>
    sameNoCase (stripSpace (strsep 58 line).1) (str "Content-Length")).getLast?

/-- Header lines, the blank line behind them, and at least as many bytes as one of the
lines gives. -/
structure IsMessage (sock : Bytes) (lines : List Bytes) (after : Bytes) (n : Nat) : Prop where
  stream : sock = headerBytes lines ++ (crlf ++ after)
  noBlank : ∀ line ∈ lines, 10 ∉ line ∧ line ≠ [13]
  number : (lengthLine lines).bind lineNumber = some (n : Int)
  received : n ≤ after.length

/-- The texts that the loop body trims, with the bytes it takes off. The pointer is NULL where
there is no text. -/
def trimmed (piece : Bytes) : List (Option Bytes × Byte) :=
  (some (strsep 58 piece).1, 32) ::
    (if NamesType piece then
      [(pieceValue piece, 32), ((pieceValue piece).map (strip 32), 10),
        ((pieceValue piece).map fun v => strip 10 (strip 32 v), 13)]
    else if NamesLength piece then [(pieceValue piece, 32)]
    else [])

/-- `trim` gets a text, and finds another byte before it would leave it. -/
def StaysInside (call : Option Bytes × Byte) : Prop :=
  ∃ s, call.1 = some s ∧ ∃ b ∈ s, b ≠ call.2

/-- No call of `trim` leaves its text, and the decoder gives NULL, or it reads one message and
gives its body. -/
structure DecodesBody (heap : Nat → Byte) (sock : Bytes) : Prop where
  trims : ∀ piece ∈ headerPieces sock, ∀ call ∈ trimmed piece, StaysInside call
  body : (∃ rest, decodeRpcStream heap sock = .ok (none, rest)) ∨
    ∃ lines after n, IsMessage sock lines after n ∧
      decodeRpcStream heap sock = .ok (some (after.take n), after.drop n)

/-- No piece of the header lines ends the header, and the number read from the pieces is
the number of the line. -/
structure CutsAgree (lines : List Bytes) (clen : Int32) (n : Nat) : Prop where
  noStop : ∀ p ∈ pieces (headerBytes lines), goesOn p = true
  number : clen.toInt = n
  fits : n < 2147483647

/-- Every piece read as a header line is digestible; with a content type and a length
other than `-1` the stream is a message that the cuts leave as it is. -/
def CleanHeader (sock : Bytes) : Prop :=
  (∀ p ∈ headerPieces sock, Digestible p) ∧
  ((∃ p ∈ headerPieces sock, NamesType p) → ∀ clen ∈ statedLength (headerPieces sock), clen ≠ -1 →
    ∃ lines after n, IsMessage sock lines after n ∧ CutsAgree lines clen n)

theorem staysInside_iff (v : Option Bytes) (delim : Byte) :
    StaysInside (v, delim) ↔ ∃ s, v = some s ∧ strip delim s ≠ [] := by
  simp [StaysInside, strip_eq_nil_iff]

theorem strip_ne_nil {delim : Byte} {s : Bytes} (h : strip delim s ≠ []) : s ≠ [] := by
  intro heq
  rw [heq] at h
  exact h rfl

/-- What is trimmed last was left of all that was trimmed before. -/
theorem digestible_iff (piece : Bytes) :
    Digestible piece ↔ ∀ call ∈ trimmed piece, StaysInside call := by
  constructor
  · intro h
    rw [trimmed, List.forall_mem_cons, staysInside_iff]
    refine ⟨⟨_, rfl, h.name⟩, ?_⟩
    by_cases htype : NamesType piece
    · obtain ⟨v, hv, h₁₃⟩ := h.type htype
      have h₁₀ := strip_ne_nil h₁₃
      have h₃₂ := strip_ne_nil h₁₀
      simp [htype, hv, staysInside_iff, h₁₃, h₁₀, h₃₂]
    · by_cases hlength : NamesLength piece
      · obtain ⟨v, hv, h₃₂⟩ := h.length hlength
        simp [htype, hlength, hv, staysInside_iff, h₃₂]
      · simp [htype, hlength]
  · intro h
    rw [trimmed, List.forall_mem_cons, staysInside_iff] at h
    obtain ⟨⟨name, hname, hne⟩, h⟩ := h
    cases hname
    refine ⟨hne, fun htype => ?_, fun hlength => ?_⟩
    · have hlast := h ((pieceValue piece).map fun v => strip 10 (strip 32 v), 13) (by simp [htype])
      rw [staysInside_iff] at hlast
      obtain ⟨s, hs, h₁₃⟩ := hlast
      obtain ⟨v, hv, rfl⟩ := Option.map_eq_some_iff.mp hs
      exact ⟨v, hv, h₁₃⟩
    · have htype : ¬ NamesType piece := fun htype => not_namesLength_of_namesType htype hlength
      have honly := h (pieceValue piece, 32) (by simp [htype, hlength])
      rwa [staysInside_iff] at honly

def bodyBytes (heap : Nat → Byte) (n : Nat) (sock : Bytes) : Bytes :=
  sock.take n ++
    (List.range (n - (sock.take n).length)).map fun i => heap ((sock.take n).length + i)

theorem bodyBytes_length (heap : Nat → Byte) (n : Nat) (sock : Bytes) :
    (bodyBytes heap n sock).length = n := by
  simp only [bodyBytes, List.length_append, List.length_map, List.length_range, List.length_take]
  omega

theorem bodyBytes_of_le {n : Nat} {sock : Bytes} (h : n ≤ sock.length) (heap : Nat → Byte) :
    bodyBytes heap n sock = sock.take n := by
  have hmissing : n - (sock.take n).length = 0 := by
    rw [List.length_take]
    omega
  rw [bodyBytes, hmissing, List.range_zero, List.map_nil, List.append_nil]

def headerInfo (sock : Bytes) : HeaderInfo := (headerPieces sock).foldl readInto ⟨none, -1⟩

theorem decodeRpcStream_legible {sock : Bytes} (h : ∀ p ∈ headerPieces sock, Legible p)
    (heap : Nat → Byte) :
    decodeRpcStream heap sock =
      if (headerInfo sock).ctype = none ∨ (headerInfo sock).clen = -1 then
        .ok (none, behindHeader sock)
      else if (headerInfo sock).clen < 0 ∨ (headerInfo sock).clen = 2147483647 then
        .error .negativeLength
      else .ok (some (bodyBytes heap (headerInfo sock).clen.toInt.toNat (behindHeader sock)),
        (behindHeader sock).drop (headerInfo sock).clen.toInt.toNat) := by
  have hread : readHeader ⟨none, -1⟩ (headerPieces sock) = .ok (headerInfo sock) :=
    readHeader_ok_iff.mpr ⟨h, rfl⟩
  rw [decodeRpcStream, headerLines_eq, hread]
  rfl

theorem body_iff {sock : Bytes} {lines : List Bytes} {after : Bytes} {n : Nat}
    (h : IsMessage sock lines after n) (heap : Nat → Byte) (k : Nat) :
    bodyBytes heap k (behindHeader sock) = after.take n ∧
      (behindHeader sock).drop k = after.drop n ↔
      (∀ p ∈ pieces (headerBytes lines), goesOn p = true) ∧ k = n := by
  rw [h.stream]
  have hn := h.received
  constructor
  · intro hbody
    have hk : k = n := by
      have hlen := congrArg List.length hbody.1
      rw [bodyBytes_length, List.length_take] at hlen
      omega
    refine ⟨?_, hk⟩
    by_contra hstop
    have hgt := behindHeader_gt hstop after
    have hrest := congrArg List.length hbody.2
    rw [List.length_drop, List.length_drop] at hrest
    omega
  · intro hcut
    rw [(behindHeader_eq hcut.1 after).2, hcut.2, bodyBytes_of_le hn]
    exact ⟨rfl, rfl⟩

/-- Where the body is read, both fields were given by header pieces. -/
theorem headerInfo_given {sock : Bytes} (h : ∀ p ∈ headerPieces sock, Legible p)
    (hgiven : ¬ ((headerInfo sock).ctype = none ∨ (headerInfo sock).clen = -1)) :
    (∃ p ∈ headerPieces sock, NamesType p) ∧
      statedLength (headerPieces sock) = some (headerInfo sock).clen := by
  obtain ⟨hctype, hclen⟩ := not_or.mp hgiven
  constructor
  · by_contra hnone
    have hnames : ∀ p ∈ headerPieces sock, ¬ NamesType p := fun p hp ht => hnone ⟨p, hp, ht⟩
    exact hctype ((foldl_ctype h).mpr ⟨rfl, hnames⟩)
  · have hfold := foldl_clen ⟨none, -1⟩ (headerPieces sock)
    cases hstated : statedLength (headerPieces sock) with
    | none =>
        rw [hstated] at hfold
        exact absurd hfold hclen
    | some clen =>
        rw [hstated] at hfold
        exact congrArg some hfold.symm

theorem headerInfo_missing {sock : Bytes} (h : ∀ p ∈ headerPieces sock, Legible p)
    (hnull : (headerInfo sock).ctype = none ∨ (headerInfo sock).clen = -1) :
    (∃ p ∈ headerPieces sock, NamesType p) →
      ∀ clen ∈ statedLength (headerPieces sock), clen = -1 := by
  intro htype clen hclen
  cases hnull with
  | inl hctype =>
      obtain ⟨p, hp, hnames⟩ := htype
      exact absurd hnames (((foldl_ctype h).mp hctype).2 p hp)
  | inr hone =>
      rw [headerInfo, foldl_clen, Option.mem_def.mp hclen] at hone
      exact hone

/-- A body is given with a length that is an `int`, and not the greatest one. -/
theorem fits_iff (clen : Int32) :
    ¬ (clen < 0 ∨ clen = 2147483647) ↔ 0 ≤ clen.toInt ∧ clen.toInt < 2147483647 := by
  have hlt := clen.toInt_lt
  rw [Int32.lt_iff_toInt_lt, ← Int32.toInt_inj]
  have hmax : (2147483647 : Int32).toInt = 2147483647 := by decide
  have hzero : (0 : Int32).toInt = 0 := by decide
  omega

/-- The decoder gives NULL or the body of a message exactly on clean headers. -/
theorem decodesBody_iff (heap : Nat → Byte) (sock : Bytes) :
    DecodesBody heap sock ↔ CleanHeader sock := by
  by_cases hdigest : ∀ p ∈ headerPieces sock, Digestible p
  · have hread : ∀ p ∈ headerPieces sock, Legible p := fun p hp => (hdigest p hp).legible
    have htrims : ∀ p ∈ headerPieces sock, ∀ call ∈ trimmed p, StaysInside call :=
      fun p hp => (digestible_iff p).mp (hdigest p hp)
    by_cases hnull : (headerInfo sock).ctype = none ∨ (headerInfo sock).clen = -1
    · have hmissing := headerInfo_missing hread hnull
      constructor
      · intro _
        exact ⟨hdigest, fun htype clen hclen hne => absurd (hmissing htype clen hclen) hne⟩
      · intro _
        refine ⟨htrims, Or.inl ⟨behindHeader sock, ?_⟩⟩
        rw [decodeRpcStream_legible hread, if_pos hnull]
    · obtain ⟨htype, hstated⟩ := headerInfo_given hread hnull
      have hclen := (not_or.mp hnull).2
      constructor
      · intro h
        refine ⟨hdigest, fun _ clen hmem _ => ?_⟩
        obtain rfl : (headerInfo sock).clen = clen := Option.some.inj (hstated.symm.trans hmem)
        have hdecode := h.body
        rw [decodeRpcStream_legible hread, if_neg hnull] at hdecode
        by_cases hbad : (headerInfo sock).clen < 0 ∨ (headerInfo sock).clen = 2147483647
        · rw [if_pos hbad] at hdecode
          simp at hdecode
        · rw [if_neg hbad] at hdecode
          cases hdecode with
          | inl hnone =>
              obtain ⟨rest, hrest⟩ := hnone
              cases hrest
          | inr hsome =>
              obtain ⟨lines, after, n, hmessage, hbody⟩ := hsome
              simp only [Except.ok.injEq, Prod.mk.injEq, Option.some.injEq] at hbody
              obtain ⟨hstop, hn⟩ := (body_iff hmessage heap _).mp hbody
              have hfits := (fits_iff _).mp hbad
              exact ⟨lines, after, n, hmessage, hstop, by omega, by omega⟩
      · intro h
        obtain ⟨lines, after, n, hmessage, hcut⟩ := h.2 htype _ hstated hclen
        have hnumber := hcut.number
        have hfits := hcut.fits
        have hbody := (body_iff hmessage heap (headerInfo sock).clen.toInt.toNat).mpr
          ⟨hcut.noStop, by omega⟩
        refine ⟨htrims, Or.inr ⟨lines, after, n, hmessage, ?_⟩⟩
        rw [decodeRpcStream_legible hread, if_neg hnull, if_neg ((fits_iff _).mpr (by omega)),
          hbody.1, hbody.2]
  · constructor
    · intro h
      exact absurd (fun p hp => (digestible_iff p).mpr (h.trims p hp)) hdigest
    · intro h
      exact absurd h.1 hdigest

/-- Of an empty content type nothing is left to take the last byte off. -/
theorem decodesBody_broken : ¬ DecodesBody (fun _ => 0) (str "Content-Type:\r\n\r\n") := by
  have hmem : str "Content-Type:\r\n" ∈ headerPieces (str "Content-Type:\r\n\r\n") := by
    have hfirst : firstPiece (str "Content-Type:\r\n\r\n") = str "Content-Type:\r\n" := by decide
    rw [headerPieces, pieces_of_ne_nil (by decide), hfirst, List.takeWhile_cons_of_pos (by decide)]
    exact List.mem_cons_self
  intro h
  have hpiece := (digestible_iff _).mpr (h.trims _ hmem)
  obtain ⟨v, hv, hne⟩ := hpiece.type (by decide)
  have hvalue : pieceValue (str "Content-Type:\r\n") = some (str "\r\n") := by decide
  obtain rfl : str "\r\n" = v := Option.some.inj (hvalue.symm.trans hv)
  exact hne (by decide)

end STRos
