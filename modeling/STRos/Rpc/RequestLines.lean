import STRos.Rpc.LinePieces
import STRos.Rpc.Server

/-! # Which request lines reach parse_request

The three loops of `stros_accept_request` stop at the whitespace of the line they read,
at the ends of their arrays, or at the end of the buffer. A token that was cut is longer
than the texts it is compared with.
-/

namespace STRos

open CString

/-! ## The loops on the buffer -/

def charsFrom (bounded : Bool) (buf : Nat → Byte) : Nat → Nat → Bytes
  | 0, _ => []
  | room + 1, j =>
      if isSpace (buf j) = false ∧ (bounded = true → j < maxBuff) then
        buf j :: charsFrom bounded buf room (j + 1)
      else []

theorem scanToken_stop {bounded : Bool} {size : Nat} {buf : Nat → Byte} {i j : Nat}
    (h : ¬ (isSpace (buf j) = false ∧ i + 1 < size ∧ (bounded = true → j < maxBuff)))
    {written : Bytes} (hi : written.length = i) (x : Byte) (rest : Bytes) :
    scanToken bounded size buf (written ++ x :: rest) i j = .ok (written ++ 0 :: rest, j) := by
  rw [scanToken, if_neg h, ← hi, Block.store_append_cons]
  rfl

/-- A loop stores what it copies and a NUL behind it, all inside of its array. -/
theorem scanToken_eq (bounded : Bool) {size : Nat} (buf : Nat → Byte) (written rest : Bytes)
    (j room : Nat) (hsize : written.length + rest.length = size)
    (hroom : written.length + room + 1 = size) :
    scanToken bounded size buf (written ++ rest) written.length j =
      .ok (written ++ charsFrom bounded buf room j ++
          0 :: rest.drop ((charsFrom bounded buf room j).length + 1),
        j + (charsFrom bounded buf room j).length) := by
  induction room generalizing written rest j with
  | zero =>
      cases rest with
      | nil =>
          rw [List.length_nil] at hsize
          omega
      | cons x rest =>
          rw [scanToken_stop (fun h => by omega) rfl]
          simp [charsFrom]
  | succ room ih =>
      cases rest with
      | nil =>
          rw [List.length_nil] at hsize
          omega
      | cons x rest =>
          rw [List.length_cons] at hsize
          by_cases hgo : isSpace (buf j) = false ∧ (bounded = true → j < maxBuff)
          · have hwritten : (written ++ [buf j]).length = written.length + 1 := by simp
            have hstored : written ++ buf j :: rest = written ++ [buf j] ++ rest := by simp
            have hrest := ih (written ++ [buf j]) rest (j + 1) (by rw [hwritten]; omega)
              (by rw [hwritten]; omega)
            rw [hwritten] at hrest
            rw [scanToken, if_pos ⟨hgo.1, by omega, hgo.2⟩, Block.store_append_cons, charsFrom,
              if_pos hgo]
            simp only [inBounds, bind, Except.bind]
            rw [hstored, hrest]
            simp only [List.append_assoc, List.cons_append, List.nil_append, List.length_cons,
              List.drop_succ_cons, Except.ok.injEq, Prod.mk.injEq, true_and]
            omega
          · rw [scanToken_stop (fun h => hgo ⟨h.1, h.2.2⟩) rfl, charsFrom, if_neg hgo]
            simp

/-! ## The loops on what was read -/

def verdictOf (method url : Bytes) : Verdict :=
  if ¬ sameNoCase method (str "POST") then .notPost
  else if url ≠ str "/RPC2" then .notRpc else .parses

theorem verdictOf_parses {method url : Bytes} :
    verdictOf method url = .parses ↔ sameNoCase method (str "POST") ∧ url = str "/RPC2" := by
  unfold verdictOf
  by_cases hmethod : sameNoCase method (str "POST")
  · by_cases hurl : url = str "/RPC2"
    · simp [hmethod, hurl]
    · simp [hmethod, hurl]
  · simp [hmethod]

section Buffer

variable {b : Bytes} (behind : Byte)

theorem charsFrom_list (hb : b.length = maxBuff) {bounded : Bool} {room j : Nat}
    (h : bounded = true ∨ j + room ≤ b.length) :
    charsFrom bounded (fun j => b[j]?.getD behind) room j =
      ((b.drop j).takeWhile fun c => !isSpace c).take room := by
  induction room generalizing j with
  | zero => rfl
  | succ room ih =>
      by_cases hj : j < b.length
      · have hnext : bounded = true ∨ j + 1 + room ≤ b.length := h.imp id (by omega)
        have hin : bounded = true → j < maxBuff := fun _ => hb ▸ hj
        rw [charsFrom, ih hnext, List.drop_eq_getElem_cons hj, List.getElem?_eq_getElem hj,
          Option.getD_some]
        by_cases hspace : isSpace b[j] = true
        · simp [hspace]
        · rw [Bool.not_eq_true] at hspace
          rw [if_pos ⟨hspace, hin⟩, List.takeWhile_cons_of_pos (by simp [hspace]),
            List.take_succ_cons]
      · have hbounded : bounded = true := h.resolve_right (by omega)
        have hout : ¬ (bounded = true → j < maxBuff) := fun h => hj (hb ▸ h hbounded)
        rw [charsFrom, if_neg fun h => hout h.2, List.drop_eq_nil_of_le (by omega)]
        rfl

theorem skipSpaces_list (hb : b.length = maxBuff) (j : Nat) :
    b.drop (skipSpaces (fun j => b[j]?.getD behind) j) = (b.drop j).dropWhile isSpace := by
  fun_induction skipSpaces (fun j => b[j]?.getD behind) j with
  | case1 j hgo ih =>
      have hj : j < b.length := by omega
      have hspace := hgo.1
      rw [List.getElem?_eq_getElem hj, Option.getD_some] at hspace
      rw [ih, List.drop_eq_getElem_cons hj, List.dropWhile_cons_of_pos hspace]
  | case2 j hstop =>
      by_cases hj : j < b.length
      · have hspace : isSpace b[j] = false := by
          rw [Bool.eq_false_iff]
          intro hspace
          exact hstop ⟨by rw [List.getElem?_eq_getElem hj]; exact hspace, by omega⟩
        rw [List.drop_eq_getElem_cons hj, List.dropWhile_cons_of_neg (by simp [hspace])]
      · rw [List.drop_eq_nil_of_le (by omega)]
        rfl

/-- The loops find the two texts of the connection, whatever is behind the buffer. -/
theorem scanRequest_eq (hb : b.length = maxBuff) {method url : Bytes}
    (hmethod : method.length = sizeofMethod) (hurl : url.length = sizeofUrl) :
    scanRequest (fun j => b[j]?.getD behind) method url =
      .ok (verdictOf (cstr (requestMethod b)) (cstr (requestUrl b))) := by
  have hcstr : ∀ t rest : Bytes, cstr (t ++ 0 :: rest) = cstr t := by
    intro t rest
    induction t with
    | nil => rfl
    | cons c t ih =>
        by_cases hc : c = 0
        · rw [hc, List.cons_append, cstr_zero_cons, cstr_zero_cons]
        · simpa [cstr, hc] using ih
  have hfirst : charsFrom false (fun j => b[j]?.getD behind) 254 0 = requestMethod b := by
    rw [charsFrom_list behind hb (Or.inr (by rw [hb]; decide)), List.drop_zero, requestMethod]
  have hsecond : charsFrom true (fun j => b[j]?.getD behind) 254
      (skipSpaces (fun j => b[j]?.getD behind) (requestMethod b).length) = requestUrl b := by
    rw [charsFrom_list behind hb (Or.inl rfl), skipSpaces_list behind hb, requestUrl]
  have hlen₁ : ([] : Bytes).length + method.length = sizeofMethod := by simpa using hmethod
  have hlen₂ : ([] : Bytes).length + url.length = sizeofUrl := by simpa using hurl
  have hscan₁ := scanToken_eq false (fun j => b[j]?.getD behind) [] method 0 254 hlen₁ rfl
  have hscan₂ := scanToken_eq true (fun j => b[j]?.getD behind) [] url
    (skipSpaces (fun j => b[j]?.getD behind) (requestMethod b).length) 254 hlen₂ rfl
  rw [hfirst] at hscan₁
  rw [hsecond] at hscan₂
  simp only [List.nil_append, List.length_nil, Nat.zero_add] at hscan₁ hscan₂
  unfold scanRequest scanMethod scanUrl verdictOf
  rw [hscan₁]
  simp only [bind, Except.bind, hcstr]
  split
  · rfl
  · rw [hscan₂]
    simp only [hcstr]
    split
    · rfl
    · rfl

end Buffer

/-! ## Words of a line -/

def whitespace : Bytes := [9, 10, 11, 12, 13, 32]

theorem mem_whitespace (c : Byte) : c ∈ whitespace ↔ isSpace c = true := by
  simp only [whitespace, isSpace, List.mem_cons, List.not_mem_nil, or_false, Bool.or_eq_true,
    Bool.and_eq_true, decide_eq_true_eq, ← UInt8.toNat_inj]
  have h : ∀ n, (UInt8.ofNat n).toNat = n % 256 := fun n => UInt8.toNat_ofNat'
  constructor
  · intro hc
    rcases hc with hc | hc | hc | hc | hc | hc <;> rw [hc] <;> decide
  · intro hc
    have h9 : (9 : Byte).toNat = 9 := rfl
    have h10 : (10 : Byte).toNat = 10 := rfl
    have h11 : (11 : Byte).toNat = 11 := rfl
    have h12 : (12 : Byte).toNat = 12 := rfl
    have h13 : (13 : Byte).toNat = 13 := rfl
    have h32 : (32 : Byte).toNat = 32 := rfl
    omega

def word (s : Bytes) : Bytes := s.takeWhile fun c => !isSpace c

theorem word_append (s : Bytes) : word s ++ s.drop (word s).length = s :=
  List.prefix_iff_eq_append.mp (List.takeWhile_prefix _)

theorem not_mem_whitespace_word {s : Bytes} : ∀ b ∈ word s, b ∉ whitespace := by
  intro b hb hmem
  have hspace := List.mem_takeWhile_imp hb
  rw [(mem_whitespace b).mp hmem] at hspace
  cases hspace

theorem tokens_dropSpaces (s : Bytes) :
    tokens whitespace (s.dropWhile isSpace) = tokens whitespace s := by
  induction s with
  | nil => rfl
  | cons c s ih =>
      by_cases hc : isSpace c = true
      · rw [List.dropWhile_cons_of_pos hc, ih, tokens_cons_delim ((mem_whitespace c).mpr hc)]
      · rw [List.dropWhile_cons_of_neg hc]

/-- A text that starts with a word is this word and those of the rest. -/
theorem tokens_word {s : Bytes} (h : word s ≠ []) :
    tokens whitespace s = word s :: tokens whitespace (s.drop (word s).length) := by
  cases hrest : s.drop (word s).length with
  | nil =>
      have happend := word_append s
      rw [hrest, List.append_nil] at happend
      rw [tokens_nil]
      nth_rewrite 1 [← happend]
      exact tokens_of_delimFree not_mem_whitespace_word h
  | cons c rest =>
      have happend := word_append s
      rw [hrest] at happend
      have hc : c ∈ whitespace := by
        rw [mem_whitespace]
        by_contra hspace
        rw [Bool.not_eq_true] at hspace
        have hwords : ∀ b ∈ word s, (!isSpace b) = true := by
          intro b hb
          exact List.mem_takeWhile_imp (p := fun c => !isSpace c) hb
        have hword : word (word s ++ c :: rest) = word s ++ word (c :: rest) :=
          List.takeWhile_append_of_pos hwords
        rw [happend] at hword
        have hnil := List.append_right_eq_self.mp hword.symm
        simp [word, hspace] at hnil
      rw [tokens_cons_delim hc]
      nth_rewrite 1 [← happend]
      exact tokens_append_cons not_mem_whitespace_word h hc rest

/-- What a space starts has no part in the word in front of it. -/
theorem word_append_space (s : Bytes) {c : Byte} (hc : isSpace c = true) (t : Bytes) :
    word (s ++ c :: t) = word s := by
  induction s with
  | nil => simp [word, hc]
  | cons b s ih =>
      by_cases hb : isSpace b = true
      · simp [word, hb]
      · rw [Bool.not_eq_true] at hb
        simpa [word, hb] using ih

theorem take_eq_of_short {s t : Bytes} {n : Nat} (h : t.length < n) : s.take n = t ↔ s = t := by
  constructor
  · intro htake
    have hlen : s.length ≤ n := by
      have := congrArg List.length htake
      rw [List.length_take] at this
      omega
    rwa [List.take_of_length_le hlen] at htake
  · rintro rfl
    exact List.take_of_length_le h.le

theorem sameNoCase_take {s t : Bytes} {n : Nat} (h : t.length < n) :
    sameNoCase (s.take n) t ↔ sameNoCase s t := by
  unfold sameNoCase
  rw [List.map_take]
  exact take_eq_of_short (by rwa [List.length_map])

/-! ## The lines that are recognised -/

/-- A line that names the method and the path of the calls. -/
def IsRpcPost (line : Bytes) : Prop :=
  (∀ c ∈ line.head?, isSpace c = false) ∧
    ∃ method more, tokens whitespace line = method :: str "/RPC2" :: more ∧
      sameNoCase method (str "POST")

theorem word_eq_nil_iff {line : Bytes} :
    word line = [] ↔ line = [] ∨ ∃ c ∈ line.head?, isSpace c = true := by
  cases line with
  | nil => simp [word]
  | cons c line =>
      by_cases hc : isSpace c = true
      · simp [word, hc]
      · simp [word, hc]

theorem tokens_head {s : Bytes} (h : s ≠ []) (hs : ∀ c ∈ s.head?, isSpace c = false) :
    tokens whitespace s = word s :: tokens whitespace (s.drop (word s).length) := by
  apply tokens_word
  intro hnil
  cases word_eq_nil_iff.mp hnil with
  | inl hempty => exact h hempty
  | inr hspace =>
      obtain ⟨c, hc, hspace⟩ := hspace
      rw [hs c hc] at hspace
      cases hspace

/-- In the buffer a line is followed by its newline, a NUL and what was there before. -/
theorem requestMethod_line (line junk : Bytes) :
    requestMethod (line ++ 10 :: 0 :: junk) = (word line).take 254 := by
  have hword := word_append_space line (c := 10) rfl (0 :: junk)
  rw [requestMethod, ← hword, word]

/-- Behind a word that was not cut the second loop finds the next one; where there is
none it stops at the NUL. -/
theorem requestUrl_line {line : Bytes} (hline : NulFree line) (junk : Bytes)
    (hlen : (word line).length < 254) :
    cstr (requestUrl (line ++ 10 :: 0 :: junk)) =
      (word ((line.drop (word line).length).dropWhile isSpace)).take 254 := by
  have hle : (word line).length ≤ line.length := (List.takeWhile_prefix _).length_le
  rw [requestUrl, requestMethod_line, List.take_of_length_le hlen.le,
    List.drop_append_of_le_length hle, List.dropWhile_append]
  by_cases hnone : (line.drop (word line).length).dropWhile isSpace = []
  · -- Only whitespace is left.
    rw [hnone, List.isEmpty_nil, if_pos rfl]
    have hten : isSpace 10 = true := rfl
    have hzero : isSpace 0 = false := rfl
    rw [List.dropWhile_cons_of_pos hten, List.dropWhile_cons_of_neg (by rw [hzero]; decide),
      List.takeWhile_cons_of_pos (by rw [hzero]; rfl)]
    rfl
  · have hsome : ((line.drop (word line).length).dropWhile isSpace).isEmpty = false := by
      simpa using hnone
    have hnul : NulFree ((line.drop (word line).length).dropWhile isSpace) := by
      intro hmem
      exact hline (List.mem_of_mem_drop ((List.dropWhile_suffix isSpace).subset hmem))
    have hword := word_append_space ((line.drop (word line).length).dropWhile isSpace)
      (c := 10) rfl (0 :: junk)
    rw [hsome, if_neg Bool.false_ne_true, ← word, hword]
    apply cstr_of_nulFree
    apply NulFree.take
    intro hmem
    exact hnul ((List.takeWhile_prefix _).subset hmem)

/-- The comparisons of the two tokens accept the lines that are a call. -/
theorem recognised_iff {line : Bytes} (hline : NulFree line) (junk : Bytes) :
    (sameNoCase (cstr (requestMethod (line ++ 10 :: 0 :: junk))) (str "POST") ∧
      cstr (requestUrl (line ++ 10 :: 0 :: junk)) = str "/RPC2") ↔ IsRpcPost line := by
  have hword : NulFree (word line) := fun hmem => hline ((List.takeWhile_prefix _).subset hmem)
  have hmethod : cstr (requestMethod (line ++ 10 :: 0 :: junk)) = (word line).take 254 := by
    rw [requestMethod_line]
    exact cstr_of_nulFree (hword.take 254)
  have hpost : sameNoCase (word line) (str "POST") → (word line).length = 4 := by
    intro h
    have hlength := congrArg List.length h
    rw [List.length_map, List.length_map] at hlength
    exact hlength
  rw [hmethod, sameNoCase_take (by decide)]
  constructor
  · intro h
    have hlen := hpost h.1
    have hne : word line ≠ [] := by
      intro hnil
      rw [hnil] at hlen
      cases hlen
    have hurl := h.2
    rw [requestUrl_line hline junk (by omega), take_eq_of_short (by decide)] at hurl
    constructor
    · intro c hc
      rw [Bool.eq_false_iff]
      intro hspace
      exact hne (word_eq_nil_iff.mpr (Or.inr ⟨c, hc, hspace⟩))
    · have hurlne : word ((line.drop (word line).length).dropWhile isSpace) ≠ [] := by
        rw [hurl]
        decide
      have htokens := tokens_word hurlne
      rw [tokens_dropSpaces, hurl] at htokens
      exact ⟨word line, _, by rw [tokens_word hne, htokens], h.1⟩
  · intro h
    obtain ⟨hhead, method, more, htokens, hsame⟩ := h
    have hne : line ≠ [] := by
      rintro rfl
      rw [tokens_nil] at htokens
      cases htokens
    rw [tokens_head hne hhead] at htokens
    obtain ⟨hfirst, hrest⟩ := List.cons.inj htokens
    have hsame : sameNoCase (word line) (str "POST") := by rwa [hfirst]
    have hlen := hpost hsame
    constructor
    · exact hsame
    · rw [requestUrl_line hline junk (by omega), take_eq_of_short (by decide)]
      rw [← tokens_dropSpaces] at hrest
      have hsecond : word ((line.drop (word line).length).dropWhile isSpace) ≠ [] := by
        intro hnil
        cases word_eq_nil_iff.mp hnil with
        | inl hempty =>
            rw [hempty, tokens_nil] at hrest
            cases hrest
        | inr hspace =>
            obtain ⟨c, hc, hspace⟩ := hspace
            have hnot := List.head?_dropWhile_not isSpace (line.drop (word line).length)
            rw [Option.mem_def.mp hc] at hnot
            simp [hspace] at hnot
      rw [tokens_word hsecond] at hrest
      exact (List.cons.inj hrest).1

/-! ## From the stream to the verdict -/

def lineBuffer (buf sock : Bytes) : Bytes :=
  pieceOf maxBuff sock ++ 0 :: buf.drop ((pieceOf maxBuff sock).length + 1)

theorem lineBuffer_length {buf : Bytes} (hbuf : buf.length = maxBuff) (sock : Bytes) :
    (lineBuffer buf sock).length = maxBuff := by
  have hle := pieceOf_length_le maxBuff sock
  have hsize : maxBuff = 1024 := rfl
  rw [lineBuffer, List.length_append, List.length_cons, List.length_drop]
  omega

/-- Every stream gets a verdict: no loop stores outside of its array. -/
theorem acceptScan_eq (behind : Byte) {buf method url : Bytes} (hbuf : buf.length = maxBuff)
    (hmethod : method.length = sizeofMethod) (hurl : url.length = sizeofUrl) (sock : Bytes) :
    acceptScan behind buf method url sock =
      .ok (verdictOf (cstr (requestMethod (lineBuffer buf sock)))
          (cstr (requestUrl (lineBuffer buf sock))),
        sock.drop (pieceOf maxBuff sock).length) := by
  have hread := rpcReadBufInto_eq (by decide) hbuf sock
  have hscan := scanRequest_eq behind (lineBuffer_length hbuf sock) hmethod hurl
  unfold acceptScan
  rw [hread]
  simp only [bind, Except.bind]
  rw [← lineBuffer, hscan]
  rfl

theorem serveClient_eq (parseXml : Bytes → C (Option XMLDoc)) (heap : Nat → Byte)
    (behind : Byte) {buf method url : Bytes} (hbuf : buf.length = maxBuff)
    (hmethod : method.length = sizeofMethod) (hurl : url.length = sizeofUrl) (sock : Bytes)
    (node : RosNode) :
    serveClient parseXml heap buf sock node =
      (do
        let (verdict, rest) ← acceptScan behind buf method url sock
        match verdict with
        | .notPost => return ⟨some .badRequest, 0, node⟩
        | .notRpc => return ⟨some .badRequest, 1, node⟩
        | .parses => do
            let (reply, node) ← parseRequest parseXml heap rest node
            return ⟨reply, 1, node⟩) := by
  have hbuffer : requestBuffer buf sock =
      (lineBuffer buf sock, sock.drop (pieceOf maxBuff sock).length) := by
    rw [requestBuffer, rpcReadBuf_eq]
    rfl
  rw [acceptScan_eq behind hbuf hmethod hurl, serveClient, hbuffer]
  simp only [bind, Except.bind, verdictOf]
  split
  · rfl
  · split
    · rfl
    · rfl

theorem uptoNewline_line {line : Bytes} (hline : 10 ∉ line) (t : Bytes) :
    uptoNewline (line ++ 10 :: t) = line ++ [10] := by
  induction line with
  | nil => exact uptoNewline_newline t
  | cons c line ih =>
      rw [List.mem_cons, not_or] at hline
      rw [List.cons_append, uptoNewline_cons (Ne.symm hline.1), ih hline.2, List.cons_append]

theorem pieceOf_line {line : Bytes} (hline : 10 ∉ line) (hlen : line.length + 1 ≤ 1023)
    (rest : Bytes) : pieceOf maxBuff (line ++ 10 :: rest) = line ++ [10] := by
  have hsize : maxBuff - 1 = 1023 := rfl
  rw [pieceOf, hsize, List.take_append, List.take_of_length_le (by omega)]
  have hroom : 1023 - line.length = (1022 - line.length) + 1 := by omega
  rw [hroom, List.take_succ_cons, uptoNewline_line hline]

/-- A stream never makes the loops store outside of their arrays, and of the lines that
fit into the buffer those are recognised that name the method and the path of the calls. -/
theorem acceptScan_recognises (behind : Byte) {buf method url : Bytes}
    (hbuf : buf.length = maxBuff) (hmethod : method.length = sizeofMethod)
    (hurl : url.length = sizeofUrl) :
    (∀ sock, ∃ verdict rest, acceptScan behind buf method url sock = .ok (verdict, rest)) ∧
      ∀ line rest, NulFree line → 10 ∉ line → line.length + 1 ≤ 1023 →
        ∃ verdict, acceptScan behind buf method url (line ++ 10 :: rest) = .ok (verdict, rest) ∧
          (verdict = .parses ↔ IsRpcPost line) := by
  constructor
  · intro sock
    exact ⟨_, _, acceptScan_eq behind hbuf hmethod hurl sock⟩
  · intro line rest hnul hline hlen
    have hpiece := pieceOf_line hline hlen rest
    have hscan := acceptScan_eq behind hbuf hmethod hurl (line ++ 10 :: rest)
    have hdrop : (line ++ 10 :: rest).drop (line ++ [10]).length = rest := by
      rw [List.append_cons line 10 rest, List.drop_left]
    rw [lineBuffer, hpiece, hdrop, List.append_assoc, List.singleton_append] at hscan
    exact ⟨_, hscan, verdictOf_parses.trans (recognised_iff hnul _)⟩

/-- Lower case and spaces make no difference; a path that goes on does. -/
theorem acceptScan_recognises_lines :
    (∃ verdict, acceptScan 65 (List.replicate maxBuff 65) (List.replicate sizeofMethod 66)
        (List.replicate sizeofUrl 67) (str "post  /RPC2 HTTP/1.1\r\nrest") =
          .ok (verdict, str "rest") ∧
        (verdict = .parses ↔ IsRpcPost (str "post  /RPC2 HTTP/1.1\r"))) ∧
      IsRpcPost (str "post  /RPC2 HTTP/1.1\r") ∧ ¬ IsRpcPost (str "POST /RPC2x") := by
  have hcall : tokens whitespace (str "post  /RPC2 HTTP/1.1\r") =
      [str "post", str "/RPC2", str "HTTP/1.1"] := by decide
  have hfirst : (str "post  /RPC2 HTTP/1.1\r").head? = some 112 := rfl
  have hother : tokens whitespace (str "POST /RPC2x") = [str "POST", str "/RPC2x"] := by decide
  constructor
  · exact (acceptScan_recognises 65 List.length_replicate List.length_replicate
      List.length_replicate).2 (str "post  /RPC2 HTTP/1.1\r") (str "rest") (by decide) (by decide)
        (by decide)
  · constructor
    · refine ⟨?_, _, _, hcall, by decide⟩
      intro c hc
      rw [hfirst] at hc
      cases hc
      rfl
    · intro h
      obtain ⟨-, method, more, htokens, -⟩ := h
      rw [hother] at htokens
      simp only [List.cons.injEq] at htokens
      exact absurd htokens.2.1 (by decide)

end STRos
