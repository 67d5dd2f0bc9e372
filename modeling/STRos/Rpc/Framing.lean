import STRos.Model.Api

/-! # Documents in HTTP

The reader of `decode_rpc_data` skips header lines it does not know, keeps the
content type and the content length, and stops at the empty line. What
`REQUEST_PATTERN` and `RESPONSE_PATTERN` put around a document is read away, so
that the document comes out, as long as `__s` can count what is around it, too.
-/

namespace STRos

open CString

/-! ## Lines -/

theorem rpcReadBuf_line {line : Bytes} (hline : 10 ∉ line) {n : Nat} (hn : line.length < n)
    (rest : Bytes) : rpcReadBuf n (line ++ 10 :: rest) = (line ++ [10], rest) := by
  induction line generalizing n with
  | nil =>
      cases n with
      | zero => simp at hn
      | succ n => simp [rpcReadBuf]
  | cons c line ih =>
      cases n with
      | zero => simp at hn
      | succ n =>
          simp only [List.mem_cons, not_or] at hline
          simp only [List.length_cons, Nat.add_lt_add_iff_right] at hn
          simp only [List.cons_append, rpcReadBuf, if_neg (Ne.symm hline.1), ih hline.2 hn]

/-- A line that fits the buffer is read as it is. -/
structure IsLine (line : Bytes) : Prop where
  noBreak : 10 ∉ line
  nulFree : NulFree line
  fits : line.length < maxBuff - 1

instance (line : Bytes) : Decidable (IsLine line) :=
  decidable_of_iff (10 ∉ line ∧ NulFree line ∧ line.length < maxBuff - 1)
    ⟨fun h => ⟨h.1, h.2.1, h.2.2⟩, fun h => ⟨h.noBreak, h.nulFree, h.fits⟩⟩

theorem rpcReadLine_line {line : Bytes} (h : IsLine line) (rest : Bytes) :
    rpcReadLine (line ++ 10 :: rest) = (line ++ [10], rest) := by
  have hnul : NulFree (line ++ [10]) := nulFree_append.mpr ⟨h.nulFree, by decide⟩
  simp only [rpcReadLine, rpcReadBuf_line h.noBreak h.fits, cstr_of_nulFree hnul]

theorem headerLines_line {line : Bytes} (h : IsLine line) (hne : line ≠ [13])
    {st st' : HeaderInfo} (hst : headerLine (line ++ [10]) st = .ok st') (rest : Bytes) :
    headerLines st (line ++ 10 :: rest) = headerLines st' rest := by
  have hcrlf : line ++ [10] ≠ crlf := by
    intro heq
    exact hne (List.append_cancel_right (heq : line ++ [10] = [13] ++ [10]))
  rw [headerLines, rpcReadLine_line h]
  simp only [List.append_eq_nil_iff, List.cons_ne_nil, and_false, hcrlf, or_self, dite_false, hst]

theorem headerLines_end (st : HeaderInfo) (rest : Bytes) :
    headerLines st (crlf ++ rest) = .ok (st, rest) := by
  have hread : rpcReadLine ([13] ++ 10 :: rest) = ([13] ++ [10], rest) :=
    rpcReadLine_line (by decide) rest
  have hsplit : crlf ++ rest = [13] ++ 10 :: rest := rfl
  rw [headerLines, hsplit, hread]
  exact dif_pos (Or.inr rfl)

/-- A line that starts with a NUL ends the headers as well. -/
theorem headerLines_nul (st : HeaderInfo) (rest : Bytes) :
    ∃ rest', headerLines st (0 :: rest) = .ok (st, rest') := by
  have hread : (rpcReadLine (0 :: rest)).1 = [] := by
    simp [rpcReadLine, rpcReadBuf, maxBuff]
  refine ⟨(rpcReadLine (0 :: rest)).2, ?_⟩
  rw [headerLines]
  exact dif_pos (Or.inl hread)

/-! ## Header lines -/

theorem headerLine_skip (line token : Bytes) (htoken : trim (strsep 58 line).1 32 = .ok token)
    (htype : ¬ sameNoCase token (str "Content-Type"))
    (hlength : ¬ sameNoCase token (str "Content-Length")) (st : HeaderInfo) :
    headerLine line st = .ok st := by
  simp only [headerLine, htoken, bind, Except.bind, if_neg htype, if_neg hlength]
  rfl

theorem headerLine_contentType (st : HeaderInfo) :
    headerLine (str "Content-Type: text/xml\r\n") st =
      .ok { st with ctype := some (str "text/xml") } := by
  rfl

theorem strsep_cons {delim : Byte} {token : Bytes} (h : delim ∉ token) (rest : Bytes) :
    strsep delim (token ++ delim :: rest) = (token, some rest) := by
  have htake : (token ++ delim :: rest).takeWhile (· ≠ delim) = token := by
    rw [List.takeWhile_append_of_pos]
    · simp
    · intro b hb
      simpa using fun heq : b = delim => h (heq ▸ hb)
  rw [strsep, htake, List.drop_left]

theorem strsep_none {delim : Byte} {token : Bytes} (h : delim ∉ token) :
    strsep delim token = (token, none) := by
  have htake : token.takeWhile (· ≠ delim) = token := by
    rw [List.takeWhile_eq_self_iff]
    intro b hb
    simpa using fun heq : b = delim => h (heq ▸ hb)
  rw [strsep, htake, List.drop_length]

theorem decimal_not_mem (i : Int) {b : Byte} (hb : isDigit b = false) (hsign : b ≠ 45) :
    b ∉ decimal i := by
  have hdigits : ∀ n, b ∉ decimalNat n := fun n hmem => by
    rw [decimalNat_isDigit hmem] at hb
    cases hb
  cases i with
  | ofNat n => exact hdigits n
  | negSucc n =>
      rw [decimal, List.mem_cons, not_or]
      exact ⟨hsign, hdigits (n + 1)⟩

theorem strip_number (i : Int) : strip 32 (32 :: (decimal i ++ crlf)) = decimal i ++ crlf := by
  have hspace : 32 ∉ decimal i ++ crlf := by
    rw [List.mem_append, not_or]
    exact ⟨decimal_not_mem i (by decide) (by decide), by decide⟩
  have hdrop : ∀ s : Bytes, 32 ∉ s → s.dropWhile (· = 32) = s := by
    intro s hs
    cases s with
    | nil => rfl
    | cons b s =>
        simp only [List.mem_cons, not_or] at hs
        simp [Ne.symm hs.1]
  rw [strip, List.dropWhile_cons_of_pos (by simp), hdrop _ hspace,
    hdrop _ (by rwa [List.mem_reverse]), List.reverse_reverse]

theorem trimBehind_nul {delim : Byte} (h : delim ≠ 0) (s : Bytes) :
    trimBehind 0 s delim = .ok (strip delim s) := if_neg (Ne.symm h)

theorem headerLine_contentLength (n : Nat) (st : HeaderInfo) :
    headerLine (str "Content-Length: " ++ percentD n ++ crlf) st =
      .ok { st with clen := Int32.ofNat n } := by
  have hcolon : 58 ∉ 32 :: (percentD n ++ crlf) := by
    have hnumber : 58 ∉ percentD n := decimal_not_mem _ (by decide) (by decide)
    simp only [List.mem_cons, List.mem_append, hnumber, not_or, not_false_eq_true, true_and]
    decide
  have hline : str "Content-Length: " ++ percentD n ++ crlf =
      str "Content-Length" ++ 58 :: 32 :: (percentD n ++ crlf) := rfl
  have hname : trim (str "Content-Length") 32 = .ok (str "Content-Length") := rfl
  have htype : ¬ sameNoCase (str "Content-Length") (str "Content-Type") := by decide
  have hlength : sameNoCase (str "Content-Length") (str "Content-Length") := rfl
  have hstop : ∀ b ∈ crlf.head?, isDigit b = false := by
    intro b hb
    obtain rfl : (13 : Byte) = b := Option.some.inj hb
    decide
  have hatoi : atoi (percentD n ++ crlf) = Int32.ofNat n := atoi_decimal_append _ hstop
  rw [hline, headerLine, strsep_cons (by decide)]
  simp only [hname, bind, Except.bind, if_neg htype, if_pos hlength, strdup, strsep_none hcolon]
  rw [trimBehind_nul (by decide), percentD, strip_number]
  simp only
  rw [← percentD, hatoi]
  rfl

/-! ## The two patterns -/

theorem decimal_length (i : Int32) : (decimal i.toInt).length ≤ 11 := by
  have hdigits : ∀ m : Nat, m < 10 ^ 10 → (decimalNat m).length ≤ 10 := by
    intro m hm
    rw [decimalNat, List.length_map]
    exact (Nat.length_toDigits_le_iff (by decide) (by decide)).mpr hm
  have hmin := i.minValue_le_toInt
  have hmax := i.toInt_lt
  have hminValue : Int32.minValue.toInt = -2147483648 := by decide
  cases hi : i.toInt with
  | ofNat m =>
      rw [Int.ofNat_eq_natCast] at hi
      have := hdigits m (by omega)
      rw [decimal]
      omega
  | negSucc m =>
      have := hdigits (m + 1) (by omega)
      rw [decimal, List.length_cons]
      omega

theorem percentD_length (n : Nat) : (percentD n).length ≤ 11 := decimal_length (Int32.ofNat n)

theorem isLine_contentLength (n : Nat) :
    IsLine (str "Content-Length: " ++ percentD n ++ [13]) := by
  have hbreak : 10 ∉ percentD n := decimal_not_mem _ (by decide) (by decide)
  have hnul : (0 : Byte) ∉ percentD n := decimal_not_mem _ (by decide) (by decide)
  have hlen := percentD_length n
  refine ⟨?_, ?_, ?_⟩
  · simp only [List.mem_append, hbreak, or_false]
    decide
  · exact nulFree_append.mpr ⟨nulFree_append.mpr ⟨by decide, hnul⟩, by decide⟩
  · have hname : (str "Content-Length: ").length = 16 := rfl
    simp only [List.length_append, hname, List.length_singleton, maxBuff]
    omega

theorem headerLines_contentLength (n : Nat) (st : HeaderInfo) (rest : Bytes) :
    headerLines st (str "Content-Length: " ++ percentD n ++ [13] ++ 10 :: rest) =
      headerLines { st with clen := Int32.ofNat n } rest := by
  refine headerLines_line (isLine_contentLength n) ?_ ?_ rest
  · intro heq
    have := congrArg List.length heq
    simp [str] at this
  · have hline : str "Content-Length: " ++ percentD n ++ [13] ++ [10] =
        str "Content-Length: " ++ percentD n ++ crlf := by
      simp [crlf]
    rw [hline, headerLine_contentLength]

/-- What `REQUEST_PATTERN` prints between its first line and the document. -/
def requestHeaders (n : Nat) : Bytes :=
  str "Host: stROS\r\nUser-Agent: stROS\r\nContent-Type: text/xml\r\n" ++
    str "Content-Length: " ++ percentD n ++ crlf ++ crlf

theorem requestPattern_eq (data : Bytes) :
    requestPattern data =
      str "POST /RPC2 HTTP/1.0\r" ++ 10 :: (requestHeaders data.length ++ data) := by
  simp [requestPattern, requestHeaders, str, ch]

theorem headerLines_request (n : Nat) (rest : Bytes) :
    headerLines ⟨none, -1⟩ (requestHeaders n ++ rest) =
      .ok (⟨some (str "text/xml"), Int32.ofNat n⟩, rest) := by
  have hlines : requestHeaders n ++ rest =
      str "Host: stROS\r" ++ 10 :: (str "User-Agent: stROS\r" ++ 10 ::
        (str "Content-Type: text/xml\r" ++ 10 ::
          (str "Content-Length: " ++ percentD n ++ [13] ++ 10 :: (crlf ++ rest)))) := by
    simp only [requestHeaders, List.append_assoc]
    rfl
  have hhost := headerLine_skip (str "Host: stROS\r" ++ [10]) (str "Host") rfl
    (by decide) (by decide) ⟨none, -1⟩
  have hagent := headerLine_skip (str "User-Agent: stROS\r" ++ [10])
    (str "User-Agent") rfl (by decide) (by decide) ⟨none, -1⟩
  rw [hlines, headerLines_line (by decide) (by decide) hhost,
    headerLines_line (by decide) (by decide) hagent,
    headerLines_line (by decide) (by decide) (headerLine_contentType ⟨none, -1⟩),
    headerLines_contentLength, headerLines_end]

/-- What `RESPONSE_PATTERN` prints in front of the document. -/
def responseHeaders (n : Nat) : Bytes :=
  str "HTTP/1.0 200 OK\r\nConnection: close\r\nContent-Length: " ++ percentD n ++
    str "\r\nContent-Type: text/xml\r\nServer: " ++ serverString ++ crlf

theorem responsePattern_eq (data : Bytes) :
    responsePattern data = responseHeaders data.length ++ data := rfl

theorem responseHeaders_lines (n : Nat) (rest : Bytes) :
    responseHeaders n ++ rest =
      str "HTTP/1.0 200 OK\r" ++ 10 :: (str "Connection: close\r" ++ 10 ::
        (str "Content-Length: " ++ percentD n ++ [13] ++ 10 ::
          (str "Content-Type: text/xml\r" ++ 10 ::
            (str "Server: Server: stros-xmlprc\r" ++ 10 :: (crlf ++ rest))))) := by
  simp only [responseHeaders, List.append_assoc]
  rfl

theorem headerLines_response (n : Nat) (rest : Bytes) :
    headerLines ⟨none, -1⟩ (responseHeaders n ++ rest) =
      .ok (⟨some (str "text/xml"), Int32.ofNat n⟩, rest) := by
  have hstatus := headerLine_skip (str "HTTP/1.0 200 OK\r" ++ [10])
    (str "HTTP/1.0 200 OK\r\n") rfl (by decide) (by decide) ⟨none, -1⟩
  have hconnection := headerLine_skip (str "Connection: close\r" ++ [10])
    (str "Connection") rfl (by decide) (by decide) ⟨none, -1⟩
  have hserver := headerLine_skip (str "Server: Server: stros-xmlprc\r" ++ [10])
    (str "Server") rfl (by decide) (by decide) ⟨some (str "text/xml"), Int32.ofNat n⟩
  rw [responseHeaders_lines, headerLines_line (by decide) (by decide) hstatus,
    headerLines_line (by decide) (by decide) hconnection, headerLines_contentLength,
    headerLines_line (by decide) (by decide) (headerLine_contentType ⟨none, _⟩),
    headerLines_line (by decide) (by decide) hserver, headerLines_end]

/-! ## Bodies -/

theorem decodeRpcStream_of_headers {heap : Nat → Byte} {sock data extra ctype : Bytes}
    (h : headerLines ⟨none, -1⟩ sock =
      .ok (⟨some ctype, Int32.ofNat data.length⟩, data ++ extra))
    (hlen : data.length < 2147483647) :
    decodeRpcStream heap sock = .ok (some data, extra) := by
  have hval : (Int32.ofNat data.length).toInt = data.length :=
    Int32.toInt_ofNat_of_lt (by omega)
  have hne : Int32.ofNat data.length ≠ -1 := by
    intro heq
    rw [heq] at hval
    exact absurd hval (by simp)
  have hmax : Int32.ofNat data.length ≠ 2147483647 := by
    intro heq
    rw [heq] at hval
    have : (2147483647 : Int32).toInt = 2147483647 := by decide
    omega
  have hpos : ¬ Int32.ofNat data.length < 0 := by
    rw [Int32.lt_iff_toInt_lt, hval]
    simp
  simp only [decodeRpcStream, h, bind, Except.bind, reduceCtorEq, hne, or_self, if_false, hpos,
    hmax, hval, Int.toNat_natCast, List.take_left, List.drop_left, Nat.sub_self, List.range_zero,
    List.map_nil, List.append_nil]
  rfl

theorem decodeRpcStream_request (heap : Nat → Byte) {data : Bytes}
    (hlen : data.length < 2147483647) (extra : Bytes) :
    decodeRpcStream heap (requestHeaders data.length ++ (data ++ extra)) =
      .ok (some data, extra) :=
  decodeRpcStream_of_headers (headerLines_request _ _) hlen

theorem decodeRpcStream_response (heap : Nat → Byte) {data : Bytes}
    (hlen : data.length < 2147483647) (extra : Bytes) :
    decodeRpcStream heap (responsePattern data ++ extra) = .ok (some data, extra) := by
  rw [responsePattern_eq, List.append_assoc]
  exact decodeRpcStream_of_headers (headerLines_response _ _) hlen

theorem decodeRpcData_of_stream {heap : Nat → Byte} {sock extra : Bytes} {data : Option Bytes}
    (h : decodeRpcStream heap sock = .ok (data, extra)) : decodeRpcData heap sock = .ok data := by
  rw [decodeRpcData_eq, h]
  rfl

/-! ## The whole exchange of bytes -/

/-- The first line of a call goes into the buffer of the server. -/
theorem requestBuffer_pattern (junk data extra : Bytes) :
    (requestBuffer junk (requestPattern data ++ extra)).2 =
      requestHeaders data.length ++ (data ++ extra) := by
  rw [requestPattern_eq, List.append_assoc, List.cons_append, List.append_assoc, requestBuffer,
    rpcReadBuf_line (by decide) (by decide)]

/-- It is that of a call, whatever the buffer holds behind it. -/
theorem strosAcceptRequest_pattern (parseXml : Bytes → C (Option XMLDoc)) (heap : Nat → Byte)
    (junk data extra : Bytes) (node : RosNode) :
    strosAcceptRequest parseXml heap junk (requestPattern data ++ extra) node =
      parseRequest parseXml heap (requestBuffer junk (requestPattern data ++ extra)).2 node := by
  rw [requestBuffer_pattern, requestPattern_eq, List.append_assoc, List.cons_append,
    List.append_assoc, strosAcceptRequest, requestBuffer,
    rpcReadBuf_line (by decide) (by decide)]
  rfl

theorem postRequest_fits {data : Bytes} (h : (requestPattern data).length < 2147483647) :
    postRequest data = requestPattern data := sFormat_fits h

theorem responseBytes_fits {data : Bytes} (h : (responsePattern data).length < 2147483647)
    (buf : Bytes) : (Reply.response data).bytes buf = responsePattern data := sFormat_fits h

theorem length_of_requestPattern {data : Bytes} {n : Nat} (h : (requestPattern data).length < n) :
    data.length < n := by
  simp only [requestPattern, List.length_append] at h
  omega

theorem length_of_responsePattern {data : Bytes} {n : Nat}
    (h : (responsePattern data).length < n) : data.length < n := by
  rw [responsePattern_eq, List.length_append] at h
  omega

/-- A document put into either pattern is read back as the C string it was, and
of the stream exactly the message is gone, when `__s` can count the message. -/
theorem patterns_readBack (heap : Nat → Byte) (junk buf : Bytes) {body : Bytes}
    (hnul : NulFree body) (extra : Bytes) :
    cstr body = body ∧
      ((requestPattern body).length < 2147483647 →
        (∀ parseXml node,
          strosAcceptRequest parseXml heap junk (postRequest body ++ extra) node =
            parseRequest parseXml heap (requestBuffer junk (postRequest body ++ extra)).2 node) ∧
        decodeRpcStream heap (requestBuffer junk (postRequest body ++ extra)).2 =
          .ok (some body, extra)) ∧
      ((responsePattern body).length < 2147483647 →
        decodeRpcStream heap ((Reply.response body).bytes buf ++ extra) =
          .ok (some body, extra)) := by
  refine ⟨cstr_of_nulFree hnul, fun hfits => ⟨fun parseXml node => ?_, ?_⟩, fun hfits => ?_⟩
  · rw [postRequest_fits hfits]
    exact strosAcceptRequest_pattern parseXml heap junk body extra node
  · rw [postRequest_fits hfits, requestBuffer_pattern]
    exact decodeRpcStream_request heap (length_of_requestPattern hfits) extra
  · rw [responseBytes_fits hfits]
    exact decodeRpcStream_response heap (length_of_responsePattern hfits) extra

theorem patterns_readBack_headers :
    cstr (str "Content-Length: 3\r\n\r\n") = str "Content-Length: 3\r\n\r\n" ∧
      (∀ parseXml node,
        strosAcceptRequest parseXml (fun _ => 0) []
            (postRequest (str "Content-Length: 3\r\n\r\n") ++ [7]) node =
          parseRequest parseXml (fun _ => 0)
            (requestBuffer [] (postRequest (str "Content-Length: 3\r\n\r\n") ++ [7])).2 node) ∧
      decodeRpcStream (fun _ => 0)
          (requestBuffer [] (postRequest (str "Content-Length: 3\r\n\r\n") ++ [7])).2 =
        .ok (some (str "Content-Length: 3\r\n\r\n"), [7]) ∧
      decodeRpcStream (fun _ => 0)
          ((Reply.response (str "Content-Length: 3\r\n\r\n")).bytes [] ++ [7]) =
        .ok (some (str "Content-Length: 3\r\n\r\n"), [7]) := by
  have hnul : NulFree (str "Content-Length: 3\r\n\r\n") := by decide
  obtain ⟨hbody, hrequest, hresponse⟩ := patterns_readBack (fun _ => 0) [] [] hnul [7]
  obtain ⟨haccept, hdecode⟩ := hrequest (by decide +kernel)
  exact ⟨hbody, haccept, hdecode, hresponse (by decide +kernel)⟩

theorem decodeRpcStream_nil (heap : Nat → Byte) : decodeRpcStream heap [] = .ok (none, []) := by
  have hread : (rpcReadLine []).1 = [] := rfl
  have hlines : headerLines ⟨none, -1⟩ [] = .ok (⟨none, -1⟩, []) := by
    rw [headerLines]
    exact dif_pos (Or.inl hread)
  rw [decodeRpcStream, hlines]
  rfl

/-- The longest bodies of the claimed length leave no room for the pattern around them, and
nothing is sent. -/
theorem patterns_noRoom :
    ∃ body, body = List.replicate 2147483646 97 ∧ NulFree body ∧ body.length < 2147483647 ∧
      decodeRpcStream (fun _ => 0) (requestBuffer [] (postRequest body)).2 ≠
        .ok (some body, []) ∧
      decodeRpcStream (fun _ => 0) ((Reply.response body).bytes []) ≠ .ok (some body, []) := by
  obtain ⟨body, hbody⟩ : ∃ body, body = List.replicate 2147483646 (97 : Byte) := ⟨_, rfl⟩
  have hlen : body.length = 2147483646 := by rw [hbody, List.length_replicate]
  have hnul : NulFree body := by
    intro hmem
    rw [hbody] at hmem
    exact absurd (List.eq_of_mem_replicate hmem) (by decide)
  have hrequest : postRequest body = [] := by
    refine sFormat_overflow (Nat.not_lt.mp fun h => ?_)
    rw [requestPattern_eq, List.length_append, List.length_cons, List.length_append] at h
    omega
  have hresponse : (Reply.response body).bytes [] = [] := by
    refine sFormat_overflow (Nat.not_lt.mp fun h => ?_)
    rw [responsePattern_eq, responseHeaders, List.length_append, List.length_append,
      List.length_append] at h
    simp only [crlf, List.length_cons, List.length_nil] at h
    omega
  have hbuffer : (requestBuffer [] []).2 = [] := rfl
  refine ⟨body, hbody, hnul, by omega, ?_, ?_⟩
  · rw [hrequest, hbuffer, decodeRpcStream_nil]
    intro h
    cases h
  · rw [hresponse, decodeRpcStream_nil]
    intro h
    cases h

/-- The error reply of `rpc_bad_request` carries NULs, which end its headers early. -/
theorem decodeRpcData_badRequest (heap : Nat → Byte) (buf : Bytes) :
    decodeRpcData heap (rpcBadRequest buf) = .ok none := by
  have hfirst : str "HTTP/1.0 400 BAD REQUEST\r\n" =
      str "HTTP/1.0 400 BAD REQUEST\r" ++ [10] := by
    simp [str, ch]
  obtain ⟨rest, hrest⟩ : ∃ rest, rpcBadRequest buf =
      str "HTTP/1.0 400 BAD REQUEST\r" ++ 10 :: 0 :: rest := by
    simp only [rpcBadRequest, sprintf, hfirst, List.append_assoc, List.cons_append,
      List.nil_append]
    exact ⟨_, rfl⟩
  have hstatus := headerLine_skip (str "HTTP/1.0 400 BAD REQUEST\r" ++ [10])
    (str "HTTP/1.0 400 BAD REQUEST\r\n") rfl (by decide) (by decide) ⟨none, -1⟩
  obtain ⟨rest', hend⟩ := headerLines_nul ⟨none, -1⟩ rest
  rw [decodeRpcData, hrest, headerLines_line (by decide) (by decide) hstatus, hend]
  rfl

end STRos
