import STRos.Rpc.DocumentParser
import STRos.Rpc.Tags

/-! # Calls and answers that are cut off

A peer that closes its connection early, or announces fewer bytes than it has, cuts its document
off. Behind a tag nobody sees it: the elements that are open are taken as if their ends had come.
Inside of a tag there is no root to read, and inside of a text the parser never comes back.
-/

namespace STRos

open CString Markup

/-! ## The beginning of a document -/

/-- A text that is cut off: its pieces, with the elements that are open behind them. -/
structure CutsOff (s : Bytes) (ps : List Piece) (names : List Bytes) : Prop where
  text : s = renderPieces ps ++ lastText s
  pieces : LegalPieces kept ps
  names : openBehind letPass [] ps = some names
  nulFree : NulFree s
  kept : 255 ∉ s

theorem lastText_subset (s : Bytes) : lastText s ⊆ s := fun _ hmem =>
  List.mem_reverse.mp ((List.takeWhile_sublist _).subset (List.mem_reverse.mp hmem))

theorem CutsOff.remainder {s : Bytes} {ps : List Piece} {names : List Bytes}
    (h : CutsOff s ps names) : IsRemainder (lastText s) :=
  ⟨fun hmem => h.nulFree (lastText_subset s hmem), lastText_noEnd s,
    fun hmem => h.kept (lastText_subset s hmem)⟩

def closeOff (ps : List Piece) (names : List Bytes) : Bytes := renderPieces (ps ++ endTags names)

theorem CutsOff.nulFree_closeOff {s : Bytes} {ps : List Piece} {names : List Bytes}
    (h : CutsOff s ps names) : NulFree (closeOff ps names) :=
  (legalPieces_append.mpr
    ⟨h.pieces, legalPieces_endTags (openBehind_isName h.pieces (by simp) h.names)⟩).nulFree

theorem kept_of_legalByte (b : Byte) (h : LegalByte (· ≠ 255) b) : kept b := by
  cases h with
  | inl hascii =>
      intro heq
      rw [heq] at hascii
      exact absurd hascii (by decide)
  | inr hkept => exact hkept

section Document

variable {tag : Bytes} {body : List Node}
  (h : (Node.element tag body).Legal (LegalByte (· ≠ 255)))

include h

/-- The declaration is the first piece, and the end of the root the last one. -/
theorem document_pieces :
    ∃ ps, LegalPieces kept ps ∧ xmlVer ++ (Node.element tag body).render = renderPieces ps ∧
      openBehind letPass [] ps = some [] := by
  have hcut : ∃ ps, CutsInto kept letPass [] (crlf ++ (Node.element tag body).render) ps [] :=
    cutsInto_element (h.mono kept_of_legalByte) (by decide) rfl
  obtain ⟨ps, hps, -, hroot, hopen⟩ := hcut
  refine ⟨⟨[], .aside .instruction (str "xml version=\"1.0\"")⟩ :: ps,
    legalPieces_cons.mpr ⟨by decide, hps⟩, ?_, ?_⟩
  · rw [List.append_nil] at hroot
    rw [renderPieces_cons, ← hroot]
    rfl
  · rw [openBehind, Piece.behind, if_neg (by decide)]
    exact hopen

theorem document_cutsOff {s : Bytes} (hs : s <+: xmlVer ++ (Node.element tag body).render) :
    ∃ ps names, CutsOff s ps names ∧
      (closeOff ps names).length ≤ (xmlVer ++ (Node.element tag body).render).length := by
  have hver : NulFree xmlVer := by decide
  have hnul : NulFree (xmlVer ++ (Node.element tag body).render) :=
    nulFree_append.mpr ⟨hver, h.nulFree⟩
  obtain ⟨ps, hps, hdoc, hopen⟩ := document_pieces h
  have hend : 255 ∉ xmlVer ++ (Node.element tag body).render := by
    rw [hdoc]
    exact hps.not_mem (by decide) (fun hb => hb.1 rfl) (by decide)
  have hsub := hs.subset
  rw [hdoc, ← List.append_nil (renderPieces ps)] at hs
  obtain ⟨qs, rs, rfl, htext⟩ := prefix_renderPieces hps (by simp) hs
  rw [openBehind_append] at hopen
  obtain ⟨names, hqs, hrs⟩ := Option.bind_eq_some_iff.mp hopen
  refine ⟨qs, names, ⟨htext, (legalPieces_append.mp hps).1, hqs, fun hmem => hnul (hsub hmem),
    fun hmem => hend (hsub hmem)⟩, ?_⟩
  have hle := endTags_length_le hrs
  rw [hdoc, closeOff, renderPieces_append, renderPieces_append, List.length_append,
    List.length_append]
  simpa [endTags] using hle

end Document

/-! ## The readers -/

theorem parse_cutOff {s : Bytes} {ps : List Piece} {names : List Bytes}
    (h : CutsOff s ps names) (hlen : s.length < 2147483392)
    (hclosed : (closeOff ps names).length < 2147483392) :
    ∃ doc, xmlDocParseBufferDom (closeOff ps names) = .ok (some doc) ∧
      xmlDocParseBufferDom s =
        if 60 ∈ lastText s then .ok (some ⟨[], -1⟩)
        else if (lastText s).all isSpace then .ok (some doc)
        else .error .diverges := by
  obtain ⟨doc, hdoc, -, hparse⟩ :=
    parse_matched h.pieces h.names (fitLines_of_length (by rwa [List.append_nil]))
  have htext := hparse h.remainder (fitLines_of_length (by rwa [← h.text]))
  rw [← h.text] at htext
  exact ⟨doc, hdoc, htext⟩

/-- The body a stream is decoded to, as the C string the parser is given. -/
def Receives (heap : Nat → Byte) (sock s : Bytes) : Prop :=
  ∃ body, decodeRpcData heap sock = .ok (some body) ∧ cstr body = s

/-- The bytes that were announced are the string, or no more arrive and the block behind them
holds a terminator. -/
theorem receives_announced {heap : Nat → Byte} {sock s more ctype : Bytes} {n : Nat}
    (h : headerLines ⟨none, -1⟩ sock = .ok (⟨some ctype, Int32.ofNat n⟩, s ++ more))
    (hs : NulFree s) (hn : s.length ≤ n) (hmax : n < 2147483647)
    (hmore : s.length < n → more = [] ∧ heap s.length = 0) : Receives heap sock s := by
  have hval : (Int32.ofNat n).toInt = n := Int32.toInt_ofNat_of_lt (by omega)
  have hne : Int32.ofNat n ≠ -1 := by
    intro heq
    rw [heq] at hval
    exact absurd hval (by simp)
  have hlast : Int32.ofNat n ≠ 2147483647 := by
    intro heq
    rw [heq] at hval
    have : (2147483647 : Int32).toInt = 2147483647 := by decide
    omega
  have hpos : ¬ Int32.ofNat n < 0 := by
    rw [Int32.lt_iff_toInt_lt, hval]
    simp
  have hmissing : cstr ((List.range (n - s.length)).map fun i => heap (s.length + i)) = [] := by
    cases hk : n - s.length with
    | zero => rfl
    | succ k =>
        rw [List.range_succ_eq_map, List.map_cons, Nat.add_zero, (hmore (by omega)).2]
        rfl
  have hbody : (s ++ more).take n = s := by
    rcases Nat.lt_or_eq_of_le hn with hlt | heq
    · rw [(hmore hlt).1, List.append_nil, List.take_of_length_le hn]
    · rw [← heq, List.take_left]
  refine ⟨s ++ (List.range (n - s.length)).map fun i => heap (s.length + i), ?_, ?_⟩
  · simp only [decodeRpcData, h, bind, Except.bind, reduceCtorEq, hne, or_self, if_false, hpos,
      hlast, hval, Int.toNat_natCast, hbody]
    rfl
  · rw [cstr_append hs, hmissing, List.append_nil]

/-- All bytes arrive that were announced. -/
theorem receives_whole {heap : Nat → Byte} {sock s ctype : Bytes}
    (h : headerLines ⟨none, -1⟩ sock = .ok (⟨some ctype, Int32.ofNat s.length⟩, s))
    (hs : NulFree s) (hmax : s.length < 2147483647) : Receives heap sock s :=
  receives_announced (by rwa [List.append_nil]) hs (Nat.le_refl _) hmax fun hlt =>
    absurd hlt (Nat.lt_irrefl _)

section Reader

variable {heap : Nat → Byte} {sock sock' s s' : Bytes} {doc doc' : XMLDoc}
  {refused blank : Prop} [Decidable refused] [Decidable blank]
  (hsock : Receives heap sock s) (hsock' : Receives heap sock' s')
  (hparse : xmlDocParseBufferDom s =
    if refused then .ok (some ⟨[], -1⟩)
    else if blank then .ok (some doc)
    else .error .diverges)
  (hparse' : xmlDocParseBufferDom s' = .ok (some doc')) (hroot : doc.root = doc'.root)

include hsock hsock' hparse hparse' hroot

/-- A reader sees nothing of a document but its root. -/
theorem parseRequest_outcome (node : RosNode) :
    parseRequest xmlDocParseBufferDom heap sock node =
      if refused then .error .outOfBounds
      else if blank then parseRequest xmlDocParseBufferDom heap sock' node
      else .error .diverges := by
  obtain ⟨body, hbody, rfl⟩ := hsock
  obtain ⟨body', hbody', rfl⟩ := hsock'
  by_cases hrefused : refused
  · rw [if_pos hrefused] at hparse ⊢
    exact (readers_unrooted hbody hparse (by decide) node).1
  · by_cases hblank : blank
    · rw [if_neg hrefused, if_pos hblank] at hparse ⊢
      simp only [parseRequest, hbody, hbody', hparse, hparse', hroot, bind, Except.bind]
    · rw [if_neg hrefused, if_neg hblank] at hparse ⊢
      simp only [parseRequest, hbody, hparse, bind, Except.bind]

theorem parseResponse_outcome :
    parseResponse xmlDocParseBufferDom heap sock =
      if refused then .error .outOfBounds
      else if blank then parseResponse xmlDocParseBufferDom heap sock'
      else .error .diverges := by
  obtain ⟨body, hbody, rfl⟩ := hsock
  obtain ⟨body', hbody', rfl⟩ := hsock'
  by_cases hrefused : refused
  · rw [if_pos hrefused] at hparse ⊢
    exact (readers_unrooted hbody hparse (by decide) ⟨dict, dict⟩).2
  · by_cases hblank : blank
    · rw [if_neg hrefused, if_pos hblank] at hparse ⊢
      simp only [parseResponse, hbody, hbody', hparse, hparse', hroot, bind, Except.bind]
    · rw [if_neg hrefused, if_neg hblank] at hparse ⊢
      simp only [parseResponse, hbody, hparse, bind, Except.bind]

end Reader

/-! ## Over HTTP -/

def requestAnnouncing (n : Nat) (data : Bytes) : Bytes :=
  str "POST /RPC2 HTTP/1.0\r" ++ 10 :: (requestHeaders n ++ data)

theorem requestPattern_announcing (data : Bytes) :
    requestPattern data = requestAnnouncing data.length data := by
  rw [requestPattern_eq, requestAnnouncing]

theorem strosAcceptRequest_announcing (parseXml : Bytes → C (Option XMLDoc)) (heap : Nat → Byte)
    (junk : Bytes) (n : Nat) (data : Bytes) (node : RosNode) :
    strosAcceptRequest parseXml heap junk (requestAnnouncing n data) node =
      parseRequest parseXml heap (requestHeaders n ++ data) node := by
  rw [requestAnnouncing, strosAcceptRequest, requestBuffer,
    rpcReadBuf_line (by decide) (by decide)]
  rfl

/-- Only a beginning of a document is read: no more was announced, or no more arrives. When it
ends with a tag and spaces, each reader does what it does with the elements closed; a tag without
its end leaves no root to read, and behind any other text the reader stays in its loop. -/
theorem accept_cutOff {tag : Bytes} {body : List Node}
    (h : (Node.element tag body).Legal (LegalByte (· ≠ 255)))
    (hlen : (xmlVer ++ (Node.element tag body).render).length < 2147483392) {s : Bytes}
    (hs : s <+: xmlVer ++ (Node.element tag body).render) {n : Nat} (hn : s.length ≤ n)
    (hmax : n < 2147483647) {heap : Nat → Byte} {more : Bytes}
    (hmore : s.length < n → more = [] ∧ heap s.length = 0) :
    ∃ ps names, CutsOff s ps names ∧
      (∀ junk node,
        strosAcceptRequest xmlDocParseBufferDom heap junk (requestAnnouncing n (s ++ more)) node =
          if 60 ∈ lastText s then .error .outOfBounds
          else if (lastText s).all isSpace then
            strosAcceptRequest xmlDocParseBufferDom heap junk
              (requestPattern (closeOff ps names)) node
          else .error .diverges) ∧
      parseResponse xmlDocParseBufferDom heap (responseHeaders n ++ (s ++ more)) =
        if 60 ∈ lastText s then .error .outOfBounds
        else if (lastText s).all isSpace then
          parseResponse xmlDocParseBufferDom heap (responsePattern (closeOff ps names))
        else .error .diverges := by
  obtain ⟨ps, names, hcut, hle⟩ := document_cutsOff h hs
  have hbegin := hs.length_le
  obtain ⟨doc, hdoc, hparse⟩ := parse_cutOff hcut (by omega) (by omega)
  have hclosed := hcut.nulFree_closeOff
  refine ⟨ps, names, hcut, ?_, ?_⟩
  · intro junk node
    rw [requestPattern_announcing, strosAcceptRequest_announcing, strosAcceptRequest_announcing]
    exact parseRequest_outcome
      (receives_announced (headerLines_request n _) hcut.nulFree hn hmax hmore)
      (receives_whole (headerLines_request _ _) hclosed (by omega)) hparse hdoc rfl node
  · rw [responsePattern_eq]
    exact parseResponse_outcome
      (receives_announced (headerLines_response n _) hcut.nulFree hn hmax hmore)
      (receives_whole (headerLines_response _ _) hclosed (by omega)) hparse hdoc rfl

/-- The length that is announced ends in the name of the method. -/
theorem accept_cutOff_name :
    strosAcceptRequest xmlDocParseBufferDom (fun _ => 0) []
        (requestAnnouncing 54
          (xmlVer ++ str "<methodCall><methodName>request" ++ str "Topic</methodName>"))
        ⟨dict, dict⟩ =
      .error .diverges := by
  have hname : IsText (LegalByte (· ≠ 255)) (str "requestTopic") := isText_ascii (by decide)
  have hlegal : (Node.element (str "methodCall")
      [.element (str "methodName") [.text (str "requestTopic")]]).Legal (LegalByte (· ≠ 255)) := by
    simp only [Node.Legal, AllLegal, and_true]
    exact ⟨by decide, by decide, hname⟩
  have hcut : xmlVer ++ str "<methodCall><methodName>request" <+:
      xmlVer ++ (Node.element (str "methodCall")
        [.element (str "methodName") [.text (str "requestTopic")]]).render :=
    ⟨str "Topic</methodName></methodCall>", by simp [Node.render, str, ch]⟩
  obtain ⟨ps, names, -, hserver, -⟩ := @accept_cutOff _ _ hlegal (by decide) _ hcut 54 (by decide)
    (by decide) (fun _ => 0) (str "Topic</methodName>") (by decide)
  rw [hserver [] ⟨dict, dict⟩, if_neg (by decide), if_neg (by decide)]

end STRos
