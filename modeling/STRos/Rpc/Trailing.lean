import STRos.Rpc.CutOff

/-! # What stands behind a document

The root of a document is its first element, and nothing behind it changes that. Only the first
element counts for both readers, as long as the parser comes to the end of the text.
-/

namespace STRos

open CString Markup

/-! ## The root stays -/

/-- The nodes outside of all others stay in their places, and with them the root. -/
structure Dom.Keeps (dom dom' : Dom) : Prop where
  iRoot : dom'.iRoot = dom.iRoot
  nodes : dom.nodes <+: dom'.nodes

theorem Dom.Keeps.refl (dom : Dom) : dom.Keeps dom := ⟨rfl, List.prefix_refl _⟩

theorem Dom.Keeps.trans {dom₁ dom₂ dom₃ : Dom} (h : dom₁.Keeps dom₂) (h' : dom₂.Keeps dom₃) :
    dom₁.Keeps dom₃ :=
  ⟨h'.iRoot.trans h.iRoot, h.nodes.trans h'.nodes⟩

theorem nodeEnd_keeps {dom dom' : Dom} {name : Bytes} (h : dom.nodeEnd name = some dom') :
    dom.Keeps dom' := by
  refine ⟨nodeEnd_root h, ?_⟩
  obtain ⟨nodes, iRoot, current⟩ := dom
  rw [Dom.nodeEnd] at h
  split at h
  · cases h
  · split at h
    · cases h
    · split at h
      · cases h
        exact List.prefix_append _ _
      · cases h
        exact List.prefix_refl _

/-- With a root, the start of an element is not that of the root. -/
theorem nodeStart_keeps {dom : Dom} (h : 0 ≤ dom.iRoot) (tagType : TagType) (name : Bytes) :
    dom.Keeps (dom.nodeStart tagType name) := by
  refine ⟨?_, List.prefix_refl _⟩
  rw [Dom.nodeStart]
  exact if_neg fun hnew => absurd hnew.2.1 (Int.not_lt.mpr h)

theorem putText_keeps {dom dom' : Dom} {text : Bytes} (h : dom.putText text = some dom') :
    dom.Keeps dom' := by
  refine ⟨(putText_root h).1, ?_⟩
  rw [Dom.putText, Dom.nodeText] at h
  grind

theorem handleTag_keeps {dom dom' : Dom} (hroot : 0 ≤ dom.iRoot) {tag : Tag}
    (h : dom.handleTag (readAs tag).1 (readAs tag).2 = some dom') : dom.Keeps dom' := by
  have hleaf : ∀ {tagType : TagType} {name : Bytes},
      (dom.nodeStart tagType name).nodeEnd name = some dom' → dom.Keeps dom' :=
    fun hend => (nodeStart_keeps hroot _ _).trans (nodeEnd_keeps hend)
  cases tag with
  | opening name =>
      cases h
      exact nodeStart_keeps hroot _ _
  | closing name => exact nodeEnd_keeps h
  | empty name => exact hleaf h
  | aside kind s => cases kind <;> exact hleaf h

theorem Dom.pieces_keeps {dom dom' : Dom} (hroot : 0 ≤ dom.iRoot) {ps : List Piece}
    (h : dom.pieces ps = some dom') : dom.Keeps dom' := by
  induction ps generalizing dom with
  | nil =>
      cases h
      exact Dom.Keeps.refl _
  | cons p ps ih =>
      obtain ⟨dom₁, hpiece, hpieces⟩ := Option.bind_eq_some_iff.mp h
      obtain ⟨dom₂, hput, htag⟩ := Option.bind_eq_some_iff.mp hpiece
      have hput := putText_keeps hput
      have htag := handleTag_keeps (hput.iRoot ▸ hroot) htag
      have hkeeps := hput.trans htag
      exact hkeeps.trans (ih (hkeeps.iRoot ▸ hroot) hpieces)

theorem root_keeps {dom dom' : Dom} (hkeeps : dom.Keeps dom') (hclosed : dom.current = [])
    {root : XMLNode} (h : dom.doc.root = .ok root) : dom'.doc.root = .ok root := by
  have hnodes : dom.doc.nodes = dom.nodes := by
    rw [Dom.doc, hclosed, hangOpen, List.append_nil]
  have hbegin : dom.doc.nodes <+: dom'.doc.nodes :=
    hnodes ▸ hkeeps.nodes.trans (List.prefix_append _ _)
  rw [XMLDoc.root] at h ⊢
  have hroot : dom'.doc.iRoot = dom.doc.iRoot := hkeeps.iRoot
  rw [hroot]
  split at h
  · cases h
  · rename_i hpos
    rw [if_neg hpos]
    cases hget : dom.doc.nodes[dom.doc.iRoot.toNat]? with
    | none =>
        rw [hget] at h
        cases h
    | some node =>
        rw [hget] at h
        obtain ⟨hlt, -⟩ := List.getElem?_eq_some_iff.mp hget
        obtain ⟨more, hmore⟩ := hbegin
        rw [← hmore, List.getElem?_append_left hlt, hget]
        exact h

section Document

variable {tag : Bytes} {body : List Node}
  (h : (Node.element tag body).Legal (LegalByte (· ≠ 255))) {ps : List Piece}
  (hps : LegalPieces kept ps) {t : Bytes} (ht : IsRemainder t)

include h hps ht

/-- What is behind a document, as a C string. -/
theorem nulFree_trailing :
    NulFree (xmlVer ++ (Node.element tag body).render ++ (renderPieces ps ++ t)) := by
  have hver : NulFree xmlVer := by decide
  simp only [nulFree_append]
  exact ⟨⟨hver, h.nulFree⟩, hps.nulFree, ht.nulFree⟩

/-- Behind the document the tags have to match, and only spaces may be left. -/
theorem parse_trailing
    (hlen : (xmlVer ++ (Node.element tag body).render ++ (renderPieces ps ++ t)).length <
      2147483392) :
    ∃ doc, doc.root = .ok (.mk tag (bodyText none body) (trees XMLNode.mk body)) ∧
      xmlDocParseBufferDom (xmlVer ++ (Node.element tag body).render ++ (renderPieces ps ++ t)) =
        if (openBehind letPass [] ps).isNone ∨ 60 ∈ t then .ok (some ⟨[], -1⟩)
        else if t.all isSpace then .ok (some doc)
        else .error .diverges := by
  obtain ⟨qs, hqs, hdoc, hopen⟩ := document_pieces h
  have hlen' : (xmlVer ++ (Node.element tag body).render).length < 2147483392 := by
    rw [List.length_append] at hlen
    omega
  obtain ⟨doc, hparse, hroot⟩ := xmlDocParseBufferDom_document h hlen'
  have hnames := pieces_openNames_start qs
  rw [hopen] at hnames
  obtain ⟨dom, hdom, hclosed⟩ := Option.map_eq_some_iff.mp hnames
  have hwhole := parse_pieces hqs isRemainder_nil
    (fitLines_of_length (by rwa [List.append_nil, ← hdoc]))
  rw [List.append_nil, ← hdoc, hparse, hdom] at hwhole
  obtain rfl : doc = dom.doc := by simpa using hwhole
  have hpos : 0 ≤ dom.iRoot := (root_iff hparse).mp ⟨_, hroot⟩
  have hbehind := dom.pieces_openNames ps
  have htext : xmlVer ++ (Node.element tag body).render ++ (renderPieces ps ++ t) =
      renderPieces (qs ++ ps) ++ t := by
    rw [hdoc, renderPieces_append, List.append_assoc]
  rw [htext, parse_pieces (legalPieces_append.mpr ⟨hqs, hps⟩) ht
    (fitLines_of_length (by rwa [← htext])), Dom.pieces_append, hdom, Option.bind_some]
  rw [hclosed] at hbehind
  cases hpieces : dom.pieces ps with
  | none =>
      rw [hpieces, Option.map_none] at hbehind
      exact ⟨dom.doc, hroot, (if_pos (Or.inl (by rw [← hbehind]; rfl))).symm⟩
  | some dom' =>
      have hkeeps := Dom.pieces_keeps hpos hpieces
      rw [hpieces, Option.map_some] at hbehind
      refine ⟨dom'.doc, root_keeps hkeeps (Dom.openNames_eq_nil.mp hclosed) hroot, ?_⟩
      simp [← hbehind]

/-- What comes behind a call or an answer is parsed and not looked at: when its tags match and
only spaces are left at its end, each reader does what it does without it. -/
theorem accept_trailing
    (hlen : (xmlVer ++ (Node.element tag body).render ++ (renderPieces ps ++ t)).length <
      2147483392) (heap : Nat → Byte) :
    (∀ junk node,
      strosAcceptRequest xmlDocParseBufferDom heap junk
          (requestPattern (xmlVer ++ (Node.element tag body).render ++ (renderPieces ps ++ t)))
          node =
        if (openBehind letPass [] ps).isNone ∨ 60 ∈ t then .error .outOfBounds
        else if t.all isSpace then
          strosAcceptRequest xmlDocParseBufferDom heap junk
            (requestPattern (xmlVer ++ (Node.element tag body).render)) node
        else .error .diverges) ∧
    parseResponse xmlDocParseBufferDom heap
        (responsePattern (xmlVer ++ (Node.element tag body).render ++ (renderPieces ps ++ t))) =
      if (openBehind letPass [] ps).isNone ∨ 60 ∈ t then .error .outOfBounds
      else if t.all isSpace then
        parseResponse xmlDocParseBufferDom heap
          (responsePattern (xmlVer ++ (Node.element tag body).render))
      else .error .diverges := by
  have hlen' : (xmlVer ++ (Node.element tag body).render).length < 2147483392 := by
    rw [List.length_append] at hlen
    omega
  obtain ⟨doc, hroot, hparse⟩ := parse_trailing h hps ht hlen
  obtain ⟨doc', hparse', hroot'⟩ := xmlDocParseBufferDom_document h hlen'
  have hsame : doc.root = doc'.root := hroot.trans hroot'.symm
  have hnul := nulFree_trailing h hps ht
  have hnul' : NulFree (xmlVer ++ (Node.element tag body).render) := (nulFree_append.mp hnul).1
  constructor
  · intro junk node
    rw [requestPattern_announcing, requestPattern_announcing, strosAcceptRequest_announcing,
      strosAcceptRequest_announcing]
    exact parseRequest_outcome
      (receives_whole (headerLines_request _ _) hnul (by omega))
      (receives_whole (headerLines_request _ _) hnul' (by omega))
      hparse hparse' hsame node
  · rw [responsePattern_eq, responsePattern_eq]
    exact parseResponse_outcome
      (receives_whole (headerLines_response _ _) hnul (by omega))
      (receives_whole (headerLines_response _ _) hnul' (by omega))
      hparse hparse' hsame

end Document

/-- Behind a call there is an element that is not closed. -/
theorem accept_trailing_open :
    strosAcceptRequest xmlDocParseBufferDom (fun _ => 0) []
        (requestPattern (xmlVer ++ str "<methodCall></methodCall>" ++ str "<a>")) ⟨dict, dict⟩ =
      strosAcceptRequest xmlDocParseBufferDom (fun _ => 0) []
        (requestPattern (xmlVer ++ str "<methodCall></methodCall>")) ⟨dict, dict⟩ := by
  have hlegal : (Node.element (str "methodCall") []).Legal (LegalByte (· ≠ 255)) := by
    simp only [Node.Legal, AllLegal, and_true]
    decide
  have hps : LegalPieces kept [⟨[], .opening (str "a")⟩] := by decide
  have hlen : (xmlVer ++ (Node.element (str "methodCall") []).render ++
      (renderPieces [⟨[], .opening (str "a")⟩] ++ [])).length < 2147483392 := by
    decide
  have hrender : (Node.element (str "methodCall") []).render = str "<methodCall></methodCall>" := by
    simp [Node.render, str, ch]
  have hserver := (accept_trailing hlegal hps isRemainder_nil hlen fun _ => 0).1 [] ⟨dict, dict⟩
  rw [hrender] at hserver
  exact hserver

end STRos
