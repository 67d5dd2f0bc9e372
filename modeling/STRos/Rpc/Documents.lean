import STRos.Lib.Markup
import STRos.Rpc.Positions

/-! # The printed documents as markup

Every document this code prints renders a tree of tagged text, so the parser of
the XML library gives the tree of its elements back. What is assumed of that
parser is stated here once.
-/

namespace STRos

open CString Markup

/-! ## The parser of the XML library -/

section Parser

variable (beyond : Byte → Prop)

/-- The bytes of a text: those of ASCII, and beyond it the ones the parser keeps. -/
def LegalByte (b : Byte) : Prop := b.toNat < 128 ∨ beyond b

/-- A text that may stand between two tags, and is there. -/
def Payload (s : Bytes) : Prop := s ≠ [] ∧ IsText (LegalByte beyond) s

/-- Of a document with the declaration `XML_VER` the parser gives the tree of
its elements, with the texts as they stand between the tags. -/
def ParsesDocuments (parseXml : Bytes → C (Option XMLDoc)) : Prop :=
  ∀ tag body, (Node.element tag body).Legal (LegalByte beyond) →
    ∃ doc, parseXml (xmlVer ++ (Node.element tag body).render) = .ok (some doc) ∧
      doc.root = .ok (.mk tag (bodyText none body) (trees XMLNode.mk body))

end Parser

/-- A parser that does: the declaration is a node of its own, before the root. -/
def plainParser (s : Bytes) : C (Option XMLDoc) :=
  .ok ((Markup.parse XMLNode.mk s).map fun (nodes, iRoot) =>
    ⟨nodes, match iRoot with
      | none => -1
      | some i => i⟩)

theorem plainParser_parsesDocuments (beyond : Byte → Prop) :
    ParsesDocuments beyond plainParser := by
  intro tag body h
  have hparse := parse_render XMLNode.mk h (str "xml version=\"1.0\"") crlf
    (by decide) (by decide)
  have hver : xmlVer ++ (Node.element tag body).render =
      60 :: (63 :: str "xml version=\"1.0\"" ++ [63]) ++
        62 :: (crlf ++ (Node.element tag body).render) := by
    rfl
  rw [plainParser, hver, hparse]
  exact ⟨_, rfl, rfl⟩

/-! ## Printed texts -/

theorem isText_ascii {beyond : Byte → Prop} {s : Bytes}
    (h : s.all (fun b => b.toNat < 128 && b ≠ 0 && b ≠ 60 && b ≠ 62 && b ≠ 38) = true) :
    IsText (LegalByte beyond) s := by
  intro b hb
  have := List.all_eq_true.mp h b hb
  simp only [ne_eq, Bool.and_eq_true, decide_eq_true_eq, decide_not, Bool.not_eq_eq_eq_not,
    Bool.not_true, decide_eq_false_iff_not] at this
  obtain ⟨⟨⟨⟨hascii, h0⟩, h60⟩, h62⟩, h38⟩ := this
  exact ⟨Or.inl hascii, h0, h60, h62, h38⟩

theorem isText_crlf (beyond : Byte → Prop) : IsText (LegalByte beyond) crlf :=
  isText_ascii (by decide)

theorem isText_decimalNat (beyond : Byte → Prop) (n : Nat) :
    IsText (LegalByte beyond) (decimalNat n) := by
  intro b hb
  have hdigit := decimalNat_isDigit hb
  simp only [isDigit, Bool.and_eq_true, decide_eq_true_eq] at hdigit
  refine ⟨Or.inl (by omega), ?_, ?_, ?_, ?_⟩
  all_goals
    rintro rfl
    revert hdigit
    decide

theorem payload_decimal (beyond : Byte → Prop) (i : Int) : Payload beyond (decimal i) := by
  cases i with
  | ofNat n => exact ⟨decimalNat_ne_nil n, isText_decimalNat beyond n⟩
  | negSucc n =>
      refine ⟨by simp [decimal], ?_⟩
      rw [decimal, ← List.singleton_append, isText_append]
      exact ⟨isText_ascii (by decide), isText_decimalNat beyond (n + 1)⟩

theorem payload_ascii {beyond : Byte → Prop} {s : Bytes} (hne : s ≠ [])
    (h : s.all (fun b => b.toNat < 128 && b ≠ 0 && b ≠ 60 && b ≠ 62 && b ≠ 38) = true) :
    Payload beyond s := ⟨hne, isText_ascii h⟩

/-! ## The markup of a value -/

def textElement (tag : String) (s : Bytes) : Node := .element (str tag) [.text s]

def valueMarkup (body : List Node) : List Node := [.element (str "value") body, .text crlf]

def blockMarkup (tag : String) (body : List Node) : List Node :=
  [.element (str tag) (.text crlf :: (body ++ [.text crlf])), .text crlf]

mutual

def itemMarkup : Item → List Node
  | .base64 s => valueMarkup [textElement "base64" s]
  | .bool b => valueMarkup [textElement "boolean" (decimal b.toInt)]
  | .double d => valueMarkup [textElement "double" d.print]
  | .date s => valueMarkup [textElement "dateTime.iso8601" s]
  | .int i => valueMarkup [textElement "int" (decimal i.toInt)]
  | .string s => valueMarkup [textElement "string" s]
  | .array l => valueMarkup (blockMarkup "array"
      [.element (str "data") (.text crlf :: itemsMarkup l)])
  | .nil => valueMarkup [.empty (str "nil"), .text crlf]

def itemsMarkup : List Item → List Node
  | [] => []
  | it :: l => itemMarkup it ++ itemsMarkup l

end

def parsMarkup (l : List Item) : List Node :=
  l.flatMap fun np => blockMarkup "param" (itemMarkup np)

def paramsMarkup (l : RList) : List Node := blockMarkup "params" (parsMarkup l)

def callMarkup (method : Bytes) (l : RList) : List Node :=
  .text crlf :: (textElement "methodName" method :: .text crlf :: (paramsMarkup l ++ [.text crlf]))

def responseMarkup (l : RList) : List Node := .text crlf :: (paramsMarkup l ++ [.text crlf])

/-! ## The markup that is printed

Each text that `__s` cannot count is left out, with the elements in it.
-/

/-- `__s`, on the markup of a text. -/
@[irreducible] def cut (nodes : List Node) : List Node :=
  if (renders nodes).length < 2147483647 then nodes else []

mutual

def itemPrinted : Item → List Node
  | .base64 s => cut (valueMarkup (cut [textElement "base64" s]))
  | .bool b => cut (valueMarkup (cut [textElement "boolean" (decimal b.toInt)]))
  | .double d => cut (valueMarkup (cut [textElement "double" d.print]))
  | .date s => cut (valueMarkup (cut [textElement "dateTime.iso8601" s]))
  | .int i => cut (valueMarkup (cut [textElement "int" (decimal i.toInt)]))
  | .string s => cut (valueMarkup (cut [textElement "string" s]))
  | .array l => cut (valueMarkup (cut (blockMarkup "array"
      [.element (str "data") (.text crlf :: itemsPrinted [] l)])))
  | .nil => cut (valueMarkup [.empty (str "nil"), .text crlf])

def itemsPrinted (dnode : List Node) : List Item → List Node
  | [] => dnode
  | it :: l => itemsPrinted (cut (dnode ++ itemPrinted it)) l

end

def parsPrinted (pnode : List Node) : List Item → List Node
  | [] => pnode
  | np :: l => parsPrinted (cut (pnode ++ cut (blockMarkup "param" (itemPrinted np)))) l

def paramsPrinted (l : RList) : List Node := cut (blockMarkup "params" (parsPrinted [] l))

/-- What `gen_rpc_call` prints when all of it fits. -/
def callDocument (method : Bytes) (l : RList) : Bytes :=
  xmlVer ++ (Node.element (str "methodCall") (callMarkup method l)).render

/-- What `gen_rpc_response` prints when all of it fits. -/
def responseDocument (l : RList) : Bytes :=
  xmlVer ++ (Node.element (str "methodResponse") (responseMarkup l)).render

/-! ## Printing is rendering -/

theorem render_element (tag : String) (body : List Node) :
    (Node.element (str tag) body).render = inTag tag (renders body) := by
  rw [Node.render]
  simp [inTag, str, ch]

theorem render_textElement (tag : String) (s : Bytes) :
    (textElement tag s).render = inTag tag s := by
  simp [textElement, render_element]

theorem renders_valueMarkup (body : List Node) :
    renders (valueMarkup body) = xmlValue (renders body) := by
  simp [valueMarkup, render_element, xmlValue]

theorem renders_blockMarkup (tag : String) (body : List Node) :
    renders (blockMarkup tag body) = inTag tag (crlf ++ renders body ++ crlf) ++ crlf := by
  simp [blockMarkup, render_element]

theorem renders_array (body : List Node) :
    renders (blockMarkup "array" [.element (str "data") (.text crlf :: body)]) =
      xmlArr (renders body) := by
  simp [renders_blockMarkup, render_element, xmlArr]

theorem renders_nil_element : renders [.empty (str "nil"), .text crlf] = xmlNil := by rfl

theorem renders_cut (nodes : List Node) : renders (cut nodes) = sFormat (renders nodes) := by
  rw [cut, sFormat]
  split <;> rfl

theorem renders_cutText (tag : String) (s : Bytes) :
    renders (cut (valueMarkup (cut [textElement tag s]))) =
      sFormat (xmlValue (sFormat (inTag tag s))) := by
  rw [renders_cut, renders_valueMarkup, renders_cut, renders_cons, render_textElement, renders_nil,
    List.append_nil]

mutual

theorem renders_itemPrinted (it : Item) : renders (itemPrinted it) = itemToXml it := by
  match it with
  | .base64 s => rw [itemPrinted, renders_cutText, itemToXml, xmlB64]
  | .bool b => rw [itemPrinted, renders_cutText, itemToXml, xmlBool]
  | .double d => rw [itemPrinted, renders_cutText, itemToXml, xmlDble]
  | .date s => rw [itemPrinted, renders_cutText, itemToXml, xmlDate]
  | .int i => rw [itemPrinted, renders_cutText, itemToXml, xmlInt]
  | .string s => rw [itemPrinted, renders_cutText, itemToXml, xmlStr]
  | .array l =>
      have hl := renders_itemsPrinted [] l
      rw [renders_nil] at hl
      rw [itemPrinted, renders_cut, renders_valueMarkup, renders_cut, renders_array, hl, itemToXml]
  | .nil => rw [itemPrinted, renders_cut, renders_valueMarkup, renders_nil_element, itemToXml]

theorem renders_itemsPrinted (dnode : List Node) (l : List Item) :
    renders (itemsPrinted dnode l) = itemsToXml (renders dnode) l := by
  match l with
  | [] => rw [itemsPrinted, itemsToXml]
  | it :: l =>
      rw [itemsPrinted, itemsToXml, renders_itemsPrinted _ l, renders_cut, renders_append,
        renders_itemPrinted it]

end

theorem renders_parsPrinted (pnode : List Node) (l : List Item) :
    renders (parsPrinted pnode l) = parsToXml (renders pnode) l := by
  induction l generalizing pnode with
  | nil => rw [parsPrinted, parsToXml]
  | cons np l ih =>
      rw [parsPrinted, parsToXml, ih, renders_cut, renders_append, renders_cut,
        renders_blockMarkup, renders_itemPrinted]
      rfl

theorem renders_paramsPrinted (l : RList) : renders (paramsPrinted l) = listToXmlParams l := by
  rw [paramsPrinted, renders_cut, renders_blockMarkup, renders_parsPrinted, renders_nil]
  rfl

/-! ## Texts that fit -/

theorem cut_eq {nodes : List Node} (h : (renders nodes).length < 2147483647) :
    cut nodes = nodes := by
  rw [cut, if_pos h]

theorem xmlValue_length (s : Bytes) : (xmlValue s).length = s.length + 17 := by
  simp [xmlValue, inTag_length, crlf]

/-- The markup of a value fits when that around it does. -/
theorem cut_valueMarkup {body : List Node}
    (h : (renders (valueMarkup body)).length < 2147483647) :
    cut (valueMarkup (cut body)) = valueMarkup body := by
  have hlen := h
  rw [renders_valueMarkup, xmlValue_length] at hlen
  have hbody : cut body = body := cut_eq (by omega)
  rw [hbody, cut_eq h]

mutual

/-- As long as the text of a value fits, each part of it does. -/
theorem itemPrinted_eq (it : Item) (h : (renders (itemMarkup it)).length < 2147483647) :
    itemPrinted it = itemMarkup it := by
  match it with
  | .base64 s =>
      rw [itemMarkup] at h ⊢
      rw [itemPrinted, cut_valueMarkup h]
  | .bool b =>
      rw [itemMarkup] at h ⊢
      rw [itemPrinted, cut_valueMarkup h]
  | .double d =>
      rw [itemMarkup] at h ⊢
      rw [itemPrinted, cut_valueMarkup h]
  | .date s =>
      rw [itemMarkup] at h ⊢
      rw [itemPrinted, cut_valueMarkup h]
  | .int i =>
      rw [itemMarkup] at h ⊢
      rw [itemPrinted, cut_valueMarkup h]
  | .string s =>
      rw [itemMarkup] at h ⊢
      rw [itemPrinted, cut_valueMarkup h]
  | .array l =>
      rw [itemMarkup] at h ⊢
      have hl : (renders ([] ++ itemsMarkup l)).length < 2147483647 := by
        rw [renders_valueMarkup, xmlValue_length, renders_array, xmlArr] at h
        simp only [List.length_append, inTag_length] at h
        rw [List.nil_append]
        omega
      have hitems := itemsPrinted_eq [] l hl
      rw [List.nil_append] at hitems
      rw [itemPrinted, hitems, cut_valueMarkup h]
  | .nil =>
      rw [itemMarkup] at h ⊢
      rw [itemPrinted, cut_eq h]

theorem itemsPrinted_eq (dnode : List Node) (l : List Item)
    (h : (renders (dnode ++ itemsMarkup l)).length < 2147483647) :
    itemsPrinted dnode l = dnode ++ itemsMarkup l := by
  match l with
  | [] => rw [itemsPrinted, itemsMarkup, List.append_nil]
  | it :: l =>
      rw [itemsMarkup, ← List.append_assoc] at h ⊢
      have hpart : (renders (dnode ++ itemMarkup it)).length < 2147483647 := by
        rw [renders_append, List.length_append] at h
        omega
      have hitem : (renders (itemMarkup it)).length < 2147483647 := by
        rw [renders_append, List.length_append] at hpart
        omega
      rw [itemsPrinted, itemPrinted_eq it hitem, cut_eq hpart, itemsPrinted_eq _ l h]

end

theorem parsMarkup_cons (np : Item) (l : List Item) :
    parsMarkup (np :: l) = blockMarkup "param" (itemMarkup np) ++ parsMarkup l := rfl

theorem parsPrinted_eq (pnode : List Node) (l : List Item)
    (h : (renders (pnode ++ parsMarkup l)).length < 2147483647) :
    parsPrinted pnode l = pnode ++ parsMarkup l := by
  induction l generalizing pnode with
  | nil => rw [parsPrinted, parsMarkup, List.flatMap_nil, List.append_nil]
  | cons np l ih =>
      rw [parsMarkup_cons, ← List.append_assoc] at h ⊢
      have hpart : (renders (pnode ++ blockMarkup "param" (itemMarkup np))).length <
          2147483647 := by
        rw [renders_append, List.length_append] at h
        omega
      have hpar : (renders (blockMarkup "param" (itemMarkup np))).length < 2147483647 := by
        rw [renders_append, List.length_append] at hpart
        omega
      have hitem : (renders (itemMarkup np)).length < 2147483647 := by
        simp only [renders_blockMarkup, inTag_length, List.length_append] at hpar
        omega
      rw [parsPrinted, itemPrinted_eq np hitem, cut_eq hpar, cut_eq hpart, ih _ h]

theorem paramsPrinted_eq {l : RList} (h : (renders (paramsMarkup l)).length < 2147483647) :
    paramsPrinted l = paramsMarkup l := by
  have hcells : (renders ([] ++ parsMarkup l)).length < 2147483647 := by
    simp only [paramsMarkup, renders_blockMarkup, inTag_length, List.length_append] at h
    rw [List.nil_append]
    omega
  rw [paramsPrinted, parsPrinted_eq [] l hcells, List.nil_append]
  exact cut_eq h

theorem listToXmlParams_eq {l : RList} (h : (renders (paramsMarkup l)).length < 2147483647) :
    listToXmlParams l = renders (paramsMarkup l) := by
  rw [← renders_paramsPrinted, paramsPrinted_eq h]

theorem callDocument_eq (method : Bytes) (l : RList) :
    callDocument method l = xmlVer ++ inTag "methodCall"
      (crlf ++ (inTag "methodName" method ++ crlf ++ renders (paramsMarkup l)) ++ crlf) := by
  simp [callDocument, render_element, callMarkup, render_textElement]

theorem responseDocument_eq (l : RList) :
    responseDocument l =
      xmlVer ++ inTag "methodResponse" (crlf ++ renders (paramsMarkup l) ++ crlf) := by
  simp [responseDocument, render_element, responseMarkup]

theorem genRpcCall_eq {method : Bytes} (n : Nat) {l : RList}
    (h : (callDocument method l).length < 2147483647) :
    genRpcCall ⟨some method, n, l⟩ = callDocument method l := by
  have hlen := h
  rw [callDocument_eq] at h hlen ⊢
  simp only [List.length_append, inTag_length] at hlen
  have hmethod : (inTag "methodName" method ++ crlf).length < 2147483647 := by
    simp only [List.length_append, inTag_length]
    omega
  have hboth : (inTag "methodName" method ++ crlf ++ renders (paramsMarkup l)).length <
      2147483647 := by
    simp only [List.length_append, inTag_length]
    omega
  have hcall : (inTag "methodCall"
      (crlf ++ (inTag "methodName" method ++ crlf ++ renders (paramsMarkup l)) ++ crlf)).length <
      2147483647 := by
    simp only [List.length_append, inTag_length]
    omega
  simp only [genRpcCall, Option.getD_some, listToXmlParams_eq (l := l) (by omega),
    sFormat_fits hmethod, sFormat_fits hboth, sFormat_fits hcall, sFormat_fits h]

theorem genRpcResponse_eq {l : RList} (h : (responseDocument l).length < 2147483647) :
    genRpcResponse l = responseDocument l := by
  have hlen := h
  rw [responseDocument_eq] at h hlen ⊢
  simp only [List.length_append, inTag_length] at hlen
  have hresp : (inTag "methodResponse" (crlf ++ renders (paramsMarkup l) ++ crlf)).length <
      2147483647 := by
    simp only [List.length_append, inTag_length]
    omega
  rw [genRpcResponse, listToXmlParams_eq (by omega), sFormat_fits hresp, sFormat_fits h]

end STRos
