import STRos.Rpc.Documents

/-! # Printed values are read back

The printer and the decoder are two recursions that meet at the tree of the
document. A fresh list is printed as one NIL value, which the decoder leaves
out, so it comes back as a fresh list at any depth.
-/

namespace STRos

open CString Markup

/-- The lists an application builds: `list_init` and the puts. -/
inductive Built (beyond : Byte → Prop) : RList → Prop
  | init : Built beyond listInit
  | putI {l : RList} (v : Int32) : Built beyond l → Built beyond (listPutI l v)
  | putB {l : RList} (v : Int32) : Built beyond l → Built beyond (listPutB l v)
  | putS {l : RList} {v : Bytes} : Built beyond l → Payload beyond v →
      Built beyond (listPutS l v)
  | putB64 {l : RList} {v : Bytes} : Built beyond l → Payload beyond v →
      Built beyond (listPutB64 l v)
  | putDate {l : RList} {v : Bytes} : Built beyond l → Payload beyond v →
      Built beyond (listPutDate l v)
  | putArray {l v : RList} : Built beyond l → Built beyond v → Built beyond (listPutArray l v)

/-! ## The tree of a value -/

theorem trees_textElement (tag : String) {s : Bytes} (hs : s ≠ []) :
    trees XMLNode.mk [textElement tag s] = [.mk (str tag) (some s) []] := by
  simp [textElement, trees, Node.tree, bodyText, addText, hs]

theorem trees_valueMarkup (body : List Node) :
    trees XMLNode.mk (valueMarkup body) =
      [.mk (str "value") (bodyText none body) (trees XMLNode.mk body)] := by
  simp [valueMarkup, trees, Node.tree]

theorem trees_blockMarkup (tag : String) (body : List Node) :
    ∃ text, trees XMLNode.mk (blockMarkup tag body) =
      [.mk (str tag) text (trees XMLNode.mk body)] :=
  ⟨_, by simp [blockMarkup, trees, trees_append, Node.tree]; rfl⟩

theorem itemMarkup_value (it : Item) : ∃ body, itemMarkup it = valueMarkup body := by
  cases it <;> exact ⟨_, by rw [itemMarkup]⟩

theorem itemsMarkup_append (l m : List Item) :
    itemsMarkup (l ++ m) = itemsMarkup l ++ itemsMarkup m := by
  induction l with
  | nil => rfl
  | cons it l ih => rw [List.cons_append, itemsMarkup, ih, itemsMarkup, List.append_assoc]

theorem itemsMarkup_singleton (it : Item) : itemsMarkup [it] = itemMarkup it := by
  simp [itemsMarkup]

theorem parseRpcValues_append (l : RList) (nodes nodes' : List XMLNode) :
    parseRpcValues l (nodes ++ nodes') =
      parseRpcValues l nodes >>= fun l => parseRpcValues l nodes' := by
  induction nodes generalizing l with
  | nil =>
      rw [parseRpcValues]
      rfl
  | cons node nodes ih =>
      rw [List.cons_append, parseRpcValues, parseRpcValues, bind_assoc]
      exact bind_congr fun l => ih l

/-! ## Reading one value -/

/-- The decoder puts the item back that was printed. -/
def ReadsBack (it : Item) : Prop :=
  ∀ l, parseRpcValues l (trees XMLNode.mk (itemMarkup it)) = .ok (listPut l it)

structure IsScalar (beyond : Byte → Prop) (it : Item) (tag : String) (s : Bytes) : Prop where
  markup : itemMarkup it = valueMarkup [textElement tag s]
  name : IsName (str tag)
  payload : Payload beyond s
  value : rpcTyped [.mk (str tag) (some s) []] = some it

theorem isScalar_int (beyond : Byte → Prop) (v : Int32) :
    IsScalar beyond (.int v) "int" (decimal v.toInt) where
  markup := by rw [itemMarkup]
  name := by decide
  payload := payload_decimal beyond v.toInt
  value := by
    unfold rpcTyped
    rw [if_neg (by decide), if_neg (by decide), if_neg (by decide), if_neg (by decide),
      if_pos (by decide), Option.map_some, atoi_decimal]

theorem isScalar_bool (beyond : Byte → Prop) (v : Int32) :
    IsScalar beyond (.bool v) "boolean" (decimal v.toInt) where
  markup := by rw [itemMarkup]
  name := by decide
  payload := payload_decimal beyond v.toInt
  value := by
    unfold rpcTyped
    rw [if_neg (by decide), if_pos rfl, Option.map_some, atoi_decimal]

section Text

variable {beyond : Byte → Prop} {v : Bytes} (hv : Payload beyond v)

include hv

theorem isScalar_string : IsScalar beyond (.string v) "string" v where
  markup := by rw [itemMarkup]
  name := by decide
  payload := hv
  value := by
    unfold rpcTyped
    rw [if_neg (by decide), if_neg (by decide), if_neg (by decide), if_neg (by decide),
      if_neg (by decide), if_pos rfl, Option.map_some]

theorem isScalar_base64 : IsScalar beyond (.base64 v) "base64" v where
  markup := by rw [itemMarkup]
  name := by decide
  payload := hv
  value := by
    unfold rpcTyped
    rw [if_pos rfl, Option.map_some]

theorem isScalar_date : IsScalar beyond (.date v) "dateTime.iso8601" v where
  markup := by rw [itemMarkup]
  name := by decide
  payload := hv
  value := by
    unfold rpcTyped
    rw [if_neg (by decide), if_neg (by decide), if_neg (by decide), if_pos rfl, Option.map_some]

end Text

theorem IsScalar.readsBack {beyond : Byte → Prop} {it : Item} {tag : String} {s : Bytes}
    (h : IsScalar beyond it tag s) : ReadsBack it := by
  intro l
  rw [h.markup, trees_valueMarkup, trees_textElement tag h.payload.1, parseRpcValues]
  have hnode : rpcValue (.mk (str "value") (bodyText none [textElement tag s])
      [.mk (str tag) (some s) []]) = some it := by
    rw [rpcValue, if_pos rfl, h.value]
  rw [(parseRpcValue_eq _ l hnode).1]
  rfl

/-- `<array>` with its `<data>` is read as the list that is read from the cells. -/
theorem parseRpcValues_array {m m' : RList}
    (hm : parseRpcValues listInit (trees XMLNode.mk (itemsMarkup m)) = .ok m') (l : RList) :
    parseRpcValues l (trees XMLNode.mk (itemMarkup (.array m))) = .ok (listPut l (.array m')) := by
  obtain ⟨text, hblock⟩ := trees_blockMarkup "array"
    [.element (str "data") (.text crlf :: itemsMarkup m)]
  obtain ⟨-, -, -, -, -, -, -, harray⟩ := hash_tags
  have hdata : trees XMLNode.mk [Node.element (str "data") (.text crlf :: itemsMarkup m)] =
      [.mk (str "data") (bodyText none (.text crlf :: itemsMarkup m))
        (trees XMLNode.mk (itemsMarkup m))] := by
    simp [trees, Node.tree]
  rw [itemMarkup, trees_valueMarkup, hblock, hdata, parseRpcValues, parseRpcValue_value,
    parseRpcTyped]
  simp only [harray, rpcTypeArray, rpcTypeBase64, rpcTypeBool, rpcTypeDouble, rpcTypeDate,
    rpcTypeInt, rpcTypeI4, rpcTypeString]
  simp only [ne_eq, not_true_eq_false, if_false, hm]
  rfl

theorem readsBack_array {m : RList}
    (hm : parseRpcValues listInit (trees XMLNode.mk (itemsMarkup m)) = .ok m) :
    ReadsBack (.array m) := fun l => parseRpcValues_array hm l

theorem parseRpcValues_listInit :
    parseRpcValues listInit (trees XMLNode.mk (itemsMarkup listInit)) = .ok listInit := by
  rfl

/-! ## Reading a list -/

theorem Built.cases {beyond : Byte → Prop} {l : RList} (h : Built beyond l) :
    l = listInit ∨ listEmpty l = false := by
  cases h with
  | init => exact Or.inl rfl
  | putI v h => exact Or.inr (listEmpty_listPut rfl)
  | putB v h => exact Or.inr (listEmpty_listPut rfl)
  | putS h hv => exact Or.inr (listEmpty_listPut rfl)
  | putB64 h hv => exact Or.inr (listEmpty_listPut rfl)
  | putDate h hv => exact Or.inr (listEmpty_listPut rfl)
  | putArray h hv => exact Or.inr (listEmpty_listPut rfl)

/-- A put extends the printed cells, and replaces the NIL cell of a fresh list. -/
theorem itemsMarkup_listPut (l : RList) (it : Item) :
    itemsMarkup (listPut l it) = (if listEmpty l then [] else itemsMarkup l) ++ itemMarkup it := by
  unfold listPut
  split
  · rw [itemsMarkup_singleton, List.nil_append]
  · rw [itemsMarkup_append, itemsMarkup_singleton]

theorem readsBack_listPut {beyond : Byte → Prop} {l : RList} (h : Built beyond l) {it : Item}
    (hl : parseRpcValues listInit (trees XMLNode.mk (itemsMarkup l)) = .ok l)
    (hit : ReadsBack it) :
    parseRpcValues listInit (trees XMLNode.mk (itemsMarkup (listPut l it))) =
      .ok (listPut l it) := by
  rw [itemsMarkup_listPut, trees_append, parseRpcValues_append]
  rcases h.cases with rfl | hne
  · exact hit listInit
  · rw [hne, if_neg (by simp), hl]
    exact hit l

/-- Induction over the puts; the arrays among them are lists built before. -/
theorem Built.readsBack {beyond : Byte → Prop} {l : RList} (h : Built beyond l) :
    parseRpcValues listInit (trees XMLNode.mk (itemsMarkup l)) = .ok l := by
  induction h with
  | init => exact parseRpcValues_listInit
  | putI v h ih => exact readsBack_listPut h ih (isScalar_int beyond v).readsBack
  | putB v h ih => exact readsBack_listPut h ih (isScalar_bool beyond v).readsBack
  | putS h hv ih => exact readsBack_listPut h ih (isScalar_string hv).readsBack
  | putB64 h hv ih => exact readsBack_listPut h ih (isScalar_base64 hv).readsBack
  | putDate h hv ih => exact readsBack_listPut h ih (isScalar_date hv).readsBack
  | putArray h _ ih ihv => exact readsBack_listPut h ih (readsBack_array ihv)

/-! ## Legal documents -/

section Legal

variable {beyond : Byte → Prop}

theorem legal_valueMarkup {body : List Node} (h : AllLegal (LegalByte beyond) body) :
    AllLegal (LegalByte beyond) (valueMarkup body) :=
  ⟨⟨by decide, h⟩, isText_crlf beyond, trivial⟩

theorem legal_blockMarkup {tag : String} (htag : IsName (str tag)) {body : List Node}
    (h : AllLegal (LegalByte beyond) body) :
    AllLegal (LegalByte beyond) (blockMarkup tag body) :=
  ⟨⟨htag, isText_crlf beyond, allLegal_append.mpr ⟨h, isText_crlf beyond, trivial⟩⟩,
    isText_crlf beyond, trivial⟩

theorem legal_textElement {tag : String} (htag : IsName (str tag)) {s : Bytes}
    (hs : Payload beyond s) : (textElement tag s).Legal (LegalByte beyond) :=
  ⟨htag, hs.2, trivial⟩

theorem legal_listPut {l : RList} {it : Item}
    (hl : AllLegal (LegalByte beyond) (itemsMarkup l))
    (hit : AllLegal (LegalByte beyond) (itemMarkup it)) :
    AllLegal (LegalByte beyond) (itemsMarkup (listPut l it)) := by
  rw [itemsMarkup_listPut, allLegal_append]
  refine ⟨?_, hit⟩
  split
  · trivial
  · exact hl

theorem IsScalar.legal {it : Item} {tag : String} {s : Bytes} (h : IsScalar beyond it tag s) :
    AllLegal (LegalByte beyond) (itemMarkup it) := by
  rw [h.markup]
  exact legal_valueMarkup ⟨legal_textElement h.name h.payload, trivial⟩

theorem legal_array {m : RList} (h : AllLegal (LegalByte beyond) (itemsMarkup m)) :
    AllLegal (LegalByte beyond) (itemMarkup (.array m)) := by
  rw [itemMarkup]
  refine legal_valueMarkup (legal_blockMarkup (by decide) ⟨?_, trivial⟩)
  exact ⟨by decide, isText_crlf beyond, h⟩

theorem Built.legal {l : RList} (h : Built beyond l) :
    AllLegal (LegalByte beyond) (itemsMarkup l) := by
  induction h with
  | init =>
      have hnil : (Node.empty (str "nil")).Legal (LegalByte beyond) := by
        rw [Node.Legal]
        decide
      rw [listInit, itemsMarkup_singleton, itemMarkup]
      exact legal_valueMarkup ⟨hnil, isText_crlf beyond, trivial⟩
  | putI v h ih => exact legal_listPut ih (isScalar_int beyond v).legal
  | putB v h ih => exact legal_listPut ih (isScalar_bool beyond v).legal
  | putS h hv ih => exact legal_listPut ih (isScalar_string hv).legal
  | putB64 h hv ih => exact legal_listPut ih (isScalar_base64 hv).legal
  | putDate h hv ih => exact legal_listPut ih (isScalar_date hv).legal
  | putArray h _ ih ihv => exact legal_listPut ih (legal_array ihv)

theorem legal_params {l : List Item} (h : AllLegal (LegalByte beyond) (itemsMarkup l)) :
    AllLegal (LegalByte beyond) (paramsMarkup l) := by
  refine legal_blockMarkup (by decide) ?_
  induction l with
  | nil => trivial
  | cons it l ih =>
      rw [itemsMarkup, allLegal_append] at h
      rw [parsMarkup, List.flatMap_cons, allLegal_append]
      exact ⟨legal_blockMarkup (by decide) h.1, ih h.2⟩

theorem legal_call {method : Bytes} (hmethod : Payload beyond method) {l : RList}
    (h : Built beyond l) :
    (Node.element (str "methodCall") (callMarkup method l)).Legal (LegalByte beyond) :=
  ⟨by decide, isText_crlf beyond, legal_textElement (by decide) hmethod, isText_crlf beyond,
    allLegal_append.mpr ⟨legal_params h.legal, isText_crlf beyond, trivial⟩⟩

theorem legal_response {l : RList} (h : Built beyond l) :
    (Node.element (str "methodResponse") (responseMarkup l)).Legal (LegalByte beyond) :=
  ⟨by decide, isText_crlf beyond,
    allLegal_append.mpr ⟨legal_params h.legal, isText_crlf beyond, trivial⟩⟩

end Legal

/-! ## Calls and responses -/

def paramTrees (l : RList) : List XMLNode := trees XMLNode.mk (parsMarkup l)

theorem paramTrees_cons (it : Item) (l : RList) :
    ∃ text, paramTrees (it :: l) =
      .mk (str "param") text (trees XMLNode.mk (itemMarkup it)) :: paramTrees l := by
  obtain ⟨text, htext⟩ := trees_blockMarkup "param" (itemMarkup it)
  refine ⟨text, ?_⟩
  rw [paramTrees, parsMarkup, List.flatMap_cons, trees_append, htext]
  rfl

theorem paramTrees_length (l : RList) : (paramTrees l).length = l.length := by
  induction l with
  | nil => rfl
  | cons it l ih =>
      obtain ⟨text, h⟩ := paramTrees_cons it l
      rw [h, List.length_cons, ih, List.length_cons]

theorem parseRpcValue_param (l : RList) (text : Option Bytes) (it : Item) :
    parseRpcValue l (.mk (str "param") text (trees XMLNode.mk (itemMarkup it))) =
      parseRpcValues l (trees XMLNode.mk (itemMarkup it)) := by
  obtain ⟨body, hbody⟩ := itemMarkup_value it
  rw [hbody, trees_valueMarkup, parseRpcValue, if_neg (by decide), parseRpcValues,
    parseRpcValue_value]
  simp only [ne_eq, not_true_eq_false, if_false]
  cases parseRpcTyped l (trees XMLNode.mk body) with
  | error e => rfl
  | ok l' =>
      change _ = parseRpcValues l' []
      rw [parseRpcValues]

theorem parseRpcValues_paramTrees (l m : RList) :
    parseRpcValues l (paramTrees m) = parseRpcValues l (trees XMLNode.mk (itemsMarkup m)) := by
  induction m generalizing l with
  | nil => rfl
  | cons it m ih =>
      obtain ⟨text, h⟩ := paramTrees_cons it m
      rw [h, parseRpcValues, parseRpcValue_param, itemsMarkup, trees_append, parseRpcValues_append]
      exact bind_congr fun l => ih l

theorem parseParams_paramTrees {l m l' : RList}
    (h : parseRpcValues l (paramTrees m) = .ok l') :
    parseParams l (paramTrees m) = .ok (some l') := by
  induction m generalizing l with
  | nil =>
      change parseRpcValues l [] = .ok l' at h
      rw [parseRpcValues] at h
      cases h
      rfl
  | cons it m ih =>
      obtain ⟨text, htext⟩ := paramTrees_cons it m
      rw [htext, parseRpcValues] at h
      obtain ⟨l₁, hvalue, hrest⟩ := bind_eq_ok.mp h
      rw [htext, parseParams, XMLNode.tag_mk, if_neg (by simp), hvalue]
      exact ih hrest

theorem Built.listSize {beyond : Byte → Prop} {l : RList} (h : Built beyond l)
    (hne : listSize l ≠ 0) : listSize l = l.length := by
  rcases h.cases with rfl | hl
  · exact absurd rfl hne
  · simp [STRos.listSize, hl]

section RoundTrip

variable {beyond : Byte → Prop} {parseXml : Bytes → C (Option XMLDoc)}

theorem call_readsBack (hparser : ParsesDocuments beyond parseXml) {method : Bytes}
    (hmethod : Payload beyond method) {l : RList} (hl : Built beyond l) (hne : listSize l ≠ 0) :
    ∃ doc root, parseXml (callDocument method l) = .ok (some doc) ∧ doc.root = .ok root ∧
      root.tag = str "methodCall" ∧
      parseRpcMethod root = .ok (some ⟨some method, listSize l, l⟩) := by
  obtain ⟨doc, hdoc, hroot⟩ := hparser _ _ (legal_call hmethod hl)
  obtain ⟨text, hparams⟩ := trees_blockMarkup "params" (parsMarkup l)
  have htrees : trees XMLNode.mk (callMarkup method l) =
      [.mk (str "methodName") (some method) [], .mk (str "params") text (paramTrees l)] := by
    have hname := trees_textElement "methodName" hmethod.1
    simp only [trees, List.append_nil] at hname
    simp only [callMarkup, paramsMarkup, trees, Node.tree, hname, trees_append, hparams,
      List.nil_append, List.append_nil]
    rfl
  have hparse : parseParams listInit (paramTrees l) = .ok (some l) :=
    parseParams_paramTrees ((parseRpcValues_paramTrees listInit l).trans hl.readsBack)
  rw [htrees] at hroot
  refine ⟨doc, _, hdoc, hroot, rfl, ?_⟩
  simp only [parseRpcMethod, XMLNode.children_mk, XMLNode.tag_mk, XMLNode.text_mk, ne_eq,
    not_true_eq_false, if_false, strdup, hparse, paramTrees_length, hl.listSize hne]
  rfl

theorem response_readsBack (hparser : ParsesDocuments beyond parseXml) {l : RList}
    (hl : Built beyond l) (hne : listSize l ≠ 0) :
    ∃ doc root, parseXml (responseDocument l) = .ok (some doc) ∧ doc.root = .ok root ∧
      parseResponseRoot root = .ok (some ⟨respOk, listSize l, some l⟩) := by
  obtain ⟨doc, hdoc, hroot⟩ := hparser _ _ (legal_response hl)
  obtain ⟨text, hparams⟩ := trees_blockMarkup "params" (parsMarkup l)
  have htrees : trees XMLNode.mk (responseMarkup l) =
      [.mk (str "params") text (paramTrees l)] := by
    simp only [responseMarkup, paramsMarkup, trees, Node.tree, trees_append, hparams,
      List.nil_append, List.append_nil]
    rfl
  have hparse : parseRpcValues listInit (paramTrees l) = .ok l :=
    (parseRpcValues_paramTrees listInit l).trans hl.readsBack
  rw [htrees] at hroot
  refine ⟨doc, _, hdoc, hroot, ?_⟩
  simp only [parseResponseRoot, XMLNode.children_mk, XMLNode.tag_mk, ne_eq, not_true_eq_false,
    if_false, if_true, hparse, paramTrees_length, hl.listSize hne]
  rfl

end RoundTrip

/-- Values survive a printed call and a printed response, at any depth, when the printed text is
one that `__s` can count. -/
theorem values_roundTrip {beyond : Byte → Prop} {parseXml : Bytes → C (Option XMLDoc)}
    (hparser : ParsesDocuments beyond parseXml) {method : Bytes} (hmethod : Payload beyond method)
    (n : Nat) {l : RList} (hl : Built beyond l) (hne : listSize l ≠ 0) :
    ((callDocument method l).length < 2147483647 →
        ∃ doc root, parseXml (genRpcCall ⟨some method, n, l⟩) = .ok (some doc) ∧
          doc.root = .ok root ∧
          parseRpcMethod root = .ok (some ⟨some method, listSize l, l⟩)) ∧
      ((responseDocument l).length < 2147483647 →
        ∃ doc root, parseXml (genRpcResponse l) = .ok (some doc) ∧ doc.root = .ok root ∧
          parseResponseRoot root = .ok (some ⟨respOk, listSize l, some l⟩)) := by
  constructor
  · intro hfits
    obtain ⟨doc, root, hdoc, hroot, -, hcall⟩ := call_readsBack hparser hmethod hl hne
    exact ⟨doc, root, (genRpcCall_eq n hfits).symm ▸ hdoc, hroot, hcall⟩
  · intro hfits
    obtain ⟨doc, root, hdoc, hroot, hresp⟩ := response_readsBack hparser hl hne
    exact ⟨doc, root, (genRpcResponse_eq hfits).symm ▸ hdoc, hroot, hresp⟩

def nestedList : RList :=
  listPutArray (listPutB (listPutI listInit (-7)) 1)
    (listPutArray (listPutArray listInit listInit) (listPutS listInit (str "a")))

theorem built_nestedList : Built (fun _ => True) nestedList :=
  ((Built.init.putI (-7)).putB 1).putArray
    ((Built.init.putArray Built.init).putArray
      (Built.init.putS (payload_ascii (by decide) (by decide))))

theorem values_roundTrip_nested :
    (∃ doc root, plainParser (genRpcCall ⟨some (str "echo"), 3, nestedList⟩) = .ok (some doc) ∧
        doc.root = .ok root ∧
        parseRpcMethod root = .ok (some ⟨some (str "echo"), 3, nestedList⟩)) ∧
      ∃ doc root, plainParser (genRpcResponse nestedList) = .ok (some doc) ∧
        doc.root = .ok root ∧
        parseResponseRoot root = .ok (some ⟨respOk, 3, some nestedList⟩) := by
  have hmethod : Payload (fun _ => True) (str "echo") := payload_ascii (by decide) (by decide)
  have hround := values_roundTrip (plainParser_parsesDocuments fun _ => True) hmethod 3
    built_nestedList (by decide)
  exact ⟨hround.1 (by decide +kernel), hround.2 (by decide +kernel)⟩

/-! ## A text of 2 GiB -/

theorem payload_replicate {n : Nat} (hn : 0 < n) :
    Payload (fun _ => True) (List.replicate n 97) := by
  refine ⟨List.ne_nil_of_length_pos (by rwa [List.length_replicate]), ?_⟩
  intro b hb
  obtain rfl := List.eq_of_mem_replicate hb
  exact ⟨Or.inr trivial, by decide⟩

/-- Of a text that is too long the element is not printed either. -/
theorem itemToXml_overflow {s : Bytes} (h : 2147483647 ≤ s.length) :
    itemToXml (.string s) = xmlValue [] := by
  have hstr : 2147483647 ≤ (xmlStr s).length := by
    rw [xmlStr, inTag_length]
    omega
  rw [itemToXml, sFormat_overflow hstr, sFormat_fits (by decide)]

def emptyValueCall : List Node :=
  .text crlf :: (textElement "methodName" (str "echo") :: .text crlf ::
    (blockMarkup "params" (blockMarkup "param" (valueMarkup [])) ++ [.text crlf]))

theorem genRpcCall_overflow {s : Bytes} (h : 2147483647 ≤ s.length) :
    genRpcCall ⟨some (str "echo"), 1, listPutS listInit s⟩ =
      xmlVer ++ (Node.element (str "methodCall") emptyValueCall).render := by
  have hlist : listPutS listInit s = [.string s] := rfl
  simp only [genRpcCall, Option.getD_some, hlist, listToXmlParams, parsToXml, itemToXml_overflow h]
  decide +kernel

/-- The string is not in the call, and the server finds a parameter without a value. -/
theorem values_lost :
    ∃ s, s = List.replicate 2147483648 97 ∧ Built (fun _ => True) (listPutS listInit s) ∧
      listSize (listPutS listInit s) ≠ 0 ∧
      ¬ ∃ doc root,
        plainParser (genRpcCall ⟨some (str "echo"), 1, listPutS listInit s⟩) = .ok (some doc) ∧
        doc.root = .ok root ∧
        parseRpcMethod root =
          .ok (some ⟨some (str "echo"), listSize (listPutS listInit s), listPutS listInit s⟩) := by
  obtain ⟨s, hs⟩ : ∃ s, s = List.replicate 2147483648 (97 : Byte) := ⟨_, rfl⟩
  have hlen : s.length = 2147483648 := by rw [hs, List.length_replicate]
  have hpayload : Payload (fun _ => True) s := by
    rw [hs]
    exact payload_replicate (by decide)
  have hsize : listSize (listPutS listInit s) = 1 := rfl
  refine ⟨s, hs, Built.init.putS hpayload, by rw [hsize]; decide, ?_⟩
  rintro ⟨doc, root, hdoc, hroot, hmethod⟩
  have hecho : Payload (fun _ => True) (str "echo") := payload_ascii (by decide) (by decide)
  have hcrlf := isText_crlf fun _ => True
  have hlegal : (Node.element (str "methodCall") emptyValueCall).Legal
      (LegalByte fun _ => True) := by
    refine ⟨by decide, hcrlf, legal_textElement (by decide) hecho, hcrlf, ?_⟩
    refine allLegal_append.mpr ⟨?_, hcrlf, trivial⟩
    exact legal_blockMarkup (by decide)
      (legal_blockMarkup (by decide) (legal_valueMarkup trivial))
  obtain ⟨doc', hdoc', hroot'⟩ := plainParser_parsesDocuments (fun _ => True) _ _ hlegal
  rw [genRpcCall_overflow (by omega), hdoc'] at hdoc
  cases hdoc
  rw [hroot'] at hroot
  cases hroot
  have hempty : parseRpcMethod (.mk (str "methodCall") (bodyText none emptyValueCall)
      (trees XMLNode.mk emptyValueCall)) = .ok (some ⟨some (str "echo"), 1, listInit⟩) := rfl
  rw [hempty] at hmethod
  injection hmethod with hmethod
  injection hmethod with hmethod
  injection hmethod with _ _ hvalues
  cases hvalues

end STRos
