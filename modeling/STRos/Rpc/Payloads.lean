import STRos.Rpc.KeptTexts
import STRos.Rpc.Parsing
import STRos.Rpc.RoundTrip

/-! # Payloads in a printed document

The printer puts a text between its tags as it is, and the parser does not expand
entities. So a document is read back as it was printed when each text is there and free
of `<`; otherwise a value is lost, changed or retyped, or the decoder takes a text that
is not there.
-/

namespace STRos

open CString Markup

/-! ## What comes back -/

mutual

/-- The value that is read for a printed one: itself, unless it is a `double`, whose kind
is told from its text, or holds one. -/
def comesBack : Item → Item
  | .nil => .nil
  | .int i => .int i
  | .bool b => .bool b
  | .double d => specialItem d.print
  | .string s => .string s
  | .date s => .date s
  | .base64 s => .base64 s
  | .array m => .array (listBack listInit m)

/-- The puts for the values of a list; a NIL cell is printed and not put. -/
def listBack (l : RList) : List Item → RList
  | [] => l
  | it :: m => if it.isNil then listBack l m else listBack (listPut l (comesBack it)) m

end

def paramsBody (l : RList) : List Node := .text crlf :: (parsMarkup l ++ [.text crlf])

def paramsTree (l : RList) : XMLNode :=
  .mk (str "params") (bodyText none (paramsBody l)) (trees XMLNode.mk (paramsBody l))

/-- The document of a list is parsed to its elements, with one `<param>` for each cell, and the
values are read back. -/
def PayloadsKept (l : RList) : Prop :=
  ∃ doc root, xmlDocParseBufferDom (listToXmlParams l) = .ok (some doc) ∧ doc.root = .ok root ∧
    root = paramsTree l ∧ (∀ node ∈ root.children, node.tag = str "param") ∧
    root.children.length = l.length ∧
    parseRpcValues listInit root.children = .ok (listBack listInit l)

/-- No line of the document ends one byte before the end of its block where it is read
on behind a `>`, and none is too long for a block. -/
def Roomy (l : RList) : Prop := roomy 256 0 true false (listToXmlParams l) = true

instance (l : RList) : Decidable (Roomy l) := inferInstanceAs (Decidable (_ = _))

/-! ## The tree of the document -/

def itemText : Item → Option (String × Bytes)
  | .nil => none
  | .int i => some ("int", decimal i.toInt)
  | .bool b => some ("boolean", decimal b.toInt)
  | .double d => some ("double", d.print)
  | .string s => some ("string", s)
  | .date s => some ("dateTime.iso8601", s)
  | .base64 s => some ("base64", s)
  | .array _ => none

theorem itemMarkup_text {it : Item} {tag : String} {s : Bytes} (h : itemText it = some (tag, s)) :
    itemMarkup it = valueMarkup [textElement tag s] := by
  cases it <;> cases h <;> rw [itemMarkup]

theorem rpcTyped_text {it : Item} {tag : String} {s : Bytes} (h : itemText it = some (tag, s)) :
    rpcTyped [.mk (str tag) (some s) []] = some (comesBack it) := by
  cases it with
  | nil => cases h
  | int i =>
      cases h
      rw [comesBack, ← atoi_decimal i]
      unfold rpcTyped
      rw [if_neg (by decide), if_neg (by decide), if_neg (by decide), if_neg (by decide),
        if_pos (by decide), Option.map_some, atoi_decimal]
  | bool b =>
      cases h
      unfold rpcTyped
      rw [if_neg (by decide), if_pos rfl, Option.map_some, atoi_decimal, comesBack]
  | double d =>
      cases h
      unfold rpcTyped
      rw [if_neg (by decide), if_neg (by decide), if_pos rfl, Option.map_some, comesBack]
  | string s =>
      cases h
      unfold rpcTyped
      rw [if_neg (by decide), if_neg (by decide), if_neg (by decide), if_neg (by decide),
        if_neg (by decide), if_pos rfl, Option.map_some, comesBack]
  | date s =>
      cases h
      unfold rpcTyped
      rw [if_neg (by decide), if_neg (by decide), if_neg (by decide), if_pos rfl, Option.map_some,
        comesBack]
  | base64 s =>
      cases h
      unfold rpcTyped
      rw [if_pos rfl, Option.map_some, comesBack]
  | array m => cases h

/-! ## Printed texts -/

theorem carried_of_payload {s : Bytes} (h : Payload (fun _ => False) s) : Carried s := by
  refine ⟨h.1, fun hmem => (h.2 0 hmem).2.1 rfl, fun hmem => (h.2 60 hmem).2.2.1 rfl,
    fun hmem => ?_⟩
  cases (h.2 255 hmem).1 with
  | inl hlt => exact absurd hlt (by decide)
  | inr hf => exact hf

theorem plain_decimalNat (n : Nat) : Plain (decimalNat n) :=
  (carried_of_payload ⟨decimalNat_ne_nil n, isText_decimalNat _ n⟩).2

theorem carried_print (d : Binary64) : Carried d.print := by
  have hsign : Plain (if 2 ^ 63 ≤ d.bits.toNat then [45] else []) := by
    split
    · unfold Plain
      decide
    · exact Plain.nil
  have hpoint : Plain [46] := by
    unfold Plain
    decide
  have hzeros : ∀ n, Plain (List.replicate n 48) := by
    intro n
    refine ⟨?_, ?_, ?_⟩ <;> simp [List.mem_replicate]
  unfold Binary64.print
  simp only
  split
  · refine ⟨List.append_ne_nil_of_right_ne_nil _ ?_, plain_append.mpr ⟨hsign, ?_⟩⟩
    · split <;> decide
    · split
      · unfold Plain
        decide
      · unfold Plain
        decide
  · refine ⟨by simp, ?_⟩
    simp only [plain_append]
    exact ⟨⟨⟨⟨hsign, plain_decimalNat _⟩, hpoint⟩, hzeros _⟩, plain_decimalNat _⟩

theorem itemText_carried {it : Item} (hit : ItemCarried it) {tag : String} {s : Bytes}
    (h : itemText it = some (tag, s)) : Carried s := by
  cases it with
  | nil => cases h
  | int i =>
      cases h
      exact carried_of_payload (payload_decimal _ _)
  | bool b =>
      cases h
      exact carried_of_payload (payload_decimal _ _)
  | double d =>
      cases h
      exact carried_print d
  | string s =>
      cases h
      exact hit
  | date s =>
      cases h
      exact hit
  | base64 s =>
      cases h
      exact hit
  | array m => cases h

/-! ## The document is read back -/

theorem parseRpcValues_text {it : Item} {tag : String} {s : Bytes} (h : itemText it = some (tag, s))
    (hs : s ≠ []) (l : RList) :
    parseRpcValues l (trees XMLNode.mk (itemMarkup it)) = .ok (listPut l (comesBack it)) := by
  have hnode : rpcValue (.mk (str "value") (bodyText none [textElement tag s])
      [.mk (str tag) (some s) []]) = some (comesBack it) := by
    rw [rpcValue, if_pos rfl, rpcTyped_text h]
  rw [itemMarkup_text h, trees_valueMarkup, trees_textElement tag hs, parseRpcValues,
    (parseRpcValue_eq _ l hnode).1]
  rfl

theorem parseRpcValues_nil (l : RList) :
    parseRpcValues l (trees XMLNode.mk (itemMarkup .nil)) = .ok l := by
  rfl

mutual

/-- Each value is put as it comes back. -/
theorem parseRpcValues_item {it : Item} (h : ItemCarried it) (l : RList) :
    parseRpcValues l (trees XMLNode.mk (itemMarkup it)) =
      .ok (if it.isNil then l else listPut l (comesBack it)) := by
  match it with
  | .nil => exact parseRpcValues_nil l
  | .int i => exact parseRpcValues_text rfl (itemText_carried h rfl).1 l
  | .bool b => exact parseRpcValues_text rfl (itemText_carried h rfl).1 l
  | .double d => exact parseRpcValues_text rfl (itemText_carried h rfl).1 l
  | .string s => exact parseRpcValues_text rfl (itemText_carried h rfl).1 l
  | .date s => exact parseRpcValues_text rfl (itemText_carried h rfl).1 l
  | .base64 s => exact parseRpcValues_text rfl (itemText_carried h rfl).1 l
  | .array m =>
      rw [ItemCarried] at h
      have hm := parseRpcValues_items h listInit
      rw [parseRpcValues_array hm, comesBack]
      rfl

theorem parseRpcValues_items {m : List Item} (h : ItemsCarried m) (l : RList) :
    parseRpcValues l (trees XMLNode.mk (itemsMarkup m)) = .ok (listBack l m) := by
  match m with
  | [] =>
      rw [itemsMarkup, trees, parseRpcValues, listBack]
  | it :: m =>
      rw [ItemsCarried] at h
      rw [itemsMarkup, trees_append, parseRpcValues_append, parseRpcValues_item h.1, listBack]
      split
      · exact parseRpcValues_items h.2 l
      · exact parseRpcValues_items h.2 _

end

/-! ## What is printed is plain -/

theorem plainNodes_append {nodes nodes' : List Node} :
    PlainNodes (nodes ++ nodes') ↔ PlainNodes nodes ∧ PlainNodes nodes' := by
  induction nodes with
  | nil => simp [PlainNodes]
  | cons node nodes ih => rw [List.cons_append, PlainNodes, PlainNodes, ih, and_assoc]

theorem plainNodes_cut {nodes : List Node} (h : PlainNodes nodes) : PlainNodes (cut nodes) := by
  rw [cut]
  split
  · exact h
  · trivial

theorem plainNodes_value {body : List Node} (h : PlainNodes body) : PlainNodes (valueMarkup body) :=
  ⟨⟨by decide, h⟩, plain_crlf, trivial⟩

theorem plainNodes_block {tag : String} (htag : PlainTag (str tag)) {body : List Node}
    (h : PlainNodes body) : PlainNodes (blockMarkup tag body) :=
  ⟨⟨htag, plain_crlf, plainNodes_append.mpr ⟨h, plain_crlf, trivial⟩⟩, plain_crlf, trivial⟩

theorem plainNodes_text {tag : String} (htag : PlainTag (str tag)) {s : Bytes} (h : Carried s) :
    PlainNodes (cut (valueMarkup (cut [textElement tag s]))) := by
  have helement : PlainNodes [textElement tag s] := by
    simp only [textElement, PlainNodes, PlainNode]
    exact ⟨⟨htag, h.2, trivial⟩, trivial⟩
  exact plainNodes_cut (plainNodes_value (plainNodes_cut helement))

mutual

theorem plainNodes_item {it : Item} (h : ItemCarried it) : PlainNodes (itemPrinted it) := by
  match it with
  | .nil =>
      have hnil : PlainNodes [.empty (str "nil"), .text crlf] := by
        simp only [PlainNodes, PlainNode]
        exact ⟨by decide, plain_crlf, trivial⟩
      rw [itemPrinted]
      exact plainNodes_cut (plainNodes_value hnil)
  | .int i =>
      rw [itemPrinted]
      exact plainNodes_text (by decide) (itemText_carried h rfl)
  | .bool b =>
      rw [itemPrinted]
      exact plainNodes_text (by decide) (itemText_carried h rfl)
  | .double d =>
      rw [itemPrinted]
      exact plainNodes_text (by decide) (itemText_carried h rfl)
  | .string s =>
      rw [itemPrinted]
      exact plainNodes_text (by decide) (itemText_carried h rfl)
  | .date s =>
      rw [itemPrinted]
      exact plainNodes_text (by decide) (itemText_carried h rfl)
  | .base64 s =>
      rw [itemPrinted]
      exact plainNodes_text (by decide) (itemText_carried h rfl)
  | .array m =>
      rw [ItemCarried] at h
      have hdata : PlainNodes [.element (str "data") (.text crlf :: itemsPrinted [] m)] := by
        simp only [PlainNodes, PlainNode]
        exact ⟨⟨by decide, plain_crlf, plainNodes_items h trivial⟩, trivial⟩
      rw [itemPrinted]
      exact plainNodes_cut (plainNodes_value (plainNodes_cut (plainNodes_block (by decide) hdata)))

theorem plainNodes_items {m : List Item} (h : ItemsCarried m) {dnode : List Node}
    (hd : PlainNodes dnode) : PlainNodes (itemsPrinted dnode m) := by
  match m with
  | [] =>
      rw [itemsPrinted]
      exact hd
  | it :: m =>
      rw [ItemsCarried] at h
      rw [itemsPrinted]
      exact plainNodes_items h.2 (plainNodes_cut (plainNodes_append.mpr ⟨hd, plainNodes_item h.1⟩))

end

theorem plainNodes_pars {l : List Item} (h : ItemsCarried l) {pnode : List Node}
    (hp : PlainNodes pnode) : PlainNodes (parsPrinted pnode l) := by
  induction l generalizing pnode with
  | nil =>
      rw [parsPrinted]
      exact hp
  | cons np l ih =>
      rw [ItemsCarried] at h
      rw [parsPrinted]
      refine ih h.2 (plainNodes_cut (plainNodes_append.mpr ⟨hp, ?_⟩))
      exact plainNodes_cut (plainNodes_block (by decide) (plainNodes_item h.1))

mutual

theorem plainNode_nulFree {node : Node} (h : PlainNode node) : NulFree node.render := by
  match node with
  | .text s =>
      rw [PlainNode] at h
      rw [render_text]
      exact h.1
  | .element tag body =>
      rw [PlainNode] at h
      have hbody := plainNodes_nulFree h.2
      simp only [Node.render, nulFree_append, nulFree_cons, h.1.name.nulFree, hbody]
      decide
  | .empty tag =>
      rw [PlainNode] at h
      simp only [Node.render, nulFree_append, nulFree_cons, h.name.nulFree]
      decide

theorem plainNodes_nulFree {body : List Node} (h : PlainNodes body) : NulFree (renders body) := by
  match body with
  | [] => exact NulFree.nil
  | node :: body =>
      rw [PlainNodes] at h
      rw [renders_cons, nulFree_append]
      exact ⟨plainNode_nulFree h.1, plainNodes_nulFree h.2⟩

end

/-! ## What is printed is all or less -/

mutual

def nodeWeight : Node → Nat
  | .text s => s.length
  | .element _ body => 1 + nodesWeight body
  | .empty _ => 1

def nodesWeight : List Node → Nat
  | [] => 0
  | node :: nodes => nodeWeight node + nodesWeight nodes

end

theorem nodesWeight_append (nodes nodes' : List Node) :
    nodesWeight (nodes ++ nodes') = nodesWeight nodes + nodesWeight nodes' := by
  induction nodes with
  | nil => simp [nodesWeight]
  | cons node nodes ih => rw [List.cons_append, nodesWeight, nodesWeight, ih, Nat.add_assoc]

theorem renders_eq_nil {nodes : List Node} (h : nodesWeight nodes = 0) : renders nodes = [] := by
  induction nodes with
  | nil => rfl
  | cons node nodes ih =>
      rw [nodesWeight, Nat.add_eq_zero_iff] at h
      cases node with
      | text s =>
          have hs : s = [] := List.length_eq_zero_iff.mp h.1
          rw [renders_cons, render_text, hs, ih h.2, List.append_nil]
      | element tag body =>
          rw [nodeWeight] at h
          omega
      | empty tag =>
          rw [nodeWeight] at h
          omega

mutual

/-- The tree of a markup weighs as much as the markup. -/
theorem weights_tree (node : Node) (text : Option Bytes) :
    XMLNode.weights (node.tree XMLNode.mk) + ((bodyText text [node]).getD []).length =
      nodeWeight node + (text.getD []).length := by
  match node with
  | .text s =>
      simp only [Node.tree, XMLNode.weights, bodyText, addText_length, nodeWeight]
      omega
  | .element tag body =>
      have hbody := weights_trees body none
      simp only [Option.getD_none, List.length_nil] at hbody
      simp only [Node.tree, XMLNode.weights_singleton, XMLNode.weight_mk, bodyText, nodeWeight]
      omega
  | .empty tag =>
      simp only [Node.tree, XMLNode.weights_singleton, XMLNode.weight_mk, bodyText, nodeWeight,
        XMLNode.weights, Option.getD_none, List.length_nil]

theorem weights_trees (body : List Node) (text : Option Bytes) :
    XMLNode.weights (trees XMLNode.mk body) + ((bodyText text body).getD []).length =
      nodesWeight body + (text.getD []).length := by
  match body with
  | [] => simp [trees, XMLNode.weights, bodyText, nodesWeight]
  | node :: body =>
      have hnode := weights_tree node text
      have hbody := weights_trees body (bodyText text [node])
      rw [trees, XMLNode.weights_append, bodyText_cons, nodesWeight]
      omega

end

/-- All of a markup, or a part of it that weighs less. -/
def Trimmed (nodes nodes' : List Node) : Prop :=
  nodes = nodes' ∨ nodesWeight nodes < nodesWeight nodes'

theorem Trimmed.le {nodes nodes' : List Node} (h : Trimmed nodes nodes') :
    nodesWeight nodes ≤ nodesWeight nodes' := by
  rcases h with rfl | h
  · exact Nat.le_refl _
  · exact Nat.le_of_lt h

theorem Trimmed.append {nodes nodes' more more' : List Node} (h : Trimmed nodes nodes')
    (hmore : Trimmed more more') : Trimmed (nodes ++ more) (nodes' ++ more') := by
  have hle := hmore.le
  rcases h with rfl | h
  · rcases hmore with rfl | hmore
    · exact Or.inl rfl
    · right
      rw [nodesWeight_append, nodesWeight_append]
      omega
  · right
    rw [nodesWeight_append, nodesWeight_append]
    omega

theorem Trimmed.element {body body' : List Node} (h : Trimmed body body') (tag : Bytes) :
    Trimmed [.element tag body] [.element tag body'] := by
  rcases h with rfl | h
  · exact Or.inl rfl
  · right
    simp only [nodesWeight, nodeWeight]
    omega

theorem Trimmed.value {body body' : List Node} (h : Trimmed body body') :
    Trimmed (valueMarkup body) (valueMarkup body') :=
  (h.element (str "value")).append (Or.inl rfl)

theorem Trimmed.block {body body' : List Node} (h : Trimmed body body') (tag : String) :
    Trimmed (blockMarkup tag body) (blockMarkup tag body') := by
  have hlines : Trimmed ([.text crlf] ++ (body ++ [.text crlf]))
      ([.text crlf] ++ (body' ++ [.text crlf])) :=
    Trimmed.append (Or.inl rfl) (h.append (Or.inl rfl))
  exact (hlines.element (str tag)).append (Or.inl rfl)

/-- A text that `__s` cannot count is not empty. -/
theorem Trimmed.cut {nodes nodes' : List Node} (h : Trimmed nodes nodes') :
    Trimmed (cut nodes) nodes' := by
  rw [STRos.cut]
  split
  · exact h
  · rename_i hlong
    have hpos : 0 < nodesWeight nodes := by
      refine Nat.pos_of_ne_zero fun hzero => hlong ?_
      rw [renders_eq_nil hzero, List.length_nil]
      decide
    exact Or.inr (Nat.lt_of_lt_of_le hpos h.le)

theorem trimmed_text (tag : String) (s : Bytes) :
    Trimmed (cut (valueMarkup (cut [textElement tag s]))) (valueMarkup [textElement tag s]) := by
  have htext : Trimmed [textElement tag s] [textElement tag s] := Or.inl rfl
  exact htext.cut.value.cut

mutual

theorem trimmed_item (it : Item) : Trimmed (itemPrinted it) (itemMarkup it) := by
  match it with
  | .nil =>
      rw [itemPrinted, itemMarkup]
      exact Trimmed.cut (Or.inl rfl)
  | .int i =>
      rw [itemPrinted, itemMarkup]
      exact trimmed_text _ _
  | .bool b =>
      rw [itemPrinted, itemMarkup]
      exact trimmed_text _ _
  | .double d =>
      rw [itemPrinted, itemMarkup]
      exact trimmed_text _ _
  | .string s =>
      rw [itemPrinted, itemMarkup]
      exact trimmed_text _ _
  | .date s =>
      rw [itemPrinted, itemMarkup]
      exact trimmed_text _ _
  | .base64 s =>
      rw [itemPrinted, itemMarkup]
      exact trimmed_text _ _
  | .array m =>
      rw [itemPrinted, itemMarkup]
      have hdata : Trimmed ([.text crlf] ++ itemsPrinted [] m)
          ([.text crlf] ++ ([] ++ itemsMarkup m)) :=
        Trimmed.append (Or.inl rfl) (trimmed_items m (Or.inl rfl))
      exact ((hdata.element (str "data")).block "array").cut.value.cut

theorem trimmed_items (m : List Item) {dnode dnode' : List Node} (h : Trimmed dnode dnode') :
    Trimmed (itemsPrinted dnode m) (dnode' ++ itemsMarkup m) := by
  match m with
  | [] =>
      rw [itemsPrinted, itemsMarkup, List.append_nil]
      exact h
  | it :: m =>
      rw [itemsPrinted, itemsMarkup, ← List.append_assoc]
      exact trimmed_items m (h.append (trimmed_item it)).cut

end

theorem trimmed_pars (l : List Item) {pnode pnode' : List Node} (h : Trimmed pnode pnode') :
    Trimmed (parsPrinted pnode l) (pnode' ++ parsMarkup l) := by
  induction l generalizing pnode pnode' with
  | nil =>
      rw [parsPrinted, parsMarkup, List.flatMap_nil, List.append_nil]
      exact h
  | cons np l ih =>
      rw [parsPrinted, parsMarkup_cons, ← List.append_assoc]
      exact ih (h.append ((trimmed_item np).block "param").cut).cut

/-! ## The document is parsed -/

def printedBody (l : RList) : List Node := .text crlf :: (parsPrinted [] l ++ [.text crlf])

theorem trimmed_body (l : RList) : Trimmed (printedBody l) (paramsBody l) := by
  have hpars : Trimmed (parsPrinted [] l) ([] ++ parsMarkup l) := trimmed_pars l (Or.inl rfl)
  rw [List.nil_append] at hpars
  have hlines : Trimmed ([.text crlf] ++ (parsPrinted [] l ++ [.text crlf]))
      ([.text crlf] ++ (parsMarkup l ++ [.text crlf])) :=
    Trimmed.append (Or.inl rfl) (hpars.append (Or.inl rfl))
  exact hlines

def printedTree (l : RList) : XMLNode :=
  .mk (str "params") (bodyText none (printedBody l)) (trees XMLNode.mk (printedBody l))

theorem weight_of_body (tag : Bytes) (body : List Node) :
    (XMLNode.mk tag (bodyText none body) (trees XMLNode.mk body)).weight =
      1 + nodesWeight body := by
  have hbody := weights_trees body none
  rw [Option.getD_none, List.length_nil] at hbody
  rw [XMLNode.weight_mk]
  omega

theorem weights_hangOpen (child : List XMLNode) (fs : List OpenNode) :
    XMLNode.weights (hangOpen child fs) = XMLNode.weights child + (fs.map (·.weight)).sum := by
  induction fs generalizing child with
  | nil => simp [hangOpen]
  | cons f fs ih =>
      have hf : f.weight = 1 + (f.text.getD []).length + XMLNode.weights f.children := rfl
      rw [hangOpen, ih, XMLNode.weights_singleton, XMLNode.weight_mk, XMLNode.weights_append,
        List.map_cons, List.sum_cons, hf]
      omega

theorem Dom.weight_doc (dom : Dom) : XMLNode.weights dom.doc.nodes = dom.weight := by
  rw [Dom.doc, XMLNode.weights_append, weights_hangOpen, XMLNode.weights, Nat.zero_add]
  rfl

/-- The root weighs at most as much as the document. -/
theorem XMLDoc.weight_root {doc : XMLDoc} {root : XMLNode} (h : doc.root = .ok root) :
    root.weight ≤ XMLNode.weights doc.nodes := by
  rw [XMLDoc.root] at h
  split at h
  · cases h
  · split at h
    · rename_i node hnode
      cases h
      obtain ⟨before, after, hsplit⟩ := List.append_of_mem (List.mem_of_getElem? hnode)
      rw [hsplit, XMLNode.weights_append, XMLNode.weights]
      omega
    · cases h

theorem listToXmlParams_printed {l : RList}
    (h : (renders (blockMarkup "params" (parsPrinted [] l))).length < 2147483647) :
    listToXmlParams l = (Node.element (str "params") (printedBody l)).render ++ crlf := by
  rw [← renders_paramsPrinted, paramsPrinted, cut_eq h, blockMarkup, renders_cons, renders_cons,
    renders_nil, render_text, List.append_nil]
  rfl

/-- With texts that can be carried, the parser finds the tree of the printed document, or there is
a line without room and it finds less. -/
theorem parse_printed {l : RList} (h : ItemsCarried l)
    (hfits : (renders (blockMarkup "params" (parsPrinted [] l))).length < 2147483647) :
    (Roomy l ∧ xmlDocParseBufferDom (listToXmlParams l) = .ok (some ⟨[printedTree l], 0⟩)) ∨
      ¬ Roomy l ∧ ∀ doc root, xmlDocParseBufferDom (listToXmlParams l) = .ok (some doc) →
        doc.root = .ok root → root.weight < (printedTree l).weight := by
  have hblock : PlainNodes (blockMarkup "params" (parsPrinted [] l)) :=
    plainNodes_block (by decide) (plainNodes_pars h trivial)
  rw [blockMarkup, PlainNodes] at hblock
  have hplain : PlainNode (.element (str "params") (printedBody l)) := hblock.1
  have hnul : NulFree (listToXmlParams l) := by
    rw [listToXmlParams_printed hfits, nulFree_append]
    exact ⟨plainNode_nulFree hplain, plain_crlf.1⟩
  have hspaces : crlf.all isSpace = true := by decide
  have hroot := parse_root hplain [] (Nat.le_refl 256) Plain.nil rfl hspaces
  rw [List.nil_append, ← listToXmlParams_printed hfits] at hroot
  rw [xmlDocParseBufferDom, cstr_of_nulFree hnul]
  rcases hroot with ⟨hroomy, hparse⟩ | hcrowded
  · left
    rw [hparse]
    exact ⟨hroomy, rfl⟩
  · right
    refine ⟨?_, fun doc root hdoc hroot => ?_⟩
    · rw [Roomy, hcrowded.room]
      decide
    · have hle := XMLDoc.weight_root hroot
      cases hparse : parseDataSax 256 ⟨[], -1, []⟩ (listToXmlParams l) with
      | error e =>
          rw [hparse] at hdoc
          cases hdoc
      | ok result =>
          rw [hparse] at hdoc
          cases result with
          | none =>
              cases hdoc
              cases hroot
          | some dom =>
              cases hdoc
              have hless := hcrowded.parse dom hparse
              rw [Dom.weight_doc] at hle
              rw [List.nil_append, XMLNode.weights_singleton] at hless
              exact Nat.lt_of_le_of_lt hle hless

theorem xmlDocParseBufferDom_nil {doc : XMLDoc} (h : xmlDocParseBufferDom [] = .ok (some doc))
    (root : XMLNode) : doc.root ≠ .ok root := by
  have hparse : xmlDocParseBufferDom [] = .ok (some ⟨[], -1⟩) := by
    rw [xmlDocParseBufferDom, cstr_of_nulFree NulFree.nil, parseDataSax]
    rfl
  rw [hparse] at h
  cases h
  intro hroot
  cases hroot

theorem comesBack_isNil {it : Item} (h : it.isNil = false) : (comesBack it).isNil = false := by
  cases it with
  | nil => cases h
  | int i => rfl
  | bool b => rfl
  | double d => exact specialItem_isNil d.print
  | string s => rfl
  | date s => rfl
  | base64 s => rfl
  | array m => rfl

theorem listBack_append {l : RList} (hl : listEmpty l = false) (m : List Item) :
    ∃ m', listBack l m = l ++ m' := by
  induction m generalizing l with
  | nil => exact ⟨[], by rw [listBack, List.append_nil]⟩
  | cons it m ih =>
      rw [listBack]
      split
      · exact ih hl
      · obtain ⟨m', hm'⟩ := ih (listEmpty_append hl [comesBack it])
        refine ⟨comesBack it :: m', ?_⟩
        rw [listPut_of_not_empty hl, hm', List.append_assoc]
        rfl

theorem itemCarried_of_listPut {l : RList} {it : Item} (h : ItemsCarried (listPut l it)) :
    ItemCarried it := by
  rw [listPut] at h
  split at h
  · rw [ItemsCarried] at h
    exact h.1
  · have hlast := (itemsCarried_append.mp h).2
    rw [ItemsCarried] at hlast
    exact hlast.1

mutual

theorem itemCarried_of_comesBack {it : Item} (h : ItemCarried (comesBack it)) : ItemCarried it := by
  match it with
  | .nil => trivial
  | .int i => trivial
  | .bool b => trivial
  | .double d => trivial
  | .string s =>
      rw [comesBack] at h
      exact h
  | .date s =>
      rw [comesBack] at h
      exact h
  | .base64 s =>
      rw [comesBack] at h
      exact h
  | .array m =>
      rw [comesBack, ItemCarried] at h
      exact itemsCarried_of_listBack h

theorem itemsCarried_of_listBack {m : List Item} {l : RList} (h : ItemsCarried (listBack l m)) :
    ItemsCarried m := by
  match m with
  | [] => trivial
  | it :: m =>
      rw [listBack] at h
      rw [ItemsCarried]
      split at h
      · rename_i hnil
        refine ⟨?_, itemsCarried_of_listBack h⟩
        cases it with
        | nil => trivial
        | _ => cases hnil
      · rename_i hnil
        rw [Bool.not_eq_true] at hnil
        refine ⟨?_, itemsCarried_of_listBack h⟩
        obtain ⟨m', hm'⟩ := listBack_append (listEmpty_listPut (l := l) (comesBack_isNil hnil)) m
        rw [hm'] at h
        exact itemCarried_of_comesBack (itemCarried_of_listPut (itemsCarried_append.mp h).1)

end

/-- A `<` would end a text, and an empty text is not there. -/
theorem PayloadsKept.carried {l : RList} (h : PayloadsKept l) : ItemsCarried l := by
  obtain ⟨doc, root, hdoc, hroot, -, -, -, hvalues⟩ := h
  have hnodes := root_carried (xmlDocParseBufferDom_carried hdoc) hroot
  exact itemsCarried_of_listBack (parseRpcValues_carried hnodes itemsCarried_listInit hvalues)

/-- Each element is there only if each text was printed. -/
theorem PayloadsKept.fits {l : RList} (h : PayloadsKept l) :
    (renders (paramsMarkup l)).length < 2147483647 ∧ Roomy l := by
  have hcarried := h.carried
  obtain ⟨doc, root, hdoc, hroot, htree, -⟩ := h
  have htrimmed := trimmed_body l
  have hprinted : (printedTree l).weight = 1 + nodesWeight (printedBody l) := weight_of_body _ _
  have hweight : root.weight = 1 + nodesWeight (paramsBody l) := by
    rw [htree]
    exact weight_of_body _ _
  by_cases hfits : (renders (blockMarkup "params" (parsPrinted [] l))).length < 2147483647
  · rcases parse_printed hcarried hfits with ⟨hroomy, hparse⟩ | ⟨-, hless⟩
    · rw [hparse] at hdoc
      cases hdoc
      cases hroot
      have hsame : printedBody l = paramsBody l := by
        refine htrimmed.resolve_right fun hless => ?_
        omega
      have hpars : parsPrinted [] l = parsMarkup l := by
        simp only [printedBody, paramsBody, List.cons.injEq, true_and] at hsame
        exact List.append_cancel_right hsame
      rw [hpars] at hfits
      exact ⟨hfits, hroomy⟩
    · have hlt := hless doc root hdoc hroot
      have hle := htrimmed.le
      omega
  · have hnil : listToXmlParams l = [] := by
      rw [← renders_paramsPrinted, paramsPrinted, cut, if_neg hfits, renders_nil]
    rw [hnil] at hdoc
    exact absurd hroot (xmlDocParseBufferDom_nil hdoc root)

end STRos
