import STRos.Model.Request

/-! # Positions and counts of decoded values

`rpcValue` says which value an element stands for. The decoder keeps positions
and counts exactly when every element it visits stands for one: what it does
not support it leaves out, and the counts are taken from the tree.
-/

namespace STRos

open CString

/-! ## The value of an element -/

def ofItems (items : List Item) : RList := if items = [] then listInit else items

mutual

/-- The value an element stands for, unless it has none of the supported types. -/
def rpcValue : XMLNode → Option Item
  | .mk tag _ children =>
      if tag = str "value" then rpcTyped children
      else
        match children with
        | [] => none
        | .mk tag' _ children' :: _ => if tag' = str "value" then rpcTyped children' else none

def rpcTyped : List XMLNode → Option Item
  | [] => none
  | .mk tag text children :: _ =>
      if tag = str "base64" then text.map .base64
      else if tag = str "boolean" then text.map fun s => .bool (atoi s)
      else if tag = str "double" then text.map specialItem
      else if tag = str "dateTime.iso8601" then text.map .date
      else if tag = str "int" ∨ tag = str "i4" then text.map fun s => .int (atoi s)
      else if tag = str "string" then text.map .string
      else if tag = str "array" then
        match children with
        | [.mk tag' _ children'] =>
            if tag' = str "data" then (rpcValues children').map fun items => .array (ofItems items)
            else none
        | _ => none
      else none

def rpcValues : List XMLNode → Option (List Item)
  | [] => some []
  | node :: nodes =>
      match rpcValue node, rpcValues nodes with
      | some it, some items => some (it :: items)
      | _, _ => none

end

/-- The element stands for a value of a supported type, down to the leaves. -/
def Decodable (node : XMLNode) : Prop := (rpcValue node).isSome = true

instance (node : XMLNode) : Decidable (Decodable node) := inferInstanceAs (Decidable (_ = _))

/-! ## What the decoder makes of it -/

theorem hash_tags :
    hash (str "base64") hashSize = rpcTypeBase64 ∧ hash (str "boolean") hashSize = rpcTypeBool ∧
      hash (str "double") hashSize = rpcTypeDouble ∧
      hash (str "dateTime.iso8601") hashSize = rpcTypeDate ∧
      hash (str "int") hashSize = rpcTypeInt ∧ hash (str "i4") hashSize = rpcTypeI4 ∧
      hash (str "string") hashSize = rpcTypeString ∧
      hash (str "array") hashSize = rpcTypeArray := by
  decide

theorem foldl_listPut {items : List Item} (h : Proper items) :
    items.foldl listPut listInit = ofItems items := by
  have hall : ∀ (items : List Item) (l : RList), listEmpty l = false → Proper items →
      items.foldl listPut l = l ++ items := by
    intro items
    induction items with
    | nil => simp
    | cons it items ih =>
        intro l hl h
        obtain ⟨-, hitems⟩ := proper_cons.mp h
        rw [List.foldl_cons, listPut_of_not_empty hl, ih _ (listEmpty_append hl _) hitems]
        simp
  cases items with
  | nil => rfl
  | cons it items =>
      obtain ⟨hit, hitems⟩ := proper_cons.mp h
      rw [List.foldl_cons, listPut_listInit, hall items [it] (by simpa using hit) hitems]
      simp [ofItems]

theorem parseRpcValue_value (l : RList) (text : Option Bytes) (children : List XMLNode) :
    parseRpcValue l (.mk (str "value") text children) = parseRpcTyped l children := by
  cases children with
  | nil => rw [parseRpcValue, if_pos rfl]
  | cons child children =>
      cases child
      rw [parseRpcValue, if_pos rfl]

theorem scalar_ok {text : Option Bytes} {f : Bytes → Item} (hf : ∀ s, (f s).isNil = false)
    {it : Item} (h : text.map f = some it) (l : RList) :
    (strdup text >>= fun s => .ok (listPut l (f s))) = .ok (listPut l it) ∧ it.isNil = false := by
  obtain ⟨s, rfl, rfl⟩ := Option.map_eq_some_iff.mp h
  exact ⟨rfl, hf s⟩

mutual

/-- An element that stands for a value puts it on the list. -/
theorem parseRpcValue_eq (node : XMLNode) (l : RList) {it : Item} (h : rpcValue node = some it) :
    parseRpcValue l node = .ok (listPut l it) ∧ it.isNil = false := by
  match node with
  | .mk tag text [] =>
      rw [rpcValue, rpcTyped] at h
      simp at h
  | .mk tag text (.mk tag' text' children' :: rest) =>
      rw [rpcValue] at h
      rw [parseRpcValue]
      by_cases htag : tag = str "value"
      · simp only [htag, if_true] at h ⊢
        exact parseRpcTyped_eq _ l h
      · simp only [htag, if_false] at h ⊢
        by_cases htag' : tag' = str "value"
        · simp only [htag', if_true, ne_eq, not_true_eq_false, if_false] at h ⊢
          exact parseRpcTyped_eq children' l h
        · simp [htag'] at h

theorem parseRpcTyped_eq (nodes : List XMLNode) (l : RList) {it : Item}
    (h : rpcTyped nodes = some it) :
    parseRpcTyped l nodes = .ok (listPut l it) ∧ it.isNil = false := by
  match nodes with
  | [] => cases h
  | .mk tag text children :: rest =>
      obtain ⟨hb64, hbool, hdouble, hdate, hint, hi4, hstring, harray⟩ := hash_tags
      unfold rpcTyped at h
      unfold parseRpcTyped
      split at h
      · rename_i htag
        rw [htag, hb64]
        exact scalar_ok (fun _ => rfl) h l
      split at h
      · rename_i htag
        rw [htag, hbool]
        exact scalar_ok (fun _ => rfl) h l
      split at h
      · rename_i htag
        rw [htag, hdouble]
        exact scalar_ok specialItem_isNil h l
      split at h
      · rename_i htag
        rw [htag, hdate]
        exact scalar_ok (fun _ => rfl) h l
      split at h
      · rename_i htag
        rcases htag with rfl | rfl
        · rw [hint]
          exact scalar_ok (fun _ => rfl) h l
        · rw [hi4]
          exact scalar_ok (fun _ => rfl) h l
      split at h
      · rename_i htag
        rw [htag, hstring]
        exact scalar_ok (fun _ => rfl) h l
      split at h
      · rename_i htag
        rw [htag, harray]
        match children with
        | [] => cases h
        | [.mk tag' text' children'] =>
            by_cases htag' : tag' = str "data"
            · simp only [htag', if_true] at h
              obtain ⟨items, hitems, rfl⟩ := Option.map_eq_some_iff.mp h
              obtain ⟨hparse, hproper⟩ := parseRpcValues_eq children' listInit hitems
              rw [foldl_listPut hproper] at hparse
              simp only [htag', hparse, rpcTypeArray, rpcTypeBase64, rpcTypeBool, rpcTypeDouble,
                rpcTypeDate, rpcTypeInt, rpcTypeI4, rpcTypeString]
              exact ⟨rfl, rfl⟩
            · simp [htag'] at h
        | .mk _ _ _ :: _ :: _ => cases h
      · cases h

theorem parseRpcValues_eq (nodes : List XMLNode) (l : RList) {items : List Item}
    (h : rpcValues nodes = some items) :
    parseRpcValues l nodes = .ok (items.foldl listPut l) ∧ Proper items := by
  match nodes with
  | [] =>
      cases h
      exact ⟨by rw [parseRpcValues]; rfl, Proper.nil⟩
  | node :: nodes =>
      rw [rpcValues] at h
      cases hv : rpcValue node with
      | none => simp [hv] at h
      | some it =>
          cases hvs : rpcValues nodes with
          | none => simp [hv, hvs] at h
          | some items' =>
              simp only [hv, hvs, Option.some.injEq] at h
              subst h
              obtain ⟨hit, hnil⟩ := parseRpcValue_eq node l hv
              obtain ⟨hits, hproper⟩ := parseRpcValues_eq nodes (listPut l it) hvs
              rw [parseRpcValues, hit]
              exact ⟨hits, proper_cons.mpr ⟨hnil, hproper⟩⟩

end

/-! ## Positions and counts -/

/-- The list has `n` elements, one for each node, and each is the node's value. -/
def Positional (n : Nat) (nodes : List XMLNode) (l : RList) : Prop :=
  listSize l = n ∧ nodes.length = n ∧ ∀ i : Nat, listAt l i = nodes[i]?.bind rpcValue

theorem rpcValues_eq_some {nodes : List XMLNode} (h : ∀ node ∈ nodes, Decodable node) :
    ∃ items, rpcValues nodes = some items ∧ items.length = nodes.length ∧
      ∀ i : Nat, items[i]? = nodes[i]?.bind rpcValue := by
  induction nodes with
  | nil => exact ⟨[], rfl, rfl, by simp⟩
  | cons node nodes ih =>
      obtain ⟨it, hit⟩ := Option.isSome_iff_exists.mp (h node (by simp))
      obtain ⟨items, hitems, hlen, hat⟩ := ih fun n hn => h n (by simp [hn])
      refine ⟨it :: items, by rw [rpcValues, hit, hitems], by simp [hlen], fun i => ?_⟩
      cases i with
      | zero => simp [hit]
      | succ i => simpa using hat i

theorem contents_ofItems {items : List Item} (h : Proper items) :
    contents (ofItems items) = items := by
  cases items with
  | nil => rfl
  | cons it items => simpa [ofItems] using contents_of_proper h

theorem positional_of_decodable {nodes : List XMLNode} (h : ∀ node ∈ nodes, Decodable node) :
    ∃ l, parseRpcValues listInit nodes = .ok l ∧ Positional nodes.length nodes l := by
  obtain ⟨items, hitems, hlen, hat⟩ := rpcValues_eq_some h
  obtain ⟨hparse, hproper⟩ := parseRpcValues_eq nodes listInit hitems
  rw [foldl_listPut hproper] at hparse
  refine ⟨ofItems items, hparse, ?_, rfl, fun i => ?_⟩
  · rw [listSize_eq, contents_ofItems hproper, hlen]
  · rw [listAt_ofNat, contents_ofItems hproper, hat]

theorem Positional.decodable {n : Nat} {nodes : List XMLNode} {l : RList}
    (h : Positional n nodes l) : ∀ node ∈ nodes, Decodable node := by
  obtain ⟨hsize, hlen, hat⟩ := h
  intro node hnode
  obtain ⟨i, hi, rfl⟩ := List.getElem_of_mem hnode
  have hsome : (listAt l i).isSome = true := by
    rw [listAt_ofNat, listSize_eq] at *
    simp
    omega
  rw [hat i, List.getElem?_eq_getElem hi] at hsome
  exact hsome

/-! ## Requests -/

def paramNodes (mnode : XMLNode) : List XMLNode :=
  match mnode.children with
  | [_, params] => params.children
  | _ => []

/-- The loop reads the parameters like any list of values, as long as they are. -/
theorem parseParams_eq {nodes : List XMLNode} {l l' : RList}
    (h : parseParams l nodes = .ok (some l')) : parseRpcValues l nodes = .ok l' := by
  induction nodes generalizing l with
  | nil => cases h; rw [parseRpcValues]
  | cons node nodes ih =>
      rw [parseParams] at h
      split at h
      · cases h
      · obtain ⟨l₁, hv, h⟩ := bind_eq_ok.mp h
        rw [parseRpcValues, hv]
        exact ih h

theorem parseRpcMethod_eq {mnode : XMLNode} {req : RpcRequest}
    (h : parseRpcMethod mnode = .ok (some req)) :
    req.nParams = (paramNodes mnode).length ∧
      parseRpcValues listInit (paramNodes mnode) = .ok req.params := by
  unfold parseRpcMethod at h
  split at h
  · rename_i name params hchildren
    have hnodes : paramNodes mnode = params.children := by simp [paramNodes, hchildren]
    rw [hnodes]
    split at h
    · cases h
    · obtain ⟨method, -, h⟩ := bind_eq_ok.mp h
      split at h
      · cases h
      · obtain ⟨l, hparse, h⟩ := bind_eq_ok.mp h
        cases l with
        | none => cases h
        | some l =>
            cases h
            exact ⟨rfl, parseParams_eq hparse⟩
  · cases h

theorem parseRpcMethod_positional {mnode : XMLNode} {req : RpcRequest}
    (h : parseRpcMethod mnode = .ok (some req)) :
    Positional req.nParams (paramNodes mnode) req.params ↔
      ∀ p ∈ paramNodes mnode, Decodable p := by
  obtain ⟨hn, hparse⟩ := parseRpcMethod_eq h
  constructor
  · exact Positional.decodable
  · intro hdec
    obtain ⟨l, hl, hpos⟩ := positional_of_decodable hdec
    cases hparse.symm.trans hl
    rwa [hn]

/-! ## Responses -/

def memberValue (member : XMLNode) : Option XMLNode :=
  match member.children with
  | [_, value] => some value
  | _ => none

/-- The elements of the returned values: the children of `<params>`, or the
values of the members of a fault when its shape is right. -/
def returnedNodes (root : XMLNode) : Option (List XMLNode) :=
  match root.children with
  | [node] =>
      if node.tag = str "params" then some node.children
      else
        match node.children with
        | .mk tag _ (struct :: _) :: _ =>
            if tag = str "value" ∧ struct.tag = str "struct" then
              struct.children.mapM memberValue
            else none
        | _ => none
  | _ => none

def IsFault (root : XMLNode) : Prop := ∃ node, root.children = [node] ∧ node.tag = str "fault"

/-- Every returned value is supported, and a fault has two of them. -/
def ResponseSupported (root : XMLNode) : Prop :=
  ∃ nodes, returnedNodes root = some nodes ∧ (IsFault root → nodes.length = 2) ∧
    ∀ node ∈ nodes, Decodable node

/-- The data are an initialised list that keeps positions and counts. -/
def ResponsePositional (root : XMLNode) (resp : RpcResponse) : Prop :=
  ∃ data nodes, resp.data = some data ∧ returnedNodes root = some nodes ∧
    Positional resp.nValue nodes data

theorem parseFaultMembers_eq {members nodes : List XMLNode} (l : RList)
    (h : members.mapM memberValue = some nodes) :
    parseFaultMembers l members = parseRpcValues l nodes := by
  induction members generalizing l nodes with
  | nil =>
      obtain rfl : [] = nodes := Option.some.inj h
      rw [parseFaultMembers, parseRpcValues]
  | cons member members ih =>
      rw [List.mapM_cons] at h
      obtain ⟨value, hvalue, h⟩ := Option.bind_eq_some_iff.mp h
      obtain ⟨values, hvalues, h⟩ := Option.bind_eq_some_iff.mp h
      cases h
      unfold memberValue at hvalue
      split at hvalue
      · rename_i name value' hchildren
        cases hvalue
        rw [parseFaultMembers, hchildren, parseRpcValues]
        simp only
        cases hv : parseRpcValue l value with
        | error e => rfl
        | ok l₁ => exact ih l₁ hvalues
      · cases hvalue

theorem parseFaultResponse_eq {node enode : XMLNode} {rest nodes : List XMLNode} {root : XMLNode}
    (hroot : root.children = [node]) (hnode : node.children = enode :: rest)
    (htag : node.tag = str "fault") (h : returnedNodes root = some nodes) (hne : nodes ≠ []) :
    parseFaultResponse listInit enode = parseRpcValues listInit nodes := by
  have hparams : node.tag ≠ str "params" := by
    rw [htag]
    decide
  unfold returnedNodes at h
  simp only [hroot, hparams, if_false, hnode] at h
  split at h
  · rename_i tag text struct more rest' heq
    cases heq
    split at h
    · rename_i hshape
      have hmembers : struct.children ≠ [] := by
        intro hnil
        rw [hnil] at h
        cases h
        exact hne rfl
      rw [parseFaultResponse]
      simp only [XMLNode.children_mk, XMLNode.tag_mk, hshape.1, hshape.2, hmembers, ne_eq,
        not_true_eq_false, or_self, if_false]
      exact parseFaultMembers_eq listInit h
    · cases h
  · cases h

theorem parseResponseRoot_positional {root : XMLNode} {resp : RpcResponse}
    (h : parseResponseRoot root = .ok (some resp)) :
    ResponsePositional root resp ↔ ResponseSupported root := by
  unfold parseResponseRoot at h
  split at h
  · rename_i node hroot
    split at h
    · cases h
    split at h
    · rename_i hparams
      have hreturned : returnedNodes root = some node.children := by
        simp [returnedNodes, hroot, hparams]
      have hnofault : ¬ IsFault root := by
        rintro ⟨node', hroot', hfault⟩
        rw [hroot] at hroot'
        cases hroot'
        rw [hparams] at hfault
        exact absurd hfault (by decide)
      obtain ⟨data, hdata, h⟩ := bind_eq_ok.mp h
      cases h
      constructor
      · rintro ⟨data', nodes, hd, hnodes, hpos⟩
        exact ⟨nodes, hnodes, fun hf => absurd hf hnofault, hpos.decodable⟩
      · rintro ⟨nodes, hnodes, -, hdec⟩
        rw [hreturned] at hnodes
        cases hnodes
        obtain ⟨l, hl, hpos⟩ := positional_of_decodable hdec
        cases hdata.symm.trans hl
        exact ⟨data, node.children, rfl, hreturned, hpos⟩
    split at h
    · rename_i hfault
      split at h
      · rename_i hnil
        cases h
        constructor
        · rintro ⟨data, nodes, hd, -⟩
          cases hd
        · rintro ⟨nodes, hnodes, -⟩
          have hparams : node.tag ≠ str "params" := by
            rw [hfault]
            decide
          simp [returnedNodes, hroot, hparams, hnil] at hnodes
      · rename_i enode rest hcons
        obtain ⟨data, hdata, h⟩ := bind_eq_ok.mp h
        cases h
        constructor
        · rintro ⟨data', nodes, hd, hnodes, hpos⟩
          exact ⟨nodes, hnodes, fun _ => hpos.2.1, hpos.decodable⟩
        · rintro ⟨nodes, hnodes, hlen, hdec⟩
          have htwo := hlen ⟨node, hroot, hfault⟩
          have hne : nodes ≠ [] := by
            rintro rfl
            cases htwo
          rw [parseFaultResponse_eq hroot hcons hfault hnodes hne] at hdata
          obtain ⟨l, hl, hpos⟩ := positional_of_decodable hdec
          cases hdata.symm.trans hl
          rw [htwo] at hpos
          exact ⟨data, nodes, rfl, hnodes, hpos⟩
    · cases h
  · cases h

/-- Requests and responses keep positions and counts exactly when every value
they carry is supported, and a fault carries two. -/
theorem decode_positional_iff (root : XMLNode) :
    (∀ req, parseRpcMethod root = .ok (some req) →
      (Positional req.nParams (paramNodes root) req.params ↔
        ∀ p ∈ paramNodes root, Decodable p)) ∧
      ∀ resp, parseResponseRoot root = .ok (some resp) →
        (ResponsePositional root resp ↔ ResponseSupported root) :=
  ⟨fun _ h => parseRpcMethod_positional h, fun _ h => parseResponseRoot_positional h⟩

def leaf (tag : String) : XMLNode := .mk (str tag) none []

def textValue (tag text : String) : XMLNode :=
  .mk (str "value") none [.mk (str tag) (some (str text)) []]

def nilCall : XMLNode :=
  .mk (str "methodCall") none [.mk (str "methodName") (some (str "m")) [],
    .mk (str "params") none [.mk (str "param") none [textValue "int" "7"],
      .mk (str "param") none [.mk (str "value") none [leaf "nil"]]]]

theorem parse_nilCall :
    parseRpcMethod nilCall = .ok (some ⟨some (str "m"), 2, [.int 7]⟩) := by
  rfl

def codeFault : XMLNode :=
  .mk (str "methodResponse") none [.mk (str "fault") none [.mk (str "value") none [
    .mk (str "struct") none [
      .mk (str "member") none [leaf "name", textValue "int" "4"],
      .mk (str "member") none [leaf "name", textValue "string" "Too many parameters."]]]]]

theorem parse_codeFault : parseResponseRoot codeFault =
    .ok (some ⟨respFault, 2, some [.int 4, .string (str "Too many parameters.")]⟩) := by
  rfl

theorem decode_positional_fault :
    ¬ Positional 2 (paramNodes nilCall) [.int 7] ∧
      ResponsePositional codeFault
        ⟨respFault, 2, some [.int 4, .string (str "Too many parameters.")]⟩ := by
  refine ⟨fun h => ?_, ((decode_positional_iff codeFault).2 _ parse_codeFault).mpr ?_⟩
  · have := ((decode_positional_iff nilCall).1 _ parse_nilCall).mp h
    exact absurd this (by decide)
  · exact ⟨[textValue "int" "4", textValue "string" "Too many parameters."], rfl, fun _ => rfl,
      by decide⟩

/-- Its second value vanishes, while `n_params` counts it. -/
theorem decode_positional_broken :
    ¬ ((∀ mnode req, parseRpcMethod mnode = .ok (some req) →
        Positional req.nParams (paramNodes mnode) req.params) ∧
      ∀ root resp, parseResponseRoot root = .ok (some resp) → ResponsePositional root resp) := by
  intro h
  have := (h.1 nilCall _ parse_nilCall).1
  cases this

end STRos
