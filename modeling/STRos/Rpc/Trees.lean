import STRos.Deploy.Answers
import STRos.Rpc.Positions

/-! # Which element trees are decoded

The decoders look at the number of children before they index one. What they do
not look at is the text of an element that has none: a scalar without text, or
a method name without text, is a NULL pointer for a string function.
-/

namespace STRos

open CString

/-! ## The texts that are taken -/

/-- The element `parse_rpc_value` switches on. -/
def switchNode (node : XMLNode) : Option XMLNode :=
  if node.tag = str "value" then node.children.head?
  else
    match node.children with
    | [] => none
    | child :: _ => if child.tag = str "value" then child.children.head? else none

def ScalarTag (tag : Bytes) : Prop :=
  hash tag hashSize ∈
    [rpcTypeBase64, rpcTypeBool, rpcTypeDouble, rpcTypeDate, rpcTypeInt, rpcTypeI4, rpcTypeString]

/-- `parse_rpc_value` on the first element takes the text of the second one. -/
inductive TextTaken : XMLNode → XMLNode → Prop
  | scalar {node leaf : XMLNode} (switch : switchNode node = some leaf) (tag : ScalarTag leaf.tag) :
      TextTaken node leaf
  | item {node arr inner value leaf : XMLNode} (switch : switchNode node = some arr)
      (tag : hash arr.tag hashSize = rpcTypeArray) (only : arr.children = [inner])
      (innerTag : inner.tag = str "data") (mem : value ∈ inner.children)
      (taken : TextTaken value leaf) : TextTaken node leaf

def MethodTakes (mnode leaf : XMLNode) : Prop :=
  ∃ name params, mnode.children = [name, params] ∧ name.tag = str "methodName" ∧
    (leaf = name ∨ params.tag = str "params" ∧
      ∃ p ∈ params.children.takeWhile fun p => p.tag = str "param", TextTaken p leaf)

def FaultTakes (enode leaf : XMLNode) : Prop :=
  enode.tag = str "value" ∧ ∃ struct rest, enode.children = struct :: rest ∧
    struct.tag = str "struct" ∧ ∃ member ∈ struct.children, ∃ value,
      memberValue member = some value ∧ TextTaken value leaf

/-! ## parse_rpc_value -/

theorem textTaken_congr {node node' leaf : XMLNode} (h : switchNode node = switchNode node') :
    TextTaken node leaf ↔ TextTaken node' leaf := by
  constructor
  · intro ht
    cases ht with
    | scalar switch tag => exact .scalar (h ▸ switch) tag
    | item switch tag only innerTag mem taken =>
        exact .item (h ▸ switch) tag only innerTag mem taken
  · intro ht
    cases ht with
    | scalar switch tag => exact .scalar (h ▸ switch) tag
    | item switch tag only innerTag mem taken =>
        exact .item (h ▸ switch) tag only innerTag mem taken

def valueOf (children : List XMLNode) : XMLNode := .mk (str "value") none children

theorem switchNode_valueOf (children : List XMLNode) :
    switchNode (valueOf children) = children.head? := by
  simp [switchNode, valueOf]

theorem switchNode_childless (tag : Bytes) (text : Option Bytes) :
    switchNode (.mk tag text []) = none := by
  unfold switchNode
  split
  · rfl
  · rfl

theorem not_scalarTag_of_array {tag : Bytes} (h : hash tag hashSize = rpcTypeArray) :
    ¬ ScalarTag tag := by
  unfold ScalarTag
  rw [h]
  decide

theorem returns_strdup {α : Type} (text : Option Bytes) (f : Bytes → α) :
    Returns (strdup text >>= fun s => pure (f s)) ↔ text ≠ none := by
  cases text with
  | none => exact iff_of_false (not_returns_error _) (by simp)
  | some s => exact iff_of_true (returns_pure _) (by simp)

/-- The cases that take the text ask for nothing else. -/
theorem returns_scalar {tag : Bytes} (h : ScalarTag tag) (text : Option Bytes)
    (children rest : List XMLNode) (l : RList) :
    Returns (parseRpcTyped l (.mk tag text children :: rest)) ↔ text ≠ none := by
  simp only [ScalarTag, List.mem_cons, List.not_mem_nil, or_false] at h
  unfold parseRpcTyped
  rcases h with h | h | h | h | h | h | h
  all_goals
    rw [h]
    exact returns_strdup _ _

theorem returns_array {tag : Bytes} (h : hash tag hashSize = rpcTypeArray) (text : Option Bytes)
    (children rest : List XMLNode) (l : RList) :
    Returns (parseRpcTyped l (.mk tag text children :: rest)) ↔
      ∀ data, children = [data] → data.tag = str "data" →
        Returns (parseRpcValues listInit data.children) := by
  unfold parseRpcTyped
  rw [h]
  simp only [show rpcTypeArray ≠ rpcTypeBase64 by decide, show rpcTypeArray ≠ rpcTypeBool by decide,
    show rpcTypeArray ≠ rpcTypeDouble by decide, show rpcTypeArray ≠ rpcTypeDate by decide,
    show rpcTypeArray ≠ rpcTypeInt by decide, show rpcTypeArray ≠ rpcTypeI4 by decide,
    show rpcTypeArray ≠ rpcTypeString by decide, if_false, if_true, or_self]
  cases children with
  | nil => simp [returns_ok]
  | cons data more =>
      cases more with
      | nil =>
          cases data with
          | mk tag' text' children' =>
              by_cases htag : tag' = str "data"
              · simp only [htag, ne_eq, not_true_eq_false, if_false, List.cons.injEq, and_true,
                  forall_eq', XMLNode.tag_mk, XMLNode.children_mk, forall_const]
                rw [returns_bind_and fun _ => iff_true_intro (returns_pure _), and_true]
              · simp [htag, returns_ok]
      | cons second more => simp [returns_ok]

theorem returns_other {tag : Bytes} (h : ¬ ScalarTag tag)
    (harray : hash tag hashSize ≠ rpcTypeArray) (text : Option Bytes)
    (children rest : List XMLNode) (l : RList) :
    Returns (parseRpcTyped l (.mk tag text children :: rest)) := by
  simp only [ScalarTag, List.mem_cons, List.not_mem_nil, or_false, not_or] at h
  unfold parseRpcTyped
  simp only [h, harray, if_false, or_self]
  exact returns_ok _

theorem not_taken_of_none {node leaf : XMLNode} (h : switchNode node = none) :
    ¬ TextTaken node leaf := by
  intro ht
  cases ht with
  | scalar switch => rw [h] at switch; cases switch
  | item switch => rw [h] at switch; cases switch

theorem taken_scalar {elem leaf : XMLNode} {rest : List XMLNode} (h : ScalarTag elem.tag) :
    TextTaken (valueOf (elem :: rest)) leaf ↔ leaf = elem := by
  have hswitch := switchNode_valueOf (elem :: rest)
  constructor
  · intro ht
    cases ht with
    | scalar switch => exact Option.some.inj (switch.symm.trans hswitch)
    | item switch tag =>
        cases switch.symm.trans hswitch
        exact absurd h (not_scalarTag_of_array tag)
  · intro heq
    subst heq
    exact .scalar hswitch h

theorem taken_array {elem leaf : XMLNode} {rest : List XMLNode}
    (h : hash elem.tag hashSize = rpcTypeArray) :
    TextTaken (valueOf (elem :: rest)) leaf ↔
      ∃ inner, elem.children = [inner] ∧ inner.tag = str "data" ∧
        ∃ value ∈ inner.children, TextTaken value leaf := by
  have hswitch := switchNode_valueOf (elem :: rest)
  constructor
  · intro ht
    cases ht with
    | scalar switch tag =>
        cases switch.symm.trans hswitch
        exact absurd tag (not_scalarTag_of_array h)
    | item switch _ only innerTag mem taken =>
        cases switch.symm.trans hswitch
        exact ⟨_, only, innerTag, _, mem, taken⟩
  · rintro ⟨inner, only, innerTag, value, mem, taken⟩
    exact .item hswitch h only innerTag mem taken

theorem not_taken_other {elem leaf : XMLNode} {rest : List XMLNode} (h : ¬ ScalarTag elem.tag)
    (harray : hash elem.tag hashSize ≠ rpcTypeArray) :
    ¬ TextTaken (valueOf (elem :: rest)) leaf := by
  have hswitch := switchNode_valueOf (elem :: rest)
  intro ht
  cases ht with
  | scalar switch tag =>
      cases switch.symm.trans hswitch
      exact h tag
  | item switch tag =>
      cases switch.symm.trans hswitch
      exact harray tag

mutual

theorem returns_parseRpcValue (node : XMLNode) (l : RList) :
    Returns (parseRpcValue l node) ↔ ∀ leaf, TextTaken node leaf → leaf.text ≠ none := by
  match node with
  | .mk tag text [] =>
      refine iff_of_true ?_ fun leaf ht =>
        absurd ht (not_taken_of_none (switchNode_childless tag text))
      rw [parseRpcValue]
      split
      · rw [parseRpcTyped]
        exact returns_ok l
      · exact returns_ok l
  | .mk tag text (.mk tag' text' children' :: rest) =>
      rw [parseRpcValue]
      by_cases htag : tag = str "value"
      · have hswitch : switchNode (.mk tag text (.mk tag' text' children' :: rest)) =
            switchNode (valueOf (.mk tag' text' children' :: rest)) := by
          rw [switchNode_valueOf]
          simp [switchNode, htag]
        simp only [htag, if_true, textTaken_congr (htag ▸ hswitch)]
        exact returns_parseRpcTyped (.mk tag' text' children' :: rest) l
      · by_cases htag' : tag' = str "value"
        · have hswitch : switchNode (.mk tag text (.mk tag' text' children' :: rest)) =
              switchNode (valueOf children') := by
            rw [switchNode_valueOf]
            simp [switchNode, htag, htag']
          simp only [textTaken_congr hswitch]
          simp only [htag, htag', ne_eq, not_true_eq_false, if_false]
          exact returns_parseRpcTyped children' l
        · have hnone : switchNode (.mk tag text (.mk tag' text' children' :: rest)) = none := by
            simp [switchNode, htag, htag']
          refine iff_of_true ?_ fun leaf ht => absurd ht (not_taken_of_none hnone)
          simp only [htag, htag', ne_eq, not_false_eq_true, if_false, if_true]
          exact returns_ok l

theorem returns_parseRpcTyped (children : List XMLNode) (l : RList) :
    Returns (parseRpcTyped l children) ↔
      ∀ leaf, TextTaken (valueOf children) leaf → leaf.text ≠ none := by
  match children with
  | [] =>
      refine iff_of_true ?_ fun leaf ht =>
        absurd ht (not_taken_of_none (by rw [switchNode_valueOf, List.head?_nil]))
      rw [parseRpcTyped]
      exact returns_ok l
  | .mk tag text kids :: rest =>
      by_cases hscalar : ScalarTag tag
      · have helem : ScalarTag (XMLNode.mk tag text kids).tag := hscalar
        simp only [returns_scalar hscalar, taken_scalar helem, forall_eq, XMLNode.text_mk]
      by_cases harray : hash tag hashSize = rpcTypeArray
      · have helem : hash (XMLNode.mk tag text kids).tag hashSize = rpcTypeArray := harray
        simp only [returns_array harray, taken_array helem, XMLNode.children_mk]
        match kids with
        | [] => simp
        | [.mk tag' text' kids'] =>
            have ih := returns_parseRpcValues kids' listInit
            constructor
            · rintro h leaf ⟨inner, honly, hinner, value, hmem, ht⟩
              cases honly
              exact ih.mp (h _ rfl hinner) value hmem leaf ht
            · intro h inner honly hinner
              cases honly
              exact ih.mpr fun value hmem leaf ht => h leaf ⟨_, rfl, hinner, value, hmem, ht⟩
        | _ :: _ :: _ => simp
      · exact iff_of_true (returns_other hscalar harray text kids rest l)
          fun leaf ht => absurd ht (not_taken_other hscalar harray)

theorem returns_parseRpcValues (nodes : List XMLNode) (l : RList) :
    Returns (parseRpcValues l nodes) ↔
      ∀ node ∈ nodes, ∀ leaf, TextTaken node leaf → leaf.text ≠ none := by
  match nodes with
  | [] =>
      rw [parseRpcValues]
      simp [returns_ok]
  | node :: nodes =>
      rw [parseRpcValues, returns_bind_and fun l' => returns_parseRpcValues nodes l',
        returns_parseRpcValue node l, List.forall_mem_cons]

end

/-! ## parse_rpc_method and parse_fault_response -/

theorem returns_parseParams (nodes : List XMLNode) (l : RList) :
    Returns (parseParams l nodes) ↔
      ∀ p ∈ nodes.takeWhile fun p => p.tag = str "param",
        ∀ leaf, TextTaken p leaf → leaf.text ≠ none := by
  induction nodes generalizing l with
  | nil =>
      rw [parseParams]
      simp [returns_ok]
  | cons node nodes ih =>
      rw [parseParams]
      by_cases htag : node.tag = str "param"
      · simp only [htag, ne_eq, not_true_eq_false, if_false, decide_true,
          List.takeWhile_cons_of_pos]
        rw [returns_bind_and fun l' => ih l', returns_parseRpcValue, List.forall_mem_cons]
      · simp [htag, returns_ok]

theorem returns_parseRpcMethod (mnode : XMLNode) :
    Returns (parseRpcMethod mnode) ↔ ∀ leaf, MethodTakes mnode leaf → leaf.text ≠ none := by
  unfold parseRpcMethod MethodTakes
  split
  · rename_i name params hchildren
    by_cases hname : name.tag = str "methodName"
    · simp only [hname, ne_eq, not_true_eq_false, if_false]
      rw [returns_bind]
      constructor
      · rintro ⟨method, hmethod, hrest⟩ leaf ⟨name', params', heq, -, htakes⟩
        cases hchildren.symm.trans heq
        cases htakes with
        | inl hleaf =>
            rw [hleaf]
            intro hnone
            rw [hnone] at hmethod
            cases hmethod
        | inr hparam =>
            obtain ⟨hparams, p, hp, ht⟩ := hparam
            rw [if_neg (not_not_intro hparams),
              returns_bind_and fun _ => iff_true_intro (returns_pure _), and_true,
              returns_parseParams] at hrest
            exact hrest p hp leaf ht
      · intro h
        obtain ⟨method, hmethod⟩ := Option.ne_none_iff_exists'.mp
          (h name ⟨name, params, hchildren, hname, Or.inl rfl⟩)
        refine ⟨method, by rw [hmethod]; rfl, ?_⟩
        by_cases hparams : params.tag = str "params"
        · rw [if_neg (not_not_intro hparams),
            returns_bind_and fun _ => iff_true_intro (returns_pure _), and_true,
            returns_parseParams]
          exact fun p hp leaf ht =>
            h leaf ⟨name, params, hchildren, hname, Or.inr ⟨hparams, p, hp, ht⟩⟩
        · rw [if_pos hparams]
          exact returns_pure _
    · simp only [hname, ne_eq, not_false_eq_true, if_true]
      refine iff_of_true (returns_ok _) ?_
      rintro leaf ⟨name', params', heq, hname', -⟩
      cases hchildren.symm.trans heq
      exact absurd hname' hname
  · rename_i hno
    refine iff_of_true (returns_ok _) ?_
    rintro leaf ⟨name, params, heq, -⟩
    exact absurd heq (hno name params)

theorem returns_parseFaultMembers (members : List XMLNode) (l : RList) :
    Returns (parseFaultMembers l members) ↔
      ∀ member ∈ members, ∀ value, memberValue member = some value →
        ∀ leaf, TextTaken value leaf → leaf.text ≠ none := by
  induction members generalizing l with
  | nil =>
      rw [parseFaultMembers]
      simp [returns_ok]
  | cons member members ih =>
      rw [List.forall_mem_cons]
      unfold parseFaultMembers
      split
      · rename_i name value hchildren
        have hvalue : memberValue member = some value := by simp only [memberValue, hchildren]
        rw [returns_bind_and fun l' => ih l', returns_parseRpcValue]
        simp only [hvalue, Option.some.injEq, forall_eq']
      · rename_i hno
        have hnone : memberValue member = none := by
          unfold memberValue
          split
          · rename_i name value hchildren
            exact absurd hchildren (hno name value)
          · rfl
        rw [ih]
        simp only [hnone, reduceCtorEq, false_implies, implies_true, true_and]

theorem returns_parseFaultResponse (enode : XMLNode) (l : RList) :
    Returns (parseFaultResponse l enode) ↔ ∀ leaf, FaultTakes enode leaf → leaf.text ≠ none := by
  unfold parseFaultResponse FaultTakes
  split
  · rename_i hchildren
    refine iff_of_true (returns_ok _) ?_
    rintro leaf ⟨-, struct, rest, heq, -⟩
    rw [hchildren] at heq
    cases heq
  · rename_i struct rest hchildren
    by_cases htag : enode.tag = str "value"
    · simp only [htag, ne_eq, not_true_eq_false, if_false]
      by_cases hstruct : struct.tag = str "struct"
      · by_cases hnil : struct.children = []
        · simp only [hnil, true_or, if_true]
          refine iff_of_true (returns_ok _) ?_
          rintro leaf ⟨-, struct', rest', heq, -, member, hmem, -⟩
          cases hchildren.symm.trans heq
          rw [hnil] at hmem
          cases hmem
        · simp only [hnil, hstruct, not_true_eq_false, or_self, if_false,
            returns_parseFaultMembers]
          constructor
          · rintro h leaf ⟨-, struct', rest', heq, -, member, hmem, value, hvalue, ht⟩
            cases hchildren.symm.trans heq
            exact h member hmem value hvalue leaf ht
          · exact fun h member hmem value hvalue leaf ht =>
              h leaf ⟨trivial, struct, rest, hchildren, hstruct, member, hmem, value, hvalue, ht⟩
      · simp only [hstruct, not_false_eq_true, or_true, if_true]
        refine iff_of_true (returns_ok _) ?_
        rintro leaf ⟨-, struct', rest', heq, hstruct', -⟩
        cases hchildren.symm.trans heq
        exact absurd hstruct' hstruct
    · simp only [htag, ne_eq, not_false_eq_true, if_true]
      refine iff_of_true (returns_ok _) ?_
      rintro leaf ⟨hfalse, -⟩
      exact absurd hfalse id

/-! ## Integers -/

def digitsNat (ds : Bytes) : Nat := ds.foldl (fun n b => 10 * n + (b.toNat - 48)) 0

inductive DecimalText : Bytes → Int → Prop
  | plain {ds : Bytes} (ne : ds ≠ []) (digits : ds.all isDigit = true) :
      DecimalText ds (digitsNat ds)
  | plus {ds : Bytes} (ne : ds ≠ []) (digits : ds.all isDigit = true) :
      DecimalText (43 :: ds) (digitsNat ds)
  | minus {ds : Bytes} (ne : ds ≠ []) (digits : ds.all isDigit = true) :
      DecimalText (45 :: ds) (-(digitsNat ds : Int))

theorem leadingNat_digits {ds : Bytes} (h : ds.all isDigit = true) :
    leadingNat ds = digitsNat ds := by
  have hall : ds.takeWhile isDigit = ds :=
    List.takeWhile_eq_self_iff.mpr fun b hb => List.all_eq_true.mp h b hb
  rw [leadingNat, hall, digitsNat]

theorem leadingInt_decimalText {t : Bytes} {n : Int} (h : DecimalText t n) : leadingInt t = n := by
  cases h with
  | @plain _ ne digits =>
      cases t with
      | nil => exact absurd rfl ne
      | cons b t =>
          have hb : isDigit b = true := List.all_eq_true.mp digits b (by simp)
          have hspace : isSpace b = false := by
            simp only [isDigit, Bool.and_eq_true, decide_eq_true_eq] at hb
            simp only [isSpace, Bool.or_eq_false_iff, decide_eq_false_iff_not,
              Bool.and_eq_false_iff, ← UInt8.toNat_inj]
            refine ⟨?_, Or.inr (by omega)⟩
            intro heq
            rw [heq] at hb
            exact absurd hb (by decide)
          have hminus : b ≠ 45 := by rintro rfl; exact absurd hb (by decide)
          have hplus : b ≠ 43 := by rintro rfl; exact absurd hb (by decide)
          unfold leadingInt
          rw [List.dropWhile_cons_of_neg (by simp [hspace])]
          split
          · rename_i heq
            exact absurd (List.cons.inj heq).1 hminus
          · rename_i heq
            exact absurd (List.cons.inj heq).1 hplus
          · rw [leadingNat_digits digits]
  | plus ne digits =>
      unfold leadingInt
      rw [List.dropWhile_cons_of_neg (by decide)]
      simp only [leadingNat_digits digits]
  | minus ne digits =>
      unfold leadingInt
      rw [List.dropWhile_cons_of_neg (by decide)]
      simp only [leadingNat_digits digits]

theorem atoi_decimalText {t : Bytes} {n : Int} (h : DecimalText t n)
    (hrange : -2147483648 ≤ n ∧ n < 2147483648) : (atoi t).toInt = n := by
  have hclamp : strtol t = n := by
    rw [strtol, leadingInt_decimalText h]
    omega
  rw [atoi, hclamp]
  exact Int32.toInt_ofInt_of_le (by omega) (by omega)

theorem parseRpcTyped_head (elem : XMLNode) (rest : List XMLNode) (l : RList) :
    parseRpcTyped l (elem :: rest) = parseRpcTyped l [elem] := by
  cases elem
  unfold parseRpcTyped
  rfl

theorem parseRpcValue_switch {node elem : XMLNode} (h : switchNode node = some elem) (l : RList) :
    parseRpcValue l node = parseRpcTyped l [elem] := by
  obtain ⟨tag, text, children⟩ := node
  cases children with
  | nil =>
      rw [switchNode_childless] at h
      cases h
  | cons child children =>
      obtain ⟨tag', text', children'⟩ := child
      unfold switchNode at h
      simp only [XMLNode.tag_mk, XMLNode.children_mk] at h
      rw [parseRpcValue]
      by_cases htag : tag = str "value"
      · simp only [htag, if_true, List.head?_cons, Option.some.injEq] at h ⊢
        rw [parseRpcTyped_head, h]
      · simp only [htag, if_false] at h ⊢
        by_cases htag' : tag' = str "value"
        · simp only [htag', if_true, ne_eq, not_true_eq_false, if_false] at h ⊢
          cases children' with
          | nil => cases h
          | cons elem' rest =>
              rw [parseRpcTyped_head, Option.some.inj h]
        · simp [htag'] at h

/-- An element `<int>` or `<i4>` is decoded by `atoi`. -/
theorem parseRpcValue_int {node leaf : XMLNode} {t : Bytes} (hswitch : switchNode node = some leaf)
    (htag : leaf.tag = str "int" ∨ leaf.tag = str "i4") (htext : leaf.text = some t) (l : RList) :
    parseRpcValue l node = .ok (listPutI l (atoi t)) := by
  obtain ⟨-, -, -, -, hint, hi4, -, -⟩ := hash_tags
  rw [parseRpcValue_switch hswitch]
  obtain ⟨tag, text, children⟩ := leaf
  simp only [XMLNode.tag_mk, XMLNode.text_mk] at htag htext
  subst htext
  unfold parseRpcTyped
  rcases htag with htag | htag
  · rw [htag, hint]
    rfl
  · rw [htag, hi4]
    rfl

/-! ## The law -/

/-- The decoders return on this tree, and an integer in it is read as written. -/
structure TreeDecodes (node : XMLNode) : Prop where
  method : Returns (parseRpcMethod node)
  fault : ∀ l, Returns (parseFaultResponse l node)
  value : ∀ l, Returns (parseRpcValue l node)
  integer : ∀ l leaf t n, switchNode node = some leaf →
    leaf.tag = str "int" ∨ leaf.tag = str "i4" → leaf.text = some t → DecimalText t n →
      -2147483648 ≤ n ∧ n < 2147483648 →
        ∃ i : Int32, parseRpcValue l node = .ok (listPutI l i) ∧ i.toInt = n

def Takes (node leaf : XMLNode) : Prop :=
  MethodTakes node leaf ∨ FaultTakes node leaf ∨ TextTaken node leaf

/-- A tree is decoded exactly when every text that is taken is there. -/
theorem treeDecodes_iff (node : XMLNode) :
    TreeDecodes node ↔ ∀ leaf, Takes node leaf → leaf.text ≠ none := by
  constructor
  · intro h leaf htakes
    rcases htakes with hmethod | hfault | hvalue
    · exact (returns_parseRpcMethod node).mp h.method leaf hmethod
    · exact (returns_parseFaultResponse node listInit).mp (h.fault listInit) leaf hfault
    · exact (returns_parseRpcValue node listInit).mp (h.value listInit) leaf hvalue
  · intro h
    refine ⟨?_, fun l => ?_, fun l => ?_, ?_⟩
    · exact (returns_parseRpcMethod node).mpr fun leaf ht => h leaf (Or.inl ht)
    · exact (returns_parseFaultResponse node l).mpr fun leaf ht => h leaf (Or.inr (Or.inl ht))
    · exact (returns_parseRpcValue node l).mpr fun leaf ht => h leaf (Or.inr (Or.inr ht))
    · intro l leaf t n hswitch htag htext hdecimal hrange
      exact ⟨atoi t, parseRpcValue_int hswitch htag htext l, atoi_decimalText hdecimal hrange⟩

/-- An empty `<string>` has no text. -/
theorem treeDecodes_broken : ¬ ∀ node, TreeDecodes node := by
  intro h
  have hvalue := (h (.mk (str "value") none [.mk (str "string") none []])).value listInit
  obtain ⟨r, hr⟩ := hvalue
  have hnull : parseRpcValue listInit (.mk (str "value") none [.mk (str "string") none []]) =
      .error .nullText := by rfl
  rw [hnull] at hr
  cases hr

end STRos
