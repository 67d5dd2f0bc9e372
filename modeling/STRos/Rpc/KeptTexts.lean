import STRos.Rpc.LineReading
import STRos.Rpc.Positions

/-! # The texts of a parsed document

Whatever text the parser is given, no text of the tree it builds is empty or holds a
`<`, a NUL or the byte 255; so the texts of decoded values do not either.
-/

namespace STRos

open CString

/-- A text that can stand in a parsed document. -/
def Carried (s : Bytes) : Prop := s ≠ [] ∧ Plain s

/-! ## The lines -/

/-- A line without NUL and 255, and a rest without NUL. -/
structure LineRead.Carried (r : LineRead) : Prop where
  nul : 0 ∉ r.line
  eof : 255 ∉ r.line
  rest : 0 ∉ r.rest

theorem readLineLoop_carried {line buf : Bytes} (hnul : 0 ∉ line) (heof : 255 ∉ line)
    (hbuf : 0 ∉ buf) : 0 ∉ (readLineLoop line buf).2.1 ∧ 255 ∉ (readLineLoop line buf).2.1 ∧
      0 ∉ (readLineLoop line buf).2.2 := by
  induction buf generalizing line with
  | nil => exact ⟨hnul, heof, hbuf⟩
  | cons c buf ih =>
      simp only [List.mem_cons, not_or] at hbuf
      rw [readLineLoop]
      split
      · exact ⟨hnul, heof, hbuf.2⟩
      · rename_i hc
        have hnul' : 0 ∉ line ++ [c] := by simp [hnul, hbuf.1]
        have heof' : 255 ∉ line ++ [c] := by simp [heof, Ne.symm hc]
        split
        · exact ⟨hnul', heof', hbuf.2⟩
        · split
          · exact ⟨hnul', heof', hbuf.2⟩
          · exact ih hnul' heof' hbuf.2

theorem readLineAlloc_carried {sz : Nat} {line buf : Bytes} {r : LineRead} (hnul : 0 ∉ line)
    (heof : 255 ∉ line) (hbuf : 0 ∉ buf) (h : readLineAlloc sz line buf = .ok r) : r.Carried := by
  cases buf with
  | nil =>
      cases h
      exact ⟨hnul, heof, hbuf⟩
  | cons c buf =>
      simp only [List.mem_cons, not_or] at hbuf
      rw [readLineAlloc] at h
      split at h
      · cases h
        exact ⟨hnul, heof, hbuf.2⟩
      · rename_i hc
        split at h
        · cases h
        · cases h
          have hnul' : 0 ∉ line ++ [c] := by simp [hnul, hbuf.1]
          have heof' : 255 ∉ line ++ [c] := by simp [heof, Ne.symm hc]
          have hloop := readLineLoop_carried hnul' heof' hbuf.2
          exact ⟨hloop.1, hloop.2.1, hloop.2.2⟩

theorem readText_carried {sz : Nat} {line buf : Bytes} {l : LineRead} (hnul : 0 ∉ line)
    (heof : 255 ∉ line) (hbuf : 0 ∉ buf) (h : readText sz line buf = .ok (some l)) : l.Carried := by
  fun_induction readText sz line buf with
  | case1 =>
      cases h
      exact ⟨hnul, heof, hbuf⟩
  | case2 => cases h
  | case3 => cases h
  | case4 sz line buf hmem hne r hr hok ih =>
      have hread := readLineAlloc_carried hnul heof hbuf hr
      exact ih hread.nul hread.eof hread.rest h
  | case5 => cases h

theorem readTag_carried {sz : Nat} {line buf : Bytes} {t : TagLine} (hnul : 0 ∉ line)
    (heof : 255 ∉ line) (hbuf : 0 ∉ buf) (h : readTag sz line buf = .ok (some t)) : 0 ∉ t.rest := by
  fun_induction readTag sz line buf with
  | case1 => cases h
  | case2 =>
      cases h
      exact hbuf
  | case3 => cases h
  | case4 => cases h
  | case5 sz line buf tagType tag hparse hpartial hne r hr hok ih =>
      have hread := readLineAlloc_carried hnul heof hbuf hr
      exact ih hread.nul hread.eof hread.rest h
  | case6 => cases h

/-! ## The callbacks -/

/-- What each callback keeps. -/
structure DomInvariant (P : Dom → Prop) : Prop where
  nodeStart : ∀ {dom : Dom} (tagType : TagType) (tag : Bytes), P dom → P (dom.nodeStart tagType tag)
  nodeEnd : ∀ {dom dom' : Dom} {tag : Bytes}, P dom → dom.nodeEnd tag = some dom' → P dom'
  nodeText : ∀ {dom dom' : Dom} {text : Bytes}, P dom → Carried text →
    dom.nodeText text = some dom' → P dom'

section Invariant

variable {P : Dom → Prop} (hP : DomInvariant P)

include hP

theorem DomInvariant.handleTag {dom dom' : Dom} (h : P dom) {tagType : TagType} {tag : Bytes}
    (htag : dom.handleTag tagType tag = some dom') : P dom' := by
  cases tagType with
  | tagError => cases htag
  | tagPartial => cases htag
  | tagEnd => exact hP.nodeEnd h htag
  | tagFather =>
      cases htag
      exact hP.nodeStart _ tag h
  | tagSelf => exact hP.nodeEnd (hP.nodeStart _ tag h) htag
  | tagInstr => exact hP.nodeEnd (hP.nodeStart _ tag h) htag
  | tagComment => exact hP.nodeEnd (hP.nodeStart _ tag h) htag
  | tagCdata => exact hP.nodeEnd (hP.nodeStart _ tag h) htag
  | tagDoctype => exact hP.nodeEnd (hP.nodeStart _ tag h) htag

theorem DomInvariant.handleText {dom dom' : Dom} (h : P dom) {line : Bytes} (hnul : 0 ∉ line)
    (hend : 255 ∉ line) (htext : dom.handleText line = some dom') : P dom' := by
  rw [Dom.handleText] at htext
  split at htext
  · cases htext
    exact h
  · rename_i hne
    refine hP.nodeText h ⟨hne, ?_, ?_, ?_⟩ htext
    · exact fun hmem => hnul ((List.takeWhile_prefix _).mem hmem)
    · intro hmem
      simpa using List.mem_takeWhile_imp hmem
    · exact fun hmem => hend ((List.takeWhile_prefix _).mem hmem)

theorem DomInvariant.turn {sz : Nat} {dom dom₁ dom₂ : Dom} {buf : Bytes} {r l : LineRead}
    {t : TagLine} (h : P dom) (hbuf : 0 ∉ buf) (hread : readLineAlloc sz [] buf = .ok r)
    (htext : readText r.sz r.line r.rest = .ok (some l)) (hdom₁ : dom.handleText l.line = some dom₁)
    (htag : readTag l.sz l.line l.rest = .ok (some t))
    (hdom₂ : dom₁.handleTag t.tagType t.tag = some dom₂) : P dom₂ ∧ 0 ∉ t.rest := by
  have hr := readLineAlloc_carried (by simp) (by simp) hbuf hread
  have hl := readText_carried hr.nul hr.eof hr.rest htext
  have h₁ := hP.handleText h hl.nul hl.eof hdom₁
  exact ⟨hP.handleTag h₁ hdom₂, readTag_carried hl.nul hl.eof hl.rest htag⟩

/-- Induction over the lines. -/
theorem DomInvariant.parse {sz : Nat} {dom dom' : Dom} {buf : Bytes} (h : P dom) (hbuf : 0 ∉ buf)
    (hparse : parseDataSax sz dom buf = .ok (some dom')) : P dom' := by
  fun_induction parseDataSax sz dom buf with
  | case1 => cases hparse
  | case2 =>
      cases hparse
      exact h
  | case3 => cases hparse
  | case4 => cases hparse
  | case5 => cases hparse
  | case6 => cases hparse
  | case7 => cases hparse
  | case8 => cases hparse
  | case9 sz dom buf r hread hblank l htext dom₁ hdom₁ t htag dom₂ hdom₂ hrest =>
      cases hparse
      exact (hP.turn h hbuf hread htext hdom₁ htag hdom₂).1
  | case10 sz dom buf r hread hblank l htext dom₁ hdom₁ t htag dom₂ hdom₂ hrest ih =>
      have hturn := hP.turn h hbuf hread htext hdom₁ htag hdom₂
      exact ih hturn.1 hturn.2 hparse

end Invariant

/-! ## The texts of the nodes -/

mutual

def NodeCarried : XMLNode → Prop
  | .mk _ text children => (∀ s ∈ text, Carried s) ∧ NodesCarried children

def NodesCarried : List XMLNode → Prop
  | [] => True
  | node :: nodes => NodeCarried node ∧ NodesCarried nodes

end

theorem nodesCarried_append {nodes nodes' : List XMLNode} :
    NodesCarried (nodes ++ nodes') ↔ NodesCarried nodes ∧ NodesCarried nodes' := by
  induction nodes with
  | nil => simp [NodesCarried]
  | cons node nodes ih => rw [List.cons_append, NodesCarried, NodesCarried, ih, and_assoc]

theorem nodesCarried_mem {nodes : List XMLNode} (h : NodesCarried nodes) {node : XMLNode}
    (hmem : node ∈ nodes) : NodeCarried node := by
  induction nodes with
  | nil => cases hmem
  | cons n nodes ih =>
      rw [NodesCarried] at h
      cases List.mem_cons.mp hmem with
      | inl heq => exact heq ▸ h.1
      | inr hmem => exact ih h.2 hmem

structure OpenNode.Carried (f : OpenNode) : Prop where
  text : ∀ s ∈ f.text, STRos.Carried s
  children : NodesCarried f.children

structure Dom.Carried (dom : Dom) : Prop where
  nodes : NodesCarried dom.nodes
  current : ∀ f ∈ dom.current, f.Carried

theorem OpenNode.Carried.closed {f : OpenNode} (h : f.Carried) :
    NodesCarried [.mk f.tag f.text f.children] := by
  rw [NodesCarried, NodeCarried, NodesCarried]
  exact ⟨⟨h.text, h.children⟩, trivial⟩

theorem Dom.Carried.nodeStart {dom : Dom} (h : dom.Carried) (tagType : TagType) (tag : Bytes) :
    (dom.nodeStart tagType tag).Carried where
  nodes := h.nodes
  current := by
    intro f hf
    cases List.mem_cons.mp hf with
    | inl heq =>
        rw [heq]
        exact ⟨fun s hs => absurd hs (by simp), trivial⟩
    | inr hmem => exact h.current f hmem

theorem Dom.Carried.nodeEnd {dom dom' : Dom} (h : dom.Carried) {tag : Bytes}
    (hend : dom.nodeEnd tag = some dom') : dom'.Carried := by
  rw [Dom.nodeEnd] at hend
  split at hend
  · cases hend
  · rename_i f fs hcurrent
    have hall := h.current
    rw [hcurrent, List.forall_mem_cons] at hall
    split at hend
    · cases hend
    · split at hend
      · cases hend
        exact ⟨nodesCarried_append.mpr ⟨h.nodes, hall.1.closed⟩, fun f hf => absurd hf (by simp)⟩
      · cases hend
        rw [List.forall_mem_cons] at hall
        refine ⟨h.nodes, List.forall_mem_cons.mpr ⟨⟨hall.2.1.text, ?_⟩, hall.2.2⟩⟩
        exact nodesCarried_append.mpr ⟨hall.2.1.children, hall.1.closed⟩

theorem Dom.Carried.nodeText {dom dom' : Dom} (h : dom.Carried) {text : Bytes}
    (hcarried : STRos.Carried text) (htext : dom.nodeText text = some dom') : dom'.Carried := by
  rw [Dom.nodeText] at htext
  split at htext
  · split at htext
    · cases htext
      exact h
    · cases htext
  · rename_i f fs hcurrent
    cases htext
    have hall := h.current
    rw [hcurrent, List.forall_mem_cons] at hall
    refine ⟨h.nodes, List.forall_mem_cons.mpr ⟨⟨?_, hall.1.children⟩, hall.2⟩⟩
    intro s hs
    obtain rfl : f.text.getD [] ++ text = s := Option.some.inj hs
    refine ⟨by simp [hcarried.1], plain_append.mpr ⟨?_, hcarried.2⟩⟩
    cases hold : f.text with
    | none => exact Plain.nil
    | some old => exact (hall.1.text old hold).2

theorem hangOpen_carried {child : List XMLNode} (hchild : NodesCarried child) {fs : List OpenNode}
    (hfs : ∀ f ∈ fs, f.Carried) : NodesCarried (hangOpen child fs) := by
  induction fs generalizing child with
  | nil => exact hchild
  | cons f fs ih =>
      rw [List.forall_mem_cons] at hfs
      rw [hangOpen]
      refine ih ?_ hfs.2
      rw [NodesCarried, NodeCarried, NodesCarried]
      exact ⟨⟨hfs.1.text, nodesCarried_append.mpr ⟨hfs.1.children, hchild⟩⟩, trivial⟩

theorem Dom.Carried.doc {dom : Dom} (h : dom.Carried) : NodesCarried dom.doc.nodes := by
  have hnil : NodesCarried [] := trivial
  exact nodesCarried_append.mpr ⟨h.nodes, hangOpen_carried hnil h.current⟩

theorem domCarried_invariant : DomInvariant Dom.Carried where
  nodeStart := fun tagType tag h => h.nodeStart tagType tag
  nodeEnd := fun h hend => h.nodeEnd hend
  nodeText := fun h hcarried htext => h.nodeText hcarried htext

theorem xmlDocParseBufferDom_carried {buffer : Bytes} {doc : XMLDoc}
    (h : xmlDocParseBufferDom buffer = .ok (some doc)) : NodesCarried doc.nodes := by
  rw [xmlDocParseBufferDom] at h
  split at h
  · cases h
  · cases h
    exact trivial
  · rename_i dom hparse
    cases h
    have hstart : Dom.Carried ⟨[], -1, []⟩ := ⟨trivial, fun f hf => absurd hf (by simp)⟩
    exact (domCarried_invariant.parse hstart (cstr_nulFree buffer) hparse).doc

theorem root_carried {doc : XMLDoc} (h : NodesCarried doc.nodes) {root : XMLNode}
    (hroot : doc.root = .ok root) : NodesCarried root.children := by
  rw [XMLDoc.root] at hroot
  split at hroot
  · cases hroot
  · split at hroot
    · rename_i node hnode
      obtain rfl : node = root := Except.ok.inj hroot
      have hcarried := nodesCarried_mem h (List.mem_of_getElem? hnode)
      cases node with
      | mk tag text children =>
          rw [NodeCarried] at hcarried
          exact hcarried.2
    · cases hroot

/-! ## The values -/

mutual

def ItemCarried : Item → Prop
  | .nil => True
  | .int _ => True
  | .bool _ => True
  | .double _ => True
  | .string s => Carried s
  | .date s => Carried s
  | .base64 s => Carried s
  | .array l => ItemsCarried l

def ItemsCarried : List Item → Prop
  | [] => True
  | it :: l => ItemCarried it ∧ ItemsCarried l

end

theorem itemsCarried_append {l m : List Item} :
    ItemsCarried (l ++ m) ↔ ItemsCarried l ∧ ItemsCarried m := by
  induction l with
  | nil => simp [ItemsCarried]
  | cons it l ih => rw [List.cons_append, ItemsCarried, ItemsCarried, ih, and_assoc]

theorem itemsCarried_listPut {l : RList} (hl : ItemsCarried l) {it : Item} (hit : ItemCarried it) :
    ItemsCarried (listPut l it) := by
  have hsingle : ItemsCarried [it] := by
    rw [ItemsCarried]
    exact ⟨hit, trivial⟩
  rw [listPut]
  split
  · exact hsingle
  · exact itemsCarried_append.mpr ⟨hl, hsingle⟩

theorem itemsCarried_listInit : ItemsCarried listInit := by
  rw [listInit, ItemsCarried]
  exact ⟨trivial, trivial⟩

theorem itemCarried_special {s : Bytes} (hs : Carried s) : ItemCarried (specialItem s) := by
  rw [specialItem]
  split
  · trivial
  · split
    · trivial
    · exact hs

/-- A case of the switch that takes the text of the element. -/
theorem put_carried {text : Option Bytes} (htext : ∀ s ∈ text, Carried s) {f : Bytes → Item}
    (hf : ∀ s, Carried s → ItemCarried (f s)) {l l' : RList} (hl : ItemsCarried l)
    (h : (strdup text >>= fun s => .ok (listPut l (f s))) = .ok l') : ItemsCarried l' := by
  cases text with
  | none => cases h
  | some s =>
      cases h
      exact itemsCarried_listPut hl (hf s (htext s rfl))

mutual

theorem parseRpcValue_carried {node : XMLNode} (hnode : NodeCarried node) {l l' : RList}
    (hl : ItemsCarried l) (h : parseRpcValue l node = .ok l') : ItemsCarried l' := by
  match node with
  | .mk tag text [] =>
      rw [parseRpcValue] at h
      split at h
      · rw [parseRpcTyped] at h
        cases h
        exact hl
      · cases h
        exact hl
  | .mk tag text (.mk tag' text' children' :: rest) =>
      rw [NodeCarried] at hnode
      rw [parseRpcValue] at h
      split at h
      · exact parseRpcTyped_carried hnode.2 hl h
      · have hchild := hnode.2
        rw [NodesCarried, NodeCarried] at hchild
        split at h
        · cases h
          exact hl
        · exact parseRpcTyped_carried hchild.1.2 hl h

theorem parseRpcTyped_carried {nodes : List XMLNode} (hnodes : NodesCarried nodes) {l l' : RList}
    (hl : ItemsCarried l) (h : parseRpcTyped l nodes = .ok l') : ItemsCarried l' := by
  match nodes with
  | [] =>
      rw [parseRpcTyped] at h
      cases h
      exact hl
  | .mk tag text children :: rest =>
      rw [NodesCarried, NodeCarried] at hnodes
      obtain ⟨⟨htext, hchildren⟩, -⟩ := hnodes
      unfold parseRpcTyped at h
      simp only at h
      split at h
      · exact put_carried htext (f := .base64) (fun s hs => hs) hl h
      split at h
      · exact put_carried htext (f := fun s => .bool (atoi s)) (fun s _ => trivial) hl h
      split at h
      · exact put_carried htext (fun s hs => itemCarried_special hs) hl h
      split at h
      · exact put_carried htext (f := .date) (fun s hs => hs) hl h
      split at h
      · exact put_carried htext (f := fun s => .int (atoi s)) (fun s _ => trivial) hl h
      split at h
      · exact put_carried htext (f := .string) (fun s hs => hs) hl h
      split at h
      · match children with
        | [] =>
            cases h
            exact hl
        | [.mk tag' text' children'] =>
            rw [NodesCarried, NodeCarried] at hchildren
            simp only at h
            split at h
            · cases h
              exact hl
            · obtain ⟨arr, harr, hput⟩ := bind_eq_ok.mp h
              cases hput
              exact itemsCarried_listPut hl
                (parseRpcValues_carried hchildren.1.2 itemsCarried_listInit harr)
        | .mk _ _ _ :: _ :: _ =>
            cases h
            exact hl
      · cases h
        exact hl

theorem parseRpcValues_carried {nodes : List XMLNode} (hnodes : NodesCarried nodes) {l l' : RList}
    (hl : ItemsCarried l) (h : parseRpcValues l nodes = .ok l') : ItemsCarried l' := by
  match nodes with
  | [] =>
      rw [parseRpcValues] at h
      cases h
      exact hl
  | node :: nodes =>
      rw [NodesCarried] at hnodes
      rw [parseRpcValues] at h
      obtain ⟨l₁, hnode, hrest⟩ := bind_eq_ok.mp h
      exact parseRpcValues_carried hnodes.2 (parseRpcValue_carried hnodes.1 hl hnode) hrest

end

end STRos
