import STRos.Rpc.LineReading

/-! # Markup is parsed to its tree

A document of tagged text is read line by line. As long as each line has room, the
parser gives the tree of the document; without room it writes a byte behind a block, or
gives up with a part of the tree.
-/

namespace STRos

open CString Markup

/-! ## One turn of the loop -/

/-- The tag of a line that needs no more of the text. -/
theorem readTag_whole {sz : Nat} {line buf : Bytes} {tagType : TagType} {tag : Bytes}
    (htag : xmlParse1string (line.length + 1 < sz) (line.dropWhile (· ≠ 60)) = .ok (tagType, tag))
    (htype : tagType ≠ .tagPartial) : readTag sz line buf = .ok (some ⟨tagType, tag, sz, buf⟩) := by
  rw [readTag]
  split
  · rename_i heq
    rw [htag] at heq
    cases heq
  · rename_i heq
    rw [htag] at heq
    cases heq
    rw [if_pos htype]

theorem parseDataSax_eq (sz : Nat) (dom : Dom) (buf : Bytes) :
    parseDataSax sz dom buf =
      match readLineAlloc sz [] buf with
      | .error e => .error e
      | .ok r =>
          if r.ok = false ∨ r.line.all isSpace then .ok (some dom)
          else
            match readText r.sz r.line r.rest with
            | .error e => .error e
            | .ok none => .ok none
            | .ok (some l) =>
                match dom.handleText l.line with
                | none => .ok none
                | some dom =>
                    match readTag l.sz l.line l.rest with
                    | .error e => .error e
                    | .ok none => .ok none
                    | .ok (some t) =>
                        match dom.handleTag t.tagType t.tag with
                        | none => .ok none
                        | some dom =>
                            if t.rest = [] then .ok (some dom)
                            else parseDataSax t.sz dom t.rest := by
  rw [parseDataSax]
  split
  · rename_i hread
    rw [hread]
  · rename_i r hread
    simp only [hread]
    split
    · rfl
    · split
      · rename_i htext
        rw [htext]
      · rename_i htext
        rw [htext]
      · rename_i l htext
        simp only [htext]
        cases dom.handleText l.line with
        | none => rfl
        | some dom =>
            simp only
            split
            · rename_i htag
              rw [htag]
            · rename_i htag
              rw [htag]
            · rename_i t htag
              cases hstep : dom.handleTag t.tagType t.tag with
              | none => simp only [htag, hstep]
              | some dom => simp only [htag, hstep]

section Turn

variable {sz : Nat} {dom : Dom} {buf : Bytes} {r : LineRead}
  (hread : readLineAlloc sz [] buf = .ok r) (hok : r.ok = true)
  (hblank : r.line.all isSpace = false)

include hread hok hblank

theorem parseDataSax_noLine (htext : NoLine (readText r.sz r.line r.rest)) :
    parseDataSax sz dom buf = .error .outOfBounds ∨ parseDataSax sz dom buf = .ok none := by
  have hline : ¬ (r.ok = false ∨ r.line.all isSpace) := by simp [hok, hblank]
  rw [parseDataSax_eq]
  simp only [hread, if_neg hline]
  rcases htext with htext | htext
  · rw [htext]
    exact Or.inl rfl
  · rw [htext]
    exact Or.inr rfl

theorem parseDataSax_line {l : LineRead} (htext : readText r.sz r.line r.rest = .ok (some l))
    {t : TagLine} (htag : readTag l.sz l.line l.rest = .ok (some t)) :
    parseDataSax sz dom buf =
      match dom.handleText l.line with
      | none => .ok none
      | some dom =>
          match dom.handleTag t.tagType t.tag with
          | none => .ok none
          | some dom => if t.rest = [] then .ok (some dom) else parseDataSax t.sz dom t.rest := by
  have hline : ¬ (r.ok = false ∨ r.line.all isSpace) := by simp [hok, hblank]
  rw [parseDataSax_eq]
  simp only [hread, if_neg hline, htext, htag]

end Turn

def Dom.putText (dom : Dom) (acc : Bytes) : Option Dom :=
  if acc = [] then some dom else dom.nodeText acc

/-- A text and a tag that are read as one line take one turn. -/
theorem parseDataSax_turn {inner : Bytes} (hinner : 62 ∉ inner) (hend : 255 ∉ inner)
    {tagType : TagType} {tag : Bytes}
    (htag : ∀ room, xmlParse1string room (60 :: (inner ++ [62])) = .ok (tagType, tag))
    (htype : tagType ≠ .tagPartial) {acc : Bytes} (hacc : Plain acc) {sz sz' : Nat} (hsz : 256 ≤ sz)
    (rest : Bytes)
    (hread : readText sz [] (acc ++ 60 :: (inner ++ 62 :: rest)) =
      .ok (some ⟨true, acc ++ 60 :: (inner ++ [62]), sz', rest⟩)) (dom : Dom) :
    parseDataSax sz dom (acc ++ 60 :: (inner ++ 62 :: rest)) =
      match (dom.putText acc).bind fun dom => dom.handleTag tagType tag with
      | none => .ok none
      | some dom => if rest = [] then .ok (some dom) else parseDataSax sz' dom rest := by
  have hbuf : acc ++ 60 :: (inner ++ 62 :: rest) ≠ [] := by simp
  obtain ⟨r, hfirst, hcases⟩ := readLineAlloc_first hinner hend rest hacc hsz
  obtain ⟨hok, hblank⟩ : r.ok = true ∧ r.line.all isSpace = false := by
    refine hcases.resolve_right fun hlong => ?_
    rw [readText_of_not_mem (by simp) hbuf, hfirst] at hread
    simp only [hlong.1] at hread
    cases hread
  rw [readText_of_read (by simp) hbuf hfirst hok] at hread
  have hne : ∀ b ∈ acc, decide (b ≠ 60) = true := by
    intro b hb
    simpa using fun heq : b = 60 => hacc.2.1 (heq ▸ hb)
  have htake : (acc ++ 60 :: (inner ++ [62])).takeWhile (· ≠ 60) = acc := by
    rw [List.takeWhile_append_of_pos hne]
    simp
  have hdrop : (acc ++ 60 :: (inner ++ [62])).dropWhile (· ≠ 60) = 60 :: (inner ++ [62]) := by
    rw [List.dropWhile_append_of_pos hne]
    simp
  have hparse : readTag sz' (acc ++ 60 :: (inner ++ [62])) rest =
      .ok (some ⟨tagType, tag, sz', rest⟩) := readTag_whole (by rw [hdrop]; exact htag _) htype
  rw [parseDataSax_line hfirst hok hblank hread hparse, Dom.handleText]
  simp only [htake]
  rw [← Dom.putText]
  cases dom.putText acc <;> rfl

/-- Without a `>` in the text there is room, when the line is not too long. -/
theorem parseDataSax_short {inner : Bytes} (hinner : 62 ∉ inner) (hend : 255 ∉ inner)
    {tagType : TagType} {tag : Bytes}
    (htag : ∀ room, xmlParse1string room (60 :: (inner ++ [62])) = .ok (tagType, tag))
    (htype : tagType ≠ .tagPartial) {acc : Bytes} (hacc : Plain acc) (hgt : 62 ∉ acc) {sz : Nat}
    (hsz : 256 ≤ sz) (dom : Dom) (hlen : acc.length + inner.length + 2 < 2147483392)
    (rest : Bytes) :
    ∃ sz', 256 ≤ sz' ∧
      parseDataSax sz dom (acc ++ 60 :: (inner ++ 62 :: rest)) =
        (match (dom.putText acc).bind fun dom => dom.handleTag tagType tag with
        | none => .ok none
        | some dom => if rest = [] then .ok (some dom) else parseDataSax sz' dom rest) ∧
      roomy sz 0 true false (acc ++ 60 :: (inner ++ 62 :: rest)) = roomy sz' 0 true false rest := by
  have htail : 62 ∉ acc.tail := fun hmem => hgt (List.mem_of_mem_tail hmem)
  have hline : 60 ∉ ([] : Bytes) := by simp
  have hroom : ([] : Bytes).length + 1 < sz := by
    rw [List.length_nil]
    omega
  obtain ⟨sz', hsz', hread, hroomy⟩ :=
    readText_short hinner hend rest hacc htail hsz hline hroom (by rw [List.length_nil]; omega)
  exact ⟨sz', hsz', parseDataSax_turn hinner hend htag htype hacc hsz rest hread dom, hroomy⟩

/-! ## How much was put into the tree -/

mutual

/-- The elements of a tree and the bytes of their texts. -/
def XMLNode.weight : XMLNode → Nat
  | .mk _ text children => 1 + (text.getD []).length + XMLNode.weights children

def XMLNode.weights : List XMLNode → Nat
  | [] => 0
  | node :: nodes => node.weight + XMLNode.weights nodes

end

theorem XMLNode.weights_append (nodes nodes' : List XMLNode) :
    XMLNode.weights (nodes ++ nodes') = XMLNode.weights nodes + XMLNode.weights nodes' := by
  induction nodes with
  | nil => simp [XMLNode.weights]
  | cons node nodes ih => rw [List.cons_append, XMLNode.weights, XMLNode.weights, ih, Nat.add_assoc]

def OpenNode.weight (f : OpenNode) : Nat := (XMLNode.mk f.tag f.text f.children).weight

def Dom.weight (dom : Dom) : Nat := XMLNode.weights dom.nodes + (dom.current.map (·.weight)).sum

@[simp] theorem OpenNode.weight_mk (tag : Bytes) (text : Option Bytes) (children : List XMLNode) :
    (OpenNode.mk tag text children).weight =
      1 + (text.getD []).length + XMLNode.weights children := rfl

@[simp] theorem Dom.weight_open (nodes : List XMLNode) (iRoot : Int) (f : OpenNode)
    (fs : List OpenNode) : Dom.weight ⟨nodes, iRoot, f :: fs⟩ =
      XMLNode.weights nodes + (f.weight + (fs.map (·.weight)).sum) := rfl

@[simp] theorem XMLNode.weights_singleton (node : XMLNode) : XMLNode.weights [node] = node.weight :=
  rfl

@[simp] theorem XMLNode.weight_mk (tag : Bytes) (text : Option Bytes) (children : List XMLNode) :
    (XMLNode.mk tag text children).weight =
      1 + (text.getD []).length + XMLNode.weights children := rfl

theorem addText_length (text : Option Bytes) (s : Bytes) :
    ((addText text s).getD []).length = (text.getD []).length + s.length := by
  rw [addText]
  split
  · rename_i h
    rw [h, List.length_nil, Nat.add_zero]
  · simp

theorem bodyText_length (text : Option Bytes) (body : List Node) :
    (text.getD []).length ≤ ((bodyText text body).getD []).length := by
  induction body generalizing text with
  | nil => exact Nat.le_refl _
  | cons node body ih =>
      cases node with
      | text s =>
          have hnext := ih (addText text s)
          rw [addText_length] at hnext
          rw [bodyText]
          omega
      | element tag body' => exact ih text
      | empty tag => exact ih text

/-- The parser has stopped in front of the end, with a part of the tree at most. -/
def Unfinished (w : Nat) (r : C (Option Dom)) : Prop := ∀ dom, r = .ok (some dom) → dom.weight < w

theorem Unfinished.mono {w w' : Nat} {r : C (Option Dom)} (h : Unfinished w r) (hw : w ≤ w') :
    Unfinished w' r := fun dom hdom => Nat.lt_of_lt_of_le (h dom hdom) hw

/-- A text and a tag take one turn, or their line has no room. -/
theorem parseDataSax_chunk {inner : Bytes} (hinner : 62 ∉ inner) (hend : 255 ∉ inner)
    {tagType : TagType} {tag : Bytes}
    (htag : ∀ room, xmlParse1string room (60 :: (inner ++ [62])) = .ok (tagType, tag))
    (htype : tagType ≠ .tagPartial) {acc : Bytes} (hacc : Plain acc) {sz : Nat} (hsz : 256 ≤ sz)
    {dom : Dom} {w : Nat} (hw : acc ≠ [] ∨ 2147483390 ≤ inner.length → dom.weight < w)
    (rest : Bytes) :
    (∃ sz', 256 ≤ sz' ∧
      parseDataSax sz dom (acc ++ 60 :: (inner ++ 62 :: rest)) =
        (match (dom.putText acc).bind fun dom => dom.handleTag tagType tag with
        | none => .ok none
        | some dom => if rest = [] then .ok (some dom) else parseDataSax sz' dom rest) ∧
      roomy sz 0 true false (acc ++ 60 :: (inner ++ 62 :: rest)) = roomy sz' 0 true false rest) ∨
    Unfinished w (parseDataSax sz dom (acc ++ 60 :: (inner ++ 62 :: rest))) ∧
      roomy sz 0 true false (acc ++ 60 :: (inner ++ 62 :: rest)) = false := by
  have hline : 60 ∉ ([] : Bytes) := by simp
  have hroom : ([] : Bytes).length + 1 < sz := by
    rw [List.length_nil]
    omega
  cases readText_chunk hinner hend rest hacc hsz hline hroom with
  | inl hline =>
      obtain ⟨sz', hsz', hread, hroomy⟩ := hline
      exact Or.inl ⟨sz', hsz', parseDataSax_turn hinner hend htag htype hacc hsz rest hread dom,
        hroomy⟩
  | inr hcrowded =>
      have hbuf : acc ++ 60 :: (inner ++ 62 :: rest) ≠ [] := by simp
      obtain ⟨r, hfirst, ⟨hok, hblank⟩ | ⟨hok, hlong⟩⟩ :=
        readLineAlloc_first hinner hend rest hacc hsz
      · have hnoLine := hcrowded.1
        rw [readText_of_read (by simp) hbuf hfirst hok] at hnoLine
        refine Or.inr ⟨fun dom' hdom' => ?_, hcrowded.2⟩
        rcases parseDataSax_noLine hfirst hok hblank hnoLine with hparse | hparse
        all_goals
          rw [hparse] at hdom'
          cases hdom'
      · refine Or.inr ⟨fun dom' hdom' => ?_, hcrowded.2⟩
        rw [parseDataSax_eq, hfirst] at hdom'
        simp only [hok, true_or, if_true] at hdom'
        cases hdom'
        exact hw hlong

/-! ## From one place in a document to another -/

/-- The turns in between leave the result as it is. -/
structure ParsesTo (sz : Nat) (dom : Dom) (buf : Bytes) (sz' : Nat) (dom' : Dom) (buf' : Bytes) :
    Prop where
  parse : parseDataSax sz dom buf = parseDataSax sz' dom' buf'
  room : roomy sz 0 true false buf = roomy sz' 0 true false buf'

/-- There is a line without room, and less than `w` in the tree. -/
structure Crowded (w sz : Nat) (dom : Dom) (buf : Bytes) : Prop where
  parse : Unfinished w (parseDataSax sz dom buf)
  room : roomy sz 0 true false buf = false

theorem ParsesTo.trans {sz₁ sz₂ sz₃ : Nat} {dom₁ dom₂ dom₃ : Dom} {buf₁ buf₂ buf₃ : Bytes}
    (h : ParsesTo sz₁ dom₁ buf₁ sz₂ dom₂ buf₂) (h' : ParsesTo sz₂ dom₂ buf₂ sz₃ dom₃ buf₃) :
    ParsesTo sz₁ dom₁ buf₁ sz₃ dom₃ buf₃ :=
  ⟨h.parse.trans h'.parse, h.room.trans h'.room⟩

theorem ParsesTo.crowded {w sz₁ sz₂ : Nat} {dom₁ dom₂ : Dom} {buf₁ buf₂ : Bytes}
    (h : ParsesTo sz₁ dom₁ buf₁ sz₂ dom₂ buf₂) (h' : Crowded w sz₂ dom₂ buf₂) :
    Crowded w sz₁ dom₁ buf₁ :=
  ⟨h.parse.symm ▸ h'.parse, h.room.trans h'.room⟩

theorem Crowded.mono {w w' sz : Nat} {dom : Dom} {buf : Bytes} (h : Crowded w sz dom buf)
    (hw : w ≤ w') : Crowded w' sz dom buf := ⟨h.parse.mono hw, h.room⟩

theorem parsesTo_chunk {inner : Bytes} (hinner : 62 ∉ inner) (hend : 255 ∉ inner)
    {tagType : TagType} {tag : Bytes}
    (htag : ∀ room, xmlParse1string room (60 :: (inner ++ [62])) = .ok (tagType, tag))
    (htype : tagType ≠ .tagPartial) {acc : Bytes} (hacc : Plain acc) {sz : Nat} (hsz : 256 ≤ sz)
    {dom dom' : Dom}
    (hdom : ((dom.putText acc).bind fun dom => dom.handleTag tagType tag) = some dom') {w : Nat}
    (hw : acc ≠ [] ∨ 2147483390 ≤ inner.length → dom.weight < w) {rest : Bytes}
    (hrest : rest ≠ []) :
    (∃ sz', 256 ≤ sz' ∧ ParsesTo sz dom (acc ++ 60 :: (inner ++ 62 :: rest)) sz' dom' rest) ∨
      Crowded w sz dom (acc ++ 60 :: (inner ++ 62 :: rest)) := by
  cases parseDataSax_chunk hinner hend htag htype hacc hsz hw rest with
  | inl h =>
      obtain ⟨sz', hsz', hparse, hroom⟩ := h
      rw [hdom] at hparse
      simp only [if_neg hrest] at hparse
      exact Or.inl ⟨sz', hsz', hparse, hroom⟩
  | inr h => exact Or.inr ⟨h.1, h.2⟩

/-! ## Nodes -/

structure PlainTag (tag : Bytes) : Prop where
  name : IsName tag
  fits : tag.length + 3 < 2147483392

instance (tag : Bytes) : Decidable (PlainTag tag) :=
  decidable_of_iff (IsName tag ∧ tag.length + 3 < 2147483392)
    ⟨fun h => ⟨h.1, h.2⟩, fun h => ⟨h.name, h.fits⟩⟩

mutual

def PlainNode : Node → Prop
  | .text s => Plain s
  | .element tag body => PlainTag tag ∧ PlainNodes body
  | .empty tag => PlainTag tag

def PlainNodes : List Node → Prop
  | [] => True
  | node :: nodes => PlainNode node ∧ PlainNodes nodes

end

theorem isName_plain {tag : Bytes} (h : IsName tag) : 62 ∉ tag ∧ 255 ∉ tag :=
  ⟨h.not_mem (by decide), h.not_mem (by decide)⟩

theorem handleTag_self (dom : Dom) (tag : Bytes) :
    dom.handleTag .tagSelf tag = (dom.nodeStart .tagSelf tag).nodeEnd tag := rfl

theorem putText_open (nodes : List XMLNode) (iRoot : Int) (f : OpenNode) (fs : List OpenNode)
    (acc : Bytes) :
    Dom.putText ⟨nodes, iRoot, f :: fs⟩ acc =
      some ⟨nodes, iRoot, { f with text := addText f.text acc } :: fs⟩ := by
  rw [Dom.putText, addText]
  by_cases h : acc = []
  · rw [if_pos h, if_pos h]
  · rw [if_neg h, if_neg h]
    rfl

/-- The parser goes on with `f` open, whose last text is not all put yet, or there is a line
without room. -/
def ParsesInto (sz : Nat) (dom : Dom) (buf : Bytes) (nodes : List XMLNode) (iRoot : Int)
    (f : OpenNode) (fs : List OpenNode) (rest : Bytes) : Prop :=
  (∃ sz' text acc, 256 ≤ sz' ∧ Plain acc ∧ addText text acc = f.text ∧
    ParsesTo sz dom buf sz' ⟨nodes, iRoot, ⟨f.tag, text, f.children⟩ :: fs⟩ (acc ++ rest)) ∨
  Crowded (Dom.weight ⟨nodes, iRoot, f :: fs⟩) sz dom buf

theorem parse_opened {tag : Bytes} (htag : PlainTag tag) {acc : Bytes} (hacc : Plain acc) {sz : Nat}
    (hsz : 256 ≤ sz) {dom : Dom} {nodes : List XMLNode} {iRoot : Int} {f : OpenNode}
    {fs : List OpenNode}
    (hstart : ((dom.putText acc).bind fun dom => dom.handleTag .tagFather tag) =
      some ⟨nodes, iRoot, ⟨tag, none, []⟩ :: fs⟩)
    (hgrows : dom.weight < Dom.weight ⟨nodes, iRoot, f :: fs⟩)
    {body rest : Bytes} (hrest : rest ≠ [])
    (hbody : ∀ {sz : Nat}, 256 ≤ sz →
      ParsesInto sz ⟨nodes, iRoot, ⟨tag, none, []⟩ :: fs⟩ ([] ++ (body ++ rest)) nodes iRoot f fs
        rest) :
    ParsesInto sz dom (acc ++ 60 :: (tag ++ 62 :: (body ++ rest))) nodes iRoot f fs rest := by
  obtain ⟨hgt, hff⟩ := isName_plain htag.name
  have hne : body ++ rest ≠ [] := by simp [hrest]
  cases parsesTo_chunk hgt hff (xmlParse1string_open htag.name) (by decide) hacc hsz hstart
    (fun _ => hgrows) hne with
  | inr hcrowded => exact Or.inr hcrowded
  | inl hopen =>
      obtain ⟨sz₁, hsz₁, hopen⟩ := hopen
      cases hbody hsz₁ with
      | inr hcrowded => exact Or.inr (hopen.crowded hcrowded)
      | inl hrun =>
          obtain ⟨sz₂, text, acc₂, hsz₂, hacc₂, htext, hrun⟩ := hrun
          exact Or.inl ⟨sz₂, text, acc₂, hsz₂, hacc₂, htext, hopen.trans hrun⟩

theorem handleTag_close (nodes : List XMLNode) (iRoot : Int) {f : OpenNode} {text : Option Bytes}
    {acc : Bytes} (htext : addText text acc = f.text) (g : OpenNode) (gs : List OpenNode) :
    ((Dom.putText ⟨nodes, iRoot, ⟨f.tag, text, f.children⟩ :: g :: gs⟩ acc).bind
        fun dom => dom.handleTag .tagEnd f.tag) =
      some ⟨nodes, iRoot,
        { g with children := g.children ++ [.mk f.tag f.text f.children] } :: gs⟩ := by
  rw [putText_open, Option.bind_some, Dom.handleTag, Dom.nodeEnd, htext]
  simp

theorem handleTag_closeRoot (nodes : List XMLNode) (iRoot : Int) {f : OpenNode}
    {text : Option Bytes} {acc : Bytes} (htext : addText text acc = f.text) :
    ((Dom.putText ⟨nodes, iRoot, [⟨f.tag, text, f.children⟩]⟩ acc).bind
        fun dom => dom.handleTag .tagEnd f.tag) =
      some ⟨nodes ++ [.mk f.tag f.text f.children], iRoot, []⟩ := by
  rw [putText_open, Option.bind_some, Dom.handleTag, Dom.nodeEnd, htext]
  simp

theorem render_element_append (acc tag : Bytes) (body : List Node) (rest : Bytes) :
    acc ++ ((Node.element tag body).render ++ rest) =
      acc ++ 60 :: (tag ++ 62 :: (renders body ++ 60 :: (47 :: tag ++ 62 :: rest))) := by
  simp [Node.render]

/-- In front of an end tag a text is missing when there is no room. -/
theorem weight_close (nodes : List XMLNode) (iRoot : Int) {f : OpenNode} {text : Option Bytes}
    {acc : Bytes} (htext : addText text acc = f.text) (fs : List OpenNode) {tag : Bytes}
    (htag : PlainTag tag) (h : acc ≠ [] ∨ 2147483390 ≤ (47 :: tag).length) :
    Dom.weight ⟨nodes, iRoot, ⟨f.tag, text, f.children⟩ :: fs⟩ <
      Dom.weight ⟨nodes, iRoot, f :: fs⟩ := by
  have hfits := htag.fits
  have hacc : 0 < acc.length := by
    refine List.length_pos_iff.mpr (h.resolve_right ?_)
    rw [List.length_cons]
    omega
  have hlen := addText_length text acc
  rw [htext] at hlen
  have hf : f.weight = 1 + (f.text.getD []).length + XMLNode.weights f.children := rfl
  rw [Dom.weight_open, Dom.weight_open, OpenNode.weight_mk, hf]
  omega

mutual

theorem parse_node {node : Node} (h : PlainNode node) (nodes : List XMLNode) (iRoot : Int)
    (f : OpenNode) (fs : List OpenNode) {sz : Nat} (hsz : 256 ≤ sz) {acc : Bytes} (hacc : Plain acc)
    {rest : Bytes} (hrest : rest ≠ []) :
    ParsesInto sz ⟨nodes, iRoot, f :: fs⟩ (acc ++ (node.render ++ rest)) nodes iRoot
      ⟨f.tag, bodyText (addText f.text acc) [node], f.children ++ node.tree XMLNode.mk⟩ fs
      rest := by
  have hweight : f.weight = 1 + (f.text.getD []).length + XMLNode.weights f.children := rfl
  have hlen := addText_length f.text acc
  match node with
  | .text s =>
      rw [PlainNode] at h
      left
      refine ⟨sz, f.text, acc ++ s, hsz, plain_append.mpr ⟨hacc, h⟩, ?_, ?_, ?_⟩
      · simp only [bodyText, addText_addText]
      · rw [render_text, Node.tree, List.append_nil, List.append_assoc]
      · rw [render_text, List.append_assoc]
  | .element tag body =>
      rw [PlainNode] at h
      obtain ⟨hgt, hff⟩ := isName_plain h.1.name
      have hstart : ((Dom.putText ⟨nodes, iRoot, f :: fs⟩ acc).bind
          fun dom => dom.handleTag .tagFather tag) = some ⟨nodes, iRoot,
            ⟨tag, none, []⟩ :: { f with text := addText f.text acc } :: fs⟩ := by
        rw [putText_open]
        rfl
      have hend : 60 :: (47 :: tag ++ 62 :: rest) ≠ [] := by simp
      -- With the element open, as much was put as when it hangs in its place.
      have hsame : Dom.weight ⟨nodes, iRoot, ⟨tag, bodyText none body, trees XMLNode.mk body⟩ ::
          { f with text := addText f.text acc } :: fs⟩ =
          Dom.weight ⟨nodes, iRoot, ⟨f.tag, bodyText (addText f.text acc) [.element tag body],
            f.children ++ (Node.element tag body).tree XMLNode.mk⟩ :: fs⟩ := by
        simp [bodyText, Node.tree, XMLNode.weights_append]
        omega
      rw [render_element_append, ParsesInto, ← hsame]
      cases parse_opened h.1 hacc hsz hstart (by simp [hweight, hlen]; omega) hend
        fun hsz => parse_nodes h.2 nodes iRoot ⟨tag, none, []⟩
          ({ f with text := addText f.text acc } :: fs) hsz Plain.nil hend with
      | inr hcrowded => exact Or.inr hcrowded
      | inl hbody =>
          obtain ⟨sz₁, text, acc₁, hsz₁, hacc₁, htext, hbody⟩ := hbody
          have hgt' : 62 ∉ 47 :: tag := by simp [hgt]
          have hff' : 255 ∉ 47 :: tag := by simp [hff]
          cases parsesTo_chunk hgt' hff' (xmlParse1string_close h.1.name) (by decide) hacc₁ hsz₁
            (handleTag_close nodes iRoot htext { f with text := addText f.text acc } fs)
            (weight_close nodes iRoot htext ({ f with text := addText f.text acc } :: fs) h.1)
            hrest with
          | inr hcrowded => exact Or.inr (hbody.crowded hcrowded)
          | inl hclose =>
              obtain ⟨sz₂, hsz₂, hclose⟩ := hclose
              exact Or.inl ⟨sz₂, addText f.text acc, [], hsz₂, Plain.nil, rfl, hbody.trans hclose⟩
  | .empty tag =>
      rw [PlainNode] at h
      obtain ⟨hgt, hff⟩ := isName_plain h.name
      have hrender : acc ++ ((Node.empty tag).render ++ rest) =
          acc ++ 60 :: (tag ++ [47] ++ 62 :: rest) := by
        simp [Node.render]
      have hself : ((Dom.putText ⟨nodes, iRoot, f :: fs⟩ acc).bind
          fun dom => dom.handleTag .tagSelf tag) =
            some ⟨nodes, iRoot, ⟨f.tag, addText f.text acc,
              f.children ++ (Node.empty tag).tree XMLNode.mk⟩ :: fs⟩ := by
        rw [putText_open, Option.bind_some, handleTag_self, Dom.nodeEnd]
        simp [Dom.nodeStart, Node.tree]
      have hgt' : 62 ∉ tag ++ [47] := by simp [hgt]
      have hff' : 255 ∉ tag ++ [47] := by simp [hff]
      have hgrows : Dom.weight ⟨nodes, iRoot, f :: fs⟩ <
          Dom.weight ⟨nodes, iRoot, ⟨f.tag, bodyText (addText f.text acc) [.empty tag],
            f.children ++ (Node.empty tag).tree XMLNode.mk⟩ :: fs⟩ := by
        simp [bodyText, Node.tree, XMLNode.weights_append, hweight, hlen]
        omega
      rw [hrender]
      cases parsesTo_chunk hgt' hff' (xmlParse1string_self h.name) (by decide) hacc hsz hself
        (fun _ => hgrows) hrest with
      | inr hcrowded => exact Or.inr hcrowded
      | inl hself =>
          obtain ⟨sz₁, hsz₁, hself⟩ := hself
          exact Or.inl ⟨sz₁, addText f.text acc, [], hsz₁, Plain.nil, rfl, hself⟩

theorem parse_nodes {body : List Node} (h : PlainNodes body) (nodes : List XMLNode) (iRoot : Int)
    (f : OpenNode) (fs : List OpenNode) {sz : Nat} (hsz : 256 ≤ sz) {acc : Bytes} (hacc : Plain acc)
    {rest : Bytes} (hrest : rest ≠ []) :
    ParsesInto sz ⟨nodes, iRoot, f :: fs⟩ (acc ++ (renders body ++ rest)) nodes iRoot
      ⟨f.tag, bodyText (addText f.text acc) body, f.children ++ trees XMLNode.mk body⟩ fs rest := by
  match body with
  | [] =>
      left
      refine ⟨sz, f.text, acc, hsz, hacc, rfl, ?_, ?_⟩
      · rw [renders_nil, List.nil_append, trees, List.append_nil]
      · rw [renders_nil, List.nil_append]
  | node :: body =>
      rw [PlainNodes] at h
      have hrest₁ : renders body ++ rest ≠ [] := by simp [hrest]
      have hrender : acc ++ (renders (node :: body) ++ rest) =
          acc ++ (node.render ++ (renders body ++ rest)) := by
        rw [renders_cons, List.append_assoc]
      rw [hrender]
      cases parse_node h.1 nodes iRoot f fs hsz hacc hrest₁ with
      | inr hcrowded =>
          refine Or.inr (hcrowded.mono ?_)
          have hlater := bodyText_length (bodyText (addText f.text acc) [node]) body
          rw [← bodyText_cons] at hlater
          simp only [Dom.weight_open, OpenNode.weight_mk, XMLNode.weights_append, trees]
          omega
      | inl hnode =>
          obtain ⟨sz₁, text₁, acc₁, hsz₁, hacc₁, htext₁, hnode⟩ := hnode
          have htext : addText text₁ acc₁ = bodyText (addText f.text acc) [node] := htext₁
          have hbody := parse_nodes h.2 nodes iRoot
            ⟨f.tag, text₁, f.children ++ node.tree XMLNode.mk⟩ fs hsz₁ hacc₁ hrest
          simp only [htext, ← bodyText_cons, List.append_assoc] at hbody
          rw [trees]
          cases hbody with
          | inr hcrowded => exact Or.inr (hnode.crowded hcrowded)
          | inl hbody =>
              obtain ⟨sz₂, text₂, acc₂, hsz₂, hacc₂, htext₂, hbody⟩ := hbody
              exact Or.inl ⟨sz₂, text₂, acc₂, hsz₂, hacc₂, htext₂, hnode.trans hbody⟩

end

/-! ## Documents -/

theorem isSpace_ne {s : Bytes} (h : s.all isSpace = true) {b : Byte} (hb : isSpace b = false) :
    b ∉ s := by
  intro hmem
  have hspace := List.all_eq_true.mp h b hmem
  rw [hb] at hspace
  cases hspace

/-- They are one line, or too long for it. -/
theorem readLineLoop_spaces {s : Bytes} (hs : s.all isSpace = true) (line : Bytes) :
    (readLineLoop line s).1 = false ∨ readLineLoop line s = (true, line ++ s, []) := by
  induction s generalizing line with
  | nil => simp [readLineLoop]
  | cons c s ih =>
      have hff : c ≠ 255 := fun heq =>
        isSpace_ne hs (b := 255) (by decide) (heq ▸ List.mem_cons_self)
      have hgt : c ≠ 62 := fun heq =>
        isSpace_ne hs (b := 62) (by decide) (heq ▸ List.mem_cons_self)
      rw [List.all_cons, Bool.and_eq_true] at hs
      rw [readLineLoop, if_neg hff, if_neg hgt]
      split
      · exact Or.inl rfl
      · have hrest := ih hs.2 (line ++ [c])
        rwa [List.append_assoc, List.singleton_append] at hrest

theorem parseDataSax_spaces {sz : Nat} (hsz : 256 ≤ sz) (dom : Dom) {s : Bytes}
    (hs : s.all isSpace = true) :
    parseDataSax sz dom s = .ok (some dom) ∧ roomy sz 0 true false s = true := by
  cases s with
  | nil =>
      refine ⟨?_, rfl⟩
      rw [parseDataSax]
      rfl
  | cons c s =>
      have hff : c ≠ 255 := fun heq =>
        isSpace_ne hs (b := 255) (by decide) (heq ▸ List.mem_cons_self)
      have hgt : 62 ∉ s := fun hmem =>
        isSpace_ne hs (b := 62) (by decide) (List.mem_cons_of_mem c hmem)
      have hline : ∃ r, readLineAlloc sz [] (c :: s) = .ok r ∧
          (r.ok = false ∨ r.line.all isSpace = true) := by
        have htail : s.all isSpace = true := by
          rw [List.all_cons, Bool.and_eq_true] at hs
          exact hs.2
        refine ⟨_, by rw [readLineAlloc, if_neg hff, if_neg (by simp; omega)], ?_⟩
        refine (readLineLoop_spaces htail ([] ++ [c])).imp_right fun hloop => ?_
        rw [hloop]
        exact hs
      obtain ⟨r, hread, hlast⟩ := hline
      constructor
      · rw [parseDataSax_eq, hread]
        exact if_pos hlast
      · have happend := roomy_append hgt sz 1 (decide (c = 60)) []
        rw [List.append_nil] at happend
        rw [roomy_fresh, happend]
        rfl

theorem putText_spaces (nodes : List XMLNode) {acc : Bytes} (h : acc.all isSpace = true) :
    Dom.putText ⟨nodes, -1, []⟩ acc = some ⟨nodes, -1, []⟩ := by
  have hdrop : acc.dropWhile isSpace = [] :=
    List.dropWhile_eq_nil_iff.mpr (List.all_eq_true.mp h)
  rw [Dom.putText, Dom.nodeText]
  simp [hdrop]

/-- The parser on a root element behind what was read before: it gives the tree, and less where a
line has no room. -/
theorem parse_root {tag : Bytes} {body : List Node} (h : PlainNode (.element tag body))
    (nodes : List XMLNode) {sz : Nat} (hsz : 256 ≤ sz) {acc : Bytes} (hacc : Plain acc)
    (hspace : acc.all isSpace = true) {tail : Bytes} (htail : tail.all isSpace = true) :
    (roomy sz 0 true false (acc ++ ((Node.element tag body).render ++ tail)) = true ∧
      parseDataSax sz ⟨nodes, -1, []⟩ (acc ++ ((Node.element tag body).render ++ tail)) =
        .ok (some ⟨nodes ++ [.mk tag (bodyText none body) (trees XMLNode.mk body)],
          nodes.length, []⟩)) ∨
      Crowded (XMLNode.weights (nodes ++ [.mk tag (bodyText none body) (trees XMLNode.mk body)]))
        sz ⟨nodes, -1, []⟩ (acc ++ ((Node.element tag body).render ++ tail)) := by
  rw [PlainNode] at h
  obtain ⟨hgt, hff⟩ := isName_plain h.1.name
  have hstart : ((Dom.putText ⟨nodes, -1, []⟩ acc).bind fun dom => dom.handleTag .tagFather tag) =
      some ⟨nodes, nodes.length, [⟨tag, none, []⟩]⟩ := by
    rw [putText_spaces nodes hspace]
    rfl
  have hend : 60 :: (47 :: tag ++ 62 :: tail) ≠ [] := by simp
  have hgrows : Dom.weight ⟨nodes, -1, []⟩ < Dom.weight ⟨nodes, nodes.length,
      [⟨tag, bodyText none body, trees XMLNode.mk body⟩]⟩ := by
    rw [Dom.weight_open, OpenNode.weight_mk, Dom.weight]
    simp only [List.map_nil, List.sum_nil]
    omega
  have hsame : XMLNode.weights (nodes ++ [.mk tag (bodyText none body) (trees XMLNode.mk body)]) =
      Dom.weight ⟨nodes, nodes.length, [⟨tag, bodyText none body, trees XMLNode.mk body⟩]⟩ := by
    simp [Dom.weight, XMLNode.weights_append]
  rw [render_element_append, hsame]
  cases parse_opened h.1 hacc hsz hstart hgrows hend fun hsz => parse_nodes h.2 nodes nodes.length
    ⟨tag, none, []⟩ [] hsz Plain.nil hend with
  | inr hcrowded => exact Or.inr hcrowded
  | inl hbody =>
      obtain ⟨sz₁, text, acc₁, hsz₁, hacc₁, htext, hbody⟩ := hbody
      have hgt' : 62 ∉ 47 :: tag := by simp [hgt]
      have hff' : 255 ∉ 47 :: tag := by simp [hff]
      have hclose : ((Dom.putText
          ⟨nodes, nodes.length, [⟨tag, text, trees XMLNode.mk body⟩]⟩ acc₁).bind
            fun dom => dom.handleTag .tagEnd tag) =
          some ⟨nodes ++ [.mk tag (bodyText none body) (trees XMLNode.mk body)],
            nodes.length, []⟩ := handleTag_closeRoot nodes nodes.length htext
      cases parseDataSax_chunk hgt' hff' (xmlParse1string_close h.1.name) (by decide) hacc₁ hsz₁
        (weight_close nodes nodes.length htext [] h.1) tail with
      | inr hcrowded => exact Or.inr (hbody.crowded ⟨hcrowded.1, hcrowded.2⟩)
      | inl hlast =>
          obtain ⟨sz₂, hsz₂, hparse, hroom⟩ := hlast
          obtain ⟨hspaces, hroomy⟩ := parseDataSax_spaces hsz₂
            ⟨nodes ++ [.mk tag (bodyText none body) (trees XMLNode.mk body)], nodes.length, []⟩
            htail
          left
          rw [hbody.parse, hbody.room, hroom, hroomy, hparse, hclose]
          simp only [hspaces, ite_self, and_self]

end STRos
