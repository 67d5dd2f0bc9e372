import STRos.Model.Rpc

/-! # sxmlc.c: from a text to the tree of its nodes

The part of the XML library behind `XMLDoc_parse_buffer_DOM`. Characters are read
up to a `>`; the text in front of the `<` and the tag go to the callbacks that
build the tree. Attributes are gone through and not kept, and there are no tags
registered by the user.
-/

namespace STRos

open CString

/-! ## read_line_alloc -/

/-- The size of the block of a line once it holds `n` characters; it grows by
`MEM_INCR_RLA`. -/
def lineBlock (sz n : Nat) : Nat := if n < sz then sz else (n / 256 + 1) * 256

/-- A line, the size of its block and what is left of the text. `ok` is false where
0 is returned although the line has characters. -/
structure LineRead where
  ok : Bool
  line : Bytes
  sz : Nat
  rest : Bytes

/-- The character 255 is taken for `EOF`. A block of 2147483392 bytes cannot grow, since 256 more
are no `int`. -/
def readLineLoop (line : Bytes) : Bytes → Bool × Bytes × Bytes
  | [] => (true, line, [])
  | c :: buf =>
      if c = 255 then (buf.isEmpty, line, buf)
      else if 2147483392 ≤ line.length + 1 then (false, line ++ [c], buf)
      else if c = 62 then (true, line ++ [c], buf)
      else readLineLoop (line ++ [c]) buf

/-- `read_line_alloc` from the start of a line or behind what it holds, up to a `>`. The
first character is not compared with it, and its place is not looked for in the block. -/
def readLineAlloc (sz : Nat) (line : Bytes) : Bytes → C LineRead
  | [] => .ok ⟨true, line, sz, []⟩
  | c :: buf =>
      if c = 255 then .ok ⟨buf.isEmpty, line, sz, buf⟩
      else if sz ≤ line.length + 1 then .error .outOfBounds
      else
        let (ok, line, rest) := readLineLoop (line ++ [c]) buf
        .ok ⟨ok, line, lineBlock sz line.length, rest⟩

/-! ## XML_parse_1string -/

inductive TagType
  | tagError
  | tagPartial
  | tagEnd
  | tagFather
  | tagSelf
  | tagInstr
  | tagComment
  | tagCdata
  | tagDoctype
  deriving DecidableEq

structure SpecialTag where
  tagType : TagType
  start : Bytes
  finish : Bytes

def spec : List SpecialTag :=
  [⟨.tagInstr, str "<?", str "?>"⟩, ⟨.tagComment, str "<!--", str "-->"⟩,
    ⟨.tagCdata, str "<![CDATA[", str "]]>"⟩]

/-- `_parse_special_tag`; `none` is `TAG_NONE`. When both ends share one character, the length of
the copy is negative; when they share more, there is no block of that size. -/
def parseSpecialTag (s : Bytes) (tag : SpecialTag) : C (Option (TagType × Bytes)) :=
  if ¬ tag.start.isPrefixOf s then .ok none
  else if ¬ tag.finish.isSuffixOf s then .ok (some (.tagPartial, []))
  else if s.length + 1 < tag.start.length + tag.finish.length then .ok none
  else if s.length < tag.start.length + tag.finish.length then .error .negativeLength
  else
    .ok (some (tag.tagType,
      (s.drop tag.start.length).take (s.length - tag.start.length - tag.finish.length)))

def parseSpecialTags (s : Bytes) : List SpecialTag → C (Option (TagType × Bytes))
  | [] => .ok none
  | tag :: tags => do
      match ← parseSpecialTag s tag with
      | some r => return some r
      | none => parseSpecialTags s tags

/-- With a `[` in it, a document type ends at `]>`. -/
def parseDoctype (s : Bytes) : Option (TagType × Bytes) :=
  if ¬ (str "<!DOCTYPE").isPrefixOf s then none
  else if 91 ∉ s.drop 9 then some (.tagDoctype, (s.drop 9).take (s.length - 10))
  else if (str "]>").isSuffixOf s then some (.tagDoctype, (s.drop 9).take (s.length - 11))
  else some (.tagPartial, [])

/-- `XML_parse_attribute` finds the `=` behind the name, or it leaves the attribute as
it was allocated. -/
def attributeNamed (name : Bytes) : Bool :=
  ((name.dropWhile fun c => !isSpace c).dropWhile isSpace).isEmpty

theorem length_dropWhile_le {α : Type} (p : α → Bool) (l : List α) :
    (l.dropWhile p).length ≤ l.length :=
  (List.dropWhile_suffix p).length_le

/-- What ends a value without quotes, and the name of a tag, has not come. -/
def inValue (c : Byte) : Bool := !isSpace c && c ≠ 47 && c ≠ 62

/-- The loop over the attributes, from behind the name of the tag or an attribute on.
`room` tells whether the block goes on behind the terminator of the line. -/
def parseAttributes (room : Bool) (s : Bytes) : C TagType :=
  if _hs : s = [] then .ok .tagError
  else if (s.dropWhile isSpace).head? = some 62 then .ok .tagFather
  else if s.dropWhile isSpace = str "/>" then .ok .tagSelf
  else
    let name := (s.dropWhile isSpace).takeWhile (· ≠ 61)
    match _h : ((s.dropWhile isSpace).dropWhile (· ≠ 61)).tail.dropWhile isSpace with
    | [] => .ok .tagError
    | q :: value =>
        if q = 34 ∨ q = 39 then
          if q ∈ value then
            if attributeNamed name then parseAttributes room (value.dropWhile (· ≠ q)).tail
            else .error .uninitialised
          else if room = false then .error .outOfBounds
          else if attributeNamed name then .ok .tagError
          else .error .uninitialised
        else if attributeNamed name then
          parseAttributes room (value.dropWhile inValue)
        else .error .uninitialised
  termination_by s.length
  decreasing_by
    all_goals
      have h₁ := length_dropWhile_le isSpace s
      have h₂ := length_dropWhile_le (· ≠ 61) (s.dropWhile isSpace)
      have h₃ := length_dropWhile_le isSpace ((s.dropWhile isSpace).dropWhile (· ≠ 61)).tail
      rw [_h, List.length_tail, List.length_cons] at h₃
    · have h₄ := length_dropWhile_le (· ≠ q) value
      rw [List.length_tail]
      omega
    · have h₄ := length_dropWhile_le inValue value
      omega

/-- `XML_parse_1string`: the type of the tag and its name. -/
def xmlParse1string (room : Bool) (s : Bytes) : C (TagType × Bytes) := do
  if s.head? ≠ some 60 ∨ s.getLast? ≠ some 62 then return (.tagError, [])
  match ← parseSpecialTags s spec with
  | some r => return r
  | none =>
      match parseDoctype s with
      | some r => return r
      | none =>
          let tagEnd := (s.drop 1).head? = some 47
          let s := if tagEnd then s.drop 2 else s.drop 1
          let tag := s.takeWhile inValue
          if tagEnd then return (.tagEnd, tag)
          else
            let tagType ← parseAttributes room (s.drop tag.length)
            return (tagType, tag)

/-! ## The DOM callbacks -/

structure OpenNode where
  tag : Bytes
  text : Option Bytes
  children : List XMLNode

/-- `DOM_through_SAX`: the document and `current` with the nodes around it. -/
structure Dom where
  nodes : List XMLNode
  iRoot : Int
  current : List OpenNode

/-- `DOMXMLDoc_node_start` -/
def Dom.nodeStart (dom : Dom) (tagType : TagType) (tag : Bytes) : Dom where
  nodes := dom.nodes
  iRoot := if dom.current.isEmpty ∧ dom.iRoot < 0 ∧ (tagType = .tagFather ∨ tagType = .tagSelf)
    then dom.nodes.length else dom.iRoot
  current := ⟨tag, none, []⟩ :: dom.current

/-- `DOMXMLDoc_node_end`; `none` where a callback stops the parser. -/
def Dom.nodeEnd (dom : Dom) (tag : Bytes) : Option Dom :=
  match dom.current with
  | [] => none
  | f :: fs =>
      if f.tag ≠ tag then none
      else
        match fs with
        | [] => some ⟨dom.nodes ++ [.mk f.tag f.text f.children], dom.iRoot, []⟩
        | g :: gs => some ⟨dom.nodes, dom.iRoot,
            { g with children := g.children ++ [.mk f.tag f.text f.children] } :: gs⟩

/-- `DOMXMLDoc_node_text`; outside of all nodes one character behind spaces is let pass. -/
def Dom.nodeText (dom : Dom) (text : Bytes) : Option Dom :=
  match dom.current with
  | [] => if (text.dropWhile isSpace).length ≤ 1 then some dom else none
  | f :: fs =>
      some { dom with current := { f with text := some (f.text.getD [] ++ text) } :: fs }

/-- The nodes that were begun hang in their places. -/
def hangOpen (child : List XMLNode) : List OpenNode → List XMLNode
  | [] => child
  | f :: fs => hangOpen [.mk f.tag f.text (f.children ++ child)] fs

def Dom.doc (dom : Dom) : XMLDoc := ⟨dom.nodes ++ hangOpen [] dom.current, dom.iRoot⟩

/-! ## _parse_data_SAX -/

theorem readLineLoop_rest (line buf : Bytes) : (readLineLoop line buf).2.2.length ≤ buf.length := by
  induction buf generalizing line with
  | nil => exact Nat.le_refl _
  | cons c buf ih =>
      rw [readLineLoop]
      split
      · exact Nat.le_succ _
      · split
        · exact Nat.le_succ _
        · split
          · exact Nat.le_succ _
          · exact Nat.le_succ_of_le (ih _)

theorem readLineAlloc_rest {sz : Nat} {line buf : Bytes} {r : LineRead} (hbuf : buf ≠ [])
    (h : readLineAlloc sz line buf = .ok r) : r.rest.length < buf.length := by
  cases buf with
  | nil => exact absurd rfl hbuf
  | cons c buf =>
      rw [readLineAlloc] at h
      split at h
      · cases h
        exact Nat.lt_succ_self _
      · split at h
        · cases h
        · cases h
          exact Nat.lt_succ_of_le (readLineLoop_rest _ _)

/-- The loop for a `<`: at the end of the text it reads nothing and goes on. -/
def readText (sz : Nat) (line buf : Bytes) : C (Option LineRead) :=
  if 60 ∈ line then .ok (some ⟨true, line, sz, buf⟩)
  else if _hbuf : buf = [] then .error .diverges
  else
    match _h : readLineAlloc sz line buf with
    | .error e => .error e
    | .ok r => if r.ok then readText r.sz r.line r.rest else .ok none
  termination_by buf.length
  decreasing_by exact readLineAlloc_rest _hbuf _h

/-- A tag with the size of the block of its line and what is left of the text. -/
structure TagLine where
  tagType : TagType
  tag : Bytes
  sz : Nat
  rest : Bytes

/-- The tag of a line, with the loop for the end of a comment, an instruction or `CDATA`. -/
def readTag (sz : Nat) (line buf : Bytes) : C (Option TagLine) :=
  match xmlParse1string (line.length + 1 < sz) (line.dropWhile (· ≠ 60)) with
  | .error e => .error e
  | .ok (tagType, tag) =>
      if tagType ≠ .tagPartial then .ok (some ⟨tagType, tag, sz, buf⟩)
      else if _hbuf : buf = [] then .error .diverges
      else
        match _h : readLineAlloc sz line buf with
        | .error e => .error e
        | .ok r => if r.ok then readTag r.sz r.line r.rest else .ok none
  termination_by buf.length
  decreasing_by exact readLineAlloc_rest _hbuf _h

def Dom.handleTag (dom : Dom) (tagType : TagType) (tag : Bytes) : Option Dom :=
  match tagType with
  | .tagError => none
  | .tagPartial => none
  | .tagEnd => dom.nodeEnd tag
  | .tagFather => some (dom.nodeStart tagType tag)
  | _ => (dom.nodeStart tagType tag).nodeEnd tag

def Dom.handleText (dom : Dom) (line : Bytes) : Option Dom :=
  let text := line.takeWhile (· ≠ 60)
  if text = [] then some dom else dom.nodeText text

theorem readText_rest {sz : Nat} {line buf : Bytes} {r : LineRead}
    (h : readText sz line buf = .ok (some r)) : r.rest.length ≤ buf.length := by
  fun_induction readText sz line buf with
  | case1 sz line buf hmem =>
      cases h
      exact Nat.le_refl _
  | case2 => cases h
  | case3 => cases h
  | case4 sz line buf hmem hbuf r₁ hr₁ hok ih =>
      exact Nat.le_trans (ih h) (Nat.le_of_lt (readLineAlloc_rest hbuf hr₁))
  | case5 => cases h

theorem readTag_rest {sz : Nat} {line buf : Bytes} {t : TagLine}
    (h : readTag sz line buf = .ok (some t)) : t.rest.length ≤ buf.length := by
  fun_induction readTag sz line buf with
  | case1 => cases h
  | case2 =>
      cases h
      exact Nat.le_refl _
  | case3 => cases h
  | case4 => cases h
  | case5 sz line buf tagType tag hparse hpartial hbuf r₁ hr₁ hok ih =>
      exact Nat.le_trans (ih h) (Nat.le_of_lt (readLineAlloc_rest hbuf hr₁))
  | case6 => cases h

/-- `_parse_data_SAX` with the DOM callbacks; `none` where one of them has noted an error. -/
def parseDataSax (sz : Nat) (dom : Dom) (buf : Bytes) : C (Option Dom) :=
  match _h : readLineAlloc sz [] buf with
  | .error e => .error e
  | .ok r =>
      if _hline : r.ok = false ∨ r.line.all isSpace then .ok (some dom)
      else
        match _htext : readText r.sz r.line r.rest with
        | .error e => .error e
        | .ok none => .ok none
        | .ok (some l) =>
            match dom.handleText l.line with
            | none => .ok none
            | some dom =>
                match _htag : readTag l.sz l.line l.rest with
                | .error e => .error e
                | .ok none => .ok none
                | .ok (some t) =>
                    match dom.handleTag t.tagType t.tag with
                    | none => .ok none
                    | some dom =>
                        if t.rest = [] then .ok (some dom) else parseDataSax t.sz dom t.rest
  termination_by buf.length
  decreasing_by
    have hbuf : buf ≠ [] := by
      intro heq
      rw [heq, readLineAlloc] at _h
      cases _h
      exact _hline (Or.inr rfl)
    have h₁ := readLineAlloc_rest hbuf _h
    have h₂ := readText_rest _htext
    have h₃ := readTag_rest _htag
    omega

/-- `XMLDoc_parse_buffer_DOM`: it returns true always, with a document that was freed when
there was an error. -/
def xmlDocParseBufferDom (buffer : Bytes) : C (Option XMLDoc) :=
  match parseDataSax 256 ⟨[], -1, []⟩ (cstr buffer) with
  | .error e => .error e
  | .ok none => .ok (some ⟨[], -1⟩)
  | .ok (some dom) => .ok (some dom.doc)

end STRos
