import STRos.Lib.Tags
import STRos.Rpc.Roots

/-! # The parser on texts of tags

A text of tags, whether they match or not, is read piece by piece, and what is left behind the
last tag decides how the parser comes to an end. Only spaces are let pass there: at a text it
asks for the next character for ever, and a tag without its end is an error.
-/

namespace STRos

open CString Markup

/-! ## Tags -/

/-- The type of a tag and the name of its node. -/
def readAs : Tag → TagType × Bytes
  | .opening name => (.tagFather, name)
  | .closing name => (.tagEnd, name)
  | .empty name => (.tagSelf, name)
  | .aside .instruction s => (.tagInstr, s)
  | .aside .comment s => (.tagComment, s)
  | .aside .cdata s => (.tagCdata, s)

/-- The entry of `spec` for what is not an element. -/
def specialTag : Aside → SpecialTag
  | .instruction => ⟨.tagInstr, str "<?", str "?>"⟩
  | .comment => ⟨.tagComment, str "<!--", str "-->"⟩
  | .cdata => ⟨.tagCdata, str "<![CDATA[", str "]]>"⟩

/-- What stands between both ends of a special tag is read as it is. -/
theorem parseSpecialTag_whole (tag : SpecialTag) (s : Bytes) :
    parseSpecialTag (tag.start ++ (s ++ tag.finish)) tag = .ok (some (tag.tagType, s)) := by
  have hstart : tag.start.isPrefixOf (tag.start ++ (s ++ tag.finish)) = true :=
    List.isPrefixOf_iff_prefix.mpr (List.prefix_append _ _)
  have hfinish : tag.finish.isSuffixOf (tag.start ++ (s ++ tag.finish)) = true := by
    rw [List.isSuffixOf_iff_suffix, ← List.append_assoc]
    exact List.suffix_append _ _
  have hlen : (tag.start ++ (s ++ tag.finish)).length - tag.start.length - tag.finish.length =
      s.length := by
    simp only [List.length_append]
    omega
  rw [parseSpecialTag, hstart, hfinish, if_neg (by simp), if_neg (by simp),
    if_neg (by simp only [List.length_append]; omega),
    if_neg (by simp only [List.length_append]; omega), hlen, List.drop_left, List.take_left]

theorem parseSpecialTag_other {tag : SpecialTag} {s : Bytes}
    (h : tag.start.isPrefixOf s = false) : parseSpecialTag s tag = .ok none := by
  rw [parseSpecialTag, h]
  exact if_pos (by simp)

theorem parseSpecialTags_aside (kind : Aside) (s : Bytes) :
    parseSpecialTags ((specialTag kind).start ++ (s ++ (specialTag kind).finish)) spec =
      .ok (some ((specialTag kind).tagType, s)) := by
  have hwhole := parseSpecialTag_whole (specialTag kind) s
  cases kind with
  | instruction =>
      rw [spec, parseSpecialTags]
      simp only [specialTag] at hwhole ⊢
      rw [hwhole]
      rfl
  | comment =>
      have hinstr : (str "<?").isPrefixOf (str "<!--" ++ (s ++ str "-->")) = false := rfl
      simp only [specialTag] at hwhole ⊢
      rw [spec, parseSpecialTags, parseSpecialTag_other hinstr, parseSpecialTags, hwhole]
      rfl
  | cdata =>
      have hinstr : (str "<?").isPrefixOf (str "<![CDATA[" ++ (s ++ str "]]>")) = false := rfl
      have hcomment : (str "<!--").isPrefixOf (str "<![CDATA[" ++ (s ++ str "]]>")) = false := rfl
      simp only [specialTag] at hwhole ⊢
      rw [spec, parseSpecialTags, parseSpecialTag_other hinstr, parseSpecialTags,
        parseSpecialTag_other hcomment, parseSpecialTags, hwhole]
      rfl

theorem xmlParse1string_aside (kind : Aside) (s : Bytes) (room : Bool) :
    xmlParse1string room (60 :: ((Tag.aside kind s).inner ++ [62])) =
      .ok ((specialTag kind).tagType, s) := by
  have hline : 60 :: ((Tag.aside kind s).inner ++ [62]) =
      (specialTag kind).start ++ (s ++ (specialTag kind).finish) := by
    cases kind <;> simp [Tag.inner, Aside.start, Aside.finish, specialTag, str, ch]
  have hlast : (60 :: ((Tag.aside kind s).inner ++ [62])).getLast? = some 62 := by
    rw [← List.cons_append, List.getLast?_concat]
  rw [xmlParse1string, hlast, hline, parseSpecialTags_aside]
  cases kind <;> rfl

variable {legal : Byte → Prop}

theorem xmlParse1string_tag {tag : Tag} (h : tag.Legal legal) (room : Bool) :
    xmlParse1string room (60 :: (tag.inner ++ [62])) = .ok ((readAs tag).1, (readAs tag).2) := by
  cases tag with
  | opening name => exact xmlParse1string_open h room
  | closing name => exact xmlParse1string_close h room
  | empty name => exact xmlParse1string_self h room
  | aside kind s =>
      rw [xmlParse1string_aside]
      cases kind <;> rfl

theorem readAs_complete (tag : Tag) : (readAs tag).1 ≠ .tagPartial := by
  cases tag with
  | aside kind s => cases kind <;> simp [readAs]
  | _ => simp [readAs]

/-! ## One turn for each piece -/

def Dom.piece (dom : Dom) (p : Piece) : Option Dom :=
  (dom.putText p.text).bind fun dom => dom.handleTag (readAs p.tag).1 (readAs p.tag).2

def Dom.pieces (dom : Dom) : List Piece → Option Dom
  | [] => some dom
  | p :: ps => (dom.piece p).bind fun dom => dom.pieces ps

theorem Dom.pieces_append (dom : Dom) (ps qs : List Piece) :
    dom.pieces (ps ++ qs) = (dom.pieces ps).bind fun dom => dom.pieces qs := by
  induction ps generalizing dom with
  | nil => rfl
  | cons p ps ih =>
      rw [List.cons_append, Dom.pieces, Dom.pieces]
      cases dom.piece p with
      | none => rfl
      | some dom => exact ih dom

theorem parseDataSax_nil (sz : Nat) (dom : Dom) : parseDataSax sz dom [] = .ok (some dom) := by
  rw [parseDataSax]
  rfl

/-- The bytes of a text the parser reads up to its end. -/
abbrev kept : Byte → Prop := (· ≠ 255)

theorem plain_of_untagged {s : Bytes} (h : Untagged kept s) : Plain s :=
  ⟨fun hmem => (h 0 hmem).2.1 rfl, fun hmem => (h 60 hmem).2.2.1 rfl,
    fun hmem => (h 255 hmem).1 rfl⟩

theorem parseDataSax_piece {p : Piece} (hp : p.Legal kept) (hfits : p.render.length < 2147483392)
    {sz : Nat} (hsz : 256 ≤ sz) (dom : Dom) (rest : Bytes) :
    ∃ sz', 256 ≤ sz' ∧
      parseDataSax sz dom (p.render ++ rest) =
        match dom.piece p with
        | none => .ok none
        | some dom => parseDataSax sz' dom rest := by
  have hend : 255 ∉ p.tag.inner :=
    hp.tag.not_mem (by decide) (fun hb => hb.1 rfl) (by decide)
  have hline : p.text.length + p.tag.inner.length + 2 < 2147483392 := by
    simp only [Piece.render, List.length_append, List.length_cons, List.length_nil] at hfits
    omega
  obtain ⟨sz', hsz', hparse, -⟩ := parseDataSax_short hp.tag.not_mem_gt hend
    (xmlParse1string_tag hp.tag) (readAs_complete p.tag) (plain_of_untagged hp.text)
    hp.text.not_mem_gt hsz dom hline rest
  have hrender : p.render ++ rest = p.text ++ 60 :: (p.tag.inner ++ 62 :: rest) := by
    simp [Piece.render]
  refine ⟨sz', hsz', ?_⟩
  rw [hrender, hparse]
  cases hdom : dom.piece p with
  | none =>
      rw [Dom.piece] at hdom
      simp only [hdom]
  | some dom' =>
      rw [Dom.piece] at hdom
      simp only [hdom]
      by_cases hrest : rest = []
      · simp only [hrest, if_true, parseDataSax_nil]
      · simp only [hrest, if_false]

theorem parseDataSax_pieces {ps : List Piece} (hps : LegalPieces kept ps)
    (hfits : ∀ p ∈ ps, p.render.length < 2147483392) {sz : Nat} (hsz : 256 ≤ sz) (dom : Dom)
    (rest : Bytes) :
    ∃ sz', 256 ≤ sz' ∧
      parseDataSax sz dom (renderPieces ps ++ rest) =
        match dom.pieces ps with
        | none => .ok none
        | some dom => parseDataSax sz' dom rest := by
  induction ps generalizing sz dom with
  | nil => exact ⟨sz, hsz, rfl⟩
  | cons p ps ih =>
      obtain ⟨hp, hps⟩ := legalPieces_cons.mp hps
      obtain ⟨hfit, hfits⟩ := List.forall_mem_cons.mp hfits
      obtain ⟨sz₁, hsz₁, hpiece⟩ := parseDataSax_piece hp hfit hsz dom (renderPieces ps ++ rest)
      rw [renderPieces_cons, List.append_assoc, hpiece, Dom.pieces]
      cases dom.piece p with
      | none => exact ⟨sz, hsz, rfl⟩
      | some dom => exact ih hps hfits hsz₁ dom

/-! ## Behind the last tag -/

theorem readLineLoop_end {s : Bytes} (hgt : 62 ∉ s) (hend : 255 ∉ s) {line : Bytes}
    (hlen : line.length + s.length < 2147483392) :
    readLineLoop line s = (true, line ++ s, []) := by
  induction s generalizing line with
  | nil => simp [readLineLoop]
  | cons c s ih =>
      simp only [List.mem_cons, not_or] at hgt hend
      rw [List.length_cons] at hlen
      have hnext : (line ++ [c]).length + s.length < 2147483392 := by
        rw [List.length_append, List.length_singleton]
        omega
      rw [readLineLoop, if_neg (Ne.symm hend.1), if_neg (by omega), if_neg (Ne.symm hgt.1),
        ih hgt.2 hend.2 hnext, List.append_assoc]
      rfl

/-- What does not end with a `>` is no tag. -/
theorem xmlParse1string_cutOff {s : Bytes} (h : s.getLast? ≠ some 62) (room : Bool) :
    xmlParse1string room s = .ok (.tagError, []) := by
  rw [xmlParse1string, if_pos (Or.inr h)]
  rfl

theorem parseDataSax_last {t : Bytes} (hgt : 62 ∉ t) (hend : 255 ∉ t)
    (hlen : t.length < 2147483392) {sz : Nat} (hsz : 256 ≤ sz) (dom : Dom) :
    parseDataSax sz dom t =
      if 60 ∈ t then .ok none
      else if t.all isSpace then .ok (some dom)
      else .error .diverges := by
  cases t with
  | nil => exact parseDataSax_nil sz dom
  | cons c t =>
      have hff : c ≠ 255 := fun heq => hend (heq ▸ List.mem_cons_self)
      have hread : readLineAlloc sz [] (c :: t) =
          .ok ⟨true, c :: t, lineBlock sz (c :: t).length, []⟩ := by
        have hloop : ([] ++ [c] : Bytes).length + t.length < 2147483392 := by
          rw [List.nil_append, List.length_singleton, Nat.add_comm]
          exact hlen
        rw [readLineAlloc, if_neg hff, if_neg (by simp; omega),
          readLineLoop_end (fun hmem => hgt (List.mem_cons_of_mem c hmem))
            (fun hmem => hend (List.mem_cons_of_mem c hmem)) hloop]
        rfl
      by_cases hlt : 60 ∈ c :: t
      · have hblank : (c :: t).all isSpace = false := by
          rw [List.all_eq_false]
          exact ⟨60, hlt, by decide⟩
        have hlast : ((c :: t).dropWhile (· ≠ 60)).getLast? ≠ some 62 := fun hlast =>
          hgt ((List.dropWhile_suffix _).subset (List.mem_of_getLast? hlast))
        -- Whatever becomes of the text in front of it, the tag is an error.
        rw [parseDataSax_line hread rfl hblank (readText_of_mem hlt _ _)
          (readTag_whole (xmlParse1string_cutOff hlast _) (by decide)), if_pos hlt]
        cases dom.handleText (c :: t) <;> rfl
      · rw [if_neg hlt]
        by_cases hblank : (c :: t).all isSpace = true
        · rw [parseDataSax_eq, hread, if_pos hblank]
          exact if_pos (Or.inr hblank)
        · rw [if_neg hblank]
          -- The loop for a `<` gets the same line again at the end of the text.
          have hline : ¬ (true = false ∨ (c :: t).all isSpace = true) := by simpa using hblank
          rw [parseDataSax_eq, hread]
          simp only [if_neg hline]
          rw [readText, if_neg hlt, dif_pos rfl]

/-! ## Open elements -/

def Dom.openNames (dom : Dom) : List Bytes := dom.current.map (·.tag)

/-- Outside of all nodes one character behind spaces is let pass. -/
def letPass (s : Bytes) : Bool := (s.dropWhile isSpace).length ≤ 1

theorem Dom.openNames_eq_nil {dom : Dom} : dom.openNames = [] ↔ dom.current = [] :=
  List.map_eq_nil_iff

theorem putText_openNames (dom : Dom) (text : Bytes) :
    (dom.putText text).map Dom.openNames =
      if dom.openNames = [] ∧ letPass text = false then none else some dom.openNames := by
  rw [Dom.putText]
  by_cases htext : text = []
  · have hpass : letPass [] = true := rfl
    rw [if_pos htext, htext, hpass, if_neg (by simp), Option.map_some]
  · obtain ⟨nodes, iRoot, current⟩ := dom
    rw [if_neg htext, Dom.nodeText]
    cases current with
    | nil =>
        by_cases hpass : (text.dropWhile isSpace).length ≤ 1
        · simp [letPass, hpass, Dom.openNames]
        · simp [letPass, hpass, Dom.openNames]
    | cons f fs => simp [Dom.openNames]

/-- An end is let pass exactly when it is that of the innermost node. -/
theorem handleTag_openNames (dom : Dom) (tag : Tag) :
    (dom.handleTag (readAs tag).1 (readAs tag).2).map Dom.openNames = tag.behind dom.openNames := by
  obtain ⟨nodes, iRoot, current⟩ := dom
  have hleaf : ∀ (tagType : TagType) (name : Bytes),
      ((Dom.nodeStart ⟨nodes, iRoot, current⟩ tagType name).nodeEnd name).map Dom.openNames =
        some (current.map (·.tag)) := by
    intro tagType name
    cases current <;> simp [Dom.nodeStart, Dom.nodeEnd, Dom.openNames]
  cases tag with
  | opening name => rfl
  | closing name =>
      cases current with
      | nil => rfl
      | cons f fs =>
          by_cases hname : f.tag = name
          · cases fs <;> simp [readAs, Dom.handleTag, Dom.nodeEnd, Dom.openNames, Tag.behind, hname]
          · simp [readAs, Dom.handleTag, Dom.nodeEnd, Dom.openNames, Tag.behind, hname]
  | empty name => exact hleaf _ name
  | aside kind s => cases kind <;> exact hleaf _ s

theorem Dom.piece_openNames (dom : Dom) (p : Piece) :
    (dom.piece p).map Dom.openNames = p.behind letPass dom.openNames := by
  have hput := putText_openNames dom p.text
  rw [Dom.piece, Piece.behind]
  cases hdom : dom.putText p.text with
  | none =>
      rw [hdom] at hput
      split at hput
      · rw [if_pos ‹_›]
        rfl
      · cases hput
  | some dom' =>
      rw [hdom] at hput
      split at hput
      · cases hput
      · rw [if_neg ‹_›, Option.bind_some, handleTag_openNames, Option.some.inj hput]

/-- The callbacks go on as long as the tags match, and know the open elements. -/
theorem Dom.pieces_openNames (dom : Dom) (ps : List Piece) :
    (dom.pieces ps).map Dom.openNames = openBehind letPass dom.openNames ps := by
  induction ps generalizing dom with
  | nil => rfl
  | cons p ps ih =>
      rw [Dom.pieces, openBehind, ← Dom.piece_openNames]
      cases dom.piece p with
      | none => rfl
      | some dom => exact ih dom

/-- As the parser begins no node is open. -/
theorem pieces_openNames_start (ps : List Piece) :
    (Dom.pieces ⟨[], -1, []⟩ ps).map Dom.openNames = openBehind letPass [] ps :=
  Dom.pieces_openNames ⟨[], -1, []⟩ ps

/-! ## The document -/

theorem piece_end (nodes : List XMLNode) (iRoot : Int) (f : OpenNode) (fs : List OpenNode) :
    ∃ dom, Dom.piece ⟨nodes, iRoot, f :: fs⟩ ⟨[], .closing f.tag⟩ = some dom ∧
      dom.openNames = fs.map (·.tag) ∧ dom.doc = Dom.doc ⟨nodes, iRoot, f :: fs⟩ := by
  cases fs with
  | nil =>
      refine ⟨⟨nodes ++ [.mk f.tag f.text f.children], iRoot, []⟩, ?_, rfl, ?_⟩
      · simp [Dom.piece, Dom.putText, readAs, Dom.handleTag, Dom.nodeEnd]
      · simp [Dom.doc, hangOpen]
  | cons g gs =>
      refine ⟨⟨nodes, iRoot,
        { g with children := g.children ++ [.mk f.tag f.text f.children] } :: gs⟩, ?_, rfl, ?_⟩
      · simp [Dom.piece, Dom.putText, readAs, Dom.handleTag, Dom.nodeEnd]
      · simp [Dom.doc, hangOpen]

theorem Dom.pieces_endTags (dom : Dom) :
    ∃ dom', dom.pieces (endTags dom.openNames) = some dom' ∧ dom'.doc = dom.doc := by
  induction hnames : dom.openNames generalizing dom with
  | nil => exact ⟨dom, rfl, rfl⟩
  | cons name names ih =>
      obtain ⟨nodes, iRoot, current⟩ := dom
      cases current with
      | nil => cases hnames
      | cons f fs =>
          obtain ⟨rfl, rfl⟩ := List.cons.inj hnames
          obtain ⟨dom₁, hpiece, hopen, hdoc₁⟩ := piece_end nodes iRoot f fs
          obtain ⟨dom₂, hpieces, hdoc₂⟩ := ih dom₁ hopen
          refine ⟨dom₂, ?_, hdoc₂.trans hdoc₁⟩
          rw [endTags_cons, Dom.pieces, hpiece]
          exact hpieces

/-- There is a root from the first element on. -/
def Dom.Rooted (dom : Dom) : Prop := dom.openNames = [] ∨ 0 ≤ dom.iRoot

theorem putText_root {dom dom' : Dom} {text : Bytes} (h : dom.putText text = some dom') :
    dom'.iRoot = dom.iRoot ∧ dom'.openNames = dom.openNames := by
  have hnames := putText_openNames dom text
  rw [h] at hnames
  refine ⟨?_, by grind⟩
  rw [Dom.putText, Dom.nodeText] at h
  grind

theorem nodeEnd_root {dom dom' : Dom} {name : Bytes} (h : dom.nodeEnd name = some dom') :
    dom'.iRoot = dom.iRoot := by
  rw [Dom.nodeEnd] at h
  grind

/-- The first element begins outside of all nodes, and is the root. -/
theorem nodeStart_root {dom : Dom} (hdom : dom.Rooted) {tagType : TagType}
    (htype : tagType = .tagFather ∨ tagType = .tagSelf) (name : Bytes) :
    0 ≤ (dom.nodeStart tagType name).iRoot := by
  rw [Dom.Rooted, Dom.openNames_eq_nil] at hdom
  rw [Dom.nodeStart]
  simp only [htype, and_true, List.isEmpty_iff]
  split
  · exact Int.natCast_nonneg _
  · rename_i hnew
    cases hdom with
    | inl hnil => exact Int.not_lt.mp fun hneg => hnew ⟨hnil, hneg⟩
    | inr hpos => exact hpos

theorem handleTag_root {dom dom' : Dom} {tag : Tag} (hdom : dom.Rooted)
    (h : dom.handleTag (readAs tag).1 (readAs tag).2 = some dom') :
    dom'.Rooted ∧ (0 ≤ dom'.iRoot ↔ 0 ≤ dom.iRoot ∨ tag.isStart = true) := by
  have hnames := handleTag_openNames dom tag
  rw [h, Option.map_some] at hnames
  cases tag with
  | opening name =>
      have hpos : 0 ≤ dom'.iRoot := Option.some.inj h ▸ nodeStart_root hdom (Or.inl rfl) name
      exact ⟨Or.inr hpos, by simp [hpos, Tag.isStart]⟩
  | closing name =>
      -- There is a node to end, so an element has begun.
      have hpos : 0 ≤ dom.iRoot := by
        cases hdom with
        | inl hnil =>
            rw [hnil] at hnames
            cases hnames
        | inr hpos => exact hpos
      have hroot : dom'.iRoot = dom.iRoot := nodeEnd_root h
      rw [Dom.Rooted, hroot]
      exact ⟨Or.inr hpos, by simp [hpos]⟩
  | empty name =>
      have hroot : dom'.iRoot = (dom.nodeStart .tagSelf name).iRoot := nodeEnd_root h
      have hpos : 0 ≤ dom'.iRoot := hroot ▸ nodeStart_root hdom (Or.inr rfl) name
      exact ⟨Or.inr hpos, by simp [hpos, Tag.isStart]⟩
  | aside kind s =>
      have hend : (dom.nodeStart (readAs (.aside kind s)).1 s).nodeEnd s = some dom' := by
        cases kind <;> exact h
      have hroot : dom'.iRoot = dom.iRoot :=
        (nodeEnd_root hend).trans (by cases kind <;> simp [Dom.nodeStart, readAs])
      rw [Dom.Rooted, hroot, Option.some.inj hnames]
      exact ⟨hdom, by simp [Tag.isStart]⟩

/-- A document has a root exactly when an element begins in it. -/
theorem Dom.pieces_root {dom dom' : Dom} {ps : List Piece} (hdom : dom.Rooted)
    (h : dom.pieces ps = some dom') :
    0 ≤ dom'.iRoot ↔ 0 ≤ dom.iRoot ∨ ∃ p ∈ ps, p.tag.isStart = true := by
  induction ps generalizing dom with
  | nil =>
      cases h
      simp
  | cons p ps ih =>
      obtain ⟨dom₁, hpiece, hpieces⟩ := Option.bind_eq_some_iff.mp h
      obtain ⟨dom₂, hput, htag⟩ := Option.bind_eq_some_iff.mp hpiece
      obtain ⟨hroot, hnames⟩ := putText_root hput
      have hdom₂ : dom₂.Rooted := by
        rw [Dom.Rooted, hroot, hnames]
        exact hdom
      obtain ⟨hdom₁, htag⟩ := handleTag_root hdom₂ htag
      rw [ih hdom₁ hpieces, htag, hroot, List.exists_mem_cons_iff, or_assoc]

/-! ## The whole parser -/

/-- What is left of a text behind its last tag. -/
structure IsRemainder (t : Bytes) : Prop where
  nulFree : NulFree t
  noEnd : 62 ∉ t
  kept : 255 ∉ t

theorem isRemainder_nil : IsRemainder [] := ⟨NulFree.nil, by simp, by simp⟩

/-- Each piece and what is left behind them are lines that `read_line_alloc` can hold. -/
structure FitLines (ps : List Piece) (t : Bytes) : Prop where
  pieces : ∀ p ∈ ps, p.render.length < 2147483392
  remainder : t.length < 2147483392

theorem fitLines_of_length {ps : List Piece} {t : Bytes}
    (h : (renderPieces ps ++ t).length < 2147483392) : FitLines ps t := by
  rw [List.length_append] at h
  refine ⟨fun p hp => ?_, by omega⟩
  have hle := render_length_le hp
  omega

/-- The end of an element is one byte longer than its start. -/
theorem fitLines_endTags {ps : List Piece} {names : List Bytes}
    (h : openBehind letPass [] ps = some names) (hlen : (renderPieces ps).length < 2147483391) :
    FitLines (ps ++ endTags names) [] := by
  have hnames : ∀ name ∈ names, name.length + 3 < 2147483392 := by
    refine openBehind_forall (fun text name hmem => ?_) (by simp) h
    have hle := render_length_le hmem
    simp only [Piece.render, Tag.inner, List.length_append, List.length_cons,
      List.length_nil] at hle
    omega
  refine ⟨List.forall_mem_append.mpr ⟨fun p hp => ?_, fun p hp => ?_⟩, by simp⟩
  · have hle := render_length_le hp
    omega
  · obtain ⟨name, hname, rfl⟩ := List.mem_map.mp hp
    have hend := hnames name hname
    simpa [Piece.render, Tag.inner] using hend

section Parser

variable {ps : List Piece} (hps : LegalPieces kept ps)

include hps

theorem parse_pieces {t : Bytes} (ht : IsRemainder t) (hfits : FitLines ps t) :
    xmlDocParseBufferDom (renderPieces ps ++ t) =
      match Dom.pieces ⟨[], -1, []⟩ ps with
      | none => .ok (some ⟨[], -1⟩)
      | some dom =>
          if 60 ∈ t then .ok (some ⟨[], -1⟩)
          else if t.all isSpace then .ok (some dom.doc)
          else .error .diverges := by
  obtain ⟨sz, hsz, hparse⟩ :=
    parseDataSax_pieces hps hfits.pieces (Nat.le_refl 256) ⟨[], -1, []⟩ t
  rw [xmlDocParseBufferDom, cstr_of_nulFree (nulFree_append.mpr ⟨hps.nulFree, ht.nulFree⟩), hparse]
  cases Dom.pieces ⟨[], -1, []⟩ ps with
  | none => rfl
  | some dom =>
      simp only [parseDataSax_last ht.noEnd ht.kept hfits.remainder hsz]
      by_cases hlt : 60 ∈ t
      · simp only [if_pos hlt]
      · by_cases hblank : t.all isSpace = true
        · simp only [if_neg hlt, if_pos hblank]
        · simp only [if_neg hlt, if_neg hblank]

theorem parse_mismatched (h : openBehind letPass [] ps = none) {t : Bytes} (ht : IsRemainder t)
    (hfits : FitLines ps t) :
    xmlDocParseBufferDom (renderPieces ps ++ t) = .ok (some ⟨[], -1⟩) := by
  have hnames := pieces_openNames_start ps
  rw [h, Option.map_eq_none_iff] at hnames
  rw [parse_pieces hps ht hfits, hnames]

variable {names : List Bytes} (h : openBehind letPass [] ps = some names)

include h

/-- The text with the ends that are still to come is a text of tags, and gives a document that
has a root exactly when an element begins in it. -/
theorem parse_matched (hclosed : FitLines (ps ++ endTags names) []) :
    ∃ doc, xmlDocParseBufferDom (renderPieces (ps ++ endTags names)) = .ok (some doc) ∧
      ((∃ root, doc.root = .ok root) ↔ ∃ p ∈ ps, p.tag.isStart = true) ∧
      ∀ {t}, IsRemainder t → FitLines ps t →
        xmlDocParseBufferDom (renderPieces ps ++ t) =
          if 60 ∈ t then .ok (some ⟨[], -1⟩)
          else if t.all isSpace then .ok (some doc)
          else .error .diverges := by
  have hnames := pieces_openNames_start ps
  rw [h] at hnames
  obtain ⟨dom, hdom, rfl⟩ := Option.map_eq_some_iff.mp hnames
  obtain ⟨dom', hdom', hdoc⟩ := dom.pieces_endTags
  have hlegal : LegalPieces kept (ps ++ endTags dom.openNames) :=
    legalPieces_append.mpr ⟨hps, legalPieces_endTags (openBehind_isName hps (by simp) h)⟩
  have hparse : xmlDocParseBufferDom (renderPieces (ps ++ endTags dom.openNames)) =
      .ok (some dom.doc) := by
    have hwhole := parse_pieces hlegal isRemainder_nil hclosed
    rw [List.append_nil, Dom.pieces_append, hdom, Option.bind_some, hdom'] at hwhole
    rw [hwhole, ← hdoc]
    rfl
  refine ⟨dom.doc, hparse, ?_, ?_⟩
  · rw [root_iff hparse]
    have hroot := Dom.pieces_root (Or.inl rfl) hdom
    simpa [Dom.doc] using hroot
  · intro t ht hfits
    rw [parse_pieces hps ht hfits, hdom]

end Parser

/-- What the parser gives for a text of tags, whether they match or not, with what is left
behind them. The ends of elements that are open do not have to come. -/
theorem parse_tagged {ps : List Piece} (hps : LegalPieces kept ps) {t : Bytes}
    (ht : IsRemainder t) (hlen : (renderPieces ps ++ t).length < 2147483391) :
    (xmlDocParseBufferDom (renderPieces ps ++ t) =
      match openBehind letPass [] ps with
      | none => .ok (some ⟨[], -1⟩)
      | some names =>
          if 60 ∈ t then .ok (some ⟨[], -1⟩)
          else if t.all isSpace then xmlDocParseBufferDom (renderPieces (ps ++ endTags names))
          else .error .diverges) ∧
    ∀ names, openBehind letPass [] ps = some names →
      ∃ doc, xmlDocParseBufferDom (renderPieces (ps ++ endTags names)) = .ok (some doc) ∧
        ((∃ root, doc.root = .ok root) ↔ ∃ p ∈ ps, p.tag.isStart = true) := by
  have hfits : FitLines ps t := fitLines_of_length (by omega)
  have htags : (renderPieces ps).length < 2147483391 := by
    rw [List.length_append] at hlen
    omega
  constructor
  · cases h : openBehind letPass [] ps with
    | none => exact parse_mismatched hps h ht hfits
    | some names =>
        obtain ⟨doc, hdoc, -, hparse⟩ := parse_matched hps h (fitLines_endTags h htags)
        simp only [hparse ht hfits, hdoc]
  · intro names h
    obtain ⟨doc, hdoc, hroot, -⟩ := parse_matched hps h (fitLines_endTags h htags)
    exact ⟨doc, hdoc, hroot⟩

/-- Two elements are open at the end, behind which a space is left. -/
theorem parse_tagged_open :
    xmlDocParseBufferDom (str "<a>x<b> ") = xmlDocParseBufferDom (str "<a>x<b></b></a>") ∧
      ∃ doc, xmlDocParseBufferDom (str "<a>x<b></b></a>") = .ok (some doc) ∧
        ∃ root, doc.root = .ok root := by
  have hps : LegalPieces kept [⟨[], .opening (str "a")⟩, ⟨str "x", .opening (str "b")⟩] := by
    decide
  have ht : IsRemainder (str " ") := ⟨by decide, by decide, by decide⟩
  obtain ⟨hparse, hclosed⟩ := parse_tagged hps ht (by decide)
  obtain ⟨doc, hdoc, hroot⟩ := hclosed [str "b", str "a"] rfl
  exact ⟨hparse, doc, hdoc, hroot.mpr ⟨_, List.mem_cons_self, rfl⟩⟩

end STRos
