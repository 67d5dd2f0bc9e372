import STRos.Lib.Markup

/-! # Texts of tags

A text is cut behind each of its tags: a piece is a tag with what stands in front of it.
Whether the tags match is seen from the elements that are open behind each piece, so it
is known of a text that was cut off as well, and the ends that are still to come are known.
-/

namespace Markup

open CString

/-! ## Tags -/

/-- What is not an element. -/
inductive Aside
  /-- `<?s?>` -/
  | instruction
  /-- `<!--s-->` -/
  | comment
  /-- `<![CDATA[s]]>` -/
  | cdata

def Aside.start : Aside → Bytes
  | .instruction => str "?"
  | .comment => str "!--"
  | .cdata => str "![CDATA["

def Aside.finish : Aside → Bytes
  | .instruction => str "?"
  | .comment => str "--"
  | .cdata => str "]]"

inductive Tag
  | opening (name : Bytes)
  | closing (name : Bytes)
  | empty (name : Bytes)
  | aside (kind : Aside) (s : Bytes)

/-- What stands between `<` and `>`. -/
def Tag.inner : Tag → Bytes
  | .opening name => name
  | .closing name => 47 :: name
  | .empty name => name ++ [47]
  | .aside kind s => kind.start ++ (s ++ kind.finish)

def Tag.isStart : Tag → Bool
  | .opening _ => true
  | .empty _ => true
  | _ => false

/-- A tag and the text in front of it. -/
structure Piece where
  text : Bytes
  tag : Tag

def Piece.render (p : Piece) : Bytes := p.text ++ 60 :: (p.tag.inner ++ [62])

def renderPieces (ps : List Piece) : Bytes := ps.flatMap Piece.render

@[simp] theorem renderPieces_nil : renderPieces [] = [] := rfl

@[simp] theorem renderPieces_cons (p : Piece) (ps : List Piece) :
    renderPieces (p :: ps) = p.render ++ renderPieces ps := List.flatMap_cons

@[simp] theorem renderPieces_append (ps qs : List Piece) :
    renderPieces (ps ++ qs) = renderPieces ps ++ renderPieces qs := List.flatMap_append

theorem render_length_le {p : Piece} {ps : List Piece} (h : p ∈ ps) :
    p.render.length ≤ (renderPieces ps).length :=
  (List.sublist_flatten_of_mem (List.mem_map_of_mem h)).length_le

/-! ## Legal pieces -/

section Legal

variable (legal : Byte → Prop)

/-- Bytes from `legal` without a terminator and a character of the markup. -/
def Untagged (s : Bytes) : Prop := ∀ b ∈ s, legal b ∧ b ≠ 0 ∧ b ≠ 60 ∧ b ≠ 62

def Tag.Legal : Tag → Prop
  | .opening name => IsName name
  | .closing name => IsName name
  | .empty name => IsName name
  | .aside _ s => ∀ b ∈ s, legal b ∧ b ≠ 0 ∧ b ≠ 62

structure Piece.Legal (p : Piece) : Prop where
  text : Untagged legal p.text
  tag : p.tag.Legal legal

def LegalPieces (ps : List Piece) : Prop := ∀ p ∈ ps, p.Legal legal

variable [DecidablePred legal]

instance (s : Bytes) : Decidable (Untagged legal s) :=
  List.decidableBAll (fun b => legal b ∧ b ≠ 0 ∧ b ≠ 60 ∧ b ≠ 62) s

instance (tag : Tag) : Decidable (tag.Legal legal) :=
  match tag with
  | .opening name => inferInstanceAs (Decidable (IsName name))
  | .closing name => inferInstanceAs (Decidable (IsName name))
  | .empty name => inferInstanceAs (Decidable (IsName name))
  | .aside _ s => List.decidableBAll (fun b => legal b ∧ b ≠ 0 ∧ b ≠ 62) s

instance (p : Piece) : Decidable (p.Legal legal) :=
  decidable_of_iff (Untagged legal p.text ∧ p.tag.Legal legal)
    ⟨fun h => ⟨h.1, h.2⟩, fun h => ⟨h.text, h.tag⟩⟩

instance (ps : List Piece) : Decidable (LegalPieces legal ps) :=
  List.decidableBAll (Piece.Legal legal) ps

end Legal

section Bytes

variable {legal : Byte → Prop}

theorem Untagged.nil : Untagged legal [] := fun _ hb => nomatch hb

theorem untagged_append {s t : Bytes} :
    Untagged legal (s ++ t) ↔ Untagged legal s ∧ Untagged legal t := by
  simp only [Untagged, List.mem_append]
  grind

theorem Untagged.not_mem_gt {s : Bytes} (h : Untagged legal s) : 62 ∉ s :=
  fun hmem => (h 62 hmem).2.2.2 rfl

theorem IsText.untagged {s : Bytes} (h : IsText legal s) : Untagged legal s :=
  fun b hb => ⟨(h b hb).1, (h b hb).2.1, (h b hb).2.2.1, (h b hb).2.2.2.1⟩

theorem Aside.own {kind : Aside} {b : Byte} (h : b ∈ kind.start ++ kind.finish) :
    b ∈ str "/?!-[]CDATA" := by
  cases kind with
  | _ =>
      simp only [Aside.start, Aside.finish, str, ch, String.reduceToList, List.map,
        List.mem_append, List.mem_cons] at h ⊢
      grind

/-- A byte that a legal text cannot hold, and no tag has of its own. -/
theorem Tag.Legal.not_mem {tag : Tag} (h : tag.Legal legal) {b : Byte}
    (hname : isNameByte b = false) (hb : ¬ (legal b ∧ b ≠ 0 ∧ b ≠ 62))
    (hown : b ∉ str "/?!-[]CDATA") : b ∉ tag.inner := by
  have hslash : b ≠ 47 := fun heq => hown (heq ▸ by decide)
  cases tag with
  | opening name => exact IsName.not_mem h hname
  | closing name => simp [Tag.inner, hslash, IsName.not_mem h hname]
  | empty name => simp [Tag.inner, hslash, IsName.not_mem h hname]
  | aside kind s =>
      have hs : b ∉ s := fun hmem => hb (h b hmem)
      have hstart : b ∉ kind.start := fun hmem => hown (Aside.own (List.mem_append_left _ hmem))
      have hfinish : b ∉ kind.finish := fun hmem => hown (Aside.own (List.mem_append_right _ hmem))
      simp [Tag.inner, hs, hstart, hfinish]

theorem Tag.Legal.not_mem_gt {tag : Tag} (h : tag.Legal legal) : 62 ∉ tag.inner :=
  h.not_mem (by decide) (fun hb => hb.2.2 rfl) (by decide)

theorem Piece.Legal.not_mem {p : Piece} (h : p.Legal legal) {b : Byte}
    (hname : isNameByte b = false) (hb : ¬ (legal b ∧ b ≠ 0)) (hown : b ∉ str "</?!-[]CDATA>") :
    b ∉ p.render := by
  have htext : b ∉ p.text := fun hmem => hb ⟨(h.text b hmem).1, (h.text b hmem).2.1⟩
  have htag : b ∉ p.tag.inner := by
    refine h.tag.not_mem hname (fun hlegal => hb ⟨hlegal.1, hlegal.2.1⟩) fun hmem => hown ?_
    simp only [str, ch, List.map, String.reduceToList, List.mem_cons] at hmem ⊢
    grind
  have hlt : b ≠ 60 := fun heq => hown (heq ▸ by decide)
  have hgt : b ≠ 62 := fun heq => hown (heq ▸ by decide)
  simp [Piece.render, htext, htag, hlt, hgt]

theorem LegalPieces.nil : LegalPieces legal [] := fun _ hp => nomatch hp

theorem legalPieces_cons {p : Piece} {ps : List Piece} :
    LegalPieces legal (p :: ps) ↔ p.Legal legal ∧ LegalPieces legal ps := List.forall_mem_cons

theorem legalPieces_append {ps qs : List Piece} :
    LegalPieces legal (ps ++ qs) ↔ LegalPieces legal ps ∧ LegalPieces legal qs :=
  List.forall_mem_append

theorem LegalPieces.not_mem {ps : List Piece} (h : LegalPieces legal ps) {b : Byte}
    (hname : isNameByte b = false) (hb : ¬ (legal b ∧ b ≠ 0)) (hown : b ∉ str "</?!-[]CDATA>") :
    b ∉ renderPieces ps := by
  intro hmem
  obtain ⟨p, hp, hmem⟩ := List.mem_flatMap.mp hmem
  exact (h p hp).not_mem hname hb hown hmem

theorem LegalPieces.nulFree {ps : List Piece} (h : LegalPieces legal ps) :
    NulFree (renderPieces ps) :=
  h.not_mem (by decide) (fun hb => hb.2 rfl) (by decide)

end Bytes

/-! ## Open elements -/

/-- The open elements behind a tag, innermost first; the end of an element has to be that
of the innermost. -/
def Tag.behind (names : List Bytes) : Tag → Option (List Bytes)
  | .opening name => some (name :: names)
  | .closing name =>
      match names with
      | [] => none
      | n :: names => if n = name then some names else none
  | .empty _ => some names
  | .aside _ _ => some names

section Open

variable (outside : Bytes → Bool)

/-- `outside` are the texts that may stand outside of all elements. -/
def Piece.behind (names : List Bytes) (p : Piece) : Option (List Bytes) :=
  if names = [] ∧ outside p.text = false then none else p.tag.behind names

def openBehind (names : List Bytes) : List Piece → Option (List Bytes)
  | [] => some names
  | p :: ps => (p.behind outside names).bind fun names => openBehind names ps

theorem openBehind_append (names : List Bytes) (ps qs : List Piece) :
    openBehind outside names (ps ++ qs) =
      (openBehind outside names ps).bind fun names => openBehind outside names qs := by
  induction ps generalizing names with
  | nil => rfl
  | cons p ps ih =>
      rw [List.cons_append, openBehind, openBehind]
      cases p.behind outside names with
      | none => rfl
      | some names => exact ih names

/-- The ends of the elements that are open. -/
def endTags (names : List Bytes) : List Piece := names.map fun name => ⟨[], .closing name⟩

variable {outside}

/-- Inside of an element a text may be any. -/
theorem Piece.behind_of_ne_nil {names : List Bytes} (h : names ≠ []) (p : Piece) :
    p.behind outside names = p.tag.behind names :=
  if_neg fun hnil => h hnil.1

/-- What a tag can do to the open elements. -/
inductive Tag.Moves : Tag → List Bytes → List Bytes → Prop
  | opening (name : Bytes) (names : List Bytes) : Moves (.opening name) names (name :: names)
  | closing (name : Bytes) (names : List Bytes) : Moves (.closing name) (name :: names) names
  | empty (name : Bytes) (names : List Bytes) : Moves (.empty name) names names
  | aside (kind : Aside) (s : Bytes) (names : List Bytes) : Moves (.aside kind s) names names

theorem Piece.moves {names next : List Bytes} {p : Piece}
    (h : p.behind outside names = some next) : p.tag.Moves names next := by
  rw [Piece.behind] at h
  split at h
  · cases h
  · cases htag : p.tag with
    | opening name =>
        rw [htag] at h
        cases h
        exact .opening name names
    | closing name =>
        rw [htag] at h
        cases names with
        | nil => cases h
        | cons n names =>
            have hname : n = name ∧ names = next := by simpa [Tag.behind] using h
            rw [hname.1, hname.2]
            exact .closing name next
    | empty name =>
        rw [htag] at h
        cases h
        exact .empty name names
    | aside kind s =>
        rw [htag] at h
        cases h
        exact .aside kind s names

@[simp] theorem endTags_cons (name : Bytes) (names : List Bytes) :
    endTags (name :: names) = ⟨[], .closing name⟩ :: endTags names := rfl

theorem behind_end (text name : Bytes) (names : List Bytes) :
    Piece.behind outside (name :: names) ⟨text, .closing name⟩ = some names := by
  rw [Piece.behind_of_ne_nil (by simp)]
  exact if_pos rfl

theorem openBehind_forall {P : Bytes → Prop} {names names' : List Bytes} {ps : List Piece}
    (hps : ∀ text name, ⟨text, .opening name⟩ ∈ ps → P name) (hnames : ∀ name ∈ names, P name)
    (h : openBehind outside names ps = some names') : ∀ name ∈ names', P name := by
  induction ps generalizing names with
  | nil =>
      cases h
      exact hnames
  | cons p ps ih =>
      obtain ⟨text, tag⟩ := p
      obtain ⟨next, hnext, h⟩ := Option.bind_eq_some_iff.mp h
      have hmoves := Piece.moves hnext
      refine ih (fun text name hmem => hps text name (List.mem_cons_of_mem _ hmem)) ?_ h
      cases hmoves with
      | opening name =>
          exact List.forall_mem_cons.mpr ⟨hps text name List.mem_cons_self, hnames⟩
      | closing name => exact (List.forall_mem_cons.mp hnames).2
      | empty name => exact hnames
      | aside kind s => exact hnames

theorem openBehind_isName {legal : Byte → Prop} {names names' : List Bytes} {ps : List Piece}
    (hps : LegalPieces legal ps) (hnames : ∀ name ∈ names, IsName name)
    (h : openBehind outside names ps = some names') : ∀ name ∈ names', IsName name :=
  openBehind_forall (fun text name hmem => (hps ⟨text, .opening name⟩ hmem).tag) hnames h

theorem legalPieces_endTags {legal : Byte → Prop} {names : List Bytes}
    (h : ∀ name ∈ names, IsName name) : LegalPieces legal (endTags names) := by
  intro p hp
  obtain ⟨name, hname, rfl⟩ := List.mem_map.mp hp
  exact ⟨Untagged.nil, h name hname⟩

/-- The ends that are still to come are no longer than what comes. -/
theorem endTags_length_le {names names' : List Bytes} {ps : List Piece}
    (h : openBehind outside names ps = some names') :
    (renderPieces (endTags names)).length ≤
      (renderPieces ps).length + (renderPieces (endTags names')).length := by
  induction ps generalizing names with
  | nil =>
      cases h
      simp
  | cons p ps ih =>
      obtain ⟨text, tag⟩ := p
      obtain ⟨next, hnext, h⟩ := Option.bind_eq_some_iff.mp h
      have hrest := ih h
      have hmoves := Piece.moves hnext
      rw [renderPieces_cons, List.length_append]
      cases hmoves with
      | opening name =>
          rw [endTags_cons, renderPieces_cons, List.length_append] at hrest
          omega
      | closing name =>
          have hend : (Piece.render ⟨[], .closing name⟩).length ≤
              (Piece.render ⟨text, .closing name⟩).length := by
            simp [Piece.render]
          rw [endTags_cons, renderPieces_cons, List.length_append]
          omega
      | empty name => omega
      | aside kind s => omega

end Open

/-! ## The pieces of a document -/

section Documents

variable {legal : Byte → Prop} {outside : Bytes → Bool}

/-- `s` is cut into pieces behind which the same elements are open as in front of them. -/
def CutsInto (legal : Byte → Prop) (outside : Bytes → Bool) (names : List Bytes) (s : Bytes)
    (ps : List Piece) (acc : Bytes) : Prop :=
  LegalPieces legal ps ∧ Untagged legal acc ∧ s = renderPieces ps ++ acc ∧
    openBehind outside names ps = some names

mutual

/-- Inside of an element a node is cut into pieces and a text that goes on behind it. -/
theorem cutsInto_node {node : Node} (h : node.Legal legal) {acc : Bytes}
    (hacc : Untagged legal acc) {names : List Bytes} (hnames : names ≠ []) :
    ∃ ps acc', CutsInto legal outside names (acc ++ node.render) ps acc' := by
  match node with
  | .text s =>
      rw [Node.Legal] at h
      refine ⟨[], acc ++ s, LegalPieces.nil, untagged_append.mpr ⟨hacc, h.untagged⟩, ?_, rfl⟩
      rw [render_text, renderPieces_nil, List.nil_append]
  | .element tag body =>
      rw [Node.Legal] at h
      obtain ⟨ps, acc', hps, hacc', hbody, hopen⟩ := cutsInto_nodes h.2 Untagged.nil
        (List.cons_ne_nil tag names)
      refine ⟨⟨acc, .opening tag⟩ :: (ps ++ [⟨acc', .closing tag⟩]), [], ?_, Untagged.nil, ?_, ?_⟩
      · rw [legalPieces_cons, legalPieces_append]
        exact ⟨⟨hacc, h.1⟩, hps, legalPieces_cons.mpr ⟨⟨hacc', h.1⟩, LegalPieces.nil⟩⟩
      · rw [List.nil_append] at hbody
        simp [Node.render, Piece.render, Tag.inner, hbody]
      · rw [openBehind, Piece.behind_of_ne_nil hnames, Tag.behind, Option.bind_some,
          openBehind_append, hopen, Option.bind_some, openBehind, behind_end]
        rfl
  | .empty tag =>
      rw [Node.Legal] at h
      refine ⟨[⟨acc, .empty tag⟩], [], legalPieces_cons.mpr ⟨⟨hacc, h⟩, LegalPieces.nil⟩,
        Untagged.nil, ?_, ?_⟩
      · simp [Node.render, Piece.render, Tag.inner]
      · rw [openBehind, Piece.behind_of_ne_nil hnames]
        rfl

theorem cutsInto_nodes {body : List Node} (h : AllLegal legal body) {acc : Bytes}
    (hacc : Untagged legal acc) {names : List Bytes} (hnames : names ≠ []) :
    ∃ ps acc', CutsInto legal outside names (acc ++ renders body) ps acc' := by
  match body with
  | [] =>
      refine ⟨[], acc, LegalPieces.nil, hacc, ?_, rfl⟩
      rw [renders_nil, renderPieces_nil, List.append_nil, List.nil_append]
  | node :: body =>
      rw [AllLegal] at h
      obtain ⟨ps, acc₁, hps, hacc₁, hnode, hopen⟩ := cutsInto_node h.1 hacc hnames
      obtain ⟨qs, acc₂, hqs, hacc₂, hbody, hopen'⟩ := cutsInto_nodes h.2 hacc₁ hnames
      refine ⟨ps ++ qs, acc₂, legalPieces_append.mpr ⟨hps, hqs⟩, hacc₂, ?_, ?_⟩
      · rw [renders_cons, ← List.append_assoc, hnode, List.append_assoc, hbody,
          renderPieces_append, List.append_assoc]
      · rw [openBehind_append, hopen, Option.bind_some, hopen']

end

/-- An element outside of all others ends with its last piece. -/
theorem cutsInto_element {tag : Bytes} {body : List Node}
    (h : (Node.element tag body).Legal legal) {acc : Bytes} (hacc : Untagged legal acc)
    (hout : outside acc = true) :
    ∃ ps, CutsInto legal outside [] (acc ++ (Node.element tag body).render) ps [] := by
  rw [Node.Legal] at h
  have hcut : ∃ ps acc', CutsInto legal outside [tag] ([] ++ renders body) ps acc' :=
    cutsInto_nodes h.2 Untagged.nil (by simp)
  obtain ⟨ps, acc', hps, hacc', hbody, hopen⟩ := hcut
  refine ⟨⟨acc, .opening tag⟩ :: (ps ++ [⟨acc', .closing tag⟩]), ?_, Untagged.nil, ?_, ?_⟩
  · rw [legalPieces_cons, legalPieces_append]
    exact ⟨⟨hacc, h.1⟩, hps, legalPieces_cons.mpr ⟨⟨hacc', h.1⟩, LegalPieces.nil⟩⟩
  · rw [List.nil_append] at hbody
    simp [Node.render, Piece.render, Tag.inner, hbody]
  · rw [openBehind, Piece.behind, if_neg (by simp [hout]), Tag.behind, Option.bind_some,
      openBehind_append, hopen, Option.bind_some, openBehind, behind_end]
    rfl

end Documents

/-! ## Texts that are cut off -/

def lastText (s : Bytes) : Bytes := (s.reverse.takeWhile (· ≠ 62)).reverse

theorem lastText_noEnd (s : Bytes) : 62 ∉ lastText s := by
  intro hmem
  have hne := List.mem_takeWhile_imp (List.mem_reverse.mp hmem)
  simp at hne

theorem lastText_renderPieces (ps : List Piece) {t : Bytes} (ht : 62 ∉ t) :
    lastText (renderPieces ps ++ t) = t := by
  have hall : ∀ b ∈ t.reverse, decide (b ≠ 62) = true := by
    intro b hb
    simpa using fun heq : b = 62 => ht (heq ▸ List.mem_reverse.mp hb)
  rw [lastText, List.reverse_append, List.takeWhile_append_of_pos hall]
  cases List.eq_nil_or_concat ps with
  | inl hnil => simp [hnil]
  | inr hlast =>
      obtain ⟨qs, p, rfl⟩ := hlast
      simp [Piece.render]

/-- The beginning of a text of pieces is one as well, up to a last text or a tag without its
end. -/
theorem prefix_renderPieces {legal : Byte → Prop} {ps : List Piece} (hps : LegalPieces legal ps)
    {t s : Bytes} (ht : 62 ∉ t) (h : s <+: renderPieces ps ++ t) :
    ∃ qs rs, ps = qs ++ rs ∧ s = renderPieces qs ++ lastText s := by
  suffices hcut : ∃ qs rs u, ps = qs ++ rs ∧ 62 ∉ u ∧ s = renderPieces qs ++ u by
    obtain ⟨qs, rs, u, hps, hu, rfl⟩ := hcut
    exact ⟨qs, rs, hps, by rw [lastText_renderPieces qs hu]⟩
  induction ps generalizing s with
  | nil => exact ⟨[], [], s, rfl, fun hmem => ht (h.subset hmem), rfl⟩
  | cons p ps ih =>
      obtain ⟨hp, hps⟩ := legalPieces_cons.mp hps
      have hfront : 62 ∉ p.text ++ 60 :: p.tag.inner := by
        simp [hp.text.not_mem_gt, hp.tag.not_mem_gt]
      have hrender : p.render = p.text ++ 60 :: p.tag.inner ++ [62] := by
        simp [Piece.render]
      rw [renderPieces_cons, List.append_assoc] at h
      -- The beginning ends inside of the first piece, or the whole piece is in it.
      cases List.prefix_or_prefix_of_prefix h (List.prefix_append p.render _) with
      | inl hshort =>
          rw [hrender, List.prefix_concat_iff] at hshort
          cases hshort with
          | inl hwhole =>
              refine ⟨[p], ps, [], rfl, by simp, ?_⟩
              rw [renderPieces_cons, renderPieces_nil, List.append_nil, List.append_nil, hrender,
                hwhole]
          | inr hinside =>
              exact ⟨[], p :: ps, s, rfl, fun hmem => hfront (hinside.subset hmem), rfl⟩
      | inr hlong =>
          obtain ⟨s, rfl⟩ := hlong
          obtain ⟨qs, rs, u, rfl, hu, rfl⟩ := ih hps ((List.prefix_append_right_inj _).mp h)
          refine ⟨p :: qs, rs, u, rfl, hu, ?_⟩
          rw [renderPieces_cons, List.append_assoc]

end Markup
