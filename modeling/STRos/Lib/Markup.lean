import STRos.Lib.Decimal

/-! # Documents of tagged text

A document is a tree of texts and elements without attributes. `render` writes
it out; `parse` reads it back, one byte at a time, into any type of trees with a
node for a tag, the text found directly below it and its children. Entities are
not expanded, so a text is any sequence of bytes without `<`, `>` and `&`.
-/

namespace Markup

open CString

inductive Node
  | text (s : Bytes)
  | element (tag : Bytes) (body : List Node)
  /-- `<tag/>` -/
  | empty (tag : Bytes)

mutual

def Node.render : Node → Bytes
  | .text s => s
  | .element tag body => 60 :: tag ++ 62 :: renders body ++ 60 :: 47 :: tag ++ [62]
  | .empty tag => 60 :: tag ++ [47, 62]

def renders : List Node → Bytes
  | [] => []
  | node :: nodes => node.render ++ renders nodes

end

@[simp] theorem render_text (s : Bytes) : (Node.text s).render = s := by rw [Node.render]

@[simp] theorem renders_nil : renders [] = [] := by rw [renders]

@[simp] theorem renders_cons (node : Node) (nodes : List Node) :
    renders (node :: nodes) = node.render ++ renders nodes := by rw [renders]

@[simp] theorem renders_append (nodes nodes' : List Node) :
    renders (nodes ++ nodes') = renders nodes ++ renders nodes' := by
  induction nodes with
  | nil => rfl
  | cons node nodes ih => simp only [List.cons_append, renders_cons, ih, List.append_assoc]

/-! ## Legal documents -/

def isNameByte (b : Byte) : Bool :=
  isDigit b || (65 ≤ b.toNat && b.toNat ≤ 90) || (97 ≤ b.toNat && b.toNat ≤ 122) || b = 46

def IsName (tag : Bytes) : Prop := tag ≠ [] ∧ tag.all isNameByte = true

instance (tag : Bytes) : Decidable (IsName tag) := inferInstanceAs (Decidable (_ ∧ _))

/-- A text of bytes from `legal` without a terminator or a character of the markup. -/
def IsText (legal : Byte → Prop) (s : Bytes) : Prop :=
  ∀ b ∈ s, legal b ∧ b ≠ 0 ∧ b ≠ 60 ∧ b ≠ 62 ∧ b ≠ 38

mutual

def Node.Legal (legal : Byte → Prop) : Node → Prop
  | .text s => IsText legal s
  | .element tag body => IsName tag ∧ AllLegal legal body
  | .empty tag => IsName tag

def AllLegal (legal : Byte → Prop) : List Node → Prop
  | [] => True
  | node :: nodes => node.Legal legal ∧ AllLegal legal nodes

end

theorem allLegal_append {legal : Byte → Prop} {nodes nodes' : List Node} :
    AllLegal legal (nodes ++ nodes') ↔ AllLegal legal nodes ∧ AllLegal legal nodes' := by
  induction nodes with
  | nil => simp [AllLegal]
  | cons node nodes ih => simp only [List.cons_append, AllLegal, ih, and_assoc]

theorem isText_append {legal : Byte → Prop} {s t : Bytes} :
    IsText legal (s ++ t) ↔ IsText legal s ∧ IsText legal t := by
  simp only [IsText, List.mem_append]
  grind

mutual

theorem Node.Legal.mono {legal legal' : Byte → Prop} (himp : ∀ b, legal b → legal' b) {node : Node}
    (h : node.Legal legal) : node.Legal legal' := by
  match node with
  | .text s =>
      rw [Node.Legal] at h ⊢
      exact fun b hb => ⟨himp b (h b hb).1, (h b hb).2⟩
  | .element tag body =>
      rw [Node.Legal] at h ⊢
      exact ⟨h.1, AllLegal.mono himp h.2⟩
  | .empty tag =>
      rw [Node.Legal] at h ⊢
      exact h

theorem AllLegal.mono {legal legal' : Byte → Prop} (himp : ∀ b, legal b → legal' b)
    {body : List Node} (h : AllLegal legal body) : AllLegal legal' body := by
  match body with
  | [] => trivial
  | node :: body =>
      rw [AllLegal] at h ⊢
      exact ⟨Node.Legal.mono himp h.1, AllLegal.mono himp h.2⟩

end

theorem IsName.not_mem {tag : Bytes} (h : IsName tag) {b : Byte} (hb : isNameByte b = false) :
    b ∉ tag := by
  intro hmem
  have := List.all_eq_true.mp h.2 b hmem
  rw [hb] at this
  cases this

theorem IsName.nulFree {tag : Bytes} (h : IsName tag) : NulFree tag := h.not_mem (by decide)

theorem IsText.nulFree {legal : Byte → Prop} {s : Bytes} (h : IsText legal s) : NulFree s :=
  fun hmem => (h 0 hmem).2.1 rfl

mutual

theorem Node.Legal.nulFree {legal : Byte → Prop} {node : Node} (h : node.Legal legal) :
    NulFree node.render := by
  match node with
  | .text s =>
      rw [Node.Legal] at h
      rw [render_text]
      exact h.nulFree
  | .element tag body =>
      rw [Node.Legal] at h
      have hbody := AllLegal.nulFree h.2
      simp only [Node.render, nulFree_append, nulFree_cons, h.1.nulFree, hbody]
      decide
  | .empty tag =>
      rw [Node.Legal] at h
      simp only [Node.render, nulFree_append, nulFree_cons, h.nulFree]
      decide

theorem AllLegal.nulFree {legal : Byte → Prop} {body : List Node} (h : AllLegal legal body) :
    NulFree (renders body) := by
  match body with
  | [] => exact NulFree.nil
  | node :: body =>
      rw [AllLegal] at h
      rw [renders_cons, nulFree_append]
      exact ⟨Node.Legal.nulFree h.1, AllLegal.nulFree h.2⟩

end

/-! ## The tree of a document -/

/-- The text of an element after another piece; an element without any has none. -/
def addText (text : Option Bytes) (s : Bytes) : Option Bytes :=
  if s = [] then text else some (text.getD [] ++ s)

theorem addText_nil (text : Option Bytes) : addText text [] = text := rfl

theorem addText_addText (text : Option Bytes) (s t : Bytes) :
    addText (addText text s) t = addText text (s ++ t) := by
  by_cases hs : s = []
  · simp [addText, hs]
  · by_cases ht : t = []
    · simp [addText, ht]
    · simp [addText, hs, ht]

/-- The text found directly in a body, after what `text` holds. -/
def bodyText (text : Option Bytes) : List Node → Option Bytes
  | [] => text
  | .text s :: nodes => bodyText (addText text s) nodes
  | .element _ _ :: nodes => bodyText text nodes
  | .empty _ :: nodes => bodyText text nodes

section Tree

variable {α : Type} (mk : Bytes → Option Bytes → List α → α)

mutual

def Node.tree : Node → List α
  | .text _ => []
  | .element tag body => [mk tag (bodyText none body) (trees body)]
  | .empty tag => [mk tag none []]

def trees : List Node → List α
  | [] => []
  | node :: nodes => node.tree ++ trees nodes

end

theorem trees_append (nodes nodes' : List Node) :
    trees mk (nodes ++ nodes') = trees mk nodes ++ trees mk nodes' := by
  induction nodes with
  | nil => rfl
  | cons node nodes ih => simp only [List.cons_append, trees, ih, List.append_assoc]

/-! ## The parser -/

/-- An element that is not closed yet. -/
structure Frame (α : Type) where
  tag : Bytes
  text : Option Bytes
  children : List α

/-- The open elements, innermost first, the nodes outside of all of them, the
index of the first element there, and the bytes since the last `<` or `>`. -/
structure Parser (α : Type) where
  frames : List (Frame α)
  nodes : List α
  root : Option Nat
  inTag : Bool
  acc : Bytes

/-- A closed node goes to the element around it. -/
def Parser.add (p : Parser α) (node : α) : Parser α :=
  match p.frames with
  | [] => { p with nodes := p.nodes ++ [node] }
  | f :: fs => { p with frames := { f with children := f.children ++ [node] } :: fs }

/-- The text in front of a tag; outside of the root there are only spaces. -/
def Parser.flush (p : Parser α) : Option (Parser α) :=
  match p.frames with
  | [] => if p.acc.all isSpace then some { p with acc := [] } else none
  | f :: fs => some { p with frames := { f with text := addText f.text p.acc } :: fs, acc := [] }

/-- The first element outside of all others is the root. -/
def Parser.markRoot (p : Parser α) : Parser α :=
  if p.frames.isEmpty ∧ p.root = none then { p with root := some p.nodes.length } else p

/-- What stands between `<` and `>`: an end, an instruction or a beginning. -/
def Parser.tag (p : Parser α) (s : Bytes) : Option (Parser α) :=
  match s with
  | [] => none
  | 47 :: name =>
      match p.frames with
      | [] => none
      | f :: fs =>
          if f.tag = name then some (({ p with frames := fs }).add (mk f.tag f.text f.children))
          else none
  | 63 :: s => if s.getLast? = some 63 then some (p.add (mk s.dropLast none [])) else none
  | s =>
      if s.getLast? = some 47 then some (p.markRoot.add (mk s.dropLast none []))
      else some { p.markRoot with frames := ⟨s, none, []⟩ :: p.frames }

def Parser.step (p : Parser α) (c : Byte) : Option (Parser α) :=
  if p.inTag then
    if c = 62 then ({ p with inTag := false, acc := [] }).tag mk p.acc
    else some { p with acc := p.acc ++ [c] }
  else if c = 60 then p.flush.map fun p => { p with inTag := true }
  else some { p with acc := p.acc ++ [c] }

def Parser.run : Parser α → Bytes → Option (Parser α)
  | p, [] => some p
  | p, c :: s => (p.step mk c).bind fun p => Parser.run p s

/-- The nodes of a document and the index of its root. -/
def parse (s : Bytes) : Option (List α × Option Nat) :=
  match Parser.run mk ⟨[], [], none, false, []⟩ s with
  | none => none
  | some p => if p.frames.isEmpty ∧ p.inTag = false then some (p.nodes, p.root) else none

/-! ## Reading what was rendered -/

theorem run_text (p : Parser α) (hp : p.inTag = false) {s : Bytes} (hs : 60 ∉ s) (rest : Bytes) :
    Parser.run mk p (s ++ rest) = Parser.run mk { p with acc := p.acc ++ s } rest := by
  induction s generalizing p with
  | nil => simp
  | cons c s ih =>
      simp only [List.mem_cons, not_or] at hs
      rw [List.cons_append, Parser.run, Parser.step]
      simp only [hp, Bool.false_eq_true, if_false, if_neg (Ne.symm hs.1), Option.bind_some]
      rw [ih _ rfl hs.2]
      simp

theorem run_inTag (p : Parser α) (hp : p.inTag = true) {s : Bytes} (hs : 62 ∉ s) (rest : Bytes) :
    Parser.run mk p (s ++ 62 :: rest) =
      (({ p with inTag := false, acc := [] }).tag mk (p.acc ++ s)).bind
        fun p => Parser.run mk p rest := by
  induction s generalizing p with
  | nil => simp [Parser.run, Parser.step, hp]
  | cons c s ih =>
      simp only [List.mem_cons, not_or] at hs
      rw [List.cons_append, Parser.run, Parser.step]
      simp only [hp, if_true, if_neg (Ne.symm hs.1), Option.bind_some]
      rw [ih _ rfl hs.2]
      simp

theorem run_tag (p : Parser α) (hp : p.inTag = false) {s : Bytes} (hs : 62 ∉ s) (rest : Bytes) :
    Parser.run mk p (60 :: s ++ 62 :: rest) =
      p.flush.bind fun q => (({ q with inTag := false, acc := [] }).tag mk (q.acc ++ s)).bind
        fun q => Parser.run mk q rest := by
  rw [List.cons_append, Parser.run, Parser.step]
  simp only [hp, Bool.false_eq_true, if_false, if_true]
  cases p.flush with
  | none => rfl
  | some q => exact run_inTag mk { q with inTag := true } rfl hs rest

theorem tag_open (p : Parser α) {tag : Bytes} (h : IsName tag) :
    p.tag mk tag = some { p.markRoot with frames := ⟨tag, none, []⟩ :: p.frames } := by
  have hslash : 47 ∉ tag := h.not_mem (by decide)
  have hmark : 63 ∉ tag := h.not_mem (by decide)
  have hlast : tag.getLast? ≠ some 47 := fun hl => hslash (List.mem_of_getLast? hl)
  unfold Parser.tag
  split
  · exact absurd rfl h.1
  · simp at hslash
  · simp at hmark
  · rw [if_neg hlast]

theorem tag_empty (p : Parser α) {tag : Bytes} (h : IsName tag) :
    p.tag mk (tag ++ [47]) = some (p.markRoot.add (mk tag none [])) := by
  have hslash : 47 ∉ tag := h.not_mem (by decide)
  have hmark : 63 ∉ tag := h.not_mem (by decide)
  obtain ⟨c, s, rfl⟩ := List.exists_cons_of_ne_nil h.1
  simp only [List.mem_cons, not_or] at hslash hmark
  unfold Parser.tag
  split
  · simp_all
  · simp_all
  · simp_all
  · rw [if_pos List.getLast?_concat, List.dropLast_concat]

theorem tag_close (p : Parser α) (f : Frame α) (fs : List (Frame α)) (hp : p.frames = f :: fs) :
    p.tag mk (47 :: f.tag) = some (({ p with frames := fs }).add (mk f.tag f.text f.children)) := by
  simp [Parser.tag, hp]

theorem bodyText_cons (text : Option Bytes) (node : Node) (nodes : List Node) :
    bodyText text (node :: nodes) = bodyText (bodyText text [node]) nodes := by
  cases node <;> rfl

mutual

/-- Inside of an element a node adds its text and its tree. -/
theorem run_node {legal : Byte → Prop} {node : Node} (h : node.Legal legal) (f : Frame α)
    (fs : List (Frame α)) (nodes : List α) (root : Option Nat) (acc rest : Bytes) :
    ∃ text acc',
      Parser.run mk ⟨f :: fs, nodes, root, false, acc⟩ (node.render ++ rest) =
        Parser.run mk ⟨⟨f.tag, text, f.children ++ node.tree mk⟩ :: fs, nodes, root, false, acc'⟩
          rest ∧
      addText text acc' = bodyText (addText f.text acc) [node] := by
  match node with
  | .text s =>
      rw [Node.Legal] at h
      have hs : 60 ∉ s := fun hmem => (h 60 hmem).2.2.1 rfl
      refine ⟨f.text, acc ++ s, ?_, ?_⟩
      · rw [Node.render, run_text mk _ rfl hs, Node.tree, List.append_nil]
      · simp only [bodyText, addText_addText]
  | .element tag body =>
      rw [Node.Legal] at h
      have hgt : 62 ∉ tag := h.1.not_mem (by decide)
      refine ⟨addText f.text acc, [], ?_, by simp only [bodyText, addText_nil]⟩
      obtain ⟨text, acc', hbody, htext⟩ := run_nodes h.2 ⟨tag, none, []⟩
        (⟨f.tag, addText f.text acc, f.children⟩ :: fs) nodes root []
        (60 :: (47 :: tag) ++ 62 :: rest)
      have hrender : (Node.element tag body).render ++ rest =
          60 :: tag ++ 62 :: (renders body ++ (60 :: (47 :: tag) ++ 62 :: rest)) := by
        simp [Node.render]
      rw [hrender, run_tag mk _ rfl hgt]
      simp only [Parser.flush, Option.bind_some, List.nil_append, tag_open mk _ h.1,
        Parser.markRoot, List.isEmpty_cons, Bool.false_eq_true, false_and, if_false]
      rw [hbody, run_tag mk _ rfl (by simp [hgt])]
      simp only [Parser.flush, Option.bind_some, List.nil_append]
      rw [tag_close mk _ ⟨tag, addText text acc', trees mk body⟩ _ rfl, htext]
      simp only [Option.bind_some, Parser.add, Node.tree, addText_nil]
  | .empty tag =>
      rw [Node.Legal] at h
      have hgt : 62 ∉ tag := h.not_mem (by decide)
      refine ⟨addText f.text acc, [], ?_, by simp only [bodyText, addText_nil]⟩
      have hrender : (Node.empty tag).render ++ rest = 60 :: (tag ++ [47]) ++ 62 :: rest := by
        simp [Node.render]
      rw [hrender, run_tag mk _ rfl (by simp [hgt])]
      simp only [Parser.flush, Option.bind_some, List.nil_append, tag_empty mk _ h,
        Parser.markRoot, List.isEmpty_cons, Bool.false_eq_true, false_and, if_false, Parser.add,
        Node.tree]

theorem run_nodes {legal : Byte → Prop} {body : List Node} (h : AllLegal legal body) (f : Frame α)
    (fs : List (Frame α)) (nodes : List α) (root : Option Nat) (acc rest : Bytes) :
    ∃ text acc',
      Parser.run mk ⟨f :: fs, nodes, root, false, acc⟩ (renders body ++ rest) =
        Parser.run mk ⟨⟨f.tag, text, f.children ++ trees mk body⟩ :: fs, nodes, root, false, acc'⟩
          rest ∧
      addText text acc' = bodyText (addText f.text acc) body := by
  match body with
  | [] => exact ⟨f.text, acc, by simp [renders, trees], rfl⟩
  | node :: body =>
      rw [AllLegal] at h
      obtain ⟨text₁, acc₁, hnode, htext₁⟩ := run_node h.1 f fs nodes root acc
        (renders body ++ rest)
      obtain ⟨text₂, acc₂, hbody, htext₂⟩ := run_nodes h.2
        ⟨f.tag, text₁, f.children ++ node.tree mk⟩ fs nodes root acc₁ rest
      refine ⟨text₂, acc₂, ?_, ?_⟩
      · rw [renders, List.append_assoc, hnode, hbody, trees, List.append_assoc]
      · rw [htext₂, htext₁, ← bodyText_cons]

end

/-- The parser reads back a document with a declaration in front of its root. -/
theorem parse_render {legal : Byte → Prop} {tag : Bytes} {body : List Node}
    (h : (Node.element tag body).Legal legal) (decl sep : Bytes) (hdecl : 62 ∉ decl)
    (hsep : sep.all isSpace = true) :
    parse mk (60 :: (63 :: decl ++ [63]) ++ 62 :: (sep ++ (Node.element tag body).render)) =
      some ([mk decl none [], mk tag (bodyText none body) (trees mk body)], some 1) := by
  rw [Node.Legal] at h
  have hgt : 62 ∉ tag := h.1.not_mem (by decide)
  have hlt : 60 ∉ sep := fun hmem => by
    have := List.all_eq_true.mp hsep 60 hmem
    exact absurd this (by decide)
  obtain ⟨text, acc', hbody, htext⟩ := run_nodes mk h.2 ⟨tag, none, []⟩ [] [mk decl none []]
    (some 1) [] (60 :: (47 :: tag) ++ 62 :: [])
  have hrender : (Node.element tag body).render =
      60 :: tag ++ 62 :: (renders body ++ (60 :: (47 :: tag) ++ 62 :: [])) := by
    simp [Node.render]
  rw [parse, run_tag mk _ rfl (by simp [hdecl])]
  simp only [Parser.flush, List.all_nil, if_true, Option.bind_some, List.nil_append]
  rw [List.cons_append, Parser.tag]
  simp only [List.getLast?_concat, if_true, List.dropLast_concat, Option.bind_some, Parser.add,
    List.nil_append]
  rw [run_text mk _ rfl hlt, hrender, run_tag mk _ rfl hgt]
  simp only [Parser.flush, List.nil_append, hsep, if_true, Option.bind_some, tag_open mk _ h.1,
    Parser.markRoot, List.isEmpty_nil, true_and, List.length_singleton]
  rw [hbody, run_tag mk _ rfl (by simp [hgt])]
  simp only [Parser.flush, Option.bind_some, List.nil_append]
  rw [tag_close mk _ ⟨tag, addText text acc', trees mk body⟩ _ rfl, htext]
  simp [Parser.add, Parser.run, addText_nil]

end Tree

end Markup
