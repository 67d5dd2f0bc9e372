import STRos.Rpc.Documents
import STRos.Rpc.Parsing

/-! # The parser on printed documents

What is assumed of the parser where documents are read back holds of `XMLDoc_parse_buffer_DOM`
for the documents that fit one block: a legal text has no `>`, so each line ends with its tag,
and no line is read on.
-/

namespace STRos

open CString Markup

/-! ## Lines that end with their tags -/

/-- There is room from any line on that has no `<` yet, as long as it can hold all of the text. -/
def Spacious (s : Bytes) : Prop :=
  ∀ sz n fresh, n + s.length < 2147483392 → roomy sz n fresh false s = true

theorem spacious_nil : Spacious [] := fun _ _ _ _ => rfl

/-- A text without `<` and `>` only makes its line longer. -/
theorem Spacious.text {s t : Bytes} (ht : Spacious t) (hgt : 62 ∉ s) (hlt : 60 ∉ s) :
    Spacious (s ++ t) := by
  intro sz n fresh hlen
  cases s with
  | nil => exact ht sz n fresh hlen
  | cons c s =>
      simp only [List.mem_cons, not_or] at hgt hlt
      rw [List.length_append, List.length_cons] at hlen
      rw [List.cons_append, roomy, if_neg fun h => hgt.1 h.1.symm, roomy_append hgt.2]
      have hseen : (false || decide (c = 60) || decide (60 ∈ s)) = false := by
        simp [Ne.symm hlt.1, hlt.2]
      rw [hseen]
      exact ht _ _ _ (by omega)

/-- A tag ends its line. -/
theorem Spacious.tag {inner t : Bytes} (ht : Spacious t) (hgt : 62 ∉ inner) :
    Spacious (60 :: (inner ++ 62 :: t)) := by
  intro sz n fresh hlen
  simp only [List.length_cons, List.length_append] at hlen
  have hfits : n + 1 + inner.length + 1 < 2147483392 := by omega
  rw [roomy, if_neg fun h => absurd h.1 (by decide), roomy_append hgt, roomy, if_pos ⟨rfl, rfl⟩,
    decide_eq_true hfits, Bool.true_and]
  exact ht _ _ _ (by omega)

mutual

theorem spacious_node {legal : Byte → Prop} {node : Node} (h : node.Legal legal) {t : Bytes}
    (ht : Spacious t) : Spacious (node.render ++ t) := by
  match node with
  | .text s =>
      rw [Node.Legal] at h
      rw [render_text]
      exact ht.text (fun hmem => (h 62 hmem).2.2.2.1 rfl) fun hmem => (h 60 hmem).2.2.1 rfl
  | .element tag body =>
      rw [Node.Legal] at h
      have hgt := (isName_plain h.1).1
      have hclose : 62 ∉ 47 :: tag := by simp [hgt]
      have hrender : (Node.element tag body).render ++ t =
          60 :: (tag ++ 62 :: (renders body ++ 60 :: (47 :: tag ++ 62 :: t))) := by
        simp [Node.render]
      rw [hrender]
      exact (spacious_nodes h.2 (ht.tag hclose)).tag hgt
  | .empty tag =>
      rw [Node.Legal] at h
      have hgt : 62 ∉ tag ++ [47] := by simp [(isName_plain h).1]
      have hrender : (Node.empty tag).render ++ t = 60 :: (tag ++ [47] ++ 62 :: t) := by
        simp [Node.render]
      rw [hrender]
      exact ht.tag hgt

theorem spacious_nodes {legal : Byte → Prop} {body : List Node} (h : AllLegal legal body)
    {t : Bytes} (ht : Spacious t) : Spacious (renders body ++ t) := by
  match body with
  | [] => exact ht
  | node :: body =>
      rw [AllLegal] at h
      rw [renders_cons, List.append_assoc]
      exact spacious_node h.1 (spacious_nodes h.2 ht)

end

/-! ## Documents with a declaration -/

mutual

theorem plainNode_of_legal {node : Node} (h : node.Legal (LegalByte (· ≠ 255)))
    (hlen : node.render.length < 2147483392) : PlainNode node := by
  match node with
  | .text s =>
      rw [Node.Legal] at h
      rw [PlainNode]
      refine ⟨h.nulFree, fun hmem => (h 60 hmem).2.2.1 rfl, fun hmem => ?_⟩
      cases (h 255 hmem).1 with
      | inl hascii => exact absurd hascii (by decide)
      | inr hkept => exact hkept rfl
  | .element tag body =>
      rw [Node.Legal] at h
      simp only [Node.render, List.length_append, List.length_cons] at hlen
      rw [PlainNode]
      exact ⟨⟨h.1, by omega⟩, plainNodes_of_legal h.2 (by omega)⟩
  | .empty tag =>
      rw [Node.Legal] at h
      simp only [Node.render, List.length_append, List.length_cons, List.length_nil] at hlen
      rw [PlainNode]
      exact ⟨h, by omega⟩

theorem plainNodes_of_legal {body : List Node} (h : AllLegal (LegalByte (· ≠ 255)) body)
    (hlen : (renders body).length < 2147483392) : PlainNodes body := by
  match body with
  | [] => trivial
  | node :: body =>
      rw [AllLegal] at h
      rw [renders_cons, List.length_append] at hlen
      rw [PlainNodes]
      exact ⟨plainNode_of_legal h.1 (by omega), plainNodes_of_legal h.2 (by omega)⟩

end

/-- The declaration is a node of its own, and the root comes behind it. -/
theorem parseDataSax_xmlVer (s : Bytes) :
    ∃ sz, 256 ≤ sz ∧
      parseDataSax 256 ⟨[], -1, []⟩ (xmlVer ++ s) =
        parseDataSax sz ⟨[.mk (str "xml version=\"1.0\"") none []], -1, []⟩ (crlf ++ s) := by
  have hinner : 62 ∉ str "?xml version=\"1.0\"?" := by decide
  have hend : 255 ∉ str "?xml version=\"1.0\"?" := by decide
  have htag : ∀ room, xmlParse1string room (60 :: (str "?xml version=\"1.0\"?" ++ [62])) =
      .ok (.tagInstr, str "xml version=\"1.0\"") := fun _ => rfl
  obtain ⟨sz, hsz, hparse, -⟩ := parseDataSax_short hinner hend htag (by decide) Plain.nil
    (by simp) (Nat.le_refl 256) ⟨[], -1, []⟩ (by decide) (crlf ++ s)
  have hne : crlf ++ s ≠ [] := by simp [crlf]
  have hver : xmlVer ++ s = [] ++ 60 :: (str "?xml version=\"1.0\"?" ++ 62 :: (crlf ++ s)) := by
    rfl
  refine ⟨sz, hsz, ?_⟩
  rw [hver, hparse]
  exact if_neg hne

/-- Each document of tagged text is parsed to the tree of its elements, when no text holds
the byte that is taken for the end and a line may be as long as the document. -/
theorem xmlDocParseBufferDom_document {tag : Bytes} {body : List Node}
    (h : (Node.element tag body).Legal (LegalByte (· ≠ 255)))
    (hlen : (xmlVer ++ (Node.element tag body).render).length < 2147483392) :
    ∃ doc, xmlDocParseBufferDom (xmlVer ++ (Node.element tag body).render) = .ok (some doc) ∧
      doc.root = .ok (.mk tag (bodyText none body) (trees XMLNode.mk body)) := by
  have hnul : NulFree (xmlVer ++ (Node.element tag body).render) := by
    rw [nulFree_append]
    exact ⟨by decide, h.nulFree⟩
  have hspaces : crlf.all isSpace = true := by decide
  have htail : ([] : Bytes).all isSpace = true := rfl
  have hcrlf : crlf.length = 2 := rfl
  have hverLength : xmlVer.length = 23 := rfl
  rw [List.length_append, hverLength] at hlen
  obtain ⟨sz, hsz, hver⟩ := parseDataSax_xmlVer (Node.element tag body).render
  have hspacious := (spacious_node h spacious_nil).text (s := crlf) (by decide) (by decide)
  have hroomy := hspacious sz 0 true (by
    simp only [List.length_append, hcrlf, List.length_nil]
    omega)
  rw [xmlDocParseBufferDom, cstr_of_nulFree hnul, hver]
  rcases parse_root (plainNode_of_legal h (by omega)) [.mk (str "xml version=\"1.0\"") none []] hsz
    plain_crlf hspaces htail with ⟨-, hroot⟩ | hcrowded
  · rw [List.append_nil] at hroot
    rw [hroot]
    exact ⟨_, rfl, rfl⟩
  · rw [hcrowded.room] at hroomy
    cases hroomy

end STRos
