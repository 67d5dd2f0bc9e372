import STRos.Model.Api
import STRos.Rpc.Framing
import STRos.Rpc.KeptTexts
import STRos.Rpc.Parsing

/-! # Documents without a root

The parser returns true always. The index of the root is -1 when there was no element
and when a callback stopped it, and both readers index the nodes with it all the same.
-/

namespace STRos

open CString Markup

/-! ## The index of the root -/

/-- The root was begun: it is a closed node, or the open one outside of all others. -/
def Dom.RootIn (dom : Dom) : Prop :=
  dom.iRoot < (dom.nodes.length + (if dom.current = [] then 0 else 1) : Nat)

theorem rootIn_invariant : DomInvariant Dom.RootIn where
  nodeStart := by
    intro dom tagType tag h
    rw [Dom.RootIn] at h ⊢
    rw [Dom.nodeStart]
    simp only [reduceCtorEq, if_false]
    split
    · omega
    · split at h <;> omega
  nodeEnd := by
    intro dom dom' tag h hend
    rw [Dom.RootIn] at h ⊢
    rw [Dom.nodeEnd] at hend
    split at hend
    · cases hend
    · rename_i f fs hcurrent
      rw [hcurrent] at h
      split at hend
      · cases hend
      · split at hend
        · cases hend
          simpa using h
        · cases hend
          simpa using h
  nodeText := by
    intro dom dom' text h _ htext
    rw [Dom.RootIn] at h ⊢
    rw [Dom.nodeText] at htext
    split at htext
    · split at htext
      · cases htext
        exact h
      · cases htext
    · rename_i f fs hcurrent
      cases htext
      rw [hcurrent] at h
      simpa using h

theorem hangOpen_length (child : List XMLNode) (fs : List OpenNode) :
    (hangOpen child fs).length = if fs = [] then child.length else 1 := by
  induction fs generalizing child with
  | nil => rfl
  | cons f fs ih =>
      rw [hangOpen, ih]
      split <;> rfl

/-- An index that is not negative is the index of a node. -/
theorem root_iff {buffer : Bytes} {doc : XMLDoc}
    (h : xmlDocParseBufferDom buffer = .ok (some doc)) :
    (∃ root, doc.root = .ok root) ↔ 0 ≤ doc.iRoot := by
  constructor
  · intro hroot
    obtain ⟨root, hroot⟩ := hroot
    by_contra hneg
    rw [XMLDoc.root, if_pos (by omega)] at hroot
    cases hroot
  · intro hpos
    have hlt : doc.iRoot < doc.nodes.length := by
      rw [xmlDocParseBufferDom] at h
      split at h
      · cases h
      · cases h
        simp
      · rename_i dom hparse
        cases h
        have hstart : Dom.RootIn ⟨[], -1, []⟩ := by
          rw [Dom.RootIn]
          simp
        have hin := rootIn_invariant.parse hstart (cstr_nulFree buffer) hparse
        rw [Dom.RootIn] at hin
        rw [Dom.doc, List.length_append, hangOpen_length]
        exact hin
    obtain ⟨root, hroot⟩ : ∃ root, doc.nodes[doc.iRoot.toNat]? = some root :=
      ⟨_, List.getElem?_eq_getElem (by omega)⟩
    refine ⟨root, ?_⟩
    rw [XMLDoc.root, if_neg (by omega), hroot]

/-! ## Bodies without a root -/

theorem parse_blank {body : Bytes} (h : body.all isSpace = true) :
    xmlDocParseBufferDom body = .ok (some ⟨[], -1⟩) := by
  have hnul : NulFree body := isSpace_ne h (by decide)
  rw [xmlDocParseBufferDom, cstr_of_nulFree hnul,
    (parseDataSax_spaces (Nat.le_refl 256) ⟨[], -1, []⟩ h).1]
  rfl

/-! ## The readers -/

/-- The parser returns a document in which `i_root` is the index of a node. -/
def Rooted (body : Bytes) : Prop :=
  ∃ doc root, xmlDocParseBufferDom (cstr body) = .ok (some doc) ∧ doc.root = .ok root

/-- A body with a root is all the readers look into: any other request is refused without the
handler, and any other response is NULL. -/
structure RootChecked (heap : Nat → Byte) (sock : Bytes) (node : RosNode) : Prop where
  request : ∀ body, decodeRpcData heap sock = .ok (some body) → Rooted body ∨
    parseRequest xmlDocParseBufferDom heap sock node = .ok (some .badRequest, node)
  response : ∀ body, decodeRpcData heap sock = .ok (some body) → Rooted body ∨
    parseResponse xmlDocParseBufferDom heap sock = .ok none

/-- The parser returns, it has met an element outside of all nodes, and no callback has stopped
it. -/
def HasRoot (body : Bytes) : Prop :=
  ∃ doc, xmlDocParseBufferDom (cstr body) = .ok (some doc) ∧ 0 ≤ doc.iRoot

theorem rooted_iff (body : Bytes) : Rooted body ↔ HasRoot body := by
  constructor
  · rintro ⟨doc, root, hdoc, hroot⟩
    exact ⟨doc, hdoc, (root_iff hdoc).mp ⟨root, hroot⟩⟩
  · rintro ⟨doc, hdoc, hpos⟩
    obtain ⟨root, hroot⟩ := (root_iff hdoc).mpr hpos
    exact ⟨doc, root, hdoc, hroot⟩

/-- The parser gives NULL for no text. -/
theorem xmlDocParseBufferDom_ne_none (buffer : Bytes) : xmlDocParseBufferDom buffer ≠ .ok none := by
  rw [xmlDocParseBufferDom]
  split <;> simp

/-- Both readers index the nodes with what they are given. -/
theorem readers_unrooted {heap : Nat → Byte} {sock body : Bytes} {doc : XMLDoc}
    (hbody : decodeRpcData heap sock = .ok (some body))
    (hparse : xmlDocParseBufferDom (cstr body) = .ok (some doc)) (hneg : doc.iRoot < 0)
    (node : RosNode) :
    parseRequest xmlDocParseBufferDom heap sock node = .error .outOfBounds ∧
      parseResponse xmlDocParseBufferDom heap sock = .error .outOfBounds := by
  have herror : doc.root = .error .outOfBounds := by
    rw [XMLDoc.root, if_pos hneg]
  constructor
  · simp only [parseRequest, hbody, hparse, herror, bind, Except.bind]
  · simp only [parseResponse, hbody, hparse, herror, bind, Except.bind]

/-- Without a root both readers leave the nodes, or they do not come back from the parser. -/
theorem readers_rootless {heap : Nat → Byte} {sock body : Bytes}
    (hbody : decodeRpcData heap sock = .ok (some body)) (hroot : ¬ HasRoot body) (node : RosNode) :
    (∃ e, parseRequest xmlDocParseBufferDom heap sock node = .error e) ∧
      ∃ e, parseResponse xmlDocParseBufferDom heap sock = .error e := by
  cases hparse : xmlDocParseBufferDom (cstr body) with
  | error e =>
      refine ⟨⟨e, ?_⟩, e, ?_⟩
      · simp only [parseRequest, hbody, hparse, bind, Except.bind]
      · simp only [parseResponse, hbody, hparse, bind, Except.bind]
  | ok result =>
      cases result with
      | none => exact absurd hparse (xmlDocParseBufferDom_ne_none _)
      | some doc =>
          have hneg : doc.iRoot < 0 := by
            by_contra hpos
            exact hroot ⟨doc, hparse, by omega⟩
          obtain ⟨hrequest, hresponse⟩ := readers_unrooted hbody hparse hneg node
          exact ⟨⟨_, hrequest⟩, _, hresponse⟩

/-- The roots are checked exactly where every body has one. -/
theorem rootChecked_iff (heap : Nat → Byte) (sock : Bytes) (node : RosNode) :
    RootChecked heap sock node ↔
      ∀ body, decodeRpcData heap sock = .ok (some body) → HasRoot body := by
  constructor
  · intro h body hbody
    by_contra hnone
    obtain ⟨⟨e, herror⟩, -⟩ := readers_rootless hbody hnone node
    rcases h.request body hbody with hrooted | hrefused
    · exact hnone ((rooted_iff body).mp hrooted)
    · rw [herror] at hrefused
      cases hrefused
  · intro h
    exact ⟨fun body hbody => Or.inl ((rooted_iff body).mpr (h body hbody)),
      fun body hbody => Or.inl ((rooted_iff body).mpr (h body hbody))⟩

theorem rootChecked_broken :
    ¬ ∀ heap sock node, RootChecked heap sock node := by
  intro h
  have hlen : ([] : Bytes).length < 2147483647 := by decide
  have hbody : decodeRpcData (fun _ => 0) (requestHeaders 0 ++ ([] ++ [])) = .ok (some []) :=
    decodeRpcData_of_stream (decodeRpcStream_request (fun _ => 0) hlen [])
  have hdoc : xmlDocParseBufferDom (cstr []) = .ok (some ⟨[], -1⟩) := parse_blank rfl
  have hnone : ¬ HasRoot [] := by
    rintro ⟨doc, hdoc', hpos⟩
    rw [hdoc] at hdoc'
    cases hdoc'
    exact absurd hpos (by decide)
  obtain ⟨-, e, herror⟩ := readers_rootless hbody hnone ⟨dict, dict⟩
  rcases (h (fun _ => 0) _ ⟨dict, dict⟩).response [] hbody with hrooted | hnull
  · exact hnone ((rooted_iff []).mp hrooted)
  · rw [herror] at hnull
    cases hnull

end STRos
