import STRos.Model.Api

/-! # What the handlers ask of a request

The handlers read positions and union members without looking first. Each of
them is safe exactly on the requests that have what it reads where it reads it;
the only wrong shape that is noticed is a wrong number of parameters.
-/

namespace STRos

open CString

/-- The two faults of reading an item: it is not there, or it is of another type. -/
def ItemFault (e : Fault) : Prop := e = .nullItem ∨ e = .wrongMember

def NoItemFault {α : Type} (x : C α) : Prop := ∀ e, x = .error e → ¬ ItemFault e

/-! ## Reading one item -/

section Reading

variable {α β : Type}

theorem noItemFault_ok (a : α) : NoItemFault (.ok a : C α) := nofun

/-- A reader of a union member fails at the item only. -/
def ReadsMember (read : Option Item → C α) : Prop := ∀ p e, read p = .error e → ItemFault e

theorem readsMember_valueS : ReadsMember valueS := by
  rintro (_ | it) e h
  · cases h
    exact Or.inl rfl
  · cases it <;> cases h <;> exact Or.inr rfl

theorem readsMember_valueI : ReadsMember valueI := by
  rintro (_ | it) e h
  · cases h
    exact Or.inl rfl
  · cases it <;> cases h <;> exact Or.inr rfl

theorem readsMember_valueArray : ReadsMember valueArray := by
  rintro (_ | it) e h
  · cases h
    exact Or.inl rfl
  · cases it <;> cases h <;> exact Or.inr rfl

theorem ReadsMember.bind {read : Option Item → C α} (h : ReadsMember read) (p : Option Item)
    (f : α → C β) :
    NoItemFault (read p >>= f) ↔ ∃ a, read p = .ok a ∧ NoItemFault (f a) := by
  cases hp : read p with
  | ok a =>
      constructor
      · intro hf
        exact ⟨a, rfl, hf⟩
      · rintro ⟨a', ha', hf⟩
        cases ha'
        exact hf
  | error e =>
      constructor
      · intro hno
        exact absurd (h p e hp) (hno e rfl)
      · rintro ⟨a, ha, -⟩
        cases ha

theorem noItemFault_strdup_bind (t : Option Bytes) (f : Bytes → C β) :
    NoItemFault (strdup t >>= f) ↔ ∀ s, t = some s → NoItemFault (f s) := by
  cases t with
  | none =>
      refine ⟨fun _ _ h => (nomatch h), fun _ e he => ?_⟩
      cases he
      rintro (h | h) <;> cases h
  | some s =>
      refine ⟨fun h s' hs' => ?_, fun h => h s rfl⟩
      cases hs'
      exact h

end Reading

/-! ## Members and tags -/

mutual

/-- The item for a reader that takes a member only for what the tag says. The three kinds that
share their place with a string or an int are a double to it, which no handler asks for. -/
def Item.tagged : Item → Item
  | .bool _ => .double ⟨0⟩
  | .date _ => .double ⟨0⟩
  | .base64 _ => .double ⟨0⟩
  | .array l => .array (taggedItems l)
  | it => it

def taggedItems : List Item → List Item
  | [] => []
  | it :: l => it.tagged :: taggedItems l

end

theorem taggedItems_eq_map (l : List Item) : taggedItems l = l.map Item.tagged := by
  induction l with
  | nil => rfl
  | cons it l ih => rw [taggedItems, ih, List.map_cons]

theorem tagged_isNil (it : Item) : it.tagged.isNil = it.isNil := by
  cases it <;> rfl

theorem listSize_tagged (l : RList) : listSize (taggedItems l) = listSize l := by
  cases l with
  | nil => rfl
  | cons it l =>
      rw [taggedItems_eq_map, List.map_cons]
      by_cases hnil : it.isNil = true
      · simp [listSize, tagged_isNil, hnil]
      · simp [listSize, tagged_isNil, hnil]

theorem listAt_tagged (l : RList) (idx : Int) :
    listAt (taggedItems l) idx = (listAt l idx).map Item.tagged := by
  rw [listAt, listAt, listSize_tagged]
  split
  · rfl
  · rw [taggedItems_eq_map, List.getElem?_map]

theorem valueS_tagged {p : Option Item} {s : Bytes} :
    valueS (p.map Item.tagged) = .ok s ↔ p = some (.string s) := by
  cases p with
  | none => simp [valueS]
  | some it => cases it <;> simp [valueS, Item.tagged]

theorem valueI_tagged {p : Option Item} {i : Int32} :
    valueI (p.map Item.tagged) = .ok i ↔ p = some (.int i) := by
  cases p with
  | none => simp [valueI]
  | some it => cases it <;> simp [valueI, Item.tagged]

theorem valueArray_eq_ok {p : Option Item} {l : RList} :
    valueArray p = .ok l ↔ p = some (.array l) := by
  cases p with
  | none => simp [valueArray]
  | some it => cases it <;> simp [valueArray]

theorem map_tagged_array {p : Option Item} {l : RList} :
    p.map Item.tagged = some (.array l) ↔ ∃ m, p = some (.array m) ∧ taggedItems m = l := by
  cases p with
  | none => simp
  | some it => cases it <;> simp [Item.tagged]

theorem valueArray_tagged {p : Option Item} {l : RList} :
    valueArray (p.map Item.tagged) = .ok l ↔ ∃ m, p = some (.array m) ∧ taggedItems m = l :=
  valueArray_eq_ok.trans map_tagged_array

/-! ## Shapes -/

/-- A text whose second token at `/` is a word that `:` cuts into a word, a
number and any further tokens, such as `http://host:11311/`. -/
def ServerUrl (url : Bytes) : Prop :=
  ∃ hostport, listAt (split url (str "/")) 1 = some (.string hostport) ∧
    (∃ host, listAt (split hostport (str ":")) 0 = some (.string host)) ∧
    ∃ port, listAt (split hostport (str ":")) 1 = some (.int port)

def ReadsUrl (l : RList) : Prop :=
  listSize l = 0 ∨ ∃ url, valueS (listAt l 0) = .ok url ∧ ServerUrl url

def UrlList (l : RList) : Prop :=
  listSize l = 0 ∨ ∃ url, listAt l 0 = some (.string url) ∧ ServerUrl url

/-- What `publisherUpdate` reads: a topic, and for a topic of the node the list
of its publishers. -/
def UpdateShape (node : RosNode) (params : RList) : Prop :=
  ∃ topic, listAt params 1 = some (.string topic) ∧
    (dvalue node.subscribers topic = none ∨ ∃ l, listAt params 2 = some (.array l) ∧ UrlList l)

def TopicShape (params : RList) : Prop := ∃ topic, listAt params 1 = some (.string topic)

/-- The request has the shape its handler asks for; other methods ask for nothing. -/
def RightShape (node : RosNode) (req : RpcRequest) : Prop :=
  ∀ method, req.method = some method →
    (hash method hashSize = rqPublisherUpdate → UpdateShape node req.params) ∧
      (hash method hashSize = rqRequestTopic → req.nParams = 3 ∧ TopicShape req.params)

def RpcRequest.tagged (req : RpcRequest) : RpcRequest :=
  { req with params := taggedItems req.params }

/-- No item is read that is not there or is of another type, and a request of
the wrong shape is refused without a change of a subscriber. -/
def HandlesSafely (node : RosNode) (req : RpcRequest) : Prop :=
  NoItemFault (xmlRpcApiHandler req.tagged node) ∧
    (¬ RightShape node req → ∃ node', xmlRpcApiHandler req node = .ok (some .badRequest, node') ∧
      node'.subscribers = node.subscribers)

/-- The requests the handlers are up to: of a wrong shape there is only the
number of parameters of `requestTopic`. -/
def Expected (node : RosNode) (req : RpcRequest) : Prop :=
  ∀ method, req.method = some method →
    (hash method hashSize = rqPublisherUpdate → UpdateShape node req.params) ∧
      (hash method hashSize = rqRequestTopic → req.nParams = 3 → TopicShape req.params)

/-! ## Each handler -/

theorem readsUrl_tagged (l : RList) : ReadsUrl (taggedItems l) ↔ UrlList l := by
  simp only [ReadsUrl, UrlList, listSize_tagged, listAt_tagged, valueS_tagged]

theorem noItemFault_extractUrl (sub : Topic) (l : RList) :
    NoItemFault (extractUrl sub l) ↔ ReadsUrl l := by
  unfold extractUrl ReadsUrl
  by_cases hsize : listSize l = 0
  · simp [hsize, noItemFault_ok]
  · simp only [hsize, if_false, false_or, ServerUrl, readsMember_valueS.bind,
      readsMember_valueI.bind, valueS_split, valueI_split]
    have hpure : ∀ t : Topic, NoItemFault (pure t : C Topic) := fun t => noItemFault_ok t
    simp only [hpure, and_true]
    grind

theorem noItemFault_publisherUpdate (node : RosNode) (params : RList) :
    NoItemFault (publisherUpdate node (taggedItems params)) ↔ UpdateShape node params := by
  unfold publisherUpdate UpdateShape
  rw [readsMember_valueS.bind]
  simp only [listAt_tagged, valueS_tagged]
  refine exists_congr fun topic => and_congr_right fun _ => ?_
  cases dvalue node.subscribers topic with
  | none => exact ⟨fun _ => Or.inl rfl, fun _ => noItemFault_ok _⟩
  | some sub =>
      have hrest : ∀ l, NoItemFault (extractUrl sub l >>= fun sub =>
          pure (Reply.dummyResponse, { node with subscribers := dput node.subscribers topic sub }) :
            C (Reply × RosNode)) ↔ ReadsUrl l := by
        intro l
        rw [← noItemFault_extractUrl sub l]
        cases extractUrl sub l with
        | ok sub' => exact ⟨fun _ => noItemFault_ok _, fun _ => noItemFault_ok _⟩
        | error e =>
            exact ⟨fun h e' he' => h e' (by cases he'; rfl),
              fun h e' he' => h e' (by cases he'; rfl)⟩
      simp only [reduceCtorEq, false_or, readsMember_valueArray.bind, valueArray_tagged, hrest]
      constructor
      · rintro ⟨_, ⟨l, hl, rfl⟩, hurl⟩
        exact ⟨l, hl, (readsUrl_tagged l).mp hurl⟩
      · rintro ⟨l, hl, hurl⟩
        exact ⟨_, ⟨l, hl, rfl⟩, (readsUrl_tagged l).mpr hurl⟩

theorem noItemFault_requestTopic (node : RosNode) (params : RList) (n : Nat) :
    NoItemFault (requestTopic node (taggedItems params) n) ↔ (n = 3 → TopicShape params) := by
  unfold requestTopic
  by_cases hn : n = 3
  · simp only [hn, ne_eq, not_true_eq_false, if_false, forall_const, TopicShape,
      readsMember_valueS.bind, listAt_tagged, valueS_tagged]
    refine exists_congr fun topic => and_iff_left ?_
    cases dvalue node.publishers topic with
    | none => exact noItemFault_ok _
    | some pub => exact (noItemFault_strdup_bind _ _).mpr fun _ _ => noItemFault_ok _
  · simp [hn, noItemFault_ok]

/-! ## The run on what is there -/

/-- What is read of the request as its tags have it is read of the request itself. -/
theorem extractUrl_untagged {sub sub' : Topic} {l : RList}
    (h : extractUrl sub (taggedItems l) = .ok sub') : extractUrl sub l = .ok sub' := by
  unfold extractUrl at h ⊢
  rw [listSize_tagged] at h
  split
  · rwa [if_pos ‹_›] at h
  · rw [if_neg ‹_›] at h
    obtain ⟨url, hurl, h⟩ := bind_eq_ok.mp h
    rw [listAt_tagged, valueS_tagged] at hurl
    rw [hurl]
    exact h

theorem publisherUpdate_untagged {node : RosNode} {params : RList} {r : Reply × RosNode}
    (h : publisherUpdate node (taggedItems params) = .ok r) :
    publisherUpdate node params = .ok r := by
  unfold publisherUpdate at h ⊢
  obtain ⟨topic, htopic, h⟩ := bind_eq_ok.mp h
  rw [listAt_tagged, valueS_tagged] at htopic
  rw [htopic]
  cases hsub : dvalue node.subscribers topic with
  | none =>
      rw [hsub] at h
      simp only [valueS, bind, Except.bind, hsub]
      exact h
  | some sub =>
      rw [hsub] at h
      obtain ⟨_, hl, h⟩ := bind_eq_ok.mp h
      obtain ⟨sub', hurl, h⟩ := bind_eq_ok.mp h
      rw [listAt_tagged, valueArray_tagged] at hl
      obtain ⟨l, hl, rfl⟩ := hl
      rw [hurl] at h
      simp only [valueS, valueArray, bind, Except.bind, hsub, hl, extractUrl_untagged hurl]
      exact h

theorem requestTopic_untagged {node : RosNode} {params : RList} {n : Nat} {r : Reply}
    (h : requestTopic node (taggedItems params) n = .ok r) :
        requestTopic node params n = .ok r := by
  unfold requestTopic at h ⊢
  split
  · rwa [if_pos ‹_›] at h
  · rw [if_neg ‹_›] at h
    obtain ⟨topic, htopic, h⟩ := bind_eq_ok.mp h
    rw [listAt_tagged, valueS_tagged] at htopic
    rw [htopic]
    exact h

theorem xmlRpcApiHandler_untagged {req : RpcRequest} {node : RosNode}
    {r : Option Reply × RosNode} (h : xmlRpcApiHandler req.tagged node = .ok r) :
    xmlRpcApiHandler req node = .ok r := by
  obtain ⟨method, nParams, params⟩ := req
  unfold xmlRpcApiHandler RpcRequest.tagged at h
  unfold xmlRpcApiHandler
  cases method with
  | none => exact h
  | some method =>
      simp only at h ⊢
      split
      · rw [if_pos ‹_›] at h
        obtain ⟨r', hr, h⟩ := bind_eq_ok.mp h
        rw [publisherUpdate_untagged hr]
        exact h
      · rw [if_neg ‹_›] at h
        split
        · rw [if_pos ‹_›] at h
          obtain ⟨r', hr, h⟩ := bind_eq_ok.mp h
          rw [requestTopic_untagged hr]
          exact h
        · rwa [if_neg ‹_›] at h

/-! ## The dispatcher -/

theorem noItemFault_map {α β : Type} (x : C α) (f : α → β) :
    NoItemFault (x >>= fun a => pure (f a)) ↔ NoItemFault x := by
  cases x with
  | ok a => exact ⟨fun _ => noItemFault_ok _, fun _ => noItemFault_ok _⟩
  | error e =>
      exact ⟨fun h e' he' => h e' (by cases he'; rfl), fun h e' he' => h e' (by cases he'; rfl)⟩

theorem noItemFault_handler (node : RosNode) (req : RpcRequest) :
    NoItemFault (xmlRpcApiHandler req.tagged node) ↔ Expected node req := by
  unfold xmlRpcApiHandler Expected RpcRequest.tagged
  cases req.method with
  | none => simpa using noItemFault_ok _
  | some method =>
      simp only [Option.some.injEq, forall_eq']
      by_cases hupdate : hash method hashSize = rqPublisherUpdate
      · have hne : hash method hashSize ≠ rqRequestTopic := by
          rw [hupdate]
          decide
        rw [if_pos hupdate, noItemFault_map, noItemFault_publisherUpdate]
        simp [hupdate, show rqPublisherUpdate ≠ rqRequestTopic by decide]
      · by_cases htopic : hash method hashSize = rqRequestTopic
        · rw [if_neg hupdate, if_pos htopic, noItemFault_map, noItemFault_requestTopic]
          simp [htopic, show rqRequestTopic ≠ rqPublisherUpdate by decide]
        · simpa [hupdate, htopic] using noItemFault_ok _

/-- The handlers are safe on a request exactly when it is one they are up to. -/
theorem handlesSafely_iff (node : RosNode) (req : RpcRequest) :
    HandlesSafely node req ↔ Expected node req := by
  unfold HandlesSafely
  rw [noItemFault_handler]
  refine and_iff_left_of_imp fun hexp hshape => ?_
  -- The only wrong shape left is the number of parameters.
  by_contra hno
  refine hshape fun method hmethod => ⟨(hexp method hmethod).1, fun hhash => ?_⟩
  have hn : req.nParams = 3 := by
    by_contra hn
    refine hno ⟨node, ?_, rfl⟩
    simp [xmlRpcApiHandler, hmethod, hhash, requestTopic, hn,
      show rqRequestTopic ≠ rqPublisherUpdate by decide, bind, Except.bind, pure, Except.pure]
  exact ⟨hn, (hexp method hmethod).2 hhash hn⟩

def bareUpdate : XMLNode :=
  .mk (str "methodCall") none [.mk (str "methodName") (some (str "publisherUpdate")) [],
    .mk (str "params") none []]

theorem handlesSafely_broken :
    ¬ ∀ (node : RosNode) (mnode : XMLNode) (req : RpcRequest),
      parseRpcMethod mnode = .ok (some req) → HandlesSafely node req := by
  intro h
  have hreq : parseRpcMethod bareUpdate =
      .ok (some ⟨some (str "publisherUpdate"), 0, listInit⟩) := rfl
  have := (h ⟨dict, dict⟩ bareUpdate _ hreq).1 .nullItem rfl
  exact this (Or.inl rfl)

end STRos
