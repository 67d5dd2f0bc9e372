import STRos.Api.Shapes
import STRos.Dictionary.FiniteMap
import STRos.Model.Deploy

/-! # What the callers of the master survive

Four functions take apart what `send_post_request` returns. Each of them reads a
response without asking whether it came, or a value without asking for its
kind; for each there is a shape of the answer that keeps it out of undefined
behaviour, and it is the only one.
-/

namespace STRos

open CString

/-! ## Faults of using an answer -/

/-- The response is NULL, an item is not there or of another type, or a field of
the response was never set. -/
def AnswerFault (e : Fault) : Prop := e = .nullResponse ∨ ItemFault e ∨ e = .uninitialised

def Survives {α : Type} (x : C α) : Prop := ∀ e, x = .error e → ¬ AnswerFault e

/-- An answer is all that can bring the function down. -/
def FailsByAnswer {α : Type} (x : C α) : Prop := ∀ e, x = .error e → AnswerFault e

def Returns {α : Type} (x : C α) : Prop := ∃ a, x = .ok a

section Sequences

variable {α β : Type}

theorem survives_iff_returns {x : C α} (h : FailsByAnswer x) : Survives x ↔ Returns x := by
  cases x with
  | ok a => exact ⟨fun _ => ⟨a, rfl⟩, fun _ e he => nomatch he⟩
  | error e =>
      constructor
      · intro hno
        exact absurd (h e rfl) (hno e rfl)
      · rintro ⟨a, ha⟩
        cases ha

theorem failsByAnswer_ok (a : α) : FailsByAnswer (.ok a : C α) := nofun

theorem FailsByAnswer.bind {x : C α} {f : α → C β} (hx : FailsByAnswer x)
    (hf : ∀ a, FailsByAnswer (f a)) : FailsByAnswer (x >>= f) := by
  cases x with
  | ok a => exact hf a
  | error e => exact fun e' he' => hx e' (by cases he'; rfl)

theorem returns_ok (a : α) : Returns (.ok a : C α) := ⟨a, rfl⟩

theorem returns_pure (a : α) : Returns (pure a : C α) := ⟨a, rfl⟩

theorem not_returns_error (e : Fault) : ¬ Returns (.error e : C α) := nofun

theorem returns_bind {x : C α} {f : α → C β} :
    Returns (x >>= f) ↔ ∃ a, x = .ok a ∧ Returns (f a) := by
  constructor
  · rintro ⟨r, hr⟩
    obtain ⟨a, ha, hf⟩ := bind_eq_ok.mp hr
    exact ⟨a, ha, r, hf⟩
  · rintro ⟨a, ha, r, hf⟩
    exact ⟨r, bind_eq_ok.mpr ⟨a, ha, hf⟩⟩

/-- A rest that asks for the same whatever it is given. -/
theorem returns_bind_and {x : C α} {f : α → C β} {P : Prop} (h : ∀ a, Returns (f a) ↔ P) :
    Returns (x >>= f) ↔ Returns x ∧ P := by
  rw [returns_bind]
  constructor
  · rintro ⟨a, ha, hf⟩
    exact ⟨⟨a, ha⟩, (h a).mp hf⟩
  · rintro ⟨⟨a, ha⟩, hP⟩
    exact ⟨a, ha, (h a).mpr hP⟩

theorem ReadsMember.failsByAnswer {read : Option Item → C α} (h : ReadsMember read)
    (p : Option Item) : FailsByAnswer (read p) := fun e he => Or.inr (Or.inl (h p e he))

end Sequences

/-! ## The functions they share -/

theorem failsByAnswer_extractUrl (sub : Topic) (l : RList) : FailsByAnswer (extractUrl sub l) := by
  unfold extractUrl
  split
  · exact failsByAnswer_ok _
  · refine (readsMember_valueS.failsByAnswer _).bind fun url => ?_
    refine (readsMember_valueS.failsByAnswer _).bind fun hostport => ?_
    refine (readsMember_valueS.failsByAnswer _).bind fun host => ?_
    exact (readsMember_valueI.failsByAnswer _).bind fun port => failsByAnswer_ok _

theorem returns_extractUrl (sub : Topic) (l : RList) :
    Returns (extractUrl sub l) ↔ ReadsUrl l := by
  unfold extractUrl ReadsUrl
  by_cases hsize : listSize l = 0
  · simp [hsize, returns_ok]
  · simp only [hsize, if_false, false_or, ServerUrl, returns_bind, valueS_split, valueI_split,
      returns_pure, and_true]
    grind

theorem failsByAnswer_responseCode (resp : Option RpcResponse) :
    FailsByAnswer (responseCode resp) := by
  cases resp with
  | none => exact fun e he => Or.inl (by cases he; rfl)
  | some data => exact failsByAnswer_ok _

theorem failsByAnswer_freeResponse (resp : Option RpcResponse) :
    FailsByAnswer (freeResponse resp) := by
  cases resp with
  | none => exact fun e he => Or.inl (by cases he; rfl)
  | some data =>
      obtain ⟨code, nValue, data⟩ := data
      cases data with
      | none => exact fun e he => Or.inr (Or.inr (by cases he; rfl))
      | some l => exact failsByAnswer_ok _

theorem failsByAnswer_responseArray (resp : Option RpcResponse) :
    FailsByAnswer (responseArray resp) := by
  cases resp with
  | none => exact fun e he => Or.inl (by cases he; rfl)
  | some data =>
      obtain ⟨code, nValue, data⟩ := data
      cases data with
      | none => exact fun e he => Or.inr (Or.inr (by cases he; rfl))
      | some l => exact readsMember_valueArray.failsByAnswer _

theorem failsByAnswer_unregister (node : StrosNode) (methd : Bytes) (tp : Topic)
    (resp : Option RpcResponse) : FailsByAnswer (unregister node methd tp resp) :=
  (failsByAnswer_responseCode resp).bind fun _ => failsByAnswer_ok _

theorem returns_responseCode_bind {α : Type} (resp : Option RpcResponse) (f : Nat → C α) :
    Returns (responseCode resp >>= f) ↔ ∃ data, resp = some data ∧ Returns (f data.code) := by
  cases resp with
  | none => exact iff_of_false (not_returns_error _) (by simp)
  | some data =>
      constructor
      · exact fun h => ⟨data, rfl, h⟩
      · rintro ⟨_, hdata, h⟩
        cases hdata
        exact h

theorem returns_unregister (node : StrosNode) (methd : Bytes) (tp : Topic)
    (resp : Option RpcResponse) :
    Returns (unregister node methd tp resp) ↔ resp ≠ none := by
  rw [unregister, returns_responseCode_bind, Option.ne_none_iff_exists']
  exact exists_congr fun data => and_iff_left (returns_pure _)

/-- A response that `free_response` can take apart. -/
def Freeable (resp : Option RpcResponse) : Prop := ∃ data, resp = some data ∧ data.data ≠ none

theorem returns_freeResponse (resp : Option RpcResponse) :
    Returns (freeResponse resp) ↔ Freeable resp := by
  unfold Freeable
  cases resp with
  | none => exact iff_of_false (not_returns_error _) (by simp)
  | some data =>
      obtain ⟨code, nValue, data⟩ := data
      cases data with
      | none => exact iff_of_false (not_returns_error _) (by simp)
      | some l => exact iff_of_true (returns_ok _) ⟨_, rfl, by simp⟩

/-- The first value of the response is an array whose third value is an array
with the property. -/
def Carries (resp : Option RpcResponse) (P : RList → Prop) : Prop :=
  ∃ data l arr l', resp = some data ∧ data.data = some l ∧ l.head? = some (.array arr) ∧
    listAt arr 2 = some (.array l') ∧ P l'

theorem returns_responseArray_bind {α : Type} (resp : Option RpcResponse) (f : RList → C α) :
    Returns (responseArray resp >>= fun arr => valueArray (listAt arr 2) >>= f) ↔
      Carries resp fun l => Returns (f l) := by
  unfold Carries
  cases resp with
  | none => exact iff_of_false (not_returns_error _) (by simp)
  | some data =>
      obtain ⟨code, nValue, data⟩ := data
      cases data with
      | none => exact iff_of_false (not_returns_error _) (by simp)
      | some l =>
          simp only [responseArray, returns_bind, valueArray_eq_ok]
          constructor
          · rintro ⟨arr, harr, l', hl', hf⟩
            exact ⟨_, l, arr, l', rfl, rfl, harr, hl', hf⟩
          · rintro ⟨_, _, arr, l', hdata, hl, harr, hl', hf⟩
            cases hdata
            cases hl
            exact ⟨arr, harr, l', hl', hf⟩

def RpcResponse.tagged (resp : RpcResponse) : RpcResponse :=
  { resp with data := resp.data.map taggedItems }

theorem carries_tagged {resp : Option RpcResponse} {P : RList → Prop} :
    Carries (resp.map RpcResponse.tagged) P ↔ Carries resp fun l => P (taggedItems l) := by
  constructor
  · rintro ⟨data, l, arr, l', hdata, hl, harr, hl', hP⟩
    obtain ⟨resp', rfl, rfl⟩ := Option.map_eq_some_iff.mp hdata
    obtain ⟨m, hm, rfl⟩ := Option.map_eq_some_iff.mp hl
    rw [taggedItems_eq_map, List.head?_map, map_tagged_array] at harr
    obtain ⟨arr', harr', rfl⟩ := harr
    rw [listAt_tagged, map_tagged_array] at hl'
    obtain ⟨m', hm', rfl⟩ := hl'
    exact ⟨resp', m, arr', m', rfl, hm, harr', hm', hP⟩
  · rintro ⟨data, l, arr, l', rfl, hl, harr, hl', hP⟩
    refine ⟨data.tagged, taggedItems l, taggedItems arr, taggedItems l', rfl, ?_, ?_, ?_, hP⟩
    · simp [RpcResponse.tagged, hl]
    · rw [taggedItems_eq_map, List.head?_map, harr]
      rfl
    · rw [listAt_tagged, hl']
      rfl

/-! ## stros_deploy_publishers -/

/-- An answer to `registerPublisher` that is not NULL and not a fault without a
value; and, where the thread or its socket does not start, some answer to the
deregistration. -/
def PublisherAnswers (a : Answers) : Prop :=
  ∃ data, a.registered = some data ∧ data.data ≠ none ∧
    (data.code ≠ respFault → ¬ (a.threadStarts ∧ a.socketStarts) → a.unregistered ≠ none)

theorem failsByAnswer_deployPublisher (node : StrosNode) (pub : Topic) (a : Answers) :
    FailsByAnswer (deployPublisher node pub a) := by
  refine (failsByAnswer_responseCode _).bind fun code => ?_
  refine FailsByAnswer.bind ?_ fun calls =>
    (failsByAnswer_freeResponse _).bind fun _ => failsByAnswer_ok _
  unfold startPublisher
  split
  · exact failsByAnswer_ok _
  · split
    · exact failsByAnswer_ok _
    · exact failsByAnswer_unregister _ _ _ _

/-- What was not started is withdrawn, and only then an answer is read. -/
theorem returns_unregisterUnless (started : Prop) [Decidable started] (node : StrosNode)
    (methd : Bytes) (tp : Topic) (resp : Option RpcResponse) :
    Returns (if started then .ok [] else unregister node methd tp resp) ↔
      (¬ started → resp ≠ none) := by
  split
  · rename_i hstarts
    exact iff_of_true (returns_ok _) fun hno => absurd hstarts hno
  · rename_i hfails
    rw [returns_unregister]
    exact ⟨fun h _ => h, fun h => h hfails⟩

theorem returns_startPublisher (node : StrosNode) (pub : Topic) (a : Answers) :
    Returns (startPublisher node pub a) ↔
      (¬ (a.threadStarts ∧ a.socketStarts) → a.unregistered ≠ none) :=
  returns_unregisterUnless (a.threadStarts ∧ a.socketStarts) node _ pub a.unregistered

/-- The frame of both loop bodies: the code decides, and the response is freed. -/
theorem returns_registered {α β : Type} (registered : Option RpcResponse) (z : α) (x : C α)
    (g : α → β) :
    Returns (responseCode registered >>= fun code =>
        (if code = respFault then .ok z else x) >>= fun a =>
          freeResponse registered >>= fun _ => pure (g a)) ↔
      ∃ data, registered = some data ∧ data.data ≠ none ∧
        (data.code ≠ respFault → Returns x) := by
  rw [returns_responseCode_bind]
  refine exists_congr fun data => and_congr_right fun hdata => ?_
  have hend : ∀ a, Returns (freeResponse registered >>= fun _ => pure (g a)) ↔
      data.data ≠ none := by
    intro a
    rw [returns_bind_and fun _ => iff_true_intro (returns_pure _), returns_freeResponse, and_true]
    simp [Freeable, hdata]
  rw [returns_bind_and hend, and_comm]
  refine and_congr_right fun _ => ?_
  by_cases hcode : data.code = respFault
  · simp [hcode, returns_ok]
  · simp only [hcode, if_false, ne_eq, not_false_eq_true, forall_const]

theorem returns_deployPublisher (node : StrosNode) (pub : Topic) (a : Answers) :
    Returns (deployPublisher node pub a) ↔ PublisherAnswers a := by
  rw [deployPublisher, returns_registered]
  simp only [returns_startPublisher, PublisherAnswers]

theorem returns_deployPublishers (node : StrosNode) (answers : Bytes → Answers)
    (assocs : List (Bytes × Topic)) :
    Returns (deployPublishers node answers assocs) ↔
      ∀ assoc ∈ assocs, PublisherAnswers (answers assoc.1) := by
  induction assocs with
  | nil => simp [deployPublishers, returns_ok]
  | cons assoc rest ih =>
      have hrest : ∀ calls : List RpcRequest,
          Returns (deployPublishers node answers rest >>= fun more => pure (calls ++ more)) ↔
            ∀ assoc ∈ rest, PublisherAnswers (answers assoc.1) := fun calls => by
        rw [returns_bind_and fun _ => iff_true_intro (returns_pure _), and_true, ih]
      rw [deployPublishers, returns_bind_and hrest, returns_deployPublisher,
        List.forall_mem_cons]

theorem failsByAnswer_deployPublishers (node : StrosNode) (answers : Bytes → Answers)
    (assocs : List (Bytes × Topic)) : FailsByAnswer (deployPublishers node answers assocs) := by
  induction assocs with
  | nil => exact failsByAnswer_ok _
  | cons assoc rest ih =>
      refine (failsByAnswer_deployPublisher _ _ _).bind fun calls => ?_
      exact ih.bind fun more => failsByAnswer_ok _

/-! ## stros_deploy_subscribers -/

/-- A params reply to `registerSubscriber` with a list of publishers in the third
place, and an answer to the deregistration where the thread does not start; or
a fault with a value. -/
def SubscriberAnswers (a : Answers) : Prop :=
  ∃ data, a.registered = some data ∧ data.data ≠ none ∧
    (data.code ≠ respFault →
      Carries a.registered UrlList ∧ (¬ a.threadStarts → a.unregistered ≠ none))

theorem failsByAnswer_startSubscriber (node : StrosNode) (sub : Topic) (a : Answers) :
    FailsByAnswer (startSubscriber node sub a) := by
  refine (failsByAnswer_responseArray _).bind fun arr => ?_
  refine (readsMember_valueArray.failsByAnswer _).bind fun l => ?_
  refine (failsByAnswer_extractUrl _ _).bind fun sub' => ?_
  refine FailsByAnswer.bind ?_ fun calls => failsByAnswer_ok _
  split
  · exact failsByAnswer_ok _
  · exact failsByAnswer_unregister _ _ _ _

theorem failsByAnswer_deploySubscriber (node : StrosNode) (sub : Topic) (a : Answers) :
    FailsByAnswer (deploySubscriber node sub a) := by
  refine (failsByAnswer_responseCode _).bind fun code => ?_
  refine FailsByAnswer.bind ?_ fun calls =>
    (failsByAnswer_freeResponse _).bind fun _ => failsByAnswer_ok _
  split
  · exact failsByAnswer_ok _
  · exact failsByAnswer_startSubscriber _ _ _

theorem returns_startSubscriber (node : StrosNode) (sub : Topic) (a : Answers) :
    Returns (startSubscriber node sub a) ↔
      Carries a.registered ReadsUrl ∧ (¬ a.threadStarts → a.unregistered ≠ none) := by
  have hthread : ∀ sub' : Topic,
      Returns ((if a.threadStarts then .ok []
        else unregister node (str "unregisterSubscriber") sub' a.unregistered) >>=
          fun calls => pure (calls, sub') : C (List RpcRequest × Topic)) ↔
        (¬ a.threadStarts → a.unregistered ≠ none) := by
    intro sub'
    rw [returns_bind_and fun _ => iff_true_intro (returns_pure _), and_true,
      returns_unregisterUnless]
  rw [startSubscriber, returns_responseArray_bind]
  simp only [returns_bind_and hthread, returns_extractUrl, Carries]
  grind

def Answers.tagged (a : Answers) : Answers :=
  { a with
    registered := a.registered.map RpcResponse.tagged
    unregistered := a.unregistered.map RpcResponse.tagged }

theorem returns_deploySubscriber (node : StrosNode) (sub : Topic) (a : Answers) :
    Returns (deploySubscriber node sub a.tagged) ↔ SubscriberAnswers a := by
  rw [deploySubscriber, returns_registered]
  simp only [returns_startSubscriber, SubscriberAnswers, Answers.tagged, carries_tagged,
    readsUrl_tagged, ne_eq, Option.map_eq_none_iff]
  constructor
  · rintro ⟨_, hmapped, hset, hstart⟩
    obtain ⟨data, hdata, rfl⟩ := Option.map_eq_some_iff.mp hmapped
    rw [RpcResponse.tagged, Option.map_eq_none_iff] at hset
    exact ⟨data, hdata, hset, hstart⟩
  · rintro ⟨data, hdata, hset, hstart⟩
    refine ⟨data.tagged, by rw [hdata]; rfl, ?_, hstart⟩
    rwa [RpcResponse.tagged, Option.map_eq_none_iff]

theorem returns_deploySubscribers (node : StrosNode) (answers : Bytes → Answers)
    (assocs : List (Bytes × Topic)) (subscribers : Dictionary Topic) :
    Returns (deploySubscribers node (fun key => (answers key).tagged) assocs subscribers) ↔
      ∀ assoc ∈ assocs, SubscriberAnswers (answers assoc.1) := by
  induction assocs generalizing subscribers with
  | nil => simp [deploySubscribers, returns_ok]
  | cons assoc rest ih =>
      have hrest : ∀ calls : List RpcRequest × Topic,
          Returns (deploySubscribers node (fun key => (answers key).tagged) rest
              (dput subscribers assoc.1 calls.2) >>=
              fun more => pure (calls.1 ++ more.1, more.2)) ↔
            ∀ assoc ∈ rest, SubscriberAnswers (answers assoc.1) := fun calls => by
        rw [returns_bind_and fun _ => iff_true_intro (returns_pure _), and_true, ih]
      rw [deploySubscribers, returns_bind_and hrest, returns_deploySubscriber,
        List.forall_mem_cons]

theorem failsByAnswer_deploySubscribers (node : StrosNode) (answers : Bytes → Answers)
    (assocs : List (Bytes × Topic)) (subscribers : Dictionary Topic) :
    FailsByAnswer (deploySubscribers node answers assocs subscribers) := by
  induction assocs generalizing subscribers with
  | nil => exact failsByAnswer_ok _
  | cons assoc rest ih =>
      refine (failsByAnswer_deploySubscriber _ _ _).bind fun calls => ?_
      exact (ih _).bind fun more => failsByAnswer_ok _

/-! ## subscriber_listener -/

/-- NULL, a fault, or a params reply with an array in the third place; where that
array has three values the second is a string and the third an integer. -/
def TopicAnswer (resp : Option RpcResponse) : Prop :=
  ∀ data, resp = some data → data.code ≠ respFault →
    Carries resp fun l => listSize l = 3 →
      (∃ ip, listAt l 1 = some (.string ip)) ∧ ∃ port, listAt l 2 = some (.int port)

/-- The reads of the listener are those of the deployment, behind a check. -/
theorem replyAddress_eq (resp : Option RpcResponse) :
    replyAddress resp =
      match resp with
      | none => .ok none
      | some data =>
          if data.code = respFault then .ok none
          else do
            let arr ← responseArray (some data)
            let l1 ← valueArray (listAt arr 2)
            if listSize l1 = 3 then do
              let ip ← valueS (listAt l1 1)
              let port ← valueI (listAt l1 2)
              return some (ip, port)
            else return none := by
  cases resp with
  | none => rfl
  | some data =>
      obtain ⟨code, nValue, data⟩ := data
      cases data <;> rfl

theorem failsByAnswer_replyAddress (resp : Option RpcResponse) :
    FailsByAnswer (replyAddress resp) := by
  rw [replyAddress_eq]
  cases resp with
  | none => exact failsByAnswer_ok _
  | some data =>
      simp only
      split
      · exact failsByAnswer_ok _
      · refine (failsByAnswer_responseArray _).bind fun arr => ?_
        refine (readsMember_valueArray.failsByAnswer _).bind fun l1 => ?_
        split
        · refine (readsMember_valueS.failsByAnswer _).bind fun ip => ?_
          exact (readsMember_valueI.failsByAnswer _).bind fun port => failsByAnswer_ok _
        · exact failsByAnswer_ok _

theorem returns_replyAddress (resp : Option RpcResponse) :
    Returns (replyAddress (resp.map RpcResponse.tagged)) ↔ TopicAnswer resp := by
  rw [replyAddress_eq]
  unfold TopicAnswer
  cases resp with
  | none => simp [returns_ok]
  | some data =>
      have hcodes : data.tagged.code = data.code := rfl
      simp only [Option.map_some, Option.some.injEq, forall_eq', hcodes]
      by_cases hcode : data.code = respFault
      · simp [hcode, returns_ok]
      · have hread : ∀ l : RList,
            Returns (if listSize (taggedItems l) = 3 then do
                let ip ← valueS (listAt (taggedItems l) 1)
                let port ← valueI (listAt (taggedItems l) 2)
                return some (ip, port)
              else return none : C (Option (Bytes × Int32))) ↔
              (listSize l = 3 →
                (∃ ip, listAt l 1 = some (.string ip)) ∧
                  ∃ port, listAt l 2 = some (.int port)) := by
          intro l
          rw [listSize_tagged]
          by_cases hsize : listSize l = 3
          · simp only [hsize, if_true, forall_const, returns_bind, listAt_tagged, valueS_tagged,
              valueI_tagged, returns_pure, and_true]
            grind
          · simp [hsize, returns_pure]
        have hcarries := @carries_tagged (some data) fun l =>
          Returns (if listSize l = 3 then do
              let ip ← valueS (listAt l 1)
              let port ← valueI (listAt l 2)
              return some (ip, port)
            else return none : C (Option (Bytes × Int32)))
        rw [Option.map_some] at hcarries
        rw [if_neg hcode, returns_responseArray_bind, hcarries]
        simp only [hread, ne_eq, hcode, not_false_eq_true, forall_const]

/-! ## The runs on what is there -/

/-- What is read of the answers as their tags have it is read of the answers themselves. -/
theorem responseArray_untagged {resp : Option RpcResponse} {arr : RList}
    (h : responseArray (resp.map RpcResponse.tagged) = .ok arr) :
    ∃ arr', responseArray resp = .ok arr' ∧ taggedItems arr' = arr := by
  cases resp with
  | none => cases h
  | some data =>
      obtain ⟨code, nValue, data⟩ := data
      cases data with
      | none => cases h
      | some l =>
          have hread : valueArray ((taggedItems l).head?) = .ok arr := h
          rw [taggedItems_eq_map, List.head?_map, valueArray_tagged] at hread
          obtain ⟨arr', harr', rfl⟩ := hread
          exact ⟨arr', valueArray_eq_ok.mpr harr', rfl⟩

theorem startSubscriber_untagged {node : StrosNode} {sub : Topic} {a : Answers}
    {r : List RpcRequest × Topic} (h : startSubscriber node sub a.tagged = .ok r) :
    startSubscriber node sub a = .ok r := by
  obtain ⟨_, hfirst, h⟩ := bind_eq_ok.mp h
  obtain ⟨arr, harr, rfl⟩ := responseArray_untagged hfirst
  obtain ⟨_, hthird, h⟩ := bind_eq_ok.mp h
  rw [listAt_tagged, valueArray_tagged] at hthird
  obtain ⟨l, hl, rfl⟩ := hthird
  obtain ⟨sub', hurl, h⟩ := bind_eq_ok.mp h
  have hanswer : unregister node (str "unregisterSubscriber") sub' a.tagged.unregistered =
      unregister node (str "unregisterSubscriber") sub' a.unregistered := by
    rw [Answers.tagged]
    cases a.unregistered <;> rfl
  rw [hanswer] at h
  exact bind_eq_ok.mpr ⟨arr, harr, bind_eq_ok.mpr ⟨l, valueArray_eq_ok.mpr hl, bind_eq_ok.mpr
    ⟨sub', extractUrl_untagged hurl, h⟩⟩⟩

theorem deploySubscriber_untagged {node : StrosNode} {sub : Topic} {a : Answers}
    {r : List RpcRequest × Topic} (h : deploySubscriber node sub a.tagged = .ok r) :
    deploySubscriber node sub a = .ok r := by
  obtain ⟨code, hcode, h⟩ := bind_eq_ok.mp h
  obtain ⟨⟨calls, sub'⟩, hstart, h⟩ := bind_eq_ok.mp h
  obtain ⟨u, hfree, h⟩ := bind_eq_ok.mp h
  have hcode' : responseCode a.registered = .ok code := by
    cases hreg : a.registered with
    | none =>
        rw [Answers.tagged, hreg] at hcode
        cases hcode
    | some data =>
        rw [Answers.tagged, hreg] at hcode
        exact hcode
  have hfree' : freeResponse a.registered = .ok () := by
    obtain ⟨data, hdata, hset⟩ := (returns_freeResponse _).mp ⟨u, hfree⟩
    obtain ⟨data', hdata', rfl⟩ := Option.map_eq_some_iff.mp hdata
    rw [RpcResponse.tagged, ne_eq, Option.map_eq_none_iff] at hset
    obtain ⟨u', hu'⟩ := (returns_freeResponse a.registered).mpr ⟨data', hdata', hset⟩
    exact hu'
  have hstart' : (if code = respFault then .ok ([], sub) else startSubscriber node sub a) =
      (.ok (calls, sub') : C (List RpcRequest × Topic)) := by
    split
    · rwa [if_pos ‹_›] at hstart
    · rw [if_neg ‹_›] at hstart
      exact startSubscriber_untagged hstart
  exact bind_eq_ok.mpr ⟨code, hcode', bind_eq_ok.mpr ⟨_, hstart', bind_eq_ok.mpr ⟨_, hfree', h⟩⟩⟩

theorem deploySubscribers_untagged {node : StrosNode} {answers : Bytes → Answers}
    {assocs : List (Bytes × Topic)} {subscribers : Dictionary Topic}
    {r : List RpcRequest × Dictionary Topic}
    (h : deploySubscribers node (fun key => (answers key).tagged) assocs subscribers = .ok r) :
    deploySubscribers node answers assocs subscribers = .ok r := by
  induction assocs generalizing subscribers r with
  | nil => exact h
  | cons assoc rest ih =>
      obtain ⟨calls, hcalls, h⟩ := bind_eq_ok.mp h
      obtain ⟨more, hmore, h⟩ := bind_eq_ok.mp h
      exact bind_eq_ok.mpr
        ⟨calls, deploySubscriber_untagged hcalls, bind_eq_ok.mpr ⟨more, ih hmore, h⟩⟩

theorem replyAddress_untagged {resp : Option RpcResponse} {r : Option (Bytes × Int32)}
    (h : replyAddress (resp.map RpcResponse.tagged) = .ok r) : replyAddress resp = .ok r := by
  rw [replyAddress_eq] at h ⊢
  cases resp with
  | none => exact h
  | some data =>
      have hcodes : data.tagged.code = data.code := rfl
      simp only [Option.map_some, hcodes] at h ⊢
      split
      · rwa [if_pos ‹_›] at h
      · rw [if_neg ‹_›] at h
        obtain ⟨_, hfirst, h⟩ := bind_eq_ok.mp h
        obtain ⟨arr, harr, rfl⟩ := @responseArray_untagged (some data) _ hfirst
        obtain ⟨_, hthird, h⟩ := bind_eq_ok.mp h
        rw [listAt_tagged, valueArray_tagged] at hthird
        obtain ⟨l, hl, rfl⟩ := hthird
        rw [listSize_tagged] at h
        refine bind_eq_ok.mpr ⟨arr, harr, bind_eq_ok.mpr ⟨l, valueArray_eq_ok.mpr hl, ?_⟩⟩
        split
        · rw [if_pos ‹_›] at h
          obtain ⟨ip, hip, h⟩ := bind_eq_ok.mp h
          obtain ⟨port, hport, h⟩ := bind_eq_ok.mp h
          rw [listAt_tagged, valueS_tagged] at hip
          rw [listAt_tagged, valueI_tagged] at hport
          rw [hip, hport]
          exact h
        · rwa [if_neg ‹_›] at h

/-! ## All four -/

theorem survives_deployPublishers (node : StrosNode) (answers : Bytes → Answers) :
    Survives (strosDeployPublishers node answers) ↔
      ∀ assoc ∈ forEachAssoc node.publishers, PublisherAnswers (answers assoc.1) := by
  rw [strosDeployPublishers, survives_iff_returns (failsByAnswer_deployPublishers _ _ _)]
  exact returns_deployPublishers node answers _

/-- Each caller survives exactly the answers it is up to, with a member of another type read as
none. -/
theorem callers_survive_iff (node : StrosNode) (answers : Bytes → Answers) (methd : Bytes)
    (tp : Topic) (resp : Option RpcResponse) :
    (Survives (strosDeployPublishers node answers) ↔
        ∀ assoc ∈ forEachAssoc node.publishers, PublisherAnswers (answers assoc.1)) ∧
      (Survives (strosDeploySubscribers node fun key => (answers key).tagged) ↔
        ∀ assoc ∈ forEachAssoc node.subscribers, SubscriberAnswers (answers assoc.1)) ∧
      (Survives (unregister node methd tp resp) ↔ resp ≠ none) ∧
      (Survives (replyAddress (resp.map RpcResponse.tagged)) ↔ TopicAnswer resp) := by
  refine ⟨survives_deployPublishers node answers, ?_, ?_, ?_⟩
  · rw [strosDeploySubscribers, survives_iff_returns (failsByAnswer_deploySubscribers _ _ _ _)]
    exact returns_deploySubscribers node answers _ _
  · rw [survives_iff_returns (failsByAnswer_unregister _ _ _ _), returns_unregister]
  · rw [survives_iff_returns (failsByAnswer_replyAddress _), returns_replyAddress]

def talkerNode : StrosNode :=
  createPublisher (strosInitNode (str "talker") [] 0) (str "chatter") (str "std_msgs/String")

theorem chatter_mem_talkerNode :
    ∃ pub, (str "chatter", pub) ∈ forEachAssoc talkerNode.publishers :=
  ⟨_, (mem_forEachAssoc (dput_wellFormed dict_wellFormed _ _)).mpr (dvalue_dput_self _ _ _)⟩

/-- The deployment of a publisher survives neither a master that is not there nor
one that answers with an empty fault. -/
theorem callers_notSurvive :
    (¬ Survives (strosDeployPublishers talkerNode fun _ => ⟨none, true, true, none⟩)) ∧
      parseResponseRoot (.mk (str "methodResponse") none [.mk (str "fault") none []]) =
        .ok (some ⟨respFault, 2, none⟩) ∧
      ¬ Survives (strosDeployPublishers talkerNode fun _ =>
        ⟨some ⟨respFault, 2, none⟩, true, true, none⟩) := by
  obtain ⟨pub, hpub⟩ := chatter_mem_talkerNode
  refine ⟨fun h => ?_, rfl, fun h => ?_⟩
  · obtain ⟨data, hdata, -⟩ := (survives_deployPublishers _ _).mp h _ hpub
    cases hdata
  · obtain ⟨data, hdata, hset, -⟩ := (survives_deployPublishers _ _).mp h _ hpub
    cases hdata
    exact hset rfl

end STRos
