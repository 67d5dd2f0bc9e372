import STRos.Deploy.Answers

/-! # Which answers of the master start a listener

A reply is classified by its XML shape, params or fault. The master reports a
refusal as a status inside a params reply, and this status is not read.
-/

namespace STRos

open CString

/-! ## The way to pthread_create -/

def publisherStarts (registered : Option RpcResponse) : C Bool := do
  let code ← responseCode registered
  return decide (code ≠ respFault)

def subscriberStarts (sub : Topic) (registered : Option RpcResponse) : C (Bool × Topic) := do
  let code ← responseCode registered
  if code = respFault then return (false, sub)
  else
    let arr ← responseArray registered
    let l ← valueArray (listAt arr 2)
    let sub ← extractUrl sub l
    return (true, sub)

/-- The loop body of the publishers is this decision and what follows from it. -/
theorem deployPublisher_eq (node : StrosNode) (pub : Topic) (a : Answers) :
    deployPublisher node pub a = (do
      let starts ← publisherStarts a.registered
      let calls ← (if starts then startPublisher node pub a else .ok [])
      freeResponse a.registered
      return registerCall node (str "registerPublisher") pub :: calls) := by
  unfold deployPublisher publisherStarts
  cases a.registered with
  | none => rfl
  | some data =>
      by_cases hcode : data.code = respFault
      · simp [responseCode, hcode, bind, Except.bind, pure, Except.pure]
      · simp [responseCode, hcode, bind, Except.bind, pure, Except.pure]

theorem deploySubscriber_eq (node : StrosNode) (sub : Topic) (a : Answers) :
    deploySubscriber node sub a = (do
      let (starts, sub') ← subscriberStarts sub a.registered
      let calls ← (if starts ∧ a.threadStarts = false then
        unregister node (str "unregisterSubscriber") sub' a.unregistered else .ok [])
      freeResponse a.registered
      return (registerCall node (str "registerSubscriber") sub :: calls, sub')) := by
  unfold deploySubscriber subscriberStarts startSubscriber
  cases a.registered with
  | none => rfl
  | some data =>
      by_cases hcode : data.code = respFault
      · simp [responseCode, hcode, bind, Except.bind, pure, Except.pure]
      · simp only [responseCode, hcode, bind, Except.bind, if_false]
        cases responseArray (some data) with
        | error e => rfl
        | ok arr =>
            simp only
            cases valueArray (listAt arr 2) with
            | error e => rfl
            | ok l =>
                simp only
                cases extractUrl sub l with
                | error e => rfl
                | ok sub' =>
                    cases a.threadStarts with
                    | true => simp [pure, Except.pure]
                    | false =>
                        simp only [Bool.false_eq_true, if_false, pure, Except.pure, true_and,
                          if_true]
                        cases unregister node (str "unregisterSubscriber") sub' a.unregistered with
                        | error e => rfl
                        | ok calls => rfl

/-! ## Success in the master's sense -/

/-- A params reply whose value is an array with the status 1 in front. -/
def MasterAccepts (resp : RpcResponse) : Prop :=
  resp.code = respOk ∧ ∃ data arr, resp.data = some data ∧ data.head? = some (.array arr) ∧
    listAt arr 0 = some (.int 1)

/-- The thread of a publisher starts exactly on success. -/
def PublisherServed (resp : RpcResponse) : Prop :=
  ∃ starts, publisherStarts (some resp) = .ok starts ∧ (starts = true ↔ MasterAccepts resp)

def SubscriberServed (sub : Topic) (resp : RpcResponse) : Prop :=
  ∃ starts sub', subscriberStarts sub (some resp) = .ok (starts, sub') ∧
    (starts = true ↔ MasterAccepts resp) ∧
    (¬ MasterAccepts resp → sub'.uri = sub.uri ∧ sub'.port = sub.port ∧ sub'.status = sub.status)

theorem not_masterAccepts_of_fault {resp : RpcResponse} (h : resp.code = respFault) :
    ¬ MasterAccepts resp := by
  intro haccepts
  rw [MasterAccepts, h] at haccepts
  exact absurd haccepts.1 (by decide)

theorem publisherServed_iff (resp : RpcResponse) :
    PublisherServed resp ↔ resp.code = respFault ∨ MasterAccepts resp := by
  have hstarts : publisherStarts (some resp) = .ok (decide (resp.code ≠ respFault)) := rfl
  unfold PublisherServed
  simp only [hstarts, Except.ok.injEq, exists_eq_left', decide_eq_true_eq]
  constructor
  · intro h
    by_cases hcode : resp.code = respFault
    · exact Or.inl hcode
    · exact Or.inr (h.mp hcode)
  · intro h
    cases h with
    | inl hcode =>
        constructor
        · intro hne
          exact absurd hcode hne
        · intro haccepts
          exact absurd haccepts (not_masterAccepts_of_fault hcode)
    | inr haccepts =>
        constructor
        · intro _
          exact haccepts
        · intro _ hcode
          exact not_masterAccepts_of_fault hcode haccepts

theorem subscriberStarts_params {resp : RpcResponse} (hcode : resp.code ≠ respFault) (sub : Topic) :
    subscriberStarts sub (some resp) =
      responseArray (some resp) >>= fun arr => valueArray (listAt arr 2) >>= fun l =>
        extractUrl sub l >>= fun sub' => pure (true, sub') := by
  simp [subscriberStarts, responseCode, hcode, bind, Except.bind]

/-- Behind a reply that is no fault the thread starts when the loop gets there. -/
theorem returns_subscriberStarts {resp : RpcResponse} (hcode : resp.code ≠ respFault)
    (sub : Topic) : Returns (subscriberStarts sub (some resp)) ↔ Carries (some resp) ReadsUrl := by
  have hurl : ∀ l,
      Returns (extractUrl sub l >>= fun sub' => (pure (true, sub') : C (Bool × Topic))) ↔
        ReadsUrl l := by
    intro l
    rw [returns_bind_and fun _ => iff_true_intro (returns_pure _), and_true, returns_extractUrl]
  rw [subscriberStarts_params hcode, returns_responseArray_bind]
  simp only [hurl]

theorem subscriberStarts_true {resp : RpcResponse} (hcode : resp.code ≠ respFault)
    {sub sub' : Topic} {starts : Bool}
    (h : subscriberStarts sub (some resp) = .ok (starts, sub')) : starts = true := by
  rw [subscriberStarts_params hcode] at h
  obtain ⟨arr, -, h⟩ := bind_eq_ok.mp h
  obtain ⟨l, -, h⟩ := bind_eq_ok.mp h
  obtain ⟨sub'', -, h⟩ := bind_eq_ok.mp h
  cases h
  rfl

theorem subscriberServed_iff (sub : Topic) (resp : RpcResponse) :
    SubscriberServed sub resp ↔
      resp.code = respFault ∨ (MasterAccepts resp ∧ Carries (some resp) ReadsUrl) := by
  by_cases hcode : resp.code = respFault
  · have hstarts : subscriberStarts sub (some resp) = .ok (false, sub) := by
      simp [subscriberStarts, responseCode, hcode, bind, Except.bind, pure, Except.pure]
    have hnot := not_masterAccepts_of_fault hcode
    constructor
    · intro _
      exact Or.inl hcode
    · intro _
      refine ⟨false, sub, hstarts, ?_, fun _ => ⟨rfl, rfl, rfl⟩⟩
      constructor
      · intro h
        cases h
      · intro h
        exact absurd h hnot
  · simp only [hcode, false_or]
    rw [← returns_subscriberStarts hcode sub]
    constructor
    · rintro ⟨starts, sub', hsub', hiff, -⟩
      exact ⟨hiff.mp (subscriberStarts_true hcode hsub'), _, hsub'⟩
    · rintro ⟨haccepts, ⟨starts, sub'⟩, hsub'⟩
      have hstarts := subscriberStarts_true hcode hsub'
      exact ⟨starts, sub', hsub', iff_of_true hstarts haccepts, fun hno => absurd haccepts hno⟩

/-- Both loops serve what the master accepts exactly as long as it refuses by a
fault, and a success of `registerSubscriber` carries the list of publishers. -/
theorem servedIfAccepted_iff (sub : Topic) (resp : RpcResponse) :
    (PublisherServed resp ↔ resp.code = respFault ∨ MasterAccepts resp) ∧
      (SubscriberServed sub resp ↔
        resp.code = respFault ∨ (MasterAccepts resp ∧ Carries (some resp) ReadsUrl)) :=
  ⟨publisherServed_iff resp, subscriberServed_iff sub resp⟩

def around (tag : String) (node : XMLNode) : XMLNode := .mk (str tag) none [node]

def statusReply (status : String) : XMLNode :=
  around "methodResponse" (around "params" (around "param" (around "value" (around "array"
    (.mk (str "data") none
      [around "value" (.mk (str "int") (some (str status)) []),
        around "value" (.mk (str "string") (some (str "no")) []),
        around "value" (around "array" (.mk (str "data") none []))])))))

/-- A refusal with status -1 starts the thread of a publisher. -/
theorem servedIfAccepted_broken :
    ¬ ∀ (root : XMLNode) (resp : RpcResponse) (sub : Topic),
      parseResponseRoot root = .ok (some resp) →
        PublisherServed resp ∧ SubscriberServed sub resp := by
  intro h
  have hparse : parseResponseRoot (statusReply "-1") =
      .ok (some ⟨respOk, 1, some [.array [.int (-1), .string (str "no"), .array listInit]]⟩) := by
    rfl
  have hserved := (h (statusReply "-1") _
    ⟨str "/listener", str "/chatter", str "std_msgs/String", none, 0, .down⟩ hparse).1
  cases (publisherServed_iff _).mp hserved with
  | inl hcode => exact absurd hcode (by decide)
  | inr haccepts =>
      obtain ⟨-, data, arr, hdata, hhead, hstatus⟩ := haccepts
      cases hdata
      cases hhead
      cases hstatus

end STRos
