import STRos.Subscribe.Refresh
import STRos.Rpc.Server

/-! # A node with its server and its listeners

The threads of one node: the server, which takes the requests of any clients, and a listener
for each subscriber that was deployed. The server and the listener of a topic share the record
of its subscriber. A request is one step: what the server does before the block of
`extract_url` reads nothing that another thread changes.
-/

namespace STRos

open CString Transition

/-- The variables of `subscriber_listener`, with the pair that was asked for the address. -/
structure Listener where
  pc : ListenPc
  ip : Option Bytes
  port : Int32
  asked : Option (Option Bytes × Int32)

structure NodeState where
  rosOk : Bool
  node : RosNode
  listener : Bytes → Option Listener

/-- A listener with the record it shares with the server. -/
def NodeState.subscriber (s : NodeState) (topic : Bytes) : Option SubState :=
  match dvalue s.node.subscribers topic, s.listener topic with
  | some sub, some l => some ⟨s.rosOk, sub, l.pc, l.ip, l.port, (sub.uri, sub.port), l.asked⟩
  | _, _ => none

def NodeState.setSubscriber (s : NodeState) (topic : Bytes) (v : SubState) : NodeState where
  rosOk := s.rosOk
  node := { s.node with subscribers := dput s.node.subscribers topic v.sub }
  listener := Function.update s.listener topic (some ⟨v.pc, v.ip, v.port, v.asked⟩)

inductive NodeAct
  /-- A client's bytes on a connection that the server has accepted. -/
  | request (heap : Nat → Byte) (junk sock : Bytes)
  /-- `stros_toggle (false)` -/
  | stop
  /-- `stros_deploy_subscribers` has the publishers of the topic from the master. -/
  | deploy (topic : Bytes) (l : RList)
  | listen (topic : Bytes) (choice : Choice)

section Node

variable (parseXml : Bytes → C (Option XMLDoc))

def nodeStep (s : NodeState) : NodeAct → Option NodeState
  | .request heap junk sock =>
      match strosAcceptRequest parseXml heap junk sock s.node with
      | .error _ => none
      | .ok (_, node) => some { s with node := node }
  | .stop => some { s with rosOk := false }
  | .deploy topic l =>
      match dvalue s.node.subscribers topic, s.listener topic with
      | some sub, none =>
          match extractUrl sub l with
          | .error _ => none
          | .ok sub =>
              some (s.setSubscriber topic
                ⟨s.rosOk, sub, .headRos, none, 0, (sub.uri, sub.port), none⟩)
      | _, _ => none
  | .listen topic choice =>
      match s.subscriber topic with
      | none => none
      | some v => (subscriberListener v choice).map (s.setSubscriber topic)

def nodeSystem (node : RosNode) : System NodeState NodeAct where
  init s := s = ⟨true, node, fun _ => none⟩
  step := nodeStep parseXml

end Node

/-! ## The record and the listener of a topic -/

section Views

variable {s t : NodeState} {topic topic' : Bytes} {v : SubState}

theorem NodeState.subscriber_eq_some :
    s.subscriber topic = some v ↔
      ∃ sub l, dvalue s.node.subscribers topic = some sub ∧ s.listener topic = some l ∧
        v = ⟨s.rosOk, sub, l.pc, l.ip, l.port, (sub.uri, sub.port), l.asked⟩ := by
  unfold NodeState.subscriber
  cases dvalue s.node.subscribers topic with
  | none => simp
  | some sub =>
      cases s.listener topic with
      | none => simp
      | some l =>
          simp only [Option.some.injEq]
          constructor
          · intro h
            exact ⟨sub, l, rfl, rfl, h.symm⟩
          · rintro ⟨_, _, rfl, rfl, h⟩
            exact h.symm

theorem NodeState.subscriber_installed (h : s.subscriber topic = some v) :
    v.rosOk = s.rosOk ∧ v.installed = (v.sub.uri, v.sub.port) ∧
      dvalue s.node.subscribers topic = some v.sub := by
  obtain ⟨sub, l, hsub, -, rfl⟩ := subscriber_eq_some.mp h
  exact ⟨rfl, rfl, hsub⟩

theorem NodeState.subscriber_set_self (s : NodeState) (topic : Bytes) {v : SubState}
    (hok : v.rosOk = s.rosOk) (hinstalled : v.installed = (v.sub.uri, v.sub.port)) :
    (s.setSubscriber topic v).subscriber topic = some v := by
  rw [subscriber_eq_some]
  refine ⟨v.sub, ⟨v.pc, v.ip, v.port, v.asked⟩, dvalue_dput_self _ _ _,
    Function.update_self _ _ _, ?_⟩
  simp only [setSubscriber, ← hok, ← hinstalled]

theorem NodeState.subscriber_set_ne (s : NodeState) (v : SubState) (hne : topic' ≠ topic) :
    (s.setSubscriber topic v).subscriber topic' = s.subscriber topic' := by
  simp only [subscriber, setSubscriber, dvalue_dput_ne _ _ hne, Function.update_of_ne hne]

end Views

/-! ## What a request does -/

inductive AfterRequest (node : RosNode) : RosNode → Prop
  | same : AfterRequest node node
  | update (topic : Bytes) {sub sub' : Topic} (l : RList)
      (hsub : dvalue node.subscribers topic = some sub) (hurl : extractUrl sub l = .ok sub') :
      AfterRequest node { node with subscribers := dput node.subscribers topic sub' }

theorem publisherUpdate_after {node node' : RosNode} {params : RList} {reply : Reply}
    (h : publisherUpdate node params = .ok (reply, node')) : AfterRequest node node' := by
  simp only [publisherUpdate, bind_eq_ok] at h
  obtain ⟨topic, -, h⟩ := h
  cases hsub : dvalue node.subscribers topic with
  | none =>
      simp only [hsub] at h
      cases h
      exact .same
  | some sub =>
      simp only [hsub, bind_eq_ok] at h
      obtain ⟨l, -, sub', hurl, h⟩ := h
      cases h
      exact .update topic l hsub hurl

theorem xmlRpcApiHandler_after {node node' : RosNode} {m : RpcRequest} {reply : Option Reply}
    (h : xmlRpcApiHandler m node = .ok (reply, node')) : AfterRequest node node' := by
  unfold xmlRpcApiHandler at h
  split at h
  · cases h
    exact .same
  · split at h
    · obtain ⟨⟨reply', node''⟩, hupdate, h⟩ := bind_eq_ok.mp h
      cases h
      exact publisherUpdate_after hupdate
    · split at h
      · obtain ⟨reply', -, h⟩ := bind_eq_ok.mp h
        cases h
        exact .same
      · cases h
        exact .same

theorem parseRequest_after {parseXml : Bytes → C (Option XMLDoc)} {heap : Nat → Byte}
    {sock : Bytes} {node node' : RosNode} {reply : Option Reply}
    (h : parseRequest parseXml heap sock node = .ok (reply, node')) : AfterRequest node node' := by
  unfold parseRequest at h
  obtain ⟨request, -, h⟩ := bind_eq_ok.mp h
  cases request with
  | none =>
      cases h
      exact .same
  | some request =>
      obtain ⟨doc, -, h⟩ := bind_eq_ok.mp h
      cases doc with
      | none =>
          cases h
          exact .same
      | some doc =>
          obtain ⟨root, -, h⟩ := bind_eq_ok.mp h
          split at h
          · cases h
            exact .same
          · obtain ⟨m, -, h⟩ := bind_eq_ok.mp h
            cases m with
            | none =>
                cases h
                exact .same
            | some m => exact xmlRpcApiHandler_after h

theorem strosAcceptRequest_after {parseXml : Bytes → C (Option XMLDoc)} {heap : Nat → Byte}
    {junk sock : Bytes} {node node' : RosNode} {reply : Option Reply}
    (h : strosAcceptRequest parseXml heap junk sock node = .ok (reply, node')) :
    AfterRequest node node' := by
  unfold strosAcceptRequest at h
  dsimp only at h
  split at h
  · cases h
    exact .same
  · split at h
    · cases h
      exact .same
    · exact parseRequest_after h

/-! ## What a step does to one subscriber -/

/-- The listener does not change the address of its subscriber, nor what is not its own. -/
theorem subscriberListener_keeps {v w : SubState} {choice : Choice}
    (h : subscriberListener v choice = some w) :
    w.rosOk = v.rosOk ∧ w.installed = v.installed ∧
      w.sub = { v.sub with status := w.sub.status } := by
  unfold subscriberListener at h
  split at h
  case h_9 =>
    split at h
    · cases h
    all_goals
      cases h
      exact ⟨rfl, rfl, rfl⟩
  all_goals
    cases h
    try exact ⟨rfl, rfl, rfl⟩

section Steps

variable {parseXml : Bytes → C (Option XMLDoc)} {s t : NodeState} {topic : Bytes}

theorem request_subscriber {heap : Nat → Byte} {junk sock : Bytes}
    (h : nodeStep parseXml s (.request heap junk sock) = some t) (topic : Bytes) :
    t.subscriber topic = s.subscriber topic ∨
      ∃ v l w, s.subscriber topic = some v ∧ subStep v (.update l) = some w ∧
        t.subscriber topic = some w := by
  simp only [nodeStep] at h
  cases hserver : strosAcceptRequest parseXml heap junk sock s.node with
  | error e => simp [hserver] at h
  | ok result =>
      obtain ⟨reply, node⟩ := result
      simp only [hserver] at h
      cases h
      cases strosAcceptRequest_after hserver with
      | same => exact Or.inl rfl
      | @update topic' sub sub' l hsub hurl =>
          by_cases htopic : topic = topic'
          · subst htopic
            cases hl : s.listener topic with
            | none => exact Or.inl (by simp [NodeState.subscriber, hsub, hl])
            | some listener =>
                refine Or.inr ⟨_, l, _, NodeState.subscriber_eq_some.mpr
                  ⟨sub, listener, hsub, hl, rfl⟩, ?_, NodeState.subscriber_eq_some.mpr
                  ⟨sub', listener, dvalue_dput_self _ _ _, hl, rfl⟩⟩
                simp only [subStep, hurl]
          · left
            simp only [NodeState.subscriber, dvalue_dput_ne _ _ htopic]

theorem stop_subscriber (h : nodeStep parseXml s .stop = some t) (topic : Bytes) :
    t.subscriber topic = (s.subscriber topic).map fun v => { v with rosOk := false } := by
  cases h
  simp only [NodeState.subscriber]
  cases dvalue s.node.subscribers topic with
  | none => rfl
  | some sub => cases s.listener topic <;> rfl

theorem deploy_subscriber {topic' : Bytes} {l : RList}
    (h : nodeStep parseXml s (.deploy topic' l) = some t) (topic : Bytes) :
    t.subscriber topic = s.subscriber topic ∨
      (topic = topic' ∧ s.subscriber topic = none ∧
        ∃ sub sub', dvalue s.node.subscribers topic = some sub ∧ extractUrl sub l = .ok sub' ∧
          t.subscriber topic =
            some ⟨s.rosOk, sub', .headRos, none, 0, (sub'.uri, sub'.port), none⟩) := by
  simp only [nodeStep] at h
  split at h
  · rename_i sub hsub hnone
    cases hurl : extractUrl sub l with
    | error e => simp [hurl] at h
    | ok sub' =>
        simp only [hurl] at h
        cases h
        by_cases htopic : topic = topic'
        · subst htopic
          refine Or.inr ⟨rfl, by simp [NodeState.subscriber, hnone], sub, sub', hsub, hurl, ?_⟩
          exact NodeState.subscriber_set_self _ _ rfl rfl
        · exact Or.inl (NodeState.subscriber_set_ne _ _ htopic)
  · cases h

theorem listen_subscriber {topic' : Bytes} {choice : Choice}
    (h : nodeStep parseXml s (.listen topic' choice) = some t) (topic : Bytes) :
    (topic ≠ topic' ∧ t.subscriber topic = s.subscriber topic) ∨
      (topic = topic' ∧ ∃ v w, s.subscriber topic = some v ∧
        subscriberListener v choice = some w ∧ t.subscriber topic = some w) := by
  simp only [nodeStep] at h
  cases hv : s.subscriber topic' with
  | none => simp [hv] at h
  | some v =>
      simp only [hv, Option.map_eq_some_iff] at h
      obtain ⟨w, hlisten, rfl⟩ := h
      by_cases htopic : topic = topic'
      · subst htopic
        obtain ⟨hok, hinstalled, -⟩ := NodeState.subscriber_installed hv
        obtain ⟨hok', hinstalled', hsub'⟩ := subscriberListener_keeps hlisten
        refine Or.inr ⟨rfl, v, w, hv, hlisten, NodeState.subscriber_set_self _ _ ?_ ?_⟩
        · rw [hok', hok]
        · rw [hinstalled', hinstalled, hsub']
      · exact Or.inl ⟨htopic, NodeState.subscriber_set_ne _ _ htopic⟩

theorem nodeStep_names {a : NodeAct} (h : nodeStep parseXml s a = some t) {topic : Bytes}
    {sub' : Topic} (hsub' : dvalue t.node.subscribers topic = some sub') :
    ∃ sub, dvalue s.node.subscribers topic = some sub ∧ sub'.topic = sub.topic ∧
      sub'.callerid = sub.callerid := by
  have hput : ∀ (topic' : Bytes) (sub sub'' : Topic),
      dvalue s.node.subscribers topic' = some sub → sub''.topic = sub.topic →
      sub''.callerid = sub.callerid →
      dvalue (dput s.node.subscribers topic' sub'') topic = some sub' →
      ∃ sub, dvalue s.node.subscribers topic = some sub ∧ sub'.topic = sub.topic ∧
        sub'.callerid = sub.callerid := by
    intro topic' sub sub'' hsub htopic hcallerid hput
    by_cases heq : topic = topic'
    · subst heq
      rw [dvalue_dput_self] at hput
      cases hput
      exact ⟨sub, hsub, htopic, hcallerid⟩
    · rw [dvalue_dput_ne _ _ heq] at hput
      exact ⟨sub', hput, rfl, rfl⟩
  have hsame : dvalue s.node.subscribers topic = some sub' →
      ∃ sub, dvalue s.node.subscribers topic = some sub ∧ sub'.topic = sub.topic ∧
        sub'.callerid = sub.callerid := fun hsub => ⟨sub', hsub, rfl, rfl⟩
  cases a with
  | request heap junk sock =>
      simp only [nodeStep] at h
      cases hserver : strosAcceptRequest parseXml heap junk sock s.node with
      | error e => simp [hserver] at h
      | ok result =>
          obtain ⟨reply, node⟩ := result
          simp only [hserver] at h
          cases h
          cases strosAcceptRequest_after hserver with
          | same => exact hsame hsub'
          | update topic' l hsub hurl =>
              obtain ⟨uri, port, hfields⟩ := extractUrl_fields hurl
              exact hput topic' _ _ hsub (by rw [hfields]) (by rw [hfields]) hsub'
  | stop =>
      cases h
      exact hsame hsub'
  | deploy topic' l =>
      simp only [nodeStep] at h
      split at h
      · rename_i sub hsub hnone
        cases hurl : extractUrl sub l with
        | error e => simp [hurl] at h
        | ok sub'' =>
            simp only [hurl] at h
            cases h
            obtain ⟨uri, port, hfields⟩ := extractUrl_fields hurl
            exact hput topic' sub sub'' hsub (by rw [hfields]) (by rw [hfields]) hsub'
      · cases h
  | listen topic' choice =>
      simp only [nodeStep] at h
      cases hv : s.subscriber topic' with
      | none => simp [hv] at h
      | some v =>
          simp only [hv, Option.map_eq_some_iff] at h
          obtain ⟨w, hlisten, rfl⟩ := h
          obtain ⟨-, -, hsub⟩ := NodeState.subscriber_installed hv
          obtain ⟨-, -, hkeeps⟩ := subscriberListener_keeps hlisten
          exact hput topic' v.sub w.sub hsub (by rw [hkeeps]) (by rw [hkeeps]) hsub'

end Steps

/-! ## Each listener is the one of its system -/

/-- Whatever clients send to the node and however its other listeners go on, what one listener
does with its subscriber is a run of `subSystem`. -/
theorem listeners_refine {parseXml : Bytes → C (Option XMLDoc)} {node : RosNode} {s : NodeState}
    (h : Reachable (nodeSystem parseXml node) s) {topic : Bytes} {v : SubState}
    (hv : s.subscriber topic = some v) : Reachable subSystem v := by
  induction h generalizing v with
  | init h =>
      rw [h] at hv
      simp [NodeState.subscriber] at hv
  | @step s t a _ hstep _ ih =>
      change nodeStep parseXml s a = some t at hstep
      cases a with
      | request heap junk sock =>
          rcases request_subscriber hstep topic with hsame | ⟨u, l, w, hu, hupdate, hw⟩
          · exact ih (hsame ▸ hv)
          · rw [hv] at hw
            cases hw
            exact .step (a := .update l) (ih hu) hupdate trivial
      | stop =>
          rw [stop_subscriber hstep, Option.map_eq_some_iff] at hv
          obtain ⟨u, hu, rfl⟩ := hv
          exact .step (a := .stop) (ih hu) rfl trivial
      | deploy topic' l =>
          rcases deploy_subscriber hstep topic with hsame | ⟨-, -, sub, sub', -, hurl, hw⟩
          · exact ih (hsame ▸ hv)
          · rw [hv] at hw
            cases hw
            exact .init ⟨extractUrl_status hurl, rfl, rfl, rfl, rfl, rfl⟩
      | listen topic' choice =>
          rcases listen_subscriber hstep topic with ⟨-, hsame⟩ | ⟨-, u, w, hu, hlisten, hw⟩
          · exact ih (hsame ▸ hv)
          · rw [hv] at hw
            cases hw
            exact .step (a := .listen choice) (ih hu) hlisten trivial

def listenerNode : RosNode where
  subscribers := dput dict (str "/chatter")
    ⟨str "/listener", str "/chatter", str "std_msgs/String", none, 0, .down⟩
  publishers := dict

def deployChatter : NodeAct :=
  .deploy (str "/chatter") [.string (str "http://10.0.0.1:8080/")]

theorem listeners_refine_chatter :
    ∃ s v, exec (nodeSystem plainParser listenerNode) ⟨true, listenerNode, fun _ => none⟩
        [deployChatter, .listen (str "/chatter") .go] = some s ∧
      s.subscriber (str "/chatter") = some v ∧ v.pc = .headStatus ∧ Reachable subSystem v := by
  have hrun : ∃ s v, exec (nodeSystem plainParser listenerNode)
      ⟨true, listenerNode, fun _ => none⟩ [deployChatter, .listen (str "/chatter") .go] = some s ∧
      s.subscriber (str "/chatter") = some v ∧ v.pc = .headStatus := ⟨_, _, rfl, rfl, rfl⟩
  obtain ⟨s, v, hexec, hv, hpc⟩ := hrun
  exact ⟨s, v, hexec, hv, hpc, listeners_refine (Reachable.exec rfl hexec) hv⟩

end STRos
