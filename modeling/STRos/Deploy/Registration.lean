import STRos.Deploy.Answers
import STRos.Model.Wire

/-! # Registrations and deregistrations

A topic keeps the caller id its node had when it was created, and is registered
under the id the node has when it is deployed. The two agree for every topic
exactly when no later configuration has changed the id.
-/

namespace STRos

open CString FiniteMap

/-! ## Before the deployment -/

inductive Role
  | subscriber
  | publisher
  deriving DecidableEq, Repr

def Role.topics : Role → RosNode → Dictionary Topic
  | .subscriber, node => node.subscribers
  | .publisher, node => node.publishers

/-- What `subscribe_to` or `create_publisher` puts into the dictionary. -/
def Role.newTopic (role : Role) (id topic type : Bytes) : Topic where
  callerid := id
  topic := topic
  type := type
  uri := none
  port := 0
  status := match role with
    | .subscriber => .down
    | .publisher => .active

inductive NodeCall
  | setConfig (name uri : Option Bytes) (port : Int32)
  /-- `subscribe_to` or `create_publisher` -/
  | create (role : Role) (topic type : Bytes)

def nodeCall (node : StrosNode) : NodeCall → StrosNode
  | .setConfig name uri port => strosSetConfig node name uri port
  | .create .subscriber topic type => subscribeTo node topic type
  | .create .publisher topic type => createPublisher node topic type

/-- The id of the node after a call. -/
def configuredId (id : Bytes) : NodeCall → Bytes
  | .setConfig name _ _ => name.getD id
  | .create _ _ _ => id

/-- The topic was created last by a call behind the first ones, with the type. -/
def LastCreation (role : Role) (calls : List NodeCall) (topic : Bytes) (before : List NodeCall)
    (type : Bytes) : Prop :=
  ∃ after, calls = before ++ .create role topic type :: after ∧
    ∀ type', .create role topic type' ∉ after

/-- Wherever a topic was created last, the node had the id it has in the end. -/
def Settled (id : Bytes) (calls : List NodeCall) : Prop :=
  ∀ role topic before type, LastCreation role calls topic before type →
    before.foldl configuredId id = calls.foldl configuredId id

theorem nodeCalls_id (calls : List NodeCall) (node : StrosNode) :
    (calls.foldl nodeCall node).id = calls.foldl configuredId node.id := by
  induction calls generalizing node with
  | nil => rfl
  | cons call calls ih =>
      have hstep : (nodeCall node call).id = configuredId node.id call := by
        cases call with
        | setConfig name uri port => rfl
        | create role topic type => cases role <;> rfl
      rw [List.foldl_cons, List.foldl_cons, ih, hstep]

/-- One call puts a new topic into the dictionary of its role or does nothing to it. -/
theorem topics_nodeCall (role : Role) (node : StrosNode) (call : NodeCall) :
    (∃ topic type, call = .create role topic type ∧
      role.topics (nodeCall node call).toRosNode =
        dput (role.topics node.toRosNode) topic (role.newTopic node.id topic type)) ∨
      ((∀ topic type, call ≠ .create role topic type) ∧
        role.topics (nodeCall node call).toRosNode = role.topics node.toRosNode) := by
  cases call with
  | setConfig name uri port =>
      refine Or.inr ⟨fun topic type h => (nomatch h), ?_⟩
      cases role <;> rfl
  | create role' topic type =>
      by_cases hrole : role' = role
      · subst hrole
        refine Or.inl ⟨topic, type, rfl, ?_⟩
        cases role' <;> rfl
      · refine Or.inr ⟨fun topic' type' h => hrole (by cases h; rfl), ?_⟩
        cases role <;> cases role' <;> first | rfl | exact absurd rfl hrole

theorem topics_nodeCalls_wellFormed (role : Role) (calls : List NodeCall) {node : StrosNode}
    (h : (role.topics node.toRosNode).WellFormed) :
    (role.topics (calls.foldl nodeCall node).toRosNode).WellFormed := by
  induction calls generalizing node with
  | nil => exact h
  | cons call calls ih =>
      refine ih ?_
      rcases topics_nodeCall role node call with ⟨topic, type, -, heq⟩ | ⟨-, heq⟩
      · rw [heq]
        exact dput_wellFormed h _ _
      · rwa [heq]

theorem lastCreation_self {role : Role} {calls before : List NodeCall} {topic type type' : Bytes} :
    LastCreation role (calls ++ [.create role topic type']) topic before type ↔
      before = calls ∧ type = type' := by
  constructor
  · rintro ⟨after, hcalls, hlast⟩
    rcases List.eq_nil_or_concat after with rfl | ⟨after', call, rfl⟩
    · obtain ⟨hbefore, hcall⟩ := List.append_inj' hcalls rfl
      cases hcall
      exact ⟨hbefore.symm, rfl⟩
    · rw [List.concat_eq_append, ← List.cons_append, ← List.append_assoc] at hcalls
      obtain ⟨-, hcall⟩ := List.append_inj' hcalls rfl
      cases hcall
      exact absurd (by simp) (hlast type')
  · rintro ⟨rfl, rfl⟩
    exact ⟨[], rfl, fun type' => List.not_mem_nil⟩

theorem lastCreation_other {role : Role} {calls before : List NodeCall} {call : NodeCall}
    {topic type : Bytes} (h : ∀ type', call ≠ .create role topic type') :
    LastCreation role (calls ++ [call]) topic before type ↔
      LastCreation role calls topic before type := by
  constructor
  · rintro ⟨after, hcalls, hlast⟩
    rcases List.eq_nil_or_concat after with rfl | ⟨after', call', rfl⟩
    · obtain ⟨-, hcall⟩ := List.append_inj' hcalls rfl
      exact absurd (List.cons.inj hcall).1 (h type)
    · rw [List.concat_eq_append, ← List.cons_append, ← List.append_assoc] at hcalls
      obtain ⟨hcalls', -⟩ := List.append_inj' hcalls rfl
      exact ⟨after', hcalls', fun type' hmem => hlast type' (by simp [hmem])⟩
  · rintro ⟨after, rfl, hlast⟩
    refine ⟨after ++ [call], by simp, fun type' hmem => ?_⟩
    rcases List.mem_append.mp hmem with hmem | hmem
    · exact hlast type' hmem
    · exact h type' (List.mem_singleton.mp hmem).symm

theorem dvalue_nodeCalls (role : Role) (calls : List NodeCall) {node : StrosNode}
    (h : role.topics node.toRosNode = dict) {key : Bytes} {tp : Topic} :
    dvalue (role.topics (calls.foldl nodeCall node).toRosNode) key = some tp ↔
      ∃ before type, LastCreation role calls key before type ∧
        tp = role.newTopic (before.foldl configuredId node.id) key type := by
  induction calls using List.reverseRecOn generalizing tp with
  | nil =>
      rw [List.foldl_nil, h]
      constructor
      · exact fun hno => nomatch hno
      · rintro ⟨before, type, ⟨after, hcalls, -⟩, -⟩
        cases before <;> cases hcalls
  | append_singleton calls call ih =>
      rw [List.foldl_append, List.foldl_cons, List.foldl_nil]
      rcases topics_nodeCall role (calls.foldl nodeCall node) call with
        ⟨topic, type, rfl, heq⟩ | ⟨hother, heq⟩
      · rw [heq, nodeCalls_id]
        by_cases hkey : key = topic
        · subst hkey
          rw [dvalue_dput_self, Option.some.injEq]
          simp only [lastCreation_self]
          constructor
          · rintro rfl
            exact ⟨calls, type, ⟨rfl, rfl⟩, rfl⟩
          · rintro ⟨_, _, ⟨rfl, rfl⟩, rfl⟩
            rfl
        · rw [dvalue_dput_ne _ _ hkey, ih]
          have hother : ∀ type', NodeCall.create role topic type ≠ .create role key type' :=
            fun type' hcall => hkey (by cases hcall; rfl)
          simp only [lastCreation_other hother]
      · rw [heq, ih]
        simp only [lastCreation_other (hother key)]

/-! ## The calls of the deployment and of the stop -/

def Role.registerMethod : Role → Bytes
  | .subscriber => str "registerSubscriber"
  | .publisher => str "registerPublisher"

def Role.unregisterMethod : Role → Bytes
  | .subscriber => str "unregisterSubscriber"
  | .publisher => str "unregisterPublisher"

/-- What neither the deployment nor a thread changes in a topic. -/
def Topic.identity (tp : Topic) : Bytes × Bytes := (tp.callerid, tp.topic)

def CallFor (node : StrosNode) (role : Role) (tp : Topic) (call : RpcRequest) : Prop :=
  call = registerCall node role.registerMethod tp ∨
    call = unregisterCall node role.unregisterMethod tp

theorem unregisterCall_identity {node : StrosNode} {tp tp' : Topic} (h : tp'.identity = tp.identity)
    (methd : Bytes) : unregisterCall node methd tp' = unregisterCall node methd tp := by
  obtain ⟨hcallerid, htopic⟩ := Prod.mk.inj h
  rw [unregisterCall, unregisterCall, hcallerid, htopic]

theorem unregister_calls {node : StrosNode} {methd : Bytes} {tp : Topic} {resp : Option RpcResponse}
    {calls : List RpcRequest} (h : unregister node methd tp resp = .ok calls) :
    calls = [unregisterCall node methd tp] := by
  obtain ⟨_, -, hcalls⟩ := bind_eq_ok.mp h
  cases hcalls
  rfl

theorem unregisterAll_calls {node : StrosNode} {methd : Bytes}
    {answers : Bytes → Option RpcResponse} {assocs : List (Bytes × Topic)} {calls : List RpcRequest}
    (h : unregisterAll node methd answers assocs = .ok calls) :
    calls = assocs.map fun assoc => unregisterCall node methd assoc.2 := by
  induction assocs generalizing calls with
  | nil =>
      cases h
      rfl
  | cons assoc rest ih =>
      obtain ⟨first, hfirst, h⟩ := bind_eq_ok.mp h
      obtain ⟨more, hmore, h⟩ := bind_eq_ok.mp h
      cases h
      rw [unregister_calls hfirst, ih hmore]
      rfl

theorem deployPublisher_calls {node : StrosNode} {pub : Topic} {a : Answers}
    {calls : List RpcRequest} (h : deployPublisher node pub a = .ok calls) :
    registerCall node Role.publisher.registerMethod pub ∈ calls ∧
      ∀ call ∈ calls, CallFor node .publisher pub call := by
  obtain ⟨code, -, h⟩ := bind_eq_ok.mp h
  obtain ⟨more, hmore, h⟩ := bind_eq_ok.mp h
  obtain ⟨_, -, h⟩ := bind_eq_ok.mp h
  cases h
  refine ⟨List.mem_cons_self, fun call hcall => ?_⟩
  rcases List.mem_cons.mp hcall with rfl | hcall
  · exact Or.inl rfl
  · split at hmore
    · cases hmore
      cases hcall
    · unfold startPublisher at hmore
      split at hmore
      · cases hmore
        cases hcall
      · rw [unregister_calls hmore] at hcall
        exact Or.inr (List.mem_singleton.mp hcall)

theorem calls_cons {node : StrosNode} {role : Role} {assoc : Bytes × Topic}
    {rest : List (Bytes × Topic)} {first more : List RpcRequest}
    (hfirst : registerCall node role.registerMethod assoc.2 ∈ first ∧
      ∀ call ∈ first, CallFor node role assoc.2 call)
    (hmore : (∀ assoc ∈ rest, registerCall node role.registerMethod assoc.2 ∈ more) ∧
      ∀ call ∈ more, ∃ assoc ∈ rest, CallFor node role assoc.2 call) :
    (∀ assoc' ∈ assoc :: rest, registerCall node role.registerMethod assoc'.2 ∈ first ++ more) ∧
      ∀ call ∈ first ++ more, ∃ assoc' ∈ assoc :: rest, CallFor node role assoc'.2 call := by
  constructor
  · intro assoc' hassoc
    cases List.mem_cons.mp hassoc with
    | inl heq =>
        subst heq
        exact List.mem_append_left _ hfirst.1
    | inr hassoc => exact List.mem_append_right _ (hmore.1 assoc' hassoc)
  · intro call hcall
    cases List.mem_append.mp hcall with
    | inl hcall => exact ⟨assoc, List.mem_cons_self, hfirst.2 call hcall⟩
    | inr hcall =>
        obtain ⟨assoc', hassoc, hfor⟩ := hmore.2 call hcall
        exact ⟨assoc', List.mem_cons_of_mem _ hassoc, hfor⟩

theorem deployPublishers_calls {node : StrosNode} {answers : Bytes → Answers}
    {assocs : List (Bytes × Topic)} {calls : List RpcRequest}
    (h : deployPublishers node answers assocs = .ok calls) :
    (∀ assoc ∈ assocs, registerCall node Role.publisher.registerMethod assoc.2 ∈ calls) ∧
      ∀ call ∈ calls, ∃ assoc ∈ assocs, CallFor node .publisher assoc.2 call := by
  induction assocs generalizing calls with
  | nil =>
      cases h
      simp
  | cons assoc rest ih =>
      obtain ⟨first, hfirst, h⟩ := bind_eq_ok.mp h
      obtain ⟨more, hmore, h⟩ := bind_eq_ok.mp h
      cases h
      exact calls_cons (deployPublisher_calls hfirst) (ih hmore)

theorem extractUrl_identity {sub sub' : Topic} {l : RList} (h : extractUrl sub l = .ok sub') :
    sub'.identity = sub.identity := by
  obtain ⟨uri, port, rfl⟩ := extractUrl_fields h
  rfl

theorem deploySubscriber_calls {node : StrosNode} {sub sub' : Topic} {a : Answers}
    {calls : List RpcRequest} (h : deploySubscriber node sub a = .ok (calls, sub')) :
    sub'.identity = sub.identity ∧
      registerCall node Role.subscriber.registerMethod sub ∈ calls ∧
      ∀ call ∈ calls, CallFor node .subscriber sub call := by
  obtain ⟨code, -, h⟩ := bind_eq_ok.mp h
  obtain ⟨more, hmore, h⟩ := bind_eq_ok.mp h
  obtain ⟨_, -, h⟩ := bind_eq_ok.mp h
  cases h
  have hstart : more.2.identity = sub.identity ∧
      ∀ call ∈ more.1, call = unregisterCall node Role.subscriber.unregisterMethod sub := by
    split at hmore
    · cases hmore
      exact ⟨rfl, by simp⟩
    · obtain ⟨arr, -, hmore⟩ := bind_eq_ok.mp hmore
      obtain ⟨l, -, hmore⟩ := bind_eq_ok.mp hmore
      obtain ⟨sub', hsub, hmore⟩ := bind_eq_ok.mp hmore
      obtain ⟨unreg, hunreg, hmore⟩ := bind_eq_ok.mp hmore
      cases hmore
      refine ⟨extractUrl_identity hsub, fun call hcall => ?_⟩
      split at hunreg
      · cases hunreg
        cases hcall
      · rw [unregister_calls hunreg] at hcall
        rw [List.mem_singleton.mp hcall]
        exact unregisterCall_identity (extractUrl_identity hsub) _
  refine ⟨hstart.1, List.mem_cons_self, fun call hcall => ?_⟩
  rcases List.mem_cons.mp hcall with rfl | hcall
  · exact Or.inl rfl
  · exact Or.inr (hstart.2 call hcall)

theorem deploySubscribers_calls {node : StrosNode} {answers : Bytes → Answers}
    {assocs : List (Bytes × Topic)} {subscribers subscribers' : Dictionary Topic}
    {calls : List RpcRequest}
    (h : deploySubscribers node answers assocs subscribers = .ok (calls, subscribers'))
    (hwf : subscribers.WellFormed)
    (hbound : ∀ assoc ∈ assocs,
      (dvalue subscribers assoc.1).map Topic.identity = some assoc.2.identity) :
    subscribers'.WellFormed ∧
      (∀ key, (dvalue subscribers' key).map Topic.identity =
        (dvalue subscribers key).map Topic.identity) ∧
      (∀ assoc ∈ assocs, registerCall node Role.subscriber.registerMethod assoc.2 ∈ calls) ∧
      ∀ call ∈ calls, ∃ assoc ∈ assocs, CallFor node .subscriber assoc.2 call := by
  induction assocs generalizing calls subscribers with
  | nil =>
      cases h
      exact ⟨hwf, fun _ => rfl, by simp, by simp⟩
  | cons assoc rest ih =>
      obtain ⟨⟨first, sub⟩, hfirst, h⟩ := bind_eq_ok.mp h
      obtain ⟨⟨more, subscribers''⟩, hmore, h⟩ := bind_eq_ok.mp h
      cases h
      obtain ⟨hidentity, hreg, honly⟩ := deploySubscriber_calls hfirst
      have hput : ∀ key, (dvalue (dput subscribers assoc.1 sub) key).map Topic.identity =
          (dvalue subscribers key).map Topic.identity := by
        intro key
        by_cases hkey : key = assoc.1
        · rw [hkey, dvalue_dput_self, hbound assoc List.mem_cons_self, Option.map_some, hidentity]
        · rw [dvalue_dput_ne _ _ hkey]
      obtain ⟨hwf', hkept, hregs, honlys⟩ := ih hmore (dput_wellFormed hwf _ _)
        fun assoc' hassoc => by rw [hput, hbound assoc' (List.mem_cons_of_mem _ hassoc)]
      exact ⟨hwf', fun key => (hkept key).trans (hput key),
        calls_cons ⟨hreg, honly⟩ ⟨hregs, honlys⟩⟩

/-! ## A whole run -/

def deployAndStop (node : StrosNode) (ip : Bytes) (port : UInt16)
    (subscribed published : Bytes → Answers)
    (stoppedPubs stoppedSubs : Bytes → Option RpcResponse) : C (List RpcRequest × StrosNode) := do
  let (calls, node) ← strosNodeDeploy node ip port subscribed published
  let more ← strosStop node stoppedPubs stoppedSubs
  return (calls ++ more, node)

def HasTopic (node : StrosNode) (role : Role) (tp : Topic) : Prop :=
  ∃ key, dvalue (role.topics node.toRosNode) key = some tp

/-- Every topic is registered and deregistered, and nothing else is asked for. -/
structure CallsOf (node : StrosNode) (api : Bytes) (calls : List RpcRequest) : Prop where
  register : ∀ role tp, HasTopic node role tp →
    registerCall { node with api := api } role.registerMethod tp ∈ calls
  unregister : ∀ role tp, HasTopic node role tp →
    unregisterCall { node with api := api } role.unregisterMethod tp ∈ calls
  only : ∀ call ∈ calls, ∃ role tp, HasTopic node role tp ∧
    CallFor { node with api := api } role tp call

theorem hasTopic_iff {node : StrosNode} {role : Role}
    (hwf : (role.topics node.toRosNode).WellFormed) {tp : Topic} :
    HasTopic node role tp ↔ ∃ assoc ∈ forEachAssoc (role.topics node.toRosNode), assoc.2 = tp := by
  constructor
  · rintro ⟨key, hkey⟩
    exact ⟨(key, tp), (mem_forEachAssoc hwf).mpr hkey, rfl⟩
  · rintro ⟨⟨key, _⟩, hassoc, rfl⟩
    exact ⟨key, (mem_forEachAssoc hwf).mp hassoc⟩

theorem mem_unregisterAll {node : StrosNode} {methd : Bytes}
    {answers : Bytes → Option RpcResponse} {topics : Dictionary Topic} {calls : List RpcRequest}
    (hwf : topics.WellFormed)
    (h : unregisterAll node methd answers (forEachAssoc topics) = .ok calls) {call : RpcRequest} :
    call ∈ calls ↔ ∃ key tp, dvalue topics key = some tp ∧ call = unregisterCall node methd tp := by
  rw [unregisterAll_calls h, List.mem_map]
  constructor
  · rintro ⟨⟨key, tp⟩, hassoc, rfl⟩
    exact ⟨key, tp, (mem_forEachAssoc hwf).mp hassoc, rfl⟩
  · rintro ⟨key, tp, hkey, rfl⟩
    exact ⟨(key, tp), (mem_forEachAssoc hwf).mpr hkey, rfl⟩

theorem exists_sameIdentity {topics topics' : Dictionary Topic}
    (h : ∀ key, (dvalue topics' key).map Topic.identity = (dvalue topics key).map Topic.identity)
    {key : Bytes} {tp : Topic} (htp : dvalue topics key = some tp) :
    ∃ tp', dvalue topics' key = some tp' ∧ tp'.identity = tp.identity := by
  have hmap := h key
  rw [htp, Option.map_some, Option.map_eq_some_iff] at hmap
  exact hmap

theorem deployAndStop_calls {node node' : StrosNode} {ip : Bytes} {port : UInt16}
    {subscribed published : Bytes → Answers} {stoppedPubs stoppedSubs : Bytes → Option RpcResponse}
    {calls : List RpcRequest} (hwf : ∀ role : Role, (role.topics node.toRosNode).WellFormed)
    (h : deployAndStop node ip port subscribed published stoppedPubs stoppedSubs =
      .ok (calls, node')) :
    CallsOf node (nodeApi ip port) calls ∧
      ∀ (role : Role) key, (dvalue (role.topics node'.toRosNode) key).map Topic.identity =
        (dvalue (role.topics node.toRosNode) key).map Topic.identity := by
  obtain ⟨⟨deployed, _⟩, hdeploy, h⟩ := bind_eq_ok.mp h
  obtain ⟨stopped, hstop, h⟩ := bind_eq_ok.mp h
  cases h
  obtain ⟨⟨subCalls, subscribers⟩, hsubs, hdeploy⟩ := bind_eq_ok.mp hdeploy
  obtain ⟨pubCalls, hpubs, hdeploy⟩ := bind_eq_ok.mp hdeploy
  cases hdeploy
  obtain ⟨pubStops, hpubStops, hstop⟩ := bind_eq_ok.mp hstop
  obtain ⟨subStops, hsubStops, hstop⟩ := bind_eq_ok.mp hstop
  cases hstop
  have hsubWf := hwf .subscriber
  have hpubWf := hwf .publisher
  obtain ⟨hpubRegs, hpubOnly⟩ := deployPublishers_calls hpubs
  obtain ⟨hsubWf', hkept, hsubRegs, hsubOnly⟩ := deploySubscribers_calls hsubs hsubWf
    fun assoc hassoc => congrArg (Option.map Topic.identity) ((mem_forEachAssoc hsubWf).mp hassoc)
  refine ⟨⟨?_, ?_, ?_⟩, fun role key => ?_⟩
  · intro role tp htp
    obtain ⟨assoc, hassoc, rfl⟩ := (hasTopic_iff (hwf role)).mp htp
    cases role with
    | subscriber => simp [hsubRegs assoc hassoc]
    | publisher => simp [hpubRegs assoc hassoc]
  · rintro role tp ⟨key, hkey⟩
    cases role with
    | subscriber =>
        obtain ⟨tp', htp', hsame⟩ := exists_sameIdentity hkept hkey
        have hstopped := (mem_unregisterAll hsubWf' hsubStops).mpr ⟨key, tp', htp', rfl⟩
        rw [unregisterCall_identity hsame] at hstopped
        exact List.mem_append_right _ (List.mem_append_right _ hstopped)
    | publisher =>
        have hstopped := (mem_unregisterAll hpubWf hpubStops).mpr ⟨key, tp, hkey, rfl⟩
        exact List.mem_append_right _ (List.mem_append_left _ hstopped)
  · intro call hcall
    rcases List.mem_append.mp hcall with hcall | hcall
    · rcases List.mem_append.mp hcall with hcall | hcall
      · obtain ⟨assoc, hassoc, hfor⟩ := hsubOnly call hcall
        exact ⟨.subscriber, assoc.2, (hasTopic_iff hsubWf).mpr ⟨assoc, hassoc, rfl⟩, hfor⟩
      · obtain ⟨assoc, hassoc, hfor⟩ := hpubOnly call hcall
        exact ⟨.publisher, assoc.2, (hasTopic_iff hpubWf).mpr ⟨assoc, hassoc, rfl⟩, hfor⟩
    · rcases List.mem_append.mp hcall with hcall | hcall
      · obtain ⟨key, tp, hkey, rfl⟩ := (mem_unregisterAll hpubWf hpubStops).mp hcall
        exact ⟨.publisher, tp, ⟨key, hkey⟩, Or.inr rfl⟩
      · obtain ⟨key, tp', hkey', rfl⟩ := (mem_unregisterAll hsubWf' hsubStops).mp hcall
        obtain ⟨tp, hkey, hsame⟩ := exists_sameIdentity (fun key => (hkept key).symm) hkey'
        exact ⟨.subscriber, tp, ⟨key, hkey⟩, Or.inr (unregisterCall_identity hsame.symm _)⟩
  · cases role with
    | subscriber => exact hkept key
    | publisher => rfl

/-! ## Triples -/

structure Registration where
  callerid : Bytes
  topic : Bytes
  api : Bytes

def registered (role : Role) (calls : List RpcRequest) : Set Registration :=
  {r | ∃ call ∈ calls, call.method = some role.registerMethod ∧
    ∃ type, call.params = [.string r.callerid, .string r.topic, .string type, .string r.api]}

def unregistered (role : Role) (calls : List RpcRequest) : Set Registration :=
  {r | ∃ call ∈ calls, call.method = some role.unregisterMethod ∧
    call.params = [.string r.callerid, .string r.topic, .string r.api]}

/-- For each role the same triples are registered and deregistered, and the header
of every topic names the caller id it was registered with. -/
def RegistrationsMatch (calls : List RpcRequest) (node : StrosNode) : Prop :=
  ∀ role, registered role calls = unregistered role calls ∧
    ∀ tp, HasTopic node role tp → ∀ r ∈ registered role calls, r.topic = tp.topic →
      calleridField tp = str "callerid=" ++ r.callerid

theorem Role.methods_inj (role role' : Role) :
    (role.registerMethod = role'.registerMethod → role = role') ∧
      (role.unregisterMethod = role'.unregisterMethod → role = role') ∧
      role.registerMethod ≠ role'.unregisterMethod := by
  cases role <;> cases role' <;> decide

theorem CallsOf.registered_eq {node : StrosNode} {api : Bytes} {calls : List RpcRequest}
    (h : CallsOf node api calls) (role : Role) :
    registered role calls = {r | ∃ tp, HasTopic node role tp ∧ r = ⟨node.id, tp.topic, api⟩} := by
  ext r
  constructor
  · rintro ⟨call, hcall, hmethod, type, hparams⟩
    obtain ⟨role', tp, htp, rfl | rfl⟩ := h.only call hcall
    · obtain rfl := (role'.methods_inj role).1 (Option.some.inj hmethod)
      refine ⟨tp, htp, ?_⟩
      obtain ⟨callerid, topic, api'⟩ := r
      simp only [registerCall, listPutS, listPut_listInit] at hparams
      cases hparams
      rfl
    · exact absurd (Option.some.inj hmethod).symm (role.methods_inj role').2.2
  · rintro ⟨tp, htp, rfl⟩
    exact ⟨_, h.register role tp htp, rfl, tp.type, rfl⟩

theorem CallsOf.unregistered_eq {node : StrosNode} {api : Bytes} {calls : List RpcRequest}
    (h : CallsOf node api calls) (role : Role) :
    unregistered role calls =
      {r | ∃ tp, HasTopic node role tp ∧ r = ⟨tp.callerid, tp.topic, api⟩} := by
  ext r
  constructor
  · rintro ⟨call, hcall, hmethod, hparams⟩
    obtain ⟨role', tp, htp, rfl | rfl⟩ := h.only call hcall
    · exact absurd (Option.some.inj hmethod) (role'.methods_inj role).2.2
    · obtain rfl := (role'.methods_inj role).2.1 (Option.some.inj hmethod)
      refine ⟨tp, htp, ?_⟩
      obtain ⟨callerid, topic, api'⟩ := r
      simp only [unregisterCall, listPutS, listPut_listInit] at hparams
      cases hparams
      rfl
  · rintro ⟨tp, htp, rfl⟩
    exact ⟨_, h.unregister role tp htp, rfl, rfl⟩

/-- With one topic for each key, the triples agree exactly when every topic has the
id the node registers with. -/
theorem CallsOf.match_iff {node node' : StrosNode} {api : Bytes} {calls : List RpcRequest}
    (h : CallsOf node api calls)
    (hkey : ∀ (role : Role) key tp,
      dvalue (role.topics node.toRosNode) key = some tp → tp.topic = key)
    (hsame : ∀ (role : Role) key, (dvalue (role.topics node'.toRosNode) key).map Topic.identity =
      (dvalue (role.topics node.toRosNode) key).map Topic.identity) :
    RegistrationsMatch calls node' ↔
      ∀ role tp, HasTopic node role tp → tp.callerid = node.id := by
  constructor
  · intro hmatch role tp htp
    have hreg : (⟨node.id, tp.topic, api⟩ : Registration) ∈ registered role calls := by
      rw [h.registered_eq]
      exact ⟨tp, htp, rfl⟩
    rw [(hmatch role).1, h.unregistered_eq] at hreg
    obtain ⟨tp', ⟨key', htp'⟩, heq⟩ := hreg
    obtain ⟨key, htp⟩ := htp
    have htopic : tp.topic = tp'.topic := congrArg Registration.topic heq
    rw [hkey role key tp htp, hkey role key' tp' htp'] at htopic
    subst htopic
    rw [htp] at htp'
    cases htp'
    exact (congrArg Registration.callerid heq).symm
  · intro hid role
    refine ⟨?_, ?_⟩
    · rw [h.registered_eq, h.unregistered_eq]
      ext r
      refine exists_congr fun tp => and_congr_right fun htp => ?_
      rw [hid role tp htp]
    · rintro tp ⟨key, htp⟩ r hr -
      rw [h.registered_eq] at hr
      obtain ⟨_, -, rfl⟩ := hr
      have hmap := hsame role key
      rw [htp, Option.map_some, eq_comm, Option.map_eq_some_iff] at hmap
      obtain ⟨tp', htp', hidentity⟩ := hmap
      have hcallerid : tp'.callerid = tp.callerid := congrArg Prod.fst hidentity
      rw [calleridField, ← hcallerid, hid role tp' ⟨key, htp'⟩]

/-! ## Successful answers -/

def MasterOk (resp : Option RpcResponse) : Prop :=
  ∃ data, resp = some data ∧ data.code = respOk ∧ data.data ≠ none

/-- The reply to `registerSubscriber` has the publishers in its third place. -/
def SubscriberOk (a : Answers) : Prop :=
  MasterOk a.registered ∧ Carries a.registered UrlList ∧ MasterOk a.unregistered

def PublisherOk (a : Answers) : Prop := MasterOk a.registered ∧ MasterOk a.unregistered

theorem MasterOk.ne_none {resp : Option RpcResponse} (h : MasterOk resp) : resp ≠ none := by
  obtain ⟨data, rfl, -⟩ := h
  exact Option.some_ne_none data

theorem returns_unregisterAll (node : StrosNode) (methd : Bytes)
    {answers : Bytes → Option RpcResponse} (h : ∀ key, MasterOk (answers key))
    (assocs : List (Bytes × Topic)) :
    Returns (unregisterAll node methd answers assocs) := by
  induction assocs with
  | nil => exact returns_ok _
  | cons assoc rest ih =>
      obtain ⟨calls, hcalls⟩ := (returns_unregister node methd assoc.2 _).mpr (h assoc.1).ne_none
      obtain ⟨more, hmore⟩ := ih
      exact ⟨calls ++ more, by rw [unregisterAll, hcalls, hmore]; rfl⟩

theorem returns_deployAndStop (node : StrosNode) (ip : Bytes) (port : UInt16)
    {subscribed published : Bytes → Answers} {stoppedPubs stoppedSubs : Bytes → Option RpcResponse}
    (hsub : ∀ key, SubscriberOk (subscribed key)) (hpub : ∀ key, PublisherOk (published key))
    (hstopPubs : ∀ key, MasterOk (stoppedPubs key))
    (hstopSubs : ∀ key, MasterOk (stoppedSubs key)) :
    Returns (deployAndStop node ip port subscribed published stoppedPubs stoppedSubs) := by
  have hsubs : ∀ node' : StrosNode, ∀ assoc ∈ forEachAssoc node'.subscribers,
      SubscriberAnswers (subscribed assoc.1) := by
    intro node' assoc _
    obtain ⟨⟨data, hdata, -, hset⟩, hcarries, hunreg⟩ := hsub assoc.1
    exact ⟨data, hdata, hset, fun _ => ⟨hcarries, fun _ => hunreg.ne_none⟩⟩
  have hpubs : ∀ node' : StrosNode, ∀ assoc ∈ forEachAssoc node'.publishers,
      PublisherAnswers (published assoc.1) := by
    intro node' assoc _
    obtain ⟨⟨data, hdata, -, hset⟩, hunreg⟩ := hpub assoc.1
    exact ⟨data, hdata, hset, fun _ _ => hunreg.ne_none⟩
  obtain ⟨subCalls, hmasked⟩ := (returns_deploySubscribers { node with api := nodeApi ip port }
    subscribed _ node.subscribers).mpr (hsubs node)
  have hsubCalls := deploySubscribers_untagged hmasked
  obtain ⟨pubCalls, hpubCalls⟩ := (returns_deployPublishers { node with api := nodeApi ip port }
    published _).mpr (hpubs node)
  obtain ⟨pubStops, hpubStops⟩ := returns_unregisterAll
    { node with api := nodeApi ip port, subscribers := subCalls.2 } (str "unregisterPublisher")
    hstopPubs (forEachAssoc node.publishers)
  obtain ⟨subStops, hsubStops⟩ := returns_unregisterAll
    { node with api := nodeApi ip port, subscribers := subCalls.2 } (str "unregisterSubscriber")
    hstopSubs (forEachAssoc subCalls.2)
  refine ⟨((subCalls.1 ++ pubCalls) ++ (pubStops ++ subStops),
    { node with api := nodeApi ip port, subscribers := subCalls.2 }), ?_⟩
  simp only [deployAndStop, strosNodeDeploy, strosDeploySubscribers, strosDeployPublishers,
    hsubCalls, hpubCalls, strosStop, hpubStops, hsubStops, bind, Except.bind, pure, Except.pure]

/-! ## The node of stros_init_node -/

theorem topics_strosInitNode (name : Bytes) (conf : List ConfigEntry) (time : UInt32)
    (role : Role) :
    role.topics (strosInitNode name conf time).toRosNode = dict := by
  have hconf : ∀ (conf : List ConfigEntry) (node : StrosNode),
      (conf.foldl strosConfigHandler node).toRosNode = node.toRosNode := by
    intro conf
    induction conf with
    | nil => exact fun _ => rfl
    | cons entry conf ih =>
        intro node
        rw [List.foldl_cons, ih]
        unfold strosConfigHandler
        split
        · rfl
        · split
          · rfl
          · split <;> rfl
  have hinit : (strosInitNode name conf time).toRosNode = ⟨dict, dict⟩ :=
    hconf conf (defaultNode name)
  rw [hinit]
  cases role <;> rfl

theorem settled_iff {node : StrosNode} (hnode : ∀ role : Role, role.topics node.toRosNode = dict)
    (calls : List NodeCall) :
    Settled node.id calls ↔ ∀ role tp, HasTopic (calls.foldl nodeCall node) role tp →
      tp.callerid = (calls.foldl nodeCall node).id := by
  rw [nodeCalls_id]
  constructor
  · rintro hsettled role tp ⟨key, htp⟩
    obtain ⟨before, type, hlast, rfl⟩ := (dvalue_nodeCalls role calls (hnode role)).mp htp
    exact hsettled role key before type hlast
  · intro hid role topic before type hlast
    exact hid role _
      ⟨topic, (dvalue_nodeCalls role calls (hnode role)).mpr ⟨before, type, hlast, rfl⟩⟩

theorem match_iff_settled {name : Bytes} {conf : List ConfigEntry} {time : UInt32}
    {calls : List NodeCall} {ip : Bytes} {port : UInt16} {subscribed published : Bytes → Answers}
    {stoppedPubs stoppedSubs : Bytes → Option RpcResponse} {requests : List RpcRequest}
    {node : StrosNode}
    (hrun : deployAndStop (calls.foldl nodeCall (strosInitNode name conf time)) ip port subscribed
      published stoppedPubs stoppedSubs = .ok (requests, node)) :
    RegistrationsMatch requests node ↔ Settled (strosInitNode name conf time).id calls := by
  have hinit := topics_strosInitNode name conf time
  have hwf : ∀ role : Role, (role.topics (strosInitNode name conf time).toRosNode).WellFormed := by
    intro role
    rw [hinit role]
    exact dict_wellFormed
  obtain ⟨hcalls, hsame⟩ := deployAndStop_calls
    (fun role => topics_nodeCalls_wellFormed role calls (hwf role)) hrun
  rw [hcalls.match_iff ?_ hsame, settled_iff hinit]
  intro role key tp htp
  obtain ⟨before, type, -, rfl⟩ := (dvalue_nodeCalls role calls (hinit role)).mp htp
  rfl

/-- When the master answers well, a node deregisters what it registered exactly if
no topic was created last under another id than the final one. -/
theorem registrations_match_iff (name : Bytes) (conf : List ConfigEntry) (time : UInt32)
    (calls : List NodeCall) (ip : Bytes) (port : UInt16)
    {subscribed published : Bytes → Answers} {stoppedPubs stoppedSubs : Bytes → Option RpcResponse}
    (hsub : ∀ key, SubscriberOk (subscribed key)) (hpub : ∀ key, PublisherOk (published key))
    (hstopPubs : ∀ key, MasterOk (stoppedPubs key))
    (hstopSubs : ∀ key, MasterOk (stoppedSubs key)) :
    ∃ requests node,
      deployAndStop (calls.foldl nodeCall (strosInitNode name conf time)) ip port subscribed
          published stoppedPubs stoppedSubs = .ok (requests, node) ∧
        (RegistrationsMatch requests node ↔ Settled (strosInitNode name conf time).id calls) := by
  obtain ⟨⟨requests, node⟩, hrun⟩ := returns_deployAndStop
    (calls.foldl nodeCall (strosInitNode name conf time)) ip port hsub hpub hstopPubs hstopSubs
  exact ⟨requests, node, hrun, match_iff_settled hrun⟩

/-- `[1, "", []]`, the reply of a master that knows no publisher yet. -/
def emptyReply : RpcResponse :=
  ⟨respOk, 1, some [.array [.int 1, .string [], .array []]]⟩

def emptyAnswers : Answers := ⟨some emptyReply, true, true, some emptyReply⟩

theorem masterOk_emptyReply : MasterOk (some emptyReply) :=
  ⟨emptyReply, rfl, rfl, by simp [emptyReply]⟩

theorem subscriberOk_emptyAnswers : SubscriberOk emptyAnswers :=
  ⟨masterOk_emptyReply, ⟨emptyReply, _, _, [], rfl, rfl, rfl, rfl, Or.inl rfl⟩, masterOk_emptyReply⟩

theorem registrations_match_talker :
    ∃ requests node,
      deployAndStop ([.setConfig (some (str "talker")) none 0,
            .create .publisher (str "chatter") (str "std_msgs/String")].foldl nodeCall
          (strosInitNode (str "anonymous") [] 0)) (str "10.0.0.1") 40000 (fun _ => emptyAnswers)
          (fun _ => emptyAnswers) (fun _ => some emptyReply) (fun _ => some emptyReply) =
        .ok (requests, node) ∧
      (RegistrationsMatch requests node ↔
        Settled (strosInitNode (str "anonymous") [] 0).id
          [.setConfig (some (str "talker")) none 0,
            .create .publisher (str "chatter") (str "std_msgs/String")]) :=
  registrations_match_iff (str "anonymous") [] 0 _ (str "10.0.0.1") 40000
    (fun _ => subscriberOk_emptyAnswers) (fun _ => ⟨masterOk_emptyReply, masterOk_emptyReply⟩)
    (fun _ => masterOk_emptyReply) (fun _ => masterOk_emptyReply)

/-- A node that gets its name after the creation of a publisher deregisters another. -/
theorem registrations_mismatch :
    ∃ requests node,
      deployAndStop ([.create .publisher (str "chatter") (str "std_msgs/String"),
            .setConfig (some (str "talker")) none 0].foldl nodeCall
          (strosInitNode (str "anonymous") [] 0)) (str "10.0.0.1") 40000 (fun _ => emptyAnswers)
          (fun _ => emptyAnswers) (fun _ => some emptyReply) (fun _ => some emptyReply) =
        .ok (requests, node) ∧
      ¬ RegistrationsMatch requests node := by
  obtain ⟨⟨requests, node⟩, hrun⟩ := returns_deployAndStop
    ([.create .publisher (str "chatter") (str "std_msgs/String"),
      .setConfig (some (str "talker")) none 0].foldl nodeCall
        (strosInitNode (str "anonymous") [] 0))
    (str "10.0.0.1") 40000 (fun _ => subscriberOk_emptyAnswers)
    (fun _ => (⟨masterOk_emptyReply, masterOk_emptyReply⟩ : PublisherOk emptyAnswers))
    (fun _ => masterOk_emptyReply) (fun _ => masterOk_emptyReply)
  refine ⟨requests, node, hrun, fun hmatch => ?_⟩
  have hsettled := (match_iff_settled hrun).mp hmatch .publisher (str "chatter") []
    (str "std_msgs/String") ⟨_, rfl, by simp⟩
  exact absurd hsettled (by decide)

end STRos
