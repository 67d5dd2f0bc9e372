import Mathlib.Logic.Relation
import STRos.Dictionary.FiniteMap
import STRos.Model.Serving
import STRos.Subscribe.Negotiation

/-! # Calls for a topic while the node is deployed

A listener stores its address once and keeps it, so a call that begins to read it
afterwards reads all of it. A call that finds the publisher earlier goes on all the
same, and the NULL of the unset uri goes to `strdup`.
-/

namespace STRos

open CString FiniteMap Transition

/-- Replies carry the address the listener of the publisher is bound to, and a call
that came before the address was stored is refused without reading it. -/
structure AdvertisesBound (s : ServingState) : Prop where
  replies : ∀ r ∈ s.requests, ∀ topic reply, r.pc = .replied topic reply →
    ∃ uri port, (s.listeners topic).uri = some uri ∧ (s.listeners topic).socket = some port ∧
      port ≠ 0 ∧ reply = topicReply uri port
  early : ∀ r ∈ s.requests, r.early = true → r.pc = .refused
  alive : s.crashed = false

/-- A call finds a publisher only once its listener has stored its address. -/
def LooksUpStored (s : ServingState) (a : ServingAct) (_ : ServingState) : Prop :=
  ∀ i portFirst r params n topic, a = .handle i portFirst → s.requests[i]? = some r →
    r.pc = .start params n → publisherAsked s.publishers params n = .ok (some topic) →
    (s.listeners topic).port.isSome = true

/-! ## The invariant -/

/-- The record of a publisher is what its listener has stored. -/
def RecordsMatch (publishers : Dictionary Topic) (listeners : Bytes → PublisherPc) : Prop :=
  ∀ topic, (dvalue publishers topic).bind (·.uri) = (listeners topic).uri ∧
    ((dvalue publishers topic).map (·.port)).getD 0 = (listeners topic).port.getD 0

def DeployOk (listeners : Bytes → PublisherPc) : DeployPc → Prop
  | .createServer => ∀ topic, listeners topic = .absent
  | .waitPort => ∀ topic, listeners topic = .absent
  | .subscribers => ∀ topic, listeners topic = .absent
  | .publishers rest =>
      (keys rest).Nodup ∧ ∀ topic ∈ keys rest, listeners topic = .absent
  | .starting topic rest =>
      (topic :: keys rest).Nodup ∧ ∀ topic' ∈ topic :: keys rest, listeners topic' = .absent
  | .deployed => True
  | .stopped => True

def Stored (listeners : Bytes → PublisherPc) (topic uri : Bytes) (port : Int32) : Prop :=
  (listeners topic).uri = some uri ∧ (listeners topic).port = some port

def ReadsOk (listeners : Bytes → PublisherPc) : RequestPc → Prop
  | .start _ _ => True
  | .cellUri topic => ∃ uri port, Stored listeners topic uri port
  | .cellPort topic uri => ∃ port, Stored listeners topic uri port
  | .text topic uri port => Stored listeners topic uri port
  | .textPort topic uri port uri' => Stored listeners topic uri port ∧ uri' = some uri
  | .textUri topic uri port port' => Stored listeners topic uri port ∧ port' = port
  | .send topic uri port uri' port' =>
      Stored listeners topic uri port ∧ uri' = some uri ∧ port' = port
  | .replied topic reply =>
      ∃ uri port, Stored listeners topic uri port ∧ reply = topicReply uri port
  | .refused => True

structure ServingInv (s : ServingState) : Prop where
  records : RecordsMatch s.publishers s.listeners
  sockets : ∀ topic port, (s.listeners topic).socket = some port → port ≠ 0
  deploys : DeployOk s.listeners s.deploy
  wellFormed : s.publishers.WellFormed
  requests : ∀ r ∈ s.requests, r.early = false ∧ ReadsOk s.listeners r.pc
  alive : s.crashed = false

/-! ## Listeners -/

theorem PublisherPc.socket_of_port {pc : PublisherPc} {port : Int32} (h : pc.port = some port) :
    pc.socket = some port := by
  cases pc <;> first | exact h | cases h

theorem PublisherPc.uri_of_port {pc : PublisherPc} {port : Int32} (h : pc.port = some port) :
    ∃ uri, pc.uri = some uri := by
  cases pc <;> first | exact ⟨_, rfl⟩ | cases h

structure Grows (pc pc' : PublisherPc) : Prop where
  uri : ∀ uri, pc.uri = some uri → pc'.uri = some uri
  port : ∀ port, pc.port = some port → pc'.port = some port

theorem Grows.refl (pc : PublisherPc) : Grows pc pc := ⟨fun _ h => h, fun _ h => h⟩

theorem Grows.of_unset {pc pc' : PublisherPc} (huri : pc.uri = none) (hport : pc.port = none) :
    Grows pc pc' := by
  refine ⟨fun uri h => ?_, fun port h => ?_⟩
  · rw [huri] at h
    cases h
  · rw [hport] at h
    cases h

theorem grows_update {listeners : Bytes → PublisherPc} {topic : Bytes} {pc : PublisherPc}
    (h : Grows (listeners topic) pc) (topic' : Bytes) :
    Grows (listeners topic') (Function.update listeners topic pc topic') := by
  by_cases htopic : topic' = topic
  · subst htopic
    rwa [Function.update_self]
  · rw [Function.update_of_ne htopic]
    exact Grows.refl _

theorem Stored.grow {listeners listeners' : Bytes → PublisherPc}
    (h : ∀ topic, Grows (listeners topic) (listeners' topic)) {topic uri : Bytes} {port : Int32}
    (hstored : Stored listeners topic uri port) : Stored listeners' topic uri port :=
  ⟨(h topic).uri uri hstored.1, (h topic).port port hstored.2⟩

theorem ReadsOk.grow {listeners listeners' : Bytes → PublisherPc}
    (h : ∀ topic, Grows (listeners topic) (listeners' topic)) {pc : RequestPc}
    (hpc : ReadsOk listeners pc) : ReadsOk listeners' pc := by
  cases pc with
  | start params n => trivial
  | cellUri topic =>
      obtain ⟨uri, port, hstored⟩ := hpc
      exact ⟨uri, port, hstored.grow h⟩
  | cellPort topic uri =>
      obtain ⟨port, hstored⟩ := hpc
      exact ⟨port, hstored.grow h⟩
  | text topic uri port => exact Stored.grow h hpc
  | textPort topic uri port uri' => exact ⟨hpc.1.grow h, hpc.2⟩
  | textUri topic uri port port' => exact ⟨hpc.1.grow h, hpc.2⟩
  | send topic uri port uri' port' => exact ⟨hpc.1.grow h, hpc.2⟩
  | replied topic reply =>
      obtain ⟨uri, port, hstored, hreply⟩ := hpc
      exact ⟨uri, port, hstored.grow h, hreply⟩
  | refused => trivial

/-! ## Records -/

theorem RecordsMatch.move {publishers : Dictionary Topic} {listeners : Bytes → PublisherPc}
    (h : RecordsMatch publishers listeners) {topic : Bytes} {pc : PublisherPc}
    (huri : pc.uri = (listeners topic).uri) (hport : pc.port = (listeners topic).port) :
    RecordsMatch publishers (Function.update listeners topic pc) := by
  intro topic'
  by_cases htopic : topic' = topic
  · subst htopic
    rw [Function.update_self, huri, hport]
    exact h topic'
  · rw [Function.update_of_ne htopic]
    exact h topic'

theorem RecordsMatch.store {publishers : Dictionary Topic} {listeners : Bytes → PublisherPc}
    (h : RecordsMatch publishers listeners) {topic : Bytes} {pub : Topic} {pc : PublisherPc}
    (huri : pub.uri = pc.uri) (hport : pub.port = pc.port.getD 0) :
    RecordsMatch (dput publishers topic pub) (Function.update listeners topic pc) := by
  intro topic'
  by_cases htopic : topic' = topic
  · subst htopic
    rw [Function.update_self, dvalue_dput_self]
    exact ⟨huri, hport⟩
  · rw [Function.update_of_ne htopic, dvalue_dput_ne publishers pub htopic]
    exact h topic'

theorem RecordsMatch.record {publishers : Dictionary Topic} {listeners : Bytes → PublisherPc}
    (h : RecordsMatch publishers listeners) {topic : Bytes} {pub : Topic}
    (hpub : dvalue publishers topic = some pub) :
    pub.uri = (listeners topic).uri ∧ pub.port = (listeners topic).port.getD 0 := by
  have hrecord := h topic
  rw [hpub] at hrecord
  exact hrecord

theorem Stored.pubUri {s : ServingState} {topic uri : Bytes} {port : Int32}
    (h : Stored s.listeners topic uri port) (hrecords : RecordsMatch s.publishers s.listeners) :
    s.pubUri topic = some uri := (hrecords topic).1.trans h.1

theorem Stored.pubPort {s : ServingState} {topic uri : Bytes} {port : Int32}
    (h : Stored s.listeners topic uri port) (hrecords : RecordsMatch s.publishers s.listeners) :
    s.pubPort topic = port := by
  rw [ServingState.pubPort, (hrecords topic).2, h.2]
  rfl

/-! ## The steps of the threads -/

/-- Moving one listener forward keeps the invariant, when the main thread is not
about to start it. -/
theorem ServingInv.setListener {s : ServingState} (h : ServingInv s) {topic : Bytes}
    {pc : PublisherPc} (hgrows : Grows (s.listeners topic) pc)
    (hsocket : ∀ port, pc.socket = some port → port ≠ 0) {publishers : Dictionary Topic}
    (hrecords : RecordsMatch publishers (Function.update s.listeners topic pc))
    (hwell : publishers.WellFormed) {deploy : DeployPc}
    (hdeploys : DeployOk (Function.update s.listeners topic pc) deploy) (locked : Bool) :
    ServingInv
      { s.setListener topic pc with
        publishers := publishers
        deploy := deploy
        locked := locked } := by
  refine ⟨hrecords, ?_, hdeploys, hwell, ?_, h.alive⟩
  · intro topic' port hport
    by_cases htopic : topic' = topic
    · subst htopic
      simp only [ServingState.setListener, Function.update_self] at hport
      exact hsocket port hport
    · simp only [ServingState.setListener, Function.update_of_ne htopic] at hport
      exact h.sockets topic' port hport
  · intro r hr
    obtain ⟨hearly, hreads⟩ := h.requests r hr
    exact ⟨hearly, hreads.grow fun topic' => grows_update hgrows topic'⟩

theorem DeployOk.update {listeners : Bytes → PublisherPc} {deploy : DeployPc}
    (h : DeployOk listeners deploy) {topic : Bytes} (hrun : listeners topic ≠ .absent)
    (pc : PublisherPc) : DeployOk (Function.update listeners topic pc) deploy := by
  have hkeep : ∀ topic', listeners topic' = .absent →
      Function.update listeners topic pc topic' = .absent := by
    intro topic' habsent
    rwa [Function.update_of_ne]
    rintro rfl
    exact hrun habsent
  cases deploy with
  | createServer => exact absurd (h topic) hrun
  | waitPort => exact absurd (h topic) hrun
  | subscribers => exact absurd (h topic) hrun
  | publishers rest => exact ⟨h.1, fun topic' hmem => hkeep topic' (h.2 topic' hmem)⟩
  | starting topic' rest => exact ⟨h.1, fun topic'' hmem => hkeep topic'' (h.2 topic'' hmem)⟩
  | deployed => trivial
  | stopped => trivial

theorem ServingInv.move {s : ServingState} (h : ServingInv s) {topic : Bytes} {pc : PublisherPc}
    (hrun : s.listeners topic ≠ .absent) (huri : pc.uri = (s.listeners topic).uri)
    (hport : pc.port = (s.listeners topic).port)
    (hsocket : ∀ port, pc.socket = some port → port ≠ 0) (locked : Bool) :
    ServingInv { s.setListener topic pc with locked := locked } := by
  have hgrows : Grows (s.listeners topic) pc :=
    ⟨fun uri h => huri.trans h, fun port h => hport.trans h⟩
  exact h.setListener hgrows hsocket (h.records.move huri hport) h.wellFormed
    (h.deploys.update hrun pc) locked

theorem ServingInv.store {s : ServingState} (h : ServingInv s) {topic : Bytes} {pc : PublisherPc}
    {pub : Topic} (hrun : s.listeners topic ≠ .absent) (hgrows : Grows (s.listeners topic) pc)
    (hsocket : ∀ port, pc.socket = some port → port ≠ 0) (huri : pub.uri = pc.uri)
    (hport : pub.port = pc.port.getD 0) :
    ServingInv
      { s.setListener topic pc with publishers := dput s.publishers topic pub } :=
  h.setListener hgrows hsocket (h.records.store huri hport) (dput_wellFormed h.wellFormed topic pub)
    (h.deploys.update hrun pc) s.locked

theorem socketPort_ne_zero {port : UInt16} (h : port ≠ 0) : Int32.ofNat port.toNat ≠ 0 := by
  intro heq
  have hlt := port.toNat_lt
  have hval : (Int32.ofNat port.toNat).toInt = port.toNat := Int32.toInt_ofNat_of_lt (by omega)
  rw [heq] at hval
  apply h
  apply UInt16.toNat.inj
  have hzero : (0 : Int32).toInt = 0 := rfl
  rw [hzero] at hval
  have hnat : (0 : UInt16).toNat = 0 := rfl
  omega

theorem publisherListener_inv {s t : ServingState} {topic : Bytes} {choice : ServingChoice}
    (h : publisherListener s topic choice = some t) (hinv : ServingInv s) : ServingInv t := by
  have hsocket := hinv.sockets topic
  have hrecord := @RecordsMatch.record _ _ hinv.records topic
  have hmove := @ServingInv.move _ hinv topic
  have hstore := @ServingInv.store _ hinv topic
  unfold publisherListener at h
  split at h
  case h_1 hpc =>
    cases h
    rw [hpc] at hmove
    exact @hmove .returned (nofun) rfl rfl (nofun) s.locked
  case h_2 port hpc =>
    cases h
    rw [hpc] at hmove
    by_cases hport : port = 0
    · rw [if_pos hport]
      exact @hmove .returned (nofun) rfl rfl (nofun) s.locked
    · rw [if_neg hport]
      refine @hmove (.bound _) (nofun) rfl rfl ?_ s.locked
      rintro _ ⟨⟩
      exact socketPort_ne_zero hport
  case h_3 port hpc =>
    split at h
    · cases h
    · cases h
      rw [hpc] at hmove hsocket
      exact @hmove (.locked port) (nofun) rfl rfl hsocket true
  case h_4 port uri hpc =>
    split at h
    · cases h
    · rename_i pub hpub
      cases h
      have hport := (hrecord hpub).2
      rw [hpc] at hstore hsocket hport
      exact @hstore (.uriStored uri port) _ (nofun) (.of_unset rfl rfl) hsocket rfl hport
  case h_5 uri port hpc =>
    split at h
    · cases h
    · rename_i pub hpub
      cases h
      have huri := (hrecord hpub).1
      rw [hpc] at hstore hsocket huri
      exact @hstore (.portStored uri port) _ (nofun) ⟨fun _ h => h, nofun⟩ hsocket huri rfl
  case h_6 uri port hpc =>
    cases h
    rw [hpc] at hmove hsocket
    exact @hmove (.serving uri port) (nofun) rfl rfl hsocket false
  case h_7 => cases h

theorem nodeDeploy_inv {s t : ServingState} {choice : ServingChoice}
    (h : nodeDeploy s choice = some t) (hinv : ServingInv s) : ServingInv t := by
  have hdeploys := hinv.deploys
  have hkeep : ∀ deploy server, DeployOk s.listeners deploy →
      ServingInv { s with deploy := deploy, server := server } := fun deploy server hdeploy =>
    { hinv with deploys := hdeploy }
  unfold nodeDeploy at h
  split at h
  case h_1 hpc =>
    cases h
    rw [hpc] at hdeploys
    exact hkeep .waitPort .startup hdeploys
  case h_2 hpc =>
    cases h
    exact hkeep .stopped s.server trivial
  case h_3 hpc =>
    split at h
    · cases h
      rw [hpc] at hdeploys
      exact hkeep .subscribers s.server hdeploys
    · cases h
  case h_4 hpc =>
    cases h
    rw [hpc] at hdeploys
    exact hkeep (.publishers (forEachAssoc s.publishers)) s.server
      ⟨keys_forEachAssoc_nodup hinv.wellFormed, fun topic _ => hdeploys topic⟩
  case h_5 hpc =>
    cases h
    exact hkeep .deployed s.server trivial
  case h_6 assoc rest resp hpc =>
    split at h
    · cases h
    · cases h
      rw [hpc] at hdeploys
      obtain ⟨hnodup, habsent⟩ := hdeploys
      refine hkeep _ s.server ?_
      split
      · exact ⟨(List.nodup_cons.mp hnodup).2, fun topic hmem => habsent topic (.tail _ hmem)⟩
      · exact ⟨hnodup, habsent⟩
  case h_7 topic rest hpc =>
    cases h
    rw [hpc] at hdeploys
    obtain ⟨hnodup, habsent⟩ := hdeploys
    have hpc' : s.listeners topic = .absent := habsent topic (.head _)
    have hrest : DeployOk (Function.update s.listeners topic .startup) (.publishers rest) := by
      refine ⟨(List.nodup_cons.mp hnodup).2, fun topic' hmem => ?_⟩
      rw [Function.update_of_ne]
      · exact habsent topic' (.tail _ hmem)
      · rintro rfl
        exact (List.nodup_cons.mp hnodup).1 hmem
    have hsocket : ∀ port, PublisherPc.startup.socket = some port → port ≠ 0 := nofun
    exact hinv.setListener (.of_unset (by rw [hpc']; rfl) (by rw [hpc']; rfl)) hsocket
      (hinv.records.move (by rw [hpc']; rfl) (by rw [hpc']; rfl)) hinv.wellFormed hrest s.locked
  case h_8 topic rest hpc =>
    cases h
    rw [hpc] at hdeploys
    exact hkeep (.publishers rest) s.server ⟨(List.nodup_cons.mp hdeploys.1).2,
      fun topic' hmem => hdeploys.2 topic' (.tail _ hmem)⟩
  case h_9 => cases h

/-! ## The steps of a call -/

theorem replyOf_eq (uri : Bytes) (port : Int32) :
    replyOf uri port (some uri) port = topicReply uri port := rfl

theorem requestTopic_asked (s : ServingState) (subscribers : Dictionary Topic) (params : RList)
    (n : Nat) :
    requestTopic ⟨subscribers, s.publishers⟩ params n =
      (publisherAsked s.publishers params n).bind fun asked =>
        match asked with
        | none => .ok .badRequest
        | some topic => (strdup (s.pubUri topic)).map fun uri =>
            .response (genRpcResponse (topicReply uri (s.pubPort topic))) := by
  unfold requestTopic publisherAsked
  split
  · rfl
  · cases valueS (listAt params 1) with
    | error e => rfl
    | ok topic =>
        simp only [bind, Except.bind, ServingState.pubUri, ServingState.pubPort]
        cases hpub : dvalue s.publishers topic with
        | none => rfl
        | some pub =>
            simp only [Option.isSome_some, if_true, pure, Except.pure, hpub, Option.bind_some]
            cases pub.uri with
            | none => rfl
            | some uri => rfl

/-- A step of a call when no other thread gets in between. -/
def StepsAlone (s : ServingState) (portFirst : Bool) (pc pc' : RequestPc) : Prop :=
  requestStep s pc portFirst = some (.ok pc')

/-- In either order the text of the reply gets the fields as they are. -/
theorem stepsAlone_text (s : ServingState) (portFirst : Bool) (topic uri : Bytes) (port : Int32) :
    Relation.ReflTransGen (StepsAlone s portFirst) (.text topic uri port)
      (.send topic uri port (s.pubUri topic) (s.pubPort topic)) := by
  cases portFirst with
  | false =>
      have hfirst : StepsAlone s false (.text topic uri port)
          (.textPort topic uri port (s.pubUri topic)) := rfl
      exact (Relation.ReflTransGen.single hfirst).tail rfl
  | true =>
      have hfirst : StepsAlone s true (.text topic uri port)
          (.textUri topic uri port (s.pubPort topic)) := rfl
      exact (Relation.ReflTransGen.single hfirst).tail rfl

theorem requestTopic_steps (s : ServingState) (subscribers : Dictionary Topic) {params : RList}
    {n : Nat} {reply : Reply}
    (h : requestTopic ⟨subscribers, s.publishers⟩ params n = .ok reply) (portFirst : Bool) :
    ∃ pc, Relation.ReflTransGen (StepsAlone s portFirst) (.start params n) pc ∧
      ((pc = .refused ∧ reply = .badRequest) ∨
        ∃ topic l, pc = .replied topic l ∧ reply = .response (genRpcResponse l)) := by
  rw [requestTopic_asked] at h
  obtain ⟨asked, hasked, h⟩ := bind_eq_ok.mp h
  cases asked with
  | none =>
      cases h
      have hstart : StepsAlone s portFirst (.start params n) .refused := by
        simp only [StepsAlone, requestStep, hasked]
      exact ⟨.refused, .single hstart, Or.inl ⟨rfl, rfl⟩⟩
  | some topic =>
      simp only at h
      cases huri : s.pubUri topic with
      | none =>
          rw [huri] at h
          cases h
      | some uri =>
          rw [huri] at h
          cases h
          have hstart : StepsAlone s portFirst (.start params n) (.cellUri topic) := by
            simp only [StepsAlone, requestStep, hasked]
          have huriCell : StepsAlone s portFirst (.cellUri topic) (.cellPort topic uri) := by
            rw [StepsAlone, requestStep, huri]
            rfl
          have hportCell : StepsAlone s portFirst (.cellPort topic uri)
              (.text topic uri (s.pubPort topic)) := rfl
          have hsend : StepsAlone s portFirst
              (.send topic uri (s.pubPort topic) (some uri) (s.pubPort topic))
              (.replied topic (topicReply uri (s.pubPort topic))) := by
            rw [← replyOf_eq]
            rfl
          have htext := stepsAlone_text s portFirst topic uri (s.pubPort topic)
          rw [huri] at htext
          have hcells := ((Relation.ReflTransGen.single hstart).tail huriCell).tail hportCell
          exact ⟨_, (hcells.trans htext).tail hsend, Or.inr ⟨_, _, rfl, rfl⟩⟩

theorem looksUpStored_iff (s t : ServingState) (i : Nat) (portFirst : Bool) :
    LooksUpStored s (.handle i portFirst) t ↔
      ∀ r, s.requests[i]? = some r → s.findsUnset r.pc = false := by
  constructor
  · intro h r hr
    unfold ServingState.findsUnset
    split
    · rename_i params n hpc
      split
      · rename_i topic hasked
        have hport := h i portFirst r params n topic rfl hr hpc hasked
        rw [← Option.not_isSome, hport]
        rfl
      · rfl
    · rfl
  · rintro h i' portFirst' r params n topic ⟨⟩ hr hpc hasked
    have hfinds : s.findsUnset (.start params n) = false := hpc ▸ h r hr
    simp only [ServingState.findsUnset, hasked] at hfinds
    rwa [← Option.not_isSome, Bool.not_eq_false'] at hfinds

/-- A call that reads behind the listener reads what was stored. -/
theorem requestStep_reads {s : ServingState} (hrecords : RecordsMatch s.publishers s.listeners)
    {pc : RequestPc} (hreads : ReadsOk s.listeners pc) (hstored : s.findsUnset pc = false)
    {portFirst : Bool} {result : C RequestPc} (h : requestStep s pc portFirst = some result) :
    ∃ pc', result = .ok pc' ∧ ReadsOk s.listeners pc' := by
  cases pc with
  | start params n =>
      simp only [requestStep] at h
      simp only [ServingState.findsUnset] at hstored
      split at h
      · cases h
      · cases h
        exact ⟨.refused, rfl, trivial⟩
      · rename_i topic hasked
        cases h
        simp only [hasked, Option.isNone_eq_false_iff] at hstored
        obtain ⟨port, hport⟩ := Option.isSome_iff_exists.mp hstored
        obtain ⟨uri, huri⟩ := PublisherPc.uri_of_port hport
        exact ⟨.cellUri topic, rfl, uri, port, huri, hport⟩
  | cellUri topic =>
      obtain ⟨uri, port, hread⟩ := hreads
      simp only [requestStep, hread.pubUri hrecords, strdup] at h
      cases h
      exact ⟨.cellPort topic uri, rfl, port, hread⟩
  | cellPort topic uri =>
      obtain ⟨port, hread⟩ := hreads
      simp only [requestStep, hread.pubPort hrecords] at h
      cases h
      exact ⟨.text topic uri port, rfl, hread⟩
  | text topic uri port =>
      have hread : Stored s.listeners topic uri port := hreads
      simp only [requestStep, hread.pubUri hrecords, hread.pubPort hrecords] at h
      cases h
      cases portFirst with
      | false => exact ⟨.textPort topic uri port (some uri), rfl, hread, rfl⟩
      | true => exact ⟨.textUri topic uri port port, rfl, hread, rfl⟩
  | textPort topic uri port uri' =>
      obtain ⟨hread, huri'⟩ := hreads
      simp only [requestStep, hread.pubPort hrecords] at h
      cases h
      exact ⟨.send topic uri port uri' port, rfl, hread, huri', rfl⟩
  | textUri topic uri port port' =>
      obtain ⟨hread, hport'⟩ := hreads
      simp only [requestStep, hread.pubUri hrecords] at h
      cases h
      exact ⟨.send topic uri port (some uri) port', rfl, hread, rfl, hport'⟩
  | send topic uri port uri' port' =>
      obtain ⟨hread, rfl, rfl⟩ := hreads
      cases h
      exact ⟨.replied topic (replyOf uri port' (some uri) port'), rfl, uri, port', hread,
        replyOf_eq uri port'⟩
  | replied topic reply => cases h
  | refused => cases h

theorem handleRequest_inv {s t : ServingState} {i : Nat} {portFirst : Bool}
    (h : handleRequest s i portFirst = some t) (hinv : ServingInv s)
    (hok : LooksUpStored s (.handle i portFirst) t) : ServingInv t := by
  unfold handleRequest at h
  cases hr : s.requests[i]? with
  | none => simp [hr] at h
  | some r =>
      have hstored := (looksUpStored_iff s t i portFirst).mp hok r hr
      have hmem : r ∈ s.requests := List.mem_of_getElem? hr
      obtain ⟨hearly, hreads⟩ := hinv.requests r hmem
      simp only [hr] at h
      cases hstep : requestStep s r.pc portFirst with
      | none => simp [hstep] at h
      | some result =>
          obtain ⟨pc, rfl, hpc⟩ := requestStep_reads hinv.records hreads hstored hstep
          simp only [hstep, hstored, hearly, Bool.or_false] at h
          cases h
          refine { hinv with requests := fun r' hr' => ?_ }
          rcases List.mem_or_eq_of_mem_set hr' with hold | rfl
          · exact hinv.requests r' hold
          · exact ⟨rfl, hpc⟩

/-! ## Runs -/

theorem servingStep_inv {s t : ServingState} {a : ServingAct} (hinv : ServingInv s)
    (h : servingStep s a = some t) (hok : LooksUpStored s a t) : ServingInv t := by
  unfold servingStep at h
  rw [if_neg (by simp [hinv.alive])] at h
  cases a with
  | deploy choice => exact nodeDeploy_inv h hinv
  | server =>
      simp only at h
      split at h
      · cases h
        exact { hinv with }
      · cases h
  | listen topic choice => exact publisherListener_inv h hinv
  | call params n =>
      simp only at h
      split at h
      · cases h
        refine { hinv with requests := fun r hr => ?_ }
        rcases List.mem_append.mp hr with hold | hnew
        · exact hinv.requests r hold
        · obtain rfl := List.mem_singleton.mp hnew
          exact ⟨rfl, trivial⟩
      · cases h
  | handle i portFirst => exact handleRequest_inv h hinv hok

theorem createPublishers_fresh (topics : List (Bytes × Bytes)) {node : StrosNode}
    (hwell : node.publishers.WellFormed)
    (hfresh : RecordsMatch node.publishers fun _ => .absent) :
    (createPublishers node topics).publishers.WellFormed ∧
      RecordsMatch (createPublishers node topics).publishers fun _ => .absent := by
  induction topics generalizing node with
  | nil => exact ⟨hwell, hfresh⟩
  | cons t topics ih =>
      rw [createPublishers, List.foldl_cons]
      refine ih (dput_wellFormed hwell t.1 _) ?_
      intro topic
      by_cases htopic : topic = t.1
      · subst htopic
        simp only [createPublisher, dvalue_dput_self]
        exact ⟨rfl, rfl⟩
      · simp only [createPublisher, dvalue_dput_ne _ _ htopic]
        exact hfresh topic

theorem servingInv_init {s : ServingState} (h : ServingInit s) : ServingInv s := by
  obtain ⟨node, topics, hnode, rfl⟩ := h
  have hempty : RecordsMatch node.publishers fun _ => .absent := by
    intro topic
    rw [hnode, dvalue_dict]
    exact ⟨rfl, rfl⟩
  obtain ⟨hwell, hfresh⟩ := createPublishers_fresh topics (hnode ▸ dict_wellFormed) hempty
  exact ⟨hfresh, nofun, fun _ => rfl, hwell, nofun, rfl⟩

theorem servingInv_of_reaches {s : ServingState} (h : Reaches servingSystem LooksUpStored s) :
    ServingInv s :=
  h.invariant (fun _ => servingInv_init) fun _ _ _ hinv hstep hok => servingStep_inv hinv hstep hok

theorem ServingInv.advertisesBound {s : ServingState} (h : ServingInv s) : AdvertisesBound s := by
  refine ⟨?_, ?_, h.alive⟩
  · intro r hr topic reply hpc
    obtain ⟨-, hreads⟩ := h.requests r hr
    rw [hpc] at hreads
    obtain ⟨uri, port, hstored, hreply⟩ := hreads
    have hsocket := PublisherPc.socket_of_port hstored.2
    exact ⟨uri, port, hstored.1, hsocket, h.sockets topic port hsocket, hreply⟩
  · intro r hr hearly
    rw [(h.requests r hr).1] at hearly
    cases hearly

/-- A call that finds the publisher too early is not refused. -/
theorem handleRequest_early {s t : ServingState} {i : Nat} {portFirst : Bool}
    (h : handleRequest s i portFirst = some t) (hnot : ¬ LooksUpStored s (.handle i portFirst) t) :
    ¬ AdvertisesBound t := by
  rw [looksUpStored_iff] at hnot
  push Not at hnot
  obtain ⟨r, hr, hunset⟩ := hnot
  rw [ne_eq, Bool.not_eq_false] at hunset
  obtain ⟨hi, -⟩ := List.getElem?_eq_some_iff.mp hr
  have hfound : ∃ topic, requestStep s r.pc portFirst = some (.ok (.cellUri topic)) := by
    unfold ServingState.findsUnset at hunset
    split at hunset
    · rename_i params n hpc
      split at hunset
      · rename_i topic hasked
        exact ⟨topic, by simp only [hpc, requestStep, hasked]⟩
      · cases hunset
    · cases hunset
  obtain ⟨topic, hstep⟩ := hfound
  simp only [handleRequest, hr, hstep, hunset, Bool.or_true] at h
  cases h
  intro hadvertises
  have hrefused := hadvertises.early ⟨.cellUri topic, true⟩ (List.mem_set hi _) rfl
  cases hrefused

/-- As long as calls find only publishers whose listener has stored its address, what
is advertised is served; and the first call that does not breaks it. -/
theorem advertisesBound_run {s : ServingState} (h : Reaches servingSystem LooksUpStored s) :
    AdvertisesBound s ∧ ∀ a t, servingSystem.step s a = some t →
      (AdvertisesBound t ↔ LooksUpStored s a t) := by
  have hinv := servingInv_of_reaches h
  refine ⟨hinv.advertisesBound, fun a t hstep => ⟨fun hadvertises => ?_, fun hok => ?_⟩⟩
  · by_contra hnot
    cases a with
    | handle i portFirst =>
        have hhandle : handleRequest s i portFirst = some t := by
          have halive : servingStep s (.handle i portFirst) = some t := hstep
          rwa [servingStep, if_neg (by simp [hinv.alive])] at halive
        exact handleRequest_early hhandle hnot hadvertises
    | deploy choice => exact hnot nofun
    | server => exact hnot nofun
    | listen topic choice => exact hnot nofun
    | call params n => exact hnot nofun
  · exact (servingStep_inv hinv hstep hok).advertisesBound

/-! ## Two runs of a node with one publisher -/

def talkerDeploying : ServingState where
  publishers :=
    (createPublishers (defaultNode (str "/talker"))
      [(str "/chatter", str "std_msgs/String")]).publishers
  listeners := fun _ => .absent
  deploy := .createServer
  server := .absent
  locked := false
  requests := []
  crashed := false

theorem talkerDeploying_init : ServingInit talkerDeploying :=
  ⟨defaultNode (str "/talker"), [(str "/chatter", str "std_msgs/String")], rfl, rfl⟩

def serverTrace : List ServingAct :=
  [.deploy (.thread true), .server, .deploy .go, .deploy .go]

def listenerTrace : List ServingAct :=
  [.deploy (.answer (some ⟨respOk, 3, some []⟩)), .deploy (.thread true),
    .listen (str "/chatter") (.socket (some 5000)), .listen (str "/chatter") .go,
    .listen (str "/chatter") (.address (str "10.0.0.1")), .listen (str "/chatter") .go,
    .listen (str "/chatter") .go]

def callTrace (steps : Nat) : List ServingAct :=
  .call (listenerParams (str "/listener") (str "/chatter")) 3 ::
    List.replicate steps (.handle 0 false)

/-- The step of a call finds no publisher without an address. -/
def ServingState.allows (s : ServingState) : ServingAct → Bool
  | .handle i _ => (s.requests[i]?).all fun r => !s.findsUnset r.pc
  | _ => true

theorem looksUpStored_of_allows {s : ServingState} {a : ServingAct} (h : s.allows a = true)
    (t : ServingState) : LooksUpStored s a t := by
  cases a with
  | handle i portFirst =>
      refine (looksUpStored_iff s t i portFirst).mpr fun r hr => ?_
      rw [ServingState.allows, hr] at h
      simpa using h
  | deploy choice => exact nofun
  | server => exact nofun
  | listen topic choice => exact nofun
  | call params n => exact nofun

set_option maxRecDepth 20000 in
/-- A call behind the startup is answered with the address. -/
theorem advertisesBound_talker :
    ∃ s, s.requests = [⟨.replied (str "/chatter") (topicReply (str "10.0.0.1") 5000), false⟩] ∧
      AdvertisesBound s ∧ ∀ a t, servingSystem.step s a = some t →
        (AdvertisesBound t ↔ LooksUpStored s a t) := by
  have hview : (execAllowed servingSystem ServingState.allows talkerDeploying
        (serverTrace ++ listenerTrace ++ callTrace 6)).map ServingState.requests =
      some [⟨.replied (str "/chatter") (topicReply (str "10.0.0.1") 5000), false⟩] := by
    rfl
  obtain ⟨s, hs, hrequests⟩ := Option.map_eq_some_iff.mp hview
  exact ⟨s, hrequests, advertisesBound_run (Reaches.execAllowed
    (fun s a t hallowed _ => looksUpStored_of_allows hallowed t) (.init talkerDeploying_init) hs)⟩

/-- A call before the registration ends the process. -/
theorem advertisesBound_broken : ¬ ∀ s, Reachable servingSystem s → AdvertisesBound s := by
  intro h
  have hview : (exec servingSystem talkerDeploying (serverTrace ++ callTrace 2)).map
      ServingState.crashed = some true := by
    rfl
  obtain ⟨s, hs, hcrashed⟩ := Option.map_eq_some_iff.mp hview
  have halive := (h s (Reachable.exec talkerDeploying_init hs)).alive
  rw [hcrashed] at halive
  cases halive

end STRos
