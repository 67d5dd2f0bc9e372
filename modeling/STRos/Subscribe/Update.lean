import STRos.Model.Listener

/-! # Whether an update is lost

The listener reads the address of the publisher, asks it, and only then sets
`TOPIC_ACTIVE`. An update in between is covered up: its request for a new
exchange is overwritten.
-/

namespace STRos

open CString Transition

/-- At the head of its loop with an active subscriber the listener holds what an
exchange with the pair installed last gave it. -/
def UpToDate (s : SubState) : Prop :=
  s.pc.atHead = true → s.sub.status = .active → s.asked = some s.installed

/-- The condition on a step: `TOPIC_ACTIVE` is set only while the fields of the
subscriber are still the pair the exchange was sent to. -/
def Undisturbed (s : SubState) (a : SubAct) (_ : SubState) : Prop :=
  match a, s.pc with
  | .listen _, .activate uri port _ _ => (s.sub.uri, s.sub.port) = (uri, port)
  | _, _ => True

structure UpdateInv (s : SubState) : Prop where
  installed : s.installed = (s.sub.uri, s.sub.port)
  active : s.sub.status = .active → s.asked = some s.installed

theorem updateInv_init {s : SubState} (h : SubInit s) : UpdateInv s := by
  obtain ⟨hstatus, -, -, -, hinstalled, -⟩ := h
  exact ⟨hinstalled, by simp [hstatus]⟩

theorem UpdateInv.step {s t : SubState} {a : SubAct} (h : UpdateInv s)
    (hstep : subStep s a = some t) (hok : Undisturbed s a t) : UpdateInv t := by
  rcases subStep_cases hstep with ⟨l, sub, -, hsub, rfl⟩ | ⟨-, rfl⟩ | ⟨choice, rfl, hlisten⟩
  · exact ⟨rfl, by simp [extractUrl_status hsub]⟩
  · exact ⟨h.installed, h.active⟩
  · rcases subscriberListener_cases hlisten with
      ⟨hsub, hinst, hasked⟩ | ⟨uri, port, ip, p, hpc, rfl⟩
    · exact ⟨by rw [hinst, hsub, h.installed], by rw [hsub, hasked, hinst]; exact h.active⟩
    · refine ⟨h.installed, fun _ => ?_⟩
      simp only [Undisturbed, hpc] at hok
      simp only [h.installed, hok]

theorem upToDate_of_undisturbed (s : SubState) (h : Reaches subSystem Undisturbed s) :
    UpToDate s :=
  fun _ hactive => (h.invariant (fun _ => updateInv_init) fun _ _ _ hs hstep hok =>
    UpdateInv.step hs hstep hok).active hactive

/-! ## When nothing disturbs an exchange -/

/-- The listener has read a part of the address and has not set `TOPIC_ACTIVE` yet. -/
def ListenPc.asking : ListenPc → Bool
  | .argUri _ => true
  | .argPort _ => true
  | .exchange _ _ => true
  | .activate _ _ _ _ => true
  | _ => false

def Quiet (s : SubState) (a : SubAct) (_ : SubState) : Prop :=
  ∀ l, a = .update l → s.pc.asking = false

def Fresh (s : SubState) : Prop :=
  match s.pc with
  | .argUri port => port = s.sub.port
  | .argPort uri => uri = s.sub.uri
  | .exchange uri port => uri = s.sub.uri ∧ port = s.sub.port
  | .activate uri port _ _ => uri = s.sub.uri ∧ port = s.sub.port
  | _ => True

theorem fresh_of_not_asking {s : SubState} (h : s.pc.asking = false) : Fresh s := by
  unfold Fresh
  split <;> simp_all [ListenPc.asking]

theorem Fresh.undisturbed {s t : SubState} (h : Fresh s) (a : SubAct) : Undisturbed s a t := by
  unfold Undisturbed
  split
  · rename_i hpc
    simp only [Fresh, hpc] at h
    rw [h.1, h.2]
  · trivial

theorem Fresh.listen {s t : SubState} {choice : Choice} (h : Fresh s)
    (hstep : subscriberListener s choice = some t) : Fresh t := by
  unfold subscriberListener at hstep
  split at hstep
  case h_5 => cases hstep; rfl
  case h_6 => cases hstep; rfl
  case h_7 hpc =>
    cases hstep
    simp only [Fresh, hpc] at h
    exact ⟨rfl, h⟩
  case h_8 hpc =>
    cases hstep
    simp only [Fresh, hpc] at h
    exact ⟨h, rfl⟩
  case h_9 hpc =>
    simp only [Fresh, hpc] at h
    split at hstep
    · cases hstep
    · cases hstep
      trivial
    · cases hstep
      exact h
  case h_12 => cases hstep; exact h
  all_goals
    cases hstep
    try exact fresh_of_not_asking (by dsimp only; (repeat' split) <;> rfl)

theorem undisturbed_of_quiet {s : SubState} (h : Reaches subSystem Quiet s) :
    Reaches subSystem Undisturbed s := by
  have hboth : Reaches subSystem Undisturbed s ∧ Fresh s := by
    induction h with
    | init h => exact ⟨.init h, fresh_of_not_asking (by rw [h.2.1]; rfl)⟩
    | @step s t a _ hstep hquiet ih =>
        obtain ⟨hreach, hfresh⟩ := ih
        refine ⟨.step hreach hstep (hfresh.undisturbed a), ?_⟩
        rcases subStep_cases hstep with ⟨l, sub, rfl, -, rfl⟩ | ⟨-, rfl⟩ | ⟨choice, -, hlisten⟩
        · exact fresh_of_not_asking (hquiet l rfl)
        · exact hfresh
        · exact hfresh.listen hlisten
  exact hboth.1

/-! ## Two runs -/

def listening : SubState :=
  { rosOk := true
    sub := ⟨str "/listener", str "/chatter", str "std_msgs/String", some (str "10.0.0.1"), 4000,
      .refresh⟩
    pc := .headRos
    ip := none
    port := 0
    installed := (some (str "10.0.0.1"), 4000)
    asked := none }

theorem listening_init : SubInit listening := ⟨rfl, rfl, rfl, rfl, rfl, rfl⟩

def readyReply : RpcResponse :=
  ⟨respOk, 1, some [.array [.int 1, .string (str "ready on 10.0.0.1:5000"),
    .array [.string (str "TCPROS"), .string (str "10.0.0.1"), .int 5000]]]⟩

def askTrace : List SubAct :=
  List.replicate 6 (.listen .go) ++ [.listen (.reply (some readyReply))]

def connectTrace : List SubAct := [.listen .go, .listen .go, .listen .leave]

def moved : SubAct := .update [.string (str "http://10.0.0.2:4000/")]

def SubState.view (s : SubState) :
    ListenPc × TopicStatus × Option (Option Bytes × Int32) × (Option Bytes × Int32) :=
  (s.pc, s.sub.status, s.asked, s.installed)

theorem upToDate_connected :
    ∃ s, exec subSystem listening (askTrace ++ connectTrace) = some s ∧
      s.sub.status = .active ∧ UpToDate s := by
  have hview : (exec subSystem listening (askTrace ++ connectTrace)).map SubState.view =
      some (.headRos, .active, some (some (str "10.0.0.1"), 4000),
        (some (str "10.0.0.1"), 4000)) := by
    rfl
  obtain ⟨s, hs, hv⟩ := Option.map_eq_some_iff.mp hview
  refine ⟨s, hs, congrArg (·.2.1) hv, upToDate_of_undisturbed s (undisturbed_of_quiet ?_)⟩
  refine Reaches.exec (P := fun _ => True) (Q := fun a => ∃ choice, a = .listen choice) ?_
    (.init listening_init) trivial ?_ hs
  · rintro s a t - ⟨choice, rfl⟩ -
    exact ⟨fun l h => (nomatch h), trivial⟩
  · intro a ha
    simp only [askTrace, connectTrace, List.mem_append, List.mem_cons, List.not_mem_nil, or_false,
      List.mem_replicate] at ha
    rcases ha with (⟨-, rfl⟩ | rfl) | rfl | rfl | rfl
    all_goals exact ⟨_, rfl⟩

/-- An update between the reply and the block is lost. -/
theorem upToDate_broken : ¬ ∀ s, Reachable subSystem s → UpToDate s := by
  intro h
  have hview : (exec subSystem listening (askTrace ++ moved :: connectTrace)).map SubState.view =
      some (.headRos, .active, some (some (str "10.0.0.1"), 4000),
        (some (str "10.0.0.2"), 4000)) := by
    rfl
  obtain ⟨s, hs, hv⟩ := Option.map_eq_some_iff.mp hview
  simp only [SubState.view, Prod.mk.injEq] at hv
  obtain ⟨hpc, hstatus, hasked, hinst⟩ := hv
  have := h s (Reachable.exec listening_init hs) (by rw [hpc]; rfl) hstatus
  rw [hasked, hinst] at this
  exact absurd this (by decide)

end STRos
