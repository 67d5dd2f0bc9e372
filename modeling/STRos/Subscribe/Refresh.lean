import STRos.Subscribe.Update

/-! # Whether a refreshed subscriber goes back

The address of the data socket outlives the iteration that asked for it. When an
update has installed another publisher and the exchange with this one gives no
address, the loop goes on with the address it still holds.
-/

namespace STRos

open CString Transition

/-- In `tcp_ros_request` without an answer of the publisher that is installed,
the address in use was given by this publisher. -/
def NeverBack (s : SubState) : Prop :=
  s.pc = .receiving → s.sub.status = .refresh → s.asked = some s.installed

/-- Updates happen only at the head of the loop. -/
def HeadOnly (s : SubState) (a : SubAct) (_ : SubState) : Prop :=
  ∀ l, a = .update l → s.pc.atHead = true

/-- An address `tcp_ros_request` would be called with. -/
def SubState.HoldsAddress (s : SubState) : Prop := s.ip.isSome = true ∧ 0 < s.port

/-- The condition on a step: an exchange that gives no address finds none of
another publisher. -/
def LeavesNoOld (s : SubState) (a : SubAct) (_ : SubState) : Prop :=
  ∀ resp uri port, a = .listen (.reply resp) → s.pc = .exchange uri port →
    replyAddress resp = .ok none → s.HoldsAddress → s.asked = some s.installed

def ListenPc.asked : ListenPc → Bool
  | .connect => true
  | .receiving => true
  | _ => false

def KeptInv (s : SubState) : Prop :=
  s.pc.asked = true → s.sub.status = .refresh → s.HoldsAddress → s.asked = some s.installed

def AddressInv (s : SubState) : Prop := s.pc = .receiving → s.HoldsAddress

/-- How the listener gets behind an exchange: with a status it has seen to be
another one, without an address, with one, by calling `tcp_ros_request` with the
address it holds, or by staying there. -/
theorem subscriberListener_asked {s t : SubState} {choice : Choice}
    (h : subscriberListener s choice = some t) (ht : t.pc.asked = true) :
    (s.sub.status ≠ .refresh ∧ t = { s with pc := .connect }) ∨
      (∃ uri port resp, s.pc = .exchange uri port ∧ choice = .reply resp ∧
        replyAddress resp = .ok none ∧ t = { s with pc := .connect }) ∨
      t.sub.status = .active ∧ t.pc = .connect ∨
      (s.pc = .connect ∧ s.HoldsAddress ∧ t = { s with pc := .receiving }) ∨
      (s.pc = .receiving ∧ t = s) := by
  unfold subscriberListener at h
  split at h
  case h_4 hpc =>
    cases h
    by_cases hstatus : s.sub.status = .refresh
    · simp [hstatus, ListenPc.asked] at ht
    · exact Or.inl ⟨hstatus, by simp [hstatus]⟩
  case h_9 uri port resp hpc =>
    split at h
    · cases h
    · rename_i hnone
      cases h
      exact Or.inr (Or.inl ⟨_, _, _, hpc, rfl, hnone, rfl⟩)
    · cases h
      simp [ListenPc.asked] at ht
  case h_10 =>
    cases h
    exact Or.inr (Or.inr (Or.inl ⟨rfl, rfl⟩))
  case h_11 hpc =>
    cases h
    by_cases hholds : s.ip.isSome ∧ 0 < s.port
    · exact Or.inr (Or.inr (Or.inr (Or.inl ⟨hpc, hholds, by simp [hholds]⟩)))
    · simp [hholds, ListenPc.asked] at ht
  case h_12 hpc =>
    cases h
    exact Or.inr (Or.inr (Or.inr (Or.inr ⟨hpc, rfl⟩)))
  all_goals
    cases h
    try (exfalso; revert ht; dsimp only; (repeat' split) <;> simp [ListenPc.asked])

theorem atHead_not_asked {pc : ListenPc} (h : pc.atHead = true) : pc.asked = false := by
  cases pc with
  | headRos => rfl
  | headStatus => rfl
  | _ => cases h

theorem addressInv_init {s : SubState} (h : SubInit s) : AddressInv s := by
  intro hpc
  rw [h.2.1] at hpc
  cases hpc

theorem AddressInv.step {s t : SubState} {a : SubAct} (h : AddressInv s)
    (hstep : subStep s a = some t) : AddressInv t := by
  rcases subStep_cases hstep with ⟨l, sub, -, -, rfl⟩ | ⟨-, rfl⟩ | ⟨choice, -, hlisten⟩
  · exact h
  · exact h
  · intro hpc
    have hasked : t.pc.asked = true := by rw [hpc]; rfl
    rcases subscriberListener_asked hlisten hasked with
      ⟨-, rfl⟩ | ⟨_, _, _, -, -, -, rfl⟩ | ⟨-, hcon⟩ | ⟨-, hholds, rfl⟩ | ⟨hrec, rfl⟩
    · cases hpc
    · cases hpc
    · rw [hcon] at hpc
      cases hpc
    · exact hholds
    · exact h hrec

theorem keptInv_init {s : SubState} (h : SubInit s) : KeptInv s := by
  intro hpc
  rw [h.2.1] at hpc
  cases hpc

theorem KeptInv.step {s t : SubState} {a : SubAct} (h : KeptInv s) (hstep : subStep s a = some t)
    (hhead : HeadOnly s a t) (hold : LeavesNoOld s a t) : KeptInv t := by
  rcases subStep_cases hstep with ⟨l, sub, rfl, -, rfl⟩ | ⟨-, rfl⟩ | ⟨choice, rfl, hlisten⟩
  · intro hpc
    rw [atHead_not_asked (hhead l rfl)] at hpc
    cases hpc
  · exact h
  · intro hasked hstatus hholds
    rcases subscriberListener_asked hlisten hasked with
      ⟨hne, rfl⟩ | ⟨uri, port, resp, hpc, rfl, hnone, rfl⟩ | ⟨hactive, -⟩ | ⟨hpc, -, rfl⟩ |
        ⟨hpc, rfl⟩
    · exact absurd hstatus hne
    · exact hold resp uri port rfl hpc hnone hholds
    · rw [hactive] at hstatus
      cases hstatus
    · exact h (by rw [hpc]; rfl) hstatus hholds
    · exact h (by rw [hpc]; rfl) hstatus hholds

/-- With updates at the head of the loop and no failed exchange that leaves an
address of another publisher, the subscriber does not go back. -/
theorem neverBack_of_leavesNoOld (s : SubState)
    (h : Reaches subSystem (fun s a t => HeadOnly s a t ∧ LeavesNoOld s a t) s) : NeverBack s := by
  have hkept : KeptInv s := h.invariant (fun _ => keptInv_init) fun _ _ _ hs hstep hok =>
    hs.step hstep hok.1 hok.2
  have haddress : AddressInv s := h.invariant (fun _ => addressInv_init) fun _ _ _ hs hstep _ =>
    hs.step hstep
  intro hpc hstatus
  exact hkept (by rw [hpc]; rfl) hstatus (haddress hpc)

/-! ## The condition is no stronger than needed -/

def ListenPc.exchanging : ListenPc → Bool
  | .args => true
  | .argUri _ => true
  | .argPort _ => true
  | .exchange _ _ => true
  | _ => false

def RefreshInv (s : SubState) : Prop := s.pc.exchanging = true → s.sub.status = .refresh

theorem RefreshInv.listen {s t : SubState} {choice : Choice} (h : RefreshInv s)
    (hstep : subscriberListener s choice = some t) : RefreshInv t := by
  unfold subscriberListener at hstep
  split at hstep
  case h_4 =>
    cases hstep
    intro hpc
    by_cases hstatus : s.sub.status = .refresh
    · exact hstatus
    · simp [hstatus, ListenPc.exchanging] at hpc
  case h_5 hpc => cases hstep; exact fun _ => h (by rw [hpc]; rfl)
  case h_6 hpc => cases hstep; exact fun _ => h (by rw [hpc]; rfl)
  case h_7 hpc => cases hstep; exact fun _ => h (by rw [hpc]; rfl)
  case h_8 hpc => cases hstep; exact fun _ => h (by rw [hpc]; rfl)
  case h_9 =>
    split at hstep
    · cases hstep
    · cases hstep
      intro hpc
      cases hpc
    · cases hstep
      intro hpc
      cases hpc
  case h_12 => cases hstep; exact h
  all_goals
    cases hstep
    try (intro hpc; exfalso; revert hpc; dsimp only; (repeat' split) <;> simp [ListenPc.exchanging])

theorem refreshInv_of_headOnly {s : SubState} (h : Reaches subSystem HeadOnly s) :
    RefreshInv s := by
  refine h.invariant (fun s hs hpc => ?_) fun s a t hs hstep hhead => ?_
  · exact hs.1
  · rcases subStep_cases hstep with ⟨l, sub, -, hsub, rfl⟩ | ⟨-, rfl⟩ | ⟨choice, -, hlisten⟩
    · exact fun _ => extractUrl_status hsub
    · exact hs
    · exact hs.listen hlisten

theorem headOnly_listen (s t : SubState) (choice : Choice) : HeadOnly s (.listen choice) t := by
  intro l hl
  cases hl

/-- A failed exchange that leaves an address of another publisher is followed by
a call with it. -/
theorem goesBack_of_old {s t : SubState} {resp : Option RpcResponse}
    (h : Reaches subSystem HeadOnly s) (hstep : subStep s (.listen (.reply resp)) = some t)
    (hold : ¬ LeavesNoOld s (.listen (.reply resp)) t) :
    ∃ u, subStep t (.listen .go) = some u ∧ Reaches subSystem HeadOnly u ∧ ¬ NeverBack u := by
  simp only [LeavesNoOld, SubAct.listen.injEq, Choice.reply.injEq] at hold
  push Not at hold
  obtain ⟨resp', uri, port, rfl, hpc, hnone, hholds, hne⟩ := hold
  have hstatus : s.sub.status = .refresh := refreshInv_of_headOnly h (by rw [hpc]; rfl)
  have hreply : subSystem.step s (.listen (.reply resp)) = some t := hstep
  have ht : Reaches subSystem HeadOnly t := .step h hreply (headOnly_listen s t _)
  have hconnect : t = { s with pc := .connect } := by
    cases uri with
    | none => simp [subStep, subscriberListener, hpc] at hstep
    | some uri =>
        simp only [subStep, subscriberListener, hpc, hnone, Option.some.injEq] at hstep
        exact hstep.symm
  subst hconnect
  have hgo : subSystem.step { s with pc := .connect } (.listen .go) =
      some { s with pc := .receiving } := by
    have hcall : s.ip.isSome ∧ 0 < s.port := hholds
    simp [subSystem, subStep, subscriberListener, hcall]
  refine ⟨_, hgo, .step ht hgo (headOnly_listen _ _ _), fun hback => ?_⟩
  exact hne (hback rfl hstatus)

/-! ## Two runs -/

def movedTrace (resp : Option RpcResponse) : List SubAct :=
  askTrace ++ connectTrace ++ moved :: (List.replicate 6 (.listen .go) ++
    [.listen (.reply resp), .listen .go])

def SubState.allowsHead (s : SubState) : SubAct → Bool
  | .update _ => s.pc.atHead
  | _ => true

theorem headOnly_of_allows {s t : SubState} {a : SubAct} (h : s.allowsHead a = true) :
    HeadOnly s a t := by
  intro l hl
  subst hl
  exact h

def SubState.allowsAnswered (s : SubState) : SubAct → Bool
  | .update _ => s.pc.atHead
  | .listen (.reply resp) =>
      match replyAddress resp with
      | .ok none => false
      | _ => true
  | _ => true

theorem leavesNoOld_of_allows {s t : SubState} {a : SubAct} (h : s.allowsAnswered a = true) :
    HeadOnly s a t ∧ LeavesNoOld s a t := by
  constructor
  · intro l hl
    subst hl
    exact h
  · intro resp uri port ha _ hnone _
    subst ha
    simp [SubState.allowsAnswered, hnone] at h

/-- When the other publisher answers, it is connected next. -/
theorem neverBack_moved :
    ∃ s, execAllowed subSystem SubState.allowsAnswered listening (movedTrace (some readyReply)) =
      some s ∧ s.pc = .connect ∧ NeverBack s := by
  have hview : (execAllowed subSystem SubState.allowsAnswered listening
      (movedTrace (some readyReply))).map SubState.pc = some .connect := by
    rfl
  obtain ⟨s, hs, hpc⟩ := Option.map_eq_some_iff.mp hview
  have hok : ∀ s a t, s.allowsAnswered a = true → subSystem.step s a = some t →
      HeadOnly s a t ∧ LeavesNoOld s a t := fun _ _ _ h _ => leavesNoOld_of_allows h
  exact ⟨s, hs, hpc,
    neverBack_of_leavesNoOld s (Reaches.execAllowed hok (.init listening_init) hs)⟩

/-- A publisher that does not answer sends the subscriber back to the first one. -/
theorem neverBack_broken : ¬ ∀ s, Reaches subSystem HeadOnly s → NeverBack s := by
  intro h
  have hview : (execAllowed subSystem SubState.allowsHead listening (movedTrace none)).map
      SubState.view = some (.receiving, .refresh, some (some (str "10.0.0.1"), 4000),
        (some (str "10.0.0.2"), 4000)) := by
    rfl
  obtain ⟨s, hs, hv⟩ := Option.map_eq_some_iff.mp hview
  simp only [SubState.view, Prod.mk.injEq] at hv
  obtain ⟨hpc, hstatus, hasked, hinst⟩ := hv
  have hok : ∀ s a t, s.allowsHead a = true → subSystem.step s a = some t → HeadOnly s a t :=
    fun _ _ _ h _ => headOnly_of_allows h
  have hback := h s (Reaches.execAllowed hok (.init listening_init) hs) hpc hstatus
  rw [hasked, hinst] at hback
  exact absurd hback (by decide)

end STRos
