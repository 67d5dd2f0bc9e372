import STRos.Model.Publish
import Mathlib.Data.List.Perm.Subperm

/-! # Fan-out: which connections get the latest message

One flag tells all threads of a publisher that there is something to send, and
the first thread that sees it clears it for everybody. With one connection at a
time the flag does its work; with two, the other one misses the message.
-/

namespace STRos

open CString Transition

/-- Every connection that waits, and was there before the latest call of
`publish`, still sees the flag or has transmitted the message. -/
def FanOut (s : PubState) : Prop :=
  ∀ i m, (s.conn i).pc.waiting = true → s.history.getLast? = some m →
    (s.conn i).since < s.history.length → s.dataOk = true ∨ m ∈ (s.conn i).sent

def LiveAtMost (n : Nat) (s : PubState) : Prop :=
  ∀ ids : List Nat, ids.Nodup → (∀ i ∈ ids, (s.conn i).pc.live = true) → ids.length ≤ n

def RunningWith (n : Nat) (_ : PubState) (_ : PubAct) (t : PubState) : Prop :=
  t.rosOk = true ∧ LiveAtMost n t

theorem LiveAtMost.eq {s : PubState} (h : LiveAtMost 1 s) {i j : Nat}
    (hi : (s.conn i).pc.live = true) (hj : (s.conn j).pc.live = true) : i = j := by
  by_contra hne
  have := h [i, j] (by simpa using hne) (by simp [hi, hj])
  simp at this

/-! ## One connection -/

/-- What the thread of a connection still owes to the message `m`. -/
def Served (dataOk : Bool) (m : Datum) (c : Conn) : Prop :=
  match c.pc with
  | .waitOk => dataOk = true ∨ m ∈ c.sent
  | .waitStatus => dataOk = true ∨ m ∈ c.sent
  | .waitRos => dataOk = true ∨ m ∈ c.sent
  | .send d => dataOk = true ∨ d = m
  | .loopRos true => dataOk = true ∨ m ∈ c.sent
  | .loopStatus true => dataOk = true ∨ m ∈ c.sent
  | _ => True

theorem served_of_dataOk (m : Datum) (c : Conn) : Served true m c := by
  unfold Served
  split <;> simp

theorem served_of_not_live {m : Datum} {c : Conn} {dataOk : Bool} (h : c.pc.live = false) :
    Served dataOk m c := by
  unfold Served
  split <;> simp_all [PubPc.live]

theorem Served.waiting {m : Datum} {c : Conn} {dataOk : Bool} (h : Served dataOk m c)
    (hw : c.pc.waiting = true) : dataOk = true ∨ m ∈ c.sent := by
  unfold Served at h
  split at h <;> simp_all [PubPc.waiting]

/-- A step of the thread itself: the flag it clears is one it has seen, and what
it reads is the latest message. -/
theorem Served.thread {s : PubState} {m : Datum} {c c' : Conn} {ok : Bool}
    (hdata : s.data = m) (h : Served s.dataOk m c) (hstep : publishTcpData s c ok = some c')
    (hsince : c'.since < s.history.length) :
    Served (if c.pc = .reset then false else s.dataOk) m c' := by
  obtain ⟨pc, since, sent⟩ := c
  cases pc with
  | handshake =>
      cases ok with
      | true =>
          cases hstep
          exact absurd hsince (Nat.lt_irrefl _)
      | false => cases hstep; trivial
  | waitOk =>
      cases hstep
      by_cases hok : s.dataOk = true
      · simp [Served, hok]
      · simpa [Served, hok] using h
  | waitStatus =>
      cases hstep
      by_cases hst : s.pub.status = .down
      · simp [Served, hst]
      · simpa [Served, hst] using h
  | waitRos =>
      cases hstep
      by_cases hros : s.rosOk = true
      · simpa [Served, hros] using h
      · simp [Served, hros]
  | reset => cases hstep; trivial
  | nullCheck =>
      simp only [publishTcpData] at hstep
      split at hstep <;> cases hstep <;> trivial
  | read =>
      simp only [publishTcpData] at hstep
      split at hstep
      · cases hstep
      · cases hstep
        exact Or.inr hdata
  | send d =>
      cases ok with
      | true =>
          cases hstep
          refine h.imp (fun hok => by simpa using hok) fun hd => ?_
          subst hd
          simp
      | false => cases hstep; trivial
  | loopRos io =>
      cases hstep
      cases io with
      | true =>
          by_cases hros : s.rosOk = true
          · simpa [Served, hros] using h
          · simp [Served, hros]
      | false => by_cases hros : s.rosOk = true <;> simp [Served, hros]
  | loopStatus io =>
      cases hstep
      cases io with
      | true =>
          by_cases hst : s.pub.status = .down
          · simp [Served, hst]
          · simpa [Served, hst] using h
      | false => simp [Served]
  | exited => cases hstep

/-! ## One connection at a time -/

structure FanInv (s : PubState) : Prop where
  latest : ∀ m, s.history.getLast? = some m → s.data = m
  served : ∀ i m, s.history.getLast? = some m → (s.conn i).since < s.history.length →
    Served s.dataOk m (s.conn i)

theorem fanInv_init {s : PubState} (h : PubInit s) : FanInv s := by
  obtain ⟨-, -, -, -, hhist, -⟩ := h
  constructor <;> simp [hhist]

theorem FanInv.publish {s : PubState} (msg : Option Bytes) : FanInv (publish s msg) where
  latest := fun m h => by simpa [STRos.publish] using h
  served := fun i m _ _ => served_of_dataOk m (s.conn i)

/-- A thread moves while no other connection is past the handshake. -/
theorem FanInv.thread {s t : PubState} {i : Nat} {ok : Bool} {c : Conn} (h : FanInv s)
    (hc : publishTcpData s (s.conn i) ok = some c)
    (ht : t = { s with
                dataOk := if (s.conn i).pc = .reset then false else s.dataOk
                conn := Function.update s.conn i c })
    (hsole : LiveAtMost 1 t) : FanInv t := by
  subst ht
  refine ⟨h.latest, fun j m hm hsince => ?_⟩
  by_cases hj : j = i
  · subst hj
    simp only [Function.update_self] at hsince ⊢
    refine Served.thread (h.latest m hm) ?_ hc hsince
    by_cases hpc : (s.conn j).pc = .handshake
    · exact served_of_not_live (by simp [hpc, PubPc.live])
    · rw [publishTcpData_since hc hpc] at hsince
      exact h.served j m hm hsince
  · simp only [Function.update_of_ne hj] at hsince ⊢
    by_cases hpc : (s.conn i).pc = .reset
    · -- The flag goes down, and nobody but the thread that cleared it is there.
      refine served_of_not_live (Bool.eq_false_iff.mpr fun hlive => hj ?_)
      refine hsole.eq (by simpa [Function.update_of_ne hj] using hlive) ?_
      simp only [Function.update_self]
      exact publishTcpData_reset hc hpc
    · rw [if_neg hpc]
      exact h.served j m hm hsince

theorem fanInv_reaches {s : PubState} (h : Reaches pubSystem (RunningWith 1) s) : FanInv s := by
  refine h.invariant (fun _ => fanInv_init) fun s a t hs hstep hok => ?_
  rcases pubStep_cases hstep with ⟨msg, -, rfl⟩ | ⟨-, rfl⟩ | ⟨i, ok, c, -, hc, ht⟩
  · exact FanInv.publish msg
  · exact ⟨hs.latest, hs.served⟩
  · exact hs.thread hc ht hok.2

theorem fanOut_of_sole {s : PubState} (h : Reaches pubSystem (RunningWith 1) s) : FanOut s := by
  intro i m hw hm hsince
  exact ((fanInv_reaches h).served i m hm hsince).waiting hw

/-! ## Two connections -/

def talker : PubState :=
  { rosOk := true
    pub := ⟨str "/talker", str "/chatter", str "std_msgs/String", none, 0, .active⟩
    dataOk := false
    data := placeholder
    history := []
    conn := fun _ => ⟨.handshake, 0, []⟩ }

theorem talker_init : PubInit talker := by
  simp [PubInit, talker]

/-- The first connection clears the flag, the second one has not looked yet. -/
def missedTrace : List PubAct :=
  [.thread 0 true, .thread 1 true, .publish (some (str "hello")), .thread 0 true, .thread 0 true]

def TwoServed (s : PubState) : Prop :=
  s.rosOk = true ∧ ∀ i, 2 ≤ i → (s.conn i).pc.live = false

theorem TwoServed.liveAtMost {s : PubState} (h : TwoServed s) {n : Nat} (hn : 2 ≤ n) :
    LiveAtMost n s := by
  intro ids hnodup hlive
  have hsub : ids ⊆ [0, 1] := by
    intro i hi
    by_contra hne
    have hfalse := h.2 i (by simp at hne; omega)
    rw [hlive i hi] at hfalse
    cases hfalse
  have := (List.subperm_of_subset hnodup hsub).length_le
  simp at this
  omega

def firstTwo : PubAct → Bool
  | .publish _ => true
  | .stop => false
  | .thread i _ => i < 2

theorem TwoServed.step {s t : PubState} {a : PubAct} (h : TwoServed s) (ha : firstTwo a = true)
    (hstep : pubStep s a = some t) : TwoServed t := by
  rcases pubStep_cases hstep with ⟨msg, -, rfl⟩ | ⟨rfl, -⟩ | ⟨i, ok, c, rfl, hc, rfl⟩
  · exact h
  · cases ha
  · refine ⟨h.1, fun j hj => ?_⟩
    have hi : i < 2 := by simpa [firstTwo] using ha
    simp only [Function.update_of_ne (show j ≠ i by omega)]
    exact h.2 j hj

theorem missed_reaches {n : Nat} (hn : 2 ≤ n) :
    ∃ s, Reaches pubSystem (RunningWith n) s ∧ ¬ FanOut s := by
  obtain ⟨s, hs⟩ : ∃ s, exec pubSystem talker missedTrace = some s :=
    Option.isSome_iff_exists.mp (by decide)
  refine ⟨s, ?_, fun hfan => ?_⟩
  · refine Reaches.exec (P := TwoServed) (Q := fun a => firstTwo a = true) ?_ (.init talker_init)
      ⟨rfl, fun _ _ => rfl⟩ (by decide) hs
    intro s a t h ha hstep
    have ht := h.step ha hstep
    exact ⟨⟨ht.1, ht.liveAtMost hn⟩, ht⟩
  · have hview :
        (exec pubSystem talker missedTrace).map (fun s => (s.conn 1, s.dataOk, s.history)) =
        some (⟨.waitOk, 0, []⟩, false, [⟨some 0, some (str "hello")⟩]) := by decide
    simp only [hs, Option.map_some, Option.some.injEq, Prod.mk.injEq] at hview
    obtain ⟨hconn, hflag, hhist⟩ := hview
    have := hfan 1 ⟨some 0, some (str "hello")⟩ (by simp [hconn, PubPc.waiting]) (by simp [hhist])
      (by simp [hconn, hhist])
    simp [hconn, hflag] at this

/-- Fan-out loses no subscriber exactly when the publisher never serves more
than one connection at a time. -/
theorem fanOut_iff_sole (n : Nat) :
    (∀ s, Reaches pubSystem (RunningWith n) s → FanOut s) ↔ n ≤ 1 := by
  constructor
  · intro h
    by_contra hn
    obtain ⟨s, hs, hmissed⟩ := missed_reaches (n := n) (by omega)
    exact hmissed (h s hs)
  · intro hn s hs
    refine fanOut_of_sole (hs.mono fun _ _ t hok => ⟨hok.1, fun ids hnodup hlive => ?_⟩)
    exact (hok.2 ids hnodup hlive).trans hn

theorem fanOut_misses :
    ¬ ∀ s, Reaches pubSystem (fun _ _ t => t.rosOk = true) s → FanOut s := by
  intro h
  obtain ⟨s, hs, hmissed⟩ := missed_reaches (Nat.le_refl 2)
  exact hmissed (h s (hs.mono fun _ _ _ hok => hok.1))

end STRos
