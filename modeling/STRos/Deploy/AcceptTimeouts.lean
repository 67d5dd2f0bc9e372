import STRos.Model.AcceptLoops

/-! # How long the accept loops wait

The timeval of `select` is set once. It keeps its value as long as no call of `select`
sleeps; after one that did, every timeval that is passed is shorter than the connection
timeout, and after one that timed out it is zero.
-/

namespace STRos

open Transition

/-- Every timeval that was passed is the connection timeout. -/
def TimeoutInForce (s : AcceptState) : Prop := ∀ p ∈ s.passed, p.2 = connTimeout

/-- A `select` of this step returns without having slept. -/
def SleepsNot (s : AcceptState) (a : AcceptAct) (_ : AcceptState) : Prop :=
  ∀ outcome left, a = .select outcome left → left = s.timeout

/-! ## The timeval only gets shorter -/

/-- Nothing that was passed is shorter than what `timeout` holds now. -/
structure Shrinks (s : AcceptState) : Prop where
  bounded : s.timeout.micros ≤ connTimeout.micros
  passed : ∀ p ∈ s.passed, s.timeout.micros ≤ p.2.micros
  ordered : s.passed.Pairwise fun p q => p.2.micros ≤ q.2.micros

theorem Shrinks.give {s : AcceptState} (h : Shrinks s) (taker : Taker) (pc : AcceptPc) :
    Shrinks (s.give taker pc) where
  bounded := h.bounded
  passed := by
    intro p hp
    cases List.mem_cons.mp hp with
    | inl hfirst => rw [hfirst]; exact le_rfl
    | inr hrest => exact h.passed p hrest
  ordered := List.pairwise_cons.mpr ⟨h.passed, h.ordered⟩

theorem Shrinks.overwrite {s : AcceptState} (h : Shrinks s) {left : Timeval}
    (hleft : left.micros ≤ s.timeout.micros) : Shrinks { s with timeout := left } where
  bounded := hleft.trans h.bounded
  passed := fun p hp => hleft.trans (h.passed p hp)
  ordered := h.ordered

theorem Shrinks.step {loop : AcceptLoop} {s t : AcceptState} {a : AcceptAct} (h : Shrinks s)
    (hstep : acceptStep loop s a = some t) : Shrinks t := by
  rcases acceptStep_cases hstep with ⟨outcome, left, -, -, hleft, rfl⟩ | ⟨taker, pc, -, rfl⟩ |
    ⟨-, pc, rfl⟩
  · exact (h.give .select outcome.next).overwrite hleft.2.1
  · exact h.give taker pc
  · exact ⟨h.bounded, h.passed, h.ordered⟩

/-- In every run each timeval that is passed is at most as long as those before it, and none
is longer than the connection timeout. -/
theorem shrinks_of_reachable {loop : AcceptLoop} {s : AcceptState}
    (h : Reachable (acceptSystem loop) s) : Shrinks s := by
  apply Reaches.invariant _ (fun s a t hs hstep _ => hs.step hstep) h
  intro s hs
  rw [show s = ⟨.startup, connTimeout, []⟩ from hs]
  exact ⟨le_rfl, by simp, List.Pairwise.nil⟩

/-! ## Runs without sleep -/

structure FullTimeout (s : AcceptState) : Prop where
  now : s.timeout = connTimeout
  passed : TimeoutInForce s

theorem FullTimeout.give {s : AcceptState} (h : FullTimeout s) (taker : Taker) (pc : AcceptPc) :
    FullTimeout (s.give taker pc) where
  now := h.now
  passed := by
    intro p hp
    cases List.mem_cons.mp hp with
    | inl hfirst => rw [hfirst]; exact h.now
    | inr hrest => exact h.passed p hrest

theorem FullTimeout.step {loop : AcceptLoop} {s t : AcceptState} {a : AcceptAct}
    (h : FullTimeout s) (hstep : acceptStep loop s a = some t) (hsleep : SleepsNot s a t) :
    FullTimeout t := by
  rcases acceptStep_cases hstep with ⟨outcome, left, -, hselect, -, rfl⟩ | ⟨taker, pc, -, rfl⟩ |
    ⟨-, pc, rfl⟩
  · have hgiven := h.give .select outcome.next
    exact ⟨(hsleep outcome left hselect).trans h.now, hgiven.passed⟩
  · exact h.give taker pc
  · exact ⟨h.now, h.passed⟩

theorem fullTimeout_of_reaches {loop : AcceptLoop} {s : AcceptState}
    (h : Reaches (acceptSystem loop) SleepsNot s) : FullTimeout s := by
  apply Reaches.invariant _ (fun s a t hs hstep hok => hs.step hstep hok) h
  intro s hs
  rw [show s = ⟨.startup, connTimeout, []⟩ from hs]
  exact ⟨rfl, by simp [TimeoutInForce]⟩

/-- While no call of `select` sleeps, both loops keep the connection timeout in force. -/
theorem timeoutInForce_of_sleepsNot (s : AcceptState) :
    (Reaches (acceptSystem .xmlprcRun) SleepsNot s → TimeoutInForce s) ∧
      (Reaches (acceptSystem .publisherListener) SleepsNot s → TimeoutInForce s) := by
  constructor
  · intro h
    exact (fullTimeout_of_reaches h).passed
  · intro h
    exact (fullTimeout_of_reaches h).passed

def AcceptState.allowsAwake (s : AcceptState) : AcceptAct → Bool
  | .select _ left => left = s.timeout
  | _ => true

theorem sleepsNot_of_allows {s t : AcceptState} {a : AcceptAct} (h : s.allowsAwake a = true) :
    SleepsNot s a t := by
  intro outcome left ha
  rw [ha] at h
  exact of_decide_eq_true h

def beforeLoop : AcceptState := ⟨.startup, connTimeout, []⟩

def clientTrace (left : Timeval) : List AcceptAct :=
  [.startup 3 4000, .check true .active, .select .ready left, .accept 4, .call, .call, .call,
    .check true .active, .select .ready left]

theorem timeoutInForce_waiting :
    ∃ s, execAllowed (acceptSystem .xmlprcRun) AcceptState.allowsAwake beforeLoop
        (clientTrace connTimeout) = some s ∧
      execAllowed (acceptSystem .publisherListener) AcceptState.allowsAwake beforeLoop
        (clientTrace connTimeout) = some s ∧ s.passed.length = 4 ∧ TimeoutInForce s := by
  have hok : ∀ s a t, s.allowsAwake a = true → (acceptSystem .xmlprcRun).step s a = some t →
      SleepsNot s a t := fun _ _ _ h _ => sleepsNot_of_allows h
  have hrun : execAllowed (acceptSystem .xmlprcRun) AcceptState.allowsAwake beforeLoop
      (clientTrace connTimeout) = some ⟨.accept, connTimeout, [(.select, connTimeout),
        (.sndTimeo 4, connTimeout), (.rcvTimeo 4, connTimeout), (.select, connTimeout)]⟩ := by
    rfl
  exact ⟨_, hrun, rfl, rfl,
    (timeoutInForce_of_sleepsNot _).1 (Reaches.execAllowed hok (.init rfl) hrun)⟩

def idleTrace : List AcceptAct :=
  [.startup 3 4000, .check true .active, .select .idle ⟨0, 0⟩, .check true .active,
    .select .ready ⟨0, 0⟩, .accept 4, .call, .call]

/-- After an idle timeout both loops poll, and give a client no timeout at all. -/
theorem timeoutInForce_idle :
    (¬ ∀ s, Reachable (acceptSystem .xmlprcRun) s → TimeoutInForce s) ∧
      ¬ ∀ s, Reachable (acceptSystem .publisherListener) s → TimeoutInForce s := by
  have hrun : ∀ loop : AcceptLoop, loop.started 3 4000 = true → loop.goes true .active = true →
      exec (acceptSystem loop) beforeLoop idleTrace = some ⟨.create 4, ⟨0, 0⟩,
        [(.sndTimeo 4, ⟨0, 0⟩), (.rcvTimeo 4, ⟨0, 0⟩), (.select, ⟨0, 0⟩),
          (.select, connTimeout)]⟩ := by
    intro loop hstarted hgoes
    simp [exec, acceptSystem, idleTrace, acceptStep, beforeLoop, hstarted, hgoes,
      Selected.leaves, Selected.next, AcceptState.give, Timeval.micros]
  constructor
  · intro h
    have hall := h _ (Reachable.exec rfl (hrun .xmlprcRun rfl rfl))
    have hzero := hall (.rcvTimeo 4, ⟨0, 0⟩) (by simp)
    cases hzero
  · intro h
    have hall := h _ (Reachable.exec rfl (hrun .publisherListener rfl rfl))
    have hzero := hall (.rcvTimeo 4, ⟨0, 0⟩) (by simp)
    cases hzero

/-! ## After a sleep -/

theorem Selected.leaves_short {outcome : Selected} {left : Timeval}
    (h : outcome.leaves connTimeout left) (hne : left ≠ connTimeout) :
    left.micros < connTimeout.micros := by
  apply Nat.lt_of_le_of_ne h.2.1
  intro heq
  apply hne
  have husec := h.1
  simp only [Timeval.micros, connTimeout, connTimeOutS] at heq
  cases left with
  | mk sec usec =>
      simp only at heq husec
      have hsec : sec = 3 := by omega
      have hzero : usec = 0 := by omega
      rw [hsec, hzero]
      rfl

/-- Of a timeval that is too short the next one that is passed is not the connection
timeout. -/
theorem shortened_passes {loop : AcceptLoop} {s t : AcceptState} {a : AcceptAct}
    (hshort : s.timeout.micros < connTimeout.micros) (hstep : acceptStep loop s a = some t)
    (hpass : t.passed ≠ s.passed) : ¬ TimeoutInForce t := by
  have hgiven : ∀ taker pc, ¬ TimeoutInForce (s.give taker pc) := by
    intro taker pc h
    have hfull := h (taker, s.timeout) List.mem_cons_self
    rw [show s.timeout = connTimeout from hfull] at hshort
    exact lt_irrefl _ hshort
  rcases acceptStep_cases hstep with ⟨outcome, left, -, -, -, rfl⟩ | ⟨taker, pc, -, rfl⟩ |
    ⟨-, pc, rfl⟩
  · exact hgiven .select outcome.next
  · exact hgiven taker pc
  · exact absurd rfl hpass

theorem acceptStep_passed {loop : AcceptLoop} {s t : AcceptState} {a : AcceptAct}
    (h : acceptStep loop s a = some t) :
    s.passed <:+ t.passed ∧ t.timeout.micros ≤ s.timeout.micros := by
  rcases acceptStep_cases h with ⟨outcome, left, -, -, hleft, rfl⟩ | ⟨taker, pc, -, rfl⟩ |
    ⟨-, pc, rfl⟩
  · exact ⟨List.suffix_cons _ _, hleft.2.1⟩
  · exact ⟨List.suffix_cons _ _, le_rfl⟩
  · exact ⟨List.suffix_rfl, le_rfl⟩

theorem not_timeoutInForce_run {loop : AcceptLoop} {s u : AcceptState} {as : List AcceptAct}
    (h : ¬ TimeoutInForce s) (hrun : exec (acceptSystem loop) s as = some u) :
    ¬ TimeoutInForce u := by
  induction as generalizing s with
  | nil =>
      cases hrun
      exact h
  | cons a as ih =>
      obtain ⟨t, hstep, hrest⟩ := exec_cons hrun
      apply ih _ hrest
      intro hall
      exact h fun p hp => hall p ((acceptStep_passed hstep).1.subset hp)

/-- From a `select` that slept every run that passes one more timeval breaks the timeout:
but for the last one of a run, the condition on the steps is as weak as it can be. -/
theorem timeout_broken_of_sleep {loop : AcceptLoop} {s t u : AcceptState} {outcome : Selected}
    {left : Timeval} {as : List AcceptAct} (hs : s.timeout = connTimeout)
    (hstep : acceptStep loop s (.select outcome left) = some t) (hslept : left ≠ s.timeout)
    (hrun : exec (acceptSystem loop) t as = some u) (hpass : u.passed ≠ t.passed) :
    ¬ TimeoutInForce u := by
  have hshort : t.timeout.micros < connTimeout.micros := by
    rcases acceptStep_cases hstep with ⟨outcome', left', -, heq, hleft, rfl⟩ |
      ⟨taker, pc, hno, -⟩ | ⟨hno, -⟩
    · cases heq
      rw [hs] at hleft hslept
      exact Selected.leaves_short hleft hslept
    · exact absurd rfl (hno outcome left)
    · exact absurd rfl (hno outcome left)
  clear hstep hs hslept
  induction as generalizing t with
  | nil =>
      cases hrun
      exact absurd rfl hpass
  | cons a as ih =>
      obtain ⟨t', hstep, hrest⟩ := exec_cons hrun
      by_cases hsame : t'.passed = t.passed
      · have hle := (acceptStep_passed hstep).2
        exact ih hrest (by rwa [hsame]) (hle.trans_lt hshort)
      · exact not_timeoutInForce_run (shortened_passes hshort hstep hsame) hrest

end STRos
