import STRos.Publish.Stopping

/-! # After the node was stopped

Once `ros_ok` is false it stays so, and the threads of `publish_tcp_data` run out: each has a
number of statements left, which nobody else can raise, and at most one message. What can hold
a thread up is the lock, while the mutex is taken.
-/

namespace STRos

open CString Transition Lock

/-- The statements that are left to a thread once the node was stopped; from `reset` on they
are the three of the section, and then those behind it. -/
def PubPc.stepsLeft : PubPc → Nat
  | .handshake => 11
  | .loopStatus _ => 11
  | .waitOk => 10
  | .waitStatus => 9
  | .waitRos => 8
  | .reset => 7
  | .nullCheck => 4
  | .read => 3
  | .send _ => 2
  | .loopRos _ => 1
  | .exited => 0

def MuxPc.stepsLeft : MuxPc → Nat
  | .run pc => pc.stepsLeft
  | .clearFlag => 6
  | .unlock => 5

/-- A handler that was not called yet may be. -/
def HandlerPc.stepsLeft : HandlerPc → Nat
  | .none => 3
  | .lock => 3
  | .store => 2
  | .unlock => 1
  | .exited => 0

/-- The messages that are left to it: the wait loop is left for the stop, but its end is not
told from that for a message. -/
def PubPc.sendsLeft : PubPc → Nat
  | .loopRos _ => 0
  | .exited => 0
  | _ => 1

def MuxPc.sendsLeft : MuxPc → Nat
  | .run pc => pc.sendsLeft
  | _ => 1

theorem publishTcpData_runsOut {s : PubState} {c c' : Conn} {ok : Bool} (hstopped : s.rosOk = false)
    (h : publishTcpData s c ok = some c') :
    c'.pc.stepsLeft < c.pc.stepsLeft ∧
      c'.sent.length + c'.pc.sendsLeft ≤ c.sent.length + c.pc.sendsLeft := by
  unfold publishTcpData at h
  cases hpc : c.pc with
  | handshake =>
      simp only [hpc] at h
      split at h <;> cases h <;> simp [PubPc.stepsLeft, PubPc.sendsLeft]
  | waitOk =>
      simp only [hpc] at h
      cases h
      split <;> simp [PubPc.stepsLeft, PubPc.sendsLeft]
  | waitStatus =>
      simp only [hpc] at h
      cases h
      split <;> simp [PubPc.stepsLeft, PubPc.sendsLeft]
  | waitRos =>
      simp only [hpc, hstopped] at h
      cases h
      simp [PubPc.stepsLeft, PubPc.sendsLeft]
  | reset =>
      simp only [hpc] at h
      cases h
      simp [PubPc.stepsLeft, PubPc.sendsLeft]
  | nullCheck =>
      simp only [hpc] at h
      split at h <;> cases h <;> simp [PubPc.stepsLeft, PubPc.sendsLeft]
  | read =>
      simp only [hpc] at h
      split at h <;> cases h
      simp [PubPc.stepsLeft, PubPc.sendsLeft]
  | send d =>
      simp only [hpc] at h
      split at h <;> cases h <;> simp [PubPc.stepsLeft, PubPc.sendsLeft]
  | loopRos io =>
      simp only [hpc, hstopped] at h
      cases h
      simp [PubPc.stepsLeft, PubPc.sendsLeft]
  | loopStatus io =>
      simp only [hpc] at h
      cases h
      split <;> simp [PubPc.stepsLeft, PubPc.sendsLeft]
  | exited => simp [hpc] at h

def stepsOf (w : Thread) (as : List MuxAct) : Nat :=
  as.countP fun a => match a with
    | .step v _ => v = w
    | _ => false

theorem stepsOf_cons (w : Thread) (a : MuxAct) (as : List MuxAct) :
    stepsOf w (a :: as) = stepsOf w [a] + stepsOf w as := by
  simp only [stepsOf, List.countP_cons, List.countP_nil]
  omega

@[simp] theorem stepsOf_self (w : Thread) (ok : Bool) : stepsOf w [.step w ok] = 1 := by
  simp [stepsOf]

theorem stepsOf_other {v w : Thread} (h : v ≠ w) (ok : Bool) : stepsOf w [.step v ok] = 0 := by
  simp [stepsOf, h]

section RunsOut

variable (s : MuxState) (i : Nat)

def MuxState.stepsLeft : Nat := (s.conn i).pc.stepsLeft + (s.handler (.conn i)).stepsLeft

/-- The messages that were transmitted on a connection or may still be. -/
def MuxState.sends : Nat := (s.conn i).sent.length + (s.conn i).pc.sendsLeft

theorem MuxState.stepsLeft_le : s.stepsLeft i ≤ 14 := by
  have hbody : (s.conn i).pc.stepsLeft ≤ 11 := by
    cases (s.conn i).pc with
    | run pc => cases pc <;> simp [MuxPc.stepsLeft, PubPc.stepsLeft]
    | clearFlag => simp [MuxPc.stepsLeft]
    | unlock => simp [MuxPc.stepsLeft]
  have hhandler : (s.handler (.conn i)).stepsLeft ≤ 3 := by
    cases s.handler (.conn i) <;> simp [HandlerPc.stepsLeft]
  rw [MuxState.stepsLeft]
  omega

theorem MuxState.sends_le : s.sends i ≤ (s.conn i).sent.length + 1 := by
  have hsends : (s.conn i).pc.sendsLeft ≤ 1 := by
    cases (s.conn i).pc with
    | run pc => cases pc <;> simp [MuxPc.sendsLeft, PubPc.sendsLeft]
    | clearFlag => simp [MuxPc.sendsLeft]
    | unlock => simp [MuxPc.sendsLeft]
  rw [MuxState.sends]
  omega

variable {s i} {t : MuxState}

def TakesFrom (s t : MuxState) (n i : Nat) : Prop :=
  n + t.stepsLeft i ≤ s.stepsLeft i ∧ t.sends i ≤ s.sends i

theorem takes_other (hconn : t.conn i = s.conn i)
    (hhandler : t.handler (.conn i) = s.handler (.conn i)) : TakesFrom s t 0 i := by
  simp [TakesFrom, MuxState.stepsLeft, MuxState.sends, hconn, hhandler]

/-- A step of the thread of a connection, seen from any of them. -/
theorem takes_conn {j : Nat} {ok : Bool} {u : MuxState} {c : MuxConn} (hconn : u.conn = s.conn)
    (hhandler : u.handler = s.handler) (hsteps : c.pc.stepsLeft < (s.conn j).pc.stepsLeft)
    (hsends : c.sent.length + c.pc.sendsLeft ≤ (s.conn j).sent.length + (s.conn j).pc.sendsLeft) :
    TakesFrom s (u.setConn j c) (stepsOf (.conn i) [.step (.conn j) ok]) i := by
  by_cases hij : i = j
  · subst hij
    have hself : (u.setConn i c).conn i = c := by rw [conn_setConn, if_pos rfl]
    rw [stepsOf_self, TakesFrom, MuxState.stepsLeft, MuxState.stepsLeft, MuxState.sends,
      MuxState.sends, hself, handler_setConn, hhandler]
    exact ⟨by omega, hsends⟩
  · rw [stepsOf_other fun h => hij (Thread.conn.inj h).symm]
    refine takes_other ?_ (by rw [handler_setConn, hhandler])
    rw [conn_setConn, if_neg hij, hconn]

theorem takes_handler {w : Thread} {ok : Bool} {u : MuxState} {pc : HandlerPc}
    (hconn : u.conn = s.conn) (hhandler : u.handler = s.handler)
    (hsteps : pc.stepsLeft < (s.handler w).stepsLeft) :
    TakesFrom s (u.setHandler w pc) (stepsOf (.conn i) [.step w ok]) i := by
  have hsame : (u.setHandler w pc).conn i = s.conn i := congrFun hconn i
  by_cases hw : .conn i = w
  · subst hw
    rw [stepsOf_self, TakesFrom, MuxState.stepsLeft, MuxState.stepsLeft, MuxState.sends,
      MuxState.sends, hsame, handler_setHandler, if_pos rfl]
    exact ⟨by omega, le_rfl⟩
  · rw [stepsOf_other (Ne.symm hw)]
    exact takes_other hsame (by rw [handler_setHandler, if_neg hw, hhandler])

theorem MuxMove.takesFrom {a : MuxAct} (h : MuxMove s a t) (hstopped : s.rosOk = false) :
    t.rosOk = false ∧ TakesFrom s t (stepsOf (.conn i) [a]) i := by
  cases h with
  | call running hpc => exact ⟨hstopped, takes_other rfl rfl⟩
  | @interrupt w running =>
      refine ⟨hstopped, ?_⟩
      by_cases hw : .conn i = w
      · subst hw
        simp [TakesFrom, MuxState.stepsLeft, MuxState.sends, HandlerPc.stepsLeft, running, stepsOf,
          MuxState.setHandler]
      · exact takes_other rfl (by rw [handler_setHandler, if_neg hw])
  | callLock running hpc free =>
      rw [stepsOf_other Thread.noConfusion]
      exact ⟨hstopped, takes_other rfl rfl⟩
  | storeFlag running hpc =>
      rw [stepsOf_other Thread.noConfusion]
      exact ⟨hstopped, takes_other rfl rfl⟩
  | storeData running hpc =>
      rw [stepsOf_other Thread.noConfusion]
      exact ⟨hstopped, takes_other rfl rfl⟩
  | callUnlock running hpc =>
      rw [stepsOf_other Thread.noConfusion]
      exact ⟨hstopped, takes_other rfl rfl⟩
  | connLock running hpc free =>
      refine ⟨hstopped, takes_conn rfl rfl ?_ ?_⟩ <;>
        simp [hpc, MuxPc.stepsLeft, PubPc.stepsLeft, MuxPc.sendsLeft, PubPc.sendsLeft]
  | clearFlag running hpc =>
      refine ⟨hstopped, takes_conn rfl rfl ?_ ?_⟩ <;>
        simp [hpc, MuxPc.stepsLeft, MuxPc.sendsLeft]
  | connUnlock running hpc =>
      refine ⟨hstopped, takes_conn rfl rfl ?_ ?_⟩ <;>
        simp [hpc, MuxPc.stepsLeft, PubPc.stepsLeft, MuxPc.sendsLeft, PubPc.sendsLeft]
  | @run j ok pc c running hpc hne hstep =>
      obtain ⟨hsteps, hsends⟩ := publishTcpData_runsOut hstopped hstep
      refine ⟨hstopped, takes_conn rfl rfl ?_ ?_⟩
      · rw [hpc]
        exact hsteps
      · rw [hpc]
        exact hsends
  | handlerLock hpc free =>
      exact ⟨hstopped, takes_handler rfl rfl (by rw [hpc]; decide)⟩
  | handlerStore hpc => exact ⟨rfl, takes_handler rfl rfl (by rw [hpc]; decide)⟩
  | handlerUnlock hpc => exact ⟨hstopped, takes_handler rfl rfl (by rw [hpc]; decide)⟩

theorem exec_takes {as : List MuxAct} (hstopped : s.rosOk = false)
    (h : exec muxSystem s as = some t) : TakesFrom s t (stepsOf (.conn i) as) i := by
  induction as generalizing s with
  | nil =>
      cases h
      exact takes_other rfl rfl
  | cons a as ih =>
      obtain ⟨u, hstep, hrest⟩ := exec_cons h
      obtain ⟨hstopped', hsteps, hsends⟩ := (muxStep_move hstep).takesFrom (i := i) hstopped
      obtain ⟨hsteps', hsends'⟩ := ih hstopped' hrest
      rw [stepsOf_cons]
      exact ⟨by omega, hsends'.trans hsends⟩

end RunsOut

/-! ## What holds a thread up -/

/-- A thread that has not returned can go on, unless it is at `strlen (NULL)`. -/
theorem publishTcpData_goesOn (s : PubState) (c : Conn) (ok : Bool) :
    c.pc = .exited ∨ (c.pc = .read ∧ s.data.text = none) ∨
      ∃ c', publishTcpData s c ok = some c' := by
  unfold publishTcpData
  cases hpc : c.pc with
  | handshake => cases ok <;> simp
  | read => by_cases hnull : s.data.text = none <;> simp [hnull]
  | nullCheck =>
      simp only [reduceCtorEq, false_and, false_or]
      split <;> exact ⟨_, rfl⟩
  | send d => cases ok <;> simp
  | _ => simp

/-- The thread is at `pthread_mutex_lock`, in its own code or in the handler. -/
def MuxState.AtLock (s : MuxState) (i : Nat) : Prop :=
  s.handler (.conn i) = .lock ∨ s.handler (.conn i) = .none ∧ (s.conn i).pc = .run .reset

def MuxState.Over (s : MuxState) (i : Nat) : Prop :=
  s.handler (.conn i) = .exited ∨ s.handler (.conn i) = .none ∧ (s.conn i).pc = .run .exited

def MuxState.AtNull (s : MuxState) (i : Nat) : Prop :=
  s.handler (.conn i) = .none ∧ (s.conn i).pc = .run .read ∧ s.data.text = none

theorem handlerStep_goesOn {s : MuxState} {w : Thread} (hw : s.handler w ≠ .none) :
    s.handler w = .exited ∨ (s.handler w = .lock ∧ s.mux ≠ none) ∨
      ∃ t, handlerStep s w = some t := by
  unfold handlerStep
  cases hpc : s.handler w with
  | none => exact absurd hpc hw
  | lock => by_cases hfree : s.mux = none <;> simp [MuxState.lock, hfree]
  | store => simp
  | unlock => simp
  | exited => simp

theorem connStep_goesOn (s : MuxState) (i : Nat) (ok : Bool) :
    (s.conn i).pc = .run .exited ∨ ((s.conn i).pc = .run .read ∧ s.data.text = none) ∨
      ((s.conn i).pc = .run .reset ∧ s.mux ≠ none) ∨ ∃ t, connStep s i ok = some t := by
  unfold connStep
  cases hpc : (s.conn i).pc with
  | clearFlag => simp
  | unlock => simp
  | run pc =>
      by_cases hreset : pc = .reset
      · subst hreset
        by_cases hfree : s.mux = none <;> simp [MuxState.lock, hfree]
      · obtain hexited | hnull | ⟨c, hc⟩ :=
          publishTcpData_goesOn s.shared ⟨pc, (s.conn i).since, (s.conn i).sent⟩ ok
        · exact Or.inl (congrArg MuxPc.run hexited)
        · exact Or.inr (Or.inl ⟨congrArg MuxPc.run hnull.1, hnull.2⟩)
        · simp [hreset, hc]

/-- The thread that has the mutex can give it back, unless the handler runs on it and is at the
lock. -/
theorem LockInv.givesBack {s : MuxState} (h : LockInv s) {v : Thread} (hmux : s.mux = some v) :
    s.handler v = .lock ∨ ∃ t, Reaching s t ∧ t.mux = none := by
  have hinside := (h.guards v).mpr hmux
  have hunlock : ∀ u : MuxState, u.handler v = .unlock → ∃ t, Reaching u t ∧ t.mux = none := by
    intro u hu
    have hstep : muxStep u (.step v true) = some ({ u with mux := none }.setHandler v .exited) := by
      simp [muxStep, STRos.handlerStep, hu]
    exact ⟨_, (Reaching.refl _).head hstep, rfl⟩
  cases hv : s.handler v with
  | lock => exact Or.inl rfl
  | none =>
      right
      rw [MuxState.Inside, hv] at hinside
      obtain ⟨t, hreach, hfree, -⟩ :=
        body_releases hv (hinside.resolve_right (by simp [HandlerPc.inside]))
      exact ⟨t, hreach, hfree⟩
  | store =>
      right
      have hstep : muxStep s (.step v true) =
          some ({ s with rosOk := false }.setHandler v .unlock) := by
        simp [muxStep, STRos.handlerStep, hv]
      have hnext : ({ s with rosOk := false }.setHandler v .unlock).handler v = .unlock := by
        rw [handler_setHandler, if_pos rfl]
      obtain ⟨t, hreach, hfree⟩ := hunlock _ hnext
      exact ⟨t, hreach.head hstep, hfree⟩
  | unlock => exact Or.inr (hunlock s hv)
  | exited =>
      have hout : s.body v = false := h.apart v (by rw [hv]; rfl)
      rw [MuxState.Inside, hv, hout] at hinside
      simp [HandlerPc.inside] at hinside

/-- Once the node was stopped, whatever is published, signalled and in whichever order the
threads go on, each thread of `publish_tcp_data` makes at most fourteen more steps, those of the
handler on it included, and transmits at most one more message. Until it is over it can make its
next step, unless it would read a NULL text or waits for the mutex; the thread that has the mutex
then can give it back, unless it waits for it in the handler. -/
theorem shutdown_bounded {s t : MuxState} {as : List MuxAct} (hreach : Reachable muxSystem s)
    (hstopped : s.rosOk = false) (h : exec muxSystem s as = some t) (i : Nat) :
    stepsOf (.conn i) as ≤ 14 ∧ (t.conn i).sent.length ≤ (s.conn i).sent.length + 1 ∧
      (t.Over i ∨ t.AtNull i ∨
        (t.AtLock i ∧ ∃ v, t.mux = some v ∧
          (t.handler v = .lock ∨ ∃ u, Reaching t u ∧ u.mux = none)) ∨
        ∀ ok, ∃ u, muxStep t (.step (.conn i) ok) = some u) := by
  obtain ⟨hsteps, hsends⟩ := exec_takes (i := i) hstopped h
  have hsent : (t.conn i).sent.length ≤ t.sends i := Nat.le_add_right _ _
  refine ⟨(Nat.le_add_right _ _).trans (hsteps.trans (s.stepsLeft_le i)),
    hsent.trans (hsends.trans (s.sends_le i)), ?_⟩
  have hinv : LockInv t := lockInv (hreach.run h)
  have hwaits : t.mux ≠ none → ∃ v, t.mux = some v ∧
      (t.handler v = .lock ∨ ∃ u, Reaching t u ∧ u.mux = none) := by
    intro htaken
    obtain ⟨v, hv⟩ := Option.ne_none_iff_exists'.mp htaken
    exact ⟨v, hv, hinv.givesBack hv⟩
  by_cases hhandler : t.handler (.conn i) = .none
  · by_cases hexited : (t.conn i).pc = .run .exited
    · exact Or.inl (Or.inr ⟨hhandler, hexited⟩)
    by_cases hnull : (t.conn i).pc = .run .read ∧ t.data.text = none
    · exact Or.inr (Or.inl ⟨hhandler, hnull⟩)
    by_cases hlock : (t.conn i).pc = .run .reset ∧ t.mux ≠ none
    · exact Or.inr (Or.inr (Or.inl ⟨Or.inr ⟨hhandler, hlock.1⟩, hwaits hlock.2⟩))
    refine Or.inr (Or.inr (Or.inr fun ok => ?_))
    have hstep := ((connStep_goesOn t i ok).resolve_left hexited).resolve_left hnull
    rw [muxStep, if_pos hhandler]
    exact hstep.resolve_left hlock
  · obtain hexited | hlock | hstep := handlerStep_goesOn hhandler
    · exact Or.inl (Or.inl hexited)
    · exact Or.inr (Or.inr (Or.inl ⟨Or.inl hlock.1, hwaits hlock.2⟩))
    · refine Or.inr (Or.inr (Or.inr fun ok => ?_))
      rw [muxStep, if_neg hhandler]
      exact hstep

/-- The handler stops the node on the thread that publishes, while a connection waits. -/
def stopWhileWaiting : List MuxAct :=
  [.step (.conn 0) true, .interrupt (.caller 0), .step (.caller 0) true, .step (.caller 0) true,
    .step (.caller 0) true]

/-- A connection that was waiting when the node was stopped sends the placeholder. -/
theorem shutdown_bounded_waiting :
    ∃ s t, exec muxSystem muxStart stopWhileWaiting = some s ∧ (s.conn 0).sent = [] ∧
      exec muxSystem s (List.replicate 10 (.step (.conn 0) true)) = some t ∧
      (t.conn 0).sent = [placeholder] ∧ (t.conn 0).sent.length ≤ (s.conn 0).sent.length + 1 := by
  have hrun : ∃ s, exec muxSystem muxStart stopWhileWaiting = some s ∧ s.rosOk = false ∧
      (s.conn 0).sent = [] ∧
      ∃ t, exec muxSystem s (List.replicate 10 (.step (.conn 0) true)) = some t ∧
        (t.conn 0).sent = [placeholder] := ⟨_, rfl, rfl, by decide, _, rfl, by decide⟩
  obtain ⟨s, hs, hstopped, hnone, t, ht, hsent⟩ := hrun
  have hbounded := shutdown_bounded (Reachable.exec muxStart_init hs) hstopped ht 0
  exact ⟨s, t, hs, hnone, ht, hsent, hbounded.2.1⟩

end STRos
