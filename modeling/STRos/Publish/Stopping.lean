import STRos.Publish.Mutex

/-! # Stopping a node by a signal

The signal handler takes `node_mux` on the thread that was interrupted. When that thread
has the mutex it waits for itself: nobody gets the mutex again and the node never stops.
In every other case the thread that has the mutex can give it back.
-/

namespace STRos

open CString Transition Lock

structure Stuck (s : MuxState) (v : Thread) : Prop where
  mux : s.mux = some v
  handler : s.handler v = .lock

theorem Stuck.inside {s : MuxState} {v w : Thread} (h : Stuck s v) (hinv : LockInv s)
    (hw : s.Inside w) : w = v :=
  (Option.some.inj (h.mux.symm.trans ((hinv.guards w).mp hw))).symm

/-- Nobody else can do what the thread does not do. -/
theorem Stuck.step {s t : MuxState} {v : Thread} {a : MuxAct} (h : Stuck s v) (hinv : LockInv s)
    (hmove : MuxMove s a t) : Stuck t v ∧ t.rosOk = s.rosOk := by
  have hbody : ∀ w, s.handler w = .none → s.body w = true → False := by
    intro w hnone hin
    have hwv := h.inside hinv (Or.inl hin)
    rw [hwv, h.handler] at hnone
    cases hnone
  have hhandler : ∀ w, (s.handler w).inside = true → False := by
    intro w hin
    have hwv := h.inside hinv (Or.inr hin)
    rw [hwv, h.handler] at hin
    cases hin
  have hfree : s.mux ≠ none := by
    rw [h.mux]
    exact Option.some_ne_none v
  cases hmove with
  | call running hpc => exact ⟨⟨h.mux, h.handler⟩, rfl⟩
  | @interrupt w running =>
      have hwv : v ≠ w := by
        rintro rfl
        rw [h.handler] at running
        cases running
      exact ⟨⟨h.mux, by rw [handler_setHandler, if_neg hwv]; exact h.handler⟩, rfl⟩
  | callLock running hpc free => exact absurd free hfree
  | storeFlag running hpc => exact (hbody _ running (by rw [MuxState.body, hpc]; rfl)).elim
  | storeData running hpc => exact (hbody _ running (by rw [MuxState.body, hpc]; rfl)).elim
  | callUnlock running hpc => exact (hbody _ running (by rw [MuxState.body, hpc]; rfl)).elim
  | connLock running hpc free => exact absurd free hfree
  | clearFlag running hpc => exact (hbody _ running (by rw [MuxState.body, hpc]; rfl)).elim
  | connUnlock running hpc => exact (hbody _ running (by rw [MuxState.body, hpc]; rfl)).elim
  | run running hpc hne hstep => exact ⟨⟨h.mux, h.handler⟩, rfl⟩
  | handlerLock hpc free => exact absurd free hfree
  | handlerStore hpc => exact (hhandler _ (by rw [hpc]; rfl)).elim
  | handlerUnlock hpc => exact (hhandler _ (by rw [hpc]; rfl)).elim

theorem Stuck.run {s t : MuxState} {v : Thread} {as : List MuxAct} (h : Stuck s v)
    (hinv : LockInv s) (hrun : exec muxSystem s as = some t) :
    Stuck t v ∧ t.rosOk = s.rosOk := by
  induction as generalizing s with
  | nil =>
      cases hrun
      exact ⟨h, rfl⟩
  | cons a as ih =>
      obtain ⟨u, hstep, hrest⟩ := exec_cons hrun
      have hmove := muxStep_move hstep
      obtain ⟨hstuck, hros⟩ := h.step hinv hmove
      obtain ⟨hstuck', hros'⟩ := ih hstuck (hinv.step hmove) hrest
      exact ⟨hstuck', hros'.trans hros⟩

/-! ## Giving the mutex back -/

/-- What a thread's next statements reach. -/
def Reaching (s t : MuxState) : Prop := ∃ as, exec muxSystem s as = some t

theorem Reaching.refl (s : MuxState) : Reaching s s := ⟨[], rfl⟩

theorem Reaching.head {s t u : MuxState} {a : MuxAct} (hstep : muxStep s a = some t)
    (h : Reaching t u) : Reaching s u := by
  obtain ⟨as, hrun⟩ := h
  refine ⟨a :: as, ?_⟩
  simp only [exec, muxSystem, hstep]
  exact hrun

def Releases (s : MuxState) : Prop :=
  ∃ t, Reaching s t ∧ t.mux = none ∧ t.handler = s.handler

theorem Releases.head {s t : MuxState} {a : MuxAct} (hstep : muxStep s a = some t)
    (hhandler : t.handler = s.handler) (h : Releases t) : Releases s := by
  obtain ⟨u, hreach, hfree, hsame⟩ := h
  exact ⟨u, hreach.head hstep, hfree, hsame.trans hhandler⟩

theorem releases_of_free {s : MuxState} (h : s.mux = none) : Releases s :=
  ⟨s, .refl s, h, rfl⟩

section Release

variable {s : MuxState}

theorem callUnlock_releases {k : Nat} (running : s.handler (.caller k) = .none)
    (hpc : s.caller k = .unlock) : Releases s := by
  have hstep : muxStep s (.step (.caller k) true) =
      some ({ s with mux := none }.setCaller k .idle) := by
    simp [muxStep, callerStep, running, hpc]
  exact (releases_of_free (mux_setCaller _ k .idle)).head hstep rfl

theorem storeData_releases {k : Nat} {msg : Option Bytes}
    (running : s.handler (.caller k) = .none) (hpc : s.caller k = .storeData msg) :
    Releases s := by
  have hstep : muxStep s (.step (.caller k) true) =
      some ({ s with
        data := ⟨some s.history.length, msg⟩
        history := s.history ++ [(⟨some s.history.length, msg⟩ : Datum)] }.setCaller k
          .unlock) := by
    simp [muxStep, callerStep, running, hpc]
  refine Releases.head hstep rfl (callUnlock_releases (k := k) running ?_)
  rw [caller_setCaller, if_pos rfl]

theorem storeFlag_releases {k : Nat} {msg : Option Bytes}
    (running : s.handler (.caller k) = .none) (hpc : s.caller k = .storeFlag msg) :
    Releases s := by
  have hstep : muxStep s (.step (.caller k) true) =
      some ({ s with dataOk := true }.setCaller k (.storeData msg)) := by
    simp [muxStep, callerStep, running, hpc]
  have hnext : ({ s with dataOk := true }.setCaller k (.storeData msg)).caller k =
      .storeData msg := by rw [caller_setCaller, if_pos rfl]
  exact Releases.head hstep rfl (storeData_releases running hnext)

theorem connUnlock_releases {i : Nat} (running : s.handler (.conn i) = .none)
    (hpc : (s.conn i).pc = .unlock) : Releases s := by
  have hstep : muxStep s (.step (.conn i) true) =
      some ({ s with mux := none }.setConn i { s.conn i with pc := .run .nullCheck }) := by
    simp [muxStep, connStep, running, hpc]
  exact (releases_of_free (mux_setConn _ i _)).head hstep rfl

theorem clearFlag_releases {i : Nat} (running : s.handler (.conn i) = .none)
    (hpc : (s.conn i).pc = .clearFlag) : Releases s := by
  have hstep : muxStep s (.step (.conn i) true) =
      some ({ s with dataOk := false }.setConn i { s.conn i with pc := .unlock }) := by
    simp [muxStep, connStep, running, hpc]
  refine Releases.head hstep rfl (connUnlock_releases (i := i) running ?_)
  rw [conn_setConn, if_pos rfl]

/-- A thread that is not interrupted gives the mutex back. -/
theorem body_releases {v : Thread} (running : s.handler v = .none) (hin : s.body v = true) :
    Releases s := by
  cases v with
  | caller k =>
      simp only [MuxState.body] at hin
      cases hpc : s.caller k with
      | storeFlag msg => exact storeFlag_releases running hpc
      | storeData msg => exact storeData_releases running hpc
      | unlock => exact callUnlock_releases running hpc
      | idle =>
          rw [hpc] at hin
          cases hin
      | lock msg =>
          rw [hpc] at hin
          cases hin
  | conn i =>
      simp only [MuxState.body] at hin
      cases hpc : (s.conn i).pc with
      | clearFlag => exact clearFlag_releases running hpc
      | unlock => exact connUnlock_releases running hpc
      | run pc =>
          rw [hpc] at hin
          cases hin

end Release

/-! ## The node stops -/

def CanStop (s : MuxState) : Prop := ∃ as t, exec muxSystem s as = some t ∧ t.rosOk = false

theorem CanStop.head {s t : MuxState} {a : MuxAct} (hstep : muxStep s a = some t)
    (h : CanStop t) : CanStop s := by
  obtain ⟨as, u, hrun, hros⟩ := h
  obtain ⟨bs, hrun⟩ := Reaching.head hstep ⟨as, hrun⟩
  exact ⟨bs, u, hrun, hros⟩

theorem CanStop.after {s t : MuxState} (h : Reaching s t) (ht : CanStop t) : CanStop s := by
  obtain ⟨as, hrun⟩ := h
  induction as generalizing s with
  | nil =>
      cases hrun
      exact ht
  | cons a as ih =>
      obtain ⟨u, hstep, hrest⟩ := exec_cons hrun
      exact (ih hrest).head hstep

theorem handlerStore_canStop {s : MuxState} {w : Thread} (hw : s.handler w = .store) :
    CanStop s := by
  refine ⟨[.step w true], { s with rosOk := false }.setHandler w .unlock, ?_, rfl⟩
  simp [exec, muxSystem, muxStep, handlerStep, hw]

theorem free_canStop {s : MuxState} {w : Thread} (hw : s.handler w = .lock) (hfree : s.mux = none) :
    CanStop s := by
  have hstep : muxStep s (.step w true) = some ({ s with mux := some w }.setHandler w .store) := by
    simp [muxStep, handlerStep, MuxState.lock, hw, hfree]
  refine CanStop.head hstep (handlerStore_canStop (w := w) ?_)
  rw [handler_setHandler, if_pos rfl]

theorem handlerUnlock_canStop {s : MuxState} {v w : Thread} (hv : s.handler v = .unlock)
    (hw : s.handler w = .lock) : CanStop s := by
  have hwv : w ≠ v := by
    rintro rfl
    rw [hv] at hw
    cases hw
  have hstep : muxStep s (.step v true) =
      some ({ s with mux := none }.setHandler v .exited) := by
    simp [muxStep, handlerStep, hv]
  refine CanStop.head hstep (free_canStop (w := w) ?_ rfl)
  rw [handler_setHandler, if_neg hwv]
  exact hw

theorem LockInv.canStop {s : MuxState} (h : LockInv s) {w : Thread} (hw : s.handler w = .lock)
    (hstuck : ∀ v, s.mux = some v → s.handler v ≠ .lock) : CanStop s := by
  cases hmux : s.mux with
  | none => exact free_canStop hw hmux
  | some v =>
      have hnot := hstuck v hmux
      cases hv : s.handler v with
      | lock => exact absurd hv hnot
      | store => exact handlerStore_canStop hv
      | unlock => exact handlerUnlock_canStop hv hw
      | none =>
          have hin : s.body v = true := by
            have hinside := (h.guards v).mpr hmux
            rw [MuxState.Inside, hv] at hinside
            exact hinside.resolve_right (by simp [HandlerPc.inside])
          obtain ⟨t, hreach, hfree, hsame⟩ := body_releases hv hin
          exact CanStop.after hreach (free_canStop (hsame ▸ hw) hfree)
      | exited =>
          have hout : s.body v = false := h.apart v (by rw [hv]; rfl)
          have hinside := (h.guards v).mpr hmux
          rw [MuxState.Inside, hv, hout] at hinside
          simp [HandlerPc.inside] at hinside

/-- The handler stops the node unless it interrupted the thread that has the mutex; and then
that thread has the mutex ever after, and the node runs on. -/
theorem stop_iff_not_stuck {s : MuxState} (h : Reachable muxSystem s) {w : Thread}
    (hw : s.handler w = .lock) (hros : s.rosOk = true) :
    ((∃ as t, exec muxSystem s as = some t ∧ t.rosOk = false) ↔
        ∀ v, s.mux = some v → s.handler v ≠ .lock) ∧
      ∀ v, s.mux = some v → s.handler v = .lock →
        ∀ as t, exec muxSystem s as = some t → t.mux = some v ∧ t.rosOk = true := by
  have hinv := lockInv h
  have hforever : ∀ v, s.mux = some v → s.handler v = .lock →
      ∀ as t, exec muxSystem s as = some t → t.mux = some v ∧ t.rosOk = true := by
    intro v hmux hlock as t hrun
    obtain ⟨hstuck, hsame⟩ := Stuck.run ⟨hmux, hlock⟩ hinv hrun
    exact ⟨hstuck.mux, hsame.trans hros⟩
  refine ⟨⟨?_, hinv.canStop hw⟩, hforever⟩
  rintro ⟨as, t, hrun, hstopped⟩ v hmux hlock
  have hruns := (hforever v hmux hlock as t hrun).2
  rw [hstopped] at hruns
  cases hruns

/-- The signal comes when the thread that publishes has just taken the mutex. -/
def interruptedCall : List MuxAct :=
  [.call 0 (some (str "hi")), .step (.caller 0) true, .interrupt (.caller 0)]

theorem stop_iff_not_stuck_publishing :
    ∃ s, exec muxSystem muxStart interruptedCall = some s ∧
      ¬ ∃ as t, exec muxSystem s as = some t ∧ t.rosOk = false := by
  have hrun : ∃ s, exec muxSystem muxStart interruptedCall = some s ∧
      s.handler (.caller 0) = .lock ∧ s.rosOk = true ∧ s.mux = some (.caller 0) :=
    ⟨_, rfl, rfl, rfl, rfl⟩
  obtain ⟨s, hexec, hlock, hros, hmux⟩ := hrun
  have hiff := (stop_iff_not_stuck (Reachable.exec muxStart_init hexec) hlock hros).1
  exact ⟨s, hexec, fun hstop => hiff.mp hstop _ hmux hlock⟩

end STRos
