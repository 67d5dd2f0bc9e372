import STRos.Model.Mutex
import STRos.Lib.Lock

/-! # What node_mux protects

The threads inside of a section of `node_mux` are those that have it. A run of the
statements is a run in which the sections are single steps: a thread that reads the flag
while a call of `publish` is between its two stores reads it behind the call.
-/

namespace STRos

open CString Transition Lock

/-! ## What a statement does -/

/-- Everything a step can do, by its label. -/
inductive MuxMove (s : MuxState) : MuxAct → MuxState → Prop
  | call {k : Nat} {msg : Option Bytes} (running : s.handler (.caller k) = .none)
      (hpc : s.caller k = .idle) :
      MuxMove s (.call k msg) (s.setCaller k (.lock msg))
  | interrupt {w : Thread} (running : s.handler w = .none) :
      MuxMove s (.interrupt w) (s.setHandler w .lock)
  | callLock {k : Nat} {ok : Bool} {msg : Option Bytes} (running : s.handler (.caller k) = .none)
      (hpc : s.caller k = .lock msg) (free : s.mux = none) :
      MuxMove s (.step (.caller k) ok)
        ({ s with mux := some (.caller k) }.setCaller k (.storeFlag msg))
  | storeFlag {k : Nat} {ok : Bool} {msg : Option Bytes} (running : s.handler (.caller k) = .none)
      (hpc : s.caller k = .storeFlag msg) :
      MuxMove s (.step (.caller k) ok) ({ s with dataOk := true }.setCaller k (.storeData msg))
  | storeData {k : Nat} {ok : Bool} {msg : Option Bytes} (running : s.handler (.caller k) = .none)
      (hpc : s.caller k = .storeData msg) :
      MuxMove s (.step (.caller k) ok)
        ({ s with
          data := ⟨some s.history.length, msg⟩
          history := s.history ++ [(⟨some s.history.length, msg⟩ : Datum)] }.setCaller k .unlock)
  | callUnlock {k : Nat} {ok : Bool} (running : s.handler (.caller k) = .none)
      (hpc : s.caller k = .unlock) :
      MuxMove s (.step (.caller k) ok) ({ s with mux := none }.setCaller k .idle)
  | connLock {i : Nat} {ok : Bool} (running : s.handler (.conn i) = .none)
      (hpc : (s.conn i).pc = .run .reset) (free : s.mux = none) :
      MuxMove s (.step (.conn i) ok)
        ({ s with mux := some (.conn i) }.setConn i { s.conn i with pc := .clearFlag })
  | clearFlag {i : Nat} {ok : Bool} (running : s.handler (.conn i) = .none)
      (hpc : (s.conn i).pc = .clearFlag) :
      MuxMove s (.step (.conn i) ok)
        ({ s with dataOk := false }.setConn i { s.conn i with pc := .unlock })
  | connUnlock {i : Nat} {ok : Bool} (running : s.handler (.conn i) = .none)
      (hpc : (s.conn i).pc = .unlock) :
      MuxMove s (.step (.conn i) ok)
        ({ s with mux := none }.setConn i { s.conn i with pc := .run .nullCheck })
  | run {i : Nat} {ok : Bool} {pc : PubPc} {c : Conn} (running : s.handler (.conn i) = .none)
      (hpc : (s.conn i).pc = .run pc) (hne : pc ≠ .reset)
      (hstep : publishTcpData s.shared ⟨pc, (s.conn i).since, (s.conn i).sent⟩ ok = some c) :
      MuxMove s (.step (.conn i) ok) (s.setConn i ⟨.run c.pc, c.since, c.sent⟩)
  | handlerLock {w : Thread} {ok : Bool} (hpc : s.handler w = .lock) (free : s.mux = none) :
      MuxMove s (.step w ok) ({ s with mux := some w }.setHandler w .store)
  | handlerStore {w : Thread} {ok : Bool} (hpc : s.handler w = .store) :
      MuxMove s (.step w ok) ({ s with rosOk := false }.setHandler w .unlock)
  | handlerUnlock {w : Thread} {ok : Bool} (hpc : s.handler w = .unlock) :
      MuxMove s (.step w ok) ({ s with mux := none }.setHandler w .exited)

theorem lock_eq_some {s t : MuxState} {w : Thread} (h : s.lock w = some t) :
    s.mux = none ∧ t = { s with mux := some w } := by
  unfold MuxState.lock at h
  split at h
  · exact ⟨‹_›, (Option.some.inj h).symm⟩
  · cases h

theorem callerStep_move {s t : MuxState} {k : Nat} {ok : Bool}
    (running : s.handler (.caller k) = .none) (h : callerStep s k = some t) :
    MuxMove s (.step (.caller k) ok) t := by
  unfold callerStep at h
  split at h
  · cases h
  · obtain ⟨u, hlock, rfl⟩ := Option.map_eq_some_iff.mp h
    obtain ⟨free, rfl⟩ := lock_eq_some hlock
    exact .callLock running ‹_› free
  · cases h
    exact .storeFlag running ‹_›
  · cases h
    exact .storeData running ‹_›
  · cases h
    exact .callUnlock running ‹_›

theorem connStep_move {s t : MuxState} {i : Nat} {ok : Bool}
    (running : s.handler (.conn i) = .none) (h : connStep s i ok = some t) :
    MuxMove s (.step (.conn i) ok) t := by
  unfold connStep at h
  split at h
  · obtain ⟨u, hlock, rfl⟩ := Option.map_eq_some_iff.mp h
    obtain ⟨free, rfl⟩ := lock_eq_some hlock
    exact .connLock running ‹_› free
  · cases h
    exact .clearFlag running ‹_›
  · cases h
    exact .connUnlock running ‹_›
  · rename_i pc hne hpc
    obtain ⟨c, hstep, rfl⟩ := Option.map_eq_some_iff.mp h
    exact .run running hpc (fun heq => hne heq) hstep

theorem handlerStep_move {s t : MuxState} {w : Thread} {ok : Bool} (h : handlerStep s w = some t) :
    MuxMove s (.step w ok) t := by
  unfold handlerStep at h
  split at h
  · cases h
  · obtain ⟨u, hlock, rfl⟩ := Option.map_eq_some_iff.mp h
    obtain ⟨free, rfl⟩ := lock_eq_some hlock
    exact .handlerLock ‹_› free
  · cases h
    exact .handlerStore ‹_›
  · cases h
    exact .handlerUnlock ‹_›
  · cases h

theorem muxStep_move {s t : MuxState} {a : MuxAct} (h : muxStep s a = some t) : MuxMove s a t := by
  cases a with
  | call k msg =>
      simp only [muxStep] at h
      split at h
      · rename_i hidle
        cases h
        exact .call hidle.2 hidle.1
      · cases h
  | interrupt w =>
      simp only [muxStep] at h
      split at h
      · cases h
        exact .interrupt ‹_›
      · cases h
  | step w ok =>
      simp only [muxStep] at h
      split at h
      · cases w with
        | caller k => exact callerStep_move ‹_› h
        | conn i => exact connStep_move ‹_› h
      · exact handlerStep_move h

/-! ## Who has the mutex -/

def CallPc.inside : CallPc → Bool
  | storeFlag _ => true
  | storeData _ => true
  | unlock => true
  | _ => false

def MuxPc.inside : MuxPc → Bool
  | clearFlag => true
  | unlock => true
  | run _ => false

def HandlerPc.inside : HandlerPc → Bool
  | store => true
  | unlock => true
  | _ => false

def HandlerPc.past : HandlerPc → Bool
  | none => false
  | lock => false
  | _ => true

theorem HandlerPc.past_of_inside {pc : HandlerPc} (h : pc.inside = true) : pc.past = true := by
  cases pc with
  | store => rfl
  | unlock => rfl
  | _ => cases h

def MuxState.body (s : MuxState) : Thread → Bool
  | .caller k => (s.caller k).inside
  | .conn i => (s.conn i).pc.inside

/-- The thread is in a section, of its own code or of the signal handler. -/
def MuxState.Inside (s : MuxState) (w : Thread) : Prop :=
  s.body w = true ∨ (s.handler w).inside = true

section Updates

variable (s : MuxState) (v : Thread)

@[simp] theorem body_setCaller (k : Nat) (pc : CallPc) :
    (s.setCaller k pc).body v = if v = .caller k then pc.inside else s.body v := by
  cases v with
  | caller j =>
      by_cases h : j = k
      · simp [MuxState.body, MuxState.setCaller, h]
      · simp [MuxState.body, MuxState.setCaller, h]
  | conn i => rfl

@[simp] theorem body_setConn (i : Nat) (c : MuxConn) :
    (s.setConn i c).body v = if v = .conn i then c.pc.inside else s.body v := by
  cases v with
  | caller k => rfl
  | conn j =>
      by_cases h : j = i
      · simp [MuxState.body, MuxState.setConn, h]
      · simp [MuxState.body, MuxState.setConn, h]

@[simp] theorem body_setHandler (w : Thread) (pc : HandlerPc) :
    (s.setHandler w pc).body v = s.body v := rfl

@[simp] theorem handler_setHandler (w : Thread) (pc : HandlerPc) :
    (s.setHandler w pc).handler v = if v = w then pc else s.handler v := by
  by_cases h : v = w
  · simp [MuxState.setHandler, h]
  · simp [MuxState.setHandler, h]

theorem caller_setCaller (k : Nat) (pc : CallPc) (j : Nat) :
    (s.setCaller k pc).caller j = if j = k then pc else s.caller j := by
  by_cases h : j = k
  · simp [MuxState.setCaller, h]
  · simp [MuxState.setCaller, h]

theorem conn_setConn (i : Nat) (c : MuxConn) (j : Nat) :
    (s.setConn i c).conn j = if j = i then c else s.conn j := by
  by_cases h : j = i
  · simp [MuxState.setConn, h]
  · simp [MuxState.setConn, h]

@[simp] theorem handler_setCaller (k : Nat) (pc : CallPc) :
    (s.setCaller k pc).handler = s.handler := rfl

@[simp] theorem handler_setConn (i : Nat) (c : MuxConn) : (s.setConn i c).handler = s.handler := rfl

@[simp] theorem mux_setCaller (k : Nat) (pc : CallPc) : (s.setCaller k pc).mux = s.mux := rfl

@[simp] theorem mux_setConn (i : Nat) (c : MuxConn) : (s.setConn i c).mux = s.mux := rfl

@[simp] theorem mux_setHandler (w : Thread) (pc : HandlerPc) : (s.setHandler w pc).mux = s.mux :=
  rfl

end Updates

/-- Where the mutex is: with the thread inside, and the handler takes it only when the code it
interrupted does not have it. -/
structure LockInv (s : MuxState) : Prop where
  guards : Guards s.mux s.Inside
  apart : ∀ w, (s.handler w).past = true → s.body w = false

section Keep

variable {s t : MuxState} {w : Thread} (h : LockInv s)

include h

/-- The thread's own code changes, inside or outside of a section. -/
theorem LockInv.bodyStep (hbody : ∀ v, v ≠ w → t.body v = s.body v)
    (hhandler : t.handler = s.handler) (running : s.handler w = .none)
    (hmux : t.mux = s.mux ∧ t.body w = s.body w ∨
      s.mux = none ∧ t.mux = some w ∧ t.body w = true ∨
      s.body w = true ∧ t.mux = none ∧ t.body w = false) : LockInv t := by
  have hother : ∀ v, v ≠ w → (t.Inside v ↔ s.Inside v) := by
    intro v hv
    rw [MuxState.Inside, MuxState.Inside, hbody v hv, hhandler]
  have hself : (s.handler w).inside = false := by rw [running]; rfl
  have hpast : (s.handler w).past = false := by rw [running]; rfl
  have hinside : s.Inside w ↔ s.body w = true := by simp [MuxState.Inside, hself]
  have hinside' : t.Inside w ↔ t.body w = true := by simp [MuxState.Inside, hhandler, hself]
  refine ⟨?_, ?_⟩
  · obtain ⟨hmux, hsame⟩ | ⟨hfree, hmux, hin⟩ | ⟨hin, hmux, hout⟩ := hmux
    · rw [hmux]
      refine h.guards.congr fun v => ?_
      by_cases hv : v = w
      · rw [hv, hinside, hinside', hsame]
      · exact hother v hv
    · have hguards := h.guards
      rw [hfree] at hguards
      rw [hmux]
      refine hguards.acquire fun v => ?_
      by_cases hv : v = w
      · simp [hv, hinside', hin]
      · simp [hv, hother v hv]
    · rw [hmux]
      refine h.guards.release (hinside.mpr hin) fun v => ?_
      by_cases hv : v = w
      · simp [hv, hinside', hout]
      · simp [hv, hother v hv]
  · intro v hv
    rw [hhandler] at hv
    by_cases hvw : v = w
    · rw [hvw, hpast] at hv
      cases hv
    · rw [hbody v hvw]
      exact h.apart v hv

/-- The signal handler on the thread changes. -/
theorem LockInv.handlerStep (hbody : t.body = s.body)
    (hhandler : ∀ v, v ≠ w → t.handler v = s.handler v)
    (hmux : t.mux = s.mux ∧ (t.handler w).inside = (s.handler w).inside ∨
      s.mux = none ∧ t.mux = some w ∧ (t.handler w).inside = true ∨
      (s.handler w).inside = true ∧ t.mux = none ∧ (t.handler w).inside = false)
    (hpast : (t.handler w).past = true → (s.handler w).past = true ∨ s.mux = none) :
    LockInv t := by
  have hother : ∀ v, v ≠ w → (t.Inside v ↔ s.Inside v) := by
    intro v hv
    rw [MuxState.Inside, MuxState.Inside, hbody, hhandler v hv]
  refine ⟨?_, ?_⟩
  · obtain ⟨hmux, hsame⟩ | ⟨hfree, hmux, hin⟩ | ⟨hin, hmux, hout⟩ := hmux
    · rw [hmux]
      refine h.guards.congr fun v => ?_
      by_cases hv : v = w
      · rw [hv, MuxState.Inside, MuxState.Inside, hbody, hsame]
      · exact hother v hv
    · have hguards := h.guards
      rw [hfree] at hguards
      rw [hmux]
      refine hguards.acquire fun v => ?_
      by_cases hv : v = w
      · simp [hv, MuxState.Inside, hin]
      · simp [hv, hother v hv]
    · rw [hmux]
      refine h.guards.release (Or.inr hin) fun v => ?_
      by_cases hv : v = w
      · simp [hv, MuxState.Inside, hout, hbody, h.apart w (HandlerPc.past_of_inside hin)]
      · simp [hv, hother v hv]
  · intro v hv
    rw [hbody]
    by_cases hvw : v = w
    · subst hvw
      cases hpast hv with
      | inl hold => exact h.apart v hold
      | inr hfree =>
          have hguards := h.guards
          rw [hfree] at hguards
          simpa using fun hb => hguards.empty v (Or.inl hb)
    · rw [hhandler v hvw] at hv
      exact h.apart v hv

end Keep

/-- A caller's next statement, with what else it writes. -/
theorem LockInv.setCaller {s u : MuxState} (h : LockInv s) {k : Nat} {pc : CallPc}
    (hbody : u.body = s.body) (hhandler : u.handler = s.handler)
    (running : s.handler (.caller k) = .none)
    (hmux : u.mux = s.mux ∧ pc.inside = (s.caller k).inside ∨
      s.mux = none ∧ u.mux = some (.caller k) ∧ pc.inside = true ∨
      (s.caller k).inside = true ∧ u.mux = none ∧ pc.inside = false) :
    LockInv (u.setCaller k pc) := by
  have hself : (u.setCaller k pc).body (.caller k) = pc.inside := by
    rw [body_setCaller, if_pos rfl]
  refine h.bodyStep (w := .caller k) (fun v hv => ?_) hhandler running ?_
  · rw [body_setCaller, if_neg hv, hbody]
  · rw [hself]
    exact hmux

theorem LockInv.setConn {s u : MuxState} (h : LockInv s) {i : Nat} {c : MuxConn}
    (hbody : u.body = s.body) (hhandler : u.handler = s.handler)
    (running : s.handler (.conn i) = .none)
    (hmux : u.mux = s.mux ∧ c.pc.inside = (s.conn i).pc.inside ∨
      s.mux = none ∧ u.mux = some (.conn i) ∧ c.pc.inside = true ∨
      (s.conn i).pc.inside = true ∧ u.mux = none ∧ c.pc.inside = false) :
    LockInv (u.setConn i c) := by
  have hself : (u.setConn i c).body (.conn i) = c.pc.inside := by
    rw [body_setConn, if_pos rfl]
  refine h.bodyStep (w := .conn i) (fun v hv => ?_) hhandler running ?_
  · rw [body_setConn, if_neg hv, hbody]
  · rw [hself]
    exact hmux

theorem LockInv.setHandler {s u : MuxState} (h : LockInv s) {w : Thread} {pc : HandlerPc}
    (hbody : u.body = s.body) (hhandler : u.handler = s.handler)
    (hmux : u.mux = s.mux ∧ pc.inside = (s.handler w).inside ∨
      s.mux = none ∧ u.mux = some w ∧ pc.inside = true ∨
      (s.handler w).inside = true ∧ u.mux = none ∧ pc.inside = false)
    (hpast : pc.past = true → (s.handler w).past = true ∨ s.mux = none) :
    LockInv (u.setHandler w pc) := by
  have hself : (u.setHandler w pc).handler w = pc := by rw [handler_setHandler, if_pos rfl]
  refine h.handlerStep (w := w) hbody (fun v hv => ?_) ?_ ?_
  · rw [handler_setHandler, if_neg hv, hhandler]
  · rw [hself]
    exact hmux
  · rw [hself]
    exact hpast

theorem LockInv.step {s t : MuxState} {a : MuxAct} (h : LockInv s) (hmove : MuxMove s a t) :
    LockInv t := by
  cases hmove with
  | call running hpc => exact h.setCaller rfl rfl running (Or.inl ⟨rfl, by rw [hpc]; rfl⟩)
  | interrupt running =>
      exact h.setHandler rfl rfl (Or.inl ⟨rfl, by rw [running]; rfl⟩) fun hp => by cases hp
  | callLock running hpc free =>
      exact h.setCaller rfl rfl running (Or.inr (Or.inl ⟨free, rfl, rfl⟩))
  | storeFlag running hpc => exact h.setCaller rfl rfl running (Or.inl ⟨rfl, by rw [hpc]; rfl⟩)
  | storeData running hpc => exact h.setCaller rfl rfl running (Or.inl ⟨rfl, by rw [hpc]; rfl⟩)
  | callUnlock running hpc =>
      exact h.setCaller rfl rfl running (Or.inr (Or.inr ⟨by rw [hpc]; rfl, rfl, rfl⟩))
  | connLock running hpc free =>
      exact h.setConn rfl rfl running (Or.inr (Or.inl ⟨free, rfl, rfl⟩))
  | clearFlag running hpc => exact h.setConn rfl rfl running (Or.inl ⟨rfl, by rw [hpc]; rfl⟩)
  | connUnlock running hpc =>
      exact h.setConn rfl rfl running (Or.inr (Or.inr ⟨by rw [hpc]; rfl, rfl, rfl⟩))
  | run running hpc hne hstep =>
      exact h.setConn rfl rfl running (Or.inl ⟨rfl, by rw [hpc]; rfl⟩)
  | handlerLock hpc free =>
      exact h.setHandler rfl rfl (Or.inr (Or.inl ⟨free, rfl, rfl⟩)) fun _ => Or.inr free
  | handlerStore hpc =>
      exact h.setHandler rfl rfl (Or.inl ⟨rfl, by rw [hpc]; rfl⟩)
        fun _ => Or.inl (by rw [hpc]; rfl)
  | handlerUnlock hpc =>
      exact h.setHandler rfl rfl (Or.inr (Or.inr ⟨by rw [hpc]; rfl, rfl, rfl⟩))
        fun _ => Or.inl (by rw [hpc]; rfl)

theorem LockInv.init {s : MuxState} (h : MuxInit s) : LockInv s := by
  obtain ⟨hmux, -, -, -, -, -, hcaller, hconn, hhandler⟩ := h
  have hbody : ∀ v, s.body v = false := by
    intro v
    cases v with
    | caller k => rw [MuxState.body, hcaller k]; rfl
    | conn i => rw [MuxState.body, hconn i]; rfl
  refine ⟨fun v => ?_, fun v _ => hbody v⟩
  rw [hmux, MuxState.Inside, hbody v, hhandler v]
  simp [HandlerPc.inside]

theorem lockInv {s : MuxState} (h : Reachable muxSystem s) : LockInv s :=
  h.invariant (fun _ => LockInv.init) fun _ _ _ hinv hstep _ => hinv.step (muxStep_move hstep)

end STRos
