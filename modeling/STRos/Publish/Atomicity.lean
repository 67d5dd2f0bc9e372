import STRos.Publish.Mutex

/-! # The sections of node_mux as single steps

A run of the statements is matched by a run of `pubSystem`. The call of `publish` is
matched where it stores the data; the threads that read the flag between its two stores
are `early`, and read it behind the call instead. They all wait for the mutex.
-/

namespace STRos

open CString Transition Lock

def MuxPc.coarse : MuxPc → PubPc
  | run pc => pc
  | clearFlag => .reset
  | unlock => .nullCheck

def MuxConn.coarse (c : MuxConn) : Conn := ⟨c.pc.coarse, c.since, c.sent⟩

/-- A thread that has read a flag which is not there yet. -/
def MuxConn.before (c : MuxConn) : Conn := ⟨.waitOk, c.since, c.sent⟩

/-- A call of `publish` is between its two stores. -/
def MuxState.Storing (s : MuxState) : Prop := ∃ k msg, s.caller k = .storeData msg

structure Matches (s : MuxState) (t : PubState) (early : List Nat) : Prop where
  rosOk : t.rosOk = s.rosOk
  pub : t.pub = s.pub
  data : t.data = s.data
  history : t.history = s.history
  flag : ¬ s.Storing → t.dataOk = s.dataOk
  stored : s.Storing → s.dataOk = true
  late : ∀ i, i ∉ early → t.conn i = (s.conn i).coarse
  ahead : ∀ i ∈ early, t.conn i = (s.conn i).before ∧ (s.conn i).pc = .run .reset
  window : early ≠ [] → s.Storing
  once : early.Nodup

/-! ## Where a call is between its stores -/

section Storing

variable {s u : MuxState}

theorem storing_congr (h : u.caller = s.caller) : u.Storing ↔ s.Storing := by
  rw [MuxState.Storing, MuxState.Storing, h]

theorem storing_setCaller {k : Nat} {pc : CallPc} (hu : u.caller = s.caller)
    (hold : ∀ msg, s.caller k ≠ .storeData msg) (hnew : ∀ msg, pc ≠ .storeData msg) :
    (u.setCaller k pc).Storing ↔ s.Storing := by
  refine exists_congr fun j => exists_congr fun msg => ?_
  rw [caller_setCaller, hu]
  split
  · rename_i hjk
    rw [hjk]
    exact ⟨fun h => absurd h (hnew msg), fun h => absurd h (hold msg)⟩
  · exact Iff.rfl

theorem Guards.not_storing {w : Thread} (h : LockInv s) (hw : s.Inside w)
    (hother : ∀ k msg, w = .caller k → s.caller k ≠ .storeData msg) : ¬ s.Storing := by
  rintro ⟨k, msg, hk⟩
  have hin : s.Inside (.caller k) := Or.inl (by rw [MuxState.body, hk]; rfl)
  exact hother k msg (h.guards.exclusive hw hin) hk

theorem not_storing_of_free (h : LockInv s) (hfree : s.mux = none) : ¬ s.Storing := by
  rintro ⟨k, msg, hk⟩
  have hin : s.Inside (.caller k) := Or.inl (by rw [MuxState.body, hk]; rfl)
  have hguards := h.guards
  rw [hfree] at hguards
  exact hguards.empty _ hin

end Storing

/-! ## Steps that are not matched -/

section Stutter

variable {s : MuxState} {t : PubState} {early : List Nat} (h : Matches s t early)

include h

theorem Matches.congr {u : MuxState} (hros : u.rosOk = s.rosOk) (hpub : u.pub = s.pub)
    (hdata : u.data = s.data) (hhistory : u.history = s.history) (hflag : u.dataOk = s.dataOk)
    (hconn : u.conn = s.conn) (hstoring : u.Storing ↔ s.Storing) : Matches u t early where
  rosOk := h.rosOk.trans hros.symm
  pub := h.pub.trans hpub.symm
  data := h.data.trans hdata.symm
  history := h.history.trans hhistory.symm
  flag := fun hno => (h.flag fun hs => hno (hstoring.mpr hs)).trans hflag.symm
  stored := fun hs => hflag.trans (h.stored (hstoring.mp hs))
  late := fun i hi => by rw [hconn]; exact h.late i hi
  ahead := fun i hi => by rw [hconn]; exact h.ahead i hi
  window := fun hne => hstoring.mpr (h.window hne)
  once := h.once

theorem Matches.storeFlag (k : Nat) (msg : Option Bytes) (hs : ¬ s.Storing) :
    Matches ({ s with dataOk := true }.setCaller k (.storeData msg)) t early where
  rosOk := h.rosOk
  pub := h.pub
  data := h.data
  history := h.history
  flag := fun hno => absurd ⟨k, msg, by rw [caller_setCaller, if_pos rfl]⟩ hno
  stored := fun _ => rfl
  late := h.late
  ahead := h.ahead
  window := fun hne => absurd (h.window hne) hs
  once := h.once

/-- A connection goes on where `pubSystem` stands still. -/
theorem Matches.setConn {i : Nat} {c : MuxConn} (hi : i ∉ early)
    (hc : c.coarse = (s.conn i).coarse) : Matches (s.setConn i c) t early where
  rosOk := h.rosOk
  pub := h.pub
  data := h.data
  history := h.history
  flag := h.flag
  stored := h.stored
  late := fun j hj => by
    rw [conn_setConn]
    split
    · rename_i hji
      rw [hji, hc]
      exact h.late i hi
    · exact h.late j hj
  ahead := fun j hj => by
    have hji : j ≠ i := fun heq => hi (heq ▸ hj)
    rw [conn_setConn, if_neg hji]
    exact h.ahead j hj
  window := h.window
  once := h.once

theorem Matches.setBoth {i : Nat} (hi : i ∉ early) (c : MuxConn) :
    Matches (s.setConn i c) { t with conn := Function.update t.conn i c.coarse } early where
  rosOk := h.rosOk
  pub := h.pub
  data := h.data
  history := h.history
  flag := h.flag
  stored := h.stored
  late := fun j hj => by
    change Function.update t.conn i c.coarse j = _
    rw [conn_setConn, Function.update_apply]
    split
    · rfl
    · exact h.late j hj
  ahead := fun j hj => by
    have hji : j ≠ i := fun heq => hi (heq ▸ hj)
    change Function.update t.conn i c.coarse j = _ ∧ _
    rw [conn_setConn, if_neg hji, Function.update_of_ne hji]
    exact h.ahead j hj
  window := h.window
  once := h.once

theorem Matches.setFlag (hs : ¬ s.Storing) (b : Bool) :
    Matches { s with dataOk := b } { t with dataOk := b } early :=
  ⟨h.rosOk, h.pub, h.data, h.history, fun _ => rfl, fun hst => absurd hst hs, h.late, h.ahead,
    h.window, h.once⟩

end Stutter

/-! ## Steps that are matched -/

theorem publishTcpData_congr {u t : PubState} {c : Conn} {ok : Bool} (hros : t.rosOk = u.rosOk)
    (hpub : t.pub = u.pub) (hdata : t.data = u.data) (hhistory : t.history = u.history)
    (hflag : c.pc = .waitOk → t.dataOk = u.dataOk) :
    publishTcpData t c ok = publishTcpData u c ok := by
  cases hpc : c.pc with
  | waitOk => simp only [publishTcpData, hpc, hflag hpc]
  | _ => simp only [publishTcpData, hpc, hros, hpub, hdata, hhistory]

theorem exec_early {t : PubState} (hflag : t.dataOk = true) {early : List Nat}
    (honce : early.Nodup) (hwait : ∀ i ∈ early, (t.conn i).pc = .waitOk) :
    ∃ t', exec pubSystem t (early.map fun i => .thread i true) = some t' ∧
      t' = { t with conn := t'.conn } ∧ (∀ i, i ∉ early → t'.conn i = t.conn i) ∧
      ∀ i ∈ early, t'.conn i = { t.conn i with pc := .reset } := by
  induction early generalizing t with
  | nil => exact ⟨t, rfl, rfl, fun _ _ => rfl, by simp⟩
  | cons i early ih =>
      rw [List.nodup_cons] at honce
      rw [List.forall_mem_cons] at hwait
      let u : PubState := { t with conn := Function.update t.conn i { t.conn i with pc := .reset } }
      have hstep : pubStep t (.thread i true) = some u := by
        simp [pubStep, publishTcpData, hwait.1, hflag, u]
      have hother : ∀ j, j ≠ i → u.conn j = t.conn j := fun j hj => Function.update_of_ne hj _ _
      have hwait' : ∀ j ∈ early, (u.conn j).pc = .waitOk := by
        intro j hj
        rw [hother j fun heq => honce.1 (heq ▸ hj)]
        exact hwait.2 j hj
      obtain ⟨t', hrun, hsame, hlate, hahead⟩ := ih (t := u) hflag honce.2 hwait'
      refine ⟨t', ?_, hsame, ?_, ?_⟩
      · rw [List.map_cons]
        simp only [exec, pubSystem, hstep]
        exact hrun
      · intro j hj
        rw [List.mem_cons, not_or] at hj
        rw [hlate j hj.2, hother j hj.1]
      · rw [List.forall_mem_cons]
        refine ⟨?_, fun j hj => ?_⟩
        · rw [hlate i honce.1]
          exact Function.update_self _ _ _
        · rw [hahead j hj, hother j fun heq => honce.1 (heq ▸ hj)]

section Matched

variable {s : MuxState} {t : PubState} {early : List Nat} (h : Matches s t early)

include h

/-- The second store of a call: the call of `pubSystem`, and then the reads that were early. -/
theorem Matches.storeData {k : Nat} {msg : Option Bytes} (hpc : s.caller k = .storeData msg) :
    ∃ bs t', exec pubSystem t bs = some t' ∧
      Matches ({ s with
        data := ⟨some s.history.length, msg⟩
        history := s.history ++ [(⟨some s.history.length, msg⟩ : Datum)] }.setCaller k .unlock)
        t' [] := by
  have hwait : ∀ i ∈ early, ((publish t msg).conn i).pc = .waitOk := by
    intro i hi
    change (t.conn i).pc = .waitOk
    rw [(h.ahead i hi).1]
    rfl
  obtain ⟨t', hrun, hsame, hlate, hahead⟩ :=
    exec_early (t := publish t msg) rfl h.once hwait
  refine ⟨.publish msg :: early.map fun i => .thread i true, t', ?_, ?_⟩
  · simp only [exec, pubSystem, pubStep]
    exact hrun
  · have hflag : s.dataOk = true := h.stored ⟨k, msg, hpc⟩
    rw [hsame]
    refine ⟨h.rosOk, h.pub, ?_, ?_, fun _ => hflag.symm, fun _ => hflag, fun i _ => ?_, by simp,
      fun hne => absurd rfl hne, List.nodup_nil⟩
    · simp [publish, MuxState.setCaller, h.history]
    · simp [publish, MuxState.setCaller, h.history]
    · by_cases hi : i ∈ early
      · have hpcs := h.ahead i hi
        have hconn : (publish t msg).conn i = (s.conn i).before := hpcs.1
        change t'.conn i = (s.conn i).coarse
        rw [hahead i hi, hconn, MuxConn.coarse, hpcs.2]
        rfl
      · exact (hlate i hi).trans (h.late i hi)

theorem Matches.clearFlag {i : Nat} (hpc : (s.conn i).pc = .clearFlag) (hs : ¬ s.Storing) :
    ∃ bs t', exec pubSystem t bs = some t' ∧
      Matches ({ s with dataOk := false }.setConn i { s.conn i with pc := .unlock }) t' early := by
  have hearly : i ∉ early := by
    intro hi
    have hwait := (h.ahead i hi).2
    rw [hpc] at hwait
    cases hwait
  have hconn : (t.conn i).pc = .reset := by
    rw [h.late i hearly, MuxConn.coarse, hpc]
    rfl
  have hnext : publishTcpData t (t.conn i) true = some { t.conn i with pc := .nullCheck } := by
    simp [publishTcpData, hconn]
  refine ⟨[.thread i true], { t with
    dataOk := false
    conn := Function.update t.conn i { t.conn i with pc := .nullCheck } }, ?_, ?_⟩
  · simp [exec, pubSystem, pubStep, hnext, hconn]
  · have hcoarse : ({ s.conn i with pc := .unlock } : MuxConn).coarse =
        { t.conn i with pc := .nullCheck } := by
      rw [h.late i hearly]
      rfl
    rw [← hcoarse]
    exact (h.setFlag hs false).setBoth hearly _

/-- Every other statement of a thread, when it finds the same in both systems. -/
theorem Matches.run {i : Nat} {pc : PubPc} {ok : Bool} {c : Conn}
    (hpc : (s.conn i).pc = .run pc) (hne : pc ≠ .reset)
    (hstep : publishTcpData s.shared ⟨pc, (s.conn i).since, (s.conn i).sent⟩ ok = some c)
    (hflag : pc = .waitOk → t.dataOk = s.dataOk) :
    ∃ bs t', exec pubSystem t bs = some t' ∧
      Matches (s.setConn i ⟨.run c.pc, c.since, c.sent⟩) t' early := by
  have hearly : i ∉ early := by
    intro hi
    have hwait := (h.ahead i hi).2
    rw [hpc] at hwait
    exact hne (MuxPc.run.inj hwait)
  have hconn : t.conn i = ⟨pc, (s.conn i).since, (s.conn i).sent⟩ := by
    rw [h.late i hearly, MuxConn.coarse, hpc]
    rfl
  have hnext : publishTcpData t (t.conn i) ok = some c := by
    rw [hconn, publishTcpData_congr (u := s.shared) h.rosOk h.pub h.data h.history hflag]
    exact hstep
  have hreset : (t.conn i).pc ≠ .reset := by
    rw [hconn]
    exact hne
  refine ⟨[.thread i ok], { t with conn := Function.update t.conn i c }, ?_, ?_⟩
  · simp [exec, pubSystem, pubStep, hnext, hreset]
  · exact h.setBoth hearly ⟨.run c.pc, c.since, c.sent⟩

/-- The flag is read between the two stores of a call. -/
theorem Matches.readEarly {i : Nat} {ok : Bool} {c : Conn} (hpc : (s.conn i).pc = .run .waitOk)
    (hstep : publishTcpData s.shared ⟨.waitOk, (s.conn i).since, (s.conn i).sent⟩ ok = some c)
    (hs : s.Storing) : Matches (s.setConn i ⟨.run c.pc, c.since, c.sent⟩) t (i :: early) := by
  have hearly : i ∉ early := by
    intro hi
    have hwait := (h.ahead i hi).2
    rw [hpc] at hwait
    cases hwait
  have hc : c = ⟨.reset, (s.conn i).since, (s.conn i).sent⟩ := by
    have hflag : s.shared.dataOk = true := h.stored hs
    simp only [publishTcpData, hflag, if_true] at hstep
    exact (Option.some.inj hstep).symm
  refine ⟨h.rosOk, h.pub, h.data, h.history, h.flag, h.stored, fun j hj => ?_, fun j hj => ?_,
    fun _ => hs, List.nodup_cons.mpr ⟨hearly, h.once⟩⟩
  · rw [List.mem_cons, not_or] at hj
    rw [conn_setConn, if_neg hj.1]
    exact h.late j hj.2
  · rw [conn_setConn]
    by_cases hji : j = i
    · rw [hji, if_pos rfl, hc, h.late i hearly, MuxConn.coarse, hpc]
      exact ⟨rfl, rfl⟩
    · rw [if_neg hji]
      exact h.ahead j ((List.mem_cons.mp hj).resolve_left hji)

end Matched

theorem Matches.step {s u : MuxState} {t : PubState} {early : List Nat} {a : MuxAct}
    (h : Matches s t early) (hinv : LockInv s) (hmove : MuxMove s a u) :
    ∃ bs t', exec pubSystem t bs = some t' ∧ ∃ early', Matches u t' early' := by
  cases hmove with
  | call running hpc =>
      exact ⟨[], t, rfl, early, h.congr rfl rfl rfl rfl rfl rfl
        (storing_setCaller rfl (by simp [hpc]) (by simp))⟩
  | interrupt running =>
      exact ⟨[], t, rfl, early, h.congr rfl rfl rfl rfl rfl rfl (storing_congr rfl)⟩
  | callLock running hpc free =>
      exact ⟨[], t, rfl, early, h.congr rfl rfl rfl rfl rfl rfl
        (storing_setCaller rfl (by simp [hpc]) (by simp))⟩
  | @storeFlag k ok msg running hpc =>
      have hin : s.Inside (.caller k) := Or.inl (by rw [MuxState.body, hpc]; rfl)
      have hs : ¬ s.Storing := by
        apply Guards.not_storing hinv hin
        rintro j msg' heq hj
        cases heq
        rw [hpc] at hj
        cases hj
      exact ⟨[], t, rfl, early, h.storeFlag k msg hs⟩
  | storeData running hpc =>
      obtain ⟨bs, t', hrun, hmatch⟩ := h.storeData hpc
      exact ⟨bs, t', hrun, [], hmatch⟩
  | callUnlock running hpc =>
      exact ⟨[], t, rfl, early, h.congr rfl rfl rfl rfl rfl rfl
        (storing_setCaller rfl (by simp [hpc]) (by simp))⟩
  | @connLock i ok running hpc free =>
      have hearly : i ∉ early := fun hi =>
        not_storing_of_free hinv free (h.window (List.ne_nil_of_mem hi))
      have hmatch : Matches (s.setConn i { s.conn i with pc := .clearFlag }) t early :=
        h.setConn hearly (by rw [MuxConn.coarse, MuxConn.coarse, hpc]; rfl)
      exact ⟨[], t, rfl, early, hmatch.congr rfl rfl rfl rfl rfl rfl (storing_congr rfl)⟩
  | @clearFlag i ok running hpc =>
      have hin : s.Inside (.conn i) := Or.inl (by rw [MuxState.body, hpc]; rfl)
      have hs : ¬ s.Storing := Guards.not_storing hinv hin fun k msg heq => by cases heq
      obtain ⟨bs, t', hrun, hmatch⟩ := h.clearFlag hpc hs
      exact ⟨bs, t', hrun, early, hmatch⟩
  | @connUnlock i ok running hpc =>
      have hearly : i ∉ early := by
        intro hi
        have hwait := (h.ahead i hi).2
        rw [hpc] at hwait
        cases hwait
      have hmatch : Matches (s.setConn i { s.conn i with pc := .run .nullCheck }) t early :=
        h.setConn hearly (by rw [MuxConn.coarse, MuxConn.coarse, hpc]; rfl)
      exact ⟨[], t, rfl, early, hmatch.congr rfl rfl rfl rfl rfl rfl (storing_congr rfl)⟩
  | @run i ok pc c running hpc hne hstep =>
      by_cases hflag : pc = .waitOk → t.dataOk = s.dataOk
      · obtain ⟨bs, t', hrun, hmatch⟩ := h.run hpc hne hstep hflag
        exact ⟨bs, t', hrun, early, hmatch⟩
      · rw [Classical.not_imp] at hflag
        obtain ⟨rfl, hdiff⟩ := hflag
        have hs : s.Storing := by
          by_contra hno
          exact hdiff (h.flag hno)
        exact ⟨[], t, rfl, _, h.readEarly hpc hstep hs⟩
  | handlerLock hpc free =>
      exact ⟨[], t, rfl, early, h.congr rfl rfl rfl rfl rfl rfl (storing_congr rfl)⟩
  | handlerStore hpc =>
      refine ⟨[.stop], { t with rosOk := false }, rfl, early, ?_⟩
      exact ⟨rfl, h.pub, h.data, h.history, h.flag, h.stored, h.late, h.ahead, h.window, h.once⟩
  | handlerUnlock hpc =>
      exact ⟨[], t, rfl, early, h.congr rfl rfl rfl rfl rfl rfl (storing_congr rfl)⟩

theorem Matches.init {s : MuxState} (h : MuxInit s) :
    ∃ t, PubInit t ∧ ∃ early, Matches s t early := by
  obtain ⟨-, hros, hpub, hflag, hdata, hhistory, hcaller, hconn, -⟩ := h
  have hs : ¬ s.Storing := by
    rintro ⟨k, msg, hk⟩
    rw [hcaller k] at hk
    cases hk
  refine ⟨{ s.shared with conn := fun _ => ⟨.handshake, 0, []⟩ },
    ⟨hros, hpub, hflag, hdata, hhistory, fun _ => rfl⟩, [], ?_⟩
  refine ⟨rfl, rfl, rfl, rfl, fun _ => rfl, fun hst => absurd hst hs, fun i _ => ?_, by simp,
    fun hne => absurd rfl hne, List.nodup_nil⟩
  rw [hconn i]
  rfl

/-- The same node as far as the messages go; and, while nobody has the mutex, the same flag and
threads at the same place. -/
structure Alike (s : MuxState) (t : PubState) : Prop where
  rosOk : t.rosOk = s.rosOk
  pub : t.pub = s.pub
  data : t.data = s.data
  history : t.history = s.history
  conn : ∀ i, (t.conn i).sent = (s.conn i).sent ∧ (t.conn i).since = (s.conn i).since
  free : s.mux = none → t.dataOk = s.dataOk ∧ ∀ i, t.conn i = (s.conn i).coarse

theorem Matches.alike {s : MuxState} {t : PubState} {early : List Nat} (h : Matches s t early)
    (hinv : LockInv s) : Alike s t := by
  refine ⟨h.rosOk, h.pub, h.data, h.history, fun i => ?_, fun hfree => ?_⟩
  · by_cases hi : i ∈ early
    · rw [(h.ahead i hi).1]
      exact ⟨rfl, rfl⟩
    · rw [h.late i hi]
      exact ⟨rfl, rfl⟩
  · have hs := not_storing_of_free hinv hfree
    exact ⟨h.flag hs, fun i => h.late i fun hi => hs (h.window (List.ne_nil_of_mem hi))⟩

/-- A run of the statements is followed by one of `pubSystem`, statement by statement. -/
theorem muxSystem_atomic {s s' : MuxState} {as : List MuxAct} (hinit : MuxInit s)
    (hrun : exec muxSystem s as = some s') :
    ∃ t bss, PubInit t ∧ Follows muxSystem pubSystem Alike s as t bss ∧
      ∃ t', exec pubSystem t bss.flatten = some t' ∧ Alike s' t' := by
  obtain ⟨t, ht, hmatch⟩ := Matches.init hinit
  have hmatched : ∀ s t a s', (LockInv s ∧ ∃ early, Matches s t early) →
      muxSystem.step s a = some s' →
      ∃ bs t', exec pubSystem t bs = some t' ∧ LockInv s' ∧ ∃ early, Matches s' t' early := by
    rintro s t a s' ⟨hinv, early, hmatch⟩ hstep
    have hmove := muxStep_move hstep
    obtain ⟨bs, t', hbs, hnext⟩ := hmatch.step hinv hmove
    exact ⟨bs, t', hbs, hinv.step hmove, hnext⟩
  obtain ⟨bss, hfollows⟩ := exec_follows hmatched ⟨lockInv (.init hinit), hmatch⟩ hrun
  have halike := hfollows.mono fun s t h => h.2.elim fun _ hmatch => hmatch.alike h.1
  exact ⟨t, bss, ht, halike, halike.last hrun⟩

def earlyRead : List MuxAct :=
  [.step (.conn 0) true, .call 0 (some (str "hi")), .step (.caller 0) true,
    .step (.caller 0) true, .step (.conn 0) true, .step (.caller 0) true, .step (.caller 0) true,
    .step (.conn 0) true, .step (.conn 0) true, .step (.conn 0) true, .step (.conn 0) true,
    .step (.conn 0) true, .step (.conn 0) true]

theorem muxSystem_atomic_early :
    ∃ s, exec muxSystem muxStart earlyRead = some s ∧
      (s.conn 0).sent = [⟨some 0, some (str "hi")⟩] ∧
      ∃ t bss t', PubInit t ∧ Follows muxSystem pubSystem Alike muxStart earlyRead t bss ∧
        exec pubSystem t bss.flatten = some t' ∧
        (t'.conn 0).sent = [⟨some 0, some (str "hi")⟩] := by
  have hrun : ∃ s, exec muxSystem muxStart earlyRead = some s ∧
      (s.conn 0).sent = [⟨some 0, some (str "hi")⟩] := ⟨_, rfl, by decide⟩
  obtain ⟨s, hexec, hsent⟩ := hrun
  obtain ⟨t, bss, ht, hfollows, t', hflat, halike⟩ := muxSystem_atomic muxStart_init hexec
  exact ⟨s, hexec, hsent, t, bss, t', ht, hfollows, hflat, (halike.conn 0).1.trans hsent⟩

end STRos
