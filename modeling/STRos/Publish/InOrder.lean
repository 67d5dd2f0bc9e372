import STRos.Publish.FanOut
import Mathlib.Data.List.Nodup

/-! # What a connection transmits

The calls of `publish` are numbered, so the transmitted values can be compared
with them. Two things make a thread transmit what it should not: a call that
falls between its flag reset and its read of the data is transmitted now and
once more, and a thread that leaves the wait loop because of a stop transmits
whatever the data are. In runs without the two nothing is transmitted twice,
out of order or without having been published.
-/

namespace STRos

open CString Transition

/-- On every connection the transmitted values are some of the published ones,
in order, each at most once. -/
def NoPhantom (s : PubState) : Prop :=
  ∀ i, (s.conn i).sent.Sublist s.history ∧ (s.conn i).sent.Nodup

/-- The condition on a step: no call of `publish` while a thread is between its
flag reset and its read of the data, and no thread leaves its wait loop for
another reason than the flag while there is nothing to send. -/
def Calm (s : PubState) (a : PubAct) (_ : PubState) : Prop :=
  match a with
  | .publish _ => ∀ i, (s.conn i).pc ≠ .nullCheck ∧ (s.conn i).pc ≠ .read
  | .stop => True
  | .thread i _ =>
      ((s.conn i).pc = .waitStatus ∧ s.pub.status = .down ∨
        (s.conn i).pc = .waitRos ∧ s.rosOk = false) → s.dataOk = true

/-! ## The published values -/

def Numbered (history : List Datum) : Prop :=
  history.map (·.call) = (List.range history.length).map some

theorem Numbered.nil : Numbered [] := rfl

theorem Numbered.publish {history : List Datum} (h : Numbered history) (msg : Option Bytes) :
    Numbered (history ++ [⟨some history.length, msg⟩]) := by
  unfold Numbered at *
  simp [h, List.range_succ]

theorem Numbered.nodup {history : List Datum} (h : Numbered history) : history.Nodup := by
  refine List.Nodup.of_map (·.call) ?_
  rw [show history.map (·.call) = _ from h]
  exact List.nodup_range.map fun _ _ => Option.some.inj

/-! ## What a thread may still transmit -/

/-- The values below `b` are all that the connection has dealt with, and where
it stands there is a newer one, or the flag tells whether there is. -/
def Behind (dataOk : Bool) (history : List Datum) (b : Nat) : PubPc → Prop
  | .handshake => b = 0
  | .waitOk => dataOk = true → b < history.length
  | .waitStatus => dataOk = true → b < history.length
  | .waitRos => dataOk = true → b < history.length
  | .reset => b < history.length
  | .nullCheck => b < history.length ∧ dataOk = false
  | .read => b < history.length ∧ dataOk = false
  | .send d => ∃ i, b ≤ i ∧ history[i]? = some d ∧ (dataOk = true → i + 1 < history.length)
  | .loopRos _ => dataOk = true → b < history.length
  | .loopStatus _ => dataOk = true → b < history.length
  | .exited => True

/-- The connection has transmitted published values below a bound, in order, and
stands behind it. -/
def Ordered (dataOk : Bool) (history : List Datum) (c : Conn) : Prop :=
  ∃ b ≤ history.length, c.sent.Sublist (history.take b) ∧ Behind dataOk history b c.pc

theorem Ordered.sublist {dataOk : Bool} {history : List Datum} {c : Conn}
    (h : Ordered dataOk history c) : c.sent.Sublist history := by
  obtain ⟨b, -, hsub, -⟩ := h
  exact hsub.trans (List.take_sublist b history)

theorem Behind.cleared {dataOk : Bool} {history : List Datum} {b : Nat} {pc : PubPc}
    (h : Behind dataOk history b pc) : Behind false history b pc := by
  cases pc with
  | nullCheck => exact ⟨h.1, rfl⟩
  | read => exact ⟨h.1, rfl⟩
  | send d =>
      obtain ⟨i, hbi, hi, -⟩ := h
      exact ⟨i, hbi, hi, nofun⟩
  | handshake => exact h
  | reset => exact h
  | exited => trivial
  | waitOk => exact nofun
  | waitStatus => exact nofun
  | waitRos => exact nofun
  | loopRos io => exact nofun
  | loopStatus io => exact nofun

theorem Behind.published {dataOk : Bool} {history : List Datum} {b : Nat} {pc : PubPc} (d : Datum)
    (h : Behind dataOk history b pc) (hb : b ≤ history.length)
    (hread : pc ≠ .nullCheck ∧ pc ≠ .read) : Behind true (history ++ [d]) b pc := by
  have hlt : b < (history ++ [d]).length := by
    simp
    omega
  cases pc with
  | nullCheck => exact absurd rfl hread.1
  | read => exact absurd rfl hread.2
  | send e =>
      obtain ⟨i, hbi, hi, -⟩ := h
      have hil : i < history.length := (List.getElem?_eq_some_iff.mp hi).1
      refine ⟨i, hbi, by rw [List.getElem?_append_left hil, hi], fun _ => ?_⟩
      simp
      omega
  | handshake => exact h
  | reset => exact hlt
  | exited => trivial
  | waitOk => exact fun _ => hlt
  | waitStatus => exact fun _ => hlt
  | waitRos => exact fun _ => hlt
  | loopRos io => exact fun _ => hlt
  | loopStatus io => exact fun _ => hlt

theorem Ordered.cleared {dataOk : Bool} {history : List Datum} {c : Conn}
    (h : Ordered dataOk history c) : Ordered false history c := by
  obtain ⟨b, hb, hsub, hbehind⟩ := h
  exact ⟨b, hb, hsub, hbehind.cleared⟩

theorem Ordered.published {dataOk : Bool} {history : List Datum} {c : Conn} (d : Datum)
    (h : Ordered dataOk history c) (hread : c.pc ≠ .nullCheck ∧ c.pc ≠ .read) :
    Ordered true (history ++ [d]) c := by
  obtain ⟨b, hb, hsub, hbehind⟩ := h
  refine ⟨b, by simp; omega, ?_, hbehind.published d hb hread⟩
  rwa [List.take_append_of_le_length hb]

/-! ## One step -/

structure OrderInv (s : PubState) : Prop where
  flag : s.dataOk = true → s.history ≠ []
  latest : ∀ d, s.history.getLast? = some d → s.data = d
  numbered : Numbered s.history
  ordered : ∀ i, Ordered s.dataOk s.history (s.conn i)

/-- What a thread can read now is the last value published. -/
theorem OrderInv.last {s : PubState} (hs : OrderInv s) (hne : s.history ≠ []) :
    s.history[s.history.length - 1]? = some s.data := by
  cases hl : s.history.getLast? with
  | none => exact absurd (List.getLast?_eq_none_iff.mp hl) hne
  | some d => rw [← List.getLast?_eq_getElem?, hl, hs.latest d hl]

/-- A value behind all that was sent goes to the end of it. -/
theorem sublist_take_succ {history sent : List Datum} {b i : Nat} {d : Datum}
    (hsub : sent.Sublist (history.take b)) (hbi : b ≤ i) (hi : history[i]? = some d) :
    (sent ++ [d]).Sublist (history.take (i + 1)) := by
  have htake : history.take (i + 1) = history.take i ++ [d] := by
    rw [List.take_add_one, hi]
    rfl
  rw [htake]
  exact (hsub.trans (List.take_sublist_take_left hbi)).append_right [d]

/-- A step of the thread itself: what it reads is the latest value, and newer
than everything it has dealt with. -/
theorem OrderInv.ordered_thread {s : PubState} {c c' : Conn} {ok : Bool} (hs : OrderInv s)
    (h : Ordered s.dataOk s.history c)
    (hcalm : (c.pc = .waitStatus ∧ s.pub.status = .down ∨ c.pc = .waitRos ∧ s.rosOk = false) →
      s.dataOk = true)
    (hstep : publishTcpData s c ok = some c') :
    Ordered (if c.pc = .reset then false else s.dataOk) s.history c' := by
  obtain ⟨pc, since, sent⟩ := c
  obtain ⟨b, hb, hsub, hbehind⟩ := h
  cases pc with
  | handshake =>
      cases ok with
      | true =>
          cases hstep
          cases (hbehind : b = 0)
          exact ⟨0, hb, hsub, fun hok => List.length_pos_iff.mpr (hs.flag hok)⟩
      | false => cases hstep; exact ⟨b, hb, hsub, trivial⟩
  | waitOk =>
      cases hstep
      refine ⟨b, hb, hsub, ?_⟩
      by_cases hok : s.dataOk = true
      · simpa [hok, Behind] using hbehind hok
      · simp [hok, Behind]
  | waitStatus =>
      cases hstep
      refine ⟨b, hb, hsub, ?_⟩
      by_cases hst : s.pub.status = .down
      · simpa [hst, Behind] using hbehind (hcalm (Or.inl ⟨rfl, hst⟩))
      · simpa [hst, Behind] using hbehind
  | waitRos =>
      cases hstep
      refine ⟨b, hb, hsub, ?_⟩
      by_cases hros : s.rosOk = true
      · simpa [hros, Behind] using hbehind
      · have hros : s.rosOk = false := by simpa using hros
        simpa [hros, Behind] using hbehind (hcalm (Or.inr ⟨rfl, hros⟩))
  | reset =>
      cases hstep
      exact ⟨b, hb, hsub, hbehind, rfl⟩
  | nullCheck =>
      simp only [publishTcpData] at hstep
      split at hstep <;> cases hstep
      · exact ⟨b, hb, hsub, fun _ => hbehind.1⟩
      · exact ⟨b, hb, hsub, hbehind⟩
  | read =>
      simp only [publishTcpData] at hstep
      split at hstep
      · cases hstep
      · cases hstep
        obtain ⟨hlt, hnok⟩ := hbehind
        have hlast := hs.last (List.ne_nil_of_length_pos (Nat.zero_lt_of_lt hlt))
        refine ⟨b, hb, hsub, s.history.length - 1, by omega, hlast, fun hok => ?_⟩
        simp [hnok] at hok
  | send d =>
      obtain ⟨i, hbi, hi, hnext⟩ := hbehind
      have hil : i < s.history.length := (List.getElem?_eq_some_iff.mp hi).1
      cases ok with
      | true =>
          cases hstep
          exact ⟨i + 1, hil, sublist_take_succ hsub hbi hi, hnext⟩
      | false =>
          cases hstep
          exact ⟨b, hb, hsub, fun hok => by have := hnext hok; omega⟩
  | loopRos io =>
      cases hstep
      refine ⟨b, hb, hsub, ?_⟩
      by_cases hros : s.rosOk = true
      · simpa [hros, Behind] using hbehind
      · simp [hros, Behind]
  | loopStatus io =>
      cases hstep
      refine ⟨b, hb, hsub, ?_⟩
      by_cases hst : s.pub.status ≠ .down ∧ io = true
      · simpa [hst, Behind] using hbehind
      · simp [hst, Behind]
  | exited => cases hstep

theorem orderInv_init {s : PubState} (h : PubInit s) : OrderInv s := by
  obtain ⟨-, -, hflag, -, hhist, hconn⟩ := h
  refine ⟨by simp [hflag], by simp [hhist], by rw [hhist]; exact Numbered.nil, fun i => ?_⟩
  rw [hconn i, hhist]
  exact ⟨0, Nat.le_refl 0, List.Sublist.slnil, rfl⟩

theorem OrderInv.publish {s : PubState} (h : OrderInv s) (msg : Option Bytes)
    (hcalm : ∀ i, (s.conn i).pc ≠ .nullCheck ∧ (s.conn i).pc ≠ .read) :
    OrderInv (publish s msg) where
  flag := fun _ => by simp [STRos.publish]
  latest := fun d hd => by simpa [STRos.publish] using hd
  numbered := h.numbered.publish msg
  ordered := fun i => (h.ordered i).published _ (hcalm i)

theorem OrderInv.thread {s t : PubState} {i : Nat} {ok : Bool} {c : Conn} (h : OrderInv s)
    (hc : publishTcpData s (s.conn i) ok = some c)
    (ht : t = { s with
                dataOk := if (s.conn i).pc = .reset then false else s.dataOk
                conn := Function.update s.conn i c })
    (hcalm : Calm s (.thread i ok) t) : OrderInv t := by
  subst ht
  refine ⟨fun hok => h.flag ?_, h.latest, h.numbered, fun j => ?_⟩
  · simp only at hok
    split at hok
    · cases hok
    · exact hok
  · by_cases hj : j = i
    · subst hj
      simp only [Function.update_self]
      exact h.ordered_thread (h.ordered j) hcalm hc
    · simp only [Function.update_of_ne hj]
      split
      · exact (h.ordered j).cleared
      · exact h.ordered j

/-! ## Whole runs -/

theorem orderInv_reaches {s : PubState} (h : Reaches pubSystem Calm s) : OrderInv s := by
  refine h.invariant (fun _ => orderInv_init) fun s a t hs hstep hcalm => ?_
  rcases pubStep_cases hstep with ⟨msg, rfl, rfl⟩ | ⟨-, rfl⟩ | ⟨i, ok, c, rfl, hc, ht⟩
  · exact hs.publish msg hcalm
  · exact ⟨hs.flag, hs.latest, hs.numbered, hs.ordered⟩
  · exact hs.thread hc ht hcalm

/-- In calm runs nothing is transmitted twice, out of order or unpublished. -/
theorem noPhantom_of_calm (s : PubState) (h : Reaches pubSystem Calm s) : NoPhantom s := by
  intro i
  have hs := orderInv_reaches h
  have hsub := (hs.ordered i).sublist
  exact ⟨hsub, hs.numbered.nodup.sublist hsub⟩

/-! ## Three runs -/

theorem calm_thread {s t : PubState} (hros : s.rosOk = true) (hst : s.pub.status = .active)
    (i : Nat) (ok : Bool) : Calm s (.thread i ok) t := by
  rintro (⟨-, h⟩ | ⟨-, h⟩)
  · rw [hst] at h
    cases h
  · rw [hros] at h
    cases h

theorem noPhantom_hello :
    ∃ s, exec pubSystem talker ([.thread 0 true, .publish (some (str "hello"))] ++
      List.replicate 5 (.thread 0 true)) = some s ∧
        (s.conn 0).sent = [⟨some 0, some (str "hello")⟩] ∧ NoPhantom s := by
  obtain ⟨s, hs⟩ : ∃ s, exec pubSystem talker ([.thread 0 true, .publish (some (str "hello"))] ++
      List.replicate 5 (.thread 0 true)) = some s := Option.isSome_iff_exists.mp (by decide)
  have hsent : (exec pubSystem talker ([.thread 0 true, .publish (some (str "hello"))] ++
      List.replicate 5 (.thread 0 true))).map (fun s => (s.conn 0).sent) =
        some [⟨some 0, some (str "hello")⟩] := by decide
  rw [hs] at hsent
  refine ⟨s, hs, Option.some.inj hsent, noPhantom_of_calm s ?_⟩
  have hshake : Reaches pubSystem Calm _ :=
    .step (.init talker_init) (a := .thread 0 true) rfl (calm_thread rfl rfl 0 true)
  have hpublish : Reaches pubSystem Calm _ :=
    .step hshake (a := .publish (some (str "hello"))) rfl fun i => by
      by_cases hi : i = 0
      · subst hi
        simp [talker]
      · simp [Function.update_of_ne hi, talker]
  refine Reaches.exec (P := fun s => s.rosOk = true ∧ s.pub.status = .active)
    (Q := fun a => a = .thread 0 true) ?_ hpublish ⟨rfl, rfl⟩
    (fun a ha => List.eq_of_mem_replicate ha) hs
  rintro s a t ⟨hros, hst⟩ rfl hstep
  refine ⟨calm_thread hros hst 0 true, ?_⟩
  rcases pubStep_cases (a := .thread 0 true) hstep with ⟨msg, h, -⟩ | ⟨h, -⟩ | ⟨i, ok, c, -, -, rfl⟩
  · cases h
  · cases h
  · exact ⟨hros, hst⟩

/-- A second call between the flag reset and the read: transmitted twice. -/
def twiceTrace : List PubAct :=
  [.thread 0 true, .publish (some (str "a")), .thread 0 true, .thread 0 true,
    .publish (some (str "b"))] ++ List.replicate 10 (.thread 0 true)

/-- A stop while the thread waits: the placeholder is transmitted. -/
def phantomTrace : List PubAct :=
  List.replicate 3 (.thread 0 true) ++ .stop :: List.replicate 5 (.thread 0 true)

/-- Both happen, the first one on a running node, the second one although nothing
was ever published. -/
theorem noPhantom_broken :
    (∃ s, Reachable pubSystem s ∧ s.rosOk = true ∧ ¬ NoPhantom s) ∧
      ∃ s, Reachable pubSystem s ∧ s.history = [] ∧ ¬ NoPhantom s := by
  constructor
  · obtain ⟨s, hs⟩ : ∃ s, exec pubSystem talker twiceTrace = some s :=
      Option.isSome_iff_exists.mp (by decide)
    have hview : (exec pubSystem talker twiceTrace).map (fun s => (s.rosOk, (s.conn 0).sent)) =
        some (true, [⟨some 1, some (str "b")⟩, ⟨some 1, some (str "b")⟩]) := by decide
    simp only [hs, Option.map_some, Option.some.injEq, Prod.mk.injEq] at hview
    refine ⟨s, Reachable.exec talker_init hs, hview.1, fun h => ?_⟩
    have := (h 0).2
    rw [hview.2] at this
    simp at this
  · obtain ⟨s, hs⟩ : ∃ s, exec pubSystem talker phantomTrace = some s :=
      Option.isSome_iff_exists.mp (by decide)
    have hview : (exec pubSystem talker phantomTrace).map (fun s => (s.history, (s.conn 0).sent)) =
        some ([], [placeholder]) := by decide
    simp only [hs, Option.map_some, Option.some.injEq, Prod.mk.injEq] at hview
    refine ⟨s, Reachable.exec talker_init hs, hview.1, fun h => ?_⟩
    have := (h 0).1
    rw [hview.1, hview.2] at this
    simp at this

end STRos
