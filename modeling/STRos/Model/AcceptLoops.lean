import STRos.Lib.Transition
import STRos.Model.Topic

/-! # The accept loops

`xmlprc_run` and `publisher_listener` wait in `select` with a `struct timeval` that is set
in front of the loop. The call writes the time it did not sleep into it, and the same
timeval is given to the sockets that are accepted.
-/

namespace STRos

open Transition

structure Timeval where
  sec : Nat
  usec : Nat
  deriving DecidableEq, Repr

def Timeval.micros (t : Timeval) : Nat := 1000000 * t.sec + t.usec

def connTimeOutS : Nat := 3

/-- `timeout` in front of the loop. -/
def connTimeout : Timeval := ⟨connTimeOutS, 0⟩

/-- What `select` returns: a negative number, or whether the socket is in the set. -/
inductive Selected
  | error
  | idle
  | ready
  deriving DecidableEq, Repr

/-- The timevals Linux leaves: no more than was given, and nothing when the time is up. -/
def Selected.leaves (outcome : Selected) (timeout left : Timeval) : Prop :=
  left.usec < 1000000 ∧ left.micros ≤ timeout.micros ∧ (outcome = .idle → left.micros = 0)

instance (outcome : Selected) (timeout left : Timeval) : Decidable (outcome.leaves timeout left) :=
  inferInstanceAs (Decidable (_ ∧ _ ∧ _))

/-- What a thread needs of `socket_startup`, and the condition of its loop on `ros_ok` and
on the status of its publisher. -/
structure AcceptLoop where
  started : Int → Int → Bool
  goes : Bool → TopicStatus → Bool

def AcceptLoop.xmlprcRun : AcceptLoop where
  started sock _ := sock ≠ -1
  goes rosOk _ := rosOk

def AcceptLoop.publisherListener : AcceptLoop where
  started sock port := ¬ (sock = -1 ∨ port = 0)
  goes rosOk status := rosOk && status ≠ .down

inductive AcceptPc
  | startup
  | head
  | select
  | accept
  /-- The two calls of `setsockopt` for a client. -/
  | rcvTimeo (client : Int)
  | sndTimeo (client : Int)
  | create (client : Int)
  | returned
  deriving DecidableEq, Repr

/-- What a timeval was given to. -/
inductive Taker
  | select
  | rcvTimeo (client : Int)
  | sndTimeo (client : Int)
  deriving DecidableEq, Repr

structure AcceptState where
  pc : AcceptPc
  timeout : Timeval
  /-- The timevals that were passed, the latest first. -/
  passed : List (Taker × Timeval)

/-- What the thread gets from others: the results of its calls and the two flags. -/
inductive AcceptAct
  | startup (sock port : Int)
  | check (rosOk : Bool) (status : TopicStatus)
  | select (outcome : Selected) (left : Timeval)
  | accept (client : Int)
  /-- A call of `setsockopt` or `pthread_create`, whose result changes no more than what
  is printed. -/
  | call
  deriving DecidableEq, Repr

def Selected.next : Selected → AcceptPc
  | .error => .head
  | .idle => .head
  | .ready => .accept

def AcceptState.give (s : AcceptState) (taker : Taker) (pc : AcceptPc) : AcceptState :=
  { s with pc := pc, passed := (taker, s.timeout) :: s.passed }

def acceptStep (loop : AcceptLoop) (s : AcceptState) (a : AcceptAct) : Option AcceptState :=
  match s.pc, a with
  | .startup, .startup sock port =>
      some { s with pc := if loop.started sock port then .head else .returned }
  | .head, .check rosOk status =>
      some { s with pc := if loop.goes rosOk status then .select else .returned }
  | .select, .select outcome left =>
      if outcome.leaves s.timeout left then
        some { s.give .select outcome.next with timeout := left }
      else none
  | .accept, .accept client =>
      some { s with pc := if client = -1 then .head else .rcvTimeo client }
  | .rcvTimeo client, .call => some (s.give (.rcvTimeo client) (.sndTimeo client))
  | .sndTimeo client, .call => some (s.give (.sndTimeo client) (.create client))
  | .create _, .call => some { s with pc := .head }
  | _, _ => none

def AcceptInit (s : AcceptState) : Prop := s = ⟨.startup, connTimeout, []⟩

def acceptSystem (loop : AcceptLoop) : System AcceptState AcceptAct :=
  ⟨AcceptInit, acceptStep loop⟩

/-! ## What one step does -/

/-- A step passes the timeval it has, overwrites it in `select`, or does neither. -/
theorem acceptStep_cases {loop : AcceptLoop} {s t : AcceptState} {a : AcceptAct}
    (h : acceptStep loop s a = some t) :
    (∃ outcome left, s.pc = .select ∧ a = .select outcome left ∧
        outcome.leaves s.timeout left ∧
        t = { s.give .select outcome.next with timeout := left }) ∨
      (∃ taker pc, (∀ outcome left, a ≠ .select outcome left) ∧ t = s.give taker pc) ∨
      (∀ outcome left, a ≠ .select outcome left) ∧ ∃ pc, t = { s with pc := pc } := by
  unfold acceptStep at h
  split at h
  case h_3 outcome left hpc =>
    by_cases hleft : outcome.leaves s.timeout left
    · rw [if_pos hleft] at h
      exact Or.inl ⟨outcome, left, hpc, rfl, hleft, (Option.some.inj h).symm⟩
    · rw [if_neg hleft] at h
      cases h
  case h_5 => exact Or.inr (Or.inl ⟨_, _, by simp, (Option.some.inj h).symm⟩)
  case h_6 => exact Or.inr (Or.inl ⟨_, _, by simp, (Option.some.inj h).symm⟩)
  case h_8 => cases h
  all_goals exact Or.inr (Or.inr ⟨by simp, _, (Option.some.inj h).symm⟩)

end STRos
