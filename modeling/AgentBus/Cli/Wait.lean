import AgentBus.Cli.Commands

/-!
# The loop of `wait`

A wait outlives the daemon that it asked: an attempt that fails is made again a
second later, with the time that is left, and only when none is left is the last
error reported. The first attempt is made in any case.
-/

namespace AgentBus.Cli

open Lib

/-- What comes of connecting and of sending the request. -/
inductive Connecting where
  | unavailable
  /-- The request could not be written. -/
  | broken
  /-- What the daemon writes. -/
  | connected (ls : List Bytes)

/-- One round of the loop. -/
structure Attempt where
  /-- The monotonic clock at its start, in nanoseconds. -/
  now : Nat
  /-- Given the time limit in the request. -/
  connect : Nat → Connecting

def nanosPerSec : Nat := 1000000000

variable (F : Formats) (hF : F.Faithful) (out : Output) (pattern : String) (asId : Option String)

namespace Attempt

def remainingSecs (deadline : Nat) (a : Attempt) : Nat := (deadline - a.now) / nanosPerSec

def ask (deadline : Nat) (a : Attempt) : Except Error Protocol.Response :=
  match a.connect (a.remainingSecs deadline) with
  | .unavailable => .error .unavailable
  | .broken => .error .writing
  | .connected ls => (response F hF ls).1

end Attempt

/-- What the wait makes of the response to an attempt. -/
def concludeAttempt (deadline : Nat) (a : Attempt) (r : Protocol.Response) : Outcome :=
  conclude F out (.wait pattern asId (a.remainingSecs deadline)) r

/-- The rounds of the loop, given the error of the last one. -/
def waitFrom (deadline : Nat) : Option Error → List Attempt → Option Outcome
  | _, [] => none
  | last, a :: as =>
    match if deadline - a.now = 0 then last else none with
    | some e => some (.failed e)
    | none =>
      match a.ask F hF deadline with
      | .ok r => some (concludeAttempt F out pattern asId deadline a r)
      | .error e => waitFrom deadline (some e) as

def budgetSecs (timeoutSecs : Option Nat) : Nat :=
  min (timeoutSecs.getD defaultWaitTimeoutSecs) maxWaitTimeoutSecs

def deadline (timeoutSecs : Option Nat) (start : Nat) : Nat :=
  start + budgetSecs timeoutSecs * nanosPerSec

/-- A wait that begins at `start`, with the attempts it would make. It is not over as long as all of
them fail. -/
def wait (timeoutSecs : Option Nat) (start : Nat) (as : List Attempt) : Option Outcome :=
  waitFrom F hF out pattern asId (deadline timeoutSecs start) none as

section Steps

variable {F hF out pattern asId} {deadline : Nat} {last : Option Error} {a : Attempt}
  {as : List Attempt}

theorem waitFrom_over {e : Error} (h : deadline ≤ a.now) :
    waitFrom F hF out pattern asId deadline (some e) (a :: as) = some (.failed e) := by
  rw [waitFrom, if_pos (Nat.sub_eq_zero_of_le h)]

theorem waitFrom_asked (h : last = none ∨ a.now < deadline) :
    waitFrom F hF out pattern asId deadline last (a :: as) =
      match a.ask F hF deadline with
      | .ok r => some (concludeAttempt F out pattern asId deadline a r)
      | .error e => waitFrom F hF out pattern asId deadline (some e) as := by
  have hnone : (if deadline - a.now = 0 then last else none) = none := by
    rcases h with rfl | h
    · exact ite_self none
    · exact if_neg (Nat.sub_ne_zero_of_lt h)
  rw [waitFrom, hnone]

end Steps

end AgentBus.Cli
