import Orus.Run.Result

/-! # Sessions

An editor hands programs to a session and asks for their results later. A program
can be cancelled as long as its result has not been asked for: it then stops at its
first check. A result that has been given stays the same.
-/

namespace Orus.Editor

open Run

structure Task where
  source : String
  mode : Name
  cancelled : Bool := false
  /-- The outcome, once it has been asked for. -/
  outcome : Option Outcome := none
  deriving Inhabited

structure Session where
  limits : Limits
  timestamp : Float
  tasks : Array Task := #[]

namespace Session

/-- A session, which needs at least one worker. -/
def start? (limits : Limits) (timestamp : Float) (workers : Int) : Option Session :=
  if 0 < workers then some { limits, timestamp } else none

def noWorkersMessage : String := "max_workers must be greater than 0"

/-- Hands in a program; its index is the old number of tasks. -/
def submit (s : Session) (source : String) (mode : Name) : Session :=
  { s with tasks := s.tasks.push { source, mode } }

def cancel (s : Session) (i : Nat) : Session :=
  { s with tasks := s.tasks.modify i fun t => { t with cancelled := true } }

def outcomeOf (s : Session) (t : Task) : Outcome :=
  match t.outcome with
  | some outcome => outcome
  | none =>
    let cancelAfter := if t.cancelled then some 0 else none
    simulate { limits := s.limits, timestamp := s.timestamp, cancelAfter } t.mode t.source

/-- The outcome of a task and the session that remembers it. -/
def result (s : Session) (i : Nat) : Option (Outcome × Session) :=
  s.tasks[i]?.map fun t =>
    let outcome := s.outcomeOf t
    (outcome, { s with tasks := s.tasks.modify i fun t => { t with outcome := some outcome } })

end Session

end Orus.Editor
