import RemoteInspector.Wire.Envelope

/-!
How a request ends: with a response, or with a fault of the channel. A completion stands for the
one who waits; it takes exactly one outcome, and one that is given up takes a fault of its own.
-/

namespace RemoteInspector

inductive ChannelFault where
  | closed
  | timeout
  | undispatched (reason : String)
  | dropped
  deriving DecidableEq, Repr, Inhabited

def ChannelFault.message : ChannelFault → String
  | .closed => "connection closed"
  | .timeout => "timed out waiting for reply"
  | .undispatched reason => "message could not be dispatched: " ++ reason
  | .dropped => "request was dropped without a reply"

abbrev Outcome := Except ChannelFault Envelope

inductive SendMode where
  | sync
  | async
  deriving DecidableEq, Repr, Inhabited

def SendMode.title : SendMode → String
  | .sync => "Sync"
  | .async => "Async"

structure Completion where
  waiting : Bool := true
  deriving DecidableEq, Repr, Inhabited

namespace Completion

/-- Ends the wait; the outcome reaches the one who waits only the first time. -/
def complete (c : Completion) (o : Outcome) : Option Outcome × Completion :=
  (if c.waiting then some o else none, ⟨false⟩)

def drop (c : Completion) : Option Outcome := if c.waiting then some (.error .dropped) else none

/-- The outcomes of a completion that is completed with `o`, if at all, and then given up. -/
def outcomes (c : Completion) (o : Option Outcome) : List Outcome :=
  match o with
  | none => c.drop.toList
  | some o =>
    let (fired, c) := c.complete o
    fired.toList ++ c.drop.toList

def debugText (c : Completion) : String :=
  "Terminal \x7b pending: " ++ (if c.waiting then "true" else "false") ++ " \x7d"

end Completion

end RemoteInspector
