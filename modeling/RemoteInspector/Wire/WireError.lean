/-!
Faults on the way between the debugger and the machine.
-/

namespace RemoteInspector

inductive StreamFault where
  | unexpectedEnd
  | invalidData
  | refused
  | notFound
  deriving DecidableEq, Repr

/-- A fault of the connection or of what came over it. -/
inductive WireError where
  | stream (fault : StreamFault) (text : String)
  | json (text : String)
  | protocol (text : String)
  | closed
  | timeout
  | cancelled
  | tooLarge (size limit : Nat)
  deriving DecidableEq, Repr

def WireError.message : WireError → String
  | .stream _ text => text
  | .json text => "json error: " ++ text
  | .protocol text => "V8 protocol error: " ++ text
  | .closed => "connection closed"
  | .timeout => "timed out waiting for VM"
  | .cancelled => "request cancelled"
  | .tooLarge size limit =>
    "message of " ++ toString size ++ " bytes exceeds maximum allowed size " ++ toString limit

end RemoteInspector
