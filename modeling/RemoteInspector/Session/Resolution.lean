/-!
The life of a variable within one suspension. An expansion begins only once; to be resolved or to
have failed is final.
-/

namespace RemoteInspector

inductive Resolution where
  /-- Nothing has been requested. Compound values stay so until they are expanded. -/
  | unresolved
  /-- A lookup is under way. -/
  | pending
  | resolved
  | failed
  deriving DecidableEq, Repr, Inhabited

namespace Resolution

inductive Event where
  | expand
  /-- Its own payload has made it a scalar. -/
  | filled
  /-- The lookup of its properties has been answered. -/
  | replied
  | failed
  deriving DecidableEq, Repr

def isFinal : Resolution → Bool
  | .resolved | .failed => true
  | _ => false

/-- The state after an event; `none` if the event does not apply. -/
def on : Resolution → Event → Option Resolution
  | .unresolved, .expand => some .pending
  | .unresolved, .filled => some .resolved
  | .pending, .filled => some .resolved
  | .pending, .replied => some .resolved
  | .unresolved, .failed => some .failed
  | .pending, .failed => some .failed
  | _, _ => none

/-- No event applies to a state that is final. -/
theorem on_eq_none_of_isFinal {r : Resolution} (h : r.isFinal) (e : Event) : r.on e = none := by
  cases r <;> cases e <;> simp_all [isFinal, on]

def title : Resolution → String
  | .unresolved => "Unresolved"
  | .pending => "Pending"
  | .resolved => "Resolved"
  | .failed => "Failed"

end Resolution

end RemoteInspector
