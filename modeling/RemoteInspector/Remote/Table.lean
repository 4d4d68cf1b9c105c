import RemoteInspector.Value.Payload

/-!
Handles for objects that the machine names by texts. Each name gets a handle of its own when it is
first seen; values without a name get fresh handles from the upper half of the range. The names are
forgotten together, but no handle is given out twice.
-/

namespace RemoteInspector

/-- The handles given out for one machine. -/
structure ObjectTable where
  /-- The last handle that went to a name. -/
  lastNamed : Handle := 0
  /-- How many handles went to values without a name. -/
  unnamed : Handle := 0
  /-- The names in use with their handles, the latest first. -/
  entries : List (String × Handle) := []
  /-- The handles in use with their names, the latest first. -/
  names : List (Handle × String) := []
  deriving DecidableEq, Inhabited, Repr

namespace ObjectTable

/-- The handles above this one belong to values without a name. -/
def unnamedBase : Handle := 0x8000000000000000

def handle? (t : ObjectTable) (name : String) : Option Handle := t.entries.lookup name

def name? (t : ObjectTable) (handle : Handle) : Option String := t.names.lookup handle

def intern (t : ObjectTable) (name : String) : Handle × ObjectTable :=
  match t.handle? name with
  | some h => (h, t)
  | none =>
    let h := t.lastNamed + 1
    (h, { t with lastNamed := h, entries := (name, h) :: t.entries, names := (h, name) :: t.names })

def fresh (t : ObjectTable) : Handle × ObjectTable :=
  let n := t.unnamed + 1
  (unnamedBase + n, { t with unnamed := n })

def clear (t : ObjectTable) : ObjectTable := { t with entries := [], names := [] }

def size (t : ObjectTable) : Nat := t.entries.length

end ObjectTable

end RemoteInspector
