import RemoteInspector.Log.Entry
import RemoteInspector.Session.Resolution
import RemoteInspector.Text.Quoted
import RemoteInspector.Value.Facts

/-!
Nodes of the variable tree: a name with what is known about its value, how far that is resolved, and
the view that is shown. A view lists children by their numbers in the session.
-/

namespace RemoteInspector

abbrev NodeId := Nat

abbrev FrameId := Nat

/-- A value as it is shown. -/
inductive View where
  | scalar (type : ValueType) (text : String)
  | object (type : ValueType) (className : Option String) (children : List NodeId)
  | array (className : Option String) (children : List NodeId)
  deriving DecidableEq, Inhabited, Repr

namespace View

def valueType : View → ValueType
  | .scalar t _ => t
  | .object t _ _ => t
  | .array _ _ => .array

def text? : View → Option String
  | .scalar _ text => some text
  | _ => none

def className? : View → Option String
  | .scalar _ _ => none
  | .object _ c _ => c
  | .array c _ => c

def children : View → List NodeId
  | .scalar _ _ => []
  | .object _ _ children => children
  | .array _ children => children

end View

inductive Owner where
  | frame (id : FrameId)
  | node (id : NodeId)
  deriving DecidableEq, Inhabited, Repr

def isIndex (name : String) : Bool :=
  !name.isEmpty && name.toList.all Char.isDigit

/-- Entries of property lists that are not shown: those without a name and the machine's own. -/
def isHidden (name : String) : Bool :=
  name.isEmpty || name.toList.head? == some '.'

/-- A named value in a suspended frame. -/
structure Node where
  name : String
  /-- The way from the frame to the value. -/
  path : String
  /-- The generation of the cache that the node belongs to. -/
  generation : Nat
  owner : Owner
  facts : Facts
  resolution : Resolution := .unresolved
  /-- The next payload must not bring its properties. -/
  shallow : Bool
  view : Option View := none
  deriving DecidableEq, Inhabited, Repr

namespace Node

def new (name path : String) (generation : Nat) (owner : Owner) (handle : Option Handle)
    (shallow : Bool) : Node :=
  { name := name, path := path, generation := generation, owner := owner,
    facts := { name := name, handle := handle }, shallow := shallow }

def displayName (n : Node) : String :=
  if isIndex n.name then "[" ++ n.name ++ "]" else n.name

def childPath (n : Node) (name : String) : String :=
  if isIndex name then n.path ++ "[" ++ name ++ "]" else n.path ++ "." ++ name

/-- The view, unless nothing is known yet or retrieval has failed. -/
def shown (n : Node) : Option View :=
  match n.resolution with
  | .unresolved | .failed => none
  | .pending | .resolved => n.view

/-- The children, whether or not the view is shown. -/
def children (n : Node) : List NodeId := (n.view.map View.children).getD []

/-- An event happens to the node; one that does not apply changes nothing. -/
def record (n : Node) (e : Resolution.Event) : Logged Node :=
  match n.resolution.on e with
  | some next => do
    Logged.note .trace Log.resolve "node transition"
    pure { n with resolution := next }
  | none => pure n

/-- Applies the node's own payload. A scalar is resolved by it; settled nodes ignore it. -/
def fill (n : Node) (p : Payload) : Logged Node :=
  if n.resolution.isFinal then do
    Logged.note .trace Log.resolve "ignoring payload for settled node"
    pure n
  else
    let facts := n.facts.fill p (!n.shallow)
    let n := { n with facts := facts, shallow := false }
    if facts.isCompound then pure n
    else
      let view := View.scalar (facts.valueType.getD .unknown) (facts.text.getD "")
      { n with view := some view }.record .filled

def compoundView (n : Node) (children : List NodeId) : View :=
  match n.facts.valueType with
  | some .array => .array n.facts.className children
  | t => .object (t.getD .object) n.facts.className children

/-- A payload says enough of a binding to show it at once. -/
def isDescribed (p : Payload) : Bool :=
  p.isError || p.valueType?.any fun t => t.isCompound || p.text.isSome

def ofBinding (generation : Nat) (owner : Owner) (name : String) (p : Payload) : Logged Node :=
  let n := new name name generation owner p.handle false
  if isDescribed p then n.fill p else pure n

/-- Whether an expansion can begin: the value is compound, or of unknown type with a handle. -/
def isExpandable (n : Node) : Bool :=
  match n.facts.valueType with
  | some t => t.isCompound
  | none => n.facts.handle.isSome

def debugText (n : Node) : String :=
  let type := match n.facts.valueType with
    | some t => "Some(" ++ t.title ++ ")"
    | none => "None"
  "Variable \x7b fqn: " ++ Text.quote n.path ++ ", type: " ++ type ++ ", resolution: " ++
    n.resolution.title ++ " \x7d"

end Node

end RemoteInspector
