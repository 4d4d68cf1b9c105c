import RemoteInspector.Session.Debugger

/-!
The report of a call stack: a line for each frame, and under it a line for each variable, indented
by its depth in the tree. Above the depth where the report is cut off, nodes are expanded as they
are reached.
-/

namespace RemoteInspector

namespace Report

def summary (n : Node) : String :=
  match n.shown with
  | some (.scalar t text) => t.name ++ " " ++ text
  | some v => v.className?.getD v.valueType.name
  | none =>
    if n.resolution = .failed then "<unavailable>"
    else ((n.facts.className).or (n.facts.valueType.map (·.name))).getD "?"

def line (indent : Nat) (n : Node) : String :=
  String.ofList (List.replicate (indent * 2) ' ') ++ n.displayName ++ ": " ++ summary n ++ "\n"

def each (one : NodeId → Debugger → Logged (String × Debugger)) :
    List NodeId → String → Debugger → Logged (String × Debugger)
  | [], out, d => pure (out, d)
  | id :: ids, out, d => do
    let (text, d) ← one id d
    each one ids (out ++ text) d

/-- The report on a node and on what lies at most `depth` levels below it. -/
def node : (depth : Nat) → (indent : Nat) → NodeId → Debugger → Logged (String × Debugger)
  | 0, indent, id, d => pure (((d.session.node? id).map (line indent)).getD "", d)
  | depth + 1, indent, id, d => do
    let d ← d.expand id
    match d.session.node? id with
    | none => pure ("", d)
    | some n =>
      d.holding n.children fun d =>
        each (node depth (indent + 1)) n.children (line indent n) d

def lineSuffix : Option UInt32 → String
  | none => ""
  | some n => ":" ++ toString (min (n.toNat + 1) (UInt32.size - 1))

def frameLine (f : CallFrame) : String :=
  "#" ++ toString f.index.toNat ++ " " ++ f.function ++ lineSuffix f.line ++ "\n"

def frames (depth : Nat) :
    List FrameId → String → Debugger → Logged (Except SessionError String × Debugger)
  | [], out, d => pure (.ok out, d)
  | id :: ids, out, d => do
    match ← d.ensureVariables id with
    | .error e => pure (.error e, d)
    | .ok d =>
      match d.session.callFrame? id with
      | none => frames depth ids out d
      | some f => do
        let (out, d) ← each (node depth 1) f.roots (out ++ frameLine f) d
        frames depth ids out d

end Report

end RemoteInspector
