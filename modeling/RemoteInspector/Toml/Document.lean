import RemoteInspector.Toml.Value

/-!
Documents. A document is read line by line: a header opens a table, a pair sets a key of the table
that is open. A table is put in its place when the next header comes or the text ends.
-/

namespace RemoteInspector.Toml

open Reader

/-- What the pairs of the current part belong to. -/
inductive Heading where
  | document
  | table (path : List String)
  | element (path : List String)
  deriving DecidableEq, Repr

def Heading.path : Heading → List String
  | .document => []
  | .table path | .element path => path

/-- A document of which a part has been read. -/
structure Draft where
  root : Entries := []
  heading : Heading := .document
  /-- The open table. -/
  entries : Entries := []

namespace Draft

/-- Splits the path of a header into the way to its table and the key of that. -/
def lastKey (path : List String) : List String × String :=
  (path.dropLast, path.getLast?.getD "")

def taken (path : List String) : Objection :=
  .repeatedIn (keyText (lastKey path).2) (lastKey path).1

def close (d : Draft) : Except Objection Entries :=
  match d.heading with
  | .document => .ok d.entries
  | .table path =>
    let (way, key) := lastKey path
    Entries.along .header (fun _ es =>
      if (es.get? key).isSome then .error (taken path)
      else .ok (es.set key (.table .headed d.entries))) [] way .headed d.root
  | .element path =>
    let (way, key) := lastKey path
    Entries.along .header (fun _ es =>
      match es.get? key with
      | none => .ok (es.set key (.tables [d.entries]))
      | some (.tables all) => .ok (es.set key (.tables (all ++ [d.entries])))
      | some _ => .error (taken path)) [] way .headed d.root

/-- The table that a longer header has made at a path, if any. -/
def implied? (path : List String) (root : Entries) : Entries :=
  match path with
  | [] => []
  | [key] =>
    match root.get? key with
    | some (.table _ es) => es
    | _ => []
  | key :: path =>
    match root.get? key with
    | some (.table _ es) => implied? path es
    | some (.tables all) => implied? path (all.getLast?.getD [])
    | _ => []

/-- Opens a table. One that a longer header has made goes on with what it holds; any other of the
same name is in the way. -/
def openTable (d : Draft) (path : List String) : Except Objection Draft := do
  let root ← d.close
  let (way, key) := lastKey path
  let cleared ← Entries.along .header (fun _ es =>
    match es.get? key with
    | none => .ok es
    | some (.table .implied _) => .ok (es.remove key)
    | some _ => .error (taken path)) [] way .headed root
  return { root := cleared, heading := .table path, entries := implied? path root }

def openElement (d : Draft) (path : List String) : Except Objection Draft := do
  let root ← d.close
  let (way, key) := lastKey path
  let root ← Entries.along .header (fun _ es =>
    match es.get? key with
    | none | some (.tables _) => .ok es
    | some _ => .error (taken path)) [] way .headed root
  return { root, heading := .element path }

def set (d : Draft) (keys : List String) (v : Item) : Except Objection Draft := do
  let (path, key) := lastKey keys
  let again (key : String) : Objection := .repeatedIn key d.heading.path
  let entries ← d.entries.addAt .dottedKey again path key v .headed
  return { d with entries }

end Draft

/-- Fails with the objection to a change, if there is one. -/
def accept (r : Except Objection Draft) : Reader Draft :=
  match r with
  | .ok d => pure d
  | .error o => object o

def tableHeader : Reader (List String) := do
  let _ ← char '['
  let path ← firmly dottedKey
  let _ ← seeking (.text "]") (seeking (.char '.') (firmly (char ']')))
  firmly endOfContent
  return path

def elementHeader : Reader (List String) := do
  word ['[', '[']
  let path ← firmly dottedKey
  seeking (.text "]]") (seeking (.char '.') (firmly (word [']', ']'])))
  firmly endOfContent
  return path

def header (d : Draft) : Reader Draft :=
  naming "table header" do
    match ← get with
    | [] | [_] => throw {}
    | '[' :: '[' :: _ => accept (d.openElement (← elementHeader))
    | _ => accept (d.openTable (← tableHeader))

def pair (d : Draft) : Reader Draft := do
  let keys ← dottedKey
  let v ← firmly do
    equals
    spaces
    let v ← value (depthLimit - 1)
    endOfContent
    return v
  accept (d.set keys v)

def line (d : Draft) : Reader Draft := do
  let d ← match (← get).head? with
    | none => throw {}
    | some '#' => do firmly (do comment; lineEnd); pure d
    | some '[' => firmly (header d)
    | some '\n' | some '\r' => do newline; pure d
    | some _ => firmly (pair d)
  spaces
  return d

def lines : (count : Nat) → Draft → Reader Draft
  | 0, d => pure d
  | count + 1, d => do
    match ← optional (line d) with
    | none => return d
    | some d => lines count d

def document : Reader Entries := do
  let _ ← optional (char '\uFEFF')
  spaces
  let d ← lines (← get).length {}
  finish
  match d.close with
  | .ok es => return es
  | .error o => object o

def parse (s : String) : Except Fault Entries :=
  document.run' s.toList

end RemoteInspector.Toml
