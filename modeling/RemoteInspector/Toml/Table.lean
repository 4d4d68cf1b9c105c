import RemoteInspector.Toml.Fault
import RemoteInspector.Toml.Item

/-!
How tables grow. A path of keys leads from a table to another one; tables on the way that do not
exist yet are made, and what may be entered depends on what leads there.
-/

namespace RemoteInspector.Toml

inductive Route where
  /-- A header. -/
  | header
  /-- A dotted key of a table with a header, or of the document. -/
  | dottedKey
  /-- A dotted key between braces. -/
  | inlineKey
  deriving DecidableEq, Repr

def Route.made : Route → TableForm
  | .header => .implied
  | .dottedKey => .dotted
  | .inlineKey => .inlineDotted

/-- Whether the way leads on through a table: a header opens every table outside braces, a dotted
key only those that have no header or braces of their own. -/
def Route.enters : Route → TableForm → Bool
  | .header, .headed | .header, .implied | .header, .dotted => true
  | .dottedKey, .implied | .dottedKey, .dotted => true
  | .inlineKey, .inlineDotted => true
  | _, _ => false

/-- Whether a table that is not entered is a value in the way, and not a table set before. -/
def Route.blockedBy : Route → TableForm → Bool
  | .inlineKey, _ => false
  | _, .inline | _, .inlineDotted => true
  | _, _ => false

namespace Entries

def get? (es : Entries) (key : String) : Option Item := List.lookup key es

def set : Entries → String → Item → Entries
  | [], key, v => [(key, v)]
  | (k, w) :: es, key, v => if k = key then (k, v) :: es else (k, w) :: set es key v

theorem get?_set (es : Entries) (key k : String) (v : Item) :
    (es.set key v).get? k = if k = key then some v else es.get? k := by
  induction es with
  | nil => grind [set, get?]
  | cons x es ih => grind [set, get?]

def remove (es : Entries) (key : String) : Entries := es.filter fun (k, _) => k != key

/-- Changes the table at the end of a path; `passed` is the part of the path that lies behind.
A list of tables is entered at its last one. -/
def along (route : Route) (change : TableForm → Entries → Except Objection Entries)
    (passed : List String) : (path : List String) → TableForm → Entries → Except Objection Entries
  | [], form, es => change form es
  | key :: path, _, es =>
    match es.get? key with
    | none => do
      let inner ← along route change (passed ++ [key]) path route.made []
      return es.set key (.table route.made inner)
    | some (.table form inner) =>
      if route.enters form then do
        let inner ← along route change (passed ++ [key]) path form inner
        return es.set key (.table form inner)
      else if route.blockedBy form then
        .error (.notTable (passed ++ [key]) (Item.table form inner).kind)
      else .error (.repeated key)
    | some (.tables all) => do
      let inner ← along route change (passed ++ [key]) path .headed (all.getLast?.getD [])
      return es.set key (.tables (all.dropLast ++ [inner]))
    | some v => .error (.notTable (passed ++ [key]) v.kind)

/-- Sets a key at the end of a path; a key without a path belongs to a table that is not itself
made by a dotted key, and one with a path to a table that is. `again` is the objection to a key
that is set already. -/
def addAt (route : Route) (again : String → Objection) (path : List String) (key : String)
    (v : Item) (form : TableForm) (es : Entries) : Except Objection Entries :=
  along route (fun form es =>
    if (form == .dotted || form == .inlineDotted) == path.isEmpty then .error (.repeated key)
    else if (es.get? key).isSome then .error (again key)
    else .ok (es.set key v)) [] path form es

end Entries

end RemoteInspector.Toml
