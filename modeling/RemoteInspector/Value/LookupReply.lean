import RemoteInspector.Value.Payload
import RemoteInspector.Wire.Envelope

/-!
Replies to lookups: a table from handles to payloads, read off the body of a successful response.
The body names each entry by its handle in digits; names are visited in ascending order, so of two
spellings of one handle the greater decides.
-/

namespace RemoteInspector

structure LookupReply where
  success : Bool
  message : Option String
  payloads : List (Handle × Payload)

namespace LookupReply

/-- An entry of the body, if its name is a handle and its value an object. The payload takes the
handle of its name where it has none. -/
def entry? (name : String) (value : Json) : Option (Handle × Payload) := do
  let handle ← (Text.readUInt64 name).toOption
  let payload ← Payload.ofJson? value
  pure (handle, { payload with handle := some (payload.handle.getD handle) })

def put (handle : Handle) (payload : Payload) :
    List (Handle × Payload) → List (Handle × Payload)
  | [] => [(handle, payload)]
  | (h, p) :: rest =>
    if handle < h then (handle, payload) :: (h, p) :: rest
    else if handle = h then (handle, payload) :: rest
    else (h, p) :: put handle payload rest

theorem lookup_put (h k : Handle) (p : Payload) (table : List (Handle × Payload)) :
    (put h p table).lookup k = if k = h then some p else table.lookup k := by
  induction table with
  | nil => grind [put]
  | cons x table ih => grind [put]

def ofBody : Option Json → List (Handle × Payload)
  | some (.object members) =>
    (members.filterMap fun (name, value) => entry? name value).foldl
      (fun table (handle, payload) => put handle payload table) []
  | _ => []

def ofEnvelope (e : Envelope) : LookupReply :=
  if e.isSuccessful then ⟨true, none, ofBody e.body⟩ else ⟨false, e.message, []⟩

def get? (r : LookupReply) (handle : Handle) : Option Payload := r.payloads.lookup handle

end LookupReply

end RemoteInspector
