import RemoteInspector.Value.Payload
import RemoteInspector.Log.Entry

/-!
The payloads last reported for each handle. Handles mean something within one suspension only, so
the cache has a generation: to invalidate it drops every entry and begins the next generation, and
what was captured under an earlier one is refused.
-/

namespace RemoteInspector

/-- Payloads by handle within one generation. -/
structure Cache where
  /-- Counted in 64 bits by the one who asks, which comes to the same for fewer than `2 ^ 64`
  suspensions. -/
  generation : Nat := 0
  entries : List (Handle × Payload) := []
  deriving DecidableEq, Inhabited, Repr

namespace Cache

def get? (c : Cache) (handle : Handle) : Option Payload := c.entries.lookup handle

def contains (c : Cache) (handle : Handle) : Bool := (c.get? handle).isSome

def setEntry (handle : Handle) (payload : Payload) :
    List (Handle × Payload) → List (Handle × Payload)
  | [] => [(handle, payload)]
  | (h, p) :: rest =>
    if h = handle then (handle, payload) :: rest else (h, p) :: setEntry handle payload rest

theorem lookup_setEntry (h k : Handle) (p : Payload) (es : List (Handle × Payload)) :
    (setEntry h p es).lookup k = if k = h then some p else es.lookup k := by
  induction es with
  | nil => grind [setEntry]
  | cons x es ih => grind [setEntry]

def put (c : Cache) (handle : Handle) (payload : Payload) : Cache :=
  { c with entries := setEntry handle payload c.entries }

@[simp] theorem get?_put (c : Cache) (h k : Handle) (p : Payload) :
    (c.put h p).get? k = if k = h then some p else c.get? k :=
  lookup_setEntry h k p c.entries

@[simp] theorem generation_put (c : Cache) (h : Handle) (p : Payload) :
    (c.put h p).generation = c.generation := rfl

/-- Stores a payload if `generation` is still the current one. -/
def putIf? (c : Cache) (generation : Nat) (handle : Handle) (payload : Payload) : Option Cache :=
  if c.generation = generation then some (c.put handle payload) else none

/-- Stores all payloads that have a handle, if `generation` is still the current one, and counts
them. -/
def seed (c : Cache) (generation : Nat) (payloads : List Payload) : Cache × Nat :=
  if c.generation = generation then
    payloads.foldl
      (fun (c, n) p =>
        match p.handle with
        | some h => (c.put h p, n + 1)
        | none => (c, n))
      (c, 0)
  else (c, 0)

def invalidate (c : Cache) : Logged Cache := do
  Logged.note .debug Log.session "handle cache invalidated"
  pure ⟨c.generation + 1, []⟩

@[simp] theorem get?_invalidate (c : Cache) (h : Handle) : c.invalidate.value.get? h = none := rfl

@[simp] theorem generation_invalidate (c : Cache) :
    c.invalidate.value.generation = c.generation + 1 := rfl

def size (c : Cache) : Nat := c.entries.length

end Cache

end RemoteInspector
