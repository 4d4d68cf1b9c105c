import RemoteInspector.Number.Binary64

/-!
What a TOML document holds. A table remembers how it came about, because that decides what may
still be added to it.
-/

namespace RemoteInspector.Toml

/-- How a table came about. -/
inductive TableForm where
  /-- Written between braces. -/
  | inline
  /-- Made by a dotted key between braces. -/
  | inlineDotted
  /-- Opened by a header of its own. -/
  | headed
  /-- Made by a longer header. -/
  | implied
  /-- Made by a dotted key. -/
  | dotted
  deriving DecidableEq, Repr, Inhabited

inductive Item where
  | string (s : String)
  | integer (n : Int)
  | real (x : Binary64)
  | boolean (b : Bool)
  /-- A date, a time or both. -/
  | moment
  | array (items : List Item)
  | table (form : TableForm) (entries : List (String × Item))
  | tables (all : List (List (String × Item)))

instance : Inhabited Item := ⟨.moment⟩

abbrev Entries := List (String × Item)

namespace Item

/-! ### Equality

It cannot be derived, since values stand in lists inside of values. -/

mutual

def same : Item → Item → Bool
  | .string a, .string b => a == b
  | .integer a, .integer b => a == b
  | .real a, .real b => a == b
  | .boolean a, .boolean b => a == b
  | .moment, .moment => true
  | .array vs, .array ws => sameItems vs ws
  | .table form vs, .table form' ws => form == form' && sameEntries vs ws
  | .tables vs, .tables ws => sameTables vs ws
  | _, _ => false

def sameItems : List Item → List Item → Bool
  | [], [] => true
  | v :: vs, w :: ws => same v w && sameItems vs ws
  | _, _ => false

def sameEntries : Entries → Entries → Bool
  | [], [] => true
  | (k, v) :: vs, (l, w) :: ws => k == l && same v w && sameEntries vs ws
  | _, _ => false

def sameTables : List Entries → List Entries → Bool
  | [], [] => true
  | v :: vs, w :: ws => sameEntries v w && sameTables vs ws
  | _, _ => false

end

mutual

theorem same_iff : (v w : Item) → (same v w = true ↔ v = w)
  | .array vs, w => by cases w <;> simp [same, sameItems_iff vs]
  | .table _ vs, w => by cases w <;> simp [same, sameEntries_iff vs]
  | .tables vs, w => by cases w <;> simp [same, sameTables_iff vs]
  | .string _, w => by cases w <;> simp [same]
  | .integer _, w => by cases w <;> simp [same]
  | .real _, w => by cases w <;> simp [same]
  | .boolean _, w => by cases w <;> simp [same]
  | .moment, w => by cases w <;> simp [same]

theorem sameItems_iff : (vs ws : List Item) → (sameItems vs ws = true ↔ vs = ws)
  | [], ws => by cases ws <;> simp [sameItems]
  | v :: vs, ws => by cases ws <;> simp [sameItems, same_iff v, sameItems_iff vs]

theorem sameEntries_iff : (vs ws : Entries) → (sameEntries vs ws = true ↔ vs = ws)
  | [], ws => by cases ws <;> simp [sameEntries]
  | (_, _) :: _, [] => by simp [sameEntries]
  | (_, v) :: vs, (_, _) :: _ => by simp [sameEntries, same_iff v, sameEntries_iff vs]

theorem sameTables_iff : (vs ws : List Entries) → (sameTables vs ws = true ↔ vs = ws)
  | [], ws => by cases ws <;> simp [sameTables]
  | v :: vs, ws => by cases ws <;> simp [sameTables, sameEntries_iff v, sameTables_iff vs]

end

instance : DecidableEq Item := fun v w => decidable_of_iff _ (same_iff v w)

end Item

def Item.kind : Item → String
  | .string _ => "string"
  | .integer _ => "integer"
  | .real _ => "float"
  | .boolean _ => "boolean"
  | .moment => "datetime"
  | .array _ => "array"
  | .table .inline _ | .table .inlineDotted _ => "inline table"
  | .table _ _ => "table"
  | .tables _ => "array of tables"

end RemoteInspector.Toml
