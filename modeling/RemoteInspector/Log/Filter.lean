import RemoteInspector.Log.Entry
import RemoteInspector.Text.Blank
import RemoteInspector.Text.Digits

/-!
Filters of log entries. A filter is written as directives with commas between them: a level, a
target with or without a level, or a target with a span in brackets. Of the directives that fit an
entry, the one with the longest target decides.
-/

namespace RemoteInspector.Log

/-- The least important level that is let through, if any is. -/
abbrev Threshold := Option Level

namespace Threshold

def names : List (String × Threshold) :=
  [("off", none), ("error", some .error), ("warn", some .warn), ("info", some .info),
    ("debug", some .debug), ("trace", some .trace)]

def name (t : Threshold) : String :=
  ((names.find? fun (_, u) => u == t).map (·.1)).getD ""

/-- Reads a threshold, by its number from zero on or by its name in any case. -/
def parse? (s : String) : Option Threshold :=
  let byNumber := match Text.readUInt64 s with
    | .ok n => names[n.toNat]?.map (·.2)
    | .error _ => none
  byNumber <|> names.lookup (Text.lowerAscii s)

def admits (t : Threshold) (level : Level) : Bool :=
  let rank (l : Level) : Nat := l.ctorIdx
  match t with
  | none => false
  | some least => rank level ≤ rank least

end Threshold

structure Directive where
  target : Option String := none
  span : Option String := none
  fields : List String := []
  threshold : Threshold := some .trace
  deriving DecidableEq, Repr, Inhabited

namespace Directive

def isPlain (d : Directive) : Bool := d.span.isNone && d.fields.isEmpty

/-- The directive may be decided without looking at spans. -/
def isStatic (d : Directive) : Bool := d.span.isNone && d.fields.all fun f => !f.contains '='

def sameScope (a b : Directive) : Bool :=
  a.target == b.target && a.span == b.span && a.fields == b.fields

def text (d : Directive) : String :=
  let fields := if d.fields.isEmpty then "" else "\x7b" ++ ",".intercalate d.fields ++ "\x7d"
  let scope := if d.isPlain then "" else "[" ++ d.span.getD "" ++ fields ++ "]"
  let whose := d.target.getD "" ++ scope
  if d.target.isNone && d.isPlain then Threshold.name d.threshold
  else whose ++ "=" ++ Threshold.name d.threshold

/-- How far a directive has been read; a number is where the current part begins. -/
inductive Stage where
  | start
  | name (begin_ : Nat)
  | span (begin_ : Nat)
  | field (begin_ : Nat)
  | fields
  | bracketed
  | threshold (begin_ : Nat)
  deriving DecidableEq, Repr

def isWordChar (c : Char) : Bool := c.isAlphanum || 128 ≤ c.toNat

def slice (whole : List Char) (first last : Nat) : String :=
  String.ofList ((whole.take last).drop first)

def fieldOf? (s : String) : Option String :=
  if s.isEmpty then none
  else some ("=".intercalate ((s.splitOn "=").take 2))

def step (whole : List Char) (i : Nat) (c : Char) : Stage → Directive → Option (Stage × Directive)
  | .start, d =>
    if c = '[' then some (.span (i + 1), d)
    else if isWordChar c || c == '-' || c == ':' || c == '_' then some (.name i, d)
    else none
  | .name b, d =>
    if c = '=' then some (.threshold (i + 1), { d with target := some (slice whole b i) })
    else if c = '[' then some (.span (i + 1), { d with target := some (slice whole b i) })
    else some (.name b, d)
  | .span b, d =>
    if c = ']' then some (.bracketed, { d with span := some (slice whole b i) })
    else if c = '\x7b' then
      let s := slice whole b i
      some (.field (i + 1), { d with span := if s.isEmpty then none else some s })
    else some (.span b, d)
  | .field b, d =>
    if c = '\x7d' then
      (fieldOf? (slice whole b i)).map fun f => (.fields, { d with fields := d.fields ++ [f] })
    else some (.field b, d)
  | .fields, d => if c = ']' then some (.bracketed, d) else none
  | .bracketed, d => if c = '=' then some (.threshold (i + 1), d) else none
  | .threshold b, d => some (.threshold b, d)

def run (whole : List Char) : List Char → (i : Nat) → Stage → Directive →
    Option (Stage × Directive)
  | [], _, stage, d => some (stage, d)
  | c :: cs, i, stage, d => do
    let (stage, d) ← step whole i c stage d
    run whole cs (i + 1) stage d

/-- What a directive comes to at its end. A name that is no threshold is a target, all of whose
entries are let through. -/
def finish? (whole : List Char) (stage : Stage) (d : Directive) : Option Directive :=
  match stage with
  | .name b =>
    let s := slice whole b whole.length
    match Threshold.parse? s with
    | some t => some { d with threshold := t }
    | none => some { d with target := some s }
  | .threshold b =>
    let s := slice whole b whole.length
    if s.isEmpty then some d else (Threshold.parse? s).map fun t => { d with threshold := t }
  | .bracketed => some d
  | _ => none

/-- Reads a directive. Blanks at its ends do not count for its form; positions found without them
are positions in the text with them. -/
def parse? (s : String) : Option Directive := do
  let (stage, d) ← run s.toList (Text.trim s).toList 0 .start {}
  finish? s.toList stage d

def listed? (s : String) : Option (List Directive) :=
  (((s.toList.splitOn ',').filter fun t => !t.isEmpty).map String.ofList).mapM parse?

end Directive

/-- Directives, each about other entries than the rest. -/
structure Filter where
  plain : List Directive := []
  /-- Directives about spans. -/
  inSpans : List Directive := []
  deriving DecidableEq, Repr, Inhabited

namespace Filter

def put (ds : List Directive) (d : Directive) : List Directive :=
  ds.filter (fun e => !e.sameScope d) ++ [d]

/-- Of directives about the same entries, the last one counts. -/
def ofDirectives (ds : List Directive) : Filter :=
  let inSpans := ds.filter fun d => !d.isPlain
  { plain := (ds.filter Directive.isPlain ++ inSpans.filter Directive.isStatic).foldl put [],
    inSpans := inSpans.foldl put [] }

def uniform (t : Threshold) : Filter := ofDirectives [{ threshold := t }]

/-- The filter of directives that have been read; where there are none, nothing is let through. -/
def ofListed : List Directive → Filter
  | [] => uniform none
  | ds => ofDirectives ds

/-- Reads a filter. -/
def parse? (s : String) : Option Filter := (Directive.listed? s).map ofListed

def texts (f : Filter) : List String := (f.plain ++ f.inSpans).map Directive.text

/-- Whether a directive is about the entries from a target: about those from every target that
begins with its own. -/
def fits (target : String) (d : Directive) : Bool :=
  d.fields.isEmpty && (d.target.getD "").toList.isPrefixOf target.toList

/-- The more specific of two directives, the first if they are equally so. -/
def narrower (a b : Directive) : Directive :=
  if (a.target.map String.length).getD 0 < (b.target.map String.length).getD 0 then b
  else if a.target.isNone && b.target.isSome then b
  else a

def admits (f : Filter) (e : Entry) : Bool :=
  match f.plain.filter (fits e.target) with
  | [] => false
  | d :: ds => (ds.foldl narrower d).threshold.admits e.level

end Filter

end RemoteInspector.Log
