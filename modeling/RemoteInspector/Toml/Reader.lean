import RemoteInspector.Toml.Fault

/-!
Readers of the front of a text. A reader takes characters away or fails; a failure that is not
firm leaves the text as it was for the reader that is tried instead.
-/

namespace RemoteInspector.Toml

abbrev Reader := StateT (List Char) (Except Fault)

namespace Reader

variable {α β : Type}

def object (o : Objection) : Reader α := throw { objection := some o }

def satisfying (p : Char → Bool) : Reader Char
  | [] => .error {}
  | c :: cs => if p c then .ok (c, cs) else .error {}

def char (c : Char) : Reader Char := satisfying (· == c)

def word : List Char → Reader Unit
  | [] => pure ()
  | c :: cs => do
    let _ ← char c
    word cs

def taking (p : Char → Bool) : Reader (List Char) := fun s => .ok (s.takeWhile p, s.dropWhile p)

def takingSome (p : Char → Bool) : Reader (List Char) := do
  let c ← satisfying p
  return c :: (← taking p)

/-- Makes every failure firm. -/
def firmly (r : Reader α) : Reader α := fun s =>
  match r s with
  | .ok x => .ok x
  | .error f => .error { f with firm := true }

def blaming (change : Fault → Fault) (r : Reader α) : Reader α := fun s =>
  match r s with
  | .ok x => .ok x
  | .error f => .error (change f)

/-- Names the construct, unless a part of it has been named already. -/
def naming (construct : String) : Reader α → Reader α :=
  blaming fun f => { f with construct := f.construct <|> some construct }

def seeking (x : Sought) : Reader α → Reader α :=
  blaming fun f => { f with sought := f.sought ++ [x] }

/-- Tries the second reader if the first fails without being firm. -/
def orElse (r : Reader α) (other : Reader α) : Reader α := fun s =>
  match r s with
  | .ok x => .ok x
  | .error f => if f.firm then .error f else other s

def optional (r : Reader α) : Reader (Option α) :=
  orElse (some <$> r) (pure none)

def ahead (r : Reader α) : Reader Unit := fun s =>
  match r s with
  | .ok _ => .ok ((), s)
  | .error f => .error f

def atMost (r : Reader α) : (count : Nat) → Reader (List α)
  | 0 => pure []
  | count + 1 => do
    match ← optional r with
    | none => return []
    | some a => return a :: (← atMost r count)

/-- All values in a row; each takes a character at least, so there are no more of them than
characters. -/
def many (r : Reader α) : Reader (List α) := do
  atMost r (← get).length

def oneOrMore (r : Reader α) : Reader (List α) := do
  let a ← r
  return a :: (← many r)

/-- Values with a mark between them; a mark that no value follows is not taken. -/
def separatedBy (mark : Char) (r : Reader α) : Reader (List α) := do
  let a ← r
  return a :: (← many (do let _ ← char mark; r))

def finish : Reader Unit
  | [] => .ok ((), [])
  | _ :: _ => .error {}

end Reader

end RemoteInspector.Toml
