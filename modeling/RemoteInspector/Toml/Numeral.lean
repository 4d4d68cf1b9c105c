import RemoteInspector.Number.Nearest
import RemoteInspector.Toml.Item
import RemoteInspector.Toml.Quoted

/-!
Numbers. Between two digits an underscore may stand. An integer has a sign and decimal digits, or
a base and digits of that base; a real number has a fraction or an exponent behind its decimal
digits, or it is a word.
-/

namespace RemoteInspector.Toml

open Reader

/-- One more digit of a number: an underscore must have a digit behind it. -/
def nextDigit (ok : Char → Bool) : Reader Char :=
  orElse (satisfying ok) do
    let _ ← char '_'
    seeking (.thing "digit") (firmly (satisfying ok))

def digits (ok : Char → Bool) : Reader (List Char) := do
  let d ← satisfying ok
  return d :: (← many (nextDigit ok))

def isSign (c : Char) : Bool := c == '+' || c == '-'

/-- A sign, if any, and decimal digits that start with a zero only if they end with it. -/
def wholePart : Reader (List Char × List Char) :=
  naming "integer" do
    let sign ← optional (satisfying isSign)
    let ds ← orElse
      (do let d ← satisfying fun c => c.isDigit && c != '0'; return d :: (← many (nextDigit Char.isDigit)))
      (do return [← satisfying Char.isDigit])
    return (sign.toList, ds)

def basedInteger (base : Nat) (construct : String) (mark : List Char) (ok : Char → Bool) :
    Reader Item := firmly do
  let ds ← naming construct do
    word mark
    firmly (digits ok)
  let n := numberOfDigits base ds
  if n < Text.int64Bound then return .integer n else object (.digits .tooLarge)

def integer : Reader Item := do
  match ← get with
  | '0' :: 'x' :: _ => basedInteger 16 "hexadecimal integer" ['0', 'x'] isHexDigit
  | '0' :: 'o' :: _ => basedInteger 8 "octal integer" ['0', 'o'] fun c => '0' ≤ c && c ≤ '7'
  | '0' :: 'b' :: _ => basedInteger 2 "binary integer" ['0', 'b'] fun c => c == '0' || c == '1'
  | _ =>
    let (sign, ds) ← wholePart
    match Text.readSigned Text.int64Bound (String.ofList (sign ++ ds)) with
    | .ok n => return .integer n
    | .error f => firmly (object (.digits f))

def fraction : Reader (List Char) := do
  let _ ← char '.'
  seeking (.thing "digit") (firmly (digits Char.isDigit))

def exponentPart : Reader Int := do
  let _ ← satisfying fun c => c == 'e' || c == 'E'
  let sign ← optional (satisfying isSign)
  let ds ← firmly (digits Char.isDigit)
  let n : Int := numberOfDigits 10 ds
  return if sign = some '-' then -n else n

/-- A real number in digits. One that is too great is refused; one that is too far below zero is
the negative infinity. -/
def realInDigits : Reader Binary64 := do
  let (sign, whole) ← wholePart
  let (part, exponent) ← orElse
    (do return ([], ← exponentPart))
    (do
      let part ← fraction
      return (part, (← optional exponentPart).getD 0))
  let x := Binary64.ofScientific (numberOfDigits 10 (whole ++ part)) (exponent - part.length)
  if sign = ['-'] then return x.negate
  else if x = Binary64.infinity then firmly (throw {})
  else return x

def infinityWord : Reader Binary64 := do
  word ['i', 'n', 'f']
  return Binary64.infinity

def nanWord : Reader Binary64 := do
  word ['n', 'a', 'n']
  return ⟨0x7FF8000000000000⟩

def realNumber : Reader Item :=
  naming "floating-point number" <| Item.real <$> orElse realInDigits do
    let sign ← optional (satisfying isSign)
    let x ← orElse infinityWord nanWord
    return if sign = some '-' then x.negate else x

end RemoteInspector.Toml
