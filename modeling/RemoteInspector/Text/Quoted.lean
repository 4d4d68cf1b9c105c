import RemoteInspector.Text.Printable

/-!
A text between double quotes, as messages show it: quotes, backslashes and line breaks are escaped,
and so is every character that would not be visible on its own.
-/

namespace RemoteInspector.Text

def hexDigit (n : Nat) : Char :=
  if n < 10 then Char.ofNat ('0'.toNat + n) else Char.ofNat ('a'.toNat + (n - 10))

def hexDigits (n : Nat) : List Char :=
  (Nat.toDigits 16 n).map fun c => c.toLower

/-- A character by its number, as in `\u{7f}`. -/
def escapeByNumber (c : Char) : List Char :=
  ['\\', 'u', '\x7b'] ++ hexDigits c.toNat ++ ['\x7d']

def quoteChar (c : Char) : List Char :=
  if c = '\x00' then ['\\', '0']
  else if c = '\t' then ['\\', 't']
  else if c = '\r' then ['\\', 'r']
  else if c = '\n' then ['\\', 'n']
  else if c = '"' then ['\\', '"']
  else if c = '\\' then ['\\', '\\']
  else if isExtending c || !isVisible c then escapeByNumber c
  else [c]

def quoteChars (s : List Char) : List Char :=
  '"' :: (s.flatMap quoteChar ++ ['"'])

def quote (s : String) : String :=
  String.ofList (quoteChars s.toList)

end RemoteInspector.Text
