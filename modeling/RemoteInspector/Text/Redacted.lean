/-!
Messages without the quoted values they show. Two readings of a message are in use.
`redactPaired` takes the double quotes two by two, whatever stands between them. `redactLiterals`
takes a quote as the start of a quoted text in which a backslash protects the next character.
-/

namespace RemoteInspector.Text

def redactedMark : List Char :=
  "<redacted>".toList

mutual

/-- Replaces what stands between each odd double quote and the next; an unpaired last quote keeps
what follows it. -/
def redactPaired : List Char → List Char
  | [] => []
  | c :: cs => if c = '"' then c :: redactOpened [] cs else c :: redactPaired cs

/-- The part after an odd quote, with the characters seen since then in reverse. -/
def redactOpened (seen : List Char) : List Char → List Char
  | [] => seen.reverse
  | c :: cs =>
    if c = '"' then redactedMark ++ '"' :: redactPaired cs else redactOpened (c :: seen) cs

end

mutual

/-- Replaces every quoted text, its escapes included; a text that is not closed reaches to the
end. -/
def redactLiterals : List Char → List Char
  | [] => []
  | c :: cs =>
    if c = '"' then '"' :: (redactedMark ++ '"' :: dropLiteral false cs) else c :: redactLiterals cs

/-- Drops the rest of a quoted text; `escaped` tells that the next character is protected. -/
def dropLiteral (escaped : Bool) : List Char → List Char
  | [] => []
  | c :: cs =>
    if escaped then dropLiteral false cs
    else if c = '\\' then dropLiteral true cs
    else if c = '"' then redactLiterals cs
    else dropLiteral false cs

end

def redactPairedText (s : String) : String :=
  String.ofList (redactPaired s.toList)

def redactLiteralsText (s : String) : String :=
  String.ofList (redactLiterals s.toList)

end RemoteInspector.Text
