import RemoteInspector.Json.Printer
import RemoteInspector.Log.Entry

/-!
Entries as lines: a JSON object, or the level, the target and the message.
-/

namespace RemoteInspector.Log

/-- An entry as one line of a log, as JSON or in plain text. -/
def Entry.line (json : Bool) (e : Entry) : String :=
  if json then
    Json.text (.object [("level", .string e.level.title),
      ("fields", .object [("message", .string e.message)]), ("target", .string e.target)])
  else
    let level := e.level.title
    String.ofList (List.replicate (5 - level.length) ' ') ++ level ++ " " ++ e.target ++ ": "
      ++ e.message

end RemoteInspector.Log
