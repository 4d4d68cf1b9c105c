import RemoteInspector.Log.Filter
import RemoteInspector.Settings.Basic

/-!
The filter that the settings and the environment ask for together. Directives of the environment
stand behind those of the settings, so they win. What cannot be read is left out as a whole.
-/

namespace RemoteInspector.Settings

/-- The levels that may be written in any case and with blanks around them. -/
def levelNames : List (String × String) :=
  [("trace", "trace"), ("debug", "debug"), ("info", "info"), ("warn", "warn"),
    ("warning", "warn"), ("error", "error")]

/-- The directives that a level stands for: none is `info`, and what is not the name of a level is
taken as it is, without the blanks around it. -/
def directivesOf (level : String) : String :=
  let s := Text.trim level
  if s.isEmpty then "info" else (levelNames.lookup (Text.lowerAscii s)).getD s

/-- The filter that the settings ask for; `info` if their directives cannot be read. -/
def Logging.ownFilter (g : Logging) : Log.Filter :=
  (Log.Filter.parse? (directivesOf g.level)).getD (.uniform (some .info))

def environmentDirectives (wish : Option String) : Option String :=
  (wish.map Text.trim).filter fun s => !s.isEmpty

/-- The filter in effect: that of the settings with that of the environment behind it, else that of
the environment, else that of the settings. -/
def Logging.filter (g : Logging) (wish : Option String) : Log.Filter :=
  match environmentDirectives wish with
  | none => g.ownFilter
  | some e =>
    ((Log.Filter.parse? (directivesOf g.level ++ "," ++ e)) <|> Log.Filter.parse? e).getD
      g.ownFilter

end RemoteInspector.Settings
