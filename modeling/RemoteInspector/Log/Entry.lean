/-!
Log entries: a level, the part of the program that speaks, and a message. `Logged` is a value
together with the entries that were made on the way to it.
-/

namespace RemoteInspector

inductive Log.Level where
  | error
  | warn
  | info
  | debug
  | trace
  deriving DecidableEq, Repr, Inhabited

namespace Log

def Level.title : Level → String
  | .error => "ERROR"
  | .warn => "WARN"
  | .info => "INFO"
  | .debug => "DEBUG"
  | .trace => "TRACE"

structure Entry where
  level : Level
  target : String
  message : String
  deriving DecidableEq, Repr, Inhabited

def wire : String := "jsmirror.wire"
def resolve : String := "jsmirror.resolve"
def session : String := "jsmirror.session"
def config : String := "jsmirror.config"

end Log

/-- A value and the entries made on the way to it. -/
structure Logged (α : Type) where
  value : α
  entries : List Log.Entry := []

namespace Logged

/-- Entries follow one another. -/
instance : Monad Logged where
  pure a := ⟨a, []⟩
  bind m f := ⟨(f m.value).value, m.entries ++ (f m.value).entries⟩

def note (level : Log.Level) (target message : String) : Logged Unit :=
  ⟨(), [⟨level, target, message⟩]⟩

variable {α β : Type}

@[simp] theorem value_pure (a : α) : (pure a : Logged α).value = a := rfl

@[simp] theorem value_bind (m : Logged α) (f : α → Logged β) :
    (m >>= f).value = (f m.value).value := rfl

@[simp] theorem value_note (level : Log.Level) (target message : String) :
    (note level target message).value = () := rfl

end Logged

end RemoteInspector
