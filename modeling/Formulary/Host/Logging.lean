import Formulary.Text.Basic

/-!
# Logging

Messages go to a logger, which hands them on as they are, puts a tag before them, or drops them.

- `Logger.write` gives the lines that a message leaves.
- `Component.logger` is the logger of a component: the one given, or a tagged one of its own.
-/

namespace Formulary

/-- How serious a message is. -/
inductive LogLevel where
  | log
  | warn
  | error
  deriving DecidableEq, Repr

/-- A message that came through. -/
structure LogLine where
  /-- How serious it is. -/
  level : LogLevel
  /-- Its text. -/
  text : Text
  deriving DecidableEq, Repr

/-- What becomes of messages. -/
inductive Logger where
  /-- They are handed on as they are. -/
  | plain
  /-- They are handed on behind a tag. -/
  | tagged (tag : Text)
  /-- They are dropped. -/
  | silent
  deriving DecidableEq, Repr

/-- The lines that a message leaves. -/
def Logger.write (logger : Logger) (level : LogLevel) (message : Text) : List LogLine :=
  match logger with
  | .plain => [⟨level, message⟩]
  | .tagged tag => [⟨level, Text.concat ["[", tag, "] ", message]⟩]
  | .silent => []

/-- The parts of a host that log. -/
inductive Component where
  | registry
  | runner
  | library
  deriving DecidableEq, Repr

/-- The tag of a component. -/
def Component.tag : Component → Text
  | .registry => "FormulaRegistry"
  | .runner => "FormulaRunner"
  | .library => "FormulaLibrary"

/-- The logger of a component: the one given, or one with its own tag. -/
def Component.logger (component : Component) (given : Option Logger) : Logger :=
  given.getD (.tagged component.tag)

end Formulary
