/-!
# The log

The events that serving leaves behind, in the order in which they happen.
-/
namespace FirstRow

/-- How much an event matters. -/
inductive Level where
  | debug
  | info
  | error
deriving DecidableEq

/-- The name of a level. -/
def Level.name : Level → String
  | .debug => "DEBUG"
  | .info => "INFO"
  | .error => "ERROR"

/-- An event of the log. -/
structure Event where
  level : Level
  text : String
deriving DecidableEq

end FirstRow
