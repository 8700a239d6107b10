import FirstRow.Environment

/-!
# Settings

What the environment configures: where the store is, and which events are logged. The address that is served is
fixed.
-/
namespace FirstRow

/-- The settings of a server. A missing location is no error until a request needs it. -/
structure Settings where
  databaseUrl : Option String
  logFilter : String
deriving DecidableEq

namespace Settings

/-- The variable that holds the location of the store. -/
def databaseVariable : String := "FASTN_DB_URL"

/-- The variable that holds the log filter. -/
def logVariable : String := "RUST_LOG"

/-- The log filter that holds where none is configured. -/
def defaultLogFilter : String := "info"

/-- The address that is served. -/
def bindAddress : String := "127.0.0.1:5000"

/-- Nothing configured. -/
def unconfigured : Settings := ⟨none, defaultLogFilter⟩

/-- The settings that an environment makes. -/
def ofEnvironment (env : Environment) : Settings where
  databaseUrl := (env.get? databaseVariable).map String.ofList
  logFilter := ((env.get? logVariable).map String.ofList).getD defaultLogFilter

end Settings
end FirstRow
