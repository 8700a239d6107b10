import FirstRow.Fetch
import FirstRow.Http.Reply
import FirstRow.Http.Uri
import FirstRow.Location
import FirstRow.Log
import FirstRow.Route
import FirstRow.Settings

/-!
# Answering requests

A request for the first row opens the configured store, serves its first row as JSON and logs what it served, or logs
why it could not. All other requests are answered from their method and path alone.
-/
namespace FirstRow.Server

/-- The number of a failure among the statuses of replies. -/
def failureStatus : Nat := 500

/-- The number of an unknown path among the statuses of replies. -/
def unknownStatus : Nat := 404

/-- The event in front of the opening of a store. -/
def opening (path : String) : Event :=
  ⟨.debug, s!"Opening SQLite store at {path}"⟩

/-- The event behind a row that was served. -/
def serving (p : Payload) : Event :=
  let text := p.inspection
  ⟨.info, s!"Serving {text}"⟩

/-- The event behind a failure. -/
def failing (f : Failure) : Event :=
  ⟨.error, f.logText⟩

/-- What is answered, and what is logged, once the first row was fetched. -/
def answer : Except Failure (Option Row) → Http.Reply × Event
  | .ok row => (.json (Payload.ofRow? row).text, serving (.ofRow? row))
  | .error f => (.bare failureStatus, failing f)

/-- Serve the first row of the configured store. -/
def serve (d : Disk) (workingDirectory : AbsolutePath) (s : Settings) : Http.Reply × List Event :=
  match s.databaseUrl with
  | none => (.bare failureStatus, [failing .missingDatabaseUrl])
  | some url =>
    let path := Location.path url
    let (reply, event) := answer (fetch d workingDirectory path)
    (reply, [opening path, event])

/-- Answer a request for a route. -/
def reply (d : Disk) (workingDirectory : AbsolutePath) (s : Settings) : Route → Http.Reply × List Event
  | .data => serve d workingDirectory s
  | .redirect => (.permanentRedirect (String.ofList Route.dataPath), [])
  | .wrongMethod => (.methodNotAllowed, [])
  | .unknown => (.bare unknownStatus, [])

/-- The disk after a request for a route. -/
def afterReply (d : Disk) (workingDirectory : AbsolutePath) (s : Settings) : Route → Disk
  | .data => match s.databaseUrl with
    | some url => afterFetch d workingDirectory (Location.path url)
    | none => d
  | _ => d

end FirstRow.Server
