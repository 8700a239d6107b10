import FirstRow.Http.Method

/-!
# Routes

Two paths are served, compared with the raw path of the request character by character: `/get-data/` answers and
`/get-data` sends there. Both take GET and HEAD only.
-/
namespace FirstRow

/-- What a request is for. -/
inductive Route where
  /-- The first row is asked for. -/
  | data
  /-- The path lacks its last slash. -/
  | redirect
  /-- The path is served, but not for this method. -/
  | wrongMethod
  /-- Nothing is served at the path. -/
  | unknown
deriving DecidableEq

namespace Route

/-- The path at which the first row is served. -/
def dataPath : List Char := "/get-data/".toList

/-- The path that redirects to `dataPath`. -/
def barePath : List Char := "/get-data".toList

/-- Whether a method is served. -/
def isServed : Http.Method → Bool
  | .get => true
  | .head => true
  | .other _ => false

/-- The route of a method and a raw path. -/
def of (method : Http.Method) (path : List Char) : Route :=
  if path = dataPath then if isServed method then .data else .wrongMethod
  else if path = barePath then if isServed method then .redirect else .wrongMethod
  else .unknown

end Route
end FirstRow
