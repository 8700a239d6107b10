import FirstRow.Decimal.Digits
import FirstRow.Http.Method
import FirstRow.Text.Utf8

/-!
# Replies

A reply has a status, headers in ascending order of names and a body. Every reply states the length of the body
that a GET would get, so the reply to a HEAD differs in the body alone.
-/
namespace FirstRow.Http

/-- A reply to a request. -/
structure Reply where
  status : Nat
  headers : List (String × String)
  body : String
deriving DecidableEq

namespace Reply

/-- The header with the number of octets of a body. -/
def contentLength (body : String) : String × String :=
  ("content-length", String.ofList (Decimal.digits (Text.Utf8.ofString body).length))

/-- A JSON text. -/
def json (body : String) : Reply :=
  ⟨200, [contentLength body, ("content-type", "application/json")], body⟩

/-- A status without anything, not even the length of the empty body. -/
def statusOnly (status : Nat) : Reply :=
  ⟨status, [], ""⟩

/-- A status with an empty body. -/
def bare (status : Nat) : Reply :=
  { statusOnly status with headers := [contentLength ""] }

/-- A permanent redirection, which keeps the method. -/
def permanentRedirect (location : String) : Reply :=
  ⟨308, [contentLength "", ("location", location)], ""⟩

/-- The refusal of a method, with the methods that are served. -/
def methodNotAllowed : Reply :=
  ⟨405, [("allow", "GET,HEAD"), contentLength ""], ""⟩

/-- The reply as the method gets it: HEAD gets no body. -/
def forMethod (r : Reply) : Method → Reply
  | .head => { r with body := "" }
  | _ => r

end Reply
end FirstRow.Http
