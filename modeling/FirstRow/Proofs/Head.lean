import FirstRow.Proofs.Decimal.Digits
import FirstRow.Proofs.Encodings
import FirstRow.Proofs.Routing

/-!
# HEAD mirrors GET

Every reply states in one header how many octets its body takes up, and a HEAD is answered like a GET with the body left
out. So a client that asks for the head alone learns the status, the headers and the length of what a GET in the same
world would bring, whatever the route is and however the first row could be fetched.
-/
namespace FirstRow

/-! ## The length of a body -/

namespace Http.Reply

/-- A reply has one header with a length, and it is the number of octets of the body, in decimal. -/
def StatesLength (r : Reply) : Prop :=
  r.headers.filter (·.1 = "content-length") = [("content-length", toString r.body.utf8ByteSize)]

theorem contentLength_eq (body : String) : contentLength body = ("content-length", toString body.utf8ByteSize) := by
  rw [contentLength, Text.Utf8.length_ofString, Decimal.digits_eq_toDigits]
  rfl

theorem statesLength_json (body : String) : (json body).StatesLength := by
  simp [StatesLength, json, contentLength_eq]

theorem statesLength_bare (status : Nat) : (bare status).StatesLength := by
  simp [StatesLength, bare, statusOnly, contentLength_eq]

theorem statesLength_permanentRedirect (location : String) : (permanentRedirect location).StatesLength := by
  simp [StatesLength, permanentRedirect, contentLength_eq]

theorem statesLength_methodNotAllowed : methodNotAllowed.StatesLength := by
  simp [StatesLength, methodNotAllowed, contentLength_eq]

end Http.Reply

namespace Server

theorem statesLength_answer (result : Except Failure (Option Row)) : (answer result).1.StatesLength := by
  cases result with
  | ok row => exact Http.Reply.statesLength_json _
  | error f => exact Http.Reply.statesLength_bare _

/-- What is served states its length, be it a row or a failure. -/
theorem statesLength_serve (d : Disk) (wd : AbsolutePath) (s : Settings) : (serve d wd s).1.StatesLength := by
  unfold serve
  cases s.databaseUrl with
  | none => exact Http.Reply.statesLength_bare _
  | some url => exact statesLength_answer _

/-- The reply on every route states its length. -/
theorem statesLength_reply (d : Disk) (wd : AbsolutePath) (s : Settings) (route : Route) :
    (reply d wd s route).1.StatesLength := by
  cases route with
  | data => exact statesLength_serve d wd s
  | redirect => exact Http.Reply.statesLength_permanentRedirect _
  | wrongMethod => exact Http.Reply.statesLength_methodNotAllowed
  | unknown => exact Http.Reply.statesLength_bare _

/-- Where the first row was fetched, it is the body. -/
theorem serve_of_fetch {d : Disk} {wd : AbsolutePath} {s : Settings} {url : String} {row : Option Row}
    (hs : s.databaseUrl = some url) (hf : fetch d wd (Location.path url) = .ok row) :
    (serve d wd s).1 = .json (Payload.ofRow? row).text := by
  simp only [serve, hs, hf, answer]

end Server

/-! ## The two methods -/

/-- No path tells GET and HEAD apart. -/
theorem Route.of_head (path : List Char) : Route.of .head path = Route.of .get path := rfl

namespace World

/-- A target that can be read is answered to GET and to HEAD, in every world: with the same status, the same headers and
the same events in the log, and HEAD without the body; and both leave the same world. The answer to GET states the
number of octets of its body, which is the text of the row wherever a row was fetched. -/
theorem request_head (w : World) {uri : String} {path : List Char} (hu : Http.Uri.path uri.toList = .ok path) :
    ∃ r events,
      (w.request "GET" uri).2 = .reply r events ∧
      w.request "HEAD" uri = ((w.request "GET" uri).1, .reply { r with body := "" } events) ∧
      r.headers.filter (·.1 = "content-length") = [("content-length", toString r.body.utf8ByteSize)] ∧
      ∀ url row, path = "/get-data/".toList → w.settings.databaseUrl = some url →
        fetch w.disk w.workingDirectory (Location.path url) = .ok row →
        r.status = 200 ∧ r.body = (Payload.ofRow? row).text := by
  have hget : Http.Method.ofChars? "GET".toList = some .get := by decide
  have hhead : Http.Method.ofChars? "HEAD".toList = some .head := by decide
  rw [w.request_eq hu hget, w.request_eq hu hhead, Route.of_head]
  refine ⟨_, _, rfl, rfl, Server.statesLength_reply _ _ _ _, ?_⟩
  rintro url row rfl hs hf
  have hserve : (Server.reply w.disk w.workingDirectory w.settings (Route.of .get "/get-data/".toList)).1 =
      .json (Payload.ofRow? row).text := Server.serve_of_fetch hs hf
  rw [hserve]
  exact ⟨rfl, rfl⟩

/-- A row with a NUL, which is escaped, and with characters of two and of four octets: its text has 27 characters. -/
theorem request_head_row :
    ∃ r events,
      ((Encoded.world .utf8 'é').request "GET" "/get-data/?q").2 = .reply r events ∧
      (Encoded.world .utf8 'é').request "HEAD" "/get-data/?q" =
        (((Encoded.world .utf8 'é').request "GET" "/get-data/?q").1, .reply { r with body := "" } events) ∧
      r.headers.filter (·.1 = "content-length") = [("content-length", "31")] ∧ r.status = 200 ∧
      r.body = "\x7b\"id\":\"\\u0000😀\",\"data\":\"é\"\x7d" := by
  obtain ⟨D, hD, hdeclared⟩ := Option.map_eq_some_iff.mp Encoded.declaration_spec
  obtain ⟨hkeys, hcolumns⟩ := Prod.mk.inj hdeclared
  have hsql : Declares Encoded.name (Encoded.sql 'é') D :=
    ⟨by decide +kernel, by decide +kernel, by decide +kernel, hD⟩
  have hfetch := (Encoded.keepsTexts (e := .utf8) (by decide) hkeys hcolumns).fetch_eq hsql
  obtain ⟨r, events, hget, hhead, hlength, hrow⟩ :=
    @request_head (Encoded.world .utf8 'é') "/get-data/?q" "/get-data/".toList (by cbv)
  obtain ⟨hstatus, hbody⟩ := hrow "/t" _ rfl rfl hfetch
  have htext : (Payload.ofRow? (some (rowOfTexts !["\x00😀".toList, "é".toList]))).text =
      "\x7b\"id\":\"\\u0000😀\",\"data\":\"é\"\x7d" := by decide +kernel
  rw [htext] at hbody
  rw [hbody] at hlength
  exact ⟨r, events, hget, hhead, hlength, hstatus, hbody⟩

end World
end FirstRow
