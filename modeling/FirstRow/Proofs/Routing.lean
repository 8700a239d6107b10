import FirstRow.Proofs.Agreement
import FirstRow.Proofs.Http.Target

/-!
# The routes of requests

What is answered to a request is a matter of its method and of the raw path of its target. Two paths are served, for
two methods, and only a request for the first row looks at the world: all others are answered alike in every world, say
nothing in the log and leave the world as it is. Which targets have a given raw path is told by `Http.Target`.
-/
namespace FirstRow

/-- Every token is a method. -/
theorem Http.Method.exists_ofChars? {method : String} (hne : method ≠ "")
    (ht : ∀ c ∈ method.toList, Http.isTokenChar c = true) : ∃ m, Http.Method.ofChars? method.toList = some m := by
  have hempty : method.toList.isEmpty = false := by simpa using hne
  have hall : method.toList.all Http.isTokenChar = true := List.all_eq_true.mpr ht
  rw [ofChars?, hempty, hall, if_neg (by simp)]
  split
  · exact ⟨_, rfl⟩
  · split <;> exact ⟨_, rfl⟩

/-- HEAD gets no body. -/
theorem Http.Reply.forMethod_eq {method : String} {m : Http.Method}
    (h : Http.Method.ofChars? method.toList = some m) (r : Http.Reply) :
    r.forMethod m = if method = "HEAD" then { r with body := "" } else r := by
  rcases Http.Method.ofChars?_cases h with ⟨rfl, rfl⟩ | ⟨rfl, rfl⟩ | ⟨-, hhead, rfl⟩
  · rfl
  · rfl
  · exact (if_neg hhead).symm

namespace Route

/-- What is answered on the routes that do not lead to the first row. -/
def fixedReply? : Route → Option Http.Reply
  | .data => none
  | .redirect => some ⟨308, [("content-length", "0"), ("location", "/get-data/")], ""⟩
  | .wrongMethod => some ⟨405, [("allow", "GET,HEAD"), ("content-length", "0")], ""⟩
  | .unknown => some ⟨404, [("content-length", "0")], ""⟩

variable {route : Route} {r : Http.Reply}

/-- A fixed reply is given whatever there is on the disk and in the settings, and nothing is logged. -/
theorem reply_of_fixedReply? (h : route.fixedReply? = some r) (d : Disk) (wd : AbsolutePath) (s : Settings) :
    Server.reply d wd s route = (r, []) := by
  cases route with
  | data => cases h
  | redirect =>
    cases h
    simp only [Server.reply, Http.Reply.permanentRedirect, Http.Reply.contentLength_empty]
    rfl
  | wrongMethod =>
    cases h
    simp only [Server.reply, Http.Reply.methodNotAllowed, Http.Reply.contentLength_empty]
  | unknown =>
    cases h
    simp only [Server.reply, Http.Reply.bare, Http.Reply.statusOnly, Http.Reply.contentLength_empty,
      Server.unknownStatus]

theorem afterReply_of_fixedReply? (h : route.fixedReply? = some r) (d : Disk) (wd : AbsolutePath) (s : Settings) :
    Server.afterReply d wd s route = d := by
  cases route with
  | data => cases h
  | redirect => rfl
  | wrongMethod => rfl
  | unknown => rfl

/-- A fixed reply has no body to leave out. -/
theorem forMethod_of_fixedReply? (h : route.fixedReply? = some r) (m : Http.Method) : r.forMethod m = r := by
  have hb : r.body = "" := by
    cases route <;> cases h <;> rfl
  obtain ⟨status, headers, body⟩ := r
  cases m with
  | get => rfl
  | head => exact congrArg (Http.Reply.mk status headers) hb.symm
  | other token => rfl

end Route

namespace World

/-- A request is answered from its route, which is found from its method and its raw path. -/
theorem request_eq (w : World) {method uri : String} {path : List Char} {m : Http.Method}
    (hu : Http.Uri.path uri.toList = .ok path) (hm : Http.Method.ofChars? method.toList = some m) :
    w.request method uri =
      ({ w with disk := Server.afterReply w.disk w.workingDirectory w.settings (Route.of m path) },
        .reply ((Server.reply w.disk w.workingDirectory w.settings (Route.of m path)).1.forMethod m)
          (Server.reply w.disk w.workingDirectory w.settings (Route.of m path)).2) := by
  simp only [request, hu, hm]

/-- A fixed reply is given in every world, and leaves it as it is. -/
theorem request_of_fixedReply? (w : World) {method uri : String} {path : List Char} {m : Http.Method} {r : Http.Reply}
    (hu : Http.Uri.path uri.toList = .ok path) (hm : Http.Method.ofChars? method.toList = some m)
    (hr : (Route.of m path).fixedReply? = some r) : w.request method uri = (w, .reply r []) := by
  rw [w.request_eq hu hm, Route.reply_of_fixedReply? hr, Route.afterReply_of_fixedReply? hr]
  dsimp only
  rw [Route.forMethod_of_fixedReply? hr]

/-- The routing of a request whose target can be read and whose method is a token, in every world. The target has parts
of which only the path counts: two paths are served, to GET and HEAD, where `/get-data/` asks for the first row and
`/get-data` is sent there; other methods are refused on both; and there is nothing at all other paths. Unless the first
row is asked for, the answer is the same in every world, nothing is logged and the world stays as it is. Every other
target with the same path is answered in the same way. -/
theorem request_routed {method uri : String} {path : List Char} (hu : Http.Uri.path uri.toList = .ok path)
    (hne : method ≠ "") (ht : ∀ c ∈ method.toList, Http.isTokenChar c = true) :
    (∃ t : Http.Target, t.Valid ∧ t.chars = uri.toList ∧ t.path = path) ∧
    (path = "/get-data/".toList → method = "GET" ∨ method = "HEAD" → ∀ w : World,
      ∃ r events, Server.serve w.disk w.workingDirectory w.settings = (r, events) ∧
        (w.request method uri).2 = .reply (if method = "HEAD" then { r with body := "" } else r) events) ∧
    (path = "/get-data".toList → method = "GET" ∨ method = "HEAD" → ∀ w : World,
      w.request method uri =
        (w, .reply ⟨308, [("content-length", "0"), ("location", "/get-data/")], ""⟩ [])) ∧
    (path = "/get-data/".toList ∨ path = "/get-data".toList → ¬ (method = "GET" ∨ method = "HEAD") → ∀ w : World,
      w.request method uri = (w, .reply ⟨405, [("allow", "GET,HEAD"), ("content-length", "0")], ""⟩ [])) ∧
    (path ≠ "/get-data/".toList → path ≠ "/get-data".toList → ∀ w : World,
      w.request method uri = (w, .reply ⟨404, [("content-length", "0")], ""⟩ [])) ∧
    ∀ (t : Http.Target) (other : String), t.Valid → t.chars = other.toList → t.path = path →
      (Text.Utf8.ofString other).length ≤ Http.Uri.maxLength →
      ∀ w : World, w.request method other = w.request method uri := by
  obtain ⟨m, hm⟩ := Http.Method.exists_ofChars? hne ht
  have hserved := Http.Method.isServed_iff hm
  have hdata : "/get-data/".toList = Route.dataPath := rfl
  have hbare : "/get-data".toList = Route.barePath := rfl
  have hdiff : Route.barePath ≠ Route.dataPath := by decide
  refine ⟨(Http.Uri.path_eq_ok_iff.mp hu).2, ?_, ?_, ?_, ?_, ?_⟩
  · intro hp hget w
    have hroute : Route.of m path = .data := by simp [Route.of, hp, hdata, hserved.mpr hget]
    refine ⟨_, _, rfl, ?_⟩
    rw [w.request_eq hu hm, hroute, ← Http.Reply.forMethod_eq hm]
    rfl
  · intro hp hget w
    refine w.request_of_fixedReply? hu hm ?_
    have hroute : Route.of m path = .redirect := by simp [Route.of, hp, hbare, hdiff, hserved.mpr hget]
    rw [hroute]
    rfl
  · intro hp hother w
    refine w.request_of_fixedReply? hu hm ?_
    have hs : Route.isServed m = false := by rwa [← hserved, Bool.not_eq_true] at hother
    have hroute : Route.of m path = .wrongMethod := by
      rcases hp with hp | hp
      · simp [Route.of, hp, hdata, hs]
      · simp [Route.of, hp, hbare, hs]
    rw [hroute]
    rfl
  · intro hnd hnb w
    refine w.request_of_fixedReply? hu hm ?_
    have hroute : Route.of m path = .unknown := by
      rw [Route.of, if_neg (hdata ▸ hnd), if_neg (hbare ▸ hnb)]
    rw [hroute]
    rfl
  · intro t other hv hc hp hl w
    have ho : Http.Uri.path other.toList = .ok path := Http.Uri.path_eq_ok_iff.mpr ⟨hl, t, hv, hc, hp⟩
    rw [w.request_eq ho hm, w.request_eq hu hm]

/-- The path without its last slash behind a scheme and an authority, and alone; a method that is refused; and a letter
in its other case. -/
theorem request_routed_head :
    (World.fresh []).request "HEAD" "http://h/get-data?q#f" =
      (World.fresh [], .reply ⟨308, [("content-length", "0"), ("location", "/get-data/")], ""⟩ []) ∧
    (World.fresh []).request "HEAD" "/get-data" = (World.fresh []).request "HEAD" "http://h/get-data?q#f" ∧
    (∃ r events, Server.serve (World.fresh []).disk [] .unconfigured = (r, events) ∧
      ((World.fresh []).request "HEAD" "/get-data/?q").2 = .reply { r with body := "" } events) ∧
    (World.fresh []).request "get" "/get-data/" =
      (World.fresh [], .reply ⟨405, [("allow", "GET,HEAD"), ("content-length", "0")], ""⟩ []) ∧
    (World.fresh []).request "GET" "/Get-data/" = (World.fresh [], .reply ⟨404, [("content-length", "0")], ""⟩ []) := by
  have hhead : ∀ c ∈ "HEAD".toList, Http.isTokenChar c = true := by simp [Http.isTokenChar]
  have hlower : ∀ c ∈ "get".toList, Http.isTokenChar c = true := by simp [Http.isTokenChar]
  have hget : ∀ c ∈ "GET".toList, Http.isTokenChar c = true := by simp [Http.isTokenChar]
  obtain ⟨-, -, hredirect, -, -, hother⟩ :=
    @request_routed "HEAD" "http://h/get-data?q#f" "/get-data".toList (by cbv) (by decide) hhead
  obtain ⟨-, hdata, -⟩ := @request_routed "HEAD" "/get-data/?q" "/get-data/".toList (by cbv) (by decide) hhead
  obtain ⟨-, -, -, hwrong, -⟩ := @request_routed "get" "/get-data/" "/get-data/".toList (by cbv) (by decide) hlower
  obtain ⟨-, -, -, -, hunknown, -⟩ := @request_routed "GET" "/Get-data/" "/Get-data/".toList (by cbv) (by decide) hget
  obtain ⟨r, events, hs, ha⟩ := hdata rfl (.inr rfl) (World.fresh [])
  refine ⟨hredirect rfl (.inr rfl) _, ?_, ⟨r, events, hs, ha.trans (by rw [if_pos rfl])⟩,
    hwrong (.inl rfl) (by decide) _, hunknown (by decide) (by decide) _⟩
  refine hother (.origin "/get-data".toList ⟨none, none⟩) "/get-data" ⟨⟨?_, .inr rfl⟩, by decide, ?_⟩ rfl rfl ?_ _
  · simp [Http.Uri.isPathChar]
  · intro query hquery
    cases hquery
  · cbv

end World

end FirstRow
