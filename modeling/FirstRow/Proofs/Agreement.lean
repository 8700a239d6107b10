import FirstRow.Session
import Mathlib

/-!
# Serving and fetching agree

A request that reaches the handler is answered from what a fetch gives at the same point of the session: a row or
nothing is served and logged as one and the same payload, and every failure is answered alike and told apart in the log
only. `World.after` is the world behind a part of a session, and `World.changed` the world in which a step acts.

Two ways to write one location cannot be told apart: `World.SameStore` relates worlds that differ in that alone, every
step keeps the relation, and so a session goes on in the same way in both.
-/
namespace FirstRow

namespace World

/-- The world once the files of a step are in place. -/
def changed (w : World) (changes : List (String × Change)) : World :=
  changes.foldl (fun w c => w.change c.1 c.2) w

/-- The world behind the steps of a session. -/
def after (w : World) (steps : List Step) : World :=
  steps.foldl (fun w s => (w.step s).1) w

@[simp] theorem after_nil (w : World) : w.after [] = w := rfl

@[simp] theorem after_cons (w : World) (s : Step) (rest : List Step) :
    w.after (s :: rest) = (w.step s).1.after rest := rfl

theorem step_eq (w : World) (s : Step) : w.step s = (w.changed s.changes).act s.action := rfl

/-- A session is answered part by part. -/
theorem run_append (w : World) (pre post : List Step) :
    w.run (pre ++ post) = w.run pre ++ (w.after pre).run post := by
  induction pre generalizing w with
  | nil => rfl
  | cons s rest ih =>
    simp only [List.cons_append, run, after_cons]
    rw [ih]

@[simp] theorem length_run (w : World) (steps : List Step) : (w.run steps).length = steps.length := by
  induction steps generalizing w with
  | nil => rfl
  | cons s rest ih => simp [run, ih]

/-- The answer of a step depends on the steps in front of it alone. -/
theorem run_getElem (w : World) (pre post : List Step) (s : Step) :
    (w.run (pre ++ s :: post))[pre.length]? = some ((w.after pre).step s).2 := by
  rw [run_append, List.getElem?_append_right (by simp)]
  simp [run]

/-- Changes of files leave the settings alone. -/
@[simp] theorem change_settings (w : World) (name : String) (c : Change) : (w.change name c).settings = w.settings := by
  cases c <;> rfl

@[simp] theorem changed_settings (w : World) (changes : List (String × Change)) :
    (w.changed changes).settings = w.settings := by
  induction changes generalizing w with
  | nil => rfl
  | cons c rest ih => exact (ih _).trans (change_settings w c.1 c.2)

end World

/-! ## One request and one fetch -/

theorem Http.Reply.contentLength_empty : Http.Reply.contentLength "" = ("content-length", "0") := by
  have h : Decimal.digits 0 = ['0'] := by simp [Decimal.digits, Decimal.digitChar]
  simp [Http.Reply.contentLength, Text.Utf8.ofString, h]

namespace Server

/-- The answer to every request for the first row that fails. -/
def failed : Http.Reply := ⟨500, [("content-length", "0")], ""⟩

theorem bare_failureStatus : Http.Reply.bare failureStatus = failed := by
  simp only [Http.Reply.bare, Http.Reply.statusOnly, Http.Reply.contentLength_empty, failed, failureStatus]

/-- Taking the body away leaves nothing behind that was not there. -/
theorem failed_forMethod (m : Http.Method) : failed.forMethod m = failed := by
  cases m <;> rfl

end Server

/-- What a method is as it is written. -/
theorem Http.Method.ofChars?_cases {method : String} {m : Http.Method}
    (h : Http.Method.ofChars? method.toList = some m) :
    (method = "GET" ∧ m = .get) ∨ (method = "HEAD" ∧ m = .head) ∨
      (method ≠ "GET" ∧ method ≠ "HEAD" ∧ m = .other method.toList) := by
  simp only [ofChars?, String.toList_inj] at h
  split at h
  · cases h
  · split at h
    · rename_i hget
      exact .inl ⟨hget, (Option.some.inj h).symm⟩
    · rename_i hget
      split at h
      · rename_i hhead
        exact .inr (.inl ⟨hhead, (Option.some.inj h).symm⟩)
      · rename_i hhead
        exact .inr (.inr ⟨hget, hhead, (Option.some.inj h).symm⟩)

theorem Http.Method.isServed_iff {method : String} {m : Http.Method}
    (h : Http.Method.ofChars? method.toList = some m) :
    Route.isServed m = true ↔ method = "GET" ∨ method = "HEAD" := by
  rcases ofChars?_cases h with ⟨rfl, rfl⟩ | ⟨rfl, rfl⟩ | ⟨hget, hhead, rfl⟩
  · simp [Route.isServed]
  · simp [Route.isServed]
  · simp [Route.isServed, hget, hhead]

/-- The methods that reach the handler, as they are written. -/
theorem Http.Method.ofChars?_served {method : String} (h : method = "GET" ∨ method = "HEAD") :
    ∃ m, Http.Method.ofChars? method.toList = some m ∧ Route.isServed m = true ∧ (method = "GET" → m = .get) := by
  rcases h with rfl | rfl
  · exact ⟨.get, by decide, rfl, fun _ => rfl⟩
  · exact ⟨.head, by decide, rfl, by decide⟩

namespace World

/-- A request that reaches the handler is served, and the body is left out of the answer to HEAD. -/
theorem request_data (w : World) {method uri : String} (hm : method = "GET" ∨ method = "HEAD")
    (hu : Http.Uri.path uri.toList = .ok Route.dataPath) :
    ∃ m, (method = "GET" → m = .get) ∧
      (w.request method uri).2 =
        .reply ((Server.serve w.disk w.workingDirectory w.settings).1.forMethod m)
          (Server.serve w.disk w.workingDirectory w.settings).2 := by
  obtain ⟨m, hm, hs, hg⟩ := Http.Method.ofChars?_served hm
  refine ⟨m, hg, ?_⟩
  have hr : Route.of m Route.dataPath = .data := by simp only [Route.of, hs, if_true]
  simp only [request, hu, hm, hr, Server.reply]

/-- The world with another location of the store. -/
def configuredWith (w : World) (url : Option String) : World :=
  { w with settings := { w.settings with databaseUrl := url } }

theorem act_request (w : World) (url? : Option (Option String)) (method uri : String) :
    w.act (.request url? method uri) =
      (w.configuredWith (url?.getD w.settings.databaseUrl)).request method uri := by
  cases url? <;> rfl

/-- A served request without a location fails at once. -/
theorem answer_unconfigured (w : World) {method uri : String} (hm : method = "GET" ∨ method = "HEAD")
    (hu : Http.Uri.path uri.toList = .ok Route.dataPath) (hn : w.settings.databaseUrl = none) :
    (w.request method uri).2 = .reply Server.failed [⟨.error, Failure.logText .missingDatabaseUrl⟩] := by
  obtain ⟨m, -, h⟩ := w.request_data hm hu
  rw [h]
  simp only [Server.serve, hn, Server.bare_failureStatus, Server.failed_forMethod]
  rfl

/-! ## One location in two spellings -/

/-- Worlds whose locations lead to the same path, and which are the same otherwise. -/
structure SameStore (w v : World) : Prop where
  disk : v.disk = w.disk
  environment : v.environment = w.environment
  workingDirectory : v.workingDirectory = w.workingDirectory
  path : v.settings.databaseUrl.map Location.path = w.settings.databaseUrl.map Location.path

namespace SameStore
variable {w v : World}

theorem serve_eq (h : SameStore w v) :
    Server.serve v.disk v.workingDirectory v.settings = Server.serve w.disk w.workingDirectory w.settings := by
  have hp := h.path
  rw [h.disk, h.workingDirectory]
  cases hv : v.settings.databaseUrl <;> cases hw : w.settings.databaseUrl <;> rw [hv, hw] at hp <;>
    simp_all [Server.serve]

theorem afterReply_eq (h : SameStore w v) (r : Route) :
    Server.afterReply v.disk v.workingDirectory v.settings r =
      Server.afterReply w.disk w.workingDirectory w.settings r := by
  have hp := h.path
  rw [h.disk, h.workingDirectory]
  cases r with
  | data =>
    cases hv : v.settings.databaseUrl <;> cases hw : w.settings.databaseUrl <;> rw [hv, hw] at hp <;>
      simp_all [Server.afterReply]
  | redirect => rfl
  | wrongMethod => rfl
  | unknown => rfl

theorem reply_eq (h : SameStore w v) (r : Route) :
    Server.reply v.disk v.workingDirectory v.settings r = Server.reply w.disk w.workingDirectory w.settings r := by
  cases r with
  | data => exact h.serve_eq
  | redirect => rfl
  | wrongMethod => rfl
  | unknown => rfl

/-- Changes of files keep the relation. -/
theorem changed (h : SameStore w v) (changes : List (String × Change)) :
    SameStore (w.changed changes) (v.changed changes) := by
  induction changes generalizing w v with
  | nil => exact h
  | cons c rest ih =>
    refine ih ⟨?_, ?_, ?_, ?_⟩
    · cases hc : c.2 <;> simp [World.change, hc, h.disk, h.workingDirectory]
    · cases hc : c.2 <;> simp [World.change, hc, h.environment]
    · cases hc : c.2 <;> simp [World.change, hc, h.workingDirectory]
    · simpa using h.path

/-- A request is answered in the same way, and keeps the relation. -/
theorem request (h : SameStore w v) (method uri : String) :
    (v.request method uri).2 = (w.request method uri).2 ∧
      SameStore (w.request method uri).1 (v.request method uri).1 := by
  unfold World.request
  cases Http.Uri.path uri.toList with
  | error e => exact ⟨rfl, h⟩
  | ok path =>
    cases Http.Method.ofChars? method.toList with
    | none => exact ⟨rfl, h⟩
    | some m =>
      simp only [h.reply_eq, h.afterReply_eq, true_and]
      exact ⟨rfl, h.environment, h.workingDirectory, h.path⟩

/-- Reading the settings makes the worlds alike, or fails in both. -/
theorem configure (h : SameStore w v) :
    v.configure.2 = w.configure.2 ∧ SameStore w.configure.1 v.configure.1 := by
  unfold World.configure
  rw [h.disk, h.environment, h.workingDirectory]
  cases findEnvironmentFile w.disk w.workingDirectory.length w.workingDirectory with
  | none => exact ⟨rfl, rfl, rfl, rfl, rfl⟩
  | some file =>
    dsimp only
    obtain ⟨env, outcome⟩ := Dotenv.load w.environment file
    cases outcome with
    | finished => exact ⟨rfl, rfl, rfl, rfl, rfl⟩
    | nulInValue => exact ⟨rfl, rfl, rfl, rfl, h.path⟩

/-- Every action has the same answer, and keeps the relation. -/
theorem act (h : SameStore w v) (a : Action) :
    (v.act a).2 = (w.act a).2 ∧ SameStore (w.act a).1 (v.act a).1 := by
  cases a with
  | nothing => exact ⟨rfl, h⟩
  | resolve url => exact ⟨rfl, h⟩
  | configure env? =>
    cases env? with
    | none => exact h.configure
    | some env => exact configure ⟨h.disk, rfl, h.workingDirectory, h.path⟩
  | fetch path =>
    simp only [World.act, h.disk, h.workingDirectory, true_and]
    exact ⟨rfl, h.environment, rfl, h.path⟩
  | request url? method uri =>
    cases url? with
    | none => exact h.request method uri
    | some url =>
      have hc : SameStore (w.configuredWith url) (v.configuredWith url) :=
        ⟨h.disk, h.environment, h.workingDirectory, rfl⟩
      exact hc.request method uri
  | render row => exact ⟨rfl, h⟩
  | report f => exact ⟨rfl, h⟩

/-- A session goes on in the same way. -/
theorem run (h : SameStore w v) (steps : List Step) : v.run steps = w.run steps := by
  induction steps generalizing w v with
  | nil => rfl
  | cons s rest ih =>
    obtain ⟨ha, hs⟩ := (h.changed s.changes).act s.action
    simp only [World.run, step_eq]
    rw [ha, ih hs]

end SameStore

/-- A location with the marker in front of an absolute path leads to that path. -/
theorem path_marker {p : String} (h : p.toList.head? = some '/') :
    Location.path ("sqlite://" ++ p) = Location.path p := by
  obtain ⟨rest, hp⟩ : ∃ rest, p.toList = '/' :: rest := List.head?_eq_some_iff.mp h
  have hm : ("sqlite://" ++ p).toList = Location.marker ++ rest := by
    rw [String.toList_append, hp]
    rfl
  have hn : Location.marker.isPrefixOf p.toList = false := by
    rw [hp]
    rfl
  rw [Location.path, Location.path, hm, Location.pathChars_marker, Location.pathChars_of_not_prefix hn, hp]

end World

/-! ## The agreement -/

/-- What the answer to a served request and the event behind it say of what fetching gave: the body of the answer and
the text of the event belong to one payload, and a failure is told in the event only. -/
def Server.Reports (method : String) (result : Except Failure (Option Row)) (r : Http.Reply) (e : Event) : Prop :=
  match result with
  | .ok row =>
    r.status = 200 ∧ e = ⟨.info, "Serving " ++ (Payload.ofRow? row).inspection⟩ ∧
      (method = "GET" → r.body = (Payload.ofRow? row).text)
  | .error f => r = Server.failed ∧ e = ⟨.error, f.logText⟩

theorem Server.Reports.status_iff {method : String} {result : Except Failure (Option Row)} {r : Http.Reply}
    {e : Event} (h : Server.Reports method result r e) : r.status = 200 ↔ ∃ row, result = .ok row := by
  cases result with
  | ok row => exact ⟨fun _ => ⟨row, rfl⟩, fun _ => h.1⟩
  | error f =>
    have hs : r.status = 500 := by rw [h.1]; rfl
    simp [hs]

/-- A served request with a location reports what fetching at its path gives. -/
theorem World.answer_reports (w : World) {method uri url : String} (hm : method = "GET" ∨ method = "HEAD")
    (hu : Http.Uri.path uri.toList = .ok Route.dataPath) (hs : w.settings.databaseUrl = some url) :
    ∃ r e, (w.request method uri).2 =
        .reply r [⟨.debug, "Opening SQLite store at " ++ Location.path url⟩, e] ∧
      Server.Reports method (fetch w.disk w.workingDirectory (Location.path url)) r e := by
  obtain ⟨m, hg, h⟩ := w.request_data hm hu
  have ho : Server.opening (Location.path url) = ⟨.debug, "Opening SQLite store at " ++ Location.path url⟩ := rfl
  rw [h, ← ho]
  simp only [Server.serve, hs]
  cases fetch w.disk w.workingDirectory (Location.path url) with
  | ok row =>
    refine ⟨_, _, rfl, ?_, rfl, ?_⟩
    · cases m <;> rfl
    · intro hget
      rw [hg hget]
      rfl
  | error f =>
    refine ⟨_, _, rfl, ?_, rfl⟩
    simp only [Server.answer, Server.bare_failureStatus, Server.failed_forMethod]

/-- A request that reaches the handler, at any place of any session: without a location it fails with one event of the
log; with one, the opening of the store is logged first, and the answer and the second event report what a fetch that
is inserted in its place gives. An absolute path and the same path behind the marker are the same location: every
session goes on alike with either. -/
theorem World.request_reports_fetch (w : World) :
    (∀ (pre post rest : List Step) (changes : List (String × Change)) (url? : Option (Option String))
        (method uri : String),
      method = "GET" ∨ method = "HEAD" → Http.Uri.path uri.toList = .ok "/get-data/".toList →
      ∃ r events,
        (w.run (pre ++ ⟨changes, .request url? method uri⟩ :: post))[pre.length]? = some (.reply r events) ∧
        (url?.getD (w.after pre).settings.databaseUrl = none →
          r = ⟨500, [("content-length", "0")], ""⟩ ∧ ∃ text, events = [⟨.error, text⟩]) ∧
        ∀ url, url?.getD (w.after pre).settings.databaseUrl = some url →
          ∃ result e,
            (w.run (pre ++ ⟨changes, .fetch (Location.path url)⟩ :: rest))[pre.length]? = some (.fetched result) ∧
            events = [⟨.debug, "Opening SQLite store at " ++ Location.path url⟩, e] ∧
            (r.status = 200 ↔ ∃ row, result = .ok row) ∧ Server.Reports method result r e) ∧
    ∀ p : String, p.toList.head? = some '/' → ∀ steps : List Step,
      (w.configuredWith (some ("sqlite://" ++ p))).run steps = (w.configuredWith (some p)).run steps := by
  refine ⟨?_, ?_⟩
  · intro pre post rest changes url? method uri hm hu
    rw [World.run_getElem, World.step_eq, World.act_request, World.changed_settings]
    cases hurl : url?.getD (w.after pre).settings.databaseUrl with
    | none =>
      refine ⟨_, _, congrArg some (World.answer_unconfigured _ hm hu rfl), ?_, ?_⟩
      · exact fun _ => ⟨rfl, _, rfl⟩
      · intro url h
        cases h
    | some url =>
      obtain ⟨r, e, ha, hr⟩ := (((w.after pre).changed changes).configuredWith url).answer_reports hm hu rfl
      refine ⟨r, _, congrArg some ha, ?_, ?_⟩
      · intro h
        cases h
      · rintro _ ⟨rfl⟩
        refine ⟨_, e, ?_, rfl, hr.status_iff, hr⟩
        rw [World.run_getElem, World.step_eq]
        rfl
  · intro p hp steps
    have h : World.SameStore (w.configuredWith (some p)) (w.configuredWith (some ("sqlite://" ++ p))) :=
      ⟨rfl, rfl, rfl, congrArg some (World.path_marker hp)⟩
    exact h.run steps

/-- The second of two requests asks for the head alone, and names the store behind the marker; there is no store. -/
theorem World.request_reports_fetch_head :
    ∃ r events,
      ((World.fresh []).run
          [⟨[], .request none "GET" "/"⟩, ⟨[], .request (some (some "sqlite:///no.db")) "HEAD" "http://h/get-data/?q#f"⟩])[1]? =
        some (.reply r events) ∧
      (∃ result e,
        ((World.fresh []).run [⟨[], .request none "GET" "/"⟩, ⟨[], .fetch "/no.db"⟩])[1]? = some (.fetched result) ∧
        events = [⟨.debug, "Opening SQLite store at " ++ "/no.db"⟩, e] ∧
        (r.status = 200 ↔ ∃ row, result = .ok row) ∧ Server.Reports "HEAD" result r e) ∧
      ((World.fresh []).configuredWith (some ("sqlite://" ++ "/no.db"))).run [⟨[], .request none "GET" "/get-data/"⟩] =
        ((World.fresh []).configuredWith (some "/no.db")).run [⟨[], .request none "GET" "/get-data/"⟩] := by
  obtain ⟨r, events, ha, -, h⟩ := (World.request_reports_fetch (World.fresh [])).1 [⟨[], .request none "GET" "/"⟩] []
    [] [] (some (some "sqlite:///no.db")) "HEAD" "http://h/get-data/?q#f" (.inr rfl) (by cbv)
  exact ⟨r, events, ha, h "sqlite:///no.db" rfl,
    (World.request_reports_fetch (World.fresh [])).2 "/no.db" rfl [⟨[], .request none "GET" "/get-data/"⟩]⟩

end FirstRow
