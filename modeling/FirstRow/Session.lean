import FirstRow.Dotenv.Load
import FirstRow.Server

/-!
# Sessions

A session is a run of steps in one world: a disk, an environment and the settings of a server. Every step may change
files first, and gives an answer.
-/
namespace FirstRow

/-- All that the steps of a session share. -/
structure World where
  disk : Disk
  environment : Environment
  settings : Settings
  workingDirectory : AbsolutePath

/-- A change of what stands at a path. -/
inductive Change where
  | remove
  | put (node : Node)

/-- What a step does once its files are in place. -/
inductive Action where
  /-- Nothing more. -/
  | nothing
  /-- Find the path of a location. -/
  | resolve (url : String)
  /-- Read the settings, in another environment if one is given. -/
  | configure (environment : Option Environment)
  /-- Fetch the first row of the store at a path. -/
  | fetch (path : String)
  /-- Answer a request, with another location of the store from now on if one is given. -/
  | request (databaseUrl : Option (Option String)) (method uri : String)
  /-- Write what is served of a row. -/
  | render (row : Option Row)
  /-- Answer and log a failure outside of a request. -/
  | report (f : Failure)

/-- A step of a session: changes of files below the working directory, in order, and what is done then. -/
structure Step where
  changes : List (String × Change)
  action : Action

/-- The answer of a step. -/
inductive Answer where
  | nothing
  | path (p : String)
  /-- The settings, and the environment after they were read. -/
  | settings (s : Settings) (environment : Environment)
  /-- The step could not be carried out. -/
  | panic
  | fetched (result : Except Failure (Option Row))
  | invalidUri (e : Http.UriError)
  | invalidMethod
  | reply (r : Http.Reply) (events : List Event)
  | rendered (p : Payload)
  | reported (f : Failure) (r : Http.Reply) (events : List Event)

namespace World

/-- An empty directory, an empty environment, nothing configured. -/
def fresh (workingDirectory : AbsolutePath) : World where
  disk := ((⟨[]⟩ : Disk).makeParents workingDirectory).makeDirectory workingDirectory
  environment := .empty
  settings := .unconfigured
  workingDirectory

/-- Change what stands at a path below the working directory. -/
def change (w : World) (name : String) (c : Change) : World :=
  let path := AbsolutePath.ofString w.workingDirectory name
  match c with
  | .remove => { w with disk := w.disk.remove path }
  | .put node => { w with disk := w.disk.put path node }

/-- The name of the file from which variables are loaded. -/
def environmentFile : List UInt8 := Text.Utf8.ofString ".env"

/-- The content of the environment file in a directory or in the nearest one above it that has one; `n` bounds how
far up it is looked for. -/
def findEnvironmentFile (d : Disk) : Nat → AbsolutePath → Option (List UInt8)
  | 0, directory => here directory
  | n + 1, directory => (here directory).or (findEnvironmentFile d n directory.dropLast)
where
  /-- The content of the file in a directory itself. -/
  here (directory : AbsolutePath) : Option (List UInt8) :=
    match d.node? (directory ++ [environmentFile]) with
    | some (.file content) => some content.toList
    | _ => none

/-- Read the settings from the environment file and the environment. -/
def configure (w : World) : World × Answer :=
  let (env, outcome) :=
    match findEnvironmentFile w.disk w.workingDirectory.length w.workingDirectory with
    | some file => Dotenv.load w.environment file
    | none => (w.environment, .finished)
  match outcome with
  | .finished => ({ w with environment := env, settings := .ofEnvironment env }, .settings (.ofEnvironment env) env)
  | .nulInValue => ({ w with environment := env }, .panic)

/-- Answer a request. The target is looked at before the method. -/
def request (w : World) (method uri : String) : World × Answer :=
  match Http.Uri.path uri.toList with
  | .error e => (w, .invalidUri e)
  | .ok path =>
    match Http.Method.ofChars? method.toList with
    | none => (w, .invalidMethod)
    | some m =>
      let route := Route.of m path
      let (r, events) := Server.reply w.disk w.workingDirectory w.settings route
      ({ w with disk := Server.afterReply w.disk w.workingDirectory w.settings route }, .reply (r.forMethod m) events)

/-- Carry out an action. -/
def act (w : World) : Action → World × Answer
  | .nothing => (w, .nothing)
  | .resolve url => (w, .path (Location.path url))
  | .configure none => w.configure
  | .configure (some env) => { w with environment := env }.configure
  | .fetch path =>
    ({ w with disk := afterFetch w.disk w.workingDirectory path },
      .fetched (FirstRow.fetch w.disk w.workingDirectory path))
  | .request none method uri => w.request method uri
  | .request (some url) method uri => { w with settings := { w.settings with databaseUrl := url } }.request method uri
  | .render row => (w, .rendered (.ofRow? row))
  | .report f => (w, .reported f (.statusOnly Server.failureStatus) [Server.failing f])

/-- Carry out a step. -/
def step (w : World) (s : Step) : World × Answer :=
  (s.changes.foldl (fun w c => w.change c.1 c.2) w).act s.action

/-- The answers of the steps of a session. -/
def run (w : World) : List Step → List Answer
  | [] => []
  | s :: rest =>
    let (w, a) := w.step s
    a :: run w rest

end World
end FirstRow
