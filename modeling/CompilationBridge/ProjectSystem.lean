import CompilationBridge.Channel
import CompilationBridge.Graph.Store
import CompilationBridge.LoadTracker
import CompilationBridge.Manifest
import CompilationBridge.Settings.Sections
import CompilationBridge.Supervisor

/-!
The project system: it tells the compilation host about projects. What it does when the host has
connected, when a project was added and when the build configuration changes is a list of tasks; one
task is what is done without another caller coming in between. Tasks of different callers may come in
any order between these.
-/

namespace CompilationBridge

structure ProjectSystem where
  loadTimeout : Nat
  configuration : String
  hostId : String := ""
  isInitialized : Bool := false
  loads : LoadTracker := {}
  /-- How many times a project was initialized with the host. -/
  initialized : Nat := 0
deriving DecidableEq, Repr, Inhabited

namespace ProjectSystem

open CompilationBridge.Graph (ProjectRef)

def new (settings : Settings.Projects) : ProjectSystem :=
  { loadTimeout := settings.loadTimeout.toNat, configuration := settings.configuration }

/-- Claims the one load of a workspace that there may be. -/
def claim (p : ProjectSystem) (hostId : String) : Except Fault ProjectSystem :=
  if p.isInitialized then .error .alreadyInitialized
  else .ok { p with isInitialized := true, hostId := hostId }

/-- What tasks read and change. -/
structure Shared where
  system : ProjectSystem
  store : Graph.Store
  channel : Channel
deriving Repr, Inhabited

inductive Task where
  /-- Watches the manifest of a project. -/
  | watchManifest (project : ProjectRef)
  | watchLockFile (project : ProjectRef)
  /-- Connects to a host that accepts on a port. -/
  | connect (port : Nat)
  /-- Waits until the messages of the connection before are handled. -/
  | drain
  /-- Lists the projects to initialize. -/
  | enumerate
  /-- A project was added: it is initialized if the host is connected. -/
  | consider (project : ProjectRef)
  /-- Reads the configuration to initialize a project with. -/
  | prepare (project : ProjectRef)
  | post (project : ProjectRef) (configuration : String)
  | mark (project : ProjectRef)
  /-- Sets the build configuration. -/
  | configure (configuration : String)
  /-- Lists the projects to tell about a configuration. -/
  | broadcast (configuration : String)
  | tell (id : Nat) (configuration : String)
deriving DecidableEq, Repr

/-- The answers of the outside to a task. -/
structure Surroundings where
  phase : Supervisor.Phase := .connected
  /-- Why a watch or a dial fails, if it does. -/
  fault : Option Fault := none
deriving Repr, Inhabited

/-- What a task shows outside. -/
inductive Effect where
  | log (record : LogRecord)
  /-- A manifest is watched. -/
  | watchedManifest (path : String)
  | watchedLockFile (path : String)
  | dialed (address : String)
  | sent (message : Message)
  /-- A message of a caller could not be sent. -/
  | refused (fault : Fault)
deriving Repr

/-- What is done after the host has connected. -/
def connected (port : Nat) : List Task := [.connect port, .drain, .enumerate]

/-- What is done after a project was added. -/
def added (project : ProjectRef) : List Task :=
  [.watchManifest project, .watchLockFile project, .consider project]

/-- What is done when the build configuration changes. -/
def reconfigured (configuration : String) : List Task :=
  [.configure configuration, .broadcast configuration]

/-- What a watch comes to: the effect given, or the record that it failed. -/
def watchEffect (what : String) (project : ProjectRef) (done : Effect) : Option Fault → Effect
  | some fault => .log (.warn what [("project", .str project.path)] (some fault))
  | none => done

/-- The step that connects the channel. If the host cannot be reached, nothing more is done. -/
def connectStep (s : Shared) (port : Nat) (rest : List Task) (fault : Option Fault) :
    Shared × List Task × List Effect :=
  let dialed : Effect := .dialed (Channel.address port)
  match fault with
  | some cause =>
    (s, [], [dialed, .log (.error "connecting to compilation host" [("port", .nat port)]
      (some (Channel.dialFault port cause)))])
  | none => ({ s with channel := s.channel.replace s.system.hostId }, rest, [dialed])

/-- The step that tells the host to load a project. -/
def postStep (s : Shared) (project : ProjectRef) (configuration : String) (rest : List Task) :
    Shared × List Task × List Effect :=
  let expecting := s.system.loads.expect project.contextId
  match s.channel.send (.loadProject project.contextId project.dir configuration) with
  | .ok message =>
    ({ s with system := { s.system with loads := expecting } }, .mark project :: rest,
      [.sent message])
  | .error fault =>
    let loads := expecting.loaded project.contextId
    ({ s with system := { s.system with loads := loads } }, rest,
      [.log (.warn "initializing project" [("project", .str project.path)] (some fault))])

/-- The step that notes that a project was initialized with the host. -/
def markStep (s : Shared) (project : ProjectRef) (rest : List Task) :
    Shared × List Task × List Effect :=
  let counted := { s.system with initialized := s.system.initialized + 1 }
  match s.store.markInitialized project.contextId with
  | .ok store => ({ s with system := counted, store := store }, rest, [])
  | .error fault =>
    ({ s with system := counted }, rest,
      [.log (.warn "marking project initialized" [("project", .str project.path)] (some fault))])

/-- Does the first task of a caller: the tasks that remain and what is shown. -/
def perform (s : Shared) (task : Task) (rest : List Task) (e : Surroundings) :
    Shared × List Task × List Effect :=
  match task with
  | .watchManifest project =>
    (s, rest,
      [watchEffect "watching manifest" project (.watchedManifest project.path) e.fault])
  | .watchLockFile project =>
    (s, rest, [watchEffect "watching lock file" project
      (.watchedLockFile (Manifest.lockFile project.path)) e.fault])
  | .connect port => connectStep s port rest e.fault
  | .drain => ({ s with channel := s.channel.start }, rest, [])
  | .enumerate => (s, s.store.refs.map Task.prepare ++ rest, [])
  | .consider project =>
    (s, if e.phase = .connected then .prepare project :: rest else rest, [])
  | .prepare project => (s, .post project s.system.configuration :: rest, [])
  | .post project configuration => postStep s project configuration rest
  | .mark project => markStep s project rest
  | .configure configuration =>
    ({ s with system := { s.system with configuration := configuration } }, rest, [])
  | .broadcast configuration =>
    (s, s.store.refs.map (fun project => .tell project.contextId configuration) ++ rest, [])
  | .tell id configuration =>
    match s.channel.send (.changeConfiguration id configuration) with
    | .ok message => (s, rest, [.sent message])
    | .error fault => (s, rest, [.refused fault])

/-- Whether a task can be done now; only `drain` may have to wait. -/
def isReady (s : Shared) : Task → Bool
  | .drain => s.channel.isDrained
  | _ => true

/-- The project that the restore tool is run for, if it is tracked. -/
def restoreTarget (store : Graph.Store) (path : String) : Except Fault ProjectRef :=
  match store.contextId? path with
  | some id => .ok ⟨id, Path.clean path⟩
  | none => .error (.projectNotFound 0 path)

/-- The record that projects did not load in time. -/
def unloaded (loads : LoadTracker) (fault : Fault) : LogRecord :=
  .warn "projects did not finish loading" [("pending", .arr (loads.pending.map .nat))] (some fault)

end ProjectSystem

end CompilationBridge
