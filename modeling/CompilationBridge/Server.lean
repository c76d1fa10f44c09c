import CompilationBridge.Bridge
import CompilationBridge.Discovery
import CompilationBridge.Editor.Request
import CompilationBridge.Graph.Reconciler
import CompilationBridge.Notifier
import CompilationBridge.ProjectSystem
import CompilationBridge.Settings.Reader

/-!
The parts of the bridge put together: what becomes of the requests of editors and of the messages of
the host. Restores and hosts run beside these parts, so what is asked of them is told as an effect.
-/

namespace CompilationBridge

structure Server where
  reconciler : Graph.Reconciler
  notifier : Notifier
  channel : Channel := {}
  projects : ProjectSystem
  bridge : Bridge
deriving Inhabited

namespace Server

open CompilationBridge.Graph (ProjectRef)
open ProjectSystem (Task)

/-- The settings of all parts, in the order in which the parts are built. -/
structure Settings where
  projects : CompilationBridge.Settings.Projects
  restore : CompilationBridge.Settings.Restore
  host : CompilationBridge.Settings.Host
  bridge : CompilationBridge.Settings.Bridge
deriving Repr, Inhabited

/-- Reads the settings of all parts; the first section that cannot be used is the fault. -/
def Settings.read (strict : Bool) (t : CompilationBridge.Settings.Tree) : Except Fault Settings := do
  let projects ← CompilationBridge.Settings.projects strict t
  let restore ← CompilationBridge.Settings.restore strict t
  let host ← CompilationBridge.Settings.host strict t
  let bridge ← CompilationBridge.Settings.bridge strict t
  .ok ⟨projects, restore, host, bridge⟩

def new (settings : Settings) : Server :=
  { reconciler := .new settings.projects.sourceExtension
    notifier := { debounce := settings.projects.debounce.toNat }
    channel := { listening := true }
    projects := .new settings.projects
    bridge := .new settings.bridge 0 }

/-- What a request or message shows outside or asks of the parts beside. -/
inductive Effect where
  | log (record : LogRecord)
  | note (note : Editors.Note)
  /-- A restore is asked for. -/
  | restore (project : ProjectRef)
deriving Repr

/-- What a request comes to. -/
inductive Answer where
  | result (value : Json)
  | fault (fault : Fault)
  /-- Handling the request breaks off without an answer. -/
  | crash
  /-- An empty answer goes out first; the handler may fail after it. -/
  | farewell (fault : Option Fault)
  /-- The workspace has to be loaded before the answer. -/
  | load (root : String)
  /-- Projects have to be told before the answer. -/
  | tell (tasks : List Task)
deriving Repr

def greeting : Json := .obj [
  ("capabilities", .obj []), ("serverInfo", .obj [("name", .str "Design Time Host Bridge")])]

/-- Takes over what sending to editors has come to. -/
def told (s : Server) (o : Editors.Outcome) (failure : Fault → Option LogRecord) :
    Server × List Effect :=
  ({ s with bridge := { s.bridge with editors := o.editors } },
    o.notes.map .note ++ ((o.fault.bind failure).map Effect.log).toList)

/-- Tells editors about an event: the fault, if one of them could not be told. -/
def emit (s : Server) (event : Event) : Server × List Effect × Option Fault :=
  let o := s.bridge.editors.emit event
  let (s, effects) := s.told o fun _ => none
  (s, effects, o.fault)

/-- A manifest changed: its project is restored, and the host is told after a while. -/
def manifestChanged (s : Server) (now : Nat) (path : String) : Server × List Effect :=
  ({ s with notifier := s.notifier.manifestChanged now path },
    ((Notifier.restoreFor s.reconciler.store path).map Effect.restore).toList)

def lockFileChanged (s : Server) (now : Nat) (path : String) : Server :=
  { s with notifier := s.notifier.lockFileChanged now path }

/-- A file changed, which matters if it is a manifest or a lock file. -/
def fileChanged (s : Server) (now : Nat) (path : String) : Server × List Effect :=
  if Path.base path = Manifest.fileName then s.manifestChanged now path
  else if Path.base path = Manifest.lockFileName then (s.lockFileChanged now path, [])
  else (s, [])

/-- Takes up the changes that an editor reports, one after the other; false if one of them has a
location that cannot be taken apart. -/
def filesChanged (s : Server) (now : Nat) : List (Option Editor.FileEvent) →
    Server × List Effect × Bool
  | [] => (s, [], true)
  | none :: rest => s.filesChanged now rest
  | some change :: rest =>
    match change.path with
    | .crash => (s, [], false)
    | .refused _ => s.filesChanged now rest
    | .path path =>
      let (s, effects) := s.fileChanged now path
      let (s, more, whole) := s.filesChanged now rest
      (s, effects ++ more, whole)

/-- An editor opens a workspace. -/
def openWorkspace (s : Server) (id : Handle) (params : Editor.InitializeParams) :
    Server × Answer :=
  match s.bridge.sessions.get id with
  | .error fault => (s, .fault (.context "getting session from context" fault))
  | .ok session =>
    match params.workspaceRoot with
    | .crash => (s, .crash)
    | .refused fault => (s, .fault (.context "getting workspace root" fault))
    | .path root =>
      let (bridge, admission) := s.bridge.accept session root
      let s := { s with bridge := bridge }
      match admission with
      | .first => (s, .load root)
      | .shared => (s, .result greeting)
      | .refused served =>
        (s, .fault (.text ("bridge already serves workspace " ++ Text.quote served)))

/-- An editor is ready: it is shown what was loaded. -/
def ready (s : Server) (id : Handle) : Server × Answer × List Effect :=
  match s.bridge.sessions.get id with
  | .error fault => (s, .fault (.context "getting session from context" fault), [])
  | .ok session =>
    let (level, message) := Bridge.welcome s.reconciler.store.projects.size session.workspaceRoot
    let (s, effects) := s.told (s.bridge.editors.showMessage (some id) level message) fun fault =>
      some (.warn "sending initialized message" [] (some fault))
    (s, .result .null, effects)

/-- What becomes of a request of the editor with a session. -/
def handle (s : Server) (now : Nat) (id : Handle) (request : Editor.Request) :
    Server × Answer × List Effect :=
  match request with
  | .malformed fault => (s, .fault fault, [])
  | .openWorkspace params =>
    let (s, answer) := s.openWorkspace id params
    (s, answer, [])
  | .ready => s.ready id
  | .shutdown => (s, .result .null, [])
  | .exit =>
    let (bridge, fault) := s.bridge.exit id now
    ({ s with bridge := bridge }, .farewell fault, [])
  | .fullShutdown => ({ s with bridge := s.bridge.requestFullShutdown }, .result .null, [])
  | .filesChanged params =>
    let (s, effects, whole) := s.filesChanged now (params.changes.getD [])
    (s, if whole then .result .null else .crash, effects)
  | .projects =>
    (s, .result (.arr (s.reconciler.store.snapshots.map Graph.ProjectSnapshot.toJson)), [])
  | .workspace =>
    (s, .result (.arr (s.reconciler.workspace.snapshot.map Workspace.Snapshot.toJson)), [])
  | .restore params =>
    match ProjectSystem.restoreTarget s.reconciler.store params.fileName with
    | .ok project => (s, .result .null, [.restore project])
    | .error fault => (s, .fault fault, [])
  | .configure params => (s, .tell (ProjectSystem.reconfigured params.configuration), [])
  | .unknown method =>
    ({ s with bridge := s.bridge.countUnknown method }, .fault (.methodNotFound method), [])

/-- Tracks a manifest that was found, with how it was found. -/
def trackManifest (found : Discovery.Found) (s : Server × List Task) (manifest : String) :
    Server × List Task :=
  let (s, tasks) := s
  let (reconciler, project, _) := s.reconciler.track manifest
  let store := match reconciler.store.updateSettings project.contextId found.searchPaths
      found.settingsPath with
    | .ok store => store
    | .error _ => reconciler.store
  ({ s with reconciler := { reconciler with store := store } },
    tasks ++ [.watchManifest project, .watchLockFile project])

/-- The fault that a workspace could not be loaded. -/
def loadFault (root : String) (cause : Fault) : Fault :=
  .context ("loading workspace " ++ Text.quote root) cause

/-- Begins to load a workspace: its projects are tracked, and the tasks are to watch them. -/
def load (s : Server) (view : Discovery.FileView) (root hostId : String) :
    Server × Except Fault (List Task) × List LogRecord :=
  match s.projects.claim hostId with
  | .error fault => (s, .error (loadFault root fault), [])
  | .ok projects =>
    let s := { s with projects := projects }
    let top := Path.clean root
    match Discovery.discover view top with
    | (.error fault, logs) =>
      (s, .error (loadFault root
        (.context ("discovering projects under " ++ Text.quote top) fault)), logs)
    | (.ok found, logs) =>
      let (s, tasks) := found.manifests.foldl (trackManifest found) (s, [])
      (s, .ok tasks, logs)

/-- What tasks of the project system read and change. -/
def shared (s : Server) : ProjectSystem.Shared :=
  ⟨s.projects, s.reconciler.store, s.channel⟩

def withShared (s : Server) (x : ProjectSystem.Shared) : Server :=
  { s with
    projects := x.system
    reconciler := { s.reconciler with store := x.store }
    channel := x.channel }

/-- What follows an announcement of the project graph: effects, and tasks of the project system. -/
def announce (s : Server) (notice : Graph.Notice) : Server × List Effect × List Task :=
  match notice with
  | .log record => (s, [.log record], [])
  | .showError text =>
    let (s, effects) := s.told (s.bridge.editors.logMessage 1 text) notice.failure
    (s, effects, [])
  | .emit event =>
    let (s, effects) := s.told (s.bridge.editors.emit event) notice.failure
    (s, effects, [])
  | .added project => (s, [], ProjectSystem.added project)
  | .unresolved project => (s, [.restore project], [])
  | .loaded project =>
    ({ s with projects :=
        { s.projects with loads := s.projects.loads.loaded project.contextId } }, [], [])

/-- Applies a message of the host to the project graph: the announcements that follow. -/
def apply (s : Server) (message : Message) : Server × List Graph.Notice × List LogRecord :=
  let (reconciler, notices) := s.reconciler.apply message
  ({ s with reconciler := { reconciler with logs := [] } }, notices, reconciler.logs)

def counters (s : Server) : Counters :=
  s.reconciler.tally.counters ++ s.notifier.tally.counters ++ s.bridge.counters ++
    [("project_system.initialized", s.projects.initialized)]

end Server

end CompilationBridge
