import CompilationBridge.Labels
import CompilationBridge.Simulation.Channel
import CompilationBridge.Simulation.Restores
import CompilationBridge.Server

/-!
The whole bridge in a world of its own: files, processes, the far ends of connections and the clock
are scripted, and what the bridge does towards them is collected. An editor's requests are handled
one at a time; one that opens a workspace may have to wait for the host and for projects to load.
After each step everything has run until it waits, and the clock moves only by `advance`.
-/

namespace CompilationBridge.Simulation

open ProjectSystem (Task)

/-- What a request that is not answered yet waits for. -/
inductive Wait where
  | host (root : String)
  | projects (waiter : LoadTracker.Waiter) (deadline : Nat)
deriving Repr

/-- The connection of an editor, with the requests that were not taken up. -/
structure EditorLink where
  name : String
  session : Handle
  isOpen : Bool := true
  requests : List (Nat × Editor.Request) := []
  /-- The number of the request that is being handled, and what it waits for. -/
  busy : Option (Nat × Wait) := none
  count : Nat := 0
deriving Repr

/-- What an editor was answered. -/
inductive Reply where
  | result (value : Json)
  | fault (fault : Fault)
  | crash
  /-- The handler failed after it had answered. -/
  | handlerFault (fault : Fault)
deriving Repr

/-- Parts of the world that may fail. -/
inductive ServerNeed where
  | watch
  | shutdown
deriving DecidableEq, Repr

structure ServerBench where
  server : Server
  hosts : HostBench
  restores : RestoreBench
  outages : Outages ServerNeed := {}
  files : FileTree := {}
  /-- The faults of looks at files, by the look and the path. -/
  fileFaults : Table String String := .empty
  links : List EditorLink := []
  /-- The watched paths, and whether each is a lock file. -/
  watchers : List (String × Bool) := []
  isServing : Bool := true
  /-- Whether the host has connected since it was first started. -/
  wasConnected : Bool := false
  now : Nat := 0
  logs : List LogRecord := []
  replies : List (String × Nat × Reply) := []
  notes : List Editors.Note := []
  served : List String := []
  sent : List Message := []
  dialed : List String := []
  responses : List Channel.Reply := []
  watched : List String := []
  shutdowns : Nat := 0
deriving Inhabited

namespace ServerBench

def new (settings : Server.Settings) (processors : Nat) (scripts : List HostScript)
    (files : FileTree) (fileFaults : Table String String) : ServerBench :=
  { server := .new settings
    hosts := .new settings.host scripts
    restores := .new settings.restore processors
    files := files
    fileFaults := fileFaults }

/-- Forgets what was seen. -/
def clear (b : ServerBench) : ServerBench :=
  { b with
    hosts := b.hosts.clear
    restores := b.restores.clear
    logs := []
    replies := []
    notes := []
    served := []
    sent := []
    dialed := []
    responses := []
    watched := []
    shutdowns := 0 }

/-- The handle of a session, apart from those of projects. -/
def sessionHandle (n : Nat) : Handle := ⟨0x800000000000 + n⟩

/-- The handle that the host is told as its id. -/
def hostHandle : Handle := ⟨0x400000000000⟩

/-- A look at a file, which fails if a fault is set for it. -/
def look {α : Type} (b : ServerBench) (kind path : String) (answer : α) : Except Fault α :=
  match b.fileFaults.get? (kind ++ ":" ++ path) with
  | some message => .error (.text message)
  | none => .ok answer

def nodeAt (b : ServerBench) (path : String) : Option FileTree.Node :=
  b.files.node? (FileTree.route path)

/-- The files as the bridge sees them. -/
def fileView (b : ServerBench) : Discovery.FileView where
  fileExists path := b.look "FileExists" path ((b.nodeAt path).any (!·.isDirectory))
  directoryExists path := b.look "DirExists" path ((b.nodeAt path).any (·.isDirectory))
  list path := b.look "ReadDir" path (b.files.entriesOf (FileTree.route path))
  read path :=
    match b.nodeAt path with
    | some (.file text) => b.look "ReadFile" path text
    | _ => .error (.text "file does not exist")

/-- The newest connection of an editor. -/
def link? (b : ServerBench) (name : String) : Option EditorLink :=
  b.links.reverse.find? (·.name = name)

def modifyLink (b : ServerBench) (session : Handle) (f : EditorLink → EditorLink) : ServerBench :=
  { b with links := b.links.map fun l => if l.session = session then f l else l }

def reply (b : ServerBench) (name : String) (number : Nat) (r : Reply) : ServerBench :=
  { b with replies := b.replies ++ [(name, number, r)] }

/-- The serving of an editor ends: its connection is closed and its session with it. -/
def endServing (b : ServerBench) (link : EditorLink) : ServerBench :=
  if link.isOpen then
    let b := b.modifyLink link.session fun l => { l with isOpen := false, requests := [] }
    { b with
      server := { b.server with bridge := b.server.bridge.endSession link.session b.now }
      served := b.served ++ [link.name] }
  else b

/-- Carries out an effect of the server. -/
def carryOut (b : ServerBench) : Server.Effect → ServerBench
  | .log record => { b with logs := b.logs ++ [record] }
  | .note note => { b with notes := b.notes ++ [note] }
  | .restore project =>
    { b with restores := { b.restores with restores := b.restores.restores.run project } }

/-- The fault of what a task asks of the world, if it fails. -/
def taskFault (b : ServerBench) : Task → ServerBench × Option Fault
  | .watchManifest _ | .watchLockFile _ =>
    let (failing, outages) := b.outages.draw .watch
    ({ b with outages := outages }, if failing then some injectedFault else none)
  | .connect port =>
    (b, if (b.hosts.script (port - HostBench.portOf 0)).dialError then some injectedFault else none)
  | .drain =>
    match b.server.channel.draining with
    | some i =>
      ({ b with server := { b.server with channel := b.server.channel.settle i } }, none)
    | none => (b, none)
  | _ => (b, none)

/-- Takes note of an effect of a task; a fault of its caller is gathered. -/
def witness (state : ServerBench × List Fault) (effect : ProjectSystem.Effect) :
    ServerBench × List Fault :=
  let (b, faults) := state
  match effect with
  | .log record => ({ b with logs := b.logs ++ [record] }, faults)
  | .watchedManifest path =>
    ({ b with watched := b.watched ++ [path], watchers := b.watchers ++ [(path, false)] }, faults)
  | .watchedLockFile path =>
    ({ b with watched := b.watched ++ [path], watchers := b.watchers ++ [(path, true)] }, faults)
  | .dialed address => ({ b with dialed := b.dialed ++ [address] }, faults)
  | .sent message => ({ b with sent := b.sent ++ [message] }, faults)
  | .refused fault => (b, faults ++ [fault])

/-- Does tasks one after the other, and gathers the faults of their caller. -/
def runTasks : Nat → ServerBench × List Fault → List Task → ServerBench × List Fault
  | _, state, [] => state
  | 0, state, _ :: _ => state
  | fuel + 1, (b, faults), task :: rest =>
    let (b, fault) := b.taskFault task
    let e : ProjectSystem.Surroundings := { phase := b.hosts.supervisor.phase, fault := fault }
    let (shared, rest, effects) := ProjectSystem.perform b.server.shared task rest e
    let b := { b with server := b.server.withShared shared }
    runTasks fuel (effects.foldl witness (b, faults)) rest

def doTasks (b : ServerBench) (tasks : List Task) : ServerBench × List Fault :=
  runTasks SupervisorBench.instantFuel (b, []) tasks

/-- Sends a message to the host: the fault, if it cannot be sent. -/
def send (b : ServerBench) (m : Message) : ServerBench × Option Fault :=
  match b.server.channel.send m with
  | .ok m => ({ b with sent := b.sent ++ [m] }, none)
  | .error fault => (b, some fault)

/-- Begins to load a workspace: its projects are watched and the host is started. -/
def load (b : ServerBench) (link : EditorLink) (number : Nat) (root : String) : ServerBench :=
  let (server, tasks, logs) := b.server.load b.fileView root hostHandle.text
  let b := { b with server := server, logs := b.logs ++ logs }
  match tasks with
  | .error fault => b.reply link.name number (.fault fault)
  | .ok tasks =>
    let (b, _) := b.doTasks tasks
    let hosts := { b.hosts with supervisor := b.hosts.supervisor.start hostHandle.text }
    { b with hosts := hosts }.modifyLink link.session fun l =>
      { l with busy := some (number, .host root) }

/-- Answers a request, or begins what has to be done before. -/
def answer (b : ServerBench) (link : EditorLink) (number : Nat) :
    Server.Answer → ServerBench
  | .result value => b.reply link.name number (.result value)
  | .fault fault => b.reply link.name number (.fault fault)
  | .crash => b.reply link.name number .crash
  | .farewell none => b.reply link.name number (.result .null)
  | .farewell (some fault) =>
    ((b.reply link.name number (.result .null)).reply link.name number
      (.handlerFault fault)).endServing link
  | .load root => b.load link number root
  | .tell tasks =>
    let (b, faults) := b.doTasks tasks
    match Fault.join faults with
    | some fault => b.reply link.name number (.fault fault)
    | none => b.reply link.name number (.result .null)

/-- Takes up the next request of an editor that handles none. -/
def handleNext? (b : ServerBench) : Option ServerBench := do
  let link ← b.links.find? fun l => l.isOpen && l.busy.isNone && !l.requests.isEmpty
  match link.requests with
  | [] => none
  | (number, request) :: rest =>
    let b := b.modifyLink link.session fun l => { l with requests := rest }
    let (server, answer, effects) := b.server.handle b.now link.session request
    let b := effects.foldl carryOut { b with server := server }
    some (b.answer link number answer)

/-- The host has been started or not: the request that waits for it goes on. -/
def hostReturned (b : ServerBench) : ServerBench :=
  b.links.foldl (fun b link => match link.busy with
    | some (number, .host root) =>
      if b.wasConnected then
        let deadline := b.now + b.server.projects.loadTimeout
        b.modifyLink link.session fun l =>
          { l with busy := some (number, .projects .checking deadline) }
      else
        (b.modifyLink link.session fun l => { l with busy := none }).reply link.name number
          (.fault (Server.loadFault root .hostUnavailable))
    | _ => b) b

/-- A request has waited long enough for projects to load. -/
def loadsEnded (b : ServerBench) (link : EditorLink) (number : Nat) (fault : Option Fault) :
    ServerBench :=
  let record := fault.map (ProjectSystem.unloaded b.server.projects.loads)
  ({ b with logs := b.logs ++ record.toList }.modifyLink link.session fun l =>
    { l with busy := none }).reply link.name number (.result Server.greeting)

/-- The step of a request that waits for projects to load. -/
def waitOn (b : ServerBench) (link : EditorLink) : Option ServerBench :=
  match link.busy with
  | some (number, .projects waiter deadline) =>
    (waiter.step? b.server.projects.loads (deadline ≤ b.now) (!b.isServing) .changed).map fun
      | .loaded => b.loadsEnded link number none
      | .timedOut => b.loadsEnded link number (some (.text "timed out"))
      | .cancelled => b.loadsEnded link number (some .cancelled)
      | waiter => b.modifyLink link.session fun l =>
        { l with busy := some (number, .projects waiter deadline) }
  | _ => none

/-- Draws whether a use of a process fails. -/
def drawProcess (b : ServerBench) (need : ProcessNeed) : ServerBench × Option Fault :=
  let (failing, outages) := b.restores.outages.draw (.process need)
  ({ b with restores := { b.restores with outages := outages } },
    if failing then some injectedFault else none)

/-- The host has connected: the project system is called back. -/
def callBack (b : ServerBench) (port : Nat) : ServerBench :=
  ({ b with wasConnected := true }.doTasks (ProjectSystem.connected port)).1

/-- One step of the supervisor, with the calls that it makes. -/
def moveHost (b : ServerBench) (i : Nat) (w : Supervisor.Worker) : ServerBench :=
  let (b, refusal) := if HostBench.terminates w then b.drawProcess .terminate else (b, none)
  let hosts := b.hosts.move i w refusal
  let b := { b with hosts := { hosts with connected := [] } }
  let b := hosts.connected.foldl callBack b
  if hosts.returned.any (·.1 = Supervisor.Role.starter) then
    { b with hosts := { b.hosts with
        returned := b.hosts.returned.filter (·.1 ≠ Supervisor.Role.starter) } }.hostReturned
  else b

/-- The fault of what a run of the restore tool asks for. -/
def restoreFault (b : ServerBench) (x : Restores.Run) : ServerBench × Option Fault :=
  match x.event?, restoreNeed? x.point with
  | some event, _ =>
    let (server, effects, fault) := b.server.emit event
    (effects.foldl carryOut { b with server := server }, fault)
  | none, some (.process need) => b.drawProcess need
  | none, some .send => b.send (Restores.completion x.project)
  | none, _ => (b, none)

/-- One step of whatever is ready. -/
def step? (b : ServerBench) : Option ServerBench :=
  match b.hosts.supervisor.ready? b.now with
  | some (i, w) => some (b.moveHost i w)
  | none =>
    match b.restores.restores.ready? b.now with
    | some (i, x) =>
      let (b, fault) := b.restoreFault x
      some { b with restores := b.restores.move i fault }
    | none =>
      match b.links.findSome? b.waitOn with
      | some b => some b
      | none => b.handleNext?

/-- Runs until everything waits. -/
def settle (b : ServerBench) : ServerBench :=
  iterate step? SupervisorBench.instantFuel b

/-- An editor connects. -/
def connect (b : ServerBench) (name : String) : ServerBench :=
  let link : EditorLink := { name := name, session := sessionHandle b.links.length }
  let (bridge, _) := b.server.bridge.openSession link.session (some name) b.now
  let b := { b with
    server := { b.server with bridge := bridge }
    links := b.links ++ [link] }
  if b.isServing then b else b.endServing link

def disconnect (b : ServerBench) (name : String) : ServerBench :=
  (((b.link? name).map b.endServing).getD b).settle

/-- Serving ends for all editors. -/
def closeServer (b : ServerBench) : ServerBench :=
  (b.links.foldl endServing { b with isServing := false }).settle

def request (b : ServerBench) (name : String) (request : Editor.Request) : ServerBench :=
  match b.link? name with
  | some link =>
    (b.modifyLink link.session fun l =>
      if l.isOpen then
        { l with requests := l.requests ++ [(l.count + 1, request)], count := l.count + 1 }
      else l).settle
  | none => b

/-- Carries out what follows a message of the host. -/
def announce (b : ServerBench) (notice : Graph.Notice) : ServerBench :=
  let (server, effects, tasks) := b.server.announce notice
  ((effects.foldl carryOut { b with server := server }).doTasks tasks).1

/-- Handles a request of the host. -/
def receive (b : ServerBench) (r : Channel.Request) : ServerBench :=
  let verdict := r.verdict b.server.channel.listening
  let b := { b with
    logs := b.logs ++ verdict.logs
    responses := b.responses ++ (if r.isCall then [verdict.reply] else []) }
  match verdict with
  | .heard message =>
    let (server, notices, logs) := b.server.apply message
    notices.foldl announce { b with server := server, logs := b.logs ++ logs }
  | _ => b

def withChannel (b : ServerBench) (channel : Channel) : ServerBench :=
  { b with server := { b.server with channel := channel } }

/-- The host writes to its newest connection. -/
def post (b : ServerBench) (r : Channel.Request) : ServerBench × Delivery :=
  let channel := b.server.channel
  match channel.newest? with
  | none => (b, .noHost)
  | some i =>
    if !channel.isOpen i then (b, .failed)
    else if r.method = "" then (b, .accepted)
    else
      let b := (b.withChannel ((channel.arrive i r).read i)).receive r
      ((b.withChannel (b.server.channel.finish i)).settle, .accepted)

/-- The host closes its newest connection. -/
def hangUp (b : ServerBench) : ServerBench :=
  match b.server.channel.newest? with
  | some i => b.withChannel ((b.server.channel.hangUp i).settle i)
  | none => b

/-- A file changes: those who watch it are called; how many there are. -/
def fileChanged (b : ServerBench) (path : String) : ServerBench × Nat :=
  let called := b.watchers.filter (·.1 = path)
  let b := called.foldl (fun b (path, isLock) =>
    if isLock then { b with server := b.server.lockFileChanged b.now path }
    else
      let (server, effects) := b.server.manifestChanged b.now path
      effects.foldl carryOut { b with server := server }) b
  (b.settle, called.length)

def hostExit (b : ServerBench) (code : Int) : ServerBench × Bool :=
  match b.hosts.running? with
  | some process => ({ b with hosts := b.hosts.exit process code }.settle, true)
  | none => (b, false)

def hostOutput (b : ServerBench) (line : String) : ServerBench × Bool :=
  let (hosts, needs, found) := b.hosts.output line b.restores.needs
  ({ b with hosts := hosts, restores := { b.restores with needs := needs } }, found)

def restoreExit (b : ServerBench) (directory : String) (code : Int) : ServerBench × Bool :=
  match b.restores.running? directory with
  | some process =>
    let restores := { b.restores with restores := b.restores.restores.exit process code }
    ({ b with restores := restores }.settle, true)
  | none => (b, false)

def restoreOutput (b : ServerBench) (directory line : String) : ServerBench × Bool :=
  let (restores, found) := b.restores.output directory line
  ({ b with restores := restores }, found)

/-- The times at which something is due. -/
def due (b : ServerBench) : List Nat :=
  b.hosts.due ++ b.restores.restores.ticks ++ b.server.bridge.timer.toList ++
    b.server.notifier.timers.values.filterMap Notifier.dueOf ++
    b.links.filterMap fun l => match l.busy with
      | some (_, .projects _ deadline) => some deadline
      | _ => none

/-- Runs the callback of a notifier's timer. -/
def fire (b : ServerBench) (k : Notifier.Key) : ServerBench :=
  let (n, b, records) := b.server.notifier.fire send b b.server.reconciler.store k
  { b with server := { b.server with notifier := n }, logs := b.logs ++ records }

def fireNotifier? (b : ServerBench) : Option ServerBench :=
  (b.server.notifier.nextDue? b.now).map fun (_, k) => b.fire k

/-- The idle timer expires: the bridge asks for its shutdown. -/
def fireIdle (b : ServerBench) : ServerBench :=
  if b.server.bridge.timer.any (· ≤ b.now) then
    let (failing, outages) := b.outages.draw .shutdown
    { b with
      server := { b.server with bridge := b.server.bridge.expire }
      outages := outages
      shutdowns := b.shutdowns + 1
      logs := b.logs ++ (if failing then [Bridge.shutdownFailure injectedFault] else []) }
  else b

def setClock (b : ServerBench) (now : Nat) : ServerBench :=
  { b with
    now := now
    hosts := b.hosts.setClock now
    restores := { b.restores with now := now } }

/-- Goes to the next time at which something is due, if it is not after a limit. -/
def nextTime? (limit : Nat) (b : ServerBench) : Option ServerBench :=
  match earliest b.due with
  | some time =>
    if time ≤ limit then
      let b := b.setClock (max b.now time)
      some (iterate fireNotifier? SupervisorBench.instantFuel b).fireIdle.settle
    else none
  | none => none

def advance (b : ServerBench) (span : Nat) : ServerBench :=
  if span = 0 then b
  else
    let limit := b.now + span
    (iterate (nextTime? limit) SupervisorBench.advanceFuel b).setClock limit

/-- Takes the bridge down: the faults on the way. -/
def stop (b : ServerBench) : ServerBench × List Fault :=
  let server := { b.server with bridge := b.server.bridge.stop, notifier := b.server.notifier.stop }
  let hosts := { b.hosts with supervisor := b.hosts.supervisor.stop }
  let b := { b with server := server, hosts := hosts }.settle
  let restores := { b.restores with restores := b.restores.restores.cancel }
  let b := { b with restores := restores }.settle
  (b.withChannel b.server.channel.close, b.hosts.returned.filterMap (·.2))

/-- The labels that stand for handles, after those of earlier steps. -/
def labels (b : ServerBench) (old : Labels) : Labels :=
  let fixed := (hostHandle, "<hostId>") :: b.links.map fun l =>
    (l.session, "<session:" ++ l.name ++ ">")
  let kept := old.names.filter fun (h, _) => !fixed.any (·.1 = h)
  { old with names := fixed ++ kept }.addStore b.server.reconciler.store

/-- The name of the editor with a session. -/
def editorName (b : ServerBench) (session : Handle) : String :=
  ((b.links.find? (·.session = session)).map (·.name)).getD ""

/-- All records, of the server and of what runs beside it. -/
def allLogs (b : ServerBench) : List LogRecord :=
  b.logs ++ b.hosts.logs ++ b.restores.logs

def counters (b : ServerBench) : Counters :=
  b.server.counters ++ b.hosts.supervisor.tally.counters ++ b.restores.restores.tally.counters

end ServerBench

end CompilationBridge.Simulation
