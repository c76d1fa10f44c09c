import CompilationBridge.Counters
import CompilationBridge.Editors
import CompilationBridge.LogRecord
import CompilationBridge.Sessions
import CompilationBridge.Settings.Sections

/-!
The side of the bridge that faces editors. All editors of one bridge open the same workspace; the
first one that names a root has it loaded. While no editor is connected an idle timer runs, and the
bridge asks to be shut down when it expires. After a full shutdown was requested, the next exit lets
the timer expire at once.
-/

namespace CompilationBridge

structure Bridge where
  idleTimeout : Nat
  /-- The root of the workspace that is served, empty before the first editor names one. -/
  root : String := ""
  fullShutdown : Bool := false
  /-- When the idle timer expires, if it is armed. -/
  timer : Option Nat
  sessions : Sessions := {}
  editors : Editors := {}
  connections : Nat := 0
  sharedSessions : Nat := 0
  unknownMethods : Table String Nat := .empty
deriving Repr, Inhabited

namespace Bridge

/-- A bridge that no editor is connected to. -/
def new (settings : Settings.Bridge) (now : Nat) : Bridge :=
  let timeout := settings.idleTimeout.toNat
  { idleTimeout := timeout, timer := some (now + timeout) }

/-- Rearms the idle timer if no session is left, and stops it otherwise. -/
def refreshTimer (b : Bridge) (now : Nat) : Bridge :=
  { b with timer := if b.sessions.count = 0 then some (now + b.idleTimeout) else none }

/-- An editor connects: a session of its own begins, unless it has no connection. -/
def openSession (b : Bridge) (id : Handle) (connection : Option String) (now : Nat) :
    Bridge × Option Fault :=
  match b.editors.register id connection with
  | .ok editors =>
    let b := { b with
      editors := editors
      sessions := b.sessions.set { id := id }
      connections := b.connections + 1 }
    (b.refreshTimer now, none)
  | .error fault =>
    (b.refreshTimer now, some (.context "error while creating new connection" fault))

/-- A session ends; one that has ended changes nothing but the timer. -/
def endSession (b : Bridge) (id : Handle) (now : Nat) : Bridge :=
  { b with
    editors := b.editors.deregister id
    sessions := b.sessions.delete id }.refreshTimer now

/-- What becomes of the root that an editor opens. -/
inductive Admission where
  /-- The root has to be loaded. -/
  | first
  | shared
  | refused (served : String)
deriving DecidableEq, Repr

/-- An editor opens a root. -/
def accept (b : Bridge) (session : Session) (root : String) : Bridge × Admission :=
  let b := { b with sessions := b.sessions.set { session with workspaceRoot := root } }
  if b.root = "" then ({ b with root := root }, .first)
  else if b.root = root then ({ b with sharedSessions := b.sharedSessions + 1 }, .shared)
  else (b, .refused b.root)

/-- The message that an editor is shown when it is ready: its level and its text. -/
def welcome (projects : Nat) (root : String) : Int × String :=
  if projects = 0 then (2, "No projects found under " ++ root ++ ".")
  else (3, "Loaded " ++ toString projects ++ " projects from " ++ root ++ ".")

def requestFullShutdown (b : Bridge) : Bridge :=
  { b with fullShutdown := true }

/-- An editor exits: its session ends, or the whole bridge after a full shutdown was requested. -/
def exit (b : Bridge) (id : Handle) (now : Nat) : Bridge × Option Fault :=
  if b.fullShutdown then ({ b with timer := some now }, none)
  else match b.sessions.get id with
    | .ok session => (b.endSession session.id now, none)
    | .error fault => (b, some (.context "error during session exit" fault))

/-- The idle timer expires. -/
def expire (b : Bridge) : Bridge :=
  { b with timer := none }

/-- The bridge is taken down. -/
def stop (b : Bridge) : Bridge :=
  { b with timer := none }

/-- The record that the bridge could not ask for its shutdown. -/
def shutdownFailure (fault : Fault) : LogRecord :=
  .error "shutting down" [] (some fault)

def countUnknown (b : Bridge) (method : String) : Bridge :=
  let n := (b.unknownMethods.get? method).getD 0
  { b with unknownMethods := b.unknownMethods.put method (n + 1) }

def counters (b : Bridge) : Counters :=
  [("json_rpc.connections", b.connections), ("bridge.shared_sessions", b.sharedSessions)] ++
    Counters.tagged "json_rpc.unknown_method" "method" b.unknownMethods

end Bridge

end CompilationBridge
