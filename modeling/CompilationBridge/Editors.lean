import CompilationBridge.Event
import CompilationBridge.Outages

/-!
The connected editors. Events and log messages go to every editor, in the order of their handles; a
failure towards one editor does not keep the others from being told. The start of a restore also
creates a progress token with each editor and begins it, and its finish ends the token with those
editors where it was created.
-/

namespace CompilationBridge

namespace Editors

/-- What is sent over an editor's connection. -/
structure Note where
  editor : Handle
  /-- Whether the editor has to answer. -/
  isCall : Bool
  method : String
  params : Json
deriving Repr

/-- A note as a document, by the name of its editor. -/
def Note.toJson (n : Note) (name : String) : Json := .obj [
  ("editor", .str name), ("kind", .str (if n.isCall then "call" else "notify")),
  ("method", .str n.method), ("params", n.params)]

/-- The part that fails when a send fails: an editor's connection, for one method or for all. -/
structure Line where
  name : String
  method : Option String := none
deriving DecidableEq, Repr

/-- The progress that goes with an event. -/
inductive Progress where
  | start (path : String)
  | finish (path : String) (succeeded : Bool)
deriving DecidableEq, Repr

def token (path : String) : String := "dth/restore:" ++ path

/-- The token that a progress is about. -/
def Progress.token : Progress → String
  | .start path => Editors.token path
  | .finish path _ => Editors.token path

def Progress.value : Progress → Json
  | .start path => .obj ([("kind", .str "begin"), ("title", .str "Restoring packages")] ++
      (if path = "" then [] else [("message", .str path)]))
  | .finish _ succeeded => .obj [("kind", .str "end"),
      ("message", .str (if succeeded then "restore succeeded" else "restore failed"))]

/-- Restore events carry progress. -/
def progressOf (e : Event) : Option Progress :=
  match e.body with
  | .restore path succeeded =>
    if e.type = Event.startedType then some (.start path)
    else if e.type = Event.finishedType then some (.finish path succeeded)
    else none
  | _ => none

end Editors

structure Editors where
  /-- The connection of each editor. -/
  clients : Table Handle String := .empty
  /-- The tokens that each editor has created and not ended. -/
  progress : Table Handle (List String) := .empty
  outages : Outages Editors.Line := {}
deriving Repr, Inhabited

namespace Editors

/-- Registers an editor, which must have a connection. -/
def register (e : Editors) (id : Handle) (connection : Option String) : Except Fault Editors :=
  match connection with
  | some name => .ok { e with clients := e.clients.put id name }
  | none => .error (.text
      ("registering editor " ++ Text.quote id.text ++ ": connection is required"))

def deregister (e : Editors) (id : Handle) : Editors :=
  { e with clients := e.clients.erase id, progress := e.progress.erase id }

/-- The ids of the registered editors, in order. -/
def ids (e : Editors) : List Handle :=
  e.clients.keys.mergeSort Handle.le

/-- Whether a send over a connection fails: first by its method, then by the connection. -/
def drawLine (o : Outages Line) (name method : String) : Bool × Outages Line :=
  match o.draw ⟨name, some method⟩ with
  | (true, o) => (true, o)
  | (false, o) => o.draw ⟨name, none⟩

/-- What a series of sends has come to: the notes sent and the fault that ended it. -/
structure Outcome where
  editors : Editors
  notes : List Note := []
  fault : Option Fault := none

/-- Sends one note to an editor. -/
def post (e : Editors) (n : Note) : Outcome :=
  let name := (e.clients.get? n.editor).getD ""
  let (failing, outages) := drawLine e.outages name n.method
  ⟨{ e with outages := outages }, [n], if failing then some injectedFault else none⟩

/-- Goes on with another send if the sends so far succeeded. -/
def Outcome.andThen (o : Outcome) (next : Editors → Outcome) : Outcome :=
  match o.fault with
  | some _ => o
  | none =>
    let more := next o.editors
    ⟨more.editors, o.notes ++ more.notes, more.fault⟩

def Outcome.mapFault (o : Outcome) (f : Fault → Fault) : Outcome :=
  { o with fault := o.fault.map f }

def tokens (e : Editors) (id : Handle) : List String :=
  (e.progress.get? id).getD []

def progressNote (id : Handle) (p : Progress) : Note :=
  ⟨id, false, "$/progress", .obj [("token", .str p.token), ("value", p.value)]⟩

def createNote (id : Handle) (p : Progress) : Note :=
  ⟨id, true, "window/workDoneProgress/create", .obj [("token", .str p.token)]⟩

/-- Sends the progress of an event to an editor. -/
def sendProgress (e : Editors) (id : Handle) (p : Progress) : Outcome :=
  match p with
  | .start _ =>
    ((e.post (createNote id p)).mapFault (.context "creating restore progress")).andThen fun e =>
      let held := e.tokens id
      let e := { e with
        progress := e.progress.put id (if p.token ∈ held then held else held ++ [p.token]) }
      e.post (progressNote id p)
  | .finish _ _ =>
    let held := e.tokens id
    if p.token ∈ held then
      { e with progress := e.progress.put id (held.erase p.token) }.post (progressNote id p)
    else ⟨e, [], none⟩

/-- Sends an event to an editor, and its progress after it. -/
def sendEvent (event : Event) (e : Editors) (id : Handle) : Outcome :=
  (e.post ⟨id, false, event.type, event.body.toJson⟩).andThen fun e =>
    match progressOf event with
    | some p => e.sendProgress id p
    | none => ⟨e, [], none⟩

/-- The fault of a send to an editor. -/
def sendFault (id : Handle) (cause : Fault) : Fault :=
  .context ("sending notification to editor " ++ Text.quote id.text) cause

/-- Sends to each editor in turn, and gathers what failed. -/
def broadcast (send : Editors → Handle → Outcome) (e : Editors) : Outcome :=
  let (e, notes, faults) := e.ids.foldl (fun (e, notes, faults) id =>
    let o := send e id
    (o.editors, notes ++ o.notes, faults ++ (o.fault.map (sendFault id)).toList)) (e, [], [])
  ⟨e, notes, Fault.join faults⟩

def emit (e : Editors) (event : Event) : Outcome :=
  e.broadcast (sendEvent event)

/-- The levels of messages for the user. -/
def messageParams (level : Int) (message : String) : Json :=
  .obj [("type", .int level), ("message", .str message)]

def logMessage (e : Editors) (level : Int) (message : String) : Outcome :=
  e.broadcast fun e id => e.post ⟨id, false, "window/logMessage", messageParams level message⟩

/-- Shows a message to the editor of a request, which carries its handle or none. -/
def showMessage (e : Editors) (id : Option Handle) (level : Int) (message : String) : Outcome :=
  match id with
  | none => ⟨e, [], some .noSession⟩
  | some id =>
    if e.clients.contains id then
      (e.post ⟨id, false, "window/showMessage", messageParams level message⟩).mapFault
        (sendFault id)
    else ⟨e, [], some (.text ("client with id " ++ Text.quote id.text ++ " not found"))⟩

end Editors

end CompilationBridge
