import CompilationBridge.LogRecord
import CompilationBridge.Message.Printer
import CompilationBridge.Message.Reader

/-!
The channel to the compilation host. Each connection has a read loop of its own that takes the host's
requests in the order in which they arrive and handles one before it reads the next. A new connection
replaces the one before it: the old one is closed, its read loop is waited for, and only then the new
read loop starts, so messages of two connections are never handled at the same time.
-/

namespace CompilationBridge

namespace Channel

/-- The one method that the host may use. -/
def messageMethod : String := "dth/message"

/-- What the host sends: a call wants a reply, a notification none. -/
structure Request where
  method : String
  /-- The text of the parameters; there is none for null. -/
  params : Option String
  isCall : Bool := false
deriving DecidableEq, Repr

/-- What a request comes to. -/
inductive Verdict where
  | unknownMethod
  | malformed
  | unheard (message : Message)
  | heard (message : Message)
deriving DecidableEq, Repr

/-- What a call is answered. -/
inductive Reply where
  | done
  | fault (code : Int) (message : String)
deriving DecidableEq, Repr

def Reply.toJson : Reply → Json
  | .done => .obj [("result", .null)]
  | .fault code message =>
    .obj [("error", .obj [("code", .int code), ("message", .str message)])]

/-- Judges a request, given whether a receiver listens. -/
def Request.verdict (r : Request) (listening : Bool) : Verdict :=
  if r.method ≠ messageMethod then .unknownMethod
  else match Message.parse? (r.params.getD "") with
    | none => .malformed
    | some m => if listening then .heard m else .unheard m

def Verdict.reply : Verdict → Reply
  | .unknownMethod => .fault (-32601) "JSON-RPC method not found"
  | .malformed => .fault 0 "JSON-RPC parse error"
  | .unheard _ => .done
  | .heard _ => .done

def Verdict.logs : Verdict → List LogRecord
  | .malformed => [.warn "dropping malformed host message" [] (some .malformedJson)]
  | .unheard m => [.warn "no receiver registered, dropping host message"
      [("type", .str m.type), ("contextId", .int m.contextId)] none]
  | _ => []

/-- A connection to a host. Its read loop runs from `reading` to `ended`. -/
structure Connection where
  reading : Bool := false
  closed : Bool := false
  ended : Bool := false
  /-- Requests that have arrived and were not read. -/
  inbox : List Request := []
  /-- The request that the read loop is handling. -/
  handling : Option Request := none
deriving DecidableEq, Repr, Inhabited

end Channel

structure Channel where
  /-- All connections made so far, the oldest first. -/
  connections : List Channel.Connection := []
  /-- The place of the connection in use. -/
  current : Option Nat := none
  /-- The place of a connection that was replaced and whose read loop is waited for. -/
  draining : Option Nat := none
  hostId : String := ""
  listening : Bool := false
deriving DecidableEq, Repr, Inhabited

namespace Channel

def modify (c : Channel) (i : Nat) (f : Connection → Connection) : Channel :=
  { c with connections := c.connections.modify i f }

/-- The address of a host on this machine. -/
def address (port : Nat) : String := "127.0.0.1:" ++ toString port

def dialFault (port : Nat) (cause : Fault) : Fault :=
  .context ("connecting to compilation host on port " ++ toString port) cause

/-- A dialled connection takes the place of the one in use, which is closed. -/
def replace (c : Channel) (hostId : String) : Channel :=
  let c := match c.current with
    | some i => c.modify i fun x => { x with closed := true }
    | none => c
  { c with
    connections := c.connections ++ [({} : Connection)]
    draining := c.current
    current := some c.connections.length
    hostId := hostId }

/-- Whether the read loop of the replaced connection has ended. -/
def isDrained (c : Channel) : Bool :=
  match c.draining with
  | some i => ((c.connections[i]?).map (·.ended)).getD true
  | none => true

/-- Starts the read loop of the connection in use once the one before it has ended. -/
def start (c : Channel) : Channel :=
  if c.isDrained then
    match c.current with
    | some i => { c.modify i fun x => { x with reading := true } with draining := none }
    | none => { c with draining := none }
  else c

/-- A request arrives over a connection. -/
def arrive (c : Channel) (i : Nat) (r : Request) : Channel :=
  c.modify i fun x => if x.closed then x else { x with inbox := x.inbox ++ [r] }

/-- A read loop takes up the next request. -/
def read (c : Channel) (i : Nat) : Channel :=
  c.modify i fun x =>
    if x.reading && !x.closed && x.handling.isNone then
      match x.inbox with
      | r :: rest => { x with inbox := rest, handling := some r }
      | [] => x
    else x

/-- A read loop has handled its request. -/
def finish (c : Channel) (i : Nat) : Channel :=
  c.modify i fun x => { x with handling := none }

/-- The read loop of a closed connection ends when it handles nothing. What arrived and was not read
is lost. -/
def settle (c : Channel) (i : Nat) : Channel :=
  c.modify i fun x =>
    if x.closed && x.handling.isNone then { x with ended := true, inbox := [] } else x

/-- A connection is closed, by either end. -/
def hangUp (c : Channel) (i : Nat) : Channel :=
  c.modify i fun x => { x with closed := true }

/-- Connects to a host that answered: the whole of `replace`, `settle` and `start`, for a replaced
connection that handles nothing. -/
def connect (c : Channel) (hostId : String) : Channel :=
  let previous := c.current
  let c := c.replace hostId
  let c := match previous with
    | some i => c.settle i
    | none => c
  c.start

/-- Closes the connection in use, if there is one. -/
def close (c : Channel) : Channel :=
  match c.current with
  | some i => { (c.hangUp i).settle i with current := none }
  | none => c

/-- A message with the host id of the connection, unless it has one of its own. -/
def stamp (c : Channel) (m : Message) : Message :=
  if m.hostId = "" then { m with hostId := c.hostId } else m

/-- Sends a message: what goes over the connection, or the fault. -/
def send (c : Channel) (m : Message) : Except Fault Message :=
  let fail (cause : Fault) : Except Fault Message := .error (.context ("sending " ++ m.type) cause)
  match c.current with
  | none => fail .notConnected
  | some i =>
    if ((c.connections[i]?).map (·.closed)).getD true then fail .writeFailed
    else .ok (c.stamp m)

/-- Sets or removes the receiver. -/
def listen (c : Channel) (listening : Bool) : Channel :=
  { c with listening := listening }

/-- The newest connection, which the host writes to. -/
def newest? (c : Channel) : Option Nat :=
  if c.connections.isEmpty then none else some (c.connections.length - 1)

/-- Whether the host can write to a connection. -/
def isOpen (c : Channel) (i : Nat) : Bool :=
  ((c.connections[i]?).map (!·.closed)).getD false

end Channel

end CompilationBridge
