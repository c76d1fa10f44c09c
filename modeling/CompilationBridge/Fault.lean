import CompilationBridge.Handle
import CompilationBridge.Text.Quoted

/-!
Causes of failure. A fault names what went wrong; its wording is `Fault.message`. A fault may have
another one as its cause, and a question such as `isNotConnected` looks at the whole chain of causes.
-/

namespace CompilationBridge

/-- A setting that breaks a rule: the field and the rule. -/
structure Violation where
  field : String
  rule : String
deriving DecidableEq, Repr

inductive Fault where
  | text (message : String)
  | context (what : String) (cause : Fault)
  | projectNotFound (id : Int) (path : String)
  | handleNotFound (handle : Handle)
  | sessionNotFound (session : Handle)
  | noSession
  | unknownMessageType (type : String)
  | payloadDecode (type : String) (cause : Fault)
  | notConnected
  | stopped
  | noWorkspaceRoot
  | alreadyInitialized
  | hostUnavailable
  | invalidSettings (violations : List Violation)
  | unreadableSettings
  | malformedJson
  | invalidParams (detail : String)
  | methodNotFound (method : String)
  | cancelled
  | writeFailed
  | several (faults : List Fault)
deriving Inhabited, Repr

namespace Fault

mutual

/-- The wording of a fault. What a settings file or a JSON text breaks is not spelled out, and the
reason of a failed write is the system's own. -/
def message : Fault → String
  | .text m => m
  | .context what cause => what ++ ": " ++ cause.message
  | .projectNotFound id path =>
    if path = "" then "project with context id " ++ toString id ++ " not found"
    else "project " ++ Text.quote path ++ " not found"
  | .handleNotFound h => "handle " ++ Text.quote h.text ++ " not found"
  | .sessionNotFound h => "UUID " ++ Text.quote h.text ++ " not found"
  | .noSession => "no session found in context"
  | .unknownMessageType type => "unknown message type " ++ Text.quote type
  | .payloadDecode type cause => "decoding " ++ type ++ " payload: " ++ cause.message
  | .notConnected => "not connected to compilation host"
  | .stopped => "stopped"
  | .noWorkspaceRoot => "workspace root is required"
  | .alreadyInitialized => "project system already initialized"
  | .hostUnavailable => "compilation host did not start"
  | .invalidSettings _ => "settings break a rule"
  | .unreadableSettings => "settings cannot be read"
  | .malformedJson => "malformed JSON"
  | .invalidParams detail => "JSON-RPC invalid params: " ++ detail
  | .methodNotFound method => Text.quote method ++ ": JSON-RPC method not found"
  | .cancelled => "context canceled"
  | .writeFailed => "<write error>"
  | .several faults => messages faults

/-- The wordings of several faults, one after the other. -/
def messages : List Fault → String
  | [] => ""
  | [f] => f.message
  | f :: g :: rest => f.message ++ "; " ++ messages (g :: rest)

end

mutual

/-- Whether some fault of the chain of causes has a property. -/
def any (p : Fault → Bool) : Fault → Bool
  | .context what cause => p (.context what cause) || cause.any p
  | .payloadDecode type cause => p (.payloadDecode type cause) || cause.any p
  | .several faults => p (.several faults) || anyOf p faults
  | f => p f

def anyOf (p : Fault → Bool) : List Fault → Bool
  | [] => false
  | f :: rest => f.any p || anyOf p rest

end

mutual

/-- The first handle that a fault of the chain did not find. -/
def missingHandle? : Fault → Option Handle
  | .handleNotFound h => some h
  | .context _ cause => cause.missingHandle?
  | .payloadDecode _ cause => cause.missingHandle?
  | .several faults => missingHandleOf? faults
  | _ => none

def missingHandleOf? : List Fault → Option Handle
  | [] => none
  | f :: rest => match f.missingHandle? with
    | some h => some h
    | none => missingHandleOf? rest

end

def isNotConnected (f : Fault) : Bool :=
  f.any fun | .notConnected => true | _ => false

def isProjectNotFound (f : Fault) : Bool :=
  f.any fun | .projectNotFound _ _ => true | _ => false

/-- Joins the faults of several attempts: none if all went well, a lone one as it is. -/
def join : List Fault → Option Fault
  | [] => none
  | [f] => some f
  | faults => some (.several faults)

end Fault

end CompilationBridge
