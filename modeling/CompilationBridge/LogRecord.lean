import CompilationBridge.Fault
import CompilationBridge.Json.Basic

/-!
Records of what went wrong on the way. A record has a level, a message, further fields, and the fault
that caused it, if there is one.
-/

namespace CompilationBridge

inductive LogLevel where
  | warn
  | error
deriving DecidableEq, Repr

structure LogRecord where
  level : LogLevel
  message : String
  fields : List (String × Json) := []
  cause : Option Fault := none
deriving Repr

namespace LogRecord

def warn (message : String) (fields : List (String × Json)) (cause : Option Fault) : LogRecord :=
  ⟨.warn, message, fields, cause⟩

def error (message : String) (fields : List (String × Json)) (cause : Option Fault) : LogRecord :=
  ⟨.error, message, fields, cause⟩

def LogLevel.text : LogLevel → String
  | .warn => "warn"
  | .error => "error"

/-- The record as a document, given how a cause is named. A field stands for a member of the same
name. -/
def toJson (kind : Fault → String) (r : LogRecord) : Json :=
  let base := [("level", Json.str (LogLevel.text r.level)), ("message", .str r.message)]
  let members := r.fields.foldl (fun ms (name, value) =>
    ms.filter (·.1 ≠ name) ++ [(name, value)]) base
  .obj (members ++ (r.cause.map fun f => ("error", Json.str (kind f))).toList)

end LogRecord

end CompilationBridge
