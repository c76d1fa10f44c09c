import CompilationBridge.Path
import CompilationBridge.Settings.Reader
import CompilationBridge.Text.LowerCase

/-!
Settings of the bridge's own log. The log is written to the listed outputs, or to standard output if
none is listed; the directories of those that are files are made before the log is opened.
-/

namespace CompilationBridge.Settings

/-- The least level of a record that is written. -/
inductive Threshold where
  | debug
  | info
  | warn
  | error
  | dpanic
  | panic
  | fatal
deriving DecidableEq, Repr

namespace Threshold

def all : List Threshold := [.debug, .info, .warn, .error, .dpanic, .panic, .fatal]

def text : Threshold → String
  | .debug => "debug"
  | .info => "info"
  | .warn => "warn"
  | .error => "error"
  | .dpanic => "dpanic"
  | .panic => "panic"
  | .fatal => "fatal"

/-- Reads a level in any case; a level left empty is `info`. -/
def ofText? (s : String) : Option Threshold :=
  if s = "" then some .info
  else
    let lowered := Text.lower s
    all.find? (·.text = lowered)

end Threshold

structure Logging where
  level : String := ""
  development : Bool := false
  encoding : String := ""
  outputPaths : Option (List String) := none
deriving DecidableEq, Repr, Inhabited

namespace Logging

def standardOutputs : List String := ["stdout", "stderr"]

def keys : List String := ["level", "development", "encoding", "outputPaths"]

/-- Keys of the section that only matter before the log is opened. -/
def preparationKeys : List String :=
  keys ++ ["disableCaller", "disableStacktrace", "sampling", "encoderConfig", "errorOutputPaths",
    "initialFields"]

def read? (strict : Bool) (t : Tree) : Option Logging := do
  guard (isSection strict keys t)
  let level ← value t "level" Settings.text
  let development ← value t "development" flag
  let encoding ← value t "encoding" Settings.text
  let outputPaths ← value t "outputPaths" texts
  some ⟨level, development, encoding, outputPaths⟩

def sectionOf (t : Tree) : Tree := (t.get? "logging").getD .null

/-- Opens the log, given which files can be opened: the level that is written from. -/
def start? (strict : Bool) (canOpen : String → Bool) (t : Tree) : Option Threshold := do
  let logging ← read? strict (sectionOf t)
  let level ← Threshold.ofText? logging.level
  let paths := logging.outputPaths.getD []
  if paths.all fun p => standardOutputs.contains p || canOpen p then some level else none

/-- A level as it is read before the log is opened: a scalar has to name a level, and a mapping is
passed over. -/
def preparedLevel (strict : Bool) : Tree → Except Fault Unit
  | .null => .ok ()
  | .arr _ => .error .unreadableSettings
  | .obj members =>
    if strict && !members.isEmpty then .error .unreadableSettings else .ok ()
  | scalar =>
    let level := (Settings.text scalar).getD ""
    match Threshold.ofText? level with
    | some _ => .ok ()
    | none => .error (.text ("unrecognized level: " ++ Text.quote level))

def readable {α : Type} : Option α → Except Fault α
  | some v => .ok v
  | none => .error .unreadableSettings

/-- The output paths, read before the log is opened. -/
def preparedOutputs (strict : Bool) (t : Tree) : Except Fault (List String) := do
  if !isSection strict preparationKeys t then throw .unreadableSettings
  let _ ← readable (value t "development" flag)
  let _ ← readable (value t "disableCaller" flag)
  let _ ← readable (value t "disableStacktrace" flag)
  let _ ← readable (value t "encoding" Settings.text)
  let _ ← readable (value t "errorOutputPaths" texts)
  let paths ← readable (value t "outputPaths" texts)
  preparedLevel strict ((t.get? "level").getD .null)
  .ok (paths.getD [])

/-- The directories that have to be there for the log, in the order of its outputs. -/
def directories (strict : Bool) (t : Tree) : Except Fault (List String) :=
  match preparedOutputs strict (sectionOf t) with
  | .ok paths => .ok ((paths.filter (!standardOutputs.contains ·)).map Path.dir)
  | .error fault =>
    .error (.context "ensuring log folder" (.context "loading logging config" fault))

end Logging

end CompilationBridge.Settings
