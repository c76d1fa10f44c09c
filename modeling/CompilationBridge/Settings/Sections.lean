import CompilationBridge.Fault

/-!
The settings of the bridge, section by section, with the rules that they keep. Durations are counted
in nanoseconds.
-/

namespace CompilationBridge.Settings

/-- How the compilation host is launched and connected to. -/
structure Host where
  executable : String := ""
  arguments : Option (List String) := none
  handshakeTimeout : Int := 0
  pollInterval : Int := 0
  restartBurst : Int := 0
  restartInterval : Int := 0
deriving DecidableEq, Repr, Inhabited

/-- The package restore tool. -/
structure Restore where
  enabled : Bool := false
  executable : String := ""
  arguments : Option (List String) := none
  timeout : Int := 0
  watchdogInterval : Int := 0
  retries : Int := 0
  maxConcurrency : Int := 0
deriving DecidableEq, Repr, Inhabited

/-- Discovery and loading of projects. -/
structure Projects where
  configuration : String := ""
  sourceExtension : String := ""
  loadTimeout : Int := 0
  debounce : Int := 0
deriving DecidableEq, Repr, Inhabited

/-- The side of the bridge that faces editors. -/
structure Bridge where
  idleTimeout : Int := 0
deriving DecidableEq, Repr, Inhabited

/-- A violation, if the rule is broken. -/
def check (kept : Bool) (field rule : String) : List Violation :=
  if kept then [] else [⟨field, rule⟩]

def Host.violations (h : Host) : List Violation :=
  check (h.executable ≠ "") "Executable" "required" ++
  check (0 < h.handshakeTimeout) "HandshakeTimeout" "gt" ++
  check (0 < h.pollInterval) "PollInterval" "gt" ++
  check (0 ≤ h.restartBurst) "RestartBurst" "gte" ++
  check (0 ≤ h.restartInterval) "RestartInterval" "gte"

def Restore.violations (r : Restore) : List Violation :=
  check (!r.enabled || r.executable ≠ "") "Executable" "required_if" ++
  check (0 < r.timeout) "Timeout" "gt" ++
  check (0 < r.watchdogInterval) "WatchdogInterval" "gt" ++
  check (0 ≤ r.retries) "Retries" "gte" ++
  check (0 ≤ r.maxConcurrency) "MaxConcurrency" "gte"

def Projects.violations (p : Projects) : List Violation :=
  check (p.configuration ≠ "") "Configuration" "required" ++
  check (p.sourceExtension ≠ "") "SourceExtension" "required" ++
  check (0 < p.loadTimeout) "LoadTimeout" "gt" ++
  check (0 < p.debounce) "Debounce" "gt"

def Bridge.violations (b : Bridge) : List Violation :=
  check (0 < b.idleTimeout) "IdleTimeout" "gt"

/-- Settings that keep their rules. -/
def validate {α : Type} (violations : α → List Violation) (settings : α) : Except Fault α :=
  match violations settings with
  | [] => .ok settings
  | broken => .error (.invalidSettings broken)

end CompilationBridge.Settings
