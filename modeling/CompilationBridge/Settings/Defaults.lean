import CompilationBridge.Settings.Reader

/-!
The settings that the bridge comes with, and settings with some of their keys replaced.
-/

namespace CompilationBridge.Settings

def hostDefaults : List (String × Json) := [
  ("executable", .str "dnx"), ("arguments", .strings ["dth"]), ("handshakeTimeout", .str "30s"),
  ("pollInterval", .str "500ms"), ("restartBurst", .nat 3), ("restartInterval", .str "30s")]

def restoreDefaults : List (String × Json) := [
  ("enabled", .bool true), ("executable", .str "dnu"), ("arguments", .strings ["restore"]),
  ("timeout", .str "180s"), ("watchdogInterval", .str "10s"), ("retries", .nat 1),
  ("maxConcurrency", .nat 2)]

def projectsDefaults : List (String × Json) := [
  ("configuration", .str "Debug"), ("sourceExtension", .str ".cs"), ("loadTimeout", .str "60s"),
  ("debounce", .str "500ms")]

def bridgeDefaults : List (String × Json) := [("idleTimeout", .str "30m")]

/-- A section with some of its keys replaced. -/
def override (defaults : List (String × Json)) (replacements : Option Json) : Tree :=
  match replacements with
  | some (.obj members) => .obj (defaults ++ members)
  | _ => .obj defaults

/-- The sections that the bridge comes with, where the tree has replacements by section. -/
def withDefaults (t : Tree) : Tree := .obj [
  ("host", override hostDefaults (t.get? "host")),
  ("restore", override restoreDefaults (t.get? "restore")),
  ("projects", override projectsDefaults (t.get? "projects")),
  ("bridge", override bridgeDefaults (t.get? "bridge"))]

end CompilationBridge.Settings
