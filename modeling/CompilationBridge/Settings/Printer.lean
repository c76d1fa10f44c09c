import CompilationBridge.Json.Basic
import CompilationBridge.Settings.Sections

/-!
Settings as documents, by the names of their fields; durations are counted in nanoseconds.
-/

namespace CompilationBridge.Settings

def argumentsJson : Option (List String) → Json
  | none => .null
  | some items => .strings items

def Host.toJson (h : Host) : Json := .obj [
  ("Executable", .str h.executable), ("Arguments", argumentsJson h.arguments),
  ("HandshakeTimeout", .int h.handshakeTimeout), ("PollInterval", .int h.pollInterval),
  ("RestartBurst", .int h.restartBurst), ("RestartInterval", .int h.restartInterval)]

def Restore.toJson (r : Restore) : Json := .obj [
  ("Enabled", .bool r.enabled), ("Executable", .str r.executable),
  ("Arguments", argumentsJson r.arguments), ("Timeout", .int r.timeout),
  ("WatchdogInterval", .int r.watchdogInterval), ("Retries", .int r.retries),
  ("MaxConcurrency", .int r.maxConcurrency)]

def Projects.toJson (p : Projects) : Json := .obj [
  ("Configuration", .str p.configuration), ("SourceExtension", .str p.sourceExtension),
  ("LoadTimeout", .int p.loadTimeout), ("Debounce", .int p.debounce)]

def Bridge.toJson (b : Bridge) : Json := .obj [("IdleTimeout", .int b.idleTimeout)]

end CompilationBridge.Settings
