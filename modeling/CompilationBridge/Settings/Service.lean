import CompilationBridge.Settings.Reader

/-!
Single settings that a part of the bridge cannot do without: its name, the address that editors
connect to, and the file where it tells about itself.
-/

namespace CompilationBridge.Settings

def addressKey : String := "jsonrpc.address"

def serviceNameKey : String := "service.name"

def infoFileKey : String := "serverInfoFilePath"

/-- The text at a dotted key, empty if there is none. -/
def textAt? (t : Tree) (key : String) : Option String :=
  text ((find? t (key.splitOn ".")).getD .null)

/-- A text that has to be given. -/
def required (t : Tree) (key : String) : Except Fault String :=
  match textAt? t key with
  | none => .error (.context ("getting config field " ++ Text.quote key) .unreadableSettings)
  | some "" => .error (.text ("missing field " ++ Text.quote key ++ " in config"))
  | some s => .ok s

/-- The address that editors connect to. -/
def address (t : Tree) : Except Fault String := required t addressKey

/-- The path of the file where the bridge tells about itself. -/
def infoFile (t : Tree) : Except Fault String := required t infoFileKey

def serviceName (t : Tree) : Except Fault String :=
  match textAt? t serviceNameKey with
  | none => .error (.context "loading service name" .unreadableSettings)
  | some "" =>
    .error (.text ("type error or missing field for key " ++ Text.quote serviceNameKey))
  | some s => .ok s

/-- What the bridge tells about itself at its start: its name and its process. -/
def introduction (t : Tree) (process : String) : Except Fault (List (String × String)) :=
  (serviceName t).map fun name => [("service-name", name), ("bridge-pid", process)]

end CompilationBridge.Settings
