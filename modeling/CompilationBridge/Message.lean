import CompilationBridge.Json.Basic
import CompilationBridge.Table
import CompilationBridge.Text.Bytes

/-!
Messages exchanged with the compilation host. An envelope carries its payload as JSON text; a payload
from the host is one of six records, or the text of a type that is not known. A list or table of a
record may be missing, which is kept apart from an empty one.
-/

namespace CompilationBridge

/-- The envelope of a message in either direction. -/
structure Message where
  hostId : String := ""
  type : String := ""
  contextId : Int := 0
  payload : Option String := none
deriving DecidableEq, Repr, Inhabited

/-- One target framework of a project. -/
structure Framework where
  name : String := ""
  friendlyName : String := ""
  shortName : String := ""
deriving DecidableEq, Repr, Inhabited

/-- What the host knows about a project. -/
structure ProjectInformation where
  name : String := ""
  frameworks : Option (List Framework) := none
  configurations : Option (List String) := none
  commands : Option (Table String String) := none
  searchPaths : Option (List String) := none
  globalSettingsPath : String := ""
deriving DecidableEq, Repr, Inhabited

/-- Another project that a framework variant references. -/
structure ProjectReference where
  name : String := ""
  path : String := ""
  framework : Framework := {}
deriving DecidableEq, Repr, Inhabited

/-- The whole reference set of a framework variant. -/
structure References where
  framework : Framework := {}
  files : Option (List String) := none
  raws : Option (Table String (Option Text.Bytes)) := none
  projects : Option (List ProjectReference) := none
deriving DecidableEq, Repr, Inhabited

structure DependencyDescription where
  name : String := ""
  version : String := ""
  path : String := ""
  type : String := ""
  resolved : Bool := false
deriving DecidableEq, Repr, Inhabited

/-- The dependency graph of a framework variant. -/
structure Dependencies where
  framework : Framework := {}
  root : String := ""
  entries : Option (Table String DependencyDescription) := none
deriving DecidableEq, Repr, Inhabited

/-- The compiler settings of a framework variant. -/
structure CompilerOptions where
  framework : Framework := {}
  defines : Option (List String) := none
  languageVersion : String := ""
  allowUnsafe : Bool := false
  optimize : Bool := false
  warningsAsErrors : Bool := false
  emitEntryPoint : Bool := false
  platform : String := ""
deriving DecidableEq, Repr, Inhabited

/-- The whole source file list of a framework variant. -/
structure Sources where
  framework : Framework := {}
  files : Option (List String) := none
deriving DecidableEq, Repr, Inhabited

/-- An error that the host reports for a project. -/
structure HostError where
  message : String := ""
  path : String := ""
  line : Int := 0
  column : Int := 0
deriving DecidableEq, Repr, Inhabited

inductive Payload where
  | projectInformation (info : ProjectInformation)
  | references (refs : References)
  | dependencies (deps : Dependencies)
  | compilerOptions (options : CompilerOptions)
  | sources (sources : Sources)
  | hostError (error : HostError)
  | unknown (type : String) (raw : String)
deriving DecidableEq, Repr, Inhabited

/-- The type tag of a payload. -/
def Payload.type : Payload → String
  | .projectInformation _ => "ProjectInformation"
  | .references _ => "References"
  | .dependencies _ => "Dependencies"
  | .compilerOptions _ => "CompilerOptions"
  | .sources _ => "Sources"
  | .hostError _ => "Error"
  | .unknown type _ => type

/-- The messages that are sent to the host. -/
inductive Order where
  | loadProject
  | changeConfiguration
  | filesChanged
  | refreshDependencies
  | restoreComplete
deriving DecidableEq, Repr

def Order.type : Order → String
  | .loadProject => "Initialize"
  | .changeConfiguration => "ChangeConfiguration"
  | .filesChanged => "FilesChanged"
  | .refreshDependencies => "RefreshDependencies"
  | .restoreComplete => "RestoreComplete"

/-- A dependency by name and version. -/
structure PackageDependency where
  name : String
  version : String
deriving DecidableEq, Repr

/-- The dependencies that the host could not resolve, by name. The root dependency is the project
itself and is left out; a dependency without a name goes by its key. -/
def Dependencies.unresolved (deps : Dependencies) : List PackageDependency :=
  let missing := (deps.entries.getD .empty).entries.filter fun (key, dep) =>
    !(dep.resolved || key == deps.root || dep.name == deps.root)
  let named := missing.map fun (key, dep) =>
    { name := if dep.name = "" then key else dep.name, version := dep.version : PackageDependency }
  named.mergeSort (·.name ≤ ·.name)

end CompilationBridge
