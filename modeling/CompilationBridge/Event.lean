import CompilationBridge.Graph.Snapshot

/-!
Notifications for editors. An event has the method that editors are notified by and a body.
-/

namespace CompilationBridge

namespace Event

/-- What an event tells. -/
inductive Body where
  | empty
  | unresolved (path : String) (missing : Option (List PackageDependency))
  | restore (path : String) (succeeded : Bool)
  | project (project : Graph.ProjectSnapshot)
deriving Repr, DecidableEq, Inhabited

def Body.toJson : Body → Json
  | .empty => .null
  | .unresolved path missing => .obj [
    ("fileName", .str path),
    ("unresolvedDependencies", .orNull (fun ds => .arr (ds.map PackageDependency.toJson)) missing)]
  | .restore path succeeded => .obj [("fileName", .str path), ("succeeded", .bool succeeded)]
  | .project p => .obj [("project", p.toJson)]

end Event

structure Event where
  type : String
  body : Event.Body
deriving Repr, DecidableEq, Inhabited

namespace Event

def startedType : String := "dth/packageRestoreStarted"

def finishedType : String := "dth/packageRestoreFinished"

def unresolvedDependencies (path : String) (missing : List PackageDependency) : Event :=
  ⟨"dth/unresolvedDependencies", .unresolved path (some missing)⟩

def restoreStarted (path : String) : Event :=
  ⟨startedType, .restore path false⟩

def restoreFinished (path : String) (succeeded : Bool) : Event :=
  ⟨finishedType, .restore path succeeded⟩

def projectChanged (project : Graph.ProjectSnapshot) : Event :=
  ⟨"dth/projectChanged", .project project⟩

def toJson (e : Event) : Json := .obj [("type", .str e.type), ("body", e.body.toJson)]

end Event

end CompilationBridge
