import CompilationBridge.Fault
import CompilationBridge.Json.Basic
import CompilationBridge.Table
import CompilationBridge.Text.Bytes

/-!
The workspace that editor features read. It holds projects by handle, each with metadata references,
references to other projects, documents and options. A change is a `Call`; a call that fails leaves
the workspace as it was.
-/

namespace CompilationBridge.Workspace

/-- One framework build of a project. -/
structure ProjectInfo where
  handle : Handle
  name : String
  filePath : String
  framework : String
deriving DecidableEq, Repr, Inhabited

/-- A compiled artifact that a project references: a file by its path, or bytes by a name. -/
structure MetadataReference where
  handle : Handle
  path : String := ""
  name : String := ""
  bytes : Option Text.Bytes := none
deriving DecidableEq, Repr, Inhabited

structure CompilationOptions where
  outputKind : String := ""
  optimizationLevel : String := ""
  allowUnsafe : Bool := false
  warningsAsErrors : Bool := false
  platform : String := ""
  emitEntryPoint : Bool := false
deriving DecidableEq, Repr, Inhabited

structure ParseOptions where
  languageVersion : String := ""
  preprocessorSymbols : List String := []
deriving DecidableEq, Repr, Inhabited

structure Entry where
  info : ProjectInfo
  metadata : Table Handle MetadataReference := .empty
  references : List Handle := []
  documents : Table Handle String := .empty
  compilation : Option CompilationOptions := none
  parse : Option ParseOptions := none
deriving DecidableEq, Repr, Inhabited

/-- The operations that change the workspace. -/
inductive Call where
  | addProject (info : ProjectInfo)
  | removeProject (project : Handle)
  | addMetadataReference (project : Handle) (ref : MetadataReference)
  | removeMetadataReference (project ref : Handle)
  | addProjectReference (project target : Handle)
  | removeProjectReference (project target : Handle)
  | addDocument (project document : Handle) (path : String)
  | removeDocument (project document : Handle)
  | setCompilationOptions (project : Handle) (options : CompilationOptions)
  | setParseOptions (project : Handle) (options : ParseOptions)
deriving DecidableEq, Repr

/-- The kinds of calls. -/
inductive Method where
  | addProject
  | removeProject
  | addMetadataReference
  | removeMetadataReference
  | addProjectReference
  | removeProjectReference
  | addDocument
  | removeDocument
  | setCompilationOptions
  | setParseOptions
deriving DecidableEq, Repr

def Call.method : Call → Method
  | .addProject _ => .addProject
  | .removeProject _ => .removeProject
  | .addMetadataReference _ _ => .addMetadataReference
  | .removeMetadataReference _ _ => .removeMetadataReference
  | .addProjectReference _ _ => .addProjectReference
  | .removeProjectReference _ _ => .removeProjectReference
  | .addDocument _ _ _ => .addDocument
  | .removeDocument _ _ => .removeDocument
  | .setCompilationOptions _ _ => .setCompilationOptions
  | .setParseOptions _ _ => .setParseOptions

/-- The project that a call is about. -/
def Call.project : Call → Handle
  | .addProject info => info.handle
  | .removeProject p => p
  | .addMetadataReference p _ => p
  | .removeMetadataReference p _ => p
  | .addProjectReference p _ => p
  | .removeProjectReference p _ => p
  | .addDocument p _ _ => p
  | .removeDocument p _ => p
  | .setCompilationOptions p _ => p
  | .setParseOptions p _ => p

end Workspace

structure Workspace where
  projects : Table Handle Workspace.Entry := .empty
deriving DecidableEq, Repr, Inhabited

namespace Workspace

/-- Changes one project, if it is there and the change succeeds. -/
def update (w : Workspace) (project : Handle) (change : Entry → Except Fault Entry) :
    Except Fault Workspace :=
  match w.projects.get? project with
  | none => .error (.handleNotFound project)
  | some entry => (change entry).map fun entry => ⟨w.projects.put project entry⟩

def perform (w : Workspace) : Call → Except Fault Workspace
  | .addProject info =>
    if w.projects.contains info.handle then
      .error (.text ("project " ++ Text.quote info.handle.text ++ " already added"))
    else .ok ⟨w.projects.put info.handle { info := info }⟩
  | .removeProject project =>
    if w.projects.contains project then
      .ok ⟨(w.projects.erase project).map fun e =>
        { e with references := e.references.filter (· ≠ project) }⟩
    else .error (.handleNotFound project)
  | .addMetadataReference project ref =>
    w.update project fun e => .ok { e with metadata := e.metadata.put ref.handle ref }
  | .removeMetadataReference project ref =>
    w.update project fun e =>
      if e.metadata.contains ref then .ok { e with metadata := e.metadata.erase ref }
      else .error (.handleNotFound ref)
  | .addProjectReference project target =>
    w.update project fun e =>
      if w.projects.contains target then
        .ok { e with
          references := if target ∈ e.references then e.references else e.references ++ [target] }
      else .error (.handleNotFound target)
  | .removeProjectReference project target =>
    w.update project fun e => .ok { e with references := e.references.filter (· ≠ target) }
  | .addDocument project document path =>
    w.update project fun e => .ok { e with documents := e.documents.put document path }
  | .removeDocument project document =>
    w.update project fun e =>
      if e.documents.contains document then .ok { e with documents := e.documents.erase document }
      else .error (.handleNotFound document)
  | .setCompilationOptions project options =>
    w.update project fun e => .ok { e with compilation := some options }
  | .setParseOptions project options =>
    w.update project fun e => .ok { e with parse := some options }

/-- A copy of one project, its parts in order. -/
structure Snapshot where
  info : ProjectInfo
  metadata : List MetadataReference
  references : List Handle
  documents : List String
  compilation : Option CompilationOptions
  parse : Option ParseOptions
deriving DecidableEq, Repr, Inhabited

def Entry.snapshot (e : Entry) : Snapshot where
  info := e.info
  metadata := e.metadata.values.mergeSort fun a b => a.path ++ a.name ≤ b.path ++ b.name
  references := e.references.mergeSort Handle.le
  documents := e.documents.values.mergeSort (· ≤ ·)
  compilation := e.compilation
  parse := e.parse

/-- Projects come by file path, and those of one file by framework. -/
def Snapshot.le (a b : Snapshot) : Bool :=
  if a.info.filePath ≠ b.info.filePath then a.info.filePath ≤ b.info.filePath
  else a.info.framework ≤ b.info.framework

def snapshot (w : Workspace) : List Snapshot :=
  (w.projects.values.map Entry.snapshot).mergeSort Snapshot.le

def MetadataReference.toJson (r : MetadataReference) : Json :=
  .obj (("handle", .str r.handle.text) ::
    (if r.path = "" then [] else [("path", .str r.path)]) ++
    (if r.name = "" then [] else [("name", .str r.name)]))

def CompilationOptions.toJson (o : CompilationOptions) : Json := .obj [
  ("outputKind", .str o.outputKind),
  ("optimizationLevel", .str o.optimizationLevel),
  ("allowUnsafe", .bool o.allowUnsafe),
  ("warningsAsErrors", .bool o.warningsAsErrors),
  ("platform", .str o.platform),
  ("emitEntryPoint", .bool o.emitEntryPoint)]

def ParseOptions.toJson (o : ParseOptions) : Json := .obj [
  ("languageVersion", .str o.languageVersion),
  ("preprocessorSymbols", .stringsOrNull o.preprocessorSymbols)]

def ProjectInfo.members (i : ProjectInfo) : List (String × Json) := [
  ("handle", .str i.handle.text),
  ("name", .str i.name),
  ("filePath", .str i.filePath),
  ("framework", .str i.framework)]

def Snapshot.toJson (s : Snapshot) : Json :=
  .obj (s.info.members ++ [
    ("metadataReferences", .listOrNull (s.metadata.map MetadataReference.toJson)),
    ("projectReferences", .listOrNull (s.references.map fun h => .str h.text)),
    ("documents", .stringsOrNull s.documents)] ++
    (match s.compilation with
      | some o => [("compilationOptions", o.toJson)]
      | none => []) ++
    (match s.parse with
      | some o => [("parseOptions", o.toJson)]
      | none => []))

end Workspace

end CompilationBridge
