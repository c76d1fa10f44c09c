import CompilationBridge.FileTree
import CompilationBridge.Json.Parser
import CompilationBridge.Json.Reader
import CompilationBridge.LogRecord
import CompilationBridge.Manifest

/-!
Discovery of projects. The search paths are those that the settings file at the root lists, or the
root alone if there is no such file, it cannot be read, or it lists none. A search path that is a
directory gives its own manifest and those of its sub-directories, each project once.
-/

namespace CompilationBridge.Discovery

/-- Files as they are seen from outside, where every look may fail. -/
structure FileView where
  fileExists : String → Except Fault Bool
  directoryExists : String → Except Fault Bool
  list : String → Except Fault (List FileTree.Entry)
  read : String → Except Fault String

/-- What was found: the manifests, and the search paths and settings file that led to them. -/
structure Found where
  manifests : List String := []
  searchPaths : List String := []
  settingsPath : String := ""
deriving DecidableEq, Repr, Inhabited

/-- The settings file of a solution. -/
structure SolutionSettings where
  projects : Option (List String) := none
deriving DecidableEq, Repr, Inhabited

def SolutionSettings.reader : Json.Reader SolutionSettings := Json.Reader.record [
  Json.field "projects" (·.projects) (fun s v => { s with projects := v })
    (Json.Reader.list "" Json.Reader.string)]

def SolutionSettings.parse? (text : String) : Option SolutionSettings :=
  (Json.parse? text).bind (SolutionSettings.reader {})

/-- A search path as it is listed, seen from the root. -/
def searchPath (root path : String) : String :=
  if Path.isAbsolute path then Path.clean path else Path.append root path

/-- The search paths that a settings file lists. -/
def listedPaths (v : FileView) (root path : String) : Except Fault (List String) := do
  let text ← v.read path
  match SolutionSettings.parse? text with
  | some settings => .ok ((settings.projects.getD []).map (searchPath root))
  | none => .error .malformedJson

/-- The record that a settings file is passed over. -/
def unreadable (path : String) (fault : Fault) : LogRecord :=
  .warn "ignoring unreadable settings file" [("path", .str path)] (some fault)

/-- The search paths, the settings file if there is one, and a record if it cannot be used. -/
def searchPaths (v : FileView) (root : String) :
    Except Fault (List String × String × List LogRecord) := do
  let candidate := Path.append root Manifest.settingsFileName
  if ← v.fileExists candidate then
    match listedPaths v root candidate with
    | .ok [] => .ok ([root], candidate, [])
    | .ok paths => .ok (paths, candidate, [])
    | .error fault => .ok ([root], candidate, [unreadable candidate fault])
  else .ok ([root], "", [])

/-- Adds a manifest that is there and was not found before. -/
def addManifest (v : FileView) (found : List String) (path : String) :
    Except Fault (List String) := do
  if path ∈ found then return found
  if ← v.fileExists path then return found ++ [path]
  return found

/-- The manifests that a search path may have. -/
def candidates (path : String) (entries : List FileTree.Entry) : List String :=
  (entries.filter (·.isDirectory)).map fun e =>
    Path.append (Path.append path e.name) Manifest.fileName

/-- Adds the manifests of a search path. -/
def addSearchPath (v : FileView) (found : List String) (path : String) :
    Except Fault (List String) := do
  if ← v.directoryExists path then
    let found ← addManifest v found (Path.append path Manifest.fileName)
    let entries ← v.list path
    (candidates path entries).foldlM (addManifest v) found
  else return found

/-- Finds the projects under a root, with the records of what was passed over. -/
def discover (v : FileView) (root : String) : Except Fault Found × List LogRecord :=
  match searchPaths v root with
  | .error fault => (.error fault, [])
  | .ok (paths, settingsPath, logs) =>
    (do
      let manifests ← paths.foldlM (addSearchPath v) []
      .ok ⟨manifests, paths, settingsPath⟩, logs)

end CompilationBridge.Discovery
