import CompilationBridge.Graph.Snapshot
import CompilationBridge.Json.Reader

/-!
Snapshots of projects, read from the documents that they are written as.
-/

namespace CompilationBridge.Graph

open Json (field)

/-- A list of texts. -/
def texts : Json.Reader (Option (List String)) :=
  Json.Reader.list "" Json.Reader.string

def VariantSnapshot.reader : Json.Reader VariantSnapshot := Json.Reader.record [
  field "FrameworkName" (·.framework.name)
    (fun v x => { v with framework := { v.framework with name := x } }) Json.Reader.string,
  field "FriendlyName" (·.framework.friendlyName)
    (fun v x => { v with framework := { v.framework with friendlyName := x } }) Json.Reader.string,
  field "ShortName" (·.framework.shortName)
    (fun v x => { v with framework := { v.framework with shortName := x } }) Json.Reader.string,
  field "handle" (·.handle.text)
    (fun v x => { v with handle := (Handle.ofText? x).getD .nil }) Json.Reader.string,
  field "registered" (·.registered) (fun v x => { v with registered := x }) Json.Reader.bool,
  field "loaded" (·.loaded) (fun v x => { v with loaded := x }) Json.Reader.bool,
  field "fileReferences" (·.fileReferences) (fun v x => { v with fileReferences := x }) texts,
  field "rawReferences" (·.rawReferences) (fun v x => { v with rawReferences := x }) texts,
  field "projectReferences" (·.projectReferences) (fun v x => { v with projectReferences := x })
    texts,
  field "dependees" (·.dependees) (fun v x => { v with dependees := x }) texts,
  field "documents" (·.documents) (fun v x => { v with documents := x }) texts]

def ProjectSnapshot.reader : Json.Reader ProjectSnapshot := Json.Reader.record [
  field "contextId" (·.contextId) (fun p x => { p with contextId := x }) Json.Reader.int,
  field "path" (·.path) (fun p x => { p with path := x }) Json.Reader.string,
  field "name" (·.name) (fun p x => { p with name := x }) Json.Reader.string,
  field "configurations" (·.configurations) (fun p x => { p with configurations := x }) texts,
  field "commands" (·.commands) (fun p x => { p with commands := x })
    (Json.Reader.table "" Json.Reader.string),
  field "projectSearchPaths" (·.searchPaths) (fun p x => { p with searchPaths := x }) texts,
  field "globalJsonPath" (·.globalSettingsPath) (fun p x => { p with globalSettingsPath := x })
    Json.Reader.string,
  field "initializeSent" (·.initializeSent) (fun p x => { p with initializeSent := x })
    Json.Reader.bool,
  field "frameworks" (·.frameworks) (fun p x => { p with frameworks := x })
    (Json.Reader.list {} VariantSnapshot.reader)]

end CompilationBridge.Graph
