import CompilationBridge.Graph.Store
import CompilationBridge.Message.Printer

/-!
Copies of tracked projects, as editors see them: frameworks by name and every set of names in order.
A copy that the store makes has no list where there is nothing to list.
-/

namespace CompilationBridge.Graph

structure VariantSnapshot where
  framework : Framework := {}
  handle : Handle := .nil
  registered : Bool := false
  loaded : Bool := false
  fileReferences : Option (List String) := none
  rawReferences : Option (List String) := none
  projectReferences : Option (List String) := none
  dependees : Option (List String) := none
  documents : Option (List String) := none
deriving DecidableEq, Repr, Inhabited

structure ProjectSnapshot where
  contextId : Int := 0
  path : String := ""
  name : String := ""
  configurations : Option (List String) := none
  commands : Option (Table String String) := none
  searchPaths : Option (List String) := none
  globalSettingsPath : String := ""
  initializeSent : Bool := false
  frameworks : Option (List VariantSnapshot) := none
deriving DecidableEq, Repr, Inhabited

/-- A list, if it is not empty. -/
def nonEmpty {α : Type} (items : List α) : Option (List α) :=
  if items.isEmpty then none else some items

def Variant.snapshot (v : Variant) : VariantSnapshot where
  framework := v.framework
  handle := v.handle
  registered := v.registered
  loaded := v.loaded
  fileReferences := nonEmpty v.fileRefs.sortedKeys
  rawReferences := nonEmpty v.rawRefs.sortedKeys
  projectReferences := nonEmpty v.projectRefs.sortedKeys
  dependees := nonEmpty v.dependees.sortedKeys
  documents := nonEmpty v.documents.sortedKeys

def Project.snapshot (p : Project) (id : Nat) : ProjectSnapshot where
  contextId := id
  path := p.path
  name := p.name
  configurations := nonEmpty p.configurations
  commands := some p.commands
  searchPaths := nonEmpty p.searchPaths
  globalSettingsPath := p.globalSettingsPath
  initializeSent := p.initializeSent
  frameworks := nonEmpty
    ((p.variants.map Variant.snapshot).mergeSort (·.framework.name ≤ ·.framework.name))

namespace Store

def get (s : Store) (id : Int) : Except Fault ProjectSnapshot :=
  match s.project? id with
  | some p => .ok (p.snapshot id.toNat)
  | none => .error (.projectNotFound id "")

def getByPath (s : Store) (path : String) : Except Fault ProjectSnapshot :=
  match s.contextId? path with
  | some id => match s.project? id with
    | some p => .ok (p.snapshot id)
    | none => .error (.projectNotFound 0 path)
  | none => .error (.projectNotFound 0 path)

/-- Every tracked project, by id. -/
def snapshots (s : Store) : List ProjectSnapshot :=
  s.projects.entries.map fun (id, p) => p.snapshot id

end Store

def VariantSnapshot.toJson (v : VariantSnapshot) : Json := .obj [
  ("FrameworkName", .str v.framework.name),
  ("FriendlyName", .str v.framework.friendlyName),
  ("ShortName", .str v.framework.shortName),
  ("handle", .str v.handle.text),
  ("registered", .bool v.registered),
  ("loaded", .bool v.loaded),
  ("fileReferences", .orNull .strings v.fileReferences),
  ("rawReferences", .orNull .strings v.rawReferences),
  ("projectReferences", .orNull .strings v.projectReferences),
  ("dependees", .orNull .strings v.dependees),
  ("documents", .orNull .strings v.documents)]

def ProjectSnapshot.toJson (p : ProjectSnapshot) : Json := .obj [
  ("contextId", .int p.contextId),
  ("path", .str p.path),
  ("name", .str p.name),
  ("configurations", .orNull .strings p.configurations),
  ("commands", .orNull (.ofTable .str) p.commands),
  ("projectSearchPaths", .orNull .strings p.searchPaths),
  ("globalJsonPath", .str p.globalSettingsPath),
  ("initializeSent", .bool p.initializeSent),
  ("frameworks", .orNull (fun vs => .arr (vs.map VariantSnapshot.toJson)) p.frameworks)]

end CompilationBridge.Graph
