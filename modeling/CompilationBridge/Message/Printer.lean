import CompilationBridge.Json.Compact
import CompilationBridge.Message
import CompilationBridge.Text.Base64

/-!
Writing messages. A record is written with all its fields; an envelope is written without its payload
if there is none, and otherwise with the compact form of the payload's own text.
-/

namespace CompilationBridge

def Json.orNull {α : Type} (f : α → Json) : Option α → Json
  | none => .null
  | some v => f v

def Json.ofTable {α : Type} (f : α → Json) (t : Table String α) : Json :=
  .obj ((t.entries.map fun (k, v) => (k, f v)).mergeSort (·.1 ≤ ·.1))

def Framework.toJson (f : Framework) : Json := .obj [
  ("FrameworkName", .str f.name),
  ("FriendlyName", .str f.friendlyName),
  ("ShortName", .str f.shortName)]

def ProjectInformation.toJson (p : ProjectInformation) : Json := .obj [
  ("Name", .str p.name),
  ("Frameworks", .orNull (fun fs => .arr (fs.map Framework.toJson)) p.frameworks),
  ("Configurations", .orNull .strings p.configurations),
  ("Commands", .orNull (.ofTable .str) p.commands),
  ("ProjectSearchPaths", .orNull .strings p.searchPaths),
  ("GlobalJsonPath", .str p.globalSettingsPath)]

def ProjectReference.toJson (r : ProjectReference) : Json := .obj [
  ("Name", .str r.name),
  ("Path", .str r.path),
  ("Framework", r.framework.toJson)]

def Json.ofBytes (bytes : Option Text.Bytes) : Json :=
  .orNull (fun b => .str (Text.Base64.encode b)) bytes

def References.toJson (r : References) : Json := .obj [
  ("Framework", r.framework.toJson),
  ("FileReferences", .orNull .strings r.files),
  ("RawReferences", .orNull (.ofTable .ofBytes) r.raws),
  ("ProjectReferences", .orNull (fun ps => .arr (ps.map ProjectReference.toJson)) r.projects)]

def DependencyDescription.toJson (d : DependencyDescription) : Json := .obj [
  ("Name", .str d.name),
  ("Version", .str d.version),
  ("Path", .str d.path),
  ("Type", .str d.type),
  ("Resolved", .bool d.resolved)]

def Dependencies.toJson (d : Dependencies) : Json := .obj [
  ("Framework", d.framework.toJson),
  ("RootDependency", .str d.root),
  ("Dependencies", .orNull (.ofTable DependencyDescription.toJson) d.entries)]

def CompilerOptions.toJson (o : CompilerOptions) : Json := .obj [
  ("Framework", o.framework.toJson),
  ("Defines", .orNull .strings o.defines),
  ("LanguageVersion", .str o.languageVersion),
  ("AllowUnsafe", .bool o.allowUnsafe),
  ("Optimize", .bool o.optimize),
  ("WarningsAsErrors", .bool o.warningsAsErrors),
  ("EmitEntryPoint", .bool o.emitEntryPoint),
  ("Platform", .str o.platform)]

def Sources.toJson (s : Sources) : Json := .obj [
  ("Framework", s.framework.toJson),
  ("Files", .orNull .strings s.files)]

def HostError.toJson (e : HostError) : Json := .obj [
  ("Message", .str e.message),
  ("Path", .str e.path),
  ("Line", .int e.line),
  ("Column", .int e.column)]

/-- The document of a record; a payload of unknown type has none. -/
def Payload.toJson? : Payload → Option Json
  | .projectInformation p => some p.toJson
  | .references r => some r.toJson
  | .dependencies d => some d.toJson
  | .compilerOptions o => some o.toJson
  | .sources s => some s.toJson
  | .hostError e => some e.toJson
  | .unknown _ _ => none

def PackageDependency.toJson (d : PackageDependency) : Json := .obj [
  ("name", .str d.name),
  ("version", .str d.version)]

namespace Message

/-- A message to the host with a document as its payload, or without payload. -/
def new (type : String) (contextId : Int) (body : Option Json) : Message where
  type := type
  contextId := contextId
  payload := body.map (Json.render .markup)

/-- Asks the host to load the project of a folder. -/
def loadProject (contextId : Int) (folder configuration : String) : Message :=
  new Order.loadProject.type contextId
    (some (.obj [("ProjectFolder", .str folder), ("Configuration", .str configuration)]))

def changeConfiguration (contextId : Int) (configuration : String) : Message :=
  new Order.changeConfiguration.type contextId
    (some (.obj [("Configuration", .str configuration)]))

/-- The text of an envelope. -/
def chars (m : Message) : List Char :=
  let head := Json.chars .markup (.obj [
    ("HostId", .str m.hostId), ("MessageType", .str m.type), ("ContextId", .int m.contextId)])
  match (m.payload.getD "").toList with
  | [] => head
  | text => head.dropLast ++ ",\"Payload\":".toList ++ Json.compact text ++ ['}']

def render (m : Message) : String :=
  String.ofList m.chars

/-- Whether an envelope can be written: its payload, if it has one, must be the text of a document. -/
def isWritable (m : Message) : Bool :=
  let text := m.payload.getD ""
  text = "" || (Json.parse? text).isSome

/-- The text of an envelope that can be written. -/
def render? (m : Message) : Option String :=
  if m.isWritable then some m.render else none

end Message

end CompilationBridge
