import CompilationBridge.Fault
import CompilationBridge.Json.Parser
import CompilationBridge.Json.Reader
import CompilationBridge.Message

/-!
Reading messages. An envelope is read from its text with the payload left as text; the payload is
read by the type that the envelope names.
-/

namespace CompilationBridge

open Json (field)

def Framework.reader : Json.Reader Framework := Json.Reader.record [
  field "FrameworkName" (·.name) (fun f v => { f with name := v }) Json.Reader.string,
  field "FriendlyName" (·.friendlyName) (fun f v => { f with friendlyName := v })
    Json.Reader.string,
  field "ShortName" (·.shortName) (fun f v => { f with shortName := v }) Json.Reader.string]

def ProjectInformation.reader : Json.Reader ProjectInformation := Json.Reader.record [
  field "Name" (·.name) (fun p v => { p with name := v }) Json.Reader.string,
  field "Frameworks" (·.frameworks) (fun p v => { p with frameworks := v })
    (Json.Reader.list {} Framework.reader),
  field "Configurations" (·.configurations) (fun p v => { p with configurations := v })
    (Json.Reader.list "" Json.Reader.string),
  field "Commands" (·.commands) (fun p v => { p with commands := v })
    (Json.Reader.table "" Json.Reader.string),
  field "ProjectSearchPaths" (·.searchPaths) (fun p v => { p with searchPaths := v })
    (Json.Reader.list "" Json.Reader.string),
  field "GlobalJsonPath" (·.globalSettingsPath) (fun p v => { p with globalSettingsPath := v })
    Json.Reader.string]

def ProjectReference.reader : Json.Reader ProjectReference := Json.Reader.record [
  field "Name" (·.name) (fun r v => { r with name := v }) Json.Reader.string,
  field "Path" (·.path) (fun r v => { r with path := v }) Json.Reader.string,
  field "Framework" (·.framework) (fun r v => { r with framework := v }) Framework.reader]

def References.reader : Json.Reader References := Json.Reader.record [
  field "Framework" (·.framework) (fun r v => { r with framework := v }) Framework.reader,
  field "FileReferences" (·.files) (fun r v => { r with files := v })
    (Json.Reader.list "" Json.Reader.string),
  field "RawReferences" (·.raws) (fun r v => { r with raws := v })
    (Json.Reader.table none Json.Reader.bytes),
  field "ProjectReferences" (·.projects) (fun r v => { r with projects := v })
    (Json.Reader.list {} ProjectReference.reader)]

def DependencyDescription.reader : Json.Reader DependencyDescription := Json.Reader.record [
  field "Name" (·.name) (fun d v => { d with name := v }) Json.Reader.string,
  field "Version" (·.version) (fun d v => { d with version := v }) Json.Reader.string,
  field "Path" (·.path) (fun d v => { d with path := v }) Json.Reader.string,
  field "Type" (·.type) (fun d v => { d with type := v }) Json.Reader.string,
  field "Resolved" (·.resolved) (fun d v => { d with resolved := v }) Json.Reader.bool]

def Dependencies.reader : Json.Reader Dependencies := Json.Reader.record [
  field "Framework" (·.framework) (fun d v => { d with framework := v }) Framework.reader,
  field "RootDependency" (·.root) (fun d v => { d with root := v }) Json.Reader.string,
  field "Dependencies" (·.entries) (fun d v => { d with entries := v })
    (Json.Reader.table {} DependencyDescription.reader)]

def CompilerOptions.reader : Json.Reader CompilerOptions := Json.Reader.record [
  field "Framework" (·.framework) (fun o v => { o with framework := v }) Framework.reader,
  field "Defines" (·.defines) (fun o v => { o with defines := v })
    (Json.Reader.list "" Json.Reader.string),
  field "LanguageVersion" (·.languageVersion) (fun o v => { o with languageVersion := v })
    Json.Reader.string,
  field "AllowUnsafe" (·.allowUnsafe) (fun o v => { o with allowUnsafe := v }) Json.Reader.bool,
  field "Optimize" (·.optimize) (fun o v => { o with optimize := v }) Json.Reader.bool,
  field "WarningsAsErrors" (·.warningsAsErrors) (fun o v => { o with warningsAsErrors := v })
    Json.Reader.bool,
  field "EmitEntryPoint" (·.emitEntryPoint) (fun o v => { o with emitEntryPoint := v })
    Json.Reader.bool,
  field "Platform" (·.platform) (fun o v => { o with platform := v }) Json.Reader.string]

def Sources.reader : Json.Reader Sources := Json.Reader.record [
  field "Framework" (·.framework) (fun s v => { s with framework := v }) Framework.reader,
  field "Files" (·.files) (fun s v => { s with files := v })
    (Json.Reader.list "" Json.Reader.string)]

def HostError.reader : Json.Reader HostError := Json.Reader.record [
  field "Message" (·.message) (fun e v => { e with message := v }) Json.Reader.string,
  field "Path" (·.path) (fun e v => { e with path := v }) Json.Reader.string,
  field "Line" (·.line) (fun e v => { e with line := v }) Json.Reader.int,
  field "Column" (·.column) (fun e v => { e with column := v }) Json.Reader.int]

namespace Message

/-- The payload record of a type, read from a document, or none if the type is not known. -/
def recordReader? (type : String) : Option (Json → Option Payload) :=
  if type = "ProjectInformation" then
    some fun j => (ProjectInformation.reader {} j).map .projectInformation
  else if type = "References" then some fun j => (References.reader {} j).map .references
  else if type = "Dependencies" then some fun j => (Dependencies.reader {} j).map .dependencies
  else if type = "CompilerOptions" then
    some fun j => (CompilerOptions.reader {} j).map .compilerOptions
  else if type = "Sources" then some fun j => (Sources.reader {} j).map .sources
  else if type = "Error" then some fun j => (HostError.reader {} j).map .hostError
  else none

/-- Decodes the payload of a message from the host. A message of a known type must have one. -/
def decode (m : Message) : Except Fault Payload :=
  match recordReader? m.type with
  | none => .ok (.unknown m.type (m.payload.getD ""))
  | some read =>
    match (Json.parse? (m.payload.getD "")).bind read with
    | some p => .ok p
    | none => .error (.payloadDecode m.type .malformedJson)

/-- A member of an envelope: the payload is taken as text. -/
def readMember (m : Message) (name text : String) : Option Message :=
  let folded := Text.foldName name
  if folded = "PAYLOAD" then some { m with payload := some text }
  else (Json.parse? text).bind fun j =>
    if folded = "HOSTID" then (Json.Reader.string m.hostId j).map fun v => { m with hostId := v }
    else if folded = "MESSAGETYPE" then
      (Json.Reader.string m.type j).map fun v => { m with type := v }
    else if folded = "CONTEXTID" then
      (Json.Reader.int m.contextId j).map fun v => { m with contextId := v }
    else some m

/-- Reads an envelope. The text null stands for an empty envelope. -/
def parse? (text : String) : Option Message :=
  match Json.parse? text with
  | some .null => some {}
  | some (.obj _) =>
    (Json.rawObject? text).bind fun members =>
      members.foldlM (fun m (e : String × String) => readMember m e.1 e.2) {}
  | _ => none

end Message

end CompilationBridge
