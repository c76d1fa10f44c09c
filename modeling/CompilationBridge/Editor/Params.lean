import CompilationBridge.Json.Parser
import CompilationBridge.Json.Reader
import CompilationBridge.Uri

/-!
Parameters of editor requests. They are read from the document that the request carries; the folder
an editor opened is taken from its first workspace folder, else from the root URI, else from the root
path.
-/

namespace CompilationBridge.Editor

open Json (field)

structure WorkspaceFolder where
  uri : String := ""
  name : String := ""
deriving DecidableEq, Repr, Inhabited

structure InitializeParams where
  processId : Int := 0
  rootPath : String := ""
  rootUri : String := ""
  workspaceFolders : Option (List WorkspaceFolder) := none
deriving DecidableEq, Repr, Inhabited

structure FileEvent where
  type : String := "0"
  uri : String := ""
deriving DecidableEq, Repr, Inhabited

structure WatchedFilesParams where
  changes : Option (List (Option FileEvent)) := none
deriving DecidableEq, Repr, Inhabited

structure RestoreParams where
  fileName : String := ""
deriving DecidableEq, Repr, Inhabited

structure ConfigurationParams where
  configuration : String := ""
deriving DecidableEq, Repr, Inhabited

def WorkspaceFolder.reader : Json.Reader WorkspaceFolder := Json.Reader.record [
  field "uri" (·.uri) (fun f v => { f with uri := v }) Json.Reader.string,
  field "name" (·.name) (fun f v => { f with name := v }) Json.Reader.string]

/-- An integer of thirty-two bits. -/
def int32 : Json.Reader Int := fun old j =>
  (Json.Reader.int old j).bind fun n => if -0x80000000 ≤ n ∧ n < 0x80000000 then some n else none

def InitializeParams.reader : Json.Reader InitializeParams := Json.Reader.record [
  field "processId" (·.processId) (fun p v => { p with processId := v }) int32,
  field "rootPath" (·.rootPath) (fun p v => { p with rootPath := v }) Json.Reader.string,
  field "rootUri" (·.rootUri) (fun p v => { p with rootUri := v }) Json.Reader.string,
  field "workspaceFolders" (·.workspaceFolders) (fun p v => { p with workspaceFolders := v })
    (Json.Reader.list {} WorkspaceFolder.reader)]

/-- A number, by the text it is written with. -/
def literal : Json.Reader String
  | old, .null => some old
  | _, .num text => some text
  | _, _ => none

def FileEvent.reader : Json.Reader FileEvent := Json.Reader.record [
  field "type" (·.type) (fun e v => { e with type := v }) literal,
  field "uri" (·.uri) (fun e v => { e with uri := v }) Json.Reader.string]

def WatchedFilesParams.reader : Json.Reader WatchedFilesParams := Json.Reader.record [
  field "changes" (·.changes) (fun p v => { p with changes := v })
    (Json.Reader.list none (Json.Reader.optional {} FileEvent.reader))]

def RestoreParams.reader : Json.Reader RestoreParams := Json.Reader.record [
  field "fileName" (·.fileName) (fun p v => { p with fileName := v }) Json.Reader.string]

def ConfigurationParams.reader : Json.Reader ConfigurationParams := Json.Reader.record [
  field "configuration" (·.configuration) (fun p v => { p with configuration := v })
    Json.Reader.string]

/-- Parameters read afresh; what has the wrong shape is malformed. -/
def readParams {α : Type} [Inhabited α] (r : Json.Reader α) (params : Json) : Except Fault α :=
  match r default params with
  | some v => .ok v
  | none => .error .malformedJson

def initializeParams (params : Json) : Except Fault InitializeParams :=
  readParams InitializeParams.reader params

/-- The parameters of the note that an editor is ready: any object. -/
def initializedParams (params : Json) : Except Fault Unit :=
  readParams (Json.Reader.record ([] : List (Json.Field Unit))) params

def watchedFilesParams (params : Json) : Except Fault WatchedFilesParams :=
  readParams WatchedFilesParams.reader params

def restoreParams (params : Json) : Except Fault RestoreParams := do
  let p ← readParams RestoreParams.reader params
  if p.fileName = "" then .error (.invalidParams "fileName is required") else .ok p

def configurationParams (params : Json) : Except Fault ConfigurationParams := do
  let p ← readParams ConfigurationParams.reader params
  if p.configuration = "" then .error (.invalidParams "configuration is required") else .ok p

/-- The folder by the root URI, else by the root path. -/
def InitializeParams.rootLocation (p : InitializeParams) : Uri.Location :=
  if p.rootUri ≠ "" then Uri.location p.rootUri
  else if p.rootPath ≠ "" then .path (Path.clean p.rootPath)
  else .refused .noWorkspaceRoot

/-- The folder that an editor opened. -/
def InitializeParams.workspaceRoot (p : InitializeParams) : Uri.Location :=
  match (p.workspaceFolders.getD []).head? with
  | some folder => if folder.uri ≠ "" then Uri.location folder.uri else p.rootLocation
  | none => p.rootLocation

/-- The local path of a file event. -/
def FileEvent.path (e : FileEvent) : Uri.Location :=
  Uri.location e.uri

end CompilationBridge.Editor
