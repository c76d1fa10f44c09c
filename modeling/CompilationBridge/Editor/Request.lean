import CompilationBridge.Editor.Params

/-!
Requests of editors, by method.
-/

namespace CompilationBridge.Editor

inductive Request where
  | openWorkspace (params : InitializeParams)
  | ready
  | shutdown
  | exit
  | fullShutdown
  | filesChanged (params : WatchedFilesParams)
  | projects
  | workspace
  | restore (params : RestoreParams)
  | configure (params : ConfigurationParams)
  | unknown (method : String)
  /-- The parameters do not fit the method. -/
  | malformed (fault : Fault)
deriving Repr

namespace Request

def ofParams {α : Type} (f : α → Request) : Except Fault α → Request
  | .ok params => f params
  | .error fault => .malformed fault

/-- Reads a request. -/
def read (method : String) (params : Json) : Request :=
  match method with
  | "initialize" => ofParams openWorkspace (initializeParams params)
  | "initialized" => ofParams (fun _ => ready) (initializedParams params)
  | "shutdown" => shutdown
  | "exit" => exit
  | "dth/requestFullShutdown" => fullShutdown
  | "workspace/didChangeWatchedFiles" => ofParams filesChanged (watchedFilesParams params)
  | "dth/projects" => projects
  | "dth/workspace" => workspace
  | "dth/restore" => ofParams restore (restoreParams params)
  | "dth/changeConfiguration" => ofParams configure (configurationParams params)
  | _ => unknown method

end Request

end CompilationBridge.Editor
