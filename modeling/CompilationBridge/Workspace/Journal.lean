import CompilationBridge.Json.Printer
import CompilationBridge.Message.Printer
import CompilationBridge.Workspace

/-!
A journal of the calls made to a workspace. References and documents are called by their paths, also
when a call gives only the handle that they were added with.
-/

namespace CompilationBridge.Workspace

def Method.name : Method → String
  | .addProject => "AddProject"
  | .removeProject => "RemoveProject"
  | .addMetadataReference => "AddMetadataReference"
  | .removeMetadataReference => "RemoveMetadataReference"
  | .addProjectReference => "AddProjectReference"
  | .removeProjectReference => "RemoveProjectReference"
  | .addDocument => "AddDocument"
  | .removeDocument => "RemoveDocument"
  | .setCompilationOptions => "SetCompilationOptions"
  | .setParseOptions => "SetParseOptions"

def Method.all : List Method := [
  .addProject, .removeProject, .addMetadataReference, .removeMetadataReference,
  .addProjectReference, .removeProjectReference, .addDocument, .removeDocument,
  .setCompilationOptions, .setParseOptions]

/-- What the references and documents of the calls so far are called. -/
structure Journal where
  names : List (Handle × String) := []
deriving Repr, Inhabited

namespace Journal

def referenceName (r : MetadataReference) : String :=
  if r.path = "" then "raw:" ++ r.name else "file:" ++ r.path

/-- Takes note of what a call adds. -/
def learn (j : Journal) : Call → Journal
  | .addMetadataReference _ r => ⟨(r.handle, referenceName r) :: j.names⟩
  | .addDocument _ d path => ⟨(d, path) :: j.names⟩
  | _ => j

def nameOf (j : Journal) (h : Handle) : String :=
  ((j.names.find? (·.1 = h)).map (·.2)).getD h.text

/-- What a call says besides its method and its project. -/
def details (j : Journal) : Call → List (String × Json)
  | .addProject info => [("name", .str info.name)]
  | .removeProject _ => []
  | .addMetadataReference _ r =>
    ("ref", .str (referenceName r)) :: (if r.path = "" then [("bytes", .ofBytes r.bytes)] else [])
  | .removeMetadataReference _ h => [("ref", .str (j.nameOf h))]
  | .addProjectReference _ t => [("target", .str t.text)]
  | .removeProjectReference _ t => [("target", .str t.text)]
  | .addDocument _ _ path => [("document", .str path)]
  | .removeDocument _ h => [("document", .str (j.nameOf h))]
  | .setCompilationOptions _ o => [("options", o.toJson)]
  | .setParseOptions _ o => [("options", o.toJson)]

/-- The entry of a call, which may have failed. -/
def entry (j : Journal) (kind : Fault → String) (c : Call) (fault : Option Fault) : Json :=
  .obj ([("call", .str c.method.name), ("project", .str c.project.text)] ++ j.details c ++
    (fault.map fun f => ("error", Json.str (kind f))).toList)

def methodOf (entry : Json) : String :=
  match entry.get? "call" with
  | some (.str name) => name
  | _ => ""

/-- Sorts each run of entries of one method. -/
def sortRuns : List Json → List Json → List Json
  | run, [] => Json.sortByText run
  | [], c :: rest => sortRuns [c] rest
  | r :: run, c :: rest =>
    if methodOf r = methodOf c then sortRuns (r :: run ++ [c]) rest
    else Json.sortByText (r :: run) ++ sortRuns [c] rest

end Journal

end CompilationBridge.Workspace
