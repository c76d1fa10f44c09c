import CompilationBridge.Graph.Store
import CompilationBridge.Json.Printer
import CompilationBridge.Workspace

/-!
Labels for handles. A handle made by the bridge is labelled by the project and framework that it was
made for, so that what the bridge did can be read without handles; a second handle for the same
project and framework has a number after its label.
-/

namespace CompilationBridge

structure Labels where
  names : List (Handle × String) := []
  uses : Table String Nat := .empty
deriving Repr, Inhabited

namespace Labels

/-- Labels a handle that has no label. -/
def add (l : Labels) (h : Handle) (name : String) : Labels :=
  if l.names.any (·.1 = h) then l
  else
    let n := (l.uses.get? name).getD 0 + 1
    let label := if n = 1 then name else name ++ "@" ++ toString n
    { names := (h, label) :: l.names, uses := l.uses.put name n }

/-- Labels the handles of a store in the order in which they were made. -/
def addStore (l : Labels) (s : Graph.Store) : Labels :=
  let pairs := s.projects.values.flatMap fun p =>
    p.variants.map fun v => (v.handle, p.path ++ "|" ++ v.framework.name)
  (pairs.mergeSort fun a b => a.1.le b.1).foldl (fun l (h, name) => l.add h name) l

def label? (l : Labels) (h : Handle) : Option String :=
  (l.names.find? (·.1 = h)).map (·.2)

/-- The text that every handle made by the bridge starts with. -/
def handleStart : String := "00000000-0000-0000-0000-"

/-- A text with labels for the handles in it. -/
def text (l : Labels) (s : String) : String :=
  match s.splitOn handleStart with
  | [] => s
  | first :: rest => rest.foldl (fun out piece =>
      let digits := String.ofList (piece.toList.take 12)
      match (Handle.ofText? (handleStart ++ digits)).bind l.label? with
      | some label => out ++ label ++ String.ofList (piece.toList.drop 12)
      | none => out ++ handleStart ++ piece) first

mutual

/-- A document with labels for the handles in its texts. -/
def json (l : Labels) : Json → Json
  | .str s => .str (l.text s)
  | .arr items => .arr (l.items items)
  | .obj members => .obj (l.members members)
  | .null => .null
  | .bool b => .bool b
  | .num n => .num n

def items (l : Labels) : List Json → List Json
  | [] => []
  | item :: rest => l.json item :: l.items rest

def members (l : Labels) : List (String × Json) → List (String × Json)
  | [] => []
  | (name, value) :: rest => (l.text name, l.json value) :: l.members rest

end

/-- Sets a member, over one of the same name. -/
def setMember (ms : List (String × Json)) (name : String) (value : Json) : List (String × Json) :=
  ms.filter (·.1 ≠ name) ++ [(name, value)]

/-- A document without a member. -/
def withoutMember (name : String) : Json → Json
  | .obj ms => .obj (ms.filter (·.1 ≠ name))
  | j => j

/-- A snapshot with labels, where references are in the order of their texts. -/
def snapshot (l : Labels) (s : Workspace.Snapshot) : Json :=
  let metadata := s.metadata.map fun r => withoutMember "handle" r.toJson
  let references := s.references.map fun h => Json.str (l.text h.text)
  match s.toJson with
  | .obj ms =>
    l.json (.obj (setMember (setMember ms "metadataReferences"
      (.listOrNull (Json.sortByText metadata)))
      "projectReferences" (.listOrNull (Json.sortByText references))))
  | j => j

/-- The order of snapshots: by path, framework and label. -/
def snapshotLe (l : Labels) (a b : Workspace.Snapshot) : Bool :=
  if a.info.filePath ≠ b.info.filePath then a.info.filePath ≤ b.info.filePath
  else if a.info.framework ≠ b.info.framework then a.info.framework ≤ b.info.framework
  else l.text a.info.handle.text ≤ l.text b.info.handle.text

def workspace (l : Labels) (w : Workspace) : Json :=
  .arr ((w.snapshot.mergeSort l.snapshotLe).map l.snapshot)

end Labels

end CompilationBridge
