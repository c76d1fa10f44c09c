import CompilationBridge.Path
import CompilationBridge.Table

/-!
A tree of directories and files. A node is known by the names on the way to it from the root, which
is a directory and always there. An operation on a path looks at the directories on the way first.
-/

namespace CompilationBridge

namespace FileTree

inductive Node where
  | directory
  | file (text : String)
deriving DecidableEq, Repr

inductive Refusal where
  | notFound
  | notEmpty
  | notDirectory
  | isDirectory
  | badPattern
deriving DecidableEq, Repr

/-- An entry of a directory. -/
structure Entry where
  name : String
  isDirectory : Bool
deriving DecidableEq, Repr

/-- The names on the way to a path. -/
def route (path : String) : List String :=
  let cs := path.toList
  (Path.cleanSegments (Path.isRooted cs) (Path.segments cs)).map String.ofList

end FileTree

structure FileTree where
  nodes : Table (List String) FileTree.Node := .empty
deriving Repr, Inhabited

namespace FileTree

def node? (t : FileTree) (route : List String) : Option Node :=
  if route = [] then some .directory else t.nodes.get? route

/-- Whether every node above is a directory. -/
def descend (t : FileTree) (done : List String) : List String → Except Refusal Unit
  | [] => .ok ()
  | [_] =>
    match t.node? done with
    | some .directory => .ok ()
    | some (.file _) => .error .notDirectory
    | none => .error .notFound
  | name :: next :: rest =>
    match t.node? done with
    | some .directory => t.descend (done ++ [name]) (next :: rest)
    | some (.file _) => .error .notDirectory
    | none => .error .notFound

/-- The node of a path. -/
def find (t : FileTree) (path : String) : Except Refusal Node := do
  let r := route path
  t.descend [] r
  match t.node? r with
  | some n => .ok n
  | none => .error .notFound

def isNode (t : FileTree) (path : String) (p : Node → Bool) : Except Refusal Bool :=
  match t.find path with
  | .ok n => .ok (p n)
  | .error .notFound => .ok false
  | .error e => .error e

def Node.isDirectory : Node → Bool
  | .directory => true
  | .file _ => false

def directoryExists (t : FileTree) (path : String) : Except Refusal Bool :=
  t.isNode path Node.isDirectory

def fileExists (t : FileTree) (path : String) : Except Refusal Bool :=
  t.isNode path (!·.isDirectory)

/-- Makes the directories that are missing on a route. -/
def makeRoute (t : FileTree) (done : List String) : List String → Except Refusal FileTree
  | [] => .ok t
  | name :: rest =>
    let next := done ++ [name]
    match t.node? next with
    | some .directory => t.makeRoute next rest
    | some (.file _) => .error .notDirectory
    | none => makeRoute { t with nodes := t.nodes.put next .directory } next rest

/-- Makes a directory and those above it. -/
def makeDirectory (t : FileTree) (path : String) : Except Refusal FileTree :=
  t.makeRoute [] (route path)

/-- Writes a file into a directory that is there. -/
def write (t : FileTree) (path text : String) : Except Refusal FileTree := do
  let r := route path
  t.descend [] r
  match t.node? r with
  | some .directory => .error .isDirectory
  | _ => .ok { t with nodes := t.nodes.put r (.file text) }

def read (t : FileTree) (path : String) : Except Refusal String := do
  match ← t.find path with
  | .directory => .error .isDirectory
  | .file text => .ok text

/-- The tree, or the one before if an operation on it was refused. -/
def orElse (t : FileTree) : Except Refusal FileTree → FileTree
  | .ok next => next
  | .error _ => t

/-- Adds a file, with the directories that it is in. -/
def put (t : FileTree) (path text : String) : FileTree :=
  let t := t.orElse (t.makeDirectory (Path.dir path))
  t.orElse (t.write path text)

/-- The tree of some files and directories. -/
def ofFiles (files : List (String × String)) (directories : List String) : FileTree :=
  let t := files.foldl (fun t (path, text) => t.put path text) {}
  directories.foldl (fun t path => t.orElse (t.makeDirectory path)) t

def childName? (parent : List String) (route : List String) : Option String :=
  if route ≠ [] ∧ route.dropLast = parent then route.getLast? else none

/-- The entries of a directory by name. -/
def entriesOf (t : FileTree) (parent : List String) : List Entry :=
  let found := t.nodes.entries.filterMap fun (r, n) =>
    (childName? parent r).map fun name => (⟨name, n.isDirectory⟩ : Entry)
  found.mergeSort (·.name ≤ ·.name)

def list (t : FileTree) (path : String) : Except Refusal (List Entry) := do
  match ← t.find path with
  | .directory => .ok (t.entriesOf (route path))
  | .file _ => .error .notDirectory

/-- Removes a file, or a directory that holds nothing. -/
def remove (t : FileTree) (path : String) : Except Refusal FileTree := do
  let n ← t.find path
  let r := route path
  if n.isDirectory && !(t.entriesOf r).isEmpty then .error .notEmpty
  else .ok { t with nodes := t.nodes.erase r }

/-- Whether a file with a name of its own can be made in a directory. -/
def canMakeFile (t : FileTree) (path pattern : String) : Except Refusal Unit := do
  if pattern.toList.contains '/' then throw .badPattern
  match ← t.find path with
  | .directory => .ok ()
  | .file _ => .error .notDirectory

end FileTree

end CompilationBridge
