import CompilationBridge.FileTree
import CompilationBridge.Settings.Expansion
import CompilationBridge.Settings.Reader
import CompilationBridge.Yaml.Parser
import CompilationBridge.Yaml.Printer

/-!
Settings loaded from a directory. The file `meta.yaml` lists the files that hold them; those that are
there are merged in order, and references to variables are replaced in the merged text. Mappings are
merged key by key, while of two lists or two scalars the later one stays.
-/

namespace CompilationBridge.Settings

/-- Why settings could not be loaded. -/
inductive LoadFault where
  | list
  | names
  | nothing
  | files
deriving DecidableEq, Repr

def LoadFault.message : LoadFault → String
  | .list => "failed to load meta configuration"
  | .names => "failed to read files list from meta.yaml"
  | .nothing => "no configuration files found"
  | .files => "failed to load configuration"

/-- The shapes of values that can replace each other. -/
inductive Shape where
  | nothing
  | scalar
  | list
  | mapping
deriving DecidableEq, Repr

def shape : Tree → Shape
  | .null => .nothing
  | .arr _ => .list
  | .obj _ => .mapping
  | _ => .scalar

/-- Puts a member in the place of the one of its name, or at the end. -/
def putMember (members : List (String × Tree)) (name : String) (value : Tree) :
    List (String × Tree) :=
  if members.any (·.1 = name) then
    members.map fun m => if m.1 = name then (name, value) else m
  else members ++ [(name, value)]

mutual

/-- A value laid over another. -/
def merge? : Tree → Tree → Option Tree
  | .null, t => some t
  | _, .null => some .null
  | .obj below, .obj above => (mergeMembers? below above).map .obj
  | below, above => if shape below = shape above then some above else none

def mergeMembers? : List (String × Tree) → List (String × Tree) → Option (List (String × Tree))
  | below, [] => some below
  | below, (name, value) :: rest => do
    let merged ← match below.find? (·.1 = name) with
      | some (_, old) => merge? old value
      | none => some value
    mergeMembers? (putMember below name merged) rest

end

/-- Lays a text over what was merged so far; a text without a document changes nothing. -/
def mergeText? (below : Option Tree) (text : String) : Option (Option Tree) := do
  match ← Yaml.parse? text with
  | none => some below
  | some above =>
    match below with
    | none => some (some above)
    | some t => (merge? t above).map some

/-- The settings of texts of increasing weight, with variables replaced. -/
def assemble? (lookup : String → Option String) (texts : List String) : Option (Option Tree) := do
  match ← texts.foldlM mergeText? none with
  | none => some none
  | some t =>
    let expanded ← expand lookup (Yaml.render t).toList
    Yaml.parse? (String.ofList expanded)

/-- The names of the files that hold the settings. -/
def listedFiles (lookup : String → Option String) (files : FileTree) (dir : String) :
    Except LoadFault (List String) :=
  match files.read (Path.append dir "meta.yaml") with
  | .error _ => .error .list
  | .ok text =>
    match assemble? lookup [text] with
    | none => .error .list
    | some t =>
      match texts (((t.getD .null).get? "files").getD .null) with
      | none => .error .names
      | some names => .ok (names.getD [])

/-- Whether there is a file or a directory at a path. -/
def isThere (files : FileTree) (path : String) : Bool :=
  match files.find path with
  | .ok _ => true
  | .error _ => false

/-- Loads the settings of a directory. The answer has no value if the files hold nothing. -/
def load (lookup : String → Option String) (files : FileTree) (dir : String) :
    Except LoadFault (Option Tree) := do
  let names ← listedFiles lookup files dir
  match (names.map (Path.append dir)).filter (isThere files) with
  | [] => .error .nothing
  | paths =>
    match paths.mapM fun path => (files.read path).toOption with
    | none => .error .files
    | some texts =>
      match assemble? lookup texts with
      | none => .error .files
      | some t => .ok t

mutual

/-- The text of a value in a message. Members are sorted by their names. -/
def display : Tree → String
  | .arr items => "[" ++ String.intercalate " " (displayItems items) ++ "]"
  | .obj members =>
    "map[" ++ String.intercalate " "
      (((displayMembers members).mergeSort fun a b => a.1 ≤ b.1).map fun (k, v) => k ++ ":" ++ v) ++
      "]"
  | scalar => (Yaml.scalarText scalar).getD ""

def displayItems : List Tree → List String
  | [] => []
  | item :: rest => display item :: displayItems rest

def displayMembers : List (String × Tree) → List (String × String)
  | [] => []
  | (name, value) :: rest => (name, display value) :: displayMembers rest

end

/-- The value at a dotted key; the empty key names all settings. -/
def lookup? (t : Option Tree) (key : String) : Option Tree :=
  t.bind fun t => if key = "" then some t else find? t (key.splitOn ".")

/-- The text of what is found at a key. -/
def displayFound (found : Option Tree) : String :=
  display (found.getD .null)

end CompilationBridge.Settings
