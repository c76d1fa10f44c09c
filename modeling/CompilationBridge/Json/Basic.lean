/-!
JSON documents. A number keeps the text it was written with, and an object keeps all its members in
the order in which they were written, repeated names included.
-/

namespace CompilationBridge

inductive Json where
  | null
  | bool (value : Bool)
  | num (literal : String)
  | str (value : String)
  | arr (items : List Json)
  | obj (members : List (String × Json))
deriving Inhabited, Repr

namespace Json

def int (n : Int) : Json := .num (toString n)

def nat (n : Nat) : Json := .num (toString n)

/-- The value of a member; of several members of one name the last counts. -/
def get? (name : String) : Json → Option Json
  | .obj members => (members.reverse.find? (·.1 == name)).map (·.2)
  | _ => none

/-- A list, or null if it is empty. -/
def listOrNull (items : List Json) : Json :=
  if items.isEmpty then .null else .arr items

def strings (items : List String) : Json :=
  .arr (items.map .str)

def stringsOrNull (items : List String) : Json :=
  listOrNull (items.map .str)

end Json

end CompilationBridge
