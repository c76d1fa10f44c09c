import CompilationBridge.Json.Printer
import CompilationBridge.Table

/-!
The file where the bridge tells editors about itself: texts by key. Each update writes the whole file
anew, as a JSON object with its members in the order of their names.
-/

namespace CompilationBridge

structure InfoFile where
  fields : Table String String := .empty
deriving DecidableEq, Repr, Inhabited

namespace InfoFile

def update (f : InfoFile) (key value : String) : InfoFile :=
  ⟨f.fields.put key value⟩

def toJson (f : InfoFile) : Json :=
  .sorted (.obj (f.fields.entries.map fun (k, v) => (k, .str v)))

/-- The text of the file. -/
def render (f : InfoFile) : String :=
  f.toJson.render .markup

end InfoFile

end CompilationBridge
