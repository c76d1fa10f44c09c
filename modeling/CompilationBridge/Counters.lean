import CompilationBridge.Json.Basic
import CompilationBridge.Table

/-!
Counters by name. A counter that has counted nothing is not shown.
-/

namespace CompilationBridge

abbrev Counters := List (String × Nat)

namespace Counters

/-- Counters of one name, told apart by the value of a tag. -/
def tagged (name tag : String) (t : Table String Nat) : Counters :=
  t.entries.map fun (value, n) => (name ++ "\x7b" ++ tag ++ "=" ++ value ++ "\x7d", n)

def toJson (c : Counters) : Json :=
  .obj ((c.filter (·.2 ≠ 0)).map fun (name, n) => (name, .nat n))

end Counters

end CompilationBridge
