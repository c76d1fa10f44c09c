import CompilationBridge.Json.Basic
import CompilationBridge.Table
import CompilationBridge.Text.Base64
import CompilationBridge.Text.FoldedName

/-!
Typed values read from documents. A reader changes a value that is already there: null leaves it or
empties it, an object changes the named fields of a record one after another, and a list is read
element by element over the list before it. Reading fails when a document has the wrong shape.
-/

namespace CompilationBridge.Json

abbrev Reader (α : Type) := α → Json → Option α

/-- A field of a record, with the reader that changes it. -/
structure Field (σ : Type) where
  name : String
  read : Reader σ

namespace Reader

variable {α σ : Type}

def string : Reader String
  | old, .null => some old
  | _, .str s => some s
  | _, _ => none

def bool : Reader Bool
  | old, .null => some old
  | _, .bool b => some b
  | _, _ => none

def decimal? (cs : List Char) : Option Nat :=
  if cs.isEmpty then none
  else cs.foldlM (fun n c => if '0' ≤ c ∧ c ≤ '9' then some (n * 10 + (c.toNat - 0x30)) else none) 0

/-- An integer written without fraction and exponent. -/
def integer? (literal : String) : Option Int :=
  match literal.toList with
  | '-' :: ds => (decimal? ds).map fun n => -(n : Int)
  | ds => (decimal? ds).map fun n => (n : Int)

/-- An integer of sixty-four bits. -/
def int : Reader Int
  | old, .null => some old
  | _, .num literal =>
    match integer? literal with
    | some n => if -0x8000000000000000 ≤ n ∧ n < 0x8000000000000000 then some n else none
    | none => none
  | _, _ => none

def byte : Reader UInt8
  | old, .null => some old
  | _, .num literal =>
    match decimal? literal.toList with
    | some n => if n < 256 then some n.toUInt8 else none
    | none => none
  | _, _ => none

/-- Reads items over the elements before them; further items start from `zero`. -/
def items (zero : α) (r : Reader α) : List α → List Json → Option (List α)
  | _, [] => some []
  | old, j :: rest => do
    let v ← r (old.headD zero) j
    let more ← items zero r old.tail rest
    some (v :: more)

/-- A list that may be missing, which is not the same as an empty one. -/
def list (zero : α) (r : Reader α) : Reader (Option (List α))
  | _, .null => some none
  | old, .arr js => (items zero r (old.getD []) js).map some
  | _, _ => none

/-- A table that may be missing. Each value is read afresh. -/
def table (zero : α) (r : Reader α) : Reader (Option (Table String α))
  | _, .null => some none
  | old, .obj members =>
    (members.foldlM (fun t (m : String × Json) => (r zero m.2).map (t.put m.1 ·))
      (old.getD .empty)).map some
  | _, _ => none

/-- Bytes that may be missing: a text in base 64, or a list of numbers. -/
def bytes : Reader (Option Text.Bytes)
  | _, .str s => (Text.Base64.decode? s).map some
  | old, j => list 0 byte old j

/-- A value that may be missing. -/
def optional (zero : α) (r : Reader α) : Reader (Option α)
  | _, .null => some none
  | old, j => (r (old.getD zero) j).map some

/-- The field that a member is meant for: the one of that very name, or else one whose name agrees
without case. -/
def findField? (fields : List (Field σ)) (name : String) : Option (Field σ) :=
  match fields.find? (·.name == name) with
  | some f => some f
  | none => fields.find? (Text.foldName ·.name == Text.foldName name)

/-- A record: members that name no field are skipped. -/
def record (fields : List (Field σ)) : Reader σ
  | old, .null => some old
  | old, .obj members =>
    members.foldlM (fun s (m : String × Json) =>
      match findField? fields m.1 with
      | some f => f.read s m.2
      | none => some s) old
  | _, _ => none

end Reader

/-- A field with its part of the record. -/
def field {α σ : Type} (name : String) (get : σ → α) (set : σ → α → σ) (r : Reader α) : Field σ where
  name := name
  read s j := (r (get s) j).map (set s)

end CompilationBridge.Json
