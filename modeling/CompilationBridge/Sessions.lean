import CompilationBridge.Fault
import CompilationBridge.Table

/-!
Sessions of connected editors, by handle. The gauge of active connections is unset until a session is
first stored or removed.
-/

namespace CompilationBridge

structure Session where
  id : Handle
  workspaceRoot : String := ""
deriving DecidableEq, Repr, Inhabited

structure Sessions where
  table : Table Handle Session := .empty
  gauge : Option Nat := none
deriving DecidableEq, Repr, Inhabited

namespace Sessions

def get (s : Sessions) (id : Handle) : Except Fault Session :=
  match s.table.get? id with
  | some session => .ok session
  | none => .error (.sessionNotFound id)

/-- The session of a request, which carries its handle or none. -/
def current (s : Sessions) (id : Option Handle) : Except Fault Session :=
  match id with
  | some id => s.get id
  | none => .error .noSession

def set (s : Sessions) (session : Session) : Sessions :=
  let table := s.table.put session.id session
  { table := table, gauge := some table.size }

/-- Stores a session if there is one to store. -/
def store (s : Sessions) (session : Option Session) : Except Fault Sessions :=
  match session with
  | some session => .ok (s.set session)
  | none => .error (.text "can't save nil session")

def delete (s : Sessions) (id : Handle) : Sessions :=
  let table := s.table.erase id
  { table := table, gauge := some table.size }

def count (s : Sessions) : Nat :=
  s.table.size

def ids (s : Sessions) : List Handle :=
  s.table.keys

end Sessions

end CompilationBridge
