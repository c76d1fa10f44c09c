import CompilationBridge.Table

/-!
One lock for each key, made when it is first asked for and forgotten when no caller holds it or waits
for it. A caller goes through four steps: `register` finds or makes the lock of the key and counts the
caller, `lock` takes it, `unlock` gives it back, and `unregister` discounts the caller and forgets a
lock that nobody is counted for. Steps of different callers may come in any order between these.
-/

namespace CompilationBridge

namespace KeyedLocks

/-- A lock: how many callers are counted for it, and whether one holds it. -/
structure Cell where
  callers : Nat := 0
  isHeld : Bool := false
deriving DecidableEq, Repr, Inhabited

end KeyedLocks

structure KeyedLocks where
  /-- All locks ever made. -/
  cells : List KeyedLocks.Cell := []
  /-- The place of the lock of each key that is in use. -/
  index : Table String Nat := .empty
deriving DecidableEq, Repr, Inhabited

namespace KeyedLocks

/-- Counts a caller for the lock of a key: the place of the lock. -/
def register (l : KeyedLocks) (key : String) : KeyedLocks × Nat :=
  match l.index.get? key with
  | some cell =>
    ({ l with cells := l.cells.modify cell fun c => { c with callers := c.callers + 1 } }, cell)
  | none =>
    ({ cells := l.cells ++ [{ callers := 1 }], index := l.index.put key l.cells.length },
      l.cells.length)

/-- Whether a lock can be taken. -/
def isFree (l : KeyedLocks) (cell : Nat) : Bool :=
  ((l.cells[cell]?).map (!·.isHeld)).getD false

def lock (l : KeyedLocks) (cell : Nat) : KeyedLocks :=
  { l with cells := l.cells.modify cell fun c => { c with isHeld := true } }

def unlock (l : KeyedLocks) (cell : Nat) : KeyedLocks :=
  { l with cells := l.cells.modify cell fun c => { c with isHeld := false } }

def callers (l : KeyedLocks) (cell : Nat) : Nat :=
  ((l.cells[cell]?).map (·.callers)).getD 0

/-- Discounts a caller. The lock of the key is forgotten when nobody is counted for it. -/
def unregister (l : KeyedLocks) (key : String) (cell : Nat) : KeyedLocks :=
  let cells := l.cells.modify cell fun c => { c with callers := c.callers - 1 }
  let left : KeyedLocks := { l with cells := cells }
  if left.callers cell = 0 then { left with index := l.index.erase key } else left

/-- How many keys have a lock. -/
def size (l : KeyedLocks) : Nat := l.index.size

end KeyedLocks

end CompilationBridge
