/-!
Which projects are expected to load. A caller that waits for all of them looks whether any is left
and, if so, blocks until the round in which it looked is over. Each change ends a round and begins the
next, so a caller that blocks has seen the projects as they are, or its round is over.
-/

namespace CompilationBridge

structure LoadTracker where
  /-- The projects that have not loaded, each once. -/
  waiting : List Nat := []
  /-- The round that the next change ends; all rounds before it are over. -/
  round : Nat := 0
deriving DecidableEq, Repr, Inhabited

namespace LoadTracker

/-- Ends the round and begins the next. -/
def notify (t : LoadTracker) : LoadTracker :=
  { t with round := t.round + 1 }

def expect (t : LoadTracker) (id : Nat) : LoadTracker :=
  { t with waiting := if id ∈ t.waiting then t.waiting else t.waiting ++ [id] }.notify

/-- A project has loaded, or will not; one that was not expected changes nothing. -/
def loaded (t : LoadTracker) (id : Nat) : LoadTracker :=
  if id ∈ t.waiting then { t with waiting := t.waiting.erase id }.notify else t

/-- The projects that have not loaded, in order. -/
def pending (t : LoadTracker) : List Nat :=
  t.waiting.mergeSort (· ≤ ·)

def isOver (t : LoadTracker) (round : Nat) : Bool :=
  round < t.round

/-- What ends the wait of a caller. -/
inductive Wake where
  | changed
  | expired
  | cancelled
deriving DecidableEq, Repr, Inhabited

/-- A caller that waits. -/
inductive Waiter where
  | checking
  | blocked (round : Nat)
  | loaded
  | timedOut
  | cancelled
deriving DecidableEq, Repr, Inhabited

/-- Whether what a blocked caller waits for has happened. -/
def hasHappened (t : LoadTracker) (round : Nat) (expired cancelled : Bool) : Wake → Bool
  | .changed => t.isOver round
  | .expired => expired
  | .cancelled => cancelled

/-- The step of a caller; where several things have happened it takes up the chosen one, else the
first. A caller that has nothing to take up has no step. -/
def Waiter.step? (t : LoadTracker) (expired cancelled : Bool) (choice : Wake) :
    Waiter → Option Waiter
  | .checking => some (if t.waiting = [] then .loaded else .blocked t.round)
  | .blocked round =>
    let happened := t.hasHappened round expired cancelled
    ([choice, .changed, .expired, .cancelled].find? happened).map fun
      | .changed => .checking
      | .expired => .timedOut
      | .cancelled => .cancelled
  | _ => none

end LoadTracker

end CompilationBridge
