import CompilationBridge.Counters
import CompilationBridge.Graph.Closure
import CompilationBridge.LogRecord
import CompilationBridge.Manifest
import CompilationBridge.Message.Printer

/-!
Notification of the compilation host about changed files. A change arms a timer for its project and
kind of message unless one is pending, so that changes in quick succession are told once. A timer
that expires is first forgotten, so that a later change arms a new one, and then fans out: it sends
one message for each project that the change reaches. Stopping cancels the armed timers and waits for
those that have expired.
-/

namespace CompilationBridge

namespace Notifier

/-- What a timer is for: a manifest and the message to send. -/
structure Key where
  path : String
  order : Order
deriving DecidableEq, Repr

/-- A timer that is pending: it runs until it is due, or has expired and its callback has begun. -/
inductive Timer where
  | armed (due : Nat)
  | expired
deriving DecidableEq, Repr

structure Tally where
  coalesced : Nat := 0
  notifications : Table String Nat := .empty
deriving DecidableEq, Repr, Inhabited

def Tally.counters (t : Tally) : Counters :=
  ("dependency_notifier.coalesced", t.coalesced) ::
    Counters.tagged "dependency_notifier.notifications" "type" t.notifications

end Notifier

structure Notifier where
  debounce : Nat
  stopped : Bool := false
  timers : Table Notifier.Key Notifier.Timer := .empty
  /-- Callbacks whose timer was cancelled after it had expired. -/
  orphans : List Notifier.Key := []
  /-- Callbacks that have forgotten their timer and are about to fan out. -/
  firing : List Notifier.Key := []
  /-- How many timers and callbacks stopping has to wait for. -/
  waiting : Int := 0
  tally : Notifier.Tally := {}
deriving Repr, Inhabited

namespace Notifier

/-- Arms a timer, unless one is pending for the same key or the notifier is stopped. -/
def schedule (n : Notifier) (now : Nat) (k : Key) : Notifier :=
  if n.stopped then n
  else if n.timers.contains k then
    { n with tally := { n.tally with coalesced := n.tally.coalesced + 1 } }
  else
    { n with
      timers := n.timers.put k (.armed (now + n.debounce))
      waiting := n.waiting + 1 }

/-- The timer of a key expires: its callback begins. -/
def expire (n : Notifier) (k : Key) : Notifier :=
  { n with timers := n.timers.modify k fun
    | .armed _ => .expired
    | .expired => .expired }

/-- The first step of a callback: the timer is forgotten. -/
def forget (n : Notifier) (k : Key) : Notifier :=
  if n.timers.get? k = some .expired then
    { n with timers := n.timers.erase k, firing := n.firing ++ [k] }
  else if k ∈ n.orphans then
    { n with orphans := n.orphans.erase k, firing := n.firing ++ [k] }
  else n

/-- The ids that a fan-out sends to. -/
def audience (s : Graph.Store) (k : Key) : List Nat :=
  s.closure k.path

/-- The second step of a callback: one message for each project that the change reaches. -/
def fanOut (n : Notifier) (s : Graph.Store) (k : Key) : Notifier × List Message :=
  if k ∈ n.firing then
    let ids := audience s k
    let type := k.order.type
    let told := (n.tally.notifications.get? type).getD 0
    let notifications :=
      if ids.isEmpty then n.tally.notifications
      else n.tally.notifications.put type (told + ids.length)
    ({ n with
      firing := n.firing.erase k
      waiting := n.waiting - 1
      tally := { n.tally with notifications := notifications } },
      ids.map fun (id : Nat) => Message.new type id none)
  else (n, [])

/-- Whether a timer has expired and its callback has not begun to fan out. -/
def Timer.isExpired : Timer → Bool
  | .armed _ => false
  | .expired => true

/-- The first step of stopping: armed timers are cancelled, and no timer is pending any more. -/
def stop (n : Notifier) : Notifier :=
  let begun := n.timers.entries.filter (·.2.isExpired)
  { n with
    stopped := true
    timers := .empty
    orphans := n.orphans ++ begun.map (·.1)
    waiting := n.waiting - (n.timers.size - begun.length : Nat) }

/-- Whether stopping has nothing left to wait for. -/
def isQuiet (n : Notifier) : Bool :=
  n.waiting = 0

/-- The run of the restore tool that a changed manifest asks for. -/
def restoreFor (s : Graph.Store) (path : String) : Option Graph.ProjectRef :=
  (s.contextId? path).map fun id => ⟨id, Path.clean path⟩

/-- A manifest changed. -/
def manifestChanged (n : Notifier) (now : Nat) (path : String) : Notifier :=
  n.schedule now ⟨Path.clean path, .filesChanged⟩

/-- A lock file changed: the dependencies of the project that owns it are told. -/
def lockFileChanged (n : Notifier) (now : Nat) (path : String) : Notifier :=
  n.schedule now ⟨Manifest.ofLockFile (Path.clean path), .refreshDependencies⟩

/-- The record that a message could not be sent. -/
def sendFailure (m : Message) (fault : Fault) : LogRecord :=
  .warn "notifying compilation host"
    [("contextId", .int m.contextId), ("type", .str m.type)] (some fault)

/-- Sends messages one after the other, given how one is sent. The record of one that cannot be sent is
kept, and the next one is tried. -/
def sendAll {σ : Type} (send : σ → Message → σ × Option Fault) : σ → List Message → σ × List LogRecord
  | x, [] => (x, [])
  | x, m :: rest =>
    let (x, fault) := send x m
    let (x, records) := sendAll send x rest
    (x, (fault.map (sendFailure m)).toList ++ records)

/-- A timer expires and its callback runs to its end: what it has to tell is sent. -/
def fire {σ : Type} (n : Notifier) (send : σ → Message → σ × Option Fault) (x : σ) (s : Graph.Store)
    (k : Key) : Notifier × σ × List LogRecord :=
  let (n, messages) := ((n.expire k).forget k).fanOut s k
  (n, sendAll send x messages)

def dueOf : Timer → Option Nat
  | .armed due => some due
  | .expired => none

/-- The armed timer that is due first, if it is due by a given time. -/
def nextDue? (n : Notifier) (limit : Nat) : Option (Nat × Key) :=
  n.timers.entries.foldl (fun best (k, t) =>
    match dueOf t, best with
    | some due, none => if due ≤ limit then some (due, k) else none
    | some due, some (d, k') => if due < d then some (due, k) else some (d, k')
    | none, _ => best) none

end Notifier

end CompilationBridge
