import CompilationBridge.Graph.Reconciler
import CompilationBridge.Notifier
import CompilationBridge.Settings.Sections

/-!
The project graph and the notifier on a bench of their own, under a clock that is moved by hand. What
they tell editors, the host and the restore tool is collected, and any of these may be out of order
for a while.
-/

namespace CompilationBridge.Simulation

/-- The parts that the graph bench stands in for. -/
inductive GraphPart where
  | emit
  | showError
  | send
deriving DecidableEq, Repr

/-- What an editor was shown. -/
inductive Shown where
  | event (event : Event)
  | error (text : String)

/-- What listeners were told about a project. -/
inductive Signal where
  | added
  | unresolved
  | loaded
deriving DecidableEq, Repr

structure GraphBench where
  reconciler : Graph.Reconciler
  notifier : Notifier
  outages : Outages GraphPart := {}
  now : Nat := 0
  logs : List LogRecord := []
  shown : List Shown := []
  signals : List (Signal × Graph.ProjectRef) := []
  restores : List Graph.ProjectRef := []
  sent : List Message := []

namespace GraphBench

def new (settings : Settings.Projects) : GraphBench where
  reconciler := .new settings.sourceExtension
  notifier := { debounce := settings.debounce.toNat }

/-- Forgets what has been collected. -/
def clear (b : GraphBench) : GraphBench :=
  { b with
    reconciler := { b.reconciler with calls := [], logs := [] }
    logs := []
    shown := []
    signals := []
    restores := []
    sent := [] }

def log (b : GraphBench) (record : LogRecord) : GraphBench :=
  { b with logs := b.logs ++ [record] }

/-- Uses a part, and logs if it fails. -/
def usePart (b : GraphBench) (part : GraphPart) (failure : Fault → Option LogRecord) :
    GraphBench × Bool :=
  let (failing, outages) := b.outages.draw part
  let b := { b with outages := outages }
  if failing then
    match failure injectedFault with
    | some record => (b.log record, false)
    | none => (b, false)
  else (b, true)

/-- Carries out one announcement. -/
def announce (b : GraphBench) (n : Graph.Notice) : GraphBench :=
  match n with
  | .log record => b.log record
  | .showError text =>
    ({ b with shown := b.shown ++ [Shown.error text] }.usePart .showError n.failure).1
  | .emit event =>
    ({ b with shown := b.shown ++ [Shown.event event] }.usePart .emit n.failure).1
  | .added ref => { b with signals := b.signals ++ [(.added, ref)] }
  | .unresolved ref => { b with signals := b.signals ++ [(.unresolved, ref)] }
  | .loaded ref => { b with signals := b.signals ++ [(.loaded, ref)] }

/-- The host sends a message. -/
def apply (b : GraphBench) (m : Message) : GraphBench :=
  let (r, notices) := b.reconciler.apply m
  let b := { b with reconciler := { r with logs := [] }, logs := b.logs ++ r.logs }
  notices.foldl announce b

/-- Sends a message to the host: the fault, if it cannot be sent. -/
def send (b : GraphBench) (m : Message) : GraphBench × Option Fault :=
  match b.usePart .send fun _ => none with
  | (b, true) => ({ b with sent := b.sent ++ [m] }, none)
  | (b, false) => (b, some injectedFault)

def manifestChanged (b : GraphBench) (path : String) : GraphBench :=
  let b := { b with
    restores := b.restores ++ (Notifier.restoreFor b.reconciler.store path).toList }
  { b with notifier := b.notifier.manifestChanged b.now path }

def lockFileChanged (b : GraphBench) (path : String) : GraphBench :=
  { b with notifier := b.notifier.lockFileChanged b.now path }

/-- Runs the callback of a timer that is due. -/
def fire (b : GraphBench) (due : Nat) (k : Notifier.Key) : GraphBench :=
  let (n, b, records) := b.notifier.fire send { b with now := due } b.reconciler.store k
  { b with notifier := n, logs := b.logs ++ records }

/-- Fires the timers that are due by a time, one after the other. -/
def fireUntil : Nat → Nat → GraphBench → GraphBench
  | 0, _, b => b
  | fuel + 1, limit, b =>
    match b.notifier.nextDue? limit with
    | some (due, k) => fireUntil fuel limit (b.fire due k)
    | none => b

/-- Moves the clock. A timer that fires arms no other, so there are no more of them than now. -/
def advance (b : GraphBench) (span : Nat) : GraphBench :=
  if span = 0 then b
  else
    let limit := b.now + span
    { fireUntil b.notifier.timers.size limit b with now := limit }

def stopNotifier (b : GraphBench) : GraphBench :=
  { b with notifier := b.notifier.stop }

def updateStore (b : GraphBench) (s : Except Fault Graph.Store) : GraphBench × Option Fault :=
  match s with
  | .ok store => ({ b with reconciler := { b.reconciler with store := store } }, none)
  | .error fault => (b, some fault)

end GraphBench

end CompilationBridge.Simulation
