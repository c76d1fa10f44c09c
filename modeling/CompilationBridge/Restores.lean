import CompilationBridge.Counters
import CompilationBridge.Event
import CompilationBridge.KeyedLocks
import CompilationBridge.LogRecord
import CompilationBridge.Message.Printer
import CompilationBridge.Settings.Sections

/-!
Runs of the package restore tool. Each run is a worker: it tells editors that it has started, takes
the lock of its project and then a permit, of which there are as many as tools may run at once, and
runs the tool. A watchdog looks at regular times whether the tool has printed something within the
timeout; it kills a tool that has not, and a killed tool is run again while retries remain. At the end
the run tells editors how it went, and the host if it went well. Stopping cancels all runs.

Questions about the outside are answered by `Surroundings`. Where a run waits for several things and
more than one of them has happened, `Surroundings.choice` says which one it takes up.
-/

namespace CompilationBridge

namespace Restores

/-- A process of the restore tool. -/
structure Process where
  path : String
  /-- When it last printed something, or was started. -/
  lastOutput : Nat
  exitCode : Option Int := none
  /-- Whether it was told to terminate. -/
  terminated : Bool := false
deriving DecidableEq, Repr, Inhabited

/-- What a run waits for while its tool runs. -/
inductive Wake where
  | exited
  | cancelled
  | tick
deriving DecidableEq, Repr, Inhabited

/-- A tool that a run watches: its process, the time of its start, the next look of the watchdog, and
whether the watchdog has killed it. -/
structure Watch where
  process : Nat
  born : Nat
  nextTick : Nat
  killed : Bool := false
deriving DecidableEq, Repr, Inhabited

/-- Where a run stands. `cell` is the lock of its project and `code` the exit code it ends with. -/
inductive Point where
  | entry
  | register
  | lock (cell : Nat)
  | acquire (cell : Nat)
  /-- Waits for a permit. -/
  | queued (cell : Nat)
  | attempt (cell retries : Nat)
  | watch (cell retries : Nat) (tool : Watch)
  /-- The watchdog kills the tool. -/
  | kill (cell retries : Nat) (tool : Watch)
  /-- The run was cancelled and terminates its tool. -/
  | abort (cell : Nat) (process : Nat)
  | reap (cell : Nat) (process : Nat)
  /-- Gives the permit back. -/
  | release (cell : Nat) (code : Int)
  | unlock (cell : Nat) (code : Int)
  | unregister (cell : Nat) (code : Int)
  | announce (code : Int)
  | conclude (code : Int)
  /-- Tells the host. -/
  | tell
  | done
deriving DecidableEq, Repr, Inhabited

structure Run where
  project : Graph.ProjectRef
  point : Point := .entry
deriving DecidableEq, Repr

structure Tally where
  runs : Nat := 0
  failed : Nat := 0
  success : Nat := 0
  watchdogKills : Nat := 0
deriving DecidableEq, Repr, Inhabited

def Tally.counters (t : Tally) : Counters := [
  ("restore.runs", t.runs), ("restore.failed", t.failed), ("restore.success", t.success),
  ("restore.watchdog_kills", t.watchdogKills)]

/-- The answers of the outside to the step of a run: the fault of what the step asks for, if it
fails. -/
structure Surroundings where
  now : Nat
  fault : Option Fault := none
  choice : Wake := .exited
deriving Repr, Inhabited

/-- What a step shows outside. -/
inductive Effect where
  | log (record : LogRecord)
  | emitted (event : Event)
  | launched (project : Graph.ProjectRef)
  | terminated (process : Nat)
  | sent (message : Message)
deriving Repr

end Restores

structure Restores where
  settings : Settings.Restore
  /-- How many tools may run at once. -/
  limit : Nat
  cancelled : Bool := false
  locks : KeyedLocks := {}
  /-- Permits that are taken. -/
  permits : Nat := 0
  /-- The runs that wait for a permit, in the order in which they get one. -/
  queue : List Nat := []
  runs : List Restores.Run := []
  processes : List Restores.Process := []
  tally : Restores.Tally := {}
deriving Repr, Inhabited

namespace Restores

/-- The number of tools that may run at once, on a machine with so many processors. -/
def limitOf (settings : Settings.Restore) (processors : Nat) : Nat :=
  if 0 < settings.maxConcurrency then settings.maxConcurrency.toNat else max 1 (processors / 2)

def new (settings : Settings.Restore) (processors : Nat) : Restores :=
  { settings := settings, limit := limitOf settings processors }

def command (settings : Settings.Restore) : List String :=
  settings.executable :: settings.arguments.getD []

/-- A restore is asked for. It is accepted if the tool is enabled and nothing was stopped. -/
def run (r : Restores) (project : Graph.ProjectRef) : Restores :=
  if r.settings.enabled && !r.cancelled then { r with runs := r.runs ++ [{ project := project }] }
  else r

/-- The first step of stopping; it ends when all runs have ended. -/
def cancel (r : Restores) : Restores :=
  { r with cancelled := true }

def Point.isDone : Point → Bool
  | .done => true
  | _ => false

/-- Whether every run has ended. -/
def isQuiet (r : Restores) : Bool :=
  r.runs.all (·.point.isDone)

def exitCode? (r : Restores) (process : Nat) : Option Int :=
  (r.processes[process]?).bind (·.exitCode)

def hasExited (r : Restores) (process : Nat) : Bool :=
  (r.exitCode? process).isSome

/-- A process exits; one that has exited keeps its code. -/
def exit (r : Restores) (process : Nat) (code : Int) : Restores :=
  { r with processes := r.processes.modify process fun p =>
    { p with exitCode := some (p.exitCode.getD code) } }

/-- A process prints something. -/
def output (r : Restores) (process : Nat) (now : Nat) : Restores :=
  { r with processes := r.processes.modify process fun p => { p with lastOutput := now } }

def lastOutput (r : Restores) (process : Nat) : Nat :=
  ((r.processes[process]?).map (·.lastOutput)).getD 0

/-- Whether something that a watching run waits for has happened. -/
def hasHappened (r : Restores) (now : Nat) (tool : Watch) : Wake → Bool
  | .exited => r.hasExited tool.process
  | .cancelled => r.cancelled
  | .tick => tool.nextTick ≤ now

/-- What a watching run takes up: the choice if it has happened, else the first that has. -/
def wake? (r : Restores) (now : Nat) (tool : Watch) (choice : Wake) : Option Wake :=
  [choice, .exited, .cancelled, .tick].find? (r.hasHappened now tool)

/-- Whether a run can get a permit without passing one that waits. -/
def isFirst (r : Restores) (i : Nat) : Bool :=
  r.permits < r.limit && r.queue.head? = some i

/-- Whether a run can take a step: it has not ended and does not wait. -/
def isReady (r : Restores) (now : Nat) (i : Nat) : Point → Bool
  | .lock cell => r.locks.isFree cell
  | .queued _ => r.cancelled || r.isFirst i
  | .watch _ _ tool => (r.wake? now tool .exited).isSome
  | .reap _ process => r.hasExited process
  | .done => false
  | _ => true

def goTo (r : Restores) (i : Nat) (point : Point) : Restores :=
  { r with runs := r.runs.modify i fun x => { x with point := point } }

def markTerminated (r : Restores) (process : Nat) : Restores :=
  { r with processes := r.processes.modify process fun p => { p with terminated := true } }

/-- The first look of the watchdog after a time. -/
def tickAfter (interval born now : Nat) : Nat :=
  born + interval * ((now - born) / interval + 1)

def projectField (project : Graph.ProjectRef) : String × Json :=
  ("project", .str project.path)

def emitFailure (event : Event) (fault : Fault) : LogRecord :=
  .warn "emitting restore event" [("event", .str event.type)] (some fault)

def logged (record : Fault → LogRecord) (fault : Option Fault) : List Effect :=
  (fault.map fun f => Effect.log (record f)).toList

/-- A run tells editors something. -/
def emit (event : Event) (fault : Option Fault) : List Effect :=
  .emitted event :: logged (emitFailure event) fault

/-- The step in which a run asks for a permit. -/
def acquireStep (r : Restores) (i cell : Nat) : Restores :=
  if r.cancelled then r.goTo i (.unlock cell (-1))
  else if r.permits < r.limit && r.queue.isEmpty then
    { r with permits := r.permits + 1 }.goTo i (.attempt cell r.settings.retries.toNat)
  else { r with queue := r.queue ++ [i] }.goTo i (.queued cell)

/-- The step in which a waiting run gets its permit or is cancelled. -/
def queuedStep (r : Restores) (i cell : Nat) : Restores :=
  let r := { r with queue := r.queue.erase i }
  if r.cancelled then r.goTo i (.unlock cell (-1))
  else { r with permits := r.permits + 1 }.goTo i (.attempt cell r.settings.retries.toNat)

/-- The step that starts the tool. -/
def attemptStep (r : Restores) (i cell retries : Nat) (project : Graph.ProjectRef)
    (e : Surroundings) : Restores × List Effect :=
  match e.fault with
  | some fault =>
    (r.goTo i (.release cell (-1)),
      [.log (.error "starting restore"
        [projectField project, ("executable", .str r.settings.executable)] (some fault))])
  | none =>
    let process := r.processes.length
    let interval := r.settings.watchdogInterval.toNat
    let r := { r with
      processes := r.processes ++ [({ path := project.path, lastOutput := e.now } : Process)] }
    (r.goTo i (.watch cell retries ⟨process, e.now, e.now + interval, false⟩),
      [.launched project])

/-- The end of an attempt: a tool that the watchdog killed is run again while retries remain. -/
def afterExit (r : Restores) (i cell retries : Nat) (tool : Watch) : Restores :=
  if tool.killed && 0 < retries then r.goTo i (.attempt cell (retries - 1))
  else r.goTo i (.release cell ((r.exitCode? tool.process).getD (-1)))

/-- A look of the watchdog. -/
def tickStep (r : Restores) (i cell retries : Nat) (tool : Watch) (project : Graph.ProjectRef)
    (now : Nat) : Restores × List Effect :=
  let tool := { tool with
    nextTick := tickAfter r.settings.watchdogInterval.toNat tool.born now }
  let idle := now - r.lastOutput tool.process
  if tool.killed || (idle : Int) ≤ r.settings.timeout then
    (r.goTo i (.watch cell retries tool), [])
  else
    let tally := { r.tally with watchdogKills := r.tally.watchdogKills + 1 }
    ({ r with tally := tally }.goTo i (.kill cell retries { tool with killed := true }),
      [.log (.warn "restore produced no output, killing it"
        [projectField project, ("idle", .nat idle)] none)])

/-- The step of a run whose tool runs, when something has happened. -/
def watchStep (r : Restores) (i cell retries : Nat) (tool : Watch) (project : Graph.ProjectRef)
    (e : Surroundings) : Restores × List Effect :=
  match r.wake? e.now tool e.choice with
  | some .exited => (r.afterExit i cell retries tool, [])
  | some .cancelled => (r.goTo i (.abort cell tool.process), [])
  | some .tick => r.tickStep i cell retries tool project e.now
  | none => (r, [])

def terminateFailure (project : Graph.ProjectRef) (fault : Fault) : LogRecord :=
  .warn "terminating restore" [projectField project] (some fault)

/-- A run tells its process to terminate. -/
def terminate (r : Restores) (project : Graph.ProjectRef) (process : Nat) (fault : Option Fault) :
    Restores × List Effect :=
  (r.markTerminated process, .terminated process :: logged (terminateFailure project) fault)

/-- The message that tells the host about a restore. -/
def completion (project : Graph.ProjectRef) : Message :=
  Message.new "RestoreComplete" project.contextId none

def finished (project : Graph.ProjectRef) (code : Int) : Event :=
  .restoreFinished project.path (code = 0)

/-- The step in which a run counts how it went. -/
def concludeStep (r : Restores) (i : Nat) (project : Graph.ProjectRef) (code : Int) :
    Restores × List Effect :=
  if code = 0 then
    let tally := { r.tally with success := r.tally.success + 1 }
    ({ r with tally := tally }.goTo i .tell, [])
  else
    let tally := { r.tally with failed := r.tally.failed + 1 }
    ({ r with tally := tally }.goTo i .done,
      [.log (.warn "restore failed" [projectField project, ("exitCode", .int code)] none)])

def sendFailure (project : Graph.ProjectRef) (fault : Fault) : LogRecord :=
  .warn "notifying compilation host of restore" [projectField project] (some fault)

/-- The event that the next step of a run tells editors. -/
def Run.event? (x : Run) : Option Event :=
  match x.point with
  | .entry => some (.restoreStarted x.project.path)
  | .announce code => some (finished x.project code)
  | _ => none

/-- What a run that is ready does next. -/
def act (r : Restores) (i : Nat) (x : Run) (e : Surroundings) : Restores × List Effect :=
  match x.point with
  | .entry =>
    let tally := { r.tally with runs := r.tally.runs + 1 }
    ({ r with tally := tally }.goTo i .register,
      emit (.restoreStarted x.project.path) e.fault)
  | .register =>
    let (locks, cell) := r.locks.register x.project.path
    ({ r with locks := locks }.goTo i (.lock cell), [])
  | .lock cell => ({ r with locks := r.locks.lock cell }.goTo i (.acquire cell), [])
  | .acquire cell => (r.acquireStep i cell, [])
  | .queued cell => (r.queuedStep i cell, [])
  | .attempt cell retries => r.attemptStep i cell retries x.project e
  | .watch cell retries tool => r.watchStep i cell retries tool x.project e
  | .kill cell retries tool =>
    let (r, effects) := r.terminate x.project tool.process e.fault
    (r.goTo i (.watch cell retries tool), effects)
  | .abort cell process =>
    let (r, effects) := r.terminate x.project process e.fault
    (r.goTo i (.reap cell process), effects)
  | .reap cell _ => (r.goTo i (.release cell (-1)), [])
  | .release cell code => ({ r with permits := r.permits - 1 }.goTo i (.unlock cell code), [])
  | .unlock cell code =>
    ({ r with locks := r.locks.unlock cell }.goTo i (.unregister cell code), [])
  | .unregister cell code =>
    ({ r with locks := r.locks.unregister x.project.path cell }.goTo i (.announce code), [])
  | .announce code => (r.goTo i (.conclude code), emit (finished x.project code) e.fault)
  | .conclude code => r.concludeStep i x.project code
  | .tell =>
    (r.goTo i .done,
      match e.fault with
      | some fault => [.log (sendFailure x.project fault)]
      | none => [.sent (completion x.project)])
  | .done => (r, [])

/-- The step of a run, if it is ready. -/
def step (r : Restores) (i : Nat) (e : Surroundings) : Option (Restores × List Effect) :=
  match r.runs[i]? with
  | some x => if r.isReady e.now i x.point then some (r.act i x e) else none
  | none => none

/-- The first run that is ready. -/
def ready? (r : Restores) (now : Nat) : Option (Nat × Run) :=
  (r.runs.zipIdx.find? fun (x, i) => r.isReady now i x.point).map fun (x, i) => (i, x)

/-- The times at which the watchdog looks next. -/
def ticks (r : Restores) : List Nat :=
  r.runs.filterMap fun x => match x.point with
    | .watch _ _ tool => some tool.nextTick
    | _ => none

end Restores

end CompilationBridge
