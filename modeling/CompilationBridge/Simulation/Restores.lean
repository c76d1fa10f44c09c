import CompilationBridge.OutputLog
import CompilationBridge.Restores
import CompilationBridge.Simulation.Hosts

/-!
Restores on a bench of their own. Processes exit when they are told to; one that is told to terminate
exits at once. What the runs ask of the outside fails as the outages say. The clock moves only by
`advance`.
-/

namespace CompilationBridge.Simulation

/-- What runs ask of editors and the host. -/
inductive RestoreNeed where
  | emit
  | send
  | process (need : ProcessNeed)
deriving DecidableEq, Repr

/-- What the next step of a run asks of the outside. -/
def restoreNeed? : Restores.Point → Option RestoreNeed
  | .entry => some .emit
  | .announce _ => some .emit
  | .attempt _ _ => some (.process .startRestore)
  | .kill _ _ _ => some (.process .terminate)
  | .abort _ _ => some (.process .terminate)
  | .tell => some .send
  | _ => none

structure RestoreBench where
  restores : Restores
  outages : Outages RestoreNeed := {}
  needs : Outages OutputLog.Need := {}
  sink : OutputSink := .unopened "restore"
  now : Nat := 0
  /-- The most processes that ran at once. -/
  peak : Nat := 0
  logs : List LogRecord := []
  events : List Event := []
  sent : List Message := []
  started : List String := []
  terminated : List String := []
  updates : List String := []
deriving Repr, Inhabited

namespace RestoreBench

def new (settings : Settings.Restore) (processors : Nat) : RestoreBench :=
  { restores := .new settings processors }

/-- Forgets what was seen. -/
def clear (b : RestoreBench) : RestoreBench :=
  { b with
    logs := []
    events := []
    sent := []
    started := []
    terminated := []
    updates := [] }

/-- How many processes run. -/
def running (b : RestoreBench) : Nat :=
  (b.restores.processes.filter (·.exitCode.isNone)).length

def directoryOf (b : RestoreBench) (process : Nat) : String :=
  ((b.restores.processes[process]?).map fun p => Path.dir p.path).getD ""

/-- Takes note of an effect. A process that is told to terminate exits. -/
def witness (b : RestoreBench) : Restores.Effect → RestoreBench
  | .log record => { b with logs := b.logs ++ [record] }
  | .emitted event => { b with events := b.events ++ [event] }
  | .launched project =>
    { b with started := b.started ++ [project.dir], peak := max b.peak b.running }
  | .terminated process =>
    { b with
      restores := b.restores.exit process (-1)
      terminated := b.terminated ++ [b.directoryOf process] }
  | .sent message => { b with sent := b.sent ++ [message] }

/-- One step of a run, where what it asks for fails as given. -/
def move (b : RestoreBench) (i : Nat) (fault : Option Fault) : RestoreBench :=
  match b.restores.step i { now := b.now, fault := fault } with
  | some (restores, effects) => effects.foldl witness { b with restores := restores }
  | none => b

/-- One step of the first run that is ready. -/
def step? (b : RestoreBench) : Option RestoreBench :=
  (b.restores.ready? b.now).map fun (i, x) =>
    match restoreNeed? x.point with
    | some need =>
      let (failing, outages) := b.outages.draw need
      { b with outages := outages }.move i (if failing then some injectedFault else none)
    | none => b.move i none

/-- Runs until every run waits. -/
def settle (b : RestoreBench) : RestoreBench :=
  iterate step? SupervisorBench.instantFuel b

/-- Goes to the next look of a watchdog, if it is not after a limit. -/
def nextTime? (limit : Nat) (b : RestoreBench) : Option RestoreBench :=
  match earliest b.restores.ticks with
  | some time => if time ≤ limit then some ({ b with now := max b.now time }.settle) else none
  | none => none

def advance (b : RestoreBench) (span : Nat) : RestoreBench :=
  if span = 0 then b
  else
    let limit := b.now + span
    { iterate (nextTime? limit) SupervisorBench.advanceFuel b with now := limit }

def run (b : RestoreBench) (project : Graph.ProjectRef) : RestoreBench :=
  { b with restores := b.restores.run project }.settle

def stop (b : RestoreBench) : RestoreBench :=
  { b with restores := b.restores.cancel }.settle

/-- The newest process of a directory, if it runs. -/
def running? (b : RestoreBench) (directory : String) : Option Nat :=
  let places := (List.range b.restores.processes.length).filter (b.directoryOf · = directory)
  places.getLast?.filter (!b.restores.hasExited ·)

/-- The newest process of a directory exits; false if it does not run. -/
def exit (b : RestoreBench) (directory : String) (code : Int) : RestoreBench × Bool :=
  match b.running? directory with
  | some process => ({ b with restores := b.restores.exit process code }.settle, true)
  | none => (b, false)

/-- The newest process of a directory prints a line; false if it does not run. -/
def output (b : RestoreBench) (directory line : String) : RestoreBench × Bool :=
  match b.running? directory with
  | none => (b, false)
  | some process =>
    let (sink, needs, update, fault) := b.sink.write line b.needs
    let record := fault.map fun f =>
      LogRecord.warn "setting up restore output file" [] (some f)
    ({ b with
      restores := b.restores.output process b.now
      sink := sink
      needs := needs
      updates := b.updates ++ update.toList
      logs := b.logs ++ record.toList }, true)

end RestoreBench

end CompilationBridge.Simulation
