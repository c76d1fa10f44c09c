import CompilationBridge.OutputLog
import CompilationBridge.Simulation.Schedule
import CompilationBridge.Supervisor

/-!
A supervisor run against scripted hosts. Each attempt to launch follows the next entry of the script,
and the last entry repeats. A process that is told to terminate exits at once. The clock moves only by
`advance`.
-/

namespace CompilationBridge.Simulation

/-- What happens to one attempt to launch a host. Times count from the start of the process. -/
structure HostScript where
  portError : Bool := false
  startError : Bool := false
  /-- When the port begins to accept, if it ever does. -/
  connectAfter : Option Nat := none
  exitAfter : Option Nat := none
  exitCode : Int := 0
  /-- Whether the process exits while the port is probed with success. -/
  exitOnConnect : Bool := false
  dialError : Bool := false
deriving DecidableEq, Repr, Inhabited

/-- A process that runs by a script. -/
structure HostLife where
  born : Nat
  script : HostScript
deriving DecidableEq, Repr, Inhabited

/-- What the bridge asks of the system and may be refused. -/
inductive ProcessNeed where
  | startRestore
  | terminate
deriving DecidableEq, Repr

structure HostBench where
  supervisor : Supervisor
  scripts : List HostScript := []
  attempts : Nat := 0
  lives : List HostLife := []
  sink : OutputSink := .unopened "dth-host"
  now : Nat := 0
  logs : List LogRecord := []
  started : List (List String) := []
  terminated : Nat := 0
  connected : List Nat := []
  returned : List (Supervisor.Role × Option Fault) := []
  updates : List String := []
deriving Repr, Inhabited

namespace HostBench

/-- Forgets what was seen. -/
def clear (b : HostBench) : HostBench :=
  { b with
    logs := []
    started := []
    terminated := 0
    connected := []
    returned := []
    updates := [] }

def new (settings : Settings.Host) (scripts : List HostScript) : HostBench :=
  { supervisor := .new settings, scripts := scripts }

/-- The script of an attempt. -/
def script (b : HostBench) (attempt : Nat) : HostScript :=
  match b.scripts.getLast? with
  | none => { connectAfter := some 0 }
  | some last => (b.scripts[attempt]?).getD last

/-- The port that an attempt is given. -/
def portOf (attempt : Nat) : Nat := 4100 + attempt

/-- Follows the script of the next attempt. -/
def attempt (b : HostBench) : Supervisor.Launch × HostBench :=
  let script := b.script b.attempts
  let port := portOf b.attempts
  let b := { b with attempts := b.attempts + 1 }
  if script.portError then (.noPort injectedFault, b)
  else if script.startError then (.noProcess injectedFault, b)
  else (.process port, { b with lives := b.lives ++ [⟨b.now, script⟩] })

/-- Whether the port of a process accepts. -/
def accepts (b : HostBench) (process : Nat) : Bool :=
  match b.lives[process]? with
  | some life => match life.script.connectAfter with
    | some wait => life.born + wait ≤ b.now
    | none => false
  | none => false

def exit (b : HostBench) (process : Nat) (code : Int) : HostBench :=
  { b with supervisor := b.supervisor.exit process code }

/-- A probe that succeeds may be the end of the process. -/
def probed (b : HostBench) (process : Nat) : HostBench :=
  match b.lives[process]? with
  | some life =>
    if life.script.exitOnConnect && b.accepts process then b.exit process life.script.exitCode
    else b
  | none => b

/-- The answers to a worker, where a termination fails as given. -/
def answer (b : HostBench) (w : Supervisor.Worker) (refusal : Option Fault) :
    Supervisor.Surroundings × HostBench :=
  let e : Supervisor.Surroundings := { now := b.now, terminate := refusal }
  match w.point with
  | .launch =>
    if b.supervisor.phase = .stopped then (e, b)
    else
      let (launch, b) := b.attempt
      ({ e with launch := launch }, b)
  | .probe process _ => ({ e with accepts := b.accepts process }, b.probed process)
  | _ => (e, b)

/-- Whether the next step of a worker tells a process to terminate. -/
def terminates (w : Supervisor.Worker) : Bool :=
  match w.point with
  | .expire _ => true
  | .terminate _ => true
  | _ => false

/-- Takes note of an effect. A process that is told to terminate exits. -/
def witness (b : HostBench) : Supervisor.Effect → HostBench
  | .log record => { b with logs := b.logs ++ [record] }
  | .launched port hostId =>
    let args := Supervisor.command b.supervisor.settings (toString port) "<pid>" hostId
    { b with started := b.started ++ [args] }
  | .terminated process =>
    { b.exit process (-1) with terminated := b.terminated + 1 }
  | .connected port => { b with connected := b.connected ++ [port] }
  | .returned role fault => { b with returned := b.returned ++ [(role, fault)] }

/-- One step of a worker. -/
def move (b : HostBench) (i : Nat) (w : Supervisor.Worker) (refusal : Option Fault) : HostBench :=
  let (e, b) := b.answer w refusal
  match b.supervisor.step i e with
  | some (supervisor, effects) => effects.foldl witness { b with supervisor := supervisor }
  | none => b

/-- When a running process exits by its script. -/
def exits (b : HostBench) : List (Nat × Nat × Int) :=
  b.lives.zipIdx.filterMap fun (life, process) =>
    if b.supervisor.hasExited process then none
    else life.script.exitAfter.map fun wait => (life.born + wait, process, life.script.exitCode)

/-- The times at which something is due. -/
def due (b : HostBench) : List Nat :=
  b.supervisor.wakes ++ b.exits.map (·.1)

/-- Sets the clock; processes whose time has come exit. -/
def setClock (b : HostBench) (now : Nat) : HostBench :=
  let b := { b with now := now }
  b.exits.foldl (fun b (time, process, code) => if time ≤ now then b.exit process code else b) b

/-- The newest process, if it runs. -/
def running? (b : HostBench) : Option Nat :=
  let n := b.supervisor.processes.length
  if n = 0 || b.supervisor.hasExited (n - 1) then none else some (n - 1)

/-- The newest process prints a line; false if none runs. -/
def output (b : HostBench) (line : String) (needs : Outages OutputLog.Need) :
    HostBench × Outages OutputLog.Need × Bool :=
  match b.running? with
  | none => (b, needs, false)
  | some _ =>
    let (sink, needs, update, fault) := b.sink.write line needs
    let record := fault.map fun f =>
      LogRecord.warn "setting up compilation host output file" [] (some f)
    ({ b with
      sink := sink
      updates := b.updates ++ update.toList
      logs := b.logs ++ record.toList }, needs, true)

end HostBench

/-- A supervisor on its own, with outages. -/
structure SupervisorBench where
  hosts : HostBench
  outages : Outages ProcessNeed := {}
  needs : Outages OutputLog.Need := {}
deriving Repr, Inhabited

namespace SupervisorBench

/-- Enough steps for what can happen at one time. -/
def instantFuel : Nat := 100000

/-- Enough times for what can happen in one advance. -/
def advanceFuel : Nat := 1000000

def new (settings : Settings.Host) (scripts : List HostScript) : SupervisorBench :=
  { hosts := .new settings scripts }

def clear (b : SupervisorBench) : SupervisorBench :=
  { b with hosts := b.hosts.clear }

/-- One step of the first worker that is ready. -/
def step? (b : SupervisorBench) : Option SupervisorBench :=
  (b.hosts.supervisor.ready? b.hosts.now).map fun (i, w) =>
    let (failing, outages) :=
      if HostBench.terminates w then b.outages.draw .terminate else (false, b.outages)
    let refusal := if failing then some injectedFault else none
    { b with hosts := b.hosts.move i w refusal, outages := outages }

/-- Runs until every worker waits. -/
def settle (b : SupervisorBench) : SupervisorBench :=
  iterate step? instantFuel b

/-- Goes to the next time at which something is due, if it is not after a limit. -/
def nextTime? (limit : Option Nat) (b : SupervisorBench) : Option SupervisorBench :=
  match earliest b.hosts.due with
  | some time =>
    if limit.all (time ≤ ·) then
      some ({ b with hosts := b.hosts.setClock (max b.hosts.now time) }.settle)
    else none
  | none => none

def advance (b : SupervisorBench) (span : Nat) : SupervisorBench :=
  if span = 0 then b
  else
    let limit := b.hosts.now + span
    let b := iterate (nextTime? (some limit)) advanceFuel b
    { b with hosts := b.hosts.setClock limit }

def start (b : SupervisorBench) (hostId : String) : SupervisorBench :=
  { b with hosts := { b.hosts with supervisor := b.hosts.supervisor.start hostId } }.settle

def stop (b : SupervisorBench) : SupervisorBench :=
  { b with hosts := { b.hosts with supervisor := b.hosts.supervisor.stop } }.settle

def isStopping (b : SupervisorBench) : Bool :=
  b.hosts.supervisor.workers.any fun w => w.role = .stopper && !w.point.isDone

/-- Stops and lets time pass until the call returns. -/
def shutDown (b : SupervisorBench) : SupervisorBench :=
  let waiting (b : SupervisorBench) : Option SupervisorBench :=
    if b.isStopping then nextTime? none b else none
  iterate waiting advanceFuel b.clear.stop

/-- The newest process exits; false if none runs. -/
def exit (b : SupervisorBench) (code : Int) : SupervisorBench × Bool :=
  match b.hosts.running? with
  | some process => ({ b with hosts := b.hosts.exit process code }.settle, true)
  | none => (b, false)

/-- The newest process prints a line; false if none runs. -/
def output (b : SupervisorBench) (line : String) : SupervisorBench × Bool :=
  let (hosts, needs, found) := b.hosts.output line b.needs
  ({ b with hosts := hosts, needs := needs }, found)

end SupervisorBench

end CompilationBridge.Simulation
