import CompilationBridge.Counters
import CompilationBridge.LogRecord
import CompilationBridge.Settings.Sections
import CompilationBridge.TokenBucket

/-!
The supervisor of the compilation host. Calls to start and to stop, and the loop that restarts a host
that has crashed, are workers that take turns; one step of a worker is what it does without another
worker coming in between. A launch picks a port, starts a process and polls the port until the host
accepts a connection, the process has exited or the handshake timeout has passed. The loop relaunches
a host that exits, and waits for a token before it does so when the host crashes repeatedly.

Questions about the outside are answered by `Surroundings`: whether a process can be started, whether
the port accepts, whether a process lets itself be terminated. An exit of a process is a step of its
own, `Supervisor.exit`.
-/

namespace CompilationBridge

namespace Supervisor

inductive Phase where
  | idle
  | starting
  | connected
  | crashed
  | stopped
deriving DecidableEq, Repr, Inhabited

def Phase.text : Phase → String
  | .idle => "idle"
  | .starting => "starting"
  | .connected => "connected"
  | .crashed => "crashed"
  | .stopped => "stopped"

/-- A host process that was launched. -/
structure Process where
  port : Nat
  exitCode : Option Int := none
  /-- Whether it was told to terminate. -/
  terminated : Bool := false
deriving DecidableEq, Repr, Inhabited

/-- What a worker is: a call to start, the restarting loop, or a call to stop. -/
inductive Role where
  | starter
  | keeper
  | stopper
deriving DecidableEq, Repr, Inhabited

/-- Where a worker stands. A process is given by its place among those launched. -/
inductive Point where
  /-- A call to start begins. -/
  | entry
  | launch
  /-- The handshake begins. -/
  | greet (process : Nat)
  | check (process deadline : Nat)
  | probe (process deadline : Nat)
  /-- The port accepted: the process is looked at once more. -/
  | confirm (process : Nat)
  /-- The port did not accept: wait or give up. -/
  | decide (process deadline : Nat)
  | asleep (process deadline wake : Nat)
  | expire (process : Nat)
  /-- The handshake failed. -/
  | giveUp (process : Nat)
  /-- The handshake succeeded. -/
  | settle (process : Nat)
  | call (port : Nat)
  /-- The call that tells about the connection is under way. -/
  | calling (port : Nat)
  /-- A call to start hands over to the restarting loop. -/
  | enlist
  | watch
  | await (process : Nat)
  | report (process : Nat)
  | throttle
  | reserve
  | pause (wake : Nat)
  /-- A call to stop begins. -/
  | halt
  | terminate (process : Nat)
  | join (fault : Option Fault)
  | done
deriving Repr, Inhabited

structure Worker where
  role : Role
  hostId : String := ""
  point : Point
deriving Repr, Inhabited

structure Tally where
  starts : Nat := 0
  handshakeFailures : Nat := 0
  restarts : Nat := 0
  throttledRestarts : Nat := 0
deriving DecidableEq, Repr, Inhabited

def Tally.counters (t : Tally) : Counters := [
  ("supervisor.starts", t.starts), ("supervisor.handshake_failures", t.handshakeFailures),
  ("supervisor.restarts", t.restarts), ("supervisor.throttled_restarts", t.throttledRestarts)]

/-- How an attempt to launch a process ends. -/
inductive Launch where
  | noPort (fault : Fault)
  | noProcess (fault : Fault)
  | process (port : Nat)
deriving Repr, Inhabited

/-- The answers of the outside to the step of a worker. -/
structure Surroundings where
  now : Nat
  launch : Launch := .process 0
  accepts : Bool := false
  terminate : Option Fault := none
deriving Repr, Inhabited

/-- What a step shows outside. -/
inductive Effect where
  | log (record : LogRecord)
  | launched (port : Nat) (hostId : String)
  | terminated (process : Nat)
  | connected (port : Nat)
  | returned (role : Role) (fault : Option Fault)
deriving Repr, Inhabited

end Supervisor

structure Supervisor where
  settings : Settings.Host
  phase : Supervisor.Phase := .idle
  /-- The process in use. -/
  current : Option Nat := none
  /-- All processes launched so far, the oldest first. -/
  processes : List Supervisor.Process := []
  workers : List Supervisor.Worker := []
  bucket : TokenBucket
  tally : Supervisor.Tally := {}
deriving Repr, Inhabited

namespace Supervisor

def new (settings : Settings.Host) : Supervisor :=
  { settings := settings
    bucket := .full settings.restartInterval.toNat settings.restartBurst.toNat }

/-- The command line of a host. -/
def command (settings : Settings.Host) (port process hostId : String) : List String :=
  settings.executable :: (settings.arguments.getD [] ++ [port, process, hostId])

def exitCode? (s : Supervisor) (process : Nat) : Option Int :=
  (s.processes[process]?).bind (·.exitCode)

def hasExited (s : Supervisor) (process : Nat) : Bool :=
  (s.exitCode? process).isSome

def portOf (s : Supervisor) (process : Nat) : Nat :=
  ((s.processes[process]?).map (·.port)).getD 0

/-- A process exits; one that has exited keeps its code. -/
def exit (s : Supervisor) (process : Nat) (code : Int) : Supervisor :=
  { s with processes := s.processes.modify process fun p =>
    { p with exitCode := some (p.exitCode.getD code) } }

/-- A call to start comes in. -/
def start (s : Supervisor) (hostId : String) : Supervisor :=
  { s with workers := s.workers ++ [⟨.starter, hostId, .entry⟩] }

/-- A call to stop comes in. -/
def stop (s : Supervisor) : Supervisor :=
  { s with workers := s.workers ++ [⟨.stopper, "", .halt⟩] }

def Point.isDone : Point → Bool
  | .done => true
  | _ => false

/-- Whether a restarting loop runs. -/
def isKept (s : Supervisor) : Bool :=
  s.workers.any fun w => w.role = .keeper && !w.point.isDone

/-- Whether a worker can take a step: it has not ended and does not wait. -/
def isReady (s : Supervisor) (now : Nat) : Point → Bool
  | .asleep _ _ wake => wake ≤ now
  | .await process => s.hasExited process
  | .pause wake => s.phase = .stopped || wake ≤ now
  | .join _ => !s.isKept
  | .done => false
  | _ => true

def goTo (s : Supervisor) (worker : Nat) (point : Point) : Supervisor :=
  { s with workers := s.workers.modify worker fun w => { w with point := point } }

/-- A worker ends; a call returns to its caller. -/
def leave (s : Supervisor) (worker : Nat) (role : Role) (fault : Option Fault) :
    Supervisor × List Effect :=
  (s.goTo worker .done, if role = .keeper then [] else [.returned role fault])

def markTerminated (s : Supervisor) (process : Nat) : Supervisor :=
  { s with processes := s.processes.modify process fun p => { p with terminated := true } }

def exitField (s : Supervisor) (process : Nat) : String × Json :=
  ("exitCode", .int ((s.exitCode? process).getD (-1)))

def portField (s : Supervisor) (process : Nat) : String × Json :=
  ("port", .nat (s.portOf process))

/-- A worker leaves after a record. -/
def leaveWith (s : Supervisor) (worker : Nat) (role : Role) (record : LogRecord) :
    Supervisor × List Effect :=
  let (s, effects) := s.leave worker role none
  (s, .log record :: effects)

/-- The step of a call to start that begins. -/
def enter (s : Supervisor) (i : Nat) (role : Role) : Supervisor × List Effect :=
  match s.phase with
  | .idle => ({ s with phase := .starting }.goTo i .launch, [])
  | .stopped => s.leave i role none
  | phase => s.leaveWith i role
    (.warn "compilation host already started" [("state", .str phase.text)] none)

/-- The step that launches a process. -/
def launchStep (s : Supervisor) (i : Nat) (w : Worker) (e : Surroundings) :
    Supervisor × List Effect :=
  if s.phase = .stopped then s.leave i w.role none
  else match e.launch with
    | .noPort fault => { s with phase := .idle }.leaveWith i w.role
      (.error "selecting a port for the compilation host" [] (some fault))
    | .noProcess fault => { s with phase := .idle }.leaveWith i w.role
      (.error "starting compilation host"
        [("executable", .str s.settings.executable)] (some fault))
    | .process port =>
      let s' : Supervisor :=
        { s with
          phase := .starting
          processes := s.processes ++ [({ port := port } : Process)]
          current := some s.processes.length
          tally := { s.tally with starts := s.tally.starts + 1 } }
      (s'.goTo i (.greet s.processes.length), [.launched port w.hostId])

/-- The step that takes back a launch whose handshake failed. -/
def giveUpStep (s : Supervisor) (i : Nat) (role : Role) (process : Nat) :
    Supervisor × List Effect :=
  let s' : Supervisor :=
    { s with
      phase := if s.phase = .stopped then .stopped else .idle
      current := if s.current = some process then none else s.current
      tally := { s.tally with handshakeFailures := s.tally.handshakeFailures + 1 } }
  s'.leave i role none

/-- The step of the loop when its process has exited. -/
def wakeStep (s : Supervisor) (i : Nat) (role : Role) (process : Nat) : Supervisor × List Effect :=
  if s.phase = .stopped then s.leave i role none
  else ({ s with phase := .crashed, current := none }.goTo i (.report process), [])

/-- The step that asks for a token to relaunch. -/
def throttleStep (s : Supervisor) (i : Nat) (now : Nat) : Supervisor × List Effect :=
  match s.bucket.take? now with
  | some bucket => ({ s with bucket := bucket }.goTo i .launch, [])
  | none =>
    let tally := { s.tally with throttledRestarts := s.tally.throttledRestarts + 1 }
    ({ s with tally := tally }.goTo i .reserve,
      [.log (.warn "compilation host is crashing repeatedly, delaying restart"
        [("interval", .int s.settings.restartInterval)] none)])

/-- The step of a call to stop that begins. -/
def haltStep (s : Supervisor) (i : Nat) (role : Role) : Supervisor × List Effect :=
  if s.phase = .stopped then s.leave i role none
  else
    let next : Point := match s.current with
      | some process => .terminate process
      | none => .join none
    ({ s with phase := .stopped, current := none }.goTo i next, [])

/-- The record that a process did not let itself be terminated. -/
def terminateFailure (fault : Fault) : LogRecord :=
  .warn "terminating compilation host" [] (some fault)

/-- What a worker that is ready does next. -/
def act (s : Supervisor) (i : Nat) (w : Worker) (e : Surroundings) : Supervisor × List Effect :=
  match w.point with
  | .entry => s.enter i w.role
  | .launch => s.launchStep i w e
  | .greet process =>
    (s.goTo i (.check process (e.now + s.settings.handshakeTimeout.toNat)), [])
  | .check process deadline =>
    if s.hasExited process then
      (s.goTo i (.giveUp process),
        [.log (.error "compilation host exited before accepting connections"
          [s.portField process, s.exitField process] none)])
    else (s.goTo i (.probe process deadline), [])
  | .probe process deadline =>
    (s.goTo i (if e.accepts then .confirm process else .decide process deadline), [])
  | .confirm process =>
    if s.hasExited process then
      (s.goTo i (.giveUp process),
        [.log (.error "compilation host exited during handshake"
          [s.portField process, s.exitField process] none)])
    else (s.goTo i (.settle process), [])
  | .decide process deadline =>
    if deadline ≤ e.now then
      (s.goTo i (.expire process),
        [.log (.error "timed out waiting for compilation host"
          [s.portField process, ("timeout", .int s.settings.handshakeTimeout)] none)])
    else (s.goTo i (.asleep process deadline (e.now + s.settings.pollInterval.toNat)), [])
  | .asleep process deadline _ => (s.goTo i (.check process deadline), [])
  | .expire process =>
    ((s.markTerminated process).goTo i (.giveUp process),
      .terminated process :: (e.terminate.map fun f => Effect.log (terminateFailure f)).toList)
  | .giveUp process => s.giveUpStep i w.role process
  | .settle process =>
    if s.phase = .stopped then s.leave i w.role none
    else ({ s with phase := .connected }.goTo i (.call (s.portOf process)), [])
  | .call port => (s.goTo i (.calling port), [.connected port])
  | .calling _ => (s.goTo i (if w.role = .keeper then .watch else .enlist), [])
  | .enlist =>
    let s' := if s.phase = .connected then
        { s with workers := s.workers ++ [⟨.keeper, w.hostId, .watch⟩] }
      else s
    s'.leave i w.role none
  | .watch =>
    match s.current with
    | some process => (s.goTo i (.await process), [])
    | none => s.leave i w.role none
  | .await process => s.wakeStep i w.role process
  | .report process =>
    let tally := { s.tally with restarts := s.tally.restarts + 1 }
    ({ s with tally := tally }.goTo i .throttle,
      [.log (.warn "compilation host exited unexpectedly, restarting"
        [s.exitField process] none)])
  | .throttle => s.throttleStep i e.now
  | .reserve =>
    if s.phase = .stopped then s.leave i w.role none
    else
      let (bucket, wait) := s.bucket.reserve e.now
      ({ s with bucket := bucket }.goTo i (.pause (e.now + wait)), [])
  | .pause _ =>
    if s.phase = .stopped then s.leave i w.role none else (s.goTo i .launch, [])
  | .halt => s.haltStep i w.role
  | .terminate process =>
    ((s.markTerminated process).goTo i (.join e.terminate), [.terminated process])
  | .join fault => s.leave i w.role fault
  | .done => (s, [])

/-- The step of a worker, if it is ready. -/
def step (s : Supervisor) (i : Nat) (e : Surroundings) : Option (Supervisor × List Effect) :=
  match s.workers[i]? with
  | some w => if s.isReady e.now w.point then some (s.act i w e) else none
  | none => none

/-- The first worker that is ready. -/
def ready? (s : Supervisor) (now : Nat) : Option (Nat × Worker) :=
  (s.workers.zipIdx.find? fun (w, _) => s.isReady now w.point).map fun (w, i) => (i, w)

/-- When a worker that sleeps wants to wake. -/
def Point.wake? : Point → Option Nat
  | .asleep _ _ wake => some wake
  | .pause wake => some wake
  | _ => none

/-- The times at which sleeping workers want to wake. -/
def wakes (s : Supervisor) : List Nat :=
  s.workers.filterMap (·.point.wake?)

end Supervisor

end CompilationBridge
