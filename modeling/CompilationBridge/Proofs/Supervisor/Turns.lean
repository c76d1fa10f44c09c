import CompilationBridge.Proofs.Supervisor.Runs

/-! What a worker of the supervisor does in a step. A turn is where the worker goes from where it stands,
what it changes besides, and what happens to a launch in it. Each step of a worker that is ready is a turn,
with the guards under which the step is taken. -/

namespace CompilationBridge.Supervisor

/-- What happens to a launch. -/
inductive Incident where
  | launched (process port : Nat)
  /-- The process exited during the handshake, or the time for it is over. -/
  | failed (process : Nat)
  /-- The failure is counted. -/
  | gaveUp (process : Nat)
  | connected (process port : Nat)
  /-- The call that tells about a connection begins. -/
  | called (port : Nat)
  | returned (port : Nat)
  /-- The loop takes up the exit of its process. -/
  | crashed (process : Nat)
  /-- The exit is counted. -/
  | reported (process : Nat)
deriving DecidableEq

namespace Incident

/-- The process that is connected, and its port. -/
def connected? : Incident → Option (Nat × Nat)
  | .connected process port => some (process, port)
  | _ => none

def called? : Incident → Option Nat
  | .called port => some port
  | _ => none

def returned? : Incident → Option Nat
  | .returned port => some port
  | _ => none

def failed? : Incident → Option Nat
  | .failed process => some process
  | _ => none

def gaveUp? : Incident → Option Nat
  | .gaveUp process => some process
  | _ => none

def crashed? : Incident → Option Nat
  | .crashed process => some process
  | _ => none

def reported? : Incident → Option Nat
  | .reported process => some process
  | _ => none

end Incident

/-- The port that a call tells about. -/
def Effect.called? : Effect → Option Nat
  | .connected port => some port
  | _ => none

/-- The incidents of the step that a worker takes. -/
def incidents (s : Supervisor) (w : Worker) (e : Surroundings) : List Incident :=
  match w.point with
  | .launch =>
    if s.phase = .stopped then [] else match e.launch with
      | .process port => [.launched s.processes.length port]
      | _ => []
  | .check process _ | .confirm process => if s.hasExited process then [.failed process] else []
  | .decide process deadline => if deadline ≤ e.now then [.failed process] else []
  | .giveUp process => [.gaveUp process]
  | .settle process => if s.phase = .stopped then [] else [.connected process (s.portOf process)]
  | .call port => [.called port]
  | .calling port => [.returned port]
  | .await process => if s.phase = .stopped then [] else [.crashed process]
  | .report process => [.reported process]
  | _ => []

/-- A step of worker `i`: the points before and after it, the supervisor but for the point of the worker,
and the incidents. -/
inductive Turn (s : Supervisor) (i : Nat) (role : Role) (hostId : String) (e : Surroundings) :
    Point → Point → Supervisor → List Incident → Prop
  | enter (idle : s.phase = .idle) : Turn s i role hostId e .entry .launch { s with phase := .starting } []
  | refuse (begun : s.phase ≠ .idle) : Turn s i role hostId e .entry .done s []
  | forgo (stopped : s.phase = .stopped) : Turn s i role hostId e .launch .done s []
  | miscarry (running : s.phase ≠ .stopped) : Turn s i role hostId e .launch .done { s with phase := .idle } []
  | launch (port : Nat) (running : s.phase ≠ .stopped) :
      Turn s i role hostId e .launch (.greet s.processes.length)
        { s with
          phase := .starting
          processes := s.processes ++ [{ port := port }]
          current := some s.processes.length
          tally := { s.tally with starts := s.tally.starts + 1 } }
        [.launched s.processes.length port]
  | greet {k deadline : Nat} : Turn s i role hostId e (.greet k) (.check k deadline) s []
  | miss {k deadline : Nat} (exited : s.hasExited k = true) :
      Turn s i role hostId e (.check k deadline) (.giveUp k) s [.failed k]
  | check {k deadline : Nat} : Turn s i role hostId e (.check k deadline) (.probe k deadline) s []
  | accept {k deadline : Nat} : Turn s i role hostId e (.probe k deadline) (.confirm k) s []
  | reject {k deadline : Nat} : Turn s i role hostId e (.probe k deadline) (.decide k deadline) s []
  | lapse {k : Nat} (exited : s.hasExited k = true) :
      Turn s i role hostId e (.confirm k) (.giveUp k) s [.failed k]
  | confirm {k : Nat} : Turn s i role hostId e (.confirm k) (.settle k) s []
  | tooLate {k deadline : Nat} : Turn s i role hostId e (.decide k deadline) (.expire k) s [.failed k]
  | sleep {k deadline : Nat} (wake : Nat) :
      Turn s i role hostId e (.decide k deadline) (.asleep k deadline wake) s []
  | wake {k deadline wake : Nat} :
      Turn s i role hostId e (.asleep k deadline wake) (.check k deadline) s []
  | expire {k : Nat} : Turn s i role hostId e (.expire k) (.giveUp k) (s.markTerminated k) []
  | giveUp {k : Nat} : Turn s i role hostId e (.giveUp k) .done
      { s with
        phase := if s.phase = .stopped then .stopped else .idle
        current := if s.current = some k then none else s.current
        tally := { s.tally with handshakeFailures := s.tally.handshakeFailures + 1 } }
      [.gaveUp k]
  | drop {k : Nat} (stopped : s.phase = .stopped) : Turn s i role hostId e (.settle k) .done s []
  | settle {k : Nat} (running : s.phase ≠ .stopped) :
      Turn s i role hostId e (.settle k) (.call (s.portOf k)) { s with phase := .connected }
        [.connected k (s.portOf k)]
  | call {port : Nat} : Turn s i role hostId e (.call port) (.calling port) s [.called port]
  | comeBack {port : Nat} (keeper : role = .keeper) :
      Turn s i role hostId e (.calling port) .watch s [.returned port]
  | handOver {port : Nat} (starter : role ≠ .keeper) :
      Turn s i role hostId e (.calling port) .enlist s [.returned port]
  | enlist (connected : s.phase = .connected) : Turn s i role hostId e .enlist .done
      { s with workers := s.workers ++ [⟨.keeper, hostId, .watch⟩] } []
  | dismiss (apart : s.phase ≠ .connected) : Turn s i role hostId e .enlist .done s []
  | attend {k : Nat} (current : s.current = some k) : Turn s i role hostId e .watch (.await k) s []
  | resign (current : s.current = none) : Turn s i role hostId e .watch .done s []
  | retire {k : Nat} (stopped : s.phase = .stopped) : Turn s i role hostId e (.await k) .done s []
  | crash {k : Nat} (running : s.phase ≠ .stopped) : Turn s i role hostId e (.await k) (.report k)
      { s with phase := .crashed, current := none } [.crashed k]
  | report {k : Nat} : Turn s i role hostId e (.report k) .throttle
      { s with tally := { s.tally with restarts := s.tally.restarts + 1 } } [.reported k]
  | allow (bucket : TokenBucket) : Turn s i role hostId e .throttle .launch { s with bucket := bucket } []
  | throttle : Turn s i role hostId e .throttle .reserve
      { s with tally := { s.tally with throttledRestarts := s.tally.throttledRestarts + 1 } } []
  | giveBack (stopped : s.phase = .stopped) : Turn s i role hostId e .reserve .done s []
  | reserve (bucket : TokenBucket) (wake : Nat) :
      Turn s i role hostId e .reserve (.pause wake) { s with bucket := bucket } []
  | breakOff {wake : Nat} (stopped : s.phase = .stopped) : Turn s i role hostId e (.pause wake) .done s []
  | resume {wake : Nat} : Turn s i role hostId e (.pause wake) .launch s []
  | stopAgain (stopped : s.phase = .stopped) : Turn s i role hostId e .halt .done s []
  | seize {k : Nat} (running : s.phase ≠ .stopped) (current : s.current = some k) :
      Turn s i role hostId e .halt (.terminate k) { s with phase := .stopped, current := none } []
  | stop (running : s.phase ≠ .stopped) (current : s.current = none) :
      Turn s i role hostId e .halt (.join none) { s with phase := .stopped, current := none } []
  | terminate {k : Nat} {fault : Option Fault} :
      Turn s i role hostId e (.terminate k) (.join fault) (s.markTerminated k) []
  | join {fault : Option Fault} : Turn s i role hostId e (.join fault) .done s []

variable {s s' : Supervisor} {i : Nat} {w : Worker} {e : Surroundings} {pt : Point} {role : Role}
  {hostId : String} {told : List Incident}

/-- The step of a worker: a turn, and the calls that it shows. -/
structure Acts (s : Supervisor) (i : Nat) (w : Worker) (e : Surroundings) (pt : Point) (s' : Supervisor)
    (told : List Incident) : Prop where
  turn : Turn s i w.role w.hostId e w.point pt s' told
  state : (s.act i w e).1 = s'.goTo i pt
  incidents : s.incidents w e = told
  shown : (s.act i w e).2.filterMap Effect.called? = told.filterMap Incident.called?

/-- A worker that leaves shows no call. -/
theorem called_leave (s : Supervisor) (i : Nat) (role : Role) (fault : Option Fault) :
    (s.leave i role fault).2.filterMap Effect.called? = [] := by
  unfold leave
  split <;> rfl

theorem called_leaveWith (s : Supervisor) (i : Nat) (role : Role) (record : LogRecord) :
    (s.leaveWith i role record).2.filterMap Effect.called? = [] := by
  show (Effect.log record :: (s.leave i role none).2).filterMap Effect.called? = []
  rw [List.filterMap_cons_none rfl, called_leave]

theorem acts_entry : ∃ pt s' told, Acts s i ⟨role, hostId, .entry⟩ e pt s' told := by
  cases hphase : s.phase with
  | idle => exact ⟨_, _, _, .enter hphase, by simp [act, enter, hphase], rfl, by simp [act, enter, hphase]⟩
  | stopped =>
      refine ⟨_, _, _, .refuse (by simp [hphase]), by simp [act, enter, hphase], rfl, ?_⟩
      simpa [act, enter, hphase] using called_leave s i role none
  | _ =>
      refine ⟨_, _, _, .refuse (by simp [hphase]), by simp [act, enter, hphase], rfl, ?_⟩
      simpa [act, enter, hphase] using called_leaveWith s i role _

theorem acts_launch : ∃ pt s' told, Acts s i ⟨role, hostId, .launch⟩ e pt s' told := by
  by_cases hphase : s.phase = .stopped
  · refine ⟨_, _, _, .forgo hphase, by simp [act, launchStep, hphase], by simp [incidents, hphase], ?_⟩
    simpa [act, launchStep, hphase] using called_leave s i role none
  · cases hlaunch : e.launch with
    | process port =>
        exact ⟨_, _, _, .launch port hphase, by simp [act, launchStep, hphase, hlaunch],
          by simp [incidents, hphase, hlaunch],
          by simp [act, launchStep, hphase, hlaunch, List.filterMap_cons, Effect.called?, Incident.called?]⟩
    | _ =>
        refine ⟨_, _, _, .miscarry hphase, by simp [act, launchStep, hphase, hlaunch],
          by simp [incidents, hphase, hlaunch], ?_⟩
        simpa [act, launchStep, hphase, hlaunch] using called_leaveWith _ i role _

theorem acts_check {k deadline : Nat} :
    ∃ pt s' told, Acts s i ⟨role, hostId, .check k deadline⟩ e pt s' told := by
  cases hexited : s.hasExited k with
  | true =>
      exact ⟨_, _, _, .miss hexited, by simp [act, hexited], by simp [incidents, hexited],
        by simp [act, hexited, List.filterMap_cons, Effect.called?, Incident.called?]⟩
  | false =>
      exact ⟨_, _, _, .check, by simp [act, hexited], by simp [incidents, hexited], by simp [act, hexited]⟩

theorem acts_probe {k deadline : Nat} :
    ∃ pt s' told, Acts s i ⟨role, hostId, .probe k deadline⟩ e pt s' told := by
  cases haccepts : e.accepts with
  | true => exact ⟨_, _, _, .accept, by simp [act, haccepts], rfl, rfl⟩
  | false => exact ⟨_, _, _, .reject, by simp [act, haccepts], rfl, rfl⟩

theorem acts_confirm {k : Nat} : ∃ pt s' told, Acts s i ⟨role, hostId, .confirm k⟩ e pt s' told := by
  cases hexited : s.hasExited k with
  | true =>
      exact ⟨_, _, _, .lapse hexited, by simp [act, hexited], by simp [incidents, hexited],
        by simp [act, hexited, List.filterMap_cons, Effect.called?, Incident.called?]⟩
  | false =>
      exact ⟨_, _, _, .confirm, by simp [act, hexited], by simp [incidents, hexited], by simp [act, hexited]⟩

theorem acts_decide {k deadline : Nat} :
    ∃ pt s' told, Acts s i ⟨role, hostId, .decide k deadline⟩ e pt s' told := by
  by_cases hlate : deadline ≤ e.now
  · exact ⟨_, _, _, .tooLate, by simp [act, hlate], by simp [incidents, hlate],
      by simp [act, hlate, List.filterMap_cons, Effect.called?, Incident.called?]⟩
  · exact ⟨_, _, _, .sleep (e.now + s.settings.pollInterval.toNat), by simp [act, hlate],
      by simp [incidents, hlate], by simp [act, hlate]⟩

theorem acts_settle {k : Nat} : ∃ pt s' told, Acts s i ⟨role, hostId, .settle k⟩ e pt s' told := by
  by_cases hphase : s.phase = .stopped
  · refine ⟨_, _, _, .drop hphase, by simp [act, hphase], by simp [incidents, hphase], ?_⟩
    simpa [act, hphase] using called_leave s i role none
  · exact ⟨_, _, _, .settle hphase, by simp [act, hphase], by simp [incidents, hphase],
      by simp [act, hphase, Incident.called?]⟩

theorem acts_calling {port : Nat} : ∃ pt s' told, Acts s i ⟨role, hostId, .calling port⟩ e pt s' told := by
  by_cases hrole : role = .keeper
  · exact ⟨_, _, _, .comeBack hrole, by simp [act, hrole], rfl, rfl⟩
  · exact ⟨_, _, _, .handOver hrole, by simp [act, hrole], rfl, rfl⟩

theorem acts_enlist : ∃ pt s' told, Acts s i ⟨role, hostId, .enlist⟩ e pt s' told := by
  by_cases hphase : s.phase = .connected
  · exact ⟨_, _, _, .enlist hphase, by simp [act, hphase], rfl, called_leave ..⟩
  · exact ⟨_, _, _, .dismiss hphase, by simp [act, hphase], rfl, called_leave ..⟩

theorem acts_watch : ∃ pt s' told, Acts s i ⟨role, hostId, .watch⟩ e pt s' told := by
  cases hcurrent : s.current with
  | none =>
      refine ⟨_, _, _, .resign hcurrent, by simp [act, hcurrent], rfl, ?_⟩
      simpa [act, hcurrent] using called_leave s i role none
  | some k => exact ⟨_, _, _, .attend hcurrent, by simp [act, hcurrent], rfl, by simp [act, hcurrent]⟩

theorem acts_await {k : Nat} : ∃ pt s' told, Acts s i ⟨role, hostId, .await k⟩ e pt s' told := by
  by_cases hphase : s.phase = .stopped
  · refine ⟨_, _, _, .retire hphase, by simp [act, wakeStep, hphase], by simp [incidents, hphase], ?_⟩
    simpa [act, wakeStep, hphase] using called_leave s i role none
  · exact ⟨_, _, _, .crash hphase, by simp [act, wakeStep, hphase], by simp [incidents, hphase],
      by simp [act, wakeStep, hphase, Incident.called?]⟩

theorem acts_throttle : ∃ pt s' told, Acts s i ⟨role, hostId, .throttle⟩ e pt s' told := by
  cases hbucket : s.bucket.take? e.now with
  | some bucket =>
      exact ⟨_, _, _, .allow bucket, by simp [act, throttleStep, hbucket], rfl, by simp [act, throttleStep, hbucket]⟩
  | none =>
      exact ⟨_, _, _, .throttle, by simp [act, throttleStep, hbucket], rfl,
        by simp [act, throttleStep, hbucket, Effect.called?]⟩

theorem acts_reserve : ∃ pt s' told, Acts s i ⟨role, hostId, .reserve⟩ e pt s' told := by
  by_cases hphase : s.phase = .stopped
  · refine ⟨_, _, _, .giveBack hphase, by simp [act, hphase], rfl, ?_⟩
    simpa [act, hphase] using called_leave s i role none
  · exact ⟨_, _, _, .reserve (s.bucket.reserve e.now).1 (e.now + (s.bucket.reserve e.now).2),
      by simp [act, hphase], rfl, by simp [act, hphase]⟩

theorem acts_pause {wake : Nat} : ∃ pt s' told, Acts s i ⟨role, hostId, .pause wake⟩ e pt s' told := by
  by_cases hphase : s.phase = .stopped
  · refine ⟨_, _, _, .breakOff hphase, by simp [act, hphase], rfl, ?_⟩
    simpa [act, hphase] using called_leave s i role none
  · exact ⟨_, _, _, .resume, by simp [act, hphase], rfl, by simp [act, hphase]⟩

theorem acts_halt : ∃ pt s' told, Acts s i ⟨role, hostId, .halt⟩ e pt s' told := by
  by_cases hphase : s.phase = .stopped
  · refine ⟨_, _, _, .stopAgain hphase, by simp [act, haltStep, hphase], rfl, ?_⟩
    simpa [act, haltStep, hphase] using called_leave s i role none
  · cases hcurrent : s.current with
    | none =>
        exact ⟨_, _, _, .stop hphase hcurrent, by simp [act, haltStep, hphase, hcurrent], rfl,
          by simp [act, haltStep, hphase]⟩
    | some k =>
        exact ⟨_, _, _, .seize hphase hcurrent, by simp [act, haltStep, hphase, hcurrent], rfl,
          by simp [act, haltStep, hphase]⟩

/-- **A step of a worker that is ready is a turn**, and the calls it shows are those of its incidents. -/
theorem exists_acts (hready : s.isReady e.now w.point = true) : ∃ pt s' told, Acts s i w e pt s' told := by
  obtain ⟨role, hostId, point⟩ := w
  cases point with
  | entry => exact acts_entry
  | launch => exact acts_launch
  | greet k => exact ⟨_, _, _, .greet, rfl, rfl, rfl⟩
  | check k deadline => exact acts_check
  | probe k deadline => exact acts_probe
  | confirm k => exact acts_confirm
  | decide k deadline => exact acts_decide
  | asleep k deadline wake => exact ⟨_, _, _, .wake, rfl, rfl, rfl⟩
  | expire k =>
      refine ⟨_, _, _, .expire, rfl, rfl, ?_⟩
      cases hfault : e.terminate <;> simp [act, hfault, Effect.called?]
  | giveUp k => exact ⟨_, _, _, .giveUp, rfl, rfl, called_leave ..⟩
  | settle k => exact acts_settle
  | call port => exact ⟨_, _, _, .call, rfl, rfl, rfl⟩
  | calling port => exact acts_calling
  | enlist => exact acts_enlist
  | watch => exact acts_watch
  | await k => exact acts_await
  | report k => exact ⟨_, _, _, .report, rfl, rfl, rfl⟩
  | throttle => exact acts_throttle
  | reserve => exact acts_reserve
  | pause wake => exact acts_pause
  | halt => exact acts_halt
  | terminate k => exact ⟨_, _, _, .terminate, rfl, rfl, rfl⟩
  | join fault => exact ⟨_, _, _, .join, rfl, rfl, called_leave ..⟩
  | done => cases hready

end CompilationBridge.Supervisor
