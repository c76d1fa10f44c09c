import CompilationBridge.Proofs.Restores.Bounds

/-! What a run does in a step. A turn of a run is where it goes from where it stands, what it changes
besides, and its deed: what it tells editors or the host, what it does to its process and what it finds
of it. Each step of a run that is ready is a turn, with the guards under which the step is taken, and the
effects of the step are those of its deeds. What holds of all runs is read off the turns. -/

namespace CompilationBridge.Restores

/-- What a run does. -/
inductive Deed where
  /-- It tells editors that it has started. -/
  | started
  /-- It is cancelled before it has a permit. -/
  | dequeued
  /-- Its tool cannot be started. -/
  | refused
  | launched (process : Nat)
  /-- The watchdog tells its process to terminate. -/
  | killed (process : Nat)
  /-- It is cancelled, and tells its process to terminate. -/
  | cancelled (process : Nat)
  /-- It takes up the exit of its process. -/
  | exited (process : Nat) (code : Int)
  /-- It tells editors how it went. -/
  | finished (succeeded : Bool)
  | counted (succeeded : Bool)
  /-- It tells the host, or fails to. -/
  | posted (reached : Bool)
deriving DecidableEq

/-- The process that is launched. -/
def Deed.launch? : Deed → Option Nat
  | .launched process => some process
  | _ => none

/-- What a deed of a run for a project shows outside. -/
def Deed.shown (project : Graph.ProjectRef) : Deed → List Effect
  | .started => [.emitted (.restoreStarted project.path)]
  | .launched _ => [.launched project]
  | .killed process | .cancelled process => [.terminated process]
  | .finished succeeded => [.emitted (.restoreFinished project.path succeeded)]
  | .posted true => [.sent (.new "RestoreComplete" project.contextId none)]
  | _ => []

def Effect.isLog : Effect → Bool
  | .log _ => true
  | _ => false

/-- The deeds of the step that a run takes. -/
def deeds (r : Restores) (x : Run) (e : Surroundings) : List Deed :=
  match x.point with
  | .entry => [.started]
  | .acquire _ | .queued _ => if r.cancelled then [.dequeued] else []
  | .attempt _ _ => if e.fault.isSome then [.refused] else [.launched r.processes.length]
  | .watch _ _ tool =>
    match r.wake? e.now tool e.choice with
    | some .exited => [.exited tool.process ((r.exitCode? tool.process).getD (-1))]
    | _ => []
  | .kill _ _ tool => [.killed tool.process]
  | .abort _ process => [.cancelled process]
  | .announce code => [.finished (code = 0)]
  | .conclude code => [.counted (code = 0)]
  | .tell => [.posted e.fault.isNone]
  | _ => []

/-- The next look of a watchdog. -/
def Watch.after (r : Restores) (tool : Watch) (now : Nat) : Watch :=
  { tool with nextTick := tickAfter r.settings.watchdogInterval.toNat tool.born now }

/-- A step of run `i` for a project: the points before and after it, the restores but for the point of
the run, and the deeds. -/
inductive Turn (r : Restores) (i : Nat) (project : Graph.ProjectRef) (e : Surroundings) :
    Point → Point → Restores → List Deed → Prop
  | start : Turn r i project e .entry .register
      { r with tally := { r.tally with runs := r.tally.runs + 1 } } [.started]
  | register : Turn r i project e .register (.lock (r.locks.register project.path).2)
      { r with locks := (r.locks.register project.path).1 } []
  | lock {cell : Nat} (free : r.locks.isFree cell = true) :
      Turn r i project e (.lock cell) (.acquire cell) { r with locks := r.locks.lock cell } []
  | turnAway {cell : Nat} (cancelled : r.cancelled = true) :
      Turn r i project e (.acquire cell) (.unlock cell (-1)) r [.dequeued]
  | grant {cell : Nat} (running : r.cancelled = false) (permit : r.permits < r.limit) (first : r.queue = []) :
      Turn r i project e (.acquire cell) (.attempt cell r.settings.retries.toNat)
        { r with permits := r.permits + 1 } []
  | enqueue {cell : Nat} (running : r.cancelled = false) :
      Turn r i project e (.acquire cell) (.queued cell) { r with queue := r.queue ++ [i] } []
  | dequeue {cell : Nat} (cancelled : r.cancelled = true) :
      Turn r i project e (.queued cell) (.unlock cell (-1)) { r with queue := r.queue.erase i } [.dequeued]
  | next {cell : Nat} (running : r.cancelled = false) (first : r.isFirst i = true) :
      Turn r i project e (.queued cell) (.attempt cell r.settings.retries.toNat)
        { r with queue := r.queue.erase i, permits := r.permits + 1 } []
  | refuse {cell retries : Nat} :
      Turn r i project e (.attempt cell retries) (.release cell (-1)) r [.refused]
  | launch {cell retries : Nat} :
      Turn r i project e (.attempt cell retries)
        (.watch cell retries
          ⟨r.processes.length, e.now, e.now + r.settings.watchdogInterval.toNat, false⟩)
        { r with processes := r.processes ++ [{ path := project.path, lastOutput := e.now }] }
        [.launched r.processes.length]
  | again {cell retries : Nat} {tool : Watch} {code : Int} (exited : r.exitCode? tool.process = some code)
      (killed : tool.killed = true) :
      Turn r i project e (.watch cell (retries + 1) tool) (.attempt cell retries) r
        [.exited tool.process code]
  | settle {cell retries : Nat} {tool : Watch} {code : Int} (exited : r.exitCode? tool.process = some code)
      (last : tool.killed = true → retries = 0) :
      Turn r i project e (.watch cell retries tool) (.release cell code) r [.exited tool.process code]
  | cancel {cell retries : Nat} {tool : Watch} (cancelled : r.cancelled = true)
      (unseen : e.choice = .exited → r.hasExited tool.process = false) :
      Turn r i project e (.watch cell retries tool) (.abort cell tool.process) r []
  | look {cell retries : Nat} {tool : Watch} (due : tool.nextTick ≤ e.now)
      (unseen : e.choice = .exited → r.hasExited tool.process = false)
      (spared : tool.killed = true ∨ (e.now - r.lastOutput tool.process : Nat) ≤ r.settings.timeout) :
      Turn r i project e (.watch cell retries tool) (.watch cell retries (tool.after r e.now)) r []
  | strike {cell retries : Nat} {tool : Watch} (due : tool.nextTick ≤ e.now)
      (unkilled : tool.killed = false)
      (silent : r.settings.timeout < (e.now - r.lastOutput tool.process : Nat)) :
      Turn r i project e (.watch cell retries tool)
        (.kill cell retries { tool.after r e.now with killed := true })
        { r with tally := { r.tally with watchdogKills := r.tally.watchdogKills + 1 } } []
  | kill {cell retries : Nat} {tool : Watch} :
      Turn r i project e (.kill cell retries tool) (.watch cell retries tool)
        (r.markTerminated tool.process) [.killed tool.process]
  | abort {cell process : Nat} :
      Turn r i project e (.abort cell process) (.reap cell process) (r.markTerminated process)
        [.cancelled process]
  | reap {cell process : Nat} (exited : r.hasExited process = true) :
      Turn r i project e (.reap cell process) (.release cell (-1)) r []
  | release {cell : Nat} {code : Int} :
      Turn r i project e (.release cell code) (.unlock cell code) { r with permits := r.permits - 1 } []
  | unlock {cell : Nat} {code : Int} :
      Turn r i project e (.unlock cell code) (.unregister cell code)
        { r with locks := r.locks.unlock cell } []
  | unregister {cell : Nat} {code : Int} :
      Turn r i project e (.unregister cell code) (.announce code)
        { r with locks := r.locks.unregister project.path cell } []
  | announce {code : Int} :
      Turn r i project e (.announce code) (.conclude code) r [.finished (code = 0)]
  | succeed : Turn r i project e (.conclude 0) .tell
      { r with tally := { r.tally with success := r.tally.success + 1 } } [.counted true]
  | fail {code : Int} (failed : code ≠ 0) : Turn r i project e (.conclude code) .done
      { r with tally := { r.tally with failed := r.tally.failed + 1 } } [.counted false]
  | tell : Turn r i project e .tell .done r [.posted e.fault.isNone]

variable {r r' : Restores} {i : Nat} {x : Run} {e : Surroundings} {pt : Point} {ds : List Deed}

/-- A failure of what a step asks for shows only in a record. -/
theorem filter_logged {effect : Effect} (heffect : effect.isLog = false) (record : Fault → LogRecord)
    (fault : Option Fault) : (effect :: logged record fault).filter (!·.isLog) = [effect] := by
  cases fault with
  | none => simp [logged, heffect]
  | some fault =>
      have hrecord : (Effect.log (record fault)).isLog = true := rfl
      simp [logged, heffect, hrecord]

/-- What a run takes up while its tool runs has happened, and the exit comes first if it is chosen. -/
theorem wake?_spec {now : Nat} {tool : Watch} {choice wake : Wake} (h : r.wake? now tool choice = some wake) :
    r.hasHappened now tool wake = true ∧
      (wake ≠ .exited → choice = .exited → r.hasExited tool.process = false) := by
  refine ⟨List.find?_some h, fun hne hchoice => ?_⟩
  subst hchoice
  by_contra hexited
  rw [Bool.not_eq_false] at hexited
  simp only [wake?, List.find?_cons, hasHappened, hexited, Option.some.injEq] at h
  exact hne h.symm

/-- The step of a run: a turn, and its effects. -/
structure Acts (r : Restores) (i : Nat) (x : Run) (e : Surroundings) (pt : Point) (r' : Restores)
    (ds : List Deed) : Prop where
  turn : Turn r i x.project e x.point pt r' ds
  state : (r.act i x e).1 = r'.goTo i pt
  deeds : r.deeds x e = ds
  effects : (r.act i x e).2.filter (!·.isLog) = ds.flatMap (Deed.shown x.project)

theorem acts_acquire {project : Graph.ProjectRef} {cell : Nat} :
    ∃ pt r' ds, Acts r i ⟨project, .acquire cell⟩ e pt r' ds := by
  cases hcancelled : r.cancelled with
  | true =>
      exact ⟨_, _, _, .turnAway hcancelled, by simp [act, acquireStep, hcancelled],
        by simp [deeds, hcancelled], rfl⟩
  | false =>
      by_cases hfree : r.permits < r.limit ∧ r.queue = []
      · exact ⟨_, _, _, .grant hcancelled hfree.1 hfree.2, by simp [act, acquireStep, hcancelled, hfree],
          by simp [deeds, hcancelled], rfl⟩
      · refine ⟨_, _, _, .enqueue hcancelled, ?_, by simp [deeds, hcancelled], rfl⟩
        simp only [act, acquireStep, hcancelled, Bool.false_eq_true, if_false]
        rw [if_neg]
        simpa [List.isEmpty_iff] using hfree

theorem acts_queued {project : Graph.ProjectRef} {cell : Nat}
    (hready : (r.cancelled || r.isFirst i) = true) :
    ∃ pt r' ds, Acts r i ⟨project, .queued cell⟩ e pt r' ds := by
  cases hcancelled : r.cancelled with
  | true =>
      exact ⟨_, _, _, .dequeue hcancelled, by simp [act, queuedStep, hcancelled],
        by simp [deeds, hcancelled], rfl⟩
  | false =>
      exact ⟨_, _, _, .next hcancelled (by simpa [hcancelled] using hready),
        by simp [act, queuedStep, hcancelled], by simp [deeds, hcancelled], rfl⟩

theorem acts_attempt {project : Graph.ProjectRef} {cell retries : Nat} :
    ∃ pt r' ds, Acts r i ⟨project, .attempt cell retries⟩ e pt r' ds := by
  cases hfault : e.fault with
  | some fault =>
      exact ⟨_, _, _, .refuse, by simp [act, attemptStep, hfault], by simp [deeds, hfault],
        by simp [act, attemptStep, hfault, Effect.isLog, Deed.shown]⟩
  | none =>
      exact ⟨_, _, _, .launch, by simp [act, attemptStep, hfault], by simp [deeds, hfault],
        by simp [act, attemptStep, hfault, Effect.isLog, Deed.shown]⟩

theorem acts_exited {project : Graph.ProjectRef} {cell retries : Nat} {tool : Watch}
    (hwake : r.wake? e.now tool e.choice = some .exited) :
    ∃ pt r' ds, Acts r i ⟨project, .watch cell retries tool⟩ e pt r' ds := by
  have hexited : r.hasExited tool.process = true := (wake?_spec hwake).1
  obtain ⟨code, hcode⟩ := Option.isSome_iff_exists.1 hexited
  have hdeeds : r.deeds ⟨project, .watch cell retries tool⟩ e = [.exited tool.process code] := by
    simp [deeds, hwake, hcode]
  have heffects : (r.act i ⟨project, .watch cell retries tool⟩ e).2.filter (!·.isLog) =
      [Deed.exited tool.process code].flatMap (Deed.shown project) := by
    simp [act, watchStep, hwake, Deed.shown]
  by_cases hagain : tool.killed = true ∧ 0 < retries
  · obtain ⟨n, rfl⟩ : ∃ n, retries = n + 1 := ⟨retries - 1, by omega⟩
    exact ⟨_, _, _, .again hcode hagain.1, by simp [act, watchStep, hwake, afterExit, hagain.1], hdeeds,
      heffects⟩
  · refine ⟨_, _, _, .settle hcode fun hkilled => ?_, ?_, hdeeds, heffects⟩
    · exact Nat.eq_zero_of_not_pos fun hpos => hagain ⟨hkilled, hpos⟩
    · simp only [act, watchStep, hwake, afterExit, hcode, Option.getD_some]
      rw [if_neg (by simpa using hagain)]

theorem acts_tick {project : Graph.ProjectRef} {cell retries : Nat} {tool : Watch}
    (hwake : r.wake? e.now tool e.choice = some .tick) :
    ∃ pt r' ds, Acts r i ⟨project, .watch cell retries tool⟩ e pt r' ds := by
  obtain ⟨hdue, hunseen⟩ := wake?_spec hwake
  have hdue : tool.nextTick ≤ e.now := of_decide_eq_true hdue
  have hdeeds : r.deeds ⟨project, .watch cell retries tool⟩ e = [] := by simp [deeds, hwake]
  by_cases hspared : tool.killed = true ∨
      (e.now - r.lastOutput tool.process : Nat) ≤ r.settings.timeout
  · have hif : (tool.killed || decide (((e.now - r.lastOutput tool.process : Nat) : Int) ≤
        r.settings.timeout)) = true := by simpa using hspared
    exact ⟨_, _, _, .look hdue (hunseen (by simp)) hspared,
      by simp [act, watchStep, hwake, tickStep, hif, Watch.after], hdeeds,
      by simp [act, watchStep, hwake, tickStep, hif]⟩
  · have hif : (tool.killed || decide (((e.now - r.lastOutput tool.process : Nat) : Int) ≤
        r.settings.timeout)) = false := by simpa using hspared
    obtain ⟨hkilled, hsilent⟩ := not_or.1 hspared
    exact ⟨_, _, _, .strike hdue (Bool.not_eq_true _ ▸ hkilled) (Int.not_le.1 hsilent),
      by simp [act, watchStep, hwake, tickStep, hif, Watch.after], hdeeds,
      by simp [act, watchStep, hwake, tickStep, hif, Effect.isLog]⟩

theorem acts_watch {project : Graph.ProjectRef} {cell retries : Nat} {tool : Watch}
    (hready : (r.wake? e.now tool .exited).isSome = true) :
    ∃ pt r' ds, Acts r i ⟨project, .watch cell retries tool⟩ e pt r' ds := by
  have hsome : (r.wake? e.now tool e.choice).isSome = true := by
    simp only [wake?, List.find?_isSome] at hready ⊢
    obtain ⟨wake, hmem, hwake⟩ := hready
    exact ⟨wake, by cases wake <;> simp, hwake⟩
  obtain ⟨wake, hwake⟩ := Option.isSome_iff_exists.1 hsome
  cases wake with
  | exited => exact acts_exited hwake
  | cancelled =>
      obtain ⟨hcancelled, hunseen⟩ := wake?_spec hwake
      exact ⟨_, _, _, .cancel hcancelled (hunseen (by simp)), by simp [act, watchStep, hwake],
        by simp [deeds, hwake], by simp [act, watchStep, hwake]⟩
  | tick => exact acts_tick hwake

theorem acts_conclude {project : Graph.ProjectRef} {code : Int} :
    ∃ pt r' ds, Acts r i ⟨project, .conclude code⟩ e pt r' ds := by
  by_cases hcode : code = 0
  · subst hcode
    exact ⟨_, _, _, .succeed, rfl, rfl, rfl⟩
  · exact ⟨_, _, _, .fail hcode, by simp [act, concludeStep, hcode], by simp [deeds, hcode],
      by simp [act, concludeStep, hcode, Effect.isLog, Deed.shown]⟩

/-- **A step of a run that is ready is a turn**, and its effects but for records are those of its deeds. -/
theorem exists_acts (hready : r.isReady e.now i x.point = true) : ∃ pt r' ds, Acts r i x e pt r' ds := by
  obtain ⟨project, point⟩ := x
  cases point with
  | entry => exact ⟨_, _, _, .start, rfl, rfl, filter_logged rfl ..⟩
  | register => exact ⟨_, _, _, .register, rfl, rfl, rfl⟩
  | lock cell => exact ⟨_, _, _, .lock hready, rfl, rfl, rfl⟩
  | acquire cell => exact acts_acquire
  | queued cell => exact acts_queued hready
  | attempt cell retries => exact acts_attempt
  | watch cell retries tool => exact acts_watch hready
  | kill cell retries tool => exact ⟨_, _, _, .kill, rfl, rfl, filter_logged rfl ..⟩
  | abort cell process => exact ⟨_, _, _, .abort, rfl, rfl, filter_logged rfl ..⟩
  | reap cell process => exact ⟨_, _, _, .reap hready, rfl, rfl, rfl⟩
  | release cell code => exact ⟨_, _, _, .release, rfl, rfl, rfl⟩
  | unlock cell code => exact ⟨_, _, _, .unlock, rfl, rfl, rfl⟩
  | unregister cell code => exact ⟨_, _, _, .unregister, rfl, rfl, rfl⟩
  | announce code => exact ⟨_, _, _, .announce, rfl, rfl, filter_logged rfl ..⟩
  | conclude code => exact acts_conclude
  | tell =>
      refine ⟨_, _, _, .tell, rfl, rfl, ?_⟩
      cases hfault : e.fault <;> simp [act, hfault, Effect.isLog, Deed.shown, completion]
  | done => cases hready

theorem step_eq_some {stepped : Restores × List Effect} (h : r.step i e = some stepped) :
    ∃ x, r.runs[i]? = some x ∧ r.isReady e.now i x.point = true ∧ stepped = r.act i x e := by
  unfold step at h
  split at h
  · split at h
    · exact ⟨_, ‹_›, ‹_›, (Option.some_inj.1 h).symm⟩
    · cases h
  · cases h

/-- A turn leaves the list of runs and the settings alone. -/
theorem Turn.frame {project : Graph.ProjectRef} {pt pt' : Point} (h : Turn r i project e pt pt' r' ds) :
    r'.runs = r.runs ∧ r'.settings = r.settings ∧ r'.limit = r.limit ∧ r'.cancelled = r.cancelled := by
  cases h <;> exact ⟨rfl, rfl, rfl, rfl⟩

end CompilationBridge.Restores
