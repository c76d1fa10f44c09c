import CompilationBridge.Proofs.Restores.Stories

/-! Restores on their course. Calls come in, processes print and exit, runs take their steps and calls of
stop come in and return, in any order; a course keeps what happened. The story of each run that was
accepted is told as it should be, the counters count what the stories tell, and stop returns when all is
over. -/

namespace CompilationBridge.Restores

open CompilationBridge.Graph (ProjectRef)

/-- What can happen to restores. -/
inductive Move where
  | run (project : ProjectRef)
  | exit (process : Nat) (code : Int)
  | output (process now : Nat)
  /-- A run takes a step, if it is ready. -/
  | work (run : Nat) (answers : Surroundings)
  | stop
  /-- A call of stop returns, if all runs have ended. -/
  | stopReturns

/-- Restores with what has happened to them. -/
structure Course where
  restores : Restores
  /-- The projects of the calls that were accepted. -/
  accepted : List ProjectRef := []
  /-- What runs have done and shown, each with the place of the run. -/
  log : List (Nat × Deed) := []
  shown : List (Nat × Effect) := []
  /-- Calls of stop that wait. -/
  stopping : Nat := 0
  /-- Calls of stop that have returned. -/
  returned : Nat := 0

/-- What a log has of one run. -/
def ofRun {α : Type} (i : Nat) (log : List (Nat × α)) : List α :=
  log.filterMap fun entry => if entry.1 = i then some entry.2 else none

@[simp] theorem ofRun_append {α : Type} (i : Nat) (log log' : List (Nat × α)) :
    ofRun i (log ++ log') = ofRun i log ++ ofRun i log' :=
  List.filterMap_append

@[simp] theorem ofRun_self {α : Type} (i : Nat) (l : List α) : ofRun i (l.map (i, ·)) = l := by
  simp [ofRun, List.filterMap_map]

@[simp] theorem ofRun_of_ne {α : Type} {i j : Nat} (h : i ≠ j) (l : List α) :
    ofRun j (l.map (i, ·)) = [] := by
  simp [ofRun, h]

namespace Course

def story (c : Course) (i : Nat) : List Deed := ofRun i c.log

def shownBy (c : Course) (i : Nat) : List Effect := ofRun i c.shown

/-- The step of a run is logged. -/
def work (c : Course) (i : Nat) (e : Surroundings) : Course :=
  match c.restores.runs[i]?, c.restores.step i e with
  | some x, some (restores, effects) =>
    { c with
      restores := restores
      log := c.log ++ (c.restores.deeds x e).map (i, ·)
      shown := c.shown ++ effects.map (i, ·) }
  | _, _ => c

def take (c : Course) : Move → Course
  | .run project =>
    { c with
      restores := c.restores.run project
      accepted :=
        if c.restores.settings.enabled && !c.restores.cancelled then c.accepted ++ [project]
        else c.accepted }
  | .exit process code => { c with restores := c.restores.exit process code }
  | .output process now => { c with restores := c.restores.output process now }
  | .work i e => c.work i e
  | .stop => { c with restores := c.restores.cancel, stopping := c.stopping + 1 }
  | .stopReturns =>
    if 0 < c.stopping ∧ c.restores.isQuiet = true then
      { c with stopping := c.stopping - 1, returned := c.returned + 1 }
    else c

def run (c : Course) (moves : List Move) : Course :=
  moves.foldl take c

def start (settings : Settings.Restore) (processors : Nat) : Course :=
  { restores := .new settings processors }

end Course

variable {c c' : Course} {r r' : Restores} {i k n : Nat} {x : Run} {e : Surroundings} {pt pt' : Point}
  {ds : List Deed} {settings : Settings.Restore}

namespace Course

/-- A run that steps is there and ready; its step is a turn, and what it does is logged. -/
theorem work_cases (c : Course) (i : Nat) (e : Surroundings) :
    c.work i e = c ∨ ∃ x pt r' ds, c.restores.runs[i]? = some x ∧
      c.restores.isReady e.now i x.point = true ∧ Acts c.restores i x e pt r' ds ∧
      c.work i e = { c with
        restores := r'.goTo i pt
        log := c.log ++ ds.map (i, ·)
        shown := c.shown ++ (c.restores.act i x e).2.map (i, ·) } := by
  unfold work
  cases hx : c.restores.runs[i]? with
  | none => exact Or.inl rfl
  | some x =>
      cases hstep : c.restores.step i e with
      | none => exact Or.inl rfl
      | some stepped =>
          obtain ⟨y, hy, hready, rfl⟩ := step_eq_some hstep
          obtain rfl : x = y := Option.some_inj.1 (hx.symm.trans hy)
          obtain ⟨pt, r', ds, hacts⟩ := exists_acts (i := i) hready
          refine Or.inr ⟨x, pt, r', ds, rfl, hready, hacts, ?_⟩
          simp only [← hacts.state, ← hacts.deeds]

end Course

/-! ### The stories of a course -/

/-- Exit codes stay. -/
theorem exitCode?_modify {process : Nat} {f : Process → Process} {code : Int}
    (hf : ∀ p, p.exitCode = some code → (f p).exitCode = some code)
    (h : r.exitCode? k = some code) :
    ({ r with processes := r.processes.modify process f } : Restores).exitCode? k = some code := by
  obtain ⟨p, hp, hcode⟩ := Option.bind_eq_some_iff.1 h
  rw [exitCode?, List.getElem?_modify, hp]
  show (if process = k then f p else p).exitCode = some code
  split
  · exact hf p hcode
  · exact hcode

theorem Turn.exitCode? {project : ProjectRef} {code : Int} (h : Turn r i project e pt pt' r' ds)
    (hk : r.exitCode? k = some code) : r'.exitCode? k = some code := by
  cases h with
  | launch =>
      obtain ⟨p, hp, hcode⟩ := Option.bind_eq_some_iff.1 hk
      have hlt := (List.getElem?_eq_some_iff.1 hp).1
      simp [Restores.exitCode?, List.getElem?_append_left hlt, hp, hcode]
  | kill => exact exitCode?_modify (fun p hp => hp) hk
  | abort => exact exitCode?_modify (fun p hp => hp) hk
  | _ => exact hk

/-- A run takes up an exit that has happened. -/
theorem Turn.exited {project : ProjectRef} {code : Int} (h : Turn r i project e pt pt' r' ds)
    (hmem : .exited k code ∈ ds) : r.exitCode? k = some code := by
  cases h with
  | again exited killed =>
      obtain ⟨rfl, rfl⟩ := Deed.exited.inj (List.mem_singleton.1 hmem)
      exact exited
  | settle exited last =>
      obtain ⟨rfl, rfl⟩ := Deed.exited.inj (List.mem_singleton.1 hmem)
      exact exited
  | _ => simp at hmem

/-- Processes are launched one after the other. -/
theorem Turn.launches {project : ProjectRef} (h : Turn r i project e pt pt' r' ds) :
    List.range r'.processes.length =
      List.range r.processes.length ++ ds.filterMap Deed.launch? := by
  cases h with
  | launch =>
      rw [List.length_append, List.length_singleton, List.range_succ]
      rfl
  | kill => simp [markTerminated, Deed.launch?]
  | abort => simp [markTerminated, Deed.launch?]
  | _ => simp [Deed.launch?]

/-- Each run that was accepted stands where its story says, and has shown what its deeds show. -/
structure Told (settings : Settings.Restore) (c : Course) : Prop where
  settings : c.restores.settings = settings
  accepted : c.restores.runs.map (·.project) = c.accepted
  stands : ∀ i x, c.restores.runs[i]? = some x → Stands c.restores.settings.retries.toNat (c.story i) x.point
  shown : ∀ i x, c.restores.runs[i]? = some x →
    (c.shownBy i).filter (!·.isLog) = (c.story i).flatMap (Deed.shown x.project)
  later : ∀ i, c.restores.runs.length ≤ i → c.story i = [] ∧ c.shownBy i = []
  exited : ∀ i k code, .exited k code ∈ c.story i → c.restores.exitCode? k = some code
  launched : (c.log.map (·.2)).filterMap Deed.launch? = List.range c.restores.processes.length

theorem Told.start (settings : Settings.Restore) (processors : Nat) :
    Told settings (Course.start settings processors) where
  settings := rfl
  accepted := rfl
  stands := by simp [Course.start, Restores.new]
  shown := by simp [Course.start, Restores.new]
  later i _ := ⟨rfl, rfl⟩
  exited := by simp [Course.start, Course.story, ofRun]
  launched := rfl

/-- A run is there already or has just been added. -/
theorem getElem?_runs_run {project : ProjectRef} (h : (r.run project).runs[i]? = some x) :
    r.runs[i]? = some x ∨ i = r.runs.length ∧ x = { project := project } := by
  unfold Restores.run at h
  split at h
  · rw [List.getElem?_append] at h
    split at h
    · exact Or.inl h
    · obtain ⟨hi, hx⟩ := List.getElem?_eq_some_iff.1 h
      exact Or.inr ⟨by simp at hi; omega, by simpa using hx.symm⟩
  · exact Or.inl h

theorem run_frame (r : Restores) (project : ProjectRef) :
    (r.run project).settings = r.settings ∧ (r.run project).processes = r.processes ∧
      r.runs.length ≤ (r.run project).runs.length := by
  unfold Restores.run
  split
  · exact ⟨rfl, rfl, by simp⟩
  · exact ⟨rfl, rfl, Nat.le_refl _⟩

theorem Told.run (h : Told settings c) (project : ProjectRef) : Told settings (c.take (.run project)) := by
  obtain ⟨hsettings, hprocesses, hlength⟩ := run_frame c.restores project
  -- a run that was just added has no story yet
  have hnew := h.later c.restores.runs.length (Nat.le_refl _)
  refine ⟨hsettings.trans h.settings, ?_, ?_, ?_, ?_, ?_, ?_⟩
  · simp only [Course.take, Restores.run]
    split
    · simp [h.accepted]
    · exact h.accepted
  · intro i x hx
    rcases getElem?_runs_run hx with hx | ⟨rfl, rfl⟩
    · show Stands (c.restores.run project).settings.retries.toNat _ _
      rw [hsettings]
      exact h.stands i x hx
    · exact hnew.1
  · intro i x hx
    rcases getElem?_runs_run hx with hx | ⟨rfl, rfl⟩
    · exact h.shown i x hx
    · show (c.shownBy _).filter _ = (c.story _).flatMap _
      rw [hnew.1, hnew.2]
      rfl
  · exact fun i hi => h.later i (Nat.le_trans hlength hi)
  · intro i k code hmem
    have hexit := h.exited i k code hmem
    rwa [Course.take, exitCode?, hprocesses]
  · rw [Course.take, hprocesses]
    exact h.launched

theorem Told.modify {process : Nat} {f : Process → Process}
    (hf : ∀ p code, p.exitCode = some code → (f p).exitCode = some code) (h : Told settings c) :
    Told settings { c with
      restores := { c.restores with processes := c.restores.processes.modify process f } } where
  settings := h.settings
  accepted := h.accepted
  stands := h.stands
  shown := h.shown
  later := h.later
  exited i k code hmem := exitCode?_modify (fun p => hf p code) (h.exited i k code hmem)
  launched := by
    rw [List.length_modify]
    exact h.launched

theorem Told.work (h : Told settings c) (i : Nat) (e : Surroundings) : Told settings (c.work i e) := by
  rcases c.work_cases i e with heq | ⟨x, pt, r', ds, hx, -, hacts, heq⟩ <;> rw [heq]
  · exact h
  obtain ⟨hruns, hsettings, -, -⟩ := hacts.turn.frame
  have hget := hacts.turn.getElem?_runs hx
  have hself {α : Type} (log : List (Nat × α)) (l : List α) :
      ofRun i (log ++ l.map (i, ·)) = ofRun i log ++ l := by
    rw [ofRun_append, ofRun_self]
  have hother {α : Type} {j : Nat} (hij : i ≠ j) (log : List (Nat × α)) (l : List α) :
      ofRun j (log ++ l.map (i, ·)) = ofRun j log := by
    rw [ofRun_append, ofRun_of_ne hij, List.append_nil]
  constructor
  · exact hsettings.trans h.settings
  · rw [← h.accepted]
    refine List.ext_getElem? fun j => ?_
    rw [List.getElem?_map, List.getElem?_map, hget]
    split
    · rename_i hij
      rw [← hij, hx]
      rfl
    · rfl
  · intro j y hy
    show Stands r'.settings.retries.toNat (ofRun j _) y.point
    rw [hsettings]
    rw [hget] at hy
    split at hy
    · rename_i hij
      obtain rfl := hij
      obtain rfl := Option.some_inj.1 hy
      rw [hself]
      exact hacts.turn.stands (h.stands i x hx)
    · rename_i hij
      rw [hother hij]
      exact h.stands j y hy
  · intro j y hy
    show (ofRun j _).filter _ = (ofRun j _).flatMap _
    rw [hget] at hy
    split at hy
    · rename_i hij
      obtain rfl := hij
      obtain rfl := Option.some_inj.1 hy
      rw [hself, hself, List.filter_append, List.flatMap_append, hacts.effects]
      exact congrArg (· ++ _) (h.shown i x hx)
    · rename_i hij
      rw [hother hij, hother hij]
      exact h.shown j y hy
  · intro j hj
    have hj' : c.restores.runs.length ≤ j := by
      simpa [goTo, hruns] using hj
    have hij : i ≠ j := by
      have := (List.getElem?_eq_some_iff.1 hx).1
      omega
    show ofRun j _ = [] ∧ ofRun j _ = []
    rw [hother hij, hother hij]
    exact h.later j hj'
  · intro j k code hmem
    have hmem : Deed.exited k code ∈ ofRun j _ := hmem
    refine hacts.turn.exitCode? ?_
    by_cases hij : i = j
    · rw [← hij, hself] at hmem
      exact (List.mem_append.1 hmem).elim (h.exited i k code) hacts.turn.exited
    · rw [hother hij] at hmem
      exact h.exited j k code hmem
  · show _ = List.range r'.processes.length
    rw [hacts.turn.launches, ← h.launched]
    simp [List.filterMap_append]

theorem Told.take (h : Told settings c) (m : Move) : Told settings (c.take m) := by
  cases m with
  | run project => exact h.run project
  | exit process code => exact h.modify fun p code hp => by simp [hp]
  | output process now => exact h.modify fun p code hp => hp
  | work i e => exact h.work i e
  | stop => exact { h with }
  | stopReturns =>
      unfold Course.take
      dsimp only
      split
      · exact { h with }
      · exact h

/-! ### The counters of a course -/

/-- The counters count what the log tells. -/
structure Counted (c : Course) : Prop where
  runs : c.restores.tally.runs = (c.log.map (·.2)).count .started
  success : c.restores.tally.success = (c.log.map (·.2)).count (.counted true)
  failed : c.restores.tally.failed = (c.log.map (·.2)).count (.counted false)
  total : c.restores.tally.runs = c.restores.tally.success + c.restores.tally.failed +
    c.restores.runs.countP (·.point.isOpen)

theorem Turn.counts {project : ProjectRef} (h : Turn r i project e pt pt' r' ds) :
    r'.tally.runs = r.tally.runs + ds.count .started ∧
    r'.tally.success = r.tally.success + ds.count (.counted true) ∧
    r'.tally.failed = r.tally.failed + ds.count (.counted false) ∧
    ds.count .started + (if pt.isOpen = true then 1 else 0) =
      ds.count (.counted true) + ds.count (.counted false) + if pt'.isOpen = true then 1 else 0 := by
  cases h <;> simp [Point.isOpen, markTerminated]

theorem Counted.work (h : Counted c) (i : Nat) (e : Surroundings) : Counted (c.work i e) := by
  rcases c.work_cases i e with heq | ⟨x, pt, r', ds, hx, -, hacts, heq⟩ <;> rw [heq]
  · exact h
  obtain ⟨hruns, hsuccess, hfailed, hopen⟩ := hacts.turn.counts
  have hlog : (c.log ++ ds.map (i, ·)).map (·.2) = c.log.map (·.2) ++ ds := by simp
  have hset := countP_set_add (fun x => x.point.isOpen) hx { x with point := pt }
  have hframe := hacts.turn.frame.1
  have htotal := h.total
  refine ⟨?_, ?_, ?_, ?_⟩
  · show r'.tally.runs = _
    rw [hruns, hlog, List.count_append, h.runs]
  · show r'.tally.success = _
    rw [hsuccess, hlog, List.count_append, h.success]
  · show r'.tally.failed = _
    rw [hfailed, hlog, List.count_append, h.failed]
  · show r'.tally.runs = r'.tally.success + r'.tally.failed + (r'.goTo i pt).runs.countP _
    rw [runs_goTo (hframe ▸ hx), hframe]
    dsimp only at hset
    omega

theorem Counted.run (h : Counted c) (project : ProjectRef) : Counted (c.take (.run project)) := by
  unfold Course.take Restores.run
  dsimp only
  split
  · refine ⟨h.runs, h.success, h.failed, ?_⟩
    rw [List.countP_append]
    exact h.total
  · exact { h with }

theorem Counted.take (h : Counted c) (m : Move) : Counted (c.take m) := by
  cases m with
  | run project => exact h.run project
  | work i e => exact h.work i e
  | exit | output | stop => exact { h with }
  | stopReturns =>
      unfold Course.take
      dsimp only
      split
      · exact { h with }
      · exact h

/-- As many elements are of a kind as places. -/
theorem countP_range_eq {α : Type} {l : List α} {p : α → Bool} {q : Nat → Bool}
    (h : ∀ i x, l[i]? = some x → q i = p x) : (List.range l.length).countP q = l.countP p := by
  induction l generalizing q with
  | nil => rfl
  | cons a l ih =>
      have htail := ih (q := q ∘ Nat.succ) fun i x hx => h (i + 1) x (by simpa using hx)
      rw [List.length_cons, List.range_succ_eq_map, List.countP_cons, List.countP_cons, List.countP_map,
        htail, h 0 a rfl]

/-! ### The end of a course -/

/-- Stopping cancels the runs, and returns when they have ended. -/
structure Halting (c : Course) : Prop where
  cancelled : 0 < c.stopping ∨ 0 < c.returned → c.restores.cancelled = true
  quiet : 0 < c.returned → c.restores.isQuiet = true

theorem Halting.take (h : Halting c) (m : Move) : Halting (c.take m) := by
  cases m with
  | run project =>
      refine ⟨fun hstop => ?_, fun hreturned => ?_⟩
      · have := h.cancelled hstop
        simp [Course.take, Restores.run, this]
      · have := h.cancelled (Or.inr hreturned)
        simpa [Course.take, Restores.run, this] using h.quiet hreturned
  | exit | output => exact { h with }
  | work i e =>
      show Halting (c.work i e)
      rcases c.work_cases i e with heq | ⟨x, pt, r', ds, hx, hready, hacts, heq⟩ <;> rw [heq]
      · exact h
      · refine ⟨fun hstop => hacts.turn.frame.2.2.2.trans (h.cancelled hstop), fun hreturned => ?_⟩
        -- a run that has ended takes no step
        have hdone := List.all_eq_true.1 (h.quiet hreturned) x (List.mem_of_getElem? hx)
        cases hpoint : x.point <;> simp [hpoint, Point.isDone, isReady] at hdone hready
  | stop => exact ⟨fun _ => rfl, h.quiet⟩
  | stopReturns =>
      unfold Course.take
      dsimp only
      split
      · rename_i hreturn
        exact ⟨fun _ => h.cancelled (Or.inl hreturn.1), fun _ => hreturn.2⟩
      · exact h

theorem orderly_take (h : Orderly n c.restores) (m : Move) : Orderly n (c.take m).restores := by
  cases m with
  | run project => exact orderly_run h project
  | exit process code => exact h.modify (by simp)
  | output process now => exact h.modify (by simp)
  | work i e =>
      show Orderly n (c.work i e).restores
      rcases c.work_cases i e with heq | ⟨x, pt, r', ds, hx, hready, hacts, heq⟩ <;> rw [heq]
      · exact h
      · have := orderly_act h hx hready
        rwa [hacts.state] at this
  | stop => exact orderly_cancel h
  | stopReturns =>
      unfold Course.take
      dsimp only
      split
      · exact h
      · exact h

/-- What holds at all times. -/
structure Kept (settings : Settings.Restore) (n : Nat) (c : Course) : Prop where
  told : Told settings c
  counted : Counted c
  halting : Halting c
  orderly : Orderly n c.restores

theorem Kept.start (settings : Settings.Restore) (processors : Nat) :
    Kept settings (limitOf settings processors) (Course.start settings processors) where
  told := .start settings processors
  counted := ⟨rfl, rfl, rfl, rfl⟩
  halting := ⟨by simp [Course.start], by simp [Course.start]⟩
  orderly := orderly_new settings processors

theorem Kept.take (h : Kept settings n c) (m : Move) : Kept settings n (c.take m) :=
  ⟨h.told.take m, h.counted.take m, h.halting.take m, orderly_take h.orderly m⟩

theorem Kept.run (h : Kept settings n c) (moves : List Move) : Kept settings n (c.run moves) :=
  List.foldlRecOn moves Course.take h fun _ hc m _ => hc.take m

/-! ### The account -/

/-- The account of a run that was accepted, with so many retries. -/
structure Account (retries : Nat) (c : Course) (i : Nat) (x : Run) : Prop where
  /-- What it has shown, records apart, is what its deeds show, one after the other. -/
  shown : (c.shownBy i).filter (!·.isLog) = (c.story i).flatMap (Deed.shown x.project)
  /-- What it has done is the beginning of a whole story, and the whole story when it has ended. -/
  completes : ∃ rest, Complete retries (c.story i ++ rest)
  complete : x.point.isDone = true → Complete retries (c.story i)
  launches : ((c.story i).filterMap Deed.launch?).length ≤ retries + 1
  /-- It tells of success exactly if its last attempt ended with code 0 and was not cancelled. -/
  finished : ∀ before succeeded after, c.story i = before ++ .finished succeeded :: after →
    (succeeded = true ↔ ∃ process, before.getLast? = some (.exited process 0))
  /-- The exits it takes up have happened. -/
  exited : ∀ process code, .exited process code ∈ c.story i → c.restores.exitCode? process = some code

theorem Told.account (h : Told settings c) (hx : c.restores.runs[i]? = some x) :
    Account settings.retries.toNat c i x := by
  have hstands := h.stands i x hx
  rw [h.settings] at hstands
  obtain ⟨rest, hrest⟩ := hstands.completes
  refine ⟨h.shown i x hx, ⟨rest, hrest⟩, fun hdone => ?_, ?_, fun before succeeded after hstory => ?_,
    h.exited i⟩
  · cases hpoint : x.point with
    | done => rwa [hpoint] at hstands
    | _ => simp [hpoint, Point.isDone] at hdone
  · have hlaunches := hrest.length_launches
    rw [List.filterMap_append, List.length_append] at hlaunches
    omega
  · rw [hstory, List.append_assoc] at hrest
    exact hrest.finished_iff

/-- When all runs have ended, each has its whole story and no lock is kept. -/
theorem Kept.quiet (h : Kept settings n c) (hquiet : c.restores.isQuiet = true) :
    (∀ i x, c.restores.runs[i]? = some x → Complete settings.retries.toNat (c.story i)) ∧
      c.restores.locks.index = .empty := by
  have hdone : ∀ x ∈ c.restores.runs, x.point.isDone = true := List.all_eq_true.1 hquiet
  refine ⟨fun i x hx => (h.told.account hx).complete (hdone x (List.mem_of_getElem? hx)), ?_⟩
  refine h.orderly.inUse.index_eq_empty h.orderly.bounded.ledger fun caller hcaller => ?_
  obtain ⟨x, hx, rfl⟩ := List.mem_map.1 hcaller
  have hx := hdone x hx
  cases hpoint : x.point <;> simp [hpoint, Point.isDone] at hx
  rw [Run.caller, hpoint]
  rfl

/-- **Every restore is accounted for.** Whatever calls come in and in whatever order the runs take their
steps, processes exit and stop is called: each run that was accepted has its account; processes are
launched one after the other; the counters count what the runs have told, and a run that has begun and
was not counted is the only one missing there. No step takes a run away from its end, and unless a process
lives, some run that has not ended comes nearer to its end in its next step, so every story that begins is
told to its end. When a call of stop has returned, every story is whole and no lock is kept. -/
theorem restores_accounted (settings : Settings.Restore) (processors : Nat) (moves : List Move) :
    let c := (Course.start settings processors).run moves
    c.restores.runs.map (·.project) = c.accepted ∧
    (∀ i x, c.restores.runs[i]? = some x → Account settings.retries.toNat c i x) ∧
    (c.log.map (·.2)).filterMap Deed.launch? = List.range c.restores.processes.length ∧
    c.restores.tally.runs = (c.log.map (·.2)).count .started ∧
    c.restores.tally.success = (c.log.map (·.2)).count (.counted true) ∧
    c.restores.tally.failed = (c.log.map (·.2)).count (.counted false) ∧
    c.restores.tally.runs = c.restores.tally.success + c.restores.tally.failed +
      (List.range c.restores.runs.length).countP (fun i => isOpen (c.story i)) ∧
    (∀ i e stepped, c.restores.step i e = some stepped → stepped.1.remaining ≤ c.restores.remaining) ∧
    ((∀ k, c.restores.isLive k = false) → c.restores.isQuiet = false →
      ∃ i, ∀ e : Surroundings, e.choice = .exited →
        ∃ stepped, c.restores.step i e = some stepped ∧ stepped.1.remaining < c.restores.remaining) ∧
    (0 < c.returned →
      (∀ i x, c.restores.runs[i]? = some x → Complete settings.retries.toNat (c.story i)) ∧
        c.restores.locks.index = .empty) := by
  intro c
  have hc : Kept settings (limitOf settings processors) c := (Kept.start settings processors).run moves
  have hopen : ∀ i x, c.restores.runs[i]? = some x → isOpen (c.story i) = x.point.isOpen :=
    fun i x hx => (hc.told.stands i x hx).isOpen_eq
  refine ⟨hc.told.accepted, fun i x hx => hc.told.account hx, hc.told.launched, hc.counted.runs,
    hc.counted.success, hc.counted.failed, ?_, fun i e stepped => remaining_step,
    hc.orderly.progress (limitOf_pos settings processors),
    fun hreturned => hc.quiet (hc.halting.quiet hreturned)⟩
  rw [countP_range_eq hopen]
  exact hc.counted.total

/-- The watchdog ends the first attempt, and the second one goes well. -/
example :
    let moves := Move.run ⟨7, "a"⟩ :: List.replicate 5 (Move.work 0 { now := 0 }) ++
      [Move.work 0 { now := 10 }, Move.work 0 { now := 10 }, Move.exit 0 137] ++
      List.replicate 2 (Move.work 0 { now := 10 }) ++
      Move.exit 1 0 :: List.replicate 7 (Move.work 0 { now := 11 })
    ((Course.start { enabled := true, retries := 1, timeout := 5, watchdogInterval := 10 } 2).run moves).story 0 =
      [.started, .launched 0, .killed 0, .exited 0 137, .launched 1, .exited 1 0, .finished true,
        .counted true, .posted true] := by
  decide +kernel

end CompilationBridge.Restores
