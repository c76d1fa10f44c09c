import CompilationBridge.Supervisor
import Mathlib.Data.List.Basic

/-! Runs of the supervisor. Calls to start and to stop come in, processes exit and workers take their
steps, in any order; what the outside answers to a step is part of the move. Once the supervisor is
stopped it stays so, and no further process is started. -/

namespace CompilationBridge.Supervisor

/-- What can happen to a supervisor. -/
inductive Move where
  | start (hostId : String)
  | stop
  | exit (process : Nat) (code : Int)
  /-- A worker takes a step, if it is ready. -/
  | work (worker : Nat) (answers : Surroundings)

def take (s : Supervisor) : Move → Supervisor × List Effect
  | .start hostId => (s.start hostId, [])
  | .stop => (s.stop, [])
  | .exit process code => (s.exit process code, [])
  | .work worker answers => (s.step worker answers).getD (s, [])

def run (s : Supervisor) (moves : List Move) : Supervisor :=
  moves.foldl (fun s m => (s.take m).1) s

theorem run_append (s : Supervisor) (moves more : List Move) :
    s.run (moves ++ more) = (s.run moves).run more := by
  rw [run, List.foldl_append]
  rfl

/-- The states that a supervisor can come to. -/
def Reachable (s : Supervisor) : Prop :=
  ∃ settings moves, s = (new settings).run moves

theorem Reachable.run {s : Supervisor} (hs : Reachable s) (moves : List Move) : Reachable (s.run moves) := by
  obtain ⟨settings, before, rfl⟩ := hs
  exact ⟨settings, before ++ moves, (run_append _ _ _).symm⟩

theorem Reachable.take {s : Supervisor} (hs : Reachable s) (m : Move) : Reachable (s.take m).1 :=
  hs.run [m]

/-- An invariant of single moves holds after a run. -/
theorem run_induction {P : Supervisor → Prop} (hstep : ∀ s m, P s → P (s.take m).1) {s : Supervisor}
    (hs : P s) (moves : List Move) : P (s.run moves) :=
  List.foldlRecOn moves _ hs fun s hs m _ => hstep s m hs

variable {s : Supervisor} {i : Nat} {w : Worker} {e : Surroundings}

/-- A worker that steps is there and ready, and does what its point says. -/
theorem take_work (s : Supervisor) (i : Nat) (e : Surroundings) :
    (s.take (.work i e)).1 = s ∨ ∃ w, s.workers[i]? = some w ∧ s.isReady e.now w.point = true ∧
      (s.take (.work i e)).1 = (s.act i w e).1 := by
  simp only [take, step]
  split
  · rename_i w hw
    split
    · exact Or.inr ⟨w, hw, ‹_›, rfl⟩
    · exact Or.inl rfl
  · exact Or.inl rfl

/-! ### Workers -/

theorem getElem?_goTo (s : Supervisor) (i : Nat) (point : Point) (j : Nat) :
    (s.goTo i point).workers[j]? =
      if i = j then (s.workers[j]?).map fun w => { w with point := point } else s.workers[j]? := by
  rw [goTo, List.getElem?_modify]
  split <;> simp

@[simp] theorem phase_goTo (s : Supervisor) (i : Nat) (point : Point) : (s.goTo i point).phase = s.phase :=
  rfl

@[simp] theorem current_goTo (s : Supervisor) (i : Nat) (point : Point) :
    (s.goTo i point).current = s.current :=
  rfl

@[simp] theorem processes_goTo (s : Supervisor) (i : Nat) (point : Point) :
    (s.goTo i point).processes = s.processes :=
  rfl

@[simp] theorem leave_fst (s : Supervisor) (i : Nat) (role : Role) (fault : Option Fault) :
    (s.leave i role fault).1 = s.goTo i .done :=
  rfl

@[simp] theorem leaveWith_fst (s : Supervisor) (i : Nat) (role : Role) (record : LogRecord) :
    (s.leaveWith i role record).1 = s.goTo i .done :=
  rfl

/-! ### Stopping for good -/

/-- Whether a worker that stands here is about to terminate a process. -/
def Point.isSeizing : Point → Bool
  | .terminate _ => true
  | _ => false

/-- Nothing but a call to stop stops the supervisor. -/
theorem point_of_stops (hs : s.phase ≠ .stopped) (h : (s.act i w e).1.phase = .stopped) :
    w.point = .halt := by
  obtain ⟨role, hostId, point⟩ := w
  cases point with
  | halt => rfl
  | entry =>
      simp only [act, enter] at h
      split at h <;> simp_all
  | launch =>
      simp only [act, launchStep] at h
      split at h <;> [skip; split at h] <;> simp_all
  | giveUp process => simp [act, giveUpStep, hs] at h
  | settle process => simp [act, hs] at h
  | await process => simp [act, wakeStep, hs] at h
  | throttle =>
      simp only [act, throttleStep] at h
      split at h <;> exact absurd h hs
  | reserve => simp [act, hs] at h
  | pause wake => simp [act, hs] at h
  | check process deadline =>
      simp only [act] at h
      split at h <;> exact absurd h hs
  | confirm process =>
      simp only [act] at h
      split at h <;> exact absurd h hs
  | decide process deadline =>
      simp only [act] at h
      split at h <;> exact absurd h hs
  | watch =>
      simp only [act] at h
      split at h <;> exact absurd h hs
  | enlist =>
      simp only [act] at h
      split at h <;> exact absurd h hs
  | _ => exact absurd h hs

/-- After a stop a worker only goes on, or ends: no process is launched, and none is taken over. -/
theorem act_of_stopped (hs : s.phase = .stopped) (hready : s.isReady e.now w.point = true) :
    ∃ point : Point, point.isSeizing = false ∧ (s.act i w e).1.phase = .stopped ∧
      (s.act i w e).1.processes.length = s.processes.length ∧
      (s.act i w e).1.workers = s.workers.modify i fun w => { w with point := point } := by
  obtain ⟨role, hostId, point⟩ := w
  cases point with
  | entry => exact ⟨.done, rfl, by simp [act, enter, hs, leave, goTo]⟩
  | launch => exact ⟨.done, rfl, by simp [act, launchStep, hs, leave, goTo]⟩
  | check process deadline =>
      simp only [act]
      split <;> exact ⟨_, rfl, hs, rfl, rfl⟩
  | probe process deadline =>
      simp only [act]
      split <;> exact ⟨_, rfl, hs, rfl, rfl⟩
  | confirm process =>
      simp only [act]
      split <;> exact ⟨_, rfl, hs, rfl, rfl⟩
  | decide process deadline =>
      simp only [act]
      split <;> exact ⟨_, rfl, hs, rfl, rfl⟩
  | expire process => exact ⟨.giveUp process, rfl, hs, by simp [act, markTerminated], rfl⟩
  | giveUp process => exact ⟨.done, rfl, by simp [act, giveUpStep, hs, leave, goTo]⟩
  | settle process => exact ⟨.done, rfl, by simp [act, hs, leave, goTo]⟩
  | calling port =>
      simp only [act]
      split <;> exact ⟨_, rfl, hs, rfl, rfl⟩
  | enlist => exact ⟨.done, rfl, by simp [act, hs, leave, goTo]⟩
  | watch =>
      simp only [act]
      split <;> exact ⟨_, rfl, hs, rfl, rfl⟩
  | await process => exact ⟨.done, rfl, by simp [act, wakeStep, hs, leave, goTo]⟩
  | throttle =>
      simp only [act, throttleStep]
      split <;> exact ⟨_, rfl, hs, rfl, rfl⟩
  | reserve => exact ⟨.done, rfl, by simp [act, hs, leave, goTo]⟩
  | pause wake => exact ⟨.done, rfl, by simp [act, hs, leave, goTo]⟩
  | halt => exact ⟨.done, rfl, by simp [act, haltStep, hs, leave, goTo]⟩
  | terminate process => exact ⟨.join e.terminate, rfl, hs, by simp [act, markTerminated], rfl⟩
  | done => simp [isReady] at hready
  | _ => exact ⟨_, rfl, hs, rfl, rfl⟩

/-- What becomes of a supervisor that was stopped: it stays so, no process is started, and no worker
comes to terminate a process that was not about to. -/
structure Settles (s s' : Supervisor) : Prop where
  phase : s'.phase = .stopped
  launched : s'.processes.length = s.processes.length
  seizing : ∀ (j : Nat) (v : Worker), s'.workers[j]? = some v → v.point.isSeizing = true →
    ∃ u, s.workers[j]? = some u ∧ u.point.isSeizing = true

theorem Settles.refl (hs : s.phase = .stopped) : Settles s s :=
  ⟨hs, rfl, fun _ v hv hseizing => ⟨v, hv, hseizing⟩⟩

theorem Settles.trans {s' s'' : Supervisor} (h : Settles s s') (h' : Settles s' s'') :
    Settles s s'' where
  phase := h'.phase
  launched := h'.launched.trans h.launched
  seizing := by
    intro j v hv hseizing
    obtain ⟨u, hu, huseizing⟩ := h'.seizing j v hv hseizing
    exact h.seizing j u hu huseizing

theorem settles_append (hs : s.phase = .stopped) (hw : w.point.isSeizing = false) :
    Settles s { s with workers := s.workers ++ [w] } where
  phase := hs
  launched := rfl
  seizing := by
    intro j v hv hseizing
    rw [List.getElem?_append] at hv
    split at hv
    · exact ⟨v, hv, hseizing⟩
    · obtain rfl : v = w := by simpa using List.mem_of_getElem? hv
      simp [hw] at hseizing

theorem settles_take (hs : s.phase = .stopped) (m : Move) : Settles s (s.take m).1 := by
  cases m with
  | start hostId => exact settles_append hs rfl
  | stop => exact settles_append hs rfl
  | exit process code =>
      exact ⟨hs, List.length_modify .., fun _ v hv hseizing => ⟨v, hv, hseizing⟩⟩
  | work i e =>
      rcases take_work s i e with heq | ⟨w, hw, hready, heq⟩ <;> rw [heq]
      · exact Settles.refl hs
      · obtain ⟨point, hpoint, hphase, hlength, hworkers⟩ := act_of_stopped (i := i) hs hready
        refine ⟨hphase, hlength, fun j v hv hseizing => ?_⟩
        rw [hworkers, List.getElem?_modify] at hv
        by_cases hij : i = j
        · obtain ⟨u, -, rfl⟩ : ∃ u, s.workers[j]? = some u ∧ ({ u with point := point } : Worker) = v := by
            simpa [hij] using hv
          simp [hpoint] at hseizing
        · exact ⟨v, by simpa [hij] using hv, hseizing⟩

theorem settles_run (hs : s.phase = .stopped) (moves : List Move) : Settles s (s.run moves) :=
  run_induction (P := Settles s) (fun _ m h => h.trans (settles_take h.phase m)) (.refl hs) moves

end CompilationBridge.Supervisor
