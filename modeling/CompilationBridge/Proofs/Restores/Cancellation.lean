import CompilationBridge.Proofs.Restores.Accounts

/-! What stopping leaves. A run asks whether it was cancelled when it comes for a permit and while its tool
runs, but not between the permit and the launch, nor before it launches a tool again. So once restores are
cancelled no run gets a permit, and only one that had its permit by then can launch a process still. -/

namespace CompilationBridge.Restores

open CompilationBridge.Graph (ProjectRef)

/-- Whether a run that stands here can launch a process without asking for a permit. -/
def Point.mayLaunch : Point → Bool
  | .attempt .. | .watch .. | .kill .. => true
  | _ => false

def mayLaunch (r : Restores) (i : Nat) : Bool :=
  (r.runs[i]?).any (·.point.mayLaunch)

variable {c : Course} {r r' : Restores} {i : Nat} {e : Surroundings} {pt pt' : Point} {ds : List Deed}

/-- A cancelled run that cannot launch a process does not come to do so. -/
theorem Turn.of_cancelled {project : ProjectRef} (h : Turn r i project e pt pt' r' ds)
    (hcancelled : r.cancelled = true) (hpt : pt.mayLaunch = false) :
    pt'.mayLaunch = false ∧ ds.filterMap Deed.launch? = [] := by
  cases h with
  | grant running | next running => cases hcancelled.symm.trans running
  | refuse | launch | again | settle | cancel | look | strike | kill => cases hpt
  | _ => exact ⟨rfl, rfl⟩

namespace Course

/-- The processes that a run has launched. -/
def launches (c : Course) (i : Nat) : List Nat :=
  (c.story i).filterMap Deed.launch?

/-- What a move of cancelled restores leaves of a run that cannot launch a process. -/
theorem take_of_cancelled (hcancelled : c.restores.cancelled = true) (hi : c.restores.mayLaunch i = false)
    (m : Move) : (c.take m).restores.cancelled = true ∧ (c.take m).restores.mayLaunch i = false ∧
      (c.take m).launches i = c.launches i := by
  cases m with
  | run project =>
      have hsame : c.restores.run project = c.restores := by simp [Restores.run, hcancelled]
      simp only [take, hsame]
      exact ⟨hcancelled, hi, rfl⟩
  | exit | output => exact ⟨hcancelled, hi, rfl⟩
  | stop => exact ⟨rfl, hi, rfl⟩
  | stopReturns =>
      unfold take
      dsimp only
      split <;> exact ⟨hcancelled, hi, rfl⟩
  | work j e =>
      show (c.work j e).restores.cancelled = true ∧ _
      rcases c.work_cases j e with heq | ⟨x, pt, r', ds, hx, -, hacts, heq⟩
      · rw [take, heq]
        exact ⟨hcancelled, hi, rfl⟩
      rw [take, heq]
      have hget := hacts.turn.getElem?_runs hx i
      refine ⟨hacts.turn.frame.2.2.2.trans hcancelled, ?_, ?_⟩
      · show ((r'.goTo j pt).runs[i]?).any _ = false
        rw [hget]
        split
        · rename_i hji
          rw [mayLaunch, ← hji, hx] at hi
          exact (hacts.turn.of_cancelled hcancelled hi).1
        · exact hi
      · show (ofRun i (c.log ++ ds.map (j, ·))).filterMap Deed.launch? =
          (ofRun i c.log).filterMap Deed.launch?
        rw [ofRun_append, List.filterMap_append]
        by_cases hji : j = i
        · subst hji
          rw [mayLaunch, hx] at hi
          rw [ofRun_self, (hacts.turn.of_cancelled hcancelled hi).2, List.append_nil]
        · rw [ofRun_of_ne hji]
          exact List.append_nil _

theorem launches_run (hcancelled : c.restores.cancelled = true) (hi : c.restores.mayLaunch i = false)
    (moves : List Move) : (c.run moves).launches i = c.launches i := by
  induction moves generalizing c with
  | nil => rfl
  | cons m moves ih =>
      obtain ⟨hcancelled', hi', hlaunches⟩ := take_of_cancelled hcancelled hi m
      exact (ih hcancelled' hi').trans hlaunches

end Course

/-- **Few runs launch a process after stopping**: only runs that had a permit when restores were cancelled,
and there are no more of these than tools may run at once. -/
theorem launches_after_cancel (settings : Settings.Restore) (processors : Nat) (moves later : List Move)
    (hcancelled : ((Course.start settings processors).run moves).restores.cancelled = true) :
    let c := (Course.start settings processors).run moves
    (∀ i, (c.run later).launches i ≠ c.launches i → c.restores.mayLaunch i = true) ∧
      c.restores.runs.countP (·.point.mayLaunch) ≤ limitOf settings processors := by
  intro c
  have hc : Kept settings (limitOf settings processors) c := (Kept.start settings processors).run moves
  refine ⟨fun i hi => ?_, ?_⟩
  · by_contra hnot
    exact hi (Course.launches_run hcancelled (Bool.eq_false_iff.2 hnot) later)
  · calc
      c.restores.runs.countP (·.point.mayLaunch) ≤ c.restores.runs.countP (·.point.hasPermit) := by
        refine List.countP_mono_left fun x _ hx => ?_
        cases hpoint : x.point <;> simp [hpoint, Point.mayLaunch, Point.hasPermit] at hx ⊢
      _ = c.restores.permits := hc.orderly.bounded.permits.symm
      _ ≤ limitOf settings processors := hc.orderly.bounded.permits_le

/-- The watchdog has killed the first process when the stop comes in; the run takes up the exit before it
sees that it was cancelled, and launches a second process. -/
example :
    let c := (Course.start { enabled := true, retries := 1, timeout := 5, watchdogInterval := 10 } 2).run
      (Move.run ⟨7, "a"⟩ :: List.replicate 5 (Move.work 0 { now := 0 }) ++
        [Move.work 0 { now := 10 }, Move.work 0 { now := 10 }, Move.exit 0 137, Move.stop])
    c.launches 0 = [0] ∧ c.restores.cancelled = true ∧
      (c.run (List.replicate 2 (.work 0 { now := 10, choice := .exited }))).launches 0 = [0, 1] := by
  decide +kernel

end CompilationBridge.Restores
