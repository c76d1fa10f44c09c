import CompilationBridge.Proofs.Restores.Turns
import Mathlib.Algebra.BigOperators.Group.List.Basic
import Mathlib.Algebra.GroupWithZero.Nat
import Mathlib.Algebra.Order.Group.Nat

/-! No restore gets stuck. A run that cannot go on waits for the lock of its project, for a permit or for
its process. Whoever has the lock or the permit can go on or waits for less, so unless a process lives, or
all runs have ended, some run can go on. A run has a bounded number of steps left, and every step takes
one of them but a look of the watchdog that lets the tool go on. -/

namespace CompilationBridge.Restores

open KeyedLocks (InUse)

variable {r r' : Restores} {i k n : Nat} {x : Run} {e : Surroundings} {pt pt' : Point} {ds : List Deed}
  {project : Graph.ProjectRef}

/-- How many steps a run has left at most while its tool runs, looks of the watchdog apart. -/
def Watch.left (tool : Watch) (retries : Nat) : Nat :=
  if tool.killed then 9 + 4 * retries else 11 + 4 * retries

/-- How many steps a run has left at most, looks of the watchdog apart. -/
def Point.left (retries : Nat) : Point → Nat
  | .entry => 17 + 4 * retries
  | .register => 16 + 4 * retries
  | .lock _ => 15 + 4 * retries
  | .acquire _ => 14 + 4 * retries
  | .queued _ => 13 + 4 * retries
  | .attempt _ left => 12 + 4 * left
  | .watch _ left tool => tool.left left
  | .kill _ left tool => tool.left left + 1
  | .abort _ _ => 8
  | .reap _ _ => 7
  | .release _ _ => 6
  | .unlock _ _ => 5
  | .unregister _ _ => 4
  | .announce _ => 3
  | .conclude _ => 2
  | .tell => 1
  | .done => 0

/-- How many steps all runs have left. -/
def remaining (r : Restores) : Nat :=
  (r.runs.map fun x => x.point.left r.settings.retries.toNat).sum

/-- Only a look of the watchdog takes none of the steps that are left. -/
theorem Turn.left (h : Turn r i project e pt pt' r' ds) :
    pt'.left r.settings.retries.toNat < pt.left r.settings.retries.toNat ∨
      pt'.left r.settings.retries.toNat = pt.left r.settings.retries.toNat ∧
        ∃ cell retries tool, pt = .watch cell retries tool ∧
          (e.choice = .exited → r.hasExited tool.process = false) := by
  cases h with
  | look due unseen spared => exact Or.inr ⟨rfl, _, _, _, rfl, unseen⟩
  | again exited killed =>
      left
      simp only [Point.left, Watch.left, killed, if_true]
      omega
  | settle exited last =>
      left
      simp only [Point.left, Watch.left]
      split <;> omega
  | cancel cancelled unseen =>
      left
      simp only [Point.left, Watch.left]
      split <;> omega
  | strike due unkilled silent =>
      left
      simp only [Point.left, Watch.left, unkilled, Bool.false_eq_true, if_true, if_false]
      omega
  | _ =>
      left
      simp only [Point.left, Watch.left, Bool.false_eq_true, if_false]
      omega

/-! ### Who waits for what -/

def Point.isQueued : Point → Bool
  | .queued _ => true
  | _ => false

/-- What a run that waits can rely on: locks that are taken have a holder, the queue is of the runs that
wait for a permit, and processes that are watched were launched. -/
structure Orderly (n : Nat) (r : Restores) : Prop where
  bounded : Bounded n (fun _ => True) r
  inUse : InUse r.locks (r.runs.map Run.caller)
  nodup : r.queue.Nodup
  queue : ∀ j, j ∈ r.queue ↔ ∃ x, r.runs[j]? = some x ∧ x.point.isQueued = true
  launched : ∀ x ∈ r.runs, ∀ k, x.point.process? = some k → k < r.processes.length

theorem getElem?_runs_goTo (r : Restores) (i : Nat) (pt : Point) (j : Nat) :
    (r.goTo i pt).runs[j]? =
      if i = j then (r.runs[j]?).map fun x => { x with point := pt } else r.runs[j]? := by
  rw [goTo, List.getElem?_modify]
  split <;> simp

theorem Turn.getElem?_runs (h : Turn r i project e pt pt' r' ds) (hx : r.runs[i]? = some x) (j : Nat) :
    (r'.goTo i pt').runs[j]? = if i = j then some { x with point := pt' } else r.runs[j]? := by
  rw [getElem?_runs_goTo, h.frame.1]
  split
  · rename_i hij
    rw [← hij, hx]
    rfl
  · rfl

/-- The locks change as the caller does. -/
theorem Turn.inUse {callers : List KeyedLocks.Caller} (h : Turn r i project e pt pt' r' ds)
    (hl : KeyedLocks.Ledger r.locks callers) (hu : InUse r.locks callers)
    (hi : callers[i]? = some ⟨project.path, pt.stage⟩) :
    InUse r'.locks (callers.set i ⟨project.path, pt'.stage⟩) := by
  have hsame : InUse r.locks (callers.set i ⟨project.path, pt.stage⟩) := by
    obtain ⟨hlt, hget⟩ := List.getElem?_eq_some_iff.1 hi
    rw [← hget, List.set_getElem_self]
    exact hu
  cases h with
  | register => exact hu.register hl hi
  | lock free => exact hu.lock hi
  | unlock => exact hu.unlock hi
  | unregister => exact hu.unregister hl hi
  | _ => exact hsame

/-- A run is added to the queue when it begins to wait for a permit, and taken out when it no longer does. -/
theorem Turn.queue (h : Turn r i project e pt pt' r' ds) :
    (r'.queue = r.queue ∧ pt.isQueued = pt'.isQueued) ∨
    (r'.queue = r.queue ++ [i] ∧ pt.isQueued = false ∧ pt'.isQueued = true) ∨
    (r'.queue = r.queue.erase i ∧ pt'.isQueued = false) := by
  cases h with
  | enqueue running => exact Or.inr (Or.inl ⟨rfl, rfl, rfl⟩)
  | dequeue cancelled => exact Or.inr (Or.inr ⟨rfl, rfl⟩)
  | next running first => exact Or.inr (Or.inr ⟨rfl, rfl⟩)
  | _ => exact Or.inl ⟨rfl, rfl⟩

theorem Turn.launched (h : Turn r i project e pt pt' r' ds) :
    r.processes.length ≤ r'.processes.length ∧ ∀ k, pt'.process? = some k →
      pt.process? = some k ∨ k < r'.processes.length := by
  cases h with
  | launch =>
      refine ⟨by simp, ?_⟩
      rintro k ⟨⟩
      exact Or.inr (by simp)
  | kill => exact ⟨by simp [markTerminated], fun k hk => Or.inl hk⟩
  | abort => exact ⟨by simp [markTerminated], fun k hk => Or.inl hk⟩
  | again exited killed => exact ⟨Nat.le_refl _, nofun⟩
  | settle exited last => exact ⟨Nat.le_refl _, nofun⟩
  | reap exited => exact ⟨Nat.le_refl _, nofun⟩
  | _ => exact ⟨Nat.le_refl _, fun k hk => Or.inl hk⟩

theorem Orderly.turn (hr : Orderly n r) (hx : r.runs[i]? = some x)
    (hbounded : Bounded n (fun _ => True) (r'.goTo i pt')) (h : Turn r i x.project e x.point pt' r' ds) :
    Orderly n (r'.goTo i pt') := by
  have hruns : r'.runs = r.runs := h.frame.1
  have hget := h.getElem?_runs hx
  have hfree : x.point.isQueued = false → i ∉ r.queue := by
    intro hpoint hmem
    obtain ⟨y, hy, hyq⟩ := (hr.queue i).1 hmem
    obtain rfl : x = y := Option.some_inj.1 (hx.symm.trans hy)
    simp [hpoint] at hyq
  refine ⟨hbounded, ?_, ?_, ?_, ?_⟩
  · rw [runs_goTo (hruns ▸ hx), hruns, List.map_set]
    refine h.inUse hr.bounded.ledger hr.inUse ?_
    rw [List.getElem?_map, hx]
    rfl
  · show r'.queue.Nodup
    rcases h.queue with ⟨hq, -⟩ | ⟨hq, hpoint, -⟩ | ⟨hq, -⟩ <;> rw [hq]
    · exact hr.nodup
    · refine List.nodup_append.2 ⟨hr.nodup, List.nodup_singleton i, fun j hj l hl heq => ?_⟩
      obtain rfl : j = i := heq.trans (List.mem_singleton.1 hl)
      exact hfree hpoint hj
    · exact hr.nodup.erase i
  · intro j
    show j ∈ r'.queue ↔ _
    rw [hget]
    rcases h.queue with ⟨hq, hpoint⟩ | ⟨hq, hpoint, hpoint'⟩ | ⟨hq, hpoint'⟩ <;> rw [hq]
    · rw [hr.queue]
      split
      · rename_i hij
        simp [← hij, hx, hpoint]
      · rfl
    · rw [List.mem_append, List.mem_singleton, hr.queue]
      split
      · rename_i hij
        simp [hij, hpoint']
      · rename_i hij
        simp [Ne.symm hij]
    · rw [hr.nodup.mem_erase_iff, hr.queue]
      split
      · rename_i hij
        simp [hij, hpoint']
      · rename_i hij
        simp [Ne.symm hij]
  · intro y hy k hk
    show k < r'.processes.length
    obtain ⟨j, hj⟩ := List.getElem?_of_mem hy
    rw [hget] at hj
    split at hj
    · obtain rfl := Option.some_inj.1 hj
      rcases h.launched.2 k hk with hk | hk
      · exact Nat.lt_of_lt_of_le (hr.launched x (List.mem_of_getElem? hx) k hk) h.launched.1
      · exact hk
    · exact Nat.lt_of_lt_of_le (hr.launched y (List.mem_of_getElem? hj) k hk) h.launched.1

theorem orderly_act (hr : Orderly n r) (hx : r.runs[i]? = some x)
    (hready : r.isReady e.now i x.point = true) : Orderly n (r.act i x e).1 := by
  obtain ⟨pt, r', ds, hacts⟩ := exists_acts (i := i) hready
  have hbounded : Bounded n (fun _ => True) (r.act i x e).1 := bounded_act hr.bounded hx hready
  rw [hacts.state] at hbounded ⊢
  exact hr.turn hx hbounded hacts.turn

theorem orderly_run (hr : Orderly n r) (project : Graph.ProjectRef) : Orderly n (r.run project) := by
  have hbounded : Bounded n (fun _ => True) (r.run project) := bounded_run hr.bounded trivial
  unfold run at hbounded ⊢
  split at hbounded
  · rename_i haccepted
    rw [if_pos haccepted]
    refine ⟨hbounded, ?_, hr.nodup, fun j => ?_, ?_⟩
    · rw [List.map_append]
      exact hr.inUse.append _
    · rw [hr.queue, List.getElem?_append]
      constructor
      · rintro ⟨y, hy, hyq⟩
        exact ⟨y, by rw [if_pos (List.getElem?_eq_some_iff.1 hy).1, hy], hyq⟩
      · rintro ⟨y, hy, hyq⟩
        split at hy
        · exact ⟨y, hy, hyq⟩
        · obtain rfl : y = { project := project } := by simpa using List.mem_of_getElem? hy
          cases hyq
    · intro y hy k hk
      rcases List.mem_append.1 hy with hy | hy
      · exact hr.launched y hy k hk
      · obtain rfl := List.mem_singleton.1 hy
        cases hk
  · rename_i hrefused
    rw [if_neg hrefused]
    exact hr

theorem Orderly.modify {process : Nat} {f : Process → Process} (hr : Orderly n r)
    (hf : ∀ p, (f p).exitCode = none → p.exitCode = none) :
    Orderly n { r with processes := r.processes.modify process f } where
  bounded := hr.bounded.modify hf
  inUse := hr.inUse
  nodup := hr.nodup
  queue := hr.queue
  launched y hy k hk := by
    show k < (r.processes.modify process f).length
    rw [List.length_modify]
    exact hr.launched y hy k hk

theorem orderly_cancel (hr : Orderly n r) : Orderly n r.cancel :=
  { hr with bounded := bounded_cancel hr.bounded }

theorem orderly_new (settings : Settings.Restore) (processors : Nat) :
    Orderly (limitOf settings processors) (new settings processors) where
  bounded := bounded_new settings processors
  inUse := InUse.empty
  nodup := List.nodup_nil
  queue := by simp [new]
  launched := by simp [new]

/-- At least one tool may run. -/
theorem limitOf_pos (settings : Settings.Restore) (processors : Nat) : 0 < limitOf settings processors := by
  unfold limitOf
  split
  · omega
  · exact Nat.lt_of_lt_of_le Nat.one_pos (Nat.le_max_left _ _)

/-! ### Going on -/

theorem sum_set_add {l : List Nat} {a : Nat} (h : l[i]? = some a) (b : Nat) :
    (l.set i b).sum + a = l.sum + b := by
  induction l generalizing i with
  | nil => simp at h
  | cons c l ih =>
      cases i with
      | zero =>
          obtain rfl : c = a := by simpa using h
          simp only [List.set_cons_zero, List.sum_cons]
          omega
      | succ i =>
          have := ih (i := i) (by simpa using h)
          simp only [List.set_cons_succ, List.sum_cons]
          omega

theorem remaining_turn (hx : r.runs[i]? = some x) (h : Turn r i x.project e x.point pt r' ds) :
    (r'.goTo i pt).remaining + x.point.left r.settings.retries.toNat =
      r.remaining + pt.left r.settings.retries.toNat := by
  obtain ⟨hruns, hsettings, -, -⟩ := h.frame
  have hget : (r.runs.map fun x => x.point.left r.settings.retries.toNat)[i]? =
      some (x.point.left r.settings.retries.toNat) := by
    rw [List.getElem?_map, hx]
    rfl
  have hsettings' : (r'.goTo i pt).settings = r.settings := hsettings
  rw [remaining, remaining, hsettings', runs_goTo (hruns ▸ hx), hruns, List.map_set]
  exact sum_set_add hget _

/-- No step takes a run away from its end. -/
theorem remaining_step {stepped : Restores × List Effect} (h : r.step i e = some stepped) :
    stepped.1.remaining ≤ r.remaining := by
  obtain ⟨x, hx, hready, rfl⟩ := step_eq_some h
  obtain ⟨pt, r', ds, hacts⟩ := exists_acts (i := i) hready
  have hsum := remaining_turn hx hacts.turn
  have hleft := hacts.turn.left
  rw [hacts.state]
  omega

/-- A run that is ready at any time, its process having exited, comes nearer to its end. -/
theorem goes_on (hx : r.runs[i]? = some x)
    (hready : ∀ now, r.isReady now i x.point = true)
    (hexited : ∀ cell retries tool, x.point = .watch cell retries tool → r.hasExited tool.process = true)
    (hchoice : e.choice = .exited) :
    ∃ stepped, r.step i e = some stepped ∧ stepped.1.remaining < r.remaining := by
  obtain ⟨pt, r', ds, hacts⟩ := exists_acts (i := i) (hready e.now)
  refine ⟨r.act i x e, by rw [step, hx]; exact if_pos (hready e.now), ?_⟩
  have hsum := remaining_turn hx hacts.turn
  rw [hacts.state]
  rcases hacts.turn.left with hlt | ⟨-, cell, retries, tool, hpoint, hunseen⟩
  · omega
  · have := hunseen hchoice
    simp [hexited cell retries tool hpoint] at this

/-- Nothing that the run waits for at this point is missing. -/
def Point.isFree (r : Restores) (i : Nat) : Point → Bool
  | .lock cell => r.locks.isFree cell
  | .queued _ => r.cancelled || r.isFirst i
  | .done => false
  | _ => true

theorem Orderly.hasExited (hr : Orderly n r) (hdead : ∀ k, r.isLive k = false) (hx : x ∈ r.runs)
    (hk : x.point.process? = some k) : r.hasExited k = true := by
  have hlt := hr.launched x hx k hk
  have hget : r.processes[k]? = some r.processes[k] := List.getElem?_eq_getElem hlt
  have hlive := hdead k
  simp only [isLive, hget, Option.any_some] at hlive
  simp only [Restores.hasExited, exitCode?, hget, Option.bind_some]
  cases hcode : r.processes[k].exitCode with
  | none => simp [hcode] at hlive
  | some code => rfl

/-- With no process alive, a run that waits for neither lock nor permit is ready. -/
theorem Orderly.isReady (hr : Orderly n r) (hdead : ∀ k, r.isLive k = false) (hx : x ∈ r.runs)
    (hfree : x.point.isFree r i = true) (now : Nat) : r.isReady now i x.point = true := by
  cases hpoint : x.point with
  | watch cell retries tool =>
      have hexited := hr.hasExited hdead hx (by rw [hpoint]; rfl)
      simp [Restores.isReady, wake?, hasHappened, hexited]
  | reap cell process => exact hr.hasExited hdead hx (by rw [hpoint]; rfl)
  | _ => rw [hpoint] at hfree; exact hfree

/-- Some run waits for neither lock nor permit. -/
def HasFree (r : Restores) : Prop :=
  ∃ (j : Nat) (y : Run), r.runs[j]? = some y ∧ y.point.isFree r j = true

/-- A run with a permit waits for its process at most. -/
theorem Orderly.free_of_permit (hr : Orderly n r) (hpos : 0 < r.permits) : r.HasFree := by
  rw [hr.bounded.permits, List.countP_pos_iff] at hpos
  obtain ⟨y, hy, hpermit⟩ := hpos
  obtain ⟨j, hj⟩ := List.getElem?_of_mem hy
  refine ⟨j, y, hj, ?_⟩
  cases hpoint : y.point <;> simp_all [Point.hasPermit, Point.isFree]

/-- If some run waits for a permit, the first of them can have one or all are taken. -/
theorem Orderly.free_of_queue (hr : Orderly n r) (hn : 0 < n) (hi : i ∈ r.queue) : r.HasFree := by
  obtain ⟨first, hfirst⟩ : ∃ first, r.queue.head? = some first := by
    cases hq : r.queue with
    | nil => simp [hq] at hi
    | cons first rest => exact ⟨first, rfl⟩
  obtain ⟨y, hy, hyq⟩ := (hr.queue first).1 (List.mem_of_mem_head? hfirst)
  by_cases hfull : r.permits < r.limit
  · refine ⟨first, y, hy, ?_⟩
    cases hpoint : y.point <;> simp_all [Point.isQueued, Point.isFree, isFirst]
  · have := hr.bounded.limit
    exact hr.free_of_permit (by omega)

/-- A run that holds a lock waits for a permit or its process at most. -/
theorem Orderly.free_of_holder {cell : Nat} (hr : Orderly n r) (hn : 0 < n) (hx : r.runs[i]? = some x)
    (hstage : x.point.stage = .holding cell) : r.HasFree := by
  cases hpoint : x.point with
  | queued c => exact hr.free_of_queue hn ((hr.queue i).2 ⟨x, hx, by rw [hpoint]; rfl⟩)
  | entry | register | lock | unregister | announce | conclude | tell | done =>
      simp [hpoint, Point.stage] at hstage
  | _ => exact ⟨i, x, hx, by rw [hpoint]; rfl⟩

/-- A lock that is taken has a holder. -/
theorem Orderly.free_of_lock {cell : Nat} (hr : Orderly n r) (hn : 0 < n) (hx : r.runs[i]? = some x)
    (hpoint : x.point = .lock cell) : r.HasFree := by
  cases hfree : r.locks.isFree cell with
  | true => exact ⟨i, x, hx, by rw [hpoint]; exact hfree⟩
  | false =>
      have hcaller : x.caller ∈ r.runs.map Run.caller := List.mem_map_of_mem (List.mem_of_getElem? hx)
      have hplace : r.locks.index.get? x.project.path = some cell :=
        hr.bounded.ledger.place _ hcaller cell (by rw [Run.caller, hpoint]; rfl)
      obtain ⟨holder, hholder, hstage⟩ :=
        hr.inUse.holder cell (hr.bounded.ledger.bound _ _ hplace) hfree
      obtain ⟨y, hy, rfl⟩ := List.mem_map.1 hholder
      obtain ⟨j, hj⟩ := List.getElem?_of_mem hy
      exact hr.free_of_holder hn hj hstage

theorem Orderly.hasFree (hr : Orderly n r) (hn : 0 < n) (hquiet : r.isQuiet = false) : r.HasFree := by
  obtain ⟨y, hy, hdone⟩ : ∃ y ∈ r.runs, y.point.isDone = false := by
    simpa [isQuiet] using hquiet
  obtain ⟨j, hj⟩ := List.getElem?_of_mem hy
  cases hpoint : y.point with
  | lock cell => exact hr.free_of_lock hn hj hpoint
  | queued cell => exact hr.free_of_queue hn ((hr.queue j).2 ⟨y, hj, by rw [hpoint]; rfl⟩)
  | done => simp [hpoint, Point.isDone] at hdone
  | _ => exact ⟨j, y, hj, by rw [hpoint]; rfl⟩

/-- **No restore gets stuck.** Unless a process lives, all runs have ended or one of them can take a step
at any time that brings it nearer to its end. -/
theorem Orderly.progress (hr : Orderly n r) (hn : 0 < n) (hdead : ∀ k, r.isLive k = false)
    (hquiet : r.isQuiet = false) :
    ∃ j, ∀ e : Surroundings, e.choice = .exited →
      ∃ stepped, r.step j e = some stepped ∧ stepped.1.remaining < r.remaining := by
  obtain ⟨j, y, hj, hfree⟩ := hr.hasFree hn hquiet
  have hy := List.mem_of_getElem? hj
  refine ⟨j, fun e hchoice => goes_on hj (hr.isReady hdead hy hfree) ?_ hchoice⟩
  intro cell retries tool hpoint
  exact hr.hasExited hdead hy (by rw [hpoint]; rfl)

end CompilationBridge.Restores
