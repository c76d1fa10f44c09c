import CompilationBridge.Proofs.KeyedLocks
import CompilationBridge.Restores
import Mathlib.Data.List.Perm.Subperm

/-! How many restore tools run at once. Each live process is watched by a run that has a permit and holds
the lock of its project, and there are as many permits taken as runs that have one. So there are never
more live processes than permits, and never two for the same path. -/

namespace CompilationBridge.Restores

open KeyedLocks (Stage Caller Ledger)

/-- Where a run stands with the lock of its project. -/
def Point.stage : Point → Stage
  | .entry | .register | .announce _ | .conclude _ | .tell | .done => .away
  | .lock cell => .waiting cell
  | .acquire cell | .queued cell | .attempt cell _ | .watch cell _ _ | .kill cell _ _ | .abort cell _
  | .reap cell _ | .release cell _ | .unlock cell _ => .holding cell
  | .unregister cell _ => .leaving cell

def Point.hasPermit : Point → Bool
  | .attempt .. | .watch .. | .kill .. | .abort .. | .reap .. | .release .. => true
  | _ => false

/-- The process of a run whose tool was started and has not been seen to exit. -/
def Point.process? : Point → Option Nat
  | .watch _ _ tool | .kill _ _ tool => some tool.process
  | .abort _ process | .reap _ process => some process
  | _ => none

def Run.caller (x : Run) : Caller :=
  ⟨x.project.path, x.point.stage⟩

/-- Whether a process was started and has not exited. -/
def isLive (r : Restores) (process : Nat) : Bool :=
  (r.processes[process]?).any (·.exitCode.isNone)

def live (r : Restores) : List Nat :=
  (List.range r.processes.length).filter r.isLive

variable {r r' : Restores} {i k : Nat} {x : Run} {e : Surroundings} {pt : Point}

theorem isLive_iff : r.isLive k = true ↔ ∃ p, r.processes[k]? = some p ∧ p.exitCode = none := by
  simp [isLive, Option.any_eq_true]

theorem mem_live : k ∈ r.live ↔ r.isLive k = true := by
  simp only [live, List.mem_filter, List.mem_range, and_iff_right_iff_imp, isLive_iff]
  rintro ⟨p, hp, -⟩
  exact (List.getElem?_eq_some_iff.1 hp).1

theorem nodup_live (r : Restores) : r.live.Nodup :=
  List.nodup_range.filter _

theorem not_isLive_of_hasExited (h : r.hasExited k = true) : r.isLive k ≠ true := by
  rw [Ne, isLive_iff]
  rintro ⟨p, hp, hcode⟩
  simp [hasExited, exitCode?, hp, hcode] at h

/-- A change of one process that does not take its exit code back. -/
theorem isLive_of_modify {process : Nat} {f : Process → Process}
    (hprocesses : r'.processes = r.processes.modify process f)
    (hf : ∀ p, (f p).exitCode = none → p.exitCode = none) (h : r'.isLive k = true) : r.isLive k = true := by
  obtain ⟨p, hp, hcode⟩ := isLive_iff.1 h
  rw [hprocesses, List.getElem?_modify] at hp
  by_cases hk : process = k
  · obtain ⟨q, hq, rfl⟩ : ∃ q, r.processes[k]? = some q ∧ f q = p := by simpa [hk] using hp
    exact isLive_iff.2 ⟨q, hq, hf q hcode⟩
  · exact isLive_iff.2 ⟨p, by simpa [hk] using hp, hcode⟩

/-- A process that was just started is the only one to become live. -/
theorem isLive_of_append {p : Process} (hprocesses : r'.processes = r.processes ++ [p])
    (h : r'.isLive k = true) : r.isLive k = true ∨ k = r.processes.length := by
  obtain ⟨q, hq, hcode⟩ := isLive_iff.1 h
  rw [hprocesses, List.getElem?_append] at hq
  split at hq
  · exact Or.inl (isLive_iff.2 ⟨q, hq, hcode⟩)
  · have := (List.getElem?_eq_some_iff.1 hq).1
    simp at this
    omega

/-! ### The invariant -/

/-- There are so many permits, and the runs are for known projects. -/
structure Bounded (n : Nat) (known : Graph.ProjectRef → Prop) (r : Restores) : Prop where
  limit : r.limit = n
  known : ∀ x ∈ r.runs, known x.project
  ledger : Ledger r.locks (r.runs.map Run.caller)
  permits : r.permits = r.runs.countP (·.point.hasPermit)
  permits_le : r.permits ≤ n
  /-- A live process is watched by a run. -/
  watched : ∀ k, r.isLive k = true → ∃ x ∈ r.runs, x.point.process? = some k

variable {n : Nat} {known : Graph.ProjectRef → Prop}

theorem Bounded.mono {known' : Graph.ProjectRef → Prop} (hr : Bounded n known r)
    (h : ∀ ref, known ref → known' ref) : Bounded n known' r :=
  { hr with known := fun x hx => h x.project (hr.known x hx) }

/-- A run whose tool runs has a permit and the lock of its project. -/
theorem Point.holds_of_process? {pt : Point} (h : pt.process? = some k) :
    pt.hasPermit = true ∧ ∃ cell, pt.stage = .holding cell := by
  cases pt <;> simp [Point.process?] at h <;> exact ⟨rfl, _, rfl⟩

theorem Bounded.length_live (hr : Bounded n known r) : r.live.length ≤ n := by
  have hsub : r.live ⊆ r.runs.filterMap (·.point.process?) := by
    intro k hk
    obtain ⟨x, hx, hk⟩ := hr.watched k (mem_live.1 hk)
    exact List.mem_filterMap.2 ⟨x, hx, hk⟩
  calc
    r.live.length ≤ (r.runs.filterMap (·.point.process?)).length :=
      (List.subperm_of_subset (nodup_live r) hsub).length_le
    _ = r.runs.countP fun x => x.point.process?.isSome := List.length_filterMap_eq_countP
    _ ≤ r.runs.countP (·.point.hasPermit) := by
      refine List.countP_mono_left fun x _ hx => ?_
      obtain ⟨k, hk⟩ := Option.isSome_iff_exists.1 hx
      exact (Point.holds_of_process? hk).1
    _ = r.permits := hr.permits.symm
    _ ≤ n := hr.permits_le

/-- Two runs for the same path that watch a process are the same run. -/
theorem Bounded.watcher_unique {x y : Run} {l : Nat} (hr : Bounded n known r) (hx : x ∈ r.runs) (hy : y ∈ r.runs)
    (hxk : x.point.process? = some k) (hyl : y.point.process? = some l)
    (hpath : x.project.path = y.project.path) : x = y := by
  obtain ⟨a, ha⟩ := List.getElem?_of_mem hx
  obtain ⟨b, hb⟩ := List.getElem?_of_mem hy
  obtain ⟨-, c, hc⟩ := Point.holds_of_process? hxk
  obtain ⟨-, d, hd⟩ := Point.holds_of_process? hyl
  have hax : (r.runs.map Run.caller)[a]? = some ⟨x.project.path, .holding c⟩ := by
    rw [List.getElem?_map, ha, ← hc]
    rfl
  have hby : (r.runs.map Run.caller)[b]? = some ⟨x.project.path, .holding d⟩ := by
    rw [List.getElem?_map, hb, ← hd, hpath]
    rfl
  obtain rfl := hr.ledger.exclusive hax hby
  exact Option.some_inj.1 (ha.symm.trans hb)

/-! ### One step -/

theorem runs_goTo (hx : r.runs[i]? = some x) (pt : Point) :
    (r.goTo i pt).runs = r.runs.set i { x with point := pt } := by
  rw [goTo, List.modify_eq_set_getElem?, hx]
  rfl

theorem callers_set (hx : r.runs[i]? = some x) :
    (r.runs.map Run.caller).set i x.caller = r.runs.map Run.caller := by
  obtain ⟨hi, rfl⟩ := List.getElem?_eq_some_iff.1 hx
  rw [← List.map_set, List.set_getElem_self]

/-- One run goes to another point. The locks and the permits go with it, and a process that stays live
is one that the run watches now or did not watch before. -/
theorem Bounded.move (hr : Bounded n known r) (hx : r.runs[i]? = some x)
    (hruns : r'.runs = r.runs.set i { x with point := pt }) (hlimit : r'.limit = r.limit)
    (hledger : Ledger r'.locks ((r.runs.map Run.caller).set i ⟨x.project.path, pt.stage⟩))
    (hpermits : r'.permits + (if x.point.hasPermit = true then 1 else 0) =
      r.permits + if pt.hasPermit = true then 1 else 0)
    (hle : r'.permits ≤ n)
    (hlive : ∀ k, r'.isLive k = true →
      pt.process? = some k ∨ r.isLive k = true ∧ x.point.process? ≠ some k) : Bounded n known r' where
  limit := hlimit.trans hr.limit
  known := by
    intro y hy
    rw [hruns] at hy
    rcases List.mem_or_eq_of_mem_set hy with hy | rfl
    · exact hr.known y hy
    · exact hr.known x (List.mem_of_getElem? hx)
  ledger := by
    rw [hruns, List.map_set]
    exact hledger
  permits := by
    have hset := countP_set_add (fun x => x.point.hasPermit) hx { x with point := pt }
    rw [← hr.permits, ← hruns] at hset
    dsimp only at hset
    omega
  permits_le := hle
  watched := by
    intro k hk
    rw [hruns]
    have hi : i < r.runs.length := (List.getElem?_eq_some_iff.1 hx).1
    rcases hlive k hk with hk | ⟨hk, hne⟩
    · exact ⟨_, List.mem_set hi _, hk⟩
    · obtain ⟨y, hy, hyk⟩ := hr.watched k hk
      obtain ⟨j, hj⟩ := List.getElem?_of_mem hy
      have hij : i ≠ j := by
        rintro rfl
        obtain rfl : x = y := Option.some_inj.1 (hx.symm.trans hj)
        exact hne hyk
      exact ⟨y, List.mem_of_getElem? (i := j) ((List.getElem?_set_ne hij).trans hj), hyk⟩

/-- A step that takes and gives back neither lock nor permit. -/
theorem Bounded.walk (hr : Bounded n known r) (hx : r.runs[i]? = some x)
    (hruns : r'.runs = (r.goTo i pt).runs) (hlocks : r'.locks = r.locks)
    (hlive : ∀ k, r'.isLive k = true →
      pt.process? = some k ∨ r.isLive k = true ∧ x.point.process? ≠ some k)
    (hstage : pt.stage = x.point.stage := by rfl) (hpermit : pt.hasPermit = x.point.hasPermit := by rfl)
    (hlimit : r'.limit = r.limit := by rfl) (hpermits : r'.permits = r.permits := by rfl) :
    Bounded n known r' := by
  refine hr.move hx (hruns.trans (runs_goTo hx pt)) hlimit ?_ (by rw [hpermits, hpermit])
    (hpermits ▸ hr.permits_le) hlive
  rw [hlocks, hstage]
  exact (callers_set hx).symm ▸ hr.ledger

/-- A step that leaves the processes alone too. -/
theorem Bounded.pass (hr : Bounded n known r) (hx : r.runs[i]? = some x)
    (hruns : r'.runs = (r.goTo i pt).runs := by rfl) (hlocks : r'.locks = r.locks := by rfl)
    (hprocesses : r'.processes = r.processes := by rfl)
    (hprocess : pt.process? = x.point.process? := by rfl) (hstage : pt.stage = x.point.stage := by rfl)
    (hpermit : pt.hasPermit = x.point.hasPermit := by rfl)
    (hlimit : r'.limit = r.limit := by rfl) (hpermits : r'.permits = r.permits := by rfl) :
    Bounded n known r' := by
  refine hr.walk hx hruns hlocks (fun k hk => ?_) hstage hpermit hlimit hpermits
  have hk' : r.isLive k = true := by
    rwa [isLive, ← hprocesses]
  rw [hprocess]
  exact (em (x.point.process? = some k)).imp_right fun hne => ⟨hk', hne⟩

/-- A step that changes the lock of the run's project. -/
theorem Bounded.relock (hr : Bounded n known r) (hx : r.runs[i]? = some x)
    (hruns : r'.runs = (r.goTo i pt).runs)
    (hledger : Ledger r'.locks ((r.runs.map Run.caller).set i ⟨x.project.path, pt.stage⟩))
    (hprocess : x.point.process? = none := by rfl) (hbefore : x.point.hasPermit = false := by rfl)
    (hafter : pt.hasPermit = false := by rfl) (hprocesses : r'.processes = r.processes := by rfl)
    (hlimit : r'.limit = r.limit := by rfl) (hpermits : r'.permits = r.permits := by rfl) :
    Bounded n known r' := by
  refine hr.move hx (hruns.trans (runs_goTo hx pt)) hlimit hledger (by rw [hpermits, hbefore, hafter])
    (hpermits ▸ hr.permits_le) fun k hk => Or.inr ⟨?_, by simp [hprocess]⟩
  rwa [isLive, ← hprocesses]

/-- A run that has the lock of its project takes a permit. -/
theorem Bounded.permit {cell retries : Nat} (hr : Bounded n known r) (hx : r.runs[i]? = some x)
    (hruns : r'.runs = (r.goTo i (.attempt cell retries)).runs) (hstage : x.point.stage = .holding cell)
    (hbefore : x.point.hasPermit = false) (hprocess : x.point.process? = none)
    (hfree : r.permits < r.limit) (hlocks : r'.locks = r.locks := by rfl)
    (hprocesses : r'.processes = r.processes := by rfl) (hlimit : r'.limit = r.limit := by rfl)
    (hpermits : r'.permits = r.permits + 1 := by rfl) : Bounded n known r' := by
  refine hr.move hx (hruns.trans (runs_goTo hx _)) hlimit ?_ (by rw [hpermits, hbefore]; rfl) ?_
    fun k hk => Or.inr ⟨?_, by simp [hprocess]⟩
  · have hcaller : x.caller = ⟨x.project.path, (Point.attempt cell retries).stage⟩ := by
      rw [Run.caller, hstage]
      rfl
    rw [hlocks, ← hcaller, callers_set hx]
    exact hr.ledger
  · rw [hpermits, ← hr.limit]
    exact hfree
  · rwa [isLive, ← hprocesses]

theorem bounded_acquireStep {project : Graph.ProjectRef} {cell : Nat} (hr : Bounded n known r)
    (hx : r.runs[i]? = some ⟨project, .acquire cell⟩) : Bounded n known (r.acquireStep i cell) := by
  unfold acquireStep
  split
  · exact hr.pass hx
  · split
    · rename_i hfree
      simp only [Bool.and_eq_true, decide_eq_true_eq] at hfree
      exact hr.permit hx rfl rfl rfl rfl hfree.1
    · exact hr.pass hx

theorem bounded_queuedStep {project : Graph.ProjectRef} {cell : Nat} (hr : Bounded n known r)
    (hx : r.runs[i]? = some ⟨project, .queued cell⟩) (hready : (r.cancelled || r.isFirst i) = true) :
    Bounded n known (r.queuedStep i cell) := by
  simp only [queuedStep]
  split
  · exact hr.pass hx
  · rename_i hcancelled
    have hfirst : r.isFirst i = true := by simpa [hcancelled] using hready
    simp only [isFirst, Bool.and_eq_true, decide_eq_true_eq] at hfirst
    exact hr.permit hx rfl rfl rfl rfl hfirst.1

theorem bounded_attemptStep {project : Graph.ProjectRef} {cell retries : Nat} (hr : Bounded n known r)
    (hx : r.runs[i]? = some ⟨project, .attempt cell retries⟩) (e : Surroundings) :
    Bounded n known (r.attemptStep i cell retries project e).1 := by
  simp only [attemptStep]
  split
  · exact hr.pass hx
  · refine hr.walk hx rfl rfl fun k hk => ?_
    rcases isLive_of_append rfl hk with hk | rfl
    · exact Or.inr ⟨hk, by simp [Point.process?]⟩
    · exact Or.inl rfl

/-- A run lets go of its process only when it has exited. -/
theorem bounded_watchStep {project : Graph.ProjectRef} {cell retries : Nat} {tool : Watch}
    (hr : Bounded n known r) (hx : r.runs[i]? = some ⟨project, .watch cell retries tool⟩)
    (e : Surroundings) : Bounded n known (r.watchStep i cell retries tool project e).1 := by
  unfold watchStep
  split
  · rename_i hwake
    have hexited : r.hasHappened e.now tool .exited = true := List.find?_some hwake
    have hlive : ∀ k, r.isLive k = true → r.isLive k = true ∧ some tool.process ≠ some k := by
      rintro k hk
      refine ⟨hk, ?_⟩
      rintro ⟨⟩
      exact not_isLive_of_hasExited hexited hk
    simp only [afterExit]
    split
    · exact hr.walk hx rfl rfl fun k hk => Or.inr (hlive k hk)
    · exact hr.walk hx rfl rfl fun k hk => Or.inr (hlive k hk)
  · exact hr.pass hx
  · simp only [tickStep]
    split
    · exact hr.pass hx
    · exact hr.pass hx
  · exact hr

/-- A run tells its process to terminate, and watches it on. -/
theorem bounded_terminate {process : Nat} (hr : Bounded n known r) (hx : r.runs[i]? = some x)
    (hbefore : x.point.process? = some process) (hafter : pt.process? = some process)
    (hstage : pt.stage = x.point.stage) (hpermit : pt.hasPermit = x.point.hasPermit) :
    Bounded n known ((r.markTerminated process).goTo i pt) := by
  refine hr.walk hx rfl rfl (fun k hk => ?_) hstage hpermit
  have hk' : r.isLive k = true := isLive_of_modify rfl (by exact fun _ h => h) hk
  rw [hbefore, hafter]
  exact (em (some process = some k)).imp_right fun hne => ⟨hk', hne⟩

theorem bounded_act (hr : Bounded n known r) (hx : r.runs[i]? = some x)
    (hready : r.isReady e.now i x.point = true) : Bounded n known (r.act i x e).1 := by
  obtain ⟨project, point⟩ := x
  have hcaller : (r.runs.map Run.caller)[i]? = some ⟨project.path, point.stage⟩ := by
    rw [List.getElem?_map, hx]
    rfl
  cases point with
  | entry => exact hr.pass hx
  | register => exact hr.relock hx rfl (hr.ledger.register hcaller)
  | lock cell => exact hr.relock hx rfl (hr.ledger.lock hcaller hready)
  | acquire cell => exact bounded_acquireStep hr hx
  | queued cell => exact bounded_queuedStep hr hx hready
  | attempt cell retries => exact bounded_attemptStep hr hx e
  | watch cell retries tool => exact bounded_watchStep hr hx e
  | kill cell retries tool => exact bounded_terminate hr hx rfl rfl rfl rfl
  | abort cell process => exact bounded_terminate hr hx rfl rfl rfl rfl
  | reap cell process =>
      refine hr.walk hx rfl rfl fun k hk => Or.inr ⟨hk, ?_⟩
      rintro ⟨⟩
      exact not_isLive_of_hasExited hready hk
  | release cell code =>
      have hpos : 0 < r.permits := by
        rw [hr.permits]
        exact List.countP_pos_iff.2 ⟨_, List.mem_of_getElem? hx, rfl⟩
      have hle := hr.permits_le
      refine hr.move hx (runs_goTo hx (.unlock cell code)) rfl ?_ ?_ ?_ fun k hk => Or.inr ⟨hk, ?_⟩
      · exact (callers_set hx).symm ▸ hr.ledger
      · change r.permits - 1 + 1 = r.permits + 0
        omega
      · change r.permits - 1 ≤ n
        omega
      · simp [Point.process?]
  | unlock cell code => exact hr.relock hx rfl (hr.ledger.unlock hcaller)
  | unregister cell code => exact hr.relock hx rfl (hr.ledger.unregister hcaller)
  | announce code => exact hr.pass hx
  | conclude code =>
      simp only [act, concludeStep]
      split
      · exact hr.pass hx
      · exact hr.pass hx
  | tell => exact hr.pass hx
  | done => exact hr

/-! ### Everything else that happens -/

theorem bounded_step (hr : Bounded n known r) (i : Nat) (e : Surroundings) :
    Bounded n known ((r.step i e).map (·.1) |>.getD r) := by
  unfold step
  split
  · rename_i x hx
    split
    · exact bounded_act hr hx ‹_›
    · exact hr
  · exact hr

theorem bounded_run {project : Graph.ProjectRef} (hr : Bounded n known r) (hproject : known project) :
    Bounded n known (r.run project) := by
  unfold run
  split
  · exact {
      limit := hr.limit
      known := by
        intro x hx
        rcases List.mem_append.1 hx with hx | hx
        · exact hr.known x hx
        · rw [List.mem_singleton.1 hx]
          exact hproject
      ledger := by
        rw [List.map_append]
        exact hr.ledger.append project.path
      permits := by simpa [Point.hasPermit] using hr.permits
      permits_le := hr.permits_le
      watched := by
        intro k hk
        obtain ⟨x, hx, hxk⟩ := hr.watched k hk
        exact ⟨x, List.mem_append_left _ hx, hxk⟩ }
  · exact hr

theorem Bounded.modify {process : Nat} {f : Process → Process} (hr : Bounded n known r)
    (hf : ∀ p, (f p).exitCode = none → p.exitCode = none) :
    Bounded n known { r with processes := r.processes.modify process f } :=
  { hr with watched := fun k hk => hr.watched k (isLive_of_modify rfl hf hk) }

theorem bounded_exit (hr : Bounded n known r) (process : Nat) (code : Int) :
    Bounded n known (r.exit process code) :=
  hr.modify fun _ h => nomatch h

theorem bounded_output (hr : Bounded n known r) (process now : Nat) :
    Bounded n known (r.output process now) :=
  hr.modify fun _ h => h

theorem bounded_cancel (hr : Bounded n known r) : Bounded n known r.cancel :=
  { hr with }

theorem bounded_new (settings : Settings.Restore) (processors : Nat) :
    Bounded (limitOf settings processors) known (new settings processors) where
  limit := rfl
  known := by simp [new]
  ledger := Ledger.empty
  permits := rfl
  permits_le := Nat.zero_le _
  watched := by simp [isLive, new]

end CompilationBridge.Restores
