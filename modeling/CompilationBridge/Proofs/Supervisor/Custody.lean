import CompilationBridge.Proofs.Supervisor.Runs
import Mathlib.Data.Finset.Card

/-! No host process is lost. A process that has neither exited nor been told to terminate is loose. In
every reachable state at most one process is loose, and it is the one in use or a call to stop is about
to terminate it. When the call that stopped the supervisor has returned, none is loose.

The argument goes by `Custody`: at most one worker is busy with a host, and where that worker stands
says what it knows about the process in use. -/

namespace CompilationBridge.Supervisor

/-- Whether a process runs and was not told to terminate. -/
def isLoose (s : Supervisor) (process : Nat) : Bool :=
  (s.processes[process]?).any fun p => p.exitCode.isNone && !p.terminated

def loose (s : Supervisor) : List Nat :=
  (List.range s.processes.length).filter s.isLoose

/-- Whether a worker that stands here is busy with a host: a call to start that was let in, or the
restarting loop. -/
def Point.isBusy : Point → Bool
  | .entry | .halt | .terminate _ | .join _ | .done => false
  | _ => true

variable {s s' : Supervisor} {i j k : Nat} {w v : Worker} {e : Surroundings} {pt : Point}

theorem isLoose_iff : s.isLoose k = true ↔
    ∃ p, s.processes[k]? = some p ∧ p.exitCode = none ∧ p.terminated = false := by
  simp [isLoose, Option.any_eq_true]

theorem mem_loose : k ∈ s.loose ↔ s.isLoose k = true := by
  simp only [loose, List.mem_filter, List.mem_range, and_iff_right_iff_imp, isLoose_iff]
  rintro ⟨p, hp, -⟩
  exact (List.getElem?_eq_some_iff.1 hp).1

theorem not_isLoose_of_hasExited (h : s.hasExited k = true) : s.isLoose k = false := by
  rw [Bool.eq_false_iff, Ne, isLoose_iff]
  rintro ⟨p, hp, hcode, -⟩
  simp [hasExited, exitCode?, hp, hcode] at h

@[simp] theorem isLoose_markTerminated (s : Supervisor) (process : Nat) :
    (s.markTerminated process).isLoose k = (s.isLoose k && k ≠ process) := by
  rw [isLoose, isLoose, markTerminated, List.getElem?_modify]
  by_cases h : process = k
  · subst h
    cases s.processes[process]? <;> simp
  · have h' : k ≠ process := fun heq => h heq.symm
    simp [h, h']

theorem isLoose_of_exit {process : Nat} {code : Int} (h : (s.exit process code).isLoose k = true) :
    s.isLoose k = true := by
  obtain ⟨p, hp, hcode, hterm⟩ := isLoose_iff.1 h
  rw [Supervisor.exit, List.getElem?_modify] at hp
  by_cases hk : process = k
  · obtain ⟨q, -, rfl⟩ : ∃ q, s.processes[k]? = some q ∧
        ({ q with exitCode := some (q.exitCode.getD code) } : Process) = p := by
      simpa [hk] using hp
    simp at hcode
  · exact isLoose_iff.2 ⟨p, by simpa [hk] using hp, hcode, hterm⟩

/-! ### Where a worker stands -/

/-- The process is the one in use, unless a call to stop took it over. -/
def Holds (s : Supervisor) (process : Nat) : Prop :=
  s.phase = .stopped ∨ s.phase ≠ .idle ∧ s.current = some process

/-- What a worker knows about the supervisor from where it stands. -/
def Footing (s : Supervisor) (w : Worker) : Prop :=
  match w.point with
  | .launch | .report _ | .throttle | .reserve | .pause _ => s.phase ≠ .idle ∧ s.current = none
  | .greet process | .check process _ | .probe process _ | .confirm process | .decide process _
  | .asleep process _ _ | .expire process | .settle process | .await process => s.Holds process
  | .giveUp process => s.Holds process ∧ s.isLoose process = false
  | .call _ | .calling _ | .enlist | .watch => s.phase ≠ .idle
  | .halt => w.role = .stopper
  | .terminate _ => w.role = .stopper ∧ s.phase = .stopped
  | .entry | .join _ | .done => True

/-- At most one worker stands at a point of this kind. -/
def AtMostOne (kind : Point → Bool) (workers : List Worker) : Prop :=
  ∀ (i j : Nat) (w v : Worker), workers[i]? = some w → workers[j]? = some v →
    kind w.point = true → kind v.point = true → i = j

structure Custody (s : Supervisor) : Prop where
  busy : AtMostOne Point.isBusy s.workers
  seizing : AtMostOne Point.isSeizing s.workers
  footing : ∀ w ∈ s.workers, s.Footing w
  /-- No process is in use before the first start, after a failed one and after a stop. -/
  unused : s.phase = .idle ∨ s.phase = .stopped → s.current = none
  /-- A loose process is the one in use, or about to be terminated. -/
  kept : ∀ k, s.isLoose k = true → s.current = some k ∨ ∃ w ∈ s.workers, w.point = .terminate k

theorem Holds.phase_ne_idle (h : s.Holds k) : s.phase ≠ .idle := by
  rcases h with h | h
  · rw [h]
    decide
  · exact h.1

/-- A busy worker is not met before the first start or after a failed one. -/
theorem Footing.phase_ne_idle (h : s.Footing w) (hw : w.point.isBusy = true) : s.phase ≠ .idle := by
  unfold Footing at h
  cases hp : w.point <;> simp only [hp, Point.isBusy, Bool.false_eq_true] at h hw <;>
    first | exact h.phase_ne_idle | exact h.1.phase_ne_idle | exact h.1 | exact h

theorem Footing.stopped (h : s.Footing w) (hw : w.point.isSeizing = true) : s.phase = .stopped := by
  unfold Footing at h
  cases hp : w.point <;> simp only [hp, Point.isSeizing, Bool.false_eq_true] at h hw
  exact h.2

/-- A worker that is not busy keeps its footing unless the supervisor leaves its final phase. -/
theorem Footing.of_not_busy (h : s.Footing w) (hw : w.point.isBusy = false)
    (hstopped : s.phase = .stopped → s'.phase = .stopped) : s'.Footing w := by
  unfold Footing at h ⊢
  cases hp : w.point <;> simp only [hp, Point.isBusy, Bool.true_eq_false] at h hw ⊢
  case halt => exact h
  case terminate => exact ⟨h.1, hstopped h.2⟩

/-- A stop takes the footing from nobody. -/
theorem Footing.mono (h : s.Footing w) (hloose : ∀ k, s'.isLoose k = true → s.isLoose k = true)
    (hphase : s'.phase = s.phase ∧ s'.current = s.current ∨ s'.phase = .stopped ∧ s'.current = none) :
    s'.Footing w := by
  have hne : s.phase ≠ .idle → s'.phase ≠ .idle := by
    rcases hphase with ⟨h1, -⟩ | ⟨h1, -⟩ <;> simp [h1]
  have hholds : ∀ k, s.Holds k → s'.Holds k := by
    intro k hk
    rcases hphase with ⟨h1, h2⟩ | ⟨h1, -⟩
    · rwa [Holds, h1, h2]
    · exact Or.inl h1
  have hnone : s.current = none → s'.current = none := by
    rcases hphase with ⟨-, h2⟩ | ⟨-, h2⟩ <;> simp [h2]
  have hstopped : s.phase = .stopped → s'.phase = .stopped := by
    rcases hphase with ⟨h1, -⟩ | ⟨h1, -⟩ <;> simp [h1]
  unfold Footing at h ⊢
  cases hp : w.point <;> simp only [hp] at h ⊢
  case giveUp k => exact ⟨hholds k h.1, Bool.eq_false_iff.2 fun hk => Bool.eq_false_iff.1 h.2 (hloose k hk)⟩
  case terminate => exact ⟨h.1, hstopped h.2⟩
  case halt => exact h
  all_goals first | exact hne h | exact ⟨hne h.1, hnone h.2⟩ | exact hholds _ h

/-! ### Moving one worker -/

theorem AtMostOne.modify {kind : Point → Bool} {workers : List Worker} (h : AtMostOne kind workers)
    (hpt : kind pt = true → ∀ j v, workers[j]? = some v → kind v.point = true → j = i) :
    AtMostOne kind (workers.modify i fun w => { w with point := pt }) := by
  intro a b x y ha hb hx hy
  simp only [List.getElem?_modify] at ha hb
  by_cases hai : i = a <;> by_cases hbi : i = b
  · omega
  · obtain ⟨x', -, rfl⟩ : ∃ x', workers[a]? = some x' ∧ ({ x' with point := pt } : Worker) = x := by
      simpa [hai] using ha
    exact absurd (hpt hx b y (by simpa [hbi] using hb) hy) (Ne.symm hbi)
  · obtain ⟨y', -, rfl⟩ : ∃ y', workers[b]? = some y' ∧ ({ y' with point := pt } : Worker) = y := by
      simpa [hbi] using hb
    exact absurd (hpt hy a x (by simpa [hai] using ha) hx) (Ne.symm hai)
  · exact h a b x y (by simpa [hai] using ha) (by simpa [hbi] using hb) hx hy

theorem AtMostOne.append {kind : Point → Bool} {workers : List Worker} (h : AtMostOne kind workers)
    (hw : kind w.point = true → ∀ v ∈ workers, kind v.point = false) :
    AtMostOne kind (workers ++ [w]) := by
  intro a b x y ha hb hx hy
  rw [List.getElem?_append] at ha hb
  split at ha <;> split at hb
  · exact h a b x y ha hb hx hy
  · obtain ⟨-, rfl⟩ : b - workers.length = 0 ∧ w = y := by simpa [List.getElem?_singleton] using hb
    have := hw hy x (List.mem_of_getElem? ha)
    simp [hx] at this
  · obtain ⟨-, rfl⟩ : a - workers.length = 0 ∧ w = x := by simpa [List.getElem?_singleton] using ha
    have := hw hx y (List.mem_of_getElem? hb)
    simp [hy] at this
  · obtain ⟨hzero, -⟩ : a - workers.length = 0 ∧ w = x := by simpa [List.getElem?_singleton] using ha
    obtain ⟨hzero', -⟩ : b - workers.length = 0 ∧ w = y := by simpa [List.getElem?_singleton] using hb
    omega

/-- One worker goes to another point, and the supervisor changes with it. -/
theorem Custody.move (hs : Custody s) (hw : s.workers[i]? = some w)
    (hworkers : s'.workers = s.workers.modify i fun w => { w with point := pt })
    (hbusy : pt.isBusy = true → ∀ j v, s.workers[j]? = some v → v.point.isBusy = true → j = i)
    (hseizing : pt.isSeizing = true →
      ∀ j v, s.workers[j]? = some v → v.point.isSeizing = true → j = i)
    (hfoot : s'.Footing { w with point := pt })
    (hothers : ∀ j v, s.workers[j]? = some v → j ≠ i → s'.Footing v)
    (hunused : s'.phase = .idle ∨ s'.phase = .stopped → s'.current = none)
    (hkept : ∀ k, s'.isLoose k = true →
      s'.current = some k ∨ ∃ w ∈ s'.workers, w.point = .terminate k) : Custody s' where
  busy := by
    rw [hworkers]
    exact hs.busy.modify hbusy
  seizing := by
    rw [hworkers]
    exact hs.seizing.modify hseizing
  footing := by
    intro v hv
    obtain ⟨j, hj⟩ := List.getElem?_of_mem hv
    rw [hworkers, List.getElem?_modify] at hj
    by_cases hij : i = j
    · subst hij
      obtain rfl : ({ w with point := pt } : Worker) = v := by simpa [hw] using hj
      exact hfoot
    · exact hothers j v (by simpa [hij] using hj) (Ne.symm hij)
  unused := hunused
  kept := hkept

/-- A loose process stays in its hands when a worker moves that was not about to terminate it. -/
theorem Custody.kept_modify (hs : Custody s) (hw : s.workers[i]? = some w) (hk : s.isLoose k = true)
    (hne : w.point ≠ .terminate k) : s.current = some k ∨
      ∃ v ∈ s.workers.modify i fun w => { w with point := pt }, v.point = .terminate k := by
  refine (hs.kept k hk).imp_right ?_
  rintro ⟨v, hv, hvk⟩
  obtain ⟨j, hj⟩ := List.getElem?_of_mem hv
  have hij : i ≠ j := by
    rintro rfl
    obtain rfl : w = v := Option.some_inj.1 (hw.symm.trans hj)
    exact hne hvk
  exact ⟨v, List.mem_of_getElem? (i := j) (by simpa [List.getElem?_modify, hij] using hj), hvk⟩

/-- A worker goes on or ends, and phase and process in use stay. -/
theorem Custody.walk (hs : Custody s) (hw : s.workers[i]? = some w)
    (hworkers : s'.workers = s.workers.modify i fun w => { w with point := pt })
    (hpt : pt.isSeizing = false) (hbusy : pt.isBusy = true → w.point.isBusy = true)
    (hfoot : s'.Footing { w with point := pt })
    (hphase : s'.phase = s.phase) (hcurrent : s'.current = s.current)
    (hloose : ∀ k, s'.isLoose k = true → s.isLoose k = true ∧ w.point ≠ .terminate k) :
    Custody s' := by
  refine hs.move hw hworkers ?_ (by simp [hpt]) hfoot ?_ ?_ ?_
  · exact fun h j v hv hvbusy => hs.busy j i v w hv hw hvbusy (hbusy h)
  · exact fun j v hv _ => (hs.footing v (List.mem_of_getElem? hv)).mono
      (fun k hk => (hloose k hk).1) (Or.inl ⟨hphase, hcurrent⟩)
  · rw [hphase, hcurrent]
    exact hs.unused
  · intro k hk
    rw [hworkers, hcurrent]
    exact hs.kept_modify hw (hloose k hk).1 (hloose k hk).2

/-- The busy worker goes on or ends, and the supervisor changes its phase with it. No process becomes
loose but the one in use, and one that stays loose was not taken out of use. -/
theorem Custody.advance (hs : Custody s) (hw : s.workers[i]? = some w) (hbusy : w.point.isBusy = true)
    (hworkers : s'.workers = s.workers.modify i fun w => { w with point := pt })
    (hpt : pt.isSeizing = false) (hfoot : s'.Footing { w with point := pt })
    (hstopped : s.phase ≠ .stopped)
    (hunused : s'.phase = .idle ∨ s'.phase = .stopped → s'.current = none)
    (hloose : ∀ k, s'.isLoose k = true →
      s'.current = some k ∨ s.isLoose k = true ∧ s.current ≠ some k) : Custody s' := by
  have hsole : ∀ j v, s.workers[j]? = some v → v.point.isBusy = true → j = i :=
    fun j v hv hvbusy => hs.busy j i v w hv hw hvbusy hbusy
  refine hs.move hw hworkers (fun _ => hsole) (by simp [hpt]) hfoot ?_ hunused ?_
  · intro j v hv hji
    have hvbusy : v.point.isBusy = false := by
      rw [Bool.eq_false_iff]
      exact fun h => hji (hsole j v hv h)
    exact (hs.footing v (List.mem_of_getElem? hv)).of_not_busy hvbusy fun h => absurd h hstopped
  · intro k hk
    rcases hloose k hk with hcur | ⟨hk, hcur⟩
    · exact Or.inl hcur
    · have hne : w.point ≠ .terminate k := by
        intro h
        rw [h] at hbusy
        cases hbusy
      rw [hworkers]
      exact Or.inr ((hs.kept_modify hw hk hne).resolve_left hcur)

/-- A worker comes in. -/
theorem Custody.enroll (hs : Custody s) (hpt : w.point.isSeizing = false)
    (hbusy : w.point.isBusy = true → ∀ v ∈ s.workers, v.point.isBusy = false)
    (hfoot : s.Footing w) : Custody { s with workers := s.workers ++ [w] } where
  busy := hs.busy.append hbusy
  seizing := hs.seizing.append (by simp [hpt])
  footing := by
    intro v hv
    rcases List.mem_append.1 hv with hv | hv
    · exact hs.footing v hv
    · rw [List.mem_singleton.1 hv]
      exact hfoot
  unused := hs.unused
  kept := by
    intro k hk
    refine (hs.kept k hk).imp_right ?_
    rintro ⟨v, hv, hvk⟩
    exact ⟨v, List.mem_append_left _ hv, hvk⟩

/-! ### One step -/

/-- A worker that is not about to terminate a process may end. -/
theorem Custody.leave (hs : Custody s) (hw : s.workers[i]? = some w)
    (hpt : w.point.isSeizing = false) : Custody (s.goTo i .done) := by
  refine hs.walk hw rfl rfl (by simp [Point.isBusy]) trivial rfl rfl fun k hk => ⟨hk, ?_⟩
  intro h
  simp [h, Point.isSeizing] at hpt

theorem custody_enter (hs : Custody s) (hw : s.workers[i]? = some w) (hp : w.point = .entry)
    (role : Role) : Custody (s.enter i role).1 := by
  have hleave : Custody (s.goTo i .done) := hs.leave hw (by simp [hp, Point.isSeizing])
  unfold enter
  split
  · rename_i hidle
    have hnone : ∀ v ∈ s.workers, v.point.isBusy = false := by
      intro v hv
      rw [Bool.eq_false_iff]
      exact fun hbusy => (hs.footing v hv).phase_ne_idle hbusy hidle
    have hcur : s.current = none := hs.unused (Or.inl hidle)
    refine hs.move hw rfl ?_ (by simp [Point.isSeizing]) ⟨by simp, hcur⟩ ?_ (fun _ => hcur) ?_
    · intro _ j v hv hbusy
      simp [hnone v (List.mem_of_getElem? hv)] at hbusy
    · intro j v hv _
      exact (hs.footing v (List.mem_of_getElem? hv)).of_not_busy
        (hnone v (List.mem_of_getElem? hv)) (by simp [hidle])
    · exact fun k hk => hs.kept_modify hw hk (by simp [hp])
  · exact hleave
  · exact hleave

/-- As long as the supervisor is not stopped, only the process in use can be loose. -/
theorem Custody.current_of_isLoose (hs : Custody s) (hphase : s.phase ≠ .stopped)
    (hk : s.isLoose k = true) : s.current = some k := by
  refine (hs.kept k hk).resolve_right ?_
  rintro ⟨v, hv, hvk⟩
  exact hphase ((hs.footing v hv).stopped (by rw [hvk]; rfl))

/-- A process that was just launched is the only one to become loose. -/
theorem isLoose_append {p : Process}
    (hprocesses : s'.processes = s.processes ++ [p]) (hk : s'.isLoose k = true) :
    s.isLoose k = true ∨ k = s.processes.length := by
  obtain ⟨q, hq, hloose⟩ := isLoose_iff.1 hk
  rw [hprocesses, List.getElem?_append] at hq
  split at hq
  · exact Or.inl (isLoose_iff.2 ⟨q, hq, hloose⟩)
  · have := (List.getElem?_eq_some_iff.1 hq).1
    simp at this
    omega

theorem custody_launchStep (hs : Custody s) (hw : s.workers[i]? = some w) (hp : w.point = .launch)
    (e : Surroundings) : Custody (s.launchStep i w e).1 := by
  have hbusy : w.point.isBusy = true := by rw [hp]; rfl
  have hfoot := hs.footing w (List.mem_of_getElem? hw)
  simp only [Footing, hp] at hfoot
  obtain ⟨hidle, hcur⟩ := hfoot
  unfold launchStep
  split
  · exact hs.leave hw (by simp [hp, Point.isSeizing])
  · rename_i hstopped
    have hnone (k : Nat) : s.isLoose k ≠ true := fun hk => by
      simpa [hcur] using hs.current_of_isLoose hstopped hk
    split
    · exact hs.advance hw hbusy rfl rfl trivial hstopped (fun _ => hcur) fun k hk => (hnone k hk).elim
    · exact hs.advance hw hbusy rfl rfl trivial hstopped (fun _ => hcur) fun k hk => (hnone k hk).elim
    · refine hs.advance hw hbusy rfl rfl (Or.inr ⟨by simp, rfl⟩) hstopped (by simp) fun k hk => ?_
      have hk' := (isLoose_append rfl hk).resolve_left (hnone k)
      exact Or.inl (congrArg some hk'.symm)

theorem custody_giveUpStep {process : Nat} (hs : Custody s) (hw : s.workers[i]? = some w)
    (hp : w.point = .giveUp process) (role : Role) : Custody (s.giveUpStep i role process).1 := by
  have hfoot := hs.footing w (List.mem_of_getElem? hw)
  simp only [Footing, hp] at hfoot
  obtain ⟨hholds, hloose⟩ := hfoot
  by_cases hstopped : s.phase = .stopped
  · have hcur := hs.unused (Or.inr hstopped)
    refine hs.walk hw rfl rfl (by simp [Point.isBusy]) trivial ?_ ?_ fun k hk => ⟨hk, by simp [hp]⟩
    · simp [giveUpStep, hstopped]
    · simp [giveUpStep, hcur]
  · obtain ⟨-, hcur⟩ := hholds.resolve_left hstopped
    refine hs.advance hw (by rw [hp]; rfl) rfl rfl trivial hstopped ?_ ?_
    · simp [giveUpStep, hcur]
    · intro k hk
      refine Or.inr ⟨hk, ?_⟩
      rw [hcur]
      rintro ⟨⟩
      exact Bool.eq_false_iff.1 hloose hk

theorem custody_wakeStep {process : Nat} (hs : Custody s) (hw : s.workers[i]? = some w)
    (hp : w.point = .await process) (hexited : s.hasExited process = true) (role : Role) :
    Custody (s.wakeStep i role process).1 := by
  have hfoot := hs.footing w (List.mem_of_getElem? hw)
  simp only [Footing, hp] at hfoot
  unfold wakeStep
  split
  · exact hs.leave hw (by simp [hp, Point.isSeizing])
  · rename_i hstopped
    obtain ⟨-, hcur⟩ := hfoot.resolve_left hstopped
    refine hs.advance hw (by rw [hp]; rfl) rfl rfl ⟨by simp, rfl⟩ hstopped (by simp) fun k hk => ?_
    refine Or.inr ⟨hk, ?_⟩
    rw [hcur]
    rintro ⟨⟩
    exact Bool.eq_false_iff.1 (not_isLoose_of_hasExited hexited) hk

/-- The stop takes over the process in use, so that it is in the hands of that call alone. -/
theorem custody_haltStep (hs : Custody s) (hw : s.workers[i]? = some w) (hp : w.point = .halt)
    (role : Role) : Custody (s.haltStep i role).1 := by
  have hrole := hs.footing w (List.mem_of_getElem? hw)
  simp only [Footing, hp] at hrole
  unfold haltStep
  split
  · exact hs.leave hw (by simp [hp, Point.isSeizing])
  · rename_i hstopped
    have hfree : ∀ j v, s.workers[j]? = some v → v.point.isSeizing = true → j = i := by
      intro j v hv hseizing
      exact absurd ((hs.footing v (List.mem_of_getElem? hv)).stopped hseizing) hstopped
    have hothers (j : Nat) (v : Worker) (hv : s.workers[j]? = some v) (next : Point) :
        Footing ({ s with phase := .stopped, current := none }.goTo i next) v :=
      (hs.footing v (List.mem_of_getElem? hv)).mono (fun _ hk => hk) (Or.inr ⟨rfl, rfl⟩)
    cases hcur : s.current with
    | none =>
        refine hs.move hw rfl (by simp [Point.isBusy]) (by simp [Point.isSeizing]) trivial
          (fun j v hv _ => hothers j v hv _) (fun _ => rfl) fun k hk => ?_
        simpa [hcur] using hs.current_of_isLoose hstopped hk
    | some process =>
        refine hs.move hw rfl (by simp [Point.isBusy]) (fun _ => hfree) ⟨hrole, rfl⟩
          (fun j v hv _ => hothers j v hv _) (fun _ => rfl) fun k hk => ?_
        refine Or.inr ⟨{ w with point := .terminate process }, ?_, ?_⟩
        · exact List.mem_of_getElem? (i := i) (by simp [getElem?_goTo, hw])
        · have := hs.current_of_isLoose hstopped hk
          rw [hcur, Option.some_inj] at this
          rw [this]

/-- The step of a busy worker that leaves phase, process in use and processes alone. -/
theorem Custody.goTo {t : Supervisor} (hs : Custody s) (hw : s.workers[i]? = some w)
    (hfoot : s.Footing { w with point := pt }) (hbusy : w.point.isBusy = true := by rfl)
    (hpt : pt.isSeizing = false := by rfl) (hworkers : t.workers = s.workers := by rfl)
    (hphase : t.phase = s.phase := by rfl) (hcurrent : t.current = s.current := by rfl)
    (hprocesses : t.processes = s.processes := by rfl) : Custody (t.goTo i pt) := by
  have hsame (k : Nat) : (t.goTo i pt).isLoose k = s.isLoose k := by simp [isLoose, hprocesses]
  refine hs.walk hw (congrArg _ hworkers) hpt (fun _ => hbusy) ?_ hphase hcurrent fun k hk => ?_
  · exact hfoot.mono (fun k hk => hsame k ▸ hk) (Or.inl ⟨hphase, hcurrent⟩)
  · refine ⟨hsame k ▸ hk, fun h => ?_⟩
    rw [h] at hbusy
    cases hbusy

theorem goTo_append (hi : i < s.workers.length) (w : Worker) (pt : Point) :
    { s with workers := s.workers ++ [w] }.goTo i pt =
      { s.goTo i pt with workers := (s.goTo i pt).workers ++ [w] } := by
  simp only [Supervisor.goTo, mk.injEq, true_and, and_true]
  refine List.ext_getElem? fun j => ?_
  simp only [List.getElem?_modify, List.getElem?_append, List.length_modify]
  split <;> split <;> simp
  omega

/-- The loop takes over from the call to start that enlists it. -/
theorem custody_enlist (hs : Custody s) (hw : s.workers[i]? = some w) (hp : w.point = .enlist)
    (hostId : String) :
    Custody ({ s with workers := s.workers ++ [(⟨.keeper, hostId, .watch⟩ : Worker)] }.goTo i .done) := by
  have hfoot := hs.footing w (List.mem_of_getElem? hw)
  simp only [Footing, hp] at hfoot
  rw [goTo_append (List.getElem?_eq_some_iff.1 hw).1]
  refine (hs.leave hw (by rw [hp]; rfl)).enroll rfl ?_ hfoot
  intro _ v hv
  obtain ⟨j, hj⟩ := List.getElem?_of_mem hv
  rw [getElem?_goTo] at hj
  rw [Bool.eq_false_iff]
  intro hbusy
  split at hj
  · obtain ⟨u, -, rfl⟩ := Option.map_eq_some_iff.1 hj
    cases hbusy
  · have := hs.busy j i v w hj hw hbusy (by rw [hp]; rfl)
    omega

theorem custody_terminate {process : Nat} (hs : Custody s) (hw : s.workers[i]? = some w)
    (hp : w.point = .terminate process) (fault : Option Fault) :
    Custody ((s.markTerminated process).goTo i (.join fault)) := by
  refine hs.walk hw rfl rfl (by simp [Point.isBusy]) trivial rfl rfl fun k hk => ?_
  have hk' : s.isLoose k = true ∧ k ≠ process := by
    simpa using (isLoose_markTerminated s process).symm.trans hk
  refine ⟨hk'.1, ?_⟩
  rw [hp]
  rintro ⟨⟩
  exact hk'.2 rfl

theorem custody_expire {process : Nat} (hs : Custody s) (hw : s.workers[i]? = some w)
    (hp : w.point = .expire process) :
    Custody ((s.markTerminated process).goTo i (.giveUp process)) := by
  have hfoot := hs.footing w (List.mem_of_getElem? hw)
  simp only [Footing, hp] at hfoot
  have hloose (k : Nat) := isLoose_markTerminated (k := k) s process
  refine hs.walk hw rfl rfl (fun _ => by rw [hp]; rfl) ⟨hfoot, ?_⟩ rfl rfl fun k hk => ⟨?_, by simp [hp]⟩
  · exact (hloose process).trans (by simp)
  · have hk' : s.isLoose k = true ∧ k ≠ process := by simpa using (hloose k).symm.trans hk
    exact hk'.1

theorem custody_act (hs : Custody s) (hw : s.workers[i]? = some w)
    (hready : s.isReady e.now w.point = true) : Custody (s.act i w e).1 := by
  have hfoot := hs.footing w (List.mem_of_getElem? hw)
  obtain ⟨role, hostId, point⟩ := w
  cases point with
  | entry => exact custody_enter hs hw rfl role
  | launch => exact custody_launchStep hs hw rfl e
  | greet process => exact hs.goTo hw hfoot
  | check process deadline =>
      simp only [act]
      split
      · exact hs.goTo hw ⟨hfoot, not_isLoose_of_hasExited ‹_›⟩
      · exact hs.goTo hw hfoot
  | probe process deadline =>
      simp only [act]
      split <;> exact hs.goTo hw hfoot
  | confirm process =>
      simp only [act]
      split
      · exact hs.goTo hw ⟨hfoot, not_isLoose_of_hasExited ‹_›⟩
      · exact hs.goTo hw hfoot
  | decide process deadline =>
      simp only [act]
      split <;> exact hs.goTo hw hfoot
  | asleep process deadline wake => exact hs.goTo hw hfoot
  | expire process => exact custody_expire hs hw rfl
  | giveUp process => exact custody_giveUpStep hs hw rfl role
  | settle process =>
      simp only [act]
      split
      · exact hs.leave hw rfl
      · rename_i hstopped
        refine hs.advance hw rfl rfl rfl (by simp [Footing]) hstopped (by simp) fun k hk => ?_
        exact Or.inl (hs.current_of_isLoose hstopped hk)
  | call port => exact hs.goTo hw hfoot
  | calling port =>
      simp only [act]
      split <;> exact hs.goTo hw hfoot
  | enlist =>
      simp only [act]
      split
      · exact custody_enlist hs hw rfl hostId
      · exact hs.leave hw rfl
  | watch =>
      simp only [act]
      split
      · rename_i process hcur
        exact hs.goTo hw (Or.inr ⟨hfoot, hcur⟩)
      · exact hs.leave hw rfl
  | await process => exact custody_wakeStep hs hw rfl hready role
  | report process => exact hs.goTo hw hfoot
  | throttle =>
      simp only [act, throttleStep]
      split <;> exact hs.goTo hw hfoot
  | reserve =>
      simp only [act]
      split
      · exact hs.leave hw rfl
      · exact hs.goTo hw hfoot
  | pause wake =>
      simp only [act]
      split
      · exact hs.leave hw rfl
      · exact hs.goTo hw hfoot
  | halt => exact custody_haltStep hs hw rfl role
  | terminate process => exact custody_terminate hs hw rfl e.terminate
  | join fault => exact hs.leave hw rfl
  | done => exact hs

/-! ### Runs -/

theorem custody_exit (hs : Custody s) (process : Nat) (code : Int) : Custody (s.exit process code) where
  busy := hs.busy
  seizing := hs.seizing
  footing := fun w hw => (hs.footing w hw).mono (fun _ => isLoose_of_exit) (Or.inl ⟨rfl, rfl⟩)
  unused := hs.unused
  kept := fun k hk => hs.kept k (isLoose_of_exit hk)

theorem custody_take (s : Supervisor) (m : Move) (hs : Custody s) : Custody (s.take m).1 := by
  cases m with
  | start hostId => exact hs.enroll rfl (by simp [Point.isBusy]) trivial
  | stop => exact hs.enroll rfl (by simp [Point.isBusy]) rfl
  | exit process code => exact custody_exit hs process code
  | work i e =>
      rcases take_work s i e with heq | ⟨w, hw, hready, heq⟩ <;> rw [heq]
      · exact hs
      · exact custody_act hs hw hready

theorem custody_new (settings : Settings.Host) : Custody (new settings) where
  busy := by simp [AtMostOne, new]
  seizing := by simp [AtMostOne, new]
  footing := by simp [new]
  unused := fun _ => rfl
  kept := by simp [isLoose, new]

theorem Reachable.custody (hs : Reachable s) : Custody s := by
  obtain ⟨settings, moves, rfl⟩ := hs
  exact run_induction custody_take (custody_new settings) moves

theorem Custody.loose_unique {l : Nat} (hs : Custody s) (hk : s.isLoose k = true)
    (hl : s.isLoose l = true) : k = l := by
  by_cases hstopped : s.phase = .stopped
  · have hcur : s.current = none := hs.unused (Or.inr hstopped)
    obtain ⟨v, hv, hvk⟩ := (hs.kept k hk).resolve_left (by simp [hcur])
    obtain ⟨u, hu, hul⟩ := (hs.kept l hl).resolve_left (by simp [hcur])
    obtain ⟨a, ha⟩ := List.getElem?_of_mem hv
    obtain ⟨b, hb⟩ := List.getElem?_of_mem hu
    have hab : a = b :=
      hs.seizing a b v u ha hb (by simp [hvk, Point.isSeizing]) (by simp [hul, Point.isSeizing])
    subst hab
    obtain rfl : v = u := Option.some_inj.1 (ha.symm.trans hb)
    simpa [hvk] using hul
  · have hkl : some k = some l :=
      (hs.current_of_isLoose hstopped hk).symm.trans (hs.current_of_isLoose hstopped hl)
    exact Option.some_inj.1 hkl

theorem Custody.length_loose (hs : Custody s) : s.loose.length ≤ 1 := by
  have hnodup : s.loose.Nodup := List.nodup_range.filter _
  rw [← List.toFinset_card_of_nodup hnodup, Finset.card_le_one]
  intro k hk l hl
  rw [List.mem_toFinset, mem_loose] at hk hl
  exact hs.loose_unique hk hl

/-! ### Returning from the stop -/

/-- When the one call that may terminate a process has returned, no process is loose. -/
theorem Custody.loose_eq_nil (hs : Custody s) (hstopped : s.phase = .stopped)
    (hsole : ∀ j v, s.workers[j]? = some v → v.point.isSeizing = true → j = i)
    (hw : s.workers[i]? = some w) (hdone : w.point = .done) : s.loose = [] := by
  refine List.eq_nil_iff_forall_not_mem.2 fun k hk => ?_
  have hcur : s.current = none := hs.unused (Or.inr hstopped)
  obtain ⟨v, hv, hvk⟩ := (hs.kept k (mem_loose.1 hk)).resolve_left (by simp [hcur])
  obtain ⟨j, hj⟩ := List.getElem?_of_mem hv
  obtain rfl := hsole j v hj (by rw [hvk]; rfl)
  obtain rfl : w = v := Option.some_inj.1 (hw.symm.trans hj)
  simp [hdone] at hvk

/-- The step that stops the supervisor is one of a call to stop, and no other call is about to terminate
a process after it. -/
theorem Custody.stopper {m : Move} (hs : Custody s) (hstopped : s.phase ≠ .stopped)
    (hstops : (s.take m).1.phase = .stopped) :
    ∃ i e w, m = .work i e ∧ s.workers[i]? = some w ∧ w.role = .stopper ∧
      ∀ j v, (s.take m).1.workers[j]? = some v → v.point.isSeizing = true → j = i := by
  cases m with
  | start hostId => exact absurd hstops hstopped
  | stop => exact absurd hstops hstopped
  | exit process code => exact absurd hstops hstopped
  | work i e =>
      rcases take_work s i e with heq | ⟨w, hw, -, heq⟩ <;> rw [heq] at hstops ⊢
      · exact absurd hstops hstopped
      · have hp : w.point = .halt := point_of_stops hstopped hstops
        have hrole := hs.footing w (List.mem_of_getElem? hw)
        simp only [Footing, hp] at hrole
        refine ⟨i, e, w, rfl, hw, hrole, fun j v hv hseizing => ?_⟩
        by_contra hji
        have hv' : s.workers[j]? = some v := by
          simpa [act, hp, haltStep, hstopped, getElem?_goTo, Ne.symm hji] using hv
        exact hstopped ((hs.footing v (List.mem_of_getElem? hv')).stopped hseizing)

/-- No host process is lost, and a stop is final. Whatever is called, in whatever order the workers take
their steps and however the outside answers: at most one process has neither exited nor been told to
terminate, and it is the one in use or a call to stop is about to terminate it; a stopped supervisor
stays so and starts no process; and only a call to stop stops it, and when that call has returned every
process has exited or been told to terminate. -/
theorem no_process_lost {s : Supervisor} (hs : Reachable s) :
    s.loose.length ≤ 1 ∧
    (∀ k ∈ s.loose, s.current = some k ∨
      ∃ w ∈ s.workers, w.role = .stopper ∧ w.point = .terminate k) ∧
    (s.phase = .stopped → ∀ moves, (s.run moves).phase = .stopped ∧
      (s.run moves).processes.length = s.processes.length) ∧
    (s.phase ≠ .stopped → ∀ m, (s.take m).1.phase = .stopped →
      ∃ i e w, m = .work i e ∧ s.workers[i]? = some w ∧ w.role = .stopper ∧
        ∀ moves v, ((s.take m).1.run moves).workers[i]? = some v → v.point = .done →
          ((s.take m).1.run moves).loose = []) := by
  have hcustody := hs.custody
  refine ⟨hcustody.length_loose, fun k hk => ?_, fun h moves => ?_, fun hstopped m hstops => ?_⟩
  · refine (hcustody.kept k (mem_loose.1 hk)).imp_right ?_
    rintro ⟨w, hw, hwk⟩
    have hfoot := hcustody.footing w hw
    simp only [Footing, hwk] at hfoot
    exact ⟨w, hw, hfoot.1, hwk⟩
  · exact ⟨(settles_run h moves).phase, (settles_run h moves).launched⟩
  · obtain ⟨i, e, w, rfl, hw, hrole, hsole⟩ := hcustody.stopper hstopped hstops
    refine ⟨i, e, w, rfl, hw, hrole, fun moves v hv hdone => ?_⟩
    have hsettles := settles_run hstops moves
    refine ((hs.take _).run moves).custody.loose_eq_nil hsettles.phase ?_ hv hdone
    intro j x hx hseizing
    obtain ⟨y, hy, hyseizing⟩ := hsettles.seizing j x hx hseizing
    exact hsole j y hy hyseizing

/-- A stop that comes in during the handshake of the first host, which does not let itself be
terminated. -/
theorem no_process_lost_handshake :
    let s := (new {}).run [.start "h", .work 0 { now := 0 }, .work 0 { now := 0 }, .stop]
    let moves := [.work 0 { now := 1 }, .work 1 { now := 1, terminate := some (.text "busy") },
      .work 0 { now := 2 }, .work 1 { now := 2 }]
    s.loose = [0] ∧ (s.take (.work 1 { now := 0 })).1.phase = .stopped ∧
      ((s.take (.work 1 { now := 0 })).1.run moves).loose = [] := by
  intro s moves
  refine ⟨by decide +kernel, by decide +kernel, ?_⟩
  obtain ⟨i, e, w, hm, -, -, hloose⟩ := (no_process_lost ⟨_, _, rfl⟩).2.2.2
    (by decide +kernel : s.phase ≠ .stopped) (.work 1 { now := 0 }) (by decide +kernel)
  obtain ⟨rfl, rfl⟩ := Move.work.inj hm
  exact hloose moves ⟨.stopper, "", .done⟩ rfl rfl

end CompilationBridge.Supervisor
