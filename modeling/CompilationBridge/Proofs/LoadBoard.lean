import CompilationBridge.LoadTracker
import Mathlib.Data.List.Induction

/-! Waiting for projects to load, one small step after the other. The tracker of loads has a lock. Who expects a
project to load, or tells that it has, takes the lock, changes the projects that are waited for, ends the round,
begins the next one and gives the lock back. Who waits for the projects takes the lock to look whether any is
left; if so, it takes down the round, gives the lock back and blocks until that round has ended, and then looks
again. Callers come in at any time and their steps come in any order. No round is ended twice, and whoever is
blocked in a round that has not ended has seen the projects as they are, so nobody is blocked in vain. -/

namespace CompilationBridge

namespace LoadTracker

/-- The projects with one more that is expected to load. -/
def insert (t : LoadTracker) (id : Nat) : LoadTracker :=
  { t with waiting := if id ∈ t.waiting then t.waiting else t.waiting ++ [id] }

/-- The projects without one that has loaded. -/
def remove (t : LoadTracker) (id : Nat) : LoadTracker :=
  { t with waiting := t.waiting.erase id }

/-- How a caller goes on that looks. -/
def look (t : LoadTracker) : Waiter :=
  if t.waiting = [] then .loaded else .blocked t.round

variable {t : LoadTracker} {round : Nat}

theorem loaded_eq (t : LoadTracker) (id : Nat) :
    t.loaded id = if id ∈ t.waiting then (t.remove id).notify else t :=
  rfl

theorem look_eq_loaded_iff : t.look = .loaded ↔ t.waiting = [] := by
  unfold look
  split <;> simp [*]

theorem look_eq_blocked_iff : t.look = .blocked round ↔ t.waiting ≠ [] ∧ t.round = round := by
  unfold look
  split <;> simp [*]

end LoadTracker

/-! ### The tracker and its callers -/

namespace LoadBoard

/-- What a caller has come for. -/
inductive Call where
  | expect (id : Nat)
  | loaded (id : Nat)
  | wait
deriving DecidableEq

/-- What a call makes of the tracker when it is alone with it. -/
def Call.perform (t : LoadTracker) : Call → LoadTracker
  | .expect id => t.expect id
  | .loaded id => t.loaded id
  | .wait => t

/-- Where a caller stands. -/
inductive Stage where
  /-- It has no lock, and is about to take it. -/
  | arriving
  /-- It has the lock. -/
  | entered
  /-- It has changed the projects that are waited for. -/
  | changed
  /-- It has ended the round. -/
  | ended
  /-- It has begun the next round, or nothing was to be changed. -/
  | settled
  | returned
  /-- It has looked, and no project is left. -/
  | clear
  /-- It has looked, projects are left, and it has taken down the round. -/
  | took (round : Nat)
  /-- It has given the lock back and waits for the end of the round. -/
  | blocked (round : Nat)
  /-- It has returned, and all projects have loaded. -/
  | loaded
  | timedOut
  | cancelled
deriving DecidableEq

namespace Stage

/-- Whether a caller has the lock. -/
def guards : Stage → Bool
  | .entered | .changed | .ended | .settled | .clear | .took _ => true
  | _ => false

/-- What a caller has found that has looked and acts on it. -/
def found? : Stage → Option LoadTracker.Waiter
  | .clear | .loaded => some .loaded
  | .took round | .blocked round => some (.blocked round)
  | _ => none

/-- Where a caller stands that waits and does not have the lock. -/
def ofWaiter : LoadTracker.Waiter → Stage
  | .checking => .arriving
  | .blocked round => .blocked round
  | .loaded => .loaded
  | .timedOut => .timedOut
  | .cancelled => .cancelled

end Stage

structure Caller where
  call : Call
  stage : Stage
deriving DecidableEq

/-- What a caller that has the lock has still to make of the tracker. -/
def Caller.rest (x : Caller) (t : LoadTracker) : LoadTracker :=
  match x.stage with
  | .entered => x.call.perform t
  | .changed | .ended => t.notify
  | _ => t

end LoadBoard

structure LoadBoard where
  tracker : LoadTracker := {}
  /-- How often each round was ended, the first round first. -/
  ends : List Nat := [0]
  /-- Who has the lock. -/
  holder : Option Nat := none
  callers : List LoadBoard.Caller := []
  /-- The calls that were given the lock, in this order. -/
  log : List LoadBoard.Call := []
deriving DecidableEq

namespace LoadBoard

open LoadTracker (Wake Waiter)

/-- What can happen. -/
inductive Move where
  | call (call : Call)
  /-- A caller takes its next step, unless it has to wait. -/
  | work (caller : Nat)
  /-- The time of a caller that is blocked is over. -/
  | expire (caller : Nat)
  /-- A caller that is blocked is told to stop waiting. -/
  | cancel (caller : Nat)

def goTo (b : LoadBoard) (i : Nat) (x : Caller) (stage : Stage) : LoadBoard :=
  { b with callers := b.callers.set i { x with stage := stage } }

def isEnded (b : LoadBoard) (round : Nat) : Bool :=
  0 < (b.ends[round]?).getD 0

/-- What a caller does first with the lock. -/
def begin (b : LoadBoard) (i : Nat) (x : Caller) : LoadBoard :=
  match x.call with
  | .expect id => { b with tracker := b.tracker.insert id }.goTo i x .changed
  | .loaded id =>
    if id ∈ b.tracker.waiting then { b with tracker := b.tracker.remove id }.goTo i x .changed
    else b.goTo i x .settled
  | .wait =>
    if b.tracker.waiting = [] then b.goTo i x .clear else b.goTo i x (.took b.tracker.round)

/-- The next step of a caller. -/
def act (b : LoadBoard) (i : Nat) (x : Caller) : LoadBoard :=
  match x.stage with
  | .arriving =>
    if b.holder = none then { b with holder := some i, log := b.log ++ [x.call] }.goTo i x .entered else b
  | .entered => b.begin i x
  | .changed => { b with ends := b.ends.modify b.tracker.round (· + 1) }.goTo i x .ended
  | .ended =>
    { b with tracker := { b.tracker with round := b.ends.length }, ends := b.ends ++ [0] }.goTo i x .settled
  | .settled => { b with holder := none }.goTo i x .returned
  | .clear => { b with holder := none }.goTo i x .loaded
  | .took round => { b with holder := none }.goTo i x (.blocked round)
  | .blocked round => if b.isEnded round then b.goTo i x .arriving else b
  | .returned | .loaded | .timedOut | .cancelled => b

/-- A caller that is blocked gives up. -/
def giveUp (b : LoadBoard) (i : Nat) (stage : Stage) (x : Caller) : LoadBoard :=
  match x.stage with
  | .blocked _ => b.goTo i x stage
  | _ => b

def take (b : LoadBoard) : Move → LoadBoard
  | .call call => { b with callers := b.callers ++ [⟨call, .arriving⟩] }
  | .work i => (b.callers[i]?).elim b (b.act i)
  | .expire i => (b.callers[i]?).elim b (b.giveUp i .timedOut)
  | .cancel i => (b.callers[i]?).elim b (b.giveUp i .cancelled)

def run (b : LoadBoard) (moves : List Move) : LoadBoard :=
  moves.foldl take b

/-- Who has the lock, as a caller. -/
def inside? (b : LoadBoard) : Option Caller :=
  b.holder.bind fun i => b.callers[i]?

/-- The tracker as it will be when the lock is given back. -/
def settled (b : LoadBoard) : LoadTracker :=
  b.inside?.elim b.tracker fun x => x.rest b.tracker

/-- Whether the round is over that the caller with the lock is about to replace. -/
def isBetween (b : LoadBoard) : Bool :=
  b.inside?.any (·.stage = .ended)

/-- Whether the caller with the lock has changed the projects and is about to end the round. -/
def isChanging (b : LoadBoard) : Bool :=
  b.inside?.any (·.stage = .changed)

/-- Whether what was seen in a round may not hold any more. -/
def isStale (b : LoadBoard) (round : Nat) : Bool :=
  b.isEnded round || b.isChanging

/-- What a caller has found that has looked and acts on it. -/
def found? (b : LoadBoard) (i : Nat) : Option Waiter :=
  (b.callers[i]?).bind (·.stage.found?)

variable {b b' : LoadBoard} {i j round : Nat} {call : Call} {stage stage' : Stage}

/-- What a move comes to. -/
theorem take_cases (b : LoadBoard) (m : Move) :
    (∃ call, b.take m = { b with callers := b.callers ++ [⟨call, .arriving⟩] }) ∨
    b.take m = b ∨
    (∃ i x, m = .work i ∧ b.callers[i]? = some x ∧ b.take m = b.act i x) ∨
    ∃ i x stage, b.callers[i]? = some x ∧ stage.guards = false ∧ stage.found? = none ∧
      b.take m = b.giveUp i stage x := by
  cases m with
  | call call => exact Or.inl ⟨call, rfl⟩
  | work i =>
      refine Or.inr ?_
      rw [take]
      cases hi : b.callers[i]? with
      | none => exact Or.inl rfl
      | some x => exact Or.inr (Or.inl ⟨i, x, rfl, hi, rfl⟩)
  | expire i | cancel i =>
      refine Or.inr ?_
      rw [take]
      cases hi : b.callers[i]? with
      | none => exact Or.inl rfl
      | some x => exact Or.inr (Or.inr ⟨i, x, _, hi, rfl, rfl, rfl⟩)

theorem take_work {x : Caller} (hi : b.callers[i]? = some x) : b.take (.work i) = b.act i x := by
  rw [take, hi, Option.elim_some]

theorem run_append (b : LoadBoard) (before after : List Move) :
    b.run (before ++ after) = (b.run before).run after :=
  List.foldl_append

/-! ### What holds at every point -/

/-- How the rounds and the lock stand to the callers. -/
structure Sound (b : LoadBoard) : Prop where
  guard : ∀ i x, b.callers[i]? = some x → (x.stage.guards = true ↔ b.holder = some i)
  holder : ∀ i, b.holder = some i → i < b.callers.length
  ends : b.ends = List.replicate b.tracker.round 1 ++ [if b.isBetween then 1 else 0]
  bound : ∀ x ∈ b.callers, ∀ round, x.stage.found? = some (.blocked round) → round ≤ b.tracker.round
  settled : b.settled = b.log.foldl Call.perform {}

theorem Sound.empty : Sound {} where
  guard := by simp
  holder := by simp
  ends := rfl
  bound := by simp
  settled := rfl

theorem lt_length (hi : b.callers[i]? = some ⟨call, stage⟩) : i < b.callers.length :=
  (List.getElem?_eq_some_iff.1 hi).1

theorem inside?_of_free (h : b.holder = none) : b.inside? = none := by
  rw [inside?, h]
  rfl

theorem Sound.inside?_eq (h : Sound b) (hi : b.callers[i]? = some ⟨call, stage⟩) (hg : stage.guards = true) :
    b.inside? = some ⟨call, stage⟩ := by
  rw [inside?, (h.guard i _ hi).1 hg]
  exact hi

theorem Sound.length_ends (h : Sound b) : b.ends.length = b.tracker.round + 1 := by
  rw [h.ends, List.length_append, List.length_replicate]
  rfl

/-- Exactly the rounds before the current one have ended, and that one too while it is being replaced. -/
theorem Sound.isEnded_iff (h : Sound b) (round : Nat) :
    b.isEnded round = true ↔ round < b.tracker.round ∨ round = b.tracker.round ∧ b.isBetween = true := by
  rw [isEnded, h.ends, List.getElem?_append, List.length_replicate, decide_eq_true_iff]
  split
  · simp [*]
  · rename_i hge
    obtain heq | hlt := Nat.eq_or_lt_of_not_lt hge
    · subst heq
      cases b.isBetween <;> simp
    · have hnone : round - b.tracker.round ≠ 0 := by omega
      simp only [List.getElem?_singleton, if_neg hnone]
      simp
      omega

/-- No round is ended twice. -/
theorem Sound.ends_le_one (h : Sound b) {n : Nat} (hn : b.ends[round]? = some n) : n ≤ 1 := by
  have hmem := List.mem_of_getElem? hn
  rw [h.ends, List.mem_append, List.mem_singleton, List.mem_replicate] at hmem
  rcases hmem with ⟨-, rfl⟩ | rfl
  · exact Nat.le_refl 1
  · split <;> omega

theorem Sound.isEnded_of_free (h : Sound b) (hfree : b.holder = none) (round : Nat) :
    b.isEnded round = b.tracker.isOver round := by
  have hbetween : b.isBetween = false := by rw [isBetween, inside?_of_free hfree, Option.any_none]
  rw [Bool.eq_iff_iff, h.isEnded_iff, hbetween, LoadTracker.isOver, decide_eq_true_iff]
  simp

/-! ### One step -/

theorem Sound.guard_set (h : Sound b) {holder : Option Nat}
    (hself : stage'.guards = true ↔ holder = some i)
    (hothers : ∀ j, j ≠ i → (holder = some j ↔ b.holder = some j)) :
    ∀ j x, (b.callers.set i ⟨call, stage'⟩)[j]? = some x → (x.stage.guards = true ↔ holder = some j) := by
  intro j x hj
  by_cases hij : i = j
  · subst hij
    obtain ⟨hlt, -⟩ := List.getElem?_eq_some_iff.1 hj
    rw [List.length_set] at hlt
    rw [List.getElem?_set_self hlt, Option.some_inj] at hj
    exact hj ▸ hself
  · rw [List.getElem?_set_ne hij] at hj
    exact (h.guard j x hj).trans (hothers j (Ne.symm hij)).symm

theorem Sound.bound_set (h : Sound b) {limit : Nat} (hlimit : b.tracker.round ≤ limit)
    (hself : ∀ round, stage'.found? = some (.blocked round) → round ≤ limit) :
    ∀ x ∈ b.callers.set i ⟨call, stage'⟩, ∀ round, x.stage.found? = some (.blocked round) → round ≤ limit := by
  intro x hx round hround
  rcases List.mem_or_eq_of_mem_set hx with hx | rfl
  · exact Nat.le_trans (h.bound x hx round hround) hlimit
  · exact hself round hround

/-- The caller with the lock goes on and keeps it. -/
theorem Sound.inside (h : Sound b) (hi : b.callers[i]? = some ⟨call, stage⟩) (hg : stage.guards = true)
    (hg' : stage'.guards = true) {tracker : LoadTracker} {ends : List Nat}
    (hround : b.tracker.round ≤ tracker.round)
    (hends : ends = List.replicate tracker.round 1 ++ [if stage' = .ended then 1 else 0])
    (hfound : ∀ round, stage'.found? = some (.blocked round) → round ≤ tracker.round)
    (hrest : Caller.rest ⟨call, stage'⟩ tracker = Caller.rest ⟨call, stage⟩ b.tracker) :
    Sound ⟨tracker, ends, b.holder, b.callers.set i ⟨call, stage'⟩, b.log⟩ := by
  have hholder := (h.guard i _ hi).1 hg
  have hinside : inside? ⟨tracker, ends, b.holder, b.callers.set i ⟨call, stage'⟩, b.log⟩ = some ⟨call, stage'⟩ := by
    rw [inside?, hholder]
    exact List.getElem?_set_self (lt_length hi)
  refine ⟨h.guard_set (iff_of_true hg' hholder) fun _ _ => Iff.rfl, ?_, ?_, h.bound_set hround hfound, ?_⟩
  · simpa using h.holder
  · rw [isBetween, hinside]
    simpa using hends
  · rw [← h.settled, LoadBoard.settled, LoadBoard.settled, hinside, h.inside?_eq hi hg]
    exact hrest

theorem Sound.holder_ne (h : Sound b) (hi : b.callers[i]? = some ⟨call, stage⟩) (hg : stage.guards = false) :
    b.holder ≠ some i := by
  intro hheld
  rw [(h.guard i _ hi).2 hheld] at hg
  cases hg

theorem Sound.inside?_walk (h : Sound b) (hi : b.callers[i]? = some ⟨call, stage⟩) (hg : stage.guards = false) :
    inside? { b with callers := b.callers.set i ⟨call, stage'⟩ } = b.inside? := by
  refine Option.bind_congr fun j hj => List.getElem?_set_ne ?_
  rintro rfl
  exact h.holder_ne hi hg hj

/-- A caller without the lock goes on without it. -/
theorem Sound.walk (h : Sound b) (hi : b.callers[i]? = some ⟨call, stage⟩) (hg : stage.guards = false)
    (hg' : stage'.guards = false) (hfound : stage'.found? = none) :
    Sound { b with callers := b.callers.set i ⟨call, stage'⟩ } := by
  have hholder := h.holder_ne hi hg
  have hinside : inside? { b with callers := b.callers.set i ⟨call, stage'⟩ } = b.inside? := h.inside?_walk hi hg
  refine ⟨h.guard_set ?_ fun _ _ => Iff.rfl, ?_, ?_, h.bound_set (Nat.le_refl _) (by simp [hfound]), ?_⟩
  · exact iff_of_false (by simp [hg']) hholder
  · simpa using h.holder
  · rw [isBetween, hinside]
    exact h.ends
  · rw [LoadBoard.settled, hinside]
    exact h.settled

theorem Sound.enter (h : Sound b) (hi : b.callers[i]? = some ⟨call, .arriving⟩) (hfree : b.holder = none) :
    Sound ⟨b.tracker, b.ends, some i, b.callers.set i ⟨call, .entered⟩, b.log ++ [call]⟩ := by
  have hinside : inside? ⟨b.tracker, b.ends, some i, b.callers.set i ⟨call, .entered⟩, b.log ++ [call]⟩ =
      some ⟨call, .entered⟩ :=
    List.getElem?_set_self (lt_length hi)
  refine ⟨h.guard_set (iff_of_true rfl rfl) ?_, ?_, ?_, h.bound_set (Nat.le_refl _) (by simp [Stage.found?]), ?_⟩
  · intro j hj
    simp [hfree, Ne.symm hj]
  · rintro j ⟨⟩
    simpa using lt_length hi
  · rw [isBetween, hinside, h.ends, isBetween, inside?_of_free hfree]
    rfl
  · have hbefore := h.settled
    rw [LoadBoard.settled, inside?_of_free hfree, Option.elim_none] at hbefore
    rw [LoadBoard.settled, hinside, List.foldl_append, ← hbefore]
    rfl

/-- The caller with the lock has done all that it had to, and gives it back. -/
theorem Sound.leave (h : Sound b) (hi : b.callers[i]? = some ⟨call, stage⟩) (hg : stage.guards = true)
    (hg' : stage'.guards = false) (hended : stage ≠ .ended) (hfound : stage'.found? = stage.found?)
    (hrest : Caller.rest ⟨call, stage⟩ b.tracker = b.tracker) :
    Sound { b with holder := none, callers := b.callers.set i ⟨call, stage'⟩ } := by
  have hholder := (h.guard i _ hi).1 hg
  have hinside := h.inside?_eq hi hg
  refine ⟨h.guard_set (iff_of_false (by simp [hg']) nofun) ?_, nofun, ?_, h.bound_set (Nat.le_refl _) ?_, ?_⟩
  · intro j hj
    simp [hholder, Ne.symm hj]
  · rw [isBetween, inside?_of_free rfl, h.ends, isBetween, hinside]
    simp [hended]
  · exact fun round hround => h.bound _ (List.mem_of_getElem? hi) round (hfound ▸ hround)
  · rw [← h.settled, LoadBoard.settled, LoadBoard.settled, hinside, inside?_of_free rfl]
    exact hrest.symm

theorem Sound.inside?_append (h : Sound b) (call : Call) :
    inside? { b with callers := b.callers ++ [⟨call, .arriving⟩] } = b.inside? :=
  Option.bind_congr fun j hj => List.getElem?_append_left (h.holder j hj)

theorem Sound.append (h : Sound b) (call : Call) :
    Sound { b with callers := b.callers ++ [⟨call, .arriving⟩] } := by
  have hinside := h.inside?_append call
  refine ⟨?_, ?_, ?_, ?_, ?_⟩
  · intro j x hj
    rw [List.getElem?_append] at hj
    split at hj
    · exact h.guard j x hj
    · rename_i hge
      rw [List.getElem?_singleton] at hj
      split at hj
      · obtain rfl := Option.some_inj.1 hj
        exact iff_of_false nofun fun hheld => hge (h.holder j hheld)
      · cases hj
  · intro j hj
    rw [List.length_append]
    exact Nat.lt_add_right 1 (h.holder j hj)
  · rw [isBetween, hinside]
    exact h.ends
  · intro x hx round hround
    rcases List.mem_append.1 hx with hx | hx
    · exact h.bound x hx round hround
    · rw [List.mem_singleton.1 hx] at hround
      cases hround
  · rw [LoadBoard.settled, hinside]
    exact h.settled

theorem Sound.begin {x : Caller} (h : Sound b) (hi : b.callers[i]? = some x) (hx : x.stage = .entered) :
    Sound (b.begin i x) := by
  obtain ⟨call, stage⟩ := x
  obtain rfl : stage = .entered := hx
  have hinside := h.inside?_eq hi rfl
  have hends : b.ends = List.replicate b.tracker.round 1 ++ [0] := by
    rw [h.ends, isBetween, hinside]
    rfl
  cases call with
  | expect id => exact h.inside hi rfl rfl (Nat.le_refl _) hends nofun rfl
  | loaded id =>
      simp only [LoadBoard.begin]
      split
      · rename_i hmem
        refine h.inside hi rfl rfl (Nat.le_refl _) hends nofun ?_
        simp only [Caller.rest, Call.perform, LoadTracker.loaded_eq, if_pos hmem]
      · rename_i hmem
        refine h.inside hi rfl rfl (Nat.le_refl _) hends nofun ?_
        simp only [Caller.rest, Call.perform, LoadTracker.loaded_eq, if_neg hmem]
  | wait =>
      simp only [LoadBoard.begin]
      split
      · exact h.inside hi rfl rfl (Nat.le_refl _) hends nofun rfl
      · exact h.inside hi rfl rfl (Nat.le_refl _) hends (by rintro _ ⟨⟩; exact Nat.le_refl _) rfl

/-- The current round has not ended before, so ending it is the first end. -/
theorem Sound.endRound (h : Sound b) (hi : b.callers[i]? = some ⟨call, .changed⟩) :
    Sound ⟨b.tracker, b.ends.modify b.tracker.round (· + 1), b.holder, b.callers.set i ⟨call, .ended⟩, b.log⟩ := by
  refine h.inside hi rfl rfl (Nat.le_refl _) ?_ nofun rfl
  rw [h.ends, isBetween, h.inside?_eq hi rfl, List.modify_eq_set]
  simp

theorem Sound.beginRound (h : Sound b) (hi : b.callers[i]? = some ⟨call, .ended⟩) :
    Sound ⟨{ b.tracker with round := b.ends.length }, b.ends ++ [0], b.holder, b.callers.set i ⟨call, .settled⟩,
      b.log⟩ := by
  refine h.inside hi rfl rfl ?_ ?_ nofun ?_
  · rw [h.length_ends]
    exact Nat.le_succ _
  · rw [h.length_ends, List.replicate_succ', h.ends, isBetween, h.inside?_eq hi rfl]
    rfl
  · rw [h.length_ends]
    rfl

theorem Sound.act {x : Caller} (h : Sound b) (hi : b.callers[i]? = some x) : Sound (b.act i x) := by
  obtain ⟨call, stage⟩ := x
  cases stage with
  | arriving =>
      simp only [LoadBoard.act]
      split
      · exact h.enter hi ‹_›
      · exact h
  | entered => exact h.begin hi rfl
  | changed => exact h.endRound hi
  | ended => exact h.beginRound hi
  | settled => exact h.leave hi rfl rfl nofun rfl rfl
  | clear => exact h.leave hi rfl rfl nofun rfl rfl
  | took round => exact h.leave hi rfl rfl nofun rfl rfl
  | blocked round =>
      simp only [LoadBoard.act]
      split
      · exact h.walk hi rfl rfl rfl
      · exact h
  | returned | loaded | timedOut | cancelled => exact h

theorem Sound.giveUp {x : Caller} (h : Sound b) (hi : b.callers[i]? = some x) (hg : stage'.guards = false)
    (hfound : stage'.found? = none) : Sound (b.giveUp i stage' x) := by
  obtain ⟨call, stage⟩ := x
  cases stage with
  | blocked round => exact h.walk hi rfl hg hfound
  | _ => exact h

theorem Sound.take (h : Sound b) (m : Move) : Sound (b.take m) := by
  obtain ⟨call, heq⟩ | heq | ⟨i, x, -, hi, heq⟩ | ⟨i, x, stage, hi, hg, hfound, heq⟩ := b.take_cases m
  all_goals rw [heq]
  · exact h.append call
  · exact h
  · exact h.act hi
  · exact h.giveUp hi hg hfound

theorem Sound.run (h : Sound b) (moves : List Move) : Sound (b.run moves) :=
  List.foldlRecOn moves LoadBoard.take h fun _ h m _ => h.take m

/-! ### What was seen in a round that goes on -/

/-- One board comes after another: no round is gone back to, and as long as a round goes on the projects stay
as they are. -/
structure Follows (b b' : LoadBoard) : Prop where
  round_le : b.tracker.round ≤ b'.tracker.round
  kept : ∀ round ≤ b.tracker.round, b'.isStale round = false →
    b.isStale round = false ∧ b'.tracker.waiting = b.tracker.waiting

theorem Follows.refl (b : LoadBoard) : Follows b b :=
  ⟨Nat.le_refl _, fun _ _ hfresh => ⟨hfresh, rfl⟩⟩

theorem Follows.trans {b'' : LoadBoard} (h : Follows b b') (h' : Follows b' b'') : Follows b b'' where
  round_le := Nat.le_trans h.round_le h'.round_le
  kept round hround hfresh := by
    obtain ⟨hfresh', hwaiting'⟩ := h'.kept round (Nat.le_trans hround h.round_le) hfresh
    obtain ⟨hfresh, hwaiting⟩ := h.kept round hround hfresh'
    exact ⟨hfresh, hwaiting'.trans hwaiting⟩

/-- A step that neither changes anything nor ends a round. -/
theorem Follows.keep (htracker : b'.tracker = b.tracker) (hends : b'.ends = b.ends)
    (hchanging : b.isChanging = true → b'.isChanging = true) : Follows b b' where
  round_le := Nat.le_of_eq (congrArg LoadTracker.round htracker.symm)
  kept round _ hfresh := by
    obtain ⟨hended, hchanging'⟩ := Bool.or_eq_false_iff.1 hfresh
    refine ⟨Bool.or_eq_false_iff.2 ⟨?_, ?_⟩, congrArg LoadTracker.waiting htracker⟩
    · rwa [isEnded, hends] at hended
    · rw [Bool.eq_false_iff]
      intro hwas
      rw [hchanging hwas] at hchanging'
      cases hchanging'

/-- A step after which nothing that was seen before need hold. -/
theorem Follows.stale (hround : b.tracker.round ≤ b'.tracker.round)
    (hstale : ∀ round ≤ b.tracker.round, b'.isStale round = true) : Follows b b' where
  round_le := hround
  kept round hle hfresh := by
    rw [hstale round hle] at hfresh
    cases hfresh

theorem Sound.not_isChanging (h : Sound b) (hi : b.callers[i]? = some ⟨call, stage⟩) (hg : stage.guards = true)
    (hstage : stage ≠ .changed) : b.isChanging = false := by
  rw [isChanging, h.inside?_eq hi hg, Option.any_some, decide_eq_false_iff_not]
  exact hstage

/-- The caller with the lock goes on and changes nothing. -/
theorem Follows.pass (h : Sound b) (hi : b.callers[i]? = some ⟨call, stage⟩) (hg : stage.guards = true)
    (hstage : stage ≠ .changed) (htracker : b'.tracker = b.tracker) (hends : b'.ends = b.ends) : Follows b b' := by
  refine .keep htracker hends fun hchanging => ?_
  rw [h.not_isChanging hi hg hstage] at hchanging
  cases hchanging

theorem Follows.walk (h : Sound b) (hi : b.callers[i]? = some ⟨call, stage⟩) (hg : stage.guards = false) :
    Follows b { b with callers := b.callers.set i ⟨call, stage'⟩ } :=
  .keep rfl rfl fun hchanging => by rwa [isChanging, h.inside?_walk hi hg]

theorem Follows.change (h : Sound b) (hi : b.callers[i]? = some ⟨call, .entered⟩) {tracker : LoadTracker}
    (hround : tracker.round = b.tracker.round) :
    Follows b ({ b with tracker := tracker }.goTo i ⟨call, .entered⟩ .changed) := by
  have hinside : inside? ({ b with tracker := tracker }.goTo i ⟨call, .entered⟩ .changed) =
      some ⟨call, .changed⟩ := by
    rw [inside?, goTo, (h.guard i _ hi).1 rfl]
    exact List.getElem?_set_self (lt_length hi)
  refine .stale (Nat.le_of_eq hround.symm) fun round _ => ?_
  rw [isStale, isChanging, hinside]
  simp

theorem follows_begin {x : Caller} (h : Sound b) (hi : b.callers[i]? = some x) (hx : x.stage = .entered) :
    Follows b (b.begin i x) := by
  obtain ⟨call, stage⟩ := x
  obtain rfl : stage = .entered := hx
  cases call with
  | expect id => exact .change h hi rfl
  | loaded id =>
      simp only [LoadBoard.begin]
      split
      · exact .change h hi rfl
      · exact .pass h hi rfl nofun rfl rfl
  | wait =>
      simp only [LoadBoard.begin]
      split <;> exact .pass h hi rfl nofun rfl rfl

/-- Ending the round ends it for everybody who is blocked. -/
theorem Sound.isEnded_endRound (h : Sound b) (hi : b.callers[i]? = some ⟨call, .changed⟩)
    (hround : round ≤ b.tracker.round) : (b.act i ⟨call, .changed⟩).isEnded round = true := by
  have h' := h.endRound hi
  refine (h'.isEnded_iff round).2 ((Nat.lt_or_eq_of_le hround).imp_right fun heq => ⟨heq, ?_⟩)
  rw [isBetween, h'.inside?_eq (List.getElem?_set_self (lt_length hi)) rfl]
  rfl

theorem follows_act {x : Caller} (h : Sound b) (hi : b.callers[i]? = some x) : Follows b (b.act i x) := by
  obtain ⟨call, stage⟩ := x
  cases stage with
  | arriving =>
      simp only [LoadBoard.act]
      split
      · rename_i hfree
        refine .keep rfl rfl fun hchanging => ?_
        rw [isChanging, inside?_of_free hfree] at hchanging
        cases hchanging
      · exact .refl b
  | entered => exact follows_begin h hi rfl
  | changed =>
      exact .stale (Nat.le_refl _) fun round hround => Bool.or_eq_true_iff.2 (Or.inl (h.isEnded_endRound hi hround))
  | ended =>
      have h' := h.beginRound hi
      have hround : b.tracker.round < b.ends.length := by rw [h.length_ends]; exact Nat.lt_succ_self _
      refine .stale (Nat.le_of_lt hround) fun round hle => Bool.or_eq_true_iff.2 (Or.inl ?_)
      exact (h'.isEnded_iff round).2 (Or.inl (Nat.lt_of_le_of_lt hle hround))
  | settled => exact .pass h hi rfl nofun rfl rfl
  | clear => exact .pass h hi rfl nofun rfl rfl
  | took round => exact .pass h hi rfl nofun rfl rfl
  | blocked round =>
      simp only [LoadBoard.act]
      split
      · exact .walk h hi rfl
      · exact .refl b
  | returned | loaded | timedOut | cancelled => exact .refl b

theorem follows_giveUp {x : Caller} (h : Sound b) (hi : b.callers[i]? = some x) :
    Follows b (b.giveUp i stage' x) := by
  obtain ⟨call, stage⟩ := x
  cases stage with
  | blocked round => exact .walk h hi rfl
  | _ => exact .refl b

theorem follows_append (h : Sound b) (call : Call) :
    Follows b { b with callers := b.callers ++ [⟨call, .arriving⟩] } :=
  .keep rfl rfl fun hchanging => by rwa [isChanging, h.inside?_append]

theorem follows_take (h : Sound b) (m : Move) : Follows b (b.take m) := by
  obtain ⟨call, heq⟩ | heq | ⟨i, x, -, hi, heq⟩ | ⟨i, x, stage, hi, -, -, heq⟩ := b.take_cases m
  all_goals rw [heq]
  · exact follows_append h call
  · exact .refl b
  · exact follows_act h hi
  · exact follows_giveUp h hi

theorem follows_run (h : Sound b) (moves : List Move) : Follows b (b.run moves) := by
  induction moves generalizing b with
  | nil => exact .refl b
  | cons m rest ih => exact (follows_take h m).trans (ih (h.take m))

/-! ### Looks -/

/-- After some moves a caller that waits looks at the tracker, and it has acted on what it found ever since. -/
structure LooksAt (earlier : List Move) (i : Nat) (later : List Move) (found : Waiter) : Prop where
  entered : (({} : LoadBoard).run earlier).callers[i]? = some ⟨.wait, .entered⟩
  look : (({} : LoadBoard).run earlier).tracker.look = found
  since : ∀ first, first <+: later → (({} : LoadBoard).run (earlier ++ .work i :: first)).found? i = some found

/-- A caller that moves on without having looked brings nothing that was found. -/
theorem found?_set (hi : b.callers[j]? = some ⟨call, stage⟩)
    (hfound : stage'.found? = none ∨ stage'.found? = stage.found?) {w : Waiter}
    (hw : ((b.callers.set j ⟨call, stage'⟩)[i]?).bind (·.stage.found?) = some w) : b.found? i = some w := by
  by_cases hij : j = i
  · subst hij
    rw [List.getElem?_set_self (lt_length hi), Option.bind_some] at hw
    rw [found?, hi, Option.bind_some]
    rcases hfound with hnone | hsame
    · rw [hnone] at hw
      cases hw
    · exact hsame ▸ hw
  · rwa [List.getElem?_set_ne hij] at hw

theorem found?_begin {x : Caller} {w : Waiter} (hj : b.callers[j]? = some x) (hx : x.stage = .entered)
    (hw : (b.begin j x).found? i = some w) :
    b.found? i = some w ∨ j = i ∧ x.call = .wait ∧ b.tracker.look = w := by
  obtain ⟨call, stage⟩ := x
  obtain rfl : stage = .entered := hx
  cases call with
  | expect id => exact Or.inl (found?_set hj (Or.inl rfl) hw)
  | loaded id =>
      simp only [LoadBoard.begin] at hw
      split at hw <;> exact Or.inl (found?_set hj (Or.inl rfl) hw)
  | wait =>
      by_cases hij : j = i
      · subst hij
        refine Or.inr ⟨rfl, rfl, ?_⟩
        simp only [LoadBoard.begin] at hw
        unfold LoadTracker.look
        split at hw <;> rename_i hwaiting
        all_goals
          rw [found?, goTo, List.getElem?_set_self (lt_length hj)] at hw
          simpa [hwaiting, Stage.found?] using hw
      · refine Or.inl ?_
        simp only [LoadBoard.begin] at hw
        split at hw <;> rwa [found?, goTo, List.getElem?_set_ne hij] at hw

theorem found?_act {x : Caller} {w : Waiter} (hj : b.callers[j]? = some x) (hw : (b.act j x).found? i = some w) :
    b.found? i = some w ∨ j = i ∧ x = ⟨.wait, .entered⟩ ∧ b.tracker.look = w := by
  obtain ⟨call, stage⟩ := x
  cases stage with
  | arriving =>
      simp only [LoadBoard.act] at hw
      split at hw
      · exact Or.inl (found?_set hj (Or.inl rfl) hw)
      · exact Or.inl hw
  | entered =>
      refine (found?_begin hj rfl hw).imp_right ?_
      rintro ⟨hij, rfl, hlook⟩
      exact ⟨hij, rfl, hlook⟩
  | changed | ended | settled => exact Or.inl (found?_set hj (Or.inl rfl) hw)
  | clear | took round =>
      refine Or.inl (found?_set hj (Or.inr ?_) hw)
      rfl
  | blocked round =>
      simp only [LoadBoard.act] at hw
      split at hw
      · exact Or.inl (found?_set hj (Or.inl rfl) hw)
      · exact Or.inl hw
  | returned | loaded | timedOut | cancelled => exact Or.inl hw

theorem found?_giveUp {x : Caller} {w : Waiter} (hj : b.callers[j]? = some x) (hstage : stage'.found? = none)
    (hw : (b.giveUp j stage' x).found? i = some w) : b.found? i = some w := by
  obtain ⟨call, stage⟩ := x
  cases stage with
  | blocked round => exact found?_set hj (Or.inl hstage) hw
  | _ => exact hw

theorem found?_append {w : Waiter}
    (hw : found? { b with callers := b.callers ++ [⟨call, .arriving⟩] } i = some w) : b.found? i = some w := by
  rw [found?, List.getElem?_append] at hw
  split at hw
  · exact hw
  · rw [List.getElem?_singleton] at hw
    split at hw <;> cases hw

/-- Who acts on something found it before, or looks now. -/
theorem found?_take {m : Move} {w : Waiter} (hw : (b.take m).found? i = some w) :
    b.found? i = some w ∨ m = .work i ∧ b.callers[i]? = some ⟨.wait, .entered⟩ ∧ b.tracker.look = w := by
  obtain ⟨call, heq⟩ | heq | ⟨j, x, rfl, hj, heq⟩ | ⟨j, x, stage, hj, -, hfound, heq⟩ := b.take_cases m
  all_goals rw [heq] at hw
  · exact Or.inl (found?_append hw)
  · exact Or.inl hw
  · refine (found?_act hj hw).imp_right ?_
    rintro ⟨rfl, rfl, hlook⟩
    exact ⟨rfl, hj, hlook⟩
  · exact Or.inl (found?_giveUp hj hfound hw)

/-- What a caller acts on, it has found in a look. -/
theorem exists_look {moves : List Move} {w : Waiter} (hw : (({} : LoadBoard).run moves).found? i = some w) :
    ∃ earlier later, moves = earlier ++ .work i :: later ∧ LooksAt earlier i later w := by
  induction moves using List.reverseRecOn with
  | nil => cases hw
  | append_singleton moves m ih =>
      have hlast : ({} : LoadBoard).run (moves ++ [m]) = (({} : LoadBoard).run moves).take m := run_append ..
      rw [hlast] at hw
      rcases found?_take hw with hbefore | ⟨rfl, hentered, hlook⟩
      · obtain ⟨earlier, later, rfl, hlooks⟩ := ih hbefore
        refine ⟨earlier, later ++ [m], by simp, hlooks.entered, hlooks.look, fun first hfirst => ?_⟩
        rcases List.prefix_concat_iff.1 hfirst with rfl | hfirst
        · rw [← List.cons_append, ← List.append_assoc, hlast]
          exact hw
        · exact hlooks.since first hfirst
      · refine ⟨moves, [], rfl, hentered, hlook, fun first hfirst => ?_⟩
        rw [List.prefix_nil.1 hfirst, hlast]
        exact hw

/-- As long as the round of a look goes on, the projects are those of the look. -/
theorem LooksAt.kept {earlier later : List Move} (h : LooksAt earlier i later (.blocked round))
    (hfresh : (({} : LoadBoard).run (earlier ++ .work i :: later)).isStale round = false) :
    (({} : LoadBoard).run earlier).tracker.waiting ≠ [] ∧
    ∀ first, first <+: later → (({} : LoadBoard).run (earlier ++ .work i :: first)).tracker.waiting =
      (({} : LoadBoard).run earlier).tracker.waiting := by
  obtain ⟨hwaiting, hround⟩ := LoadTracker.look_eq_blocked_iff.1 h.look
  refine ⟨hwaiting, fun first hfirst => ?_⟩
  obtain ⟨rest, rfl⟩ := hfirst
  have hsound : Sound (({} : LoadBoard).run earlier) := Sound.empty.run earlier
  have hfirst := follows_run hsound (.work i :: first)
  have hrest := follows_run (hsound.run (.work i :: first)) rest
  rw [← List.cons_append, ← List.append_assoc, run_append, run_append] at hfresh
  rw [run_append]
  exact (hfirst.kept round (Nat.le_of_eq hround.symm)
    (hrest.kept round (Nat.le_trans (Nat.le_of_eq hround.symm) hfirst.round_le) hfresh).1).2

/-! ### Calls that are alone -/

theorem run_work {x : Caller} (hi : b.callers[i]? = some x) (moves : List Move) :
    b.run (.work i :: moves) = (b.act i x).run moves := by
  rw [run, List.foldl_cons, take_work hi]
  rfl

/-- A caller that nobody gets in the way of looks in three steps. -/
theorem look_alone (hfree : b.holder = none) (hi : b.callers[i]? = some ⟨.wait, .arriving⟩) :
    b.run (List.replicate 3 (.work i)) =
      { b with callers := b.callers.set i ⟨.wait, .ofWaiter b.tracker.look⟩, log := b.log ++ [.wait] } := by
  obtain ⟨tracker, ends, holder, callers, log⟩ := b
  obtain rfl : holder = none := hfree
  have hset (x : Caller) : (callers.set i x)[i]? = some x := List.getElem?_set_self (lt_length hi)
  simp only [List.replicate]
  rw [run_work hi]
  simp only [act, goTo, if_true]
  rw [run_work (hset _)]
  simp only [act, begin, goTo, List.set_set, LoadTracker.look]
  split
  · rw [run_work (hset _)]
    simp only [act, goTo, List.set_set]
    rfl
  · rw [run_work (hset _)]
    simp only [act, goTo, List.set_set]
    rfl

/-- A caller that has changed the projects ends the round, begins the next one and returns. -/
theorem notify_alone (hi : b.callers[i]? = some ⟨call, .changed⟩) (hends : b.ends.length = b.tracker.round + 1) :
    let b' := b.run (List.replicate 3 (.work i))
    b'.tracker = b.tracker.notify ∧ b'.holder = none ∧ b'.callers = b.callers.set i ⟨call, .returned⟩ := by
  obtain ⟨tracker, ends, holder, callers, log⟩ := b
  have hset (x : Caller) : (callers.set i x)[i]? = some x := List.getElem?_set_self (lt_length hi)
  simp only [List.replicate]
  rw [run_work hi]
  simp only [act, goTo]
  rw [run_work (hset _)]
  simp only [act, goTo, List.set_set, List.length_modify, hends]
  rw [run_work (hset _)]
  simp only [act, goTo, List.set_set]
  exact ⟨rfl, rfl, rfl⟩

/-- A call that nobody gets in the way of makes of the tracker what the tracker makes of it. -/
theorem call_alone (h : Sound b) (hfree : b.holder = none) (hcall : call ≠ .wait) :
    let b' := b.run (.call call :: List.replicate 5 (.work b.callers.length))
    b'.tracker = call.perform b.tracker ∧ b'.holder = none ∧ b'.callers = b.callers ++ [⟨call, .returned⟩] := by
  have hends := h.length_ends
  obtain ⟨tracker, ends, holder, callers, log⟩ := b
  obtain rfl : holder = none := hfree
  have hlast (x : Caller) : (callers ++ [x])[callers.length]? = some x := List.getElem?_concat_length
  have hset (x y : Caller) : (callers ++ [x]).set callers.length y = callers ++ [y] := by simp
  intro b'
  have hb' : b' = run ⟨tracker, ends, none, callers ++ [⟨call, .arriving⟩], log⟩
    (.work callers.length :: .work callers.length :: List.replicate 3 (.work callers.length)) := rfl
  rw [run_work (hlast _)] at hb'
  simp only [act, goTo, if_true, hset] at hb'
  rw [run_work (hlast _)] at hb'
  -- From the change of the projects on, both kinds of calls take the same three steps.
  have hchanged (tracker' : LoadTracker) (hround : tracker'.round = tracker.round)
      (hb' : b' = run ⟨tracker', ends, some callers.length, callers ++ [⟨call, .changed⟩], log ++ [call]⟩
        (List.replicate 3 (.work callers.length))) :
      b'.tracker = tracker'.notify ∧ b'.holder = none ∧ b'.callers = callers ++ [⟨call, .returned⟩] := by
    obtain ⟨htracker, hholder, hcallers⟩ := notify_alone (b := ⟨tracker', ends, some callers.length,
      callers ++ [⟨call, .changed⟩], log ++ [call]⟩) (hlast _) (hround ▸ hends)
    rw [hb']
    exact ⟨htracker, hholder, hcallers.trans (hset _ _)⟩
  cases call with
  | wait => exact absurd rfl hcall
  | expect id =>
      simp only [act, begin, goTo, hset] at hb'
      exact hchanged _ rfl hb'
  | loaded id =>
      simp only [act, begin, goTo, hset] at hb'
      split at hb' <;> rename_i hmem
      · simp only [Call.perform, LoadTracker.loaded_eq, if_pos hmem]
        exact hchanged _ rfl hb'
      · simp only [List.replicate] at hb'
        rw [run_work (hlast _)] at hb'
        simp only [act, goTo, hset] at hb'
        rw [run_work (hlast _), act, run_work (hlast _)] at hb'
        rw [hb', Call.perform, LoadTracker.loaded_eq, if_neg hmem]
        exact ⟨rfl, rfl, rfl⟩

/-- Each step of a caller that waits is a few of these in a row. -/
theorem waiter_alone (h : Sound b) (hfree : b.holder = none) {w w' : Waiter} {expired cancelled : Bool}
    {choice : Wake} (hi : b.callers[i]? = some ⟨.wait, .ofWaiter w⟩)
    (hstep : w.step? b.tracker expired cancelled choice = some w') :
    ∃ moves log, b.run moves = { b with callers := b.callers.set i ⟨.wait, .ofWaiter w'⟩, log := log } := by
  cases w with
  | checking =>
      obtain rfl : b.tracker.look = w' := Option.some_inj.1 hstep
      exact ⟨_, _, look_alone hfree hi⟩
  | blocked round =>
      obtain ⟨wake, hwake, rfl⟩ := Option.map_eq_some_iff.1 hstep
      cases wake with
      | changed =>
          have hover : b.tracker.hasHappened round expired cancelled .changed = true := List.find?_some hwake
          have hended : b.isEnded round = true := (h.isEnded_of_free hfree round).trans hover
          refine ⟨[.work i], b.log, ?_⟩
          rw [run_work hi]
          simp only [act, Stage.ofWaiter, hended, if_true]
          rfl
      | expired =>
          refine ⟨[.expire i], b.log, ?_⟩
          rw [run, List.foldl_cons, take, hi]
          rfl
      | cancelled =>
          refine ⟨[.cancel i], b.log, ?_⟩
          rw [run, List.foldl_cons, take, hi]
          rfl
  | loaded | timedOut | cancelled => cases hstep

/-! ### Nobody is blocked in vain -/

/-- A caller has looked and acts on what it found, and the projects have been the same at every point since. -/
def UpToDate (moves : List Move) (i : Nat) (found : Waiter) : Prop :=
  ∃ earlier later, moves = earlier ++ .work i :: later ∧ LooksAt earlier i later found ∧
    ∀ first, first <+: later → (({} : LoadBoard).run (earlier ++ .work i :: first)).tracker.waiting =
      (({} : LoadBoard).run earlier).tracker.waiting

theorem isChanging_eq_false (h : b.holder = none ∨ ∀ x ∈ b.callers, x.stage ≠ .changed) :
    b.isChanging = false := by
  rw [Bool.eq_false_iff]
  intro hchanging
  obtain ⟨x, hx, hstage⟩ := (Option.any_eq_true _ _).1 hchanging
  obtain ⟨i, hi, hx⟩ := Option.bind_eq_some_iff.1 hx
  rcases h with hfree | hnone
  · rw [hfree] at hi
    cases hi
  · exact hnone x (List.mem_of_getElem? hx) (of_decide_eq_true hstage)

theorem found?_eq (hi : b.callers[i]? = some ⟨call, stage⟩) : b.found? i = stage.found? := by
  rw [found?, hi]
  rfl

theorem blocked_upToDate {moves : List Move}
    (hi : (({} : LoadBoard).run moves).callers[i]? = some ⟨call, .blocked round⟩)
    (hopen : (({} : LoadBoard).run moves).isEnded round = false)
    (hchanging : (({} : LoadBoard).run moves).isChanging = false) :
    (({} : LoadBoard).run moves).tracker.waiting ≠ [] ∧ UpToDate moves i (.blocked round) := by
  obtain ⟨earlier, later, rfl, hlooks⟩ := exists_look (found?_eq hi)
  obtain ⟨hwaiting, hkept⟩ := hlooks.kept (Bool.or_eq_false_iff.2 ⟨hopen, hchanging⟩)
  refine ⟨?_, earlier, later, rfl, hlooks, hkept⟩
  rw [hkept later (List.prefix_refl later)]
  exact hwaiting

/-- Whoever is blocked in a round that has ended, while no project is left, returns in four steps. -/
theorem returns_alone (hfree : b.holder = none) (hwaiting : b.tracker.waiting = [])
    (hi : b.callers[i]? = some ⟨.wait, .blocked round⟩) (hended : b.isEnded round = true) :
    (b.run (List.replicate 4 (.work i))).callers[i]? = some ⟨.wait, .loaded⟩ := by
  have harriving : (b.goTo i ⟨.wait, .blocked round⟩ .arriving).callers[i]? = some ⟨.wait, .arriving⟩ :=
    List.getElem?_set_self (lt_length hi)
  have hlook := look_alone (show (b.goTo i ⟨.wait, .blocked round⟩ .arriving).holder = none from hfree) harriving
  rw [show (b.goTo i _ .arriving).tracker.look = .loaded from LoadTracker.look_eq_loaded_iff.2 hwaiting] at hlook
  rw [List.replicate_succ, run_work hi]
  simp only [act, hended, if_true]
  rw [hlook]
  exact List.getElem?_set_self (lt_length harriving)

/-- **Nobody waits in vain for projects to load.** Whatever callers come in and in whatever order they go on:
whoever is blocked in a round that has not ended, while the lock is free or at least nobody is between a change
and the end of its round, has found projects that have not loaded, and they have been the same at every point
since; the next step of a caller that has changed them ends the round for everybody who is blocked. Who returns
because all projects have loaded has found none left. No round is ended twice. Whenever the lock is free, the
tracker is what the calls that had the lock made of it one after the other, the rounds that have ended are the
ones that are over, and if no project is left nobody who is blocked has to wait for others. A call that is then
alone does to the tracker what the tracker does for it, and each step of a caller that waits can be taken. -/
theorem no_wakeup_lost (moves : List Move) :
    let b := ({} : LoadBoard).run moves
    (∀ (i round : Nat), b.callers[i]? = some ⟨.wait, .blocked round⟩ → b.isEnded round = false →
      b.holder = none ∨ (∀ x ∈ b.callers, x.stage ≠ .changed) →
      b.tracker.waiting ≠ [] ∧ UpToDate moves i (.blocked round)) ∧
    (∀ (i j round : Nat) (call : Call), b.callers[i]? = some ⟨.wait, .blocked round⟩ →
      b.callers[j]? = some ⟨call, .changed⟩ → (b.take (.work j)).isEnded round = true) ∧
    (∀ i : Nat, b.callers[i]? = some ⟨.wait, .loaded⟩ → ∃ earlier later, moves = earlier ++ .work i :: later ∧
      LooksAt earlier i later .loaded ∧ (({} : LoadBoard).run earlier).tracker.waiting = []) ∧
    (∀ (round n : Nat), b.ends[round]? = some n → n ≤ 1) ∧
    (b.holder = none →
      b.tracker = b.log.foldl Call.perform {} ∧
      (∀ round, b.isEnded round = b.tracker.isOver round) ∧
      (b.tracker.waiting = [] → ∀ (i round : Nat), b.callers[i]? = some ⟨.wait, .blocked round⟩ →
        (b.run (List.replicate 4 (.work i))).callers[i]? = some ⟨.wait, .loaded⟩) ∧
      (∀ call ≠ Call.wait,
        let b' := b.run (.call call :: List.replicate 5 (.work b.callers.length))
        b'.tracker = call.perform b.tracker ∧ b'.holder = none ∧
          b'.callers = b.callers ++ [⟨call, .returned⟩]) ∧
      ∀ (i : Nat) (w w' : Waiter) (expired cancelled : Bool) (choice : Wake),
        b.callers[i]? = some ⟨.wait, .ofWaiter w⟩ → w.step? b.tracker expired cancelled choice = some w' →
        ∃ steps log, b.run steps = { b with callers := b.callers.set i ⟨.wait, .ofWaiter w'⟩, log := log }) := by
  intro b
  have h : Sound b := Sound.empty.run moves
  have hblocked : ∀ {i round : Nat}, b.callers[i]? = some ⟨.wait, .blocked round⟩ → b.isEnded round = false →
      b.holder = none ∨ (∀ x ∈ b.callers, x.stage ≠ .changed) →
      b.tracker.waiting ≠ [] ∧ UpToDate moves i (.blocked round) :=
    fun hi hopen hfree => blocked_upToDate hi hopen (isChanging_eq_false hfree)
  refine ⟨fun i round => hblocked, ?_, ?_, fun round n => h.ends_le_one, fun hfree => ⟨?_, ?_, ?_, ?_, ?_⟩⟩
  · intro i j round call hi hj
    rw [take_work hj]
    exact h.isEnded_endRound hj (h.bound _ (List.mem_of_getElem? hi) round rfl)
  · intro i hi
    obtain ⟨earlier, later, hmoves, hlooks⟩ := exists_look (found?_eq hi)
    exact ⟨earlier, later, hmoves, hlooks, LoadTracker.look_eq_loaded_iff.1 hlooks.look⟩
  · have hsettled := h.settled
    rwa [LoadBoard.settled, inside?_of_free hfree, Option.elim_none] at hsettled
  · exact h.isEnded_of_free hfree
  · intro hwaiting i round hi
    refine returns_alone hfree hwaiting hi ?_
    -- Had the round not ended, the caller would have seen projects that are still there.
    by_contra hopen
    exact (hblocked hi (Bool.eq_false_iff.2 hopen) (Or.inl hfree)).1 hwaiting
  · exact fun call hcall => call_alone h hfree hcall
  · exact fun i w w' expired cancelled choice hi hstep => waiter_alone h hfree hi hstep

/-- Two projects are expected, and a caller that waits is blocked. The first project that loads ends its round;
when both have loaded it returns. -/
theorem no_wakeup_lost_two_projects :
    let work (i n : Nat) := List.replicate n (Move.work i)
    let blocked := Move.call (.expect 1) :: work 0 5 ++ .call (.expect 2) :: work 1 5 ++ .call .wait :: work 2 3
    let changed := blocked ++ .call (.loaded 1) :: work 3 2
    let finished := changed ++ work 3 3 ++ .call (.loaded 2) :: work 4 5
    let returned := finished ++ work 2 4
    UpToDate blocked 2 (.blocked 2) ∧
    (({} : LoadBoard).run changed).tracker.waiting = [2] ∧
    (({} : LoadBoard).run changed).isEnded 2 = false ∧
    ((({} : LoadBoard).run changed).take (.work 3)).isEnded 2 = true ∧
    (({} : LoadBoard).run finished).tracker.isOver 2 = true ∧
    (({} : LoadBoard).run returned).callers[2]? = some ⟨.wait, .loaded⟩ ∧
    (∃ earlier later, returned = earlier ++ .work 2 :: later ∧
      (({} : LoadBoard).run earlier).tracker.waiting = []) ∧
    (({} : LoadBoard).run returned).tracker = ((({} : LoadTracker).expect 1).expect 2 |>.loaded 1 |>.loaded 2) := by
  intro work blocked changed finished returned
  obtain ⟨hblocked, -⟩ := no_wakeup_lost blocked
  obtain ⟨-, hwakes, -⟩ := no_wakeup_lost changed
  obtain ⟨-, -, -, -, hfinished⟩ := no_wakeup_lost finished
  obtain ⟨-, -, hloaded, -, hreturned⟩ := no_wakeup_lost returned
  obtain ⟨-, hends, hreturns, -⟩ := hfinished (by decide +kernel)
  have hcaller : (({} : LoadBoard).run returned).callers[2]? = some ⟨.wait, .loaded⟩ := by
    rw [run_append]
    exact hreturns (by decide +kernel) 2 2 (by decide +kernel)
  refine ⟨(hblocked 2 2 (by decide +kernel) (by decide +kernel) (Or.inl (by decide +kernel))).2, by decide +kernel,
    by decide +kernel, hwakes 2 3 2 (.loaded 1) (by decide +kernel) (by decide +kernel), ?_, hcaller, ?_, ?_⟩
  · rw [← hends]
    decide +kernel
  · obtain ⟨earlier, later, hmoves, -, hwaiting⟩ := hloaded 2 hcaller
    exact ⟨earlier, later, hmoves, hwaiting⟩
  · exact (hreturned (by decide +kernel)).1.trans (by decide +kernel)

end LoadBoard

end CompilationBridge
