import CompilationBridge.Proofs.Restores.Accounts
import Mathlib.Data.List.Infix

/-! The watchdog of a restore. The run that launched a process looks at it at each tick until the process has
exited or restores are cancelled, and the first look that finds it silent for longer than the timeout kills it.
With a clock that waits for the watching run the looks are exactly the ticks, so a process that falls silent is
killed within a tick of the timeout, and one that keeps printing is not. -/

namespace CompilationBridge.Restores

open CompilationBridge.Graph (ProjectRef)

/-- The process that a run that stands here looks at. -/
def Point.watched? : Point → Option Nat
  | .watch _ _ tool | .kill _ _ tool => some tool.process
  | _ => none

/-- Whether a run that stands here is about to kill the process. -/
def Point.isStriking (k : Nat) : Point → Bool
  | .kill _ _ tool => tool.process = k
  | _ => false

/-- What a step leaves of a process that was launched. -/
structure Spares (k : Nat) (r r' : Restores) : Prop where
  runs : r'.runs = r.runs
  settings : r'.settings = r.settings
  cancelled : r'.cancelled = r.cancelled
  launched : k < r'.processes.length
  exited : r'.hasExited k = r.hasExited k
  heard : r'.lastOutput k = r.lastOutput k

variable {r r' : Restores} {i j k : Nat} {x y : Run} {e : Surroundings} {pt pt' : Point} {ds : List Deed}
  {project : ProjectRef}

theorem Point.watched_of_striking (h : pt.isStriking k = true) : pt.watched? = some k := by
  cases pt with
  | kill cell retries tool => exact congrArg some (of_decide_eq_true h)
  | _ => cases h

theorem getElem?_processes_modify (hk : k < r.processes.length) (process : Nat) (f : Process → Process) :
    ∃ p, r.processes[k]? = some p ∧
      (r.processes.modify process f)[k]? = some (if process = k then f p else p) := by
  obtain ⟨p, hp⟩ : ∃ p, r.processes[k]? = some p := ⟨_, List.getElem?_eq_getElem hk⟩
  exact ⟨p, hp, by rw [List.getElem?_modify, hp]; rfl⟩

theorem Spares.modify {process : Nat} {f : Process → Process} (hk : k < r.processes.length)
    (hf : process = k → ∀ p, (f p).exitCode = p.exitCode ∧ (f p).lastOutput = p.lastOutput) :
    Spares k r { r with processes := r.processes.modify process f } := by
  obtain ⟨p, hp, hget⟩ := getElem?_processes_modify hk process f
  have hsame : (if process = k then f p else p).exitCode = p.exitCode ∧
      (if process = k then f p else p).lastOutput = p.lastOutput := by
    split
    · exact hf ‹_› p
    · exact ⟨rfl, rfl⟩
  refine ⟨rfl, rfl, rfl, (List.length_modify ..).symm ▸ hk, ?_, ?_⟩
  · simp only [hasExited, exitCode?, hget, hp, Option.bind_some, hsame.1]
  · simp only [lastOutput, hget, hp, Option.map_some, hsame.2]

theorem Spares.launch (hk : k < r.processes.length) (p : Process) :
    Spares k r { r with processes := r.processes ++ [p] } := by
  have hget : (r.processes ++ [p])[k]? = r.processes[k]? := List.getElem?_append_left hk
  refine ⟨rfl, rfl, rfl, by simp; omega, ?_, ?_⟩
  · simp only [hasExited, exitCode?, hget]
  · simp only [lastOutput, hget]

/-- A turn does not touch what the watchdog knows of a process. -/
theorem Turn.spares (h : Turn r i project e pt pt' r' ds) (hk : k < r.processes.length) : Spares k r r' := by
  cases h with
  | launch => exact .launch hk _
  | kill | abort => exact .modify hk fun _ _ => ⟨rfl, rfl⟩
  | _ => exact ⟨rfl, rfl, rfl, hk, rfl, rfl⟩

/-- Only a launch gives a run another process to look at. -/
theorem Turn.watched (h : Turn r i project e pt pt' r' ds) (hk : pt'.watched? = some k) :
    pt.watched? = some k ∨ k = r.processes.length ∧ ds = [.launched k] := by
  cases h with
  | launch =>
      obtain rfl := Option.some_inj.1 hk
      exact Or.inr ⟨rfl, rfl⟩
  | _ => first | exact Or.inl hk | cases hk

theorem Turn.grows (h : Turn r i project e pt pt' r' ds) :
    r'.processes.length = r.processes.length ∨
      r'.processes.length = r.processes.length + 1 ∧ ds = [.launched r.processes.length] := by
  cases h with
  | launch => exact Or.inr ⟨List.length_append, rfl⟩
  | kill | abort => exact Or.inl (List.length_modify ..)
  | _ => exact Or.inl rfl

namespace Watchdog

/-- What happens to a process that is watched. -/
inductive Mark where
  | launched
  | printed
  /-- The watchdog looks, and the process has been silent for so long. -/
  | looked (idle : Nat)
  /-- The watchdog tells it to terminate. -/
  | killed
  /-- It exits, or restores are cancelled. -/
  | ended
deriving DecidableEq

/-- Whether silence begins anew. -/
def Mark.isSound : Mark → Bool
  | .launched | .printed => true
  | _ => false

/-- What happens to a process in the step of a run. -/
def mark? (k : Nat) (r : Restores) (x : Run) (e : Surroundings) : Option Mark :=
  match x.point with
  | .attempt .. => if e.fault.isNone ∧ r.processes.length = k then some .launched else none
  | .watch _ _ tool =>
    if tool.process = k ∧ r.wake? e.now tool e.choice = some .tick then
      some (.looked (e.now - r.lastOutput k))
    else none
  | .kill _ _ tool => if tool.process = k then some .killed else none
  | _ => none

/-- What happens to a process in a move. -/
def told? (k : Nat) (r : Restores) : Move → Option Mark
  | .output process _ => if process = k ∧ k < r.processes.length then some .printed else none
  | .exit process _ => if process = k ∧ k < r.processes.length then some .ended else none
  | .stop => some .ended
  | .work i e =>
    match r.runs[i]? with
    | some x => if r.isReady e.now i x.point then mark? k r x e else none
    | none => none
  | .run _ | .stopReturns => none

/-- What happens: time passes, or a move is made at the time that it is. -/
inductive Occurrence where
  | elapse (span : Nat)
  | move (m : Move)

/-- A move that is made now. -/
def stamp (now : Nat) : Move → Move
  | .work i e => .work i { e with now := now }
  | .output process _ => .output process now
  | m => m

/-- Restores on their course with the time, and what has happened to one process and when. -/
structure Timeline where
  course : Course
  now : Nat := 0
  story : List (Nat × Mark) := []

def start (settings : Settings.Restore) (processors : Nat) : Timeline :=
  { course := .start settings processors }

namespace Timeline

def take (k : Nat) (c : Timeline) : Occurrence → Timeline
  | .elapse span => { c with now := c.now + span }
  | .move m =>
    { c with
      course := c.course.take (stamp c.now m)
      story := c.story ++ ((told? k c.course.restores (stamp c.now m)).map (c.now, ·)).toList }

def run (k : Nat) (c : Timeline) (occurrences : List Occurrence) : Timeline :=
  occurrences.foldl (take k) c

/-- Time does not pass while the run that watches the process is ready. -/
def InTime (k : Nat) (c : Timeline) : Occurrence → Prop
  | .elapse span => ∀ i < c.course.restores.runs.length, ∀ x ∈ c.course.restores.runs[i]?,
    x.point.watched? = some k → ∀ t < span, c.course.restores.isReady (c.now + t) i x.point = false
  | .move _ => True

/-- A run does not take up a tick if the process has exited or restores are cancelled. -/
def InOrder (k : Nat) (c : Timeline) : Occurrence → Prop
  | .move (.work i e) => ∀ x ∈ c.course.restores.runs[i]?, x.point.watched? = some k →
    (c.course.restores.hasExited k = true ∨ c.course.restores.cancelled = true) → e.choice ≠ .tick
  | _ => True

/-- A property of all occurrences, each where it comes. -/
def Throughout (p : Timeline → Occurrence → Prop) (k : Nat) (c : Timeline) : List Occurrence → Prop
  | [] => True
  | o :: rest => p c o ∧ (c.take k o).Throughout p k rest

instance (k : Nat) (c : Timeline) : (o : Occurrence) → Decidable (c.InTime k o)
  | .elapse span => inferInstanceAs (Decidable (∀ i < c.course.restores.runs.length,
      ∀ x ∈ c.course.restores.runs[i]?, x.point.watched? = some k →
        ∀ t < span, c.course.restores.isReady (c.now + t) i x.point = false))
  | .move _ => .isTrue trivial

instance Throughout.decide (p : Timeline → Occurrence → Prop) [∀ c o, Decidable (p c o)] (k : Nat)
    (c : Timeline) : (occurrences : List Occurrence) → Decidable (c.Throughout p k occurrences)
  | [] => .isTrue trivial
  | o :: rest =>
    have := Throughout.decide p k (c.take k o) rest
    inferInstanceAs (Decidable (p c o ∧ (c.take k o).Throughout p k rest))

end Timeline

/-- When the process was heard last. -/
def heard (story : List (Nat × Mark)) : Nat :=
  story.foldl (fun last entry => if entry.2.isSound then entry.1 else last) 0

/-- The ticks of a watchdog that began at a time. -/
def tick (born interval n : Nat) : Nat :=
  born + (n + 1) * interval

variable {born interval now n t idle : Nat} {timeout : Int} {fair : Prop} {story before : List (Nat × Mark)}
  {mark : Mark} {tool : Watch} {c : Timeline} {settings : Settings.Restore}

@[simp] theorem heard_concat (story : List (Nat × Mark)) (t : Nat) (mark : Mark) :
    heard (story ++ [(t, mark)]) = if mark.isSound then t else heard story := by
  simp [heard]

theorem heard_le (h : ∀ entry ∈ story, entry.1 ≤ t) : heard story ≤ t := by
  induction story using List.reverseRecOn with
  | nil => exact Nat.zero_le t
  | append_singleton story entry ih =>
      rw [heard_concat]
      split
      · exact h entry (List.mem_append_right _ (List.mem_singleton_self _))
      · exact ih fun entry hentry => h entry (List.mem_append_left _ hentry)

/-- In a story that is told in order, what is heard later is heard at a later time. -/
theorem heard_mono (hrising : story.Pairwise (·.1 ≤ ·.1)) (hinit : before <+: story) :
    heard before ≤ heard story := by
  obtain ⟨rest, rfl⟩ := hinit
  induction rest using List.reverseRecOn with
  | nil => rw [List.append_nil]
  | append_singleton rest entry ih =>
      rw [← List.append_assoc] at hrising ⊢
      obtain ⟨hrising, -, hlast⟩ := List.pairwise_append.1 hrising
      rw [heard_concat]
      split
      · exact heard_le fun other hother =>
          hlast other (List.mem_append_left _ hother) entry (List.mem_singleton_self _)
      · exact ih hrising

theorem concat_prefix_concat {a b : Nat × Mark} :
    before ++ [a] <+: story ++ [b] ↔ before ++ [a] <+: story ∨ before = story ∧ a = b := by
  rw [List.prefix_concat_iff, List.append_singleton_inj, or_comm]

/-! ### The history of a process -/

/-- A look that found the process silent for too long, the first one to do so. -/
def Grounds (timeout : Int) (story : List (Nat × Mark)) (t : Nat) : Prop :=
  ∃ before idle, before ++ [(t, .looked idle)] <+: story ∧ timeout < (idle : Nat) ∧
    ∀ s, (s, .killed) ∉ before

theorem Grounds.mono {story' : List (Nat × Mark)} (h : Grounds timeout story t) (hstory : story <+: story') :
    Grounds timeout story' t := by
  obtain ⟨before, idle, hprefix, hrest⟩ := h
  exact ⟨before, idle, hprefix.trans hstory, hrest⟩

/-- What is true of a story by itself. If the looks are in order with the ends, `fair`, none comes after. -/
structure History (born interval : Nat) (timeout : Int) (fair : Prop) (now : Nat)
    (story : List (Nat × Mark)) : Prop where
  began : ∀ t, (t, .launched) ∈ story ↔ t = born
  past : ∀ t mark, (t, mark) ∈ story → t ≤ now
  rising : story.Pairwise (·.1 ≤ ·.1)
  since : born ≤ heard story
  looks : ∀ before t idle, before ++ [(t, .looked idle)] <+: story →
    (born, .launched) ∈ before ∧ (∃ n, t = tick born interval n) ∧ idle = t - heard before ∧
      ∀ s, (s, .ended) ∈ before → s = t ∧ ¬ fair
  kills : ∀ t, (t, .killed) ∈ story → Grounds timeout story t
  once : (story.filter fun entry => entry.2 = .killed).length ≤ 1

theorem History.append (h : History born interval timeout fair now story) (hlaunched : mark ≠ .launched)
    (hlooked : ∀ idle, mark = .looked idle → (∃ n, now = tick born interval n) ∧ idle = now - heard story ∧
      ∀ s, (s, .ended) ∈ story → s = now ∧ ¬ fair)
    (hkilled : mark = .killed → Grounds timeout story now ∧ ∀ s, (s, .killed) ∉ story) :
    History born interval timeout fair now (story ++ [(now, mark)]) where
  began t := by
    rw [← h.began t, List.mem_append, List.mem_singleton, Prod.mk.injEq]
    exact or_iff_left fun heq => hlaunched heq.2.symm
  past t m hm := by
    rcases List.mem_append.1 hm with hm | hm
    · exact h.past t m hm
    · rw [List.mem_singleton, Prod.mk.injEq] at hm
      exact hm.1.le
  rising := by
    refine List.pairwise_append.2 ⟨h.rising, List.pairwise_singleton _ _, fun entry hentry last hlast => ?_⟩
    rw [List.mem_singleton.1 hlast]
    exact h.past _ _ hentry
  since := by
    rw [heard_concat]
    split
    · exact h.past born _ ((h.began born).2 rfl)
    · exact h.since
  looks before t idle hprefix := by
    rcases concat_prefix_concat.1 hprefix with hprefix | ⟨rfl, heq⟩
    · exact h.looks before t idle hprefix
    · obtain ⟨rfl, rfl⟩ := Prod.mk.inj heq
      exact ⟨(h.began born).2 rfl, hlooked idle rfl⟩
  kills t ht := by
    refine Grounds.mono ?_ (List.prefix_append _ _)
    rcases List.mem_append.1 ht with ht | ht
    · exact h.kills t ht
    · obtain ⟨rfl, rfl⟩ := Prod.mk.inj (List.mem_singleton.1 ht)
      exact (hkilled rfl).1
  once := by
    rw [List.filter_append, List.length_append]
    by_cases hmark : mark = .killed
    · have hnone : story.filter (fun entry => entry.2 = .killed) = [] := by
        refine List.filter_eq_nil_iff.2 fun entry hentry hkill => ?_
        obtain ⟨s, m⟩ := entry
        obtain rfl : m = .killed := of_decide_eq_true hkill
        exact (hkilled hmark).2 s hentry
      rw [hnone]
      simp [hmark]
    · simpa [hmark] using h.once

theorem History.elapse (h : History born interval timeout fair now story) (span : Nat) :
    History born interval timeout fair (now + span) story :=
  { h with past := fun t m hm => (h.past t m hm).trans (Nat.le_add_right ..) }

/-! ### Where the run that watches stands -/

/-- The watchdog has looked at all ticks before its next one, which is not over. -/
structure Ticking (born interval now : Nat) (story : List (Nat × Mark)) (tool : Watch) : Prop where
  began : tool.born = born
  next : ∃ n, tool.nextTick = tick born interval n ∧
    ∀ m < n, ∃ idle, (tick born interval m, .looked idle) ∈ story
  ahead : now ≤ tool.nextTick
  ended : ∀ t, (t, .ended) ∈ story → now ≤ max t born

/-- What has happened to the process when the run that watches it stands at a point. -/
def Stands (born interval : Nat) (timeout : Int) (now : Nat) (story : List (Nat × Mark)) : Point → Prop
  | .watch _ _ tool => Ticking born interval now story tool ∧
      (tool.killed = true ↔ ∃ t, (t, .killed) ∈ story)
  | .kill _ _ tool => Ticking born interval now story tool ∧ tool.killed = true ∧
      (∀ t, (t, .killed) ∉ story) ∧ Grounds timeout story now
  | _ => True

/-- The watchdog looks at each tick, or the process has ended by then. -/
def Settled (born interval : Nat) (story : List (Nat × Mark)) : Prop :=
  ∀ n, (∃ idle, (tick born interval n, .looked idle) ∈ story) ∨
    ∃ t ≤ tick born interval n, (t, .ended) ∈ story

/-- Each look that found the process silent for too long was answered, but for the one that is about to be. -/
def Answered (timeout : Int) (now : Nat) (pending : Prop) (story : List (Nat × Mark)) : Prop :=
  ∀ before t idle, before ++ [(t, .looked idle)] <+: story → timeout < (idle : Nat) →
    (∃ s, (s, .killed) ∈ before) ∨ (t, .killed) ∈ story ∨ t = now ∧ pending

theorem Ticking.append (h : Ticking born interval now story tool) (mark : Mark) :
    Ticking born interval now (story ++ [(now, mark)]) tool where
  began := h.began
  next := by
    obtain ⟨n, hnext, hlooked⟩ := h.next
    refine ⟨n, hnext, fun m hm => ?_⟩
    obtain ⟨idle, hidle⟩ := hlooked m hm
    exact ⟨idle, List.mem_append_left _ hidle⟩
  ahead := h.ahead
  ended t ht := by
    rcases List.mem_append.1 ht with ht | ht
    · exact h.ended t ht
    · obtain ⟨rfl, -⟩ := Prod.mk.inj (List.mem_singleton.1 ht)
      exact Nat.le_max_left ..

theorem Stands.append (h : Stands born interval timeout now story pt) (hkilled : mark ≠ .killed) :
    Stands born interval timeout now (story ++ [(now, mark)]) pt := by
  have hmem (t : Nat) : (t, .killed) ∈ story ++ [(now, mark)] ↔ (t, .killed) ∈ story := by
    rw [List.mem_append, List.mem_singleton, Prod.mk.injEq]
    exact or_iff_left fun heq => hkilled heq.2.symm
  cases pt with
  | watch cell retries tool =>
      refine ⟨h.1.append mark, ?_⟩
      simp only [hmem]
      exact h.2
  | kill cell retries tool =>
      obtain ⟨hticking, hflag, hunkilled, hgrounds⟩ := h
      refine ⟨hticking.append mark, hflag, fun t => (hmem t).not.2 (hunkilled t), ?_⟩
      exact hgrounds.mono (List.prefix_append ..)
  | _ => trivial

theorem Settled.append (h : Settled born interval story) (more : List (Nat × Mark)) :
    Settled born interval (story ++ more) := by
  intro n
  refine (h n).imp (fun ⟨idle, hidle⟩ => ⟨idle, List.mem_append_left _ hidle⟩) ?_
  rintro ⟨t, hle, ht⟩
  exact ⟨t, hle, List.mem_append_left _ ht⟩

theorem Answered.append {pending : Prop} (h : Answered timeout now pending story)
    (hlooked : ∀ idle, mark ≠ .looked idle) : Answered timeout now pending (story ++ [(now, mark)]) := by
  intro before t idle hprefix hidle
  rcases concat_prefix_concat.1 hprefix with hprefix | ⟨-, heq⟩
  · exact (h before t idle hprefix hidle).imp_right (Or.imp_left (List.mem_append_left _))
  · exact absurd (Prod.mk.inj heq).2.symm (hlooked idle)

/-- The looks of a run that stops looking, because the process has ended, are settled. -/
theorem Ticking.settled (h : Ticking born interval now story tool)
    (hpast : ∀ t mark, (t, mark) ∈ story → t ≤ now) (hended : ∃ t, (t, .ended) ∈ story) :
    Settled born interval story := by
  obtain ⟨n, hnext, hlooked⟩ := h.next
  obtain ⟨t, ht⟩ := hended
  intro m
  rcases Nat.lt_or_ge m n with hm | hm
  · exact Or.inl (hlooked m hm)
  · refine Or.inr ⟨t, ?_, ht⟩
    calc
      t ≤ now := hpast t _ ht
      _ ≤ tick born interval n := hnext ▸ h.ahead
      _ ≤ tick born interval m := Nat.add_le_add_left (Nat.mul_le_mul_right _ (Nat.succ_le_succ hm)) _

/-! ### The invariant -/

/-- Before the process is launched. -/
structure Fresh (settings : Settings.Restore) (k : Nat) (c : Timeline) : Prop where
  kept : c.course.restores.settings = settings
  later : c.course.restores.processes.length ≤ k
  unwatched : ∀ x ∈ c.course.restores.runs, x.point.watched? ≠ some k
  told : ∀ t mark, (t, mark) ∈ c.story → mark = .ended ∧ t ≤ c.now
  rising : c.story.Pairwise (·.1 ≤ ·.1)
  ended : (∃ t, (t, .ended) ∈ c.story) ↔ c.course.restores.cancelled = true

/-- Once the process was launched. -/
structure Facts (settings : Settings.Restore) (k born : Nat) (fair : Prop) (c : Timeline) : Prop where
  kept : c.course.restores.settings = settings
  launched : k < c.course.restores.processes.length
  heard : c.course.restores.lastOutput k = heard c.story
  ended : (∃ t, (t, .ended) ∈ c.story) ↔
    c.course.restores.hasExited k = true ∨ c.course.restores.cancelled = true
  history : History born settings.watchdogInterval.toNat settings.timeout fair c.now c.story
  /-- One run at most watches the process. -/
  sole : ∀ (i j : Nat) (x y : Run), c.course.restores.runs[i]? = some x → c.course.restores.runs[j]? = some y →
    x.point.watched? = some k → y.point.watched? = some k → i = j
  stands : ∀ x ∈ c.course.restores.runs, x.point.watched? = some k →
    Stands born settings.watchdogInterval.toNat settings.timeout c.now c.story x.point
  settled : (∀ x ∈ c.course.restores.runs, x.point.watched? ≠ some k) →
    Settled born settings.watchdogInterval.toNat c.story
  answered : Answered settings.timeout c.now (∃ x ∈ c.course.restores.runs, x.point.isStriking k = true) c.story

def Told (settings : Settings.Restore) (k : Nat) (fair : Prop) (c : Timeline) : Prop :=
  Fresh settings k c ∨ ∃ born, Facts settings k born fair c

theorem Fresh.start (settings : Settings.Restore) (processors k : Nat) :
    Fresh settings k (start settings processors) where
  kept := rfl
  later := Nat.zero_le _
  unwatched _ hx := absurd hx List.not_mem_nil
  told _ _ hm := absurd hm List.not_mem_nil
  rising := List.Pairwise.nil
  ended := by simp [Watchdog.start, Course.start, new]

/-! ### Steps -/

/-- A move other than a step of the run that watches, and what it says of the process. -/
theorem Facts.around (h : Facts settings k born fair c) {course : Course} (said : Option Mark)
    (hkept : course.restores.settings = c.course.restores.settings)
    (hlaunched : k < course.restores.processes.length)
    (hruns : ∀ (j : Nat) (y : Run), y.point.watched? = some k →
      (course.restores.runs[j]? = some y ↔ c.course.restores.runs[j]? = some y))
    (hsaid : ∀ mark, said = some mark → mark = .printed ∨ mark = .ended)
    (hheard : course.restores.lastOutput k =
      if said = some .printed then c.now else c.course.restores.lastOutput k)
    (hended : course.restores.hasExited k = true ∨ course.restores.cancelled = true ↔
      said = some .ended ∨ c.course.restores.hasExited k = true ∨ c.course.restores.cancelled = true) :
    Facts settings k born fair ⟨course, c.now, c.story ++ (said.map (c.now, ·)).toList⟩ := by
  have hmem (y : Run) (hy : y.point.watched? = some k) :
      y ∈ course.restores.runs ↔ y ∈ c.course.restores.runs := by
    rw [List.mem_iff_getElem?, List.mem_iff_getElem?]
    exact exists_congr fun j => hruns j y hy
  have hpending : (∃ x ∈ c.course.restores.runs, x.point.isStriking k = true) →
      ∃ x ∈ course.restores.runs, x.point.isStriking k = true := by
    rintro ⟨x, hx, hstriking⟩
    exact ⟨x, (hmem x (Point.watched_of_striking hstriking)).2 hx, hstriking⟩
  have hsole (i j : Nat) (x y : Run) (hx : course.restores.runs[i]? = some x)
      (hy : course.restores.runs[j]? = some y) (hxk : x.point.watched? = some k)
      (hyk : y.point.watched? = some k) : i = j :=
    h.sole i j x y ((hruns i x hxk).1 hx) ((hruns j y hyk).1 hy) hxk hyk
  have hunwatched (hnone : ∀ x ∈ course.restores.runs, x.point.watched? ≠ some k)
      (x : Run) (hx : x ∈ c.course.restores.runs) : x.point.watched? ≠ some k :=
    fun hk => hnone x ((hmem x hk).2 hx) hk
  cases said with
  | none =>
      rw [Option.map_none, Option.toList_none, List.append_nil]
      refine ⟨hkept.trans h.kept, hlaunched, hheard.trans h.heard, ?_, h.history, hsole,
        fun x hx hk => h.stands x ((hmem x hk).1 hx) hk, fun hnone => h.settled (hunwatched hnone), ?_⟩
      · rw [hended, h.ended]
        simp
      · intro before t idle hprefix hidle
        exact (h.answered before t idle hprefix hidle).imp_right (Or.imp_right (And.imp_right hpending))
  | some mark =>
      have hmark := hsaid mark rfl
      have hkilled : mark ≠ .killed := by rcases hmark with rfl | rfl <;> nofun
      have hlooked : ∀ idle, mark ≠ .looked idle := by rcases hmark with rfl | rfl <;> nofun
      rw [Option.map_some, Option.toList_some]
      refine ⟨hkept.trans h.kept, hlaunched, ?_, ?_, ?_, hsole, ?_, ?_, ?_⟩
      · rw [hheard, heard_concat, h.heard]
        rcases hmark with rfl | rfl <;> rfl
      · rw [hended, ← h.ended]
        simp only [List.mem_append, List.mem_singleton, Prod.mk.injEq, exists_or, exists_eq_left,
          Option.some.injEq]
        rw [or_comm, eq_comm]
      · refine h.history.append ?_ (fun idle hidle => absurd hidle (hlooked idle)) (absurd · hkilled)
        rcases hmark with rfl | rfl <;> nofun
      · exact fun x hx hk => (h.stands x ((hmem x hk).1 hx) hk).append hkilled
      · exact fun hnone => (h.settled (hunwatched hnone)).append _
      · refine Answered.append (fun before t idle hprefix hidle => ?_) hlooked
        exact (h.answered before t idle hprefix hidle).imp_right (Or.imp_right (And.imp_right hpending))

/-- The run that watches takes a step. -/
theorem Facts.advance (h : Facts settings k born fair c) (hx : c.course.restores.runs[i]? = some x)
    (hk : x.point.watched? = some k) {course : Course} (hcourse : course.restores = r'.goTo i pt)
    (hspares : Spares k c.course.restores r')
    (hhistory : History born settings.watchdogInterval.toNat settings.timeout fair c.now story)
    (hheard : Watchdog.heard story = Watchdog.heard c.story)
    (hends : ∀ t, (t, .ended) ∈ story ↔ (t, .ended) ∈ c.story)
    (hstands : pt.watched? = some k →
      Stands born settings.watchdogInterval.toNat settings.timeout c.now story pt)
    (hsettled : pt.watched? ≠ some k → Settled born settings.watchdogInterval.toNat story)
    (hanswered : Answered settings.timeout c.now (pt.isStriking k = true) story) :
    Facts settings k born fair ⟨course, c.now, story⟩ := by
  have hget (j : Nat) : course.restores.runs[j]? =
      if i = j then some { x with point := pt } else c.course.restores.runs[j]? := by
    rw [hcourse, getElem?_runs_goTo, hspares.runs]
    split
    · rename_i hij
      rw [← hij, hx]
      rfl
    · rfl
  -- only this run can watch the process
  have hother (j : Nat) (y : Run) (hy : course.restores.runs[j]? = some y) (hyk : y.point.watched? = some k) :
      j = i ∧ y = { x with point := pt } := by
    rw [hget] at hy
    split at hy
    · exact ⟨Eq.symm ‹_›, (Option.some_inj.1 hy).symm⟩
    · exact absurd (h.sole i j x y hx hy hk hyk) ‹_›
  have hthere : ({ x with point := pt } : Run) ∈ course.restores.runs :=
    List.mem_of_getElem? ((hget i).trans (if_pos rfl))
  refine ⟨?_, ?_, ?_, ?_, hhistory, ?_, ?_, ?_, ?_⟩
  · rw [hcourse]
    exact hspares.settings.trans h.kept
  · rw [hcourse]
    exact hspares.launched
  · rw [hcourse, hheard, ← h.heard]
    exact hspares.heard
  · rw [exists_congr hends, h.ended, hcourse, ← hspares.exited, ← hspares.cancelled]
    rfl
  · intro a b y z hy hz hyk hzk
    exact (hother a y hy hyk).1.trans (hother b z hz hzk).1.symm
  · intro y hy hyk
    obtain ⟨j, hj⟩ := List.getElem?_of_mem hy
    obtain ⟨-, rfl⟩ := hother j y hj hyk
    exact hstands hyk
  · exact fun hnone => hsettled (hnone _ hthere)
  · intro before t idle hprefix hidle
    exact (hanswered before t idle hprefix hidle).imp_right
      (Or.imp_right (And.imp_right fun hstriking => ⟨_, hthere, hstriking⟩))

theorem wake?_ne_tick {choice : Wake} (hchoice : choice ≠ .tick)
    (hended : r.hasExited tool.process = true ∨ r.cancelled = true) : r.wake? now tool choice ≠ some .tick := by
  cases choice <;> cases hexited : r.hasExited tool.process <;> cases hcancelled : r.cancelled <;>
    simp_all [wake?, hasHappened]

theorem tickAfter_tick (hinterval : 0 < interval) :
    tickAfter interval born (tick born interval n) = tick born interval (n + 1) := by
  rw [tickAfter, tick, Nat.add_sub_cancel_left, Nat.mul_div_cancel _ hinterval, Nat.mul_comm, tick]

/-- A look at the tick that is due. -/
theorem Ticking.look (h : Ticking born interval now story tool) (hinterval : 0 < interval)
    (hdue : tool.nextTick ≤ now) (idle : Nat) (killed : Bool) :
    Ticking born interval now (story ++ [(now, Mark.looked idle)])
      { tool with nextTick := tickAfter interval tool.born now, killed := killed } where
  began := h.began
  next := by
    obtain ⟨n, hnext, hlooked⟩ := h.next
    have hnow : now = tick born interval n := (Nat.le_antisymm h.ahead hdue).trans hnext
    refine ⟨n + 1, ?_, fun m hm => ?_⟩
    · dsimp only
      rw [h.began, hnow, tickAfter_tick hinterval]
    · rcases Nat.lt_succ_iff_lt_or_eq.1 hm with hm | rfl
      · obtain ⟨idle, hidle⟩ := hlooked m hm
        exact ⟨idle, List.mem_append_left _ hidle⟩
      · exact ⟨idle, List.mem_append_right _ (hnow ▸ List.mem_singleton_self _)⟩
  ahead := by
    obtain ⟨n, hnext, -⟩ := h.next
    have hnow : now = tick born interval n := (Nat.le_antisymm h.ahead hdue).trans hnext
    dsimp only
    rw [h.began, hnow, tickAfter_tick hinterval]
    exact Nat.add_le_add_left (Nat.mul_le_mul_right _ (Nat.le_succ _)) _
  ended := (h.append _).ended

/-- While the run that watches waits, every look was answered. -/
theorem Facts.answered_watching (h : Facts settings k born fair c) {cell retries : Nat}
    (hx : c.course.restores.runs[i]? = some ⟨project, .watch cell retries tool⟩) (hk : tool.process = k) :
    Answered settings.timeout c.now False c.story := by
  intro before t idle hprefix hidle
  refine (h.answered before t idle hprefix hidle).imp_right (Or.imp_right (And.imp_right ?_))
  rintro ⟨y, hy, hstriking⟩
  obtain ⟨j, hj⟩ := List.getElem?_of_mem hy
  obtain rfl := h.sole i j _ y hx hj (congrArg some hk) (Point.watched_of_striking hstriking)
  obtain rfl := Option.some_inj.1 (hx.symm.trans hj)
  cases hstriking

theorem Answered.mono {pending pending' : Prop} (h : Answered timeout now pending story)
    (himp : pending → pending') : Answered timeout now pending' story :=
  fun before t idle hprefix hidle =>
    (h before t idle hprefix hidle).imp_right (Or.imp_right (And.imp_right himp))

/-- The run takes up the exit of the process, or that it was cancelled. -/
theorem Facts.quit (h : Facts settings k born fair c) {cell retries : Nat}
    (hx : c.course.restores.runs[i]? = some ⟨project, .watch cell retries tool⟩) (hk : tool.process = k)
    {course : Course} (hcourse : course.restores = c.course.restores.goTo i pt) (hpt : pt.watched? ≠ some k)
    (hended : c.course.restores.hasExited k = true ∨ c.course.restores.cancelled = true) :
    Facts settings k born fair ⟨course, c.now, c.story⟩ := by
  have hwatched : (Point.watch cell retries tool).watched? = some k := congrArg some hk
  obtain ⟨hticking, -⟩ := h.stands _ (List.mem_of_getElem? hx) hwatched
  refine h.advance hx hwatched hcourse ⟨rfl, rfl, rfl, h.launched, rfl, rfl⟩ h.history rfl (fun _ => Iff.rfl)
    (absurd · hpt) (fun _ => hticking.settled h.history.past (h.ended.2 hended)) ?_
  exact (h.answered_watching hx hk).mono False.elim

/-- The run takes up a tick. -/
theorem Facts.look (h : Facts settings k born fair c) (hinterval : 0 < settings.watchdogInterval.toNat)
    {cell retries : Nat} (hx : c.course.restores.runs[i]? = some ⟨project, .watch cell retries tool⟩)
    (hk : tool.process = k) {course : Course} (hdue : tool.nextTick ≤ c.now)
    (hfair : fair → ¬ (c.course.restores.hasExited k = true ∨ c.course.restores.cancelled = true))
    (hcourse : course.restores =
      (c.course.restores.tickStep i cell retries tool project c.now).1) :
    Facts settings k born fair
      ⟨course, c.now, c.story ++ [(c.now, Mark.looked (c.now - c.course.restores.lastOutput k))]⟩ := by
  obtain rfl := hk
  obtain rfl := h.kept
  have hwatched : (Point.watch cell retries tool).watched? = some tool.process := rfl
  obtain ⟨hticking, hflag⟩ := h.stands _ (List.mem_of_getElem? hx) hwatched
  have hnow : c.now = tool.nextTick := Nat.le_antisymm hticking.ahead hdue
  obtain ⟨n, hnext, -⟩ := hticking.next
  have hanswered := h.answered_watching hx rfl
  set idle := c.now - c.course.restores.lastOutput tool.process with hidle
  have hhistory : History born c.course.restores.settings.watchdogInterval.toNat
      c.course.restores.settings.timeout fair c.now (c.story ++ [(c.now, Mark.looked idle)]) := by
    refine h.history.append nofun (fun idle' heq => ?_) nofun
    obtain rfl := Mark.looked.inj heq
    refine ⟨⟨n, hnow.trans hnext⟩, h.heard ▸ hidle, fun s hs => ⟨?_, fun hf => ?_⟩⟩
    · have hborn : born < c.now := by
        rw [hnow, hnext, tick]
        exact Nat.lt_add_of_pos_right (Nat.mul_pos n.succ_pos hinterval)
      refine Nat.le_antisymm (h.history.past s _ hs) ?_
      exact (le_max_iff.1 (hticking.ended s hs)).resolve_right hborn.not_ge
    · exact hfair hf (h.ended.1 ⟨s, hs⟩)
  have hends (t : Nat) : (t, Mark.ended) ∈ c.story ++ [(c.now, Mark.looked idle)] ↔ (t, Mark.ended) ∈ c.story := by
    simp
  have hkills (t : Nat) : (t, Mark.killed) ∈ c.story ++ [(c.now, Mark.looked idle)] ↔ (t, Mark.killed) ∈ c.story := by
    simp
  have hticking' (killed : Bool) := hticking.look hinterval hdue idle killed
  rw [tickStep] at hcourse
  split at hcourse
  · rename_i hspared
    refine h.advance hx hwatched hcourse ⟨rfl, rfl, rfl, h.launched, rfl, rfl⟩ hhistory (by simp [Mark.isSound])
      hends (fun _ => ⟨hticking' _, ?_⟩) (absurd hwatched ·) ?_
    · simp only [hkills]
      exact hflag
    · intro before t idle' hprefix hlate
      rcases concat_prefix_concat.1 hprefix with hprefix | ⟨rfl, heq⟩
      · rcases hanswered before t idle' hprefix hlate with hkilled | hkilled | ⟨-, hfalse⟩
        · exact Or.inl hkilled
        · exact Or.inr (Or.inl ((hkills t).2 hkilled))
        · exact hfalse.elim
      · obtain ⟨rfl, hidle'⟩ := Prod.mk.inj heq
        obtain rfl := Mark.looked.inj hidle'
        rcases Bool.or_eq_true_iff.1 hspared with hkilled | hspared
        · exact Or.inl (hflag.1 hkilled)
        · exact absurd (of_decide_eq_true hspared) (not_le.2 hlate)
  · rename_i hsilent
    rw [Bool.or_eq_true_iff, decide_eq_true_eq, not_or, not_le] at hsilent
    obtain ⟨hunkilled, hsilent⟩ := hsilent
    have hnone : ∀ t, (t, Mark.killed) ∉ c.story := fun t ht => hunkilled (hflag.2 ⟨t, ht⟩)
    refine h.advance hx hwatched hcourse ⟨rfl, rfl, rfl, h.launched, rfl, rfl⟩ hhistory (by simp [Mark.isSound])
      hends (fun _ => ⟨hticking' true, rfl, fun t => (hkills t).not.2 (hnone t), ?_⟩) (absurd hwatched ·) ?_
    · exact ⟨c.story, idle, List.prefix_refl _, hsilent, hnone⟩
    · intro before t idle' hprefix hlate
      rcases concat_prefix_concat.1 hprefix with hprefix | ⟨rfl, heq⟩
      · rcases hanswered before t idle' hprefix hlate with ⟨s, hs⟩ | hkilled | ⟨-, hfalse⟩
        · exact Or.inl ⟨s, hs⟩
        · exact absurd hkilled (hnone t)
        · exact hfalse.elim
      · exact Or.inr (Or.inr ⟨(Prod.mk.inj heq).1, decide_eq_true rfl⟩)

/-- The run kills the process. -/
theorem Facts.kill (h : Facts settings k born fair c) {cell retries : Nat}
    (hx : c.course.restores.runs[i]? = some ⟨project, .kill cell retries tool⟩) (hk : tool.process = k)
    {course : Course} (hcourse : course.restores =
      (c.course.restores.markTerminated tool.process).goTo i (.watch cell retries tool)) :
    Facts settings k born fair ⟨course, c.now, c.story ++ [(c.now, Mark.killed)]⟩ := by
  have hwatched : (Point.kill cell retries tool).watched? = some k := congrArg some hk
  obtain ⟨hticking, hflag, hnone, hgrounds⟩ := h.stands _ (List.mem_of_getElem? hx) hwatched
  refine h.advance hx hwatched hcourse (.modify h.launched fun _ _ => ⟨rfl, rfl⟩)
    (h.history.append nofun nofun fun _ => ⟨hgrounds, hnone⟩) (by simp [Mark.isSound]) (by simp)
    (fun _ => ⟨hticking.append _, by simp [hflag]⟩) (absurd hwatched ·) ?_
  intro before t idle hprefix hidle
  rcases concat_prefix_concat.1 hprefix with hprefix | ⟨-, heq⟩
  · rcases h.answered before t idle hprefix hidle with hs | ht | ⟨rfl, -⟩
    · exact Or.inl hs
    · exact absurd ht (hnone t)
    · exact Or.inr (Or.inl (List.mem_append_right _ (List.mem_singleton_self _)))
  · cases (Prod.mk.inj heq).2

/-- Nothing happens to a process before it is launched, but that restores are cancelled. -/
theorem Fresh.around (h : Fresh settings k c) {course : Course} (said : Option Mark)
    (hkept : course.restores.settings = c.course.restores.settings)
    (hlater : course.restores.processes.length ≤ k)
    (hunwatched : ∀ x ∈ course.restores.runs, x.point.watched? ≠ some k)
    (hsaid : ∀ mark, said = some mark → mark = .ended)
    (hended : course.restores.cancelled = true ↔ said = some .ended ∨ c.course.restores.cancelled = true) :
    Fresh settings k ⟨course, c.now, c.story ++ (said.map (c.now, ·)).toList⟩ := by
  refine ⟨hkept.trans h.kept, hlater, hunwatched, fun t mark hmem => ?_, ?_, ?_⟩
  · rcases List.mem_append.1 hmem with hmem | hmem
    · exact h.told t mark hmem
    · obtain ⟨m, hm, heq⟩ := Option.map_eq_some_iff.1 (Option.mem_toList.1 hmem)
      obtain ⟨rfl, rfl⟩ := Prod.mk.inj heq
      exact ⟨hsaid m hm, le_rfl⟩
  · refine List.pairwise_append.2 ⟨h.rising, ?_, fun entry hentry last hlast => ?_⟩
    · cases said <;> simp
    · obtain ⟨m, -, rfl⟩ := Option.map_eq_some_iff.1 (Option.mem_toList.1 hlast)
      exact (h.told _ _ hentry).2
  · rw [hended, ← h.ended]
    simp only [List.mem_append, exists_or, Option.mem_toList, Option.map_eq_some_iff,
      Prod.mk.injEq]
    rw [or_comm]
    refine or_congr_left ⟨fun ⟨_, m, hm, _, heq⟩ => heq ▸ hm, fun heq => ⟨c.now, .ended, heq, rfl, rfl⟩⟩

/-- The process is launched. -/
theorem Fresh.launch (h : Fresh settings k c) {cell retries : Nat}
    (hx : c.course.restores.runs[i]? = some ⟨project, .attempt cell retries⟩)
    (hk : c.course.restores.processes.length = k) {course : Course}
    (hcourse : course.restores = { c.course.restores with
      processes := c.course.restores.processes ++ [({ path := project.path, lastOutput := c.now } : Process)]
      }.goTo i (.watch cell retries ⟨k, c.now, c.now + settings.watchdogInterval.toNat, false⟩)) :
    Facts settings k c.now fair ⟨course, c.now, c.story ++ [(c.now, Mark.launched)]⟩ := by
  have hget (j : Nat) : course.restores.runs[j]? = if i = j then some ⟨project,
      .watch cell retries ⟨k, c.now, c.now + settings.watchdogInterval.toNat, false⟩⟩
      else c.course.restores.runs[j]? := by
    rw [hcourse, getElem?_runs_goTo]
    split
    · rename_i hij
      dsimp only
      rw [← hij, hx]
      rfl
    · rfl
  have hother (j : Nat) (y : Run) (hy : course.restores.runs[j]? = some y)
      (hyk : y.point.watched? = some k) : j = i ∧ y = ⟨project,
        .watch cell retries ⟨k, c.now, c.now + settings.watchdogInterval.toNat, false⟩⟩ := by
    rw [hget] at hy
    split at hy
    · exact ⟨Eq.symm ‹_›, (Option.some_inj.1 hy).symm⟩
    · exact absurd hyk (h.unwatched y (List.mem_of_getElem? hy))
  have hprocess : course.restores.processes[k]? = some { path := project.path, lastOutput := c.now } := by
    rw [hcourse, ← hk]
    simp [goTo]
  have hmarks (t : Nat) (mark : Mark) (hmark : mark ≠ .ended) :
      (t, mark) ∈ c.story ++ [(c.now, Mark.launched)] ↔ t = c.now ∧ mark = .launched := by
    rw [List.mem_append, List.mem_singleton, Prod.mk.injEq]
    exact or_iff_right fun hmem => hmark (h.told t mark hmem).1
  have hlook {before : List (Nat × Mark)} {t idle : Nat}
      (hinit : before ++ [(t, .looked idle)] <+: c.story ++ [(c.now, Mark.launched)]) : False := by
    have hmem := hinit.subset (List.mem_append_right _ (List.mem_singleton_self _))
    cases ((hmarks t (.looked idle) (by simp)).1 hmem).2
  have hpast (t : Nat) (mark : Mark) (hmem : (t, mark) ∈ c.story ++ [(c.now, Mark.launched)]) : t ≤ c.now := by
    rcases List.mem_append.1 hmem with hmem | hmem
    · exact (h.told t mark hmem).2
    · exact (Prod.mk.inj (List.mem_singleton.1 hmem)).1.le
  refine ⟨?_, ?_, ?_, ?_, ⟨fun t => ?_, hpast, ?_, ?_, fun _ _ _ hp => (hlook hp).elim, fun t ht => ?_, ?_⟩, ?_, ?_,
    fun hnone => ?_, fun _ _ _ hp _ => (hlook hp).elim⟩
  · rw [hcourse]
    exact h.kept
  · exact (List.getElem?_eq_some_iff.1 hprocess).1
  · rw [lastOutput, hprocess, heard_concat]
    rfl
  · have hexited : course.restores.hasExited k = false := by
      rw [hasExited, exitCode?, hprocess]
      rfl
    have hcancelled : course.restores.cancelled = c.course.restores.cancelled := by
      rw [hcourse]
      rfl
    rw [hexited, hcancelled, ← h.ended]
    simp
  · rw [hmarks t .launched (by simp), and_iff_left rfl]
  · -- restores may have been cancelled before
    refine List.pairwise_append.2 ⟨h.rising, List.pairwise_singleton _ _, fun entry hentry last hlast => ?_⟩
    rw [List.mem_singleton.1 hlast]
    exact (h.told _ _ hentry).2
  · rw [heard_concat]
    exact le_rfl
  · cases ((hmarks t .killed (by simp)).1 ht).2
  · rw [List.filter_eq_nil_iff.2]
    · exact Nat.zero_le _
    · rintro ⟨t, mark⟩ hmem hkilled
      obtain rfl : mark = .killed := of_decide_eq_true hkilled
      cases ((hmarks t .killed (by simp)).1 hmem).2
  · intro a b y z hy hz hyk hzk
    exact (hother a y hy hyk).1.trans (hother b z hz hzk).1.symm
  · intro y hy hyk
    obtain ⟨j, hj⟩ := List.getElem?_of_mem hy
    obtain ⟨-, rfl⟩ := hother j y hj hyk
    refine ⟨⟨rfl, ⟨0, by simp [tick], by simp⟩, Nat.le_add_right .., fun t _ => Nat.le_max_right ..⟩, ?_⟩
    simp [hmarks]
  · exact absurd rfl (hnone _ (List.mem_of_getElem? ((hget i).trans (if_pos rfl))))

/-- The course when a run is ready. -/
theorem restores_work {c : Course} (hx : c.restores.runs[i]? = some x)
    (hready : c.restores.isReady e.now i x.point = true) :
    (c.work i e).restores = (c.restores.act i x e).1 := by
  simp [Course.work, Restores.step, hx, hready]

theorem Fresh.work (h : Fresh settings k c) (hnow : e.now = c.now)
    (hx : c.course.restores.runs[i]? = some x) (hready : c.course.restores.isReady e.now i x.point = true) :
    Told settings k fair ⟨c.course.work i e, c.now,
      c.story ++ ((mark? k c.course.restores x e).map (c.now, ·)).toList⟩ := by
  obtain ⟨pt, r', ds, hacts⟩ := exists_acts (i := i) hready
  have hcourse := restores_work hx hready
  by_cases hlaunch : ds = [.launched k]
  · obtain ⟨project, point⟩ := x
    -- only an attempt launches, and only if nothing fails
    obtain ⟨cell, retries, rfl⟩ : ∃ cell retries, point = .attempt cell retries := by
      have hturn := hacts.turn
      subst hlaunch
      cases hturn with
      | launch => exact ⟨_, _, rfl⟩
    have hdeeds : (if e.fault.isSome then [.refused] else [.launched c.course.restores.processes.length]) = ds :=
      hacts.deeds
    rw [hlaunch] at hdeeds
    cases hfault : e.fault with
    | some fault => simp [hfault] at hdeeds
    | none =>
        obtain rfl : c.course.restores.processes.length = k := by simpa [hfault] using hdeeds
        refine Or.inr ⟨c.now, ?_⟩
        simp only [mark?, hfault, Option.isNone_none, and_self, if_true]
        refine h.launch hx rfl ?_
        simp only [hcourse, act, attemptStep, hfault, hnow, h.kept]
  · have hunmarked : mark? k c.course.restores x e = none := by
      obtain ⟨project, point⟩ := x
      have hunwatched := h.unwatched _ (List.mem_of_getElem? hx)
      cases point with
      | attempt cell retries =>
          refine if_neg ?_
          rintro ⟨hfault, hk⟩
          refine hlaunch ?_
          have hdeeds : (if e.fault.isSome then [.refused]
              else [.launched c.course.restores.processes.length]) = ds := hacts.deeds
          rw [← hdeeds, if_neg (by simpa using hfault), hk]
      | watch cell retries tool => exact if_neg fun h => hunwatched (congrArg some h.1)
      | kill cell retries tool => exact if_neg fun hk => hunwatched (congrArg some hk)
      | _ => rfl
    rw [hunmarked]
    refine Or.inl (h.around none ?_ ?_ ?_ (by simp) ?_)
    · rw [hcourse, hacts.state]
      exact hacts.turn.frame.2.1
    · rw [hcourse, hacts.state]
      show r'.processes.length ≤ k
      rcases hacts.turn.grows with heq | ⟨heq, hds⟩
      · exact heq ▸ h.later
      · have hne : c.course.restores.processes.length ≠ k := fun hk => hlaunch (hk ▸ hds)
        have := h.later
        omega
    · intro y hy hyk
      rw [hcourse, hacts.state] at hy
      obtain ⟨j, hj⟩ := List.getElem?_of_mem hy
      rw [hacts.turn.getElem?_runs hx] at hj
      split at hj
      · obtain rfl := Option.some_inj.1 hj
        rcases hacts.turn.watched hyk with hxk | ⟨-, hds⟩
        · exact h.unwatched x (List.mem_of_getElem? hx) hxk
        · exact hlaunch hds
      · exact h.unwatched y (List.mem_of_getElem? hj) hyk
    · rw [hcourse, hacts.state]
      show r'.cancelled = true ↔ _
      rw [hacts.turn.frame.2.2.2]
      simp

/-- The run that watches takes up what has happened. -/
theorem Facts.watch (h : Facts settings k born fair c) (hinterval : 0 < settings.watchdogInterval.toNat)
    (hnow : e.now = c.now) {cell retries : Nat}
    (hx : c.course.restores.runs[i]? = some ⟨project, .watch cell retries tool⟩) (hk : tool.process = k)
    (hready : c.course.restores.isReady e.now i (.watch cell retries tool) = true)
    (hfair : fair → (c.course.restores.hasExited k = true ∨ c.course.restores.cancelled = true) →
      e.choice ≠ .tick) :
    Facts settings k born fair ⟨c.course.work i e, c.now,
      c.story ++ ((mark? k c.course.restores ⟨project, .watch cell retries tool⟩ e).map (c.now, ·)).toList⟩ := by
  have hcourse := restores_work hx hready
  have hsome : (c.course.restores.wake? e.now tool e.choice).isSome = true := by
    simp only [isReady, wake?, List.find?_isSome] at hready ⊢
    obtain ⟨wake, -, hwake⟩ := hready
    exact ⟨wake, by cases wake <;> simp, hwake⟩
  obtain ⟨wake, hwake⟩ := Option.isSome_iff_exists.1 hsome
  simp only [act, watchStep, hwake] at hcourse
  have hhappened := (wake?_spec hwake).1
  cases wake with
  | exited =>
      have hquiet : mark? k c.course.restores ⟨project, .watch cell retries tool⟩ e = none := by
        simp [mark?, hwake]
      rw [hquiet, Option.map_none, Option.toList_none, List.append_nil]
      have hended : c.course.restores.hasExited k = true := hk ▸ hhappened
      dsimp only [afterExit] at hcourse
      split at hcourse <;> exact h.quit hx hk hcourse (by rintro ⟨⟩) (Or.inl hended)
  | cancelled =>
      have hquiet : mark? k c.course.restores ⟨project, .watch cell retries tool⟩ e = none := by
        simp [mark?, hwake]
      rw [hquiet, Option.map_none, Option.toList_none, List.append_nil]
      exact h.quit hx hk hcourse (by rintro ⟨⟩) (Or.inr hhappened)
  | tick =>
      have hlooked : mark? k c.course.restores ⟨project, .watch cell retries tool⟩ e =
          some (.looked (c.now - c.course.restores.lastOutput k)) :=
        (if_pos ⟨hk, hwake⟩).trans (by rw [hnow])
      rw [hlooked]
      refine h.look hinterval hx hk (hnow ▸ of_decide_eq_true hhappened) (fun hf hended => ?_) (hnow ▸ hcourse)
      exact wake?_ne_tick (hfair hf hended) (hk ▸ hended) hwake

theorem Facts.work (h : Facts settings k born fair c) (hinterval : 0 < settings.watchdogInterval.toNat)
    (hnow : e.now = c.now) (hx : c.course.restores.runs[i]? = some x)
    (hready : c.course.restores.isReady e.now i x.point = true)
    (hfair : fair → x.point.watched? = some k →
      (c.course.restores.hasExited k = true ∨ c.course.restores.cancelled = true) → e.choice ≠ .tick) :
    Facts settings k born fair ⟨c.course.work i e, c.now,
      c.story ++ ((mark? k c.course.restores x e).map (c.now, ·)).toList⟩ := by
  have hcourse := restores_work hx hready
  by_cases hk : x.point.watched? = some k
  · obtain ⟨project, point⟩ := x
    cases point with
    | watch cell retries tool =>
        exact h.watch hinterval hnow hx (Option.some_inj.1 hk) hready fun hf => hfair hf hk
    | kill cell retries tool =>
        have hk : tool.process = k := Option.some_inj.1 hk
        simp only [mark?, hk, if_true]
        exact h.kill hx hk (hcourse.trans rfl)
    | _ => cases hk
  · have hunmarked : mark? k c.course.restores x e = none := by
      obtain ⟨project, point⟩ := x
      cases point with
      | attempt cell retries => exact if_neg fun ⟨_, hlength⟩ => h.launched.ne' hlength
      | watch cell retries tool => exact if_neg fun hwatch => hk (congrArg some hwatch.1)
      | kill cell retries tool => exact if_neg fun hkill => hk (congrArg some hkill)
      | _ => rfl
    rw [hunmarked]
    obtain ⟨pt, r', ds, hacts⟩ := exists_acts (i := i) hready
    have hspares := hacts.turn.spares h.launched
    have hpt : pt.watched? ≠ some k := fun hpt =>
      (hacts.turn.watched hpt).elim hk fun hlength => h.launched.ne hlength.1
    rw [hacts.state] at hcourse
    refine h.around none ?_ ?_ (fun j y hy => ?_) nofun ?_ ?_
    · rw [hcourse]
      exact hspares.settings
    · rw [hcourse]
      exact hspares.launched
    · rw [hcourse, hacts.turn.getElem?_runs hx]
      split
      · rename_i hij
        rw [← hij, hx]
        refine iff_of_false (fun heq => ?_) fun heq => ?_
        · obtain rfl := Option.some_inj.1 heq
          exact hpt hy
        · obtain rfl := Option.some_inj.1 heq
          exact hk hy
      · rfl
    · rw [hcourse]
      exact hspares.heard
    · rw [hcourse]
      show r'.hasExited k = true ∨ r'.cancelled = true ↔ _
      rw [hspares.exited, hspares.cancelled]
      simp

theorem Told.work (h : Told settings k fair c) (hinterval : 0 < settings.watchdogInterval.toNat)
    (hnow : e.now = c.now)
    (hfair : fair → ∀ x ∈ c.course.restores.runs[i]?, x.point.watched? = some k →
      (c.course.restores.hasExited k = true ∨ c.course.restores.cancelled = true) → e.choice ≠ .tick) :
    Told settings k fair ⟨c.course.work i e, c.now,
      c.story ++ ((told? k c.course.restores (.work i e)).map (c.now, ·)).toList⟩ := by
  rcases hx : c.course.restores.runs[i]? with _ | x
  · simpa [Course.work, told?, hx] using h
  by_cases hready : c.course.restores.isReady e.now i x.point = true
  swap
  · simpa [Course.work, Restores.step, told?, hx, hready] using h
  have htold : told? k c.course.restores (.work i e) = mark? k c.course.restores x e := by
    simp [told?, hx, hready]
  rw [htold]
  rcases h with h | ⟨born, h⟩
  · exact h.work hnow hx hready
  · exact Or.inr ⟨born, h.work hinterval hnow hx hready fun hf => hfair hf x hx⟩

/-- A restore that is asked for does not touch a process. -/
theorem watched_run (r : Restores) (project : ProjectRef) (hy : y.point.watched? = some k) :
    (r.run project).runs[j]? = some y ↔ r.runs[j]? = some y := by
  unfold Restores.run
  split
  · rw [List.getElem?_append]
    split
    · rfl
    · rename_i hj
      rw [List.getElem?_eq_none (Nat.le_of_not_lt hj)]
      refine iff_of_false (fun hnew => ?_) nofun
      rw [List.mem_singleton.1 (List.mem_of_getElem? hnew)] at hy
      cases hy
  · rfl

theorem Told.run (h : Told settings k fair c) (project : ProjectRef) :
    Told settings k fair (c.take k (.move (.run project))) := by
  obtain ⟨hsettings, hprocesses, -⟩ := run_frame c.course.restores project
  have hcancelled : (c.course.restores.run project).cancelled = c.course.restores.cancelled := by
    unfold Restores.run
    split <;> rfl
  have hexited : (c.course.restores.run project).hasExited k = c.course.restores.hasExited k := by
    rw [hasExited, exitCode?, hprocesses, hasExited, exitCode?]
  have hheard : (c.course.restores.run project).lastOutput k = c.course.restores.lastOutput k := by
    rw [lastOutput, hprocesses, lastOutput]
  rcases h with h | ⟨born, h⟩
  · refine Or.inl (h.around none hsettings (hprocesses ▸ h.later) (fun x hx hk => ?_) (by simp) ?_)
    · obtain ⟨j, hj⟩ := List.getElem?_of_mem hx
      exact h.unwatched x (List.mem_of_getElem? ((watched_run _ project hk).1 hj)) hk
    · show (c.course.restores.run project).cancelled = true ↔ _
      rw [hcancelled]
      simp
  · refine Or.inr ⟨born, h.around none hsettings (hprocesses ▸ h.launched)
      (fun j y hy => watched_run _ project hy) (by simp) hheard ?_⟩
    show (c.course.restores.run project).hasExited k = true ∨
      (c.course.restores.run project).cancelled = true ↔ _
    rw [hexited, hcancelled]
    simp

/-- A process exits. -/
theorem Told.exit (h : Told settings k fair c) (process : Nat) (code : Int) :
    Told settings k fair (c.take k (.move (.exit process code))) := by
  rcases h with h | ⟨born, h⟩
  · have hquiet : told? k c.course.restores (.exit process code) = none :=
      if_neg fun hk => hk.2.not_ge h.later
    exact Or.inl (h.around (told? k c.course.restores (.exit process code)) rfl
      ((List.length_modify ..).trans_le h.later) h.unwatched (by simp [hquiet]) (by simp [hquiet]; rfl))
  · have hsaid : told? k c.course.restores (.exit process code) = if process = k then some .ended else none := by
      simp [told?, h.launched]
    obtain ⟨p, hp, hget⟩ := getElem?_processes_modify h.launched process
      fun p => { p with exitCode := some (p.exitCode.getD code) }
    refine Or.inr ⟨born, h.around (told? k c.course.restores (.exit process code)) rfl
      (h.launched.trans_eq (List.length_modify ..).symm) (fun _ _ _ => Iff.rfl) ?_ ?_ ?_⟩
    · rw [hsaid]
      split <;> simp
    · show (c.course.restores.exit process code).lastOutput k = _
      rw [hsaid, lastOutput, Restores.exit, hget, lastOutput, hp]
      split <;> rfl
    · show (c.course.restores.exit process code).hasExited k = true ∨ _ ↔ _
      rw [hsaid, hasExited, exitCode?, Restores.exit, hget, hasExited, exitCode?, hp]
      split
      · simp
      · simp only [reduceCtorEq, false_or]
        rfl

/-- A process prints something. -/
theorem Told.output (h : Told settings k fair c) (process time : Nat) :
    Told settings k fair (c.take k (.move (.output process time))) := by
  rcases h with h | ⟨born, h⟩
  · have hquiet : told? k c.course.restores (.output process c.now) = none :=
      if_neg fun hk => hk.2.not_ge h.later
    exact Or.inl (h.around (told? k c.course.restores (.output process c.now)) rfl
      ((List.length_modify ..).trans_le h.later) h.unwatched (by simp [hquiet]) (by simp [hquiet]; rfl))
  · have hsaid : told? k c.course.restores (.output process c.now) =
        if process = k then some .printed else none := by
      simp [told?, h.launched]
    obtain ⟨p, hp, hget⟩ := getElem?_processes_modify h.launched process
      fun p => { p with lastOutput := c.now }
    refine Or.inr ⟨born, h.around (told? k c.course.restores (.output process c.now)) rfl
      (h.launched.trans_eq (List.length_modify ..).symm) (fun _ _ _ => Iff.rfl) ?_ ?_ ?_⟩
    · rw [hsaid]
      split <;> simp
    · show (c.course.restores.output process c.now).lastOutput k = _
      rw [hsaid, lastOutput, Restores.output, hget, lastOutput, hp]
      split <;> rfl
    · show (c.course.restores.output process c.now).hasExited k = true ∨ _ ↔ _
      rw [hsaid, hasExited, exitCode?, Restores.output, hget, hasExited, exitCode?, hp]
      split <;> · simp only [Option.some.injEq, reduceCtorEq, false_or]; rfl

/-- Restores are cancelled. -/
theorem Told.stop (h : Told settings k fair c) : Told settings k fair (c.take k (.move .stop)) := by
  rcases h with h | ⟨born, h⟩
  · exact Or.inl (h.around (some .ended) rfl h.later h.unwatched (by simp)
      (iff_of_true rfl (Or.inl rfl)))
  · exact Or.inr ⟨born, h.around (some .ended) rfl h.launched (fun _ _ _ => Iff.rfl) (by simp) rfl
      (iff_of_true (Or.inr rfl) (Or.inl rfl))⟩

theorem Told.stopReturns (h : Told settings k fair c) :
    Told settings k fair (c.take k (.move .stopReturns)) := by
  have hsame : (c.course.take .stopReturns).restores = c.course.restores := by
    unfold Course.take
    dsimp only
    split <;> rfl
  have hsame' : (c.course.take (stamp c.now .stopReturns)).restores = c.course.restores := hsame
  rcases h with h | ⟨born, h⟩
  · exact Or.inl (h.around none (by rw [hsame']) (by rw [hsame']; exact h.later)
      (by rw [hsame']; exact h.unwatched) nofun (by simp [hsame']))
  · exact Or.inr ⟨born, h.around none (by rw [hsame']) (by rw [hsame']; exact h.launched)
      (by simp [hsame']) nofun (by simp [hsame']) (by simp [hsame'])⟩

/-- Time passes, and the run that watches waits. -/
theorem Told.elapse (h : Told settings k fair c) {span : Nat} (hclock : c.InTime k (.elapse span)) :
    Told settings k fair { c with now := c.now + span } := by
  rcases h with h | ⟨born, h⟩
  · exact Or.inl { h with told := fun t mark hm =>
      ⟨(h.told t mark hm).1, (h.told t mark hm).2.trans (Nat.le_add_right ..)⟩ }
  rcases Nat.eq_zero_or_pos span with rfl | hspan
  · exact Or.inr ⟨born, h⟩
  have hwaits (x : Run) (hx : x ∈ c.course.restores.runs) (hk : x.point.watched? = some k) :
      ∃ i cell retries tool, x.point = .watch cell retries tool ∧
        ∀ t < span, c.course.restores.isReady (c.now + t) i x.point = false := by
    obtain ⟨i, hi⟩ := List.getElem?_of_mem hx
    have hwait := hclock i (List.getElem?_eq_some_iff.1 hi).1 x hi hk
    cases hpoint : x.point with
    | watch cell retries tool => exact ⟨i, cell, retries, tool, rfl, hpoint ▸ hwait⟩
    | kill cell retries tool =>
        have := hwait 0 hspan
        rw [hpoint] at this
        cases this
    | _ =>
        rw [hpoint] at hk
        cases hk
  refine Or.inr ⟨born, { h with history := h.history.elapse span, stands := ?_, answered := ?_ }⟩
  · intro x hx hk
    obtain ⟨i, cell, retries, tool, hpoint, hwait⟩ := hwaits x hx hk
    have hstands := h.stands x hx hk
    rw [hpoint] at hstands hwait hk ⊢
    obtain ⟨hticking, hflag⟩ := hstands
    have hk : tool.process = k := Option.some_inj.1 hk
    have hnothing (t : Nat) (ht : t < span) (wake : Wake) :
        c.course.restores.hasHappened (c.now + t) tool wake = false := by
      have := hwait t ht
      rw [isReady, Option.isSome_eq_false_iff, Option.isNone_iff_eq_none, wake?, List.find?_eq_none] at this
      exact Bool.eq_false_iff.2 (this wake (by cases wake <;> simp))
    refine ⟨{ hticking with ahead := ?_, ended := fun t ht => ?_ }, hflag⟩
    · show c.now + span ≤ tool.nextTick
      by_contra hpast
      have hahead := hticking.ahead
      have hdue := of_decide_eq_false (hnothing (tool.nextTick - c.now) (by omega) .tick)
      omega
    · rcases h.ended.1 ⟨t, ht⟩ with hexited | hcancelled
      · rw [← hk] at hexited
        exact absurd hexited (Bool.eq_false_iff.1 (hnothing 0 hspan .exited))
      · exact absurd hcancelled (Bool.eq_false_iff.1 (hnothing 0 hspan .cancelled))
  · intro before t idle hprefix hidle
    refine (h.answered before t idle hprefix hidle).imp_right (Or.imp_right ?_)
    rintro ⟨_, x, hx, hstriking⟩
    obtain ⟨i, cell, retries, tool, hpoint, -⟩ := hwaits x hx (Point.watched_of_striking hstriking)
    rw [hpoint] at hstriking
    cases hstriking

theorem Told.take (h : Told settings k fair c) (hinterval : 0 < settings.watchdogInterval.toNat)
    {o : Occurrence} (hclock : c.InTime k o) (hfair : fair → c.InOrder k o) :
    Told settings k fair (c.take k o) := by
  cases o with
  | elapse span => exact h.elapse hclock
  | move m =>
      cases m with
      | run project => exact h.run project
      | exit process code => exact h.exit process code
      | output process time => exact h.output process time
      | work i e => exact h.work (e := { e with now := c.now }) hinterval rfl hfair
      | stop => exact h.stop
      | stopReturns => exact h.stopReturns

theorem Told.after (h : Told settings k fair c) (hinterval : 0 < settings.watchdogInterval.toNat)
    {occurrences : List Occurrence} (hclock : c.Throughout (Timeline.InTime k) k occurrences)
    (hfair : fair → c.Throughout (Timeline.InOrder k) k occurrences) :
    Told settings k fair (c.run k occurrences) := by
  induction occurrences generalizing c with
  | nil => exact h
  | cons o rest ih => exact ih (h.take hinterval hclock.1 fun hf => (hfair hf).1) hclock.2 fun hf => (hfair hf).2

/-! ### What the watchdog does -/

/-- Whether the process was launched and has not ended before now. -/
def Timeline.Runs (c : Timeline) : Prop :=
  (∃ t, (t, .launched) ∈ c.story) ∧ ∀ t, (t, .ended) ∈ c.story → c.now ≤ t

theorem Timeline.run_append (k : Nat) (c : Timeline) (before after : List Occurrence) :
    c.run k (before ++ after) = (c.run k before).run k after := by
  rw [Timeline.run, List.foldl_append]
  rfl

/-- Each entry of a story is made at a moment. -/
theorem exists_moment {occurrences : List Occurrence} {entry : Nat × Mark}
    (hstart : c.story = []) (hinit : before ++ [entry] <+: (c.run k occurrences).story) :
    ∃ early late, occurrences = early ++ late ∧ (c.run k early).story = before ∧
      (c.run k early).now = entry.1 := by
  induction occurrences using List.reverseRecOn with
  | nil =>
      rw [show (c.run k []).story = [] from hstart, List.prefix_nil] at hinit
      simp at hinit
  | append_singleton occurrences o ih =>
      rw [Timeline.run_append] at hinit
      have hstory : before ++ [entry] <+: ((c.run k occurrences).take k o).story := hinit
      have hbefore (h : before ++ [entry] <+: (c.run k occurrences).story) :
          ∃ early late, occurrences ++ [o] = early ++ late ∧ (c.run k early).story = before ∧
            (c.run k early).now = entry.1 := by
        obtain ⟨early, late, rfl, hrest⟩ := ih h
        exact ⟨early, late ++ [o], List.append_assoc .., hrest⟩
      cases o with
      | elapse span => exact hbefore hstory
      | move m =>
          rw [Timeline.take] at hstory
          dsimp only at hstory
          rcases hsaid : told? k (c.run k occurrences).course.restores (stamp (c.run k occurrences).now m)
            with _ | mark <;> rw [hsaid] at hstory
          · exact hbefore (by simpa using hstory)
          · rcases concat_prefix_concat.1 hstory with hstory | ⟨hlast, rfl⟩
            · exact hbefore hstory
            · exact ⟨occurrences, [.move m], rfl, hlast.symm, rfl⟩

/-- No tick that is over is left out, but after the end. -/
theorem Facts.looked (h : Facts settings k born fair c)
    (hover : tick born settings.watchdogInterval.toNat n < c.now) :
    (∃ idle, (tick born settings.watchdogInterval.toNat n, .looked idle) ∈ c.story) ∨
      ∃ s ≤ tick born settings.watchdogInterval.toNat n, (s, .ended) ∈ c.story := by
  have hticking (tool : Watch) (h : Ticking born settings.watchdogInterval.toNat c.now c.story tool) :
      ∃ idle, (tick born settings.watchdogInterval.toNat n, .looked idle) ∈ c.story := by
    obtain ⟨m, hnext, hlooked⟩ := h.next
    refine hlooked n ?_
    by_contra hnm
    have hle : tick born settings.watchdogInterval.toNat m ≤ tick born settings.watchdogInterval.toNat n :=
      Nat.add_le_add_left (Nat.mul_le_mul_right _ (Nat.succ_le_succ (Nat.le_of_not_lt hnm))) _
    exact absurd (hover.trans_le (hnext ▸ h.ahead)) hle.not_gt
  by_cases hwatched : ∃ x ∈ c.course.restores.runs, x.point.watched? = some k
  · obtain ⟨x, hx, hk⟩ := hwatched
    have hstands := h.stands x hx hk
    cases hpoint : x.point with
    | watch cell retries tool =>
        rw [hpoint] at hstands
        exact Or.inl (hticking tool hstands.1)
    | kill cell retries tool =>
        rw [hpoint] at hstands
        exact Or.inl (hticking tool hstands.1)
    | _ =>
        rw [hpoint] at hk
        cases hk
  · exact h.settled (fun x hx hk => hwatched ⟨x, hx, hk⟩) n

/-- The first tick after a time. -/
theorem exists_tick {time : Nat} (hinterval : 0 < interval) (hborn : born ≤ time) :
    ∃ n, time < tick born interval n ∧ tick born interval n ≤ time + interval := by
  refine ⟨(time - born) / interval, ?_⟩
  have hdiv := Nat.div_add_mod (time - born) interval
  have hmod := Nat.mod_lt (time - born) hinterval
  rw [tick, Nat.succ_mul, Nat.mul_comm]
  omega

/-- **The watchdog is exact.** Whatever else happens, if time does not pass while the run that watches the
process is ready: the looks of the watchdog are at ticks, and each tell how long nothing was heard; no tick is
left out but after the process has exited or restores were cancelled, and none is looked at after that, but one
at the very time if the run takes it up first; a tick kills the process exactly if the watchdog looks at it, no
earlier look led to a kill and nothing was heard for longer than the timeout; so there is one kill at most, none
if the process is never silent for longer than the timeout, and one in time if it stays silent and runs. -/
theorem watchdog_exact {settings : Settings.Restore} {processors k born : Nat} {occurrences : List Occurrence}
    (hinterval : 0 < settings.watchdogInterval) (htimeout : 0 < settings.timeout)
    (hprompt : (start settings processors).Throughout (Timeline.InTime k) k occurrences)
    (hlaunched : (born, .launched) ∈ ((start settings processors).run k occurrences).story) :
    let interval := settings.watchdogInterval.toNat
    let timeout := settings.timeout.toNat
    let c := (start settings processors).run k occurrences
    (∀ before t idle, before ++ [(t, .looked idle)] <+: c.story →
      (∃ n, t = tick born interval n) ∧ idle = t - heard before ∧ (∀ s, (s, .ended) ∈ before → s = t) ∧
      ((start settings processors).Throughout (Timeline.InOrder k) k occurrences →
        ∀ s, (s, .ended) ∉ before)) ∧
    (∀ n, tick born interval n < c.now → (∃ idle, (tick born interval n, .looked idle) ∈ c.story) ∨
      ∃ s ≤ tick born interval n, (s, .ended) ∈ c.story) ∧
    (∀ t < c.now, (t, .killed) ∈ c.story ↔ ∃ before idle, before ++ [(t, .looked idle)] <+: c.story ∧
      timeout < idle ∧ ∀ s, (s, .killed) ∉ before) ∧
    (c.story.filter fun entry => entry.2 = .killed).length ≤ 1 ∧
    ((∀ early late, occurrences = early ++ late → ((start settings processors).run k early).Runs →
        ((start settings processors).run k early).now ≤
          heard ((start settings processors).run k early).story + timeout) →
      ∀ t, (t, .killed) ∉ c.story) ∧
    ((∀ s, (s, .ended) ∉ c.story) → heard c.story + timeout + interval < c.now →
      ∃ t ≤ heard c.story + timeout + interval, (t, .killed) ∈ c.story) := by
  intro interval timeout c
  have hinterval : 0 < settings.watchdogInterval.toNat := by omega
  have htimeout : (timeout : Int) = settings.timeout := by omega
  have hsilent (idle : Nat) : settings.timeout < (idle : Int) ↔ timeout < idle := by omega
  obtain hfresh | ⟨born', h⟩ := Told.after
    (Or.inl (.start settings processors k) : Told settings k
      ((start settings processors).Throughout (Timeline.InOrder k) k occurrences) _) hinterval hprompt id
  · cases (hfresh.told _ _ hlaunched).1
  obtain rfl := (h.history.began born).1 hlaunched
  have hkilled (t : Nat) (ht : t < c.now) : (t, .killed) ∈ c.story ↔ Grounds settings.timeout c.story t := by
    refine ⟨h.history.kills t, ?_⟩
    rintro ⟨before, idle, hprefix, hidle, hnone⟩
    rcases h.answered before t idle hprefix hidle with ⟨s, hs⟩ | hkill | ⟨rfl, -⟩
    · exact absurd hs (hnone s)
    · exact hkill
    · exact absurd ht (lt_irrefl _)
  refine ⟨fun before t idle hprefix => ?_, fun n => h.looked, fun t ht => ?_, h.history.once, fun hheard t ht => ?_,
    fun hruns hlate => ?_⟩
  · obtain ⟨-, htick, hidle, hended⟩ := h.history.looks before t idle hprefix
    exact ⟨htick, hidle, fun s hs => (hended s hs).1, fun hf s hs => (hended s hs).2 hf⟩
  · simp only [hkilled t ht, Grounds, hsilent]
  · obtain ⟨before, idle, hprefix, hidle, -⟩ := h.history.kills t ht
    obtain ⟨hborn, -, heq, hended⟩ := h.history.looks before t idle hprefix
    obtain ⟨early, late, hsplit, hstory, hnow⟩ := exists_moment rfl hprefix
    have hquiet := hheard early late hsplit
      ⟨⟨born, hstory ▸ hborn⟩, fun s hs => ((hended s (hstory ▸ hs)).1.symm ▸ hnow).le⟩
    rw [hnow, hstory] at hquiet
    have := (hsilent idle).1 hidle
    dsimp only at hquiet
    omega
  · obtain ⟨n, hafter, hbefore⟩ := exists_tick hinterval
      (h.history.since.trans (Nat.le_add_right (heard c.story) timeout))
    obtain ⟨idle, hlook⟩ := (h.looked (hbefore.trans_lt hlate)).resolve_right fun ⟨s, _, hs⟩ => hruns s hs
    obtain ⟨before, after, hstory⟩ := List.append_of_mem hlook
    have hprefix : before ++ [(tick born settings.watchdogInterval.toNat n, .looked idle)] <+: c.story :=
      ⟨after, by rw [hstory, List.append_assoc]; rfl⟩
    obtain ⟨-, -, hidle, -⟩ := h.history.looks before _ idle hprefix
    -- nothing was heard between that look and now
    have hheard : heard before ≤ heard c.story :=
      heard_mono h.history.rising ((List.prefix_append ..).trans hprefix)
    have hlong : settings.timeout < (idle : Int) := (hsilent idle).2 (by omega)
    rcases h.answered before _ idle hprefix hlong with ⟨s, hs⟩ | hkill | ⟨hnow, -⟩
    · have hle : s ≤ tick born settings.watchdogInterval.toNat n :=
        (List.pairwise_append.1 (h.history.rising.sublist hprefix.sublist)).2.2 _ hs _ (List.mem_singleton_self _)
      exact ⟨s, hle.trans hbefore, hprefix.subset (List.mem_append_left _ hs)⟩
    · exact ⟨_, hbefore, hkill⟩
    · exact absurd hnow (hbefore.trans_lt hlate).ne

/-- A tool that prints at 3 and is silent from then on, with a look every 10 and a timeout of 15: the look at 10
spares it and the one at 20 kills it. -/
theorem watchdog_exact_silent :
    let settings : Settings.Restore := { enabled := true, timeout := 15, watchdogInterval := 10 }
    let turn : Occurrence := .move (.work 0 { now := 0 })
    let occurrences := .move (.run ⟨7, "a"⟩) :: List.replicate 5 turn ++
      [.elapse 3, .move (.output 0 0), .elapse 7, turn, .elapse 10, turn, turn, .elapse 9]
    let c := (start settings 2).run 0 occurrences
    (start settings 2).Throughout (Timeline.InTime 0) 0 occurrences ∧ (0, .launched) ∈ c.story ∧
      c.story.filter (fun entry => entry.2 = .killed) = [(20, .killed)] ∧
      ∃ before idle, before ++ [(20, .looked idle)] <+: c.story ∧ 15 < idle := by
  intro settings turn occurrences c
  have hprompt : (start settings 2).Throughout (Timeline.InTime 0) 0 occurrences := by decide +kernel
  have hlaunched : (0, .launched) ∈ c.story := by decide +kernel
  obtain ⟨-, -, hkilled, -⟩ := watchdog_exact (by decide) (by decide) hprompt hlaunched
  obtain ⟨before, idle, hprefix, hidle, -⟩ := (hkilled 20 (by decide +kernel)).1 (by decide +kernel)
  exact ⟨hprompt, hlaunched, by decide +kernel, before, idle, hprefix, hidle⟩

end Watchdog

end CompilationBridge.Restores
