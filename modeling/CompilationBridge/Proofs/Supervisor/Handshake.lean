import CompilationBridge.Proofs.Supervisor.Callbacks
import Mathlib.Algebra.Order.Floor.Div

/-! The handshake with a host that was launched. A round looks at the process and probes the port, and the
rounds follow one another at the poll interval. A handshake for which nobody has to wait is over after as many
rounds as it takes to reach the deadline, and what it found in them says how it ended: the port accepted, the
process has exited, or all probes failed and the process is terminated. -/

namespace CompilationBridge.Supervisor

/-- The process with which a worker that stands here is in the handshake. -/
def Point.greeted? : Point → Option Nat
  | .greet k | .check k _ | .probe k _ | .confirm k | .decide k _ | .asleep k _ _ | .expire k => some k
  | _ => none

variable {s s' s'' : Supervisor} {i k : Nat} {w v : Worker} {e : Surroundings} {pt pt' : Point} {role : Role}
  {hostId : String} {log : List Incident}

/-! ### What a step does to handshakes -/

theorem Point.isBusy_of_greeted (h : pt.greeted? = some k) : pt.isBusy = true := by
  cases pt <;> first | rfl | cases h

theorem Turn.settings_eq (h : Turn s i role hostId e pt pt' s' log) : s'.settings = s.settings := by
  cases h <;> rfl

/-- A handshake begins with the launch of its process. -/
theorem Turn.greeted (h : Turn s i role hostId e pt pt' s' log) (hk : pt'.greeted? = some k) :
    pt.greeted? = some k ∨ k = s.processes.length ∧ pt' = .greet k ∧ k < s'.processes.length := by
  cases h with
  | launch port running =>
      obtain rfl := Option.some_inj.1 hk
      exact Or.inr ⟨rfl, rfl, by simp⟩
  | _ => first | exact Or.inl hk | cases hk

theorem hasExited_iff :
    s.hasExited k = true ↔ ∃ p, s.processes[k]? = some p ∧ p.exitCode.isSome = true := by
  cases hp : s.processes[k]? <;> simp [hasExited, exitCode?, hp]

theorem hasExited_modify {f : Process → Process} (l : Nat)
    (hf : ∀ p, p.exitCode.isSome = true → (f p).exitCode.isSome = true) (h : s.hasExited k = true) :
    ({ s with processes := s.processes.modify l f } : Supervisor).hasExited k = true := by
  obtain ⟨p, hp, hcode⟩ := hasExited_iff.1 h
  refine hasExited_iff.2 ⟨if l = k then f p else p, ?_, ?_⟩
  · rw [List.getElem?_modify, hp]
    rfl
  · split
    · exact hf p hcode
    · exact hcode

/-- A process that has exited stays so. -/
theorem Turn.hasExited (h : Turn s i role hostId e pt pt' s' log) (hk : s.hasExited k = true) :
    s'.hasExited k = true := by
  cases h with
  | launch port running =>
      obtain ⟨p, hp, hcode⟩ := hasExited_iff.1 hk
      refine hasExited_iff.2 ⟨p, ?_, hcode⟩
      exact (List.getElem?_append_left (List.getElem?_eq_some_iff.1 hp).1).trans hp
  | expire | terminate => exact hasExited_modify _ (fun _ h => h) hk
  | _ => exact hk

theorem Turn.length_processes (h : Turn s i role hostId e pt pt' s' log) :
    s.processes.length ≤ s'.processes.length := by
  cases h with
  | launch port running => simp
  | expire | terminate => exact (List.length_modify ..).ge
  | _ => exact le_rfl

/-- Who is there after a turn. -/
theorem Turn.mem_workers (h : Turn s i role hostId e pt pt' s' log) (hw : s.workers[i]? = some w)
    (hv : v ∈ (s'.goTo i pt').workers) :
    v = { w with point := pt' } ∨ (∃ j, j ≠ i ∧ s.workers[j]? = some v) ∨ v.point = .watch := by
  have hlt := (List.getElem?_eq_some_iff.1 hw).1
  obtain ⟨j, hj⟩ := List.getElem?_of_mem hv
  have hkept : i < s'.workers.length ∧ s'.workers[i]? = some w ∧
      (s'.workers[j]? = some v → s.workers[j]? = some v ∨ v.point = .watch) := by
    rcases h.workers with heq | heq <;> rw [heq]
    · exact ⟨hlt, hw, Or.inl⟩
    · refine ⟨by simp; omega, (List.getElem?_append_left hlt).trans hw, fun hv => ?_⟩
      rw [List.getElem?_append] at hv
      split at hv
      · exact Or.inl hv
      · rw [List.mem_singleton.1 (List.mem_of_getElem? hv)]
        exact Or.inr rfl
  obtain ⟨-, hi, hothers⟩ := hkept
  rw [getElem?_goTo] at hj
  split at hj
  · rename_i hij
    rw [← hij, hi] at hj
    exact Or.inl (Option.some_inj.1 hj).symm
  · rename_i hij
    exact Or.inr ((hothers hj).imp_left fun hv => ⟨j, Ne.symm hij, hv⟩)

theorem Point.asleep_or_ready (s : Supervisor) (h : pt.greeted? = some k) :
    (∃ deadline wake, pt = .asleep k deadline wake) ∨ ∀ now, s.isReady now pt = true := by
  cases pt with
  | asleep l deadline wake =>
      cases h
      exact Or.inl ⟨deadline, wake, rfl⟩
  | _ => first | exact Or.inr fun _ => rfl | cases h

namespace Handshake

/-- What a handshake does. -/
inductive Mark where
  | began
  /-- The process is looked at before a probe. -/
  | checked (exited : Bool)
  | probed (accepted : Bool)
  /-- The process is looked at after a probe that was accepted. -/
  | confirmed (exited : Bool)
  | terminated
  | returned (connected : Bool)
deriving DecidableEq

namespace Mark

def isProbe : Mark → Bool
  | .probed _ => true
  | _ => false

/-- Whether it is something that the handshake found out. -/
def isFinding : Mark → Bool
  | .checked _ | .probed _ | .confirmed _ => true
  | _ => false

end Mark

/-- What the handshake does in a step of the worker that stands here. -/
def marks (s : Supervisor) (e : Surroundings) : Point → List Mark
  | .greet _ => [.began]
  | .check k _ => if s.hasExited k then [.checked true, .returned false] else [.checked false]
  | .probe .. => [.probed e.accepts]
  | .confirm k => [.confirmed (s.hasExited k), .returned !s.hasExited k]
  | .expire _ => [.terminated, .returned false]
  | _ => []

/-- What the handshake with a process does in a move. -/
def told (k : Nat) (s : Supervisor) : Move → List Mark
  | .work i e =>
    match s.workers[i]? with
    | some w =>
      if s.isReady e.now w.point ∧ w.point.greeted? = some k then marks s e w.point else []
    | none => []
  | _ => []

/-- What happens: time passes, or a move is made at the time that it is. -/
inductive Occurrence where
  | elapse (span : Nat)
  | move (m : Move)

/-- A move that is made now. -/
def stamp (now : Nat) : Move → Move
  | .work i e => .work i { e with now := now }
  | m => m

/-- A supervisor with the time, and what the handshake with one process has done and when. -/
structure Timeline where
  supervisor : Supervisor
  now : Nat := 0
  story : List (Nat × Mark) := []

def start (settings : Settings.Host) : Timeline :=
  { supervisor := new settings }

namespace Timeline

def take (k : Nat) (c : Timeline) : Occurrence → Timeline
  | .elapse span => { c with now := c.now + span }
  | .move m =>
    { c with
      supervisor := (c.supervisor.take (stamp c.now m)).1
      story := c.story ++ (told k c.supervisor (stamp c.now m)).map fun mark => (c.now, mark) }

def run (k : Nat) (c : Timeline) (occurrences : List Occurrence) : Timeline :=
  occurrences.foldl (take k) c

/-- Time does not pass while the worker that is in the handshake is ready. -/
def InTime (k : Nat) (c : Timeline) : Occurrence → Prop
  | .elapse span => ∀ w ∈ c.supervisor.workers, w.point.greeted? = some k →
    ∀ t < span, c.supervisor.isReady (c.now + t) w.point = false
  | .move _ => True

def Prompt (k : Nat) (c : Timeline) : List Occurrence → Prop
  | [] => True
  | o :: rest => c.InTime k o ∧ (c.take k o).Prompt k rest

instance (k : Nat) (c : Timeline) : (o : Occurrence) → Decidable (c.InTime k o)
  | .elapse span => inferInstanceAs (Decidable (∀ w ∈ c.supervisor.workers, w.point.greeted? = some k →
      ∀ t < span, c.supervisor.isReady (c.now + t) w.point = false))
  | .move _ => .isTrue trivial

instance Prompt.decide (k : Nat) (c : Timeline) :
    (occurrences : List Occurrence) → Decidable (c.Prompt k occurrences)
  | [] => .isTrue trivial
  | o :: rest =>
    have := Prompt.decide k (c.take k o) rest
    inferInstanceAs (Decidable (c.InTime k o ∧ (c.take k o).Prompt k rest))

/-- The looks at the process and the probes, without how the handshake ended. -/
def findings (c : Timeline) : List (Nat × Mark) :=
  c.story.filter fun entry => entry.2.isFinding

def probes (c : Timeline) : List (Nat × Mark) :=
  c.story.filter fun entry => entry.2.isProbe

def Does (c : Timeline) (mark : Mark) : Prop :=
  ∃ t, (t, mark) ∈ c.story

end Timeline

/-- Rounds one interval after the other, in which the process runs and the port does not accept. -/
def rounds (begin interval : Nat) : Nat → List (Nat × Mark)
  | 0 => []
  | n + 1 => rounds begin interval n ++
    [(begin + n * interval, .checked false), (begin + n * interval, .probed false)]

variable {n now begin timeout interval : Nat} {story : List (Nat × Mark)} {c : Timeline}
  {settings : Settings.Host}

/-- What the marks stand for: the process is told to terminate in that step, and the handshake returns
where its worker goes on with a host that is connected, or gives up. -/
theorem mem_marks (hw : s.workers[i]? = some w) (hk : w.point.greeted? = some k) :
    (.terminated ∈ marks s e w.point ↔ .terminated k ∈ (s.act i w e).2) ∧
    (.returned true ∈ marks s e w.point ↔
      (s.act i w e).1.workers[i]? = some { w with point := .settle k }) ∧
    (.returned false ∈ marks s e w.point ↔
      (s.act i w e).1.workers[i]? = some { w with point := .giveUp k }) := by
  obtain ⟨role, hostId, point⟩ := w
  have hgoTo (t : Supervisor) (ht : t.workers = s.workers) (pt : Point) :
      (t.goTo i pt).workers[i]? = some ⟨role, hostId, pt⟩ := by
    rw [getElem?_goTo, if_pos rfl, ht, hw]
    rfl
  cases point with
  | expire l =>
      cases hk
      simp [act, marks, hgoTo (s.markTerminated k) rfl]
  | check | confirm =>
      cases hk
      cases hexited : s.hasExited k <;> simp [act, marks, hexited, hgoTo s rfl]
  | probe l deadline =>
      cases hk
      cases haccepts : e.accepts <;> simp [act, marks, haccepts, hgoTo s rfl]
  | decide l deadline =>
      cases hk
      by_cases hlate : deadline ≤ e.now <;> simp [act, marks, hlate, hgoTo s rfl]
  | greet | asleep =>
      cases hk
      simp [act, marks, hgoTo s rfl]
  | _ => cases hk

/-! ### Where a handshake stands -/

/-- The story of a handshake: the rounds in which nothing was decided, and the last round as far as it has
come. -/
def spell (begin interval n : Nat) (last : List Mark) : List (Nat × Mark) :=
  (begin, .began) :: (rounds begin interval n ++ last.map fun mark => (begin + n * interval, mark))

theorem spell_succ (begin interval n : Nat) :
    spell begin interval (n + 1) [] = spell begin interval n [.checked false, .probed false] := by
  simp [spell, rounds]

theorem spell_append (begin interval n : Nat) (last more : List Mark) :
    spell begin interval n (last ++ more) =
      spell begin interval n last ++ more.map fun mark => (begin + n * interval, mark) := by
  simp [spell]

/-- The handshake that began at a time comes to its next round now, and how many there were. -/
structure Round (timeout interval begin n now : Nat) : Prop where
  now : now = begin + n * interval
  few : n ≤ timeout ⌈/⌉ interval

/-- What a handshake has done when its worker stands at a point. -/
def Stands (timeout interval now : Nat) (story : List (Nat × Mark)) : Point → Prop
  | .greet _ => story = []
  | .check _ deadline => ∃ begin n, deadline = begin + timeout ∧ Round timeout interval begin n now ∧
      story = spell begin interval n []
  | .probe _ deadline => ∃ begin n, deadline = begin + timeout ∧ Round timeout interval begin n now ∧
      story = spell begin interval n [.checked false]
  | .confirm _ => ∃ begin n, Round timeout interval begin n now ∧
      story = spell begin interval n [.checked false, .probed true]
  | .decide _ deadline => ∃ begin n, deadline = begin + timeout ∧ Round timeout interval begin n now ∧
      story = spell begin interval n [.checked false, .probed false]
  | .asleep _ deadline wake => ∃ begin n, deadline = begin + timeout ∧
      Round timeout interval begin (n + 1) wake ∧ now ≤ wake ∧
      story = spell begin interval n [.checked false, .probed false]
  | .expire _ => ∃ begin, Round timeout interval begin (timeout ⌈/⌉ interval) now ∧
      story = spell begin interval (timeout ⌈/⌉ interval) [.checked false, .probed false]
  | _ => True

/-- The last round of a handshake that is over. -/
inductive Ending (exited overdue : Prop) : List Mark → Prop
  | exited (dead : exited) : Ending exited overdue [.checked true, .returned false]
  | connected : Ending exited overdue [.checked false, .probed true, .confirmed false, .returned true]
  /-- The process has exited, so it was not its port that accepted. -/
  | lapsed (dead : exited) :
      Ending exited overdue [.checked false, .probed true, .confirmed true, .returned false]
  | expired (late : overdue) :
      Ending exited overdue [.checked false, .probed false, .terminated, .returned false]

/-- The whole story of a handshake. -/
def Over (timeout interval : Nat) (exited : Prop) (story : List (Nat × Mark)) : Prop :=
  ∃ begin n last, n ≤ timeout ⌈/⌉ interval ∧ Ending exited (n = timeout ⌈/⌉ interval) last ∧
    story = spell begin interval n last

theorem Over.mono {before after : Prop} (h : Over timeout interval before story) (himp : before → after) :
    Over timeout interval after story := by
  obtain ⟨begin, n, last, hfew, hending, rfl⟩ := h
  refine ⟨begin, n, last, hfew, ?_, rfl⟩
  cases hending with
  | exited dead => exact .exited (himp dead)
  | connected => exact .connected
  | lapsed dead => exact .lapsed (himp dead)
  | expired late => exact .expired late

/-- The deadline is reached in the last round, and in no round before. -/
theorem Round.deadline_le (h : Round timeout interval begin n now) (hinterval : 0 < interval) :
    begin + timeout ≤ now ↔ n = timeout ⌈/⌉ interval := by
  have hnow := h.now
  have hlast : timeout ⌈/⌉ interval ≤ n ↔ timeout ≤ n * interval := by
    rw [ceilDiv_le_iff_le_mul hinterval, Nat.mul_comm]
  have hfew := h.few
  omega

/-- How the handshake with a process goes on: its worker goes from one point of it to another, or it is over. -/
def Proceeds (timeout interval k : Nat) (s : Supervisor) (i : Nat) (w : Worker) (e : Surroundings)
    (story : List (Nat × Mark)) : Prop :=
  ∃ pt s' log, Turn s i w.role w.hostId e w.point pt s' log ∧ (s.act i w e).1 = s'.goTo i pt ∧
    (pt.greeted? = some k ∧ Stands timeout interval e.now story pt ∨
      pt.greeted? ≠ some k ∧ Over timeout interval (s'.hasExited k = true) story)

/-- A step of the handshake, and what it adds to its story. -/
theorem proceeds (i : Nat) (hk : w.point.greeted? = some k) (hready : s.isReady e.now w.point = true)
    (hinterval : 0 < interval) (htimeout : s.settings.handshakeTimeout.toNat = timeout)
    (hpoll : s.settings.pollInterval.toNat = interval)
    (hstands : Stands timeout interval e.now story w.point) :
    Proceeds timeout interval k s i w e
      (story ++ (marks s e w.point).map fun mark => (e.now, mark)) := by
  obtain ⟨role, hostId, point⟩ := w
  dsimp only at hk hready hstands ⊢
  cases point with
  | greet l =>
      cases hk
      obtain rfl : story = [] := hstands
      exact ⟨_, _, _, .greet, rfl, Or.inl ⟨rfl, e.now, 0, by rw [htimeout], ⟨by simp, Nat.zero_le _⟩, rfl⟩⟩
  | check l deadline =>
      cases hk
      obtain ⟨begin, n, hdeadline, hround, rfl⟩ := hstands
      rw [hround.now, ← spell_append]
      cases hexited : s.hasExited k with
      | true =>
          refine ⟨_, _, _, .miss hexited, by simp [act, hexited], Or.inr ⟨by rintro ⟨⟩, begin, n, _, hround.few, ?_, rfl⟩⟩
          simpa [marks, hexited] using Ending.exited hexited
      | false =>
          refine ⟨_, _, _, .check, by simp [act, hexited], Or.inl ⟨rfl, begin, n, hdeadline, hround, ?_⟩⟩
          simp [marks, hexited]
  | probe l deadline =>
      cases hk
      obtain ⟨begin, n, hdeadline, hround, rfl⟩ := hstands
      rw [hround.now, ← spell_append]
      cases haccepts : e.accepts with
      | true =>
          refine ⟨_, _, _, .accept, by simp [act, haccepts], Or.inl ⟨rfl, begin, n, hround, ?_⟩⟩
          simp [marks, haccepts]
      | false =>
          refine ⟨_, _, _, .reject, by simp [act, haccepts], Or.inl ⟨rfl, begin, n, hdeadline, hround, ?_⟩⟩
          simp [marks, haccepts]
  | confirm l =>
      cases hk
      obtain ⟨begin, n, hround, rfl⟩ := hstands
      rw [hround.now, ← spell_append]
      cases hexited : s.hasExited k with
      | true =>
          refine ⟨_, _, _, .lapse hexited, by simp [act, hexited], Or.inr ⟨by rintro ⟨⟩, begin, n, _, hround.few, ?_, rfl⟩⟩
          simpa [marks, hexited] using Ending.lapsed hexited
      | false =>
          refine ⟨_, _, _, .confirm, by simp [act, hexited], Or.inr ⟨by rintro ⟨⟩, begin, n, _, hround.few, ?_, rfl⟩⟩
          simpa [marks, hexited] using Ending.connected
  | decide l deadline =>
      cases hk
      obtain ⟨begin, n, rfl, hround, rfl⟩ := hstands
      have hlast := hround.deadline_le hinterval
      have hquiet : marks s e (.decide k (begin + timeout)) = [] := rfl
      rw [hquiet, List.map_nil, List.append_nil]
      by_cases hlate : begin + timeout ≤ e.now
      · obtain rfl := hlast.1 hlate
        exact ⟨_, _, _, .tooLate, by simp [act, hlate], Or.inl ⟨rfl, begin, hround, rfl⟩⟩
      · refine ⟨_, _, _, .sleep _, by simp [act, hlate]; rfl, Or.inl ⟨rfl, begin, n, rfl, ⟨?_, ?_⟩, ?_, rfl⟩⟩
        · rw [hpoll, hround.now, Nat.succ_mul, Nat.add_assoc]
        · exact lt_of_le_of_ne hround.few fun heq => hlate (hlast.2 heq)
        · exact Nat.le_add_right ..
  | asleep l deadline wake =>
      cases hk
      obtain ⟨begin, n, hdeadline, hround, hwake, rfl⟩ := hstands
      have hnow : e.now = wake := Nat.le_antisymm hwake (of_decide_eq_true hready)
      have hquiet : marks s e (.asleep k deadline wake) = [] := rfl
      rw [hquiet, List.map_nil, List.append_nil]
      exact ⟨_, _, _, .wake, rfl,
        Or.inl ⟨rfl, begin, n + 1, hdeadline, hnow ▸ hround, (spell_succ begin interval n).symm⟩⟩
  | expire l =>
      cases hk
      obtain ⟨begin, hround, rfl⟩ := hstands
      rw [hround.now, ← spell_append]
      exact ⟨_, _, _, .expire, rfl, Or.inr ⟨by rintro ⟨⟩, begin, _, _, le_rfl, .expired rfl, rfl⟩⟩
  | _ => cases hk

/-! ### Runs -/

/-- What has happened to the handshake with a process, if there was one. -/
structure Told (timeout interval k : Nat) (c : Timeline) : Prop where
  custody : Custody c.supervisor
  settings : c.supervisor.settings.handshakeTimeout.toNat = timeout ∧
    c.supervisor.settings.pollInterval.toNat = interval
  fresh : c.supervisor.processes.length ≤ k → c.story = []
  launched : ∀ w ∈ c.supervisor.workers, w.point.greeted? = some k → k < c.supervisor.processes.length
  stands : ∀ w ∈ c.supervisor.workers, w.point.greeted? = some k →
    Stands timeout interval c.now c.story w.point
  finished : (∀ w ∈ c.supervisor.workers, w.point.greeted? ≠ some k) →
    c.story = [] ∨ Over timeout interval (c.supervisor.hasExited k = true) c.story

theorem Told.start (settings : Settings.Host) (k : Nat) :
    Told settings.handshakeTimeout.toNat settings.pollInterval.toNat k (start settings) where
  custody := custody_new settings
  settings := ⟨rfl, rfl⟩
  fresh _ := rfl
  launched _ hw := absurd hw List.not_mem_nil
  stands _ hw := absurd hw List.not_mem_nil
  finished _ := Or.inl rfl

/-- The worker in the handshake takes a step. -/
theorem Told.advance (h : Told timeout interval k c) (hw : c.supervisor.workers[i]? = some w)
    (hk : w.point.greeted? = some k) (hcustody : Custody s')
    (hgoes : Proceeds timeout interval k c.supervisor i w e story) (hs' : s' = (c.supervisor.act i w e).1)
    (hnow : e.now = c.now) : Told timeout interval k ⟨s', c.now, story⟩ := by
  obtain ⟨pt, s'', log, hturn, hact, hgoes⟩ := hgoes
  obtain rfl : s' = s''.goTo i pt := hs'.trans hact
  have hlaunched : k < s''.processes.length :=
    (h.launched w (List.mem_of_getElem? hw) hk).trans_le hturn.length_processes
  -- nobody else is in this handshake, since its worker is the busy one
  have hsole : ∀ v ∈ (s''.goTo i pt).workers, v.point.greeted? = some k → v = { w with point := pt } := by
    intro v hv hvk
    rcases hturn.mem_workers hw hv with heq | ⟨j, hji, hj⟩ | hwatch
    · exact heq
    · exact absurd (h.custody.busy j i v w hj hw (Point.isBusy_of_greeted hvk) (Point.isBusy_of_greeted hk)) hji
    · rw [hwatch] at hvk
      cases hvk
  have hthere : ({ w with point := pt } : Worker) ∈ (s''.goTo i pt).workers := by
    refine List.mem_of_getElem? (i := i) ?_
    rcases hturn.workers with heq | heq
    · simp [getElem?_goTo, heq, hw]
    · simp [getElem?_goTo, heq, List.getElem?_append_left (List.getElem?_eq_some_iff.1 hw).1, hw]
  refine ⟨hcustody, ?_, fun hk => absurd hlaunched hk.not_gt, fun _ _ _ => hlaunched, ?_, ?_⟩
  · show s''.settings.handshakeTimeout.toNat = timeout ∧ s''.settings.pollInterval.toNat = interval
    rw [hturn.settings_eq]
    exact h.settings
  · intro v hv hvk
    obtain rfl := hsole v hv hvk
    rcases hgoes with ⟨-, hstands⟩ | ⟨hne, -⟩
    · exact hnow ▸ hstands
    · exact absurd hvk hne
  · intro hnone
    rcases hgoes with ⟨hpt, -⟩ | ⟨-, hover⟩
    · exact absurd hpt (hnone _ hthere)
    · exact Or.inr hover

/-- Another worker takes a step, which may launch the process. -/
theorem Told.aside (h : Told timeout interval k c) (hw : c.supervisor.workers[i]? = some w)
    (hk : w.point.greeted? ≠ some k) (hcustody : Custody s') (hacts : Acts c.supervisor i w e pt s'' log)
    (hs' : s' = (c.supervisor.act i w e).1) : Told timeout interval k ⟨s', c.now, c.story⟩ := by
  obtain rfl : s' = s''.goTo i pt := hs'.trans hacts.state
  have hturn := hacts.turn
  refine ⟨hcustody, ?_, fun hle => h.fresh (hturn.length_processes.trans hle), ?_, ?_, ?_⟩
  · show s''.settings.handshakeTimeout.toNat = timeout ∧ s''.settings.pollInterval.toNat = interval
    rw [hturn.settings_eq]
    exact h.settings
  · intro v hv hvk
    rcases hturn.mem_workers hw hv with rfl | ⟨j, -, hj⟩ | hwatch
    · exact ((hturn.greeted hvk).resolve_left hk).2.2
    · exact (h.launched v (List.mem_of_getElem? hj) hvk).trans_le hturn.length_processes
    · rw [hwatch] at hvk
      cases hvk
  · intro v hv hvk
    rcases hturn.mem_workers hw hv with rfl | ⟨j, -, hj⟩ | hwatch
    · obtain ⟨hnew, hpt, -⟩ := (hturn.greeted hvk).resolve_left hk
      show Stands timeout interval c.now c.story pt
      rw [hpt]
      exact h.fresh hnew.ge
    · exact h.stands v (List.mem_of_getElem? hj) hvk
    · rw [hwatch] at hvk
      cases hvk
  · intro hnone
    refine (h.finished fun v hv hvk => ?_).imp_right fun hover => hover.mono hturn.hasExited
    obtain ⟨j, hj⟩ := List.getElem?_of_mem hv
    have hji : i ≠ j := by
      rintro rfl
      obtain rfl := Option.some_inj.1 (hw.symm.trans hj)
      exact hk hvk
    have hget : (s''.goTo i pt).workers[j]? = some v := by
      rw [getElem?_goTo, if_neg hji]
      rcases hturn.workers with heq | heq
      · rw [heq, hj]
      · rw [heq, List.getElem?_append_left (List.getElem?_eq_some_iff.1 hj).1, hj]
    exact hnone v (List.mem_of_getElem? hget) hvk

/-- Calls come in. -/
theorem Told.enroll (h : Told timeout interval k c) (hw : w.point.greeted? = none)
    (hcustody : Custody { c.supervisor with workers := c.supervisor.workers ++ [w] }) :
    Told timeout interval k { c with
      supervisor := { c.supervisor with workers := c.supervisor.workers ++ [w] } } := by
  have hold : ∀ v ∈ c.supervisor.workers ++ [w], v.point.greeted? = some k → v ∈ c.supervisor.workers := by
    intro v hv hvk
    refine (List.mem_append.1 hv).resolve_right fun hv => ?_
    rw [List.mem_singleton.1 hv, hw] at hvk
    cases hvk
  refine ⟨hcustody, h.settings, h.fresh, fun v hv hvk => h.launched v (hold v hv hvk) hvk,
    fun v hv hvk => h.stands v (hold v hv hvk) hvk, fun hnone => ?_⟩
  exact h.finished fun v hv => hnone v (List.mem_append_left _ hv)

theorem Told.exit (h : Told timeout interval k c) (process : Nat) (code : Int) :
    Told timeout interval k { c with supervisor := c.supervisor.exit process code } where
  custody := custody_exit h.custody process code
  settings := h.settings
  fresh hle := h.fresh (by simpa [Supervisor.exit] using hle)
  launched w hw hk := by simpa [Supervisor.exit] using h.launched w hw hk
  stands := h.stands
  finished hnone := (h.finished hnone).imp_right fun hover => hover.mono (hasExited_modify process fun _ _ => rfl)

/-- Time passes, and the worker in the handshake sleeps. -/
theorem Told.elapse (h : Told timeout interval k c) {span : Nat} (hclock : c.InTime k (.elapse span)) :
    Told timeout interval k { c with now := c.now + span } where
  custody := h.custody
  settings := h.settings
  fresh := h.fresh
  launched := h.launched
  stands w hw hk := by
    have hstands := h.stands w hw hk
    have hasleep := hclock w hw hk
    rcases Point.asleep_or_ready c.supervisor hk with ⟨deadline, wake, hp⟩ | hready
    · rw [hp] at hstands hasleep ⊢
      obtain ⟨begin, n, hdeadline, hround, hwake, hstory⟩ := hstands
      refine ⟨begin, n, hdeadline, hround, ?_, hstory⟩
      show c.now + span ≤ wake
      by_contra hpast
      have hlate : ¬ wake ≤ c.now + (wake - c.now) :=
        of_decide_eq_false (hasleep (wake - c.now) (by omega))
      omega
    · obtain rfl : span = 0 := by
        by_contra hspan
        exact absurd (hready _) (Bool.eq_false_iff.1 (hasleep 0 (Nat.pos_of_ne_zero hspan)))
      exact hstands
  finished := h.finished

theorem Timeline.take_quiet {m : Move} (hm : told k c.supervisor (stamp c.now m) = []) :
    c.take k (.move m) = { c with supervisor := (c.supervisor.take (stamp c.now m)).1 } := by
  simp [Timeline.take, hm]

theorem Told.work (h : Told timeout interval k c) (hinterval : 0 < interval) (hnow : e.now = c.now)
    (hcustody : Custody (c.supervisor.take (.work i e)).1) :
    Told timeout interval k ⟨(c.supervisor.take (.work i e)).1, c.now,
      c.story ++ (told k c.supervisor (.work i e)).map fun mark => (c.now, mark)⟩ := by
  rcases hw : c.supervisor.workers[i]? with _ | w
  · simpa [Supervisor.take, step, told, hw] using h
  by_cases hready : c.supervisor.isReady e.now w.point = true
  swap
  · simpa [Supervisor.take, step, told, hw, hready] using h
  have htake : (c.supervisor.take (.work i e)).1 = (c.supervisor.act i w e).1 := by
    simp [Supervisor.take, step, hw, hready]
  by_cases hk : w.point.greeted? = some k
  · have hstands := h.stands w (List.mem_of_getElem? hw) hk
    have htold : told k c.supervisor (.work i e) = marks c.supervisor e w.point := by
      simp [told, hw, hready, hk]
    have hgoes := proceeds i hk hready hinterval h.settings.1 h.settings.2 (hnow ▸ hstands)
    rw [hnow] at hgoes
    rw [htold]
    exact h.advance hw hk hcustody hgoes htake hnow
  · obtain ⟨pt, s', log, hacts⟩ := exists_acts (i := i) hready
    simpa [told, hw, hk] using h.aside hw hk hcustody hacts htake

theorem Told.take (h : Told timeout interval k c) (hinterval : 0 < interval) {o : Occurrence}
    (hclock : c.InTime k o) : Told timeout interval k (c.take k o) := by
  cases o with
  | elapse span => exact h.elapse hclock
  | move m =>
      have hcustody := custody_take c.supervisor (stamp c.now m) h.custody
      cases m with
      | start hostId =>
          rw [Timeline.take_quiet rfl]
          exact h.enroll (w := ⟨.starter, hostId, .entry⟩) rfl hcustody
      | stop =>
          rw [Timeline.take_quiet rfl]
          exact h.enroll (w := ⟨.stopper, "", .halt⟩) rfl hcustody
      | exit process code =>
          rw [Timeline.take_quiet rfl]
          exact h.exit process code
      | work i e => exact h.work hinterval rfl hcustody

theorem Told.run (h : Told timeout interval k c) (hinterval : 0 < interval) {occurrences : List Occurrence}
    (hclock : c.Prompt k occurrences) : Told timeout interval k (c.run k occurrences) := by
  induction occurrences generalizing c with
  | nil => exact h
  | cons o rest ih => exact ih (h.take hinterval hclock.1) hclock.2

/-! ### What the handshake found -/

theorem findings_rounds (begin interval n : Nat) :
    (rounds begin interval n).filter (fun entry => entry.2.isFinding) = rounds begin interval n := by
  induction n with
  | zero => rfl
  | succ n ih =>
      rw [rounds, List.filter_append, ih]
      rfl

theorem probes_rounds (begin interval n : Nat) :
    ((rounds begin interval n).filter fun entry => entry.2.isProbe).length = n := by
  induction n with
  | zero => rfl
  | succ n ih =>
      rw [rounds, List.filter_append, List.length_append, ih]
      rfl

/-- In the rounds before the last nothing is found but a process that runs and a port that does not accept. -/
theorem mem_rounds {t : Nat} {mark : Mark} (h : (t, mark) ∈ rounds begin interval n) :
    mark = .checked false ∨ mark = .probed false := by
  induction n with
  | zero => cases h
  | succ n ih =>
      rcases List.mem_append.1 h with h | h
      · exact ih h
      · simp only [List.mem_cons, Prod.mk.injEq, List.not_mem_nil, or_false] at h
        exact h.imp And.right And.right

/-- A handshake that has begun, by its rounds and the last of them. -/
structure Spelled (timeout interval begin n : Nat) (last : List Mark) (exited : Prop) (c : Timeline) : Prop where
  story : c.story = spell begin interval n last
  few : n ≤ timeout ⌈/⌉ interval
  /-- It is over, or under way and in time. -/
  last : Ending exited (n = timeout ⌈/⌉ interval) last ∨
    last ∈ [[], [.checked false], [.checked false, .probed true], [.checked false, .probed false]] ∧
      c.now ≤ begin + timeout ⌈/⌉ interval * interval

theorem Stands.spelled {exited : Prop} (h : Stands timeout interval c.now c.story pt)
    (hpt : pt.greeted? = some k) (hbegun : c.story ≠ []) :
    ∃ begin n last, Spelled timeout interval begin n last exited c := by
  have hearly {begin n : Nat} (hround : Round timeout interval begin n c.now) :
      c.now ≤ begin + timeout ⌈/⌉ interval * interval :=
    hround.now.le.trans (Nat.add_le_add_left (Nat.mul_le_mul_right _ hround.few) _)
  cases pt with
  | greet l => exact absurd h hbegun
  | check l deadline =>
      obtain ⟨begin, n, -, hround, hstory⟩ := h
      exact ⟨begin, n, _, hstory, hround.few, Or.inr ⟨by simp, hearly hround⟩⟩
  | probe l deadline =>
      obtain ⟨begin, n, -, hround, hstory⟩ := h
      exact ⟨begin, n, _, hstory, hround.few, Or.inr ⟨by simp, hearly hround⟩⟩
  | confirm l =>
      obtain ⟨begin, n, hround, hstory⟩ := h
      exact ⟨begin, n, _, hstory, hround.few, Or.inr ⟨by simp, hearly hround⟩⟩
  | decide l deadline =>
      obtain ⟨begin, n, -, hround, hstory⟩ := h
      exact ⟨begin, n, _, hstory, hround.few, Or.inr ⟨by simp, hearly hround⟩⟩
  | asleep l deadline wake =>
      obtain ⟨begin, n, -, hround, hwake, hstory⟩ := h
      refine ⟨begin, n, _, hstory, (Nat.le_succ n).trans hround.few, Or.inr ⟨by simp, hwake.trans ?_⟩⟩
      exact hround.now.le.trans (Nat.add_le_add_left (Nat.mul_le_mul_right _ hround.few) _)
  | expire l =>
      obtain ⟨begin, hround, hstory⟩ := h
      exact ⟨begin, _, _, hstory, le_rfl, Or.inr ⟨by simp, hearly hround⟩⟩
  | _ => cases hpt

theorem Told.exists_spelled (h : Told timeout interval k c) (hbegun : c.story ≠ []) :
    ∃ begin n last, Spelled timeout interval begin n last (c.supervisor.hasExited k = true) c := by
  by_cases hgreeted : ∃ w ∈ c.supervisor.workers, w.point.greeted? = some k
  · obtain ⟨w, hw, hk⟩ := hgreeted
    exact (h.stands w hw hk).spelled hk hbegun
  · have hover := h.finished fun w hw hk => hgreeted ⟨w, hw, hk⟩
    obtain ⟨begin, n, last, hfew, hending, hstory⟩ := hover.resolve_left hbegun
    exact ⟨begin, n, last, hstory, hfew, Or.inl hending⟩

namespace Spelled

variable {last : List Mark} {exited : Prop}

theorem findings (h : Spelled timeout interval begin n last exited c) :
    c.findings = rounds begin interval n ++
      (last.filter Mark.isFinding).map fun mark => (begin + n * interval, mark) := by
  have hmap : (last.map fun mark => (begin + n * interval, mark)).filter (fun entry => entry.2.isFinding) =
      (last.filter Mark.isFinding).map fun mark => (begin + n * interval, mark) := by
    rw [List.filter_map]
    rfl
  rw [Timeline.findings, h.story, spell, List.filter_cons_of_neg Bool.false_ne_true, List.filter_append,
    findings_rounds, hmap]

theorem probes_length (h : Spelled timeout interval begin n last exited c) :
    c.probes.length = n + (last.filter Mark.isProbe).length := by
  have hmap : ((last.map fun mark => (begin + n * interval, mark)).filter fun entry => entry.2.isProbe).length =
      (last.filter Mark.isProbe).length := by
    rw [List.filter_map, List.length_map]
    rfl
  rw [Timeline.probes, h.story, spell, List.filter_cons_of_neg Bool.false_ne_true, List.filter_append,
    List.length_append, probes_rounds, hmap]

/-- How the handshake ended is said in its last round. -/
theorem does (h : Spelled timeout interval begin n last exited c) (mark : Mark)
    (hmark : mark ∉ [.began, .checked false, .probed false] := by simp) : c.Does mark ↔ mark ∈ last := by
  simp only [List.mem_cons, List.not_mem_nil, or_false, not_or] at hmark
  obtain ⟨hbegan, hchecked, hprobed⟩ := hmark
  constructor
  · rintro ⟨t, ht⟩
    rw [h.story, spell, List.mem_cons, List.mem_append] at ht
    rcases ht with ht | ht | ht
    · exact absurd (congrArg Prod.snd ht) hbegan
    · exact ((mem_rounds ht).elim hchecked hprobed).elim
    · obtain ⟨m, hm, heq⟩ := List.mem_map.1 ht
      obtain rfl : m = mark := congrArg Prod.snd heq
      exact hm
  · intro hlast
    refine ⟨begin + n * interval, ?_⟩
    rw [h.story]
    exact List.mem_cons_of_mem _ (List.mem_append_right _ (List.mem_map_of_mem hlast))

theorem not_mem_last (h : Spelled timeout interval begin n last exited c) : Mark.began ∉ last := by
  rcases h.last with hending | ⟨hpart, -⟩
  · cases hending <;> simp
  · simp only [List.mem_cons, List.not_mem_nil, or_false] at hpart
    rcases hpart with rfl | rfl | rfl | rfl <;> simp

theorem begin_eq (h : Spelled timeout interval begin n last exited c) {t : Nat}
    (ht : (t, .began) ∈ c.story) : t = begin := by
  rw [h.story, spell, List.mem_cons, List.mem_append] at ht
  rcases ht with ht | ht | ht
  · exact congrArg Prod.fst ht
  · rcases mem_rounds ht with hmark | hmark <;> cases hmark
  · obtain ⟨mark, hmark, heq⟩ := List.mem_map.1 ht
    obtain rfl : mark = .began := congrArg Prod.snd heq
    exact absurd hmark h.not_mem_last

/-- The last round has one probe at most. -/
theorem few_probes (h : Spelled timeout interval begin n last exited c) :
    c.probes.length ≤ timeout ⌈/⌉ interval + 1 := by
  have hlast : (last.filter Mark.isProbe).length ≤ 1 := by
    rcases h.last with hending | ⟨hpart, -⟩
    · cases hending <;> decide
    · simp only [List.mem_cons, List.not_mem_nil, or_false] at hpart
      rcases hpart with rfl | rfl | rfl | rfl <;> decide
  rw [h.probes_length]
  exact Nat.add_le_add h.few hlast

/-- A handshake that has returned is over. -/
theorem returned_iff (h : Spelled timeout interval begin n last exited c) :
    (∃ b, c.Does (.returned b)) ↔ Ending exited (n = timeout ⌈/⌉ interval) last := by
  rw [exists_congr fun b => h.does (.returned b)]
  constructor
  · rintro ⟨b, hb⟩
    refine h.last.resolve_right ?_
    rintro ⟨hpart, -⟩
    simp only [List.mem_cons, List.not_mem_nil, or_false] at hpart
    rcases hpart with rfl | rfl | rfl | rfl <;> simp at hb
  · intro hending
    cases hending <;> simp

theorem connected_iff (h : Spelled timeout interval begin n last exited c) :
    c.Does (.returned true) ↔ ∃ m ≤ timeout ⌈/⌉ interval, c.findings = rounds begin interval m ++
      [(begin + m * interval, .checked false), (begin + m * interval, .probed true),
        (begin + m * interval, .confirmed false)] := by
  rw [h.does (.returned true)]
  constructor
  · intro hreturned
    have hending := h.returned_iff.1 ⟨true, (h.does _).2 hreturned⟩
    cases hending with
    | connected => exact ⟨n, h.few, h.findings⟩
    | _ => simp at hreturned
  · rintro ⟨m, -, hfindings⟩
    -- no other last round has a second look at a process that runs
    have hconfirmed : (begin + m * interval, .confirmed false) ∈ c.findings := by
      rw [hfindings]
      simp
    have hlast : Mark.confirmed false ∈ last :=
      (h.does _).1 ⟨_, List.mem_of_mem_filter hconfirmed⟩
    rcases h.last with hending | ⟨hpart, -⟩
    · cases hending <;> simp_all
    · simp only [List.mem_cons, List.not_mem_nil, or_false] at hpart
      rcases hpart with rfl | rfl | rfl | rfl <;> simp at hlast

theorem terminated_iff (h : Spelled timeout interval begin n last exited c) :
    c.Does .terminated ↔ (∃ b, c.Does (.returned b)) ∧
      c.findings = rounds begin interval (timeout ⌈/⌉ interval + 1) := by
  rw [h.does .terminated, h.returned_iff]
  constructor
  · intro hterminated
    rcases h.last with hending | ⟨hpart, -⟩
    · refine ⟨hending, ?_⟩
      cases hending with
      | expired late => exact late ▸ h.findings
      | _ => simp at hterminated
    · simp only [List.mem_cons, List.not_mem_nil, or_false] at hpart
      rcases hpart with rfl | rfl | rfl | rfl <;> simp at hterminated
  · rintro ⟨hending, hfindings⟩
    have hplain {t : Nat} {mark : Mark} (hmem : (t, mark) ∈ c.findings) :
        mark = .checked false ∨ mark = .probed false := mem_rounds (hfindings ▸ hmem)
    have hlast (mark : Mark) (hmark : mark ∈ last.filter Mark.isFinding) :
        mark = .checked false ∨ mark = .probed false := by
      refine hplain (t := begin + n * interval) ?_
      rw [h.findings]
      exact List.mem_append_right _ (List.mem_map_of_mem hmark)
    cases hending with
    | expired late => simp
    | exited dead => cases hlast (.checked true) (by simp [Mark.isFinding]) <;> contradiction
    | connected | lapsed dead =>
        cases hlast (.probed true) (by simp [Mark.isFinding]) <;> contradiction

/-- A handshake that failed without terminating the process found that it has exited. -/
theorem exited_of_failed (h : Spelled timeout interval begin n last exited c)
    (hfailed : c.Does (.returned false)) (hspared : ¬ c.Does .terminated) : exited := by
  have hending := h.returned_iff.1 ⟨false, hfailed⟩
  rw [h.does (.returned false)] at hfailed
  rw [h.does .terminated] at hspared
  cases hending with
  | exited dead | lapsed dead => exact dead
  | connected => simp at hfailed
  | expired late => simp at hspared

end Spelled

/-- **The handshake ends and decides correctly.** Whatever else the workers do, however the port answers and
whenever the process exits, if time does not pass while the worker of the handshake is ready: there are at
most as many probes as intervals reach the deadline, and one more; once the deadline is passed by less than an
interval the handshake has returned; it succeeds exactly if a probe among these was accepted, all earlier ones
failed and the process was running whenever it was looked at; it terminates the process exactly if all these
probes failed with the process running each time; and if it fails otherwise the process has exited. -/
theorem handshake_decides {settings : Settings.Host} {k begin : Nat} {occurrences : List Occurrence}
    (hinterval : 0 < settings.pollInterval) (hprompt : (start settings).Prompt k occurrences)
    (hbegan : (begin, .began) ∈ ((start settings).run k occurrences).story) :
    let interval := settings.pollInterval.toNat
    let most := settings.handshakeTimeout.toNat ⌈/⌉ interval
    let c := (start settings).run k occurrences
    c.probes.length ≤ most + 1 ∧
    (begin + most * interval < c.now → ∃ b, c.Does (.returned b)) ∧
    (c.Does (.returned true) ↔ ∃ m ≤ most, c.findings = rounds begin interval m ++
      [(begin + m * interval, .checked false), (begin + m * interval, .probed true),
        (begin + m * interval, .confirmed false)]) ∧
    (c.Does .terminated ↔ (∃ b, c.Does (.returned b)) ∧ c.findings = rounds begin interval (most + 1)) ∧
    (c.Does (.returned false) → ¬ c.Does .terminated → c.supervisor.hasExited k = true) := by
  intro interval most c
  have htold := (Told.start settings k).run (by omega : 0 < interval) hprompt
  obtain ⟨begin', n, last, h⟩ := htold.exists_spelled (List.ne_nil_of_mem hbegan)
  obtain rfl := h.begin_eq hbegan
  refine ⟨h.few_probes, fun hlate => h.returned_iff.2 (h.last.resolve_right ?_), h.connected_iff,
    h.terminated_iff, h.exited_of_failed⟩
  rintro ⟨-, hintime⟩
  exact absurd hlate hintime.not_gt

/-- An interval that does not divide the timeout: the probes come at 0, 10, 20 and, past the deadline at 25,
at 30. -/
theorem handshake_decides_expired :
    let settings : Settings.Host := { handshakeTimeout := 25, pollInterval := 10 }
    let turn : Occurrence := .move (.work 0 { now := 0 })
    let round := [turn, turn, turn, .elapse 10, turn]
    let occurrences := [.move (.start "h"), turn, turn, turn] ++ round ++ round ++ round ++
      [turn, turn, turn, turn, .elapse 1]
    let c := (start settings).run 0 occurrences
    (start settings).Prompt 0 occurrences ∧ c.probes.length ≤ 4 ∧ c.findings = rounds 0 10 4 ∧
      c.Does .terminated := by
  intro settings turn round occurrences c
  have hprompt : (start settings).Prompt 0 occurrences := by decide +kernel
  have hfindings : c.findings = rounds 0 10 4 := by decide +kernel
  have hmost : settings.handshakeTimeout.toNat ⌈/⌉ settings.pollInterval.toNat = 3 := by decide +kernel
  obtain ⟨hfew, hends, -, hterminated, -⟩ := handshake_decides (by decide) hprompt
    (by decide +kernel : (0, .began) ∈ c.story)
  rw [hmost] at hfew hends hterminated
  exact ⟨hprompt, hfew, hfindings, hterminated.2 ⟨hends (by decide +kernel), hfindings⟩⟩

end Handshake

end CompilationBridge.Supervisor
