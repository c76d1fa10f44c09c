import CompilationBridge.Proofs.Attendance

/-! The idle timer. Each time that a session is begun, refused or ended the timer starts anew if no session is
left and stops otherwise, so while it runs nobody is connected, and it expires the idle timeout after the last
of these calls. A full shutdown goes through the same timer: an exit makes it expire at once. The calls refresh
it all the same, so the shutdown is kept exactly if none of them comes before the callback of the timer. -/

namespace CompilationBridge.Attendance

/-- The states in which the callback of the timer runs. -/
def Callback (s : Attendance) (moves : List Move) (r : Attendance) : Prop :=
  ∃ before after, moves = before ++ .expire :: after ∧ r = s.run before

/-- The clock does not go past the time at which the timer is due. -/
def Move.InTime (s : Attendance) : Move → Prop
  | .elapse span => ∀ due ∈ s.timer, s.now + span ≤ due
  | _ => True

def Punctual (s : Attendance) : List Move → Prop
  | [] => True
  | move :: rest => move.InTime s ∧ (s.take move).Punctual rest

instance (s : Attendance) : (move : Move) → Decidable (move.InTime s)
  | .elapse span => inferInstanceAs (Decidable (∀ due ∈ s.timer, s.now + span ≤ due))
  | .connect .. | .disconnect _ | .request .. | .emit _ | .announce _ | .elsewhere _ | .expire =>
    .isTrue trivial

instance Punctual.decide (s : Attendance) : (moves : List Move) → Decidable (s.Punctual moves)
  | [] => .isTrue trivial
  | move :: rest =>
    have := Punctual.decide (s.take move) rest
    inferInstanceAs (Decidable (move.InTime s ∧ (s.take move).Punctual rest))

variable {s s₀ t : Attendance} {b : Bridge} {id : Handle} {move : Move} {moves : List Move} {timeout T : Nat}

/-! ### Sessions that begin and end -/

/-- A session was begun, refused or ended: the timer is refreshed over what has become of the stores. -/
def Called (s t : Attendance) : Prop :=
  ∃ b : Bridge, t = s.call (b.refreshTimer s.now) ∧ b.idleTimeout = s.bridge.idleTimeout ∧
    b.fullShutdown = s.bridge.fullShutdown

theorem called_openSession (s : Attendance) (id : Handle) (connection : Option String) :
    Called s (s.call (s.bridge.openSession id connection s.now).1) := by
  cases connection with
  | none => exact ⟨s.bridge, rfl, rfl, rfl⟩
  | some name => exact ⟨{ s.bridge with
      editors := { s.bridge.editors with clients := s.bridge.editors.clients.put id name }
      sessions := s.bridge.sessions.set { id := id }
      connections := s.bridge.connections + 1 }, rfl, rfl, rfl⟩

theorem called_endSession (s : Attendance) (id : Handle) : Called s (s.call (s.bridge.endSession id s.now)) :=
  ⟨{ s.bridge with
    editors := s.bridge.editors.deregister id
    sessions := s.bridge.sessions.delete id }, rfl, rfl, rfl⟩

theorem timer_refreshTimer {now due : Nat} :
    (b.refreshTimer now).timer = some due ↔ b.sessions.count = 0 ∧ due = now + b.idleTimeout := by
  simp only [Bridge.refreshTimer]
  split <;> grind

theorem Turn.idleTimeout (ht : Turn s move t) : t.bridge.idleTimeout = s.bridge.idleTimeout := by
  cases ht with
  | connect id connection =>
      obtain ⟨b, hcalled, htimeout, -⟩ := called_openSession s id connection
      exact hcalled ▸ htimeout
  | rest _ hrests => exact hrests.idleTimeout
  | _ => rfl

/-! ### The timer of a bridge that is not to be shut down -/

/-- When the timer is armed, and for when. -/
structure Idle (timeout : Nat) (s : Attendance) : Prop where
  calm : s.bridge.fullShutdown = false
  due : ∀ due, s.timer = some due → s.sessions.count = 0 ∧ due = s.lastCall + timeout ∧ s.fired = false
  armed : s.sessions.count = 0 → s.timer = some (s.lastCall + timeout) ∨ s.fired = true

theorem Rests.count {b b' : Bridge} (h : Rests b b') : b'.sessions.count = 0 ↔ b.sessions.count = 0 := by
  rw [count_eq_zero, count_eq_zero]
  exact forall_congr' fun id => not_congr (h.ids id)

theorem Idle.called (h : Idle timeout s) (htimeout : s.bridge.idleTimeout = timeout) (ht : Called s t) :
    Idle timeout t := by
  obtain ⟨b, rfl, hsame, hfull⟩ := ht
  rw [htimeout] at hsame
  refine ⟨hfull.trans h.calm, fun due htimer => ?_, fun hcount => Or.inl ?_⟩
  · obtain ⟨hcount, hdue⟩ := timer_refreshTimer.1 htimer
    exact ⟨hcount, hsame ▸ hdue, rfl⟩
  · exact timer_refreshTimer.2 ⟨hcount, hsame ▸ rfl⟩

theorem Idle.turn (h : Idle timeout s) (htimeout : s.bridge.idleTimeout = timeout) (ht : Turn s move t)
    (hcalm : ∀ id, move ≠ .request id .fullShutdown) : Idle timeout t := by
  cases ht with
  | connect id connection => exact h.called htimeout (called_openSession s id connection)
  | leave id _ => exact h.called htimeout (called_endSession s id)
  | stop id hfull => exact absurd (hfull.symm.trans h.calm) (by decide)
  | full id => exact absurd rfl (hcalm id)
  | expire htimer hdue => exact ⟨h.calm, nofun, fun _ => Or.inr rfl⟩
  | absent | early => exact h
  | elapse span => exact ⟨h.calm, h.due, h.armed⟩
  | rest hmove hrests =>
      refine ⟨hrests.fullShutdown.trans h.calm, fun due htimer => ?_, fun hcount => ?_⟩
      · obtain ⟨hcount, hdue⟩ := h.due due (hrests.timer.symm.trans htimer)
        exact ⟨hrests.count.2 hcount, hdue⟩
      · exact (h.armed (hrests.count.1 hcount)).imp_left hrests.timer.trans

/-- What a punctual clock adds: no armed timer is overdue, and each expiry was asked for in time. -/
structure Prompt (timeout : Nat) (s : Attendance) : Prop where
  ahead : ∀ due, s.timer = some due → s.now ≤ due
  asked : s.fired = true → s.lastCall + timeout ∈ s.asked

theorem Prompt.called (ht : Called s t) : Prompt timeout t := by
  obtain ⟨b, rfl, -⟩ := ht
  refine ⟨fun due htimer => ?_, nofun⟩
  obtain ⟨-, hdue⟩ := timer_refreshTimer.1 htimer
  exact hdue ▸ Nat.le_add_right s.now b.idleTimeout

theorem Prompt.turn (h : Prompt timeout s) (hidle : Idle timeout s) (ht : Turn s move t)
    (hclock : move.InTime s) : Prompt timeout t := by
  cases ht with
  | connect id connection => exact .called (called_openSession s id connection)
  | leave id _ => exact .called (called_endSession s id)
  | stop id hfull => exact absurd (hfull.symm.trans hidle.calm) (by decide)
  | expire htimer hdue =>
      refine ⟨nofun, fun _ => ?_⟩
      have hnow := Nat.le_antisymm (h.ahead _ htimer) hdue
      obtain ⟨-, rfl, -⟩ := hidle.due _ htimer
      exact List.mem_append_right _ (List.mem_singleton.2 hnow.symm)
  | absent | early => exact h
  | full id => exact ⟨h.ahead, h.asked⟩
  | elapse span => exact ⟨hclock, h.asked⟩
  | rest hmove hrests => exact ⟨fun due htimer => h.ahead due (hrests.timer.symm.trans htimer), h.asked⟩

/-! ### Runs -/

theorem turn_run (settings : Server.Settings) (moves : List Move) (move : Move) :
    Turn ((start settings).run moves) move ((start settings).run (moves ++ [move])) := by
  rw [run_concat]
  exact take_turn (accounts_run settings moves).paired move

theorem idleTimeout_run (settings : Server.Settings) (moves : List Move) :
    ((start settings).run moves).bridge.idleTimeout = settings.bridge.idleTimeout.toNat := by
  induction moves using List.reverseRecOn with
  | nil => rfl
  | append_singleton moves move ih => exact (turn_run settings moves move).idleTimeout.trans ih

theorem idle_run (settings : Server.Settings) (moves : List Move) (hcalm : ¬ Stopping moves) :
    Idle settings.bridge.idleTimeout.toNat ((start settings).run moves) := by
  induction moves using List.reverseRecOn with
  | nil =>
      refine ⟨rfl, fun due htimer => ⟨rfl, ?_, rfl⟩, fun _ => Or.inl rfl⟩
      exact (Option.some_inj.1 htimer).symm
  | append_singleton moves move ih =>
      rw [stopping_concat, not_or, not_exists] at hcalm
      exact (ih hcalm.1).turn (idleTimeout_run settings moves) (turn_run settings moves move) hcalm.2

theorem punctual_append {before after : List Move} :
    Punctual s (before ++ after) ↔ Punctual s before ∧ Punctual (s.run before) after := by
  induction before generalizing s with
  | nil => exact (iff_of_eq (true_and _)).symm
  | cons move rest ih => exact (and_congr_right' ih).trans and_assoc.symm

theorem prompt_run (settings : Server.Settings) (moves : List Move) (hcalm : ¬ Stopping moves)
    (hclock : Punctual (start settings) moves) :
    Prompt settings.bridge.idleTimeout.toNat ((start settings).run moves) := by
  induction moves using List.reverseRecOn with
  | nil => exact ⟨fun due _ => Nat.zero_le due, nofun⟩
  | append_singleton moves move ih =>
      rw [stopping_concat, not_or] at hcalm
      rw [punctual_append] at hclock
      have hprompt := ih hcalm.1 hclock.1
      exact hprompt.turn (idle_run settings moves hcalm.1) (turn_run settings moves move) hclock.2.1

/-- The bridge asks for its shutdown when the callback finds the timer due. -/
theorem Turn.mem_asked (ht : Turn s move t) :
    T ∈ t.asked ↔ T ∈ s.asked ∨ move = .expire ∧ s.now = T ∧ ∃ due, s.timer = some due ∧ due ≤ T := by
  cases ht with
  | expire htimer hdue =>
      simp only [List.mem_append, List.mem_singleton, htimer]
      grind
  | early htimer => grind
  | leave id hmove => rcases hmove with rfl | ⟨rfl, -⟩ <;> simp [Attendance.call]
  | rest hmove hrests => cases move <;> simp_all [Move.Quiet]
  | _ => simp [Attendance.call]

theorem mem_asked_run (settings : Server.Settings) (moves : List Move) (T : Nat) :
    T ∈ ((start settings).run moves).asked ↔ ∃ r, Callback (start settings) moves r ∧ r.now = T ∧
      ∃ due, r.timer = some due ∧ due ≤ T := by
  induction moves using List.reverseRecOn with
  | nil => simp [Callback, run, start]
  | append_singleton moves move ih =>
      rw [(turn_run settings moves move).mem_asked, ih]
      constructor
      · rintro (⟨r, ⟨before, after, rfl, rfl⟩, hr⟩ | ⟨rfl, hr⟩)
        · exact ⟨_, ⟨before, after ++ [move], by simp, rfl⟩, hr⟩
        · exact ⟨_, ⟨moves, [], rfl, rfl⟩, hr⟩
      · rintro ⟨r, ⟨before, after, hmoves, rfl⟩, hr⟩
        rcases concat_eq_append_cons.1 hmoves with ⟨rfl, rfl, -⟩ | ⟨rest, -, rfl⟩
        · exact Or.inr ⟨rfl, hr⟩
        · exact Or.inl ⟨_, ⟨before, rest, rfl, rfl⟩, hr⟩

theorem Callback.append {r : Attendance} (h : Callback s moves r) (more : List Move) :
    Callback s (moves ++ more) r := by
  obtain ⟨before, after, rfl, rfl⟩ := h
  exact ⟨before, after ++ more, by simp, rfl⟩

theorem not_stopping_of_append {before after : List Move} (h : ¬ Stopping (before ++ after)) :
    ¬ Stopping before :=
  fun ⟨id, hid⟩ => h ⟨id, List.mem_append_left _ hid⟩

theorem Callback.idle {settings : Server.Settings} {r : Attendance} (h : Callback (start settings) moves r)
    (hcalm : ¬ Stopping moves) : Idle settings.bridge.idleTimeout.toNat r := by
  obtain ⟨before, after, rfl, rfl⟩ := h
  exact idle_run settings before (not_stopping_of_append hcalm)

theorem Callback.prompt {settings : Server.Settings} {r : Attendance} (h : Callback (start settings) moves r)
    (hcalm : ¬ Stopping moves) (hclock : Punctual (start settings) moves) :
    Prompt settings.bridge.idleTimeout.toNat r := by
  obtain ⟨before, after, rfl, rfl⟩ := h
  exact prompt_run settings before (not_stopping_of_append hcalm) (punctual_append.1 hclock).1

/-- What was asked for before a callback stays asked for. -/
theorem Callback.mem_asked {settings : Server.Settings} {r : Attendance} (h : Callback (start settings) moves r)
    (hT : T ∈ r.asked) : T ∈ ((start settings).run moves).asked := by
  obtain ⟨before, after, rfl, rfl⟩ := h
  obtain ⟨r, hr, hdue⟩ := (mem_asked_run settings before T).1 hT
  exact (mem_asked_run ..).2 ⟨r, hr.append _, hdue⟩

/-- Whenever the bridge asks for its shutdown, nobody has been connected for the idle timeout. -/
theorem idle_of_asked (settings : Server.Settings) (hcalm : ¬ Stopping moves)
    (hT : T ∈ ((start settings).run moves).asked) : ∃ r, Callback (start settings) moves r ∧ r.now = T ∧
      r.sessions.count = 0 ∧ r.lastCall + settings.bridge.idleTimeout.toNat ≤ T ∧
      r.timer = some (r.lastCall + settings.bridge.idleTimeout.toNat) := by
  obtain ⟨r, hr, hnow, due, htimer, hdue⟩ := (mem_asked_run settings moves T).1 hT
  obtain ⟨hcount, rfl, -⟩ := (hr.idle hcalm).due due htimer
  exact ⟨r, hr, hnow, hcount, hdue, htimer⟩

/-- By a punctual clock, the bridge asks when nobody has been connected for exactly the idle timeout. -/
theorem mem_asked_iff (settings : Server.Settings) (hcalm : ¬ Stopping moves)
    (hclock : Punctual (start settings) moves) : T ∈ ((start settings).run moves).asked ↔
      ∃ r, Callback (start settings) moves r ∧ r.now = T ∧ r.sessions.count = 0 ∧
        r.lastCall + settings.bridge.idleTimeout.toNat = T := by
  constructor
  · intro hT
    obtain ⟨r, hr, rfl, hcount, hdue, htimer⟩ := idle_of_asked settings hcalm hT
    exact ⟨r, hr, rfl, hcount, Nat.le_antisymm hdue ((hr.prompt hcalm hclock).ahead _ htimer)⟩
  · rintro ⟨r, hr, hnow, hcount, rfl⟩
    rcases (hr.idle hcalm).armed hcount with htimer | hfired
    · exact (mem_asked_run ..).2 ⟨r, hr, hnow, _, htimer, Nat.le_refl _⟩
    · exact hr.mem_asked ((hr.prompt hcalm hclock).asked hfired)

/-- **Idle shutdown never hits a connected bridge.** As long as no full shutdown is requested, the timer is
armed only while there is no session, and while there is none it is armed for the idle timeout after the last
session was begun, refused or ended, or has expired since. The bridge asks for its shutdown only when the
callback of the timer runs while no session is left. If the clock does not go past the time at which the timer
is due, the bridge asks at a time exactly if the callback runs then, no session is left and the last call was
the idle timeout before; and once more time has passed without a session it has asked. -/
theorem idle_shutdown (settings : Server.Settings) (moves : List Move) (hcalm : ¬ Stopping moves) :
    let timeout := settings.bridge.idleTimeout.toNat
    let s := (start settings).run moves
    (∀ due, s.timer = some due → s.sessions.count = 0) ∧
    (s.sessions.count = 0 → s.timer = some (s.lastCall + timeout) ∨ s.fired = true) ∧
    (∀ T ∈ s.asked, ∃ r, Callback (start settings) moves r ∧ r.now = T ∧ r.sessions.count = 0 ∧
      r.lastCall + timeout ≤ T) ∧
    (Punctual (start settings) moves →
      (∀ T, T ∈ s.asked ↔ ∃ r, Callback (start settings) moves r ∧ r.now = T ∧ r.sessions.count = 0 ∧
        r.lastCall + timeout = T) ∧
      (s.sessions.count = 0 → s.lastCall + timeout < s.now → s.lastCall + timeout ∈ s.asked)) := by
  intro timeout s
  have hidle : Idle timeout s := idle_run settings moves hcalm
  refine ⟨fun due htimer => (hidle.due due htimer).1, hidle.armed, fun T hT => ?_,
    fun hclock => ⟨fun T => mem_asked_iff settings hcalm hclock, fun hcount hpast => ?_⟩⟩
  · obtain ⟨r, hr, hnow, hcount, hdue, -⟩ := idle_of_asked settings hcalm hT
    exact ⟨r, hr, hnow, hcount, hdue⟩
  · have hprompt : Prompt timeout s := prompt_run settings moves hcalm hclock
    refine (hidle.armed hcount).elim (fun htimer => ?_) hprompt.asked
    exact absurd (hprompt.ahead _ htimer) (Nat.not_le.2 hpast)

/-- An editor that exits and disconnects, and the bridge that asks for its shutdown after that. -/
theorem idle_shutdown_after_exit :
    let settings : Server.Settings := { (default : Server.Settings) with bridge := ⟨5⟩ }
    let moves : List Move := [.connect ⟨1⟩ (some "a"), .elapse 7, .expire, .request ⟨1⟩ .exit, .elapse 2,
      .disconnect ⟨1⟩, .elapse 5, .expire, .elapse 1]
    let s := (start settings).run moves
    ¬ Stopping moves ∧ Punctual (start settings) moves ∧ s.asked = [14] ∧ s.sessions.count = 0 ∧
      ∃ r, Callback (start settings) moves r ∧ r.now = 14 ∧ r.sessions.count = 0 ∧ r.lastCall + 5 = 14 := by
  intro settings moves s
  have hcalm : ¬ Stopping moves := by simp [Stopping, moves]
  have hclock : Punctual (start settings) moves := by decide +kernel
  obtain ⟨-, -, -, hpunctual⟩ := idle_shutdown settings moves hcalm
  have hasked : s.asked = [14] := by decide +kernel
  refine ⟨hcalm, hclock, hasked, by decide +kernel, ?_⟩
  exact ((hpunctual hclock).1 14).1 (hasked ▸ List.mem_singleton_self 14)

/-! ### A full shutdown -/

/-- Moves at which sessions are begun, refused or ended whatever has been requested. -/
def Move.Calls : Move → Prop
  | .connect .. | .disconnect _ => True
  | _ => False

/-- Since a state the bridge has asked for its shutdown, or the timer stands where an exit has put it. -/
def Kept (s₀ s : Attendance) : Prop :=
  s₀.asked.length < s.asked.length ∨ ∃ due ∈ s.exits, s.timer = some due

/-- A full shutdown was asked for by an exit, and the callback has not run yet. -/
structure Pending (s₀ s : Attendance) : Prop where
  paired : Paired s.bridge
  full : s.bridge.fullShutdown = true
  armed : ∃ due ∈ s.exits, s.timer = some due
  exits : ∀ due ∈ s.exits, due ≤ s.now
  positive : 0 < s.bridge.idleTimeout
  asked : s.asked = s₀.asked

theorem Turn.exits (ht : Turn s move t) (h : ∀ due ∈ s.exits, due ≤ s.now) : ∀ due ∈ t.exits, due ≤ t.now := by
  cases ht with
  | stop id hfull => simpa [or_imp, forall_and] using h
  | elapse span => exact fun due hdue => (h due hdue).trans (Nat.le_add_right ..)
  | _ => exact h

theorem exits_run (settings : Server.Settings) (moves : List Move) :
    ∀ due ∈ ((start settings).run moves).exits, due ≤ ((start settings).run moves).now := by
  induction moves using List.reverseRecOn with
  | nil => exact nofun
  | append_singleton moves move ih => exact (turn_run settings moves move).exits ih

/-- An exit under a requested full shutdown. -/
theorem Pending.exit (ht : Turn s (.request id .exit) t) (hpaired : Paired s.bridge)
    (hfull : s.bridge.fullShutdown = true) (hexits : ∀ due ∈ s.exits, due ≤ s.now)
    (hpositive : 0 < s.bridge.idleTimeout) : Pending t t := by
  have hpaired' := ht.paired hpaired
  have hexits' := ht.exits hexits
  cases ht with
  | leave id hmove =>
      rcases hmove with hmove | ⟨-, hcalm, -⟩
      · cases hmove
      · exact absurd (hfull.symm.trans hcalm) (by decide)
  | absent id hcalm hid => exact absurd (hfull.symm.trans hcalm) (by decide)
  | stop id hfull => exact ⟨hpaired', hfull, ⟨s.now, by simp, rfl⟩, hexits', hpositive, rfl⟩
  | rest hmove hrests => exact absurd rfl hmove.1

/-- A call refreshes the timer, which is then due only after all exits. -/
theorem Pending.not_kept (h : Pending s₀ s) (ht : Called s t) : ¬ Kept s₀ t := by
  obtain ⟨b, rfl, htimeout, -⟩ := ht
  rintro (hasked | ⟨due, hdue, htimer⟩)
  · exact absurd (congrArg List.length h.asked) (Nat.ne_of_gt hasked)
  · obtain ⟨-, rfl⟩ := timer_refreshTimer.1 htimer
    have hnow := h.exits _ hdue
    have hpositive := h.positive
    omega

/-- What a move does to a shutdown that is pending. -/
theorem Pending.turn (h : Pending s₀ s) (ht : Turn s move t) :
    (move.Calls ∧ ¬ Kept s₀ t) ∨ (move = .expire ∧ s₀.asked.length < t.asked.length) ∨
      (¬ move.Calls ∧ move ≠ .expire ∧ Pending s₀ t) := by
  have hpaired := ht.paired h.paired
  have hexits := ht.exits h.exits
  have hpositive := ht.idleTimeout.symm ▸ h.positive
  have hfull : t.bridge.fullShutdown = true := ht.fullShutdown.2 (Or.inl h.full)
  have hstill (harmed : ∃ due ∈ t.exits, t.timer = some due) (hasked : t.asked = s.asked) : Pending s₀ t :=
    ⟨hpaired, hfull, harmed, hexits, hpositive, hasked.trans h.asked⟩
  cases ht with
  | connect id connection => exact Or.inl ⟨trivial, h.not_kept (called_openSession s id connection)⟩
  | leave id hmove =>
      rcases hmove with rfl | ⟨-, hcalm, -⟩
      · exact Or.inl ⟨trivial, h.not_kept (called_endSession s id)⟩
      · exact absurd (h.full.symm.trans hcalm) (by decide)
  | absent id hcalm hid => exact absurd (h.full.symm.trans hcalm) (by decide)
  | expire htimer hdue => exact Or.inr (Or.inl ⟨rfl, by simp [h.asked]⟩)
  | early htimer =>
      obtain ⟨due, hdue, hdue'⟩ := h.armed
      exact absurd (h.exits due hdue) (Nat.not_le.2 (htimer due hdue'))
  | stop id _ =>
      have harmed : s.now ∈ s.exits ++ [s.now] := List.mem_append_right _ (List.mem_singleton_self _)
      exact Or.inr (Or.inr ⟨not_false, nofun, hstill ⟨s.now, harmed, rfl⟩ rfl⟩)
  | full id => exact Or.inr (Or.inr ⟨not_false, nofun, hstill h.armed rfl⟩)
  | elapse span => exact Or.inr (Or.inr ⟨not_false, nofun, hstill h.armed rfl⟩)
  | rest hmove hrests =>
      obtain ⟨due, hdue, hdue'⟩ := h.armed
      refine Or.inr (Or.inr ⟨?_, ?_, hstill ⟨due, hdue, hrests.timer.trans hdue'⟩ rfl⟩)
      · cases move <;> simp_all [Move.Quiet, Move.Calls]
      · rintro rfl
        exact hmove

theorem Turn.asked_prefix (ht : Turn s move t) : s.asked <+: t.asked := by
  cases ht with
  | expire => exact List.prefix_append _ _
  | _ => exact List.prefix_rfl

theorem asked_prefix_run (h : Paired s.bridge) (moves : List Move) : s.asked <+: (s.run moves).asked := by
  induction moves generalizing s with
  | nil => exact List.prefix_rfl
  | cons move rest ih =>
      have hturn := take_turn h move
      exact hturn.asked_prefix.trans (ih (hturn.paired h))

/-- A pending shutdown is kept until the first call that comes before the callback. -/
theorem Pending.kept_iff (h : Pending s₀ s) (moves : List Move) :
    (∀ done, done <+: moves → Kept s₀ (s.run done)) ↔
      ∀ before move after, moves = before ++ move :: after → move.Calls → .expire ∈ before := by
  induction moves generalizing s with
  | nil =>
      refine iff_of_true (fun done hdone => ?_) fun before move after hnil => by simp at hnil
      obtain rfl := List.prefix_nil.1 hdone
      exact Or.inr h.armed
  | cons move rest ih =>
      -- a call loses the shutdown at once, the callback asks for it for good, and all else leaves it pending
      rcases h.turn (take_turn h.paired move) with ⟨hcalls, hlost⟩ | ⟨rfl, hasked⟩ | ⟨hcalls, hexpire, hpending⟩
      · apply iff_of_false
        · exact fun hkept => hlost (hkept [move] (List.prefix_append [move] rest))
        · exact fun hexpired => absurd (hexpired [] move rest rfl hcalls) List.not_mem_nil
      · have hpaired := (take_turn h.paired .expire).paired h.paired
        refine iff_of_true (fun done hdone => ?_) fun before move after hmoves hcalls => ?_
        · rcases List.prefix_cons_iff.1 hdone with rfl | ⟨done, rfl, -⟩
          · exact Or.inr h.armed
          · exact Or.inl (hasked.trans_le (asked_prefix_run hpaired done).length_le)
        · cases before with
          | nil => exact absurd hcalls (by cases hmoves; exact id)
          | cons first before => exact (List.cons.inj hmoves).1 ▸ List.mem_cons_self
      · constructor
        · intro hkept before called after hmoves hcalled
          cases before with
          | nil =>
              cases hmoves
              exact absurd hcalled hcalls
          | cons first before =>
              obtain ⟨rfl, hrest⟩ := List.cons.inj hmoves
              have hlater (done : List Move) (hdone : done <+: rest) : Kept s₀ ((s.take move).run done) :=
                hkept (move :: done) ((List.prefix_cons_inj move).2 hdone)
              exact List.mem_cons_of_mem move ((ih hpending).1 hlater before called after hrest hcalled)
        · intro hexpired done hdone
          rcases List.prefix_cons_iff.1 hdone with rfl | ⟨later, rfl, hlater⟩
          · exact Or.inr h.armed
          · refine (ih hpending).2 (fun before called after hrest hcalled => ?_) later hlater
            have hmem := hexpired (move :: before) called after (hrest ▸ rfl) hcalled
            exact (List.mem_cons.1 hmem).resolve_left (Ne.symm hexpire)

/-- **A requested full shutdown is not lost, unless a call comes before the callback.** After a full shutdown
was requested and an editor has exited, the bridge has asked for its shutdown or the timer still stands where an
exit has put it, in every later state, if and only if no session is begun and no connection removed before the
callback of the timer runs. (The settings require a positive idle timeout.) -/
theorem full_shutdown_kept_iff (settings : Server.Settings) (htimeout : 0 < settings.bridge.idleTimeout)
    (before after : List Move) (id : Handle) (hfull : Stopping before) :
    let s := (start settings).run (before ++ [.request id .exit])
    (∀ done, done <+: after → Kept s (s.run done)) ↔
      ∀ between move rest, after = between ++ move :: rest → move.Calls → .expire ∈ between := by
  intro s
  have haccounts := accounts_run settings before
  have hpositive : 0 < ((start settings).run before).bridge.idleTimeout := by
    rw [idleTimeout_run]
    omega
  have hpending : Pending s s := .exit (turn_run settings before _) haccounts.paired
    (haccounts.stopping.2 hfull) (exits_run settings before) hpositive
  exact hpending.kept_iff after

/-- The callback runs late, but before the connection is removed. -/
theorem full_shutdown_kept_before_disconnect :
    let settings : Server.Settings := { (default : Server.Settings) with bridge := ⟨5⟩ }
    let before : List Move := [.connect ⟨1⟩ (some "a"), .connect ⟨2⟩ (some "b"), .request ⟨2⟩ .fullShutdown]
    let after : List Move := [.elapse 1, .request ⟨2⟩ .exit, .expire, .disconnect ⟨1⟩]
    let s := (start settings).run (before ++ [.request ⟨1⟩ .exit])
    0 < settings.bridge.idleTimeout ∧ Stopping before ∧ ∀ done, done <+: after → Kept s (s.run done) := by
  intro settings before after s
  have hpositive : 0 < settings.bridge.idleTimeout := by decide
  have hfull : Stopping before := ⟨⟨2⟩, by simp [before]⟩
  refine ⟨hpositive, hfull, (full_shutdown_kept_iff settings hpositive before after ⟨1⟩ hfull).2 ?_⟩
  intro between move rest hafter hcalls
  simp only [after, List.cons_eq_append_iff, List.nil_eq_append_iff] at hafter
  grind [Move.Calls]

/-- The editor that exits disconnects before the callback runs. If it was the only one the shutdown is put off
until the idle timeout has passed, and otherwise it is not asked for at all. -/
theorem full_shutdown_lost_by_disconnect :
    let settings : Server.Settings := { (default : Server.Settings) with bridge := ⟨5⟩ }
    let alone := (start settings).run [.connect ⟨1⟩ (some "a"), .request ⟨1⟩ .fullShutdown, .request ⟨1⟩ .exit]
    let shared := (start settings).run [.connect ⟨1⟩ (some "a"), .connect ⟨2⟩ (some "b"),
      .request ⟨1⟩ .fullShutdown, .request ⟨1⟩ .exit]
    alone.timer = some 0 ∧ ¬ Kept alone (alone.run [.disconnect ⟨1⟩]) ∧
      (alone.run [.disconnect ⟨1⟩]).timer = some 5 ∧
      shared.timer = some 0 ∧ ¬ Kept shared (shared.run [.disconnect ⟨1⟩]) ∧
      (shared.run [.disconnect ⟨1⟩]).timer = none := by
  unfold Kept
  decide +kernel

end CompilationBridge.Attendance
