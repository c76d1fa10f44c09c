import CompilationBridge.Notifier
import CompilationBridge.Proofs.Tables

/-! Notifications under every interleaving. A scene is a notifier with the clock, the graph that fan-outs
read, the messages sent and the calls of stop that wait or have returned. Changes, expirations, the two
steps of a callback and the two steps of stopping happen in any order. A change is covered until a fan-out
for its key begins: its timer is armed and due in time, or its callback is on the way. Stop can cancel an
armed timer and nothing else; it returns when nothing is counted any more, and then nothing is left that
could send. -/

namespace CompilationBridge.Notifier

/-! ### Timers and callbacks -/

/-- The keys whose timer runs. -/
def armed (n : Notifier) : List Key :=
  (n.timers.entries.filter fun e => !e.2.isExpired).map (·.1)

/-- The callbacks that have begun and have not fanned out: those that are still to forget their timer,
those whose timer was cancelled too late, and those that have forgotten it. -/
def inFlight (n : Notifier) : List Key :=
  (n.timers.entries.filter (·.2.isExpired)).map (·.1) ++ n.orphans ++ n.firing

/-- Each key has at most one timer, and what is counted are the timers and the callbacks. -/
structure Counted (n : Notifier) : Prop where
  keys : n.timers.keys.Nodup
  waiting : n.waiting = (n.timers.size + n.orphans.length + n.firing.length : Nat)
  stopped : n.stopped = true → n.timers = .empty

variable {n : Notifier} {k : Key}

theorem length_armed (n : Notifier) :
    n.armed.length + n.inFlight.length = n.timers.size + n.orphans.length + n.firing.length := by
  have hsplit : (n.timers.entries.filter fun e => !e.2.isExpired).length +
      (n.timers.entries.filter (·.2.isExpired)).length = n.timers.size := by
    have hlength := List.length_eq_length_filter_add (l := n.timers.entries) (·.2.isExpired)
    rw [Table.size, hlength, Nat.add_comm]
  simp only [armed, inFlight, List.length_map, List.length_append]
  omega

theorem Counted.count_armed (hn : n.Counted) (k : Key) : n.armed.count k ≤ 1 := by
  have hsub : n.armed.Sublist n.timers.keys := List.filter_sublist.map _
  exact List.nodup_iff_count_le_one.1 (hn.keys.sublist hsub) k

/-- With nothing counted there is neither a timer nor a callback. -/
theorem Counted.quiet (hn : n.Counted) (hquiet : n.waiting = 0) :
    n.timers = .empty ∧ n.orphans = [] ∧ n.firing = [] := by
  have hzero := hn.waiting
  rw [hquiet] at hzero
  have htimers : n.timers.entries.length = 0 := by
    have : n.timers.size = n.timers.entries.length := rfl
    omega
  refine ⟨?_, ?_, ?_⟩
  · exact congrArg Table.mk (List.eq_nil_of_length_eq_zero htimers)
  · exact List.eq_nil_of_length_eq_zero (by omega)
  · exact List.eq_nil_of_length_eq_zero (by omega)

theorem Counted.schedule (hn : n.Counted) (now : Nat) (k : Key) : (n.schedule now k).Counted := by
  unfold Notifier.schedule
  split
  · exact hn
  · rename_i hrunning
    split
    · exact ⟨hn.keys, hn.waiting, hn.stopped⟩
    · rename_i hnew
      refine ⟨Table.keys_put_nodup hn.keys k _, ?_, fun hstopped => absurd hstopped hrunning⟩
      have hkey : k ∉ n.timers.keys :=
        fun hmem => hnew ((Table.contains_iff _ _).2 ((Table.mem_keys _ _).1 hmem))
      have hsize : (n.timers.put k (.armed (now + n.debounce))).size = n.timers.size + 1 :=
        Table.size_put_of_notMem _ hkey _
      have hwaiting := hn.waiting
      dsimp only
      rw [hsize]
      omega

theorem Counted.expire (hn : n.Counted) (k : Key) : (n.expire k).Counted where
  keys := by
    show (n.timers.modify k _).keys.Nodup
    rw [Table.keys_modify]
    exact hn.keys
  waiting := by
    show n.waiting = ((n.timers.modify k _).size + n.orphans.length + n.firing.length : Nat)
    rw [Table.size_modify]
    exact hn.waiting
  stopped hstopped := by
    unfold Notifier.expire
    rw [hn.stopped hstopped]
    rfl

theorem Counted.forget (hn : n.Counted) (k : Key) : (n.forget k).Counted := by
  have hwaiting := hn.waiting
  unfold Notifier.forget
  split
  · rename_i hexpired
    have hsize : (n.timers.erase k).size + 1 = n.timers.size := Table.size_erase_of_get? hn.keys hexpired
    refine ⟨Table.keys_erase_nodup hn.keys k, ?_, fun hstopped => ?_⟩
    · simp only [List.length_append, List.length_singleton]
      omega
    · show n.timers.erase k = _
      rw [hn.stopped hstopped]
      rfl
  · split
    · rename_i hmem
      have hlength := List.length_erase_of_mem hmem
      have hpos := List.length_pos_of_mem hmem
      refine ⟨hn.keys, ?_, hn.stopped⟩
      simp only [List.length_append, List.length_singleton]
      omega
    · exact hn

theorem Counted.fanOut (hn : n.Counted) (s : Graph.Store) (k : Key) : (n.fanOut s k).1.Counted := by
  have hwaiting := hn.waiting
  unfold Notifier.fanOut
  split
  · rename_i hmem
    have hlength := List.length_erase_of_mem hmem
    have hpos := List.length_pos_of_mem hmem
    refine ⟨hn.keys, ?_, hn.stopped⟩
    dsimp only
    omega
  · exact hn

theorem Counted.stop (hn : n.Counted) : n.stop.Counted where
  keys := List.nodup_nil
  waiting := by
    have hle : (n.timers.entries.filter (·.2.isExpired)).length ≤ n.timers.size := List.length_filter_le _ _
    have hwaiting := hn.waiting
    show n.waiting - (n.timers.size - (n.timers.entries.filter (·.2.isExpired)).length : Nat) = _
    simp only [Notifier.stop, List.length_append, List.length_map]
    have hempty : (Table.empty : Table Key Timer).size = 0 := rfl
    omega
  stopped _ := rfl

/-! ### Changes that are covered -/

/-- A change is still to be told: its timer is armed and due by a time, or a callback for its key is on
the way. -/
def Covers (n : Notifier) (k : Key) (limit : Nat) : Prop :=
  (∃ due, n.timers.get? k = some (.armed due) ∧ due ≤ limit) ∨ n.timers.get? k = some .expired ∨
    k ∈ n.orphans ∨ k ∈ n.firing

variable {limit : Nat}

theorem covers_of_pending {n' : Notifier} (hn : n.Covers k limit) (htimer : n'.timers.get? k = n.timers.get? k)
    (horphan : k ∈ n.orphans → k ∈ n'.orphans) (hfiring : k ∈ n.firing → k ∈ n'.firing) :
    n'.Covers k limit := by
  unfold Covers
  rw [htimer]
  exact hn.imp_right fun h => h.imp_right fun h => h.imp horphan hfiring

/-- A change that is accepted is covered: by a timer of its own, or by the one that was pending. -/
theorem covers_schedule (now : Nat) (hrunning : n.stopped = false)
    (hpending : ∀ k due, n.timers.get? k = some (.armed due) → due ≤ now + n.debounce) :
    (n.schedule now k).Covers k (now + n.debounce) := by
  unfold schedule
  rw [if_neg (Bool.eq_false_iff.1 hrunning)]
  split
  · rename_i hthere
    obtain ⟨timer, htimer⟩ := (Table.contains_iff _ _).1 hthere
    cases timer with
    | armed due => exact Or.inl ⟨due, htimer, hpending k due htimer⟩
    | expired => exact Or.inr (Or.inl htimer)
  · refine Or.inl ⟨now + n.debounce, ?_, Nat.le_refl _⟩
    rw [Table.get?_put, if_pos rfl]

theorem Covers.schedule (hn : n.Covers k limit) (now : Nat) (k' : Key) :
    (n.schedule now k').Covers k limit := by
  unfold Notifier.schedule
  split
  · exact hn
  · split
    · exact hn
    · rename_i hnew
      by_cases hk : k = k'
      · -- the key has no timer, so its callback is on the way
        subst hk
        have hnone := (Table.contains_eq_false _ _).1 (Bool.eq_false_iff.2 hnew)
        unfold Covers at hn
        rw [hnone] at hn
        exact Or.inr (Or.inr (by simpa using hn))
      · refine covers_of_pending hn ?_ (fun h => h) fun h => h
        rw [Table.get?_put, if_neg hk]

theorem Covers.expire (hn : n.Covers k limit) (k' : Key) : (n.expire k').Covers k limit := by
  by_cases hk : k = k'
  · subst hk
    have hget : (n.expire k).timers.get? k = (n.timers.get? k).map fun _ => .expired := by
      rw [Notifier.expire, Table.get?_modify, if_pos rfl]
      cases n.timers.get? k with
      | none => rfl
      | some timer => cases timer <;> rfl
    rcases hn with ⟨due, hdue, -⟩ | hexpired | hcallback
    · exact Or.inr (Or.inl (by rw [hget, hdue]; rfl))
    · exact Or.inr (Or.inl (by rw [hget, hexpired]; rfl))
    · exact Or.inr (Or.inr hcallback)
  · refine covers_of_pending hn ?_ (fun h => h) fun h => h
    rw [Notifier.expire, Table.get?_modify, if_neg hk]

theorem Covers.forget (hn : n.Covers k limit) (k' : Key) : (n.forget k').Covers k limit := by
  by_cases hk : k = k'
  · subst hk
    unfold Notifier.forget
    split
    · exact Or.inr (Or.inr (Or.inr (List.mem_append_right _ (List.mem_singleton_self k))))
    · split
      · exact Or.inr (Or.inr (Or.inr (List.mem_append_right _ (List.mem_singleton_self k))))
      · exact hn
  · unfold Notifier.forget
    split
    · refine covers_of_pending hn ?_ (fun h => h) fun h => List.mem_append_left _ h
      rw [Table.get?_erase, if_neg hk]
    · split
      · exact covers_of_pending hn rfl (fun h => (List.mem_erase_of_ne hk).2 h)
          fun h => List.mem_append_left _ h
      · exact hn

/-- A fan-out for another key, or one that nobody is about to make, changes nothing here. -/
theorem Covers.fanOut (hn : n.Covers k limit) (s : Graph.Store) {k' : Key}
    (hother : k' = k → k ∉ n.firing) : (n.fanOut s k').1.Covers k limit := by
  unfold Notifier.fanOut
  split
  · rename_i hfiring
    have hk : k ≠ k' := fun heq => hother heq.symm (heq ▸ hfiring)
    exact covers_of_pending hn rfl (fun h => h) fun h => (List.mem_erase_of_ne hk).2 h
  · exact hn

/-- Stopping cancels the timers that are armed. Callbacks that have begun go on. -/
theorem Covers.stop (hn : n.Covers k limit) (hkeys : n.timers.keys.Nodup)
    (hsafe : ∀ due, n.timers.get? k ≠ some (.armed due)) : n.stop.Covers k limit := by
  rcases hn with ⟨due, hdue, -⟩ | hexpired | horphan | hfiring
  · exact absurd hdue (hsafe due)
  · refine Or.inr (Or.inr (Or.inl (List.mem_append_right _ ?_)))
    refine List.mem_map.2 ⟨(k, .expired), List.mem_filter.2 ⟨?_, rfl⟩, rfl⟩
    exact (Table.mem_entries hkeys k .expired).2 hexpired
  · exact Or.inr (Or.inr (Or.inl (List.mem_append_left _ horphan)))
  · exact Or.inr (Or.inr (Or.inr hfiring))

/-! ### Scenes -/

/-- What can happen: time passes, the graph becomes another one, a file changes, a timer that is due
expires, a callback takes one of its two steps, stop is called, and a call of stop returns. -/
inductive Happening where
  | wait (span : Nat)
  | graphBecomes (graph : Graph.Store)
  | manifestChanged (path : String)
  | lockFileChanged (path : String)
  | expire (key : Key)
  | forget (key : Key)
  | fanOut (key : Key)
  | stop
  | stopReturns

/-- The key that a change is for. -/
def Happening.changed? : Happening → Option Key
  | .manifestChanged path => some ⟨Path.clean path, .filesChanged⟩
  | .lockFileChanged path => some ⟨Manifest.ofLockFile (Path.clean path), .refreshDependencies⟩
  | _ => none

structure Scene where
  notifier : Notifier
  now : Nat := 0
  graph : Graph.Store := {}
  sent : List Message := []
  /-- Calls of stop that wait. -/
  stopping : Nat := 0
  /-- Calls of stop that have returned. -/
  returned : Nat := 0

namespace Scene

/-- Whether the timer of a key runs and is due. -/
def isDue (s : Scene) (k : Key) : Bool :=
  match s.notifier.timers.get? k with
  | some (.armed due) => due ≤ s.now
  | _ => false

def step (s : Scene) : Happening → Scene
  | .wait span => { s with now := s.now + span }
  | .graphBecomes graph => { s with graph := graph }
  | .manifestChanged path => { s with notifier := s.notifier.manifestChanged s.now path }
  | .lockFileChanged path => { s with notifier := s.notifier.lockFileChanged s.now path }
  | .expire k => if s.isDue k then { s with notifier := s.notifier.expire k } else s
  | .forget k => { s with notifier := s.notifier.forget k }
  | .fanOut k =>
    { s with
      notifier := (s.notifier.fanOut s.graph k).1
      sent := s.sent ++ (s.notifier.fanOut s.graph k).2 }
  | .stop => { s with notifier := s.notifier.stop, stopping := s.stopping + 1 }
  | .stopReturns =>
    if 0 < s.stopping ∧ s.notifier.isQuiet = true then
      { s with stopping := s.stopping - 1, returned := s.returned + 1 }
    else s

def run (s : Scene) (events : List Happening) : Scene :=
  events.foldl step s

theorem run_append (s : Scene) (before after : List Happening) :
    s.run (before ++ after) = (s.run before).run after :=
  List.foldl_append

/-- What holds all along: the timers and callbacks are counted, armed timers are due in time, and stopping
has its effect before it waits. -/
structure Orderly (delay : Nat) (s : Scene) : Prop where
  counted : s.notifier.Counted
  debounce : s.notifier.debounce = delay
  due : ∀ k due, s.notifier.timers.get? k = some (.armed due) → due ≤ s.now + delay
  stopping : 0 < s.stopping ∨ 0 < s.returned → s.notifier.stopped = true
  returned : 0 < s.returned → s.notifier.waiting = 0

variable {s : Scene} {delay : Nat} {k : Key} {limit : Nat}

theorem changed_step {e : Happening} (he : e.changed? = some k) :
    s.step e = { s with notifier := s.notifier.schedule s.now k } := by
  cases e with
  | manifestChanged path =>
      obtain rfl := Option.some.inj he
      rfl
  | lockFileChanged path =>
      obtain rfl := Option.some.inj he
      rfl
  | _ => cases he

theorem get?_schedule {n : Notifier} {now due : Nat} {k k' : Key}
    (h : (n.schedule now k').timers.get? k = some (.armed due)) :
    n.timers.get? k = some (.armed due) ∨ due = now + n.debounce := by
  unfold schedule at h
  split at h
  · exact Or.inl h
  · split at h
    · exact Or.inl h
    · rw [Table.get?_put] at h
      split at h
      · exact Or.inr (Timer.armed.inj (Option.some.inj h)).symm
      · exact Or.inl h

theorem schedule_frame (n : Notifier) (now : Nat) (k : Key) :
    (n.schedule now k).debounce = n.debounce ∧ (n.schedule now k).stopped = n.stopped ∧
      (n.stopped = true → n.schedule now k = n) := by
  unfold schedule
  split
  · exact ⟨rfl, rfl, fun _ => rfl⟩
  · rename_i hrunning
    split <;> exact ⟨rfl, rfl, fun hstopped => absurd hstopped hrunning⟩

theorem Orderly.changed (hs : s.Orderly delay) (k : Key) :
    Orderly delay { s with notifier := s.notifier.schedule s.now k } := by
  obtain ⟨hdebounce, hstopped, hsame⟩ := schedule_frame s.notifier s.now k
  refine ⟨hs.counted.schedule s.now k, hdebounce.trans hs.debounce, ?_, ?_, ?_⟩
  · intro k' due hdue
    rcases get?_schedule hdue with hold | hnew
    · exact hs.due k' due hold
    · have hdelay := hs.debounce
      show due ≤ s.now + delay
      omega
  · intro hany
    exact hstopped.trans (hs.stopping hany)
  · intro hreturned
    show (s.notifier.schedule s.now k).waiting = 0
    rw [hsame (hs.stopping (Or.inr hreturned))]
    exact hs.returned hreturned

/-- What a step does to the notifier alone, where it neither stops nor takes a change. -/
theorem Orderly.advance (hs : s.Orderly delay) {n : Notifier} (hn : n.Counted)
    (hdebounce : n.debounce = s.notifier.debounce) (hstopped : n.stopped = s.notifier.stopped)
    (htimers : ∀ k due, n.timers.get? k = some (.armed due) → s.notifier.timers.get? k = some (.armed due))
    (hquiet : s.notifier.waiting = 0 → n.waiting = 0) (sent : List Message) :
    Orderly delay { s with notifier := n, sent := sent } where
  counted := hn
  debounce := hdebounce.trans hs.debounce
  due k due hdue := hs.due k due (htimers k due hdue)
  stopping hany := hstopped.trans (hs.stopping hany)
  returned hreturned := hquiet (hs.returned hreturned)

theorem orderly_step (hs : s.Orderly delay) (e : Happening) : (s.step e).Orderly delay := by
  cases e with
  | wait span =>
      refine ⟨hs.counted, hs.debounce, fun k due hdue => ?_, hs.stopping, hs.returned⟩
      have hold := hs.due k due hdue
      show due ≤ s.now + span + delay
      omega
  | graphBecomes graph => exact ⟨hs.counted, hs.debounce, hs.due, hs.stopping, hs.returned⟩
  | manifestChanged path => exact hs.changed _
  | lockFileChanged path => exact hs.changed _
  | expire k =>
      show (if s.isDue k then _ else s).Orderly delay
      split
      · refine hs.advance (hs.counted.expire k) rfl rfl (fun k' due hdue => ?_) (fun h => h) s.sent
        rw [Notifier.expire, Table.get?_modify] at hdue
        split at hdue
        · obtain ⟨timer, -, htimer⟩ := Option.map_eq_some_iff.1 hdue
          cases timer <;> cases htimer
        · exact hdue
      · exact hs
  | forget k =>
      refine hs.advance (hs.counted.forget k) ?_ ?_ (fun k' due hdue => ?_) (fun hzero => ?_) s.sent
      · unfold Notifier.forget
        split <;> [skip; split] <;> rfl
      · unfold Notifier.forget
        split <;> [skip; split] <;> rfl
      · unfold Notifier.forget at hdue
        split at hdue
        · rw [Table.get?_erase] at hdue
          split at hdue
          · cases hdue
          · exact hdue
        · split at hdue <;> exact hdue
      · unfold Notifier.forget
        split <;> [skip; split] <;> exact hzero
  | fanOut k =>
      have hnotifier : (s.notifier.fanOut s.graph k).1.debounce = s.notifier.debounce ∧
          (s.notifier.fanOut s.graph k).1.stopped = s.notifier.stopped ∧
          (s.notifier.fanOut s.graph k).1.timers = s.notifier.timers := by
        unfold Notifier.fanOut
        split <;> exact ⟨rfl, rfl, rfl⟩
      refine hs.advance (hs.counted.fanOut s.graph k) hnotifier.1 hnotifier.2.1 (fun k' due hdue => ?_)
        (fun hzero => ?_) _
      · rwa [hnotifier.2.2] at hdue
      · unfold Notifier.fanOut
        rw [(hs.counted.quiet hzero).2.2, if_neg List.not_mem_nil]
        exact hzero
  | stop =>
      refine ⟨hs.counted.stop, hs.debounce, fun k due hdue => ?_, fun _ => rfl, fun hreturned => ?_⟩
      · cases hdue
      · have hzero := hs.returned hreturned
        have hempty := (hs.counted.quiet hzero).1
        show s.notifier.waiting - (s.notifier.timers.size - _ : Nat) = 0
        rw [hzero, hempty]
        rfl
  | stopReturns =>
      show (if 0 < s.stopping ∧ s.notifier.isQuiet = true then _ else s).Orderly delay
      split
      · rename_i hquiet
        refine ⟨hs.counted, hs.debounce, hs.due, fun _ => hs.stopping (Or.inl hquiet.1), fun _ => ?_⟩
        exact of_decide_eq_true hquiet.2
      · exact hs

theorem orderly_run (hs : s.Orderly delay) (events : List Happening) : (s.run events).Orderly delay :=
  List.foldlRecOn events step hs fun _ h e _ => orderly_step h e

theorem orderly_start (delay : Nat) (graph : Graph.Store) :
    Orderly delay { notifier := { debounce := delay }, graph := graph } where
  counted := ⟨List.nodup_nil, rfl, fun h => nomatch h⟩
  debounce := rfl
  due _ _ h := nomatch h
  stopping h := h.elim (fun h => absurd h (Nat.lt_irrefl 0)) fun h => absurd h (Nat.lt_irrefl 0)
  returned h := absurd h (Nat.lt_irrefl 0)

/-! ### No change is lost -/

/-- One step: a covered change stays covered unless its fan-out begins or stop cancels its timer. -/
theorem covers_step (hs : s.Orderly delay) (hk : s.notifier.Covers k limit) (e : Happening) :
    (e = .fanOut k ∧ k ∈ s.notifier.firing) ∨
      (e = .stop ∧ ∃ due, s.notifier.timers.get? k = some (.armed due)) ∨
      (s.step e).notifier.Covers k limit := by
  cases e with
  | wait span => exact Or.inr (Or.inr hk)
  | graphBecomes graph => exact Or.inr (Or.inr hk)
  | manifestChanged path => exact Or.inr (Or.inr (hk.schedule s.now _))
  | lockFileChanged path => exact Or.inr (Or.inr (hk.schedule s.now _))
  | expire k' =>
      refine Or.inr (Or.inr ?_)
      show (if s.isDue k' then _ else s).notifier.Covers k limit
      split
      · exact hk.expire k'
      · exact hk
  | forget k' => exact Or.inr (Or.inr (hk.forget k'))
  | fanOut k' =>
      by_cases hfires : k' = k ∧ k ∈ s.notifier.firing
      · exact Or.inl ⟨congrArg Happening.fanOut hfires.1, hfires.2⟩
      · exact Or.inr (Or.inr (hk.fanOut s.graph fun heq hmem => hfires ⟨heq, hmem⟩))
  | stop =>
      by_cases hcancels : ∃ due, s.notifier.timers.get? k = some (.armed due)
      · exact Or.inr (Or.inl ⟨rfl, hcancels⟩)
      · exact Or.inr (Or.inr (hk.stop hs.counted.keys fun due hdue => hcancels ⟨due, hdue⟩))
  | stopReturns =>
      refine Or.inr (Or.inr ?_)
      show (if 0 < s.stopping ∧ s.notifier.isQuiet = true then _ else s).notifier.Covers k limit
      split <;> exact hk

/-- **A run.** A covered change is still covered in the end, or on the way a fan-out for its key began or
stop cancelled its timer. -/
theorem covers_run (hs : s.Orderly delay) (hk : s.notifier.Covers k limit) (events : List Happening) :
    (∃ mid rest, events = mid ++ .fanOut k :: rest ∧ k ∈ (s.run mid).notifier.firing) ∨
      (∃ mid rest due, events = mid ++ .stop :: rest ∧
        (s.run mid).notifier.timers.get? k = some (.armed due)) ∨
      (s.run events).notifier.Covers k limit := by
  induction events generalizing s with
  | nil => exact Or.inr (Or.inr hk)
  | cons e rest ih =>
      rcases covers_step hs hk e with ⟨rfl, hfiring⟩ | ⟨rfl, due, hdue⟩ | hcovers
      · exact Or.inl ⟨[], rest, rfl, hfiring⟩
      · exact Or.inr (Or.inl ⟨[], rest, due, rfl, hdue⟩)
      · rcases ih (orderly_step hs e) hcovers with ⟨mid, rest', rfl, h⟩ | ⟨mid, rest', due, rfl, h⟩ | h
        · exact Or.inl ⟨e :: mid, rest', rfl, h⟩
        · exact Or.inr (Or.inl ⟨e :: mid, rest', due, rfl, h⟩)
        · exact Or.inr (Or.inr h)

theorem sent_fanOut (hfiring : k ∈ s.notifier.firing) :
    (s.step (.fanOut k)).sent =
      s.sent ++ (audience s.graph k).map fun id : Nat => Message.new k.order.type id none := by
  show s.sent ++ (s.notifier.fanOut s.graph k).2 = _
  rw [Notifier.fanOut, if_pos hfiring]

/-! ### After stop has returned -/

theorem sent_step_of_returned (hs : s.Orderly delay) (hreturned : 0 < s.returned) (e : Happening) :
    (s.step e).sent = s.sent ∧ 0 < (s.step e).returned := by
  have hfiring := (hs.counted.quiet (hs.returned hreturned)).2.2
  cases e with
  | fanOut k =>
      refine ⟨?_, hreturned⟩
      show s.sent ++ (s.notifier.fanOut s.graph k).2 = s.sent
      rw [Notifier.fanOut, hfiring, if_neg List.not_mem_nil, List.append_nil]
  | expire k =>
      show (if s.isDue k then _ else s).sent = s.sent ∧ 0 < (if s.isDue k then _ else s).returned
      split <;> exact ⟨rfl, hreturned⟩
  | stopReturns =>
      rw [step]
      split
      · exact ⟨rfl, Nat.succ_pos _⟩
      · exact ⟨rfl, hreturned⟩
  | _ => exact ⟨rfl, hreturned⟩

theorem sent_run_of_returned (hs : s.Orderly delay) (hreturned : 0 < s.returned)
    (later : List Happening) : (s.run later).sent = s.sent ∧ 0 < (s.run later).returned := by
  induction later generalizing s with
  | nil => exact ⟨rfl, hreturned⟩
  | cons e rest ih =>
      obtain ⟨hsent, hstill⟩ := sent_step_of_returned hs hreturned e
      obtain ⟨ihsent, ihstill⟩ := ih (orderly_step hs e) hstill
      exact ⟨ihsent.trans hsent, ihstill⟩

theorem Orderly.idle (hs : s.Orderly delay) (hreturned : 0 < s.returned) :
    s.notifier.armed = [] ∧ s.notifier.inFlight = [] := by
  obtain ⟨htimers, horphans, hfiring⟩ := hs.counted.quiet (hs.returned hreturned)
  unfold armed inFlight
  rw [htimers, horphans, hfiring]
  exact ⟨rfl, rfl⟩

/-- **Debounced notifications lose nothing and stop cleanly.** In every interleaving at most one timer is
armed for a key, and the count that stop waits for is the number of armed timers and of callbacks on the
way, so it is never negative. A change that is accepted has been followed by a fan-out for its key, which
read the graph as it was then, unless stop cancelled its timer or the fan-out is still to come: its timer
is armed and due no later than the delay after the change, or a callback for its key is on the way. Once a
call of stop has returned, no timer is armed, no callback is on the way and nothing is sent, then and at
any later time. -/
theorem changes_told_or_cancelled (debounce : Nat) (graph : Graph.Store) (events : List Happening) :
    let start : Scene := { notifier := { debounce := debounce }, graph := graph }
    let s := start.run events
    (∀ k, s.notifier.armed.count k ≤ 1) ∧
    s.notifier.waiting = (s.notifier.armed.length + s.notifier.inFlight.length : Nat) ∧
    0 ≤ s.notifier.waiting ∧
    (∀ before change after k, events = before ++ change :: after → change.changed? = some k →
      (start.run before).notifier.stopped = false →
      (∃ mid rest, after = mid ++ .fanOut k :: rest ∧
        let reading := start.run (before ++ change :: mid)
        k ∈ reading.notifier.firing ∧ (reading.step (.fanOut k)).sent = reading.sent ++
          (audience reading.graph k).map fun id : Nat => Message.new k.order.type id none) ∨
      (∃ mid rest due, after = mid ++ .stop :: rest ∧
        (start.run (before ++ change :: mid)).notifier.timers.get? k = some (.armed due)) ∨
      (∃ due, s.notifier.timers.get? k = some (.armed due) ∧
        due ≤ (start.run before).now + debounce) ∨
      k ∈ s.notifier.inFlight) ∧
    (0 < s.returned → ∀ later, (s.run later).notifier.armed = [] ∧
      (s.run later).notifier.inFlight = [] ∧ (s.run later).sent = s.sent) := by
  intro start s
  have hstart : start.Orderly debounce := orderly_start debounce graph
  have hs : s.Orderly debounce := orderly_run hstart events
  have hcount : s.notifier.waiting = (s.notifier.armed.length + s.notifier.inFlight.length : Nat) := by
    rw [length_armed]
    exact hs.counted.waiting
  refine ⟨hs.counted.count_armed, hcount, ?_, ?_, ?_⟩
  · rw [hcount]
    exact Int.natCast_nonneg _
  · intro before change after k hevents hkey hrunning
    have hbefore := orderly_run hstart before
    have hstep : (start.run before).step change = _ := changed_step hkey
    have hcovers : ((start.run before).step change).notifier.Covers k ((start.run before).now + debounce) := by
      have hpending := covers_schedule (k := k) (start.run before).now hrunning
      rw [hbefore.debounce] at hpending
      rw [hstep]
      exact hpending hbefore.due
    have hsplit : ∀ mid, start.run (before ++ change :: mid) = ((start.run before).step change).run mid :=
      fun mid => run_append start before (change :: mid)
    have hend : s = ((start.run before).step change).run after := by
      rw [← hsplit, ← hevents]
    rcases covers_run (orderly_step hbefore change) hcovers after with
      ⟨mid, rest, hafter, hfiring⟩ | ⟨mid, rest, due, hafter, hdue⟩ | hstill
    · refine Or.inl ⟨mid, rest, hafter, ?_⟩
      rw [hsplit]
      exact ⟨hfiring, sent_fanOut hfiring⟩
    · refine Or.inr (Or.inl ⟨mid, rest, due, hafter, ?_⟩)
      rw [hsplit]
      exact hdue
    · rw [← hend] at hstill
      refine Or.inr (Or.inr (hstill.imp_right fun hflight => ?_))
      unfold inFlight
      rw [List.mem_append, List.mem_append, or_assoc]
      refine hflight.imp_left fun hexpired => ?_
      refine List.mem_map.2 ⟨(k, .expired), List.mem_filter.2 ⟨?_, rfl⟩, rfl⟩
      exact (Table.mem_entries hs.counted.keys k .expired).2 hexpired
  · intro hreturned later
    obtain ⟨hsent, hstill⟩ := sent_run_of_returned hs hreturned later
    obtain ⟨harmed, hflight⟩ := (orderly_run hs later).idle hstill
    exact ⟨harmed, hflight, hsent⟩

-- A change between the two steps of a callback has a timer of its own. Stop cancels that timer, and
-- returns only when the callback has fanned out.
example :
    let k : Key := ⟨"/app", .filesChanged⟩
    let start : Scene := { notifier := { debounce := 5 } }
    let s := start.run [.manifestChanged "/app", .wait 5, .expire k, .forget k, .manifestChanged "/app"]
    s.notifier.armed = [k] ∧ s.notifier.inFlight = [k] ∧ s.notifier.waiting = 2 ∧
      (s.run [.stop, .stopReturns]).returned = 0 ∧
      (s.run [.stop, .fanOut k, .stopReturns]).returned = 1 := by
  decide +kernel

end Scene

end CompilationBridge.Notifier
