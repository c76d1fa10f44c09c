import CompilationBridge.Proofs.Supervisor.Launches

/-! The calls that tell about connections. A course of the supervisor keeps what happens to launches and
what is shown. There is one call for each connection, and no two of them overlap; after a stop at most one
begins, for a connection that was there already. The counters count launches, failed handshakes and exits
that the loop took up. -/

namespace CompilationBridge.Supervisor

/-- A supervisor with what has happened to its launches, and what it has shown. -/
structure Course where
  supervisor : Supervisor
  log : List Incident := []
  shown : List Effect := []

/-- What a move tells of launches. -/
def tells (s : Supervisor) : Move → List Incident
  | .work i e =>
    match s.workers[i]? with
    | some w => if s.isReady e.now w.point then s.incidents w e else []
    | none => []
  | _ => []

namespace Course

def take (c : Course) (m : Move) : Course where
  supervisor := (c.supervisor.take m).1
  log := c.log ++ c.supervisor.tells m
  shown := c.shown ++ (c.supervisor.take m).2

def run (c : Course) (moves : List Move) : Course :=
  moves.foldl take c

def start (settings : Settings.Host) : Course :=
  { supervisor := new settings }

/-- The processes that were connected, each with its port. -/
def connections (c : Course) : List (Nat × Nat) :=
  c.log.filterMap Incident.connected?

/-- The ports that calls told about. -/
def calls (c : Course) : List Nat :=
  c.log.filterMap Incident.called?

end Course

namespace Point

/-- A worker that stands here has not told yet about a connection to this port. -/
def toCall : Point → List Nat
  | .call port => [port]
  | _ => []

def toReturn : Point → List Nat
  | .calling port => [port]
  | _ => []

/-- A worker that stands here has not counted yet that the handshake with this process failed. -/
def toGiveUp : Point → List Nat
  | .expire process | .giveUp process => [process]
  | _ => []

def toReport : Point → List Nat
  | .report process => [process]
  | _ => []

end Point

variable {c c' : Course} {s s' : Supervisor} {i j k port : Nat} {w v : Worker} {e : Surroundings}
  {pt pt' : Point} {role : Role} {hostId : String} {ports : List Nat} {log log' new story : List Incident}

/-- A move of a course: nothing happens, a call comes in, a process exits, or a worker takes its turn. -/
theorem Course.take_work (c : Course) (i : Nat) (e : Surroundings) :
    c.take (.work i e) = c ∨ ∃ w pt s' new, c.supervisor.workers[i]? = some w ∧
      c.supervisor.isReady e.now w.point = true ∧ Acts c.supervisor i w e pt s' new ∧
      c.take (.work i e) =
        ⟨s'.goTo i pt, c.log ++ new, c.shown ++ (c.supervisor.act i w e).2⟩ := by
  simp only [take, tells, Supervisor.take, step]
  cases hw : c.supervisor.workers[i]? with
  | none => exact Or.inl (by simp)
  | some w =>
      dsimp only
      cases hready : c.supervisor.isReady e.now w.point with
      | false => exact Or.inl (by simp)
      | true =>
          obtain ⟨pt, s', new, hacts⟩ := exists_acts (i := i) hready
          exact Or.inr ⟨w, pt, s', new, rfl, hready, hacts, by simp [hacts.state, hacts.incidents]⟩

/-! ### What a log tells -/

/-- A log but for what is still to be done. -/
structure Balance (log : List Incident) (toCall toReturn toGiveUp toReport : List Nat) : Prop where
  calls : (log.filterMap Incident.connected?).map (·.2) = log.filterMap Incident.called? ++ toCall
  returns : log.filterMap Incident.called? = log.filterMap Incident.returned? ++ toReturn
  failures : log.filterMap Incident.failed? = log.filterMap Incident.gaveUp? ++ toGiveUp
  crashes : log.filterMap Incident.crashed? = log.filterMap Incident.reported? ++ toReport

theorem Balance.append {toCall toReturn toGiveUp toReport : List Nat} (h : Balance log [] [] [] [])
    (h' : Balance log' toCall toReturn toGiveUp toReport) :
    Balance (log ++ log') toCall toReturn toGiveUp toReport where
  calls := by simp [h.calls, h'.calls]
  returns := by simp [h.returns, h'.returns]
  failures := by simp [h.failures, h'.failures]
  crashes := by simp [h.crashes, h'.crashes]

theorem Told.balance (h : Told ports log) : Balance log [] [] [] [] := by
  induction h with
  | none => exact ⟨rfl, rfl, rfl, rfl⟩
  | next before whole ih => exact ih.append (by cases whole <;> exact ⟨rfl, rfl, rfl, rfl⟩)

theorem Begun.balance {part : List Incident} {toCall toReturn toGiveUp toReport : List Nat}
    (h : Begun ports log k port part) (hpart : Balance part toCall toReturn toGiveUp toReport) :
    Balance log toCall toReturn toGiveUp toReport := by
  obtain ⟨earlier, before, -, -, htold, rfl⟩ := h
  exact htold.balance.append hpart

/-- Where the busy worker stands tells what is still to be done. -/
theorem Stands.balance (h : Stands ports log pt) (hbusy : pt.isBusy = true) :
    Balance log pt.toCall pt.toReturn pt.toGiveUp pt.toReport := by
  cases pt with
  | launch | throttle | reserve | pause => exact Told.balance h
  | call | calling =>
      obtain ⟨k, hbegun⟩ := h
      exact hbegun.balance ⟨rfl, rfl, rfl, rfl⟩
  | enlist | watch =>
      obtain ⟨k, port, hbegun⟩ := h
      exact hbegun.balance ⟨rfl, rfl, rfl, rfl⟩
  | entry | halt | terminate | join | done => cases hbusy
  | _ =>
      obtain ⟨port, hbegun⟩ := h
      exact hbegun.balance ⟨rfl, rfl, rfl, rfl⟩

/-- The log is a beginning of whole stories. -/
theorem Begun.completes {part rest : List Incident} (h : Begun ports log k port part)
    (hwhole : Whole k port (part ++ rest)) : ∃ rest, Told ports (log ++ rest) :=
  ⟨rest, (h.append rest).told hwhole⟩

theorem Stands.completes (h : Stands ports log pt) (hbusy : pt.isBusy = true) :
    ∃ rest, Told ports (log ++ rest) := by
  cases pt with
  | launch | throttle | reserve | pause => exact ⟨[], by rwa [List.append_nil]⟩
  | call =>
      obtain ⟨k, hbegun⟩ := h
      exact hbegun.completes .kept
  | calling =>
      obtain ⟨k, hbegun⟩ := h
      exact hbegun.completes .kept
  | enlist | watch =>
      obtain ⟨k, port, hbegun⟩ := h
      exact hbegun.completes .kept
  | await =>
      obtain ⟨port, hbegun⟩ := h
      exact hbegun.completes .kept
  | report =>
      obtain ⟨port, hbegun⟩ := h
      exact hbegun.completes .crashed
  | expire | giveUp =>
      obtain ⟨port, hbegun⟩ := h
      exact hbegun.completes .failed
  | entry | halt | terminate | join | done => cases hbusy
  | _ =>
      obtain ⟨port, hbegun⟩ := h
      exact hbegun.completes .dropped

/-! ### What is never told -/

theorem Whole.of_connected {l q : Nat} (h : Whole k port story) (hmem : .connected l q ∈ story) :
    l = k ∧ q = port := by
  cases h <;> simp at hmem <;> exact hmem

theorem Whole.of_failed {l : Nat} (h : Whole k port story) (hmem : .failed l ∈ story) :
    l = k ∧ ∀ q, .connected k q ∉ story := by
  cases h <;> simp at hmem ⊢
  exact hmem

theorem Whole.nodup_connected (h : Whole k port story) :
    ((story.filterMap Incident.connected?).map (·.1)).Nodup := by
  cases h <;> simp [List.filterMap_cons, Incident.connected?]

/-- A process is connected to the port with which it was launched. -/
theorem Told.port_of_connected (h : Told ports log) (hmem : .connected k port ∈ log) :
    ports[k]? = some port := by
  induction h with
  | none => cases hmem
  | next before whole ih =>
      rcases List.mem_append.1 hmem with hmem | hmem
      · have hget := ih hmem
        rw [List.getElem?_append_left (List.getElem?_eq_some_iff.1 hget).1, hget]
      · obtain ⟨rfl, rfl⟩ := whole.of_connected hmem
        exact List.getElem?_concat_length

theorem Told.lt_of_connected (h : Told ports log) (hmem : .connected k port ∈ log) : k < ports.length :=
  (List.getElem?_eq_some_iff.1 (h.port_of_connected hmem)).1

theorem Told.lt_of_failed (h : Told ports log) (hmem : .failed k ∈ log) : k < ports.length := by
  induction h with
  | none => cases hmem
  | next before whole ih =>
      rw [List.length_append]
      rcases List.mem_append.1 hmem with hmem | hmem
      · exact Nat.lt_add_right _ (ih hmem)
      · rw [(whole.of_failed hmem).1]
        exact Nat.lt_succ_self _

/-- No process is connected whose handshake failed. -/
theorem Told.not_failed (h : Told ports log) (hmem : .connected k port ∈ log) : .failed k ∉ log := by
  intro hfailed
  induction h with
  | none => cases hmem
  | next before whole ih =>
      rcases List.mem_append.1 hmem with hmem | hmem <;> rcases List.mem_append.1 hfailed with hfailed | hfailed
      · exact ih hmem hfailed
      · obtain ⟨rfl, -⟩ := whole.of_failed hfailed
        exact Nat.lt_irrefl _ (before.lt_of_connected hmem)
      · obtain ⟨rfl, rfl⟩ := whole.of_connected hmem
        exact Nat.lt_irrefl _ (before.lt_of_failed hfailed)
      · obtain ⟨rfl, hnever⟩ := whole.of_failed hfailed
        exact hnever _ hmem

theorem mem_connected? {p : Nat × Nat} (h : p ∈ log.filterMap Incident.connected?) :
    .connected p.1 p.2 ∈ log := by
  obtain ⟨a, ha, hp⟩ := List.mem_filterMap.1 h
  cases a <;> simp only [Incident.connected?, Option.some.injEq, reduceCtorEq] at hp
  rwa [← hp]

/-- No process is connected twice. -/
theorem Told.nodup_connected (h : Told ports log) :
    ((log.filterMap Incident.connected?).map (·.1)).Nodup := by
  induction h with
  | none => exact List.nodup_nil
  | next before whole ih =>
      rw [List.filterMap_append, List.map_append, List.nodup_append]
      refine ⟨ih, whole.nodup_connected, fun k hk l hl hkl => ?_⟩
      obtain ⟨p, hp, rfl⟩ := List.mem_map.1 hk
      obtain ⟨q, hq, rfl⟩ := List.mem_map.1 hl
      have hlt := before.lt_of_connected (mem_connected? hp)
      have heq := (whole.of_connected (mem_connected? hq)).1
      omega

/-! ### One worker at a time -/

/-- What at most one worker has to do, as only a busy one has to do it. -/
structure IsTask (f : Point → List Nat) : Prop where
  idle : ∀ pt, pt.isBusy = false → f pt = []
  length_le : ∀ pt, (f pt).length ≤ 1

theorem isTask_toCall : IsTask Point.toCall where
  idle pt h := by cases pt <;> first | rfl | cases h
  length_le pt := by cases pt <;> simp [Point.toCall]

theorem isTask_toReturn : IsTask Point.toReturn where
  idle pt h := by cases pt <;> first | rfl | cases h
  length_le pt := by cases pt <;> simp [Point.toReturn]

theorem isTask_toGiveUp : IsTask Point.toGiveUp where
  idle pt h := by cases pt <;> first | rfl | cases h
  length_le pt := by cases pt <;> simp [Point.toGiveUp]

theorem isTask_toReport : IsTask Point.toReport where
  idle pt h := by cases pt <;> first | rfl | cases h
  length_le pt := by cases pt <;> simp [Point.toReport]

/-- What the workers still have to do. -/
def toDo (s : Supervisor) (f : Point → List Nat) : List Nat :=
  s.workers.flatMap fun w => f w.point

theorem toDo_of_idle {f : Point → List Nat} (hf : IsTask f)
    (hidle : ∀ w ∈ s.workers, w.point.isBusy = false) : s.toDo f = [] :=
  List.flatMap_eq_nil_iff.2 fun w hw => hf.idle _ (hidle w hw)

theorem flatMap_of_sole {f : Point → List Nat} {workers : List Worker} (hf : IsTask f)
    (hsole : AtMostOne Point.isBusy workers) (hw : workers[i]? = some w) (hbusy : w.point.isBusy = true) :
    workers.flatMap (fun w => f w.point) = f w.point := by
  induction workers generalizing i with
  | nil => simp at hw
  | cons u rest ih =>
      have hrest : AtMostOne Point.isBusy rest := fun a b x y ha hb hx hy =>
        Nat.succ.inj (hsole (a + 1) (b + 1) x y ha hb hx hy)
      rw [List.flatMap_cons]
      cases i with
      | zero =>
          obtain rfl : u = w := by simpa using hw
          have hothers : rest.flatMap (fun w => f w.point) = [] := by
            refine List.flatMap_eq_nil_iff.2 fun v hv => hf.idle _ (Bool.eq_false_iff.2 fun hvbusy => ?_)
            obtain ⟨b, hb⟩ := List.getElem?_of_mem hv
            cases hsole 0 (b + 1) u v rfl hb hbusy hvbusy
          rw [hothers, List.append_nil]
      | succ i =>
          have hu : f u.point = [] := hf.idle _ (Bool.eq_false_iff.2 fun hubusy => by
            cases hsole 0 (i + 1) u w rfl hw hubusy hbusy)
          rw [hu, List.nil_append]
          exact ih hrest hw

/-- Either no worker is busy, or one is and what is to be done is what it has to do. -/
theorem Custody.sole (hs : Custody s) : (∀ w ∈ s.workers, w.point.isBusy = false) ∨
    ∃ w ∈ s.workers, w.point.isBusy = true ∧ ∀ f, IsTask f → s.toDo f = f w.point := by
  by_cases hbusy : ∃ w ∈ s.workers, w.point.isBusy = true
  · obtain ⟨w, hw, hwbusy⟩ := hbusy
    obtain ⟨i, hi⟩ := List.getElem?_of_mem hw
    exact Or.inr ⟨w, hw, hwbusy, fun f hf => flatMap_of_sole hf hs.busy hi hwbusy⟩
  · exact Or.inl (by simpa using hbusy)

theorem Custody.length_toDo {f : Point → List Nat} (hs : Custody s) (hf : IsTask f) :
    (s.toDo f).length ≤ 1 := by
  rcases hs.sole with hidle | ⟨w, -, -, htask⟩
  · rw [toDo_of_idle hf hidle]
    exact Nat.zero_le _
  · rw [htask f hf]
    exact hf.length_le _

/-- What the log does not tell yet is what the workers still have to do. -/
theorem Chronicle.balance (h : Chronicle s log) (hs : Custody s) :
    Balance log (s.toDo Point.toCall) (s.toDo Point.toReturn) (s.toDo Point.toGiveUp)
      (s.toDo Point.toReport) := by
  rcases hs.sole with hidle | ⟨w, hw, hbusy, htask⟩
  · rw [toDo_of_idle isTask_toCall hidle, toDo_of_idle isTask_toReturn hidle,
      toDo_of_idle isTask_toGiveUp hidle, toDo_of_idle isTask_toReport hidle]
    exact (h.idle hidle).balance
  · rw [htask _ isTask_toCall, htask _ isTask_toReturn, htask _ isTask_toGiveUp, htask _ isTask_toReport]
    exact (h.stands w hw).balance hbusy

/-- What the log tells is a beginning of one whole story after another. -/
theorem Chronicle.completes (h : Chronicle s log) (hs : Custody s) :
    ∃ rest, Told s.ports (log ++ rest) := by
  rcases hs.sole with hidle | ⟨w, hw, hbusy, -⟩
  · exact ⟨[], by rw [List.append_nil]; exact h.idle hidle⟩
  · exact (h.stands w hw).completes hbusy

/-! ### What a turn counts and changes -/

/-- The counters count launches, and the failures and exits that are counted in the log. -/
structure Counted (s : Supervisor) (log : List Incident) : Prop where
  starts : s.tally.starts = s.processes.length
  failures : s.tally.handshakeFailures = (log.filterMap Incident.gaveUp?).length
  restarts : s.tally.restarts = (log.filterMap Incident.reported?).length

theorem Turn.counts (h : Turn s i role hostId e pt pt' s' new) :
    s'.tally.starts + s.processes.length = s.tally.starts + s'.processes.length ∧
    s'.tally.handshakeFailures = s.tally.handshakeFailures + (new.filterMap Incident.gaveUp?).length ∧
    s'.tally.restarts = s.tally.restarts + (new.filterMap Incident.reported?).length := by
  cases h with
  | launch port running =>
      refine ⟨?_, rfl, rfl⟩
      rw [List.length_append, List.length_singleton]
      dsimp only
      omega
  | expire | terminate => exact ⟨by simp [markTerminated], rfl, rfl⟩
  | _ => exact ⟨rfl, rfl, rfl⟩

theorem Counted.turn (h : Counted s log) (hturn : Turn s i role hostId e pt pt' s' new) :
    Counted (s'.goTo i pt') (log ++ new) := by
  obtain ⟨hstarts, hfailures, hrestarts⟩ := hturn.counts
  refine ⟨?_, ?_, ?_⟩
  · have := h.starts
    show s'.tally.starts = s'.processes.length
    omega
  · show s'.tally.handshakeFailures = _
    rw [hfailures, h.failures, List.filterMap_append, List.length_append]
  · show s'.tally.restarts = _
    rw [hrestarts, h.restarts, List.filterMap_append, List.length_append]

/-- A worker that is busy stays so or ends. -/
theorem Turn.isBusy (h : Turn s i role hostId e pt pt' s' new) (hbusy : pt.isBusy = true) :
    pt'.isBusy = true ∨ pt' = .done := by
  cases h with
  | refuse | stopAgain | seize | stop | terminate | join => cases hbusy
  | _ => first | exact Or.inl rfl | exact Or.inr rfl

/-- A stopped supervisor connects to nothing. -/
theorem Turn.of_stopped (h : Turn s i role hostId e pt pt' s' new) (hstopped : s.phase = .stopped) :
    s'.phase = .stopped ∧ new.filterMap Incident.connected? = [] := by
  cases h with
  | enter idle => simp [hstopped] at idle
  | miscarry running | launch port running | settle running | crash running | seize running current
  | stop running current => exact absurd hstopped running
  | giveUp => exact ⟨if_pos hstopped, rfl⟩
  | _ => exact ⟨hstopped, rfl⟩

/-- The state becomes connected when a launch is told to be so. -/
theorem Turn.connects (h : Turn s i role hostId e pt pt' s' new) (hphase : s.phase ≠ .connected) :
    s'.phase = .connected ↔ ∃ k port, new = [.connected k port] := by
  cases h with
  | giveUp => by_cases hstopped : s.phase = .stopped <;> simp [hstopped]
  | _ => simp_all [markTerminated]

/-- The loops are busy with a host, or have ended. -/
def KeepersBusy (s : Supervisor) : Prop :=
  ∀ w ∈ s.workers, w.role = .keeper → w.point.isBusy = true ∨ w.point = .done

/-- Nobody comes in during a turn but the loop that a call to start enlists. -/
theorem Turn.workers (h : Turn s i role hostId e pt pt' s' new) :
    s'.workers = s.workers ∨ s'.workers = s.workers ++ [⟨.keeper, hostId, .watch⟩] := by
  cases h with
  | enlist connected => exact Or.inr rfl
  | _ => exact Or.inl rfl

theorem KeepersBusy.turn (h : KeepersBusy s) (hw : s.workers[i]? = some w)
    (hturn : Turn s i w.role w.hostId e w.point pt s' new) : KeepersBusy (s'.goTo i pt) := by
  have hbefore : KeepersBusy s' := by
    intro v hv
    rcases hturn.workers with heq | heq <;> rw [heq] at hv
    · exact h v hv
    · rcases List.mem_append.1 hv with hv | hv
      · exact h v hv
      · rw [List.mem_singleton.1 hv]
        exact fun _ => Or.inl rfl
  have hget : s'.workers[i]? = some w := by
    rcases hturn.workers with heq | heq <;> rw [heq]
    · exact hw
    · rw [List.getElem?_append_left (List.getElem?_eq_some_iff.1 hw).1, hw]
  intro v hv hrole
  obtain ⟨j, hj⟩ := List.getElem?_of_mem hv
  rw [getElem?_goTo] at hj
  split at hj
  · rename_i hij
    rw [← hij, hget] at hj
    obtain rfl := Option.some_inj.1 hj
    rcases h w (List.mem_of_getElem? hw) hrole with hbusy | hdone
    · exact hturn.isBusy hbusy
    · rw [hdone] at hturn
      cases hturn
  · exact hbefore v (List.mem_of_getElem? hj) hrole

theorem KeepersBusy.enroll (h : KeepersBusy s) (hw : w.role ≠ .keeper) :
    KeepersBusy { s with workers := s.workers ++ [w] } := by
  intro v hv hrole
  rcases List.mem_append.1 hv with hv | hv
  · exact h v hv hrole
  · rw [List.mem_singleton.1 hv] at hrole
    exact absurd hrole hw

/-- Two loops that have not ended are one. -/
theorem KeepersBusy.unique (h : KeepersBusy s) (hs : Custody s) (hw : s.workers[i]? = some w)
    (hv : s.workers[j]? = some v) (hwrole : w.role = .keeper) (hvrole : v.role = .keeper)
    (hwpoint : w.point ≠ .done) (hvpoint : v.point ≠ .done) : i = j :=
  hs.busy i j w v hw hv ((h w (List.mem_of_getElem? hw) hwrole).resolve_right hwpoint)
    ((h v (List.mem_of_getElem? hv) hvrole).resolve_right hvpoint)

theorem Chronicle.exit (h : Chronicle s log) (process : Nat) (code : Int) :
    Chronicle (s.exit process code) log := by
  have hports : (s.exit process code).ports = s.ports := ports_modify fun _ => rfl
  exact ⟨fun w hw => hports ▸ h.stands w hw, fun hidle => hports ▸ h.idle hidle,
    fun k hk => hports ▸ h.newest k hk⟩

/-! ### Courses -/

/-- What holds at all times. -/
structure Course.Kept (c : Course) : Prop where
  custody : Custody c.supervisor
  chronicle : Chronicle c.supervisor c.log
  counted : Counted c.supervisor c.log
  keepers : KeepersBusy c.supervisor
  shown : c.shown.filterMap Effect.called? = c.calls

namespace Course

/-- A move that tells and shows nothing. -/
theorem Kept.quiet (h : c.Kept) (hs : Custody s) (hchronicle : Chronicle s c.log)
    (hkeepers : KeepersBusy s) (hprocesses : s.processes.length = c.supervisor.processes.length)
    (htally : s.tally = c.supervisor.tally) : Kept ⟨s, c.log ++ [], c.shown ++ []⟩ := by
  obtain ⟨hstarts, hfailures, hrestarts⟩ := h.counted
  rw [List.append_nil, List.append_nil]
  exact ⟨hs, hchronicle, ⟨by rw [htally, hprocesses, hstarts], by rw [htally, hfailures],
    by rw [htally, hrestarts]⟩, hkeepers, h.shown⟩

theorem Kept.work (h : c.Kept) (i : Nat) (e : Surroundings) : (c.take (.work i e)).Kept := by
  rcases c.take_work i e with heq | ⟨w, pt, s', new, hw, hready, hacts, heq⟩ <;> rw [heq]
  · exact h
  · have hcustody := custody_act h.custody hw hready
    rw [hacts.state] at hcustody
    refine ⟨hcustody, h.chronicle.turn h.custody hw hacts.turn, h.counted.turn hacts.turn,
      h.keepers.turn hw hacts.turn, ?_⟩
    rw [calls, List.filterMap_append, List.filterMap_append, hacts.shown, h.shown, calls]

theorem Kept.take (h : c.Kept) (m : Move) : (c.take m).Kept := by
  have hcustody := custody_take c.supervisor m h.custody
  cases m with
  | work i e => exact h.work i e
  | start hostId => exact h.quiet hcustody (h.chronicle.enroll trivial) (h.keepers.enroll nofun) rfl rfl
  | stop => exact h.quiet hcustody (h.chronicle.enroll trivial) (h.keepers.enroll nofun) rfl rfl
  | exit process code =>
      exact h.quiet hcustody (h.chronicle.exit process code) h.keepers (List.length_modify ..) rfl

theorem Kept.start (settings : Settings.Host) : (start settings).Kept where
  custody := custody_new settings
  chronicle := ⟨nofun, fun _ => .none, nofun⟩
  counted := ⟨rfl, rfl, rfl⟩
  keepers := nofun
  shown := rfl

theorem Kept.run (h : c.Kept) (moves : List Move) : (c.run moves).Kept :=
  List.foldlRecOn moves Course.take h fun _ hc m _ => hc.take m

/-- What is told after a stop. -/
theorem take_of_stopped (hstopped : c.supervisor.phase = .stopped) (m : Move) :
    (c.take m).supervisor.phase = .stopped ∧
      ∃ new, (c.take m).log = c.log ++ new ∧ new.filterMap Incident.connected? = [] := by
  cases m with
  | work i e =>
      rcases c.take_work i e with heq | ⟨w, pt, s', new, hw, hready, hacts, heq⟩ <;> rw [heq]
      · exact ⟨hstopped, [], (List.append_nil _).symm, rfl⟩
      · obtain ⟨hphase, hnew⟩ := hacts.turn.of_stopped hstopped
        exact ⟨hphase, new, rfl, hnew⟩
  | start hostId => exact ⟨hstopped, [], rfl, rfl⟩
  | stop => exact ⟨hstopped, [], rfl, rfl⟩
  | exit process code => exact ⟨hstopped, [], rfl, rfl⟩

theorem run_of_stopped (hstopped : c.supervisor.phase = .stopped) (moves : List Move) :
    ∃ new, (c.run moves).log = c.log ++ new ∧ new.filterMap Incident.connected? = [] := by
  induction moves generalizing c with
  | nil => exact ⟨[], (List.append_nil _).symm, rfl⟩
  | cons m moves ih =>
      obtain ⟨hphase, new, hnew, hnone⟩ := take_of_stopped hstopped m
      obtain ⟨more, hmore, hmorenone⟩ := ih hphase
      refine ⟨new ++ more, ?_, by rw [List.filterMap_append, hnone, hmorenone]; rfl⟩
      rw [← List.append_assoc, ← hnew]
      exact hmore

/-- After a stop at most one more call begins, and it is about the last connection before the stop. -/
theorem Kept.calls_of_stopped (h : c.Kept) (hstopped : c.supervisor.phase = .stopped)
    (moves : List Move) : (c.run moves).connections = c.connections ∧
      ∃ later, (c.run moves).calls = c.calls ++ later ∧ later.length ≤ 1 ∧
        ∀ port ∈ later, ∃ k, c.connections.getLast? = some (k, port) := by
  obtain ⟨new, hnew, hnone⟩ := run_of_stopped hstopped moves
  have hconnections : (c.run moves).connections = c.connections := by
    rw [connections, hnew, List.filterMap_append, hnone, List.append_nil, connections]
  have hcalls : (c.run moves).calls = c.calls ++ new.filterMap Incident.called? := by
    rw [calls, hnew, List.filterMap_append, calls]
  have hbefore : c.connections.map (·.2) = c.calls ++ c.supervisor.toDo Point.toCall :=
    (h.chronicle.balance h.custody).calls
  have hafter : (c.run moves).connections.map (·.2) =
      (c.run moves).calls ++ (c.run moves).supervisor.toDo Point.toCall :=
    ((h.run moves).chronicle.balance (h.run moves).custody).calls
  -- the later calls are those that were still to be done at the stop
  have hlater : new.filterMap Incident.called? ++ (c.run moves).supervisor.toDo Point.toCall =
      c.supervisor.toDo Point.toCall := by
    rw [hconnections, hbefore, hcalls, List.append_assoc] at hafter
    exact (List.append_cancel_left hafter).symm
  have hone := h.custody.length_toDo isTask_toCall
  refine ⟨hconnections, _, hcalls, ?_, fun port hport => ?_⟩
  · rw [← hlater, List.length_append] at hone
    omega
  · obtain ⟨q, hq⟩ : ∃ q, c.supervisor.toDo Point.toCall = [q] := by
      refine List.length_eq_one_iff.1 (Nat.le_antisymm hone (List.length_pos_of_mem (a := port) ?_))
      rw [← hlater]
      exact List.mem_append_left _ hport
    have hmem : port ∈ c.supervisor.toDo Point.toCall := by
      rw [← hlater]
      exact List.mem_append_left _ hport
    obtain rfl : port = q := by simpa [hq] using hmem
    have hlast : (c.connections.map (·.2)).getLast? = some port := by rw [hbefore, hq, List.getLast?_concat]
    rw [List.getLast?_map] at hlast
    obtain ⟨⟨k, l⟩, hk, rfl⟩ := Option.map_eq_some_iff.1 hlast
    exact ⟨k, hk⟩

end Course

/-- A worker stays where it is until its own step. -/
theorem getElem?_take (hw : s.workers[i]? = some w) {m : Move} (hm : ∀ e, m ≠ .work i e) :
    (s.take m).1.workers[i]? = some w := by
  have hlt := (List.getElem?_eq_some_iff.1 hw).1
  cases m with
  | start hostId => exact (List.getElem?_append_left hlt).trans hw
  | stop => exact (List.getElem?_append_left hlt).trans hw
  | exit process code => exact hw
  | work j e =>
      have hij : j ≠ i := fun hij => hm e (hij ▸ rfl)
      rcases take_work s j e with heq | ⟨v, hv, hready, heq⟩ <;> rw [heq]
      · exact hw
      · obtain ⟨pt, s', told, hacts⟩ := exists_acts (i := j) hready
        rw [hacts.state, getElem?_goTo, if_neg hij]
        rcases hacts.turn.workers with hsame | hmore
        · rwa [hsame]
        · rw [hmore, List.getElem?_append_left hlt, hw]

/-- No call is under way when one begins, and none when the state becomes connected. -/
theorem Custody.not_calling (hs : Custody s) {m : Move}
    (h : (∃ k port, s.tells m = [.connected k port]) ∨ ∃ port, s.tells m = [.called port])
    (hv : v ∈ s.workers) : v.point.toReturn = [] := by
  cases m with
  | work i e =>
      simp only [tells] at h
      split at h
      · rename_i w hw
        split at h
        · rename_i hready
          obtain ⟨pt, s', told, hacts⟩ := exists_acts (i := i) hready
          rw [hacts.incidents] at h
          have hbusy : w.point.isBusy = true ∧ w.point.toReturn = [] := by
            obtain ⟨role, hostId, point⟩ := w
            cases hacts.turn <;> first | exact ⟨rfl, rfl⟩ | simp at h
          by_contra hcalling
          have hvbusy : v.point.isBusy = true := by
            by_contra hidle
            exact hcalling (isTask_toReturn.idle _ (Bool.eq_false_iff.2 hidle))
          obtain ⟨j, hj⟩ := List.getElem?_of_mem hv
          obtain rfl := hs.busy i j w v hw hj hbusy.1 hvbusy
          exact hcalling (Option.some_inj.1 (hw.symm.trans hj) ▸ hbusy.2)
        · simp at h
      · simp at h
  | _ => simp [tells] at h

/-- The worker whose call begins is in it after the move. -/
theorem exists_calling {m : Move} (h : s.tells m = [.called port]) :
    ∃ (i : Nat) (w : Worker), (s.take m).1.workers[i]? = some w ∧ w.point.toReturn = [port] := by
  cases m with
  | work i e =>
      rcases Course.take_work ⟨s, [], []⟩ i e with heq | ⟨w, pt, s', new, hw, hready, hacts, heq⟩
      · have htells : [] ++ s.tells (.work i e) = [] := congrArg Course.log heq
        rw [h] at htells
        cases htells
      · have hstate : (s.take (.work i e)).1 = s'.goTo i pt := congrArg Course.supervisor heq
        have htells : [] ++ s.tells (.work i e) = [] ++ new := congrArg Course.log heq
        obtain rfl : [.called port] = new := h ▸ List.append_cancel_left htells
        refine ⟨i, { w with point := .calling port }, ?_, rfl⟩
        obtain ⟨role, hostId, point⟩ := w
        cases hacts.turn with
        | call => rw [hstate, getElem?_goTo, if_pos rfl, hw, Option.map_some]
  | _ => cases h

/-- The state becomes connected in the very moves that tell of a connection. -/
theorem connects_iff (hphase : s.phase ≠ .connected) (m : Move) :
    (s.take m).1.phase = .connected ↔ ∃ k port, s.tells m = [.connected k port] := by
  cases m with
  | work i e =>
      rcases Course.take_work ⟨s, [], []⟩ i e with heq | ⟨w, pt, s', new, hw, hready, hacts, heq⟩
      · have hstate : (s.take (.work i e)).1 = s := congrArg Course.supervisor heq
        have htells : [] ++ s.tells (.work i e) = [] := congrArg Course.log heq
        rw [hstate, (List.nil_append _).symm.trans htells]
        exact iff_of_false hphase (by simp)
      · have hstate : (s.take (.work i e)).1 = s'.goTo i pt := congrArg Course.supervisor heq
        have htells : [] ++ s.tells (.work i e) = [] ++ new := congrArg Course.log heq
        rw [hstate, List.append_cancel_left htells]
        exact hacts.turn.connects hphase
  | start hostId => exact iff_of_false hphase (by simp [tells])
  | stop => exact iff_of_false hphase (by simp [tells])
  | exit process code => exact iff_of_false hphase (by simp [tells])

/-- A call that is still to be done is done in the next step of the worker. -/
theorem step_of_call (hw : s.workers[i]? = some w) (hp : w.point = .call port) (e : Surroundings) :
    s.step i e = some (s.goTo i (.calling port), [.connected port]) := by
  have hready : s.isReady e.now w.point = true := by rw [hp]; rfl
  rw [step, hw]
  dsimp only
  rw [if_pos hready, act, hp]

/-- **One call for each connection.** Whatever calls come in, in whatever order the workers take their
steps and however the outside answers, what has happened is a beginning of one whole story of a launch
after another. The state becomes connected in the moves that tell of a connection; a connected process is
connected once, to the port with which it was launched, and its handshake did not fail. The calls tell
about the connections one after the other; at most one connection waits for its call, which the next step
of its worker makes, and at most one call has not returned. At most one restarting loop has not ended.
After a stop nothing is connected and at most one call begins, about the last connection before it. The
counters count the processes, the failed handshakes and the exits that the loop took up, but for one that
is about to be counted. -/
theorem connections_called (settings : Settings.Host) (moves : List Move) :
    let c := (Course.start settings).run moves
    let s := c.supervisor
    (∃ rest, Told s.ports (c.log ++ rest)) ∧
    c.shown.filterMap Effect.called? = c.calls ∧
    (∀ m, s.phase ≠ .connected → ((c.take m).supervisor.phase = .connected ↔
      ∃ k port, (c.take m).log = c.log ++ [.connected k port])) ∧
    (c.connections.map (·.1)).Nodup ∧
    (∀ k port, (k, port) ∈ c.connections → s.ports[k]? = some port ∧ .failed k ∉ c.log) ∧
    Balance c.log (s.toDo Point.toCall) (s.toDo Point.toReturn) (s.toDo Point.toGiveUp)
      (s.toDo Point.toReport) ∧
    (∀ f ∈ [Point.toCall, Point.toReturn, Point.toGiveUp, Point.toReport], (s.toDo f).length ≤ 1) ∧
    (∀ (i : Nat) (w : Worker) (port : Nat) (e : Surroundings), s.workers[i]? = some w → w.point = .call port →
      s.step i e = some (s.goTo i (.calling port), [.connected port])) ∧
    (∀ (i j : Nat) (w v : Worker), s.workers[i]? = some w → s.workers[j]? = some v → w.role = .keeper →
      v.role = .keeper → w.point ≠ .done → v.point ≠ .done → i = j) ∧
    (s.phase = .stopped → ∀ more, (c.run more).connections = c.connections ∧
      ∃ later, (c.run more).calls = c.calls ++ later ∧ later.length ≤ 1 ∧
        ∀ port ∈ later, ∃ k, c.connections.getLast? = some (k, port)) ∧
    s.tally.starts = s.processes.length ∧
    s.tally.handshakeFailures = (c.log.filterMap Incident.gaveUp?).length ∧
    s.tally.restarts = (c.log.filterMap Incident.reported?).length := by
  intro c s
  have hc : c.Kept := (Course.Kept.start settings).run moves
  obtain ⟨rest, htold⟩ := hc.chronicle.completes hc.custody
  refine ⟨⟨rest, htold⟩, hc.shown, fun m hphase => ?_, ?_, fun k port hk => ?_,
    hc.chronicle.balance hc.custody, fun f hf => ?_, fun i w port e hw hp => step_of_call hw hp e,
    fun i j w v => hc.keepers.unique hc.custody, hc.calls_of_stopped, hc.counted.starts, hc.counted.failures,
    hc.counted.restarts⟩
  · refine (connects_iff hphase m).trans ?_
    simp only [Course.take, List.append_cancel_left_eq, c, s]
  · have hnodup := htold.nodup_connected
    rw [List.filterMap_append, List.map_append] at hnodup
    exact hnodup.of_append_left
  · have hmem : .connected k port ∈ c.log ++ rest := List.mem_append_left _ (mem_connected? hk)
    exact ⟨htold.port_of_connected hmem, fun hfailed =>
      htold.not_failed hmem (List.mem_append_left _ hfailed)⟩
  · simp only [List.mem_cons, List.not_mem_nil, or_false] at hf
    rcases hf with rfl | rfl | rfl | rfl
    · exact hc.custody.length_toDo isTask_toCall
    · exact hc.custody.length_toDo isTask_toReturn
    · exact hc.custody.length_toDo isTask_toGiveUp
    · exact hc.custody.length_toDo isTask_toReport

end CompilationBridge.Supervisor
