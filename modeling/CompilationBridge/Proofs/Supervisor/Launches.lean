import CompilationBridge.Proofs.Supervisor.Custody
import CompilationBridge.Proofs.Supervisor.Turns

/-! What becomes of launches. A launch of a process is told from its beginning to its end: the handshake
fails, or a stop comes in during the handshake, or the host is connected, one call tells about the
connection, and the loop may take up the exit of the process later. At most one worker is busy with a
host, so what is told of one launch is told before the next one begins. -/

namespace CompilationBridge.Supervisor

/-- The whole story of a launch. -/
inductive Whole (process port : Nat) : List Incident → Prop
  | failed : Whole process port [.launched process port, .failed process, .gaveUp process]
  /-- A stop comes in before the handshake is over. -/
  | dropped : Whole process port [.launched process port]
  | kept : Whole process port
      [.launched process port, .connected process port, .called port, .returned port]
  | crashed : Whole process port
      [.launched process port, .connected process port, .called port, .returned port, .crashed process,
        .reported process]

/-- One whole story after another, for launches with these ports. -/
inductive Told : List Nat → List Incident → Prop
  | none : Told [] []
  | next {ports : List Nat} {port : Nat} {log story : List Incident} (before : Told ports log)
      (whole : Whole ports.length port story) : Told (ports ++ [port]) (log ++ story)

/-- The last launch is told up to here. -/
def Begun (ports : List Nat) (log : List Incident) (process port : Nat) (part : List Incident) : Prop :=
  ∃ earlier before, ports = earlier ++ [port] ∧ earlier.length = process ∧ Told earlier before ∧
    log = before ++ part

/-- What is told when a worker stands at a point. -/
def Stands (ports : List Nat) (log : List Incident) : Point → Prop
  | .launch | .throttle | .reserve | .pause _ => Told ports log
  | .greet k | .check k _ | .probe k _ | .confirm k | .decide k _ | .asleep k _ _ | .settle k =>
    ∃ port, Begun ports log k port [.launched k port]
  | .expire k | .giveUp k => ∃ port, Begun ports log k port [.launched k port, .failed k]
  | .call port => ∃ k, Begun ports log k port [.launched k port, .connected k port]
  | .calling port => ∃ k, Begun ports log k port [.launched k port, .connected k port, .called port]
  | .enlist | .watch => ∃ k port, Begun ports log k port
      [.launched k port, .connected k port, .called port, .returned port]
  | .await k => ∃ port, Begun ports log k port
      [.launched k port, .connected k port, .called port, .returned port]
  | .report k => ∃ port, Begun ports log k port
      [.launched k port, .connected k port, .called port, .returned port, .crashed k]
  | .entry | .halt | .terminate _ | .join _ | .done => True

/-- The ports of all processes that were launched. -/
def ports (s : Supervisor) : List Nat :=
  s.processes.map (·.port)

/-- The log tells of all launches, of the last one up to where the busy worker stands. -/
structure Chronicle (s : Supervisor) (log : List Incident) : Prop where
  stands : ∀ w ∈ s.workers, Stands s.ports log w.point
  idle : (∀ w ∈ s.workers, w.point.isBusy = false) → Told s.ports log
  newest : ∀ k, s.current = some k → k + 1 = s.ports.length

variable {s s' : Supervisor} {i j k port : Nat} {w v : Worker} {e : Surroundings} {pt : Point}
  {ports : List Nat} {log log' part new : List Incident}

/-! ### Where the story goes on -/

theorem stands_of_not_busy (h : pt.isBusy = false) : Stands ports log pt := by
  cases pt <;> trivial

theorem Begun.append (h : Begun ports log k port part) (more : List Incident) :
    Begun ports (log ++ more) k port (part ++ more) := by
  obtain ⟨earlier, before, hports, hk, htold, rfl⟩ := h
  exact ⟨earlier, before, hports, hk, htold, List.append_assoc ..⟩

theorem Begun.told (h : Begun ports log k port part) (hwhole : Whole k port part) : Told ports log := by
  obtain ⟨earlier, before, rfl, rfl, htold, rfl⟩ := h
  exact htold.next hwhole

theorem Begun.length_ports (h : Begun ports log k port part) : k + 1 = ports.length := by
  obtain ⟨earlier, before, rfl, rfl, -, -⟩ := h
  simp

theorem Begun.portOf_eq (h : Begun s.ports log k port part) : s.portOf k = port := by
  obtain ⟨earlier, before, hports, rfl, -, -⟩ := h
  have hget : s.ports[earlier.length]? = some port := by simp [hports]
  rw [Supervisor.ports, List.getElem?_map] at hget
  rw [portOf, hget]
  rfl

/-- The process in use is the one that is told about. -/
theorem Begun.eq_newest {l : Nat} (h : Begun ports log k port part) (hl : l + 1 = ports.length) : l = k := by
  have := h.length_ports
  omega

theorem ports_modify {process : Nat} {f : Process → Process} (hf : ∀ p, (f p).port = p.port) :
    ({ s with processes := s.processes.modify process f } : Supervisor).ports = s.ports := by
  refine List.ext_getElem? fun j => ?_
  simp only [Supervisor.ports, List.getElem?_map, List.getElem?_modify]
  cases s.processes[j]? with
  | none => rfl
  | some p =>
      show some (if process = j then f p else p).port = _
      split
      · exact congrArg some (hf p)
      · rfl

theorem ports_markTerminated (s : Supervisor) (process : Nat) :
    (s.markTerminated process).ports = s.ports :=
  ports_modify fun _ => rfl

theorem length_ports (s : Supervisor) : s.ports.length = s.processes.length :=
  List.length_map ..

/-- A worker goes to another point and the log stays as it is. -/
theorem Chronicle.aside (h : Chronicle s log) (hw : s.workers[i]? = some w)
    (hstands : Stands s.ports log pt) (hbusy : pt.isBusy = false → w.point.isBusy = false)
    (hworkers : s'.workers = s.workers := by rfl) (hports : s'.ports = s.ports := by rfl)
    (hcurrent : ∀ k, s'.current = some k → s.current = some k := by exact fun _ h => h) :
    Chronicle (s'.goTo i pt) log where
  stands := by
    intro v hv
    show Stands s'.ports log v.point
    obtain ⟨j, hj⟩ := List.getElem?_of_mem hv
    rw [getElem?_goTo, hworkers] at hj
    rw [hports]
    split at hj
    · obtain ⟨u, -, rfl⟩ := Option.map_eq_some_iff.1 hj
      exact hstands
    · exact h.stands v (List.mem_of_getElem? hj)
  idle hidle := by
    show Told s'.ports log
    rw [hports]
    refine h.idle fun v hv => ?_
    obtain ⟨j, hj⟩ := List.getElem?_of_mem hv
    have hget := getElem?_goTo s' i pt j
    rw [hworkers, hj] at hget
    split at hget
    · rename_i hij
      obtain rfl : w = v := Option.some_inj.1 (hw.symm.trans (hij ▸ hj))
      exact hbusy (hidle _ (List.mem_of_getElem? hget))
    · exact hidle v (List.mem_of_getElem? hget)
  newest k hk := hports ▸ h.newest k (hcurrent k hk)

/-- The busy worker goes to another point, and what happens is told. -/
theorem Chronicle.move (hs : Custody s) (hw : s.workers[i]? = some w) (hwbusy : w.point.isBusy = true)
    (hstands : Stands s'.ports log' pt) (hdone : pt.isBusy = false → Told s'.ports log')
    (hnewest : ∀ k, s'.current = some k → k + 1 = s'.ports.length)
    (hworkers : s'.workers = s.workers := by rfl) : Chronicle (s'.goTo i pt) log' where
  stands := by
    intro v hv
    obtain ⟨j, hj⟩ := List.getElem?_of_mem hv
    rw [getElem?_goTo, hworkers] at hj
    split at hj
    · obtain ⟨u, -, rfl⟩ := Option.map_eq_some_iff.1 hj
      exact hstands
    · rename_i hij
      refine stands_of_not_busy (Bool.eq_false_iff.2 fun hbusy => hij ?_)
      exact hs.busy i j w v hw hj hwbusy hbusy
  idle hidle := by
    have hget := getElem?_goTo s' i pt i
    rw [if_pos rfl, hworkers, hw] at hget
    exact hdone (hidle _ (List.mem_of_getElem? hget))
  newest := hnewest

/-- A worker comes in. -/
theorem Chronicle.enroll (h : Chronicle s log) (hstands : Stands s.ports log w.point) :
    Chronicle { s with workers := s.workers ++ [w] } log where
  stands v hv := by
    rcases List.mem_append.1 hv with hv | hv
    · exact h.stands v hv
    · rw [List.mem_singleton.1 hv]
      exact hstands
  idle hidle := h.idle fun v hv => hidle v (List.mem_append_left _ hv)
  newest := h.newest

/-! ### One step -/

theorem Chronicle.launch (hs : Custody s) (h : Chronicle s log) (hw : s.workers[i]? = some w)
    (hp : w.point = .launch) (port : Nat) (tally : Tally) :
    Chronicle ({ s with
      phase := .starting
      processes := s.processes ++ [({ port := port } : Process)]
      current := some s.processes.length
      tally := tally }.goTo i (.greet s.processes.length))
      (log ++ [Incident.launched s.processes.length port]) := by
  have htold : Stands s.ports log w.point := h.stands w (List.mem_of_getElem? hw)
  rw [hp] at htold
  have hports : (s.processes ++ [({ port := port } : Process)]).map (·.port) = s.ports ++ [port] := by
    rw [List.map_append]
    rfl
  have hbegun : Begun ((s.processes ++ [({ port := port } : Process)]).map (·.port))
      (log ++ [Incident.launched s.processes.length port]) s.processes.length port
      [.launched s.processes.length port] := ⟨s.ports, log, hports, s.length_ports, htold, rfl⟩
  refine .move hs hw (by rw [hp]; rfl) ⟨port, hbegun⟩ nofun ?_
  rintro k ⟨⟩
  exact hbegun.length_ports

/-- The loop takes over from the call to start that enlists it, and from its launch. -/
theorem Chronicle.enlist (hs : Custody s) (h : Chronicle s log) (hw : s.workers[i]? = some w)
    (hp : w.point = .enlist) (hostId : String) :
    Chronicle ({ s with workers := s.workers ++ [(⟨.keeper, hostId, .watch⟩ : Worker)] }.goTo i .done) log := by
  have hbegun : Stands s.ports log w.point := h.stands w (List.mem_of_getElem? hw)
  rw [hp] at hbegun
  rw [goTo_append (List.getElem?_eq_some_iff.1 hw).1]
  obtain ⟨k, port, hpart⟩ := hbegun
  have hdone : Chronicle (s.goTo i .done) log :=
    .move hs hw (by rw [hp]; rfl) trivial (fun _ => hpart.told .kept) h.newest
  exact hdone.enroll ⟨k, port, hpart⟩

theorem Chronicle.turn (hs : Custody s) (h : Chronicle s log) (hw : s.workers[i]? = some w)
    (hturn : Turn s i w.role w.hostId e w.point pt s' new) : Chronicle (s'.goTo i pt) (log ++ new) := by
  have hstands := h.stands w (List.mem_of_getElem? hw)
  obtain ⟨role, hostId, point⟩ := w
  dsimp only at hturn hstands
  have hnil : log ++ [] = log := List.append_nil log
  cases hturn with
  | enter idle =>
      rw [hnil]
      refine h.aside hw (h.idle fun v hv => ?_) nofun
      rw [Bool.eq_false_iff]
      exact fun hbusy => (hs.footing v hv).phase_ne_idle hbusy idle
  | forgo stopped | miscarry running | giveBack stopped | breakOff stopped =>
      rw [hnil]
      exact .move hs hw rfl trivial (fun _ => hstands) h.newest
  | launch port running => exact h.launch hs hw rfl port _
  | miss exited | lapse exited | tooLate =>
      obtain ⟨port, hbegun⟩ := hstands
      exact .move hs hw rfl ⟨port, hbegun.append _⟩ nofun h.newest
  | expire =>
      rw [hnil]
      exact h.aside hw hstands nofun rfl (s.ports_markTerminated _)
  | @giveUp k =>
      obtain ⟨port, hbegun⟩ := hstands
      refine .move hs hw rfl trivial (fun _ => (hbegun.append _).told .failed) fun l hl => ?_
      have hl : (if s.current = some k then none else s.current) = some l := hl
      split at hl
      · cases hl
      · exact h.newest l hl
  | drop stopped =>
      rw [hnil]
      obtain ⟨port, hbegun⟩ := hstands
      exact .move hs hw rfl trivial (fun _ => hbegun.told .dropped) h.newest
  | @settle k running =>
      obtain ⟨port, hbegun⟩ := hstands
      rw [hbegun.portOf_eq]
      exact .move hs hw rfl ⟨k, hbegun.append _⟩ nofun h.newest
  | call =>
      obtain ⟨k, hbegun⟩ := hstands
      exact .move hs hw rfl ⟨k, hbegun.append _⟩ nofun h.newest
  | comeBack keeper | handOver starter =>
      obtain ⟨k, hbegun⟩ := hstands
      exact .move hs hw rfl ⟨k, _, hbegun.append _⟩ nofun h.newest
  | enlist connected =>
      rw [hnil]
      exact h.enlist hs hw rfl hostId
  | dismiss apart | resign current =>
      rw [hnil]
      obtain ⟨k, port, hbegun⟩ := hstands
      exact .move hs hw rfl trivial (fun _ => hbegun.told .kept) h.newest
  | attend current =>
      rw [hnil]
      obtain ⟨k, port, hbegun⟩ := hstands
      obtain rfl := hbegun.eq_newest (h.newest _ current)
      exact h.aside hw ⟨port, hbegun⟩ nofun
  | retire stopped =>
      rw [hnil]
      obtain ⟨port, hbegun⟩ := hstands
      exact .move hs hw rfl trivial (fun _ => hbegun.told .kept) h.newest
  | crash running =>
      obtain ⟨port, hbegun⟩ := hstands
      exact .move hs hw rfl ⟨port, hbegun.append _⟩ nofun nofun
  | report =>
      obtain ⟨port, hbegun⟩ := hstands
      exact .move hs hw rfl ((hbegun.append _).told .crashed) nofun h.newest
  | refuse begun | stopAgain stopped | join =>
      rw [hnil]
      exact h.aside hw trivial fun _ => rfl
  | seize running current | stop running current =>
      rw [hnil]
      exact h.aside hw trivial (fun _ => rfl) rfl rfl nofun
  | terminate =>
      rw [hnil]
      exact h.aside hw trivial (fun _ => rfl) rfl (s.ports_markTerminated _)
  | greet | check | accept | reject | confirm | sleep wake | wake | allow bucket | throttle
  | reserve bucket wake | resume =>
      rw [hnil]
      exact h.aside hw hstands nofun

end CompilationBridge.Supervisor
