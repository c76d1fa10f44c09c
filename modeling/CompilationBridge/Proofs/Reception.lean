import CompilationBridge.Channel
import CompilationBridge.Proofs.Tables

/-! Messages of the host are handled one at a time. A call that connects puts the new connection in the
place of the one before, closes that one, waits until its read loop has ended and only then starts the new
read loop. So at most one read loop runs, in whatever order requests arrive, read loops go on, connections
are closed and calls connect: requests are handled one after the other, those of a connection as they
arrived, and all those of a connection before those of the next. -/

namespace CompilationBridge.Channel

/-- A read loop runs from its start to its end. -/
def Connection.isRunning (x : Connection) : Bool :=
  x.reading && !x.ended

def runs (c : Channel) (i : Nat) : Bool :=
  (c.connections[i]?).any (·.isRunning)

/-- The request that a read loop is handling. -/
def handling? (c : Channel) (i : Nat) : Option Request :=
  (c.connections[i]?).bind (·.handling)

/-- The request that a read loop takes up next. The loop of a connection that was closed may still take
up what had arrived. -/
def next? (c : Channel) (i : Nat) : Option Request :=
  (c.connections[i]?).bind fun x =>
    if x.isRunning && x.handling.isNone then x.inbox.head? else none

/-- A read loop takes up the next request, on an open or a closed connection. -/
def takeUp (c : Channel) (i : Nat) : Channel :=
  c.modify i fun x => { x with inbox := x.inbox.tail, handling := x.inbox.head? }

/-- A request that is handled: the connection it came over and what it came to. The receiver is called
in the course of handling it if it is heard. -/
structure Handling where
  connection : Nat
  request : Request
  verdict : Verdict
deriving DecidableEq, Repr

inductive Mark where
  | began (handling : Handling)
  | ended (connection : Nat)
deriving DecidableEq, Repr

/-- The two ends of a handling. -/
def Handling.marks (h : Handling) : List Mark := [.began h, .ended h.connection]

/-- What can happen to the channel. Calls that connect are made one after the other. -/
inductive Move where
  /-- A call has dialled a host and replaces the connection. -/
  | connect (hostId : String)
  /-- The call goes on, if the read loop that it waits for has ended. -/
  | start
  | arrive (connection : Nat) (request : Request)
  /-- A read loop takes up a request, if there is one and it handles none. -/
  | read (connection : Nat)
  | finish (connection : Nat)
  /-- A connection is closed, by either end or by a failure. -/
  | hangUp (connection : Nat)
  /-- The read loop of a closed connection ends, if it handles nothing. -/
  | settle (connection : Nat)
  | listen (listening : Bool)

/-- The channel with what has happened to it. -/
structure Reception where
  channel : Channel := {}
  /-- Whether a call that connects has not started the new read loop yet. -/
  connecting : Bool := false
  arrived : List (Nat × Request) := []
  marks : List Mark := []

namespace Reception

/-- What has arrived over a connection. -/
def arrivedOver (s : Reception) (i : Nat) : List Request :=
  s.arrived.filterMap fun entry => if entry.1 = i then some entry.2 else none

def take (s : Reception) : Move → Reception
  | .connect hostId =>
    if s.connecting then s
    else { s with channel := s.channel.replace hostId, connecting := true }
  | .start =>
    if s.connecting && s.channel.isDrained then
      { s with channel := s.channel.start, connecting := false }
    else s
  | .arrive i request =>
    if s.channel.isOpen i then
      { s with channel := s.channel.arrive i request, arrived := s.arrived ++ [(i, request)] }
    else s
  | .read i =>
    match s.channel.next? i with
    | some request =>
      { s with
        channel := s.channel.takeUp i
        marks := s.marks ++ [.began ⟨i, request, request.verdict s.channel.listening⟩] }
    | none => s
  | .finish i =>
    match s.channel.handling? i with
    | some _ => { s with channel := s.channel.finish i, marks := s.marks ++ [.ended i] }
    | none => s
  | .hangUp i => { s with channel := s.channel.hangUp i }
  | .settle i => { s with channel := s.channel.settle i }
  | .listen listening => { s with channel := s.channel.listen listening }

def run (s : Reception) (moves : List Move) : Reception :=
  moves.foldl take s

end Reception

variable {c : Channel} {s s' : Reception} {i j : Nat} {x : Connection} {request : Request}
  {done : List Handling} {now : Option Handling}

/-! ### The channel after a step -/

theorem getElem?_modify (c : Channel) (i : Nat) (f : Connection → Connection) (j : Nat) :
    (c.modify i f).connections[j]? = if i = j then (c.connections[j]?).map f else c.connections[j]? := by
  rw [modify, List.getElem?_modify]
  split <;> simp

@[simp] theorem length_modify (c : Channel) (i : Nat) (f : Connection → Connection) :
    (c.modify i f).connections.length = c.connections.length :=
  List.length_modify ..

theorem next?_eq_some (h : c.next? i = some request) : ∃ x, c.connections[i]? = some x ∧
    x.isRunning = true ∧ x.handling = none ∧ ∃ rest, x.inbox = request :: rest := by
  obtain ⟨x, hx, hnext⟩ := Option.bind_eq_some_iff.1 h
  split at hnext
  · rename_i hguard
    obtain ⟨hrunning, hnone⟩ := Bool.and_eq_true_iff.1 hguard
    exact ⟨x, hx, hrunning, Option.isNone_iff_eq_none.1 hnone, List.head?_eq_some_iff.1 hnext⟩
  · cases hnext

/-- On a connection that is open, a read loop takes requests up as the channel reads. -/
theorem takeUp_eq_read (h : c.next? i = some request) (hopen : c.isOpen i = true) :
    c.takeUp i = c.read i := by
  obtain ⟨x, hx, hrunning, hnone, rest, hinbox⟩ := next?_eq_some h
  have hclosed : x.closed = false := by simpa [isOpen, hx] using hopen
  have hreading : x.reading = true := (Bool.and_eq_true_iff.1 hrunning).1
  have hconnections : (c.takeUp i).connections = (c.read i).connections := by
    refine List.ext_getElem? fun j => ?_
    rw [takeUp, read, getElem?_modify, getElem?_modify]
    split
    · rename_i hij
      simp [← hij, hx, hreading, hclosed, hnone, hinbox]
    · rfl
  simp only [takeUp, read, modify] at hconnections ⊢
  rw [hconnections]

theorem handling?_modify {f : Connection → Connection} (hf : ∀ x, c.connections[i]? = some x →
    (f x).handling = x.handling) (j : Nat) : (c.modify i f).handling? j = c.handling? j := by
  rw [handling?, handling?, getElem?_modify]
  split
  · rename_i hij
    subst hij
    cases hx : c.connections[i]? with
    | none => rfl
    | some x => exact hf x hx
  · rfl

theorem runs_modify {f : Connection → Connection} (hf : ∀ x, (f x).isRunning = true → x.isRunning = true)
    (h : (c.modify i f).runs j = true) : c.runs j = true := by
  rw [runs, getElem?_modify] at h
  split at h
  · cases hx : c.connections[j]? with
    | none => simp [hx] at h
    | some x =>
        rw [hx] at h
        simpa [runs, hx] using hf x h
  · exact h

theorem runs_takeUp (h : (c.takeUp i).runs j = true) : c.runs j = true :=
  runs_modify (f := fun x => { x with inbox := x.inbox.tail, handling := x.inbox.head? }) (fun _ h => h) h

theorem runs_finish (h : (c.finish i).runs j = true) : c.runs j = true :=
  runs_modify (f := fun x => { x with handling := none }) (fun _ h => h) h

/-! ### Which read loops run -/

/-- Only the read loop of the newest connection runs, or that of the one before while a call that
connects waits for it; and a read loop that handles a request runs. -/
structure Paced (s : Reception) : Prop where
  current : s.channel.current = s.channel.newest?
  latest : ∀ i, s.channel.runs i = true →
    i + (if s.connecting then 2 else 1) = s.channel.connections.length
  waits : s.connecting = true → ∀ i, i + 2 = s.channel.connections.length → s.channel.draining = some i
  replaced : s.connecting = true → s.channel.connections ≠ []
  busy : ∀ x ∈ s.channel.connections, x.handling.isSome = true → x.isRunning = true

theorem Paced.sole (h : Paced s) (hi : s.channel.runs i = true) (hj : s.channel.runs j = true) : i = j := by
  have := h.latest i hi
  have := h.latest j hj
  omega

theorem Paced.runs_of_handling (h : Paced s) (hi : s.channel.handling? i = some request) :
    s.channel.runs i = true := by
  obtain ⟨x, hx, hhandling⟩ := Option.bind_eq_some_iff.1 hi
  have hrunning := h.busy x (List.mem_of_getElem? hx) (by simp [hhandling])
  simpa [runs, hx] using hrunning

/-- A step of one connection, after which its read loop runs only if it ran before. -/
theorem Paced.modify {f : Connection → Connection} {arrived : List (Nat × Request)} {marks : List Mark}
    (h : Paced s) (hrunning : ∀ x, (f x).isRunning = true → x.isRunning = true)
    (hbusy : ∀ x, s.channel.connections[i]? = some x → (f x).handling.isSome = true →
      (f x).isRunning = true) :
    Paced { s with channel := s.channel.modify i f, arrived := arrived, marks := marks } := by
  refine ⟨?_, fun j hj => ?_, fun hc j hj => ?_, fun hc => ?_, fun y hy hhandling => ?_⟩
  · rw [newest?]
    simpa [← List.length_eq_zero_iff, newest?, List.isEmpty_iff, Channel.modify] using h.current
  · rw [length_modify]
    exact h.latest j (runs_modify hrunning hj)
  · exact h.waits hc j (by simpa using hj)
  · simpa [← List.length_eq_zero_iff] using h.replaced hc
  · obtain ⟨j, hj⟩ := List.getElem?_of_mem hy
    rw [getElem?_modify] at hj
    split at hj
    · rename_i hij
      subst hij
      obtain ⟨x, hx, rfl⟩ := Option.map_eq_some_iff.1 hj
      exact hbusy x hx hhandling
    · exact h.busy y (List.mem_of_getElem? hj) hhandling

theorem getElem?_replace (c : Channel) (hostId : String) (j : Nat) :
    (c.replace hostId).connections[j]? =
      if j = c.connections.length then some {}
      else (c.connections[j]?).map fun x => { x with closed := x.closed || c.current = some j } := by
  have hold : ∀ l : List Connection, l.length = c.connections.length →
      (l ++ [({} : Connection)])[j]? = if j = c.connections.length then some {} else l[j]? := by
    intro l hl
    rw [List.getElem?_append, hl]
    split
    · rw [if_neg (by omega)]
    · split
      · simp [*]
      · rw [List.getElem?_eq_none (by simp; omega), List.getElem?_eq_none (by omega)]
  unfold replace
  cases hcurrent : c.current with
  | none =>
      rw [hold _ rfl]
      simp
  | some i =>
      rw [hold _ (length_modify ..), getElem?_modify]
      by_cases hij : i = j <;> simp [hij]

@[simp] theorem length_replace (c : Channel) (hostId : String) :
    (c.replace hostId).connections.length = c.connections.length + 1 := by
  unfold replace
  split <;> simp [modify]

@[simp] theorem current_replace (c : Channel) (hostId : String) :
    (c.replace hostId).current = some c.connections.length := by
  cases hcurrent : c.current <;> simp [replace, modify, hcurrent]

@[simp] theorem draining_replace (c : Channel) (hostId : String) :
    (c.replace hostId).draining = c.current := by
  cases hcurrent : c.current <;> simp [replace, modify, hcurrent]

theorem runs_replace {hostId : String} (h : (c.replace hostId).runs j = true) : c.runs j = true := by
  rw [runs, getElem?_replace] at h
  split at h
  · cases h
  · rw [Option.any_map] at h
    exact h

theorem handling?_replace (c : Channel) (hostId : String) (j : Nat) :
    (c.replace hostId).handling? j = c.handling? j := by
  rw [handling?, handling?, getElem?_replace]
  split
  · rw [List.getElem?_eq_none (by omega)]
    rfl
  · cases c.connections[j]? <;> rfl

theorem Paced.connect (h : Paced s) (hostId : String) (hidle : s.connecting = false) :
    Paced { s with channel := s.channel.replace hostId, connecting := true } := by
  refine ⟨?_, fun j hj => ?_, fun _ j hj => ?_, fun _ => ?_, fun y hy hhandling => ?_⟩
  · rw [newest?, if_neg (by simp [List.isEmpty_iff, ← List.length_eq_zero_iff]), length_replace,
      current_replace, Nat.add_sub_cancel]
  · have hlatest := h.latest j (runs_replace hj)
    rw [hidle] at hlatest
    simpa using hlatest
  · have hj : j + 1 = s.channel.connections.length := by simpa using hj
    rw [draining_replace, h.current, newest?,
      if_neg (by simp [List.isEmpty_iff, ← List.length_eq_zero_iff]; omega), ← hj, Nat.add_sub_cancel]
  · simp [← List.length_eq_zero_iff]
  · obtain ⟨j, hj⟩ := List.getElem?_of_mem hy
    rw [getElem?_replace] at hj
    split at hj
    · obtain rfl := Option.some_inj.1 hj
      cases hhandling
    · obtain ⟨x, hx, rfl⟩ := Option.map_eq_some_iff.1 hj
      exact h.busy x (List.mem_of_getElem? hx) hhandling

/-- When the read loop that a call waits for has ended, no read loop runs. -/
theorem Paced.not_runs (h : Paced s) (hconnecting : s.connecting = true)
    (hdrained : s.channel.isDrained = true) : s.channel.runs j = false := by
  by_contra hruns
  rw [Bool.not_eq_false] at hruns
  have hlatest := h.latest j hruns
  rw [hconnecting] at hlatest
  rw [isDrained, h.waits hconnecting j hlatest] at hdrained
  cases hx : s.channel.connections[j]? with
  | none => simp [runs, hx] at hruns
  | some x =>
      simp only [runs, hx, Option.any_some, Connection.isRunning, Bool.and_eq_true] at hruns
      simp_all

/-- The new read loop is started: it is that of the newest connection. -/
theorem start_eq (hdrained : c.isDrained = true) (hcurrent : c.current = some i) :
    c.start = { c.modify i fun x => { x with reading := true } with draining := none } := by
  rw [start, if_pos hdrained, hcurrent]

theorem Paced.current_eq (h : Paced s) (hconnecting : s.connecting = true) :
    s.channel.current = some (s.channel.connections.length - 1) := by
  rw [h.current, newest?, if_neg]
  simpa [List.isEmpty_iff] using h.replaced hconnecting

theorem Paced.start (h : Paced s) (hconnecting : s.connecting = true)
    (hdrained : s.channel.isDrained = true) :
    Paced { s with channel := s.channel.start, connecting := false } := by
  have hcurrent := h.current_eq hconnecting
  have hpos : 0 < s.channel.connections.length :=
    List.length_pos_iff.2 (h.replaced hconnecting)
  rw [start_eq hdrained hcurrent]
  refine ⟨?_, fun j hj => ?_, nofun, nofun, fun y hy hhandling => ?_⟩
  · simpa [newest?, Channel.modify] using h.current
  · by_cases hnew : s.channel.connections.length - 1 = j
    · simp [← hnew]
      omega
    · have hget := getElem?_modify s.channel (s.channel.connections.length - 1)
        (fun x => { x with reading := true }) j
      rw [if_neg hnew] at hget
      have hold : s.channel.runs j = true := by
        rw [runs, ← hget]
        exact hj
      cases (h.not_runs hconnecting hdrained).symm.trans hold
  · obtain ⟨j, hj⟩ := List.getElem?_of_mem hy
    have hj : (s.channel.modify _ _).connections[j]? = some y := hj
    rw [getElem?_modify] at hj
    split at hj
    · obtain ⟨x, hx, rfl⟩ := Option.map_eq_some_iff.1 hj
      have hrunning := h.busy x (List.mem_of_getElem? hx) hhandling
      simp_all [Connection.isRunning]
    · exact h.busy y (List.mem_of_getElem? hj) hhandling

/-! ### What has been handled -/

/-- The requests among handlings that came over a connection. -/
def requestsOver (i : Nat) (handlings : List Handling) : List Request :=
  (handlings.filter (·.connection = i)).map (·.request)

/-- The handlings that are over, one after the other, and the one under way are what has happened to a
channel. -/
structure InOrder (s : Reception) (done : List Handling) (now : Option Handling) : Prop where
  marks : s.marks = done.flatMap Handling.marks ++ now.toList.map .began
  handling : ∀ i request, s.channel.handling? i = some request ↔
    ∃ h, now = some h ∧ h.connection = i ∧ h.request = request
  sorted : (done ++ now.toList).Pairwise fun a b => a.connection ≤ b.connection
  known : ∀ h ∈ done ++ now.toList, h.connection < s.channel.connections.length
  /-- A read loop runs after those whose requests were handled before. -/
  passed : ∀ h ∈ done ++ now.toList, ∀ i, s.channel.runs i = true → h.connection ≤ i
  judged : ∀ h ∈ done ++ now.toList, ∃ listening, h.verdict = h.request.verdict listening
  arrived : ∀ i x, s.channel.connections[i]? = some x →
    requestsOver i (done ++ now.toList) ++ x.inbox <+: s.arrivedOver i
  /-- Nothing that arrives over an open connection is lost. -/
  kept : ∀ i x, s.channel.connections[i]? = some x → x.closed = false →
    requestsOver i (done ++ now.toList) ++ x.inbox = s.arrivedOver i
  unseen : ∀ i, s.channel.connections.length ≤ i → s.arrivedOver i = []

/-- Nothing has been handled of a connection that is new. -/
theorem requestsOver_eq_nil {handlings : List Handling} {n : Nat}
    (h : ∀ a ∈ handlings, a.connection < n) (hi : n ≤ i) : requestsOver i handlings = [] := by
  rw [requestsOver, List.filter_eq_nil_iff.2, List.map_nil]
  intro a ha
  have := h a ha
  simp only [decide_eq_true_eq]
  omega

/-- What becomes of a connection in a step that handles nothing: its requests stay, or are lost if it is
closed. -/
def Connection.Leads (x x' : Connection) : Prop :=
  x'.inbox <+: x.inbox ∧ (x'.closed = false → x.closed = false ∧ x'.inbox = x.inbox)

theorem Connection.Leads.refl (x : Connection) : x.Leads x :=
  ⟨List.prefix_rfl, fun h => ⟨h, rfl⟩⟩

/-- A step that handles nothing. -/
theorem InOrder.keep (h : InOrder s done now) (hmarks : s'.marks = s.marks)
    (harrived : s'.arrived = s.arrived) (hhandling : ∀ i, s'.channel.handling? i = s.channel.handling? i)
    (hlength : s.channel.connections.length ≤ s'.channel.connections.length)
    (hruns : ∀ i, s'.channel.runs i = true →
      s.channel.runs i = true ∨ s.channel.connections.length ≤ i + 1)
    (hleads : ∀ i x', s'.channel.connections[i]? = some x' →
      (∃ x, s.channel.connections[i]? = some x ∧ x.Leads x') ∨
        s.channel.connections.length ≤ i ∧ x'.inbox = []) : InOrder s' done now := by
  have hover : ∀ i, s'.arrivedOver i = s.arrivedOver i := fun i => by
    rw [Reception.arrivedOver, harrived, Reception.arrivedOver]
  refine ⟨hmarks.trans h.marks, fun i request => hhandling i ▸ h.handling i request, h.sorted,
    fun a ha => Nat.lt_of_lt_of_le (h.known a ha) hlength, fun a ha i hi => ?_, h.judged,
    fun i x' hx' => ?_, fun i x' hx' hopen => ?_,
    fun i hi => (hover i).trans (h.unseen i (Nat.le_trans hlength hi))⟩
  · rcases hruns i hi with hi | hi
    · exact h.passed a ha i hi
    · have := h.known a ha
      omega
  · rw [hover]
    rcases hleads i x' hx' with ⟨x, hx, hprefix, -⟩ | ⟨hi, hnil⟩
    · exact ((List.prefix_append_right_inj _).2 hprefix).trans (h.arrived i x hx)
    · rw [requestsOver_eq_nil h.known hi, hnil]
      exact List.nil_prefix
  · rw [hover]
    rcases hleads i x' hx' with ⟨x, hx, -, hsame⟩ | ⟨hi, hnil⟩
    · rw [(hsame hopen).2]
      exact h.kept i x hx (hsame hopen).1
    · rw [requestsOver_eq_nil h.known hi, hnil, h.unseen i hi]
      rfl

/-- A step of one connection that handles nothing. -/
theorem InOrder.modify {f : Connection → Connection} (h : InOrder s done now)
    (hhandling : ∀ x, (f x).handling = x.handling)
    (hrunning : ∀ x, (f x).isRunning = true → x.isRunning = true)
    (hleads : ∀ x : Connection, x.Leads (f x)) :
    InOrder { s with channel := s.channel.modify i f } done now := by
  refine h.keep rfl rfl (handling?_modify fun x _ => hhandling x) (by simp)
    (fun j hj => Or.inl (runs_modify hrunning hj)) fun j x' hx' => Or.inl ?_
  rw [getElem?_modify] at hx'
  split at hx'
  · obtain ⟨x, hx, rfl⟩ := Option.map_eq_some_iff.1 hx'
    exact ⟨x, hx, hleads x⟩
  · exact ⟨x', hx', .refl x'⟩

theorem InOrder.connect (h : InOrder s done now) (hostId : String) :
    InOrder { s with channel := s.channel.replace hostId, connecting := true } done now := by
  refine h.keep rfl rfl (handling?_replace s.channel hostId) (by simp)
    (fun i hi => Or.inl (runs_replace hi)) fun i x' hx' => ?_
  rw [getElem?_replace] at hx'
  split at hx'
  · obtain rfl := Option.some_inj.1 hx'
    exact Or.inr ⟨by omega, rfl⟩
  · obtain ⟨x, hx, rfl⟩ := Option.map_eq_some_iff.1 hx'
    exact Or.inl ⟨x, hx, List.prefix_rfl, fun hopen => ⟨(Bool.or_eq_false_iff.1 hopen).1, rfl⟩⟩

/-- The read loop that is started is that of the newest connection, of which nothing has been handled. -/
theorem InOrder.start (h : InOrder s done now) (hpaced : Paced s) (hconnecting : s.connecting = true)
    (hdrained : s.channel.isDrained = true) :
    InOrder { s with channel := s.channel.start, connecting := false } done now := by
  rw [start_eq hdrained (hpaced.current_eq hconnecting)]
  refine h.keep rfl rfl (handling?_modify fun x _ => rfl) (by simp)
    (fun i hi => ?_) fun i x' hx' => Or.inl ?_
  · by_cases hnew : s.channel.connections.length - 1 = i
    · exact Or.inr (by omega)
    · refine Or.inl ?_
      have hi : (s.channel.modify _ _).runs i = true := hi
      rw [runs, getElem?_modify, if_neg hnew] at hi
      exact hi
  · have hx' : (s.channel.modify _ _).connections[i]? = some x' := hx'
    rw [getElem?_modify] at hx'
    split at hx'
    · obtain ⟨x, hx, rfl⟩ := Option.map_eq_some_iff.1 hx'
      exact ⟨x, hx, List.prefix_rfl, fun hopen => ⟨hopen, rfl⟩⟩
    · exact ⟨x', hx', .refl x'⟩

theorem arrivedOver_append (s : Reception) (channel : Channel) (i j : Nat) (request : Request) :
    Reception.arrivedOver { s with channel := channel, arrived := s.arrived ++ [(i, request)] } j =
      s.arrivedOver j ++ if i = j then [request] else [] := by
  rw [Reception.arrivedOver, List.filterMap_append]
  by_cases hij : i = j <;> simp [hij, Reception.arrivedOver]

theorem requestsOver_append (i : Nat) (handlings : List Handling) (a : Handling) (inbox : List Request) :
    requestsOver i (handlings ++ [a]) ++ inbox =
      requestsOver i handlings ++ if a.connection = i then a.request :: inbox else inbox := by
  rw [requestsOver, List.filter_append, List.map_append, List.append_assoc]
  by_cases ha : a.connection = i <;> simp [ha, requestsOver]

/-- What waits after a request has arrived over an open connection. -/
theorem inbox_arrive {y : Connection} (hopen : c.isOpen i = true)
    (hy : (c.arrive i request).connections[j]? = some y) : ∃ x, c.connections[j]? = some x ∧
      y.closed = x.closed ∧ y.inbox = x.inbox ++ if i = j then [request] else [] := by
  rw [arrive, getElem?_modify] at hy
  split at hy
  · rename_i hij
    subst hij
    obtain ⟨x, hx, rfl⟩ := Option.map_eq_some_iff.1 hy
    have hclosed : x.closed = false := by simpa [isOpen, hx] using hopen
    exact ⟨x, hx, by simp [hclosed], by simp [hclosed]⟩
  · exact ⟨y, hy, rfl, by simp [*]⟩

theorem InOrder.arrive (h : InOrder s done now) (hopen : s.channel.isOpen i = true) (request : Request) :
    InOrder { s with
      channel := s.channel.arrive i request
      arrived := s.arrived ++ [(i, request)] } done now := by
  have hhandling := handling?_modify (c := s.channel) (i := i)
    (f := fun x => if x.closed then x else { x with inbox := x.inbox ++ [request] })
    fun x _ => by split <;> rfl
  have hlt : i < s.channel.connections.length := by
    by_contra hge
    simp [isOpen, List.getElem?_eq_none (Nat.le_of_not_lt hge)] at hopen
  constructor
  · exact h.marks
  · exact fun j r => by
      rw [← h.handling]
      exact (hhandling j) ▸ Iff.rfl
  · exact h.sorted
  · simpa [Channel.arrive] using h.known
  · refine fun a ha j hj => h.passed a ha j (runs_modify (fun x hx => ?_) hj)
    split at hx <;> exact hx
  · exact h.judged
  · intro j y hy
    obtain ⟨x, hx, -, hinbox⟩ := inbox_arrive hopen hy
    rw [arrivedOver_append, hinbox, ← List.append_assoc]
    by_cases hij : i = j
    · -- nothing is lost of an open connection
      have hclosed : x.closed = false := by simpa [isOpen, hij, hx] using hopen
      exact h.kept j x hx hclosed ▸ List.prefix_rfl
    · rw [if_neg hij, List.append_nil, List.append_nil]
      exact h.arrived j x hx
  · intro j y hy hyopen
    obtain ⟨x, hx, hclosed, hinbox⟩ := inbox_arrive hopen hy
    rw [arrivedOver_append, hinbox, ← List.append_assoc, h.kept j x hx (hclosed ▸ hyopen)]
  · intro j hj
    have hj : s.channel.connections.length ≤ j := by simpa [Channel.arrive] using hj
    rw [arrivedOver_append, h.unseen j hj, if_neg (by omega)]
    rfl

/-- A read loop that takes up a request runs while no request is being handled. -/
theorem InOrder.now_eq_none (h : InOrder s done now) (hpaced : Paced s)
    (hnext : s.channel.next? i = some request) : now = none := by
  obtain ⟨x, hx, hrunning, hnone, -⟩ := next?_eq_some hnext
  cases hnow : now with
  | none => rfl
  | some a =>
      have hbusy := (h.handling a.connection a.request).2 ⟨a, hnow, rfl, rfl⟩
      have hi : s.channel.runs i = true := by simp [runs, hx, hrunning]
      rw [hpaced.sole (hpaced.runs_of_handling hbusy) hi, handling?, hx] at hbusy
      simp [hnone] at hbusy

/-- What is handled after a read loop has taken up a request. -/
theorem handling?_takeUp (h : c.next? i = some request) (j : Nat) :
    (c.takeUp i).handling? j = if i = j then some request else c.handling? j := by
  obtain ⟨x, hx, -, -, rest, hinbox⟩ := next?_eq_some h
  rw [handling?, takeUp, getElem?_modify]
  split
  · rename_i hij
    simp [← hij, hx, hinbox]
  · rfl

/-- What has arrived and waits, before a read loop takes up a request. -/
theorem inbox_takeUp (h : c.next? i = some request) {y : Connection}
    (hy : (c.takeUp i).connections[j]? = some y) : ∃ x, c.connections[j]? = some x ∧
      y.closed = x.closed ∧ x.inbox = if i = j then request :: y.inbox else y.inbox := by
  obtain ⟨x, hx, -, -, rest, hinbox⟩ := next?_eq_some h
  rw [takeUp, getElem?_modify] at hy
  split at hy
  · rename_i hij
    subst hij
    rw [hx] at hy
    obtain rfl := Option.some_inj.1 hy
    exact ⟨x, hx, rfl, by simp [hinbox]⟩
  · exact ⟨y, hy, rfl, (if_neg ‹_›).symm⟩

theorem InOrder.read (h : InOrder s done none) (hpaced : Paced s)
    (hnext : s.channel.next? i = some request) :
    InOrder { s with
      channel := s.channel.takeUp i
      marks := s.marks ++ [.began ⟨i, request, request.verdict s.channel.listening⟩] } done
      (some ⟨i, request, request.verdict s.channel.listening⟩) := by
  obtain ⟨x, hx, hrunning, -⟩ := next?_eq_some hnext
  have hi : s.channel.runs i = true := by simp [runs, hx, hrunning]
  obtain ⟨hmarks, hhandling, hsorted, hknown, hpassed, hjudged, harrived, hkept, hunseen⟩ := h
  simp only [Option.toList_none, List.append_nil] at hsorted hknown hpassed hjudged harrived hkept
  constructor
  · simp [hmarks]
  · intro j r
    have hnone := hhandling j r
    rw [handling?_takeUp hnext]
    by_cases hij : i = j <;> simp_all
  · exact List.pairwise_append.2 ⟨hsorted, by simp, fun a ha b hb => by
      simpa [List.mem_singleton.1 hb] using hpassed a ha i hi⟩
  · rw [takeUp, length_modify]
    exact List.forall_mem_append.2
      ⟨hknown, List.forall_mem_singleton.2 (List.getElem?_eq_some_iff.1 hx).1⟩
  · exact List.forall_mem_append.2 ⟨fun a ha j hj => hpassed a ha j (runs_takeUp hj),
      List.forall_mem_singleton.2 fun j hj => Nat.le_of_eq (hpaced.sole hi (runs_takeUp hj))⟩
  · exact List.forall_mem_append.2 ⟨hjudged, List.forall_mem_singleton.2 ⟨_, rfl⟩⟩
  · intro j y hy
    obtain ⟨z, hz, -, hinbox⟩ := inbox_takeUp hnext hy
    have hprefix := harrived j z hz
    rw [hinbox] at hprefix
    exact (requestsOver_append ..).symm ▸ hprefix
  · intro j y hy hopen
    obtain ⟨z, hz, hclosed, hinbox⟩ := inbox_takeUp hnext hy
    have hall := hkept j z hz (hclosed ▸ hopen)
    rw [hinbox] at hall
    exact (requestsOver_append ..).trans hall
  · exact fun j hj => hunseen j (by simpa [takeUp] using hj)

theorem handling?_finish (c : Channel) (i j : Nat) :
    (c.finish i).handling? j = if i = j then none else c.handling? j := by
  rw [handling?, finish, getElem?_modify]
  split
  · cases c.connections[j]? <;> rfl
  · rfl

theorem inbox_finish {y : Connection} (hy : (c.finish i).connections[j]? = some y) :
    ∃ x, c.connections[j]? = some x ∧ y.inbox = x.inbox ∧ y.closed = x.closed := by
  rw [finish, getElem?_modify] at hy
  split at hy
  · obtain ⟨x, hx, rfl⟩ := Option.map_eq_some_iff.1 hy
    exact ⟨x, hx, rfl, rfl⟩
  · exact ⟨y, hy, rfl, rfl⟩

theorem InOrder.finish {a : Handling} (h : InOrder s done (some a)) :
    InOrder { s with
      channel := s.channel.finish a.connection
      marks := s.marks ++ [.ended a.connection] } (done ++ [a]) none := by
  have hall : (done ++ [a]) ++ (none : Option Handling).toList = done ++ (some a).toList := List.append_nil _
  constructor
  · simp [h.marks, Handling.marks]
  · intro j r
    have hother := h.handling j r
    rw [handling?_finish]
    by_cases hij : a.connection = j <;> simp_all
  · rw [hall]
    exact h.sorted
  · simpa [Channel.finish] using h.known
  · rw [hall]
    exact fun b hb j hj => h.passed b hb j (runs_finish hj)
  · rw [hall]
    exact h.judged
  · intro j y hy
    obtain ⟨x, hx, hinbox, -⟩ := inbox_finish hy
    rw [hall, hinbox]
    exact h.arrived j x hx
  · intro j y hy hopen
    obtain ⟨x, hx, hinbox, hclosed⟩ := inbox_finish hy
    rw [hall, hinbox]
    exact h.kept j x hx (hclosed ▸ hopen)
  · exact fun j hj => h.unseen j (by simpa [Channel.finish] using hj)

/-- A read loop that settles runs no more. -/
theorem Connection.isRunning_of_settle (x : Connection)
    (h : (if x.closed && x.handling.isNone then { x with ended := true, inbox := [] } else x).isRunning = true) :
    x.isRunning = true := by
  split at h
  · simp [isRunning] at h
  · exact h

/-! ### Whole runs -/

/-- What holds at all times. -/
structure Serial (s : Reception) : Prop where
  paced : Paced s
  inOrder : ∃ done now, InOrder s done now

theorem Serial.start : Serial {} where
  paced := ⟨rfl, nofun, nofun, nofun, nofun⟩
  inOrder := ⟨[], none, by constructor <;> simp [handling?, Reception.arrivedOver]⟩

theorem Serial.take (h : Serial s) (move : Move) : Serial (s.take move) := by
  obtain ⟨hpaced, done, now, hin⟩ := h
  cases move with
  | connect hostId =>
      simp only [Reception.take]
      split
      · exact ⟨hpaced, done, now, hin⟩
      · rename_i hidle
        exact ⟨hpaced.connect hostId (Bool.not_eq_true _ ▸ hidle), done, now, hin.connect hostId⟩
  | start =>
      simp only [Reception.take]
      split
      · rename_i hguard
        obtain ⟨hconnecting, hdrained⟩ := Bool.and_eq_true_iff.1 hguard
        exact ⟨hpaced.start hconnecting hdrained, done, now, hin.start hpaced hconnecting hdrained⟩
      · exact ⟨hpaced, done, now, hin⟩
  | arrive i request =>
      simp only [Reception.take]
      split
      · rename_i hopen
        refine ⟨hpaced.modify (fun x hx => ?_) fun x hx hhandling => ?_, done, now,
          hin.arrive hopen request⟩
        · split at hx <;> exact hx
        · have hbusy := hpaced.busy x (List.mem_of_getElem? hx)
          split at hhandling <;> split <;> exact hbusy hhandling
      · exact ⟨hpaced, done, now, hin⟩
  | read i =>
      simp only [Reception.take]
      split
      · rename_i request hnext
        obtain rfl := hin.now_eq_none hpaced hnext
        obtain ⟨x, hx, hrunning, -⟩ := next?_eq_some hnext
        refine ⟨hpaced.modify (fun _ h => h) fun y hy _ => ?_, done, _, hin.read hpaced hnext⟩
        obtain rfl := Option.some_inj.1 (hx.symm.trans hy)
        exact hrunning
      · exact ⟨hpaced, done, now, hin⟩
  | finish i =>
      simp only [Reception.take]
      split
      · rename_i request hhandling
        obtain ⟨a, rfl, rfl, -⟩ := (hin.handling i request).1 hhandling
        exact ⟨hpaced.modify (fun _ hx => hx) nofun, done ++ [a], none, hin.finish⟩
      · exact ⟨hpaced, done, now, hin⟩
  | hangUp i =>
      exact ⟨hpaced.modify (fun _ h => h) fun x hx => hpaced.busy x (List.mem_of_getElem? hx), done, now,
        hin.modify (fun _ => rfl) (fun _ h => h) fun x => ⟨List.prefix_rfl, nofun⟩⟩
  | settle i =>
      refine ⟨hpaced.modify Connection.isRunning_of_settle fun x hx hhandling => ?_, done, now,
        hin.modify (fun x => ?_) Connection.isRunning_of_settle fun x => ?_⟩
      · split at hhandling
        · simp_all
        · rw [if_neg ‹_›]
          exact hpaced.busy x (List.mem_of_getElem? hx) hhandling
      · split <;> rfl
      · split
        · exact ⟨List.nil_prefix, by simp_all⟩
        · exact .refl x
  | listen listening =>
      exact ⟨⟨hpaced.current, hpaced.latest, hpaced.waits, hpaced.replaced, hpaced.busy⟩, done, now,
        hin.keep rfl rfl (fun _ => rfl) (Nat.le_refl _) (fun _ hi => Or.inl hi)
          fun i x hx => Or.inl ⟨x, hx, .refl x⟩⟩

theorem Serial.run (h : Serial s) (moves : List Move) : Serial (s.run moves) :=
  List.foldlRecOn moves Reception.take h fun _ h move _ => h.take move

/-- Whatever arrives, goes on, is closed and connects in whatever order: requests are handled one after
the other, each until its end before the next begins, and `now` is the only one that any read loop handles.
What is handled of a connection is what arrived over it first, in that order and each once; and no request
of a connection is handled after one of a newer connection. -/
theorem messages_one_at_a_time (moves : List Move) :
    let s := ({} : Reception).run moves
    ∃ (done : List Handling) (now : Option Handling),
      s.marks = done.flatMap Handling.marks ++ now.toList.map .began ∧
      (∀ i request, s.channel.handling? i = some request ↔
        ∃ h, now = some h ∧ h.connection = i ∧ h.request = request) ∧
      (∀ i, requestsOver i (done ++ now.toList) <+: s.arrivedOver i) ∧
      ((done ++ now.toList).Pairwise fun a b => a.connection ≤ b.connection) ∧
      ∀ h ∈ done ++ now.toList, ∃ listening, h.verdict = h.request.verdict listening := by
  intro s
  obtain ⟨done, now, h⟩ := (Serial.start.run moves).inOrder
  refine ⟨done, now, h.marks, h.handling, fun i => ?_, h.sorted, h.judged⟩
  cases hx : s.channel.connections[i]? with
  | some x => exact (List.prefix_append ..).trans (h.arrived i x hx)
  | none =>
      rw [requestsOver_eq_nil h.known (List.getElem?_eq_none_iff.1 hx)]
      exact List.nil_prefix

/-- A host answers while a request of the one before is being handled: the new read loop starts, and
handles what has arrived by then, only when that request has been handled. -/
example :
    let request : Request := ⟨messageMethod, none, false⟩
    let moves : List Move := [.connect "a", .start, .arrive 0 request, .read 0, .connect "b",
      .arrive 1 request, .start, .read 1, .finish 0, .settle 0, .start, .read 1]
    (({} : Reception).run moves).marks =
      [.began ⟨0, request, .malformed⟩, .ended 0, .began ⟨1, request, .malformed⟩] := by
  decide +kernel

end CompilationBridge.Channel
