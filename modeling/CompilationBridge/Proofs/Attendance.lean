import CompilationBridge.Proofs.Admission
import CompilationBridge.Proofs.Broadcasts

/-! Editors that come and go. An editor that connects is registered with the gateway and gets a session; both
are given up when it exits and again when its connection is removed, and an exit under a requested full shutdown
gives up neither. The two stores never part: at all times the registered editors are the ones with a session,
which are the editors that have connected and not left since, whatever is asked of the bridge meanwhile. -/

namespace CompilationBridge

/-- A bridge with the clock and with what its idle timer has done. -/
structure Attendance where
  server : Server
  now : Nat := 0
  /-- When a session was last begun, refused or ended. -/
  lastCall : Nat := 0
  /-- Whether the idle timer has expired since. -/
  fired : Bool := false
  /-- When the bridge has asked for its shutdown. -/
  asked : List Nat := []
  /-- When an exit has made the idle timer expire at once. -/
  exits : List Nat := []

namespace Attendance

inductive Move where
  | connect (id : Handle) (connection : Option String)
  /-- A connection is removed. -/
  | disconnect (id : Handle)
  | request (id : Handle) (request : Editor.Request)
  /-- All editors are told of an event. -/
  | emit (event : Event)
  | announce (notice : Graph.Notice)
  /-- The parts beside the bridge change in any way. -/
  | elsewhere (server : Server)
  | elapse (span : Nat)
  /-- The callback of the idle timer runs, if the timer is due. -/
  | expire

/-- No editor has connected yet. -/
def start (settings : Server.Settings) : Attendance :=
  { server := .new settings }

def bridge (s : Attendance) : Bridge :=
  s.server.bridge

def timer (s : Attendance) : Option Nat :=
  s.bridge.timer

def sessions (s : Attendance) : Sessions :=
  s.bridge.sessions

/-- A session is begun, refused or ended. -/
def call (s : Attendance) (bridge : Bridge) : Attendance :=
  { s with server := { s.server with bridge := bridge }, lastCall := s.now, fired := false }

@[simp] theorem bridge_call (s : Attendance) (bridge : Bridge) : (s.call bridge).bridge = bridge :=
  rfl

/-- Whether a request ends the session of its editor. -/
def endsSession (b : Bridge) (id : Handle) (request : Editor.Request) : Bool :=
  match request with
  | .exit => !b.fullShutdown && b.sessions.table.contains id
  | _ => false

/-- Whether a request stops the whole bridge. -/
def stopsBridge (b : Bridge) (request : Editor.Request) : Bool :=
  match request with
  | .exit => b.fullShutdown
  | _ => false

def take (s : Attendance) : Move → Attendance
  | .connect id connection => s.call (s.bridge.openSession id connection s.now).1
  | .disconnect id => s.call (s.bridge.endSession id s.now)
  | .request id request =>
    let server := (s.server.handle s.now id request).1
    if endsSession s.bridge id request then s.call server.bridge
    else if stopsBridge s.bridge request then { s with server := server, exits := s.exits ++ [s.now] }
    else { s with server := server }
  | .emit event => { s with server := (s.server.emit event).1 }
  | .announce notice => { s with server := (s.server.announce notice).1 }
  | .elsewhere server => { s with server := { server with bridge := s.bridge } }
  | .elapse span => { s with now := s.now + span }
  | .expire =>
    if s.timer.any (· ≤ s.now) then
      { s with
        server := { s.server with bridge := s.bridge.expire }
        fired := true
        asked := s.asked ++ [s.now] }
    else s

def run (s : Attendance) (moves : List Move) : Attendance :=
  moves.foldl take s

/-- A full shutdown has been requested. -/
def Stopping (moves : List Move) : Prop :=
  ∃ id, .request id .fullShutdown ∈ moves

/-- An editor leaves when its connection is removed, and when it exits unless a full shutdown has been
requested. -/
def Move.Leaves (id : Handle) (before : List Move) (move : Move) : Prop :=
  move = .disconnect id ∨ move = .request id .exit ∧ ¬ Stopping before

/-- An editor has connected and not left since. -/
def Present (id : Handle) (moves : List Move) : Prop :=
  ∃ before connection after, moves = before ++ .connect id (some connection) :: after ∧
    ∀ between move rest, after = between ++ move :: rest →
      ¬ move.Leaves id (before ++ .connect id (some connection) :: between)

variable {s : Attendance} {b b' : Bridge} {id k : Handle} {move : Move} {moves : List Move}

/-! ### The stores -/

/-- Each session is kept under its own id, and the registered editors are those with a session. -/
structure Paired (b : Bridge) : Prop where
  own : ∀ id session, b.sessions.table.get? id = some session → session.id = id
  registered : ∀ id, id ∈ b.editors.ids ↔ id ∈ b.sessions.ids

/-- What requests keep, as long as nobody comes or goes. -/
structure Rests (b b' : Bridge) : Prop where
  paired : Paired b'
  ids : ∀ id, id ∈ b'.sessions.ids ↔ id ∈ b.sessions.ids
  timer : b'.timer = b.timer
  idleTimeout : b'.idleTimeout = b.idleTimeout
  fullShutdown : b'.fullShutdown = b.fullShutdown

theorem Rests.refl (h : Paired b) : Rests b b :=
  ⟨h, fun _ => Iff.rfl, rfl, rfl, rfl⟩

theorem mem_ids_iff (t : Sessions) (id : Handle) : id ∈ t.ids ↔ ∃ session, t.table.get? id = some session :=
  Table.mem_keys t.table id

theorem count_eq_zero (t : Sessions) : t.count = 0 ↔ ∀ id, id ∉ t.ids := by
  rw [Sessions.count, Table.size, List.length_eq_zero_iff, ← List.eq_nil_iff_forall_not_mem, Sessions.ids,
    Table.keys, List.map_eq_nil_iff]

theorem mem_ids_set (t : Sessions) (session : Session) (id : Handle) :
    id ∈ (t.set session).ids ↔ id = session.id ∨ id ∈ t.ids := by
  simp only [mem_ids_iff, Sessions.set, Table.get?_put]
  split <;> simp [*]

theorem mem_ids_delete (t : Sessions) (k id : Handle) : id ∈ (t.delete k).ids ↔ id ≠ k ∧ id ∈ t.ids := by
  simp only [mem_ids_iff, Sessions.delete, Table.get?_erase]
  split <;> simp [*]

/-- Editors that are told something stay registered. -/
theorem Rests.told (h : Paired b) {editors : Editors} (hclients : editors.clients = b.editors.clients) :
    Rests b { b with editors := editors } where
  paired := ⟨h.own, fun id => (Editors.mem_ids_congr hclients).trans (h.registered id)⟩
  ids _ := Iff.rfl
  timer := rfl
  idleTimeout := rfl
  fullShutdown := rfl

theorem clients_emit (e : Editors) (event : Event) : (e.emit event).editors.clients = e.clients :=
  Editors.Exchange.clients_broadcast (Editors.toward_sendEvent event) e

theorem clients_logMessage (e : Editors) (level : Int) (message : String) :
    (e.logMessage level message).editors.clients = e.clients :=
  Editors.Exchange.clients_broadcast (Editors.toward_logMessage level message) e

theorem clients_showMessage (e : Editors) (id : Option Handle) (level : Int) (message : String) :
    (e.showMessage id level message).editors.clients = e.clients := by
  unfold Editors.showMessage
  split
  · rfl
  · split <;> rfl

theorem rests_emit {s : Server} (h : Paired s.bridge) (event : Event) :
    Rests s.bridge (s.emit event).1.bridge :=
  .told h (clients_emit s.bridge.editors event)

theorem rests_announce {s : Server} (h : Paired s.bridge) (notice : Graph.Notice) :
    Rests s.bridge (s.announce notice).1.bridge := by
  cases notice with
  | showError text => exact .told h (clients_logMessage s.bridge.editors 1 text)
  | emit event => exact .told h (clients_emit s.bridge.editors event)
  | _ => exact .refl h

/-- A session is stored again with the root that its editor has opened, under the id that it carries, which is
the one that it was found under. -/
theorem rests_accept (h : Paired b) {session : Session} (hsession : b.sessions.get id = .ok session)
    (root : String) : Rests b (b.accept session root).1 := by
  have hget : b.sessions.table.get? id = some session := by
    unfold Sessions.get at hsession
    split at hsession
    · cases hsession
      assumption
    · cases hsession
  have hid : session.id = id := h.own id session hget
  have hids (k : Handle) :
      k ∈ (b.sessions.set { session with workspaceRoot := root }).ids ↔ k ∈ b.sessions.ids := by
    rw [mem_ids_set]
    refine ⟨fun hk => hk.elim (fun heq => ?_) fun hk => hk, Or.inr⟩
    exact (mem_ids_iff b.sessions k).2 ⟨session, heq ▸ hid ▸ hget⟩
  have hrests : Rests b { b with sessions := b.sessions.set { session with workspaceRoot := root } } := by
    refine ⟨⟨fun k session' hk => ?_, fun k => (h.registered k).trans (hids k).symm⟩, hids, rfl, rfl, rfl⟩
    have hput := (Table.get?_put ..).symm.trans hk
    split at hput
    · rename_i heq
      obtain rfl := Option.some_inj.1 hput
      exact heq.symm
    · exact h.own k session' hput
  unfold Bridge.accept
  simp only
  split
  · exact ⟨⟨hrests.paired.own, hrests.paired.registered⟩, hids, rfl, rfl, rfl⟩
  · split
    · exact ⟨⟨hrests.paired.own, hrests.paired.registered⟩, hids, rfl, rfl, rfl⟩
    · exact hrests

/-- A request other than an exit and the request of a full shutdown. -/
theorem rests_handle {s : Server} (h : Paired s.bridge) {request : Editor.Request} (hexit : request ≠ .exit)
    (hfull : request ≠ .fullShutdown) (now : Nat) (id : Handle) :
    Rests s.bridge (s.handle now id request).1.bridge := by
  cases request with
  | exit => exact absurd rfl hexit
  | fullShutdown => exact absurd rfl hfull
  | openWorkspace params =>
      simp only [Server.handle, Server.openWorkspace]
      split
      · exact .refl h
      · rename_i session hsession
        split
        · exact .refl h
        · exact .refl h
        · rename_i root _
          have haccept := rests_accept h hsession root
          split <;> exact haccept
  | ready =>
      simp only [Server.handle, Server.ready]
      split
      · exact .refl h
      · exact .told h (clients_showMessage ..)
  | filesChanged params =>
      have hbridge := Server.bridge_filesChanged s now (params.changes.getD [])
      exact hbridge.symm ▸ .refl h
  | restore params =>
      simp only [Server.handle]
      split <;> exact .refl h
  | unknown method => exact ⟨⟨h.own, h.registered⟩, fun _ => Iff.rfl, rfl, rfl, rfl⟩
  | _ => exact .refl h

/-! ### What one move does -/

/-- Moves at which nobody comes or goes, the clock stands and the idle timer is left alone. -/
def Move.Quiet : Move → Prop
  | .emit _ | .announce _ | .elsewhere _ => True
  | .request _ r => r ≠ .exit ∧ r ≠ .fullShutdown
  | _ => False

/-- What a move comes to. -/
inductive Turn (s : Attendance) : Move → Attendance → Prop where
  | connect (id : Handle) (connection : Option String) :
      Turn s (.connect id connection) (s.call (s.bridge.openSession id connection s.now).1)
  | leave {move : Move} (id : Handle) (hmove : move = .disconnect id ∨
      move = .request id .exit ∧ s.bridge.fullShutdown = false ∧ id ∈ s.sessions.ids) :
      Turn s move (s.call (s.bridge.endSession id s.now))
  /-- An editor exits that has left before. -/
  | absent (id : Handle) (hfull : s.bridge.fullShutdown = false) (hid : id ∉ s.sessions.ids) :
      Turn s (.request id .exit) s
  | stop (id : Handle) (hfull : s.bridge.fullShutdown = true) :
      Turn s (.request id .exit) { s with
        server := { s.server with bridge := { s.bridge with timer := some s.now } }
        exits := s.exits ++ [s.now] }
  | full (id : Handle) :
      Turn s (.request id .fullShutdown) { s with
        server := { s.server with bridge := s.bridge.requestFullShutdown } }
  | elapse (span : Nat) : Turn s (.elapse span) { s with now := s.now + span }
  | expire {due : Nat} (htimer : s.timer = some due) (hdue : due ≤ s.now) :
      Turn s .expire { s with
        server := { s.server with bridge := s.bridge.expire }
        fired := true
        asked := s.asked ++ [s.now] }
  | early (htimer : ∀ due, s.timer = some due → s.now < due) : Turn s .expire s
  | rest {move : Move} {server : Server} (hmove : move.Quiet) (hrests : Rests s.bridge server.bridge) :
      Turn s move { s with server := server }

theorem exit_eq (h : Paired b) (hfull : b.fullShutdown = false) (id : Handle) (now : Nat) :
    (b.exit id now).1 = if b.sessions.table.contains id then b.endSession id now else b := by
  rw [Bridge.exit, hfull, if_neg Bool.false_ne_true, Sessions.get, Table.contains_eq_isSome]
  cases hget : b.sessions.table.get? id with
  | none => rfl
  | some session => simp [h.own id session hget]

theorem contains_iff (t : Sessions) (id : Handle) : t.table.contains id = true ↔ id ∈ t.ids := by
  rw [Table.contains_iff, mem_ids_iff]

theorem take_exit (s : Attendance) (id : Handle) : s.take (.request id .exit) =
    let t := { s with server := { s.server with bridge := (s.bridge.exit id s.now).1 } }
    if !s.bridge.fullShutdown && s.bridge.sessions.table.contains id then s.call t.bridge
    else if s.bridge.fullShutdown then { t with exits := s.exits ++ [s.now] }
    else t :=
  rfl

theorem turn_exit (h : Paired s.bridge) (id : Handle) :
    Turn s (.request id .exit) (s.take (.request id .exit)) := by
  rw [take_exit]
  cases hfull : s.bridge.fullShutdown with
  | true =>
      have hexit : (s.bridge.exit id s.now).1 = { s.bridge with timer := some s.now } := by
        rw [Bridge.exit, if_pos hfull]
      rw [hexit]
      exact .stop id hfull
  | false =>
      rw [exit_eq h hfull]
      cases hid : s.bridge.sessions.table.contains id with
      | true => exact .leave id (Or.inr ⟨rfl, hfull, (contains_iff ..).1 hid⟩)
      | false =>
          refine .absent id hfull fun hmem => Bool.false_ne_true ?_
          exact hid.symm.trans ((contains_iff ..).2 hmem)

theorem take_turn (h : Paired s.bridge) (move : Move) : Turn s move (s.take move) := by
  cases move with
  | connect id connection => exact .connect id connection
  | disconnect id => exact .leave id (Or.inl rfl)
  | request id request =>
      by_cases hexit : request = .exit
      · exact hexit ▸ turn_exit h id
      · by_cases hfull : request = .fullShutdown
        · exact hfull ▸ .full id
        · have htake : s.take (.request id request) =
              { s with server := (s.server.handle s.now id request).1 } := by
            cases request with
            | exit => exact absurd rfl hexit
            | _ => rfl
          exact htake ▸ .rest ⟨hexit, hfull⟩ (rests_handle h hexit hfull s.now id)
  | emit event => exact .rest trivial (rests_emit h event)
  | announce notice => exact .rest trivial (rests_announce h notice)
  | elsewhere server => exact .rest trivial (.refl h)
  | elapse span => exact .elapse span
  | expire =>
      rw [take]
      split
      · rename_i hdue
        obtain ⟨due, htimer, hdue⟩ := (Option.any_eq_true ..).1 hdue
        exact .expire htimer (of_decide_eq_true hdue)
      · rename_i hdue
        refine .early fun due htimer => ?_
        rw [htimer] at hdue
        simpa using hdue

/-! ### Who is there -/

theorem Paired.refreshTimer (h : Paired b) (now : Nat) : Paired (b.refreshTimer now) :=
  ⟨h.own, h.registered⟩

theorem Paired.openSession (h : Paired b) (id : Handle) (connection : Option String) (now : Nat) :
    Paired (b.openSession id connection now).1 := by
  cases connection with
  | none => exact h.refreshTimer now
  | some name =>
      refine ⟨fun k session hk => ?_, fun k => ?_⟩
      · have hput := (Table.get?_put ..).symm.trans hk
        split at hput
        · rename_i heq
          obtain rfl := Option.some_inj.1 hput
          exact heq.symm
        · exact h.own k session hput
      · calc k ∈ ({ b.editors with clients := b.editors.clients.put id name } : Editors).ids
            ↔ k = id ∨ k ∈ b.editors.ids := Editors.mem_ids_register b.editors id name k
          _ ↔ k = id ∨ k ∈ b.sessions.ids := or_congr_right (h.registered k)
          _ ↔ k ∈ (b.sessions.set { id := id }).ids := (mem_ids_set b.sessions { id := id } k).symm

theorem mem_ids_openSession (b : Bridge) (id : Handle) (connection : Option String) (now : Nat) (k : Handle) :
    k ∈ (b.openSession id connection now).1.sessions.ids ↔ k = id ∧ connection.isSome ∨ k ∈ b.sessions.ids := by
  cases connection with
  | none =>
      show k ∈ b.sessions.ids ↔ _
      simp
  | some name =>
      refine (mem_ids_set b.sessions { id := id } k).trans ?_
      simp

theorem Paired.endSession (h : Paired b) (id : Handle) (now : Nat) : Paired (b.endSession id now) := by
  refine ⟨fun k session hk => ?_, fun k => ?_⟩
  · have herase := (Table.get?_erase ..).symm.trans hk
    split at herase
    · cases herase
    · exact h.own k session herase
  · calc k ∈ (b.editors.deregister id).ids
        ↔ k ≠ id ∧ k ∈ b.editors.ids := Editors.mem_ids_deregister b.editors id k
      _ ↔ k ≠ id ∧ k ∈ b.sessions.ids := and_congr_right' (h.registered k)
      _ ↔ k ∈ (b.sessions.delete id).ids := (mem_ids_delete b.sessions id k).symm

theorem Turn.paired {t : Attendance} (h : Paired s.bridge) (ht : Turn s move t) : Paired t.bridge := by
  cases ht with
  | connect id connection => exact h.openSession id connection s.now
  | leave id _ => exact h.endSession id s.now
  | absent | elapse | early => exact h
  | stop | full | expire => exact ⟨h.own, h.registered⟩
  | rest _ hrests => exact hrests.paired

theorem Turn.fullShutdown {t : Attendance} (ht : Turn s move t) : t.bridge.fullShutdown = true ↔
    s.bridge.fullShutdown = true ∨ ∃ id, move = .request id .fullShutdown := by
  cases ht with
  | connect id connection =>
      have hkeeps : (s.bridge.openSession id connection s.now).1.fullShutdown = s.bridge.fullShutdown := by
        cases connection <;> rfl
      rw [bridge_call, hkeeps]
      simp
  | leave id hmove =>
      have hkeeps : (s.bridge.endSession id s.now).fullShutdown = s.bridge.fullShutdown := rfl
      rw [bridge_call, hkeeps]
      rcases hmove with rfl | ⟨rfl, -⟩ <;> simp
  | full id => simp [bridge, Bridge.requestFullShutdown]
  | rest hmove hrests =>
      have hother : ¬ ∃ id, move = .request id .fullShutdown := by
        rintro ⟨id, rfl⟩
        exact hmove.2 rfl
      rw [or_iff_left hother]
      exact hrests.fullShutdown ▸ Iff.rfl
  | _ => simp [bridge, Bridge.expire]

/-- Who is there after a move. -/
theorem Turn.mem_ids {t : Attendance} (ht : Turn s move t) (k : Handle) : k ∈ t.sessions.ids ↔
    (∃ connection, move = .connect k (some connection)) ∨ k ∈ s.sessions.ids ∧
      ¬ (move = .disconnect k ∨ move = .request k .exit ∧ s.bridge.fullShutdown = false) := by
  cases ht with
  | connect id connection =>
      have hopen := mem_ids_openSession s.bridge id connection s.now k
      have hmove : (∃ name, Move.connect id connection = .connect k (some name)) ↔
          k = id ∧ connection.isSome := by
        rw [Option.isSome_iff_exists]
        grind
      rw [hmove]
      simpa [sessions] using hopen
  | leave id hmove =>
      have hdelete : k ∈ (s.bridge.endSession id s.now).sessions.ids ↔ k ≠ id ∧ k ∈ s.sessions.ids :=
        mem_ids_delete s.bridge.sessions id k
      rw [sessions, bridge_call, hdelete]
      rcases hmove with rfl | ⟨rfl, hfull, -⟩ <;> grind
  | absent id hfull hid => grind
  | stop id hfull => grind [sessions, bridge]
  | full | elapse | expire => simp [sessions, bridge, Bridge.requestFullShutdown, Bridge.expire]
  | early => simp
  | rest hmove hrests =>
      refine (hrests.ids k).trans ?_
      cases move <;> simp_all [Move.Quiet, sessions]

/-! ### Histories -/

theorem run_concat (s : Attendance) (moves : List Move) (move : Move) :
    s.run (moves ++ [move]) = (s.run moves).take move := by
  rw [run, List.foldl_append]
  rfl

theorem stopping_concat (moves : List Move) (move : Move) :
    Stopping (moves ++ [move]) ↔ Stopping moves ∨ ∃ id, move = .request id .fullShutdown := by
  simp only [Stopping, List.mem_append, List.mem_singleton, exists_or, eq_comm]

theorem present_concat (id : Handle) (moves : List Move) (move : Move) : Present id (moves ++ [move]) ↔
    (∃ connection, move = .connect id (some connection)) ∨ Present id moves ∧ ¬ move.Leaves id moves := by
  constructor
  · rintro ⟨before, connection, after, hmoves, hstays⟩
    rcases concat_eq_append_cons.1 hmoves with ⟨rfl, rfl, rfl⟩ | ⟨rest, rfl, rfl⟩
    · exact Or.inl ⟨connection, rfl⟩
    · refine Or.inr ⟨⟨before, connection, rest, rfl, fun between m more hrest => ?_⟩, hstays rest move [] rfl⟩
      exact hstays between m (more ++ [move]) (by rw [hrest, List.append_assoc, List.cons_append])
  · rintro (⟨connection, rfl⟩ | ⟨⟨before, connection, after, rfl, hstays⟩, hmove⟩)
    · exact ⟨moves, connection, [], rfl, fun between m rest hnil => by simp at hnil⟩
    · refine ⟨before, connection, after ++ [move], by simp, fun between m rest hafter => ?_⟩
      rcases concat_eq_append_cons.1 hafter with ⟨rfl, rfl, -⟩ | ⟨rest', -, hafter⟩
      · exact hmove
      · exact hstays between m rest' hafter

/-- What the bridge says of a history. -/
structure Accounts (moves : List Move) (s : Attendance) : Prop where
  paired : Paired s.bridge
  stopping : s.bridge.fullShutdown = true ↔ Stopping moves
  present : ∀ id, id ∈ s.sessions.ids ↔ Present id moves

theorem Accounts.take (h : Accounts moves s) (move : Move) : Accounts (moves ++ [move]) (s.take move) := by
  have hturn := take_turn h.paired move
  refine ⟨hturn.paired h.paired, ?_, fun id => ?_⟩
  · rw [hturn.fullShutdown, h.stopping, stopping_concat]
  · have hleaves : move.Leaves id moves ↔
        move = .disconnect id ∨ move = .request id .exit ∧ s.bridge.fullShutdown = false := by
      rw [Move.Leaves, ← h.stopping, Bool.not_eq_true]
    rw [hturn.mem_ids, present_concat, h.present, hleaves]

theorem accounts_start (settings : Server.Settings) : Accounts [] (start settings) where
  paired := by
    refine ⟨nofun, fun id => ?_⟩
    simp [Editors.mem_ids, mem_ids_iff, start, bridge, Server.new, Bridge.new]
  stopping := by simp [Stopping, start, bridge, Server.new, Bridge.new]
  present id := by simp [Present, mem_ids_iff, start, sessions, bridge, Server.new, Bridge.new]

theorem accounts_run (settings : Server.Settings) (moves : List Move) :
    Accounts moves ((start settings).run moves) := by
  induction moves using List.reverseRecOn with
  | nil => exact accounts_start settings
  | append_singleton moves move ih =>
      rw [run_concat]
      exact ih.take move

/-- **Sessions and registered editors agree.** At all times the registered editors are those with a session,
and these are the editors that have connected and since then neither had their connection removed nor exited
before a full shutdown was requested. No request brings a session back. -/
theorem registered_iff_session (settings : Server.Settings) (moves : List Move) :
    let s := (start settings).run moves
    (∀ id, id ∈ s.bridge.editors.ids ↔ id ∈ s.sessions.ids) ∧ (∀ id, id ∈ s.sessions.ids ↔ Present id moves) ∧
      ∀ id request k, k ∈ (s.take (.request id request)).sessions.ids → k ∈ s.sessions.ids := by
  intro s
  have haccounts := accounts_run settings moves
  refine ⟨haccounts.paired.registered, haccounts.present, fun id request k hk => ?_⟩
  rcases ((take_turn haccounts.paired (.request id request)).mem_ids k).1 hk with ⟨connection, hmove⟩ | ⟨hk, -⟩
  · cases hmove
  · exact hk

end Attendance

end CompilationBridge
