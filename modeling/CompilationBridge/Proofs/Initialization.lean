import CompilationBridge.Proofs.Graph.Tracking
import CompilationBridge.Proofs.Supervisor.Callbacks
import CompilationBridge.Server

/-! Every project reaches the host. Two callers tell the host about projects: the call that comes with a
connection lists the projects that are tracked, and the announcement of a new project looks whether the
host is connected. The state becomes connected before the projects are listed, and a project is tracked
before it is announced, so each project is met by one of the two: whatever the order in which the callers
take their tasks, no project is left out. -/

namespace CompilationBridge

open CompilationBridge.Graph (ProjectRef)

namespace ProjectSystem

namespace Task

def isConnect : Task → Bool
  | .connect _ => true
  | _ => false

/-- Whether a task leads to telling the host about a project, as long as the host is connected and the
project is tracked. -/
def leadsTo (project : ProjectRef) : Task → Bool
  | .consider p | .prepare p | .post p _ => p = project
  | .enumerate => true
  | _ => false

/-- Whether a task reaches the host, if it does not fail. -/
def reaches (fault : Option Fault) (task : Task) : Bool :=
  task.isConnect && fault.isNone

end Task

/-- What a try to tell the host about a project shows: the message, or the record that it could not be
sent. -/
def Effect.IsTry (project : ProjectRef) : Effect → Prop
  | .sent message => ∃ configuration hostId,
      message = { Message.loadProject project.contextId project.dir configuration with hostId := hostId }
  | .log record => ∃ fault,
      record = .warn "initializing project" [("project", .str project.path)] (some fault)
  | _ => False

variable {x : Shared} {task t : Task} {rest : List Task} {e : Surroundings} {project : ProjectRef}

/-- No task tracks a project. -/
theorem refs_perform (x : Shared) (task : Task) (rest : List Task) (e : Surroundings) :
    (perform x task rest e).1.store.refs = x.store.refs := by
  cases task with
  | connect port =>
      simp only [perform, connectStep]
      split <;> rfl
  | post project configuration =>
      simp only [perform, postStep]
      split <;> rfl
  | mark project =>
      simp only [perform, markStep]
      split
      · rename_i store hstore
        rw [Graph.Reconciler.markInitialized_eq hstore]
        refine Graph.Store.refs_congr ?_
        rw [Graph.Store.paths_modifyProject]
      · rfl
  | tell id configuration =>
      simp only [perform]
      split <;> rfl
  | _ => rfl

/-- Only a connection that fails drops the tasks that remain, and no task makes another one connect. -/
theorem perform_rest (x : Shared) (rest : List Task) (e : Surroundings) (h : task.isConnect = false) :
    ∃ more, (perform x task rest e).2.1 = more ++ rest ∧ ∀ t ∈ more, t.isConnect = false := by
  cases task with
  | connect port => cases h
  | enumerate => exact ⟨_, rfl, by simp [Task.isConnect]⟩
  | consider project =>
      simp only [perform]
      split
      · exact ⟨[.prepare project], rfl, by simp [Task.isConnect]⟩
      · exact ⟨[], rfl, nofun⟩
  | prepare project => exact ⟨[.post project _], rfl, by simp [Task.isConnect]⟩
  | post project configuration =>
      simp only [perform, postStep]
      split
      · exact ⟨[.mark project], rfl, by simp [Task.isConnect]⟩
      · exact ⟨[], rfl, nofun⟩
  | mark project =>
      simp only [perform, markStep]
      split <;> exact ⟨[], rfl, nofun⟩
  | broadcast configuration => exact ⟨_, rfl, by simp [Task.isConnect]⟩
  | tell id configuration =>
      simp only [perform]
      split <;> exact ⟨[], rfl, nofun⟩
  | _ => exact ⟨[], rfl, nofun⟩

theorem not_isConnect_perform (x : Shared) (task : Task) (e : Surroundings)
    (h : ∀ t ∈ rest, t.isConnect = false) : ∀ t ∈ (perform x task rest e).2.1, t.isConnect = false := by
  cases hconnect : task.isConnect with
  | false =>
      obtain ⟨more, hmore, hnone⟩ := perform_rest x rest e hconnect
      intro t ht
      rw [hmore] at ht
      exact (List.mem_append.1 ht).elim (hnone t) (h t)
  | true =>
      cases task with
      | connect port =>
          simp only [perform, connectStep]
          split
          · exact nofun
          · exact h
      | _ => cases hconnect

theorem send_eq {c : Channel} {m sent : Message} (h : c.send m = .ok sent) (hm : m.hostId = "") :
    ∃ hostId, sent = { m with hostId := hostId } := by
  simp only [Channel.send] at h
  split at h
  · cases h
  · split at h
    · cases h
    · refine ⟨c.hostId, ?_⟩
      rw [← Except.ok.inj h, Channel.stamp, if_pos hm]

/-- A task that leads to telling the host about a project does so, or leaves a task that does. -/
theorem perform_leadsTo (x : Shared) (rest : List Task) (e : Surroundings) (hphase : e.phase = .connected)
    (hproject : project ∈ x.store.refs) (h : task.leadsTo project = true) :
    (∃ t ∈ (perform x task rest e).2.1, t.leadsTo project = true) ∨
      ∃ effect ∈ (perform x task rest e).2.2, effect.IsTry project := by
  cases task with
  | enumerate =>
      refine Or.inl ⟨.prepare project, ?_, by simp [Task.leadsTo]⟩
      exact List.mem_append_left _ (List.mem_map_of_mem hproject)
  | consider p =>
      obtain rfl : p = project := by simpa [Task.leadsTo] using h
      refine Or.inl ⟨.prepare p, ?_, by simp [Task.leadsTo]⟩
      simp [perform, hphase]
  | prepare p =>
      obtain rfl : p = project := by simpa [Task.leadsTo] using h
      exact Or.inl ⟨.post p x.system.configuration, List.mem_cons_self, by simp [Task.leadsTo]⟩
  | post p configuration =>
      obtain rfl : p = project := by simpa [Task.leadsTo] using h
      simp only [perform, postStep]
      split
      · rename_i sent hsent
        obtain ⟨hostId, rfl⟩ := send_eq hsent rfl
        exact Or.inr ⟨_, List.mem_cons_self, configuration, hostId, rfl⟩
      · exact Or.inr ⟨_, List.mem_cons_self, _, rfl⟩
  | _ => cases h

end ProjectSystem

/-! ### The scene -/

open ProjectSystem (Task)

/-- A message that is being applied: the announcements to come, and the tasks of the one under way. -/
structure Application where
  notices : List Graph.Notice
  tasks : List Task := []

def Application.isOver (a : Application) : Bool :=
  a.notices.isEmpty && a.tasks.isEmpty

/-- The server with the supervisor of its host, and the callers that have something left to do. -/
structure Hosting where
  server : Server
  supervisor : Supervisor
  /-- What is left of the call that tells about a connection. -/
  connecting : List Task := []
  applying : List Application := []
  /-- What is left of the calls that change the build configuration. -/
  configuring : List (List Task) := []
  /-- Whether the call for the latest connection has begun. -/
  called : Bool := false
  /-- Whether that call has reached the host. -/
  reached : Bool := false
  /-- What tasks have shown since the latest connection. -/
  shown : List ProjectSystem.Effect := []

namespace Hosting

inductive Move where
  /-- A call to start or stop, the exit of a host, or a step of the supervisor. -/
  | host (move : Supervisor.Move)
  /-- A message comes in over the old or the new connection. -/
  | receive (message : Message)
  /-- The application of a message goes on. -/
  | apply (place : Nat) (fault : Option Fault)
  /-- The call that tells about a connection goes on. -/
  | connect (fault : Option Fault)
  | configure (configuration : String)
  /-- A call that changes the configuration goes on. -/
  | reconfigure (place : Nat)
  /-- Something happens on the connections. -/
  | disturb (channel : Channel)

/-- Whether a step of the supervisor has to wait for the call that tells about a connection. -/
def isHeld (s : Hosting) : Supervisor.Move → Bool
  | .work i _ => !s.connecting.isEmpty && (s.supervisor.workers[i]?).any (!·.point.toReturn.isEmpty)
  | _ => false

/-- What follows from what happens to a launch: a connection is new, and its call begins. -/
def hear (s : Hosting) : List Supervisor.Incident → Hosting
  | [.connected _ _] => { s with called := false, reached := false, shown := [] }
  | [.called port] => { s with connecting := ProjectSystem.connected port, called := true, reached := false }
  | _ => s

/-- A caller does its first task. -/
def perform (s : Hosting) (task : Task) (rest : List Task) (fault : Option Fault) : Hosting × List Task :=
  let e : ProjectSystem.Surroundings := { phase := s.supervisor.phase, fault := fault }
  let (shared, rest, effects) := ProjectSystem.perform s.server.shared task rest e
  ({ s with server := s.server.withShared shared, shown := s.shown ++ effects }, rest)

/-- The application of a message does a task, or announces the next notice. -/
def applyStep (s : Hosting) (place : Nat) (a : Application) (fault : Option Fault) : Hosting :=
  match a.tasks, a.notices with
  | task :: rest, notices =>
    let (s, rest) := s.perform task rest fault
    { s with applying := s.applying.set place ⟨notices, rest⟩ }
  | [], notice :: notices =>
    let (server, _, tasks) := s.server.announce notice
    { s with server := server, applying := s.applying.set place ⟨notices, tasks⟩ }
  | [], [] => s

/-- The call that tells about a connection does a task. -/
def connectTask (s : Hosting) (task : Task) (rest : List Task) (fault : Option Fault) : Hosting :=
  let (s, rest) := s.perform task rest fault
  { s with connecting := rest, reached := s.reached || task.reaches fault }

/-- The call that tells about a connection goes on, if it need not wait. -/
def connectStep (s : Hosting) (fault : Option Fault) : Hosting :=
  match s.connecting with
  | [] => s
  | task :: rest =>
    if ProjectSystem.isReady s.server.shared task then s.connectTask task rest fault else s

def reconfigureStep (s : Hosting) (place : Nat) : Hosting :=
  match s.configuring[place]? with
  | some (task :: rest) =>
    let (s, rest) := s.perform task rest none
    { s with configuring := s.configuring.set place rest }
  | _ => s

def take (s : Hosting) : Move → Hosting
  | .host move =>
    if s.isHeld move then s
    else { s with supervisor := (s.supervisor.take move).1 }.hear (s.supervisor.tells move)
  | .receive message =>
    let (server, notices, _) := s.server.apply message
    { s with server := server, applying := s.applying ++ [{ notices := notices }] }
  | .apply place fault =>
    match s.applying[place]? with
    | some a => s.applyStep place a fault
    | none => s
  | .connect fault => s.connectStep fault
  | .configure configuration =>
    { s with configuring := s.configuring ++ [ProjectSystem.reconfigured configuration] }
  | .reconfigure place => s.reconfigureStep place
  | .disturb channel => { s with server := { s.server with channel := channel } }

def run (s : Hosting) (moves : List Move) : Hosting :=
  moves.foldl take s

/-- A server before its host is started. What loading the workspace tracks is tracked here. -/
def of (server : Server) (settings : Settings.Host) : Hosting :=
  { server := server, supervisor := .new settings }

/-- The projects that are tracked. -/
def projects (s : Hosting) : List ProjectRef :=
  s.server.reconciler.store.refs

variable {s s' : Hosting} {project : ProjectRef} {fault : Option Fault} {task : Task} {rest : List Task}

/-! ### What is due -/

/-- The host has been told about a project since the latest connection, or some caller will do so: the
call for that connection has not begun or not reached the host, or it or an announcement has a task that
leads there. -/
def IsMet (s : Hosting) (project : ProjectRef) : Prop :=
  (∃ effect ∈ s.shown, effect.IsTry project) ∨ s.called = false ∨ s.reached = false ∨
    (∃ t ∈ s.connecting, t.leadsTo project = true) ∨
    ∃ a ∈ s.applying, .added project ∈ a.notices ∨ ∃ t ∈ a.tasks, t.leadsTo project = true

/-- What stays when the step of a caller is none that connects: a project that was met stays so if the
tasks that lead to it do. -/
theorem IsMet.keep (h : s.IsMet project) (hshown : ∀ effect ∈ s.shown, effect ∈ s'.shown)
    (hcalled : s'.called = s.called) (hreached : s.reached = false → s'.IsMet project)
    (hconnecting : (∃ t ∈ s.connecting, t.leadsTo project = true) → s'.IsMet project)
    (happlying : ∀ a ∈ s.applying, (.added project ∈ a.notices ∨ ∃ t ∈ a.tasks, t.leadsTo project = true) →
      s'.IsMet project) : s'.IsMet project := by
  rcases h with ⟨effect, heffect, htry⟩ | h | h | h | ⟨a, ha, h⟩
  · exact Or.inl ⟨effect, hshown effect heffect, htry⟩
  · exact Or.inr (Or.inl (hcalled.trans h))
  · exact hreached h
  · exact hconnecting h
  · exact happlying a ha h

theorem IsMet.of_shown {effect : ProjectSystem.Effect} (heffect : effect ∈ s.shown)
    (htry : effect.IsTry project) : s.IsMet project :=
  Or.inl ⟨effect, heffect, htry⟩

theorem IsMet.of_reached (h : s.reached = false) : s.IsMet project :=
  Or.inr (Or.inr (Or.inl h))

theorem IsMet.of_connecting (h : task ∈ s.connecting) (hleads : task.leadsTo project = true) :
    s.IsMet project :=
  Or.inr (Or.inr (Or.inr (Or.inl ⟨task, h, hleads⟩)))

theorem IsMet.of_applying {a : Application} (h : a ∈ s.applying)
    (hleads : .added project ∈ a.notices ∨ ∃ t ∈ a.tasks, t.leadsTo project = true) : s.IsMet project :=
  Or.inr (Or.inr (Or.inr (Or.inr ⟨a, h, hleads⟩)))

/-- What holds at all times. -/
structure Complete (s : Hosting) : Prop where
  met : s.supervisor.phase = .connected → ∀ project ∈ s.projects, s.IsMet project
  /-- A call that has not reached the host begins with doing so, or has failed. -/
  begun : s.called = true → s.reached = false →
    s.connecting = [] ∨ ∃ port, s.connecting = ProjectSystem.connected port
  listing : s.reached = true → ∀ t ∈ s.connecting, t.isConnect = false
  /-- A call connects with its first task or not at all. -/
  tail : ∀ t ∈ s.connecting.tail, t.isConnect = false
  adding : ∀ a ∈ s.applying, ∀ t ∈ a.tasks, t.isConnect = false

/-! ### The task of a caller -/

@[simp]
theorem reached_perform (s : Hosting) (task : Task) (rest : List Task) (fault : Option Fault) :
    (s.perform task rest fault).1.reached = s.reached :=
  rfl

theorem projects_perform (s : Hosting) (task : Task) (rest : List Task) (fault : Option Fault) :
    (s.perform task rest fault).1.projects = s.projects :=
  ProjectSystem.refs_perform ..

theorem shown_perform (s : Hosting) (task : Task) (rest : List Task) (fault : Option Fault)
    {effect : ProjectSystem.Effect} (h : effect ∈ s.shown) : effect ∈ (s.perform task rest fault).1.shown :=
  List.mem_append_left _ h

/-- No task is lost, and none that connects comes to those that remain. -/
theorem perform_rest (s : Hosting) (rest : List Task) (fault : Option Fault) (h : task.isConnect = false) :
    ∃ more, (s.perform task rest fault).2 = more ++ rest ∧ ∀ t ∈ more, t.isConnect = false :=
  ProjectSystem.perform_rest _ _ _ h

theorem not_isConnect_perform (s : Hosting) (task : Task) (rest : List Task) (fault : Option Fault)
    (h : ∀ t ∈ rest, t.isConnect = false) : ∀ t ∈ (s.perform task rest fault).2, t.isConnect = false :=
  ProjectSystem.not_isConnect_perform _ task _ h

/-- A caller on the way to a project is so after its task, or has told the host. -/
theorem perform_leadsTo (s : Hosting) (fault : Option Fault) (hphase : s.supervisor.phase = .connected)
    (hproject : project ∈ s.projects) (hconnect : task.isConnect = false)
    (h : ∃ t ∈ task :: rest, t.leadsTo project = true) :
    (∃ t ∈ (s.perform task rest fault).2, t.leadsTo project = true) ∨
      ∃ effect ∈ (s.perform task rest fault).1.shown, effect.IsTry project := by
  obtain ⟨t, ht, hleads⟩ := h
  rcases List.mem_cons.1 ht with rfl | ht
  · rcases ProjectSystem.perform_leadsTo s.server.shared rest
        { phase := s.supervisor.phase, fault := fault } hphase hproject hleads with
      hrest | ⟨effect, heffect, htry⟩
    · exact Or.inl hrest
    · exact Or.inr ⟨effect, List.mem_append_right _ heffect, htry⟩
  · obtain ⟨more, hmore, -⟩ := s.perform_rest rest fault hconnect
    exact Or.inl ⟨t, hmore ▸ List.mem_append_right _ ht, hleads⟩

/-! ### One move -/

theorem Complete.host (h : Complete s) (move : Supervisor.Move) : Complete (s.take (.host move)) := by
  show Complete (if s.isHeld move then s else
    hear { s with supervisor := (s.supervisor.take move).1 } (s.supervisor.tells move))
  split
  · exact h
  · unfold hear
    split
    · exact ⟨fun _ project _ => Or.inr (Or.inl rfl), nofun, nofun, h.tail, h.adding⟩
    · refine ⟨fun _ project _ => .of_reached rfl, fun _ _ => Or.inr ⟨_, rfl⟩, nofun, ?_, h.adding⟩
      simp [ProjectSystem.connected, Task.isConnect]
    · rename_i hconnected hcalled
      refine ⟨fun hphase project hproject => ?_, h.begun, h.listing, h.tail, h.adding⟩
      -- without news of a connection the state was connected before
      by_cases hbefore : s.supervisor.phase = .connected
      · exact h.met hbefore project hproject
      · obtain ⟨k, port, htells⟩ := (Supervisor.connects_iff hbefore move).1 hphase
        exact absurd htells (hconnected k port)

theorem mem_addedRefs {notices : List Graph.Notice}
    (h : project ∈ Graph.Reconciler.addedRefs notices) : .added project ∈ notices := by
  obtain ⟨notice, hnotice, heq⟩ := List.mem_filterMap.1 h
  split at heq
  · rwa [← Option.some_inj.1 heq]
  · cases heq

theorem Complete.receive (h : Complete s) (message : Message) : Complete (s.take (.receive message)) := by
  refine ⟨fun hphase project hproject => ?_, h.begun, h.listing, h.tail, fun a ha => ?_⟩
  · have hgains := Graph.Reconciler.gains_apply s.server.reconciler message
    have hproject : project ∈ (s.server.reconciler.apply message).1.store.refs := hproject
    rw [hgains.refs] at hproject
    rcases List.mem_append.1 hproject with hold | hnew
    · exact (h.met hphase project hold).keep (fun _ heffect => heffect) rfl
        (fun hreached => .of_reached hreached) (fun ⟨t, ht, hleads⟩ => .of_connecting ht hleads)
        fun a ha hleads => .of_applying (List.mem_append_left _ ha) hleads
    · exact .of_applying (List.mem_append_right _ (List.mem_singleton.2 rfl)) (Or.inl (mem_addedRefs hnew))
  · rcases List.mem_append.1 ha with ha | ha
    · exact h.adding a ha
    · rw [List.mem_singleton.1 ha]
      nofun

/-- Announcing changes nothing in the graph. -/
theorem reconciler_announce (server : Server) (notice : Graph.Notice) :
    (server.announce notice).1.reconciler = server.reconciler := by
  cases notice <;> rfl

/-- The application at a place goes on, and whatever of it led to a project leads there still. -/
theorem IsMet.set {place : Nat} {a a' : Application} (h : s.IsMet project)
    (ha : s.applying[place]? = some a) (hshown : ∀ effect ∈ s.shown, effect ∈ s'.shown)
    (hcalled : s'.called = s.called) (hreached : s'.reached = s.reached)
    (hconnecting : s'.connecting = s.connecting) (happlying : s'.applying = s.applying.set place a')
    (hleads : (.added project ∈ a.notices ∨ ∃ t ∈ a.tasks, t.leadsTo project = true) →
      (.added project ∈ a'.notices ∨ ∃ t ∈ a'.tasks, t.leadsTo project = true) ∨
        ∃ effect ∈ s'.shown, effect.IsTry project) : s'.IsMet project := by
  have hlt := (List.getElem?_eq_some_iff.1 ha).1
  refine h.keep hshown hcalled (fun h => .of_reached (hreached.trans h))
    (fun ⟨t, ht, h⟩ => .of_connecting (hconnecting ▸ ht) h) fun b hb hbleads => ?_
  obtain ⟨j, hj⟩ := List.getElem?_of_mem hb
  by_cases hij : place = j
  · obtain rfl : a = b := Option.some_inj.1 (ha.symm.trans (hij ▸ hj))
    rcases hleads hbleads with hleads | ⟨effect, heffect, htry⟩
    · exact .of_applying (happlying ▸ List.mem_set hlt a') hleads
    · exact .of_shown heffect htry
  · refine .of_applying (a := b) (happlying ▸ List.mem_of_getElem? (i := j) ?_) hbleads
    rw [List.getElem?_set_ne hij, hj]

theorem Complete.applyStep {place : Nat} {a : Application} (h : Complete s)
    (ha : s.applying[place]? = some a) (fault : Option Fault) : Complete (s.applyStep place a fault) := by
  have hplain := h.adding a (List.mem_of_getElem? ha)
  obtain ⟨notices, tasks⟩ := a
  cases tasks with
  | cons task rest =>
      refine ⟨fun hphase project hproject => ?_, h.begun, h.listing, h.tail, fun b hb => ?_⟩
      · have hphase : s.supervisor.phase = .connected := hphase
        have hproject : project ∈ s.projects := s.projects_perform task rest fault ▸ hproject
        refine (h.met hphase project hproject).set ha (fun _ => s.shown_perform task rest fault) rfl rfl rfl
          rfl ?_
        rintro (hnotice | hleads)
        · exact Or.inl (Or.inl hnotice)
        · have hconnect := hplain task List.mem_cons_self
          exact (s.perform_leadsTo fault hphase hproject hconnect hleads).imp_left Or.inr
      · rcases List.mem_or_eq_of_mem_set hb with hb | rfl
        · exact h.adding b hb
        · exact s.not_isConnect_perform task rest fault fun t ht => hplain t (List.mem_cons_of_mem _ ht)
  | nil =>
      cases notices with
      | nil => exact h
      | cons notice notices =>
          refine ⟨fun hphase project hproject => ?_, h.begun, h.listing, h.tail, fun b hb => ?_⟩
          · have hproject : project ∈ s.projects := by
              have hproject : project ∈ (s.server.announce notice).1.reconciler.store.refs := hproject
              rwa [reconciler_announce] at hproject
            refine (h.met hphase project hproject).set ha (fun _ heffect => heffect) rfl rfl rfl rfl ?_
            rintro (hnotice | ⟨t, ht, -⟩)
            · rcases List.mem_cons.1 hnotice with rfl | hnotice
              · refine Or.inl (Or.inr ⟨.consider project, ?_, by simp [Task.leadsTo]⟩)
                simp [ProjectSystem.added]
              · exact Or.inl (Or.inl hnotice)
            · cases ht
          · rcases List.mem_or_eq_of_mem_set hb with hb | rfl
            · exact h.adding b hb
            · cases notice <;> simp [ProjectSystem.added, Task.isConnect]

/-- A call that has begun and not reached the host connects now, and lists the projects after that. -/
theorem Complete.first (h : Complete s) (hconnecting : s.connecting = task :: rest)
    (hcalled : s.called = true) (hreached : s.reached = false) :
    ∃ port, task = .connect port ∧ rest = [.drain, .enumerate] := by
  rcases h.begun hcalled hreached with hnil | ⟨port, hport⟩
  · cases hconnecting.symm.trans hnil
  · obtain ⟨rfl, rfl⟩ := List.cons.inj (hconnecting.symm.trans hport)
    exact ⟨port, rfl, rfl⟩

/-- A call that connects now has not reached the host. -/
theorem Complete.not_reached (h : Complete s) (hconnecting : s.connecting = task :: rest)
    (hconnect : task.isConnect = true) : s.reached = false := by
  by_contra hreached
  have hplain := h.listing (Bool.eq_true_of_not_eq_false hreached) task (hconnecting ▸ List.mem_cons_self)
  exact Bool.false_ne_true (hplain.symm.trans hconnect)

theorem Complete.isMet_connectTask (h : Complete s) (hconnecting : s.connecting = task :: rest)
    (fault : Option Fault) (hphase : s.supervisor.phase = .connected) (hproject : project ∈ s.projects) :
    (s.connectTask task rest fault).IsMet project := by
  cases hconnect : task.isConnect with
  | false =>
      refine (h.met hphase project hproject).keep (fun _ => s.shown_perform task rest fault) rfl
        (fun hreached => .of_reached ?_) (fun hleads => ?_) fun a ha hleads => .of_applying ha hleads
      · simp [connectTask, Task.reaches, hconnect, hreached]
      · rw [hconnecting] at hleads
        rcases s.perform_leadsTo fault hphase hproject hconnect hleads with
          ⟨t, ht, htleads⟩ | ⟨effect, heffect, htry⟩
        · exact .of_connecting ht htleads
        · exact .of_shown heffect htry
  | true =>
      cases hcalled : s.called with
      | false => exact Or.inr (Or.inl hcalled)
      | true =>
          have hreached := h.not_reached hconnecting hconnect
          obtain ⟨port, rfl, rfl⟩ := h.first hconnecting hcalled hreached
          cases fault with
          | some cause => exact .of_reached (by simp [connectTask, Task.reaches, hreached])
          | none => exact .of_connecting (List.mem_cons_of_mem _ List.mem_cons_self) rfl

theorem Complete.connectStep (h : Complete s) (fault : Option Fault) : Complete (s.connectStep fault) := by
  cases hconnecting : s.connecting with
  | nil =>
      unfold Hosting.connectStep
      rwa [hconnecting]
  | cons task rest =>
      simp only [Hosting.connectStep, hconnecting]
      split
      case isFalse => exact h
      have hplain := s.not_isConnect_perform task rest fault (by simpa [hconnecting] using h.tail)
      refine ⟨fun hphase project hproject => ?_, fun hcalled hreached => ?_, fun _ => hplain,
        fun t ht => hplain t (List.mem_of_mem_tail ht), h.adding⟩
      · exact h.isMet_connectTask hconnecting fault hphase (s.projects_perform task rest fault ▸ hproject)
      · obtain ⟨hreached, hfails⟩ := Bool.or_eq_false_iff.1 hreached
        obtain ⟨port, rfl, rfl⟩ := h.first hconnecting hcalled hreached
        cases fault with
        | some cause => exact Or.inl rfl
        | none => cases hfails

theorem Complete.reconfigureStep (h : Complete s) (place : Nat) : Complete (s.reconfigureStep place) := by
  unfold Hosting.reconfigureStep
  split
  case h_2 => exact h
  rename_i task rest htasks
  refine ⟨fun hphase project hproject => ?_, h.begun, h.listing, h.tail, h.adding⟩
  have hproject : project ∈ s.projects := s.projects_perform task rest none ▸ hproject
  exact (h.met hphase project hproject).keep (fun _ => s.shown_perform task rest none) rfl
    (fun hreached => .of_reached hreached) (fun ⟨t, ht, hleads⟩ => .of_connecting ht hleads)
    fun a ha hleads => .of_applying ha hleads

/-- What one move preserves. -/
theorem Complete.take (h : Complete s) (move : Move) : Complete (s.take move) := by
  cases move with
  | host move => exact h.host move
  | receive message => exact h.receive message
  | apply place fault =>
      cases ha : s.applying[place]? with
      | none => simpa only [Hosting.take, ha] using h
      | some a => simpa only [Hosting.take, ha] using h.applyStep ha fault
  | connect fault => exact h.connectStep fault
  | reconfigure place => exact h.reconfigureStep place
  | configure configuration => exact ⟨h.met, h.begun, h.listing, h.tail, h.adding⟩
  | disturb channel => exact ⟨h.met, h.begun, h.listing, h.tail, h.adding⟩

/-! ### Whole runs -/

theorem Complete.of (server : Server) (settings : Settings.Host) : Complete (of server settings) :=
  ⟨fun _ _ _ => Or.inr (Or.inl rfl), nofun, nofun, nofun, nofun⟩

theorem Complete.run (h : Complete s) (moves : List Move) : Complete (s.run moves) :=
  List.foldlRecOn moves Hosting.take h fun _ h move _ => h.take move

/-- A call that is not over is made by a worker of the supervisor. -/
structure Attended (s : Hosting) : Prop where
  custody : s.supervisor.Custody
  calling : s.connecting ≠ [] → ∃ (i : Nat) (w : Supervisor.Worker),
    s.supervisor.workers[i]? = some w ∧ w.point.toReturn ≠ []

theorem Attended.connecting_eq_nil (h : Attended s) {move : Supervisor.Move}
    (hnews : (∃ k port, s.supervisor.tells move = [.connected k port]) ∨
      ∃ port, s.supervisor.tells move = [.called port]) : s.connecting = [] := by
  by_contra hconnecting
  obtain ⟨i, w, hw, hcalling⟩ := h.calling hconnecting
  exact hcalling (h.custody.not_calling hnews (List.mem_of_getElem? hw))

theorem Attended.host (h : Attended s) (move : Supervisor.Move) : Attended (s.take (.host move)) := by
  show Attended (if s.isHeld move then s else
    hear { s with supervisor := (s.supervisor.take move).1 } (s.supervisor.tells move))
  have hcustody := Supervisor.custody_take s.supervisor move h.custody
  split
  · exact h
  · rename_i hfree
    unfold hear
    split
    · rename_i k port htells
      exact ⟨hcustody, fun hconnecting => absurd (h.connecting_eq_nil (Or.inl ⟨k, port, htells⟩)) hconnecting⟩
    · rename_i port htells
      obtain ⟨i, w, hw, hcalling⟩ := Supervisor.exists_calling htells
      exact ⟨hcustody, fun _ => ⟨i, w, hw, by simp [hcalling]⟩⟩
    · refine ⟨hcustody, fun hconnecting => ?_⟩
      obtain ⟨i, w, hw, hcalling⟩ := h.calling hconnecting
      refine ⟨i, w, Supervisor.getElem?_take hw fun e hmove => hfree ?_, hcalling⟩
      have hconnecting : s.connecting ≠ [] := hconnecting
      simp [hmove, isHeld, hw, hconnecting, hcalling]

theorem Attended.take (h : Attended s) (move : Move) : Attended (s.take move) := by
  cases move with
  | host move => exact h.host move
  | receive message => exact ⟨h.custody, h.calling⟩
  | apply place fault =>
      simp only [Hosting.take, Hosting.applyStep]
      split
      · split <;> exact ⟨h.custody, h.calling⟩
      · exact h
  | connect fault =>
      simp only [Hosting.take, Hosting.connectStep]
      split
      · exact h
      · rename_i task rest hconnecting
        split
        · exact ⟨h.custody, fun _ => h.calling (by simp [hconnecting])⟩
        · exact h
  | configure configuration => exact ⟨h.custody, h.calling⟩
  | reconfigure place =>
      simp only [Hosting.take, Hosting.reconfigureStep]
      split <;> exact ⟨h.custody, h.calling⟩
  | disturb channel => exact ⟨h.custody, h.calling⟩

/-- A call is over when the state becomes connected again and when the next call begins, so no task of it
is dropped. -/
theorem connecting_eq_nil_of_news (server : Server) (settings : Settings.Host) (moves : List Move)
    (move : Supervisor.Move)
    (hnews : (∃ k port, ((of server settings).run moves).supervisor.tells move = [.connected k port]) ∨
      ∃ port, ((of server settings).run moves).supervisor.tells move = [.called port]) :
    ((of server settings).run moves).connecting = [] := by
  have h : Attended ((of server settings).run moves) :=
    List.foldlRecOn moves Hosting.take ⟨Supervisor.custody_new settings, fun h => absurd rfl h⟩
      fun _ h move _ => h.take move
  exact h.connecting_eq_nil hnews

/-- **No project is left out**: once the call for the latest connection has reached the host and is over,
and no message is being applied, every project that is tracked was tried to be told to the host since it
connected. -/
theorem projects_initialized (server : Server) (settings : Settings.Host) (moves : List Move)
    (hconnected : ((of server settings).run moves).supervisor.phase = .connected)
    (hcalled : ((of server settings).run moves).called = true)
    (hreached : ((of server settings).run moves).reached = true)
    (hover : ((of server settings).run moves).connecting = [])
    (happlied : ∀ a ∈ ((of server settings).run moves).applying, a.isOver = true) :
    ∀ project ∈ ((of server settings).run moves).projects,
      ∃ effect ∈ ((of server settings).run moves).shown, effect.IsTry project := by
  intro project hproject
  have h := (Complete.of server settings).run moves
  rcases h.met hconnected project hproject with hshown | h | h | ⟨t, ht, -⟩ | ⟨a, ha, hleads⟩
  · exact hshown
  · cases hcalled.symm.trans h
  · cases hreached.symm.trans h
  · cases hover ▸ ht
  · obtain ⟨hnotices, htasks⟩ : a.notices = [] ∧ a.tasks = [] := by
      simpa [Application.isOver] using happlied a ha
    simp [hnotices, htasks] at hleads

/-- A message names a new project after the host has accepted and before the call lists the projects: the
call and the announcement both tell the host about it. -/
theorem placeholder_initialized :
    let server : Server := {
      reconciler := Graph.Reconciler.run (.new ".cs") [.track "/app/project.json"]
      notifier := { debounce := 5 }
      projects := { loadTimeout := 9, configuration := "Debug", hostId := "h" }
      bridge := .new {} 0 }
    let reference : Message := {
      type := "References"
      contextId := 1
      payload := some "\x7b\"ProjectReferences\":[\x7b\"Path\":\"/lib/project.json\"\x7d]\x7d" }
    let s := (of server {}).run
      (Move.host (.start "h") :: List.replicate 8 (Move.host (.work 0 { now := 0, accepts := true })) ++
        [Move.connect none, Move.receive reference] ++ List.replicate 8 (Move.connect none) ++
        List.replicate 10 (Move.apply 0 none))
    s.projects = [⟨1, "/app/project.json"⟩, ⟨2, "/lib/project.json"⟩] ∧
      ∀ project ∈ s.projects, ∃ effect ∈ s.shown, effect.IsTry project := by
  intro server reference s
  exact ⟨by decide +kernel, projects_initialized server {} _ (by decide +kernel) (by decide +kernel)
    (by decide +kernel) (by decide +kernel) (by decide +kernel)⟩

end Hosting

end CompilationBridge
