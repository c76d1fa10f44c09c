import CompilationBridge.Proofs.Initialization

/-! Which configuration a project was told last. A call that changes the configuration sets it before it
lists the projects, and a project is tracked before a caller reads the configuration to initialize it with.
So a project for which an older configuration was read is on the list, and no change passes it by. But
whoever has read the older one may post it after the change has told the project, and of two changes the one
that was set first may be told last: what a project was told last is current exactly if it was so when it was
posted. -/

namespace CompilationBridge

namespace ProjectSystem

namespace Task

/-- The project that a task leads to initializing. -/
def initializes? : Task → Option Nat
  | .consider project | .prepare project | .post project _ => some project.contextId
  | _ => none

/-- The project and the configuration of the message that a task posts. -/
def posts? : Task → Option (Nat × String)
  | .post project configuration => some (project.contextId, configuration)
  | .tell id configuration => some (id, configuration)
  | _ => none

/-- The configuration that a task sets. -/
def sets? : Task → Option String
  | .configure configuration => some configuration
  | _ => none

/-- Whether a task tells projects about a configuration that was set. -/
def announces : Task → Bool
  | .broadcast _ | .tell _ _ => true
  | _ => false

theorem not_isConnect_of_announces {task : Task} (h : task.announces = true) : task.isConnect = false := by
  cases task with
  | connect port => cases h
  | _ => rfl

theorem sets?_of_announces {task : Task} (h : task.announces = true) : task.sets? = none := by
  cases task with
  | configure configuration => cases h
  | _ => rfl

end Task

variable {x : Shared} {task t : Task} {rest : List Task} {e : Surroundings}

/-- Only the task that sets the configuration changes it. -/
theorem configuration_perform (x : Shared) (task : Task) (rest : List Task) (e : Surroundings) :
    (perform x task rest e).1.system.configuration = task.sets?.getD x.system.configuration := by
  cases task with
  | connect port =>
      simp only [perform, connectStep]
      split <;> rfl
  | post project configuration =>
      simp only [perform, postStep]
      split <;> rfl
  | mark project =>
      simp only [perform, markStep]
      split <;> rfl
  | tell id configuration =>
      simp only [perform]
      split <;> rfl
  | _ => rfl

/-- What a task adds to those that remain: it sets no configuration, it leads to the project that the task
led to or to one that is listed, and a configuration to initialize with has just been read. -/
theorem mem_perform (h : t ∈ (perform x task rest e).2.1) : t ∈ rest ∨ t.sets? = none ∧
    (∀ id, t.initializes? = some id →
      task.initializes? = some id ∨ ∃ project ∈ x.store.refs, project.contextId = id) ∧
    ∀ project configuration, t = .post project configuration → configuration = x.system.configuration := by
  cases task with
  | connect port =>
      simp only [perform, connectStep] at h
      split at h
      · cases h
      · exact Or.inl h
  | enumerate =>
      refine (List.mem_append.1 h).symm.imp_right fun h => ?_
      obtain ⟨project, hproject, rfl⟩ := List.mem_map.1 h
      exact ⟨rfl, fun id hid => Or.inr ⟨project, hproject, Option.some_inj.1 hid⟩, by simp⟩
  | consider project =>
      simp only [perform] at h
      split at h
      · rcases List.mem_cons.1 h with rfl | h
        · exact Or.inr ⟨rfl, fun _ hid => Or.inl hid, by simp⟩
        · exact Or.inl h
      · exact Or.inl h
  | prepare project =>
      rcases List.mem_cons.1 h with rfl | h
      · exact Or.inr ⟨rfl, fun _ hid => Or.inl hid, fun _ _ heq => (Task.post.inj heq).2.symm⟩
      · exact Or.inl h
  | post project configuration =>
      simp only [perform, postStep] at h
      split at h
      · rcases List.mem_cons.1 h with rfl | h
        · exact Or.inr ⟨rfl, by simp [Task.initializes?], by simp⟩
        · exact Or.inl h
      · exact Or.inl h
  | mark project =>
      simp only [perform, markStep] at h
      split at h <;> exact Or.inl h
  | broadcast configuration =>
      refine (List.mem_append.1 h).symm.imp_right fun h => ?_
      obtain ⟨project, -, rfl⟩ := List.mem_map.1 h
      exact ⟨rfl, by simp [Task.initializes?], by simp⟩
  | tell id configuration =>
      simp only [perform] at h
      split at h <;> exact Or.inl h
  | _ => exact Or.inl h

end ProjectSystem

open ProjectSystem (Task)

namespace Hosting

variable {s s' : Hosting} {task t : Task} {rest : List Task} {fault : Option Fault}

/-! ### The callers -/

def configuration (s : Hosting) : String :=
  s.server.projects.configuration

def Tracks (s : Hosting) (id : Nat) : Prop :=
  ∃ project ∈ s.projects, project.contextId = id

/-- What the callers that initialize projects have left to do. -/
def initializing (s : Hosting) : List Task :=
  s.connecting ++ s.applying.flatMap (·.tasks)

/-- The task that a move does. -/
def task? (s : Hosting) : Move → Option Task
  | .apply place _ => s.applying[place]?.bind (·.tasks.head?)
  | .connect _ => s.connecting.head?.filter fun task => ProjectSystem.isReady s.server.shared task
  | .reconfigure place => s.configuring[place]?.bind List.head?
  | _ => none

/-- A task of a caller that initializes projects: it sets no configuration, and the project that it leads to
is tracked. -/
def Fits (s : Hosting) (task : Task) : Prop :=
  task.sets? = none ∧ ∀ id, task.initializes? = some id → s.Tracks id

theorem Fits.mono (h : s.Fits task) (htracks : ∀ id, s.Tracks id → s'.Tracks id) : s'.Fits task :=
  ⟨h.1, fun id hid => htracks id (h.2 id hid)⟩

@[simp]
theorem tracks_perform (s : Hosting) (task : Task) (rest : List Task) (fault : Option Fault) (id : Nat) :
    (s.perform task rest fault).1.Tracks id ↔ s.Tracks id := by
  rw [Tracks, projects_perform, Tracks]

theorem configuration_perform (s : Hosting) (task : Task) (rest : List Task) (fault : Option Fault) :
    (s.perform task rest fault).1.configuration = task.sets?.getD s.configuration :=
  ProjectSystem.configuration_perform ..

theorem fits_perform (h : ∀ t ∈ task :: rest, s.Fits t) (ht : t ∈ (s.perform task rest fault).2) :
    s.Fits t := by
  rcases ProjectSystem.mem_perform ht with ht | ⟨hsets, hleads, -⟩
  · exact h t (List.mem_cons_of_mem _ ht)
  · exact ⟨hsets, fun id hid => (hleads id hid).elim ((h task List.mem_cons_self).2 id) fun h => h⟩

/-- A configuration to initialize with has just been read, or was read before. -/
theorem post_perform {project : Graph.ProjectRef} {configuration : String}
    (h : .post project configuration ∈ (s.perform task rest fault).2) :
    .post project configuration ∈ rest ∨ configuration = s.configuration :=
  (ProjectSystem.mem_perform h).imp_right fun ⟨_, _, hread⟩ => hread _ _ rfl

/-! ### The ledger -/

/-- A message that carries a configuration, posted or tried to be. -/
structure Posting where
  project : Nat
  configuration : String
  /-- Whether it initializes the project. -/
  initializes : Bool
  /-- Whether the configuration was the current one when it was posted. -/
  wasCurrent : Bool
deriving DecidableEq, Repr

/-- What a task posts. -/
def posting? (s : Hosting) (task : Task) : Option Posting :=
  task.posts?.map fun (id, configuration) =>
    ⟨id, configuration, task.initializes?.isSome, configuration = s.configuration⟩

/-- The callers with what they have posted about configurations. -/
structure Ledger where
  scene : Hosting
  /-- What was posted before the configuration was last set. -/
  earlier : List Posting := []
  /-- What was posted since. -/
  recent : List Posting := []

namespace Ledger

def note (l : Ledger) (task : Task) : Ledger :=
  match task.sets? with
  | some _ => { l with earlier := l.earlier ++ l.recent, recent := [] }
  | none => { l with recent := l.recent ++ (l.scene.posting? task).toList }

def take (l : Ledger) (move : Move) : Ledger :=
  { (l.scene.task? move).elim l l.note with scene := l.scene.take move }

def run (l : Ledger) (moves : List Move) : Ledger :=
  moves.foldl take l

/-- Everything that was posted, in this order. -/
def postings (l : Ledger) : List Posting :=
  l.earlier ++ l.recent

/-- What a project was told last. -/
def last? (l : Ledger) (id : Nat) : Option Posting :=
  (l.postings.filter (·.project = id)).getLast?

/-- A project was initialized, or is about to be, with a configuration that is not the current one. -/
def IsBehind (l : Ledger) (id : Nat) : Prop :=
  (∃ p ∈ l.earlier, p.initializes = true ∧ p.project = id) ∨
    (∃ p ∈ l.recent, p.initializes = true ∧ p.project = id ∧ p.configuration ≠ l.scene.configuration) ∨
    ∃ project configuration, .post project configuration ∈ l.scene.initializing ∧
      project.contextId = id ∧ configuration ≠ l.scene.configuration

/-- A project was told a configuration, or a call will tell it. -/
def Serves (configuration : String) (told : List Posting) (calls : List (List Task)) (id : Nat) : Prop :=
  (∃ p ∈ told, p.project = id ∧ p.configuration = configuration) ∨
    ∃ call ∈ calls, .broadcast configuration ∈ call ∨ .tell id configuration ∈ call

/-- A project was told the current configuration since it was set, or a call will do so. -/
def IsServed (l : Ledger) (id : Nat) : Prop :=
  Serves l.scene.configuration l.recent l.scene.configuring id

/-- What holds at all times. -/
structure Informed (l : Ledger) : Prop where
  fits : ∀ t ∈ l.scene.initializing, l.scene.Fits t
  announced : ∀ a ∈ l.scene.applying, ∀ project, .added project ∈ a.notices →
    l.scene.Tracks project.contextId
  /-- A call that changes the configuration sets it first and tells of it after that. -/
  shaped : ∀ call ∈ l.scene.configuring,
    (∃ configuration, call = ProjectSystem.reconfigured configuration) ∨ ∀ t ∈ call, t.announces = true
  posted : ∀ p ∈ l.postings, p.initializes = true → l.scene.Tracks p.project
  fresh : ∀ p ∈ l.recent, p.wasCurrent = true ↔ p.configuration = l.scene.configuration
  served : ∀ id, l.IsBehind id → l.IsServed id

variable {l : Ledger} {id : Nat}

theorem Informed.tracks_of_behind (h : Informed l) (hid : l.IsBehind id) : l.scene.Tracks id := by
  rcases hid with ⟨p, hp, hinit, rfl⟩ | ⟨p, hp, hinit, rfl, -⟩ | ⟨project, c, hpost, rfl, -⟩
  · exact h.posted p (List.mem_append_left _ hp) hinit
  · exact h.posted p (List.mem_append_right _ hp) hinit
  · exact (h.fits _ hpost).2 _ rfl

/-- What stays when no configuration is set, nothing outdated is read, and what is owed to a project is
still owed or was told. -/
theorem Informed.onward (h : Informed l) (more : List Posting)
    (hconfiguration : s'.configuration = l.scene.configuration)
    (htracks : ∀ id, l.scene.Tracks id → s'.Tracks id)
    (hfits : ∀ t ∈ s'.initializing, s'.Fits t)
    (hreads : ∀ project configuration, .post project configuration ∈ s'.initializing →
      .post project configuration ∈ l.scene.initializing ∨ configuration = l.scene.configuration)
    (hannounced : ∀ a ∈ s'.applying, ∀ project, .added project ∈ a.notices → s'.Tracks project.contextId)
    (hshaped : ∀ call ∈ s'.configuring,
      (∃ configuration, call = ProjectSystem.reconfigured configuration) ∨ ∀ t ∈ call, t.announces = true)
    (hmore : ∀ p ∈ more, (p.wasCurrent = true ↔ p.configuration = l.scene.configuration) ∧
      (p.initializes = true → ∃ project, .post project p.configuration ∈ l.scene.initializing ∧
        project.contextId = p.project))
    (hserved : ∀ id, l.scene.Tracks id → l.IsServed id →
      Serves l.scene.configuration (l.recent ++ more) s'.configuring id) :
    Informed ⟨s', l.earlier, l.recent ++ more⟩ := by
  have hbehind : ∀ id, IsBehind ⟨s', l.earlier, l.recent ++ more⟩ id → l.IsBehind id := by
    rintro id (hold | ⟨p, hp, hinit, hid, hne⟩ | ⟨project, c, hpost, hid, hne⟩)
    · exact Or.inl hold
    · rw [show Hosting.configuration _ = _ from hconfiguration] at hne
      rcases List.mem_append.1 hp with hp | hp
      · exact Or.inr (Or.inl ⟨p, hp, hinit, hid, hne⟩)
      · obtain ⟨project, hpost, hproject⟩ := (hmore p hp).2 hinit
        exact Or.inr (Or.inr ⟨project, _, hpost, hproject.trans hid, hne⟩)
    · rw [show Hosting.configuration _ = _ from hconfiguration] at hne
      exact Or.inr (Or.inr ⟨project, c, (hreads project c hpost).resolve_right hne, hid, hne⟩)
  refine ⟨hfits, hannounced, hshaped, fun p hp hinit => htracks _ ?_, fun p hp => ?_, fun id hid => ?_⟩
  · rw [postings, ← List.append_assoc] at hp
    rcases List.mem_append.1 hp with hp | hp
    · exact h.posted p hp hinit
    · obtain ⟨project, hpost, hproject⟩ := (hmore p hp).2 hinit
      exact (h.fits _ hpost).2 _ (congrArg some hproject)
  · rw [show Hosting.configuration _ = _ from hconfiguration]
    exact (List.mem_append.1 hp).elim (h.fresh p) fun hp => (hmore p hp).1
  · have hid := hbehind id hid
    rw [IsServed, show Hosting.configuration _ = _ from hconfiguration]
    exact hserved id (h.tracks_of_behind hid) (h.served id hid)

/-! ### One move -/

theorem mem_posting {p : Posting} (hp : p ∈ (s.posting? task).toList) :
    (p.wasCurrent = true ↔ p.configuration = s.configuration) ∧
      (p.initializes = true → ∃ project, task = .post project p.configuration ∧
        project.contextId = p.project) := by
  cases task with
  | post project configuration =>
      obtain rfl := List.mem_singleton.1 hp
      exact ⟨decide_eq_true_iff, fun _ => ⟨project, rfl, rfl⟩⟩
  | tell id configuration =>
      obtain rfl := List.mem_singleton.1 hp
      exact ⟨decide_eq_true_iff, by simp [Task.initializes?]⟩
  | _ => cases hp

/-- What is owed to a project stays so as long as the calls do. -/
theorem Serves.mono {configuration : String} {told more : List Posting} {calls calls' : List (List Task)}
    (h : Serves configuration told calls id) (hcalls : ∀ call ∈ calls, call ∈ calls') :
    Serves configuration (told ++ more) calls' id :=
  h.imp (fun ⟨p, hp, h⟩ => ⟨p, List.mem_append_left _ hp, h⟩) fun ⟨call, hcall, h⟩ =>
    ⟨call, hcalls call hcall, h⟩

/-- A caller that initializes projects does a task. -/
theorem Informed.callerStep (h : Informed l) (fault : Option Fault)
    (hcaller : ∀ t ∈ task :: rest, t ∈ l.scene.initializing)
    (hserver : s'.server = (l.scene.perform task rest fault).1.server)
    (hconfiguring : s'.configuring = l.scene.configuring)
    (hinitializing : ∀ t ∈ s'.initializing,
      t ∈ l.scene.initializing ∨ t ∈ (l.scene.perform task rest fault).2)
    (happlying : ∀ a ∈ s'.applying, ∃ b ∈ l.scene.applying, a.notices = b.notices) :
    Informed ⟨s', l.earlier, l.recent ++ (l.scene.posting? task).toList⟩ := by
  have hfits : ∀ t ∈ task :: rest, l.scene.Fits t := fun t ht => h.fits t (hcaller t ht)
  have hconfiguration : s'.configuration = l.scene.configuration := by
    rw [Hosting.configuration, hserver]
    exact (l.scene.configuration_perform task rest fault).trans
      (by rw [(hfits task List.mem_cons_self).1]; rfl)
  have htracks : ∀ id, l.scene.Tracks id → s'.Tracks id := fun id hid => by
    rw [Tracks, projects, hserver]
    exact (l.scene.tracks_perform task rest fault id).2 hid
  refine h.onward _ hconfiguration htracks (fun t ht => Fits.mono ?_ htracks) (fun project c hpost => ?_)
    (fun a ha project hproject => ?_) (hconfiguring ▸ h.shaped) (fun p hp => ?_)
    fun id _ hid => hid.mono fun call hcall => hconfiguring ▸ hcall
  · exact (hinitializing t ht).elim (h.fits t) (fits_perform hfits)
  · refine (hinitializing _ hpost).elim Or.inl fun hpost => (post_perform hpost).imp_left fun hrest => ?_
    exact hcaller _ (List.mem_cons_of_mem _ hrest)
  · obtain ⟨b, hb, hnotices⟩ := happlying a ha
    exact htracks _ (h.announced b hb project (hnotices ▸ hproject))
  · refine (mem_posting hp).imp_right fun hpost hinit => ?_
    obtain ⟨project, rfl, hproject⟩ := hpost hinit
    exact ⟨project, hcaller _ List.mem_cons_self, hproject⟩

/-- A move that does no task. -/
theorem Informed.idle (h : Informed l) (hconfiguration : s'.configuration = l.scene.configuration)
    (htracks : ∀ id, l.scene.Tracks id → s'.Tracks id)
    (hinitializing : ∀ t ∈ s'.initializing, t ∈ l.scene.initializing ∨
      s'.Fits t ∧ ∀ project configuration, t ≠ .post project configuration)
    (hannounced : ∀ a ∈ s'.applying, ∀ project, .added project ∈ a.notices → s'.Tracks project.contextId)
    (hconfiguring : s'.configuring = l.scene.configuring ∨
      ∃ configuration, s'.configuring = l.scene.configuring ++ [ProjectSystem.reconfigured configuration]) :
    Informed { l with scene := s' } := by
  have hkept : ∀ call ∈ l.scene.configuring, call ∈ s'.configuring := fun call hcall => by
    rcases hconfiguring with heq | ⟨configuration, heq⟩
    · exact heq ▸ hcall
    · exact heq ▸ List.mem_append_left _ hcall
  have := h.onward [] hconfiguration htracks
    (fun t ht => (hinitializing t ht).elim (fun ht => (h.fits t ht).mono htracks) And.left)
    (fun project configuration hpost =>
      Or.inl ((hinitializing _ hpost).resolve_right fun hnew => hnew.2 project configuration rfl))
    hannounced (fun call hcall => ?_) (by simp) fun id _ hid => hid.mono hkept
  · rwa [List.append_nil] at this
  · rcases hconfiguring with heq | ⟨configuration, heq⟩
    · exact h.shaped call (heq ▸ hcall)
    · rw [heq] at hcall
      exact (List.mem_append.1 hcall).elim (h.shaped call) fun hcall =>
        Or.inl ⟨configuration, List.mem_singleton.1 hcall⟩

theorem Informed.host (h : Informed l) (move : Supervisor.Move) : Informed (l.take (.host move)) := by
  show Informed { l with scene := (if l.scene.isHeld move then l.scene else
    hear { l.scene with supervisor := (l.scene.supervisor.take move).1 } (l.scene.supervisor.tells move)) }
  split
  · exact h
  · unfold hear
    split
    · exact h.idle rfl (fun _ hid => hid) (fun t ht => Or.inl ht) h.announced (Or.inl rfl)
    · refine h.idle rfl (fun _ hid => hid) (fun t ht => ?_) h.announced (Or.inl rfl)
      rcases List.mem_append.1 ht with ht | ht
      · refine Or.inr ?_
        simp only [ProjectSystem.connected, List.mem_cons, List.not_mem_nil, or_false] at ht
        rcases ht with rfl | rfl | rfl <;> simp [Fits, Task.sets?, Task.initializes?]
      · exact Or.inl (List.mem_append_right _ ht)
    · exact h.idle rfl (fun _ hid => hid) (fun t ht => Or.inl ht) h.announced (Or.inl rfl)

theorem Informed.receive (h : Informed l) (message : Message) : Informed (l.take (.receive message)) := by
  have hgains := Graph.Reconciler.gains_apply l.scene.server.reconciler message
  have hrefs : (l.scene.take (.receive message)).projects = l.scene.projects ++
      Graph.Reconciler.addedRefs (l.scene.server.apply message).2.1 := hgains.refs
  have htracks : ∀ id, l.scene.Tracks id → (l.scene.take (.receive message)).Tracks id :=
    fun id ⟨project, hproject, hid⟩ => ⟨project, hrefs ▸ List.mem_append_left _ hproject, hid⟩
  refine h.idle rfl htracks (fun t ht => Or.inl ?_) (fun a ha project hproject => ?_) (Or.inl rfl)
  · simpa [initializing, Hosting.take] using ht
  · rcases List.mem_append.1 ha with ha | ha
    · exact htracks _ (h.announced a ha project hproject)
    · obtain rfl := List.mem_singleton.1 ha
      refine ⟨project, hrefs ▸ List.mem_append_right _ ?_, rfl⟩
      exact List.mem_filterMap.2 ⟨_, hproject, rfl⟩

/-- Announcing leads to initializing a project only where the announcement is of that project. -/
theorem initializes_announce (server : Server) (notice : Graph.Notice)
    (ht : t ∈ (server.announce notice).2.2) : t.sets? = none ∧ (∀ project configuration,
      t ≠ .post project configuration) ∧ ∀ id, t.initializes? = some id →
        ∃ project, notice = .added project ∧ project.contextId = id := by
  cases notice with
  | added project =>
      simp only [Server.announce, ProjectSystem.added, List.mem_cons, List.not_mem_nil, or_false] at ht
      rcases ht with rfl | rfl | rfl
      · simp [Task.sets?, Task.initializes?]
      · simp [Task.sets?, Task.initializes?]
      · exact ⟨rfl, by simp, fun id hid => ⟨project, rfl, Option.some_inj.1 hid⟩⟩
  | _ => cases ht

theorem configuration_announce (server : Server) (notice : Graph.Notice) :
    (server.announce notice).1.projects.configuration = server.projects.configuration := by
  cases notice <;> rfl

theorem Informed.announce (h : Informed l) {place : Nat} {notice : Graph.Notice}
    {notices : List Graph.Notice} (ha : l.scene.applying[place]? = some ⟨notice :: notices, []⟩)
    (fault : Option Fault) :
    Informed { l with scene := l.scene.applyStep place ⟨notice :: notices, []⟩ fault } := by
  have hmem := List.mem_of_getElem? ha
  have htracks : ∀ id, l.scene.Tracks id →
      (l.scene.applyStep place ⟨notice :: notices, []⟩ fault).Tracks id := fun id hid => by
    unfold Tracks projects Hosting.applyStep
    simp only [reconciler_announce]
    exact hid
  refine h.idle (configuration_announce _ notice) htracks (fun t ht => ?_) (fun b hb project hproject => ?_)
    (Or.inl rfl)
  · rcases List.mem_append.1 ht with ht | ht
    · exact Or.inl (List.mem_append_left _ ht)
    obtain ⟨b, hb, ht⟩ := List.mem_flatMap.1 ht
    rcases List.mem_or_eq_of_mem_set hb with hb | rfl
    · exact Or.inl (List.mem_append_right _ (List.mem_flatMap.2 ⟨b, hb, ht⟩))
    · obtain ⟨hsets, hpost, hleads⟩ := initializes_announce _ notice ht
      refine Or.inr ⟨⟨hsets, fun id hid => ?_⟩, hpost⟩
      obtain ⟨project, rfl, rfl⟩ := hleads id hid
      exact htracks _ (h.announced _ hmem project List.mem_cons_self)
  · refine htracks _ ?_
    rcases List.mem_or_eq_of_mem_set hb with hb | rfl
    · exact h.announced b hb project hproject
    · exact h.announced _ hmem project (List.mem_cons_of_mem _ hproject)

theorem Informed.apply (h : Informed l) (place : Nat) (fault : Option Fault) :
    Informed (l.take (.apply place fault)) := by
  unfold Ledger.take
  simp only [task?, Hosting.take]
  cases ha : l.scene.applying[place]? with
  | none => exact h
  | some a =>
      have hmem := List.mem_of_getElem? ha
      obtain ⟨notices, tasks⟩ := a
      cases tasks with
      | cons task rest =>
          have hcaller : ∀ t ∈ task :: rest, t ∈ l.scene.initializing := fun t ht =>
            List.mem_append_right _ (List.mem_flatMap.2 ⟨_, hmem, ht⟩)
          simp only [Option.bind_some, List.head?_cons, Option.elim_some, note,
            (h.fits task (hcaller task List.mem_cons_self)).1]
          refine h.callerStep fault hcaller rfl rfl (fun t ht => ?_) fun b hb => ?_
          · rcases List.mem_append.1 ht with ht | ht
            · exact Or.inl (List.mem_append_left _ ht)
            · obtain ⟨b, hb, ht⟩ := List.mem_flatMap.1 ht
              rcases List.mem_or_eq_of_mem_set hb with hb | rfl
              · exact Or.inl (List.mem_append_right _ (List.mem_flatMap.2 ⟨b, hb, ht⟩))
              · exact Or.inr ht
          · rcases List.mem_or_eq_of_mem_set hb with hb | rfl
            · exact ⟨b, hb, rfl⟩
            · exact ⟨_, hmem, rfl⟩
      | nil =>
          cases notices with
          | nil => exact h
          | cons notice notices => exact h.announce ha fault

theorem Informed.connect (h : Informed l) (fault : Option Fault) : Informed (l.take (.connect fault)) := by
  unfold Ledger.take
  simp only [task?, Hosting.take]
  cases hconnecting : l.scene.connecting with
  | nil =>
      simp only [Hosting.connectStep, hconnecting]
      exact h
  | cons task rest =>
      simp only [Hosting.connectStep, hconnecting, List.head?_cons, Option.filter_some]
      split
      case isFalse => exact h
      have hcaller : ∀ t ∈ task :: rest, t ∈ l.scene.initializing := fun t ht =>
        List.mem_append_left _ (hconnecting ▸ ht)
      simp only [Option.elim_some, note, (h.fits task (hcaller task List.mem_cons_self)).1]
      refine h.callerStep fault hcaller rfl rfl (fun t ht => ?_) fun b hb => ⟨b, hb, rfl⟩
      exact (List.mem_append.1 ht).symm.imp (List.mem_append_right _) fun ht => ht

/-- The first task of a call sets the configuration: the call will tell every project of it. -/
theorem Informed.configured (h : Informed l) {place : Nat} {configuration : String}
    (hcall : l.scene.configuring[place]? = some (ProjectSystem.reconfigured configuration)) :
    Informed (l.take (.reconfigure place)) := by
  have hscene : l.scene.take (.reconfigure place) =
      { (l.scene.perform (.configure configuration) [.broadcast configuration] none).1 with
        configuring := l.scene.configuring.set place [.broadcast configuration] } := by
    simp only [Hosting.take, Hosting.reconfigureStep, hcall, ProjectSystem.reconfigured]
    rfl
  have hledger : l.take (.reconfigure place) =
      ⟨l.scene.take (.reconfigure place), l.earlier ++ l.recent, []⟩ := by
    simp only [Ledger.take, task?, hcall, ProjectSystem.reconfigured]
    rfl
  rw [hledger, hscene]
  refine ⟨h.fits, h.announced, fun call hmem => ?_, fun p hp => ?_, by simp, fun id _ => Or.inr ?_⟩
  · rcases List.mem_or_eq_of_mem_set hmem with hmem | rfl
    · exact h.shaped call hmem
    · exact Or.inr (by simp [Task.announces])
  · exact h.posted p (by simpa [postings] using hp)
  · exact ⟨_, List.mem_set (List.getElem?_eq_some_iff.1 hcall).1 _, Or.inl List.mem_cons_self⟩

/-- A call that tells of a configuration goes on to do so. -/
theorem announces_perform (h : ∀ t ∈ task :: rest, t.announces = true)
    (ht : t ∈ (s.perform task rest fault).2) : t.announces = true := by
  have htask := h task List.mem_cons_self
  have hrest : ∀ t ∈ rest, t.announces = true := fun t ht => h t (List.mem_cons_of_mem _ ht)
  cases task with
  | broadcast configuration =>
      rcases List.mem_append.1 ht with ht | ht
      · obtain ⟨project, -, rfl⟩ := List.mem_map.1 ht
        rfl
      · exact hrest t ht
  | tell id configuration =>
      simp only [Hosting.perform, ProjectSystem.perform] at ht
      split at ht <;> exact hrest t ht
  | _ => cases htask

/-- A task of a call that tells of the current configuration leaves what is owed to a project, or tells it. -/
theorem served_perform (fault : Option Fault) (htracks : s.Tracks id) (hannounces : task.announces = true)
    (h : .broadcast s.configuration ∈ task :: rest ∨ .tell id s.configuration ∈ task :: rest) :
    (∃ p ∈ (s.posting? task).toList, p.project = id ∧ p.configuration = s.configuration) ∨
      .broadcast s.configuration ∈ (s.perform task rest fault).2 ∨
      .tell id s.configuration ∈ (s.perform task rest fault).2 := by
  have hrest : ∀ t ∈ rest, t ∈ (s.perform task rest fault).2 := fun t ht => by
    obtain ⟨more, hmore, -⟩ := s.perform_rest rest fault (Task.not_isConnect_of_announces hannounces)
    exact hmore ▸ List.mem_append_right _ ht
  rcases h with h | h
  · rcases List.mem_cons.1 h with rfl | h
    · obtain ⟨project, hproject, rfl⟩ := htracks
      exact Or.inr (Or.inr (List.mem_append_left _ (List.mem_map.2 ⟨project, hproject, rfl⟩)))
    · exact Or.inr (Or.inl (hrest _ h))
  · rcases List.mem_cons.1 h with rfl | h
    · exact Or.inl ⟨_, List.mem_singleton.2 rfl, rfl, rfl⟩
    · exact Or.inr (Or.inr (hrest _ h))

theorem Informed.told (h : Informed l) {place : Nat}
    (hcall : l.scene.configuring[place]? = some (task :: rest))
    (hannounces : ∀ t ∈ task :: rest, t.announces = true) : Informed (l.take (.reconfigure place)) := by
  have htask := hannounces task List.mem_cons_self
  have hsets := Task.sets?_of_announces htask
  have hledger : l.take (.reconfigure place) =
      ⟨{ (l.scene.perform task rest none).1 with
          configuring := l.scene.configuring.set place (l.scene.perform task rest none).2 },
        l.earlier, l.recent ++ (l.scene.posting? task).toList⟩ := by
    simp only [Ledger.take, task?, Hosting.take, Hosting.reconfigureStep, hcall, Option.bind_some,
      List.head?_cons, Option.elim_some, note, hsets]
    rfl
  have hconfiguration : (l.scene.perform task rest none).1.configuration = l.scene.configuration := by
    rw [Hosting.configuration_perform, hsets]
    rfl
  have htracks : ∀ id, l.scene.Tracks id → (l.scene.perform task rest none).1.Tracks id :=
    fun id hid => (l.scene.tracks_perform task rest none id).2 hid
  rw [hledger]
  refine h.onward _ hconfiguration htracks (fun t ht => (h.fits t ht).mono htracks) (fun _ _ => Or.inl)
    (fun a ha project hproject => htracks _ (h.announced a ha project hproject)) (fun call hmem => ?_)
    (fun p hp => ?_) fun id hid hserved => ?_
  · rcases List.mem_or_eq_of_mem_set hmem with hmem | rfl
    · exact h.shaped call hmem
    · exact Or.inr fun t ht => announces_perform hannounces ht
  · refine (mem_posting hp).imp_right fun hpost hinit => ?_
    obtain ⟨project, rfl, -⟩ := hpost hinit
    cases htask
  · have hlt := (List.getElem?_eq_some_iff.1 hcall).1
    rcases hserved with ⟨p, hp, hp'⟩ | ⟨call, hmem, hcall'⟩
    · exact Or.inl ⟨p, List.mem_append_left _ hp, hp'⟩
    · obtain ⟨j, hj⟩ := List.getElem?_of_mem hmem
      by_cases hij : place = j
      · obtain rfl : task :: rest = call := Option.some_inj.1 (hcall.symm.trans (hij ▸ hj))
        rcases served_perform none hid htask hcall' with ⟨p, hp, hp'⟩ | hmore
        · exact Or.inl ⟨p, List.mem_append_right _ hp, hp'⟩
        · exact Or.inr ⟨_, List.mem_set hlt _, hmore⟩
      · refine Or.inr ⟨call, List.mem_of_getElem? (i := j) ?_, hcall'⟩
        rw [List.getElem?_set_ne hij, hj]

theorem Informed.reconfigure (h : Informed l) (place : Nat) : Informed (l.take (.reconfigure place)) := by
  cases hcall : l.scene.configuring[place]? with
  | none =>
      simpa only [Ledger.take, task?, Hosting.take, Hosting.reconfigureStep, hcall, Option.bind_none,
        Option.elim_none] using h
  | some call =>
      rcases h.shaped call (List.mem_of_getElem? hcall) with ⟨configuration, rfl⟩ | hannounces
      · exact h.configured hcall
      · cases call with
        | nil =>
            simpa only [Ledger.take, task?, Hosting.take, Hosting.reconfigureStep, hcall, Option.bind_some,
              List.head?_nil, Option.elim_none] using h
        | cons task rest => exact h.told hcall hannounces

/-- What one move preserves. -/
theorem Informed.take (h : Informed l) (move : Move) : Informed (l.take move) := by
  cases move with
  | host move => exact h.host move
  | receive message => exact h.receive message
  | apply place fault => exact h.apply place fault
  | connect fault => exact h.connect fault
  | reconfigure place => exact h.reconfigure place
  | configure configuration =>
      exact h.idle rfl (fun _ hid => hid) (fun _ ht => Or.inl ht) h.announced (Or.inr ⟨_, rfl⟩)
  | disturb channel => exact h.idle rfl (fun _ hid => hid) (fun _ ht => Or.inl ht) h.announced (Or.inl rfl)

/-! ### Whole runs -/

theorem Informed.start (server : Server) (settings : Settings.Host) :
    Informed ⟨.of server settings, [], []⟩ := by
  constructor
  case served =>
    rintro id (⟨p, hp, -⟩ | ⟨p, hp, -⟩ | ⟨project, configuration, hpost, -⟩)
    · cases hp
    · cases hp
    · cases hpost
  -- nobody has anything to do yet
  all_goals
    intro _ h
    cases h

theorem Informed.run (h : Informed l) (moves : List Move) : Informed (l.run moves) :=
  List.foldlRecOn moves Ledger.take h fun _ h move _ => h.take move

/-- What was told since the last change comes after all that was told before. -/
theorem last?_of_recent {q : Posting} (hq : q ∈ l.recent) (hproject : q.project = id) :
    ∃ last, l.last? id = some last ∧ last ∈ l.recent := by
  have hne : l.recent.filter (·.project = id) ≠ [] :=
    List.ne_nil_of_mem (List.mem_filter.2 ⟨hq, decide_eq_true hproject⟩)
  obtain ⟨last, hlast⟩ := Option.isSome_iff_exists.1 (List.getLast?_isSome.2 hne)
  refine ⟨last, ?_, (List.mem_filter.1 (List.mem_of_getLast? hlast)).1⟩
  rw [last?, postings, List.filter_append, List.getLast?_append, hlast]
  rfl

end Ledger

open Ledger in
/-- **No change of the configuration passes a project by.** Once no change is under way, a project that was
initialized was told the current configuration since it was set. What it was told last is current exactly if
it was so when it was posted. -/
theorem changes_told (server : Server) (settings : Settings.Host) (moves : List Move)
    (hover : ∀ call ∈ (Ledger.run ⟨.of server settings, [], []⟩ moves).scene.configuring, call = []) :
    let l := Ledger.run ⟨.of server settings, [], []⟩ moves
    ∀ p ∈ l.postings, p.initializes = true →
      (∃ q ∈ l.recent, q.project = p.project ∧ q.configuration = l.scene.configuration) ∧
        ∃ q, l.last? p.project = some q ∧
          (q.configuration = l.scene.configuration ↔ q.wasCurrent = true) := by
  intro l p hp hinit
  have h : Informed l := (Informed.start server settings).run moves
  have htold : ∃ q ∈ l.recent, q.project = p.project ∧ q.configuration = l.scene.configuration := by
    by_cases hcurrent : p ∈ l.recent ∧ p.configuration = l.scene.configuration
    · exact ⟨p, hcurrent.1, rfl, hcurrent.2⟩
    · have hbehind : l.IsBehind p.project := by
        rcases List.mem_append.1 hp with hp | hp
        · exact Or.inl ⟨p, hp, hinit, rfl⟩
        · exact Or.inr (Or.inl ⟨p, hp, hinit, rfl, fun heq => hcurrent ⟨hp, heq⟩⟩)
      refine (h.served _ hbehind).resolve_right ?_
      rintro ⟨call, hcall, hmem⟩
      rw [hover call hcall] at hmem
      simp at hmem
  refine ⟨htold, ?_⟩
  obtain ⟨q, hq, hproject, -⟩ := htold
  obtain ⟨last, hlast, hmem⟩ := last?_of_recent hq hproject
  exact ⟨last, hlast, (h.fresh last hmem).symm⟩

/-- The call for a connection reads the configuration, another one is set and told to the project, and then
the call posts what it has read. -/
example :
    let server : Server := {
      reconciler := Graph.Reconciler.run (.new ".cs") [.track "/app/project.json"]
      notifier := { debounce := 5 }
      projects := { loadTimeout := 9, configuration := "Debug", hostId := "h" }
      bridge := .new {} 0 }
    let l := Ledger.run ⟨.of server {}, [], []⟩
      (Move.host (.start "h") :: List.replicate 8 (Move.host (.work 0 { now := 0, accepts := true })) ++
        List.replicate 4 (Move.connect none) ++
        Move.configure "Release" :: List.replicate 3 (Move.reconfigure 0) ++
        List.replicate 2 (Move.connect none))
    l.scene.configuration = "Release" ∧ l.scene.configuring = [[]] ∧ l.scene.connecting = [] ∧
      l.last? 1 = some ⟨1, "Debug", true, false⟩ := by
  decide +kernel

end Hosting

end CompilationBridge
