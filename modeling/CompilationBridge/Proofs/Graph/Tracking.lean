import CompilationBridge.Proofs.Graph.Symmetry
import Mathlib.Data.List.Nodup

/-! Ids of projects and their announcements. The tracked paths stand in the order of their ids. Tracking a
path that is not known gives it the next id; nothing else touches ids and paths, whatever is done to the
variants and whichever workspace calls fail. So the list of paths only grows, each of them is clean and
stands in it once, and what was announced over a run, by tracking or by a notice, is the list itself. -/

namespace CompilationBridge.Graph

/-- What is known of a project apart from its variants. -/
def Project.heading (p : Project) : Project :=
  { p with variants := [] }

namespace Store

variable {s s' s'' : Store}

/-! ### The list of tracked paths -/

/-- The tracked paths in the order of their ids. -/
def paths (s : Store) : List String :=
  s.projects.values.map (·.path)

/-- What is known of the tracked projects apart from their variants, in the order of their ids. -/
def headings (s : Store) : List Project :=
  s.projects.values.map (·.heading)

theorem path?_succ (s : Store) (n : Nat) : s.path? (n + 1) = s.paths[n]? := by
  rw [path?, project?_succ, paths, List.getElem?_map]

theorem heading?_succ (s : Store) (n : Nat) :
    (s.project? (n + 1 : Nat)).map (·.heading) = s.headings[n]? := by
  rw [project?_succ, headings, List.getElem?_map]

theorem heading?_congr (h : s'.headings = s.headings) (id : Nat) :
    (s'.project? id).map (·.heading) = (s.project? id).map (·.heading) := by
  cases id with
  | zero => simp
  | succ n => rw [heading?_succ, heading?_succ, h]

theorem name?_congr (h : s'.headings = s.headings) (id : Nat) :
    (s'.project? id).map (·.name) = (s.project? id).map (·.name) := by
  have hname : ∀ s : Store, (s.project? id).map (·.name) =
      ((s.project? id).map (·.heading)).map (·.name) := by
    intro s
    rw [Option.map_map]
    rfl
  rw [hname, hname, heading?_congr h]

theorem paths_congr (h : s'.headings = s.headings) : s'.paths = s.paths := by
  have heq : ∀ s : Store, s.paths = s.headings.map (·.path) := by
    intro s
    rw [headings, List.map_map]
    rfl
  rw [heq, heq, h]

theorem path?_congr (h : s'.headings = s.headings) (id : Nat) : s'.path? id = s.path? id := by
  cases id with
  | zero => simp
  | succ n => rw [path?_succ, path?_succ, paths_congr h]

/-- The paths by which projects are found. -/
theorem paths_eq_keys (s : Store) : s.paths = s.byPath.keys := by
  rw [paths, Table.keys, s.listed, Table.values, List.map_map, List.map_map]
  rfl

theorem nextId_eq (s : Store) : s.nextId = s.paths.length + 1 := by
  rw [s.counted, paths, Table.size, Table.values, List.length_map, List.length_map]

theorem refs_eq (s : Store) : s.refs = s.paths.zipIdx.map fun e => ⟨e.2 + 1, e.1⟩ := by
  have hlength : s.paths.length = s.projects.size := by
    rw [paths, List.length_map, Table.values, List.length_map, Table.size]
  have hzip : s.paths.zipIdx 1 = s.projects.entries.map fun e => (e.2.path, e.1) := by
    rw [List.zipIdx_eq_zip_range', hlength, ← s.dense, paths, Table.values, Table.keys, List.map_map,
      List.zip_map']
    rfl
  rw [List.zipIdx_succ] at hzip
  have hrefs := congrArg (List.map fun e : String × Nat => (⟨e.2, e.1⟩ : ProjectRef)) hzip
  rw [List.map_map, List.map_map] at hrefs
  exact hrefs.symm

theorem refs_congr (h : s'.paths = s.paths) : s'.refs = s.refs := by
  rw [refs_eq, refs_eq, h]

theorem headings_change (s : Store) (f : Nat → Project → Project) (hpath : ∀ id p, (f id p).path = p.path)
    (hf : ∀ id p, (f id p).heading = p.heading) : (s.change f hpath).headings = s.headings := by
  rw [headings, values_change, headings, Table.values, List.map_map, List.map_map]
  exact List.map_congr_left fun e _ => hf e.1 e.2

theorem paths_change (s : Store) (f : Nat → Project → Project) (hf : ∀ id p, (f id p).path = p.path) :
    (s.change f hf).paths = s.paths := by
  rw [paths, values_change, paths, Table.values, List.map_map, List.map_map]
  exact List.map_congr_left fun e _ => hf e.1 e.2

@[simp] theorem headings_modifyVariant (s : Store) (h : Handle) (f : Variant → Variant) :
    (s.modifyVariant h f).headings = s.headings :=
  headings_change s _ _ fun _ _ => rfl

@[simp] theorem headings_removeVariant (s : Store) (h : Handle) :
    (s.removeVariant h).headings = s.headings :=
  headings_change s _ _ fun _ _ => rfl

@[simp] theorem headings_addVariant (s : Store) (id : Nat) (v : Variant) :
    (s.addVariant id v).headings = s.headings := by
  rw [addVariant, modifyProject, headings_change]
  intro i p
  split <;> rfl

theorem paths_modifyProject (s : Store) (id : Nat) (f : Project → Project)
    (hf : ∀ p, (f p).path = p.path) : (s.modifyProject id f hf).paths = s.paths :=
  paths_change s _ _

/-! ### Ids and paths -/

/-- The tracked paths are clean. -/
def IsClean (s : Store) : Prop :=
  ∀ path ∈ s.paths, Path.clean path = path

theorem isClean_empty : IsClean {} := by
  intro path hpath
  cases hpath

theorem mem_paths_iff {path : String} : path ∈ s.paths ↔ ∃ id, s.path? id = some path := by
  rw [paths_eq_keys, Table.mem_keys]
  exact exists_congr fun id => idOf?_iff

theorem IsClean.clean_of_idOf? (hs : s.IsClean) {path : String} {id : Nat} (hid : s.idOf? path = some id) :
    Path.clean path = path :=
  hs path (mem_paths_iff.2 ⟨id, idOf?_iff.1 hid⟩)

/-- An id is found under every spelling of its path, and under no other path. -/
theorem contextId?_eq_iff {p q : String} {id : Nat} (hp : s.contextId? p = some id) :
    s.contextId? q = some id ↔ Path.clean p = Path.clean q := by
  constructor
  · intro hq
    have hpath := idOf?_iff.1 hp
    rw [idOf?_iff.1 hq, Option.some.injEq] at hpath
    exact hpath.symm
  · intro heq
    rw [contextId?, ← heq]
    exact hp

theorem countP_contextId (s : Store) {id : Nat} {path : String} (hid : s.path? id = some path) :
    s.refs.countP (·.contextId = id) = 1 := by
  have hids : s.refs.map (·.contextId) = List.range' 1 s.projects.size := by
    rw [← s.dense, refs, List.map_map]
    rfl
  have hmem : id ∈ s.refs.map (·.contextId) :=
    List.mem_map.2 ⟨⟨id, path⟩, mem_refs.2 hid, rfl⟩
  have hone := List.count_eq_one_of_mem (hids ▸ List.nodup_range') hmem
  rwa [List.count, List.countP_map] at hone

theorem countP_path (s : Store) {id : Nat} {path : String} (hid : s.path? id = some path) :
    s.refs.countP (·.path = path) = 1 := by
  have hpaths : s.refs.map (·.path) = s.byPath.keys := by
    rw [← paths_eq_keys, refs, List.map_map, paths, Table.values, List.map_map]
    rfl
  have hmem : path ∈ s.refs.map (·.path) :=
    List.mem_map.2 ⟨⟨id, path⟩, mem_refs.2 hid, rfl⟩
  have hone := List.count_eq_one_of_mem (hpaths ▸ s.distinct) hmem
  rwa [List.count, List.countP_map] at hone

/-! ### Growth -/

/-- One store comes from another by tracking some new projects, apart from what is known of them. -/
structure Gains (s s' : Store) (new : List ProjectRef) : Prop where
  refs : s'.refs = s.refs ++ new
  clean : s.IsClean → s'.IsClean

theorem Gains.of_paths (h : s'.paths = s.paths) : Gains s s' [] where
  refs := by rw [refs_congr h, List.append_nil]
  clean hs path hpath := hs path (h ▸ hpath)

theorem Gains.of_headings (h : s'.headings = s.headings) : Gains s s' [] :=
  .of_paths (paths_congr h)

theorem Gains.trans {new new' : List ProjectRef} (h : Gains s s' new) (h' : Gains s' s'' new') :
    Gains s s'' (new ++ new') where
  refs := by rw [h'.refs, h.refs, List.append_assoc]
  clean hs := h'.clean (h.clean hs)

/-- A project that is there stays there under its id. -/
theorem Gains.path {new : List ProjectRef} (h : Gains s s' new) {id : Nat} {path : String}
    (hid : s.path? id = some path) : s'.path? id = some path := by
  have hmem : (⟨id, path⟩ : ProjectRef) ∈ s'.refs := by
    rw [h.refs]
    exact List.mem_append_left _ (mem_refs.2 hid)
  exact mem_refs.1 hmem

/-- What tracking a path announces: the project if it is new. -/
def trackedNew (s : Store) (path : String) : List ProjectRef :=
  if (s.track path).2.2 then [(s.track path).2.1] else []

theorem paths_addProject (s : Store) {path : String} (hnew : s.idOf? path = none) :
    (s.addProject path hnew).paths = s.paths ++ [path] := by
  rw [paths_eq_keys, paths_eq_keys]
  exact Table.keys_put_of_notMem _ ((Table.get?_eq_none_iff _ _).1 hnew) _

theorem refs_addProject (s : Store) {path : String} (hnew : s.idOf? path = none) :
    (s.addProject path hnew).refs = s.refs ++ [⟨s.nextId, path⟩] := by
  rw [refs, addProject, Table.entries_put_of_notMem _ s.nextId_notMem, List.map_append]
  rfl

theorem gains_track (s : Store) (path : String) : Gains s (s.track path).1 (s.trackedNew path) := by
  unfold trackedNew
  cases hid : s.idOf? (Path.clean path) with
  | some id =>
      rw [track_of_known hid]
      exact Gains.of_paths rfl
  | none =>
      rw [track_of_unknown hid, if_pos rfl]
      refine ⟨refs_addProject s hid, fun hs q hq => ?_⟩
      rw [paths_addProject, List.mem_append, List.mem_singleton] at hq
      rcases hq with hq | rfl
      · exact hs q hq
      · exact Path.clean_clean path

end Store

namespace Reconciler

open Store

variable {r : Reconciler}

/-! ### Operations that track nothing -/

@[simp] theorem headings_variantFor (r : Reconciler) (id : Nat) (framework : Framework) :
    (r.variantFor id framework).1.store.headings = r.store.headings := by
  unfold variantFor
  split
  · rfl
  · exact headings_addVariant r.store id _

@[simp] theorem headings_register (r : Reconciler) (id : Nat) (h : Handle) :
    (r.register id h).store.headings = r.store.headings := by
  unfold register
  split
  · rename_i p v hp hv
    split
    · rfl
    · have hcall := (r.attempt_untouched "adding project" id h
        (.addProject (v.framework.projectInfo h p.name p.path))).store
      split <;> rename_i heq <;> rw [heq] at hcall
      · exact congrArg headings hcall
      · rename_i r'
        have hall := (((r'.modifyVariant h fun v => { v with registered := true }).sendOptions id v).carryOutAll_store
          "resolving pending reference" id h (v.pending.map fun k => .addProjectReference k h))
        rw [carryOutAll, List.foldl_map] at hall
        rw [modifyVariant_store, headings_modifyVariant, hall, sendOptions_store, modifyVariant_store,
          headings_modifyVariant, hcall]
  · rfl

theorem headings_foldl_withdrawEdge (path : String) (p : Project) (h : Handle) (targets : List Handle)
    (s : Store) : (targets.foldl (withdrawEdge path p h) s).headings = s.headings :=
  List.foldlRecOn targets (withdrawEdge path p h) (motive := fun t => t.headings = s.headings) rfl
    fun t ht target _ => (headings_modifyVariant t target _).trans ht

@[simp] theorem headings_teardown (r : Reconciler) (id : Nat) (h : Handle) :
    (r.teardown id h).store.headings = r.store.headings := by
  unfold teardown
  dsimp only
  split
  · split
    · split <;> simp [headings_foldl_withdrawEdge]
    · simp [headings_foldl_withdrawEdge]
  · rfl

theorem headings_listFramework (id : Nat) (r : Reconciler) (framework : Framework) :
    (listFramework id r framework).store.headings = r.store.headings := by
  unfold listFramework
  simp

theorem headings_ownVariant (r : Reconciler) (id : Nat) (framework : Framework) :
    (r.ownVariant id framework).1.store.headings = r.store.headings := by
  unfold ownVariant
  simp

theorem paths_applyProjectInformation (r : Reconciler) (id : Nat) (info : ProjectInformation) :
    (r.applyProjectInformation id info).store.paths = r.store.paths := by
  have hdescribe : (describeIn r.store id info).paths = r.store.paths :=
    paths_modifyProject r.store id _ _
  unfold applyProjectInformation
  dsimp only
  refine List.foldlRecOn _ (listFramework id) (motive := fun r' => r'.store.paths = r.store.paths) ?_
    fun r' hr' framework _ => (paths_congr (headings_listFramework id r' framework)).trans hr'
  refine List.foldlRecOn _ (fun (r' : Reconciler) h => r'.teardown id h)
    (motive := fun r' => r'.store.paths = r.store.paths) ?_
    fun r' hr' h _ => (paths_congr (headings_teardown r' id h)).trans hr'
  exact hdescribe

theorem headings_addEntry (slot : Slot) (id : Nat) (h : Handle) (r : Reconciler) (item : Slot.Item) :
    (addEntry slot id h r item).store.headings = r.store.headings := by
  unfold addEntry
  split
  · rfl
  · split
    · rfl
    · have hcall := (r.fresh.1.attempt_untouched slot.addition id h (slot.addCall h r.fresh.2 item)).store
      dsimp only
      split <;> rename_i heq <;> rw [heq] at hcall
      · rw [modifyVariant_store, headings_modifyVariant]
        exact congrArg headings hcall
      · exact congrArg headings hcall

theorem headings_setEntries (slot : Slot) (id : Nat) (h : Handle) (r : Reconciler) (items : List Slot.Item) :
    (setEntries slot id h r items).store.headings = r.store.headings := by
  unfold setEntries
  refine List.foldlRecOn items (addEntry slot id h) (motive := fun r' => r'.store.headings = r.store.headings) ?_
    fun r' hr' item _ => (headings_addEntry slot id h r' item).trans hr'
  refine List.foldlRecOn _ (dropEntry slot id h) (motive := fun r' => r'.store.headings = r.store.headings) rfl
    fun r' hr' entry _ => ?_
  rw [dropEntry, modifyVariant_store, headings_modifyVariant, carryOut_store]
  exact hr'

theorem headings_dropProject (id : Nat) (h : Handle) (r : Reconciler) (edge : String × Handle) :
    (dropProject id h r edge).store.headings = r.store.headings := by
  unfold dropProject
  dsimp only
  split
  · split <;> split <;> simp
  · simp

theorem headings_link (id : Nat) (h : Handle) (r : Reconciler) (p : Project) (path : String)
    (target : Handle) : (link id h r p path target).store.headings = r.store.headings := by
  unfold link
  dsimp only
  split <;> simp

theorem headings_setOptions (id : Nat) (h : Handle) (r : Reconciler) (options : CompilerOptions) :
    (setOptions id h r options).store.headings = r.store.headings := by
  unfold setOptions
  dsimp only
  split
  · split <;> simp
  · simp

/-! ### Messages -/

/-- Each reference that is added tracks its project, and passes it on if it is new. -/
theorem gains_addProject (id : Nat) (h : Handle) (state : Reconciler × List ProjectRef)
    (edge : String × Framework) :
    ∃ new, (addProject id h state edge).2 = state.2 ++ new ∧
      Gains state.1.store (addProject id h state edge).1.store new := by
  obtain ⟨r, added⟩ := state
  unfold addProject
  dsimp only
  split
  · split
    · exact ⟨[], (List.append_nil _).symm, Gains.of_paths rfl⟩
    · refine ⟨r.store.trackedNew edge.1, ?_, ?_⟩
      · unfold trackedNew
        split
        · rfl
        · exact (List.append_nil _).symm
      · rw [← List.append_nil (r.store.trackedNew edge.1)]
        refine (gains_track r.store edge.1).trans (Gains.of_headings ?_)
        rw [headings_link, headings_variantFor]
  · exact ⟨[], (List.append_nil _).symm, Gains.of_paths rfl⟩

theorem gains_foldl_addProject (id : Nat) (h : Handle) (edges : List (String × Framework))
    (state : Reconciler × List ProjectRef) :
    ∃ new, (edges.foldl (addProject id h) state).2 = state.2 ++ new ∧
      Gains state.1.store (edges.foldl (addProject id h) state).1.store new := by
  induction edges generalizing state with
  | nil => exact ⟨[], (List.append_nil _).symm, Gains.of_paths rfl⟩
  | cons edge rest ih =>
      obtain ⟨new, hadded, hgains⟩ := gains_addProject id h state edge
      obtain ⟨new', hadded', hgains'⟩ := ih (addProject id h state edge)
      refine ⟨new ++ new', ?_, hgains.trans hgains'⟩
      rw [List.foldl_cons, hadded', hadded, List.append_assoc]

theorem gains_applyReferences (r : Reconciler) (id : Nat) (refs : References) :
    Gains r.store (r.applyReferences id refs).1.store (r.applyReferences id refs).2 := by
  obtain ⟨⟨r', h⟩, hown⟩ : ∃ result, r.ownVariant id refs.framework = result := ⟨_, rfl⟩
  have hr' : r'.store.headings = r.store.headings := by
    have hown' := headings_ownVariant r id refs.framework
    rwa [hown] at hown'
  unfold applyReferences setReferences setProjects
  simp only [hown]
  obtain ⟨new, hadded, hgains⟩ := gains_foldl_addProject id h (targets refs).entries (_, [])
  rw [List.nil_append] at hadded
  rw [hadded, ← List.nil_append new]
  refine Gains.trans (Gains.of_headings ?_) hgains
  refine List.foldlRecOn _ (dropProject id h) (motive := fun x => x.store.headings = r.store.headings) ?_
    fun x hx edge _ => (headings_dropProject id h x edge).trans hx
  rw [headings_setEntries, headings_setEntries, hr']

/-- The new projects that a list of notices tells of. -/
def addedRefs (notices : List Notice) : List ProjectRef :=
  notices.filterMap fun
    | .added ref => some ref
    | _ => none

theorem addedRefs_append (a b : List Notice) : addedRefs (a ++ b) = addedRefs a ++ addedRefs b :=
  List.filterMap_append

theorem addedRefs_added (refs : List ProjectRef) : addedRefs (refs.map .added) = refs := by
  rw [addedRefs, List.filterMap_map]
  exact List.filterMap_some

theorem addedRefs_loadedNotice (r : Reconciler) (ref : ProjectRef) : addedRefs (r.loadedNotice ref) = [] := by
  unfold loadedNotice
  split
  · split <;> rfl
  · rfl

theorem addedRefs_changedNotice (r : Reconciler) (id : Nat) : addedRefs (r.changedNotice id) = [] := by
  unfold changedNotice
  split <;> rfl

/-- A message tracks the projects that its notices tell of, and no others. -/
theorem gains_applyPayload (r : Reconciler) (ref : ProjectRef) (payload : Payload) :
    Gains r.store (r.applyPayload ref payload).1.store (addedRefs (r.applyPayload ref payload).2) := by
  cases payload with
  | projectInformation info =>
      simp only [applyPayload, addedRefs_append, addedRefs_changedNotice, addedRefs_loadedNotice]
      exact Gains.of_paths (paths_applyProjectInformation r ref.contextId info)
  | references refs =>
      simp only [applyPayload, addedRefs_append, addedRefs_added, addedRefs_loadedNotice, List.append_nil]
      exact gains_applyReferences r ref.contextId refs
  | dependencies deps =>
      have hnone : addedRefs (if deps.unresolved.isEmpty then []
          else [.emit (.unresolvedDependencies ref.path deps.unresolved), .unresolved ref]) = [] := by
        split <;> rfl
      simp only [applyPayload, addedRefs_append, hnone, addedRefs_loadedNotice]
      exact Gains.of_headings (headings_ownVariant r ref.contextId deps.framework)
  | compilerOptions options =>
      simp only [applyPayload, addedRefs_loadedNotice]
      refine Gains.of_headings ?_
      unfold applyCompilerOptions
      rw [headings_setOptions, headings_ownVariant]
  | sources sources =>
      simp only [applyPayload, addedRefs_append, addedRefs_changedNotice, addedRefs_loadedNotice]
      refine Gains.of_headings ?_
      unfold applySources setSources
      rw [modifyVariant_store, headings_modifyVariant, headings_setEntries, headings_ownVariant]
  | hostError e =>
      simp only [applyPayload, addedRefs_append, addedRefs_loadedNotice]
      exact Gains.of_paths rfl
  | unknown type raw => exact Gains.of_paths rfl

theorem gains_apply (r : Reconciler) (m : Message) :
    Gains r.store (r.apply m).1.store (addedRefs (r.apply m).2) := by
  unfold apply
  dsimp only
  split
  · exact Gains.of_paths rfl
  · exact Gains.of_paths rfl
  · split
    · exact Gains.of_paths rfl
    · exact gains_applyPayload (r.countMessage m.type) _ _

/-! ### Runs -/

/-- What the owner of a graph can do: track a path, record the settings of a project or that it has been
sent to the host, and apply a message of the host; the order of visiting may change before any message. -/
inductive Operation where
  | track (path : String)
  | updateSettings (id : Int) (searchPaths : List String) (settingsPath : String)
  | markInitialized (id : Int)
  | visit (order : Visiting)
  | apply (message : Message)

/-- The reconciler with another graph, if there is one. -/
def withStore? (r : Reconciler) : Except Fault Store → Reconciler
  | .ok store => { r with store := store }
  | .error _ => r

def operate (r : Reconciler) : Operation → Reconciler
  | .track path => (r.track path).1
  | .updateSettings id searchPaths settingsPath =>
    r.withStore? (r.store.updateSettings id searchPaths settingsPath)
  | .markInitialized id => r.withStore? (r.store.markInitialized id)
  | .visit order => r.visit order
  | .apply message => (r.apply message).1

/-- The projects that an operation announces as new: tracking says so in its answer, a message by its
notices. -/
def announced (r : Reconciler) : Operation → List ProjectRef
  | .track path => if (r.track path).2.2 then [(r.track path).2.1] else []
  | .updateSettings _ _ _ => []
  | .markInitialized _ => []
  | .visit _ => []
  | .apply message => addedRefs (r.apply message).2

def operateAll (r : Reconciler) (ops : List Operation) : Reconciler :=
  ops.foldl operate r

/-- All that is announced in a run. -/
def announcements (r : Reconciler) : List Operation → List ProjectRef
  | [] => []
  | op :: rest => r.announced op ++ (r.operate op).announcements rest

theorem updateSettings_eq {s s' : Store} {id : Int} {searchPaths : List String} {settingsPath : String}
    (h : s.updateSettings id searchPaths settingsPath = .ok s') :
    s' = s.modifyProject id.toNat
      (fun p => { p with searchPaths := searchPaths, globalSettingsPath := settingsPath }) fun _ => rfl := by
  unfold updateSettings at h
  split at h
  · cases h
  · exact (Except.ok.inj h).symm

theorem markInitialized_eq {s s' : Store} {id : Int} (h : s.markInitialized id = .ok s') :
    s' = s.modifyProject id.toNat (fun p => { p with initializeSent := true }) fun _ => rfl := by
  unfold markInitialized at h
  split at h
  · cases h
  · exact (Except.ok.inj h).symm

theorem paths_withStore? {s : Except Fault Store} (id : Nat) {f : Project → Project}
    {hf : ∀ p, (f p).path = p.path} (hs : ∀ store, s = .ok store → store = r.store.modifyProject id f hf) :
    (r.withStore? s).store.paths = r.store.paths := by
  cases s with
  | error fault => rfl
  | ok store =>
      rw [hs store rfl]
      exact paths_modifyProject r.store id f hf

theorem gains_operate (r : Reconciler) (op : Operation) :
    Gains r.store (r.operate op).store (r.announced op) := by
  cases op with
  | track path => exact gains_track r.store path
  | updateSettings id searchPaths settingsPath =>
      exact Gains.of_paths (paths_withStore? id.toNat fun _ => updateSettings_eq)
  | markInitialized id =>
      exact Gains.of_paths (paths_withStore? id.toNat fun _ => markInitialized_eq)
  | visit order => exact Gains.of_paths rfl
  | apply message => exact gains_apply r message

/-- **Growth along a run.** The graph gains exactly the projects that are announced, in their order. -/
theorem gains_operateAll (r : Reconciler) (ops : List Operation) :
    Gains r.store (r.operateAll ops).store (r.announcements ops) := by
  induction ops generalizing r with
  | nil => exact Gains.of_paths rfl
  | cons op rest ih => exact (gains_operate r op).trans (ih (r.operate op))

theorem announcements_facing (extension : String) (outages : Outages Workspace.Method)
    (ops : List Operation) :
    (facing extension outages).announcements ops = ((facing extension outages).operateAll ops).store.refs :=
  (gains_operateAll (facing extension outages) ops).refs.symm

theorem isClean_operateAll (extension : String) (outages : Outages Workspace.Method)
    (ops : List Operation) : ((facing extension outages).operateAll ops).store.IsClean :=
  (gains_operateAll (facing extension outages) ops).clean isClean_empty

/-- **Context ids are stable and dense, and every project is announced once.** After every run, whichever
workspace calls fail, the table of projects by id and the table of ids by path are inverse to each other;
the paths are clean, the ids are those from one up to the next one, and a new path gets that one. What a
run has once tracked stays under its id in whatever follows. Two spellings share an id exactly if they
clean to the same path. The announcements of the run, the answers of tracking and the notices of messages
taken together, name the tracked projects and nothing else, each of them once. -/
theorem context_ids_announced_once (extension : String) (outages : Outages Workspace.Method)
    (ops later : List Operation) :
    let r := (facing extension outages).operateAll ops
    let announced := (facing extension outages).announcements ops
    (∀ path id, r.store.byPath.get? path = some id ↔
      (r.store.projects.get? id).map (·.path) = some path) ∧
    (∀ path id, r.store.byPath.get? path = some id → Path.clean path = path) ∧
    (∀ id : Int, (r.store.project? id).isSome = true ↔ 1 ≤ id ∧ id < r.store.nextId) ∧
    (∀ path, r.store.contextId? path = none →
      (r.track path).2 = (⟨r.store.nextId, Path.clean path⟩, true) ∧
      (r.track path).1.store.nextId = r.store.nextId + 1) ∧
    (∀ id path, r.store.path? id = some path → (r.operateAll later).store.path? id = some path) ∧
    (∀ path id, r.store.contextId? path = some id →
      (r.operateAll later).store.contextId? path = some id) ∧
    (∀ p q id, r.store.contextId? p = some id →
      (r.store.contextId? q = some id ↔ Path.clean p = Path.clean q)) ∧
    (∀ ref ∈ announced, r.store.path? ref.contextId = some ref.path) ∧
    ∀ id path, r.store.path? id = some path →
      announced.countP (·.contextId = id) = 1 ∧ announced.countP (·.path = path) = 1 := by
  intro r announced
  have hs : r.store.IsClean := isClean_operateAll extension outages ops
  have hgains : Gains r.store (r.operateAll later).store _ := gains_operateAll r later
  have hall : announced = r.store.refs := announcements_facing extension outages ops
  refine ⟨fun path id => idOf?_iff, fun path id => hs.clean_of_idOf?, r.store.project?_isSome_iff, ?_, ?_, ?_,
    ?_, ?_, ?_⟩
  · intro path hnone
    have htrack : r.store.track path =
        (r.store.addProject (Path.clean path) hnone, ⟨r.store.nextId, Path.clean path⟩, true) :=
      track_of_unknown hnone
    unfold Reconciler.track
    rw [htrack]
    exact ⟨rfl, rfl⟩
  · exact fun id path => hgains.path
  · intro path id hid
    exact idOf?_iff.2 (hgains.path (idOf?_iff.1 hid))
  · exact fun p q id => contextId?_eq_iff
  · intro ref hmem
    rw [hall] at hmem
    exact mem_refs.1 hmem
  · intro id path hid
    rw [hall]
    exact ⟨r.store.countP_contextId hid, r.store.countP_path hid⟩

end Reconciler

end CompilationBridge.Graph
