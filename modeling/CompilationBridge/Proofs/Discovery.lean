import CompilationBridge.Proofs.Graph.Tracking
import CompilationBridge.Proofs.Paths
import CompilationBridge.Server

/-! Discovery by what is there. Where no look for a file or at a directory fails, projects are found: the
search paths are those that the settings file lists, or the root, and the manifests are those that stand in
the search paths and one step below them, each once, in the order in which one comes by them first. A graph
that knows no projects then tracks them under the ids from one on. -/

namespace CompilationBridge

namespace Discovery

/-- Files on which no look fails, although a file may not be readable. -/
structure Tree where
  isFile : String → Bool
  isDirectory : String → Bool
  entries : String → List FileTree.Entry
  read : String → Except Fault String

namespace Tree

def view (t : Tree) : FileView where
  fileExists path := .ok (t.isFile path)
  directoryExists path := .ok (t.isDirectory path)
  list path := .ok (t.entries path)
  read := t.read

/-- What the settings file lists: nothing if it is not there, cannot be read or cannot be decoded. -/
def listed (t : Tree) (root : String) : List String :=
  let settings := Path.append root Manifest.settingsFileName
  if t.isFile settings then
    match t.read settings with
    | .ok text => ((SolutionSettings.parse? text).bind (·.projects)).getD []
    | .error _ => []
  else []

def searchPaths (t : Tree) (root : String) : List String :=
  if t.listed root = [] then [root]
  else (t.listed root).map fun path =>
    Path.clean (if Path.isAbsolute path then path else root ++ "/" ++ path)

/-- Where the manifests of a search path may be: in it and in its sub-directories. -/
def placesIn (t : Tree) (path : String) : List String :=
  if t.isDirectory path then
    Path.clean (path ++ "/" ++ Manifest.fileName) ::
      ((t.entries path).filter (·.isDirectory)).map fun e =>
        Path.clean (path ++ "/" ++ e.name ++ "/" ++ Manifest.fileName)
  else []

def places (t : Tree) (root : String) : List String :=
  (t.searchPaths root).flatMap t.placesIn

/-- A manifest is added if it is there and was not found before. -/
def keep (t : Tree) (found : List String) (path : String) : List String :=
  if path ∉ found ∧ t.isFile path = true then found ++ [path] else found

variable {t : Tree} {root path : String} {found : List String}

/-! ### Search paths -/

theorem searchPath_eq (hroot : root ≠ "") (path : String) :
    searchPath root path = Path.clean (if Path.isAbsolute path then path else root ++ "/" ++ path) := by
  unfold searchPath
  split
  · rfl
  · exact Path.append_eq hroot path

theorem searchPaths_view (t : Tree) (hroot : root ≠ "") :
    ∃ settings logs, Discovery.searchPaths t.view root = .ok (t.searchPaths root, settings, logs) := by
  have hmap (listed : List String) : listed.map (searchPath root) =
      listed.map fun path => Path.clean (if Path.isAbsolute path then path else root ++ "/" ++ path) :=
    List.map_congr_left fun path _ => searchPath_eq hroot path
  unfold Discovery.searchPaths searchPaths listed
  cases hfile : t.isFile (Path.append root Manifest.settingsFileName) with
  | false => exact ⟨_, _, by simp [view, hfile]; rfl⟩
  | true =>
      simp only [view, hfile, listedPaths]
      cases hread : t.read (Path.append root Manifest.settingsFileName) with
      | error fault => exact ⟨_, _, rfl⟩
      | ok text =>
          simp only [bind, Except.bind]
          cases hparse : SolutionSettings.parse? text with
          | none => exact ⟨_, _, rfl⟩
          | some settings =>
              simp only [hmap]
              cases hlist : settings.projects.getD [] with
              | nil => exact ⟨Path.append root Manifest.settingsFileName, [], by simp [hlist]⟩
              | cons first rest => exact ⟨Path.append root Manifest.settingsFileName, [], by simp [hlist]⟩

theorem ne_empty_of_mem_searchPaths (hroot : root ≠ "") (hpath : path ∈ t.searchPaths root) : path ≠ "" := by
  unfold searchPaths at hpath
  split at hpath
  · exact List.mem_singleton.1 hpath ▸ hroot
  · obtain ⟨listed, -, rfl⟩ := List.mem_map.1 hpath
    exact Path.clean_ne_empty _

/-! ### Manifests -/

theorem addManifest_view (t : Tree) (found : List String) (path : String) :
    addManifest t.view found path = .ok (t.keep found path) := by
  unfold addManifest keep
  by_cases hfound : path ∈ found
  · simp [hfound]
    rfl
  · cases hfile : t.isFile path <;> simp [hfound, hfile, view] <;> rfl

theorem foldlM_addManifest (t : Tree) (found paths : List String) :
    paths.foldlM (addManifest t.view) found = .ok (paths.foldl t.keep found) := by
  rw [show addManifest t.view = fun found path => pure (t.keep found path) from
    funext fun found => funext (t.addManifest_view found)]
  exact List.foldlM_pure

theorem candidates_eq (hpath : path ≠ "") (entries : List FileTree.Entry) :
    candidates path entries = (entries.filter (·.isDirectory)).map fun e =>
      Path.clean (path ++ "/" ++ e.name ++ "/" ++ Manifest.fileName) :=
  List.map_congr_left fun e _ => Path.append_append hpath e.name Manifest.fileName

theorem addSearchPath_view (t : Tree) (found : List String) (hpath : path ≠ "") :
    addSearchPath t.view found path = .ok ((t.placesIn path).foldl t.keep found) := by
  change (if t.isDirectory path = true then
    addManifest t.view found (Path.append path Manifest.fileName) >>= fun found =>
      (candidates path (t.entries path)).foldlM (addManifest t.view) found
    else .ok found) = _
  unfold placesIn
  split
  · rw [addManifest_view, candidates_eq hpath, Path.append_eq hpath]
    exact t.foldlM_addManifest _ _
  · rfl

theorem foldlM_addSearchPath (t : Tree) (found : List String) {paths : List String}
    (hpaths : ∀ path ∈ paths, path ≠ "") :
    paths.foldlM (addSearchPath t.view) found = .ok ((paths.flatMap t.placesIn).foldl t.keep found) := by
  induction paths generalizing found with
  | nil => rfl
  | cons path rest ih =>
      rw [List.foldlM_cons, addSearchPath_view t found (hpaths path List.mem_cons_self), List.flatMap_cons,
        List.foldl_append]
      exact ih _ fun p hp => hpaths p (List.mem_cons_of_mem path hp)

/-- What was found among the places that were seen: those with a manifest, as they first came. -/
structure Firsts (t : Tree) (seen found : List String) : Prop where
  mem : ∀ m, m ∈ found ↔ m ∈ seen ∧ t.isFile m = true
  order : found.Pairwise fun a b => seen.idxOf a < seen.idxOf b

theorem Firsts.nodup {seen : List String} (h : Firsts t seen found) : found.Nodup :=
  h.order.imp fun {a b} hlt (heq : a = b) => Nat.lt_irrefl _ (heq ▸ hlt)

theorem Firsts.keep {seen : List String} (h : Firsts t seen found) (path : String) :
    Firsts t (seen ++ [path]) (t.keep found path) := by
  have hseen {m : String} (hm : m ∈ found) : (seen ++ [path]).idxOf m = seen.idxOf m :=
    List.idxOf_append_of_mem ((h.mem m).1 hm).1
  have horder : found.Pairwise fun a b => (seen ++ [path]).idxOf a < (seen ++ [path]).idxOf b :=
    h.order.imp_of_mem fun ha hb hlt => by rwa [hseen ha, hseen hb]
  unfold Tree.keep
  split
  · rename_i hnew
    have hunseen : path ∉ seen := fun hmem => hnew.1 ((h.mem path).2 ⟨hmem, hnew.2⟩)
    refine ⟨fun m => ?_, ?_⟩
    · rw [List.mem_append, List.mem_append, List.mem_singleton, h.mem]
      constructor
      · rintro (⟨hm, hfile⟩ | rfl)
        · exact ⟨Or.inl hm, hfile⟩
        · exact ⟨Or.inr rfl, hnew.2⟩
      · rintro ⟨hm, hfile⟩
        exact hm.imp_left fun hm => ⟨hm, hfile⟩
    · rw [List.pairwise_append]
      refine ⟨horder, List.pairwise_singleton _ _, fun a ha b hb => ?_⟩
      rw [List.mem_singleton.1 hb, hseen ha, List.idxOf_append_of_notMem hunseen]
      have := List.idxOf_lt_length_of_mem ((h.mem a).1 ha).1
      omega
  · rename_i hold
    refine ⟨fun m => ?_, horder⟩
    rw [List.mem_append, List.mem_singleton]
    constructor
    · exact fun hm => ⟨Or.inl ((h.mem m).1 hm).1, ((h.mem m).1 hm).2⟩
    · rintro ⟨hm | rfl, hfile⟩
      · exact (h.mem m).2 ⟨hm, hfile⟩
      · by_contra hm
        exact hold ⟨hm, hfile⟩

theorem Firsts.foldl_keep {seen : List String} (h : Firsts t seen found) (paths : List String) :
    Firsts t (seen ++ paths) (paths.foldl t.keep found) := by
  induction paths generalizing seen found with
  | nil => rwa [List.append_nil]
  | cons path rest ih =>
      rw [List.append_cons]
      exact ih (h.keep path)

theorem mem_placesIn (t : Tree) (path m : String) : m ∈ t.placesIn path ↔ t.isDirectory path = true ∧
    (m = Path.clean (path ++ "/" ++ Manifest.fileName) ∨
      ∃ e ∈ t.entries path, e.isDirectory = true ∧
        m = Path.clean (path ++ "/" ++ e.name ++ "/" ++ Manifest.fileName)) := by
  unfold placesIn
  split
  · rename_i hdirectory
    simp only [hdirectory, List.mem_cons, List.mem_map, List.mem_filter, true_and, and_assoc, eq_comm]
  · rename_i hdirectory
    simp [hdirectory]

theorem clean_of_mem_places {m : String} (hm : m ∈ t.places root) : Path.clean m = m := by
  obtain ⟨path, -, hm⟩ := List.mem_flatMap.1 hm
  obtain ⟨-, rfl | ⟨e, -, -, rfl⟩⟩ := (t.mem_placesIn path m).1 hm
  · exact Path.clean_clean _
  · exact Path.clean_clean _

/-- The manifests that are there, as one comes by them first. -/
def manifests (t : Tree) (root : String) : List String :=
  (t.places root).foldl t.keep []

theorem Firsts.nil (t : Tree) : Firsts t [] [] where
  mem := by simp
  order := List.Pairwise.nil

theorem firsts_manifests (t : Tree) (root : String) : Firsts t (t.places root) (t.manifests root) :=
  (Firsts.nil t).foldl_keep (t.places root)

theorem discover_view (t : Tree) (hroot : root ≠ "") : ∃ settings logs,
    discover t.view root = (.ok ⟨t.manifests root, t.searchPaths root, settings⟩, logs) := by
  obtain ⟨settings, logs, hpaths⟩ := t.searchPaths_view hroot
  refine ⟨settings, logs, ?_⟩
  unfold discover
  rw [hpaths]
  dsimp only
  rw [t.foldlM_addSearchPath [] fun path hpath => ne_empty_of_mem_searchPaths hroot hpath]
  rfl

end Tree

end Discovery

namespace Server

open CompilationBridge.Graph (ProjectRef)
open CompilationBridge.Graph.Store (track_of_unknown idOf?_eq_none_iff mem_paths_iff nextId_eq paths_addProject
  paths_modifyProject)
open ProjectSystem (Task)

variable {s : Server} {m : String}

/-- The tasks that follow when a project is tracked. -/
def watching (project : ProjectRef) : List Task :=
  [.watchManifest project, .watchLockFile project]

/-- A manifest that is not known gets the next id. -/
theorem trackManifest_of_new (found : Discovery.Found) (tasks : List Task) (hclean : Path.clean m = m)
    (hnew : m ∉ s.reconciler.store.paths) :
    (trackManifest found (s, tasks) m).1.reconciler.store.paths = s.reconciler.store.paths ++ [m] ∧
      (trackManifest found (s, tasks) m).2 = tasks ++ watching ⟨s.reconciler.store.paths.length + 1, m⟩ := by
  have hunknown : s.reconciler.store.idOf? (Path.clean m) = none := by
    rw [hclean]
    exact idOf?_eq_none_iff.2 fun id hid => hnew (mem_paths_iff.2 ⟨id, hid⟩)
  have hpaths : (s.reconciler.store.addProject (Path.clean m) hunknown).paths =
      s.reconciler.store.paths ++ [m] := by
    rw [paths_addProject, hclean]
  simp only [trackManifest, Graph.Reconciler.track, track_of_unknown hunknown]
  refine ⟨?_, by rw [hclean, nextId_eq]; rfl⟩
  split
  · rename_i hupdated
    rw [Graph.Reconciler.updateSettings_eq hupdated, paths_modifyProject, hpaths]
  · exact hpaths

/-- Manifests that are not known get the next ids in their order. -/
theorem foldl_trackManifest (found : Discovery.Found) (ms : List String) (s : Server) (tasks : List Task)
    (hclean : ∀ m ∈ ms, Path.clean m = m) (hnew : (s.reconciler.store.paths ++ ms).Nodup) :
    (ms.foldl (trackManifest found) (s, tasks)).1.reconciler.store.paths = s.reconciler.store.paths ++ ms ∧
      (ms.foldl (trackManifest found) (s, tasks)).2 = tasks ++
        (ms.zipIdx s.reconciler.store.paths.length).flatMap fun e => watching ⟨e.2 + 1, e.1⟩ := by
  induction ms generalizing s tasks with
  | nil => simp
  | cons m rest ih =>
      rw [List.append_cons] at hnew
      have hm : m ∉ s.reconciler.store.paths := fun hmem =>
        (List.nodup_append.1 (List.nodup_append.1 hnew).1).2.2 m hmem m (List.mem_singleton.2 rfl) rfl
      obtain ⟨hpaths, htasks⟩ := trackManifest_of_new found tasks (hclean m List.mem_cons_self) hm
      obtain ⟨hpaths', htasks'⟩ := ih (trackManifest found (s, tasks) m).1 (trackManifest found (s, tasks) m).2
        (fun m' hm' => hclean m' (List.mem_cons_of_mem m hm')) (by rwa [hpaths])
      rw [List.foldl_cons]
      refine ⟨hpaths'.trans ?_, htasks'.trans ?_⟩
      · rw [hpaths, ← List.append_cons]
      · rw [hpaths, htasks, List.zipIdx_cons, List.flatMap_cons, List.append_assoc, List.length_append,
          List.length_singleton]

theorem load_of_found {view : Discovery.FileView} {folder hostId : String} {projects : ProjectSystem}
    {found : Discovery.Found} {logs : List LogRecord} (hclaim : s.projects.claim hostId = .ok projects)
    (hfound : Discovery.discover view (Path.clean folder) = (.ok found, logs)) :
    s.load view folder hostId =
      let loaded := found.manifests.foldl (trackManifest found) ({ s with projects := projects }, [])
      (loaded.1, .ok loaded.2, logs) := by
  simp only [load, hclaim, hfound]

/-- A server that knows no projects tracks what was found under the ids from one on. -/
theorem load_view (t : Discovery.Tree) (folder hostId : String) (hopen : s.projects.isInitialized = false)
    (hempty : s.reconciler.store = {}) : ∃ s' tasks logs,
    s.load t.view folder hostId = (s', .ok tasks, logs) ∧
      s'.reconciler.store.refs = (t.manifests (Path.clean folder)).zipIdx.map (fun e => ⟨e.2 + 1, e.1⟩) ∧
      tasks = s'.reconciler.store.refs.flatMap watching := by
  obtain ⟨settings, logs, hfound⟩ := t.discover_view (Path.clean_ne_empty folder)
  have hclaim : s.projects.claim hostId = .ok { s.projects with isInitialized := true, hostId := hostId } := by
    rw [ProjectSystem.claim, hopen]
    rfl
  have hload := load_of_found hclaim hfound
  have hfirsts := t.firsts_manifests (Path.clean folder)
  have hnone : s.reconciler.store.paths = [] := by
    rw [hempty]
    rfl
  obtain ⟨hpaths, htasks⟩ := foldl_trackManifest
    ⟨t.manifests (Path.clean folder), t.searchPaths (Path.clean folder), settings⟩
    (t.manifests (Path.clean folder))
    { s with projects := { s.projects with isInitialized := true, hostId := hostId } } []
    (fun m hm => Discovery.Tree.clean_of_mem_places ((hfirsts.mem m).1 hm).1) (hnone ▸ hfirsts.nodup)
  rw [hnone, List.nil_append] at hpaths
  rw [hnone, List.nil_append] at htasks
  refine ⟨_, _, logs, hload, ?_, ?_⟩
  · rw [Graph.Store.refs_eq, hpaths]
  · rw [htasks, Graph.Store.refs_eq, hpaths, List.flatMap_map]
    rfl

/-! ### What is found -/

/-- Whatever is below a folder and whatever its settings file holds, where no look fails the projects are
found: the search paths are those that the settings file lists, or the folder; the manifests are those that
stand in a search path that is a directory, or in a sub-directory of it, and come once, in the order in which
one comes by them first; and a server that knows no projects gives them the ids from one on in that order. -/
theorem discovery_exact (t : Discovery.Tree) (folder : String) :
    let root := Path.clean folder
    ∃ found logs, Discovery.discover t.view root = (.ok found, logs) ∧
      found.searchPaths = t.searchPaths root ∧
      found.manifests.Nodup ∧
      (∀ m, m ∈ found.manifests ↔ t.isFile m = true ∧
        ∃ path ∈ found.searchPaths, t.isDirectory path = true ∧
          (m = Path.clean (path ++ "/" ++ Manifest.fileName) ∨
            ∃ e ∈ t.entries path, e.isDirectory = true ∧
              m = Path.clean (path ++ "/" ++ e.name ++ "/" ++ Manifest.fileName))) ∧
      (found.manifests.Pairwise fun a b => (t.places root).idxOf a < (t.places root).idxOf b) ∧
      ∀ (s : Server) (hostId : String), s.projects.isInitialized = false → s.reconciler.store = {} →
        ∃ s' tasks logs, s.load t.view folder hostId = (s', .ok tasks, logs) ∧
          s'.reconciler.store.refs = found.manifests.zipIdx.map (fun e => ⟨e.2 + 1, e.1⟩) ∧
          tasks = s'.reconciler.store.refs.flatMap watching := by
  intro root
  obtain ⟨settings, logs, hdiscover⟩ := t.discover_view (Path.clean_ne_empty folder)
  have hfirsts := t.firsts_manifests root
  refine ⟨_, logs, hdiscover, rfl, hfirsts.nodup, fun m => ?_, hfirsts.order, fun s hostId hopen hempty =>
    load_view t folder hostId hopen hempty⟩
  rw [hfirsts.mem, and_comm, Discovery.Tree.places, List.mem_flatMap]
  refine and_congr_right fun _ => exists_congr fun path => and_congr_right fun _ => ?_
  exact t.mem_placesIn path m

/-- One folder is listed twice in two spellings, one is not there, and one is below another. The manifest of
the first folder is a directory. -/
theorem discovery_exact_overlapping :
    let t : Discovery.Tree := {
      isFile := fun path => path ∈ ["/w/global.json", "/w/src/b/project.json", "/w/src/a/project.json",
        "/w/src/a/x/project.json", "/lib/project.json"]
      isDirectory := fun path => path ∈ ["/w", "/w/src", "/w/src/a", "/w/src/project.json", "/lib"]
      entries := fun path =>
        if path = "/w/src" then [⟨"a", true⟩, ⟨"b", true⟩, ⟨"notes", false⟩, ⟨"project.json", true⟩]
        else if path = "/w/src/a" then [⟨"project.json", false⟩, ⟨"x", true⟩]
        else []
      read := fun _ => .ok
        "\x7b\"projects\":[\"src\",\"/w/src/.\",\"../lib\",\"gone\",\"src/a\"]\x7d" }
    let s : Server := {
      reconciler := .new ".cs"
      notifier := { debounce := 5 }
      projects := { loadTimeout := 9, configuration := "Debug", hostId := "" }
      bridge := .new {} 0 }
    ∃ s' tasks logs, s.load t.view "/w/./" "h" = (s', .ok tasks, logs) ∧
      s'.reconciler.store.refs = [⟨1, "/w/src/a/project.json"⟩, ⟨2, "/w/src/b/project.json"⟩,
        ⟨3, "/lib/project.json"⟩, ⟨4, "/w/src/a/x/project.json"⟩] := by
  intro t s
  obtain ⟨found, logs, hfound, -, -, -, -, hload⟩ := discovery_exact t "/w/./"
  obtain ⟨s', tasks, logs', hloaded, hrefs, -⟩ := hload s "h" rfl rfl
  refine ⟨s', tasks, logs', hloaded, hrefs.trans ?_⟩
  have hmanifests : (Discovery.discover t.view (Path.clean "/w/./")).1.toOption.map (·.manifests) =
      some ["/w/src/a/project.json", "/w/src/b/project.json", "/lib/project.json", "/w/src/a/x/project.json"] := by
    decide +kernel
  rw [hfound] at hmanifests
  rw [show found.manifests = _ from Option.some_inj.1 hmanifests]
  rfl

end Server

end CompilationBridge
