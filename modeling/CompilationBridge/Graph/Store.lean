import CompilationBridge.Message
import CompilationBridge.Path
import CompilationBridge.Workspace

/-!
The project graph. A store holds the tracked projects by context id, the ids by path and the id that the
next new project gets. Ids are given out one after the other, from one on, and a project keeps its id and
its path. Each project has one variant for each framework it is known by, and a variant is found by its
handle across all projects.
-/

namespace CompilationBridge.Graph

/-- One framework build of a project, with what the host said about it. -/
structure Variant where
  framework : Framework
  handle : Handle
  registered : Bool := false
  loaded : Bool := false
  fileRefs : Table String Handle := .empty
  rawRefs : Table String Handle := .empty
  /-- The handle of the referenced variant, by the path of its project. -/
  projectRefs : Table String Handle := .empty
  /-- The context ids of the projects that reference this variant, by path. -/
  dependees : Table String Nat := .empty
  documents : Table String Handle := .empty
  compilation : Option Workspace.CompilationOptions := none
  parse : Option Workspace.ParseOptions := none
  /-- Referring variants that wait for this one to be registered. -/
  pending : List Handle := []
deriving DecidableEq, Repr, Inhabited

structure Project where
  path : String
  name : String := ""
  configurations : List String := []
  commands : Table String String := .empty
  searchPaths : List String := []
  globalSettingsPath : String := ""
  initializeSent : Bool := false
  variants : List Variant := []
deriving DecidableEq, Repr, Inhabited

/-- A tracked project by id and path. -/
structure ProjectRef where
  contextId : Nat
  path : String
deriving DecidableEq, Repr, Inhabited

def ProjectRef.toJson (r : ProjectRef) : Json :=
  .obj [("contextId", .nat r.contextId), ("path", .str r.path)]

def ProjectRef.dir (r : ProjectRef) : String :=
  Path.dir r.path

/-- The tracked projects by id, and their ids by path. -/
structure Store where
  /-- The id of the next new project. -/
  nextId : Nat := 1
  projects : Table Nat Project := .empty
  byPath : Table String Nat := .empty
  counted : nextId = projects.size + 1 := by rfl
  dense : projects.keys = List.range' 1 projects.size := by rfl
  /-- Each project is found by its path. -/
  listed : byPath.entries = projects.entries.map fun e => (e.2.path, e.1) := by rfl
  distinct : byPath.keys.Nodup := by decide
deriving DecidableEq, Repr, Inhabited

namespace Variant

def addPending (v : Variant) (referrer : Handle) : Variant :=
  if referrer ∈ v.pending then v else { v with pending := v.pending ++ [referrer] }

def removePending (v : Variant) (referrer : Handle) : Variant :=
  { v with pending := v.pending.erase referrer }

end Variant

namespace Project

def variant? (p : Project) (framework : String) : Option Variant :=
  p.variants.find? (·.framework.name = framework)

/-- Whether a variant of the project other than `except` references the target. -/
def references (p : Project) (target : Handle) (except : Option Handle) : Bool :=
  p.variants.any fun v => some v.handle ≠ except && v.projectRefs.values.contains target

/-- Whether the project has registered variants and all of them have their sources. -/
def allLoaded (p : Project) : Bool :=
  let registered := p.variants.filter (·.registered)
  !registered.isEmpty && registered.all (·.loaded)

end Project

namespace Store

def project? (s : Store) (id : Int) : Option Project :=
  id.toNat?.bind s.projects.get?

/-- The id of a clean path. -/
def idOf? (s : Store) (path : String) : Option Nat :=
  s.byPath.get? path

/-- The id of a path in any spelling. -/
def contextId? (s : Store) (path : String) : Option Nat :=
  s.idOf? (Path.clean path)

theorem nextId_notMem (s : Store) : s.nextId ∉ s.projects.keys := by
  rw [s.dense, s.counted, List.mem_range'_1]
  omega

/-- A store with one more project, which gets the next id. -/
def addProject (s : Store) (path : String) (hnew : s.idOf? path = none) : Store where
  nextId := s.nextId + 1
  projects := s.projects.put s.nextId { path := path }
  byPath := s.byPath.put path s.nextId
  counted := by rw [Table.size_put_of_notMem _ s.nextId_notMem, s.counted]
  dense := by
    rw [Table.keys_put_of_notMem _ s.nextId_notMem, Table.size_put_of_notMem _ s.nextId_notMem,
      List.range'_1_concat, s.dense, s.counted, Nat.add_comm]
  listed := by
    rw [Table.entries_put_of_notMem _ s.nextId_notMem,
      Table.entries_put_of_notMem _ ((Table.get?_eq_none_iff _ _).1 hnew), s.listed, List.map_append]
    rfl
  distinct := by
    have hpath : path ∉ s.byPath.keys := (Table.get?_eq_none_iff _ _).1 hnew
    rw [Table.keys_put_of_notMem _ hpath, List.nodup_append]
    refine ⟨s.distinct, List.nodup_cons.2 ⟨List.not_mem_nil, List.nodup_nil⟩, fun a ha b hb heq => ?_⟩
    rw [List.mem_singleton] at hb
    exact hpath (hb ▸ heq ▸ ha)

/-- The project of a path, tracked from now on if it was not; tells whether it is new. -/
def track (s : Store) (path : String) : Store × ProjectRef × Bool :=
  match hid : s.idOf? (Path.clean path) with
  | some id => (s, ⟨id, Path.clean path⟩, false)
  | none => (s.addProject (Path.clean path) hid, ⟨s.nextId, Path.clean path⟩, true)

/-- A store with its projects changed in place. None of them changes its path. -/
def change (s : Store) (f : Nat → Project → Project) (hf : ∀ id p, (f id p).path = p.path) : Store where
  nextId := s.nextId
  projects := s.projects.mapWithKey f
  byPath := s.byPath
  counted := by rw [Table.size_mapWithKey, s.counted]
  dense := by rw [Table.keys_mapWithKey, Table.size_mapWithKey, s.dense]
  listed := by
    rw [s.listed, Table.mapWithKey, List.map_map]
    exact List.map_congr_left fun e _ => congrArg (·, e.1) (hf e.1 e.2).symm
  distinct := s.distinct

def modifyProject (s : Store) (id : Nat) (f : Project → Project) (hf : ∀ p, (f p).path = p.path) : Store :=
  s.change (fun i p => if i = id then f p else p) fun i p => by split <;> simp only [hf]

def updateSettings (s : Store) (id : Int) (searchPaths : List String) (settingsPath : String) :
    Except Fault Store :=
  let update (p : Project) : Project :=
    { p with searchPaths := searchPaths, globalSettingsPath := settingsPath }
  match s.project? id with
  | none => .error (.projectNotFound id "")
  | some _ => .ok (s.modifyProject id.toNat update fun _ => rfl)

def markInitialized (s : Store) (id : Int) : Except Fault Store :=
  match s.project? id with
  | none => .error (.projectNotFound id "")
  | some _ => .ok (s.modifyProject id.toNat (fun p => { p with initializeSent := true }) fun _ => rfl)

/-- A store with one more variant in a project. -/
def addVariant (s : Store) (id : Nat) (v : Variant) : Store :=
  s.modifyProject id (fun p => { p with variants := p.variants ++ [v] }) fun _ => rfl

def variants (s : Store) : List Variant :=
  s.projects.values.flatMap (·.variants)

def variant? (s : Store) (h : Handle) : Option Variant :=
  s.variants.find? (·.handle = h)

def modifyVariant (s : Store) (h : Handle) (f : Variant → Variant) : Store :=
  s.change (fun _ p => { p with variants := p.variants.map fun v => if v.handle = h then f v else v })
    fun _ _ => rfl

/-- Drops a variant from its project. -/
def removeVariant (s : Store) (h : Handle) : Store :=
  s.change (fun _ p => { p with variants := p.variants.filter (·.handle ≠ h) }) fun _ _ => rfl

/-- The paths of the projects that reference some variant of the project at a path, in order. -/
def dependees (s : Store) (path : String) : List String :=
  match (s.contextId? path).bind fun id => s.project? id with
  | none => []
  | some p => (p.variants.flatMap (·.dependees.keys)).eraseDups.mergeSort (· ≤ ·)

/-- Every tracked project, by id. -/
def refs (s : Store) : List ProjectRef :=
  s.projects.entries.map fun (id, p) => ⟨id, p.path⟩

end Store

end CompilationBridge.Graph
