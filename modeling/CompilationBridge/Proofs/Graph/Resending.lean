import CompilationBridge.Proofs.Graph.Recovery
import Mathlib.Data.Finset.Dedup

/-! Sending everything again after outages. A project has been sent again when a message about it has come,
and then references, options and sources for each framework that it lists. The workspace is consistent
when its projects are the registered variants and those of the projects sent again have exactly what was
sent. Sending everything again makes the workspace consistent after any outages of calls that are made
anew, and of no other calls. -/

namespace CompilationBridge

/-- The values in force, one for each key. -/
def Table.inForce {κ α : Type} [DecidableEq κ] (t : Table κ α) : List α :=
  t.keys.filterMap t.get?

theorem Table.mem_inForce {κ α : Type} [DecidableEq κ] (t : Table κ α) (a : α) :
    a ∈ t.inForce ↔ ∃ k, t.get? k = some a := by
  rw [inForce, List.mem_filterMap]
  constructor
  · rintro ⟨k, -, hk⟩
    exact ⟨k, hk⟩
  · rintro ⟨k, hk⟩
    exact ⟨k, (mem_keys t k).2 ⟨a, hk⟩, hk⟩

namespace Graph.Reconciler

open Store

variable {r : Reconciler} {id : Nat} {h : Handle} {v : Variant}

/-! ### What has been sent again -/

/-- What the message says about a project itself. -/
def Delivery.information? (d : Delivery) (i : Nat) : Option ProjectInformation :=
  match d.payload with
  | .projectInformation info => if d.id = i then some info else none
  | _ => none

/-- The frameworks that the latest message about a project lists. -/
def listed (history : List Delivery) (i : Nat) : List Framework :=
  (history.filterMap (·.information? i)).getLast?.elim [] (·.frameworks.getD [])

/-- The messages since the latest one about a project. -/
def sinceInformation (history : List Delivery) (i : Nat) : List Delivery :=
  history.rtakeWhile fun d => (d.information? i).isNone

/-- The latest messages about a variant since the latest one about its project. -/
def resentOf (history : List Delivery) (i : Nat) (f : String) : Latest where
  references := ((sinceInformation history i).filterMap (·.references? i f)).getLast?
  options := ((sinceInformation history i).filterMap (·.options? i f)).getLast?
  sources := ((sinceInformation history i).filterMap (·.sources? i f)).getLast?

/-- A message about a project has come, and then references, options and sources for each framework that
it lists. -/
def Resent (history : List Delivery) (i : Nat) : Prop :=
  history.filterMap (·.information? i) ≠ [] ∧ ∀ f ∈ listed history i,
    (resentOf history i f.name).references.isSome = true ∧
    (resentOf history i f.name).options.isSome = true ∧
    (resentOf history i f.name).sources.isSome = true

instance (history : List Delivery) (i : Nat) : Decidable (Resent history i) :=
  inferInstanceAs (Decidable (_ ∧ _))

theorem closes_of_no_information {d : Delivery} {i : Nat} (hd : (d.information? i).isNone = true)
    (f : String) : d.closes i f = false := by
  obtain ⟨before, id, payload⟩ := d
  cases payload with
  | projectInformation info =>
      have hid : id ≠ i := by
        rintro rfl
        simp [Delivery.information?] at hd
      simp [Delivery.closes, hid]
  | _ => rfl

/-- The epoch of a variant reaches back at least to the latest message about its project. -/
theorem epoch_eq (history : List Delivery) (i : Nat) (f : String) :
    ∃ earlier, epoch history i f = earlier ++ sinceInformation history i := by
  have hkeep : ∀ d ∈ (sinceInformation history i).reverse, (!d.closes i f) = true := by
    intro d hd
    have hnone := List.mem_rtakeWhile_imp (List.mem_reverse.1 hd)
    rw [closes_of_no_information hnone f]
    rfl
  have hsplit : history = history.rdropWhile (fun d => (d.information? i).isNone) ++
      sinceInformation history i := (List.rdropWhile_append_rtakeWhile ..).symm
  refine ⟨(history.rdropWhile fun d => (d.information? i).isNone).rtakeWhile fun d => !d.closes i f, ?_⟩
  conv_lhs => rw [epoch, hsplit]
  rw [List.rtakeWhile, List.reverse_append, List.takeWhile_append_of_pos hkeep, List.reverse_append,
    List.reverse_reverse]
  rfl

theorem getLast?_filterMap_of_suffix {α β : Type} {g : α → Option β} {earlier later : List α}
    (hsome : ((later.filterMap g).getLast?).isSome = true) :
    ((earlier ++ later).filterMap g).getLast? = (later.filterMap g).getLast? := by
  rw [List.filterMap_append, List.getLast?_append]
  obtain ⟨b, hb⟩ := Option.isSome_iff_exists.1 hsome
  rw [hb]
  rfl

/-- What has been sent again is the latest. -/
theorem latestOf_resent {history : List Delivery} {i : Nat} {f : String}
    (hrefs : (resentOf history i f).references.isSome = true)
    (hoptions : (resentOf history i f).options.isSome = true)
    (hsources : (resentOf history i f).sources.isSome = true) :
    latestOf history i f = resentOf history i f := by
  obtain ⟨earlier, hepoch⟩ := epoch_eq history i f
  rw [latestOf, resentOf, hepoch, getLast?_filterMap_of_suffix hrefs, getLast?_filterMap_of_suffix hoptions,
    getLast?_filterMap_of_suffix hsources]

/-! ### Consistency -/

/-- The workspace project of a variant has exactly what the latest messages say. A reference to another
project counts by the path of the project. -/
def Restored (ending : String) (s : Store) (l : Latest) (v : Variant) (e : Workspace.Entry) : Prop :=
  -- metadata references by path and name
  (e.metadata.inForce.map fun m => (m.path, m.name)).toFinset =
    ((l.items ending .file).map (fun item => (item.key, "")) ++
      (l.items ending .raw).map fun item => ("", item.key)).toFinset ∧
  e.documents.inForce.toFinset = ((l.items ending .document).map (·.key)).toFinset ∧
  e.compilation = l.options.map (·.compilation) ∧ e.parse = l.options.map (·.parse) ∧
  -- each referenced project has a target among its variants, and the edges go to the registered targets
  v.projectRefs.keys.toFinset = l.wanted.keys.toFinset ∧
  (∀ edge ∈ v.projectRefs.entries,
    ∃ p ∈ s.projects.values, p.path = edge.1 ∧ ∃ u ∈ p.variants, u.handle = edge.2) ∧
  e.references.toFinset =
    (v.projectRefs.values.filter fun t => s.variants.any fun u => u.handle = t && u.registered).toFinset

instance (ending : String) (s : Store) (l : Latest) (v : Variant) (e : Workspace.Entry) :
    Decidable (Restored ending s l v e) :=
  inferInstanceAs (Decidable (_ ∧ _))

/-- The projects of the workspace are the registered variants, and each framework that a project sent again
lists has a registered variant that the workspace shows as sent. -/
def Consistent (ending : String) (history : List Delivery) (r : Reconciler) : Prop :=
  r.workspace.projects.keys.toFinset = ((r.store.variants.filter (·.registered)).map (·.handle)).toFinset ∧
  ∀ ref ∈ r.store.refs, Resent history ref.contextId → ∀ f ∈ listed history ref.contextId,
    ∃ p ∈ r.store.project? ref.contextId, ∃ v ∈ p.variants, v.framework.name = f.name ∧
      v.registered = true ∧ ∃ e ∈ r.workspace.projects.get? v.handle,
        Restored ending r.store (resentOf history ref.contextId f.name) v e

instance (ending : String) (history : List Delivery) (r : Reconciler) :
    Decidable (Consistent ending history r) :=
  inferInstanceAs (Decidable (_ ∧ _))

section

variable {ending : String} {s : Store} {next : Nat} {l : Latest} {e : Workspace.Entry} {live : Handle → Prop}

theorem metadata_restored (hshows : Shows live v e) (hv : Reflects ending l (fun _ => True) v) :
    (e.metadata.inForce.map fun m => (m.path, m.name)).toFinset =
      ((l.items ending .file).map (fun item => (item.key, "")) ++
        (l.items ending .raw).map fun item => ("", item.key)).toFinset := by
  rw [List.toFinset.ext_iff]
  intro pair
  simp only [List.mem_map, Table.mem_inForce, List.mem_append]
  constructor
  · rintro ⟨m, ⟨ref, hm⟩, rfl⟩
    obtain ⟨slot, key, hslot, hkey⟩ := hshows.metadata ref m hm
    have hshown := hshows.shown slot key ref hkey
    obtain ⟨item, hitem, rfl⟩ := (hv.mem_table trivial key).1 ⟨ref, hkey⟩
    cases slot with
    | file =>
        obtain rfl := Option.some.inj (hm.symm.trans hshown)
        exact Or.inl ⟨item, hitem, rfl⟩
    | raw =>
        obtain ⟨bytes, hshown⟩ := hshown
        obtain rfl := Option.some.inj (hm.symm.trans hshown)
        exact Or.inr ⟨item, hitem, rfl⟩
    | document => exact absurd rfl hslot
  · rintro (⟨item, hitem, rfl⟩ | ⟨item, hitem, rfl⟩)
    · obtain ⟨ref, hkey⟩ := (hv.mem_table trivial item.key).2 ⟨item, hitem, rfl⟩
      exact ⟨_, ⟨ref, hshows.shown .file item.key ref hkey⟩, rfl⟩
    · obtain ⟨ref, hkey⟩ := (hv.mem_table trivial item.key).2 ⟨item, hitem, rfl⟩
      obtain ⟨bytes, hm⟩ := hshows.shown .raw item.key ref hkey
      exact ⟨_, ⟨ref, hm⟩, rfl⟩

theorem documents_restored (hshows : Shows live v e) (hv : Reflects ending l (fun _ => True) v) :
    e.documents.inForce.toFinset = ((l.items ending .document).map (·.key)).toFinset := by
  rw [List.toFinset.ext_iff]
  intro path
  rw [Table.mem_inForce, List.mem_map]
  constructor
  · rintro ⟨ref, hpath⟩
    obtain ⟨key, hkey⟩ := hshows.document ref path hpath
    obtain rfl : path = key := Option.some.inj (hpath.symm.trans (hshows.shown .document key ref hkey))
    exact (hv.mem_table trivial path).1 ⟨ref, hkey⟩
  · intro hitem
    obtain ⟨ref, hkey⟩ := (hv.mem_table trivial path).2 hitem
    exact ⟨ref, hshows.shown .document path ref hkey⟩

theorem restored_of_shows (hs : s.Sound next) (hl : s.Linked) (hhas : s.Has id v) (hshows : Shows s.Live v e)
    (hv : Reflects ending l (fun _ => True) v) : Restored ending s l v e := by
  refine ⟨metadata_restored hshows hv, documents_restored hshows hv,
    hshows.compilation.trans (hv .options trivial).1, hshows.parse.trans (hv .options trivial).2, ?_, ?_, ?_⟩
  · rw [List.toFinset.ext_iff]
    intro path
    rw [Table.mem_keys, Table.mem_keys, ← Table.contains_iff, ← Table.contains_iff, hv .projects trivial path]
  · rintro ⟨path, t⟩ hedge
    rw [Table.mem_entries (hs.keys hhas)] at hedge
    obtain ⟨j, ⟨u, ⟨p, hp, hu⟩, hut⟩, hpath⟩ := hl.target hhas hedge
    rw [path?, hp, Option.map_some, Option.some.injEq] at hpath
    exact ⟨p, Table.mem_values_of_get? hp, hpath, u, hu, hut⟩
  · rw [List.toFinset.ext_iff]
    intro t
    rw [List.mem_filter, hs.mem_values hhas, ← live_iff_any]
    exact hshows.reference t

end

/-- Sending everything again makes the workspace consistent, if only calls failed that are made anew. -/
theorem consistent_of_retried (extension : String) {outages : Outages Workspace.Method}
    (ho : outages.Only fun m => m.isRetried = true) (steps resent : List Step) :
    let r := ((facing extension outages).run steps).recovered
    Consistent (Text.lower extension) (r.history resent) (r.run resent) := by
  intro r
  obtain ⟨hwf, hprojects, hshown⟩ := resent_shown extension ho steps resent
  refine ⟨?_, fun ref _ hresent f hf => ?_⟩
  · rw [List.toFinset.ext_iff]
    intro h
    rw [Table.mem_keys, ← Table.contains_iff, hprojects h, live_iff_any]
    simp only [List.any_eq_true, Bool.and_eq_true, decide_eq_true_eq, List.mem_map, List.mem_filter]
    exact exists_congr fun v => by tauto
  · obtain ⟨hrefs, hoptions, hsources⟩ := hresent.2 f hf
    have hlatest := latestOf_resent hrefs hoptions hsources
    obtain ⟨refs, hr⟩ := Option.isSome_iff_exists.1 hrefs
    obtain ⟨options, ho⟩ := Option.isSome_iff_exists.1 hoptions
    obtain ⟨sources, hs⟩ := Option.isSome_iff_exists.1 hsources
    have hall : resentOf (r.history resent) ref.contextId f.name =
        ⟨some refs, some options, some sources⟩ := by
      rw [← hr, ← ho, ← hs]
    obtain ⟨v, e, hv, hn, hreg, he, hshows, hreflects⟩ := hshown (hlatest.trans hall)
    obtain ⟨p, hp, hmem⟩ := hv
    refine ⟨p, hp, v, hmem, hn, hreg, e, he, ?_⟩
    rw [hall]
    exact restored_of_shows hwf.sound hwf.linked ⟨p, hp, hmem⟩ hshows hreflects

/-! ### Failures that last -/

/-- The calls that a run makes. -/
def made (r : Reconciler) (steps : List Step) : List (Workspace.Call × Option Fault) :=
  (r.run steps).calls.drop r.calls.length

def post (type payload : String) : Step :=
  .apply { type := type, contextId := 1, payload := some payload }

def frameworkText (name : String) : String :=
  "\x7b\"FrameworkName\":\"" ++ name ++ "\"\x7d"

/-- A message about the first project, with its frameworks. -/
def listing (names : List String) : Step :=
  post "ProjectInformation"
    ("\x7b\"Frameworks\":[" ++ String.intercalate "," (names.map frameworkText) ++ "]\x7d")

/-- A message about a variant of the first project. -/
def about (type name rest : String) : Step :=
  post type ("\x7b\"Framework\":" ++ frameworkText name ++ rest ++ "\x7d")

/-- References of the variant `f` of a project at `/app` to a file and to the variant `g` of the same
project. -/
def linking : Step :=
  about "References" "f" (",\"FileReferences\":[\"x\"],\"ProjectReferences\":[" ++
    "\x7b\"Path\":\"/app\",\"Framework\":" ++ frameworkText "g" ++ "\x7d]")

/-- References as given, with options and no source files after them. -/
def renewal (name : String) (references : Step) : List Step :=
  [references, about "CompilerOptions" name "", about "Sources" name ""]

/-- Outages of one method and what happens around them: which of its uses fail, the steps until then, and
the steps after the outages. -/
structure Episode where
  uses : List Bool
  steps : List Step
  resent : List Step

/-- For each method whose calls are not made anew, an episode in which a failure lasts: what could not be
removed is forgotten all the same, and an edge that could not be made is recorded all the same. -/
def episode : Workspace.Method → Episode
  | .removeProject =>
    { uses := [true]
      steps := [.track "/app", listing ["f", "g"], listing ["f"]]
      resent := listing ["f"] :: renewal "f" (about "References" "f" "") }
  | .removeMetadataReference =>
    { uses := [true]
      steps := [.track "/app", listing ["f"], linking, about "References" "f" ""]
      resent := listing ["f"] :: renewal "f" (about "References" "f" "") }
  | .removeDocument =>
    { uses := [true]
      steps := [.track "/app", about "Sources" "f" ",\"Files\":[\"d.cs\"]", about "Sources" "f" ""]
      resent := listing ["f"] :: renewal "f" (about "References" "f" "") }
  | .removeProjectReference =>
    { uses := [true]
      steps := [.track "/app", listing ["f", "g"], linking, about "References" "f" ""]
      resent := listing ["f", "g"] :: renewal "f" (about "References" "f" "") ++
        renewal "g" (about "References" "g" "") }
  | .addProjectReference =>
    { uses := [true]
      steps := [.track "/app", listing ["f", "g"], linking]
      resent := listing ["f", "g"] :: renewal "f" linking ++ renewal "g" (about "References" "g" "") }
  -- the reference is recorded although its variant could not be added
  | .addProject =>
    { uses := [false, true]
      steps := [.track "/app", listing ["g"], linking]
      resent := listing ["f", "g"] :: renewal "f" linking ++ renewal "g" (about "References" "g" "") }
  | _ => { uses := [], steps := [], resent := [] }

/-- The reconciler when the outages of an episode are over. -/
def Episode.interrupted (ep : Episode) (m : Workspace.Method) : Reconciler :=
  ((facing ".cs" (Outages.plan {} m ep.uses)).run ep.steps).recovered

def lasting : List Workspace.Method :=
  [.addProject, .removeProject, .removeMetadataReference, .addProjectReference, .removeProjectReference,
    .removeDocument]

theorem mem_lasting {m : Workspace.Method} (hm : m.isRetried ≠ true) : m ∈ lasting := by
  cases m <;> first | exact absurd rfl hm | decide

theorem failure_lasts : ∀ m ∈ lasting,
    (∀ ref ∈ ((episode m).interrupted m).store.refs,
      Resent (((episode m).interrupted m).history (episode m).resent) ref.contextId) ∧
    (∀ c ∈ ((episode m).interrupted m).made (episode m).resent, c.2 = none) ∧
    ¬Consistent (Text.lower ".cs") (((episode m).interrupted m).history (episode m).resent)
      (((episode m).interrupted m).run (episode m).resent) := by
  decide +kernel

/-- **When sending everything again makes the workspace consistent.** Let some methods of the workspace be
open to outages, in any finite pattern, and let every project that is tracked when the outages are over be
sent again without a failure. The workspace is consistent after all such runs if and only if the
methods are among those whose calls are made anew. -/
theorem resending_restores_iff (failing : Workspace.Method → Prop) :
    (∀ extension outages steps resent, outages.Only failing →
      let r := ((facing extension outages).run steps).recovered
      (∀ ref ∈ r.store.refs, Resent (r.history resent) ref.contextId) →
      (∀ c ∈ r.made resent, c.2 = none) →
      Consistent (Text.lower extension) (r.history resent) (r.run resent)) ↔
    ∀ m, failing m → m.isRetried = true := by
  constructor
  · intro hall m hm
    by_contra hlasting
    obtain ⟨hresent, hserved, hflawed⟩ := failure_lasts m (mem_lasting hlasting)
    exact hflawed (hall ".cs" _ _ _ (Outages.only_plan hm _) hresent hserved)
  · intro hretried extension outages steps resent ho r _ _
    exact consistent_of_retried extension (ho.mono hretried) steps resent

/-- A document that could not be added is there once the sources are sent again. -/
theorem refused_document_restored :
    let sources := about "Sources" "f" ",\"Files\":[\"d.cs\"]"
    let r := ((facing ".cs" (Outages.plan {} .addDocument [true])).run [.track "/app", sources]).recovered
    let resent := [listing ["f"], about "References" "f" "", about "CompilerOptions" "f" "", sources]
    (∃ c ∈ r.calls, c.2 ≠ none) ∧ ¬Consistent ".cs" (r.history resent) r ∧
      Consistent ".cs" (r.history resent) (r.run resent) := by
  intro sources r resent
  have ho : (Outages.plan {} Workspace.Method.addDocument [true]).Only (· = .addDocument) := by
    apply Outages.only_plan
    rfl
  have hretried : ∀ m : Workspace.Method, m = .addDocument → m.isRetried = true := by
    rintro _ rfl
    rfl
  refine ⟨by decide +kernel, by decide +kernel, ?_⟩
  exact (resending_restores_iff (· = .addDocument)).2 hretried ".cs" _ [.track "/app", sources] resent ho
    (by decide +kernel) (by decide +kernel)

/-- A project that could not be removed stays, although the graph has forgotten its variant: everything is
sent again, no further call fails, and the workspace has a project that no variant stands for. -/
theorem failed_removal_lasts :
    let r := ((facing ".cs" (Outages.plan {} .removeProject [true])).run
      [.track "/app", listing ["f", "g"], listing ["f"]]).recovered
    let resent := listing ["f"] :: renewal "f" (about "References" "f" "")
    (∀ ref ∈ r.store.refs, Resent (r.history resent) ref.contextId) ∧
      (∀ c ∈ r.made resent, c.2 = none) ∧
      ¬Consistent (Text.lower ".cs") (r.history resent) (r.run resent) :=
  failure_lasts .removeProject (by decide)

end Graph.Reconciler

end CompilationBridge
