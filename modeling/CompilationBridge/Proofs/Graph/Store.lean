import CompilationBridge.Graph.Store
import CompilationBridge.Proofs.Paths
import CompilationBridge.Proofs.Tables
import Mathlib.Data.List.Basic

/-! What the operations of the store do to its views: the path that an id stands for, the variants that
the project of an id has, and the order of their handles. Proofs about the graph use only these views,
never the lists behind them. -/

namespace CompilationBridge.Graph

namespace Store

/-- The path of a tracked project. -/
def path? (s : Store) (id : Nat) : Option String :=
  (s.project? id).map (·.path)

/-- The project of an id has a variant. -/
def Has (s : Store) (id : Nat) (v : Variant) : Prop :=
  ∃ p, s.project? id = some p ∧ v ∈ p.variants

/-- The handles of the variants of a project, in order. -/
def handles (s : Store) (id : Nat) : List Handle :=
  ((s.project? id).map fun p => p.variants.map (·.handle)).getD []

/-- A handle names a variant of the project of an id. -/
def Owns (s : Store) (id : Nat) (h : Handle) : Prop :=
  ∃ v, s.Has id v ∧ v.handle = h

theorem project?_natCast (s : Store) (id : Nat) : s.project? id = s.projects.get? id :=
  rfl

/-- No project has a negative id. -/
theorem toNat_of_project? {s : Store} {id : Int} {p : Project} (hp : s.project? id = some p) :
    ((id.toNat : Nat) : Int) = id := by
  cases id with
  | ofNat n => rfl
  | negSucc n => cases hp

/-- The ids in use are those from one up to the next one. -/
theorem project?_isSome_iff (s : Store) (id : Int) :
    (s.project? id).isSome = true ↔ 1 ≤ id ∧ id < s.nextId := by
  cases id with
  | negSucc n =>
      have hnone : s.project? (Int.negSucc n) = none := rfl
      simp only [hnone, Option.isSome_none, Bool.false_eq_true, false_iff]
      omega
  | ofNat n =>
      change (s.projects.get? n).isSome = true ↔ _
      rw [← Option.ne_none_iff_isSome, ne_eq, Table.get?_eq_none_iff, Decidable.not_not, s.dense,
        s.counted, List.mem_range'_1]
      simp only [Int.ofNat_eq_natCast]
      omega

@[simp] theorem project?_zero (s : Store) : s.project? 0 = none := by
  have h := s.project?_isSome_iff 0
  simpa using h

@[simp] theorem path?_zero (s : Store) : s.path? 0 = none := by
  simp [path?]

@[simp] theorem project?_nextId (s : Store) : s.project? s.nextId = none :=
  (Table.get?_eq_none_iff _ _).2 s.nextId_notMem

/-- The projects stand in the order of their ids. -/
theorem project?_succ (s : Store) (n : Nat) :
    s.project? ((n + 1 : Nat) : Int) = s.projects.values[n]? := by
  rw [project?_natCast, Nat.add_comm, Table.get?_of_keys_eq_range' s.dense]

theorem not_has_empty {id : Nat} {v : Variant} : ¬Has {} id v := by
  rintro ⟨p, hp, -⟩
  cases hp

theorem Has.path {s : Store} {id : Nat} {v : Variant} (h : s.Has id v) : ∃ path, s.path? id = some path := by
  obtain ⟨p, hp, -⟩ := h
  exact ⟨p.path, by rw [path?, hp, Option.map_some]⟩

theorem mem_handles {s : Store} {id : Nat} {h : Handle} : h ∈ s.handles id ↔ s.Owns id h := by
  unfold handles Owns Has
  cases s.project? id with
  | none => simp
  | some p => simp

theorem mem_variants {s : Store} {v : Variant} : v ∈ s.variants ↔ ∃ id, s.Has id v := by
  rw [variants, List.mem_flatMap]
  constructor
  · rintro ⟨p, hp, hv⟩
    obtain ⟨n, hn⟩ := List.mem_iff_getElem?.1 hp
    exact ⟨n + 1, p, by rw [project?_succ, hn], hv⟩
  · rintro ⟨id, p, hp, hv⟩
    exact ⟨p, Table.mem_values_of_get? hp, hv⟩

theorem has_of_variant? {s : Store} {h : Handle} {v : Variant} (hv : s.variant? h = some v) :
    v.handle = h ∧ ∃ id, s.Has id v := by
  have hh := List.find?_some hv
  exact ⟨by simpa using hh, mem_variants.1 (List.mem_of_find?_eq_some hv)⟩

theorem exists_variant? {s : Store} {id : Nat} {v : Variant} (hv : s.Has id v) :
    ∃ w, s.variant? v.handle = some w := by
  rw [← Option.isSome_iff_exists, variant?, List.find?_isSome]
  exact ⟨v, mem_variants.2 ⟨id, hv⟩, by simp⟩

/-- A store is determined by the projects of its ids. -/
theorem ext_project? {s s' : Store} (h : ∀ id : Nat, s'.project? id = s.project? id) : s' = s := by
  have hvalues : s'.projects.values = s.projects.values := by
    refine List.ext_getElem? fun n => ?_
    rw [← project?_succ, ← project?_succ, h]
  have hsize : s'.projects.size = s.projects.size := by
    have hlength := congrArg List.length hvalues
    rwa [Table.values, Table.values, List.length_map, List.length_map] at hlength
  have hprojects : s'.projects = s.projects := by
    have hentries : ∀ t : Table Nat Project, t.entries = t.keys.zip t.values := by
      intro t
      rw [Table.keys, Table.values, List.zip_map', List.map_id']
    have hkeys : s'.projects.keys = s.projects.keys := by rw [s'.dense, s.dense, hsize]
    exact congrArg Table.mk (by rw [hentries, hentries s.projects, hkeys, hvalues])
  have hpaths : s'.byPath = s.byPath := congrArg Table.mk (by rw [s'.listed, s.listed, hprojects])
  have hnext : s'.nextId = s.nextId := by rw [s'.counted, s.counted, hsize]
  obtain ⟨nextId', projects', byPath', _, _, _, _⟩ := s'
  obtain ⟨nextId, projects, byPath, _, _, _, _⟩ := s
  subst hprojects hpaths hnext
  rfl

theorem project?_change (s : Store) (f : Nat → Project → Project) (hf : ∀ id p, (f id p).path = p.path)
    (id : Int) : (s.change f hf).project? id = (s.project? id).map (f id.toNat) := by
  cases id with
  | ofNat id => exact Table.get?_mapWithKey s.projects f id
  | negSucc n => rfl

theorem values_change (s : Store) (f : Nat → Project → Project) (hf : ∀ id p, (f id p).path = p.path) :
    (s.change f hf).projects.values = s.projects.entries.map fun e => f e.1 e.2 := by
  change ((s.projects.mapWithKey f).entries.map (·.2)) = _
  rw [Table.mapWithKey, List.map_map]
  rfl

/-- Changes that agree on the projects there are. -/
theorem change_congr {s : Store} {f g : Nat → Project → Project} {hf : ∀ id p, (f id p).path = p.path}
    {hg : ∀ id p, (g id p).path = p.path}
    (h : ∀ {id : Nat} {p}, s.project? id = some p → f id p = g id p) : s.change f hf = s.change g hg := by
  refine ext_project? fun id => ?_
  rw [project?_change, project?_change, Int.toNat_natCast]
  exact Option.map_congr fun p hp => h hp

theorem change_change (s : Store) (f g : Nat → Project → Project) (hf : ∀ id p, (f id p).path = p.path)
    (hg : ∀ id p, (g id p).path = p.path) :
    (s.change f hf).change g hg =
      s.change (fun id p => g id (f id p)) fun id p => (hg id (f id p)).trans (hf id p) := by
  refine ext_project? fun id => ?_
  rw [project?_change, project?_change, project?_change, Option.map_map]
  rfl

theorem change_of_same {s : Store} {f : Nat → Project → Project} {hf : ∀ id p, (f id p).path = p.path}
    (h : ∀ {id : Nat} {p}, s.project? id = some p → f id p = p) : s.change f hf = s := by
  refine ext_project? fun id => ?_
  rw [project?_change, Int.toNat_natCast]
  cases hp : s.project? id with
  | none => rfl
  | some p => rw [Option.map_some, h hp]

/-! ### Changing a variant -/

/-- What a change of the variant of a handle makes of a variant. -/
def changed (h : Handle) (f : Variant → Variant) (v : Variant) : Variant :=
  if v.handle = h then f v else v

theorem project?_modifyVariant (s : Store) (h : Handle) (f : Variant → Variant) (id : Int) :
    (s.modifyVariant h f).project? id =
      (s.project? id).map fun p => { p with variants := p.variants.map (changed h f) } :=
  project?_change s _ _ id

theorem has_modifyVariant {s : Store} {h : Handle} {f : Variant → Variant} {id : Nat} {w : Variant} :
    (s.modifyVariant h f).Has id w ↔ ∃ v, s.Has id v ∧ w = changed h f v := by
  simp only [Has, project?_modifyVariant, Option.map_eq_some_iff]
  constructor
  · rintro ⟨q, ⟨p, hp, rfl⟩, hw⟩
    obtain ⟨v, hv, rfl⟩ := List.mem_map.1 hw
    exact ⟨v, ⟨p, hp, hv⟩, rfl⟩
  · rintro ⟨v, ⟨p, hp, hv⟩, rfl⟩
    exact ⟨_, ⟨p, hp, rfl⟩, List.mem_map.2 ⟨v, hv, rfl⟩⟩

@[simp] theorem path?_modifyVariant (s : Store) (h : Handle) (f : Variant → Variant) (id : Nat) :
    (s.modifyVariant h f).path? id = s.path? id := by
  rw [path?, path?, project?_modifyVariant, Option.map_map]
  rfl

theorem handles_modifyVariant (s : Store) (h : Handle) {f : Variant → Variant}
    (hf : ∀ v, (f v).handle = v.handle) (id : Nat) : (s.modifyVariant h f).handles id = s.handles id := by
  have hkeep : ∀ v, (changed h f v).handle = v.handle := by
    intro v
    unfold changed
    split
    · exact hf v
    · rfl
  rw [handles, handles, project?_modifyVariant, Option.map_map]
  congr 2
  funext p
  simp only [Function.comp_apply, List.map_map]
  exact List.map_congr_left fun v _ => hkeep v

/-! ### Adding and removing variants -/

theorem project?_modifyProject (s : Store) (id i : Nat) (f : Project → Project)
    (hf : ∀ p, (f p).path = p.path) :
    (s.modifyProject id f hf).project? i = if i = id then (s.project? i).map f else s.project? i := by
  rw [modifyProject, project?_change, Int.toNat_natCast]
  split
  · rfl
  · exact congrFun Option.map_id _

theorem path?_modifyProject (s : Store) (id i : Nat) {f : Project → Project}
    (hf : ∀ p, (f p).path = p.path) : (s.modifyProject id f hf).path? i = s.path? i := by
  rw [path?, path?, project?_modifyProject]
  split
  · rw [Option.map_map]
    exact congrArg (Option.map · _) (funext hf)
  · rfl

theorem has_modifyProject {s : Store} {id i : Nat} {f : Project → Project} {v : Variant}
    (hpath : ∀ p, (f p).path = p.path) (hf : ∀ p, (f p).variants = p.variants) :
    (s.modifyProject id f hpath).Has i v ↔ s.Has i v := by
  simp only [Has, project?_modifyProject]
  split
  · simp only [Option.map_eq_some_iff]
    constructor
    · rintro ⟨q, ⟨p, hp, rfl⟩, hv⟩
      exact ⟨p, hp, hf p ▸ hv⟩
    · rintro ⟨p, hp, hv⟩
      exact ⟨f p, ⟨p, hp, rfl⟩, (hf p).symm ▸ hv⟩
  · rfl

theorem handles_modifyProject (s : Store) (id i : Nat) {f : Project → Project}
    (hpath : ∀ p, (f p).path = p.path) (hf : ∀ p, (f p).variants = p.variants) :
    (s.modifyProject id f hpath).handles i = s.handles i := by
  rw [handles, handles, project?_modifyProject]
  split
  · rw [Option.map_map]
    congr 2
    funext p
    rw [Function.comp_apply, hf]
  · rfl

@[simp] theorem path?_addVariant (s : Store) (id i : Nat) (v : Variant) :
    (s.addVariant id v).path? i = s.path? i := by
  rw [addVariant, path?_modifyProject]

theorem has_addVariant {s : Store} {id i : Nat} {v w : Variant} (hid : ∃ path, s.path? id = some path) :
    (s.addVariant id v).Has i w ↔ s.Has i w ∨ (i = id ∧ w = v) := by
  obtain ⟨path, hpath⟩ := hid
  obtain ⟨p, hp, -⟩ := Option.map_eq_some_iff.1 hpath
  simp only [Has, addVariant, project?_modifyProject]
  split
  · rename_i hi
    subst hi
    simp [hp]
  · rename_i hi
    simp [hi]

theorem handles_addVariant {s : Store} {id : Nat} (hid : ∃ path, s.path? id = some path) (v : Variant)
    (i : Nat) : (s.addVariant id v).handles i = s.handles i ++ if i = id then [v.handle] else [] := by
  obtain ⟨path, hpath⟩ := hid
  obtain ⟨p, hp, -⟩ := Option.map_eq_some_iff.1 hpath
  simp only [handles, addVariant, project?_modifyProject]
  split
  · rename_i hi
    subst hi
    simp [hp]
  · simp

theorem project?_removeVariant (s : Store) (h : Handle) (id : Int) :
    (s.removeVariant h).project? id =
      (s.project? id).map fun p => { p with variants := p.variants.filter (·.handle ≠ h) } :=
  project?_change s _ _ id

theorem has_removeVariant {s : Store} {h : Handle} {id : Nat} {v : Variant} :
    (s.removeVariant h).Has id v ↔ s.Has id v ∧ v.handle ≠ h := by
  simp only [Has, project?_removeVariant, Option.map_eq_some_iff]
  constructor
  · rintro ⟨q, ⟨p, hp, rfl⟩, hv⟩
    obtain ⟨hv, hne⟩ := List.mem_filter.1 hv
    exact ⟨⟨p, hp, hv⟩, by simpa using hne⟩
  · rintro ⟨⟨p, hp, hv⟩, hne⟩
    exact ⟨_, ⟨p, hp, rfl⟩, List.mem_filter.2 ⟨hv, by simpa using hne⟩⟩

@[simp] theorem path?_removeVariant (s : Store) (h : Handle) (id : Nat) :
    (s.removeVariant h).path? id = s.path? id := by
  rw [path?, path?, project?_removeVariant, Option.map_map]
  rfl

theorem handles_removeVariant (s : Store) (h : Handle) (id : Nat) :
    ((s.removeVariant h).handles id).Sublist (s.handles id) := by
  rw [handles, handles, project?_removeVariant, Option.map_map]
  cases s.project? id with
  | none => exact List.Sublist.refl _
  | some p => exact List.filter_sublist.map _

/-! ### Ids and paths -/

/-- Looking an id up by its path and a path by its id are inverse to each other. -/
theorem idOf?_iff {s : Store} {path : String} {id : Nat} :
    s.idOf? path = some id ↔ s.path? id = some path := by
  have hkeys : s.projects.keys.Nodup := s.dense ▸ List.nodup_range'
  rw [idOf?, ← Table.mem_entries s.distinct, s.listed, path?, project?_natCast, List.mem_map,
    Option.map_eq_some_iff]
  simp only [Prod.exists, Prod.mk.injEq, ← Table.mem_entries hkeys]
  constructor
  · rintro ⟨_, p, hp, rfl, rfl⟩
    exact ⟨p, hp, rfl⟩
  · rintro ⟨p, hp, rfl⟩
    exact ⟨id, p, hp, rfl, rfl⟩

theorem path_inj {s : Store} {i j : Nat} {path : String} (hi : s.path? i = some path)
    (hj : s.path? j = some path) : i = j :=
  Option.some.inj ((idOf?_iff.2 hi).symm.trans (idOf?_iff.2 hj))

theorem idOf?_eq_none_iff {s : Store} {path : String} :
    s.idOf? path = none ↔ ∀ id, s.path? id ≠ some path := by
  rw [Option.eq_none_iff_forall_ne_some]
  exact forall_congr' fun id => not_congr idOf?_iff

theorem mem_refs {s : Store} {ref : ProjectRef} :
    ref ∈ s.refs ↔ s.path? ref.contextId = some ref.path := by
  have hkeys : s.projects.keys.Nodup := s.dense ▸ List.nodup_range'
  obtain ⟨id, path⟩ := ref
  rw [refs, List.mem_map, path?, project?_natCast, Option.map_eq_some_iff]
  simp only [Prod.exists, ProjectRef.mk.injEq, ← Table.mem_entries hkeys]
  constructor
  · rintro ⟨_, p, hp, rfl, rfl⟩
    exact ⟨p, hp, rfl⟩
  · rintro ⟨p, hp, rfl⟩
    exact ⟨id, p, hp, rfl, rfl⟩

/-! ### Tracking -/

theorem project?_addProject (s : Store) {path : String} (hnew : s.idOf? path = none) (id : Nat) :
    (s.addProject path hnew).project? id = if id = s.nextId then some { path := path } else s.project? id :=
  Table.get?_put s.projects s.nextId _ id

theorem track_of_known {s : Store} {path : String} {id : Nat} (hid : s.idOf? (Path.clean path) = some id) :
    s.track path = (s, ⟨id, Path.clean path⟩, false) := by
  unfold track
  split
  · rename_i i hi
    rw [Option.some.inj (hi.symm.trans hid)]
  · rename_i hnone
    rw [hnone] at hid
    cases hid

theorem track_of_unknown {s : Store} {path : String} (hnew : s.idOf? (Path.clean path) = none) :
    s.track path = (s.addProject (Path.clean path) hnew, ⟨s.nextId, Path.clean path⟩, true) := by
  unfold track
  split
  · rename_i i hi
    rw [hi] at hnew
    cases hnew
  · rfl

/-- A path is known already, or it gets a project under the next id. -/
theorem project?_track (s : Store) (path : String) (id : Nat) :
    (s.track path).1.project? id =
      if s.idOf? (Path.clean path) = none ∧ id = s.nextId then some { path := Path.clean path }
      else s.project? id := by
  cases hid : s.idOf? (Path.clean path) with
  | some i => simp [track_of_known hid]
  | none => simp [track_of_unknown hid, project?_addProject]

theorem has_track {s : Store} {path : String} {id : Nat} {v : Variant} :
    (s.track path).1.Has id v ↔ s.Has id v := by
  simp only [Has, project?_track]
  split
  · rename_i h
    simp [h.2]
  · rfl

theorem handles_track (s : Store) (path : String) (id : Nat) :
    (s.track path).1.handles id = s.handles id := by
  simp only [handles, project?_track]
  split
  · rename_i h
    simp [h.2]
  · rfl

/-- The id that tracking gives stands for the clean path. -/
theorem path?_track_self (s : Store) (path : String) :
    (s.track path).1.path? (s.track path).2.1.contextId = some (Path.clean path) := by
  cases hid : s.idOf? (Path.clean path) with
  | some i =>
      rw [track_of_known hid]
      exact idOf?_iff.1 hid
  | none =>
      rw [track_of_unknown hid]
      simp only [path?, project?_addProject, if_pos, Option.map_some]

theorem path?_track {s : Store} {path : String} {id : Nat} {q : String} :
    (s.track path).1.path? id = some q ↔
      s.path? id = some q ∨ (id = (s.track path).2.1.contextId ∧ q = Path.clean path) := by
  cases hid : s.idOf? (Path.clean path) with
  | some i =>
      rw [track_of_known hid]
      refine ⟨Or.inl, ?_⟩
      rintro (h | ⟨rfl, rfl⟩)
      · exact h
      · exact idOf?_iff.1 hid
  | none =>
      rw [track_of_unknown hid]
      simp only [path?, project?_addProject]
      by_cases hnext : id = s.nextId
      · simp [hnext, eq_comm]
      · simp [hnext]

end Store

/-! ### References and waiting -/

namespace Variant

/-- A variant references another by its handle. -/
def RefersTo (v : Variant) (target : Handle) : Prop :=
  ∃ path, v.projectRefs.get? path = some target

theorem addPending_pending (v : Variant) (h : Handle) :
    (v.addPending h).pending = if h ∈ v.pending then v.pending else v.pending ++ [h] := by
  unfold addPending
  split <;> rfl

theorem mem_pending_addPending (v : Variant) (h k : Handle) :
    k ∈ (v.addPending h).pending ↔ k ∈ v.pending ∨ k = h := by
  unfold addPending
  split
  · rename_i hmem
    constructor
    · exact Or.inl
    · rintro (hk | rfl)
      · exact hk
      · exact hmem
  · simp

theorem nodup_pending_addPending {v : Variant} (hv : v.pending.Nodup) (h : Handle) :
    (v.addPending h).pending.Nodup := by
  unfold addPending
  split
  · exact hv
  · rename_i hmem
    exact List.nodup_append.2 ⟨hv, List.nodup_singleton h, by
      intro a ha b hb
      rw [List.mem_singleton] at hb
      rintro rfl
      exact hmem (hb ▸ ha)⟩

end Variant

end CompilationBridge.Graph
