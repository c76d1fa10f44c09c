import CompilationBridge.Proofs.Graph.MirrorRuns

/-! The frameworks that references name. A message lists the projects that a variant references, each with
the framework that is meant. References are told apart by their paths alone: a path that stays keeps its
target, also where the message names another framework for it. So a reference follows its message exactly
if the variant had none under the path before, or had one to the framework that the message names. -/

namespace CompilationBridge.Graph

namespace Store

variable {s : Store} {next id j : Nat} {u v : Variant} {path : String} {framework : Framework}

/-- The reference of a variant under a path is to one framework of the project there, and the variants of
that project agree: the referrer waits for the variant of the framework and no other one, as long as that
is not registered, and the edges back are those of this reference and of the other variants of the
project. -/
structure Follows (s : Store) (id : Nat) (v : Variant) (path : String) (framework : Framework) : Prop where
  target : s.Targets v path framework
  pending : ∀ {j u}, s.Has j u → s.path? j = some path →
    (v.handle ∈ u.pending ↔ u.framework.name = framework.name ∧ u.registered = false)
  dependee : ∀ {j u q}, s.Has j u → s.path? j = some path → s.path? id = some q →
    (u.dependees.get? q = some id ↔ u.framework.name = framework.name ∨
      ∃ w, s.Has id w ∧ w.handle ≠ v.handle ∧ w.RefersTo u.handle)

/-- Of the variants of a project, the one that is referenced has the name of the framework. -/
theorem Targets.get?_iff (ht : s.Targets v path framework) (hs : s.Sound next) (hu : s.Has j u)
    (hj : s.path? j = some path) :
    v.projectRefs.get? path = some u.handle ↔ u.framework.name = framework.name := by
  obtain ⟨k, t, ht, hk, hn, hget⟩ := ht
  obtain rfl := path_inj hk hj
  rw [hget, Option.some.injEq]
  constructor
  · intro hh
    rw [← (hs.handle_inj ht hu hh).2, hn]
  · intro hname
    rw [hs.name_inj ht hu (hn.trans hname.symm)]

/-- A reference that is still there is to the framework that it was to before. -/
theorem Targets.of_extends {s' : Store} {w : Variant} {t : Handle} (ht : s'.Targets w path framework)
    (he : Extends s s') (hs' : s'.Sound next) (hl : s.Linked) (hv : s.Has id v)
    (hget : v.projectRefs.get? path = some t) (hkept : w.projectRefs.get? path = some t) :
    s.Targets v path framework := by
  obtain ⟨k, u, hu, -, hn, hget'⟩ := ht
  obtain ⟨j, ⟨u₀, hu₀, rfl⟩, hj⟩ := hl.target hv hget
  obtain ⟨u₁, hu₁, hh₁, hn₁⟩ := he.has hu₀
  rw [hkept, Option.some.injEq] at hget'
  obtain ⟨-, rfl⟩ := hs'.handle_inj hu₁ hu (hh₁.trans hget')
  exact ⟨j, u₀, hu₀, hj, hn₁.symm.trans hn, hget⟩

/-- The records of a reference follow its target. -/
theorem follows_iff (hs : s.Sound next) (hl : s.Linked) (hv : s.Has id v) :
    s.Follows id v path framework ↔ s.Targets v path framework := by
  refine ⟨fun h => h.target, fun ht => ⟨ht, fun {j u} hu hj => ?_, fun {j u q} hu hj hq => ?_⟩⟩
  · cases hreg : u.registered with
    | true =>
        rw [hl.settled hu hreg]
        simp
    | false =>
        rw [hl.waiting hu hreg, ← ht.get?_iff hs hu hj, and_iff_left rfl]
        constructor
        · rintro ⟨a, w, hw, hh, hrefers⟩
          rw [← (hs.handle_inj hw hv hh).2]
          exact (hl.refersTo_iff hs hu hj hw).1 hrefers
        · exact fun hget => ⟨id, v, hv, rfl, path, hget⟩
  · rw [hl.dependee hu q id, and_iff_right hq, ← ht.get?_iff hs hu hj]
    constructor
    · rintro ⟨w, hw, hrefers⟩
      by_cases hh : w.handle = v.handle
      · rw [← (hs.handle_inj hw hv hh).2]
        exact Or.inl ((hl.refersTo_iff hs hu hj hw).1 hrefers)
      · exact Or.inr ⟨w, hw, hh, hrefers⟩
    · rintro (hget | ⟨w, hw, -, hrefers⟩)
      · exact ⟨v, hv, path, hget⟩
      · exact ⟨w, hw, hrefers⟩

end Store

namespace Reconciler

open Store

variable {r : Reconciler} {id : Nat} {h : Handle} {v : Variant} {q : String}

/-! ### A message about references -/

/-- A variant is being updated that has certain references to other projects, and the variants of an
earlier graph are still there. -/
structure Referring (id : Nat) (h : Handle) (before : Store) (refs : Table String Handle) (r : Reconciler) :
    Prop where
  updating : Updating id h r
  grown : Extends before r.store
  kept : ∀ {w}, r.store.Has id w → w.handle = h → w.projectRefs = refs

/-- Updates of the tables of a variant leave its references to other projects alone. -/
theorem entryUpdates_referring (slot : Slot) (id : Nat) (h : Handle) (before : Store)
    (refs : Table String Handle) : EntryUpdates slot id h (Referring id h before refs) where
  wellFormed hr := hr.updating.1
  owns hr := hr.updating.2
  drop {r v key ref} hr hv hh hkey := by
    obtain ⟨hwf, -⟩ := hr.updating
    obtain ⟨-, hext⟩ := hwf.dropEntry slot id h (key, ref)
    refine ⟨(entryUpdates_updating slot id h).drop hr.updating hv hh hkey, hr.grown.trans hext,
      fun {w} hw hwh => ?_⟩
    subst hh
    rw [dropEntry_store] at hw
    rw [eq_of_modified hwf.sound hv (fun v => slot.update_handle _ v) hw hwh, slot.update_projectRefs]
    exact hr.kept hv rfl
  add {r} item hr := by
    obtain ⟨hwf, v, hv, rfl⟩ := hr.updating
    obtain ⟨-, hext⟩ := hwf.addEntry hv slot item
    refine ⟨(entryUpdates_updating slot id v.handle).add item hr.updating, hr.grown.trans hext,
      fun {w} hw hwh => ?_⟩
    rw [addEntry_eq hwf.sound hv] at hw
    split at hw
    · exact hr.kept hw hwh
    · split at hw
      · rw [modifyVariant_store, offered_store] at hw
        rw [eq_of_modified hwf.sound hv (fun v => slot.update_handle _ v) hw hwh, slot.update_projectRefs]
        exact hr.kept hv rfl
      · rw [offered_store] at hw
        exact hr.kept hw hwh

theorem register_projectRefs (hr : r.WellFormed) (hv : r.store.Has id v) :
    ∃ w, (r.register id v.handle).store.Has id w ∧ w.handle = v.handle ∧ w.framework = v.framework ∧
      w.projectRefs = v.projectRefs := by
  obtain ⟨-, he | ⟨-, he⟩⟩ := register_store hr.sound hv <;> rw [he]
  · exact ⟨v, hv, rfl, rfl, rfl⟩
  · exact ⟨v.settle, hv.modify Variant.settle, rfl, rfl, rfl⟩

/-- The variant that a message is about has the references that it had, and none if it is new. -/
theorem ownVariant_projectRefs (hr : r.WellFormed) (hid : r.store.path? id = some q) (framework : Framework) :
    Extends r.store (r.ownVariant id framework).1.store ∧
      ∃ w, (r.ownVariant id framework).1.store.Has id w ∧ w.handle = (r.ownVariant id framework).2 ∧
        w.framework.name = framework.name ∧
        ∀ path t, w.projectRefs.get? path = some t ↔
          ∃ v, r.store.Has id v ∧ v.framework.name = framework.name ∧ v.projectRefs.get? path = some t := by
  have heq : r.ownVariant id framework =
      ((r.variantFor id framework).1.register id (r.variantFor id framework).2,
        (r.variantFor id framework).2) := rfl
  rw [heq]
  rcases r.variantFor_cases hid framework with ⟨v, hv, hn, he⟩ | ⟨hnew, he⟩ <;> rw [he]
  · obtain ⟨w, hw, hh, hf, hrefs⟩ := register_projectRefs hr hv
    refine ⟨(hr.register hv).2, w, hw, hh, by rw [hf, hn], fun path t => ?_⟩
    rw [hrefs]
    constructor
    · exact fun hget => ⟨v, hv, hn, hget⟩
    · rintro ⟨v', hv', hn', hget⟩
      rwa [hr.sound.name_inj hv hv' (hn.trans hn'.symm)]
  · have hr' : (r.created id framework).WellFormed := wellFormed_maintained.create hr hid hnew
    have hv : (r.created id framework).store.Has id { framework := framework, handle := ⟨r.nextHandle⟩ } :=
      (has_addVariant ⟨q, hid⟩).2 (Or.inr ⟨rfl, rfl⟩)
    obtain ⟨w, hw, hh, hf, hrefs⟩ := register_projectRefs hr' hv
    refine ⟨(extends_addVariant hid _).trans (hr'.register hv).2, w, hw, hh, by rw [hf], fun path t => ?_⟩
    rw [hrefs]
    constructor
    · exact fun hget => nomatch hget
    · exact fun ⟨v', hv', hn', _⟩ => absurd hn' (hnew hv')

/-- **What a message does to the references of its variant.** The variants that were there stay; a path
that the variant had keeps its target, and a new one gets the variant of the named framework. -/
theorem applyReferences_targets (hr : r.WellFormed) (hid : r.store.path? id = some q) (refs : References) :
    Extends r.store (r.applyReferences id refs).1.store ∧
      ∃ w, (r.applyReferences id refs).1.store.Has id w ∧ w.framework.name = refs.framework.name ∧
        ∀ path framework, (targets refs).get? path = some framework →
          (∀ v t, r.store.Has id v → v.framework.name = refs.framework.name →
            v.projectRefs.get? path = some t → w.projectRefs.get? path = some t) ∧
          ((∀ v, r.store.Has id v → v.framework.name = refs.framework.name →
            v.projectRefs.get? path = none) →
            (r.applyReferences id refs).1.store.Targets w path framework) := by
  obtain ⟨hext, v, hv, hh, hname, hrefs⟩ := ownVariant_projectRefs hr hid refs.framework
  have hown := wellFormed_maintained.ownVariant hr hid refs.framework
  rw [← hh] at hown
  have hr₀ : Referring id v.handle (r.ownVariant id refs.framework).1.store v.projectRefs
      (r.ownVariant id refs.framework).1 :=
    ⟨hown, Extends.refl _, fun hw hwh => by rw [(hown.1.sound.handle_inj hw hv hwh).2]⟩
  have hr₁ := (entryUpdates_referring .file id v.handle _ _).setEntries hr₀ (Slot.plain (refs.files.getD []))
  have hr₂ := (entryUpdates_referring .raw id v.handle _ _).setEntries hr₁
    (Slot.withBytes (refs.raws.getD .empty))
  obtain ⟨v₂, hv₂, hh₂⟩ := hr₂.updating.2
  obtain ⟨hr₃, hext₃, w, hw, hwh, -, htargets⟩ := (edgeUpdates_updating id v.handle).setProjects
    hr₂.updating hv₂ hh₂ (targets_nodup refs) targets_clean
  have heq : (r.applyReferences id refs).1 = (setProjects id v.handle
      (setEntries .raw id v.handle (setEntries .file id v.handle (r.ownVariant id refs.framework).1
        (Slot.plain (refs.files.getD []))) (Slot.withBytes (refs.raws.getD .empty))) (targets refs)).1 := by
    rw [hh]
    rfl
  rw [heq]
  have hlast := hr₂.grown.trans hext₃
  refine ⟨hext.trans hlast, w, hw, ?_, fun path framework hpath =>
    ⟨fun v' t hv' hn' hget => ?_, fun hnone => ?_⟩⟩
  · obtain ⟨u, hu, huh, hun⟩ := hlast.has hv
    rw [(hr₃.1.sound.handle_inj hw hu (hwh.trans huh.symm)).2, hun, hname]
  · have hkept : v₂.projectRefs.get? path = some t := by
      rw [hr₂.kept hv₂ hh₂]
      exact (hrefs path t).2 ⟨v', hv', hn', hget⟩
    rw [(htargets path framework hpath).1 (by rw [hkept]; exact nofun), hkept]
  · refine (htargets path framework hpath).2 ?_
    rw [hr₂.kept hv₂ hh₂, Option.eq_none_iff_forall_ne_some]
    intro t hget
    obtain ⟨v', hv', hn', hget'⟩ := (hrefs path t).1 hget
    rw [hnone v' hv' hn'] at hget'
    cases hget'

/-- The workspace has a reference of one variant to another. -/
def Joined (r : Reconciler) (v u : Handle) : Prop :=
  ∃ e, r.workspace.projects.get? v = some e ∧ u ∈ e.references

theorem Mirrored.joined_iff (hr : r.Mirrored) {path : String} {framework : Framework}
    (hv : r.store.Has id v) (ht : r.store.Targets v path framework) {j : Nat} {u : Variant}
    (hu : r.store.Has j u) (hj : r.store.path? j = some path) :
    r.Joined v.handle u.handle ↔ u.framework.name = framework.name ∧ u.registered = true := by
  have hreg : v.registered = true := by
    obtain ⟨-, t, -, -, -, hget⟩ := ht
    rw [← Bool.not_eq_false]
    exact fun hunreg => (hr.mirror.idle hv hunreg).not_refersTo _ ⟨path, hget⟩
  obtain ⟨e, he, hshows⟩ := hr.mirror.shown hv hreg
  have hjoined : r.Joined v.handle u.handle ↔ u.handle ∈ e.references := by
    constructor
    · rintro ⟨e', he', hmem⟩
      rw [he, Option.some.injEq] at he'
      rwa [he']
    · exact fun hmem => ⟨e, he, hmem⟩
  rw [hjoined, hshows.reference, hr.linked.refersTo_iff hr.sound hu hj hv, ht.get?_iff hr.sound hu hj,
    live_iff hr.sound hu]

/-- **When a reference follows the framework that its message names.** After a message about the
references of a variant, a listed path that the variant had before has its old target. So the reference is
to the framework that the message names, at all its ends, exactly if before the message the variant had no
reference under the path or had one to that very framework. This is so whichever workspace calls fail;
where none is due to, the workspace has the reference to the variant of the named framework, if that is
registered, and to no other variant of the project. -/
theorem reference_follows_iff (extension : String) (outages : Outages Workspace.Method) (steps : List Step)
    (m : Message) {before : Store} {id : Nat} {refs : References}
    (hd : ((facing extension outages).run steps).delivery? m = some ⟨before, id, .references refs⟩) :
    let r := (facing extension outages).run steps
    let r' := (r.apply m).1
    ∃ w, r'.store.Has id w ∧ w.framework.name = refs.framework.name ∧
      ∀ path framework, (targets refs).get? path = some framework →
        (∀ v t, r.store.Has id v → v.framework.name = refs.framework.name →
          v.projectRefs.get? path = some t → w.projectRefs.get? path = some t) ∧
        (r'.store.Follows id w path framework ↔
          ∀ v, r.store.Has id v → v.framework.name = refs.framework.name →
            v.projectRefs.get? path = none ∨ r.store.Targets v path framework) ∧
        (outages = {} → r'.store.Follows id w path framework →
          ∀ j u, r'.store.Has j u → r'.store.path? j = some path →
            (r'.Joined w.handle u.handle ↔ u.framework.name = framework.name ∧ u.registered = true)) := by
  intro r r'
  have hr : r.WellFormed := wellFormed_run extension outages steps
  have hr' : r'.WellFormed := wellFormed_maintained.apply hr m
  obtain ⟨-, p, hp, heq⟩ := apply_of_delivered hd
  have hid : (r.countMessage m.type).store.path? id = some p.path := by
    change (r.store.project? id).map _ = _
    rw [hp, Option.map_some]
  have hafter : r' = ((r.countMessage m.type).applyReferences id refs).1 := heq
  have hcount : (r.countMessage m.type).WellFormed := wellFormed_maintained.quiet _ r.logs hr
  obtain ⟨hext, w, hw, hname, htargets⟩ := applyReferences_targets hcount hid refs
  rw [← hafter] at hext hw htargets
  refine ⟨w, hw, hname, fun path framework hpath => ?_⟩
  obtain ⟨hkept, hnew⟩ := htargets path framework hpath
  refine ⟨hkept, ?_, fun hcalm hfollows j u hu hj => ?_⟩
  · rw [follows_iff hr'.sound hr'.linked hw]
    constructor
    · intro ht v hv hn
      cases hget : v.projectRefs.get? path with
      | none => exact Or.inl rfl
      | some t =>
          exact Or.inr (ht.of_extends hext hr'.sound hr.linked hv hget (hkept v t hv hn hget))
    · intro hold
      -- a variant that had the reference is the only one of its name, so it decides
      by_cases hhad : ∃ v t, r.store.Has id v ∧ v.framework.name = refs.framework.name ∧
          v.projectRefs.get? path = some t
      · obtain ⟨v, t, hv, hn, hget⟩ := hhad
        have ht : r.store.Targets v path framework := by
          refine (hold v hv hn).resolve_left ?_
          rw [hget]
          exact nofun
        exact ht.extends hext ((hkept v t hv hn hget).trans hget.symm)
      · refine hnew fun v hv hn => Option.eq_none_iff_forall_ne_some.2 fun t hget => ?_
        exact hhad ⟨v, t, hv, hn, hget⟩
  · subst hcalm
    have hm : r'.Mirrored := mirrored_maintained.apply (mirrored_run extension steps) m
    exact hm.joined_iff hw hfollows.target hu hj

/-- The message that the first project references a framework of the library. -/
def libraryMessage (framework : String) : Message where
  type := "References"
  contextId := 1
  payload := some <| "\x7b\"ProjectReferences\":[\x7b\"Path\":\"/lib/.\"," ++
    "\"Framework\":\x7b\"FrameworkName\":\"" ++ framework ++ "\"\x7d\x7d]\x7d"

theorem reference_follows_first_message :
    ∃ w, (((facing ".cs" {}).run [.track "/app"]).apply (libraryMessage "dnx")).1.store.Has 1 w ∧
      (((facing ".cs" {}).run [.track "/app"]).apply (libraryMessage "dnx")).1.store.Follows 1 w "/lib"
        { name := "dnx" } := by
  let before : Store := { nextId := 2, projects := ⟨[(1, { path := "/app" })]⟩, byPath := ⟨[("/app", 1)]⟩ }
  have hd : ((facing ".cs" {}).run [.track "/app"]).delivery? (libraryMessage "dnx") =
      some ⟨before, 1,
        .references { projects := some [{ path := "/lib/.", framework := { name := "dnx" } }] }⟩ := by
    decide +kernel
  have hnone : ((facing ".cs" {}).run [.track "/app"]).store.variants = [] := by
    decide +kernel
  obtain ⟨w, hw, -, hrefs⟩ := reference_follows_iff ".cs" {} [.track "/app"] _ hd
  obtain ⟨-, hfollows, -⟩ := hrefs "/lib" { name := "dnx" } (by decide +kernel)
  refine ⟨w, hw, hfollows.2 fun v hv _ => ?_⟩
  have hmem := mem_variants.2 ⟨1, hv⟩
  rw [hnone] at hmem
  cases hmem

/-- A path that stays keeps its target: the second message names another framework, and the reference is
still to the first one, where the referrer waits. -/
theorem kept_path_keeps_framework :
    let r := (new ".cs").run
      [.track "/app", .apply (libraryMessage "dnx"), .apply (libraryMessage "core")]
    ∃ v u, r.store.Has 1 v ∧ r.store.Has 2 u ∧ u.framework.name = "dnx" ∧
      v.projectRefs.get? "/lib" = some u.handle ∧ v.handle ∈ u.pending ∧
      ¬r.store.Targets v "/lib" { name := "core" } := by
  intro r
  let v : Variant := {
    framework := {}
    handle := ⟨1⟩
    registered := true
    projectRefs := ⟨[("/lib", ⟨2⟩)]⟩ }
  let u : Variant := {
    framework := { name := "dnx" }
    handle := ⟨2⟩
    dependees := ⟨[("/app", 1)]⟩
    pending := [⟨1⟩] }
  have hstore : r.store = {
      nextId := 3
      projects := ⟨[(1, { path := "/app", variants := [v] }), (2, { path := "/lib", variants := [u] })]⟩
      byPath := ⟨[("/app", 1), ("/lib", 2)]⟩ } := by
    decide +kernel
  rw [hstore]
  refine ⟨v, u, ⟨_, rfl, List.mem_singleton_self v⟩, ⟨_, rfl, List.mem_singleton_self u⟩, rfl, by decide,
    by decide, ?_⟩
  rintro ⟨j, t, ht, -, hn, -⟩
  have hnames : ∀ t ∈ [v, u], t.framework.name ≠ "core" := by decide
  exact hnames t (mem_variants.2 ⟨j, ht⟩) hn

end Reconciler

end CompilationBridge.Graph
