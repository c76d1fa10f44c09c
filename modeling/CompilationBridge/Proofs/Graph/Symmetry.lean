import CompilationBridge.Proofs.Graph.Runs

/-! The graph stays sound and linked in every run, whichever workspace calls fail. What the operations
do to the graph depends on a failing call in two ways only: a variant that the workspace refuses is not
registered, and an entry that it refuses is not recorded. Neither touches an edge. -/

namespace CompilationBridge.Graph

namespace Store

theorem Extends.owns {s s' : Store} (he : Extends s s') {id : Nat} {h : Handle} (ho : s.Owns id h) :
    s'.Owns id h := by
  obtain ⟨v, hv, rfl⟩ := ho
  obtain ⟨w, hw, hh, -⟩ := he.has hv
  exact ⟨w, hw, hh⟩

theorem Plain.extends {s : Store} {h : Handle} {f : Variant → Variant} (hf : s.Plain h f) :
    Extends s (s.modifyVariant h f) where
  path hq := (path?_modifyVariant ..).trans hq
  has {i v} hv := by
    refine ⟨changed h f v, has_modifyVariant.2 ⟨v, hv, rfl⟩, ?_, ?_⟩
    · unfold changed
      split
      · exact hf.handle v
      · rfl
    · unfold changed
      split
      · exact hf.name hv ‹_›
      · rfl

/-- What is known of a project as a whole is apart from its path and its variants. -/
theorem image_modifyProject (s : Store) (id : Nat) {f : Project → Project}
    (hpath : ∀ p, (f p).path = p.path) (hvariants : ∀ p, (f p).variants = p.variants) :
    Image s (s.modifyProject id f hpath) fun v => v := by
  refine ⟨fun i w => ?_, fun i => path?_modifyProject s id i hpath,
    fun i => handles_modifyProject s id i hpath hvariants⟩
  rw [has_modifyProject hpath hvariants]
  exact ⟨fun hw => ⟨w, hw, rfl⟩, fun ⟨_, hv, hw⟩ => hw ▸ hv⟩

theorem Sound.keeps_all {s : Store} {next : Nat} (hs : s.Sound next) : s.Keeps fun v => v :=
  ⟨fun _ => rfl, fun _ => rfl, hs.tidy⟩

/-- A reference to a variant stands under the path of its project. -/
theorem Linked.refersTo_iff {s : Store} {next : Nat} (hs : s.Sound next) (hl : s.Linked) {j a : Nat}
    {t v : Variant} {q : String} (ht : s.Has j t) (hq : s.path? j = some q) (hv : s.Has a v) :
    v.RefersTo t.handle ↔ v.projectRefs.get? q = some t.handle := by
  constructor
  · rintro ⟨path, hpath⟩
    obtain ⟨k, ⟨u, hu, huh⟩, hk⟩ := hl.target hv hpath
    obtain ⟨rfl, -⟩ := hs.handle_inj hu ht huh
    rw [hq, Option.some.injEq] at hk
    rwa [hk]
  · exact fun hpath => ⟨q, hpath⟩

end Store

namespace Reconciler

open Store

variable {r : Reconciler} {id : Nat} {h : Handle} {v : Variant}

/-! ### The operations -/

theorem WellFormed.addEntry (hr : r.WellFormed) (hv : r.store.Has id v) (slot : Slot) (item : Slot.Item) :
    (addEntry slot id v.handle r item).WellFormed ∧
      Extends r.store (addEntry slot id v.handle r item).store := by
  rw [addEntry_eq hr.sound hv]
  split
  · exact ⟨hr, Extends.refl _⟩
  · have hoffered : (offered slot id v.handle r item).1.store = r.store := offered_store ..
    have hnext : r.nextHandle ≤ (offered slot id v.handle r item).1.nextHandle := by
      rw [offered_nextHandle]
      exact Nat.le_succ _
    split
    · have hplain : r.store.Plain v.handle (slot.update (·.put item.key ⟨r.nextHandle⟩)) :=
        plain_update r.store slot v.handle fun _ ht => Table.keys_put_nodup ht _ _
      refine ⟨hr.plain hplain (by rw [modifyVariant_store, hoffered]) hnext, ?_⟩
      rw [modifyVariant_store, hoffered]
      exact hplain.extends
    · refine ⟨⟨?_, ?_⟩, ?_⟩
      · rw [hoffered]
        exact hr.sound.mono hnext
      · rw [hoffered]
        exact hr.linked
      · rw [hoffered]
        exact Extends.refl _

theorem WellFormed.dropEntry (hr : r.WellFormed) (slot : Slot) (id : Nat) (h : Handle)
    (entry : String × Handle) :
    (dropEntry slot id h r entry).WellFormed ∧ Extends r.store (dropEntry slot id h r entry).store := by
  have hplain : r.store.Plain h (slot.update (·.erase entry.1)) :=
    plain_update r.store slot h fun _ ht => Table.keys_erase_nodup ht _
  refine ⟨hr.plain hplain (dropEntry_store ..) (Nat.le_of_eq (dropEntry_steady ..).nextHandle.symm), ?_⟩
  rw [dropEntry_store]
  exact hplain.extends

theorem WellFormed.register (hr : r.WellFormed) (hv : r.store.Has id v) :
    (r.register id v.handle).WellFormed ∧ Extends r.store (r.register id v.handle).store := by
  obtain ⟨⟨hn, -⟩, he | ⟨-, he⟩⟩ := register_store hr.sound hv
  · refine ⟨hr.of_eq he hn, ?_⟩
    rw [he]
    exact Extends.refl _
  · refine ⟨⟨?_, ?_⟩, ?_⟩
    · rw [he, hn]
      exact sound_settle hr.sound v.handle
    · rw [he]
      exact linked_settle hr.sound hr.linked v.handle
    · rw [he]
      have hkeep : ∀ v, (Variant.settle v).handle = v.handle := fun _ => rfl
      exact (alters_modify r.store v.handle hkeep).extends fun _ => ⟨rfl, rfl⟩

theorem WellFormed.teardown (hr : r.WellFormed) (hv : r.store.Has id v) (hreg : v.registered = true) :
    (r.teardown id v.handle).WellFormed := by
  obtain ⟨p, hp, hmem⟩ := hv
  have hv : r.store.Has id v := ⟨p, hp, hmem⟩
  obtain ⟨-, hs, hl⟩ := tornDown_effect hr.sound hr.linked hp hv hreg
  have hnext : (r.afterTeardown id p v).nextHandle = r.nextHandle := (carryOut_untouched ..).nextHandle
  rcases teardown_effect hr.sound hr.linked hp hv hreg with he | ⟨he, -, hl'⟩ <;> rw [he]
  · exact ⟨hnext.symm ▸ hs, hl⟩
  · exact ⟨hnext.symm ▸ hs.removeVariant v.handle, hl'⟩

theorem WellFormed.modifyProject (hr : r.WellFormed) (id : Nat) {f : Project → Project}
    (hpath : ∀ p, (f p).path = p.path) (hvariants : ∀ p, (f p).variants = p.variants) :
    WellFormed { r with store := r.store.modifyProject id f hpath } :=
  have hi := image_modifyProject r.store id hpath hvariants
  ⟨hr.sound.image hi hr.sound.keeps_all, Linked.of_image hi hr.sound.keeps_all hr.linked.target
    hr.linked.dependee hr.linked.nodup hr.linked.settled hr.linked.waiting⟩

theorem plain_options (s : Store) (h : Handle) (options : CompilerOptions) : s.Plain h fun v =>
    { v with compilation := some options.compilation, parse := some options.parse } :=
  ⟨fun _ => rfl, fun _ _ => rfl, fun _ hv => hv, fun _ => rfl, fun _ => rfl, fun _ => rfl, fun _ => rfl⟩

theorem plain_loaded (s : Store) (h : Handle) : s.Plain h fun v => { v with loaded := true } :=
  ⟨fun _ => rfl, fun _ _ => rfl, fun _ hv => hv, fun _ => rfl, fun _ => rfl, fun _ => rfl, fun _ => rfl⟩

theorem plain_relabel (hs : r.store.Sound r.nextHandle) (hv : r.store.Has id v) {framework : Framework}
    (hn : v.framework.name = framework.name) :
    r.store.Plain v.handle fun v => { v with framework := framework } where
  handle _ := rfl
  name hw hh := by rw [(hs.handle_inj hw hv hh).2, hn]
  tidy _ hw := hw
  projectRefs _ := rfl
  dependees _ := rfl
  registered _ := rfl
  pending _ := rfl

/-! ### Every run -/

/-- The graph is well formed and has the variant that is being updated. -/
def Updating (id : Nat) (h : Handle) (r : Reconciler) : Prop :=
  r.WellFormed ∧ r.store.Owns id h

theorem entryUpdates_updating (slot : Slot) (id : Nat) (h : Handle) :
    EntryUpdates slot id h (Updating id h) where
  wellFormed hr := hr.1
  owns hr := hr.2
  drop hr _ _ _ := by
    obtain ⟨hwf, hext⟩ := hr.1.dropEntry slot id h _
    exact ⟨hwf, hext.owns hr.2⟩
  add item hr := by
    obtain ⟨v, hv, rfl⟩ := hr.2
    obtain ⟨hwf, hext⟩ := hr.1.addEntry hv slot item
    exact ⟨hwf, hext.owns hr.2⟩

theorem edgeUpdates_updating (id : Nat) (h : Handle) : EdgeUpdates id h (Updating id h) where
  wellFormed hr := hr.1
  owns hr := hr.2
  dropProject hr hv hh hedge := by
    subst hh
    obtain ⟨ha, hs, hl⟩ := dropProject_effect hr.1.sound hr.1.linked hv hedge
    refine ⟨⟨?_, hl⟩, (ha.extends fun _ => ⟨rfl, rfl⟩).owns hr.2⟩
    rw [(makes_dropProject ..).steady.nextHandle]
    exact hs
  track path hr := ⟨⟨hr.1.sound.track path, hr.1.linked.track path⟩, owns_track.2 hr.2⟩
  create hr hj hnew := ⟨⟨hr.1.sound.addVariant hj hnew, hr.1.linked.addVariant hr.1.sound hj _⟩,
    (extends_addVariant hj _).owns hr.2⟩
  link hr hq hv hh hnew hu hj := by
    subst hh
    obtain ⟨ha, hs, hl⟩ := link_effect hr.1.sound hr.1.linked hq hv hu hj hnew
    refine ⟨⟨?_, hl⟩, (ha.extends fun _ => ⟨rfl, rfl⟩).owns hr.2⟩
    rw [(makes_link ..).steady.nextHandle]
    exact hs

/-- The operations of the reconciler keep the graph well formed. -/
theorem wellFormed_maintained : Maintained WellFormed Updating where
  wellFormed hr := hr
  quiet _ _ hr := hr.of_eq rfl rfl
  track path hr := ⟨hr.sound.track path, hr.linked.track path⟩
  visit _ hr := hr.of_eq rfl rfl
  describe id info hr := hr.modifyProject id (path_describe info) fun _ => rfl
  create hr hj hnew := ⟨hr.sound.addVariant hj hnew, hr.linked.addVariant hr.sound hj _⟩
  relabel hr hv hn := hr.plain (plain_relabel hr.sound hv hn) rfl (Nat.le_refl _)
  teardown hr hv hreg := hr.teardown hv hreg
  register hr hv := by
    obtain ⟨hwf, hext⟩ := hr.register hv
    exact ⟨hwf, hext.owns ⟨_, hv, rfl⟩⟩
  done hr := hr.1
  entries := entryUpdates_updating
  edges := edgeUpdates_updating
  setOptions {r _ h} options hr := by
    have hplain := plain_options r.store h options
    refine ⟨hr.1.plain hplain (setOptions_store ..) (Nat.le_of_eq (makes_setOptions ..).steady.nextHandle.symm), ?_⟩
    rw [setOptions_store]
    exact hplain.extends.owns hr.2
  markLoaded {r _ h} hr := by
    have hplain := plain_loaded r.store h
    exact ⟨hr.1.plain hplain rfl (Nat.le_refl _), hplain.extends.owns hr.2⟩

theorem extends_listFramework (hr : r.WellFormed) {id : Nat} {q : String} (hid : r.store.path? id = some q)
    (framework : Framework) : Extends r.store (listFramework id r framework).store := by
  have hmade : Extends r.store (r.variantFor id framework).1.store := by
    rcases r.variantFor_cases hid framework with ⟨_, _, _, he⟩ | ⟨_, he⟩ <;> rw [he]
    · exact Extends.refl _
    · exact extends_addVariant hid _
  obtain ⟨hr₁, v, hv, hn, hh⟩ := wellFormed_maintained.variantFor hr hid framework
  have hplain := plain_relabel hr₁.sound hv hn
  have hr₂ := wellFormed_maintained.relabel hr₁ hv hn
  have hv₂ := hv.modify fun v => { v with framework := framework }
  change Extends r.store (((r.variantFor id framework).1.modifyVariant (r.variantFor id framework).2 _).register
    id (r.variantFor id framework).2).store
  rw [hh]
  exact (hmade.trans hplain.extends).trans (hr₂.register hv₂).2

/-- The variant of a listed framework is there when it has been brought up to date. -/
theorem updating_listFramework (hr : r.WellFormed) {q : String} (hid : r.store.path? id = some q)
    (framework : Framework) : Updating id (r.variantFor id framework).2 (listFramework id r framework) := by
  obtain ⟨hr₁, v, hv, hn, hh⟩ := wellFormed_maintained.variantFor hr hid framework
  change Updating id (r.variantFor id framework).2
    (((r.variantFor id framework).1.modifyVariant (r.variantFor id framework).2 _).register id
      (r.variantFor id framework).2)
  rw [hh]
  have hv₁ := hv.modify fun v => { v with framework := framework }
  have hregister := wellFormed_maintained.register (wellFormed_maintained.relabel hr₁ hv hn) hv₁
  exact hregister

theorem wellFormed_of_empty {r : Reconciler} (hr : r.store = {}) : r.WellFormed := by
  have hproject : ∀ i : Nat, r.store.project? i = none := by
    intro i
    rw [hr]
    rfl
  have hnone : ∀ {i v}, ¬r.store.Has i v := by
    rintro i v ⟨p, hp, -⟩
    rw [hproject] at hp
    cases hp
  have hpath : ∀ {i q}, r.store.path? i ≠ some q := by
    intro i q hq
    rw [path?, hproject] at hq
    cases hq
  have hhandles : ∀ i, r.store.handles i = [] := by
    intro i
    rw [handles, hproject]
    rfl
  exact {
    sound := ⟨fun h => absurd h hpath, fun h => absurd h hnone,
      fun h => absurd h hnone, fun h => absurd h hnone, fun h => absurd h hnone,
      fun i => by rw [hhandles]; exact List.nodup_nil⟩
    linked := ⟨fun h => absurd h hnone, fun h => absurd h hnone, fun h => absurd h hnone,
      fun h => absurd h hnone, fun h => absurd h hnone⟩ }

/-- A new reconciler with outages of the workspace ahead. -/
def facing (extension : String) (outages : Outages Workspace.Method) : Reconciler :=
  { new extension with outages := outages }

theorem wellFormed_run (extension : String) (outages : Outages Workspace.Method) (steps : List Step) :
    ((facing extension outages).run steps).WellFormed :=
  wellFormed_maintained.run (wellFormed_of_empty rfl) steps

/-- The turn of a framework that a message leaves out, in whatever order it visits them: its variant is
there when it is torn down, and is forgotten only if nothing refers to it then. -/
theorem WellFormed.dismantle (hr : r.WellFormed) {p : Project} (hp : r.store.project? id = some p)
    (info : ProjectInformation) {done rest : List Handle}
    (hgone : (done ++ h :: rest).Perm (omitted (describe info p) (info.frameworks.getD []))) :
    ∃ p' v, (r.dismantled id info done).store.project? id = some p' ∧
      (r.dismantled id info done).store.variant? h = some v ∧
      (((r.dismantled id info done).teardown id h).store = tornDown (r.dismantled id info done).store p' v ∨
        (((r.dismantled id info done).teardown id h).store =
            (tornDown (r.dismantled id info done).store p' v).removeVariant h ∧
          ∀ a w, (tornDown (r.dismantled id info done).store p' v).Has a w → ¬w.RefersTo h)) := by
  have hr₁ := wellFormed_maintained.describe id info hr
  have hp₁ := project?_describeIn hp info
  have hn := hgone.nodup_iff.2 (omitted_nodup hr₁.sound hp₁ (info.frameworks.getD []))
  have hall : ∀ k ∈ done ++ h :: rest, Registers (describeIn r.store id info) id k :=
    fun k hk => omitted_registers hp₁ _ k (hgone.mem_iff.1 hk)
  rw [List.nodup_append] at hn
  have hnot : h ∉ done := fun hmem => hn.2.2 h hmem h List.mem_cons_self rfl
  have hdone : ∀ k ∈ done, Registers (describeIn r.store id info) id k :=
    fun k hk => hall k (List.mem_append_left _ hk)
  obtain ⟨hr₂, hkeep⟩ := foldl_teardown (Q := fun _ => WellFormed) (fun hr => hr)
    (fun hr hv hreg => hr.teardown hv hreg) hn.1 hdone [] hr₁
  obtain ⟨v, hv, rfl, hreg⟩ :=
    hkeep h hnot (hall h (List.mem_append_right _ List.mem_cons_self))
  obtain ⟨p', hp', hmem⟩ := hv
  have hv : (r.dismantled id info done).store.Has id v := ⟨p', hp', hmem⟩
  refine ⟨p', v, hp', hr₂.sound.variant? hv, ?_⟩
  rcases teardown_effect hr₂.sound hr₂.linked hp' hv hreg with he | ⟨he, hin, -⟩
  · exact Or.inl (congrArg Reconciler.store he)
  · exact Or.inr ⟨congrArg Reconciler.store he, fun _ _ hw => hin hw⟩

/-- **Edges agree in every run, whichever workspace calls fail.** The target of a reference is a variant
of the project at the path that the reference stands under. A variant has the edge back to a project
exactly if some variant of the project references it. Nothing waits for a registered variant, and exactly
its referrers wait, each once, for one that is not registered. A variant that a step removes is referred
to by nothing after the step, and by nothing at the moment when it is removed, in whatever order a message
visits the variants that it leaves out. -/
theorem edges_agree (extension : String) (outages : Outages Workspace.Method) (steps : List Step) :
    let r := (facing extension outages).run steps
    (∀ i v path t, r.store.Has i v → v.projectRefs.get? path = some t →
      ∃ j u, r.store.variant? t = some u ∧ r.store.Has j u ∧ r.store.path? j = some path) ∧
    (∀ j t q, r.store.Has j t → r.store.path? j = some q →
      (∀ x a, t.dependees.get? x = some a → r.store.path? a = some x) ∧
      ∀ a x, r.store.path? a = some x → (t.dependees.get? x = some a ↔
        ∃ v, r.store.Has a v ∧ v.projectRefs.get? q = some t.handle)) ∧
    (∀ j t q, r.store.Has j t → r.store.path? j = some q →
      t.pending.Nodup ∧ (t.registered = true → t.pending = []) ∧
      (t.registered = false → ∀ k, k ∈ t.pending ↔
        ∃ a v, r.store.Has a v ∧ v.handle = k ∧ v.projectRefs.get? q = some t.handle)) ∧
    (∀ s h, r.store.variant? h ≠ none → (r.step s).store.variant? h = none →
      ∀ a w, (r.step s).store.Has a w → ¬w.RefersTo h) ∧
    ∀ (id : Nat) p info done h rest, r.store.project? id = some p →
      (done ++ h :: rest).Perm (omitted (describe info p) (info.frameworks.getD [])) →
      ∃ p' v, (r.dismantled id info done).store.project? id = some p' ∧
        (r.dismantled id info done).store.variant? h = some v ∧
        (((r.dismantled id info done).teardown id h).store =
            tornDown (r.dismantled id info done).store p' v ∨
          (((r.dismantled id info done).teardown id h).store =
              (tornDown (r.dismantled id info done).store p' v).removeVariant h ∧
            ∀ a w, (tornDown (r.dismantled id info done).store p' v).Has a w → ¬w.RefersTo h)) := by
  intro r
  have hr : r.WellFormed := wellFormed_run extension outages steps
  refine ⟨?_, ?_, ?_, ?_, ?_⟩
  · intro i v path t hv hpath
    obtain ⟨j, ho, hj⟩ := hr.linked.target hv hpath
    obtain ⟨u, hu, hju, -⟩ := hr.sound.has_variant? ho
    exact ⟨j, u, hu, hju, hj⟩
  · intro j t q ht hq
    refine ⟨fun x a hx => ((hr.linked.dependee ht x a).1 hx).1, fun a x ha => ?_⟩
    rw [hr.linked.dependee ht x a, and_iff_right ha]
    exact exists_congr fun v => and_congr_right fun hv => hr.linked.refersTo_iff hr.sound ht hq hv
  · intro j t q ht hq
    refine ⟨hr.linked.nodup ht, hr.linked.settled ht, fun hreg k => ?_⟩
    rw [hr.linked.waiting ht hreg]
    exact exists_congr fun a => exists_congr fun v => and_congr_right fun hv =>
      and_congr_right fun _ => hr.linked.refersTo_iff hr.sound ht hq hv
  · rintro s h - hgone a w hw ⟨path, hpath⟩
    have hr' : (r.step s).WellFormed := by
      have hrun := wellFormed_run extension outages (steps ++ [s])
      rwa [run_append] at hrun
    obtain ⟨j, ho, -⟩ := hr'.linked.target hw hpath
    obtain ⟨u, hu, -⟩ := hr'.sound.has_variant? ho
    rw [hgone] at hu
    cases hu
  · intro id p info done h rest hp hgone
    exact hr.dismantle hp info hgone

end Reconciler

end CompilationBridge.Graph
