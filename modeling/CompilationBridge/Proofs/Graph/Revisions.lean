import CompilationBridge.Proofs.Graph.Payloads
import CompilationBridge.Proofs.Graph.Rewiring

/-! Messages about the references and the sources of a variant, where no workspace call fails. First the variant
is registered unless it was, then its tables are brought to what the message lists, each by the calls for the
difference. When the same message comes again there is no difference. -/

namespace CompilationBridge.Graph.Reconciler

open Store

variable {r r' : Reconciler} {id : Nat} {h : Handle} {v : Variant}

/-! ### The variant of a message -/

theorem waits_addVariant {s : Store} {q : String} (hid : s.path? id = some q) (framework : Framework)
    (h k t : Handle) :
    (s.addVariant id { framework := framework, handle := h }).Waits k t ↔ s.Waits k t := by
  constructor
  · rintro ⟨j, u, hu, hh, hmem⟩
    rcases (has_addVariant ⟨q, hid⟩).1 hu with hu | ⟨-, rfl⟩
    · exact ⟨j, u, hu, hh, hmem⟩
    · cases hmem
  · rintro ⟨j, u, hu, hh, hmem⟩
    exact ⟨j, u, (has_addVariant ⟨q, hid⟩).2 (Or.inl hu), hh, hmem⟩

/-- Nothing waits any longer for a variant that is settled. -/
theorem waits_settle {s : Store} (h k t : Handle) :
    (s.modifyVariant h Variant.settle).Waits k t ↔ s.Waits k t ∧ t ≠ h := by
  constructor
  · rintro ⟨j, w, hw, rfl, hmem⟩
    obtain ⟨u, hu, rfl⟩ := has_modifyVariant.1 hw
    by_cases hh : u.handle = h
    · rw [changed_of_eq hh] at hmem
      cases hmem
    · rw [changed_of_ne hh] at hmem ⊢
      exact ⟨⟨j, u, hu, rfl, hmem⟩, hh⟩
  · rintro ⟨⟨j, u, hu, rfl, hmem⟩, hne⟩
    exact ⟨j, u, has_modifyVariant.2 ⟨u, hu, (changed_of_ne hne).symm⟩, rfl, hmem⟩

/-- The variant of a project for a framework before a message about it; a blank one where there is none. -/
def ownOf (r : Reconciler) (p : Project) (framework : Framework) : Variant :=
  (p.variant? framework.name).getD { framework := framework, handle := ⟨r.nextHandle⟩ }

/-- The variant of a message is found or made, and is the only thing that may be new. -/
theorem variantFor_eq (hr : r.WellFormed) {p : Project} (hp : r.store.project? id = some p)
    (framework : Framework) :
    (r.variantFor id framework).2 = (r.ownOf p framework).handle ∧
      (r.ownOf p framework).framework.name = framework.name ∧
      (∃ p', (r.variantFor id framework).1.store.project? id = some p' ∧ p'.name = p.name ∧
        p'.path = p.path ∧ r.ownOf p framework ∈ p'.variants) ∧
      (r.variantFor id framework).1.calls = r.calls ∧
      ∀ k t, (r.variantFor id framework).1.store.Waits k t ↔ r.store.Waits k t := by
  have hid : r.store.path? id = some p.path := by rw [path?, hp, Option.map_some]
  rcases r.variantFor_cases hid framework with ⟨v, ⟨p', hp', hv⟩, hn, he⟩ | ⟨hnew, he⟩
  · obtain rfl := Option.some.inj (hp'.symm.trans hp)
    have hown : r.ownOf p' framework = v := by
      rw [ownOf, ← hn, variant?_of_mem hr.sound hp hv, Option.getD_some]
    rw [he, hown]
    exact ⟨rfl, hn, ⟨p', hp, rfl, rfl, hv⟩, rfl, fun _ _ => Iff.rfl⟩
  · have hown : r.ownOf p framework = { framework := framework, handle := ⟨r.nextHandle⟩ } := by
      have hnone : p.variant? framework.name = none :=
        List.find?_eq_none.2 fun v hv => by simpa using hnew ⟨p, hp, hv⟩
      rw [ownOf, hnone, Option.getD_none]
    have hp' : (r.created id framework).store.project? id =
        some { p with variants := p.variants ++ [r.ownOf p framework] } := by
      rw [created, addVariant, project?_modifyProject, if_pos rfl, hp, Option.map_some, hown]
    rw [he]
    refine ⟨by rw [hown], by rw [hown], ⟨_, hp', rfl, rfl, ?_⟩, rfl, waits_addVariant hid framework _⟩
    exact List.mem_append_right _ (List.mem_singleton_self _)

/-- Where no call fails, the variant of a message is settled before anything else is done. -/
theorem ownVariant_of_smooth (hr : r.WellFormed) {p : Project} (hp : r.store.project? id = some p)
    {framework : Framework} (hsmooth : Smooth r (r.ownVariant id framework).1) :
    (r.ownVariant id framework).2 = (r.ownOf p framework).handle ∧
      (r.ownVariant id framework).1.WellFormed ∧
      (r.ownVariant id framework).1.store.Has id (r.ownOf p framework).settle ∧
      Asks r (r.ownVariant id framework).1 (registeringCalls p (r.ownOf p framework)) ∧
      ∀ k t, (r.ownVariant id framework).1.store.Waits k t ↔
        r.store.Waits k t ∧ t ≠ (r.ownOf p framework).handle := by
  have hid : r.store.path? id = some p.path := by rw [path?, hp, Option.map_some]
  obtain ⟨hr₁, -⟩ := wellFormed_maintained.variantFor hr hid framework
  obtain ⟨hh, -, ⟨p', hp', hname, hpath, hmem⟩, hcalls, hwaits⟩ := variantFor_eq hr hp framework
  have hu : (r.variantFor id framework).1.store.Has id (r.ownOf p framework) := ⟨p', hp', hmem⟩
  have hown : r.ownVariant id framework =
      ((r.variantFor id framework).1.register id (r.ownOf p framework).handle, (r.ownOf p framework).handle) := by
    rw [← hh]
    rfl
  rw [hown] at hsmooth ⊢
  obtain ⟨-, hregister⟩ := hsmooth.split (r.precedes_variantFor id framework) (precedes_register ..)
  have hstore := register_store_of_smooth hr₁ hu hregister
  have hadding : registeringCalls p' (r.ownOf p framework) = registeringCalls p (r.ownOf p framework) := by
    rw [registeringCalls, registeringCalls, addingCall, addingCall, hname, hpath]
  refine ⟨rfl, (hr₁.register hu).1, ?_, ?_, fun k t => ?_⟩
  · rw [hstore]
    exact hu.modify Variant.settle
  · rw [← hadding]
    exact (asks_of_calls hcalls).trans (asks_of_register hr₁.sound hp' hmem hregister)
  · rw [hstore, waits_settle, hwaits]

/-- The variant of a message that is registered is left alone. -/
theorem ownVariant_of_registered (hr : r.WellFormed) (hv : r.store.Has id v) (hreg : v.registered = true)
    {framework : Framework} (hn : v.framework.name = framework.name) :
    r.ownVariant id framework = (r, v.handle) := by
  obtain ⟨q, hq⟩ := hv.path
  rcases r.variantFor_cases hq framework with ⟨w, hw, hwn, he⟩ | ⟨hnew, -⟩
  · obtain rfl := hr.sound.name_inj hw hv (hwn.trans hn.symm)
    unfold ownVariant
    simp only [he, register_of_registered hr.sound hw hreg]
  · exact absurd hn (hnew hv)

/-! ### References -/

/-- What a message about the references of a variant does. The variant was `u` before it, blank if there was
none, and is `w` after it. -/
structure Referenced (id : Nat) (p : Project) (refs : References) (u w : Variant) (r r' : Reconciler) : Prop where
  wellFormed : r'.WellFormed
  has : r'.store.Has id w
  content : w.content = { u.settle with
    fileRefs := w.fileRefs
    rawRefs := w.rawRefs
    projectRefs := w.projectRefs }.content
  files : Table.Follows (· ∈ refs.files.getD []) u.fileRefs w.fileRefs
  raws : Table.Follows (fun name => (refs.raws.getD .empty).contains name = true) u.rawRefs w.rawRefs
  projects : Table.Follows (fun path => ∃ q ∈ refs.projects.getD [], Path.clean q.path = path)
    u.projectRefs w.projectRefs
  calls : Asks r r' (registeringCalls p u ++
    (Slot.file.updateCalls u.handle (Slot.plain (refs.files.getD [])) u.fileRefs w.fileRefs ++
      Slot.raw.updateCalls u.handle (Slot.withBytes (refs.raws.getD .empty)) u.rawRefs w.rawRefs ++
      edgeCalls r'.store u.handle u.projectRefs w.projectRefs))
  /-- The variant waits for those of its targets that are not registered, and the others wait for what they
  waited for, unless it was this variant. -/
  waits : ∀ k t, r'.store.Waits k t ↔
    if k = u.handle then w.RefersTo t ∧ ¬r'.store.Live t else r.store.Waits k t ∧ t ≠ u.handle

/-- A table of a variant is brought to what a message lists. -/
structure Revises (slot : Slot) (id : Nat) (items : List Slot.Item) (v : Variant) (now : Table String Handle)
    (r r' : Reconciler) : Prop where
  wellFormed : r'.WellFormed
  has : r'.store.Has id (slot.update (fun _ => now) v)
  around : Around v.handle r.store r'.store
  follows : Table.Follows (fun key => items.any (·.key = key) = true) (slot.table v) now
  asks : Asks r r' (slot.updateCalls v.handle items (slot.table v) now)

theorem revises_setEntries (hr : r.WellFormed) (hv : r.store.Has id v) {slot : Slot} {items : List Slot.Item}
    (hsmooth : Smooth r (setEntries slot id v.handle r items)) :
    ∃ now, Revises slot id items v now r (setEntries slot id v.handle r items) := by
  obtain ⟨now, hfollows, hstore, hasks⟩ := setEntries_exact hr hv rfl hsmooth
  refine ⟨now, ((entryUpdates_updating slot id v.handle).setEntries ⟨hr, v, hv, rfl⟩ items).1, ?_, ?_, hfollows, hasks⟩
  · rw [hstore]
    exact hv.modify _
  · rw [hstore]
    exact (alters_modify r.store v.handle fun v => slot.update_handle _ v).around
      fun v => ⟨slot.update_handle _ v, slot.update_registered _ v⟩

theorem setReferences_of_smooth (hr : r.WellFormed) (hv : r.store.Has id v) {refs : References}
    (hsmooth : Smooth r (setReferences id v.handle r refs).1) :
    ∃ files raws projects,
      Table.Follows (· ∈ refs.files.getD []) v.fileRefs files ∧
      Table.Follows (fun name => (refs.raws.getD .empty).contains name = true) v.rawRefs raws ∧
      Table.Follows (fun path => ∃ q ∈ refs.projects.getD [], Path.clean q.path = path) v.projectRefs projects ∧
      Rewires id { v with fileRefs := files, rawRefs := raws } projects r (setReferences id v.handle r refs).1 ∧
      Asks r (setReferences id v.handle r refs).1
        (Slot.file.updateCalls v.handle (Slot.plain (refs.files.getD [])) v.fileRefs files ++
          Slot.raw.updateCalls v.handle (Slot.withBytes (refs.raws.getD .empty)) v.rawRefs raws ++
          edgeCalls (setReferences id v.handle r refs).1.store v.handle v.projectRefs projects) := by
  let files := Slot.plain (refs.files.getD [])
  let raws := Slot.withBytes (refs.raws.getD .empty)
  let r₁ := setEntries .file id v.handle r files
  let r₂ := setEntries .raw id v.handle r₁ raws
  have hset : setReferences id v.handle r refs = setProjects id v.handle r₂ (targets refs) := rfl
  rw [hset] at hsmooth ⊢
  have hpre₁ : Precedes r r₁ := precedes_setEntries .file id v.handle r files
  have hpre₂ : Precedes r₁ r₂ := precedes_setEntries .raw id v.handle r₁ raws
  have hpre₃ := precedes_setProjects id v.handle r₂ (targets refs)
  obtain ⟨hfile, hsmooth⟩ := hsmooth.split hpre₁ (hpre₂.trans hpre₃)
  obtain ⟨hraw, hedge⟩ := hsmooth.split hpre₂ hpre₃
  obtain ⟨nowFiles, hfirst⟩ := revises_setEntries hr hv hfile
  let v₁ := Slot.file.update (fun _ => nowFiles) v
  obtain ⟨nowRaws, hsecond⟩ := revises_setEntries (v := v₁) hfirst.wellFormed hfirst.has hraw
  let v₂ := Slot.raw.update (fun _ => nowRaws) v₁
  obtain ⟨now, hfollows, hrewires, hasks⟩ :=
    setProjects_exact (v := v₂) hsecond.wellFormed hsecond.has rfl (targets_nodup refs) targets_clean hedge
  refine ⟨nowFiles, nowRaws, now, hfirst.follows.congr (Slot.any_plain _),
    hsecond.follows.congr (Slot.any_withBytes _), hfollows.congr (contains_targets refs), ?_,
    (hfirst.asks.trans hsecond.asks).trans hasks⟩
  exact ⟨hrewires.wellFormed, (hfirst.around.trans hsecond.around).trans hrewires.around, hrewires.self⟩

/-- **What a message about references does**, where none of its calls fails. -/
theorem applyReferences_of_smooth (hr : r.WellFormed) {p : Project} (hp : r.store.project? id = some p)
    {refs : References} (hsmooth : Smooth r (r.applyReferences id refs).1) :
    ∃ w, Referenced id p refs (r.ownOf p refs.framework) w r (r.applyReferences id refs).1 := by
  let u := r.ownOf p refs.framework
  let r₁ := (r.ownVariant id refs.framework).1
  have hh : (r.ownVariant id refs.framework).2 = u.settle.handle := (variantFor_eq hr hp refs.framework).1
  have happly : r.applyReferences id refs = setReferences id u.settle.handle r₁ refs := by
    rw [← hh]
    rfl
  rw [happly] at hsmooth ⊢
  have hpre : Precedes r₁ (setReferences id u.settle.handle r₁ refs).1 :=
    (precedes_setEntries .file id _ r₁ _).trans ((precedes_setEntries .raw id _ _ _).trans
      (precedes_setProjects id _ _ _))
  obtain ⟨hown, hset⟩ := hsmooth.split (r.precedes_ownVariant id refs.framework) hpre
  obtain ⟨-, hr₁, hu, hasks₁, hwaits₁⟩ := ownVariant_of_smooth hr hp hown
  obtain ⟨files, raws, projects, hfiles, hraws, hprojects, hrewires, hasks⟩ := setReferences_of_smooth hr₁ hu hset
  have hr₂ := hrewires.wellFormed
  obtain ⟨w, hw, hc⟩ := hrewires.self
  have hfields : w.fileRefs = files ∧ w.rawRefs = raws ∧ w.projectRefs = projects ∧ w.handle = u.handle := by
    rw [Variant.eq_of_content hc]
    exact ⟨rfl, rfl, rfl, rfl⟩
  obtain ⟨rfl, rfl, rfl, hwh⟩ := hfields
  refine ⟨w, hr₂, hw, hc, hfiles, hraws, hprojects, hasks₁.trans hasks, fun k t => ?_⟩
  split
  · rename_i hk
    rw [hk, ← hwh, waits_iff hr₂.sound hr₂.linked hw]
  · rename_i hk
    rw [← hwaits₁]
    exact hrewires.around.waits hr₁.sound hr₁.linked hr₂.sound hr₂.linked hk t

/-- References that a variant has already are not touched again. -/
theorem applyReferences_again (hr : r.WellFormed) {refs : References} (hv : r.store.Has id v)
    (hreg : v.registered = true) (hn : v.framework.name = refs.framework.name)
    (hfiles : ∀ key, v.fileRefs.contains key = true ↔ key ∈ refs.files.getD [])
    (hraws : ∀ name, v.rawRefs.contains name = true ↔ (refs.raws.getD .empty).contains name = true)
    (hprojects : ∀ path, v.projectRefs.contains path = true ↔
      ∃ q ∈ refs.projects.getD [], Path.clean q.path = path) :
    r.applyReferences id refs = (r, []) := by
  have hfile : setEntries .file id v.handle r (Slot.plain (refs.files.getD [])) = r :=
    setEntries_of_listed hr.sound hv rfl fun key =>
      (hfiles key).trans (Slot.any_plain (refs.files.getD []) key).symm
  have hraw : setEntries .raw id v.handle r (Slot.withBytes (refs.raws.getD .empty)) = r :=
    setEntries_of_listed hr.sound hv rfl fun name =>
      (hraws name).trans (Slot.any_withBytes (refs.raws.getD .empty) name).symm
  have hedge := setProjects_of_wanted hr.sound hv rfl fun path =>
    (hprojects path).trans (contains_targets refs path).symm
  unfold applyReferences setReferences
  simp only [ownVariant_of_registered hr hv hreg hn, hfile, hraw, hedge]

/-! ### Sources -/

/-- What a message about the sources of a variant does, given its source files. The variant was `u` before it,
blank if there was none, and is `w` after it. -/
structure Resourced (id : Nat) (p : Project) (files : List String) (u w : Variant) (r r' : Reconciler) :
    Prop where
  wellFormed : r'.WellFormed
  has : r'.store.Has id w
  content : w = { u.settle with loaded := true, documents := w.documents }
  documents : Table.Follows (· ∈ files) u.documents w.documents
  calls : Asks r r' (registeringCalls p u ++
    Slot.document.updateCalls u.handle (Slot.plain files) u.documents w.documents)

theorem isSource_ownVariant (hr : r.WellFormed) {p : Project} (hp : r.store.project? id = some p)
    (framework : Framework) : (r.ownVariant id framework).1.isSource = r.isSource := by
  have hid : r.store.path? id = some p.path := by rw [path?, hp, Option.map_some]
  have hending := ((extension_maintained r.sourceExtension).ownVariant ⟨hr, rfl⟩ hid framework).2
  funext file
  rw [isSource, isSource, hending]

/-- **What a message about sources does**, where none of its calls fails. -/
theorem applySources_of_smooth (hr : r.WellFormed) {p : Project} (hp : r.store.project? id = some p)
    {sources : Sources} (hsmooth : Smooth r (r.applySources id sources)) :
    ∃ w, Resourced id p ((sources.files.getD []).filter r.isSource) (r.ownOf p sources.framework) w r
      (r.applySources id sources) := by
  let u := r.ownOf p sources.framework
  let r₁ := (r.ownVariant id sources.framework).1
  let files := (sources.files.getD []).filter r.isSource
  let r₂ := setEntries .document id u.settle.handle r₁ (Slot.plain files)
  have hh : (r.ownVariant id sources.framework).2 = u.settle.handle :=
    (variantFor_eq hr hp sources.framework).1
  have happly : r.applySources id sources =
      r₂.modifyVariant u.settle.handle fun v => { v with loaded := true } := by
    unfold applySources setSources
    simp only [hh, isSource_ownVariant hr hp]
    rfl
  rw [happly] at hsmooth ⊢
  have hpre : Precedes r₁ r₂ := precedes_setEntries .document id u.settle.handle r₁ _
  obtain ⟨hown, hset⟩ := hsmooth.split (r.precedes_ownVariant id sources.framework) hpre
  obtain ⟨-, hr₁, hu, hasks₁, -⟩ := ownVariant_of_smooth hr hp hown
  obtain ⟨now, hrevises⟩ := revises_setEntries (v := u.settle) hr₁ hu hset
  let v₁ := Slot.document.update (fun _ => now) u.settle
  refine ⟨{ v₁ with loaded := true }, ?_, ?_, rfl, ?_, ?_⟩
  · exact (wellFormed_maintained.markLoaded ⟨hrevises.wellFormed, v₁, hrevises.has, rfl⟩).1
  · exact hrevises.has.modify fun v => { v with loaded := true }
  · exact hrevises.follows.congr (Slot.any_plain files)
  · exact hasks₁.trans hrevises.asks

/-- Sources that a variant has already are not touched again. -/
theorem applySources_again (hr : r.WellFormed) {sources : Sources} (hv : r.store.Has id v)
    (hreg : v.registered = true) (hn : v.framework.name = sources.framework.name) (hloaded : v.loaded = true)
    (hdocuments : ∀ key, v.documents.contains key = true ↔ key ∈ (sources.files.getD []).filter r.isSource) :
    (r.applySources id sources).store = r.store ∧ (r.applySources id sources).calls = r.calls := by
  have hset : setEntries .document id v.handle r (Slot.plain ((sources.files.getD []).filter r.isSource)) = r :=
    setEntries_of_listed hr.sound hv rfl fun key => (hdocuments key).trans (Slot.any_plain _ key).symm
  unfold applySources setSources
  simp only [ownVariant_of_registered hr hv hreg hn, hset]
  refine ⟨modifyVariant_of_same fun hw hh => ?_, rfl⟩
  rw [(hr.sound.handle_inj hw hv hh).2, ← hloaded]

end CompilationBridge.Graph.Reconciler
