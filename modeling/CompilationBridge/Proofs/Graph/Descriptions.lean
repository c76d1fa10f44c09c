import CompilationBridge.Proofs.Graph.Replay
import CompilationBridge.Proofs.Graph.Tracking
import CompilationBridge.Proofs.Workspace

/-! The descriptions of variants in the workspace. A variant comes to the workspace under the name of its
project and the short name of its framework as they are at that moment; a message of any kind about the
variant may bring it there. No call changes a description afterwards, while a later message about the project
may change both names. So a description is current exactly if the label that the variant was introduced
with is the one that the graph has for it now. -/

namespace CompilationBridge

/-! ### Calls and descriptions -/

namespace Workspace

/-- The description of a project in the workspace. -/
def info? (w : Workspace) (h : Handle) : Option ProjectInfo :=
  (w.projects.get? h).map (·.info)

/-- The call neither adds nor removes a project. -/
def Call.isEdit : Call → Bool
  | .addProject _ | .removeProject _ => false
  | _ => true

theorem info?_perform {w w' : Workspace} {call : Call} (hcall : call.isEdit = true)
    (hw : w.perform call = .ok w') (k : Handle) : w'.info? k = w.info? k := by
  have heffect : call.effect k (w.projects.get? k) =
      if k = call.project then (w.projects.get? k).map call.edit else w.projects.get? k := by
    cases call with
    | addProject info | removeProject project => cases hcall
    | _ => rfl
  have hinfo : ∀ e : Entry, (call.edit e).info = e.info := by
    intro e
    cases call <;> rfl
  rw [info?, info?, get?_perform hw, heffect]
  split
  · rw [Option.map_map]
    exact Option.map_congr fun e _ => hinfo e
  · rfl

end Workspace

namespace Graph

namespace Reconciler

open Store

variable {r r' : Reconciler} {id : Nat} {h : Handle} {v : Variant}

theorem info?_attempt (r : Reconciler) (action : String) (id : Nat) (h : Handle) {call : Workspace.Call}
    (hcall : call.isEdit = true) (k : Handle) :
    (r.attempt action id h call).1.workspace.info? k = r.workspace.info? k := by
  rcases r.attempt_workspace action id h call with ⟨-, hw⟩ | ⟨-, hw⟩
  · exact Workspace.info?_perform hcall hw k
  · rw [hw]

@[simp] theorem info?_carryOut (r : Reconciler) (action : String) (id : Nat) (h : Handle)
    {call : Workspace.Call} (hcall : call.isEdit = true) (k : Handle) :
    (r.carryOut action id h call).workspace.info? k = r.workspace.info? k :=
  info?_attempt r action id h hcall k

@[simp] theorem info?_modifyVariant (r : Reconciler) (h : Handle) (f : Variant → Variant) (k : Handle) :
    (r.modifyVariant h f).workspace.info? k = r.workspace.info? k :=
  rfl

theorem info?_dropEntry (slot : Slot) (id : Nat) (h : Handle) (r : Reconciler) (entry : String × Handle)
    (k : Handle) : (dropEntry slot id h r entry).workspace.info? k = r.workspace.info? k := by
  have hcall : (slot.removeCall h entry.2).isEdit = true := by cases slot <;> rfl
  exact info?_carryOut r slot.removal id h hcall k

theorem info?_addEntry (slot : Slot) (id : Nat) (h : Handle) (r : Reconciler) (item : Slot.Item)
    (k : Handle) : (addEntry slot id h r item).workspace.info? k = r.workspace.info? k := by
  have hedit : (slot.addCall h r.fresh.2 item).isEdit = true := by cases slot <;> rfl
  have hcall := info?_attempt r.fresh.1 slot.addition id h hedit k
  unfold addEntry
  split
  · rfl
  · split
    · rfl
    · dsimp only
      split <;> rename_i heq <;> rw [heq] at hcall
      · exact hcall
      · exact hcall

theorem info?_dropProject (id : Nat) (h : Handle) (r : Reconciler) (edge : String × Handle) (k : Handle) :
    (dropProject id h r edge).workspace.info? k = r.workspace.info? k := by
  have hcall : (Workspace.Call.removeProjectReference h edge.2).isEdit = true := rfl
  unfold dropProject
  dsimp only
  split
  · split <;> split <;> simp [hcall]
  · rfl

theorem info?_link (id : Nat) (h : Handle) (r : Reconciler) (p : Project) (path : String) (target k : Handle) :
    (link id h r p path target).workspace.info? k = r.workspace.info? k := by
  have hcall : (Workspace.Call.addProjectReference h target).isEdit = true := rfl
  unfold link
  dsimp only
  split <;> simp [hcall]

theorem info?_sendOptions (r : Reconciler) (id : Nat) (v : Variant) (k : Handle) :
    (r.sendOptions id v).workspace.info? k = r.workspace.info? k := by
  have hcompilation : ∀ o, (Workspace.Call.setCompilationOptions v.handle o).isEdit = true := fun _ => rfl
  have hparse : ∀ o, (Workspace.Call.setParseOptions v.handle o).isEdit = true := fun _ => rfl
  unfold sendOptions
  cases v.compilation <;> cases v.parse <;> simp [hcompilation, hparse]

theorem info?_setOptions (id : Nat) (h : Handle) (r : Reconciler) (options : CompilerOptions) (k : Handle) :
    (setOptions id h r options).workspace.info? k = r.workspace.info? k := by
  unfold setOptions
  dsimp only
  split
  · split
    · rw [info?_sendOptions, info?_modifyVariant]
    · rfl
  · rfl

/-- A registered variant comes to the workspace under its label; the other descriptions stay. -/
theorem info?_register (hr : r.Mirrored) {p : Project} (hp : r.store.project? id = some p)
    (hmem : v ∈ p.variants) (hreg : v.registered = false) (k : Handle) :
    (r.register id v.handle).workspace.info? k =
      if k = v.handle then some (v.framework.projectInfo v.handle p.name p.path)
      else r.workspace.info? k := by
  obtain ⟨-, -, hw⟩ := hr.register_eq hp hmem hreg
  rw [Workspace.info?, hw]
  split
  · rfl
  · rw [Option.map_map]
    refine Option.map_congr fun e _ => ?_
    rw [Function.comp_apply]
    split <;> rfl

/-- A variant that is torn down takes its description along; the others stay. -/
theorem info?_teardown (hr : r.Mirrored) (hv : r.store.Has id v) (hreg : v.registered = true) (k : Handle) :
    (r.teardown id v.handle).workspace.info? k =
      if k = v.handle then none else r.workspace.info? k := by
  obtain ⟨p, hp, hmem⟩ := hv
  have hv : r.store.Has id v := ⟨p, hp, hmem⟩
  obtain ⟨-, hw⟩ := afterTeardown_workspace hr hv hreg p
  have hafter : (r.teardown id v.handle).workspace = (r.afterTeardown id p v).workspace := by
    rcases teardown_effect hr.sound hr.linked hp hv hreg with he | ⟨he, -, -⟩ <;> rw [he]
  rw [hafter, Workspace.info?, hw]
  split
  · rfl
  · rw [Option.map_map]
    rfl

/-! ### What keeps the descriptions -/

/-- From one state to another the graph has grown, and no description has changed. -/
structure Abides (r r' : Reconciler) : Prop where
  grown : Extends r.store r'.store
  info? : ∀ k, r'.workspace.info? k = r.workspace.info? k

theorem Abides.refl (r : Reconciler) : Abides r r :=
  ⟨Extends.refl _, fun _ => rfl⟩

theorem Abides.trans {r'' : Reconciler} (h : Abides r r') (h' : Abides r' r'') : Abides r r'' :=
  ⟨h.grown.trans h'.grown, fun k => (h'.info? k).trans (h.info? k)⟩

/-- A registered variant is updated, and no description has changed since some state. -/
def Abiding (start : Reconciler) (id : Nat) (h : Handle) (r : Reconciler) : Prop :=
  Mirroring id h r ∧ Abides start r

theorem entryUpdates_abiding (start : Reconciler) (slot : Slot) (id : Nat) (h : Handle) :
    EntryUpdates slot id h (Abiding start id h) where
  wellFormed hr := hr.1.1.toWellFormed
  owns hr := (mirrored_maintained.edges id h).owns hr.1
  drop hr hv hh hkey := ⟨hr.1.dropEntry hv hh hkey,
    hr.2.trans ⟨(hr.1.1.toWellFormed.dropEntry slot id h _).2, fun _ => info?_dropEntry ..⟩⟩
  add item hr := by
    have hr' := hr.1.addEntry slot item
    obtain ⟨v, hv, rfl, -⟩ := hr.1.2
    exact ⟨hr', hr.2.trans ⟨(hr.1.1.toWellFormed.addEntry hv slot item).2, fun _ => info?_addEntry ..⟩⟩

theorem edgeUpdates_abiding (start : Reconciler) (id : Nat) (h : Handle) :
    EdgeUpdates id h (Abiding start id h) where
  wellFormed hr := hr.1.1.toWellFormed
  owns hr := (mirrored_maintained.edges id h).owns hr.1
  dropProject hr hv hh hedge := by
    refine ⟨hr.1.dropProject hv hh hedge, hr.2.trans ⟨?_, fun _ => info?_dropProject ..⟩⟩
    subst hh
    obtain ⟨ha, -, -⟩ := dropProject_effect hr.1.1.sound hr.1.1.linked hv hedge
    exact ha.extends fun _ => ⟨rfl, rfl⟩
  track path hr := ⟨(mirrored_maintained.edges id h).track path hr.1,
    hr.2.trans ⟨extends_track .., fun _ => rfl⟩⟩
  create hr hj hnew := ⟨(mirrored_maintained.edges id h).create hr.1 hj hnew,
    hr.2.trans ⟨extends_addVariant hj _, fun _ => rfl⟩⟩
  link hr hq hv hh hnew hu hj := by
    refine ⟨hr.1.link hq hv hh hnew hu hj, hr.2.trans ⟨?_, fun _ => info?_link ..⟩⟩
    subst hh
    obtain ⟨ha, -, -⟩ := link_effect hr.1.1.sound hr.1.1.linked hq hv hu hj hnew
    exact ha.extends fun _ => ⟨rfl, rfl⟩

theorem Abiding.setOptions {start : Reconciler} (hr : Abiding start id h r) (options : CompilerOptions) :
    Abiding start id h (setOptions id h r options) := by
  refine ⟨hr.1.setOptions options, hr.2.trans ⟨?_, fun _ => info?_setOptions ..⟩⟩
  rw [setOptions_store]
  exact (plain_options r.store h options).extends

theorem Abiding.markLoaded {start : Reconciler} (hr : Abiding start id h r) :
    Abiding start id h (r.modifyVariant h fun v => { v with loaded := true }) :=
  ⟨hr.1.markLoaded, hr.2.trans ⟨(plain_loaded r.store h).extends, fun _ => rfl⟩⟩

/-! ### Labels -/

end Reconciler

end Graph

/-- What the workspace calls the variant of a project for a framework. -/
def Framework.label (f : Framework) (name : String) : String :=
  name ++ "+" ++ f.shortName

namespace Graph

/-- A project has a registered variant of a framework. -/
def Store.HasRegistered (s : Store) (id : Nat) (f : String) : Prop :=
  ∃ v, s.Has id v ∧ v.framework.name = f ∧ v.registered = true

namespace Reconciler

open Store

variable {r r' : Reconciler} {id : Nat} {h : Handle} {v : Variant} {label label' : Nat → String → Option String}

/-- The workspace describes each variant under a label of its own, by project and framework name, together
with its handle, the path of its project and the name of its framework. -/
structure Labelled (label : Nat → String → Option String) (r : Reconciler) : Prop extends r.Mirrored where
  named : ∀ {i v q info}, r.store.Has i v → r.store.path? i = some q →
    r.workspace.info? v.handle = some info → ∃ name, label i v.framework.name = some name ∧
      info = { handle := v.handle, name := name, filePath := q, framework := v.framework.name }

/-- Only a registered variant has a description. -/
theorem Mirrored.registered_of_info? (hr : r.Mirrored) {i : Nat} (hv : r.store.Has i v)
    {info : Workspace.ProjectInfo} (hinfo : r.workspace.info? v.handle = some info) : v.registered = true := by
  obtain ⟨e, he, -⟩ := Option.map_eq_some_iff.1 hinfo
  exact (live_iff hr.sound hv).1 (hr.mirror.live he)

theorem Labelled.congr (hr : Labelled label r)
    (hsame : ∀ {i v}, r.store.Has i v → v.registered = true →
      label' i v.framework.name = label i v.framework.name) : Labelled label' r := by
  refine ⟨hr.toMirrored, fun hv hq hinfo => ?_⟩
  rw [hsame hv (hr.registered_of_info? hv hinfo)]
  exact hr.named hv hq hinfo

/-- Labels stay where the descriptions do. -/
theorem Labelled.abide (hr : Labelled label r) (hr' : r'.Mirrored) (ha : Abides r r') : Labelled label r' := by
  refine ⟨hr', fun {i w q info} hw hq hinfo => ?_⟩
  rw [ha.info?] at hinfo
  -- what has a description was there before, under the same name
  obtain ⟨e, he, -⟩ := Option.map_eq_some_iff.1 hinfo
  obtain ⟨j, u, hu, hh, -⟩ := hr.mirror.live he
  obtain ⟨w', hw', hh', hn⟩ := ha.grown.has hu
  obtain ⟨rfl, rfl⟩ := hr'.sound.handle_inj hw' hw (hh'.trans hh)
  obtain ⟨q', hq'⟩ := hu.path
  obtain rfl : q' = q := Option.some.inj ((ha.grown.path hq').symm.trans hq)
  rw [hh'] at hinfo ⊢
  rw [hn]
  exact hr.named hu hq' hinfo

theorem Labelled.register (hr : Labelled label r) {p : Project} (hp : r.store.project? id = some p)
    (hmem : v ∈ p.variants)
    (hlabel : v.registered = false → label id v.framework.name = some (v.framework.label p.name)) :
    Labelled label (r.register id v.handle) := by
  have hv : r.store.Has id v := ⟨p, hp, hmem⟩
  cases hreg : v.registered with
  | true =>
      rw [register_of_registered hr.sound hv hreg]
      exact hr
  | false =>
      obtain ⟨-, hstore, -⟩ := hr.toMirrored.register_eq hp hmem hreg
      refine ⟨(hr.toMirrored.register hv).1, fun {i w q info} hw hq hinfo => ?_⟩
      rw [hstore] at hw hq
      rw [path?_modifyVariant] at hq
      rw [info?_register hr.toMirrored hp hmem hreg] at hinfo
      obtain ⟨u, hu, rfl⟩ := has_modifyVariant.1 hw
      by_cases hh : u.handle = v.handle
      · obtain ⟨rfl, rfl⟩ := hr.sound.handle_inj hu hv hh
        rw [changed_self] at hinfo ⊢
        rw [path?, hp, Option.map_some, Option.some_inj] at hq
        have hself : u.settle.handle = u.handle := rfl
        rw [if_pos hself, Option.some_inj, hq] at hinfo
        exact ⟨_, hlabel hreg, hinfo.symm⟩
      · rw [changed_of_ne hh] at hinfo ⊢
        rw [if_neg hh] at hinfo
        exact hr.named hu hq hinfo

theorem Labelled.teardown (hr : Labelled label r) (hv : r.store.Has id v) (hreg : v.registered = true) :
    Labelled label (r.teardown id v.handle) := by
  refine ⟨hr.toMirrored.teardown hv hreg, fun {i w q info} hw hq hinfo => ?_⟩
  rw [path?_teardown hr.toWellFormed hv hreg] at hq
  rw [info?_teardown hr.toMirrored hv hreg] at hinfo
  obtain ⟨u, hu, hc⟩ := has_of_teardown hr.toWellFormed hv hreg hw
  split at hinfo
  · cases hinfo
  · rename_i hne
    have hh : u.handle ≠ v.handle := by
      intro hh
      rw [changed_of_eq hh] at hc
      exact hne ((Variant.handle_of_content hc).trans hh)
    rw [changed_of_ne hh] at hc
    rw [Variant.handle_of_content hc] at hinfo ⊢
    rw [Variant.framework_of_content hc]
    exact hr.named hu hq hinfo

/-! ### Messages -/

theorem Labelled.create (hr : Labelled label r) {q : String} {framework : Framework}
    (hid : r.store.path? id = some q)
    (hnew : ∀ {v}, r.store.Has id v → v.framework.name ≠ framework.name) :
    Labelled label (r.created id framework) :=
  hr.abide (hr.toMirrored.create hid hnew) ⟨extends_addVariant hid _, fun _ => rfl⟩

/-- The project of a variant that was made for a message. -/
theorem project?_created {p : Project} (hp : r.store.project? id = some p) (framework : Framework) :
    (r.created id framework).store.project? id =
      some { p with variants := p.variants ++ [{ framework := framework, handle := ⟨r.nextHandle⟩ }] } := by
  rw [created, addVariant, project?_modifyProject, if_pos rfl, hp, Option.map_some]

/-- The variant that a framework is looked up for has its own framework data, or else those that it was
looked up with. -/
theorem Labelled.variantFor (hr : Labelled label r) {p : Project} (hp : r.store.project? id = some p)
    (framework : Framework) : Labelled label (r.variantFor id framework).1 ∧
      ∃ p' v, (r.variantFor id framework).1.store.project? id = some p' ∧ p'.name = p.name ∧
        v ∈ p'.variants ∧ (r.variantFor id framework).2 = v.handle ∧
        v.framework.name = framework.name ∧
        v.framework = ((p.variant? framework.name).map (·.framework)).getD framework ∧
        v.registered = (p.variant? framework.name).any (·.registered) := by
  have hid : r.store.path? id = some p.path := by rw [path?, hp, Option.map_some]
  rcases r.variantFor_cases hid framework with ⟨v, ⟨p', hp', hmem⟩, hn, he⟩ | ⟨hnew, he⟩ <;> rw [he]
  · obtain rfl := Option.some.inj (hp.symm.trans hp')
    rw [← hn, variant?_of_mem hr.sound hp hmem]
    exact ⟨hr, p, v, hp, rfl, hmem, rfl, rfl, rfl, rfl⟩
  · have hfind : p.variant? framework.name = none := by
      refine List.find?_eq_none.2 fun v hv => ?_
      simpa using hnew ⟨p, hp, hv⟩
    have hmem : ∀ v : Variant, v ∈ p.variants ++ [v] :=
      fun v => List.mem_append_right _ (List.mem_singleton_self v)
    rw [hfind]
    exact ⟨hr.create hid hnew, _, _, project?_created hp framework, rfl, hmem _, rfl, rfl, rfl, rfl⟩

theorem Labelled.ownVariant (hr : Labelled label r) {p : Project} (hp : r.store.project? id = some p)
    (framework : Framework)
    (hlabel : (p.variant? framework.name).any (·.registered) = false → label id framework.name =
      some ((((p.variant? framework.name).map (·.framework)).getD framework).label p.name)) :
    Labelled label (r.ownVariant id framework).1 := by
  obtain ⟨hr₁, p₁, v, hp₁, hname, hmem, hh, hn, hdata, hreg⟩ := hr.variantFor hp framework
  change Labelled label ((r.variantFor id framework).1.register id (r.variantFor id framework).2)
  rw [hh]
  refine hr₁.register hp₁ hmem fun hunreg => ?_
  rw [hn, hdata, hname]
  exact hlabel (hreg.symm.trans hunreg)

theorem any_registered_iff_of_project {s : Store} {next : Nat} (hs : s.Sound next) {p : Project}
    (hp : s.project? id = some p) {f : String} :
    (p.variant? f).any (·.registered) = true ↔ s.HasRegistered id f := by
  have hiff := any_registered_iff hs (i := id) (f := f)
  rwa [hp, Option.bind_some] at hiff

theorem listFramework_eq {framework : Framework} (hh : (r.variantFor id framework).2 = h) :
    listFramework id r framework = ((r.variantFor id framework).1.modifyVariant h
      fun v => { v with framework := framework }).register id h := by
  rw [← hh]
  rfl

/-- A listed framework whose variant is not registered is introduced with its data in the list. -/
theorem Labelled.listFramework (hr : Labelled label r) {p : Project} (hp : r.store.project? id = some p)
    (framework : Framework)
    (hlabel : ¬r.store.HasRegistered id framework.name →
      label id framework.name = some (framework.label p.name)) :
    Labelled label (listFramework id r framework) ∧
      (listFramework id r framework).store.HasRegistered id framework.name := by
  obtain ⟨hr₁, p₁, v, hp₁, hname, hmem, hh, hn, -, hreg⟩ := hr.variantFor hp framework
  have hv : (r.variantFor id framework).1.store.Has id v := ⟨p₁, hp₁, hmem⟩
  let f := fun v : Variant => { v with framework := framework }
  have hr₂ := hr₁.abide (hr₁.toMirrored.relabel hv hn)
    ⟨(plain_relabel hr₁.sound hv hn).extends, fun _ => rfl⟩
  have hp₂ : ((r.variantFor id framework).1.modifyVariant v.handle f).store.project? id =
      some { p₁ with variants := p₁.variants.map (changed v.handle f) } := by
    rw [modifyVariant_store, project?_modifyVariant, hp₁, Option.map_some]
  have hmem₂ : f v ∈ p₁.variants.map (changed v.handle f) :=
    List.mem_map.2 ⟨v, hmem, changed_self⟩
  have hv₂ : ((r.variantFor id framework).1.modifyVariant v.handle f).store.Has id (f v) := ⟨_, hp₂, hmem₂⟩
  rw [← hname, ← any_registered_iff_of_project hr.sound hp, ← hreg, Bool.not_eq_true] at hlabel
  have hr₃ := hr₂.register hp₂ hmem₂ hlabel
  obtain ⟨hm, w, hw, hwh, hwr⟩ := hr₂.toMirrored.register hv₂
  obtain ⟨w', hw', hwh', hwn⟩ := (hr₂.toWellFormed.register hv₂).2.has hv₂
  rw [(hm.sound.handle_inj hw' hw (hwh'.trans hwh.symm)).2] at hwn
  rw [listFramework_eq hh]
  exact ⟨hr₃, w, hw, hwn, hwr⟩

theorem live_listFramework (hr : r.Mirrored) {q : String} (hid : r.store.path? id = some q)
    (framework : Framework) {k : Handle} (hk : r.store.Live k) :
    (listFramework id r framework).store.Live k := by
  obtain ⟨hr₁, v, hv, hn, hh⟩ := mirrored_maintained.variantFor hr hid framework
  have hk₁ : (r.variantFor id framework).1.store.Live k := by
    rcases r.variantFor_cases hid framework with ⟨_, _, _, he⟩ | ⟨_, he⟩ <;> rw [he]
    · exact hk
    · obtain ⟨i, u, hu, hku⟩ := hk
      exact ⟨i, u, (has_addVariant ⟨q, hid⟩).2 (Or.inl hu), hku⟩
  let f := fun v : Variant => { v with framework := framework }
  have hplain := plain_relabel hr₁.sound hv hn
  have hk₂ := (Live.of_alters (alters_modify (r.variantFor id framework).1.store v.handle hplain.handle)
    (fun _ => ⟨rfl, rfl⟩) k).2 hk₁
  have hv₂ : ((r.variantFor id framework).1.modifyVariant v.handle f).store.Has id (f v) := hv.modify f
  rw [listFramework_eq hh]
  obtain ⟨-, hs | ⟨-, hs⟩⟩ := register_store (hr₁.relabel hv hn).sound hv₂ <;> rw [hs]
  · exact hk₂
  · exact (live_settle hv₂ k).2 (Or.inl hk₂)

/-- A variant that is registered stays so while frameworks are listed. -/
theorem hasRegistered_listFramework (hr : r.Mirrored) {q : String} (hid : r.store.path? id = some q)
    (framework : Framework) {f : String} (hf : r.store.HasRegistered id f) :
    (listFramework id r framework).store.HasRegistered id f := by
  obtain ⟨u, hu, hn, hreg⟩ := hf
  have hwf : (Reconciler.listFramework id r framework).WellFormed :=
    (wellFormed_maintained.listFramework hr.toWellFormed hid framework).1
  obtain ⟨w, hw, hwh, hwn⟩ := (extends_listFramework hr.toWellFormed hid framework).has hu
  have hlive := live_listFramework hr hid framework ⟨id, u, hu, rfl, hreg⟩
  rw [← hwh, live_iff hwf.sound hw] at hlive
  exact ⟨w, hw, hwn.trans hn, hlive⟩

/-- Of several frameworks of one name the first one in the list introduces the variant. -/
theorem Labelled.foldl_listFramework {frameworks : List Framework} {name : String} (hr : Labelled label r)
    (hname : (r.store.project? id).map (·.name) = some name)
    (hlabel : ∀ {f own}, ¬r.store.HasRegistered id f → frameworks.find? (·.name = f) = some own →
      label id f = some (own.label name)) :
    Labelled label (frameworks.foldl (Reconciler.listFramework id) r) := by
  induction frameworks generalizing r with
  | nil => exact hr
  | cons first rest ih =>
      obtain ⟨p, hp, rfl⟩ := Option.map_eq_some_iff.1 hname
      have hid : r.store.path? id = some p.path := by rw [path?, hp, Option.map_some]
      have hself : (first :: rest).find? (·.name = first.name) = some first :=
        List.find?_cons_of_pos (decide_eq_true rfl)
      obtain ⟨hr₁, hfirst⟩ := hr.listFramework hp first fun hunreg => hlabel hunreg hself
      have hname₁ := (name?_congr (headings_listFramework id r first) id).trans hname
      refine ih hr₁ hname₁ fun {f own} hunreg hfind => ?_
      have hne : ¬first.name = f := fun heq => hunreg (heq ▸ hfirst)
      refine hlabel (mt (hasRegistered_listFramework hr.toMirrored hid first) hunreg) ?_
      rw [List.find?_cons_of_neg (by simpa using hne)]
      exact hfind

/-- A message about a project introduces the listed frameworks of which it has no registered variant. -/
theorem Labelled.applyProjectInformation (hr : Labelled label r) {p : Project}
    (hp : r.store.project? id = some p) (info : ProjectInformation)
    (hlabel : ∀ {f own}, ¬r.store.HasRegistered id f →
      (info.frameworks.getD []).find? (·.name = f) = some own → label id f = some (own.label info.name)) :
    Labelled label (r.applyProjectInformation id info) := by
  have hr₁ : Labelled label { r with store := describeIn r.store id info } := by
    exact hr.abide (mirrored_maintained.describe id info hr.toMirrored)
      ⟨⟨fun hq => (path?_describeIn _).trans hq, fun {i v} hv => ⟨v, has_describeIn.2 hv, rfl, rfl⟩⟩,
        fun _ => rfl⟩
  rw [applyProjectInformation_eq hp]
  obtain ⟨⟨hr₂, hheadings, hnames⟩, hkept⟩ := dismantled_keeps
    (Q := fun _ r' => Labelled label r' ∧
      r'.store.headings = (describeIn r.store id info).headings ∧
      ∀ {v}, r'.store.Has id v → nameOf r.store v.handle = v.framework.name)
    (fun hq => hq.1.toWellFormed)
    (fun hq hv hreg => ⟨hq.1.teardown hv hreg, (headings_teardown _ id _).trans hq.2.1,
      fun hw => nameOf_teardown hq.1.toWellFormed hv hreg hq.2.2 hw⟩)
    hp (r.visiting.perm _) ⟨hr₁, rfl, fun hv => nameOf_eq hr.sound (has_describeIn.1 hv)⟩
  refine hr₂.foldl_listFramework ?_ fun {f own} hunreg hfind => hlabel (fun hbefore => hunreg ?_) hfind
  · rw [name?_congr hheadings, project?_describeIn hp]
    rfl
  · -- a registered variant of a listed framework is not torn down
    obtain ⟨v, hv, hn, hreg⟩ := hbefore
    have hlisted : v.handle ∉ r.visiting.order (omitted (describe info p) (info.frameworks.getD [])) := by
      intro hmem
      obtain ⟨u, hu, -, hnot, hh⟩ := mem_omitted.1 ((r.visiting.perm _).mem_iff.1 hmem)
      obtain rfl := (hr.sound.handle_inj ⟨p, hp, hu⟩ hv hh).2
      have hown : own.name = f := by simpa using List.find?_some hfind
      exact hnot ⟨own, List.mem_of_find?_eq_some hfind, hown.trans hn.symm⟩
    obtain ⟨w, hw, hwh, hwr⟩ := hkept v.handle hlisted ⟨v, has_describeIn.2 hv, rfl, hreg⟩
    refine ⟨w, hw, ?_, hwr⟩
    rw [← hnames hw, hwh, nameOf_eq hr.sound hv, hn]

/-! ### Introductions -/

end Reconciler

end Graph

/-- The framework that a message is about, where it is about one. -/
def Payload.framework? : Payload → Option Framework
  | .references m => some m.framework
  | .dependencies m => some m.framework
  | .compilerOptions m => some m.framework
  | .sources m => some m.framework
  | _ => none

namespace Graph

/-- The label that a message gives the variant of a framework of its project. A message about the project
gives the names that it lists itself; any other message, those that the graph has for the project and for the
variant, if there is one. -/
def Project.label? (p : Project) (payload : Payload) (f : String) : Option String :=
  match payload with
  | .projectInformation info =>
    ((info.frameworks.getD []).find? (·.name = f)).map (·.label info.name)
  | payload => (payload.framework?.filter (·.name = f)).map fun own =>
    (((p.variant? f).map (·.framework)).getD own).label p.name

theorem Project.label?_of_framework? (p : Project) {payload : Payload} {own : Framework}
    (h : payload.framework? = some own) : p.label? payload own.name =
      some ((((p.variant? own.name).map (·.framework)).getD own).label p.name) := by
  cases payload with
  | projectInformation info | hostError e | unknown type raw => cases h
  | references m | dependencies m | compilerOptions m | sources m =>
      obtain rfl := Option.some.inj h
      simp [label?, Payload.framework?]

namespace Reconciler

open Store

variable {r : Reconciler} {id : Nat} {past : List Delivery}

/-- The label that a message introduces a variant with: it finds the variant not registered, and gives it a
label. -/
def Delivery.introduces? (d : Delivery) (i : Nat) (f : String) : Option String :=
  if d.id = i then
    (d.before.project? i).bind fun p =>
      if (p.variant? f).any (·.registered) then none else p.label? d.payload f
  else none

/-- The label that a variant was introduced with last. -/
def introduction (past : List Delivery) (i : Nat) (f : String) : Option String :=
  (past.filterMap (·.introduces? i f)).getLast?

theorem introduction_append (past : List Delivery) (d : Delivery) (i : Nat) (f : String) :
    introduction (past ++ [d]) i f = (d.introduces? i f).or (introduction past i f) :=
  getLast?_filterMap_append past d _

theorem introduction_of_label {p : Project} {s : Store} (hp : s.project? id = some p) {f name : String}
    (hunreg : (p.variant? f).any (·.registered) = false) {payload : Payload}
    (hlabel : p.label? payload f = some name) :
    introduction (past ++ [⟨s, id, payload⟩]) id f = some name := by
  rw [introduction_append, Delivery.introduces?, if_pos rfl, hp, Option.bind_some, hunreg,
    if_neg Bool.false_ne_true, hlabel, Option.some_or]

/-- A message introduces no variant that is registered. -/
theorem Labelled.deliver (hr : Labelled (introduction past) r) (id : Nat) (payload : Payload) :
    Labelled (introduction (past ++ [⟨r.store, id, payload⟩])) r := by
  refine hr.congr fun {i v} hv hreg => ?_
  obtain ⟨p, hp, hmem⟩ := hv
  have hnone : Delivery.introduces? ⟨r.store, id, payload⟩ i v.framework.name = none := by
    rw [Delivery.introduces?, hp, Option.bind_some, variant?_of_mem hr.sound hp hmem, Option.any_some, hreg,
      if_pos rfl, ite_self]
  rw [introduction_append, hnone, Option.none_or]

theorem Labelled.applyPayload (hr : Labelled (introduction past) r) {p : Project}
    (hp : r.store.project? id = some p) (path : String) (payload : Payload) :
    Labelled (introduction (past ++ [⟨r.store, id, payload⟩])) (r.applyPayload ⟨id, path⟩ payload).1 := by
  have hr₁ := hr.deliver id payload
  have hid : r.store.path? id = some p.path := by rw [path?, hp, Option.map_some]
  -- a message about one framework registers its variant, under the names that the graph has
  have hown : ∀ framework, payload.framework? = some framework →
      Labelled (introduction (past ++ [⟨r.store, id, payload⟩])) (r.ownVariant id framework).1 := by
    intro framework hframework
    exact hr₁.ownVariant hp framework fun hunreg =>
      introduction_of_label hp hunreg (p.label?_of_framework? hframework)
  have habiding : ∀ framework, Abiding (r.ownVariant id framework).1 id (r.ownVariant id framework).2
      (r.ownVariant id framework).1 := fun framework =>
    ⟨mirrored_maintained.ownVariant hr.toMirrored hid framework, Abides.refl _⟩
  cases payload with
  | projectInformation info =>
      refine hr₁.applyProjectInformation hp info fun hunreg hfind => ?_
      rw [← any_registered_iff_of_project hr.sound hp, Bool.not_eq_true] at hunreg
      refine introduction_of_label hp hunreg ?_
      rw [Project.label?, hfind, Option.map_some]
  | references refs =>
      have hdone := setReferences_keeps (entryUpdates_abiding _ .file id _) (entryUpdates_abiding _ .raw id _)
        (edgeUpdates_abiding _ id _) (habiding refs.framework) refs
      exact (hown refs.framework rfl).abide hdone.1.1 hdone.2
  | dependencies deps => exact hown deps.framework rfl
  | compilerOptions options =>
      have hdone := (habiding options.framework).setOptions options
      rw [applyPayload_compilerOptions, applyCompilerOptions_eq]
      exact (hown options.framework rfl).abide hdone.1.1 hdone.2
  | sources sources =>
      have hdone := setSources_keeps (entryUpdates_abiding _ .document id _) Abiding.markLoaded
        (habiding sources.framework) sources
      exact (hown sources.framework rfl).abide hdone.1.1 hdone.2
  | hostError e => exact hr₁
  | unknown type raw => exact hr₁

/-! ### Runs -/

theorem Labelled.step (hr : Labelled (introduction past) r) (s : Step) :
    Labelled (introduction (past ++ (s.delivery? r).toList)) (r.step s) := by
  cases s with
  | track path =>
      rw [Step.delivery?, Option.toList_none, List.append_nil]
      exact hr.abide (hr.toMirrored.track path) ⟨extends_track r.store path, fun _ => rfl⟩
  | visit order =>
      rw [Step.delivery?, Option.toList_none, List.append_nil]
      exact hr.abide (mirrored_maintained.visit order hr.toMirrored) ⟨Extends.refl _, fun _ => rfl⟩
  | apply m =>
      cases hd : r.delivery? m with
      | none =>
          obtain ⟨tally, logs, heq⟩ := apply_of_dropped hd
          rw [Step.delivery?, hd, Option.toList_none, List.append_nil, Reconciler.step, heq]
          exact hr.abide (mirrored_maintained.quiet tally logs hr.toMirrored) ⟨Extends.refl _, fun _ => rfl⟩
      | some d =>
          obtain ⟨hbefore, p, hp, heq⟩ := apply_of_delivered hd
          rw [Step.delivery?, hd, Option.toList_some, Reconciler.step, heq]
          obtain ⟨before, id, payload⟩ := d
          obtain rfl : before = r.store := hbefore
          have hcount : Labelled (introduction past) (r.countMessage m.type) :=
            hr.abide (mirrored_maintained.quiet _ r.logs hr.toMirrored) ⟨Extends.refl _, fun _ => rfl⟩
          exact hcount.applyPayload hp p.path payload

theorem labelled_run (extension : String) (steps : List Step) :
    Labelled (introduction ((new extension).history steps)) ((new extension).run steps) := by
  induction steps using List.reverseRecOn with
  | nil => exact ⟨mirrored_new extension, fun hv => absurd hv not_has_empty⟩
  | append_singleton rest s ih =>
      rw [history_append, run_append]
      exact ih.step s

/-- **When the description of a variant is current.** In every run without outages the workspace describes
each registered variant with its handle, the path of its project, the name of its framework, and the label
that the variant was introduced with last: the names of the project and of the framework that held when a
message registered it. So the description is the one of the variant as it is now exactly if that label is
still the label of the variant. -/
theorem description_current_iff (extension : String) (steps : List Step) {id : Nat} {p : Project}
    {v : Variant} (hp : ((new extension).run steps).store.project? id = some p) (hv : v ∈ p.variants)
    (hreg : v.registered = true) :
    let described := ((new extension).run steps).workspace.info? v.handle
    ∃ name, introduction ((new extension).history steps) id v.framework.name = some name ∧
      described = some
        { handle := v.handle, name := name, filePath := p.path, framework := v.framework.name } ∧
      (described = some (v.framework.projectInfo v.handle p.name p.path) ↔
        name = p.name ++ "+" ++ v.framework.shortName) := by
  intro described
  have hr := labelled_run extension steps
  have hhas : ((new extension).run steps).store.Has id v := ⟨p, hp, hv⟩
  obtain ⟨e, he, -⟩ := hr.mirror.shown hhas hreg
  have hsome : described = some e.info := by
    change ((new extension).run steps).workspace.info? v.handle = _
    rw [Workspace.info?, he, Option.map_some]
  have hpath : ((new extension).run steps).store.path? id = some p.path := by rw [path?, hp, Option.map_some]
  obtain ⟨name, hlabel, hinfo⟩ := hr.named hhas hpath hsome
  rw [hinfo] at hsome
  refine ⟨name, hlabel, hsome, ?_⟩
  rw [hsome, Framework.projectInfo, Option.some_inj, Workspace.ProjectInfo.mk.injEq]
  simp

/-- A message about the first project, which gives its name and the short name of its one framework. -/
def naming (name shortName : String) : Message where
  type := "ProjectInformation"
  contextId := 1
  payload := some ("\x7b\"Name\":\"" ++ name ++ "\",\"Frameworks\":[\x7b\"FrameworkName\":\"net\",\"ShortName\":\"" ++
    shortName ++ "\"\x7d]\x7d")

/-- The variant of the first project that such a message leaves. -/
def namedVariant (shortName : String) : Variant where
  framework := { name := "net", shortName := shortName }
  handle := ⟨1⟩
  registered := true

/-- The first project after such a message. -/
def namedProject (name shortName : String) : Project where
  path := "/app"
  name := name
  variants := [namedVariant shortName]

theorem description_current_when_repeated :
    let r := (new ".cs").run [.track "/app", .apply (naming "app" "n45"), .apply (naming "app" "n45")]
    r.workspace.info? ⟨1⟩ = some ((namedVariant "n45").framework.projectInfo ⟨1⟩ "app" "/app") := by
  intro r
  have hp : r.store.project? 1 = some (namedProject "app" "n45") := by decide +kernel
  have hintro : introduction ((new ".cs").history
      [.track "/app", .apply (naming "app" "n45"), .apply (naming "app" "n45")]) 1 "net" = some "app+n45" := by
    decide +kernel
  obtain ⟨name, hlabel, -, hcurrent⟩ :=
    description_current_iff ".cs" _ hp (List.mem_singleton_self (namedVariant "n45")) rfl
  refine hcurrent.2 ?_
  rw [← Option.some_inj, ← hlabel]
  exact hintro

/-- A project and its framework are renamed: the graph has the new names, and the workspace still describes
the variant under the old ones. -/
theorem renamed_variant_keeps_description :
    let r := (new ".cs").run [.track "/app", .apply (naming "app" "n45"), .apply (naming "web" "n46")]
    let v := namedVariant "n46"
    let p := namedProject "web" "n46"
    r.store.project? 1 = some p ∧ v ∈ p.variants ∧ v.registered = true ∧
      r.workspace.info? v.handle =
        some { handle := ⟨1⟩, name := "app+n45", filePath := "/app", framework := "net" } ∧
      r.workspace.info? v.handle ≠ some (v.framework.projectInfo v.handle p.name p.path) := by
  decide +kernel

end Reconciler

end Graph

end CompilationBridge
