import CompilationBridge.Proofs.Graph.Footprint

/-! The frame of a message. Every kind of message comes down to operations on the variants of one project;
each of them keeps within the footprint of the project, and so does the message. The footprint is given by
the handles that the project has before or after the message: a variant that is torn down may be forgotten
on the way, and one that is made is there in the end. -/

namespace CompilationBridge.Graph.Reconciler

open Store

variable {r : Reconciler} {c : Nat} {own : List Handle} {path : String} {h : Handle} {v : Variant}

/-! ### Updates of one variant -/

/-- While a variant of a project is updated, what is beyond the project is as it was at the start. -/
def Sparing (c : Nat) (own : List Handle) (path : String) (start : Reconciler) (h : Handle)
    (r : Reconciler) : Prop :=
  Updating c h r ∧ r.store.path? c = some path ∧ Spares c own path start r

variable {start : Reconciler}

theorem Sparing.confines (hr : Sparing c own path start h r) : r.store.Confines c h :=
  hr.1.1.sound.confines hr.1.2

theorem entryUpdates_sparing (slot : Slot) (hown : h ∈ own) :
    EntryUpdates slot c h (Sparing c own path start h) where
  wellFormed hr := hr.1.1
  owns hr := hr.1.2
  drop hr hv hh hget := by
    refine ⟨(entryUpdates_updating slot c h).drop hr.1 hv hh hget, ?_,
      hr.2.2.trans (spares_dropEntry slot hr.confines hown _)⟩
    rw [dropEntry_store, path?_modifyVariant]
    exact hr.2.1
  add item hr := by
    obtain ⟨v, hv, rfl⟩ := hr.1.2
    exact ⟨(entryUpdates_updating slot c v.handle).add item hr.1,
      (path?_congr (headings_addEntry slot c v.handle _ item) c).trans hr.2.1,
      hr.2.2.trans (spares_addEntry slot hr.1.1 hv hown item)⟩

theorem edgeUpdates_sparing (hown : h ∈ own) : EdgeUpdates c h (Sparing c own path start h) where
  wellFormed hr := hr.1.1
  owns hr := hr.1.2
  dropProject hr hv hh hedge :=
    ⟨(edgeUpdates_updating c h).dropProject hr.1 hv hh hedge,
      (path?_congr (headings_dropProject c h _ _) c).trans hr.2.1,
      hr.2.2.trans (spares_dropProject hr.confines hown hr.2.1 _)⟩
  track q hr :=
    ⟨(edgeUpdates_updating c h).track q hr.1, (gains_track _ q).path hr.2.1,
      hr.2.2.withStore (spares_track q)⟩
  create hr hj hnew :=
    ⟨(edgeUpdates_updating c h).create hr.1 hj hnew, (path?_addVariant ..).trans hr.2.1,
      hr.2.2.trans ⟨spares_addVariant _ rfl, Workspace.Spares.refl own _⟩⟩
  link {r p v j u q} hr hq hv hh hnew hu hj := by
    obtain rfl : p.path = path := Option.some.inj (hq.symm.trans hr.2.1)
    exact ⟨(edgeUpdates_updating c h).link hr.1 hq hv hh hnew hu hj,
      (path?_congr (headings_link c h r p q u.handle) c).trans hr.2.1,
      hr.2.2.trans (spares_link hr.confines hown p q u.handle)⟩

theorem sparing_ownVariant (hr : r.WellFormed) (hpath : r.store.path? c = some path) {framework : Framework}
    (hown : (r.ownVariant c framework).2 ∈ own) :
    Sparing c own path r (r.ownVariant c framework).2 (r.ownVariant c framework).1 := by
  refine ⟨wellFormed_maintained.ownVariant hr hpath framework,
    (path?_congr (headings_ownVariant r c framework) c).trans hpath, ?_⟩
  obtain ⟨hr₁, v, hv, -, hh⟩ := wellFormed_maintained.variantFor hr hpath framework
  change (r.variantFor c framework).2 ∈ own at hown
  change Spares c own path r ((r.variantFor c framework).1.register c (r.variantFor c framework).2)
  rw [hh] at hown ⊢
  exact (spares_variantFor r hpath framework).trans (spares_register hr₁.sound hv hown)

/-! ### Messages -/

theorem spares_listFramework (hr : r.WellFormed) (hpath : r.store.path? c = some path) {framework : Framework}
    (hown : (r.variantFor c framework).2 ∈ own) : Spares c own path r (listFramework c r framework) := by
  obtain ⟨hr₁, v, hv, hn, hh⟩ := wellFormed_maintained.variantFor hr hpath framework
  have hr₂ := wellFormed_maintained.relabel hr₁ hv hn
  have hv₂ := hv.modify fun v => { v with framework := framework }
  have hc : (r.variantFor c framework).1.store.Confines c v.handle := hr₁.sound.confines ⟨v, hv, rfl⟩
  change Spares c own path r (((r.variantFor c framework).1.modifyVariant (r.variantFor c framework).2
    fun v => { v with framework := framework }).register c (r.variantFor c framework).2)
  rw [hh] at hown ⊢
  have hregister : Spares c own path _ _ := spares_register hr₂.sound hv₂ hown
  exact ((spares_variantFor r hpath framework).withStore (hc.spares_modify _)).trans hregister

/-- Listing frameworks one after the other. The variant of each is there in the end. -/
theorem spares_foldl_listFramework {frameworks : List Framework} (hr : r.WellFormed)
    (hpath : r.store.path? c = some path)
    (hown : ∀ k, (frameworks.foldl (listFramework c) r).store.Owns c k → k ∈ own) :
    Spares c own path r (frameworks.foldl (listFramework c) r) ∧
      Extends r.store (frameworks.foldl (listFramework c) r).store := by
  induction frameworks generalizing r with
  | nil => exact ⟨Spares.refl c own path r, Extends.refl r.store⟩
  | cons framework rest ih =>
      obtain ⟨hr₁, hpath₁⟩ := wellFormed_maintained.listFramework hr hpath framework
      obtain ⟨hrest, hext⟩ := ih hr₁ hpath₁ hown
      have hmade := (updating_listFramework hr hpath framework).2
      exact ⟨(spares_listFramework hr hpath (hown _ (hext.owns hmade))).trans hrest,
        (extends_listFramework hr hpath framework).trans hext⟩

theorem owns_of_teardown (hr : r.WellFormed) (hv : r.store.Has c v) (hreg : v.registered = true) {k : Handle}
    (hk : (r.teardown c v.handle).store.Owns c k) : r.store.Owns c k := by
  obtain ⟨w, hw, rfl⟩ := hk
  obtain ⟨u, hu, hcontent⟩ := has_of_teardown hr hv hreg hw
  refine ⟨u, hu, ?_⟩
  rw [Variant.handle_of_content hcontent, changed]
  split <;> rfl

theorem spares_applyProjectInformation (hr : r.WellFormed) (hpath : r.store.path? c = some path)
    (info : ProjectInformation) (hbefore : ∀ k, r.store.Owns c k → k ∈ own)
    (hafter : ∀ k, (r.applyProjectInformation c info).store.Owns c k → k ∈ own) :
    Spares c own path r (r.applyProjectInformation c info) := by
  have hr₁ := wellFormed_maintained.describe c info hr
  have hpath₁ : (describeIn r.store c info).path? c = some path := (path?_describeIn c).trans hpath
  have hdescribed : Spares c own path r { r with store := describeIn r.store c info } :=
    spares_store (spares_modifyProject (describe info) (path_describe info))
  have howns₁ : ∀ k, (describeIn r.store c info).Owns c k → k ∈ own := by
    rintro k ⟨v, hv, hk⟩
    exact hbefore k ⟨v, has_describeIn.1 hv, hk⟩
  obtain ⟨p, hp, -⟩ := Option.map_eq_some_iff.1 hpath
  rw [applyProjectInformation_eq hp] at hafter ⊢
  -- a framework that is left out still has the handle that its variant had before the message
  obtain ⟨⟨hr₂, hpath₂, hgone, -⟩, -⟩ := dismantled_keeps
    (Q := fun _ r' => r'.WellFormed ∧ r'.store.path? c = some path ∧ Spares c own path r r' ∧
      ∀ k, r'.store.Owns c k → k ∈ own)
    (fun hQ => hQ.1)
    (fun hQ hv hreg => ⟨hQ.1.teardown hv hreg, (path?_teardown hQ.1 hv hreg c).trans hQ.2.1,
      hQ.2.2.1.trans (spares_teardown hQ.1 hQ.2.1 hv hreg (hQ.2.2.2 _ ⟨_, hv, rfl⟩)),
      fun k hk => hQ.2.2.2 k (owns_of_teardown hQ.1 hv hreg hk)⟩)
    hp (r.visiting.perm _) ⟨hr₁, hpath₁, hdescribed, howns₁⟩
  exact hgone.trans (spares_foldl_listFramework hr₂ hpath₂ hafter).1

/-- **The footprint of a payload.** -/
theorem spares_applyPayload (hr : r.WellFormed) {ref : ProjectRef}
    (hpath : r.store.path? ref.contextId = some path) (payload : Payload)
    (hbefore : ∀ k, r.store.Owns ref.contextId k → k ∈ own)
    (hafter : ∀ k, (r.applyPayload ref payload).1.store.Owns ref.contextId k → k ∈ own) :
    Spares ref.contextId own path r (r.applyPayload ref payload).1 := by
  have hupdating := fun framework => wellFormed_maintained.ownVariant hr hpath framework
  cases payload with
  | projectInformation info => exact spares_applyProjectInformation hr hpath info hbefore hafter
  | references refs =>
      -- the variant that the message is about is there in the end, so its handle is one of the project's
      have hdone := setReferences_keeps (entryUpdates_updating .file _ _) (entryUpdates_updating .raw _ _)
        (edgeUpdates_updating _ _) (hupdating refs.framework) refs
      have hown := hafter _ hdone.2
      exact (setReferences_keeps (entryUpdates_sparing .file hown) (entryUpdates_sparing .raw hown)
        (edgeUpdates_sparing hown) (sparing_ownVariant hr hpath hown) refs).2.2
  | dependencies deps =>
      have hown := hafter _ (hupdating deps.framework).2
      exact (sparing_ownVariant hr hpath hown).2.2
  | compilerOptions options =>
      have hdone := wellFormed_maintained.setOptions options (hupdating options.framework)
      rw [applyPayload_compilerOptions, applyCompilerOptions_eq] at hafter ⊢
      have hown := hafter _ hdone.2
      have hsparing := sparing_ownVariant hr hpath hown
      exact hsparing.2.2.trans (spares_setOptions hsparing.confines hown options)
  | sources sources =>
      have hdone := setSources_keeps (entryUpdates_updating .document _ _) wellFormed_maintained.markLoaded
        (hupdating sources.framework) sources
      have hown := hafter _ hdone.2
      have hsparing := (entryUpdates_sparing .document hown).setEntries (sparing_ownVariant hr hpath hown)
        (Slot.plain ((sources.files.getD []).filter
          (r.ownVariant ref.contextId sources.framework).1.isSource))
      exact hsparing.2.2.withStore (hsparing.confines.spares_modify _)
  | hostError e => exact Spares.refl ref.contextId own path r
  | unknown type raw => exact Spares.refl ref.contextId own path r

/-- A message that cannot be decoded, is of unknown type or names no tracked project. -/
def Dropped (r : Reconciler) (m : Message) : Prop :=
  (∃ fault, m.decode = .error fault) ∨ (∃ type raw, m.decode = .ok (.unknown type raw)) ∨
    r.store.project? m.contextId = none

theorem delivery?_of_dropped {m : Message} (hm : r.Dropped m) : r.delivery? m = none := by
  unfold delivery?
  rcases hm with ⟨fault, hm⟩ | ⟨type, raw, hm⟩ | hm
  · rw [hm]
  · rw [hm]
  · split
    · rfl
    · rfl
    · rw [hm]
      rfl

theorem delivery?_id {m : Message} {d : Delivery} (hm : r.delivery? m = some d) :
    d.id = m.contextId.toNat := by
  unfold delivery? at hm
  split at hm
  · cases hm
  · cases hm
  · obtain ⟨p, -, rfl⟩ := Option.map_eq_some_iff.1 hm
    rfl

theorem spares_apply (hr : r.WellFormed) {m : Message} (hpath : r.store.path? m.contextId.toNat = some path)
    (hbefore : ∀ k, r.store.Owns m.contextId.toNat k → k ∈ own)
    (hafter : ∀ k, (r.apply m).1.store.Owns m.contextId.toNat k → k ∈ own) :
    Spares m.contextId.toNat own path r (r.apply m).1 := by
  cases hd : r.delivery? m with
  | none =>
      obtain ⟨tally, logs, heq⟩ := apply_of_dropped hd
      rw [heq]
      exact ⟨Store.Spares.refl _ own path r.store, Workspace.Spares.refl own r.workspace⟩
  | some d =>
      obtain ⟨-, p, hp, heq⟩ := apply_of_delivered hd
      have hid := delivery?_id hd
      have hcount : (r.countMessage m.type).WellFormed := hr.of_eq rfl rfl
      rw [heq, hid] at hafter
      rw [heq, hid]
      let ref : ProjectRef := ⟨m.contextId.toNat, p.path⟩
      have hpath' : (r.countMessage m.type).store.path? ref.contextId = some path := hpath
      have hspares := spares_applyPayload hcount hpath' d.payload hbefore hafter
      exact ⟨hspares.store, hspares.workspace⟩

/-! ### Reachable states -/

theorem WellFormed.withStore? (hr : r.WellFormed) (id : Nat) {s : Except Fault Store}
    {f : Project → Project} {hpath : ∀ p, (f p).path = p.path}
    (hs : ∀ store, s = .ok store → store = r.store.modifyProject id f hpath)
    (hvariants : ∀ p, (f p).variants = p.variants) :
    (r.withStore? s).WellFormed := by
  cases s with
  | error fault => exact hr
  | ok store =>
      rw [hs store rfl]
      exact hr.modifyProject id hpath hvariants

theorem WellFormed.operate (hr : r.WellFormed) (op : Operation) : (r.operate op).WellFormed := by
  cases op with
  | track q => exact wellFormed_maintained.track q hr
  | updateSettings id searchPaths settingsPath =>
      exact hr.withStore? id.toNat (fun _ => updateSettings_eq) fun _ => rfl
  | markInitialized id =>
      exact hr.withStore? id.toNat (fun _ => markInitialized_eq) fun _ => rfl
  | visit order => exact wellFormed_maintained.visit order hr
  | apply m => exact wellFormed_maintained.apply hr m

theorem wellFormed_operateAll (extension : String) (outages : Outages Workspace.Method)
    (ops : List Operation) : ((facing extension outages).operateAll ops).WellFormed :=
  List.foldlRecOn ops operate (wellFormed_of_empty rfl) fun _ hr op _ => hr.operate op

/-- **The frame of a message.** In every state that a run can reach, whichever workspace calls fail: a
message that is dropped changes neither the graph nor the workspace, makes no workspace call and has no
notice. Any other message leaves every other project as it was in all that is known of it, and each of its
variants in all but the edge back to the project of the message and the waiting variants of that project;
variants and projects that are new are blank otherwise. The handles of the variants that other projects
have are none of the project's own, before or after; under them, and under any handle that is not its own,
the workspace has what it had, apart from references to the project's own variants. -/
theorem message_frame (extension : String) (outages : Outages Workspace.Method) (ops : List Operation)
    (m : Message) :
    let r := (facing extension outages).operateAll ops
    let r' := (r.apply m).1
    let c := m.contextId.toNat
    let own := r.store.handles c ++ r'.store.handles c
    (r.Dropped m →
      r'.store = r.store ∧ r'.workspace = r.workspace ∧ r'.calls = r.calls ∧ (r.apply m).2 = []) ∧
    ∀ path, r.store.path? c = some path →
      (∀ (j : Nat) p, j ≠ c → r.store.project? j = some p →
        ∃ p', r'.store.project? j = some p' ∧ p.GrowsTo own path p') ∧
      (∀ (j : Nat) p', j ≠ c → r.store.project? j = none → r'.store.project? j = some p' →
        Project.GrowsTo own path { path := p'.path } p') ∧
      (∀ j v, j ≠ c → r.store.Has j v → v.handle ∉ own) ∧
      ∀ k, k ∉ own → (r'.workspace.projects.get? k).map (Workspace.Entry.beyond own) =
        (r.workspace.projects.get? k).map (Workspace.Entry.beyond own) := by
  intro r r' c own
  have hr : r.WellFormed := wellFormed_operateAll extension outages ops
  have hr' : r'.WellFormed := wellFormed_maintained.apply hr m
  refine ⟨fun hdropped => ?_, fun path hpath => ?_⟩
  · obtain ⟨tally, logs, heq⟩ := apply_eq_of_dropped (delivery?_of_dropped hdropped)
    have hstate : r' = { r with tally := tally, logs := logs } := congrArg Prod.fst heq
    rw [hstate]
    exact ⟨rfl, rfl, rfl, congrArg Prod.snd heq⟩
  · have hspares : Spares c own path r r' := spares_apply hr hpath
      (fun k hk => List.mem_append_left _ (mem_handles.2 hk))
      fun k hk => List.mem_append_right _ (mem_handles.2 hk)
    refine ⟨fun j p => hspares.store.kept, fun j p' => hspares.store.fresh, fun j v hj hv hmem => ?_,
      hspares.workspace⟩
    rcases List.mem_append.1 hmem with hmem | hmem
    · exact hj (hr.sound.confines (mem_handles.1 hmem) j v hv rfl)
    · obtain ⟨v', hv', hbeyond⟩ := hspares.store.has hj hv
      have hh : (v'.beyond own path).handle = (v.beyond own path).handle := congrArg Variant.handle hbeyond
      exact hj (hr'.sound.confines (mem_handles.1 hmem) j v' hv' hh)

end CompilationBridge.Graph.Reconciler
