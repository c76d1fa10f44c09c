import CompilationBridge.Proofs.Graph.Clearing

/-! The order in which a message about a project visits the frameworks that it leaves out. No order is
part of the message, so none should matter. The workspace never depends on it, and neither does what is
left of any variant; but a variant that only variants of the same message refer to is forgotten if it is
the last of them to be visited, and stays for good if it is not. -/

namespace CompilationBridge

/-- The workspace without a project and without the references to it. -/
def Workspace.withoutProject (w : Workspace) (h : Handle) : Workspace :=
  ⟨(w.projects.erase h).map fun e => { e with references := e.references.filter (· ≠ h) }⟩

theorem Workspace.withoutProject_comm (w : Workspace) (h k : Handle) :
    (w.withoutProject h).withoutProject k = (w.withoutProject k).withoutProject h := by
  have hboth : ∀ x : Handle, (decide (x ≠ k) && decide (x ≠ h)) = (decide (x ≠ h) && decide (x ≠ k)) :=
    fun x => Bool.and_comm _ _
  simp only [withoutProject, Table.erase, Table.map, List.filter_map, List.map_map, List.filter_filter,
    Function.comp_def, hboth]

namespace Graph

/-- Any order of some variants is one in which they can be visited. -/
theorem Visiting.exists_order {gone order : List Handle} (horder : order.Perm gone) :
    ∃ w : Visiting, w.order gone = order := by
  refine ⟨⟨fun handles => if handles = gone then order else handles, fun handles => ?_⟩, if_pos rfl⟩
  split
  · rename_i heq
    rwa [heq]
  · exact .refl _

namespace Store

variable {s : Store} {gone : List Handle}

theorem find?_filter_of {α : Type} {l : List α} {p q : α → Bool} (h : ∀ a ∈ l, q a = true → p a = true) :
    (l.filter p).find? q = l.find? q := by
  induction l with
  | nil => rfl
  | cons a rest ih =>
      have ih := ih fun b hb => h b (List.mem_cons_of_mem a hb)
      cases hq : q a with
      | true => simp [h a List.mem_cons_self hq, hq]
      | false =>
          cases hp : p a with
          | true => simp [hp, hq, ih]
          | false => simp [hp, hq, ih]

theorem variant?_without {h : Handle} (hh : h ∉ gone) : (s.without gone).variant? h = s.variant? h := by
  rw [variant?, variant?, variants_without]
  refine find?_filter_of fun v _ hv => ?_
  have hv : v.handle = h := by simpa using hv
  simpa [hv] using hh

theorem modifyVariant_without (s : Store) (gone : List Handle) (h : Handle) {f : Variant → Variant}
    (hf : ∀ v, (f v).handle = v.handle) :
    (s.without gone).modifyVariant h f = (s.modifyVariant h f).without gone := by
  refine mapVariants_without (g := changed h f) (fun v => ?_) gone
  unfold changed
  split
  · exact hf v
  · rfl

theorem addVariant_without (s : Store) (id : Nat) {v : Variant} (hv : v.handle ∉ gone) :
    (s.without gone).addVariant id v = (s.addVariant id v).without gone := by
  rw [addVariant, modifyProject, addVariant, modifyProject, without, without, change_change, change_change]
  refine change_congr fun {i p} _ => ?_
  by_cases hi : i = id
  · simp [hi, hv]
  · simp [hi]

end Store

namespace Reconciler

open Store

/-! ### Frameworks that a message lists -/

/-- One reconciler is another without some variants, of which none has one of the given names. -/
structure Shadows (gone : List Handle) (names : List String) (r r' : Reconciler) : Prop where
  store : r'.store = r.store.without gone
  workspace : r'.workspace = r.workspace
  outages : r'.outages = r.outages
  nextHandle : r'.nextHandle = r.nextHandle
  aside : ∀ {i v}, r.store.Has i v → v.handle ∈ gone → v.framework.name ∉ names
  given : ∀ k ∈ gone, k.value < r.nextHandle

section

variable {gone : List Handle} {names : List String} {r r' : Reconciler}

theorem Shadows.perform (hr : Shadows gone names r r') (call : Workspace.Call) :
    (r'.perform call).2 = (r.perform call).2 ∧ Shadows gone names (r.perform call).1 (r'.perform call).1 := by
  unfold Reconciler.perform
  rw [hr.workspace, hr.outages]
  dsimp only
  split
  · exact ⟨rfl, hr.store, rfl, rfl, hr.nextHandle, hr.aside, hr.given⟩
  · split <;> exact ⟨rfl, hr.store, rfl, rfl, hr.nextHandle, hr.aside, hr.given⟩

theorem Shadows.attempt (hr : Shadows gone names r r') (action : String) (id : Nat) (h : Handle)
    (call : Workspace.Call) :
    (r'.attempt action id h call).2 = (r.attempt action id h call).2 ∧
      Shadows gone names (r.attempt action id h call).1 (r'.attempt action id h call).1 := by
  obtain ⟨hresult, hr₁⟩ := hr.perform call
  unfold Reconciler.attempt
  revert hresult hr₁
  generalize r.perform call = made
  generalize r'.perform call = made'
  obtain ⟨r₁, result⟩ := made
  obtain ⟨r₁', result'⟩ := made'
  rintro (rfl : result' = result) hr₁
  cases result' with
  | none => exact ⟨rfl, hr₁⟩
  | some fault =>
      exact ⟨rfl, hr₁.store, hr₁.workspace, hr₁.outages, hr₁.nextHandle, hr₁.aside, hr₁.given⟩

theorem Shadows.carryOut (hr : Shadows gone names r r') (action : String) (id : Nat) (h : Handle)
    (call : Workspace.Call) :
    Shadows gone names (r.carryOut action id h call) (r'.carryOut action id h call) :=
  (hr.attempt action id h call).2

theorem Shadows.sendOptions (hr : Shadows gone names r r') (id : Nat) (v : Variant) :
    Shadows gone names (r.sendOptions id v) (r'.sendOptions id v) := by
  unfold Reconciler.sendOptions
  cases v.compilation with
  | none =>
      cases v.parse with
      | none => exact hr
      | some o => exact hr.carryOut ..
  | some c =>
      cases v.parse with
      | none => exact hr.carryOut ..
      | some o => exact (hr.carryOut ..).carryOut ..

theorem Shadows.modifyVariant (hr : Shadows gone names r r') {h : Handle} (hh : h ∉ gone)
    {f : Variant → Variant} (hf : ∀ v, (f v).handle = v.handle) :
    Shadows gone names (r.modifyVariant h f) (r'.modifyVariant h f) where
  store := by
    rw [modifyVariant_store, modifyVariant_store, hr.store]
    exact modifyVariant_without r.store gone h hf
  workspace := hr.workspace
  outages := hr.outages
  nextHandle := hr.nextHandle
  aside {i w} hw hgone := by
    obtain ⟨v, hv, rfl⟩ := has_modifyVariant.1 hw
    by_cases hvh : v.handle = h
    · rw [changed_of_eq hvh, hf, hvh] at hgone
      exact absurd hgone hh
    · rw [changed_of_ne hvh] at hgone ⊢
      exact hr.aside hv hgone
  given := hr.given

theorem Shadows.variantFor (hr : Shadows gone names r r') {id : Nat} {q : String}
    (hid : r.store.path? id = some q) {framework : Framework} (hname : framework.name ∈ names) :
    (r'.variantFor id framework).2 = (r.variantFor id framework).2 ∧
      (r.variantFor id framework).2 ∉ gone ∧
      Shadows gone names (r.variantFor id framework).1 (r'.variantFor id framework).1 := by
  obtain ⟨p, hp, -⟩ := Option.map_eq_some_iff.1 hid
  have hp' : r'.store.project? id =
      some { p with variants := p.variants.filter (·.handle ∉ gone) } := by
    rw [hr.store, project?_without, hp, Option.map_some]
  have haside : ∀ v ∈ p.variants, v.framework.name = framework.name → v.handle ∉ gone :=
    fun v hv hn hgone => hr.aside ⟨p, hp, hv⟩ hgone (hn ▸ hname)
  have hfind : (p.variants.filter (·.handle ∉ gone)).find? (·.framework.name = framework.name) =
      p.variants.find? (·.framework.name = framework.name) := by
    refine find?_filter_of fun v hv hn => ?_
    simpa using haside v hv (by simpa using hn)
  unfold Reconciler.variantFor
  simp only [hp, hp', Option.bind_some, Project.variant?, hfind]
  cases hv : p.variants.find? (·.framework.name = framework.name) with
  | some v =>
      have hn := List.find?_some hv
      exact ⟨rfl, haside v (List.mem_of_find?_eq_some hv) (by simpa using hn), hr⟩
  | none =>
      have hfresh : (⟨r.nextHandle⟩ : Handle) ∉ gone := fun hgone =>
        Nat.lt_irrefl _ (hr.given _ hgone)
      have hnew : r'.nextHandle = r.nextHandle := hr.nextHandle
      simp only [fresh, hnew]
      refine ⟨trivial, hfresh, ?_, hr.workspace, hr.outages, rfl, ?_, ?_⟩
      · rw [hr.store]
        exact addVariant_without r.store id hfresh
      · intro i w hw hgone
        rcases (has_addVariant ⟨q, hid⟩).1 hw with hw | ⟨-, rfl⟩
        · exact hr.aside hw hgone
        · exact absurd hgone hfresh
      · exact fun k hk => Nat.lt_succ_of_lt (hr.given k hk)

theorem Shadows.register (hr : Shadows gone names r r') (id : Nat) {h : Handle} (hh : h ∉ gone) :
    Shadows gone names (r.register id h) (r'.register id h) := by
  have hv' : r'.store.variant? h = r.store.variant? h := by rw [hr.store, variant?_without hh]
  unfold Reconciler.register
  rw [hv', hr.store, project?_without]
  cases r.store.project? id with
  | none => exact hr
  | some p =>
      cases r.store.variant? h with
      | none => exact hr
      | some v =>
          dsimp only [Option.map_some]
          split
          · exact hr
          · obtain ⟨htaken, hr₁⟩ := hr.attempt "adding project" id h
              (.addProject (v.framework.projectInfo h p.name p.path))
            revert htaken hr₁
            generalize r.attempt "adding project" id h _ = made
            generalize r'.attempt "adding project" id h _ = made'
            obtain ⟨r₁, taken⟩ := made
            obtain ⟨r₁', taken'⟩ := made'
            rintro (rfl : taken' = taken) hr₁
            cases taken' with
            | false => exact hr₁
            | true =>
                refine Shadows.modifyVariant ?_ hh fun _ => rfl
                have hr₂ := (hr₁.modifyVariant hh (f := fun v => { v with registered := true })
                  fun _ => rfl).sendOptions id v
                revert hr₂
                generalize Reconciler.sendOptions _ id v = r₂
                generalize Reconciler.sendOptions _ id v = r₂'
                intro hr₂
                induction v.pending generalizing r₂ r₂' with
                | nil => exact hr₂
                | cons k rest ih => exact ih _ _ (hr₂.carryOut ..)

theorem Shadows.listFramework (hr : Shadows gone names r r') {id : Nat} {q : String}
    (hid : r.store.path? id = some q) {framework : Framework} (hname : framework.name ∈ names) :
    Shadows gone names (listFramework id r framework) (listFramework id r' framework) := by
  obtain ⟨hsame, hstays, hr₁⟩ := hr.variantFor hid hname
  change Shadows gone names
    (((r.variantFor id framework).1.modifyVariant (r.variantFor id framework).2 _).register id
      (r.variantFor id framework).2)
    (((r'.variantFor id framework).1.modifyVariant (r'.variantFor id framework).2 _).register id
      (r'.variantFor id framework).2)
  rw [hsame]
  have hr₂ := hr₁.modifyVariant hstays (f := fun v => { v with framework := framework }) fun _ => rfl
  exact hr₂.register id hstays

theorem path?_without (s : Store) (gone : List Handle) (id : Nat) :
    (s.without gone).path? id = s.path? id := by
  rw [path?, path?, project?_without, Option.map_map]
  rfl

/-- Listing frameworks one after the other. -/
theorem Shadows.foldl_listFramework {id : Nat} {q : String} {frameworks : List Framework}
    (hnames : ∀ f ∈ frameworks, f.name ∈ names) (hr : Shadows gone names r r') (hr' : r'.WellFormed)
    (hid : r'.store.path? id = some q) :
    Shadows gone names (frameworks.foldl (Reconciler.listFramework id) r)
        (frameworks.foldl (Reconciler.listFramework id) r') ∧
      Extends r'.store (frameworks.foldl (Reconciler.listFramework id) r').store := by
  induction frameworks generalizing r r' with
  | nil => exact ⟨hr, Extends.refl _⟩
  | cons f rest ih =>
      have hid₀ : r.store.path? id = some q := by
        rwa [hr.store, path?_without] at hid
      obtain ⟨hr₁', hid₁⟩ := wellFormed_maintained.listFramework hr' hid f
      obtain ⟨hr₂, hext⟩ := ih (fun g hg => hnames g (List.mem_cons_of_mem f hg))
        (hr.listFramework hid₀ (hnames f List.mem_cons_self)) hr₁' hid₁
      exact ⟨hr₂, (extends_listFramework hr' hid f).trans hext⟩

end

/-! ### Any order -/

section

variable {r : Reconciler} {id : Nat} {p : Project} {v : Variant} {order : List Handle}

theorem Mirrored.teardown_frame (hr : r.Mirrored) (hv : r.store.Has id v) (hreg : v.registered = true) :
    (r.teardown id v.handle).workspace = r.workspace.withoutProject v.handle ∧
      (r.teardown id v.handle).nextHandle = r.nextHandle := by
  obtain ⟨p, hp, hmem⟩ := hv
  have hv : r.store.Has id v := ⟨p, hp, hmem⟩
  obtain ⟨e, he, -⟩ := hr.mirror.shown hv hreg
  have hcall : r.workspace.perform (.removeProject v.handle) = .ok (r.workspace.withoutProject v.handle) := by
    have hthere : r.workspace.projects.contains v.handle = true := (Table.contains_iff _ _).2 ⟨e, he⟩
    simp only [Workspace.perform, hthere, if_true]
    rfl
  have hcalm : Calm { r with store :=
      v.projectRefs.values.foldl (withdrawEdge p.path p v.handle) r.store } := hr.calm
  have hafter : (r.afterTeardown id p v).workspace = r.workspace.withoutProject v.handle ∧
      (r.afterTeardown id p v).nextHandle = r.nextHandle := by
    unfold afterTeardown
    rw [carryOut_of_calm hcalm hcall]
    exact ⟨rfl, rfl⟩
  rcases teardown_effect hr.sound hr.linked hp hv hreg with heq | ⟨heq, -, -⟩ <;> rw [heq] <;> exact hafter

/-- The reconciler when all frameworks that a message leaves out are down. -/
theorem Mirrored.dismantled_eq (hr : r.Mirrored) (hp : r.store.project? id = some p)
    (info : ProjectInformation)
    (horder : order.Perm (omitted (describe info p) (info.frameworks.getD []))) :
    (r.dismantled id info order).Mirrored ∧
      (r.dismantled id info order).store =
        cleared (describeIn r.store id info) (describe info p) order ∧
      (r.dismantled id info order).workspace = order.foldl Workspace.withoutProject r.workspace ∧
      (r.dismantled id info order).nextHandle = r.nextHandle := by
  have hr₁ : Mirrored { r with store := describeIn r.store id info } :=
    mirrored_maintained.describe id info hr
  have hp₁ := project?_describeIn hp info
  have hs : (describeIn r.store id info).Sound r.nextHandle := hr₁.sound
  have hl : (describeIn r.store id info).Linked := hr₁.linked
  obtain ⟨⟨hd, hstore, hw, hnext, -⟩, -⟩ := dismantled_keeps
    (Q := fun done d => d.Mirrored ∧
      d.store = cleared (describeIn r.store id info) (describe info p) done ∧
      d.workspace = done.foldl Workspace.withoutProject r.workspace ∧ d.nextHandle = r.nextHandle ∧
      ∀ k ∈ done, (describeIn r.store id info).Owns id k)
    (fun hQ => hQ.1.toWellFormed) (fun {done d x} hQ hx hreg => by
      obtain ⟨hd, hstore, hw, hnext, hdone⟩ := hQ
      obtain ⟨v, hv, rfl, -, -⟩ := of_has_cleared (hstore ▸ hx) hreg
      obtain ⟨hw₁, hnext₁⟩ := hd.teardown_frame hx hreg
      refine ⟨hd.teardown hx hreg,
        teardown_cleared hd.toWellFormed hs hl hp₁ hstore hdone hx hreg, ?_, hnext₁.trans hnext, ?_⟩
      · rw [hw₁, hw, List.foldl_append]
        rfl
      · intro k hk
        rcases List.mem_append.1 hk with hk | hk
        · exact hdone k hk
        · rw [List.mem_singleton.1 hk, leftover_handle]
          exact ⟨v, hv, rfl⟩)
    hp horder ⟨hr₁, (cleared_nil hs hl hp₁).symm, rfl, rfl, fun _ hk => nomatch hk⟩
  exact ⟨hd, hstore, hw, hnext⟩

theorem leftover_congr (s : Store) (p : Project) {gone gone' : List Handle}
    (h : ∀ k, k ∈ gone ↔ k ∈ gone') : leftover s p gone = leftover s p gone' := by
  funext w
  have hheld : holdsOn p gone w.handle = holdsOn p gone' w.handle := by simp only [holdsOn, h]
  refine Variant.ext_content ?_ ?_ ?_
  · rw [leftover_content, leftover_content, if_congr (h w.handle) rfl rfl]
  · rw [leftover, leftover, hheld]
  · rw [leftover_pending, leftover_pending, if_congr (h w.handle) rfl rfl]
    exact List.filter_congr fun k _ => by simp only [h]

/-- The reconciler with all frameworks down that a message leaves out, before anything is forgotten. -/
def dismantledBase (r : Reconciler) (id : Nat) (p : Project) (info : ProjectInformation) : Reconciler :=
  let gone := omitted (describe info p) (info.frameworks.getD [])
  { r with
    store := (describeIn r.store id info).mapVariants
      (leftover (describeIn r.store id info) (describe info p) gone)
    workspace := gone.foldl Workspace.withoutProject r.workspace }

/-- What a message about a project leaves whatever the order, before anything is forgotten. -/
def settledBase (r : Reconciler) (id : Nat) (p : Project) (info : ProjectInformation) : Reconciler :=
  (info.frameworks.getD []).foldl (listFramework id) (r.dismantledBase id p info)

theorem referrers_describe (s : Store) (id : Nat) (info : ProjectInformation) (path : String) (h : Handle) :
    referrers (describeIn s id info) path h = referrers s path h := by
  have hvariants : (describeIn s id info).variants = s.variants := by
    rw [variants, describeIn, modifyProject, values_change, variants, Table.values, List.flatMap_map,
      List.flatMap_map]
    refine List.flatMap_congr fun e _ => ?_
    split <;> rfl
  rw [referrers, referrers, hvariants]

theorem forgotten_describe (s : Store) (id : Nat) (info : ProjectInformation) (path : String)
    (order : List Handle) :
    forgotten (describeIn s id info) path order = forgotten s path order := by
  simp only [forgotten, referrers_describe]

/-- When all are down, each order has forgotten its own; none of these has a listed framework. -/
theorem Mirrored.shadows_dismantled (hr : r.Mirrored) (hp : r.store.project? id = some p)
    (info : ProjectInformation)
    (horder : order.Perm (omitted (describe info p) (info.frameworks.getD []))) (w : Visiting) :
    Shadows (forgotten r.store p.path order) ((info.frameworks.getD []).map (·.name)) (r.dismantledBase id p info)
      ((r.visit w).dismantled id info order) := by
  obtain ⟨hd, hstore, hw, hnext⟩ := (mirrored_maintained.visit w hr).dismantled_eq hp info horder
  have hs : (describeIn r.store id info).Sound r.nextHandle := (mirrored_maintained.describe id info hr).sound
  have hforgotten : forgotten (describeIn r.store id info) (describe info p).path order =
      forgotten r.store p.path order := forgotten_describe ..
  have hsub : ∀ k ∈ forgotten r.store p.path order, ∃ u, (describeIn r.store id info).Has id u ∧
      (¬∃ f ∈ info.frameworks.getD [], f.name = u.framework.name) ∧ u.handle = k := by
    intro k hk
    obtain ⟨u, hu, -, hname, hh⟩ := mem_omitted.1 (horder.mem_iff.1 (forgotten_subset _ _ _ _ hk))
    exact ⟨u, ⟨_, project?_describeIn hp info, hu⟩, hname, hh⟩
  refine ⟨?_, ?_, hd.calm.trans hr.calm.symm, hnext, fun {i x} hx hk hmem => ?_, fun k hk => ?_⟩
  · rw [hstore, visit_store, cleared, hforgotten, leftover_congr _ _ fun k => horder.mem_iff]
    rfl
  · rw [hw, visit_workspace]
    exact horder.foldl_eq' (fun a _ b _ w => Workspace.withoutProject_comm w a b) r.workspace
  · obtain ⟨v, hv, rfl⟩ := has_mapVariants.1 hx
    rw [leftover_handle] at hk
    obtain ⟨u, hu, hname, hh⟩ := hsub _ hk
    obtain ⟨-, rfl⟩ := hs.handle_inj hv hu hh.symm
    obtain ⟨f, hf, hfn⟩ := List.mem_map.1 hmem
    refine hname ⟨f, hf, hfn.trans ?_⟩
    rw [Variant.framework_of_content (leftover_content ..)]
    split <;> rfl
  · obtain ⟨u, hu, -, rfl⟩ := hsub k hk
    exact hs.handle_lt hu

/-- **Every order leaves the same, but for what it forgets.** -/
theorem Mirrored.applyInOrder_eq (hr : r.Mirrored) (hp : r.store.project? id = some p)
    (info : ProjectInformation)
    (horder : order.Perm (omitted (describe info p) (info.frameworks.getD []))) (w : Visiting) :
    ((r.visit w).applyInOrder id info order).workspace = (r.settledBase id p info).workspace ∧
      ((r.visit w).applyInOrder id info order).store =
        (r.settledBase id p info).store.without (forgotten r.store p.path order) ∧
      Extends ((r.visit w).dismantled id info order).store ((r.visit w).applyInOrder id info order).store := by
  obtain ⟨hd, hstore, -, -⟩ := (mirrored_maintained.visit w hr).dismantled_eq hp info horder
  have hid : ((r.visit w).dismantled id info order).store.path? id = some p.path := by
    rw [hstore, visit_store, cleared, path?_without, path?, project?_mapVariants, project?_describeIn hp]
    rfl
  obtain ⟨hlisted, hext⟩ := (hr.shadows_dismantled hp info horder w).foldl_listFramework
    (fun f hf => List.mem_map.2 ⟨f, hf, rfl⟩) hd.toWellFormed hid
  exact ⟨hlisted.workspace, hlisted.store, hext⟩

/-- What is not forgotten is there when all are down. -/
theorem Mirrored.owns_dismantled (hr : r.Mirrored) (hp : r.store.project? id = some p)
    (info : ProjectInformation)
    (horder : order.Perm (omitted (describe info p) (info.frameworks.getD []))) (hv : r.store.Has id v)
    (hkept : v.handle ∉ forgotten r.store p.path order) :
    (r.dismantled id info order).store.Owns id v.handle := by
  obtain ⟨-, hstore, -, -⟩ := hr.dismantled_eq hp info horder
  have hv₁ : (describeIn r.store id info).Has id v := has_describeIn.2 hv
  rw [hstore]
  refine ⟨leftover _ _ order v, has_without.2 ⟨has_mapVariants.2 ⟨v, hv₁, rfl⟩, ?_⟩, leftover_handle ..⟩
  rwa [leftover_handle, forgotten_describe]

theorem mem_forgotten {s : Store} {next : Nat} (hs : s.Sound next) (hl : s.Linked)
    (hp : s.project? id = some p) (hv : s.Has id v) :
    v.handle ∈ forgotten s p.path order ↔ v.handle ∈ order ∧
      ∀ {i u}, s.Has i u → u.RefersTo v.handle → order.idxOf u.handle ≤ order.idxOf v.handle := by
  have hpath : s.path? id = some p.path := by rw [path?, hp, Option.map_some]
  have hmem := mem_referrers hs hl hv hpath
  simp only [forgotten, List.mem_filter, List.all_eq_true, decide_eq_true_eq, hmem]
  refine and_congr_right fun _ => ⟨fun h i u hu hr => h _ ⟨i, u, hu, rfl, hr⟩, ?_⟩
  rintro h _ ⟨i, u, hu, rfl, hr⟩
  exact h hu hr

/-- A variant that others of the message alone refer to is forgotten if it is visited last, and not if it
is visited first. -/
theorem forgotten_last_not_first {s : Store} {next : Nat} (hs : s.Sound next) (hl : s.Linked)
    (hp : s.project? id = some p) (hv : s.Has id v) {gone : List Handle} (hn : gone.Nodup) {u : Variant} {j : Nat}
    (hu : s.Has j u) (hne : u.handle ≠ v.handle) (hr : u.RefersTo v.handle)
    (hall : ∀ {i w}, s.Has i w → w.RefersTo v.handle → w.handle ∈ gone) :
    v.handle ∈ forgotten s p.path (gone.erase v.handle ++ [v.handle]) ∧
      v.handle ∉ forgotten s p.path (v.handle :: gone.erase v.handle) := by
  have hnot : v.handle ∉ gone.erase v.handle := hn.not_mem_erase
  constructor
  · refine (mem_forgotten hs hl hp hv).2 ⟨by simp, fun {i w} hw hrw => ?_⟩
    have hin : w.handle ∈ gone.erase v.handle ++ [v.handle] := by
      by_cases hwv : w.handle = v.handle
      · simp [hwv]
      · exact List.mem_append_left _ ((List.mem_erase_of_ne hwv).2 (hall hw hrw))
    have hlt := List.idxOf_lt_length_of_mem hin
    rw [List.length_append, List.length_singleton] at hlt
    rw [List.idxOf_append_of_notMem hnot, List.idxOf_cons_self]
    omega
  · intro hmem
    have hle := ((mem_forgotten hs hl hp hv).1 hmem).2 hu hr
    rw [List.idxOf_cons_self, List.idxOf_cons_ne _ hne.symm] at hle
    omega

/-- Where another variant refers to what others of the message refer to, no order matters. -/
theorem forgotten_congr {s : Store} {next : Nat} (hs : s.Sound next) (hl : s.Linked)
    (hp : s.project? id = some p) {gone order' : List Handle} (hgone : ∀ h ∈ gone, s.Owns id h)
    (hheld : ∀ u v, s.Has id u → s.Has id v → u.handle ∈ gone → v.handle ∈ gone → u.handle ≠ v.handle →
      u.RefersTo v.handle → ∃ i w, s.Has i w ∧ w.handle ∉ gone ∧ w.RefersTo v.handle)
    (horder : order.Perm gone) (horder' : order'.Perm gone) (h : Handle) :
    h ∈ forgotten s p.path order → h ∈ forgotten s p.path order' := by
  intro hmem
  have hin := horder.mem_iff.1 (forgotten_subset _ _ _ _ hmem)
  obtain ⟨v, hv, rfl⟩ := hgone h hin
  refine (mem_forgotten hs hl hp hv).2 ⟨horder'.mem_iff.2 hin, fun {i u} hu hr => ?_⟩
  have hbefore : ∀ {i w}, s.Has i w → w.RefersTo v.handle → w.handle ∈ gone := by
    intro i w hw hrw
    have hle := ((mem_forgotten hs hl hp hv).1 hmem).2 hw hrw
    have hlt := List.idxOf_lt_length_of_mem (horder.mem_iff.2 hin)
    exact horder.mem_iff.1 (List.idxOf_lt_length_iff.1 (Nat.lt_of_le_of_lt hle hlt))
  by_cases huv : u.handle = v.handle
  · exact Nat.le_of_eq (by rw [huv])
  · -- the referrer is of the message too, so a third variant refers to the one that is forgotten
    obtain ⟨u', hu', huh⟩ := hgone _ (hbefore hu hr)
    obtain ⟨rfl, rfl⟩ := hs.handle_inj hu hu' huh.symm
    obtain ⟨j, w, hw, hout, hrw⟩ := hheld u v hu hv (hbefore hu hr) hin huv hr
    exact absurd (hbefore hw hrw) hout

/-- **When the order of visiting matters.** A message about a project takes down the registered variants of
the frameworks that it leaves out, and is here applied with any order of visiting, which can be any order of
them. After every run without outages, whatever the orders of its messages, all orders leave the same
workspace, and the same graph but for the variants that they forget: those whose referrers all are down
when their turn has come. So all orders leave the same graph exactly if a variant that goes down and that
another variant of the message refers to is also referred to by a variant that does not go down. -/
theorem visiting_orders_agree_iff (extension : String) (steps : List Step) {m : Message} {d : Delivery}
    {info : ProjectInformation} (hm : ((new extension).run steps).delivery? m = some d)
    (hd : d.payload = .projectInformation info) :
    let r := (new extension).run steps
    ∃ p, r.store.project? d.id = some p ∧
      let gone := omitted (describe info p) (info.frameworks.getD [])
      let visiting := fun w => ((r.visit w).apply m).1
      (∀ order, order.Perm gone → ∃ w : Visiting, w.order gone = order) ∧
      (∃ (s : Store) (ws : Workspace), ∀ w, (visiting w).workspace = ws ∧
        (visiting w).store = s.without (forgotten r.store p.path (w.order gone))) ∧
      ((∀ w w', (visiting w).store = (visiting w').store) ↔
        ∀ u v, r.store.Has d.id u → r.store.Has d.id v → u.handle ∈ gone → v.handle ∈ gone →
          u.handle ≠ v.handle → u.RefersTo v.handle →
          ∃ i w, r.store.Has i w ∧ w.handle ∉ gone ∧ w.RefersTo v.handle) := by
  intro r
  obtain ⟨-, p, hp, -⟩ := apply_of_delivered hm
  have hr : r.Mirrored := mirrored_run extension steps
  have hr₁ : (r.countMessage m.type).Mirrored := mirrored_maintained.quiet _ r.logs hr
  have hp₁ : (r.countMessage m.type).store.project? d.id = some p := hp
  refine ⟨p, hp, ?_⟩
  intro gone visiting
  have happly : ∀ w : Visiting, visiting w =
      ((r.countMessage m.type).visit w).applyInOrder d.id info (w.order gone) := by
    intro w
    obtain ⟨-, q, -, happly⟩ := apply_of_delivered (r := r.visit w) hm
    rw [hd] at happly
    exact happly.trans (applyProjectInformation_eq (r := (r.countMessage m.type).visit w) hp₁ info)
  have hvisiting : ∀ w : Visiting,
      (visiting w).workspace = ((r.countMessage m.type).settledBase d.id p info).workspace ∧
      (visiting w).store = ((r.countMessage m.type).settledBase d.id p info).store.without
        (forgotten r.store p.path (w.order gone)) ∧
      Extends (((r.countMessage m.type).visit w).dismantled d.id info (w.order gone)).store
        (visiting w).store := by
    intro w
    rw [happly]
    exact hr₁.applyInOrder_eq hp₁ info (w.perm gone) w
  have hn : gone.Nodup := omitted_nodup (hr.sound) hp (info.frameworks.getD [])
  have hgone : ∀ h ∈ gone, r.store.Owns d.id h := by
    intro h hh
    obtain ⟨v, hv, -, -, rfl⟩ := mem_omitted.1 hh
    exact ⟨v, ⟨p, hp, hv⟩, rfl⟩
  refine ⟨fun _ => Visiting.exists_order, ⟨_, _, fun w => ⟨(hvisiting w).1, (hvisiting w).2.1⟩⟩, ?_, ?_⟩
  · intro hsame u v hu hv huin hvin hne hrefers
    by_contra hnone
    have hall : ∀ {i w}, r.store.Has i w → w.RefersTo v.handle → w.handle ∈ gone := by
      intro i w hw hrw
      by_contra hout
      exact hnone ⟨i, w, hw, hout, hrw⟩
    have hlast : (gone.erase v.handle ++ [v.handle]).Perm gone :=
      (List.perm_append_singleton ..).trans (List.perm_cons_erase hvin).symm
    have hfirst : (v.handle :: gone.erase v.handle).Perm gone := (List.perm_cons_erase hvin).symm
    obtain ⟨hgoes, hstays⟩ := forgotten_last_not_first hr.sound hr.linked hp hv hn hu hne hrefers hall
    obtain ⟨first, hfirst⟩ := Visiting.exists_order hfirst
    obtain ⟨last, hlast⟩ := Visiting.exists_order hlast
    rw [← hfirst] at hstays
    rw [← hlast] at hgoes
    -- visited first, the variant is there in the end; visited last, it is not
    have hthere : (visiting first).store.Owns d.id v.handle :=
      (hvisiting first).2.2.owns ((mirrored_maintained.visit first hr₁).owns_dismantled hp₁ info
        (first.perm gone) hv hstays)
    rw [hsame first last, (hvisiting last).2.1] at hthere
    obtain ⟨w, hw, hwv⟩ := hthere
    exact (has_without.1 hw).2 (hwv ▸ hgoes)
  · intro hheld w w'
    rw [(hvisiting w).2.1, (hvisiting w').2.1]
    refine without_congr _ fun h => ⟨?_, ?_⟩
    · exact forgotten_congr hr.sound hr.linked hp hgone hheld (w.perm gone) (w'.perm gone) h
    · exact forgotten_congr hr.sound hr.linked hp hgone hheld (w'.perm gone) (w.perm gone) h

/-- A project with two frameworks, of which the second references the first. -/
def chained : List Step := [
  .track "/app",
  .apply {
    type := "ProjectInformation"
    contextId := 1
    payload := some
      "\x7b\"Frameworks\":[\x7b\"FrameworkName\":\"old\"\x7d,\x7b\"FrameworkName\":\"new\"\x7d]\x7d" },
  .apply {
    type := "References"
    contextId := 1
    payload := some ("\x7b\"Framework\":\x7b\"FrameworkName\":\"new\"\x7d,\"ProjectReferences\":[\x7b" ++
      "\"Path\":\"/app\",\"Framework\":\x7b\"FrameworkName\":\"old\"\x7d\x7d]\x7d") }]

/-- The message that leaves both frameworks out. -/
def bothLeftOut : Message :=
  { type := "ProjectInformation", contextId := 1, payload := some "\x7b\x7d" }

/-- The order in which the variants came, backwards. -/
def backwards : Visiting := ⟨List.reverse, List.reverse_perm⟩

/-- The two orders of visiting leave the same workspace. -/
theorem chained_workspaces_agree :
    let r := (new ".cs").run chained
    ((r.visit {}).apply bothLeftOut).1.workspace = ((r.visit backwards).apply bothLeftOut).1.workspace := by
  have hthere : (((new ".cs").run chained).store.project? 1).isSome = true := by
    decide +kernel
  obtain ⟨p, hp⟩ := Option.isSome_iff_exists.1 hthere
  have hdecode : bothLeftOut.decode = .ok (.projectInformation {}) := by
    rfl
  have hm : ((new ".cs").run chained).delivery? bothLeftOut =
      some ⟨((new ".cs").run chained).store, 1, .projectInformation {}⟩ := by
    unfold delivery?
    rw [hdecode]
    exact congrArg (Option.map _) hp
  obtain ⟨p, -, -, hall, -⟩ := visiting_orders_agree_iff ".cs" chained hm rfl
  -- nothing of the run matters any more
  revert hall
  generalize (new ".cs").run chained = r
  rintro ⟨s, ws, hall⟩
  exact (hall {}).1.trans (hall backwards).1.symm

/-- The order decides what is left: visited before the variant that references it, the first framework
stays, with nothing that refers to it; visited after it, it goes. -/
theorem order_of_visiting_shows :
    let r := (new ".cs").run chained
    (r.store.project? 1).map (fun p => omitted (describe {} p) []) = some [⟨1⟩, ⟨2⟩] ∧
      ((r.visit {}).apply bothLeftOut).1.store.variants =
        [{ framework := { name := "old" }, handle := ⟨1⟩ }] ∧
      ((r.visit backwards).apply bothLeftOut).1.store.variants = [] := by
  decide +kernel

end

end Reconciler

end Graph

end CompilationBridge
